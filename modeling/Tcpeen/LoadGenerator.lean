import Tcpeen.ConnectionHistory

/-! `on_tick_cb` of tcplg.c, which takes the load generator through its phases, and the callbacks of
its connections between the ticks. The clock, libuv and the server are arguments; what goes to
the terminal is left out up to the final statistics. -/
namespace Tcpeen.LoadGenerator

/-- What `main` sets up: `g_num_conns`, `transmit_ticks`, `transmit_time_ms` and the message. -/
structure Config where
  numConns : Nat
  transmitTicks : UInt64
  transmitTimeMs : UInt64
  message : List UInt8

/-- `g_max_connections_per_timer`. -/
def maxConnectionsPerTimer : Nat := 1000

/-- The final statistics; `latencyAvg` is missing where the divisor is zero. -/
structure Final where
  latencyMax : UInt64
  latencyTotal : UInt64
  msgsTotal : UInt64
  latencyAvg : Option UInt64
  deriving DecidableEq, Repr

/-- The globals. All connections share `g_tcp_ctx`; `replies` is the number of reads that
`on_tcp_recv_cb` has counted for any of them. -/
structure State where
  appstate : Nat
  startTicks : UInt64
  currentTicks : UInt64
  elapsedMs : UInt64
  elapsedSinceIo : UInt64
  lastRecvMsgs : UInt64
  conns : Nat → Connection.World
  ctx : Connection.Context
  final : Option Final
  replies : Nat

/-- The readings of the clock in a tick, and the answers to its calls for each connection. -/
structure TickInput where
  first : UInt64
  now : UInt64
  connects : Nat → Option Connection.ConnectStep
  writes : Nat → UInt64 × Connection.WriteOutcome

namespace State

/-- A connection with its context. -/
def conn (s : State) (i : Nat) : Connection.World :=
  { s.conns i with conn := { (s.conns i).conn with ctx := s.ctx } }

def setConn (s : State) (i : Nat) (w : Connection.World) : State :=
  { s with conns := Function.update s.conns i w, ctx := w.conn.ctx }

/-- A call on a connection. -/
def call (s : State) (i : Nat) (label : Connection.Label) : Option State :=
  (Connection.step (s.conn i) label).map (s.setConn i)

/-- `tcp_connect_begin`. A handle whose `uv_tcp_init` fails counts as one that is open. -/
def connect (s : State) (i : Nat) (failure : Option Connection.ConnectStep) : State :=
  let begun := (s.conn i).tcpInit failure
  s.setConn i (begun.run (Connection.tcpConnectBegin begun.closing (s.conn i).count failure (s.conn i).conn).2)

end State

/-- The counters of a loop over the connections. -/
structure Tally where
  connected : Nat
  connecting : Nat
  failed : Nat
  connsMade : Nat

def Tally.zero : Tally := ⟨0,0,0,0⟩

/-- One turn of the loop of phase 1. -/
def connectTurn (cfg : Config) (input : TickInput) (p : State × Tally) (i : Nat) : Option (State × Tally) :=
  let (s, tally) := p
  match (s.conns i).conn.state with
  | .connecting => some (s, { tally with connecting := tally.connecting + 1 })
  | .connected => some (s, { tally with connected := tally.connected + 1 })
  | .disconnecting => some (s, { tally with failed := tally.failed + 1 })
  | state =>
    let tally := if state = .disconnected then { tally with failed := tally.failed + 1 } else tally
    if min cfg.numConns maxConnectionsPerTimer ≤ tally.connsMade then some (s, tally)
    else some (s.connect i (input.connects i), { tally with connsMade := tally.connsMade + 1 })

def connectPhase (cfg : Config) (input : TickInput) (s : State) : Option State :=
  ((List.range cfg.numConns).foldlM (connectTurn cfg input) (s, .zero)).map fun (s, tally) =>
    if cfg.numConns ≤ tally.connected then { s with elapsedMs := 0, appstate := s.appstate + 1 } else s

/-- One turn of the loop of phase 2. -/
def transmitTurn (cfg : Config) (input : TickInput) (doneSend : Bool) (s : State) (i : Nat) : Option State :=
  if doneSend then some s
  else if (s.conns i).conn.state = .connected then
    s.call i (.writeBegin (input.writes i).1 cfg.message (input.writes i).2)
  else some s

def transmitPhase (cfg : Config) (input : TickInput) (s : State) : Option State :=
  let doneSend : Bool := cfg.transmitTimeMs < s.elapsedMs
  ((List.range cfg.numConns).foldlM (transmitTurn cfg input doneSend) s).map fun s =>
    let s :=
      if s.lastRecvMsgs ≠ s.ctx.recvMsgs then { s with elapsedSinceIo := 0, lastRecvMsgs := s.ctx.recvMsgs } else s
    if doneSend && 6000 < s.elapsedSinceIo then { s with elapsedMs := 0, appstate := s.appstate + 1 } else s

/-- A sum over the connections. -/
def total (n : Nat) (value : Nat → UInt64) : UInt64 := (List.range n).foldl (fun sum i => sum + value i) 0

def finalStats (cfg : Config) (s : State) : Final :=
  let latencyMax := (List.range cfg.numConns).foldl (fun most i =>
    if most < (s.conns i).conn.latencyMax then (s.conns i).conn.latencyMax else most) 0
  let latencyTotal := total cfg.numConns fun i => (s.conns i).conn.latencyTotal
  let msgsTotal := total cfg.numConns fun i => (s.conns i).conn.recvMsgs
  ⟨latencyMax,latencyTotal,msgsTotal,if msgsTotal = 0 then none else some (latencyTotal / msgsTotal)⟩

def reportPhase (cfg : Config) (s : State) : Option State :=
  ((List.range cfg.numConns).foldlM (fun (s : State) i => s.call i .disconnect) s).map fun s =>
    let s := { s with elapsedMs := 0, appstate := s.appstate + 1 }
    { s with final := some (finalStats cfg s) }

/-- `tn_tstamp_convert` from nanoseconds to milliseconds. -/
def toMs (ticks : UInt64) : UInt64 := ticks / 1000000

/-- `start_ticks` as the tick compares it with the clock. -/
def State.since (s : State) (input : TickInput) : UInt64 := if s.startTicks = 0 then input.first else s.startTicks

/-- The phases 4 and 5 close the terminal and the timer. -/
def onTickCb (cfg : Config) (input : TickInput) (s : State) : Option State :=
  let s := { s with startTicks := s.since input, currentTicks := input.now }
  let tickDiff := s.currentTicks - s.startTicks
  if tickDiff < cfg.transmitTicks then some s
  else
    let s := { s with
      startTicks := s.currentTicks
      elapsedMs := s.elapsedMs + toMs tickDiff
      elapsedSinceIo := s.elapsedSinceIo + toMs tickDiff }
    match s.appstate with
    | 0 => some { s with appstate := 1 }
    | 1 => connectPhase cfg input s
    | 2 => transmitPhase cfg input s
    | 3 => reportPhase cfg s
    | 4 => some { s with appstate := 5 }
    | 5 => some { s with appstate := 6 }
    | _ => some s

inductive Label
  | tick (input : TickInput)
  | callback (i : Nat) (label : Connection.Label)

/-- The read is counted: it has bytes, they fit the buffer, and no frame in them ends the decoding. -/
def counted (c : Connection.Conn) : Connection.Label → Bool
  | .recvCb _ now (.data (byte :: rest)) =>
    match c.nextBuffer.write (byte :: rest) with
    | none => false
    | some b =>
      match Connection.decode now (rest.length + 1) (b.readLength + 1) { c with nextBuffer := b } 0 with
      | some (_, some _, _) => true
      | _ => false
  | _ => false

/-- The division by zero ends the program. -/
def State.faulted (s : State) : Bool := s.final.any fun final => final.latencyAvg.isNone

def step (cfg : Config) (s : State) : Label → Option State
  | .tick input => if s.faulted then none else onTickCb cfg input s
  | .callback i label =>
    if s.faulted || cfg.numConns ≤ i || label.callback.isNone then none
    else (s.call i label).map fun s' =>
      { s' with replies := if counted (s.conn i).conn label then s.replies + 1 else s.replies }

/-- `mems` is what the blocks of the connections held before. -/
def start (mems : Nat → Nat → UInt8) : State where
  appstate := 0
  startTicks := 0
  currentTicks := 0
  elapsedMs := 0
  elapsedSinceIo := 0
  lastRecvMsgs := 0
  conns := fun i => Connection.initialWorld ⟨0,0,0,0⟩ (mems i)
  ctx := ⟨0,0,0,0⟩
  final := none
  replies := 0

/-- The tick runs phase 3. -/
def reports (cfg : Config) (s : State) (input : TickInput) : Bool :=
  s.appstate = 3 && !(input.now - s.since input < cfg.transmitTicks)

/-- A tick that runs phase 3 comes after reads have been counted, and not just 2^64 of them or a
multiple. -/
def answered (cfg : Config) (s : State) : Label → Bool
  | .tick input => !reports cfg s input || s.replies % 2 ^ 64 ≠ 0
  | .callback .. => true

section Counting

open Connection

variable {c c' : Conn} {closing : Nat → Bool}

theorem disconnect_recvMsgs (c : Conn) : (tcpConnDisconnect closing c).1.recvMsgs = c.recvMsgs := by
  rcases tcpConnDisconnect_cases closing c with same | ⟨h,-,-,same⟩ <;> rw [same]

theorem connectBegin_recvMsgs (fresh : Nat) (failure : Option ConnectStep) (c : Conn) :
    (tcpConnectBegin closing fresh failure c).2.1.recvMsgs = c.recvMsgs := by
  unfold tcpConnectBegin
  split
  · rfl
  · split
    · rfl
    · exact disconnect_recvMsgs _
    · exact disconnect_recvMsgs _
    · rfl

theorem connectedCb_recvMsgs (h : Nat) (connected reading : Bool) (c : Conn) :
    (onTcpConnectedCb closing h connected reading c).1.recvMsgs = c.recvMsgs := by
  unfold onTcpConnectedCb
  split
  · exact disconnect_recvMsgs _
  · dsimp only
    split
    · rfl
    · exact disconnect_recvMsgs _

theorem writeBegin_recvMsgs (ticks : UInt64) (data : List UInt8) (outcome : WriteOutcome) (c : Conn) :
    (tcpWriteBegin closing ticks data outcome c).1.recvMsgs = c.recvMsgs := by
  unfold tcpWriteBegin
  split
  · rfl
  · split
    · rfl
    · split
      · rfl
      · dsimp only
        split
        · rfl
        · split
          · rfl
          · split
            · rfl
            · exact disconnect_recvMsgs _
            · rfl

theorem writeCb_recvMsgs (now : UInt64) (status : Int) (length : Nat) (c : Conn) :
    (onTcpWriteCb closing now status length c).1.recvMsgs = c.recvMsgs := by
  have leaves (c₁ : Conn) (same : c₁.recvMsgs = c.recvMsgs) :
      (if status ≠ 0 ∨ c₁.state ≠ .connected then tcpConnDisconnect closing c₁ else (c₁, [])).1.recvMsgs =
        c.recvMsgs := by
    split
    · exact (disconnect_recvMsgs c₁).trans same
    · exact same
  unfold onTcpWriteCb
  refine leaves _ ?_
  split
  · rfl
  · split <;> rfl

/-- A read adds one where it is counted. -/
theorem recvCb_recvMsgs {h : Nat} {now : UInt64} {read : Read} {effects : List Effect}
    (called : onTcpRecvCb closing now read c = some (c', effects)) :
    c'.recvMsgs = c.recvMsgs + if counted c (.recvCb h now read) then 1 else 0 := by
  cases read with
  | error code =>
    obtain rfl : _ = c' := congrArg Prod.fst (Option.some.inj called)
    simp [counted,disconnect_recvMsgs]
  | data bytes =>
    cases bytes with
    | nil =>
      cases called
      simp [counted]
    | cons byte rest =>
      simp only [onTcpRecvCb] at called
      cases wrote : c.nextBuffer.write (byte :: rest) with
      | none =>
        rw [wrote] at called
        cases called
        simp [counted,wrote]
      | some b =>
        rw [wrote] at called
        obtain ⟨⟨c'',latency,later⟩,decoded,same⟩ := Option.map_eq_some_iff.mp called
        have kept : c''.recvMsgs = c.recvMsgs := (decode_only decoded).1.same Conn.recvMsgs fun _ _ _ _ => rfl
        rw [List.length_cons] at decoded
        cases latency with
        | none =>
          cases same
          simp [counted,wrote,decoded,kept]
        | some latency =>
          cases same
          simp [counted,wrote,decoded,recvDone,kept]

theorem step_recvMsgs {w w' : World} {label : Connection.Label} (taken : Connection.step w label = some w') :
    w'.conn.recvMsgs = w.conn.recvMsgs + if counted w.conn label then 1 else 0 := by
  cases label with
  | connectBegin failure =>
    simp only [Connection.step,Option.ite_none_left_eq_some] at taken
    obtain ⟨-,same⟩ := taken
    cases same
    simp [counted,run_conn,connectBegin_recvMsgs]
  | writeBegin ticks data outcome =>
    simp only [Connection.step] at taken
    split at taken
    · cases taken
      simp [counted,run_conn,writeBegin_recvMsgs]
    · cases taken
      simp [counted]
  | disconnect =>
    cases taken
    simp [counted,run_conn,disconnect_recvMsgs]
  | connectedCb h connected reading =>
    simp only [Connection.step,Option.ite_none_right_eq_some] at taken
    obtain ⟨-,same⟩ := taken
    cases same
    simp [counted,run_conn,connectedCb_recvMsgs]
  | recvCb h now read =>
    simp only [Connection.step,Option.ite_none_right_eq_some] at taken
    obtain ⟨⟨c',effects⟩,called,rfl⟩ := Option.map_eq_some_iff.mp taken.2
    rw [run_conn]
    exact recvCb_recvMsgs called
  | writeCb h now status length =>
    simp only [Connection.step,Option.ite_none_right_eq_some] at taken
    obtain ⟨-,same⟩ := taken
    cases same
    simp [counted,run_conn,writeCb_recvMsgs]
  | closeCb h =>
    simp only [Connection.step,Option.ite_none_right_eq_some] at taken
    obtain ⟨-,same⟩ := taken
    cases same
    dsimp only
    split <;> simp [counted,onTcpCloseCb]

end Counting

section Phases

variable {cfg : Config} {input : TickInput} {s s' : State} {mems : Nat → Nat → UInt8}

def State.recvMsgs (s : State) (i : Nat) : UInt64 := (s.conns i).conn.recvMsgs

theorem call_recvMsgs {i : Nat} {label : Connection.Label} (taken : s.call i label = some s') :
    s'.recvMsgs = Function.update s.recvMsgs i
      (s.recvMsgs i + if counted (s.conn i).conn label then 1 else 0) := by
  obtain ⟨w,moved,rfl⟩ := Option.map_eq_some_iff.mp taken
  funext j
  by_cases same : j = i
  · subst same
    simpa [State.recvMsgs,State.setConn,State.conn] using step_recvMsgs moved
  · simp [State.recvMsgs,State.setConn,same]

/-- Nothing is received or reported. -/
structure Kept (s s' : State) : Prop where
  recvMsgs : s'.recvMsgs = s.recvMsgs
  replies : s'.replies = s.replies
  final : s'.final = s.final

theorem Kept.trans {s₁ s₂ s₃ : State} (first : Kept s₁ s₂) (second : Kept s₂ s₃) : Kept s₁ s₃ :=
  ⟨second.recvMsgs.trans first.recvMsgs,second.replies.trans first.replies,second.final.trans first.final⟩

theorem call_kept {i : Nat} {label : Connection.Label} (initiated : label.callback = none)
    (taken : s.call i label = some s') : Kept s s' := by
  have same := call_recvMsgs taken
  have none' : counted (s.conn i).conn label = false := by
    cases label <;> simp [Connection.Label.callback] at initiated <;> rfl
  obtain ⟨w,-,rfl⟩ := Option.map_eq_some_iff.mp taken
  exact ⟨by simpa [none'] using same,rfl,rfl⟩

theorem connect_kept (i : Nat) (failure : Option Connection.ConnectStep) : Kept s (s.connect i failure) := by
  refine ⟨?_,rfl,rfl⟩
  funext j
  by_cases same : j = i
  · subst same
    simp [State.recvMsgs,State.connect,State.setConn,State.conn,connectBegin_recvMsgs]
  · simp [State.recvMsgs,State.connect,State.setConn,same]

/-- A loop keeps what its turns keep. -/
theorem foldlM_kept {P : Type} {turn : P → Nat → Option P} (state : P → State)
    (keeps : ∀ p i p', turn p i = some p' → Kept (state p) (state p')) (indices : List Nat) {p p' : P}
    (ran : indices.foldlM turn p = some p') : Kept (state p) (state p') := by
  induction indices generalizing p with
  | nil =>
    cases ran
    exact ⟨rfl,rfl,rfl⟩
  | cons i rest ih =>
    rw [List.foldlM_cons] at ran
    obtain ⟨middle,first,later⟩ := Option.bind_eq_some_iff.mp ran
    exact (keeps p i middle first).trans (ih later)

theorem connectTurn_kept {p p' : State × Tally} {i : Nat} (taken : connectTurn cfg input p i = some p') :
    Kept p.1 p'.1 := by
  obtain ⟨s,tally⟩ := p
  have same : Kept s s := ⟨rfl,rfl,rfl⟩
  have begins (tally : Tally)
      (begun : (if min cfg.numConns maxConnectionsPerTimer ≤ tally.connsMade then some (s, tally)
        else some (s.connect i (input.connects i), { tally with connsMade := tally.connsMade + 1 })) = some p') :
      Kept s p'.1 := by
    split at begun
    · cases begun
      exact same
    · cases begun
      exact connect_kept i _
  simp only [connectTurn] at taken
  split at taken
  · cases taken
    exact same
  · cases taken
    exact same
  · cases taken
    exact same
  · exact begins _ taken

theorem transmitTurn_kept {doneSend : Bool} {i : Nat} (taken : transmitTurn cfg input doneSend s i = some s') :
    Kept s s' := by
  simp only [transmitTurn] at taken
  split at taken
  · cases taken
    exact ⟨rfl,rfl,rfl⟩
  · split at taken
    · exact call_kept rfl taken
    · cases taken
      exact ⟨rfl,rfl,rfl⟩

theorem connectPhase_kept (taken : connectPhase cfg input s = some s') : Kept s s' := by
  obtain ⟨⟨s₁,tally⟩,ran,rfl⟩ := Option.map_eq_some_iff.mp taken
  have kept := foldlM_kept Prod.fst (fun _ _ _ => connectTurn_kept) _ ran
  dsimp only
  split <;> exact ⟨kept.recvMsgs,kept.replies,kept.final⟩

theorem transmitPhase_kept (taken : transmitPhase cfg input s = some s') : Kept s s' := by
  obtain ⟨s₁,ran,rfl⟩ := Option.map_eq_some_iff.mp taken
  have kept := foldlM_kept id (fun _ _ _ => transmitTurn_kept) _ ran
  dsimp only
  split <;> split <;> exact ⟨kept.recvMsgs,kept.replies,kept.final⟩

/-- The divisor of the final statistics is the sum over the connections. -/
theorem reportPhase_final (taken : reportPhase cfg s = some s') :
    s'.recvMsgs = s.recvMsgs ∧ s'.replies = s.replies ∧
      (s'.faulted = true ↔ total cfg.numConns s.recvMsgs = 0) := by
  obtain ⟨s₁,ran,rfl⟩ := Option.map_eq_some_iff.mp taken
  have kept := foldlM_kept id (fun _ _ _ => call_kept rfl) _ ran
  refine ⟨kept.recvMsgs,kept.replies,?_⟩
  have divisor : (fun i => (s₁.conns i).conn.recvMsgs) = s.recvMsgs := kept.recvMsgs
  simp only [State.faulted,finalStats,divisor,Option.any_some,Option.isNone_iff_eq_none]
  split <;> simp_all

/-- A tick that does not run phase 3 receives and reports nothing. -/
theorem onTickCb_kept (other : reports cfg s input = false) (taken : onTickCb cfg input s = some s') : Kept s s' := by
  simp only [onTickCb] at taken
  split at taken
  · cases taken
    exact ⟨rfl,rfl,rfl⟩
  · next open' =>
    split at taken
    · cases taken
      exact ⟨rfl,rfl,rfl⟩
    · have kept := connectPhase_kept taken
      exact ⟨kept.recvMsgs,kept.replies,kept.final⟩
    · have kept := transmitPhase_kept taken
      exact ⟨kept.recvMsgs,kept.replies,kept.final⟩
    · next phase => simp [reports,phase,open'] at other
    · cases taken
      exact ⟨rfl,rfl,rfl⟩
    · cases taken
      exact ⟨rfl,rfl,rfl⟩
    · cases taken
      exact ⟨rfl,rfl,rfl⟩

theorem onTickCb_reports (runs : reports cfg s input = true) (taken : onTickCb cfg input s = some s') :
    s'.recvMsgs = s.recvMsgs ∧ s'.replies = s.replies ∧
      (s'.faulted = true ↔ total cfg.numConns s.recvMsgs = 0) := by
  simp only [reports,Bool.and_eq_true,decide_eq_true_eq,Bool.not_eq_true',decide_eq_false_iff_not] at runs
  simp only [onTickCb,if_neg runs.2,runs.1] at taken
  have reported := reportPhase_final taken
  exact reported

theorem total_succ (n : Nat) (value : Nat → UInt64) : total (n + 1) value = total n value + value n := by
  simp [total,List.range_succ]

theorem total_congr {n : Nat} {value value' : Nat → UInt64} (same : ∀ i < n, value i = value' i) :
    total n value = total n value' := by
  induction n with
  | zero => rfl
  | succ n ih => rw [total_succ,total_succ,ih fun i inside => same i (by omega),same n (by omega)]

theorem total_zero (n : Nat) : total n (fun _ => 0) = 0 := by
  induction n with
  | zero => rfl
  | succ n ih => rw [total_succ,ih,UInt64.add_zero]

theorem total_update {n i : Nat} (inside : i < n) (value : Nat → UInt64) (more : UInt64) :
    total n (Function.update value i (value i + more)) = total n value + more := by
  induction n with
  | zero => omega
  | succ n ih =>
    rw [total_succ,total_succ]
    by_cases last : i = n
    · subst last
      have same : total i (Function.update value i (value i + more)) = total i value :=
        total_congr fun j before => Function.update_of_ne (Nat.ne_of_lt before) ..
      rw [same,Function.update_self,UInt64.add_assoc]
    · rw [ih (by omega),Function.update_of_ne (Ne.symm last)]
      ac_rfl

/-- The connections have received what has been counted. -/
theorem reachable_total (reach : Transition.Reachable (step cfg) (fun _ _ => True) (start mems) s) :
    total cfg.numConns s.recvMsgs = UInt64.ofNat s.replies := by
  refine reach.invariant (fun s => total cfg.numConns s.recvMsgs = UInt64.ofNat s.replies)
    (total_zero cfg.numConns) ?_
  intro s label s' before _ taken
  cases label with
  | tick input =>
    simp only [step,Option.ite_none_left_eq_some] at taken
    cases runs : reports cfg s input with
    | false =>
      have kept := onTickCb_kept runs taken.2
      rw [kept.recvMsgs,kept.replies,before]
    | true =>
      obtain ⟨recvMsgs,replies,-⟩ := onTickCb_reports runs taken.2
      rw [recvMsgs,replies,before]
  | callback i label =>
    simp only [step,Option.ite_none_left_eq_some] at taken
    obtain ⟨allowed,moved⟩ := taken
    obtain ⟨s₁,called,rfl⟩ := Option.map_eq_some_iff.mp moved
    have inside : i < cfg.numConns := by
      simp only [Bool.or_eq_true,decide_eq_true_eq,not_or] at allowed
      omega
    change total cfg.numConns s₁.recvMsgs = _
    rw [call_recvMsgs called,total_update inside,before]
    split
    · rw [UInt64.ofNat_add]
      rfl
    · rw [UInt64.add_zero]

/-- A tick divides by zero exactly where it runs phase 3 without an answer. -/
theorem tick_faulted (reach : Transition.Reachable (step cfg) (fun _ _ => True) (start mems) s)
    (taken : step cfg s (.tick input) = some s') : s'.faulted = true ↔ answered cfg s (.tick input) = false := by
  simp only [step,Option.ite_none_left_eq_some] at taken
  obtain ⟨going,taken⟩ := taken
  cases runs : reports cfg s input with
  | false =>
    have kept := onTickCb_kept runs taken
    have same : s'.faulted = s.faulted := by rw [State.faulted,kept.final,State.faulted]
    rw [same]
    simpa [answered,runs] using going
  | true =>
    have zero : UInt64.ofNat s.replies = 0 ↔ s.replies % 2 ^ 64 = 0 := by
      rw [← UInt64.toNat_inj,UInt64.toNat_ofNat']
      rfl
    rw [(onTickCb_reports runs taken).2.2,reachable_total reach,zero]
    simp [answered,runs]

end Phases

/-- For every number of connections and every order of ticks and callbacks: if each tick that runs
phase 3 comes after an answer, the average is always defined, and a tick of any run that does
not divides by zero. -/
theorem average_defined (cfg : Config) (mems : Nat → Nat → UInt8) :
    (∀ s, Transition.Reachable (step cfg) (fun s label => answered cfg s label = true) (start mems) s →
      s.faulted = false) ∧
    ∀ s input s', Transition.Reachable (step cfg) (fun _ _ => True) (start mems) s →
      step cfg s (.tick input) = some s' → (s'.faulted = true ↔ answered cfg s (.tick input) = false) := by
  refine ⟨fun s reach => ?_,fun s input s' reach taken => tick_faulted reach taken⟩
  refine reach.invariant_with _ (fun s => s.faulted = false)
    (fun s reached => reached.weaken fun _ _ _ => trivial) rfl ?_
  intro s label s' reached going allowed taken
  cases label with
  | tick input =>
    by_contra faulted
    have unanswered := (tick_faulted reached taken).mp (by simpa using faulted)
    rw [unanswered] at allowed
    contradiction
  | callback i label =>
    simp only [step,Option.ite_none_left_eq_some] at taken
    obtain ⟨s₁,called,rfl⟩ := Option.map_eq_some_iff.mp taken.2
    obtain ⟨w,-,rfl⟩ := Option.map_eq_some_iff.mp called
    exact going

/-- One connection, no limit of the rate, ten seconds. -/
def sampleConfig : Config := ⟨1,0,10000,[109]⟩

def tickAt (now : UInt64) : Label := .tick ⟨now,now,fun _ => none,fun _ => (now,.sent)⟩

/-- The connection is made and a message is sent. -/
def sending : List Label :=
  [tickAt 1,tickAt 2,.callback 0 (.connectedCb 0 true true),tickAt 3,tickAt 4,.callback 0 (.writeCb 0 4 0 22)]

/-- The server echoes the message. -/
def echoRun : List Label :=
  sending ++ [.callback 0 (.recvCb 0 5000000 (.data [0,0,0,18,0,0,0,0,0,0,0,1,0,0,0,0,0,0,0,4,109,0])),
    tickAt 20000000000,tickAt 40000000000,tickAt 40000000001]

theorem average_defined_echo :
    ∃ s, Transition.execute (Transition.checked (step sampleConfig) (answered sampleConfig)) echoRun
        (start fun _ _ => 0) = some s ∧ s.final = some ⟨4,4,1,some 4⟩ ∧ s.faulted = false := by
  have observed : (Transition.execute (Transition.checked (step sampleConfig) (answered sampleConfig)) echoRun
      (start fun _ _ => 0)).map (fun s => s.final) = some (some ⟨4,4,1,some 4⟩) := by decide +kernel
  obtain ⟨s,run,final⟩ := Option.map_eq_some_iff.mp observed
  exact ⟨s,run,final,(average_defined sampleConfig fun _ _ => 0).1 s (.of_checked (fun _ _ passed => passed) run)⟩

/-- The server says nothing until the load generator gives up. -/
def silentRun : List Label := sending ++ [tickAt 20000000000,tickAt 20000000001]

theorem silent_divides :
    ∃ s, Transition.Reachable (step sampleConfig) (fun _ _ => True) (start fun _ _ => 0) s ∧
      s.final = some ⟨0,0,0,none⟩ ∧ s.faulted = true := by
  have observed : (Transition.execute (step sampleConfig) silentRun (start fun _ _ => 0)).map
      (fun s => (s.final, s.faulted)) = some (some ⟨0,0,0,none⟩, true) := by decide +kernel
  obtain ⟨s,run,same⟩ := Option.map_eq_some_iff.mp observed
  obtain ⟨final,faulted⟩ := Prod.mk.inj same
  exact ⟨s,.of_execute (fun _ _ _ => trivial) run,final,faulted⟩

end Tcpeen.LoadGenerator
