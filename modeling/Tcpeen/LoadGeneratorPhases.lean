import Tcpeen.LoadGenerator
import Tcpeen.ConnectionStatistics
import Tcpeen.Library.Turns

/-! The phases of the load generator over whole runs: nothing is written before all connections
are made, and once the statistics are out nothing moves but the closing of handles. -/
namespace Tcpeen.LoadGenerator

open Connection (World Ordered)

/-- The state in which a tick works that does not come too early. -/
def State.ticked (s : State) (input : TickInput) : State :=
  { s with
    startTicks := input.now
    currentTicks := input.now
    elapsedMs := s.elapsedMs + toMs (input.now - s.since input)
    elapsedSinceIo := s.elapsedSinceIo + toMs (input.now - s.since input) }

/-- What a tick does. -/
inductive Ticks (cfg : Config) (input : TickInput) (s s' : State) : Prop
  | early : input.now - s.since input < cfg.transmitTicks →
      s' = { s with startTicks := s.since input, currentTicks := input.now } → Ticks cfg input s s'
  | moves : ¬ input.now - s.since input < cfg.transmitTicks → s.appstate = 0 ∨ s.appstate = 4 ∨ s.appstate = 5 →
      s' = { s.ticked input with appstate := s.appstate + 1 } → Ticks cfg input s s'
  | connects : ¬ input.now - s.since input < cfg.transmitTicks → s.appstate = 1 →
      connectPhase cfg input (s.ticked input) = some s' → Ticks cfg input s s'
  | transmits : ¬ input.now - s.since input < cfg.transmitTicks → s.appstate = 2 →
      transmitPhase cfg input (s.ticked input) = some s' → Ticks cfg input s s'
  | reports : ¬ input.now - s.since input < cfg.transmitTicks → s.appstate = 3 →
      reportPhase cfg (s.ticked input) = some s' → Ticks cfg input s s'
  | rests : ¬ input.now - s.since input < cfg.transmitTicks → 6 ≤ s.appstate → s' = s.ticked input →
      Ticks cfg input s s'

/-- The ids that a connection has used for its messages. -/
def State.msgs (s : State) (i : Nat) : UInt64 := (s.conns i).conn.currentMsgId

def State.link (s : State) (i : Nat) : Connection.ConnectionState := (s.conns i).conn.state

/-- The connection with the shared context. -/
def inContext (w : World) (ctx : Connection.Context) : World := { w with conn := { w.conn with ctx } }

/-- What phase 1 may do to a connection. -/
inductive Connects (w w' : World) : Prop
  | rests : w' = w → Connects w w'
  | begins (ctx : Connection.Context) (failure : Option Connection.ConnectStep) :
      w' = ((inContext w ctx).tcpInit failure).run (Connection.tcpConnectBegin
        ((inContext w ctx).tcpInit failure).closing (inContext w ctx).count failure (inContext w ctx).conn).2 →
      Connects w w'

/-- What phase 2 may do to a connection. -/
inductive Transmits (cfg : Config) (w w' : World) : Prop
  | rests : w' = w → Transmits cfg w w'
  | writes (ctx : Connection.Context) (ticks : UInt64) (outcome : Connection.WriteOutcome) :
      Connection.step (inContext w ctx) (.writeBegin ticks cfg.message outcome) = some w' → Transmits cfg w w'

/-- What phase 3 does to a connection. -/
def Disconnects (w w' : World) : Prop := ∃ ctx, Connection.step (inContext w ctx) .disconnect = some w'

section Ticks

variable {cfg : Config} {input : TickInput} {s s' : State}

theorem onTickCb_ticks (taken : onTickCb cfg input s = some s') : Ticks cfg input s s' := by
  simp only [onTickCb] at taken
  split at taken
  · next early =>
    cases taken
    exact .early early rfl
  · next acts =>
    split at taken
    · next phase =>
      cases taken
      exact .moves acts (.inl phase) (by rw [phase]; rfl)
    · next phase => exact .connects acts phase taken
    · next phase => exact .transmits acts phase taken
    · next phase => exact .reports acts phase taken
    · next phase =>
      cases taken
      exact .moves acts (.inr (.inl phase)) (by rw [phase]; rfl)
    · next phase =>
      cases taken
      exact .moves acts (.inr (.inr phase)) (by rw [phase]; rfl)
    · next other =>
      cases taken
      refine .rests acts ?_ rfl
      grind

/-- Where a call goes, and where it does not. -/
theorem call_place {i : Nat} {label : Connection.Label} (taken : s.call i label = some s') :
    Connection.step (inContext (s.conns i) s.ctx) label = some (s'.conns i) ∧
      ∀ j, j ≠ i → s'.conns j = s.conns j := by
  obtain ⟨w,moved,rfl⟩ := Option.map_eq_some_iff.mp taken
  refine ⟨?_,fun j other => by simp [State.setConn,other]⟩
  have same : s.conn i = inContext (s.conns i) s.ctx := rfl
  rw [← same,moved]
  simp [State.setConn]

theorem connectTurn_place {p p' : State × Tally} {i : Nat} (taken : connectTurn cfg input p i = some p') :
    Connects (p.1.conns i) (p'.1.conns i) ∧ ∀ j, j ≠ i → p'.1.conns j = p.1.conns j := by
  obtain ⟨s,tally⟩ := p
  have stays : Connects (s.conns i) (s.conns i) ∧ ∀ j, j ≠ i → s.conns j = s.conns j := ⟨.rests rfl,fun _ _ => rfl⟩
  have begins (tally : Tally)
      (begun : (if min cfg.numConns maxConnectionsPerTimer ≤ tally.connsMade then some (s, tally)
        else some (s.connect i (input.connects i), { tally with connsMade := tally.connsMade + 1 })) = some p') :
      Connects (s.conns i) (p'.1.conns i) ∧ ∀ j, j ≠ i → p'.1.conns j = s.conns j := by
    split at begun
    · cases begun
      exact stays
    · cases begun
      refine ⟨.begins s.ctx (input.connects i) ?_,fun j other => by simp [State.connect,State.setConn,other]⟩
      simp [State.connect,State.setConn,State.conn,inContext]
  simp only [connectTurn] at taken
  split at taken
  · cases taken
    exact stays
  · cases taken
    exact stays
  · cases taken
    exact stays
  · exact begins _ taken

theorem transmitTurn_place {doneSend : Bool} {i : Nat} (taken : transmitTurn cfg input doneSend s i = some s') :
    (if doneSend then s'.conns i = s.conns i else Transmits cfg (s.conns i) (s'.conns i)) ∧
      ∀ j, j ≠ i → s'.conns j = s.conns j := by
  simp only [transmitTurn] at taken
  split at taken
  · next done =>
    cases taken
    rw [if_pos done]
    exact ⟨rfl,fun _ _ => rfl⟩
  · next going =>
    rw [if_neg going]
    split at taken
    · obtain ⟨moved,others⟩ := call_place taken
      exact ⟨.writes _ _ _ moved,others⟩
    · cases taken
      exact ⟨.rests rfl,fun _ _ => rfl⟩

/-- The turns leave everything but the connections. -/
def OnlyConns (s s' : State) : Prop := s' = { s with conns := s'.conns, ctx := s'.ctx }

theorem OnlyConns.refl (s : State) : OnlyConns s s := rfl

theorem OnlyConns.trans {s₁ s₂ s₃ : State} (first : OnlyConns s₁ s₂) (second : OnlyConns s₂ s₃) :
    OnlyConns s₁ s₃ := by
  unfold OnlyConns at *
  rw [second,first]

theorem call_only {i : Nat} {label : Connection.Label} (taken : s.call i label = some s') : OnlyConns s s' := by
  obtain ⟨w,-,rfl⟩ := Option.map_eq_some_iff.mp taken
  rfl

theorem connectTurn_only {p p' : State × Tally} {i : Nat} (taken : connectTurn cfg input p i = some p') :
    OnlyConns p.1 p'.1 := by
  obtain ⟨s,tally⟩ := p
  simp only [connectTurn] at taken
  repeat' split at taken
  all_goals cases taken
  all_goals rfl

theorem transmitTurn_only {doneSend : Bool} {i : Nat} (taken : transmitTurn cfg input doneSend s i = some s') :
    OnlyConns s s' := by
  simp only [transmitTurn] at taken
  split at taken
  · cases taken
    rfl
  · split at taken
    · exact call_only taken
    · cases taken
      rfl

/-- The handles that the first connections have had. -/
def State.opened (s : State) (n : Nat) : Nat := ((List.range n).map fun i => (s.conns i).count).sum

theorem opened_succ (s : State) (n : Nat) : s.opened (n + 1) = s.opened n + (s.conns n).count := by
  simp [State.opened,List.range_succ]

theorem opened_congr {n : Nat} (same : ∀ i < n, (s'.conns i).count = (s.conns i).count) :
    s'.opened n = s.opened n := by
  induction n with
  | zero => rfl
  | succ n ih => rw [opened_succ,opened_succ,ih fun i inside => same i (by omega),same n (by omega)]

theorem connect_count (i : Nat) (failure : Option Connection.ConnectStep) :
    ((s.connect i failure).conns i).count ≤ (s.conns i).count + 1 := by
  have begun : ((s.conn i).tcpInit failure).count ≤ (s.conns i).count + 1 := by
    unfold World.tcpInit
    split
    · exact Nat.le_refl _
    · exact Nat.le_succ _
  simpa [State.connect,State.setConn] using begun

/-- What one turn of phase 1 adds to the counters. -/
theorem connectTurn_tally {p p' : State × Tally} {i : Nat} (taken : connectTurn cfg input p i = some p')
    (made : p.2.connsMade ≤ min cfg.numConns maxConnectionsPerTimer) :
    p'.2.connsMade ≤ min cfg.numConns maxConnectionsPerTimer ∧
      (p'.1.conns i).count + p.2.connsMade ≤ (p.1.conns i).count + p'.2.connsMade ∧
      (p'.2.connected = p.2.connected ∨
        p'.2.connected = p.2.connected + 1 ∧ p.1.link i = .connected ∧ p'.1 = p.1) := by
  obtain ⟨s,tally⟩ := p
  have begins (tally' : Tally) (same : tally'.connected = tally.connected ∧ tally'.connsMade = tally.connsMade)
      (begun : (if min cfg.numConns maxConnectionsPerTimer ≤ tally'.connsMade then some (s, tally')
        else some (s.connect i (input.connects i), { tally' with connsMade := tally'.connsMade + 1 })) = some p') :
      p'.2.connsMade ≤ min cfg.numConns maxConnectionsPerTimer ∧
        (p'.1.conns i).count + tally.connsMade ≤ (s.conns i).count + p'.2.connsMade ∧
        p'.2.connected = tally.connected := by
    split at begun
    · cases begun
      exact ⟨same.2 ▸ made,by rw [same.2],same.1⟩
    · next room =>
      cases begun
      have more : ((s.connect i (input.connects i)).conns i).count ≤ (s.conns i).count + 1 := connect_count ..
      exact ⟨by dsimp only; omega,by dsimp only; omega,same.1⟩
  simp only [connectTurn] at taken
  split at taken
  · cases taken
    exact ⟨made,Nat.le_refl _,.inl rfl⟩
  · next linked =>
    cases taken
    exact ⟨made,Nat.le_refl _,.inr ⟨rfl,linked,rfl⟩⟩
  · cases taken
    exact ⟨made,Nat.le_refl _,.inl rfl⟩
  · obtain ⟨room,counts,same⟩ := begins _ (by split <;> exact ⟨rfl,rfl⟩) taken
    exact ⟨room,counts,.inl same⟩

/-- The loop of phase 1 counts every connection as connected only where it changes nothing. -/
theorem connectTurns_tally (n : Nat) {p' : State × Tally}
    (ran : (List.range n).foldlM (connectTurn cfg input) (s, .zero) = some p') :
    p'.2.connsMade ≤ min cfg.numConns maxConnectionsPerTimer ∧ p'.1.opened n ≤ s.opened n + p'.2.connsMade ∧
      p'.2.connected ≤ n ∧ (p'.2.connected = n → p'.1 = s ∧ ∀ i < n, s.link i = .connected) := by
  induction n generalizing p' with
  | zero =>
    cases ran
    exact ⟨Nat.zero_le _,Nat.le_refl _,Nat.le_refl _,fun _ => ⟨rfl,fun i inside => absurd inside (Nat.not_lt_zero i)⟩⟩
  | succ n ih =>
    rw [List.range_succ,List.foldlM_append] at ran
    obtain ⟨p,before,ran⟩ := Option.bind_eq_some_iff.mp ran
    rw [List.foldlM_cons] at ran
    obtain ⟨last,taken,rest⟩ := Option.bind_eq_some_iff.mp ran
    cases rest
    obtain ⟨made,opened,connected,all⟩ := ih before
    obtain ⟨made',counts,step⟩ := connectTurn_tally taken made
    have earlier : (p.1.conns n).count = (s.conns n).count := by
      rw [(Turns.foldlM_range (fun p i => p.1.conns i) (fun _ => Connects)
        (fun _ _ _ taken => (connectTurn_place taken).1) (fun _ _ _ taken => (connectTurn_place taken).2)
        n before).2 n (Nat.le_refl n)]
    have others : p'.1.opened n = p.1.opened n :=
      opened_congr fun i inside => by rw [(connectTurn_place taken).2 i (by omega)]
    refine ⟨made',?_,?_,fun every => ?_⟩
    · rw [opened_succ,opened_succ]
      omega
    · rcases step with same | ⟨more,-,-⟩ <;> omega
    · rcases step with same | ⟨more,linked,kept⟩
      · omega
      · obtain ⟨same,links⟩ := all (by omega)
        refine ⟨kept.trans same,fun i inside => ?_⟩
        by_cases newest : i = n
        · rw [newest,← same]
          exact linked
        · exact links i (by omega)

/-- Phase 1 makes a bounded number of connects, and only ends where it makes none because all
connections are there. -/
theorem connectPhase_places (taken : connectPhase cfg input s = some s') :
    (∀ i, Connects (s.conns i) (s'.conns i)) ∧
      s'.opened cfg.numConns ≤ s.opened cfg.numConns + min cfg.numConns maxConnectionsPerTimer ∧
      (OnlyConns s s' ∨ s' = { s with elapsedMs := 0, appstate := s.appstate + 1 } ∧
        ∀ i < cfg.numConns, s.link i = .connected) := by
  obtain ⟨⟨s₁,tally⟩,ran,rfl⟩ := Option.map_eq_some_iff.mp taken
  obtain ⟨turned,kept⟩ := Turns.foldlM_range (fun p i => p.1.conns i) (fun _ => Connects)
    (fun _ _ _ taken => (connectTurn_place taken).1) (fun _ _ _ taken => (connectTurn_place taken).2) _ ran
  obtain ⟨made,opened,connected,all⟩ := connectTurns_tally _ ran
  have only : OnlyConns s s₁ := Turns.foldlM_keeps (fun p : State × Tally => OnlyConns s p.1)
    (fun _ _ _ before taken => before.trans (connectTurn_only taken)) _ (OnlyConns.refl s) ran
  have places (i : Nat) : Connects (s.conns i) (s₁.conns i) := by
    by_cases inside : i < cfg.numConns
    · exact turned i inside
    · exact .rests (kept i (by omega))
  dsimp only at *
  split
  · next full =>
    obtain ⟨same,links⟩ := all (by omega)
    subst same
    exact ⟨places,by simp only [State.opened] at *; omega,.inr ⟨rfl,links⟩⟩
  · exact ⟨places,by omega,.inl only⟩

/-- What phase 2 leaves: it writes to connections, and only while its time is not over. -/
structure Transmitted (cfg : Config) (s s' : State) : Prop where
  turns : ∀ i, Transmits cfg (s.conns i) (s'.conns i)
  expired : cfg.transmitTimeMs < s.elapsedMs → s'.conns = s.conns
  started : s'.startTicks = s.startTicks
  current : s'.currentTicks = s.currentTicks
  final : s'.final = s.final
  phase : s'.appstate = s.appstate ∧ s'.elapsedMs = s.elapsedMs ∨
    s'.appstate = s.appstate + 1 ∧ s'.elapsedMs = 0 ∧ cfg.transmitTimeMs < s.elapsedMs

theorem transmitPhase_transmitted (taken : transmitPhase cfg input s = some s') : Transmitted cfg s s' := by
  obtain ⟨s₁,ran,rfl⟩ := Option.map_eq_some_iff.mp taken
  obtain ⟨turned,kept⟩ := Turns.foldlM_range (fun s i => s.conns i)
    (fun _ w w' => if decide (cfg.transmitTimeMs < s.elapsedMs) then w' = w else Transmits cfg w w')
    (fun _ _ _ taken => (transmitTurn_place taken).1) (fun _ _ _ taken => (transmitTurn_place taken).2) _ ran
  have only : OnlyConns s s₁ := Turns.foldlM_keeps (OnlyConns s)
    (fun _ _ _ before taken => before.trans (transmitTurn_only taken)) _ (OnlyConns.refl s) ran
  have places (i : Nat) : Transmits cfg (s.conns i) (s₁.conns i) ∧
      (cfg.transmitTimeMs < s.elapsedMs → s₁.conns i = s.conns i) := by
    by_cases inside : i < cfg.numConns
    · have turn := turned i inside
      split at turn
      · exact ⟨.rests turn,fun _ => turn⟩
      · next going => exact ⟨turn,fun expired => absurd (decide_eq_true expired) going⟩
    · exact ⟨.rests (kept i (by omega)),fun _ => kept i (by omega)⟩
  have ends (s₂ : State)
      (same : s₂ = { s₁ with elapsedSinceIo := s₂.elapsedSinceIo, lastRecvMsgs := s₂.lastRecvMsgs }) :
      Transmitted cfg s (if decide (cfg.transmitTimeMs < s.elapsedMs) && decide (6000 < s₂.elapsedSinceIo) then
        { s₂ with elapsedMs := 0, appstate := s₂.appstate + 1 } else s₂) := by
    rw [only] at same
    have turns (i : Nat) : Transmits cfg (s.conns i) (s₂.conns i) := by
      rw [same]
      exact (places i).1
    have expired (past : cfg.transmitTimeMs < s.elapsedMs) : s₂.conns = s.conns := by
      rw [same]
      exact funext fun i => (places i).2 past
    split
    · next past =>
      have past' : cfg.transmitTimeMs < s.elapsedMs := of_decide_eq_true (Bool.and_eq_true_iff.mp past).1
      refine ⟨turns,expired,?_,?_,?_,.inr ⟨?_,rfl,past'⟩⟩ <;> rw [same]
    · refine ⟨turns,expired,?_,?_,?_,.inl ⟨?_,?_⟩⟩ <;> rw [same]
  exact ends _ (by split <;> rfl)

/-- Phase 3 disconnects every connection before it takes the statistics. -/
theorem reportPhase_places (taken : reportPhase cfg s = some s') :
    (∀ i < cfg.numConns, Disconnects (s.conns i) (s'.conns i)) ∧
      (∀ i, cfg.numConns ≤ i → s'.conns i = s.conns i) ∧
      s'.startTicks = s.startTicks ∧ s'.currentTicks = s.currentTicks ∧ s'.appstate = s.appstate + 1 ∧
      s'.final = some (finalStats cfg s') := by
  obtain ⟨s₁,ran,rfl⟩ := Option.map_eq_some_iff.mp taken
  obtain ⟨turned,kept⟩ := Turns.foldlM_range (fun s i => s.conns i) (fun _ => Disconnects)
    (fun _ _ _ taken => ⟨_,(call_place taken).1⟩) (fun _ _ _ taken => (call_place taken).2) _ ran
  have only : OnlyConns s s₁ := Turns.foldlM_keeps (OnlyConns s)
    (fun _ _ _ before taken => before.trans (call_only taken)) _ (OnlyConns.refl s) ran
  have clock : s₁.startTicks = s.startTicks ∧ s₁.currentTicks = s.currentTicks ∧ s₁.appstate = s.appstate := by
    rw [only]
    exact ⟨rfl,rfl,rfl⟩
  obtain ⟨started,current,phase⟩ := clock
  exact ⟨turned,kept,started,current,congrArg (· + 1) phase,rfl⟩

end Ticks

/-- What a tick may do to a connection in each phase. -/
inductive Turned (cfg : Config) (w w' : World) : Nat → Prop
  | rests {phase : Nat} : w' = w → Turned cfg w w' phase
  | connects : Connects w w' → Turned cfg w w' 1
  | transmits : Transmits cfg w w' → Turned cfg w w' 2
  | disconnects : Disconnects w w' → Turned cfg w w' 3

section Turns

open Connection

variable {cfg : Config} {w w' : World} {phase : Nat} {label : Connection.Label}

theorem inContext_ordered (ordered : Ordered w) (ctx : Context) : Ordered (inContext w ctx) :=
  ordered.keep rfl rfl

theorem Connects.ordered (connects : Connects w w') (ordered : Ordered w) : Ordered w' := by
  cases connects with
  | rests same => exact same ▸ ordered
  | begins ctx failure same => exact same ▸ (inContext_ordered ordered ctx).connectBegin failure

theorem Connects.current (connects : Connects w w') : w'.conn.currentMsgId = w.conn.currentMsgId := by
  cases connects with
  | rests same => rw [same]
  | begins ctx failure same =>
    rw [same,run_conn]
    exact (tcpConnectBegin_rests _ _ failure).current

theorem Transmits.ordered (transmits : Transmits cfg w w') (ordered : Ordered w) : Ordered w' := by
  cases transmits with
  | rests same => exact same ▸ ordered
  | writes ctx ticks outcome taken => exact (inContext_ordered ordered ctx).step taken

/-- A turn of phase 2 uses one id at most. -/
theorem Transmits.current (transmits : Transmits cfg w w') (ordered : Ordered w) : w'.count = w.count ∧
    (w'.conn.currentMsgId = w.conn.currentMsgId ∨ w'.conn.currentMsgId = w.conn.currentMsgId + 1) := by
  cases transmits with
  | rests same => exact same ▸ ⟨rfl,.inl rfl⟩
  | writes ctx ticks outcome taken =>
    obtain ⟨-,current,-,-⟩ := (inContext_ordered ordered ctx).follows taken
    refine ⟨?_,?_⟩
    · simp only [Connection.step] at taken
      split at taken
      · cases taken
        exact run_count ..
      · cases taken
        rfl
    · rw [current]
      split
      · exact .inr rfl
      · exact .inl rfl

theorem Disconnects.ordered (disconnects : Disconnects w w') (ordered : Ordered w) : Ordered w' := by
  obtain ⟨ctx,taken⟩ := disconnects
  exact (inContext_ordered ordered ctx).step taken

theorem Disconnects.current (disconnects : Disconnects w w') :
    w'.conn.currentMsgId = w.conn.currentMsgId ∧ w'.count = w.count := by
  obtain ⟨ctx,taken⟩ := disconnects
  cases taken
  rw [run_conn,run_count]
  exact ⟨(Rests.disconnect _ (⟨rfl,rfl⟩ : Rests (inContext w ctx).conn (inContext w ctx).conn)).current,rfl⟩

theorem callback_count (about : label.callback ≠ none) (taken : Connection.step w label = some w') :
    w'.count = w.count := by
  cases label with
  | connectedCb h connected reading =>
    simp only [Connection.step,Option.ite_none_right_eq_some] at taken
    obtain ⟨-,same⟩ := taken
    cases same
    rw [run_count,setHandle_count]
  | recvCb h now read =>
    simp only [Connection.step,Option.ite_none_right_eq_some] at taken
    obtain ⟨r,-,rfl⟩ := Option.map_eq_some_iff.mp taken.2
    exact run_count ..
  | writeCb h now status length =>
    simp only [Connection.step,Option.ite_none_right_eq_some] at taken
    obtain ⟨-,same⟩ := taken
    cases same
    rw [run_count,setHandle_count]
  | closeCb h =>
    simp only [Connection.step,Option.ite_none_right_eq_some] at taken
    obtain ⟨-,same⟩ := taken
    cases same
    rfl
  | _ => exact absurd rfl about

theorem callback_current (ordered : Ordered w) (about : label.callback ≠ none)
    (taken : Connection.step w label = some w') : w'.conn.currentMsgId = w.conn.currentMsgId := by
  have takes : label.takesId w.conn = false := by
    cases label with
    | writeBegin ticks data outcome => exact absurd rfl about
    | _ => rfl
  rw [(ordered.follows taken).current,takes]
  rfl

theorem Turned.ordered (turned : Turned cfg w w' phase) (ordered : Ordered w) : Ordered w' := by
  cases turned with
  | rests same => exact same ▸ ordered
  | connects connects => exact connects.ordered ordered
  | transmits transmits => exact transmits.ordered ordered
  | disconnects disconnects => exact disconnects.ordered ordered

/-- Ids are used in phase 2 only. -/
theorem Turned.current (turned : Turned cfg w w' phase) (other : phase ≠ 2) :
    w'.conn.currentMsgId = w.conn.currentMsgId := by
  cases turned with
  | rests same => rw [same]
  | connects connects => exact connects.current
  | transmits => exact absurd rfl other
  | disconnects disconnects => exact disconnects.current.1

/-- Handles are opened in phase 1 only. -/
theorem Turned.count (turned : Turned cfg w w' phase) (ordered : Ordered w) (other : phase ≠ 1) :
    w'.count = w.count := by
  cases turned with
  | rests same => rw [same]
  | connects => exact absurd rfl other
  | transmits transmits => exact (transmits.current ordered).1
  | disconnects disconnects => exact disconnects.current.2

end Turns

section Runs

variable {cfg : Config} {input : TickInput} {s s' : State} {mems : Nat → Nat → UInt8}
  {guard : State → Label → Prop} {label : Label}

theorem Ticks.turned (ticks : Ticks cfg input s s') (i : Nat) : Turned cfg (s.conns i) (s'.conns i) s.appstate := by
  cases ticks with
  | early _ same => exact .rests (by rw [same])
  | moves _ _ same => exact .rests (by rw [same]; rfl)
  | connects _ phase taken => exact phase ▸ .connects ((connectPhase_places taken).1 i)
  | transmits _ phase taken => exact phase ▸ .transmits ((transmitPhase_transmitted taken).turns i)
  | reports _ phase taken =>
    obtain ⟨turned,kept,-⟩ := reportPhase_places taken
    by_cases inside : i < cfg.numConns
    · exact phase ▸ .disconnects (turned i inside)
    · exact .rests (kept i (by omega))
  | rests _ _ same => exact .rests (by rw [same]; rfl)

/-- The phase goes on by one at most, and past phase 1 only where all are connected. -/
theorem Ticks.phase (ticks : Ticks cfg input s s') : s'.appstate = s.appstate ∨
    s'.appstate = s.appstate + 1 ∧ s.appstate < 6 ∧
      (s.appstate = 1 → s'.conns = s.conns ∧ ∀ i < cfg.numConns, s.link i = .connected) := by
  cases ticks with
  | early _ same => exact .inl (by rw [same])
  | moves _ phase same =>
    refine .inr ⟨by rw [same],by omega,fun other => ?_⟩
    omega
  | connects _ phase taken =>
    obtain ⟨-,-,only | ⟨same,links⟩⟩ := connectPhase_places taken
    · rw [only]
      exact .inl rfl
    · exact .inr ⟨by rw [same]; rfl,by omega,fun _ => ⟨by rw [same]; rfl,links⟩⟩
  | transmits _ phase taken =>
    rcases (transmitPhase_transmitted taken).phase with ⟨same,-⟩ | ⟨more,-⟩
    · exact .inl same
    · exact .inr ⟨more,by omega,by omega⟩
  | reports _ phase taken =>
    obtain ⟨-,-,-,-,more,-⟩ := reportPhase_places taken
    exact .inr ⟨more,by omega,by omega⟩
  | rests _ _ same => exact .inl (by rw [same]; rfl)

/-- A step is a tick, or a callback that leaves the phase and the clock alone. -/
theorem step_cases (taken : step cfg s label = some s') :
    (∃ input, label = .tick input ∧ s.faulted = false ∧ Ticks cfg input s s') ∨
      ∃ i moved, label = .callback i moved ∧ i < cfg.numConns ∧ moved.callback ≠ none ∧
        Connection.step (inContext (s.conns i) s.ctx) moved = some (s'.conns i) ∧
        (∀ j, j ≠ i → s'.conns j = s.conns j) ∧
        s' = { s with conns := s'.conns, ctx := s'.ctx, replies := s'.replies } := by
  cases label with
  | tick input =>
    simp only [step,Option.ite_none_left_eq_some,Bool.not_eq_true] at taken
    exact .inl ⟨input,rfl,taken.1,onTickCb_ticks taken.2⟩
  | callback i label =>
    simp only [step,Option.ite_none_left_eq_some,Bool.or_eq_true,decide_eq_true_eq,not_or] at taken
    obtain ⟨⟨⟨-,inside⟩,about⟩,moved⟩ := taken
    obtain ⟨s₁,called,rfl⟩ := Option.map_eq_some_iff.mp moved
    obtain ⟨place,others⟩ := call_place called
    have only := call_only called
    refine .inr ⟨i,label,rfl,by omega,by simpa using about,place,others,?_⟩
    rw [only]

theorem step_ordered (ordered : ∀ i, Ordered (s.conns i)) (taken : step cfg s label = some s') (i : Nat) :
    Ordered (s'.conns i) := by
  rcases step_cases taken with ⟨input,-,-,ticks⟩ | ⟨j,moved,-,-,-,place,others,-⟩
  · exact (ticks.turned i).ordered (ordered i)
  · by_cases own : i = j
    · subst own
      exact (inContext_ordered (ordered i) s.ctx).step place
    · rw [others i own]
      exact ordered i

theorem reachable_ordered (reach : Transition.Reachable (step cfg) guard (start mems) s) (i : Nat) :
    Ordered (s.conns i) :=
  reach.invariant (fun s => ∀ i, Ordered (s.conns i)) (fun _ => Connection.initialWorld_ordered ..)
    (fun _ _ _ ordered _ taken => step_ordered ordered taken) i

/-- Messages and handles are made in their phases. -/
theorem step_made (ordered : ∀ i, Ordered (s.conns i)) (taken : step cfg s label = some s') :
    (s.appstate ≠ 2 → s'.msgs = s.msgs) ∧ (s.appstate ≠ 1 → ∀ n, s'.opened n = s.opened n) ∧
      s'.opened cfg.numConns ≤ s.opened cfg.numConns + min cfg.numConns maxConnectionsPerTimer ∧
      (s'.appstate = s.appstate ∨ s'.appstate = s.appstate + 1 ∧ s.appstate < 6 ∧
        (s.appstate = 1 → s'.conns = s.conns ∧ ∀ i < cfg.numConns, s.link i = .connected)) := by
  rcases step_cases taken with ⟨input,-,-,ticks⟩ | ⟨i,moved,-,-,about,place,others,only⟩
  · have counts (other : s.appstate ≠ 1) (n : Nat) : s'.opened n = s.opened n :=
      opened_congr fun i _ => (ticks.turned i).count (ordered i) other
    refine ⟨fun other => funext fun i => (ticks.turned i).current other,counts,?_,ticks.phase⟩
    by_cases phase : s.appstate = 1
    · cases ticks with
      | connects _ _ taken => exact (connectPhase_places taken).2.1
      | early _ same =>
        have kept : s'.opened cfg.numConns = s.opened cfg.numConns := opened_congr fun i _ => by rw [same]
        omega
      | _ => omega
    · have kept := counts phase cfg.numConns
      omega
  · have current (j : Nat) : (s'.conns j).conn.currentMsgId = (s.conns j).conn.currentMsgId ∧
        (s'.conns j).count = (s.conns j).count := by
      by_cases own : j = i
      · subst own
        have current := callback_current (inContext_ordered (ordered j) s.ctx) about place
        have count := callback_count about place
        exact ⟨current,count⟩
      · rw [others j own]
        exact ⟨rfl,rfl⟩
    have counts (n : Nat) : s'.opened n = s.opened n := opened_congr fun j _ => (current j).2
    refine ⟨fun _ => funext fun j => (current j).1,fun _ => counts,?_,.inl (by rw [only])⟩
    have kept := counts cfg.numConns
    omega

/-- A step that enters phase 2 finds all connected and nothing sent. -/
theorem step_enters (ordered : ∀ i, Ordered (s.conns i)) (silent : s.appstate < 2 → ∀ i, s.msgs i = 0)
    (taken : step cfg s label = some s') (before : s.appstate < 2) (after : 2 ≤ s'.appstate) :
    (∀ i, s'.msgs i = 0) ∧ ∀ i < cfg.numConns, s'.link i = .connected := by
  obtain ⟨msgs,-,-,phase⟩ := step_made ordered taken
  rcases phase with same | ⟨more,-,all⟩
  · omega
  · obtain ⟨kept,links⟩ := all (by omega)
    refine ⟨fun i => ?_,fun i inside => ?_⟩
    · rw [msgs (by omega)]
      exact silent before i
    · rw [State.link,kept]
      exact links i inside

/-- What a run has behind it once it is past phase 1. -/
structure Entered (cfg : Config) (start s : State) : Prop where
  silent : s.appstate < 2 → ∀ i, s.msgs i = 0
  passed : 2 ≤ s.appstate → ∃ entry, Transition.Reachable (step cfg) (fun _ _ => True) start entry ∧
    Transition.Reachable (step cfg) (fun _ _ => True) entry s ∧ entry.appstate = 2 ∧
    (∀ i, entry.msgs i = 0) ∧ ∀ i < cfg.numConns, entry.link i = .connected

theorem reachable_entered (reach : Transition.Reachable (step cfg) (fun _ _ => True) (start mems) s) :
    Entered cfg (start mems) s := by
  refine reach.invariant_with (Transition.Reachable (step cfg) (fun _ _ => True) (start mems))
    (Entered cfg (start mems)) (fun _ reached => reached) ?_ ?_
  · exact ⟨fun _ _ => rfl,fun later => by simp [start] at later⟩
  · intro s label s' reached entered _ taken
    have ordered := reachable_ordered reached
    obtain ⟨msgs,-,-,phase⟩ := step_made ordered taken
    refine ⟨fun early i => ?_,fun later => ?_⟩
    · have before : s.appstate < 2 := by rcases phase with same | ⟨more,-⟩ <;> omega
      rw [msgs (by omega)]
      exact entered.silent before i
    · by_cases before : s.appstate < 2
      · have facts := step_enters ordered entered.silent taken before later
        have two : s'.appstate = 2 := by rcases phase with same | ⟨more,-⟩ <;> omega
        exact ⟨s',.step reached trivial taken,.start,two,facts⟩
      · obtain ⟨entry,first,rest,facts⟩ := entered.passed (by omega)
        exact ⟨entry,first,.step rest trivial taken,facts⟩

end Runs

/-- Over every order of ticks and callbacks: the phases follow each other; a step makes handles in
phase 1 only, not more than the limit of a tick, and messages in phase 2 only; a step that enters
phase 2 leaves every connection connected and no message used; and a run that is past phase 1 has
made such a step. -/
theorem phases_in_order (cfg : Config) (mems : Nat → Nat → UInt8) (s : State)
    (reach : Transition.Reachable (step cfg) (fun _ _ => True) (start mems) s) :
    (s.appstate < 2 → ∀ i, s.msgs i = 0) ∧
    (2 ≤ s.appstate → ∃ entry, Transition.Reachable (step cfg) (fun _ _ => True) (start mems) entry ∧
      Transition.Reachable (step cfg) (fun _ _ => True) entry s ∧ entry.appstate = 2 ∧
      (∀ i, entry.msgs i = 0) ∧ ∀ i < cfg.numConns, entry.link i = .connected) ∧
    ∀ label s', step cfg s label = some s' →
      (s'.appstate = s.appstate ∨ s'.appstate = s.appstate + 1 ∧ s.appstate < 6) ∧
      (s.appstate = 1 → s'.appstate = 2 →
        (∀ i < cfg.numConns, s'.link i = .connected) ∧ ∀ i, s'.msgs i = 0) ∧
      (s.appstate ≠ 2 → s'.msgs = s.msgs) ∧ (s.appstate ≠ 1 → ∀ n, s'.opened n = s.opened n) ∧
      s'.opened cfg.numConns ≤ s.opened cfg.numConns + min cfg.numConns 1000 := by
  have entered := reachable_entered reach
  refine ⟨entered.silent,entered.passed,fun label s' taken => ?_⟩
  have ordered := reachable_ordered reach
  obtain ⟨msgs,opened,limit,phase⟩ := step_made ordered taken
  refine ⟨?_,fun before after => ?_,msgs,opened,limit⟩
  · rcases phase with same | ⟨more,room,-⟩
    · exact .inl same
    · exact .inr ⟨more,room⟩
  · exact (step_enters ordered entered.silent taken (by omega) (by omega)).symm

theorem phases_in_order_sending :
    ∃ s, Transition.execute (step sampleConfig) sending (start fun _ _ => 0) = some s ∧ s.appstate = 2 ∧
      s.msgs 0 = 1 ∧
      ∃ entry, Transition.Reachable (step sampleConfig) (fun _ _ => True) entry s ∧ entry.msgs 0 = 0 ∧
        entry.link 0 = .connected := by
  have observed : (Transition.execute (step sampleConfig) sending (start fun _ _ => 0)).map
      (fun s => (s.appstate, s.msgs 0)) = some (2, 1) := by decide +kernel
  obtain ⟨s,run,same⟩ := Option.map_eq_some_iff.mp observed
  obtain ⟨phase,used⟩ := Prod.mk.inj same
  have reach : Transition.Reachable (step sampleConfig) (fun _ _ => True) (start fun _ _ => 0) s :=
    .of_execute (fun _ _ _ => trivial) run
  obtain ⟨entry,-,later,-,silent,linked⟩ := (phases_in_order sampleConfig _ s reach).2.1 (by omega)
  exact ⟨s,run,phase,used,entry,later,silent 0,linked 0 (by decide)⟩

/-! ### After the report -/

/-- The connection is not, and is not about to be, connected. -/
def Down (w : World) : Prop := w.conn.state ≠ .connecting ∧ w.conn.state ≠ .connected

section Report

open Connection

variable {w w' : World} {label : Connection.Label}

/-- All that libuv still has to do for such a connection is to close its handle. -/
theorem Down.closing (down : Down w) (ordered : Ordered w) {h : Nat} (active : (w.handles h).active = true) :
    w.conn.tcpHandle = some h ∧ w.conn.state = .disconnecting ∧ (w.handles h).closing = true := by
  obtain ⟨handle,fresh,ended⟩ := ordered.alone h active
  have leaving : w.conn.state = .disconnecting := by
    obtain ⟨connecting,connected⟩ := down
    cases state : w.conn.state <;> simp_all
  exact ⟨handle,leaving,(ordered.current h handle).2.2.2.mpr leaving⟩

theorem Disconnects.down (disconnects : Disconnects w w') (ordered : Ordered w) : Down w' := by
  obtain ⟨ctx,taken⟩ := disconnects
  have shared := inContext_ordered ordered ctx
  cases taken
  simp only [Down,run_conn]
  by_cases going : (inContext w ctx).conn.state = .connecting ∨ (inContext w ctx).conn.state = .connected
  · obtain ⟨h,handle⟩ := shared.engaged (by tauto)
    have open' : (inContext w ctx).closing h = false := by
      have agrees := (shared.current h handle).2.2.2
      rw [World.closing,← Bool.not_eq_true,agrees]
      rcases going with same | same <;> simp [same]
    have left : ¬ ((inContext w ctx).conn.state = .disconnected ∨ (inContext w ctx).conn.state = .disconnecting) := by
      rcases going with same | same <;> simp [same]
    simp [tcpConnDisconnect,left,handle,open']
  · rcases tcpConnDisconnect_cases (inContext w ctx).closing (inContext w ctx).conn with same | ⟨h,-,-,same⟩
    · rw [same]
      exact not_or.mp going
    · rw [same]
      simp

theorem Down.callback (down : Down w) (ordered : Ordered w) (about : label.callback ≠ none)
    (taken : Connection.step w label = some w') : Down w' := by
  obtain ⟨h,called⟩ := Option.ne_none_iff_exists'.mp about
  obtain ⟨-,leaving,-⟩ := down.closing ordered (callback_active called taken)
  obtain ⟨-,-,-,moves⟩ := ordered.follows taken
  cases moves with
  | holds holds => simp [Down,holds.leaving leaving]
  | begun => exact absurd rfl about
  | closed _ _ _ state => simp [Down,state]

theorem disconnect_statistics (closing : Nat → Bool) (c : Conn) :
    (tcpConnDisconnect closing c).1.statistics = c.statistics := by
  rcases tcpConnDisconnect_cases closing c with same | ⟨h,-,-,same⟩ <;> rw [same]
  rfl

theorem connectedCb_statistics (closing : Nat → Bool) (h : Nat) (connected reading : Bool) (c : Conn) :
    (onTcpConnectedCb closing h connected reading c).1.statistics = c.statistics := by
  unfold onTcpConnectedCb
  split
  · exact disconnect_statistics ..
  · dsimp only
    split
    · rfl
    · exact disconnect_statistics ..

theorem writeCb_statistics (closing : Nat → Bool) (now : UInt64) (status : Int) (length : Nat) (c : Conn) :
    (onTcpWriteCb closing now status length c).1.statistics = c.statistics := by
  have leaves (c₁ : Conn) (same : c₁.statistics = c.statistics) :
      (if status ≠ 0 ∨ c₁.state ≠ .connected then tcpConnDisconnect closing c₁ else (c₁, [])).1.statistics =
        c.statistics := by
    split
    · exact (disconnect_statistics closing c₁).trans same
    · exact same
  unfold onTcpWriteCb
  refine leaves _ ?_
  split
  · rfl
  · split <;> rfl

/-- Nothing is read any more. -/
theorem Down.statistics (down : Down w) (ordered : Ordered w) (about : label.callback ≠ none)
    (taken : Connection.step w label = some w') : w'.conn.statistics = w.conn.statistics := by
  cases label with
  | connectedCb h connected reading =>
    simp only [Connection.step,Option.ite_none_right_eq_some] at taken
    obtain ⟨-,same⟩ := taken
    cases same
    rw [run_conn]
    exact connectedCb_statistics ..
  | recvCb h now read =>
    obtain ⟨-,-,closing⟩ := down.closing ordered (callback_active (h := h) rfl taken)
    simp [Connection.step,closing] at taken
  | writeCb h now status length =>
    simp only [Connection.step,Option.ite_none_right_eq_some] at taken
    obtain ⟨-,same⟩ := taken
    cases same
    rw [run_conn]
    exact writeCb_statistics ..
  | closeCb h =>
    simp only [Connection.step,Option.ite_none_right_eq_some] at taken
    obtain ⟨-,same⟩ := taken
    cases same
    dsimp only
    split <;> rfl
  | _ => exact absurd rfl about

theorem finalStats_congr {cfg : Config} {s s' : State}
    (same : ∀ i < cfg.numConns, (s'.conns i).conn.statistics = (s.conns i).conn.statistics) :
    finalStats cfg s' = finalStats cfg s := by
  have recvMsgs : total cfg.numConns (fun i => (s'.conns i).conn.recvMsgs) =
      total cfg.numConns fun i => (s.conns i).conn.recvMsgs :=
    total_congr fun i inside => congrArg Statistics.recvMsgs (same i inside)
  have latencies : total cfg.numConns (fun i => (s'.conns i).conn.latencyTotal) =
      total cfg.numConns fun i => (s.conns i).conn.latencyTotal :=
    total_congr fun i inside => congrArg Statistics.latencyTotal (same i inside)
  have greatest (most : UInt64) (i : Nat) (inside : i ∈ List.range cfg.numConns) :
      (if most < (s'.conns i).conn.latencyMax then (s'.conns i).conn.latencyMax else most) =
        if most < (s.conns i).conn.latencyMax then (s.conns i).conn.latencyMax else most := by
    have latency : (s'.conns i).conn.latencyMax = (s.conns i).conn.latencyMax :=
      congrArg Statistics.latencyMax (same i (List.mem_range.mp inside))
    rw [latency]
  simp only [finalStats,recvMsgs,latencies,List.foldl_ext _ _ _ greatest]

end Report

/-- What holds once the phase of the report is over. -/
structure Reported (cfg : Config) (s : State) : Prop where
  before : s.appstate < 4 → s.final = none
  after : 4 ≤ s.appstate → s.final = some (finalStats cfg s) ∧ ∀ i < cfg.numConns, Down (s.conns i)

section Reports

variable {cfg : Config} {input : TickInput} {s s' : State} {label : Label}

theorem Reported.tick (reported : Reported cfg s) (ordered : ∀ i, Ordered (s.conns i))
    (ticks : Ticks cfg input s s') : Reported cfg s' := by
  obtain ⟨before,after⟩ := reported
  have stays (t : State) (final : t.final = s.final) (conns : t.conns = s.conns)
      (phase : 4 ≤ t.appstate ↔ 4 ≤ s.appstate) : Reported cfg t := by
    have same : finalStats cfg t = finalStats cfg s := finalStats_congr fun i _ => by rw [conns]
    refine ⟨fun early => ?_,fun late => ?_⟩
    · rw [final]
      exact before (by omega)
    · rw [final,same,conns]
      exact after (phase.mp late)
  cases ticks with
  | early _ same => exact stays s' (by rw [same]) (by rw [same]) (by rw [same])
  | moves _ phase same =>
    refine stays s' (by rw [same]; rfl) (by rw [same]; rfl) ?_
    rw [same]
    dsimp only
    omega
  | connects acts phase taken =>
    have kept := connectPhase_kept taken
    have bound := (Ticks.connects acts phase taken).phase
    refine ⟨fun _ => ?_,fun late => by omega⟩
    rw [kept.final]
    exact before (by omega)
  | transmits _ phase taken =>
    have transmitted := transmitPhase_transmitted taken
    have next := transmitted.phase
    have same : (s.ticked input).appstate = 2 := phase
    refine ⟨fun _ => ?_,fun late => by omega⟩
    rw [transmitted.final]
    exact before (by omega)
  | reports _ phase taken =>
    obtain ⟨turned,-,-,-,more,final⟩ := reportPhase_places taken
    have same : (s.ticked input).appstate = 3 := phase
    refine ⟨fun early => by omega,fun _ => ⟨final,fun i inside => ?_⟩⟩
    exact (turned i inside).down (ordered i)
  | rests _ _ same => exact stays s' (by rw [same]; rfl) (by rw [same]; rfl) (by rw [same]; rfl)

theorem Reported.step (reported : Reported cfg s) (ordered : ∀ i, Ordered (s.conns i))
    (taken : step cfg s label = some s') : Reported cfg s' := by
  rcases step_cases taken with ⟨input,-,-,ticks⟩ | ⟨i,moved,-,inside,about,place,others,only⟩
  · exact reported.tick ordered ticks
  · have phase : s'.appstate = s.appstate := by rw [only]
    have final : s'.final = s.final := by rw [only]
    refine ⟨fun early => ?_,fun late => ?_⟩
    · rw [final]
      exact reported.before (by omega)
    · obtain ⟨stats,downs⟩ := reported.after (by omega)
      have down : Down (inContext (s.conns i) s.ctx) := downs i inside
      have shared := inContext_ordered (ordered i) s.ctx
      have kept (j : Nat) (inside : j < cfg.numConns) :
          (s'.conns j).conn.statistics = (s.conns j).conn.statistics ∧ Down (s'.conns j) := by
        by_cases own : j = i
        · subst own
          have same := down.statistics shared about place
          exact ⟨same,down.callback shared about place⟩
        · rw [others j own]
          exact ⟨rfl,downs j inside⟩
      rw [final,stats,finalStats_congr fun j inside => (kept j inside).1]
      exact ⟨rfl,fun j inside => (kept j inside).2⟩

theorem reachable_reported {guard : State → Label → Prop} {mems : Nat → Nat → UInt8}
    (reach : Transition.Reachable (LoadGenerator.step cfg) guard (start mems) s) : Reported cfg s := by
  refine reach.invariant_with (fun s => ∀ i, Ordered (s.conns i)) (Reported cfg)
    (fun _ reached => reachable_ordered reached) ⟨fun _ => rfl,fun late => by simp [start] at late⟩ ?_
  intro s label s' ordered reported _ taken
  exact reported.step ordered taken

end Reports

/-- Over every order of ticks and callbacks: there is no report before phase 4, and from then on the
reported statistics are the ones that the connections have. No connection is connected or becomes
so, what libuv may still call back on is a handle that is being closed, and nothing is read. -/
theorem report_stands (cfg : Config) (mems : Nat → Nat → UInt8) (s : State)
    (reach : Transition.Reachable (step cfg) (fun _ _ => True) (start mems) s) :
    (s.appstate < 4 → s.final = none) ∧
    (4 ≤ s.appstate → s.final = some (finalStats cfg s) ∧
      ∀ i < cfg.numConns, s.link i ≠ .connecting ∧ s.link i ≠ .connected ∧
        (∀ h, ((s.conns i).handles h).active = true → ((s.conns i).handles h).closing = true) ∧
        ∀ h now read, step cfg s (.callback i (.recvCb h now read)) = none) := by
  obtain ⟨before,after⟩ := reachable_reported reach
  refine ⟨before,fun late => ?_⟩
  obtain ⟨final,downs⟩ := after late
  refine ⟨final,fun i inside => ?_⟩
  have ordered := reachable_ordered reach i
  have down := downs i inside
  refine ⟨down.1,down.2,fun h active => (down.closing ordered active).2.2,fun h now read => ?_⟩
  by_contra taken
  obtain ⟨s',taken⟩ := Option.ne_none_iff_exists'.mp taken
  rcases step_cases taken with ⟨input,same,-⟩ | ⟨j,moved,same,-,-,place,-⟩
  · cases same
  · obtain ⟨rfl,rfl⟩ := Label.callback.inj same
    have shared := inContext_ordered ordered s.ctx
    have down' : Down (inContext (s.conns i) s.ctx) := down
    obtain ⟨-,-,closing⟩ := down'.closing shared (Connection.callback_active (h := h) rfl place)
    simp [Connection.step,closing] at place

theorem report_stands_echo :
    ∃ s, Transition.Reachable (step sampleConfig) (fun _ _ => True) (start fun _ _ => 0) s ∧ s.appstate = 4 ∧
      s.final = some (finalStats sampleConfig s) ∧ s.link 0 = .disconnecting := by
  have observed : (Transition.execute (step sampleConfig) echoRun (start fun _ _ => 0)).map
      (fun s => (s.appstate, s.link 0)) = some (4, .disconnecting) := by decide +kernel
  obtain ⟨s,run,same⟩ := Option.map_eq_some_iff.mp observed
  obtain ⟨phase,leaving⟩ := Prod.mk.inj same
  have reach : Transition.Reachable (step sampleConfig) (fun _ _ => True) (start fun _ _ => 0) s :=
    .of_execute (fun _ _ _ => trivial) run
  exact ⟨s,reach,phase,((report_stands sampleConfig _ s reach).2 (by omega)).1,leaving⟩

end Tcpeen.LoadGenerator
