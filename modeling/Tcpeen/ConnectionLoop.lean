import Tcpeen.ConnectionFrames
import Tcpeen.ConnectionHistory

/-! The decode loop of `on_tcp_recv_cb`. It spins in a state that is neither header nor payload,
and no call leads there; at a header or a payload each round that goes on takes bytes away. -/
namespace Tcpeen.Connection

/-- A call with what it finds: the context that other connections share, the answers of
`uv_is_closing`, and the handle that is made. Calls and callbacks come in any order. -/
structure Call where
  ctx : Context
  closing : Nat → Bool
  fresh : Nat
  label : Label

/-- `none` is a decode loop that does not end. -/
def called (c : Conn) (call : Call) : Option Conn :=
  let c := { c with ctx := call.ctx }
  match call.label with
  | .connectBegin failure => some (tcpConnectBegin call.closing call.fresh failure c).2.1
  | .writeBegin ticks data outcome => some (tcpWriteBegin call.closing ticks data outcome c).1
  | .disconnect => some (tcpConnDisconnect call.closing c).1
  | .connectedCb handle connected reading => some (onTcpConnectedCb call.closing handle connected reading c).1
  | .recvCb _ now read => (onTcpRecvCb call.closing now read c).map (·.1)
  | .writeCb _ now status length => some (onTcpWriteCb call.closing now status length c).1
  | .closeCb _ => some (onTcpCloseCb c)

/-- The bytes that a buffer takes: all or none. -/
def accepted (b : Buffer) (bytes : List UInt8) : List UInt8 := if (b.write bytes).isSome then bytes else []

/-- What a call stores in `next_buffer`. -/
def stores (c : Conn) (call : Call) : List UInt8 := accepted c.nextBuffer call.label.bytes

/-- The decoder is at a header or a payload, and no more is unread than the buffer holds. -/
structure Placed (c : Conn) : Prop where
  place : c.readState = .header ∨ c.readState = .payload
  within : c.nextBuffer.readLength ≤ c.nextBuffer.length

/-- The loop is left after at most a round for every four bytes; at each of its heads the decoder is
in its place, and a round that goes on has taken four bytes. -/
structure LoopEnds (now : UInt64) (nread : Nat) (c : Conn) : Prop where
  ends : ∃ result, ∀ fuel, c.nextBuffer.readLength < 4 * fuel → decode now nread fuel c 0 = some result
  placed : ∀ effects visited c₁ latency₁, Rounds now nread c 0 effects visited c₁ latency₁ → Placed c₁
  consumes : ∀ effects visited c₁ latency₁, Rounds now nread c 0 effects visited c₁ latency₁ →
    ∀ c₂ latency₂ later, decodeRound now nread c₁ latency₁ = .again c₂ latency₂ later →
      c₂.nextBuffer.readLength + 4 ≤ c₁.nextBuffer.readLength

/-- A decoder in its place, with a buffer in order. -/
structure Ready (c : Conn) : Prop where
  place : c.readState = .header ∨ c.readState = .payload
  valid : c.nextBuffer.Valid

theorem Ready.placed {c : Conn} (ready : Ready c) : Placed c where
  place := ready.place
  within := by
    have aligned := ready.valid.aligned
    rw [Buffer.readLength,Buffer.length]
    omega

/-- The decoder has taken unread bytes, or none. -/
structure Reads (c c' : Conn) : Prop where
  ready : Ready c'
  suffix : c'.nextBuffer.unread <:+ c.nextBuffer.unread

theorem Reads.refl {c : Conn} (ready : Ready c) : Reads c c := ⟨ready,List.suffix_refl _⟩

theorem Reads.trans {c₁ c₂ c₃ : Conn} (first : Reads c₁ c₂) (second : Reads c₂ c₃) : Reads c₁ c₃ :=
  ⟨second.ready,second.suffix.trans first.suffix⟩

/-- What a round may do to a decoder in order. -/
inductive Round.Consumes (c : Conn) : Round → Prop
  | done : Consumes c .done
  | again {c' : Conn} {latency : UInt64} {effects : List Effect} : Reads c c' →
      c'.nextBuffer.readLength + 4 ≤ c.nextBuffer.readLength → Consumes c (.again c' latency effects)
  | cleanup {c' : Conn} : Reads c c' → Consumes c (.cleanup c')

section Loop

variable {c c' : Conn} {now latency latency' : UInt64} {nread : Nat} {effects : List Effect}

theorem Ready.header_round (ready : Ready c) (header : c.readState = .header) :
    Round.Consumes c (decodeRound now nread c latency) := by
  simp only [decodeRound,header]
  split
  · exact .done
  · rcases ready.valid.readBe_cases 4 with ⟨-,refused⟩ | ⟨b,read,skips⟩
    · simp only [Buffer.readBe32,refused]
      exact .cleanup (.refl ready)
    · simp only [Buffer.readBe32,read]
      exact .again ⟨⟨.inr rfl,skips.valid⟩,skips.suffix⟩ skips.readLength.le

/-- Two words and the rest of the payload are taken, or the round goes to `cleanup`. -/
theorem Ready.payload_round (ready : Ready c) (payload : c.readState = .payload) :
    Round.Consumes c (decodeRound now nread c latency) := by
  have stays {count : Nat} {b : Buffer} (skips : Buffer.Skips count c.nextBuffer b) :
      Reads c { c with nextBuffer := b } := ⟨⟨.inr payload,skips.valid⟩,skips.suffix⟩
  simp only [decodeRound,payload]
  split
  · exact .done
  · rcases ready.valid.readBe_cases 8 with ⟨-,refused⟩ | ⟨b₁,read₁,skips₁⟩
    · simp only [Buffer.readBe64,refused]
      exact .cleanup (.refl ready)
    · rcases skips₁.valid.readBe_cases 8 with ⟨-,refused⟩ | ⟨b₂,read₂,skips₂⟩
      · simp only [Buffer.readBe64,read₁,refused]
        simpa only [payload] using Round.Consumes.cleanup (stays skips₁)
      · have both := skips₁.trans skips₂
        rcases both.valid.readSkip_cases (c.nextPayloadLen - 16).toNat with refused | ⟨b₃,skipped,skips₃⟩
        · simp only [Buffer.readBe64,read₁,read₂,refused]
          simpa only [payload] using Round.Consumes.cleanup (stays both)
        · have all := both.trans skips₃
          have less := all.readLength
          simp only [Buffer.readBe64,read₁,read₂,skipped]
          split
          · exact .again ⟨⟨.inl rfl,all.valid⟩,all.suffix⟩ (by dsimp only; omega)
          · exact .again ⟨⟨.inl rfl,all.valid⟩,all.suffix⟩ (by dsimp only; omega)

theorem Ready.round (ready : Ready c) : Round.Consumes c (decodeRound now nread c latency) := by
  rcases ready.place with header | payload
  · exact ready.header_round header
  · exact ready.payload_round payload

theorem Ready.decode (ready : Ready c) (now latency : UInt64) (nread : Nat) {fuel : Nat}
    (enough : c.nextBuffer.readLength < 4 * fuel) :
    ∃ c' latency' effects, decode now nread fuel c latency = some (c', latency', effects) ∧ Reads c c' := by
  induction fuel generalizing c latency with
  | zero => omega
  | succ fuel ih =>
    have round : Round.Consumes c (decodeRound now nread c latency) := ready.round
    rw [Connection.decode]
    generalize decodeRound now nread c latency = pass at round ⊢
    cases round with
    | done => exact ⟨c,some latency,[],rfl,.refl ready⟩
    | cleanup reads => exact ⟨_,none,[],rfl,reads⟩
    | @again _ latency₁ first reads fewer =>
      obtain ⟨c',latency',later,ends,reads'⟩ := ih reads.ready latency₁ (by omega)
      exact ⟨c',latency',first ++ later,by simp only [ends,Option.map_some],reads.trans reads'⟩

/-- A loop that has ended is not changed by more fuel. -/
theorem decode_more {fuel : Nat} {result : Conn × Option UInt64 × List Effect}
    (ends : decode now nread fuel c latency = some result) (more : Nat) :
    decode now nread (fuel + more) c latency = some result := by
  induction fuel generalizing c latency result with
  | zero => cases ends
  | succ fuel ih =>
    rw [Nat.add_right_comm]
    rw [decode] at ends ⊢
    split at ends
    · exact ends
    · exact ends
    · obtain ⟨rest,later,same⟩ := Option.map_eq_some_iff.mp ends
      rw [ih later,Option.map_some,same]

theorem Ready.rounds {visited : List Conn} (ready : Ready c)
    (rounds : Rounds now nread c latency effects visited c' latency') : Reads c c' := by
  induction rounds with
  | refl c latency => exact .refl ready
  | @round c₁ _ _ latency₁ _ _ _ _ _ pass _ ih =>
    have round : Round.Consumes c₁ (decodeRound now nread c₁ latency₁) := ready.round
    rw [pass] at round
    cases round with
    | again reads => exact reads.trans (ih reads.ready)

theorem Ready.loopEnds (ready : Ready c) : LoopEnds now nread c where
  ends := by
    have enough : c.nextBuffer.readLength < 4 * (c.nextBuffer.readLength / 4 + 1) := by omega
    obtain ⟨c',latency',effects,ends,-⟩ := ready.decode now 0 nread enough
    refine ⟨(c',latency',effects),?_⟩
    intro fuel bound
    obtain ⟨more,rfl⟩ := Nat.exists_eq_add_of_le (show c.nextBuffer.readLength / 4 + 1 ≤ fuel by omega)
    exact decode_more ends more
  placed := fun _ _ _ _ rounds => (ready.rounds rounds).ready.placed
  consumes := by
    intro effects visited c₁ latency₁ rounds c₂ latency₂ later pass
    have round : Round.Consumes c₁ (decodeRound now nread c₁ latency₁) := (ready.rounds rounds).ready.round
    rw [pass] at round
    cases round with
    | again _ fewer => exact fewer

end Loop

section Calls

variable {c c' : Conn} {call : Call}

@[simp] theorem accepted_nil (b : Buffer) : accepted b [] = [] := ite_self []

theorem accepted_none {b : Buffer} {bytes : List UInt8} (full : b.write bytes = none) : accepted b bytes = [] := by
  simp [accepted,full]

theorem accepted_some {b b' : Buffer} {bytes : List UInt8} (wrote : b.write bytes = some b') :
    accepted b bytes = bytes := by simp [accepted,wrote]

theorem Ready.same (ready : Ready c) (same : c'.decoder = c.decoder) : Reads c c' := by
  simp only [Conn.decoder,Decoder.mk.injEq] at same
  obtain ⟨buffer,state,-,-⟩ := same
  refine ⟨⟨?_,?_⟩,?_⟩
  · rw [state]
    exact ready.place
  · rw [buffer]
    exact ready.valid
  · exact buffer ▸ List.suffix_refl _

theorem Ready.write (ready : Ready c) {chunk : List UInt8} {b : Buffer} (wrote : c.nextBuffer.write chunk = some b) :
    Ready { c with nextBuffer := b } ∧ b.unread = c.nextBuffer.unread ++ chunk := by
  obtain ⟨b',wrote',valid,unread,-,-⟩ := ready.valid.write chunk (Buffer.write_cases wrote).1
  obtain rfl := Option.some.inj (wrote.symm.trans wrote')
  exact ⟨⟨ready.place,valid⟩,unread⟩

/-- The buffer is only rewound when it has been read to its end. -/
theorem Ready.recvDone (ready : Ready c) (now : UInt64) (nread : Nat) (latency : UInt64) :
    Reads c (recvDone now nread latency c) := by
  by_cases nothing : c.nextBuffer.readLength = 0
  · have rewound : (Connection.recvDone now nread latency c).nextBuffer = c.nextBuffer.reset := if_pos nothing
    refine ⟨⟨ready.place,rewound ▸ ready.valid.reset⟩,?_⟩
    rw [rewound,Buffer.reset_unread]
    exact List.nil_suffix
  · have kept : (Connection.recvDone now nread latency c).nextBuffer = c.nextBuffer := if_neg nothing
    refine ⟨⟨ready.place,kept ▸ ready.valid⟩,?_⟩
    exact kept ▸ List.suffix_refl _

/-- A read callback returns, whatever has arrived. -/
theorem Ready.recv (ready : Ready c) (closing : Nat → Bool) (now : UInt64) (read : Read) :
    ∃ r, onTcpRecvCb closing now read c = some r ∧ Ready r.1 ∧
      r.1.nextBuffer.unread <:+ c.nextBuffer.unread ++ accepted c.nextBuffer read.bytes := by
  cases read with
  | error code =>
    have rests : Rests c { c with readErr := code } := ⟨rfl,rfl⟩
    have reads := ready.same (rests.disconnect closing).decoder
    exact ⟨_,rfl,reads.ready,reads.suffix.trans (by simp [Read.bytes])⟩
  | data bytes =>
    cases bytes with
    | nil => exact ⟨(c, []),rfl,ready,by simp [Read.bytes]⟩
    | cons byte rest =>
      cases wrote : c.nextBuffer.write (byte :: rest) with
      | none =>
        have dropped : onTcpRecvCb closing now (.data (byte :: rest)) c = some (c, []) := by
          simp only [onTcpRecvCb,wrote]
        exact ⟨(c, []),dropped,ready,by simp [Read.bytes,accepted_none wrote]⟩
      | some b =>
        simp only [onTcpRecvCb,Read.bytes,wrote,accepted_some wrote]
        obtain ⟨filled,unread⟩ := ready.write wrote
        obtain ⟨c',latency,effects,ends,reads⟩ :=
          filled.decode now 0 (byte :: rest).length (show b.readLength < 4 * (b.readLength + 1) by omega)
        have suffix : c'.nextBuffer.unread <:+ c.nextBuffer.unread ++ byte :: rest := by
          rw [← unread]
          exact reads.suffix
        rw [ends]
        cases latency with
        | none => exact ⟨_,rfl,reads.ready,suffix⟩
        | some latency =>
          have after := reads.ready.recvDone now (byte :: rest).length latency
          exact ⟨_,rfl,after.ready,after.suffix.trans suffix⟩

theorem Ready.called (ready : Ready c) (taken : called c call = some c') :
    Ready c' ∧ c'.nextBuffer.unread <:+ c.nextBuffer.unread ++ stores c call := by
  obtain ⟨ctx,closing,fresh,label⟩ := call
  have rests (same : c'.decoder = c.decoder) (silent : label.bytes = []) :
      Ready c' ∧ c'.nextBuffer.unread <:+ c.nextBuffer.unread ++ stores c ⟨ctx,closing,fresh,label⟩ := by
    have reads := ready.same same
    exact ⟨reads.ready,by simpa [stores,silent] using reads.suffix⟩
  have shared : Ready { c with ctx } := ⟨ready.place,ready.valid⟩
  cases label with
  | connectBegin failure =>
    cases taken
    exact rests (tcpConnectBegin_rests closing fresh failure).decoder rfl
  | writeBegin ticks data outcome =>
    cases taken
    exact rests (tcpWriteBegin_takes closing ticks data outcome).1 rfl
  | disconnect =>
    cases taken
    exact rests (Rests.disconnect closing ⟨rfl,rfl⟩).decoder rfl
  | connectedCb handle connected reading =>
    cases taken
    exact rests (onTcpConnectedCb_rests closing handle connected reading).decoder rfl
  | recvCb handle now read =>
    obtain ⟨r,received,ready',suffix⟩ := shared.recv closing now read
    obtain ⟨r',received',rfl⟩ := Option.map_eq_some_iff.mp taken
    obtain rfl := Option.some.inj (received.symm.trans received')
    exact ⟨ready',suffix⟩
  | writeCb handle now status length =>
    cases taken
    exact rests (onTcpWriteCb_rests closing now status length).1.decoder rfl
  | closeCb handle =>
    cases taken
    exact rests rfl rfl

theorem init_ready (ctx : Context) (mem : Nat → UInt8) : Ready (tcpConnInit ctx mem) :=
  ⟨.inl rfl,Buffer.setup_valid _ _ (by decide)⟩

theorem reachable_ready {ctx : Context} {mem : Nat → UInt8} {log : List UInt8}
    (reach : Transition.Reachable (Transition.logged called stores) (fun _ _ => True) (tcpConnInit ctx mem, [])
      (c, log)) : Ready c ∧ c.nextBuffer.unread <:+ log := by
  refine reach.invariant (fun s => Ready s.1 ∧ s.1.nextBuffer.unread <:+ s.2) ?_ ?_
  · exact ⟨init_ready ctx mem,List.nil_suffix⟩
  · rintro s call s' ⟨ready,earlier,whole⟩ - taken
    obtain ⟨c',moved,rfl⟩ := Option.map_eq_some_iff.mp taken
    obtain ⟨ready',suffix⟩ := ready.called moved
    refine ⟨ready',suffix.trans ⟨earlier,?_⟩⟩
    rw [← whole,List.append_assoc]

end Calls

/-- After whatever calls, with whatever data: the decoder is at a header or a payload, no more is
unread than the buffer holds, the end of what it has stored, and the loop that the next chunk
starts ends. -/
theorem decode_loop_ends (ctx : Context) (mem : Nat → UInt8) (c : Conn) (log : List UInt8)
    (reach : Transition.Reachable (Transition.logged called stores) (fun _ _ => True) (tcpConnInit ctx mem, [])
      (c, log)) :
    Placed c ∧ c.nextBuffer.unread <:+ log ∧
    ∀ closing now chunk, (∃ r, onTcpRecvCb closing now (.data chunk) c = some r) ∧
      ∀ b, c.nextBuffer.write chunk = some b → LoopEnds now chunk.length { c with nextBuffer := b } := by
  obtain ⟨ready,suffix⟩ := reachable_ready reach
  refine ⟨ready.placed,suffix,?_⟩
  intro closing now chunk
  obtain ⟨r,received,-⟩ := ready.recv closing now (.data chunk)
  exact ⟨⟨r,received⟩,fun b wrote => (ready.write wrote).1.loopEnds⟩

/-- A payload of one byte that is never left, taken along into a second connection. -/
def malformedRun : List Call :=
  [.connectBegin none,.connectedCb 1 true true,.recvCb 1 9 (.data [0,0,0,1]),.recvCb 1 9 (.data [5]),.disconnect,
    .closeCb 1,.connectBegin none,.connectedCb 1 true true,.recvCb 1 9 (.data [0,0])].map
    fun label => ⟨⟨0,0,0,0⟩,fun _ => false,1,label⟩

theorem decode_loop_ends_malformed :
    ∃ c, Transition.execute (Transition.logged called stores) malformedRun (tcpConnInit ⟨0,0,0,0⟩ fun _ => 0, []) =
        some (c, [0,0,0,1,5,0,0]) ∧ c.readState = .payload ∧ c.nextBuffer.unread = [5,0,0] ∧
      ∀ closing now chunk, ∃ r, onTcpRecvCb closing now (.data chunk) c = some r := by
  have observed : (Transition.execute (Transition.logged called stores) malformedRun
      (tcpConnInit ⟨0,0,0,0⟩ fun _ => 0, [])).map (fun s => (s.2,s.1.readState,s.1.nextBuffer.unread)) =
        some ([0,0,0,1,5,0,0],.payload,[5,0,0]) := by decide +kernel
  obtain ⟨⟨c,log⟩,run,seen⟩ := Option.map_eq_some_iff.mp observed
  simp only [Prod.mk.injEq] at seen
  obtain ⟨rfl,state,unread⟩ := seen
  have ends := decode_loop_ends ⟨0,0,0,0⟩ (fun _ => 0) c _ (.of_execute (fun _ _ _ => trivial) run)
  exact ⟨c,run,state,unread,fun closing now chunk => (ends.2.2 closing now chunk).1⟩

/-! ### Runs with libuv -/

section Worlds

variable {w w' : World} {label : Label} {ctx : Context} {mem : Nat → UInt8}

/-- A step with libuv is such a call, or leaves the connection alone. -/
theorem step_called (moved : step w label = some w') :
    w'.conn = w.conn ∨ ∃ call, call.label = label ∧ called w.conn call = some w'.conn := by
  cases label with
  | connectBegin failure =>
    simp only [step,Option.ite_none_left_eq_some] at moved
    obtain ⟨-,same⟩ := moved
    cases same
    exact .inr ⟨⟨w.conn.ctx,(w.tcpInit failure).closing,w.count,.connectBegin failure⟩,rfl,by rw [run_conn]; rfl⟩
  | writeBegin ticks data outcome =>
    simp only [step] at moved
    split at moved
    · cases moved
      exact .inr ⟨⟨w.conn.ctx,w.closing,0,.writeBegin ticks data outcome⟩,rfl,by rw [run_conn]; rfl⟩
    · cases moved
      exact .inl rfl
  | disconnect =>
    cases moved
    exact .inr ⟨⟨w.conn.ctx,w.closing,0,.disconnect⟩,rfl,by rw [run_conn]; rfl⟩
  | connectedCb h connected reading =>
    simp only [step,Option.ite_none_right_eq_some] at moved
    obtain ⟨-,same⟩ := moved
    cases same
    exact .inr ⟨⟨w.conn.ctx,_,0,.connectedCb h connected reading⟩,rfl,by rw [run_conn]; rfl⟩
  | recvCb h now read =>
    simp only [step,Option.ite_none_right_eq_some] at moved
    obtain ⟨r,received,rfl⟩ := Option.map_eq_some_iff.mp moved.2
    have same : called w.conn ⟨w.conn.ctx,w.closing,0,.recvCb h now read⟩ = some r.1 := by
      rw [called]
      exact congrArg (Option.map (·.1)) received
    exact .inr ⟨_,rfl,by rw [run_conn,same]⟩
  | writeCb h now status length =>
    simp only [step,Option.ite_none_right_eq_some] at moved
    obtain ⟨-,same⟩ := moved
    cases same
    exact .inr ⟨⟨w.conn.ctx,_,0,.writeCb h now status length⟩,rfl,by rw [run_conn]; rfl⟩
  | closeCb h =>
    simp only [step,Option.ite_none_right_eq_some] at moved
    obtain ⟨-,same⟩ := moved
    cases same
    dsimp only
    split
    · exact .inr ⟨⟨w.conn.ctx,w.closing,0,.closeCb h⟩,rfl,rfl⟩
    · exact .inl rfl

theorem reachable_called (reach : Transition.Reachable step (fun _ _ => True) (initialWorld ctx mem) w) :
    ∃ log, Transition.Reachable (Transition.logged called stores) (fun _ _ => True) (tcpConnInit ctx mem, [])
      (w.conn, log) := by
  induction reach with
  | start => exact ⟨[],.start⟩
  | @step w w' _ _ _ moved ih =>
    obtain ⟨log,run⟩ := ih
    rcases step_called moved with same | ⟨call,-,taken⟩
    · exact ⟨log,same ▸ run⟩
    · have logs : Transition.logged called stores (w.conn, log) call =
          some (w'.conn, log ++ stores w.conn call) := by
        rw [Transition.logged,taken,Option.map_some]
      exact ⟨_,.step run trivial logs⟩

end Worlds

end Tcpeen.Connection
