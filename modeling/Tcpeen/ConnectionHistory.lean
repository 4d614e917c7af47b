import Tcpeen.ConnectionLifecycle

/-! What the calls and callbacks leave of a connection over its whole life: the decoder changes
only where data is read, the message id only where a write takes one, and a handle is never
taken up again. -/
namespace Tcpeen.Connection

/-- The fields that `on_tcp_recv_cb` decodes with. -/
structure Decoder where
  nextBuffer : Buffer
  readState : ReadState
  nextPayloadLen : UInt32
  lastRecvMsgId : UInt64

def Conn.decoder (c : Conn) : Decoder := ⟨c.nextBuffer, c.readState, c.nextPayloadLen, c.lastRecvMsgId⟩

/-- `tcp_write_begin` gets past its checks, and so increments `current_msg_id`. -/
def takesId (data : List UInt8) (c : Conn) : Bool :=
  c.tcpHandle.isSome && !data.isEmpty && (c.state = .connecting || c.state = .connected)

/-- The connection once the id is taken. -/
def Conn.taken (c : Conn) : Conn := { c with state := .connected, currentMsgId := c.currentMsgId + 1 }

/-- The data of a read. -/
def Read.bytes : Read → List UInt8
  | .data bytes => bytes
  | .error _ => []

/-- The data that a callback brings. -/
def Label.bytes : Label → List UInt8
  | .recvCb _ _ read => read.bytes
  | _ => []

/-- The calls that take an id. -/
def Label.takesId (c : Conn) : Label → Bool
  | .writeBegin _ data _ => Connection.takesId data c
  | _ => false

/-- What a call that reads no data and takes no id leaves. -/
structure Rests (c c' : Conn) : Prop where
  decoder : c'.decoder = c.decoder
  current : c'.currentMsgId = c.currentMsgId

/-- The handle stays, and the state goes on towards the end of the connection if it changes. -/
structure Holds (c c' : Conn) : Prop where
  handle : c'.tcpHandle = c.tcpHandle
  onward : c'.state = c.state ∨ c'.state = .connected ∨ c'.state = .disconnecting
  leaving : c.state = .disconnecting → c'.state = .disconnecting

theorem Holds.of_same {c c' : Conn} (handle : c'.tcpHandle = c.tcpHandle) (state : c'.state = c.state) :
    Holds c c' := ⟨handle,.inl state,state.trans⟩

section Functions

variable (closing : Nat → Bool) {c : Conn}

theorem Rests.disconnect {c₁ : Conn} (rests : Rests c c₁) : Rests c (tcpConnDisconnect closing c₁).1 := by
  rcases tcpConnDisconnect_cases closing c₁ with same | ⟨h,-,-,same⟩
  · rw [same]
    exact rests
  · rw [same]
    exact ⟨rests.decoder,rests.current⟩

theorem Holds.disconnect {c₁ : Conn} (holds : Holds c c₁) : Holds c (tcpConnDisconnect closing c₁).1 := by
  rcases tcpConnDisconnect_cases closing c₁ with same | ⟨h,-,-,same⟩
  · rw [same]
    exact holds
  · rw [same]
    exact ⟨holds.handle,.inr (.inr rfl),fun _ => rfl⟩

theorem tcpConnectBegin_rests (fresh : Nat) (failure : Option ConnectStep) :
    Rests c (tcpConnectBegin closing fresh failure c).2.1 := by
  unfold tcpConnectBegin
  split
  · exact ⟨rfl,rfl⟩
  · split
    · exact ⟨rfl,rfl⟩
    · exact Rests.disconnect closing ⟨rfl,rfl⟩
    · exact Rests.disconnect closing ⟨rfl,rfl⟩
    · exact ⟨rfl,rfl⟩

theorem onTcpConnectedCb_rests (h : Nat) (connected reading : Bool) :
    Rests c (onTcpConnectedCb closing h connected reading c).1 := by
  unfold onTcpConnectedCb
  split
  · exact Rests.disconnect closing ⟨rfl,rfl⟩
  · dsimp only
    split
    · exact ⟨rfl,rfl⟩
    · exact Rests.disconnect closing ⟨rfl,rfl⟩

theorem onTcpConnectedCb_holds {h : Nat} {connected : Bool} (reading : Bool) (handle : c.tcpHandle = some h)
    (open' : connected = true → c.state ≠ .disconnecting) :
    Holds c (onTcpConnectedCb closing h connected reading c).1 := by
  unfold onTcpConnectedCb
  split
  · exact Holds.disconnect closing (.of_same rfl rfl)
  · next status =>
    have going : c.state ≠ .disconnecting := open' (by simpa using status)
    have holds : Holds c { c with state := .connected, tcpHandle := some h } :=
      ⟨handle.symm,.inr (.inl rfl),fun leaving => absurd leaving going⟩
    dsimp only
    split
    · exact holds
    · exact holds.disconnect closing

theorem onTcpWriteCb_rests (now : UInt64) (status : Int) (length : Nat) :
    Rests c (onTcpWriteCb closing now status length c).1 ∧ Holds c (onTcpWriteCb closing now status length c).1 := by
  have counted (c₁ : Conn) (rests : Rests c c₁) (holds : Holds c c₁) :
      let r := if status ≠ 0 ∨ c₁.state ≠ .connected then tcpConnDisconnect closing c₁ else (c₁, [])
      Rests c r.1 ∧ Holds c r.1 := by
    dsimp only
    split
    · exact ⟨rests.disconnect closing,holds.disconnect closing⟩
    · exact ⟨rests,holds⟩
  unfold onTcpWriteCb
  refine counted _ ?_ ?_
  · split
    · exact ⟨rfl,rfl⟩
    · split <;> exact ⟨rfl,rfl⟩
  · split
    · exact .of_same rfl rfl
    · split <;> exact .of_same rfl rfl

theorem takesId_iff (data : List UInt8) : takesId data c = true ↔
    (∃ h, c.tcpHandle = some h) ∧ data ≠ [] ∧ (c.state = .connecting ∨ c.state = .connected) := by
  simp [takesId,Option.isSome_iff_exists,and_assoc]

/-- A write that gets past the three checks. -/
theorem takesId_of_checks {data : List UInt8} {h : Nat} (handle : c.tcpHandle = some h) (full : ¬ data.length = 0)
    (going : ¬ (c.state ≠ .connecting ∧ c.state ≠ .connected)) : takesId data c = true := by
  refine (takesId_iff data).mpr ⟨⟨h,handle⟩,?_,by tauto⟩
  intro empty
  exact full (by rw [empty]; rfl)

theorem tcpWriteBegin_stops {ticks : UInt64} {data : List UInt8} {outcome : WriteOutcome}
    (stops : takesId data c = false) : tcpWriteBegin closing ticks data outcome c = (c, []) := by
  unfold tcpWriteBegin
  split
  · rfl
  · next h handle =>
    split
    · rfl
    · next some' =>
      split
      · rfl
      · next going =>
        simp [takesId_of_checks handle some' going] at stops

/-- What becomes of a write that gets past the checks. -/
structure Going (ticks : UInt64) (data : List UInt8) (outcome : WriteOutcome) (c : Conn) (h : Nat) : Prop where
  handle : c.tcpHandle = some h
  state : c.state = .connecting ∨ c.state = .connected
  dropped : outcome = .noBuffer ∨ outcome = .noRequest ∨ assemble ticks (c.currentMsgId + 1) data = none →
    tcpWriteBegin closing ticks data outcome c = (c.taken, [])
  sent : ∀ bb, assemble ticks (c.currentMsgId + 1) data = some bb → outcome = .sent →
    tcpWriteBegin closing ticks data outcome c = (c.taken, [.uvWrite h (window bb.mem 0 bb.len)])
  refused : ∀ bb, assemble ticks (c.currentMsgId + 1) data = some bb → outcome = .refused →
    tcpWriteBegin closing ticks data outcome c = tcpConnDisconnect closing c.taken

theorem tcpWriteBegin_going (ticks : UInt64) {data : List UInt8} (outcome : WriteOutcome)
    (takes : takesId data c = true) : ∃ h, Going closing ticks data outcome c h := by
  obtain ⟨⟨h,handle⟩,some',going⟩ := (takesId_iff data).mp takes
  have full : ¬ data.length = 0 := fun empty => some' (List.length_eq_zero_iff.mp empty)
  have open' : ¬ (c.state ≠ .connecting ∧ c.state ≠ .connected) := by tauto
  refine ⟨h,handle,going,?_,?_,?_⟩
  · intro dropped
    unfold tcpWriteBegin
    split
    · next none' => simp [none'] at handle
    · rw [if_neg full,if_neg open']
      rcases dropped with same | same | none'
      · simp [same,Conn.taken]
      · simp only [same]
        split
        · rfl
        · split <;> rfl
      · simp only [none']
        split <;> rfl
  · intro bb built sent
    unfold tcpWriteBegin
    split
    · next none' => simp [none'] at handle
    · next h' handle' =>
      obtain rfl := Option.some.inj (handle.symm.trans handle')
      rw [if_neg full,if_neg open']
      simp only [sent,built]
      rfl
  · intro bb built refused
    unfold tcpWriteBegin
    split
    · next none' => simp [none'] at handle
    · rw [if_neg full,if_neg open']
      simp only [refused,built]
      rfl

theorem Going.cases {ticks : UInt64} {data : List UInt8} {outcome : WriteOutcome} {h : Nat}
    (going : Going closing ticks data outcome c h) :
    (∃ effects, tcpWriteBegin closing ticks data outcome c = (c.taken, effects)) ∨
      tcpWriteBegin closing ticks data outcome c = tcpConnDisconnect closing c.taken := by
  cases built : assemble ticks (c.currentMsgId + 1) data with
  | none => exact .inl ⟨_,going.dropped (.inr (.inr built))⟩
  | some bb =>
    cases outcome with
    | noBuffer => exact .inl ⟨_,going.dropped (.inl rfl)⟩
    | noRequest => exact .inl ⟨_,going.dropped (.inr (.inl rfl))⟩
    | sent => exact .inl ⟨_,going.sent bb built rfl⟩
    | refused => exact .inr (going.refused bb built rfl)

/-- A write that takes an id does so whatever comes of it. -/
theorem tcpWriteBegin_takes (ticks : UInt64) (data : List UInt8) (outcome : WriteOutcome) :
    (tcpWriteBegin closing ticks data outcome c).1.decoder = c.decoder ∧
      (tcpWriteBegin closing ticks data outcome c).1.currentMsgId =
        (if takesId data c then c.currentMsgId + 1 else c.currentMsgId) ∧
      Holds c (tcpWriteBegin closing ticks data outcome c).1 := by
  by_cases takes : takesId data c = true
  · obtain ⟨h,going⟩ := tcpWriteBegin_going closing ticks outcome takes
    have held : Holds c c.taken := by
      refine ⟨rfl,.inr (.inl rfl),fun leaving => ?_⟩
      have state := going.state
      simp [leaving] at state
    have rests := Rests.disconnect closing (⟨rfl,rfl⟩ : Rests c.taken c.taken)
    rw [if_pos takes]
    rcases going.cases with ⟨effects,same⟩ | same
    · rw [same]
      exact ⟨rfl,rfl,held⟩
    · rw [same]
      exact ⟨rests.decoder,rests.current,held.disconnect closing⟩
  · rw [tcpWriteBegin_stops closing (by simpa using takes),if_neg takes]
    exact ⟨rfl,rfl,.of_same rfl rfl⟩

theorem onTcpRecvCb_holds {now : UInt64} {read : Read} {r : Conn × List Effect}
    (ran : onTcpRecvCb closing now read c = some r) :
    r.1.currentMsgId = c.currentMsgId ∧ Holds c r.1 ∧ (read.bytes = [] → r.1.decoder = c.decoder) := by
  unfold onTcpRecvCb at ran
  split at ran
  · next code =>
    cases ran
    have rests : Rests c { c with readErr := code } := ⟨rfl,rfl⟩
    exact ⟨(rests.disconnect closing).current,Holds.disconnect closing (.of_same rfl rfl),
      fun _ => (rests.disconnect closing).decoder⟩
  · cases ran
    exact ⟨rfl,.of_same rfl rfl,fun _ => rfl⟩
  · next bytes some' =>
    have data : Read.bytes (.data bytes) ≠ [] := by
      intro none'
      exact some' none'
    split at ran
    · cases ran
      exact ⟨rfl,.of_same rfl rfl,fun none' => absurd none' data⟩
    · obtain ⟨⟨c',latency,effects⟩,decoded,rfl⟩ := Option.map_eq_some_iff.mp ran
      obtain ⟨state,handle,-⟩ := decode_untouched decoded
      have current := (decode_only decoded).1.same Conn.currentMsgId fun _ _ _ _ => rfl
      refine ⟨?_,?_,fun none' => absurd none' data⟩
      · cases latency <;> exact current
      · cases latency <;> exact .of_same handle state

end Functions

/-! ### Steps -/

theorem foldl_perform (effects : List Effect) (w : World) :
    (effects.foldl World.perform w).conn = w.conn ∧ (effects.foldl World.perform w).count = w.count := by
  induction effects generalizing w with
  | nil => exact ⟨rfl,rfl⟩
  | cons effect rest ih =>
    obtain ⟨conn,count⟩ := ih (w.perform effect)
    cases effect <;> exact ⟨conn,count⟩

@[simp] theorem run_conn (w : World) (r : Conn × List Effect) : (w.run r).conn = r.1 :=
  (foldl_perform r.2 _).1

@[simp] theorem run_count (w : World) (r : Conn × List Effect) : (w.run r).count = w.count :=
  (foldl_perform r.2 _).2

@[simp] theorem setHandle_conn (w : World) (h : Nat) (handle : TcpHandle) : (w.setHandle h handle).conn = w.conn :=
  rfl

@[simp] theorem setHandle_count (w : World) (h : Nat) (handle : TcpHandle) :
    (w.setHandle h handle).count = w.count := rfl

theorem tcpInit_count (w : World) (failure : Option ConnectStep) : w.count ≤ (w.tcpInit failure).count := by
  unfold World.tcpInit
  split
  · exact Nat.le_succ _
  · exact Nat.le_refl _

/-- What the calls of a connection leave of a handle. -/
structure Carried (handle handle' : TcpHandle) : Prop where
  attached : handle'.attached = handle.attached
  connecting : handle'.connecting = handle.connecting
  reading : handle'.reading = handle.reading
  closing : handle.closing = true → handle'.closing = true

theorem Carried.refl (handle : TcpHandle) : Carried handle handle := ⟨rfl,rfl,rfl,id⟩

theorem Carried.trans {a b c : TcpHandle} (first : Carried a b) (second : Carried b c) : Carried a c :=
  ⟨second.attached.trans first.attached,second.connecting.trans first.connecting,
    second.reading.trans first.reading,fun closing => second.closing (first.closing closing)⟩

theorem setHandle_carried (w : World) (h h' : Nat) (handle : TcpHandle) (carried : Carried (w.handles h') handle) :
    Carried (w.handles h) ((w.setHandle h' handle).handles h) := by
  by_cases own : h = h'
  · subst own
    simpa [World.setHandle] using carried
  · simpa [World.setHandle,own] using Carried.refl (w.handles h)

theorem run_carried (w : World) (r : Conn × List Effect) (h : Nat) :
    Carried (w.handles h) ((w.run r).handles h) := by
  suffices ∀ (effects : List Effect) (w : World),
      Carried (w.handles h) ((effects.foldl World.perform w).handles h) from this r.2 { w with conn := r.1 }
  intro effects
  induction effects with
  | nil => exact fun w => .refl _
  | cons effect rest ih =>
    intro w
    refine Carried.trans ?_ (ih (w.perform effect))
    cases effect with
    | idMismatch nread span expected received => exact .refl _
    | uvWrite h' bytes =>
      refine setHandle_carried w h h' _ ?_
      exact ⟨rfl,rfl,rfl,id⟩
    | uvClose h' =>
      refine setHandle_carried w h h' { w.handles h' with closing := true } ?_
      exact ⟨rfl,rfl,rfl,fun _ => rfl⟩

/-- Only the callback of its connect changes a handle otherwise. -/
theorem step_carried {w w' : World} {label : Label} {h : Nat}
    (known : ∀ failure, label = .connectBegin failure → h < w.count) (moved : step w label = some w') :
    Carried (w.handles h) (w'.handles h) ∨ (w'.handles h).connecting = false ∧ label.callback = some h ∧
        ((w.handles h).closing = true → (w'.handles h).closing = true) := by
  cases label with
  | connectBegin failure =>
    simp only [step] at moved
    split at moved
    · cases moved
    · cases moved
      have same : (w.tcpInit failure).handles h = w.handles h := by
        unfold World.tcpInit
        split
        · simp [World.setHandle,Nat.ne_of_lt (known failure rfl)]
        · rfl
      rw [← same]
      exact .inl (run_carried ..)
  | writeBegin ticks data outcome =>
    simp only [step] at moved
    split at moved
    · cases moved
      exact .inl (run_carried ..)
    · cases moved
      exact .inl (.refl _)
  | disconnect =>
    cases moved
    exact .inl (run_carried ..)
  | connectedCb h' connected reading =>
    simp only [step] at moved
    split at moved
    · cases moved
      by_cases own : h = h'
      · subst own
        right
        refine ⟨?_,rfl,fun closing => (run_carried ..).closing ?_⟩
        · rw [(run_carried _ _ h).connecting]
          simp [World.setHandle]
        · simpa [World.setHandle] using closing
      · left
        have same (handle : TcpHandle) : (w.setHandle h' handle).handles h = w.handles h := by
          simp [World.setHandle,own]
        rw [← same]
        exact run_carried ..
    · cases moved
  | recvCb h' now read =>
    simp only [step] at moved
    split at moved
    · obtain ⟨r,-,rfl⟩ := Option.map_eq_some_iff.mp moved
      exact .inl (run_carried ..)
    · cases moved
  | writeCb h' now status length =>
    simp only [step] at moved
    split at moved
    · cases moved
      refine .inl (Carried.trans ?_ (run_carried ..))
      refine setHandle_carried w h h' _ ?_
      exact ⟨rfl,rfl,rfl,id⟩
    · cases moved
  | closeCb h' =>
    simp only [step] at moved
    split at moved
    · cases moved
      refine .inl (setHandle_carried w h h' _ ?_)
      exact ⟨rfl,rfl,rfl,id⟩
    · cases moved

/-- What a step does to the handle of the connection: it keeps it, begins a connect with a
fresh one, or closes it. -/
inductive Moves (w w' : World) : Label → Prop
  | holds {label : Label} : Holds w.conn w'.conn → Moves w w' label
  | begun {failure : Option ConnectStep} : (w.conn.state = .new ∨ w.conn.state = .disconnected) →
      (∀ h, w'.conn.tcpHandle = some h → h = w.count ∧ h < w'.count) → Moves w w' (.connectBegin failure)
  | closed {h : Nat} : w.conn.tcpHandle = some h → (w.handles h).closing = true → w'.conn.tcpHandle = none →
      w'.conn.state = .disconnected → Moves w w' (.closeCb h)

/-- What a step does to the connection. -/
structure Follows (w w' : World) (label : Label) : Prop where
  count : w.count ≤ w'.count
  current : w'.conn.currentMsgId =
    if label.takesId w.conn then w.conn.currentMsgId + 1 else w.conn.currentMsgId
  decoder : label.bytes = [] → w'.conn.decoder = w.conn.decoder
  moves : Moves w w' label

theorem Follows.handle {w w' : World} {label : Label} (follows : Follows w w' label) (h : Nat)
    (handle : w'.conn.tcpHandle = some h) : h = w.count ∧ h < w'.count ∨
      w.conn.tcpHandle = some h ∧ (w.conn.state = .disconnecting → w'.conn.state = .disconnecting) := by
  rcases follows with ⟨-,-,-,moves⟩
  cases moves with
  | holds holds => exact .inr ⟨holds.handle ▸ handle,holds.leaving⟩
  | begun _ fresh => exact .inl (fresh h handle)
  | closed _ _ none' _ =>
    rw [none'] at handle
    cases handle

section Step

variable {w : World}

theorem Ordered.attached (ordered : Ordered w) :
    (w.conn.tcpHandle.all fun h => (w.handles h).attached) = true := by
  cases handle : w.conn.tcpHandle with
  | none => rfl
  | some h => exact (ordered.current h handle).2.1

theorem connectBegin_moves (failure : Option ConnectStep) :
    Moves w ((w.tcpInit failure).run (tcpConnectBegin (w.tcpInit failure).closing w.count failure w.conn).2)
      (.connectBegin failure) := by
  by_cases ended : w.conn.state = .new ∨ w.conn.state = .disconnected
  · have going : ¬ (w.conn.state ≠ .new ∧ w.conn.state ≠ .disconnected) := by tauto
    refine .begun ended fun h handle => ?_
    rw [run_conn] at handle
    rw [run_count]
    by_cases memory : failure = some .handle
    · rw [memory] at handle
      simp only [tcpConnectBegin,if_neg going] at handle
      cases handle
    · have taken : (tcpConnectBegin (w.tcpInit failure).closing w.count failure w.conn).2.1.tcpHandle =
          some w.count := by
        have kept (c : Conn) : (tcpConnDisconnect (w.tcpInit failure).closing c).1.tcpHandle = c.tcpHandle :=
          (Holds.disconnect (w.tcpInit failure).closing (.of_same rfl rfl : Holds c c)).handle
        simp only [tcpConnectBegin,if_neg going]
        split
        · exact absurd rfl memory
        · exact kept _
        · exact kept _
        · rfl
      rw [taken] at handle
      cases handle
      refine ⟨rfl,?_⟩
      simp [World.tcpInit,ended,memory]
  · have busy : w.conn.state ≠ .new ∧ w.conn.state ≠ .disconnected := not_or.mp ended
    refine .holds (.of_same ?_ ?_) <;> simp [tcpConnectBegin,busy]

theorem Ordered.follows (ordered : Ordered w) {w' : World} {label : Label}
    (taken : Connection.step w label = some w') : Follows w w' label := by
  cases label with
  | connectBegin failure =>
    simp only [Connection.step] at taken
    split at taken
    · cases taken
    · cases taken
      have rests := tcpConnectBegin_rests (w.tcpInit failure).closing w.count failure (c := w.conn)
      refine ⟨by simpa using tcpInit_count w failure,by simpa [Label.takesId] using rests.current,
        fun _ => by simpa using rests.decoder,connectBegin_moves failure⟩
  | writeBegin ticks data outcome =>
    simp only [Connection.step,if_pos ordered.attached,Option.some.injEq] at taken
    subst taken
    obtain ⟨decoder,current,holds⟩ := tcpWriteBegin_takes w.closing ticks data outcome (c := w.conn)
    refine ⟨by simp,by rw [run_conn]; exact current,fun _ => by simpa using decoder,.holds (by simpa using holds)⟩
  | disconnect =>
    cases taken
    have rests := Rests.disconnect w.closing (⟨rfl,rfl⟩ : Rests w.conn w.conn)
    have holds := Holds.disconnect w.closing (.of_same rfl rfl : Holds w.conn w.conn)
    refine ⟨by simp,by simpa [Label.takesId] using rests.current,fun _ => by simpa using rests.decoder,
      .holds (by simpa using holds)⟩
  | connectedCb h connected reading =>
    obtain ⟨-,handle⟩ := ordered.callback rfl taken
    simp only [Connection.step] at taken
    split at taken
    · next pending =>
      cases taken
      have open' : connected = true → w.conn.state ≠ .disconnecting := by
        intro success leaving
        have closing := (ordered.current h handle).2.2.2.mpr leaving
        simp [success,closing] at pending
      have rests (closing : Nat → Bool) := onTcpConnectedCb_rests closing h connected reading (c := w.conn)
      have holds (closing : Nat → Bool) := onTcpConnectedCb_holds closing reading handle open'
      refine ⟨by simp,by simpa [Label.takesId] using (rests _).current,fun _ => by simpa using (rests _).decoder,
        .holds (by simpa using holds _)⟩
    · cases taken
  | recvCb h now read =>
    simp only [Connection.step] at taken
    split at taken
    · obtain ⟨r,ran,rfl⟩ := Option.map_eq_some_iff.mp taken
      obtain ⟨current,holds,decoder⟩ := onTcpRecvCb_holds w.closing ran
      refine ⟨by simp,by simpa [Label.takesId] using current,by simpa [Label.bytes] using decoder,
        .holds (by simpa using holds)⟩
    · cases taken
  | writeCb h now status length =>
    simp only [Connection.step] at taken
    split at taken
    · cases taken
      obtain ⟨rests,holds⟩ := onTcpWriteCb_rests (w.setHandle h _).closing now status length (c := w.conn)
      refine ⟨by simp,by simpa [Label.takesId] using rests.current,fun _ => by simpa using rests.decoder,
        .holds (by simpa using holds)⟩
    · cases taken
  | closeCb h =>
    obtain ⟨-,handle⟩ := ordered.callback rfl taken
    simp only [Connection.step] at taken
    split at taken
    · next last =>
      cases taken
      rw [if_pos (ordered.current h handle).2.1]
      have closing : (w.handles h).closing = true := by simp_all
      exact ⟨Nat.le_refl _,rfl,fun _ => rfl,.closed handle closing rfl rfl⟩
    · cases taken

end Step

end Tcpeen.Connection
