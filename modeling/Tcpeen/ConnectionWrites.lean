import Tcpeen.ConnectionHistory
import Tcpeen.ConnectionResync

/-! The ids that `tcp_write_begin` gives to its frames. They are counted before anything is
allocated, so a request that cannot be allocated leaves a gap in the stream. -/
namespace Tcpeen.Connection

open Framing (framed Sized Incomplete)

/-- The `uv_write` that a `tcp_write_begin` comes to: its handle and its bytes. -/
def uvWriteCall (ticks : UInt64) (data : List UInt8) (outcome : WriteOutcome) (c : Conn) :
    Option (Nat × List UInt8) :=
  match c.tcpHandle with
  | none => none
  | some handle =>
    if data.length = 0 then none
    else if c.state ≠ .connecting ∧ c.state ≠ .connected then none
    else if outcome = .noBuffer ∨ outcome = .noRequest then none
    else (assemble ticks (c.currentMsgId + 1) data).map fun bb => (handle, window bb.mem 0 bb.len)

/-- A call without a `uv_write` leaves the state and the id as they were. -/
def Unchanged (closing : Nat → Bool) (ticks : UInt64) (data : List UInt8) (outcome : WriteOutcome) (c : Conn) : Prop :=
  uvWriteCall ticks data outcome c = none →
    (tcpWriteBegin closing ticks data outcome c).1.state = c.state ∧
      (tcpWriteBegin closing ticks data outcome c).1.currentMsgId = c.currentMsgId

/-- The call is stopped by a check, or both of its allocations succeed. -/
def Allocates (data : List UInt8) (outcome : WriteOutcome) (c : Conn) : Prop :=
  takesId data c = true → outcome ≠ .noBuffer ∧ outcome ≠ .noRequest

/-- A frame handed to `uv_write`, and whether it was taken. -/
structure Submission where
  handle : Nat
  bytes : List UInt8
  accepted : Bool
  deriving DecidableEq, Repr

def submissions (w : World) : Label → List Submission
  | .writeBegin ticks data outcome =>
    if w.conn.tcpHandle.all fun h => (w.handles h).attached then
      ((uvWriteCall ticks data outcome w.conn).map fun call => ⟨call.1, call.2, outcome = .sent⟩).toList
    else []
  | _ => []

/-- The frames that `uv_write` has taken on a handle. -/
def acceptedOn (h : Nat) (log : List Submission) : List (List UInt8) :=
  (log.filter fun s => s.handle = h && s.accepted).map (·.bytes)

/-- Every write of the run has a length that an `int` holds, and allocates. -/
def Label.Allocates (c : Conn) : Label → Prop
  | .writeBegin _ data outcome => data.length < 2 ^ 31 ∧ Connection.Allocates data outcome c
  | _ => True

/-- Frames with consecutive ids. -/
def numbered (last : UInt64) : List Message → List (List UInt8)
  | [] => []
  | m :: rest => frame (last + 1) m :: numbered (last + 1) rest

section Calls

variable (closing : Nat → Bool) {ticks : UInt64} {data : List UInt8} {outcome : WriteOutcome} {c : Conn}

theorem assemble_int (ticks msgId : UInt64) (int : data.length < 2 ^ 31) :
    ∃ bb, assemble ticks msgId data = some bb ∧ window bb.mem 0 bb.len = frame msgId ⟨ticks,data⟩ := by
  refine assemble_holds msgId ⟨ticks,data⟩ ?_
  simp only [sizeHalf]
  omega

theorem uvWriteCall_stops (stops : takesId data c = false) : uvWriteCall ticks data outcome c = none := by
  unfold uvWriteCall
  split
  · rfl
  · next h handle =>
    split
    · rfl
    · next some' =>
      split
      · rfl
      · next going =>
        simp [takesId_of_checks handle some' going] at stops

theorem uvWriteCall_takes (takes : takesId data c = true) {h : Nat} (handle : c.tcpHandle = some h) :
    uvWriteCall ticks data outcome c = if outcome = .noBuffer ∨ outcome = .noRequest then none
      else (assemble ticks (c.currentMsgId + 1) data).map fun bb => (h, window bb.mem 0 bb.len) := by
  obtain ⟨-,some',going⟩ := (takesId_iff data).mp takes
  have full : ¬ data.length = 0 := fun empty => some' (List.length_eq_zero_iff.mp empty)
  have open' : ¬ (c.state ≠ .connecting ∧ c.state ≠ .connected) := by tauto
  simp only [uvWriteCall,handle,if_neg full,if_neg open']

/-- Exactly the calls that fail to allocate change a connection without a write. -/
theorem unchanged_iff (int : data.length < 2 ^ 31) :
    Unchanged closing ticks data outcome c ↔ Allocates data outcome c := by
  by_cases takes : takesId data c = true
  · obtain ⟨h,going⟩ := tcpWriteBegin_going closing ticks outcome takes
    obtain ⟨bb,built,-⟩ := assemble_int ticks (c.currentMsgId + 1) int
    rw [Unchanged,uvWriteCall_takes takes going.handle,built]
    have moves : (c.currentMsgId + 1 : UInt64) ≠ c.currentMsgId := by grind
    cases outcome with
    | noBuffer => simp [Allocates,takes,going.dropped (.inl rfl),Conn.taken,moves]
    | noRequest => simp [Allocates,takes,going.dropped (.inr (.inl rfl)),Conn.taken,moves]
    | sent => simp [Allocates]
    | refused => simp [Allocates]
  · have stops : takesId data c = false := by simpa using takes
    simp [Unchanged,Allocates,stops,tcpWriteBegin_stops closing stops]

end Calls

/-! ### Runs -/

/-- Messages whose length an `int` holds. -/
def Ints (messages : List Message) : Prop := ∀ m ∈ messages, m.data.length < 2 ^ 31

/-- What has been submitted up to a state: the frames carry the ids 1, 2, and so on, and those
taken on one handle are a run of them that ends, while the handle is open, with the last. -/
structure Submitted (w : World) (log : List Submission) : Prop where
  ordered : Ordered w
  known : ∀ s ∈ log, s.handle < w.count
  ids : ∃ messages, log.map (·.bytes) = numbered 0 messages ∧
    UInt64.ofNat messages.length = w.conn.currentMsgId
  each : ∀ h, ∃ first messages, acceptedOn h log = numbered first messages ∧ Ints messages ∧
    (w.conn.tcpHandle = some h → w.conn.state ≠ .disconnecting →
      first + UInt64.ofNat messages.length = w.conn.currentMsgId)

section Runs

variable {w w' : World} {log : List Submission} {label : Label}

theorem numbered_snoc (last : UInt64) (messages : List Message) (m : Message) :
    numbered last (messages ++ [m]) =
      numbered last messages ++ [frame (last + UInt64.ofNat messages.length + 1) m] := by
  induction messages generalizing last with
  | nil => simp [numbered]
  | cons first rest ih =>
    have place : last + 1 + UInt64.ofNat rest.length + 1 = last + UInt64.ofNat (rest.length + 1) + 1 := by
      rw [UInt64.ofNat_add]
      ac_rfl
    simp only [List.cons_append,numbered,ih,List.length_cons,place]

theorem acceptedOn_append (h : Nat) (log later : List Submission) :
    acceptedOn h (log ++ later) = acceptedOn h log ++ acceptedOn h later := by
  simp [acceptedOn]

theorem Submitted.unknown (submitted : Submitted w log) {h : Nat} (fresh : w.count ≤ h) : acceptedOn h log = [] := by
  simp only [acceptedOn,List.map_eq_nil_iff,List.filter_eq_nil_iff]
  intro s member
  have := submitted.known s member
  simp
  omega

/-- Steps that submit nothing and take no id. -/
theorem Submitted.idle (submitted : Submitted w log) (taken : step w label = some w')
    (idle : label.takesId w.conn = false) : Submitted w' log := by
  have follows := submitted.ordered.follows taken
  have current : w'.conn.currentMsgId = w.conn.currentMsgId := by
    rw [follows.current,idle]
    rfl
  refine ⟨submitted.ordered.step taken,fun s member => (submitted.known s member).trans_le follows.count,?_,?_⟩
  · rw [current]
    exact submitted.ids
  · intro h
    rw [current]
    by_cases fresh : h = w.count
    · refine ⟨w.conn.currentMsgId,[],by simp [submitted.unknown (Nat.le_of_eq fresh.symm),numbered],
        fun _ inside => absurd inside List.not_mem_nil,fun _ _ => by simp⟩
    · obtain ⟨first,messages,same,ints,last⟩ := submitted.each h
      refine ⟨first,messages,same,ints,fun handle staying => ?_⟩
      rcases follows.handle h handle with ⟨new,-⟩ | ⟨before,leaving⟩
      · exact absurd new fresh
      · exact last before fun left => staying (leaving left)

/-- A write that comes to `uv_write`. -/
theorem Submitted.write (submitted : Submitted w log) {ticks : UInt64} {data : List UInt8} {outcome : WriteOutcome}
    (taken : step w (.writeBegin ticks data outcome) = some w') (takes : takesId data w.conn = true)
    (int : data.length < 2 ^ 31) (allocated : outcome ≠ .noBuffer ∧ outcome ≠ .noRequest) :
    Submitted w' (log ++ submissions w (.writeBegin ticks data outcome)) := by
  have ordered := submitted.ordered
  have follows := ordered.follows taken
  obtain ⟨h,going⟩ := tcpWriteBegin_going w.closing ticks outcome takes
  obtain ⟨bb,built,holds⟩ := assemble_int ticks (w.conn.currentMsgId + 1) int
  have open' : w.conn.state ≠ .disconnecting := by
    rcases going.state with same | same <;> simp [same]
  have current : w'.conn.currentMsgId = w.conn.currentMsgId + 1 := by
    rw [follows.current,if_pos]
    exact takes
  have entry : submissions w (.writeBegin ticks data outcome) =
      [⟨h,frame (w.conn.currentMsgId + 1) ⟨ticks,data⟩,outcome = .sent⟩] := by
    simp [submissions,ordered.attached,uvWriteCall_takes takes going.handle,built,holds,allocated]
  have handle : w'.conn.tcpHandle = some h := by
    simp only [step,if_pos ordered.attached,Option.some.injEq] at taken
    subst taken
    rw [run_conn,(tcpWriteBegin_takes w.closing ticks data outcome).2.2.handle,going.handle]
  have leaving : outcome = .refused → w'.conn.state = .disconnecting := by
    intro refused
    have live : w.closing h = false := by
      rw [← Bool.not_eq_true,World.closing,(ordered.current h going.handle).2.2.2]
      exact open'
    simp only [step,if_pos ordered.attached,Option.some.injEq] at taken
    subst taken
    rw [run_conn,going.refused bb built refused]
    simp [tcpConnDisconnect,Conn.taken,going.handle,live]
  refine ⟨ordered.step taken,?_,?_,?_⟩
  · intro s member
    rcases List.mem_append.mp member with before | new
    · exact (submitted.known s before).trans_le follows.count
    · rw [entry,List.mem_singleton] at new
      rw [new]
      exact (ordered.current h going.handle).1.trans_le follows.count
  · obtain ⟨messages,same,count⟩ := submitted.ids
    refine ⟨messages ++ [⟨ticks,data⟩],?_,?_⟩
    · rw [List.map_append,same,entry,numbered_snoc,count]
      simp
    · rw [List.length_append,List.length_singleton,UInt64.ofNat_add,count,current]
      rfl
  · intro h'
    obtain ⟨first,messages,same,ints,last⟩ := submitted.each h'
    rw [acceptedOn_append,entry]
    by_cases own : h' = h
    · subst own
      have last := last going.handle open'
      by_cases sent : outcome = .sent
      · refine ⟨first,messages ++ [⟨ticks,data⟩],?_,?_,?_⟩
        · rw [numbered_snoc,same,last]
          simp [acceptedOn,sent]
        · intro m inside
          rcases List.mem_append.mp inside with before | new
          · exact ints m before
          · rw [List.mem_singleton.mp new]
            exact int
        · intro _ _
          rw [List.length_append,List.length_singleton,UInt64.ofNat_add,current,← last]
          exact (UInt64.add_assoc ..).symm
      · have refused : outcome = .refused := by
          cases outcome <;> simp_all
        refine ⟨first,messages,by simp [acceptedOn,sent,← same],ints,?_⟩
        intro _ staying
        exact absurd (leaving refused) staying
    · have other : ¬ h = h' := fun same => own same.symm
      refine ⟨first,messages,by simp [acceptedOn,other,← same],ints,?_⟩
      intro taken' _
      exact absurd (Option.some.inj (handle.symm.trans taken')) other

theorem Submitted.step (submitted : Submitted w log) (allowed : label.Allocates w.conn)
    (taken : Connection.step w label = some w') : Submitted w' (log ++ submissions w label) := by
  by_cases takes : label.takesId w.conn = true
  · cases label with
    | writeBegin ticks data outcome => exact submitted.write taken takes allowed.1 (allowed.2 takes)
    | _ => cases takes
  · have stops : label.takesId w.conn = false := by simpa using takes
    have nothing : submissions w label = [] := by
      cases label with
      | writeBegin ticks data outcome =>
        simp [submissions,uvWriteCall_stops (show Connection.takesId data w.conn = false from stops)]
      | _ => rfl
    rw [nothing,List.append_nil]
    exact submitted.idle taken stops

end Runs

/-! ### The receiver -/

/-- Payloads whose ids count on from `last`. -/
def Consecutive : UInt64 → List (List UInt8) → Prop
  | _, [] => True
  | last, payload :: rest => payloadId payload = last + 1 ∧ Consecutive (last + 1) rest

def bodies (last : UInt64) : List Message → List (List UInt8)
  | [] => []
  | m :: rest => body (last + 1) m :: bodies (last + 1) rest

section Receiver

variable {last : UInt64} {messages : List Message} {first later : List (List UInt8)}

theorem Consecutive.of_append (consecutive : Consecutive last (first ++ later)) :
    Consecutive last first ∧ Consecutive (first.foldl expectId last) later := by
  induction first generalizing last with
  | nil => exact ⟨trivial,consecutive⟩
  | cons payload rest ih =>
    obtain ⟨expected,behind⟩ := consecutive
    obtain ⟨before,after⟩ := ih behind
    refine ⟨⟨expected,before⟩,?_⟩
    rw [List.foldl_cons,expectId,if_pos expected]
    exact after

theorem Consecutive.silent (nread : Nat) (consecutive : Consecutive last first) : mismatches nread last first = [] := by
  induction first generalizing last with
  | nil => rfl
  | cons payload rest ih =>
    obtain ⟨expected,behind⟩ := consecutive
    rw [mismatches,mismatch,if_pos expected,expectId,if_pos expected,ih behind]
    rfl

theorem Fed.silent {closing : Nat → Bool} {before : List UInt8} {c c' : Conn} {arrivals : List Arrival}
    {effects : List Effect} (fed : Fed closing before c arrivals c' effects)
    (consecutive : Consecutive c.lastRecvMsgId (Framing.payloads (before ++ arrivals.flatMap (·.bytes)))) :
    effects = [] := by
  induction fed with
  | done _ _ => rfl
  | skip nothing _ ih =>
    rw [List.flatMap_cons,nothing,List.nil_append] at consecutive
    exact ih consecutive
  | take _ receives _ ih =>
    rw [List.flatMap_cons,← List.append_assoc,(Framing.payloads_append _ _).1] at consecutive
    obtain ⟨now,later⟩ := consecutive.of_append
    rw [now.silent,ih ((receives.waits (Framing.payloads_spec _).2.2).last ▸ later)]
    rfl

theorem payloadId_body (msgId : UInt64) (m : Message) : payloadId (body msgId m) = msgId := by
  have eight : (BigEndian.encode 8 msgId.toNat).length = 8 := BigEndian.encode_length ..
  rw [payloadId,body,List.take_left' eight,BigEndian.decode_encode_of_lt _ _ msgId.toNat_lt,UInt64.ofNat_toNat]

theorem bodies_consecutive : Consecutive last (bodies last messages) := by
  induction messages generalizing last with
  | nil => trivial
  | cons m rest ih => exact ⟨payloadId_body _ _,ih⟩

theorem numbered_framed : (numbered last messages).flatten = framed (bodies last messages) := by
  induction messages generalizing last with
  | nil => rfl
  | cons m rest ih =>
    rw [numbered,bodies,List.flatten_cons,framed,ih,frame,Framing.frame,body_length]

theorem bodies_sized (last : UInt64) (ints : Ints messages) :
    Sized (bodies last messages) ∧ ∀ d ∈ bodies last messages, 17 ≤ d.length := by
  induction messages generalizing last with
  | nil => exact ⟨fun _ inside => absurd inside List.not_mem_nil,fun _ inside => absurd inside List.not_mem_nil⟩
  | cons m rest ih =>
    obtain ⟨sized,long⟩ := ih (last + 1) fun m inside => ints m (List.mem_cons_of_mem _ inside)
    have int := ints m List.mem_cons_self
    have length := body_length (last + 1) m
    refine ⟨fun d inside => ?_,fun d inside => ?_⟩
    · rcases List.mem_cons.mp inside with rfl | later
      · omega
      · exact sized d later
    · rcases List.mem_cons.mp inside with rfl | later
      · omega
      · exact long d later

/-- Whoever gets these frames, or a part of them from the first on, sees no mismatch. -/
theorem numbered_silent {closing : Nat → Bool} {c : Conn} {arrivals : List Arrival} (ints : Ints messages)
    (clean : Facing [] c) (expects : c.lastRecvMsgId = last) (kept : Kept closing arrivals c)
    (part : arrivals.flatMap (·.bytes) <+: (numbered last messages).flatten) :
    ∃ c', feed closing arrivals c = some (c', []) := by
  obtain ⟨future,whole⟩ := part
  obtain ⟨sized,long⟩ := bodies_sized last ints
  rw [numbered_framed] at whole
  have all := (Framing.payloads_unique (whole.trans (List.append_nil _).symm) sized nothing_incomplete).1
  rw [(Framing.payloads_append _ _).1] at all
  obtain ⟨c',effects,fed⟩ := fed_of_kept clean nothing_incomplete kept fun d inside =>
    long d (all ▸ List.mem_append_left _ inside)
  refine ⟨c',?_⟩
  have consecutive : Consecutive last (bodies last messages) := bodies_consecutive
  rw [← all,← expects] at consecutive
  rw [fed.feed,fed.silent consecutive.of_append.1]

end Receiver

/-- For every call with data: it submits a frame or leaves the state and the id alone, exactly
where it is stopped by a check or both of its allocations succeed. Over every run of such
calls the frames submitted carry the ids 1, 2, and so on; those taken on one handle are a
run of them, and a clean receiver that expects its first id sees no mismatch in it. -/
theorem write_begin_exact (ctx : Context) (mem : Nat → UInt8) :
    (∀ (closing : Nat → Bool) (ticks : UInt64) (data : List UInt8) (outcome : WriteOutcome) (c : Conn),
      1 ≤ data.length → data.length < 2 ^ 31 →
      (Unchanged closing ticks data outcome c ↔ Allocates data outcome c)) ∧
    ∀ (w : World) (log : List Submission),
      Transition.Reachable (Transition.logged step submissions) (fun s label => label.Allocates s.1.conn)
        (initialWorld ctx mem, []) (w, log) →
      (∃ messages, log.map (·.bytes) = numbered 0 messages) ∧
      ∀ h, ∃ last messages, acceptedOn h log = numbered last messages ∧
        ∀ (closing : Nat → Bool) (arrivals : List Arrival) (c : Conn), Facing [] c → c.lastRecvMsgId = last →
          Kept closing arrivals c → arrivals.flatMap (·.bytes) <+: (acceptedOn h log).flatten →
          ∃ c', feed closing arrivals c = some (c', []) := by
  refine ⟨fun closing ticks data outcome c _ int => unchanged_iff closing int,?_⟩
  intro w log reach
  have submitted : Submitted w log := by
    refine reach.invariant (fun s => Submitted s.1 s.2) ?_ ?_
    · refine ⟨initialWorld_ordered ctx mem,fun _ member => absurd member List.not_mem_nil,⟨[],rfl,rfl⟩,?_⟩
      intro h
      exact ⟨0,[],rfl,fun _ inside => absurd inside List.not_mem_nil,fun handle => by cases handle⟩
    · intro s label t submitted allowed taken
      obtain ⟨w',taken',rfl⟩ := Option.map_eq_some_iff.mp taken
      exact submitted.step allowed taken'
  obtain ⟨messages,same,-⟩ := submitted.ids
  refine ⟨⟨messages,same⟩,fun h => ?_⟩
  obtain ⟨last,messages,same,ints,-⟩ := submitted.each h
  refine ⟨last,messages,same,fun closing arrivals c clean expects kept part => ?_⟩
  exact numbered_silent ints clean expects kept (same ▸ part)

/-- Two frames on a first handle, the second refused, and one on the next. -/
def refusedWrite : List Label :=
  [.connectBegin none,.connectedCb 0 true true,.writeBegin 5 [1] .sent,.writeBegin 6 [2] .refused,.writeCb 0 7 0 22,
    .closeCb 0,.connectBegin none,.writeBegin 8 [3] .sent]

theorem write_begin_refused :
    ∃ w log, Transition.Reachable (Transition.logged step submissions) (fun s label => label.Allocates s.1.conn)
        (initialWorld ⟨0,0,0,0⟩ fun _ => 0, []) (w, log) ∧
      log.map (fun s => (s.handle,s.accepted)) = [(0,true),(0,false),(1,true)] ∧
      ∃ messages, log.map (·.bytes) = numbered 0 messages := by
  have observed : (Transition.execute (Transition.logged step submissions) refusedWrite
      (initialWorld ⟨0,0,0,0⟩ fun _ => 0, [])).map (fun s => s.2.map fun s => (s.handle,s.accepted)) =
        some [(0,true),(0,false),(1,true)] := by decide +kernel
  obtain ⟨⟨w,log⟩,run,seen⟩ := Option.map_eq_some_iff.mp observed
  have reach : Transition.Reachable (Transition.logged step submissions) (fun s label => label.Allocates s.1.conn)
      (initialWorld ⟨0,0,0,0⟩ fun _ => 0, []) (w, log) :=
    .of_execute (by simp [refusedWrite,Label.Allocates,Allocates]) run
  exact ⟨w,log,reach,seen,((write_begin_exact _ _).2 w log reach).1⟩

/-- A write for which there is no memory, between two others. -/
def lostWrite : List Label :=
  [.connectBegin none,.connectedCb 0 true true,.writeBegin 5 [1] .sent,.writeBegin 6 [2] .noBuffer,
    .writeBegin 7 [3] .sent]

/-- The failed call changes the id, and the frames of the stream have the ids 1 and 3. -/
theorem write_begin_lost :
    (¬ ∀ (closing : Nat → Bool) (ticks : UInt64) (data : List UInt8) (outcome : WriteOutcome) (c : Conn),
      1 ≤ data.length → data.length < 2 ^ 31 → Unchanged closing ticks data outcome c) ∧
    ∃ w log, Transition.Reachable (Transition.logged step submissions) (fun _ _ => True)
        (initialWorld ⟨0,0,0,0⟩ fun _ => 0, []) (w, log) ∧
      log.map (·.bytes) = [frame 1 ⟨5,[1]⟩,frame 3 ⟨7,[3]⟩] := by
  constructor
  · intro always
    have same := always (fun _ => false) 5 [1] .noBuffer (established ⟨0,0,0,0⟩ (fun _ => 0) 1) (by decide) (by decide)
    exact absurd ((unchanged_iff _ (by decide)).mp same) (by simp [Allocates,takesId,established,tcpConnectBegin,
      onTcpConnectedCb])
  · have observed : (Transition.execute (Transition.logged step submissions) lostWrite
        (initialWorld ⟨0,0,0,0⟩ fun _ => 0, [])).map (fun s => s.2.map (·.bytes)) =
          some [frame 1 ⟨5,[1]⟩,frame 3 ⟨7,[3]⟩] := by decide +kernel
    obtain ⟨⟨w,log⟩,run,seen⟩ := Option.map_eq_some_iff.mp observed
    exact ⟨w,log,.of_execute (fun _ _ _ => trivial) run,seen⟩

end Tcpeen.Connection
