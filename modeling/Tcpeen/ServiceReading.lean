import Tcpeen.ServiceHandles

/-! The calls of uv_read_start: a connection that is neither closed nor being closed is read from,
once `on_connection_cb` is through with it. -/
namespace Tcpeen.Receive

open QueueSpsc

/-- The handles on which `on_connection_cb` has uv_read_start succeed. -/
def resumeReads : (t : Thread) → Pc t → Res Nat → List Nat
  | .io, .connectPush h _ _ failure, .success _ => if failure = some .readStart then [] else [h]
  | _, _, _ => []

/-- The handle that `on_connection_cb` still works on. -/
def connecting : IoPc → Option Nat
  | .connectPop h .. | .connectPush h .. => some h
  | _ => none

/-- What is read from, or not yet, or being closed, or gone. -/
def Reads (pc : IoPc) (s : State) (reading : List Nat) : Prop :=
  ∀ h < s.handleCount, (s.handles h).freed = true ∨ (s.handles h).closing = true ∨ h ∈ reading ∨ connecting pc = some h

section Step

variable {cfg : Config} {pc : IoPc} {s : State} {reading : List Nat}

/-- The callbacks other than `on_connection_cb` do not open a handle again. -/
structure Shuts (s s' : State) : Prop where
  count : s'.handleCount = s.handleCount
  freed : ∀ h, (s.handles h).freed = true → (s'.handles h).freed = true
  closing : ∀ h, (s.handles h).closing = true → (s'.handles h).closing = true

theorem Shuts.of_handles {s s' : State} (handles : s'.handles = s.handles) (count : s'.handleCount = s.handleCount) :
    Shuts s s' := ⟨count,fun h => by rw [handles]; exact id,fun h => by rw [handles]; exact id⟩

theorem Shuts.setHandle (s : State) (h : Nat) (handle : Handle)
    (freed : (s.handles h).freed = true → handle.freed = true)
    (closing : (s.handles h).closing = true → handle.closing = true) : Shuts s (s.setHandle h handle) := by
  refine ⟨rfl,fun h' => ?_,fun h' => ?_⟩ <;> simp only [State.setHandle,Function.update_apply]
  all_goals
    split
    · next same =>
      subst same
      assumption
    · exact id

theorem Shuts.trans {s s' s'' : State} (first : Shuts s s') (second : Shuts s' s'') : Shuts s s'' :=
  ⟨second.count.trans first.count,fun h gone => second.freed h (first.freed h gone),
    fun h gone => second.closing h (first.closing h gone)⟩

theorem Shuts.refl (s : State) : Shuts s s := .of_handles rfl rfl

theorem Shuts.answer {s s' : State} (before : Shuts s s') (h : Nat) (buf : Option UvBuf) : Shuts s (s'.answer h buf) :=
  before.trans (.setHandle s' h _ id id)

theorem Shuts.free {s s' : State} (before : Shuts s s') (h : Nat) : Shuts s (s'.free h) :=
  before.trans (.setHandle s' h _ (fun _ => rfl) id)

theorem Shuts.closeChannel {s s' : State} (before : Shuts s s') (h c : Nat) : Shuts s (s'.closeChannel h c) :=
  (before.trans (.of_handles rfl rfl : Shuts s' (s'.setChannel c { s'.clientMap c with state := .closing }))).trans
    (.setHandle _ h _ id fun _ => rfl)

/-- Nothing is opened again; `on_connection_cb` goes on with its handle, if it has one. -/
theorem Reads.goes_on {pc' : IoPc} {s' : State} (reads : Reads pc s reading) (shuts : Shuts s s')
    (goes : ∀ h, connecting pc = some h → connecting pc' = some h) : Reads pc' s' reading := by
  intro h named
  rw [shuts.count] at named
  rcases reads h named with freed | closing | read | held
  · exact .inl (shuts.freed h freed)
  · exact .inr (.inl (shuts.closing h closing))
  · exact .inr (.inr (.inl read))
  · exact .inr (.inr (.inr (goes h held)))

/-- Without `on_connection_cb` at work every handle stays as it is, or is closed. -/
theorem Reads.shuts {pc' : IoPc} {s' : State} (reads : Reads pc s reading) (shuts : Shuts s s')
    (none' : connecting pc = none) : Reads pc' s' reading := by
  refine reads.goes_on shuts fun h held => ?_
  rw [none'] at held
  cases held

/-- `on_connection_cb` is through with its handle. -/
theorem Reads.through {pc' : IoPc} {s' : State} {reading' : List Nat} {h : Nat} (reads : Reads pc s reading)
    (shuts : Shuts s s') (held : connecting pc = some h)
    (done : (s'.handles h).closing = true ∨ h ∈ reading') : Reads pc' s' (reading ++ reading') := by
  intro h' named
  rw [shuts.count] at named
  rcases reads h' named with freed | closing | read | same
  · exact .inl (shuts.freed h' freed)
  · exact .inr (.inl (shuts.closing h' closing))
  · exact .inr (.inr (.inl (List.mem_append_left _ read)))
  · obtain rfl := Option.some.inj (held.symm.trans same)
    rcases done with closing | read
    · exact .inr (.inl closing)
    · exact .inr (.inr (.inl (List.mem_append_right _ read)))

theorem closeChannel_closing (s : State) (h c : Nat) : ((s.closeChannel h c).handles h).closing = true := by
  simp [State.closeChannel,State.setHandle]

/-- A handle that is new: `on_connection_cb` closes it, or goes on with it. -/
theorem Reads.newHandle {pc' : IoPc} (reads : Reads pc s reading) (none' : connecting pc = none) {handle : Handle}
    (new : handle.closing = true ∨ connecting pc' = some s.handleCount) : Reads pc' (s.newHandle handle) reading := by
  intro h named
  simp only [State.newHandle,State.setHandle,Function.update_apply] at named ⊢
  split
  · next same =>
    rcases new with closing | held
    · exact .inr (.inl closing)
    · exact .inr (.inr (.inr (same ▸ held)))
  · next other =>
    rcases reads h (by omega) with freed | closing | read | held
    · exact .inl freed
    · exact .inr (.inl closing)
    · exact .inr (.inr (.inl read))
    · rw [none'] at held
      cases held

theorem onConnection_reads (reads : Reads pc s reading) (none' : connecting pc = none)
    (failure : Option ConnectStep) : Reads (onConnection failure s).1 (onConnection failure s).2 reading := by
  have stays : Reads .idle s reading := reads.shuts (.of_handles rfl rfl) none'
  have rejected : Reads .idle (s.newHandle ⟨none,true,false,none⟩) reading := reads.newHandle none' (.inl rfl)
  cases popped : s.clientListFree.popBack with
  | none =>
    rcases failure with _ | step
    · simpa [onConnection,popped] using rejected
    · cases step <;> simp only [onConnection,popped]
      all_goals first
        | exact stays
        | exact rejected
  | some entry =>
    obtain ⟨c,freed⟩ := entry
    let attached := ({ s with clientListFree := freed }.newHandle ⟨some c,false,false,none⟩).setChannel c
      ⟨some s.handleCount,none,.open⟩
    have went (failure : Option ConnectStep) :
        Reads (.connectPop s.handleCount c failure) attached reading := by
      have taken : Reads pc { s with clientListFree := freed } reading := reads
      exact taken.newHandle none' (.inr rfl)
    have closed : Reads .idle (attached.closeChannel s.handleCount c) reading := by
      have done : Reads .idle (attached.closeChannel s.handleCount c) (reading ++ []) :=
        (went none).through ((Shuts.refl attached).closeChannel s.handleCount c) rfl (.inl (closeChannel_closing ..))
      rwa [List.append_nil] at done
    rcases failure with _ | step
    · simpa [onConnection,popped] using went none
    · cases step <;> simp only [onConnection,popped]
      all_goals first
        | exact stays
        | exact rejected
        | exact closed
        | exact went _

theorem onRecvData_shuts (h c nread : Nat) (s : State) : Shuts s (onRecvData h c nread s).2 := by
  unfold onRecvData
  repeat' split
  all_goals exact .of_handles rfl rfl

theorem onRecv_shuts {h c : Nat} {buf : UvBuf} {result : ReadResult} {r : IoPc × State}
    (ran : onRecv h c buf result s = some r) : Shuts s r.2 := by
  unfold onRecv at ran
  split at ran
  · obtain rfl := Option.some.inj ran
    exact (Shuts.refl s).closeChannel h c
  · obtain rfl := Option.some.inj ran
    exact (Shuts.refl s).answer h none
  · next bytes =>
    split at ran
    · cases ran
    · next b offset _ =>
      split at ran
      · cases ran
      · obtain rfl := Option.some.inj ran
        have arrived : Shuts s ((s.answer h none).arrive h b offset bytes) :=
          ((Shuts.refl s).answer h none).trans (.of_handles rfl rfl)
        exact arrived.trans (onRecvData_shuts ..)

theorem onClose_shuts (h : Nat) (s : State) : Shuts s (onClose h s).2 := by
  unfold onClose
  split
  · exact (Shuts.refl s).free h
  · dsimp only
    split <;> exact .of_handles rfl rfl

theorem releaseNext_shuts (s : State) (l : List Nat) : Shuts s (releaseNext s l).2 := by
  unfold releaseNext
  repeat' split
  all_goals exact .of_handles rfl rfl

theorem resumeMain_shuts (pc : MainPc) (res : Res Nat) (s : State) : Shuts s (resumeMain pc res s).2 := by
  unfold resumeMain
  split
  · exact .of_handles rfl rfl
  · exact .of_handles rfl rfl
  · exact releaseNext_shuts ..
  · exact .of_handles rfl rfl

/-- A callback of the receiving half, up to its first queue operation. -/
theorem act_reads {b : Act} {r : Pc (actor b) × State} {pcs : (t : Thread) → Pc t}
    (reads : Reads (pcs .io) s reading) (quiet : request (actor b) (pcs (actor b)) = none)
    (ran : act cfg b (pcs (actor b)) s = some r) :
    Reads (Function.update pcs (actor b) r.1 .io) r.2 reading := by
  have calm (pc : IoPc) (quiet : request .io pc = none) : connecting pc = none := by
    cases pc with
    | idle => rfl
    | _ => cases quiet
  cases b with
  | acquire =>
    cases ran
    exact reads.goes_on (.of_handles rfl rfl) fun _ => id
  | release =>
    cases ran
    exact reads.goes_on (releaseNext_shuts ..) fun _ => id
  | connection failure =>
    cases ran
    have began := onConnection_reads reads (calm _ quiet) failure
    simpa using began
  | alloc h =>
    refine reads.shuts ?_ (calm _ quiet)
    simp only [act,onRecvAlloc] at ran
    repeat' split at ran
    all_goals cases ran
    all_goals first
      | exact .of_handles rfl rfl
      | exact (Shuts.refl s).answer ..
  | read h result =>
    refine reads.shuts ?_ (calm _ quiet)
    simp only [act] at ran
    repeat' split at ran
    all_goals first
      | exact onRecv_shuts ran
      | cases ran
  | close h =>
    refine reads.shuts ?_ (calm _ quiet)
    simp only [act,Option.ite_none_right_eq_some] at ran
    obtain ⟨-,same⟩ := ran
    cases same
    exact onClose_shuts h s

theorem resumeIo_shuts (pc : IoPc) (res : Res Nat) (s : State) : Shuts s (resumeIo pc res s).2 := by
  unfold resumeIo
  dsimp only
  repeat' split
  all_goals first
    | exact .of_handles rfl rfl
    | refine Shuts.closeChannel ?_ _ _
      exact .of_handles rfl rfl
    | refine Shuts.answer ?_ _ _
      exact .of_handles rfl rfl
    | refine Shuts.free ?_ _
      exact .of_handles rfl rfl

/-- The handle of a new connection is read from, or is closed. -/
theorem connectPush_through {h c e : Nat} {failure : Option ConnectStep} (res : Res Nat) :
    ((resumeIo (.connectPush h c e failure) res s).2.handles h).closing = true ∨
      h ∈ resumeReads .io (.connectPush h c e failure) res := by
  cases res with
  | success values =>
    by_cases failed : failure = some .readStart
    · simp [resumeIo,failed,closeChannel_closing]
    · simp [resumeReads,failed]
  | _ => exact .inl (closeChannel_closing ..)

theorem connectPop_through {h c : Nat} {failure : Option ConnectStep} (res : Res Nat) :
    connecting (resumeIo (.connectPop h c failure) res s).1 = some h ∨
      ((resumeIo (.connectPop h c failure) res s).2.handles h).closing = true := by
  cases res with
  | success values =>
    match values with
    | [e] =>
      by_cases failed : failure = some .stringLocal ∨ failure = some .stringRemote
      · exact .inr (by simp [resumeIo,failed,closeChannel_closing])
      · exact .inl (by simp [resumeIo,failed,connecting])
    | [] | _ :: _ :: _ => exact .inr (closeChannel_closing ..)
  | _ => exact .inr (closeChannel_closing ..)

theorem resumeIo_reads (reads : Reads pc s reading) (res : Res Nat) :
    Reads (resumeIo pc res s).1 (resumeIo pc res s).2 (reading ++ resumeReads .io pc res) := by
  have shuts := resumeIo_shuts pc res s
  cases pc with
  | connectPop h c failure =>
    rcases connectPop_through res with goes | closing
    · simp only [resumeReads,List.append_nil]
      exact reads.goes_on shuts fun _ held => goes.trans held
    · exact reads.through shuts rfl (.inl closing)
  | connectPush h c e failure => exact reads.through shuts rfl (connectPush_through res)
  | _ =>
    simp only [resumeReads,List.append_nil]
    exact reads.shuts shuts rfl

theorem resume_reads {pcs : (t : Thread) → Pc t} (reads : Reads (pcs .io) s reading) (t : Thread) (res : Res Nat) :
    Reads (Function.update pcs t (resume t (pcs t) res s).1 .io) (resume t (pcs t) res s).2
      (reading ++ resumeReads t (pcs t) res) := by
  cases t with
  | main =>
    simp only [resumeReads,List.append_nil]
    exact reads.goes_on (resumeMain_shuts ..) fun _ => id
  | io =>
    have resumed := resumeIo_reads reads res
    simpa [resume] using resumed

end Step

end Tcpeen.Receive

namespace Tcpeen.Service

open SplitOperation QueueSpsc

def resumeReads (t : Thread) (pc : Pc t) (res : Res Nat) : List Nat := Receive.resumeReads t pc.1 res

/-- The handles on which a step has uv_read_start succeed. -/
def readCalls (cfg : Config) : Running → SplitLabel Thread Act → List Nat :=
  clientCalls (object QueueName Nat) (machine cfg) (fun _ _ => []) resumeReads

section Step

variable {cfg : Config} {s s' : Running} {reading : List Nat}

/-- A thread outside the receiving half starts no read there. -/
theorem resumeReads_idle {t : Thread} {pc : Receive.Pc t} (quiet : Receive.request t pc = none) (res : Res Nat) :
    Receive.resumeReads t pc res = [] := by
  cases t with
  | main => rfl
  | io =>
    cases pc with
    | idle => rfl
    | _ => cases quiet

theorem step_reads {label : SplitLabel Thread Act}
    (reads : Receive.Reads (s.pcs .io).1 s.shared.1 reading) (taken : step cfg s label = some s') :
    Receive.Reads (s'.pcs .io).1 s'.shared.1 (reading ++ readCalls cfg s label) := by
  have fst (t : Thread) (pc : Pc t) :
      (Function.update s.pcs t pc .io).1 = Function.update (fun t => (s.pcs t).1) t pc.1 .io :=
    congrFun (update_fst s.pcs t pc) .io
  have left : Receive.Reads ((fun t => (s.pcs t).1) .io) s.shared.1 reading := reads
  cases label with
  | act a =>
    obtain ⟨quiet,r,done,rfl⟩ := splitStep_act_cases taken
    simp only [readCalls,clientCalls,List.append_nil]
    rw [fst]
    cases a with
    | inl b =>
      obtain ⟨-,r,ran,rfl⟩ := join_act_left done
      exact Receive.act_reads left (join_request_none quiet).1 ran
    | inr b =>
      obtain ⟨-,r,ran,rfl⟩ := join_act_right done
      simpa using reads
  | tick t =>
    obtain ⟨q,op,mem,asked,⟨loc,ticked,rfl⟩ | ⟨res,ticked,rfl⟩⟩ := splitStep_tick_cases taken
    · simpa [readCalls,clientCalls,splitResult,asked,ticked] using reads
    · have calls : readCalls cfg s (.tick t) = Receive.resumeReads t (s.pcs t).1 res := by
        simp [readCalls,clientCalls,splitResult,asked,ticked,resumeReads]
      rw [calls,fst]
      rcases join_request_cases asked with ⟨q₁,rfl,asked₁⟩ | ⟨q₂,rfl,quiet,-⟩
      · rw [machine,join_resume_left asked₁]
        exact Receive.resume_reads left t res
      · rw [machine,join_resume_right quiet,resumeReads_idle quiet,List.append_nil]
        simpa using reads

end Step

end Tcpeen.Service
