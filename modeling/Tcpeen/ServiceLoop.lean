import Tcpeen.ServiceReading
import Tcpeen.ServiceThread

/-! The IO thread of tcp_service.c with its loop: the handles it makes, the callbacks that libuv makes
of them, and the return of `uv_run`. The handshake of start and stop, the callbacks of the connections
and the calls of the main thread take their steps in any order. -/
namespace Tcpeen.ServiceLoop

open SplitOperation (SplitLabel)
open ServiceLifecycle (IoPc InitCall)

/-- `uv_accept_timer`, `uv_prep`, `uv_check` and the listener. -/
inductive LoopHandle
  | timer | prep | check | tcp
  deriving DecidableEq, Repr

/-- A handle is in the loop from its initialization until its close is completed, and active from its
start. -/
inductive HandleState
  | absent | inactive | active | closing
  deriving DecidableEq, Repr

/-- `reading` are the client handles on which uv_read_start has succeeded. `entered` is history: whether
the thread that was launched last has called `uv_run`. -/
structure State where
  life : ServiceLifecycle.State
  service : Service.Running
  handles : LoopHandle → HandleState
  reading : List Nat
  entered : Bool

/-- `io` is a step of the thread outside `uv_run`; `timer` is `on_timer_cb`, `closed` the completion of
a close, and `leave` the return of `uv_run`. -/
inductive Label
  | start
  | stop
  | stopSignal
  | main (ok : Bool)
  | io (ok : Bool)
  | timer
  | closed (handle : LoopHandle)
  | leave
  | service (label : SplitLabel Thread Service.Act)

def mainIdle (s : Service.Running) : Bool :=
  (s.pcs .main).1 == Receive.MainPc.idle && (s.pcs .main).2 == Send.MainPc.idle

def ioIdle (s : Service.Running) : Bool :=
  (s.pcs .io).1 == Receive.IoPc.idle && (s.pcs .io).2 == Send.IoPc.idle

/-- The call that puts the handle into the loop. -/
def LoopHandle.initCall : LoopHandle → InitCall
  | .timer => .timerInit
  | .prep => .prepareInit
  | .check => .checkInit
  | .tcp => .tcpInit

/-- The call that makes the handle active. -/
def LoopHandle.startCall : LoopHandle → InitCall
  | .timer => .timerStart
  | .prep => .prepareStart
  | .check => .checkStart
  | .tcp => .listen

def allHandles : List LoopHandle := [.timer,.prep,.check,.tcp]

/-- No client handle is left in the loop. -/
def clientsGone (s : Receive.State) : Bool := (List.range s.handleCount).all fun h => (s.handles h).freed

/-- No client handle is active, which it is while it is read from, or closing. -/
def clientsRest (s : Receive.State) (reading : List Nat) : Bool :=
  (List.range s.handleCount).all fun h => (s.handles h).freed || !(s.handles h).closing && !reading.contains h

namespace State

def inRun (s : State) : Bool := s.life.io = .running || s.life.io = .draining

/-- A step of the handshake. -/
def handshake (s : State) (label : ServiceLifecycle.Label) : Option State :=
  (ServiceLifecycle.step s.life label).map fun life => { s with life }

/-- `uv_close` on every handle in the loop that is not closing. -/
def closeOpen (s : State) : State :=
  { s with handles := fun h => if s.handles h = .absent then .absent else .closing }

/-- `uv__loop_alive` is false: no handle is active or closing, and no request is left. -/
def drained (s : State) : Bool :=
  allHandles.all (fun h => s.handles h = .absent || s.handles h = .inactive) &&
    clientsRest s.service.shared.1 s.reading && s.service.shared.2.inFlight.isEmpty

/-- `uv_loop_close` returns 0: no handle, active or not, and no request is left in the loop. -/
def uvLoopClose (s : State) : Bool :=
  allHandles.all (fun h => s.handles h = .absent) && clientsGone s.service.shared.1 &&
    s.service.shared.2.inFlight.isEmpty

/-- A step of the service, with the calls of uv_read_start in it. -/
def serve (cfg : Config) (s : State) (label : SplitLabel Thread Service.Act) : Option State :=
  (Service.step cfg s.service label).map fun service =>
    { s with service, reading := s.reading ++ Service.readCalls cfg s.service label }

end State

/-- The main thread in `tcp_service_start` and the stop functions. A launched thread starts without
handles. -/
def mainStep (s : State) (ok : Bool) : Option State :=
  (s.handshake (.main ok)).map fun t =>
    if s.life.main = .startLaunch && ok then { t with handles := fun _ => .absent, entered := false } else t

/-- What a call of the start-up that succeeds makes of the handles. -/
def LoopHandle.called (call : InitCall) (h : LoopHandle) (before : HandleState) : HandleState :=
  if h.initCall = call then .inactive else if h.startCall = call then .active else before

/-- The thread before and behind `uv_run`. A first `uv_loop_close` that fails is followed by the walk. -/
def ioStep (s : State) (ok : Bool) : Option State :=
  match s.life.io with
  | .running | .draining => none
  | .init (call :: _) => (s.handshake (.io ok)).map fun t =>
      if ok then { t with handles := fun h => h.called call (t.handles h) } else t
  | .storeStarted => (s.handshake (.io ok)).map fun t => { t with entered := true }
  | .loopClose => (s.handshake (.io s.uvLoopClose)).map fun t => if s.uvLoopClose then t else t.closeOpen
  | .loopCloseAgain => s.handshake (.io s.uvLoopClose)
  | _ => s.handshake (.io ok)

/-- `on_timer_cb`. -/
def timerStep (s : State) : Option State :=
  if s.life.io = .running && s.handles .timer = .active && ioIdle s.service then
    (s.handshake (.io true)).map fun t => if s.life.state ≠ .started then t.closeOpen else t
  else none

/-- What libuv and the main thread may begin: a connection comes in at an active listener, requests are
taken by an active `uv_prep`. -/
def begins (s : State) : Service.Act → Bool
  | .inl .acquire | .inl .release | .inr (.send _) => s.life.main = .idle
  | .inl (.connection _) => s.inRun && s.handles .tcp = .active
  | .inr .prep => s.inRun && s.handles .prep = .active
  | _ => s.inRun

/-- `uv_run` returns when the loop is no longer alive. -/
def step (cfg : Config) (s : State) : Label → Option State
  | .start => if mainIdle s.service then s.handshake .start else none
  | .stop => if mainIdle s.service then s.handshake .stop else none
  | .stopSignal => if mainIdle s.service then s.handshake .stopSignal else none
  | .main ok => mainStep s ok
  | .io ok => ioStep s ok
  | .timer => timerStep s
  | .closed h =>
    if s.inRun && s.handles h = .closing then some { s with handles := Function.update s.handles h .absent }
    else none
  | .leave =>
    if s.life.io = .draining && s.drained && ioIdle s.service then s.handshake (.io true) else none
  | .service (.act a) => if begins s a then s.serve cfg (.act a) else none
  | .service (.tick t) => s.serve cfg (.tick t)

def initial (cfg : Config) (free : ListPtr Nat) (readBlocks writeBlocks : Nat → Nat → UInt8)
    (mem : Service.QueueName → QueueSpsc.Queue Nat) : State where
  life := ServiceLifecycle.initial
  service := Service.initial cfg free readBlocks writeBlocks mem
  handles := fun _ => .absent
  reading := []
  entered := false

/-! ### The calls of the service -/

section Service

open SplitOperation QueueSpsc

variable {cfg : Config} {s s' : Service.Running}

/-- What the main thread leaves to the IO thread. -/
structure Left (s s' : Service.Running) : Prop where
  io : s'.pcs .io = s.pcs .io
  handles : s'.shared.1.handles = s.shared.1.handles
  count : s'.shared.1.handleCount = s.shared.1.handleCount
  writes : s'.shared.2.writes = s.shared.2.writes
  inFlight : s'.shared.2.inFlight = s.shared.2.inFlight

theorem releaseNext_handles (s : Receive.State) (l : List Nat) :
    (Receive.releaseNext s l).2.handles = s.handles ∧ (Receive.releaseNext s l).2.handleCount = s.handleCount := by
  unfold Receive.releaseNext
  repeat' split
  all_goals exact ⟨rfl,rfl⟩

theorem resumeMain_handles (pc : Receive.MainPc) (res : Res Nat) (s : Receive.State) :
    (Receive.resumeMain pc res s).2.handles = s.handles ∧
      (Receive.resumeMain pc res s).2.handleCount = s.handleCount := by
  unfold Receive.resumeMain
  split
  · exact ⟨rfl,rfl⟩
  · exact ⟨rfl,rfl⟩
  · exact releaseNext_handles ..
  · exact ⟨rfl,rfl⟩

theorem sendMain_writes (pc : Send.MainPc) (res : Res Nat) (s : Send.State) :
    (Send.resumeMain pc res s).2.writes = s.writes ∧ (Send.resumeMain pc res s).2.inFlight = s.inFlight := by
  unfold Send.resumeMain
  split
  · exact ⟨rfl,rfl⟩
  · unfold Send.assemble
    dsimp only
    split <;> exact ⟨rfl,rfl⟩
  · exact ⟨rfl,rfl⟩
  · exact ⟨rfl,rfl⟩
  · exact ⟨rfl,rfl⟩

theorem tick_main_left (taken : Service.step cfg s (.tick .main) = some s') : Left s s' := by
  obtain ⟨q,op,mem,asked,⟨loc,-,rfl⟩ | ⟨res,-,rfl⟩⟩ := splitStep_tick_cases taken
  · exact ⟨rfl,rfl,rfl,rfl,rfl⟩
  · rcases join_request_cases asked with ⟨q₁,rfl,asked₁⟩ | ⟨q₂,rfl,quiet,-⟩
    · rw [Service.machine,join_resume_left asked₁]
      obtain ⟨handles,count⟩ := resumeMain_handles (s.pcs .main).1 res s.shared.1
      exact ⟨rfl,handles,count,rfl,rfl⟩
    · rw [Service.machine,join_resume_right quiet]
      obtain ⟨writes,inFlight⟩ := sendMain_writes (s.pcs .main).2 res s.shared.2
      exact ⟨rfl,rfl,rfl,writes,inFlight⟩

theorem send_begins {sent : Send.Sent} {pc : Send.MainPc} {s : Send.State} {r : Send.MainPc × Send.State}
    (ran : Send.act (.send sent) pc s = some r) : r.2 = s := by
  cases pc with
  | idle =>
    simp only [Send.act,Option.ite_none_left_eq_some] at ran
    rw [← Option.some.inj ran.2]
  | _ => cases ran

theorem act_main_left {a : Service.Act} (main : Service.actor cfg a = .main)
    (taken : Service.step cfg s (.act a) = some s') : Left s s' := by
  obtain ⟨-,r,done,rfl⟩ := splitStep_act_cases taken
  have apart : Thread.io ≠ (Service.machine cfg).actor a := by
    have same : (Service.machine cfg).actor a = .main := main
    rw [same]
    decide
  have io := Function.update_of_ne apart r.1 s.pcs
  cases a with
  | inl b =>
    obtain ⟨-,r₁,ran,rfl⟩ := join_act_left done
    cases b with
    | acquire =>
      cases ran
      exact ⟨io,rfl,rfl,rfl,rfl⟩
    | release =>
      cases ran
      obtain ⟨handles,count⟩ := releaseNext_handles s.shared.1 s.shared.1.eventUpdates
      exact ⟨io,handles,count,rfl,rfl⟩
    | _ => cases main
  | inr b =>
    obtain ⟨-,r₂,ran,rfl⟩ := join_act_right done
    cases b with
    | send sent =>
      have same := send_begins ran
      exact ⟨io,rfl,rfl,congrArg Send.State.writes same,congrArg Send.State.inFlight same⟩
    | _ => cases main

/-- The callbacks that go on while the loop is drained: no connection is made and no request is
taken. -/
def drainingReceive : Receive.IoPc → Bool
  | .connectPop .. | .connectPush .. => false
  | _ => true

def drainingSend : Send.IoPc → Bool
  | .prepPop | .prepTest _ | .prepPool .. | .prepFree _ => false
  | _ => true

def receiveDraining : (t : Thread) → Receive.Pc t → Bool
  | .main, _ => true
  | .io, pc => drainingReceive pc

def sendDraining : (t : Thread) → Send.Pc t → Bool
  | .main, _ => true
  | .io, pc => drainingSend pc

/-- The threads are in no callback that opens a connection or takes a request. -/
def Draining (s : Service.Running) : Prop :=
  ∀ t, receiveDraining t (s.pcs t).1 = true ∧ sendDraining t (s.pcs t).2 = true

/-- What begins a connection or takes a request. -/
def opens : Service.Act → Bool
  | .inl (.connection _) | .inr .prep => true
  | _ => false

/-- Nothing comes in, and nothing goes out. -/
structure Drains (s s' : Service.Running) : Prop where
  draining : Draining s'
  count : s'.shared.1.handleCount = s.shared.1.handleCount
  writes : s'.shared.2.writes = s.shared.2.writes

theorem receive_act_drains {b : Receive.Act} {pc : Receive.Pc (Receive.actor b)} {s : Receive.State}
    {r : Receive.Pc (Receive.actor b) × Receive.State} (other : opens (.inl b) = false)
    (ran : Receive.act cfg b pc s = some r) :
    receiveDraining (Receive.actor b) r.1 = true ∧ r.2.handleCount = s.handleCount := by
  cases b with
  | acquire =>
    cases ran
    exact ⟨rfl,rfl⟩
  | release =>
    cases ran
    exact ⟨rfl,(releaseNext_handles s s.eventUpdates).2⟩
  | connection failure => cases other
  | alloc h =>
    simp only [Receive.act,Receive.onRecvAlloc] at ran
    repeat' split at ran
    all_goals cases ran
    all_goals exact ⟨rfl,rfl⟩
  | read h result =>
    simp only [Receive.act,Receive.onRecv,Receive.onRecvData] at ran
    repeat' split at ran
    all_goals cases ran
    all_goals exact ⟨rfl,rfl⟩
  | close h =>
    simp only [Receive.act,Receive.onClose] at ran
    repeat' split at ran
    all_goals cases ran
    all_goals exact ⟨rfl,rfl⟩

theorem send_act_drains {b : Send.Act} {pc : Send.Pc (Send.actor b)} {s : Send.State}
    {r : Send.Pc (Send.actor b) × Send.State} (other : opens (.inr b) = false)
    (draining : sendDraining (Send.actor b) pc = true) (ran : Send.act b pc s = some r) :
    sendDraining (Send.actor b) r.1 = true ∧ r.2.writes = s.writes := by
  cases b with
  | send sent =>
    cases pc with
    | idle =>
      simp only [Send.act,Option.ite_none_left_eq_some] at ran
      obtain ⟨-,same⟩ := ran
      cases same
      exact ⟨rfl,rfl⟩
    | _ => cases ran
  | prep => cases other
  | submit verdict =>
    cases pc with
    | prepTest r => cases draining
    | _ => cases ran
  | sent r =>
    cases pc with
    | idle =>
      simp only [Send.act,Send.onSend] at ran
      split at ran
      · obtain ⟨b,-,rfl⟩ := Option.map_eq_some_iff.mp ran
        exact ⟨rfl,rfl⟩
      · cases ran
    | _ => cases ran

theorem resume_drains (t : Thread) {pc : Receive.Pc t} (draining : receiveDraining t pc = true) (res : Res Nat)
    (s : Receive.State) : receiveDraining t (Receive.resume t pc res s).1 = true ∧
      (Receive.resume t pc res s).2.handleCount = s.handleCount := by
  cases t with
  | main => exact ⟨rfl,(resumeMain_handles pc res s).2⟩
  | io =>
    simp only [Receive.resume]
    unfold Receive.resumeIo
    split
    all_goals first
      | exact ⟨rfl,rfl⟩
      | (split <;> exact ⟨rfl,rfl⟩)
      | cases draining

theorem sendResume_drains (t : Thread) {pc : Send.Pc t} (draining : sendDraining t pc = true) (res : Res Nat)
    (s : Send.State) : sendDraining t (Send.resume t pc res s).1 = true ∧
      (Send.resume t pc res s).2.writes = s.writes := by
  cases t with
  | main => exact ⟨rfl,(sendMain_writes pc res s).1⟩
  | io =>
    simp only [Send.resume]
    unfold Send.resumeIo
    split
    all_goals first
      | exact ⟨rfl,rfl⟩
      | cases draining

theorem act_drains {a : Service.Act} (draining : Draining s) (other : opens a = false)
    (taken : Service.step cfg s (.act a) = some s') : Drains s s' := by
  obtain ⟨-,r,done,rfl⟩ := splitStep_act_cases taken
  cases a with
  | inl b =>
    obtain ⟨-,r₁,ran,rfl⟩ := join_act_left done
    obtain ⟨quiet,count⟩ := receive_act_drains other ran
    refine ⟨?_,count,rfl⟩
    exact (Function.forall_update_iff s.pcs fun t pc =>
      receiveDraining t pc.1 = true ∧ sendDraining t pc.2 = true).mpr
        ⟨⟨quiet,(draining _).2⟩,fun t _ => draining t⟩
  | inr b =>
    obtain ⟨-,r₂,ran,rfl⟩ := join_act_right done
    obtain ⟨quiet,writes⟩ := send_act_drains other (draining _).2 ran
    refine ⟨?_,rfl,writes⟩
    exact (Function.forall_update_iff s.pcs fun t pc =>
      receiveDraining t pc.1 = true ∧ sendDraining t pc.2 = true).mpr
        ⟨⟨(draining _).1,quiet⟩,fun t _ => draining t⟩

theorem tick_drains {t : Thread} (draining : Draining s) (taken : Service.step cfg s (.tick t) = some s') :
    Drains s s' := by
  obtain ⟨q,op,mem,asked,⟨loc,-,rfl⟩ | ⟨res,-,rfl⟩⟩ := splitStep_tick_cases taken
  · exact ⟨draining,rfl,rfl⟩
  · rcases join_request_cases asked with ⟨q₁,rfl,asked₁⟩ | ⟨q₂,rfl,quiet,-⟩
    · rw [Service.machine,join_resume_left asked₁]
      obtain ⟨calm,count⟩ := resume_drains t (draining t).1 res s.shared.1
      refine ⟨?_,count,rfl⟩
      exact (Function.forall_update_iff s.pcs fun t pc =>
        receiveDraining t pc.1 = true ∧ sendDraining t pc.2 = true).mpr
          ⟨⟨calm,(draining t).2⟩,fun t _ => draining t⟩
    · rw [Service.machine,join_resume_right quiet]
      obtain ⟨calm,writes⟩ := sendResume_drains t (draining t).2 res s.shared.2
      refine ⟨?_,rfl,writes⟩
      exact (Function.forall_update_iff s.pcs fun t pc =>
        receiveDraining t pc.1 = true ∧ sendDraining t pc.2 = true).mpr
          ⟨⟨(draining t).1,calm⟩,fun t _ => draining t⟩

theorem idle_draining (idle : ioIdle s = true) : Draining s := by
  simp only [ioIdle,Bool.and_eq_true,beq_iff_eq] at idle
  intro t
  cases t with
  | main => exact ⟨rfl,rfl⟩
  | io => rw [idle.1,idle.2]; exact ⟨rfl,rfl⟩

/-- An IO thread outside its callbacks has no call open. -/
theorem tick_io_none (idle : ioIdle s = true) : Service.step cfg s (.tick .io) = none := by
  simp only [ioIdle,Bool.and_eq_true,beq_iff_eq] at idle
  have quiet : (Service.machine cfg).request .io (s.pcs .io) = none := by
    simp [Service.machine,join,Receive.machine,Send.machine,idle.1,idle.2,Receive.request,Send.request]
  rw [Service.step,splitStep,quiet]

end Service

/-! ### The loop -/

/-- What the loop holds at each place of the IO thread. -/
structure Tidy (s : State) : Prop where
  outside : s.inRun = false → ioIdle s.service = true ∧ clientsGone s.service.shared.1 = true ∧
    s.service.shared.2.inFlight = []
  preparing : ∀ calls, s.life.io = .init calls → calls <:+ ServiceLifecycle.initCalls ∧
    ∀ h, LoopHandle.startCall h ∉ calls → s.handles h = .active
  prepared : s.life.io = .loadState ∨ s.life.io = .storeStarted ∨ s.life.io = .running → ∀ h, s.handles h = .active
  draining : s.life.io = .draining → (∀ h, s.handles h = .closing ∨ s.handles h = .absent) ∧ Draining s.service
  closing : s.life.io = .loopClose → ∀ h, s.handles h = if s.entered then .absent else .active
  again : s.life.io = .loopCloseAgain → ∀ h, s.handles h = .closing
  fresh : (∃ calls, s.life.io = .init calls) ∨ s.life.io = .loadState ∨ s.life.io = .storeStarted → s.entered = false
  entered : s.inRun = true → s.entered = true

/-- A connection in the loop is read from, or being closed, or still with `on_connection_cb`. -/
def Reads (s : State) : Prop := Receive.Reads (s.service.pcs .io).1 s.service.shared.1 s.reading

section Loop

open ServiceLifecycle (Joined MainMove IoMove)

variable {cfg : Config} {s t : State}

theorem handshake_cases {label : ServiceLifecycle.Label} (taken : s.handshake label = some t) :
    ServiceLifecycle.step s.life label = some t.life ∧ t = { s with life := t.life } := by
  obtain ⟨life,moved,rfl⟩ := Option.map_eq_some_iff.mp taken
  exact ⟨moved,rfl⟩

/-- A step that leaves the loop and what the IO thread does. -/
theorem Tidy.kept (tidy : Tidy s) (io : t.life.io = s.life.io) (same : t = { s with life := t.life }) : Tidy t := by
  obtain ⟨outside,preparing,prepared,draining,closing,again,fresh,entered⟩ := tidy
  have service : t.service = s.service := by rw [same]
  have handles : t.handles = s.handles := by rw [same]
  have run : t.entered = s.entered := by rw [same]
  have inRun : t.inRun = s.inRun := by simp only [State.inRun,io]
  refine ⟨?_,?_,?_,?_,?_,?_,?_,?_⟩ <;> simpa only [inRun,io,handles,service,run]

/-- What a step of the IO thread outside `uv_run` has to leave. -/
structure Next (s t : State) : Prop where
  service : t.service = s.service
  preparing : ∀ calls, t.life.io = .init calls → calls <:+ ServiceLifecycle.initCalls ∧
    ∀ h, LoopHandle.startCall h ∉ calls → t.handles h = .active
  prepared : t.life.io = .loadState ∨ t.life.io = .storeStarted ∨ t.life.io = .running → ∀ h, t.handles h = .active
  draining : t.life.io ≠ .draining
  closing : t.life.io = .loopClose → ∀ h, t.handles h = if t.entered then .absent else .active
  again : t.life.io = .loopCloseAgain → ∀ h, t.handles h = .closing
  fresh : (∃ calls, t.life.io = .init calls) ∨ t.life.io = .loadState ∨ t.life.io = .storeStarted → t.entered = false
  entered : t.life.io = .running → t.entered = true

theorem Tidy.outer (tidy : Tidy s) (outside : s.inRun = false) (next : Next s t) : Tidy t where
  outside := fun _ => by
    rw [next.service]
    exact tidy.outside outside
  preparing := next.preparing
  prepared := next.prepared
  draining := fun at' => absurd at' next.draining
  closing := next.closing
  again := next.again
  fresh := next.fresh
  entered := fun inRun => by
    refine next.entered ?_
    simpa [State.inRun,next.draining] using inRun

theorem uvLoopClose_iff : s.uvLoopClose = true ↔ (∀ h, s.handles h = .absent) ∧
    clientsGone s.service.shared.1 = true ∧ s.service.shared.2.inFlight = [] := by
  simp only [State.uvLoopClose,allHandles,List.all_cons,List.all_nil,Bool.and_true,Bool.and_eq_true,decide_eq_true_eq,
    List.isEmpty_iff,and_assoc]
  constructor
  · rintro ⟨timer,prep,check,tcp,gone,requests⟩
    exact ⟨fun h => by cases h <;> assumption,gone,requests⟩
  · rintro ⟨absent,gone,requests⟩
    exact ⟨absent _,absent _,absent _,absent _,gone,requests⟩

/-- Only a launch concerns the IO thread. -/
theorem mainStep_io {l l' : ServiceLifecycle.State} {ok : Bool} (taken : ServiceLifecycle.mainStep l ok = some l') :
    l'.io = l.io ∧ ¬ (l.main = .startLaunch ∧ ok = true) ∨
      l.main = .startLaunch ∧ ok = true ∧ l'.io = .init ServiceLifecycle.initCalls := by
  by_cases launches : l.main = .startLaunch ∧ ok = true
  · obtain ⟨pc,rfl⟩ := launches
    simp only [ServiceLifecycle.mainStep,pc,if_true,Option.some.injEq] at taken
    rw [← taken]
    exact .inr ⟨pc,rfl,rfl⟩
  · have move := ServiceLifecycle.mainStep_move taken
    cases move with
    | launched pc good => exact absurd ⟨pc,good⟩ launches
    | _ => exact .inl ⟨rfl,launches⟩

theorem Tidy.main {ok : Bool} (tidy : Tidy s) (joined : Joined s.life) (taken : mainStep s ok = some t) : Tidy t := by
  obtain ⟨u,taken,same⟩ := Option.map_eq_some_iff.mp taken
  obtain ⟨moved,only⟩ := handshake_cases taken
  rcases mainStep_io moved with ⟨stays,elsewhere⟩ | ⟨pc,rfl,started⟩
  · rw [if_neg (by simpa using elsewhere)] at same
    subst same
    exact tidy.kept stays only
  · have gone := (joined.launch (by simp [pc,ServiceLifecycle.launching])).1
    have outside : s.inRun = false := by
      rw [State.inRun,Bool.or_eq_false_iff,decide_eq_false_iff_not,decide_eq_false_iff_not]
      constructor <;> intro at' <;> simp [ServiceLifecycle.State.alive,at'] at gone
    rw [if_pos (by simp [pc])] at same
    subst same
    refine tidy.outer outside ⟨by rw [only],?_,?_,?_,?_,?_,?_,?_⟩ <;> simp only [started]
    · intro calls same
      obtain rfl := IoPc.init.inj same
      exact ⟨List.suffix_refl _,fun h absent => absurd (by cases h <;> decide) absent⟩
    all_goals simp

theorem inRun_false (outside : s.life.io ≠ .running ∧ s.life.io ≠ .draining) : s.inRun = false := by
  simp [State.inRun,outside.1,outside.2]

theorem closeOpen_all (all : ∀ h, s.handles h = .active) (h : LoopHandle) : s.closeOpen.handles h = .closing := by
  simp [State.closeOpen,all h]

/-- After `uv_run` there is nothing left to close. -/
theorem Tidy.closes (tidy : Tidy s) (outside : s.inRun = false) (closing : s.life.io = .loopClose) :
    s.uvLoopClose = s.entered := by
  have all := tidy.closing closing
  obtain ⟨-,gone,requests⟩ := tidy.outside outside
  cases entered : s.entered with
  | true =>
    simp only [entered,if_true] at all
    exact uvLoopClose_iff.mpr ⟨all,gone,requests⟩
  | false =>
    simp only [entered,Bool.false_eq_true,if_false] at all
    rw [← Bool.not_eq_true,uvLoopClose_iff]
    rintro ⟨absent,-⟩
    have active := all .tcp
    rw [absent] at active
    cases active

/-- A handle is initialized before it is started. -/
theorem init_before {calls : List InitCall} (suffix : calls <:+ ServiceLifecycle.initCalls) (h : LoopHandle)
    (later : h.startCall ∉ calls) : h.initCall ∉ calls := by
  have every : ∀ calls ∈ ServiceLifecycle.initCalls.tails, ∀ h ∈ allHandles,
      h.startCall ∉ calls → h.initCall ∉ calls := by decide
  refine every calls ((List.mem_tails ..).mpr suffix) h ?_ later
  cases h <;> decide

theorem Tidy.init {call : InitCall} {calls : List InitCall} {ok : Bool} (tidy : Tidy s)
    (pc : s.life.io = .init (call :: calls)) (taken : ioStep s ok = some t) : Tidy t := by
  have outside : s.inRun = false := inRun_false (by simp [pc])
  obtain ⟨suffix,active⟩ := tidy.preparing _ pc
  have fresh := tidy.fresh (.inl ⟨_,pc⟩)
  simp only [ioStep,pc] at taken
  obtain ⟨u,taken,same⟩ := Option.map_eq_some_iff.mp taken
  obtain ⟨moved,only⟩ := handshake_cases taken
  simp only [ServiceLifecycle.step,ServiceLifecycle.ioStep,pc] at moved
  have service : u.service = s.service := by rw [only]
  have handles : u.handles = s.handles := by rw [only]
  have entered : u.entered = s.entered := by rw [only]
  cases ok with
  | false =>
    simp only [Bool.false_eq_true,if_false,Option.some.injEq] at moved same
    subst same
    refine tidy.outer outside ⟨service,?_,?_,?_,?_,?_,?_,?_⟩ <;> rw [← moved] <;> simp
  | true =>
    simp only [if_true,Option.some.injEq] at moved same
    subst same
    refine tidy.outer outside ⟨service,?_,?_,?_,?_,?_,?_,?_⟩ <;> simp only [← moved]
    · intro rest same
      obtain rfl := IoPc.init.inj same
      refine ⟨(List.suffix_cons _ _).trans suffix,fun h later => ?_⟩
      have before := init_before suffix h
      rw [handles]
      by_cases own : h.startCall = call
      · subst own
        cases h <;> rfl
      · have gone : h.startCall ∉ call :: calls := by simp [own,later]
        have other : h.initCall ≠ call := fun same => before gone (by simp [same])
        rw [LoopHandle.called,if_neg other,if_neg own]
        exact active h gone
    all_goals simp [entered,fresh]

theorem Tidy.io {ok : Bool} (tidy : Tidy s) (taken : ioStep s ok = some t) : Tidy t := by
  cases pc : s.life.io with
  | absent =>
    simp [ioStep,pc,State.handshake,ServiceLifecycle.step,ServiceLifecycle.ioStep] at taken
  | running => simp [ioStep,pc] at taken
  | draining => simp [ioStep,pc] at taken
  | finished =>
    simp [ioStep,pc,State.handshake,ServiceLifecycle.step,ServiceLifecycle.ioStep] at taken
  | init calls =>
    cases calls with
    | nil =>
      have outside : s.inRun = false := inRun_false (by simp [pc])
      have all := fun h => (tidy.preparing [] pc).2 h (by simp)
      have fresh := tidy.fresh (.inl ⟨_,pc⟩)
      simp only [ioStep,pc] at taken
      obtain ⟨moved,only⟩ := handshake_cases taken
      simp only [ServiceLifecycle.step,ServiceLifecycle.ioStep,pc,Option.some.injEq] at moved
      refine tidy.outer outside ⟨by rw [only],?_,?_,?_,?_,?_,?_,?_⟩ <;> rw [only,← moved] <;> simp [all,fresh]
    | cons call calls => exact tidy.init pc taken
  | loadState =>
    have outside : s.inRun = false := inRun_false (by simp [pc])
    have all := tidy.prepared (.inl pc)
    have fresh := tidy.fresh (.inr (.inl pc))
    simp only [ioStep,pc] at taken
    obtain ⟨moved,only⟩ := handshake_cases taken
    simp only [ServiceLifecycle.step,ServiceLifecycle.ioStep,pc] at moved
    have next : t.life.io = .storeStarted ∨ t.life.io = .loopClose := by
      split at moved
      · exact .inl (by rw [← Option.some.inj moved])
      · exact .inr (by rw [← Option.some.inj moved])
    have handles : t.handles = s.handles := by rw [only]
    have entered : t.entered = false := by rw [only,fresh]
    rcases next with next | next <;> refine tidy.outer outside ⟨by rw [only],?_,?_,?_,?_,?_,?_,?_⟩ <;>
      simp [next,handles,all,entered]
  | storeStarted =>
    have outside : s.inRun = false := inRun_false (by simp [pc])
    have all := tidy.prepared (.inr (.inl pc))
    simp only [ioStep,pc] at taken
    obtain ⟨u,taken,same⟩ := Option.map_eq_some_iff.mp taken
    obtain ⟨moved,only⟩ := handshake_cases taken
    simp only [ServiceLifecycle.step,ServiceLifecycle.ioStep,pc,Option.some.injEq] at moved
    subst same
    refine tidy.outer outside ⟨by rw [only],?_,?_,?_,?_,?_,?_,?_⟩ <;> rw [only,← moved] <;> simp [all]
  | loopClose =>
    have outside : s.inRun = false := inRun_false (by simp [pc])
    have closes := tidy.closes outside pc
    have all := tidy.closing pc
    simp only [ioStep,pc] at taken
    obtain ⟨u,taken,same⟩ := Option.map_eq_some_iff.mp taken
    obtain ⟨moved,only⟩ := handshake_cases taken
    simp only [ServiceLifecycle.step,ServiceLifecycle.ioStep,pc] at moved
    cases entered : s.entered with
    | true =>
      rw [closes,entered] at moved same
      simp only [if_true,Option.some.injEq] at moved same
      subst same
      refine tidy.outer outside ⟨by rw [only],?_,?_,?_,?_,?_,?_,?_⟩ <;> rw [only,← moved] <;> simp
    | false =>
      rw [closes,entered] at moved same
      simp only [Bool.false_eq_true,if_false,Option.some.injEq] at moved same
      simp only [entered,Bool.false_eq_true,if_false] at all
      have open' (h : LoopHandle) : u.handles h = .active := by
        rw [only]
        exact all h
      have walked := closeOpen_all open'
      have next : t.life.io = .loopCloseAgain := by rw [← same,State.closeOpen,← moved]
      subst same
      refine tidy.outer outside ⟨by rw [State.closeOpen,only],?_,?_,?_,?_,?_,?_,?_⟩ <;> simp [next,walked]
  | loopCloseAgain =>
    have outside : s.inRun = false := inRun_false (by simp [pc])
    simp only [ioStep,pc] at taken
    obtain ⟨moved,only⟩ := handshake_cases taken
    simp only [ServiceLifecycle.step,ServiceLifecycle.ioStep,pc,Option.some.injEq] at moved
    refine tidy.outer outside ⟨by rw [only],?_,?_,?_,?_,?_,?_,?_⟩ <;> rw [only,← moved] <;> simp

theorem Tidy.timer (tidy : Tidy s) (taken : timerStep s = some t) : Tidy t := by
  simp only [timerStep,Option.ite_none_right_eq_some,Bool.and_eq_true,decide_eq_true_eq] at taken
  obtain ⟨⟨⟨pc,-⟩,idle⟩,taken⟩ := taken
  have entered := tidy.entered (by simp [State.inRun,pc])
  have active := tidy.prepared (.inr (.inr pc))
  obtain ⟨u,taken,same⟩ := Option.map_eq_some_iff.mp taken
  obtain ⟨moved,only⟩ := handshake_cases taken
  simp only [ServiceLifecycle.step,ServiceLifecycle.ioStep,pc] at moved
  by_cases serving : s.life.state ≠ .started
  · rw [if_pos serving] at moved same
    have all (h : LoopHandle) : u.handles h = .active := by
      rw [only]
      exact active h
    have next : t.life.io = .draining := by rw [← same,State.closeOpen,← Option.some.inj moved]
    have calm : Draining t.service := by
      rw [← same,State.closeOpen,only]
      exact idle_draining idle
    have closing (h : LoopHandle) : t.handles h = .closing := by
      rw [← same]
      exact closeOpen_all all h
    have entered' : t.entered = true := by rw [← same,State.closeOpen,only,entered]
    refine ⟨?_,?_,?_,?_,?_,?_,?_,?_⟩ <;> simp [State.inRun,next,calm,closing,entered']
  · rw [if_neg serving] at moved same
    subst same
    exact tidy.kept (by rw [← Option.some.inj moved]) only

theorem Tidy.closed (tidy : Tidy s) {h : LoopHandle} (inRun : s.inRun = true) (closing : s.handles h = .closing) :
    Tidy { s with handles := Function.update s.handles h .absent } := by
  have running : s.life.io ≠ .running := by
    intro pc
    have active := tidy.prepared (.inr (.inr pc)) h
    rw [closing] at active
    cases active
  have pc : s.life.io = .draining := by
    simpa [State.inRun,running] using inRun
  obtain ⟨shut,calm⟩ := tidy.draining pc
  have entered := tidy.entered inRun
  refine ⟨?_,?_,?_,?_,?_,?_,?_,?_⟩ <;> simp [State.inRun,pc,entered]
  refine ⟨fun h' => ?_,calm⟩
  by_cases own : h' = h
  · subst own
    exact .inr (Function.update_self ..)
  · simpa [own] using shut h'

/-- A loop that is no longer alive holds nothing: the handles of the thread are closed, and the
connections that are left would be read from. -/
theorem Tidy.drained (tidy : Tidy s) (reads : Reads s) (pc : s.life.io = .draining) (idle : ioIdle s.service = true)
    (drained : s.drained = true) : s.uvLoopClose = true := by
  simp only [State.drained,Bool.and_eq_true,List.all_eq_true,Bool.or_eq_true,decide_eq_true_eq,
    List.isEmpty_iff] at drained
  obtain ⟨⟨handles,clients⟩,requests⟩ := drained
  refine uvLoopClose_iff.mpr ⟨fun h => ?_,?_,requests⟩
  · have rests := handles h (by cases h <;> decide)
    rcases (tidy.draining pc).1 h with closing | absent
    · rw [closing] at rests
      rcases rests with rests | rests <;> cases rests
    · exact absent
  · simp only [clientsRest,List.all_eq_true,List.mem_range,Bool.or_eq_true,Bool.and_eq_true,Bool.not_eq_true',
      List.contains_eq_mem,decide_eq_false_iff_not] at clients
    simp only [ioIdle,Bool.and_eq_true,beq_iff_eq] at idle
    simp only [clientsGone,List.all_eq_true,List.mem_range]
    intro h named
    rcases clients h named with freed | ⟨unclosed,unread⟩
    · exact freed
    · rcases reads h named with freed | closing | read | held
      · exact freed
      · rw [closing] at unclosed
        cases unclosed
      · exact absurd read unread
      · rw [idle.1] at held
        cases held

theorem Tidy.leave (tidy : Tidy s) (reads : Reads s) (pc : s.life.io = .draining) (rest : s.drained = true)
    (idle : ioIdle s.service = true) (taken : s.handshake (.io true) = some t) : Tidy t := by
  obtain ⟨absent,gone,requests⟩ := uvLoopClose_iff.mp (tidy.drained reads pc idle rest)
  have entered := tidy.entered (by simp [State.inRun,pc])
  obtain ⟨moved,only⟩ := handshake_cases taken
  simp only [ServiceLifecycle.step,ServiceLifecycle.ioStep,pc,Option.some.injEq] at moved
  refine ⟨?_,?_,?_,?_,?_,?_,?_,?_⟩ <;> rw [only,← moved] <;>
    simp [State.inRun,idle,gone,requests,absent,entered]

/-- A call of the service, with what it leaves outside `uv_run` and while the loop is drained. -/
theorem Tidy.service (tidy : Tidy s) {service : Service.Running} {reading : List Nat}
    (left : s.inRun = false → Left s.service service)
    (drains : s.life.io = .draining → Draining service) : Tidy { s with service, reading } := by
  obtain ⟨outside,preparing,prepared,draining,closing,again,fresh,entered⟩ := tidy
  refine ⟨fun off => ?_,preparing,prepared,fun pc => ⟨(draining pc).1,drains pc⟩,closing,again,fresh,entered⟩
  obtain ⟨idle,gone,requests⟩ := outside off
  obtain ⟨io,handles,count,-,inFlight⟩ := left off
  refine ⟨?_,?_,inFlight.trans requests⟩
  · rwa [ioIdle,io]
  · rwa [clientsGone,handles,count]

theorem Tidy.act {a : Service.Act} {service : Service.Running} (reading : List Nat) (tidy : Tidy s)
    (begun : begins s a = true)
    (taken : Service.step cfg s.service (.act a) = some service) :
    Tidy { s with service, reading } ∧ (s.life.io = .draining → Drains s.service service) := by
  have quiet (pc : s.life.io = .draining) : opens a = false := by
    obtain ⟨shut,-⟩ := tidy.draining pc
    have inactive (h : LoopHandle) : s.handles h ≠ .active := by
      rcases shut h with same | same <;> simp [same]
    cases a with
    | inl b =>
      cases b with
      | connection failure => simp [begins,inactive .tcp] at begun
      | _ => rfl
    | inr b =>
      cases b with
      | prep => simp [begins,inactive .prep] at begun
      | _ => rfl
  have drains (pc : s.life.io = .draining) : Drains s.service service :=
    act_drains (tidy.draining pc).2 (quiet pc) taken
  refine ⟨tidy.service (fun off => ?_) fun pc => (drains pc).draining,drains⟩
  refine act_main_left ?_ taken
  cases a with
  | inl b =>
    cases b with
    | acquire | release => rfl
    | _ => simp [begins,off] at begun
  | inr b =>
    cases b with
    | send sent => rfl
    | _ => simp [begins,off] at begun

theorem Tidy.tick {thread : Thread} {service : Service.Running} (reading : List Nat) (tidy : Tidy s)
    (taken : Service.step cfg s.service (.tick thread) = some service) :
    Tidy { s with service, reading } ∧ (s.life.io = .draining → Drains s.service service) := by
  have drains (pc : s.life.io = .draining) : Drains s.service service := tick_drains (tidy.draining pc).2 taken
  refine ⟨tidy.service (fun off => ?_) fun pc => (drains pc).draining,drains⟩
  cases thread with
  | main => exact tick_main_left taken
  | io =>
    rw [tick_io_none (tidy.outside off).1] at taken
    cases taken

theorem Tidy.step {label : Label} (tidy : Tidy s) (joined : Joined s.life) (reads : Reads s)
    (taken : step cfg s label = some t) : Tidy t := by
  cases label with
  | start | stop | stopSignal =>
    simp only [ServiceLoop.step,Option.ite_none_right_eq_some] at taken
    obtain ⟨moved,only⟩ := handshake_cases taken.2
    refine tidy.kept ?_ only
    simp only [ServiceLifecycle.step,ServiceLifecycle.State.call,Option.ite_none_right_eq_some] at moved
    rw [← Option.some.inj moved.2]
  | main ok => exact tidy.main joined taken
  | io ok => exact tidy.io taken
  | timer => exact tidy.timer taken
  | closed h =>
    simp only [ServiceLoop.step,Option.ite_none_right_eq_some,Bool.and_eq_true,decide_eq_true_eq] at taken
    obtain ⟨⟨inRun,closing⟩,same⟩ := taken
    exact Option.some.inj same ▸ tidy.closed inRun closing
  | leave =>
    simp only [ServiceLoop.step,Option.ite_none_right_eq_some,Bool.and_eq_true,decide_eq_true_eq] at taken
    obtain ⟨⟨⟨pc,rest⟩,idle⟩,taken⟩ := taken
    exact tidy.leave reads pc rest idle taken
  | service label =>
    cases label with
    | act a =>
      simp only [ServiceLoop.step,Option.ite_none_right_eq_some] at taken
      obtain ⟨begun,taken⟩ := taken
      obtain ⟨service,moved,rfl⟩ := Option.map_eq_some_iff.mp taken
      exact (tidy.act _ begun moved).1
    | tick thread =>
      obtain ⟨service,moved,rfl⟩ := Option.map_eq_some_iff.mp taken
      exact (tidy.tick _ moved).1

/-- A step is one of the handshake, the completion of a close, or one of the service. -/
inductive Outline (cfg : Config) (s t : State) : Label → Prop
  | handshake {label : Label} (label' : ServiceLifecycle.Label) :
      ServiceLifecycle.step s.life label' = some t.life → t.service = s.service → t.reading = s.reading →
      Outline cfg s t label
  | closed (h : LoopHandle) : t.life = s.life → t.service = s.service → t.reading = s.reading →
      Outline cfg s t (.closed h)
  | service (label' : SplitLabel Thread Service.Act) : Service.step cfg s.service label' = some t.service →
      t = { s with service := t.service, reading := s.reading ++ Service.readCalls cfg s.service label' } →
      (∀ a, label' = .act a → begins s a = true) → Outline cfg s t (.service label')

theorem step_outline {label : Label} (taken : step cfg s label = some t) : Outline cfg s t label := by
  have shakes {label' : ServiceLifecycle.Label} {u : State} (moved : s.handshake label' = some u)
      (life : t.life = u.life) (service : t.service = u.service) (reading : t.reading = u.reading) :
      Outline cfg s t label := by
    obtain ⟨step,only⟩ := handshake_cases moved
    exact .handshake label' (life ▸ step) (service.trans (by rw [only])) (reading.trans (by rw [only]))
  cases label with
  | start | stop | stopSignal =>
    simp only [step,Option.ite_none_right_eq_some] at taken
    exact shakes taken.2 rfl rfl rfl
  | main ok =>
    obtain ⟨u,moved,same⟩ := Option.map_eq_some_iff.mp taken
    refine shakes moved ?_ ?_ ?_ <;> rw [← same] <;> split <;> rfl
  | io ok =>
    simp only [step,ioStep] at taken
    split at taken
    · cases taken
    · cases taken
    · obtain ⟨u,moved,same⟩ := Option.map_eq_some_iff.mp taken
      refine shakes moved ?_ ?_ ?_ <;> rw [← same] <;> split <;> rfl
    · obtain ⟨u,moved,same⟩ := Option.map_eq_some_iff.mp taken
      refine shakes moved ?_ ?_ ?_ <;> rw [← same]
    · obtain ⟨u,moved,same⟩ := Option.map_eq_some_iff.mp taken
      refine shakes moved ?_ ?_ ?_ <;> rw [← same] <;> split <;> rfl
    · exact shakes taken rfl rfl rfl
    · exact shakes taken rfl rfl rfl
  | timer =>
    simp only [step,timerStep,Option.ite_none_right_eq_some] at taken
    obtain ⟨u,moved,same⟩ := Option.map_eq_some_iff.mp taken.2
    refine shakes moved ?_ ?_ ?_ <;> rw [← same] <;> split <;> rfl
  | closed h =>
    simp only [step,Option.ite_none_right_eq_some] at taken
    rw [← Option.some.inj taken.2]
    exact .closed h rfl rfl rfl
  | leave =>
    simp only [step,Option.ite_none_right_eq_some] at taken
    exact shakes taken.2 rfl rfl rfl
  | service label =>
    cases label with
    | act a =>
      simp only [step,Option.ite_none_right_eq_some] at taken
      obtain ⟨service,moved,rfl⟩ := Option.map_eq_some_iff.mp taken.2
      refine .service _ moved rfl fun a' same => ?_
      cases same
      exact taken.1
    | tick thread =>
      obtain ⟨service,moved,rfl⟩ := Option.map_eq_some_iff.mp taken
      refine .service _ moved rfl fun a' same => ?_
      cases same

theorem Reads.step {label : Label} (reads : Reads s) (taken : ServiceLoop.step cfg s label = some t) : Reads t := by
  cases step_outline taken with
  | handshake label' _ service reading | closed h _ service reading => simpa only [Reads,service,reading] using reads
  | service label' moved same _ =>
    have after := Service.step_reads reads moved
    rw [same]
    exact after

/-- While the loop is drained no step accepts a connection or writes to one. -/
theorem Tidy.drains {label : Label} (tidy : Tidy s) (pc : s.life.io = .draining)
    (taken : ServiceLoop.step cfg s label = some t) :
    t.service.shared.1.handleCount = s.service.shared.1.handleCount ∧
      t.service.shared.2.writes = s.service.shared.2.writes := by
  cases step_outline taken with
  | handshake label' _ service => exact service ▸ ⟨rfl,rfl⟩
  | closed h _ service => exact service ▸ ⟨rfl,rfl⟩
  | service label' moved same begun =>
    cases label' with
    | act a =>
      obtain ⟨-,count,writes⟩ := (tidy.act [] (begun a rfl) moved).2 pc
      exact ⟨count,writes⟩
    | tick thread =>
      obtain ⟨-,count,writes⟩ := (tidy.tick [] moved).2 pc
      exact ⟨count,writes⟩

variable {free : ListPtr Nat} {readBlocks writeBlocks : Nat → Nat → UInt8}
  {mem : Service.QueueName → QueueSpsc.Queue Nat} {guard : State → Label → Prop}

/-- The handshake and the service run as they do on their own. -/
theorem reachable_parts
    (reach : Transition.Reachable (step cfg) guard (initial cfg free readBlocks writeBlocks mem) s) :
    Transition.Reachable ServiceLifecycle.step (fun _ _ => True) ServiceLifecycle.initial s.life ∧
      Transition.Reachable (Service.step cfg) (fun _ _ => True) (Service.initial cfg free readBlocks writeBlocks mem)
        s.service := by
  constructor
  · refine reach.map State.life fun s label t _ taken => ?_
    cases step_outline taken with
    | handshake label' moved _ _ => exact .inr ⟨label',trivial,moved⟩
    | closed _ same _ _ => exact .inl same
    | service label' _ same _ => exact .inl (by rw [same])
  · refine reach.map State.service fun s label t _ taken => ?_
    cases step_outline taken with
    | handshake _ _ same _ => exact .inl same
    | closed _ _ same _ => exact .inl same
    | service label' moved _ _ => exact .inr ⟨label',trivial,moved⟩

theorem reachable_reads
    (reach : Transition.Reachable (step cfg) guard (initial cfg free readBlocks writeBlocks mem) s) : Reads s :=
  reach.invariant Reads (fun h named => absurd named (Nat.not_lt_zero h)) fun _ _ _ reads _ taken => reads.step taken

theorem reachable_tidy
    (reach : Transition.Reachable (step cfg) guard (initial cfg free readBlocks writeBlocks mem) s) : Tidy s := by
  refine reach.invariant_with (fun s => Joined s.life ∧ Reads s) Tidy
    (fun _ reached => ⟨ServiceLifecycle.reachable_joined (reachable_parts reached).1,reachable_reads reached⟩) ?_
    fun s label t held tidy _ taken => tidy.step held.1 held.2 taken
  refine ⟨fun _ => ⟨rfl,rfl,rfl⟩,?_,?_,?_,?_,?_,?_,?_⟩ <;> simp [initial,ServiceLifecycle.initial,State.inRun]

end Loop

/-- In every run, with the handshake, the loop and the callbacks in any order: a connection or a request
of uv_write is in the loop only while the IO thread is in `uv_run`. Once `on_timer_cb` has seen the stop, no
connection is accepted and nothing more is written. `uv_run` returns when nothing in the loop is active or
closing, which it is not before that; then no connection is left. `uv_loop_close` succeeds exactly where `uv_run`
was entered; elsewhere the handles of the thread are all active, and it fails again after the walk.
`tcp_service_stop` waits as long as a connection is left, and has none when it is through. -/
theorem shutdown_drains (cfg : Config) (free : ListPtr Nat) (readBlocks writeBlocks : Nat → Nat → UInt8)
    (mem : Service.QueueName → QueueSpsc.Queue Nat) (s : State)
    (reach : Transition.Reachable (step cfg) (fun _ _ => True) (initial cfg free readBlocks writeBlocks mem) s) :
    (s.inRun = false → clientsGone s.service.shared.1 = true ∧ s.service.shared.2.inFlight = []) ∧
    (s.life.io = .draining → ∀ label t, step cfg s label = some t →
      t.service.shared.1.handleCount = s.service.shared.1.handleCount ∧
        t.service.shared.2.writes = s.service.shared.2.writes) ∧
    (s.life.io = .running → s.drained = false) ∧
    (∀ t, step cfg s .leave = some t → s.uvLoopClose = true ∧ clientsGone s.service.shared.1 = true) ∧
    (s.life.io = .loopClose → s.uvLoopClose = s.entered ∧ (s.entered = false → ∀ h, s.handles h = .active)) ∧
    (s.life.io = .loopCloseAgain → s.uvLoopClose = false) ∧
    (s.life.main = .stopJoin → clientsGone s.service.shared.1 = false → ∀ ok, step cfg s (.main ok) = none) ∧
    (s.life.main = .stopFinish ∨ s.life.state = .stopped →
      s.life.alive = false ∧ clientsGone s.service.shared.1 = true ∧ s.service.shared.2.inFlight = []) := by
  have tidy := reachable_tidy reach
  have joined := ServiceLifecycle.reachable_joined (reachable_parts reach).1
  have outside (off : s.inRun = false) := (tidy.outside off).2
  refine ⟨outside,fun pc label t => tidy.drains pc,?_,?_,?_,?_,?_,?_⟩
  · intro pc
    have active := tidy.prepared (.inr (.inr pc)) .timer
    simp [State.drained,allHandles,active]
  · intro t taken
    simp only [step,Option.ite_none_right_eq_some,Bool.and_eq_true,decide_eq_true_eq] at taken
    obtain ⟨⟨⟨pc,rest⟩,idle⟩,-⟩ := taken
    have closes := tidy.drained (reachable_reads reach) pc idle rest
    exact ⟨closes,(uvLoopClose_iff.mp closes).2.1⟩
  · intro pc
    refine ⟨tidy.closes (inRun_false (by simp [pc])) pc,fun off h => ?_⟩
    have all := tidy.closing pc h
    rwa [off] at all
  · intro pc
    rw [← Bool.not_eq_true,uvLoopClose_iff]
    rintro ⟨absent,-⟩
    have closing := tidy.again pc .tcp
    rw [absent] at closing
    cases closing
  · intro pc left ok
    have inRun : s.inRun = true := by
      by_contra off
      rw [(outside (by simpa using off)).1] at left
      cases left
    have alive : s.life.alive = true ∧ s.life.io ≠ .finished := by
      simp only [State.inRun,Bool.or_eq_true,decide_eq_true_eq] at inRun
      rcases inRun with at' | at' <;> simp [ServiceLifecycle.State.alive,at']
    have waits : ServiceLifecycle.step s.life (.main ok) = none := by
      simp [ServiceLifecycle.step,ServiceLifecycle.mainStep,pc,joined.joinable alive.1,alive.2]
    simp [step,mainStep,State.handshake,waits]
  · intro ended
    have gone : s.life.alive = false := by
      rcases ended with pc | stopped
      · exact joined.finish pc
      · exact joined.down (.inr stopped)
    have off : s.inRun = false := by
      rw [State.inRun,Bool.or_eq_false_iff,decide_eq_false_iff_not,decide_eq_false_iff_not]
      constructor <;> intro at' <;> simp [ServiceLifecycle.State.alive,at'] at gone
    exact ⟨gone,outside off⟩

def loopStart : State where
  life := ServiceLifecycle.initial
  service := Service.serviceStart
  handles := fun _ => .absent
  reading := []
  entered := false

def served (label : SplitLabel Thread Receive.Act) : Label := .service (Service.receiving label)

/-- The service is stopped while a connection is read from. -/
def stoppedRun : List Label :=
  [.start] ++ List.replicate 5 (.main true) ++ List.replicate 20 (.io true) ++ Receive.connected.map served ++
    [.stop,.main true,.main true,.timer,.closed .timer,.closed .prep,.closed .check,.closed .tcp]

/-- The peer ends the connection. -/
def drainedRun : List Label :=
  (.act (.read 0 .error) :: .act (.close 0) :: Receive.ioCall 12).map served ++ [.leave]

theorem shutdown_drains_read :
    (∃ s, Transition.execute (step serviceConfig) stoppedRun loopStart = some s ∧ s.uvLoopClose = false ∧
      step serviceConfig s .leave = none ∧ ∀ ok, step serviceConfig s (.main ok) = none) ∧
    (∃ s, Transition.execute (step serviceConfig) (stoppedRun ++ drainedRun) loopStart = some s ∧
      s.entered = true ∧ s.uvLoopClose = true) ∧
    ∃ s, Transition.execute (step serviceConfig) (stoppedRun ++ drainedRun ++ [.io true,.main true,.main true])
      loopStart = some s ∧ s.life.alive = false ∧ clientsGone s.service.shared.1 = true := by
  have reaches {labels : List Label} {s : State}
      (run : Transition.execute (step serviceConfig) labels loopStart = some s) :
      Transition.Reachable (step serviceConfig) (fun _ _ => True) loopStart s := .of_execute (fun _ _ _ => trivial) run
  refine ⟨?_,?_,?_⟩
  · have observed : (Transition.execute (step serviceConfig) stoppedRun loopStart).map
        (fun s => (s.life.main, clientsGone s.service.shared.1, s.drained, s.uvLoopClose)) =
          some (.stopJoin, false, false, false) := by decide +kernel
    obtain ⟨s,run,same⟩ := Option.map_eq_some_iff.mp observed
    obtain ⟨pc,left,alive,held⟩ : s.life.main = .stopJoin ∧ clientsGone s.service.shared.1 = false ∧
        s.drained = false ∧ s.uvLoopClose = false := by simpa using same
    refine ⟨s,run,held,by simp [step,alive],?_⟩
    exact (shutdown_drains serviceConfig _ _ _ _ s (reaches run)).2.2.2.2.2.2.1 pc left
  · have observed : (Transition.execute (step serviceConfig) (stoppedRun ++ drainedRun) loopStart).map
        (fun s => (s.life.io, s.entered)) = some (.loopClose, true) := by decide +kernel
    obtain ⟨s,run,same⟩ := Option.map_eq_some_iff.mp observed
    obtain ⟨pc,entered⟩ := Prod.mk.inj same
    obtain ⟨closes,-⟩ := (shutdown_drains serviceConfig _ _ _ _ s (reaches run)).2.2.2.2.1 pc
    exact ⟨s,run,entered,closes.trans entered⟩
  · have observed : (Transition.execute (step serviceConfig)
        (stoppedRun ++ drainedRun ++ [.io true,.main true,.main true]) loopStart).map (fun s => s.life.state) =
          some .stopped := by decide +kernel
    obtain ⟨s,run,stopped⟩ := Option.map_eq_some_iff.mp observed
    obtain ⟨gone,clients,-⟩ := (shutdown_drains serviceConfig _ _ _ _ s (reaches run)).2.2.2.2.2.2.2 (.inr stopped)
    exact ⟨s,run,gone,clients⟩

end Tcpeen.ServiceLoop
