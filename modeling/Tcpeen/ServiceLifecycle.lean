import Tcpeen.Library.Transition

/-! Start-up and shutdown of the service: `tcp_service_start`, `tcp_service_stop` and
`tcp_service_stop_signal` on the main thread against `tcp_service_io_thread`. Each load
and store of the shared state, each fallible call and the join is a step of its own. -/
namespace Tcpeen.ServiceLifecycle

inductive ServiceState where
  | new
  | starting
  | started
  | stopping
  | stopped
  | error
  | invalid
  deriving DecidableEq, Repr

/-- `detach_state` of the thread record, zero until `tn_thread_setup` runs. -/
inductive DetachState where
  | zeroed
  | notCreated
  | joinable
  | joinCompleted
  deriving DecidableEq, Repr

/-- `TN_SUCCESS` and `TN_ERROR`. -/
inductive Status where
  | success
  | failure
  deriving DecidableEq, Repr

/-- The fallible calls of the IO thread before the listener is up, in order. -/
inductive InitCall where
  | acquireLoop | acquireTcp | acquireTimer | acquirePrep | acquireCheck | acquireSignal
  | loopInit | timerInit | timerStart | prepareInit | prepareStart | checkInit | checkStart
  | tcpInit | tcpNodelay | tcpBind | listen
  deriving DecidableEq, Repr

def initCalls : List InitCall :=
  [.acquireLoop,.acquireTcp,.acquireTimer,.acquirePrep,.acquireCheck,.acquireSignal,
    .loopInit,.timerInit,.timerStart,.prepareInit,.prepareStart,.checkInit,.checkStart,
    .tcpInit,.tcpNodelay,.tcpBind,.listen]

inductive MainPc where
  | idle
  | startLoad
  | startStore
  | startEndpoint
  | startString
  | startLaunch
  | stopLoad
  | stopStore
  | stopJoin
  | stopFinish
  | signalLoad
  | signalStore
  deriving DecidableEq, Repr

/-- `running` is inside `uv_run` with the accept timer alive, `draining` after the timer
has closed the listener and the service handles. -/
inductive IoPc where
  | absent
  | init (calls : List InitCall)
  | loadState
  | storeStarted
  | running
  | draining
  | loopClose
  | loopCloseAgain
  | finished
  deriving DecidableEq, Repr

/-- `stopRequested` is history: set by a store of `STOPPING`, cleared by the store with
which a later start takes the service up again. -/
structure State where
  state : ServiceState
  main : MainPc
  io : IoPc
  detach : DetachState
  result : Status
  stopRequested : Bool
  deriving DecidableEq, Repr

/-- After `tcp_service_setup`. -/
def initial : State where
  state := .new
  main := .idle
  io := .absent
  detach := .zeroed
  result := .success
  stopRequested := false

/-- Labels. The flag of `main` and `io` is the outcome of the call made in that step, if
it makes one that can fail. -/
inductive Label where
  | start
  | stop
  | stopSignal
  | main (ok : Bool)
  | io (ok : Bool)
  deriving DecidableEq, Repr

def State.call (s : State) (pc : MainPc) : Option State :=
  if s.main = .idle then some { s with main := pc } else none

def State.leave (s : State) (result : Status) : State := { s with main := .idle, result }

/-- The guard that the two stop functions share. -/
def refusesStop (state : ServiceState) : Bool := state = .stopping || state = .stopped

def mainStep (s : State) (ok : Bool) : Option State :=
  match s.main with
  | .idle => none
  | .startLoad =>
    if s.state ≠ .new ∧ s.state ≠ .stopped then some (s.leave .failure)
    else some { s with main := .startStore }
  | .startStore =>
    some { s with state := .starting, main := .startEndpoint, stopRequested := false }
  | .startEndpoint =>
    if ok then some { s with main := .startString } else some (s.leave .failure)
  | .startString =>
    if ok then some { s with main := .startLaunch } else some (s.leave .failure)
  | .startLaunch =>
    if ok then some ({ s with io := .init initCalls, detach := .joinable }.leave .success)
    else some ({ s with detach := .notCreated }.leave .failure)
  | .stopLoad =>
    if refusesStop s.state then some (s.leave .failure) else some { s with main := .stopStore }
  | .stopStore => some { s with state := .stopping, main := .stopJoin, stopRequested := true }
  | .stopJoin =>
    if s.detach = .joinable then
      if s.io = .finished then some { s with detach := .joinCompleted, main := .stopFinish }
      else none
    else some { s with main := .stopFinish }
  | .stopFinish => some ({ s with state := .stopped }.leave .success)
  | .signalLoad =>
    if refusesStop s.state then some (s.leave .failure) else some { s with main := .signalStore }
  | .signalStore =>
    some ({ s with state := .stopping, stopRequested := true }.leave .success)

def ioStep (s : State) (ok : Bool) : Option State :=
  match s.io with
  | .absent => none
  | .init [] => some { s with io := .loadState }
  | .init (_ :: calls) =>
    if ok then some { s with io := .init calls } else some { s with io := .finished }
  | .loadState =>
    if s.state = .starting then some { s with io := .storeStarted }
    else some { s with io := .loopClose }
  | .storeStarted => some { s with state := .started, io := .running }
  | .running =>
    if s.state ≠ .started then some { s with io := .draining } else some s
  | .draining => some { s with io := .loopClose }
  | .loopClose => if ok then some { s with io := .finished } else some { s with io := .loopCloseAgain }
  | .loopCloseAgain => some { s with io := .finished }
  | .finished => none

def step (s : State) : Label → Option State
  | .start => s.call .startLoad
  | .stop => s.call .stopLoad
  | .stopSignal => s.call .signalLoad
  | .main ok => mainStep s ok
  | .io ok => ioStep s ok

/-- What the start-up handshake is meant to give: a requested stop stays in force. -/
def StopKept (s : State) : Prop := s.stopRequested = true → s.state ≠ .started

/-- Main-thread calls that are about to store `STOPPING`. -/
def storesStopping (pc : MainPc) : Bool := pc = .stopStore || pc = .signalStore

/-- `STOPPING` is not stored while the IO thread is between its load of `STARTING` and
its store of `STARTED`. -/
def ClearOfHandshake (s : State) (label : Label) : Prop :=
  (∃ ok, label = .main ok) → storesStopping s.main = true → s.io ≠ .storeStarted

/-- A thread at its store saw `STARTING`, and no stop has been stored since. -/
structure Invariant (s : State) : Prop where
  handshake : s.io = .storeStarted → s.stopRequested = false
  fresh : s.state = .starting → s.stopRequested = false
  kept : StopKept s

private theorem Invariant.frame {s t : State} (valid : Invariant s) (state : t.state = s.state)
    (requested : t.stopRequested = s.stopRequested)
    (io : t.io = .storeStarted → s.io = .storeStarted) : Invariant t where
  handshake := fun at' => requested.trans (valid.handshake (io at'))
  fresh := fun at' => requested.trans (valid.fresh (state ▸ at'))
  kept := by
    intro asked
    rw [state]
    exact valid.kept (requested ▸ asked)

private theorem Invariant.request {t : State} (io : t.io ≠ .storeStarted)
    (state : t.state = .stopping) : Invariant t where
  handshake := fun at' => absurd at' io
  fresh := by simp [state]
  kept := by simp [StopKept,state]

private theorem mainStep_preserves {s t : State} {ok : Bool} (valid : Invariant s)
    (clear : ClearOfHandshake s (.main ok)) (taken : mainStep s ok = some t) : Invariant t := by
  have clear := clear ⟨ok,rfl⟩
  unfold mainStep at taken
  split at taken
  case h_3 =>
    cases taken
    exact ⟨fun _ => rfl,fun _ => rfl,by simp [StopKept]⟩
  case h_8 pc =>
    cases taken
    exact .request (clear (by simp [storesStopping,pc])) rfl
  case h_12 pc =>
    cases taken
    exact .request (clear (by simp [storesStopping,pc])) rfl
  case h_10 =>
    cases taken
    exact ⟨valid.handshake,by simp [State.leave],by simp [StopKept,State.leave]⟩
  case h_6 =>
    split at taken <;> cases taken
    · exact valid.frame rfl rfl (by simp [State.leave])
    · exact valid.frame rfl rfl id
  all_goals
    repeat' split at taken
    all_goals cases taken
    all_goals exact valid.frame rfl rfl id

private theorem ioStep_preserves {s t : State} {ok : Bool} (valid : Invariant s)
    (taken : ioStep s ok = some t) : Invariant t := by
  unfold ioStep at taken
  split at taken
  case h_4 =>
    split at taken
    · next starting =>
      cases taken
      exact ⟨fun _ => valid.fresh starting,valid.fresh,valid.kept⟩
    · cases taken
      exact valid.frame rfl rfl (by simp)
  case h_5 at' =>
    cases taken
    exact ⟨by simp,by simp,by simp [StopKept,valid.handshake at']⟩
  all_goals
    repeat' split at taken
    all_goals cases taken
    all_goals exact valid.frame rfl rfl (by simp)

theorem step_preserves {s t : State} {label : Label} (valid : Invariant s)
    (clear : ClearOfHandshake s label) (taken : step s label = some t) : Invariant t := by
  cases label with
  | main ok => exact mainStep_preserves valid clear taken
  | io ok => exact ioStep_preserves valid taken
  | _ =>
    simp only [step,State.call] at taken
    split at taken
    · cases taken
      exact valid.frame rfl rfl id
    · contradiction

/-- As long as no stop is stored inside the handshake, none is overwritten by it. -/
theorem stop_kept_clear_of_handshake (s : State)
    (reach : Transition.Reachable step ClearOfHandshake initial s) : StopKept s := by
  refine (reach.invariant Invariant ?_ ?_).kept
  · exact ⟨by simp [initial],by simp [initial],by simp [StopKept,initial]⟩
  · exact fun _ _ _ valid clear taken => step_preserves valid clear taken

/-- Start, bring the listener up, load `STARTING`, and only then stop. -/
def lostStop : List Label :=
  [.start,.main true,.main true,.main true,.main true,.main true] ++
  List.replicate 18 (.io true) ++ [.io true,.stop,.main true,.main true,.io true]

/-- The store of `STARTED` overwrites the `STOPPING` of a stop that came after the load. -/
theorem stop_lost_in_handshake :
    ¬ ∀ s, Transition.Reachable step (fun _ _ => True) initial s → StopKept s := by
  intro always
  have observed : (Transition.execute step lostStop initial).map
      (fun s => (s.stopRequested, s.state)) = some (true, .started) := by decide
  obtain ⟨s,run,seen⟩ := Option.map_eq_some_iff.mp observed
  obtain ⟨requested,started⟩ := Prod.mk.inj seen
  exact always s (.of_execute (fun _ _ _ => trivial) run) requested started

/-- A stop that is stored before the load is respected: the thread closes its loop. -/
def earlyStop : List Label :=
  [.start,.main true,.main true,.main true,.main true,.main true,.stop,.main true,.main true] ++
  List.replicate 20 (.io true) ++ [.main true,.main true]

theorem stop_kept_clear_of_handshake_early :
    ∃ s, Transition.Reachable step ClearOfHandshake initial s ∧ s.state = .stopped ∧ StopKept s := by
  have observed : (Transition.execute (Transition.checked step fun s _ => s.io ≠ .storeStarted)
      earlyStop initial).map State.state = some .stopped := by decide
  obtain ⟨s,run,stopped⟩ := Option.map_eq_some_iff.mp observed
  have reach : Transition.Reachable step ClearOfHandshake initial s :=
    .of_checked (fun _ _ apart _ _ => by simpa using apart) run
  exact ⟨s,reach,stopped,stop_kept_clear_of_handshake s reach⟩

end Tcpeen.ServiceLifecycle
