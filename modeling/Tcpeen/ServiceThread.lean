import Tcpeen.ServiceLifecycle

/-! Whether an IO thread stands behind the service's state: after the calls that start the
service, while it counts as started, and when `tcp_service_stop` has returned. -/
namespace Tcpeen.ServiceLifecycle

/-- The IO thread has been launched and has not left `tcp_service_io_thread`. -/
@[simp] theorem State.leave_main (s : State) (result : Status) : (s.leave result).main = .idle := rfl
@[simp] theorem State.leave_io (s : State) (result : Status) : (s.leave result).io = s.io := rfl
@[simp] theorem State.leave_state (s : State) (result : Status) : (s.leave result).state = s.state := rfl

def State.alive (s : State) : Bool := s.io != .absent && s.io != .finished

/-- Program counters of `tcp_service_start` after its store of `STARTING`. -/
def launching (pc : MainPc) : Bool := pc = .startEndpoint || pc = .startString || pc = .startLaunch

/-- Program counters of `tcp_service_start`. -/
def inStart (pc : MainPc) : Bool := pc = .startLoad || pc = .startStore || launching pc

/-- Program counters of `tcp_service_stop`. -/
def inStop (pc : MainPc) : Bool :=
  pc = .stopLoad || pc = .stopStore || pc = .stopJoin || pc = .stopFinish

/-- The two stop functions up to their store of `STOPPING`. -/
def beforeStopping (pc : MainPc) : Bool :=
  pc = .stopLoad || pc = .stopStore || pc = .signalLoad || pc = .signalStore

/-- The IO thread is past `uv_run`, or has decided to leave it. -/
def IoPc.closing (io : IoPc) : Bool := io = .draining || io = .loopClose || io = .loopCloseAgain

/-- What one step of the main thread can do. A failed launch also resets the thread record. -/
inductive MainMove (s : State) (ok : Bool) : State → Prop
  | refused : s.main = .startLoad → ¬ (s.state = .new ∨ s.state = .stopped) →
      MainMove s ok (s.leave .failure)
  | accepted : s.main = .startLoad → s.state = .new ∨ s.state = .stopped →
      MainMove s ok { s with main := .startStore }
  | starting : s.main = .startStore →
      MainMove s ok { s with state := .starting, main := .startEndpoint, stopRequested := false }
  | prepared (next : MainPc) : launching s.main = true → launching next = true → ok = true →
      MainMove s ok { s with main := next }
  | abandoned (detach : DetachState) : launching s.main = true → ok = false →
      MainMove s ok ({ s with detach }.leave .failure)
  | launched : s.main = .startLaunch → ok = true →
      MainMove s ok ({ s with io := .init initCalls, detach := .joinable }.leave .success)
  | stopRefused : s.main = .stopLoad ∨ s.main = .signalLoad → refusesStop s.state = true →
      MainMove s ok (s.leave .failure)
  | stopAccepted (next : MainPc) : s.main = .stopLoad ∧ next = .stopStore ∨
      s.main = .signalLoad ∧ next = .signalStore → refusesStop s.state = false →
      MainMove s ok { s with main := next }
  | stopping : s.main = .stopStore →
      MainMove s ok { s with state := .stopping, main := .stopJoin, stopRequested := true }
  | joined (detach : DetachState) : s.main = .stopJoin → s.detach ≠ .joinable ∨ s.io = .finished →
      MainMove s ok { s with detach, main := .stopFinish }
  | stopped : s.main = .stopFinish → MainMove s ok ({ s with state := .stopped }.leave .success)
  | signalled : s.main = .signalStore →
      MainMove s ok ({ s with state := .stopping, stopRequested := true }.leave .success)

theorem mainStep_move {s t : State} {ok : Bool} (taken : mainStep s ok = some t) :
    MainMove s ok t := by
  unfold mainStep at taken
  split at taken
  case h_1 => contradiction
  case h_2 pc =>
    split at taken <;> cases taken
    · exact .refused pc (by simp_all)
    · exact .accepted pc (by grind)
  case h_3 pc => cases taken; exact .starting pc
  case h_4 pc =>
    split at taken <;> cases taken
    · exact .prepared _ (by simp [pc,launching]) rfl ‹_›
    · exact .abandoned s.detach (by simp [pc,launching]) (by simp_all)
  case h_5 pc =>
    split at taken <;> cases taken
    · exact .prepared _ (by simp [pc,launching]) rfl ‹_›
    · exact .abandoned s.detach (by simp [pc,launching]) (by simp_all)
  case h_6 pc =>
    split at taken <;> cases taken
    · exact .launched pc ‹_›
    · exact .abandoned .notCreated (by simp [pc,launching]) (by simp_all)
  case h_7 pc =>
    split at taken <;> cases taken
    · exact .stopRefused (.inl pc) ‹_›
    · exact .stopAccepted _ (.inl ⟨pc,rfl⟩) (by simp_all)
  case h_8 pc => cases taken; exact .stopping pc
  case h_9 pc =>
    split at taken
    · split at taken <;> cases taken
      exact .joined _ pc (.inr ‹_›)
    · cases taken
      exact .joined s.detach pc (.inl ‹_›)
  case h_10 pc => cases taken; exact .stopped pc
  case h_11 pc =>
    split at taken <;> cases taken
    · exact .stopRefused (.inr pc) ‹_›
    · exact .stopAccepted _ (.inr ⟨pc,rfl⟩) (by simp_all)
  case h_12 pc => cases taken; exact .signalled pc

/-- What one step of the IO thread can do. -/
inductive IoMove (s : State) (ok : Bool) : State → Prop
  | prepared (calls : List InitCall) (next : IoPc) : s.io = .init calls →
      next = .loadState ∨ (∃ rest, next = .init rest) → IoMove s ok { s with io := next }
  | aborted (call : InitCall) (calls : List InitCall) : s.io = .init (call :: calls) → ok = false →
      IoMove s ok { s with io := .finished }
  | sawStarting : s.io = .loadState → s.state = .starting →
      IoMove s ok { s with io := .storeStarted }
  | sawStop : s.io = .loadState → s.state ≠ .starting → IoMove s ok { s with io := .loopClose }
  | started : s.io = .storeStarted → IoMove s ok { s with state := .started, io := .running }
  | serving : s.io = .running → s.state = .started → IoMove s ok s
  | draining : s.io = .running → s.state ≠ .started → IoMove s ok { s with io := .draining }
  | closing (next : IoPc) : s.io.closing = true → next.closing = true ∨ next = .finished →
      IoMove s ok { s with io := next }

theorem ioStep_move {s t : State} {ok : Bool} (taken : ioStep s ok = some t) : IoMove s ok t := by
  unfold ioStep at taken
  split at taken
  case h_1 => contradiction
  case h_2 pc => cases taken; exact .prepared _ _ pc (.inl rfl)
  case h_3 call calls pc =>
    split at taken <;> cases taken
    · exact .prepared _ _ pc (.inr ⟨calls,rfl⟩)
    · exact .aborted call calls pc (by simp_all)
  case h_4 pc =>
    split at taken <;> cases taken
    · exact .sawStarting pc ‹_›
    · exact .sawStop pc ‹_›
  case h_5 pc => cases taken; exact .started pc
  case h_6 pc =>
    split at taken <;> cases taken
    · exact .draining pc ‹_›
    · exact .serving pc (by simp_all)
  case h_7 pc => cases taken; exact .closing _ (by simp [pc,IoPc.closing]) (.inl rfl)
  case h_8 pc =>
    split at taken <;> cases taken
    · exact .closing _ (by simp [pc,IoPc.closing]) (.inr rfl)
    · exact .closing _ (by simp [pc,IoPc.closing]) (.inl rfl)
  case h_9 pc => cases taken; exact .closing _ (by simp [pc,IoPc.closing]) (.inr rfl)
  case h_10 => contradiction

/-- The three calls of the main thread enter at their load of the state. -/
theorem step_cases {s t : State} {label : Label} (taken : step s label = some t) :
    (∃ pc, (pc = .startLoad ∨ pc = .stopLoad ∨ pc = .signalLoad) ∧ s.main = .idle ∧
      t = { s with main := pc }) ∨
    (∃ ok, label = .main ok ∧ MainMove s ok t) ∨ ∃ ok, label = .io ok ∧ IoMove s ok t := by
  cases label with
  | main ok => exact .inr (.inl ⟨ok,rfl,mainStep_move taken⟩)
  | io ok => exact .inr (.inr ⟨ok,rfl,ioStep_move taken⟩)
  | start =>
    obtain ⟨idle,same⟩ := Option.ite_none_right_eq_some.mp taken
    exact .inl ⟨_,.inl rfl,idle,(Option.some.inj same).symm⟩
  | stop =>
    obtain ⟨idle,same⟩ := Option.ite_none_right_eq_some.mp taken
    exact .inl ⟨_,.inr (.inl rfl),idle,(Option.some.inj same).symm⟩
  | stopSignal =>
    obtain ⟨idle,same⟩ := Option.ite_none_right_eq_some.mp taken
    exact .inl ⟨_,.inr (.inr rfl),idle,(Option.some.inj same).symm⟩

/-- A thread that may still run can be joined, and there is none before the first start,
after a completed stop, or while a start is still preparing its launch. -/
structure Joined (s : State) : Prop where
  joinable : s.alive = true → s.detach = .joinable
  down : s.state = .new ∨ s.state = .stopped → s.alive = false
  fresh : s.main = .startStore → s.alive = false
  launch : launching s.main = true → s.alive = false ∧ s.state = .starting
  finish : s.main = .stopFinish → s.alive = false

private theorem Joined.outside {t : State} (joinable : t.alive = true → t.detach = .joinable)
    (down : t.state = .new ∨ t.state = .stopped → t.alive = false) (start : t.main ≠ .startStore)
    (launch : launching t.main = false) (finish : t.main ≠ .stopFinish) : Joined t where
  joinable := joinable
  down := down
  fresh := fun at' => absurd at' start
  launch := fun at' => absurd at' (by simp [launch])
  finish := fun at' => absurd at' finish

private theorem Joined.main {s t : State} {ok : Bool} (joined : Joined s)
    (move : MainMove s ok t) : Joined t := by
  obtain ⟨joinable,down,fresh,launch,finish⟩ := joined
  cases move with
  | refused | stopRefused => exact .outside joinable down (by simp) rfl (by simp)
  | accepted pc ready => exact ⟨joinable,down,fun _ => down ready,by simp [launching],by simp⟩
  | starting pc => exact ⟨joinable,by simp,by simp,fun _ => ⟨fresh pc,rfl⟩,by simp⟩
  | prepared next pc later =>
    refine ⟨joinable,down,?_,fun _ => launch pc,?_⟩
    · rintro rfl
      contradiction
    · rintro rfl
      contradiction
  | abandoned detach pc =>
    refine .outside (fun running => ?_) down (by simp) rfl (by simp)
    exact absurd (launch pc).1 (by simpa [State.alive,State.leave] using running)
  | launched pc =>
    have starting := (launch (by simp [pc,launching])).2
    exact .outside (fun _ => rfl) (by simp [State.leave,starting]) (by simp) rfl (by simp)
  | stopAccepted next pc =>
    rcases pc with ⟨-,rfl⟩ | ⟨-,rfl⟩
    all_goals exact .outside joinable down (by simp) rfl (by simp)
  | stopping pc => exact .outside joinable (by simp) (by simp) rfl (by simp)
  | joined detach pc ended =>
    have gone : s.alive = false := by
      rcases ended with other | finished
      · exact Bool.eq_false_iff.mpr fun running => other (joinable running)
      · simp [State.alive,finished]
    refine ⟨fun running => ?_,down,by simp,by simp [launching],fun _ => gone⟩
    exact absurd gone (by simpa [State.alive] using running)
  | stopped pc => exact .outside joinable (fun _ => finish pc) (by simp) rfl (by simp)
  | signalled pc => exact .outside joinable (by simp [State.leave]) (by simp) rfl (by simp)

theorem IoPc.closing_cases {io : IoPc} (closing : io.closing = true) :
    io = .draining ∨ io = .loopClose ∨ io = .loopCloseAgain := by
  simpa [IoPc.closing,or_assoc] using closing

theorem IoMove.alive {s t : State} {ok : Bool} (move : IoMove s ok t) : s.alive = true := by
  cases move with
  | closing next pc => rcases IoPc.closing_cases pc with pc | pc | pc <;> simp [State.alive,pc]
  | prepared calls next pc => simp [State.alive,pc]
  | aborted call calls pc => simp [State.alive,pc]
  | sawStarting pc | sawStop pc | started pc | serving pc | draining pc => simp [State.alive,pc]

theorem IoMove.kept {s t : State} {ok : Bool} (move : IoMove s ok t) :
    t.main = s.main ∧ t.detach = s.detach ∧ (t.state = s.state ∨ t.state = .started) := by
  cases move with
  | started => exact ⟨rfl,rfl,.inr rfl⟩
  | _ => exact ⟨rfl,rfl,.inl rfl⟩

/-- The IO thread moves only while it is alive, and then none of the conditions that exclude
a thread is in force. -/
private theorem Joined.io {s t : State} {ok : Bool} (joined : Joined s)
    (move : IoMove s ok t) : Joined t := by
  obtain ⟨joinable,down,fresh,launch,finish⟩ := joined
  have running := move.alive
  obtain ⟨main,detach,state⟩ := move.kept
  refine .outside (fun _ => detach.trans (joinable running)) ?_ ?_ ?_ ?_
  · intro ended
    rcases state with same | started
    · exact absurd (down (same ▸ ended)) (by simp [running])
    · simp [started] at ended
  · exact fun at' => absurd (fresh (main ▸ at')) (by simp [running])
  · exact Bool.eq_false_iff.mpr fun at' => absurd (launch (main ▸ at')).1 (by simp [running])
  · exact fun at' => absurd (finish (main ▸ at')) (by simp [running])

theorem Joined.step {s t : State} {label : Label} (joined : Joined s)
    (taken : step s label = some t) : Joined t := by
  rcases step_cases taken with ⟨pc,entry,idle,rfl⟩ | ⟨ok,-,move⟩ | ⟨ok,-,move⟩
  · rcases entry with rfl | rfl | rfl
    all_goals exact .outside joined.joinable joined.down (by simp) rfl (by simp)
  · exact joined.main move
  · exact joined.io move

theorem reachable_joined {guard : State → Label → Prop} {s : State}
    (reach : Transition.Reachable step guard initial s) : Joined s :=
  reach.invariant Joined (.outside (by decide) (by decide) (by decide) rfl (by decide))
    fun _ _ _ joined _ taken => joined.step taken

/-- The service takes up work only with a thread behind it. -/
def Attended (s : State) : Prop :=
  s.main = .idle → s.state = .starting ∨ s.state = .started → s.alive = true

/-- The calls of `tcp_service_start` after its store of `STARTING` succeed, and so do those of
the IO thread before the listener is up, unless a stop is already on its way. -/
def Prepared (s : State) : Label → Prop
  | .main ok => launching s.main = true → ok = true
  | .io ok => (∃ call calls, s.io = .init (call :: calls)) → s.state = .starting →
      beforeStopping s.main = false → ok = true
  | _ => True

/-- Only a thread inside `uv_run` makes the service `STARTED`, a thread that leaves has seen
another state, and `STARTING` without a thread is on its way to a launch or to a stop. -/
structure Backed (s : State) : Prop where
  serving : s.state = .started → s.io = .running
  handed : s.io = .running → s.state ≠ .starting
  closing : s.io.closing = true → s.state ≠ .starting ∧ s.state ≠ .started
  starting : s.state = .starting → s.alive = true ∨ launching s.main = true ∨ beforeStopping s.main = true

private theorem Backed.quiet {s t : State} (backed : Backed s) (io : t.io = s.io)
    (state : t.state = s.state) (main : launching s.main = true ∨ beforeStopping s.main = true →
      launching t.main = true ∨ beforeStopping t.main = true) : Backed t := by
  have running : t.alive = s.alive := by simp [State.alive,io]
  refine ⟨?_,?_,?_,?_⟩
  · simpa [io,state] using backed.serving
  · simpa [io,state] using backed.handed
  · simpa [io,state] using backed.closing
  · intro starting
    rw [running]
    exact (backed.starting (state ▸ starting)).imp_right main

private theorem Backed.retired {t : State} (starting : t.state ≠ .starting)
    (started : t.state ≠ .started) : Backed t where
  serving := fun at' => absurd at' started
  handed := fun _ => starting
  closing := fun _ => ⟨starting,started⟩
  starting := fun at' => absurd at' starting

private theorem Backed.main {s t : State} {ok : Bool} (joined : Joined s) (backed : Backed s)
    (prepared : launching s.main = true → ok = true) (move : MainMove s ok t) : Backed t := by
  cases move with
  | refused pc => exact backed.quiet rfl rfl (by simp [pc,launching,beforeStopping])
  | accepted pc => exact backed.quiet rfl rfl (by simp [pc,launching,beforeStopping])
  | starting pc =>
    have gone : s.alive = false := joined.fresh pc
    refine ⟨by simp,fun running => ?_,fun closing => ?_,fun _ => .inr (.inl rfl)⟩
    · have io : s.io = .running := running
      simp [State.alive,io] at gone
    · have io : s.io = .draining ∨ s.io = .loopClose ∨ s.io = .loopCloseAgain :=
        IoPc.closing_cases closing
      rcases io with io | io | io <;> simp [State.alive,io] at gone
  | prepared next pc later => exact backed.quiet rfl rfl (fun _ => .inl later)
  | abandoned detach pc failed => exact absurd (prepared pc) (by simp [failed])
  | launched pc =>
    have starting := (joined.launch (by simp [pc,launching])).2
    exact ⟨by simp [starting],by simp,by simp [IoPc.closing],fun _ => .inl rfl⟩
  | stopRefused pc refuses =>
    have retired : s.state = .stopping ∨ s.state = .stopped := by simpa [refusesStop] using refuses
    exact .retired (by rcases retired with state | state <;> simp [State.leave,state])
      (by rcases retired with state | state <;> simp [State.leave,state])
  | stopAccepted next pc =>
    rcases pc with ⟨-,rfl⟩ | ⟨-,rfl⟩
    all_goals exact backed.quiet rfl rfl (fun _ => .inr rfl)
  | stopping | stopped | signalled => exact .retired (by simp) (by simp)
  | joined detach pc => exact backed.quiet rfl rfl (by simp [pc,launching,beforeStopping])

private theorem Backed.io {s t : State} {ok : Bool} (backed : Backed s)
    (prepared : Prepared s (.io ok)) (move : IoMove s ok t) : Backed t := by
  have early (other : s.io ≠ .running) : s.state ≠ .started :=
    fun started => other (backed.serving started)
  cases move with
  | prepared calls next pc into =>
    have started := early (by simp [pc])
    rcases into with rfl | ⟨rest,rfl⟩
    all_goals exact ⟨fun at' => absurd at' started,by simp,by simp [IoPc.closing],fun _ => .inl rfl⟩
  | aborted call calls pc failed =>
    have started := early (by simp [pc])
    refine ⟨fun at' => absurd at' started,by simp,by simp [IoPc.closing],fun starting => .inr (.inr ?_)⟩
    by_contra other
    exact absurd (prepared ⟨call,calls,pc⟩ starting (by simpa using other)) (by simp [failed])
  | sawStarting pc =>
    have started := early (by simp [pc])
    exact ⟨fun at' => absurd at' started,by simp,by simp [IoPc.closing],fun _ => .inl rfl⟩
  | sawStop pc state => exact .retired state (early (by simp [pc]))
  | started => exact ⟨fun _ => rfl,by simp,by simp [IoPc.closing],by simp⟩
  | serving => exact backed
  | draining pc state => exact .retired (backed.handed pc) state
  | closing next pc =>
    obtain ⟨starting,started⟩ := backed.closing pc
    exact .retired starting started

theorem reachable_backed {s : State} (reach : Transition.Reachable step Prepared initial s) :
    Backed s := by
  refine reach.invariant_with Joined Backed (fun _ => reachable_joined) ?_ ?_
  · exact .retired (by decide) (by decide)
  · intro s label t joined backed prepared taken
    rcases step_cases taken with ⟨pc,-,idle,rfl⟩ | ⟨ok,rfl,move⟩ | ⟨ok,rfl,move⟩
    · exact backed.quiet rfl rfl (by simp [idle,launching,beforeStopping])
    · exact backed.main joined prepared move
    · exact backed.io prepared move

/-- As long as the preparations succeed, a service that counts as starting or started has its
thread, and a start that fails has only looked at the state. -/
theorem thread_behind_service (s : State) (reach : Transition.Reachable step Prepared initial s) :
    Attended s ∧ ∀ label t, Prepared s label → step s label = some t → inStart s.main = true →
      t.main = .idle → t.result = .failure → s.main = .startLoad ∧ t.state = s.state := by
  have backed := reachable_backed reach
  constructor
  · intro idle state
    rcases state with starting | started
    · rcases backed.starting starting with running | other
      · exact running
      · simp [idle,launching,beforeStopping] at other
    · simp [State.alive,backed.serving started]
  · intro label t prepared taken calling returned failed
    rcases step_cases taken with ⟨pc,-,idle,rfl⟩ | ⟨ok,rfl,move⟩ | ⟨ok,rfl,move⟩
    · simp [idle,inStart,launching] at calling
    · cases move with
      | refused pc => exact ⟨pc,rfl⟩
      | abandoned detach pc bad => exact absurd (prepared pc) (by simp [bad])
      | launched => contradiction
      | stopRefused pc => rcases pc with pc | pc <;> simp [pc,inStart,launching] at calling
      | prepared next _ later =>
        have main : next = .idle := returned
        simp [main,launching] at later
      | stopAccepted next pc =>
        rcases pc with ⟨pc,-⟩ | ⟨pc,-⟩ <;> simp [pc,inStart,launching] at calling
      | _ => contradiction
    · simp [← move.kept.1,returned,inStart,launching] at calling

/-- Start with an address that `tn_endpoint_set` rejects. -/
def failedStart : List Label := [.start,.main true,.main true,.main false]

/-- The failed start leaves `STARTING` behind with no thread. -/
theorem start_failed_unattended :
    ¬ ∀ s, Transition.Reachable step (fun _ _ => True) initial s → Attended s := by
  intro always
  have observed : (Transition.execute step failedStart initial).map
      (fun s => (s.main, s.state, s.alive)) = some (.idle, .starting, false) := by decide
  obtain ⟨s,run,seen⟩ := Option.map_eq_some_iff.mp observed
  simp only [Prod.mk.injEq] at seen
  obtain ⟨idle,starting,gone⟩ := seen
  have running := always s (.of_execute (fun _ _ _ => trivial) run) idle (.inl starting)
  simp [gone] at running

/-- A start whose thread brings the listener up. -/
def fullStart : List Label :=
  [.start,.main true,.main true,.main true,.main true,.main true] ++ List.replicate 20 (.io true)

theorem thread_behind_service_started :
    ∃ s, Transition.Reachable step Prepared initial s ∧ s.state = .started ∧ Attended s := by
  have observed : (Transition.execute step fullStart initial).map State.state = some .started := by
    decide
  obtain ⟨s,run,started⟩ := Option.map_eq_some_iff.mp observed
  have prepared : ∀ s, ∀ label ∈ fullStart, Prepared s label := by
    intro s label member
    have kind : ∀ label ∈ fullStart, label = .start ∨ label = .main true ∨ label = .io true := by
      decide
    rcases kind label member with rfl | rfl | rfl <;> simp [Prepared]
  have reach : Transition.Reachable step Prepared initial s := .of_execute prepared run
  exact ⟨s,reach,started,(thread_behind_service s reach).1⟩

/-- A call of `tcp_service_stop` that returns has joined the thread unless it found the state
`STOPPING`, which is what an earlier `tcp_service_stop_signal` leaves. -/
theorem stop_returns_joined (s t : State) (label : Label)
    (reach : Transition.Reachable step (fun _ _ => True) initial s) (taken : step s label = some t)
    (calling : inStop s.main = true) (returned : t.main = .idle) :
    (t.state = .stopped ∧ t.alive = false) ↔ ¬ (s.main = .stopLoad ∧ s.state = .stopping) := by
  have joined := reachable_joined reach
  rcases step_cases taken with ⟨pc,-,idle,rfl⟩ | ⟨ok,rfl,move⟩ | ⟨ok,rfl,move⟩
  · simp [idle,inStop] at calling
  · cases move with
    | stopRefused pc refuses =>
      have retired : s.state = .stopping ∨ s.state = .stopped := by
        simpa [refusesStop] using refuses
      rcases retired with stopping | stopped
      · have load : s.main = .stopLoad := by
          rcases pc with pc | pc
          · exact pc
          · simp [pc,inStop] at calling
        simp [State.leave,stopping,load]
      · have gone := joined.down (.inr stopped)
        simpa [State.leave,stopped,State.alive] using gone
    | stopped pc =>
      have gone := joined.finish pc
      simpa [State.leave,State.alive,pc] using gone
    | refused pc => simp [pc,inStop] at calling
    | abandoned detach pc => 
      have pcs : s.main = .startEndpoint ∨ s.main = .startString ∨ s.main = .startLaunch := by
        simpa [launching,or_assoc] using pc
      rcases pcs with pc | pc | pc <;> simp [pc,inStop] at calling
    | launched pc => simp [pc,inStop] at calling
    | signalled pc => simp [pc,inStop] at calling
    | prepared next _ later =>
      have main : next = .idle := returned
      simp [main,launching] at later
    | stopAccepted next pc =>
      have main : next = .idle := returned
      simp [main] at pc
    | _ => contradiction
  · simp [← move.kept.1,returned,inStop] at calling

/-- The demo server's shutdown: a stop signal ends its main loop, which then calls
`tcp_service_stop`. -/
def signalThenStop : List Label :=
  fullStart ++ [.stopSignal,.main true,.main true,.stop]

/-- `tcp_service_stop` refuses and returns while the thread is still inside `uv_run`. -/
theorem stop_refused_running :
    ¬ ∀ s t label, Transition.Reachable step (fun _ _ => True) initial s → step s label = some t →
      inStop s.main = true → t.main = .idle → t.state = .stopped ∧ t.alive = false := by
  intro always
  have observed : (Transition.execute step signalThenStop initial).bind (fun s =>
      (step s (.main true)).map fun t => (inStop s.main, t.main, t.state, t.alive)) =
      some (true, .idle, .stopping, true) := by decide
  obtain ⟨s,run,rest⟩ := Option.bind_eq_some_iff.mp observed
  obtain ⟨t,taken,seen⟩ := Option.map_eq_some_iff.mp rest
  simp only [Prod.mk.injEq] at seen
  obtain ⟨calling,returned,-,running⟩ := seen
  have promised := always s t (.main true) (.of_execute (fun _ _ _ => trivial) run) taken calling returned
  simp [running] at promised

theorem stop_returns_joined_early :
    ∃ s t, Transition.Reachable step (fun _ _ => True) initial s ∧ step s (.main true) = some t ∧
      t.state = .stopped ∧ t.alive = false := by
  have observed : (Transition.execute step (earlyStop.dropLast) initial).bind (fun s =>
      (step s (.main true)).map fun t => (s.main, t.main)) = some (.stopFinish, .idle) := by decide
  obtain ⟨s,run,rest⟩ := Option.bind_eq_some_iff.mp observed
  obtain ⟨t,taken,seen⟩ := Option.map_eq_some_iff.mp rest
  obtain ⟨finish,returned⟩ := Prod.mk.inj seen
  have reach : Transition.Reachable step (fun _ _ => True) initial s :=
    .of_execute (fun _ _ _ => trivial) run
  have joined := stop_returns_joined s t (.main true) reach taken (by simp [finish,inStop]) returned
  exact ⟨s,t,reach,taken,joined.mpr (by simp [finish])⟩

end Tcpeen.ServiceLifecycle
