import Mathlib.Data.List.Induction
import Tcpeen.ServiceLifecycle

/-! Service.cs over tcpeen_unity.c: the flags `_initialized` and `_started` in front of one static
service. A native start or stop takes its steps while the IO thread takes others. What Unity
itself calls at load and unload does nothing. -/
namespace Tcpeen.UnityService

open ServiceLifecycle (DetachState IoPc MainPc ServiceState Status)

inductive Native
  | setup | cleanup | start | stop | update
  deriving DecidableEq, Repr

/-- Where `tcp_service_setup` fails: before there is a `priv`, or behind it. -/
inductive SetupFailure
  | priv | lists
  deriving DecidableEq, Repr

/-- `privSet` says that `tcp_service.priv` is not null; `held` that what `tcp_service_setup` has
acquired has not been released; `natives` are the native calls with what they returned. -/
structure State where
  initialized : Bool
  started : Bool
  call : Option Native
  privSet : Bool
  held : Bool
  service : ServiceLifecycle.State
  natives : List (Native × Bool)
  deriving DecidableEq, Repr

inductive Label
  | setup (failure : Option SetupFailure)
  | cleanup
  | start
  | stop
  | update (ok : Bool)
  | main (ok : Bool)
  | io (ok : Bool)
  deriving DecidableEq, Repr

/-- The static service of the plugin, before any call. -/
def initial : State where
  initialized := false
  started := false
  call := none
  privSet := false
  held := false
  service := ServiceLifecycle.initial
  natives := []

namespace State

def log (s : State) (call : Native) (ok : Bool) : State := { s with natives := s.natives ++ [(call,ok)] }

/-- `tcp_service_setup` clears the whole service first. A release leaves `priv` as it is. -/
def setup (s : State) (failure : Option SetupFailure) : State :=
  { s with service := ServiceLifecycle.initial, privSet := failure ≠ some .priv, held := failure.isNone
           initialized := failure.isNone }

/-- A native start or stop has returned. -/
def finish (s : State) (call : Native) : State :=
  let ok : Bool := s.service.result = .success
  { s.log call ok with call := none, started := if ok then call = .start else s.started }

end State

/-- A call of a method, and a step of the native call it has come to or of the IO thread. -/
def step (s : State) : Label → Option State
  | .setup failure =>
    if s.call ≠ none then none
    else if s.initialized then some s
    else some ((s.setup failure).log .setup failure.isNone)
  | .cleanup =>
    if s.call ≠ none then none
    else if !s.initialized || s.started then some s
    else if !s.privSet then some (s.log .cleanup false)
    else some { s.log .cleanup true with initialized := false, held := false }
  | .start =>
    if s.call ≠ none then none
    else if !s.initialized || s.started then some s
    else if !s.privSet then some (s.log .start false)
    else (ServiceLifecycle.step s.service .start).map fun service => { s with service, call := some .start }
  | .stop =>
    if s.call ≠ none then none
    else if !s.initialized || !s.started then some s
    else if !s.privSet then some (s.log .stop false)
    else (ServiceLifecycle.step s.service .stop).map fun service => { s with service, call := some .stop }
  | .update ok =>
    if s.call ≠ none then none
    else if !s.initialized || !s.started then some s
    else some (s.log .update (s.privSet && ok))
  | .main ok =>
    s.call.bind fun call => (ServiceLifecycle.step s.service (.main ok)).map fun service =>
      if service.main = .idle then { s with service }.finish call else { s with service }
  | .io ok => (ServiceLifecycle.step s.service (.io ok)).map fun service => { s with service }

/-- A start has failed since the service was last set up. -/
def failed (natives : List (Native × Bool)) : Bool :=
  natives.foldl (fun b entry => if entry = (.setup,true) then false else b || entry = (.start,false)) false

/-- No IO thread is there that has not been joined. -/
structure Parked (s : ServiceLifecycle.State) : Prop where
  io : s.io = .absent ∨ s.io = .finished
  detach : s.detach ≠ .joinable

/-- The IO thread of a start that returned. -/
structure Launched (s : ServiceLifecycle.State) : Prop where
  io : s.io ≠ .absent
  detach : s.detach = .joinable
  state : s.state = .starting ∨ s.state = .started

/-- Between two calls. -/
def Rests (s : State) : Prop :=
  s.service.main = .idle ∧
    if s.started then Launched s.service ∧ failed s.natives = false
    else Parked s.service ∧ (failed s.natives = true ∧ s.service.state = .starting ∨
      failed s.natives = false ∧ (s.service.state = .new ∨ s.service.state = .stopped))

/-- In the middle of a native start. -/
def Starting (s : State) : Prop :=
  s.started = false ∧ Parked s.service ∧
    (s.service.main = .startLoad ∧ (failed s.natives = true ∧ s.service.state = .starting ∨
        failed s.natives = false ∧ (s.service.state = .new ∨ s.service.state = .stopped)) ∨
      s.service.main = .startStore ∧ failed s.natives = false ∨
      (s.service.main = .startEndpoint ∨ s.service.main = .startString ∨ s.service.main = .startLaunch) ∧
        failed s.natives = false ∧ s.service.state = .starting)

/-- In the middle of a native stop. -/
def Stopping (s : State) : Prop :=
  s.started = true ∧ failed s.natives = false ∧
    ((s.service.main = .stopLoad ∨ s.service.main = .stopStore) ∧ Launched s.service ∨
      s.service.main = .stopJoin ∧ s.service.io ≠ .absent ∧ s.service.detach = .joinable ∨
      s.service.main = .stopFinish ∧ Parked s.service)

/-- No start succeeds behind one that failed, up to the next setup. -/
def Wedged (natives : List (Native × Bool)) : Prop :=
  ∀ before after, natives = before ++ (.start,false) :: after → (.setup,true) ∉ after → (.start,true) ∉ after

/-- The flags say what the native service is. -/
structure Kept (s : State) : Prop where
  held : s.held = s.initialized
  priv : s.initialized = true → s.privSet = true
  unset : s.initialized = false → s.started = false ∧ s.call = none ∧ Parked s.service
  rests : s.call = none → s.initialized = true → Rests s
  calls : ∀ call, s.call = some call → call = .start ∧ Starting s ∨ call = .stop ∧ Stopping s
  never : (.stop,false) ∉ s.natives ∧ (.cleanup,false) ∉ s.natives
  wedged : Wedged s.natives

section Log

variable {natives : List (Native × Bool)}

theorem failed_concat (natives : List (Native × Bool)) (entry : Native × Bool) :
    failed (natives ++ [entry]) =
      if entry = (.setup,true) then false else failed natives || entry = (.start,false) := by
  simp [failed]

theorem failed_of_split {before after : List (Native × Bool)} (unset : (.setup,true) ∉ after) :
    failed (before ++ (.start,false) :: after) = true := by
  induction after using List.reverseRecOn with
  | nil => simp [failed_concat]
  | append_singleton after entry ih =>
    simp only [List.mem_append,List.mem_singleton,not_or] at unset
    rw [← List.cons_append,← List.append_assoc,failed_concat,ih unset.1,if_neg (Ne.symm unset.2)]
    rfl

/-- What is logged keeps a failed start from being followed by one that succeeds. -/
theorem Wedged.concat (wedged : Wedged natives) {entry : Native × Bool}
    (fresh : entry = (.start,true) → failed natives = false) : Wedged (natives ++ [entry]) := by
  intro before after split unset
  induction after using List.reverseRecOn with
  | nil => exact List.not_mem_nil
  | append_singleton after last _ =>
    rw [← List.cons_append,← List.append_assoc] at split
    obtain ⟨rfl,ends⟩ := List.append_inj' split rfl
    obtain rfl := List.cons.inj ends |>.1
    simp only [List.mem_append,List.mem_singleton,not_or] at unset ⊢
    refine ⟨wedged before after rfl unset.1,?_⟩
    rintro rfl
    have none' := fresh rfl
    rw [failed_of_split unset.1] at none'
    cases none'

end Log

section Steps

variable {s s' : State}

theorem Kept.setup (kept : Kept s) (unset : s.initialized = false) (failure : Option SetupFailure) :
    Kept ((s.setup failure).log .setup failure.isNone) := by
  obtain ⟨stopped,idle,-⟩ := kept.unset unset
  have parked : Parked ServiceLifecycle.initial := ⟨.inl rfl,by decide⟩
  cases failure with
  | none =>
    refine ⟨rfl,fun _ => rfl,fun none' => (by cases none'),fun _ _ => ?_,?_,?_,kept.wedged.concat (by simp)⟩
    · refine ⟨rfl,?_⟩
      simp only [State.log,State.setup,stopped,Bool.false_eq_true,if_false]
      exact ⟨parked,.inr ⟨by simp [failed_concat],.inl rfl⟩⟩
    · intro call same
      simp [State.log,State.setup,idle] at same
    · simpa [State.log,State.setup] using kept.never
  | some failure =>
    refine ⟨rfl,fun set => (by cases set),fun _ => ⟨stopped,idle,parked⟩,fun _ set => (by cases set),?_,?_,
      kept.wedged.concat (by simp)⟩
    · intro call same
      simp [State.log,State.setup,idle] at same
    · simpa [State.log,State.setup] using kept.never

theorem Kept.cleanup (kept : Kept s) (idle : s.call = none) (set : s.initialized = true) (stopped : s.started = false) :
    Kept { s.log .cleanup true with initialized := false, held := false } := by
  have parked : Parked s.service := by
    have rests := (kept.rests idle set).2
    simp only [stopped,Bool.false_eq_true,if_false] at rests
    exact rests.1
  refine ⟨rfl,fun set => (by cases set),fun _ => ⟨stopped,idle,parked⟩,fun _ set => (by cases set),?_,?_,
    kept.wedged.concat (by simp)⟩
  · intro call same
    simp [State.log,idle] at same
  · simpa [State.log] using kept.never

theorem Kept.update (kept : Kept s) (idle : s.call = none) (set : s.initialized = true) (ok : Bool) :
    Kept (s.log .update ok) := by
  have rests := kept.rests idle set
  refine ⟨kept.held,kept.priv,kept.unset,fun _ _ => ?_,?_,?_,kept.wedged.concat (by simp)⟩
  · simpa [Rests,State.log,failed_concat] using rests
  · intro call same
    simp [State.log,idle] at same
  · simpa [State.log] using kept.never

/-- A native call begins at its load of the state. -/
theorem Kept.begin (kept : Kept s) (idle : s.call = none) (set : s.initialized = true) {call : Native} {pc : MainPc}
    (kind : call = .start ∧ pc = .startLoad ∧ s.started = false ∨ call = .stop ∧ pc = .stopLoad ∧ s.started = true) :
    Kept { s with service := { s.service with main := pc }, call := some call } := by
  obtain ⟨-,rests⟩ := kept.rests idle set
  refine ⟨kept.held,kept.priv,fun unset => absurd (set.symm.trans unset) (by decide),fun none' => (by cases none'),?_,
    kept.never,kept.wedged⟩
  intro call' same
  obtain rfl := Option.some.inj same
  rcases kind with ⟨rfl,rfl,stopped⟩ | ⟨rfl,rfl,started⟩
  · simp only [stopped,Bool.false_eq_true,if_false] at rests
    exact .inl ⟨rfl,stopped,⟨rests.1.io,rests.1.detach⟩,.inl ⟨rfl,rests.2⟩⟩
  · simp only [started,if_true] at rests
    exact .inr ⟨rfl,started,rests.2,.inl ⟨.inl rfl,⟨rests.1.io,rests.1.detach,rests.1.state⟩⟩⟩

theorem ioStep_effect {t t' : ServiceLifecycle.State} {ok : Bool} (taken : ServiceLifecycle.ioStep t ok = some t') :
    t.io ≠ .absent ∧ t.io ≠ .finished ∧ t'.io ≠ .absent ∧ t'.main = t.main ∧ t'.detach = t.detach ∧
      (t'.state = t.state ∨ t'.state = .started) := by
  unfold ServiceLifecycle.ioStep at taken
  repeat' split at taken
  all_goals cases taken
  all_goals simp_all

/-- The IO thread moves while a started service has it. -/
theorem Kept.io (kept : Kept s) {ok : Bool} {service : ServiceLifecycle.State}
    (taken : ServiceLifecycle.ioStep s.service ok = some service) : Kept { s with service } := by
  obtain ⟨there,going,io,main,detach,state⟩ := ioStep_effect taken
  have parkless : ¬ Parked s.service := by
    rintro ⟨absent | finished,-⟩
    · exact there absent
    · exact going finished
  have launched (launched : Launched s.service) : Launched service := by
    refine ⟨io,detach.trans launched.detach,?_⟩
    rcases state with same | started
    · rw [same]
      exact launched.state
    · exact .inr started
  refine ⟨kept.held,kept.priv,fun unset => absurd (kept.unset unset).2.2 parkless,?_,?_,kept.never,kept.wedged⟩
  · intro idle set
    obtain ⟨quiet,rests⟩ := kept.rests idle set
    refine ⟨main.trans quiet,?_⟩
    by_cases started : s.started = true
    · simp only [started,if_true] at rests ⊢
      exact ⟨launched rests.1,rests.2⟩
    · rw [if_neg started] at rests
      exact absurd rests.1 parkless
  · intro call same
    rcases kept.calls call same with ⟨-,-,parked,-⟩ | ⟨rfl,started,clear,place⟩
    · exact absurd parked parkless
    · refine .inr ⟨rfl,started,clear,?_⟩
      simp only [main]
      rcases place with ⟨at',old⟩ | ⟨at',-,joinable⟩ | ⟨-,parked⟩
      · exact .inl ⟨at',launched old⟩
      · exact .inr (.inl ⟨at',io,detach.trans joinable⟩)
      · exact absurd parked parkless

/-- A start or a stop goes on. -/
theorem Kept.goes (kept : Kept s) {call : Native} (same : s.call = some call) {service : ServiceLifecycle.State}
    (place : call = .start ∧ Starting { s with service } ∨ call = .stop ∧ Stopping { s with service }) :
    Kept { s with service } := by
  refine ⟨kept.held,kept.priv,?_,?_,?_,kept.never,kept.wedged⟩
  · intro unset
    have none' := (kept.unset unset).2.1
    rw [same] at none'
    cases none'
  · intro none'
    rw [show s.call = none from none'] at same
    cases same
  · intro call' same'
    obtain rfl := Option.some.inj (same.symm.trans same')
    exact place

/-- The end of a call. -/
theorem Kept.ends (kept : Kept s) {call : Native} (same : s.call = some call) {service : ServiceLifecycle.State}
    (idle : service.main = .idle)
    (place : call = .start ∧ s.started = false ∧
      (service.result = .success ∧ Launched service ∧ failed s.natives = false ∨
        service.result = .failure ∧ Parked service ∧ service.state = .starting) ∨
      call = .stop ∧ service.result = .success ∧ Parked service ∧ failed s.natives = false ∧ service.state = .stopped) :
    Kept ({ s with service }.finish call) := by
  have set : s.initialized = true := by
    by_contra unset
    have none' := (kept.unset (by simpa using unset)).2.1
    rw [same] at none'
    cases none'
  rcases place with ⟨rfl,stopped,⟨ok,launched,clear⟩ | ⟨ok,parked,state⟩⟩ | ⟨rfl,ok,parked,clear,state⟩
  · refine ⟨kept.held,kept.priv,fun unset => absurd (set.symm.trans unset) (by decide),fun _ _ => ⟨idle,?_⟩,
      fun call none' => (by cases none'),?_,?_⟩
    · simp only [State.finish,State.log,ok,decide_true,if_true]
      exact ⟨launched,by simp [failed_concat,clear]⟩
    · simpa [State.finish,State.log] using kept.never
    · exact kept.wedged.concat fun _ => clear
  · refine ⟨kept.held,kept.priv,fun unset => absurd (set.symm.trans unset) (by decide),fun _ _ => ⟨idle,?_⟩,
      fun call none' => (by cases none'),?_,?_⟩
    · simp only [State.finish,State.log,ok,stopped]
      exact ⟨parked,.inl ⟨by simp [failed_concat],state⟩⟩
    · simpa [State.finish,State.log,ok] using kept.never
    · exact kept.wedged.concat (by simp [ok])
  · refine ⟨kept.held,kept.priv,fun unset => absurd (set.symm.trans unset) (by decide),fun _ _ => ⟨idle,?_⟩,
      fun call none' => (by cases none'),?_,?_⟩
    · simp only [State.finish,State.log,ok,decide_true,if_true]
      exact ⟨parked,.inr ⟨by simp [failed_concat,clear],.inr state⟩⟩
    · simpa [State.finish,State.log,ok] using kept.never
    · exact kept.wedged.concat (by simp)

/-- What a native step of the main thread does in a start. -/
theorem Starting.main {ok : Bool} {service : ServiceLifecycle.State} (starting : Starting s)
    (taken : ServiceLifecycle.mainStep s.service ok = some service) :
    service.main ≠ .idle ∧ Starting { s with service } ∨
      service.main = .idle ∧ (service.result = .success ∧ Launched service ∧ failed s.natives = false ∨
        service.result = .failure ∧ Parked service ∧ service.state = .starting) := by
  obtain ⟨stopped,⟨io,detach⟩,⟨at',state⟩ | ⟨at',clear⟩ | ⟨at' | at' | at',clear,state⟩⟩ := starting
  · simp only [ServiceLifecycle.mainStep,at'] at taken
    split at taken
    · next busy =>
      obtain rfl := Option.some.inj taken
      rcases state with ⟨-,state⟩ | ⟨-,state⟩
      · exact .inr ⟨rfl,.inr ⟨rfl,⟨io,detach⟩,state⟩⟩
      · tauto
    · next free =>
      obtain rfl := Option.some.inj taken
      rcases state with ⟨-,state⟩ | ⟨clear,-⟩
      · simp [state] at free
      · exact .inl ⟨by simp,stopped,⟨io,detach⟩,.inr (.inl ⟨rfl,clear⟩)⟩
  · simp only [ServiceLifecycle.mainStep,at',Option.some.injEq] at taken
    subst taken
    exact .inl ⟨by simp,stopped,⟨io,detach⟩,.inr (.inr ⟨.inl rfl,clear,rfl⟩)⟩
  · simp only [ServiceLifecycle.mainStep,at'] at taken
    split at taken
    · obtain rfl := Option.some.inj taken
      exact .inl ⟨by simp,stopped,⟨io,detach⟩,.inr (.inr ⟨.inr (.inl rfl),clear,state⟩)⟩
    · obtain rfl := Option.some.inj taken
      exact .inr ⟨rfl,.inr ⟨rfl,⟨io,detach⟩,state⟩⟩
  · simp only [ServiceLifecycle.mainStep,at'] at taken
    split at taken
    · obtain rfl := Option.some.inj taken
      exact .inl ⟨by simp,stopped,⟨io,detach⟩,.inr (.inr ⟨.inr (.inr rfl),clear,state⟩)⟩
    · obtain rfl := Option.some.inj taken
      exact .inr ⟨rfl,.inr ⟨rfl,⟨io,detach⟩,state⟩⟩
  · simp only [ServiceLifecycle.mainStep,at'] at taken
    split at taken
    · obtain rfl := Option.some.inj taken
      exact .inr ⟨rfl,.inl ⟨rfl,⟨by simp [ServiceLifecycle.State.leave],rfl,.inl state⟩,clear⟩⟩
    · obtain rfl := Option.some.inj taken
      exact .inr ⟨rfl,.inr ⟨rfl,⟨io,by simp [ServiceLifecycle.State.leave]⟩,state⟩⟩

/-- And in a stop: it is never refused, and it waits for the IO thread. -/
theorem Stopping.main {ok : Bool} {service : ServiceLifecycle.State} (stopping : Stopping s)
    (taken : ServiceLifecycle.mainStep s.service ok = some service) :
    service.main ≠ .idle ∧ Stopping { s with service } ∨
      service.main = .idle ∧ service.result = .success ∧ Parked service ∧ failed s.natives = false ∧
        service.state = .stopped := by
  obtain ⟨started,clear,⟨at' | at',launched⟩ | ⟨at',there,joinable⟩ | ⟨at',parked⟩⟩ := stopping
  · simp only [ServiceLifecycle.mainStep,at'] at taken
    have accepts : ServiceLifecycle.refusesStop s.service.state = false := by
      rcases launched.state with state | state <;> simp [state,ServiceLifecycle.refusesStop]
    rw [if_neg (by simp [accepts]),Option.some.injEq] at taken
    subst taken
    exact .inl ⟨by simp,started,clear,.inl ⟨.inr rfl,⟨launched.io,launched.detach,launched.state⟩⟩⟩
  · simp only [ServiceLifecycle.mainStep,at',Option.some.injEq] at taken
    subst taken
    exact .inl ⟨by simp,started,clear,.inr (.inl ⟨rfl,launched.io,launched.detach⟩)⟩
  · simp only [ServiceLifecycle.mainStep,at',joinable,if_true] at taken
    split at taken
    · next finished =>
      obtain rfl := Option.some.inj taken
      exact .inl ⟨by simp,started,clear,.inr (.inr ⟨rfl,.inr finished,by simp⟩)⟩
    · cases taken
  · simp only [ServiceLifecycle.mainStep,at',Option.some.injEq] at taken
    subst taken
    exact .inr ⟨rfl,rfl,⟨parked.io,parked.detach⟩,clear,rfl⟩

theorem Kept.main (kept : Kept s) {ok : Bool} {call : Native} (same : s.call = some call)
    {service : ServiceLifecycle.State} (taken : ServiceLifecycle.mainStep s.service ok = some service) :
    Kept (if service.main = .idle then { s with service }.finish call else { s with service }) := by
  rcases kept.calls call same with ⟨rfl,starting⟩ | ⟨rfl,stopping⟩
  · rcases starting.main taken with ⟨busy,goes⟩ | ⟨idle,returned⟩
    · rw [if_neg busy]
      exact kept.goes same (.inl ⟨rfl,goes⟩)
    · rw [if_pos idle]
      exact kept.ends same idle (.inl ⟨rfl,starting.1,returned⟩)
  · rcases stopping.main taken with ⟨busy,goes⟩ | ⟨idle,returned⟩
    · rw [if_neg busy]
      exact kept.goes same (.inr ⟨rfl,goes⟩)
    · rw [if_pos idle]
      exact kept.ends same idle (.inr ⟨rfl,returned⟩)

theorem Kept.step {label : Label} (kept : Kept s) (taken : step s label = some s') : Kept s' := by
  cases label with
  | setup failure =>
    simp only [UnityService.step,Option.ite_none_left_eq_some,not_not] at taken
    obtain ⟨idle,taken⟩ := taken
    split at taken
    · obtain rfl := Option.some.inj taken
      exact kept
    · next unset =>
      obtain rfl := Option.some.inj taken
      exact kept.setup (by simpa using unset) failure
  | cleanup =>
    simp only [UnityService.step,Option.ite_none_left_eq_some,not_not] at taken
    obtain ⟨idle,taken⟩ := taken
    split at taken
    · obtain rfl := Option.some.inj taken
      exact kept
    · next open' =>
      simp only [Bool.or_eq_true,Bool.not_eq_true',not_or,Bool.not_eq_false,Bool.not_eq_true] at open'
      rw [if_neg (by simp [kept.priv open'.1]),Option.some.injEq] at taken
      subst taken
      exact kept.cleanup idle open'.1 open'.2
  | start =>
    simp only [UnityService.step,Option.ite_none_left_eq_some,not_not] at taken
    obtain ⟨idle,taken⟩ := taken
    split at taken
    · obtain rfl := Option.some.inj taken
      exact kept
    · next open' =>
      simp only [Bool.or_eq_true,Bool.not_eq_true',not_or,Bool.not_eq_false,Bool.not_eq_true] at open'
      rw [if_neg (by simp [kept.priv open'.1])] at taken
      obtain ⟨service,called,rfl⟩ := Option.map_eq_some_iff.mp taken
      obtain ⟨-,rfl⟩ := (Option.ite_none_right_eq_some.mp called).imp_right Option.some.inj
      exact kept.begin idle open'.1 (.inl ⟨rfl,rfl,open'.2⟩)
  | stop =>
    simp only [UnityService.step,Option.ite_none_left_eq_some,not_not] at taken
    obtain ⟨idle,taken⟩ := taken
    split at taken
    · obtain rfl := Option.some.inj taken
      exact kept
    · next open' =>
      simp only [Bool.or_eq_true,Bool.not_eq_true',not_or,Bool.not_eq_false] at open'
      rw [if_neg (by simp [kept.priv open'.1])] at taken
      obtain ⟨service,called,rfl⟩ := Option.map_eq_some_iff.mp taken
      obtain ⟨-,rfl⟩ := (Option.ite_none_right_eq_some.mp called).imp_right Option.some.inj
      exact kept.begin idle open'.1 (.inr ⟨rfl,rfl,open'.2⟩)
  | update ok =>
    simp only [UnityService.step,Option.ite_none_left_eq_some,not_not] at taken
    obtain ⟨idle,taken⟩ := taken
    split at taken
    · obtain rfl := Option.some.inj taken
      exact kept
    · next open' =>
      simp only [Bool.or_eq_true,Bool.not_eq_true',not_or,Bool.not_eq_false] at open'
      obtain rfl := Option.some.inj taken
      exact kept.update idle open'.1 _
  | main ok =>
    obtain ⟨call,same,taken⟩ := Option.bind_eq_some_iff.mp taken
    obtain ⟨service,ran,rfl⟩ := Option.map_eq_some_iff.mp taken
    exact kept.main same ran
  | io ok =>
    obtain ⟨service,ran,rfl⟩ := Option.map_eq_some_iff.mp taken
    exact kept.io ran

theorem initial_kept : Kept initial := by
  refine ⟨rfl,fun _ => by contradiction,fun _ => ⟨rfl,rfl,.inl rfl,by decide⟩,fun _ _ => by contradiction,?_,
    ⟨List.not_mem_nil,List.not_mem_nil⟩,?_⟩
  · intro call same
    cases same
  · intro before after split
    simp [initial] at split

end Steps

/-- Whatever methods are called in whatever order and however they interleave with the IO thread:
behind the flag the native service is set up and not released; the IO thread lives only within a
start that has not been stopped, so that a cleanup never releases what it uses; no native stop or
cleanup is refused; and a start that fails is followed by no start that succeeds before the
service has been cleaned up and set up again. -/
theorem wrapper_safe (s : State) (reach : Transition.Reachable step (fun _ _ => True) initial s) :
    (s.initialized = true → s.held = true ∧ s.privSet = true) ∧
      (s.service.io ≠ .absent → s.service.io ≠ .finished → s.held = true ∧ s.started = true) ∧
      (.stop,false) ∉ s.natives ∧ (.cleanup,false) ∉ s.natives ∧ Wedged s.natives := by
  have kept : Kept s := reach.invariant Kept initial_kept fun _ _ _ kept _ taken => kept.step taken
  refine ⟨fun set => ⟨kept.held.trans set,kept.priv set⟩,?_,kept.never.1,kept.never.2,kept.wedged⟩
  intro there going
  have parkless : ¬ Parked s.service := by
    rintro ⟨absent | finished,-⟩
    · exact there absent
    · exact going finished
  have set : s.initialized = true := by
    by_contra unset
    exact parkless (kept.unset (by simpa using unset)).2.2
  refine ⟨kept.held.trans set,?_⟩
  cases call : s.call with
  | none =>
    by_contra stopped
    have rests := (kept.rests call set).2
    rw [if_neg stopped] at rests
    exact parkless rests.1
  | some native =>
    rcases kept.calls native call with ⟨-,-,parked,-⟩ | ⟨-,started,-⟩
    · exact absurd parked parkless
    · exact started

/-- A start that fails at its endpoint, another one, and a round of setup, start and stop. -/
def wedgedRun : List Label :=
  [.setup none,.start,.main true,.main true,.main false,.start,.main true,.cleanup,.setup none,.start] ++
    List.replicate 5 (.main true) ++ [.io false,.cleanup,.stop] ++ List.replicate 4 (.main true) ++ [.cleanup]

theorem wrapper_safe_wedged :
    ∃ s, Transition.Reachable step (fun _ _ => True) initial s ∧
      s.natives = [(.setup,true),(.start,false),(.start,false),(.cleanup,true),(.setup,true),(.start,true),(.stop,true),
        (.cleanup,true)] ∧ Wedged s.natives := by
  have observed : (Transition.execute step wedgedRun initial).map State.natives =
      some [(.setup,true),(.start,false),(.start,false),(.cleanup,true),(.setup,true),(.start,true),(.stop,true),
        (.cleanup,true)] := by decide
  obtain ⟨s,run,logged⟩ := Option.map_eq_some_iff.mp observed
  have reach : Transition.Reachable step (fun _ _ => True) initial s := .of_execute (fun _ _ _ => trivial) run
  exact ⟨s,reach,logged,(wrapper_safe s reach).2.2.2.2⟩

end Tcpeen.UnityService
