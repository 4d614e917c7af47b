import Mathlib.Logic.Function.Basic
import Tcpeen.Library.Transition

/-! Threads that share objects whose operations take several steps, and the same
threads over objects whose operations are atomic. An object simulates its atomic
specification when every call takes effect in its last step; clients of such objects
then refine their atomic counterparts, as long as calls that may not overlap do not. -/
namespace SplitOperation

/-- What one step of a call does: the call goes on, or returns. -/
inductive Progress (Loc Res : Type) where
  | running (loc : Loc)
  | returned (res : Res)

def Progress.map {Loc Res Loc' Res' : Type} (loc : Loc → Loc') (res : Res → Res') :
    Progress Loc Res → Progress Loc' Res'
  | .running at' => .running (loc at')
  | .returned r => .returned (res r)

/-- A family of objects. `tick` is the next step of a call that has come to `loc`. -/
structure Object (Q Op Mem Loc Res : Type) where
  entry : Loc
  tick : Q → Op → Loc → Mem → Mem × Progress Loc Res

/-- Client threads. A thread whose program counter requests an operation can only
go on with it; `resume` is its own code up to the next request. -/
structure Machine (T : Type) (Pc : T → Type) (Q Op Res S Act : Type) where
  request : (t : T) → Pc t → Option (Q × Op)
  resume : (t : T) → Pc t → Res → S → Pc t × S
  actor : Act → T
  act : (a : Act) → Pc (actor a) → S → Option (Pc (actor a) × S)

structure Split (T : Type) (Pc : T → Type) (Q Mem Loc S : Type) where
  pcs : (t : T) → Pc t
  shared : S
  mem : Q → Mem
  loc : T → Loc

inductive SplitLabel (T Act : Type) where
  | act (a : Act)
  | tick (t : T)
  deriving DecidableEq, Repr

structure Atomic (T : Type) (Pc : T → Type) (Q Abs S : Type) where
  pcs : (t : T) → Pc t
  shared : S
  abs : Q → Abs

/-- `havoc` lets an operation return anything: it stands for calls on objects whose
calls overlapped in a way that the specification says nothing about. -/
inductive AtomicLabel (T Act Choice Res : Type) where
  | act (a : Act)
  | op (t : T) (choice : Choice)
  | havoc (t : T) (res : Res)

section

variable {T : Type} [DecidableEq T] {Pc : T → Type} {Q : Type} [DecidableEq Q]
variable {Op Mem Loc Res Abs Choice S Act : Type}

def splitStep (o : Object Q Op Mem Loc Res) (m : Machine T Pc Q Op Res S Act)
    (s : Split T Pc Q Mem Loc S) : SplitLabel T Act → Option (Split T Pc Q Mem Loc S)
  | .act a =>
    match m.request _ (s.pcs (m.actor a)) with
    | some _ => none
    | none => (m.act a (s.pcs (m.actor a)) s.shared).map fun r =>
      { s with pcs := Function.update s.pcs (m.actor a) r.1, shared := r.2 }
  | .tick t =>
    match m.request t (s.pcs t) with
    | none => none
    | some (q, op) =>
      match o.tick q op (s.loc t) (s.mem q) with
      | (mem, .running loc) =>
        some { s with mem := Function.update s.mem q mem, loc := Function.update s.loc t loc }
      | (mem, .returned res) =>
        let r := m.resume t (s.pcs t) res s.shared
        some { pcs := Function.update s.pcs t r.1, shared := r.2,
               mem := Function.update s.mem q mem, loc := Function.update s.loc t o.entry }

def atomicStep (spec : Q → Op → Abs → Choice → Option (Abs × Res))
    (m : Machine T Pc Q Op Res S Act) (s : Atomic T Pc Q Abs S) :
    AtomicLabel T Act Choice Res → Option (Atomic T Pc Q Abs S)
  | .act a =>
    match m.request _ (s.pcs (m.actor a)) with
    | some _ => none
    | none => (m.act a (s.pcs (m.actor a)) s.shared).map fun r =>
      { s with pcs := Function.update s.pcs (m.actor a) r.1, shared := r.2 }
  | .op t choice =>
    match m.request t (s.pcs t) with
    | none => none
    | some (q, op) => (spec q op (s.abs q) choice).map fun (abs, res) =>
      let r := m.resume t (s.pcs t) res s.shared
      { pcs := Function.update s.pcs t r.1, shared := r.2, abs := Function.update s.abs q abs }
  | .havoc t res =>
    match m.request t (s.pcs t) with
    | none => none
    | some _ =>
      let r := m.resume t (s.pcs t) res s.shared
      some { s with pcs := Function.update s.pcs t r.1, shared := r.2 }

/-- The obligations of an object. `mid` is what a call that has come to `loc` knows
of the memory and of the abstract state; `compatible` calls may overlap it. -/
structure Simulation (o : Object Q Op Mem Loc Res)
    (spec : Q → Op → Abs → Choice → Option (Abs × Res)) where
  rel : Q → Mem → Abs → Prop
  mid : Q → Op → Loc → Mem → Abs → Prop
  safe : Op → Abs → Prop
  compatible : Op → Op → Prop
  mid_entry : ∀ q op mem abs, mid q op o.entry mem abs
  running : ∀ {q op loc mem abs mem' loc'}, rel q mem abs → mid q op loc mem abs → safe op abs →
    o.tick q op loc mem = (mem', .running loc') →
    rel q mem' abs ∧ mid q op loc' mem' abs ∧
    ∀ other at', compatible op other → mid q other at' mem abs → mid q other at' mem' abs
  returned : ∀ {q op loc mem abs mem' res}, rel q mem abs → mid q op loc mem abs → safe op abs →
    o.tick q op loc mem = (mem', .returned res) →
    ∃ choice abs', spec q op abs choice = some (abs', res) ∧ rel q mem' abs' ∧
    ∀ other at', compatible op other → mid q other at' mem abs → mid q other at' mem' abs'

variable {o : Object Q Op Mem Loc Res} {spec : Q → Op → Abs → Choice → Option (Abs × Res)}

/-- The abstraction relation of whole systems. Only the objects in `tracked` are
related; the client part of the two states is the same. -/
structure Related (sim : Simulation o spec) (m : Machine T Pc Q Op Res S Act) (tracked : Q → Prop)
    (s : Split T Pc Q Mem Loc S) (a : Atomic T Pc Q Abs S) : Prop where
  pcs : s.pcs = a.pcs
  shared : s.shared = a.shared
  rel : ∀ q, tracked q → sim.rel q (s.mem q) (a.abs q)
  mid : ∀ t q op, m.request t (s.pcs t) = some (q, op) → tracked q →
    sim.mid q op (s.loc t) (s.mem q) (a.abs q)
  outside : ∀ t, m.request t (s.pcs t) = none → s.loc t = o.entry

/-- No other thread is in the middle of an incompatible call on the same object. -/
def Exclusive (sim : Simulation o spec) (m : Machine T Pc Q Op Res S Act) (tracked : Q → Prop)
    (s : Split T Pc Q Mem Loc S) (t : T) : Prop :=
  ∀ q op, m.request t (s.pcs t) = some (q, op) → tracked q →
    ∀ other op', other ≠ t → m.request other (s.pcs other) = some (q, op') →
      s.loc other = o.entry ∨ sim.compatible op op'

/-- Operations about to be taken on tracked objects meet their preconditions. -/
def Safe (sim : Simulation o spec) (m : Machine T Pc Q Op Res S Act) (tracked : Q → Prop)
    (a : Atomic T Pc Q Abs S) : Prop :=
  ∀ t q op, m.request t (a.pcs t) = some (q, op) → tracked q → sim.safe op (a.abs q)

variable {sim : Simulation o spec} {m : Machine T Pc Q Op Res S Act} {tracked : Q → Prop}
variable {s s' : Split T Pc Q Mem Loc S} {a : Atomic T Pc Q Abs S}

theorem splitStep_act_cases {b : Act} (taken : splitStep o m s (.act b) = some s') :
    m.request _ (s.pcs (m.actor b)) = none ∧
    ∃ r, m.act b (s.pcs (m.actor b)) s.shared = some r ∧
      s' = { s with pcs := Function.update s.pcs (m.actor b) r.1, shared := r.2 } := by
  simp only [splitStep] at taken
  split at taken
  · contradiction
  · next free =>
    obtain ⟨r,done,rfl⟩ := Option.map_eq_some_iff.mp taken
    exact ⟨free,r,done,rfl⟩

theorem splitStep_tick_cases {t : T} (taken : splitStep o m s (.tick t) = some s') :
    ∃ q op mem, m.request t (s.pcs t) = some (q, op) ∧
      ((∃ loc, o.tick q op (s.loc t) (s.mem q) = (mem, .running loc) ∧
        s' = { s with mem := Function.update s.mem q mem, loc := Function.update s.loc t loc }) ∨
      (∃ res, o.tick q op (s.loc t) (s.mem q) = (mem, .returned res) ∧
        s' = { pcs := Function.update s.pcs t (m.resume t (s.pcs t) res s.shared).1
               shared := (m.resume t (s.pcs t) res s.shared).2
               mem := Function.update s.mem q mem, loc := Function.update s.loc t o.entry })) := by
  simp only [splitStep] at taken
  split at taken
  · contradiction
  · next q op asked =>
    split at taken
    · next mem loc ticked => exact ⟨q,op,mem,asked,.inl ⟨loc,ticked,(Option.some.inj taken).symm⟩⟩
    · next mem res ticked => exact ⟨q,op,mem,asked,.inr ⟨res,ticked,(Option.some.inj taken).symm⟩⟩

theorem atomicStep_act_cases {a' : Atomic T Pc Q Abs S} {b : Act}
    (taken : atomicStep spec m a (.act b) = some a') :
    m.request _ (a.pcs (m.actor b)) = none ∧
    ∃ r, m.act b (a.pcs (m.actor b)) a.shared = some r ∧
      a' = { a with pcs := Function.update a.pcs (m.actor b) r.1, shared := r.2 } := by
  simp only [atomicStep] at taken
  split at taken
  · contradiction
  · next free =>
    obtain ⟨r,done,rfl⟩ := Option.map_eq_some_iff.mp taken
    exact ⟨free,r,done,rfl⟩

theorem atomicStep_op_cases {a' : Atomic T Pc Q Abs S} {t : T} {choice : Choice}
    (taken : atomicStep spec m a (.op t choice) = some a') :
    ∃ q op abs res, m.request t (a.pcs t) = some (q, op) ∧
      spec q op (a.abs q) choice = some (abs, res) ∧
      a' = { pcs := Function.update a.pcs t (m.resume t (a.pcs t) res a.shared).1
             shared := (m.resume t (a.pcs t) res a.shared).2
             abs := Function.update a.abs q abs } := by
  simp only [atomicStep] at taken
  split at taken
  · contradiction
  · next q op asked =>
    obtain ⟨⟨abs,res⟩,specified,rfl⟩ := Option.map_eq_some_iff.mp taken
    exact ⟨q,op,abs,res,asked,specified,rfl⟩

theorem atomicStep_havoc_cases {a' : Atomic T Pc Q Abs S} {t : T} {res : Res}
    (taken : atomicStep spec m a (.havoc t res) = some a') :
    ∃ q op, m.request t (a.pcs t) = some (q, op) ∧
      a' = { a with pcs := Function.update a.pcs t (m.resume t (a.pcs t) res a.shared).1
                    shared := (m.resume t (a.pcs t) res a.shared).2 } := by
  simp only [atomicStep] at taken
  split at taken
  · contradiction
  · next call asked => exact ⟨call.1,call.2,asked,(Option.some.inj taken).symm⟩

/-- Client actions touch no object, so the atomic system takes the same one. -/
theorem act_simulated (related : Related sim m tracked s a) {b : Act}
    (taken : splitStep o m s (.act b) = some s') :
    ∃ a', atomicStep spec m a (.act b) = some a' ∧ Related sim m tracked s' a' := by
  obtain ⟨free,r,done,rfl⟩ := splitStep_act_cases taken
  have free' := free
  rw [related.pcs] at free'
  have done' := done
  rw [related.pcs,related.shared] at done'
  refine ⟨{ a with pcs := Function.update a.pcs (m.actor b) r.1, shared := r.2 },
    by simp [atomicStep,free',done'],?_⟩
  refine ⟨by simp [related.pcs],rfl,related.rel,?_,?_⟩
  · intro t q op asked inside
    by_cases same : t = m.actor b
    · subst same
      rw [show s.loc (m.actor b) = o.entry from related.outside _ free]
      exact sim.mid_entry ..
    · exact related.mid t q op (by simpa [Function.update_of_ne same] using asked) inside
  · intro t quiet
    by_cases same : t = m.actor b
    · subst same; exact related.outside _ free
    · exact related.outside t (by simpa [Function.update_of_ne same] using quiet)

omit [DecidableEq T] in
private theorem mid_after (related : Related sim m tracked s a) {t other : T} {q : Q} {op : Op}
    {mem : Mem} {abs : Abs} (alone : Exclusive sim m tracked s t)
    (asked : m.request t (s.pcs t) = some (q, op)) (inside : tracked q)
    (kept : ∀ op' at', sim.compatible op op' → sim.mid q op' at' (s.mem q) (a.abs q) →
      sim.mid q op' at' mem abs)
    (different : other ≠ t) {q' : Q} {op' : Op} (wants : m.request other (s.pcs other) = some (q', op'))
    (inside' : tracked q') :
    sim.mid q' op' (s.loc other) (Function.update s.mem q mem q') (Function.update a.abs q abs q') := by
  by_cases same : q' = q
  · subst same
    simp only [Function.update_self]
    rcases alone q' op asked inside other op' different wants with started | compatible
    · rw [started]; exact sim.mid_entry ..
    · exact kept op' _ compatible (related.mid other q' op' wants inside)
  · simp only [Function.update_of_ne same]
    exact related.mid other q' op' wants inside'

/-- The next step of the thread is the last one of a call that returns `res`. -/
def Returns (o : Object Q Op Mem Loc Res) (m : Machine T Pc Q Op Res S Act)
    (s : Split T Pc Q Mem Loc S) (t : T) (res : Res) : Prop :=
  ∃ q op mem, m.request t (s.pcs t) = some (q, op) ∧
    o.tick q op (s.loc t) (s.mem q) = (mem, .returned res)

/-- What only concerns the client survives a step if it survives actions and returns. -/
theorem client_step (property : ((t : T) → Pc t) → S → Prop) {label : SplitLabel T Act}
    (acts : ∀ b r, label = .act b → m.request _ (s.pcs (m.actor b)) = none →
      m.act b (s.pcs (m.actor b)) s.shared = some r →
      property (Function.update s.pcs (m.actor b) r.1) r.2)
    (returns : ∀ t res, label = .tick t → Returns o m s t res →
      property (Function.update s.pcs t (m.resume t (s.pcs t) res s.shared).1)
        (m.resume t (s.pcs t) res s.shared).2)
    (holds : property s.pcs s.shared) (taken : splitStep o m s label = some s') :
    property s'.pcs s'.shared := by
  cases label with
  | act b =>
    obtain ⟨free,r,done,rfl⟩ := splitStep_act_cases taken
    exact acts b r rfl free done
  | tick t =>
    obtain ⟨q,op,mem,asked,⟨loc,ticked,rfl⟩ | ⟨res,ticked,rfl⟩⟩ := splitStep_tick_cases taken
    · exact holds
    · exact returns t res rfl ⟨q,op,mem,asked,ticked⟩

/-- What the call of a thread returns if this step is its last one. -/
def splitResult (o : Object Q Op Mem Loc Res) (m : Machine T Pc Q Op Res S Act)
    (s : Split T Pc Q Mem Loc S) (t : T) : Option Res :=
  (m.request t (s.pcs t)).bind fun (q, op) =>
    match (o.tick q op (s.loc t) (s.mem q)).2 with
    | .running _ => none
    | .returned res => some res

/-- The log of a client whose own code makes the calls given for actions and returns. -/
def clientCalls {E : Type} (o : Object Q Op Mem Loc Res) (m : Machine T Pc Q Op Res S Act)
    (acts : Act → S → List E) (resumes : (t : T) → Pc t → Res → List E) (s : Split T Pc Q Mem Loc S) :
    SplitLabel T Act → List E
  | .act b => acts b s.shared
  | .tick t => (splitResult o m s t).elim [] (resumes t (s.pcs t))

/-- The rule of `client_step` for a client and its log. -/
theorem client_logged {E : Type} {acts : Act → S → List E} {resumes : (t : T) → Pc t → Res → List E}
    (property : ((t : T) → Pc t) → S → List E → Prop) {label : SplitLabel T Act} {log log' : List E}
    (acted : ∀ b r, m.act b (s.pcs (m.actor b)) s.shared = some r →
      property (Function.update s.pcs (m.actor b) r.1) r.2 (log ++ acts b s.shared))
    (returned : ∀ t q op res, m.request t (s.pcs t) = some (q, op) →
      property (Function.update s.pcs t (m.resume t (s.pcs t) res s.shared).1)
        (m.resume t (s.pcs t) res s.shared).2 (log ++ resumes t (s.pcs t) res))
    (holds : property s.pcs s.shared log)
    (taken : Transition.logged (splitStep o m) (clientCalls o m acts resumes) (s, log) label = some (s', log')) :
    property s'.pcs s'.shared log' := by
  obtain ⟨t,stepped,same⟩ := Option.map_eq_some_iff.mp taken
  obtain ⟨rfl,rfl⟩ := Prod.mk.inj same
  cases label with
  | act b =>
    obtain ⟨-,r,done,rfl⟩ := splitStep_act_cases stepped
    exact acted b r done
  | tick t =>
    obtain ⟨q,op,mem,asked,⟨loc,ticked,rfl⟩ | ⟨res,ticked,rfl⟩⟩ := splitStep_tick_cases stepped
    · simpa [clientCalls,splitResult,asked,ticked] using holds
    · simpa [clientCalls,splitResult,asked,ticked] using returned t q op res asked

/-- A step inside a call on a tracked object is invisible. -/
theorem running_simulated (related : Related sim m tracked s a) (harmless : Safe sim m tracked a)
    {t : T} (alone : Exclusive sim m tracked s t) {q : Q} {op : Op} {mem : Mem} {loc : Loc}
    (asked : m.request t (s.pcs t) = some (q, op)) (inside : tracked q)
    (ticked : o.tick q op (s.loc t) (s.mem q) = (mem, .running loc)) :
    Related sim m tracked
      { s with mem := Function.update s.mem q mem, loc := Function.update s.loc t loc } a := by
  have secure := harmless t q op (by rwa [← related.pcs]) inside
  obtain ⟨rel,mid,kept⟩ :=
    sim.running (related.rel q inside) (related.mid t q op asked inside) secure ticked
  refine ⟨related.pcs,related.shared,?_,?_,?_⟩
  · intro q' inside'
    by_cases same : q' = q
    · subst same; simpa using rel
    · simpa [Function.update_of_ne same] using related.rel q' inside'
  · intro other q' op' wants inside'
    by_cases same : other = t
    · subst same
      obtain ⟨rfl,rfl⟩ := Prod.mk.inj (Option.some.inj (asked.symm.trans wants))
      simpa using mid
    · have := mid_after related alone asked inside kept same wants inside'
      simpa [Function.update_of_ne same] using this
  · intro other quiet
    have same : other ≠ t := by rintro rfl; simp [asked] at quiet
    simpa [Function.update_of_ne same] using related.outside other quiet

/-- The states after a call has returned agree, if the objects do and the calls of the
other threads still know what they knew. -/
theorem Related.returned (related : Related sim m tracked s a) {t : T} {res : Res} {q : Q} {mem : Mem}
    {abs : Q → Abs}
    (rel : ∀ q', tracked q' → sim.rel q' (Function.update s.mem q mem q') (abs q'))
    (mid : ∀ other q' op', other ≠ t → m.request other (s.pcs other) = some (q', op') → tracked q' →
      sim.mid q' op' (s.loc other) (Function.update s.mem q mem q') (abs q')) :
    Related sim m tracked
      { pcs := Function.update s.pcs t (m.resume t (s.pcs t) res s.shared).1
        shared := (m.resume t (s.pcs t) res s.shared).2
        mem := Function.update s.mem q mem, loc := Function.update s.loc t o.entry }
      { pcs := Function.update a.pcs t (m.resume t (a.pcs t) res a.shared).1
        shared := (m.resume t (a.pcs t) res a.shared).2, abs := abs } := by
  refine ⟨by simp [related.pcs,related.shared],by simp [related.pcs,related.shared],rel,?_,?_⟩
  · intro other q' op' wants inside'
    by_cases same : other = t
    · subst same; simp only [Function.update_self]; exact sim.mid_entry ..
    · have := mid other q' op' same (by simpa [Function.update_of_ne same] using wants) inside'
      simpa [Function.update_of_ne same] using this
  · intro other quiet
    by_cases same : other = t
    · subst same; simp
    · simpa [Function.update_of_ne same] using
        related.outside other (by simpa [Function.update_of_ne same] using quiet)

/-- The last step of a call on a tracked object is the atomic operation. -/
theorem returned_simulated (related : Related sim m tracked s a) (harmless : Safe sim m tracked a)
    {t : T} (alone : Exclusive sim m tracked s t) {q : Q} {op : Op} {mem : Mem} {res : Res}
    (asked : m.request t (s.pcs t) = some (q, op)) (inside : tracked q)
    (ticked : o.tick q op (s.loc t) (s.mem q) = (mem, .returned res)) :
    ∃ choice abs, spec q op (a.abs q) choice = some (abs, res) ∧
      Related sim m tracked
        { pcs := Function.update s.pcs t (m.resume t (s.pcs t) res s.shared).1
          shared := (m.resume t (s.pcs t) res s.shared).2
          mem := Function.update s.mem q mem, loc := Function.update s.loc t o.entry }
        { pcs := Function.update a.pcs t (m.resume t (a.pcs t) res a.shared).1
          shared := (m.resume t (a.pcs t) res a.shared).2, abs := Function.update a.abs q abs } := by
  have secure := harmless t q op (by rwa [← related.pcs]) inside
  obtain ⟨choice,abs,specified,rel,kept⟩ :=
    sim.returned (related.rel q inside) (related.mid t q op asked inside) secure ticked
  refine ⟨choice,abs,specified,related.returned ?_ ?_⟩
  · intro q' inside'
    by_cases same : q' = q
    · subst same; simpa using rel
    · simpa [Function.update_of_ne same] using related.rel q' inside'
  · intro other q' op' different wants inside'
    exact mid_after related alone asked inside kept different wants inside'

/-- A step inside a call is invisible; its last step is the atomic operation. -/
theorem tick_simulated (related : Related sim m tracked s a) (harmless : Safe sim m tracked a)
    {t : T} (alone : Exclusive sim m tracked s t) (taken : splitStep o m s (.tick t) = some s') :
    Related sim m tracked s' a ∨
    (∃ choice a' res q op abs, Returns o m s t res ∧ m.request t (a.pcs t) = some (q, op) ∧
      spec q op (a.abs q) choice = some (abs, res) ∧
      atomicStep spec m a (.op t choice) = some a' ∧ Related sim m tracked s' a') ∨
    (∃ q op res a', Returns o m s t res ∧ m.request t (a.pcs t) = some (q, op) ∧ ¬ tracked q ∧
      atomicStep spec m a (.havoc t res) = some a' ∧ Related sim m tracked s' a') := by
  obtain ⟨q,op,mem,asked,step⟩ := splitStep_tick_cases taken
  have asked' := asked
  rw [related.pcs] at asked'
  by_cases inside : tracked q
  · rcases step with ⟨loc,ticked,rfl⟩ | ⟨res,ticked,rfl⟩
    · exact .inl (running_simulated related harmless alone asked inside ticked)
    · right; left
      obtain ⟨choice,abs,specified,after⟩ := returned_simulated related harmless alone asked inside ticked
      exact ⟨choice,_,res,q,op,abs,⟨q,op,mem,asked,ticked⟩,asked',specified,
        by simp only [atomicStep,asked',specified]; rfl,after⟩
  · have apart (q' : Q) (inside' : tracked q') : q' ≠ q := by rintro rfl; exact inside inside'
    rcases step with ⟨loc,ticked,rfl⟩ | ⟨res,ticked,rfl⟩
    · left
      refine ⟨related.pcs,related.shared,?_,?_,?_⟩
      · intro q' inside'
        simpa [Function.update_of_ne (apart q' inside')] using related.rel q' inside'
      · intro other q' op' wants inside'
        have same : other ≠ t := by
          rintro rfl
          obtain ⟨rfl,rfl⟩ := Prod.mk.inj (Option.some.inj (asked.symm.trans wants))
          exact inside inside'
        simpa [Function.update_of_ne same,Function.update_of_ne (apart q' inside')] using
          related.mid other q' op' wants inside'
      · intro other quiet
        have same : other ≠ t := by rintro rfl; simp [asked] at quiet
        simpa [Function.update_of_ne same] using related.outside other quiet
    · right; right
      refine ⟨q,op,res,_,⟨q,op,mem,asked,ticked⟩,asked',inside,
        by simp only [atomicStep,asked']; rfl,related.returned ?_ ?_⟩
      · intro q' inside'
        simpa [Function.update_of_ne (apart q' inside')] using related.rel q' inside'
      · intro other q' op' different wants inside'
        simpa [Function.update_of_ne (apart q' inside')] using related.mid other q' op' wants inside'

/-- Refinement of a step, with the run of the atomic system that leads to it. -/
theorem step_simulated {guard' : Atomic T Pc Q Abs S → AtomicLabel T Act Choice Res → Prop}
    {start' : Atomic T Pc Q Abs S} (related : Related sim m tracked s a)
    (reached : Transition.Reachable (atomicStep spec m) guard' start' a) (harmless : Safe sim m tracked a)
    {label : SplitLabel T Act} (alone : ∀ t, label = .tick t → Exclusive sim m tracked s t)
    (acts : ∀ b, label = .act b → guard' a (.act b))
    (ops : ∀ t choice res q op abs, label = .tick t → Returns o m s t res →
      m.request t (a.pcs t) = some (q, op) → spec q op (a.abs q) choice = some (abs, res) → guard' a (.op t choice))
    (havocs : ∀ t res q op, label = .tick t → Returns o m s t res → m.request t (a.pcs t) = some (q, op) →
      ¬ tracked q → guard' a (.havoc t res))
    (taken : splitStep o m s label = some s') :
    ∃ a', Transition.Reachable (atomicStep spec m) guard' start' a' ∧ Related sim m tracked s' a' := by
  cases label with
  | act b =>
    obtain ⟨a',step,related'⟩ := act_simulated related taken
    exact ⟨a',.step reached (acts b rfl) step,related'⟩
  | tick t =>
    rcases tick_simulated related harmless (alone t rfl) taken with
      same | ⟨choice,a',res,q,op,abs,returns,asked,specified,step,related'⟩ |
      ⟨q,op,res,a',returns,asked,outside,step,related'⟩
    · exact ⟨a,reached,same⟩
    · exact ⟨a',.step reached (ops t choice res q op abs rfl returns asked specified) step,related'⟩
    · exact ⟨a',.step reached (havocs t res q op rfl returns asked outside) step,related'⟩

/-- Refinement of runs. Every state of a run over split operations is related to a
state of the atomic system reached under the corresponding guard. A guard of the split
system may restrict what calls return. -/
theorem refines {guard : Split T Pc Q Mem Loc S → SplitLabel T Act → Prop}
    (guard' : Atomic T Pc Q Abs S → AtomicLabel T Act Choice Res → Prop)
    {start : Split T Pc Q Mem Loc S} {start' : Atomic T Pc Q Abs S}
    (initial : Related sim m tracked start start')
    (harmless : ∀ a, Transition.Reachable (atomicStep spec m) guard' start' a → Safe sim m tracked a)
    (alone : ∀ s t, guard s (.tick t) → Exclusive sim m tracked s t)
    (acts : ∀ s a b, Related sim m tracked s a → guard s (.act b) → guard' a (.act b))
    (ops : ∀ s a t choice res q op abs, Related sim m tracked s a → guard s (.tick t) →
      Returns o m s t res → m.request t (a.pcs t) = some (q, op) →
      spec q op (a.abs q) choice = some (abs, res) → guard' a (.op t choice))
    (havocs : ∀ s a t res q op, Related sim m tracked s a → guard s (.tick t) → Returns o m s t res →
      m.request t (a.pcs t) = some (q, op) → ¬ tracked q → guard' a (.havoc t res))
    {s : Split T Pc Q Mem Loc S} (reach : Transition.Reachable (splitStep o m) guard start s) :
    ∃ a, Transition.Reachable (atomicStep spec m) guard' start' a ∧ Related sim m tracked s a := by
  induction reach with
  | start => exact ⟨start',.start,initial⟩
  | @step s _ label _ allowed taken ih =>
    obtain ⟨a,reached,related⟩ := ih
    refine step_simulated related reached (harmless a reached) ?_ ?_ ?_ ?_ taken
    · rintro t rfl
      exact alone s t allowed
    · rintro b rfl
      exact acts s a b related allowed
    · rintro t choice res q op abs rfl returns asked specified
      exact ops s a t choice res q op abs related allowed returns asked specified
    · rintro t res q op rfl returns asked outside
      exact havocs s a t res q op related allowed returns asked outside

/-- The steps of the machine among changes that others make to the objects. -/
def disturbedStep {D : Type} (o : Object Q Op Mem Loc Res) (m : Machine T Pc Q Op Res S Act)
    (disturb : D → Mem → Option Mem) (s : Split T Pc Q Mem Loc S) :
    SplitLabel T Act ⊕ Q × D → Option (Split T Pc Q Mem Loc S)
  | .inl label => splitStep o m s label
  | .inr (q, d) => (disturb d (s.mem q)).map fun mem => { s with mem := Function.update s.mem q mem }

/-- What others do to an object changes nothing that the simulation sees of it. -/
def Stable {D : Type} (sim : Simulation o spec) (disturb : D → Mem → Option Mem) : Prop :=
  ∀ q d mem mem' abs, disturb d mem = some mem' → sim.rel q mem abs →
    sim.rel q mem' abs ∧ ∀ op loc, sim.mid q op loc mem abs → sim.mid q op loc mem' abs

omit [DecidableEq T] in
theorem Related.disturbed {D : Type} {disturb : D → Mem → Option Mem} (stable : Stable sim disturb)
    (related : Related sim m (fun _ => True) s a) {q : Q} {d : D} {mem : Mem}
    (taken : disturb d (s.mem q) = some mem) :
    Related sim m (fun _ => True) { s with mem := Function.update s.mem q mem } a := by
  obtain ⟨rel,mid⟩ := stable q d _ _ _ taken (related.rel q trivial)
  refine ⟨related.pcs,related.shared,?_,?_,related.outside⟩
  · intro q' inside
    by_cases same : q' = q
    · subst same
      simpa using rel
    · simpa [Function.update_of_ne same] using related.rel q' inside
  · intro t q' op asked inside
    have known := related.mid t q' op asked inside
    by_cases same : q' = q
    · subst same
      simpa using mid op (s.loc t) known
    · simpa [Function.update_of_ne same] using known

/-- Refinement of runs with disturbances, where calls from different threads may overlap in any way. -/
theorem disturbed_refines {D : Type} {disturb : D → Mem → Option Mem} (stable : Stable sim disturb)
    (guard' : Atomic T Pc Q Abs S → AtomicLabel T Act Choice Res → Prop)
    {start : Split T Pc Q Mem Loc S} {start' : Atomic T Pc Q Abs S}
    (initial : Related sim m (fun _ => True) start start')
    (harmless : ∀ a, Transition.Reachable (atomicStep spec m) guard' start' a → Safe sim m (fun _ => True) a)
    (alone : ∀ s t, Exclusive sim m (fun _ => True) s t)
    (acts : ∀ a b, guard' a (.act b)) (ops : ∀ a t choice, guard' a (.op t choice))
    {s : Split T Pc Q Mem Loc S} (reach : Transition.Reachable (disturbedStep o m disturb) (fun _ _ => True) start s) :
    ∃ a, Transition.Reachable (atomicStep spec m) guard' start' a ∧ Related sim m (fun _ => True) s a := by
  induction reach with
  | start => exact ⟨start',.start,initial⟩
  | @step s _ label _ _ taken ih =>
    obtain ⟨a,reached,related⟩ := ih
    cases label with
    | inl label =>
      exact step_simulated related reached (harmless a reached) (fun t _ => alone s t) (fun b _ => acts a b)
        (fun t choice _ _ _ _ _ _ _ _ => ops a t choice) (fun _ _ _ _ _ _ _ outside => (outside trivial).elim) taken
    | inr disturbance =>
      obtain ⟨mem,disturbed,rfl⟩ := Option.map_eq_some_iff.mp taken
      exact ⟨a,reached,related.disturbed stable disturbed⟩

/-- A run that nobody disturbs. -/
theorem undisturbed {D : Type} {disturb : D → Mem → Option Mem} {start s : Split T Pc Q Mem Loc S}
    (reach : Transition.Reachable (splitStep o m) (fun _ _ => True) start s) :
    Transition.Reachable (disturbedStep o m disturb) (fun _ _ => True) start s :=
  reach.map id fun _ label _ _ taken => .inr ⟨.inl label,trivial,taken⟩

end

end SplitOperation
