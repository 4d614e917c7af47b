import Tcpeen.Library.SplitOperation

/-! The other direction of refinement. A run over atomic objects whose operations leave no
choice is a run over split ones, in which every call goes to its end before another begins. -/
namespace SplitOperation

variable {T : Type} [DecidableEq T] {Pc : T → Type} {Q : Type} [DecidableEq Q]
variable {Op Mem Loc Res Abs Choice S Act : Type}
variable {o : Object Q Op Mem Loc Res} {spec : Q → Op → Abs → Choice → Option (Abs × Res)}
variable {sim : Simulation o spec} {m : Machine T Pc Q Op Res S Act}
variable {s : Split T Pc Q Mem Loc S} {a a' : Atomic T Pc Q Abs S}

/-- Every step of a call brings it nearer to its end. -/
def Ends (sim : Simulation o spec) (rank : Op → Loc → Nat) : Prop :=
  ∀ q op loc mem abs mem' loc', sim.mid q op loc mem abs → o.tick q op loc mem = (mem', .running loc') →
    rank op loc' < rank op loc

/-- No thread is in the middle of a call. -/
def Resting (o : Object Q Op Mem Loc Res) (s : Split T Pc Q Mem Loc S) : Prop := ∀ t, s.loc t = o.entry

/-- The operation gives the same with every choice that it can be taken with. -/
def Determined (spec : Q → Op → Abs → Choice → Option (Abs × Res)) (m : Machine T Pc Q Op Res S Act)
    (a : Atomic T Pc Q Abs S) (t : T) (choice : Choice) : Prop :=
  ∀ q op choice' r, m.request t (a.pcs t) = some (q, op) → spec q op (a.abs q) choice' = some r →
    spec q op (a.abs q) choice = some r

/-- A call that runs alone takes the effect of the atomic operation. -/
theorem call_alone {rank : Op → Loc → Nat} (ends : Ends sim rank) (harmless : Safe sim m (fun _ => True) a)
    {t : T} {q : Q} {op : Op} (related : Related sim m (fun _ => True) s a)
    (asked : m.request t (s.pcs t) = some (q, op)) (alone : ∀ other, other ≠ t → s.loc other = o.entry) :
    ∃ choice a' s', atomicStep spec m a (.op t choice) = some a' ∧
      Transition.Reachable (splitStep o m) (fun _ label => label = .tick t) s s' ∧
      Related sim m (fun _ => True) s' a' ∧ Resting o s' := by
  induction bound : rank op (s.loc t) using Nat.strongRecOn generalizing s with
  | _ bound' ih =>
  subst bound
  have exclusive : Exclusive sim m (fun _ => True) s t :=
    fun _ _ _ _ other _ different _ => .inl (alone other different)
  have asked' := asked
  rw [related.pcs] at asked'
  cases ticked : o.tick q op (s.loc t) (s.mem q) with
  | mk mem progress =>
  cases progress with
  | running loc =>
    have step : splitStep o m s (.tick t) =
        some { s with mem := Function.update s.mem q mem, loc := Function.update s.loc t loc } := by
      simp only [splitStep,asked,ticked]
    have nearer := ends q op _ _ _ _ _ (related.mid t q op asked trivial) ticked
    obtain ⟨choice,a',s',taken,run,related',resting⟩ := ih (rank op loc) nearer
      (running_simulated related harmless exclusive asked trivial ticked) asked
      (fun other different => (Function.update_of_ne different ..).trans (alone other different)) (by simp)
    exact ⟨choice,a',s',taken,.trans (.step .start rfl step) run,related',resting⟩
  | returned res =>
    obtain ⟨choice,abs,specified,after⟩ := returned_simulated related harmless exclusive asked trivial ticked
    refine ⟨choice,_,_,by simp only [atomicStep,asked',specified]; rfl,
      .step .start rfl (by simp only [splitStep,asked,ticked]),after,?_⟩
    intro other
    by_cases same : other = t
    · subst same
      exact Function.update_self ..
    · exact (Function.update_of_ne same ..).trans (alone other same)

/-- Runs in which no operation has a choice are runs of the split system. -/
theorem realises {rank : Op → Loc → Nat} (ends : Ends sim rank)
    {guard : Split T Pc Q Mem Loc S → SplitLabel T Act → Prop}
    {guard' : Atomic T Pc Q Abs S → AtomicLabel T Act Choice Res → Prop} {start : Atomic T Pc Q Abs S}
    (initial : Related sim m (fun _ => True) s start) (resting : Resting o s)
    (harmless : ∀ a, Transition.Reachable (atomicStep spec m) guard' start a → Safe sim m (fun _ => True) a)
    (acts : ∀ s a b, Related sim m (fun _ => True) s a → guard' a (.act b) → guard s (.act b))
    (ticks : ∀ s t, guard s (.tick t)) (ops : ∀ a t choice, guard' a (.op t choice) → Determined spec m a t choice)
    (exact' : ∀ a t res, ¬ guard' a (.havoc t res))
    (reach : Transition.Reachable (atomicStep spec m) guard' start a) :
    ∃ s', Transition.Reachable (splitStep o m) guard s s' ∧ Related sim m (fun _ => True) s' a ∧ Resting o s' := by
  induction reach with
  | start => exact ⟨s,.start,initial,resting⟩
  | @step a a' label before allowed taken ih =>
    obtain ⟨s',run,related,rests⟩ := ih
    cases label with
    | act b =>
      obtain ⟨free,r,done,rfl⟩ := atomicStep_act_cases taken
      rw [← related.pcs] at free done
      rw [← related.shared] at done
      have step : splitStep o m s' (.act b) =
          some { s' with pcs := Function.update s'.pcs (m.actor b) r.1, shared := r.2 } := by
        simp [splitStep,free,done]
      obtain ⟨a'',taken',related'⟩ := act_simulated related step
      obtain rfl := Option.some.inj (taken.symm.trans taken')
      exact ⟨_,.step run (acts _ _ _ related allowed) step,related',rests⟩
    | op t choice =>
      obtain ⟨q,op,abs,res,asked,specified,rfl⟩ := atomicStep_op_cases taken
      rw [← related.pcs] at asked
      obtain ⟨choice',a'',s'',taken',run',related',rests'⟩ :=
        call_alone ends (harmless a before) related asked fun other _ => rests other
      obtain ⟨q',op',abs',res',asked',specified',rfl⟩ := atomicStep_op_cases taken'
      rw [related.pcs,asked'] at asked
      obtain ⟨rfl,rfl⟩ := Prod.mk.inj (Option.some.inj asked)
      have same := ops a t choice allowed q' op' choice' _ asked' specified'
      rw [specified] at same
      obtain ⟨rfl,rfl⟩ := Prod.mk.inj (Option.some.inj same)
      exact ⟨s'',run.trans (run'.weaken fun s label ticked => ticked ▸ ticks s t),related',rests'⟩
    | havoc t res => exact absurd allowed (exact' a t res)

end SplitOperation
