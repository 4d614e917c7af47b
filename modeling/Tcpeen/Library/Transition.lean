import Mathlib.Data.List.Basic

/-! Labelled transition systems given by a partial step function. A guard on
labels selects the runs under study, so that one system serves both for every run
and for the runs whose steps meet a condition. -/
namespace Transition

variable {S L : Type}

/-- Runs a fixed list of labels; a label that is not enabled stops the run. -/
def execute (step : S → L → Option S) : List L → S → Option S
  | [], s => some s
  | label :: rest, s => (step s label).bind (execute step rest)

/-- States reached by runs of enabled labels that all satisfy the guard. -/
inductive Reachable (step : S → L → Option S) (guard : S → L → Prop) (start : S) : S → Prop
  | start : Reachable step guard start start
  | step {s t : S} {label : L} : Reachable step guard start s → guard s label →
      step s label = some t → Reachable step guard start t

/-- A step function that also refuses the labels a test does not pass. -/
def checked (step : S → L → Option S) (test : S → L → Bool) (s : S) (label : L) : Option S :=
  if test s label then step s label else none

/-- A system that keeps a log of what its steps call. -/
def logged {E : Type} (step : S → L → Option S) (calls : S → L → List E) (s : S × List E) (label : L) :
    Option (S × List E) :=
  (step s.1 label).map fun t => (t, s.2 ++ calls s.1 label)

variable {step : S → L → Option S} {guard : S → L → Prop} {start : S}

/-- The invariant rule: what holds initially and survives every guarded step
holds of every state reached. -/
theorem Reachable.invariant (property : S → Prop) (initial : property start)
    (preserved : ∀ s label t, property s → guard s label → step s label = some t → property t)
    {s : S} (reach : Reachable step guard start s) : property s := by
  induction reach with
  | start => exact initial
  | step _ allowed taken ih => exact preserved _ _ _ ih allowed taken

/-- The invariant rule with an already established invariant of the same runs. -/
theorem Reachable.invariant_with (known property : S → Prop)
    (established : ∀ s, Reachable step guard start s → known s) (initial : property start)
    (preserved : ∀ s label t, known s → property s → guard s label → step s label = some t →
      property t)
    {s : S} (reach : Reachable step guard start s) : property s := by
  induction reach with
  | start => exact initial
  | step before allowed taken ih => exact preserved _ _ _ (established _ before) ih allowed taken

theorem Reachable.weaken {wider : S → L → Prop} (implied : ∀ s label, guard s label → wider s label)
    {s : S} (reach : Reachable step guard start s) : Reachable step wider start s := by
  induction reach with
  | start => exact .start
  | step _ allowed taken ih => exact .step ih (implied _ _ allowed) taken

/-- A part of a system runs along: each step is one of the part or leaves it alone. -/
theorem Reachable.map {T M : Type} (part : S → T) {step' : T → M → Option T} {guard' : T → M → Prop}
    (moves : ∀ s label t, guard s label → step s label = some t → part t = part s ∨
      ∃ label', guard' (part s) label' ∧ step' (part s) label' = some (part t))
    {s : S} (reach : Reachable step guard start s) : Reachable step' guard' (part start) (part s) := by
  induction reach with
  | start => exact .start
  | step _ allowed taken ih =>
    rcases moves _ _ _ allowed taken with same | ⟨label',allowed',taken'⟩
    · rw [same]
      exact ih
    · exact .step ih allowed' taken'

theorem Reachable.trans {s t : S} (first : Reachable step guard start s)
    (second : Reachable step guard s t) : Reachable step guard start t := by
  induction second with
  | start => exact first
  | step _ allowed taken ih => exact .step ih allowed taken

theorem Reachable.of_checked {test : S → L → Bool}
    (sound : ∀ s label, test s label = true → guard s label) {labels : List L} {s t : S}
    (run : execute (checked step test) labels s = some t) : Reachable step guard s t := by
  induction labels generalizing s with
  | nil =>
    cases Option.some.inj run
    exact .start
  | cons label rest ih =>
    obtain ⟨middle,taken,later⟩ := Option.bind_eq_some_iff.mp run
    simp only [checked,Option.ite_none_right_eq_some] at taken
    exact .trans (.step .start (sound _ _ taken.1) taken.2) (ih later)

theorem Reachable.of_execute {labels : List L} {s t : S} (allowed : ∀ s, ∀ label ∈ labels, guard s label)
    (run : execute step labels s = some t) : Reachable step guard s t := by
  induction labels generalizing s with
  | nil =>
    cases Option.some.inj run
    exact .start
  | cons label rest ih =>
    obtain ⟨middle,taken,later⟩ := Option.bind_eq_some_iff.mp run
    have first := allowed s label (List.mem_cons_self ..)
    exact .trans (.step .start first taken) (ih (fun s l member => allowed s l (List.mem_cons_of_mem _ member)) later)

end Transition
