import Mathlib.Data.List.Basic

/-! A loop over indices in which every turn works at its own place. -/
namespace Turns

variable {S A : Type} {turn : S → Nat → Option S}

/-- After the loop the places of its indices have had their turn, and no other has. -/
theorem foldlM_range (place : S → Nat → A) (related : Nat → A → A → Prop)
    (own : ∀ s i s', turn s i = some s' → related i (place s i) (place s' i))
    (others : ∀ s i s', turn s i = some s' → ∀ j, j ≠ i → place s' j = place s j)
    (n : Nat) {s s' : S} (ran : (List.range n).foldlM turn s = some s') :
    (∀ i < n, related i (place s i) (place s' i)) ∧ ∀ i, n ≤ i → place s' i = place s i := by
  induction n generalizing s' with
  | zero =>
    cases ran
    exact ⟨fun i inside => absurd inside (Nat.not_lt_zero i),fun _ _ => rfl⟩
  | succ n ih =>
    rw [List.range_succ,List.foldlM_append] at ran
    obtain ⟨middle,before,ran⟩ := Option.bind_eq_some_iff.mp ran
    rw [List.foldlM_cons] at ran
    obtain ⟨last,taken,rest⟩ := Option.bind_eq_some_iff.mp ran
    cases rest
    obtain ⟨turned,kept⟩ := ih before
    refine ⟨fun i inside => ?_,fun i outside => ?_⟩
    · by_cases newest : i = n
      · subst newest
        rw [← kept i (Nat.le_refl i)]
        exact own _ _ _ taken
      · rw [others _ _ _ taken i newest]
        exact turned i (by omega)
    · rw [others _ _ _ taken i (by omega),kept i (by omega)]

/-- What a turn keeps, the loop keeps. -/
theorem foldlM_keeps (property : S → Prop) (keeps : ∀ s i s', property s → turn s i = some s' → property s')
    (indices : List Nat) {s s' : S} (holds : property s) (ran : indices.foldlM turn s = some s') : property s' := by
  induction indices generalizing s with
  | nil =>
    cases ran
    exact holds
  | cons i rest ih =>
    rw [List.foldlM_cons] at ran
    obtain ⟨middle,first,later⟩ := Option.bind_eq_some_iff.mp ran
    exact ih (keeps s i middle holds first) later

end Turns
