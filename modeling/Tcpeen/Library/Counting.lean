import Mathlib.Data.List.Nodup
import Mathlib.Data.List.Perm.Subperm
import Mathlib.Data.List.Range
import Mathlib.Logic.Function.Basic

/-! Where things are, by counting. Numbered things move between lists and the fields of
numbered records; an invariant says how often each occurs over all of these places.
Entries picked from a list at increasing positions form a sublist of it. -/
namespace Counting

variable {α : Type}

/-- A list of distinct numbers below `n` that misses one of them is shorter than `n`. -/
theorem length_lt {l : List Nat} {n e : Nat} (each : ∀ x, l.count x ≤ if x < n then 1 else 0)
    (small : e < n) (absent : l.count e = 0) : l.length < n := by
  have distinct : (e :: l).Nodup := by
    rw [List.nodup_iff_count_le_one]
    intro x
    have bound := each x
    by_cases same : e = x
    · subst same
      simp [absent]
    · rw [List.count_cons_of_ne same]
      split at bound <;> omega
  have inside : e :: l ⊆ List.range n := by
    intro x member
    rw [List.mem_range]
    rcases List.mem_cons.mp member with rfl | member
    · exact small
    · have positive := List.count_pos_iff.mpr member
      have bound := each x
      by_contra outside
      rw [if_neg outside] at bound
      omega
  have := (distinct.subperm inside).length_le
  rw [List.length_cons,List.length_range] at this
  exact this

/-- Changing one record of a family changes how many satisfy a test by that one. -/
theorem countP_update (p : α → Bool) (f : Nat → α) {l : List Nat} {i : Nat} (distinct : l.Nodup)
    (member : i ∈ l) (x : α) :
    l.countP (fun j => p (Function.update f i x j)) + (if p (f i) then 1 else 0) =
      l.countP (fun j => p (f j)) + if p x then 1 else 0 := by
  induction l with
  | nil => cases member
  | cons j rest ih =>
    obtain ⟨fresh,distinct⟩ := List.nodup_cons.mp distinct
    simp only [List.countP_cons]
    rcases List.mem_cons.mp member with rfl | member
    · have untouched : rest.countP (fun k => p (Function.update f i x k)) = rest.countP fun k => p (f k) := by
        apply List.countP_congr
        intro k inside
        rw [Function.update_of_ne]
        rintro rfl
        exact fresh inside
      rw [untouched,Function.update_self]
      omega
    · have different : j ≠ i := by
        rintro rfl
        exact fresh member
      have := ih distinct member
      rw [Function.update_of_ne different]
      omega

theorem sublist_of_positions {β : Type} {l : List β} (whole : List α) (position : β → Nat) (entry : β → α)
    (increasing : (l.map position).Pairwise (· < ·)) (found : ∀ x ∈ l, whole[position x]? = some (entry x)) :
    (l.map entry).Sublist whole := by
  have below (n : Nat) (bound : ∀ x ∈ l, position x < n) : (l.map entry).Sublist (whole.take n) := by
    induction l using List.reverseRecOn generalizing n with
    | nil => exact List.nil_sublist _
    | append_singleton l x ih =>
      rw [List.map_append,List.pairwise_append] at increasing
      have earlier : ∀ y ∈ l, position y < position x := by
        intro y member
        exact increasing.2.2 _ (List.mem_map_of_mem member) _ (by simp)
      have first := ih increasing.1 (fun y member => found y (List.mem_append_left _ member)) _ earlier
      have last : whole.take (position x + 1) = whole.take (position x) ++ [entry x] := by
        rw [List.take_add_one,found x (by simp)]
        rfl
      have within : position x + 1 ≤ n := bound x (by simp)
      rw [List.map_append,List.map_singleton]
      refine (first.append_right [entry x]).trans ?_
      rw [← last]
      exact (List.take_prefix_take_left within).sublist
  have inside : ∀ x ∈ l, position x < whole.length := by
    intro x member
    exact (List.getElem?_eq_some_iff.mp (found x member)).1
  simpa using below whole.length inside

end Counting
