import Mathlib.Data.List.Basic
import Mathlib.Data.Multiset.Basic

/-! A list with a largest length, taken from at the end and by swap-removal: the last
item fills the hole. -/
namespace BoundedList

variable {α β : Type}

def swapRemove (xs : List α) (index : Nat) : List α :=
  match xs.getLast? with
  | none => []
  | some last => (xs.set index last).dropLast

theorem swapRemove_append (xs : List α) (last : α) (index : Nat) :
    swapRemove (xs ++ [last]) index = xs.set index last := by
  simp only [swapRemove,List.getLast?_append,List.getLast?_singleton,Option.some_or,List.set_append]
  split
  · exact List.dropLast_concat
  · next beyond =>
    rw [List.set_eq_of_length_le (Nat.not_lt.mp beyond)]
    cases index - xs.length with
    | zero => exact List.dropLast_concat
    | succ _ => exact List.dropLast_concat

/-- One occurrence of the item at the index is gone, and nothing else. -/
theorem swapRemove_perm {xs : List α} {index : Nat} {item : α} (found : xs[index]? = some item) :
    (xs : Multiset α) = item ::ₘ swapRemove xs index := by
  rcases List.eq_nil_or_concat xs with rfl | ⟨front,last,rfl⟩
  · simp at found
  · rw [List.concat_eq_append] at found ⊢
    rw [swapRemove_append,Multiset.cons_coe,Multiset.coe_eq_coe]
    have all : (front ++ [last]).Perm (last :: front) := List.perm_append_comm
    by_cases inside : index < front.length
    · rw [List.getElem?_append_left inside,List.getElem?_eq_getElem inside,Option.some.injEq] at found
      subst found
      have whole := List.getElem_cons_eraseIdx_perm inside
      have filled := List.set_perm_cons_eraseIdx inside last
      calc (front ++ [last]).Perm (last :: front) := all
        _ |>.Perm (last :: front[index] :: front.eraseIdx index) := whole.symm.cons last
        _ |>.Perm (front[index] :: last :: front.eraseIdx index) := .swap ..
        _ |>.Perm (front[index] :: front.set index last) := filled.symm.cons _
    · have place := List.getElem?_eq_some_iff.mp found
      obtain ⟨bound,value⟩ := place
      rw [List.length_append,List.length_singleton] at bound
      obtain rfl : index = front.length := by omega
      rw [List.getElem_concat_length rfl] at value
      subst value
      rw [List.set_eq_of_length_le (Nat.le_refl _)]
      exact all

inductive Op (α : Type) where
  | pushBack (item : α)
  | popBack
  | remove (index : Nat)
  | get (index : Nat)
  | count
  | clear
  deriving DecidableEq, Repr

inductive Reply (α : Type) where
  | success
  | error
  | item (value : α)
  | count (number : Nat)
  deriving DecidableEq, Repr

def Op.map (f : α → β) : Op α → Op β
  | .pushBack item => .pushBack (f item)
  | .popBack => .popBack
  | .remove index => .remove index
  | .get index => .get index
  | .count => .count
  | .clear => .clear

def Reply.map (f : α → β) : Reply α → Reply β
  | .success => .success
  | .error => .error
  | .item value => .item (f value)
  | .count number => .count number

/-- Indices name live items. -/
def Op.Inside (length : Nat) : Op α → Prop
  | .remove index => index < length
  | .get index => index < length
  | _ => True

def apply (capacity : Nat) (xs : List α) : Op α → List α × Reply α
  | .pushBack item => if capacity ≤ xs.length then (xs, .error) else (xs ++ [item], .success)
  | .popBack =>
    match xs.getLast? with
    | none => (xs, .error)
    | some item => (xs.dropLast, .item item)
  | .remove index => if index < xs.length then (swapRemove xs index, .success) else (xs, .error)
  | .get index =>
    match xs[index]? with
    | none => (xs, .error)
    | some item => (xs, .item item)
  | .count => (xs, .count xs.length)
  | .clear => ([], .success)

/-- Renaming the items renames what is returned. -/
theorem apply_map (f : α → β) (capacity : Nat) (xs : List α) (op : Op α) :
    apply capacity (xs.map f) (op.map f) =
      ((apply capacity xs op).1.map f, (apply capacity xs op).2.map f) := by
  cases op with
  | pushBack item =>
    simp only [apply,Op.map,List.length_map]
    split <;> simp [Reply.map]
  | popBack =>
    simp only [apply,Op.map,List.getLast?_map]
    cases xs.getLast? <;> simp [Reply.map]
  | remove index =>
    simp only [apply,Op.map,List.length_map,swapRemove,List.getLast?_map]
    split
    · cases xs.getLast? <;> simp [Reply.map,List.map_set]
    · rfl
  | get index =>
    simp only [apply,Op.map,List.getElem?_map]
    cases xs[index]? <;> rfl
  | count => simp [apply,Op.map,Reply.map]
  | clear => rfl

end BoundedList
