import Mathlib.Data.List.Basic
import Mathlib.Logic.Function.Basic
import Tcpeen.Library.BoundedList

/-! `tn_list_ptr_t`, the array that client_list_free is kept in. -/
namespace Tcpeen

open BoundedList (Op Reply)

structure ListPtr (α : Type) where
  data : Nat → α
  capacity : Nat
  index : Nat

namespace ListPtr

variable {α : Type}

def setup (data : Nat → α) (capacity : Nat) : ListPtr α := ⟨data, capacity, 0⟩

/-- `none` is `TN_ERROR`. -/
def pushBack (l : ListPtr α) (item : α) : Option (ListPtr α) :=
  if l.capacity ≤ l.index then none
  else some { l with data := Function.update l.data l.index item, index := l.index + 1 }

def popBack (l : ListPtr α) : Option (α × ListPtr α) :=
  if l.index = 0 then none
  else some (l.data (l.index - 1), { l with index := l.index - 1 })

/-- The live items, the last pushed at the end. -/
def items (l : ListPtr α) : List α := (List.range l.index).map l.data

@[simp] theorem setup_items (data : Nat → α) (capacity : Nat) : (setup data capacity).items = [] := rfl

@[simp] theorem items_length (l : ListPtr α) : l.items.length = l.index := by simp [items]

theorem pushBack_items {l l' : ListPtr α} {item : α} (pushed : l.pushBack item = some l') :
    l'.items = l.items ++ [item] ∧ l'.capacity = l.capacity := by
  simp only [pushBack] at pushed
  split at pushed
  · contradiction
  · obtain rfl := Option.some.inj pushed
    simp only [items,List.range_succ,List.map_append,List.map_cons,List.map_nil,Function.update_self]
    refine ⟨congrArg (· ++ [item]) (List.map_congr_left ?_),trivial⟩
    intro i inside
    rw [Function.update_of_ne]
    exact Nat.ne_of_lt (List.mem_range.mp inside)

theorem pushBack_isSome {l : ListPtr α} (item : α) (room : l.items.length < l.capacity) :
    ∃ l', l.pushBack item = some l' := by
  rw [items_length] at room
  exact ⟨_,if_neg (Nat.not_le.mpr room)⟩

theorem popBack_items {l l' : ListPtr α} {item : α} (popped : l.popBack = some (item, l')) :
    l.items = l'.items ++ [item] ∧ l'.capacity = l.capacity := by
  simp only [popBack] at popped
  split at popped
  · contradiction
  · next nonempty =>
    obtain ⟨rfl,rfl⟩ := Prod.mk.inj (Option.some.inj popped)
    refine ⟨?_,rfl⟩
    simp only [items]
    rw [← Nat.succ_pred_eq_of_ne_zero nonempty,List.range_succ]
    simp

def count (l : ListPtr α) : Nat := l.index

def clear (l : ListPtr α) : ListPtr α := { l with index := 0 }

def get (l : ListPtr α) (index : Nat) : α := l.data index

/-- The index is not compared with the number of items. -/
def remove (l : ListPtr α) (index : Nat) : Option (ListPtr α) :=
  if l.index = 0 then none
  else some { l with data := Function.update l.data index (l.data (l.index - 1)), index := l.index - 1 }

def step (l : ListPtr α) : Op α → ListPtr α × Reply α
  | .pushBack item =>
    match l.pushBack item with
    | none => (l, .error)
    | some l' => (l', .success)
  | .popBack =>
    match l.popBack with
    | none => (l, .error)
    | some (item, l') => (l', .item item)
  | .remove index =>
    match l.remove index with
    | none => (l, .error)
    | some l' => (l', .success)
  | .get index => (l, .item (l.get index))
  | .count => (l, .count l.count)
  | .clear => (l.clear, .success)

def run (ops : List (Op α)) (l : ListPtr α) : ListPtr α := ops.foldl (fun l op => (l.step op).1) l

variable {l l' : ListPtr α} {index : Nat}

theorem items_getElem? (inside : index < l.index) : l.items[index]? = some (l.data index) := by
  simp [items,inside]

theorem items_last (nonempty : l.index ≠ 0) : l.items = l.items.dropLast ++ [l.data (l.index - 1)] := by
  obtain ⟨rest,number⟩ := Nat.exists_eq_succ_of_ne_zero nonempty
  simp only [items,number,List.range_succ,List.map_append,List.map_singleton,List.dropLast_concat,
    Nat.succ_eq_add_one,Nat.add_sub_cancel]

/-- Wherever the hole is, also past the items. -/
theorem remove_items (index : Nat) (nonempty : l.index ≠ 0) :
    ∃ l', l.remove index = some l' ∧ l'.items = BoundedList.swapRemove l.items index ∧
      l'.capacity = l.capacity := by
  refine ⟨_,if_neg nonempty,?_,rfl⟩
  rw [items_last nonempty,BoundedList.swapRemove_append]
  apply List.ext_getElem
  · simp
  · intro i inside inside'
    rw [List.getElem_set]
    simp only [items,List.getElem_map,List.getElem_range,List.getElem_dropLast]
    rw [Function.update_apply]
    simp only [eq_comm]

theorem remove_empty (empty : l.index = 0) : l.remove index = none := if_pos empty

/-- As the bounded list of the items, for indices in use. -/
theorem step_refines {op : Op α} (inside : op.Inside l.count) :
    ((l.step op).1.items, (l.step op).2) = BoundedList.apply l.capacity l.items op ∧
      (l.step op).1.capacity = l.capacity := by
  cases op with
  | pushBack item =>
    by_cases full : l.capacity ≤ l.index
    · have refused : l.pushBack item = none := if_pos full
      simp [step,BoundedList.apply,refused,full]
    · obtain ⟨l',pushed⟩ := pushBack_isSome item (by rw [items_length]; exact Nat.not_le.mp full)
      obtain ⟨items,capacity⟩ := pushBack_items pushed
      simp [step,BoundedList.apply,pushed,full,items,capacity]
  | popBack =>
    by_cases empty : l.index = 0
    · have refused : l.popBack = none := if_pos empty
      simp [step,BoundedList.apply,refused,items,empty]
    · have popped : l.popBack = some (l.data (l.index - 1), { l with index := l.index - 1 }) := if_neg empty
      obtain ⟨items,capacity⟩ := popBack_items popped
      simp [step,BoundedList.apply,popped,items]
  | remove index =>
    have nonempty : l.index ≠ 0 := Nat.ne_of_gt (Nat.zero_lt_of_lt inside)
    obtain ⟨l',removed,items,capacity⟩ := remove_items index nonempty
    have inside' : index < l.index := inside
    simp [step,BoundedList.apply,removed,items,capacity,inside']
  | get index =>
    have found := items_getElem? (l := l) inside
    simp [step,BoundedList.apply,found,get]
  | count => simp [step,BoundedList.apply,count]
  | clear => exact ⟨rfl,rfl⟩

/-- `tn_list_ptr_remove` takes the item at the index away, and nothing where there is none. -/
structure Removes (l : ListPtr α) (index : Nat) : Prop where
  succeeds : (l.step (.remove index)).2 = .success ↔ index < l.count
  removed : ∀ item, l.items[index]? = some item →
    (l.items : Multiset α) = item ::ₘ (l.step (.remove index)).1.items
  refused : l.count ≤ index → l.step (.remove index) = (l, .error)

theorem removes_iff (l : ListPtr α) (index : Nat) : l.Removes index ↔ index < l.count ∨ l.count = 0 := by
  by_cases empty : l.index = 0
  · have refused : l.step (.remove index) = (l, .error) := by rw [step,remove_empty empty]
    refine ⟨fun _ => .inr empty,fun _ => ⟨?_,?_,fun _ => refused⟩⟩
    · simp [refused,count,empty]
    · intro item found
      simp [items,empty] at found
  · obtain ⟨l',removed,items,-⟩ := remove_items (l := l) index empty
    have done : l.step (.remove index) = (l', .success) := by rw [step,removed]
    constructor
    · intro removes
      exact .inl (removes.succeeds.mp (by rw [done]))
    · rintro (inside | none')
      · refine ⟨by simp [done,inside],?_,fun beyond => absurd inside (Nat.not_lt.mpr beyond)⟩
        intro item found
        rw [done,items]
        exact BoundedList.swapRemove_perm found
      · exact absurd none' empty

/-- For every list that any operations lead to and every index: exactly the item asked for is
removed, or nothing, if and only if the index is in use or the list is empty. -/
theorem remove_exact (data : Nat → α) (capacity : Nat) (ops : List (Op α)) (index : Nat) :
    (run ops (setup data capacity)).Removes index ↔
      index < (run ops (setup data capacity)).count ∨ (run ops (setup data capacity)).count = 0 :=
  removes_iff ..

/-- With one item in the list, the removal at index 1 takes it. -/
theorem remove_beyond :
    ¬ ∀ (data : Nat → Nat) (capacity : Nat) (ops : List (Op Nat)) (index : Nat),
      (run ops (setup data capacity)).Removes index := by
  intro always
  have removes := always (fun _ => 0) 2 [.pushBack 7] 1
  exact absurd (removes.succeeds.mp (by decide)) (by decide)

end ListPtr

end Tcpeen
