import Mathlib.Data.List.Perm.Basic
import Mathlib.Logic.Function.Basic

/-! A heap, and the list of the blocks that a program owns in it. The list is exact: no block is in it
twice, and what is not in it is not live. -/
namespace Ownership

/-- The blocks from `next` on were not given out. `misused` is set by a release of a block, or an
access to one, that is not live. -/
structure Arena (V : Type) where
  next : Nat
  live : Nat → Option V
  misused : Bool

variable {V : Type}

def Arena.empty : Arena V := ⟨0,fun _ => none,false⟩

/-- A new block. -/
def Arena.acquire (h : Arena V) (v : V) : Nat × Arena V :=
  (h.next, { h with next := h.next + 1, live := Function.update h.live h.next (some v) })

def Arena.release (h : Arena V) (p : Nat) : Arena V :=
  { h with live := Function.update h.live p none, misused := h.misused || (h.live p).isNone }

def Arena.store (h : Arena V) (p : Nat) (v : V) : Arena V :=
  { h with live := Function.update h.live p (some v), misused := h.misused || (h.live p).isNone }

def Arena.fault (h : Arena V) : Arena V := { h with misused := true }

/-- The cells are the live blocks and what they hold. -/
structure Owns (h : Arena V) (cells : List (Nat × V)) : Prop where
  used : h.misused = false
  apart : (cells.map Prod.fst).Nodup
  exact : ∀ p v, h.live p = some v ↔ (p, v) ∈ cells
  given : ∀ p v, (p, v) ∈ cells → p < h.next

variable {h : Arena V} {cells cells' : List (Nat × V)} {p : Nat} {v w : V}

theorem owns_empty : Owns (Arena.empty : Arena V) [] :=
  ⟨rfl,List.nodup_nil,fun p v => by simp [Arena.empty],fun p v member => by simp at member⟩

theorem Owns.perm (owns : Owns h cells) (same : cells.Perm cells') : Owns h cells' :=
  ⟨owns.used,(same.map Prod.fst).nodup_iff.mp owns.apart,fun p v => (owns.exact p v).trans same.mem_iff,
    fun p v member => owns.given p v (same.mem_iff.mpr member)⟩

theorem Owns.recount [DecidableEq V] (owns : Owns h cells) (same : ∀ cell, cells.count cell = cells'.count cell) :
    Owns h cells' := owns.perm (List.perm_iff_count.mpr same)

theorem Owns.load (owns : Owns h cells) (member : (p, v) ∈ cells) : h.live p = some v := (owns.exact p v).mpr member

theorem Owns.nothing (owns : Owns h []) (p : Nat) : h.live p = none := by
  cases found : h.live p with
  | none => rfl
  | some v => cases (owns.exact p v).mp found

/-- Blocks of different owners are different. -/
theorem Owns.only (owns : Owns h ((p, v) :: cells)) (w : V) : (p, w) ∉ cells := fun member =>
  (List.nodup_cons.mp owns.apart).1 (List.mem_map.mpr ⟨(p, w),member,rfl⟩)

theorem Owns.acquire (owns : Owns h cells) (v : V) : Owns (h.acquire v).2 ((h.next, v) :: cells) := by
  have fresh (w : V) : (h.next, w) ∉ cells := fun member => Nat.lt_irrefl _ (owns.given _ _ member)
  refine ⟨owns.used,?_,fun q w => ?_,fun q w member => ?_⟩
  · refine List.nodup_cons.mpr ⟨fun member => ?_,owns.apart⟩
    obtain ⟨⟨q,w⟩,found,rfl⟩ := List.mem_map.mp member
    exact fresh w found
  · by_cases new : q = h.next
    · subst new
      simp [Arena.acquire,fresh,eq_comm]
    · simp [Arena.acquire,owns.exact,new]
  · rcases List.mem_cons.mp member with same | old
    · obtain ⟨rfl,-⟩ := Prod.mk.inj same
      exact Nat.lt_succ_self _
    · exact Nat.lt_succ_of_lt (owns.given q w old)

theorem Owns.release (owns : Owns h ((p, v) :: cells)) : Owns (h.release p) cells := by
  have live := owns.load List.mem_cons_self
  refine ⟨by simp [Arena.release,owns.used,live],(List.nodup_cons.mp owns.apart).2,fun q w => ?_,
    fun q w member => owns.given q w (List.mem_cons_of_mem _ member)⟩
  by_cases released : q = p
  · subst released
    simp [Arena.release,owns.only]
  · simp [Arena.release,owns.exact,released]

theorem Owns.store (owns : Owns h ((p, v) :: cells)) (w : V) : Owns (h.store p w) ((p, w) :: cells) := by
  have live := owns.load List.mem_cons_self
  refine ⟨by simp [Arena.store,owns.used,live],owns.apart,fun q x => ?_,fun q x member => ?_⟩
  · by_cases stored : q = p
    · subst stored
      simp [Arena.store,owns.only,eq_comm]
    · simp [Arena.store,owns.exact,stored]
  · rcases List.mem_cons.mp member with same | old
    · obtain ⟨rfl,-⟩ := Prod.mk.inj same
      exact owns.given q v List.mem_cons_self
    · exact owns.given q x (List.mem_cons_of_mem _ old)

/-- The place of an owner in a list, and what an update and a removal there leave. -/
theorem cut_at {A : Type} {l : List A} {i : Nat} {a : A} (found : l[i]? = some a) :
    ∃ front back, l = front ++ a :: back ∧ l.take i = front ∧ (∀ b, l.set i b = front ++ b :: back) ∧
      l.eraseIdx i = front ++ back := by
  obtain ⟨inside,rfl⟩ := List.getElem?_eq_some_iff.mp found
  have whole : l = l.take i ++ l[i] :: l.drop (i + 1) := by
    rw [← List.drop_eq_getElem_cons inside,List.take_append_drop]
  refine ⟨l.take i,l.drop (i + 1),whole,rfl,fun b => ?_,List.eraseIdx_eq_take_drop_succ ..⟩
  rw [List.set_eq_take_append_cons_drop,if_pos inside]

section Owners

variable {A : Type} [DecidableEq V] {l : List A} {i : Nat} {a : A}

/-- What the owners in a list own, with one of them apart. -/
theorem owners_at (owned : A → List (Nat × V)) (found : l[i]? = some a) (cell : Nat × V) :
    (l.flatMap owned).count cell = (owned a).count cell + ((l.eraseIdx i).flatMap owned).count cell := by
  obtain ⟨front,back,whole,-,-,erased⟩ := cut_at found
  rw [erased,whole]
  simp only [List.flatMap_append,List.flatMap_cons,List.count_append]
  omega

theorem owners_set (owned : A → List (Nat × V)) (found : l[i]? = some a) (b : A)
    (cell : Nat × V) :
    ((l.set i b).flatMap owned).count cell = (owned b).count cell + ((l.eraseIdx i).flatMap owned).count cell := by
  obtain ⟨front,back,whole,-,set,erased⟩ := cut_at found
  rw [erased,set]
  simp only [List.flatMap_append,List.flatMap_cons,List.count_append]
  omega

end Owners

end Ownership
