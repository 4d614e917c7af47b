import Mathlib.Data.List.Basic
import Mathlib.Data.List.Nodup
import Mathlib.Data.Nat.ModEq
import Mathlib.Logic.Function.Basic

/-! Robin Hood hashing on a ring of `n` slots: how far what a slot holds is from its home, the order that
searches rely on, and what insertion and backward shift deletion do to it. -/
namespace RobinHood

variable {A : Type} {n : Nat}

/-- How far a slot is behind a home. -/
def displacement (n home i : Nat) : Nat := (i + (n - home % n)) % n

section Ring

variable {home d e i : Nat}

theorem displacement_lt (positive : 0 < n) : displacement n home i < n := Nat.mod_lt _ positive

theorem home_displacement (inside : i < n) : (home + displacement n home i) % n = i := by
  have small : home % n < n := Nat.mod_lt _ (by omega)
  have whole := Nat.div_add_mod home n
  rw [displacement,Nat.add_mod_mod,show home + (i + (n - home % n)) = i + n * (home / n) + n by omega,Nat.add_mod_right,
    Nat.add_mul_mod_self_left,Nat.mod_eq_of_lt inside]

theorem ahead_injective (short : d < n) (short' : e < n) (same : (home + d) % n = (home + e) % n) : d = e :=
  (Nat.ModEq.add_left_cancel' home same).eq_of_lt_of_lt short short'

theorem displacement_of (short : d < n) : displacement n home ((home + d) % n) = d := by
  have positive : 0 < n := by omega
  exact ahead_injective (displacement_lt positive) short (home_displacement (Nat.mod_lt _ positive))

/-- One slot nearer to the home. -/
theorem displacement_pred (inside : i < n) (away : displacement n home ((i + 1) % n) ≠ 0) :
    displacement n home i + 1 = displacement n home ((i + 1) % n) := by
  have positive : 0 < n := by omega
  have bound : displacement n home ((i + 1) % n) < n := displacement_lt positive
  have there : (home + displacement n home ((i + 1) % n)) % n = (i + 1) % n := home_displacement (Nat.mod_lt _ positive)
  obtain ⟨e,some'⟩ := Nat.exists_eq_succ_of_ne_zero away
  rw [some',Nat.succ_eq_add_one,← Nat.add_assoc] at there
  have here : (home + e) % n = i := by
    have same : (home + e) % n = i % n := Nat.ModEq.add_right_cancel' 1 there
    rw [same,Nat.mod_eq_of_lt inside]
  rw [some',← here,displacement_of (by omega)]

theorem next_ne (two : 2 ≤ n) (inside : i < n) : (i + 1) % n ≠ i := by
  by_cases last : i + 1 < n
  · rw [Nat.mod_eq_of_lt last]
    omega
  · rw [show i + 1 = n by omega,Nat.mod_self]
    omega

/-- Of all slots one is in front of a slot. -/
theorem prev_unique {k : Nat} (inside : i < n) (inside' : k < n) (same : (i + 1) % n = (k + 1) % n) : i = k :=
  (Nat.ModEq.add_right_cancel' 1 same).eq_of_lt_of_lt inside inside'

end Ring

/-- 0 for an empty slot, and one more than the displacement of what a slot holds. -/
def rank (home : A → Nat) (n : Nat) (slots : Nat → Option A) (i : Nat) : Nat :=
  match slots i with
  | none => 0
  | some a => displacement n (home a) i + 1

/-- No slot is more than one further from its home than the one in front of it. -/
def Ordered (home : A → Nat) (n : Nat) (slots : Nat → Option A) : Prop :=
  ∀ i < n, rank home n slots ((i + 1) % n) ≤ rank home n slots i + 1

section Order

variable {home : A → Nat} {slots : Nat → Option A} {i : Nat} {a : A}

theorem rank_some (held : slots i = some a) : rank home n slots i = displacement n (home a) i + 1 := by
  rw [rank,held]

theorem rank_none (empty : slots i = none) : rank home n slots i = 0 := by
  rw [rank,empty]

theorem rank_update_ne {k : Nat} {x : Option A} (apart : k ≠ i) :
    rank home n (Function.update slots i x) k = rank home n slots k := by
  rw [rank,Function.update_of_ne apart]
  rfl

/-- A search from the home of what a slot holds is not stopped in front of it. -/
theorem Ordered.reaches (ordered : Ordered home n slots) (positive : 0 < n) {h d : Nat}
    (far : d + 1 ≤ rank home n slots ((h + d) % n)) : ∀ p ≤ d, p + 1 ≤ rank home n slots ((h + p) % n) := by
  induction d with
  | zero =>
    intro p first
    obtain rfl := Nat.le_zero.mp first
    exact far
  | succ d ih =>
    have step := ordered ((h + d) % n) (Nat.mod_lt _ positive)
    rw [Nat.mod_add_mod,Nat.add_assoc] at step
    intro p near
    rcases Nat.lt_or_eq_of_le near with before | rfl
    · exact ih (by omega) p (by omega)
    · exact far

/-- Where a slot is empty nothing has gone all the way round. -/
theorem Ordered.rank_lt (ordered : Ordered home n slots) {j : Nat} (empty : slots j = none) (inside : j < n)
    (inside' : i < n) : rank home n slots i < n := by
  have positive : 0 < n := by omega
  by_contra round
  have back : (i + 1 + (n - 1)) % n = i := by
    rw [show i + 1 + (n - 1) = i + n by omega,Nat.add_mod_right,Nat.mod_eq_of_lt inside']
  have short : displacement n (i + 1) j < n := displacement_lt positive
  have reached := ordered.reaches positive (h := i + 1) (d := n - 1) (by rw [back]; omega) (displacement n (i + 1) j)
    (by omega)
  rw [home_displacement inside,rank_none empty] at reached
  omega

/-- What has the same home may take the place of another. -/
theorem Ordered.replace (ordered : Ordered home n slots) {b : A} (held : slots i = some a) (same : home b = home a) :
    Ordered home n (Function.update slots i (some b)) := by
  have kept (k : Nat) : rank home n (Function.update slots i (some b)) k = rank home n slots k := by
    by_cases here : k = i
    · rw [here,rank_some (Function.update_self ..),rank_some held,same]
    · exact rank_update_ne here
  intro k place
  rw [kept,kept]
  exact ordered k place

/-- What is further from home than the slot's own may take the slot. -/
theorem Ordered.place (ordered : Ordered home n slots) (two : 2 ≤ n) (inside : i < n)
    (low : rank home n slots i ≤ displacement n (home a) i)
    (before : ∀ k < n, (k + 1) % n = i → displacement n (home a) i ≤ rank home n slots k) :
    Ordered home n (Function.update slots i (some a)) := by
  have own : rank home n (Function.update slots i (some a)) i = displacement n (home a) i + 1 :=
    rank_some (Function.update_self ..)
  intro k place
  by_cases here : k = i
  · subst here
    rw [own,rank_update_ne (next_ne two place)]
    have step := ordered k place
    omega
  · rw [rank_update_ne here]
    by_cases next : (k + 1) % n = i
    · rw [next,own]
      have near := before k place next
      omega
    · rw [rank_update_ne next]
      exact ordered k place

/-- A slot that was emptied. What is behind it may be moved into it. -/
structure Hole (home : A → Nat) (n : Nat) (slots : Nat → Option A) (i : Nat) : Prop where
  empty : slots i = none
  step : ∀ k < n, k ≠ i → rank home n slots ((k + 1) % n) ≤ rank home n slots k + 1
  near : ∀ k < n, (k + 1) % n = i → rank home n slots ((i + 1) % n) ≤ rank home n slots k + 2

theorem Ordered.hole (ordered : Ordered home n slots) (two : 2 ≤ n) (inside : i < n) :
    Hole home n (Function.update slots i none) i := by
  have own : rank home n (Function.update slots i none) i = 0 := rank_none (Function.update_self ..)
  refine ⟨Function.update_self ..,fun k place here => ?_,fun k place next => ?_⟩
  · rw [rank_update_ne here]
    by_cases next : (k + 1) % n = i
    · rw [next,own]
      exact Nat.zero_le _
    · rw [rank_update_ne next]
      exact ordered k place
  · have apart : k ≠ i := fun same => next_ne two inside (same ▸ next)
    have first := ordered k place
    have second := ordered i inside
    rw [next] at first
    rw [rank_update_ne apart,rank_update_ne (next_ne two inside)]
    omega

/-- Behind the hole is nothing, or something at home. -/
theorem Hole.ordered (hole : Hole home n slots i) (home' : rank home n slots ((i + 1) % n) ≤ 1) :
    Ordered home n slots := by
  intro k place
  by_cases here : k = i
  · subst here
    omega
  · exact hole.step k place here

/-- What is behind the hole moves into it. -/
theorem Hole.shift (hole : Hole home n slots i) (two : 2 ≤ n) (inside : i < n)
    (held : slots ((i + 1) % n) = some a) (away : displacement n (home a) ((i + 1) % n) ≠ 0) :
    Hole home n (Function.update (Function.update slots i (some a)) ((i + 1) % n) none) ((i + 1) % n) := by
  have apart := next_ne two inside
  have inside' : (i + 1) % n < n := Nat.mod_lt _ (by omega)
  have apart' := next_ne two inside'
  have nearer := displacement_pred inside away
  have was : rank home n slots ((i + 1) % n) = displacement n (home a) ((i + 1) % n) + 1 := rank_some held
  have moved : rank home n (Function.update (Function.update slots i (some a)) ((i + 1) % n) none) i =
      displacement n (home a) ((i + 1) % n) := by
    rw [rank_update_ne apart.symm,rank_some (Function.update_self ..),nearer]
  have gone : rank home n (Function.update (Function.update slots i (some a)) ((i + 1) % n) none) ((i + 1) % n) = 0 :=
    rank_none (Function.update_self ..)
  have others {k : Nat} (here : k ≠ i) (next : k ≠ (i + 1) % n) :
      rank home n (Function.update (Function.update slots i (some a)) ((i + 1) % n) none) k = rank home n slots k := by
    rw [rank_update_ne next,rank_update_ne here]
  refine ⟨Function.update_self ..,fun k place next => ?_,fun k place next => ?_⟩
  · by_cases here : k = i
    · subst here
      rw [gone]
      exact Nat.zero_le _
    · rw [others here next]
      by_cases front : (k + 1) % n = i
      · have room := hole.near k place front
        rw [front,moved]
        omega
      · by_cases same : (k + 1) % n = (i + 1) % n
        · exact absurd (prev_unique place inside same) here
        · rw [others front same]
          exact hole.step k place here
  · obtain rfl := prev_unique place inside next
    rw [moved]
    by_cases ring : ((k + 1) % n + 1) % n = k
    · rw [ring,moved]
      omega
    · rw [others ring apart']
      have step := hole.step _ inside' apart
      omega

end Order

/-! ### What the slots hold -/

/-- All that the slots hold. -/
def members (n : Nat) (slots : Nat → Option A) : List A := (List.range n).filterMap slots

section Members

variable {slots : Nat → Option A} {i : Nat} {x : Option A} {a : A}

theorem mem_members : a ∈ members n slots ↔ ∃ i < n, slots i = some a := by
  simp [members]

/-- An update exchanges one member for another. -/
theorem members_update (inside : i < n) :
    ((slots i).toList ++ members n (Function.update slots i x)).Perm (x.toList ++ members n slots) := by
  have split : List.range n = List.range i ++ i :: List.range' (i + 1) (n - (i + 1)) := by
    have tail : i :: List.range' (i + 1) (n - (i + 1)) = List.range' i (n - i) := by
      rw [← List.range'_succ,show n - (i + 1) + 1 = n - i by omega]
    rw [tail,List.range_eq_range',List.range_eq_range']
    have joined := List.range'_append_1 (s := 0) (m := i) (n := n - i)
    rw [Nat.zero_add,show i + (n - i) = n by omega] at joined
    exact joined.symm
  have front : (List.range i).filterMap (Function.update slots i x) = (List.range i).filterMap slots :=
    List.filterMap_congr fun k member => Function.update_of_ne (by have := List.mem_range.mp member; omega) ..
  have back : (List.range' (i + 1) (n - (i + 1))).filterMap (Function.update slots i x) =
      (List.range' (i + 1) (n - (i + 1))).filterMap slots :=
    List.filterMap_congr fun k member => Function.update_of_ne (by have := (List.mem_range'_1.mp member).1; omega) ..
  have cons (f : Nat → Option A) (l : List Nat) : (i :: l).filterMap f = (f i).toList ++ l.filterMap f := by
    rw [List.filterMap_cons]
    cases f i <;> rfl
  rw [members,members,split,List.filterMap_append,List.filterMap_append,front,cons,cons,back,Function.update_self]
  refine (List.perm_append_comm_assoc ..).trans ?_
  refine List.Perm.trans ?_ (List.perm_append_comm_assoc ..).symm
  exact (List.perm_append_comm_assoc ..).append_left _

/-- Where fewer are held than there are slots, one is empty. -/
theorem exists_empty (few : (members n slots).length < n) : ∃ i < n, slots i = none := by
  by_contra full
  have held : ∀ i ∈ List.range n, (slots i).isSome = true := by
    intro i member
    by_contra empty
    exact full ⟨i,List.mem_range.mp member,by simpa using empty⟩
  have all : (members n slots).length = n := by
    rw [members,List.filterMap_length_eq_length.mpr held,List.length_range]
  omega

end Members

/-! ### A table as a map -/

section Lookup

variable {K V : Type} [DecidableEq K] {key : A → K} {value : A → V} {l l' : List A} {a : A} {k : K}

def lookup (key : A → K) (value : A → V) (l : List A) (k : K) : Option V := (l.find? fun a => key a = k).map value

theorem lookup_eq_none : lookup key value l k = none ↔ k ∉ l.map key := by
  simp [lookup]

theorem lookup_member (unique : (l.map key).Nodup) (member : a ∈ l) : lookup key value l (key a) = some (value a) := by
  induction l with
  | nil => cases member
  | cons b l ih =>
    obtain ⟨fresh,unique'⟩ := List.nodup_cons.mp unique
    rcases List.mem_cons.mp member with rfl | old
    · simp [lookup]
    · have apart : key b ≠ key a := fun same => fresh (same ▸ List.mem_map_of_mem old)
      have rest := ih unique' old
      rw [lookup] at rest ⊢
      rw [List.find?_cons_of_neg (by simpa using apart)]
      exact rest

theorem lookup_perm (unique : (l.map key).Nodup) (same : l.Perm l') : lookup key value l = lookup key value l' := by
  funext k
  by_cases held : k ∈ l.map key
  · obtain ⟨a,member,rfl⟩ := List.mem_map.mp held
    rw [lookup_member unique member,lookup_member ((same.map key).nodup_iff.mp unique) (same.mem_iff.mp member)]
  · rw [lookup_eq_none.mpr held,lookup_eq_none.mpr (mt (same.map key).mem_iff.mpr held)]

/-- A member more is a key more. -/
theorem lookup_cons (a : A) (l : List A) :
    lookup key value (a :: l) = Function.update (lookup key value l) (key a) (some (value a)) := by
  funext k
  by_cases own : k = key a
  · subst own
    simp [lookup]
  · rw [Function.update_of_ne own,lookup,List.find?_cons_of_neg (by simpa using Ne.symm own)]
    rfl

/-- Without it the key is gone. -/
theorem lookup_erased (unique : ((a :: l).map key).Nodup) :
    lookup key value l = Function.update (lookup key value (a :: l)) (key a) none := by
  have gone : lookup key value l (key a) = none := lookup_eq_none.mpr (List.nodup_cons.mp unique).1
  rw [lookup_cons,Function.update_idem,← gone,Function.update_eq_self]

end Lookup

end RobinHood
