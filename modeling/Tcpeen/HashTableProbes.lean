import Tcpeen.HashTable

/-! The loops of hash_table.c: where a search ends, what an insertion displaces and what a deletion shifts back. -/
namespace Tcpeen.HashTable

open RobinHood Tcpeen.Map

/-- Where a search for an entry starts. -/
def home (e : Entry) : Nat := e.hashCode.toNat

/-- The sizes that a table has in a block as long as they say. -/
structure Shaped (s : TableState) : Prop where
  power : ∃ k, 1 ≤ k ∧ k < 32 ∧ s.size.toNat = 2 ^ k
  mask : s.mask.toNat = s.size.toNat - 1
  room : s.room = s.size.toNat

section Arithmetic

variable {s : TableState} {i : Nat}

theorem Shaped.two (shaped : Shaped s) : 2 ≤ s.size.toNat := by
  obtain ⟨k,low,-,size⟩ := shaped.power
  rw [size]
  exact (Nat.pow_one 2).symm.le.trans (Nat.pow_le_pow_right Nat.two_pos low)

theorem Shaped.masked (shaped : Shaped s) (x : UInt64) : (x &&& s.mask).toNat = x.toNat % s.size.toNat := by
  obtain ⟨k,-,-,size⟩ := shaped.power
  rw [UInt64.toNat_and,shaped.mask,size,Nat.and_two_pow_sub_one_eq_mod]

theorem Shaped.divides (shaped : Shaped s) : s.size.toNat ∣ 2 ^ 64 := by
  obtain ⟨k,-,high,size⟩ := shaped.power
  rw [size]
  exact Nat.pow_dvd_pow 2 (by omega)

theorem Shaped.index (shaped : Shaped s) (h : UInt64) (p : Nat) :
    s.index h p = (h.toNat + p) % s.size.toNat := by
  rw [Template.index,shaped.masked,UInt64.toNat_add,Nat.mod_mod_of_dvd _ shaped.divides,UInt64.toNat_ofNat',Nat.add_mod,
    Nat.mod_mod_of_dvd _ shaped.divides,← Nat.add_mod]

theorem Shaped.entryProbe (shaped : Shaped s) (inside : i < s.size.toNat) (e : Entry) :
    s.entryProbe i e = displacement s.size.toNat (home e) i := by
  obtain ⟨m,whole⟩ := shaped.divides
  have two := shaped.two
  have small : i < 2 ^ 64 := inside.trans s.size.toNat_lt
  have bound : e.hashCode.toNat < 2 ^ 64 := e.hashCode.toNat_lt
  have rest : e.hashCode.toNat % s.size.toNat < s.size.toNat := Nat.mod_lt _ (by omega)
  have parts := Nat.div_add_mod e.hashCode.toNat s.size.toNat
  have quotient : e.hashCode.toNat / s.size.toNat + 1 ≤ m := by
    refine Nat.succ_le_of_lt ((Nat.div_lt_iff_lt_mul (by omega)).mpr ?_)
    rwa [Nat.mul_comm,← whole]
  obtain ⟨c,split⟩ := Nat.exists_eq_add_of_le quotient
  have same : 2 ^ 64 - e.hashCode.toNat + i =
      s.size.toNat * c + (i + (s.size.toNat - e.hashCode.toNat % s.size.toNat)) := by
    rw [whole,split,Nat.mul_add,Nat.mul_add,Nat.mul_one]
    omega
  rw [Template.entryProbe,shaped.masked,UInt64.toNat_sub,Nat.mod_mod_of_dvd _ shaped.divides,UInt64.toNat_ofNat',
    Nat.mod_eq_of_lt small,same,Nat.mul_add_mod]
  rfl

theorem Shaped.slot (shaped : Shaped s) (inside : i < s.size.toNat) : s.slot i = some (s.slots i) :=
  if_pos (shaped.room ▸ inside)

theorem Shaped.store (shaped : Shaped s) (i : Nat) (e : Option Entry) : Shaped (s.store i e) :=
  ⟨shaped.power,shaped.mask,shaped.room⟩

end Arithmetic

theorem store_store {s : TableState} {i : Nat} {x y : Option Entry} : (s.store i x).store i y = s.store i y := by
  simp [TableState.store]

/-! ### Searches -/

/-- All that a table holds. -/
def TableState.entries (s : TableState) : List Entry := members s.size.toNat s.slots

/-- What a search goes past: another entry that is not nearer to its home. -/
def Passed (s : TableState) (h : UInt64) (key : Pointer) (q : Nat) : Prop :=
  ∃ e, s.slots ((h.toNat + q) % s.size.toNat) = some e ∧ ¬ (e.hashCode = h ∧ e.key = key) ∧
    q + 1 ≤ rank home s.size.toNat s.slots ((h.toNat + q) % s.size.toNat)

/-- How a search ends. -/
structure Search (s : TableState) (h : UInt64) (key : Pointer) (found : Bool) (i p : Nat) : Prop where
  place : i = (h.toNat + p) % s.size.toNat
  short : p < s.size.toNat
  passed : ∀ q < p, Passed s h key q
  hit : found = true → ∃ e, s.slots i = some e ∧ e.hashCode = h ∧ e.key = key
  miss : found = false → rank home s.size.toNat s.slots i ≤ p

section Find

variable {s : TableState} {h : UInt64} {key : Pointer}

theorem findEntry1_search (shaped : Shaped s) {d : Nat} (short : d < s.size.toNat)
    (empty : s.slots ((h.toNat + d) % s.size.toNat) = none) (fuel probe : Nat) (near : probe ≤ d)
    (enough : d < probe + fuel) (passed : ∀ q < probe, Passed s h key q) :
    ∃ found i p, sFindEntry1 s h key fuel probe = some (found, i, p) ∧ Search s h key found i p := by
  induction fuel generalizing probe with
  | zero => omega
  | succ fuel ih =>
    have inside : (h.toNat + probe) % s.size.toNat < s.size.toNat := Nat.mod_lt _ (by omega)
    rw [sFindEntry1,shaped.index,shaped.slot inside]
    cases held : s.slots ((h.toNat + probe) % s.size.toNat) with
    | none =>
      exact ⟨_,_,_,rfl,rfl,by omega,passed,fun no => absurd no (by decide),fun _ => by rw [rank_none held]; omega⟩
    | some e =>
      dsimp only
      have own : rank home s.size.toNat s.slots _ = _ := rank_some held
      rw [shaped.entryProbe inside]
      split
      · next same => exact ⟨_,_,_,rfl,rfl,by omega,passed,fun _ => ⟨e,held,same⟩,fun no => absurd no (by decide)⟩
      · next other =>
        split
        · next nearer =>
          exact ⟨_,_,_,rfl,rfl,by omega,passed,fun no => absurd no (by decide),fun _ => by omega⟩
        · next further =>
          have apart : probe ≠ d := fun same => by rw [same,empty] at held; cases held
          refine ih (probe + 1) (by omega) (by omega) fun q before => ?_
          rcases Nat.lt_succ_iff_lt_or_eq.mp before with old | rfl
          · exact passed q old
          · exact ⟨e,held,other,by omega⟩

theorem findEntry_search (shaped : Shaped s) {j : Nat} (inside : j < s.size.toNat) (empty : s.slots j = none) :
    ∃ found i p, sFindEntry s h key = some (found, i, p) ∧ Search s h key found i p := by
  have positive : 0 < s.size.toNat := by omega
  have first : h.toNat % s.size.toNat < s.size.toNat := Nat.mod_lt _ positive
  have there : s.slots ((h.toNat + displacement s.size.toNat h.toNat j) % s.size.toNat) = none := by
    rw [home_displacement inside,empty]
  have short : displacement s.size.toNat h.toNat j < s.size.toNat := displacement_lt positive
  have none' (q : Nat) (before : q < 0) : Passed s h key q := absurd before (Nat.not_lt_zero q)
  rw [sFindEntry,shaped.masked,shaped.slot first]
  cases held : s.slots (h.toNat % s.size.toNat) with
  | none =>
    exact ⟨_,_,_,rfl,rfl,positive,none',fun no => absurd no (by decide),fun _ => by rw [rank_none held]⟩
  | some e =>
    dsimp only
    split
    · next same => exact ⟨_,_,_,rfl,rfl,positive,none',fun _ => ⟨e,held,same⟩,fun no => absurd no (by decide)⟩
    · next other =>
      have apart : displacement s.size.toNat h.toNat j ≠ 0 := fun home' => by
        rw [home',Nat.add_zero,held] at there
        cases there
      refine findEntry1_search shaped short there _ 1 (by omega) (by omega) fun q before => ?_
      obtain rfl : q = 0 := by omega
      refine ⟨e,held,other,?_⟩
      simp only [Nat.add_zero,rank_some held]
      omega

/-- A search that ends without the key would have met it. -/
theorem Search.absent {i p : Nat} (search : Search s h key false i p) (ordered : Ordered home s.size.toNat s.slots)
    {e : Entry} (member : e ∈ s.entries) (same : e.hashCode = h) : e.key ≠ key := by
  intro equal
  obtain ⟨j,inside,held⟩ := mem_members.mp member
  have positive : 0 < s.size.toNat := by omega
  have there : (h.toNat + displacement s.size.toNat h.toNat j) % s.size.toNat = j := home_displacement inside
  have own : rank home s.size.toNat s.slots j = displacement s.size.toNat h.toNat j + 1 := by
    rw [rank_some held,home,same]
  rcases Nat.lt_or_ge (displacement s.size.toNat h.toNat j) p with behind | ahead
  · obtain ⟨e',held',other,-⟩ := search.passed _ behind
    rw [there,held] at held'
    cases held'
    exact other ⟨same,equal⟩
  · have reached := ordered.reaches positive (by rw [there,own]) p ahead
    have low := search.miss rfl
    rw [search.place] at low
    omega

end Find

/-! ### Insertion -/

/-- What `s_emplace_item` leaves behind, from the slot `i` on and with the first empty slot `d` further. -/
structure Emplaced (s : TableState) (e : Entry) (i d : Nat) (s' : TableState) : Prop where
  rest : s' = { s with slots := s'.slots }
  ordered : Ordered home s.size.toNat s'.slots
  entries : s'.entries.Perm (e :: s.entries)
  frame : ∀ j, (∀ q ≤ d, (i + q) % s.size.toNat ≠ j) → s'.slots j = s.slots j

section Insert

variable {s : TableState} {e : Entry} {i p d : Nat}

theorem stored_entries (inside : i < s.size.toNat) (x : Option Entry) :
    ((s.slots i).toList ++ (s.store i x).entries).Perm (x.toList ++ s.entries) := members_update inside

theorem emplaceItem_emplaced (shaped : Shaped s) (ordered : Ordered home s.size.toNat s.slots) (fuel : Nat)
    (place : (home e + p) % s.size.toNat = i) (short : p < s.size.toNat) (near : d < s.size.toNat) (enough : d < fuel)
    (empty : s.slots ((i + d) % s.size.toNat) = none)
    (before : ∀ k < s.size.toNat, (k + 1) % s.size.toNat = i → p ≤ rank home s.size.toNat s.slots k)
    (initial : Option Nat) :
    ∃ s' elem, sEmplaceItem fuel s e p initial = some (s', elem) ∧ Emplaced s e i d s' ∧ elem = initial.getD elem ∧
      (initial = none → elem < s.size.toNat ∧ s'.slots elem = some e) := by
  induction fuel generalizing s e i p d initial with
  | zero => omega
  | succ fuel ih =>
    have two := shaped.two
    have inside : i < s.size.toNat := place ▸ Nat.mod_lt _ (by omega)
    have own : displacement s.size.toNat (home e) i = p := by rw [← place,displacement_of short]
    have found : s.index e.hashCode p = i := (shaped.index ..).trans place
    rw [sEmplaceItem,found,shaped.slot inside]
    cases held : s.slots i with
    | none =>
      have ordered' := ordered.place two inside (a := e) (by rw [rank_none held]; omega) (by rwa [own])
      have entries := stored_entries inside (some e)
      rw [held] at entries
      refine ⟨_,_,rfl,⟨rfl,ordered',entries,fun j apart => Function.update_of_ne ?_ ..⟩,?_,?_⟩
      · have here := apart 0 (Nat.zero_le _)
        rw [Nat.add_zero,Nat.mod_eq_of_lt inside] at here
        exact here.symm
      · cases initial <;> rfl
      · rintro rfl
        exact ⟨inside,Function.update_self ..⟩
    | some victim =>
      dsimp only
      rw [shaped.entryProbe inside]
      have rank' : rank home s.size.toNat s.slots i = displacement s.size.toNat (home victim) i + 1 := rank_some held
      have bound := ordered.rank_lt empty (Nat.mod_lt _ (by omega)) inside
      obtain ⟨d,rfl⟩ : ∃ c, d = c + 1 := Nat.exists_eq_succ_of_ne_zero fun zero => by
        rw [zero,Nat.add_zero,Nat.mod_eq_of_lt inside,held] at empty
        cases empty
      have onward : ((i + 1) % s.size.toNat + d) % s.size.toNat = (i + (d + 1)) % s.size.toNat := by
        rw [Nat.mod_add_mod,Nat.add_assoc,Nat.add_comm 1 d]
      have ahead (q : Nat) (close : q ≤ d) : ((i + 1) % s.size.toNat + q) % s.size.toNat ≠ i := by
        intro same
        rw [Nat.mod_add_mod,Nat.add_assoc] at same
        have round : (i + (1 + q)) % s.size.toNat = (i + 0) % s.size.toNat := by
          rw [same,Nat.add_zero,Nat.mod_eq_of_lt inside]
        have zero : 1 + q = 0 := ahead_injective (by omega) (by omega) round
        omega
      split
      · next richer =>
        have low : rank home s.size.toNat s.slots i ≤ displacement s.size.toNat (home e) i := by omega
        have ordered' := ordered.place two inside low (by rwa [own])
        have own' : rank home s.size.toNat (s.store i (some e)).slots i = p + 1 := by
          rw [← own]
          exact rank_some (Function.update_self ..)
        obtain ⟨s',elem,run,⟨rest,sorted,entries,frame⟩,kept,-⟩ := ih (s := s.store i (some e)) (e := victim)
          (i := (i + 1) % s.size.toNat) (d := d) (shaped.store ..) ordered'
          (by
            show (home victim + (displacement s.size.toNat (home victim) i + 1)) % s.size.toNat = _
            rw [← Nat.add_assoc,← Nat.mod_add_mod,home_displacement inside])
          (by show _ < s.size.toNat; omega) (by show d < s.size.toNat; omega) (by omega)
          (by
            show Function.update s.slots i (some e) (((i + 1) % s.size.toNat + d) % s.size.toNat) = none
            rw [Function.update_of_ne (ahead d le_rfl),onward,empty])
          (by
            intro k place' next'
            obtain rfl := prev_unique place' inside next'
            rw [show rank home (s.store k (some e)).size.toNat _ k = p + 1 from own']
            omega)
          (some (initial.getD i))
        have swapped := stored_entries inside (some e)
        rw [held] at swapped
        refine ⟨s',elem,run,⟨rest,sorted,entries.trans swapped,fun j apart => ?_⟩,?_,?_⟩
        · have there := frame j fun q close => by
            show ((i + 1) % s.size.toNat + q) % s.size.toNat ≠ j
            rw [Nat.mod_add_mod,Nat.add_assoc]
            exact apart (1 + q) (by omega)
          have here := apart 0 (Nat.zero_le _)
          rw [Nat.add_zero,Nat.mod_eq_of_lt inside] at here
          exact there.trans (Function.update_of_ne here.symm ..)
        · rw [kept]
          cases initial <;> rfl
        · rintro rfl
          obtain rfl : elem = i := kept
          exact ⟨inside,(frame elem ahead).trans (Function.update_self ..)⟩
      · next poorer =>
        obtain ⟨s',elem,run,⟨rest,sorted,entries,frame⟩,kept,first⟩ := ih (e := e) (p := p + 1)
          (i := (i + 1) % s.size.toNat) (d := d) shaped ordered
          (by rw [← place,Nat.mod_add_mod,Nat.add_assoc]) (by omega) (by omega) (by omega) (by rw [onward,empty])
          (by
            intro k place' next'
            obtain rfl := prev_unique place' inside next'
            omega)
          initial
        refine ⟨s',elem,run,⟨rest,sorted,entries,fun j apart => frame j fun q close => ?_⟩,kept,first⟩
        rw [Nat.mod_add_mod,Nat.add_assoc]
        exact apart (1 + q) (by omega)

end Insert

/-! ### Deletion -/

section Remove

variable {s : TableState} {i d : Nat}

/-- The loop works on a table with a stale copy in the slot `i`. -/
theorem removeLoop_hole (shaped : Shaped s) (inside : i < s.size.toNat)
    (hole : Hole home s.size.toNat (s.store i none).slots i) (fuel : Nat) (first : 1 ≤ d) (near : d < s.size.toNat)
    (enough : d ≤ fuel) (empty : s.slots ((i + d) % s.size.toNat) = none) :
    ∃ s', removeLoop fuel s i = some s' ∧ s' = { s with slots := s'.slots } ∧ Ordered home s.size.toNat s'.slots ∧
      s'.entries.Perm (s.store i none).entries := by
  induction fuel generalizing s i d with
  | zero => omega
  | succ fuel ih =>
    have two := shaped.two
    have apart := next_ne two inside
    have inside' : (i + 1) % s.size.toNat < s.size.toNat := Nat.mod_lt _ (by omega)
    have behind : (s.store i none).slots ((i + 1) % s.size.toNat) = s.slots ((i + 1) % s.size.toNat) :=
      Function.update_of_ne apart ..
    have next : ((UInt64.ofNat i + 1) &&& s.mask).toNat = (i + 1) % s.size.toNat := by
      have found := shaped.index (UInt64.ofNat i) 1
      have small : i < 2 ^ 64 := inside.trans s.size.toNat_lt
      rwa [UInt64.toNat_ofNat',Nat.mod_eq_of_lt small] at found
    rw [removeLoop,next,shaped.slot inside']
    cases held : s.slots ((i + 1) % s.size.toNat) with
    | none => exact ⟨_,rfl,rfl,hole.ordered (by rw [rank_none (behind.trans held)]; omega),.refl _⟩
    | some e =>
      dsimp only
      rw [shaped.masked]
      have own : rank home s.size.toNat (s.store i none).slots ((i + 1) % s.size.toNat) = _ :=
        rank_some (behind.trans held)
      split
      · next home' =>
        have zero : displacement s.size.toNat (home e) ((i + 1) % s.size.toNat) = 0 := by
          have start : (home e + 0) % s.size.toNat = (i + 1) % s.size.toNat := home'
          rw [← start,displacement_of (by omega)]
        exact ⟨_,rfl,rfl,hole.ordered (by omega),.refl _⟩
      · next away =>
        have away' : displacement s.size.toNat (home e) ((i + 1) % s.size.toNat) ≠ 0 := fun zero => by
          have start : (home e + displacement s.size.toNat (home e) ((i + 1) % s.size.toNat)) % s.size.toNat = _ :=
            home_displacement inside'
          rw [zero] at start
          exact away start
        have moved : Function.update (Function.update (s.store i none).slots i (some e)) ((i + 1) % s.size.toNat) none =
            ((s.store i (some e)).store ((i + 1) % s.size.toNat) none).slots := by
          rw [← store_store (x := none) (y := some e)]
          rfl
        have hole' := hole.shift two inside (behind.trans held) away'
        rw [moved] at hole'
        obtain ⟨d,rfl⟩ : ∃ c, d = c + 1 := Nat.exists_eq_succ_of_ne_zero (by omega)
        have far : d ≠ 0 := fun zero => by
          rw [zero,held] at empty
          cases empty
        have still : (s.store i (some e)).slots (((i + 1) % s.size.toNat + d) % s.size.toNat) = none := by
          rw [Nat.mod_add_mod,Nat.add_assoc,Nat.add_comm 1 d]
          refine (Function.update_of_ne (fun same => ?_) ..).trans empty
          have round : (i + (d + 1)) % s.size.toNat = (i + 0) % s.size.toNat := by
            rw [same,Nat.add_zero,Nat.mod_eq_of_lt inside]
          have zero : d + 1 = 0 := ahead_injective near (by omega) round
          omega
        obtain ⟨s',run,rest,ordered,entries⟩ := ih (s := s.store i (some e)) (d := d) (shaped.store ..) inside' hole'
          (by omega) (show d < s.size.toNat by omega) (by omega) still
        refine ⟨s',run,rest,ordered,entries.trans ?_⟩
        have filled := stored_entries (s := s.store i none) inside (some e)
        have emptied := stored_entries (s := s.store i (some e)) inside' none
        rw [show (s.store i (some e)).slots ((i + 1) % s.size.toNat) = some e from
          (Function.update_of_ne apart ..).trans held] at emptied
        rw [show (s.store i none).slots i = none from Function.update_self ..,store_store] at filled
        exact (emptied.trans filled).cons_inv

theorem sRemoveEntry_removed (shaped : Shaped s) (ordered : Ordered home s.size.toNat s.slots)
    (inside : i < s.size.toNat) {e : Entry} (held : s.slots i = some e) {j : Nat} (inside' : j < s.size.toNat)
    (empty : s.slots j = none) :
    ∃ s', sRemoveEntry s i = some s' ∧ s' = { s with entryCount := s.entryCount - 1, slots := s'.slots } ∧
      Ordered home s.size.toNat s'.slots ∧ (e :: s'.entries).Perm s.entries := by
  have two := shaped.two
  have there : (i + displacement s.size.toNat i j) % s.size.toNat = j := home_displacement inside'
  have first : displacement s.size.toNat i j ≠ 0 := fun zero => by
    rw [zero,Nat.add_zero,Nat.mod_eq_of_lt inside] at there
    rw [← there,held] at empty
    cases empty
  have shaped' : Shaped { s with entryCount := s.entryCount - 1 } := ⟨shaped.power,shaped.mask,shaped.room⟩
  have short : displacement s.size.toNat i j < s.size.toNat := displacement_lt (by omega)
  obtain ⟨s',run,rest,sorted,entries⟩ := removeLoop_hole shaped' inside (ordered.hole two inside) _ (by omega) short
    short.le (by rw [there]; exact empty)
  have taken := stored_entries inside none
  rw [held] at taken
  exact ⟨s',run,rest,sorted,(entries.cons e).trans taken⟩

end Remove

end Tcpeen.HashTable
