import Tcpeen.HashTableProbes

/-! hash_table.c as a finite map: the sizes that a table gets, what every call keeps, runs of calls, and the table
that map.c works on. -/
namespace Tcpeen.HashTable

open RobinHood Tcpeen.Map

/-! ### Sizes -/

section Sizes

variable {env : Env} {memory : Memory} {size mask : UInt64} {k : Nat}

theorem sizeLoop_exact (minSize : UInt64) (low : minSize.toNat ≤ 2 ^ 63) (fuel : Nat) (steps : k + fuel = 64)
    (small : k < 64) (power : size.toNat = 2 ^ k) (complement : mask.toNat = 2 ^ 64 - 2 ^ k) :
    ∃ size' mask' k', sizeLoop minSize fuel size mask = some (size', mask') ∧ k ≤ k' ∧ k' < 64 ∧ size'.toNat = 2 ^ k' ∧
      mask'.toNat = 2 ^ 64 - 2 ^ k' ∧ minSize.toNat ≤ 2 ^ k' := by
  induction fuel generalizing size mask k with
  | zero => omega
  | succ fuel ih =>
    rw [sizeLoop]
    split
    · next less =>
      have less' : size.toNat < minSize.toNat := UInt64.lt_iff_toNat_lt.mp less
      have short : k + 1 < 64 := by
        by_contra long
        obtain rfl : k = 63 := by omega
        omega
      have smaller : 2 ^ (k + 1) < 2 ^ 64 := Nat.pow_lt_pow_right (by decide) short
      have doubled : (size <<< 1).toNat = 2 ^ (k + 1) := by
        rw [UInt64.toNat_shiftLeft,power]
        show 2 ^ k <<< 1 % 2 ^ 64 = _
        rw [Nat.shiftLeft_eq,← Nat.pow_add,Nat.mod_eq_of_lt smaller]
      have masked : (mask <<< 1).toNat = 2 ^ 64 - 2 ^ (k + 1) := by
        rw [UInt64.toNat_shiftLeft,complement]
        show (2 ^ 64 - 2 ^ k) <<< 1 % 2 ^ 64 = _
        have twice : 2 ^ (k + 1) = 2 ^ k * 2 := Nat.pow_succ ..
        have positive := Nat.two_pow_pos k
        rw [twice] at smaller ⊢
        rw [Nat.shiftLeft_eq]
        generalize 2 ^ k = c at positive smaller ⊢
        omega
      have some' : size <<< 1 ≠ 0 := fun zero => by
        rw [zero] at doubled
        have positive := Nat.two_pow_pos (k + 1)
        exact absurd doubled.symm positive.ne'
      rw [if_neg some']
      obtain ⟨size',mask',k',run,later,rest⟩ := ih (by omega) short doubled masked
      exact ⟨size',mask',k',run,by omega,rest⟩
    · next more =>
      refine ⟨size,mask,k,rfl,le_rfl,small,power,complement,?_⟩
      rw [← power]
      exact UInt64.le_iff_toNat_le.mp (UInt64.not_lt.mp more)

theorem template_size (env : Env) (stack : Template) {expected : UInt64} (low : expected.toNat ≤ 2 ^ 63) :
    ∃ k, 1 ≤ k ∧ k < 64 ∧ expected.toNat ≤ 2 ^ k ∧ (sUpdateTemplateSize env stack expected).size.toNat = 2 ^ k ∧
      (sUpdateTemplateSize env stack expected).maxLoad.toNat < 2 ^ k ∧
      (k < 32 → (sUpdateTemplateSize env stack expected).mask.toNat = 2 ^ k - 1) := by
  have least : (if expected < 2 then 2 else expected).toNat ≤ 2 ^ 63 ∧
      expected.toNat ≤ (if expected < 2 then 2 else expected).toNat ∧
      2 ≤ (if expected < 2 then 2 else expected).toNat := by
    split
    · next less =>
      have less' : expected.toNat < 2 := UInt64.lt_iff_toNat_lt.mp less
      exact ⟨by decide,by show expected.toNat ≤ 2; omega,by decide⟩
    · next more => exact ⟨low,le_rfl,UInt64.le_iff_toNat_le.mp (UInt64.not_lt.mp more)⟩
  generalize least' : (if expected < 2 then 2 else expected) = minSize at least
  obtain ⟨size,mask,k,run,-,small,power,complement,enough⟩ :=
    sizeLoop_exact minSize least.1 64 (by decide) (by decide) (show (1 : UInt64).toNat = 2 ^ 0 from rfl)
      (show (~~~ (0 : UInt64)).toNat = 2 ^ 64 - 2 ^ 0 from rfl)
  have positive : 1 ≤ k := by
    by_contra none'
    obtain rfl : k = 0 := by omega
    omega
  have loaded : (if env.load size ≥ size then size - 1 else env.load size).toNat < 2 ^ k := by
    split
    · have one : (1 : UInt64) ≤ size := UInt64.le_iff_toNat_le.mpr (by rw [power]; exact Nat.one_le_two_pow)
      rw [UInt64.toNat_sub_of_le _ _ one,power]
      have some' := Nat.two_pow_pos k
      show 2 ^ k - 1 < 2 ^ k
      omega
    · next less =>
      rw [← power]
      exact UInt64.lt_iff_toNat_lt.mp (UInt64.not_le.mp less)
  refine ⟨k,positive,small,by omega,?_⟩
  simp only [sUpdateTemplateSize,least',run]
  split
  · next large =>
    refine ⟨power,loaded,fun less => ?_⟩
    have bound : 2 ^ k ≤ 2 ^ 31 := Nat.pow_le_pow_right (by decide) (by omega)
    rw [power] at large
    omega
  · refine ⟨power,loaded,fun _ => ?_⟩
    have bound : 2 ^ k < 2 ^ 64 := Nat.pow_lt_pow_right (by decide) small
    rw [UInt64.toNat_not,complement]
    show 2 ^ 64 - 1 - (2 ^ 64 - 2 ^ k) = 2 ^ k - 1
    omega

theorem extraSlots_exact (power : size.toNat = 2 ^ k) : (extraSlots size).toNat = (2 ^ k - 1) % 2 ^ 32 := by
  have one : (1 : UInt64) ≤ size := UInt64.le_iff_toNat_le.mpr (by rw [power]; exact Nat.one_le_two_pow)
  rw [extraSlots,UInt64.toNat_toUInt32,UInt64.toNat_sub_of_le _ _ one,power]
  rfl

/-- The block of a table of 2^32 slots or more. -/
theorem allocSize_large (power : size.toNat = 2 ^ k) (large : 32 ≤ k) : allocSize size = allocSize 4294967296 := by
  have same : extraSlots size = extraSlots 4294967296 := by
    refine UInt32.toNat_inj.mp ?_
    obtain ⟨m,rfl⟩ := Nat.exists_eq_add_of_le large
    have some' := Nat.two_pow_pos m
    rw [extraSlots_exact power,extraSlots_exact (k := 32) rfl,Nat.pow_add]
    omega
  rw [allocSize,allocSize,same]

theorem allocState_shaped {t : Template} (positive : 1 ≤ k) (power : t.size.toNat = 2 ^ k)
    (mask : k < 32 → t.mask.toNat = 2 ^ k - 1) {entryCount : UInt64} {s : TableState}
    (granted : sAllocState memory t entryCount = some s) :
    Shaped s ∧ s.toTemplate = t ∧ s.entryCount = entryCount ∧ s.slots = fun _ => none := by
  rw [sAllocState] at granted
  split at granted
  · next grants =>
    obtain rfl := Option.some.inj granted
    have less : k < 32 := by
      by_contra large
      rw [allocSize_large power (by omega),memory.small] at grants
      cases grants
    have bound : 2 ^ k ≤ 2 ^ 31 := Nat.pow_le_pow_right (by decide) (by omega)
    refine ⟨⟨⟨k,positive,less,power⟩,?_,?_⟩,rfl,rfl,rfl⟩
    · rw [mask less,power]
    · have some' := Nat.two_pow_pos k
      show (extraSlots t.size).toNat + 1 = t.size.toNat
      rw [extraSlots_exact power,power]
      omega
  · cases granted

end Sizes

/-! ### The table and what it holds -/

/-- Every key has one entry, under its own hash code. -/
def Keyed (env : Env) (l : List Entry) : Prop :=
  (l.map Entry.key).Nodup ∧ ∀ e ∈ l, e.hashCode = sHashFor env e.key

theorem Keyed.perm {env : Env} {l l' : List Entry} (keyed : Keyed env l) (same : l.Perm l') : Keyed env l' :=
  ⟨(same.map _).nodup_iff.mp keyed.1,fun e member => keyed.2 e (same.mem_iff.mpr member)⟩

theorem Keyed.cons {env : Env} {l : List Entry} {e : Entry} (keyed : Keyed env l) (fresh : e.key ∉ l.map Entry.key)
    (hashed : e.hashCode = sHashFor env e.key) : Keyed env (e :: l) :=
  ⟨List.nodup_cons.mpr ⟨fresh,keyed.1⟩,fun e' member => (List.mem_cons.mp member).elim (· ▸ hashed) (keyed.2 e')⟩

theorem Keyed.tail {env : Env} {l : List Entry} {e : Entry} (keyed : Keyed env (e :: l)) : Keyed env l :=
  ⟨(List.nodup_cons.mp keyed.1).2,fun e' member => keyed.2 e' (List.mem_cons_of_mem _ member)⟩

/-- The map that a table is. -/
def TableState.contents (s : TableState) : Pointer → Option Pointer := lookup Entry.key Entry.value s.entries

/-- What every call keeps: the order that searches rely on, one entry for a key, and an empty slot. -/
structure Sound (env : Env) (s : TableState) : Prop extends Shaped s where
  ordered : Ordered home s.size.toNat s.slots
  keyed : Keyed env s.entries
  count : s.entryCount.toNat = s.entries.length
  load : s.maxLoad.toNat < s.size.toNat
  few : s.entries.length < s.size.toNat

section Table

variable {env : Env} {memory : Memory} {s : TableState} {key value : Pointer}

theorem empty_ordered {n : Nat} : Ordered home n fun _ => none := fun _ _ => Nat.zero_le _

theorem empty_entries (nothing : s.slots = fun _ => none) : s.entries = [] := by
  simp [TableState.entries,members,nothing]

theorem Sound.search (sound : Sound env s) (h : UInt64) (key : Pointer) :
    ∃ found i p, sFindEntry s h key = some (found, i, p) ∧ Search s h key found i p := by
  obtain ⟨j,inside,empty⟩ := exists_empty sound.few
  exact findEntry_search sound.toShaped inside empty

theorem Search.inside {h : UInt64} {found : Bool} {i p : Nat} (search : Search s h key found i p) :
    i < s.size.toNat := by
  rw [search.place]
  exact Nat.mod_lt _ (Nat.zero_lt_of_lt search.short)

/-- A search finds the entry of its key, and only where there is none it fails. -/
theorem Sound.found_or_absent (sound : Sound env s) (key : Pointer) :
    ∃ found i p, sFindEntry s (sHashFor env key) key = some (found, i, p) ∧
      Search s (sHashFor env key) key found i p ∧
      ((found = true ∧ ∃ e, s.slots i = some e ∧ e ∈ s.entries ∧ e.key = key) ∨
        (found = false ∧ key ∉ s.entries.map Entry.key)) := by
  obtain ⟨found,i,p,run,search⟩ := sound.search (sHashFor env key) key
  refine ⟨found,i,p,run,search,?_⟩
  cases found with
  | true =>
    obtain ⟨e,held,-,same⟩ := search.hit rfl
    exact .inl ⟨rfl,e,held,mem_members.mpr ⟨i,search.inside,held⟩,same⟩
  | false =>
    refine .inr ⟨rfl,fun member => ?_⟩
    obtain ⟨e,member,same⟩ := List.mem_map.mp member
    exact search.absent sound.ordered member (same ▸ sound.keyed.2 e member) same

theorem Sound.find (sound : Sound env s) (key : Pointer) :
    awsHashTableFind env s key = some (awsOpSuccess, s.contents key) := by
  obtain ⟨found,i,p,run,-,⟨rfl,e,held,member,rfl⟩ | ⟨rfl,fresh⟩⟩ := sound.found_or_absent key
  · simp only [awsHashTableFind,run,Option.bind_eq_bind,Option.bind_some,held,TableState.contents,
      lookup_member sound.keyed.1 member,if_true,Option.map_some]
  · simp [awsHashTableFind,run,TableState.contents,lookup_eq_none.mpr fresh]

theorem Sound.clear (sound : Sound env s) :
    Sound env (awsHashTableClear s) ∧ (awsHashTableClear s).contents = fun _ => none := by
  have none' : (awsHashTableClear s).entries = [] := empty_entries rfl
  have positive := sound.toShaped.two
  refine ⟨⟨⟨sound.power,sound.mask,sound.room⟩,empty_ordered,?_,?_,sound.load,?_⟩,?_⟩
  · rw [none']
    exact ⟨List.nodup_nil,fun _ member => absurd member List.not_mem_nil⟩
  · rw [none']
    rfl
  · rw [none']
    exact Nat.zero_lt_of_lt positive
  · rw [TableState.contents,none']
    rfl

theorem Sound.remove (sound : Sound env s) (key : Pointer) :
    ∃ s', awsHashTableRemove env s key = some (awsOpSuccess, s', if s.contents key = none then 0 else 1) ∧
      Sound env s' ∧ s'.contents = Function.update s.contents key none := by
  obtain ⟨found,i,p,run,search,⟨rfl,e,held,member,rfl⟩ | ⟨rfl,fresh⟩⟩ := sound.found_or_absent key
  · obtain ⟨j,inside,empty⟩ := exists_empty sound.few
    obtain ⟨s',removed,rest,ordered,entries⟩ :=
      sRemoveEntry_removed sound.toShaped sound.ordered search.inside held inside empty
    have here : s.contents e.key = some e.value := lookup_member sound.keyed.1 member
    have keyed : Keyed env (e :: s'.entries) := sound.keyed.perm entries.symm
    have size : s'.size = s.size := congrArg (fun t => t.size) rest
    have less := entries.length_eq
    rw [List.length_cons] at less
    have few := sound.few
    have count := sound.count
    refine ⟨s',?_,⟨⟨?_,?_,?_⟩,?_,keyed.tail,?_,?_,?_⟩,?_⟩
    · simp [awsHashTableRemove,run,removed,here]
    · rw [size]; exact sound.power
    · rw [rest]; exact sound.mask
    · rw [rest]; exact sound.room
    · rw [size]; exact ordered
    · have one : (1 : UInt64) ≤ s.entryCount := UInt64.le_iff_toNat_le.mpr (by show 1 ≤ _; omega)
      rw [show s'.entryCount = s.entryCount - 1 from congrArg TableState.entryCount rest,UInt64.toNat_sub_of_le _ _ one]
      show s.entryCount.toNat - 1 = _
      omega
    · rw [rest]; exact sound.load
    · rw [size]; omega
    · rw [TableState.contents,lookup_erased keyed.1,lookup_perm keyed.1 entries]
      rfl
  · have here : s.contents key = none := lookup_eq_none.mpr fresh
    refine ⟨s,by simp [awsHashTableRemove,run,here],sound,?_⟩
    rw [← here,Function.update_eq_self]

/-- A block that was granted for a new template. -/
theorem allocState_fresh (stack : Template) {expected entryCount : UInt64}
    (low : expected.toNat ≤ 2 ^ 63) (granted : sAllocState memory (sUpdateTemplateSize env stack expected)
    entryCount = some s) :
    Shaped s ∧ s.slots = (fun _ => none) ∧ s.entryCount = entryCount ∧ expected.toNat ≤ s.size.toNat ∧
      s.maxLoad.toNat < s.size.toNat := by
  obtain ⟨k,positive,-,enough,power,load,mask⟩ := template_size env stack low
  obtain ⟨shaped,template,count,nothing⟩ := allocState_shaped positive power mask granted
  have size : s.size.toNat = 2 ^ k := by rw [template,power]
  have max : s.maxLoad.toNat < 2 ^ k := by rw [template]; exact load
  exact ⟨shaped,nothing,count,by omega,by omega⟩

theorem init_sound (stack : Template) {size : UInt64} (low : size.toNat ≤ 2 ^ 63)
    (made : awsHashTableInit env memory stack size = (awsOpSuccess, some s)) : Sound env s ∧
    s.contents = fun _ => none := by
  rw [awsHashTableInit] at made
  split at made
  · cases made
  · next new granted =>
    obtain ⟨-,same⟩ := Prod.mk.inj made
    obtain rfl := Option.some.inj same
    obtain ⟨shaped,nothing,count,-,load⟩ := allocState_fresh stack low granted
    have none' := empty_entries nothing
    have two := shaped.two
    refine ⟨⟨shaped,by rw [nothing]; exact empty_ordered,?_,?_,load,?_⟩,?_⟩
    · rw [none']
      exact ⟨List.nodup_nil,fun _ member => absurd member List.not_mem_nil⟩
    · rw [none',count]
      rfl
    · rw [none']
      exact Nat.zero_lt_of_lt two
    · rw [TableState.contents,none']
      rfl

/-- `s_emplace_item` with an empty slot somewhere. -/
theorem emplaceItem_room {e : Entry} {p : Nat} (shaped : Shaped s) (ordered : Ordered home s.size.toNat s.slots)
    (few : s.entries.length < s.size.toNat) (short : p < s.size.toNat)
    (before : ∀ k < s.size.toNat, (k + 1) % s.size.toNat = (home e + p) % s.size.toNat →
      p ≤ rank home s.size.toNat s.slots k) :
    ∃ s' elem, sEmplaceItem s.size.toNat s e p none = some (s', elem) ∧ s' = { s with slots := s'.slots } ∧
      Ordered home s.size.toNat s'.slots ∧ s'.entries.Perm (e :: s.entries) ∧ elem < s.size.toNat ∧
      s'.slots elem = some e := by
  obtain ⟨j,inside,empty⟩ := exists_empty few
  have there : ((home e + p) % s.size.toNat + displacement s.size.toNat ((home e + p) % s.size.toNat) j) %
    s.size.toNat = j := home_displacement inside
  have near : displacement s.size.toNat ((home e + p) % s.size.toNat) j < s.size.toNat := displacement_lt (by omega)
  obtain ⟨s',elem,run,emplaced,-,placed⟩ := emplaceItem_emplaced shaped ordered s.size.toNat rfl short near near
    (by rw [there,empty]) before none
  exact ⟨s',elem,run,emplaced.rest,emplaced.ordered,emplaced.entries,placed rfl⟩

/-- A prefix of the slots of the old table has moved. -/
theorem moveSlots {new : TableState} (shaped : Shaped s) (shaped' : Shaped new)
    (ordered : Ordered home new.size.toNat new.slots) (l : List Nat) (inside : ∀ i ∈ l, i < s.size.toNat)
    (room : new.entries.length + l.length ≤ new.size.toNat) :
    ∃ new', l.foldlM (moveSlot s) new = some new' ∧ new' = { new with slots := new'.slots } ∧
      Ordered home new.size.toNat new'.slots ∧ new'.entries.Perm (l.filterMap s.slots ++ new.entries) := by
  induction l generalizing new with
  | nil => exact ⟨new,rfl,rfl,ordered,.refl _⟩
  | cons i l ih =>
    have here := shaped.slot (inside i (List.mem_cons_self ..))
    have later : ∀ i ∈ l, i < s.size.toNat := fun j member => inside j (List.mem_cons_of_mem _ member)
    rw [List.length_cons] at room
    rw [List.foldlM_cons,moveSlot,here]
    cases held : s.slots i with
    | none =>
      rw [List.filterMap_cons_none held]
      exact ih shaped' ordered later (by omega)
    | some e =>
      have two := shaped'.two
      obtain ⟨mid,elem,run,rest,sorted,entries,-⟩ := emplaceItem_room (e := e) (p := 0) shaped' ordered (by omega)
        (by omega) fun k _ _ => Nat.zero_le _
      have size : mid.size = new.size := congrArg (fun t => t.size) rest
      have shaped'' : Shaped mid := by
        rw [rest]
        exact ⟨shaped'.power,shaped'.mask,shaped'.room⟩
      have longer := entries.length_eq
      rw [List.length_cons] at longer
      obtain ⟨new',runs,rest',sorted',entries'⟩ := ih shaped'' (size ▸ sorted) later (by rw [size]; omega)
      rw [List.filterMap_cons_some held]
      refine ⟨new',?_,?_,size ▸ sorted',(entries'.trans (entries.append_left _)).trans List.perm_middle⟩
      · simpa [run] using runs
      · rw [rest',rest]

theorem Sound.expand (sound : Sound env s) (memory : Memory) :
    (sExpandTable env memory s = some (awsOpErr, s) ∧
      sAllocState memory (sUpdateTemplateSize env s.toTemplate (s.size * 2)) s.entryCount = none) ∨
      ∃ new, sExpandTable env memory s = some (awsOpSuccess, new) ∧ Shaped new ∧ Ordered home new.size.toNat new.slots ∧
        new.entries.Perm s.entries ∧ new.entryCount = s.entryCount ∧ new.maxLoad.toNat < new.size.toNat ∧
        s.size.toNat * 2 ≤ new.size.toNat := by
  rw [sExpandTable]
  split
  · next refused => exact .inl ⟨rfl,refused⟩
  · next new granted =>
    obtain ⟨k,positive,less,power⟩ := sound.power
    have bound : 2 ^ k ≤ 2 ^ 31 := Nat.pow_le_pow_right (by decide) (by omega)
    have doubled : (s.size * 2).toNat = s.size.toNat * 2 := by
      rw [UInt64.toNat_mul]
      exact Nat.mod_eq_of_lt (by show s.size.toNat * 2 < 2 ^ 64; omega)
    obtain ⟨shaped,nothing,count,enough,load⟩ := allocState_fresh s.toTemplate (by omega) granted
    have none' := empty_entries nothing
    obtain ⟨new',run,rest,ordered,entries⟩ := moveSlots sound.toShaped shaped (by rw [nothing]; exact empty_ordered)
      (List.range s.size.toNat) (fun i => List.mem_range.mp) (by rw [none',List.length_range,List.length_nil]; omega)
    rw [none',List.append_nil] at entries
    refine .inr ⟨new',by rw [run]; rfl,?_,?_,entries,?_,?_,?_⟩
    · rw [rest]
      exact ⟨shaped.power,shaped.mask,shaped.room⟩
    · rw [rest]
      exact ordered
    · rw [rest]
      exact count
    · rw [rest]
      exact load
    · rw [rest]
      show _ ≤ new.size.toNat
      omega

/-- The entry of the key, with its value, comes to the entries that are there otherwise. -/
theorem put_entry (value : Pointer) {t : TableState} {i : Nat} {e : Entry} {l : List Entry} (shaped : Shaped t)
    (ordered : Ordered home t.size.toNat t.slots) (entries : t.entries.Perm (e :: l)) (keyed : Keyed env (e :: l))
    (own : e.key = key) (held : t.slots i = some e) (inside : i < t.size.toNat)
    (count : t.entryCount.toNat = l.length + 1) (load : t.maxLoad.toNat < t.size.toNat)
    (few : l.length + 1 < t.size.toNat) :
    Sound env (t.store i ((t.slots i).map fun e => { e with key, value })) ∧
      (t.store i ((t.slots i).map fun e => { e with key, value })).contents =
        Function.update (lookup Entry.key Entry.value l) key (some value) := by
  subst own
  have fresh : e.key ∉ l.map Entry.key := (List.nodup_cons.mp keyed.1).1
  have keyed' : Keyed env ({ e with value } :: l) := keyed.tail.cons fresh (keyed.2 e (List.mem_cons_self ..))
  have exchanged := stored_entries inside (some { e with value })
  rw [held] at exchanged
  have entries' : (t.store i (some { e with value })).entries.Perm ({ e with value } :: l) :=
    (exchanged.trans ((entries.cons _).trans (.swap ..))).cons_inv
  have longer := entries'.length_eq
  rw [List.length_cons] at longer
  rw [held,Option.map_some]
  refine ⟨⟨shaped.store ..,ordered.replace held rfl,keyed'.perm entries'.symm,?_,load,?_⟩,?_⟩
  · rw [longer]
    exact count
  · rw [longer]
    exact few
  · rw [TableState.contents,lookup_perm (keyed'.perm entries'.symm).1 entries',lookup_cons]

/-- What a search went past is further from its home than the new entry would be. -/
theorem Search.before {h : UInt64} {found : Bool} {i p : Nat} (search : Search s h key found i p) {k : Nat}
    (inside : k < s.size.toNat) (next : (k + 1) % s.size.toNat = (h.toNat + p) % s.size.toNat) :
    p ≤ rank home s.size.toNat s.slots k := by
  cases p with
  | zero => exact Nat.zero_le _
  | succ q =>
    obtain ⟨-,-,-,low⟩ := search.passed q (Nat.lt_succ_self q)
    have short := search.short
    have next' : (k + 1) % s.size.toNat = ((h.toNat + q) % s.size.toNat + 1) % s.size.toNat := by
      rw [next,Nat.mod_add_mod,Nat.add_assoc]
    rwa [← prev_unique inside (Nat.mod_lt _ (by omega)) next'] at low

/-- The new entry comes to the others, in a table that has room for it. -/
theorem addEntry_put (value : Pointer) {t : TableState} {p : Nat} (shaped : Shaped t)
    (ordered : Ordered home t.size.toNat t.slots) (keyed : Keyed env t.entries)
    (fresh : key ∉ t.entries.map Entry.key) (count : t.entryCount.toNat = t.entries.length)
    (load : t.maxLoad.toNat < t.size.toNat) (few : t.entries.length + 1 < t.size.toNat) (short : p < t.size.toNat)
    (before : ∀ k < t.size.toNat, (k + 1) % t.size.toNat = ((sHashFor env key).toNat + p) % t.size.toNat →
      p ≤ rank home t.size.toNat t.slots k) :
    ∃ c, addEntry t ⟨key,0,sHashFor env key⟩ p = some c ∧ c.code = awsOpSuccess ∧ c.created = 1 ∧
      Sound env (c.state.store c.elem ((c.state.slots c.elem).map fun e => { e with key, value })) ∧
      (c.state.store c.elem ((c.state.slots c.elem).map fun e => { e with key, value })).contents =
        Function.update (lookup Entry.key Entry.value t.entries) key (some value) := by
  have shaped' : Shaped { t with entryCount := t.entryCount + 1 } := ⟨shaped.power,shaped.mask,shaped.room⟩
  obtain ⟨s',elem,run,rest,sorted,entries,inside,held⟩ := emplaceItem_room (e := ⟨key,0,sHashFor env key⟩) (p := p)
    shaped' ordered (Nat.lt_of_succ_lt few) short before
  have size : s'.size = t.size := congrArg (fun t => t.size) rest
  have counted : s'.entryCount.toNat = t.entries.length + 1 := by
    rw [show s'.entryCount = t.entryCount + 1 from congrArg (fun t => t.entryCount) rest,UInt64.toNat_add,count]
    refine Nat.mod_eq_of_lt ?_
    have bound := t.size.toNat_lt
    show t.entries.length + 1 < 2 ^ 64
    omega
  have put := put_entry value (e := ⟨key,0,sHashFor env key⟩) (l := t.entries) (t := s')
    (by rw [rest]; exact ⟨shaped.power,shaped.mask,shaped.room⟩) (size ▸ sorted) entries (keyed.cons fresh rfl) rfl held
    (size ▸ inside) counted (by rw [rest]; exact load) (by rw [size]; exact few)
  refine ⟨⟨awsOpSuccess,s',elem,1⟩,?_,rfl,rfl,put⟩
  rw [addEntry,run]
  rfl

/-- The table is full to its load, and does not get a larger block. -/
def Refuses (env : Env) (memory : Memory) (s : TableState) : Prop :=
  s.maxLoad < s.entryCount + 1 ∧
    sAllocState memory (sUpdateTemplateSize env s.toTemplate (s.size * 2)) s.entryCount = none

/-- A put replaces the value of its key or enters it; where there is no memory to grow nothing changes. -/
theorem Sound.put (sound : Sound env s) (memory : Memory) (key value : Pointer) :
    ∃ code s' created, awsHashTablePut env memory s key value = some (code, s', created) ∧ Sound env s' ∧
      ((code = awsOpSuccess ∧ created = (if s.contents key = none then 1 else 0) ∧
          s'.contents = Function.update s.contents key (some value)) ∨
        (code = awsOpErr ∧ s.contents key = none ∧ Refuses env memory s ∧ s' = s)) := by
  obtain ⟨found,i,p,run,search,⟨rfl,e,held,member,own⟩ | ⟨rfl,fresh⟩⟩ := sound.found_or_absent key
  · have here : s.contents key = some e.value := own ▸ lookup_member sound.keyed.1 member
    have entries : s.entries.Perm (e :: s.entries.erase e) := List.perm_cons_erase member
    have longer := entries.length_eq
    rw [List.length_cons] at longer
    have few := sound.few
    obtain ⟨sound',after⟩ := put_entry value sound.toShaped sound.ordered entries (sound.keyed.perm entries)
      own held search.inside (by rw [sound.count,longer]) sound.load (by omega)
    refine ⟨awsOpSuccess,_,0,by simp [awsHashTablePut,awsHashTableCreate,run],sound',.inl ⟨rfl,by rw [here]; rfl,?_⟩⟩
    rw [after,TableState.contents,lookup_perm sound.keyed.1 entries,lookup_cons,own,Function.update_idem]
  · have here : s.contents key = none := lookup_eq_none.mpr fresh
    have few := sound.few
    have count := sound.count
    have two := sound.toShaped.two
    have bound := s.size.toNat_lt
    have next : (s.entryCount + 1).toNat = s.entries.length + 1 := by
      rw [UInt64.toNat_add,count]
      exact Nat.mod_eq_of_lt (by show s.entries.length + 1 < 2 ^ 64; omega)
    by_cases full : s.entryCount + 1 > s.maxLoad
    · rcases sound.expand memory with ⟨failed,refused⟩ | ⟨new,expanded,shaped,ordered,entries,count',load,double⟩
      · exact ⟨awsOpErr,s,0,by simp [awsHashTablePut,awsHashTableCreate,run,full,failed,awsOpErr,awsOpSuccess],sound,
          .inr ⟨rfl,here,⟨full,refused⟩,rfl⟩⟩
      · have same := entries.length_eq
        have two' := shaped.two
        obtain ⟨c,added,code,created,sound',after⟩ := addEntry_put value (p := 0) shaped ordered
          (sound.keyed.perm entries.symm) (mt (entries.map _).mem_iff.mp fresh) (by rw [count',count,same]) load
          (by omega) (by omega) fun k _ _ => Nat.zero_le _
        refine ⟨awsOpSuccess,_,c.created,
          by simp [awsHashTablePut,awsHashTableCreate,run,full,expanded,added,code,awsOpSuccess],sound',
          .inl ⟨rfl,by rw [here,created]; rfl,?_⟩⟩
        rw [after,lookup_perm (sound.keyed.perm entries.symm).1 entries]
        rfl
    · have room : s.entries.length + 1 < s.size.toNat := by
        have low : (s.entryCount + 1).toNat ≤ s.maxLoad.toNat := UInt64.le_iff_toNat_le.mp (UInt64.not_lt.mp full)
        have load := sound.load
        omega
      obtain ⟨c,added,code,created,sound',after⟩ := addEntry_put value sound.toShaped sound.ordered sound.keyed
        fresh count sound.load room search.short fun k => search.before
      exact ⟨awsOpSuccess,_,c.created,by simp [awsHashTablePut,awsHashTableCreate,run,full,added,code],sound',
        .inl ⟨rfl,by rw [here,created]; rfl,after⟩⟩

end Table

/-! ### Runs -/

/-- The functions of hash_table.c that map.c calls on a table. A put finds memory of its own. -/
inductive Call
  | find (key : Pointer)
  | put (memory : Memory) (key value : Pointer)
  | remove (key : Pointer)
  | clear

/-- What they return. -/
inductive Reply
  | found (code : Int) (value : Option Pointer)
  | put (code created : Int)
  | removed (code present : Int)
  | cleared
  deriving DecidableEq

def call (env : Env) (s : TableState) : Call → Option (Reply × TableState)
  | .find key => (awsHashTableFind env s key).map fun (code, value) => (.found code value, s)
  | .put memory key value =>
    (awsHashTablePut env memory s key value).map fun (code, s, created) => (.put code created, s)
  | .remove key => (awsHashTableRemove env s key).map fun (code, s, present) => (.removed code present, s)
  | .clear => some (.cleared, awsHashTableClear s)

/-- The answers of a finite map. A put of a new key may fail where the table does not grow. -/
def Answers (env : Env) (s : TableState) (m : Pointer → Option Pointer) :
    Call → Reply → (Pointer → Option Pointer) → Prop
  | .find key, .found code value, m' => code = awsOpSuccess ∧ value = m key ∧ m' = m
  | .put memory key value, .put code created, m' =>
    (code = awsOpSuccess ∧ created = (if m key = none then 1 else 0) ∧ m' = Function.update m key (some value)) ∨
      (code = awsOpErr ∧ m key = none ∧ Refuses env memory s ∧ m' = m)
  | .remove key, .removed code present, m' =>
    code = awsOpSuccess ∧ present = (if m key = none then 0 else 1) ∧ m' = Function.update m key none
  | .clear, .cleared, m' => m' = fun _ => none
  | _, _, _ => False

/-- Every call returns, and answers as the map does. -/
def Follows (env : Env) : TableState → (Pointer → Option Pointer) → List Call → List Reply → Prop
  | s, m, [], [] => s.contents = m
  | s, m, c :: calls, r :: replies =>
    ∃ s' m', call env s c = some (r, s') ∧ Answers env s m c r m' ∧ Follows env s' m' calls replies
  | _, _, _, _ => False

section Run

variable {env : Env} {s : TableState}

theorem Sound.call (sound : Sound env s) (c : Call) :
    ∃ r s', call env s c = some (r, s') ∧ Sound env s' ∧ Answers env s s.contents c r s'.contents := by
  cases c with
  | find key => exact ⟨.found awsOpSuccess (s.contents key),s,by rw [HashTable.call,sound.find]; rfl,sound,rfl,rfl,rfl⟩
  | put memory key value =>
    obtain ⟨code,s',created,run,sound',after⟩ := sound.put memory key value
    refine ⟨.put code created,s',by rw [HashTable.call,run]; rfl,sound',?_⟩
    rcases after with done | ⟨failed,absent,refuses,rfl⟩
    · exact .inl done
    · exact .inr ⟨failed,absent,refuses,rfl⟩
  | remove key =>
    obtain ⟨s',run,sound',after⟩ := sound.remove key
    exact ⟨.removed awsOpSuccess (if s.contents key = none then 0 else 1),s',by rw [HashTable.call,run]; rfl,sound',
      rfl,rfl,after⟩
  | clear => exact ⟨.cleared,_,rfl,sound.clear.1,sound.clear.2⟩

theorem Sound.follows (sound : Sound env s) (calls : List Call) :
    ∃ replies, Follows env s s.contents calls replies := by
  induction calls generalizing s with
  | nil => exact ⟨[],rfl⟩
  | cons c calls ih =>
    obtain ⟨r,s',run,sound',answers⟩ := sound.call c
    obtain ⟨replies,later⟩ := ih sound'
    exact ⟨r :: replies,s',s'.contents,run,answers,later⟩

end Run

/-- A table that was set up, with whatever hash function and load, and memory at each call: in every run its searches, insertions and deletions
come to an end inside the block, and the calls answer as a finite map does. A put fails only for a new key,
in a table that is full to its load and gets no larger block. -/
theorem table_follows (env : Env) (memory : Memory) (stack : Template) (size : UInt64) (low : size.toNat ≤ 2 ^ 63)
    (s : TableState) (made : awsHashTableInit env memory stack size = (awsOpSuccess, some s)) (calls : List Call) :
    ∃ replies, Follows env s (fun _ => none) calls replies := by
  obtain ⟨sound,empty⟩ := init_sound stack low made
  obtain ⟨replies,follows⟩ := sound.follows calls
  exact ⟨replies,empty ▸ follows⟩

/-- The hash function of map.c. -/
def sampleEnv : Env := ⟨id,fun size => size - size / 16⟩

def megabyte : Memory := ⟨fun bytes => bytes < 1048576,by decide⟩

def exhausted : Memory := ⟨fun _ => false,rfl⟩

/-- Three keys with one home. The second one is refused where there is no memory, and makes the table grow, once,
where there is. -/
def sampleCalls : List Call :=
  [.put megabyte 8 1,.put exhausted 16 2,.put megabyte 16 2,.put exhausted 24 3,.remove 16,.find 24,
    .put megabyte 24 5,.find 16,.clear]

theorem table_follows_sample :
    ∃ s, awsHashTableInit sampleEnv megabyte ⟨0,0,0⟩ 2 = (awsOpSuccess, some s) ∧
      ∃ replies, Follows sampleEnv s (fun _ => none) sampleCalls replies := by
  have granted : (awsHashTableInit sampleEnv megabyte ⟨0,0,0⟩ 2).2.isSome = true := by decide
  obtain ⟨s,made⟩ := Option.isSome_iff_exists.mp granted
  have code : (awsHashTableInit sampleEnv megabyte ⟨0,0,0⟩ 2).1 = awsOpSuccess := by decide
  have init : awsHashTableInit sampleEnv megabyte ⟨0,0,0⟩ 2 = (awsOpSuccess, some s) := Prod.ext code made
  exact ⟨s,init,table_follows sampleEnv megabyte ⟨0,0,0⟩ 2 (by decide) s init sampleCalls⟩

/-! ### map.c on the table -/

section OfMap

variable {env : Env}

/-- A table with the memory that its next insertions find. -/
structure Supplied (env : Env) where
  state : TableState
  sound : Sound env state
  memory : Nat → Memory

/-- The result of a call, with the table that it leaves known to be sound. -/
def kept (t : Supplied env) (memory : Nat → Memory) (after : Option (Int × TableState × Int))
    (sound : ∀ code s r, after = some (code, s, r) → Sound env s) : Int × Supplied env × Int :=
  match after, sound with
  | some (code, s, r), sound => (code, ⟨s,sound code s r rfl,memory⟩, r)
  | none, _ => (awsOpErr, t, 0)

theorem kept_some {t : Supplied env} {memory : Nat → Memory} {after : Option (Int × TableState × Int)}
    {sound : ∀ code s r, after = some (code, s, r) → Sound env s} {code r : Int} {s : TableState} (sound' : Sound env s)
    (made : after = some (code, s, r)) : kept t memory after sound = (code, ⟨s,sound',memory⟩, r) := by
  subst made
  rfl

theorem Sound.put_sound {s : TableState} (sound : Sound env s) (memory : Memory) (key value : Pointer) (code : Int)
    (s' : TableState) (r : Int) (made : awsHashTablePut env memory s key value = some (code, s', r)) :
    Sound env s' := by
  obtain ⟨_,_,_,run,sound',-⟩ := sound.put memory key value
  obtain ⟨-,same⟩ := Prod.mk.inj (Option.some.inj (run.symm.trans made))
  exact (Prod.mk.inj same).1 ▸ sound'

theorem Sound.remove_sound {s : TableState} (sound : Sound env s) (key : Pointer) (code : Int) (s' : TableState)
    (r : Int) (made : awsHashTableRemove env s key = some (code, s', r)) : Sound env s' := by
  obtain ⟨_,run,sound',-⟩ := sound.remove key
  obtain ⟨-,same⟩ := Prod.mk.inj (Option.some.inj (run.symm.trans made))
  exact (Prod.mk.inj same).1 ▸ sound'

/-- What map.c has where an init failed; it releases the table's structure. -/
def noTable (env : Env) (memory : Nat → Memory) : Supplied env :=
  ⟨⟨⟨2,1,1⟩,0,2,fun _ => none⟩,⟨⟨⟨1,by decide,by decide,rfl⟩,rfl,rfl⟩,empty_ordered,
    ⟨by simp [empty_entries],fun _ member => by simp [empty_entries] at member⟩,by simp [empty_entries],by decide,
    by simp [empty_entries]⟩,memory⟩

/-- hash_table.c as map.c uses it, with the memory that the init and the insertions find. An init of more than 2^63
slots, which goes on with a template that was never written, is left out as a failure. -/
def table (env : Env) (memory : Nat → Memory) (stack : Template) : Map.HashTable where
  Table := Supplied env
  contents t := t.state.contents
  init size :=
    if low : size.toNat ≤ 2 ^ 63 then
      match made : awsHashTableInit env (memory 0) stack size with
      | (_, none) => (awsOpErr, noTable env memory)
      | (code, some s) =>
        if ok : code = awsOpSuccess then
          (code, ⟨s,(init_sound stack low (ok ▸ made)).1,fun n => memory (n + 1)⟩)
        else (code, noTable env memory)
    else (awsOpErr, noTable env memory)
  find t key := (awsHashTableFind env t.state key).getD (awsOpErr, none)
  put t key value := kept t (fun n => t.memory (n + 1)) (awsHashTablePut env (t.memory 0) t.state key value)
    (t.sound.put_sound (t.memory 0) key value)
  remove t key := kept t t.memory (awsHashTableRemove env t.state key) (t.sound.remove_sound key)
  clear t := ⟨awsHashTableClear t.state,t.sound.clear.1,t.memory⟩
  init_empty size success := by
    split at success
    · next low =>
      split at success
      · cases success
      · next code s made =>
        split at success
        · next ok =>
          subst ok
          simp only [low,dite_true]
          exact (init_sound stack low made).2
        · next other => exact absurd success other
    · cases success
  find_value t key := by
    rw [t.sound.find]
    rfl
  put_present t key value present := by
    obtain ⟨code,s,created,run,sound,⟨rfl,rfl,after⟩ | ⟨-,absent,-⟩⟩ := t.sound.put (t.memory 0) key value
    · exact ⟨⟨s,sound,_⟩,by rw [kept_some sound run,if_neg present]; rfl,after⟩
    · exact absurd absent present
  put_absent t key value absent := by
    obtain ⟨code,s,created,run,sound,⟨rfl,rfl,after⟩ | ⟨rfl,-,-,same⟩⟩ := t.sound.put (t.memory 0) key value
    · exact .inl ⟨⟨s,sound,_⟩,by rw [kept_some sound run,if_pos absent]; rfl,after⟩
    · exact .inr ⟨⟨s,sound,_⟩,created,kept_some sound run,congrArg TableState.contents same⟩
  remove_present t key present := by
    obtain ⟨s,run,sound,after⟩ := t.sound.remove key
    exact ⟨⟨s,sound,_⟩,by rw [kept_some sound run,if_neg present]; rfl,after⟩
  remove_absent t key absent := by
    obtain ⟨s,run,sound,after⟩ := t.sound.remove key
    refine ⟨⟨s,sound,_⟩,by rw [kept_some sound run,if_pos absent]; rfl,after.trans ?_⟩
    rw [← show t.state.contents key = none from absent,Function.update_eq_self]
  clear_empty t := t.sound.clear.2

/-- The calls of map.c on this table agree with the insert-only map as they do on any that is as described. -/
theorem map_agrees_iff (memory : Nat → Memory) (stack : Template) {map : TnMap (table env memory stack).Table}
    {t : (table env memory stack).Table} (held : map.priv = .table t) (ops : List (Op Pointer Pointer)) :
    Agrees map t.state.contents ops ↔ Once map t.state.contents ops := agrees_iff ops held rfl

end OfMap

end Tcpeen.HashTable
