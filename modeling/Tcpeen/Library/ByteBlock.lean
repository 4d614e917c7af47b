import Mathlib.Data.List.Basic

/-! Memory as bytes by offset, copied in runs and seen as an array of items of one size. -/
namespace ByteBlock

abbrev Block := Nat → UInt8

def read (m : Block) (offset size : Nat) : List UInt8 := (List.range size).map fun i => m (offset + i)

def write (m : Block) (offset : Nat) (bytes : List UInt8) : Block := fun i =>
  if offset ≤ i ∧ i < offset + bytes.length then bytes.getD (i - offset) 0 else m i

/-- Two runs of bytes change places through a temporary copy of the first. -/
def exchange (m : Block) (a b size : Nat) : Block :=
  write (write m a (read m b size)) b (read m a size)

/-- The item at an index. -/
def slot (m : Block) (size index : Nat) : List UInt8 := read m (size * index) size

variable {m : Block} {bytes : List UInt8} {a b offset size more index : Nat}

@[simp] theorem read_length : (read m offset size).length = size := by simp [read]

theorem read_getD {i : Nat} (inside : i < size) : (read m offset size).getD i 0 = m (offset + i) := by
  simp [read,inside]

theorem read_congr {m' : Block} (same : ∀ i < size, m (offset + i) = m' (offset + i)) :
    read m offset size = read m' offset size :=
  List.map_congr_left fun i inside => same i (List.mem_range.mp inside)

theorem write_inside {i : Nat} (from' : offset ≤ i) (below : i < offset + bytes.length) :
    write m offset bytes i = bytes.getD (i - offset) 0 := if_pos ⟨from',below⟩

theorem write_outside {i : Nat} (apart : i < offset ∨ offset + bytes.length ≤ i) :
    write m offset bytes i = m i := by
  apply if_neg
  rintro ⟨from',below⟩
  omega

theorem read_write_same : read (write m offset bytes) offset bytes.length = bytes := by
  apply List.ext_getElem
  · simp
  · intro i inside inside'
    simp [read,write,inside']

theorem read_write_apart (apart : a + size ≤ offset ∨ offset + bytes.length ≤ a) :
    read (write m offset bytes) a size = read m a size := by
  apply read_congr
  intro i inside
  apply write_outside
  omega

theorem exchange_first {i : Nat} (apart : a + size ≤ b ∨ b + size ≤ a) (inside : i < size) :
    exchange m a b size (a + i) = m (b + i) := by
  rw [exchange,write_outside (by rw [read_length]; omega),write_inside (by omega) (by rw [read_length]; omega),
    Nat.add_sub_cancel_left,read_getD inside]

theorem exchange_second {i : Nat} (inside : i < size) : exchange m a b size (b + i) = m (a + i) := by
  rw [exchange,write_inside (by omega) (by rw [read_length]; omega),Nat.add_sub_cancel_left,read_getD inside]

theorem exchange_outside {i : Nat} (first : i < a ∨ a + size ≤ i) (second : i < b ∨ b + size ≤ i) :
    exchange m a b size i = m i := by
  rw [exchange,write_outside (by rw [read_length]; omega),write_outside (by rw [read_length]; omega)]

/-- Adjacent runs may be exchanged one after the other. -/
theorem exchange_append (apart : a + (size + more) ≤ b ∨ b + (size + more) ≤ a) :
    exchange (exchange m a b size) (a + size) (b + size) more = exchange m a b (size + more) := by
  funext i
  by_cases first : a ≤ i ∧ i < a + (size + more)
  · obtain ⟨k,rfl⟩ := Nat.exists_eq_add_of_le first.1
    rw [exchange_first apart (by omega)]
    by_cases low : k < size
    · rw [exchange_outside (by omega) (by omega),exchange_first (by omega) low]
    · obtain ⟨j,rfl⟩ := Nat.exists_eq_add_of_le (Nat.not_lt.mp low)
      rw [← Nat.add_assoc,exchange_first (by omega) (by omega),exchange_outside (by omega) (by omega),Nat.add_assoc]
  · by_cases second : b ≤ i ∧ i < b + (size + more)
    · obtain ⟨k,rfl⟩ := Nat.exists_eq_add_of_le second.1
      rw [exchange_second (by omega)]
      by_cases low : k < size
      · rw [exchange_outside (by omega) (by omega),exchange_second low]
      · obtain ⟨j,rfl⟩ := Nat.exists_eq_add_of_le (Nat.not_lt.mp low)
        rw [← Nat.add_assoc,exchange_second (by omega),exchange_outside (by omega) (by omega),Nat.add_assoc]
    · rw [exchange_outside (by omega) (by omega),exchange_outside (by omega) (by omega),
        exchange_outside (by omega) (by omega)]

section Slots

theorem slots_apart (size : Nat) {i j : Nat} (different : i ≠ j) :
    size * i + size ≤ size * j ∨ size * j + size ≤ size * i := by
  rcases Nat.lt_or_gt_of_ne different with before | after
  · exact .inl (Nat.mul_succ size i ▸ Nat.mul_le_mul_left size before)
  · exact .inr (Nat.mul_succ size j ▸ Nat.mul_le_mul_left size after)

theorem slot_write_same (sized : bytes.length = size) :
    slot (write m (size * index) bytes) size index = bytes := by
  subst sized
  exact read_write_same

theorem slot_write_other {other : Nat} (sized : bytes.length = size) (different : other ≠ index) :
    slot (write m (size * index) bytes) size other = slot m size other :=
  read_write_apart (sized ▸ slots_apart size different)

theorem slot_exchange {i j k : Nat} (different : i ≠ j) :
    slot (exchange m (size * i) (size * j) size) size k =
      if k = i then slot m size j else if k = j then slot m size i else slot m size k := by
  have apart := slots_apart size different
  split
  · next equal =>
    subst equal
    exact List.map_congr_left fun l inside => exchange_first apart (List.mem_range.mp inside)
  · next other =>
    split
    · next equal =>
      subst equal
      exact List.map_congr_left fun l inside => exchange_second (List.mem_range.mp inside)
    · next other' =>
      have first := slots_apart size other
      have second := slots_apart size other'
      apply read_congr
      intro l inside
      exact exchange_outside (by omega) (by omega)

end Slots

end ByteBlock
