import Mathlib.Algebra.Group.Nat.Defs
import Tcpeen.Library.ByteBlock
import Tcpeen.Library.BoundedList
import Tcpeen.Library.Transition

/-! `tn_list_block_t` over the static array list of aws-c-common. Sizes are 64-bit words. -/
namespace Tcpeen

open ByteBlock (Block read write exchange slot)
open BoundedList (Op Reply)

/-- `malloc` as the containers see it: whether a size is granted. No object is larger than
`PTRDIFF_MAX`. -/
structure Heap where
  grants : Nat → Bool
  bounded : ∀ size, grants size = true → size < 2 ^ 63

/-- `struct aws_array_list` in static mode, where `alloc` is NULL. `touched` records offset
and size of every access to the memory at `data`. -/
structure ArrayList where
  data : Block
  currentSize : Nat
  itemSize : Nat
  length : Nat
  touched : List (Nat × Nat)

namespace ArrayList

/-- `aws_array_list_capacity`. -/
def room (l : ArrayList) : Nat := l.currentSize / l.itemSize

def items (l : ArrayList) : List (List UInt8) := (List.range l.length).map (slot l.data l.itemSize)

def initStatic (rawArray : Block) (touched : List (Nat × Nat)) (itemCount itemSize : Nat) : ArrayList where
  data := rawArray
  currentSize := itemCount * itemSize % 2 ^ 64
  itemSize := itemSize
  length := 0
  touched := touched

def offset (l : ArrayList) (index : Nat) : Nat := l.itemSize * index % 2 ^ 64

def store (l : ArrayList) (offset : Nat) (bytes : List UInt8) : ArrayList :=
  { l with data := write l.data offset bytes, touched := (offset, bytes.length) :: l.touched }

def load (l : ArrayList) (offset : Nat) : List UInt8 × ArrayList :=
  (read l.data offset l.itemSize, { l with touched := (offset, l.itemSize) :: l.touched })

/-- A list in static mode cannot grow: `aws_array_list_ensure_capacity` fails. -/
def setAt (l : ArrayList) (val : Block) (index : Nat) : Option ArrayList :=
  if l.currentSize < (index + 1) * l.itemSize % 2 ^ 64 then none
  else
    let l := l.store (l.offset index) (read val 0 l.itemSize)
    some (if l.length ≤ index then { l with length := index + 1 } else l)

def pushBack (l : ArrayList) (val : Block) : Option ArrayList := l.setAt val l.length

def back (l : ArrayList) : Option (List UInt8 × ArrayList) :=
  if 0 < l.length then some (l.load (l.offset (l.length - 1))) else none

def popBack (l : ArrayList) : Option ArrayList :=
  if 0 < l.length then
    some { l.store (l.offset (l.length - 1)) (List.replicate l.itemSize 0) with length := l.length - 1 }
  else none

def clear (l : ArrayList) : ArrayList := { l with length := 0 }

def getAt (l : ArrayList) (index : Nat) : Option (List UInt8 × ArrayList) :=
  if index < l.length then some (l.load (l.offset index)) else none

/-- The three copies through `temp`. -/
def swapBytes (l : ArrayList) (item1 item2 size : Nat) : ArrayList :=
  { l with
    data := exchange l.data item1 item2 size
    touched := (item1, size) :: (item2, size) :: l.touched }

/-- The loop of `aws_array_list_mem_swap` over slices of 128 bytes, then the rest. -/
def memSwap (l : ArrayList) : Nat → Nat → Nat → Nat → ArrayList
  | 0, item1, item2, remainder => l.swapBytes item1 item2 remainder
  | slices + 1, item1, item2, remainder =>
    memSwap (l.swapBytes item1 item2 128) slices (item1 + 128) (item2 + 128) remainder

/-- `none` is a failed assertion. -/
def swap (l : ArrayList) (a b : Nat) : Option ArrayList :=
  if a < l.length ∧ b < l.length then
    some (if a = b then l
      else l.memSwap (l.itemSize / 128) (l.offset a) (l.offset b) (l.itemSize % 128))
  else none

structure Valid (l : ArrayList) : Prop where
  sized : 0 < l.itemSize
  word : l.currentSize < 2 ^ 64
  fits : l.length ≤ l.room

/-- The size that one item more would need does not wrap. -/
def Whole (l : ArrayList) : Prop := (l.room + 1) * l.itemSize < 2 ^ 64

/-- What every operation keeps: the dimensions, and accesses inside the room. -/
structure Kept (l l' : ArrayList) : Prop where
  currentSize : l'.currentSize = l.currentSize
  itemSize : l'.itemSize = l.itemSize
  touched : ∀ run ∈ l'.touched, run ∈ l.touched ∨ run.1 + run.2 ≤ l.room * l.itemSize

variable {l l' l'' : ArrayList} {val : Block} {index : Nat}

theorem Kept.refl (l : ArrayList) : Kept l l := ⟨rfl,rfl,fun _ old => .inl old⟩

theorem Kept.room (kept : Kept l l') : l'.room = l.room := by
  rw [ArrayList.room,kept.currentSize,kept.itemSize,ArrayList.room]

theorem Kept.trans (first : Kept l l') (second : Kept l' l'') : Kept l l'' where
  currentSize := second.currentSize.trans first.currentSize
  itemSize := second.itemSize.trans first.itemSize
  touched := by
    intro run member
    rcases second.touched run member with before | inside
    · exact first.touched run before
    · rw [first.room,first.itemSize] at inside
      exact .inr inside

theorem Kept.valid (kept : Kept l l') (valid : Valid l) (fits : l'.length ≤ l.room) : Valid l' where
  sized := kept.itemSize ▸ valid.sized
  word := kept.currentSize ▸ valid.word
  fits := kept.room ▸ fits

theorem Kept.whole (kept : Kept l l') (whole : Whole l) : Whole l' := by
  rw [Whole,kept.room,kept.itemSize]
  exact whole

@[simp] theorem items_length : l.items.length = l.length := by simp [items]

theorem room_eq (l : ArrayList) : l.room = l.currentSize / l.itemSize := rfl

theorem slot_within (inside : index < l.room) :
    l.itemSize * index + l.itemSize ≤ l.room * l.itemSize := by
  rw [← Nat.mul_succ,Nat.mul_comm l.room]
  exact Nat.mul_le_mul_left _ inside

theorem Valid.offset (valid : Valid l) (inside : index < l.room) : l.offset index = l.itemSize * index := by
  have within : l.itemSize * index + l.itemSize ≤ l.room * l.itemSize := slot_within inside
  have room := Nat.div_mul_le_self l.currentSize l.itemSize
  have word := valid.word
  have sized := valid.sized
  rw [room_eq] at within
  exact Nat.mod_eq_of_lt (by omega)

theorem store_kept {bytes : List UInt8} (valid : Valid l) (inside : index < l.room)
    (sized : bytes.length = l.itemSize) : Kept l (l.store (l.offset index) bytes) := by
  refine ⟨rfl,rfl,?_⟩
  intro run member
  rcases List.mem_cons.mp member with rfl | old
  · rw [valid.offset inside,sized]
    exact .inr (slot_within inside)
  · exact .inl old

theorem store_slot {bytes : List UInt8} {other : Nat} (valid : Valid l) (inside : index < l.room)
    (sized : bytes.length = l.itemSize) :
    slot (l.store (l.offset index) bytes).data l.itemSize other =
      if other = index then bytes else slot l.data l.itemSize other := by
  rw [store,valid.offset inside]
  split
  · next equal => rw [equal,ByteBlock.slot_write_same sized]
  · next different => exact ByteBlock.slot_write_other sized different

theorem load_kept (valid : Valid l) (inside : index < l.room) : Kept l (l.load (l.offset index)).2 := by
  refine ⟨rfl,rfl,?_⟩
  intro run member
  rcases List.mem_cons.mp member with rfl | old
  · rw [valid.offset inside]
    exact .inr (slot_within inside)
  · exact .inl old

theorem load_item (valid : Valid l) (inside : index < l.room) :
    (l.load (l.offset index)).1 = slot l.data l.itemSize index := by
  rw [load,valid.offset inside,slot]

theorem pushBack_full (valid : Valid l) (whole : Whole l) (full : l.room ≤ l.length) : l.pushBack val = none := by
  apply if_pos
  obtain equal : l.length = l.room := Nat.le_antisymm valid.fits full
  rw [equal,Nat.mod_eq_of_lt whole,← Nat.div_lt_iff_lt_mul valid.sized]
  exact Nat.lt_succ_self _

theorem pushBack_room (val : Block) (valid : Valid l) (space : l.length < l.room) :
    ∃ l', l.pushBack val = some l' ∧ Kept l l' ∧ l'.items = l.items ++ [read val 0 l.itemSize] ∧
      (l.itemSize * l.length, l.itemSize) ∈ l'.touched := by
  have sized : (read val 0 l.itemSize).length = l.itemSize := ByteBlock.read_length
  have necessary : (l.length + 1) * l.itemSize ≤ l.currentSize := by
    rw [← Nat.le_div_iff_mul_le valid.sized]
    exact space
  have word := valid.word
  refine ⟨{ l.store (l.offset l.length) (read val 0 l.itemSize) with length := l.length + 1 },?_,?_,?_,?_⟩
  · rw [pushBack,setAt,Nat.mod_eq_of_lt (by omega),if_neg (Nat.not_lt.mpr necessary)]
    exact congrArg some (if_pos (Nat.le_refl _))
  · have kept := store_kept valid space sized
    exact ⟨kept.currentSize,kept.itemSize,kept.touched⟩
  · simp only [items]
    rw [List.range_succ,List.map_append,List.map_singleton]
    congr 1
    · apply List.map_congr_left
      intro i inside
      have different := Nat.ne_of_lt (List.mem_range.mp inside)
      exact (store_slot valid space sized).trans (if_neg different)
    · exact congrArg (fun item => [item]) ((store_slot valid space sized).trans (if_pos rfl))
  · rw [← valid.offset space]
    nth_rewrite 2 [← sized]
    exact List.mem_cons_self ..

theorem items_last (nonempty : 0 < l.length) :
    l.items = l.items.dropLast ++ [slot l.data l.itemSize (l.length - 1)] := by
  obtain ⟨rest,length⟩ := Nat.exists_eq_succ_of_ne_zero (Nat.ne_of_gt nonempty)
  simp only [items,length,List.range_succ,List.map_append,List.map_singleton,List.dropLast_concat,
    Nat.add_one_sub_one]

theorem back_spec (valid : Valid l) (nonempty : 0 < l.length) :
    ∃ l', l.back = some (slot l.data l.itemSize (l.length - 1), l') ∧ Kept l l' ∧
      l'.items = l.items ∧ l'.length = l.length := by
  have inside : l.length - 1 < l.room := by have := valid.fits; omega
  refine ⟨(l.load (l.offset (l.length - 1))).2,?_,load_kept valid inside,rfl,rfl⟩
  rw [back,if_pos nonempty,← load_item valid inside]

theorem popBack_spec (valid : Valid l) (nonempty : 0 < l.length) :
    ∃ l', l.popBack = some l' ∧ Kept l l' ∧ l'.items = l.items.dropLast ∧ l'.length = l.length - 1 := by
  have inside : l.length - 1 < l.room := by have := valid.fits; omega
  have sized : (List.replicate l.itemSize (0 : UInt8)).length = l.itemSize := List.length_replicate
  have kept := store_kept valid inside sized
  refine ⟨_,if_pos nonempty,⟨kept.currentSize,kept.itemSize,kept.touched⟩,?_,rfl⟩
  obtain ⟨rest,length⟩ := Nat.exists_eq_succ_of_ne_zero (Nat.ne_of_gt nonempty)
  simp only [items,length,Nat.add_one_sub_one] at inside ⊢
  rw [List.range_succ,List.map_append,List.map_singleton,List.dropLast_concat]
  apply List.map_congr_left
  intro i below
  have different := Nat.ne_of_lt (List.mem_range.mp below)
  exact (store_slot valid inside sized).trans (if_neg different)

/-- Runs at two places, one after the other, are those of one longer run. -/
theorem memSwap_spec (slices item1 item2 remainder : Nat)
    (apart : item1 + (slices * 128 + remainder) ≤ item2 ∨ item2 + (slices * 128 + remainder) ≤ item1) :
    ∃ runs, l.memSwap slices item1 item2 remainder =
        { l with
          data := exchange l.data item1 item2 (slices * 128 + remainder)
          touched := runs ++ l.touched } ∧
      ∀ run ∈ runs, run.1 + run.2 ≤ item1 + (slices * 128 + remainder) ∨
        run.1 + run.2 ≤ item2 + (slices * 128 + remainder) := by
  induction slices generalizing l item1 item2 with
  | zero =>
    refine ⟨[(item1,remainder),(item2,remainder)],by simp [memSwap,swapBytes],?_⟩
    simp
  | succ slices ih =>
    have total : 128 + (slices * 128 + remainder) = (slices + 1) * 128 + remainder := by omega
    obtain ⟨runs,equal,inside⟩ := ih (l := l.swapBytes item1 item2 128) (item1 + 128) (item2 + 128) (by omega)
    refine ⟨runs ++ [(item1,128),(item2,128)],?_,?_⟩
    · rw [memSwap,equal]
      simp only [swapBytes]
      rw [ByteBlock.exchange_append (total ▸ apart),total,List.append_assoc]
      rfl
    · intro run member
      rcases List.mem_append.mp member with later | first
      · have := inside run later
        omega
      · simp only [List.mem_cons,List.not_mem_nil,or_false] at first
        rcases first with rfl | rfl
        · exact .inl (by dsimp; omega)
        · exact .inr (by dsimp; omega)

theorem swap_spec {a b : Nat} (valid : Valid l) (first : a < l.length) (second : b < l.length) :
    ∃ l', l.swap a b = some l' ∧ Kept l l' ∧ l'.length = l.length ∧ ∀ k,
      slot l'.data l.itemSize k =
        if k = a then slot l.data l.itemSize b
        else if k = b then slot l.data l.itemSize a
        else slot l.data l.itemSize k := by
  rw [swap,if_pos ⟨first,second⟩]
  split
  · next equal =>
    subst equal
    refine ⟨l,rfl,.refl l,rfl,?_⟩
    intro k
    split
    · next place => rw [place]
    · rfl
  · next different =>
    have room := valid.fits
    have whole : l.itemSize / 128 * 128 + l.itemSize % 128 = l.itemSize := by omega
    obtain ⟨runs,equal,inside⟩ := memSwap_spec (l := l) (l.itemSize / 128) (l.itemSize * a) (l.itemSize * b)
      (l.itemSize % 128) (whole.symm ▸ ByteBlock.slots_apart _ different)
    rw [whole] at equal inside
    rw [valid.offset (by omega),valid.offset (by omega),equal]
    refine ⟨_,rfl,⟨rfl,rfl,?_⟩,rfl,fun k => ByteBlock.slot_exchange different⟩
    intro run member
    rcases List.mem_append.mp member with new | old
    · have firstWithin : l.itemSize * a + l.itemSize ≤ l.room * l.itemSize := slot_within (by omega)
      have secondWithin : l.itemSize * b + l.itemSize ≤ l.room * l.itemSize := slot_within (by omega)
      rcases inside run new with one | two
      · exact .inr (by omega)
      · exact .inr (by omega)
    · exact .inl old

/-- The last item fills the hole. -/
theorem swap_items {a : Nat} (first : a < l.length) (same : l'.length = l.length) (size : l'.itemSize = l.itemSize)
    (swapped : ∀ k, slot l'.data l.itemSize k =
      if k = a then slot l.data l.itemSize (l.length - 1)
      else if k = l.length - 1 then slot l.data l.itemSize a
      else slot l.data l.itemSize k) :
    l'.items.dropLast = BoundedList.swapRemove l.items a := by
  rw [items_last (Nat.zero_lt_of_lt first),BoundedList.swapRemove_append]
  apply List.ext_getElem
  · simp [same]
  · intro i inside inside'
    simp only [List.length_dropLast,items_length] at inside
    rw [List.getElem_set]
    simp only [items,List.getElem_dropLast,List.getElem_map,List.getElem_range,size,swapped]
    split
    · next place => rw [if_pos place.symm]
    · next other =>
      rw [if_neg (Ne.symm other),if_neg (by omega)]

end ArrayList

/-- `allocated` is the size of the block at `priv_data`. -/
structure ListBlock where
  impl : ArrayList
  allocated : Nat
  capacity : Nat
  itemSize : Nat

namespace ListBlock

/-- The size of `struct aws_array_list`. -/
def implSize : Nat := 40

/-- `none` is `TN_ERROR`. -/
def setup (heap : Heap) (memory : Block) (capacity itemSize : UInt64) : Option ListBlock :=
  let privSize := capacity.toNat * 8 % 2 ^ 64
  if heap.grants privSize = true ∧ heap.grants implSize = true then
    some {
      impl := (ArrayList.initStatic (write memory 0 (List.replicate privSize 0)) [(0, privSize)]
        capacity.toNat itemSize.toNat).clear
      allocated := privSize
      capacity := capacity.toNat
      itemSize := itemSize.toNat }
  else none

/-- What is stored through `out_index`, and the list unless the call fails. -/
def pushBack (l : ListBlock) (item : Block) : Nat × Option ListBlock :=
  (l.impl.length, (l.impl.pushBack item).map fun impl => { l with impl })

def popBack (l : ListBlock) : Option (List UInt8 × ListBlock) := do
  let (item, impl) ← l.impl.back
  let impl ← impl.popBack
  some (item, { l with impl })

def count (l : ListBlock) : Nat := l.impl.length

def clear (l : ListBlock) : ListBlock := { l with impl := l.impl.clear }

def get (l : ListBlock) (index : Nat) : Option (List UInt8 × ListBlock) :=
  (l.impl.getAt index).map fun (item, impl) => (item, { l with impl })

/-- `none` is a failed assertion; otherwise the call succeeds where `popBack` does. -/
def remove (l : ListBlock) (index : Nat) : Option (Option ListBlock) :=
  let lastIdx := (l.impl.length + 2 ^ 64 - 1) % 2 ^ 64
  (l.impl.swap index lastIdx).map fun impl => impl.popBack.map fun impl => { l with impl }

def step (l : ListBlock) : Op Block → Option (ListBlock × Reply (List UInt8))
  | .pushBack item =>
    some (match (l.pushBack item).2 with
      | none => (l, .error)
      | some l' => (l', .success))
  | .popBack =>
    some (match l.popBack with
      | none => (l, .error)
      | some (item, l') => (l', .item item))
  | .remove index =>
    (l.remove index).map fun result =>
      match result with
      | none => (l, .error)
      | some l' => (l', .success)
  | .get index =>
    some (match l.get index with
      | none => (l, .error)
      | some (item, l') => (l', .item item))
  | .count => some (l, .count l.count)
  | .clear => some (l.clear, .success)

variable {l : ListBlock} {op : Op Block}

theorem lastIdx_eq (valid : l.impl.Valid) (nonempty : 0 < l.impl.length) :
    (l.impl.length + 2 ^ 64 - 1) % 2 ^ 64 = l.impl.length - 1 := by
  have fits := valid.fits
  have word := valid.word
  have room : l.impl.room ≤ l.impl.currentSize := Nat.div_le_self ..
  omega

/-- The assertions of the calls: an item whose first word is not NULL, an index in use. -/
def Asserts (l : ListBlock) : Op Block → Prop
  | .pushBack item => ∃ i < 8, item i ≠ 0
  | .remove index => index < l.count
  | _ => True

/-- What one operation does: as the bounded list of items, inside its room. -/
structure Refines (l : ListBlock) (op : Op Block) (l' : ListBlock) (reply : Reply (List UInt8)) : Prop where
  kept : l.impl.Kept l'.impl
  allocated : l'.allocated = l.allocated
  valid : l'.impl.Valid
  applied : BoundedList.apply l.impl.room l.impl.items (op.map fun item => read item 0 l.impl.itemSize) =
    (l'.impl.items, reply)

theorem pushBack_refines (valid : l.impl.Valid) (whole : l.impl.Whole) (item : Block) :
    ∃ l' reply, l.step (.pushBack item) = some (l', reply) ∧ Refines l (.pushBack item) l' reply := by
  simp only [step,pushBack]
  by_cases full : l.impl.room ≤ l.impl.length
  · rw [ArrayList.pushBack_full valid whole full]
    exact ⟨l,.error,rfl,.refl _,rfl,valid,if_pos (by rw [ArrayList.items_length]; exact full)⟩
  · obtain ⟨impl,pushed,kept,items,-⟩ := ArrayList.pushBack_room item valid (Nat.not_le.mp full)
    rw [pushed]
    refine ⟨{ l with impl },.success,rfl,kept,rfl,kept.valid valid ?_,?_⟩
    · rw [← ArrayList.items_length,items,List.length_append,ArrayList.items_length]
      exact Nat.not_le.mp full
    · exact (if_neg (by rw [ArrayList.items_length]; exact full)).trans (by rw [items])

theorem popBack_refines (valid : l.impl.Valid) :
    ∃ l' reply, l.step .popBack = some (l', reply) ∧ Refines l .popBack l' reply := by
  simp only [step,popBack]
  by_cases nonempty : 0 < l.impl.length
  · obtain ⟨looked,last,kept,items,length⟩ := ArrayList.back_spec valid nonempty
    have valid' := kept.valid valid (length ▸ valid.fits)
    obtain ⟨impl,popped,kept',items',length'⟩ := ArrayList.popBack_spec valid' (length ▸ nonempty)
    rw [last,Option.bind_eq_bind,Option.bind_some,popped]
    have shorter : impl.length ≤ l.impl.room := by
      have := valid.fits
      omega
    refine ⟨{ l with impl },_,rfl,kept.trans kept',rfl,(kept.trans kept').valid valid shorter,?_⟩
    rw [items',items,ArrayList.items_last nonempty]
    simp [Op.map,BoundedList.apply]
  · obtain empty : l.impl.length = 0 := by omega
    have none' : l.impl.back = none := if_neg nonempty
    rw [none']
    refine ⟨l,.error,rfl,.refl _,rfl,valid,?_⟩
    simp [Op.map,BoundedList.apply,ArrayList.items,empty]

theorem remove_refines {index : Nat} (valid : l.impl.Valid) (inside : index < l.impl.length) :
    ∃ l' reply, l.step (.remove index) = some (l', reply) ∧ Refines l (.remove index) l' reply := by
  have nonempty := Nat.zero_lt_of_lt inside
  obtain ⟨swapped,swap,kept,length,slots⟩ := ArrayList.swap_spec valid inside (Nat.sub_one_lt_of_lt nonempty)
  have valid' := kept.valid valid (length ▸ valid.fits)
  obtain ⟨impl,popped,kept',items,length'⟩ := ArrayList.popBack_spec valid' (length ▸ nonempty)
  rw [ArrayList.swap_items inside length kept.itemSize slots] at items
  have shorter : impl.length ≤ l.impl.room := by
    have := valid.fits
    omega
  simp only [step,remove]
  rw [lastIdx_eq valid nonempty,swap,Option.map_some,popped]
  refine ⟨{ l with impl },.success,rfl,kept.trans kept',rfl,(kept.trans kept').valid valid shorter,?_⟩
  rw [items]
  exact if_pos (by rw [ArrayList.items_length]; exact inside)

theorem get_refines {index : Nat} (valid : l.impl.Valid) :
    ∃ l' reply, l.step (.get index) = some (l', reply) ∧ Refines l (.get index) l' reply := by
  simp only [step,get,ArrayList.getAt]
  by_cases inside : index < l.impl.length
  · have place := Nat.lt_of_lt_of_le inside valid.fits
    have kept := ArrayList.load_kept valid place
    rw [if_pos inside]
    refine ⟨{ l with impl := (l.impl.load (l.impl.offset index)).2 },_,rfl,kept,rfl,kept.valid valid valid.fits,?_⟩
    have found : l.impl.items[index]? = some (slot l.impl.data l.impl.itemSize index) := by
      simp [ArrayList.items,inside]
    simp only [Op.map,BoundedList.apply,found,ArrayList.load_item valid place]
    rfl
  · rw [if_neg inside]
    refine ⟨l,.error,rfl,.refl _,rfl,valid,?_⟩
    have missing : l.impl.items[index]? = none := by simp [ArrayList.items,Nat.not_lt.mp inside]
    simp only [Op.map,BoundedList.apply,missing]

theorem step_refines (valid : l.impl.Valid) (whole : l.impl.Whole) (asserts : l.Asserts op) :
    ∃ l' reply, l.step op = some (l', reply) ∧ Refines l op l' reply := by
  cases op with
  | pushBack item => exact pushBack_refines valid whole item
  | popBack => exact popBack_refines valid
  | remove index => exact remove_refines valid asserts
  | get index => exact get_refines valid
  | count =>
    refine ⟨l,.count l.impl.length,rfl,.refl _,rfl,valid,?_⟩
    simp [Op.map,BoundedList.apply]
  | clear => exact ⟨l.clear,.success,rfl,⟨rfl,rfl,fun _ old => .inl old⟩,rfl,
      ⟨valid.sized,valid.word,Nat.zero_le _⟩,rfl⟩

end ListBlock

end Tcpeen
