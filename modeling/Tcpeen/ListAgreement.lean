import Tcpeen.Library.BigEndian
import Tcpeen.ListPtr
import Tcpeen.ListStorage

/-! The two lists of pointers: `tn_list_ptr_t`, and `tn_list_block_t` with items of the size of a
pointer. Each is the bounded list of its items, so they agree where they have the same room. -/
namespace Tcpeen

open ByteBlock (Block)
open BoundedList (Op Reply)

/-- `none` is `TN_ERROR`. -/
def ListPtr.acquire {α : Type} (heap : Heap) (data : Nat → α) (capacity : UInt64) : Option (ListPtr α) :=
  if heap.grants (capacity.toNat * 8 % 2 ^ 64) = true then some (setup data capacity.toNat) else none

namespace ListAgreement

/-- The bytes of a pointer in memory, least significant first. -/
def pointerBytes (p : UInt64) : Block := fun i => (BigEndian.encode 8 p.toNat).reverse.getD i 0

def pointer (bytes : List UInt8) : UInt64 := UInt64.ofNat (BigEndian.decode bytes.reverse)

/-- Both lists, given the same operations. -/
structure Both where
  ptr : ListPtr UInt64
  block : ListBlock

def Both.next (s : Both) (op : Op UInt64) : Option Both :=
  (s.block.step (op.map pointerBytes)).map fun result => ⟨(s.ptr.step op).1, result.1⟩

/-- Only items that are not NULL are pushed, and only indices in use are named. -/
def Legal (s : Both) (op : Op UInt64) : Prop := op ≠ .pushBack 0 ∧ op.Inside s.ptr.count

/-- The same items, and the same reply to every operation. -/
structure Alike (s : Both) : Prop where
  items : s.block.impl.items.map pointer = s.ptr.items
  replies : ∀ op, Legal s op →
    (s.block.step (op.map pointerBytes)).map (fun result => result.2.map pointer) = some (s.ptr.step op).2

theorem pointer_read (p : UInt64) : pointer (ByteBlock.read (pointerBytes p) 0 8) = p := by
  have bytes : ByteBlock.read (pointerBytes p) 0 8 = (BigEndian.encode 8 p.toNat).reverse := by
    apply List.ext_getElem
    · simp
    · intro i inside inside'
      simp only [ByteBlock.read,pointerBytes,Nat.zero_add,List.getElem_map,List.getElem_range]
      rw [List.getD_eq_getElem?_getD,List.getElem?_eq_getElem inside',Option.getD_some]
  rw [pointer,bytes,List.reverse_reverse,BigEndian.decode_encode_of_lt _ _ p.toNat_lt,UInt64.ofNat_toNat]

theorem pointerBytes_nonzero {p : UInt64} (nonzero : p ≠ 0) : ∃ i < 8, pointerBytes p i ≠ 0 := by
  by_contra none'
  have zero : ∀ i < 8, pointerBytes 0 i = 0 := by decide
  have bytes : ByteBlock.read (pointerBytes p) 0 8 = ByteBlock.read (pointerBytes 0) 0 8 := by
    apply ByteBlock.read_congr
    intro i inside
    rw [Nat.zero_add,zero i inside]
    by_contra other
    exact none' ⟨i,inside,other⟩
  apply nonzero
  rw [← pointer_read p,bytes,pointer_read]

theorem map_pointer (op : Op UInt64) :
    ((op.map pointerBytes).map fun item => ByteBlock.read item 0 8).map pointer = op := by
  cases op with
  | pushBack item => exact congrArg Op.pushBack (pointer_read item)
  | popBack => rfl
  | remove index => rfl
  | get index => rfl
  | count => rfl
  | clear => rfl

/-- Both are bounded lists of the same items, with these capacities. -/
structure Related (c d : Nat) (s : Both) : Prop where
  valid : s.block.impl.Valid
  whole : s.block.impl.Whole
  itemSize : s.block.impl.itemSize = 8
  room : s.block.impl.room = c
  capacity : s.ptr.capacity = d
  items : s.block.impl.items.map pointer = s.ptr.items

variable {c d : Nat} {s : Both} {op : Op UInt64}

theorem Related.asserts (related : Related c d s) (legal : Legal s op) :
    s.block.Asserts (op.map pointerBytes) := by
  cases op with
  | pushBack item => exact pointerBytes_nonzero fun zero => legal.1 (zero ▸ rfl)
  | popBack => trivial
  | remove index =>
    have length := congrArg List.length related.items
    rw [List.length_map,ArrayList.items_length,ListPtr.items_length] at length
    exact Nat.lt_of_lt_of_eq legal.2 length.symm
  | get index => trivial
  | count => trivial
  | clear => trivial

/-- One operation on both lists, each as the bounded list. -/
theorem Related.step (related : Related c d s) (legal : Legal s op) :
    ∃ block reply, s.block.step (op.map pointerBytes) = some (block, reply) ∧
      (block.impl.items.map pointer, reply.map pointer) = BoundedList.apply c s.ptr.items op ∧
      ((s.ptr.step op).1.items, (s.ptr.step op).2) = BoundedList.apply d s.ptr.items op ∧
      (block.impl.items.map pointer = (s.ptr.step op).1.items → Related c d ⟨(s.ptr.step op).1, block⟩) := by
  obtain ⟨block,reply,stepped,refines⟩ := ListBlock.step_refines related.valid related.whole (related.asserts legal)
  obtain ⟨ptr,capacity⟩ := ListPtr.step_refines legal.2
  rw [related.capacity] at ptr capacity
  have mapped := BoundedList.apply_map pointer s.block.impl.room s.block.impl.items
    ((op.map pointerBytes).map fun item => ByteBlock.read item 0 s.block.impl.itemSize)
  rw [refines.applied,related.itemSize,map_pointer,related.room,related.items] at mapped
  refine ⟨block,reply,stepped,mapped.symm,ptr,?_⟩
  intro items
  exact ⟨refines.valid,refines.kept.whole related.whole,refines.kept.itemSize.trans related.itemSize,
    refines.kept.room.trans related.room,capacity,items⟩

theorem Related.alike (related : Related c c s) : Alike s := by
  refine ⟨related.items,?_⟩
  intro op legal
  obtain ⟨block,reply,stepped,applied,ptr,-⟩ := related.step legal
  rw [stepped,Option.map_some]
  exact congrArg some (congrArg Prod.snd (applied.trans ptr.symm))

theorem Related.next {s' : Both} (related : Related c c s) (legal : Legal s op) (taken : s.next op = some s') :
    Related c c s' := by
  obtain ⟨block,reply,stepped,applied,ptr,later⟩ := related.step legal
  rw [Both.next,stepped] at taken
  obtain rfl := Option.some.inj taken
  exact later (congrArg Prod.fst (applied.trans ptr.symm))

/-- Pushes up to the smaller of two capacities. -/
theorem pushes {start : Both} (less : c < d) (related : Related c d start) (empty : start.ptr.items = [])
    (number : Nat) (room : number ≤ c) :
    ∃ s, Transition.Reachable Both.next Legal start s ∧ Related c d s ∧ s.ptr.items.length = number := by
  induction number with
  | zero => exact ⟨start,.start,related,by rw [empty,List.length_nil]⟩
  | succ number ih =>
    obtain ⟨s,reach,before,length⟩ := ih (Nat.le_of_succ_le room)
    have legal : Legal s (.pushBack 1) := ⟨by simp,trivial⟩
    obtain ⟨block,reply,stepped,applied,ptr,later⟩ := before.step legal
    have small : BoundedList.apply c s.ptr.items (.pushBack 1) = (s.ptr.items ++ [1], .success) :=
      if_neg (by omega)
    have large : BoundedList.apply d s.ptr.items (.pushBack 1) = (s.ptr.items ++ [1], .success) :=
      if_neg (by omega)
    rw [small] at applied
    rw [large] at ptr
    have items : (s.ptr.step (.pushBack 1)).1.items = s.ptr.items ++ [1] := congrArg Prod.fst ptr
    refine ⟨⟨(s.ptr.step (.pushBack 1)).1,block⟩,.step reach legal ?_,later ?_,?_⟩
    · rw [Both.next,Op.map,show s.block.step (.pushBack (pointerBytes 1)) = some (block, reply) from stepped]
      rfl
    · exact (congrArg Prod.fst applied).trans items.symm
    · rw [items,List.length_append,length,List.length_singleton]

/-- The push on top of them succeeds on one list only. -/
theorem differs {start : Both} (less : c < d) (related : Related c d start) (empty : start.ptr.items = []) :
    ∃ s, Transition.Reachable Both.next Legal start s ∧ ¬ Alike s := by
  obtain ⟨s,reach,full,length⟩ := pushes less related empty c (Nat.le_refl c)
  refine ⟨s,reach,?_⟩
  intro alike
  have legal : Legal s (.pushBack 1) := ⟨by simp,trivial⟩
  obtain ⟨block,reply,stepped,applied,ptr,-⟩ := full.step legal
  have same := alike.replies _ legal
  rw [stepped,Option.map_some] at same
  have refused : BoundedList.apply c s.ptr.items (.pushBack 1) = (s.ptr.items, .error) := if_pos (by omega)
  have accepted : BoundedList.apply d s.ptr.items (.pushBack 1) = (s.ptr.items ++ [1], .success) :=
    if_neg (by omega)
  rw [refused] at applied
  rw [accepted] at ptr
  rw [(Prod.mk.inj applied).2,(Prod.mk.inj ptr).2] at same
  exact absurd (Option.some.inj same) (by simp)

section Setup

variable {heap : Heap} {data : Nat → UInt64} {memory : Block} {capacity : UInt64} {ptr : ListPtr UInt64}
  {block : ListBlock}

theorem setup_related (first : ListPtr.acquire heap data capacity = some ptr)
    (second : ListBlock.setup heap memory capacity 8 = some block) :
    Related (capacity.toNat % 2 ^ 61) capacity.toNat ⟨ptr, block⟩ ∧ ptr.items = [] := by
  simp only [ListPtr.acquire] at first
  split at first
  · obtain rfl := Option.some.inj first
    obtain ⟨currentSize,itemSize,length,-,allocated,bounded⟩ := ListBlock.setup_spec second
    have size : block.impl.itemSize = 8 := itemSize
    have room : block.impl.room = capacity.toNat % 2 ^ 61 := by
      have eight : (8 : UInt64).toNat = 8 := rfl
      rw [ArrayList.room,size,currentSize,eight]
      omega
    refine ⟨⟨ListBlock.setup_valid second (by decide),?_,size,room,rfl,?_⟩,rfl⟩
    · rw [ArrayList.Whole,room,size]
      omega
    · simp [ArrayList.items,length]
  · contradiction

end Setup

/-- For every capacity with which both lists are set up: whatever the operations, both hold the
same items and reply the same, if and only if the capacity in bytes does not wrap. -/
theorem lists_agree (heap : Heap) (data : Nat → UInt64) (memory : Block) (capacity : UInt64) (ptr : ListPtr UInt64)
    (block : ListBlock) (first : ListPtr.acquire heap data capacity = some ptr)
    (second : ListBlock.setup heap memory capacity 8 = some block) :
    (∀ s, Transition.Reachable Both.next Legal ⟨ptr, block⟩ s → Alike s) ↔ capacity.toNat < 2 ^ 61 := by
  obtain ⟨related,empty⟩ := setup_related first second
  constructor
  · intro always
    by_contra wraps
    obtain ⟨s,reach,different⟩ := differs (by omega) related empty
    exact different (always s reach)
  · intro fits s reach
    rw [Nat.mod_eq_of_lt fits] at related
    have kept := reach.invariant (Related capacity.toNat capacity.toNat) related
      (fun s op t before legal taken => before.next legal taken)
    exact kept.alike

/-- The lists of the tests, with room for 128 pointers. -/
theorem lists_agree_pointers :
    ∃ ptr block, ListPtr.acquire ListBlock.generous (fun _ => 0) 128 = some ptr ∧
      ListBlock.setup ListBlock.generous (fun _ => 0) 128 8 = some block ∧
      ∀ s, Transition.Reachable Both.next Legal ⟨ptr, block⟩ s → Alike s :=
  ⟨_,_,rfl,rfl,(lists_agree ListBlock.generous (fun _ => 0) (fun _ => 0) 128 _ _ rfl rfl).mpr (by decide)⟩

/-- With room for 2^61 + 1 pointers, whose size wraps to that of one, only one list takes a
second item. -/
theorem lists_differ :
    ¬ ∀ (heap : Heap) (data : Nat → UInt64) (memory : Block) (capacity : UInt64) (ptr : ListPtr UInt64)
      (block : ListBlock), 1 ≤ capacity → ListPtr.acquire heap data capacity = some ptr →
      ListBlock.setup heap memory capacity 8 = some block →
      ∀ s, Transition.Reachable Both.next Legal ⟨ptr, block⟩ s → Alike s := by
  intro always
  obtain ⟨ptr,first⟩ := Option.isSome_iff_exists.mp
    (show (ListPtr.acquire ListBlock.generous (fun _ => (0 : UInt64)) 2305843009213693953).isSome from rfl)
  obtain ⟨block,second⟩ := Option.isSome_iff_exists.mp
    (show (ListBlock.setup ListBlock.generous (fun _ => 0) 2305843009213693953 8).isSome from rfl)
  obtain ⟨related,empty⟩ := setup_related first second
  obtain ⟨s,reach,different⟩ := differs (by decide) related empty
  exact different (always _ _ _ _ _ _ (by decide) first second s reach)

end ListAgreement

end Tcpeen
