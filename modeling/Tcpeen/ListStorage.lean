import Tcpeen.ListBlock

/-! Accesses of `tn_list_block_t` against the size of its block. The block is sized for
pointers, the array list in it for items. -/
namespace Tcpeen.ListBlock

open ByteBlock (Block)
open BoundedList (Op)

/-- Every byte read or written lies in the block. -/
def InBlock (l : ListBlock) : Prop :=
  ∀ run ∈ l.impl.touched, ∀ i < run.2, run.1 + i < l.allocated

def next (l : ListBlock) (op : Op Block) : Option ListBlock := (l.step op).map (·.1)

/-- The whole items that the array list has room for, in bytes, against the bytes allocated. -/
def Covered (capacity itemSize : UInt64) : Prop :=
  capacity.toNat * itemSize.toNat % 2 ^ 64 / itemSize.toNat * itemSize.toNat ≤ capacity.toNat * 8 % 2 ^ 64

instance (capacity itemSize : UInt64) : Decidable (Covered capacity itemSize) :=
  inferInstanceAs (Decidable (_ ≤ _))

/-- Where neither size wraps, the items must not be larger than a pointer. -/
theorem covered_iff {capacity itemSize : UInt64} (positive : 1 ≤ capacity.toNat)
    (items : capacity.toNat * itemSize.toNat < 2 ^ 64) (pointers : capacity.toNat * 8 < 2 ^ 64) :
    Covered capacity itemSize ↔ itemSize.toNat ≤ 8 := by
  rw [Covered,Nat.mod_eq_of_lt items,Nat.mod_eq_of_lt pointers,Nat.div_mul_cancel (Nat.dvd_mul_left ..)]
  exact Nat.mul_le_mul_left_iff positive

section Setup

variable {heap : Heap} {memory : Block} {capacity itemSize : UInt64} {l : ListBlock}

theorem setup_spec (done : setup heap memory capacity itemSize = some l) :
    l.impl.currentSize = capacity.toNat * itemSize.toNat % 2 ^ 64 ∧ l.impl.itemSize = itemSize.toNat ∧
      l.impl.length = 0 ∧ l.impl.touched = [(0, l.allocated)] ∧
      l.allocated = capacity.toNat * 8 % 2 ^ 64 ∧ l.allocated < 2 ^ 63 := by
  simp only [setup] at done
  split at done
  · next granted =>
    obtain rfl := Option.some.inj done
    exact ⟨rfl,rfl,rfl,rfl,rfl,heap.bounded _ granted.1⟩
  · contradiction

theorem setup_valid (done : setup heap memory capacity itemSize = some l) (sized : 1 ≤ itemSize.toNat) :
    l.impl.Valid := by
  obtain ⟨currentSize,size,length,-,-,-⟩ := setup_spec done
  refine ⟨size ▸ sized,?_,length ▸ Nat.zero_le _⟩
  rw [currentSize]
  exact Nat.mod_lt _ (by decide)

theorem setup_covered (done : setup heap memory capacity itemSize = some l) :
    Covered capacity itemSize ↔ l.impl.room * l.impl.itemSize ≤ l.allocated := by
  obtain ⟨currentSize,size,-,-,allocated,-⟩ := setup_spec done
  rw [Covered,ArrayList.room,currentSize,size,allocated]

theorem setup_whole (done : setup heap memory capacity itemSize = some l) (covered : Covered capacity itemSize) :
    l.impl.Whole := by
  obtain ⟨-,size,-,-,-,bounded⟩ := setup_spec done
  have inside := (setup_covered done).mp covered
  have word : l.impl.itemSize < 2 ^ 64 := size ▸ itemSize.toNat_lt
  rw [ArrayList.Whole,Nat.succ_mul]
  rcases Nat.eq_zero_or_pos l.impl.room with none' | some'
  · rw [none']
    omega
  · have least : l.impl.itemSize ≤ l.impl.room * l.impl.itemSize := Nat.le_mul_of_pos_left _ some'
    omega

end Setup

/-- What holds in every state of a run from a list whose room is covered. -/
structure Contained (start l : ListBlock) : Prop where
  valid : l.impl.Valid
  kept : start.impl.Kept l.impl
  allocated : l.allocated = start.allocated

variable {start l l' : ListBlock} {op : Op Block}

theorem Contained.step (contained : Contained start l) (whole : start.impl.Whole) (asserts : l.Asserts op)
    (taken : l.next op = some l') : Contained start l' := by
  obtain ⟨after,reply,stepped,refines⟩ := step_refines contained.valid (contained.kept.whole whole) asserts
  rw [next,stepped] at taken
  obtain rfl := Option.some.inj taken
  exact ⟨refines.valid,contained.kept.trans refines.kept,refines.allocated.trans contained.allocated⟩

theorem Contained.inBlock (contained : Contained start l) (initial : start.impl.touched = [(0, start.allocated)])
    (covered : start.impl.room * start.impl.itemSize ≤ start.allocated) : l.InBlock := by
  intro run member i inside
  rw [contained.allocated]
  rcases contained.kept.touched run member with first | within
  · rw [initial,List.mem_singleton] at first
    subst first
    simpa using inside
  · omega

theorem push_next (contained : Contained start l) (item : Block) (space : l.impl.length < start.impl.room) :
    ∃ l', l.next (.pushBack item) = some l' ∧ Contained start l' ∧ l'.impl.length = l.impl.length + 1 ∧
      (start.impl.itemSize * l.impl.length, start.impl.itemSize) ∈ l'.impl.touched := by
  obtain ⟨impl,pushed,kept,items,touched⟩ :=
    ArrayList.pushBack_room item contained.valid (contained.kept.room.symm ▸ space)
  have length : impl.length = l.impl.length + 1 := by
    rw [← ArrayList.items_length,items,List.length_append,ArrayList.items_length,List.length_singleton]
  have kept' := contained.kept.trans kept
  refine ⟨{ l with impl },?_,⟨?_,kept',contained.allocated⟩,length,?_⟩
  · simp only [next,step,pushBack,pushed,Option.map_some]
  · apply kept.valid contained.valid
    rw [length,contained.kept.room]
    exact space
  · rw [← contained.kept.itemSize]
    exact touched

/-- As many pushes as there is room for, whether or not the room is covered. -/
theorem pushes (initial : Contained start start) (empty : start.impl.length = 0) {item : Block}
    (given : ∃ i < 8, item i ≠ 0) (number : Nat) (room : number ≤ start.impl.room) :
    ∃ l, Transition.Reachable next Asserts start l ∧ Contained start l ∧ l.impl.length = number := by
  induction number with
  | zero => exact ⟨start,.start,initial,empty⟩
  | succ number ih =>
    obtain ⟨l,reach,contained,length⟩ := ih (Nat.le_of_succ_le room)
    obtain ⟨l',taken,contained',length',-⟩ := push_next contained item (length ▸ room)
    have asserts : l.Asserts (.pushBack item) := given
    exact ⟨l',.step reach asserts taken,contained',length ▸ length'⟩

/-- The push that fills the room writes past the block. -/
theorem escapes {heap : Heap} {memory : Block} {capacity itemSize : UInt64} (sized : 1 ≤ itemSize.toNat)
    (done : setup heap memory capacity itemSize = some l) (exceeds : ¬ Covered capacity itemSize) :
    ∃ l', Transition.Reachable next Asserts l l' ∧ ¬ l'.InBlock := by
  have valid := setup_valid done sized
  have initial : Contained l l := ⟨valid,.refl _,rfl⟩
  have sized' := valid.sized
  obtain ⟨-,-,empty,-,-,-⟩ := setup_spec done
  rw [setup_covered done] at exceeds
  have nonzero : l.impl.room ≠ 0 := by
    intro zero
    rw [zero] at exceeds
    omega
  obtain ⟨last,room⟩ := Nat.exists_eq_succ_of_ne_zero nonzero
  have given : ∃ i < 8, (fun _ => 1 : Block) i ≠ 0 := ⟨0,by decide,by decide⟩
  obtain ⟨before,reach,contained,length⟩ := pushes initial empty given last (by omega)
  obtain ⟨after,taken,contained',-,run⟩ := push_next contained (fun _ => 1) (by omega)
  have asserts : before.Asserts (.pushBack fun _ => 1) := given
  refine ⟨after,.step reach asserts taken,?_⟩
  intro inBlock
  have inside := inBlock _ run (l.impl.itemSize - 1) (by dsimp; omega)
  rw [contained'.allocated,length] at inside
  rw [room,Nat.succ_mul,Nat.mul_comm] at exceeds
  dsimp at inside
  omega

/-- For every capacity and item size with which the setup succeeds: no operation leaves the block
if and only if the room of the array list is covered by it. -/
theorem storage_bound (heap : Heap) (memory : Block) (capacity itemSize : UInt64) (l : ListBlock)
    (sized : 1 ≤ itemSize) (done : setup heap memory capacity itemSize = some l) :
    (∀ l', Transition.Reachable next Asserts l l' → l'.InBlock) ↔ Covered capacity itemSize := by
  have sized' := UInt64.le_iff_toNat_le.mp sized
  constructor
  · intro always
    by_contra exceeds
    obtain ⟨l',reach,outside⟩ := escapes sized' done exceeds
    exact outside (always l' reach)
  · intro covered l' reach
    have whole := setup_whole done covered
    have initial : Contained l l := ⟨setup_valid done sized',.refl _,rfl⟩
    obtain ⟨-,-,-,touched,-,-⟩ := setup_spec done
    have contained := reach.invariant (Contained l) initial
      (fun s op t contained asserts taken => contained.step whole asserts taken)
    exact contained.inBlock touched ((setup_covered done).mp covered)

/-- Every size that `malloc` may grant is granted. -/
def generous : Heap where
  grants := fun size => size < 2 ^ 63
  bounded := by simp

/-- A list for 128 pointers. -/
theorem storage_bound_pointers :
    ∃ l, setup generous (fun _ => 0) 128 8 = some l ∧
      ∀ l', Transition.Reachable next Asserts l l' → l'.InBlock :=
  ⟨_,rfl,(storage_bound generous (fun _ => 0) 128 8 _ (by decide) rfl).mpr (by decide)⟩

/-- A list for 8 items of 128 bytes has 64 bytes. -/
theorem storage_exceeded :
    ¬ ∀ (heap : Heap) (memory : Block) (capacity itemSize : UInt64) (l : ListBlock), 1 ≤ capacity → 1 ≤ itemSize →
      setup heap memory capacity itemSize = some l →
      ∀ l', Transition.Reachable next Asserts l l' → l'.InBlock := by
  intro always
  obtain ⟨l,ready⟩ := Option.isSome_iff_exists.mp (show (setup generous (fun _ => 0) 8 128).isSome from rfl)
  obtain ⟨l',reach,outside⟩ := escapes (by decide) ready (by decide)
  exact outside (always _ _ _ _ _ (by decide) (by decide) ready l' reach)

end Tcpeen.ListBlock
