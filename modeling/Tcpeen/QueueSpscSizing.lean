import Mathlib.Order.Bounds.Basic
import Tcpeen.QueueSpscSimulation

/-! The sizes that `tn_queue_spsc_setup` gives a ring. -/
namespace Tcpeen.QueueSpsc

/-- For every capacity up to 2^63: the ring has the least power of two that is not below it, and
from every index on, also where the indices wrap, as many slots as that, all different. -/
theorem ring_sizing {V : Type} (allocation : Nat → V) (capacity : Word) (positive : 1 ≤ capacity.toNat)
    (bound : capacity.toNat ≤ 2 ^ 63) :
    ∃ q, setup (some allocation) capacity = some q ∧
      IsLeast {size | size.isPowerOfTwo ∧ capacity.toNat ≤ size} q.capacity.toNat ∧
      q.mask.toNat = q.capacity.toNat - 1 ∧
      ∀ tail : Word,
        (∀ i < q.capacity.toNat, q.slot (tail + BitVec.ofNat 64 i) < q.capacity.toNat) ∧
        ∀ i < q.capacity.toNat, ∀ j < q.capacity.toNat,
          q.slot (tail + BitVec.ofNat 64 i) = q.slot (tail + BitVec.ofNat 64 j) → i = j := by
  have nonzero : capacity ≠ 0 := by
    rintro rfl
    exact absurd positive (by decide)
  obtain ⟨bits,small,rounded,least⟩ := roundCapacity_least nonzero bound
  have wide : 2 ^ bits < 2 ^ 64 := Nat.pow_lt_pow_right (by decide) small
  have size : (roundCapacity capacity).toNat = 2 ^ bits := by
    rw [rounded,BitVec.toNat_ofNat,Nat.mod_eq_of_lt wide]
  have nonzero' : roundCapacity capacity ≠ 0 := by
    intro zero
    rw [zero] at size
    exact absurd size (Nat.ne_of_lt (Nat.two_pow_pos bits))
  refine ⟨_,rfl,?_,toNat_sub_one nonzero',?_⟩
  · rw [size]
    refine ⟨⟨⟨bits,rfl⟩,(least bits).mpr (Nat.le_refl _)⟩,?_⟩
    rintro other ⟨⟨n,rfl⟩,inside⟩
    exact Nat.pow_le_pow_right (by decide) ((least n).mp inside)
  · intro tail
    have mask : roundCapacity capacity - 1 = BitVec.ofNat 64 (2 ^ bits) - 1 := by rw [rounded]
    rw [size]
    constructor
    · intro i _
      rw [slot_eq _ bits small mask]
      exact Nat.mod_lt _ (Nat.two_pow_pos bits)
    · intro i first j second same
      exact slot_injective _ bits small mask tail i j first second same

/-- The greatest capacity, with a window across 2^64. -/
theorem ring_sizing_greatest :
    ∃ q : Queue Nat, setup (some fun _ => 0) (BitVec.ofNat 64 (2 ^ 63)) = some q ∧ q.capacity.toNat = 2 ^ 63 ∧
      q.slot (-1 + BitVec.ofNat 64 1) < 2 ^ 63 := by
  obtain ⟨q,made,least,-,slots⟩ :=
    ring_sizing (fun _ => 0) (BitVec.ofNat 64 (2 ^ 63)) (by decide) (by decide)
  obtain rfl := Option.some.inj made
  exact ⟨_,rfl,by decide,(slots (-1)).1 1 (by decide)⟩

end Tcpeen.QueueSpsc
