import Mathlib.Data.BitVec

/-! Filling the bits below the highest one by or-ing shifted copies of a word, the usual way
to round up to a power of two. -/
namespace Smear

variable {width top count : Nat} {x : BitVec width}

/-- No bit above `top` is set, and the `count` bits from `top` downwards all are. -/
structure Smeared (top count : Nat) (x : BitVec width) : Prop where
  inside : ∀ i, x.getLsbD i = true → i ≤ top
  filled : ∀ i, i ≤ top → top < i + count → x.getLsbD i = true

theorem start (positive : x.toNat ≠ 0) : Smeared x.toNat.log2 1 x where
  inside := by
    intro i set
    by_contra above
    have small : x.toNat < 2 ^ i :=
      Nat.lt_of_lt_of_le Nat.lt_log2_self (Nat.pow_le_pow_right (by decide) (by omega))
    rw [BitVec.getLsbD,Nat.testBit_lt_two_pow small] at set
    contradiction
  filled := by
    intro i below above
    obtain rfl : i = x.toNat.log2 := by omega
    exact Nat.testBit_log2 positive

/-- One shift doubles the filled part. -/
theorem Smeared.double (smeared : Smeared top count x) :
    Smeared top (count + count) (x ||| (x >>> count)) where
  inside := by
    intro i set
    rw [BitVec.getLsbD_or,BitVec.getLsbD_ushiftRight,Bool.or_eq_true] at set
    rcases set with old | shifted
    · exact smeared.inside i old
    · have := smeared.inside (count + i) shifted
      omega
  filled := by
    intro i below above
    rw [BitVec.getLsbD_or,BitVec.getLsbD_ushiftRight,Bool.or_eq_true]
    by_cases near : top < i + count
    · exact .inl (smeared.filled i below near)
    · exact .inr (smeared.filled (count + i) (by omega) (by omega))

theorem Smeared.complete (smeared : Smeared top count x) (all : top < count) :
    x = BitVec.ofNat width (2 ^ (top + 1) - 1) := by
  apply BitVec.eq_of_getLsbD_eq
  intro i inside
  rw [BitVec.getLsbD_ofNat,Nat.testBit_two_pow_sub_one]
  by_cases below : i ≤ top
  · rw [smeared.filled i below (by omega)]
    simp [inside,Nat.lt_succ_of_le below]
  · have clear : x.getLsbD i = false := Bool.eq_false_iff.mpr fun set => below (smeared.inside i set)
    simp [clear]
    omega

theorem Smeared.succ (smeared : Smeared top count x) (all : top < count) :
    x + 1 = BitVec.ofNat width (2 ^ (top + 1)) := by
  have positive := Nat.two_pow_pos (top + 1)
  rw [smeared.complete all]
  change _ + BitVec.ofNat width 1 = _
  rw [← BitVec.ofNat_add,Nat.sub_add_cancel positive]

end Smear
