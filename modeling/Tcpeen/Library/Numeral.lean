import Mathlib.Data.Nat.Digits.Lemmas

/-! Numerals in a base, most significant digit first. Zero is written with one digit and no
other number begins with a zero. -/
namespace Numeral

def numeral (base n : Nat) : List Nat := if n = 0 then [0] else (Nat.digits base n).reverse

/-- The value that a run over the digits accumulates. -/
def value (base : Nat) (digits : List Nat) : Nat := digits.foldl (fun n d => n * base + d) 0

section Base

variable {base n d : Nat}

@[simp] theorem value_nil (base : Nat) : value base [] = 0 := rfl

@[simp] theorem value_concat (base : Nat) (digits : List Nat) (d : Nat) :
    value base (digits ++ [d]) = value base digits * base + d := by
  simp [value]

@[simp] theorem numeral_digit (below : d < base) : numeral base d = [d] := by
  by_cases zero : d = 0
  · simp [numeral,zero]
  · rw [numeral,if_neg zero,Nat.digits_of_lt base d zero below]
    rfl

theorem numeral_concat (two : 2 ≤ base) (positive : 0 < n) (below : d < base) :
    numeral base (n * base + d) = numeral base n ++ [d] := by
  have nonzero : n * base + d ≠ 0 := by
    have := Nat.mul_pos positive (show 0 < base by omega)
    omega
  rw [numeral,if_neg nonzero,Nat.add_comm,Nat.mul_comm,Nat.digits_add base two d n below (.inr positive.ne')]
  rw [numeral,if_neg positive.ne',List.reverse_cons]

/-- A number has one digit, or a shorter numeral in front of its last digit. -/
theorem numeral_induction {motive : Nat → Prop} (two : 2 ≤ base) (digit : ∀ d < base, motive d)
    (concat : ∀ n d, 0 < n → d < base → motive n → motive (n * base + d)) (n : Nat) : motive n := by
  induction n using Nat.strongRecOn with
  | _ n ih =>
    by_cases below : n < base
    · exact digit n below
    · have positive : 0 < n / base := Nat.div_pos (by omega) (by omega)
      have shorter : n / base < n := Nat.div_lt_self (by omega) (by omega)
      have whole := concat (n / base) (n % base) positive (Nat.mod_lt _ (by omega)) (ih _ shorter)
      rwa [Nat.div_add_mod'] at whole

theorem value_numeral (two : 2 ≤ base) (n : Nat) : value base (numeral base n) = n := by
  induction n using numeral_induction two with
  | digit d below => simp [value,below]
  | concat n d positive below ih => rw [numeral_concat two positive below,value_concat,ih]

theorem numeral_injective (two : 2 ≤ base) : Function.Injective (numeral base) :=
  Function.LeftInverse.injective (value_numeral two)

theorem numeral_ne_nil (two : 2 ≤ base) (n : Nat) : numeral base n ≠ [] := by
  induction n using numeral_induction two with
  | digit d below => simp [below]
  | concat n d positive below ih => simp [numeral_concat two positive below]

theorem numeral_below (two : 2 ≤ base) (n : Nat) : ∀ d ∈ numeral base n, d < base := by
  induction n using numeral_induction two with
  | digit d below => simp [below]
  | concat n d positive below ih =>
    rw [numeral_concat two positive below]
    simp only [List.mem_append,List.mem_singleton]
    rintro x (member | rfl)
    · exact ih x member
    · exact below

theorem numeral_length_le (two : 2 ≤ base) {k : Nat} (some' : 1 ≤ k) (small : n < base ^ k) :
    (numeral base n).length ≤ k := by
  by_cases zero : n = 0
  · simpa [numeral,zero] using some'
  · rw [numeral,if_neg zero,List.length_reverse]
    exact (Nat.digits_length_le_iff two n).mpr small

end Base

end Numeral
