import Mathlib.Data.Nat.ModEq
import Mathlib.Tactic.Ring

/-! Fixed-width integers in network byte order. -/
namespace BigEndian

/-- The `width` bytes of a number, most significant first; higher bits are cut off. -/
def encode : Nat → Nat → List UInt8
  | 0, _ => []
  | width + 1, value => UInt8.ofNat (value / 256 ^ width) :: encode width value

def decode (bytes : List UInt8) : Nat := bytes.foldl (fun value byte => value * 256 + byte.toNat) 0

@[simp] theorem encode_length (width value : Nat) : (encode width value).length = width := by
  induction width with
  | zero => rfl
  | succ width ih => simp [encode,ih]

theorem decode_from (bytes : List UInt8) (start : Nat) :
    bytes.foldl (fun value byte => value * 256 + byte.toNat) start =
      start * 256 ^ bytes.length + decode bytes := by
  induction bytes generalizing start with
  | nil => simp [decode]
  | cons byte rest ih =>
    simp only [decode,List.foldl_cons,List.length_cons]
    rw [ih,ih (0 * 256 + byte.toNat)]
    ring

theorem decode_cons (byte : UInt8) (rest : List UInt8) :
    decode (byte :: rest) = byte.toNat * 256 ^ rest.length + decode rest := by
  rw [decode,List.foldl_cons,decode_from]
  simp

theorem decode_encode (width value : Nat) : decode (encode width value) = value % 256 ^ width := by
  induction width with
  | zero => simp [encode,decode,Nat.mod_one]
  | succ width ih =>
    rw [encode,decode_cons,ih,encode_length,Nat.mod_pow_succ]
    simp
    ring

theorem decode_encode_of_lt (width value : Nat) (fits : value < 256 ^ width) :
    decode (encode width value) = value := by
  rw [decode_encode,Nat.mod_eq_of_lt fits]

theorem decode_lt (bytes : List UInt8) : decode bytes < 256 ^ bytes.length := by
  induction bytes with
  | nil => simp [decode]
  | cons byte rest ih =>
    have small : byte.toNat + 1 ≤ 256 := byte.toNat_lt
    rw [decode_cons,List.length_cons]
    calc byte.toNat * 256 ^ rest.length + decode rest
        < byte.toNat * 256 ^ rest.length + 256 ^ rest.length := by omega
      _ = (byte.toNat + 1) * 256 ^ rest.length := by ring
      _ ≤ 256 * 256 ^ rest.length := Nat.mul_le_mul_right _ small
      _ = 256 ^ (rest.length + 1) := by ring

/-- Multiples of a higher power do not show. -/
theorem encode_add (width high value : Nat) : encode width (high * 256 ^ width + value) = encode width value := by
  induction width generalizing high with
  | zero => rfl
  | succ width ih =>
    have split : high * 256 ^ (width + 1) + value = (high * 256) * 256 ^ width + value := by ring
    rw [encode,encode,split,ih]
    congr 1
    rw [Nat.mul_comm,Nat.mul_add_div (Nat.pow_pos (by decide))]
    apply UInt8.toNat_inj.mp
    simp

theorem encode_decode (bytes : List UInt8) : encode bytes.length (decode bytes) = bytes := by
  induction bytes with
  | nil => rfl
  | cons byte rest ih =>
    rw [List.length_cons,encode,decode_cons,encode_add,ih]
    congr 1
    rw [Nat.mul_comm,Nat.mul_add_div (Nat.pow_pos (by decide)),Nat.div_eq_of_lt (decode_lt rest)]
    simp

end BigEndian
