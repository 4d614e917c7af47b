import Mathlib.Data.List.GetD
import Tcpeen.Library.Numeral

/-! inet.c of libuv. A text is the bytes in front of its terminator; `none` is UV_EINVAL. -/
namespace Tcpeen.Inet

open Numeral

abbrev Text := List UInt8

inductive UvError
  | inval | noSpc | afNoSupport
  deriving DecidableEq, Repr

/-- `struct in_addr`, in network order. -/
@[ext] structure InAddr where
  bytes : List UInt8
  size : bytes.length = 4
  deriving DecidableEq

/-- `struct in6_addr`. -/
@[ext] structure In6Addr where
  bytes : List UInt8
  size : bytes.length = 16
  deriving DecidableEq

def digits : Text := [48,49,50,51,52,53,54,55,56,57]

def xdigitsL : Text := digits ++ [97,98,99,100,101,102]

def xdigitsU : Text := digits ++ [65,66,67,68,69,70]

/-- How far into the table `strchr` finds a character. -/
def strchr (table : Text) (ch : UInt8) : Option Nat := table.idxOf? ch

/-- What `%u` and `%x` print, with their table of digits. -/
def printed (table : Text) (n : Nat) : Text := (numeral table.length n).map fun d => table.getD d 0

/-- `uv__strscpy`; its result is negative where the text is cut. -/
def strscpy (s : Text) (n : Nat) : Text × Bool := if s.length < n then (s, true) else (s.take (n - 1), n = 0)

/-- `"%u.%u.%u.%u"`. -/
def dotted (src : List UInt8) : Text :=
  let u (i : Nat) := printed digits (src.getD i 0).toNat
  u 0 ++ 46 :: (u 1 ++ 46 :: (u 2 ++ 46 :: u 3))

/-- `tmp` has 16 bytes. -/
def inetNtop4 (src : List UInt8) (size : Nat) : Except UvError Text :=
  let l := (dotted src).length
  let tmp := (dotted src).take 15
  if l = 0 ∨ size ≤ l then .error .noSpc else .ok (strscpy tmp size).1

/-- The loop of `inet_pton4`: `tmp` is what lies before `tp`, and `cur` is the byte it points to. -/
def pton4Loop : Text → Bool → Nat → List UInt8 → Nat → Option (List UInt8)
  | [], _, octets, tmp, cur => if octets < 4 then none else some (tmp ++ [UInt8.ofNat cur])
  | ch :: src, sawDigit, octets, tmp, cur =>
    match strchr digits ch with
    | some pch =>
      let nw := cur * 10 + pch
      if sawDigit && cur = 0 then none
      else if 255 < nw then none
      else if !sawDigit then
        if 4 < octets + 1 then none else pton4Loop src true (octets + 1) tmp nw
      else pton4Loop src true octets tmp nw
    | none =>
      if ch = 46 && sawDigit then
        if octets = 4 then none else pton4Loop src false octets (tmp ++ [UInt8.ofNat cur]) 0
      else none

def inetPton4 (src : Text) : Option (List UInt8) := pton4Loop src false 0 [] 0

section Tables

variable {table : Text} {ch : UInt8} {d n : Nat}

theorem strchr_some (found : strchr table ch = some d) : d < table.length ∧ ch = table.getD d 0 := by
  obtain ⟨inside,equal,-⟩ := List.idxOf?_eq_some_iff.mp found
  exact ⟨inside,by rw [← equal,← List.getD_eq_getElem]⟩

theorem strchr_table (distinct : table.Nodup) (inside : d < table.length) :
    strchr table (table.getD d 0) = some d := by
  rw [List.getD_eq_getElem _ _ inside]
  refine List.idxOf?_eq_some_iff.mpr ⟨inside,rfl,?_⟩
  intro j before same
  have := (distinct.getElem_inj_iff).mp same
  omega

theorem printed_digit (inside : d < table.length) : printed table d = [table.getD d 0] := by
  simp [printed,inside]

theorem printed_concat (two : 2 ≤ table.length) (positive : 0 < n) (inside : d < table.length) :
    printed table (n * table.length + d) = printed table n ++ [table.getD d 0] := by
  simp [printed,numeral_concat two positive inside]

theorem printed_ne_nil (two : 2 ≤ table.length) (n : Nat) : printed table n ≠ [] := by
  simp [printed,numeral_ne_nil two]

theorem printed_mem (two : 2 ≤ table.length) : ∀ b ∈ printed table n, b ∈ table := by
  intro b member
  obtain ⟨d,inside,rfl⟩ := List.mem_map.mp member
  have below := numeral_below two n d inside
  rw [List.getD_eq_getElem _ _ below]
  exact List.getElem_mem below

theorem printed_injective (two : 2 ≤ table.length) (distinct : table.Nodup) : Function.Injective (printed table) := by
  have read (n : Nat) : (printed table n).map (strchr table) = (numeral table.length n).map some := by
    rw [printed,List.map_map]
    apply List.map_congr_left
    intro d member
    exact strchr_table distinct (numeral_below two n d member)
  intro n m same
  have numerals := congrArg (List.map (strchr table)) same
  rw [read,read] at numerals
  exact numeral_injective two (List.map_injective_iff.mpr (Option.some_injective _) numerals)

theorem printed_length_le (two : 2 ≤ table.length) {k : Nat} (some' : 1 ≤ k) (small : n < table.length ^ k) :
    (printed table n).length ≤ k := by
  rw [printed,List.length_map]
  exact numeral_length_le two some' small

end Tables

section Quads

variable {src rest tmp bytes : List UInt8} {octets cur : Nat} {sawDigit : Bool}

theorem strchr_digits {d : Nat} (below : d < 10) : strchr digits (digits.getD d 0) = some d :=
  strchr_table (by decide) below

/-- A number up to 255 becomes the next byte. -/
theorem pton4Loop_number (more : octets < 4) {n : Nat} (small : n ≤ 255) :
    pton4Loop (printed digits n ++ rest) false octets tmp 0 = pton4Loop rest true (octets + 1) tmp n := by
  have two : 2 ≤ digits.length := by decide
  have ten : digits.length = 10 := rfl
  induction n using numeral_induction two generalizing rest with
  | digit d below =>
    rw [printed_digit below,List.singleton_append,pton4Loop,strchr_digits below]
    have room : ¬ 4 < octets + 1 := by omega
    simp [room,show ¬ 255 < d by omega]
  | concat n d positive below ih =>
    rw [ten] at small
    rw [printed_concat two positive below,List.append_assoc,ih (by omega),List.singleton_append,pton4Loop,
      strchr_digits below]
    simp [ten,positive.ne',show ¬ 255 < n * 10 + d by omega]

/-- The text of the bytes that have been read, with the number at its end. -/
def shown (tmp : List UInt8) (sawDigit : Bool) (cur : Nat) : Text :=
  (tmp.flatMap fun b => printed digits b.toNat ++ [46]) ++ if sawDigit then printed digits cur else []

theorem shown_dotted {a b c d : UInt8} : shown [a,b,c] true d.toNat = dotted [a,b,c,d] := by
  simp [shown,dotted]

theorem shown_digit {d : Nat} (below : d < 10) : shown tmp true d = shown tmp false 0 ++ [digits.getD d 0] := by
  rw [shown,shown,if_pos rfl,printed_digit below]
  simp

theorem shown_concat {d : Nat} (positive : 0 < cur) (below : d < 10) :
    shown tmp true (cur * 10 + d) = shown tmp true cur ++ [digits.getD d 0] := by
  have next : printed digits (cur * 10 + d) = printed digits cur ++ [digits.getD d 0] :=
    printed_concat (by decide) positive below
  simp [shown,next]

theorem toNat_ofNat (small : cur ≤ 255) : (UInt8.ofNat cur).toNat = cur := by
  rw [UInt8.toNat_ofNat']
  omega

theorem shown_dot (small : cur ≤ 255) :
    shown (tmp ++ [UInt8.ofNat cur]) false 0 = shown tmp true cur ++ [46] := by
  simp [shown,toNat_ofNat small]

/-- What the loop accepts is the text of the bytes it stores. -/
theorem pton4Loop_sound (accepted : pton4Loop src sawDigit octets tmp cur = some bytes)
    (counted : octets = tmp.length + sawDigit.toNat) (room : tmp.length ≤ 3) (small : cur ≤ 255)
    (fresh : sawDigit = false → cur = 0) :
    bytes.length = 4 ∧ shown tmp sawDigit cur ++ src = dotted bytes := by
  induction src generalizing sawDigit octets tmp cur with
  | nil =>
    rw [pton4Loop] at accepted
    split at accepted
    · contradiction
    · next four =>
      obtain rfl := Option.some.inj accepted
      cases sawDigit with
      | false => simp only [Bool.toNat_false] at counted; omega
      | true =>
        obtain ⟨a,b,c,rfl⟩ := List.length_eq_three.mp (show tmp.length = 3 by simp at counted; omega)
        refine ⟨rfl,?_⟩
        calc shown [a,b,c] true cur ++ [] = shown [a,b,c] true (UInt8.ofNat cur).toNat := by
              rw [List.append_nil,toNat_ofNat small]
          _ = dotted [a,b,c,UInt8.ofNat cur] := shown_dotted
  | cons ch src ih =>
    rw [pton4Loop] at accepted
    split at accepted
    · next pch found =>
      obtain ⟨below,rfl⟩ := strchr_some found
      have below : pch < 10 := below
      simp only [Bool.and_eq_true,decide_eq_true_eq,Option.ite_none_left_eq_some,not_and] at accepted
      obtain ⟨canonical,octet,accepted⟩ := accepted
      cases sawDigit with
      | false =>
        obtain rfl := fresh rfl
        simp only [Bool.not_false,if_true,Option.ite_none_left_eq_some] at accepted
        obtain ⟨length,text⟩ := ih accepted.2 (by simp at counted ⊢; omega) room (by omega) (by simp)
        refine ⟨length,?_⟩
        rw [← text,Nat.zero_mul,Nat.zero_add,shown_digit below,List.append_assoc,List.singleton_append]
      | true =>
        simp only [Bool.not_true] at accepted
        have positive : 0 < cur := Nat.pos_of_ne_zero (canonical rfl)
        obtain ⟨length,text⟩ := ih accepted counted room (by omega) (by simp)
        refine ⟨length,?_⟩
        rw [← text,shown_concat positive below,List.append_assoc,List.singleton_append]
    · simp only [Bool.and_eq_true,decide_eq_true_eq,Option.ite_none_right_eq_some,Option.ite_none_left_eq_some]
        at accepted
      obtain ⟨⟨rfl,rfl⟩,more,accepted⟩ := accepted
      simp only [Bool.toNat_true] at counted
      obtain ⟨length,text⟩ := ih accepted (by simp [counted]) (by simp; omega) (by omega) (fun _ => rfl)
      refine ⟨length,?_⟩
      rw [← text,shown_dot small,List.append_assoc,List.singleton_append]

theorem inetPton4_sound (accepted : inetPton4 src = some bytes) : bytes.length = 4 ∧ src = dotted bytes := by
  obtain ⟨length,text⟩ := pton4Loop_sound accepted rfl (by simp) (by omega) (fun _ => rfl)
  exact ⟨length,by simpa [shown] using text⟩

theorem pton4Loop_dot (more : octets ≠ 4) :
    pton4Loop (46 :: rest) true octets tmp cur = pton4Loop rest false octets (tmp ++ [UInt8.ofNat cur]) 0 := by
  have none' : strchr digits 46 = none := by decide
  simp [pton4Loop,none',more]

theorem inetPton4_dotted (length : bytes.length = 4) : inetPton4 (dotted bytes) = some bytes := by
  obtain ⟨a,b,c,d,rfl⟩ := List.length_eq_four.mp length
  have octet (x : UInt8) : x.toNat ≤ 255 := Nat.le_of_lt_succ x.toNat_lt
  have last : printed digits d.toNat = printed digits d.toNat ++ [] := (List.append_nil _).symm
  simp only [inetPton4,dotted,List.getD_cons_zero,List.getD_cons_succ]
  rw [pton4Loop_number (by omega) (octet a),pton4Loop_dot (by omega),pton4Loop_number (by omega) (octet b),
    pton4Loop_dot (by omega),pton4Loop_number (by omega) (octet c),pton4Loop_dot (by omega),last,
    pton4Loop_number (by omega) (octet d)]
  simp [pton4Loop]

theorem octet_length_le (b : UInt8) : (printed digits b.toNat).length ≤ 3 := by
  have small : b.toNat < digits.length ^ 3 := Nat.lt_trans b.toNat_lt (by decide)
  exact printed_length_le (by decide) (by decide) small

theorem dotted_length_le (src : List UInt8) : (dotted src).length ≤ 15 := by
  have octet (i : Nat) := octet_length_le (src.getD i 0)
  simp only [dotted,List.length_append,List.length_cons]
  have := octet 0
  have := octet 1
  have := octet 2
  have := octet 3
  omega

theorem strscpy_fits {size : Nat} (fits : src.length < size) : strscpy src size = (src, true) := if_pos fits

/-- No address needs more than `tmp` has. -/
theorem inetNtop4_dotted {size : Nat} (fits : (dotted src).length < size) :
    inetNtop4 src size = .ok (dotted src) := by
  have some' : (dotted src).length ≠ 0 := by simp [dotted]
  have whole : (dotted src).take 15 = dotted src := List.take_of_length_le (dotted_length_le src)
  rw [inetNtop4,whole,strscpy_fits fits,if_neg (by omega)]

end Quads

/-- `inet_pton4` accepts the texts that `inet_ntop4` prints, each as the address it is the text of,
and no other. -/
theorem inet4_exact (s : Text) (bytes : List UInt8) :
    inetPton4 s = some bytes ↔ bytes.length = 4 ∧ inetNtop4 bytes 16 = .ok s := by
  have printed : inetNtop4 bytes 16 = .ok (dotted bytes) :=
    inetNtop4_dotted (Nat.lt_succ_of_le (dotted_length_le bytes))
  constructor
  · intro accepted
    obtain ⟨length,rfl⟩ := inetPton4_sound accepted
    exact ⟨length,printed⟩
  · rintro ⟨length,text⟩
    rw [printed] at text
    obtain rfl := Except.ok.inj text
    exact inetPton4_dotted length

end Tcpeen.Inet
