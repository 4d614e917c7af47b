import Mathlib.Algebra.Group.Nat.Defs
import Mathlib.Data.List.TakeWhile

/-! byte_buf.c and array_list.inl of aws-c-common: the split of a C string into a static list
of cursors. -/
namespace Tcpeen.ByteCursor

/-- What a load from an address gives; `none` is a fault. -/
abbrev Memory := Nat → Option UInt8

/-- `struct aws_byte_cursor`. -/
structure AwsByteCursor where
  ptr : Nat
  len : Nat
  deriving DecidableEq, Repr

/-- The bytes lie one after the other. -/
def Holds (memory : Memory) : Nat → List UInt8 → Prop
  | _, [] => True
  | ptr, b :: rest => memory ptr = some b ∧ Holds memory (ptr + 1) rest

instance (memory : Memory) : (ptr : Nat) → (l : List UInt8) → Decidable (Holds memory ptr l)
  | _, [] => .isTrue trivial
  | ptr, b :: rest =>
    have : Decidable (Holds memory (ptr + 1) rest) := instDecidableHolds memory (ptr + 1) rest
    inferInstanceAs (Decidable (memory ptr = some b ∧ Holds memory (ptr + 1) rest))

/-- A string and its null byte in an address space of 64 bits. -/
structure CString (memory : Memory) where
  ptr : Nat
  bytes : List UInt8
  nonNull : ptr ≠ 0
  fits : ptr + bytes.length < 2 ^ 64
  holds : Holds memory ptr (bytes ++ [0])
  noNull : 0 ∉ bytes

def awsByteCursorFromCStr {memory : Memory} (s : CString memory) : AwsByteCursor := ⟨s.ptr, s.bytes.length⟩

def memchr (memory : Memory) (c : UInt8) : Nat → Nat → Option Nat
  | _, 0 => none
  | ptr, len + 1 => if memory ptr = some c then some ptr else memchr memory c (ptr + 1) len

/-- `memcpy` to a place that is there. -/
def load (memory : Memory) : Nat → Nat → Option (List UInt8)
  | _, 0 => some []
  | ptr, len + 1 =>
    match memory ptr, load memory (ptr + 1) len with
    | some b, some rest => some (b :: rest)
    | _, _ => none

def awsByteCursorNextSplit (memory : Memory) (input : AwsByteCursor) (splitOn : UInt8) (substr : AwsByteCursor) :
    Bool × AwsByteCursor :=
  let firstRun : Bool := substr.ptr = 0
  let substr : AwsByteCursor := if firstRun then ⟨input.ptr, 0⟩ else substr
  if input.ptr + input.len < substr.ptr then (false, ⟨0, 0⟩)
  else
    let ptr := substr.ptr + substr.len
    let len := input.len - (ptr - input.ptr)
    if !firstRun && len = 0 then (false, ⟨0, 0⟩)
    else
      let skips : Bool := !firstRun && memory ptr = some splitOn
      let substr : AwsByteCursor := if skips then ⟨ptr + 1, len - 1⟩ else ⟨ptr, len⟩
      if skips && substr.len = 0 then (true, substr)
      else match memchr memory splitOn substr.ptr substr.len with
        | some newLocation => (true, { substr with len := newLocation - substr.ptr })
        | none => (true, substr)

/-- `struct aws_array_list` without an allocator. -/
structure StaticList where
  currentSize : Nat
  itemSize : Nat
  length : Nat
  data : Nat → AwsByteCursor

def awsArrayListInitStatic (rawArray : Nat → AwsByteCursor) (itemCount itemSize : Nat) : StaticList where
  currentSize := itemCount * itemSize
  itemSize := itemSize
  length := 0
  data := rawArray

/-- A static list is never enlarged. -/
def awsArrayListSetAt (list : StaticList) (val : AwsByteCursor) (index : Nat) : Option StaticList :=
  let necessarySize := (index + 1) * list.itemSize
  if list.currentSize < necessarySize then none
  else some { list with
    data := Function.update list.data index val
    length := if list.length ≤ index then index + 1 else list.length }

def awsArrayListPushBack (list : StaticList) (val : AwsByteCursor) : Option StaticList :=
  awsArrayListSetAt list val list.length

def sizeMax : Nat := 2 ^ 64 - 1

/-- The loop of the split: `none` where it goes on for more than `fuel` turns, and whether the
call succeeds. -/
def splitLoop (memory : Memory) (input : AwsByteCursor) (splitOn : UInt8) (maxSplits : Nat) :
    Nat → Nat → AwsByteCursor → StaticList → Option (Bool × StaticList)
  | 0, _, _, _ => none
  | fuel + 1, splitCount, substr, output =>
    if splitCount ≤ maxSplits then
      match awsByteCursorNextSplit memory input splitOn substr with
      | (false, _) => some (true, output)
      | (true, substr) =>
        let substr :=
          if splitCount = maxSplits then { substr with len := input.len - (substr.ptr - input.ptr) }
          else substr
        match awsArrayListPushBack output substr with
        | none => some (false, output)
        | some output => splitLoop memory input splitOn maxSplits fuel (splitCount + 1) substr output
    else some (true, output)

/-- There are no more substrings than bytes and one. -/
def awsByteCursorSplitOnCharN (memory : Memory) (input : AwsByteCursor) (splitOn : UInt8) (n : Nat)
    (output : StaticList) : Option (Bool × StaticList) :=
  splitLoop memory input splitOn (if 0 < n then n else sizeMax) (input.len + 2) 0 ⟨0, 0⟩ output

def awsByteCursorSplitOnChar (memory : Memory) (input : AwsByteCursor) (splitOn : UInt8) (output : StaticList) :
    Option (Bool × StaticList) :=
  awsByteCursorSplitOnCharN memory input splitOn 0 output

/-- Where the parts of a string lie that are one byte apart. -/
def cursorsOf : Nat → List (List UInt8) → List AwsByteCursor
  | _, [] => []
  | ptr, part :: rest => ⟨ptr, part.length⟩ :: cursorsOf (ptr + part.length + 1) rest

/-- The parts after a first one that ends where the bytes begin. -/
def laterParts (splitOn : UInt8) : List UInt8 → List (List UInt8)
  | [] => []
  | _ :: rest => rest.splitOn splitOn

/-- Pushes until one fails. -/
def pushAll : StaticList → List AwsByteCursor → Bool × StaticList
  | output, [] => (true, output)
  | output, c :: rest =>
    match awsArrayListPushBack output c with
    | none => (false, output)
    | some output => pushAll output rest

section Loads

variable {memory : Memory} {ptr : Nat} {l m : List UInt8}

theorem holds_append : Holds memory ptr (l ++ m) ↔ Holds memory ptr l ∧ Holds memory (ptr + l.length) m := by
  induction l generalizing ptr with
  | nil => simp [Holds]
  | cons b rest ih =>
    have next : ptr + 1 + rest.length = ptr + (rest.length + 1) := by omega
    simp only [List.cons_append,Holds,ih,List.length_cons,next,and_assoc]

theorem load_holds (holds : Holds memory ptr l) : load memory ptr l.length = some l := by
  induction l generalizing ptr with
  | nil => rfl
  | cons b rest ih => simp only [List.length_cons,load,holds.1,ih holds.2]

/-- The search stops at the end of the first part. -/
theorem memchr_holds (c : UInt8) (holds : Holds memory ptr l) :
    memchr memory c ptr l.length = if c ∈ l then some (ptr + (l.takeWhile (· != c)).length) else none := by
  induction l generalizing ptr with
  | nil => rfl
  | cons b rest ih =>
    rw [List.length_cons,memchr,holds.1]
    by_cases same : b = c
    · subst same
      simp
    · have next : ptr + 1 + (rest.takeWhile (· != c)).length = ptr + ((rest.takeWhile (· != c)).length + 1) := by omega
      rw [if_neg (by simpa using same),ih holds.2]
      simp [same,Ne.symm same,next]

theorem all_bne {c : UInt8} (absent : c ∉ l) (b : UInt8) (member : b ∈ l) : (b != c) = true := by
  rw [bne_iff_ne]
  rintro rfl
  exact absent member

/-- A substring goes up to the next separator. -/
theorem substr_len (c : UInt8) (holds : Holds memory ptr l) :
    (match memchr memory c ptr l.length with
      | some newLocation => (true, ({ ptr, len := newLocation - ptr } : AwsByteCursor))
      | none => (true, ⟨ptr, l.length⟩)) = (true, ⟨ptr, (l.takeWhile (· != c)).length⟩) := by
  rw [memchr_holds c holds]
  split_ifs with member
  · simp
  · have all : l.takeWhile (· != c) = l := List.takeWhile_eq_self_iff.mpr (all_bne member)
    simp [all]

end Loads

section Split

variable {memory : Memory} (s : CString memory) (c : UInt8)

theorem CString.pos : 0 < s.ptr := Nat.pos_of_ne_zero s.nonNull

theorem CString.holds_bytes : Holds memory s.ptr s.bytes := (holds_append.mp s.holds).1

theorem next_first :
    awsByteCursorNextSplit memory (awsByteCursorFromCStr s) c ⟨0, 0⟩ =
      (true, ⟨s.ptr, (s.bytes.takeWhile (· != c)).length⟩) := by
  have within : ¬ s.ptr + s.bytes.length < s.ptr := by omega
  simpa [awsByteCursorNextSplit,awsByteCursorFromCStr,within] using substr_len c s.holds_bytes

variable {s c} {substr : AwsByteCursor}

theorem next_later {before rest : List UInt8} (text : s.bytes = before ++ c :: rest)
    (here : substr.ptr + substr.len = s.ptr + before.length) (inside : s.ptr ≤ substr.ptr) :
    awsByteCursorNextSplit memory (awsByteCursorFromCStr s) c substr =
      (true, ⟨s.ptr + before.length + 1, (rest.takeWhile (· != c)).length⟩) := by
  have length : s.bytes.length = before.length + rest.length + 1 := by simp [text]; omega
  have holds := s.holds_bytes
  rw [text,holds_append] at holds
  obtain ⟨-,separator,holds⟩ := holds
  have begun : substr.ptr ≠ 0 := by have := s.pos; omega
  have within : ¬ s.ptr + s.bytes.length < substr.ptr := by omega
  have left : s.bytes.length - (s.ptr + before.length - s.ptr) = rest.length + 1 := by omega
  simp only [awsByteCursorNextSplit,awsByteCursorFromCStr,begun,decide_false,Bool.false_eq_true,if_false,
    within,here,left,Bool.not_false,Bool.true_and,separator,decide_true,if_true,Nat.add_one_sub_one,
    Nat.add_one_ne_zero]
  cases rest with
  | nil => simp
  | cons b rest => simpa using substr_len c holds

theorem next_end (here : substr.ptr + substr.len = s.ptr + s.bytes.length) (inside : s.ptr ≤ substr.ptr) :
    awsByteCursorNextSplit memory (awsByteCursorFromCStr s) c substr = (false, ⟨0, 0⟩) := by
  have begun : substr.ptr ≠ 0 := by have := s.pos; omega
  have within : ¬ s.ptr + s.bytes.length < substr.ptr := by omega
  simp [awsByteCursorNextSplit,awsByteCursorFromCStr,begun,within,here]

theorem splitOn_parts (c : UInt8) (l : List UInt8) :
    l.splitOn c = l.takeWhile (· != c) :: laterParts c (l.dropWhile (· != c)) := by
  by_cases member : c ∈ l
  · obtain ⟨before,rest,rfl,first⟩ := List.eq_append_cons_of_mem member
    rw [List.splitOn_append_cons_self_of_not_mem first,List.takeWhile_append_of_pos (all_bne first),
      List.dropWhile_append_of_pos (all_bne first)]
    simp [laterParts]
  · rw [List.splitOn_eq_singleton member,List.takeWhile_eq_self_iff.mpr (all_bne member),
      List.dropWhile_eq_nil_iff.mpr (all_bne member)]
    rfl

theorem dropWhile_starts (c : UInt8) (l : List UInt8) :
    l.dropWhile (· != c) = [] ∨ ∃ rest, l.dropWhile (· != c) = c :: rest := by
  cases dropped : l.dropWhile (· != c) with
  | nil => exact .inl rfl
  | cons b rest =>
    have stopped := List.head_dropWhile_not (· != c) (l := l) (by rw [dropped]; simp)
    have same : b = c := by simpa [dropped] using stopped
    exact .inr ⟨rest,by rw [same]⟩

/-- From a substring on, the loop pushes the parts that follow it. -/
theorem loop_later {fuel splitCount : Nat} {before tail : List UInt8} {output : StaticList}
    (text : s.bytes = before ++ tail) (starts : tail = [] ∨ ∃ rest, tail = c :: rest)
    (here : substr.ptr + substr.len = s.ptr + before.length) (inside : s.ptr ≤ substr.ptr)
    (enough : tail.length < fuel) (few : splitCount + tail.length < sizeMax + 1) :
    splitLoop memory (awsByteCursorFromCStr s) c sizeMax fuel splitCount substr output =
      some (pushAll output (cursorsOf (s.ptr + before.length + 1) (laterParts c tail))) := by
  induction fuel generalizing before tail splitCount substr output with
  | zero => omega
  | succ fuel ih =>
    have counted : splitCount ≤ sizeMax := by omega
    rw [splitLoop,if_pos counted]
    rcases starts with rfl | ⟨rest,rfl⟩
    · rw [next_end (by simpa [text] using here) inside]
      rfl
    · rw [next_later text here inside]
      have notLast : splitCount ≠ sizeMax := by
        rw [List.length_cons] at few
        omega
      have parts : laterParts c (c :: rest) =
          rest.takeWhile (· != c) :: laterParts c (rest.dropWhile (· != c)) := splitOn_parts c rest
      simp only [if_neg notLast,parts,cursorsOf,pushAll]
      cases pushed : awsArrayListPushBack output ⟨s.ptr + before.length + 1,(rest.takeWhile (· != c)).length⟩ with
      | none => rfl
      | some output' =>
        have cut : rest.takeWhile (· != c) ++ rest.dropWhile (· != c) = rest := List.takeWhile_append_dropWhile
        have lengths := congrArg List.length cut
        rw [List.length_append] at lengths
        rw [List.length_cons] at enough few
        have text' : s.bytes = (before ++ c :: rest.takeWhile (· != c)) ++ rest.dropWhile (· != c) := by
          rw [text,List.append_assoc,List.cons_append,cut]
        have next : s.ptr + (before ++ c :: rest.takeWhile (· != c)).length =
            s.ptr + before.length + 1 + (rest.takeWhile (· != c)).length := by
          rw [List.length_append,List.length_cons]
          omega
        rw [← next]
        exact ih text' (dropWhile_starts c rest) next.symm (by dsimp only; omega) (by omega) (by omega)

/-- The call pushes the parts of the string, until one does not fit. -/
theorem awsByteCursorSplitOnChar_parts (s : CString memory) (c : UInt8) (output : StaticList) :
    awsByteCursorSplitOnChar memory (awsByteCursorFromCStr s) c output =
      some (pushAll output (cursorsOf s.ptr (s.bytes.splitOn c))) := by
  have begun : 0 ≤ sizeMax ∧ 0 ≠ sizeMax := by decide
  have fits := s.fits
  have nonNull := s.pos
  have cut : s.bytes.takeWhile (· != c) ++ s.bytes.dropWhile (· != c) = s.bytes := List.takeWhile_append_dropWhile
  have lengths := congrArg List.length cut
  rw [List.length_append] at lengths
  rw [awsByteCursorSplitOnChar,awsByteCursorSplitOnCharN,if_neg (Nat.lt_irrefl 0),splitLoop,if_pos begun.1,
    next_first,splitOn_parts]
  simp only [if_neg begun.2,cursorsOf,pushAll]
  cases pushed : awsArrayListPushBack output ⟨s.ptr,(s.bytes.takeWhile (· != c)).length⟩ with
  | none => rfl
  | some output' =>
    exact loop_later cut.symm (dropWhile_starts c s.bytes) rfl (Nat.le_refl _)
      (by simp only [awsByteCursorFromCStr]; omega) (by simp only [sizeMax]; omega)

end Split

end Tcpeen.ByteCursor
