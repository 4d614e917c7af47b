import Tcpeen.Inet

/-! IPv6 in inet.c of libuv: the longest run of zero words is written `::`, and IPv4 addresses
inside keep their own text. -/
namespace Tcpeen.Inet

open Numeral

/-- The two bytes of a word, as `inet_pton6` stores them. -/
def wordBytes (val : Nat) : List UInt8 := [UInt8.ofNat (val >>> 8),UInt8.ofNat val]

/-- Two turns of the loop that copies the bytes make a word. -/
def wordsOf (src : List UInt8) : List Nat :=
  (List.range 8).map fun i => (src.getD (2 * i) 0).toNat <<< 8 ||| (src.getD (2 * i + 1) 0).toNat

/-- A run of zero words; a base of -1 is `none`. -/
structure ZeroRun where
  base : Option Nat
  len : Nat
  deriving DecidableEq

/-- `best` and `cur` after another word. -/
def runTurn (words : List Nat) (runs : ZeroRun × ZeroRun) (i : Nat) : ZeroRun × ZeroRun :=
  let (best, cur) := runs
  if words.getD i 0 = 0 then
    if cur.base = none then (best, ⟨some i,1⟩) else (best, { cur with len := cur.len + 1 })
  else if cur.base ≠ none then
    (if best.base = none ∨ best.len < cur.len then cur else best, { cur with base := none })
  else (best, cur)

def bestRun (words : List Nat) : ZeroRun :=
  let (best, cur) := (List.range 8).foldl (runTurn words) (⟨none,0⟩, ⟨none,0⟩)
  let best := if cur.base ≠ none ∧ (best.base = none ∨ best.len < cur.len) then cur else best
  if best.base ≠ none ∧ best.len < 2 then { best with base := none } else best

/-- `best.base != -1 && i >= best.base && i < best.base + best.len`. -/
def ZeroRun.covers (best : ZeroRun) (i : Nat) : Bool := best.base.any fun base => base ≤ i && i < base + best.len

/-- Is this address an encapsulated IPv4? -/
def encapsulated (words : List Nat) (best : ZeroRun) (i : Nat) : Bool :=
  i = 6 && best.base = some 0 && (best.len = 6 || (best.len = 7 && words.getD 7 0 ≠ 1) ||
    (best.len = 5 && words.getD 5 0 = 0xffff))

/-- The loop that formats the words; `tp` is what it has written to `tmp`. -/
def formatLoop (src : List UInt8) (words : List Nat) (best : ZeroRun) : List Nat → Text → Except UvError Text
  | [], tp => .ok tp
  | i :: is, tp =>
    if best.covers i then formatLoop src words best is (if best.base = some i then tp ++ [58] else tp)
    else
      let tp := if i ≠ 0 then tp ++ [58] else tp
      if encapsulated words best i then
        match inetNtop4 (src.drop 12) (46 - tp.length) with
        | .error err => .error err
        | .ok text => .ok (tp ++ text)
      else formatLoop src words best is (tp ++ printed xdigitsL (words.getD i 0))

def inetNtop6 (src : List UInt8) (size : Nat) : Except UvError Text :=
  let words := wordsOf src
  let best := bestRun words
  match formatLoop src words best (List.range 8) [] with
  | .error err => .error err
  | .ok tp =>
    let tp := if best.base.any fun base => base + best.len = 8 then tp ++ [58] else tp
    match strscpy tp size with
    | (dst, true) => .ok dst
    | (_, false) => .error .noSpc

/-- The loop of `inet_pton6`: `tmp` is what lies before `tp`, the rest of it is zero. -/
def pton6Loop : Text → List UInt8 → Option Nat → Text → Nat → Nat → Option (List UInt8 × Option Nat × Nat × Nat)
  | [], tmp, colonp, _, seenXdigits, val => some (tmp, colonp, seenXdigits, val)
  | ch :: src, tmp, colonp, curtok, seenXdigits, val =>
    match (strchr xdigitsL ch).or (strchr xdigitsU ch) with
    | some pch =>
      let val := val <<< 4 ||| pch
      if 4 < seenXdigits + 1 then none else pton6Loop src tmp colonp curtok (seenXdigits + 1) val
    | none =>
      if ch = 58 then
        if seenXdigits = 0 then
          if colonp ≠ none then none else pton6Loop src tmp (some tmp.length) src seenXdigits val
        else if src = [] then none
        else if 16 < tmp.length + 2 then none
        else pton6Loop src (tmp ++ wordBytes val) colonp src 0 0
      else if ch = 46 ∧ tmp.length + 4 ≤ 16 then
        match inetPton4 curtok with
        | some bytes => some (tmp ++ bytes, colonp, 0, val)
        | none => none
      else none

/-- One turn of the shift by hand: `endp[-i] = colonp[n - i]; colonp[n - i] = 0`. -/
def shiftTurn (colonp n : Nat) (tmp : List UInt8) (i : Nat) : List UInt8 :=
  (tmp.set (16 - i) (tmp.getD (colonp + n - i) 0)).set (colonp + n - i) 0

/-- What follows the loop of `inet_pton6`. -/
def pton6Finish (tmp : List UInt8) (colonp : Option Nat) : Option (List UInt8) :=
  match colonp with
  | none => if tmp.length ≠ 16 then none else some tmp
  | some colonp =>
    let n := tmp.length - colonp
    if tmp.length = 16 then none
    else some ((List.range' 1 n).foldl (shiftTurn colonp n) (tmp ++ List.replicate (16 - tmp.length) 0))

def pton6Body (src : Text) : Option (List UInt8) :=
  match pton6Loop src [] none src 0 0 with
  | none => none
  | some (tmp, colonp, seenXdigits, val) =>
    if seenXdigits ≠ 0 then
      if 16 < tmp.length + 2 then none else pton6Finish (tmp ++ wordBytes val) colonp
    else pton6Finish tmp colonp

/-- Leading `::` requires some special handling. -/
def inetPton6 (src : Text) : Option (List UInt8) :=
  if src.head? = some 58 then
    if src.tail.head? ≠ some 58 then none else pton6Body src.tail
  else pton6Body src

section Words

theorem word_pair (a b : UInt8) : wordBytes (a.toNat <<< 8 ||| b.toNat) = [a,b] := by
  have small := b.toNat_lt
  have sum : a.toNat <<< 8 ||| b.toNat = a.toNat * 256 + b.toNat := by
    rw [← Nat.shiftLeft_add_eq_or_of_lt small,Nat.shiftLeft_eq]
  have high : (a.toNat * 256 + b.toNat) >>> 8 = a.toNat := by
    rw [Nat.shiftRight_eq_div_pow]
    omega
  have low : UInt8.ofNat (a.toNat * 256 + b.toNat) = b := by
    apply UInt8.toNat.inj
    rw [UInt8.toNat_ofNat']
    omega
  rw [sum,wordBytes,high,low,UInt8.ofNat_toNat]

theorem pairs_flatMap (n : Nat) (src : List UInt8) (length : src.length = 2 * n) :
    (List.range n).flatMap (fun i => [src.getD (2 * i) 0,src.getD (2 * i + 1) 0]) = src := by
  induction n generalizing src with
  | zero => simpa using length
  | succ n ih =>
    obtain ⟨a,tail,rfl⟩ := List.exists_cons_of_length_eq_add_one (show src.length = 2 * n + 1 + 1 by omega)
    obtain ⟨b,rest,rfl⟩ := List.exists_cons_of_length_eq_add_one
      (show tail.length = 2 * n + 1 by rw [List.length_cons] at length; omega)
    have rest' := ih rest (by rw [List.length_cons,List.length_cons] at length; omega)
    simp only [List.range_succ_eq_map,List.flatMap_cons,List.flatMap_map]
    simpa [Nat.mul_add] using rest'

@[simp] theorem wordsOf_length (src : List UInt8) : (wordsOf src).length = 8 := by simp [wordsOf]

theorem wordsOf_bytes {src : List UInt8} (length : src.length = 16) : (wordsOf src).flatMap wordBytes = src := by
  rw [wordsOf,List.flatMap_map]
  simp only [word_pair]
  exact pairs_flatMap 8 src length

theorem wordsOf_small (src : List UInt8) : ∀ w ∈ wordsOf src, w < 65536 := by
  intro w member
  obtain ⟨i,-,rfl⟩ := List.mem_map.mp member
  have high := (src.getD (2 * i) 0).toNat_lt
  have low := (src.getD (2 * i + 1) 0).toNat_lt
  rw [← Nat.shiftLeft_add_eq_or_of_lt low,Nat.shiftLeft_eq]
  omega

end Words

section Runs

variable {words : List Nat}

def ZeroFrom (words : List Nat) (base len : Nat) : Prop :=
  ∀ i, base ≤ i → i < base + len → words.getD i 0 = 0

/-- After the words below `i`: the current run ends there, and the best one before. -/
structure Runs (words : List Nat) (i : Nat) (runs : ZeroRun × ZeroRun) : Prop where
  best : ∀ base, runs.1.base = some base → base + runs.1.len ≤ i ∧ ZeroFrom words base runs.1.len
  cur : ∀ base, runs.2.base = some base → base + runs.2.len = i ∧ ZeroFrom words base runs.2.len

theorem Runs.turn {i : Nat} {runs : ZeroRun × ZeroRun} (valid : Runs words i runs) :
    Runs words (i + 1) (runTurn words runs i) := by
  obtain ⟨best,⟨curBase,len⟩⟩ := runs
  have kept (base : Nat) (some' : best.base = some base) :
      base + best.len ≤ i + 1 ∧ ZeroFrom words base best.len :=
    ⟨Nat.le_succ_of_le (valid.best base some').1,(valid.best base some').2⟩
  by_cases zero : words.getD i 0 = 0
  · cases curBase with
    | none =>
      simp only [runTurn,zero,if_true]
      refine ⟨kept,?_⟩
      rintro base same
      obtain rfl := Option.some.inj same
      refine ⟨rfl,?_⟩
      intro j from' below
      obtain rfl : j = i := by simp only at below; omega
      exact zero
    | some first =>
      simp only [runTurn,zero,if_true,reduceCtorEq,if_false]
      refine ⟨kept,?_⟩
      rintro base same
      obtain rfl := Option.some.inj same
      obtain ⟨ends,zeros⟩ := valid.cur first rfl
      simp only at ends zeros ⊢
      refine ⟨by omega,?_⟩
      intro j from' below
      by_cases last : j = i
      · rw [last]
        exact zero
      · exact zeros j from' (by omega)
  · cases curBase with
    | none =>
      simp only [runTurn,if_neg zero,ne_eq,not_true,if_false]
      exact ⟨kept,by simp⟩
    | some first =>
      simp only [runTurn,if_neg zero,ne_eq,reduceCtorEq,not_false_eq_true,if_true]
      refine ⟨?_,by simp⟩
      simp only
      split
      · intro base same
        obtain ⟨ends,zeros⟩ := valid.cur base same
        exact ⟨by simp only at ends ⊢; omega,zeros⟩
      · exact kept

theorem runs_fold (words : List Nat) (n : Nat) :
    Runs words n ((List.range n).foldl (runTurn words) (⟨none,0⟩, ⟨none,0⟩)) := by
  induction n with
  | zero => exact ⟨by simp,by simp⟩
  | succ n ih =>
    rw [List.range_succ,List.foldl_append]
    exact ih.turn

/-- The run that is written as `::` has two words or more, and all of them are zero. -/
theorem bestRun_zero {base : Nat} (found : (bestRun words).base = some base) :
    2 ≤ (bestRun words).len ∧ base + (bestRun words).len ≤ 8 ∧ ZeroFrom words base (bestRun words).len := by
  have valid := runs_fold words 8
  rw [bestRun] at found ⊢
  generalize (List.range 8).foldl (runTurn words) (⟨none,0⟩, ⟨none,0⟩) = runs at valid found ⊢
  obtain ⟨best,cur⟩ := runs
  have chosen : ∀ base,
      (if cur.base ≠ none ∧ (best.base = none ∨ best.len < cur.len) then cur else best).base = some base →
      base + (if cur.base ≠ none ∧ (best.base = none ∨ best.len < cur.len) then cur else best).len ≤ 8 ∧
        ZeroFrom words base (if cur.base ≠ none ∧ (best.base = none ∨ best.len < cur.len) then cur else best).len := by
    split
    · intro base same
      obtain ⟨ends,zeros⟩ := valid.cur base same
      exact ⟨ends.le,zeros⟩
    · exact valid.best
  simp only at found ⊢
  generalize (if cur.base ≠ none ∧ (best.base = none ∨ best.len < cur.len) then cur else best) = run at chosen found ⊢
  split at found
  · contradiction
  · next long =>
    rw [if_neg long]
    have some' : run.base ≠ none := by simp [found]
    have two : 2 ≤ run.len := by
      by_contra short
      exact long ⟨some',by omega⟩
    exact ⟨two,chosen base found⟩

end Runs

/-! ### The text of an address -/

def hex (w : Nat) : Text := printed xdigitsL w

/-- Words with colons in between. -/
def joined : List Nat → Text
  | [] => []
  | w :: ws => hex w ++ ws.flatMap fun w => 58 :: hex w

/-- What `inet_ntop6` prints of an address with these words. -/
inductive Shape (src : List UInt8) (words : List Nat) : Text → Prop
  | plain : Shape src words (joined words)
  | run (base len : Nat) : 2 ≤ len → base + len ≤ 8 → ZeroFrom words base len →
      Shape src words (joined (words.take base) ++ 58 :: 58 :: joined (words.drop (base + len)))
  | four : ZeroFrom words 0 6 → Shape src words (58 :: 58 :: dotted (src.drop 12))
  | mapped : ZeroFrom words 0 5 → words.getD 5 0 = 0xffff →
      Shape src words (58 :: 58 :: (hex 0xffff ++ 58 :: dotted (src.drop 12)))

section Format

variable {src : List UInt8} {words : List Nat} {best : ZeroRun} {more : List Nat} {tp : Text}

def piece (words : List Nat) (i : Nat) : Text := (if i ≠ 0 then [58] else []) ++ hex (words.getD i 0)

theorem formatLoop_pieces (src : List UInt8) (words : List Nat) (best : ZeroRun) (more is : List Nat) (tp : Text)
    (plain : ∀ i ∈ is, best.covers i = false ∧ encapsulated words best i = false) :
    formatLoop src words best (is ++ more) tp = formatLoop src words best more (tp ++ is.flatMap (piece words)) := by
  induction is generalizing tp with
  | nil => simp
  | cons i is ih =>
    obtain ⟨apart,four⟩ := plain i List.mem_cons_self
    have later : ∀ j ∈ is, best.covers j = false ∧ encapsulated words best j = false :=
      fun j member => plain j (List.mem_cons_of_mem i member)
    have next : (if i ≠ 0 then tp ++ [58] else tp) ++ hex (words.getD i 0) = tp ++ piece words i := by
      rw [piece,← List.append_assoc]
      split <;> simp
    rw [List.cons_append,formatLoop,if_neg (by simp [apart])]
    simp only [four,Bool.false_eq_true,if_false]
    rw [show printed xdigitsL (words.getD i 0) = hex (words.getD i 0) from rfl,next,ih _ later,List.flatMap_cons,
      List.append_assoc]

theorem formatLoop_covered (is : List Nat) (covered : ∀ i ∈ is, best.covers i = true ∧ best.base ≠ some i) :
    formatLoop src words best (is ++ more) tp = formatLoop src words best more tp := by
  induction is with
  | nil => rfl
  | cons i is ih =>
    obtain ⟨inside,later⟩ := covered i List.mem_cons_self
    rw [List.cons_append,formatLoop,if_pos inside,if_neg later]
    exact ih fun j member => covered j (List.mem_cons_of_mem i member)

theorem pieces_after {start count : Nat} (positive : 0 < start) (within : start + count ≤ words.length) :
    (List.range' start count).flatMap (piece words) =
      ((words.drop start).take count).flatMap fun w => 58 :: hex w := by
  have entries : (List.range' start count).map (fun i => words.getD i 0) = (words.drop start).take count := by
    apply List.ext_getElem
    · simp
      omega
    · intro i inside _
      simp only [List.length_map,List.length_range'] at inside
      simp [List.getElem?_eq_getElem (show start + i < words.length by omega)]
  rw [← entries,List.flatMap_map]
  apply List.flatMap_congr
  intro i member
  have : i ≠ 0 := by
    have := (List.mem_range'_1.mp member).1
    omega
  simp [piece,this]

theorem pieces_before {count : Nat} (within : count ≤ words.length) :
    (List.range count).flatMap (piece words) = joined (words.take count) := by
  cases count with
  | zero => rfl
  | succ count =>
    obtain ⟨w,ws,rfl⟩ := List.exists_cons_of_length_pos (show 0 < words.length by omega)
    have rest : (List.range' 1 count).flatMap (piece (w :: ws)) =
        (((w :: ws).drop 1).take count).flatMap fun w => 58 :: hex w := pieces_after (by omega) (by omega)
    rw [List.range_eq_range',List.range'_succ,List.flatMap_cons,rest]
    simp [piece,joined]

theorem joined_after (ws : List Nat) :
    ws.flatMap (fun w => 58 :: hex w) ++ (if ws = [] then [58] else []) = 58 :: joined ws := by
  cases ws <;> simp [joined]

/-- The words from 0 up to a run, and the run. -/
theorem formatLoop_run {base len : Nat} (two : 2 ≤ len) (within : base + len ≤ 8) (length : words.length = 8)
    (run : best = ⟨some base,len⟩) :
    formatLoop src words best (List.range 8) [] =
      formatLoop src words best (List.range' (base + len) (8 - (base + len))) (joined (words.take base) ++ [58]) := by
  subst run
  have middle : base :: List.range' (base + 1) (len - 1) = List.range' base len := by
    rw [← List.range'_succ,Nat.sub_add_cancel (by omega)]
  have front (count : Nat) : List.range' 0 base ++ List.range' base count = List.range' 0 (base + count) := by
    simpa using List.range'_append_1 (s := 0) (m := base) (n := count)
  have cut : List.range 8 = List.range base ++ (base :: (List.range' (base + 1) (len - 1) ++
      List.range' (base + len) (8 - (base + len)))) := by
    rw [← List.cons_append,middle,List.range'_append_1,List.range_eq_range',List.range_eq_range',front]
    congr 1
    omega
  rw [cut,formatLoop_pieces,formatLoop,if_pos,if_pos rfl,formatLoop_covered,pieces_before (by omega),List.nil_append]
  · intro i member
    have bounds := List.mem_range'_1.mp member
    refine ⟨?_,?_⟩
    · simp only [ZeroRun.covers,Option.any_some,Bool.and_eq_true,decide_eq_true_eq]
      omega
    · simp only [ne_eq,Option.some.injEq]
      omega
  · simp only [ZeroRun.covers,Option.any_some,Bool.and_eq_true,decide_eq_true_eq]
    omega
  · intro i member
    have below := List.mem_range.mp member
    simp only [ZeroRun.covers,encapsulated,Option.any_some,Bool.and_eq_false_iff,decide_eq_false_iff_not,
      Option.some.injEq]
    omega

theorem hex_length_le {w : Nat} (small : w < 65536) : (hex w).length ≤ 4 :=
  printed_length_le (by decide) (by decide) small

theorem joined_length_le {ws : List Nat} (small : ∀ w ∈ ws, w < 65536) : (joined ws).length ≤ 5 * ws.length - 1 := by
  have tail (ws : List Nat) (small : ∀ w ∈ ws, w < 65536) :
      (ws.flatMap fun w => 58 :: hex w).length ≤ 5 * ws.length := by
    induction ws with
    | nil => simp
    | cons w ws ih =>
      have first := hex_length_le (small w List.mem_cons_self)
      have rest := ih fun x member => small x (List.mem_cons_of_mem w member)
      simp only [List.flatMap_cons,List.length_append,List.length_cons]
      omega
  cases ws with
  | nil => simp [joined]
  | cons w ws =>
    have first := hex_length_le (small w List.mem_cons_self)
    have rest := tail ws fun x member => small x (List.mem_cons_of_mem w member)
    simp only [joined,List.length_append,List.length_cons]
    omega

theorem Shape.length_le {s : Text} (shape : Shape src words s) (length : words.length = 8)
    (small : ∀ w ∈ words, w < 65536) : s.length ≤ 39 := by
  have quad := dotted_length_le (src.drop 12)
  cases shape with
  | plain =>
    have := joined_length_le small
    omega
  | run base len two within zeros =>
    have front := joined_length_le fun w (member : w ∈ words.take base) => small w (List.mem_of_mem_take member)
    have back := joined_length_le fun w (member : w ∈ words.drop (base + len)) => small w (List.mem_of_mem_drop member)
    simp only [List.length_append,List.length_cons,List.length_take,List.length_drop] at front back ⊢
    omega
  | four zeros =>
    simp only [List.length_cons]
    omega
  | mapped zeros mark =>
    have := hex_length_le (show 0xffff < 65536 by decide)
    simp only [List.length_append,List.length_cons]
    omega

/-- What follows the loop of `inet_ntop6`. -/
theorem inetNtop6_format (tp : Text) {s : Text} {size : Nat}
    (format : formatLoop src (wordsOf src) (bestRun (wordsOf src)) (List.range 8) [] = .ok tp)
    (trailing : (if (bestRun (wordsOf src)).base.any fun base => base + (bestRun (wordsOf src)).len = 8
      then tp ++ [58] else tp) = s) (fits : s.length < size) : inetNtop6 src size = .ok s := by
  simp only [inetNtop6,format,trailing,strscpy_fits fits]

/-- The loop at the word where an encapsulated address begins. -/
theorem formatLoop_four {i : Nat} (apart : best.covers i = false) (four : encapsulated words best i = true)
    (room : tp.length ≤ 10) :
    formatLoop src words best (i :: more) tp = .ok (tp ++ (58 :: dotted (src.drop 12))) := by
  have six : i ≠ 0 := by
    rintro rfl
    simp [encapsulated] at four
  have quad := dotted_length_le (src.drop 12)
  rw [formatLoop,if_neg (by simp [apart])]
  simp only [six,ne_eq,not_false_eq_true,if_true,four]
  rw [inetNtop4_dotted (by simp only [List.length_append,List.length_singleton]; omega)]
  simp

/-- The words behind a run, when they are written as words. -/
theorem formatLoop_rest (src : List UInt8) {base len : Nat} (two : 2 ≤ len) (within : base + len ≤ 8)
    (length : words.length = 8)
    (run : best = ⟨some base,len⟩) (four : ∀ i, base + len ≤ i → encapsulated words best i = false) :
    formatLoop src words best (List.range 8) [] =
      .ok (joined (words.take base) ++ 58 :: (words.drop (base + len)).flatMap fun w => 58 :: hex w) := by
  have rest : (words.drop (base + len)).take (8 - (base + len)) = words.drop (base + len) :=
    List.take_of_length_le (by rw [List.length_drop,length])
  have listed := formatLoop_pieces src words best [] (List.range' (base + len) (8 - (base + len)))
    (joined (words.take base) ++ [58]) ?_
  · rw [formatLoop_run two within length run,← List.append_nil (List.range' _ _),listed,formatLoop,
      pieces_after (by omega) (by omega),rest,List.append_assoc,List.singleton_append]
  · intro i member
    have bounds := (List.mem_range'_1.mp member).1
    refine ⟨?_,four i bounds⟩
    subst run
    simp only [ZeroRun.covers,Option.any_some,Bool.and_eq_false_iff,decide_eq_false_iff_not]
    omega

theorem inetNtop6_shape (src : List UInt8) : ∃ s, Shape src (wordsOf src) s ∧
    ∀ size, s.length < size → inetNtop6 src size = .ok s := by
  have length := wordsOf_length src
  generalize found : bestRun (wordsOf src) = best
  obtain ⟨base,len⟩ := best
  cases base with
  | none =>
    have listed := formatLoop_pieces src (wordsOf src) ⟨none,len⟩ [] (List.range 8) []
      fun i _ => ⟨rfl,by simp [encapsulated]⟩
    rw [List.append_nil,List.nil_append,pieces_before length.ge,List.take_of_length_le length.le,formatLoop] at listed
    refine ⟨joined (wordsOf src),.plain,?_⟩
    intro size fits
    exact inetNtop6_format _ (found ▸ listed) (by simp [found]) fits
  | some base =>
    have zeros := bestRun_zero (show (bestRun (wordsOf src)).base = some base by rw [found])
    rw [found] at zeros
    obtain ⟨two,within,zeros⟩ := zeros
    simp only at two within zeros
    by_cases quad : base = 0 ∧ len = 6
    · obtain ⟨rfl,rfl⟩ := quad
      refine ⟨58 :: 58 :: dotted (src.drop 12),.four zeros,?_⟩
      intro size fits
      refine inetNtop6_format (58 :: 58 :: dotted (src.drop 12)) ?_ (by simp [found]) fits
      rw [found,formatLoop_run two within length rfl,List.range'_succ,
        formatLoop_four (by decide) (by simp [encapsulated]) (by simp [joined])]
      rfl
    · by_cases mapped : base = 0 ∧ len = 5 ∧ (wordsOf src).getD 5 0 = 0xffff
      · obtain ⟨rfl,rfl,mark⟩ := mapped
        refine ⟨58 :: 58 :: (hex 0xffff ++ 58 :: dotted (src.drop 12)),.mapped zeros mark,?_⟩
        intro size fits
        have first := formatLoop_pieces src (wordsOf src) ⟨some 0,5⟩ [6,7] [5] (joined ((wordsOf src).take 0) ++ [58])
          (by simp [ZeroRun.covers,encapsulated])
        have six : encapsulated (wordsOf src) ⟨some 0,5⟩ 6 = true := by simp only [encapsulated,mark]; simp
        have five : [5].flatMap (piece (wordsOf src)) = 58 :: hex 0xffff := by
          simp only [List.flatMap_cons,List.flatMap_nil,piece,mark]
          rfl
        refine inetNtop6_format (58 :: 58 :: (hex 0xffff ++ 58 :: dotted (src.drop 12))) ?_ (by simp [found]) fits
        rw [found,formatLoop_run two within length rfl,
          show List.range' (0 + 5) (8 - (0 + 5)) = [5] ++ [6,7] from rfl,first,five,
          formatLoop_four (by decide) six (by rw [List.take_zero]; decide +kernel)]
        simp [joined]
      · refine ⟨_,.run base len two within zeros,?_⟩
        intro size fits
        have apart (i : Nat) (behind : base + len ≤ i) : encapsulated (wordsOf src) ⟨some base,len⟩ i = false := by
          by_contra four
          simp only [encapsulated,Bool.not_eq_false,Bool.and_eq_true,Bool.or_eq_true,decide_eq_true_eq,
            Option.some.injEq] at four
          omega
        have rest := formatLoop_rest src two within length rfl apart
        refine inetNtop6_format _ (found ▸ rest) ?_ fits
        have after := joined_after ((wordsOf src).drop (base + len))
        have last : (wordsOf src).drop (base + len) = [] ↔ base + len = 8 := by
          rw [List.drop_eq_nil_iff]
          omega
        rw [found,← after]
        by_cases ends : base + len = 8
        · rw [last.mpr ends]
          simp [ends]
        · rw [if_neg (mt last.mp ends)]
          simp [ends]

end Format

section Shift

variable {colonp n i g : Nat} {b : UInt8} {front back pre : List UInt8}

/-- One byte moves over the zeros to its right. -/
theorem shiftTurn_moves (b : UInt8) (back : List UInt8) (place : colonp + n - i = front.length)
    (last : 16 - i = front.length + (g + 1)) :
    shiftTurn colonp n (front ++ b :: (List.replicate (g + 1) 0 ++ back)) i =
      front ++ (List.replicate (g + 1) 0 ++ b :: back) := by
  have zeros : List.replicate (g + 1) (0 : UInt8) ++ back = List.replicate g 0 ++ 0 :: back := by
    rw [List.replicate_succ']
    simp
  have moved : (List.replicate g (0 : UInt8) ++ 0 :: back).set g b = List.replicate g 0 ++ b :: back := by
    simp [List.set_append_right]
  rw [shiftTurn,place,last,List.set_append_right (h := by omega),Nat.add_sub_cancel_left,List.set_cons_succ,zeros]
  simp only [List.getD_append_right _ _ _ _ (le_refl _),Nat.sub_self,List.getD_cons_zero,moved]
  rw [List.set_append_right (h := le_refl _),Nat.sub_self,List.set_cons_zero,List.replicate_succ]
  rfl

theorem shift_moves (post : List UInt8) (place : pre.length = colonp) (count : n = post.length + back.length)
    (whole : pre.length + post.length + (g + 1) + back.length = 16) :
    (List.range' (back.length + 1) post.length).foldl (shiftTurn colonp n)
      (pre ++ (post ++ (List.replicate (g + 1) 0 ++ back))) = pre ++ (List.replicate (g + 1) 0 ++ (post ++ back)) := by
  induction post using List.reverseRecOn generalizing back with
  | nil => simp
  | append_singleton post b ih =>
    simp only [List.length_append,List.length_singleton] at count whole
    have place' : colonp + n - (back.length + 1) = (pre ++ post).length := by rw [List.length_append]; omega
    have last : 16 - (back.length + 1) = (pre ++ post).length + (g + 1) := by rw [List.length_append]; omega
    have turn := shiftTurn_moves b back place' last
    have count' : n = post.length + (b :: back).length := by rw [List.length_cons]; omega
    have rest := ih count' (by rw [List.length_cons]; omega)
    simp only [List.append_assoc,List.length_cons] at turn rest
    rw [List.length_append,List.length_singleton,List.range'_succ,List.foldl_cons]
    simp only [List.append_assoc,List.singleton_append,turn,rest]

theorem pton6Finish_shift {pre post : List UInt8} (short : pre.length + post.length < 16) :
    pton6Finish (pre ++ post) (some pre.length) =
      some (pre ++ (List.replicate (16 - (pre.length + post.length)) 0 ++ post)) := by
  obtain ⟨g,gap⟩ : ∃ g, 16 - (pre.length + post.length) = g + 1 := ⟨16 - (pre.length + post.length) - 1,by omega⟩
  have whole : pre.length + post.length + (g + 1) + ([] : List UInt8).length = 16 := by rw [List.length_nil]; omega
  have moves := shift_moves post rfl rfl whole
  simp only [List.length_nil,List.append_nil,Nat.zero_add,Nat.add_zero] at moves
  simp only [pton6Finish,List.length_append,gap,if_neg (show ¬ pre.length + post.length = 16 by omega),
    Nat.add_sub_cancel_left,List.append_assoc,moves]

end Shift

section Parse

variable {src rest tmp curtok : List UInt8} {colonp : Option Nat} {seen val w : Nat}

theorem strchr_xdigits {d : Nat} (below : d < 16) : strchr xdigitsL (xdigitsL.getD d 0) = some d :=
  strchr_table (by decide) below

/-- Digits of a word that is not full. -/
theorem pton6Loop_digits (ds : List Nat) (rest tmp : List UInt8) (colonp : Option Nat) (curtok : List UInt8)
    (seen val : Nat) (below : ∀ d ∈ ds, d < 16) (room : seen + ds.length ≤ 4) :
    pton6Loop (ds.map (fun d => xdigitsL.getD d 0) ++ rest) tmp colonp curtok seen val =
      pton6Loop rest tmp colonp curtok (seen + ds.length) (ds.foldl (fun v d => v <<< 4 ||| d) val) := by
  induction ds generalizing seen val with
  | nil => rfl
  | cons d ds ih =>
    have first : d < 16 := below d List.mem_cons_self
    rw [List.length_cons] at room
    rw [List.map_cons,List.cons_append,pton6Loop]
    simp only [strchr_xdigits first,Option.some_or]
    rw [if_neg (by omega),ih _ _ (fun x member => below x (List.mem_cons_of_mem d member)) (by omega),List.foldl_cons,
      List.length_cons,Nat.add_assoc,Nat.add_comm 1]

theorem shifted_value (ds : List Nat) (below : ∀ d ∈ ds, d < 16) :
    ds.foldl (fun v d => v <<< 4 ||| d) 0 = value 16 ds := by
  induction ds using List.reverseRecOn with
  | nil => rfl
  | append_singleton ds d ih =>
    have small : d < 2 ^ 4 := below d (by simp)
    rw [List.foldl_append,ih fun x member => below x (by simp [member]),value_concat,List.foldl_cons,List.foldl_nil,
      ← Nat.shiftLeft_add_eq_or_of_lt small,Nat.shiftLeft_eq]

theorem pton6Loop_hex (small : w < 65536) :
    pton6Loop (hex w ++ rest) tmp colonp curtok 0 0 = pton6Loop rest tmp colonp curtok (hex w).length w := by
  have two : 2 ≤ 16 := by decide
  have below := numeral_below two w
  have count : (numeral 16 w).length ≤ 4 := numeral_length_le two (by decide) small
  have run := pton6Loop_digits (numeral 16 w) rest tmp colonp curtok 0 0 below (by omega)
  rw [shifted_value _ below,value_numeral two] at run
  simpa [hex,printed,xdigitsL,digits] using run

theorem hex_ne_nil (w : Nat) : hex w ≠ [] := printed_ne_nil (by decide) w

/-- The parser at the beginning of a token. -/
def pton6From (src : Text) (tmp : List UInt8) (colonp : Option Nat) : Option (List UInt8) :=
  match pton6Loop src tmp colonp src 0 0 with
  | none => none
  | some (tmp, colonp, seenXdigits, val) =>
    if seenXdigits ≠ 0 then
      if 16 < tmp.length + 2 then none else pton6Finish (tmp ++ wordBytes val) colonp
    else pton6Finish tmp colonp

theorem pton6From_colon : pton6From (58 :: rest) tmp none = pton6From rest tmp (some tmp.length) := by
  have none' : (strchr xdigitsL 58).or (strchr xdigitsU 58) = none := by decide
  rw [pton6From,pton6Loop]
  simp only [none',if_true,ne_eq,not_true,if_false]
  rfl

theorem pton6From_word (small : w < 65536) (more : rest ≠ []) (room : tmp.length + 2 ≤ 16) :
    pton6From (hex w ++ 58 :: rest) tmp colonp = pton6From rest (tmp ++ wordBytes w) colonp := by
  have none' : (strchr xdigitsL 58).or (strchr xdigitsU 58) = none := by decide
  have digits : (hex w).length ≠ 0 := by simp [hex_ne_nil]
  rw [pton6From,pton6Loop_hex small,pton6Loop]
  simp only [none',if_true,if_neg digits,if_neg more,if_neg (show ¬ 16 < tmp.length + 2 by omega)]
  rfl

theorem pton6From_hex (small : w < 65536) (room : tmp.length + 2 ≤ 16) :
    pton6From (hex w) tmp colonp = pton6Finish (tmp ++ wordBytes w) colonp := by
  have digits : (hex w).length ≠ 0 := by simp [hex_ne_nil]
  rw [pton6From,← List.append_nil (hex w),pton6Loop_hex small,pton6Loop]
  simp only [digits,ne_eq,not_false_eq_true,if_true,if_neg (show ¬ 16 < tmp.length + 2 by omega)]

theorem words_length (ws : List Nat) : (ws.flatMap wordBytes).length = 2 * ws.length := by
  induction ws with
  | nil => rfl
  | cons w ws ih =>
    rw [List.flatMap_cons,List.length_append,ih,List.length_cons,wordBytes]
    simp only [List.length_cons,List.length_nil]
    omega

/-- Words with a colon behind each, and more. -/
theorem pton6From_words (ws : List Nat) (small : ∀ w ∈ ws, w < 65536) (more : rest ≠ [])
    (room : tmp.length + 2 * ws.length ≤ 16) :
    pton6From (ws.flatMap (fun w => hex w ++ [58]) ++ rest) tmp colonp =
      pton6From rest (tmp ++ ws.flatMap wordBytes) colonp := by
  induction ws generalizing tmp with
  | nil => simp
  | cons w ws ih =>
    rw [List.length_cons] at room
    have behind : ws.flatMap (fun w => hex w ++ [58]) ++ rest ≠ [] := by simp [more]
    rw [List.flatMap_cons,List.append_assoc,List.append_assoc,List.singleton_append,
      pton6From_word (small w List.mem_cons_self) behind (by omega),
      ih (fun x member => small x (List.mem_cons_of_mem w member))
        (by simp only [List.length_append,wordBytes,List.length_cons,List.length_nil]; omega),
      List.flatMap_cons,List.append_assoc]

theorem joined_concat (ws : List Nat) (w : Nat) :
    joined (ws ++ [w]) = ws.flatMap (fun w => hex w ++ [58]) ++ hex w := by
  have shift (ws : List Nat) : (ws ++ [w]).flatMap (fun w => 58 :: hex w) =
      58 :: (ws.flatMap (fun w => hex w ++ [58]) ++ hex w) := by
    induction ws with
    | nil => simp
    | cons x ws ih => simp [ih]
  cases ws with
  | nil => simp [joined]
  | cons x ws => simp [joined,shift]

theorem joined_colon {ws : List Nat} (some' : ws ≠ []) :
    joined ws ++ 58 :: rest = ws.flatMap (fun w => hex w ++ [58]) ++ rest := by
  induction ws using List.reverseRecOn with
  | nil => contradiction
  | append_singleton ws w _ => simp [joined_concat]

theorem pton6From_joined (ws : List Nat) (small : ∀ w ∈ ws, w < 65536) (room : tmp.length + 2 * ws.length ≤ 16) :
    pton6From (joined ws) tmp colonp = pton6Finish (tmp ++ ws.flatMap wordBytes) colonp := by
  induction ws using List.reverseRecOn with
  | nil => simp [joined,pton6From,pton6Loop]
  | append_singleton ws w _ =>
    rw [List.length_append,List.length_singleton] at room
    have count := words_length ws
    rw [joined_concat,pton6From_words ws (fun x member => small x (by simp [member])) (hex_ne_nil w) (by omega),
      pton6From_hex (small w (by simp)) (by rw [List.length_append]; omega)]
    simp

/-- The loop runs over the first number of an IPv4 address as over the digits of a word. -/
theorem pton6From_dotted {bytes : List UInt8} (length : bytes.length = 4) (room : tmp.length + 4 ≤ 16) :
    pton6From (dotted bytes) tmp colonp = pton6Finish (tmp ++ bytes) colonp := by
  have four := inetPton4_dotted length
  have two : 2 ≤ 10 := by decide
  have ten (d : Nat) (member : d ∈ numeral 10 (bytes.getD 0 0).toNat) : d < 10 := numeral_below two _ d member
  have octet : (numeral 10 (bytes.getD 0 0).toNat).length ≤ 3 :=
    numeral_length_le two (by decide) (Nat.lt_trans (UInt8.toNat_lt _) (by decide))
  have first : printed digits (bytes.getD 0 0).toNat =
      (numeral 10 (bytes.getD 0 0).toNat).map fun d => xdigitsL.getD d 0 := by
    apply List.map_congr_left
    intro d member
    exact (List.getD_append _ _ _ _ (ten d member)).symm
  have none' : (strchr xdigitsL 46).or (strchr xdigitsU 46) = none := by decide
  generalize text : dotted bytes = s at four
  have split : ∃ more, s = (numeral 10 (bytes.getD 0 0).toNat).map (fun d => xdigitsL.getD d 0) ++ 46 :: more :=
    ⟨_,by rw [← text,dotted,← first]⟩
  obtain ⟨more,cut⟩ := split
  have run := pton6Loop_digits (numeral 10 (bytes.getD 0 0).toNat) (46 :: more) tmp colonp s 0 0
    (fun d member => Nat.lt_trans (ten d member) (by decide)) (by omega)
  rw [← cut,pton6Loop] at run
  rw [pton6From,run]
  simp only [none',show ¬ ((46 : UInt8) = 58) by decide,if_false,true_and,room,if_true,four,ne_eq,not_true]

end Parse

section RoundTrip

variable {src : List UInt8} {words : List Nat} {s : Text}

theorem words_zero {base len : Nat} (length : words.length = 8) (within : base + len ≤ 8)
    (zeros : ZeroFrom words base len) :
    (words.drop base).take len = List.replicate len 0 := by
  apply List.ext_getElem
  · rw [List.length_take,List.length_drop,List.length_replicate]
    omega
  · intro i inside _
    rw [List.length_take,List.length_drop] at inside
    have zero := zeros (base + i) (by omega) (by omega)
    rw [List.getD_eq_getElem _ _ (by omega)] at zero
    simpa using zero

theorem zeros_bytes (len : Nat) : (List.replicate len 0).flatMap wordBytes = List.replicate (2 * len) 0 := by
  induction len with
  | zero => rfl
  | succ len ih => rw [List.replicate_succ,List.flatMap_cons,ih]; rfl

/-- The words around a run, and the bytes of the run. -/
theorem words_around {base len : Nat} (length : words.length = 8) (within : base + len ≤ 8)
    (zeros : ZeroFrom words base len) :
    (words.take base).flatMap wordBytes ++ (List.replicate (2 * len) 0 ++ (words.drop (base + len)).flatMap wordBytes) =
      words.flatMap wordBytes := by
  rw [← zeros_bytes,← words_zero length within zeros,← List.flatMap_append,← List.flatMap_append,← List.drop_drop,
    List.take_append_drop,List.take_append_drop]

theorem inetPton6_from (head : s.head? ≠ some 58) : inetPton6 s = pton6From s [] none := by
  rw [inetPton6,if_neg head]
  rfl

/-- A text that begins with a number. -/
theorem printed_head {table : Text} (two : 2 ≤ table.length) (colon : 58 ∉ table) (n : Nat) (rest : Text) :
    (printed table n ++ rest).head? ≠ some 58 := by
  obtain ⟨ch,more,text⟩ := List.exists_cons_of_ne_nil (printed_ne_nil two n)
  have inside : ch ∈ table := printed_mem (n := n) two ch (by rw [text]; exact List.mem_cons_self)
  rw [text,List.cons_append,List.head?_cons]
  rintro same
  obtain rfl := Option.some.inj same
  exact colon inside

theorem inetPton6_hex (w : Nat) (rest : Text) : inetPton6 (hex w ++ rest) = pton6From (hex w ++ rest) [] none :=
  inetPton6_from (printed_head (by decide) (by decide) w rest)

/-- An IPv4 address is no IPv6 address. -/
theorem inetPton6_dotted {bytes : List UInt8} (length : bytes.length = 4) : inetPton6 (dotted bytes) = none := by
  have head : (dotted bytes).head? ≠ some 58 := printed_head (by decide) (by decide) _ _
  rw [inetPton6_from head,pton6From_dotted length (by decide)]
  simp [pton6Finish,length]

theorem inetPton6_colons (rest : Text) : inetPton6 (58 :: 58 :: rest) = pton6From rest [] (some 0) := by
  rw [inetPton6,List.head?_cons,if_pos rfl,List.tail_cons,List.head?_cons,if_neg (by simp)]
  exact pton6From_colon

theorem pton6Finish_whole {tmp : List UInt8} (whole : tmp.length = 16) : pton6Finish tmp none = some tmp := by
  simp [pton6Finish,whole]

theorem pton6Finish_run {base len : Nat} (length : words.length = 8) (positive : 0 < len) (within : base + len ≤ 8)
    (zeros : ZeroFrom words base len) :
    pton6Finish ((words.take base).flatMap wordBytes ++ (words.drop (base + len)).flatMap wordBytes)
      (some ((words.take base).flatMap wordBytes).length) = some (words.flatMap wordBytes) := by
  have front := words_length (words.take base)
  have back := words_length (words.drop (base + len))
  rw [List.length_take] at front
  rw [List.length_drop] at back
  rw [pton6Finish_shift (by omega),show 16 - _ = 2 * len by omega,words_around length within zeros]

theorem bytes_drop (length : src.length = 16) : src.drop 12 = ((wordsOf src).drop 6).flatMap wordBytes := by
  have whole := wordsOf_bytes length
  have front := words_length ((wordsOf src).take 6)
  have split : src = ((wordsOf src).take 6).flatMap wordBytes ++ ((wordsOf src).drop 6).flatMap wordBytes := by
    rw [← List.flatMap_append,List.take_append_drop,whole]
  have front : (((wordsOf src).take 6).flatMap wordBytes).length = 12 := by
    rw [front,List.length_take,wordsOf_length]
    rfl
  generalize wordsOf src = words at split front
  rw [split,List.drop_append_of_le_length front.ge,List.drop_of_length_le front.le,List.nil_append]

/-- What is printed of an address is read back as that address. -/
theorem Shape.parses (shape : Shape src (wordsOf src) s) (length : src.length = 16) : inetPton6 s = some src := by
  have eight := wordsOf_length src
  have small := wordsOf_small src
  have whole := wordsOf_bytes length
  have tail := bytes_drop length
  have quad : (src.drop 12).length = 4 := by rw [List.length_drop,length]
  generalize wordsOf src = words at shape eight small whole tail
  cases shape with
  | plain =>
    obtain ⟨w,ws,rfl⟩ := List.exists_cons_of_length_pos (show 0 < words.length by omega)
    rw [show joined (w :: ws) = hex w ++ ws.flatMap fun w => 58 :: hex w from rfl,inetPton6_hex]
    rw [show (hex w ++ ws.flatMap fun w => 58 :: hex w) = joined (w :: ws) from rfl,
      pton6From_joined _ small (by rw [List.length_nil]; omega),List.nil_append,whole,pton6Finish_whole length]
  | run base len two within zeros =>
    have finish := pton6Finish_run eight (by omega) within zeros
    have before : ∀ w ∈ words.take base, w < 65536 := fun w member => small w (List.mem_of_mem_take member)
    have behind : ∀ w ∈ words.drop (base + len), w < 65536 := fun w member => small w (List.mem_of_mem_drop member)
    have front := words_length (words.take base)
    have back : (words.drop (base + len)).length = 8 - (base + len) := by rw [List.length_drop,eight]
    rw [List.length_take,eight,Nat.min_eq_left (by omega)] at front
    rw [whole] at finish
    by_cases first : base = 0
    · subst first
      rw [List.take_zero,show joined [] = [] from rfl,List.nil_append,inetPton6_colons,
        pton6From_joined _ behind (by rw [back,List.length_nil]; omega)]
      exact finish
    · have some' : words.take base ≠ [] := List.ne_nil_of_length_pos (by rw [List.length_take,eight]; omega)
      have starts : inetPton6 (joined (words.take base) ++ 58 :: 58 :: joined (words.drop (base + len))) =
          pton6From (joined (words.take base) ++ 58 :: 58 :: joined (words.drop (base + len))) [] none := by
        obtain ⟨w,ws,cut⟩ := List.exists_cons_of_ne_nil some'
        rw [cut,joined,List.append_assoc]
        exact inetPton6_hex w _
      rw [starts,joined_colon some',pton6From_words _ before (by simp)
        (by rw [List.length_take,eight,List.length_nil]; omega),
        pton6From_colon,pton6From_joined _ behind (by rw [back,List.nil_append,front]; omega)]
      exact finish
  | four zeros =>
    have finish := pton6Finish_run eight (by decide) (by decide) zeros
    rw [inetPton6_colons,pton6From_dotted quad (by decide)]
    rwa [tail,← whole]
  | mapped zeros mark =>
    have finish := pton6Finish_run eight (by decide) (by decide) zeros
    have five : words.drop 5 = 0xffff :: words.drop 6 := by
      rw [← mark,List.getD_eq_getElem _ _ (by omega)]
      exact List.drop_eq_getElem_cons (by omega)
    rw [inetPton6_colons,pton6From_word (by decide) (by simp [dotted]) (by decide),pton6From_dotted quad (by decide)]
    have low : wordBytes 0xffff ++ src.drop 12 = (words.drop 5).flatMap wordBytes := by
      rw [five,tail,List.flatMap_cons]
    rw [List.nil_append,low,← whole]
    exact finish

theorem dotted_mem : ∀ b ∈ dotted src, b ∈ 46 :: digits := by
  have number (n : Nat) (b : UInt8) (member : b ∈ printed digits n) : b ∈ 46 :: digits :=
    List.mem_cons_of_mem 46 (printed_mem (by decide) b member)
  intro b member
  simp only [dotted,List.mem_append,List.mem_cons] at member
  rcases member with member | rfl | member | rfl | member | rfl | member
  · exact number _ b member
  · decide
  · exact number _ b member
  · decide
  · exact number _ b member
  · decide
  · exact number _ b member

theorem joined_mem (ws : List Nat) : ∀ b ∈ joined ws, b ∈ 58 :: 46 :: xdigitsL := by
  have number (w : Nat) (b : UInt8) (member : b ∈ hex w) : b ∈ 58 :: 46 :: xdigitsL :=
    List.mem_cons_of_mem 58 (List.mem_cons_of_mem 46 (printed_mem (by decide) b member))
  intro b member
  cases ws with
  | nil => cases member
  | cons w ws =>
    simp only [joined,List.mem_append,List.mem_flatMap,List.mem_cons] at member
    rcases member with member | ⟨x,-,rfl | member⟩
    · exact number w b member
    · decide
    · exact number x b member

theorem Shape.mem (shape : Shape src words s) : ∀ b ∈ s, b ∈ 58 :: 46 :: xdigitsL := by
  have quad (b : UInt8) (member : b ∈ dotted (src.drop 12)) : b ∈ 58 :: 46 :: xdigitsL :=
    List.mem_cons_of_mem 58 (List.cons_subset_cons 46 (List.subset_append_left digits _) (dotted_mem b member))
  have colon : (58 : UInt8) ∈ 58 :: 46 :: xdigitsL := List.mem_cons_self
  intro b member
  cases shape with
  | plain => exact joined_mem words b member
  | run base len two within zeros =>
    simp only [List.mem_append,List.mem_cons] at member
    rcases member with member | rfl | rfl | member
    · exact joined_mem _ b member
    · exact colon
    · exact colon
    · exact joined_mem _ b member
  | four zeros =>
    simp only [List.mem_cons] at member
    rcases member with rfl | rfl | member
    · exact colon
    · exact colon
    · exact quad b member
  | mapped zeros mark =>
    simp only [List.mem_cons,List.mem_append] at member
    rcases member with rfl | rfl | member | rfl | member
    · exact colon
    · exact colon
    · exact List.mem_cons_of_mem 58 (List.mem_cons_of_mem 46 (printed_mem (by decide) b member))
    · exact colon
    · exact quad b member

theorem Shape.colon (shape : Shape src words s) (length : words.length = 8) : 58 ∈ s := by
  cases shape with
  | plain =>
    obtain ⟨w,tail,rfl⟩ := List.exists_cons_of_length_pos (show 0 < words.length by omega)
    obtain ⟨x,rest,rfl⟩ := List.exists_cons_of_length_pos (show 0 < tail.length by rw [List.length_cons] at length; omega)
    simp [joined]
  | run base len two within zeros => simp
  | four zeros => exact List.mem_cons_self
  | mapped zeros mark => exact List.mem_cons_self

/-- A text of an address: it is short, and it is read back as that address. -/
theorem inetNtop6_text (src : List UInt8) (length : src.length = 16) :
    ∃ s, Shape src (wordsOf src) s ∧ s.length ≤ 39 ∧ inetPton6 s = some src ∧
      ∀ size, s.length < size → inetNtop6 src size = .ok s := by
  obtain ⟨s,shape,format⟩ := inetNtop6_shape src
  exact ⟨s,shape,shape.length_le (wordsOf_length src) (wordsOf_small src),shape.parses length,format⟩

/-- Every address has a text of 39 bytes at most that `inet_pton6` reads back as that address, and
`inet_ntop6` prints it into every buffer that it fits into. -/
theorem inet6_round_trip (address : In6Addr) :
    ∃ s, s.length ≤ 39 ∧ inetPton6 s = some address.bytes ∧
      ∀ size, s.length < size → inetNtop6 address.bytes size = .ok s := by
  obtain ⟨s,-,short,parses,format⟩ := inetNtop6_text address.bytes address.size
  exact ⟨s,short,parses,format⟩

end RoundTrip

end Tcpeen.Inet
