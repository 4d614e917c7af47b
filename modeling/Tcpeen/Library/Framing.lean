import Tcpeen.Library.BigEndian

/-! Streams of frames, each a big-endian length of four bytes followed by as many bytes. -/
namespace Framing

def frame (payload : List UInt8) : List UInt8 := BigEndian.encode 4 payload.length ++ payload

def framed : List (List UInt8) → List UInt8
  | [] => []
  | payload :: rest => frame payload ++ framed rest

/-- Payloads whose length goes into a header. -/
def Sized (payloads : List (List UInt8)) : Prop := ∀ payload ∈ payloads, payload.length < 256 ^ 4

theorem Sized.head {payload : List UInt8} {rest : List (List UInt8)} (sized : Sized (payload :: rest)) :
    payload.length < 256 ^ 4 := sized payload List.mem_cons_self

theorem Sized.tail {payload : List UInt8} {rest : List (List UInt8)} (sized : Sized (payload :: rest)) :
    Sized rest := fun d inside => sized d (List.mem_cons_of_mem _ inside)

@[simp] theorem frame_length (payload : List UInt8) : (frame payload).length = 4 + payload.length := by
  simp [frame]

/-- What is left behind the last whole frame: less than a length, or a length and less than
it announces. -/
def Incomplete (bytes : List UInt8) : Prop :=
  bytes.length < 4 ∨ ∃ length rest, bytes = BigEndian.encode 4 length ++ rest ∧ length < 256 ^ 4 ∧
    rest.length < length

/-- The payloads of the whole frames at the front of a stream, and what is left of it. -/
def cut : Nat → List UInt8 → List (List UInt8) × List UInt8
  | 0, bytes => ([], bytes)
  | fuel + 1, bytes =>
    let length := BigEndian.decode (bytes.take 4)
    if bytes.length < 4 + length then ([], bytes)
    else
      let (payloads, rest) := cut fuel (bytes.drop (4 + length))
      ((bytes.drop 4).take length :: payloads, rest)

def payloads (bytes : List UInt8) : List (List UInt8) := (cut bytes.length bytes).1

def remainder (bytes : List UInt8) : List UInt8 := (cut bytes.length bytes).2

theorem framed_append (first later : List (List UInt8)) :
    framed (first ++ later) = framed first ++ framed later := by
  induction first with
  | nil => rfl
  | cons payload first ih => simp [framed,ih]

/-- The header of a stream and what is behind it are determined. -/
theorem header_inj {length length' : Nat} {rest rest' : List UInt8} (small : length < 256 ^ 4)
    (small' : length' < 256 ^ 4)
    (same : BigEndian.encode 4 length ++ rest = BigEndian.encode 4 length' ++ rest') :
    length = length' ∧ rest = rest' := by
  obtain ⟨headers,rests⟩ := List.append_inj same (by simp)
  refine ⟨?_,rests⟩
  rw [← BigEndian.decode_encode_of_lt 4 length small,headers,BigEndian.decode_encode_of_lt 4 length' small']

theorem incomplete_iff {length : Nat} {rest : List UInt8} (small : length < 256 ^ 4) :
    Incomplete (BigEndian.encode 4 length ++ rest) ↔ rest.length < length := by
  constructor
  · rintro (short | ⟨length',rest',same,small',short⟩)
    · simp only [List.length_append,BigEndian.encode_length] at short
      omega
    · obtain ⟨rfl,rfl⟩ := header_inj small small' same
      exact short
  · intro short
    exact .inr ⟨length,rest,rfl,small,short⟩

/-- A stream that begins with a whole frame is not incomplete. -/
theorem frame_complete {payload rest : List UInt8} (small : payload.length < 256 ^ 4) :
    ¬ Incomplete (frame payload ++ rest) := by
  rw [frame,List.append_assoc,incomplete_iff small,List.length_append]
  omega

/-- The frames of a stream are determined, as far as another reading of it goes. -/
theorem framed_split {first all : List (List UInt8)} {more rest : List UInt8} (sized : Sized first)
    (sized' : Sized all) (incomplete : Incomplete rest) (same : framed first ++ more = framed all ++ rest) :
    ∃ later, all = first ++ later ∧ more = framed later ++ rest := by
  induction first generalizing all with
  | nil => exact ⟨all,rfl,same⟩
  | cons payload first ih =>
    cases all with
    | nil =>
      simp only [framed,List.append_assoc,List.nil_append] at same
      rw [← same] at incomplete
      exact absurd incomplete (frame_complete sized.head)
    | cons payload' all =>
      simp only [framed,frame,List.append_assoc] at same
      obtain ⟨length,rests⟩ := header_inj sized.head sized'.head same
      obtain ⟨rfl,behind⟩ := List.append_inj rests length
      obtain ⟨later,rfl,split⟩ := ih sized.tail sized'.tail behind
      exact ⟨later,rfl,split⟩

/-- The frame that a header of enough bytes announces. -/
theorem frame_first {bytes : List UInt8} (enough : 4 + BigEndian.decode (bytes.take 4) ≤ bytes.length) :
    frame ((bytes.drop 4).take (BigEndian.decode (bytes.take 4))) ++
      bytes.drop (4 + BigEndian.decode (bytes.take 4)) = bytes := by
  have four : (bytes.take 4).length = 4 := by
    rw [List.length_take]
    omega
  have header := BigEndian.encode_decode (bytes.take 4)
  rw [four] at header
  have length : ((bytes.drop 4).take (BigEndian.decode (bytes.take 4))).length =
      BigEndian.decode (bytes.take 4) := by
    rw [List.length_take,List.length_drop]
    omega
  rw [frame,length,header,List.append_assoc,← List.drop_drop,List.take_append_drop,List.take_append_drop]

theorem cut_spec {fuel : Nat} {bytes : List UInt8} (enough : bytes.length ≤ fuel) :
    bytes = framed (cut fuel bytes).1 ++ (cut fuel bytes).2 ∧ Sized (cut fuel bytes).1 ∧
      Incomplete (cut fuel bytes).2 := by
  induction fuel generalizing bytes with
  | zero => exact ⟨rfl,fun _ inside => absurd inside List.not_mem_nil,.inl (by simp only [cut]; omega)⟩
  | succ fuel ih =>
    have small := BigEndian.decode_lt (bytes.take 4)
    rw [cut]
    by_cases short : bytes.length < 4 + BigEndian.decode (bytes.take 4)
    · simp only [if_pos short]
      refine ⟨rfl,fun _ inside => absurd inside List.not_mem_nil,?_⟩
      by_cases header : bytes.length < 4
      · exact .inl header
      · have four : (bytes.take 4).length = 4 := by
          rw [List.length_take]
          omega
        have announced := BigEndian.encode_decode (bytes.take 4)
        rw [four] at announced small
        refine .inr ⟨BigEndian.decode (bytes.take 4),bytes.drop 4,?_,small,?_⟩
        · rw [announced,List.take_append_drop]
        · rw [List.length_drop]
          omega
    · simp only [if_neg short]
      obtain ⟨whole,sized,incomplete⟩ := @ih (bytes.drop (4 + BigEndian.decode (bytes.take 4)))
        (by rw [List.length_drop]; omega)
      refine ⟨?_,?_,incomplete⟩
      · rw [framed,List.append_assoc,← whole,frame_first (by omega)]
      · intro payload inside
        rcases List.mem_cons.mp inside with rfl | later
        · rw [List.length_take]
          have four : (bytes.take 4).length ≤ 4 := by simp
          exact (Nat.min_le_left _ _).trans_lt (small.trans_le (Nat.pow_le_pow_right (by decide) four))
        · exact sized payload later

/-- A piece of a stream completes some of its frames and leaves the others. -/
theorem split_arrival {before chunk future rest : List UInt8} {all : List (List UInt8)}
    (whole : before ++ (chunk ++ future) = framed all ++ rest) (sized : Sized all) (incomplete : Incomplete rest) :
    ∃ now later left, all = now ++ later ∧ before ++ chunk = framed now ++ left ∧ Incomplete left ∧
      left ++ future = framed later ++ rest := by
  obtain ⟨parts,sized',incomplete'⟩ := cut_spec (Nat.le_refl (before ++ chunk).length)
  rw [← List.append_assoc,parts,List.append_assoc] at whole
  obtain ⟨later,split,behind⟩ := framed_split sized' sized incomplete whole
  exact ⟨_,later,_,split,parts,incomplete',behind⟩

theorem Sized.of_append {first later : List (List UInt8)} (sized : Sized (first ++ later)) :
    Sized first ∧ Sized later :=
  ⟨fun d inside => sized d (List.mem_append_left _ inside),fun d inside => sized d (List.mem_append_right _ inside)⟩

theorem payloads_spec (bytes : List UInt8) :
    bytes = framed (payloads bytes) ++ remainder bytes ∧ Sized (payloads bytes) ∧ Incomplete (remainder bytes) :=
  cut_spec (Nat.le_refl _)

/-- There is one way to read a stream. -/
theorem payloads_unique {bytes rest : List UInt8} {all : List (List UInt8)} (whole : bytes = framed all ++ rest)
    (sized : Sized all) (incomplete : Incomplete rest) : payloads bytes = all ∧ remainder bytes = rest := by
  obtain ⟨parts,sized',incomplete'⟩ := payloads_spec bytes
  obtain ⟨later,rfl,behind⟩ := framed_split sized' sized incomplete (parts.symm.trans whole)
  cases later with
  | nil => exact ⟨by simp,behind⟩
  | cons payload later =>
    rw [behind,framed,List.append_assoc] at incomplete'
    exact absurd incomplete' (frame_complete sized.of_append.2.head)

theorem payloads_incomplete {bytes : List UInt8} (incomplete : Incomplete bytes) : payloads bytes = [] :=
  (payloads_unique (show bytes = framed [] ++ bytes from rfl) (fun _ inside => absurd inside List.not_mem_nil)
    incomplete).1

theorem remainder_incomplete {bytes : List UInt8} (incomplete : Incomplete bytes) : remainder bytes = bytes :=
  (payloads_unique (show bytes = framed [] ++ bytes from rfl) (fun _ inside => absurd inside List.not_mem_nil)
    incomplete).2

/-- The frames of a stream do not depend on where its reading pauses. -/
theorem payloads_append (first later : List UInt8) :
    payloads (first ++ later) = payloads first ++ payloads (remainder first ++ later) ∧
      remainder (first ++ later) = remainder (remainder first ++ later) := by
  obtain ⟨parts,sized,-⟩ := payloads_spec first
  obtain ⟨parts',sized',incomplete⟩ := payloads_spec (remainder first ++ later)
  refine payloads_unique ?_ ?_ incomplete
  · calc first ++ later
      _ = framed (payloads first) ++ (remainder first ++ later) := by rw [← List.append_assoc,← parts]
      _ = framed (payloads first) ++ (framed (payloads (remainder first ++ later)) ++
            remainder (remainder first ++ later)) := congrArg _ parts'
      _ = framed (payloads first ++ payloads (remainder first ++ later)) ++
            remainder (remainder first ++ later) := by rw [framed_append,List.append_assoc]
  · intro payload inside
    rcases List.mem_append.mp inside with before | behind
    · exact sized payload before
    · exact sized' payload behind

/-- Of a stream that is known in two ways, the part that has arrived begins with the first
piece once it is as long. -/
theorem split_prefix {unread future : List UInt8} (first later : List UInt8)
    (whole : unread ++ future = first ++ later) (enough : first.length ≤ unread.length) :
    ∃ left, unread = first ++ left ∧ left ++ future = later := by
  obtain ⟨left,split⟩ := List.prefix_of_prefix_length_le
    ⟨later,rfl⟩ (whole ▸ List.prefix_append unread future) enough
  refine ⟨left,split.symm,?_⟩
  rw [← split,List.append_assoc] at whole
  exact List.append_cancel_left whole

end Framing
