import Tcpeen.BufferFifo
import Tcpeen.Library.Transition

/-! The two calls of buffer.c that set lengths and cursor directly. `tn_buffer_set_length`
leaves the cursor's start where it is, and `tn_buffer_read_seek` may leave stored bytes behind
the cursor's end, where the next write does not go. -/
namespace Tcpeen.Buffer

/-- `tn_buffer_set_length`. Its guard is the one of `tn_buffer_add_length`. -/
def setLength (b : Buffer) (len : Nat) : Option Buffer :=
  if b.buf.capacity - b.buf.len < len then none
  else some { buf := { b.buf with len := len }, pos := { b.pos with len := len } }

/-- `tn_buffer_read_seek`, where its assertions hold; it has no other error. -/
def readSeek (b : Buffer) (span : Cursor) : Option Buffer :=
  if 0 < span.len ∧ span.ptr + span.len < b.buf.capacity then some { b with pos := span } else none

/-- Every call on a buffer. -/
inductive Call where
  | plain (op : Op)
  | readSkip (len : Nat)
  | setLength (len : Nat)
  | readSeek (span : Cursor)

/-- One call; an assertion that fails ends the run. -/
def step (b : Buffer) : Call → Option Buffer
  | .plain op => some (op.apply b).1
  | .readSkip len => some ((b.readSkip len).getD b)
  | .setLength len => some ((b.setLength len).getD b)
  | .readSeek span => b.readSeek span

/-- The cursor stays inside the stored bytes. -/
def Inside (b : Buffer) : Prop := b.pos.ptr + b.pos.len ≤ b.buf.len

/-- What is written next is what a reader gets behind the bytes it has. -/
def Appends (b : Buffer) : Prop := ∀ src b', b.write src = some b' → b'.unread = b.unread ++ src

/-- `tn_buffer_set_length` succeeds exactly up to the capacity, and leaves the buffer readable. -/
def SetLengthKeeps (b : Buffer) (len : Nat) : Prop :=
  ((b.setLength len).isSome ↔ len ≤ b.buf.capacity) ∧
    ∀ b', b.setLength len = some b' → Inside b' ∧ Appends b'

def ReadSeekKeeps (b : Buffer) (span : Cursor) : Prop :=
  ∀ b', b.readSeek span = some b' → Inside b' ∧ Appends b'

/-- The lengths that fit behind the stored bytes, on a cursor that has not moved. -/
def SetLengthSafe (b : Buffer) (len : Nat) : Prop :=
  b.buf.capacity < len ∨ (len ≤ b.remaining ∧ b.pos.ptr = 0)

/-- The spans that end where the stored bytes end, or any span of a full block. -/
def ReadSeekSafe (b : Buffer) (span : Cursor) : Prop :=
  span.ptr + span.len = b.buf.len ∨ b.buf.len = b.buf.capacity

/-- A span of stored bytes. -/
def Stored (b : Buffer) (span : Cursor) : Prop := span.ptr + span.len ≤ b.buf.len

instance decidableSetLengthSafe (b : Buffer) (len : Nat) : Decidable (SetLengthSafe b len) :=
  inferInstanceAs (Decidable (_ ∨ _))
instance decidableReadSeekSafe (b : Buffer) (span : Cursor) : Decidable (ReadSeekSafe b span) :=
  inferInstanceAs (Decidable (_ ∨ _))
instance decidableStored (b : Buffer) (span : Cursor) : Decidable (Stored b span) := inferInstanceAs (Decidable (_ ≤ _))

def Careful (b : Buffer) : Call → Prop
  | .setLength len => SetLengthSafe b len
  | .readSeek span => Stored b span ∧ ReadSeekSafe b span
  | _ => True

/-- What an ordinary call does to the lengths: it moves both ends by the same number of
bytes, or sets the cursor to the whole of what is stored. -/
inductive Shift (b b' : Buffer) : Prop
  | moved (count : Nat) : b'.buf.capacity = b.buf.capacity → count ≤ b.remaining →
      b'.buf.len = b.buf.len + count → b'.pos.ptr + b'.pos.len = b.pos.ptr + b.pos.len + count → Shift b b'
  | rewound : b'.buf.capacity = b.buf.capacity → b'.buf.len ≤ b.buf.len → b'.pos.ptr = 0 →
      b'.pos.len = b'.buf.len → Shift b b'

section Shift

variable {b b' : Buffer}

theorem Shift.same (b : Buffer) : Shift b b := .moved 0 rfl (Nat.zero_le _) rfl rfl

theorem write_shift {src : List UInt8} (wrote : b.write src = some b') : Shift b b' := by
  obtain ⟨room,rfl⟩ := write_cases wrote
  refine .moved src.length rfl ?_ rfl ?_
  · simp only [remaining]
    omega
  · simp only
    omega

theorem advance_shift {len : Nat} {pos : Cursor} (advanced : b.pos.advance len = some pos) :
    Shift b { b with pos } := by
  simp only [Cursor.advance,Option.ite_none_left_eq_some,Option.some.injEq] at advanced
  obtain ⟨enough,rfl⟩ := advanced
  refine .moved 0 rfl (Nat.zero_le _) rfl ?_
  simp only
  omega

theorem read_shift {len : Nat} {bytes : List UInt8} (took : b.read len = some (b', bytes)) : Shift b b' := by
  obtain ⟨pos,advanced,equal⟩ := Option.map_eq_some_iff.mp took
  obtain ⟨rfl,-⟩ := Prod.mk.inj equal
  exact advance_shift advanced

theorem readBe_shift {width value : Nat} (took : Buffer.readBe width b = some (b', value)) : Shift b b' := by
  obtain ⟨⟨after,bytes⟩,read,equal⟩ := Option.map_eq_some_iff.mp took
  obtain ⟨rfl,-⟩ := Prod.mk.inj equal
  exact read_shift read

theorem readSkip_shift (b : Buffer) (len : Nat) : Shift b ((b.readSkip len).getD b) := by
  unfold readSkip
  cases advanced : b.pos.advance len with
  | none => exact .same b
  | some pos =>
    by_cases zero : len = 0
    · simpa [zero] using Shift.same b
    · simpa [zero] using advance_shift advanced

theorem addLength_shift {stored : List UInt8}
    (added : ((Op.addLength stored).found b).addLength stored.length = some b') : Shift b b' := by
  obtain ⟨room,equal⟩ := Option.ite_none_left_eq_some.mp added
  obtain rfl := Option.some.inj equal
  simp only [Op.found] at room ⊢
  refine .moved stored.length rfl ?_ rfl ?_
  · simp only [remaining]
    omega
  · simp only
    omega

theorem found_shift (op : Op) (b : Buffer) : Shift b (op.found b) := by
  cases op <;> exact .moved 0 rfl (Nat.zero_le _) rfl rfl

theorem call_shift {op : Op} {outcome : Outcome} (done : op.call (op.found b) = some (b', outcome)) :
    Shift b b' := by
  cases op with
  | write | writeU8 | writeBe16 | writeBe32 | writeBe64 =>
    obtain ⟨after,wrote,equal⟩ := Option.map_eq_some_iff.mp done
    obtain ⟨rfl,-⟩ := Prod.mk.inj equal
    exact write_shift wrote
  | addLength stored =>
    obtain ⟨after,added,equal⟩ := Option.map_eq_some_iff.mp done
    obtain ⟨rfl,-⟩ := Prod.mk.inj equal
    exact addLength_shift added
  | read len =>
    obtain ⟨⟨after,bytes⟩,took,equal⟩ := Option.map_eq_some_iff.mp done
    obtain ⟨rfl,-⟩ := Prod.mk.inj equal
    exact read_shift took
  | readU8 | readBe16 | readBe32 | readBe64 =>
    obtain ⟨⟨after,value⟩,took,equal⟩ := Option.map_eq_some_iff.mp done
    obtain ⟨rfl,-⟩ := Prod.mk.inj equal
    exact readBe_shift took
  | readSkip len positive =>
    obtain ⟨after,skipped,equal⟩ := Option.map_eq_some_iff.mp done
    obtain ⟨rfl,-⟩ := Prod.mk.inj equal
    have shift := readSkip_shift b len
    have same : b.readSkip len = some after := skipped
    rwa [same] at shift
  | readReset =>
    cases done
    exact .rewound rfl (Nat.le_refl _) rfl rfl
  | writeReset =>
    cases done
    exact .rewound rfl (Nat.zero_le _) rfl rfl

theorem Op.apply_shift (op : Op) (b : Buffer) : Shift b (op.apply b).1 := by
  unfold Op.apply
  cases done : op.call (op.found b) with
  | none => exact found_shift op b
  | some result => exact call_shift done

end Shift

section Reposition

variable {b b' : Buffer} {len : Nat} {span : Cursor}

/-- A write goes behind the stored bytes, so a reader gets it next only where its own bytes
end there; a full block takes no write at all. -/
theorem appends_iff (bounded : b.buf.len ≤ b.buf.capacity) (small : b.buf.capacity < sizeHalf) :
    Appends b ↔ b.pos.ptr + b.pos.len = b.buf.len ∨ b.buf.len = b.buf.capacity := by
  constructor
  · intro appends
    by_contra apart
    simp only [not_or] at apart
    have accepted : ¬ (sizeHalf < b.buf.len ∨ sizeHalf < 1 ∨ b.buf.capacity < b.buf.len + 1) := by omega
    have gets := appends [b.buf.mem (b.pos.ptr + b.pos.len) + 1] _
      (by simp only [Buffer.write,ByteBuf.write,List.length_singleton,if_neg accepted,Option.map_some]; rfl)
    simp only [unread,window_add] at gets
    have last := (List.append_inj' gets (by simp)).2
    have kept : store b.buf.mem b.buf.len [b.buf.mem (b.pos.ptr + b.pos.len) + 1] (b.pos.ptr + b.pos.len) =
        b.buf.mem (b.pos.ptr + b.pos.len) := by
      unfold store
      split
      · rw [List.getElem?_eq_none (by simp only [List.length_singleton]; omega)]
        rfl
      · rfl
    simp [window,kept] at last
  · rintro (aligned | full) src b' wrote
    · obtain ⟨-,rfl⟩ := write_cases wrote
      simp only [unread]
      rw [window_add,aligned,window_store,window_store_before _ _ _ _ _ aligned.le]
    · obtain ⟨room,rfl⟩ := write_cases wrote
      obtain rfl : src = [] := List.length_eq_zero_iff.mp (by omega)
      have same : store b.buf.mem b.buf.len [] = b.buf.mem := by
        funext i
        simp [store]
      simp [unread,same]

theorem setLength_keeps (bounded : b.buf.len ≤ b.buf.capacity) (small : b.buf.capacity < sizeHalf) :
    SetLengthKeeps b len ↔ SetLengthSafe b len := by
  unfold SetLengthKeeps SetLengthSafe setLength remaining
  by_cases refused : b.buf.capacity - b.buf.len < len
  · simp only [if_pos refused,Option.isSome_none,Bool.false_eq_true,false_iff,reduceCtorEq,false_implies,
      implies_true,and_true]
    omega
  · simp only [if_neg refused,Option.isSome_some,true_iff,Option.some.injEq,forall_eq',Inside]
    constructor
    · rintro ⟨-,inside,-⟩
      exact .inr ⟨by omega,by omega⟩
    · rintro (large | ⟨fits,start⟩)
      · omega
      · have shorter : len ≤ b.buf.capacity := by omega
        have aligned : b.pos.ptr + len = len := by omega
        exact ⟨shorter,aligned.le,(appends_iff (b := ⟨⟨b.buf.mem,len,b.buf.capacity⟩,⟨b.pos.ptr,len⟩⟩)
          shorter small).mpr (.inl aligned)⟩

theorem readSeek_keeps (bounded : b.buf.len ≤ b.buf.capacity) (small : b.buf.capacity < sizeHalf)
    (stored : Stored b span) (accepted : (b.readSeek span).isSome) :
    ReadSeekKeeps b span ↔ ReadSeekSafe b span := by
  obtain ⟨b',sought⟩ := Option.isSome_iff_exists.mp accepted
  have moved := (Option.ite_none_right_eq_some.mp sought).2
  unfold ReadSeekKeeps ReadSeekSafe
  rw [sought]
  obtain rfl := Option.some.inj moved
  simp only [Option.some.injEq,forall_eq']
  rw [appends_iff (b := { b with pos := span }) bounded small]
  exact ⟨fun keeps => keeps.2,fun safe => ⟨stored,safe⟩⟩

/-- What every run keeps. -/
structure Bounded (capacity : Nat) (b : Buffer) : Prop where
  capacity : b.buf.capacity = capacity
  bounded : b.buf.len ≤ b.buf.capacity

theorem Bounded.shift {capacity : Nat} (known : Bounded capacity b) (shift : Shift b b') :
    Bounded capacity b' := by
  have bound := known.bounded
  cases shift with
  | moved count same room length _ =>
    simp only [remaining] at room
    exact ⟨same.trans known.capacity,by omega⟩
  | rewound same shorter _ _ => exact ⟨same.trans known.capacity,by omega⟩

theorem Bounded.step {capacity : Nat} (known : Bounded capacity b) {call : Call}
    (taken : Buffer.step b call = some b') : Bounded capacity b' := by
  cases call with
  | plain op =>
    cases taken
    exact known.shift (op.apply_shift b)
  | readSkip len =>
    cases taken
    exact known.shift (readSkip_shift b len)
  | setLength len =>
    cases taken
    unfold setLength
    split
    · exact known
    · next accepted => exact ⟨known.capacity,by simp only [Option.getD_some]; omega⟩
  | readSeek span =>
    obtain rfl := Option.some.inj (Option.ite_none_right_eq_some.mp taken).2
    exact ⟨known.capacity,known.bounded⟩

/-- What the runs with careful calls keep. -/
structure Readable (b : Buffer) : Prop where
  inside : Inside b
  ends : b.pos.ptr + b.pos.len = b.buf.len ∨ b.buf.len = b.buf.capacity

theorem Readable.shift (known : Readable b) (shift : Shift b b') : Readable b' := by
  obtain ⟨inside,ends⟩ := known
  simp only [Inside] at inside
  cases shift with
  | moved count same room length cursor =>
    simp only [remaining] at room
    exact ⟨by simp only [Inside]; omega,by omega⟩
  | rewound _ _ start whole => exact ⟨by simp only [Inside]; omega,.inl (by omega)⟩

theorem Readable.step (known : Readable b) {call : Call} (careful : Careful b call)
    (taken : Buffer.step b call = some b') : Readable b' := by
  cases call with
  | plain op =>
    cases taken
    exact known.shift (op.apply_shift b)
  | readSkip len =>
    cases taken
    exact known.shift (readSkip_shift b len)
  | setLength len =>
    cases taken
    unfold setLength
    split
    · exact known
    · next accepted =>
      have start : b.pos.ptr = 0 := by
        rcases careful with large | ⟨-,start⟩
        · omega
        · exact start
      exact ⟨by simp only [Inside,Option.getD_some]; omega,.inl (by simp only [Option.getD_some]; omega)⟩
  | readSeek span =>
    obtain rfl := Option.some.inj (Option.ite_none_right_eq_some.mp taken).2
    exact ⟨careful.1,careful.2⟩

end Reposition

/-- In every buffer that any calls lead to, the two calls do what they should exactly for the
arguments named; and where all calls of a run have such arguments, every buffer of the run is
readable within what was stored. -/
theorem reposition_exact (mem : Nat → UInt8) (capacity : Nat) (small : capacity < sizeHalf) :
    (∀ b, Transition.Reachable step (fun _ _ => True) (setup mem capacity) b →
      (∀ len, SetLengthKeeps b len ↔ SetLengthSafe b len) ∧
      ∀ span, Stored b span → (b.readSeek span).isSome → (ReadSeekKeeps b span ↔ ReadSeekSafe b span)) ∧
    ∀ b, Transition.Reachable step Careful (setup mem capacity) b → Inside b ∧ Appends b := by
  have bounded {guard} (b : Buffer) (reach : Transition.Reachable step guard (setup mem capacity) b) :
      Bounded capacity b :=
    reach.invariant (Bounded capacity) ⟨rfl,Nat.zero_le _⟩ fun _ _ _ known _ taken => known.step taken
  constructor
  · intro b reach
    obtain ⟨same,within⟩ := bounded b reach
    have small' : b.buf.capacity < sizeHalf := same ▸ small
    exact ⟨fun len => setLength_keeps within small',
      fun span stored accepted => readSeek_keeps within small' stored accepted⟩
  · intro b reach
    obtain ⟨same,within⟩ := bounded b reach
    have readable := reach.invariant Readable ⟨Nat.le_refl _,.inl rfl⟩
      fun _ _ _ known careful taken => known.step careful taken
    exact ⟨readable.inside,(appends_iff within (same ▸ small)).mpr readable.ends⟩

/-- A block of eight bytes with three stored ones, of which one has been read. -/
def partlyRead : Buffer := (run Op.apply [.write [1,2,3],.readU8] (setup (fun _ => 0) 8)).1

theorem partlyRead_reachable : Transition.Reachable step (fun _ _ => True) (setup (fun _ => 0) 8) partlyRead := by
  have first : step (setup (fun _ => 0) 8) (.plain (.write [1,2,3])) = some _ := rfl
  have second : step ((Op.write [1,2,3]).apply (setup (fun _ => 0) 8)).1 (.plain .readU8) = some partlyRead := rfl
  exact .step (.step .start trivial first) trivial second

/-- A length of nine is refused, and a seek to the last two stored bytes keeps what was stored. -/
theorem reposition_partly_read :
    Transition.Reachable step (fun _ _ => True) (setup (fun _ => 0) 8) partlyRead ∧
      SetLengthKeeps partlyRead 9 ∧ (partlyRead.readSeek ⟨1, 2⟩).isSome ∧ ReadSeekKeeps partlyRead ⟨1, 2⟩ := by
  obtain ⟨lengths,seeks⟩ := (reposition_exact (fun _ => 0) 8 (by decide)).1 partlyRead partlyRead_reachable
  exact ⟨partlyRead_reachable,(lengths 9).mpr (by decide),rfl,(seeks ⟨1, 2⟩ (by decide) rfl).mpr (by decide)⟩

/-- Six of eight bytes are refused, four put the cursor's end at five, and after a seek to the
first two a reader gets the third stored byte where the next write was due. -/
theorem reposition_slips :
    Transition.Reachable step (fun _ _ => True) (setup (fun _ => 0) 8) partlyRead ∧
      partlyRead.setLength 6 = none ∧ ¬ SetLengthKeeps partlyRead 6 ∧
      (partlyRead.setLength 4).isSome ∧ ¬ SetLengthKeeps partlyRead 4 ∧
      Stored partlyRead ⟨0, 2⟩ ∧ (partlyRead.readSeek ⟨0, 2⟩).isSome ∧ ¬ ReadSeekKeeps partlyRead ⟨0, 2⟩ := by
  have bounded : partlyRead.buf.len ≤ partlyRead.buf.capacity := by decide
  have small : partlyRead.buf.capacity < sizeHalf := by decide
  have stored : Stored partlyRead ⟨0, 2⟩ := by decide
  refine ⟨partlyRead_reachable,rfl,?_,rfl,?_,stored,rfl,?_⟩
  · rw [setLength_keeps bounded small]
    decide
  · rw [setLength_keeps bounded small]
    decide
  · rw [readSeek_keeps bounded small stored rfl]
    decide

end Tcpeen.Buffer
