import Tcpeen.Buffer
import Tcpeen.Library.ReplayQueue

/-! `tn_buffer_t` as a byte queue: every sequence of its operations answers as a bounded
queue of bytes does. -/
namespace Tcpeen.Buffer

/-- Calls on one buffer. `addLength` accounts for bytes that were stored at the write pointer
before the call, as libuv does with the memory `tn_buffer_write_ptr` points to. -/
inductive Op where
  | write (src : List UInt8)
  | writeU8 (value : UInt8)
  | writeBe16 (value : UInt16)
  | writeBe32 (value : UInt32)
  | writeBe64 (value : UInt64)
  | addLength (stored : List UInt8)
  | read (len : Nat)
  | readU8
  | readBe16
  | readBe32
  | readBe64
  | readSkip (len : Nat) (positive : 0 < len)
  | readReset
  | writeReset
  deriving DecidableEq

/-- What a call returns: its status, and what it stored through its out pointer. -/
inductive Outcome where
  | failure
  | success
  | bytes (out : List UInt8)
  | value (out : Nat)
  deriving DecidableEq, Repr

namespace Op

def call : Op → Buffer → Option (Buffer × Outcome)
  | .write src, b => (b.write src).map (·, .success)
  | .writeU8 value, b => (b.writeU8 value).map (·, .success)
  | .writeBe16 value, b => (b.writeBe16 value).map (·, .success)
  | .writeBe32 value, b => (b.writeBe32 value).map (·, .success)
  | .writeBe64 value, b => (b.writeBe64 value).map (·, .success)
  | .addLength stored, b => (b.addLength stored.length).map (·, .success)
  | .read len, b => (b.read len).map fun (b, out) => (b, .bytes out)
  | .readU8, b => b.readU8.map fun (b, out) => (b, .value out)
  | .readBe16, b => b.readBe16.map fun (b, out) => (b, .value out)
  | .readBe32, b => b.readBe32.map fun (b, out) => (b, .value out)
  | .readBe64, b => b.readBe64.map fun (b, out) => (b, .value out)
  | .readSkip len _, b => (b.readSkip len).map (·, .success)
  | .readReset, b => some (b.readReset, .success)
  | .writeReset, b => some (b.writeReset, .success)

/-- The buffer a call finds: whoever fills the block past the write pointer stays inside it. -/
def found : Op → Buffer → Buffer
  | .addLength stored, b =>
    { b with buf := { b.buf with mem := store b.buf.mem b.writePtr (stored.take b.remaining) } }
  | _, b => b

/-- One call; a call that fails leaves the buffer it found. -/
def apply (op : Op) (b : Buffer) : Buffer × Outcome :=
  (op.call (op.found b)).getD (op.found b, .failure)

/-- Bytes a call adds. -/
def puts : Op → Nat
  | .write src => src.length
  | .writeU8 _ => 1
  | .writeBe16 _ => 2
  | .writeBe32 _ => 4
  | .writeBe64 _ => 8
  | .addLength stored => stored.length
  | _ => 0

/-- Bytes a call takes. -/
def takes : Op → Nat
  | .read len => len
  | .readU8 => 1
  | .readBe16 => 2
  | .readBe32 => 4
  | .readBe64 => 8
  | .readSkip len _ => len
  | _ => 0

/-- The same call on a queue of bytes. -/
def spec : Op → ReplayQueue UInt8 → Option (ReplayQueue UInt8 × Outcome)
  | .write src, q => (q.put src).map (·, .success)
  | .writeU8 value, q => (q.put (BigEndian.encode 1 value.toNat)).map (·, .success)
  | .writeBe16 value, q => (q.put (BigEndian.encode 2 value.toNat)).map (·, .success)
  | .writeBe32 value, q => (q.put (BigEndian.encode 4 value.toNat)).map (·, .success)
  | .writeBe64 value, q => (q.put (BigEndian.encode 8 value.toNat)).map (·, .success)
  | .addLength stored, q => (q.put stored).map (·, .success)
  | .read len, q => (q.take len).map fun (q, out) => (q, .bytes out)
  | .readU8, q => (q.take 1).map fun (q, out) => (q, .value (BigEndian.decode out))
  | .readBe16, q => (q.take 2).map fun (q, out) => (q, .value (BigEndian.decode out))
  | .readBe32, q => (q.take 4).map fun (q, out) => (q, .value (BigEndian.decode out))
  | .readBe64, q => (q.take 8).map fun (q, out) => (q, .value (BigEndian.decode out))
  | .readSkip len _, q => (q.take len).map fun (q, _) => (q, .success)
  | .readReset, q => some (q.rewind, .success)
  | .writeReset, q => some (q.clear, .success)

def applySpec (op : Op) (q : ReplayQueue UInt8) : ReplayQueue UInt8 × Outcome := (op.spec q).getD (q, .failure)

end Op

/-- A sequence of calls with what each returned. -/
def run {S : Type} (apply : Op → S → S × Outcome) : List Op → S → S × List Outcome
  | [], s => (s, [])
  | op :: ops, s =>
    let (s, outcome) := apply op s
    let (s, outcomes) := run apply ops s
    (s, outcome :: outcomes)

/-- The block holds what was written and the cursor stands behind what was taken. -/
structure Holds (b : Buffer) (q : ReplayQueue UInt8) : Prop where
  valid : Valid b
  capacity : b.buf.capacity = q.capacity
  written : window b.buf.mem 0 b.buf.len = q.written
  taken : b.pos.ptr = q.taken

namespace Holds

variable {b : Buffer} {q : ReplayQueue UInt8}

theorem length (holds : Holds b q) : b.buf.len = q.written.length := by
  simp [← holds.written]

theorem remaining (holds : Holds b q) : b.remaining = q.remaining := by
  simp [Buffer.remaining,ReplayQueue.remaining,holds.capacity,holds.length]

theorem unread (holds : Holds b q) : b.unread = q.unread := by
  have split := window_add b.buf.mem 0 b.pos.ptr b.pos.len
  rw [holds.valid.aligned,holds.written,Nat.zero_add] at split
  rw [ReplayQueue.unread,split,List.drop_append_of_le_length (by simp [holds.taken])]
  simp [Buffer.unread,← holds.taken]

theorem readLength (holds : Holds b q) : b.readLength = q.unread.length := by
  rw [← holds.unread,unread_length]

theorem start (mem : Nat → UInt8) (capacity : Nat) (small : capacity < sizeHalf) :
    Holds (setup mem capacity) (.empty capacity) :=
  ⟨setup_valid mem capacity small,rfl,rfl,rfl⟩

theorem rewind (holds : Holds b q) : Holds b.readReset q.rewind where
  valid := ⟨Nat.zero_add _,holds.valid.bounded,holds.valid.small⟩
  capacity := holds.capacity
  written := holds.written
  taken := rfl

theorem clear (holds : Holds b q) : Holds b.writeReset q.clear where
  valid := holds.valid.reset
  capacity := holds.capacity
  written := rfl
  taken := rfl

/-- Bytes at the write pointer, by whichever way they come there, extend the queue. -/
theorem extend (holds : Holds b q) (src : List UInt8) (fits : src.length ≤ b.remaining) :
    Holds ⟨⟨store b.buf.mem b.buf.len src,b.buf.len + src.length,b.buf.capacity⟩,
      ⟨b.pos.ptr,b.pos.len + src.length⟩⟩ { q with written := q.written ++ src } := by
  obtain ⟨aligned,bounded,small⟩ := holds.valid
  simp only [Buffer.remaining] at fits
  refine ⟨⟨?_,?_,small⟩,holds.capacity,?_,holds.taken⟩
  · simp only
    omega
  · simp only
    omega
  · simp only
    rw [window_add,window_store_before _ _ _ _ _ (by omega),holds.written,Nat.zero_add,window_store]

theorem write (holds : Holds b q) (src : List UInt8) :
    Option.Rel Holds (b.write src) (q.put src) := by
  obtain ⟨aligned,bounded,small⟩ := holds.valid
  have room := holds.remaining
  simp only [Buffer.remaining] at room
  by_cases full : q.remaining < src.length
  · have refused : b.buf.capacity < b.buf.len + src.length := by omega
    rw [write_none refused,ReplayQueue.put_eq_none.mpr full]
    exact .none
  · have accepted : ¬ (sizeHalf < b.buf.len ∨ sizeHalf < src.length ∨
        b.buf.capacity < b.buf.len + src.length) := by omega
    have extended := holds.extend src (by simp only [Buffer.remaining]; omega)
    simp only [Buffer.write,ByteBuf.write,if_neg accepted,Option.map_some,ReplayQueue.put,if_neg full]
    exact .some extended

theorem addLength (holds : Holds b q) (stored : List UInt8) :
    Option.Rel Holds (((Op.addLength stored).found b).addLength stored.length) (q.put stored) := by
  have room := holds.remaining
  by_cases full : q.remaining < stored.length
  · have refused : b.buf.capacity - b.buf.len < stored.length := by
      simp only [Buffer.remaining] at room
      omega
    have failed : ((Op.addLength stored).found b).addLength stored.length = none := if_pos refused
    rw [failed,ReplayQueue.put_eq_none.mpr full]
    exact .none
  · have fits : stored.length ≤ b.remaining := by omega
    have accepted : ¬ b.buf.capacity - b.buf.len < stored.length := Nat.not_lt.mpr fits
    simp only [Op.found,Buffer.addLength,if_neg accepted,ReplayQueue.put,if_neg full,
      List.take_of_length_le fits]
    exact .some (holds.extend stored fits)

theorem read (holds : Holds b q) (len : Nat) :
    Option.Rel (fun x y => Holds x.1 y.1 ∧ x.2 = y.2) (b.read len) (q.take len) := by
  obtain ⟨aligned,bounded,small⟩ := holds.valid
  have count := holds.readLength
  simp only [Buffer.readLength] at count
  by_cases short : q.unread.length < len
  · have refused : sizeHalf < b.pos.len ∨ sizeHalf < len ∨ b.pos.len < len := by omega
    rw [ReplayQueue.take_eq_none.mpr short]
    simp only [Buffer.read,Cursor.advance,if_pos refused,Option.map_none]
    exact .none
  · have accepted : ¬ (sizeHalf < b.pos.len ∨ sizeHalf < len ∨ b.pos.len < len) := by omega
    simp only [Buffer.read,Cursor.advance,if_neg accepted,Option.map_some,ReplayQueue.take,if_neg short]
    refine .some ⟨⟨⟨?_,bounded,small⟩,holds.capacity,holds.written,?_⟩,?_⟩
    · simp only
      omega
    · simp only [holds.taken]
    · have parts := window_add b.buf.mem b.pos.ptr len (b.pos.len - len)
      rw [Nat.add_sub_cancel' (by omega)] at parts
      rw [← holds.unread,Buffer.unread,parts,List.take_left' (by simp)]

end Holds

/-- A call on the buffer and the same call on the queue agree. -/
def Agree (x : Buffer × Outcome) (y : ReplayQueue UInt8 × Outcome) : Prop := Holds x.1 y.1 ∧ x.2 = y.2

private theorem agree_put {x : Option Buffer} {y : Option (ReplayQueue UInt8)} (rel : Option.Rel Holds x y) :
    Option.Rel Agree (x.map (·, .success)) (y.map (·, .success)) := by
  cases rel with
  | none => exact .none
  | some holds => exact .some ⟨holds,rfl⟩

private theorem agree_take {x : Option (Buffer × List UInt8)} {y : Option (ReplayQueue UInt8 × List UInt8)}
    (rel : Option.Rel (fun x y => Holds x.1 y.1 ∧ x.2 = y.2) x y) (out : List UInt8 → Outcome) :
    Option.Rel Agree (x.map fun (b, bytes) => (b, out bytes)) (y.map fun (q, bytes) => (q, out bytes)) := by
  cases rel with
  | none => exact .none
  | some holds => exact .some ⟨holds.1,congrArg out holds.2⟩

private theorem agree_readBe {b : Buffer} {q : ReplayQueue UInt8} (holds : Holds b q) (width : Nat) :
    Option.Rel Agree ((Buffer.readBe width b).map fun (b, out) => (b, .value out))
      ((q.take width).map fun (q, out) => (q, .value (BigEndian.decode out))) := by
  simp only [Buffer.readBe,Option.map_map]
  exact agree_take (holds.read width) (fun bytes => .value (BigEndian.decode bytes))

theorem Holds.readSkip {b : Buffer} {q : ReplayQueue UInt8} (holds : Holds b q) (len : Nat)
    (positive : 0 < len) :
    Option.Rel Agree ((b.readSkip len).map (·, .success)) ((q.take len).map fun (q, _) => (q, .success)) := by
  have skipped : b.readSkip len = (b.read len).map Prod.fst := by
    simp only [Buffer.readSkip,Buffer.read]
    cases b.pos.advance len with
    | none => rfl
    | some pos => simp [positive.ne']
  simp only [skipped,Option.map_map]
  exact agree_take (holds.read len) (fun _ => .success)

theorem Holds.call {b : Buffer} {q : ReplayQueue UInt8} (holds : Holds b q) (op : Op) :
    Option.Rel Agree (op.call (op.found b)) (op.spec q) := by
  cases op with
  | write src => exact agree_put (holds.write src)
  | writeU8 value => exact agree_put (holds.write _)
  | writeBe16 value => exact agree_put (holds.write _)
  | writeBe32 value => exact agree_put (holds.write _)
  | writeBe64 value => exact agree_put (holds.write _)
  | addLength stored => exact agree_put (holds.addLength stored)
  | read len => exact agree_take (holds.read len) .bytes
  | readU8 => exact agree_readBe holds 1
  | readBe16 => exact agree_readBe holds 2
  | readBe32 => exact agree_readBe holds 4
  | readBe64 => exact agree_readBe holds 8
  | readSkip len positive => exact holds.readSkip len positive
  | readReset => exact .some ⟨holds.rewind,rfl⟩
  | writeReset => exact .some ⟨holds.clear,rfl⟩

/-- What is stored past the write pointer is not part of the queue yet. -/
theorem Holds.found {b : Buffer} {q : ReplayQueue UInt8} (holds : Holds b q) (op : Op) :
    Holds (op.found b) q := by
  obtain ⟨⟨aligned,bounded,small⟩,capacity,written,taken⟩ := holds
  cases op with
  | addLength stored =>
    refine ⟨⟨aligned,bounded,small⟩,capacity,?_,taken⟩
    simp only [Op.found,writePtr]
    rw [window_store_before _ _ _ _ _ (by omega),written]
  | _ => exact ⟨⟨aligned,bounded,small⟩,capacity,written,taken⟩

theorem Holds.apply {b : Buffer} {q : ReplayQueue UInt8} (holds : Holds b q) (op : Op) :
    Agree (op.apply b) (op.applySpec q) := by
  have rel := holds.call op
  unfold Op.apply Op.applySpec
  generalize op.call (op.found b) = done at rel
  generalize op.spec q = wanted at rel
  cases rel with
  | none => exact ⟨holds.found op,rfl⟩
  | some agree => exact agree

theorem Holds.run {b : Buffer} {q : ReplayQueue UInt8} (holds : Holds b q) (ops : List Op) :
    Holds (run Op.apply ops b).1 (run Op.applySpec ops q).1 ∧
      (run Op.apply ops b).2 = (run Op.applySpec ops q).2 := by
  induction ops generalizing b q with
  | nil => exact ⟨holds,rfl⟩
  | cons op ops ih =>
    obtain ⟨next,same⟩ := holds.apply op
    obtain ⟨later,rest⟩ := ih next
    simp only [Buffer.run]
    exact ⟨later,by rw [same,rest]⟩

theorem Op.spec_none {op : Op} {q : ReplayQueue UInt8} :
    op.spec q = none ↔ q.remaining < op.puts ∨ q.unread.length < op.takes := by
  cases op with
  | readReset => simp [Op.spec,Op.puts,Op.takes]
  | writeReset => simp [Op.spec,Op.puts,Op.takes]
  | _ => simp [Op.spec,Op.puts,Op.takes,ReplayQueue.put_eq_none,ReplayQueue.take_eq_none]

theorem Op.spec_succeeds {op : Op} {q q' : ReplayQueue UInt8} {outcome : Outcome}
    (done : op.spec q = some (q', outcome)) : outcome ≠ .failure := by
  cases op with
  | readReset | writeReset =>
    cases done
    simp
  | _ =>
    obtain ⟨_,-,equal⟩ := Option.map_eq_some_iff.mp done
    cases equal
    simp

theorem Op.applySpec_failure {op : Op} {q : ReplayQueue UInt8} :
    (op.applySpec q).2 = .failure ↔ q.remaining < op.puts ∨ q.unread.length < op.takes := by
  rw [← Op.spec_none]
  unfold Op.applySpec
  cases result : op.spec q with
  | none => simp
  | some done => simpa using Op.spec_succeeds result

theorem Op.apply_failure {op : Op} {b : Buffer} {q : ReplayQueue UInt8} (holds : Holds b q)
    (failed : (op.apply b).2 = .failure) : (op.apply b).1 = op.found b := by
  have rel := holds.call op
  unfold Op.apply at failed ⊢
  generalize op.call (op.found b) = done at rel failed ⊢
  cases wanted : op.spec q with
  | none =>
    rw [wanted] at rel
    cases rel
    rfl
  | some result =>
    rw [wanted] at rel
    cases rel with
    | some agree => exact absurd (agree.2.symm.trans failed) (Op.spec_succeeds wanted)

/-- Until the queue is cleared, what was written stays where it is. -/
theorem Op.applySpec_written {op : Op} {q : ReplayQueue UInt8} :
    (op ≠ .writeReset → q.written <+: (op.applySpec q).1.written) ∧
      (op.applySpec q).1.capacity = q.capacity := by
  unfold Op.applySpec
  cases result : op.spec q with
  | none => exact ⟨fun _ => List.prefix_refl _,rfl⟩
  | some done =>
    simp only [Option.getD_some]
    cases op with
    | writeReset =>
      cases result
      exact ⟨fun kept => absurd rfl kept,rfl⟩
    | readReset =>
      cases result
      exact ⟨fun _ => List.prefix_refl _,rfl⟩
    | write | writeU8 | writeBe16 | writeBe32 | writeBe64 | addLength =>
      obtain ⟨q',put,rfl⟩ := Option.map_eq_some_iff.mp result
      obtain ⟨written,capacity⟩ := ReplayQueue.put_written put
      exact ⟨fun _ => ⟨_,written.symm⟩,capacity⟩
    | read | readU8 | readBe16 | readBe32 | readBe64 | readSkip =>
      obtain ⟨q',took,rfl⟩ := Option.map_eq_some_iff.mp result
      obtain ⟨written,capacity⟩ := ReplayQueue.take_written took
      exact ⟨fun _ => written ▸ List.prefix_refl _,capacity⟩

theorem run_written {q : ReplayQueue UInt8} {ops : List Op} (kept : Op.writeReset ∉ ops) :
    q.written <+: (run Op.applySpec ops q).1.written := by
  induction ops generalizing q with
  | nil => exact List.prefix_refl _
  | cons op ops ih =>
    simp only [List.mem_cons,not_or] at kept
    exact (Op.applySpec_written.1 (Ne.symm kept.1)).trans (ih kept.2)

theorem run_capacity (q : ReplayQueue UInt8) (ops : List Op) :
    (run Op.applySpec ops q).1.capacity = q.capacity := by
  induction ops generalizing q with
  | nil => rfl
  | cons op ops ih => exact (ih _).trans Op.applySpec_written.2

/-- A write and the read of the same width, with the integer that goes through them. -/
inductive SameWidth : Op → Op → Nat → Prop
  | u8 (value : UInt8) : SameWidth (.writeU8 value) .readU8 value.toNat
  | be16 (value : UInt16) : SameWidth (.writeBe16 value) .readBe16 value.toNat
  | be32 (value : UInt32) : SameWidth (.writeBe32 value) .readBe32 value.toNat
  | be64 (value : UInt64) : SameWidth (.writeBe64 value) .readBe64 value.toNat

theorem SameWidth.spec {put get : Op} {value : Nat} (same : SameWidth put get value) :
    ∃ width, value < 256 ^ width ∧
      (∀ q, put.spec q = (q.put (BigEndian.encode width value)).map (·, .success)) ∧
      ∀ q, get.spec q = (q.take width).map fun (q, out) => (q, .value (BigEndian.decode out)) := by
  cases same with
  | u8 value => exact ⟨1,value.toNat_lt,fun _ => rfl,fun _ => rfl⟩
  | be16 value => exact ⟨2,value.toNat_lt,fun _ => rfl,fun _ => rfl⟩
  | be32 value => exact ⟨4,value.toNat_lt,fun _ => rfl,fun _ => rfl⟩
  | be64 value => exact ⟨8,value.toNat_lt,fun _ => rfl,fun _ => rfl⟩

/-- An integer read where one of the same width was written is that integer. -/
theorem SameWidth.back {put get : Op} {value : Nat} (same : SameWidth put get value)
    {q later : ReplayQueue UInt8} (done : (put.applySpec q).2 ≠ .failure)
    (kept : (put.applySpec q).1.written <+: later.written) (position : later.taken = q.written.length) :
    (get.applySpec later).2 = .value value := by
  obtain ⟨width,fits,puts,gets⟩ := same.spec
  have written : ∃ rest, later.written = q.written ++ BigEndian.encode width value ++ rest := by
    unfold Op.applySpec at done kept
    rw [puts] at done kept
    cases accepted : q.put (BigEndian.encode width value) with
    | none => simp [accepted] at done
    | some q' =>
      simp only [accepted,Option.map_some,Option.getD_some,(ReplayQueue.put_written accepted).1] at kept
      obtain ⟨rest,equal⟩ := kept
      exact ⟨rest,equal.symm⟩
  obtain ⟨rest,written⟩ := written
  have taken := ReplayQueue.take_put_back written position
  rw [BigEndian.encode_length] at taken
  simp [Op.applySpec,gets,taken,BigEndian.decode_encode_of_lt _ _ fits]

/-- After any calls on a fresh buffer: the cursor ends where the bytes end, inside the block;
each call has answered as the queue does; a call fails exactly when it exceeds the space or
the unread bytes, and then leaves the buffer alone; and integers are read back as written. -/
theorem buffer_is_fifo (mem : Nat → UInt8) (capacity : Nat) (small : capacity < sizeHalf)
    (ops : List Op) :
    let b := (run Op.apply ops (setup mem capacity)).1
    b.pos.ptr + b.pos.len = b.buf.len ∧ b.buf.len ≤ capacity ∧
    (run Op.apply ops (setup mem capacity)).2 = (run Op.applySpec ops (.empty capacity)).2 ∧
    (∀ op : Op, (op.apply b).2 = .failure ↔ b.remaining < op.puts ∨ b.readLength < op.takes) ∧
    (∀ op : Op, (op.apply b).2 = .failure → (op.apply b).1 = op.found b) ∧
    ∀ put get value, SameWidth put get value → (put.apply b).2 ≠ .failure →
      ∀ others, Op.writeReset ∉ others →
        let later := (run Op.apply others (put.apply b).1).1
        later.pos.ptr = b.buf.len → (get.apply later).2 = .value value := by
  obtain ⟨holds,same⟩ := (Holds.start mem capacity small).run ops
  have size : (run Op.applySpec ops (.empty capacity)).1.capacity = capacity := run_capacity _ ops
  refine ⟨holds.valid.aligned,?_,same,?_,?_,?_⟩
  · exact holds.valid.bounded.trans (holds.capacity.trans size).le
  · intro op
    rw [(holds.apply op).2,Op.applySpec_failure,holds.remaining,holds.readLength]
  · intro op failed
    exact Op.apply_failure holds failed
  · intro put get value width done others kept later position
    have next := holds.apply put
    have run := (next.1.run others).1
    rw [(run.apply get).2]
    refine width.back (next.2 ▸ done) (run_written kept) ?_
    rw [← run.taken,← holds.length]
    exact position

/-- Two integers through a block of six bytes; the third write does not fit. -/
theorem buffer_is_fifo_integers :
    (6 : Nat) < sizeHalf ∧ (run Op.apply [.writeBe32 70000,.writeBe16 513,.writeU8 1,.readBe32,.readBe16]
      (setup (fun _ => 0) 6)).2 = [.success,.success,.failure,.value 70000,.value 513] := by
  have small : (6 : Nat) < sizeHalf := by decide
  have answers := (buffer_is_fifo (fun _ => 0) 6 small
    [.writeBe32 70000,.writeBe16 513,.writeU8 1,.readBe32,.readBe16]).2.2.1
  exact ⟨small,answers.trans (by decide)⟩

end Tcpeen.Buffer
