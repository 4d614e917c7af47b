import Tcpeen.Library.BigEndian

/-! `tn_buffer_t`: a block of memory with an append-only length and a read cursor, over
the `aws_byte_buf` and `aws_byte_cursor` functions that buffer.c calls. Pointers are
offsets from the start of the block; `size_t` values stay below `SIZE_MAX / 2`. -/
namespace Tcpeen

/-- `SIZE_MAX >> 1`, the bound of the overflow guards. -/
def sizeHalf : Nat := 2 ^ 63 - 1

/-- `memcpy` into a block at an offset. -/
def store (mem : Nat → UInt8) (offset : Nat) (src : List UInt8) : Nat → UInt8 :=
  fun i => if offset ≤ i then src[i - offset]?.getD (mem i) else mem i

def window (mem : Nat → UInt8) (offset length : Nat) : List UInt8 :=
  (List.range length).map fun i => mem (offset + i)

structure ByteBuf where
  mem : Nat → UInt8
  len : Nat
  capacity : Nat

/-- `aws_byte_buf_write`; `none` is `false`. -/
def ByteBuf.write (b : ByteBuf) (src : List UInt8) : Option ByteBuf :=
  if sizeHalf < b.len ∨ sizeHalf < src.length ∨ b.capacity < b.len + src.length then none
  else some { b with mem := store b.mem b.len src, len := b.len + src.length }

structure Cursor where
  ptr : Nat
  len : Nat
  deriving DecidableEq, Repr

/-- `aws_byte_cursor_advance`. Its variant without speculation is the same function for
blocks shorter than `SIZE_MAX / 2`. -/
def Cursor.advance (c : Cursor) (len : Nat) : Option Cursor :=
  if sizeHalf < c.len ∨ sizeHalf < len ∨ c.len < len then none else some ⟨c.ptr + len, c.len - len⟩

structure Buffer where
  buf : ByteBuf
  pos : Cursor

namespace Buffer

def setup (mem : Nat → UInt8) (capacity : Nat) : Buffer := ⟨⟨mem, 0, capacity⟩, ⟨0, 0⟩⟩

def read (b : Buffer) (len : Nat) : Option (Buffer × List UInt8) :=
  (b.pos.advance len).map fun pos => ({ b with pos }, window b.buf.mem b.pos.ptr len)

/-- `tn_buffer_read_skip` takes the length of the returned span for success, so that
skipping nothing is an error. -/
def readSkip (b : Buffer) (len : Nat) : Option Buffer :=
  match b.pos.advance len with
  | some pos => if len ≠ 0 then some { b with pos } else none
  | none => none

/-- The integer reads and writes differ in their width only. -/
def readBe (width : Nat) (b : Buffer) : Option (Buffer × Nat) :=
  (b.read width).map fun (b, bytes) => (b, BigEndian.decode bytes)

def readU8 : Buffer → Option (Buffer × Nat) := readBe 1
def readBe16 : Buffer → Option (Buffer × Nat) := readBe 2
def readBe32 : Buffer → Option (Buffer × Nat) := readBe 4
def readBe64 : Buffer → Option (Buffer × Nat) := readBe 8

def write (b : Buffer) (src : List UInt8) : Option Buffer :=
  (b.buf.write src).map fun buf => { buf, pos := { b.pos with len := b.pos.len + src.length } }

def writeBe (width : Nat) (b : Buffer) (value : Nat) : Option Buffer :=
  b.write (BigEndian.encode width value)

def writeU8 (b : Buffer) (value : UInt8) : Option Buffer := writeBe 1 b value.toNat
def writeBe16 (b : Buffer) (value : UInt16) : Option Buffer := writeBe 2 b value.toNat
def writeBe32 (b : Buffer) (value : UInt32) : Option Buffer := writeBe 4 b value.toNat
def writeBe64 (b : Buffer) (value : UInt64) : Option Buffer := writeBe 8 b value.toNat

def readReset (b : Buffer) : Buffer := { b with pos := ⟨0, b.buf.len⟩ }
def writeReset (b : Buffer) : Buffer := readReset { b with buf := { b.buf with len := 0 } }
def reset (b : Buffer) : Buffer := b.writeReset

def length (b : Buffer) : Nat := b.buf.len
def readLength (b : Buffer) : Nat := b.pos.len
def remaining (b : Buffer) : Nat := b.buf.capacity - b.buf.len
def writePtr (b : Buffer) : Nat := b.buf.len
def readPtr (b : Buffer) : Nat := b.pos.ptr

def addLength (b : Buffer) (len : Nat) : Option Buffer :=
  if b.buf.capacity - b.buf.len < len then none
  else some { buf := { b.buf with len := b.buf.len + len }
              pos := { b.pos with len := b.pos.len + len } }

/-- The bytes a reader still gets, oldest first. -/
def unread (b : Buffer) : List UInt8 := window b.buf.mem b.pos.ptr b.pos.len

/-- The length and the cursor move together and stay inside the block. -/
structure Valid (b : Buffer) : Prop where
  aligned : b.pos.ptr + b.pos.len = b.buf.len
  bounded : b.buf.len ≤ b.buf.capacity
  small : b.buf.capacity < sizeHalf

end Buffer

@[simp] theorem window_length (mem : Nat → UInt8) (offset length : Nat) :
    (window mem offset length).length = length := by
  simp [window]

theorem window_add (mem : Nat → UInt8) (offset first second : Nat) :
    window mem offset (first + second) = window mem offset first ++ window mem (offset + first) second := by
  simp only [window,List.range_add,List.map_append,List.map_map]
  congr 1
  apply List.map_congr_left
  intro i _
  simp [Nat.add_assoc]

theorem window_congr {mem mem' : Nat → UInt8} {offset length : Nat}
    (same : ∀ i, i < length → mem' (offset + i) = mem (offset + i)) :
    window mem' offset length = window mem offset length := by
  apply List.map_congr_left
  intro i inside
  exact same i (List.mem_range.mp inside)

theorem window_store (mem : Nat → UInt8) (offset : Nat) (src : List UInt8) :
    window (store mem offset src) offset src.length = src := by
  apply List.ext_getElem
  · simp
  · intro i _ inside
    simp [window,store,inside]

theorem window_store_before (mem : Nat → UInt8) (offset length at' : Nat) (src : List UInt8)
    (before : offset + length ≤ at') :
    window (store mem at' src) offset length = window mem offset length := by
  apply window_congr
  intro i inside
  have : ¬ at' ≤ offset + i := by omega
  simp [store,this]

namespace Buffer

variable {b : Buffer}

@[simp] theorem unread_length (b : Buffer) : b.unread.length = b.readLength := by
  simp [unread,readLength]

theorem setup_valid (mem : Nat → UInt8) (capacity : Nat) (small : capacity < sizeHalf) :
    Valid (setup mem capacity) := ⟨rfl,Nat.zero_le _,small⟩

@[simp] theorem reset_unread (b : Buffer) : b.reset.unread = [] := rfl
@[simp] theorem reset_length (b : Buffer) : b.reset.length = 0 := rfl

theorem Valid.reset (valid : Valid b) : Valid b.reset := ⟨rfl,Nat.zero_le _,valid.small⟩

theorem write_none {src : List UInt8} (full : b.buf.capacity < b.buf.len + src.length) : b.write src = none := by
  simp [write,ByteBuf.write,full]

theorem write_cases {b' : Buffer} {src : List UInt8} (wrote : b.write src = some b') :
    b.buf.len + src.length ≤ b.buf.capacity ∧
      b' = ⟨⟨store b.buf.mem b.buf.len src,b.buf.len + src.length,b.buf.capacity⟩,
        ⟨b.pos.ptr,b.pos.len + src.length⟩⟩ := by
  obtain ⟨buf,accepted,rfl⟩ := Option.map_eq_some_iff.mp wrote
  obtain ⟨room,equal⟩ := Option.ite_none_left_eq_some.mp accepted
  obtain rfl := Option.some.inj equal
  exact ⟨by omega,rfl⟩

/-- A write that fits appends its bytes to what the reader will get. -/
theorem Valid.write (valid : Valid b) (src : List UInt8)
    (fits : b.buf.len + src.length ≤ b.buf.capacity) :
    ∃ b', b.write src = some b' ∧ Valid b' ∧ b'.unread = b.unread ++ src ∧
      b'.buf.len = b.buf.len + src.length ∧ b'.buf.capacity = b.buf.capacity := by
  have small := valid.small
  have aligned := valid.aligned
  have accepted : ¬ (sizeHalf < b.buf.len ∨ sizeHalf < src.length ∨
      b.buf.capacity < b.buf.len + src.length) := by omega
  refine ⟨⟨⟨store b.buf.mem b.buf.len src,b.buf.len + src.length,b.buf.capacity⟩,
    ⟨b.pos.ptr,b.pos.len + src.length⟩⟩,?_,?_,?_,rfl,rfl⟩
  · simp only [Buffer.write,ByteBuf.write,if_neg accepted,Option.map_some]
  · exact ⟨by simp only; omega,fits,small⟩
  · simp only [unread]
    rw [window_add,aligned,window_store,window_store_before _ _ _ _ _ (by omega)]

/-- Reading takes the earliest unread bytes. -/
theorem Valid.read (valid : Valid b) {bytes rest : List UInt8} (have' : b.unread = bytes ++ rest) :
    ∃ b', b.read bytes.length = some (b', bytes) ∧ Valid b' ∧ b'.unread = rest ∧ b'.buf = b.buf := by
  have small := valid.small
  have aligned := valid.aligned
  have bounded := valid.bounded
  have total : b.pos.len = bytes.length + rest.length := by
    have := congrArg List.length have'
    simpa [readLength] using this
  have accepted : ¬ (sizeHalf < b.pos.len ∨ sizeHalf < bytes.length ∨ b.pos.len < bytes.length) := by
    omega
  have parts : window b.buf.mem b.pos.ptr bytes.length = bytes ∧
      window b.buf.mem (b.pos.ptr + bytes.length) rest.length = rest := by
    rw [unread,total,window_add] at have'
    exact List.append_inj have' (by simp)
  refine ⟨{ b with pos := ⟨b.pos.ptr + bytes.length,b.pos.len - bytes.length⟩ },?_,?_,?_,rfl⟩
  · simp [Buffer.read,Cursor.advance,accepted,parts.1]
  · exact ⟨by simp only; omega,bounded,small⟩
  · simp only [unread,total,Nat.add_sub_cancel_left]
    exact parts.2

/-- A read takes as many unread bytes, or fails where there are fewer. -/
theorem Valid.read_cases (valid : Valid b) (len : Nat) :
    (b.readLength < len ∧ b.read len = none) ∨ (len ≤ b.readLength ∧ ∃ b', b.read len = some (b', b.unread.take len) ∧
      Valid b' ∧ b'.unread = b.unread.drop len ∧ b'.buf = b.buf) := by
  rcases Nat.lt_or_ge b.readLength len with short | enough
  · have refused : sizeHalf < b.pos.len ∨ sizeHalf < len ∨ b.pos.len < len := .inr (.inr short)
    exact .inl ⟨short,by simp only [Buffer.read,Cursor.advance,if_pos refused,Option.map_none]⟩
  · obtain ⟨b',read,valid',left,same⟩ := valid.read (List.take_append_drop len b.unread).symm
    have length : (b.unread.take len).length = len := by simpa using enough
    rw [length] at read
    exact .inr ⟨enough,b',read,valid',left,same⟩

theorem Valid.readBe (valid : Valid b) {width value : Nat} {rest : List UInt8}
    (have' : b.unread = BigEndian.encode width value ++ rest) :
    ∃ b', Buffer.readBe width b = some (b', value % 256 ^ width) ∧ Valid b' ∧ b'.unread = rest ∧
      b'.buf = b.buf := by
  obtain ⟨b',read,valid',left,same⟩ := valid.read have'
  rw [BigEndian.encode_length] at read
  exact ⟨b',by simp [Buffer.readBe,read,BigEndian.decode_encode],valid',left,same⟩

theorem Valid.readSkip (valid : Valid b) {bytes rest : List UInt8} (some' : bytes ≠ [])
    (have' : b.unread = bytes ++ rest) :
    ∃ b', b.readSkip bytes.length = some b' ∧ Valid b' ∧ b'.unread = rest ∧ b'.buf = b.buf := by
  obtain ⟨b',read,valid',left,same⟩ := valid.read have'
  obtain ⟨pos,advanced,equal⟩ := Option.map_eq_some_iff.mp read
  obtain ⟨rfl,-⟩ := Prod.mk.inj equal
  have positive : bytes.length ≠ 0 := by simpa using some'
  exact ⟨_,by simp [Buffer.readSkip,advanced,positive],valid',left,same⟩

/-- The reader has moved on by so many bytes. -/
structure Skips (count : Nat) (b b' : Buffer) : Prop where
  valid : b'.Valid
  buf : b'.buf = b.buf
  enough : count ≤ b.readLength
  unread : b'.unread = b.unread.drop count

theorem Skips.trans {b₁ b₂ b₃ : Buffer} {first second : Nat} (skips : Skips first b₁ b₂)
    (skips' : Skips second b₂ b₃) : Skips (first + second) b₁ b₃ where
  valid := skips'.valid
  buf := skips'.buf.trans skips.buf
  enough := by
    have left := skips'.enough
    rw [← unread_length,skips.unread,List.length_drop,unread_length] at left
    have := skips.enough
    omega
  unread := by rw [skips'.unread,skips.unread,List.drop_drop]

theorem Skips.readLength {b' : Buffer} {count : Nat} (skips : Skips count b b') :
    b'.readLength + count = b.readLength := by
  have enough := skips.enough
  rw [← unread_length b',skips.unread,List.length_drop,unread_length]
  omega

theorem Skips.suffix {b' : Buffer} {count : Nat} (skips : Skips count b b') : b'.unread <:+ b.unread := by
  rw [skips.unread]
  exact List.drop_suffix ..

theorem Valid.readBe_cases (valid : Valid b) (width : Nat) :
    (b.readLength < width ∧ Buffer.readBe width b = none) ∨
      ∃ b', Buffer.readBe width b = some (b', BigEndian.decode (b.unread.take width)) ∧ Skips width b b' := by
  rcases valid.read_cases width with ⟨short,refused⟩ | ⟨enough,b',read,valid',left,same⟩
  · exact .inl ⟨short,by rw [Buffer.readBe,refused,Option.map_none]⟩
  · exact .inr ⟨b',by rw [Buffer.readBe,read,Option.map_some],valid',same,enough,left⟩

theorem Valid.readSkip_cases (valid : Valid b) (len : Nat) :
    b.readSkip len = none ∨ ∃ b', b.readSkip len = some b' ∧ Skips len b b' := by
  by_cases zero : len = 0
  · left
    simp only [Buffer.readSkip]
    split <;> simp [zero]
  · rcases valid.read_cases len with ⟨-,refused⟩ | ⟨enough,b',read,valid',left,same⟩
    · have stays : b.pos.advance len = none := Option.map_eq_none_iff.mp refused
      exact .inl (by simp only [Buffer.readSkip,stays])
    · obtain ⟨pos,advanced,equal⟩ := Option.map_eq_some_iff.mp read
      obtain ⟨rfl,-⟩ := Prod.mk.inj equal
      exact .inr ⟨_,by simp only [Buffer.readSkip,advanced,if_pos zero],valid',same,enough,left⟩

/-- Bytes stored at the write pointer become unread ones when the length is adjusted. -/
theorem Valid.addLength (valid : Valid b) (bytes : List UInt8) (fits : bytes.length ≤ b.remaining) :
    ∃ b', Buffer.addLength { b with buf := { b.buf with mem := store b.buf.mem b.writePtr bytes } }
        bytes.length = some b' ∧ Valid b' ∧ b'.unread = b.unread ++ bytes := by
  obtain ⟨aligned,bounded,small⟩ := valid
  simp only [remaining] at fits
  refine ⟨_,if_neg (Nat.not_lt.mpr fits),⟨?_,?_,small⟩,?_⟩
  · simp only
    omega
  · simp only
    omega
  · simp only [unread,writePtr]
    rw [window_add,window_store_before _ _ _ _ _ aligned.le,aligned,window_store]

end Buffer

end Tcpeen
