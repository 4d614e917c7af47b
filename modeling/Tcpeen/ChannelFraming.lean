import Tcpeen.Channel
import Tcpeen.Library.Framing

/-! A channel's reader over a stream of framed payloads that reaches its buffer in pieces. -/
namespace Tcpeen.Channel

open Framing

/-- The bytes of a span that a call on the channel stored. -/
def spanBytes (p : BufferPool) (c : Channel) (span : Cursor) : List UInt8 :=
  match c.readBuffer with
  | some i => window (p.tnBuffers i).buffer.buf.mem span.ptr span.len
  | none => []

/-- One call of the reader, the one for the channel's state; missing where it returned an
error. A payload is taken out through its span. -/
def readNext (p : BufferPool) (c : Channel) : Option (BufferPool × Channel × List (List UInt8)) :=
  match c.readState with
  | .header => (tcpChannelReadHeader p c).bind fun done =>
    if done.success then some (done.pool, done.channel, []) else none
  | .payload => (tcpChannelReadPayload p c).bind fun done =>
    done.out.map fun span => (done.pool, done.channel, [spanBytes p c span])
  | _ => none

/-- Calls until one returns an error; missing where that takes more than `fuel` calls. -/
def readAll : Nat → BufferPool → Channel → Option (BufferPool × Channel × List (List UInt8))
  | 0, _, _ => none
  | fuel + 1, p, c =>
    match readNext p c with
    | none => some (p, c, [])
    | some (p, c, first) => (readAll fuel p c).map fun (p, c, later) => (p, c, first ++ later)

def unreadLength (p : BufferPool) (c : Channel) : Nat :=
  match c.readBuffer with
  | some i => (p.tnBuffers i).buffer.readLength
  | none => 0

/-- An append to the channel's buffer. -/
def append (p : BufferPool) (c : Channel) (chunk : List UInt8) : Option BufferPool :=
  c.readBuffer.bind fun i => ((p.tnBuffers i).buffer.write chunk).map (p.setBuffer i)

/-- Appends, with all the calls that succeed after each. Every such call takes a byte at least. -/
def receive : List (List UInt8) → BufferPool → Channel → Option (BufferPool × Channel × List (List UInt8))
  | [], p, c => some (p, c, [])
  | chunk :: rest, p, c => do
    let p ← append p c chunk
    let (p, c, first) ← readAll (unreadLength p c + 1) p c
    let (p, c, later) ← receive rest p c
    pure (p, c, first ++ later)

/-- The reader stands between frames, or behind the length of one. -/
def Expects (rest : List (List UInt8)) (bytes : List UInt8) (c : Channel) : Prop :=
  match c.readState with
  | .header => bytes = framed rest
  | .payload => ∃ payload tail, rest = payload :: tail ∧ c.nextPayloadLen.toNat = payload.length ∧
      bytes = payload ++ framed tail
  | _ => False

structure Reading (i : Nat) (rest : List (List UInt8)) (future : List UInt8) (p : BufferPool) (c : Channel) :
    Prop where
  reads : c.readBuffer = some i
  valid : Buffer.Valid (p.tnBuffers i).buffer
  room : (p.tnBuffers i).buffer.buf.len + future.length ≤ (p.tnBuffers i).buffer.buf.capacity
  sized : Sized rest
  expects : Expects rest ((p.tnBuffers i).buffer.unread ++ future) c

/-- An error of either call leaves the channel and its buffer alone. -/
theorem read_error (p : BufferPool) (c : Channel) :
    (∀ done, tcpChannelReadHeader p c = some done → done.success = false →
      done.pool = p ∧ done.channel = c) ∧
    ∀ done, tcpChannelReadPayload p c = some done → done.success = false →
      done.pool = p ∧ done.channel = c := by
  constructor
  · intro done called failed
    obtain ⟨i,-,rfl⟩ := Option.map_eq_some_iff.mp called
    cases read : (p.tnBuffers i).buffer.readBe32 with
    | none => simp
    | some result => simp [read] at failed
  · intro done called failed
    obtain ⟨i,-,rfl⟩ := Option.map_eq_some_iff.mp called
    cases skipped : (p.tnBuffers i).buffer.readSkip c.nextPayloadLen.toNat with
    | none => simp [skipped]
    | some result => simp [skipped] at failed

section Reading

variable {i : Nat} {rest : List (List UInt8)} {future : List UInt8} {p : BufferPool} {c : Channel}

theorem header_waits (reads : c.readBuffer = some i) (header : c.readState = .header)
    (short : (p.tnBuffers i).buffer.readLength < 4) : readNext p c = none := by
  have refused : (p.tnBuffers i).buffer.readBe32 = none := by
    simp only [Buffer.readLength] at short
    simp [Buffer.readBe32,Buffer.readBe,Buffer.read,Cursor.advance,short]
  simp [readNext,header,tcpChannelReadHeader,reads,refused]

theorem payload_waits (reads : c.readBuffer = some i) (payload : c.readState = .payload)
    (short : (p.tnBuffers i).buffer.readLength < c.nextPayloadLen.toNat ∨ c.nextPayloadLen.toNat = 0) :
    readNext p c = none := by
  have refused : (p.tnBuffers i).buffer.readSkip c.nextPayloadLen.toNat = none := by
    simp only [Buffer.readSkip,Cursor.advance]
    simp only [Buffer.readLength] at short
    rcases short with short | zero
    · simp [short]
    · simp only [zero,ne_eq,not_true_eq_false,if_false]
      split <;> rfl
  simp [readNext,payload,tcpChannelReadPayload,reads,refused]

theorem header_call (reading : Reading i rest future p c) (header : c.readState = .header)
    (enough : 4 ≤ (p.tnBuffers i).buffer.readLength) :
    ∃ p' c', readNext p c = some (p', c', []) ∧ Reading i rest future p' c' ∧
      unreadLength p' c' < unreadLength p c := by
  have expects := reading.expects
  simp only [Expects,header] at expects
  cases rest with
  | nil =>
    have none' := congrArg List.length expects
    simp only [framed,List.length_append,Buffer.unread_length,List.length_nil] at none'
    omega
  | cons d tail =>
    have small := reading.sized.head
    obtain ⟨left,unread,later⟩ := split_prefix (BigEndian.encode 4 d.length) (d ++ framed tail)
      (by rw [expects,framed,frame,List.append_assoc]) (by simpa using enough)
    obtain ⟨b,read,valid,now,same⟩ := reading.valid.readBe unread
    rw [Nat.mod_eq_of_lt small] at read
    have taken : (p.tnBuffers i).buffer.readLength = 4 + b.readLength := by
      have whole := congrArg List.length unread
      rw [← now] at whole
      simpa using whole
    have length : (UInt64.ofNat d.length).toNat = d.length := by
      rw [UInt64.toNat_ofNat']
      exact Nat.mod_eq_of_lt (small.trans (by decide))
    refine ⟨p.setBuffer i b,{ c with nextPayloadLen := UInt64.ofNat d.length, readState := .payload },?_,?_,?_⟩
    · simp [readNext,header,tcpChannelReadHeader,reading.reads,Buffer.readBe32,read]
    · refine ⟨reading.reads,by rwa [setBuffer_same],by rw [setBuffer_same,same]; exact reading.room,
        reading.sized,?_⟩
      rw [setBuffer_same,now,later]
      exact ⟨d,tail,rfl,length,rfl⟩
    · simp only [unreadLength,reading.reads,setBuffer_same]
      omega

theorem payload_call (reading : Reading i rest future p c) (payload : c.readState = .payload)
    (enough : c.nextPayloadLen.toNat ≤ (p.tnBuffers i).buffer.readLength) (some' : c.nextPayloadLen.toNat ≠ 0) :
    ∃ p' c' d tail, readNext p c = some (p', c', [d]) ∧ d ≠ [] ∧ rest = d :: tail ∧
      Reading i tail future p' c' ∧ unreadLength p' c' < unreadLength p c := by
  have expects := reading.expects
  simp only [Expects,payload] at expects
  obtain ⟨d,tail,rfl,length,whole⟩ := expects
  have filled : d ≠ [] := by
    rintro rfl
    exact some' length
  obtain ⟨left,unread,later⟩ := split_prefix d (framed tail) whole (by simpa [← length] using enough)
  obtain ⟨b,skipped,valid,now,same⟩ := reading.valid.readSkip filled unread
  have taken : (p.tnBuffers i).buffer.readLength = d.length + b.readLength := by
    have total := congrArg List.length unread
    rw [← now] at total
    simpa using total
  have bytes : window (p.tnBuffers i).buffer.buf.mem (p.tnBuffers i).buffer.readPtr d.length = d := by
    have parts := unread
    rw [Buffer.unread,show (p.tnBuffers i).buffer.pos.len = _ from taken,window_add] at parts
    exact (List.append_inj parts (by simp)).1
  refine ⟨p.setBuffer i b,{ c with readState := .header },d,tail,?_,filled,rfl,?_,?_⟩
  · simp [readNext,payload,tcpChannelReadPayload,reading.reads,length,skipped,spanBytes,bytes]
  · refine ⟨reading.reads,by rwa [setBuffer_same],by rw [setBuffer_same,same]; exact reading.room,
      reading.sized.tail,?_⟩
    rw [setBuffer_same,now,later]
    rfl
  · simp only [unreadLength,reading.reads,setBuffer_same]
    have positive := List.length_pos_iff.mpr filled
    omega

/-- Calls until an error take payloads off the front, none of them empty. -/
theorem readAll_takes (fuel : Nat) (reading : Reading i rest future p c) (enough : unreadLength p c < fuel) :
    ∃ p' c' taken left, readAll fuel p c = some (p', c', taken) ∧ rest = taken ++ left ∧ [] ∉ taken ∧
      Reading i left future p' c' ∧ readNext p' c' = none := by
  induction fuel generalizing rest p c with
  | zero => omega
  | succ fuel ih =>
    have stop (waits : readNext p c = none) : ∃ p' c' taken left,
        readAll (fuel + 1) p c = some (p', c', taken) ∧ rest = taken ++ left ∧ [] ∉ taken ∧
          Reading i left future p' c' ∧ readNext p' c' = none :=
      ⟨p,c,[],rest,by simp [readAll,waits],rfl,by simp,reading,waits⟩
    cases mode : c.readState with
    | header =>
      by_cases short : (p.tnBuffers i).buffer.readLength < 4
      · exact stop (header_waits reading.reads mode short)
      · obtain ⟨p',c',called,next,shorter⟩ := header_call reading mode (by omega)
        obtain ⟨p'',c'',taken,left,ran,split,filled,settled⟩ := ih next (by omega)
        exact ⟨p'',c'',taken,left,by simp [readAll,called,ran],split,filled,settled⟩
    | payload =>
      by_cases short : (p.tnBuffers i).buffer.readLength < c.nextPayloadLen.toNat ∨ c.nextPayloadLen.toNat = 0
      · exact stop (payload_waits reading.reads mode short)
      · simp only [not_or] at short
        obtain ⟨p',c',d,tail,called,some',rfl,next,shorter⟩ := payload_call reading mode (by omega) short.2
        obtain ⟨p'',c'',taken,left,ran,split,filled,settled⟩ := ih next (by omega)
        refine ⟨p'',c'',d :: taken,left,by simp [readAll,called,ran],by simp [split],?_,settled⟩
        simp only [List.mem_cons,not_or]
        exact ⟨Ne.symm some',filled⟩
    | none | error | invalid => exact absurd reading.expects (by simp [Expects,mode])

theorem append_reading {chunk : List UInt8} (reading : Reading i rest (chunk ++ future) p c) :
    ∃ p', append p c chunk = some p' ∧ Reading i rest future p' c := by
  have room := reading.room
  rw [List.length_append] at room
  obtain ⟨b,wrote,valid,unread,length,capacity⟩ := reading.valid.write chunk (by omega)
  refine ⟨p.setBuffer i b,by simp [append,reading.reads,wrote],reading.reads,?_,?_,reading.sized,?_⟩
  · rwa [setBuffer_same]
  · rw [setBuffer_same,length,capacity]
    omega
  · rw [setBuffer_same,unread,List.append_assoc]
    exact reading.expects

/-- All the appends take payloads off the front, as far as the reader gets. -/
theorem receive_takes {chunks : List (List UInt8)} (reading : Reading i rest chunks.flatten p c)
    (waits : readNext p c = none) :
    ∃ p' c' taken left, receive chunks p c = some (p', c', taken) ∧ rest = taken ++ left ∧ [] ∉ taken ∧
      Reading i left [] p' c' ∧ readNext p' c' = none := by
  induction chunks generalizing rest p c with
  | nil => exact ⟨p,c,[],rest,rfl,rfl,List.not_mem_nil,reading,waits⟩
  | cons chunk chunks ih =>
    rw [List.flatten_cons] at reading
    obtain ⟨p₁,appended,filled⟩ := append_reading reading
    obtain ⟨p₂,c₂,taken,left,ran,rfl,some',next,waits'⟩ :=
      readAll_takes (unreadLength p₁ c + 1) filled (Nat.lt_succ_self _)
    obtain ⟨p₃,c₃,later,left',received,rfl,some'',final⟩ := ih next waits'
    refine ⟨p₃,c₃,taken ++ later,left',by simp [receive,appended,ran,received],by simp,?_,final⟩
    simp only [List.mem_append,not_or]
    exact ⟨some',some''⟩

/-- With all bytes there, the reader only stops at the end or at an empty payload. -/
theorem waits_done (reading : Reading i rest [] p c) (waits : readNext p c = none) (filled : [] ∉ rest) :
    rest = [] := by
  have expects := reading.expects
  by_contra some'
  obtain ⟨d,tail,rfl⟩ := List.exists_cons_of_ne_nil some'
  cases mode : c.readState with
  | header =>
    simp only [Expects,mode,List.append_nil,framed] at expects
    have enough := congrArg List.length expects
    simp only [Buffer.unread_length,List.length_append,frame_length] at enough
    obtain ⟨p',c',called,-⟩ := header_call reading mode (by omega)
    rw [waits] at called
    cases called
  | payload =>
    simp only [Expects,mode,List.append_nil] at expects
    obtain ⟨d',tail',equal,length,whole⟩ := expects
    obtain ⟨rfl,rfl⟩ := List.cons.inj equal
    have enough := congrArg List.length whole
    simp only [Buffer.unread_length,List.length_append] at enough
    have nonempty : d.length ≠ 0 := by
      intro zero
      rw [List.length_eq_zero_iff] at zero
      simp [zero] at filled
    obtain ⟨p',c',_,_,called,-⟩ := payload_call reading mode (by omega) (by omega)
    rw [waits] at called
    cases called
  | none | error | invalid => exact absurd expects (by simp [Expects,mode])

end Reading

/-- The appends and calls go through and yield these payloads. -/
def Yields (chunks : List (List UInt8)) (p : BufferPool) (c : Channel) (payloads : List (List UInt8)) : Prop :=
  ∃ p' c', receive chunks p c = some (p', c', payloads)

/-- However the frames are cut, the reader gets their payloads back exactly where none is
empty; and a call that returns an error leaves everything as it was. -/
theorem channel_framing_exact (p : BufferPool) (c : Channel) (i : Nat) (chunks payloads : List (List UInt8))
    (reads : c.readBuffer = some i) (header : c.readState = .header)
    (valid : Buffer.Valid (p.tnBuffers i).buffer) (empty : (p.tnBuffers i).buffer.unread = [])
    (sized : Sized payloads)
    (fits : (p.tnBuffers i).buffer.buf.len + (framed payloads).length ≤ (p.tnBuffers i).buffer.buf.capacity)
    (cut : chunks.flatten = framed payloads) :
    (Yields chunks p c payloads ↔ ∀ payload ∈ payloads, payload ≠ []) ∧
    ∀ p c, (∀ done, tcpChannelReadHeader p c = some done → done.success = false →
        done.pool = p ∧ done.channel = c) ∧
      ∀ done, tcpChannelReadPayload p c = some done → done.success = false →
        done.pool = p ∧ done.channel = c := by
  refine ⟨?_,read_error⟩
  have reading : Reading i payloads chunks.flatten p c := by
    refine ⟨reads,valid,by rwa [cut],sized,?_⟩
    simp [Expects,header,empty,cut]
  have waits : readNext p c = none := by
    refine header_waits reads header ?_
    rw [← Buffer.unread_length,empty]
    decide
  obtain ⟨p',c',taken,left,received,split,filled,settled,stopped⟩ := receive_takes reading waits
  constructor
  · rintro ⟨p'',c'',yielded⟩ payload inside rfl
    obtain ⟨-,-,rfl⟩ : p' = p'' ∧ c' = c'' ∧ taken = payloads := by
      simpa using received.symm.trans yielded
    exact filled inside
  · intro nonempty
    have rest : left = [] := waits_done settled stopped fun inside => by
      refine nonempty [] ?_ rfl
      rw [split]
      exact List.mem_append_right _ inside
    rw [rest,List.append_nil] at split
    exact ⟨p',c',by rw [received,split]⟩

/-- A pool with one block of 64 bytes, which a channel reads from. -/
def readingPool : BufferPool where
  blocksInuse := 1
  bytesInuse := 64
  blockSize := 64
  blockCount := 1
  tnBuffers := fun _ => ⟨0, true, Buffer.setup (fun _ => 0) 64⟩
  tnBuffersFree := ⟨1, 0, fun _ => 0, 2, 1, 1, 0⟩

def readingChannel : Channel := ⟨some 0, .header, 0⟩

/-- Two payloads, cut inside the first length and inside the second payload. -/
theorem channel_framing_cut :
    Yields [[0,0],[0,3,1,2,3,0,0,0,2,4],[5]] readingPool readingChannel [[1,2,3],[4,5]] :=
  (channel_framing_exact readingPool readingChannel 0 [[0,0],[0,3,1,2,3,0,0,0,2,4],[5]] [[1,2,3],[4,5]]
    rfl rfl (Buffer.setup_valid _ _ (by decide)) rfl (by unfold Sized; decide) (by decide)
    (by decide)).1.mpr (by decide)

/-- An empty payload stops the channel for good: the one behind it is never read. -/
theorem channel_framing_wedged :
    ¬ (∀ (p : BufferPool) (c : Channel) (i : Nat) (chunks payloads : List (List UInt8)),
      c.readBuffer = some i → c.readState = .header → Buffer.Valid (p.tnBuffers i).buffer →
      (p.tnBuffers i).buffer.unread = [] → Sized payloads →
      (p.tnBuffers i).buffer.buf.len + (framed payloads).length ≤ (p.tnBuffers i).buffer.buf.capacity →
      chunks.flatten = framed payloads → Yields chunks p c payloads) := by
  intro always
  obtain ⟨p,c,yielded⟩ := always readingPool readingChannel 0 [[0,0,0,0],[0,0,0,1,7]] [[],[7]] rfl rfl
    (Buffer.setup_valid _ _ (by decide)) rfl (by unfold Sized; decide) (by decide) (by decide)
  have got : (receive [[0,0,0,0],[0,0,0,1,7]] readingPool readingChannel).map (·.2.2) = some [] := by
    decide
  rw [yielded] at got
  cases got

end Tcpeen.Channel
