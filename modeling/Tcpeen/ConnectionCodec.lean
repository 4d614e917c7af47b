import Tcpeen.Connection
import Tcpeen.Library.Framing

/-! The frames a connection writes, echoed back and cut into arbitrary chunks, against the
decoder of `on_tcp_recv_cb`. The receive buffer is rewound only when it drains, so what is
decoded depends on where the chunks end. -/
namespace Tcpeen.Connection

/-- One call of `tcp_write_begin`: its clock and its data. -/
structure Message where
  ticks : UInt64
  data : List UInt8
  deriving DecidableEq, Repr

def body (msgId : UInt64) (m : Message) : List UInt8 :=
  BigEndian.encode 8 msgId.toNat ++ (BigEndian.encode 8 m.ticks.toNat ++ (m.data ++ [0]))

def frame (msgId : UInt64) (m : Message) : List UInt8 :=
  BigEndian.encode 4 (m.data.length + 17) ++ body msgId m

def frameLength (m : Message) : Nat := 4 + 8 + 8 + m.data.length + 1

/-- The frames of a list of messages after `last` earlier ones. -/
def stream (last : UInt64) : List Message → List UInt8
  | [] => []
  | m :: rest => frame (last + 1) m ++ stream (last + 1) rest

def writeAll (closing : Nat → Bool) : List Message → Conn → Conn × List Effect
  | [], c => (c, [])
  | m :: rest, c =>
    let (c, first) := tcpWriteBegin closing m.ticks m.data .sent c
    let (c, later) := writeAll closing rest c
    (c, first ++ later)

/-- The bytes handed to `uv_write`, in order. -/
def written (effects : List Effect) : List UInt8 :=
  effects.flatMap fun
    | .uvWrite _ bytes => bytes
    | _ => []

/-- A connection right after `tcp_conn_init`, `tcp_connect_begin` and `on_tcp_connected_cb`. -/
def established (ctx : Context) (mem : Nat → UInt8) (handle : Nat) : Conn :=
  let started := (tcpConnectBegin (fun _ => false) handle none (tcpConnInit ctx mem)).2.1
  (onTcpConnectedCb (fun _ => false) handle true true started).1

theorem established_currentMsgId (ctx : Context) (mem : Nat → UInt8) (handle : Nat) :
    (established ctx mem handle).currentMsgId = 0 := rfl

/-- A chunk and the clock when it is read. -/
structure Arrival where
  now : UInt64
  bytes : List UInt8

def feed (closing : Nat → Bool) : List Arrival → Conn → Option (Conn × List Effect)
  | [], c => some (c, [])
  | a :: rest, c => do
    let (c, first) ← onTcpRecvCb closing a.now (.data a.bytes) c
    let (c, later) ← feed closing rest c
    pure (c, first ++ later)

/-- Every chunk is stored in the receive buffer. -/
def Kept (closing : Nat → Bool) : List Arrival → Conn → Prop
  | [], _ => True
  | a :: rest, c =>
    (c.nextBuffer.write a.bytes).isSome ∧
      ∃ next, onTcpRecvCb closing a.now (.data a.bytes) c = some next ∧ Kept closing rest next.1

instance Kept.decidable (closing : Nat → Bool) : (arrivals : List Arrival) → (c : Conn) →
    Decidable (Kept closing arrivals c)
  | [], _ => isTrue trivial
  | a :: rest, c =>
    match received : onTcpRecvCb closing a.now (.data a.bytes) c with
    | none => isFalse (by simp [Kept,received])
    | some next =>
      have := Kept.decidable closing rest next.1
      decidable_of_iff ((c.nextBuffer.write a.bytes).isSome ∧ Kept closing rest next.1) (by simp [Kept,received])

/-- No chunk is dropped, all frames are decoded in order without a warning, and the
decoder is back where it started. -/
structure RoundTrip (closing : Nat → Bool) (arrivals : List Arrival) (count : Nat) (c : Conn) : Prop where
  kept : Kept closing arrivals c
  decoded : ∃ c', feed closing arrivals c = some (c', []) ∧ c'.lastRecvMsgId = UInt64.ofNat count ∧
    c'.readState = .header ∧ c'.nextBuffer.unread = []

/-- The places of the stream where the receive buffer drains: before a frame, and between
its length and its body. -/
def drained : List Nat → Nat → Bool
  | [], offset => decide (offset = 0)
  | length :: rest, offset =>
    decide (offset = 0) || decide (offset = 4) ||
      (decide (length ≤ offset) && drained rest (offset - length))

/-- The bytes stored since the buffer last drained never exceed it. `since` counts them,
and `offset` all the bytes that have arrived. -/
def Fits (lengths : List Nat) : Nat → Nat → List Nat → Prop
  | _, _, [] => True
  | offset, since, size :: sizes =>
    since + size ≤ nextBufSize ∧
      Fits lengths (offset + size) (if drained lengths (offset + size) then 0 else since + size) sizes

instance decidableFits (lengths : List Nat) :
    (offset since : Nat) → (sizes : List Nat) → Decidable (Fits lengths offset since sizes)
  | _, _, [] => inferInstanceAs (Decidable True)
  | offset, since, size :: sizes =>
    have := decidableFits lengths (offset + size)
      (if drained lengths (offset + size) then 0 else since + size) sizes
    inferInstanceAs (Decidable (_ ∧ _))

/-! ### What is written -/

theorem body_length (msgId : UInt64) (m : Message) : (body msgId m).length = m.data.length + 17 := by
  simp [body]
  omega

theorem frame_length (msgId : UInt64) (m : Message) : (frame msgId m).length = frameLength m := by
  simp [frame,frameLength,body_length]
  omega

theorem ByteBuf.write_window {b : ByteBuf} {d : List UInt8} (src : List UInt8)
    (holds : window b.mem 0 b.len = d) (small : b.capacity < sizeHalf)
    (fits : b.len + src.length ≤ b.capacity) :
    ∃ b', b.write src = some b' ∧ window b'.mem 0 b'.len = d ++ src ∧
      b'.len = b.len + src.length ∧ b'.capacity = b.capacity := by
  have accepted : ¬ (sizeHalf < b.len ∨ sizeHalf < src.length ∨ b.capacity < b.len + src.length) := by
    omega
  refine ⟨⟨store b.mem b.len src,b.len + src.length,b.capacity⟩,?_,?_,rfl,rfl⟩
  · simp only [ByteBuf.write,if_neg accepted]
  · simp only [window_add,Nat.zero_add]
    rw [window_store,window_store_before _ _ _ _ _ (by omega),holds]

/-- The request is built for every length that an `int` holds. -/
theorem assemble_holds (msgId : UInt64) (m : Message) (room : m.data.length + 4 + 8 + 8 + 1 < sizeHalf) :
    ∃ bb, assemble m.ticks msgId m.data = some bb ∧ window bb.mem 0 bb.len = frame msgId m := by
  obtain ⟨bb₁,write₁,holds₁,len₁,cap₁⟩ := ByteBuf.write_window
    (b := ⟨fun _ => 0,0,m.data.length + 4 + 8 + 8 + 1⟩) (d := [])
    (BigEndian.encode 4 (m.data.length + 8 + 8 + 1)) rfl room (by simp)
  simp only [BigEndian.encode_length] at len₁ cap₁
  obtain ⟨bb₂,write₂,holds₂,len₂,cap₂⟩ := ByteBuf.write_window
    (BigEndian.encode 8 msgId.toNat) holds₁ (by omega) (by simp; omega)
  simp only [BigEndian.encode_length] at len₂
  obtain ⟨bb₃,write₃,holds₃,len₃,cap₃⟩ := ByteBuf.write_window
    (BigEndian.encode 8 m.ticks.toNat) holds₂ (by omega) (by simp; omega)
  simp only [BigEndian.encode_length] at len₃
  obtain ⟨bb₄,write₄,holds₄,len₄,cap₄⟩ := ByteBuf.write_window
    m.data holds₃ (by omega) (by omega)
  obtain ⟨bb₅,write₅,holds₅,-,-⟩ := ByteBuf.write_window
    [0] holds₄ (by omega) (by simp; omega)
  refine ⟨bb₅,?_,?_⟩
  · simp only [assemble]
    simp only [write₁,write₂,write₃,write₄,write₅,Option.bind_eq_bind,Option.bind_some,Option.getD_some,
      Option.pure_def]
  · rw [holds₅]
    simp [frame,body,List.append_assoc]

theorem assemble_frame (msgId : UInt64) (m : Message) (small : frameLength m ≤ nextBufSize) :
    ∃ bb, assemble m.ticks msgId m.data = some bb ∧ window bb.mem 0 bb.len = frame msgId m := by
  refine assemble_holds msgId m ?_
  simp only [frameLength,nextBufSize] at small
  simp only [sizeHalf]
  omega

theorem written_stream (closing : Nat → Bool) (messages : List Message) (c : Conn)
    (sized : ∀ m ∈ messages, 1 ≤ m.data.length ∧ frameLength m ≤ nextBufSize)
    (ready : c.state = .connecting ∨ c.state = .connected) (attached : c.tcpHandle.isSome) :
    written (writeAll closing messages c).2 = stream c.currentMsgId messages := by
  induction messages generalizing c with
  | nil => rfl
  | cons m rest ih =>
    obtain ⟨nonempty,small⟩ := sized m List.mem_cons_self
    obtain ⟨handle,attached'⟩ := Option.isSome_iff_exists.mp attached
    obtain ⟨bb,built,holds⟩ := assemble_frame (c.currentMsgId + 1) m small
    have call : tcpWriteBegin closing m.ticks m.data .sent c =
        ({ c with state := .connected, currentMsgId := c.currentMsgId + 1 },
          [.uvWrite handle (frame (c.currentMsgId + 1) m)]) := by
      have open' : ¬ (c.state ≠ .connecting ∧ c.state ≠ .connected) := by tauto
      have full : ¬ m.data.length = 0 := by omega
      simp only [tcpWriteBegin,attached',if_neg full,if_neg open',built,holds]
      rfl
    have later := ih { c with state := .connected, currentMsgId := c.currentMsgId + 1 }
      (fun m inside => sized m (List.mem_cons_of_mem _ inside)) (.inr rfl) attached
    simp only [writeAll,call,stream]
    rw [← later]
    simp [written]

/-! ### What is decoded -/

theorem drained_cons (length : Nat) (rest : List Nat) (offset : Nat) (long : 4 < length) :
    drained (length :: rest) (length + offset) = drained rest offset := by
  have nonzero : ¬ length + offset = 0 := by omega
  have four : ¬ length + offset = 4 := by omega
  simp only [drained,nonzero,four,Nat.le_add_right,decide_true,decide_false,Nat.add_sub_cancel_left,
    Bool.false_or,Bool.true_and]

/-- The bytes of the current frame that the decoder has taken. -/
def consumed : ReadState → Nat
  | .payload => 4
  | _ => 0

/-- The bytes still to come are the rest of the frames. -/
def Expects (future : List UInt8) (rest : List Message) (c : Conn) : Prop :=
  match c.readState with
  | .header => c.nextBuffer.unread ++ future = stream c.lastRecvMsgId rest
  | .payload => ∃ m tail, rest = m :: tail ∧ c.nextPayloadLen.toNat = m.data.length + 17 ∧
      c.nextBuffer.unread ++ future = body (c.lastRecvMsgId + 1) m ++ stream (c.lastRecvMsgId + 1) tail
  | _ => False

/-- The decoder between two passes. `rest` are the frames not yet decoded, `offset` counts
the bytes that have arrived and `since` those stored since the buffer was rewound. -/
structure Decoding (lengths : List Nat) (count offset since : Nat) (future : List UInt8)
    (rest : List Message) (c : Conn) : Prop where
  valid : c.nextBuffer.Valid
  capacity : c.nextBuffer.buf.capacity = nextBufSize
  stored : c.nextBuffer.buf.len = since
  counted : c.lastRecvMsgId + UInt64.ofNat rest.length = UInt64.ofNat count
  place : ∀ more, drained lengths (offset + more) =
    drained (rest.map frameLength) (consumed c.readState + c.nextBuffer.readLength + more)
  sized : ∀ m ∈ rest, frameLength m ≤ nextBufSize
  expects : Expects future rest c

/-- The condition under which the decode loop stops. -/
def Settled (c : Conn) : Prop :=
  match c.readState with
  | .header => c.nextBuffer.readLength < 4
  | .payload => c.nextBuffer.readLength < c.nextPayloadLen.toNat
  | _ => False

section Pass

variable {lengths : List Nat} {count offset since : Nat} {future : List UInt8} {rest : List Message}
  {c : Conn} (now latency : UInt64) (nread : Nat)

theorem header_pass (decoding : Decoding lengths count offset since future rest c)
    (header : c.readState = .header) (enough : ¬ c.nextBuffer.readLength < 4) :
    ∃ c', decodeRound now nread c latency = .again c' latency [] ∧
      Decoding lengths count offset since future rest c' ∧
      c'.nextBuffer.readLength < c.nextBuffer.readLength := by
  have expects := decoding.expects
  simp only [Expects,header] at expects
  cases rest with
  | nil =>
    have none' := congrArg List.length expects
    simp only [stream,List.length_append,Buffer.unread_length,List.length_nil] at none'
    omega
  | cons m tail =>
    have small := decoding.sized m List.mem_cons_self
    obtain ⟨left,unread,later⟩ := Framing.split_prefix
      (BigEndian.encode 4 (m.data.length + 17))
      (body (c.lastRecvMsgId + 1) m ++ stream (c.lastRecvMsgId + 1) tail)
      (by rw [expects,stream,frame,List.append_assoc]) (by simp; omega)
    obtain ⟨b,read,valid,now',same⟩ := decoding.valid.readBe unread
    have fits : (m.data.length + 17) % 256 ^ 4 = m.data.length + 17 := by
      apply Nat.mod_eq_of_lt
      simp only [frameLength,nextBufSize] at small
      omega
    rw [fits] at read
    have taken : c.nextBuffer.readLength = 4 + b.readLength := by
      have := congrArg List.length unread
      rw [← now'] at this
      simpa using this
    have length32 : (UInt32.ofNat (m.data.length + 17)).toNat = m.data.length + 17 := by
      simp only [frameLength,nextBufSize] at small
      simp only [UInt32.toNat_ofNat']
      omega
    refine ⟨{ c with nextBuffer := b, nextPayloadLen := UInt32.ofNat (m.data.length + 17)
                     readState := .payload },?_,?_,?_⟩
    · simp only [decodeRound,header,if_neg enough,Buffer.readBe32,read]
    · refine ⟨valid,by rw [same,decoding.capacity],by rw [same,decoding.stored],decoding.counted,?_,
        decoding.sized,?_⟩
      · intro more
        rw [decoding.place,header,taken]
        simp [consumed]
      · exact ⟨m,tail,rfl,length32,by rw [now']; exact later⟩
    · simp only
      omega

theorem payload_pass (decoding : Decoding lengths count offset since future rest c)
    (payload : c.readState = .payload) (enough : ¬ c.nextBuffer.readLength < c.nextPayloadLen.toNat) :
    ∃ c' latency' rest', decodeRound now nread c latency = .again c' latency' [] ∧
      Decoding lengths count offset since future rest' c' ∧
      c'.nextBuffer.readLength < c.nextBuffer.readLength := by
  have expects := decoding.expects
  simp only [Expects,payload] at expects
  obtain ⟨m,tail,rfl,length,whole⟩ := expects
  have small := decoding.sized m List.mem_cons_self
  obtain ⟨left,unread,later⟩ := Framing.split_prefix _ _ whole (by
    rw [body_length,Buffer.unread_length]
    omega)
  rw [body,List.append_assoc] at unread
  obtain ⟨b₁,read₁,valid₁,unread₁,same₁⟩ := decoding.valid.readBe unread
  rw [List.append_assoc] at unread₁
  obtain ⟨b₂,read₂,valid₂,unread₂,same₂⟩ := valid₁.readBe unread₁
  obtain ⟨b₃,read₃,valid₃,unread₃,same₃⟩ := valid₂.readSkip (by simp) unread₂
  have same : b₃.buf = c.nextBuffer.buf := same₃.trans (same₂.trans same₁)
  have skip : (c.nextPayloadLen - 16).toNat = (m.data ++ [0]).length := by
    simp only [frameLength,nextBufSize] at small
    rw [UInt32.toNat_sub_of_le _ _ (by rw [UInt32.le_iff_toNat_le,length]; simp)]
    simp [length]
  have taken : c.nextBuffer.readLength = m.data.length + 17 + b₃.readLength := by
    have := congrArg List.length unread
    rw [← unread₃] at this
    simp only [List.length_append,BigEndian.encode_length,Buffer.unread_length,List.length_singleton] at this
    omega
  have long : 4 < frameLength m := by simp only [frameLength]; omega
  have matching : UInt64.ofNat ((c.lastRecvMsgId + 1).toNat % 256 ^ 8) = c.lastRecvMsgId + 1 := by
    rw [Nat.mod_eq_of_lt (by exact UInt64.toNat_lt _),UInt64.ofNat_toNat]
  refine ⟨{ c with nextBuffer := b₃, lastRecvMsgId := c.lastRecvMsgId + 1, readState := .header },
    (now - UInt64.ofNat (m.ticks.toNat % 256 ^ 8)) / 1000000,tail,?_,?_,?_⟩
  · simp only [decodeRound,payload,if_neg enough,Buffer.readBe64,read₁,read₂,skip,read₃,matching,
      ne_eq,not_true_eq_false,if_false]
  · refine ⟨valid₃,by rw [same,decoding.capacity],by rw [same,decoding.stored],?_,?_,
      fun m inside => decoding.sized m (List.mem_cons_of_mem _ inside),?_⟩
    · rw [← decoding.counted,List.length_cons,UInt64.ofNat_add]
      change c.lastRecvMsgId + 1 + UInt64.ofNat tail.length =
        c.lastRecvMsgId + (UInt64.ofNat tail.length + 1)
      ac_rfl
    · intro more
      have whole' : consumed .payload + (m.data.length + 17 + b₃.readLength) + more =
          frameLength m + (consumed .header + b₃.readLength + more) := by
        simp only [consumed,frameLength]
        omega
      rw [decoding.place,payload,taken,List.map_cons,whole',drained_cons _ _ _ long]
    · simp only [Expects]
      rw [unread₃]
      exact later
  · simp only
    omega

/-- Started with enough fuel the loop ends on frames that are well formed, without a
warning, and leaves less than the next read needs. -/
theorem decode_settles (fuel : Nat) (decoding : Decoding lengths count offset since future rest c)
    (enough : c.nextBuffer.readLength < fuel) :
    ∃ c' latency' rest', decode now nread fuel c latency = some (c', some latency', []) ∧
      Decoding lengths count offset since future rest' c' ∧ Settled c' := by
  induction fuel generalizing c latency rest with
  | zero => omega
  | succ fuel ih =>
    have again {c' latency' rest'} (pass : decodeRound now nread c latency = .again c' latency' [])
        (next : Decoding lengths count offset since future rest' c')
        (shorter : c'.nextBuffer.readLength < c.nextBuffer.readLength) :
        ∃ c' latency' rest', decode now nread (fuel + 1) c latency = some (c', some latency', []) ∧
          Decoding lengths count offset since future rest' c' ∧ Settled c' := by
      obtain ⟨c'',latency'',rest'',ran,result⟩ := @ih rest' c' latency' next (by omega)
      exact ⟨c'',latency'',rest'',by simp [decode,pass,ran],result⟩
    cases mode : c.readState with
    | header =>
      by_cases short : c.nextBuffer.readLength < 4
      · exact ⟨c,latency,rest,by simp [decode,decodeRound,mode,short],decoding,by simp [Settled,mode,short]⟩
      · obtain ⟨c',pass,next,shorter⟩ := header_pass now latency nread decoding mode short
        exact again pass next shorter
    | payload =>
      by_cases short : c.nextBuffer.readLength < c.nextPayloadLen.toNat
      · exact ⟨c,latency,rest,by simp [decode,decodeRound,mode,short],decoding,by simp [Settled,mode,short]⟩
      · obtain ⟨c',latency',rest',pass,next,shorter⟩ := payload_pass now latency nread decoding mode short
        exact again pass next shorter
    | none | error | invalid => exact absurd decoding.expects (by simp [Expects,mode])

/-- Where the loop has stopped, the buffer is empty at the places of the stream that
`drained` names and nowhere else. -/
theorem Decoding.drained_iff (decoding : Decoding lengths count offset since future rest c)
    (settled : Settled c) : drained lengths offset = decide (c.nextBuffer.readLength = 0) := by
  have place := decoding.place 0
  have expects := decoding.expects
  simp only [Nat.add_zero] at place
  rw [place]
  cases mode : c.readState with
  | header =>
    simp only [Settled,Expects,mode] at settled expects
    cases rest with
    | nil => simp [drained,consumed]
    | cons m tail =>
      have before : ¬ frameLength m ≤ c.nextBuffer.readLength := by simp only [frameLength]; omega
      have header : ¬ c.nextBuffer.readLength = 4 := by omega
      simp [drained,consumed,before,header]
  | payload =>
    simp only [Settled,Expects,mode] at settled expects
    obtain ⟨m,tail,rfl,length,-⟩ := expects
    have before : ¬ frameLength m ≤ 4 + c.nextBuffer.readLength := by simp only [frameLength]; omega
    simp [drained,consumed,before]
  | none | error | invalid => exact absurd expects (by simp [Expects,mode])

theorem Decoding.finished (decoding : Decoding lengths count offset since [] rest c) (settled : Settled c) :
    c.lastRecvMsgId = UInt64.ofNat count ∧ c.readState = .header ∧ c.nextBuffer.unread = [] := by
  have expects := decoding.expects
  cases mode : c.readState with
  | header =>
    simp only [Settled,Expects,mode,List.append_nil] at settled expects
    cases rest with
    | nil => exact ⟨by simpa using decoding.counted,rfl,expects⟩
    | cons m tail =>
      have := congrArg List.length expects
      simp only [stream,List.length_append,frame_length,frameLength,Buffer.unread_length] at this
      omega
  | payload =>
    simp only [Settled,Expects,mode,List.append_nil] at settled expects
    obtain ⟨m,tail,rfl,length,whole⟩ := expects
    have := congrArg List.length whole
    simp only [List.length_append,body_length,Buffer.unread_length] at this
    omega
  | none | error | invalid => exact absurd expects (by simp [Expects,mode])

/-- Rewinding an empty buffer leaves nothing unread that was there before. -/
theorem recvDone_unread : (recvDone now nread latency c).nextBuffer.unread = c.nextBuffer.unread := by
  simp only [recvDone]
  split
  · rename_i empty
    rw [Buffer.reset_unread,eq_comm]
    exact List.length_eq_zero_iff.mp (by rw [Buffer.unread_length,empty])
  · rfl

theorem recvDone_readLength :
    (recvDone now nread latency c).nextBuffer.readLength = c.nextBuffer.readLength := by
  rw [← Buffer.unread_length,recvDone_unread,Buffer.unread_length]

theorem Decoding.recvDone (decoding : Decoding lengths count offset since future rest c)
    (settled : Settled c) :
    Decoding lengths count offset (if drained lengths offset then 0 else since) future rest
        (recvDone now nread latency c) ∧
      Settled (Connection.recvDone now nread latency c) := by
  have unread := recvDone_unread (c := c) now latency nread
  have left := recvDone_readLength (c := c) now latency nread
  have place := decoding.place
  have expects := decoding.expects
  rw [← left] at place
  refine ⟨⟨?_,?_,?_,decoding.counted,place,decoding.sized,?_⟩,?_⟩
  · simp only [Connection.recvDone]
    split
    · exact decoding.valid.reset
    · exact decoding.valid
  · simp only [Connection.recvDone]
    split <;> exact decoding.capacity
  · simp only [Connection.recvDone,decoding.drained_iff settled,decide_eq_true_eq]
    split
    · rfl
    · exact decoding.stored
  · simp only [Expects,unread] at expects ⊢
    exact expects
  · simp only [Settled,left] at settled ⊢
    exact settled

/-- A chunk that fits is decoded as far as it goes, and the buffer is rewound exactly
when the stream is at a place where it drains. -/
theorem recv_chunk (closing : Nat → Bool) {chunk : List UInt8}
    (decoding : Decoding lengths count offset since (chunk ++ future) rest c) (nonempty : chunk ≠ [])
    (fits : since + chunk.length ≤ nextBufSize) :
    ∃ c' rest', (c.nextBuffer.write chunk).isSome ∧
      onTcpRecvCb closing now (.data chunk) c = some (c', []) ∧
      Decoding lengths count (offset + chunk.length)
        (if drained lengths (offset + chunk.length) then 0 else since + chunk.length) future rest' c' ∧
      Settled c' := by
  obtain ⟨b,wrote,valid,unread,length,capacity⟩ := decoding.valid.write chunk
    (by rw [decoding.stored,decoding.capacity]; exact fits)
  have longer : b.readLength = c.nextBuffer.readLength + chunk.length := by
    have := congrArg List.length unread
    simpa using this
  have filled : Decoding lengths count (offset + chunk.length) (since + chunk.length) future rest
      { c with nextBuffer := b } := by
    refine ⟨valid,capacity.trans decoding.capacity,by rw [length,decoding.stored],decoding.counted,?_,
      decoding.sized,?_⟩
    · intro more
      rw [Nat.add_assoc,decoding.place,longer]
      simp only [Nat.add_assoc]
    · have expects := decoding.expects
      simp only [Expects,unread,List.append_assoc] at expects ⊢
      exact expects
  obtain ⟨c',latency',rest',ran,settling,settled⟩ := decode_settles
    now 0 chunk.length (b.readLength + 1) filled (Nat.lt_succ_self _)
  refine ⟨recvDone now chunk.length latency' c',rest',by simp [wrote],?_,
    settling.recvDone now latency' chunk.length settled⟩
  cases chunk with
  | nil => exact absurd rfl nonempty
  | cons byte bytes => simp only [onTcpRecvCb,wrote,ran,Option.map_some]

end Pass

section Stream

variable {closing : Nat → Bool} {lengths : List Nat} {count offset since : Nat} {rest : List Message}
  {c c' : Conn} {a : Arrival} {arrivals : List Arrival}

theorem roundTrip_cons (stored : (c.nextBuffer.write a.bytes).isSome)
    (received : onTcpRecvCb closing a.now (.data a.bytes) c = some (c', [])) :
    RoundTrip closing (a :: arrivals) count c ↔ RoundTrip closing arrivals count c' := by
  constructor
  · rintro ⟨⟨-,next,same,kept⟩,decoded⟩
    rw [received] at same
    cases same
    simp only [feed,received,Option.bind_eq_bind,Option.bind_some] at decoded
    refine ⟨kept,?_⟩
    obtain ⟨final,fed,result⟩ := decoded
    obtain ⟨⟨last,later⟩,fed',equal⟩ := Option.bind_eq_some_iff.mp fed
    simp only [Option.pure_def,Option.some.injEq,Prod.mk.injEq,List.nil_append] at equal
    exact ⟨final,by rw [fed',equal.1,equal.2],result⟩
  · rintro ⟨kept,final,fed,result⟩
    refine ⟨⟨stored,_,received,kept⟩,final,?_,result⟩
    simp [feed,received,fed]

theorem roundTrip_fits (decoding : Decoding lengths count offset since (arrivals.flatMap (·.bytes)) rest c)
    (settled : Settled c) (cut : ∀ a ∈ arrivals, a.bytes ≠ []) :
    RoundTrip closing arrivals count c ↔ Fits lengths offset since (arrivals.map (·.bytes.length)) := by
  induction arrivals generalizing offset since rest c with
  | nil =>
    obtain ⟨last,header,unread⟩ := Decoding.finished decoding settled
    exact iff_of_true ⟨trivial,c,rfl,last,header,unread⟩ trivial
  | cons a arrivals ih =>
    rw [List.flatMap_cons] at decoding
    simp only [List.map_cons,Fits]
    by_cases room : since + a.bytes.length ≤ nextBufSize
    · obtain ⟨c',rest',stored,received,next,settled'⟩ :=
        recv_chunk a.now closing decoding (cut a List.mem_cons_self) room
      rw [roundTrip_cons stored received,ih next settled' fun a inside =>
        cut a (List.mem_cons_of_mem _ inside)]
      exact ⟨fun fits => ⟨room,fits⟩,fun fits => fits.2⟩
    · refine iff_of_false ?_ (fun fits => room fits.1)
      rintro ⟨⟨stored,-⟩,-⟩
      rw [Buffer.write_none (by rw [decoding.stored,decoding.capacity]; omega)] at stored
      cases stored

end Stream

theorem stream_length (last : UInt64) (messages : List Message) :
    (stream last messages).length = (messages.map frameLength).sum := by
  induction messages generalizing last with
  | nil => rfl
  | cons m rest ih => simp [stream,frame_length,ih]

theorem fresh_decoding (ctx : Context) (mem : Nat → UInt8) (messages : List Message)
    (sized : ∀ m ∈ messages, frameLength m ≤ nextBufSize) :
    Decoding (messages.map frameLength) messages.length 0 0 (stream 0 messages) messages
      (tcpConnInit ctx mem) := by
  refine ⟨Buffer.setup_valid _ _ (by decide),rfl,rfl,?_,?_,sized,rfl⟩
  · simp [tcpConnInit]
  · intro more
    rfl

theorem fresh_fits {closing : Nat → Bool} {ctx : Context} {mem : Nat → UInt8} {messages : List Message}
    {arrivals : List Arrival} (sized : ∀ m ∈ messages, frameLength m ≤ nextBufSize)
    (cut : ∀ a ∈ arrivals, 1 ≤ a.bytes.length)
    (echoed : arrivals.flatMap (·.bytes) = stream 0 messages) :
    RoundTrip closing arrivals messages.length (tcpConnInit ctx mem) ↔
      Fits (messages.map frameLength) 0 0 (arrivals.map (·.bytes.length)) := by
  have decoding := fresh_decoding ctx mem messages sized
  rw [← echoed] at decoding
  refine roundTrip_fits decoding (by simp [Settled,tcpConnInit,Buffer.setup,Buffer.readLength]) ?_
  intro a inside empty
  have := cut a inside
  simp [empty] at this

/-- The frames of one connection, echoed and cut into chunks, are decoded exactly when the
chunks fit the buffer between the places where it drains. -/
theorem echo_decoded_iff_fits (closing closing' : Nat → Bool) (ctx ctx' : Context)
    (mem mem' : Nat → UInt8) (handle : Nat) (messages : List Message) (arrivals : List Arrival)
    (sized : ∀ m ∈ messages, 1 ≤ m.data.length ∧ 4 + 8 + 8 + m.data.length + 1 ≤ 131070)
    (cut : ∀ a ∈ arrivals, 1 ≤ a.bytes.length ∧ a.bytes.length ≤ 65536)
    (echoed : arrivals.flatMap (·.bytes) =
      written (writeAll closing messages (established ctx mem handle)).2) :
    RoundTrip closing' arrivals messages.length (tcpConnInit ctx' mem') ↔
      Fits (messages.map frameLength) 0 0 (arrivals.map (·.bytes.length)) := by
  rw [written_stream closing messages (established ctx mem handle) sized (.inr rfl) rfl,
    established_currentMsgId] at echoed
  exact fresh_fits (fun m inside => (sized m inside).2) (fun a inside => (cut a inside).1) echoed

/-- Two short messages, the second cut inside its header. -/
theorem echo_decoded_short :
    let messages : List Message := [⟨7,[1,2,3]⟩,⟨8,[4]⟩]
    let arrivals : List Arrival := [⟨20,(stream 0 messages).take 26⟩,⟨21,(stream 0 messages).drop 26⟩]
    RoundTrip (fun _ => false) arrivals 2 (tcpConnInit ⟨0,0,0,0⟩ fun _ => 0) :=
  (echo_decoded_iff_fits (fun _ => false) (fun _ => false) ⟨0,0,0,0⟩ ⟨0,0,0,0⟩ (fun _ => 0) (fun _ => 0) 1
    [⟨7,[1,2,3]⟩,⟨8,[4]⟩] [⟨20,_⟩,⟨21,_⟩] (by decide) (by decide)
    (by rw [written_stream _ _ _ (by decide) (.inr rfl) rfl]; decide)).mpr (by decide)

/-- Two messages with frames of 70000 bytes. -/
def largeMessage : Message := ⟨0,List.replicate 69979 0⟩

def largeMessages : List Message := [largeMessage,largeMessage]

theorem frameLength_large (m : Message) (size : m.data.length = 69979) : frameLength m = 70000 := by
  simp [frameLength,size]

theorem largeMessage_frameLength : frameLength largeMessage = 70000 :=
  frameLength_large largeMessage List.length_replicate

theorem large_lengths : largeMessages.map frameLength = [70000,70000] := by
  simp only [largeMessages,List.map_cons,List.map_nil,largeMessage_frameLength]

theorem large_sized (m : Message) (inside : m ∈ largeMessages) :
    1 ≤ m.data.length ∧ frameLength m ≤ 131070 := by
  have length : frameLength m = 70000 := by
    have := List.mem_map_of_mem (f := frameLength) inside
    simpa [large_lengths] using this
  have whole := length
  rw [frameLength] at whole
  omega

/-- A stream in three chunks, two of them as large as libuv reads. -/
def threeChunks (bytes : List UInt8) : List Arrival :=
  [⟨0,bytes.take 65536⟩,⟨0,(bytes.drop 65536).take 65536⟩,⟨0,bytes.drop 131072⟩]

theorem threeChunks_length (bytes : List UInt8) (size : bytes.length = 140000) :
    (threeChunks bytes).map (·.bytes.length) = [65536,65536,8928] := by
  simp [threeChunks,size]

theorem threeChunks_bytes (bytes : List UInt8) : (threeChunks bytes).flatMap (·.bytes) = bytes := by
  simp only [threeChunks,List.flatMap_cons,List.flatMap_nil,List.append_nil]
  rw [show (131072 : Nat) = 65536 + 65536 from rfl,← List.drop_drop,List.take_append_drop,
    List.take_append_drop]

def largeArrivals : List Arrival := threeChunks (stream 0 largeMessages)

theorem largeArrivals_length : largeArrivals.map (·.bytes.length) = [65536,65536,8928] := by
  apply threeChunks_length
  rw [stream_length,large_lengths]
  rfl

/-- The second chunk does not fit behind the first, whose frame is not complete. -/
theorem echo_large_frames_dropped :
    (∀ m ∈ largeMessages, 1 ≤ m.data.length ∧ 4 + 8 + 8 + m.data.length + 1 ≤ 131070) ∧
      (∀ a ∈ largeArrivals, 1 ≤ a.bytes.length ∧ a.bytes.length ≤ 65536) ∧
      largeArrivals.flatMap (·.bytes) =
        written (writeAll (fun _ => false) largeMessages (established ⟨0,0,0,0⟩ (fun _ => 0) 1)).2 ∧
      ¬ RoundTrip (fun _ => false) largeArrivals largeMessages.length
        (tcpConnInit ⟨0,0,0,0⟩ fun _ => 0) := by
  have cut : ∀ a ∈ largeArrivals, 1 ≤ a.bytes.length ∧ a.bytes.length ≤ 65536 := by
    intro a inside
    have size := List.mem_map_of_mem (f := (·.bytes.length)) inside
    rw [largeArrivals_length] at size
    simp only [List.mem_cons,List.not_mem_nil,or_false] at size
    omega
  refine ⟨large_sized,cut,?_,?_⟩
  · rw [written_stream _ _ _ large_sized (.inr rfl) rfl,established_currentMsgId]
    exact threeChunks_bytes _
  · rw [fresh_fits (fun m inside => (large_sized m inside).2) (fun a inside => (cut a inside).1)
      (threeChunks_bytes _),largeArrivals_length]
    rw [large_lengths]
    decide

end Tcpeen.Connection
