import Tcpeen.BufferPool
import Tcpeen.QueueSpscConsumer
import Tcpeen.SendOrder

/-! `tcp_service_send` as one call, with what it returns and the counters of pool_write, while
the IO thread is idle: it publishes one request, or leaves no trace that a later call finds. -/
namespace Tcpeen.Send

open SplitOperation QueueSpsc

/-- `TN_SUCCESS`, `TN_SEND_NOREQ`, `TN_SEND_NOBUF` and `TN_ERROR`. -/
inductive Status where
  | success
  | noReq
  | noBuf
  | error
  deriving DecidableEq, Repr

/-- What `tcp_service_send` works on. -/
structure WriteSide where
  writeReqs : Nat → WriteReq
  writeReqsFree : Queue Nat
  writeReqsReady : Queue Nat
  poolWrite : BufferPool

namespace WriteSide

def setReq (w : WriteSide) (r : Nat) (req : WriteReq) : WriteSide :=
  { w with writeReqs := Function.update w.writeReqs r req }

/-- The bytes under the uv_buf of a request. -/
def covered (w : WriteSide) (r : Nat) : List UInt8 :=
  let req := w.writeReqs r
  window (w.poolWrite.tnBuffers req.base.1).buffer.buf.mem req.base.2 req.len

end WriteSide

/-- The end of `tcp_service_send`: the request is pushed, then it and its buffer are popped. -/
def publish (w : WriteSide) (r : Nat) : WriteSide × Status :=
  match callAlone (.push r) w.writeReqsReady 4 .entry with
  | (writeReqsReady, some (.success _)) =>
    ({ w with writeReqsReady, poolWrite := w.poolWrite.popCached.1
              writeReqsFree := (callAlone .popCached w.writeReqsFree 1 .entry).1 }, .success)
  | (writeReqsReady, _) => ({ w with writeReqsReady }, .error)

/-- `tcp_service_send` once it has peeked a request and a buffer. -/
def fillReq (w : WriteSide) (r b channel : Nat) (sndbuf : List UInt8) : WriteSide × Status :=
  match (w.poolWrite.tnBuffers b).buffer.write sndbuf with
  | none => (w, .noBuf)
  | some buffer =>
    publish ({ w with poolWrite := w.poolWrite.setBuffer b buffer }.setReq r
      { w.writeReqs r with channel, base := (b, buffer.readPtr), len := buffer.length }) r

def tcpServiceSend (w : WriteSide) (channel : Nat) (sndbuf : List UInt8) : WriteSide × Status :=
  match callAlone .peek w.writeReqsFree 3 .entry with
  | (writeReqsFree, some (.success [r])) =>
    match w.poolWrite.peek with
    | (poolWrite, .buffer b) =>
      fillReq ({ w with writeReqsFree, poolWrite }.setReq r { w.writeReqs r with buffer := some b })
        r b channel sndbuf
    | (poolWrite, _) =>
      ({ w with writeReqsFree, poolWrite }.setReq r { w.writeReqs r with buffer := none }, .noBuf)
  | (writeReqsFree, _) => ({ w with writeReqsFree }, .noReq)

/-- A ring after a peek that found something, and what it found. -/
def looked (q : Queue Nat) : Queue Nat := { q with tailCache := q.tail }

def oldest (q : Queue Nat) : Nat := q.buffer (q.slot q.tail)

theorem peek_drained {q : Queue Nat} (drained : q.head = q.tail) :
    callAlone .peek q 3 .entry = (q, some .empty) := by
  simp [tnQueueSpscPeek_alone,tnQueueSpscPeek,drained,Res.ofValue]

theorem peek_filled {q : Queue Nat} (filled : q.head ≠ q.tail) :
    callAlone .peek q 3 .entry = (looked q, some (.success [oldest q])) := by
  simp [tnQueueSpscPeek_alone,tnQueueSpscPeek,filled,Res.ofValue,looked,oldest]

section Calls

variable (w : WriteSide) (channel : Nat) (sndbuf : List UInt8)

/-- The side after a look at the free requests that finds no buffer. -/
def WriteSide.refused : WriteSide :=
  let r := oldest w.writeReqsFree
  { w with writeReqsFree := looked w.writeReqsFree }.setReq r { w.writeReqs r with buffer := none }

/-- The side after both looks. -/
def WriteSide.offered : WriteSide :=
  let r := oldest w.writeReqsFree
  let b := oldest w.poolWrite.tnBuffersFree
  let pool := { w.poolWrite with tnBuffersFree := looked w.poolWrite.tnBuffersFree }
  { w with writeReqsFree := looked w.writeReqsFree, poolWrite := pool.resetBuffer b }.setReq r
    { w.writeReqs r with buffer := some b }

/-- The side after a call that has pushed its request. -/
def WriteSide.sent (buffer : Buffer) (writeReqsReady : Queue Nat) : WriteSide :=
  let r := oldest w.writeReqsFree
  let b := oldest w.poolWrite.tnBuffersFree
  let pool := w.offered.poolWrite.setBuffer b buffer
  { w.offered with
    writeReqs := Function.update w.offered.writeReqs r
      { w.offered.writeReqs r with channel, base := (b, buffer.readPtr), len := buffer.length }
    writeReqsFree := tnQueueSpscPopCached w.offered.writeReqsFree
    poolWrite := pool.popCached.1
    writeReqsReady }

variable {w}

theorem send_noReq (drained : w.writeReqsFree.head = w.writeReqsFree.tail) :
    tcpServiceSend w channel sndbuf = (w, .noReq) := by
  rw [tcpServiceSend,peek_drained drained]

theorem send_refused (filled : w.writeReqsFree.head ≠ w.writeReqsFree.tail)
    (drained : w.poolWrite.tnBuffersFree.head = w.poolWrite.tnBuffersFree.tail) :
    tcpServiceSend w channel sndbuf = (w.refused, .noBuf) := by
  have looks : w.poolWrite.peek = (w.poolWrite, .failure) := by
    rw [BufferPool.peek,peek_drained drained]
  rw [tcpServiceSend,peek_filled filled]
  simp only [looks]
  rfl

theorem send_offered (filled : w.writeReqsFree.head ≠ w.writeReqsFree.tail)
    (stocked : w.poolWrite.tnBuffersFree.head ≠ w.poolWrite.tnBuffersFree.tail) :
    tcpServiceSend w channel sndbuf =
      fillReq w.offered (oldest w.writeReqsFree) (oldest w.poolWrite.tnBuffersFree) channel sndbuf := by
  rw [tcpServiceSend,peek_filled filled]
  simp only [BufferPool.peek,peek_filled stocked]
  rfl

/-- The oldest free block as the call writes to it. -/
theorem offered_block : (w.offered.poolWrite.tnBuffers (oldest w.poolWrite.tnBuffersFree)).buffer =
    (w.poolWrite.tnBuffers (oldest w.poolWrite.tnBuffersFree)).buffer.reset := by
  simp [WriteSide.offered,WriteSide.setReq,BufferPool.resetBuffer,BufferPool.setBuffer]

theorem send_long (filled : w.writeReqsFree.head ≠ w.writeReqsFree.tail)
    (stocked : w.poolWrite.tnBuffersFree.head ≠ w.poolWrite.tnBuffersFree.tail)
    (long : (w.poolWrite.tnBuffers (oldest w.poolWrite.tnBuffersFree)).buffer.reset.write sndbuf = none) :
    tcpServiceSend w channel sndbuf = (w.offered, .noBuf) := by
  simp only [send_offered channel sndbuf filled stocked,fillReq,offered_block,long]

theorem send_sent (filled : w.writeReqsFree.head ≠ w.writeReqsFree.tail)
    (stocked : w.poolWrite.tnBuffersFree.head ≠ w.poolWrite.tnBuffersFree.tail) {buffer : Buffer}
    (wrote : (w.poolWrite.tnBuffers (oldest w.poolWrite.tnBuffersFree)).buffer.reset.write sndbuf = some buffer)
    {q : Queue Nat}
    (pushed : callAlone (.push (oldest w.writeReqsFree)) w.writeReqsReady 4 .entry = (q, some (.success []))) :
    tcpServiceSend w channel sndbuf = (w.sent channel buffer q, .success) := by
  have pushed' : callAlone (.push (oldest w.writeReqsFree)) w.offered.writeReqsReady 4 .entry =
      (q, some (.success [])) := pushed
  simp only [send_offered channel sndbuf filled stocked,fillReq,offered_block,wrote,publish,WriteSide.setReq,
    pushed']
  rfl

theorem refused_twice : w.refused.refused = w.refused := by
  simp [WriteSide.refused,WriteSide.setReq,looked,oldest,Queue.slot]

theorem offered_twice : w.offered.offered = w.offered := by
  simp [WriteSide.offered,WriteSide.setReq,looked,oldest,Queue.slot,BufferPool.resetBuffer,BufferPool.setBuffer,
    Buffer.reset,Buffer.writeReset,Buffer.readReset]

/-- A call after one that failed with room in write_reqs_ready does what it would have done
without it. -/
theorem send_again (room : w.writeReqsFree.head ≠ w.writeReqsFree.tail →
      w.writeReqsReady.head - w.writeReqsReady.tail ≠ w.writeReqsReady.capacity)
    (failed : (tcpServiceSend w channel sndbuf).2 ≠ .success) (channel' : Nat) (sndbuf' : List UInt8) :
    tcpServiceSend (tcpServiceSend w channel sndbuf).1 channel' sndbuf' = tcpServiceSend w channel' sndbuf' := by
  by_cases drained : w.writeReqsFree.head = w.writeReqsFree.tail
  · rw [send_noReq channel sndbuf drained]
  by_cases empty : w.poolWrite.tnBuffersFree.head = w.poolWrite.tnBuffersFree.tail
  · rw [send_refused channel sndbuf drained empty,send_refused channel' sndbuf' drained empty]
    have again := send_refused (w := w.refused) channel' sndbuf' drained empty
    rwa [refused_twice] at again
  rw [send_offered channel sndbuf drained empty] at failed ⊢
  rw [send_offered channel' sndbuf' drained empty]
  simp only [fillReq] at failed ⊢
  split
  · have again := send_offered (w := w.offered) channel' sndbuf' drained empty
    rwa [offered_twice] at again
  · next buffer wrote =>
    rw [wrote] at failed
    simp [publish,callAlone,tick,room drained,WriteSide.setReq,WriteSide.offered] at failed

end Calls

/-- The requests in write_reqs_ready are as they were. -/
def Waiting (w w' : WriteSide) : Prop :=
  ∀ x ∈ w.writeReqsReady.contents, w'.writeReqs x = w.writeReqs x ∧ w'.covered x = w.covered x

/-- One request with these bytes has gone to write_reqs_ready; it and its block have left their
free queues. -/
structure Published (w w' : WriteSide) (channel : Nat) (sndbuf : List UInt8) (r b : Nat) : Prop where
  free : w.writeReqsFree.contents = r :: w'.writeReqsFree.contents
  pool : w.poolWrite.tnBuffersFree.contents = b :: w'.poolWrite.tnBuffersFree.contents
  ready : w'.writeReqsReady.contents = w.writeReqsReady.contents ++ [r]
  buffer : (w'.writeReqs r).buffer = some b
  channel : (w'.writeReqs r).channel = channel
  bytes : w'.covered r = sndbuf
  waiting : Waiting w w'

/-- Nothing has moved. -/
structure Untouched (w w' : WriteSide) : Prop where
  free : w'.writeReqsFree.contents = w.writeReqsFree.contents
  pool : w'.poolWrite.tnBuffersFree.contents = w.poolWrite.tnBuffersFree.contents
  ready : w'.writeReqsReady.contents = w.writeReqsReady.contents
  blocksInuse : w'.poolWrite.blocksInuse = w.poolWrite.blocksInuse
  bytesInuse : w'.poolWrite.bytesInuse = w.poolWrite.bytesInuse
  waiting : Waiting w w'

/-- A write side in order: the oldest free request and block belong to no request that waits,
there is room for the former, and blocks have the size of the pool. -/
structure Sound (bits : Nat) (w : WriteSide) (ready : Fifo Nat) : Prop where
  ring : Represents bits w.writeReqsReady ready
  room : w.writeReqsFree.head ≠ w.writeReqsFree.tail →
    ready.items.length < 2 ^ bits ∧ oldest w.writeReqsFree ∉ ready.items
  apart : w.poolWrite.tnBuffersFree.head ≠ w.poolWrite.tnBuffersFree.tail →
    ∀ x ∈ ready.items, (w.writeReqs x).base.1 ≠ oldest w.poolWrite.tnBuffersFree
  block : ∀ b, (w.poolWrite.tnBuffers b).buffer.buf.capacity = w.poolWrite.blockSize.toNat
  small : w.poolWrite.blockSize.toNat < sizeHalf

theorem contents_nil_iff (q : Queue Nat) : q.contents = [] ↔ q.head = q.tail := by
  refine ⟨?_,fun drained => by simp [Queue.contents,drained]⟩
  intro none'
  by_contra filled
  rw [contents_popped filled] at none'
  cases none'

section Outcome

variable {bits : Nat} {w w' : WriteSide} {ready : Fifo Nat}

/-- A reset block takes all bytes up to its size, and no more. -/
theorem Sound.write_iff (sound : Sound bits w ready) (b : Nat) (sndbuf : List UInt8) :
    ((w.poolWrite.tnBuffers b).buffer.reset.write sndbuf).isSome ↔
      sndbuf.length ≤ w.poolWrite.blockSize.toNat := by
  have block := sound.block b
  have small := sound.small
  simp only [Buffer.write,Buffer.reset,Buffer.writeReset,Buffer.readReset,Option.isSome_map,ByteBuf.write,block]
  split
  · next refused => simp; omega
  · next fits => simp; omega

/-- Waiting requests do not see what happens to the oldest free request and block. -/
theorem Sound.waiting (sound : Sound bits w ready) (small : bits < 64)
    (filled : w.writeReqsFree.head ≠ w.writeReqsFree.tail)
    (reqs : ∀ x, x ≠ oldest w.writeReqsFree → w'.writeReqs x = w.writeReqs x)
    (blocks : ∀ x ∈ ready.items,
      w'.poolWrite.tnBuffers (w.writeReqs x).base.1 = w.poolWrite.tnBuffers (w.writeReqs x).base.1) :
    Waiting w w' := by
  intro x member
  rw [sound.ring.contents small] at member
  have different : x ≠ oldest w.writeReqsFree := by
    rintro rfl
    exact (sound.room filled).2 member
  have same := reqs x different
  exact ⟨same,by simp only [WriteSide.covered,same,blocks x member]⟩

theorem Sound.refused (sound : Sound bits w ready) (small : bits < 64)
    (filled : w.writeReqsFree.head ≠ w.writeReqsFree.tail) : Untouched w w.refused :=
  ⟨rfl,rfl,rfl,rfl,rfl,sound.waiting small filled (fun _ different => Function.update_of_ne different ..)
    fun _ _ => rfl⟩

theorem Sound.offered (sound : Sound bits w ready) (small : bits < 64)
    (filled : w.writeReqsFree.head ≠ w.writeReqsFree.tail)
    (stocked : w.poolWrite.tnBuffersFree.head ≠ w.poolWrite.tnBuffersFree.tail) : Untouched w w.offered := by
  refine ⟨rfl,rfl,rfl,rfl,rfl,sound.waiting small filled (fun _ different => Function.update_of_ne different ..) ?_⟩
  intro x member
  exact Function.update_of_ne (sound.apart stocked x member) ..

theorem Sound.sent (sound : Sound bits w ready) (small : bits < 64)
    (filled : w.writeReqsFree.head ≠ w.writeReqsFree.tail)
    (stocked : w.poolWrite.tnBuffersFree.head ≠ w.poolWrite.tnBuffersFree.tail) (channel : Nat)
    {sndbuf : List UInt8} {buffer : Buffer}
    (wrote : (w.poolWrite.tnBuffers (oldest w.poolWrite.tnBuffersFree)).buffer.reset.write sndbuf = some buffer)
    {q : Queue Nat} (ring : Represents bits q { ready with items := ready.items ++ [oldest w.writeReqsFree] }) :
    Published w (w.sent channel buffer q) channel sndbuf (oldest w.writeReqsFree)
      (oldest w.poolWrite.tnBuffersFree) := by
  refine ⟨contents_popped filled,contents_popped stocked,?_,?_,?_,?_,?_⟩
  · rw [sound.ring.contents small]
    exact ring.contents small
  · simp [WriteSide.sent,WriteSide.offered,WriteSide.setReq]
  · simp [WriteSide.sent]
  · have bytes := write_reset wrote
    simpa [WriteSide.sent,WriteSide.covered,BufferPool.setBuffer,BufferPool.popCached,BufferPool.taken] using bytes
  · refine sound.waiting small filled ?_ ?_
    · intro x different
      simp [WriteSide.sent,WriteSide.offered,WriteSide.setReq,Function.update_of_ne different]
    · intro x member
      have elsewhere := sound.apart stocked x member
      simp [WriteSide.sent,WriteSide.offered,WriteSide.setReq,BufferPool.setBuffer,BufferPool.popCached,
        BufferPool.taken,BufferPool.resetBuffer,Function.update_of_ne elsewhere]

/-- The ways through a call while write_reqs_ready has room for a free request. -/
inductive Course (w : WriteSide) (channel : Nat) (sndbuf : List UInt8) : WriteSide × Status → Prop
  | noReq : w.writeReqsFree.head = w.writeReqsFree.tail → Course w channel sndbuf (w, .noReq)
  | refused : w.writeReqsFree.head ≠ w.writeReqsFree.tail →
      w.poolWrite.tnBuffersFree.head = w.poolWrite.tnBuffersFree.tail →
      Course w channel sndbuf (w.refused, .noBuf)
  | long : w.writeReqsFree.head ≠ w.writeReqsFree.tail →
      w.poolWrite.tnBuffersFree.head ≠ w.poolWrite.tnBuffersFree.tail →
      (w.poolWrite.tnBuffers (oldest w.poolWrite.tnBuffersFree)).buffer.reset.write sndbuf = none →
      Course w channel sndbuf (w.offered, .noBuf)
  | sent (buffer : Buffer) (q : Queue Nat) : w.writeReqsFree.head ≠ w.writeReqsFree.tail →
      w.poolWrite.tnBuffersFree.head ≠ w.poolWrite.tnBuffersFree.tail →
      (w.poolWrite.tnBuffers (oldest w.poolWrite.tnBuffersFree)).buffer.reset.write sndbuf = some buffer →
      callAlone (.push (oldest w.writeReqsFree)) w.writeReqsReady 4 .entry = (q, some (.success [])) →
      Course w channel sndbuf (w.sent channel buffer q, .success)

theorem Sound.course (sound : Sound bits w ready) (small : bits < 64) (channel : Nat) (sndbuf : List UInt8) :
    Course w channel sndbuf (tcpServiceSend w channel sndbuf) := by
  by_cases drained : w.writeReqsFree.head = w.writeReqsFree.tail
  · rw [send_noReq channel sndbuf drained]
    exact .noReq drained
  by_cases empty : w.poolWrite.tnBuffersFree.head = w.poolWrite.tnBuffersFree.tail
  · rw [send_refused channel sndbuf drained empty]
    exact .refused drained empty
  cases wrote : (w.poolWrite.tnBuffers (oldest w.poolWrite.tnBuffersFree)).buffer.reset.write sndbuf with
  | none =>
    rw [send_long channel sndbuf drained empty wrote]
    exact .long drained empty wrote
  | some buffer =>
    obtain ⟨q,pushed,-⟩ := push_alone small (oldest w.writeReqsFree) sound.ring (sound.room drained).1
    rw [send_sent channel sndbuf drained empty wrote pushed]
    exact .sent buffer q drained empty wrote pushed

/-- A free request, a free block, and bytes that fit it. -/
def Accepts (w : WriteSide) (sndbuf : List UInt8) : Prop :=
  w.writeReqsFree.contents ≠ [] ∧ w.poolWrite.tnBuffersFree.contents ≠ [] ∧
    sndbuf.length ≤ w.poolWrite.blockSize.toNat

theorem Sound.outcome (sound : Sound bits w ready) (small : bits < 64) (channel : Nat) (sndbuf : List UInt8) :
    let call := tcpServiceSend w channel sndbuf
    (Accepts w sndbuf ∧ call.2 = .success ∧ ∃ r b, Published w call.1 channel sndbuf r b) ∨
      (¬ Accepts w sndbuf ∧ call.2 ≠ .success ∧ Untouched w call.1) := by
  intro call
  have course : Course w channel sndbuf call := sound.course small channel sndbuf
  clear_value call
  simp only [Accepts,ne_eq,contents_nil_iff,← sound.write_iff (oldest w.poolWrite.tnBuffersFree)]
  cases course with
  | noReq drained => exact .inr ⟨fun accepted => accepted.1 drained,by simp,rfl,rfl,rfl,rfl,rfl,fun _ _ => ⟨rfl,rfl⟩⟩
  | refused filled empty => exact .inr ⟨fun accepted => accepted.2.1 empty,by simp,sound.refused small filled⟩
  | long filled stocked long =>
    refine .inr ⟨?_,by simp,sound.offered small filled stocked⟩
    rintro ⟨-,-,fits⟩
    simp [long] at fits
  | sent buffer q filled stocked wrote pushed =>
    obtain ⟨q',pushed',ring⟩ := push_alone small (oldest w.writeReqsFree) sound.ring (sound.room filled).1
    obtain rfl : q' = q := (Prod.mk.inj (pushed'.symm.trans pushed)).1
    exact .inl ⟨⟨filled,stocked,by simp [wrote]⟩,rfl,_,_,sound.sent small filled stocked channel wrote ring⟩

end Outcome

/-- A request with the number of a call, which the code does not store. -/
def WriteReq.numbered (req : WriteReq) (ticket : Nat) : WriteReq := { req with ticket }

/-- The write side of a state between two calls, whatever its counters say. -/
structure Shows (cfg : Config) (s : Running) (w : WriteSide) : Prop where
  reqs : ∀ r, (w.writeReqs r).numbered (s.shared.reqs r).ticket = s.shared.reqs r
  free : w.writeReqsFree = s.mem .reqsFree
  ready : w.writeReqsReady = s.mem .reqsReady
  pool : w.poolWrite.tnBuffersFree = s.mem .poolWrite
  buffers : ∀ b, (w.poolWrite.tnBuffers b).buffer = s.shared.buffers b
  blockSize : w.poolWrite.blockSize.toNat = cfg.maxRead

section Reached

variable {cfg : Config} {s : Running} {a : Abstract} {w : WriteSide}

theorem oldest_member {bits : Nat} (small : bits < 64) {q : Queue Nat} {f : Fifo Nat} (ring : Represents bits q f)
    (filled : q.head ≠ q.tail) : oldest q ∈ f.items := by
  rw [← ring.contents small,contents_popped filled]
  exact List.mem_cons_self ..

theorem Shows.req (shows' : Shows cfg s w) (r : Nat) :
    (w.writeReqs r).channel = (s.shared.reqs r).channel ∧ (w.writeReqs r).base = (s.shared.reqs r).base ∧
      (w.writeReqs r).len = (s.shared.reqs r).len := by
  have same := shows'.reqs r
  have channel := congrArg WriteReq.channel same
  have base := congrArg WriteReq.base same
  have len := congrArg WriteReq.len same
  exact ⟨channel,base,len⟩

/-- Outside a send the oldest entries of the free queues are free. -/
theorem oldest_free (related : Related (simulation (fun _ => cfg.bits) (fun _ => cfg.small))
    machine (fun _ => True) s a)
    (main : s.pcs .main = .idle) (filled : (s.mem .reqsFree).head ≠ (s.mem .reqsFree).tail) :
    oldest (s.mem .reqsFree) ∈ freeReqs (view a) := by
  have main' : (view a).main = .idle := by rw [← main,related.pcs]; rfl
  simp only [freeReqs,main']
  exact oldest_member cfg.small (related.rel .reqsFree trivial) filled

theorem oldest_apart (related : Related (simulation (fun _ => cfg.bits) (fun _ => cfg.small))
    machine (fun _ => True) s a)
    (owned : Owned cfg (view a)) (carried : Carried (view a)) (main : s.pcs .main = .idle)
    (stocked : (s.mem .poolWrite).head ≠ (s.mem .poolWrite).tail) {x : Nat}
    (place : x ∈ (view a).ready.items ++ (view a).s.inFlight ++ testing (view a).io) :
    ((view a).s.reqs x).base.1 ≠ oldest (s.mem .poolWrite) := by
  have main' : (view a).main = .idle := by rw [← main,related.pcs]; rfl
  have free : oldest (s.mem .poolWrite) ∈ freeBuffers (view a) := by
    simp only [freeBuffers,main']
    exact oldest_member cfg.small (related.rel .poolWrite trivial) stocked
  obtain ⟨-,-,-,buffer,-⟩ := carried.carries x place
  intro same
  refine owned.buffer_apart free place ?_
  rw [buffer,same]

/-- Between two calls of a run the write side is in order. -/
theorem Shows.sound (shows' : Shows cfg s w) (owned : Owned cfg (view a)) (carried : Carried (view a))
    (sized : Sized cfg (view a)) (roomy : cfg.bufferCount < 2 ^ cfg.bits)
    (related : Related (simulation (fun _ => cfg.bits) (fun _ => cfg.small)) machine (fun _ => True) s a)
    (main : s.pcs .main = .idle) : Sound cfg.bits w (a.abs .reqsReady) := by
  refine ⟨by rw [shows'.ready]; exact related.rel .reqsReady trivial,?_,?_,?_,?_⟩
  · rw [shows'.free]
    intro filled
    obtain ⟨inside,absent,-⟩ := owned.free_only (oldest_free related main filled)
    have unready : oldest (s.mem .reqsFree) ∉ (a.abs .reqsReady).items :=
      fun member => absent (List.mem_append_left _ member)
    have shorter : (a.abs .reqsReady).items.length < cfg.bufferCount := by
      refine Counting.length_lt (fun y => ?_) inside (List.count_eq_zero.mpr unready)
      have places := owned.reqs y
      simp only [view] at places
      omega
    exact ⟨by omega,unready⟩
  · rw [shows'.pool]
    intro stocked x member
    rw [(shows'.req x).2.1,related.shared]
    exact oldest_apart related owned carried main stocked
      (List.mem_append_left _ (List.mem_append_left _ member))
  · intro b
    rw [shows'.buffers,shows'.blockSize,related.shared]
    exact sized b
  · rw [shows'.blockSize]
    exact cfg.block

end Reached

end Tcpeen.Send
