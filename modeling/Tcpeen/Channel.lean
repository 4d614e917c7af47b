import Tcpeen.BufferPool
import Tcpeen.Connection

/-! tcp_channel.c: the framed reader of a channel's buffer, and the swap of that buffer for a
fresh one. A channel's buffer is a buffer of `pool_read`, named by its index. -/
namespace Tcpeen

open QueueSpsc

/-- The fields of `tcp_channel_t` that its reader uses; `readBuffer` is missing where the
pointer is `NULL`. -/
structure Channel where
  readBuffer : Option Nat
  readState : Connection.ReadState
  nextPayloadLen : UInt64
  deriving DecidableEq, Repr

namespace Channel

/-- What a call leaves: whether it returned `TN_SUCCESS`, the pool, the channel, and what it
stored through its out pointer. -/
structure Done (Out : Type) where
  success : Bool
  pool : BufferPool
  channel : Channel
  out : Out

/-- `tcp_channel_read_header`. The assertion on `read_buffer` ends the program. -/
def tcpChannelReadHeader (p : BufferPool) (c : Channel) : Option (Done Nat) :=
  c.readBuffer.map fun i =>
    match (p.tnBuffers i).buffer.readBe32 with
    | some (b, len) =>
      ⟨true, p.setBuffer i b, { c with nextPayloadLen := UInt64.ofNat len, readState := .payload }, len⟩
    | none => ⟨false, p, c, 0⟩

/-- `tcp_channel_read_payload`; the span is missing where its pointer is `NULL`. -/
def tcpChannelReadPayload (p : BufferPool) (c : Channel) : Option (Done (Option Cursor)) :=
  c.readBuffer.map fun i =>
    let span : Cursor := ⟨(p.tnBuffers i).buffer.readPtr, c.nextPayloadLen.toNat⟩
    match (p.tnBuffers i).buffer.readSkip span.len with
    | some b => ⟨true, p.setBuffer i b, { c with readState := .header }, some span⟩
    | none => ⟨false, p, c, none⟩

/-- `tn_buffer_write_buffer`, which is `tn_buffer_read_buffer` of the other; no length stands
for all that is unread. -/
def tnBufferWriteBuffer (b src : Buffer) (len : Nat) : Option Buffer :=
  if len = 0 then b.write (window src.buf.mem src.pos.ptr src.pos.len)
  else if src.pos.len < len then none
  else b.write (window src.buf.mem src.pos.ptr len)

/-- `tcp_channel_buffer_swap`. The pop stores through `&channel->read_buffer`, `NULL` where
the pool is exhausted. -/
def tcpChannelBufferSwap (p : BufferPool) (c : Channel) : Option (Done Unit) :=
  c.readBuffer.map fun previous =>
    match p.popBack with
    | (p, .buffer i) =>
      let c := { c with readBuffer := some i }
      let unread := (p.tnBuffers previous).buffer
      if unread.readLength = 0 then ⟨true, p, c, ()⟩
      else match tnBufferWriteBuffer (p.tnBuffers i).buffer unread 0 with
        | some b => ⟨true, p.setBuffer i b, c, ()⟩
        | none => ⟨false, p, c, ()⟩
    | (p, _) => ⟨false, p, { c with readBuffer := none }, ()⟩

/-! ### The swap -/

/-- Success moves the unread bytes to a block that was free; an error changes nothing. -/
structure SwapKeeps (p : BufferPool) (c : Channel) (i : Nat) (done : Done Unit) : Prop where
  success : done.success = true → ∃ j, done.channel.readBuffer = some j ∧ j ∈ p.tnBuffersFree.contents ∧
    (done.pool.tnBuffers j).buffer.unread = (p.tnBuffers i).buffer.unread ∧
    (done.pool.tnBuffers j).buffer.length = (p.tnBuffers i).buffer.readLength
  error : done.success = false → done.channel = c ∧
    (done.pool.tnBuffers i).buffer.unread = (p.tnBuffers i).buffer.unread ∧
    done.pool.tnBuffersFree.contents = p.tnBuffersFree.contents ∧
    done.pool.blocksInuse = p.blocksInuse ∧ done.pool.bytesInuse = p.bytesInuse

/-- A free block that the unread bytes fit into. -/
def Swappable (p : BufferPool) (i : Nat) : Prop :=
  p.tnBuffersFree.contents ≠ [] ∧ (p.tnBuffers i).buffer.readLength ≤ p.blockSize.toNat ∧
    (p.tnBuffers i).buffer.readLength ≤ sizeHalf

instance decidableSwappable (p : BufferPool) (i : Nat) : Decidable (Swappable p i) :=
  inferInstanceAs (Decidable (_ ∧ _ ∧ _))

section Swap

variable {p : BufferPool} {c : Channel} {i j : Nat}

@[simp] theorem setBuffer_same (p : BufferPool) (i : Nat) (b : Buffer) :
    ((p.setBuffer i b).tnBuffers i).buffer = b := by
  simp [BufferPool.setBuffer]

theorem setBuffer_other (p : BufferPool) (b : Buffer) (apart : j ≠ i) :
    ((p.setBuffer i b).tnBuffers j).buffer = (p.tnBuffers j).buffer := by
  simp [BufferPool.setBuffer,apart]

/-- An exhausted pool takes the channel's buffer away. -/
theorem swap_exhausted (taken : c.readBuffer = some i) (refused : p.popBack = (p, .failure)) :
    ∃ done, tcpChannelBufferSwap p c = some done ∧ ¬ SwapKeeps p c i done := by
  refine ⟨⟨false,p,{ c with readBuffer := none },()⟩,by simp [tcpChannelBufferSwap,taken,refused],?_⟩
  intro keeps
  have same := congrArg readBuffer (keeps.error rfl).1
  simp [taken] at same

/-- A block from the pool, empty, while the channel's buffer is left alone. -/
structure Popped (p after : BufferPool) (i j : Nat) : Prop where
  free : j ∈ p.tnBuffersFree.contents
  other : i ≠ j
  previous : (after.tnBuffers i).buffer = (p.tnBuffers i).buffer
  length : (after.tnBuffers j).buffer.buf.len = 0
  cursor : (after.tnBuffers j).buffer.pos = ⟨0, 0⟩
  capacity : (after.tnBuffers j).buffer.buf.capacity = p.blockSize.toNat

theorem swap_copies {after : BufferPool} (taken : c.readBuffer = some i)
    (popped : p.popBack = (after, .buffer j)) (block : Popped p after i j) :
    ∃ done, tcpChannelBufferSwap p c = some done ∧
      (SwapKeeps p c i done ↔ (p.tnBuffers i).buffer.readLength ≤ p.blockSize.toNat ∧
        (p.tnBuffers i).buffer.readLength ≤ sizeHalf) := by
  have moved (b : Buffer) (stored : b.unread = (p.tnBuffers i).buffer.unread)
      (length : b.length = (p.tnBuffers i).buffer.readLength) (pool : BufferPool)
      (here : (pool.tnBuffers j).buffer = b) :
      SwapKeeps p c i ⟨true,pool,{ c with readBuffer := some j },()⟩ :=
    ⟨fun _ => ⟨j,rfl,block.free,by rw [here,stored],by rw [here,length]⟩,by simp⟩
  by_cases nothing : (p.tnBuffers i).buffer.readLength = 0
  · refine ⟨⟨true,after,{ c with readBuffer := some j },()⟩,?_,iff_of_true ?_ ?_⟩
    · simp [tcpChannelBufferSwap,taken,popped,block.previous,nothing]
    · refine moved _ ?_ ?_ after rfl
      · have none' : (p.tnBuffers i).buffer.pos.len = 0 := nothing
        simp [Buffer.unread,block.cursor,none',window]
      · rw [nothing]
        exact block.length
    · simp [nothing]
  · have src : (window (p.tnBuffers i).buffer.buf.mem (p.tnBuffers i).buffer.pos.ptr
        (p.tnBuffers i).buffer.pos.len).length = (p.tnBuffers i).buffer.readLength := by simp [Buffer.readLength]
    have accepted : (tnBufferWriteBuffer (after.tnBuffers j).buffer (p.tnBuffers i).buffer 0).isSome ↔
        (p.tnBuffers i).buffer.readLength ≤ p.blockSize.toNat ∧
          (p.tnBuffers i).buffer.readLength ≤ sizeHalf := by
      simp only [tnBufferWriteBuffer,if_true,Buffer.write,ByteBuf.write,Option.isSome_map,src,block.length,
        block.capacity]
      split
      · simp only [Option.isSome_none,Bool.false_eq_true,false_iff]
        omega
      · simp only [Option.isSome_some,true_iff]
        omega
    cases wrote : tnBufferWriteBuffer (after.tnBuffers j).buffer (p.tnBuffers i).buffer 0 with
    | none =>
      refine ⟨⟨false,after,{ c with readBuffer := some j },()⟩,?_,iff_of_false ?_ ?_⟩
      · simp [tcpChannelBufferSwap,taken,popped,block.previous,nothing,wrote]
      · intro keeps
        have same := congrArg readBuffer (keeps.error rfl).1
        simp [taken,block.other.symm] at same
      · rw [← accepted,wrote]
        simp
    | some b =>
      refine ⟨⟨true,after.setBuffer j b,{ c with readBuffer := some j },()⟩,?_,iff_of_true ?_ ?_⟩
      · simp [tcpChannelBufferSwap,taken,popped,block.previous,nothing,wrote]
      · obtain ⟨room,rfl⟩ := Buffer.write_cases wrote
        refine moved _ ?_ ?_ _ (setBuffer_same ..)
        · simp only [Buffer.unread,block.cursor,block.length,Nat.zero_add]
          exact window_store _ _ _
        · simp only [Buffer.length,block.length,Nat.zero_add,src]
      · rw [← accepted,wrote]
        rfl

/-- A pop leaves the buffers that others hold alone. -/
theorem popBack_popped {bits : Nat} (small : bits < 64) {s : BufferPool.State} {items : List Nat}
    (accounted : BufferPool.Accounted bits s items) (held : BufferPool.Held s items) (member : i ∈ s.held) :
    (items = [] ∧ s.pool.popBack = (s.pool, .failure)) ∨
      (items ≠ [] ∧ ∃ after j, s.pool.popBack = (after, .buffer j) ∧ Popped s.pool after i j) := by
  have r := accounted.represents
  cases items with
  | nil =>
    left
    exact ⟨rfl,by simp [BufferPool.popBack,(BufferPool.take_refused small r).2.2]⟩
  | cons j rest =>
    right
    obtain ⟨q,called,-⟩ := (BufferPool.take_accepted small r).2.2
    have once := held.once j
    rw [List.count_cons_self] at once
    have inside : j < s.pool.blockCount.toNat := by
      by_contra outside
      rw [if_neg outside] at once
      omega
    have other : i ≠ j := by
      rintro rfl
      have positive := List.count_pos_iff.mpr member
      rw [if_pos inside] at once
      omega
    refine ⟨by simp,_,j,by simp only [BufferPool.popBack,called]; rfl,?_⟩
    refine ⟨?_,other,?_,?_,?_,?_⟩
    · rw [r.contents small]
      exact List.mem_cons_self
    · exact setBuffer_other _ _ other
    · simp [BufferPool.resetBuffer,Buffer.reset,Buffer.writeReset,Buffer.readReset]
    · simp [BufferPool.resetBuffer,Buffer.reset,Buffer.writeReset,Buffer.readReset]
    · simpa [BufferPool.resetBuffer,Buffer.reset,Buffer.writeReset,Buffer.readReset,BufferPool.taken] using
        (accounted.laid j inside).capacity

end Swap

/-- In every state that calls on the pool lead to, the swap keeps the channel's input exactly
where a block is free and the unread bytes fit into it. -/
theorem buffer_swap_exact (allocation : Option (Nat → UInt8)) (tnBuffers : Option (Nat → PoolBuffer))
    (ring : Option (Nat → Nat)) (blockCount blockSize : Word) (pool : BufferPool) (positive : blockCount ≠ 0)
    (built : BufferPool.setup allocation tnBuffers ring blockCount blockSize = some pool)
    (s : BufferPool.State)
    (reach : Transition.Reachable BufferPool.step BufferPool.Returning (BufferPool.start pool) s)
    (c : Channel) (i : Nat) (reads : c.readBuffer = some i) (held : i ∈ s.held) :
    ∃ done, tcpChannelBufferSwap s.pool c = some done ∧ (SwapKeeps s.pool c i done ↔ Swappable s.pool i) := by
  obtain ⟨bits,small,-,-,fresh⟩ := BufferPool.setup_fresh positive built
  obtain ⟨items,accounted,owned,-,-⟩ := BufferPool.reachable_held small fresh reach
  have contents : s.pool.tnBuffersFree.contents = items := accounted.represents.contents small
  rcases popBack_popped small accounted owned held with ⟨none',refused⟩ | ⟨some',after,j,popped,block⟩
  · obtain ⟨done,swapped,loses⟩ := swap_exhausted reads refused
    refine ⟨done,swapped,iff_of_false loses ?_⟩
    rintro ⟨filled,-⟩
    exact filled (contents.trans none')
  · obtain ⟨done,swapped,copied⟩ := swap_copies reads popped block
    refine ⟨done,swapped,copied.trans ?_⟩
    simp [Swappable,contents,some']

/-- The first buffer of a pool, taken and filled with two bytes. -/
def twoBytes : List BufferPool.Op :=
  [.popBack,.use 0 ⟨⟨store (fun _ => 0) 0 [1,2], 2, 8⟩, ⟨0, 2⟩⟩]

theorem twoBytes_returning {s s' : BufferPool.State}
    (run : Transition.execute BufferPool.step twoBytes s = some s') :
    Transition.Reachable BufferPool.step BufferPool.Returning s s' := by
  refine .of_execute (fun s op member => ?_) run
  simp only [twoBytes,List.mem_cons,List.not_mem_nil,or_false] at member
  rcases member with rfl | rfl <;> trivial

/-- With a second block in the pool the two bytes move over. -/
theorem buffer_swap_two :
    ∃ pool s, BufferPool.setup (some fun _ => 0) (some fun _ => ⟨0,false,Buffer.setup (fun _ => 0) 0⟩)
        (some fun _ => 0) 2 8 = some pool ∧
      Transition.Reachable BufferPool.step BufferPool.Returning (BufferPool.start pool) s ∧
      (s.pool.tnBuffers 0).buffer.unread = [1,2] ∧
      ∃ done, tcpChannelBufferSwap s.pool ⟨some 0,.header,0⟩ = some done ∧
        SwapKeeps s.pool ⟨some 0,.header,0⟩ 0 done := by
  have observed : ((BufferPool.setup (some fun _ => 0) (some fun _ => ⟨0,false,Buffer.setup (fun _ => 0) 0⟩)
      (some fun _ => 0) 2 8).bind fun pool => (Transition.execute BufferPool.step twoBytes
        (BufferPool.start pool)).map fun s => (s.held, (s.pool.tnBuffers 0).buffer.unread,
          decide (Swappable s.pool 0))) = some ([0],[1,2],true) := by
    decide +kernel
  obtain ⟨pool,built,rest⟩ := Option.bind_eq_some_iff.mp observed
  obtain ⟨s,run,facts⟩ := Option.map_eq_some_iff.mp rest
  obtain ⟨held,unread,swappable⟩ := by simpa only [Prod.mk.injEq] using facts
  have reach := twoBytes_returning run
  obtain ⟨done,swapped,exact'⟩ := buffer_swap_exact _ _ _ 2 8 pool (by decide) built s reach
    ⟨some 0,.header,0⟩ 0 rfl (by simp [held])
  exact ⟨pool,s,built,reach,unread,done,swapped,exact'.mpr (of_decide_eq_true swappable)⟩

/-- With the only block taken, the swap fails and the channel has no buffer any more. -/
theorem buffer_swap_loses :
    ∃ pool s, BufferPool.setup (some fun _ => 0) (some fun _ => ⟨0,false,Buffer.setup (fun _ => 0) 0⟩)
        (some fun _ => 0) 1 8 = some pool ∧
      Transition.Reachable BufferPool.step BufferPool.Returning (BufferPool.start pool) s ∧
      0 ∈ s.held ∧ (s.pool.tnBuffers 0).buffer.unread = [1,2] ∧
      ∃ done, tcpChannelBufferSwap s.pool ⟨some 0,.header,0⟩ = some done ∧ done.success = false ∧
        done.channel.readBuffer = none ∧ ¬ SwapKeeps s.pool ⟨some 0,.header,0⟩ 0 done := by
  have observed : ((BufferPool.setup (some fun _ => 0) (some fun _ => ⟨0,false,Buffer.setup (fun _ => 0) 0⟩)
      (some fun _ => 0) 1 8).bind fun pool => (Transition.execute BufferPool.step twoBytes
        (BufferPool.start pool)).bind fun s => (tcpChannelBufferSwap s.pool ⟨some 0,.header,0⟩).map fun done =>
          (s.held, (s.pool.tnBuffers 0).buffer.unread, done.success, done.channel.readBuffer)) =
      some ([0],[1,2],false,none) := by
    decide +kernel
  obtain ⟨pool,built,rest⟩ := Option.bind_eq_some_iff.mp observed
  obtain ⟨s,run,rest⟩ := Option.bind_eq_some_iff.mp rest
  obtain ⟨done,swapped,facts⟩ := Option.map_eq_some_iff.mp rest
  obtain ⟨held,unread,failed,lost⟩ := by simpa only [Prod.mk.injEq] using facts
  refine ⟨pool,s,built,twoBytes_returning run,by simp [held],unread,done,swapped,failed,lost,?_⟩
  intro keeps
  have same := congrArg readBuffer (keeps.error failed).1
  rw [lost] at same
  cases same

end Channel

end Tcpeen
