import Tcpeen.ServiceSetup

/-! buffer_pool.c: blocks of one allocation, handed out and taken back through a ring of free
buffers. Buffers are named by their index in `tn_buffers`. -/
namespace Tcpeen

open QueueSpsc

/-- A `tn_buffer_t` of a pool: where its block starts in the allocation, and whether its
`pool` pointer is set. -/
structure PoolBuffer where
  offset : Word
  pooled : Bool
  buffer : Buffer

structure BufferPool where
  blocksInuse : Word
  bytesInuse : Word
  blockSize : Word
  blockCount : Word
  tnBuffers : Nat → PoolBuffer
  tnBuffersFree : Queue Nat

namespace BufferPool

/-- What a call returns: an error, `TN_SUCCESS`, or the buffer stored through `out_buffer`. -/
inductive Answer where
  | failure
  | success
  | buffer (index : Nat)
  deriving DecidableEq, Repr

/-- `tn_buffer_setup` of a block; blocks are laid out from the end. -/
def blockBuffer (allocation : Nat → UInt8) (p : BufferPool) (i : Nat) : PoolBuffer :=
  let offset := (p.blockCount - 1 - BitVec.ofNat 64 i) * p.blockSize
  ⟨offset, true, Buffer.setup (fun j => allocation (offset.toNat + j)) p.blockSize.toNat⟩

/-- One turn of the loop in `tn_buffer_pool_setup`. -/
def setupBlock (allocation : Nat → UInt8) (p : BufferPool) (i : Nat) : Option BufferPool :=
  let tnBuffers := Function.update p.tnBuffers i (blockBuffer allocation p i)
  match callAlone (.push i) p.tnBuffersFree 4 .entry with
  | (q, some (.success _)) => some { p with tnBuffers, tnBuffersFree := q }
  | _ => none

/-- `tn_buffer_pool_setup`, with the outcomes of its three allocations. -/
def setup (allocation : Option (Nat → UInt8)) (tnBuffers : Option (Nat → PoolBuffer))
    (ring : Option (Nat → Nat)) (blockCount blockSize : Word) : Option BufferPool := do
  let allocation ← allocation
  let tnBuffers ← tnBuffers
  let tnBuffersFree ← QueueSpsc.setup ring blockCount
  (List.range blockCount.toNat).foldlM (setupBlock allocation)
    { blocksInuse := 0, bytesInuse := 0, blockSize, blockCount, tnBuffers, tnBuffersFree }

/-- The two lines that follow a successful pop, and those that follow a push. -/
def taken (p : BufferPool) : BufferPool :=
  { p with blocksInuse := p.blocksInuse + 1, bytesInuse := p.bytesInuse + p.blockSize }

def returned (p : BufferPool) : BufferPool :=
  { p with blocksInuse := p.blocksInuse - 1, bytesInuse := p.bytesInuse - p.blockSize }

def setBuffer (p : BufferPool) (i : Nat) (buffer : Buffer) : BufferPool :=
  let tnBuffer := { p.tnBuffers i with buffer }
  { p with tnBuffers := Function.update p.tnBuffers i tnBuffer }

/-- `tn_buffer_reset` on a buffer of the pool. -/
def resetBuffer (p : BufferPool) (i : Nat) : BufferPool :=
  p.setBuffer i (p.tnBuffers i).buffer.reset

@[simp] theorem returned_blockCount (p : BufferPool) : p.returned.blockCount = p.blockCount := rfl
@[simp] theorem taken_blockCount (p : BufferPool) : p.taken.blockCount = p.blockCount := rfl
@[simp] theorem resetBuffer_blockCount (p : BufferPool) (i : Nat) :
    (p.resetBuffer i).blockCount = p.blockCount := rfl

def push (p : BufferPool) (i : Nat) : BufferPool × Answer :=
  match callAlone (.push i) p.tnBuffersFree 4 .entry with
  | (q, some (.success _)) => (returned { p with tnBuffersFree := q }, .success)
  | (q, _) => ({ p with tnBuffersFree := q }, .failure)

def peek (p : BufferPool) : BufferPool × Answer :=
  match callAlone .peek p.tnBuffersFree 3 .entry with
  | (q, some (.success [i])) => (resetBuffer { p with tnBuffersFree := q } i, .buffer i)
  | (q, _) => ({ p with tnBuffersFree := q }, .failure)

def pop (p : BufferPool) : BufferPool × Answer :=
  match callAlone .pop p.tnBuffersFree 3 .entry with
  | (q, some (.success _)) => (taken { p with tnBuffersFree := q }, .success)
  | (q, _) => ({ p with tnBuffersFree := q }, .failure)

def popCached (p : BufferPool) : BufferPool × Answer :=
  (taken { p with tnBuffersFree := (callAlone .popCached p.tnBuffersFree 1 .entry).1 }, .success)

def popBack (p : BufferPool) : BufferPool × Answer :=
  match callAlone .popBack p.tnBuffersFree 4 .entry with
  | (q, some (.success [i])) => (resetBuffer (taken { p with tnBuffersFree := q }) i, .buffer i)
  | (q, _) => ({ p with tnBuffersFree := q }, .failure)

/-- `tn_buffer_release`. -/
def release (p : BufferPool) (i : Nat) : BufferPool × Answer :=
  if (p.tnBuffers i).pooled then p.push i else (p, .failure)

/-- Calls on a pool, and what its users do with a buffer's contents in between. -/
inductive Op where
  | push (i : Nat)
  | release (i : Nat)
  | peek
  | pop
  | popCached
  | popBack
  | use (i : Nat) (buffer : Buffer)

/-- A pool with the buffers its users hold. `peeked` says that a peek has succeeded and no
pop has come after it: a cached pop stands only there. -/
structure State where
  pool : BufferPool
  peeked : Bool
  held : List Nat

def start (pool : BufferPool) : State := ⟨pool, false, []⟩

def State.front (s : State) : List Nat := s.pool.tnBuffersFree.contents.take 1

def apply (s : State) : Op → Option (State × Answer)
  | .push i => some (afterPush i (s.pool.push i))
  | .release i => some (afterPush i (s.pool.release i))
  | .peek =>
    let (pool, answer) := s.pool.peek
    some ({ s with pool, peeked := s.peeked || answer ≠ .failure }, answer)
  | .pop => some (afterPop s.pool.pop)
  | .popCached => if s.peeked then some (afterPop s.pool.popCached) else none
  | .popBack => some (afterPop s.pool.popBack)
  | .use i buffer =>
    if buffer.buf.capacity = (s.pool.tnBuffers i).buffer.buf.capacity then
      some ({ s with pool := s.pool.setBuffer i buffer }, .success)
    else none
where
  afterPush (i : Nat) : BufferPool × Answer → State × Answer
    | (pool, .failure) => ({ s with pool }, .failure)
    | (pool, answer) => ({ s with pool, held := s.held.erase i }, answer)
  afterPop : BufferPool × Answer → State × Answer
    | (pool, .failure) => ({ s with pool }, .failure)
    | (pool, answer) => (⟨pool, false, s.held ++ s.front⟩, answer)

def step (s : State) (op : Op) : Option State := (apply s op).map Prod.fst

/-- Buffers are given back only by those who hold them. -/
def Returning (s : State) : Op → Prop
  | .push i | .release i => i ∈ s.held
  | _ => True

section Alone

variable {bits : Nat} {q : Queue Nat} {items : List Nat} {peeked : Bool}

theorem push_refused (small : bits < 64) (r : Represents bits q ⟨items, peeked⟩)
    (full : items.length = 2 ^ bits) (i : Nat) : callAlone (.push i) q 4 .entry = (q, some .full) := by
  have refused := (r.full_iff small).mpr full
  simp [callAlone,tick,refused]

theorem take_refused (small : bits < 64) (r : Represents bits q ⟨[], peeked⟩) :
    callAlone .peek q 3 .entry = (q, some .empty) ∧ callAlone .pop q 3 .entry = (q, some .empty) ∧
      callAlone .popBack q 4 .entry = (q, some .empty) := by
  have empty := (r.empty_iff small).mpr rfl
  simp [callAlone,tick,empty]

theorem take_accepted (small : bits < 64) {i : Nat} (r : Represents bits q ⟨i :: items, peeked⟩) :
    (∃ q', callAlone .peek q 3 .entry = (q', some (.success [i])) ∧
      Represents bits q' ⟨i :: items, true⟩) ∧
    (∃ q', callAlone .pop q 3 .entry = (q', some (.success [])) ∧ Represents bits q' ⟨items, false⟩) ∧
    (∃ q', callAlone .popBack q 4 .entry = (q', some (.success [i])) ∧
      Represents bits q' ⟨items, false⟩) := by
  have filled : ¬ q.head = q.tail := by
    rw [r.empty_iff small]
    simp
  have first : q.buffer (q.slot q.tail) = i := by
    simpa using (r.first (by simp)).symm
  have dropped := r.drop 1 (by simp)
  refine ⟨⟨_,?_,r.peek (by simp)⟩,⟨_,?_,dropped⟩,⟨_,?_,dropped⟩⟩
  all_goals simp [callAlone,tick,filled,first]

theorem popCached_alone (r : Represents bits q ⟨items, true⟩) :
    Represents bits (callAlone .popCached q 1 .entry).1 ⟨items.tail, false⟩ := by
  obtain ⟨cached,filled⟩ := r.cache rfl
  have dropped := r.drop 1 (List.length_pos_iff.mpr filled)
  simpa [callAlone,tick,cached] using dropped

end Alone

/-- A buffer of the pool as setup lays it out; only its contents change later. -/
structure Laid (p : BufferPool) (i : Nat) : Prop where
  offset : (p.tnBuffers i).offset = (p.blockCount - 1 - BitVec.ofNat 64 i) * p.blockSize
  pooled : (p.tnBuffers i).pooled = true
  capacity : (p.tnBuffers i).buffer.buf.capacity = p.blockSize.toNat

/-- A pool with these free buffers in its ring, of which the first `blocks` are laid out. -/
structure Fresh (bits : Nat) (blockCount blockSize : Word) (blocks : Nat) (p : BufferPool) : Prop where
  represents : Represents bits p.tnBuffersFree ⟨List.range blocks, false⟩
  blocksInuse : p.blocksInuse = 0
  bytesInuse : p.bytesInuse = 0
  blockCount : p.blockCount = blockCount
  blockSize : p.blockSize = blockSize
  laid : ∀ i < blocks, Laid p i

theorem Fresh.block {bits : Nat} (small : bits < 64) {blockCount blockSize : Word} {blocks : Nat}
    {p : BufferPool} (fresh : Fresh bits blockCount blockSize blocks p) (room : blocks < 2 ^ bits)
    (allocation : Nat → UInt8) :
    ∃ p', setupBlock allocation p blocks = some p' ∧ Fresh bits blockCount blockSize (blocks + 1) p' := by
  obtain ⟨q,pushed,r⟩ := push_alone small blocks fresh.represents (by simpa using room)
  refine ⟨_,by simp only [setupBlock,pushed]; rfl,?_⟩
  refine ⟨by rw [List.range_succ]; exact r,fresh.blocksInuse,fresh.bytesInuse,fresh.blockCount,
    fresh.blockSize,fun i inside => ?_⟩
  by_cases last : i = blocks
  · subst last
    exact ⟨by simp [blockBuffer],by simp [blockBuffer],by simp [blockBuffer,Buffer.setup]⟩
  · obtain ⟨offset,pooled,capacity⟩ := fresh.laid i (by omega)
    exact ⟨by simpa [last] using offset,by simpa [last] using pooled,by simpa [last] using capacity⟩

/-- The pool before the loop of its setup. -/
def unfilled (tnBuffers : Nat → PoolBuffer) (ring : Nat → Nat) (blockCount blockSize : Word) : BufferPool :=
  let capacity := roundCapacity blockCount
  ⟨0, 0, blockSize, blockCount, tnBuffers, ⟨capacity, capacity - 1, ring, (ringBytes capacity).toNat / 8, 0, 0, 0⟩⟩

theorem setup_loop {bits : Nat} (small : bits < 64) (blockCount : Word)
    (rounded : roundCapacity blockCount = BitVec.ofNat 64 (2 ^ bits)) (allocation : Nat → UInt8)
    (tnBuffers : Nat → PoolBuffer) (ring : Nat → Nat) (blockSize : Word) (count : Nat)
    (within : count ≤ 2 ^ bits) :
    ∃ p, (List.range count).foldlM (setupBlock allocation)
        (unfilled tnBuffers ring blockCount blockSize) = some p ∧
      Fresh bits blockCount blockSize count p := by
  induction count with
  | zero =>
    have made : QueueSpsc.setup (some ring) blockCount =
        some (unfilled tnBuffers ring blockCount blockSize).tnBuffersFree := rfl
    exact ⟨_,rfl,setup_represents rounded made,rfl,rfl,rfl,rfl,by simp⟩
  | succ count ih =>
    obtain ⟨p,done,fresh⟩ := ih (by omega)
    obtain ⟨p',next,fresh'⟩ := fresh.block small (by omega) allocation
    refine ⟨p',?_,fresh'⟩
    rw [List.range_succ,List.foldlM_append,done]
    simp [next]

theorem setup_succeeds {bits : Nat} (small : bits < 64) (blockCount : Word)
    (rounded : roundCapacity blockCount = BitVec.ofNat 64 (2 ^ bits)) (fits : blockCount.toNat ≤ 2 ^ bits)
    (allocation : Nat → UInt8) (tnBuffers : Nat → PoolBuffer) (ring : Nat → Nat) (blockSize : Word) :
    ∃ p, setup (some allocation) (some tnBuffers) (some ring) blockCount blockSize = some p ∧
      Fresh bits blockCount blockSize blockCount.toNat p :=
  setup_loop small blockCount rounded allocation tnBuffers ring blockSize blockCount.toNat fits

/-- The ring of a pool that could be set up has room for all blocks, and is exactly as large
if their number is a power of two. -/
theorem setup_fresh {allocation : Option (Nat → UInt8)} {tnBuffers : Option (Nat → PoolBuffer)}
    {ring : Option (Nat → Nat)} {blockCount blockSize : Word} {p : BufferPool}
    (positive : blockCount ≠ 0)
    (built : setup allocation tnBuffers ring blockCount blockSize = some p) :
    ∃ bits < 64, blockCount.toNat ≤ 2 ^ bits ∧
      (blockCount.toNat = 2 ^ bits ↔ blockCount.toNat.isPowerOfTwo) ∧
      Fresh bits blockCount blockSize blockCount.toNat p := by
  simp only [setup,QueueSpsc.setup,Option.bind_eq_bind,Option.bind_eq_some_iff,
    Option.map_eq_some_iff] at built
  obtain ⟨allocation,-,tnBuffers,-,_,⟨ring,-,rfl⟩,filled⟩ := built
  rcases roundCapacity_cases blockCount positive with ⟨bits,small,rounded,fits,power⟩ | zero
  · obtain ⟨p',done,fresh⟩ :=
      setup_loop small blockCount rounded allocation tnBuffers ring blockSize blockCount.toNat fits
    obtain rfl := Option.some.inj (done.symm.trans filled)
    exact ⟨bits,small,fits,power,fresh⟩
  · obtain ⟨rest,count⟩ := Nat.exists_eq_succ_of_ne_zero (toNat_ne_zero positive)
    rw [count,List.range_succ_eq_map,List.foldlM_cons] at filled
    simp [setupBlock,callAlone,tick,zero] at filled

/-- The ring, the counters and the layout agree on which buffers are free. -/
structure Accounted (bits : Nat) (s : State) (items : List Nat) : Prop where
  represents : Represents bits s.pool.tnBuffersFree ⟨items, s.peeked⟩
  total : s.pool.blocksInuse.toNat + items.length = s.pool.blockCount.toNat
  bytes : s.pool.bytesInuse = s.pool.blocksInuse * s.pool.blockSize
  laid : ∀ i < s.pool.blockCount.toNat, Laid s.pool i

/-- What a call can do to the free buffers, and what it answers. -/
inductive Move (bits : Nat) (s : State) (items : List Nat) : Op → State → List Nat → Answer → Prop
  | full (op : Op) (i : Nat) : op = .push i ∨ op = .release i → items.length = 2 ^ bits →
      Move bits s items op s items .failure
  | foreign (i : Nat) : (s.pool.tnBuffers i).pooled = false →
      Move bits s items (.release i) s items .failure
  | pushed (op : Op) (i : Nat) (q : Queue Nat) : op = .push i ∨ op = .release i →
      items.length < 2 ^ bits → Represents bits q ⟨items ++ [i], s.peeked⟩ →
      Move bits s items op ⟨returned { s.pool with tnBuffersFree := q }, s.peeked, s.held.erase i⟩
        (items ++ [i]) .success
  | empty (op : Op) : op = .peek ∨ op = .pop ∨ op = .popBack → items = [] →
      Move bits s items op s items .failure
  | peeked (i : Nat) (rest : List Nat) (q : Queue Nat) : items = i :: rest →
      Represents bits q ⟨items, true⟩ →
      Move bits s items .peek ⟨resetBuffer { s.pool with tnBuffersFree := q } i, true, s.held⟩
        items (.buffer i)
  | popped (op : Op) (i : Nat) (rest : List Nat) (q : Queue Nat) : op = .pop ∨ op = .popCached →
      items = i :: rest → Represents bits q ⟨rest, false⟩ →
      Move bits s items op ⟨taken { s.pool with tnBuffersFree := q }, false, s.held ++ [i]⟩
        rest .success
  | poppedBack (i : Nat) (rest : List Nat) (q : Queue Nat) : items = i :: rest →
      Represents bits q ⟨rest, false⟩ →
      Move bits s items .popBack
        ⟨resetBuffer (taken { s.pool with tnBuffersFree := q }) i, false, s.held ++ [i]⟩
        rest (.buffer i)
  | used (i : Nat) (buffer : Buffer) :
      buffer.buf.capacity = (s.pool.tnBuffers i).buffer.buf.capacity →
      Move bits s items (.use i buffer) { s with pool := s.pool.setBuffer i buffer } items .success

section Moves

variable {bits : Nat} {s s' : State} {items items' : List Nat} {op : Op} {answer : Answer}

private theorem push_move (small : bits < 64) (accounted : Accounted bits s items) {i : Nat}
    (kind : op = .push i ∨ op = .release i)
    (done : apply.afterPush s i (s.pool.push i) = (s', answer)) :
    ∃ items', Move bits s items op s' items' answer := by
  have r := accounted.represents
  rcases Nat.lt_or_ge items.length (2 ^ bits) with room | full
  · obtain ⟨q,pushed,r'⟩ := push_alone small i r room
    simp only [push,pushed,apply.afterPush,Prod.mk.injEq] at done
    obtain ⟨rfl,rfl⟩ := done
    exact ⟨_,.pushed op i q kind room r'⟩
  · have full : items.length = 2 ^ bits := Nat.le_antisymm r.bound full
    simp only [push,push_refused small r full i,apply.afterPush,Prod.mk.injEq] at done
    obtain ⟨rfl,rfl⟩ := done
    exact ⟨_,.full op i kind full⟩

theorem apply_move (small : bits < 64) (accounted : Accounted bits s items)
    (done : apply s op = some (s', answer)) : ∃ items', Move bits s items op s' items' answer := by
  have r := accounted.represents
  have front : s.front = items.take 1 := by rw [State.front,r.contents small]
  cases op with
  | push i => exact push_move small accounted (.inl rfl) (Option.some.inj done)
  | release i =>
    by_cases pooled : (s.pool.tnBuffers i).pooled = true
    · rw [apply,release,if_pos pooled] at done
      exact push_move small accounted (.inr rfl) (Option.some.inj done)
    · simp only [apply,release,if_neg pooled,apply.afterPush,Option.some.injEq,Prod.mk.injEq] at done
      obtain ⟨rfl,rfl⟩ := done
      exact ⟨_,.foreign i (by simpa using pooled)⟩
  | peek =>
    cases items with
    | nil =>
      simp only [apply,peek,(take_refused small r).1,Option.some.injEq,Prod.mk.injEq] at done
      obtain ⟨rfl,rfl⟩ := done
      refine ⟨[],?_⟩
      simpa using Move.empty .peek (.inl rfl) rfl
    | cons i rest =>
      obtain ⟨q,called,r'⟩ := (take_accepted small r).1
      simp only [apply,peek,called,Option.some.injEq,Prod.mk.injEq] at done
      obtain ⟨rfl,rfl⟩ := done
      refine ⟨i :: rest,?_⟩
      simpa using Move.peeked i rest q rfl r'
  | pop =>
    cases items with
    | nil =>
      simp only [apply,pop,(take_refused small r).2.1,apply.afterPop,Option.some.injEq,
        Prod.mk.injEq] at done
      obtain ⟨rfl,rfl⟩ := done
      exact ⟨_,.empty .pop (.inr (.inl rfl)) rfl⟩
    | cons i rest =>
      obtain ⟨q,called,r'⟩ := (take_accepted small r).2.1
      simp only [apply,pop,called,apply.afterPop,front,Option.some.injEq,Prod.mk.injEq] at done
      obtain ⟨rfl,rfl⟩ := done
      exact ⟨_,.popped .pop i rest q (.inl rfl) rfl r'⟩
  | popCached =>
    simp only [apply,popCached,apply.afterPop,front,Option.ite_none_right_eq_some,Option.some.injEq,
      Prod.mk.injEq] at done
    obtain ⟨peeked,rfl,rfl⟩ := done
    rw [peeked] at r
    obtain ⟨i,rest,rfl⟩ := List.exists_cons_of_ne_nil (r.cache rfl).2
    exact ⟨_,.popped .popCached i rest _ (.inr rfl) rfl (popCached_alone r)⟩
  | popBack =>
    cases items with
    | nil =>
      simp only [apply,popBack,(take_refused small r).2.2,apply.afterPop,Option.some.injEq,
        Prod.mk.injEq] at done
      obtain ⟨rfl,rfl⟩ := done
      exact ⟨_,.empty .popBack (.inr (.inr rfl)) rfl⟩
    | cons i rest =>
      obtain ⟨q,called,r'⟩ := (take_accepted small r).2.2
      simp only [apply,popBack,called,apply.afterPop,front,Option.some.injEq,Prod.mk.injEq] at done
      obtain ⟨rfl,rfl⟩ := done
      exact ⟨_,.poppedBack i rest q rfl r'⟩
  | use i buffer =>
    simp only [apply,Option.ite_none_right_eq_some,Option.some.injEq,Prod.mk.injEq] at done
    obtain ⟨capacity,rfl,rfl⟩ := done
    exact ⟨_,.used i buffer capacity⟩

theorem Laid.setBuffer {p : BufferPool} {i j : Nat} {buffer : Buffer} (laid : Laid p j)
    (capacity : buffer.buf.capacity = (p.tnBuffers i).buffer.buf.capacity) :
    Laid (p.setBuffer i buffer) j := by
  by_cases same : j = i
  · subst same
    exact ⟨by simpa [BufferPool.setBuffer] using laid.offset,
      by simpa [BufferPool.setBuffer] using laid.pooled,
      by simpa [BufferPool.setBuffer] using capacity.trans laid.capacity⟩
  · exact ⟨by simpa [BufferPool.setBuffer,same] using laid.offset,
      by simpa [BufferPool.setBuffer,same] using laid.pooled,
      by simpa [BufferPool.setBuffer,same] using laid.capacity⟩

theorem Laid.taken {p : BufferPool} {i : Nat} {q : Queue Nat} (laid : Laid p i) :
    Laid (BufferPool.taken { p with tnBuffersFree := q }) i :=
  ⟨laid.offset,laid.pooled,laid.capacity⟩

private theorem inuse_succ {p : BufferPool} {rest : Nat}
    (total : p.blocksInuse.toNat + (rest + 1) = p.blockCount.toNat) :
    (p.blocksInuse + 1).toNat + rest = p.blockCount.toNat := by
  have bound := p.blockCount.isLt
  have next : (p.blocksInuse + 1).toNat = p.blocksInuse.toNat + 1 := by
    rw [BitVec.toNat_add]
    exact Nat.mod_eq_of_lt (by simp; omega)
  omega

/-- Every move but a push beyond the number of blocks keeps the account. -/
theorem Accounted.move (accounted : Accounted bits s items)
    (move : Move bits s items op s' items' answer)
    (room : ∀ i, op = .push i ∨ op = .release i → items.length < 2 ^ bits →
      items.length < s.pool.blockCount.toNat) : Accounted bits s' items' := by
  obtain ⟨represents,total,bytes,laid⟩ := accounted
  cases move with
  | full | foreign | empty => exact ⟨represents,total,bytes,laid⟩
  | pushed _ i q kind below r =>
    have inuse := room i kind below
    have positive : s.pool.blocksInuse ≠ 0 := by
      intro zero
      simp [zero] at total
      omega
    refine ⟨r,?_,?_,fun j inside => ⟨(laid j inside).offset,(laid j inside).pooled,
      (laid j inside).capacity⟩⟩
    · simp only [returned,List.length_append,List.length_singleton]
      have fewer := toNat_sub_one positive
      have nonzero := toNat_ne_zero positive
      omega
    · simp only [returned,bytes]
      ring
  | peeked i rest q front r =>
    refine ⟨r,total,bytes,fun j inside => ?_⟩
    have kept : Laid { s.pool with tnBuffersFree := q } j :=
      ⟨(laid j inside).offset,(laid j inside).pooled,(laid j inside).capacity⟩
    exact kept.setBuffer rfl
  | popped _ i rest q kind front r =>
    subst front
    refine ⟨r,inuse_succ total,?_,fun j inside => (laid j inside).taken⟩
    simp only [taken,bytes]
    ring
  | poppedBack i rest q front r =>
    subst front
    refine ⟨r,inuse_succ total,?_,fun j inside => (laid j inside).taken.setBuffer rfl⟩
    simp only [resetBuffer,setBuffer,taken,bytes]
    ring
  | used i buffer capacity => exact ⟨represents,total,bytes,fun j inside => (laid j inside).setBuffer capacity⟩

/-- Each buffer has one place, and the counter knows how many are held. -/
structure Held (s : State) (items : List Nat) : Prop where
  once : ∀ i, items.count i + s.held.count i = if i < s.pool.blockCount.toNat then 1 else 0
  number : s.held.length = s.pool.blocksInuse.toNat

private theorem Held.popped {i : Nat} {rest : List Nat} (held : Held s (i :: rest))
    {pool : BufferPool} (count : pool.blockCount = s.pool.blockCount)
    (before : s.pool.blocksInuse.toNat + (i :: rest).length = s.pool.blockCount.toNat)
    (after : pool.blocksInuse.toNat + rest.length = pool.blockCount.toNat) :
    Held ⟨pool, false, s.held ++ [i]⟩ rest := by
  refine ⟨fun j => ?_,?_⟩
  · have old := held.once j
    simp only [List.count_append,List.count_cons,List.count_nil,count] at old ⊢
    omega
  · have number := held.number
    rw [count] at after
    simp only [List.length_append,List.length_cons,List.length_nil] at before ⊢
    omega

theorem Held.move (accounted : Accounted bits s items) (held : Held s items)
    (moved : Accounted bits s' items') (returning : Returning s op)
    (move : Move bits s items op s' items' answer) : Held s' items' := by
  have before := accounted.total
  have after := moved.total
  cases move with
  | full | foreign | empty | peeked | used => exact ⟨held.once,held.number⟩
  | pushed _ i q kind =>
    have member : i ∈ s.held := by rcases kind with rfl | rfl <;> exact returning
    have shorter := List.length_erase_of_mem member
    have number := held.number
    refine ⟨fun j => ?_,?_⟩
    · have old := held.once j
      have present := List.count_pos_iff.mpr member
      change _ = if j < s.pool.blockCount.toNat then 1 else 0
      simp only [List.count_append,List.count_singleton,List.count_erase]
      by_cases same : i = j
      · subst same
        simp only [beq_self_eq_true,if_true]
        omega
      · simpa [same] using old
    · have positive := List.length_pos_of_mem member
      simp only [returned_blockCount,List.length_append,List.length_singleton] at after
      simp only [shorter]
      omega
  | popped _ i rest q kind front =>
    subst front
    exact held.popped rfl before after
  | poppedBack i rest q front =>
    subst front
    exact held.popped rfl before after

theorem Move.sizes (move : Move bits s items op s' items' answer) :
    s'.pool.blockCount = s.pool.blockCount ∧ s'.pool.blockSize = s.pool.blockSize := by
  cases move <;> exact ⟨rfl,rfl⟩

theorem Fresh.accounted {blockCount blockSize : Word} {p : BufferPool}
    (fresh : Fresh bits blockCount blockSize blockCount.toNat p) :
    Accounted bits (start p) (List.range blockCount.toNat) where
  represents := fresh.represents
  total := by simp [start,fresh.blocksInuse,fresh.blockCount]
  bytes := by simp [start,fresh.blocksInuse,fresh.bytesInuse]
  laid := by
    intro i inside
    exact fresh.laid i (by simpa [start,fresh.blockCount] using inside)

theorem Fresh.held {blockCount blockSize : Word} {p : BufferPool}
    (fresh : Fresh bits blockCount blockSize blockCount.toNat p) :
    Held (start p) (List.range blockCount.toNat) where
  once := by
    intro i
    rw [List.nodup_range.count]
    simp [start,fresh.blockCount]
  number := by simp [start,fresh.blocksInuse]

theorem step_move (small : bits < 64) (accounted : Accounted bits s items)
    (taken : step s op = some s') : ∃ items' answer, Move bits s items op s' items' answer := by
  obtain ⟨⟨_,answer⟩,done,rfl⟩ := Option.map_eq_some_iff.mp taken
  obtain ⟨items',move⟩ := apply_move small accounted done
  exact ⟨items',answer,move⟩

/-- Along runs in which buffers come back from their holders only. -/
theorem reachable_held (small : bits < 64) {blockCount blockSize : Word} {p : BufferPool}
    (fresh : Fresh bits blockCount blockSize blockCount.toNat p)
    (reach : Transition.Reachable step Returning (start p) s) :
    ∃ items, Accounted bits s items ∧ Held s items ∧
      s.pool.blockCount = blockCount ∧ s.pool.blockSize = blockSize := by
  refine reach.invariant (fun s => ∃ items, Accounted bits s items ∧ Held s items ∧
      s.pool.blockCount = blockCount ∧ s.pool.blockSize = blockSize) ?_ ?_
  · exact ⟨_,fresh.accounted,fresh.held,fresh.blockCount,fresh.blockSize⟩
  · rintro s op s' ⟨items,accounted,held,count,size⟩ returning taken
    obtain ⟨items',answer,move⟩ := step_move small accounted taken
    have moved : Accounted bits s' items' := by
      refine accounted.move move fun i kind _ => ?_
      have member : i ∈ s.held := by rcases kind with rfl | rfl <;> exact returning
      have positive := List.length_pos_of_mem member
      have number := held.number
      have total := accounted.total
      omega
    exact ⟨items',moved,held.move accounted moved returning move,
      move.sizes.1.trans count,move.sizes.2.trans size⟩

theorem Laid.offset_toNat {p : BufferPool} {i : Nat} (laid : Laid p i) (inside : i < p.blockCount.toNat)
    (fits : p.blockCount.toNat * p.blockSize.toNat < 2 ^ 64) :
    (p.tnBuffers i).offset.toNat = (p.blockCount.toNat - 1 - i) * p.blockSize.toNat := by
  have bound := p.blockCount.isLt
  have positive : p.blockCount ≠ 0 := by
    intro zero
    simp [zero] at inside
  have index : (p.blockCount - 1 - BitVec.ofNat 64 i).toNat = p.blockCount.toNat - 1 - i := by
    rw [BitVec.toNat_sub,toNat_sub_one positive,BitVec.toNat_ofNat]
    omega
  have small : (p.blockCount.toNat - 1 - i) * p.blockSize.toNat ≤
      p.blockCount.toNat * p.blockSize.toNat := Nat.mul_le_mul_right _ (by omega)
  rw [laid.offset,BitVec.toNat_mul,index]
  exact Nat.mod_eq_of_lt (by omega)

end Moves

/-- Where the buffers of a pool are, and what the next call on it gives. -/
structure Ownership (blockCount blockSize : Nat) (s : State) : Prop where
  once : ∀ i < blockCount, s.pool.tnBuffersFree.contents.count i + s.held.count i = 1
  known : ∀ i, i ∈ s.pool.tnBuffersFree.contents ∨ i ∈ s.held → i < blockCount
  blocks : s.pool.blocksInuse.toNat + s.pool.tnBuffersFree.contents.length = blockCount
  bytes : s.pool.bytesInuse.toNat = s.pool.blocksInuse.toNat * blockSize
  inside : ∀ i < blockCount, (s.pool.tnBuffers i).offset.toNat + blockSize ≤ blockCount * blockSize
  disjoint : ∀ i < blockCount, ∀ j < blockCount, i ≠ j →
    (s.pool.tnBuffers i).offset.toNat + blockSize ≤ (s.pool.tnBuffers j).offset.toNat ∨
    (s.pool.tnBuffers j).offset.toNat + blockSize ≤ (s.pool.tnBuffers i).offset.toNat
  exhausted : ∀ op s' answer, op = .pop ∨ op = .popBack ∨ op = .peek →
    apply s op = some (s', answer) → (answer = .failure ↔ ∀ i < blockCount, i ∈ s.held)
  empty : ∀ op s' i, apply s op = some (s', .buffer i) →
    (s'.pool.tnBuffers i).buffer.length = 0 ∧ (s'.pool.tnBuffers i).buffer.readLength = 0 ∧
    (s'.pool.tnBuffers i).buffer.remaining = blockSize

section Ownership

variable {bits : Nat} {s s' : State} {items items' : List Nat} {op : Op} {answer : Answer}

private theorem blocks_apart {size a b : Nat} (before : a < b) : a * size + size ≤ b * size := by
  calc a * size + size = (a + 1) * size := by ring
    _ ≤ b * size := Nat.mul_le_mul_right _ before

theorem Held.all_iff (held : Held s items) :
    items = [] ↔ ∀ i < s.pool.blockCount.toNat, i ∈ s.held := by
  constructor
  · intro none i inside
    have one := held.once i
    rw [none,if_pos inside] at one
    exact List.count_pos_iff.mp (by simpa using one.ge)
  · intro all
    refine List.eq_nil_iff_forall_not_mem.mpr fun i free => ?_
    have one := held.once i
    have positive := List.count_pos_iff.mpr free
    split at one
    · next inside =>
      have taken := List.count_pos_iff.mpr (all i inside)
      omega
    · omega

/-- A call that hands out a buffer hands out an empty one of the pool's. -/
theorem Move.emptied {i : Nat} (accounted : Accounted bits s items) (held : Held s items)
    (move : Move bits s items op s' items' (.buffer i)) :
    (s'.pool.tnBuffers i).buffer.length = 0 ∧ (s'.pool.tnBuffers i).buffer.readLength = 0 ∧
      (s'.pool.tnBuffers i).buffer.remaining = s.pool.blockSize.toNat := by
  have capacity (front : i ∈ items) :
      (s.pool.tnBuffers i).buffer.buf.capacity = s.pool.blockSize.toNat := by
    have one := held.once i
    have positive := List.count_pos_iff.mpr front
    refine (accounted.laid i ?_).capacity
    by_contra outside
    rw [if_neg outside] at one
    omega
  cases move with
  | peeked _ rest q front =>
    have block := capacity (by simp [front])
    simp [resetBuffer,setBuffer,Buffer.reset,Buffer.writeReset,Buffer.readReset,Buffer.length,
      Buffer.readLength,Buffer.remaining,block]
  | poppedBack _ rest q front =>
    have block := capacity (by simp [front])
    simp [resetBuffer,setBuffer,taken,Buffer.reset,Buffer.writeReset,Buffer.readReset,Buffer.length,
      Buffer.readLength,Buffer.remaining,block]

theorem Move.refused_iff (move : Move bits s items op s' items' answer)
    (kind : op = .pop ∨ op = .popBack ∨ op = .peek) : answer = .failure ↔ items = [] := by
  cases move with
  | full _ i pushing =>
    rcases pushing with rfl | rfl <;> simp at kind
  | pushed _ i q pushing =>
    rcases pushing with rfl | rfl <;> simp at kind
  | foreign => simp at kind
  | used => simp at kind
  | empty _ _ none => simp [none]
  | peeked i rest q front => simp [front]
  | popped _ i rest q _ front => simp [front]
  | poppedBack i rest q front => simp [front]

/-- Buffers that come back only from their holders are in exactly one place each, in blocks of
their own; the counters count them, and pops give empty ones until none is left. -/
theorem pool_ownership (allocation : Option (Nat → UInt8)) (tnBuffers : Option (Nat → PoolBuffer))
    (ring : Option (Nat → Nat)) (blockCount blockSize : Word) (p : BufferPool)
    (positive : blockCount ≠ 0) (fits : blockCount.toNat * blockSize.toNat < 2 ^ 64)
    (built : setup allocation tnBuffers ring blockCount blockSize = some p) (s : State)
    (reach : Transition.Reachable step Returning (start p) s) :
    Ownership blockCount.toNat blockSize.toNat s := by
  obtain ⟨bits,small,-,-,fresh⟩ := setup_fresh positive built
  obtain ⟨items,accounted,held,rfl,rfl⟩ := reachable_held small fresh reach
  have contents : s.pool.tnBuffersFree.contents = items := accounted.represents.contents small
  have offset (i : Nat) (inside : i < s.pool.blockCount.toNat) :=
    (accounted.laid i inside).offset_toNat inside fits
  have total := accounted.total
  refine ⟨?_,?_,?_,?_,?_,?_,?_,?_⟩
  · intro i inside
    rw [contents,held.once,if_pos inside]
  · intro i where'
    by_contra outside
    have none := held.once i
    rw [if_neg outside,← contents] at none
    rcases where' with free | taken
    · have := List.count_pos_iff.mpr free
      omega
    · have := List.count_pos_iff.mpr taken
      omega
  · rw [contents,total]
  · rw [accounted.bytes,BitVec.toNat_mul]
    refine Nat.mod_eq_of_lt (Nat.lt_of_le_of_lt ?_ fits)
    exact Nat.mul_le_mul_right _ (by omega)
  · intro i inside
    rw [offset i inside]
    exact blocks_apart (by omega)
  · intro i insideI j insideJ apart
    rw [offset i insideI,offset j insideJ]
    rcases Nat.lt_or_gt_of_ne apart with before | after
    · exact .inr (blocks_apart (by omega))
    · exact .inl (blocks_apart (by omega))
  · intro op s' answer kind done
    obtain ⟨items',move⟩ := apply_move small accounted done
    rw [move.refused_iff kind,held.all_iff]
  · intro op s' i done
    obtain ⟨items',move⟩ := apply_move small accounted done
    exact move.emptied accounted held

/-- Take a buffer by `pop_back` and one through a peek, and give the first back. -/
def poolRun : List Op := [.popBack,.peek,.popCached,.push 0]

theorem pool_ownership_three :
    ∃ p s, setup (some fun _ => 0) (some fun _ => ⟨0,false,Buffer.setup (fun _ => 0) 0⟩)
        (some fun _ => 0) 3 8 = some p ∧
      Transition.Reachable step Returning (start p) s ∧ s.held = [1] ∧ Ownership 3 8 s := by
  have observed : ((setup (some fun _ => 0) (some fun _ => ⟨0,false,Buffer.setup (fun _ => 0) 0⟩)
      (some fun _ => 0) 3 8).bind fun p => (Transition.execute (Transition.checked step fun s op =>
        match op with
        | .push i | .release i => s.held.contains i
        | _ => true) poolRun (start p)).map State.held) = some [1] := by
    decide +kernel
  obtain ⟨p,built,rest⟩ := Option.bind_eq_some_iff.mp observed
  obtain ⟨s,run,held⟩ := Option.map_eq_some_iff.mp rest
  have reach : Transition.Reachable step Returning (start p) s := by
    refine .of_checked (fun s op test => ?_) run
    cases op with
    | push i | release i => simpa [Returning] using test
    | _ => trivial
  exact ⟨p,s,built,reach,held,
    pool_ownership _ _ _ 3 8 p (by decide) (by decide) built s reach⟩

/-- Giving back more than was taken fails without effect, and the counters stay in range. -/
structure Rejecting (blockCount : Nat) (s : State) : Prop where
  rejected : ∀ op i, op = .push i ∨ op = .release i → s.pool.blocksInuse = 0 →
    apply s op = some (s, .failure)
  blocks : s.pool.blocksInuse.toNat ≤ blockCount
  free : s.pool.tnBuffersFree.contents.length ≤ blockCount

theorem Accounted.rejecting (small : bits < 64) (accounted : Accounted bits s items)
    (exact' : s.pool.blockCount.toNat = 2 ^ bits) : Rejecting s.pool.blockCount.toNat s := by
  have total := accounted.total
  have contents : s.pool.tnBuffersFree.contents = items := accounted.represents.contents small
  refine ⟨?_,by omega,by rw [contents]; omega⟩
  intro op i kind none
  have full : items.length = 2 ^ bits := by
    simp [none] at total
    omega
  have called : ∃ s' answer, apply s op = some (s',answer) := by
    rcases kind with rfl | rfl <;> exact ⟨_,_,rfl⟩
  obtain ⟨s',answer,done⟩ := called
  obtain ⟨items',move⟩ := apply_move small accounted done
  rw [done]
  cases move with
  | full | foreign | empty => rfl
  | pushed _ _ _ _ room => omega
  | popped _ _ _ _ pops => rcases kind with rfl | rfl <;> simp at pops
  | peeked | poppedBack | used => simp at kind

/-- Along any run, as long as the ring has exactly one slot for each block. -/
theorem reachable_accounted (small : bits < 64) {blockCount blockSize : Word} {p : BufferPool}
    (fresh : Fresh bits blockCount blockSize blockCount.toNat p)
    (exact' : blockCount.toNat = 2 ^ bits)
    (reach : Transition.Reachable step (fun _ _ => True) (start p) s) :
    ∃ items, Accounted bits s items ∧ s.pool.blockCount = blockCount := by
  refine reach.invariant (fun s => ∃ items, Accounted bits s items ∧ s.pool.blockCount = blockCount) ?_ ?_
  · exact ⟨_,fresh.accounted,fresh.blockCount⟩
  · rintro s op s' ⟨items,accounted,count⟩ - taken
    obtain ⟨items',answer,move⟩ := step_move small accounted taken
    refine ⟨items',accounted.move move fun _ _ room => ?_,move.sizes.1.trans count⟩
    rw [count,exact']
    exact room

/-- The ring has a slot to spare, so a fresh pool takes a buffer that nobody took. -/
theorem Fresh.overfilled (small : bits < 64) {blockCount blockSize : Word} {p : BufferPool}
    (fresh : Fresh bits blockCount blockSize blockCount.toNat p)
    (spare : blockCount.toNat < 2 ^ bits) : ¬ Rejecting blockCount.toNat (start p) := by
  intro rejecting
  obtain ⟨q,pushed,-⟩ := push_alone small 0 fresh.represents (by simpa using spare)
  have rejected := rejecting.rejected (.push 0) 0 (.inl rfl) fresh.blocksInuse
  simp [apply,start,push,pushed,apply.afterPush] at rejected

/-- Pushes beyond what was taken are rejected throughout exactly for powers of two. -/
theorem over_release_rejected (allocation : Option (Nat → UInt8))
    (tnBuffers : Option (Nat → PoolBuffer)) (ring : Option (Nat → Nat)) (blockCount blockSize : Word)
    (p : BufferPool) (positive : blockCount ≠ 0)
    (built : setup allocation tnBuffers ring blockCount blockSize = some p) :
    (∀ s, Transition.Reachable step (fun _ _ => True) (start p) s → Rejecting blockCount.toNat s) ↔
      blockCount.toNat.isPowerOfTwo := by
  obtain ⟨bits,small,fits,power,fresh⟩ := setup_fresh positive built
  constructor
  · intro always
    by_contra other
    have spare : blockCount.toNat < 2 ^ bits := Nat.lt_of_le_of_ne fits (mt power.mp other)
    exact fresh.overfilled small spare (always _ .start)
  · intro exact' s reach
    obtain ⟨items,accounted,rfl⟩ := reachable_accounted small fresh (power.mpr exact') reach
    exact accounted.rejecting small (power.mpr exact')

/-- The pools of the service: 40000 blocks in a ring of 65536 slots. -/
theorem service_pool_overfilled :
    ¬ ∀ allocation tnBuffers ring blockCount blockSize p, blockCount ≠ 0 →
      setup allocation tnBuffers ring blockCount blockSize = some p →
      ∀ s, Transition.Reachable step (fun _ _ => True) (start p) s → Rejecting blockCount.toNat s := by
  intro always
  have small : (16 : Nat) < 64 := by decide
  obtain ⟨p,built,fresh⟩ := setup_succeeds small 40000 (by decide) (by decide) (fun _ => 0)
    (fun _ => ⟨0,false,Buffer.setup (fun _ => 0) 0⟩) (fun _ => 0) 65535
  exact fresh.overfilled small (by decide) (always _ _ _ 40000 65535 p (by decide) built _ .start)

/-- The pool of the repository's test: 128 blocks of 8 bytes. -/
theorem over_release_rejected_test :
    ∃ p, setup (some fun _ => 0) (some fun _ => ⟨0,false,Buffer.setup (fun _ => 0) 0⟩)
        (some fun _ => 0) 128 8 = some p ∧
      ∀ s, Transition.Reachable step (fun _ _ => True) (start p) s → Rejecting 128 s := by
  have small : (7 : Nat) < 64 := by decide
  obtain ⟨p,built,-⟩ := setup_succeeds small 128 (by decide) (by decide) (fun _ => 0)
    (fun _ => ⟨0,false,Buffer.setup (fun _ => 0) 0⟩) (fun _ => 0) 8
  exact ⟨p,built,(over_release_rejected _ _ _ 128 8 p (by decide) built).mpr ⟨7,by decide⟩⟩

end Ownership

end BufferPool

end Tcpeen
