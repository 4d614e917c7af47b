import Tcpeen.BufferPool
import Tcpeen.Library.Transition

/-! fslog.c: the callbacks that open a file and read it, and libuv under them. The reads go to
one buffer of the pool; `history` records what is asked of libuv and what it delivers. -/
namespace Tcpeen.FileLog

open QueueSpsc

inductive FslogState
  | new | starting | started | stopping | stopped | error | invalid
  deriving DecidableEq, Repr

inductive FslogType
  | none | read | write | invalid
  deriving DecidableEq, Repr

/-- `tn_fslog_t` with the results of two requests of its `tn_fslog_priv_t`. -/
structure Fslog where
  pool : BufferPool
  buffer : Option Nat
  state : FslogState
  type : FslogType
  uvFsopenResult : Int
  uvFsreadResult : Int

/-- `uv_fs_read` with its `iov`, a place in a buffer, and `uv_fs_close`. -/
inductive Call
  | uvFsRead (file : Int) (buffer base len : Nat)
  | uvFsClose (file : Int)
  deriving DecidableEq, Repr

/-- The conversion to `uv_file`, an `int`. -/
def uvFile (result : Int) : Int := Int.bmod result (2 ^ 32)

/-- `uv_fs_read` into `tn_buffer_write_ptr`, over `tn_buffer_capacity` bytes. -/
def Fslog.readCall (f : Fslog) (file : Int) (b : Nat) : Call :=
  .uvFsRead (uvFile file) b (f.pool.tnBuffers b).buffer.writePtr f.pool.blockSize.toNat

/-- `on_fslog_open_cb`. -/
def onFslogOpenCb (f : Fslog) : Fslog × List Call :=
  if 0 ≤ f.uvFsopenResult then
    if f.type = .read then
      match f.buffer with
      | some b => (f, [f.readCall f.uvFsopenResult b])
      | none =>
        match f.pool.popBack with
        | (pool, .buffer b) =>
          let f := { f with pool, buffer := some b }
          (f, [f.readCall f.uvFsopenResult b])
        | (pool, _) => ({ f with pool }, [])
    else (f, [])
  else ({ f with state := .error }, [])

/-- `on_fslog_read_cb`; `closed` says that `uv_fs_close` returns 0, and a missing buffer is a
null pointer. -/
def onFslogReadCb (closed : Bool) (f : Fslog) : Option (Fslog × List Call) :=
  if f.uvFsreadResult < 0 then some ({ f with state := .error }, [])
  else if f.uvFsreadResult = 0 then
    some (if closed then f else { f with state := .error }, [.uvFsClose (uvFile f.uvFsopenResult)])
  else
    match f.buffer with
    | some b => some (f, [f.readCall f.uvFsreadResult b])
    | none => none

/-- What a read ends with. -/
inductive ReadResult
  | error (code : Int)
  | data (bytes : List UInt8)
  deriving DecidableEq, Repr

def ReadResult.value : ReadResult → Int
  | .error code => code
  | .data bytes => bytes.length

inductive Event
  | called (call : Call)
  | arrived (base : Nat) (bytes : List UInt8)
  | eof
  deriving DecidableEq, Repr

structure Request where
  file : Int
  buffer : Nat
  base : Nat
  len : Nat
  deriving DecidableEq, Repr

/-- The log and libuv; `opened` says that the open callback has come. The descriptor it brought
stands at `position` in the file. -/
structure World where
  fslog : Fslog
  opened : Bool
  pending : Option Request
  position : Nat
  history : List Event

inductive Label
  | openCb (result : Int) (queued : Bool)
  | readCb (result : ReadResult) (queued closed : Bool)
  deriving DecidableEq, Repr

namespace World

/-- `queued` says that `uv_fs_read` returns 0. -/
def perform (queued : Bool) (w : World) (call : Call) : World :=
  let w := { w with history := w.history ++ [.called call] }
  match call with
  | .uvFsRead file buffer base len => if queued then { w with pending := some ⟨file,buffer,base,len⟩ } else w
  | .uvFsClose _ => w

def run (w : World) (queued : Bool) (r : Fslog × List Call) : World :=
  r.2.foldl (perform queued) { w with fslog := r.1 }

/-- The bytes reach the memory of the buffer, and the descriptor moves on if it is the one that
was read. -/
def deliver (w : World) (request : Request) : ReadResult → World
  | .error _ => w
  | .data [] => { w with history := w.history ++ [.eof] }
  | .data bytes =>
    let buffer := (w.fslog.pool.tnBuffers request.buffer).buffer
    let filled := { buffer with buf := { buffer.buf with mem := store buffer.buf.mem request.base bytes } }
    { w with
      fslog := { w.fslog with pool := w.fslog.pool.setBuffer request.buffer filled }
      position := if request.file = w.fslog.uvFsopenResult then w.position + bytes.length else w.position
      history := w.history ++ [.arrived request.base bytes] }

end World

/-- A read ends with an error, or with no more bytes than asked for. On the descriptor of the
file they are the next ones, and none only at its end; another descriptor may bring anything. -/
def possible (content : List UInt8) (w : World) (request : Request) : ReadResult → Bool
  | .error code => code < 0
  | .data bytes => bytes.length ≤ request.len &&
      (request.file ≠ w.fslog.uvFsopenResult ||
        (bytes.isPrefixOf (content.drop w.position) && (!bytes.isEmpty || (content.drop w.position).isEmpty)))

def step (content : List UInt8) (w : World) : Label → Option World
  | .openCb result queued =>
    if !w.opened && -2 ^ 31 ≤ result && result < 2 ^ 31 then
      let w := { w with opened := true, fslog := { w.fslog with uvFsopenResult := result } }
      some (w.run queued (onFslogOpenCb w.fslog))
    else none
  | .readCb result queued closed =>
    match w.pending with
    | none => none
    | some request =>
      if possible content w request result then
        let w := { w.deliver request result with pending := none }
        let w := { w with fslog := { w.fslog with uvFsreadResult := result.value } }
        (onFslogReadCb closed w.fslog).map (w.run queued)
      else none

/-- `TN_SERVICE_MAX_CLIENTS` and `TN_SERVICE_MAX_READ`. -/
def blockCount : Word := 10000

def blockSize : Word := 65535

/-- A log of type `TN_FSLOG_TYPE_READ` whose thread has set up the pool and called `uv_fs_open`. -/
def initial (pool : BufferPool) : World where
  fslog := ⟨pool, none, .started, .read, 0, 0⟩
  opened := false
  pending := none
  position := 0
  history := []

/-- Of the places that reads go to, none leaves the buffer or touches bytes that have arrived. -/
def Apart (capacity : Nat) : List (Nat × Nat) → List Event → Prop
  | _, [] => True
  | used, .called (.uvFsRead _ _ base len) :: rest =>
    base + len ≤ capacity ∧ (∀ r ∈ used, base + len ≤ r.1 ∨ r.1 + r.2 ≤ base) ∧ Apart capacity used rest
  | used, .arrived base bytes :: rest => Apart capacity ((base, bytes.length) :: used) rest
  | used, _ :: rest => Apart capacity used rest

def Event.bytes : Event → List UInt8
  | .arrived _ bytes => bytes
  | _ => []

/-- The reads and the close are on the descriptor that was opened, the reads go to unused parts of
the buffer, and at the end of the file they have covered it. -/
structure Faithful (content : List UInt8) (w : World) : Prop where
  reads : ∀ file buffer base len, .called (.uvFsRead file buffer base len) ∈ w.history →
    file = w.fslog.uvFsopenResult ∧ w.fslog.buffer = some buffer
  closes : ∀ file, .called (.uvFsClose file) ∈ w.history → file = w.fslog.uvFsopenResult
  unused : ∀ buffer, w.fslog.buffer = some buffer →
    Apart (w.fslog.pool.tnBuffers buffer).buffer.buf.capacity [] w.history
  covered : .eof ∈ w.history → w.history.flatMap Event.bytes = content

/-- No read has brought a byte. -/
def Dry (w : World) : Prop := ∀ base bytes, .arrived base bytes ∉ w.history

/-- A run in which no byte has arrived: before the open callback, in the only read, or at rest. -/
structure Clean (content : List UInt8) (w : World) : Prop where
  faithful : Faithful content w
  dry : Dry w
  place : (w.opened = false ∧ w.pending = none ∧ w.history = [] ∧ w.position = 0 ∧ w.fslog.buffer = none ∧
      w.fslog.type = .read ∧ ∃ bits < 64, BufferPool.Fresh bits blockCount blockSize blockCount.toNat w.fslog.pool) ∨
    (w.opened = true ∧ w.pending = none) ∨
    (w.opened = true ∧ w.position = 0 ∧ uvFile w.fslog.uvFsopenResult = w.fslog.uvFsopenResult ∧
      ∃ b, w.fslog.buffer = some b ∧
      (w.fslog.pool.tnBuffers b).buffer.writePtr = 0 ∧
      w.pending = some ⟨w.fslog.uvFsopenResult,b,0,w.fslog.pool.blockSize.toNat⟩ ∧
      w.history = [.called (.uvFsRead w.fslog.uvFsopenResult b 0 w.fslog.pool.blockSize.toNat)])

/-- Bytes have arrived, and a read has gone where they are. -/
structure Spoiled (w : World) : Prop where
  opened : w.opened = true
  arrived : ∃ base bytes, .arrived base bytes ∈ w.history
  buffer : ∃ b, w.fslog.buffer = some b
  overlap : ∀ capacity, ¬ Apart capacity [] w.history

section Step

variable {content : List UInt8} {w w' : World}

theorem Apart.of_append {capacity : Nat} {used : List (Nat × Nat)} {first later : List Event}
    (apart : Apart capacity used (first ++ later)) : Apart capacity used first := by
  induction first generalizing used with
  | nil => trivial
  | cons e rest ih =>
    cases e with
    | called call =>
      cases call with
      | uvFsRead => exact ⟨apart.1,apart.2.1,ih apart.2.2⟩
      | uvFsClose => exact ih apart
    | arrived => exact ih apart
    | eof => exact ih apart

/-- A read callback adds to the history and keeps the buffer. -/
structure Onward (w w' : World) : Prop where
  opened : w'.opened = w.opened
  buffer : w'.fslog.buffer = w.fslog.buffer
  history : ∃ more, w'.history = w.history ++ more

theorem Onward.trans {w₁ w₂ w₃ : World} (first : Onward w₁ w₂) (second : Onward w₂ w₃) : Onward w₁ w₃ := by
  obtain ⟨more,history⟩ := first.history
  obtain ⟨more',history'⟩ := second.history
  exact ⟨second.opened.trans first.opened,second.buffer.trans first.buffer,more ++ more',by
    rw [history',history,List.append_assoc]⟩

theorem perform_onward (queued : Bool) (w : World) (call : Call) : Onward w (w.perform queued call) := by
  cases call with
  | uvFsRead file buffer base len => cases queued <;> exact ⟨rfl,rfl,_,rfl⟩
  | uvFsClose file => exact ⟨rfl,rfl,_,rfl⟩

theorem performs_onward (queued : Bool) (w : World) (calls : List Call) :
    Onward w (calls.foldl (World.perform queued) w) := by
  induction calls generalizing w with
  | nil => exact ⟨rfl,rfl,[],(List.append_nil _).symm⟩
  | cons call rest ih => exact (perform_onward queued w call).trans (ih _)

theorem deliver_onward (w : World) (request : Request) (result : ReadResult) :
    Onward w (w.deliver request result) := by
  cases result with
  | error code => exact ⟨rfl,rfl,[],(List.append_nil _).symm⟩
  | data bytes => cases bytes <;> exact ⟨rfl,rfl,_,rfl⟩

theorem onFslogReadCb_buffer {closed : Bool} {f f' : Fslog} {calls : List Call}
    (called : onFslogReadCb closed f = some (f', calls)) : f'.buffer = f.buffer := by
  unfold onFslogReadCb at called
  split at called
  · cases called
    rfl
  · split at called
    · cases called
      split <;> rfl
    · split at called
      · cases called
        rfl
      · contradiction

theorem readCb_onward {result : ReadResult} {queued closed : Bool}
    (taken : step content w (.readCb result queued closed) = some w') : Onward w w' := by
  simp only [step] at taken
  split at taken
  · contradiction
  · next request pending =>
    split at taken
    · obtain ⟨⟨f,calls⟩,called,rfl⟩ := Option.map_eq_some_iff.mp taken
      have same := onFslogReadCb_buffer called
      refine (deliver_onward w request result).trans (Onward.trans ?_ (performs_onward queued _ calls))
      exact ⟨rfl,same,[],(List.append_nil _).symm⟩
    · contradiction

theorem Spoiled.step (spoiled : Spoiled w) {label : Label} (taken : step content w label = some w') : Spoiled w' := by
  cases label with
  | openCb result queued => simp [FileLog.step,spoiled.opened] at taken
  | readCb result queued closed =>
    have onward := readCb_onward taken
    obtain ⟨more,history⟩ := onward.history
    obtain ⟨base,bytes,arrived⟩ := spoiled.arrived
    refine ⟨onward.opened.trans spoiled.opened,⟨base,bytes,?_⟩,?_,fun capacity apart => ?_⟩
    · rw [history]
      exact List.mem_append_left _ arrived
    · rw [onward.buffer]
      exact spoiled.buffer
    · rw [history] at apart
      exact spoiled.overlap capacity apart.of_append

theorem uvFile_descriptor {result : Int} (least : -2 ^ 31 ≤ result) (most : result < 2 ^ 31) :
    uvFile result = result := by
  rw [uvFile,Int.bmod_eq_of_le] <;> omega

/-- Nothing has been asked of libuv, and nothing is. -/
theorem Clean.quiet (opened : w.opened = true) (pending : w.pending = none) (history : w.history = []) :
    Clean content w where
  faithful := ⟨by simp [history],by simp [history],fun _ _ => by rw [history]; trivial,by simp [history]⟩
  dry := by simp [Dry,history]
  place := .inr (.inl ⟨opened,pending⟩)

theorem popBack_fresh {bits : Nat} (small : bits < 64) {pool : BufferPool}
    (fresh : BufferPool.Fresh bits blockCount blockSize blockCount.toNat pool) :
    ∃ pool' b, pool.popBack = (pool', .buffer b) ∧ (pool'.tnBuffers b).buffer.writePtr = 0 ∧
      pool'.blockSize = blockSize ∧ (pool'.tnBuffers b).buffer.buf.capacity = blockSize.toNat := by
  have first : List.range blockCount.toNat = 0 :: (List.range 9999).map (· + 1) := List.range_succ_eq_map
  obtain ⟨q,popped,-⟩ := (BufferPool.take_accepted small (first ▸ fresh.represents)).2.2
  have given : pool.popBack =
      (BufferPool.resetBuffer (BufferPool.taken { pool with tnBuffersFree := q }) 0,.buffer 0) := by
    simp only [BufferPool.popBack,popped]
  refine ⟨_,0,given,?_,fresh.blockSize,?_⟩
  · simp [BufferPool.resetBuffer,BufferPool.setBuffer,BufferPool.taken,Buffer.reset,Buffer.writeReset,
      Buffer.readReset,Buffer.writePtr]
  · rw [← fresh.blockSize,← (fresh.laid 0 (by decide)).capacity]
    simp [BufferPool.resetBuffer,BufferPool.setBuffer,BufferPool.taken,Buffer.reset,Buffer.writeReset,
      Buffer.readReset]

/-- The first read goes to the whole of an empty buffer. -/
theorem Clean.reading {f : Fslog} {b : Nat} (buffer : f.buffer = some b)
    (start : (f.pool.tnBuffers b).buffer.writePtr = 0)
    (fits : f.pool.blockSize.toNat ≤ (f.pool.tnBuffers b).buffer.buf.capacity)
    (descriptor : uvFile f.uvFsopenResult = f.uvFsopenResult) (queued : Bool) :
    Clean content (World.perform queued ⟨f,true,none,0,[]⟩
      (.uvFsRead f.uvFsopenResult b 0 f.pool.blockSize.toNat)) := by
  have same : (World.perform queued ⟨f,true,none,0,[]⟩ (.uvFsRead f.uvFsopenResult b 0 f.pool.blockSize.toNat)) =
      ⟨f,true,if queued then some ⟨f.uvFsopenResult,b,0,f.pool.blockSize.toNat⟩ else none,0,
        [.called (.uvFsRead f.uvFsopenResult b 0 f.pool.blockSize.toNat)]⟩ := by
    cases queued <;> rfl
  rw [same]
  refine ⟨⟨?_,by simp,?_,by simp⟩,by simp [Dry],?_⟩
  · intro file buffer' base len member
    simp only [List.mem_singleton,Event.called.injEq,Call.uvFsRead.injEq] at member
    exact ⟨member.1,member.2.1 ▸ buffer⟩
  · intro buffer' given
    obtain rfl := Option.some.inj (buffer.symm.trans given)
    exact ⟨(Nat.zero_add _).trans_le fits,by simp,trivial⟩
  · cases queued with
    | false => exact .inr (.inl ⟨rfl,rfl⟩)
    | true => exact .inr (.inr ⟨rfl,rfl,descriptor,b,buffer,start,rfl,rfl⟩)

theorem Clean.openCb (clean : Clean content w) {result : Int} {queued : Bool}
    (taken : FileLog.step content w (.openCb result queued) = some w') : Clean content w' := by
  simp only [FileLog.step] at taken
  split at taken
  · next allowed =>
    simp only [Bool.and_eq_true,Bool.not_eq_true',decide_eq_true_eq] at allowed
    obtain ⟨⟨closed,least⟩,most⟩ := allowed
    obtain ⟨-,pending,history,position,buffer,type,bits,small,fresh⟩ | ⟨opened,-⟩ | ⟨opened,-⟩ := clean.place
    · cases Option.some.inj taken
      by_cases positive : 0 ≤ result
      · obtain ⟨pool,b,popped,start,size,capacity⟩ := popBack_fresh small fresh
        simp only [onFslogOpenCb,if_pos positive,type,if_true,buffer,popped]
        have first : Clean content _ := Clean.reading
          (f := { w.fslog with pool, buffer := some b, type := .read, uvFsopenResult := result }) rfl start
          (by rw [size,capacity]) (uvFile_descriptor least most) queued
        simpa only [World.run,List.foldl_cons,List.foldl_nil,Fslog.readCall,uvFile_descriptor least most,start,
          pending,position,history] using first
      · simp only [onFslogOpenCb,if_neg positive]
        exact .quiet rfl pending history
    · rw [opened] at closed
      contradiction
    · rw [opened] at closed
      contradiction
  · contradiction

/-- An empty file is read and closed. -/
theorem Clean.ended {f : Fslog} {b : Nat} (buffer : f.buffer = some b)
    (fits : f.pool.blockSize.toNat ≤ (f.pool.tnBuffers b).buffer.buf.capacity) (position : Nat) :
    Clean [] ⟨f,true,none,position,[.called (.uvFsRead f.uvFsopenResult b 0 f.pool.blockSize.toNat),.eof,
      .called (.uvFsClose f.uvFsopenResult)]⟩ := by
  refine ⟨⟨?_,by simp,?_,fun _ => rfl⟩,by simp [Dry],.inr (.inl ⟨rfl,rfl⟩)⟩
  · intro file buffer' base len member
    simp only [List.mem_cons,Event.called.injEq,Call.uvFsRead.injEq,reduceCtorEq,List.not_mem_nil,or_false] at member
    exact ⟨member.1,member.2.1 ▸ buffer⟩
  · intro buffer' given
    obtain rfl := Option.some.inj (buffer.symm.trans given)
    exact ⟨(Nat.zero_add _).trans_le fits,by simp,trivial⟩

/-- A read into the whole of a buffer where bytes have arrived. -/
theorem overlap_reads {file file' : Int} {b b' len len' : Nat} {bytes : List UInt8} (some' : bytes ≠ [])
    (room : 0 < len') (capacity : Nat) :
    ¬ Apart capacity [] [.called (.uvFsRead file b 0 len),.arrived 0 bytes,.called (.uvFsRead file' b' 0 len')] := by
  rintro ⟨-,-,-,apart,-⟩
  have least := List.length_pos_iff.mpr some'
  have := apart (0,bytes.length) (List.mem_singleton_self _)
  omega

theorem onFslogReadCb_error {f : Fslog} {closed : Bool} (negative : f.uvFsreadResult < 0) :
    onFslogReadCb closed f = some ({ f with state := .error }, []) := by
  rw [onFslogReadCb,if_pos negative]

theorem onFslogReadCb_eof {f : Fslog} {closed : Bool} (zero : f.uvFsreadResult = 0) :
    onFslogReadCb closed f =
      some (if closed then f else { f with state := .error }, [.uvFsClose (uvFile f.uvFsopenResult)]) := by
  rw [onFslogReadCb,zero,if_neg (by decide),if_pos rfl]

theorem onFslogReadCb_data {f : Fslog} {closed : Bool} {b : Nat} (positive : 0 < f.uvFsreadResult)
    (buffer : f.buffer = some b) :
    onFslogReadCb closed f = some (f, [f.readCall f.uvFsreadResult b]) := by
  rw [onFslogReadCb,if_neg (by omega),if_neg (by omega)]
  simp only [buffer]

/-- A read has been asked for: the whole of a buffer, from its start. -/
structure Asked (w : World) (b : Nat) : Prop where
  opened : w.opened = true
  buffer : w.fslog.buffer = some b
  start : (w.fslog.pool.tnBuffers b).buffer.writePtr = 0
  pending : w.pending = some ⟨w.fslog.uvFsopenResult,b,0,w.fslog.pool.blockSize.toNat⟩
  history : w.history = [.called (.uvFsRead w.fslog.uvFsopenResult b 0 w.fslog.pool.blockSize.toNat)]

section Asked

variable {b : Nat} {queued closed : Bool}

theorem Clean.readError (clean : Clean content w) (asked : Asked w b) {code : Int}
    (taken : FileLog.step content w (.readCb (.error code) queued closed) = some w') : Clean content w' := by
  simp only [FileLog.step,asked.pending,Option.ite_none_right_eq_some] at taken
  obtain ⟨allowed,taken⟩ := taken
  have negative : code < 0 := by simpa [possible] using allowed
  rw [onFslogReadCb_error negative] at taken
  cases Option.some.inj taken
  exact ⟨⟨clean.faithful.reads,clean.faithful.closes,clean.faithful.unused,clean.faithful.covered⟩,
    clean.dry,.inr (.inl ⟨asked.opened,rfl⟩)⟩

theorem Clean.readEof (clean : Clean content w) (asked : Asked w b) (position : w.position = 0)
    (descriptor : uvFile w.fslog.uvFsopenResult = w.fslog.uvFsopenResult)
    (taken : FileLog.step content w (.readCb (.data []) queued closed) = some w') : Clean content w' := by
  simp only [FileLog.step,asked.pending,Option.ite_none_right_eq_some] at taken
  obtain ⟨allowed,taken⟩ := taken
  have ended : content = [] := by simpa [possible,position] using allowed
  subst ended
  rw [onFslogReadCb_eof rfl] at taken
  cases Option.some.inj taken
  have fits : w.fslog.pool.blockSize.toNat ≤ (w.fslog.pool.tnBuffers b).buffer.buf.capacity := by
    have apart := clean.faithful.unused b asked.buffer
    rw [asked.history] at apart
    exact (Nat.zero_add _).symm.trans_le apart.1
  cases closed with
  | true =>
    simpa [World.run,World.perform,World.deliver,ReadResult.value,asked.history,descriptor,asked.opened] using
      Clean.ended (f := { w.fslog with uvFsreadResult := 0 }) asked.buffer fits w.position
  | false =>
    simpa [World.run,World.perform,World.deliver,ReadResult.value,asked.history,descriptor,asked.opened] using
      Clean.ended (f := { w.fslog with uvFsreadResult := 0, state := .error }) asked.buffer fits w.position

/-- The next read goes where the bytes of this one are. -/
theorem Asked.readData (asked : Asked w b) {byte : UInt8} {rest : List UInt8}
    (taken : FileLog.step content w (.readCb (.data (byte :: rest)) queued closed) = some w') : Spoiled w' := by
  simp only [FileLog.step,asked.pending,Option.ite_none_right_eq_some] at taken
  obtain ⟨allowed,taken⟩ := taken
  have fits : rest.length + 1 ≤ w.fslog.pool.blockSize.toNat := by
    simp only [possible,Bool.and_eq_true,decide_eq_true_eq] at allowed
    exact allowed.1
  rw [onFslogReadCb_data (b := b) (Int.natCast_pos.mpr (Nat.succ_pos _)) (by exact asked.buffer)] at taken
  have ran := Option.some.inj taken
  have written : (w.fslog.pool.tnBuffers b).buffer.buf.len = 0 := asked.start
  have events : w'.history =
      [.called (.uvFsRead w.fslog.uvFsopenResult b 0 w.fslog.pool.blockSize.toNat),.arrived 0 (byte :: rest),
        .called (.uvFsRead (uvFile (rest.length + 1)) b 0 w.fslog.pool.blockSize.toNat)] := by
    rw [← ran]
    cases queued <;> simp [World.run,World.perform,World.deliver,Fslog.readCall,BufferPool.setBuffer,
      Buffer.writePtr,asked.history,ReadResult.value,written]
  refine ⟨?_,⟨0,byte :: rest,by simp [events]⟩,⟨b,?_⟩,?_⟩
  · rw [← ran]
    cases queued <;> exact asked.opened
  · rw [← ran]
    cases queued <;> exact asked.buffer
  · intro capacity
    rw [events]
    exact overlap_reads (List.cons_ne_nil byte rest) (by omega) capacity

end Asked

theorem Clean.readCb (clean : Clean content w) {result : ReadResult} {queued closed : Bool}
    (taken : FileLog.step content w (.readCb result queued closed) = some w') : Clean content w' ∨ Spoiled w' := by
  obtain ⟨-,pending,-⟩ | ⟨-,pending⟩ | ⟨opened,position,descriptor,b,buffer,start,pending,history⟩ := clean.place
  · simp [FileLog.step,pending] at taken
  · simp [FileLog.step,pending] at taken
  · have asked : Asked w b := ⟨opened,buffer,start,pending,history⟩
    cases result with
    | error code => exact .inl (clean.readError asked taken)
    | data bytes =>
      cases bytes with
      | nil => exact .inl (clean.readEof asked position descriptor taken)
      | cons byte rest => exact .inr (asked.readData taken)

end Step

/-- For every file and every order of what libuv delivers: the log is read as it should exactly as
long as no read brings a byte. The read that follows one takes the number of bytes for the
descriptor and goes where the bytes are. -/
theorem reading_exact (content : List UInt8) (allocation : Nat → UInt8) (tnBuffers : Nat → PoolBuffer)
    (ring : Nat → Nat) (pool : BufferPool)
    (built : BufferPool.setup (some allocation) (some tnBuffers) (some ring) blockCount blockSize = some pool)
    (w : World) (reach : Transition.Reachable (step content) (fun _ _ => True) (initial pool) w) :
    Faithful content w ↔ Dry w := by
  obtain ⟨bits,small,-,-,fresh⟩ := BufferPool.setup_fresh (by decide) built
  have reached : Clean content w ∨ Spoiled w := by
    refine reach.invariant (fun w => Clean content w ∨ Spoiled w) (.inl ?_) ?_
    · exact ⟨⟨by simp [initial],by simp [initial],fun _ _ => trivial,by simp [initial]⟩,by simp [Dry,initial],
        .inl ⟨rfl,rfl,rfl,rfl,rfl,rfl,bits,small,fresh⟩⟩
    · rintro w label w' (clean | spoiled) - taken
      · cases label with
        | openCb => exact .inl (clean.openCb taken)
        | readCb => exact clean.readCb taken
      · exact .inr (spoiled.step taken)
  rcases reached with clean | spoiled
  · exact iff_of_true clean.faithful clean.dry
  · obtain ⟨b,buffer⟩ := spoiled.buffer
    obtain ⟨base,bytes,arrived⟩ := spoiled.arrived
    exact iff_of_false (fun faithful => spoiled.overlap _ (faithful.unused b buffer)) fun dry => dry base bytes arrived

section Sample

variable {pool : BufferPool}

/-- The file is opened with descriptor 3 and the first read is on its way. -/
def readingWorld (pool : BufferPool) (b : Nat) : World where
  fslog := ⟨pool,some b,.started,.read,3,0⟩
  opened := true
  pending := some ⟨3,b,0,blockSize.toNat⟩
  position := 0
  history := [.called (.uvFsRead 3 b 0 blockSize.toNat)]

theorem open_reads {bits : Nat} (small : bits < 64)
    (fresh : BufferPool.Fresh bits blockCount blockSize blockCount.toNat pool) (content : List UInt8) :
    ∃ pool' b, (pool'.tnBuffers b).buffer.buf.len = 0 ∧ pool'.blockSize = blockSize ∧
      step content (initial pool) (.openCb 3 true) = some (readingWorld pool' b) := by
  obtain ⟨pool',b,popped,start,size,-⟩ := popBack_fresh small fresh
  have descriptor : uvFile 3 = 3 := by decide
  refine ⟨pool',b,start,size,?_⟩
  simp [step,initial,readingWorld,onFslogOpenCb,popped,World.run,World.perform,Fslog.readCall,start,size,descriptor]

theorem setUp : ∃ pool, BufferPool.setup (some fun _ => 0) (some fun _ => ⟨0,true,Buffer.setup (fun _ => 0) 0⟩)
      (some fun _ => 0) blockCount blockSize = some pool ∧
    BufferPool.Fresh 14 blockCount blockSize blockCount.toNat pool :=
  BufferPool.setup_succeeds (by decide) blockCount (by decide) (by decide) _ _ _ blockSize

/-- An empty file is opened, read and closed. -/
theorem reading_exact_empty : ∃ pool w, Transition.Reachable (step []) (fun _ _ => True) (initial pool) w ∧
    .called (.uvFsClose 3) ∈ w.history ∧ Faithful [] w := by
  obtain ⟨pool,built,fresh⟩ := setUp
  obtain ⟨pool',b,-,-,opened⟩ := open_reads (by decide) fresh []
  have closed : step [] (readingWorld pool' b) (.readCb (.data []) true true) = some
      { readingWorld pool' b with
        pending := none
        history := [.called (.uvFsRead 3 b 0 blockSize.toNat),.eof,.called (.uvFsClose 3)] } := rfl
  have reach : Transition.Reachable (step []) (fun _ _ => True) (initial pool) _ :=
    .step (.step .start trivial opened) trivial closed
  refine ⟨pool,_,reach,by simp,(reading_exact [] _ _ _ pool built _ reach).mpr ?_⟩
  simp [Dry]

/-- The read after the byte of a file is on descriptor 1 and over that byte. -/
theorem reading_misdirected : ∃ pool w b,
    BufferPool.setup (some fun _ => 0) (some fun _ => ⟨0,true,Buffer.setup (fun _ => 0) 0⟩) (some fun _ => 0)
      blockCount blockSize = some pool ∧
    Transition.Reachable (step [7]) (fun _ _ => True) (initial pool) w ∧ w.fslog.uvFsopenResult = 3 ∧
    w.history = [.called (.uvFsRead 3 b 0 65535),.arrived 0 [7],.called (.uvFsRead 1 b 0 65535)] ∧
    ¬ Faithful [7] w := by
  obtain ⟨pool,built,fresh⟩ := setUp
  obtain ⟨pool',b,start,size,opened⟩ := open_reads (by decide) fresh [7]
  have again : ∃ w, step [7] (readingWorld pool' b) (.readCb (.data [7]) true true) = some w ∧
      w.fslog.uvFsopenResult = 3 ∧
      w.history = [.called (.uvFsRead 3 b 0 65535),.arrived 0 [7],.called (.uvFsRead 1 b 0 65535)] := by
    have descriptor : uvFile 1 = 1 := by decide
    refine ⟨_,rfl,rfl,?_⟩
    simp [readingWorld,World.run,World.perform,World.deliver,ReadResult.value,Fslog.readCall,Buffer.writePtr,
      BufferPool.setBuffer,start,size,descriptor]
    decide
  obtain ⟨w,taken,result,history⟩ := again
  refine ⟨pool,w,b,built,.step (.step .start trivial opened) trivial taken,result,history,fun faithful => ?_⟩
  have same := (faithful.reads 1 b 0 65535 (by simp [history])).1
  rw [result] at same
  exact absurd same (by decide)

end Sample

end Tcpeen.FileLog
