import Tcpeen.BufferPool
import Tcpeen.QueueSpscAlone
import Tcpeen.ReceiveOwnership

/-! A second `tcp_service_events_release` of one batch. The batch and its count outlive the
first call, so the second puts everything back again wherever the rings have room. -/
namespace Tcpeen.Receive

open SplitOperation QueueSpsc

/-- What `tcp_service_events_release` reads and writes. -/
structure Batch where
  eventsFree : Queue Nat
  poolRead : BufferPool
  events : Nat → Event
  eventUpdates : List Nat

/-- The buffer that the loop gives back with an event. -/
def Event.readBuffer (evt : Event) : Option Nat :=
  match evt.type, evt.tnBuffer with
  | .clientRead, some b => some b
  | _, _ => none

/-- One turn of the loop. -/
def releaseEvent (batch : Batch) (e : Nat) : Batch :=
  let batch :=
    match (batch.events e).readBuffer with
    | some b => { batch with poolRead := (batch.poolRead.push b).1 }
    | none => batch
  { batch with eventsFree := tnQueueSpscPush batch.eventsFree e }

def tcpServiceEventsRelease (batch : Batch) : Batch := batch.eventUpdates.foldl releaseEvent batch

/-- The batch in a state of the service. The counters of pool_read are not part of it. -/
def batchOf (s : Running) (pool : BufferPool) : Batch where
  eventsFree := s.mem .eventsFree
  poolRead := { pool with tnBuffersFree := s.mem .poolRead }
  events := s.shared.events
  eventUpdates := s.shared.eventUpdates

/-- tn_events_free, pool_read's free queue and the counters are as before the call. -/
structure LeftAlone (batch : Batch) : Prop where
  eventsFree : (tcpServiceEventsRelease batch).eventsFree = batch.eventsFree
  poolRead : (tcpServiceEventsRelease batch).poolRead = batch.poolRead

/-- The batch is empty, or tn_events_free is full, and so is pool_read's free queue if there is
a buffer to give back. -/
def Refused (batch : Batch) : Prop :=
  batch.eventUpdates = [] ∨ Full batch.eventsFree ∧
    ((∀ e ∈ batch.eventUpdates, (batch.events e).readBuffer = none) ∨ Full batch.poolRead.tnBuffersFree)

instance (batch : Batch) : Decidable (Refused batch) := inferInstanceAs (Decidable (_ ∨ _ ∧ _))

section Release

variable {batch : Batch}

theorem pool_push_ring (pool : BufferPool) (b : Nat) :
    (pool.push b).1.tnBuffersFree = tnQueueSpscPush pool.tnBuffersFree b := by
  by_cases full : Full pool.tnBuffersFree
  · simp only [BufferPool.push,tnQueueSpscPush,push_full full]
  · simp only [BufferPool.push,tnQueueSpscPush,push_room full]
    rfl

theorem pool_push_full {pool : BufferPool} (full : Full pool.tnBuffersFree) (b : Nat) : (pool.push b).1 = pool := by
  simp only [BufferPool.push,push_full full]

theorem releaseEvent_free (batch : Batch) (e : Nat) :
    (releaseEvent batch e).eventsFree = tnQueueSpscPush batch.eventsFree e := by
  simp only [releaseEvent]
  split <;> rfl

theorem releaseEvent_events (batch : Batch) (e : Nat) : (releaseEvent batch e).events = batch.events := by
  simp only [releaseEvent]
  split <;> rfl

theorem releaseEvent_none {e : Nat} (given : (batch.events e).readBuffer = none) :
    (releaseEvent batch e).poolRead.tnBuffersFree = batch.poolRead.tnBuffersFree := by
  simp only [releaseEvent,given]

theorem releaseEvent_some {e b : Nat} (given : (batch.events e).readBuffer = some b) :
    (releaseEvent batch e).poolRead.tnBuffersFree = tnQueueSpscPush batch.poolRead.tnBuffersFree b := by
  simp only [releaseEvent,given,pool_push_ring]

theorem release_events (rest : List Nat) (batch : Batch) :
    (rest.foldl releaseEvent batch).eventsFree = rest.foldl tnQueueSpscPush batch.eventsFree ∧
      (rest.foldl releaseEvent batch).events = batch.events := by
  induction rest generalizing batch with
  | nil => exact ⟨rfl,rfl⟩
  | cons e rest ih =>
    obtain ⟨free,events⟩ := ih (releaseEvent batch e)
    rw [List.foldl_cons,List.foldl_cons,free,events]
    exact ⟨by rw [releaseEvent_free],releaseEvent_events batch e⟩

theorem release_pool (rest : List Nat) (batch : Batch) :
    (rest.foldl releaseEvent batch).poolRead =
      (rest.filterMap fun e => (batch.events e).readBuffer).foldl (fun pool b => (pool.push b).1) batch.poolRead := by
  induction rest generalizing batch with
  | nil => rfl
  | cons e rest ih =>
    rw [List.foldl_cons,ih,List.filterMap_cons]
    cases given : (batch.events e).readBuffer with
    | none => simp only [releaseEvent,given]
    | some b => simp only [releaseEvent,given,List.foldl_cons]

theorem pool_pushes_ring (buffers : List Nat) (pool : BufferPool) :
    (buffers.foldl (fun pool b => (pool.push b).1) pool).tnBuffersFree =
      buffers.foldl tnQueueSpscPush pool.tnBuffersFree := by
  induction buffers generalizing pool with
  | nil => rfl
  | cons b rest ih => rw [List.foldl_cons,List.foldl_cons,ih,pool_push_ring]

theorem pool_pushes_same_iff (buffers : List Nat) (pool : BufferPool) :
    buffers.foldl (fun pool b => (pool.push b).1) pool = pool ↔ buffers = [] ∨ Full pool.tnBuffersFree := by
  constructor
  · intro same
    have ring := pool_pushes_ring buffers pool
    rw [same] at ring
    exact (pushes_same_iff buffers).mp ring.symm
  · rintro (rfl | full)
    · rfl
    · induction buffers with
      | nil => rfl
      | cons b rest ih => rw [List.foldl_cons,pool_push_full full,ih]

theorem leftAlone_iff (batch : Batch) : LeftAlone batch ↔ Refused batch := by
  have events := (release_events batch.eventUpdates batch).1
  have pool := release_pool batch.eventUpdates batch
  have none' : (batch.eventUpdates.filterMap fun e => (batch.events e).readBuffer) = [] ↔
      ∀ e ∈ batch.eventUpdates, (batch.events e).readBuffer = none := List.filterMap_eq_nil_iff
  have alone : LeftAlone batch ↔
      (batch.eventUpdates = [] ∨ Full batch.eventsFree) ∧
        ((∀ e ∈ batch.eventUpdates, (batch.events e).readBuffer = none) ∨ Full batch.poolRead.tnBuffersFree) := by
    rw [← pushes_same_iff,← none',← pool_pushes_same_iff,← events,← pool]
    exact ⟨fun left => ⟨left.eventsFree,left.poolRead⟩,fun same => ⟨same.1,same.2⟩⟩
  rw [alone,Refused]
  constructor
  · rintro ⟨empty | full,given⟩
    · exact .inl empty
    · exact .inr ⟨full,given⟩
  · rintro (empty | ⟨full,given⟩)
    · exact ⟨.inl empty,.inl (by simp [empty])⟩
    · exact ⟨.inr full,given⟩

end Release

section Machine

variable {cfg : Config}

/-- Only the main thread moves, inside its call. -/
abbrev Calling (cfg : Config) : Running → Running → Prop :=
  Transition.Reachable (step cfg) fun _ label => label = .tick .main

theorem releaseNext_read {s : State} {e b : Nat} (given : (s.events e).readBuffer = some b) (rest : List Nat) :
    releaseNext s (e :: rest) = (.releasePool e b rest, s) := by
  simp only [Event.readBuffer] at given
  split at given
  · next b' type buffer =>
    cases Option.some.inj given
    simp only [releaseNext,type,buffer]
  · contradiction

theorem releaseNext_other {s : State} {e : Nat} (given : (s.events e).readBuffer = none) (rest : List Nat) :
    releaseNext s (e :: rest) = (.releaseEvent e rest, s) := by
  simp only [Event.readBuffer] at given
  split at given
  · contradiction
  · next other =>
    simp only [releaseNext]

/-- The call of the main thread does what the function does. -/
theorem release_runs (rest : List Nat) (shared : State) (s : Running) (batch : Batch)
    (main : s.pcs .main = (releaseNext shared rest).1) (here : s.shared = (releaseNext shared rest).2)
    (entry : s.loc .main = .entry) (free : s.mem .eventsFree = batch.eventsFree)
    (pool : s.mem .poolRead = batch.poolRead.tnBuffersFree) (events : batch.events = shared.events) :
    ∃ s', Calling cfg s s' ∧ s'.pcs .main = .idle ∧ s'.shared = { shared with acquired := false } ∧
      s'.mem .eventsFree = (rest.foldl releaseEvent batch).eventsFree ∧
      s'.mem .poolRead = (rest.foldl releaseEvent batch).poolRead.tnBuffersFree := by
  induction rest generalizing s batch with
  | nil => exact ⟨s,.start,main,here,free,pool⟩
  | cons e rest ih =>
    have ends {s : Running} {batch' : Batch} (main : s.pcs .main = .releaseEvent e rest)
        (here : s.shared = shared) (entry : s.loc .main = .entry)
        (free : tnQueueSpscPush (s.mem .eventsFree) e = batch'.eventsFree)
        (pool : s.mem .poolRead = batch'.poolRead.tnBuffersFree) (events : batch'.events = shared.events) :
        ∃ s', Calling cfg s s' ∧ s'.pcs .main = .idle ∧ s'.shared = { shared with acquired := false } ∧
          s'.mem .eventsFree = (rest.foldl releaseEvent batch').eventsFree ∧
          s'.mem .poolRead = (rest.foldl releaseEvent batch').poolRead.tnBuffersFree := by
      have asked : (machine cfg).request .main (s.pcs .main) = some (.eventsFree, .push e) := by rw [main]; rfl
      obtain ⟨res,pushed⟩ := push_answer (s.mem .eventsFree) e
      obtain ⟨t,first,pc,sh,rings,at'⟩ := call_runs asked (entry ▸ pushed)
      rw [main,here] at pc sh
      obtain ⟨s',later,done⟩ := ih t batch' pc sh at' (by rw [rings,← free]; simp)
        (by rw [rings,← pool]; simp) events
      exact ⟨s',first.trans later,done⟩
    have same : batch.events e = shared.events e := congrFun events e
    have free' : tnQueueSpscPush (s.mem .eventsFree) e = (releaseEvent batch e).eventsFree := by
      rw [releaseEvent_free,free]
    cases given : (shared.events e).readBuffer with
    | none =>
      rw [releaseNext_other given] at main here
      exact ends main here entry free' (by rw [releaseEvent_none (same ▸ given),pool])
        ((releaseEvent_events batch e).trans events)
    | some b =>
      rw [releaseNext_read given] at main here
      have asked : (machine cfg).request .main (s.pcs .main) = some (.poolRead, .push b) := by rw [main]; rfl
      obtain ⟨res,pushed⟩ := push_answer (s.mem .poolRead) b
      obtain ⟨t,first,pc,sh,rings,at'⟩ := call_runs asked (entry ▸ pushed)
      rw [main,here] at pc sh
      obtain ⟨s',later,done⟩ := ends pc sh at' (by rw [rings]; simpa using free')
        (by rw [rings,releaseEvent_some (same ▸ given),← pool]; simp)
        ((releaseEvent_events batch e).trans events)
      exact ⟨s',first.trans later,done⟩

/-- Wherever the main thread is between its calls, a release of the batch leaves the rings and
the counters alone only where nothing can be put back. -/
theorem release_again {free : ListPtr Nat} {blocks : Nat → Nat → UInt8} {mem : QueueName → Queue Nat}
    {s : Running} (reach : Transition.Reachable (step cfg) (fun _ _ => True) (initial cfg free blocks mem) s)
    (idle : s.pcs .main = .idle) (pool : BufferPool) :
    ∃ called s', step cfg s (.act .release) = some called ∧ Calling cfg called s' ∧ s'.pcs .main = .idle ∧
      s'.mem .eventsFree = (tcpServiceEventsRelease (batchOf s pool)).eventsFree ∧
      s'.mem .poolRead = (tcpServiceEventsRelease (batchOf s pool)).poolRead.tnBuffersFree ∧
      (LeftAlone (batchOf s pool) ↔ Refused (batchOf s pool)) := by
  have entry : s.loc .main = .entry :=
    outside_entry (m := machine cfg) (fun _ _ => rfl) reach .main (by rw [idle]; rfl)
  have called : step cfg s (.act .release) = some
      { s with pcs := Function.update s.pcs .main (releaseNext s.shared s.shared.eventUpdates).1
               shared := (releaseNext s.shared s.shared.eventUpdates).2 } := by
    have quiet : (machine cfg).request .main (s.pcs .main) = none := by rw [idle]; rfl
    simp only [step,splitStep,machine,actor,act] at quiet ⊢
    rw [quiet]
    rfl
  obtain ⟨s',run,done,-,events,ring⟩ := release_runs s.shared.eventUpdates s.shared
    { s with pcs := Function.update s.pcs .main (releaseNext s.shared s.shared.eventUpdates).1
             shared := (releaseNext s.shared s.shared.eventUpdates).2 }
    (batchOf s pool) (by simp) rfl entry rfl rfl rfl
  exact ⟨_,s',called,run,done,events,ring,leftAlone_iff _⟩

end Machine

def servicePool : BufferPool where
  blocksInuse := 0
  bytesInuse := 0
  blockSize := 0
  blockCount := 0
  tnBuffers := fun _ => ⟨0,true,Buffer.setup (fun _ => 0) 0⟩
  tnBuffersFree := serviceStart.mem .poolRead

def betweenBatches (s : Running) : Bool := s.pcs .main = .idle && !s.shared.acquired

/-- A batch without buffers is released. -/
def openedRun : List (SplitLabel Thread Act) :=
  connected ++ .act .acquire :: mainCall 4 ++ .act .release :: mainCall 4

theorem openedRun_refused :
    (Transition.execute (Transition.checked (step serviceConfig) alternating) openedRun serviceStart).map
      (fun s => betweenBatches s && s.shared.eventUpdates = [0] && decide (Refused (batchOf s servicePool))) =
        some true := by decide +kernel

theorem release_again_opened :
    ∃ s, Transition.execute (Transition.checked (step serviceConfig) alternating) openedRun serviceStart = some s ∧
      s.shared.eventUpdates = [0] ∧ ∃ called s', step serviceConfig s (.act .release) = some called ∧
        Calling serviceConfig called s' ∧ s'.mem .eventsFree = s.mem .eventsFree ∧
        s'.mem .poolRead = s.mem .poolRead := by
  obtain ⟨s,run,passed⟩ := Option.map_eq_some_iff.mp openedRun_refused
  simp only [betweenBatches,Bool.and_eq_true,decide_eq_true_eq] at passed
  obtain ⟨⟨⟨idle,-⟩,batch⟩,refused⟩ := passed
  have reach : Transition.Reachable (step serviceConfig) (fun _ _ => True) serviceStart s :=
    .of_checked (fun _ _ _ => trivial) run
  obtain ⟨called,s',taken,ran,-,events,ring,same⟩ := release_again reach idle servicePool
  have left := same.mpr refused
  exact ⟨s,run,batch,called,s',taken,ran,events.trans left.eventsFree,
    ring.trans (congrArg BufferPool.tnBuffersFree left.poolRead)⟩

/-- A batch with a buffer is released. -/
def releasedRun : List (SplitLabel Thread Act) :=
  connected ++ byteRead ++ .act .acquire :: mainCall 5 ++ .act .release :: mainCall 12

/-- The last two entries of a ring are one. -/
def doubled (q : Queue Nat) : Bool := q.buffer (q.slot (q.head - 1)) = q.buffer (q.slot (q.head - 2))

theorem releasedRun_again :
    (Transition.execute (Transition.checked (step serviceConfig) alternating) releasedRun serviceStart).map
      (fun s => betweenBatches s && !decide (Refused (batchOf s servicePool)) &&
        doubled (tcpServiceEventsRelease (batchOf s servicePool)).poolRead.tnBuffersFree) = some true := by
  decide +kernel

/-- The second release of the batch puts its buffer into the free queue once more. -/
theorem release_repeats :
    ∃ s, Transition.execute (Transition.checked (step serviceConfig) alternating) releasedRun serviceStart = some s ∧
      s.pcs .main = .idle ∧ s.shared.acquired = false ∧ (∀ pool, ¬ LeftAlone (batchOf s pool)) ∧
      doubled (tcpServiceEventsRelease (batchOf s servicePool)).poolRead.tnBuffersFree = true := by
  obtain ⟨s,run,passed⟩ := Option.map_eq_some_iff.mp releasedRun_again
  simp only [betweenBatches,Bool.and_eq_true,decide_eq_true_eq,Bool.not_eq_true',decide_eq_false_iff_not] at passed
  obtain ⟨⟨⟨idle,released⟩,again⟩,twice⟩ := passed
  exact ⟨s,run,idle,released,fun _ => (leftAlone_iff _).not.mpr again,twice⟩

end Tcpeen.Receive
