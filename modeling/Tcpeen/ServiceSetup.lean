import Tcpeen.Buffer
import Tcpeen.ListPtr
import Tcpeen.QueueSpscSimulation

/-! The sizes of a service and the queues as `tcp_service_setup` fills them. Objects that
travel through queues (events, buffers, write requests) are named by their index. -/
namespace Tcpeen

open QueueSpsc

inductive Thread
  | main | io
  deriving DecidableEq, Repr

/-- The sizes of `tcp_service_setup`, with the queue capacity that its rounding gives. -/
structure Config where
  clientsMax : Nat
  bufferCount : Nat
  maxRead : Nat
  bits : Nat
  small : bits < 64
  rounded : roundCapacity (BitVec.ofNat 64 bufferCount) = BitVec.ofNat 64 (2 ^ bits)
  positive : 0 < bufferCount
  fits : bufferCount ≤ 2 ^ bits
  block : maxRead < sizeHalf

/-- `TN_SERVICE_MAX_CLIENTS`, four buffers a client, `TN_SERVICE_MAX_READ`. -/
def serviceConfig : Config where
  clientsMax := 10000
  bufferCount := 10000 * 4
  maxRead := 65535
  bits := 16
  small := by decide
  rounded := by decide
  positive := by decide
  fits := by decide
  block := by decide

/-- `tcp_channel_list_setup` for the free list; a push that fails ends it with an error. -/
def clientListSetup (data : Nat → Nat) (clientsMax : Nat) : Option (ListPtr Nat) :=
  (List.range clientsMax).foldlM ListPtr.pushBack (ListPtr.setup data clientsMax)

/-- A call made while no other thread is near the queue. -/
def callAlone (op : Op V) (q : Queue V) : Nat → Loc V → Queue V × Option (Res V)
  | 0, _ => (q, none)
  | fuel + 1, loc =>
    match tick op loc q with
    | (q, .running loc) => callAlone op q fuel loc
    | (q, .returned res) => (q, some res)

/-- The loops of the setup functions that push the objects numbered from zero. -/
def fill (q : Queue Nat) (count : Nat) : Option (Queue Nat) :=
  (List.range count).foldlM (fun q i =>
    match callAlone (.push i) q 4 .entry with
    | (q, some (.success _)) => some q
    | _ => none) q

theorem clientListSetup_items (data : Nat → Nat) (clientsMax : Nat) :
    ∃ l, clientListSetup data clientsMax = some l ∧ l.items = List.range clientsMax ∧
      l.capacity = clientsMax := by
  have pushes (count : Nat) (within : count ≤ clientsMax) :
      ∃ l, (List.range count).foldlM ListPtr.pushBack (ListPtr.setup data clientsMax) = some l ∧
        l.items = List.range count ∧ l.capacity = clientsMax := by
    induction count with
    | zero => exact ⟨_,rfl,rfl,rfl⟩
    | succ count ih =>
      obtain ⟨l,built,items,capacity⟩ := ih (by omega)
      obtain ⟨l',pushed⟩ := ListPtr.pushBack_isSome count
        (show l.items.length < l.capacity by rw [items,capacity,List.length_range]; omega)
      obtain ⟨items',capacity'⟩ := ListPtr.pushBack_items pushed
      refine ⟨l',?_,by rw [items',items,List.range_succ],capacity'.trans capacity⟩
      rw [List.range_succ,List.foldlM_append,built]
      simp [pushed]
  exact pushes clientsMax (Nat.le_refl _)

theorem clientListSetup_count {data : Nat → Nat} {clientsMax : Nat} {l : ListPtr Nat}
    (built : clientListSetup data clientsMax = some l) (c : Nat) :
    l.items.count c = if c < clientsMax then 1 else 0 := by
  obtain ⟨l',built',items,-⟩ := clientListSetup_items data clientsMax
  obtain rfl := Option.some.inj (built.symm.trans built')
  rw [items,List.nodup_range.count]
  simp

/-- The memory of the list where it held its own indices before. -/
theorem clientListSetup_id (clientsMax : Nat) :
    clientListSetup id clientsMax = some ⟨id, clientsMax, clientsMax⟩ := by
  have pushes (count : Nat) (within : count ≤ clientsMax) :
      (List.range count).foldlM ListPtr.pushBack (ListPtr.setup id clientsMax) = some ⟨id,clientsMax,count⟩ := by
    induction count with
    | zero => rfl
    | succ count ih =>
      rw [List.range_succ,List.foldlM_append,ih (by omega)]
      have same : Function.update id count count = id := Function.update_eq_self count id
      simp [ListPtr.pushBack,same]
      omega
  exact pushes clientsMax (Nat.le_refl _)

/-- A push with nobody else at work appends, and fails only on a full queue. -/
theorem push_alone {bits : Nat} (small : bits < 64) {q : Queue Nat} {items : List Nat} {peeked : Bool}
    (value : Nat) (r : Represents bits q ⟨items, peeked⟩) (room : items.length < 2 ^ bits) :
    ∃ q', callAlone (.push value) q 4 .entry = (q', some (.success [])) ∧
      Represents bits q' ⟨items ++ [value], peeked⟩ := by
  have notFull : ¬ q.head - q.tail = q.capacity := by
    rw [r.full_iff small]
    exact Nat.ne_of_lt room
  have written := r.write small value room
  refine ⟨_,by simp only [callAlone,tick,if_neg notFull]; rfl,?_⟩
  exact written.append value room (by simp [Queue.slot])

/-- A ring as `tn_queue_spsc_setup` leaves it. -/
theorem setup_represents {bits : Nat} {capacity : Word} {allocation : Nat → Nat} {q : Queue Nat}
    (rounded : roundCapacity capacity = BitVec.ofNat 64 (2 ^ bits))
    (made : setup (some allocation) capacity = some q) : Represents bits q ⟨[], false⟩ := by
  obtain rfl := Option.some.inj made
  exact ⟨by simpa using rounded,by simp [rounded],by simp,by simp,by simp,by simp⟩

/-- What setup leaves in a queue that it fills: the objects in order. -/
theorem setup_fill {bits : Nat} (small : bits < 64) (allocation : Nat → Nat) (capacity : Word)
    (rounded : roundCapacity capacity = BitVec.ofNat 64 (2 ^ bits)) (count : Nat)
    (fits : count ≤ 2 ^ bits) :
    ∃ q q', setup (some allocation) capacity = some q ∧ fill q count = some q' ∧
      Represents bits q' ⟨List.range count, false⟩ := by
  obtain ⟨q,made⟩ : ∃ q, setup (some allocation) capacity = some q := ⟨_,rfl⟩
  have pushes (count : Nat) (within : count ≤ 2 ^ bits) :
      ∃ q', fill q count = some q' ∧ Represents bits q' ⟨List.range count, false⟩ := by
    induction count with
    | zero => exact ⟨_,rfl,setup_represents rounded made⟩
    | succ count ih =>
      obtain ⟨q,built,r⟩ := ih (by omega)
      obtain ⟨q',pushed,r'⟩ := push_alone small count r (by rw [List.length_range]; omega)
      refine ⟨q',?_,by rw [List.range_succ]; exact r'⟩
      simp only [fill] at built ⊢
      rw [List.range_succ,List.foldlM_append,built]
      simp [pushed]
  obtain ⟨q',filled,r⟩ := pushes count fits
  exact ⟨q,q',made,filled,r⟩

/-- The memory of such a queue, where the block held its own indices before. -/
def countedQueue (bits count : Nat) : Queue Nat :=
  ⟨BitVec.ofNat 64 (2 ^ bits), BitVec.ofNat 64 (2 ^ bits) - 1, id,
    (ringBytes (BitVec.ofNat 64 (2 ^ bits))).toNat / 8, BitVec.ofNat 64 count, 0, 0⟩

theorem countedQueue_represents {bits : Nat} (small : bits < 64) {count : Nat} (fits : count ≤ 2 ^ bits) :
    Represents bits (countedQueue bits count) ⟨List.range count, false⟩ := by
  refine ⟨rfl,rfl,by simp [countedQueue],by simpa using fits,?_,by simp⟩
  intro i inside
  have below : i < count := by simpa using inside
  simp only [List.getElem_range,countedQueue]
  rw [slot_offset _ bits small rfl]
  have whole : i % 2 ^ bits = i := Nat.mod_eq_of_lt (Nat.lt_of_lt_of_le below fits)
  simpa using whole

/-- One client instead of ten thousand, with its four buffers and four events. -/
def tinyConfig : Config where
  clientsMax := 1
  bufferCount := 1 * 4
  maxRead := 65535
  bits := 2
  small := by decide
  rounded := by decide
  positive := by decide
  fits := by decide
  block := by decide

end Tcpeen
