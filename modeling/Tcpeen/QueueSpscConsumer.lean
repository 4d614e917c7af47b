import Tcpeen.ServiceSetup

/-! The consumer's calls of queue_spsc.c as they run while the producer is idle: every way
to take values out of a ring comes to the same. -/
namespace Tcpeen.QueueSpsc

/-- `TN_SUCCESS` and `TN_QUEUE_EMPTY`. -/
inductive Status where
  | success
  | empty
  deriving DecidableEq, Repr

/-- `tn_queue_spsc_count`. -/
def Queue.count (q : Queue V) : Word := q.head - q.tail

/-- What is stored through `out_ptr` is missing where it is `NULL`. -/
def tnQueueSpscPeek (q : Queue V) : Queue V × Status × Option V :=
  if q.head = q.tail then (q, .empty, none)
  else ({ q with tailCache := q.tail }, .success, some (q.buffer (q.slot q.tail)))

def tnQueueSpscPop (q : Queue V) : Queue V × Status :=
  if q.head = q.tail then (q, .empty) else ({ q with tail := q.tail + 1 }, .success)

def tnQueueSpscPopCached (q : Queue V) : Queue V := { q with tail := q.tailCache + 1 }

def tnQueueSpscPopBack (q : Queue V) : Queue V × Status × Option V :=
  if q.head = q.tail then (q, .empty, none)
  else ({ q with tail := q.tail + 1 }, .success, some (q.buffer (q.slot q.tail)))

/-- The array behind `out_ptr` after so many turns of the loop in `tn_queue_spsc_pop_all`. -/
def copyOut (q : Queue V) (out : Nat → V) : Nat → Nat → V
  | 0 => out
  | off + 1 => Function.update (copyOut q out off) off (q.buffer (q.slot (q.tail + BitVec.ofNat 64 off)))

/-- What `tn_queue_spsc_pop_all` leaves: the ring, the array and `*out_count`. -/
structure Batch (V : Type) where
  queue : Queue V
  status : Status
  out : Nat → V
  outCount : Word

def tnQueueSpscPopAll (q : Queue V) (out : Nat → V) (outCount : Word) : Batch V :=
  let size := q.head - q.tail
  if size = 0 then ⟨q, .empty, out, outCount⟩
  else
    let outCount := if size < outCount then size else outCount
    ⟨{ q with tail := q.tail + outCount }, .success, copyOut q out outCount.toNat, outCount⟩

/-- So many calls of `tn_queue_spsc_pop_back` that all succeed, with what they store. -/
def popBacks : Nat → Queue V → Option (Queue V × List V)
  | 0, q => some (q, [])
  | times + 1, q =>
    match tnQueueSpscPopBack q with
    | (q, .success, some value) => (popBacks times q).map fun (q, values) => (q, value :: values)
    | _ => none

/-- What the step by step calls return for the value behind `out_ptr`. -/
def Res.ofValue : Option V → Res V
  | some value => .success [value]
  | none => .empty

/-- Two rings that their users cannot tell apart. -/
structure SameRing (a b : Queue V) : Prop where
  head : a.head = b.head
  tail : a.tail = b.tail
  contents : a.contents = b.contents

section Alone

variable {V : Type} (q : Queue V)

theorem tnQueueSpscPeek_alone :
    callAlone .peek q 3 .entry = ((tnQueueSpscPeek q).1, some (.ofValue (tnQueueSpscPeek q).2.2)) := by
  by_cases drained : q.head = q.tail <;> simp [callAlone,tick,tnQueueSpscPeek,Res.ofValue,drained]

theorem tnQueueSpscPopBack_alone :
    callAlone .popBack q 4 .entry = ((tnQueueSpscPopBack q).1, some (.ofValue (tnQueueSpscPopBack q).2.2)) := by
  by_cases drained : q.head = q.tail <;> simp [callAlone,tick,tnQueueSpscPopBack,Res.ofValue,drained]

theorem tnQueueSpscPop_alone :
    callAlone .pop q 3 .entry =
      ((tnQueueSpscPop q).1, some (if (tnQueueSpscPop q).2 = .success then .success [] else .empty)) := by
  by_cases drained : q.head = q.tail <;> simp [callAlone,tick,tnQueueSpscPop,drained]

theorem tnQueueSpscPopCached_alone :
    callAlone .popCached q 1 .entry = (tnQueueSpscPopCached q, some (.success [])) := rfl

/-- The loop of the batch pop, from a turn on. -/
theorem batch_alone (limit : Word) (out : Nat → V) (count done left : Nat) (whole : done + left = count) :
    callAlone (.popAll limit) q (left + 1) (.batch q.tail count ((List.range done).map (copyOut q out done))) =
      ({ q with tail := q.tail + BitVec.ofNat 64 count },
        some (.success ((List.range count).map (copyOut q out count)))) := by
  induction left generalizing done with
  | zero =>
    obtain rfl : done = count := whole
    simp [callAlone,tick]
  | succ left ih =>
    have more : done < count := by omega
    have stored : (List.range done).map (copyOut q out done) ++
        [q.buffer (q.slot (q.tail + BitVec.ofNat 64 done))] =
          (List.range (done + 1)).map (copyOut q out (done + 1)) := by
      rw [List.range_succ,List.map_append]
      congr 1
      · apply List.map_congr_left
        intro i inside
        simp [copyOut,Nat.ne_of_lt (List.mem_range.mp inside)]
      · simp [copyOut]
    rw [callAlone]
    simp only [tick,List.length_map,List.length_range,if_pos more,stored]
    exact ih (done + 1) (by omega)

theorem tnQueueSpscPopAll_alone (out : Nat → V) (n : Word) :
    let batch := tnQueueSpscPopAll q out n
    callAlone (.popAll n) q (batch.outCount.toNat + 3) .entry = (batch.queue, some
      (if batch.status = .success then .success ((List.range batch.outCount.toNat).map batch.out)
        else .empty)) := by
  intro batch
  change callAlone (.popAll n) q (batch.outCount.toNat + 1 + 1 + 1) .entry = _
  rw [callAlone]
  simp only [tick]
  rw [callAlone]
  simp only [tick,batch]
  by_cases drained : q.head - q.tail = 0
  · simp [tnQueueSpscPopAll,drained]
  · have turns := batch_alone q n out (if q.head - q.tail < n then q.head - q.tail else n).toNat 0 _
      (Nat.zero_add _)
    simp only [tnQueueSpscPopAll,if_neg drained,if_true]
    rw [BitVec.ofNat_toNat,BitVec.setWidth_eq] at turns
    exact turns

end Alone

section Agree

variable {V : Type} {q : Queue V}

theorem batch_size (size limit : Word) :
    (if size < limit then size else limit).toNat = min limit.toNat size.toNat := by
  split
  · next less => exact (Nat.min_eq_right (Nat.le_of_lt (BitVec.lt_def.mp less))).symm
  · next more => exact (Nat.min_eq_left (Nat.le_of_not_lt (mt BitVec.lt_def.mpr more))).symm

theorem copyOut_inside (out : Nat → V) {count i : Nat} (inside : i < count) :
    copyOut q out count i = q.buffer (q.slot (q.tail + BitVec.ofNat 64 i)) := by
  induction count with
  | zero => omega
  | succ count ih =>
    by_cases last : i = count
    · simp [copyOut,last]
    · simp only [copyOut,Function.update_of_ne last]
      exact ih (by omega)

theorem copyOut_outside (out : Nat → V) {count i : Nat} (beyond : count ≤ i) : copyOut q out count i = out i := by
  induction count with
  | zero => rfl
  | succ count ih =>
    have other : i ≠ count := by omega
    simp only [copyOut,Function.update_of_ne other]
    exact ih (by omega)

theorem contents_take {count : Nat} (within : count ≤ q.count.toNat) :
    q.contents.take count =
      (List.range count).map fun i => q.buffer (q.slot (q.tail + BitVec.ofNat 64 i)) := by
  have shorter : count ≤ (q.head - q.tail).toNat := within
  rw [Queue.contents,← List.map_take,List.take_range,Nat.min_eq_left shorter]

theorem index_succ (index : Word) (i : Nat) :
    index + 1 + BitVec.ofNat 64 i = index + BitVec.ofNat 64 (i + 1) := by
  rw [BitVec.ofNat_add,add_assoc,add_comm 1]
  rfl

/-- A pop moves the tail past the first value. -/
theorem contents_popped (filled : q.head ≠ q.tail) :
    q.contents = q.buffer (q.slot q.tail) :: { q with tail := q.tail + 1 }.contents := by
  have some' : q.head - q.tail ≠ 0 := sub_ne_zero.mpr filled
  obtain ⟨rest,count⟩ := Nat.exists_eq_succ_of_ne_zero (toNat_ne_zero some')
  have left : (q.head - (q.tail + 1)).toNat = rest := by
    rw [← sub_sub,toNat_sub_one some',count]
    rfl
  simp only [Queue.contents,count,left,List.range_succ_eq_map,List.map_cons,List.map_map]
  congr 1
  · simp
  · apply List.map_congr_left
    intro i _
    simp only [Function.comp_apply,Queue.slot,index_succ]

theorem count_popped (filled : q.head ≠ q.tail) :
    ({ q with tail := q.tail + 1 } : Queue V).count.toNat + 1 = q.count.toNat := by
  have lengths := congrArg List.length (contents_popped filled)
  simpa [Queue.contents,Queue.count] using lengths.symm

/-- Single pops take the values in order and move nothing but the tail. -/
theorem popBacks_eq {times : Nat} (within : times ≤ q.count.toNat) :
    popBacks times q = some ({ q with tail := q.tail + BitVec.ofNat 64 times }, q.contents.take times) := by
  induction times generalizing q with
  | zero => simp [popBacks]
  | succ times ih =>
    have filled : q.head ≠ q.tail := by
      intro drained
      simp [Queue.count,drained] at within
    have fewer := count_popped filled
    rw [contents_popped filled,List.take_succ_cons]
    simp only [popBacks,tnQueueSpscPopBack,if_neg filled]
    rw [ih (by omega)]
    simp only [Option.map_some,index_succ]

theorem popAll_agrees (n : Word) (out : Nat → V) :
    let batch := tnQueueSpscPopAll q out n
    let times := min n.toNat q.count.toNat
    popBacks times q = some (batch.queue, (List.range times).map batch.out) ∧
      ∀ i, times ≤ i → batch.out i = out i := by
  intro batch times
  have within : times ≤ q.count.toNat := Nat.min_le_right _ _
  rw [popBacks_eq within,contents_take within]
  by_cases drained : q.head - q.tail = 0
  · have none' : times = 0 := by simp [times,Queue.count,drained]
    rw [none']
    simp [batch,tnQueueSpscPopAll,drained]
  · have number : (if q.head - q.tail < n then q.head - q.tail else n).toNat = times := batch_size _ _
    have count : (if q.head - q.tail < n then q.head - q.tail else n) = BitVec.ofNat 64 times := by
      rw [← number,BitVec.ofNat_toNat,BitVec.setWidth_eq]
    simp only [batch,tnQueueSpscPopAll,if_neg drained,number]
    rw [count]
    refine ⟨?_,fun i beyond => copyOut_outside out beyond⟩
    congr 2
    apply List.map_congr_left
    intro i inside
    exact (copyOut_inside out (List.mem_range.mp inside)).symm

/-- A look at the front and a pop, checked or cached, are one `tn_queue_spsc_pop_back`. -/
theorem peek_pop_agrees {q' : Queue V} {out : Option V} (looked : tnQueueSpscPeek q = (q', .success, out)) :
    ∃ final, tnQueueSpscPopBack q = (final, .success, out) ∧ (tnQueueSpscPop q').2 = .success ∧
      SameRing (tnQueueSpscPop q').1 final ∧ SameRing (tnQueueSpscPopCached q') final := by
  by_cases drained : q.head = q.tail
  · simp [tnQueueSpscPeek,drained] at looked
  · simp only [tnQueueSpscPeek,if_neg drained,Prod.mk.injEq,true_and] at looked
    obtain ⟨rfl,rfl⟩ := looked
    refine ⟨{ q with tail := q.tail + 1 },by simp [tnQueueSpscPopBack,drained],?_,?_,⟨rfl,rfl,rfl⟩⟩
    · simp [tnQueueSpscPop,drained]
    · simp only [tnQueueSpscPop,if_neg drained]
      exact ⟨rfl,rfl,rfl⟩

end Agree

/-- Whatever the indices: a batch pop takes what as many single pops take and stores nothing
else; a look and a pop, checked or cached, take what one `tn_queue_spsc_pop_back` takes; and
an empty ring answers every call with `TN_QUEUE_EMPTY`, where `*out_count` is left as it was. -/
theorem consumer_paths_agree (q : Queue V) (n : Word) (out : Nat → V) :
    (let batch := tnQueueSpscPopAll q out n
      let times := min n.toNat q.count.toNat
      popBacks times q = some (batch.queue, (List.range times).map batch.out) ∧
        (∀ i, times ≤ i → batch.out i = out i) ∧
        (0 < q.count.toNat → batch.status = .success ∧ batch.outCount.toNat = times)) ∧
    (∀ q' first, tnQueueSpscPeek q = (q', .success, first) →
      ∃ final, tnQueueSpscPopBack q = (final, .success, first) ∧ (tnQueueSpscPop q').2 = .success ∧
        SameRing (tnQueueSpscPop q').1 final ∧ SameRing (tnQueueSpscPopCached q') final) ∧
    (q.count.toNat = 0 →
      tnQueueSpscPeek q = (q, .empty, none) ∧ tnQueueSpscPop q = (q, .empty) ∧
        tnQueueSpscPopBack q = (q, .empty, none) ∧ tnQueueSpscPopAll q out n = ⟨q, .empty, out, n⟩) := by
  obtain ⟨same,kept⟩ := popAll_agrees (q := q) n out
  refine ⟨⟨same,kept,?_⟩,fun q' first looked => peek_pop_agrees looked,?_⟩
  · intro filled
    have drained : ¬ q.head - q.tail = 0 := by
      intro zero
      simp [Queue.count,zero] at filled
    simp only [tnQueueSpscPopAll,if_neg drained]
    exact ⟨trivial,batch_size _ _⟩
  · intro zero
    have none' : q.head - q.tail = 0 := BitVec.eq_of_toNat_eq zero
    have drained : q.head = q.tail := sub_eq_zero.mp none'
    simp [tnQueueSpscPeek,tnQueueSpscPop,tnQueueSpscPopBack,tnQueueSpscPopAll,drained]

/-- On an empty ring of eight slots a batch pop for one value leaves `*out_count` at one. -/
theorem popAll_empty_count :
    ¬ ∀ (q : Queue Nat) (n : Word) (out : Nat → Nat), 0 < n.toNat →
      (q.head - q.tail).toNat ≤ q.capacity.toNat →
      (tnQueueSpscPopAll q out n).outCount.toNat = min n.toNat q.count.toNat := by
  intro always
  exact absurd (always ⟨8,7,fun _ => 0,9,0,0,0⟩ 1 (fun _ => 0) (by decide) (by decide)) (by decide)

end Tcpeen.QueueSpsc
