import Tcpeen.Library.Solo
import Tcpeen.QueueSpsc

/-! The ring simulates the abstract queue: each call takes effect at its last step,
the store of an index or the load that finds the queue full or empty. Calls from the
two endpoints may overlap in any way; two calls from one endpoint may not. -/
namespace Tcpeen.QueueSpsc

open SplitOperation

theorem slot_eq (q : Queue V) (bits : Nat) (small : bits < 64)
    (mask : q.mask = BitVec.ofNat 64 (2 ^ bits) - 1) (index : Word) :
    q.slot index = index.toNat % 2 ^ bits := by
  have wide : 2 ^ bits < 2 ^ 64 := Nat.pow_lt_pow_right (by decide) small
  have positive := Nat.two_pow_pos bits
  have maskNat : (BitVec.ofNat 64 (2 ^ bits) - 1).toNat = 2 ^ bits - 1 := by
    rw [BitVec.toNat_sub,BitVec.toNat_ofNat,Nat.mod_eq_of_lt wide]
    simp; omega
  rw [Queue.slot,mask,BitVec.toNat_and,maskNat,Nat.and_two_pow_sub_one_eq_mod]

theorem slot_offset (q : Queue V) (bits : Nat) (small : bits < 64)
    (mask : q.mask = BitVec.ofNat 64 (2 ^ bits) - 1) (index : Word) (i : Nat) :
    q.slot (index + BitVec.ofNat 64 i) = (index.toNat + i) % 2 ^ bits := by
  have divides : 2 ^ bits ∣ 2 ^ 64 := Nat.pow_dvd_pow 2 (by omega)
  rw [slot_eq q bits small mask,BitVec.toNat_add,BitVec.toNat_ofNat,Nat.mod_mod_of_dvd _ divides,
    Nat.add_mod,Nat.mod_mod_of_dvd _ divides,← Nat.add_mod]

/-- Within a window of `capacity` consecutive indices the slots are pairwise distinct,
also where the window wraps past 2^64. -/
theorem slot_injective (q : Queue V) (bits : Nat) (small : bits < 64)
    (mask : q.mask = BitVec.ofNat 64 (2 ^ bits) - 1) (index : Word) (i j : Nat)
    (first : i < 2 ^ bits) (second : j < 2 ^ bits)
    (same : q.slot (index + BitVec.ofNat 64 i) = q.slot (index + BitVec.ofNat 64 j)) : i = j := by
  rw [slot_offset q bits small mask,slot_offset q bits small mask] at same
  have cancelled : i ≡ j [MOD 2 ^ bits] := Nat.ModEq.add_left_cancel' index.toNat same
  exact Nat.ModEq.eq_of_lt_of_lt cancelled first second

/-- The memory of a ring that holds the items of an abstract queue. -/
structure Represents (bits : Nat) (q : Queue V) (f : Fifo V) : Prop where
  capacity : q.capacity = BitVec.ofNat 64 (2 ^ bits)
  mask : q.mask = BitVec.ofNat 64 (2 ^ bits) - 1
  head : q.head = q.tail + BitVec.ofNat 64 f.items.length
  bound : f.items.length ≤ 2 ^ bits
  slots : ∀ i (inside : i < f.items.length),
    q.buffer (q.slot (q.tail + BitVec.ofNat 64 i)) = f.items[i]
  cache : f.peeked = true → q.tailCache = q.tail ∧ f.items ≠ []

section

variable {V : Type} {bits : Nat} {q : Queue V} {f : Fifo V}

theorem Represents.size (small : bits < 64) (r : Represents bits q f) :
    (q.head - q.tail).toNat = f.items.length := by
  have wide : 2 ^ bits < 2 ^ 64 := Nat.pow_lt_pow_right (by decide) small
  rw [r.head,add_sub_cancel_left,BitVec.toNat_ofNat]
  exact Nat.mod_eq_of_lt (Nat.lt_of_le_of_lt r.bound wide)

theorem Represents.contents (small : bits < 64) (r : Represents bits q f) :
    q.contents = f.items := by
  apply List.ext_getElem
  · simp [Queue.contents,r.size small]
  · intro i _ inside
    simpa [Queue.contents] using r.slots i inside

/-- The test for full compares the exact number of items. -/
theorem Represents.full_iff (small : bits < 64) (r : Represents bits q f) :
    q.head - q.tail = q.capacity ↔ f.items.length = 2 ^ bits := by
  have wide : 2 ^ bits < 2 ^ 64 := Nat.pow_lt_pow_right (by decide) small
  rw [← r.size small,r.capacity,← BitVec.toNat_inj,BitVec.toNat_ofNat,Nat.mod_eq_of_lt wide]

theorem Represents.empty_iff (small : bits < 64) (r : Represents bits q f) :
    q.head = q.tail ↔ f.items = [] := by
  rw [← List.length_eq_zero_iff,← r.size small]
  constructor
  · intro same; simp [same]
  · intro zero
    have : q.head - q.tail = 0 := BitVec.eq_of_toNat_eq (by simpa using zero)
    exact sub_eq_zero.mp this

theorem Represents.first (r : Represents bits q f) (nonempty : f.items ≠ []) :
    f.items.head? = some (q.buffer (q.slot q.tail)) := by
  have positive : 0 < f.items.length := List.length_pos_iff.mpr nonempty
  have found := r.slots 0 positive
  rw [show q.tail + BitVec.ofNat 64 0 = q.tail by simp] at found
  rw [found,List.head?_eq_getElem?,List.getElem?_eq_getElem positive]

/-- Removing the first items only moves the tail. -/
theorem Represents.drop (r : Represents bits q f) (count : Nat)
    (inside : count ≤ f.items.length) :
    Represents bits { q with tail := q.tail + BitVec.ofNat 64 count } ⟨f.items.drop count, false⟩ where
  capacity := r.capacity
  mask := r.mask
  head := by
    simp only [List.length_drop,r.head]
    rw [BitVec.add_assoc,← BitVec.ofNat_add]
    congr 2; omega
  bound := by have := r.bound; simp only [List.length_drop]; omega
  slots := by
    intro i inside'
    have inside' : count + i < f.items.length := by simp at inside'; omega
    simp only [List.getElem_drop,← r.slots (count + i) inside',Queue.slot]
    rw [BitVec.add_assoc,← BitVec.ofNat_add]
  cache := by simp

theorem ofNat_one : BitVec.ofNat 64 1 = (1 : Word) := rfl

/-- The store that ends a push publishes the slot written before. -/
theorem Represents.append (r : Represents bits q f) (value : V)
    (room : f.items.length < 2 ^ bits) (written : q.buffer (q.slot q.head) = value) :
    Represents bits { q with head := q.head + 1 } { f with items := f.items ++ [value] } where
  capacity := r.capacity
  mask := r.mask
  head := by
    simp only [List.length_append,List.length_singleton,r.head,BitVec.ofNat_add,ofNat_one]
    rw [BitVec.add_assoc]
  bound := by simp; omega
  slots := by
    intro i inside
    by_cases old : i < f.items.length
    · rw [List.getElem_append_left old]
      exact r.slots i old
    · have last : i = f.items.length := by simp at inside; omega
      subst last
      rw [List.getElem_append_right (by omega)]
      simpa [Queue.slot,r.head] using written
  cache := by
    intro seen
    exact ⟨(r.cache seen).1,by simp⟩

/-- Writing the slot at head touches none of the slots from tail up to head. -/
theorem slot_write_apart (small : bits < 64) (r : Represents bits q f)
    (room : f.items.length < 2 ^ bits) (i : Nat) (inside : i < f.items.length) :
    q.slot (q.tail + BitVec.ofNat 64 i) ≠ q.slot q.head := by
  intro same
  rw [r.head] at same
  have := slot_injective q bits small r.mask q.tail i f.items.length (by omega) room same
  omega

theorem Represents.write (small : bits < 64) (r : Represents bits q f) (value : V)
    (room : f.items.length < 2 ^ bits) :
    Represents bits { q with buffer := Function.update q.buffer (q.slot q.head) value } f where
  capacity := r.capacity
  mask := r.mask
  head := r.head
  bound := r.bound
  slots := by
    intro i inside
    rw [← r.slots i inside]
    exact Function.update_of_ne (slot_write_apart small r room i inside) ..
  cache := r.cache

theorem Represents.peek (r : Represents bits q f) (nonempty : f.items ≠ []) :
    Represents bits { q with tailCache := q.tail } { f with peeked := true } where
  capacity := r.capacity
  mask := r.mask
  head := r.head
  bound := r.bound
  slots := r.slots
  cache := fun _ => ⟨rfl,nonempty⟩

end

def Op.side : Op V → Side
  | .push _ => .producer
  | .count caller => caller
  | _ => .consumer

theorem Op.map_side (f : V → W) (op : Op V) : (op.map f).side = op.side := by
  cases op <;> rfl

/-- What a call that has come to a location knows. The index of its own endpoint is
still the one it loaded; of the other index it keeps only a bound. -/
def Mid (bits : Nat) : Op V → Loc V → Queue V → Fifo V → Prop
  | _, .entry, _, _ => True
  | .push _, .head head, q, _ => head = q.head
  | .push _, .room head, q, f => head = q.head ∧ f.items.length < 2 ^ bits
  | .push value, .filled head, q, f =>
    head = q.head ∧ f.items.length < 2 ^ bits ∧ q.buffer (q.slot head) = value
  | .count .producer, .head head, q, _ => head = q.head
  | .count .consumer, .head head, q, f =>
    ∃ count ≤ f.items.length, head = q.tail + BitVec.ofNat 64 count
  | .peek, .tail tail, q, _ | .pop, .tail tail, q, _ | .popBack, .tail tail, q, _
  | .popAll _, .tail tail, q, _ => tail = q.tail
  | .peek, .item tail, q, f | .pop, .item tail, q, f | .popBack, .item tail, q, f =>
    tail = q.tail ∧ f.items ≠ []
  | .popBack, .taken tail value, q, f => tail = q.tail ∧ f.items.head? = some value
  | .popAll limit, .batch tail count values, q, f =>
    tail = q.tail ∧ 0 < count ∧ count ≤ limit.toNat ∧ count ≤ f.items.length ∧
    values.length ≤ count ∧ values = f.items.take values.length
  | _, _, _, _ => False

/-- Preconditions: a cached pop follows a successful peek, a batch is not empty. -/
def SafeOp : Op V → Fifo V → Prop
  | .popCached, f => f.peeked = true
  | .popAll limit, _ => 0 < limit.toNat
  | _, _ => True

section

variable {V : Type} {bits : Nat} {q q' : Queue V} {f : Fifo V} {other : Op V} {at' : Loc V}

/-- The consumer keeps what it knows while the producer stores slots and the head. -/
theorem Mid.producer_step (known : Mid bits other at' q f) (side : other.side = .consumer)
    (same : q'.tail = q.tail) (values : List V) :
    Mid bits other at' q' { f with items := f.items ++ values } := by
  cases other <;> cases at' <;> simp only [Mid,Op.side,reduceCtorEq] at known side ⊢
  case popAll.batch limit tail count taken =>
    obtain ⟨rfl,positive,limited,inside,short,prefixed⟩ := known
    refine ⟨same.symm,positive,limited,by simp; omega,short,?_⟩
    rw [List.take_append_of_le_length (by omega)]
    exact prefixed
  case count.head caller head =>
    subst side
    obtain ⟨count,inside,rfl⟩ := known
    exact ⟨count,by simp; omega,by rw [same]⟩
  case popBack.taken tail value => exact ⟨same ▸ known.1,by simp [known.2]⟩
  all_goals simp_all

/-- The producer keeps what it knows while the consumer moves the tail. -/
theorem Mid.consumer_step (known : Mid bits other at' q f) (side : other.side = .producer)
    (head : q'.head = q.head) (buffer : q'.buffer = q.buffer) (mask : q'.mask = q.mask)
    {f' : Fifo V} (shrunk : f'.items.length ≤ f.items.length) : Mid bits other at' q' f' := by
  cases other <;> cases at' <;> simp only [Mid,Op.side,reduceCtorEq] at known side ⊢
  case push.head value loaded => rw [known,head]
  case push.room value loaded => exact ⟨known.1.trans head.symm,by omega⟩
  case push.filled value loaded =>
    refine ⟨known.1.trans head.symm,by omega,?_⟩
    simpa only [Queue.slot,buffer,mask] using known.2.2
  case count.head caller loaded =>
    subst side
    exact known.trans head.symm

end

/-- Steps inside a call do not change the abstract queue. -/
theorem tick_running {bits : Nat} (small : bits < 64) {op : Op V} {loc loc' : Loc V}
    {q q' : Queue V} {f : Fifo V} (r : Represents bits q f) (known : Mid bits op loc q f)
    (safe : SafeOp op f) (ticked : tick op loc q = (q', .running loc')) :
    Represents bits q' f ∧ Mid bits op loc' q' f ∧
    ∀ other at', op.side ≠ other.side → Mid bits other at' q f → Mid bits other at' q' f := by
  cases op <;> cases loc <;> simp only [Mid] at known
  case push.entry value =>
    simp only [tick,Prod.mk.injEq,Progress.running.injEq] at ticked
    obtain ⟨rfl,rfl⟩ := ticked
    exact ⟨r,rfl,fun _ _ _ mid => mid⟩
  case push.head value head =>
    simp only [tick] at ticked
    split at ticked
    · simp at ticked
    · next notFull =>
      simp only [Prod.mk.injEq,Progress.running.injEq] at ticked
      obtain ⟨rfl,rfl⟩ := ticked
      subst known
      have := (r.full_iff small).not.mp notFull
      have := r.bound
      exact ⟨r,⟨rfl,by omega⟩,fun _ _ _ mid => mid⟩
  case push.room value head =>
    simp only [tick,Prod.mk.injEq,Progress.running.injEq] at ticked
    obtain ⟨rfl,rfl⟩ := ticked
    obtain ⟨rfl,room⟩ := known
    refine ⟨r.write small value room,⟨rfl,room,by simp [Queue.slot]⟩,?_⟩
    intro other at' apart mid
    have side : other.side = .consumer := by
      cases sides : other.side <;> simp_all [Op.side]
    have kept : Mid bits other at' { q with buffer := Function.update q.buffer (q.slot q.head) value }
        { f with items := f.items ++ [] } := by
      apply mid.producer_step side; rfl
    simpa using kept
  case push.filled value head => simp [tick] at ticked
  case peek.entry | pop.entry | popBack.entry | popAll.entry =>
    simp only [tick,Prod.mk.injEq,Progress.running.injEq] at ticked
    obtain ⟨rfl,rfl⟩ := ticked
    exact ⟨r,rfl,fun _ _ _ mid => mid⟩
  case peek.tail tail | pop.tail tail | popBack.tail tail =>
    simp only [tick] at ticked
    split at ticked
    · simp at ticked
    · next found =>
      simp only [Prod.mk.injEq,Progress.running.injEq] at ticked
      obtain ⟨rfl,rfl⟩ := ticked
      subst known
      exact ⟨r,⟨rfl,(r.empty_iff small).not.mp found⟩,fun _ _ _ mid => mid⟩
  case peek.item | pop.item => simp [tick] at ticked
  case popCached.entry => simp [tick] at ticked
  case popBack.item tail =>
    simp only [tick,Prod.mk.injEq,Progress.running.injEq] at ticked
    obtain ⟨rfl,rfl⟩ := ticked
    obtain ⟨rfl,nonempty⟩ := known
    exact ⟨r,⟨rfl,r.first nonempty⟩,fun _ _ _ mid => mid⟩
  case popBack.taken => simp [tick] at ticked
  case popAll.tail limit tail =>
    simp only [tick] at ticked
    split at ticked
    · simp at ticked
    · next found =>
      simp only [Prod.mk.injEq,Progress.running.injEq] at ticked
      obtain ⟨rfl,rfl⟩ := ticked
      subst known
      have size := r.size small
      have positive : 0 < (q.head - q.tail).toNat := by
        rcases Nat.eq_zero_or_pos (q.head - q.tail).toNat with zero | positive
        · exact absurd (BitVec.eq_of_toNat_eq (by simpa using zero)) found
        · exact positive
      refine ⟨r,⟨rfl,?_,?_,?_,by simp,by simp⟩,fun _ _ _ mid => mid⟩
      all_goals
        split
        · next less => rw [BitVec.lt_def] at less; omega
        · next less => simp only [SafeOp,BitVec.lt_def] at safe less; omega
  case popAll.batch limit tail count values =>
    simp only [tick] at ticked
    split at ticked
    · next more =>
      simp only [Prod.mk.injEq,Progress.running.injEq] at ticked
      obtain ⟨rfl,rfl⟩ := ticked
      obtain ⟨rfl,positive,limited,inside,short,prefixed⟩ := known
      refine ⟨r,⟨rfl,positive,limited,inside,by simp; omega,?_⟩,fun _ _ _ mid => mid⟩
      rw [List.length_append,List.length_singleton,List.take_add_one,← prefixed,
        r.slots values.length (by omega),List.getElem?_eq_getElem (by omega)]
      rfl
    · simp at ticked
  case count.entry caller =>
    simp only [tick,Prod.mk.injEq,Progress.running.injEq] at ticked
    obtain ⟨rfl,rfl⟩ := ticked
    refine ⟨r,?_,fun _ _ _ mid => mid⟩
    cases caller
    · rfl
    · exact ⟨f.items.length,Nat.le_refl _,r.head⟩
  case count.head => simp [tick] at ticked

/-- The last step of a call is the operation of the abstract queue. -/
theorem tick_returned {bits : Nat} (small : bits < 64) {op : Op V} {loc : Loc V}
    {q q' : Queue V} {f : Fifo V} {res : Res V} (r : Represents bits q f)
    (known : Mid bits op loc q f) (safe : SafeOp op f)
    (ticked : tick op loc q = (q', .returned res)) :
    ∃ choice f', Fifo.apply (2 ^ bits) op f choice = some (f', res) ∧ Represents bits q' f' ∧
    ∀ other at', op.side ≠ other.side → Mid bits other at' q f → Mid bits other at' q' f' := by
  have opposite (other : Op V) (mine : op.side = .consumer) (apart : op.side ≠ other.side) :
      other.side = .producer := by cases sides : other.side <;> simp_all
  cases op <;> cases loc <;> simp only [Mid] at known
  case push.entry => simp [tick] at ticked
  case push.room => simp [tick] at ticked
  case push.head value head =>
    simp only [tick] at ticked
    split at ticked
    · next full =>
      simp only [Prod.mk.injEq,Progress.returned.injEq] at ticked
      obtain ⟨rfl,rfl⟩ := ticked
      subst known
      refine ⟨0,f,by simp [Fifo.apply,(r.full_iff small).mp full],r,fun _ _ _ mid => mid⟩
    · simp at ticked
  case push.filled value head =>
    simp only [tick,Prod.mk.injEq,Progress.returned.injEq] at ticked
    obtain ⟨rfl,rfl⟩ := ticked
    obtain ⟨rfl,room,written⟩ := known
    refine ⟨0,{ f with items := f.items ++ [value] },by simp [Fifo.apply,Nat.ne_of_lt room],
      r.append value room written,?_⟩
    intro other at' apart mid
    have side : other.side = .consumer := by
      cases sides : other.side <;> simp_all [Op.side]
    apply mid.producer_step side; rfl
  case peek.entry | pop.entry | popBack.entry | popAll.entry | count.entry | popBack.item =>
    simp [tick] at ticked
  case peek.tail tail | pop.tail tail | popBack.tail tail =>
    simp only [tick] at ticked
    split at ticked
    · next found =>
      simp only [Prod.mk.injEq,Progress.returned.injEq] at ticked
      obtain ⟨rfl,rfl⟩ := ticked
      subst known
      have none := (r.empty_iff small).mp found
      exact ⟨0,f,by simp [Fifo.apply,none],r,fun _ _ _ mid => mid⟩
    · simp at ticked
  case peek.item tail =>
    simp only [tick,Prod.mk.injEq,Progress.returned.injEq] at ticked
    obtain ⟨rfl,rfl⟩ := ticked
    obtain ⟨rfl,nonempty⟩ := known
    have first := r.first nonempty
    obtain ⟨value,rest,items⟩ := List.exists_cons_of_ne_nil nonempty
    refine ⟨0,{ f with peeked := true },?_,r.peek nonempty,?_⟩
    · rw [items] at first
      simp only [List.head?_cons,Option.some.injEq] at first
      simp [Fifo.apply,items,first]
    · intro other at' apart mid
      apply mid.consumer_step (opposite other rfl apart) <;> rfl
  case pop.item tail =>
    simp only [tick,Prod.mk.injEq,Progress.returned.injEq] at ticked
    obtain ⟨rfl,rfl⟩ := ticked
    obtain ⟨rfl,nonempty⟩ := known
    obtain ⟨value,rest,items⟩ := List.exists_cons_of_ne_nil nonempty
    have dropped := r.drop 1 (List.length_pos_iff.mpr nonempty)
    rw [items] at dropped
    refine ⟨0,⟨rest,false⟩,by simp [Fifo.apply,items],dropped,?_⟩
    intro other at' apart mid
    apply mid.consumer_step (opposite other rfl apart) <;> simp [items]
  case popCached.entry =>
    simp only [tick,Prod.mk.injEq,Progress.returned.injEq] at ticked
    obtain ⟨rfl,rfl⟩ := ticked
    obtain ⟨cached,nonempty⟩ := r.cache safe
    have dropped := r.drop 1 (List.length_pos_iff.mpr nonempty)
    rw [List.drop_one] at dropped
    refine ⟨0,⟨f.items.tail,false⟩,by simp [Fifo.apply,show f.peeked = true from safe],?_,?_⟩
    · rw [← cached] at dropped
      exact dropped
    · intro other at' apart mid
      apply mid.consumer_step (opposite other rfl apart) <;> simp
  case popBack.taken tail value =>
    simp only [tick,Prod.mk.injEq,Progress.returned.injEq] at ticked
    obtain ⟨rfl,rfl⟩ := ticked
    obtain ⟨rfl,first⟩ := known
    have nonempty : f.items ≠ [] := by rintro none; simp [none] at first
    obtain ⟨value',rest,items⟩ := List.exists_cons_of_ne_nil nonempty
    have dropped := r.drop 1 (List.length_pos_iff.mpr nonempty)
    rw [items] at dropped first
    cases Option.some.inj first
    refine ⟨0,⟨rest,false⟩,by simp [Fifo.apply,items],dropped,?_⟩
    intro other at' apart mid
    apply mid.consumer_step (opposite other rfl apart) <;> simp [items]
  case popAll.tail limit tail =>
    simp only [tick] at ticked
    split at ticked
    · next found =>
      simp only [Prod.mk.injEq,Progress.returned.injEq] at ticked
      obtain ⟨rfl,rfl⟩ := ticked
      subst known
      have none := (r.empty_iff small).mp (sub_eq_zero.mp found)
      exact ⟨0,f,by simp [Fifo.apply,none],r,fun _ _ _ mid => mid⟩
    · simp at ticked
  case popAll.batch limit tail count values =>
    simp only [tick] at ticked
    split at ticked
    · simp at ticked
    · next done =>
      simp only [Prod.mk.injEq,Progress.returned.injEq] at ticked
      obtain ⟨rfl,rfl⟩ := ticked
      obtain ⟨rfl,positive,limited,inside,short,prefixed⟩ := known
      have all : values.length = count := by omega
      rw [all] at prefixed
      have nonempty : f.items ≠ [] := by rintro none; simp [none] at inside; omega
      refine ⟨count,⟨f.items.drop count,false⟩,?_,r.drop count inside,?_⟩
      · simp [Fifo.apply,nonempty,positive,limited,inside,← prefixed]
      · intro other at' apart mid
        apply mid.consumer_step (opposite other rfl apart) <;> simp
  case count.head caller head =>
    simp only [tick,Prod.mk.injEq,Progress.returned.injEq] at ticked
    obtain ⟨rfl,rfl⟩ := ticked
    cases caller
    · have exact' : head = q.head := known
      refine ⟨0,f,?_,r,fun _ _ _ mid => mid⟩
      simp [Fifo.apply,exact',r.head]
    · obtain ⟨count,inside,rfl⟩ := known
      exact ⟨count,f,by simp [Fifo.apply,inside],r,fun _ _ _ mid => mid⟩

/-- Only the slot at head is ever stored to, and only while the queue is not full. -/
theorem tick_keeps_slots {bits : Nat} (small : bits < 64) {op : Op V} {loc : Loc V} {q : Queue V}
    {f : Fifo V} (r : Represents bits q f) (known : Mid bits op loc q f) (i : Nat)
    (inside : i < f.items.length) :
    (tick op loc q).1.buffer (q.slot (q.tail + BitVec.ofNat 64 i)) =
      q.buffer (q.slot (q.tail + BitVec.ofNat 64 i)) := by
  cases op <;> cases loc
  case push.room value head =>
    obtain ⟨rfl,room⟩ := known
    exact Function.update_of_ne (slot_write_apart small r room i inside) ..
  all_goals
    simp only [tick]
    try split
    all_goals rfl

/-- The ring as an object of the refinement library, one ring for each queue name. -/
def simulation (bits : Q → Nat) (small : ∀ q, bits q < 64) :
    Simulation (object Q V) (spec (V := V) bits) where
  rel := fun q => Represents (bits q)
  mid := fun q => Mid (bits q)
  safe := SafeOp
  compatible := fun op other => op.side ≠ other.side
  mid_entry := by intro q op mem abs; cases op <;> trivial
  running := fun {q} _ _ _ _ _ _ r known safe ticked => tick_running (small q) r known safe ticked
  returned := fun {q} _ _ _ _ _ _ r known safe ticked => tick_returned (small q) r known safe ticked

/-- A block that has every slot of the ring keeps them, whatever is stored behind it. -/
theorem overwrite_stable {V : Type} {bits room : Nat} (small : ∀ _ : Unit, bits < 64) (fits : 2 ^ bits ≤ room) :
    Stable (simulation (V := V) (fun _ => bits) small) (overwrite room) := by
  rintro ⟨⟩ store q q' f stored r
  simp only [overwrite,Option.ite_none_right_eq_some,Option.some.injEq] at stored
  obtain ⟨behind,rfl⟩ := stored
  have apart (index : Word) : q.slot index ≠ store.1 := by
    have inside : q.slot index < 2 ^ bits := by
      rw [slot_eq q bits (small ()) r.mask]
      exact Nat.mod_lt _ (Nat.two_pow_pos bits)
    omega
  have kept (index : Word) : Function.update q.buffer store.1 store.2 (q.slot index) = q.buffer (q.slot index) :=
    Function.update_of_ne (apart index) ..
  refine ⟨⟨r.capacity,r.mask,r.head,r.bound,fun i inside => (kept _).trans (r.slots i inside),r.cache⟩,?_⟩
  intro op loc known
  cases op <;> cases loc
  case push.filled value head => exact ⟨known.1,known.2.1,(kept _).trans known.2.2⟩
  case count.head caller head => cases caller <;> exact known
  all_goals exact known

/-- Two threads, each at an endpoint of its own, on a ring that starts empty: whatever they do is
a run of the abstract queue. -/
theorem ring_refines {V S Act D : Type} {Pc : Side → Type} {bits : Nat} (small : ∀ _ : Unit, bits < 64)
    {disturb : D → Queue V → Option (Queue V)} (stable : Stable (simulation (fun _ => bits) small) disturb)
    (m : Machine Side Pc Unit (Op V) (Res V) S Act)
    (endpoints : ∀ t pc q op, m.request t pc = some (q, op) → op.side = t)
    (guard : Atomic Side Pc Unit (Fifo V) S → AtomicLabel Side Act Nat (Res V) → Prop)
    (acts : ∀ a b, guard a (.act b)) (ops : ∀ a t choice, guard a (.op t choice))
    {start : Split Side Pc Unit (Queue V) (Loc V) S} (quiet : ∀ t, m.request t (start.pcs t) = none)
    (entry : ∀ t, start.loc t = .entry) (empty : Represents bits (start.mem ()) ⟨[], false⟩)
    (safe : ∀ a, Transition.Reachable (atomicStep (spec fun _ => bits) m) guard
      ⟨start.pcs, start.shared, fun _ => ⟨[], false⟩⟩ a → Safe (simulation (fun _ => bits) small) m (fun _ => True) a)
    {s : Split Side Pc Unit (Queue V) (Loc V) S}
    (reach : Transition.Reachable (disturbedStep (object Unit V) m disturb) (fun _ _ => True) start s) :
    ∃ a, Transition.Reachable (atomicStep (spec fun _ => bits) m) guard
        ⟨start.pcs, start.shared, fun _ => ⟨[], false⟩⟩ a ∧
      Related (simulation (fun _ => bits) small) m (fun _ => True) s a := by
  have begun : Related (simulation (fun _ => bits) small) m (fun _ => True) start
      ⟨start.pcs, start.shared, fun _ => ⟨[], false⟩⟩ := by
    refine ⟨rfl,rfl,fun _ _ => empty,?_,fun t _ => entry t⟩
    intro t _ op asked
    rw [quiet t] at asked
    cases asked
  refine disturbed_refines stable guard begun safe ?_ acts ops reach
  rintro s t _ op asked - other op' different asked'
  right
  simpa only [simulation,endpoints t _ _ _ asked,endpoints other _ _ _ asked'] using Ne.symm different

theorem represents_empty {V : Type} {bits : Nat} {q : Queue V} (start cache : Word)
    (capacity : q.capacity = BitVec.ofNat 64 (2 ^ bits)) (mask : q.mask = q.capacity - 1) :
    Represents bits { q with head := start, tail := start, tailCache := cache } ⟨[], false⟩ :=
  ⟨capacity,by rw [← capacity]; exact mask,by simp,by simp,by simp,by simp⟩

/-- How many steps a call has left at most. -/
def rank : Op V → Loc V → Nat
  | .popAll _, .entry => 2 ^ 64 + 2
  | .popAll _, .tail _ => 2 ^ 64 + 1
  | .popAll _, .batch _ count values => count - values.length
  | _, .entry => 4
  | _, .head _ | _, .tail _ => 3
  | _, .room _ | _, .item _ => 2
  | _, .filled _ | _, .taken .. => 1
  | _, .batch .. => 0

theorem tick_ends {bits : Nat} {op : Op V} {loc loc' : Loc V} {q q' : Queue V} {f : Fifo V}
    (known : Mid bits op loc q f) (ticked : tick op loc q = (q', .running loc')) : rank op loc' < rank op loc := by
  cases op <;> cases loc <;> simp only [Mid] at known <;> simp only [tick] at ticked
  case popAll.tail limit tail =>
    split at ticked
    · cases ticked
    · simp only [Prod.mk.injEq,Progress.running.injEq] at ticked
      obtain ⟨-,rfl⟩ := ticked
      have wide := (if q.head - tail < limit then q.head - tail else limit).isLt
      simp only [rank,List.length_nil]
      omega
  case popAll.batch limit tail count values =>
    split at ticked
    · simp only [Prod.mk.injEq,Progress.running.injEq] at ticked
      obtain ⟨-,rfl⟩ := ticked
      simp only [rank,List.length_append,List.length_singleton]
      omega
    · cases ticked
  all_goals
    try split at ticked
    all_goals
      simp only [Prod.mk.injEq,Progress.running.injEq,reduceCtorEq,and_false] at ticked
    all_goals
      obtain ⟨-,rfl⟩ := ticked
      simp [rank]

theorem simulation_ends (bits : Q → Nat) (small : ∀ q, bits q < 64) :
    Ends (simulation bits small : Simulation (object Q V) (spec bits)) rank :=
  fun _ _ _ _ _ _ _ known ticked => tick_ends known ticked

/-- Only a batch pop from a queue with several items leaves a choice. -/
theorem Fifo.apply_determined {capacity choice : Nat} {op : Op V} {f : Fifo V} {r : Fifo V × Res V}
    (single : ∀ limit, op = .popAll limit → f.items.length ≤ 1) (told : ∀ caller, op ≠ .count caller)
    (applied : Fifo.apply capacity op f choice = some r) : Fifo.apply capacity op f 1 = some r := by
  cases op with
  | popAll limit =>
    have few := single limit rfl
    simp only [Fifo.apply] at applied ⊢
    split at applied
    · next none' => rwa [if_pos none']
    · next some' =>
      split at applied
      · next bounds =>
        obtain rfl : choice = 1 := by omega
        rwa [if_neg some',if_pos bounds]
      · contradiction
  | count caller => exact absurd rfl (told caller)
  | _ => exact applied

end Tcpeen.QueueSpsc
