import Mathlib.Data.BitVec
import Mathlib.Data.Nat.ModEq
import Tcpeen.Library.Smear
import Tcpeen.Library.SplitOperation

/-! The ring of queue_spsc.c. Indices are free-running 64-bit words; every load and
store of an index and every slot access of a call is a step of its own. Non-atomic
locals of a call are kept in `Loc`; `tail_cache` belongs to the consumer. -/
namespace Tcpeen.QueueSpsc

open SplitOperation

abbrev Word := BitVec 64

/-- `room` is history: how many slots the block behind `buffer` has. -/
structure Queue (V : Type) where
  capacity : Word
  mask : Word
  buffer : Nat → V
  room : Nat
  head : Word
  tail : Word
  tailCache : Word

/-- The slot an index falls into: `index & q->mask`. -/
def Queue.slot (q : Queue V) (index : Word) : Nat := (index &&& q.mask).toNat

/-- The shift-and-or sequence of the setup, in 64-bit wrapping arithmetic. -/
def roundCapacity (capacity : Word) : Word :=
  if capacity &&& (capacity - 1) = 0 then capacity
  else
    let c := capacity - 1
    let c := c ||| (c >>> 1)
    let c := c ||| (c >>> 2)
    let c := c ||| (c >>> 4)
    let c := c ||| (c >>> 8)
    let c := c ||| (c >>> 16)
    let c := c ||| (c >>> 32)
    c + 1

theorem toNat_ne_zero {capacity : Word} (positive : capacity ≠ 0) : capacity.toNat ≠ 0 :=
  fun zero => positive (BitVec.eq_of_toNat_eq zero)

theorem toNat_sub_one {capacity : Word} (positive : capacity ≠ 0) :
    (capacity - 1).toNat = capacity.toNat - 1 := by
  have nonzero := toNat_ne_zero positive
  have bound := capacity.isLt
  rw [BitVec.toNat_sub]
  simp
  omega

theorem and_sub_one_iff {capacity : Word} (positive : capacity ≠ 0) :
    capacity &&& (capacity - 1) = 0 ↔ capacity.toNat.isPowerOfTwo := by
  have nonzero := toNat_ne_zero positive
  have before := toNat_sub_one positive
  rw [← Nat.and_sub_one_eq_zero_iff_isPowerOfTwo nonzero,← BitVec.toNat_inj,BitVec.toNat_and,before]
  rfl

theorem sub_one_nonzero {capacity : Word} (other : ¬ capacity &&& (capacity - 1) = 0) :
    (capacity - 1).toNat ≠ 0 := by
  intro zero
  have one : capacity - 1 = 0 := BitVec.eq_of_toNat_eq zero
  rw [one] at other
  simp at other

/-- The smear fills the bits below the highest one of the capacity less one. -/
theorem roundCapacity_other {capacity : Word} (other : ¬ capacity &&& (capacity - 1) = 0) :
    roundCapacity capacity = BitVec.ofNat 64 (2 ^ ((capacity - 1).toNat.log2 + 1)) := by
  have nonzero := sub_one_nonzero other
  have smeared := (Smear.start nonzero).double.double.double.double.double.double
  have top : (capacity - 1).toNat.log2 < 64 := by
    rw [Nat.log2_lt nonzero]
    exact (capacity - 1).isLt
  rw [roundCapacity,if_neg other]
  exact smeared.succ top

/-- The smallest power of two that is not below the capacity, or zero where that is 2^64. -/
theorem roundCapacity_cases (capacity : Word) (positive : capacity ≠ 0) :
    (∃ bits < 64, roundCapacity capacity = BitVec.ofNat 64 (2 ^ bits) ∧ capacity.toNat ≤ 2 ^ bits ∧
      (capacity.toNat = 2 ^ bits ↔ capacity.toNat.isPowerOfTwo)) ∨ roundCapacity capacity = 0 := by
  have bound := capacity.isLt
  by_cases power : capacity &&& (capacity - 1) = 0
  · obtain ⟨bits,equal⟩ := (and_sub_one_iff positive).mp power
    rw [show roundCapacity capacity = capacity from if_pos power]
    refine .inl ⟨bits,?_,?_,equal.le,⟨fun _ => ⟨bits,equal⟩,fun _ => equal⟩⟩
    · exact (Nat.pow_lt_pow_iff_right (by decide)).mp (equal ▸ bound)
    · exact BitVec.eq_of_toNat_eq (by rw [BitVec.toNat_ofNat,← equal,Nat.mod_eq_of_lt bound])
  · have notPower := (and_sub_one_iff positive).not.mp power
    have before := toNat_sub_one positive
    have below := Nat.lt_log2_self (n := (capacity - 1).toNat)
    have rounded := roundCapacity_other power
    by_cases wide : (capacity - 1).toNat.log2 + 1 < 64
    · refine .inl ⟨_,wide,rounded,by omega,?_⟩
      refine ⟨fun equal => ⟨_,equal⟩,fun power => absurd power notPower⟩
    · have top : (capacity - 1).toNat.log2 < 64 := by
        rw [Nat.log2_lt (sub_one_nonzero power)]
        exact (capacity - 1).isLt
      have last : (capacity - 1).toNat.log2 + 1 = 64 := by omega
      refine .inr (rounded.trans ?_)
      rw [last]
      rfl

/-- Up to 2^63 it is never zero. -/
theorem roundCapacity_least {capacity : Word} (positive : capacity ≠ 0) (bound : capacity.toNat ≤ 2 ^ 63) :
    ∃ bits < 64, roundCapacity capacity = BitVec.ofNat 64 (2 ^ bits) ∧
      ∀ n, capacity.toNat ≤ 2 ^ n ↔ bits ≤ n := by
  by_cases power : capacity &&& (capacity - 1) = 0
  · obtain ⟨bits,equal⟩ := (and_sub_one_iff positive).mp power
    rw [equal] at bound
    refine ⟨bits,Nat.lt_succ_of_le ((Nat.pow_le_pow_iff_right (by decide)).mp bound),?_,?_⟩
    · rw [← equal,show roundCapacity capacity = capacity from if_pos power,BitVec.ofNat_toNat,BitVec.setWidth_eq]
    · intro n
      rw [equal]
      exact Nat.pow_le_pow_iff_right (by decide)
  · have nonzero := sub_one_nonzero power
    have before := toNat_sub_one positive
    have inside : ∀ n, capacity.toNat ≤ 2 ^ n ↔ (capacity - 1).toNat.log2 + 1 ≤ n := by
      intro n
      rw [Nat.succ_le_iff,Nat.log2_lt nonzero,before]
      have := toNat_ne_zero positive
      omega
    exact ⟨_,Nat.lt_succ_of_le ((inside 63).mp bound),roundCapacity_other power,inside⟩

theorem roundCapacity_bits {capacity : Word} {bits : Nat} (small : bits < 64)
    (power : roundCapacity capacity = BitVec.ofNat 64 (2 ^ bits)) (n : Nat) : capacity.toNat ≤ 2 ^ n ↔ bits ≤ n := by
  have narrow {bits : Nat} (small : bits < 64) : (BitVec.ofNat 64 (2 ^ bits)).toNat = 2 ^ bits := by
    rw [BitVec.toNat_ofNat,Nat.mod_eq_of_lt (Nat.pow_lt_pow_right (by decide) small)]
  have size : (roundCapacity capacity).toNat = 2 ^ bits := by rw [power,narrow small]
  have positive := Nat.two_pow_pos bits
  have nonzero : capacity ≠ 0 := by
    rintro rfl
    have none' : (roundCapacity 0).toNat = 0 := by decide
    omega
  rcases roundCapacity_cases capacity nonzero with ⟨bits',small',-,above,-⟩ | zero
  · have bound : capacity.toNat ≤ 2 ^ 63 := Nat.le_trans above (Nat.pow_le_pow_right (by decide) (by omega))
    obtain ⟨least,inside,rounded,least_iff⟩ := roundCapacity_least nonzero bound
    have same : least = bits := by
      rw [rounded,narrow inside] at size
      exact Nat.pow_right_injective (Nat.le_refl 2) size
    exact same ▸ least_iff n
  · rw [zero] at size
    exact absurd size (Nat.ne_of_lt positive)

/-- `sizeof(*q->buffer) * (1 + capacity)`, which wraps: what the setup asks the allocator for. -/
def ringBytes (capacity : Word) : Word := 8 * (1 + capacity)

/-- Up to 2^60 slots it does not wrap; from there on it is eight bytes. -/
theorem ringBytes_slots {bits : Nat} (small : bits < 64) :
    (ringBytes (BitVec.ofNat 64 (2 ^ bits))).toNat / 8 = if bits ≤ 60 then 1 + 2 ^ bits else 1 := by
  by_cases fits : bits ≤ 60
  · have most : 2 ^ bits ≤ 2 ^ 60 := Nat.pow_le_pow_right (by decide) fits
    have slots : (1 + BitVec.ofNat 64 (2 ^ bits) : Word).toNat = 1 + 2 ^ bits := by
      have narrow : 2 ^ bits % 2 ^ 64 = 2 ^ bits := Nat.mod_eq_of_lt (by omega)
      have one : (1 : Word).toNat = 1 := rfl
      rw [BitVec.toNat_add,BitVec.toNat_ofNat,narrow,one,Nat.mod_eq_of_lt (by omega)]
    have eight : (8 : Word).toNat = 8 := rfl
    rw [if_pos fits,ringBytes,BitVec.toNat_mul,slots,eight,Nat.mod_eq_of_lt (by omega),
      Nat.mul_div_cancel_left _ (by decide)]
  · rw [if_neg fits]
    obtain rfl | rfl | rfl : bits = 61 ∨ bits = 62 ∨ bits = 63 := by omega
    all_goals decide

/-- `tn_queue_spsc_setup`. The acquired memory has unknown contents, and the slots that fit in the bytes
asked for; `none` is an allocation that failed. -/
def setup (allocation : Option (Nat → V)) (capacity : Word) : Option (Queue V) :=
  allocation.map fun buffer =>
    let capacity := roundCapacity capacity
    { capacity, mask := capacity - 1, buffer, room := (ringBytes capacity).toNat / 8
      head := 0, tail := 0, tailCache := 0 }

/-- Memory behind the block is not the queue's: whoever has it stores there. -/
def overwrite (room : Nat) (store : Nat × V) (q : Queue V) : Option (Queue V) :=
  if room ≤ store.1 then some { q with buffer := Function.update q.buffer store.1 store.2 } else none

/-- The endpoint a call is made from. The code does not record it. -/
inductive Side where
  | producer
  | consumer
  deriving DecidableEq, Repr

inductive Op (V : Type) where
  | push (value : V)
  | peek
  | pop
  | popCached
  | popBack
  | popAll (limit : Word)
  | count (caller : Side)
  deriving DecidableEq, Repr

/-- How far a call has come, with the values it has loaded. -/
inductive Loc (V : Type) where
  | entry
  | head (head : Word)
  | room (head : Word)
  | filled (head : Word)
  | tail (tail : Word)
  | item (tail : Word)
  | taken (tail : Word) (value : V)
  | batch (tail : Word) (count : Nat) (values : List V)
  deriving DecidableEq, Repr

/-- `TN_SUCCESS` with the values stored through the out pointers, `TN_QUEUE_EMPTY`,
`TN_QUEUE_FULL`, or the number that `tn_queue_spsc_count` returns. -/
inductive Res (V : Type) where
  | success (values : List V)
  | empty
  | full
  | size (count : Word)
  deriving DecidableEq, Repr

/-- One step of a call. The comparison after a load is made in the step of the load. -/
def tick : Op V → Loc V → Queue V → Queue V × Progress (Loc V) (Res V)
  | .push _, .entry, q => (q, .running (.head q.head))
  | .push _, .head head, q =>
    if head - q.tail = q.capacity then (q, .returned .full) else (q, .running (.room head))
  | .push value, .room head, q =>
    ({ q with buffer := Function.update q.buffer (q.slot head) value }, .running (.filled head))
  | .push _, .filled head, q => ({ q with head := head + 1 }, .returned (.success []))
  | .peek, .entry, q => (q, .running (.tail q.tail))
  | .peek, .tail tail, q =>
    if q.head = tail then (q, .returned .empty) else (q, .running (.item tail))
  | .peek, .item tail, q =>
    ({ q with tailCache := tail }, .returned (.success [q.buffer (q.slot tail)]))
  | .pop, .entry, q => (q, .running (.tail q.tail))
  | .pop, .tail tail, q =>
    if q.head = tail then (q, .returned .empty) else (q, .running (.item tail))
  | .pop, .item tail, q => ({ q with tail := tail + 1 }, .returned (.success []))
  | .popCached, .entry, q => ({ q with tail := q.tailCache + 1 }, .returned (.success []))
  | .popBack, .entry, q => (q, .running (.tail q.tail))
  | .popBack, .tail tail, q =>
    if q.head = tail then (q, .returned .empty) else (q, .running (.item tail))
  | .popBack, .item tail, q => (q, .running (.taken tail (q.buffer (q.slot tail))))
  | .popBack, .taken tail value, q =>
    ({ q with tail := tail + 1 }, .returned (.success [value]))
  | .popAll _, .entry, q => (q, .running (.tail q.tail))
  | .popAll limit, .tail tail, q =>
    let size := q.head - tail
    if size = 0 then (q, .returned .empty)
    else (q, .running (.batch tail (if size < limit then size else limit).toNat []))
  | .popAll _, .batch tail count values, q =>
    if values.length < count then
      let value := q.buffer (q.slot (tail + BitVec.ofNat 64 values.length))
      (q, .running (.batch tail count (values ++ [value])))
    else ({ q with tail := tail + BitVec.ofNat 64 count }, .returned (.success values))
  | .count _, .entry, q => (q, .running (.head q.head))
  | .count _, .head head, q => (q, .returned (.size (head - q.tail)))
  | _, loc, q => (q, .running loc)

def object (Q V : Type) : Object Q (Op V) (Queue V) (Loc V) (Res V) where
  entry := .entry
  tick := fun _ => tick

/-- What the queue holds, oldest first: the slots from tail up to head. -/
def Queue.contents (q : Queue V) : List V :=
  (List.range (q.head - q.tail).toNat).map fun i => q.buffer (q.slot (q.tail + BitVec.ofNat 64 i))

section Values

variable {V W : Type} (f : V → W)

/-- The same ring with other values in its slots. -/
def Queue.map (q : Queue V) : Queue W :=
  ⟨q.capacity, q.mask, f ∘ q.buffer, q.room, q.head, q.tail, q.tailCache⟩

def Op.map : Op V → Op W
  | .push value => .push (f value)
  | .peek => .peek
  | .pop => .pop
  | .popCached => .popCached
  | .popBack => .popBack
  | .popAll limit => .popAll limit
  | .count caller => .count caller

def Loc.map : Loc V → Loc W
  | .entry => .entry
  | .head index => .head index
  | .room index => .room index
  | .filled index => .filled index
  | .tail index => .tail index
  | .item index => .item index
  | .taken index value => .taken index (f value)
  | .batch index count values => .batch index count (values.map f)

def Res.map : Res V → Res W
  | .success values => .success (values.map f)
  | .empty => .empty
  | .full => .full
  | .size count => .size count

variable {f}

theorem Res.map_nil {res : Res V} (mapped : res.map f = .success []) : res = .success [] := by
  cases res with
  | success values => exact congrArg Res.success (List.map_eq_nil_iff.mp (Res.success.inj mapped))
  | empty => cases mapped
  | full => cases mapped
  | size count => cases mapped

theorem Res.map_single {res : Res V} {w : W} (mapped : res.map f = .success [w]) : ∃ v, res = .success [v] := by
  cases res with
  | success values =>
    obtain ⟨v,rfl,-⟩ := List.map_eq_singleton_iff.mp (Res.success.inj mapped)
    exact ⟨v,rfl⟩
  | empty => cases mapped
  | full => cases mapped
  | size count => cases mapped

theorem Loc.map_head {at' : Loc V} {index : Word} (mapped : at'.map f = .head index) : at' = .head index := by
  cases at' with
  | head index' => exact congrArg Loc.head (Loc.head.inj mapped)
  | _ => cases mapped

variable (f)

theorem Queue.map_contents (q : Queue V) : (q.map f).contents = q.contents.map f := by
  simp [Queue.contents,Queue.map,Queue.slot]

/-- No step looks at a value: they may be mapped before it or after it. -/
theorem tick_map (op : Op V) (at' : Loc V) (q : Queue V) :
    tick (op.map f) (at'.map f) (q.map f) =
      ((tick op at' q).1.map f, (tick op at' q).2.map (Loc.map f) (Res.map f)) := by
  cases op <;> cases at'
  case push.room value head =>
    simp only [tick,Op.map,Loc.map,Queue.map,Queue.slot,Function.comp_update,Progress.map]
  case push.head | peek.tail | pop.tail | popBack.tail | popAll.tail =>
    simp only [tick,Op.map,Loc.map,Queue.map]
    split <;> rfl
  case popAll.batch limit tail count values =>
    simp only [tick,Op.map,Loc.map,Queue.map,List.length_map]
    split
    · simp [Progress.map,Loc.map,Queue.slot]
    · rfl
  all_goals rfl

end Values

/-- The abstract queue. `peeked` holds between a successful peek and the next pop;
a cached pop is defined only there. -/
structure Fifo (V : Type) where
  items : List V
  peeked : Bool
  deriving DecidableEq, Repr

/-- Operations in one step. The batch pop takes between one item and its limit: it
counts the items when it loads the head and removes them when it stores the tail. -/
def Fifo.apply (capacity : Nat) : Op V → Fifo V → Nat → Option (Fifo V × Res V)
  | .push value, f, _ =>
    if f.items.length = capacity then some (f, .full)
    else some ({ f with items := f.items ++ [value] }, .success [])
  | .peek, f, _ =>
    match f.items with
    | [] => some (f, .empty)
    | value :: _ => some ({ f with peeked := true }, .success [value])
  | .pop, f, _ =>
    match f.items with
    | [] => some (f, .empty)
    | _ :: rest => some (⟨rest, false⟩, .success [])
  | .popCached, f, _ => if f.peeked then some (⟨f.items.tail, false⟩, .success []) else none
  | .popBack, f, _ =>
    match f.items with
    | [] => some (f, .empty)
    | value :: rest => some (⟨rest, false⟩, .success [value])
  | .popAll limit, f, count =>
    if f.items = [] then some (f, .empty)
    else if 0 < count ∧ count ≤ limit.toNat ∧ count ≤ f.items.length then
      some (⟨f.items.drop count, false⟩, .success (f.items.take count))
    else none
  | .count .producer, f, _ => some (f, .size (BitVec.ofNat 64 f.items.length))
  | .count .consumer, f, count =>
    if count ≤ f.items.length then some (f, .size (BitVec.ofNat 64 count)) else none

section Cases

variable {V : Type} {capacity choice : Nat} {f f' : Fifo V} {res : Res V}

theorem Fifo.push_cases {value : V} (applied : Fifo.apply capacity (.push value) f choice = some (f', res)) :
    (f.items.length ≠ capacity ∧ f' = { f with items := f.items ++ [value] } ∧ res = .success []) ∨
      (f.items.length = capacity ∧ f' = f ∧ res = .full) := by
  simp only [Fifo.apply] at applied
  split at applied
  · next full =>
    obtain ⟨rfl,rfl⟩ := Prod.mk.inj (Option.some.inj applied)
    exact .inr ⟨full,rfl,rfl⟩
  · next room =>
    obtain ⟨rfl,rfl⟩ := Prod.mk.inj (Option.some.inj applied)
    exact .inl ⟨room,rfl,rfl⟩

theorem Fifo.peek_cases (applied : Fifo.apply capacity .peek f choice = some (f', res)) :
    (f.items = [] ∧ f' = f ∧ res = .empty) ∨
      ∃ value rest, f.items = value :: rest ∧ f' = ⟨value :: rest, true⟩ ∧ res = .success [value] := by
  simp only [Fifo.apply] at applied
  split at applied
  · next none' =>
    obtain ⟨rfl,rfl⟩ := Prod.mk.inj (Option.some.inj applied)
    exact .inl ⟨none',rfl,rfl⟩
  · next value rest items =>
    obtain ⟨rfl,rfl⟩ := Prod.mk.inj (Option.some.inj applied)
    exact .inr ⟨value,rest,items,by rw [← items],rfl⟩

theorem Fifo.popCached_cases (applied : Fifo.apply capacity .popCached f choice = some (f', res)) :
    f' = ⟨f.items.tail, false⟩ ∧ res = .success [] := by
  simp only [Fifo.apply] at applied
  split at applied
  · obtain ⟨rfl,rfl⟩ := Prod.mk.inj (Option.some.inj applied)
    exact ⟨rfl,rfl⟩
  · contradiction

theorem Fifo.popBack_cases (applied : Fifo.apply capacity .popBack f choice = some (f', res)) :
    (f.items = [] ∧ f' = f ∧ res = .empty) ∨
      ∃ value rest, f.items = value :: rest ∧ f' = ⟨rest, false⟩ ∧ res = .success [value] := by
  simp only [Fifo.apply] at applied
  split at applied
  · next none' =>
    obtain ⟨rfl,rfl⟩ := Prod.mk.inj (Option.some.inj applied)
    exact .inl ⟨none',rfl,rfl⟩
  · next value rest items =>
    obtain ⟨rfl,rfl⟩ := Prod.mk.inj (Option.some.inj applied)
    exact .inr ⟨value,rest,items,rfl,rfl⟩

theorem Fifo.popAll_cases {limit : Word}
    (applied : Fifo.apply capacity (.popAll limit) f choice = some (f', res)) :
    (f.items = [] ∧ f' = f ∧ res = .empty) ∨
      ∃ taken rest, taken ≠ [] ∧ f.items = taken ++ rest ∧ f' = ⟨rest, false⟩ ∧ res = .success taken := by
  simp only [Fifo.apply] at applied
  split at applied
  · next none' =>
    obtain ⟨rfl,rfl⟩ := Prod.mk.inj (Option.some.inj applied)
    exact .inl ⟨none',rfl,rfl⟩
  · split at applied
    · next bounds =>
      obtain ⟨rfl,rfl⟩ := Prod.mk.inj (Option.some.inj applied)
      refine .inr ⟨f.items.take choice,f.items.drop choice,?_,(List.take_append_drop _ _).symm,rfl,rfl⟩
      rw [ne_eq,List.take_eq_nil_iff]
      rintro (zero | none')
      · omega
      · contradiction
    · contradiction

end Cases

def spec (bits : Q → Nat) (q : Q) : Op V → Fifo V → Nat → Option (Fifo V × Res V) :=
  Fifo.apply (2 ^ bits q)

end Tcpeen.QueueSpsc
