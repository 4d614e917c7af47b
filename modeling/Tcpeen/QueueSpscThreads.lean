import Tcpeen.QueueSpscSimulation

/-! One producer and one consumer on one ring, each making any sequence of calls.
The history records the pushes that succeeded and the values the consumer took. -/
namespace Tcpeen.QueueSpsc.Threads

open SplitOperation

inductive ProducerPc (V : Type) where
  | idle
  | push (value : V)
  | count
  deriving DecidableEq, Repr

/-- `pop` and `popCached` carry the value of the peek that they follow. -/
inductive ConsumerPc (V : Type) where
  | idle
  | popBack
  | popAll (limit : Word)
  | peek (cached : Bool)
  | pop (value : V)
  | popCached (value : V)
  | count
  deriving DecidableEq, Repr

@[reducible] def Pc (V : Type) : Side → Type
  | .producer => ProducerPc V
  | .consumer => ConsumerPc V

inductive Act (V : Type) where
  | push (value : V)
  | popBack
  | popAll (limit : Word)
  | peekPop
  | peekPopCached
  | count (caller : Side)
  deriving DecidableEq, Repr

structure History (V : Type) where
  pushed : List V
  obtained : List V
  deriving DecidableEq, Repr

def History.take (h : History V) (values : List V) : History V :=
  { h with obtained := h.obtained ++ values }

def request : (t : Side) → Pc V t → Option (Unit × Op V)
  | .producer, .idle => none
  | .producer, .push value => some ((), .push value)
  | .producer, .count => some ((), .count .producer)
  | .consumer, .idle => none
  | .consumer, .popBack => some ((), .popBack)
  | .consumer, .popAll limit => some ((), .popAll limit)
  | .consumer, .peek _ => some ((), .peek)
  | .consumer, .pop _ => some ((), .pop)
  | .consumer, .popCached _ => some ((), .popCached)
  | .consumer, .count => some ((), .count .consumer)

def resume : (t : Side) → Pc V t → Res V → History V → Pc V t × History V
  | .producer, .push value, .success _, h => (.idle, { h with pushed := h.pushed ++ [value] })
  | .producer, _, _, h => (.idle, h)
  | .consumer, .peek cached, .success [value], h =>
    (if cached then .popCached value else .pop value, h)
  | .consumer, .pop value, .success _, h => (.idle, h.take [value])
  | .consumer, .popCached value, .success _, h => (.idle, h.take [value])
  | .consumer, .popBack, .success values, h => (.idle, h.take values)
  | .consumer, .popAll _, .success values, h => (.idle, h.take values)
  | .consumer, _, _, h => (.idle, h)

def actor : Act V → Side
  | .push _ => .producer
  | .count caller => caller
  | _ => .consumer

def act : (a : Act V) → Pc V (actor a) → History V → Option (Pc V (actor a) × History V)
  | .push value, _, h => some (ProducerPc.push value, h)
  | .popBack, _, h => some (ConsumerPc.popBack, h)
  | .popAll limit, _, h => if 0 < limit.toNat then some (ConsumerPc.popAll limit, h) else none
  | .peekPop, _, h => some (ConsumerPc.peek false, h)
  | .peekPopCached, _, h => some (ConsumerPc.peek true, h)
  | .count .producer, _, h => some (ProducerPc.count, h)
  | .count .consumer, _, h => some (ConsumerPc.count, h)

def machine (V : Type) : Machine Side (Pc V) Unit (Op V) (Res V) (History V) (Act V) where
  request := request
  resume := resume
  actor := actor
  act := act

abbrev State (V : Type) := Split Side (Pc V) Unit (Queue V) (Loc V) (History V)

def step : State V → SplitLabel Side (Act V) → Option (State V) :=
  splitStep (object Unit V) (machine V)

/-- The two threads on a ring in a block of so many slots, with what others store behind the block. -/
def ringStep (room : Nat) : State V → SplitLabel Side (Act V) ⊕ Unit × Nat × V → Option (State V) :=
  disturbedStep (object Unit V) (machine V) (overwrite room)

def idle (V : Type) : (t : Side) → Pc V t
  | .producer => .idle
  | .consumer => .idle

def State.queue (s : State V) : Queue V := s.mem ()

/-- An empty queue whose indices start anywhere; the cached tail is arbitrary too. -/
def initial (q : Queue V) (start cache : Word) : State V where
  pcs := idle V
  shared := ⟨[], []⟩
  mem := fun _ => { q with head := start, tail := start, tailCache := cache }
  loc := fun _ => .entry

/-- Values that the consumer's unfinished call has read already. -/
def inHand : ConsumerPc V → Loc V → List V
  | .pop value, _ => [value]
  | .popCached value, _ => [value]
  | .popBack, .taken _ value => [value]
  | .popAll _, .batch _ _ values => values
  | _, _ => []

def Returns (s : State V) (t : Side) (res : Res V) : Prop :=
  SplitOperation.Returns (object Unit V) (machine V) s t res

abbrev Abstract (V : Type) := Atomic Side (Pc V) Unit (Fifo V) (History V)

/-- The values pushed are those obtained and those still queued, in this order. -/
structure Invariant (a : Abstract V) : Prop where
  order : a.shared.pushed = a.shared.obtained ++ (a.abs ()).items
  peeked : ∀ value, a.pcs .consumer = .pop value ∨ a.pcs .consumer = .popCached value →
    (a.abs ()).items.head? = some value ∧ (a.abs ()).peeked = true
  limited : ∀ limit, a.pcs .consumer = .popAll limit → 0 < limit.toNat

/-- Refinement is used with exact specifications only. -/
def Exact (_ : Abstract V) : AtomicLabel Side (Act V) Nat (Res V) → Prop
  | .havoc .. => False
  | _ => True

def atomicInitial (V : Type) : Abstract V := ⟨idle V, ⟨[], []⟩, fun _ => ⟨[], false⟩⟩

private theorem Invariant.frame {a a' : Abstract V} (valid : Invariant a)
    (shared : a'.shared = a.shared) (abs : a'.abs () = a.abs ())
    (consumer : a'.pcs .consumer = a.pcs .consumer) : Invariant a' where
  order := by rw [shared,abs]; exact valid.order
  peeked := by rw [consumer,abs]; exact valid.peeked
  limited := by rw [consumer]; exact valid.limited

private theorem Invariant.at_consumer {a' : Abstract V}
    (order : a'.shared.pushed = a'.shared.obtained ++ (a'.abs ()).items)
    (idle : a'.pcs .consumer = .idle) : Invariant a' where
  order := order
  peeked := by simp [idle]
  limited := by simp [idle]

private theorem act_preserves {bits : Unit → Nat} {a a' : Abstract V} {b : Act V}
    (valid : Invariant a) (taken : atomicStep (spec bits) (machine V) a (.act b) = some a') :
    Invariant a' := by
  obtain ⟨_,r,done,rfl⟩ := atomicStep_act_cases taken
  cases b with
  | popAll limit =>
    simp only [machine,act] at done
    split at done
    · next positive =>
      cases done
      refine ⟨valid.order,by simp [machine,actor],?_⟩
      intro limit' same
      simp only [machine,actor,Function.update_self,ConsumerPc.popAll.injEq] at same
      exact same ▸ positive
    · contradiction
  | push value =>
    cases done
    exact valid.frame rfl rfl (by simp [machine,actor])
  | count caller =>
    cases caller
    · cases done
      exact valid.frame rfl rfl (by simp [machine,actor])
    · cases done
      exact ⟨valid.order,by simp [machine,actor],by simp [machine,actor]⟩
  | _ =>
    cases done
    exact ⟨valid.order,by simp [machine,actor],by simp [machine,actor]⟩

private theorem producer_preserves {bits : Unit → Nat} {a a' : Abstract V} {choice : Nat}
    (valid : Invariant a)
    (taken : atomicStep (spec bits) (machine V) a (.op .producer choice) = some a') :
    Invariant a' := by
  obtain ⟨⟨⟩,op,f,res,asked,specified,rfl⟩ := atomicStep_op_cases taken
  cases pc : a.pcs .producer with
  | idle => simp [machine,request,pc] at asked
  | count =>
    simp only [machine,request,pc,Option.some.injEq,Prod.mk.injEq,true_and] at asked
    subst asked
    cases specified
    exact valid.frame (by simp [machine,resume]) (by simp) (by simp)
  | push value =>
    simp only [machine,request,pc,Option.some.injEq,Prod.mk.injEq,true_and] at asked
    subst asked
    rcases Fifo.push_cases specified with ⟨-,rfl,rfl⟩ | ⟨-,rfl,rfl⟩
    · refine ⟨?_,?_,by simpa using valid.limited⟩
      · simp [machine,resume,valid.order]
      · intro value' follows
        obtain ⟨first,seen⟩ := valid.peeked value' (by simpa using follows)
        exact ⟨by simp [first],by simpa using seen⟩
    · exact valid.frame (by simp [machine,resume]) (by simp) (by simp)

private theorem consumer_preserves {bits : Unit → Nat} {a a' : Abstract V} {choice : Nat}
    (valid : Invariant a)
    (taken : atomicStep (spec bits) (machine V) a (.op .consumer choice) = some a') :
    Invariant a' := by
  obtain ⟨⟨⟩,op,f,res,asked,specified,rfl⟩ := atomicStep_op_cases taken
  have order := valid.order
  cases pc : a.pcs .consumer
  all_goals
    simp only [machine,request,pc,reduceCtorEq,Option.some.injEq,Prod.mk.injEq,true_and] at asked
    try subst asked
  case popBack =>
    rcases Fifo.popBack_cases specified with ⟨-,rfl,rfl⟩ | ⟨value,rest,items,rfl,rfl⟩
    · exact .at_consumer (by simp [machine,resume,order]) (by simp [machine,resume])
    · exact .at_consumer (by simp [machine,resume,History.take,order,items])
        (by simp [machine,resume])
  case popAll limit =>
    rcases Fifo.popAll_cases specified with ⟨-,rfl,rfl⟩ | ⟨taken,rest,-,items,rfl,rfl⟩
    · exact .at_consumer (by simp [machine,resume,order]) (by simp [machine,resume])
    · exact .at_consumer (by simp [machine,resume,History.take,order,items])
        (by simp [machine,resume])
  case peek cached =>
    rcases Fifo.peek_cases specified with ⟨-,rfl,rfl⟩ | ⟨value,rest,items,rfl,rfl⟩
    · exact .at_consumer (by simp [machine,resume,order]) (by simp [machine,resume])
    · refine ⟨by simp [machine,resume,order,items],?_,?_⟩
      · intro value' follows
        cases cached <;> simp_all [machine,resume]
      · intro limit follows
        cases cached <;> simp [machine,resume] at follows
  case pop value =>
    obtain ⟨first,seen⟩ := valid.peeked value (.inl pc)
    simp only [spec,Fifo.apply] at specified
    split at specified
    · next none => simp [none] at first
    · next value' rest items =>
      cases specified
      rw [items] at first
      cases Option.some.inj first
      exact .at_consumer (by simp [machine,resume,History.take,order,items])
        (by simp [machine,resume])
  case popCached value =>
    obtain ⟨first,seen⟩ := valid.peeked value (.inr pc)
    obtain ⟨rest,items⟩ : ∃ rest, (a.abs ()).items = value :: rest := by
      cases items : (a.abs ()).items with
      | nil => simp [items] at first
      | cons head rest => exact ⟨rest,by simpa [items] using first⟩
    obtain ⟨rfl,rfl⟩ := Fifo.popCached_cases specified
    exact .at_consumer (by simp [machine,resume,History.take,order,items])
      (by simp [machine,resume])
  case count =>
    simp only [spec,Fifo.apply] at specified
    split at specified
    · cases specified
      exact .at_consumer (by simp [machine,resume,order]) (by simp [machine,resume])
    · contradiction

theorem reachable_invariant {bits : Unit → Nat} {a : Abstract V}
    (reach : Transition.Reachable (atomicStep (spec bits) (machine V)) Exact (atomicInitial V) a) :
    Invariant a := by
  refine reach.invariant Invariant ?_ ?_
  · exact ⟨rfl,by simp [atomicInitial,idle],by simp [atomicInitial,idle]⟩
  · intro a label a' valid allowed taken
    cases label with
    | act b => exact act_preserves valid taken
    | op t choice =>
      cases t
      · exact producer_preserves valid taken
      · exact consumer_preserves valid taken
    | havoc t res => exact allowed.elim

/-- Calls of the two threads come from different endpoints, so any overlap is allowed. -/
theorem request_side (t : Side) (pc : Pc V t) (q : Unit) (op : Op V)
    (asked : request t pc = some (q, op)) : op.side = t := by
  cases t <;> cases pc <;> simp only [request,reduceCtorEq,Option.some.injEq,Prod.mk.injEq] at asked
  all_goals
    obtain ⟨_,rfl⟩ := asked
    rfl

theorem Invariant.safe {bits : Unit → Nat} (small : ∀ q, bits q < 64) {a : Abstract V}
    (valid : Invariant a) : Safe (simulation bits small) (machine V) (fun _ => True) a := by
  rintro t ⟨⟩ op asked -
  cases t with
  | producer =>
    cases pc : a.pcs .producer <;> simp only [machine,request,pc,reduceCtorEq,Option.some.injEq,
      Prod.mk.injEq,true_and] at asked
    all_goals subst asked; trivial
  | consumer =>
    cases pc : a.pcs .consumer <;> simp only [machine,request,pc,reduceCtorEq,Option.some.injEq,
      Prod.mk.injEq,true_and] at asked
    case popAll limit => subst asked; exact valid.limited limit pc
    case popCached value => subst asked; exact (valid.peeked value (.inr pc)).2
    all_goals subst asked; trivial

section

variable {V : Type} {bits room : Nat} (small : bits < 64) {q : Queue V} {start cache : Word} {s : State V}

/-- Every state of the two threads is an abstract state seen through the ring, if the block has its slots. -/
theorem reachable_related (capacity : q.capacity = BitVec.ofNat 64 (2 ^ bits))
    (mask : q.mask = q.capacity - 1) (fits : 2 ^ bits ≤ room)
    (reach : Transition.Reachable (ringStep room) (fun _ _ => True) (initial q start cache) s) :
    ∃ a, Invariant a ∧
      Related (simulation (fun _ => bits) (fun _ => small)) (machine V) (fun _ => True) s a := by
  obtain ⟨a,reached,related⟩ := ring_refines (fun _ => small) (overwrite_stable _ fits) (machine V)
    request_side Exact
    (fun _ _ => trivial) (fun _ _ _ => trivial) (by rintro ⟨⟩ <;> rfl) (fun _ => rfl)
    (represents_empty start cache capacity mask)
    (fun a reached => (reachable_invariant reached).safe _) reach
  exact ⟨a,reachable_invariant reached,related⟩

variable {a : Abstract V}

/-- What an unfinished call has read are the oldest items of the queue. -/
theorem inHand_prefix (valid : Invariant a)
    (related : Related (simulation (fun _ => bits) (fun _ => small)) (machine V) (fun _ => True) s a) :
    inHand (s.pcs .consumer) (s.loc .consumer) <+: (a.abs ()).items := by
  have mid := related.mid .consumer ()
  have peeked := valid.peeked
  rw [← related.pcs] at peeked
  have single {value : V} (first : (a.abs ()).items.head? = some value) :
      [value] <+: (a.abs ()).items := by
    obtain ⟨rest,items⟩ := List.head?_eq_some_iff.mp first
    exact ⟨rest,by simp [items]⟩
  cases pc : s.pcs .consumer with
  | pop value => exact single (peeked value (.inl pc)).1
  | popCached value => exact single (peeked value (.inr pc)).1
  | popBack =>
    have known := mid .popBack (by simp [machine,request,pc]) trivial
    cases at' : s.loc .consumer <;> simp only [inHand,List.nil_prefix]
    rw [at'] at known
    exact single known.2
  | popAll limit =>
    have known := mid (.popAll limit) (by simp [machine,request,pc]) trivial
    cases at' : s.loc .consumer <;> simp only [inHand,List.nil_prefix]
    rw [at'] at known
    obtain ⟨_,_,_,_,_,prefixed⟩ := known
    rw [prefixed]
    exact List.take_prefix _ _
  | _ => simp [inHand]

/-- No step of either thread stores into a slot between tail and head, nor does anybody else. -/
theorem step_keeps_slots (fits : 2 ^ bits ≤ room)
    (related : Related (simulation (fun _ => bits) (fun _ => small)) (machine V) (fun _ => True) s a)
    {label : SplitLabel Side (Act V) ⊕ Unit × Nat × V} {s' : State V} (taken : ringStep room s label = some s')
    (i : Nat) (inside : i < (s.queue.head - s.queue.tail).toNat) :
    s'.queue.buffer (s.queue.slot (s.queue.tail + BitVec.ofNat 64 i)) =
      s.queue.buffer (s.queue.slot (s.queue.tail + BitVec.ofNat 64 i)) := by
  have r : Represents bits s.queue (a.abs ()) := related.rel () trivial
  rcases label with (b | t) | ⟨⟨⟩,store⟩
  · have acted : step s (.act b) = some s' := taken
    obtain ⟨_,r,_,rfl⟩ := splitStep_act_cases acted
    rfl
  · have ran : step s (.tick t) = some s' := taken
    obtain ⟨⟨⟩,op,mem,asked,ticked⟩ := splitStep_tick_cases ran
    have known : Mid bits op (s.loc t) s.queue (a.abs ()) := related.mid t () op asked trivial
    have kept := tick_keeps_slots small r known i (by rwa [r.size small] at inside)
    rcases ticked with ⟨loc,ticked,rfl⟩ | ⟨res,ticked,rfl⟩
    all_goals
      have stored : (tick op (s.loc t) s.queue).1 = mem := congrArg Prod.fst ticked
      rw [stored] at kept
      simpa [State.queue] using kept
  · obtain ⟨mem,stored,rfl⟩ := Option.map_eq_some_iff.mp taken
    simp only [overwrite,Option.ite_none_right_eq_some,Option.some.injEq] at stored
    obtain ⟨behind,rfl⟩ := stored
    have within : s.queue.slot (s.queue.tail + BitVec.ofNat 64 i) < 2 ^ bits := by
      rw [slot_eq s.queue bits small r.mask]
      exact Nat.mod_lt _ (Nat.two_pow_pos bits)
    have apart : s.queue.slot (s.queue.tail + BitVec.ofNat 64 i) ≠ store.1 := by omega
    exact Function.update_of_ne apart ..

end

/-- A push that reports a full queue finds it full in the step that loads the tail. -/
theorem returns_full {bits : Nat} (small : bits < 64) {s : State V} {a : Abstract V}
    (related : Related (simulation (fun _ => bits) (fun _ => small)) (machine V) (fun _ => True) s a)
    (returns : Returns s .producer .full) :
    (∃ head, s.loc .producer = .head head) ∧ s.queue.head - s.queue.tail = s.queue.capacity := by
  obtain ⟨⟨⟩,op,after,asked,ticked⟩ := returns
  have known : Mid bits op (s.loc .producer) s.queue (a.abs ()) := related.mid .producer () op asked trivial
  have side := request_side _ _ _ _ asked
  cases op <;> cases at' : s.loc .producer <;> simp only [object,tick,at',Prod.mk.injEq,reduceCtorEq,
    and_false,Progress.returned.injEq,Op.side] at ticked side
  case push.head value head =>
    rw [at'] at known
    refine ⟨⟨head,rfl⟩,?_⟩
    split at ticked
    · next full => simpa [State.queue,show head = s.queue.head from known] using full
    · simp at ticked

/-- A consumer call that reports an empty queue finds it empty when it loads the head. -/
theorem returns_empty {bits : Nat} (small : bits < 64) {s : State V} {a : Abstract V}
    (related : Related (simulation (fun _ => bits) (fun _ => small)) (machine V) (fun _ => True) s a)
    (returns : Returns s .consumer .empty) :
    (∃ tail, s.loc .consumer = .tail tail) ∧ s.queue.head = s.queue.tail := by
  obtain ⟨⟨⟩,op,after,asked,ticked⟩ := returns
  have known : Mid bits op (s.loc .consumer) s.queue (a.abs ()) := related.mid .consumer () op asked trivial
  have side := request_side _ _ _ _ asked
  cases op <;> cases at' : s.loc .consumer <;> simp only [object,tick,at',Prod.mk.injEq,reduceCtorEq,
    and_false,Progress.returned.injEq,Op.side] at ticked side
  case popAll.tail limit tail =>
    rw [at'] at known
    refine ⟨⟨tail,rfl⟩,?_⟩
    split at ticked
    · next found =>
      rw [show tail = s.queue.tail from known] at found
      exact sub_eq_zero.mp found
    · simp at ticked
  case popAll.batch => split at ticked <;> simp at ticked
  all_goals
    next tail =>
      rw [at'] at known
      refine ⟨⟨tail,rfl⟩,?_⟩
      split at ticked
      · next found => simpa [State.queue,show tail = s.queue.tail from known] using found
      · simp at ticked

/-- FIFO delivery: nothing is lost, duplicated or reordered, the indices never run apart, no
queued slot is overwritten, and full and empty are reported only when they hold. -/
structure Delivers (q : Queue V) (s : State V) : Prop where
  obtained : s.shared.obtained ++ inHand (s.pcs .consumer) (s.loc .consumer) <+: s.shared.pushed
  queued : s.shared.pushed = s.shared.obtained ++ s.queue.contents
  bounded : (s.queue.head - s.queue.tail).toNat ≤ q.capacity.toNat
  slots : ∀ label s', ringStep q.room s label = some s' → ∀ i, i < (s.queue.head - s.queue.tail).toNat →
    s'.queue.buffer (s.queue.slot (s.queue.tail + BitVec.ofNat 64 i)) =
      s.queue.buffer (s.queue.slot (s.queue.tail + BitVec.ofNat 64 i))
  full : Returns s .producer .full →
    (∃ head, s.loc .producer = .head head) ∧ s.queue.head - s.queue.tail = q.capacity
  empty : Returns s .consumer .empty → (∃ tail, s.loc .consumer = .tail tail) ∧ s.queue.head = s.queue.tail

theorem reachable_delivers {V : Type} {bits : Nat} (small : bits < 64) {q : Queue V} {start cache : Word}
    {s : State V} (capacity : q.capacity = BitVec.ofNat 64 (2 ^ bits)) (mask : q.mask = q.capacity - 1)
    (fits : 2 ^ bits ≤ q.room)
    (reach : Transition.Reachable (ringStep q.room) (fun _ _ => True) (initial q start cache) s) : Delivers q s := by
  obtain ⟨a,valid,related⟩ := reachable_related small capacity mask fits reach
  have r : Represents bits s.queue (a.abs ()) := related.rel () trivial
  have order := valid.order
  rw [← related.shared] at order
  have wide : 2 ^ bits < 2 ^ 64 := Nat.pow_lt_pow_right (by decide) small
  refine ⟨?_,by rw [r.contents small]; exact order,?_,?_,?_,returns_empty small related⟩
  · rw [order,List.prefix_append_right_inj]
    exact inHand_prefix small valid related
  · rw [r.size small,capacity,BitVec.toNat_ofNat,Nat.mod_eq_of_lt wide]
    exact r.bound
  · intro label s' taken i inside
    exact step_keeps_slots small fits related taken i inside
  · intro returns
    rw [capacity,← r.capacity]
    exact returns_full small related returns

/-- A call of four steps that nothing interrupts. -/
def called (b : Act V) : List (SplitLabel Side (Act V)) := .act b :: List.replicate 4 (.tick (actor b))

/-- A value pushed to the slot behind a block of one slot is gone with the next store there. -/
theorem second_slot_lost {V : Type} [Nontrivial V] {bits : Nat} (small : bits < 64) (wide : 60 < bits) {q : Queue V}
    (capacity : q.capacity = BitVec.ofNat 64 (2 ^ bits)) (mask : q.mask = q.capacity - 1) (room : q.room = 1) :
    ∃ s, Transition.Reachable (ringStep q.room) (fun _ _ => True) (initial q 1 0) s ∧ ¬ Delivers q s := by
  obtain ⟨v,w,other⟩ := exists_pair_ne V
  have wide' : 2 ^ bits < 2 ^ 64 := Nat.pow_lt_pow_right (by decide) small
  have nonzero : ¬ 0#64 = q.capacity := by
    intro zero
    have size := congrArg BitVec.toNat (zero.trans capacity)
    rw [BitVec.toNat_ofNat,BitVec.toNat_ofNat,Nat.mod_eq_of_lt wide'] at size
    exact absurd size (Nat.ne_of_lt (Nat.two_pow_pos bits))
  have second (p : Queue V) (same : p.mask = q.mask) : p.slot 1 = 1 := by
    rw [slot_eq p bits small (by rw [same,mask,capacity])]
    exact Nat.mod_eq_of_lt (Nat.one_lt_two_pow (by omega))
  have observed : (Transition.execute (ringStep q.room) ((called (.push v)).map .inl) (initial q 1 0)).map
      (fun s => (s.queue.head, s.queue.tail, s.queue.mask, s.queue.buffer (s.queue.slot 1))) =
        some (2, 1, q.mask, v) := by
    simp [Transition.execute,ringStep,disturbedStep,splitStep,initial,machine,request,act,resume,actor,object,tick,
      idle,State.queue,called,nonzero,Queue.slot]
  obtain ⟨s,run,same⟩ := Option.map_eq_some_iff.mp observed
  simp only [Prod.mk.injEq] at same
  obtain ⟨head,tail,mask',held⟩ := same
  rw [second s.queue mask'] at held
  refine ⟨s,.of_execute (fun _ _ _ => trivial) run,fun delivers => ?_⟩
  have stored : (ringStep q.room s (.inr ((), 1, w))).map (fun s' => s'.queue.buffer 1) = some w := by
    simp [ringStep,disturbedStep,overwrite,room,State.queue]
  obtain ⟨s',taken,gone⟩ := Option.map_eq_some_iff.mp stored
  have kept := delivers.slots _ s' taken 0 (by rw [head,tail]; decide)
  have first : s.queue.tail + BitVec.ofNat 64 0 = 1 := by rw [tail]; rfl
  rw [first,second s.queue mask',held,gone] at kept
  exact other kept.symm

/-- For every interleaving and every starting index of a ring made by the setup, with whatever others
store behind its block: FIFO delivery, exactly if the bytes asked for did not wrap. -/
theorem producer_consumer_fifo {V : Type} [Nontrivial V] {bits : Nat} (small : bits < 64) (allocation : Nat → V)
    (capacity : Word) (q : Queue V) (created : setup (some allocation) capacity = some q)
    (power : q.capacity = BitVec.ofNat 64 (2 ^ bits)) :
    (∀ start cache s, Transition.Reachable (ringStep q.room) (fun _ _ => True) (initial q start cache) s →
      Delivers q s) ↔ capacity.toNat ≤ 2 ^ 60 := by
  obtain rfl := Option.some.inj created
  have mask : roundCapacity capacity - 1 = roundCapacity capacity - 1 := rfl
  have power' : roundCapacity capacity = BitVec.ofNat 64 (2 ^ bits) := power
  have room := ringBytes_slots small
  rw [← power'] at room
  rw [roundCapacity_bits small power']
  constructor
  · intro delivers
    by_contra wide
    rw [if_neg wide] at room
    obtain ⟨s,reach,lost⟩ := second_slot_lost small (by omega) power mask room
    exact lost (delivers 1 0 s reach)
  · intro fits start cache s reach
    rw [if_pos fits] at room
    have block : 2 ^ bits ≤ (ringBytes (roundCapacity capacity)).toNat / 8 := by omega
    exact reachable_delivers small power mask block reach

/-- Two values pushed across the wrap of the indices at 2^64 and one taken by a peek and
a cached pop, on a ring of capacity four. -/
def wrappingRun : List (SplitLabel Side (Act Nat)) :=
  [.act (.push 7),.tick .producer,.tick .producer,.act .peekPopCached,.tick .consumer,
    .tick .producer,.tick .producer,.act (.push 8),.tick .producer,.tick .consumer,.tick .producer,
    .tick .consumer,.tick .consumer,.tick .producer,.tick .producer]

theorem producer_consumer_fifo_wrapping :
    ∃ q s, setup (some fun _ => 0) 3 = some q ∧
      Transition.execute (ringStep q.room) (wrappingRun.map .inl ++ [.inr ((), 5, 9)]) (initial q (-1) 0) = some s ∧
      s.shared.obtained = [7] ∧ s.shared.pushed = s.shared.obtained ++ s.queue.contents := by
  let q : Queue Nat := ⟨roundCapacity 3, roundCapacity 3 - 1, fun _ => 0, 5, 0, 0, 0⟩
  have observed : (Transition.execute (ringStep q.room) (wrappingRun.map .inl ++ [.inr ((), 5, 9)])
      (initial q (-1) 0)).map (fun s => s.shared.obtained) = some [7] := by decide
  obtain ⟨s,run,taken⟩ := Option.map_eq_some_iff.mp observed
  have fifo := (producer_consumer_fifo (show 2 < 64 by decide) (fun _ => 0) 3 q rfl
    (show roundCapacity 3 = BitVec.ofNat 64 (2 ^ 2) by decide)).mpr (by decide)
  exact ⟨q,s,rfl,run,taken,(fifo (-1) 0 s (.of_execute (fun _ _ _ => trivial) run)).queued⟩

/-- The second of two values is stored over before both are taken. -/
def lostRun : List (SplitLabel Side (Act Nat) ⊕ Unit × Nat × Nat) :=
  (called (.push 7) ++ called (.push 8)).map .inl ++ .inr ((), 1, 9) :: (called .popBack ++ called .popBack).map .inl

/-- The setup with a capacity of 2^61 asks for eight bytes. -/
theorem second_push_lost :
    ∃ q s, setup (some fun _ => 0) (BitVec.ofNat 64 (2 ^ 61)) = some q ∧ q.room = 1 ∧
      Transition.Reachable (ringStep q.room) (fun _ _ => True) (initial q 0 0) s ∧
      s.shared.pushed = [7,8] ∧ s.shared.obtained = [7,9] ∧ ¬ s.shared.obtained <+: s.shared.pushed := by
  let q : Queue Nat :=
    ⟨BitVec.ofNat 64 (2 ^ 61), BitVec.ofNat 64 (2 ^ 61) - 1, fun _ => 0, 1, 0, 0, 0⟩
  have made : setup (some fun _ => 0) (BitVec.ofNat 64 (2 ^ 61)) = some q := by
    have rounded : roundCapacity (BitVec.ofNat 64 (2 ^ 61)) = BitVec.ofNat 64 (2 ^ 61) := by decide
    have room : (ringBytes (BitVec.ofNat 64 (2 ^ 61))).toNat / 8 = 1 := by decide
    simp only [setup,Option.map_some,rounded,room]
    rfl
  have observed : (Transition.execute (ringStep q.room) lostRun (initial q 0 0)).map
      (fun s => (s.shared.pushed, s.shared.obtained)) = some ([7,8], [7,9]) := by decide
  obtain ⟨s,run,same⟩ := Option.map_eq_some_iff.mp observed
  obtain ⟨pushed,obtained⟩ := Prod.mk.inj same
  refine ⟨q,s,made,rfl,.of_execute (fun _ _ _ => trivial) run,pushed,obtained,?_⟩
  rw [pushed,obtained]
  decide

end Tcpeen.QueueSpsc.Threads
