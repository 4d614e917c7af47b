import Tcpeen.QueueSpscSimulation

/-! `tn_queue_spsc_count` from either endpoint. Producer and consumer make any calls of their
own; what the last count of each returned is kept until it moves its index. -/
namespace Tcpeen.QueueSpsc.Sizes

open SplitOperation

def tnQueueSpscEmpty (count : Word) : Bool := count == 0

def tnQueueSpscFull (q : Queue V) (count : Word) : Bool := count == q.capacity

/-- The call that an endpoint is making. -/
abbrev Pc (V : Type) (t : Side) : Type := Option {op : Op V // op.side = t}

structure Seen where
  sizes : Side → Option Word
  peeked : Bool

def Seen.count (h : Seen) (t : Side) (count : Option Word) : Seen :=
  { h with sizes := Function.update h.sizes t count }

@[simp] theorem Seen.count_same (h : Seen) (t : Side) (count : Option Word) : (h.count t count).sizes t = count :=
  Function.update_self ..

@[simp] theorem Seen.count_other (h : Seen) {t u : Side} (count : Option Word) (other : u ≠ t) :
    (h.count t count).sizes u = h.sizes u := Function.update_of_ne other ..

@[simp] theorem Seen.count_peeked (h : Seen) (t : Side) (count : Option Word) :
    (h.count t count).peeked = h.peeked := rfl

def request : (t : Side) → Pc V t → Option (Unit × Op V)
  | _, none => none
  | _, some op => some ((), op.1)

/-- What is seen after a call has returned. -/
def Seen.after (h : Seen) (t : Side) : Op V → Res V → Seen
  | .count _, .size count => h.count t (some count)
  | .peek, .success _ => { h with peeked := true }
  | .push _, _ => h.count t none
  | .pop, _ | .popCached, _ | .popBack, _ | .popAll _, _ => { h.count t none with peeked := false }
  | _, _ => h

def resume : (t : Side) → Pc V t → Res V → Seen → Pc V t × Seen
  | _, none, _, h => (none, h)
  | t, some op, res, h => (none, h.after t op.1 res)

/-- A cached pop follows a peek, and a batch is not empty. -/
def allowed : Op V → Seen → Bool
  | .popCached, h => h.peeked
  | .popAll limit, _ => 0 < limit.toNat
  | _, _ => true

def machine (V : Type) : Machine Side (Pc V) Unit (Op V) (Res V) Seen (Op V) where
  request := request
  resume := resume
  actor := Op.side
  act := fun op _ h => if allowed op h then some (some ⟨op,rfl⟩, h) else none

abbrev State (V : Type) := Split Side (Pc V) Unit (Queue V) (Loc V) Seen

def step : State V → SplitLabel Side (Op V) → Option (State V) :=
  splitStep (object Unit V) (machine V)

/-- The endpoints on a ring in a block of so many slots, with what others store behind the block. -/
def ringStep (room : Nat) : State V → SplitLabel Side (Op V) ⊕ Unit × Nat × V → Option (State V) :=
  disturbedStep (object Unit V) (machine V) (overwrite room)

def State.queue (s : State V) : Queue V := s.mem ()

/-- An empty queue whose indices start anywhere. -/
def initial (q : Queue V) (start cache : Word) : State V where
  pcs := fun _ => none
  shared := ⟨fun _ => none, false⟩
  mem := fun _ => { q with head := start, tail := start, tailCache := cache }
  loc := fun _ => .entry

/-- The next step of the thread ends this call with the result. -/
def Returns (s : State V) (t : Side) (op : Op V) (res : Res V) : Prop :=
  request t (s.pcs t) = some ((), op) ∧ (tick op (s.loc t) s.queue).2 = .returned res

abbrev Abstract (V : Type) := Atomic Side (Pc V) Unit (Fifo V) Seen

def atomicInitial (V : Type) : Abstract V := ⟨fun _ => none, ⟨fun _ => none, false⟩, fun _ => ⟨[], false⟩⟩

/-- What a count promises later on: the queue only shrinks for the producer and only grows for
the consumer. -/
structure Invariant (bits : Nat) (a : Abstract V) : Prop where
  producer : ∀ count, a.shared.sizes .producer = some count → (a.abs ()).items.length ≤ count.toNat
  within : ∀ count, a.shared.sizes .producer = some count → count.toNat ≤ 2 ^ bits
  consumer : ∀ count, a.shared.sizes .consumer = some count → count.toNat ≤ (a.abs ()).items.length
  bound : (a.abs ()).items.length ≤ 2 ^ bits
  peeked : a.shared.peeked = true → (a.abs ()).peeked = true
  safe : ∀ op, a.pcs .consumer = some op → SafeOp op.1 (a.abs ())

theorem request_cases {t : Side} {pc : Pc V t} {q : Unit} {op : Op V} (asked : request t pc = some (q, op)) :
    ∃ side : op.side = t, pc = some ⟨op,side⟩ := by
  cases pc with
  | none => cases asked
  | some call =>
    obtain ⟨-,rfl⟩ := Prod.mk.inj (Option.some.inj asked)
    exact ⟨call.2,rfl⟩

theorem update_call {pcs : (t : Side) → Pc V t} {t u : Side} {call : {op : Op V // op.side = t}}
    {op : {op : Op V // op.side = u}} (pc : Function.update pcs t (some call) u = some op) :
    op.1 = call.1 ∨ pcs u = some op := by
  by_cases same : u = t
  · subst same
    rw [Function.update_self] at pc
    exact .inl (congrArg Subtype.val (Option.some.inj pc)).symm
  · rw [Function.update_of_ne same] at pc
    exact .inr pc

theorem safe_frame {op : Op V} {f f' : Fifo V} (safe : SafeOp op f) (same : f'.peeked = f.peeked) :
    SafeOp op f' := by
  cases op with
  | popCached => exact same.trans safe
  | popAll limit => exact safe
  | push value => trivial
  | peek => trivial
  | pop => trivial
  | popBack => trivial
  | count caller => trivial

section Abstract

variable {bits : Nat} {a a' : Abstract V}

theorem op_cases {t : Side} {choice : Nat}
    (taken : atomicStep (spec fun _ => bits) (machine V) a (.op t choice) = some a') :
    ∃ (op : Op V) (side : op.side = t) (res : Res V), a.pcs t = some ⟨op,side⟩ ∧
      Fifo.apply (2 ^ bits) op (a.abs ()) choice = some (a'.abs (), res) ∧
      a'.shared = a.shared.after t op res ∧ a'.pcs = Function.update a.pcs t none := by
  obtain ⟨⟨⟩,op,f,res,asked,specified,rfl⟩ := atomicStep_op_cases taken
  obtain ⟨side,pc⟩ := request_cases asked
  refine ⟨op,side,res,pc,?_,?_,?_⟩
  · exact specified.trans (by simp)
  · simp only [machine,resume,pc]
  · simp only [machine,resume,pc]

theorem act_preserves {b : Op V} (valid : Invariant bits a)
    (taken : atomicStep (spec fun _ => bits) (machine V) a (.act b) = some a') : Invariant bits a' := by
  obtain ⟨-,r,done,rfl⟩ := atomicStep_act_cases taken
  simp only [machine] at done
  split at done
  · next enabled =>
    obtain rfl := Option.some.inj done
    refine ⟨valid.producer,valid.within,valid.consumer,valid.bound,valid.peeked,?_⟩
    intro op pc
    rcases update_call pc with own | before
    · rw [own]
      cases b with
      | popCached => exact valid.peeked enabled
      | popAll limit =>
        have positive : 0 < limit.toNat := by simpa [allowed] using enabled
        exact positive
      | push value => trivial
      | peek => trivial
      | pop => trivial
      | popBack => trivial
      | count caller => trivial
    · exact valid.safe op before
  · contradiction

/-- A count leaves the queue alone. -/
theorem count_preserves {t : Side} {size : Word} (valid : Invariant bits a) (abs : a'.abs () = a.abs ())
    (shared : a'.shared = a.shared.count t (some size))
    (safe : ∀ op, a'.pcs .consumer = some op → SafeOp op.1 (a.abs ()))
    (exact' : t = .producer → size.toNat = (a.abs ()).items.length)
    (below : t = .consumer → size.toNat ≤ (a.abs ()).items.length) : Invariant bits a' := by
  cases t with
  | producer =>
    have same := exact' rfl
    refine ⟨?_,?_,?_,abs ▸ valid.bound,?_,abs ▸ safe⟩
    · intro count seen
      rw [shared,Seen.count_same] at seen
      rw [abs,← Option.some.inj seen,same]
    · intro count seen
      rw [shared,Seen.count_same] at seen
      rw [← Option.some.inj seen,same]
      exact valid.bound
    · intro count seen
      rw [shared,Seen.count_other _ _ (by decide)] at seen
      exact abs ▸ valid.consumer count seen
    · intro peeked
      exact abs ▸ valid.peeked (by simpa [shared] using peeked)
  | consumer =>
    refine ⟨?_,?_,?_,abs ▸ valid.bound,?_,abs ▸ safe⟩
    · intro count seen
      rw [shared,Seen.count_other _ _ (by decide)] at seen
      exact abs ▸ valid.producer count seen
    · intro count seen
      rw [shared,Seen.count_other _ _ (by decide)] at seen
      exact valid.within count seen
    · intro count seen
      rw [shared,Seen.count_same] at seen
      rw [abs,← Option.some.inj seen]
      exact below rfl
    · intro peeked
      exact abs ▸ valid.peeked (by simpa [shared] using peeked)

theorem producer_preserves (small : bits < 64) {choice : Nat} (valid : Invariant bits a)
    (taken : atomicStep (spec fun _ => bits) (machine V) a (.op .producer choice) = some a') : Invariant bits a' := by
  obtain ⟨op,side,res,-,applied,shared,pcs⟩ := op_cases taken
  have other : ∀ op, a'.pcs .consumer = some op → a.pcs .consumer = some op := by
    intro op pc
    rw [pcs,Function.update_of_ne (by simp)] at pc
    exact pc
  have bound := valid.bound
  cases op with
  | push value =>
    have sizes : a'.shared = a.shared.count .producer none := shared
    rcases Fifo.push_cases applied with ⟨room,after,-⟩ | ⟨-,after,-⟩
    · have length : (a'.abs ()).items.length = (a.abs ()).items.length + 1 := by simp [after]
      refine ⟨?_,?_,?_,by omega,?_,?_⟩
      · simp [sizes]
      · simp [sizes]
      · intro count seen
        have := valid.consumer count (by simpa [sizes] using seen)
        omega
      · intro peeked
        rw [after]
        exact valid.peeked (by simpa [sizes] using peeked)
      · intro op pc
        exact safe_frame (valid.safe op (other op pc)) (by rw [after])
    · refine ⟨by simp [sizes],by simp [sizes],?_,after ▸ bound,?_,?_⟩
      · intro count seen
        rw [after]
        exact valid.consumer count (by simpa [sizes] using seen)
      · intro peeked
        rw [after]
        exact valid.peeked (by simpa [sizes] using peeked)
      · intro op pc
        rw [after]
        exact valid.safe op (other op pc)
  | count caller =>
    obtain rfl : caller = .producer := side
    have wide : 2 ^ bits < 2 ^ 64 := Nat.pow_lt_pow_right (by decide) small
    obtain ⟨after,rfl⟩ := Prod.mk.inj (Option.some.inj applied)
    have exact' : (BitVec.ofNat 64 (a.abs ()).items.length).toNat = (a.abs ()).items.length := by
      rw [BitVec.toNat_ofNat,Nat.mod_eq_of_lt (by omega)]
    refine count_preserves valid after.symm shared (fun op pc => valid.safe op (other op pc)) ?_ (by simp)
    exact fun _ => exact'
  | peek => contradiction
  | pop => contradiction
  | popCached => contradiction
  | popBack => contradiction
  | popAll limit => contradiction

/-- A pop, whatever it found. -/
theorem pop_preserves (valid : Invariant bits a) (idle : a'.pcs .consumer = none)
    (shared : a'.shared = { a.shared.count .consumer none with peeked := false })
    (shorter : (a'.abs ()).items.length ≤ (a.abs ()).items.length) : Invariant bits a' := by
  refine ⟨?_,?_,?_,Nat.le_trans shorter valid.bound,?_,?_⟩
  · intro count seen
    exact Nat.le_trans shorter (valid.producer count (by simpa [shared] using seen))
  · intro count seen
    exact valid.within count (by simpa [shared] using seen)
  · simp [shared]
  · simp [shared]
  · simp [idle]

theorem consumer_preserves (small : bits < 64) {choice : Nat} (valid : Invariant bits a)
    (taken : atomicStep (spec fun _ => bits) (machine V) a (.op .consumer choice) = some a') : Invariant bits a' := by
  obtain ⟨op,side,res,-,applied,shared,pcs⟩ := op_cases taken
  have idle : a'.pcs .consumer = none := by rw [pcs,Function.update_self]
  cases op with
  | push value => contradiction
  | peek =>
    rcases Fifo.peek_cases applied with ⟨-,after,rfl⟩ | ⟨value,rest,items,after,rfl⟩
    · have same : a'.shared = a.shared := shared
      exact ⟨after ▸ same ▸ valid.producer,same ▸ valid.within,after ▸ same ▸ valid.consumer,after ▸ valid.bound,
        after ▸ same ▸ valid.peeked,by simp [idle]⟩
    · have marked : a'.shared = { a.shared with peeked := true } := shared
      have sizes : a'.shared.sizes = a.shared.sizes := by rw [marked]
      have items' : (a'.abs ()).items = (a.abs ()).items := by rw [after,items]
      refine ⟨?_,?_,?_,items' ▸ valid.bound,by simp [after],by simp [idle]⟩
      · rw [sizes,items']
        exact valid.producer
      · rw [sizes]
        exact valid.within
      · rw [sizes,items']
        exact valid.consumer
  | pop =>
    have shorter : (a'.abs ()).items.length ≤ (a.abs ()).items.length := by
      simp only [Fifo.apply] at applied
      split at applied
      · next none' => simp [← (Prod.mk.inj (Option.some.inj applied)).1]
      · next items => simp [← (Prod.mk.inj (Option.some.inj applied)).1,items]
    exact pop_preserves valid idle shared shorter
  | popCached =>
    obtain ⟨after,-⟩ := Fifo.popCached_cases applied
    exact pop_preserves valid idle shared (by simp [after])
  | popBack =>
    rcases Fifo.popBack_cases applied with ⟨-,after,-⟩ | ⟨value,rest,items,after,-⟩
    · exact pop_preserves valid idle shared (by simp [after])
    · exact pop_preserves valid idle shared (by simp [after,items])
  | popAll limit =>
    rcases Fifo.popAll_cases applied with ⟨-,after,-⟩ | ⟨first,rest,-,items,after,-⟩
    · exact pop_preserves valid idle shared (by simp [after])
    · exact pop_preserves valid idle shared (by simp [after,items])
  | count caller =>
    obtain rfl : caller = .consumer := side
    have wide : 2 ^ bits < 2 ^ 64 := Nat.pow_lt_pow_right (by decide) small
    have bound := valid.bound
    simp only [Fifo.apply] at applied
    split at applied
    · next inside =>
      obtain ⟨after,rfl⟩ := Prod.mk.inj (Option.some.inj applied)
      refine count_preserves valid after.symm shared (by simp [idle]) (by simp) ?_
      intro _
      rw [BitVec.toNat_ofNat,Nat.mod_eq_of_lt (by omega)]
      exact inside
    · contradiction

/-- Refinement is used with exact specifications only. -/
def Exact (_ : Abstract V) : AtomicLabel Side (Op V) Nat (Res V) → Prop
  | .havoc .. => False
  | _ => True

theorem reachable_invariant (small : bits < 64)
    (reach : Transition.Reachable (atomicStep (spec fun _ => bits) (machine V)) Exact (atomicInitial V) a) :
    Invariant bits a := by
  refine reach.invariant (Invariant bits) ?_ ?_
  · exact ⟨by simp [atomicInitial],by simp [atomicInitial],by simp [atomicInitial],by simp [atomicInitial],
      by simp [atomicInitial],by simp [atomicInitial]⟩
  · intro a label a' valid enabled taken
    cases label with
    | act b => exact act_preserves valid taken
    | op t choice =>
      cases t
      · exact producer_preserves small valid taken
      · exact consumer_preserves small valid taken
    | havoc t res => exact enabled.elim

theorem Invariant.safeCalls (small : ∀ _ : Unit, bits < 64) (valid : Invariant bits a) :
    Safe (simulation (fun _ => bits) small) (machine V) (fun _ => True) a := by
  rintro t ⟨⟩ op asked -
  obtain ⟨side,pc⟩ := request_cases asked
  cases t with
  | producer =>
    cases op with
    | push value => trivial
    | count caller => trivial
    | peek => contradiction
    | pop => contradiction
    | popCached => contradiction
    | popBack => contradiction
    | popAll limit => contradiction
  | consumer => exact valid.safe _ pc

end Abstract

section Values

variable {V W : Type} (f : V → W)

def mapCall (t : Side) : Pc V t → Pc W t :=
  Option.map fun op => ⟨op.1.map f, (op.1.map_side f).trans op.2⟩

/-- The same state of the ring and of the calls, with other values. -/
def State.map (s : State V) : State W where
  pcs := fun t => mapCall f t (s.pcs t)
  shared := s.shared
  mem := fun q => (s.mem q).map f
  loc := fun t => (s.loc t).map f

theorem request_map (t : Side) (pc : Pc V t) :
    request t (mapCall f t pc) = (request t pc).map fun asked => ((), asked.2.map f) := by
  cases pc <;> rfl

theorem resume_map (t : Side) (pc : Pc V t) (res : Res V) (h : Seen) :
    resume t (mapCall f t pc) (res.map f) h = (mapCall f t (resume t pc res h).1, (resume t pc res h).2) := by
  cases pc with
  | none => rfl
  | some op =>
    obtain ⟨op,side⟩ := op
    cases op <;> cases res <;> rfl

theorem map_pcs (pcs : (t : Side) → Pc V t) (t : Side) (pc : Pc V t) :
    (fun u => mapCall f u (Function.update pcs t pc u)) =
      Function.update (fun u => mapCall f u (pcs u)) t (mapCall f t pc) :=
  funext fun u => Function.apply_update (mapCall f) pcs t pc u

theorem map_mem (mem : Unit → Queue V) (q : Queue V) :
    (fun u => (Function.update mem () q u).map f) = Function.update (fun u => (mem u).map f) () (q.map f) :=
  funext fun u => Function.apply_update (fun _ => Queue.map f) mem () q u

theorem map_loc (loc : Side → Loc V) (t : Side) (at' : Loc V) :
    (fun u => (Function.update loc t at' u).map f) = Function.update (fun u => (loc u).map f) t (at'.map f) :=
  funext fun u => Function.apply_update (fun _ => Loc.map f) loc t at' u

theorem allowed_map (op : Op V) (h : Seen) : allowed (op.map f) h = allowed op h := by
  cases op <;> rfl

/-- A call of mapped values begins in the mapped state. -/
theorem act_map {s s' : State V} {op : Op V} (taken : step s (.act op) = some s') :
    step (s.map f) (.act (op.map f)) = some (s'.map f) := by
  obtain ⟨free,r,done,rfl⟩ := splitStep_act_cases taken
  obtain ⟨valid,rfl⟩ : allowed op s.shared = true ∧ (some ⟨op,rfl⟩, s.shared) = r := by
    simp only [machine] at done
    split at done
    · next valid => exact ⟨valid,Option.some.inj done⟩
    · cases done
  have quiet : request op.side (mapCall f op.side (s.pcs op.side)) = none := by
    rw [request_map,show request op.side (s.pcs op.side) = none from free]
    rfl
  have valid' := valid
  rw [← allowed_map f] at valid'
  have moved := map_pcs f s.pcs op.side (some ⟨op,rfl⟩)
  cases op
  all_goals
    dsimp only [Op.side] at quiet
    simp only [Op.map] at valid'
    simp only [step,splitStep,machine,State.map,Op.map,Op.side,quiet,valid',if_true,Option.map_some]
    exact congrArg (fun pcs => some (Split.mk pcs _ _ _)) moved.symm

theorem tick_step_map {s s' : State V} {t : Side} (taken : step s (.tick t) = some s') :
    step (s.map f) (.tick t) = some (s'.map f) := by
  obtain ⟨⟨⟩,op,q,asked,went⟩ := splitStep_tick_cases taken
  have asked' : request t (mapCall f t (s.pcs t)) = some ((), op.map f) := by
    rw [request_map,show request t (s.pcs t) = some ((), op) from asked]
    rfl
  have ticked' := tick_map f op (s.loc t) (s.mem ())
  rcases went with ⟨at',ticked,rfl⟩ | ⟨res,ticked,rfl⟩
  · rw [show tick op (s.loc t) (s.mem ()) = (q, .running at') from ticked] at ticked'
    simp only [step,splitStep,machine,State.map,asked',object,ticked',Progress.map,map_mem,map_loc]
  · rw [show tick op (s.loc t) (s.mem ()) = (q, .returned res) from ticked] at ticked'
    simp only [step,splitStep,machine,State.map,asked',object,ticked',Progress.map,map_mem,map_loc,map_pcs,resume_map]
    rfl

theorem step_map {s s' : State V} {label : SplitLabel Side (Op V)} (taken : step s label = some s') :
    ∃ label', step (s.map f) label' = some (s'.map f) := by
  cases label with
  | act op => exact ⟨_,act_map f taken⟩
  | tick t => exact ⟨_,tick_step_map f taken⟩

theorem Returns.map {s : State V} {t : Side} {op : Op V} {res : Res V} (returns : Returns s t op res) :
    Returns (s.map f) t (op.map f) (res.map f) := by
  obtain ⟨asked,ticked⟩ := returns
  refine ⟨(request_map f t _).trans (by rw [asked]; rfl),?_⟩
  have mapped := tick_map f op (s.loc t) s.queue
  exact (congrArg Prod.snd mapped).trans (by rw [ticked]; rfl)

theorem map_contents (s : State V) : (s.map f).queue.contents.length = s.queue.contents.length :=
  (congrArg List.length (s.queue.map_contents f)).trans (List.length_map _)

/-- With the values taken away nothing is left of what others store. -/
theorem reachable_blank {room : Nat} {q : Queue V} {start cache : Word} {s : State V}
    (reach : Transition.Reachable (ringStep room) (fun _ _ => True) (initial q start cache) s) :
    Transition.Reachable step (fun _ _ => True) (initial (q.map fun _ => ()) start cache) (s.map fun _ => ()) := by
  refine reach.map (State.map fun _ => ()) ?_
  rintro s (label | ⟨⟨⟩,i,v⟩) s' - taken
  · obtain ⟨label',taken'⟩ := step_map (fun _ => ()) taken
    exact .inr ⟨label',trivial,taken'⟩
  · left
    obtain ⟨q,stored,rfl⟩ := Option.map_eq_some_iff.mp taken
    simp only [overwrite,Option.ite_none_right_eq_some,Option.some.injEq] at stored
    obtain ⟨-,rfl⟩ := stored
    simp only [State.map,Split.mk.injEq,true_and,and_true]
    funext u
    cases u
    rw [Function.update_self]
    rfl

end Values

section Runs

variable {V : Type} {bits : Nat} {q : Queue V} {start cache : Word} {s : State V} {a : Abstract V}

theorem reachable_related (small : bits < 64) (capacity : q.capacity = BitVec.ofNat 64 (2 ^ bits))
    (mask : q.mask = q.capacity - 1)
    (reach : Transition.Reachable step (fun _ _ => True) (initial q start cache) s) :
    ∃ a, Invariant bits a ∧
      Related (simulation (fun _ => bits) (fun _ => small)) (machine V) (fun _ => True) s a := by
  have nobody : Stable (simulation (V := V) (fun _ => bits) (fun _ => small)) (overwrite (2 ^ bits)) :=
    overwrite_stable _ (Nat.le_refl _)
  obtain ⟨a,reached,related⟩ := ring_refines (fun _ => small) nobody (machine V)
    (fun t pc q op asked => (request_cases asked).1) Exact (fun _ _ => trivial) (fun _ _ _ => trivial)
    (fun _ => rfl) (fun _ => rfl) (represents_empty start cache capacity mask)
    (fun a reached => (reachable_invariant small reached).safeCalls _) (undisturbed reach)
  exact ⟨a,reachable_invariant small reached,related⟩

variable (small : bits < 64) {count : Word}

/-- The producer's own index has not moved when it loads the other. -/
theorem producer_size
    (related : Related (simulation (fun _ => bits) (fun _ => small)) (machine V) (fun _ => True) s a)
    (returns : Returns s .producer (.count .producer) (.size count)) :
    (∃ head, s.loc .producer = .head head) ∧ count = s.queue.head - s.queue.tail := by
  obtain ⟨asked,ticked⟩ := returns
  have known : Mid bits (.count .producer) (s.loc .producer) s.queue (a.abs ()) :=
    related.mid .producer () _ asked trivial
  cases at' : s.loc .producer <;> simp only [tick,at',reduceCtorEq,Progress.returned.injEq,Res.size.injEq] at ticked
  case head head =>
    rw [at'] at known
    obtain rfl : head = s.queue.head := known
    exact ⟨⟨_,rfl⟩,ticked.symm⟩

/-- The consumer has loaded the head before: what it counts is still there. -/
theorem consumer_size
    (related : Related (simulation (fun _ => bits) (fun _ => small)) (machine V) (fun _ => True) s a)
    (returns : Returns s .consumer (.count .consumer) (.size count)) :
    count.toNat ≤ (a.abs ()).items.length := by
  have r : Represents bits s.queue (a.abs ()) := related.rel () trivial
  have wide : 2 ^ bits < 2 ^ 64 := Nat.pow_lt_pow_right (by decide) small
  have bound := r.bound
  obtain ⟨asked,ticked⟩ := returns
  have known : Mid bits (.count .consumer) (s.loc .consumer) s.queue (a.abs ()) :=
    related.mid .consumer () _ asked trivial
  cases at' : s.loc .consumer <;> simp only [tick,at',reduceCtorEq,Progress.returned.injEq,Res.size.injEq] at ticked
  case head head =>
    rw [at'] at known
    obtain ⟨number,inside,rfl⟩ := known
    rw [← ticked,BitVec.add_comm,BitVec.add_sub_cancel,BitVec.toNat_ofNat,Nat.mod_eq_of_lt (by omega)]
    exact inside

theorem push_succeeds {value : V} {res : Res V} (valid : Invariant bits a)
    (related : Related (simulation (fun _ => bits) (fun _ => small)) (machine V) (fun _ => True) s a)
    (seen : s.shared.sizes .producer = some count) (room : tnQueueSpscFull s.queue count = false)
    (returns : Returns s .producer (.push value) res) : res = .success [] := by
  have r : Represents bits s.queue (a.abs ()) := related.rel () trivial
  rw [related.shared] at seen
  have fewer := valid.producer count seen
  have within := valid.within count seen
  have wide : 2 ^ bits < 2 ^ 64 := Nat.pow_lt_pow_right (by decide) small
  have less : count.toNat ≠ 2 ^ bits := by
    intro equal
    have full : count = s.queue.capacity := by
      rw [r.capacity,← equal,BitVec.ofNat_toNat,BitVec.setWidth_eq]
    simp [tnQueueSpscFull,full] at room
  obtain ⟨asked,ticked⟩ := returns
  have known : Mid bits (.push value) (s.loc .producer) s.queue (a.abs ()) :=
    related.mid .producer () _ asked trivial
  cases at' : s.loc .producer <;> simp only [tick,at',reduceCtorEq,Progress.returned.injEq] at ticked
  case head head =>
    rw [at'] at known
    obtain rfl : head = s.queue.head := known
    split at ticked
    · next full =>
      rw [r.full_iff small] at full
      omega
    · simp at ticked
  case filled head => exact ticked.symm

theorem popBack_succeeds {res : Res V} (valid : Invariant bits a)
    (related : Related (simulation (fun _ => bits) (fun _ => small)) (machine V) (fun _ => True) s a)
    (seen : s.shared.sizes .consumer = some count) (some' : tnQueueSpscEmpty count = false)
    (returns : Returns s .consumer .popBack res) : ∃ value, res = .success [value] := by
  have r : Represents bits s.queue (a.abs ()) := related.rel () trivial
  rw [related.shared] at seen
  have more := valid.consumer count seen
  have nonzero : count.toNat ≠ 0 := by
    intro zero
    have none' : count = 0 := BitVec.eq_of_toNat_eq zero
    simp [tnQueueSpscEmpty,none'] at some'
  obtain ⟨asked,ticked⟩ := returns
  have known : Mid bits .popBack (s.loc .consumer) s.queue (a.abs ()) :=
    related.mid .consumer () _ asked trivial
  cases at' : s.loc .consumer <;> simp only [tick,at',reduceCtorEq,Progress.returned.injEq] at ticked
  case tail tail =>
    rw [at'] at known
    obtain rfl : tail = s.queue.tail := known
    split at ticked
    · next empty =>
      rw [r.empty_iff small] at empty
      simp [empty] at more
      omega
    · simp at ticked
  case taken tail value => exact ⟨value,ticked.symm⟩

end Runs

/-- For every interleaving of a producer and a consumer on a ring made by the setup: a count is
never more than the capacity, is exact for the producer when it loads the tail, and is no more
than what is queued for the consumer; so that a push after a count that was not full succeeds,
and a pop after a count that was not empty. Counts and statuses come from the indices alone:
whatever others store behind the block changes none of them. -/
theorem sizes_seen {V : Type} (allocation : Nat → V) (capacity : Word) (positive : 1 ≤ capacity.toNat)
    (bound : capacity.toNat ≤ 2 ^ 63) (q : Queue V) (created : setup (some allocation) capacity = some q)
    (start cache : Word) (s : State V)
    (reach : Transition.Reachable (ringStep q.room) (fun _ _ => True) (initial q start cache) s) :
    (∀ t count, Returns s t (.count t) (.size count) → count.toNat ≤ q.capacity.toNat) ∧
    (∀ count, Returns s .producer (.count .producer) (.size count) →
      (∃ head, s.loc .producer = .head head) ∧ count.toNat = s.queue.contents.length) ∧
    (∀ count, Returns s .consumer (.count .consumer) (.size count) → count.toNat ≤ s.queue.contents.length) ∧
    (∀ count value res, s.shared.sizes .producer = some count → tnQueueSpscFull s.queue count = false →
      Returns s .producer (.push value) res → res = .success []) ∧
    (∀ count res, s.shared.sizes .consumer = some count → tnQueueSpscEmpty count = false →
      Returns s .consumer .popBack res → ∃ value, res = .success [value]) := by
  have nonzero : capacity ≠ 0 := by
    rintro rfl
    exact absurd positive (by decide)
  obtain ⟨bits,small,rounded,-⟩ := roundCapacity_least nonzero bound
  obtain rfl := Option.some.inj created
  obtain ⟨a,valid,related⟩ := reachable_related small rounded rfl (reachable_blank reach)
  have r : Represents bits (s.map fun _ => ()).queue (a.abs ()) := related.rel () trivial
  have wide : 2 ^ bits < 2 ^ 64 := Nat.pow_lt_pow_right (by decide) small
  have contents : s.queue.contents.length = (a.abs ()).items.length := by
    rw [← map_contents fun _ => (),r.contents small]
  have greatest : (a.abs ()).items.length ≤ (roundCapacity capacity).toNat := by
    rw [rounded,BitVec.toNat_ofNat,Nat.mod_eq_of_lt wide]
    exact r.bound
  have producer : ∀ count, Returns s .producer (.count .producer) (.size count) →
      (∃ head, s.loc .producer = .head head) ∧ count.toNat = s.queue.contents.length := by
    intro count returns
    obtain ⟨⟨head,loaded⟩,size⟩ := producer_size small related (returns.map fun _ => ())
    exact ⟨⟨head,Loc.map_head loaded⟩,by rw [contents,size,r.size small]⟩
  have consumer : ∀ count, Returns s .consumer (.count .consumer) (.size count) →
      count.toNat ≤ s.queue.contents.length := by
    intro count returns
    rw [contents]
    exact consumer_size small related (returns.map fun _ => ())
  refine ⟨?_,producer,consumer,?_,?_⟩
  · intro t count returns
    cases t with
    | producer => exact Nat.le_trans ((producer count returns).2.trans contents).le greatest
    | consumer => exact Nat.le_trans (Nat.le_trans (consumer count returns) contents.le) greatest
  · intro count value res seen room returns
    exact Res.map_nil (push_succeeds small valid related seen room (returns.map fun _ => ()))
  · intro count res seen some' returns
    obtain ⟨_,taken⟩ := popBack_succeeds small valid related seen some' (returns.map fun _ => ())
    exact Res.map_single taken

/-- A push while the consumer counts: it has loaded the head before and sees one item of two. -/
def countingRun : List (SplitLabel Side (Op Nat)) :=
  [.act (.push 7),.tick .producer,.tick .producer,.tick .producer,.tick .producer,
    .act (.count .consumer),.tick .consumer,
    .act (.push 8),.tick .producer,.tick .producer,.tick .producer,.tick .producer]

theorem sizes_seen_counting :
    ∃ q s, setup (some fun _ => 0) 3 = some q ∧
      Transition.execute step countingRun (initial q (-1) 0) = some s ∧ s.queue.contents = [7,8] ∧
      Returns s .consumer (.count .consumer) (.size 1) ∧ (1 : Word).toNat ≤ s.queue.contents.length := by
  let q : Queue Nat := ⟨roundCapacity 3, roundCapacity 3 - 1, fun _ => 0, 5, 0, 0, 0⟩
  have observed : (Transition.execute step countingRun (initial q (-1) 0)).map
      (fun s => (s.queue.contents,request .consumer (s.pcs .consumer),s.loc .consumer,s.queue.tail)) =
      some ([7,8],some ((),.count .consumer),.head 0,-1) := by decide
  obtain ⟨s,run,taken⟩ := Option.map_eq_some_iff.mp observed
  simp only [Prod.mk.injEq] at taken
  obtain ⟨contents,asked,loaded,tail⟩ := taken
  have returns : Returns s .consumer (.count .consumer) (.size 1) := by
    refine ⟨asked,?_⟩
    rw [loaded,tick,tail]
    rfl
  refine ⟨q,s,rfl,run,contents,returns,?_⟩
  exact (sizes_seen (fun _ => 0) 3 (by decide) (by decide) q rfl (-1) 0 s
    (undisturbed (.of_execute (fun _ _ _ => trivial) run))).2.2.1 1 returns

end Tcpeen.QueueSpsc.Sizes
