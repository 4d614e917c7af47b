import Tcpeen.ReceiveBuffers
import Tcpeen.ReceiveConservation

/-! Read buffers over the steps of the queues. Two threads push to pool_read, whose queue
is made for one; as long as their pushes do not overlap, every buffer stays accounted for. -/
namespace Tcpeen.Receive

open SplitOperation QueueSpsc

/-- The queues and the free list as setup leaves them. -/
structure SetUp (cfg : Config) (free : ListPtr Nat) (mem : QueueName → Queue Nat) : Prop where
  list : ∃ data, clientListSetup data cfg.clientsMax = some free
  queues : ∀ q, Represents cfg.bits (mem q) ⟨filled cfg q, false⟩

def atomicInitial (cfg : Config) (free : ListPtr Nat) (blocks : Nat → Nat → UInt8) : Abstract where
  pcs := idle
  shared := start cfg free blocks
  abs := fun q => ⟨filled cfg q, false⟩

/-- The setup functions succeed and leave such a state. -/
theorem setUp_exists (cfg : Config) (data : Nat → Nat) (allocation : QueueName → Nat → Nat) :
    ∃ free mem, clientListSetup data cfg.clientsMax = some free ∧ SetUp cfg free mem ∧
      ∀ q, ∃ q₀, setup (some (allocation q)) (BitVec.ofNat 64 cfg.bufferCount) = some q₀ ∧
        fill q₀ (filledCount cfg q) = some (mem q) := by
  obtain ⟨free,built,-,-⟩ := clientListSetup_items data cfg.clientsMax
  have queue (q : QueueName) := setup_fill cfg.small (allocation q) _ cfg.rounded (filledCount cfg q) (by
    cases q
    · exact cfg.fits
    · exact Nat.le_refl _
    · exact Nat.zero_le _)
  choose first last made filled represents using queue
  exact ⟨free,last,built,⟨⟨data,built⟩,represents⟩,fun q => ⟨first q,made q,filled q⟩⟩

section Invariants

variable {cfg : Config} {free : ListPtr Nat} {blocks : Nat → Nat → UInt8} {sure : Prop} {a : Abstract}
  {guard : Abstract → AtomicLabel Thread Act Nat (Res Nat) → Prop}

theorem initial_events : Events cfg (view (atomicInitial cfg free blocks)) := by
  refine ⟨?_,by simp [view,atomicInitial,idle],by simp [view,atomicInitial,idle],trivial,rfl⟩
  intro e
  have count : (List.range (2 ^ cfg.bits)).count e = if e < 2 ^ cfg.bits then 1 else 0 := by
    rw [List.nodup_range.count]
    simp
  simp [view,atomicInitial,filled,filledCount,heldEvents,handEvents,idle,start,count]

theorem initial_buffers : Buffers cfg (view (atomicInitial cfg free blocks)) := by
  intro b
  have count : (List.range cfg.bufferCount).count b = if b < cfg.bufferCount then 1 else 0 := by
    rw [List.nodup_range.count]
    simp
  simp [view,atomicInitial,filled,filledCount,View.references,unreturned,idle,start,State.owners,count]

theorem reachable_events (orderly : ∀ a label, guard a label → Orderly sure a label)
    (reach : Transition.Reachable (atomic cfg) guard (atomicInitial cfg free blocks) a) :
    Events cfg (view a) :=
  reach.invariant (fun a => Events cfg (view a)) initial_events
    fun _ _ _ valid allowed taken => valid.move (step_move (orderly _ _ allowed) taken)

theorem atomic_sound (built : ∃ data, clientListSetup data cfg.clientsMax = some free)
    (orderly : ∀ a label, guard a label → Orderly sure a label)
    (reach : Transition.Reachable (atomic cfg) guard (atomicInitial cfg free blocks) a) :
    Sound cfg (view a).io (view a).s := by
  obtain ⟨data,built⟩ := built
  have begun : Sound cfg (view (atomicInitial cfg free blocks)).io (view (atomicInitial cfg free blocks)).s :=
    start_sound cfg built blocks
  exact reach.invariant (fun a => Sound cfg (view a).io (view a).s) begun
    fun _ _ _ valid allowed taken => valid.move (step_move (orderly _ _ allowed) taken)

theorem reachable_buffers (built : ∃ data, clientListSetup data cfg.clientsMax = some free)
    (orderly : ∀ a label, guard a label → Orderly True a label)
    (reach : Transition.Reachable (atomic cfg) guard (atomicInitial cfg free blocks) a) :
    Buffers cfg (view a) :=
  reach.invariant_with (fun a => Events cfg (view a) ∧ Sound cfg (view a).io (view a).s)
    (fun a => Buffers cfg (view a))
    (fun _ reached => ⟨reachable_events orderly reached,atomic_sound built orderly reached⟩) initial_buffers
    fun _ _ _ known valid allowed taken =>
      valid.move known.1 known.2 (step_move (orderly _ _ allowed) taken)

/-- A batch pop asks for at least one event. -/
theorem safe_of_limit (waiting : ∀ limit, a.pcs .main = .acquire limit → limit = BitVec.ofNat 64 cfg.bufferCount)
    (tracked : QueueName → Prop) :
    Safe (simulation (fun _ => cfg.bits) (fun _ => cfg.small)) (machine cfg) tracked a := by
  intro t q op asked _
  cases t with
  | main =>
    cases pc : a.pcs .main <;> simp only [machine,request,pc,reduceCtorEq,Option.some.injEq,
      Prod.mk.injEq] at asked
    case acquire limit =>
      obtain ⟨-,rfl⟩ := asked
      obtain rfl := waiting limit pc
      have wide : 2 ^ cfg.bits < 2 ^ 64 := Nat.pow_lt_pow_right (by decide) cfg.small
      have fits := cfg.fits
      have positive := cfg.positive
      change 0 < (BitVec.ofNat 64 cfg.bufferCount).toNat
      rw [BitVec.toNat_ofNat,Nat.mod_eq_of_lt (by omega)]
      exact positive
    all_goals
      obtain ⟨-,rfl⟩ := asked
      trivial
  | io =>
    cases pc : a.pcs .io <;> simp only [machine,request,pc,reduceCtorEq,Option.some.injEq,
      Prod.mk.injEq] at asked
    all_goals
      obtain ⟨-,rfl⟩ := asked
      trivial

theorem Events.safe (valid : Events cfg (view a)) (tracked : QueueName → Prop) :
    Safe (simulation (fun _ => cfg.bits) (fun _ => cfg.small)) (machine cfg) tracked a :=
  safe_of_limit (fun limit pc => (valid.waiting limit pc).1) tracked

/-- Only `tcp_service_events_acquire` pops batches. -/
theorem resumeMain_acquire (pc : MainPc) (res : Res Nat) (s : State) (limit : Word) :
    (resumeMain pc res s).1 ≠ .acquire limit := by
  unfold resumeMain
  split
  · simp
  · simp
  · exact releaseNext_not_acquire _ _ limit
  · simp

/-- Whatever the queues do, a batch pop asks for as many events as there are buffers. -/
theorem atomic_limit (reach : Transition.Reachable (atomic cfg) guard (atomicInitial cfg free blocks) a) :
    ∀ limit, a.pcs .main = .acquire limit → limit = BitVec.ofNat 64 cfg.bufferCount := by
  refine reach.invariant (fun a => ∀ limit, a.pcs .main = .acquire limit → limit = BitVec.ofNat 64 cfg.bufferCount)
    ?_ ?_
  · intro limit pc
    cases pc
  intro a label a' waiting _ taken limit pc
  have resumed (t : Thread) (res : Res Nat)
      (pc : Function.update a.pcs t (resume t (a.pcs t) res a.shared).1 .main = .acquire limit) :
      limit = BitVec.ofNat 64 cfg.bufferCount := by
    cases t with
    | main =>
      rw [Function.update_self] at pc
      exact absurd pc (resumeMain_acquire (a.pcs .main) res a.shared limit)
    | io => exact waiting limit pc
  cases label with
  | act b =>
    obtain ⟨free,r,done,rfl⟩ := atomicStep_act_cases taken
    cases b with
    | acquire =>
      obtain rfl := Option.some.inj done
      exact (MainPc.acquire.inj pc).symm
    | release =>
      obtain rfl := Option.some.inj done
      exact absurd pc (releaseNext_not_acquire _ _ limit)
    | _ => exact waiting limit pc
  | op t choice =>
    obtain ⟨q,op,abs,res,asked,specified,rfl⟩ := atomicStep_op_cases taken
    exact resumed t res pc
  | havoc t res =>
    obtain ⟨q,op,asked,rfl⟩ := atomicStep_havoc_cases taken
    exact resumed t res pc

end Invariants

/-- Calls of the two threads on one queue come from different endpoints, except that both
push to pool_read. -/
theorem request_apart {t other : Thread} {pc : Pc t} {pc' : Pc other} {q : QueueName} {op op' : Op Nat}
    (different : other ≠ t) (asked : request t pc = some (q, op)) (asked' : request other pc' = some (q, op')) :
    op.side ≠ op'.side ∨ q = .poolRead ∧ ∃ b b', op = .push b ∧ op' = .push b' := by
  cases t <;> cases other <;> first | exact absurd rfl different | skip
  all_goals
    cases pc <;> simp only [request,reduceCtorEq,Option.some.injEq,Prod.mk.injEq] at asked <;>
      obtain ⟨rfl,rfl⟩ := asked <;>
      cases pc' <;> simp only [request,reduceCtorEq,Option.some.injEq,Prod.mk.injEq,false_and] at asked' <;>
      obtain ⟨-,rfl⟩ := asked' <;> simp [Op.side]

/-- The main thread acquires and releases in turn. -/
def alternating (s : Running) : SplitLabel Thread Act → Bool
  | .act .acquire => !s.shared.acquired
  | .act .release => s.shared.acquired
  | _ => true

/-- The next call of the thread is a push to pool_read, or it is in the middle of one. -/
def pushesPool (s : Running) (t : Thread) : Bool :=
  match request t (s.pcs t) with
  | some (.poolRead, .push _) => true
  | _ => false

def otherThread : Thread → Thread
  | .main => .io
  | .io => .main

/-- No step of a push to pool_read is taken while the other thread has begun one. -/
def pushesApart (s : Running) : SplitLabel Thread Act → Bool
  | .tick t => !(pushesPool s t && pushesPool s (otherThread t) && decide (s.loc (otherThread t) ≠ .entry))
  | _ => true

/-- Every buffer is exactly once in the free queue, with a channel, or with a READ event
that is ready or in the batch of the main thread and whose buffer is still to be put back. -/
def Accounted (cfg : Config) (s : Running) : Prop :=
  ∀ b, b < cfg.bufferCount →
    (s.mem .poolRead).contents.count b + s.shared.owners cfg b +
      ((s.mem .eventsReady).contents ++ unreturned (s.pcs .main) s.shared).countP (s.shared.refers b) = 1

theorem pushes_exclusive {cfg : Config} {s : Running} {t : Thread} (apart : pushesApart s (.tick t) = true) :
    Exclusive (simulation (fun _ => cfg.bits) (fun _ => cfg.small)) (machine cfg) (fun _ => True) s t := by
  rintro q op asked - other op' different asked'
  rcases request_apart different asked asked' with sides | ⟨rfl,b,b',rfl,rfl⟩
  · exact .inr sides
  · left
    obtain rfl : other = otherThread t := by
      cases t <;> cases other <;> first | rfl | exact absurd rfl different
    simp only [machine] at asked asked'
    change s.loc (otherThread t) = .entry
    simpa [pushesApart,pushesPool,asked,asked'] using apart

theorem setUp_related {cfg : Config} {free : ListPtr Nat} {mem : QueueName → Queue Nat}
    (ready : SetUp cfg free mem) (blocks : Nat → Nat → UInt8) (tracked : QueueName → Prop) :
    Related (simulation (fun _ => cfg.bits) (fun _ => cfg.small)) (machine cfg) tracked
      (initial cfg free blocks mem) (atomicInitial cfg free blocks) := by
  refine ⟨rfl,rfl,fun q _ => ready.queues q,?_,fun _ _ => rfl⟩
  intro t q op asked
  cases t <;> simp [machine,request,initial,idle] at asked

section Runs

variable {cfg : Config} {free : ListPtr Nat} {mem : QueueName → Queue Nat} {blocks : Nat → Nat → UInt8}
  {s : Running}

/-- Such runs are runs of the atomic queues. -/
theorem apart_related (ready : SetUp cfg free mem)
    (reach : Transition.Reachable (step cfg)
      (fun s label => alternating s label = true ∧ pushesApart s label = true)
      (initial cfg free blocks mem) s) :
    ∃ a, Events cfg (view a) ∧ Buffers cfg (view a) ∧
      Related (simulation (fun _ => cfg.bits) (fun _ => cfg.small)) (machine cfg) (fun _ => True) s a := by
  obtain ⟨a,reached,related⟩ := refines (Orderly True) (setUp_related ready blocks fun _ => True)
    (fun a reached => (reachable_events (fun _ _ orderly => orderly) reached).safe _)
    (fun s t allowed => pushes_exclusive allowed.2)
    (by
      rintro s a b related ⟨turn,-⟩
      cases b with
      | acquire => simpa [alternating,related.shared,Orderly] using turn
      | release => simpa [alternating,related.shared,Orderly] using turn
      | _ => trivial)
    (fun _ _ _ _ _ _ _ _ _ _ _ _ _ => trivial)
    (fun _ _ _ _ _ _ _ _ _ _ outside => (outside trivial).elim) reach
  exact ⟨a,reachable_events (fun _ _ orderly => orderly) reached,
    reachable_buffers ready.list (fun _ _ orderly => orderly) reached,related⟩

end Runs

/-- In every run whose pushes to pool_read do not overlap, every read buffer is in one place. -/
theorem buffers_accounted (cfg : Config) (free : ListPtr Nat) (mem : QueueName → Queue Nat)
    (ready : SetUp cfg free mem) (blocks : Nat → Nat → UInt8) (s : Running)
    (reach : Transition.Reachable (step cfg)
      (fun s label => alternating s label = true ∧ pushesApart s label = true)
      (initial cfg free blocks mem) s) : Accounted cfg s := by
  obtain ⟨a,-,buffers,related⟩ := apart_related ready reach
  intro b inside
  have places := buffers b
  rw [if_pos inside] at places
  have contents (q : QueueName) : (s.mem q).contents = (a.abs q).items :=
    (related.rel q trivial).contents cfg.small
  rw [contents,contents,related.pcs,related.shared]
  exact places

def serviceStart : Running :=
  initial serviceConfig ⟨id,10000,10000⟩ (fun _ _ => 0)
    fun q => countedQueue serviceConfig.bits (filledCount serviceConfig q)

theorem serviceStart_setUp : SetUp serviceConfig ⟨id,10000,10000⟩ serviceStart.mem where
  list := ⟨id,clientListSetup_id 10000⟩
  queues := fun q => countedQueue_represents (by decide) (by cases q <;> decide)

def mainCall (steps : Nat) : List (SplitLabel Thread Act) := List.replicate steps (.tick .main)

/-- A READ event is on its way back to the pool when its connection ends with a second
buffer; the main thread puts the first buffer back. -/
def returningRun : List (SplitLabel Thread Act) :=
  connected ++ byteRead ++ .act .acquire :: mainCall 5 ++ .act .release :: mainCall 4 ++
    [.act (.read 0 .error),.act (.close 0)]

theorem buffers_accounted_returned :
    ∃ s, Transition.execute (Transition.checked (step serviceConfig)
        (fun s label => alternating s label && pushesApart s label))
        (returningRun ++ mainCall 4 ++ ioCall 4) serviceStart = some s ∧
      (s.mem .poolRead).head = 40002 ∧ Accounted serviceConfig s := by
  have observed : (Transition.execute (Transition.checked (step serviceConfig)
      (fun s label => alternating s label && pushesApart s label))
      (returningRun ++ mainCall 4 ++ ioCall 4) serviceStart).map (fun s => (s.mem .poolRead).head) =
        some 40002 := by decide +kernel
  obtain ⟨s,run,pushed⟩ := Option.map_eq_some_iff.mp observed
  refine ⟨s,run,pushed,buffers_accounted serviceConfig _ _ serviceStart_setUp _ s (.of_checked ?_ run)⟩
  intro s label passed
  simpa using passed

/-- The steps of two pushes of which the second begins before the first has stored. -/
def overlap : List (SplitLabel Thread Act) := [.tick .main,.tick .io] ++ mainCall 3 ++ ioCall 3

theorem overlap_alternating (s : Running) (label : SplitLabel Thread Act) (member : label ∈ overlap) :
    alternating s label = true := by
  simp only [overlap,mainCall,ioCall,List.mem_append,List.mem_cons,List.mem_replicate,List.not_mem_nil,
    or_false] at member
  rcases member with ((rfl | rfl) | ⟨-,rfl⟩) | ⟨-,rfl⟩ <;> rfl

/-- The rest of a push to pool_read that has loaded the head, without a step of the other thread. -/
theorem push_finishes {cfg : Config} {s : Running} {t : Thread} {b : Nat} {head : Word}
    (labels : List (SplitLabel Thread Act)) (asked : request t (s.pcs t) = some (.poolRead, .push b))
    (loc : s.loc t = .head head) (notFull : head - (s.mem .poolRead).tail ≠ (s.mem .poolRead).capacity) :
    ∃ s', Transition.execute (step cfg) (List.replicate 3 (.tick t) ++ labels) s =
        Transition.execute (step cfg) labels s' ∧
      s'.pcs = Function.update s.pcs t (resume t (s.pcs t) (.success []) s.shared).1 ∧
      s'.shared = (resume t (s.pcs t) (.success []) s.shared).2 ∧
      s'.mem = Function.update s.mem .poolRead
        { s.mem .poolRead with
          buffer := Function.update (s.mem .poolRead).buffer ((s.mem .poolRead).slot head) b
          head := head + 1 } ∧
      s'.loc = Function.update s.loc t .entry := by
  have asked' : (machine cfg).request t (s.pcs t) = some (.poolRead,.push b) := asked
  refine ⟨⟨_,_,_,_⟩,?_,rfl,rfl,rfl,rfl⟩
  simp only [List.replicate,List.cons_append,List.nil_append,Transition.execute,step,splitStep,asked',object,tick,loc,
    if_neg notFull,Option.bind_some,Function.update_self,Function.update_idem]
  rfl

/-- Both threads load the same head, so the second push overwrites the first. -/
theorem overlap_overwrites {cfg : Config} {s : Running} {e b h c b' : Nat} {rest : List Nat}
    {f : Fifo Nat} (main : s.pcs .main = .releasePool e b rest) (io : s.pcs .io = .closePush h c b')
    (entry : ∀ t, s.loc t = .entry) (r : Represents cfg.bits (s.mem .poolRead) f)
    (room : f.items.length < 2 ^ cfg.bits) :
    ∃ s', Transition.execute (step cfg) overlap s = some s' ∧
      s'.pcs .main = .releaseEvent e rest ∧ s'.pcs .io = .closePop h c ∧
      s'.shared = s.shared.setChannel c { s.shared.clientMap c with readBuffer := none } ∧
      Represents cfg.bits (s'.mem .poolRead) { f with items := f.items ++ [b'] } ∧
      s'.mem .eventsReady = s.mem .eventsReady := by
  have notFull : (s.mem .poolRead).head - (s.mem .poolRead).tail ≠ (s.mem .poolRead).capacity := by
    rw [ne_eq,r.full_iff cfg.small]
    exact Nat.ne_of_lt room
  let loaded : Running := { s with loc := fun _ => .head (s.mem .poolRead).head }
  have loads : step cfg s (.tick .main) =
      some { s with loc := Function.update s.loc .main (.head (s.mem .poolRead).head) } := by
    simp [step,splitStep,machine,request,main,entry,object,tick]
  have loads' : step cfg { s with loc := Function.update s.loc .main (.head (s.mem .poolRead).head) } (.tick .io) =
      some loaded := by
    have both : Function.update (Function.update s.loc .main (.head (s.mem .poolRead).head)) .io
        (.head (s.mem .poolRead).head) = fun _ => .head (s.mem .poolRead).head := by
      funext t
      cases t <;> rfl
    simp [step,splitStep,machine,request,io,entry,object,tick,both,loaded]
  have begun : Transition.execute (step cfg) overlap s =
      Transition.execute (step cfg) (List.replicate 3 (.tick .main)
        ++ (List.replicate 3 (.tick .io) ++ [])) loaded := by
    change (step cfg s (.tick .main)).bind (Transition.execute (step cfg) (.tick .io :: _)) = _
    rw [loads,Option.bind_some,Transition.execute,loads',Option.bind_some]
    rfl
  have asked : request .main (loaded.pcs .main) = some (.poolRead,.push b) := by
    rw [show loaded.pcs .main = _ from main]
    rfl
  obtain ⟨s₁,run₁,pcs₁,shared₁,mem₁,loc₁⟩ := push_finishes (List.replicate 3 (.tick .io) ++ []) asked rfl notFull
  have io₁ : s₁.pcs .io = .closePush h c b' := by
    rw [pcs₁]
    exact io
  have asked₁ : request .io (s₁.pcs .io) = some (.poolRead,.push b') := by
    rw [io₁]
    rfl
  obtain ⟨s₂,run₂,pcs₂,shared₂,mem₂,-⟩ := push_finishes [] asked₁ (by rw [loc₁]; rfl) (by rw [mem₁]; exact notFull)
  have first := r.write cfg.small b room
  have second := first.write cfg.small b' room
  refine ⟨s₂,by rw [begun,run₁,run₂]; rfl,?_,?_,?_,?_,?_⟩
  · rw [pcs₂,pcs₁]
    simp [loaded,main,resume,resumeMain]
  · rw [pcs₂,io₁,Function.update_self]
    rfl
  · rw [shared₂,shared₁,io₁]
    simp [loaded,main,resume,resumeMain,resumeIo]
  · rw [mem₂,mem₁]
    exact second.append b' room (by simp [Queue.slot])
  · rw [mem₂,mem₁]
    rfl

/-- A buffer is lost whenever a release and a close overlap so. -/
theorem overlap_loses {cfg : Config} {free : ListPtr Nat} {mem : QueueName → Queue Nat}
    {blocks : Nat → Nat → UInt8} {s : Running} {e b h c b' : Nat} {rest : List Nat}
    (ready : SetUp cfg free mem)
    (reach : Transition.Reachable (step cfg)
      (fun s label => alternating s label = true ∧ pushesApart s label = true)
      (initial cfg free blocks mem) s)
    (main : s.pcs .main = .releasePool e b rest) (io : s.pcs .io = .closePush h c b')
    (entry : ∀ t, s.loc t = .entry) :
    ∃ s', Transition.execute (step cfg) overlap s = some s' ∧
      (∀ t op, request t (s'.pcs t) ≠ some (.poolRead, op)) ∧ ¬ Accounted cfg s' := by
  obtain ⟨a,events,buffers,related⟩ := apart_related ready reach
  have contents (q : QueueName) : (s.mem q).contents = (a.abs q).items :=
    (related.rel q trivial).contents cfg.small
  have sound := reachable_sound ready.list.choose_spec reach
  have busy := sound.busy
  rw [io] at busy
  obtain ⟨inside,-,-⟩ := sound.attached h c busy.1.1
  have main' : (view a).main = .releasePool e b rest := by rw [← main,related.pcs]; rfl
  have shared : (view a).s = s.shared := related.shared.symm
  obtain ⟨type,buffer⟩ := events.returning e b rest main'
  have refers : s.shared.refers b e = true := by
    rw [shared] at type buffer
    simp [State.refers,type,buffer]
  have references : (view a).references b =
      ((a.abs .eventsReady).items ++ rest).countP (s.shared.refers b) + 1 := by
    simp only [View.references,main',unreturned,shared,List.countP_append,List.countP_cons,refers,if_true]
    rfl
  obtain ⟨small,room⟩ := buffers.room (b := b) (by omega)
  obtain ⟨s',run,pc,pc',shared',pool,same⟩ :=
    overlap_overwrites main io entry (related.rel .poolRead trivial) room
  refine ⟨s',run,?_,fun accounted => ?_⟩
  · intro t op
    cases t
    · simp [pc,request]
    · simp [pc',request]
  have before := buffers b
  have after := accounted b small
  have moved := owners_setChannel s.shared inside { s.shared.clientMap c with readBuffer := none } b
  have refers' : s'.shared.refers b = s.shared.refers b := by rw [shared']; rfl
  rw [pool.contents cfg.small,same,contents,pc,refers',shared'] at after
  rw [references,if_pos small,shared] at before
  simp only [busy.2,Option.none_beq_some,Bool.false_eq_true,if_false,Option.some_beq_some,beq_iff_eq] at moved
  simp only [unreturned,List.count_append,List.count_singleton,beq_iff_eq] at after
  change List.count b (a.abs .poolRead).items + _ + _ = 1 at before
  omega

/-- With the sizes of the service: buffer 0 is lost while no call on pool_read is in progress. -/
theorem buffer_lost_by_overlap :
    SetUp serviceConfig ⟨id,10000,10000⟩ serviceStart.mem ∧
      ∃ s, Transition.Reachable (step serviceConfig) (fun s label => alternating s label = true) serviceStart s ∧
        (∀ t op, request t (s.pcs t) ≠ some (.poolRead, op)) ∧ ¬ Accounted serviceConfig s := by
  have observed : (Transition.execute (Transition.checked (step serviceConfig)
      (fun s label => alternating s label && pushesApart s label)) returningRun serviceStart).map
        (fun s => (s.pcs .main,s.pcs .io,s.loc .main,s.loc .io)) =
      some (.releasePool 1 0 [],.closePush 0 9999 1,.entry,.entry) := by decide +kernel
  obtain ⟨s,run,final⟩ := Option.map_eq_some_iff.mp observed
  simp only [Prod.mk.injEq] at final
  obtain ⟨main,io,first,second⟩ := final
  have reach : Transition.Reachable (step serviceConfig)
      (fun s label => alternating s label = true ∧ pushesApart s label = true) serviceStart s := by
    refine .of_checked ?_ run
    intro s label passed
    simpa using passed
  obtain ⟨s',run',quiet,lost⟩ := overlap_loses serviceStart_setUp reach main io
    (by intro t; cases t <;> assumption)
  have before := reach.weaken fun s label allowed => allowed.1
  exact ⟨serviceStart_setUp,s',before.trans (.of_execute overlap_alternating run'),quiet,lost⟩

end Tcpeen.Receive
