import Tcpeen.ServiceSources

/-! The echo server of tcpserv_unity.c: the loop of its main thread on top of the service.
While it sleeps the IO thread runs; both may take turns at every other place too. -/
namespace Tcpeen.Echo

open SplitOperation QueueSpsc

/-- The main thread sleeps or returns a batch, or has come to an index of the `for` loop. -/
inductive Loop
  | sleeping
  | batch (eidx : Nat)
  deriving DecidableEq, Repr

/-- The steps of the main loop, and whatever the IO thread does. -/
inductive Act
  | acquire
  | handle
  | release
  | io (a : Service.Act)
  deriving DecidableEq, Repr

abbrev Pc := Service.Pc

abbrev State := Service.State × Loop

/-- `handle_client_read` up to the first queue operation of `tcp_service_send`. A failure is
logged. A READ event without a buffer would be read through a null pointer. -/
def handleClientRead (cfg : Config) (e : Nat) (pc : Pc .main) (s : Service.State) :
    Option (Pc .main × Service.State) :=
  match Service.channelListGet cfg (s.1.events e).clientId with
  | none => some (pc, s)
  | some channel =>
    (s.1.events e).tnBuffer.bind fun b =>
      let buffer := (s.1.buffers b).readReset
      (Send.act (.send ⟨channel, buffer.unread, some (s.1.events e).source⟩) pc.2 s.2).map fun r =>
        ((pc.1, r.1), (s.1.setBuffer b buffer, r.2))

@[reducible] def actor (cfg : Config) : Act → Thread
  | .io a => Service.actor cfg a
  | _ => .main

def act (cfg : Config) : (a : Act) → Pc (actor cfg a) → State → Option (Pc (actor cfg a) × State)
  | .acquire, pc, (s, .sleeping) =>
    ((Service.machine cfg).act (.inl .acquire) pc s).map fun r => (r.1, (r.2, .batch 0))
  | .handle, pc, (s, .batch eidx) =>
    match s.1.eventUpdates[eidx]? with
    | none => none
    | some e =>
      match (s.1.events e).type with
      | .clientRead => (handleClientRead cfg e pc s).map fun r => (r.1, (r.2, .batch (eidx + 1)))
      | _ => some (pc, (s, .batch (eidx + 1)))
  | .release, pc, (s, .batch eidx) =>
    if eidx < s.1.eventUpdates.length then none
    else ((Service.machine cfg).act (.inl .release) pc s).map fun r => (r.1, (r.2, .sleeping))
  | .io a, pc, (s, loop) =>
    if Service.actor cfg a = .io then ((Service.machine cfg).act a pc s).map fun r => (r.1, (r.2, loop))
    else none
  | _, _, _ => none

def machine (cfg : Config) : Machine Thread Pc Service.QueueName (Op Nat) (Res Nat) State Act where
  request := (Service.machine cfg).request
  resume t pc res s :=
    let r := (Service.machine cfg).resume t pc res s.1
    (r.1, (r.2, s.2))
  actor := actor cfg
  act := act cfg

abbrev Running := Split Thread Pc Service.QueueName (Queue Nat) (Loc Nat) State

abbrev Abstract := Atomic Thread Pc Service.QueueName (Fifo Nat) State

def step (cfg : Config) : Running → SplitLabel Thread Act → Option Running :=
  splitStep (object Service.QueueName Nat) (machine cfg)

def atomic (cfg : Config) : Abstract → AtomicLabel Thread Act Nat (Res Nat) → Option Abstract :=
  atomicStep (spec fun _ => cfg.bits) (machine cfg)

/-- The service has been set up and started. -/
def initial (cfg : Config) (free : ListPtr Nat) (readBlocks writeBlocks : Nat → Nat → UInt8)
    (mem : Service.QueueName → Queue Nat) : Running where
  pcs := Service.idle
  shared := ((Service.initial cfg free readBlocks writeBlocks mem).shared, .sleeping)
  mem := mem
  loc := fun _ => .entry

def atomicInitial (cfg : Config) (free : ListPtr Nat) (readBlocks writeBlocks : Nat → Nat → UInt8) : Abstract where
  pcs := Service.idle
  shared := ((Service.atomicInitial cfg free readBlocks writeBlocks).shared, .sleeping)
  abs := (Service.atomicInitial cfg free readBlocks writeBlocks).abs

/-- The state of the service. -/
def plain (a : Abstract) : Service.Abstract := ⟨a.pcs, a.shared.1, a.abs⟩

/-- Every queue operation is one step, and no channel is given to a second connection. -/
def Exact (a : Abstract) : AtomicLabel Thread Act Nat (Res Nat) → Prop
  | .act (.io (.inl (.connection failure))) => ∀ c, Service.reopened failure a.shared.1.1 = some c →
      Service.privOf a.shared.1.1 c = none
  | .havoc _ _ => False
  | _ => True

section Cases

variable {cfg : Config} {a a' : Abstract}

theorem op_plain {t : Thread} {choice : Nat} (taken : atomic cfg a (.op t choice) = some a') :
    Service.atomic cfg (plain a) (.op t choice) = some (plain a') ∧ a'.shared.2 = a.shared.2 := by
  obtain ⟨q,op,abs,res,asked,specified,rfl⟩ := atomicStep_op_cases taken
  have asked' : (Service.machine cfg).request t ((plain a).pcs t) = some (q,op) := asked
  have specified' : spec (fun _ => cfg.bits) q op ((plain a).abs q) choice = some (abs,res) := specified
  refine ⟨?_,rfl⟩
  simp only [Service.atomic,atomicStep,asked',specified']
  rfl

/-- An action that is one of the service. -/
theorem act_plain {b : Service.Act} {r : Pc (Service.actor cfg b) × Service.State} {loop : Loop}
    (quiet : (Service.machine cfg).request _ (a.pcs (Service.actor cfg b)) = none)
    (ran : (Service.machine cfg).act b (a.pcs (Service.actor cfg b)) a.shared.1 = some r) :
    Service.atomic cfg (plain a) (.act b) =
      some (plain { a with pcs := Function.update a.pcs (Service.actor cfg b) r.1, shared := (r.2, loop) }) := by
  have quiet' : (Service.machine cfg).request _ ((plain a).pcs ((Service.machine cfg).actor b)) = none := quiet
  have ran' : (Service.machine cfg).act b ((plain a).pcs ((Service.machine cfg).actor b)) (plain a).shared = some r :=
    ran
  simp only [Service.atomic,atomicStep,quiet',ran']
  rfl

theorem acquire_cases (taken : atomic cfg a (.act .acquire) = some a') :
    a.shared.2 = .sleeping ∧ Service.atomic cfg (plain a) (.act (.inl .acquire)) = some (plain a') ∧
      a'.shared.2 = .batch 0 := by
  obtain ⟨quiet,r,done,rfl⟩ := atomicStep_act_cases taken
  have done' : act cfg .acquire (a.pcs .main) (a.shared.1,a.shared.2) = some r := done
  cases loop : a.shared.2 with
  | batch eidx =>
    rw [loop] at done'
    cases done'
  | sleeping =>
    rw [loop] at done'
    obtain ⟨r,ran,rfl⟩ := Option.map_eq_some_iff.mp done'
    exact ⟨rfl,act_plain quiet ran,rfl⟩

theorem release_cases (taken : atomic cfg a (.act .release) = some a') :
    (∃ eidx, a.shared.2 = .batch eidx ∧ a.shared.1.1.eventUpdates.length ≤ eidx) ∧
      Service.atomic cfg (plain a) (.act (.inl .release)) = some (plain a') ∧ a'.shared.2 = .sleeping := by
  obtain ⟨quiet,r,done,rfl⟩ := atomicStep_act_cases taken
  have done' : act cfg .release (a.pcs .main) (a.shared.1,a.shared.2) = some r := done
  cases loop : a.shared.2 with
  | sleeping =>
    rw [loop] at done'
    cases done'
  | batch eidx =>
    rw [loop] at done'
    simp only [act] at done'
    split at done'
    case isTrue => contradiction
    next all =>
    obtain ⟨r,ran,rfl⟩ := Option.map_eq_some_iff.mp done'
    exact ⟨⟨eidx,rfl,Nat.le_of_not_lt all⟩,act_plain quiet ran,rfl⟩

theorem io_cases {b : Service.Act} (taken : atomic cfg a (.act (.io b)) = some a') :
    Service.actor cfg b = .io ∧ Service.atomic cfg (plain a) (.act b) = some (plain a') ∧
      a'.shared.2 = a.shared.2 := by
  obtain ⟨quiet,r,done,rfl⟩ := atomicStep_act_cases taken
  have done' : act cfg (.io b) (a.pcs (Service.actor cfg b)) (a.shared.1,a.shared.2) = some r := done
  simp only [act] at done'
  split at done'
  case isFalse => contradiction
  next own =>
  obtain ⟨r,ran,rfl⟩ := Option.map_eq_some_iff.mp done'
  exact ⟨own,act_plain quiet ran,rfl⟩

/-- One turn of the `for` loop. -/
theorem handle_cases (taken : atomic cfg a (.act .handle) = some a') :
    (Service.machine cfg).request .main (a.pcs .main) = none ∧
      ∃ eidx e, a.shared.2 = .batch eidx ∧ a.shared.1.1.eventUpdates[eidx]? = some e ∧
        a'.shared.2 = .batch (eidx + 1) ∧
        ((a.shared.1.1.events e).type ≠ .clientRead ∧ plain a' = plain a ∨
          (a.shared.1.1.events e).type = .clientRead ∧
            ∃ r, handleClientRead cfg e (a.pcs .main) a.shared.1 = some r ∧
              plain a' = { plain a with pcs := Function.update a.pcs .main r.1, shared := r.2 }) := by
  obtain ⟨quiet,r,done,rfl⟩ := atomicStep_act_cases taken
  have done' : act cfg .handle (a.pcs .main) (a.shared.1,a.shared.2) = some r := done
  refine ⟨quiet,?_⟩
  cases loop : a.shared.2 with
  | sleeping =>
    rw [loop] at done'
    cases done'
  | batch eidx =>
    rw [loop] at done'
    simp only [act] at done'
    split at done'
    · contradiction
    · next e listed =>
      split at done'
      · next type =>
        obtain ⟨r,ran,rfl⟩ := Option.map_eq_some_iff.mp done'
        exact ⟨eidx,e,rfl,listed,rfl,.inr ⟨type,r,ran,rfl⟩⟩
      · next type =>
        obtain rfl := Option.some.inj done'
        refine ⟨eidx,e,rfl,listed,rfl,.inl ⟨type,?_⟩⟩
        have same : Function.update a.pcs .main (a.pcs .main) = a.pcs := Function.update_eq_self ..
        simp only [plain]
        exact congrArg (fun pcs => Atomic.mk pcs a.shared.1 a.abs) same

end Cases

/-- The send that echoes a READ event. -/
def reply (d : Receive.Delivery) : Send.Sent := ⟨d.notice.clientId, d.payload, some d.notice.source⟩

section Handle

variable {cfg : Config} {a : Service.Abstract} {e : Nat}

/-- The batch is the last part of what has been delivered. -/
theorem batch_delivered (known : Service.Known cfg a) (idle : (a.pcs .main).1 = .idle)
    (acquired : a.shared.1.acquired = true) :
    a.shared.1.eventUpdates.map a.shared.1.delivery <:+ a.shared.1.delivered := by
  have batch := known.streams.batch
  have held : Receive.unreturned (Receive.view a.left).main (Receive.view a.left).s = a.shared.1.eventUpdates := by
    rw [show (Receive.view a.left).main = .idle from idle]
    exact if_pos acquired
  rwa [held] at batch

/-- The connection of an event in a batch has its channel. -/
theorem batch_attached (known : Service.Known cfg a) (idle : (a.pcs .main).1 = .idle)
    (acquired : a.shared.1.acquired = true) (member : e ∈ a.shared.1.eventUpdates) :
    a.shared.1.delivery e ∈ a.shared.1.delivered ∧ Receive.Attached cfg a.shared.1 (a.shared.1.notice e) := by
  have delivered : a.shared.1.delivery e ∈ a.shared.1.delivered :=
    (batch_delivered known idle acquired).subset (List.mem_map_of_mem member)
  refine ⟨delivered,known.sourced _ ?_⟩
  have log : a.shared.1.delivered.map (·.notice) ++ (Receive.view a.left).ready.map a.shared.1.notice =
      a.shared.1.queued := known.events.log
  rw [← log]
  exact List.mem_append_left _ (List.mem_map_of_mem delivered)

/-- The buffer of a READ event in a batch is read as the event has it. -/
theorem batch_unread (known : Service.Known cfg a) (idle : (a.pcs .main).1 = .idle)
    (acquired : a.shared.1.acquired = true) (member : e ∈ a.shared.1.eventUpdates)
    (type : (a.shared.1.events e).type = .clientRead) {b : Nat} (buffer : (a.shared.1.events e).tnBuffer = some b) :
    (a.shared.1.buffers b).readReset = a.shared.1.buffers b ∧
      (a.shared.1.buffers b).unread = a.shared.1.payload e := by
  refine ⟨(known.blocks.untapped b).readReset (known.streams.valid b),?_⟩
  refine (known.blocks.whole e ?_ b ?_).symm
  · refine List.mem_append_right _ ?_
    rw [show (Receive.view a.left).main = .idle from idle]
    simp only [Receive.unreturned]
    rw [if_pos (show (Receive.view a.left).s.acquired = true from acquired)]
    exact member
  · simp [Receive.State.refers,show (Receive.view a.left).s.events e = a.shared.1.events e from rfl,type,buffer]

/-- `handle_client_read` sends what the event carries to the channel of its connection. -/
theorem handled_sends (known : Service.Known cfg a) (quiet : (Service.machine cfg).request .main (a.pcs .main) = none)
    (acquired : a.shared.1.acquired = true) (member : e ∈ a.shared.1.eventUpdates)
    (type : (a.shared.1.events e).type = .clientRead) {r : Pc .main × Service.State}
    (ran : handleClientRead cfg e (a.pcs .main) a.shared = some r) :
    Service.atomic cfg a (.act (.inr (.send (reply (a.shared.1.delivery e))))) =
      some { a with pcs := Function.update a.pcs .main r.1, shared := r.2 } := by
  have idle : (a.pcs .main).1 = .idle := Receive.request_idle_main (join_request_none quiet).1
  obtain ⟨delivered,-,-,-,inside⟩ := batch_attached known idle acquired member
  have channel : Service.channelListGet cfg (a.shared.1.events e).clientId = some (a.shared.1.events e).clientId :=
    if_neg (Nat.not_le.mpr inside)
  simp only [handleClientRead,channel] at ran
  obtain ⟨b,buffer,ran⟩ := Option.bind_eq_some_iff.mp ran
  obtain ⟨same,unread⟩ := batch_unread known idle acquired member type buffer
  have kept : a.shared.1.setBuffer b (a.shared.1.buffers b) = a.shared.1 := by
    rw [Receive.State.setBuffer,Function.update_eq_self]
  rw [same,unread,kept] at ran
  have sends : Send.act (.send (reply (a.shared.1.delivery e))) (a.pcs .main).2 a.shared.2 =
      Send.act (.send ⟨(a.shared.1.events e).clientId,a.shared.1.payload e,some (a.shared.1.events e).source⟩)
        (a.pcs .main).2 a.shared.2 := rfl
  obtain ⟨x,sent,rfl⟩ := Option.map_eq_some_iff.mp ran
  have known' : Service.allowed cfg (.inr (.send (reply (a.shared.1.delivery e)))) (a.pcs .main) a.shared = true := by
    simp only [Service.allowed,reply,Service.readFrom,List.any_eq_true]
    refine ⟨_,delivered,?_⟩
    simp only [Receive.State.delivery,Receive.State.notice,type,channel,Bool.and_eq_true,beq_iff_eq,and_self]
  have quiet' : (Service.machine cfg).request _
      (a.pcs ((Service.machine cfg).actor (.inr (.send (reply (a.shared.1.delivery e)))))) = none := quiet
  have ran' : (Service.machine cfg).act (.inr (.send (reply (a.shared.1.delivery e))))
      (a.pcs ((Service.machine cfg).actor (.inr (.send (reply (a.shared.1.delivery e)))))) a.shared =
        some (((a.pcs .main).1,x.1),(a.shared.1,x.2)) := by
    have sent' : Send.machine.act (.send (reply (a.shared.1.delivery e))) (a.pcs .main).2 a.shared.2 = some x :=
      sends.trans sent
    change (Service.machine cfg).act (.inr (.send (reply (a.shared.1.delivery e)))) (a.pcs .main) a.shared = _
    simp only [Service.machine,join]
    rw [if_pos known',sent']
    rfl
  simp only [Service.atomic,atomicStep,quiet',ran']
  rfl

end Handle

/-- The IO thread leaves the batch to the main thread. -/
structure SameBatch (s s' : Receive.State) : Prop where
  acquired : s'.acquired = s.acquired
  updates : s'.eventUpdates = s.eventUpdates
  delivered : s'.delivered = s.delivered

theorem SameBatch.of_quiet {s s' : Receive.State} (quiet : Receive.Quiet s s') : SameBatch s s' :=
  ⟨quiet.acquired,quiet.updates,quiet.delivered⟩

theorem resumeIo_sameBatch (pc : Receive.IoPc) (res : Res Nat) (s : Receive.State) :
    SameBatch s (Receive.resumeIo pc res s).2 := by
  unfold Receive.resumeIo
  repeat' split
  all_goals exact ⟨rfl,rfl,rfl⟩

theorem act_sameBatch {cfg : Config} {b : Receive.Act} {pc : Receive.Pc (Receive.actor b)} {s : Receive.State}
    {r : Receive.Pc (Receive.actor b) × Receive.State} (own : Receive.actor b = .io)
    (done : Receive.act cfg b pc s = some r) : SameBatch s r.2 := by
  cases b with
  | acquire => cases own
  | release => cases own
  | connection failure =>
    obtain rfl := Option.some.inj done
    exact .of_quiet (Receive.onConnection_quiet failure s).1
  | alloc h =>
    simp only [Receive.act] at done
    split at done
    · split at done
      · obtain rfl := Option.some.inj done
        exact .of_quiet (Receive.onRecvAlloc_quiet h _ s).1
      · contradiction
    · contradiction
  | read h result =>
    simp only [Receive.act] at done
    split at done
    · split at done
      · exact .of_quiet (Receive.onRecv_quiet done).1
      · contradiction
    · contradiction
  | close h =>
    simp only [Receive.act] at done
    split at done
    · obtain rfl := Option.some.inj done
      exact .of_quiet (Receive.onClose_quiet h s).1
    · contradiction

section Service

variable {cfg : Config} {a a' : Service.Abstract}

/-- What an action of the IO thread does to the receiving half. -/
theorem io_act_kept {b : Service.Act} (own : Service.actor cfg b = .io)
    (taken : Service.atomic cfg a (.act b) = some a') :
    (a'.pcs .main).1 = (a.pcs .main).1 ∧ SameBatch a.shared.1 a'.shared.1 := by
  obtain ⟨-,⟨b,rfl,step,-⟩ | ⟨b,rfl,-,same⟩⟩ := join_act_cases taken
  · obtain ⟨-,r,done,eq⟩ := atomicStep_act_cases step
    have own' : Receive.actor b = .io := own
    have main : a'.left.pcs .main = a.left.pcs .main := by
      rw [eq]
      exact Function.update_of_ne (by rw [show (Receive.machine cfg).actor b = .io from own]; simp) ..
    have shared : a'.left.shared = r.2 := by rw [eq]
    refine ⟨main,?_⟩
    rw [show a'.shared.1 = r.2 from shared]
    exact act_sameBatch own' done
  · have main := congrArg (fun x : Receive.Abstract => x.pcs .main) same
    have shared : a'.shared.1 = a.shared.1 := congrArg Atomic.shared same
    rw [shared]
    exact ⟨main,⟨rfl,rfl,rfl⟩⟩

/-- What a queue operation does to it. -/
theorem op_kept {t : Thread} {choice : Nat} (taken : Service.atomic cfg a (.op t choice) = some a') :
    ((a'.pcs .main).1 = (a.pcs .main).1 ∧ SameBatch a.shared.1 a'.shared.1) ∨
      Receive.request .main (a.pcs .main).1 ≠ none ∧
        ∃ res, (a'.pcs .main).1 = (Receive.resumeMain (a.pcs .main).1 res a.shared.1).1 ∧
          a'.shared.1 = (Receive.resumeMain (a.pcs .main).1 res a.shared.1).2 := by
  rcases join_op_cases taken with ⟨step,-⟩ | ⟨-,same⟩
  · obtain ⟨q,op,abs,res,asked,-,eq⟩ := atomicStep_op_cases step
    cases t with
    | io =>
      have main : a'.left.pcs .main = a.left.pcs .main := by rw [eq]; rfl
      have shared : a'.left.shared = (Receive.resumeIo (a.pcs .io).1 res a.shared.1).2 := by rw [eq]; rfl
      refine .inl ⟨main,?_⟩
      rw [show a'.shared.1 = _ from shared]
      exact resumeIo_sameBatch ..
    | main =>
      have main : a'.left.pcs .main = (Receive.resumeMain (a.pcs .main).1 res a.shared.1).1 := by rw [eq]; rfl
      have shared : a'.left.shared = (Receive.resumeMain (a.pcs .main).1 res a.shared.1).2 := by rw [eq]; rfl
      refine .inr ⟨?_,res,main,shared⟩
      have asked' : Receive.request .main (a.pcs .main).1 = some (q,op) := asked
      rw [asked']
      exact Option.some_ne_none _
  · have main := congrArg (fun x : Receive.Abstract => x.pcs .main) same
    have shared : a'.shared.1 = a.shared.1 := congrArg Atomic.shared same
    rw [shared]
    exact .inl ⟨main,⟨rfl,rfl,rfl⟩⟩

end Service

def Releasing : Receive.MainPc → Prop
  | .releasePool .. | .releaseEvent .. => True
  | _ => False

/-- The loop acquires and releases in turn. -/
def Paced (main : Receive.MainPc) (acquired : Bool) : Loop → Prop
  | .sleeping => main = .idle ∧ acquired = false ∨ Releasing main
  | .batch eidx => acquired = true ∧ (main = .idle ∨ eidx = 0 ∧ ∃ limit, main = .acquire limit)

theorem releaseNext_paced (s : Receive.State) (l : List Nat) :
    Paced (Receive.releaseNext s l).1 (Receive.releaseNext s l).2.acquired .sleeping := by
  unfold Receive.releaseNext
  split
  · exact .inl ⟨rfl,rfl⟩
  · split <;> exact .inr trivial

theorem resumeMain_paced {main : Receive.MainPc} {s : Receive.State} {loop : Loop} (paced : Paced main s.acquired loop)
    (asked : Receive.request .main main ≠ none) (res : Res Nat) :
    Paced (Receive.resumeMain main res s).1 (Receive.resumeMain main res s).2.acquired loop := by
  cases main with
  | idle => exact absurd rfl asked
  | acquire limit =>
    cases loop with
    | sleeping =>
      rcases paced with ⟨idle,-⟩ | releasing
      · cases idle
      · exact releasing.elim
    | batch eidx => cases res <;> exact ⟨paced.1,.inl rfl⟩
  | releasePool e b rest =>
    cases loop with
    | sleeping => exact .inr trivial
    | batch eidx => rcases paced.2 with idle | ⟨-,limit,waiting⟩ <;> contradiction
  | releaseEvent e rest =>
    cases loop with
    | sleeping => exact releaseNext_paced s rest
    | batch eidx => rcases paced.2 with idle | ⟨-,limit,waiting⟩ <;> contradiction

theorem acquire_replying {a : Abstract} (paced : Paced (a.pcs .main).1 a.shared.1.1.acquired a.shared.2)
    (loop : a.shared.2 = .sleeping) (idle : (a.pcs .main).1 = .idle) :
    Service.Replying (plain a) (.act (.inl .acquire)) := by
  rw [loop,idle] at paced
  rcases paced with ⟨-,released⟩ | releasing
  · exact released
  · exact releasing.elim

/-- The run is one of the service, and the loop is in step with it. -/
structure Following (cfg : Config) (free : ListPtr Nat) (readBlocks writeBlocks : Nat → Nat → UInt8)
    (a : Abstract) : Prop where
  reached : Transition.Reachable (Service.atomic cfg) Service.Replying
    (Service.atomicInitial cfg free readBlocks writeBlocks) (plain a)
  paced : Paced (a.pcs .main).1 a.shared.1.1.acquired a.shared.2

section Following

variable {cfg : Config} {free : ListPtr Nat} {readBlocks writeBlocks : Nat → Nat → UInt8} {a a' : Abstract}

/-- An action of the IO thread is one of a replying run. -/
theorem io_replying {b : Service.Act} (own : Service.actor cfg b = .io) (exact' : Exact a (.act (.io b))) :
    Service.Replying (plain a) (.act b) := by
  rcases b with (b | b)
  · cases b with
    | acquire => cases own
    | release => cases own
    | connection failure => exact exact'
    | _ => trivial
  · cases b with
    | send sent => cases own
    | _ => trivial

theorem acquire_effect (taken : Service.atomic cfg (plain a) (.act (.inl .acquire)) = some (plain a')) :
    (a.pcs .main).1 = .idle ∧ (a'.pcs .main).1 = .acquire (BitVec.ofNat 64 cfg.bufferCount) ∧
      a'.shared.1.1 = { a.shared.1.1 with eventUpdates := [], acquired := true } := by
  obtain ⟨-,⟨b,same,step,-⟩ | ⟨b,same,-⟩⟩ := join_act_cases taken
  · obtain rfl := Sum.inl.inj same
    obtain ⟨quiet,r,done,eq⟩ := atomicStep_act_cases step
    obtain rfl := Option.some.inj done
    have main : (plain a').left.pcs .main = .acquire (BitVec.ofNat 64 cfg.bufferCount) := by rw [eq]; rfl
    have shared : (plain a').left.shared = { a.shared.1.1 with eventUpdates := [], acquired := true } := by
      rw [eq]
      rfl
    exact ⟨Receive.request_idle_main quiet,main,shared⟩
  · cases same

theorem release_effect (taken : Service.atomic cfg (plain a) (.act (.inl .release)) = some (plain a')) :
    (a'.pcs .main).1 = (Receive.releaseNext a.shared.1.1 a.shared.1.1.eventUpdates).1 ∧
      a'.shared.1.1 = (Receive.releaseNext a.shared.1.1 a.shared.1.1.eventUpdates).2 := by
  obtain ⟨-,⟨b,same,step,-⟩ | ⟨b,same,-⟩⟩ := join_act_cases taken
  · obtain rfl := Sum.inl.inj same
    obtain ⟨-,r,done,eq⟩ := atomicStep_act_cases step
    obtain rfl := Option.some.inj done
    have main : (plain a').left.pcs .main =
        (Receive.releaseNext a.shared.1.1 a.shared.1.1.eventUpdates).1 := by rw [eq]; rfl
    have shared : (plain a').left.shared =
        (Receive.releaseNext a.shared.1.1 a.shared.1.1.eventUpdates).2 := by rw [eq]; rfl
    exact ⟨main,shared⟩
  · cases same

/-- A send of the service leaves the receiving half alone. -/
theorem send_kept {sent : Send.Sent} {a a' : Service.Abstract}
    (taken : Service.atomic cfg a (.act (.inr (.send sent))) = some a') :
    (a'.pcs .main).1 = (a.pcs .main).1 ∧ a'.shared.1 = a.shared.1 := by
  obtain ⟨-,⟨b,same,-⟩ | ⟨b,-,-,left⟩⟩ := join_act_cases taken
  · cases same
  · exact ⟨congrArg (fun x : Receive.Abstract => x.pcs .main) left,congrArg Atomic.shared left⟩

/-- The turn of the `for` loop on a READ event is a send of the service. -/
theorem Following.handle (following : Following cfg free readBlocks writeBlocks a)
    (known : Service.Known cfg (plain a)) {eidx e : Nat} (loop : a.shared.2 = .batch eidx)
    (listed : a.shared.1.1.eventUpdates[eidx]? = some e) (type : (a.shared.1.1.events e).type = .clientRead)
    (quiet : (Service.machine cfg).request .main (a.pcs .main) = none) {r : Pc .main × Service.State}
    (ran : handleClientRead cfg e (a.pcs .main) a.shared.1 = some r) :
    Service.Replying (plain a) (.act (.inr (.send (reply (a.shared.1.1.delivery e))))) ∧
      Service.atomic cfg (plain a) (.act (.inr (.send (reply (a.shared.1.1.delivery e))))) =
        some { plain a with pcs := Function.update a.pcs .main r.1, shared := r.2 } := by
  have paced := following.paced
  rw [loop] at paced
  have idle : (a.pcs .main).1 = .idle := Receive.request_idle_main (join_request_none quiet).1
  have member : e ∈ a.shared.1.1.eventUpdates := List.mem_of_getElem? listed
  obtain ⟨-,-,-,priv,-⟩ := batch_attached known idle paced.1 member
  exact ⟨⟨_,rfl,priv⟩,handled_sends known quiet paced.1 member type ran⟩

theorem Following.step {label : AtomicLabel Thread Act Nat (Res Nat)}
    (following : Following cfg free readBlocks writeBlocks a) (known : Service.Known cfg (plain a))
    (exact' : Exact a label) (taken : atomic cfg a label = some a') :
    Following cfg free readBlocks writeBlocks a' := by
  obtain ⟨reached,paced⟩ := following
  cases label with
  | act b =>
    cases b with
    | acquire =>
      obtain ⟨loop,plain',loop'⟩ := acquire_cases taken
      obtain ⟨idle,main,shared⟩ := acquire_effect plain'
      refine ⟨.step reached (acquire_replying paced loop idle) plain',?_⟩
      rw [loop',main,shared]
      exact ⟨rfl,.inr ⟨rfl,_,rfl⟩⟩
    | handle =>
      obtain ⟨quiet,eidx,e,loop,listed,loop',⟨-,same⟩ | ⟨type,r,ran,same⟩⟩ := handle_cases taken
      · have main : a'.pcs = a.pcs := congrArg (fun x : Service.Abstract => x.pcs) same
        have shared : a'.shared.1 = a.shared.1 := congrArg (fun x : Service.Abstract => x.shared) same
        refine ⟨by rwa [same],?_⟩
        rw [loop] at paced
        rw [loop',main,shared]
        exact ⟨paced.1,.inl (Receive.request_idle_main (join_request_none quiet).1)⟩
      · obtain ⟨replying,step⟩ := Following.handle ⟨reached,paced⟩ known loop listed type quiet ran
        rw [← same] at step
        obtain ⟨main,shared⟩ := send_kept step
        refine ⟨.step reached replying step,?_⟩
        have main' : (a'.pcs .main).1 = (a.pcs .main).1 := main
        have shared' : a'.shared.1.1 = a.shared.1.1 := shared
        rw [loop] at paced
        rw [loop',main',shared']
        exact ⟨paced.1,.inl (Receive.request_idle_main (join_request_none quiet).1)⟩
    | release =>
      obtain ⟨⟨eidx,loop,-⟩,plain',loop'⟩ := release_cases taken
      rw [loop] at paced
      have replying : Service.Replying (plain a) (.act (.inl .release)) := paced.1
      refine ⟨.step reached replying plain',?_⟩
      obtain ⟨main,shared⟩ := release_effect plain'
      rw [loop',main,shared]
      exact releaseNext_paced ..
    | io b =>
      obtain ⟨own,plain',loop'⟩ := io_cases taken
      obtain ⟨main,batch⟩ := io_act_kept own plain'
      have main' : (a'.pcs .main).1 = (a.pcs .main).1 := main
      have acquired : a'.shared.1.1.acquired = a.shared.1.1.acquired := batch.acquired
      refine ⟨.step reached (io_replying own exact') plain',?_⟩
      rwa [loop',main',acquired]
  | op t choice =>
    obtain ⟨plain',loop'⟩ := op_plain taken
    have replying : Service.Replying (plain a) (.op t choice) := trivial
    refine ⟨.step reached replying plain',?_⟩
    rw [loop']
    rcases op_kept plain' with ⟨main,batch⟩ | ⟨asked,res,main,shared⟩
    · have main' : (a'.pcs .main).1 = (a.pcs .main).1 := main
      have acquired : a'.shared.1.1.acquired = a.shared.1.1.acquired := batch.acquired
      rwa [main',acquired]
    · have next := resumeMain_paced paced asked res
      have main' : (a'.pcs .main).1 = _ := main
      have shared' : a'.shared.1.1 = _ := shared
      rwa [main',shared']
  | havoc t res => exact exact'.elim

theorem reachable_following (roomy : cfg.bufferCount < 2 ^ cfg.bits)
    (built : ∃ data, clientListSetup data cfg.clientsMax = some free)
    (reach : Transition.Reachable (atomic cfg) Exact (atomicInitial cfg free readBlocks writeBlocks) a) :
    Following cfg free readBlocks writeBlocks a := by
  have begun : Following cfg free readBlocks writeBlocks (atomicInitial cfg free readBlocks writeBlocks) := by
    refine ⟨.start,?_⟩
    exact Or.inl ⟨rfl,rfl⟩
  exact reach.invariant (Following cfg free readBlocks writeBlocks) begun fun _ _ _ following exact' taken =>
      following.step (Service.reachable_known roomy built following.reached) exact' taken

end Following

end Tcpeen.Echo
