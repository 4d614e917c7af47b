import Tcpeen.ReceiveEventPlaces
import Tcpeen.Service

/-! No push of the service finds its queue full. The events fill their queues exactly; a
request or a buffer may come back while its old entry is still on the way out of the free
queue, and the rounding of the sizes leaves the place for it. -/
namespace Tcpeen.Service

open SplitOperation QueueSpsc

/-- Every queue operation is one step, and the main thread acquires and releases in turn. -/
def Alternating (a : Abstract) : AtomicLabel Thread Act Nat (Res Nat) → Prop
  | .act (.inl .acquire) => a.shared.1.acquired = false
  | .act (.inl .release) => a.shared.1.acquired = true
  | .havoc _ _ => False
  | _ => True

section Halves

variable {cfg : Config} {free : ListPtr Nat} {readBlocks writeBlocks : Nat → Nat → UInt8} {a : Abstract}

theorem alternating_receive
    (reach : Transition.Reachable (atomic cfg) Alternating (atomicInitial cfg free readBlocks writeBlocks) a) :
    Transition.Reachable (Receive.atomic cfg) (Receive.Orderly True)
      (Receive.atomicInitial cfg free readBlocks) a.left := by
  refine left_reachable ?_ (fun _ _ _ => trivial) (fun _ _ _ never => never.elim) reach
  intro a b permitted
  cases b with
  | acquire => exact fun _ => permitted
  | release => exact permitted
  | _ => trivial

theorem alternating_send
    (reach : Transition.Reachable (atomic cfg) Alternating (atomicInitial cfg free readBlocks writeBlocks) a) :
    Transition.Reachable (Send.atomic cfg) Send.Exact (Send.atomicInitial cfg writeBlocks) a.right :=
  right_reachable (fun _ _ => trivial) (fun _ _ _ => trivial) (fun _ _ _ _ _ never => never.elim) reach

end Halves

/-- What a receiving thread pushes is not in the queue it is pushed to. -/
theorem receive_room {cfg : Config} {a : Receive.Abstract} {t : Thread} {q : Receive.QueueName} {value : Nat}
    (events : Receive.Events cfg (Receive.view a)) (buffers : Receive.Buffers cfg (Receive.view a))
    (sound : Receive.Sound cfg (Receive.view a).io (Receive.view a).s)
    (asked : Receive.request t (a.pcs t) = some (q, .push value)) : (a.abs q).items.length < 2 ^ cfg.bits := by
  cases t with
  | main =>
    cases pc : a.pcs .main <;> simp only [pc,Receive.request,reduceCtorEq,Option.some.injEq,Prod.mk.injEq,
      and_false,Op.push.injEq] at asked
    case releasePool e b rest =>
      obtain ⟨rfl,rfl⟩ := asked
      exact (buffers.room (Nat.add_pos_right _ (events.reference pc))).2
    case releaseEvent e rest =>
      obtain ⟨rfl,rfl⟩ := asked
      refine events.free_room (e := e) ?_
      rw [show (Receive.view a).main = .releaseEvent e rest from pc]
      simp [Receive.heldEvents]
  | io =>
    cases q with
    | poolRead =>
      cases pc : a.pcs .io <;> simp only [pc,Receive.request,reduceCtorEq,Option.some.injEq,Prod.mk.injEq,
        and_false,false_and,true_and,Op.push.injEq] at asked
      case closePush h c b =>
        subst asked
        exact (buffers.room (Nat.add_pos_left (sound.owner pc) _)).2
    | eventsFree =>
      cases pc : a.pcs .io <;> simp [pc,Receive.request] at asked
    | eventsReady => exact events.room asked

theorem send_room {cfg : Config} {a : Send.Abstract} {t : Thread} {q : Send.QueueName} {value : Nat}
    (roomy : cfg.bufferCount < 2 ^ cfg.bits) (owned : Send.Owned cfg (Send.view a))
    (asked : Send.request t (a.pcs t) = some (q, .push value)) : (a.abs q).items.length ≠ 2 ^ cfg.bits := by
  cases t with
  | main =>
    cases pc : a.pcs .main <;> simp only [pc,Send.request,reduceCtorEq,Option.some.injEq,Prod.mk.injEq,
      and_false,Op.push.injEq] at asked
    case push r sent =>
      obtain ⟨rfl,rfl⟩ := asked
      exact Nat.ne_of_lt (Nat.lt_trans (owned.ready_room pc) roomy)
  | io =>
    cases pc : a.pcs .io <;> simp only [pc,Send.request,reduceCtorEq,Option.some.injEq,Prod.mk.injEq,
      and_false,Op.push.injEq] at asked <;> obtain ⟨rfl,rfl⟩ := asked
    case prepPool r b => exact owned.pool_room roomy (by rw [show (Send.view a).io = _ from pc]; rfl)
    case prepFree r => exact owned.free_room roomy (by rw [show (Send.view a).io = _ from pc]; rfl)
    case sentPool r b => exact owned.pool_room roomy (by rw [show (Send.view a).io = _ from pc]; rfl)
    case sentFree r => exact owned.free_room roomy (by rw [show (Send.view a).io = _ from pc]; rfl)

theorem reachable_room {cfg : Config} {free : ListPtr Nat} {readBlocks writeBlocks : Nat → Nat → UInt8}
    {a : Abstract} (roomy : cfg.bufferCount < 2 ^ cfg.bits)
    (built : ∃ data, clientListSetup data cfg.clientsMax = some free)
    (reach : Transition.Reachable (atomic cfg) Alternating (atomicInitial cfg free readBlocks writeBlocks) a)
    {t : Thread} {q : QueueName} {value : Nat}
    (asked : (machine cfg).request t (a.pcs t) = some (q, .push value)) :
    (a.abs q).items.length ≠ 2 ^ cfg.bits := by
  have receive := alternating_receive reach
  rcases join_request_cases asked with ⟨q₁,rfl,asked₁⟩ | ⟨q₂,rfl,-,asked₂⟩
  · exact Nat.ne_of_lt (receive_room (Receive.reachable_events (fun _ _ orderly => orderly) receive)
      (Receive.reachable_buffers built (fun _ _ orderly => orderly) receive)
      (Receive.atomic_sound built (fun _ _ orderly => orderly) receive) asked₁)
  · exact send_room roomy (Send.reachable_owned roomy (alternating_send reach)) asked₂

/-- With the sizes of the service every push succeeds. -/
theorem pushes_succeed (free : ListPtr Nat) (readBlocks writeBlocks : Nat → Nat → UInt8)
    (built : ∃ data, clientListSetup data serviceConfig.clientsMax = some free) (a : Abstract)
    (reach : Transition.Reachable (atomic serviceConfig) Alternating
      (atomicInitial serviceConfig free readBlocks writeBlocks) a)
    (t : Thread) (q : QueueName) (value choice : Nat)
    (asked : (machine serviceConfig).request t (a.pcs t) = some (q, .push value)) :
    spec (fun _ => serviceConfig.bits) q (.push value) (a.abs q) choice =
      some ({ a.abs q with items := (a.abs q).items ++ [value] }, .success []) := by
  have room := reachable_room (by decide) built reach asked
  simp only [spec,Fifo.apply,if_neg room]

/-- A test for such runs. -/
def alternating (a : Abstract) : AtomicLabel Thread Act Nat (Res Nat) → Bool
  | .act (.inl .acquire) => !a.shared.1.acquired
  | .act (.inl .release) => a.shared.1.acquired
  | .havoc _ _ => false
  | _ => true

theorem alternating_sound (a : Abstract) (label : AtomicLabel Thread Act Nat (Res Nat))
    (passed : alternating a label = true) : Alternating a label := by
  cases label with
  | act b =>
    rcases b with (b | b)
    · cases b with
      | acquire => simpa [alternating,Alternating] using passed
      | release => exact passed
      | _ => trivial
    · trivial
  | op t choice => trivial
  | havoc t res => cases passed

/-- A send has published its request; the IO thread finds the channel closed and is about to
put the buffer back into the pool that still holds it. -/
def returningEarly : List (AtomicLabel Thread Act Nat (Res Nat)) :=
  [.act (.inr (.send ⟨7,[1,2,3],none⟩)),.op .main 0,.op .main 0,.op .main 0,.act (.inr .prep),.op .io 0,
    .act (.inr (.submit .notOpen))]

theorem pushes_succeed_early :
    ∃ a, Transition.Reachable (atomic serviceConfig) Alternating
        (atomicInitial serviceConfig ⟨id,10000,10000⟩ (fun _ _ => 0) fun _ _ => 0) a ∧
      a.pcs .main = (.idle,.popBuf) ∧ a.pcs .io = (.idle,.prepPool 0 0) ∧
      spec (fun _ => serviceConfig.bits) (Sum.inr .poolWrite : QueueName) (.push 0)
          (a.abs (.inr .poolWrite)) 0 =
        some (⟨(a.abs (.inr .poolWrite)).items ++ [0],(a.abs (.inr .poolWrite)).peeked⟩,.success []) := by
  have observed : (Transition.execute (Transition.checked (atomic serviceConfig) alternating) returningEarly
      (atomicInitial serviceConfig ⟨id,10000,10000⟩ (fun _ _ => 0) fun _ _ => 0)).map (fun a =>
        (a.pcs .main,a.pcs .io)) = some ((.idle,.popBuf),(.idle,.prepPool 0 0)) := by decide +kernel
  obtain ⟨a,run,seen⟩ := Option.map_eq_some_iff.mp observed
  obtain ⟨main,io⟩ := Prod.mk.inj seen
  have reach : Transition.Reachable (atomic serviceConfig) Alternating
      (atomicInitial serviceConfig ⟨id,10000,10000⟩ (fun _ _ => 0) fun _ _ => 0) a :=
    .of_checked alternating_sound run
  refine ⟨a,reach,main,io,?_⟩
  exact pushes_succeed _ _ _ Receive.serviceStart_setUp.list a reach .io _ 0 0 (by rw [io]; rfl)

end Tcpeen.Service
