import Tcpeen.Library.Join
import Tcpeen.ReceiveSessions
import Tcpeen.SendOrder

/-! The two halves of the service on the same two threads. `on_prep_cb` reads the state and
the handle of the channel of a request; a reply goes to the channel found for the client id
of a READ event. -/
namespace Tcpeen.Service

open SplitOperation QueueSpsc

abbrev Pc (t : Thread) := Receive.Pc t × Send.Pc t

abbrev QueueName := Receive.QueueName ⊕ Send.QueueName

abbrev Act := Receive.Act ⊕ Send.Act

abbrev State := Receive.State × Send.State

/-- `tcp_channel_list_get`; a channel is named by its index in client_map. -/
def channelListGet (cfg : Config) (clientId : Nat) : Option Nat :=
  if cfg.clientsMax ≤ clientId then none else some clientId

/-- The thread is outside `tcp_service_send`, `on_prep_cb` and `on_send_cb`. -/
def outsideSend : (t : Thread) → Send.Pc t → Bool
  | .main, pc => pc == Send.MainPc.idle
  | .io, pc => pc == Send.IoPc.idle

/-- A READ event of connection `h` with a client id of this channel has been acquired. -/
def readFrom (cfg : Config) (s : Receive.State) (h c : Nat) : Bool :=
  s.delivered.any fun d =>
    d.notice.type == .clientRead && d.notice.source == h && channelListGet cfg d.notice.clientId == some c

/-- What `on_prep_cb` finds in the channel. -/
def found (channel : Receive.Channel) : Send.Verdict → Bool
  | .notOpen => channel.state != .open
  | .uvWrite h _ => channel.state == .open && channel.priv == some h

@[reducible] def actor (cfg : Config) : Act → Thread := joinActor (Receive.machine cfg) Send.machine

def allowed (cfg : Config) : (a : Act) → Pc (actor cfg a) → State → Bool
  | .inl a, pc, _ => outsideSend (Receive.actor a) pc.2
  | .inr (.send sent), _, s =>
    match sent.source with
    | none => (channelListGet cfg sent.channel).isSome
    | some h => readFrom cfg s.1 h sent.channel
  | .inr (.submit verdict), (_, .prepTest r), s => found (s.1.clientMap (s.2.reqs r).channel) verdict
  | .inr _, _, _ => true

def machine (cfg : Config) : Machine Thread Pc QueueName (Op Nat) (Res Nat) State Act :=
  join (Receive.machine cfg) Send.machine (allowed cfg)

abbrev Running := Split Thread Pc QueueName (Queue Nat) (Loc Nat) State

abbrev Abstract := Atomic Thread Pc QueueName (Fifo Nat) State

def step (cfg : Config) : Running → SplitLabel Thread Act → Option Running :=
  splitStep (object QueueName Nat) (machine cfg)

def atomic (cfg : Config) : Abstract → AtomicLabel Thread Act Nat (Res Nat) → Option Abstract :=
  atomicStep (spec fun _ => cfg.bits) (machine cfg)

def idle (t : Thread) : Pc t := (Receive.idle t, Send.idle t)

/-- What `tcp_service_setup` leaves; each pool has its own blocks. -/
def initial (cfg : Config) (free : ListPtr Nat) (readBlocks writeBlocks : Nat → Nat → UInt8)
    (mem : QueueName → Queue Nat) : Running where
  pcs := idle
  shared := (Receive.start cfg free readBlocks, Send.start cfg writeBlocks)
  mem := mem
  loc := fun _ => .entry

def atomicInitial (cfg : Config) (free : ListPtr Nat) (readBlocks writeBlocks : Nat → Nat → UInt8) : Abstract where
  pcs := idle
  shared := (Receive.start cfg free readBlocks, Send.start cfg writeBlocks)
  abs := Sum.elim (fun q => ⟨Receive.filled cfg q, false⟩) fun q => ⟨Send.filled cfg q, false⟩

structure SetUp (cfg : Config) (free : ListPtr Nat) (mem : QueueName → Queue Nat) : Prop where
  receive : Receive.SetUp cfg free fun q => mem (.inl q)
  send : Send.SetUp cfg fun q => mem (.inr q)

/-- The channel that `on_connection_cb` takes from the free list. -/
def reopened (failure : Option Receive.ConnectStep) (s : Receive.State) : Option Nat :=
  match failure with
  | some .status | some .memory | some .tcpInit | some .accept => none
  | _ => s.clientListFree.popBack.map Prod.fst

theorem onConnection_priv {failure : Option Receive.ConnectStep} {s : Receive.State} {c : Nat}
    (other : reopened failure s ≠ some c) :
    ((Receive.onConnection failure s).2.clientMap c).priv = (s.clientMap c).priv := by
  unfold Receive.onConnection
  split
  · rfl
  · rfl
  · rfl
  · rfl
  · next status memory tcpInit accept =>
    have pops : reopened failure s = s.clientListFree.popBack.map Prod.fst := by
      unfold reopened
      split <;> first | contradiction | rfl
    split
    · rfl
    · next c' freed popped =>
      have different : c ≠ c' := by
        rintro rfl
        exact other (by rw [pops,popped]; rfl)
      split <;> simp [Receive.State.closeChannel,Receive.State.setChannel,Receive.State.setHandle,
        Receive.State.newHandle,Function.update_of_ne different]

theorem resume_priv (t : Thread) (pc : Receive.Pc t) (res : Res Nat) (s : Receive.State) (c : Nat) :
    ((Receive.resume t pc res s).2.clientMap c).priv = (s.clientMap c).priv := by
  cases t with
  | main =>
    simp only [Receive.resume]
    unfold Receive.resumeMain
    split
    · rfl
    · rfl
    · exact (Receive.releaseNext_follows s _).priv c
    · rfl
  | io =>
    simp only [Receive.resume]
    unfold Receive.resumeIo
    split <;> (try split) <;>
      simp only [Receive.State.closeChannel,Receive.State.setChannel,Receive.State.setHandle,
        Receive.State.setEvent,Receive.State.announce,Receive.State.setBuffer,Receive.State.offer,
        Receive.State.answer,Receive.State.listClose,Receive.State.free,Function.update_apply] <;> grind

theorem act_priv {cfg : Config} {b : Receive.Act} {pc : Receive.Pc (Receive.actor b)} {s : Receive.State}
    {r : Receive.Pc (Receive.actor b) × Receive.State} {c : Nat} (done : Receive.act cfg b pc s = some r)
    (other : ∀ failure, b = .connection failure → reopened failure s ≠ some c) :
    (r.2.clientMap c).priv = (s.clientMap c).priv := by
  cases b with
  | acquire =>
    obtain rfl := Option.some.inj done
    rfl
  | release =>
    obtain rfl := Option.some.inj done
    exact (Receive.releaseNext_follows s _).priv c
  | connection failure =>
    obtain rfl := Option.some.inj done
    exact onConnection_priv (other failure rfl)
  | alloc h =>
    simp only [Receive.act] at done
    split at done
    · split at done
      · obtain rfl := Option.some.inj done
        exact (Receive.onRecvAlloc_follows h _ s).priv c
      · contradiction
    · contradiction
  | read h result =>
    simp only [Receive.act] at done
    split at done
    · split at done
      · exact (Receive.onRecv_follows done).priv c
      · contradiction
    · contradiction
  | close h =>
    simp only [Receive.act] at done
    split at done
    · obtain rfl := Option.some.inj done
      exact (Receive.onClose_follows h s).priv c
    · contradiction

end Tcpeen.Service
