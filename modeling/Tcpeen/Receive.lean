import Tcpeen.ServiceSetup

/-! The receiving half of the service: the callbacks of tcp_service_internal.c from an
accepted connection to its close, and `tcp_service_events_acquire` and
`tcp_service_events_release` on the main thread. Code between two queue operations of a
callback runs with the operation before it. The answers of libuv and of the endpoint
functions are arguments of the actions; `received`, `queued`, `delivered` and the source
of an event record the history. -/
namespace Tcpeen.Receive

open SplitOperation QueueSpsc

inductive QueueName
  | poolRead | eventsFree | eventsReady
  deriving DecidableEq, Repr

/-- `tcp_channel_state_t`. -/
inductive ChannelState
  | new | open | closing | closed | error | invalid
  deriving DecidableEq, Repr

structure Channel where
  priv : Option Nat
  readBuffer : Option Nat
  state : ChannelState
  deriving DecidableEq, Repr

/-- `tn_event_type_t`. -/
inductive EventType
  | none | ioError | clientOpen | clientClose | clientRead
  deriving DecidableEq, Repr

/-- The fields of the event structures that share the memory of a `tn_event_base_t`; the
payload pointer is an offset into the block of `tnBuffer`. -/
structure Event where
  type : EventType
  clientId : Nat
  buffer : Nat
  len : Nat
  tnBuffer : Option Nat
  source : Nat
  deriving DecidableEq, Repr

/-- The answer of `on_recv_alloc_cb`: a place in a block, or a null base. -/
structure UvBuf where
  base : Option (Nat × Nat)
  len : Nat
  deriving DecidableEq, Repr

/-- A client handle. libuv has called `on_recv_alloc_cb` and owes the read callback while
`pending` is set, and owes the close callback while it is `closing` and not `freed`. -/
structure Handle where
  data : Option Nat
  closing : Bool
  freed : Bool
  pending : Option UvBuf
  deriving DecidableEq, Repr

/-- What an event says, and about which connection. -/
structure Notice where
  type : EventType
  clientId : Nat
  source : Nat
  deriving DecidableEq, Repr

/-- An event taken by the main thread, with the payload it found. -/
structure Delivery where
  notice : Notice
  payload : List UInt8
  deriving DecidableEq, Repr

structure State where
  clientMap : Nat → Channel
  clientListFree : ListPtr Nat
  handles : Nat → Handle
  handleCount : Nat
  events : Nat → Event
  buffers : Nat → Buffer
  eventUpdates : List Nat
  acquired : Bool
  received : Nat → List UInt8
  queued : List Notice
  delivered : List Delivery

inductive MainPc
  | idle
  | acquire (limit : Word)
  | releasePool (event buffer : Nat) (rest : List Nat)
  | releaseEvent (event : Nat) (rest : List Nat)
  deriving DecidableEq, Repr

/-- The calls of `on_connection_cb` outside the queues and the free list that can fail. -/
inductive ConnectStep
  | status | memory | tcpInit | accept | getpeername | convertRemote | getsockname | convertLocal
  | stringLocal | stringRemote | readStart
  deriving DecidableEq, Repr

inductive IoPc
  | idle
  | connectPop (handle channel : Nat) (failure : Option ConnectStep)
  | connectPush (handle channel event : Nat) (failure : Option ConnectStep)
  | allocPop (handle channel : Nat)
  | recvPop (handle channel : Nat)
  | recvPush (handle channel event : Nat)
  | closePush (handle channel buffer : Nat)
  | closePop (handle channel : Nat)
  | closeReady (handle channel event : Nat)
  deriving DecidableEq, Repr

@[reducible] def Pc : Thread → Type
  | .main => MainPc
  | .io => IoPc

inductive ReadResult
  | error
  | again
  | data (bytes : List UInt8)
  deriving DecidableEq, Repr

inductive Act
  | acquire
  | release
  | connection (failure : Option ConnectStep)
  | alloc (handle : Nat)
  | read (handle : Nat) (result : ReadResult)
  | close (handle : Nat)
  deriving DecidableEq, Repr

namespace State

def setChannel (s : State) (c : Nat) (channel : Channel) : State :=
  { s with clientMap := Function.update s.clientMap c channel }

def setHandle (s : State) (h : Nat) (handle : Handle) : State :=
  { s with handles := Function.update s.handles h handle }

def setEvent (s : State) (e : Nat) (event : Event) : State :=
  { s with events := Function.update s.events e event }

def setBuffer (s : State) (b : Nat) (buffer : Buffer) : State :=
  { s with buffers := Function.update s.buffers b buffer }

/-- The bytes `[buffer, buffer + len)` of an event. -/
def payload (s : State) (e : Nat) : List UInt8 :=
  match (s.events e).type, (s.events e).tnBuffer with
  | .clientRead, some b => window (s.buffers b).buf.mem (s.events e).buffer (s.events e).len
  | _, _ => []

def notice (s : State) (e : Nat) : Notice :=
  ⟨(s.events e).type, (s.events e).clientId, (s.events e).source⟩

def delivery (s : State) (e : Nat) : Delivery := ⟨s.notice e, s.payload e⟩

/-- A push to tn_events_ready that succeeded. -/
def announce (s : State) (e : Nat) : State := { s with queued := s.queued ++ [s.notice e] }

/-- `uv_close` on the handle of a channel, with `on_close_channel_cb`. -/
def closeChannel (s : State) (h c : Nat) : State :=
  (s.setChannel c { s.clientMap c with state := .closing }).setHandle h
    { s.handles h with closing := true, pending := none }

/-- A handle fresh from `uv_tcp_init`. -/
def newHandle (s : State) (handle : Handle) : State :=
  { s.setHandle s.handleCount handle with handleCount := s.handleCount + 1 }

def answer (s : State) (h : Nat) (buf : Option UvBuf) : State :=
  s.setHandle h { s.handles h with pending := buf }

/-- The buffer of a channel as `on_recv_alloc_cb` offers it to libuv. -/
def offer (s : State) (h b : Nat) : State :=
  s.answer h (some ⟨some (b, (s.buffers b).writePtr), (s.buffers b).remaining⟩)

/-- libuv stores what it reads at the base it was offered. -/
def arrive (s : State) (h b offset : Nat) (bytes : List UInt8) : State :=
  let block := s.buffers b
  { s.setBuffer b { block with buf := { block.buf with mem := store block.buf.mem offset bytes } } with
    received := Function.update s.received h (s.received h ++ bytes) }

/-- `tcp_channel_list_close`; a failing push is logged. -/
def listClose (s : State) (c : Nat) : State :=
  { s with clientListFree := (s.clientListFree.pushBack c).getD s.clientListFree }

def free (s : State) (h : Nat) : State := s.setHandle h { s.handles h with freed := true }

end State

/-- The loop of `tcp_service_events_release` from one event on. -/
def releaseNext (s : State) : List Nat → MainPc × State
  | [] => (.idle, { s with acquired := false })
  | e :: rest =>
    match (s.events e).type, (s.events e).tnBuffer with
    | .clientRead, some b => (.releasePool e b rest, s)
    | _, _ => (.releaseEvent e rest, s)

/-- `on_connection_cb` up to its first queue operation. -/
def onConnection (failure : Option ConnectStep) (s : State) : IoPc × State :=
  match failure with
  | some .status | some .memory | some .tcpInit => (.idle, s)
  | some .accept => (.idle, s.newHandle ⟨none, true, false, none⟩)
  | _ =>
    match s.clientListFree.popBack with
    | none => (.idle, s.newHandle ⟨none, true, false, none⟩)
    | some (c, freed) =>
      let h := s.handleCount
      let s := ({ s with clientListFree := freed }.newHandle ⟨some c, false, false, none⟩).setChannel c
        { priv := some h, readBuffer := none, state := .open }
      match failure with
      | some .getpeername | some .convertRemote | some .getsockname | some .convertLocal =>
        (.idle, s.closeChannel h c)
      | _ => (.connectPop h c failure, s)

/-- `on_recv_alloc_cb`. -/
def onRecvAlloc (h c : Nat) (s : State) : IoPc × State :=
  match (s.clientMap c).readBuffer with
  | none => (.allocPop h c, s)
  | some b => (.idle, s.offer h b)

/-- `on_recv_cb` on data, up to its first queue operation. -/
def onRecvData (h c nread : Nat) (s : State) : IoPc × State :=
  match (s.clientMap c).readBuffer with
  | none => (.idle, s)
  | some b =>
    match (s.buffers b).addLength nread with
    | none => (.idle, s)
    | some buffer => (.recvPop h c, s.setBuffer b buffer)

/-- `on_recv_cb`. The bytes of a read are at least one and fit what was offered. -/
def onRecv (h c : Nat) (buf : UvBuf) (result : ReadResult) (s : State) : Option (IoPc × State) :=
  match result with
  | .error => some (.idle, s.closeChannel h c)
  | .again => some (.idle, s.answer h none)
  | .data bytes =>
    match buf.base with
    | none => none
    | some (b, offset) =>
      if bytes.length = 0 ∨ buf.len < bytes.length then none
      else some (onRecvData h c bytes.length ((s.answer h none).arrive h b offset bytes))

/-- `on_close_channel_cb` up to its first queue operation, and `on_close_handle_cb` for a
handle that never got a channel. -/
def onClose (h : Nat) (s : State) : IoPc × State :=
  match (s.handles h).data with
  | none => (.idle, s.free h)
  | some c =>
    let s := s.setChannel c { s.clientMap c with state := .closed }
    match (s.clientMap c).readBuffer with
    | some b => (.closePush h c b, s)
    | none => (.closePop h c, s)

/-- A handle on which libuv may call back for reads. -/
def Handle.reading (handle : Handle) : Bool := !handle.closing && !handle.freed

@[reducible] def actor : Act → Thread
  | .acquire | .release => .main
  | _ => .io

def act (cfg : Config) : (a : Act) → Pc (actor a) → State → Option (Pc (actor a) × State)
  | .acquire, _, s =>
    some (.acquire (BitVec.ofNat 64 cfg.bufferCount), { s with eventUpdates := [], acquired := true })
  | .release, _, s => some (releaseNext s s.eventUpdates)
  | .connection failure, _, s => some (onConnection failure s)
  | .alloc h, _, s =>
    match (s.handles h).data with
    | some c =>
      if (s.handles h).reading && (s.handles h).pending.isNone then some (onRecvAlloc h c s) else none
    | none => none
  | .read h result, _, s =>
    match (s.handles h).data, (s.handles h).pending with
    | some c, some buf => if (s.handles h).reading then onRecv h c buf result s else none
    | _, _ => none
  | .close h, _, s =>
    if (s.handles h).closing && !(s.handles h).freed then some (onClose h s) else none

def request : (t : Thread) → Pc t → Option (QueueName × Op Nat)
  | .main, .idle => none
  | .main, .acquire limit => some (.eventsReady, .popAll limit)
  | .main, .releasePool _ b _ => some (.poolRead, .push b)
  | .main, .releaseEvent e _ => some (.eventsFree, .push e)
  | .io, .idle => none
  | .io, .connectPop .. => some (.eventsFree, .popBack)
  | .io, .connectPush _ _ e _ => some (.eventsReady, .push e)
  | .io, .allocPop .. => some (.poolRead, .popBack)
  | .io, .recvPop .. => some (.eventsFree, .popBack)
  | .io, .recvPush _ _ e => some (.eventsReady, .push e)
  | .io, .closePush _ _ b => some (.poolRead, .push b)
  | .io, .closePop .. => some (.eventsFree, .popBack)
  | .io, .closeReady _ _ e => some (.eventsReady, .push e)

def resumeMain : MainPc → Res Nat → State → MainPc × State
  | .acquire _, .success values, s =>
    (.idle, { s with eventUpdates := values, delivered := s.delivered ++ values.map s.delivery })
  | .releasePool e _ rest, _, s => (.releaseEvent e rest, s)
  | .releaseEvent _ rest, _, s => releaseNext s rest
  | _, _, s => (.idle, s)

def resumeIo : IoPc → Res Nat → State → IoPc × State
  | .idle, _, s => (.idle, s)
  | .connectPop h c failure, .success [e], s =>
    let s := s.setEvent e { s.events e with type := .clientOpen, clientId := c, source := h }
    if failure = some .stringLocal ∨ failure = some .stringRemote then (.idle, s.closeChannel h c)
    else (.connectPush h c e failure, s)
  | .connectPop h c _, _, s => (.idle, s.closeChannel h c)
  | .connectPush h c e failure, .success _, s =>
    (.idle, if failure = some .readStart then (s.announce e).closeChannel h c else s.announce e)
  | .connectPush h c _ _, _, s => (.idle, s.closeChannel h c)
  | .allocPop h c, .success [b], s =>
    (.idle, ((s.setBuffer b (s.buffers b).reset).setChannel c
      { s.clientMap c with readBuffer := some b }).offer h b)
  | .allocPop h _, _, s => (.idle, s.answer h (some ⟨none, 0⟩))
  | .recvPop h c, .success [e], s =>
    match (s.clientMap c).readBuffer with
    | some b =>
      (.recvPush h c e, s.setEvent e
        { type := .clientRead, clientId := c, source := h, tnBuffer := some b
          buffer := (s.buffers b).readPtr, len := (s.buffers b).readLength })
    | none => (.idle, s)
  | .recvPop .., _, s => (.idle, s)
  | .recvPush _ c e, .success _, s =>
    (.idle, (s.announce e).setChannel c { s.clientMap c with readBuffer := none })
  | .recvPush .., _, s => (.idle, s)
  | .closePush h c _, _, s =>
    (.closePop h c, s.setChannel c { s.clientMap c with readBuffer := none })
  | .closePop h c, .success [e], s =>
    (.closeReady h c e, s.setEvent e
      { s.events e with type := .clientClose, tnBuffer := none, clientId := c, source := h })
  | .closePop h _, _, s => (.idle, s.free h)
  | .closeReady h c e, .success _, s => (.idle, ((s.announce e).listClose c).free h)
  | .closeReady h c _, _, s => (.idle, (s.listClose c).free h)

def resume : (t : Thread) → Pc t → Res Nat → State → Pc t × State
  | .main => resumeMain
  | .io => resumeIo

def machine (cfg : Config) : Machine Thread Pc QueueName (Op Nat) (Res Nat) State Act where
  request := request
  resume := resume
  actor := actor
  act := act cfg

def idle : (t : Thread) → Pc t
  | .main => .idle
  | .io => .idle

/-- What `tcp_service_setup` leaves; the list is the one of `clientListSetup`, the memory of
the blocks is arbitrary. -/
def start (cfg : Config) (free : ListPtr Nat) (blocks : Nat → Nat → UInt8) : State where
  clientMap := fun _ => ⟨none, none, .new⟩
  clientListFree := free
  handles := fun _ => ⟨none, false, true, none⟩
  handleCount := 0
  events := fun _ => ⟨.none, 0, 0, 0, none, 0⟩
  buffers := fun b => Buffer.setup (blocks b) cfg.maxRead
  eventUpdates := []
  acquired := false
  received := fun _ => []
  queued := []
  delivered := []

/-- How many objects setup puts into a queue; events are as many as their queue holds. -/
def filledCount (cfg : Config) : QueueName → Nat
  | .poolRead => cfg.bufferCount
  | .eventsFree => 2 ^ cfg.bits
  | .eventsReady => 0

def filled (cfg : Config) (q : QueueName) : List Nat := List.range (filledCount cfg q)

abbrev Running := Split Thread Pc QueueName (Queue Nat) (Loc Nat) State

/-- Any memory of the queues: `mem` says what they hold. -/
def initial (cfg : Config) (free : ListPtr Nat) (blocks : Nat → Nat → UInt8)
    (mem : QueueName → Queue Nat) : Running where
  pcs := idle
  shared := start cfg free blocks
  mem := mem
  loc := fun _ => .entry

abbrev Abstract := Atomic Thread Pc QueueName (Fifo Nat) State

def step (cfg : Config) : Running → SplitLabel Thread Act → Option Running :=
  splitStep (object QueueName Nat) (machine cfg)

def atomic (cfg : Config) : Abstract → AtomicLabel Thread Act Nat (Res Nat) → Option Abstract :=
  atomicStep (spec fun _ => cfg.bits) (machine cfg)

end Tcpeen.Receive
