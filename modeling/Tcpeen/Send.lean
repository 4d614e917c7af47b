import Tcpeen.ServiceSetup

/-! The sending half of the service: `tcp_service_send` on the main thread, `on_prep_cb`
and `on_send_cb` on the IO thread. A request is published before it and its buffer are
popped from the free queues. What `on_prep_cb` finds in the channel and what uv_write
answers are arguments of an action; `ticket`, `sends` and `writes` record the history. -/
namespace Tcpeen.Send

open SplitOperation QueueSpsc

inductive QueueName
  | poolWrite | reqsFree | reqsReady
  deriving DecidableEq, Repr

/-- A call of `tcp_service_send`; `source` is the connection whose READ event it answers. -/
structure Sent where
  channel : Nat
  bytes : List UInt8
  source : Option Nat
  deriving DecidableEq, Repr

/-- `tcp_service_write_req_t`. The base of its uv_buf is a block and an offset; `ticket` is
the number of the successful call that filled it. -/
structure WriteReq where
  buffer : Option Nat
  channel : Nat
  base : Nat × Nat
  len : Nat
  ticket : Nat
  deriving DecidableEq, Repr

/-- A call of uv_write. -/
structure Write where
  ticket : Nat
  channel : Nat
  handle : Nat
  bytes : List UInt8
  deriving DecidableEq, Repr

/-- libuv owes `on_send_cb` for the requests in flight. -/
structure State where
  reqs : Nat → WriteReq
  buffers : Nat → Buffer
  inFlight : List Nat
  sends : List Sent
  writes : List Write

inductive MainPc
  | idle
  | peekReq (sent : Sent)
  | peekBuf (req : Nat) (sent : Sent)
  | push (req : Nat) (sent : Sent)
  | popBuf
  | popReq
  deriving DecidableEq, Repr

inductive IoPc
  | idle
  | prepPop
  | prepTest (req : Nat)
  | prepPool (req buffer : Nat)
  | prepFree (req : Nat)
  | sentPool (req buffer : Nat)
  | sentFree (req : Nat)
  deriving DecidableEq, Repr

@[reducible] def Pc : Thread → Type
  | .main => MainPc
  | .io => IoPc

/-- The channel of a request is not open, or uv_write is called on the handle of the
channel and succeeds or fails. -/
inductive Verdict
  | notOpen
  | uvWrite (handle : Nat) (ok : Bool)
  deriving DecidableEq, Repr

inductive Act
  | send (sent : Sent)
  | prep
  | submit (verdict : Verdict)
  | sent (req : Nat)
  deriving DecidableEq, Repr

namespace State

def setReq (s : State) (r : Nat) (req : WriteReq) : State :=
  { s with reqs := Function.update s.reqs r req }

def setBuffer (s : State) (b : Nat) (buffer : Buffer) : State :=
  { s with buffers := Function.update s.buffers b buffer }

/-- The bytes under the uv_buf of a request. -/
def covered (s : State) (r : Nat) : List UInt8 :=
  window (s.buffers (s.reqs r).base.1).buf.mem (s.reqs r).base.2 (s.reqs r).len

/-- A push to write_reqs_ready that succeeded: the call can only succeed from here. -/
def accept (s : State) (r : Nat) (sent : Sent) : State :=
  { s.setReq r { s.reqs r with ticket := s.sends.length } with sends := s.sends ++ [sent] }

def log (s : State) (r handle : Nat) : State :=
  { s with writes := s.writes ++ [⟨(s.reqs r).ticket, (s.reqs r).channel, handle, s.covered r⟩] }

def dropBuffer (s : State) (r : Nat) : State := s.setReq r { s.reqs r with buffer := none }

/-- libuv takes the request from its queue before it calls back. -/
def written (s : State) (r : Nat) : State := { s with inFlight := s.inFlight.erase r }

end State

/-- `tcp_service_send` once it has peeked a request and a buffer. -/
def assemble (r b : Nat) (sent : Sent) (s : State) : MainPc × State :=
  let block := (s.buffers b).reset
  match block.write sent.bytes with
  | none => (.idle, (s.setReq r { s.reqs r with buffer := some b }).setBuffer b block)
  | some written =>
    (.push r sent, (s.setReq r
      { s.reqs r with buffer := some b, channel := sent.channel
                      base := (b, written.readPtr), len := written.length }).setBuffer b written)

/-- `on_prep_cb` with a request in hand. A request without a buffer would fail an assertion. -/
def onPrep (r : Nat) (verdict : Verdict) (s : State) : Option (IoPc × State) :=
  match verdict with
  | .notOpen => (s.reqs r).buffer.map fun b => (.prepPool r b, s)
  | .uvWrite handle true => some (.prepPop, { s.log r handle with inFlight := s.inFlight ++ [r] })
  | .uvWrite handle false => (s.reqs r).buffer.map fun b => (.prepPool r b, (s.log r handle).dropBuffer r)

/-- `on_send_cb`. -/
def onSend (r : Nat) (s : State) : Option (IoPc × State) :=
  (s.reqs r).buffer.map fun b => (.sentPool r b, s.dropBuffer r)

@[reducible] def actor : Act → Thread
  | .send _ => .main
  | _ => .io

def act : (a : Act) → Pc (actor a) → State → Option (Pc (actor a) × State)
  | .send sent, .idle, s => if sent.bytes = [] then none else some (.peekReq sent, s)
  | .prep, .idle, s => some (.prepPop, s)
  | .submit verdict, .prepTest r, s => onPrep r verdict s
  | .sent r, .idle, s => if r ∈ s.inFlight then onSend r (s.written r) else none
  | _, _, _ => none

def request : (t : Thread) → Pc t → Option (QueueName × Op Nat)
  | .main, .idle => none
  | .main, .peekReq _ => some (.reqsFree, .peek)
  | .main, .peekBuf .. => some (.poolWrite, .peek)
  | .main, .push r _ => some (.reqsReady, .push r)
  | .main, .popBuf => some (.poolWrite, .popCached)
  | .main, .popReq => some (.reqsFree, .popCached)
  | .io, .idle => none
  | .io, .prepPop => some (.reqsReady, .popBack)
  | .io, .prepTest _ => none
  | .io, .prepPool _ b => some (.poolWrite, .push b)
  | .io, .prepFree r => some (.reqsFree, .push r)
  | .io, .sentPool _ b => some (.poolWrite, .push b)
  | .io, .sentFree r => some (.reqsFree, .push r)

def resumeMain : MainPc → Res Nat → State → MainPc × State
  | .peekReq sent, .success [r], s => (.peekBuf r sent, s.dropBuffer r)
  | .peekBuf r sent, .success [b], s => assemble r b sent s
  | .push r sent, .success _, s => (.popBuf, s.accept r sent)
  | .popBuf, _, s => (.popReq, s)
  | _, _, s => (.idle, s)

/-- Failing pushes are ignored. -/
def resumeIo : IoPc → Res Nat → State → IoPc × State
  | .prepPop, .success [r], s => (.prepTest r, s)
  | .prepPool r _, _, s => (.prepFree r, s)
  | .prepFree _, _, s => (.prepPop, s)
  | .sentPool r _, _, s => (.sentFree r, s)
  | .prepTest r, _, s => (.prepTest r, s)
  | _, _, s => (.idle, s)

def resume : (t : Thread) → Pc t → Res Nat → State → Pc t × State
  | .main => resumeMain
  | .io => resumeIo

def machine : Machine Thread Pc QueueName (Op Nat) (Res Nat) State Act where
  request := request
  resume := resume
  actor := actor
  act := act

def idle : (t : Thread) → Pc t
  | .main => .idle
  | .io => .idle

def start (cfg : Config) (blocks : Nat → Nat → UInt8) : State where
  reqs := fun _ => ⟨none, 0, (0, 0), 0, 0⟩
  buffers := fun b => Buffer.setup (blocks b) cfg.maxRead
  inFlight := []
  sends := []
  writes := []

def filledCount (cfg : Config) : QueueName → Nat
  | .poolWrite => cfg.bufferCount
  | .reqsFree => cfg.bufferCount
  | .reqsReady => 0

def filled (cfg : Config) (q : QueueName) : List Nat := List.range (filledCount cfg q)

abbrev Running := Split Thread Pc QueueName (Queue Nat) (Loc Nat) State

def initial (cfg : Config) (blocks : Nat → Nat → UInt8) (mem : QueueName → Queue Nat) : Running where
  pcs := idle
  shared := start cfg blocks
  mem := mem
  loc := fun _ => .entry

abbrev Abstract := Atomic Thread Pc QueueName (Fifo Nat) State

def step : Running → SplitLabel Thread Act → Option Running :=
  splitStep (object QueueName Nat) machine

def atomic (cfg : Config) : Abstract → AtomicLabel Thread Act Nat (Res Nat) → Option Abstract :=
  atomicStep (spec fun _ => cfg.bits) machine

/-- The queues as setup leaves them. -/
def SetUp (cfg : Config) (mem : QueueName → Queue Nat) : Prop :=
  ∀ q, Represents cfg.bits (mem q) ⟨filled cfg q, false⟩

def atomicInitial (cfg : Config) (blocks : Nat → Nat → UInt8) : Abstract where
  pcs := idle
  shared := start cfg blocks
  abs := fun q => ⟨filled cfg q, false⟩

end Tcpeen.Send
