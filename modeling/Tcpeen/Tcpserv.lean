import Tcpeen.Library.Ownership
import Tcpeen.Library.Transition

/-! The echo server of tcpserv.c: the IO thread, libuv's callbacks, and the memory that they pass on. -/
namespace Tcpeen.Tcpserv

open Ownership

/-- What the blocks of the IO thread hold. A `tcp_write_req_t` keeps its buffer. -/
inductive Block
  | handle
  | request (base len : Nat)
  | buffer (bytes : List UInt8)
  deriving DecidableEq

/-- What libuv has from `on_recv_alloc_cb` and did not give back. -/
inductive Lent
  | nothing
  | null
  | buffer (base : Nat) (bytes : List UInt8)
  deriving DecidableEq

structure Client where
  handle : Nat
  reading : Bool
  closing : Bool
  lent : Lent
  deriving DecidableEq

/-- A request of `uv_write` that was not called back. `data` is history: the buffer as it was handed over. -/
structure Flying where
  req : Nat
  handle : Nat
  base : Nat
  len : Nat
  sent : Nat
  failed : Bool
  data : List UInt8
  deriving DecidableEq

inductive HandleState
  | absent
  | opened
  | closing
  deriving DecidableEq

/-- Where the IO thread is. -/
inductive Pc
  | start
  | running
  | finished
  deriving DecidableEq

/-- `reads`, `wired`, `done` and `lost` are history: what was read, what TCP took, which requests were
called back with success, and on which handles one failed. -/
structure State where
  heap : Arena Block
  pc : Pc
  loop : Option Nat
  tcpServer : Option Nat
  acceptTimer : Option Nat
  serverHandle : HandleState
  timerHandle : HandleState
  asyncHandle : HandleState
  closing : Bool
  clients : List Client
  flying : List Flying
  sendMsgs : UInt64
  sendBytes : UInt64
  recvMsgs : UInt64
  recvBytes : UInt64
  reads : List (Nat × List UInt8)
  wired : List (Nat × List UInt8)
  done : List (Nat × List UInt8)
  lost : List Nat

def initial : State where
  heap := .empty
  pc := .start
  loop := none
  tcpServer := none
  acceptTimer := none
  serverHandle := .absent
  timerHandle := .absent
  asyncHandle := .absent
  closing := false
  clients := []
  flying := []
  sendMsgs := 0
  sendBytes := 0
  recvMsgs := 0
  recvBytes := 0
  reads := []
  wired := []
  done := []
  lost := []

/-- `TN_MEM_RELEASE` does nothing with NULL. -/
def release (h : Arena Block) : Option Nat → Arena Block
  | none => h
  | some p => h.release p

/-- `free_write_req`. -/
def freeWriteReq (h : Arena Block) (req : Nat) : Arena Block :=
  match h.live req with
  | some (.request base _) => (h.release base).release req
  | _ => h.fault

/-! ### The callbacks -/

/-- `on_recv_alloc_cb`; `mem` is what the allocator answers. -/
def onRecvAllocCb (s : State) (i : Nat) (c : Client) (mem : Option (List UInt8)) : State :=
  match mem with
  | none => { s with clients := s.clients.set i { c with lent := .null } }
  | some bytes =>
    let (base, heap) := s.heap.acquire (.buffer bytes)
    { s with heap, clients := s.clients.set i { c with lent := .buffer base bytes } }

def onCloseCb (s : State) (i : Nat) (c : Client) : State :=
  { s with heap := s.heap.release c.handle, clients := s.clients.eraseIdx i }

/-- `on_send_cb` of the request at `j`. -/
def onSendCb (s : State) (j : Nat) (r : Flying) : State :=
  let s := { s with flying := s.flying.eraseIdx j }
  match s.heap.live r.req with
  | some (.request _ len) =>
    let s := if r.failed then s else
      { s with
        sendMsgs := s.sendMsgs + 1
        sendBytes := s.sendBytes + UInt64.ofNat len
        done := s.done ++ [(r.handle, r.data.take r.len)] }
    { s with heap := freeWriteReq s.heap r.req }
  | _ => { s with heap := s.heap.fault }

/-- `nread` and what was read. -/
inductive Read
  | error
  | bytes (bs : List UInt8)
  deriving DecidableEq

def Lent.base : Lent → Option Nat
  | .buffer base _ => some base
  | _ => none

/-- `uv_close`, behind the test that the handle is not closing. -/
def Client.close (c : Client) : Client := if c.closing then c else { c with closing := true, reading := false }

/-- A read that is counted. -/
def State.counted (s : State) (handle : Nat) (bs : List UInt8) : State :=
  { s with
    recvMsgs := s.recvMsgs + 1
    recvBytes := s.recvBytes + UInt64.ofNat bs.length
    reads := s.reads ++ [(handle, bs)] }

/-- `on_recv_cb`; `mem` and `written` are what the allocator and `uv_write` answer. -/
def onRecvCb (s : State) (i : Nat) (c : Client) (read : Read) (mem written : Bool) : State :=
  let base := c.lent.base
  let c' := { c with lent := .nothing }
  match read with
  | .error => { s with heap := release s.heap base, clients := s.clients.set i c'.close }
  | .bytes [] => { s with heap := release s.heap base, clients := s.clients.set i c' }
  | .bytes (b :: bs) =>
    let s := s.counted c.handle (b :: bs)
    match mem, c.lent with
    | true, .buffer base bytes =>
      let (req, heap) := s.heap.acquire (.request 0 0)
      let heap := heap.store req (.request base (b :: bs).length)
      if written then
        { s with
          heap
          clients := s.clients.set i c'
          flying := s.flying ++ [⟨req,c.handle,base,(b :: bs).length,0,false,b :: bs ++ bytes.drop (b :: bs).length⟩] }
      else { s with heap := (heap.release base).release req, clients := s.clients.set i c'.close }
    | _, _ => { s with heap := release s.heap base, clients := s.clients.set i c'.close }

/-- What libuv answers to `on_connection_cb`. -/
structure Accepting where
  status : Bool
  mem : Bool
  accepted : Bool
  started : Bool
  deriving DecidableEq

/-- The connection behind `uv_tcp_init`: reading, or closed for what failed. -/
def Accepting.client (answer : Accepting) (handle : Nat) : Client :=
  let c : Client := ⟨handle,false,false,.nothing⟩
  if answer.accepted ∧ answer.started then { c with reading := true } else c.close

def onConnectionCb (s : State) (answer : Accepting) : State :=
  if answer.status ∧ answer.mem then
    let (handle, heap) := s.heap.acquire .handle
    { s with heap, clients := s.clients ++ [answer.client handle] }
  else s

def HandleState.close : HandleState → HandleState
  | .opened => .closing
  | h => h

def timerCb (s : State) : State :=
  if s.closing then { s with serverHandle := s.serverHandle.close, timerHandle := s.timerHandle.close } else s

def asyncCb (s : State) : State := { s with asyncHandle := .closing, closing := true }

/-! ### The thread -/

/-- The calls of `uvu_server_run` in front of `uv_run`. -/
inductive SetupCall
  | loopMem
  | serverMem
  | timerMem
  | loopInit
  | timerInit
  | timerStart
  | tcpInit
  | nodelay
  | bind
  | listen
  deriving DecidableEq

def uvuServerRunCleanup (s : State) : State :=
  { s with
    pc := .finished
    heap := release (release (release s.heap s.acceptTimer) s.tcpServer) s.loop }

/-- The calls of libuv that `uvu_server_run` makes in front of `uv_run`. -/
def uvuServerListen (s : State) (fails : SetupCall → Bool) : State :=
  if fails .loopInit then uvuServerRunCleanup s
  else if fails .timerInit then uvuServerRunCleanup s
  else if fails .timerStart then uvuServerRunCleanup s
  else if fails .tcpInit then uvuServerRunCleanup s
  else if fails .nodelay then uvuServerRunCleanup s
  else if fails .bind then uvuServerRunCleanup s
  else if fails .listen then uvuServerRunCleanup s
  else { s with pc := .running, serverHandle := .opened, timerHandle := .opened }

def acquireTimer (s : State) (fails : SetupCall → Bool) : State :=
  if fails .timerMem then uvuServerRunCleanup s
  else uvuServerListen { s with acceptTimer := some s.heap.next, heap := (s.heap.acquire .handle).2 } fails

def acquireServer (s : State) (fails : SetupCall → Bool) : State :=
  if fails .serverMem then uvuServerRunCleanup s
  else acquireTimer { s with tcpServer := some s.heap.next, heap := (s.heap.acquire .handle).2 } fails

def acquireLoop (s : State) (fails : SetupCall → Bool) : State :=
  if fails .loopMem then uvuServerRunCleanup s
  else acquireServer { s with loop := some s.heap.next, heap := (s.heap.acquire .handle).2 } fails

/-- `uvu_server_run` up to `uv_run`. -/
def uvuServerRun (s : State) (fails : SetupCall → Bool) : State :=
  acquireLoop { s with loop := none, tcpServer := none, acceptTimer := none } fails

/-- Whether `uv_run` returns: no handle is active or closing, and no request is left. -/
def State.drained (s : State) : Prop :=
  s.serverHandle = .absent ∧ s.timerHandle = .absent ∧ s.asyncHandle = .absent ∧ s.flying = [] ∧
    ∀ c ∈ s.clients, c.reading = false ∧ c.closing = false

instance (s : State) : Decidable s.drained := by
  unfold State.drained
  infer_instance

/-- Whether `uv_loop_close` succeeds: the loop has no handle. -/
def State.uvLoopClose (s : State) : Bool :=
  s.serverHandle = .absent && s.timerHandle = .absent && s.asyncHandle = .absent && s.clients.isEmpty

/-- `uvu_server_run` behind `uv_run`. What the walk closes is still in the loop when the second
`uv_loop_close` fails. -/
def uvLoopEnd (s : State) : State :=
  if s.uvLoopClose then uvuServerRunCleanup s
  else uvuServerRunCleanup { s with
    serverHandle := s.serverHandle.close
    timerHandle := s.timerHandle.close
    asyncHandle := s.asyncHandle.close
    clients := s.clients.map Client.close }

/-! ### libuv -/

/-- libuv reads into the buffer that it was given. -/
def landed (h : Arena Block) (c : Client) (bs : List UInt8) : Arena Block :=
  match c.lent with
  | .buffer base _ =>
    match h.live base with
    | some (.buffer bytes) => h.store base (.buffer (bs ++ bytes.drop bs.length))
    | _ => h.fault
  | _ => h

/-- The read callbacks that libuv makes: errors also behind a `uv_close`, to give a buffer back. -/
def Client.mayRead (c : Client) : Read → Bool
  | .error => !c.closing || c.lent ≠ .nothing
  | .bytes bs =>
    match c.lent with
    | .buffer _ bytes => c.reading && bs.length ≤ bytes.length
    | _ => false

def Read.landing : Read → List UInt8
  | .error => []
  | .bytes bs => bs

/-- TCP takes `n` bytes of the request at `j`, from the memory that it points to. -/
def transmit (s : State) (j : Nat) (r : Flying) (n : Nat) : State :=
  match s.heap.live r.base with
  | some (.buffer bytes) =>
    { s with
      wired := s.wired ++ [(r.handle, ((bytes.take r.len).drop r.sent).take n)]
      flying := s.flying.set j { r with sent := r.sent + n } }
  | _ => { s with heap := s.heap.fault }

/-- Nothing is left to write of the request. -/
def Flying.settled (r : Flying) : Bool := r.failed || r.sent = r.len

/-- A request is written when those of its handle in front of it are. -/
def State.turn (s : State) (j : Nat) (r : Flying) : Bool :=
  (s.flying.take j).all fun r' => r'.handle ≠ r.handle || r'.settled

def State.idle (s : State) (handle : Nat) : Bool := s.flying.all fun r => r.handle ≠ handle

inductive Label
  | begin (fails : SetupCall → Bool)
  | connection (answer : Accepting)
  | alloc (i : Nat) (mem : Option (List UInt8))
  | recv (i : Nat) (read : Read) (mem written : Bool)
  | transmit (j n : Nat)
  | fail (j : Nat)
  | sendCb (j : Nat)
  | closeCb (i : Nat)
  | stop
  | asyncCb
  | timerCb
  | serverClosed
  | timerClosed
  | asyncClosed
  | leave

/-- A callback or a step of libuv in `uv_run`. -/
def loopStep (s : State) : Label → Option State
  | .begin _ => none
  | .connection answer => if s.serverHandle = .opened then some (onConnectionCb s answer) else none
  | .alloc i mem => do
    let c ← s.clients[i]?
    if c.reading ∧ c.lent = .nothing then some (onRecvAllocCb s i c mem) else none
  | .recv i read mem written => do
    let c ← s.clients[i]?
    if c.mayRead read then some (onRecvCb { s with heap := landed s.heap c read.landing } i c read mem written)
    else none
  | .transmit j n => do
    let r ← s.flying[j]?
    if r.failed = false ∧ r.sent + n ≤ r.len ∧ s.turn j r then some (transmit s j r n) else none
  | .fail j => do
    let r ← s.flying[j]?
    if r.settled then none
    else some { s with flying := s.flying.set j { r with failed := true }, lost := r.handle :: s.lost }
  | .sendCb j => do
    let r ← s.flying[j]?
    if r.settled then some (onSendCb s j r) else none
  | .closeCb i => do
    let c ← s.clients[i]?
    if c.closing ∧ c.lent = .nothing ∧ s.idle c.handle then some (onCloseCb s i c) else none
  | .stop => if s.closing = false ∧ s.asyncHandle = .absent then some { s with asyncHandle := .opened } else none
  | .asyncCb => if s.asyncHandle = .opened then some (asyncCb s) else none
  | .timerCb => if s.timerHandle = .opened then some (timerCb s) else none
  | .serverClosed => if s.serverHandle = .closing then some { s with serverHandle := .absent } else none
  | .timerClosed => if s.timerHandle = .closing then some { s with timerHandle := .absent } else none
  | .asyncClosed => if s.asyncHandle = .closing then some { s with asyncHandle := .absent } else none
  | .leave => if s.drained then some (uvLoopEnd s) else none

def step (s : State) (label : Label) : Option State :=
  match s.pc, label with
  | .start, .begin fails => some (uvuServerRun s fails)
  | .running, label => loopStep s label
  | _, _ => none

end Tcpeen.Tcpserv
