import Tcpeen.EchoOrder
import Tcpeen.ConnectionWrites

/-! A connection of the load generator and the echo server at its other end. TCP delivers to each
side a part of what the other side has handed to `uv_write`, from the first byte on and in order;
the two programs and the threads of the server take their steps in any order. -/
namespace Tcpeen.EchoClient

open Framing (framed Sized Incomplete payloads remainder)
open Connection (World Effect Submission Message)
open SplitOperation (SplitLabel)

/-- `submitted` and `arrived` record what the client has handed to `uv_write` and what its read
callbacks have brought, `warnings` what the decoder has logged. -/
structure State where
  server : Echo.Running
  client : World
  submitted : List Submission
  arrived : List UInt8
  warnings : List Effect

inductive Label
  | server (label : SplitLabel Thread Echo.Act)
  | client (label : Connection.Label)

/-- What `on_tcp_recv_cb` logs. -/
def logs (w : World) : Connection.Label → List Effect
  | .recvCb _ now read => ((Connection.onTcpRecvCb w.closing now read w.conn).map fun r =>
      r.2.filter fun
        | .idMismatch .. => true
        | _ => false).getD []
  | _ => []

def step (cfg : Config) (s : State) : Label → Option State
  | .server label => (Echo.step cfg s.server label).map fun server => { s with server }
  | .client label => (Connection.step s.client label).map fun client =>
    { s with client, submitted := s.submitted ++ Connection.submissions s.client label
             arrived := s.arrived ++ label.bytes, warnings := s.warnings ++ logs s.client label }

namespace State

/-- The stream from the client to the server; the connection is the first handle of the client. -/
def upstream (s : State) : List UInt8 := (Connection.acceptedOn 0 s.submitted).flatten

/-- The stream from the server to the client. -/
def downstream (peer : Nat) (s : State) : List UInt8 := Service.writtenOn peer s.server.shared.1.2.writes

end State

/-- A read on the connection brings what comes next in the stream from the client. -/
def serverAllowed (peer : Nat) (s : State) (label : SplitLabel Thread Echo.Act) : Bool :=
  Echo.opensUnused s.server label && (Echo.supplied s.server label && Echo.pushesApart s.server label) &&
    match label with
    | .act (.io (.inl (.read h (.data bytes)))) =>
      h ≠ peer || (s.server.shared.1.1.received peer ++ bytes).isPrefixOf s.upstream
    | _ => true

/-- The client connects once, its writes find memory, and its buffer stores what comes next in
the stream from the server. -/
def clientAllowed (peer : Nat) (s : State) : Connection.Label → Bool
  | .connectBegin _ => s.client.count = 0
  | .writeBegin _ data outcome => data.length < 2 ^ 31 && (!Connection.takesId data s.client.conn ||
      outcome ≠ .noBuffer && outcome ≠ .noRequest)
  | .recvCb _ _ (.data bytes) => (bytes = [] || (s.client.conn.nextBuffer.write bytes).isSome) &&
      (s.arrived ++ bytes).isPrefixOf (s.downstream peer)
  | _ => true

def allowed (peer : Nat) (s : State) : Label → Bool
  | .server label => serverAllowed peer s label
  | .client label => clientAllowed peer s label

def initial (cfg : Config) (free : ListPtr Nat) (readBlocks writeBlocks : Nat → Nat → UInt8)
    (mem : Service.QueueName → QueueSpsc.Queue Nat) (ctx : Connection.Context) (block : Nat → UInt8) : State where
  server := Echo.initial cfg free readBlocks writeBlocks mem
  client := Connection.initialWorld ctx block
  submitted := []
  arrived := []
  warnings := []

/-! ### The client -/

section Client

open Connection

variable {w w' : World} {log : List Submission} {messages : List Message} {label : Connection.Label}

/-- A client with one handle at most: what `uv_write` has taken are the frames of these messages. -/
structure Single (w : World) (log : List Submission) (messages : List Message) : Prop where
  ordered : Ordered w
  few : w.count ≤ 1
  fresh : w.count = 0 → messages = [] ∧ w.conn.currentMsgId = 0
  sent : acceptedOn 0 log = numbered 0 messages
  ints : Ints messages
  last : w.conn.tcpHandle = some 0 → w.conn.state ≠ .disconnecting →
    UInt64.ofNat messages.length = w.conn.currentMsgId

theorem Single.handle (single : Single w log messages) {h : Nat} (handle : w.conn.tcpHandle = some h) :
    h = 0 ∧ w.count = 1 := by
  have inside := (single.ordered.current h handle).1
  have few := single.few
  omega

theorem step_count (taken : Connection.step w label = some w') :
    w'.count ≤ w.count + 1 ∧ ((∀ failure, label ≠ .connectBegin failure) → w'.count = w.count) := by
  cases label with
  | connectBegin failure =>
    refine ⟨?_,fun other => absurd rfl (other failure)⟩
    simp only [Connection.step] at taken
    split at taken
    · cases taken
    · cases taken
      rw [run_count,World.tcpInit]
      split <;> simp
  | writeBegin ticks data outcome =>
    simp only [Connection.step] at taken
    split at taken
    · cases taken
      simp
    · cases taken
      simp
  | disconnect =>
    cases taken
    simp
  | recvCb h now read =>
    simp only [Connection.step] at taken
    split at taken
    · obtain ⟨r,-,rfl⟩ := Option.map_eq_some_iff.mp taken
      simp
    · cases taken
  | connectedCb h connected reading | writeCb h now status length | closeCb h =>
    simp only [Connection.step] at taken
    split at taken
    · cases taken
      simp
    · cases taken

/-- A step that submits nothing. -/
theorem Single.idle (single : Single w log messages) (taken : Connection.step w label = some w')
    (once : ∀ failure, label = .connectBegin failure → w.count = 0) (idle : label.takesId w.conn = false) :
    Single w' log messages := by
  have follows := single.ordered.follows taken
  obtain ⟨most,same⟩ := step_count taken
  have current : w'.conn.currentMsgId = w.conn.currentMsgId := by
    rw [follows.current,idle]
    rfl
  have grown : w'.count = w.count ∨ w.count = 0 := by
    by_cases begins : ∃ failure, label = .connectBegin failure
    · obtain ⟨failure,begins⟩ := begins
      exact .inr (once failure begins)
    · exact .inl (same fun failure same => begins ⟨failure,same⟩)
  refine ⟨single.ordered.step taken,?_,?_,single.sent,single.ints,?_⟩
  · have := single.few
    omega
  · intro none'
    rw [current]
    exact single.fresh (by have := follows.count; omega)
  · intro handle staying
    rw [current]
    rcases follows.handle 0 handle with ⟨new,-⟩ | ⟨before,leaving⟩
    · obtain ⟨rfl,zero⟩ := single.fresh new.symm
      rw [zero]
      rfl
    · exact single.last before fun left => staying (leaving left)

/-- A write that comes to `uv_write`, which takes it or refuses it. -/
theorem Single.write (single : Single w log messages) {ticks : UInt64} {data : List UInt8} {outcome : WriteOutcome}
    (taken : Connection.step w (.writeBegin ticks data outcome) = some w') (takes : takesId data w.conn = true)
    (int : data.length < 2 ^ 31) (allocated : outcome ≠ .noBuffer ∧ outcome ≠ .noRequest) :
    ∃ messages', Single w' (log ++ submissions w (.writeBegin ticks data outcome)) messages' := by
  have ordered := single.ordered
  have follows := ordered.follows taken
  obtain ⟨h,going⟩ := tcpWriteBegin_going w.closing ticks outcome takes
  obtain ⟨rfl,one⟩ := single.handle going.handle
  obtain ⟨bb,built,holds⟩ := assemble_int ticks (w.conn.currentMsgId + 1) int
  have open' : w.conn.state ≠ .disconnecting := by
    rcases going.state with same | same <;> simp [same]
  have last := single.last going.handle open'
  have current : w'.conn.currentMsgId = w.conn.currentMsgId + 1 := by
    rw [follows.current,if_pos]
    exact takes
  have count : w'.count = 1 := by
    rw [(step_count taken).2 (by simp),one]
  have entry : submissions w (.writeBegin ticks data outcome) =
      [⟨0,frame (w.conn.currentMsgId + 1) ⟨ticks,data⟩,outcome = .sent⟩] := by
    simp [submissions,ordered.attached,uvWriteCall_takes takes going.handle,built,holds,allocated]
  have ordered' := ordered.step taken
  rw [entry]
  simp only [Connection.step,if_pos ordered.attached,Option.some.injEq] at taken
  by_cases sent : outcome = .sent
  · refine ⟨messages ++ [⟨ticks,data⟩],ordered',by omega,by omega,?_,?_,?_⟩
    · rw [acceptedOn_append,single.sent,numbered_snoc,last]
      simp [acceptedOn,sent]
    · intro m inside
      rcases List.mem_append.mp inside with before | new
      · exact single.ints m before
      · rw [List.mem_singleton.mp new]
        exact int
    · intro _ _
      rw [List.length_append,List.length_singleton,UInt64.ofNat_add,last,current]
      rfl
  · have refused : outcome = .refused := by
      cases outcome <;> simp_all
    have leaving : w'.conn.state = .disconnecting := by
      have live : w.closing 0 = false := by
        rw [← Bool.not_eq_true,World.closing,(ordered.current 0 going.handle).2.2.2]
        exact open'
      subst taken
      rw [run_conn,going.refused bb built refused]
      simp [tcpConnDisconnect,Conn.taken,going.handle,live]
    refine ⟨messages,ordered',by omega,by omega,?_,single.ints,
      fun _ staying => absurd leaving staying⟩
    rw [acceptedOn_append,single.sent]
    simp [acceptedOn,sent]

theorem Single.step (single : Single w log messages) (taken : Connection.step w label = some w')
    (once : ∀ failure, label = .connectBegin failure → w.count = 0) (allowed : label.Allocates w.conn) :
    ∃ messages', Single w' (log ++ submissions w label) messages' := by
  by_cases takes : label.takesId w.conn = true
  · cases label with
    | writeBegin ticks data outcome => exact single.write taken takes allowed.1 (allowed.2 takes)
    | _ => cases takes
  · have stops : label.takesId w.conn = false := by simpa using takes
    have nothing : submissions w label = [] := by
      cases label with
      | writeBegin ticks data outcome =>
        simp [submissions,uvWriteCall_stops (show Connection.takesId data w.conn = false from stops)]
      | _ => rfl
    rw [nothing,List.append_nil]
    exact ⟨messages,single.idle taken once stops⟩

/-- What has arrived is decoded as far as it goes, and every id was the one expected. -/
structure Decoded (w : World) (arrived : List UInt8) : Prop where
  facing : Facing (remainder arrived) w.conn
  last : w.conn.lastRecvMsgId = UInt64.ofNat (payloads arrived).length

theorem foldl_consecutive {last : UInt64} {l : List (List UInt8)} (consecutive : Consecutive last l) :
    l.foldl expectId last = last + UInt64.ofNat l.length := by
  induction l generalizing last with
  | nil => simp
  | cons payload rest ih =>
    obtain ⟨expected,behind⟩ := consecutive
    rw [List.foldl_cons,expectId,if_pos expected,ih behind,List.length_cons,UInt64.ofNat_add]
    simp only [UInt64.add_assoc]
    congr 1
    exact UInt64.add_comm ..

/-- A part of the frames that arrives from the first on. -/
theorem payloads_part {arrived : List UInt8} (ints : Ints messages) (part : arrived <+: (numbered 0 messages).flatten) :
    payloads arrived <+: bodies 0 messages := by
  obtain ⟨future,whole⟩ := part
  obtain ⟨sized,-⟩ := bodies_sized 0 ints
  rw [numbered_framed] at whole
  have all := (Framing.payloads_unique (whole.trans (List.append_nil _).symm) sized nothing_incomplete).1
  rw [(Framing.payloads_append _ _).1] at all
  exact ⟨_,all⟩

/-- A read callback that brings what comes next. -/
theorem Decoded.recv (closing : Nat → Bool) (now : UInt64) {arrived chunk : List UInt8} {b : Buffer} {c : Conn}
    (ints : Ints messages) (facing : Facing (remainder arrived) c)
    (last : c.lastRecvMsgId = UInt64.ofNat (payloads arrived).length) (some' : chunk ≠ [])
    (stored : c.nextBuffer.write chunk = some b) (part : arrived ++ chunk <+: (numbered 0 messages).flatten) :
    ∃ c', onTcpRecvCb closing now (.data chunk) c = some (c', []) ∧
      Facing (remainder (arrived ++ chunk)) c' ∧ c'.lastRecvMsgId =
        UInt64.ofNat (payloads (arrived ++ chunk)).length := by
  obtain ⟨split,rest⟩ := Framing.payloads_append arrived chunk
  have taken := payloads_part ints part
  rw [split] at taken
  have long : ∀ d ∈ payloads (remainder arrived ++ chunk), 17 ≤ d.length := fun d inside =>
    (bodies_sized 0 ints).2 d (taken.subset (List.mem_append_right _ inside))
  have consecutive : Consecutive 0 (bodies 0 messages) := bodies_consecutive
  obtain ⟨more,all⟩ := taken
  rw [← all] at consecutive
  obtain ⟨before,after⟩ := consecutive.of_append.1.of_append
  rw [foldl_consecutive before] at after
  obtain ⟨whole,sized,incomplete⟩ := Framing.payloads_spec (remainder arrived ++ chunk)
  obtain ⟨c',receives⟩ := recv_frames closing now facing some' stored whole sized long (.inl incomplete)
  have waits := receives.waits incomplete
  have expected : Consecutive c.lastRecvMsgId (payloads (remainder arrived ++ chunk)) := by
    rw [last]
    simpa using after
  refine ⟨c',?_,?_,?_⟩
  · rw [receives.received,expected.silent]
  · rw [rest]
    exact waits.facing
  · rw [waits.last,foldl_consecutive expected,last,split,List.length_append,UInt64.ofNat_add]

end Client

/-! ### The server -/

section Server

open Echo (Running)

variable {cfg : Config} (peer : Nat)

theorem onConnection_received (failure : Option Receive.ConnectStep) (s : Receive.State) :
    (Receive.onConnection failure s).2.received = s.received := by
  unfold Receive.onConnection
  repeat' split
  all_goals rfl

theorem onClose_received (h : Nat) (s : Receive.State) : (Receive.onClose h s).2.received = s.received := by
  simp only [Receive.onClose]
  repeat' split
  all_goals rfl

theorem releaseNext_received (s : Receive.State) (l : List Nat) :
    (Receive.releaseNext s l).2.received = s.received := by
  unfold Receive.releaseNext
  repeat' split
  all_goals rfl

theorem resume_received (t : Thread) (pc : Receive.Pc t) (res : QueueSpsc.Res Nat) (s : Receive.State) :
    (Receive.resume t pc res s).2.received = s.received := by
  cases t with
  | main =>
    change (Receive.resumeMain pc res s).2.received = s.received
    unfold Receive.resumeMain
    split
    · rfl
    · rfl
    · exact releaseNext_received ..
    · rfl
  | io =>
    change (Receive.resumeIo pc res s).2.received = s.received
    unfold Receive.resumeIo
    repeat' split
    all_goals rfl

/-- Only a read callback with data adds to what a connection has received. -/
theorem act_received {b : Receive.Act} {pc : Receive.Pc (Receive.actor b)} {s : Receive.State}
    {r : Receive.Pc (Receive.actor b) × Receive.State} (done : Receive.act cfg b pc s = some r) :
    r.2.received peer = s.received peer ∨
      ∃ bytes, b = .read peer (.data bytes) ∧ r.2.received peer = s.received peer ++ bytes := by
  cases b with
  | acquire =>
    obtain rfl := Option.some.inj done
    exact .inl rfl
  | release =>
    obtain rfl := Option.some.inj done
    exact .inl (congrFun (releaseNext_received ..) peer)
  | connection failure =>
    obtain rfl := Option.some.inj done
    exact .inl (congrFun (onConnection_received ..) peer)
  | alloc h =>
    simp only [Receive.act] at done
    split at done
    · split at done
      · obtain rfl := Option.some.inj done
        left
        unfold Receive.onRecvAlloc
        split <;> rfl
      · cases done
    · cases done
  | close h =>
    simp only [Receive.act] at done
    split at done
    · obtain rfl := Option.some.inj done
      exact .inl (congrFun (onClose_received ..) peer)
    · cases done
  | read h result =>
    obtain ⟨c,buf,-,-,-,received⟩ := Receive.act_read_cases done
    cases result with
    | error =>
      obtain rfl := Option.some.inj received
      exact .inl rfl
    | again =>
      obtain rfl := Option.some.inj received
      exact .inl rfl
    | data bytes =>
      simp only [Receive.onRecv] at received
      split at received
      · cases received
      · next b offset base =>
        split at received
        · cases received
        · obtain rfl := Option.some.inj received
          have stored (s : Receive.State) : (Receive.onRecvData h c bytes.length s).2.received = s.received := by
            unfold Receive.onRecvData
            repeat' split
            all_goals rfl
          rw [stored]
          by_cases own : peer = h
          · subst own
            exact .inr ⟨bytes,rfl,by simp [Receive.State.arrive,Receive.State.answer,Receive.State.setHandle]⟩
          · exact .inl (by simp [Receive.State.arrive,Receive.State.answer,Receive.State.setHandle,own])

theorem service_act_received {b : Service.Act} {pc : Service.Pc (Service.actor cfg b)} {s : Service.State}
    {r : Service.Pc (Service.actor cfg b) × Service.State} (done : (Service.machine cfg).act b pc s = some r) :
    r.2.1.received peer = s.1.received peer ∨
      ∃ bytes, b = .inl (.read peer (.data bytes)) ∧ r.2.1.received peer = s.1.received peer ++ bytes := by
  rcases b with (b | b)
  · obtain ⟨-,ran⟩ := Option.ite_none_right_eq_some.mp (show (if _ then _ else none) = _ from done)
    obtain ⟨x,received,rfl⟩ := Option.map_eq_some_iff.mp ran
    rcases act_received peer received with same | ⟨bytes,rfl,more⟩
    · exact .inl same
    · exact .inr ⟨bytes,rfl,more⟩
  · obtain ⟨-,ran⟩ := Option.ite_none_right_eq_some.mp (show (if _ then _ else none) = _ from done)
    obtain ⟨x,-,rfl⟩ := Option.map_eq_some_iff.mp ran
    exact .inl rfl

theorem service_resume_received (t : Thread) (pc : Service.Pc t) (res : QueueSpsc.Res Nat) (s : Service.State) :
    ((Service.machine cfg).resume t pc res s).2.1.received = s.1.received := by
  simp only [Service.machine,SplitOperation.join]
  split
  · exact resume_received t pc.1 res s.1
  · rfl

theorem echo_act_received {b : Echo.Act} {pc : Echo.Pc (Echo.actor cfg b)} {s : Echo.State}
    {r : Echo.Pc (Echo.actor cfg b) × Echo.State} (done : Echo.act cfg b pc s = some r) :
    r.2.1.1.received peer = s.1.1.received peer ∨
      ∃ bytes, b = .io (.inl (.read peer (.data bytes))) ∧ r.2.1.1.received peer = s.1.1.received peer ++ bytes := by
  obtain ⟨s,loop⟩ := s
  cases b with
  | acquire =>
    cases loop with
    | batch eidx => cases done
    | sleeping =>
      obtain ⟨x,ran,rfl⟩ := Option.map_eq_some_iff.mp done
      rcases service_act_received peer ran with same | ⟨bytes,other,-⟩
      · exact .inl same
      · cases other
  | release =>
    cases loop with
    | sleeping => cases done
    | batch eidx =>
      obtain ⟨-,done⟩ := Option.ite_none_left_eq_some.mp done
      obtain ⟨x,ran,rfl⟩ := Option.map_eq_some_iff.mp done
      rcases service_act_received peer ran with same | ⟨bytes,other,-⟩
      · exact .inl same
      · cases other
  | handle =>
    cases loop with
    | sleeping => cases done
    | batch eidx =>
      left
      simp only [Echo.act] at done
      split at done
      · cases done
      · split at done
        · obtain ⟨x,ran,rfl⟩ := Option.map_eq_some_iff.mp done
          simp only [Echo.handleClientRead] at ran
          split at ran
          · obtain rfl := Option.some.inj ran
            rfl
          · obtain ⟨b,-,ran⟩ := Option.bind_eq_some_iff.mp ran
            obtain ⟨y,-,rfl⟩ := Option.map_eq_some_iff.mp ran
            rfl
        · obtain rfl := Option.some.inj done
          rfl
  | io b =>
    simp only [Echo.act] at done
    split at done
    · obtain ⟨x,ran,rfl⟩ := Option.map_eq_some_iff.mp done
      rcases service_act_received peer ran with same | ⟨bytes,rfl,more⟩
      · exact .inl same
      · exact .inr ⟨bytes,rfl,more⟩
    · cases done

/-- What a step of the server adds to what it has received. -/
theorem echo_received {s s' : Running} {label : SplitLabel Thread Echo.Act} (taken : Echo.step cfg s label = some s') :
    s'.shared.1.1.received peer = s.shared.1.1.received peer ∨
      ∃ bytes, label = .act (.io (.inl (.read peer (.data bytes)))) ∧
        s'.shared.1.1.received peer = s.shared.1.1.received peer ++ bytes := by
  cases label with
  | act b =>
    obtain ⟨-,r,done,rfl⟩ := SplitOperation.splitStep_act_cases taken
    rcases echo_act_received peer done with same | ⟨bytes,rfl,more⟩
    · exact .inl same
    · exact .inr ⟨bytes,rfl,more⟩
  | tick t =>
    obtain ⟨q,op,mem,-,⟨loc,-,rfl⟩ | ⟨res,-,rfl⟩⟩ := SplitOperation.splitStep_tick_cases taken
    · exact .inl rfl
    · exact .inl (congrFun (service_resume_received t (s.pcs t) res s.shared.1) peer)

end Server

/-! ### Both -/

/-- The streams of a connection, each a part of the one before: submitted, received by the server,
arrived at the client. -/
structure Linked (peer : Nat) (s : State) (messages : List Message) : Prop where
  single : Single s.client s.submitted messages
  decoded : Decoded s.client s.arrived
  silent : s.warnings = []
  up : s.server.shared.1.1.received peer <+: s.upstream
  down : s.arrived <+: s.server.shared.1.1.received peer

section Steps

open Connection

variable {cfg : Config} {peer : Nat} {s s' : State} {messages : List Message}

theorem Decoded.kept {w w' : World} {arrived : List UInt8} (decoded : Decoded w arrived)
    (same : w'.conn.decoder = w.conn.decoder) : Decoded w' arrived := by
  simp only [Conn.decoder,Decoder.mk.injEq] at same
  obtain ⟨buffer,state,length,last⟩ := same
  obtain ⟨⟨valid,capacity,place⟩,counted⟩ := decoded
  refine ⟨⟨buffer ▸ valid,buffer ▸ capacity,?_⟩,last ▸ counted⟩
  rw [state,buffer,length]
  exact place

theorem logs_nothing {w : World} {label : Connection.Label} (nothing : label.bytes = []) : logs w label = [] := by
  cases label with
  | recvCb h now read =>
    cases read with
    | error code =>
      rcases tcpConnDisconnect_cases w.closing { w.conn with readErr := code } with same | ⟨h,-,-,same⟩ <;>
        simp [logs,onTcpRecvCb,same]
    | data bytes =>
      obtain rfl : bytes = [] := nothing
      rfl
  | _ => rfl

theorem Linked.server {label : SplitLabel Thread Echo.Act} (linked : Linked peer s messages)
    (allowed : serverAllowed peer s label = true) (taken : step cfg s (.server label) = some s') :
    Linked peer s' messages := by
  obtain ⟨server,ran,rfl⟩ := Option.map_eq_some_iff.mp taken
  have grown : server.shared.1.1.received peer <+: s.upstream ∧
      s.server.shared.1.1.received peer <+: server.shared.1.1.received peer := by
    rcases echo_received peer ran with same | ⟨bytes,rfl,more⟩
    · rw [same]
      exact ⟨linked.up,List.prefix_rfl⟩
    · simp only [serverAllowed,ne_eq,not_true,decide_false,Bool.false_or,Bool.and_eq_true,
        List.isPrefixOf_iff_prefix] at allowed
      rw [more]
      exact ⟨allowed.2,List.prefix_append ..⟩
  exact ⟨linked.single,linked.decoded,linked.silent,grown.1,linked.down.trans grown.2⟩

theorem Linked.client {label : Connection.Label} (linked : Linked peer s messages)
    (echoed : s.downstream peer <+: s.server.shared.1.1.received peer) (allowed : clientAllowed peer s label = true)
    (taken : step cfg s (.client label) = some s') : ∃ messages', Linked peer s' messages' := by
  obtain ⟨client,ran,rfl⟩ := Option.map_eq_some_iff.mp taken
  have once : ∀ failure, label = .connectBegin failure → s.client.count = 0 := by
    rintro failure rfl
    simpa [clientAllowed] using allowed
  have allocates : label.Allocates s.client.conn := by
    cases label with
    | writeBegin ticks data outcome =>
      simp only [clientAllowed,Bool.and_eq_true,Bool.or_eq_true,decide_eq_true_eq,Bool.not_eq_true'] at allowed
      refine ⟨allowed.1,fun takes => ?_⟩
      rcases allowed.2 with stops | allocated
      · rw [takes] at stops
        cases stops
      · exact allocated
    | _ => trivial
  obtain ⟨messages',single⟩ := linked.single.step ran once allocates
  have up : s.server.shared.1.1.received peer <+: (acceptedOn 0 (s.submitted ++ submissions s.client label)).flatten := by
    rw [acceptedOn_append,List.flatten_append]
    exact linked.up.trans (List.prefix_append ..)
  by_cases nothing : label.bytes = []
  · have follows := linked.single.ordered.follows ran
    refine ⟨messages',single,?_,?_,up,?_⟩
    · rw [nothing,List.append_nil]
      exact linked.decoded.kept (follows.decoder nothing)
    · rw [logs_nothing nothing,linked.silent]
      rfl
    · rw [nothing,List.append_nil]
      exact linked.down
  · cases label with
    | recvCb h now read =>
      cases read with
      | error code => exact absurd rfl nothing
      | data bytes =>
        have some' : bytes ≠ [] := nothing
        simp only [clientAllowed,Bool.and_eq_true,Bool.or_eq_true,decide_eq_true_eq,some',false_or,
          List.isPrefixOf_iff_prefix] at allowed
        obtain ⟨stores,next⟩ := allowed
        obtain ⟨b,stored⟩ := Option.isSome_iff_exists.mp stores
        have arrives := next.trans echoed
        have part := arrives.trans up
        rw [single.sent] at part
        obtain ⟨c,received,facing,last⟩ := Decoded.recv s.client.closing now single.ints
          linked.decoded.facing linked.decoded.last some' stored part
        simp only [Connection.step] at ran
        obtain ⟨-,ran⟩ := Option.ite_none_right_eq_some.mp ran
        rw [received,Option.map_some,Option.some.injEq] at ran
        subst ran
        refine ⟨messages',single,⟨?_,?_⟩,?_,up,arrives⟩
        · rw [run_conn]
          exact facing
        · rw [run_conn]
          exact last
        · simp [logs,received,linked.silent]
    | _ => exact absurd rfl nothing

end Steps

section Runs

variable {peer : Nat} {free : ListPtr Nat} {mem : Service.QueueName → QueueSpsc.Queue Nat}
  {readBlocks writeBlocks : Nat → Nat → UInt8} {ctx : Connection.Context} {block : Nat → UInt8}

theorem initial_linked : Linked peer (initial serviceConfig free readBlocks writeBlocks mem ctx block) [] := by
  refine ⟨⟨Connection.initialWorld_ordered ctx block,Nat.zero_le _,fun _ => ⟨rfl,rfl⟩,rfl,?_,?_⟩,⟨?_,rfl⟩,rfl,?_,?_⟩
  · exact fun _ inside => absurd inside List.not_mem_nil
  · rintro ⟨⟩
  · exact ⟨Buffer.setup_valid _ _ (by decide),rfl,rfl⟩
  · exact List.prefix_rfl
  · exact List.prefix_rfl

/-- The server in a run of both. -/
theorem server_runs {s : State}
    (reach : Transition.Reachable (step serviceConfig) (fun s label => allowed peer s label = true)
      (initial serviceConfig free readBlocks writeBlocks mem ctx block) s) :
    Transition.Reachable (Echo.step serviceConfig) (fun s label => Echo.opensUnused s label = true ∧
        Echo.supplied s label = true ∧ Echo.pushesApart s label = true)
      (Echo.initial serviceConfig free readBlocks writeBlocks mem) s.server := by
  refine reach.map State.server ?_
  intro s label t guard taken
  cases label with
  | client label =>
    obtain ⟨client,-,rfl⟩ := Option.map_eq_some_iff.mp taken
    exact .inl rfl
  | server label =>
    obtain ⟨server,ran,rfl⟩ := Option.map_eq_some_iff.mp taken
    simp only [allowed,serverAllowed,Bool.and_eq_true] at guard
    exact .inr ⟨label,⟨guard.1.1,guard.1.2⟩,ran⟩

/-- The server has written a part of what it has received. -/
theorem downstream_received (ready : Service.SetUp serviceConfig free mem) {s : State}
    (reach : Transition.Reachable (step serviceConfig) (fun s label => allowed peer s label = true)
      (initial serviceConfig free readBlocks writeBlocks mem ctx block) s) :
    s.downstream peer <+: s.server.shared.1.1.received peer := by
  have roomy : serviceConfig.bufferCount < 2 ^ serviceConfig.bits := by decide
  obtain ⟨a,reached,related⟩ := Echo.reachable_related roomy ready (server_runs reach)
  have following := Echo.reachable_following roomy ready.receive.list (reached.weaken fun _ _ guard => guard.1)
  have known := Service.reachable_known roomy ready.receive.list following.reached
  rw [State.downstream,related.shared]
  exact (Echo.reachable_echoing roomy ready.receive.list reached).begins known peer

end Runs

/-- Whatever the order of the steps of the client and of both threads of the server: what arrives at
the client is a part of what the server received, which is a part of what the client sent. The
client decodes of it the payloads of its first messages, takes the id of the last of them for the
last one received, and never logs a mismatch. -/
theorem replies_in_order (peer : Nat) (free : ListPtr Nat) (mem : Service.QueueName → QueueSpsc.Queue Nat)
    (ready : Service.SetUp serviceConfig free mem) (readBlocks writeBlocks : Nat → Nat → UInt8)
    (ctx : Connection.Context) (block : Nat → UInt8) (s : State)
    (reach : Transition.Reachable (step serviceConfig) (fun s label => allowed peer s label = true)
      (initial serviceConfig free readBlocks writeBlocks mem ctx block) s) :
    s.warnings = [] ∧ s.arrived <+: s.server.shared.1.1.received peer ∧
      s.server.shared.1.1.received peer <+: s.upstream ∧
      s.client.conn.lastRecvMsgId = UInt64.ofNat (payloads s.arrived).length ∧
      ∃ messages, Connection.acceptedOn 0 s.submitted = Connection.numbered 0 messages ∧
        payloads s.arrived <+: Connection.bodies 0 messages := by
  obtain ⟨messages,linked⟩ : ∃ messages, Linked peer s messages := by
    refine reach.invariant_with (fun s => s.downstream peer <+: s.server.shared.1.1.received peer)
      (fun s => ∃ messages, Linked peer s messages) (fun _ reached => downstream_received ready reached)
      ⟨[],initial_linked⟩ ?_
    rintro s label t echoed ⟨messages,linked⟩ guard taken
    cases label with
    | server label => exact ⟨messages,linked.server guard taken⟩
    | client label => exact linked.client echoed guard taken
  have part : s.arrived <+: (Connection.numbered 0 messages).flatten :=
    (linked.down.trans linked.up).trans (linked.single.sent ▸ List.prefix_rfl)
  exact ⟨linked.silent,linked.down,linked.up,linked.decoded.last,messages,linked.single.sent,
    payloads_part linked.single.ints part⟩

section Sample

/-- The first frame of a client that sends one byte. -/
def firstFrame : List UInt8 := [0,0,0,18,0,0,0,0,0,0,0,1,0,0,0,0,0,0,0,5,7,0]

def frameRead : List (SplitLabel Thread Receive.Act) :=
  Receive.connected ++ .act (.read 0 (.data firstFrame)) :: Receive.ioCall 8

def frameEcho : List (SplitLabel Thread Echo.Act) :=
  .act .acquire :: List.replicate 5 (.tick .main) ++ .act .handle :: .act .handle :: List.replicate 12 (.tick .main) ++
    .act (.io (.inr .prep)) :: List.replicate 4 (.tick .io) ++ [.act (.io (.inr (.submit (.uvWrite 0 true))))]

def frameSent : List Connection.Label := [.connectBegin none,.connectedCb 0 true true,.writeBegin 5 [7] .sent]

def frameArrives : List Connection.Label :=
  [.recvCb 0 9 (.data (firstFrame.take 10)),.recvCb 0 9 (.data (firstFrame.drop 10))]

/-- The client connects and writes, the server echoes the frame, and it arrives in two pieces. -/
def echoedFrame : List Label :=
  frameSent.map .client ++ (frameRead.map Echo.ofIo ++ frameEcho).map .server ++ frameArrives.map .client

theorem replies_in_order_frame :
    ∃ s, Transition.execute (Transition.checked (step serviceConfig) (allowed 0)) echoedFrame
        (initial serviceConfig ⟨id,10000,10000⟩ (fun _ _ => 0) (fun _ _ => 0)
          Service.serviceStart.mem ⟨0,0,0,0⟩ fun _ => 0) =
          some s ∧
      s.arrived = firstFrame ∧ s.warnings = [] ∧ s.client.conn.lastRecvMsgId = 1 := by
  have observed : (Transition.execute (Transition.checked (step serviceConfig) (allowed 0)) echoedFrame
      (initial serviceConfig ⟨id,10000,10000⟩ (fun _ _ => 0) (fun _ _ => 0)
        Service.serviceStart.mem ⟨0,0,0,0⟩ fun _ => 0)).map
        (fun s => s.arrived) = some firstFrame := by decide +kernel
  obtain ⟨s,run,arrived⟩ := Option.map_eq_some_iff.mp observed
  obtain ⟨silent,-,-,last,-⟩ := replies_in_order 0 _ _ Service.serviceStart_setUp _ _ _ _ s (.of_checked (fun _ _ => id) run)
  refine ⟨s,run,arrived,silent,?_⟩
  rw [last,arrived]
  decide +kernel

end Sample

end Tcpeen.EchoClient
