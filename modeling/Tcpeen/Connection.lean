import Tcpeen.Buffer

/-! The load generator's connection, tcp_connection.c: the framed requests it writes and
the decoder that takes the echoed bytes back out of the stream. The calls into libuv are
effects; what libuv and the allocator answer is an argument. -/
namespace Tcpeen.Connection

inductive ConnectionState
  | new | connecting | connected | disconnecting | disconnected
  deriving DecidableEq, Repr

/-- `tcp_channel_read_state_t`. -/
inductive ReadState
  | none | header | payload | error | invalid
  deriving DecidableEq, Repr

structure Context where
  recvMsgs : UInt64
  recvBytes : UInt64
  sendMsgs : UInt64
  sendBytes : UInt64
  deriving DecidableEq, Repr

/-- `tcp_conn_t` with the context it points to. Handles are named by numbers. -/
structure Conn where
  ctx : Context
  tcpHandle : Option Nat
  readErr : Int
  writeErr : Int
  state : ConnectionState
  recvMsgs : UInt64
  recvBytes : UInt64
  sendMsgs : UInt64
  sendBytes : UInt64
  latencyTotal : UInt64
  latencyMax : UInt64
  tstampFirstMsg : UInt64
  tstampLastMsg : UInt64
  currentMsgId : UInt64
  lastRecvMsgId : UInt64
  nextPayloadLen : UInt32
  nextBuffer : Buffer
  readState : ReadState

inductive Effect
  | uvWrite (handle : Nat) (bytes : List UInt8)
  | uvClose (handle : Nat)
  | idMismatch (nread : Nat) (span : UInt32) (expected received : UInt64)
  deriving DecidableEq, Repr

/-- `65535 * 2`, the size of `next_buf`. -/
def nextBufSize : Nat := 65535 * 2

/-- A `tcp_conn_init` whose allocations succeed; `mem` is what the block held before. -/
def tcpConnInit (ctx : Context) (mem : Nat → UInt8) : Conn where
  ctx := ctx
  tcpHandle := none
  readErr := 0
  writeErr := 0
  state := .new
  recvMsgs := 0
  recvBytes := 0
  sendMsgs := 0
  sendBytes := 0
  latencyTotal := 0
  latencyMax := 0
  tstampFirstMsg := 0
  tstampLastMsg := 0
  currentMsgId := 0
  lastRecvMsgId := 0
  nextPayloadLen := 0
  nextBuffer := Buffer.setup mem nextBufSize
  readState := .header

/-- `closing` answers `uv_is_closing`. -/
def tcpConnDisconnect (closing : Nat → Bool) (c : Conn) : Conn × List Effect :=
  if c.state = .disconnected ∨ c.state = .disconnecting then (c, [])
  else match c.tcpHandle with
    | none => (c, [])
    | some handle =>
      if closing handle then (c, []) else ({ c with state := .disconnecting }, [.uvClose handle])

/-- The calls of `tcp_connect_begin` that can fail, in order. -/
inductive ConnectStep
  | handle | tcpInit | hostRemote | hostLocal | nodelay | bind | request | connect
  deriving DecidableEq, Repr

/-- `tcp_connect_begin`, failing at the given call; the flag says that it returned
`TN_SUCCESS`. -/
def tcpConnectBegin (closing : Nat → Bool) (fresh : Nat) (failure : Option ConnectStep) (c : Conn) :
    Bool × Conn × List Effect :=
  if c.state ≠ .new ∧ c.state ≠ .disconnected then (false, c, [])
  else match failure with
    | some .handle => (false, { c with tcpHandle := none }, [])
    | some .connect =>
      (false, tcpConnDisconnect closing { c with tcpHandle := some fresh, state := .connecting })
    | some _ => (false, tcpConnDisconnect closing { c with tcpHandle := some fresh })
    | none => (true, { c with tcpHandle := some fresh, state := .connecting }, [])

/-- `on_tcp_connected_cb`: `connected` is a non-negative status, `reading` the success of
`uv_read_start`. -/
def onTcpConnectedCb (closing : Nat → Bool) (handle : Nat) (connected reading : Bool) (c : Conn) :
    Conn × List Effect :=
  if !connected then tcpConnDisconnect closing c
  else
    let c := { c with state := .connected, tcpHandle := some handle }
    if reading then (c, []) else tcpConnDisconnect closing c

/-- `on_tcp_close_cb`. -/
def onTcpCloseCb (c : Conn) : Conn := { c with state := .disconnected, tcpHandle := none }

/-! ### Writing -/

/-- How far `tcp_write_begin` gets. -/
inductive WriteOutcome
  | noBuffer | noRequest | refused | sent
  deriving DecidableEq, Repr

/-- The request as `tcp_write_begin` builds it in `bb_data`. A failed write of the payload
or of the null byte is logged and the rest is still sent. -/
def assemble (ticks msgId : UInt64) (data : List UInt8) : Option ByteBuf := do
  let bb : ByteBuf := ⟨fun _ => 0, 0, data.length + 4 + 8 + 8 + 1⟩
  let bb ← bb.write (BigEndian.encode 4 (data.length + 8 + 8 + 1))
  let bb ← bb.write (BigEndian.encode 8 msgId.toNat)
  let bb ← bb.write (BigEndian.encode 8 ticks.toNat)
  let bb := (bb.write data).getD bb
  let bb := (bb.write [0]).getD bb
  pure bb

def tcpWriteBegin (closing : Nat → Bool) (ticks : UInt64) (data : List UInt8) (outcome : WriteOutcome)
    (c : Conn) : Conn × List Effect :=
  match c.tcpHandle with
  | none => (c, [])
  | some handle =>
    if data.length = 0 then (c, [])
    else if c.state ≠ .connecting ∧ c.state ≠ .connected then (c, [])
    else
      let c := { c with state := .connected, currentMsgId := c.currentMsgId + 1 }
      if outcome = .noBuffer then (c, [])
      else match assemble ticks c.currentMsgId data with
        | none => (c, [])
        | some bb =>
          match outcome with
          | .sent => (c, [.uvWrite handle (window bb.mem 0 bb.len)])
          | .refused => tcpConnDisconnect closing c
          | _ => (c, [])

/-- `on_tcp_write_cb`; `length` is what the request's `uv_buf_t` covers. -/
def onTcpWriteCb (closing : Nat → Bool) (now : UInt64) (status : Int) (length : Nat) (c : Conn) :
    Conn × List Effect :=
  let c :=
    if status ≠ 0 then { c with writeErr := status }
    else if length = 0 then c
    else
      { c with
        tstampFirstMsg := if c.tstampFirstMsg = 0 then now else c.tstampFirstMsg
        sendMsgs := c.sendMsgs + 1
        sendBytes := c.sendBytes + UInt64.ofNat length
        ctx := { c.ctx with
          sendMsgs := c.ctx.sendMsgs + 1
          sendBytes := c.ctx.sendBytes + UInt64.ofNat length } }
  if status ≠ 0 ∨ c.state ≠ .connected then tcpConnDisconnect closing c else (c, [])

/-! ### Reading -/

/-- One pass of the decode loop: leave it, go round again, or jump to `cleanup`. -/
inductive Round
  | done
  | again (c : Conn) (latency : UInt64) (effects : List Effect)
  | cleanup (c : Conn)

def decodeRound (now : UInt64) (nread : Nat) (c : Conn) (latency : UInt64) : Round :=
  match c.readState with
  | .header =>
    if c.nextBuffer.readLength < 4 then .done
    else match c.nextBuffer.readBe32 with
      | none => .cleanup c
      | some (b, length) =>
        .again { c with nextBuffer := b, nextPayloadLen := UInt32.ofNat length, readState := .payload }
          latency []
  | .payload =>
    if c.nextBuffer.readLength < c.nextPayloadLen.toNat then .done
    else match c.nextBuffer.readBe64 with
      | none => .cleanup c
      | some (b, msgId) => match b.readBe64 with
        | none => .cleanup { c with nextBuffer := b }
        | some (b, stamp) => match b.readSkip (c.nextPayloadLen - 16).toNat with
          | none => .cleanup { c with nextBuffer := b }
          | some b =>
            let latency := (now - UInt64.ofNat stamp) / 1000000
            let received := UInt64.ofNat msgId
            let expected := c.lastRecvMsgId + 1
            if received ≠ expected then
              .again { c with nextBuffer := b, readState := .header } latency
                [.idMismatch nread c.nextPayloadLen expected received]
            else
              .again { c with nextBuffer := b, lastRecvMsgId := expected, readState := .header } latency []
  | _ => .again c latency []

/-- The decode loop; `none` is a loop that does not end within `fuel` passes, and the
latency is missing where it was left through `cleanup`. -/
def decode (now : UInt64) (nread : Nat) : Nat → Conn → UInt64 → Option (Conn × Option UInt64 × List Effect)
  | 0, _, _ => none
  | fuel + 1, c, latency =>
    match decodeRound now nread c latency with
    | .done => some (c, some latency, [])
    | .cleanup c => some (c, none, [])
    | .again c latency effects =>
      (decode now nread fuel c latency).map fun (c, latency, later) => (c, latency, effects ++ later)

/-- The part of `on_tcp_recv_cb` between the loop and `cleanup`. -/
def recvDone (now : UInt64) (nread : Nat) (latency : UInt64) (c : Conn) : Conn :=
  { c with
    nextBuffer := if c.nextBuffer.readLength = 0 then c.nextBuffer.reset else c.nextBuffer
    latencyTotal := c.latencyTotal + latency
    latencyMax := if c.latencyMax < latency then latency else c.latencyMax
    tstampLastMsg := now
    recvMsgs := c.recvMsgs + 1
    recvBytes := c.recvBytes + UInt64.ofNat nread
    ctx := { c.ctx with
      recvMsgs := c.ctx.recvMsgs + 1
      recvBytes := c.ctx.recvBytes + UInt64.ofNat nread } }

/-- `nread` and `buf` of a read callback. -/
inductive Read
  | error (code : Int)
  | data (bytes : List UInt8)
  deriving DecidableEq, Repr

/-- `on_tcp_recv_cb`. A pass that goes round takes at least four bytes, so the fuel only
runs out where the loop spins in a state that is neither header nor payload. -/
def onTcpRecvCb (closing : Nat → Bool) (now : UInt64) (read : Read) (c : Conn) :
    Option (Conn × List Effect) :=
  match read with
  | .error code => some (tcpConnDisconnect closing { c with readErr := code })
  | .data [] => some (c, [])
  | .data bytes =>
    match c.nextBuffer.write bytes with
    | none => some (c, [])
    | some b =>
      (decode now bytes.length (b.readLength + 1) { c with nextBuffer := b } 0).map
        fun (c, latency, effects) =>
          (match latency with
            | some latency => recvDone now bytes.length latency c
            | none => c, effects)

/-- Only the decoder's own fields differ. -/
def OnlyDecoder (c c' : Conn) : Prop :=
  c' = { c with nextBuffer := c'.nextBuffer, readState := c'.readState, nextPayloadLen := c'.nextPayloadLen
                lastRecvMsgId := c'.lastRecvMsgId }

section Decoder

variable {c c' c'' : Conn} {now latency : UInt64} {nread : Nat}

theorem OnlyDecoder.refl (c : Conn) : OnlyDecoder c c := rfl

theorem OnlyDecoder.trans (first : OnlyDecoder c c') (second : OnlyDecoder c' c'') : OnlyDecoder c c'' := by
  unfold OnlyDecoder at *
  rw [second,first]

/-- What is no field of the decoder is as before. -/
theorem OnlyDecoder.same {α : Type} (only : OnlyDecoder c c') (field : Conn → α)
    (apart : ∀ buffer state length last, field { c with nextBuffer := buffer, readState := state
                                                        nextPayloadLen := length, lastRecvMsgId := last } = field c) :
    field c' = field c := by
  unfold OnlyDecoder at only
  rw [only]
  exact apart ..

/-- A round touches the decoder only, and calls nothing of libuv. -/
theorem decodeRound_only :
    (∀ c', decodeRound now nread c latency = .cleanup c' → OnlyDecoder c c') ∧
      ∀ c' latency' effects, decodeRound now nread c latency = .again c' latency' effects → OnlyDecoder c c' ∧
        ∀ effect ∈ effects, ∃ nread span expected received, effect = .idMismatch nread span expected received := by
  constructor
  · intro c' round
    simp only [decodeRound] at round
    repeat' split at round
    all_goals cases round
    all_goals rfl
  · intro c' latency' effects round
    simp only [decodeRound] at round
    repeat' split at round
    all_goals cases round
    all_goals refine ⟨rfl,?_⟩
    all_goals simp

theorem decode_only {fuel : Nat} {latency' : Option UInt64} {effects : List Effect}
    (decoded : decode now nread fuel c latency = some (c', latency', effects)) : OnlyDecoder c c' ∧
      ∀ effect ∈ effects, ∃ nread span expected received, effect = .idMismatch nread span expected received := by
  induction fuel generalizing c latency effects with
  | zero => cases decoded
  | succ fuel ih =>
    unfold decode at decoded
    split at decoded
    · cases decoded
      exact ⟨.refl _,by simp⟩
    · next round =>
      cases decoded
      exact ⟨decodeRound_only.1 _ round,by simp⟩
    · next middle _ first round =>
      obtain ⟨only,logs⟩ := decodeRound_only.2 _ _ _ round
      obtain ⟨⟨c'',latency'',later⟩,rest,same⟩ := Option.map_eq_some_iff.mp decoded
      simp only [Prod.mk.injEq] at same
      obtain ⟨rfl,rfl,rfl⟩ := same
      obtain ⟨only',logs'⟩ := ih rest
      refine ⟨only.trans only',?_⟩
      intro effect member
      rcases List.mem_append.mp member with member | member
      · exact logs effect member
      · exact logs' effect member

end Decoder

end Tcpeen.Connection
