import Tcpeen.EchoSteps

/-! A run of the echo server in which a received byte is never echoed while the next one is.
Every byte of a slow peer is echoed at once and stays in flight; after as many bytes as
there are write requests a send finds none, its event is released all the same, and the
echo of the byte after it goes out with the first request that comes back. -/
namespace Tcpeen.Echo

open SplitOperation QueueSpsc

/-- Connection 0 is open on a channel; what it has sent. -/
structure Open (cfg : Config) (c : Nat) (buffer : Option Nat) (pending : Option Receive.UvBuf)
    (received : List UInt8) (rs : Receive.State) : Prop where
  handle : rs.handles 0 = ⟨some c, false, false, pending⟩
  channel : rs.clientMap c = ⟨some 0, buffer, .open⟩
  received : rs.received 0 = received
  blocks : ∀ b, (rs.buffers b).buf.capacity = cfg.maxRead

section Byte

variable {cfg : Config} {c b e : Nat} {x : UInt8} {v : List UInt8} {rs : Receive.State}

theorem Open.offered (open' : Open cfg c none none v rs) (b : Nat) :
    ∃ rs', Receive.resumeIo (.allocPop 0 c) (.success [b]) rs = (.idle, rs') ∧
      Open cfg c (some b) (some ⟨some (b, 0), cfg.maxRead⟩) v rs' ∧
      ∃ mem, rs'.buffers b = ⟨⟨mem, 0, cfg.maxRead⟩, ⟨0, 0⟩⟩ := by
  obtain ⟨handle,channel,received,blocks⟩ := open'
  refine ⟨_,rfl,⟨?_,?_,received,?_⟩,(rs.buffers b).buf.mem,?_⟩
  · simp [Receive.State.offer,Receive.State.answer,Receive.State.setHandle,Receive.State.setChannel,
      Receive.State.setBuffer,handle,Buffer.reset,Buffer.writeReset,Buffer.readReset,Buffer.writePtr,Buffer.remaining,
      blocks]
  · simp [Receive.State.offer,Receive.State.answer,Receive.State.setHandle,Receive.State.setChannel,
      Receive.State.setBuffer,channel]
  · intro b'
    simp only [Receive.State.offer,Receive.State.answer,Receive.State.setHandle,Receive.State.setChannel,
      Receive.State.setBuffer,Function.update_apply]
    split
    · exact blocks b
    · exact blocks b'
  · simp [Receive.State.offer,Receive.State.answer,Receive.State.setHandle,Receive.State.setChannel,
      Receive.State.setBuffer,Buffer.reset,Buffer.writeReset,Buffer.readReset,blocks]

theorem Open.arrived (open' : Open cfg c (some b) (some ⟨some (b, 0), cfg.maxRead⟩) v rs)
    (positive : 0 < cfg.maxRead) {mem : Nat → UInt8} (block : rs.buffers b = ⟨⟨mem, 0, cfg.maxRead⟩, ⟨0, 0⟩⟩)
    (x : UInt8) :
    ∃ rs', Receive.onRecv 0 c ⟨some (b, 0), cfg.maxRead⟩ (.data [x]) rs = some (.recvPop 0 c, rs') ∧
      Open cfg c (some b) none (v ++ [x]) rs' ∧
      rs'.buffers b = ⟨⟨store mem 0 [x], 1, cfg.maxRead⟩, ⟨0, 1⟩⟩ := by
  obtain ⟨handle,channel,received,blocks⟩ := open'
  have fits : ¬ cfg.maxRead < 1 := by omega
  simp only [Receive.onRecv,Receive.onRecvData,Receive.State.arrive,Receive.State.answer,Receive.State.setHandle,
    Receive.State.setBuffer,channel,handle,block,Function.update_self,Buffer.addLength,List.length_singleton]
  simp only [Nat.sub_zero,if_neg fits,Nat.zero_add,Nat.one_ne_zero,false_or]
  refine ⟨_,rfl,⟨?_,?_,?_,?_⟩,?_⟩
  · simp
  · exact channel
  · simp [received]
  · intro b'
    simp only [Function.update_apply]
    split
    · rfl
    · exact blocks b'
  · simp

theorem Open.recorded (open' : Open cfg c (some b) none v rs) {mem : Nat → UInt8}
    (block : rs.buffers b = ⟨⟨mem, 1, cfg.maxRead⟩, ⟨0, 1⟩⟩) (e : Nat) :
    ∃ rs', Receive.resumeIo (.recvPop 0 c) (.success [e]) rs = (.recvPush 0 c e, rs') ∧
      Open cfg c (some b) none v rs' ∧ rs'.buffers b = rs.buffers b ∧
      rs'.events e = ⟨.clientRead, c, 0, 1, some b, 0⟩ := by
  obtain ⟨handle,channel,received,blocks⟩ := open'
  simp only [Receive.resumeIo,channel,block]
  refine ⟨_,rfl,⟨handle,channel,received,blocks⟩,block,?_⟩
  simp [Receive.State.setEvent,Buffer.readPtr,Buffer.readLength]

theorem Open.announced (open' : Open cfg c (some b) none v rs) (e : Nat) :
    ∃ rs', Receive.resumeIo (.recvPush 0 c e) (.success []) rs = (.idle, rs') ∧
      Open cfg c none none v rs' ∧ rs'.buffers = rs.buffers ∧ rs'.events = rs.events := by
  obtain ⟨handle,channel,received,blocks⟩ := open'
  refine ⟨_,rfl,⟨handle,?_,received,blocks⟩,rfl,rfl⟩
  simp [Receive.State.setChannel,Receive.State.announce,channel]

end Byte

section Stages

variable {cfg : Config} {c b e : Nat} {x : UInt8} {v w : List UInt8} {rs : Receive.State} {ss : Send.State}
  {poolRead eventsFree : List Nat} {poolWrite reqsFree reqsReady : Fifo Nat} {main : Pc .main} {loop : Loop}

theorem pushed {capacity : Nat} {f : Fifo Nat} (value : Nat) (room : f.items.length < capacity) :
    Fifo.apply capacity (.push value) f 1 = some ({ f with items := f.items ++ [value] }, .success []) :=
  if_neg room.ne

/-- The peer sends one byte; the IO thread makes an event of it. -/
theorem byte_announced (open' : Open cfg c none none v rs) (positive : 0 < cfg.maxRead) (b e : Nat) (x : UInt8) :
    ∃ rs', Solo cfg
        (place main (.idle, .idle) rs ss loop
          ⟨⟨b :: poolRead, false⟩, ⟨e :: eventsFree, false⟩, ⟨[], false⟩, poolWrite, reqsFree, reqsReady⟩)
        (place main (.idle, .idle) rs' ss loop
          ⟨⟨poolRead, false⟩, ⟨eventsFree, false⟩, ⟨[e], false⟩, poolWrite, reqsFree, reqsReady⟩) ∧
      Open cfg c none none (v ++ [x]) rs' ∧ rs'.events e = ⟨.clientRead, c, 0, 1, some b, 0⟩ ∧
      (rs'.buffers b).readReset.unread = [x] := by
  obtain ⟨rs₁,offered,open₁,mem,block₁⟩ := open'.offered b
  obtain ⟨rs₂,arrived,open₂,block₂⟩ := open₁.arrived positive block₁ x
  obtain ⟨rs₃,recorded,open₃,block₃,event₃⟩ := open₂.recorded block₂ e
  obtain ⟨rs₄,announced,open₄,blocks₄,events₄⟩ := open₃.announced e
  refine ⟨rs₄,?_,open₄,by rw [events₄,event₃],?_⟩
  · refine .trans (solo_alloc open'.handle (by rw [open'.channel])) ?_
    refine .trans (solo_io_receive rfl rfl rfl offered rfl) ?_
    refine .trans (solo_read open₁.handle arrived) ?_
    refine .trans (solo_io_receive rfl rfl rfl recorded rfl) ?_
    exact solo_io_receive rfl rfl (pushed e (Nat.two_pow_pos cfg.bits)) announced rfl
  · rw [blocks₄,block₃,block₂]
    rfl

/-- The main thread wakes up and takes the event. -/
theorem event_acquired (open' : Open cfg c none none v rs) (e : Nat) {poolRead eventsFree : Fifo Nat} {io : Pc .io} :
    ∃ rs', Solo cfg
        (place (.idle, .idle) io rs ss .sleeping
          ⟨poolRead, eventsFree, ⟨[e], false⟩, poolWrite, reqsFree, reqsReady⟩)
        (place (.idle, .idle) io rs' ss (.batch 0)
          ⟨poolRead, eventsFree, ⟨[], false⟩, poolWrite, reqsFree, reqsReady⟩) ∧
      Open cfg c none none v rs' ∧ rs'.events = rs.events ∧ rs'.buffers = rs.buffers ∧ rs'.eventUpdates = [e] := by
  obtain ⟨handle,channel,received,blocks⟩ := open'
  have popped : Fifo.apply (2 ^ cfg.bits) (.popAll (BitVec.ofNat 64 cfg.bufferCount)) ⟨[e],false⟩ 1 =
      some (⟨[],false⟩,.success [e]) := by
    have below : cfg.bufferCount < 2 ^ 64 :=
      Nat.lt_of_le_of_lt cfg.fits ((Nat.pow_lt_pow_iff_right (by decide)).mpr cfg.small)
    have positive : 1 ≤ (BitVec.ofNat 64 cfg.bufferCount).toNat := by
      rw [BitVec.toNat_ofNat,Nat.mod_eq_of_lt below]
      exact cfg.positive
    simp only [Fifo.apply]
    rw [if_neg (List.cons_ne_nil e []),if_pos ⟨Nat.one_pos,positive,Nat.le_refl _⟩]
    rfl
  refine ⟨{ rs with eventUpdates := [e], acquired := true, delivered := rs.delivered ++ [rs.delivery e] },?_,
    ⟨handle,channel,received,blocks⟩,rfl,rfl,rfl⟩
  refine .trans solo_acquire ?_
  exact solo_main_receive rfl rfl popped rfl rfl

/-- `handle_client_read` up to its send. -/
theorem byte_handled (open' : Open cfg c none none v rs) (inside : c < cfg.clientsMax)
    (event : rs.events e = ⟨.clientRead, c, 0, 1, some b, 0⟩) (unread : (rs.buffers b).readReset.unread = [x])
    (updates : rs.eventUpdates = [e]) {io : Pc .io} {k : Stock} :
    ∃ rs', Solo cfg (place (.idle, .idle) io rs ss (.batch 0) k)
        (place (.idle, .peekReq ⟨c, [x], some 0⟩) io rs' ss (.batch 1) k) ∧
      Open cfg c none none v rs' ∧ rs'.events = rs.events ∧ rs'.eventUpdates = [e] := by
  obtain ⟨handle,channel,received,blocks⟩ := open'
  have ran : handleClientRead cfg e (.idle,.idle) (rs,ss) =
      some ((.idle,.peekReq ⟨c,[x],some 0⟩),(rs.setBuffer b (rs.buffers b).readReset,ss)) := by
    simp [handleClientRead,event,Service.channelListGet,Nat.not_le.mpr inside,unread,Send.act]
  refine ⟨rs.setBuffer b (rs.buffers b).readReset,solo_handle (by rw [updates]; rfl) (by rw [event]) ran,
    ⟨handle,channel,received,?_⟩,rfl,updates⟩
  intro b'
  simp only [Receive.State.setBuffer,Function.update_apply]
  split
  · exact blocks b
  · exact blocks b'

/-- The event and its buffer go back. -/
theorem event_released (open' : Open cfg c none none v rs) (event : rs.events e = ⟨.clientRead, c, 0, 1, some b, 0⟩)
    (updates : rs.eventUpdates = [e]) (roomRead : poolRead.length + 1 = cfg.bufferCount)
    (roomFree : eventsFree.length + 1 = 2 ^ cfg.bits) {io : Pc .io} {eventsReady : Fifo Nat} :
    ∃ rs', Solo cfg
        (place (.idle, .idle) io rs ss (.batch 1)
          ⟨⟨poolRead, false⟩, ⟨eventsFree, false⟩, eventsReady, poolWrite, reqsFree, reqsReady⟩)
        (place (.idle, .idle) io rs' ss .sleeping
          ⟨⟨poolRead ++ [b], false⟩, ⟨eventsFree ++ [e], false⟩, eventsReady, poolWrite, reqsFree, reqsReady⟩) ∧
      Open cfg c none none v rs' := by
  obtain ⟨handle,channel,received,blocks⟩ := open'
  have fits := cfg.fits
  have next : Receive.releaseNext rs rs.eventUpdates = (.releasePool e b [],rs) := by
    simp [Receive.releaseNext,updates,event]
  refine ⟨{ rs with acquired := false },?_,⟨handle,channel,received,blocks⟩⟩
  refine .trans (solo_release (by rw [updates]; rfl) next) ?_
  refine .trans (solo_main_receive rfl rfl (pushed b (show poolRead.length < _ by omega)) rfl rfl) ?_
  exact solo_main_receive rfl rfl (pushed e (show eventsFree.length < _ by omega)) rfl rfl

/-- The request is filled in. -/
theorem byte_assembled (blocks : ∀ b, (ss.buffers b).buf.capacity = cfg.maxRead) (positive : 0 < cfg.maxRead)
    (r w : Nat) (c : Nat) (x : UInt8) :
    ∃ ss', Send.resumeMain (.peekBuf r ⟨c, [x], some 0⟩) (.success [w]) (ss.dropBuffer r) =
        (.push r ⟨c, [x], some 0⟩, ss') ∧
      (∀ b, (ss'.buffers b).buf.capacity = cfg.maxRead) ∧ ss'.writes = ss.writes ∧
      (∃ ticket, ss'.reqs r = ⟨some w, c, (w, 0), 1, ticket⟩) ∧ window (ss'.buffers w).buf.mem 0 1 = [x] := by
  have fits : Buffer.write (ss.buffers w).reset [x] =
      some ⟨⟨store (ss.buffers w).buf.mem 0 [x],1,cfg.maxRead⟩,⟨0,1⟩⟩ := by
    have room : ¬ cfg.maxRead < 1 := by omega
    simp [Buffer.write,Buffer.reset,Buffer.writeReset,Buffer.readReset,ByteBuf.write,blocks,room,sizeHalf]
  have same : (ss.dropBuffer r).buffers = ss.buffers := rfl
  simp only [Send.resumeMain,Send.assemble,same,fits]
  refine ⟨_,rfl,?_,rfl,⟨((ss.dropBuffer r).reqs r).ticket,?_⟩,?_⟩
  · intro b'
    simp only [Send.State.setBuffer,Function.update_apply]
    split
    · rfl
    · exact blocks b'
  · simp only [Send.State.setBuffer,Send.State.setReq,Function.update_self,Buffer.readPtr,Buffer.length]
  · simp only [Send.State.setBuffer,Function.update_self]
    rfl

/-- `tcp_service_send` with a request and a buffer at hand. -/
theorem byte_sent (blocks : ∀ b, (ss.buffers b).buf.capacity = cfg.maxRead) (positive : 0 < cfg.maxRead)
    {r w : Nat} {reqsFree poolWrite : List Nat} {poolRead eventsFree eventsReady : Fifo Nat} {io : Pc .io} :
    ∃ ss', Solo cfg
        (place (.idle, .peekReq ⟨c, [x], some 0⟩) io rs ss loop
          ⟨poolRead, eventsFree, eventsReady, ⟨w :: poolWrite, false⟩, ⟨r :: reqsFree, false⟩, ⟨[], false⟩⟩)
        (place (.idle, .idle) io rs ss' loop
          ⟨poolRead, eventsFree, eventsReady, ⟨poolWrite, false⟩, ⟨reqsFree, false⟩, ⟨[r], false⟩⟩) ∧
      (∀ b, (ss'.buffers b).buf.capacity = cfg.maxRead) ∧ ss'.writes = ss.writes ∧
      (∃ ticket, ss'.reqs r = ⟨some w, c, (w, 0), 1, ticket⟩) ∧ window (ss'.buffers w).buf.mem 0 1 = [x] := by
  obtain ⟨ss₁,assembled,blocks₁,writes₁,⟨ticket,req₁⟩,window₁⟩ := byte_assembled blocks positive r w c x
  refine ⟨ss₁.accept r ⟨c,[x],some 0⟩,?_,blocks₁,writes₁,⟨ss₁.sends.length,?_⟩,window₁⟩
  · have found : Solo cfg
        (place (.idle,.peekReq ⟨c,[x],some 0⟩) io rs ss loop
          ⟨poolRead,eventsFree,eventsReady,⟨w :: poolWrite,false⟩,⟨r :: reqsFree,false⟩,⟨[],false⟩⟩)
        (place (.idle,.push r ⟨c,[x],some 0⟩) io rs ss₁ loop
          ⟨poolRead,eventsFree,eventsReady,⟨w :: poolWrite,true⟩,⟨r :: reqsFree,true⟩,⟨[],false⟩⟩) :=
      .trans (solo_main_send rfl rfl rfl rfl rfl) (solo_main_send rfl rfl rfl assembled rfl)
    have published : Solo cfg
        (place (.idle,.push r ⟨c,[x],some 0⟩) io rs ss₁ loop
          ⟨poolRead,eventsFree,eventsReady,⟨w :: poolWrite,true⟩,⟨r :: reqsFree,true⟩,⟨[],false⟩⟩)
        (place (.idle,.popBuf) io rs (ss₁.accept r ⟨c,[x],some 0⟩) loop
          ⟨poolRead,eventsFree,eventsReady,⟨w :: poolWrite,true⟩,⟨r :: reqsFree,true⟩,⟨[r],false⟩⟩) :=
      solo_main_send rfl rfl (pushed r (Nat.two_pow_pos cfg.bits)) rfl rfl
    refine found.trans (published.trans ?_)
    exact .trans (solo_main_send rfl rfl rfl rfl rfl) (solo_main_send rfl rfl rfl rfl rfl)
  · simp only [Send.State.accept,Send.State.setReq,Function.update_self,req₁]

/-- `tcp_service_send` without a request: the call fails. -/
theorem byte_refused {poolRead eventsFree eventsReady : Fifo Nat} {io : Pc .io} :
    Solo cfg
      (place (.idle, .peekReq ⟨c, [x], some 0⟩) io rs ss loop
        ⟨poolRead, eventsFree, eventsReady, poolWrite, ⟨[], false⟩, reqsReady⟩)
      (place (.idle, .idle) io rs ss loop
        ⟨poolRead, eventsFree, eventsReady, poolWrite, ⟨[], false⟩, reqsReady⟩) :=
  solo_main_send rfl rfl rfl rfl rfl

/-- `on_prep_cb` hands the byte to uv_write. -/
theorem byte_written (open' : Open cfg c none none v rs) {r b ticket : Nat}
    (req : ss.reqs r = ⟨some b, c, (b, 0), 1, ticket⟩)
    (bytes : window (ss.buffers b).buf.mem 0 1 = [x]) {poolRead eventsFree eventsReady : Fifo Nat} :
    Solo cfg
      (place main (.idle, .idle) rs ss loop
        ⟨poolRead, eventsFree, eventsReady, poolWrite, reqsFree, ⟨[r], false⟩⟩)
      (place main (.idle, .idle) rs
        { ss with writes := ss.writes ++ [⟨ticket, c, 0, [x]⟩], inFlight := ss.inFlight ++ [r] } loop
        ⟨poolRead, eventsFree, eventsReady, poolWrite, reqsFree, ⟨[], false⟩⟩) := by
  have found : Service.found (rs.clientMap (ss.reqs r).channel) (.uvWrite 0 true) = true := by
    rw [req,open'.channel]
    rfl
  have ran : Send.onPrep r (.uvWrite 0 true) ss =
      some (.prepPop,{ ss with writes := ss.writes ++ [⟨ticket,c,0,[x]⟩], inFlight := ss.inFlight ++ [r] }) := by
    simp only [Send.onPrep,Send.State.log,Send.State.covered,req,bytes]
  refine .trans solo_prep ?_
  refine .trans (solo_io_send rfl rfl rfl rfl rfl) ?_
  refine .trans (solo_submit found ran) ?_
  exact solo_io_send rfl rfl rfl rfl rfl

/-- `on_send_cb` gives the request and its buffer back where there is no other. -/
theorem request_returned {r b : Nat} (flying : r ∈ ss.inFlight) (buffer : (ss.reqs r).buffer = some b)
    {poolRead eventsFree eventsReady : Fifo Nat} :
    ∃ ss', Solo cfg
        (place main (.idle, .idle) rs ss loop
          ⟨poolRead, eventsFree, eventsReady, ⟨[], false⟩, ⟨[], false⟩, reqsReady⟩)
        (place main (.idle, .idle) rs ss' loop
          ⟨poolRead, eventsFree, eventsReady, ⟨[b], false⟩, ⟨[r], false⟩, reqsReady⟩) ∧
      ss'.buffers = ss.buffers ∧ ss'.writes = ss.writes := by
  refine ⟨{ ss.dropBuffer r with inFlight := ss.inFlight.erase r },?_,rfl,rfl⟩
  have ran : Send.onSend r (ss.written r) = some (.sentPool r b,
    { ss.dropBuffer r with inFlight := ss.inFlight.erase r }) := by
    have held : ((ss.written r).reqs r).buffer = some b := buffer
    rw [Send.onSend,held]
    rfl
  refine .trans (solo_sent flying ran) ?_
  refine .trans (solo_io_send rfl rfl (pushed b (Nat.two_pow_pos cfg.bits)) rfl rfl) ?_
  exact solo_io_send rfl rfl (pushed r (Nat.two_pow_pos cfg.bits)) rfl rfl

end Stages
/-- Both threads are idle, and no event and no request is on its way. -/
def resting (rs : Receive.State) (ss : Send.State) (poolRead eventsFree poolWrite reqsFree : List Nat) : Abstract :=
  place (.idle, .idle) (.idle, .idle) rs ss .sleeping
    ⟨⟨poolRead, false⟩, ⟨eventsFree, false⟩, ⟨[], false⟩, ⟨poolWrite, false⟩, ⟨reqsFree, false⟩, ⟨[], false⟩⟩

structure Calm (cfg : Config) (c : Nat) (written received : List UInt8) (rs : Receive.State) (ss : Send.State)
    (poolRead eventsFree : List Nat) : Prop where
  opened : Open cfg c none none received rs
  blocks : ∀ b, (ss.buffers b).buf.capacity = cfg.maxRead
  written : Service.writtenOn 0 ss.writes = written
  poolRead : poolRead.length = cfg.bufferCount
  eventsFree : eventsFree.length = 2 ^ cfg.bits

/-- libuv owes `on_send_cb` for a request that has its buffer. -/
def Flying (ss : Send.State) : Prop := ∃ r ∈ ss.inFlight, ∃ b, (ss.reqs r).buffer = some b

section Cycles

variable {cfg : Config} {c : Nat} {v w : List UInt8} {rs : Receive.State} {ss : Send.State}
  {poolRead eventsFree poolWrite reqsFree : List Nat}

/-- The next byte is received, and the main thread looks for a request. -/
theorem byte_waiting (calm : Calm cfg c w v rs ss poolRead eventsFree) (inside : c < cfg.clientsMax)
    (positive : 0 < cfg.maxRead) (x : UInt8) (poolWrite reqsFree : List Nat) :
    ∃ rs' poolRead' eventsFree' b e, Solo cfg (resting rs ss poolRead eventsFree poolWrite reqsFree)
        (place (.idle, .peekReq ⟨c, [x], some 0⟩) (.idle, .idle) rs' ss (.batch 1)
          ⟨⟨poolRead', false⟩, ⟨eventsFree', false⟩, ⟨[], false⟩, ⟨poolWrite, false⟩, ⟨reqsFree, false⟩, ⟨[], false⟩⟩) ∧
      Open cfg c none none (v ++ [x]) rs' ∧ rs'.events e = ⟨.clientRead, c, 0, 1, some b, 0⟩ ∧
      rs'.eventUpdates = [e] ∧ poolRead'.length + 1 = cfg.bufferCount ∧ eventsFree'.length + 1 = 2 ^ cfg.bits := by
  obtain ⟨opened,-,-,pool,events⟩ := calm
  obtain ⟨b,poolRead,rfl⟩ := List.exists_cons_of_length_pos (pool ▸ cfg.positive)
  obtain ⟨e,eventsFree,rfl⟩ := List.exists_cons_of_length_pos (events ▸ Nat.two_pow_pos cfg.bits)
  obtain ⟨rs₁,announced,opened₁,event₁,unread₁⟩ := byte_announced opened positive b e x
  obtain ⟨rs₂,acquired,opened₂,events₂,buffers₂,updates₂⟩ := event_acquired opened₁ e
  obtain ⟨rs₃,handled,opened₃,events₃,updates₃⟩ := byte_handled opened₂ inside (by rw [events₂,event₁])
    (by rw [buffers₂,unread₁]) updates₂
  exact ⟨rs₃,poolRead,eventsFree,b,e,announced.trans (acquired.trans handled),opened₃,
    by rw [events₃,events₂,event₁],updates₃,pool,events⟩

/-- It is echoed, with the first request and the first buffer. -/
theorem byte_echoed (calm : Calm cfg c w v rs ss poolRead eventsFree) (inside : c < cfg.clientsMax)
    (positive : 0 < cfg.maxRead) (x : UInt8) (r b : Nat) (poolWrite reqsFree : List Nat) :
    ∃ rs' ss' poolRead' eventsFree', Solo cfg (resting rs ss poolRead eventsFree (b :: poolWrite) (r :: reqsFree))
        (resting rs' ss' poolRead' eventsFree' poolWrite reqsFree) ∧
      Calm cfg c (w ++ [x]) (v ++ [x]) rs' ss' poolRead' eventsFree' ∧ Flying ss' := by
  obtain ⟨rs₁,poolRead₁,eventsFree₁,read,e,waiting,opened₁,event₁,updates₁,pool₁,free₁⟩ :=
    byte_waiting calm inside positive x (b :: poolWrite) (r :: reqsFree)
  obtain ⟨ss₁,sent,blocks₁,writes₁,⟨ticket,req₁⟩,window₁⟩ := byte_sent calm.blocks positive
  obtain ⟨rs₂,released,opened₂⟩ := event_released opened₁ event₁ updates₁ pool₁ free₁
  refine ⟨rs₂,_,_,_,waiting.trans (sent.trans (released.trans (byte_written opened₂ req₁ window₁))),
    ⟨opened₂,blocks₁,?_,?_,?_⟩,r,List.mem_append_right _ (List.mem_singleton_self r),b,by rw [req₁]⟩
  · rw [Service.writtenOn_concat,writes₁,calm.written,if_pos rfl]
  · simpa using pool₁
  · simpa using free₁

/-- It is lost where there is no request. -/
theorem byte_lost (calm : Calm cfg c w v rs ss poolRead eventsFree) (inside : c < cfg.clientsMax)
    (positive : 0 < cfg.maxRead) (x : UInt8) (poolWrite : List Nat) :
    ∃ rs' poolRead' eventsFree', Solo cfg (resting rs ss poolRead eventsFree poolWrite [])
        (resting rs' ss poolRead' eventsFree' poolWrite []) ∧
      Calm cfg c w (v ++ [x]) rs' ss poolRead' eventsFree' := by
  obtain ⟨rs₁,poolRead₁,eventsFree₁,read,e,waiting,opened₁,event₁,updates₁,pool₁,free₁⟩ :=
    byte_waiting calm inside positive x poolWrite []
  obtain ⟨rs₂,released,opened₂⟩ := event_released opened₁ event₁ updates₁ pool₁ free₁
  refine ⟨rs₂,_,_,waiting.trans (byte_refused.trans released),⟨opened₂,calm.blocks,calm.written,?_,?_⟩⟩
  · simpa using pool₁
  · simpa using free₁

/-- Bytes are echoed until there is no request left. -/
theorem requests_spent (inside : c < cfg.clientsMax) (positive : 0 < cfg.maxRead) (poolWrite reqsFree : List Nat)
    (paired : poolWrite.length = reqsFree.length) (calm : Calm cfg c w w rs ss poolRead eventsFree)
    (flying : reqsFree = [] → Flying ss) :
    ∃ w' rs' ss' poolRead' eventsFree', Solo cfg (resting rs ss poolRead eventsFree poolWrite reqsFree)
        (resting rs' ss' poolRead' eventsFree' [] []) ∧ Calm cfg c w' w' rs' ss' poolRead' eventsFree' ∧
      Flying ss' := by
  induction reqsFree generalizing poolWrite w rs ss poolRead eventsFree with
  | nil =>
    obtain rfl := List.eq_nil_of_length_eq_zero paired
    exact ⟨w,rs,ss,poolRead,eventsFree,.start,calm,flying rfl⟩
  | cons r reqsFree ih =>
    obtain ⟨b,poolWrite,rfl⟩ := List.exists_cons_of_length_eq_add_one paired
    obtain ⟨rs₁,ss₁,poolRead₁,eventsFree₁,echoed,calm₁,flying₁⟩ :=
      byte_echoed calm inside positive 0 r b poolWrite reqsFree
    obtain ⟨w',rs',ss',poolRead',eventsFree',spent,calm',flying'⟩ :=
      ih poolWrite (Nat.succ.inj paired) calm₁ fun _ => flying₁
    exact ⟨w',rs',ss',poolRead',eventsFree',echoed.trans spent,calm',flying'⟩

/-- A byte that is lost and one that is echoed after it. -/
theorem byte_skipped (inside : c < cfg.clientsMax) (positive : 0 < cfg.maxRead)
    (calm : Calm cfg c w w rs ss poolRead eventsFree) (flying : Flying ss) :
    ∃ a, Solo cfg (resting rs ss poolRead eventsFree [] []) a ∧ ¬ InStep a.shared := by
  obtain ⟨rs₁,poolRead₁,eventsFree₁,lost,calm₁⟩ := byte_lost calm inside positive 1 []
  obtain ⟨r,member,b,buffer⟩ := flying
  obtain ⟨ss₂,returned,buffers₂,writes₂⟩ := request_returned member buffer
  have calm₂ : Calm cfg c w (w ++ [1]) rs₁ ss₂ poolRead₁ eventsFree₁ :=
    ⟨calm₁.opened,by rw [buffers₂]; exact calm₁.blocks,by rw [writes₂]; exact calm₁.written,calm₁.poolRead,
      calm₁.eventsFree⟩
  obtain ⟨rs₃,ss₃,poolRead₃,eventsFree₃,echoed,calm₃,-⟩ := byte_echoed calm₂ inside positive 2 r b [] []
  refine ⟨_,lost.trans (returned.trans echoed),?_⟩
  intro within
  have begins : Service.writtenOn 0 ss₃.writes <+: rs₃.received 0 := within 0
  rw [calm₃.written,calm₃.opened.received,List.append_assoc,List.prefix_append_right_inj] at begins
  exact absurd begins (by decide)

end Cycles
section Runs

variable {cfg : Config} {free freed : ListPtr Nat} {readBlocks writeBlocks : Nat → Nat → UInt8} {c : Nat}

theorem initial_resting :
    atomicInitial cfg free readBlocks writeBlocks =
      resting (Receive.start cfg free readBlocks) (Send.start cfg writeBlocks) (List.range cfg.bufferCount)
        (List.range (2 ^ cfg.bits)) (List.range cfg.bufferCount) (List.range cfg.bufferCount) := by
  simp only [atomicInitial,resting,place,Atomic.mk.injEq]
  refine ⟨?_,rfl,?_⟩
  · funext t
    cases t <;> rfl
  · funext q
    rcases q with (q | q) <;> cases q <;> rfl

/-- The first connection is accepted. -/
theorem connection_accepted (cfg : Config) (readBlocks : Nat → Nat → UInt8) (popped : free.popBack = some (c, freed)) :
    ∃ rs, Receive.onConnection none (Receive.start cfg free readBlocks) = (.connectPop 0 c none, rs) ∧
      Open cfg c none none [] rs := by
  simp only [Receive.onConnection,Receive.start,popped]
  refine ⟨_,rfl,⟨?_,?_,rfl,fun _ => rfl⟩⟩
  · simp [Receive.State.setChannel,Receive.State.newHandle,Receive.State.setHandle]
  · simp [Receive.State.setChannel]

/-- Its OPEN event has been released. -/
theorem connection_opened (cfg : Config) (readBlocks writeBlocks : Nat → Nat → UInt8)
    (popped : free.popBack = some (c, freed)) :
    ∃ rs poolRead eventsFree, Solo cfg (atomicInitial cfg free readBlocks writeBlocks)
        (resting rs (Send.start cfg writeBlocks) poolRead eventsFree (List.range cfg.bufferCount)
          (List.range cfg.bufferCount)) ∧
      Calm cfg c [] [] rs (Send.start cfg writeBlocks) poolRead eventsFree := by
  have size : (List.range (2 ^ cfg.bits)).length = 2 ^ cfg.bits := List.length_range
  obtain ⟨e,eventsFree,events⟩ := List.exists_cons_of_length_pos (size ▸ Nat.two_pow_pos cfg.bits)
  rw [events] at size
  obtain ⟨rs₁,accepted,opened₁⟩ := connection_accepted cfg readBlocks popped
  let opening : Receive.Event := { rs₁.events e with type := .clientOpen, clientId := c, source := 0 }
  have opened₂ : Open cfg c none none [] ((rs₁.setEvent e opening).announce e) :=
    ⟨opened₁.handle,opened₁.channel,opened₁.received,opened₁.blocks⟩
  obtain ⟨rs₃,acquired,opened₃,events₃,-,updates₃⟩ := event_acquired opened₂ e
  have type : (rs₃.events e).type = .clientOpen := by
    rw [events₃]
    simp [Receive.State.announce,Receive.State.setEvent,opening]
  have next : Receive.releaseNext rs₃ rs₃.eventUpdates = (.releaseEvent e [],rs₃) := by
    simp [Receive.releaseNext,updates₃,type]
  refine ⟨{ rs₃ with acquired := false },List.range cfg.bufferCount,eventsFree ++ [e],?_,
    ⟨⟨opened₃.handle,opened₃.channel,opened₃.received,opened₃.blocks⟩,fun _ => rfl,rfl,List.length_range,?_⟩⟩
  · rw [initial_resting,events]
    refine .trans (solo_connection (fun _ => rfl) accepted) ?_
    refine .trans (solo_io_receive rfl rfl rfl rfl rfl) ?_
    refine .trans (solo_io_receive rfl rfl (pushed e (Nat.two_pow_pos cfg.bits)) rfl rfl) ?_
    refine .trans acquired ?_
    refine .trans (solo_pass (by rw [updates₃]; rfl) (by rw [type]; simp)) ?_
    refine .trans (solo_release (by rw [updates₃]; rfl) next) ?_
    exact solo_main_receive rfl rfl (pushed e (show eventsFree.length < _ by
      rw [List.length_cons] at size; omega)) rfl rfl
  · simpa using size

/-- Calls that run alone can do so in the service. -/
theorem Solo.realised {mem : Service.QueueName → Queue Nat} {a : Abstract} (roomy : cfg.bufferCount < 2 ^ cfg.bits)
    (ready : Service.SetUp cfg free mem) (reach : Solo cfg (atomicInitial cfg free readBlocks writeBlocks) a) :
    ∃ s, Transition.Reachable (step cfg) (fun s label => opensUnused s label = true)
        (initial cfg free readBlocks writeBlocks mem) s ∧ s.shared = a.shared := by
  have harmless (a : Abstract) (reached : Solo cfg (atomicInitial cfg free readBlocks writeBlocks) a) :
      Safe (simulation (fun _ => cfg.bits) (fun _ => cfg.small)) (machine cfg) (fun _ => True) a := by
    have following := reachable_following roomy ready.receive.list (reached.weaken fun _ _ guard => guard.1)
    exact known_safe (Service.reachable_known roomy ready.receive.list following.reached)
  have lifted : ∃ s, Transition.Reachable (step cfg) (fun s label => opensUnused s label = true)
        (initial cfg free readBlocks writeBlocks mem) s ∧
      Related (simulation (fun _ => cfg.bits) (fun _ => cfg.small)) (machine cfg) (fun _ => True) s a ∧
      Resting (object Service.QueueName Nat) s := by
    refine realises (simulation_ends (fun _ => cfg.bits) fun _ => cfg.small)
      (setUp_related ready readBlocks writeBlocks) (fun _ => rfl) harmless ?_ (fun _ _ => rfl) ?_ ?_ reach
    · exact fun _ _ _ related alone => (opensUnused_exact related).mpr alone.1
    · exact fun _ t choice alone => alone.2 t choice rfl
    · exact fun _ _ _ alone => alone.1
  obtain ⟨s,run,related,-⟩ := lifted
  exact ⟨s,run,related.shared⟩

end Runs
/-- The echo of a connection goes out of step: a byte that was received is never written and
the next one is. -/
theorem echo_skips_byte :
    Service.SetUp serviceConfig ⟨id, 10000, 10000⟩ Service.serviceStart.mem ∧
      ∃ s, Transition.Reachable (step serviceConfig) (fun s label => opensUnused s label = true) echoStart s ∧
        ¬ InStep s.shared := by
  have ready := Service.serviceStart_setUp
  have inside : 9999 < serviceConfig.clientsMax := by decide
  have positive : 0 < serviceConfig.maxRead := by decide
  have popped : (⟨id,10000,10000⟩ : ListPtr Nat).popBack = some (9999,⟨id,10000,9999⟩) := rfl
  have stocked : List.range serviceConfig.bufferCount ≠ [] := by
    rw [ne_eq,List.range_eq_nil]
    decide
  obtain ⟨rs,poolRead,eventsFree,opened,calm⟩ :=
    connection_opened serviceConfig (fun _ _ => 0) (fun _ _ => 0) popped
  obtain ⟨w,rs₁,ss₁,poolRead₁,eventsFree₁,spent,calm₁,flying⟩ :=
    requests_spent inside positive _ _ rfl calm fun none' => absurd none' stocked
  obtain ⟨a,skipped,outOfStep⟩ := byte_skipped inside positive calm₁ flying
  obtain ⟨s,run,shared⟩ := (opened.trans (spent.trans skipped)).realised (by decide) ready
  refine ⟨ready,s,run,?_⟩
  rw [shared]
  exact outOfStep

end Tcpeen.Echo
