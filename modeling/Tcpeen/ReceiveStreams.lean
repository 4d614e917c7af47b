import Tcpeen.ReceiveSessions

/-! The bytes of a connection. What its READ events carry, in the order of the ready queue,
followed by what is still unread in the buffer of its channel, is what it has sent. -/
namespace Tcpeen.Receive

open SplitOperation QueueSpsc

/-- The payloads of the READ events of a connection, in order. -/
def bytesFrom (h : Nat) (l : List Delivery) : List UInt8 :=
  (l.filter fun d => d.notice.type == .clientRead && d.notice.source == h).flatMap (·.payload)

/-- Everything that has passed through the ready queue: what was taken, as the main thread
found it, and what waits. -/
def View.history (v : View) : List Delivery := v.s.delivered ++ v.ready.map v.s.delivery

/-- The unread bytes in the buffer of a channel. -/
def State.unreadOf (s : State) (c : Nat) : List UInt8 :=
  match (s.clientMap c).readBuffer with
  | some b => (s.buffers b).unread
  | none => []

/-- libuv writes at the end of the buffer it was offered. -/
def State.Offered (s : State) : Prop :=
  ∀ h b offset len, (s.handles h).pending = some ⟨some (b, offset), len⟩ →
    offset = (s.buffers b).writePtr ∧ len = (s.buffers b).remaining

structure Streams (v : View) : Prop where
  valid : ∀ b, (v.s.buffers b).Valid
  offered : v.s.Offered
  returning : ∀ h c b, v.io = .closePush h c b → (v.s.clientMap c).state = .closed
  complete : ∀ h c, v.s.Owns h c → (v.s.clientMap c).state ≠ .closed →
    bytesFrom h v.history ++ v.s.unreadOf c = v.s.received h
  begins : ∀ h, bytesFrom h v.history <+: v.s.received h
  fresh : ∀ h, v.s.handleCount ≤ h → v.s.received h = []
  batch : (unreturned v.main v.s).map v.s.delivery <:+ v.s.delivered

@[simp] theorem bytesFrom_append (h : Nat) (l l' : List Delivery) :
    bytesFrom h (l ++ l') = bytesFrom h l ++ bytesFrom h l' := by
  simp [bytesFrom,List.filter_append]

theorem bytesFrom_singleton (h : Nat) (d : Delivery) :
    bytesFrom h [d] = if d.notice.type = .clientRead ∧ d.notice.source = h then d.payload else [] := by
  simp only [bytesFrom,List.filter_cons,List.filter_nil,Bool.and_eq_true,beq_iff_eq]
  split <;> simp

section Ownership

variable {cfg : Config} {v : View}

theorem Sound.buffer_inside {pc : IoPc} {s : State} (sound : Sound cfg pc s) {c b : Nat}
    (buffer : (s.clientMap c).readBuffer = some b) : c < cfg.clientsMax := by
  obtain ⟨h,owns⟩ := sound.holds c b buffer
  exact (sound.attached h c owns).1

/-- The buffer of a channel is no other channel's and no event's. -/
theorem Buffers.owner_only (valid : Buffers cfg v) (sound : Sound cfg v.io v.s) {c b : Nat}
    (buffer : (v.s.clientMap c).readBuffer = some b) :
    (∀ c', (v.s.clientMap c').readBuffer = some b → c' = c) ∧
      ∀ e ∈ v.ready ++ unreturned v.main v.s, v.s.refers b e = false := by
  have inside := sound.buffer_inside buffer
  have moved := owners_setChannel v.s inside ⟨(v.s.clientMap c).priv,none,(v.s.clientMap c).state⟩ b
  rw [buffer] at moved
  simp only [Option.none_beq_some,Bool.false_eq_true,if_false,beq_self_eq_true,if_true] at moved
  have places := valid b
  have bound : (if b < cfg.bufferCount then 1 else 0) ≤ 1 := by split <;> omega
  constructor
  · intro c' buffer'
    by_contra different
    have none' : (v.s.setChannel c ⟨(v.s.clientMap c).priv,none,(v.s.clientMap c).state⟩).owners cfg b = 0 := by
      omega
    rw [State.owners,List.countP_eq_zero] at none'
    have absent := none' c' (List.mem_range.mpr (sound.buffer_inside buffer'))
    simp [State.setChannel,Function.update_of_ne different,buffer'] at absent
  · have none' : v.references b = 0 := by omega
    rw [View.references,List.countP_eq_zero] at none'
    intro e member
    simpa using none' e member

theorem Buffers.pool_only (valid : Buffers cfg v) (sound : Sound cfg v.io v.s) {b : Nat} {pool : List Nat}
    (taken : v.pool = b :: pool) (c : Nat) : (v.s.clientMap c).readBuffer ≠ some b := by
  intro buffer
  have places := valid b
  have moved := owners_setChannel v.s (sound.buffer_inside buffer) { v.s.clientMap c with readBuffer := none } b
  rw [buffer] at moved
  simp only [Option.none_beq_some,Bool.false_eq_true,if_false,beq_self_eq_true,if_true] at moved
  rw [taken,List.count_cons_self] at places
  split at places <;> omega

/-- Payloads only change with the event or with the block it points into. -/
theorem delivery_congr {s s' : State} {e : Nat} (event : s'.events e = s.events e)
    (mem : ∀ b, s.refers b e = true → (s'.buffers b).buf.mem = (s.buffers b).buf.mem) :
    s'.delivery e = s.delivery e := by
  simp only [State.delivery,State.notice,State.payload,event,Delivery.mk.injEq,true_and]
  split
  · next b type buffer => rw [mem b (by simp [State.refers,type,buffer])]
  · rfl

end Ownership

/-- A step of the IO thread that moves no byte and no buffer. -/
structure Still (s s' : State) : Prop where
  buffers : s'.buffers = s.buffers
  received : s'.received = s.received
  count : s'.handleCount = s.handleCount
  same : SameBuffers s s'
  owns : ∀ h c, s'.Owns h c → s.Owns h c
  state : ∀ c, (s'.clientMap c).state ≠ .closed → (s.clientMap c).state ≠ .closed
  offered : s.Offered → s'.Offered

section Still

variable {s s' s'' : State}

theorem Still.records (buffers : s'.buffers = s.buffers) (received : s'.received = s.received)
    (count : s'.handleCount = s.handleCount) (map : s'.clientMap = s.clientMap)
    (handles : s'.handles = s.handles) : Still s s' := by
  refine ⟨buffers,received,count,?_,?_,?_,?_⟩
  · intro c
    rw [map]
  · simp only [State.Owns,handles]
    exact fun _ _ owns => owns
  · simp only [map]
    exact fun _ live => live
  · simp only [State.Offered,handles,buffers]
    exact id

theorem Still.trans (first : Still s s') (second : Still s' s'') : Still s s'' where
  buffers := second.buffers.trans first.buffers
  received := second.received.trans first.received
  count := second.count.trans first.count
  same := fun c => (second.same c).trans (first.same c)
  owns := fun h c owns => first.owns h c (second.owns h c owns)
  state := fun c live => first.state c (second.state c live)
  offered := fun offered => second.offered (first.offered offered)

theorem still_setHandle (h : Nat) (handle : Handle) (data : handle.data = (s.handles h).data)
    (freed : handle.freed = false → (s.handles h).freed = false)
    (offered : ∀ b offset len, handle.pending = some ⟨some (b, offset), len⟩ →
      (s.handles h).pending = handle.pending ∨
        offset = (s.buffers b).writePtr ∧ len = (s.buffers b).remaining) : Still s (s.setHandle h handle) := by
  refine ⟨rfl,rfl,rfl,fun _ => rfl,?_,fun _ => id,?_⟩
  · intro x c owns
    simp only [State.setHandle,State.Owns,Function.update_apply] at *
    grind
  · intro before x b offset len pending
    simp only [State.setHandle,Function.update_apply] at pending
    split at pending
    · rcases offered b offset len pending with same | given
      · exact before h b offset len (same.trans pending)
      · exact given
    · exact before x b offset len pending

theorem still_state (c : Nat) (state : ChannelState)
    (live : state ≠ .closed → (s.clientMap c).state ≠ .closed) :
    Still s (s.setChannel c { s.clientMap c with state := state }) := by
  refine ⟨rfl,rfl,rfl,sameBuffers_state s c state,fun _ _ owns => owns,?_,id⟩
  intro x
  simp only [State.setChannel,Function.update_apply]
  split
  · next same =>
    rw [same]
    exact live
  · exact id

theorem still_closeChannel (h c : Nat) (live : (s.clientMap c).state ≠ .closed) :
    Still s (s.closeChannel h c) := by
  have first := still_state (s := s) c .closing fun _ => live
  exact first.trans (still_setHandle h _ rfl (fun alive => alive) (by simp))

theorem still_answer (h : Nat) (buf : Option UvBuf) (none' : ∀ b, buf = some b → b.base = none) :
    Still s (s.answer h buf) := by
  refine still_setHandle h _ rfl (fun alive => alive) ?_
  intro b offset len pending
  have := none' _ pending
  simp at this

theorem still_offer (h b : Nat) : Still s (s.offer h b) := by
  refine still_setHandle h _ rfl (fun alive => alive) ?_
  rintro b' offset len ⟨⟩
  exact .inr ⟨rfl,rfl⟩

theorem still_free (h : Nat) : Still s (s.free h) :=
  still_setHandle h _ rfl (by simp) fun _ _ _ _ => .inl rfl

theorem Still.unreadOf (still : Still s s') (c : Nat) : s'.unreadOf c = s.unreadOf c := by
  simp only [State.unreadOf,still.same c,still.buffers]

end Still

section Step

variable {cfg : Config} {v v' : View}

theorem history_same {s : State} {ready : List Nat} (delivered : s.delivered = v.s.delivered)
    (delivery : ∀ e ∈ ready, s.delivery e = v.s.delivery e) :
    s.delivered ++ ready.map s.delivery = v.s.delivered ++ ready.map v.s.delivery := by
  rw [delivered,List.map_congr_left delivery]

/-- A step of the IO thread that tells nothing and receives nothing. -/
theorem Streams.frame (streams : Streams v) {io : IoPc} {s : State} {pool free : List Nat}
    (delivered : s.delivered = v.s.delivered) (batch : unreturned v.main s = unreturned v.main v.s)
    (delivery : ∀ e ∈ v.ready ++ unreturned v.main v.s, s.delivery e = v.s.delivery e)
    (received : s.received = v.s.received) (count : v.s.handleCount ≤ s.handleCount)
    (valid : ∀ b, (s.buffers b).Valid) (offered : s.Offered)
    (returning : ∀ h c b, io = .closePush h c b → (s.clientMap c).state = .closed)
    (live : ∀ h c, s.Owns h c → (s.clientMap c).state ≠ .closed →
      (v.s.Owns h c ∧ (v.s.clientMap c).state ≠ .closed ∧ s.unreadOf c = v.s.unreadOf c) ∨
      (v.s.received h = [] ∧ s.unreadOf c = [])) :
    Streams { v with io := io, s := s, pool := pool, free := free } := by
  have history : View.history { v with io := io, s := s, pool := pool, free := free } = v.history :=
    history_same delivered fun e member => delivery e (List.mem_append_left _ member)
  refine ⟨valid,offered,returning,?_,?_,?_,?_⟩
  · intro h c owns open'
    rw [history]
    rcases live h c owns open' with ⟨owns',open'',same⟩ | ⟨none',empty⟩
    · simp only [same,received]
      exact streams.complete h c owns' open''
    · have begins := streams.begins h
      rw [none',List.prefix_nil] at begins
      simp only [empty,received,none',begins,List.append_nil]
  · intro h
    rw [history]
    simp only [received]
    exact streams.begins h
  · intro h above
    simp only [received]
    exact streams.fresh h (Nat.le_trans count above)
  · simp only [batch,delivered]
    rw [List.map_congr_left fun e member => delivery e (List.mem_append_right _ member)]
    exact streams.batch

theorem Streams.still (streams : Streams v) {io : IoPc} {s : State} {pool free : List Nat}
    (still : Still v.s s) (delivered : s.delivered = v.s.delivered)
    (batch : unreturned v.main s = unreturned v.main v.s)
    (events : ∀ e ∈ v.ready ++ unreturned v.main v.s, s.events e = v.s.events e)
    (returning : ∀ h c b, io = .closePush h c b → (s.clientMap c).state = .closed) :
    Streams { v with io := io, s := s, pool := pool, free := free } := by
  refine streams.frame delivered batch ?_ still.received still.count.ge ?_ (still.offered streams.offered)
    returning ?_
  · intro e member
    exact delivery_congr (events e member) fun b _ => by rw [still.buffers]
  · rw [still.buffers]
    exact streams.valid
  · intro h c owns open'
    exact .inl ⟨still.owns h c owns,still.state c open',still.unreadOf c⟩

/-- The same where no event is touched. -/
theorem Streams.quiet (streams : Streams v) {io : IoPc} {s : State} {pool free : List Nat}
    (still : Still v.s s) (quiet : Quiet v.s s)
    (returning : ∀ h c b, io = .closePush h c b → (s.clientMap c).state = .closed) :
    Streams { v with io := io, s := s, pool := pool, free := free } :=
  streams.still still quiet.delivered (quiet.unreturned v.main) (fun _ _ => by rw [quiet.events]) returning

theorem Streams.closeChannel (streams : Streams v) (h c : Nat) (live : (v.s.clientMap c).state ≠ .closed) :
    Streams { v with io := .idle, s := v.s.closeChannel h c } :=
  streams.quiet (still_closeChannel h c live) ⟨rfl,rfl,rfl,rfl,rfl⟩ (by simp)

/-- A new connection has sent nothing. -/
theorem Streams.attach (streams : Streams v) (sound : Sound cfg v.io v.s) {io : IoPc} {c : Nat}
    {freed : ListPtr Nat} (popped : v.s.clientListFree.popBack = some (c, freed))
    (returning : ∀ h c b, io ≠ .closePush h c b) :
    Streams { v with io := io
                     s := ({ v.s with clientListFree := freed }.newHandle ⟨some c,false,false,none⟩).setChannel c
                       ⟨some v.s.handleCount,none,.open⟩ } := by
  obtain ⟨items,-⟩ := ListPtr.popBack_items popped
  refine streams.frame rfl ?_ (fun _ _ => rfl) rfl (Nat.le_succ _) streams.valid ?_
    (fun h c b same => absurd same (returning h c b)) ?_
  · cases v.main <;> rfl
  · intro h b offset len pending
    simp only [State.newHandle,State.setHandle,State.setChannel,Function.update_apply] at pending
    split at pending
    · cases pending
    · exact streams.offered h b offset len pending
  · intro h x owns open'
    simp only [State.newHandle,State.setHandle,State.setChannel,State.Owns,Function.update_apply] at owns open'
    split at owns
    · next new =>
      right
      obtain rfl := Option.some.inj owns.2
      exact ⟨streams.fresh h new.ge,by simp [State.unreadOf,State.setChannel]⟩
    · left
      have different : x ≠ c := by
        rintro rfl
        have absent := (sound.attached h x owns).2.2
        rw [items,List.count_append,List.count_singleton_self] at absent
        omega
      rw [if_neg different] at open'
      refine ⟨owns,open',?_⟩
      simp [State.unreadOf,State.setChannel,State.newHandle,State.setHandle,Function.update_of_ne different]

theorem Streams.connection (streams : Streams v) (sound : Sound cfg v.io v.s) (failure : Option ConnectStep) :
    Streams { v with io := (onConnection failure v.s).1, s := (onConnection failure v.s).2 } := by
  have rejected : Streams { v with io := .idle, s := v.s.newHandle ⟨none,true,false,none⟩ } := by
    refine streams.frame rfl ((onConnection_quiet (some .accept) v.s).1.unreturned v.main) (fun _ _ => rfl) rfl
      (Nat.le_succ _) streams.valid ?_ (by simp) ?_
    · intro h b offset len pending
      simp only [State.newHandle,State.setHandle,Function.update_apply] at pending
      split at pending
      · cases pending
      · exact streams.offered h b offset len pending
    · intro h c owns open'
      simp only [State.newHandle,State.setHandle,State.Owns,Function.update_apply] at owns
      split at owns
      · cases owns.2
      · exact .inl ⟨owns,open',rfl⟩
  unfold onConnection
  split
  · exact streams.quiet (.records rfl rfl rfl rfl rfl) ⟨rfl,rfl,rfl,rfl,rfl⟩ (by simp)
  · exact streams.quiet (.records rfl rfl rfl rfl rfl) ⟨rfl,rfl,rfl,rfl,rfl⟩ (by simp)
  · exact streams.quiet (.records rfl rfl rfl rfl rfl) ⟨rfl,rfl,rfl,rfl,rfl⟩ (by simp)
  · exact rejected
  · split
    · exact rejected
    · next c freed popped =>
      have idle : ∀ h c b, IoPc.idle ≠ .closePush h c b := by simp
      have closes := (streams.attach sound popped idle).closeChannel v.s.handleCount c (by simp [State.setChannel])
      split <;> first | exact closes | exact streams.attach sound popped (by simp)

theorem Sound.live {pc : IoPc} {s : State} (sound : Sound cfg pc s) {h c : Nat} (owns : s.Owns h c)
    (open' : (s.handles h).closing = false) : (s.clientMap c).state ≠ .closed := by
  rw [sound.opened h c owns open']
  exact ChannelState.noConfusion

/-- Bytes of connection `h` have been stored in its buffer `b`, which is now `block`. -/
structure Arrived (h b : Nat) (block : Buffer) (bytes : List UInt8) (s s' : State) : Prop where
  quiet : Quiet s s'
  map : s'.clientMap = s.clientMap
  count : s'.handleCount = s.handleCount
  blocks : ∀ x, s'.buffers x = if x = b then block else s.buffers x
  received : ∀ x, s'.received x = if x = h then s.received h ++ bytes else s.received x
  owns : ∀ x c, s'.Owns x c → s.Owns x c
  pending : ∀ x buf, (s'.handles x).pending = some buf → (s.handles x).pending = some buf ∧ x ≠ h

theorem onRecvData_arrived {s : State} {h c b : Nat} {bytes : List UInt8} {block : Buffer}
    (buffer : (s.clientMap c).readBuffer = some b)
    (added : Buffer.addLength { s.buffers b with
      buf := { (s.buffers b).buf with mem := store (s.buffers b).buf.mem (s.buffers b).writePtr bytes } }
        bytes.length = some block) :
    ∃ s', onRecvData h c bytes.length ((s.answer h none).arrive h b (s.buffers b).writePtr bytes) =
        (.recvPop h c,s') ∧ Arrived h b block bytes s s' := by
  refine ⟨((s.answer h none).arrive h b (s.buffers b).writePtr bytes).setBuffer b block,?_,
    ⟨rfl,rfl,rfl,rfl,rfl⟩,rfl,rfl,?_,?_,?_,?_⟩
  · have buffer' : (((s.answer h none).arrive h b (s.buffers b).writePtr bytes).clientMap c).readBuffer =
      some b := buffer
    simp only [onRecvData,buffer']
    simp only [State.arrive,State.setBuffer,Function.update_self,State.answer,State.setHandle,added]
  · intro x
    simp only [State.arrive,State.setBuffer,State.answer,State.setHandle,Function.update_apply]
    split <;> rfl
  · intro x
    simp only [State.arrive,State.setBuffer,State.answer,State.setHandle,Function.update_apply]
  · intro x y owns
    simp only [State.Owns,State.arrive,State.setBuffer,State.answer,State.setHandle,Function.update_apply] at *
    grind
  · intro x buf waits
    simp only [State.arrive,State.setBuffer,State.answer,State.setHandle,Function.update_apply] at waits
    split at waits
    · cases waits
    · next different => exact ⟨waits,different⟩

/-- The buffer of another connection stays as it is. -/
theorem Arrived.unreadOf_other {h b : Nat} {block : Buffer} {bytes : List UInt8} {s s' : State}
    (arrived : Arrived h b block bytes s s') {c : Nat} (other : (s.clientMap c).readBuffer ≠ some b) :
    s'.unreadOf c = s.unreadOf c := by
  simp only [State.unreadOf,arrived.map]
  split
  · next b' buffer' =>
    have different : b' ≠ b := by
      rintro rfl
      exact other buffer'
    rw [arrived.blocks,if_neg different]
  · rfl

/-- Bytes that arrive are appended to the unread ones of their connection only. -/
theorem Streams.arrived (streams : Streams v) (sound : Sound cfg v.io v.s) (buffers : Buffers cfg v)
    {h c b offset len : Nat} {bytes : List UInt8} (owns : v.s.Owns h c)
    (pending : (v.s.handles h).pending = some ⟨some (b, offset), len⟩) (fits : bytes.length ≤ len) :
    Streams { v with io := (onRecvData h c bytes.length ((v.s.answer h none).arrive h b offset bytes)).1
                     s := (onRecvData h c bytes.length ((v.s.answer h none).arrive h b offset bytes)).2 } := by
  obtain ⟨rfl,rfl⟩ := streams.offered h b offset len pending
  have buffer : (v.s.clientMap c).readBuffer = some b := by
    obtain ⟨c',owns',-,same⟩ := sound.pending h (by rw [pending]; rfl)
    obtain rfl := Option.some.inj (owns.2.symm.trans owns'.2)
    exact same b _ _ pending
  obtain ⟨block,added,valid,unread⟩ := (streams.valid b).addLength bytes fits
  obtain ⟨only,apart⟩ := buffers.owner_only sound buffer
  obtain ⟨s,result,arrived⟩ := onRecvData_arrived (h := h) buffer added
  rw [result]
  have delivery (e : Nat) (member : e ∈ v.ready ++ unreturned v.main v.s) : s.delivery e = v.s.delivery e := by
    refine delivery_congr (by rw [arrived.quiet.events]) fun x refers => ?_
    have different : x ≠ b := by
      rintro rfl
      rw [apart e member] at refers
      cases refers
    rw [arrived.blocks,if_neg different]
  have history : View.history { v with io := .recvPop h c, s := s } = v.history :=
    history_same arrived.quiet.delivered fun e member => delivery e (List.mem_append_left _ member)
  refine ⟨?_,?_,by simp,?_,?_,?_,?_⟩
  · intro x
    simp only [arrived.blocks]
    split
    · exact valid
    · exact streams.valid x
  · intro x y offset len waits
    obtain ⟨waits,different⟩ := arrived.pending x _ waits
    have other : y ≠ b := by
      rintro rfl
      obtain ⟨c',owns',-,same⟩ := sound.pending x (by rw [waits]; rfl)
      obtain rfl := only c' (same y offset len waits)
      exact different (sound.alone owns owns')
    simp only [arrived.blocks,if_neg other]
    exact streams.offered x y offset len waits
  · intro x y attached live
    have owns' := arrived.owns x y attached
    simp only [arrived.map] at live
    have before := streams.complete x y owns' live
    rw [history]
    by_cases same : x = h
    · subst same
      obtain rfl := Option.some.inj (owns.2.symm.trans owns'.2)
      simp only [State.unreadOf,arrived.map,buffer,arrived.received,arrived.blocks,if_true,unread] at before ⊢
      rw [← List.append_assoc,before]
    · have kept : s.unreadOf y = v.s.unreadOf y := by
        refine arrived.unreadOf_other fun buffer' => ?_
        obtain rfl := only y buffer'
        exact same (sound.alone owns owns')
      simp only [kept,arrived.received,if_neg same]
      exact before
  · intro x
    rw [history]
    simp only [arrived.received]
    split
    · next same =>
      subst same
      exact (streams.begins x).trans (List.prefix_append ..)
    · exact streams.begins x
  · intro x above
    rw [arrived.count] at above
    have different : x ≠ h := by
      rintro rfl
      have := sound.named x above
      rw [owns.1] at this
      cases this
    simp only [arrived.received,if_neg different]
    exact streams.fresh x above
  · simp only [arrived.quiet.unreturned v.main,arrived.quiet.delivered]
    rw [List.map_congr_left fun e member => delivery e (List.mem_append_right _ member)]
    exact streams.batch

theorem Streams.read (streams : Streams v) (sound : Sound cfg v.io v.s) (buffers : Buffers cfg v)
    {h c : Nat} {buf : UvBuf} {result : ReadResult} {r : IoPc × State} (owns : v.s.Owns h c)
    (open' : (v.s.handles h).closing = false) (pending : (v.s.handles h).pending = some buf)
    (ran : onRecv h c buf result v.s = some r) : Streams { v with io := r.1, s := r.2 } := by
  unfold onRecv at ran
  split at ran
  · obtain rfl := Option.some.inj ran
    exact streams.closeChannel h c (sound.live owns open')
  · obtain rfl := Option.some.inj ran
    exact streams.quiet (still_answer h none (by simp)) ⟨rfl,rfl,rfl,rfl,rfl⟩ (by simp)
  · split at ran
    · contradiction
    · next b offset base =>
      split at ran
      · contradiction
      · next bounds =>
        obtain rfl := Option.some.inj ran
        obtain ⟨_,len⟩ := buf
        obtain rfl : _ = some (b,offset) := base
        dsimp only at bounds
        exact streams.arrived sound buffers owns pending (by omega)

/-- A buffer from the pool comes empty and belongs to nobody. -/
theorem Streams.poolPop (streams : Streams v) (sound : Sound cfg v.io v.s) (buffers : Buffers cfg v)
    {h c b : Nat} {pool : List Nat} (pc : v.io = .allocPop h c) (taken : v.pool = b :: pool) :
    Streams { v with io := (resumeIo (.allocPop h c) (.success [b]) v.s).1
                     s := (resumeIo (.allocPop h c) (.success [b]) v.s).2, pool := pool } := by
  have busy := sound.busy
  rw [pc] at busy
  have absent := buffers.pool_only sound taken
  have blocks (x : Nat) : (v.s.setBuffer b (v.s.buffers b).reset).buffers x =
      if x = b then (v.s.buffers b).reset else v.s.buffers x := by
    simp only [State.setBuffer,Function.update_apply]
  have held : Streams { v with io := .idle, pool := pool
                               s := (v.s.setBuffer b (v.s.buffers b).reset).setChannel c
                                 { v.s.clientMap c with readBuffer := some b } } := by
    refine streams.frame rfl (by cases v.main <;> rfl) ?_ rfl (Nat.le_refl _) ?_ ?_ (by simp) ?_
    · intro e _
      refine delivery_congr rfl fun x _ => ?_
      change ((v.s.setBuffer b (v.s.buffers b).reset).buffers x).buf.mem = _
      rw [blocks]
      split
      · next same =>
        rw [same]
        rfl
      · rfl
    · intro x
      change ((v.s.setBuffer b (v.s.buffers b).reset).buffers x).Valid
      rw [blocks]
      split
      · exact (streams.valid b).reset
      · exact streams.valid x
    · intro x y offset len waits
      have different : y ≠ b := by
        rintro rfl
        obtain ⟨c',-,-,same⟩ := sound.pending x (by
          rw [show (v.s.handles x).pending = some ⟨some (y,offset),len⟩ from waits]
          rfl)
        exact absent c' (same y offset len waits)
      change offset = ((v.s.setBuffer b (v.s.buffers b).reset).buffers y).writePtr ∧
        len = ((v.s.setBuffer b (v.s.buffers b).reset).buffers y).remaining
      rw [blocks,if_neg different]
      exact streams.offered x y offset len waits
    · intro x y owns' live
      left
      simp only [State.setChannel,Function.update_apply] at live
      refine ⟨owns',by split at live <;> simp_all [State.setBuffer],?_⟩
      by_cases same : y = c
      · subst same
        simp [State.unreadOf,State.setChannel,State.setBuffer,busy.2]
      · simp only [State.unreadOf,State.setChannel,State.setBuffer,Function.update_of_ne same]
        split
        · next b' buffer' =>
          have different : b' ≠ b := by
            rintro rfl
            exact absent y buffer'
          rw [Function.update_of_ne different]
        · rfl
  exact held.quiet (still_offer h b) ⟨rfl,rfl,rfl,rfl,rfl⟩ (by simp [resumeIo])

theorem Streams.popEvent (streams : Streams v) (sound : Sound cfg v.io v.s) (events : Events cfg v) {e : Nat}
    {rest : List Nat} (asked : request .io v.io = some (.eventsFree, .popBack)) (free : v.free = e :: rest) :
    Streams { v with io := (resumeIo v.io (.success [e]) v.s).1
                     s := (resumeIo v.io (.success [e]) v.s).2, free := rest } := by
  have busy := sound.busy
  have written {io : IoPc} (event : Event) (returning : ∀ h c b, io ≠ .closePush h c b) :
      Streams { v with io := io, s := v.s.setEvent e event, free := rest } := by
    refine streams.still (.records rfl rfl rfl rfl rfl) rfl (by cases v.main <;> rfl) ?_
      fun h c b same => absurd same (returning h c b)
    intro x member
    exact Function.update_of_ne (events.free_unlisted free member) ..
  cases pc : v.io <;> simp only [pc,request,reduceCtorEq,Option.some.injEq,Prod.mk.injEq,and_false,
    false_and] at asked
  case connectPop h c failure =>
    rw [pc] at busy
    simp only [resumeIo]
    split
    · have idle : ∀ h c b, IoPc.idle ≠ .closePush h c b := by simp
      exact (written _ idle).closeChannel h c (sound.live busy.1.1 busy.1.2.1)
    · exact written _ (by simp)
  case recvPop h c =>
    simp only [resumeIo]
    split
    · exact written _ (by simp)
    · exact streams.quiet (.records rfl rfl rfl rfl rfl) ⟨rfl,rfl,rfl,rfl,rfl⟩ (by simp)
  case closePop h c => exact written _ (by simp [resumeIo])

theorem Streams.popNone (streams : Streams v) (sound : Sound cfg v.io v.s)
    (asked : request .io v.io = some (.eventsFree, .popBack)) :
    Streams { v with io := (resumeIo v.io .empty v.s).1, s := (resumeIo v.io .empty v.s).2 } := by
  have busy := sound.busy
  cases pc : v.io <;> simp only [pc,request,reduceCtorEq,Option.some.injEq,Prod.mk.injEq,and_false,
    false_and] at asked
  case connectPop h c failure =>
    rw [pc] at busy
    exact streams.closeChannel h c (sound.live busy.1.1 busy.1.2.1)
  case recvPop h c => exact streams.quiet (.records rfl rfl rfl rfl rfl) ⟨rfl,rfl,rfl,rfl,rfl⟩ (by simp [resumeIo])
  case closePop h c => exact streams.quiet (still_free h) ⟨rfl,rfl,rfl,rfl,rfl⟩ (by simp [resumeIo])

/-- An event that goes to the ready queue adds what it carries. -/
theorem history_announce (v : View) (e : Nat) (main : MainPc) (io : IoPc) (pool free : List Nat) (s : State)
    (delivered : s.delivered = v.s.delivered) (delivery : s.delivery = v.s.delivery) (h : Nat) :
    bytesFrom h (View.history ⟨main,io,s,pool,free,v.ready ++ [e]⟩) = bytesFrom h v.history ++
      if (v.s.events e).type = .clientRead ∧ (v.s.events e).source = h then v.s.payload e else [] := by
  have whole : View.history ⟨main,io,s,pool,free,v.ready ++ [e]⟩ = v.history ++ [v.s.delivery e] := by
    simp only [View.history,delivered,delivery,List.map_append,List.map_cons,List.map_nil,List.append_assoc]
  rw [whole,bytesFrom_append,bytesFrom_singleton]
  rfl

/-- OPEN and CLOSE carry nothing. -/
theorem Streams.announce (streams : Streams v) {e : Nat} (type : (v.s.events e).type ≠ .clientRead) :
    Streams { v with io := .idle, s := v.s.announce e, ready := v.ready ++ [e] } := by
  have history (h : Nat) : bytesFrom h (View.history { v with
      io := .idle, s := v.s.announce e, ready := v.ready ++ [e] }) = bytesFrom h v.history := by
    rw [history_announce v e v.main .idle v.pool v.free (v.s.announce e) rfl rfl h,if_neg (fun both => type both.1),
      List.append_nil]
  refine ⟨streams.valid,streams.offered,by simp,?_,?_,streams.fresh,?_⟩
  · intro h c owns live
    rw [history]
    exact streams.complete h c owns live
  · intro h
    rw [history]
    exact streams.begins h
  · have batch : unreturned v.main (v.s.announce e) = unreturned v.main v.s := by cases v.main <;> rfl
    simp only [batch]
    exact streams.batch

/-- A READ event takes the unread bytes of its channel along. -/
theorem Streams.announceRead (streams : Streams v) (sound : Sound cfg v.io v.s) {h c e : Nat}
    (owns : v.s.Owns h c) (open' : (v.s.handles h).closing = false) (notice : v.s.notice e = ⟨.clientRead,c,h⟩)
    (payload : v.s.payload e = v.s.unreadOf c) :
    Streams { v with io := .idle, ready := v.ready ++ [e]
                     s := (v.s.announce e).setChannel c { v.s.clientMap c with readBuffer := none } } := by
  have type : (v.s.events e).type = .clientRead := congrArg Notice.type notice
  have source : (v.s.events e).source = h := congrArg Notice.source notice
  have history (x : Nat) := history_announce v e v.main .idle v.pool v.free
    ((v.s.announce e).setChannel c { v.s.clientMap c with readBuffer := none }) rfl rfl x
  simp only [type,source,payload,true_and] at history
  have before := streams.complete h c owns (sound.live owns open')
  refine ⟨streams.valid,streams.offered,by simp,?_,?_,streams.fresh,?_⟩
  · intro x y owns' live
    rw [history]
    by_cases same : y = c
    · subst same
      obtain rfl := sound.alone owns owns'
      have empty : ((v.s.announce e).setChannel y { v.s.clientMap y with readBuffer := none }).unreadOf y = [] := by
        simp [State.unreadOf,State.setChannel]
      simp only [if_true,empty,List.append_nil]
      exact before
    · have different : h ≠ x := by
        rintro rfl
        exact same (Option.some.inj (owns'.2.symm.trans owns.2))
      have kept : ((v.s.announce e).setChannel c { v.s.clientMap c with readBuffer := none }).unreadOf y =
          v.s.unreadOf y := by
        simp [State.unreadOf,State.setChannel,Function.update_of_ne same,State.announce]
      simp only [kept,if_neg different,List.append_nil]
      refine streams.complete x y owns' ?_
      simpa [State.setChannel,Function.update_of_ne same,State.announce] using live
  · intro x
    rw [history]
    split
    · next same =>
      subst same
      rw [before]
      exact List.prefix_rfl
    · rw [List.append_nil]
      exact streams.begins x
  · have batch : unreturned v.main ((v.s.announce e).setChannel c { v.s.clientMap c with readBuffer := none }) =
        unreturned v.main v.s := by cases v.main <;> rfl
    simp only [batch]
    exact streams.batch

theorem Streams.pushReady (streams : Streams v) (sound : Sound cfg v.io v.s) (events : Events cfg v) {e : Nat}
    (asked : request .io v.io = some (.eventsReady, .push e)) :
    Streams { v with io := (resumeIo v.io (.success []) v.s).1
                     s := (resumeIo v.io (.success []) v.s).2, ready := v.ready ++ [e] } := by
  have busy := sound.busy
  have marked := events.marked
  cases pc : v.io <;> simp only [pc,request,reduceCtorEq,Option.some.injEq,Prod.mk.injEq,and_false,
    false_and,Op.push.injEq,true_and] at asked
  case connectPush h c e' failure =>
    subst asked
    rw [pc] at busy marked
    have type : (v.s.events e').type = .clientOpen := congrArg Notice.type marked
    have told := streams.announce (e := e') (by simp [type])
    simp only [resumeIo]
    split
    · exact told.closeChannel h c (sound.live busy.1.1 busy.1.2.1)
    · exact told
  case recvPush h c e' =>
    subst asked
    rw [pc] at busy marked
    refine streams.announceRead sound busy.1.1 busy.1.2.1 marked.1 ?_
    obtain ⟨b,buffer⟩ := Option.isSome_iff_exists.mp busy.2
    rw [marked.2.2 b buffer,State.unreadOf,buffer]
  case closeReady h c e' =>
    subst asked
    rw [pc] at marked
    have type : (v.s.events e').type = .clientClose := congrArg Notice.type marked
    have told := streams.announce (e := e') (by simp [type])
    have listed : Still (v.s.announce e') ((v.s.announce e').listClose c) := .records rfl rfl rfl rfl rfl
    exact told.quiet (listed.trans (still_free h)) ⟨rfl,rfl,rfl,rfl,rfl⟩ (by simp [resumeIo])

/-- A step of the main thread that takes nothing from the ready queue. -/
theorem Streams.main (streams : Streams v) {main : MainPc} {s : State} {pool free : List Nat}
    (same : ∃ updates acquired, s = { v.s with eventUpdates := updates, acquired := acquired })
    (batch : unreturned main s <:+ unreturned v.main v.s) :
    Streams { v with main := main, s := s, pool := pool, free := free } := by
  obtain ⟨updates,acquired,rfl⟩ := same
  exact ⟨streams.valid,streams.offered,streams.returning,streams.complete,streams.begins,streams.fresh,
    (batch.map _).trans streams.batch⟩

theorem releaseNext_unreturned (s : State) (l : List Nat) :
    unreturned (releaseNext s l).1 (releaseNext s l).2 <:+ l := by
  unfold releaseNext
  split
  · exact List.suffix_rfl
  · split
    · exact List.suffix_rfl
    · exact List.suffix_cons ..

theorem Streams.releaseNext (streams : Streams v) {l pool free : List Nat} (batch : unreturned v.main v.s = l) :
    Streams { v with main := (releaseNext v.s l).1, s := (releaseNext v.s l).2, pool := pool, free := free } := by
  obtain ⟨acquired,same⟩ := releaseNext_frame v.s l
  refine streams.main ⟨v.s.eventUpdates,acquired,same⟩ ?_
  rw [batch]
  exact releaseNext_unreturned v.s l

theorem Streams.acquired (streams : Streams v) (events : Events cfg v) {limit : Word} {taken rest : List Nat}
    (pc : v.main = .acquire limit) (items : v.ready = taken ++ rest) :
    Streams { v with main := .idle, ready := rest
                     s := { v.s with eventUpdates := taken
                                     delivered := v.s.delivered ++ taken.map v.s.delivery } } := by
  obtain ⟨-,acquired,-⟩ := events.waiting limit pc
  have history : View.history { v with
      main := .idle, ready := rest
      s := { v.s with eventUpdates := taken, delivered := v.s.delivered ++ taken.map v.s.delivery } } =
        v.history := by
    simp only [View.history,items,List.map_append,List.append_assoc]
    rfl
  refine ⟨streams.valid,streams.offered,streams.returning,?_,?_,streams.fresh,?_⟩
  · intro h c owns live
    rw [history]
    exact streams.complete h c owns live
  · intro h
    rw [history]
    exact streams.begins h
  · simp only [unreturned,acquired,if_true]
    exact List.suffix_append ..

theorem Streams.close (streams : Streams v) (h : Nat) :
    Streams { v with io := (onClose h v.s).1, s := (onClose h v.s).2 } := by
  unfold onClose
  split
  · exact streams.quiet (still_free h) ⟨rfl,rfl,rfl,rfl,rfl⟩ (by simp)
  · next c data =>
    have still := still_state (s := v.s) c .closed (by simp)
    simp only
    split
    · refine streams.quiet still ⟨rfl,rfl,rfl,rfl,rfl⟩ ?_
      rintro _ _ _ ⟨⟩
      simp [State.setChannel]
    · exact streams.quiet still ⟨rfl,rfl,rfl,rfl,rfl⟩ (by simp)

/-- The close callback throws the unread bytes of its connection away. -/
theorem Streams.poolPush (streams : Streams v) {h c b : Nat} {pool : List Nat} (pc : v.io = .closePush h c b) :
    Streams { v with io := (resumeIo (.closePush h c b) (.success []) v.s).1
                     s := (resumeIo (.closePush h c b) (.success []) v.s).2, pool := pool } := by
  have closed := streams.returning h c b pc
  refine streams.frame rfl (by cases v.main <;> rfl) (fun _ _ => rfl) rfl (Nat.le_refl _) streams.valid
    streams.offered (by simp [resumeIo]) ?_
  intro x y owns live
  left
  have different : y ≠ c := by
    rintro rfl
    simp [resumeIo,State.setChannel,closed] at live
  refine ⟨owns,?_,?_⟩
  · simpa [resumeIo,State.setChannel,Function.update_of_ne different] using live
  · simp [resumeIo,State.unreadOf,State.setChannel,Function.update_of_ne different]

theorem Streams.move (streams : Streams v) (events : Events cfg v) (sound : Sound cfg v.io v.s)
    (buffers : Buffers cfg v) (move : Move cfg True v v') : Streams v' := by
  cases move with
  | acquire idle fresh => exact streams.main ⟨[],true,rfl⟩ (List.nil_suffix ..)
  | acquireNone pc none' =>
    obtain ⟨-,acquired,updates⟩ := events.waiting _ pc
    refine streams.main ⟨v.s.eventUpdates,v.s.acquired,rfl⟩ ?_
    simp [unreturned,acquired,updates]
  | acquired pc some' items => exact streams.acquired events pc items
  | release idle acquired =>
    apply streams.releaseNext
    simp only [unreturned,idle,acquired,if_true]
  | releasePool pc pushed =>
    refine streams.main ⟨v.s.eventUpdates,v.s.acquired,rfl⟩ ?_
    simp only [unreturned,pc]
    exact List.suffix_cons ..
  | releaseEvent pc pushed =>
    apply streams.releaseNext
    simp only [unreturned,pc]
  | connection failure idle => exact streams.connection sound failure
  | alloc idle serves =>
    unfold onRecvAlloc
    split
    · exact streams.quiet (.records rfl rfl rfl rfl rfl) ⟨rfl,rfl,rfl,rfl,rfl⟩ (by simp)
    · exact streams.quiet (still_offer _ _) ⟨rfl,rfl,rfl,rfl,rfl⟩ (by simp)
  | read idle owns open' pending ran => exact streams.read sound buffers owns open' pending ran
  | close idle closing alive => exact streams.close _
  | popEvent asked free => exact streams.popEvent sound events asked free
  | popNone asked free => exact streams.popNone sound asked
  | pushReady asked room => exact streams.pushReady sound events asked
  | pushFull asked full => exact absurd full (Nat.ne_of_lt (events.room asked))
  | poolPop pc taken => exact streams.poolPop sound buffers pc (taken trivial)
  | poolNone pc => exact streams.quiet (still_answer _ _ (by simp)) ⟨rfl,rfl,rfl,rfl,rfl⟩ (by simp [resumeIo])
  | poolPush pc pushed => exact streams.poolPush pc

end Step

/-- Batches are acquired and released in turn, and every operation is atomic. -/
def inTurn (a : Abstract) : AtomicLabel Thread Act Nat (Res Nat) → Bool
  | .act .acquire => !a.shared.acquired
  | .act .release => a.shared.acquired
  | .havoc _ _ => false
  | _ => true

theorem inTurn_orderly (a : Abstract) (label : AtomicLabel Thread Act Nat (Res Nat))
    (turn : inTurn a label = true) : Orderly True a label := by
  cases label with
  | act b =>
    cases b with
    | acquire => simpa [inTurn,Orderly] using turn
    | release => simpa [inTurn,Orderly] using turn
    | _ => trivial
  | op t choice => trivial
  | havoc t res => cases turn

/-- Until the close callback of a connection begins, the payloads of its READ events and the
unread bytes of its channel are what it sent; after that, the payloads are a first part of
it. The batch that the main thread holds still carries what it found. -/
def InOrder (a : Abstract) : Prop :=
  (∀ h c, a.shared.Owns h c → (a.shared.clientMap c).state ≠ .closed →
    bytesFrom h (a.shared.delivered ++ (a.abs .eventsReady).items.map a.shared.delivery) ++
      a.shared.unreadOf c = a.shared.received h) ∧
  (∀ h, bytesFrom h (a.shared.delivered ++ (a.abs .eventsReady).items.map a.shared.delivery) <+:
    a.shared.received h) ∧
  (unreturned (a.pcs .main) a.shared).map a.shared.delivery <:+ a.shared.delivered

theorem initial_streams (cfg : Config) (free : ListPtr Nat) (blocks : Nat → Nat → UInt8) :
    Streams (view (atomicInitial cfg free blocks)) where
  valid := fun b => Buffer.setup_valid _ _ cfg.block
  offered := by
    intro h b offset len pending
    cases pending
  returning := by simp [view,atomicInitial,idle]
  complete := by
    intro h c owns
    cases owns.1
  begins := fun _ => List.nil_prefix ..
  fresh := fun _ _ => rfl
  batch := List.nil_suffix ..

theorem bytes_in_order (cfg : Config) (free : ListPtr Nat)
    (built : ∃ data, clientListSetup data cfg.clientsMax = some free) (blocks : Nat → Nat → UInt8)
    (a : Abstract)
    (reach : Transition.Reachable (atomic cfg) (fun a label => inTurn a label = true)
      (atomicInitial cfg free blocks) a) : InOrder a := by
  have streams := reach.invariant_with
    (fun a => Events cfg (view a) ∧ Sound cfg (view a).io (view a).s ∧ Buffers cfg (view a))
    (fun a => Streams (view a))
    (fun _ reached => ⟨reachable_events inTurn_orderly reached,atomic_sound built inTurn_orderly reached,
      reachable_buffers built inTurn_orderly reached⟩)
    (initial_streams cfg free blocks)
    (fun _ _ _ known streams turn taken => streams.move known.1 known.2.1 known.2.2
      (step_move (inTurn_orderly _ _ turn) taken))
  exact ⟨streams.complete,streams.begins,streams.batch⟩

/-- Two reads: the first is taken by the main thread, the second waits for its event. -/
def readingRun : List (AtomicLabel Thread Act Nat (Res Nat)) :=
  [.act (.connection none),.op .io 0,.op .io 0,.act (.alloc 0),.op .io 0,.act (.read 0 (.data [7,8])),
    .op .io 0,.op .io 0,.act .acquire,.op .main 2,.act (.alloc 0),.op .io 0,.act (.read 0 (.data [9]))]

theorem bytes_in_order_read :
    ∃ a, Transition.execute (Transition.checked (atomic tinyConfig) inTurn) readingRun
        (atomicInitial tinyConfig tinyList fun _ _ => 0) = some a ∧
      (bytesFrom 0 a.shared.delivered,a.shared.unreadOf 0,a.shared.received 0) = ([7,8],[9],[7,8,9]) ∧
      InOrder a := by
  have observed : (Transition.execute (Transition.checked (atomic tinyConfig) inTurn) readingRun
      (atomicInitial tinyConfig tinyList fun _ _ => 0)).map
        (fun a => (bytesFrom 0 a.shared.delivered,a.shared.unreadOf 0,a.shared.received 0)) =
      some ([7,8],[9],[7,8,9]) := by decide +kernel
  obtain ⟨a,run,seen⟩ := Option.map_eq_some_iff.mp observed
  exact ⟨a,run,seen,bytes_in_order tinyConfig tinyList ⟨fun _ => 0,rfl⟩ _ a
    (.of_checked (fun _ _ passed => passed) run)⟩

end Tcpeen.Receive
