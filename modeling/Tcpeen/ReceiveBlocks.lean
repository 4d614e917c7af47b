import Tcpeen.ReceiveStreams

/-! The blocks under the READ events. Nobody reads from a buffer of pool_read, so an event
covers everything its buffer holds until the main thread puts the buffer back. -/
namespace Tcpeen.Receive

open SplitOperation QueueSpsc

/-- A buffer as setup made it: nothing has been read from it. -/
def Untapped (cfg : Config) (b : Buffer) : Prop := b.readPtr = 0 ∧ b.buf.capacity = cfg.maxRead

structure Blocks (cfg : Config) (v : View) : Prop where
  untapped : ∀ b, Untapped cfg (v.s.buffers b)
  whole : ∀ e ∈ v.ready ++ unreturned v.main v.s, ∀ b, v.s.refers b e = true →
    v.s.payload e = (v.s.buffers b).unread

section Step

variable {cfg : Config} {v v' : View}

theorem Untapped.reset {b : Buffer} (untapped : Untapped cfg b) : Untapped cfg b.reset := ⟨rfl,untapped.2⟩

theorem Untapped.addLength {b block : Buffer} {len : Nat} (untapped : Untapped cfg b)
    (added : b.addLength len = some block) : Untapped cfg block := by
  unfold Buffer.addLength at added
  split at added
  · contradiction
  · obtain rfl := Option.some.inj added
    exact untapped

/-- Reading starts at the front again, where it is already. -/
theorem Untapped.readReset {b : Buffer} (untapped : Untapped cfg b) (valid : b.Valid) : b.readReset = b := by
  have front : b.pos.ptr = 0 := untapped.1
  have aligned := valid.aligned
  obtain ⟨buf,⟨ptr,len⟩⟩ := b
  simp only at front aligned
  subst front
  rw [Nat.zero_add] at aligned
  subst aligned
  rfl

/-- What a read changes: the block it was offered, by bytes and length only. -/
theorem onRecv_blocks (cfg : Config) {s : State} {h c : Nat} {buf : UvBuf} {result : ReadResult}
    {r : IoPc × State} (ran : onRecv h c buf result s = some r) :
    ((∀ b, Untapped cfg (s.buffers b)) → ∀ b, Untapped cfg (r.2.buffers b)) ∧
      ∀ b, (∀ offset, buf.base ≠ some (b, offset)) → (s.clientMap c).readBuffer ≠ some b →
        r.2.buffers b = s.buffers b := by
  unfold onRecv at ran
  split at ran
  · obtain rfl := Option.some.inj ran
    exact ⟨id,fun _ _ _ => rfl⟩
  · obtain rfl := Option.some.inj ran
    exact ⟨id,fun _ _ _ => rfl⟩
  · next bytes =>
    split at ran
    · contradiction
    · next x offset base =>
      split at ran
      · contradiction
      · obtain rfl := Option.some.inj ran
        have arrived : (∀ b, Untapped cfg (s.buffers b)) →
            ∀ b, Untapped cfg (((s.answer h none).arrive h x offset bytes).buffers b) := by
          intro untapped b
          simp only [State.arrive,State.setBuffer,Function.update_apply]
          split
          · exact untapped x
          · exact untapped b
        have elsewhere (b : Nat) (other : ∀ offset, buf.base ≠ some (b, offset)) :
            ((s.answer h none).arrive h x offset bytes).buffers b = s.buffers b := by
          have different : b ≠ x := by
            rintro rfl
            exact other offset base
          simp [State.arrive,State.setBuffer,Function.update_of_ne different,State.answer,State.setHandle]
        unfold onRecvData
        split
        · exact ⟨arrived,fun b other _ => elsewhere b other⟩
        · next y buffer =>
          split
          · exact ⟨arrived,fun b other _ => elsewhere b other⟩
          · next block added =>
            constructor
            · intro untapped b
              simp only [State.setBuffer,Function.update_apply]
              split
              · exact (arrived untapped y).addLength added
              · exact arrived untapped b
            · intro b other apart
              have different : b ≠ y := by
                rintro rfl
                exact apart buffer
              simpa [State.setBuffer,Function.update_of_ne different] using elsewhere b other

/-- Only the buffer that a callback takes from the pool changes in the middle of one. -/
theorem resumeIo_blocks (cfg : Config) (pc : IoPc) (res : Res Nat) (s : State) :
    ((∀ b, Untapped cfg (s.buffers b)) → ∀ b, Untapped cfg ((resumeIo pc res s).2.buffers b)) ∧
      ((∀ h c, pc ≠ .allocPop h c) → (resumeIo pc res s).2.buffers = s.buffers) := by
  unfold resumeIo
  split
  case h_6 h c b =>
    refine ⟨?_,fun other => absurd rfl (other h c)⟩
    intro untapped x
    simp only [State.offer,State.answer,State.setHandle,State.setChannel,State.setBuffer,Function.update_apply]
    split
    · exact (untapped b).reset
    · exact untapped x
  all_goals
    try split
    all_goals exact ⟨id,fun _ => rfl⟩

theorem resumeIo_buffers (cfg : Config) {pc : IoPc} {q : QueueName} {op : Op Nat}
    (asked : request .io pc = some (q, op)) (other : q ≠ .poolRead) (res : Res Nat) (s : State) :
    (resumeIo pc res s).2.buffers = s.buffers := by
  refine (resumeIo_blocks cfg pc res s).2 ?_
  rintro h c rfl
  obtain ⟨rfl,-⟩ := Prod.mk.inj (Option.some.inj asked)
  exact other rfl

/-- Events on their way to the main thread and back, and their blocks, are left alone. -/
theorem move_kept (events : Events cfg v) (sound : Sound cfg v.io v.s) (buffers : Buffers cfg v)
    (move : Move cfg True v v') (e : Nat) (member : e ∈ v.ready ++ unreturned v.main v.s) :
    v'.s.events e = v.s.events e ∧ ∀ b, v.s.refers b e = true → v'.s.buffers b = v.s.buffers b := by
  cases move with
  | acquire idle fresh => exact ⟨rfl,fun _ _ => rfl⟩
  | acquireNone pc none' => exact ⟨rfl,fun _ _ => rfl⟩
  | acquired pc some' items => exact ⟨rfl,fun _ _ => rfl⟩
  | release idle acquired =>
    obtain ⟨flag,same⟩ := releaseNext_frame v.s v.s.eventUpdates
    rw [same]
    exact ⟨rfl,fun _ _ => rfl⟩
  | releasePool pc pushed => exact ⟨rfl,fun _ _ => rfl⟩
  | @releaseEvent e' rest free pc pushed =>
    obtain ⟨flag,same⟩ := releaseNext_frame v.s rest
    rw [same]
    exact ⟨rfl,fun _ _ => rfl⟩
  | connection failure idle =>
    refine ⟨by rw [(onConnection_quiet failure v.s).1.events],fun b _ => ?_⟩
    unfold onConnection
    repeat' split
    all_goals rfl
  | @alloc h c idle serves =>
    refine ⟨by rw [(onRecvAlloc_quiet h c v.s).1.events],fun b _ => ?_⟩
    unfold onRecvAlloc
    split <;> rfl
  | @read h c buf result r idle owns open' pending ran =>
    refine ⟨by rw [(onRecv_quiet ran).1.events],fun b refers => ?_⟩
    have apart (buffer : (v.s.clientMap c).readBuffer = some b) : False := by
      rw [(buffers.owner_only sound buffer).2 e member] at refers
      cases refers
    refine (onRecv_blocks cfg ran).2 b ?_ apart
    intro offset base
    obtain ⟨c',owns',-,same⟩ := sound.pending h (by rw [pending]; rfl)
    obtain rfl := Option.some.inj (owns.2.symm.trans owns'.2)
    obtain ⟨base',len⟩ := buf
    subst base
    exact apart (same b offset len pending)
  | @close h idle closing alive =>
    refine ⟨by rw [(onClose_quiet h v.s).1.events],fun b _ => ?_⟩
    unfold onClose
    split
    · rfl
    · simp only
      split <;> rfl
  | @popEvent taken rest asked free =>
    obtain ⟨-,-,-,event,quiet⟩ := popEvent_effect asked taken v.s
    have different : e ≠ taken := events.free_unlisted free member
    refine ⟨by rw [quiet.events]; exact Function.update_of_ne different ..,fun b _ => ?_⟩
    rw [resumeIo_buffers cfg asked (by simp)]
  | popNone asked free =>
    refine ⟨by rw [(popNone_effect asked v.s).2.2.2.events],fun b _ => ?_⟩
    rw [resumeIo_buffers cfg asked (by simp)]
  | pushReady asked room =>
    refine ⟨by rw [(pushReady_effect asked v.s).2.2.2.events]; rfl,fun b _ => ?_⟩
    rw [resumeIo_buffers cfg asked (by simp)]
  | pushFull asked full =>
    refine ⟨by rw [(pushFull_effect asked v.s).2.2.2.events],fun b _ => ?_⟩
    rw [resumeIo_buffers cfg asked (by simp)]
  | @poolPop h c taken pool pc front =>
    refine ⟨rfl,fun b refers => ?_⟩
    have different : b ≠ taken := by
      rintro rfl
      have places := buffers b
      rw [front trivial,List.count_cons_self] at places
      have here : 0 < v.references b := List.countP_pos_iff.mpr ⟨e,member,refers⟩
      split at places <;> omega
    simp [resumeIo,State.offer,State.answer,State.setHandle,State.setChannel,State.setBuffer,
      Function.update_of_ne different]
  | poolNone pc => exact ⟨rfl,fun _ _ => rfl⟩
  | poolPush pc pushed => exact ⟨rfl,fun _ _ => rfl⟩

/-- No event joins these but the one in the hand of a callback, which it leaves as it is. -/
theorem move_listed (events : Events cfg v) (move : Move cfg True v v') (e : Nat)
    (member : e ∈ v'.ready ++ unreturned v'.main v'.s) :
    e ∈ v.ready ++ unreturned v.main v.s ∨
      request .io v.io = some (.eventsReady, .push e) ∧ v'.s.events e = v.s.events e ∧
        v'.s.buffers = v.s.buffers := by
  have quiet {s : State} {p : Prop} (quiet : Quiet v.s s) (member : e ∈ v.ready ++ unreturned v.main s) :
      e ∈ v.ready ++ unreturned v.main v.s ∨ p := by
    rw [quiet.unreturned] at member
    exact .inl member
  cases move with
  | acquire idle fresh =>
    left
    simp only [unreturned,List.append_nil] at member
    exact List.mem_append_left _ member
  | acquireNone pc none' =>
    left
    obtain ⟨-,acquired,updates⟩ := events.waiting _ pc
    simp only [unreturned,acquired,updates,if_true,List.append_nil] at member
    exact List.mem_append_left _ member
  | acquired pc some' items =>
    left
    obtain ⟨-,acquired,-⟩ := events.waiting _ pc
    simp only [unreturned,acquired,if_true,List.mem_append] at member
    rw [items,pc]
    simp only [unreturned,List.append_nil,List.mem_append]
    exact member.symm
  | release idle acquired =>
    left
    rcases List.mem_append.mp member with member | member
    · exact List.mem_append_left _ member
    · refine List.mem_append_right _ ?_
      simp only [unreturned,idle,acquired,if_true]
      exact (releaseNext_unreturned v.s v.s.eventUpdates).subset member
  | releasePool pc pushed =>
    left
    simp only [unreturned,pc,List.mem_append] at member ⊢
    exact member.imp_right (List.mem_cons_of_mem _)
  | @releaseEvent e' rest free pc pushed =>
    left
    rcases List.mem_append.mp member with member | member
    · exact List.mem_append_left _ member
    · refine List.mem_append_right _ ?_
      simp only [unreturned,pc]
      exact (releaseNext_unreturned v.s rest).subset member
  | connection failure idle => exact quiet (onConnection_quiet failure v.s).1 member
  | alloc idle serves => exact quiet (onRecvAlloc_quiet _ _ v.s).1 member
  | read idle owns open' pending ran => exact quiet (onRecv_quiet ran).1 member
  | close idle closing alive => exact quiet (onClose_quiet _ v.s).1 member
  | popEvent asked free =>
    obtain ⟨-,-,-,event,same⟩ := popEvent_effect asked _ v.s
    have batch := same.unreturned v.main
    rw [batch] at member
    exact .inl member
  | popNone asked free => exact quiet (popNone_effect asked v.s).2.2.2 member
  | @pushReady pushed asked room =>
    obtain ⟨-,-,-,same⟩ := pushReady_effect asked v.s
    have batch := same.unreturned v.main
    rw [batch] at member
    rcases List.mem_append.mp member with member | member
    · rcases List.mem_append.mp member with member | new
      · exact .inl (List.mem_append_left _ member)
      · obtain rfl := List.mem_singleton.mp new
        refine .inr ⟨asked,by rw [same.events]; rfl,?_⟩
        exact resumeIo_buffers cfg asked (by simp) _ v.s
    · exact .inl (List.mem_append_right _ member)
  | pushFull asked full => exact quiet (pushFull_effect asked v.s).2.2.2 member
  | poolPop pc taken => exact quiet ⟨rfl,rfl,rfl,rfl,rfl⟩ member
  | poolNone pc => exact quiet ⟨rfl,rfl,rfl,rfl,rfl⟩ member
  | poolPush pc pushed => exact quiet ⟨rfl,rfl,rfl,rfl,rfl⟩ member

theorem move_untapped (move : Move cfg True v v') (untapped : ∀ b, Untapped cfg (v.s.buffers b)) :
    ∀ b, Untapped cfg (v'.s.buffers b) := by
  have released (l : List Nat) : ∀ b, Untapped cfg ((releaseNext v.s l).2.buffers b) := by
    obtain ⟨flag,same⟩ := releaseNext_frame v.s l
    rw [same]
    exact untapped
  cases move with
  | release idle acquired => exact released _
  | releaseEvent pc pushed => exact released _
  | connection failure idle =>
    simp only
    unfold onConnection
    repeat' split
    all_goals exact untapped
  | alloc idle serves =>
    simp only
    unfold onRecvAlloc
    split <;> exact untapped
  | read idle owns open' pending ran => exact (onRecv_blocks cfg ran).1 untapped
  | close idle closing alive =>
    simp only
    unfold onClose
    split
    · exact untapped
    · simp only
      split <;> exact untapped
  | popEvent asked free => exact (resumeIo_blocks cfg _ _ v.s).1 untapped
  | popNone asked free => exact (resumeIo_blocks cfg _ _ v.s).1 untapped
  | pushReady asked room => exact (resumeIo_blocks cfg _ _ v.s).1 untapped
  | pushFull asked full => exact (resumeIo_blocks cfg _ _ v.s).1 untapped
  | poolPop pc taken => exact (resumeIo_blocks cfg _ _ v.s).1 untapped
  | _ => exact untapped

/-- A callback hands over the whole buffer of its channel. -/
theorem Events.hands_whole (events : Events cfg v) {e b : Nat}
    (asked : request .io v.io = some (.eventsReady, .push e)) (refers : v.s.refers b e = true) :
    v.s.payload e = (v.s.buffers b).unread := by
  have marked := events.marked
  simp only [State.refers,Bool.and_eq_true,beq_iff_eq] at refers
  cases pc : v.io <;> rw [pc] at asked marked <;>
    simp only [request,reduceCtorEq,Option.some.injEq,Prod.mk.injEq,and_false,false_and,
      Op.push.injEq,true_and] at asked
  case recvPush h c e' =>
    subst asked
    obtain ⟨-,buffer,payload⟩ := marked
    exact payload b (buffer.symm.trans refers.2)
  all_goals
    subst asked
    have type := congrArg Notice.type marked
    rw [State.notice,refers.1] at type
    cases type

theorem Blocks.move (blocks : Blocks cfg v) (events : Events cfg v) (sound : Sound cfg v.io v.s)
    (buffers : Buffers cfg v) (move : Move cfg True v v') : Blocks cfg v' := by
  refine ⟨move_untapped move blocks.untapped,?_⟩
  intro e member b refers
  have kept (same : v'.s.events e = v.s.events e)
      (block : v.s.refers b e = true → v'.s.buffers b = v.s.buffers b)
      (whole : v.s.refers b e = true → v.s.payload e = (v.s.buffers b).unread) :
      v'.s.payload e = (v'.s.buffers b).unread := by
    rw [refers_congr same] at refers
    rw [block refers,← whole refers]
    refine congrArg Delivery.payload (delivery_congr same ?_)
    intro b' refers'
    have only : b' = b := by
      simp only [State.refers,Bool.and_eq_true,beq_iff_eq] at refers refers'
      exact Option.some.inj (refers'.2.symm.trans refers.2)
    rw [only,block refers]
  rcases move_listed events move e member with old | ⟨pushed,same,blocks'⟩
  · obtain ⟨same,block⟩ := move_kept events sound buffers move e old
    exact kept same (block b) (blocks.whole e old b)
  · exact kept same (fun _ => by rw [blocks']) (events.hands_whole pushed)

end Step

section Run

variable {cfg : Config} {free : ListPtr Nat} {blocks : Nat → Nat → UInt8} {a : Abstract}

theorem reachable_streams (built : ∃ data, clientListSetup data cfg.clientsMax = some free)
    (reach : Transition.Reachable (atomic cfg) (Orderly True) (atomicInitial cfg free blocks) a) :
    Streams (view a) :=
  reach.invariant_with
    (fun a => Events cfg (view a) ∧ Sound cfg (view a).io (view a).s ∧ Buffers cfg (view a))
    (fun a => Streams (view a))
    (fun _ reached => ⟨reachable_events (fun _ _ orderly => orderly) reached,
      atomic_sound built (fun _ _ orderly => orderly) reached,
      reachable_buffers built (fun _ _ orderly => orderly) reached⟩)
    (initial_streams cfg free blocks)
    fun _ _ _ known streams orderly taken => streams.move known.1 known.2.1 known.2.2 (step_move orderly taken)

theorem reachable_blocks (built : ∃ data, clientListSetup data cfg.clientsMax = some free)
    (reach : Transition.Reachable (atomic cfg) (Orderly True) (atomicInitial cfg free blocks) a) :
    Blocks cfg (view a) := by
  refine reach.invariant_with
    (fun a => Events cfg (view a) ∧ Sound cfg (view a).io (view a).s ∧ Buffers cfg (view a))
    (fun a => Blocks cfg (view a))
    (fun _ reached => ⟨reachable_events (fun _ _ orderly => orderly) reached,
      atomic_sound built (fun _ _ orderly => orderly) reached,
      reachable_buffers built (fun _ _ orderly => orderly) reached⟩)
    ⟨fun _ => ⟨rfl,rfl⟩,fun e member => absurd member List.not_mem_nil⟩
    fun _ _ _ known valid orderly taken => valid.move known.1 known.2.1 known.2.2 (step_move orderly taken)

end Run

end Tcpeen.Receive
