import Tcpeen.ReceiveEvents

/-! Where the read buffers are: every one in the pool, with one channel, or with one READ
event on its way to the main thread and back. -/
namespace Tcpeen.Receive

open SplitOperation QueueSpsc

/-- Events of the batch whose buffers have not been put back. -/
def unreturned (main : MainPc) (s : State) : List Nat :=
  match main with
  | .releasePool e _ rest => e :: rest
  | .releaseEvent _ rest => rest
  | .acquire _ => []
  | .idle => if s.acquired then s.eventUpdates else []

/-- The event is a READ event with this buffer. -/
def State.refers (s : State) (b e : Nat) : Bool :=
  (s.events e).type == .clientRead && (s.events e).tnBuffer == some b

/-- The number of channels that own the buffer. -/
def State.owners (s : State) (cfg : Config) (b : Nat) : Nat :=
  (List.range cfg.clientsMax).countP fun c => (s.clientMap c).readBuffer == some b

def View.references (v : View) (b : Nat) : Nat :=
  (v.ready ++ unreturned v.main v.s).countP (v.s.refers b)

def Buffers (cfg : Config) (v : View) : Prop :=
  ∀ b, v.pool.count b + v.s.owners cfg b + v.references b = if b < cfg.bufferCount then 1 else 0

section

variable {cfg : Config} {sure : Prop} {v v' : View}

theorem Sound.move (sound : Sound cfg v.io v.s) (move : Move cfg sure v v') : Sound cfg v'.io v'.s := by
  cases move with
  | acquire idle _ => exact sound.frame rfl rfl rfl rfl sound.busy
  | acquireNone pc none' => exact sound
  | acquired pc some' items => exact sound.frame rfl rfl rfl rfl sound.busy
  | release idle acquired =>
    obtain ⟨acquired,same⟩ := releaseNext_frame v.s v.s.eventUpdates
    simp only [same]
    exact sound.frame rfl rfl rfl rfl sound.busy
  | releasePool pc _ => exact sound
  | @releaseEvent e rest free pc pushed =>
    obtain ⟨acquired,same⟩ := releaseNext_frame v.s rest
    simp only [same]
    exact sound.frame rfl rfl rfl rfl sound.busy
  | connection failure idle => exact onConnection_sound sound failure
  | alloc idle serves => exact onRecvAlloc_sound sound serves
  | read idle owns open' pending ran => exact onRecv_sound sound owns open' ran
  | close idle closing alive => exact onClose_sound sound closing alive
  | popEvent asked free => exact resumeIo_sound sound _
  | popNone asked free => exact resumeIo_sound sound _
  | pushReady asked room => exact resumeIo_sound sound _
  | pushFull asked full => exact resumeIo_sound sound _
  | poolPop pc taken => exact resumeIo_sound (pc ▸ sound) _
  | poolNone pc => exact resumeIo_sound (pc ▸ sound) _
  | poolPush pc pushed => exact resumeIo_sound (pc ▸ sound) _

/-- Steps that leave the buffers of all channels alone. -/
def SameBuffers (s s' : State) : Prop :=
  ∀ c, (s'.clientMap c).readBuffer = (s.clientMap c).readBuffer

theorem SameBuffers.owners {s s' : State} (same : SameBuffers s s') (b : Nat) :
    s'.owners cfg b = s.owners cfg b := by
  simp only [State.owners,same _]

theorem sameBuffers_state (s : State) (c : Nat) (state : ChannelState) :
    SameBuffers s (s.setChannel c { s.clientMap c with state := state }) := by
  intro x
  simp only [State.setChannel,Function.update_apply]
  split
  · next same => rw [same]
  · rfl

theorem onConnection_sameBuffers (sound : Sound cfg v.io v.s) (failure : Option ConnectStep) :
    SameBuffers v.s (onConnection failure v.s).2 := by
  unfold onConnection
  split
  iterate 4 exact fun _ => rfl
  split
  · exact fun _ => rfl
  · next c freed popped =>
    obtain ⟨items,-⟩ := ListPtr.popBack_items popped
    have none' : (v.s.clientMap c).readBuffer = none := by
      apply sound.cleared
      rw [items,List.count_append]
      simp
    split <;> intro x <;>
      simp only [State.closeChannel,State.newHandle,State.setHandle,State.setChannel,Function.update_apply] <;>
      grind

theorem onRecv_sameBuffers {s : State} {h c : Nat} {buf : UvBuf} {result : ReadResult} {r : IoPc × State}
    (ran : onRecv h c buf result s = some r) : SameBuffers s r.2 := by
  unfold onRecv at ran
  split at ran
  · obtain rfl := Option.some.inj ran
    exact sameBuffers_state s c .closing
  · obtain rfl := Option.some.inj ran
    exact fun _ => rfl
  · split at ran
    · contradiction
    · split at ran
      · contradiction
      · obtain rfl := Option.some.inj ran
        unfold onRecvData
        split
        · exact fun _ => rfl
        · split <;> exact fun _ => rfl

theorem onClose_sameBuffers (h : Nat) (s : State) : SameBuffers s (onClose h s).2 := by
  unfold onClose
  split
  · exact fun _ => rfl
  · next c data =>
    simp only
    split <;> exact sameBuffers_state s c .closed

/-- Only three calls of the IO thread change who owns a buffer. -/
theorem resumeIo_sameBuffers (pc : IoPc) (res : Res Nat) (s : State)
    (alloc : ∀ h c, pc ≠ .allocPop h c) (close : ∀ h c b, pc ≠ .closePush h c b)
    (recv : ∀ h c e values, pc = .recvPush h c e → res ≠ .success values) :
    SameBuffers s (resumeIo pc res s).2 := by
  unfold resumeIo
  split
  · exact fun _ => rfl
  · simp only
    split
    · exact sameBuffers_state _ _ .closing
    · exact fun _ => rfl
  · exact sameBuffers_state _ _ .closing
  · simp only
    split
    · exact sameBuffers_state _ _ .closing
    · exact fun _ => rfl
  · exact sameBuffers_state _ _ .closing
  · exact absurd rfl (alloc _ _)
  · exact absurd rfl (alloc _ _)
  · split <;> exact fun _ => rfl
  · exact fun _ => rfl
  · exact absurd rfl (recv _ _ _ _ rfl)
  · exact fun _ => rfl
  · exact absurd rfl (close _ _ _)
  iterate 4 exact fun _ => rfl

theorem releaseNext_references (s : State) (l : List Nat) (b : Nat) :
    (unreturned (releaseNext s l).1 (releaseNext s l).2).countP (s.refers b) = l.countP (s.refers b) := by
  unfold releaseNext
  split
  · rfl
  · next e rest =>
    split
    · rfl
    · next other =>
      have : s.refers b e = false := by
        simp only [State.refers,Bool.and_eq_false_iff,beq_eq_false_iff_ne]
        by_contra both
        push Not at both
        exact other b both.1 both.2
      simp [unreturned,this]

theorem unreturned_held (main : MainPc) (s : State) (e : Nat) :
    (unreturned main s).count e ≤ (heldEvents main s).count e := by
  cases main <;> simp [unreturned,heldEvents,List.count_le_count_cons]

/-- An event that is free is not on its way. -/
theorem Events.free_unlisted (events : Events cfg v) {e x : Nat} {rest : List Nat} (free : v.free = e :: rest)
    (member : x ∈ v.ready ++ unreturned v.main v.s) : x ≠ e := by
  obtain ⟨-,-,notReady,notHeld⟩ := events.free_only free
  rintro rfl
  rcases List.mem_append.mp member with member | member
  · exact absurd (List.count_pos_iff.mpr member) (by omega)
  · have := List.count_pos_iff.mpr member
    have := unreturned_held v.main v.s x
    omega

/-- A step that moves no buffer. -/
theorem Buffers.keep (valid : Buffers cfg v) (pool : v'.pool = v.pool) (same : SameBuffers v.s v'.s)
    (references : ∀ b, v'.references b = v.references b) : Buffers cfg v' := by
  intro b
  rw [pool,same.owners,references]
  exact valid b

theorem refers_congr {s s' : State} {e : Nat} (same : s'.events e = s.events e) (b : Nat) :
    s'.refers b e = s.refers b e := by
  simp [State.refers,same]

theorem Quiet.refers {s s' : State} (quiet : Quiet s s') (b : Nat) : s'.refers b = s.refers b := by
  funext e
  exact refers_congr (by rw [quiet.events]) b

theorem Quiet.unreturned {s s' : State} (quiet : Quiet s s') (main : MainPc) :
    Receive.unreturned main s' = Receive.unreturned main s := by
  cases main <;> simp [Receive.unreturned,quiet.acquired,quiet.updates]

/-- Giving a channel a buffer or taking its buffer away. -/
theorem owners_setChannel (s : State) {c : Nat} (inside : c < cfg.clientsMax) (channel : Channel) (b : Nat) :
    (s.setChannel c channel).owners cfg b + (if (s.clientMap c).readBuffer == some b then 1 else 0) =
      s.owners cfg b + if channel.readBuffer == some b then 1 else 0 :=
  Counting.countP_update (fun channel : Channel => channel.readBuffer == some b) s.clientMap
    List.nodup_range (List.mem_range.mpr inside) channel

/-- The pool has room for a buffer that is not in it. -/
theorem Buffers.room (valid : Buffers cfg v) {b : Nat} (elsewhere : 0 < v.s.owners cfg b + v.references b) :
    b < cfg.bufferCount ∧ v.pool.length < 2 ^ cfg.bits := by
  have each (x : Nat) : v.pool.count x ≤ if x < cfg.bufferCount then 1 else 0 := by
    have := valid x
    omega
  have here := valid b
  have small : b < cfg.bufferCount := by
    by_contra outside
    rw [if_neg outside] at here
    omega
  rw [if_pos small] at here
  have short := Counting.length_lt each small (by omega)
  exact ⟨small,Nat.lt_of_lt_of_le short cfg.fits⟩

theorem Buffers.pushed (valid : Buffers cfg v) {b : Nat} {pool : List Nat}
    (elsewhere : 0 < v.s.owners cfg b + v.references b) (pushed : Pushed (2 ^ cfg.bits) v.pool b pool) :
    pool = v.pool ++ [b] := by
  rcases pushed with ⟨-,appended⟩ | ⟨full,-⟩
  · exact appended
  · exact absurd full (Nat.ne_of_lt (valid.room elsewhere).2)

/-- A step of the IO thread that touches no event and changes no owner. -/
theorem Buffers.quiet (valid : Buffers cfg v) {io : IoPc} {s : State} (quiet : Quiet v.s s)
    (same : SameBuffers v.s s) : Buffers cfg { v with io := io, s := s } := by
  refine valid.keep rfl same ?_
  intro b
  simp only [View.references,quiet.refers,quiet.unreturned]

theorem Buffers.popEvent (valid : Buffers cfg v) (events : Events cfg v) {e : Nat} {rest : List Nat}
    (asked : request .io v.io = some (.eventsFree, .popBack)) (free : v.free = e :: rest) :
    Buffers cfg { v with io := (resumeIo v.io (.success [e]) v.s).1
                         s := (resumeIo v.io (.success [e]) v.s).2, free := rest } := by
  obtain ⟨-,-,-,event,quiet⟩ := popEvent_effect asked e v.s
  refine valid.keep rfl (resumeIo_sameBuffers v.io _ v.s ?_ ?_ ?_) ?_
  · intro h c pc
    simp [pc,request] at asked
  · intro h c b pc
    simp [pc,request] at asked
  · intro h c e' values pc
    simp [pc,request] at asked
  · intro b
    simp only [View.references]
    rw [show unreturned v.main (resumeIo v.io (.success [e]) v.s).2 = unreturned v.main v.s from
      quiet.unreturned v.main]
    apply List.countP_congr
    intro x member
    have different : x ≠ e := events.free_unlisted free member
    rw [refers_congr (s := v.s) (by rw [quiet.events]; exact Function.update_of_ne different ..) b]

/-- A READ event takes the buffer of its channel along; other events carry none. -/
theorem Buffers.pushReady (valid : Buffers cfg v) (events : Events cfg v) (sound : Sound cfg v.io v.s)
    {e : Nat} (asked : request .io v.io = some (.eventsReady, .push e)) :
    Buffers cfg { v with io := (resumeIo v.io (.success []) v.s).1
                         s := (resumeIo v.io (.success []) v.s).2, ready := v.ready ++ [e] } := by
  obtain ⟨-,-,-,quiet⟩ := pushReady_effect asked v.s
  have references (b : Nat) : View.references { v with
      io := (resumeIo v.io (.success []) v.s).1, s := (resumeIo v.io (.success []) v.s).2
      ready := v.ready ++ [e] } b = v.references b + if v.s.refers b e then 1 else 0 := by
    have refers : (resumeIo v.io (.success []) v.s).2.refers b = v.s.refers b := quiet.refers b
    have batch : unreturned v.main (resumeIo v.io (.success []) v.s).2 = unreturned v.main v.s :=
      quiet.unreturned v.main
    simp only [View.references,refers,batch,List.countP_append,List.countP_cons,List.countP_nil]
    omega
  have other (type : (v.s.events e).type ≠ .clientRead) (notRecv : ∀ h c e', v.io ≠ .recvPush h c e') :
      Buffers cfg { v with io := (resumeIo v.io (.success []) v.s).1
                           s := (resumeIo v.io (.success []) v.s).2, ready := v.ready ++ [e] } := by
    have same := resumeIo_sameBuffers v.io (.success []) v.s
      (by intro h c pc; simp [pc,request] at asked) (by intro h c b pc; simp [pc,request] at asked)
      (fun h c e' values pc => absurd pc (notRecv h c e'))
    intro b
    rw [references,show v.s.refers b e = false by simp [State.refers,type]]
    simp only [same.owners]
    simpa using valid b
  have marked := events.marked
  cases pc : v.io <;> simp only [pc,request,reduceCtorEq,Option.some.injEq,Prod.mk.injEq,and_false,false_and,
    Op.push.injEq,true_and] at asked
  case recvPush h c e' =>
    subst asked
    have busy := sound.busy
    rw [pc] at marked busy references
    obtain ⟨notice,buffer,-⟩ := marked
    obtain ⟨inside,-,-⟩ := sound.attached h c busy.1.1
    have type : (v.s.events e').type = .clientRead := congrArg Notice.type notice
    intro b
    rw [references]
    have places := valid b
    have moved := owners_setChannel v.s inside { v.s.clientMap c with readBuffer := none } b
    have owners : (resumeIo (.recvPush h c e') (.success []) v.s).2.owners cfg b =
      (v.s.setChannel c { v.s.clientMap c with readBuffer := none }).owners cfg b := rfl
    simp only [owners,State.refers,type,buffer,beq_self_eq_true,Bool.true_and] at moved ⊢
    simp only [Option.none_beq_some,Bool.false_eq_true,if_false] at moved
    omega
  all_goals
    subst asked
    rw [pc] at marked other
    have type := congrArg Notice.type marked
    simp only [State.notice] at type
    exact other (by simp [type]) (by simp)

theorem Buffers.poolPop (valid : Buffers cfg v) (sound : Sound cfg v.io v.s) {h c b : Nat} {pool : List Nat}
    (pc : v.io = .allocPop h c) (taken : v.pool = b :: pool) :
    Buffers cfg { v with io := (resumeIo (.allocPop h c) (.success [b]) v.s).1
                         s := (resumeIo (.allocPop h c) (.success [b]) v.s).2, pool := pool } := by
  have busy := sound.busy
  rw [pc] at busy
  obtain ⟨inside,-,-⟩ := sound.attached h c busy.1.1
  intro x
  have places := valid x
  have moved := owners_setChannel v.s inside { v.s.clientMap c with readBuffer := some b } x
  have owners : (resumeIo (.allocPop h c) (.success [b]) v.s).2.owners cfg x =
    (v.s.setChannel c { v.s.clientMap c with readBuffer := some b }).owners cfg x := rfl
  have references : View.references { v with
      io := (resumeIo (.allocPop h c) (.success [b]) v.s).1
      s := (resumeIo (.allocPop h c) (.success [b]) v.s).2, pool := pool } x = v.references x := rfl
  rw [busy.2] at moved
  simp only [Option.none_beq_some,Bool.false_eq_true,if_false,Option.some_beq_some,beq_iff_eq] at moved
  rw [taken,List.count_cons] at places
  simp only [owners,references,beq_iff_eq] at places ⊢
  omega

/-- The buffer that a closing channel puts back is its own. -/
theorem Sound.owner (sound : Sound cfg v.io v.s) {h c b : Nat} (pc : v.io = .closePush h c b) :
    0 < v.s.owners cfg b := by
  have busy := sound.busy
  rw [pc] at busy
  obtain ⟨inside,-,-⟩ := sound.attached h c busy.1.1
  refine List.countP_pos_iff.mpr ⟨c,List.mem_range.mpr inside,?_⟩
  rw [busy.2]
  exact beq_self_eq_true _

/-- The buffer that the main thread puts back came with an event of its batch. -/
theorem Events.reference (events : Events cfg v) {e b : Nat} {rest : List Nat}
    (pc : v.main = .releasePool e b rest) : 0 < v.references b := by
  obtain ⟨type,buffer⟩ := events.returning e b rest pc
  refine List.countP_pos_iff.mpr ⟨e,List.mem_append_right _ ?_,?_⟩
  · rw [pc]
    exact List.mem_cons_self
  · simp [State.refers,type,buffer]

theorem Buffers.poolPush (valid : Buffers cfg v) (sound : Sound cfg v.io v.s) {h c b : Nat}
    {pool : List Nat} (pc : v.io = .closePush h c b) (pushed : Pushed (2 ^ cfg.bits) v.pool b pool) :
    Buffers cfg { v with io := (resumeIo (.closePush h c b) (.success []) v.s).1
                         s := (resumeIo (.closePush h c b) (.success []) v.s).2, pool := pool } := by
  have busy := sound.busy
  rw [pc] at busy
  obtain ⟨inside,-,-⟩ := sound.attached h c busy.1.1
  have moved (x : Nat) := owners_setChannel v.s inside { v.s.clientMap c with readBuffer := none } x
  have owners (x : Nat) : (resumeIo (.closePush h c b) (.success []) v.s).2.owners cfg x =
    (v.s.setChannel c { v.s.clientMap c with readBuffer := none }).owners cfg x := rfl
  simp only [busy.2,Option.none_beq_some,Bool.false_eq_true,if_false,Option.some_beq_some,beq_iff_eq] at moved
  obtain rfl := valid.pushed (Nat.add_pos_left (sound.owner pc) _) pushed
  intro x
  have places := valid x
  have moved := moved x
  have references : View.references { v with
      io := (resumeIo (.closePush h c b) (.success []) v.s).1
      s := (resumeIo (.closePush h c b) (.success []) v.s).2, pool := v.pool ++ [b] } x = v.references x := rfl
  simp only [owners,references,List.count_append,List.count_singleton,beq_iff_eq] at places ⊢
  omega

theorem Buffers.releasePool (valid : Buffers cfg v) (events : Events cfg v) {e b : Nat}
    {rest pool : List Nat} (pc : v.main = .releasePool e b rest)
    (pushed : Pushed (2 ^ cfg.bits) v.pool b pool) :
    Buffers cfg { v with main := .releaseEvent e rest, pool := pool } := by
  obtain ⟨type,buffer⟩ := events.returning e b rest pc
  have refers (x : Nat) : v.s.refers x e = decide (b = x) := by
    simp only [State.refers,type,buffer,beq_self_eq_true,Bool.true_and]
    rw [Bool.eq_iff_iff]
    simp
  have references (x : Nat) : v.references x =
      View.references { v with main := .releaseEvent e rest, pool := pool } x + if b = x then 1 else 0 := by
    simp only [View.references,unreturned,pc,List.countP_append,List.countP_cons,refers,decide_eq_true_eq]
    omega
  have appended := valid.pushed (Nat.add_pos_right _ (events.reference pc)) pushed
  intro x
  have places := valid x
  rw [references] at places
  simp only [appended,List.count_append,List.count_singleton,beq_iff_eq] at places ⊢
  omega

theorem Buffers.move (valid : Buffers cfg v) (events : Events cfg v) (sound : Sound cfg v.io v.s)
    (move : Move cfg True v v') : Buffers cfg v' := by
  cases move with
  | acquire idle fresh =>
    refine valid.keep rfl (fun _ => rfl) fun b => ?_
    simp only [View.references,unreturned,idle,fresh trivial,Bool.false_eq_true,if_false]
    rfl
  | acquireNone pc none' =>
    obtain ⟨-,acquired,updates⟩ := events.waiting _ pc
    refine valid.keep rfl (fun _ => rfl) fun b => ?_
    simp only [View.references,unreturned,pc,acquired,updates,if_true]
  | acquired pc some' items =>
    obtain ⟨-,acquired,-⟩ := events.waiting _ pc
    refine valid.keep rfl (fun _ => rfl) fun b => ?_
    simp only [View.references,unreturned,pc,acquired,items,if_true,List.countP_append,List.countP_nil]
    exact Nat.add_comm ..
  | release idle acquired =>
    obtain ⟨flag,same⟩ := releaseNext_frame v.s v.s.eventUpdates
    have refers (b : Nat) : (releaseNext v.s v.s.eventUpdates).2.refers b = v.s.refers b := by rw [same]; rfl
    refine valid.keep rfl (fun _ => by simp only [same]) fun b => ?_
    simp only [View.references,refers,List.countP_append,releaseNext_references]
    simp only [unreturned,idle,acquired,if_true]
  | releasePool pc pushed => exact valid.releasePool events pc (pushed trivial)
  | @releaseEvent e rest free pc pushed =>
    obtain ⟨flag,same⟩ := releaseNext_frame v.s rest
    have refers (b : Nat) : (releaseNext v.s rest).2.refers b = v.s.refers b := by rw [same]; rfl
    refine valid.keep rfl (fun _ => by simp only [same]) fun b => ?_
    simp only [View.references,refers,List.countP_append,releaseNext_references]
    simp only [unreturned,pc]
  | connection failure idle =>
    exact valid.quiet (onConnection_quiet failure v.s).1 (onConnection_sameBuffers sound failure)
  | @alloc h c idle serves =>
    refine valid.quiet (onRecvAlloc_quiet h c v.s).1 fun _ => ?_
    unfold onRecvAlloc
    split <;> rfl
  | read idle owns open' pending ran => exact valid.quiet (onRecv_quiet ran).1 (onRecv_sameBuffers ran)
  | @close h idle closing alive => exact valid.quiet (onClose_quiet h v.s).1 (onClose_sameBuffers h v.s)
  | popEvent asked free => exact valid.popEvent events asked free
  | popNone asked free =>
    refine valid.quiet (popNone_effect asked v.s).2.2.2 (resumeIo_sameBuffers v.io _ v.s ?_ ?_ (by simp))
    · intro h c pc
      simp [pc,request] at asked
    · intro h c b pc
      simp [pc,request] at asked
  | pushReady asked room => exact valid.pushReady events sound asked
  | pushFull asked full =>
    refine valid.quiet (pushFull_effect asked v.s).2.2.2 (resumeIo_sameBuffers v.io _ v.s ?_ ?_ (by simp))
    · intro h c pc
      simp [pc,request] at asked
    · intro h c b pc
      simp [pc,request] at asked
  | poolPop pc taken => exact valid.poolPop sound pc (taken trivial)
  | poolNone pc => exact valid.quiet ⟨rfl,rfl,rfl,rfl,rfl⟩ fun _ => rfl
  | poolPush pc pushed => exact valid.poolPush sound pc (pushed trivial)

end

end Tcpeen.Receive
