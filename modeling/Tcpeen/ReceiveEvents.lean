import Tcpeen.ReceiveMoves

/-! Where the events are, and that what is delivered is what was queued. -/
namespace Tcpeen.Receive

open SplitOperation QueueSpsc

/-- Events of the batch that the main thread has not put back. -/
def heldEvents (main : MainPc) (s : State) : List Nat :=
  match main with
  | .releasePool e _ rest | .releaseEvent e rest => e :: rest
  | .acquire _ => []
  | .idle => if s.acquired then s.eventUpdates else []

/-- The event a callback has taken from the free queue. -/
def handEvents : IoPc → List Nat
  | .connectPush _ _ e _ | .recvPush _ _ e | .closeReady _ _ e => [e]
  | _ => []

/-- What a callback has written into the event in its hand. -/
def Marked (s : State) : IoPc → Prop
  | .connectPush h c e _ => s.notice e = ⟨.clientOpen, c, h⟩
  | .recvPush h c e => s.notice e = ⟨.clientRead, c, h⟩ ∧
      (s.events e).tnBuffer = (s.clientMap c).readBuffer ∧
      ∀ b, (s.clientMap c).readBuffer = some b → s.payload e = (s.buffers b).unread
  | .closeReady h c e => s.notice e = ⟨.clientClose, c, h⟩
  | _ => True

/-- Every event is in one place at most, and the log is what was delivered and is ready. -/
structure Events (cfg : Config) (v : View) : Prop where
  places : ∀ e, v.free.count e + v.ready.count e + (heldEvents v.main v.s).count e +
    (handEvents v.io).count e ≤ if e < 2 ^ cfg.bits then 1 else 0
  waiting : ∀ limit, v.main = .acquire limit →
    limit = BitVec.ofNat 64 cfg.bufferCount ∧ v.s.acquired = true ∧ v.s.eventUpdates = []
  returning : ∀ e b rest, v.main = .releasePool e b rest →
    (v.s.events e).type = .clientRead ∧ (v.s.events e).tnBuffer = some b
  marked : Marked v.s v.io
  log : v.s.delivered.map (·.notice) ++ v.ready.map v.s.notice = v.s.queued

/-- A step of the IO thread that touches no event. -/
structure Quiet (s s' : State) : Prop where
  events : s'.events = s.events
  queued : s'.queued = s.queued
  updates : s'.eventUpdates = s.eventUpdates
  acquired : s'.acquired = s.acquired
  delivered : s'.delivered = s.delivered

section

variable {s : State}

theorem onConnection_quiet (failure : Option ConnectStep) (s : State) :
    Quiet s (onConnection failure s).2 ∧ handEvents (onConnection failure s).1 = [] ∧
      Marked (onConnection failure s).2 (onConnection failure s).1 := by
  unfold onConnection
  split
  iterate 4 exact ⟨⟨rfl,rfl,rfl,rfl,rfl⟩,rfl,trivial⟩
  split
  · exact ⟨⟨rfl,rfl,rfl,rfl,rfl⟩,rfl,trivial⟩
  · split <;> exact ⟨⟨rfl,rfl,rfl,rfl,rfl⟩,rfl,trivial⟩

theorem onRecvAlloc_quiet (h c : Nat) (s : State) :
    Quiet s (onRecvAlloc h c s).2 ∧ handEvents (onRecvAlloc h c s).1 = [] ∧
      Marked (onRecvAlloc h c s).2 (onRecvAlloc h c s).1 := by
  unfold onRecvAlloc
  split <;> exact ⟨⟨rfl,rfl,rfl,rfl,rfl⟩,rfl,trivial⟩

theorem onRecv_quiet {h c : Nat} {buf : UvBuf} {result : ReadResult} {r : IoPc × State}
    (ran : onRecv h c buf result s = some r) :
    Quiet s r.2 ∧ handEvents r.1 = [] ∧ Marked r.2 r.1 := by
  unfold onRecv at ran
  split at ran
  · obtain rfl := Option.some.inj ran
    exact ⟨⟨rfl,rfl,rfl,rfl,rfl⟩,rfl,trivial⟩
  · obtain rfl := Option.some.inj ran
    exact ⟨⟨rfl,rfl,rfl,rfl,rfl⟩,rfl,trivial⟩
  · split at ran
    · contradiction
    · split at ran
      · contradiction
      · obtain rfl := Option.some.inj ran
        unfold onRecvData
        split
        · exact ⟨⟨rfl,rfl,rfl,rfl,rfl⟩,rfl,trivial⟩
        · split <;> exact ⟨⟨rfl,rfl,rfl,rfl,rfl⟩,rfl,trivial⟩

theorem onClose_quiet (h : Nat) (s : State) :
    Quiet s (onClose h s).2 ∧ handEvents (onClose h s).1 = [] ∧ Marked (onClose h s).2 (onClose h s).1 := by
  unfold onClose
  split
  · exact ⟨⟨rfl,rfl,rfl,rfl,rfl⟩,rfl,trivial⟩
  · simp only
    split <;> exact ⟨⟨rfl,rfl,rfl,rfl,rfl⟩,rfl,trivial⟩

/-- A callback that gets an event writes into that one only. -/
theorem popEvent_effect {pc : IoPc} (asked : request .io pc = some (.eventsFree, .popBack)) (e : Nat)
    (s : State) :
    handEvents pc = [] ∧
      (handEvents (resumeIo pc (.success [e]) s).1 = [e] ∨ handEvents (resumeIo pc (.success [e]) s).1 = []) ∧
      Marked (resumeIo pc (.success [e]) s).2 (resumeIo pc (.success [e]) s).1 ∧
      ∃ event, Quiet (s.setEvent e event) (resumeIo pc (.success [e]) s).2 := by
  cases pc <;> simp only [request,reduceCtorEq,Option.some.injEq,Prod.mk.injEq,and_false,false_and] at asked
  case connectPop h c failure =>
    refine ⟨rfl,?_⟩
    simp only [resumeIo]
    split
    · exact ⟨.inr rfl,trivial,_,⟨rfl,rfl,rfl,rfl,rfl⟩⟩
    · exact ⟨.inl rfl,by simp [Marked,State.notice,State.setEvent],_,⟨rfl,rfl,rfl,rfl,rfl⟩⟩
  case recvPop h c =>
    refine ⟨rfl,?_⟩
    simp only [resumeIo]
    split
    · next b buffer =>
      refine ⟨.inl rfl,?_,_,⟨rfl,rfl,rfl,rfl,rfl⟩⟩
      simp only [Marked,State.notice,State.payload,State.setEvent,Function.update_self,buffer,true_and]
      intro b' same
      cases same
      rfl
    · refine ⟨.inr rfl,trivial,s.events e,?_,rfl,rfl,rfl,rfl⟩
      simp [State.setEvent]
  case closePop h c =>
    exact ⟨rfl,.inl rfl,by simp [resumeIo,Marked,State.notice,State.setEvent],_,⟨rfl,rfl,rfl,rfl,rfl⟩⟩

theorem popNone_effect {pc : IoPc} (asked : request .io pc = some (.eventsFree, .popBack)) (s : State) :
    handEvents pc = [] ∧ handEvents (resumeIo pc .empty s).1 = [] ∧
      Marked (resumeIo pc .empty s).2 (resumeIo pc .empty s).1 ∧ Quiet s (resumeIo pc .empty s).2 := by
  cases pc <;> simp only [request,reduceCtorEq,Option.some.injEq,Prod.mk.injEq,and_false,false_and] at asked
  all_goals exact ⟨rfl,rfl,trivial,⟨rfl,rfl,rfl,rfl,rfl⟩⟩

theorem pushReady_effect {pc : IoPc} {e : Nat} (asked : request .io pc = some (.eventsReady, .push e))
    (s : State) :
    handEvents pc = [e] ∧ handEvents (resumeIo pc (.success []) s).1 = [] ∧
      Marked (resumeIo pc (.success []) s).2 (resumeIo pc (.success []) s).1 ∧
      Quiet (s.announce e) (resumeIo pc (.success []) s).2 := by
  cases pc <;> simp only [request,reduceCtorEq,Option.some.injEq,Prod.mk.injEq,and_false,false_and,
    Op.push.injEq,true_and] at asked
  case connectPush h c e' failure =>
    subst asked
    refine ⟨rfl,rfl,trivial,?_⟩
    simp only [resumeIo]
    split <;> exact ⟨rfl,rfl,rfl,rfl,rfl⟩
  all_goals
    subst asked
    exact ⟨rfl,rfl,trivial,⟨rfl,rfl,rfl,rfl,rfl⟩⟩

theorem pushFull_effect {pc : IoPc} {e : Nat} (asked : request .io pc = some (.eventsReady, .push e))
    (s : State) :
    handEvents pc = [e] ∧ handEvents (resumeIo pc .full s).1 = [] ∧
      Marked (resumeIo pc .full s).2 (resumeIo pc .full s).1 ∧ Quiet s (resumeIo pc .full s).2 := by
  cases pc <;> simp only [request,reduceCtorEq,Option.some.injEq,Prod.mk.injEq,and_false,false_and,
    Op.push.injEq,true_and] at asked
  all_goals
    subst asked
    exact ⟨rfl,rfl,trivial,⟨rfl,rfl,rfl,rfl,rfl⟩⟩

theorem releaseNext_held (s : State) (l : List Nat) :
    heldEvents (releaseNext s l).1 (releaseNext s l).2 = l := by
  unfold releaseNext
  split
  · rfl
  · split <;> rfl

theorem releaseNext_returning (s : State) (l : List Nat) (e b : Nat) (rest : List Nat)
    (returning : (releaseNext s l).1 = .releasePool e b rest) :
    (s.events e).type = .clientRead ∧ (s.events e).tnBuffer = some b := by
  unfold releaseNext at returning
  split at returning
  · cases returning
  · split at returning
    · next type buffer =>
      cases returning
      exact ⟨type,buffer⟩
    · cases returning

theorem releaseNext_not_acquire (s : State) (l : List Nat) (limit : Word) :
    (releaseNext s l).1 ≠ .acquire limit := by
  unfold releaseNext
  split
  · simp
  · split <;> simp

theorem Quiet.held {s s' : State} (quiet : Quiet s s') (main : MainPc) :
    heldEvents main s' = heldEvents main s := by
  cases main <;> simp [heldEvents,quiet.acquired,quiet.updates]

theorem Quiet.notice {s s' : State} (quiet : Quiet s s') : s'.notice = s.notice := by
  funext e
  simp [State.notice,quiet.events]

end

section Step

variable {cfg : Config} {sure : Prop} {v v' : View}

/-- A step of the IO thread that leaves the events alone. -/
theorem Events.quiet (valid : Events cfg v) {io : IoPc} {s : State} (quiet : Quiet v.s s)
    (hand : ∀ e, (handEvents io).count e ≤ (handEvents v.io).count e) (marked : Marked s io)
    (pool : List Nat) : Events cfg { v with io := io, s := s, pool := pool } where
  places := by
    intro e
    have places := valid.places e
    have hand := hand e
    simp only [quiet.held]
    omega
  waiting := by simpa only [quiet.acquired,quiet.updates] using valid.waiting
  returning := by simpa only [quiet.events] using valid.returning
  marked := marked
  log := by simpa only [quiet.delivered,quiet.notice,quiet.queued] using valid.log

/-- An event that has been in the free queue is nowhere else. -/
theorem Events.free_only (valid : Events cfg v) {e : Nat} {rest : List Nat} (free : v.free = e :: rest) :
    e < 2 ^ cfg.bits ∧ rest.count e = 0 ∧ v.ready.count e = 0 ∧ (heldEvents v.main v.s).count e = 0 := by
  have places := valid.places e
  rw [free,List.count_cons_self] at places
  split at places <;> omega

theorem setEvent_notice_of_ne {s : State} {e e' : Nat} (event : Event) (different : e' ≠ e) :
    (s.setEvent e event).notice e' = s.notice e' := by
  simp [State.notice,State.setEvent,Function.update_of_ne different]

theorem Events.popEvent (valid : Events cfg v) {e : Nat} {rest : List Nat}
    (asked : request .io v.io = some (.eventsFree, .popBack)) (free : v.free = e :: rest) :
    Events cfg { v with io := (resumeIo v.io (.success [e]) v.s).1
                        s := (resumeIo v.io (.success [e]) v.s).2, free := rest } := by
  obtain ⟨before,after,marked,event,quiet⟩ := popEvent_effect asked e v.s
  obtain ⟨inside,-,notReady,notHeld⟩ := valid.free_only free
  have held : heldEvents v.main (resumeIo v.io (.success [e]) v.s).2 = heldEvents v.main v.s :=
    quiet.held v.main
  refine ⟨?_,?_,?_,marked,?_⟩
  · intro x
    have places := valid.places x
    rw [free,before,List.count_cons] at places
    simp only [held]
    rcases after with after | after <;> rw [after] <;>
      simp only [List.count_cons,List.count_nil,beq_iff_eq] at places ⊢ <;> omega
  · intro limit pc
    have := valid.waiting limit pc
    rw [quiet.acquired,quiet.updates]
    exact this
  · intro e' b rest' pc
    have different : e' ≠ e := by
      rintro rfl
      rw [show v.main = .releasePool e' b rest' from pc] at notHeld
      simp [heldEvents] at notHeld
    rw [quiet.events]
    simp only [State.setEvent,Function.update_of_ne different]
    exact valid.returning e' b rest' pc
  · have same : v.ready.map (resumeIo v.io (.success [e]) v.s).2.notice = v.ready.map v.s.notice := by
      apply List.map_congr_left
      intro e' member
      rw [quiet.notice]
      apply setEvent_notice_of_ne
      rintro rfl
      exact absurd (List.count_pos_iff.mpr member) (by omega)
    simp only [same,quiet.delivered,quiet.queued]
    exact valid.log

theorem Events.pushReady (valid : Events cfg v) {e : Nat}
    (asked : request .io v.io = some (.eventsReady, .push e)) :
    Events cfg { v with io := (resumeIo v.io (.success []) v.s).1
                        s := (resumeIo v.io (.success []) v.s).2, ready := v.ready ++ [e] } := by
  obtain ⟨before,after,marked,quiet⟩ := pushReady_effect asked v.s
  refine ⟨?_,?_,?_,marked,?_⟩
  · intro x
    have places := valid.places x
    have held : heldEvents v.main (resumeIo v.io (.success []) v.s).2 = heldEvents v.main v.s :=
      quiet.held v.main
    simp only [held,after,before,List.count_append,List.count_nil] at places ⊢
    omega
  · intro limit pc
    have := valid.waiting limit pc
    rw [quiet.acquired,quiet.updates]
    exact this
  · intro e' b rest pc
    rw [quiet.events]
    exact valid.returning e' b rest pc
  · have log := valid.log
    have notice : (resumeIo v.io (.success []) v.s).2.notice = v.s.notice := quiet.notice
    simp only [notice,quiet.delivered,quiet.queued,List.map_append,← List.append_assoc]
    simp only [State.announce,log,List.map_cons,List.map_nil]

/-- The main thread takes nothing but puts back what it holds. -/
theorem Events.releaseNext (valid : Events cfg v) {l free : List Nat}
    (places : ∀ e, free.count e + v.ready.count e + l.count e + (handEvents v.io).count e ≤
      if e < 2 ^ cfg.bits then 1 else 0) :
    Events cfg { v with main := (releaseNext v.s l).1, s := (releaseNext v.s l).2, free := free } := by
  obtain ⟨acquired,same⟩ := releaseNext_frame v.s l
  refine ⟨?_,?_,?_,?_,?_⟩
  · simpa only [releaseNext_held] using places
  · intro limit pc
    exact absurd pc (releaseNext_not_acquire v.s l limit)
  · intro e b rest pc
    have := releaseNext_returning v.s l e b rest pc
    simp only [same]
    exact this
  · have marked := valid.marked
    simp only [same]
    exact marked
  · have log := valid.log
    simp only [same]
    exact log

theorem Events.move (valid : Events cfg v) (move : Move cfg sure v v') : Events cfg v' := by
  have ioStep {io : IoPc} {s : State} (pool : List Nat)
      (effect : Quiet v.s s ∧ handEvents io = [] ∧ Marked s io) :
      Events cfg { v with io := io, s := s, pool := pool } :=
    valid.quiet effect.1 (by simp [effect.2.1]) effect.2.2 pool
  cases move with
  | acquire idle _ =>
    refine ⟨?_,fun _ same => ⟨(MainPc.acquire.inj same).symm,rfl,rfl⟩,by simp,valid.marked,valid.log⟩
    intro e
    have places := valid.places e
    simp only [heldEvents,List.count_nil] at places ⊢
    omega
  | acquireNone pc none' =>
    obtain ⟨-,acquired,updates⟩ := valid.waiting _ pc
    refine ⟨?_,by simp,by simp,valid.marked,valid.log⟩
    intro e
    have places := valid.places e
    simp only [heldEvents,pc,acquired,updates,if_true,List.count_nil] at places ⊢
    omega
  | acquired pc some' items =>
    obtain ⟨-,acquired,-⟩ := valid.waiting _ pc
    refine ⟨?_,by simp,by simp,valid.marked,?_⟩
    · intro e
      have places := valid.places e
      simp only [heldEvents,pc,acquired,if_true,items,List.count_append,List.count_nil] at places ⊢
      omega
    · have log := valid.log
      rw [items,List.map_append] at log
      rw [← log,List.map_append,List.map_map,List.append_assoc]
      rfl
  | release idle acquired =>
    apply valid.releaseNext
    intro e
    have places := valid.places e
    simpa only [heldEvents,idle,acquired,if_true] using places
  | releasePool pc _ =>
    refine ⟨?_,by simp,by simp,valid.marked,valid.log⟩
    intro e
    have places := valid.places e
    simpa only [heldEvents,pc] using places
  | releaseEvent pc pushed =>
    apply valid.releaseNext
    intro e
    have places := valid.places e
    simp only [heldEvents,pc,List.count_cons] at places
    rcases pushed with ⟨_,rfl⟩ | ⟨_,rfl⟩
    · simp only [List.count_append,List.count_cons,List.count_nil]
      omega
    · omega
  | connection failure idle => exact ioStep v.pool (onConnection_quiet failure v.s)
  | alloc idle serves => exact ioStep v.pool (onRecvAlloc_quiet _ _ v.s)
  | read idle owns open' pending ran => exact ioStep v.pool (onRecv_quiet ran)
  | close idle closing alive => exact ioStep v.pool (onClose_quiet _ v.s)
  | popEvent asked free => exact valid.popEvent asked free
  | popNone asked free =>
    obtain ⟨-,after,marked,quiet⟩ := popNone_effect asked v.s
    exact ioStep v.pool ⟨quiet,after,marked⟩
  | pushReady asked room => exact valid.pushReady asked
  | pushFull asked full =>
    obtain ⟨-,after,marked,quiet⟩ := pushFull_effect asked v.s
    exact ioStep v.pool ⟨quiet,after,marked⟩
  | poolPop pc taken => exact ioStep _ ⟨⟨rfl,rfl,rfl,rfl,rfl⟩,rfl,trivial⟩
  | poolNone pc => exact ioStep _ ⟨⟨rfl,rfl,rfl,rfl,rfl⟩,rfl,trivial⟩
  | poolPush pc pushed => exact ioStep _ ⟨⟨rfl,rfl,rfl,rfl,rfl⟩,rfl,trivial⟩

/-- The ready queue has room for the event in the hand of a callback. -/
theorem Events.room (valid : Events cfg v) {e : Nat}
    (asked : request .io v.io = some (.eventsReady, .push e)) : v.ready.length < 2 ^ cfg.bits := by
  obtain ⟨hand,-⟩ := pushReady_effect asked v.s
  have each (x : Nat) : v.ready.count x ≤ if x < 2 ^ cfg.bits then 1 else 0 := by
    have := valid.places x
    omega
  have here := valid.places e
  rw [hand,List.count_singleton_self] at here
  have small : e < 2 ^ cfg.bits := by
    by_contra outside
    rw [if_neg outside] at here
    omega
  rw [if_pos small] at here
  exact Counting.length_lt each small (by omega)

end Step

end Tcpeen.Receive
