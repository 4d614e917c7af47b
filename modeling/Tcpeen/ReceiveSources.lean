import Tcpeen.ReceiveHandles
import Tcpeen.ReceiveSessions

/-! Whose event an event is. A handle keeps its channel for good and never comes back from
uv_close, so as long as a channel keeps its first connection every event names the
connection that the channel has. -/
namespace Tcpeen.Receive

open SplitOperation QueueSpsc

/-- uv_close was called on the handle. -/
def Ended (s : State) (h : Nat) : Prop := (s.handles h).closing = true ∨ (s.handles h).freed = true

/-- What a step leaves of the handles that exist. -/
structure Keeps (s s' : State) : Prop where
  count : s.handleCount ≤ s'.handleCount
  data : ∀ h < s.handleCount, (s'.handles h).data = (s.handles h).data
  ended : ∀ h < s.handleCount, Ended s h → Ended s' h

section Keeps

variable {s s' : State}

theorem Follows.keeps (follows : Follows s s') : Keeps s s' where
  count := follows.count.ge
  data := fun h _ => follows.data h
  ended := fun h _ => Or.imp (follows.closing h) (follows.freed h)

/-- Nor does the log or the free list matter. -/
theorem Keeps.same (keeps : Keeps s s') {s'' : State} (count : s''.handleCount = s'.handleCount)
    (handles : s''.handles = s'.handles) : Keeps s s'' := by
  refine ⟨by rw [count]; exact keeps.count,?_,?_⟩
  · simpa only [handles] using keeps.data
  · simpa only [Ended,handles] using keeps.ended

theorem Keeps.trans (first : Keeps s s') {s'' : State} (second : Keeps s' s'') : Keeps s s'' where
  count := first.count.trans second.count
  data := fun h named => (second.data h (named.trans_le first.count)).trans (first.data h named)
  ended := fun h named done => second.ended h (named.trans_le first.count) (first.ended h named done)

theorem keeps_newHandle (handle : Handle) : Keeps s (s.newHandle handle) := by
  have old (h : Nat) (named : h < s.handleCount) : (s.newHandle handle).handles h = s.handles h :=
    Function.update_of_ne (Nat.ne_of_lt named) ..
  refine ⟨Nat.le_succ _,?_,?_⟩
  · intro h named
    rw [old h named]
  · intro h named
    rw [Ended,Ended,old h named]
    exact id

theorem onConnection_keeps (failure : Option ConnectStep) (s : State) : Keeps s (onConnection failure s).2 := by
  unfold onConnection
  split
  iterate 3 exact (Follows.refl s).keeps
  · exact keeps_newHandle _
  · split
    · exact keeps_newHandle _
    · next c freed popped =>
      have attached : Keeps s (({ s with clientListFree := freed }.newHandle
          ⟨some c,false,false,none⟩).setChannel c ⟨some s.handleCount,none,.open⟩) :=
        (keeps_newHandle (s := s) ⟨some c,false,false,none⟩).same rfl rfl
      split <;> first | exact attached.trans (follows_closeChannel _ _).keeps | exact attached

theorem resumeIo_keeps (pc : IoPc) (res : Res Nat) (s : State) : Keeps s (resumeIo pc res s).2 := by
  have stays : Keeps s s := (Follows.refl s).keeps
  have closes (h c : Nat) : Keeps s (s.closeChannel h c) := (follows_closeChannel h c).keeps
  have then' {s' s'' : State} (follows : Follows s' s'') (count : s'.handleCount = s.handleCount)
      (handles : s'.handles = s.handles) : Keeps s s'' := (stays.same count handles).trans follows.keeps
  unfold resumeIo
  split
  · exact stays
  · simp only
    split
    · exact then' (follows_closeChannel _ _) rfl rfl
    · exact stays.same rfl rfl
  · exact closes _ _
  · simp only
    split
    · exact then' (follows_closeChannel _ _) rfl rfl
    · exact stays.same rfl rfl
  · exact closes _ _
  · exact then' (follows_answer _ _) rfl rfl
  · exact (follows_answer _ _).keeps
  · split
    · exact stays.same rfl rfl
    · exact stays
  iterate 5 exact stays.same rfl rfl
  · exact (follows_free _).keeps
  · exact then' (follows_free _) rfl rfl
  · exact then' (follows_free _) rfl rfl

end Keeps

section Step

variable {cfg : Config} {sure : Prop} {v v' : View}

theorem move_keeps (move : Move cfg sure v v') : Keeps v.s v'.s := by
  have stays : Keeps v.s v.s := (Follows.refl v.s).keeps
  cases move with
  | acquire idle fresh => exact stays.same rfl rfl
  | acquireNone pc none' => exact stays
  | acquired pc some' items => exact stays.same rfl rfl
  | release idle acquired => exact (releaseNext_follows v.s _).keeps
  | releasePool pc pushed => exact stays
  | releaseEvent pc pushed => exact (releaseNext_follows v.s _).keeps
  | connection failure idle => exact onConnection_keeps failure v.s
  | alloc idle serves => exact (onRecvAlloc_follows _ _ v.s).keeps
  | read idle owns open' pending ran => exact (onRecv_follows ran).keeps
  | close idle closing alive => exact (onClose_follows _ v.s).keeps
  | popEvent asked free => exact resumeIo_keeps _ _ v.s
  | popNone asked free => exact resumeIo_keeps _ _ v.s
  | pushReady asked room => exact resumeIo_keeps _ _ v.s
  | pushFull asked full => exact resumeIo_keeps _ _ v.s
  | poolPop pc taken => exact resumeIo_keeps _ _ v.s
  | poolNone pc => exact resumeIo_keeps _ _ v.s
  | poolPush pc pushed => exact resumeIo_keeps _ _ v.s

/-- The log grows by the event that a callback pushes. -/
theorem move_queued (move : Move cfg sure v v') :
    v'.s.queued = v.s.queued ∨
      ∃ e, request .io v.io = some (.eventsReady, .push e) ∧ v'.s.queued = v.s.queued ++ [v.s.notice e] := by
  have released (l : List Nat) : (releaseNext v.s l).2.queued = v.s.queued := (releaseNext_follows v.s l).queued
  cases move with
  | acquire idle fresh => exact .inl rfl
  | acquireNone pc none' => exact .inl rfl
  | acquired pc some' items => exact .inl rfl
  | release idle acquired => exact .inl (released _)
  | releasePool pc pushed => exact .inl rfl
  | releaseEvent pc pushed => exact .inl (released _)
  | connection failure idle => exact .inl (onConnection_quiet failure v.s).1.queued
  | alloc idle serves => exact .inl (onRecvAlloc_quiet _ _ v.s).1.queued
  | read idle owns open' pending ran => exact .inl (onRecv_quiet ran).1.queued
  | close idle closing alive => exact .inl (onClose_quiet _ v.s).1.queued
  | popEvent asked free =>
    obtain ⟨-,-,-,event,quiet⟩ := popEvent_effect asked _ v.s
    exact .inl quiet.queued
  | popNone asked free => exact .inl (popNone_effect asked v.s).2.2.2.queued
  | @pushReady e asked room => exact .inr ⟨e,asked,(pushReady_effect asked v.s).2.2.2.queued⟩
  | pushFull asked full => exact .inl (pushFull_effect asked v.s).2.2.2.queued
  | poolPop pc taken => exact .inl rfl
  | poolNone pc => exact .inl rfl
  | poolPush pc pushed => exact .inl rfl

/-- The handle of a notice has the channel of the notice, and the channel has the handle. -/
def Attached (cfg : Config) (s : State) (n : Notice) : Prop :=
  n.source < s.handleCount ∧ (s.handles n.source).data = some n.clientId ∧
    (s.clientMap n.clientId).priv = some n.source ∧ n.clientId < cfg.clientsMax

def Sourced (cfg : Config) (s : State) : Prop := ∀ n ∈ s.queued, Attached cfg s n

theorem Sound.named_lt (sound : Sound cfg v.io v.s) {h c : Nat} (owns : v.s.Owns h c) : h < v.s.handleCount := by
  by_contra outside
  have freed := sound.named h (Nat.le_of_not_lt outside)
  rw [owns.1] at freed
  cases freed

/-- A callback pushes an event of the connection it serves. -/
theorem pushed_attached (events : Events cfg v) (sound : Sound cfg v.io v.s) {e : Nat}
    (asked : request .io v.io = some (.eventsReady, .push e)) : Attached cfg v.s (v.s.notice e) := by
  have attached {h c : Nat} {type : EventType} (owns : v.s.Owns h c) (notice : v.s.notice e = ⟨type,c,h⟩) :
      Attached cfg v.s (v.s.notice e) := by
    obtain ⟨inside,priv,-⟩ := sound.attached h c owns
    rw [notice]
    exact ⟨sound.named_lt owns,owns.2,priv,inside⟩
  have busy := sound.busy
  have marked := events.marked
  cases pc : v.io <;> rw [pc] at asked busy marked <;>
    simp only [request,reduceCtorEq,Option.some.injEq,Prod.mk.injEq,and_false,false_and,Op.push.injEq,
      true_and] at asked
  case connectPush h c e' failure =>
    subst asked
    exact attached busy.1.1 marked
  case recvPush h c e' =>
    subst asked
    exact attached busy.1.1 marked.1
  case closeReady h c e' =>
    subst asked
    exact attached busy.1.1 marked

theorem Sourced.move (sourced : Sourced cfg v.s) (events : Events cfg v) (sound : Sound cfg v.io v.s)
    (move : Move cfg sure v v')
    (priv : ∀ c h, (v.s.clientMap c).priv = some h → (v'.s.clientMap c).priv = some h) : Sourced cfg v'.s := by
  have keeps := move_keeps move
  have stays {n : Notice} (attached : Attached cfg v.s n) : Attached cfg v'.s n := by
    obtain ⟨named,data,owner,inside⟩ := attached
    exact ⟨named.trans_le keeps.count,(keeps.data _ named).trans data,priv _ _ owner,inside⟩
  intro n member
  rcases move_queued move with same | ⟨e,asked,same⟩
  · rw [same] at member
    exact stays (sourced n member)
  · rw [same] at member
    rcases List.mem_append.mp member with old | new
    · exact stays (sourced n old)
    · rw [List.mem_singleton.mp new]
      exact stays (pushed_attached events sound asked)

end Step

section Runs

variable {cfg : Config} {sure : Prop} {free : ListPtr Nat} {blocks : Nat → Nat → UInt8} {a : Abstract}

theorem atomic_recorded (built : ∃ data, clientListSetup data cfg.clientsMax = some free)
    (reach : Transition.Reachable (atomic cfg) (Orderly sure) (atomicInitial cfg free blocks) a) :
    ∃ closes, Recorded a.shared closes := by
  refine reach.invariant_with (fun a => Sound cfg (a.pcs .io) a.shared) (fun a => ∃ closes, Recorded a.shared closes)
    (fun _ reached => atomic_sound built (fun _ _ orderly => orderly) reached)
    ⟨[],start_recorded cfg free blocks⟩ ?_
  rintro a label a' sound ⟨closes,recorded⟩ - taken
  cases label with
  | act b =>
    obtain ⟨-,r,done,rfl⟩ := atomicStep_act_cases taken
    exact ⟨_,act_recorded recorded sound done⟩
  | op t choice =>
    obtain ⟨q,op,abs,res,-,-,rfl⟩ := atomicStep_op_cases taken
    exact ⟨_,resume_recorded recorded sound t res⟩
  | havoc t res =>
    obtain ⟨q,op,-,rfl⟩ := atomicStep_havoc_cases taken
    exact ⟨_,resume_recorded recorded sound t res⟩

end Runs

/-- An open channel is the channel of a connection that has not ended. -/
theorem Recorded.unended {cfg : Config} {pc : IoPc} {s : State} {closes : List Nat} (recorded : Recorded s closes)
    (sound : Sound cfg pc s) {h c : Nat} (open' : (s.clientMap c).state = .open)
    (priv : (s.clientMap c).priv = some h) : ¬ Ended s h := by
  obtain ⟨h',owns,unclosed⟩ := recorded.live c open'
  obtain rfl := Option.some.inj (priv.symm.trans (sound.attached h' c owns).2.1)
  rintro (closing | freed)
  · rw [unclosed] at closing
    cases closing
  · rw [owns.1] at freed
    cases freed

theorem Sound.ended {cfg : Config} {pc : IoPc} {s : State} (sound : Sound cfg pc s) {h c : Nat}
    (data : (s.handles h).data = some c) (shut : (s.clientMap c).state ≠ .open) : Ended s h := by
  by_contra alive
  simp only [Ended,not_or,Bool.not_eq_true] at alive
  exact shut (sound.opened h c ⟨alive.2,data⟩ alive.1)

end Tcpeen.Receive
