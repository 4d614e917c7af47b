import Tcpeen.ReceiveOwnership

/-! The notices about a client id form sessions: OPEN, any number of READ, CLOSE, all of
one connection, and every connection has at most one. -/
namespace Tcpeen.Receive

open SplitOperation QueueSpsc

/-- The notices of one connection from its OPEN to its CLOSE. -/
def session (c : Nat) (h reads : Nat) : List Notice :=
  ⟨.clientOpen, c, h⟩ :: List.replicate reads ⟨.clientRead, c, h⟩ ++ [⟨.clientClose, c, h⟩]

/-- Notices about an id, the connections whose session is complete, and the one whose
session goes on. -/
inductive Sessions (c : Nat) : List Notice → List Nat → Option Nat → Prop
  | start : Sessions c [] [] none
  | opened {l done h} : Sessions c l done none → h ∉ done →
      Sessions c (l ++ [⟨.clientOpen, c, h⟩]) done (some h)
  | read {l done h} : Sessions c l done (some h) →
      Sessions c (l ++ [⟨.clientRead, c, h⟩]) done (some h)
  | closed {l done h} : Sessions c l done (some h) →
      Sessions c (l ++ [⟨.clientClose, c, h⟩]) (done ++ [h]) none

/-- The part of a session that has been told. -/
def begun (c reads : Nat) : Option Nat → List Notice
  | none => []
  | some h => ⟨.clientOpen, c, h⟩ :: List.replicate reads ⟨.clientRead, c, h⟩

theorem Sessions.words {c : Nat} {l : List Notice} {done : List Nat} {current : Option Nat}
    (told : Sessions c l done current) :
    (done ++ current.toList).Nodup ∧ ∃ (complete : List (Nat × Nat)) (reads : Nat),
      complete.map Prod.fst = done ∧
      l = complete.flatMap (fun w => session c w.1 w.2) ++ begun c reads current := by
  induction told with
  | start => exact ⟨List.nodup_nil,[],0,rfl,rfl⟩
  | @opened l done h _ fresh ih =>
    obtain ⟨distinct,complete,reads,sources,rfl⟩ := ih
    refine ⟨?_,complete,0,sources,by simp [begun]⟩
    rw [Option.toList_none,List.append_nil] at distinct
    exact List.Nodup.append distinct (List.nodup_singleton h) (by simpa using fresh)
  | @read l done h _ ih =>
    obtain ⟨distinct,complete,reads,sources,rfl⟩ := ih
    refine ⟨distinct,complete,reads + 1,sources,?_⟩
    simp [begun,List.replicate_succ']
  | @closed l done h _ ih =>
    obtain ⟨distinct,complete,reads,sources,rfl⟩ := ih
    refine ⟨by simpa using distinct,complete ++ [(h,reads)],0,by simp [sources],?_⟩
    simp [begun,session]

/-- What has been told is the beginning of a list of sessions of different connections. -/
theorem Sessions.begins {c : Nat} {l : List Notice} {done : List Nat} {current : Option Nat}
    (told : Sessions c l done current) :
    ∃ sessions : List (Nat × Nat), (sessions.map Prod.fst).Nodup ∧
      l <+: sessions.flatMap fun w => session c w.1 w.2 := by
  obtain ⟨distinct,complete,reads,sources,rfl⟩ := told.words
  cases current with
  | none => exact ⟨complete,by simpa [sources] using distinct,by simp [begun]⟩
  | some h =>
    refine ⟨complete ++ [(h,reads)],by simpa [sources] using distinct,⟨.clientClose,c,h⟩ :: [],?_⟩
    simp [begun,session]

/-- Steps of the IO thread that attach no handle, return no channel and tell nothing. -/
structure Follows (s s' : State) : Prop where
  queued : s'.queued = s.queued
  count : s'.handleCount = s.handleCount
  list : s'.clientListFree = s.clientListFree
  priv : ∀ c, (s'.clientMap c).priv = (s.clientMap c).priv
  data : ∀ h, (s'.handles h).data = (s.handles h).data
  freed : ∀ h, (s.handles h).freed = true → (s'.handles h).freed = true
  closing : ∀ h, (s.handles h).closing = true → (s'.handles h).closing = true

section Follows

variable {s : State}

theorem Follows.same {s' : State} (queued : s'.queued = s.queued) (count : s'.handleCount = s.handleCount)
    (list : s'.clientListFree = s.clientListFree) (map : s'.clientMap = s.clientMap)
    (handles : s'.handles = s.handles) : Follows s s' := by
  refine ⟨queued,count,list,?_,?_,?_,?_⟩ <;> intro x <;> simp only [map,handles] <;> exact id

theorem Follows.refl (s : State) : Follows s s := .same rfl rfl rfl rfl rfl

theorem Follows.trans {s' s'' : State} (first : Follows s s') (second : Follows s' s'') : Follows s s'' where
  queued := second.queued.trans first.queued
  count := second.count.trans first.count
  list := second.list.trans first.list
  priv := fun c => (second.priv c).trans (first.priv c)
  data := fun h => (second.data h).trans (first.data h)
  freed := fun h done => second.freed h (first.freed h done)
  closing := fun h done => second.closing h (first.closing h done)

theorem follows_setHandle (h : Nat) (handle : Handle) (data : handle.data = (s.handles h).data)
    (freed : (s.handles h).freed = true → handle.freed = true)
    (closing : (s.handles h).closing = true → handle.closing = true) : Follows s (s.setHandle h handle) := by
  refine ⟨rfl,rfl,rfl,fun _ => rfl,?_,?_,?_⟩ <;> intro x <;>
    simp only [State.setHandle,Function.update_apply] <;> split <;> grind -linarith

theorem follows_setChannel (c : Nat) (channel : Channel) (priv : channel.priv = (s.clientMap c).priv) :
    Follows s (s.setChannel c channel) := by
  refine ⟨rfl,rfl,rfl,?_,fun _ => rfl,fun _ => id,fun _ => id⟩
  intro x
  simp only [State.setChannel,Function.update_apply]
  split
  · next same => rw [priv,same]
  · rfl

theorem follows_closeChannel (h c : Nat) : Follows s (s.closeChannel h c) := by
  have first : Follows s (s.setChannel c { s.clientMap c with state := .closing }) :=
    follows_setChannel c _ rfl
  exact first.trans (follows_setHandle h _ rfl (fun done => done) fun _ => rfl)

theorem follows_answer (h : Nat) (buf : Option UvBuf) : Follows s (s.answer h buf) :=
  follows_setHandle h _ rfl (fun done => done) fun done => done

theorem follows_free (h : Nat) : Follows s (s.free h) :=
  follows_setHandle h _ rfl (fun _ => rfl) fun done => done

theorem onRecvAlloc_follows (h c : Nat) (s : State) : Follows s (onRecvAlloc h c s).2 := by
  unfold onRecvAlloc
  split
  · exact .refl s
  · exact follows_answer h _

theorem onRecv_follows {h c : Nat} {buf : UvBuf} {result : ReadResult} {r : IoPc × State}
    (ran : onRecv h c buf result s = some r) : Follows s r.2 := by
  unfold onRecv at ran
  split at ran
  · obtain rfl := Option.some.inj ran
    exact follows_closeChannel h c
  · obtain rfl := Option.some.inj ran
    exact follows_answer h none
  · next bytes =>
    split at ran
    · contradiction
    · next b offset _ =>
      split at ran
      · contradiction
      · obtain rfl := Option.some.inj ran
        have arrived : Follows s ((s.answer h none).arrive h b offset bytes) :=
          (follows_answer h none).trans (.same rfl rfl rfl rfl rfl)
        unfold onRecvData
        split
        · exact arrived
        · split
          · exact arrived
          · exact arrived.trans (.same rfl rfl rfl rfl rfl)

theorem onRecv_pc {h c : Nat} {buf : UvBuf} {result : ReadResult} {r : IoPc × State}
    (ran : onRecv h c buf result s = some r) : r.1 = .idle ∨ r.1 = .recvPop h c := by
  unfold onRecv at ran
  split at ran
  · obtain rfl := Option.some.inj ran
    exact .inl rfl
  · obtain rfl := Option.some.inj ran
    exact .inl rfl
  · split at ran
    · contradiction
    · split at ran
      · contradiction
      · obtain rfl := Option.some.inj ran
        unfold onRecvData
        split
        · exact .inl rfl
        · split
          · exact .inl rfl
          · exact .inr rfl

theorem onClose_follows (h : Nat) (s : State) : Follows s (onClose h s).2 := by
  unfold onClose
  split
  · exact follows_free h
  · simp only
    split <;> exact follows_setChannel _ _ rfl

theorem releaseNext_follows (s : State) (l : List Nat) : Follows s (releaseNext s l).2 := by
  obtain ⟨acquired,same⟩ := releaseNext_frame s l
  rw [same]
  exact .same rfl rfl rfl rfl rfl

end Follows

/-- The callback is on its way to tell the OPEN of this connection. -/
def Connecting (h c : Nat) : IoPc → Prop
  | .connectPop h' c' _ | .connectPush h' c' _ _ => h' = h ∧ c' = c
  | _ => False

/-- Where a callback stands, an OPEN has not been told yet, or has and a CLOSE follows. -/
def Placed (current : Nat → Option Nat) : IoPc → Prop
  | .connectPop _ c _ | .connectPush _ c _ _ => current c = none
  | .closeReady h c _ => current c = some h
  | _ => True

/-- How the sessions go with the records. -/
structure Linked (done : Nat → List Nat) (current : Nat → Option Nat) (pc : IoPc) (s : State) : Prop where
  closed : ∀ c h, h ∈ done c → h < s.handleCount ∧ (s.handles h).freed = true
  running : ∀ c h, current c = some h → h < s.handleCount ∧ (s.handles h).data = some c ∧
    (s.clientMap c).priv = some h ∧ s.clientListFree.items.count c = 0
  reading : ∀ h c, s.Owns h c → (s.handles h).closing = false → current c = some h ∨ Connecting h c pc
  told : ∀ h c, s.Owns h c → ⟨.clientOpen, c, h⟩ ∈ s.queued → current c = some h
  sources : ∀ n ∈ s.queued, n.source < s.handleCount ∧ (s.handles n.source).data = some n.clientId
  placed : Placed current pc

section Linked

variable {cfg : Config} {done : Nat → List Nat} {current : Nat → Option Nat} {pc pc' : IoPc} {s s' : State}

theorem Linked.follow (linked : Linked done current pc s) (follows : Follows s s')
    (placed : Placed current pc')
    (connects : ∀ h c, Connecting h c pc → Connecting h c pc' ∨ (s'.handles h).closing = true) :
    Linked done current pc' s' := by
  obtain ⟨closed,running,reading,told,sources,-⟩ := linked
  obtain ⟨queued,count,list,priv,data,freed,closing⟩ := follows
  simp only [State.Owns] at reading told
  refine ⟨?_,?_,?_,?_,?_,placed⟩ <;> simp only [State.Owns,queued,count,list,priv,data] <;> grind -linarith

/-- A callback that gives up closes its channel. -/
theorem Linked.connect_close (linked : Linked done current pc s) {h c : Nat} (connecting : Connecting h c pc) :
    Linked done current .idle (s.closeChannel h c) := by
  refine linked.follow (follows_closeChannel h c) trivial ?_
  intro h' c' connecting'
  obtain rfl : h' = h := by
    cases pc <;> first | exact connecting.elim | exact connecting'.1.symm.trans connecting.1
  right
  simp [State.closeChannel,State.setHandle]

theorem Linked.rejected (linked : Linked done current pc s) (idle : pc = .idle) :
    Linked done current .idle (s.newHandle ⟨none,true,false,none⟩) := by
  obtain ⟨closed,running,reading,told,sources,-⟩ := linked
  simp only [State.Owns,idle,Connecting] at reading told
  refine ⟨?_,?_,?_,?_,?_,trivial⟩ <;>
    simp only [State.newHandle,State.setHandle,State.Owns,Function.update_apply,Connecting] <;>
    grind -linarith

/-- A channel that is free has no session. -/
theorem Linked.attach (linked : Linked done current pc s) (idle : pc = .idle) {c : Nat} {freed : ListPtr Nat}
    (failure : Option ConnectStep) (popped : s.clientListFree.popBack = some (c, freed)) :
    Linked done current (.connectPop s.handleCount c failure)
      (({ s with clientListFree := freed }.newHandle ⟨some c,false,false,none⟩).setChannel c
        ⟨some s.handleCount,none,.open⟩) := by
  obtain ⟨items,-⟩ := ListPtr.popBack_items popped
  have counts (x : Nat) : s.clientListFree.items.count x = freed.items.count x + if c = x then 1 else 0 := by
    rw [items,List.count_append,List.count_singleton]
    simp
  obtain ⟨closed,running,reading,told,sources,-⟩ := linked
  simp only [State.Owns,idle,Connecting,counts] at reading told running
  have fresh : current c = none := by
    rw [Option.eq_none_iff_forall_ne_some]
    intro h same
    have absent := (running c h same).2.2.2
    simp at absent
  refine ⟨?_,?_,?_,?_,?_,fresh⟩ <;>
    simp only [State.newHandle,State.setHandle,State.setChannel,State.Owns,Function.update_apply,Connecting] <;>
    grind -linarith

theorem onConnection_linked (linked : Linked done current pc s) (idle : pc = .idle)
    (failure : Option ConnectStep) :
    Linked done current (onConnection failure s).1 (onConnection failure s).2 := by
  have rejected := linked.rejected idle
  rw [idle] at linked
  unfold onConnection
  split
  · exact linked
  · exact linked
  · exact linked
  · exact rejected
  · split
    · exact rejected
    · next c freed popped =>
      have attached := linked.attach rfl failure popped
      have closes (h x : Nat) (connecting : Connecting h x (.connectPop s.handleCount c failure)) :=
        attached.connect_close connecting
      split <;> first | exact closes _ _ ⟨rfl,rfl⟩ | exact attached

/-- The notices about an id. -/
def State.about (s : State) (c : Nat) : List Notice := s.queued.filter fun n => n.clientId == c

def Telling (pc : IoPc) (s : State) : Prop :=
  ∃ done current, (∀ c, Sessions c (s.about c) (done c) (current c)) ∧ Linked done current pc s

theorem announce_about (s : State) {e c : Nat} {type : EventType} {h : Nat}
    (notice : s.notice e = ⟨type,c,h⟩) (x : Nat) :
    (s.announce e).about x = s.about x ++ if c = x then [⟨type,c,h⟩] else [] := by
  simp only [State.about,State.announce,notice,List.filter_append,List.filter_cons,List.filter_nil,
    beq_iff_eq]

theorem Telling.follow (telling : Telling pc s) (follows : Follows s s')
    (placed : ∀ done current, Linked done current pc s → Placed current pc')
    (connects : ∀ h c, Connecting h c pc → Connecting h c pc' ∨ (s'.handles h).closing = true) :
    Telling pc' s' := by
  obtain ⟨done,current,sessions,linked⟩ := telling
  refine ⟨done,current,?_,linked.follow follows (placed done current linked) connects⟩
  simpa only [State.about,follows.queued] using sessions

theorem Telling.opened (telling : Telling pc s) (sound : Sound cfg pc s) {h c e : Nat}
    (placed : ∀ done current, Linked done current pc s → current c = none) (owns : s.Owns h c)
    (connects : ∀ h' c', Connecting h' c' pc → h' = h ∧ c' = c)
    (notice : s.notice e = ⟨.clientOpen,c,h⟩) : Telling .idle (s.announce e) := by
  obtain ⟨done,current,sessions,linked⟩ := telling
  have none' := placed done current linked
  obtain ⟨closed,running,reading,told,sources,-⟩ := linked
  refine ⟨done,Function.update current c (some h),?_,?_⟩
  · intro x
    rw [announce_about s notice]
    by_cases same : c = x
    · subst same
      rw [if_pos rfl,Function.update_self]
      have before := sessions c
      rw [none'] at before
      refine before.opened ?_
      intro member
      have := (closed c h member).2
      rw [owns.1] at this
      cases this
    · rw [if_neg same,List.append_nil,Function.update_of_ne (Ne.symm same)]
      exact sessions x
  · have attached := sound.attached
    have named := sound.named
    simp only [State.Owns] at reading told attached owns
    refine ⟨?_,?_,?_,?_,?_,trivial⟩ <;>
      simp only [State.announce,State.Owns,Function.update_apply,notice,List.mem_append,
        List.mem_singleton,Connecting] <;>
      grind -linarith

theorem Telling.read (telling : Telling pc s) {h c e : Nat}
    (placed : ∀ done current, Linked done current pc s → current c = some h)
    (connects : ∀ h' c', ¬ Connecting h' c' pc)
    (notice : s.notice e = ⟨.clientRead,c,h⟩) : Telling .idle (s.announce e) := by
  obtain ⟨done,current,sessions,linked⟩ := telling
  have open' := placed done current linked
  obtain ⟨closed,running,reading,told,sources,-⟩ := linked
  refine ⟨done,current,?_,?_⟩
  · intro x
    rw [announce_about s notice]
    by_cases same : c = x
    · subst same
      rw [if_pos rfl]
      have before := sessions c
      rw [open'] at before ⊢
      exact before.read
    · rw [if_neg same,List.append_nil]
      exact sessions x
  · simp only [State.Owns] at reading told
    refine ⟨?_,?_,?_,?_,?_,trivial⟩ <;>
      simp only [State.announce,State.Owns,notice,List.mem_append,List.mem_singleton,Connecting] <;>
      grind -linarith

/-- The CLOSE is told, the channel goes back and the handle is freed. -/
theorem Telling.closed (telling : Telling pc s) (sound : Sound cfg pc s) {h c e : Nat}
    (placed : ∀ done current, Linked done current pc s → current c = some h)
    (serves : s.Serves h c true) (empty : (s.clientMap c).readBuffer = none)
    (connects : ∀ h' c', ¬ Connecting h' c' pc)
    (notice : s.notice e = ⟨.clientClose,c,h⟩) : Telling .idle (((s.announce e).listClose c).free h) := by
  obtain ⟨done,current,sessions,linked⟩ := telling
  have open' := placed done current linked
  obtain ⟨closed,running,reading,told,sources,-⟩ := linked
  have items := (sound.listClose serves empty).2
  have counts (x : Nat) : (s.listClose c).clientListFree.items.count x =
      s.clientListFree.items.count x + if c = x then 1 else 0 := by
    rw [items,List.count_append,List.count_singleton]
    simp
  refine ⟨Function.update done c (done c ++ [h]),Function.update current c none,?_,?_⟩
  · intro x
    change Sessions x ((s.announce e).about x) _ _
    rw [announce_about s notice]
    by_cases same : c = x
    · subst same
      rw [if_pos rfl,Function.update_self,Function.update_self]
      have before := sessions c
      rw [open'] at before
      exact before.closed
    · rw [if_neg same,List.append_nil,Function.update_of_ne (Ne.symm same),
        Function.update_of_ne (Ne.symm same)]
      exact sessions x
  · have attached := sound.attached
    have list : (((s.announce e).listClose c).free h).clientListFree = (s.listClose c).clientListFree := rfl
    obtain ⟨owns,-,-⟩ := serves
    simp only [State.Owns] at reading told attached owns
    refine ⟨?_,?_,?_,?_,?_,trivial⟩
    rotate_left
    · simp only [list,counts]
      simp only [State.announce,State.listClose,State.free,State.setHandle,Function.update_apply]
      grind -linarith
    all_goals
      simp only [State.announce,State.listClose,State.free,State.setHandle,State.Owns,
        Function.update_apply,notice,List.mem_append,List.mem_singleton,Connecting]
      grind -linarith

end Linked

section Step

variable {cfg : Config} {sure : Prop} {v v' : View}

/-- A step of a callback that is past its OPEN. -/
theorem Telling.later {pc pc' : IoPc} {s s' : State} (telling : Telling pc s) (follows : Follows s s')
    (connects : ∀ h c, ¬ Connecting h c pc) (placed : ∀ current, Placed current pc') : Telling pc' s' :=
  telling.follow follows (fun _ current _ => placed current) fun h c connecting => (connects h c connecting).elim

theorem Telling.stay {s' : State} (telling : Telling v.io v.s) (follows : Follows v.s s') : Telling v.io s' :=
  telling.follow follows (fun _ _ linked => linked.placed) fun _ _ connecting => .inl connecting

theorem Telling.popEvent (telling : Telling v.io v.s) (sound : Sound cfg v.io v.s) {e : Nat}
    (opened : ∀ h c, v.io = .closePop h c → ⟨.clientOpen,c,h⟩ ∈ v.s.queued)
    (asked : request .io v.io = some (.eventsFree, .popBack)) :
    Telling (resumeIo v.io (.success [e]) v.s).1 (resumeIo v.io (.success [e]) v.s).2 := by
  have busy := sound.busy
  cases pc : v.io <;> simp only [pc,request,reduceCtorEq,Option.some.injEq,Prod.mk.injEq,and_false,
    false_and] at asked
  case connectPop h c failure =>
    rw [pc] at telling
    have marked : Telling (.connectPop h c failure) (v.s.setEvent e
        { v.s.events e with type := .clientOpen, clientId := c, source := h }) :=
      telling.follow (.same rfl rfl rfl rfl rfl) (fun _ _ linked => linked.placed) fun _ _ => .inl
    simp only [resumeIo]
    split
    · obtain ⟨done,current,sessions,linked⟩ := marked
      exact ⟨done,current,sessions,linked.connect_close ⟨rfl,rfl⟩⟩
    · exact marked.follow (.refl _) (fun _ _ linked => linked.placed) fun _ _ => .inl
  case recvPop h c =>
    rw [pc] at telling
    simp only [resumeIo]
    split
    · exact telling.later (.same rfl rfl rfl rfl rfl) (fun _ _ => id) fun _ => trivial
    · exact telling.later (.refl _) (fun _ _ => id) fun _ => trivial
  case closePop h c =>
    rw [pc] at telling busy
    refine telling.follow (.same rfl rfl rfl rfl rfl) (fun _ _ linked => ?_) fun _ _ => False.elim
    exact linked.told h c busy.1.1 (opened h c pc)

theorem Telling.popNone (telling : Telling v.io v.s)
    (asked : request .io v.io = some (.eventsFree, .popBack)) :
    Telling (resumeIo v.io .empty v.s).1 (resumeIo v.io .empty v.s).2 := by
  cases pc : v.io <;> simp only [pc,request,reduceCtorEq,Option.some.injEq,Prod.mk.injEq,and_false,
    false_and] at asked
  case connectPop h c failure =>
    rw [pc] at telling
    obtain ⟨done,current,sessions,linked⟩ := telling
    exact ⟨done,current,sessions,linked.connect_close ⟨rfl,rfl⟩⟩
  case recvPop h c =>
    rw [pc] at telling
    exact telling.later (.refl _) (fun _ _ => id) fun _ => trivial
  case closePop h c =>
    rw [pc] at telling
    exact telling.later (follows_free h) (fun _ _ => id) fun _ => trivial

theorem Telling.pushReady (telling : Telling v.io v.s) (events : Events cfg v) (sound : Sound cfg v.io v.s)
    {e : Nat} (asked : request .io v.io = some (.eventsReady, .push e)) :
    Telling (resumeIo v.io (.success []) v.s).1 (resumeIo v.io (.success []) v.s).2 := by
  have busy := sound.busy
  have marked := events.marked
  cases pc : v.io <;> simp only [pc,request,reduceCtorEq,Option.some.injEq,Prod.mk.injEq,and_false,
    false_and] at asked
  case connectPush h c e' failure =>
    rw [pc] at telling sound busy marked
    have told : Telling .idle (v.s.announce e') :=
      telling.opened sound (fun _ _ linked => linked.placed) busy.1.1
        (fun _ _ connecting => ⟨connecting.1.symm,connecting.2.symm⟩) marked
    simp only [resumeIo]
    split
    · exact told.later (follows_closeChannel h c) (fun _ _ => id) fun _ => trivial
    · exact told
  case recvPush h c e' =>
    rw [pc] at telling busy marked
    have told : Telling .idle (v.s.announce e') := telling.read
      (fun _ _ linked => (linked.reading h c busy.1.1 busy.1.2.1).resolve_right id) (fun _ _ => id) marked.1
    exact told.later (follows_setChannel _ _ rfl) (fun _ _ => id) fun _ => trivial
  case closeReady h c e' =>
    rw [pc] at telling sound busy marked
    exact telling.closed sound (fun _ _ linked => linked.placed) busy.1 busy.2 (fun _ _ => id) marked

theorem Telling.move (telling : Telling v.io v.s) (events : Events cfg v) (sound : Sound cfg v.io v.s)
    (opened : ∀ h c, v.io = .closePop h c → v'.io ≠ v.io → v.free ≠ [] → ⟨.clientOpen,c,h⟩ ∈ v.s.queued)
    (move : Move cfg sure v v') : Telling v'.io v'.s := by
  cases move with
  | acquire idle _ => exact telling.stay (.same rfl rfl rfl rfl rfl)
  | acquireNone pc none' => exact telling
  | acquired pc some' items => exact telling.stay (.same rfl rfl rfl rfl rfl)
  | release idle acquired => exact telling.stay (releaseNext_follows _ _)
  | releasePool pc _ => exact telling
  | releaseEvent pc pushed => exact telling.stay (releaseNext_follows _ _)
  | connection failure idle =>
    obtain ⟨done,current,sessions,linked⟩ := telling
    refine ⟨done,current,?_,onConnection_linked linked idle failure⟩
    simpa only [State.about,(onConnection_quiet failure v.s).1.queued] using sessions
  | alloc idle serves =>
    rw [idle] at telling
    refine telling.later (onRecvAlloc_follows _ _ _) (fun _ _ => id) fun current => ?_
    unfold onRecvAlloc
    split <;> trivial
  | read idle owns open' pending ran =>
    rw [idle] at telling
    refine telling.later (onRecv_follows ran) (fun _ _ => id) fun current => ?_
    rcases onRecv_pc ran with pc | pc <;> rw [pc] <;> trivial
  | close idle closing alive =>
    rw [idle] at telling
    refine telling.later (onClose_follows _ _) (fun _ _ => id) fun current => ?_
    unfold onClose
    split
    · trivial
    · simp only
      split <;> trivial
  | popEvent asked free =>
    refine telling.popEvent sound (fun h c pc => opened h c pc ?_ (by simp [free])) asked
    rw [pc]
    exact IoPc.noConfusion
  | popNone asked free => exact telling.popNone asked
  | pushReady asked room => exact telling.pushReady events sound asked
  | pushFull asked full => exact absurd full (Nat.ne_of_lt (events.room asked))
  | @poolPop h c b pool pc taken =>
    rw [pc] at telling
    have reset : Follows v.s (v.s.setBuffer b (v.s.buffers b).reset) := .same rfl rfl rfl rfl rfl
    have held := reset.trans (follows_setChannel c { v.s.clientMap c with readBuffer := some b } rfl)
    exact telling.later (held.trans (follows_answer h _)) (fun _ _ => id) fun _ => trivial
  | poolNone pc =>
    rw [pc] at telling
    exact telling.later (follows_answer _ _) (fun _ _ => id) fun _ => trivial
  | poolPush pc pushed =>
    rw [pc] at telling
    exact telling.later (follows_setChannel _ _ rfl) (fun _ _ => id) fun _ => trivial

end Step

/-- A batch is not released twice. -/
def releasedOnce (s : Running) : SplitLabel Thread Act → Bool
  | .act .release => s.shared.acquired
  | _ => true

/-- A close callback finds no event for its notice, or the OPEN of its connection was queued. -/
def closesOpened (s : Running) : SplitLabel Thread Act → Bool
  | .tick .io =>
    match s.pcs .io, (tick .popBack (s.loc .io) (s.mem .eventsFree)).2 with
    | .closePop h c, .returned (.success _) => decide (⟨.clientOpen, c, h⟩ ∈ s.shared.queued)
    | _, _ => true
  | _ => true

/-- The same of a run with atomic queues. -/
def ClosesOpened (a : Abstract) : AtomicLabel Thread Act Nat (Res Nat) → Prop
  | .op .io _ => ∀ h c, a.pcs .io = .closePop h c → (a.abs .eventsFree).items ≠ [] →
      ⟨.clientOpen, c, h⟩ ∈ a.shared.queued
  | _ => True

/-- What the main thread has taken about an id begins a list of sessions of different
connections, and every event names the channel of its connection. -/
def InSessions (s : State) : Prop :=
  (∀ c, ∃ sessions : List (Nat × Nat), (sessions.map Prod.fst).Nodup ∧
    (s.delivered.map (·.notice)).filter (fun n => n.clientId == c) <+:
      sessions.flatMap fun w => session c w.1 w.2) ∧
  ∀ d ∈ s.delivered, (s.handles d.notice.source).data = some d.notice.clientId

theorem Telling.inSessions {cfg : Config} {v : View} (telling : Telling v.io v.s) (events : Events cfg v) :
    InSessions v.s := by
  obtain ⟨done,current,sessions,linked⟩ := telling
  have log := events.log
  constructor
  · intro c
    obtain ⟨complete,distinct,begins⟩ := (sessions c).begins
    refine ⟨complete,distinct,List.IsPrefix.trans ?_ begins⟩
    rw [State.about,← log,List.filter_append]
    exact List.prefix_append ..
  · intro d member
    refine (linked.sources d.notice ?_).2
    rw [← log]
    exact List.mem_append_left _ (List.mem_map_of_mem member)

theorem start_telling (cfg : Config) (free : ListPtr Nat) (blocks : Nat → Nat → UInt8) :
    Telling .idle (start cfg free blocks) := by
  refine ⟨fun _ => [],fun _ => none,fun _ => .start,?_⟩
  constructor <;> simp [start,State.Owns,Placed]

/-- The IO thread only moves by its own steps. -/
theorem io_moves {cfg : Config} {a a' : Abstract} {label : AtomicLabel Thread Act Nat (Res Nat)}
    (moved : (view a').io ≠ (view a).io) (taken : atomic cfg a label = some a') :
    (∃ b, label = .act b ∧ request .io (a.pcs .io) = none) ∨ (∃ choice, label = .op .io choice) ∨
      ∃ res, label = .havoc .io res := by
  cases label with
  | act b =>
    obtain ⟨free,r,-,rfl⟩ := atomicStep_act_cases taken
    simp only [machine] at free
    by_cases own : actor b = .io
    · rw [own] at free
      exact .inl ⟨b,rfl,free⟩
    · exact absurd (Function.update_of_ne (Ne.symm own) ..) moved
  | op t choice =>
    cases t with
    | io => exact .inr (.inl ⟨choice,rfl⟩)
    | main =>
      obtain ⟨q,op,f,res,-,-,rfl⟩ := atomicStep_op_cases taken
      exact absurd rfl moved
  | havoc t res =>
    cases t with
    | io => exact .inr (.inr ⟨res,rfl⟩)
    | main =>
      obtain ⟨q,op,-,rfl⟩ := atomicStep_havoc_cases taken
      exact absurd rfl moved

/-- Sessions survive an operation on a queue other than pool_read, and whatever pool_read does. -/
theorem atomic_telling {cfg : Config} {free : ListPtr Nat} {blocks : Nat → Nat → UInt8} {a : Abstract}
    (built : ∃ data, clientListSetup data cfg.clientsMax = some free)
    (reach : Transition.Reachable (atomic cfg)
      (fun a label => Orderly False a label ∧ ClosesOpened a label) (atomicInitial cfg free blocks) a) :
    Telling (view a).io (view a).s := by
  refine reach.invariant_with (fun a => Events cfg (view a) ∧ Sound cfg (view a).io (view a).s)
    (fun a => Telling (view a).io (view a).s)
    (fun _ reached => ⟨reachable_events (fun _ _ allowed => allowed.1) reached,
      atomic_sound built (fun _ _ allowed => allowed.1) reached⟩) (start_telling cfg free blocks) ?_
  rintro a label a' ⟨events,sound⟩ telling ⟨orderly,opened⟩ taken
  refine telling.move events sound ?_ (step_move orderly taken)
  intro h c pc moved some'
  have asked : request .io (a.pcs .io) = some (.eventsFree, .popBack) := by
    rw [show a.pcs .io = .closePop h c from pc]
    rfl
  rcases io_moves moved taken with ⟨b,rfl,free⟩ | ⟨choice,rfl⟩ | ⟨res,rfl⟩
  · rw [asked] at free
    cases free
  · exact opened h c pc some'
  · obtain ⟨-,op,pool⟩ := orderly
    rw [asked] at pool
    cases pool

theorem close_opened {cfg : Config} {s : Running} {h c : Nat} {res : Res Nat} {e : Nat}
    (opened : closesOpened s (.tick .io) = true)
    (returns : Returns (object QueueName Nat) (machine cfg) s .io res) (pc : s.pcs .io = .closePop h c)
    (given : res = .success [e]) : ⟨.clientOpen,c,h⟩ ∈ s.shared.queued := by
  obtain ⟨q,op,mem,asked,ticked⟩ := returns
  simp only [machine,pc,request,Option.some.injEq,Prod.mk.injEq] at asked
  obtain ⟨rfl,rfl⟩ := asked
  simp only [object,given] at ticked
  simpa [closesOpened,pc,ticked] using opened

/-- The events taken for an id are always the beginning of sessions, in every run whose
close callbacks tell only the end of connections whose OPEN was queued. -/
theorem events_in_sessions (cfg : Config) (free : ListPtr Nat) (mem : QueueName → Queue Nat)
    (ready : SetUp cfg free mem) (blocks : Nat → Nat → UInt8) (s : Running)
    (reach : Transition.Reachable (step cfg)
      (fun s label => releasedOnce s label = true ∧ closesOpened s label = true)
      (initial cfg free blocks mem) s) : InSessions s.shared := by
  obtain ⟨a,reached,related⟩ := refines (fun a label => Orderly False a label ∧ ClosesOpened a label)
    (setUp_related ready blocks fun q => q ≠ .poolRead)
    (fun a reached => (reachable_events (fun _ _ allowed => allowed.1) reached).safe _)
    (by
      rintro s t - q op asked tracked other op' different asked'
      rcases request_apart different asked asked' with sides | ⟨pool,-⟩
      · exact .inr sides
      · exact absurd pool tracked)
    (by
      rintro s a b related ⟨once,-⟩
      refine ⟨?_,trivial⟩
      cases b with
      | acquire => exact False.elim
      | release => simpa [releasedOnce,related.shared,Orderly] using once
      | _ => trivial)
    (by
      rintro s a t choice res q op abs related ⟨-,opened⟩ returns asked specified
      refine ⟨trivial,?_⟩
      cases t with
      | main => trivial
      | io =>
        intro h c pc some'
        simp only [machine,pc,request,Option.some.injEq,Prod.mk.injEq] at asked
        obtain ⟨rfl,rfl⟩ := asked
        rcases Fifo.popBack_cases specified with ⟨none',-⟩ | ⟨e,-,-,-,given⟩
        · exact absurd none' some'
        · rw [← related.shared]
          rw [← related.pcs] at pc
          exact close_opened opened returns pc given)
    (by
      rintro s a t res q op related - - asked outside
      obtain rfl := not_not.mp outside
      exact ⟨⟨not_false,op,asked⟩,trivial⟩)
    reach
  have telling := atomic_telling ready.list reached
  have events := reachable_events (fun _ _ allowed => allowed.1) reached
  rw [related.shared]
  exact telling.inSessions events

/-- A connection sends a byte and ends; the main thread takes its three events. -/
def sessionRun : List (SplitLabel Thread Act) :=
  connected ++ byteRead ++ .act (.read 0 .error) :: .act (.close 0) :: ioCall 12 ++ .act .acquire :: mainCall 6

theorem events_in_sessions_complete :
    ∃ s, Transition.execute (Transition.checked (step serviceConfig)
        (fun s label => releasedOnce s label && closesOpened s label)) sessionRun serviceStart = some s ∧
      s.shared.delivered.map (·.notice) = session 9999 0 1 ∧ InSessions s.shared := by
  have observed : (Transition.execute (Transition.checked (step serviceConfig)
      (fun s label => releasedOnce s label && closesOpened s label)) sessionRun serviceStart).map
        (fun s => s.shared.delivered.map (·.notice)) = some (session 9999 0 1) := by decide +kernel
  obtain ⟨s,run,taken⟩ := Option.map_eq_some_iff.mp observed
  refine ⟨s,run,taken,events_in_sessions serviceConfig _ _ serviceStart_setUp _ s (.of_checked ?_ run)⟩
  intro s label passed
  simpa using passed

/-- The peer is gone before `on_connection_cb` asks for its name. -/
def unopenedRun : List (SplitLabel Thread Act) :=
  .act (.connection (some .getpeername)) :: .act (.close 0) :: ioCall 8 ++ .act .acquire :: mainCall 4

/-- The close callback tells the end of a connection that nobody was told of. -/
theorem close_without_open :
    SetUp serviceConfig ⟨id,10000,10000⟩ serviceStart.mem ∧
      ∃ s, Transition.Reachable (step serviceConfig) (fun s label => releasedOnce s label = true) serviceStart s ∧
        ¬ InSessions s.shared := by
  have observed : (Transition.execute (Transition.checked (step serviceConfig) releasedOnce) unopenedRun
      serviceStart).map (fun s => s.shared.delivered.map (·.notice)) =
        some [⟨.clientClose,9999,0⟩] := by decide +kernel
  obtain ⟨s,run,taken⟩ := Option.map_eq_some_iff.mp observed
  refine ⟨serviceStart_setUp,s,.of_checked (fun _ _ passed => passed) run,?_⟩
  rintro ⟨told,-⟩
  obtain ⟨sessions,-,begins⟩ := told 9999
  rw [taken] at begins
  cases sessions with
  | nil => simp at begins
  | cons first rest => simp [session] at begins

end Tcpeen.Receive
