import Tcpeen.ReceiveChannels

/-! No channel is lost as long as every close finds a free event for its notice. -/
namespace Tcpeen.Receive

open SplitOperation QueueSpsc

/-- Every channel is free or attached. -/
def Complete (cfg : Config) (s : State) : Prop :=
  ∀ c, c < cfg.clientsMax → 0 < s.clientListFree.items.count c ∨ ∃ h, s.Owns h c

/-- Every channel is exactly once in the free list, or attached to exactly one handle
whose close callback has not completed. -/
def Conserved (cfg : Config) (s : State) : Prop :=
  ∀ c, c < cfg.clientsMax →
    (s.clientListFree.items.count c = 1 ∧ ∀ h, ¬ s.Owns h c) ∨
    (s.clientListFree.items.count c = 0 ∧
      ∃ h, s.Owns h c ∧ (s.clientMap c).priv = some h ∧ ∀ other, s.Owns other c → other = h)

section

variable {cfg : Config} {pc : IoPc} {s s' : State}

theorem Complete.conserved (complete : Complete cfg s) (sound : Sound cfg pc s) : Conserved cfg s := by
  intro c inside
  rcases complete c inside with free | ⟨h,owns⟩
  · left
    have once := sound.once c
    rw [if_pos inside] at once
    refine ⟨by omega,?_⟩
    intro h owns
    have := (sound.attached h c owns).2.2
    omega
  · right
    obtain ⟨-,priv,absent⟩ := sound.attached h c owns
    exact ⟨absent,h,owns,priv,fun other owns' => sound.alone owns owns'⟩

theorem Complete.keep (complete : Complete cfg s) (list : s'.clientListFree = s.clientListFree)
    (owners : ∀ h c, s.Owns h c → s'.Owns h c) : Complete cfg s' := by
  intro c inside
  rw [list]
  rcases complete c inside with free | ⟨h,owns⟩
  · exact .inl free
  · exact .inr ⟨h,owners h c owns⟩

theorem closeChannel_owns (h' c' h c : Nat) (owns : s.Owns h c) : (s.closeChannel h' c').Owns h c := by
  simp only [State.closeChannel,State.setChannel,State.setHandle,State.Owns,Function.update_apply] at *
  grind

theorem answer_owns (h' : Nat) (buf : Option UvBuf) (h c : Nat) (owns : s.Owns h c) :
    (s.answer h' buf).Owns h c := by
  simp only [State.answer,State.setHandle,State.Owns,Function.update_apply] at *
  grind

theorem newHandle_owns (sound : Sound cfg pc s) (handle : Handle) (h c : Nat) (owns : s.Owns h c) :
    (s.newHandle handle).Owns h c := by
  have named := sound.named
  simp only [State.newHandle,State.setHandle,State.Owns,Function.update_apply] at *
  grind

theorem Complete.attach (complete : Complete cfg s) (sound : Sound cfg pc s) {c : Nat}
    {freed : ListPtr Nat} (popped : s.clientListFree.popBack = some (c, freed)) :
    Complete cfg (({ s with clientListFree := freed }.newHandle ⟨some c,false,false,none⟩).setChannel c
      ⟨some s.handleCount,none,.open⟩) := by
  obtain ⟨items,-⟩ := ListPtr.popBack_items popped
  have named := sound.named
  intro x inside
  rcases complete x inside with free | ⟨h,owns⟩
  · rw [items,List.count_append,List.count_singleton] at free
    by_cases same : c = x
    · subst same
      right
      refine ⟨s.handleCount,?_⟩
      simp [State.Owns,State.newHandle,State.setHandle,State.setChannel]
    · left
      simpa [same,State.newHandle,State.setHandle,State.setChannel] using free
  · right
    refine ⟨h,?_⟩
    simp only [State.newHandle,State.setHandle,State.setChannel,State.Owns,Function.update_apply] at *
    grind

theorem onConnection_complete (complete : Complete cfg s) (sound : Sound cfg pc s)
    (failure : Option ConnectStep) : Complete cfg (onConnection failure s).2 := by
  have rejected : Complete cfg (s.newHandle ⟨none,true,false,none⟩) :=
    complete.keep rfl (newHandle_owns sound _)
  unfold onConnection
  split
  · exact complete
  · exact complete
  · exact complete
  · exact rejected
  · split
    · exact rejected
    · next c freed popped =>
      have attached := complete.attach sound popped
      split
      all_goals first
        | exact attached
        | exact attached.keep rfl (closeChannel_owns _ _)

theorem onRecv_complete (complete : Complete cfg s) {h c : Nat} {buf : UvBuf} {result : ReadResult}
    {r : IoPc × State} (ran : onRecv h c buf result s = some r) : Complete cfg r.2 := by
  unfold onRecv at ran
  split at ran
  · obtain rfl := Option.some.inj ran
    exact complete.keep rfl (closeChannel_owns _ _)
  · obtain rfl := Option.some.inj ran
    exact complete.keep rfl (answer_owns _ _)
  · split at ran
    · contradiction
    · split at ran
      · contradiction
      · obtain rfl := Option.some.inj ran
        have answered : Complete cfg (s.answer h none) := complete.keep rfl (answer_owns _ _)
        unfold onRecvData
        split
        · exact answered
        · split <;> exact answered

theorem onClose_complete (complete : Complete cfg s) (h : Nat) : Complete cfg (onClose h s).2 := by
  unfold onClose
  split
  · next data =>
    refine complete.keep rfl ?_
    intro other c owns
    simp only [State.free,State.setHandle,State.Owns,Function.update_apply] at *
    grind
  · simp only
    split <;> exact complete

/-- The close callback is where a channel gets lost: it must find an event. -/
theorem resumeIo_complete (complete : Complete cfg s) (sound : Sound cfg pc s) {res : Res Nat}
    (found : ∀ h c, pc = .closePop h c → ∃ e, res = .success [e]) :
    Complete cfg (resumeIo pc res s).2 := by
  have busy := sound.busy
  have returned (base : State) (h c : Nat) (same : base.clientListFree = s.clientListFree)
      (owners : ∀ h c, s.Owns h c → base.Owns h c) (sound' : Sound cfg .idle base)
      (serves : base.Serves h c true) (empty : (base.clientMap c).readBuffer = none) :
      Complete cfg ((base.listClose c).free h) := by
    have list := (sound'.listClose serves empty).2
    intro x inside
    by_cases back : x = c
    · left
      change 0 < List.count x (base.listClose c).clientListFree.items
      rw [list,List.count_append,List.count_singleton,back]
      simp
    · rcases complete x inside with free | ⟨other,owns⟩
      · left
        change 0 < List.count x (base.listClose c).clientListFree.items
        rw [list,List.count_append,same]
        omega
      · right
        refine ⟨other,?_⟩
        have data := serves.1.2
        have owns' := owners other x owns
        simp only [State.listClose,State.free,State.setHandle,State.Owns,Function.update_apply] at *
        grind
  unfold resumeIo
  split
  · exact complete
  · simp only
    split
    · exact complete.keep rfl fun h' c' owns => closeChannel_owns _ _ h' c' owns
    · exact complete
  · exact complete.keep rfl (closeChannel_owns _ _)
  · simp only
    split
    · exact complete.keep rfl fun h' c' owns => closeChannel_owns _ _ h' c' owns
    · exact complete
  · exact complete.keep rfl (closeChannel_owns _ _)
  · exact complete.keep rfl fun h' c' owns => answer_owns _ _ h' c' owns
  · exact complete.keep rfl (answer_owns _ _)
  · split <;> exact complete
  · exact complete
  · exact complete
  · exact complete
  · exact complete
  · exact complete
  · next h c absent =>
    obtain ⟨e,given⟩ := found h c rfl
    exact absurd given (absent e)
  · next h c e _ =>
    exact returned (s.announce e) h c rfl (fun _ _ owns => owns) (sound.frame rfl rfl rfl rfl trivial)
      busy.1 busy.2
  · next h c e _ =>
    exact returned s h c rfl (fun _ _ owns => owns) (sound.at_pc trivial) busy.1 busy.2

theorem act_complete {pcs : (t : Thread) → Pc t} {b : Act} {r : Pc (actor b) × State}
    (complete : Complete cfg s) (sound : Sound cfg (pcs .io) s)
    (done : act cfg b (pcs (actor b)) s = some r) : Complete cfg r.2 := by
  cases b with
  | acquire =>
    obtain rfl := Option.some.inj done
    exact complete
  | release =>
    obtain rfl := Option.some.inj done
    obtain ⟨acquired,same⟩ := releaseNext_frame s s.eventUpdates
    rw [same]
    exact complete
  | connection failure =>
    obtain rfl := Option.some.inj done
    exact onConnection_complete complete sound failure
  | alloc h =>
    obtain ⟨c,-,rfl⟩ := act_alloc_cases done
    unfold onRecvAlloc
    split
    · exact complete
    · exact complete.keep rfl (answer_owns _ _)
  | read h result =>
    obtain ⟨c,buf,-,-,-,received⟩ := act_read_cases done
    exact onRecv_complete complete received
  | close h =>
    obtain ⟨-,-,rfl⟩ := act_close_cases done
    exact onClose_complete complete h

theorem resumeMain_complete (complete : Complete cfg s) (main : MainPc) (res : Res Nat) :
    Complete cfg (resumeMain main res s).2 := by
  unfold resumeMain
  split
  · exact complete
  · exact complete
  · next rest =>
    obtain ⟨acquired,same⟩ := releaseNext_frame s rest
    rw [same]
    exact complete
  · exact complete

end

/-- The step is not the one in which a close callback finds no free event. -/
def closeFindsEvent (s : Running) : SplitLabel Thread Act → Bool
  | .tick .io =>
    match s.pcs .io, (tick .popBack (s.loc .io) (s.mem .eventsFree)).2 with
    | .closePop _ _, .returned .empty => false
    | _, _ => true
  | _ => true

theorem popBack_returns {loc : Loc V} {q q' : Queue V} {res : Res V}
    (ticked : tick .popBack loc q = (q', .returned res)) : res = .empty ∨ ∃ value, res = .success [value] := by
  cases loc with
  | tail tail =>
    simp only [tick] at ticked
    split at ticked
    · simp only [Prod.mk.injEq,Progress.returned.injEq] at ticked
      exact .inl ticked.2.symm
    · simp at ticked
  | taken tail value =>
    simp only [tick,Prod.mk.injEq,Progress.returned.injEq] at ticked
    exact .inr ⟨value,ticked.2.symm⟩
  | _ => simp [tick] at ticked

theorem close_found {cfg : Config} {s : Running} (found : closeFindsEvent s (.tick .io) = true)
    {res : Res Nat} (returns : Returns (object QueueName Nat) (machine cfg) s .io res) (h c : Nat)
    (pc : s.pcs .io = .closePop h c) : ∃ e, res = .success [e] := by
  obtain ⟨q,op,mem,asked,ticked⟩ := returns
  simp only [machine,pc,request,Option.some.injEq,Prod.mk.injEq] at asked
  obtain ⟨rfl,rfl⟩ := asked
  rcases popBack_returns ticked with rfl | given
  · simp only [object] at ticked
    simp [closeFindsEvent,pc,ticked] at found
  · exact given

theorem start_complete (cfg : Config) {data : Nat → Nat} {free : ListPtr Nat}
    (built : clientListSetup data cfg.clientsMax = some free) (blocks : Nat → Nat → UInt8) :
    Complete cfg (start cfg free blocks) := by
  intro c inside
  left
  change 0 < List.count c free.items
  rw [clientListSetup_count built,if_pos inside]
  exact Nat.one_pos

theorem reachable_sound {cfg : Config} {data : Nat → Nat} {free : ListPtr Nat} {blocks : Nat → Nat → UInt8}
    {mem : QueueName → Queue Nat} {s : Running} {guard : Running → SplitLabel Thread Act → Prop}
    (built : clientListSetup data cfg.clientsMax = some free)
    (reach : Transition.Reachable (step cfg) guard (initial cfg free blocks mem) s) :
    Sound cfg (s.pcs .io) s.shared := by
  refine reach.invariant (fun s => Sound cfg (s.pcs .io) s.shared) (start_sound cfg built blocks) ?_
  intro s label s' sound _ taken
  exact client_step (fun pcs s => Sound cfg (pcs .io) s) (fun _ _ _ _ done => act_sound sound done)
    (fun t res _ _ => resume_sound t res sound) sound taken

/-- Whatever the queues hold, no channel is lost in a run whose close callbacks all find a
free event. -/
theorem channels_conserved (cfg : Config) (data : Nat → Nat) (free : ListPtr Nat)
    (built : clientListSetup data cfg.clientsMax = some free) (blocks : Nat → Nat → UInt8)
    (mem : QueueName → Queue Nat) (s : Running)
    (reach : Transition.Reachable (step cfg) (fun s label => closeFindsEvent s label = true)
      (initial cfg free blocks mem) s) : Conserved cfg s.shared := by
  have complete := reach.invariant_with (fun s => Sound cfg (s.pcs .io) s.shared)
    (fun s => Complete cfg s.shared) (fun _ reached => reachable_sound built reached)
    (start_complete cfg built blocks)
    (by
      intro s label s' sound complete found taken
      refine client_step (fun _ s => Complete cfg s) ?_ ?_ complete taken
      · intro b r _ _ done
        exact act_complete complete sound done
      · rintro t res rfl returns
        cases t with
        | main => exact resumeMain_complete complete (s.pcs .main) res
        | io => exact resumeIo_complete complete sound (close_found found returns))
  exact complete.conserved (reachable_sound built reach)

/-- A call made without interruption. -/
def ioCall (steps : Nat) : List (SplitLabel Thread Act) := List.replicate steps (.tick .io)

/-- A connection that is accepted and offered a buffer. -/
def connected : List (SplitLabel Thread Act) :=
  .act (.connection none) :: ioCall 8 ++ .act (.alloc 0) :: ioCall 4

def tinyList : ListPtr Nat := ⟨Function.update (fun _ => 0) 0 0,1,1⟩

def tinyStart : Running :=
  initial tinyConfig tinyList (fun _ _ => 0) fun q => countedQueue tinyConfig.bits (filledCount tinyConfig q)

/-- The connection ends and its close finds a free event. -/
theorem channels_conserved_closed :
    ∃ s, Transition.execute (Transition.checked (step tinyConfig) closeFindsEvent)
        (connected ++ .act (.read 0 .error) :: .act (.close 0) :: ioCall 12) tinyStart = some s ∧
      (s.shared.handles 0).freed = true ∧ Conserved tinyConfig s.shared := by
  have observed : (Transition.execute (Transition.checked (step tinyConfig) closeFindsEvent)
      (connected ++ .act (.read 0 .error) :: .act (.close 0) :: ioCall 12) tinyStart).map
        (fun s => (s.shared.handles 0).freed) = some true := by decide
  obtain ⟨s,run,freed⟩ := Option.map_eq_some_iff.mp observed
  exact ⟨s,run,freed,channels_conserved tinyConfig (fun _ => 0) tinyList rfl _ _ s
    (.of_checked (fun _ _ passed => passed) run)⟩

/-- A byte arrives, and a buffer for the next one is found. -/
def byteRead : List (SplitLabel Thread Act) :=
  .act (.read 0 (.data [7])) :: ioCall 8 ++ .act (.alloc 0) :: ioCall 4

/-- The connection sends three times, which takes the last event, and ends. -/
def exhaustedRun : List (SplitLabel Thread Act) :=
  connected ++ byteRead ++ byteRead ++ byteRead ++ .act (.read 0 .error) :: .act (.close 0) :: ioCall 6

/-- The close callback gives up without an event and the channel is lost. -/
theorem channel_lost_without_event :
    clientListSetup (fun _ => 0) tinyConfig.clientsMax = some tinyList ∧
      (∀ q, Represents tinyConfig.bits (tinyStart.mem q) ⟨filled tinyConfig q,false⟩) ∧
      ∃ s, Transition.Reachable (step tinyConfig) (fun _ _ => True) tinyStart s ∧
        ¬ Conserved tinyConfig s.shared := by
  have observed : (Transition.execute (step tinyConfig) exhaustedRun tinyStart).map
      (fun s => (s.shared.clientListFree.index,(s.shared.handles 0).freed,s.shared.handleCount)) =
        some (0,true,1) := by decide
  obtain ⟨s,run,final⟩ := Option.map_eq_some_iff.mp observed
  obtain ⟨index,freed,count⟩ : s.shared.clientListFree.index = 0 ∧ (s.shared.handles 0).freed = true ∧
      s.shared.handleCount = 1 := by simpa using final
  have reach := Transition.Reachable.of_execute (fun _ _ _ => trivial) run
  have sound := reachable_sound rfl reach
  refine ⟨rfl,fun q => countedQueue_represents (by decide) (by cases q <;> decide),s,reach,?_⟩
  intro conserved
  rcases conserved 0 (by decide) with ⟨free,-⟩ | ⟨-,h,⟨alive,-⟩,-⟩
  · simp [ListPtr.items,index] at free
  · have closed : (s.shared.handles h).freed = true := by
      rcases Nat.eq_zero_or_pos h with rfl | later
      · exact freed
      · exact sound.named h (by omega)
    rw [alive] at closed
    cases closed

end Tcpeen.Receive
