import Tcpeen.ReceiveChannels

/-! The state of a channel, its handle pointer and what libuv was told of the handle are three
records of one fact. The calls of uv_close are logged beside the state. -/
namespace Tcpeen.Receive

open SplitOperation QueueSpsc

/-- The handle that `on_connection_cb` closes before its first queue operation. -/
def onConnectionCloses (failure : Option ConnectStep) (s : State) : List Nat :=
  match failure with
  | some .status | some .memory | some .tcpInit => []
  | some .accept => [s.handleCount]
  | _ =>
    match s.clientListFree.popBack with
    | none => [s.handleCount]
    | some _ =>
      match failure with
      | some .getpeername | some .convertRemote | some .getsockname | some .convertLocal => [s.handleCount]
      | _ => []

/-- The calls of uv_close by a callback up to its first queue operation. -/
def actCloses : Act → State → List Nat
  | .connection failure, s => onConnectionCloses failure s
  | .read h .error, s => if (s.handles h).closing then [] else [h]
  | _, _ => []

/-- The calls of uv_close by a callback after one of its queue operations. -/
def resumeIoCloses : IoPc → Res Nat → List Nat
  | .connectPop h _ failure, .success [_] =>
    if failure = some .stringLocal ∨ failure = some .stringRemote then [h] else []
  | .connectPop h _ _, _ => [h]
  | .connectPush h _ _ failure, .success _ => if failure = some .readStart then [h] else []
  | .connectPush h _ _ _, _ => [h]
  | _, _ => []

def resumeCloses : (t : Thread) → Pc t → Res Nat → List Nat
  | .main => fun _ _ => []
  | .io => resumeIoCloses

/-- A handle that libuv has, with the channel it points to. -/
structure Live (s : State) (closes : List Nat) (h c : Nat) : Prop where
  named : h < s.handleCount
  unclosed : h ∉ closes
  alive : (s.handles h).freed = false
  data : (s.handles h).data = some c

/-- An open channel has a live handle, and a handle is closing once it has been passed to uv_close. -/
structure Recorded (s : State) (closes : List Nat) : Prop where
  live : ∀ c, (s.clientMap c).state = .open → ∃ h, s.Owns h c ∧ (s.handles h).closing = false
  counted : ∀ h, closes.count h = if (s.handles h).closing then 1 else 0
  unnamed : ∀ h, s.handleCount ≤ h → (s.handles h).closing = false
  freed : ∀ h, h < s.handleCount → (s.handles h).freed = true → (s.handles h).closing = true

section Step

variable {cfg : Config} {pc : IoPc} {s : State} {closes : List Nat}

/-- What touches no handle and leaves the states of the channels. -/
theorem Recorded.frame {s' : State} (recorded : Recorded s closes)
    (states : ∀ c, (s'.clientMap c).state = (s.clientMap c).state) (handles : s'.handles = s.handles)
    (count : s'.handleCount = s.handleCount) : Recorded s' closes := by
  obtain ⟨live,counted,unnamed,freed⟩ := recorded
  refine ⟨?_,by rwa [handles],by rwa [handles,count],by rwa [handles,count]⟩
  simpa only [State.Owns,states,handles] using live

theorem Recorded.closeChannel (recorded : Recorded s closes) {h c : Nat} (sound : Sound cfg pc s)
    (owns : s.Owns h c) (open' : (s.handles h).closing = false) :
    Recorded (s.closeChannel h c) (closes ++ [h]) := by
  obtain ⟨live,counted,unnamed,freed⟩ := recorded
  have named := sound.named
  simp only [State.Owns] at owns live
  refine ⟨?_,?_,?_,?_⟩ <;>
    simp only [State.closeChannel,State.setChannel,State.setHandle,State.Owns,Function.update_apply,
      List.count_append,List.count_singleton,counted] <;>
    grind -linarith

theorem Recorded.rejected (recorded : Recorded s closes) (sound : Sound cfg pc s) :
    Recorded (s.newHandle ⟨none,true,false,none⟩) (closes ++ [s.handleCount]) := by
  obtain ⟨live,counted,unnamed,freed⟩ := recorded
  have named := sound.named
  simp only [State.Owns] at live
  refine ⟨?_,?_,?_,?_⟩ <;>
    simp only [State.newHandle,State.setHandle,State.Owns,Function.update_apply,List.count_append,
      List.count_singleton,counted] <;>
    grind -linarith

theorem Recorded.attach (recorded : Recorded s closes) (sound : Sound cfg pc s) {c : Nat} {freed : ListPtr Nat}
    (popped : s.clientListFree.popBack = some (c, freed)) :
    Recorded (({ s with clientListFree := freed }.newHandle ⟨some c,false,false,none⟩).setChannel c
      ⟨some s.handleCount,none,.open⟩) closes := by
  obtain ⟨live,counted,unnamed,freed⟩ := recorded
  have named := sound.named
  simp only [State.Owns] at live
  refine ⟨?_,?_,?_,?_⟩
  · intro x open'
    by_cases same : x = c
    · subst same
      refine ⟨s.handleCount,?_⟩
      simp [State.Owns,State.newHandle,State.setHandle,State.setChannel]
    · simp only [State.newHandle,State.setHandle,State.setChannel,Function.update_of_ne same] at open'
      obtain ⟨h,owns,unclosed⟩ := live x open'
      refine ⟨h,?_⟩
      simp only [State.newHandle,State.setHandle,State.setChannel,State.Owns,Function.update_apply]
      grind -linarith
  all_goals
    simp only [State.newHandle,State.setHandle,State.setChannel,Function.update_apply,counted]
    grind -linarith

theorem Recorded.answer (recorded : Recorded s closes) (h : Nat) (buf : Option UvBuf) :
    Recorded (s.answer h buf) closes := by
  obtain ⟨live,counted,unnamed,freed⟩ := recorded
  simp only [State.Owns] at live
  refine ⟨?_,?_,?_,?_⟩ <;>
    simp only [State.answer,State.setHandle,State.Owns,Function.update_apply,counted] <;>
    grind -linarith

/-- The end of a close callback. -/
theorem Recorded.free (recorded : Recorded s closes) {h : Nat} (closing : (s.handles h).closing = true) :
    Recorded (s.free h) closes := by
  obtain ⟨live,counted,unnamed,freed⟩ := recorded
  simp only [State.Owns] at live
  refine ⟨?_,?_,?_,?_⟩ <;>
    simp only [State.free,State.setHandle,State.Owns,Function.update_apply,counted] <;>
    grind -linarith

/-- The channel of a handle that is closing is not open. -/
theorem Recorded.closed (recorded : Recorded s closes) (c : Nat) :
    Recorded (s.setChannel c { s.clientMap c with state := .closed }) closes := by
  obtain ⟨live,counted,unnamed,freed⟩ := recorded
  simp only [State.Owns] at live
  refine ⟨?_,counted,unnamed,freed⟩
  simp only [State.setChannel,State.Owns,Function.update_apply]
  grind -linarith

theorem setChannel_state (s : State) (c : Nat) (buffer : Option Nat) (x : Nat) :
    ((s.setChannel c { s.clientMap c with readBuffer := buffer }).clientMap x).state = (s.clientMap x).state := by
  simp only [State.setChannel,Function.update_apply]
  split
  · next same => rw [same]
  · rfl

theorem onConnection_recorded (recorded : Recorded s closes) (sound : Sound cfg pc s)
    (failure : Option ConnectStep) :
    Recorded (onConnection failure s).2 (closes ++ onConnectionCloses failure s) := by
  have rejected := recorded.rejected sound
  cases popped : s.clientListFree.popBack with
  | none =>
    rcases failure with _ | step
    · simpa [onConnection,onConnectionCloses,popped] using rejected
    · cases step <;> simp only [onConnection,onConnectionCloses,popped,List.append_nil]
      all_goals first
        | exact recorded
        | exact rejected
  | some entry =>
    obtain ⟨c,freed⟩ := entry
    have attached := recorded.attach sound popped
    have closed : Recorded ((({ s with clientListFree := freed }.newHandle ⟨some c,false,false,none⟩).setChannel c
        ⟨some s.handleCount,none,.open⟩).closeChannel s.handleCount c) (closes ++ [s.handleCount]) := by
      refine attached.closeChannel (sound.attach popped) ?_ ?_ <;>
        simp [State.Owns,State.newHandle,State.setHandle,State.setChannel]
    rcases failure with _ | step
    · simpa [onConnection,onConnectionCloses,popped] using attached
    · cases step <;> simp only [onConnection,onConnectionCloses,popped,List.append_nil]
      all_goals first
        | exact recorded
        | exact rejected
        | exact attached
        | exact closed

theorem onRecv_recorded (recorded : Recorded s closes) (sound : Sound cfg pc s) {h c : Nat} {buf : UvBuf}
    {result : ReadResult} {r : IoPc × State} (owns : s.Owns h c) (open' : (s.handles h).closing = false)
    (ran : onRecv h c buf result s = some r) : Recorded r.2 (closes ++ actCloses (.read h result) s) := by
  unfold onRecv at ran
  split at ran
  · obtain rfl := Option.some.inj ran
    simp only [actCloses,open',Bool.false_eq_true,if_false]
    exact recorded.closeChannel sound owns open'
  · obtain rfl := Option.some.inj ran
    simpa [actCloses] using recorded.answer h none
  · next bytes =>
    split at ran
    · contradiction
    · next b offset base =>
      split at ran
      · contradiction
      · obtain rfl := Option.some.inj ran
        have arrived : Recorded ((s.answer h none).arrive h b offset bytes) closes :=
          (recorded.answer h none).frame (fun _ => rfl) rfl rfl
        simp only [actCloses,List.append_nil]
        unfold onRecvData
        split
        · exact arrived
        · split
          · exact arrived
          · exact arrived.frame (fun _ => rfl) rfl rfl

theorem onClose_recorded (recorded : Recorded s closes) {h : Nat} (closing : (s.handles h).closing = true) :
    Recorded (onClose h s).2 closes := by
  unfold onClose
  split
  · exact recorded.free closing
  · next c data =>
    have closed := recorded.closed c
    simp only
    split <;> exact closed

theorem resumeIo_recorded (recorded : Recorded s closes) (sound : Sound cfg pc s) (res : Res Nat) :
    Recorded (resumeIo pc res s).2 (closes ++ resumeIoCloses pc res) := by
  have busy := sound.busy
  unfold resumeIo
  split
  · simpa [resumeIoCloses] using recorded
  · next h c failure e =>
    have marked : Recorded (s.setEvent e
        { s.events e with type := .clientOpen, clientId := c, source := h }) closes :=
      recorded.frame (fun _ => rfl) rfl rfl
    have marked' : Sound cfg .idle (s.setEvent e
        { s.events e with type := .clientOpen, clientId := c, source := h }) :=
      sound.frame rfl rfl rfl rfl trivial
    simp only [resumeIoCloses]
    split
    · exact marked.closeChannel marked' busy.1.1 busy.1.2.1
    · simpa using marked
  · next other =>
    rw [resumeIoCloses]
    · exact recorded.closeChannel sound busy.1.1 busy.1.2.1
    · exact other
  · next h c e failure _ =>
    have announced : Recorded (s.announce e) closes := recorded.frame (fun _ => rfl) rfl rfl
    have announced' : Sound cfg .idle (s.announce e) := sound.frame rfl rfl rfl rfl trivial
    simp only [resumeIoCloses]
    split
    · exact announced.closeChannel announced' busy.1.1 busy.1.2.1
    · simpa using announced
  · next other =>
    rw [resumeIoCloses]
    · exact recorded.closeChannel sound busy.1.1 busy.1.2.1
    · exact other
  · next h c b =>
    have held : Recorded ((s.setBuffer b (s.buffers b).reset).setChannel c
        { s.clientMap c with readBuffer := some b }) closes :=
      recorded.frame (setChannel_state s c (some b)) rfl rfl
    simp only [resumeIoCloses,List.append_nil]
    exact held.answer h _
  · simp only [resumeIoCloses,List.append_nil]
    exact recorded.answer _ _
  · simp only [resumeIoCloses,List.append_nil]
    split
    · exact recorded.frame (fun _ => rfl) rfl rfl
    · exact recorded
  · simpa [resumeIoCloses] using recorded
  · next h c e _ =>
    simp only [resumeIoCloses,List.append_nil]
    exact recorded.frame (setChannel_state s c none) rfl rfl
  · simpa [resumeIoCloses] using recorded
  · next h c b =>
    simp only [resumeIoCloses,List.append_nil]
    exact recorded.frame (setChannel_state s c none) rfl rfl
  · simp only [resumeIoCloses,List.append_nil]
    exact recorded.frame (fun _ => rfl) rfl rfl
  · simpa [resumeIoCloses] using recorded.free busy.1.2.1
  · next h c e _ =>
    have listed : Recorded ((s.announce e).listClose c) closes := recorded.frame (fun _ => rfl) rfl rfl
    simpa [resumeIoCloses] using listed.free busy.1.2.1
  · next h c e _ =>
    have listed : Recorded (s.listClose c) closes := recorded.frame (fun _ => rfl) rfl rfl
    simpa [resumeIoCloses] using listed.free busy.1.2.1

theorem act_recorded {pcs : (t : Thread) → Pc t} {b : Act} {r : Pc (actor b) × State}
    (recorded : Recorded s closes) (sound : Sound cfg (pcs .io) s) (done : act cfg b (pcs (actor b)) s = some r) :
    Recorded r.2 (closes ++ actCloses b s) := by
  cases b with
  | acquire =>
    obtain rfl := Option.some.inj done
    simp only [actCloses,List.append_nil]
    exact recorded.frame (fun _ => rfl) rfl rfl
  | release =>
    obtain rfl := Option.some.inj done
    obtain ⟨acquired,same⟩ := releaseNext_frame s s.eventUpdates
    simp only [actCloses,List.append_nil,same]
    exact recorded.frame (fun _ => rfl) rfl rfl
  | connection failure =>
    obtain rfl := Option.some.inj done
    exact onConnection_recorded recorded sound failure
  | alloc h =>
    obtain ⟨c,-,rfl⟩ := act_alloc_cases done
    simp only [actCloses,List.append_nil]
    unfold onRecvAlloc
    split
    · exact recorded
    · exact recorded.answer h _
  | read h result =>
    obtain ⟨c,buf,owns,reading,-,received⟩ := act_read_cases done
    exact onRecv_recorded recorded sound owns reading received
  | close h =>
    obtain ⟨closing,-,rfl⟩ := act_close_cases done
    simp only [actCloses,List.append_nil]
    exact onClose_recorded recorded closing

theorem resumeMain_recorded (recorded : Recorded s closes) (main : MainPc) (res : Res Nat) :
    Recorded (resumeMain main res s).2 closes := by
  unfold resumeMain
  split
  · exact recorded.frame (fun _ => rfl) rfl rfl
  · exact recorded
  · next rest =>
    obtain ⟨acquired,same⟩ := releaseNext_frame s rest
    rw [same]
    exact recorded.frame (fun _ => rfl) rfl rfl
  · exact recorded

theorem resume_recorded {pcs : (t : Thread) → Pc t} (recorded : Recorded s closes)
    (sound : Sound cfg (pcs .io) s) (t : Thread) (res : Res Nat) :
    Recorded (resume t (pcs t) res s).2 (closes ++ resumeCloses t (pcs t) res) := by
  cases t with
  | main =>
    simp only [resumeCloses,List.append_nil]
    exact resumeMain_recorded recorded (pcs .main) res
  | io => exact resumeIo_recorded recorded sound res

theorem start_recorded (cfg : Config) (free : ListPtr Nat) (blocks : Nat → Nat → UInt8) :
    Recorded (start cfg free blocks) [] := by
  refine ⟨?_,?_,?_,?_⟩ <;> simp [start]

/-- A handle is closing exactly if it was passed to uv_close. -/
theorem Recorded.closing_iff (recorded : Recorded s closes) (h : Nat) :
    (s.handles h).closing = true ↔ h ∈ closes := by
  rw [← List.count_pos_iff,recorded.counted h]
  split <;> simp_all

/-- The pointers agree: a channel is open if and only if its handle is live and points back. -/
theorem Recorded.open_iff (recorded : Recorded s closes) (sound : Sound cfg pc s) (c : Nat) :
    (s.clientMap c).state = .open ↔ ∃ h, (s.clientMap c).priv = some h ∧ Live s closes h c := by
  constructor
  · intro open'
    obtain ⟨h,owns,unclosed⟩ := recorded.live c open'
    have named : h < s.handleCount := by
      by_contra outside
      have freed := sound.named h (Nat.le_of_not_lt outside)
      rw [owns.1] at freed
      cases freed
    refine ⟨h,(sound.attached h c owns).2.1,named,?_,owns.1,owns.2⟩
    rw [← recorded.closing_iff,unclosed]
    exact Bool.false_ne_true
  · rintro ⟨h,-,live⟩
    refine sound.opened h c ⟨live.alive,live.data⟩ ?_
    exact Bool.eq_false_iff.mpr (mt (recorded.closing_iff h).mp live.unclosed)

end Step

end Tcpeen.Receive
