import Tcpeen.Library.Counting
import Tcpeen.Receive

/-! Channels and the handles they are attached to. The invariant speaks of the records
only, so it survives whatever the queues answer. -/
namespace Tcpeen.Receive

open SplitOperation QueueSpsc

/-- A handle whose close callback has not completed, and the channel it points to. -/
def State.Owns (s : State) (h c : Nat) : Prop :=
  (s.handles h).freed = false ∧ (s.handles h).data = some c

/-- The connection of a callback in progress. -/
def State.Serves (s : State) (h c : Nat) (closing : Bool) : Prop :=
  s.Owns h c ∧ (s.handles h).closing = closing ∧ (s.handles h).pending = none

def Busy (s : State) : IoPc → Prop
  | .idle => True
  | .connectPop h c _ | .connectPush h c _ _ | .allocPop h c =>
    s.Serves h c false ∧ (s.clientMap c).readBuffer = none
  | .recvPop h c | .recvPush h c _ => s.Serves h c false ∧ (s.clientMap c).readBuffer.isSome
  | .closePush h c b => s.Serves h c true ∧ (s.clientMap c).readBuffer = some b
  | .closePop h c | .closeReady h c _ => s.Serves h c true ∧ (s.clientMap c).readBuffer = none

structure Sound (cfg : Config) (pc : IoPc) (s : State) : Prop where
  capacity : s.clientListFree.capacity = cfg.clientsMax
  once : ∀ c, s.clientListFree.items.count c ≤ if c < cfg.clientsMax then 1 else 0
  attached : ∀ h c, s.Owns h c →
    c < cfg.clientsMax ∧ (s.clientMap c).priv = some h ∧ s.clientListFree.items.count c = 0
  holds : ∀ c b, (s.clientMap c).readBuffer = some b → ∃ h, s.Owns h c
  opened : ∀ h c, s.Owns h c → (s.handles h).closing = false → (s.clientMap c).state = .open
  named : ∀ h, s.handleCount ≤ h → (s.handles h).freed = true
  pending : ∀ h, (s.handles h).pending.isSome → ∃ c, s.Owns h c ∧ (s.handles h).closing = false ∧
    ∀ b offset len, (s.handles h).pending = some ⟨some (b, offset), len⟩ →
      (s.clientMap c).readBuffer = some b
  busy : Busy s pc

section

variable {cfg : Config} {pc pc' : IoPc} {s : State}

/-- Nothing the main thread does touches a channel or a handle. -/
theorem Sound.frame {s' : State} (sound : Sound cfg pc s) (map : s'.clientMap = s.clientMap)
    (free : s'.clientListFree = s.clientListFree) (handles : s'.handles = s.handles)
    (count : s'.handleCount = s.handleCount) (busy : Busy s' pc') : Sound cfg pc' s' := by
  obtain ⟨capacity,once,attached,holds,opened,named,pending,-⟩ := sound
  simp only [State.Owns] at attached pending holds opened
  refine ⟨by rwa [free],by rwa [free],?_,?_,?_,by rwa [count,handles],?_,busy⟩
  · simpa only [State.Owns,handles,map,free] using attached
  · simpa only [State.Owns,handles,map] using holds
  · simpa only [State.Owns,handles,map] using opened
  · simpa only [State.Owns,handles,map] using pending

/-- A free channel has no buffer. -/
theorem Sound.cleared (sound : Sound cfg pc s) {c : Nat} (free : 0 < s.clientListFree.items.count c) :
    (s.clientMap c).readBuffer = none := by
  cases buffer : (s.clientMap c).readBuffer with
  | none => rfl
  | some b =>
    obtain ⟨h,owns⟩ := sound.holds c b buffer
    have := (sound.attached h c owns).2.2
    omega

/-- A channel is attached to one handle. -/
theorem Sound.alone (sound : Sound cfg pc s) {h h' c : Nat} (owns : s.Owns h c) (owns' : s.Owns h' c) :
    h' = h := by
  have first := (sound.attached h' c owns').2.1
  rw [(sound.attached h c owns).2.1] at first
  exact (Option.some.inj first).symm

theorem Sound.closeChannel (sound : Sound cfg pc s) {h c : Nat} (owns : s.Owns h c) :
    Sound cfg .idle (s.closeChannel h c) := by
  obtain ⟨capacity,once,attached,holds,opened,named,pending,-⟩ := sound
  simp only [State.Owns] at owns attached pending holds opened
  refine ⟨capacity,once,?_,?_,?_,?_,?_,trivial⟩ <;>
    simp only [State.closeChannel,State.setChannel,State.setHandle,State.Owns,Function.update_apply] <;>
    grind -linarith

/-- A handle that is closed before it gets a channel. -/
theorem Sound.rejected (sound : Sound cfg pc s) :
    Sound cfg .idle (s.newHandle ⟨none,true,false,none⟩) := by
  obtain ⟨capacity,once,attached,holds,opened,named,pending,-⟩ := sound
  simp only [State.Owns] at attached pending holds opened
  refine ⟨capacity,once,?_,?_,?_,?_,?_,trivial⟩ <;>
    simp only [State.newHandle,State.setHandle,State.Owns,Function.update_apply] <;>
    grind -linarith

theorem Sound.attach (sound : Sound cfg pc s) {c : Nat} {freed : ListPtr Nat}
    (popped : s.clientListFree.popBack = some (c, freed)) :
    Sound cfg .idle (({ s with clientListFree := freed }.newHandle ⟨some c,false,false,none⟩).setChannel c
      ⟨some s.handleCount,none,.open⟩) := by
  obtain ⟨items,capacity'⟩ := ListPtr.popBack_items popped
  obtain ⟨capacity,once,attached,holds,opened,named,pending,-⟩ := sound
  have counts (x : Nat) : s.clientListFree.items.count x = freed.items.count x + if c = x then 1 else 0 := by
    rw [items,List.count_append,List.count_singleton]
    simp
  simp only [State.Owns,counts] at attached pending once holds opened
  refine ⟨capacity'.trans capacity,?_,?_,?_,?_,?_,?_,trivial⟩ <;>
    simp only [State.newHandle,State.setHandle,State.setChannel,State.Owns,Function.update_apply] <;>
    grind -linarith

theorem Sound.offer (sound : Sound cfg pc s) {h c b : Nat} (serves : s.Serves h c false)
    (buffer : (s.clientMap c).readBuffer = some b) : Sound cfg .idle (s.offer h b) := by
  obtain ⟨capacity,once,attached,holds,opened,named,pending,-⟩ := sound
  simp only [State.Owns,State.Serves] at attached pending holds opened serves
  refine ⟨capacity,once,?_,?_,?_,?_,?_,trivial⟩ <;>
    simp only [State.offer,State.answer,State.setHandle,State.Owns,Function.update_apply] <;>
    grind -linarith

/-- Reading goes on, or libuv is told that there is no buffer. -/
theorem Sound.answer (sound : Sound cfg pc s) {h c : Nat} (owns : s.Owns h c)
    (open' : (s.handles h).closing = false) (buf : Option UvBuf) (none' : ∀ b, buf = some b → b.base = none) :
    Sound cfg .idle (s.answer h buf) := by
  obtain ⟨capacity,once,attached,holds,opened,named,pending,-⟩ := sound
  simp only [State.Owns] at attached pending holds opened owns
  refine ⟨capacity,once,?_,?_,?_,?_,?_,trivial⟩ <;>
    simp only [State.answer,State.setHandle,State.Owns,Function.update_apply] <;>
    grind -linarith

/-- A change to a channel of its own handle, between two reads. -/
theorem Sound.update (sound : Sound cfg pc s) {h c : Nat} {closing : Bool} (serves : s.Serves h c closing)
    (buffer : Option Nat) (state : ChannelState) (live : closing = false → state = .open) :
    Sound cfg .idle (s.setChannel c ⟨(s.clientMap c).priv,buffer,state⟩) := by
  obtain ⟨capacity,once,attached,holds,opened,named,pending,-⟩ := sound
  simp only [State.Owns,State.Serves] at attached pending holds opened serves
  refine ⟨capacity,once,?_,?_,?_,named,?_,trivial⟩ <;>
    simp only [State.setChannel,State.Owns,Function.update_apply] <;>
    grind -linarith

/-- The end of `on_close_channel_cb`: the free list has room for the channel. -/
theorem Sound.listClose (sound : Sound cfg pc s) {h c : Nat} (serves : s.Serves h c true)
    (empty : (s.clientMap c).readBuffer = none) :
    Sound cfg .idle ((s.listClose c).free h) ∧
      (s.listClose c).clientListFree.items = s.clientListFree.items ++ [c] := by
  obtain ⟨owns,-,quiet⟩ := serves
  obtain ⟨inside,priv,absent⟩ := sound.attached h c owns
  obtain ⟨l,pushed⟩ := ListPtr.pushBack_isSome c (l := s.clientListFree)
    (by rw [sound.capacity]; exact Counting.length_lt sound.once inside absent)
  obtain ⟨items,capacity'⟩ := ListPtr.pushBack_items pushed
  have list : (s.listClose c).clientListFree = l := by simp [State.listClose,pushed]
  refine ⟨?_,by rw [list,items]⟩
  obtain ⟨capacity,once,attached,holds,opened,named,pending,-⟩ := sound
  simp only [State.Owns] at attached pending holds opened owns
  have counts (x : Nat) : l.items.count x = s.clientListFree.items.count x + if c = x then 1 else 0 := by
    rw [items,List.count_append,List.count_singleton]
    simp
  have closed : ((s.listClose c).free h).clientListFree = l := list
  refine ⟨by rw [closed,capacity',capacity],?_,?_,?_,?_,?_,?_,trivial⟩
  · simp only [closed,counts]
    grind -linarith
  · simp only [closed,counts,State.Owns]
    simp only [State.listClose,State.free,State.setHandle,Function.update_apply]
    grind -linarith
  all_goals
    simp only [State.listClose,State.free,State.setHandle,State.Owns,Function.update_apply]
    grind -linarith

theorem Sound.free (sound : Sound cfg pc s) {h : Nat} (quiet : (s.handles h).pending = none)
    (empty : ∀ c, (s.handles h).data = some c → (s.clientMap c).readBuffer = none) :
    Sound cfg .idle (s.free h) := by
  obtain ⟨capacity,once,attached,holds,opened,named,pending,-⟩ := sound
  simp only [State.Owns] at attached pending holds opened
  refine ⟨capacity,once,?_,?_,?_,?_,?_,trivial⟩ <;>
    simp only [State.free,State.setHandle,State.Owns,Function.update_apply] <;>
    grind -linarith

theorem Sound.at_pc (sound : Sound cfg pc s) (busy : Busy s pc') : Sound cfg pc' s :=
  sound.frame rfl rfl rfl rfl busy

/-- Each connection callback leaves a sound state at its first queue operation. -/
theorem onConnection_sound (sound : Sound cfg pc s) (failure : Option ConnectStep) :
    Sound cfg (onConnection failure s).1 (onConnection failure s).2 := by
  have rejected := sound.rejected
  have idle : Sound cfg .idle s := sound.at_pc trivial
  unfold onConnection
  split
  · exact idle
  · exact idle
  · exact idle
  · exact rejected
  · split
    · exact rejected
    · next c freed popped =>
      have attached := sound.attach popped
      have owns : State.Owns (({ s with clientListFree := freed }.newHandle ⟨some c,false,false,none⟩).setChannel c
          ⟨some s.handleCount,none,.open⟩) s.handleCount c := by
        simp [State.Owns,State.newHandle,State.setHandle,State.setChannel]
      split
      all_goals first
        | exact attached.closeChannel owns
        | refine attached.at_pc ⟨⟨owns,?_,?_⟩,?_⟩ <;>
            simp [State.newHandle,State.setHandle,State.setChannel]

theorem onRecvAlloc_sound (sound : Sound cfg pc s) {h c : Nat} (serves : s.Serves h c false) :
    Sound cfg (onRecvAlloc h c s).1 (onRecvAlloc h c s).2 := by
  unfold onRecvAlloc
  split
  · next empty => exact sound.at_pc ⟨serves,empty⟩
  · next b buffer => exact sound.offer serves buffer

theorem onRecv_sound (sound : Sound cfg pc s) {h c : Nat} {buf : UvBuf} {result : ReadResult}
    {r : IoPc × State} (owns : s.Owns h c) (open' : (s.handles h).closing = false)
    (ran : onRecv h c buf result s = some r) : Sound cfg r.1 r.2 := by
  have answered := sound.answer owns open' none (by simp)
  unfold onRecv at ran
  split at ran
  · obtain rfl := Option.some.inj ran
    exact sound.closeChannel owns
  · obtain rfl := Option.some.inj ran
    exact answered
  · next bytes =>
    split at ran
    · contradiction
    · next b offset base =>
      split at ran
      · contradiction
      · obtain rfl := Option.some.inj ran
        have arrived : Sound cfg .idle ((s.answer h none).arrive h b offset bytes) :=
          answered.frame rfl rfl rfl rfl trivial
        have serves : State.Serves ((s.answer h none).arrive h b offset bytes) h c false := by
          simpa [State.Serves,State.Owns,State.arrive,State.answer,State.setHandle,State.setBuffer,
            open'] using owns
        unfold onRecvData
        split
        · exact arrived
        · next b' buffer =>
          split
          · exact arrived
          · exact arrived.frame rfl rfl rfl rfl ⟨serves,Option.isSome_iff_exists.mpr ⟨b',buffer⟩⟩

theorem onClose_sound (sound : Sound cfg pc s) {h : Nat} (closing : (s.handles h).closing = true)
    (alive : (s.handles h).freed = false) : Sound cfg (onClose h s).1 (onClose h s).2 := by
  have quiet : (s.handles h).pending = none := by
    by_contra waiting
    obtain ⟨c,-,open',-⟩ := sound.pending h (Option.isSome_iff_ne_none.mpr waiting)
    rw [open'] at closing
    cases closing
  unfold onClose
  split
  · next absent => exact sound.free quiet (by simp [absent])
  · next c data =>
    have serves : s.Serves h c true := ⟨⟨alive,data⟩,closing,quiet⟩
    have closed := sound.update serves (s.clientMap c).readBuffer .closed (by simp)
    simp only
    split
    · next b buffer => exact closed.at_pc ⟨serves,buffer⟩
    · next empty => exact closed.at_pc ⟨serves,empty⟩

theorem resumeIo_sound (sound : Sound cfg pc s) (res : Res Nat) :
    Sound cfg (resumeIo pc res s).1 (resumeIo pc res s).2 := by
  have busy := sound.busy
  unfold resumeIo
  split
  · exact sound
  · next h c failure e =>
    have marked : Sound cfg .idle (s.setEvent e
        { s.events e with type := .clientOpen, clientId := c, source := h }) :=
      sound.frame rfl rfl rfl rfl trivial
    simp only
    split
    · exact marked.closeChannel busy.1.1
    · exact marked.at_pc busy
  · exact sound.closeChannel busy.1.1
  · next h c e failure _ =>
    have announced : Sound cfg .idle (s.announce e) := sound.frame rfl rfl rfl rfl trivial
    simp only
    split
    · exact announced.closeChannel busy.1.1
    · exact announced
  · exact sound.closeChannel busy.1.1
  · next h c b =>
    have reset : Sound cfg .idle (s.setBuffer b (s.buffers b).reset) :=
      sound.frame rfl rfl rfl rfl trivial
    have held := reset.update busy.1 (some b) (s.clientMap c).state (fun _ => sound.opened h c busy.1.1 busy.1.2.1)
    exact held.offer busy.1 (by simp [State.setChannel])
  · next h c =>
    exact sound.answer busy.1.1 busy.1.2.1 (some ⟨none,0⟩) (by simp)
  · next h c e =>
    split
    · next b buffer => exact sound.frame rfl rfl rfl rfl busy
    · exact sound.at_pc trivial
  · exact sound.at_pc trivial
  · next h c e _ =>
    have announced : Sound cfg .idle (s.announce e) := sound.frame rfl rfl rfl rfl trivial
    exact announced.update busy.1 none _ (fun _ => sound.opened h c busy.1.1 busy.1.2.1)
  · exact sound.at_pc trivial
  · next h c b =>
    exact (sound.update busy.1 none (s.clientMap c).state (by simp)).at_pc ⟨busy.1,by simp [State.setChannel]⟩
  · exact sound.frame rfl rfl rfl rfl busy
  · next h c =>
    refine sound.free busy.1.2.2 fun c' data => ?_
    obtain rfl := Option.some.inj (busy.1.1.2.symm.trans data)
    exact busy.2
  · next h c e _ =>
    have announced : Sound cfg .idle (s.announce e) := sound.frame rfl rfl rfl rfl trivial
    exact (announced.listClose busy.1 busy.2).1
  · exact (sound.listClose busy.1 busy.2).1

theorem releaseNext_frame (s : State) (rest : List Nat) :
    ∃ acquired, (releaseNext s rest).2 = { s with acquired := acquired } := by
  unfold releaseNext
  split
  · exact ⟨false,rfl⟩
  · split <;> exact ⟨s.acquired,rfl⟩

theorem resumeMain_sound (sound : Sound cfg pc s) (main : MainPc) (res : Res Nat) :
    Sound cfg pc (resumeMain main res s).2 := by
  unfold resumeMain
  split
  · exact sound.frame rfl rfl rfl rfl sound.busy
  · exact sound
  · next rest =>
    obtain ⟨acquired,same⟩ := releaseNext_frame s rest
    rw [same]
    exact sound.frame rfl rfl rfl rfl sound.busy
  · exact sound

end

section Acts

variable {cfg : Config} {s : State} {h : Nat}

theorem act_alloc_cases {pc : Pc (actor (.alloc h))} {r : Pc (actor (.alloc h)) × State}
    (done : act cfg (.alloc h) pc s = some r) : ∃ c, s.Serves h c false ∧ r = onRecvAlloc h c s := by
  simp only [act] at done
  split at done
  · next c data =>
    split at done
    · next ready =>
      simp only [Handle.reading,Bool.and_eq_true,Bool.not_eq_true',Option.isNone_iff_eq_none] at ready
      exact ⟨c,⟨⟨ready.1.2,data⟩,ready.1.1,ready.2⟩,(Option.some.inj done).symm⟩
    · contradiction
  · contradiction

theorem act_read_cases {result : ReadResult} {pc : Pc (actor (.read h result))}
    {r : Pc (actor (.read h result)) × State} (done : act cfg (.read h result) pc s = some r) :
    ∃ c buf, s.Owns h c ∧ (s.handles h).closing = false ∧ (s.handles h).pending = some buf ∧
      onRecv h c buf result s = some r := by
  simp only [act] at done
  split at done
  · next c buf data pending =>
    split at done
    · next reading =>
      simp only [Handle.reading,Bool.and_eq_true,Bool.not_eq_true'] at reading
      exact ⟨c,buf,⟨reading.2,data⟩,reading.1,pending,done⟩
    · contradiction
  · contradiction

theorem act_close_cases {pc : Pc (actor (.close h))} {r : Pc (actor (.close h)) × State}
    (done : act cfg (.close h) pc s = some r) :
    (s.handles h).closing = true ∧ (s.handles h).freed = false ∧ r = onClose h s := by
  simp only [act] at done
  split at done
  · next closing =>
    simp only [Bool.and_eq_true,Bool.not_eq_true'] at closing
    exact ⟨closing.1,closing.2,(Option.some.inj done).symm⟩
  · contradiction

end Acts

section Run

variable {cfg : Config} {pcs : (t : Thread) → Pc t} {s : State}

theorem act_sound {b : Act} {r : Pc (actor b) × State} (sound : Sound cfg (pcs .io) s)
    (done : act cfg b (pcs (actor b)) s = some r) :
    Sound cfg (Function.update pcs (actor b) r.1 .io) r.2 := by
  cases b with
  | acquire =>
    obtain rfl := Option.some.inj done
    exact sound.frame rfl rfl rfl rfl sound.busy
  | release =>
    obtain rfl := Option.some.inj done
    obtain ⟨acquired,same⟩ := releaseNext_frame s s.eventUpdates
    simp only [actor,same]
    exact sound.frame rfl rfl rfl rfl sound.busy
  | connection failure =>
    obtain rfl := Option.some.inj done
    exact onConnection_sound sound failure
  | alloc h =>
    obtain ⟨c,serves,rfl⟩ := act_alloc_cases done
    exact onRecvAlloc_sound sound serves
  | read h result =>
    obtain ⟨c,buf,owns,reading,-,received⟩ := act_read_cases done
    exact onRecv_sound sound owns reading received
  | close h =>
    obtain ⟨closing,freed,rfl⟩ := act_close_cases done
    exact onClose_sound sound closing freed

theorem resume_sound (t : Thread) (res : Res Nat) (sound : Sound cfg (pcs .io) s) :
    Sound cfg (Function.update pcs t (resume t (pcs t) res s).1 .io) (resume t (pcs t) res s).2 := by
  cases t with
  | main => exact resumeMain_sound sound (pcs .main) res
  | io => exact resumeIo_sound sound res

end Run

theorem start_sound (cfg : Config) {data : Nat → Nat} {free : ListPtr Nat}
    (built : clientListSetup data cfg.clientsMax = some free) (blocks : Nat → Nat → UInt8) :
    Sound cfg .idle (start cfg free blocks) := by
  obtain ⟨l,built',-,capacity⟩ := clientListSetup_items data cfg.clientsMax
  obtain rfl := Option.some.inj (built.symm.trans built')
  refine ⟨capacity,fun c => (clientListSetup_count built c).le,?_,?_,?_,?_,?_,trivial⟩ <;>
    simp [start,State.Owns]

end Tcpeen.Receive
