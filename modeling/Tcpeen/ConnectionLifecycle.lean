import Tcpeen.Connection
import Tcpeen.Library.Transition

/-! A connection of the load generator and libuv. The initiators of tcp_connection.c are
called in any order; libuv calls back for what is pending on a handle. After uv_close a
pending connect fails, pending writes complete, nothing more is read, and the close callback
comes once and last. -/
namespace Tcpeen.Connection

/-- What libuv knows of a handle; `attached` says that its data is the connection, `writes`
are the lengths of the pending requests. -/
structure TcpHandle where
  attached : Bool
  closing : Bool
  closed : Bool
  connecting : Bool
  writes : List Nat
  reading : Bool
  deriving DecidableEq, Repr

def TcpHandle.unused : TcpHandle := ⟨false, false, false, false, [], false⟩

/-- libuv may call back on the handle. -/
def TcpHandle.active (handle : TcpHandle) : Bool :=
  handle.connecting || !handle.writes.isEmpty || handle.reading && !handle.closing ||
    handle.closing && !handle.closed

structure World where
  conn : Conn
  handles : Nat → TcpHandle
  count : Nat
  closes : List Nat

inductive Label
  | connectBegin (failure : Option ConnectStep)
  | writeBegin (ticks : UInt64) (data : List UInt8) (outcome : WriteOutcome)
  | disconnect
  | connectedCb (handle : Nat) (connected reading : Bool)
  | recvCb (handle : Nat) (now : UInt64) (read : Read)
  | writeCb (handle : Nat) (now : UInt64) (status : Int) (length : Nat)
  | closeCb (handle : Nat)
  deriving DecidableEq, Repr

/-- The handle that a callback is about. -/
def Label.callback : Label → Option Nat
  | .connectedCb h _ _ | .recvCb h _ _ | .writeCb h _ _ _ | .closeCb h => some h
  | _ => none

namespace World

def setHandle (w : World) (h : Nat) (handle : TcpHandle) : World :=
  { w with handles := Function.update w.handles h handle }

/-- `uv_is_closing`. -/
def closing (w : World) (h : Nat) : Bool := (w.handles h).closing

def perform (w : World) : Effect → World
  | .uvWrite h bytes => w.setHandle h { w.handles h with writes := (w.handles h).writes ++ [bytes.length] }
  | .uvClose h => { w.setHandle h { w.handles h with closing := true } with closes := w.closes ++ [h] }
  | .idMismatch .. => w

def run (w : World) (r : Conn × List Effect) : World := r.2.foldl perform { w with conn := r.1 }

/-- `uv_tcp_init`, and the connect request if `uv_tcp_connect` succeeds. -/
def tcpInit (w : World) (failure : Option ConnectStep) : World :=
  if (w.conn.state = .new ∨ w.conn.state = .disconnected) ∧ failure ≠ some .handle then
    { w.setHandle w.count ⟨true, false, false, failure.isNone, [], false⟩ with count := w.count + 1 }
  else w

end World

def step (w : World) : Label → Option World
  | .connectBegin failure =>
    if failure = some .tcpInit then none
    else
      let begun := w.tcpInit failure
      some (begun.run (tcpConnectBegin begun.closing w.count failure w.conn).2)
  | .writeBegin ticks data outcome =>
    if w.conn.tcpHandle.all fun h => (w.handles h).attached then
      some (w.run (tcpWriteBegin w.closing ticks data outcome w.conn))
    else some w
  | .disconnect => some (w.run (tcpConnDisconnect w.closing w.conn))
  | .connectedCb h connected reading =>
    if (w.handles h).connecting && !((w.handles h).closing && connected) then
      let called := w.setHandle h
        { w.handles h with connecting := false, attached := connected || (w.handles h).attached
                           reading := connected && reading }
      some (called.run (onTcpConnectedCb called.closing h connected reading w.conn))
    else none
  | .recvCb h now read =>
    if (w.handles h).reading && !(w.handles h).closing && (w.handles h).attached then
      (onTcpRecvCb w.closing now read w.conn).map w.run
    else none
  | .writeCb h now status length =>
    if length ∈ (w.handles h).writes then
      let called := w.setHandle h { w.handles h with writes := (w.handles h).writes.erase length }
      some (called.run (onTcpWriteCb called.closing now status length w.conn))
    else none
  | .closeCb h =>
    if (w.handles h).closing && !(w.handles h).closed && !(w.handles h).connecting &&
        (w.handles h).writes.isEmpty then
      some { w.setHandle h { w.handles h with closed := true } with
        conn := if (w.handles h).attached then onTcpCloseCb w.conn else w.conn }
    else none

def initialWorld (ctx : Context) (mem : Nat → UInt8) : World :=
  ⟨tcpConnInit ctx mem, fun _ => .unused, 0, []⟩

/-- The connection and libuv agree, and only the handle of the connection is active. -/
structure Ordered (w : World) : Prop where
  current : ∀ h, w.conn.tcpHandle = some h →
    h < w.count ∧ (w.handles h).attached = true ∧ (w.handles h).closed = false ∧
      ((w.handles h).closing = true ↔ w.conn.state = .disconnecting)
  engaged : w.conn.state = .connecting ∨ w.conn.state = .connected ∨ w.conn.state = .disconnecting →
    ∃ h, w.conn.tcpHandle = some h
  alone : ∀ h, (w.handles h).active = true →
    w.conn.tcpHandle = some h ∧ w.conn.state ≠ .new ∧ w.conn.state ≠ .disconnected
  counted : ∀ h, w.closes.count h = if (w.handles h).closing then 1 else 0
  unnamed : ∀ h, w.count ≤ h → w.handles h = .unused

section Step

variable {w : World}

/-- Most fields of the connection are of no concern here. -/
theorem Ordered.keep (ordered : Ordered w) {c : Conn} (state : c.state = w.conn.state)
    (handle : c.tcpHandle = w.conn.tcpHandle) : Ordered { w with conn := c } := by
  obtain ⟨current,engaged,alone,counted,unnamed⟩ := ordered
  refine ⟨?_,?_,?_,counted,unnamed⟩
  · simpa only [state,handle] using current
  · simpa only [state,handle] using engaged
  · simpa only [state,handle] using alone

theorem tcpConnDisconnect_cases (closing : Nat → Bool) (c : Conn) :
    tcpConnDisconnect closing c = (c, []) ∨
      ∃ h, c.tcpHandle = some h ∧ closing h = false ∧
        tcpConnDisconnect closing c = ({ c with state := .disconnecting }, [.uvClose h]) := by
  unfold tcpConnDisconnect
  split
  · exact .inl rfl
  · split
    · exact .inl rfl
    · next h handle =>
      split
      · exact .inl rfl
      · next open' => exact .inr ⟨h,handle,by simpa using open',rfl⟩

theorem Ordered.disconnect (ordered : Ordered w) : Ordered (w.run (tcpConnDisconnect w.closing w.conn)) := by
  rcases tcpConnDisconnect_cases w.closing w.conn with same | ⟨h,handle,open',closes⟩
  · rw [same]
    exact ordered
  · rw [closes]
    obtain ⟨current,engaged,alone,counted,unnamed⟩ := ordered
    simp only [World.closing] at open'
    refine ⟨?_,?_,?_,?_,?_⟩ <;>
      simp only [World.run,List.foldl_cons,List.foldl_nil,World.perform,World.setHandle,
        Function.update_apply,List.count_append,List.count_singleton,counted]
    all_goals grind -linarith [TcpHandle.active]

/-- A callback changes what is pending on its handle. -/
theorem Ordered.called (ordered : Ordered w) {h : Nat} {handle : TcpHandle} (was : (w.handles h).active = true)
    (attached : (w.handles h).attached = true → handle.attached = true)
    (closing : handle.closing = (w.handles h).closing) (closed : handle.closed = (w.handles h).closed) :
    Ordered (w.setHandle h handle) := by
  obtain ⟨current,engaged,alone,counted,unnamed⟩ := ordered
  obtain ⟨handle',state,state'⟩ := alone h was
  obtain ⟨named,-⟩ := current h handle'
  refine ⟨?_,engaged,?_,?_,?_⟩ <;> simp only [World.setHandle,Function.update_apply,counted]
  all_goals grind -linarith

/-- A fresh handle, with a connect request if the state says so. -/
theorem Ordered.begun (ordered : Ordered w) (ended : w.conn.state = .new ∨ w.conn.state = .disconnected)
    {c : Conn} {pending : Bool} (handle : c.tcpHandle = some w.count) (going : c.state ≠ .disconnecting)
    (state : pending = true → c.state = .connecting) :
    Ordered { w.setHandle w.count ⟨true,false,false,pending,[],false⟩ with count := w.count + 1, conn := c } := by
  obtain ⟨current,engaged,alone,counted,unnamed⟩ := ordered
  have fresh := unnamed w.count (Nat.le_refl _)
  refine ⟨?_,?_,?_,?_,?_⟩ <;> simp only [World.setHandle,Function.update_apply,counted,handle]
  all_goals grind -linarith [TcpHandle.active,TcpHandle.unused]

theorem Ordered.connectBegin (ordered : Ordered w) (failure : Option ConnectStep) :
    Ordered ((w.tcpInit failure).run
      (tcpConnectBegin (w.tcpInit failure).closing w.count failure w.conn).2) := by
  by_cases ended : w.conn.state = .new ∨ w.conn.state = .disconnected
  · have going : ¬ (w.conn.state ≠ .new ∧ w.conn.state ≠ .disconnected) := by tauto
    have idle : w.conn.state ≠ .disconnecting := by rcases ended with same | same <;> simp [same]
    by_cases memory : failure = some .handle
    · subst memory
      obtain ⟨current,engaged,alone,counted,unnamed⟩ := ordered
      simp only [tcpConnectBegin,going,if_false,World.tcpInit,ne_eq,not_true_eq_false,and_false,World.run,
        List.foldl_nil]
      refine ⟨by simp,?_,?_,counted,unnamed⟩
      · grind -linarith
      · grind -linarith
    · have init : w.tcpInit failure =
          { w.setHandle w.count ⟨true,false,false,failure.isNone,[],false⟩ with count := w.count + 1 } := by
        simp only [World.tcpInit,ended,true_and,ne_eq,memory,not_false_eq_true,if_true]
      have closes {c : Conn} (none' : failure.isNone = false) (handle : c.tcpHandle = some w.count)
          (state : c.state ≠ .disconnecting) :
          Ordered ((w.tcpInit failure).run (tcpConnDisconnect (w.tcpInit failure).closing c)) := by
        rw [init]
        exact (ordered.begun ended handle state (by simp [none'])).disconnect
      cases failure with
      | none =>
        simp only [tcpConnectBegin,going,if_false,World.run,List.foldl_nil]
        rw [init]
        exact ordered.begun ended rfl (by simp) fun _ => rfl
      | some call =>
        cases call with
        | handle => exact absurd rfl memory
        | connect =>
          simp only [tcpConnectBegin,going,if_false]
          exact closes rfl rfl (by simp)
        | _ =>
          simp only [tcpConnectBegin,going,if_false]
          exact closes rfl rfl idle
  · have busy : w.conn.state ≠ .new ∧ w.conn.state ≠ .disconnected := not_or.mp ended
    simp only [tcpConnectBegin,if_pos busy,World.tcpInit,ended,false_and,if_false,World.run,List.foldl_nil]
    exact ordered

theorem tcpWriteBegin_cases (closing : Nat → Bool) (ticks : UInt64) (data : List UInt8) (outcome : WriteOutcome)
    (c : Conn) :
    tcpWriteBegin closing ticks data outcome c = (c, []) ∨
      ∃ h c', c.tcpHandle = some h ∧ (c.state = .connecting ∨ c.state = .connected) ∧
        c'.tcpHandle = c.tcpHandle ∧ c'.state = .connected ∧
        (tcpWriteBegin closing ticks data outcome c = (c', []) ∨
          (∃ bytes, tcpWriteBegin closing ticks data outcome c = (c', [.uvWrite h bytes])) ∨
          tcpWriteBegin closing ticks data outcome c = tcpConnDisconnect closing c') := by
  unfold tcpWriteBegin
  split
  · exact .inl rfl
  · next h handle =>
    split
    · exact .inl rfl
    · split
      · exact .inl rfl
      · next going =>
        right
        refine ⟨h,{ c with state := .connected, currentMsgId := c.currentMsgId + 1 },handle,by tauto,rfl,rfl,?_⟩
        simp only
        split
        · exact .inl rfl
        · split
          · exact .inl rfl
          · split
            · exact .inr (.inl ⟨_,rfl⟩)
            · exact .inr (.inr rfl)
            · exact .inl rfl

theorem Ordered.writeBegin (ordered : Ordered w) (ticks : UInt64) (data : List UInt8) (outcome : WriteOutcome) :
    Ordered (w.run (tcpWriteBegin w.closing ticks data outcome w.conn)) := by
  rcases tcpWriteBegin_cases w.closing ticks data outcome w.conn with
    same | ⟨h,c,handle,going,kept,state,result⟩
  · rw [same]
    exact ordered
  · have connected : Ordered { w with conn := c } := by
      obtain ⟨current,engaged,alone,counted,unnamed⟩ := ordered
      refine ⟨?_,?_,?_,counted,unnamed⟩ <;> simp only [kept,state]
      all_goals grind -linarith
    rcases result with same | ⟨bytes,same⟩ | same
    · rw [same]
      exact connected
    · rw [same]
      obtain ⟨current,engaged,alone,counted,unnamed⟩ := connected
      simp only [kept,handle,state] at current engaged alone
      refine ⟨?_,?_,?_,?_,?_⟩ <;>
        simp only [World.run,List.foldl_cons,List.foldl_nil,World.perform,World.setHandle,
          Function.update_apply,counted,kept,handle,state]
      all_goals grind -linarith [TcpHandle.active]
    · rw [same]
      exact connected.disconnect

/-- Decoding touches neither the state nor the handle and calls nothing of libuv. -/
structure Untouched (c c' : Conn) (effects : List Effect) : Prop where
  state : c'.state = c.state
  handle : c'.tcpHandle = c.tcpHandle
  logs : ∀ effect ∈ effects, ∃ nread span expected received,
    effect = .idMismatch nread span expected received

theorem decode_untouched {now : UInt64} {nread fuel : Nat} {c c' : Conn} {latency : UInt64}
    {latency' : Option UInt64} {effects : List Effect}
    (decoded : decode now nread fuel c latency = some (c', latency', effects)) : Untouched c c' effects := by
  obtain ⟨only,logs⟩ := decode_only decoded
  exact ⟨only.same Conn.state fun _ _ _ _ => rfl,only.same Conn.tcpHandle fun _ _ _ _ => rfl,logs⟩

theorem run_logs {effects : List Effect} (c : Conn)
    (logs : ∀ effect ∈ effects, ∃ nread span expected received,
      effect = .idMismatch nread span expected received) : w.run (c, effects) = { w with conn := c } := by
  suffices ∀ w : World, effects.foldl World.perform w = w from this _
  intro w
  induction effects generalizing w with
  | nil => rfl
  | cons effect rest ih =>
    obtain ⟨nread,span,expected,received,rfl⟩ := logs effect List.mem_cons_self
    exact ih (fun effect member => logs effect (List.mem_cons_of_mem _ member)) w

theorem Ordered.recv (ordered : Ordered w) {now : UInt64} {read : Read} {r : Conn × List Effect}
    (ran : onTcpRecvCb w.closing now read w.conn = some r) : Ordered (w.run r) := by
  unfold onTcpRecvCb at ran
  split at ran
  · next code =>
    cases ran
    exact (ordered.keep (c := { w.conn with readErr := code }) rfl rfl).disconnect
  · cases ran
    exact ordered
  · next bytes =>
    split at ran
    · cases ran
      exact ordered
    · obtain ⟨⟨c,latency,effects⟩,decoded,rfl⟩ := Option.map_eq_some_iff.mp ran
      obtain ⟨state,handle,logs⟩ := decode_untouched decoded
      rw [run_logs _ logs]
      split
      · exact ordered.keep state handle
      · exact ordered.keep state handle

theorem Ordered.write (ordered : Ordered w) (now : UInt64) (status : Int) (length : Nat) :
    Ordered (w.run (onTcpWriteCb w.closing now status length w.conn)) := by
  have counted (c : Conn) (state : c.state = w.conn.state) (handle : c.tcpHandle = w.conn.tcpHandle) :
      Ordered (w.run (if status ≠ 0 ∨ c.state ≠ .connected then tcpConnDisconnect w.closing c else (c, []))) := by
    have kept := ordered.keep state handle
    split
    · exact kept.disconnect
    · exact kept
  unfold onTcpWriteCb
  refine counted _ ?_ ?_
  · split
    · rfl
    · split <;> rfl
  · split
    · rfl
    · split <;> rfl

theorem Ordered.connected (ordered : Ordered w) {h : Nat} (handle : w.conn.tcpHandle = some h)
    (success reading : Bool) (open' : success = true → (w.handles h).closing = false) :
    Ordered (w.run (onTcpConnectedCb w.closing h success reading w.conn)) := by
  unfold onTcpConnectedCb
  split
  · exact ordered.disconnect
  · next status =>
    have live := open' (by simpa using status)
    have connected : Ordered { w with conn := { w.conn with state := .connected, tcpHandle := some h } } := by
      obtain ⟨current,engaged,alone,counted,unnamed⟩ := ordered
      refine ⟨?_,?_,?_,counted,unnamed⟩
      all_goals grind -linarith
    simp only
    split
    · exact connected
    · exact connected.disconnect

/-- The last callback of a handle. -/
theorem Ordered.closed (ordered : Ordered w) {h : Nat} (closing : (w.handles h).closing = true)
    (waiting : (w.handles h).closed = false) (connect : (w.handles h).connecting = false)
    (writes : (w.handles h).writes = []) :
    Ordered { w.setHandle h { w.handles h with closed := true } with conn := onTcpCloseCb w.conn } := by
  obtain ⟨current,engaged,alone,counted,unnamed⟩ := ordered
  have active : (w.handles h).active = true := by simp [TcpHandle.active,closing,waiting]
  obtain ⟨handle,-,-⟩ := alone h active
  have named := (current h handle).1
  refine ⟨by simp [onTcpCloseCb],?_,?_,?_,?_⟩ <;>
    simp only [onTcpCloseCb,World.setHandle,Function.update_apply,counted]
  all_goals grind -linarith [TcpHandle.active]

/-- A callback is due on its handle. -/
theorem callback_active {w' : World} {label : Label} {h : Nat} (about : label.callback = some h)
    (taken : step w label = some w') : (w.handles h).active = true := by
  cases label with
  | connectedCb h' connected reading =>
    obtain rfl := Option.some.inj about
    simp only [step] at taken
    split at taken
    · next pending => simp_all [TcpHandle.active]
    · cases taken
  | recvCb h' now read =>
    obtain rfl := Option.some.inj about
    simp only [step] at taken
    split at taken
    · next pending => simp_all [TcpHandle.active]
    · cases taken
  | writeCb h' now status length =>
    obtain rfl := Option.some.inj about
    simp only [step] at taken
    split at taken
    · next pending =>
      have some' : (w.handles h').writes ≠ [] := List.ne_nil_of_mem pending
      simp [TcpHandle.active,some']
    · cases taken
  | closeCb h' =>
    obtain rfl := Option.some.inj about
    simp only [step] at taken
    split at taken
    · next pending => simp_all [TcpHandle.active]
    · cases taken
  | _ => cases about

/-- libuv only calls back on the handle of the connection. -/
theorem Ordered.callback (ordered : Ordered w) {w' : World} {label : Label} {h : Nat}
    (about : label.callback = some h) (taken : step w label = some w') :
    (w.handles h).active = true ∧ w.conn.tcpHandle = some h := by
  have active := callback_active about taken
  exact ⟨active,(ordered.alone h active).1⟩

theorem Ordered.step (ordered : Ordered w) {w' : World} {label : Label} (taken : step w label = some w') :
    Ordered w' := by
  cases label with
  | connectBegin failure =>
    simp only [Connection.step] at taken
    split at taken
    · cases taken
    · cases taken
      exact ordered.connectBegin failure
  | writeBegin ticks data outcome =>
    simp only [Connection.step] at taken
    split at taken
    · cases taken
      exact ordered.writeBegin ticks data outcome
    · cases taken
      exact ordered
  | disconnect =>
    cases taken
    exact ordered.disconnect
  | connectedCb h connected reading =>
    obtain ⟨active,handle⟩ := ordered.callback rfl taken
    simp only [Connection.step] at taken
    split at taken
    · next pending =>
      cases taken
      have called : Ordered (w.setHandle h
          { w.handles h with connecting := false, attached := connected || (w.handles h).attached
                             reading := connected && reading }) :=
        ordered.called active (fun attached => by simp [attached]) rfl rfl
      refine called.connected handle connected reading ?_
      intro success
      simpa [World.setHandle,success] using (Bool.and_eq_true_iff.mp pending).2
    · cases taken
  | recvCb h now read =>
    simp only [Connection.step] at taken
    split at taken
    · obtain ⟨r,ran,rfl⟩ := Option.map_eq_some_iff.mp taken
      exact ordered.recv ran
    · cases taken
  | writeCb h now status length =>
    obtain ⟨active,handle⟩ := ordered.callback rfl taken
    simp only [Connection.step] at taken
    split at taken
    · cases taken
      have called : Ordered (w.setHandle h
          { w.handles h with writes := (w.handles h).writes.erase length }) :=
        ordered.called active id rfl rfl
      exact called.write now status length
    · cases taken
  | closeCb h =>
    obtain ⟨active,handle⟩ := ordered.callback rfl taken
    simp only [Connection.step] at taken
    split at taken
    · next last =>
      simp only [Bool.and_eq_true,Bool.not_eq_true',List.isEmpty_iff] at last
      obtain ⟨⟨⟨closing,waiting⟩,connect⟩,writes⟩ := last
      cases taken
      rw [if_pos (ordered.current h handle).2.1]
      exact ordered.closed closing waiting connect writes
    · cases taken

end Step

theorem initialWorld_ordered (ctx : Context) (mem : Nat → UInt8) : Ordered (initialWorld ctx mem) := by
  refine ⟨?_,?_,?_,?_,fun _ _ => rfl⟩ <;>
    simp [initialWorld,tcpConnInit,TcpHandle.active,TcpHandle.unused]

/-- For every order of calls and callbacks: a handle is closed once at most; the connection
is disconnecting exactly while its handle is closing; one that is connecting or connected has
a live handle that points back to it; and a callback is always one of the handle that the
connection has, so that none of an earlier handle changes a later attempt. -/
theorem connection_lifecycle (ctx : Context) (mem : Nat → UInt8) (w : World)
    (reach : Transition.Reachable step (fun _ _ => True) (initialWorld ctx mem) w) :
    (∀ h, w.closes.count h ≤ 1) ∧
    (w.conn.state = .disconnecting ↔ ∃ h, w.conn.tcpHandle = some h ∧ (w.handles h).closing = true) ∧
    (w.conn.state = .connecting ∨ w.conn.state = .connected →
      ∃ h, w.conn.tcpHandle = some h ∧ (w.handles h).closing = false ∧ (w.handles h).attached = true) ∧
    ∀ label h w', label.callback = some h → step w label = some w' → w.conn.tcpHandle = some h := by
  have ordered : Ordered w := reach.invariant Ordered (initialWorld_ordered ctx mem)
    fun _ _ _ ordered _ taken => ordered.step taken
  refine ⟨?_,?_,?_,?_⟩
  · intro h
    rw [ordered.counted h]
    split <;> omega
  · constructor
    · intro state
      obtain ⟨h,handle⟩ := ordered.engaged (.inr (.inr state))
      exact ⟨h,handle,(ordered.current h handle).2.2.2.mpr state⟩
    · rintro ⟨h,handle,closing⟩
      exact (ordered.current h handle).2.2.2.mp closing
  · intro going
    obtain ⟨h,handle⟩ := ordered.engaged (by tauto)
    obtain ⟨-,attached,-,closing⟩ := ordered.current h handle
    refine ⟨h,handle,?_,attached⟩
    rw [← Bool.not_eq_true,closing]
    rcases going with same | same <;> simp [same]
  · intro label h w' about taken
    exact (ordered.callback about taken).2

/-- A connect is cancelled, the next attempt fails without a close, and a third succeeds. -/
def thirdAttempt : List Label :=
  [.connectBegin none,.disconnect,.connectedCb 0 false false,.closeCb 0,.connectBegin (some .bind),
    .connectBegin none,.writeBegin 0 [1] .sent,.connectedCb 2 true true]

theorem connection_lifecycle_third :
    ∃ w, Transition.Reachable step (fun _ _ => True) (initialWorld ⟨0,0,0,0⟩ fun _ => 0) w ∧
      w.conn.state = .connected ∧ w.conn.tcpHandle = some 2 ∧ w.closes = [0] ∧
      ∃ h, w.conn.tcpHandle = some h ∧ (w.handles h).closing = false ∧ (w.handles h).attached = true := by
  have observed : (Transition.execute step thirdAttempt (initialWorld ⟨0,0,0,0⟩ fun _ => 0)).map
      (fun w => (w.conn.state,w.conn.tcpHandle,w.closes)) = some (.connected,some 2,[0]) := by decide +kernel
  obtain ⟨w,run,seen⟩ := Option.map_eq_some_iff.mp observed
  simp only [Prod.mk.injEq] at seen
  obtain ⟨state,handle,closes⟩ := seen
  have reach : Transition.Reachable step (fun _ _ => True) (initialWorld ⟨0,0,0,0⟩ fun _ => 0) w :=
    .of_execute (fun _ _ _ => trivial) run
  exact ⟨w,reach,state,handle,closes,(connection_lifecycle _ _ w reach).2.2.1 (.inr state)⟩

end Tcpeen.Connection
