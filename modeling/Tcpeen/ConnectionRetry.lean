import Tcpeen.ConnectionHistory

/-! Attempts to connect that fail. The clean-up of `tcp_connect_begin` is `tcp_conn_disconnect`,
which goes by the state of the connection: on a first attempt it closes whatever handle there
is, on a later one it closes none before the state is `CS_CONNECTING`. -/
namespace Tcpeen.Connection

/-- The call of `uv_tcp_init` comes before the one that fails. -/
def ConnectStep.initialised : ConnectStep → Bool
  | .handle | .tcpInit => false
  | _ => true

/-- The attempt returns an error, and its handle has been passed to `uv_close` if it was
initialised and not if it was not. -/
def Released (closing : Nat → Bool) (fresh : Nat) (failure : ConnectStep) (c : Conn) : Prop :=
  (tcpConnectBegin closing fresh (some failure) c).1 = false ∧
    (.uvClose fresh ∈ (tcpConnectBegin closing fresh (some failure) c).2.2 ↔ failure.initialised = true)

/-- The state and the failing call go together. `answer` is what `uv_is_closing` reads off a
handle that was never initialised. -/
def Covered (answer : Bool) (c : Conn) : ConnectStep → Prop
  | .handle | .connect => True
  | .tcpInit => c.state = .disconnected ∨ answer = true
  | _ => c.state = .new

theorem released_iff (closing : Nat → Bool) (fresh : Nat) (failure : ConnectStep) (c : Conn)
    (startable : c.state = .new ∨ c.state = .disconnected)
    (live : failure.initialised = true → closing fresh = false) :
    Released closing fresh failure c ↔ Covered (closing fresh) c failure := by
  have going : ¬ (c.state ≠ .new ∧ c.state ≠ .disconnected) := by tauto
  simp only [Released,tcpConnectBegin,if_neg going]
  cases failure with
  | handle => simp [Covered,ConnectStep.initialised]
  | connect => simp [Covered,ConnectStep.initialised,tcpConnDisconnect,live rfl]
  | tcpInit =>
    rcases startable with state | state
    · cases answer : closing fresh <;> simp [Covered,ConnectStep.initialised,tcpConnDisconnect,state,answer]
    · simp [Covered,ConnectStep.initialised,tcpConnDisconnect,state]
  | _ =>
    rcases startable with state | state <;>
      simp [Covered,ConnectStep.initialised,tcpConnDisconnect,state,live rfl]

/-! ### Retries -/

/-- The steps of a connection, and attempts whose `uv_tcp_init` fails. -/
inductive Attempt
  | call (label : Label)
  | initFails (answer : Bool)
  deriving DecidableEq, Repr

/-- The calls that look into the handle of the connection. -/
def Label.reads (c : Conn) : Label → Bool
  | .writeBegin .. => true
  | .disconnect => c.state ≠ .disconnected && c.state ≠ .disconnecting
  | _ => false

/-- The handle is allocated, but libuv does not know it. -/
def initFails (w : World) (answer : Bool) : World :=
  let begun := if w.conn.state = .new ∨ w.conn.state = .disconnected then { w with count := w.count + 1 } else w
  begun.run (tcpConnectBegin (fun h => if h = w.count then answer else w.closing h) w.count (some .tcpInit) w.conn).2

/-- Calls that would read a handle without `uv_tcp_init` are left out. -/
def retryStep (w : World) : Attempt → Option World
  | .call label =>
    if label.reads w.conn && !(w.conn.tcpHandle.all fun h => (w.handles h).attached) then none else step w label
  | .initFails answer => some (initFails w answer)

def Attempt.Covered (w : World) : Attempt → Prop
  | .call (.connectBegin (some failure)) =>
    w.conn.state = .new ∨ w.conn.state = .disconnected → Connection.Covered false w.conn failure
  | .initFails answer =>
    w.conn.state = .new ∨ w.conn.state = .disconnected → Connection.Covered answer w.conn .tcpInit
  | _ => True

instance decidableCovered (answer : Bool) (c : Conn) : (failure : ConnectStep) → Decidable (Covered answer c failure)
  | .handle | .connect => inferInstanceAs (Decidable True)
  | .tcpInit => inferInstanceAs (Decidable (_ ∨ _))
  | .hostRemote | .hostLocal | .nodelay | .bind | .request => inferInstanceAs (Decidable (_ = _))

instance decidableAttempt (w : World) : (attempt : Attempt) → Decidable (attempt.Covered w)
  | .call (.connectBegin (some _)) | .initFails _ => inferInstanceAs (Decidable (_ → _))
  | .call (.connectBegin none) | .call (.writeBegin ..) | .call .disconnect | .call (.connectedCb ..)
  | .call (.recvCb ..) | .call (.writeCb ..) | .call (.closeCb _) => inferInstanceAs (Decidable True)

/-- The connection without the handle it was given. -/
def World.cleared (w : World) : World := { w with conn := { w.conn with tcpHandle := none } }

/-- The handle of the connection was never initialised. -/
structure Bare (w : World) : Prop where
  ordered : Ordered w.cleared
  startable : w.conn.state = .new ∨ w.conn.state = .disconnected
  bare : ∃ h, w.conn.tcpHandle = some h ∧ (w.handles h).attached = false

/-- Every initialised handle is closing or the one of the connection, and all of them are
closing before an attempt. -/
structure Contained (w : World) : Prop where
  sound : Ordered w ∨ Bare w
  kept : ∀ h, (w.handles h).attached = true → (w.handles h).closing = true ∨ w.conn.tcpHandle = some h
  ended : w.conn.state = .new ∨ w.conn.state = .disconnected →
    ∀ h, (w.handles h).attached = true → (w.handles h).closing = true

section Steps

variable {w w' : World}

/-- Calls and callbacks on a handle that is there. -/
theorem Contained.move (contained : Contained w) (ordered : Ordered w) {label : Label}
    (other : ∀ failure, label ≠ .connectBegin failure) (moved : step w label = some w') : Contained w' := by
  have follows := ordered.follows moved
  have carries (h : Nat) (attached : (w'.handles h).attached = true) : (w.handles h).attached = true ∧
      ((w.handles h).closing = true → (w'.handles h).closing = true) := by
    rcases step_carried (h := h) (fun failure same => absurd same (other failure)) moved with
      carried | ⟨-,about,closing⟩
    · exact ⟨carried.attached ▸ attached,carried.closing⟩
    · exact ⟨(ordered.current h (ordered.callback about moved).2).2.1,closing⟩
  refine ⟨.inl (ordered.step moved),?_,?_⟩
  · intro h attached
    obtain ⟨before,closing⟩ := carries h attached
    rcases contained.kept h before with left | handle
    · exact .inl (closing left)
    · cases follows.moves with
      | holds holds => exact .inr (holds.handle.trans handle)
      | begun _ _ => exact absurd rfl (other _)
      | closed handle' left _ _ =>
        obtain rfl := Option.some.inj (handle.symm.trans handle')
        exact .inl (closing left)
  · intro startable h attached
    obtain ⟨before,closing⟩ := carries h attached
    cases follows.moves with
    | holds holds =>
      have same : w'.conn.state = w.conn.state := by
        rcases holds.onward with same | same | same
        · exact same
        · simp [same] at startable
        · simp [same] at startable
      exact closing (contained.ended (same ▸ startable) h before)
    | begun _ _ => exact absurd rfl (other _)
    | closed handle left _ _ =>
      rcases contained.kept h before with left' | handle'
      · exact closing left'
      · obtain rfl := Option.some.inj (handle.symm.trans handle')
        exact closing left

/-- The world behind an attempt that gets an initialised handle. -/
theorem tcpInit_handles {failure : Option ConnectStep}
    (startable : w.conn.state = .new ∨ w.conn.state = .disconnected) (memory : failure ≠ some .handle) (h : Nat) :
    (w.tcpInit failure).handles h =
      if h = w.count then ⟨true,false,false,failure.isNone,[],false⟩ else w.handles h := by
  simp [World.tcpInit,startable,memory,World.setHandle,Function.update_apply]

/-- An attempt that fails behind `uv_tcp_init` ends with its handle closing. -/
theorem covered_closes {call : ConnectStep} (startable : w.conn.state = .new ∨ w.conn.state = .disconnected)
    (init : call.initialised = true) (covered : Covered false w.conn call) :
    ∃ c, (tcpConnectBegin (w.tcpInit (some call)).closing w.count (some call) w.conn).2 = (c, [.uvClose w.count]) ∧
      c.state = .disconnecting := by
  have going : ¬ (w.conn.state ≠ .new ∧ w.conn.state ≠ .disconnected) := by tauto
  have live : (w.tcpInit (some call)).closing w.count = false := by
    rw [World.closing,tcpInit_handles startable (by cases call <;> simp [ConnectStep.initialised] at init ⊢)]
    simp
  cases call with
  | handle | tcpInit => cases init
  | connect => exact ⟨_,by simp only [tcpConnectBegin,if_neg going,tcpConnDisconnect,live]; rfl,rfl⟩
  | _ =>
    have state : w.conn.state = .new := covered
    exact ⟨_,by simp only [tcpConnectBegin,state,tcpConnDisconnect,live]; rfl,rfl⟩

theorem tcpConnectBegin_busy (closing : Nat → Bool) (fresh : Nat) (failure : Option ConnectStep) {c : Conn}
    (busy : ¬ (c.state = .new ∨ c.state = .disconnected)) :
    tcpConnectBegin closing fresh failure c = (false, c, []) := if_pos (not_or.mp busy)

theorem tcpConnectBegin_succeeds (closing : Nat → Bool) (fresh : Nat) {c : Conn}
    (startable : c.state = .new ∨ c.state = .disconnected) :
    tcpConnectBegin closing fresh none c = (true, { c with tcpHandle := some fresh, state := .connecting }, []) :=
  if_neg fun busy => not_or.mpr busy startable

theorem tcpConnectBegin_memory (closing : Nat → Bool) (fresh : Nat) {c : Conn}
    (startable : c.state = .new ∨ c.state = .disconnected) :
    tcpConnectBegin closing fresh (some .handle) c = (false, { c with tcpHandle := none }, []) :=
  if_neg fun busy => not_or.mpr busy startable

theorem Contained.attempt (contained : Contained w) (ordered : Ordered w) {failure : Option ConnectStep}
    (covered : (Attempt.call (.connectBegin failure)).Covered w)
    (moved : step w (.connectBegin failure) = some w') : Contained w' := by
  have sound := Or.inl (b := Bare w') (ordered.step moved)
  simp only [step] at moved
  split at moved
  · cases moved
  · next init =>
    obtain rfl := Option.some.inj moved
    by_cases startable : w.conn.state = .new ∨ w.conn.state = .disconnected
    · have closed := contained.ended startable
      have old {r : Conn × List Effect} {h : Nat} (memory : failure ≠ some .handle) (other : h ≠ w.count)
          (attached : (((w.tcpInit failure).run r).handles h).attached = true) :
          (((w.tcpInit failure).run r).handles h).closing = true := by
        have carried := run_carried (w.tcpInit failure) r h
        rw [tcpInit_handles startable memory,if_neg other] at carried
        exact carried.closing (closed h (carried.attached ▸ attached))
      cases failure with
      | none =>
        refine ⟨sound,?_,?_⟩
        · intro h attached
          by_cases own : h = w.count
          · right
            rw [run_conn,tcpConnectBegin_succeeds _ _ startable,own]
          · exact .inl (old (by simp) own attached)
        · intro again
          rw [run_conn,tcpConnectBegin_succeeds _ _ startable] at again
          simp at again
      | some call =>
        by_cases memory : call = .handle
        · subst memory
          rw [tcpConnectBegin_memory _ _ startable] at sound ⊢
          have left : ∀ h, (((w.tcpInit (some .handle)).run ({ w.conn with tcpHandle := none },
            [])).handles h).attached =
              true → (((w.tcpInit (some .handle)).run ({ w.conn with tcpHandle := none }, [])).handles h).closing =
                true := by
            simpa [World.tcpInit,World.run] using closed
          exact ⟨sound,fun h attached => .inl (left h attached),fun _ => left⟩
        · obtain ⟨c,same,state⟩ := covered_closes startable (by cases call <;> simp_all [ConnectStep.initialised])
            (covered startable)
          rw [same] at sound ⊢
          have left : ∀ h, (((w.tcpInit (some call)).run (c,[.uvClose w.count])).handles h).attached = true →
              (((w.tcpInit (some call)).run (c,[.uvClose w.count])).handles h).closing = true := by
            intro h attached
            by_cases own : h = w.count
            · simp [own,World.run,World.perform,World.setHandle]
            · exact old (by simpa using memory) own attached
          exact ⟨sound,fun h attached => .inl (left h attached),fun _ => left⟩
    · have same : (w.tcpInit failure).run (tcpConnectBegin (w.tcpInit failure).closing w.count failure w.conn).2 =
          w := by
        rw [tcpConnectBegin_busy _ _ _ startable]
        simp [World.tcpInit,startable,World.run]
      rw [same]
      exact contained

theorem Ordered.cleared (ordered : Ordered w) (startable : w.conn.state = .new ∨ w.conn.state = .disconnected) :
    Ordered w.cleared := by
  obtain ⟨-,-,alone,counted,unnamed⟩ := ordered
  refine ⟨?_,?_,?_,counted,unnamed⟩
  · intro h handle
    cases handle
  · intro going
    rcases startable with state | state <;> simp [World.cleared,state] at going
  · intro h active
    obtain ⟨-,new,disconnected⟩ := alone h active
    rcases startable with state | state
    · exact absurd state new
    · exact absurd state disconnected

theorem Contained.cleared (contained : Contained w) (startable : w.conn.state = .new ∨ w.conn.state = .disconnected) :
    Ordered w.cleared ∧ Contained w.cleared := by
  have ordered : Ordered w.cleared := by
    rcases contained.sound with ordered | bare
    · exact ordered.cleared startable
    · exact bare.ordered
  have closed := contained.ended startable
  exact ⟨ordered,.inl ordered,fun h attached => .inl (closed h attached),fun _ => closed⟩

/-- An attempt forgets the handle before it. -/
theorem connectBegin_cleared (startable : w.conn.state = .new ∨ w.conn.state = .disconnected)
    (failure : Option ConnectStep) : step w (.connectBegin failure) = step w.cleared (.connectBegin failure) := by
  have going : ¬ (w.conn.state ≠ .new ∧ w.conn.state ≠ .disconnected) := by tauto
  have same (closing : Nat → Bool) : tcpConnectBegin closing w.count failure w.conn =
      tcpConnectBegin closing w.count failure w.cleared.conn := by
    unfold tcpConnectBegin
    rw [if_neg going,if_neg (show ¬ (w.cleared.conn.state ≠ .new ∧ w.cleared.conn.state ≠ .disconnected) from going)]
    cases failure with
    | none => rfl
    | some call => cases call <;> rfl
  have begun (r : Conn × List Effect) : (w.tcpInit failure).run r = (w.cleared.tcpInit failure).run r := by
    unfold World.tcpInit World.run World.cleared
    split <;> rfl
  have closing : (w.tcpInit failure).closing = (w.cleared.tcpInit failure).closing := by
    unfold World.tcpInit World.closing World.cleared
    split <;> rfl
  simp only [step,same,begun,closing]
  rfl

theorem initFails_covered {answer : Bool} (startable : w.conn.state = .new ∨ w.conn.state = .disconnected)
    (covered : Covered answer w.conn .tcpInit) :
    initFails w answer = { w with conn := { w.conn with tcpHandle := some w.count }, count := w.count + 1 } := by
  have going : ¬ (w.conn.state ≠ .new ∧ w.conn.state ≠ .disconnected) := by tauto
  rcases covered with state | rfl
  · simp [initFails,tcpConnectBegin,tcpConnDisconnect,state,World.run]
  · rcases startable with state | state <;>
      simp [initFails,tcpConnectBegin,tcpConnDisconnect,state,World.run]

theorem Ordered.grown (ordered : Ordered w) : Ordered { w with count := w.count + 1 } := by
  obtain ⟨current,engaged,alone,counted,unnamed⟩ := ordered
  refine ⟨fun h handle => ?_,engaged,alone,counted,fun h above => unnamed h (Nat.le_of_succ_le above)⟩
  obtain ⟨known,rest⟩ := current h handle
  exact ⟨Nat.lt_succ_of_lt known,rest⟩

theorem Contained.initFails (contained : Contained w) {answer : Bool}
    (covered : (Attempt.initFails answer).Covered w) : Contained (initFails w answer) := by
  by_cases startable : w.conn.state = .new ∨ w.conn.state = .disconnected
  · obtain ⟨ordered,-⟩ := contained.cleared startable
    have closed := contained.ended startable
    have fresh : w.handles w.count = .unused := ordered.unnamed w.count (Nat.le_refl _)
    rw [initFails_covered startable (covered startable)]
    refine ⟨.inr ⟨ordered.grown,startable,w.count,rfl,?_⟩,fun h attached => .inl (closed h attached),fun _ => closed⟩
    rw [fresh]
    rfl
  · have same : Connection.initFails w answer = w := by
      rw [Connection.initFails,tcpConnectBegin_busy _ _ _ startable,if_neg startable]
      rfl
    rw [same]
    exact contained

/-- Nothing but a new attempt moves a connection whose handle was never initialised. -/
theorem Contained.bare (contained : Contained w) (bare : Bare w) {label : Label}
    (other : ∀ failure, label ≠ .connectBegin failure) (moved : retryStep w (.call label) = some w') :
    Contained w' := by
  obtain ⟨h,handle,unattached⟩ := bare.bare
  simp only [retryStep,handle,Option.all_some,unattached,Bool.not_false,Bool.and_true] at moved
  have quiet (h : Nat) : (w.handles h).active ≠ true := by
    intro active
    obtain ⟨-,new,disconnected⟩ := bare.ordered.alone h active
    rcases bare.startable with state | state
    · exact new state
    · exact disconnected state
  split at moved
  · cases moved
  · next reads =>
    cases label with
    | connectBegin failure => exact absurd rfl (other failure)
    | writeBegin ticks data outcome => exact absurd rfl reads
    | disconnect =>
      have state : w.conn.state = .disconnected := by
        rcases bare.startable with state | state
        · simp [Label.reads,state] at reads
        · exact state
      have same : w' = w := by
        simp only [step,tcpConnDisconnect,state,true_or,if_true,Option.some.injEq] at moved
        exact moved.symm
      rw [same]
      exact contained
    | connectedCb h' connected reading => exact absurd (callback_active rfl moved) (quiet h')
    | recvCb h' now read => exact absurd (callback_active rfl moved) (quiet h')
    | writeCb h' now status length => exact absurd (callback_active rfl moved) (quiet h')
    | closeCb h' => exact absurd (callback_active rfl moved) (quiet h')

theorem Contained.step (contained : Contained w) {attempt : Attempt} (covered : attempt.Covered w)
    (moved : retryStep w attempt = some w') : Contained w' := by
  cases attempt with
  | initFails answer =>
    obtain rfl := Option.some.inj moved
    exact contained.initFails covered
  | call label =>
    by_cases attempt : ∃ failure, label = .connectBegin failure
    · obtain ⟨failure,rfl⟩ := attempt
      have moved' : Connection.step w (.connectBegin failure) = some w' := moved
      rcases contained.sound with ordered | bare
      · exact contained.attempt ordered covered moved'
      · obtain ⟨ordered,contained'⟩ := contained.cleared bare.startable
        rw [connectBegin_cleared bare.startable] at moved'
        exact contained'.attempt ordered covered moved'
    · have other (failure : Option ConnectStep) : label ≠ .connectBegin failure :=
        fun same => attempt ⟨failure,same⟩
      rcases contained.sound with ordered | bare
      · refine contained.move ordered other ?_
        simp only [retryStep] at moved
        split at moved
        · cases moved
        · exact moved
      · exact contained.bare bare other moved

end Steps

/-- For every attempt that fails, from either state and at every call: its handle is closed if
it was initialised and only then, exactly where the state and the call go together. Over every
run of such attempts, with all calls and callbacks between them, no initialised handle is left
open but the one of the connection. -/
theorem retry_exact (ctx : Context) (mem : Nat → UInt8) :
    (∀ (closing : Nat → Bool) (fresh : Nat) (failure : ConnectStep) (c : Conn),
      c.state = .new ∨ c.state = .disconnected → (failure.initialised = true → closing fresh = false) →
      (Released closing fresh failure c ↔ Covered (closing fresh) c failure)) ∧
    ∀ w, Transition.Reachable retryStep (fun w attempt => attempt.Covered w) (initialWorld ctx mem) w →
      ∀ h, (w.handles h).attached = true → (w.handles h).closing = false → w.conn.tcpHandle = some h := by
  refine ⟨released_iff,fun w reach h attached open' => ?_⟩
  have contained : Contained w := by
    refine reach.invariant Contained ?_ fun _ _ _ contained covered moved => contained.step covered moved
    refine ⟨.inl (initialWorld_ordered ctx mem),?_,?_⟩ <;> simp [initialWorld,TcpHandle.unused]
  rcases contained.kept h attached with closing | handle
  · rw [closing] at open'
    cases open'
  · exact handle

/-- A first attempt that fails to bind, a second without `uv_tcp_init` and a third that works. -/
def coveredAttempts : List Attempt :=
  [.call (.connectBegin (some .bind)),.call (.closeCb 0),.initFails false,.call (.connectBegin none)]

theorem retry_covered :
    ∃ w, Transition.Reachable retryStep (fun w attempt => attempt.Covered w) (initialWorld ⟨0,0,0,0⟩ fun _ => 0) w ∧
      w.count = 3 ∧ (w.handles 2).attached = true ∧ w.conn.tcpHandle = some 2 := by
  have observed : (Transition.execute (Transition.checked retryStep fun w attempt => attempt.Covered w) coveredAttempts
      (initialWorld ⟨0,0,0,0⟩ fun _ => 0)).map (fun w => (w.count,(w.handles 2).attached,(w.handles 2).closing)) =
        some (3,true,false) := by decide +kernel
  obtain ⟨w,run,seen⟩ := Option.map_eq_some_iff.mp observed
  simp only [Prod.mk.injEq] at seen
  obtain ⟨count,attached,open'⟩ := seen
  have reach : Transition.Reachable retryStep (fun w attempt => attempt.Covered w)
      (initialWorld ⟨0,0,0,0⟩ fun _ => 0) w := .of_checked (fun _ _ test => of_decide_eq_true test) run
  exact ⟨w,reach,count,attached,(retry_exact _ _).2 w reach 2 attached open'⟩

/-- The second attempt fails to bind. -/
def leakingAttempts : List Attempt :=
  [.call (.connectBegin (some .bind)),.call (.closeCb 0),.call (.connectBegin (some .bind)),.call (.connectBegin none)]

/-- A retry that fails to bind leaves its handle open. -/
theorem retry_leaks :
    (¬ ∀ (closing : Nat → Bool) (fresh : Nat) (failure : ConnectStep) (c : Conn),
      c.state = .new ∨ c.state = .disconnected → (failure.initialised = true → closing fresh = false) →
      Released closing fresh failure c) ∧
    ∃ w, Transition.Reachable retryStep (fun _ _ => True) (initialWorld ⟨0,0,0,0⟩ fun _ => 0) w ∧
      (w.handles 1).attached = true ∧ (w.handles 1).closing = false ∧ w.conn.tcpHandle = some 2 := by
  constructor
  · intro always
    have released := always (fun _ => false) 1 .bind (onTcpCloseCb (tcpConnInit ⟨0,0,0,0⟩ fun _ => 0)) (.inr rfl)
      fun _ => rfl
    cases (released_iff _ _ _ _ (.inr rfl) fun _ => rfl).mp released
  · have observed : (Transition.execute retryStep leakingAttempts (initialWorld ⟨0,0,0,0⟩ fun _ => 0)).map
        (fun w => ((w.handles 1).attached,(w.handles 1).closing,w.conn.tcpHandle)) = some (true,false,some 2) := by
      decide +kernel
    obtain ⟨w,run,seen⟩ := Option.map_eq_some_iff.mp observed
    simp only [Prod.mk.injEq] at seen
    exact ⟨w,.of_execute (fun _ _ _ => trivial) run,seen⟩

end Tcpeen.Connection
