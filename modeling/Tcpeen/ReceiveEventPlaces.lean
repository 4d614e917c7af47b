import Tcpeen.ReceiveOwnership

/-! No event is lost: with atomic queues, and addresses that can be printed, every event of
the list is in exactly one place whenever neither thread is inside a function. -/
namespace Tcpeen.Receive

open SplitOperation QueueSpsc

/-- How often an event occurs over the two queues, the batch and the hand of a callback. -/
def View.places (v : View) (e : Nat) : Nat :=
  v.free.count e + v.ready.count e + (heldEvents v.main v.s).count e + (handEvents v.io).count e

/-- `tn_endpoint_get_string` succeeds on what `tn_endpoint_convert_from` accepted. -/
def Printable (failure : Option ConnectStep) : Prop :=
  failure ≠ some .stringLocal ∧ failure ≠ some .stringRemote

def Printed : IoPc → Prop
  | .connectPop _ _ failure => Printable failure
  | _ => True

/-- Runs in which the main thread acquires and releases in turn, every queue operation is one
step, and accepted addresses can be printed. -/
def EventRun (a : Abstract) (label : AtomicLabel Thread Act Nat (Res Nat)) : Prop :=
  Orderly True a label ∧ ∀ failure, label = .act (.connection failure) → Printable failure

section Printed

theorem resumeIo_printed (pc : IoPc) (res : Res Nat) (s : State) : Printed (resumeIo pc res s).1 := by
  unfold resumeIo
  repeat' split
  all_goals trivial

theorem onConnection_printed {failure : Option ConnectStep} (printable : Printable failure) (s : State) :
    Printed (onConnection failure s).1 := by
  unfold onConnection
  split
  iterate 4 trivial
  split
  · trivial
  · dsimp only
    split <;> trivial

theorem act_printed {cfg : Config} {pcs : (t : Thread) → Pc t} {s : State} {b : Act}
    {r : Pc (actor b) × State} (printed : Printed (pcs .io))
    (printable : ∀ failure, b = .connection failure → Printable failure)
    (done : act cfg b (pcs (actor b)) s = some r) : Printed (Function.update pcs (actor b) r.1 .io) := by
  cases b with
  | acquire | release => exact printed
  | connection failure =>
    obtain rfl := Option.some.inj done
    exact onConnection_printed (printable failure rfl) s
  | alloc h =>
    simp only [act,onRecvAlloc] at done
    repeat' split at done
    all_goals cases done
    all_goals trivial
  | read h result =>
    simp only [act,onRecv,onRecvData] at done
    repeat' split at done
    all_goals cases done
    all_goals trivial
  | close h =>
    simp only [act,onClose] at done
    repeat' split at done
    all_goals cases done
    all_goals trivial

theorem atomic_printed {cfg : Config} {a a' : Abstract} {label : AtomicLabel Thread Act Nat (Res Nat)}
    (printed : Printed (a.pcs .io)) (allowed : EventRun a label) (taken : atomic cfg a label = some a') :
    Printed (a'.pcs .io) := by
  have resumed (t : Thread) (res : Res Nat) :
      Printed (Function.update a.pcs t (resume t (a.pcs t) res a.shared).1 .io) := by
    cases t with
    | main => exact printed
    | io => exact resumeIo_printed (a.pcs .io) res a.shared
  cases label with
  | act b =>
    obtain ⟨free,r,done,rfl⟩ := atomicStep_act_cases taken
    exact act_printed printed (fun failure same => allowed.2 failure (by rw [same])) done
  | op t choice =>
    obtain ⟨q,op,abs,res,asked,specified,rfl⟩ := atomicStep_op_cases taken
    exact resumed t res
  | havoc t res =>
    obtain ⟨q,op,asked,rfl⟩ := atomicStep_havoc_cases taken
    exact resumed t res

end Printed

section Places

variable {cfg : Config} {v v' : View}

/-- A callback that gets an event keeps it in its hand. -/
theorem popEvent_hand (sound : Sound cfg v.io v.s) (printed : Printed v.io)
    (asked : request .io v.io = some (.eventsFree, .popBack)) (e : Nat) :
    handEvents (resumeIo v.io (.success [e]) v.s).1 = [e] := by
  have busy := sound.busy
  cases pc : v.io <;> rw [pc] at asked busy printed <;>
    simp only [request,reduceCtorEq,Option.some.injEq,Prod.mk.injEq,and_false,false_and] at asked
  case connectPop h c failure =>
    have kept : ¬ (failure = some .stringLocal ∨ failure = some .stringRemote) :=
      not_or.mpr printed
    simp [resumeIo,kept,handEvents]
  case recvPop h c =>
    obtain ⟨b,buffer⟩ := Option.isSome_iff_exists.mp busy.2
    simp [resumeIo,buffer,handEvents]
  case closePop h c => rfl

/-- An event that is elsewhere leaves room in the free queue. -/
theorem Events.free_room (valid : Events cfg v) {e : Nat}
    (elsewhere : 0 < (heldEvents v.main v.s).count e) : v.free.length < 2 ^ cfg.bits := by
  have here := valid.places e
  have small : e < 2 ^ cfg.bits := by
    by_contra outside
    rw [if_neg outside] at here
    omega
  rw [if_pos small] at here
  refine Counting.length_lt (fun x => ?_) small (by omega)
  have places := valid.places x
  omega

private theorem places_quiet {io : IoPc} {s : State} (pool : List Nat) (quiet : Quiet v.s s)
    (before : handEvents v.io = []) (after : handEvents io = []) (e : Nat) :
    View.places { v with io := io, s := s, pool := pool } e = v.places e := by
  simp only [View.places,quiet.held,before,after]

private theorem places_released {l free : List Nat} (e : Nat) :
    View.places { v with main := (releaseNext v.s l).1, s := (releaseNext v.s l).2, free := free } e =
      free.count e + v.ready.count e + l.count e + (handEvents v.io).count e := by
  simp only [View.places,releaseNext_held]

/-- No move takes an event out of the world or brings a second one into it. -/
theorem places_move (events : Events cfg v) (sound : Sound cfg v.io v.s) (printed : Printed v.io)
    (move : Move cfg True v v') (e : Nat) : v'.places e = v.places e := by
  cases move with
  | acquire idle fresh =>
    have fresh := fresh trivial
    simp [View.places,heldEvents,idle,fresh]
  | acquireNone pc none' =>
    obtain ⟨-,acquired,updates⟩ := events.waiting _ pc
    simp [View.places,heldEvents,pc,acquired,updates]
  | acquired pc some' items =>
    obtain ⟨-,acquired,-⟩ := events.waiting _ pc
    simp only [View.places,heldEvents,pc,acquired,if_true,items,List.count_append,List.count_nil]
    omega
  | release idle acquired =>
    rw [places_released]
    simp [View.places,heldEvents,idle,acquired]
  | releasePool pc _ => simp [View.places,heldEvents,pc]
  | @releaseEvent e' rest free pc pushed =>
    have room := events.free_room (e := e') (by simp [heldEvents,pc])
    rw [places_released]
    rcases pushed with ⟨-,rfl⟩ | ⟨full,-⟩
    · simp only [View.places,heldEvents,pc,List.count_append,List.count_cons,List.count_nil]
      omega
    · omega
  | connection failure idle =>
    obtain ⟨quiet,after,-⟩ := onConnection_quiet failure v.s
    exact places_quiet v.pool quiet (by rw [idle]; rfl) after e
  | alloc idle serves =>
    obtain ⟨quiet,after,-⟩ := onRecvAlloc_quiet _ _ v.s
    exact places_quiet v.pool quiet (by rw [idle]; rfl) after e
  | read idle owns open' pending ran =>
    obtain ⟨quiet,after,-⟩ := onRecv_quiet ran
    exact places_quiet v.pool quiet (by rw [idle]; rfl) after e
  | close idle closing alive =>
    obtain ⟨quiet,after,-⟩ := onClose_quiet _ v.s
    exact places_quiet v.pool quiet (by rw [idle]; rfl) after e
  | @popEvent taken rest asked free =>
    obtain ⟨before,-,-,event,quiet⟩ := popEvent_effect asked taken v.s
    have after := popEvent_hand sound printed asked taken
    have held : heldEvents v.main (resumeIo v.io (.success [taken]) v.s).2 = heldEvents v.main v.s :=
      quiet.held v.main
    simp only [View.places,held,before,after,free,List.count_cons,List.count_nil]
    omega
  | popNone asked free =>
    obtain ⟨before,after,-,quiet⟩ := popNone_effect asked v.s
    exact places_quiet v.pool quiet before after e
  | @pushReady pushed asked room =>
    obtain ⟨before,after,-,quiet⟩ := pushReady_effect asked v.s
    have held : heldEvents v.main (resumeIo v.io (.success []) v.s).2 = heldEvents v.main v.s :=
      quiet.held v.main
    simp only [View.places,held,before,after,List.count_append,List.count_cons,List.count_nil]
    omega
  | pushFull asked full => exact absurd full (Nat.ne_of_lt (events.room asked))
  | poolPop pc taken =>
    refine places_quiet _ ?_ ?_ ?_ e
    · exact ⟨rfl,rfl,rfl,rfl,rfl⟩
    · rw [pc]
      rfl
    · rfl
  | poolNone pc =>
    refine places_quiet _ ?_ ?_ ?_ e
    · exact ⟨rfl,rfl,rfl,rfl,rfl⟩
    · rw [pc]
      rfl
    · rfl
  | poolPush pc pushed =>
    refine places_quiet _ ?_ ?_ ?_ e
    · exact ⟨rfl,rfl,rfl,rfl,rfl⟩
    · rw [pc]
      rfl
    · rfl

end Places

section Batch

variable {cfg : Config} {a a' : Abstract} {label : AtomicLabel Thread Act Nat (Res Nat)}

theorem Fifo.popAll_length {capacity choice : Nat} {limit : Word} {f f' : Fifo Nat} {values : List Nat}
    (applied : Fifo.apply capacity (.popAll limit) f choice = some (f', .success values)) :
    values.length ≤ limit.toNat := by
  simp only [Fifo.apply] at applied
  split at applied
  · simp at applied
  · split at applied
    · next bounds =>
      simp only [Option.some.injEq,Prod.mk.injEq,Res.success.injEq] at applied
      rw [← applied.2,List.length_take]
      omega
    · contradiction

theorem resumeIo_updates (pc : IoPc) (res : Res Nat) (s : State) :
    (resumeIo pc res s).2.eventUpdates = s.eventUpdates := by
  unfold resumeIo
  repeat' split
  all_goals rfl

theorem act_updates {pcs : (t : Thread) → Pc t} {s : State} {b : Act} {r : Pc (actor b) × State}
    (done : act cfg b (pcs (actor b)) s = some r) :
    r.2.eventUpdates = s.eventUpdates ∨ r.2.eventUpdates = [] := by
  cases b with
  | acquire =>
    obtain rfl := Option.some.inj done
    exact .inr rfl
  | release =>
    obtain rfl := Option.some.inj done
    obtain ⟨acquired,same⟩ := releaseNext_frame s s.eventUpdates
    exact .inl (by rw [same])
  | connection failure =>
    obtain rfl := Option.some.inj done
    exact .inl (onConnection_quiet failure s).1.updates
  | alloc h =>
    obtain ⟨c,-,rfl⟩ := act_alloc_cases done
    exact .inl (onRecvAlloc_quiet h c s).1.updates
  | read h result =>
    obtain ⟨c,buf,-,-,-,received⟩ := act_read_cases done
    exact .inl (onRecv_quiet received).1.updates
  | close h =>
    obtain ⟨-,-,rfl⟩ := act_close_cases done
    exact .inl (onClose_quiet h s).1.updates

/-- The array of updates never holds more entries than it has room for. -/
theorem updates_step (limited : ∀ limit, a.pcs .main = .acquire limit → limit.toNat = cfg.bufferCount)
    (certain : Orderly True a label) (bounded : a.shared.eventUpdates.length ≤ cfg.bufferCount)
    (taken : atomic cfg a label = some a') : a'.shared.eventUpdates.length ≤ cfg.bufferCount := by
  cases label with
  | act b =>
    obtain ⟨free,r,done,rfl⟩ := atomicStep_act_cases taken
    rcases act_updates done with same | none'
    · simpa [same] using bounded
    · simp [none']
  | havoc t res => exact (certain.1 trivial).elim
  | op t choice =>
    obtain ⟨q,op,abs,res,asked,specified,rfl⟩ := atomicStep_op_cases taken
    cases t with
    | io =>
      simp only [machine,resume,resumeIo_updates]
      exact bounded
    | main =>
      simp only [machine,resume] at asked ⊢
      cases pc : a.pcs .main with
      | idle => simp [pc,request] at asked
      | acquire limit =>
        simp only [pc,request,Option.some.injEq,Prod.mk.injEq] at asked
        obtain ⟨rfl,rfl⟩ := asked
        cases res with
        | success values =>
          have length := Fifo.popAll_length specified
          rw [limited limit pc] at length
          exact length
        | _ => exact bounded
      | releasePool e b rest => exact bounded
      | releaseEvent e rest =>
        obtain ⟨acquired,same⟩ := releaseNext_frame a.shared rest
        simp only [resumeMain,same]
        exact bounded

end Batch

section Run

variable {cfg : Config} {free : ListPtr Nat} {blocks : Nat → Nat → UInt8} {a : Abstract}

theorem bufferCount_toNat (cfg : Config) : (BitVec.ofNat 64 cfg.bufferCount).toNat = cfg.bufferCount := by
  have wide : 2 ^ cfg.bits < 2 ^ 64 := Nat.pow_lt_pow_right (by decide) cfg.small
  have fits := cfg.fits
  rw [BitVec.toNat_ofNat]
  exact Nat.mod_eq_of_lt (by omega)

theorem reachable_places (built : ∃ data, clientListSetup data cfg.clientsMax = some free)
    (reach : Transition.Reachable (atomic cfg) EventRun (atomicInitial cfg free blocks) a) :
    Printed (a.pcs .io) ∧ ∀ e, (view a).places e = if e < 2 ^ cfg.bits then 1 else 0 := by
  have orderly : ∀ a label, EventRun a label → Orderly True a label := fun _ _ allowed => allowed.1
  refine reach.invariant_with (fun a => Events cfg (view a) ∧ Sound cfg (view a).io (view a).s)
    (fun a => Printed (a.pcs .io) ∧ ∀ e, (view a).places e = if e < 2 ^ cfg.bits then 1 else 0)
    (fun _ reached => ⟨reachable_events orderly reached,atomic_sound built orderly reached⟩) ?_ ?_
  · refine ⟨trivial,fun e => ?_⟩
    have count : (List.range (2 ^ cfg.bits)).count e = if e < 2 ^ cfg.bits then 1 else 0 := by
      rw [List.nodup_range.count]
      simp
    simp [View.places,view,atomicInitial,filled,filledCount,heldEvents,handEvents,idle,start,count]
  · rintro a label a' ⟨events,sound⟩ ⟨printed,places⟩ allowed taken
    refine ⟨atomic_printed printed allowed taken,fun e => ?_⟩
    rw [places_move events sound printed (step_move allowed.1 taken),places]

theorem reachable_updates
    (reach : Transition.Reachable (atomic cfg) EventRun (atomicInitial cfg free blocks) a) :
    a.shared.eventUpdates.length ≤ cfg.bufferCount := by
  refine reach.invariant_with
    (fun a => ∀ limit, a.pcs .main = .acquire limit → limit = BitVec.ofNat 64 cfg.bufferCount)
    (fun a => a.shared.eventUpdates.length ≤ cfg.bufferCount) (fun _ reached => atomic_limit reached)
    (Nat.zero_le _) ?_
  intro a label a' waiting bounded allowed taken
  refine updates_step (fun limit pc => ?_) allowed.1 bounded taken
  rw [waiting limit pc,bufferCount_toNat]

end Run

/-- Between calls every event is free, ready or in the batch, once; what is delivered and what
is ready is what was pushed, in order; and a batch fits the array of updates. -/
theorem events_conserved (cfg : Config) (free : ListPtr Nat) (blocks : Nat → Nat → UInt8)
    (built : ∃ data, clientListSetup data cfg.clientsMax = some free) (a : Abstract)
    (reach : Transition.Reachable (atomic cfg) EventRun (atomicInitial cfg free blocks) a) :
    (a.pcs .main = .idle → a.pcs .io = .idle → ∀ e < 2 ^ cfg.bits,
      (a.abs .eventsFree).items.count e + (a.abs .eventsReady).items.count e +
        (if a.shared.acquired then a.shared.eventUpdates else []).count e = 1) ∧
    a.shared.delivered.map (·.notice) ++ (a.abs .eventsReady).items.map a.shared.notice =
      a.shared.queued ∧
    a.shared.eventUpdates.length ≤ cfg.bufferCount := by
  refine ⟨?_,(reachable_events (fun _ _ allowed => allowed.1) reach).log,reachable_updates reach⟩
  intro main io e inside
  have places := (reachable_places built reach).2 e
  rw [if_pos inside] at places
  simpa [View.places,view,main,io,heldEvents,handEvents] using places

/-- A test for such runs. -/
def eventRun (a : Abstract) : AtomicLabel Thread Act Nat (Res Nat) → Bool
  | .act .acquire => !a.shared.acquired
  | .act .release => a.shared.acquired
  | .act (.connection failure) => failure ≠ some .stringLocal && failure ≠ some .stringRemote
  | .havoc _ _ => false
  | _ => true

theorem eventRun_sound (a : Abstract) (label : AtomicLabel Thread Act Nat (Res Nat))
    (passed : eventRun a label = true) : EventRun a label := by
  cases label with
  | act b =>
    cases b with
    | connection failure =>
      refine ⟨trivial,fun other same => ?_⟩
      cases same
      simpa [eventRun,Printable] using passed
    | acquire => exact ⟨fun _ => by simpa [eventRun] using passed,by simp⟩
    | release => exact ⟨passed,by simp⟩
    | _ => exact ⟨trivial,by simp⟩
  | op t choice => exact ⟨trivial,by simp⟩
  | havoc t res => cases passed

/-- A client connects and sends; its OPEN and READ events are taken. -/
def readTaken : List (AtomicLabel Thread Act Nat (Res Nat)) :=
  [.act (.connection none),.op .io 0,.op .io 0,.act (.alloc 0),.op .io 0,.act (.read 0 (.data [7])),.op .io 0,.op .io 0,
    .act .acquire,.op .main 2]

/-- They are given back, the READ event with its buffer. -/
def readReleased : List (AtomicLabel Thread Act Nat (Res Nat)) := [.act .release,.op .main 0,.op .main 0,.op .main 0]

theorem events_conserved_read :
    (∃ a, Transition.Reachable (atomic tinyConfig) EventRun (atomicInitial tinyConfig tinyList fun _ _ => 0) a ∧
      a.shared.eventUpdates = [0,1] ∧
      a.shared.delivered.map (·.notice) = [⟨.clientOpen,0,0⟩,⟨.clientRead,0,0⟩] ∧
      (a.abs .eventsFree).items.count 1 + (a.abs .eventsReady).items.count 1 +
        (if a.shared.acquired then a.shared.eventUpdates else []).count 1 = 1) ∧
    ∃ a, Transition.Reachable (atomic tinyConfig) EventRun (atomicInitial tinyConfig tinyList fun _ _ => 0) a ∧
      a.shared.acquired = false ∧ (a.abs .eventsFree).items = [2,3,0,1] ∧
      (a.abs .eventsFree).items.count 1 + (a.abs .eventsReady).items.count 1 +
        (if a.shared.acquired then a.shared.eventUpdates else []).count 1 = 1 := by
  have conserved {a : Abstract} (reach : Transition.Reachable (atomic tinyConfig) EventRun
      (atomicInitial tinyConfig tinyList fun _ _ => 0) a) :=
    events_conserved tinyConfig tinyList (fun _ _ => 0) ⟨fun _ => 0,rfl⟩ a reach
  constructor
  · have observed : (Transition.execute (Transition.checked (atomic tinyConfig) eventRun) readTaken
        (atomicInitial tinyConfig tinyList fun _ _ => 0)).map (fun a =>
          (a.pcs .main, a.pcs .io, a.shared.eventUpdates, a.shared.delivered.map (·.notice))) =
        some (.idle, .idle, [0,1], [⟨.clientOpen,0,0⟩,⟨.clientRead,0,0⟩]) := by decide +kernel
    obtain ⟨a,run,seen⟩ := Option.map_eq_some_iff.mp observed
    simp only [Prod.mk.injEq] at seen
    obtain ⟨main,io,updates,delivered⟩ := seen
    have reach := Transition.Reachable.of_checked eventRun_sound run
    exact ⟨a,reach,updates,delivered,(conserved reach).1 main io 1 (by decide)⟩
  · have observed : (Transition.execute (Transition.checked (atomic tinyConfig) eventRun) (readTaken ++ readReleased)
        (atomicInitial tinyConfig tinyList fun _ _ => 0)).map (fun a =>
          (a.pcs .main, a.pcs .io, a.shared.acquired, (a.abs .eventsFree).items)) =
        some (.idle, .idle, false, [2,3,0,1]) := by decide +kernel
    obtain ⟨a,run,seen⟩ := Option.map_eq_some_iff.mp observed
    simp only [Prod.mk.injEq] at seen
    obtain ⟨main,io,given,free⟩ := seen
    have reach := Transition.Reachable.of_checked eventRun_sound run
    exact ⟨a,reach,given,free,(conserved reach).1 main io 1 (by decide)⟩

end Tcpeen.Receive
