import Tcpeen.ReceiveChannels

/-! What a step of the receiving half can do when queue operations are atomic, said once.
A view is the state with the queues as lists; a move is a step between views. -/
namespace Tcpeen.Receive

open SplitOperation QueueSpsc

structure View where
  main : MainPc
  io : IoPc
  s : State
  pool : List Nat
  free : List Nat
  ready : List Nat

def view (a : Abstract) : View where
  main := a.pcs .main
  io := a.pcs .io
  s := a.shared
  pool := (a.abs .poolRead).items
  free := (a.abs .eventsFree).items
  ready := (a.abs .eventsReady).items

/-- A push appends, or finds the queue full. -/
def Pushed (capacity : Nat) (l : List Nat) (value : Nat) (l' : List Nat) : Prop :=
  (l.length ≠ capacity ∧ l' = l ++ [value]) ∨ (l.length = capacity ∧ l' = l)

/-- Moves of runs in which a batch is released at most once. Where `sure` holds, pool_read
behaves as a queue and batches are acquired only after the release of the one before;
elsewhere operations on pool_read may do anything. -/
inductive Move (cfg : Config) (sure : Prop) (v : View) : View → Prop
  | acquire : v.main = .idle → (sure → v.s.acquired = false) →
      Move cfg sure v { v with main := .acquire (BitVec.ofNat 64 cfg.bufferCount)
                               s := { v.s with eventUpdates := [], acquired := true } }
  | acquireNone {limit} : v.main = .acquire limit → v.ready = [] → Move cfg sure v { v with main := .idle }
  | acquired {limit taken rest} : v.main = .acquire limit → taken ≠ [] → v.ready = taken ++ rest →
      Move cfg sure v { v with main := .idle, ready := rest
                               s := { v.s with eventUpdates := taken
                                               delivered := v.s.delivered ++ taken.map v.s.delivery } }
  | release : v.main = .idle → v.s.acquired = true →
      Move cfg sure v { v with main := (releaseNext v.s v.s.eventUpdates).1
                               s := (releaseNext v.s v.s.eventUpdates).2 }
  | releasePool {e b rest pool} : v.main = .releasePool e b rest →
      (sure → Pushed (2 ^ cfg.bits) v.pool b pool) →
      Move cfg sure v { v with main := .releaseEvent e rest, pool := pool }
  | releaseEvent {e rest free} : v.main = .releaseEvent e rest → Pushed (2 ^ cfg.bits) v.free e free →
      Move cfg sure v { v with main := (releaseNext v.s rest).1, s := (releaseNext v.s rest).2
                               free := free }
  | connection (failure : Option ConnectStep) : v.io = .idle →
      Move cfg sure v { v with io := (onConnection failure v.s).1, s := (onConnection failure v.s).2 }
  | alloc {h c} : v.io = .idle → v.s.Serves h c false →
      Move cfg sure v { v with io := (onRecvAlloc h c v.s).1, s := (onRecvAlloc h c v.s).2 }
  | read {h c buf result r} : v.io = .idle → v.s.Owns h c → (v.s.handles h).closing = false →
      (v.s.handles h).pending = some buf → onRecv h c buf result v.s = some r →
      Move cfg sure v { v with io := r.1, s := r.2 }
  | close {h} : v.io = .idle → (v.s.handles h).closing = true → (v.s.handles h).freed = false →
      Move cfg sure v { v with io := (onClose h v.s).1, s := (onClose h v.s).2 }
  | popEvent {e rest} : request .io v.io = some (.eventsFree, .popBack) → v.free = e :: rest →
      Move cfg sure v { v with io := (resumeIo v.io (.success [e]) v.s).1
                               s := (resumeIo v.io (.success [e]) v.s).2, free := rest }
  | popNone : request .io v.io = some (.eventsFree, .popBack) → v.free = [] →
      Move cfg sure v { v with io := (resumeIo v.io .empty v.s).1, s := (resumeIo v.io .empty v.s).2 }
  | pushReady {e} : request .io v.io = some (.eventsReady, .push e) → v.ready.length ≠ 2 ^ cfg.bits →
      Move cfg sure v { v with io := (resumeIo v.io (.success []) v.s).1
                               s := (resumeIo v.io (.success []) v.s).2, ready := v.ready ++ [e] }
  | pushFull {e} : request .io v.io = some (.eventsReady, .push e) → v.ready.length = 2 ^ cfg.bits →
      Move cfg sure v { v with io := (resumeIo v.io .full v.s).1, s := (resumeIo v.io .full v.s).2 }
  | poolPop {h c b pool} : v.io = .allocPop h c → (sure → v.pool = b :: pool) →
      Move cfg sure v { v with io := (resumeIo (.allocPop h c) (.success [b]) v.s).1
                               s := (resumeIo (.allocPop h c) (.success [b]) v.s).2, pool := pool }
  | poolNone {h c} : v.io = .allocPop h c →
      Move cfg sure v { v with io := (resumeIo (.allocPop h c) .empty v.s).1
                               s := (resumeIo (.allocPop h c) .empty v.s).2 }
  | poolPush {h c b pool} : v.io = .closePush h c b →
      (sure → Pushed (2 ^ cfg.bits) v.pool b pool) →
      Move cfg sure v { v with io := (resumeIo (.closePush h c b) (.success []) v.s).1
                               s := (resumeIo (.closePush h c b) (.success []) v.s).2, pool := pool }

/-- The runs that moves describe. -/
def Orderly (sure : Prop) (a : Abstract) : AtomicLabel Thread Act Nat (Res Nat) → Prop
  | .act .release => a.shared.acquired = true
  | .act .acquire => sure → a.shared.acquired = false
  | .havoc t _ => ¬ sure ∧ ∃ op, request t (a.pcs t) = some (.poolRead, op)
  | _ => True

theorem push_pushed {capacity choice value : Nat} {f f' : Fifo Nat} {res : Res Nat}
    (applied : Fifo.apply capacity (.push value) f choice = some (f', res)) :
    Pushed capacity f.items value f'.items := by
  rcases Fifo.push_cases applied with ⟨room,rfl,-⟩ | ⟨full,rfl,-⟩
  · exact .inl ⟨room,rfl⟩
  · exact .inr ⟨full,rfl⟩

theorem request_idle_main {pc : MainPc} (free : request .main pc = none) : pc = .idle := by
  cases pc <;> first | rfl | cases free

theorem request_idle_io {pc : IoPc} (free : request .io pc = none) : pc = .idle := by
  cases pc <;> first | rfl | cases free

section Step

variable {cfg : Config} {sure : Prop} {a a' : Abstract}

theorem act_move {b : Act} (orderly : Orderly sure a (.act b)) (taken : atomic cfg a (.act b) = some a') :
    Move cfg sure (view a) (view a') := by
  obtain ⟨free,r,done,rfl⟩ := atomicStep_act_cases taken
  simp only [machine] at free done
  cases b with
  | acquire =>
    obtain rfl := Option.some.inj done
    exact .acquire (request_idle_main free) orderly
  | release =>
    obtain rfl := Option.some.inj done
    exact .release (request_idle_main free) orderly
  | connection failure =>
    obtain rfl := Option.some.inj done
    exact .connection failure (request_idle_io free)
  | alloc h =>
    obtain ⟨c,serves,rfl⟩ := act_alloc_cases done
    exact .alloc (request_idle_io free) serves
  | read h result =>
    obtain ⟨c,buf,owns,reading,pending,received⟩ := act_read_cases done
    exact .read (request_idle_io free) owns reading pending received
  | close h =>
    obtain ⟨closing,freed,rfl⟩ := act_close_cases done
    exact .close (request_idle_io free) closing freed

/-- The view with one queue replaced. -/
def View.put (v : View) (q : QueueName) (items : List Nat) : View :=
  match q with
  | .poolRead => { v with pool := items }
  | .eventsFree => { v with free := items }
  | .eventsReady => { v with ready := items }

theorem view_main (a : Abstract) (pc : MainPc) (s : State) (q : QueueName) (f : Fifo Nat) :
    view ⟨Function.update a.pcs .main pc,s,Function.update a.abs q f⟩ =
      { (view a).put q f.items with main := pc, s := s } := by
  cases q <;> rfl

theorem view_io (a : Abstract) (pc : IoPc) (s : State) (q : QueueName) (f : Fifo Nat) :
    view ⟨Function.update a.pcs .io pc,s,Function.update a.abs q f⟩ =
      { (view a).put q f.items with io := pc, s := s } := by
  cases q <;> rfl

theorem main_move {choice : Nat} (taken : atomic cfg a (.op .main choice) = some a') :
    Move cfg sure (view a) (view a') := by
  obtain ⟨q,op,f,res,asked,specified,rfl⟩ := atomicStep_op_cases taken
  rw [show (machine cfg).resume = resume from rfl,view_main]
  simp only [machine] at asked
  simp only [resume]
  cases pc : a.pcs .main with
  | idle => simp [pc,request] at asked
  | acquire limit =>
    simp only [pc,request,Option.some.injEq,Prod.mk.injEq] at asked
    obtain ⟨rfl,rfl⟩ := asked
    rcases Fifo.popAll_cases specified with ⟨none',rfl,rfl⟩ | ⟨values,rest,some',items,rfl,rfl⟩
    · exact .acquireNone pc none'
    · exact .acquired pc some' items
  | releasePool e b rest =>
    simp only [pc,request,Option.some.injEq,Prod.mk.injEq] at asked
    obtain ⟨rfl,rfl⟩ := asked
    exact .releasePool pc fun _ => push_pushed specified
  | releaseEvent e rest =>
    simp only [pc,request,Option.some.injEq,Prod.mk.injEq] at asked
    obtain ⟨rfl,rfl⟩ := asked
    exact .releaseEvent pc (push_pushed specified)

/-- The queue and the operation of every call of the IO thread. -/
theorem io_request_cases {pc : IoPc} {q : QueueName} {op : Op Nat} (asked : request .io pc = some (q, op)) :
    (q = .eventsFree ∧ op = .popBack) ∨ (q = .eventsReady ∧ ∃ e, op = .push e) ∨
      (q = .poolRead ∧ ((op = .popBack ∧ ∃ h c, pc = .allocPop h c) ∨
        ∃ h c b, op = .push b ∧ pc = .closePush h c b)) := by
  cases pc <;> simp only [request,reduceCtorEq,Option.some.injEq,Prod.mk.injEq] at asked <;>
    obtain ⟨rfl,rfl⟩ := asked <;> simp

/-- `on_recv_alloc_cb` only tells whether it got a buffer. -/
theorem resumeIo_allocPop (h c : Nat) (res : Res Nat) (s : State) :
    (∃ b, res = .success [b]) ∨ resumeIo (.allocPop h c) res s = resumeIo (.allocPop h c) .empty s := by
  cases res with
  | success values =>
    match values with
    | [] => exact .inr rfl
    | [b] => exact .inl ⟨b,rfl⟩
    | _ :: _ :: _ => exact .inr rfl
  | _ => exact .inr rfl

theorem io_move {choice : Nat} (taken : atomic cfg a (.op .io choice) = some a') :
    Move cfg sure (view a) (view a') := by
  obtain ⟨q,op,f,res,asked,specified,rfl⟩ := atomicStep_op_cases taken
  rw [show (machine cfg).resume = resume from rfl,view_io]
  simp only [machine] at asked
  simp only [resume]
  rcases io_request_cases asked with ⟨rfl,rfl⟩ | ⟨rfl,e,rfl⟩ | ⟨rfl,⟨rfl,h,c,pc⟩ | ⟨h,c,b,rfl,pc⟩⟩
  · rcases Fifo.popBack_cases specified with ⟨none',rfl,rfl⟩ | ⟨e,rest,items,rfl,rfl⟩
    · exact .popNone asked none'
    · exact .popEvent asked items
  · rcases Fifo.push_cases specified with ⟨room,rfl,rfl⟩ | ⟨full,rfl,rfl⟩
    · exact .pushReady asked room
    · exact .pushFull asked full
  · rcases Fifo.popBack_cases specified with ⟨none',rfl,rfl⟩ | ⟨b,rest,items,rfl,rfl⟩
    · rw [pc]
      exact .poolNone pc
    · rw [pc]
      exact .poolPop pc fun _ => items
  · rw [pc]
    exact .poolPush pc fun _ => push_pushed specified

theorem havoc_move {t : Thread} {res : Res Nat} (orderly : Orderly sure a (.havoc t res))
    (taken : atomic cfg a (.havoc t res) = some a') : Move cfg sure (view a) (view a') := by
  obtain ⟨q,op,asked,rfl⟩ := atomicStep_havoc_cases taken
  obtain ⟨unsure,op',pool⟩ := orderly
  rw [show (machine cfg).resume = resume from rfl]
  cases t with
  | main =>
    have same := view_main a (resume .main (a.pcs .main) res a.shared).1
      (resume .main (a.pcs .main) res a.shared).2 .poolRead (a.abs .poolRead)
    rw [Function.update_eq_self] at same
    rw [same]
    cases pc : a.pcs .main with
    | releasePool e b rest => exact .releasePool pc fun certain => (unsure certain).elim
    | _ => simp [pc,request] at pool
  | io =>
    have same := view_io a (resume .io (a.pcs .io) res a.shared).1
      (resume .io (a.pcs .io) res a.shared).2 .poolRead (a.abs .poolRead)
    rw [Function.update_eq_self] at same
    rw [same]
    cases pc : a.pcs .io with
    | closePush h c b => exact .poolPush pc fun certain => (unsure certain).elim
    | allocPop h c =>
      rcases resumeIo_allocPop h c res a.shared with ⟨b,rfl⟩ | answer
      · exact .poolPop pc fun certain => (unsure certain).elim
      · simp only [resume,answer]
        exact .poolNone pc
    | _ => simp [pc,request] at pool

/-- Every step of an orderly run is a move. -/
theorem step_move {label : AtomicLabel Thread Act Nat (Res Nat)} (orderly : Orderly sure a label)
    (taken : atomic cfg a label = some a') : Move cfg sure (view a) (view a') := by
  cases label with
  | act b => exact act_move orderly taken
  | op t choice =>
    cases t with
    | main => exact main_move taken
    | io => exact io_move taken
  | havoc t res => exact havoc_move orderly taken

end Step

end Tcpeen.Receive
