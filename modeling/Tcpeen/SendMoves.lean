import Tcpeen.Send

/-! What a step of the sending half can do when queue operations are atomic, said once. -/
namespace Tcpeen.Send

open SplitOperation QueueSpsc

structure View where
  main : MainPc
  io : IoPc
  s : State
  pool : Fifo Nat
  free : Fifo Nat
  ready : Fifo Nat

def view (a : Abstract) : View where
  main := a.pcs .main
  io := a.pcs .io
  s := a.shared
  pool := a.abs .poolWrite
  free := a.abs .reqsFree
  ready := a.abs .reqsReady

/-- A push appends, or finds the queue full. -/
def Pushed (capacity : Nat) (f : Fifo Nat) (value : Nat) (f' : Fifo Nat) : Prop :=
  (f.items.length ≠ capacity ∧ f' = { f with items := f.items ++ [value] }) ∨
    (f.items.length = capacity ∧ f' = f)

/-- The next place of a callback that puts a buffer back. -/
def returned : IoPc → Option (Nat × IoPc)
  | .prepPool r b => some (b, .prepFree r)
  | .sentPool r b => some (b, .sentFree r)
  | _ => none

/-- The next place of a callback that puts a request back. -/
def recycled : IoPc → Option (Nat × IoPc)
  | .prepFree r => some (r, .prepPop)
  | .sentFree r => some (r, .idle)
  | _ => none

inductive Move (cfg : Config) (v : View) : View → Prop
  | send {sent} : v.main = .idle → sent.bytes ≠ [] → Move cfg v { v with main := .peekReq sent }
  | noReq {sent} : v.main = .peekReq sent → v.free.items = [] → Move cfg v { v with main := .idle }
  | peekReq {sent r rest} : v.main = .peekReq sent → v.free.items = r :: rest →
      Move cfg v { v with main := .peekBuf r sent, s := v.s.dropBuffer r, free := ⟨r :: rest, true⟩ }
  | noBuf {r sent} : v.main = .peekBuf r sent → v.pool.items = [] → Move cfg v { v with main := .idle }
  | peekBuf {r sent b rest} : v.main = .peekBuf r sent → v.pool.items = b :: rest →
      Move cfg v { v with main := (assemble r b sent v.s).1, s := (assemble r b sent v.s).2
                          pool := ⟨b :: rest, true⟩ }
  | push {r sent} : v.main = .push r sent → v.ready.items.length ≠ 2 ^ cfg.bits →
      Move cfg v { v with main := .popBuf, s := v.s.accept r sent
                          ready := { v.ready with items := v.ready.items ++ [r] } }
  | pushFull {r sent} : v.main = .push r sent → v.ready.items.length = 2 ^ cfg.bits →
      Move cfg v { v with main := .idle }
  | popBuf : v.main = .popBuf →
      Move cfg v { v with main := .popReq, pool := ⟨v.pool.items.tail, false⟩ }
  | popReq : v.main = .popReq → Move cfg v { v with main := .idle, free := ⟨v.free.items.tail, false⟩ }
  | prep : v.io = .idle → Move cfg v { v with io := .prepPop }
  | prepNone : v.io = .prepPop → v.ready.items = [] → Move cfg v { v with io := .idle }
  | prepPop {r rest} : v.io = .prepPop → v.ready.items = r :: rest →
      Move cfg v { v with io := .prepTest r, ready := ⟨rest, false⟩ }
  | submit {r verdict x} : v.io = .prepTest r → onPrep r verdict v.s = some x →
      Move cfg v { v with io := x.1, s := x.2 }
  | sent {r x} : v.io = .idle → r ∈ v.s.inFlight → onSend r (v.s.written r) = some x →
      Move cfg v { v with io := x.1, s := x.2 }
  | poolPush {b io pool} : returned v.io = some (b, io) → Pushed (2 ^ cfg.bits) v.pool b pool →
      Move cfg v { v with io := io, pool := pool }
  | freePush {r io free} : recycled v.io = some (r, io) → Pushed (2 ^ cfg.bits) v.free r free →
      Move cfg v { v with io := io, free := free }

/-- All queues behave as queues. -/
def Exact (_ : Abstract) : AtomicLabel Thread Act Nat (Res Nat) → Prop
  | .havoc _ _ => False
  | _ => True

theorem push_pushed {capacity choice value : Nat} {f f' : Fifo Nat} {res : Res Nat}
    (applied : Fifo.apply capacity (.push value) f choice = some (f', res)) : Pushed capacity f value f' := by
  rcases Fifo.push_cases applied with ⟨room,rfl,-⟩ | ⟨full,rfl,-⟩
  · exact .inl ⟨room,rfl⟩
  · exact .inr ⟨full,rfl⟩

section Step

variable {cfg : Config} {a a' : Abstract}

theorem act_move {b : Act} (taken : atomic cfg a (.act b) = some a') : Move cfg (view a) (view a') := by
  obtain ⟨free,r,done,rfl⟩ := atomicStep_act_cases taken
  simp only [machine] at free done
  cases b with
  | send sent =>
    cases pc : a.pcs .main with
    | idle =>
      simp only [act,pc] at done
      split at done
      · contradiction
      · next some' =>
        obtain rfl := Option.some.inj done
        exact .send pc some'
    | _ => simp [act,pc] at done
  | prep =>
    cases pc : a.pcs .io with
    | idle =>
      simp only [act,pc] at done
      obtain rfl := Option.some.inj done
      exact .prep pc
    | _ => simp [act,pc] at done
  | submit verdict =>
    cases pc : a.pcs .io with
    | prepTest r' =>
      simp only [act,pc] at done
      exact .submit pc done
    | _ => simp [act,pc] at done
  | sent r' =>
    cases pc : a.pcs .io with
    | idle =>
      simp only [act,pc] at done
      split at done
      · next flying => exact .sent pc flying done
      · contradiction
    | _ => simp [act,pc] at done

/-- The view with one queue replaced. -/
def View.put (v : View) (q : QueueName) (f : Fifo Nat) : View :=
  match q with
  | .poolWrite => { v with pool := f }
  | .reqsFree => { v with free := f }
  | .reqsReady => { v with ready := f }

theorem view_main (a : Abstract) (pc : MainPc) (s : State) (q : QueueName) (f : Fifo Nat) :
    view ⟨Function.update a.pcs .main pc,s,Function.update a.abs q f⟩ =
      { (view a).put q f with main := pc, s := s } := by
  cases q <;> rfl

theorem view_io (a : Abstract) (pc : IoPc) (s : State) (q : QueueName) (f : Fifo Nat) :
    view ⟨Function.update a.pcs .io pc,s,Function.update a.abs q f⟩ =
      { (view a).put q f with io := pc, s := s } := by
  cases q <;> rfl

theorem main_move {choice : Nat} (taken : atomic cfg a (.op .main choice) = some a') :
    Move cfg (view a) (view a') := by
  obtain ⟨q,op,f,res,asked,specified,rfl⟩ := atomicStep_op_cases taken
  rw [show (machine).resume = resume from rfl,view_main]
  simp only [machine] at asked
  simp only [resume]
  cases pc : a.pcs .main <;> simp only [pc,request,reduceCtorEq,Option.some.injEq,Prod.mk.injEq] at asked <;>
    obtain ⟨rfl,rfl⟩ := asked
  case peekReq sent =>
    rcases Fifo.peek_cases specified with ⟨none',rfl,rfl⟩ | ⟨r,rest,items,rfl,rfl⟩
    · exact .noReq pc none'
    · exact .peekReq pc items
  case peekBuf r sent =>
    rcases Fifo.peek_cases specified with ⟨none',rfl,rfl⟩ | ⟨b,rest,items,rfl,rfl⟩
    · exact .noBuf pc none'
    · exact .peekBuf pc items
  case push r sent =>
    rcases Fifo.push_cases specified with ⟨room,rfl,rfl⟩ | ⟨full,rfl,rfl⟩
    · exact .push pc room
    · exact .pushFull pc full
  case popBuf =>
    obtain ⟨rfl,rfl⟩ := Fifo.popCached_cases specified
    exact .popBuf pc
  case popReq =>
    obtain ⟨rfl,rfl⟩ := Fifo.popCached_cases specified
    exact .popReq pc

theorem io_move {choice : Nat} (taken : atomic cfg a (.op .io choice) = some a') :
    Move cfg (view a) (view a') := by
  obtain ⟨q,op,f,res,asked,specified,rfl⟩ := atomicStep_op_cases taken
  rw [show (machine).resume = resume from rfl,view_io]
  simp only [machine] at asked
  simp only [resume]
  cases pc : a.pcs .io <;> simp only [pc,request,reduceCtorEq,Option.some.injEq,Prod.mk.injEq] at asked <;>
    obtain ⟨rfl,rfl⟩ := asked
  case prepPop =>
    rcases Fifo.popBack_cases specified with ⟨none',rfl,rfl⟩ | ⟨r,rest,items,rfl,rfl⟩
    · exact .prepNone pc none'
    · exact .prepPop pc items
  case prepPool r b =>
    exact .poolPush (by rw [show (view a).io = .prepPool r b from pc]; rfl) (push_pushed specified)
  case sentPool r b =>
    exact .poolPush (by rw [show (view a).io = .sentPool r b from pc]; rfl) (push_pushed specified)
  case prepFree r =>
    exact .freePush (by rw [show (view a).io = .prepFree r from pc]; rfl) (push_pushed specified)
  case sentFree r =>
    exact .freePush (by rw [show (view a).io = .sentFree r from pc]; rfl) (push_pushed specified)

theorem step_move {label : AtomicLabel Thread Act Nat (Res Nat)} (exact' : Exact a label)
    (taken : atomic cfg a label = some a') : Move cfg (view a) (view a') := by
  cases label with
  | act b => exact act_move taken
  | op t choice =>
    cases t with
    | main => exact main_move taken
    | io => exact io_move taken
  | havoc t res => exact exact'.elim

end Step

end Tcpeen.Send
