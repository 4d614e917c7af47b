import Tcpeen.Library.Counting
import Tcpeen.SendMoves

/-! Where the write requests and their buffers are. From the push of a request to the pops
of the two free queues the oldest entries of these belong to the request that was pushed;
they do not count as free. -/
namespace Tcpeen.Send

open SplitOperation QueueSpsc

def freeReqs (v : View) : List Nat :=
  match v.main with
  | .popBuf | .popReq => v.free.items.tail
  | _ => v.free.items

def freeBuffers (v : View) : List Nat :=
  match v.main with
  | .popBuf => v.pool.items.tail
  | _ => v.pool.items

/-- The request in the hand of a callback. -/
def handReqs : IoPc → List Nat
  | .prepTest r | .prepPool r _ | .prepFree r | .sentPool r _ | .sentFree r => [r]
  | _ => []

def handBuffers (s : State) : IoPc → List Nat
  | .prepTest r => (s.reqs r).buffer.toList
  | .prepPool _ b | .sentPool _ b => [b]
  | _ => []

/-- The request has this buffer. -/
def State.has (s : State) (b r : Nat) : Bool := (s.reqs r).buffer == some b

/-- What `tcp_service_send` has peeked is still the oldest entry. -/
def Peeked (v : View) : MainPc → Prop
  | .peekBuf r _ => v.free.items.head? = some r ∧ v.free.peeked = true
  | .push r _ => v.free.items.head? = some r ∧ v.free.peeked = true ∧
      v.pool.items.head? = (v.s.reqs r).buffer ∧ (v.s.reqs r).buffer.isSome ∧ v.pool.peeked = true
  | .popBuf => v.free.items ≠ [] ∧ v.free.peeked = true ∧ v.pool.items ≠ [] ∧ v.pool.peeked = true
  | .popReq => v.free.items ≠ [] ∧ v.free.peeked = true
  | _ => True

structure Owned (cfg : Config) (v : View) : Prop where
  reqs : ∀ r, (freeReqs v).count r + v.ready.items.count r + v.s.inFlight.count r + (handReqs v.io).count r =
    if r < cfg.bufferCount then 1 else 0
  buffers : ∀ b, (freeBuffers v).count b + (v.ready.items ++ v.s.inFlight).countP (v.s.has b) +
    (handBuffers v.s v.io).count b = if b < cfg.bufferCount then 1 else 0
  peeked : Peeked v v.main

section Step

variable {cfg : Config} {v v' : View}

/-- A free request is nowhere else. -/
theorem Owned.free_only (owned : Owned cfg v) {r : Nat} (free : r ∈ freeReqs v) :
    r < cfg.bufferCount ∧ r ∉ v.ready.items ++ v.s.inFlight ∧ r ∉ handReqs v.io := by
  have places := owned.reqs r
  have here := List.count_pos_iff.mpr free
  have small : r < cfg.bufferCount := by
    by_contra outside
    rw [if_neg outside] at places
    omega
  rw [if_pos small] at places
  refine ⟨small,?_,?_⟩
  · rw [← List.count_eq_zero,List.count_append]
    omega
  · rw [← List.count_eq_zero]
    omega

/-- The request that a send has peeked at is still free. -/
theorem Owned.peekBuf_free (owned : Owned cfg v) {r : Nat} {sent : Sent} (pc : v.main = .peekBuf r sent) :
    r ∈ freeReqs v := by
  have peeked := owned.peeked
  rw [pc] at peeked
  simp only [freeReqs,pc]
  exact List.mem_of_mem_head? peeked.1

theorem Owned.push_free (owned : Owned cfg v) {r : Nat} {sent : Sent} (pc : v.main = .push r sent) :
    r ∈ freeReqs v := by
  have peeked := owned.peeked
  rw [pc] at peeked
  simp only [freeReqs,pc]
  exact List.mem_of_mem_head? peeked.1

theorem Owned.reqs_once (owned : Owned cfg v) (r : Nat) :
    (freeReqs v).count r + v.ready.items.count r + v.s.inFlight.count r + (handReqs v.io).count r ≤ 1 := by
  rw [owned.reqs r]
  split <;> omega

theorem countP_has {s s' : State} {l : List Nat} {r : Nat} (absent : r ∉ l)
    (same : ∀ x, x ≠ r → (s'.reqs x).buffer = (s.reqs x).buffer) (b : Nat) :
    l.countP (s'.has b) = l.countP (s.has b) := by
  apply List.countP_congr
  intro x member
  have different : x ≠ r := by
    rintro rfl
    exact absent member
  simp [State.has,same x different]

theorem handBuffers_test (s : State) (r b : Nat) :
    (handBuffers s (.prepTest r)).count b = if s.has b r then 1 else 0 := by
  rw [handBuffers]
  cases buffer : (s.reqs r).buffer <;> simp [State.has,buffer,List.count_cons]

theorem dropBuffer_same (s : State) (r x : Nat) (different : x ≠ r) :
    ((s.dropBuffer r).reqs x).buffer = (s.reqs x).buffer := by
  simp [State.dropBuffer,State.setReq,Function.update_of_ne different]

/-- The main thread may write to a request that is free. -/
theorem countP_free (owned : Owned cfg v) {r : Nat} (free : r ∈ freeReqs v) {s : State}
    (same : ∀ x, x ≠ r → (s.reqs x).buffer = (v.s.reqs x).buffer) (b : Nat) :
    (v.ready.items ++ v.s.inFlight).countP (s.has b) = (v.ready.items ++ v.s.inFlight).countP (v.s.has b) ∧
      handBuffers s v.io = handBuffers v.s v.io := by
  obtain ⟨-,absent,hand⟩ := owned.free_only free
  refine ⟨countP_has absent same b,?_⟩
  cases pc : v.io with
  | prepTest x =>
    have different : x ≠ r := by
      rintro rfl
      simp [pc,handReqs] at hand
    simp [handBuffers,same x different]
  | _ => rfl

theorem assemble_effect (r b : Nat) (sent : Sent) (s : State) :
    (assemble r b sent s).2.inFlight = s.inFlight ∧
      (∀ x, x ≠ r → ((assemble r b sent s).2.reqs x).buffer = (s.reqs x).buffer) ∧
      ((assemble r b sent s).2.reqs r).buffer = some b ∧
      ((assemble r b sent s).1 = .idle ∨ (assemble r b sent s).1 = .push r sent) := by
  unfold assemble
  simp only
  split
  · refine ⟨rfl,fun x different => ?_,?_,.inl rfl⟩
    · simp [State.setReq,State.setBuffer,Function.update_of_ne different]
    · simp [State.setReq,State.setBuffer]
  · refine ⟨rfl,fun x different => ?_,?_,.inr rfl⟩
    · simp [State.setReq,State.setBuffer,Function.update_of_ne different]
    · simp [State.setReq,State.setBuffer]

/-- A step of the main thread outside the window between its push and its pops. -/
theorem Owned.main (owned : Owned cfg v) {main : MainPc} {s : State} {pool free : Fifo Nat}
    (reqs : freeReqs { v with main := main, s := s, pool := pool, free := free } = freeReqs v)
    (buffers : freeBuffers { v with main := main, s := s, pool := pool, free := free } = freeBuffers v)
    (flying : s.inFlight = v.s.inFlight)
    (same : ∀ b, (v.ready.items ++ v.s.inFlight).countP (s.has b) =
      (v.ready.items ++ v.s.inFlight).countP (v.s.has b) ∧ handBuffers s v.io = handBuffers v.s v.io)
    (peeked : Peeked { v with main := main, s := s, pool := pool, free := free } main) :
    Owned cfg { v with main := main, s := s, pool := pool, free := free } := by
  refine ⟨?_,?_,peeked⟩
  · intro r
    rw [reqs]
    simp only [flying]
    exact owned.reqs r
  · intro b
    rw [buffers]
    simp only [flying,(same b).1,(same b).2]
    exact owned.buffers b

theorem Owned.peekReq (owned : Owned cfg v) {sent : Sent} {r : Nat} {rest : List Nat}
    (pc : v.main = .peekReq sent) (items : v.free.items = r :: rest) :
    Owned cfg { v with main := .peekBuf r sent, s := v.s.dropBuffer r, free := ⟨r :: rest,true⟩ } := by
  have member : r ∈ freeReqs v := by simp [freeReqs,pc,items]
  refine owned.main ?_ ?_ rfl (countP_free owned member (dropBuffer_same v.s r)) ⟨rfl,rfl⟩
  · simp only [freeReqs,pc,items]
  · simp only [freeBuffers,pc]

theorem Owned.peekBuf (owned : Owned cfg v) {sent : Sent} {r b : Nat} {rest : List Nat}
    (pc : v.main = .peekBuf r sent) (items : v.pool.items = b :: rest) :
    Owned cfg { v with main := (assemble r b sent v.s).1, s := (assemble r b sent v.s).2
                       pool := ⟨b :: rest,true⟩ } := by
  have peeked := owned.peeked
  rw [pc] at peeked
  have member := owned.peekBuf_free pc
  obtain ⟨flying,same,buffer,next⟩ := assemble_effect r b sent v.s
  refine owned.main ?_ ?_ flying (countP_free owned member same) ?_
  · rcases next with next | next <;> simp only [freeReqs,pc,next]
  · rcases next with next | next <;> simp only [freeBuffers,pc,next,items]
  · rcases next with next | next <;> rw [next]
    · trivial
    · exact ⟨peeked.1,peeked.2,by simp [buffer],by simp [buffer],rfl⟩

/-- The request is published; its old places in the free queues do not count any more. -/
theorem Owned.push (owned : Owned cfg v) {sent : Sent} {r : Nat} (pc : v.main = .push r sent) :
    Owned cfg { v with main := .popBuf, s := v.s.accept r sent
                       ready := { v.ready with items := v.ready.items ++ [r] } } := by
  have peeked := owned.peeked
  rw [pc] at peeked
  obtain ⟨oldest,cached,first,some',cached'⟩ := peeked
  obtain ⟨b,buffer⟩ := Option.isSome_iff_exists.mp some'
  rw [buffer] at first
  obtain ⟨rest,items⟩ := List.head?_eq_some_iff.mp oldest
  obtain ⟨rest',items'⟩ := List.head?_eq_some_iff.mp first
  have has (x : Nat) : (v.s.accept r sent).has x = v.s.has x := by
    funext y
    simp only [State.has,State.accept,State.setReq,Function.update_apply]
    split
    · next same => rw [same]
    · rfl
  have hand : handBuffers (v.s.accept r sent) v.io = handBuffers v.s v.io := by
    cases v.io with
    | prepTest x =>
      simp only [handBuffers,State.accept,State.setReq,Function.update_apply]
      split
      · next same => rw [same]
      · rfl
    | _ => rfl
  refine ⟨?_,?_,?_⟩
  · intro x
    have places := owned.reqs x
    simp only [freeReqs,pc,items,List.count_cons] at places
    change (v.free.items.tail).count x + (v.ready.items ++ [r]).count x + v.s.inFlight.count x + _ = _
    rw [items]
    simp only [List.tail_cons,List.count_append,List.count_cons,List.count_nil]
    omega
  · intro x
    have places := owned.buffers x
    have own : v.s.has x r = (b == x) := by simp [State.has,buffer]
    simp only [freeBuffers,pc,items',List.count_cons,List.countP_append] at places
    change (v.pool.items.tail).count x + (v.ready.items ++ [r] ++ v.s.inFlight).countP _ +
      (handBuffers (v.s.accept r sent) v.io).count x = _
    rw [items',has,hand]
    simp only [List.tail_cons,List.countP_append,List.countP_cons,List.countP_nil,own]
    omega
  · exact ⟨by simp [items],cached,by simp [items'],cached'⟩

theorem Owned.prepPop (owned : Owned cfg v) {r : Nat} {rest : List Nat} (pc : v.io = .prepPop)
    (items : v.ready.items = r :: rest) : Owned cfg { v with io := .prepTest r, ready := ⟨rest,false⟩ } := by
  refine ⟨?_,?_,owned.peeked⟩
  · intro x
    have places := owned.reqs x
    simp only [pc,items,handReqs,List.count_cons,List.count_nil] at places
    change (freeReqs v).count x + rest.count x + v.s.inFlight.count x + [r].count x = _
    simp only [List.count_cons,List.count_nil]
    omega
  · intro x
    have places := owned.buffers x
    simp only [pc,items,handBuffers,List.cons_append,List.countP_cons,List.count_nil] at places
    change (freeBuffers v).count x + (rest ++ v.s.inFlight).countP (v.s.has x) +
      (handBuffers v.s (.prepTest r)).count x = _
    rw [handBuffers_test]
    omega

/-- A request that a callback holds is nowhere else. -/
theorem Owned.hand_only (owned : Owned cfg v) {r : Nat} (hand : handReqs v.io = [r]) :
    r ∉ v.ready.items ++ v.s.inFlight ∧ r ∉ freeReqs v := by
  have places := owned.reqs_once r
  rw [hand,List.count_singleton_self] at places
  constructor
  · rw [← List.count_eq_zero,List.count_append]
    omega
  · rw [← List.count_eq_zero]
    omega

/-- A callback may write to the request it holds. -/
theorem Owned.peeked_apart (owned : Owned cfg v) {r : Nat} (absent : r ∉ freeReqs v) {s : State} {io : IoPc}
    (same : ∀ x, x ≠ r → (s.reqs x).buffer = (v.s.reqs x).buffer) :
    Peeked { v with io := io, s := s } v.main := by
  have peeked := owned.peeked
  cases pc : v.main with
  | push r' sent =>
    rw [pc] at peeked
    obtain ⟨oldest,cached,first,some',cached'⟩ := peeked
    have different : r' ≠ r := by
      rintro rfl
      exact absent (owned.push_free pc)
    exact ⟨oldest,cached,by rw [same r' different]; exact first,by rw [same r' different]; exact some',cached'⟩
  | _ =>
    rw [pc] at peeked
    exact peeked

theorem Owned.submit (owned : Owned cfg v) {r : Nat} {verdict : Verdict} {x : IoPc × State}
    (pc : v.io = .prepTest r) (ran : onPrep r verdict v.s = some x) :
    Owned cfg { v with io := x.1, s := x.2 } := by
  have hand : handReqs v.io = [r] := by rw [pc]; rfl
  obtain ⟨absent,notFree⟩ := owned.hand_only hand
  have reqs (y : Nat) := owned.reqs y
  have buffers (y : Nat) := owned.buffers y
  simp only [hand] at reqs
  simp only [pc,handBuffers_test] at buffers
  unfold onPrep at ran
  split at ran
  · obtain ⟨b,buffer,rfl⟩ := Option.map_eq_some_iff.mp ran
    refine ⟨reqs,fun y => ?_,owned.peeked⟩
    have places := buffers y
    simp only [State.has,buffer,Option.some_beq_some] at places
    change (freeBuffers v).count y + (v.ready.items ++ v.s.inFlight).countP (v.s.has y) + [b].count y = _
    rw [List.count_singleton]
    exact places
  · next handle =>
    obtain rfl := Option.some.inj ran
    refine ⟨fun y => ?_,fun y => ?_,owned.peeked⟩
    · have places := reqs y
      change (freeReqs v).count y + v.ready.items.count y + (v.s.inFlight ++ [r]).count y + 0 = _
      rw [List.count_append]
      omega
    · have places := buffers y
      change (freeBuffers v).count y + (v.ready.items ++ (v.s.inFlight ++ [r])).countP (v.s.has y) + 0 = _
      rw [← List.append_assoc,List.countP_append,List.countP_singleton]
      omega
  · next handle =>
    obtain ⟨b,buffer,rfl⟩ := Option.map_eq_some_iff.mp ran
    have same (x : Nat) (different : x ≠ r) :
        (((v.s.log r handle).dropBuffer r).reqs x).buffer = (v.s.reqs x).buffer :=
      dropBuffer_same (v.s.log r handle) r x different
    refine ⟨reqs,fun y => ?_,owned.peeked_apart notFree same⟩
    have places := buffers y
    rw [← countP_has absent same y] at places
    simp only [State.has,buffer,Option.some_beq_some] at places
    change (freeBuffers v).count y +
      (v.ready.items ++ v.s.inFlight).countP (((v.s.log r handle).dropBuffer r).has y) + [b].count y = _
    rw [List.count_singleton]
    exact places

/-- A request in flight is nowhere else. -/
theorem Owned.flying_only (owned : Owned cfg v) {r : Nat} (flying : r ∈ v.s.inFlight) :
    r ∉ v.ready.items ++ v.s.inFlight.erase r ∧ r ∉ freeReqs v := by
  have here := List.count_pos_iff.mpr flying
  have places := owned.reqs_once r
  constructor
  · rw [← List.count_eq_zero,List.count_append,List.count_erase_self]
    omega
  · rw [← List.count_eq_zero]
    omega

theorem Owned.sent (owned : Owned cfg v) {r : Nat} {x : IoPc × State} (pc : v.io = .idle)
    (flying : r ∈ v.s.inFlight) (ran : onSend r (v.s.written r) = some x) :
    Owned cfg { v with io := x.1, s := x.2 } := by
  obtain ⟨b,held,rfl⟩ := Option.map_eq_some_iff.mp ran
  have buffer : (v.s.reqs r).buffer = some b := held
  obtain ⟨absent,notFree⟩ := owned.flying_only flying
  have same := dropBuffer_same v.s r
  refine ⟨fun y => ?_,fun y => ?_,owned.peeked_apart notFree same⟩
  · have places := owned.reqs y
    rw [pc] at places
    have erased : v.s.inFlight.count y = (v.s.inFlight.erase r).count y + if r = y then 1 else 0 := by
      rw [(List.perm_cons_erase flying).count_eq y,List.count_cons]
      simp
    change (freeReqs v).count y + v.ready.items.count y + (v.s.inFlight.erase r).count y + [r].count y = _
    simp only [handReqs,List.count_cons,List.count_nil,beq_iff_eq] at places ⊢
    omega
  · have places := owned.buffers y
    rw [pc] at places
    have erased : v.s.inFlight.countP (v.s.has y) =
        (v.s.inFlight.erase r).countP (v.s.has y) + if v.s.has y r then 1 else 0 := by
      rw [(List.perm_cons_erase flying).countP_eq,List.countP_cons]
    have kept := countP_has absent same y
    change (freeBuffers v).count y +
      (v.ready.items ++ v.s.inFlight.erase r).countP ((v.s.dropBuffer r).has y) + [b].count y = _
    rw [kept]
    simp only [handBuffers,List.countP_append,List.count_cons,List.count_nil,State.has,buffer,
      Option.some_beq_some] at places erased ⊢
    omega

theorem head_append {l : List Nat} {x y : Nat} (first : l.head? = some x) : (l ++ [y]).head? = some x := by
  rw [List.head?_append,first]
  rfl

/-- What was peeked stays the oldest entry while callbacks push. -/
theorem Peeked.pool {main : MainPc} (peeked : Peeked v main) (io : IoPc) (b : Nat) :
    Peeked { v with io := io, pool := { v.pool with items := v.pool.items ++ [b] } } main := by
  cases main with
  | push r sent =>
    obtain ⟨oldest,cached,first,some',cached'⟩ := peeked
    obtain ⟨x,buffer⟩ := Option.isSome_iff_exists.mp some'
    refine ⟨oldest,cached,?_,some',cached'⟩
    rw [buffer] at first ⊢
    exact head_append first
  | popBuf => exact ⟨peeked.1,peeked.2.1,by simp,peeked.2.2.2⟩
  | _ => exact peeked

theorem Peeked.free {main : MainPc} (peeked : Peeked v main) (io : IoPc) (r : Nat) :
    Peeked { v with io := io, free := { v.free with items := v.free.items ++ [r] } } main := by
  cases main with
  | peekBuf r' sent => exact ⟨head_append peeked.1,peeked.2⟩
  | push r' sent => exact ⟨head_append peeked.1,peeked.2⟩
  | popBuf => exact ⟨by simp,peeked.2⟩
  | popReq => exact ⟨by simp,peeked.2⟩
  | _ => trivial

/-- The free queues have room even while an entry of theirs is on its way out. -/
theorem window_room {l items : List Nat} {n capacity x : Nat} (roomy : n < capacity)
    (window : l = items ∨ l = items.tail) (each : ∀ y, l.count y ≤ if y < n then 1 else 0)
    (small : x < n) (absent : l.count x = 0) : items.length ≠ capacity := by
  have short := Counting.length_lt each small absent
  rcases window with rfl | rfl
  · omega
  · rw [List.length_tail] at short
    omega

theorem returned_hand {s : State} {pc io : IoPc} {b : Nat} (next : returned pc = some (b, io)) :
    handBuffers s pc = [b] ∧ handBuffers s io = [] ∧ handReqs io = handReqs pc := by
  cases pc <;> simp only [returned,reduceCtorEq,Option.some.injEq,Prod.mk.injEq] at next <;>
    obtain ⟨rfl,rfl⟩ := next <;> exact ⟨rfl,rfl,rfl⟩

theorem recycled_hand {s : State} {pc io : IoPc} {r : Nat} (next : recycled pc = some (r, io)) :
    handReqs pc = [r] ∧ handReqs io = [] ∧ handBuffers s io = handBuffers s pc := by
  cases pc <;> simp only [recycled,reduceCtorEq,Option.some.injEq,Prod.mk.injEq] at next <;>
    obtain ⟨rfl,rfl⟩ := next <;> exact ⟨rfl,rfl,rfl⟩

theorem Owned.pool_room (owned : Owned cfg v) (roomy : cfg.bufferCount < 2 ^ cfg.bits) {b : Nat} {io : IoPc}
    (next : returned v.io = some (b, io)) : v.pool.items.length ≠ 2 ^ cfg.bits := by
  have buffers (y : Nat) := owned.buffers y
  simp only [(returned_hand next).1] at buffers
  have window : freeBuffers v = v.pool.items ∨ freeBuffers v = v.pool.items.tail := by
    cases v with
    | mk main _ _ _ _ _ => cases main <;> simp [freeBuffers]
  have here := buffers b
  rw [List.count_singleton_self] at here
  have small : b < cfg.bufferCount := by
    by_contra outside
    rw [if_neg outside] at here
    omega
  rw [if_pos small] at here
  exact window_room roomy window (fun y => by have := buffers y; omega) small (by omega)

theorem Owned.free_room (owned : Owned cfg v) (roomy : cfg.bufferCount < 2 ^ cfg.bits) {r : Nat} {io : IoPc}
    (next : recycled v.io = some (r, io)) : v.free.items.length ≠ 2 ^ cfg.bits := by
  have reqs (y : Nat) := owned.reqs y
  simp only [(recycled_hand (s := v.s) next).1] at reqs
  have window : freeReqs v = v.free.items ∨ freeReqs v = v.free.items.tail := by
    cases v with
    | mk main _ _ _ _ _ => cases main <;> simp [freeReqs]
  have here := reqs r
  rw [List.count_singleton_self] at here
  have small : r < cfg.bufferCount := by
    by_contra outside
    rw [if_neg outside] at here
    omega
  rw [if_pos small] at here
  exact window_room roomy window (fun y => by have := reqs y; omega) small (by omega)

/-- A request that a send is about to publish is free, so it is not among the ready ones. -/
theorem Owned.ready_room (owned : Owned cfg v) {r : Nat} {sent : Sent} (pc : v.main = .push r sent) :
    v.ready.items.length < cfg.bufferCount := by
  obtain ⟨small,absent,-⟩ := owned.free_only (owned.push_free pc)
  refine Counting.length_lt (fun y => ?_) small (List.count_eq_zero.mpr ?_)
  · have places := owned.reqs y
    omega
  · intro member
    exact absent (List.mem_append_left _ member)

theorem Owned.poolPush (owned : Owned cfg v) (roomy : cfg.bufferCount < 2 ^ cfg.bits) {b : Nat} {io : IoPc}
    {pool : Fifo Nat} (next : returned v.io = some (b, io)) (pushed : Pushed (2 ^ cfg.bits) v.pool b pool) :
    Owned cfg { v with io := io, pool := pool } := by
  have buffers (y : Nat) := owned.buffers y
  obtain ⟨own,none',same⟩ := returned_hand (s := v.s) next
  simp only [own] at buffers
  obtain ⟨-,rfl⟩ := pushed.resolve_right fun full => owned.pool_room roomy next full.1
  have appended : freeBuffers { v with io := io, pool := { v.pool with items := v.pool.items ++ [b] } } =
      freeBuffers v ++ [b] := by
    have peeked := owned.peeked
    cases pc : v.main <;> simp only [freeBuffers,pc]
    rw [pc] at peeked
    exact List.tail_append_of_ne_nil peeked.2.2.1
  refine ⟨fun y => ?_,fun y => ?_,?_⟩
  · simp only [same]
    exact owned.reqs y
  · have places := buffers y
    rw [appended,List.count_append]
    simp only [none',List.count_nil]
    omega
  · exact owned.peeked.pool io b

theorem Owned.freePush (owned : Owned cfg v) (roomy : cfg.bufferCount < 2 ^ cfg.bits) {r : Nat} {io : IoPc}
    {free : Fifo Nat} (next : recycled v.io = some (r, io)) (pushed : Pushed (2 ^ cfg.bits) v.free r free) :
    Owned cfg { v with io := io, free := free } := by
  have reqs (y : Nat) := owned.reqs y
  obtain ⟨own,none',same⟩ := recycled_hand (s := v.s) next
  simp only [own] at reqs
  obtain ⟨-,rfl⟩ := pushed.resolve_right fun full => owned.free_room roomy next full.1
  have appended : freeReqs { v with io := io, free := { v.free with items := v.free.items ++ [r] } } =
      freeReqs v ++ [r] := by
    have peeked := owned.peeked
    cases pc : v.main <;> simp only [freeReqs,pc]
    all_goals
      rw [pc] at peeked
      exact List.tail_append_of_ne_nil peeked.1
  refine ⟨fun y => ?_,fun y => ?_,?_⟩
  · have places := reqs y
    rw [appended,List.count_append]
    simp only [none',List.count_nil]
    omega
  · simp only [same]
    exact owned.buffers y
  · exact owned.peeked.free io r

theorem Owned.move (owned : Owned cfg v) (roomy : cfg.bufferCount < 2 ^ cfg.bits) (move : Move cfg v v') :
    Owned cfg v' := by
  cases move with
  | send pc some' => exact owned.main (by simp [freeReqs,pc]) (by simp [freeBuffers,pc]) rfl (by simp) trivial
  | noReq pc none' => exact owned.main (by simp [freeReqs,pc]) (by simp [freeBuffers,pc]) rfl (by simp) trivial
  | peekReq pc items => exact owned.peekReq pc items
  | noBuf pc none' => exact owned.main (by simp [freeReqs,pc]) (by simp [freeBuffers,pc]) rfl (by simp) trivial
  | peekBuf pc items => exact owned.peekBuf pc items
  | push pc room => exact owned.push pc
  | pushFull pc full => exact owned.main (by simp [freeReqs,pc]) (by simp [freeBuffers,pc]) rfl (by simp) trivial
  | popBuf pc =>
    have peeked := owned.peeked
    rw [pc] at peeked
    exact owned.main (by simp [freeReqs,pc]) (by simp [freeBuffers,pc]) rfl (by simp) ⟨peeked.1,peeked.2.1⟩
  | popReq pc => exact owned.main (by simp [freeReqs,pc]) (by simp [freeBuffers,pc]) rfl (by simp) trivial
  | prep pc =>
    have reqs := owned.reqs
    have buffers := owned.buffers
    rw [pc] at reqs buffers
    exact ⟨reqs,buffers,owned.peeked⟩
  | prepNone pc none' =>
    have reqs := owned.reqs
    have buffers := owned.buffers
    rw [pc] at reqs buffers
    exact ⟨reqs,buffers,owned.peeked⟩
  | prepPop pc items => exact owned.prepPop pc items
  | submit pc ran => exact owned.submit pc ran
  | sent pc flying ran => exact owned.sent pc flying ran
  | poolPush next pushed => exact owned.poolPush roomy next pushed
  | freePush next pushed => exact owned.freePush roomy next pushed

end Step

section Runs

variable {cfg : Config} {blocks : Nat → Nat → UInt8} {a : Abstract}

theorem initial_owned : Owned cfg (view (atomicInitial cfg blocks)) := by
  have count (x : Nat) : (List.range cfg.bufferCount).count x = if x < cfg.bufferCount then 1 else 0 := by
    rw [List.nodup_range.count]
    simp
  refine ⟨?_,?_,trivial⟩
  · intro r
    simp [view,atomicInitial,freeReqs,idle,filled,filledCount,handReqs,start,count]
  · intro b
    simp [view,atomicInitial,freeBuffers,idle,filled,filledCount,handBuffers,start,count]

theorem reachable_owned (roomy : cfg.bufferCount < 2 ^ cfg.bits)
    (reach : Transition.Reachable (atomic cfg) Exact (atomicInitial cfg blocks) a) : Owned cfg (view a) :=
  reach.invariant (fun a => Owned cfg (view a)) initial_owned
    fun _ _ _ owned exact' taken => owned.move roomy (step_move exact' taken)

/-- A cached pop only follows a peek. -/
theorem Owned.safe (owned : Owned cfg (view a)) :
    Safe (simulation (fun _ => cfg.bits) (fun _ => cfg.small)) machine (fun _ => True) a := by
  intro t q op asked _
  have peeked := owned.peeked
  simp only [view] at peeked
  cases t with
  | main =>
    cases pc : a.pcs .main <;> rw [pc] at peeked <;> simp only [machine,request,pc,reduceCtorEq,
      Option.some.injEq,Prod.mk.injEq] at asked <;> obtain ⟨rfl,rfl⟩ := asked
    case popBuf => exact peeked.2.2.2
    case popReq => exact peeked.2
    all_goals trivial
  | io =>
    cases pc : a.pcs .io <;> simp only [machine,request,pc,reduceCtorEq,
      Option.some.injEq,Prod.mk.injEq] at asked <;> obtain ⟨rfl,rfl⟩ := asked <;> trivial

/-- The two threads are at different endpoints of every queue. -/
theorem request_apart {t other : Thread} {pc : Pc t} {pc' : Pc other} {q : QueueName} {op op' : Op Nat}
    (different : other ≠ t) (asked : request t pc = some (q, op)) (asked' : request other pc' = some (q, op')) :
    op.side ≠ op'.side := by
  cases t <;> cases other <;> first | exact absurd rfl different | skip
  all_goals
    cases pc <;> simp only [request,reduceCtorEq,Option.some.injEq,Prod.mk.injEq] at asked <;>
      obtain ⟨rfl,rfl⟩ := asked <;>
      cases pc' <;> simp only [request,reduceCtorEq,Option.some.injEq,Prod.mk.injEq,false_and] at asked' <;>
      obtain ⟨-,rfl⟩ := asked' <;> simp [Op.side]

/-- Every run is a run of the atomic queues. -/
theorem reachable_related {mem : QueueName → Queue Nat} {s : Running}
    (roomy : cfg.bufferCount < 2 ^ cfg.bits) (ready : SetUp cfg mem)
    (reach : Transition.Reachable step (fun _ _ => True) (initial cfg blocks mem) s) :
    ∃ a, Transition.Reachable (atomic cfg) Exact (atomicInitial cfg blocks) a ∧
      Related (simulation (fun _ => cfg.bits) (fun _ => cfg.small)) machine (fun _ => True) s a := by
  have begun : Related (simulation (fun _ => cfg.bits) (fun _ => cfg.small)) machine (fun _ => True)
      (initial cfg blocks mem) (atomicInitial cfg blocks) := by
    refine ⟨rfl,rfl,fun q _ => ready q,?_,fun _ _ => rfl⟩
    intro t q op asked
    cases t <;> simp [machine,request,initial,idle] at asked
  exact refines Exact begun (fun a reached => (reachable_owned roomy reached).safe)
    (fun _ _ _ _ _ asked _ _ _ different asked' => .inr (request_apart different asked asked'))
    (fun _ _ _ _ _ => trivial) (fun _ _ _ _ _ _ _ _ _ _ _ _ _ => trivial)
    (fun _ _ _ _ _ _ _ _ _ _ outside => (outside trivial).elim) reach

end Runs

/-- Every write request is in one of the two queues or in flight, and every write buffer in
its pool or with one request. -/
def Settled (cfg : Config) (s : Running) : Prop :=
  (∀ r, (s.mem .reqsFree).contents.count r + (s.mem .reqsReady).contents.count r + s.shared.inFlight.count r =
    if r < cfg.bufferCount then 1 else 0) ∧
  ∀ b, (s.mem .poolWrite).contents.count b +
    ((s.mem .reqsReady).contents ++ s.shared.inFlight).countP (s.shared.has b) =
      if b < cfg.bufferCount then 1 else 0

/-- With the sizes of the service, nothing is lost or shared whenever both threads are
outside, whatever the IO thread did before a send had popped its entries. -/
theorem write_side_settled (mem : QueueName → Queue Nat) (ready : SetUp serviceConfig mem)
    (blocks : Nat → Nat → UInt8) (s : Running)
    (reach : Transition.Reachable step (fun _ _ => True) (initial serviceConfig blocks mem) s)
    (main : s.pcs .main = .idle) (io : s.pcs .io = .idle) : Settled serviceConfig s := by
  have roomy : serviceConfig.bufferCount < 2 ^ serviceConfig.bits := by decide
  obtain ⟨a,reached,related⟩ := reachable_related roomy ready reach
  have owned := reachable_owned roomy reached
  have contents (q : QueueName) : (s.mem q).contents = (a.abs q).items :=
    (related.rel q trivial).contents serviceConfig.small
  have main' : (view a).main = .idle := by rw [← main,related.pcs]; rfl
  have io' : (view a).io = .idle := by rw [← io,related.pcs]; rfl
  have reqs := owned.reqs
  have buffers := owned.buffers
  simp only [freeReqs,freeBuffers,main',io',handReqs,handBuffers,List.count_nil,Nat.add_zero] at reqs buffers
  refine ⟨fun r => ?_,fun b => ?_⟩
  · rw [contents,contents,related.shared]
    exact reqs r
  · rw [contents,contents,related.shared]
    exact buffers b

def serviceStart : Running :=
  initial serviceConfig (fun _ _ => 0) fun q => countedQueue serviceConfig.bits (filledCount serviceConfig q)

theorem serviceStart_setUp : SetUp serviceConfig serviceStart.mem :=
  fun q => countedQueue_represents (by decide) (by cases q <;> decide)

/-- The IO thread finds the channel closed and puts the request back before the call that
sent it has popped it. -/
def earlyReturn : List (SplitLabel Thread Act) :=
  .act (.send ⟨7,[1,2,3],none⟩) :: List.replicate 10 (.tick .main) ++ .act .prep ::
    List.replicate 4 (.tick .io) ++ .act (.submit .notOpen) :: List.replicate 10 (.tick .io) ++
    List.replicate 2 (.tick .main)

theorem write_side_settled_early :
    ∃ s, Transition.execute step earlyReturn serviceStart = some s ∧ s.shared.sends.length = 1 ∧
      Settled serviceConfig s := by
  have observed : (Transition.execute step earlyReturn serviceStart).map
      (fun s => (s.pcs .main,s.pcs .io,s.shared.sends.length)) = some (.idle,.idle,1) := by decide +kernel
  obtain ⟨s,run,final⟩ := Option.map_eq_some_iff.mp observed
  simp only [Prod.mk.injEq] at final
  exact ⟨s,run,final.2.2,write_side_settled _ serviceStart_setUp _ s (.of_execute (fun _ _ _ => trivial) run)
    final.1 final.2.1⟩

end Tcpeen.Send
