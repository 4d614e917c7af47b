import Tcpeen.SendOrder

/-! What no step of the sending half reads before it is written again: cached indexes outside
the calls that use them, the buffer field of a request that is neither published nor in a hand,
and what a block says of its length while no request points to it. Two states that differ there
only go on in step. -/
namespace Tcpeen.Send

open SplitOperation QueueSpsc

/-- What is left of a request when its buffer is forgotten. -/
def WriteReq.dropped (req : WriteReq) : WriteReq := { req with buffer := none }

/-- States that differ in the buffer fields of some requests, and in what a reset forgets of
some blocks. -/
structure Similar (reqs blocks : Nat → Prop) (s s' : State) : Prop where
  sameReq : ∀ x, ¬ reqs x → s'.reqs x = s.reqs x
  dropped : ∀ x, (s'.reqs x).dropped = (s.reqs x).dropped
  sameBlock : ∀ x, ¬ blocks x → s'.buffers x = s.buffers x
  reset : ∀ x, (s'.buffers x).reset = (s.buffers x).reset
  inFlight : s'.inFlight = s.inFlight
  sends : s'.sends = s.sends
  writes : s'.writes = s.writes

/-- Rings that differ in the cached index only. -/
def Recached (q q' : Queue Nat) : Prop := ∃ cache, q' = { q with tailCache := cache }

section Similar

variable {R B : Nat → Prop} {s s' : State} {r b : Nat}

theorem Similar.refl (R B : Nat → Prop) (s : State) : Similar R B s s :=
  ⟨fun _ _ => rfl,fun _ => rfl,fun _ _ => rfl,fun _ => rfl,rfl,rfl,rfl⟩

theorem Similar.mono (similar : Similar R B s s') {R' B' : Nat → Prop} (reqs : ∀ x, R x → R' x)
    (blocks : ∀ x, B x → B' x) : Similar R' B' s s' :=
  ⟨fun x out => similar.sameReq x fun inside => out (reqs x inside),similar.dropped,
    fun x out => similar.sameBlock x fun inside => out (blocks x inside),similar.reset,similar.inFlight,
    similar.sends,similar.writes⟩

/-- The same new value for one request in both states. -/
theorem Similar.setReq (similar : Similar R B s s') (r : Nat) (req : WriteReq) :
    Similar (fun x => R x ∧ x ≠ r) B (s.setReq r req) (s'.setReq r req) := by
  refine ⟨?_,?_,similar.sameBlock,similar.reset,similar.inFlight,similar.sends,similar.writes⟩
  · intro x out
    by_cases here : x = r
    · subst here
      simp [State.setReq]
    · simpa [State.setReq,Function.update_of_ne here] using similar.sameReq x fun inside => out ⟨inside,here⟩
  · intro x
    by_cases here : x = r
    · subst here
      simp [State.setReq]
    · simpa [State.setReq,Function.update_of_ne here] using similar.dropped x

theorem Similar.setBuffer (similar : Similar R B s s') (b : Nat) (buffer : Buffer) :
    Similar R (fun x => B x ∧ x ≠ b) (s.setBuffer b buffer) (s'.setBuffer b buffer) := by
  refine ⟨similar.sameReq,similar.dropped,?_,?_,similar.inFlight,similar.sends,similar.writes⟩
  · intro x out
    by_cases here : x = b
    · subst here
      simp [State.setBuffer]
    · simpa [State.setBuffer,Function.update_of_ne here] using similar.sameBlock x fun inside => out ⟨inside,here⟩
  · intro x
    by_cases here : x = b
    · subst here
      simp [State.setBuffer]
    · simpa [State.setBuffer,Function.update_of_ne here] using similar.reset x

/-- A new buffer field for a request that may differ anyway. -/
theorem Similar.mark (similar : Similar R B s s') (inside : R r) (buffer : Option Nat) :
    Similar R B s (s'.setReq r { s'.reqs r with buffer }) := by
  refine ⟨?_,?_,similar.sameBlock,similar.reset,similar.inFlight,similar.sends,similar.writes⟩
  · intro x out
    have different : x ≠ r := by
      rintro rfl
      exact out inside
    simpa [State.setReq,Function.update_of_ne different] using similar.sameReq x out
  · intro x
    by_cases here : x = r
    · subst here
      simpa [State.setReq,WriteReq.dropped] using similar.dropped x
    · simpa [State.setReq,Function.update_of_ne here] using similar.dropped x

/-- A reset of a block that may differ anyway. -/
theorem Similar.resetBlock (similar : Similar R B s s') (inside : B b) :
    Similar R B s (s'.setBuffer b (s'.buffers b).reset) := by
  refine ⟨similar.sameReq,similar.dropped,?_,?_,similar.inFlight,similar.sends,similar.writes⟩
  · intro x out
    have different : x ≠ b := by
      rintro rfl
      exact out inside
    simpa [State.setBuffer,Function.update_of_ne different] using similar.sameBlock x out
  · intro x
    by_cases here : x = b
    · subst here
      simpa [State.setBuffer,Buffer.reset,Buffer.writeReset,Buffer.readReset] using similar.reset x
    · simpa [State.setBuffer,Function.update_of_ne here] using similar.reset x

theorem Similar.dropBuffer (similar : Similar R B s s') (r : Nat) :
    Similar (fun x => R x ∧ x ≠ r) B (s.dropBuffer r) (s'.dropBuffer r) := by
  have same := similar.setReq r (s.reqs r).dropped
  have field : s'.dropBuffer r = s'.setReq r (s.reqs r).dropped := by
    rw [← similar.dropped r]
    rfl
  rw [field]
  exact same

theorem Similar.accept (similar : Similar R B s s') (outside : ¬ R r) (sent : Sent) :
    Similar R B (s.accept r sent) (s'.accept r sent) := by
  have numbered := (similar.setReq r { s.reqs r with ticket := s.sends.length }).mono
    (fun _ inside => inside.1) fun _ inside => inside
  have field : s'.accept r sent =
      { s'.setReq r { s.reqs r with ticket := s.sends.length } with sends := s.sends ++ [sent] } := by
    simp only [State.accept,similar.sameReq r outside,similar.sends]
  rw [field]
  exact ⟨numbered.sameReq,numbered.dropped,numbered.sameBlock,numbered.reset,numbered.inFlight,rfl,numbered.writes⟩

/-- A send that has a request in its hand does the same with the oldest block. -/
theorem Similar.assemble (similar : Similar R B s s') (outside : ¬ R r) (b : Nat) (sent : Sent) :
    (assemble r b sent s').1 = (assemble r b sent s).1 ∧
      Similar R (fun x => B x ∧ x ≠ b) (assemble r b sent s).2 (assemble r b sent s').2 := by
  simp only [Send.assemble,similar.reset b,similar.sameReq r outside]
  split
  · refine ⟨rfl,?_⟩
    exact ((similar.setReq r _).setBuffer b _).mono (fun _ inside => inside.1) fun _ inside => inside
  · refine ⟨rfl,?_⟩
    exact ((similar.setReq r _).setBuffer b _).mono (fun _ inside => inside.1) fun _ inside => inside

theorem Similar.covered (similar : Similar R B s s') (outside : ¬ R r) (seen : ¬ B (s.reqs r).base.1) :
    s'.covered r = s.covered r :=
  covered_same (similar.sameReq r outside) (similar.sameBlock _ seen)

theorem Similar.log (similar : Similar R B s s') (outside : ¬ R r) (seen : ¬ B (s.reqs r).base.1) (handle : Nat) :
    Similar R B (s.log r handle) (s'.log r handle) := by
  refine ⟨similar.sameReq,similar.dropped,similar.sameBlock,similar.reset,similar.inFlight,similar.sends,?_⟩
  simp only [State.log,similar.writes,similar.sameReq r outside,similar.covered outside seen]

end Similar

section Reading

/-- The request in the hand of a send, and the one it is about to publish. -/
def holding : MainPc → List Nat
  | .peekBuf r _ | .push r _ => [r]
  | _ => []

def pushing : MainPc → List Nat
  | .push r _ => [r]
  | _ => []

/-- Nobody reads the buffer field of this request before a send takes the request. -/
def Unread (v : View) (x : Nat) : Prop :=
  x ∉ v.ready.items ∧ x ∉ v.s.inFlight ∧ x ∉ handReqs v.io ∧ x ∉ holding v.main

/-- No request on its way points to this block. -/
def Unseen (v : View) (b : Nat) : Prop :=
  ∀ r ∈ v.ready.items ++ testing v.io ++ pushing v.main, (v.s.reqs r).base.1 ≠ b

variable {cfg : Config} {v v' : View} {x : Nat}

theorem Unread.submit {r : Nat} {verdict : Verdict} {next : IoPc × State} (unread : Unread v x)
    (pc : v.io = .prepTest r) (ran : onPrep r verdict v.s = some next) :
    Unread { v with io := next.1, s := next.2 } x := by
  obtain ⟨ready,flying,hand,main⟩ := unread
  have different : x ≠ r := by simpa [pc,handReqs] using hand
  unfold onPrep at ran
  split at ran
  · obtain ⟨b,-,rfl⟩ := Option.map_eq_some_iff.mp ran
    exact ⟨ready,flying,by simpa [handReqs] using different,main⟩
  · obtain rfl := Option.some.inj ran
    exact ⟨ready,by simpa [State.log] using ⟨flying,different⟩,by simp [handReqs],main⟩
  · obtain ⟨b,-,rfl⟩ := Option.map_eq_some_iff.mp ran
    exact ⟨ready,flying,by simpa [handReqs] using different,main⟩

/-- A request that nobody reads stays so until a send takes it. -/
theorem Unread.move (unread : Unread v x) (move : Move cfg v v') :
    Unread v' x ∨ ∃ sent, v.main = .peekReq sent ∧ v'.main = .peekBuf x sent := by
  have whole := unread
  obtain ⟨ready,flying,hand,main⟩ := unread
  cases move with
  | @peekReq sent r rest pc items =>
    by_cases here : x = r
    · subst here
      exact .inr ⟨sent,pc,rfl⟩
    · exact .inl ⟨ready,flying,hand,by simpa [holding] using here⟩
  | @peekBuf r sent b rest pc items =>
    obtain ⟨same,-,-,next⟩ := assemble_effect r b sent v.s
    rw [pc] at main
    refine .inl ⟨ready,by simpa [same] using flying,hand,?_⟩
    rcases next with next | next
    · simp [next,holding]
    · simpa [next,holding] using main
  | @push r sent pc room =>
    have different : x ≠ r := by simpa [pc,holding] using main
    exact .inl ⟨by simpa using ⟨ready,different⟩,flying,hand,by simp [holding]⟩
  | prep pc => exact .inl ⟨ready,flying,by simp [handReqs],main⟩
  | prepNone pc none' => exact .inl ⟨ready,flying,by simp [handReqs],main⟩
  | prepPop pc items =>
    rw [items,List.mem_cons,not_or] at ready
    exact .inl ⟨ready.2,flying,by simpa [handReqs] using ready.1,main⟩
  | submit pc ran => exact .inl (whole.submit pc ran)
  | @sent r next pc member ran =>
    obtain ⟨b,-,rfl⟩ := Option.map_eq_some_iff.mp ran
    have different : x ≠ r := by
      rintro rfl
      exact flying member
    exact .inl ⟨ready,fun inside => flying (List.mem_of_mem_erase inside),by simpa [handReqs] using different,main⟩
  | poolPush next pushed =>
    refine .inl ⟨ready,flying,?_,main⟩
    simpa [(returned_hand (s := v.s) next).2.2] using hand
  | freePush next pushed =>
    refine .inl ⟨ready,flying,?_,main⟩
    simp [(recycled_hand (s := v.s) next).2.1]
  | _ => exact .inl ⟨ready,flying,hand,by simp [holding]⟩

theorem dropBuffer_base (s : State) (r x : Nat) : ((s.dropBuffer r).reqs x).base = (s.reqs x).base := by
  simp only [State.dropBuffer,State.setReq,Function.update_apply]
  split
  · next same => rw [same]
  · rfl

theorem onPrep_base {r : Nat} {verdict : Verdict} {s : State} {next : IoPc × State}
    (ran : onPrep r verdict s = some next) (x : Nat) : (next.2.reqs x).base = (s.reqs x).base := by
  unfold onPrep at ran
  split at ran
  · obtain ⟨b,-,rfl⟩ := Option.map_eq_some_iff.mp ran
    rfl
  · obtain rfl := Option.some.inj ran
    rfl
  · obtain ⟨b,-,rfl⟩ := Option.map_eq_some_iff.mp ran
    exact dropBuffer_base _ r x

theorem accept_base (s : State) (r : Nat) (sent : Sent) (x : Nat) :
    ((s.accept r sent).reqs x).base = (s.reqs x).base := by
  simp only [State.accept,State.setReq,Function.update_apply]
  split
  · next same => rw [same]
  · rfl

theorem assemble_refused {r b : Nat} {sent : Sent} {s : State} (refused : (assemble r b sent s).1 = .idle)
    (x : Nat) : ((assemble r b sent s).2.reqs x).base = (s.reqs x).base := by
  unfold assemble at refused ⊢
  simp only at refused ⊢
  split
  · simp only [State.setBuffer,State.setReq,Function.update_apply]
    split
    · next same => rw [same]
    · rfl
  · next written wrote =>
    rw [wrote] at refused
    cases refused

theorem returned_testing {pc io : IoPc} {b : Nat} (next : returned pc = some (b, io)) : testing io = [] := by
  cases pc <;> simp only [returned,reduceCtorEq,Option.some.injEq,Prod.mk.injEq] at next <;>
    obtain ⟨rfl,rfl⟩ := next <;> rfl

theorem recycled_testing {pc io : IoPc} {r : Nat} (next : recycled pc = some (r, io)) : testing io = [] := by
  cases pc <;> simp only [recycled,reduceCtorEq,Option.some.injEq,Prod.mk.injEq] at next <;>
    obtain ⟨rfl,rfl⟩ := next <;> rfl

theorem Unseen.frame {b : Nat} (unseen : Unseen v b)
    (places : v'.ready.items ++ testing v'.io ++ pushing v'.main ⊆ v.ready.items ++ testing v.io ++ pushing v.main)
    (bases : ∀ r, (v'.s.reqs r).base = (v.s.reqs r).base) : Unseen v' b := by
  intro r member
  rw [bases]
  exact unseen r (places member)

/-- A send takes another block than this one. -/
theorem Unseen.assemble {b b' r : Nat} {sent : Sent} {pool : Fifo Nat} (unseen : Unseen v b)
    (pc : v.main = .peekBuf r sent) (different : b' ≠ b) :
    Unseen { v with main := (assemble r b' sent v.s).1, s := (assemble r b' sent v.s).2, pool := pool } b := by
  have before (x : Nat) (member : x ∈ v.ready.items ++ testing v.io) : (v.s.reqs x).base.1 ≠ b :=
    unseen x (List.mem_append_left _ member)
  obtain ⟨-,-,reqs,-⟩ := assemble_kept r b' sent v.s
  obtain ⟨-,-,buffer,next⟩ := assemble_effect r b' sent v.s
  intro x member
  rcases next with next | next
  · simp only [next,pushing,List.append_nil] at member
    simp only [assemble_refused next]
    exact before x member
  · obtain ⟨-,own,-⟩ := assemble_covers next
    have points : ((Send.assemble r b' sent v.s).2.reqs r).base.1 = b' := Option.some.inj (own.symm.trans buffer)
    by_cases here : x = r
    · subst here
      simpa [points] using different
    · simp only [reqs x here]
      simp only [next,pushing] at member
      exact before x ((List.mem_append.mp member).resolve_right (by simpa using here))

/-- A block that no request points to stays so until a send takes it. -/
theorem Unseen.move {b : Nat} (unseen : Unseen v b) (move : Move cfg v v') :
    Unseen v' b ∨ ∃ r sent rest, v.main = .peekBuf r sent ∧ v'.main ≠ v.main ∧ v.pool.items = b :: rest := by
  have same (r : Nat) : (v.s.reqs r).base = (v.s.reqs r).base := rfl
  cases move with
  | peekReq pc items => exact .inl (unseen.frame (by simp [pc,pushing]) (dropBuffer_base v.s _))
  | @peekBuf r sent b' rest pc items =>
    by_cases here : b' = b
    · subst here
      refine .inr ⟨r,sent,rest,pc,?_,items⟩
      rcases (assemble_effect r b' sent v.s).2.2.2 with next | next <;> simp [next,pc]
    · exact .inl (unseen.assemble pc here)
  | push pc room =>
    refine .inl (unseen.frame ?_ (accept_base v.s _ _))
    simp [pc,pushing]
  | prep pc => exact .inl (unseen.frame (by simp [pc,testing]) same)
  | prepNone pc none' => exact .inl (unseen.frame (by simp [pc,testing]) same)
  | prepPop pc items => exact .inl (unseen.frame (by simp [pc,items,testing]) same)
  | submit pc ran =>
    refine .inl (unseen.frame ?_ (onPrep_base ran))
    simp [(onPrep_kept ran).2.2.2]
  | sent pc flying ran =>
    obtain ⟨b,-,rfl⟩ := Option.map_eq_some_iff.mp ran
    exact .inl (unseen.frame (by simp [pc,testing]) (dropBuffer_base v.s _))
  | poolPush next pushed => exact .inl (unseen.frame (by simp [returned_testing next]) same)
  | freePush next pushed => exact .inl (unseen.frame (by simp [recycled_testing next]) same)
  | _ pc => exact .inl (unseen.frame (by simp [pc,pushing]) same)

end Reading

/-- No call but a cached pop reads the cached index, and a look that succeeds sets it. -/
theorem tick_recached {op : Op Nat} (checks : op ≠ .popCached) (loc : Loc Nat) {q q' : Queue Nat}
    (recached : Recached q q') :
    (tick op loc q').2 = (tick op loc q).2 ∧ Recached (tick op loc q).1 (tick op loc q').1 ∧
      (∀ value, op = .peek → (tick op loc q).2 = .returned (.success [value]) →
        (tick op loc q').1 = (tick op loc q).1) := by
  obtain ⟨cache,rfl⟩ := recached
  cases op <;> first | exact absurd rfl checks | skip
  all_goals
    cases loc <;> simp only [tick] <;> (try split) <;>
      exact ⟨by trivial,⟨_,rfl⟩,by simp⟩

/-- The rings whose cached index a send will use. -/
def cached : MainPc → List QueueName
  | .peekBuf .. | .popReq => [.reqsFree]
  | .push .. | .popBuf => [.reqsFree, .poolWrite]
  | _ => []

/-- States that no step can tell apart. -/
structure Alike (v : View) (s s' : Running) : Prop where
  pcs : s'.pcs = s.pcs
  loc : s'.loc = s.loc
  mem : ∀ q, Recached (s.mem q) (s'.mem q)
  caches : ∀ q ∈ cached v.main, s'.mem q = s.mem q
  shared : Similar (Unread v) (Unseen v) s.shared s'.shared

section Steps

variable {R B : Nat → Prop} {x x' : State}

/-- The request and the block that a look gives to a send. -/
def givenReq : MainPc → Res Nat → List Nat
  | .peekReq _, .success [r] => [r]
  | _, _ => []

def givenBlock : MainPc → Res Nat → List Nat
  | .peekBuf .., .success [b] => [b]
  | _, _ => []

theorem resumeMain_similar (similar : Similar R B x x') {pc : MainPc} (held : ∀ r ∈ holding pc, ¬ R r)
    (res : Res Nat) :
    (resumeMain pc res x').1 = (resumeMain pc res x).1 ∧
      Similar (fun r => R r ∧ r ∉ givenReq pc res) (fun b => B b ∧ b ∉ givenBlock pc res)
        (resumeMain pc res x).2 (resumeMain pc res x').2 := by
  unfold resumeMain
  split
  · exact ⟨rfl,(similar.dropBuffer _).mono (by simp [givenReq]) (by simp [givenBlock])⟩
  · next r sent b =>
    obtain ⟨same,next⟩ := similar.assemble (held r (by simp [holding])) b sent
    exact ⟨same,next.mono (by simp [givenReq]) (by simp [givenBlock])⟩
  · next r sent values =>
    exact ⟨rfl,(similar.accept (held r (by simp [holding])) sent).mono (by simp [givenReq]) (by simp [givenBlock])⟩
  · exact ⟨rfl,similar.mono (by simp [givenReq]) (by simp [givenBlock])⟩
  · next pops looks blocks pushes =>
    refine ⟨rfl,similar.mono ?_ ?_⟩
    · unfold givenReq
      split
      · exact (looks _ _ rfl rfl).elim
      · simp
    · unfold givenBlock
      split
      · exact (blocks _ _ _ rfl rfl).elim
      · simp

theorem given_of_peek {sent : Sent} {r : Nat} {res : Res Nat}
    (begun : (resumeMain (.peekReq sent) res x).1 = .peekBuf r sent) : r ∈ givenReq (.peekReq sent) res := by
  unfold resumeMain at begun
  split at begun <;> simp_all [givenReq]

theorem resumeIo_state (pc : IoPc) (res : Res Nat) (x : State) :
    resumeIo pc res x = ((resumeIo pc res x').1, x) := by
  unfold resumeIo
  split <;> rfl

/-- After a look that succeeds its ring is in use; all others were before. -/
theorem cached_resume {pc : MainPc} {q q' : QueueName} {op : Op Nat} {res : Res Nat}
    (asked : request .main pc = some (q, op)) (inside : q' ∈ cached (resumeMain pc res x).1) :
    q' ∈ cached pc ∨ q' = q ∧ op = .peek ∧ ∃ value, res = .success [value] := by
  unfold resumeMain at inside
  split at inside
  · next r =>
    simp only [request,Option.some.injEq,Prod.mk.injEq] at asked
    obtain ⟨rfl,rfl⟩ := asked
    exact .inr ⟨by simpa [cached] using inside,rfl,r,rfl⟩
  · next r sent b =>
    simp only [request,Option.some.injEq,Prod.mk.injEq] at asked
    obtain ⟨rfl,rfl⟩ := asked
    rcases (assemble_effect r b sent x).2.2.2 with next | next
    · simp [next,cached] at inside
    · simp only [next,cached,List.mem_cons,List.not_mem_nil,or_false] at inside
      rcases inside with rfl | rfl
      · exact .inl (by simp [cached])
      · exact .inr ⟨rfl,rfl,b,rfl⟩
  · exact .inl inside
  · have first : q' = .reqsFree := by simpa [cached] using inside
    exact .inl (by simp [cached,first])
  · simp [cached] at inside

theorem onPrep_similar (similar : Similar R B x x') {r : Nat} (held : ¬ R r) (seen : ¬ B (x.reqs r).base.1)
    (verdict : Verdict) :
    (onPrep r verdict x = none ∧ onPrep r verdict x' = none) ∨
      ∃ pc y y', onPrep r verdict x = some (pc, y) ∧ onPrep r verdict x' = some (pc, y') ∧ Similar R B y y' := by
  have field : (x'.reqs r).buffer = (x.reqs r).buffer := by rw [similar.sameReq r held]
  unfold onPrep
  split
  · rw [field]
    cases (x.reqs r).buffer with
    | none => exact .inl ⟨rfl,rfl⟩
    | some b => exact .inr ⟨_,_,_,rfl,rfl,similar⟩
  · next handle =>
    have logged := similar.log held seen handle
    refine .inr ⟨_,_,_,rfl,rfl,?_⟩
    exact ⟨logged.sameReq,logged.dropped,logged.sameBlock,logged.reset,by simp [similar.inFlight],logged.sends,
      logged.writes⟩
  · next handle =>
    rw [field]
    cases (x.reqs r).buffer with
    | none => exact .inl ⟨rfl,rfl⟩
    | some b =>
      refine .inr ⟨_,_,_,rfl,rfl,?_⟩
      exact ((similar.log held seen handle).dropBuffer r).mono (fun _ inside => inside.1) fun _ inside => inside

theorem onSend_similar (similar : Similar R B x x') {r : Nat} (held : ¬ R r) :
    (onSend r (x.written r) = none ∧ onSend r (x'.written r) = none) ∨
      ∃ pc y y', onSend r (x.written r) = some (pc, y) ∧ onSend r (x'.written r) = some (pc, y') ∧
        Similar R B y y' := by
  have field : ((x'.written r).reqs r).buffer = ((x.written r).reqs r).buffer :=
    congrArg WriteReq.buffer (similar.sameReq r held)
  unfold onSend
  rw [field]
  cases ((x.written r).reqs r).buffer with
  | none => exact .inl ⟨rfl,rfl⟩
  | some b =>
    have landed : x'.inFlight.erase r = x.inFlight.erase r := congrArg (List.erase · r) similar.inFlight
    have dropped := (similar.dropBuffer r).mono (fun _ inside => inside.1) fun _ inside => inside
    refine .inr ⟨_,_,_,rfl,rfl,?_⟩
    exact ⟨dropped.sameReq,dropped.dropped,dropped.sameBlock,dropped.reset,landed,dropped.sends,dropped.writes⟩

theorem act_similar {v : View} (similar : Similar (Unread v) (Unseen v) v.s x') {pcs : (t : Thread) → Pc t}
    (io : v.io = pcs .io) (b : Act) :
    (act b (pcs (actor b)) v.s = none ∧ act b (pcs (actor b)) x' = none) ∨
      ∃ pc y y', act b (pcs (actor b)) v.s = some (pc, y) ∧ act b (pcs (actor b)) x' = some (pc, y') ∧
        Similar (Unread v) (Unseen v) y y' := by
  cases b with
  | send sent =>
    cases pc : pcs .main with
    | idle =>
      simp only [act]
      split
      · exact .inl ⟨rfl,rfl⟩
      · exact .inr ⟨_,_,_,rfl,rfl,similar⟩
    | _ => exact .inl ⟨by simp only [act],by simp only [act]⟩
  | prep =>
    cases pc : pcs .io with
    | idle =>
      simp only [act]
      exact .inr ⟨_,_,_,rfl,rfl,similar⟩
    | _ => exact .inl ⟨by simp only [act],by simp only [act]⟩
  | submit verdict =>
    cases pc : pcs .io with
    | prepTest r =>
      simp only [act]
      refine onPrep_similar similar ?_ ?_ verdict
      · rintro ⟨-,-,hand,-⟩
        simp [io,pc,handReqs] at hand
      · intro unseen
        exact unseen r (by simp [io,pc,testing]) rfl
    | _ => exact .inl ⟨by simp only [act],by simp only [act]⟩
  | sent r =>
    cases pc : pcs .io with
    | idle =>
      simp only [act,similar.inFlight]
      split
      · next flying => exact onSend_similar similar fun unread => unread.2.1 flying
      · exact .inl ⟨rfl,rfl⟩
    | _ => exact .inl ⟨by simp only [act],by simp only [act]⟩

end Steps

section Lockstep

variable {cfg : Config} {a a' : Abstract} {s s' : Running}

abbrev Represented (cfg : Config) : Running → Abstract → Prop :=
  Related (simulation (fun _ => cfg.bits) (fun _ => cfg.small)) machine (fun _ => True)

/-- What one step does in two states that are alike. -/
def InStep (cfg : Config) (a : Abstract) (next next' : Option Running) : Prop :=
  (next = none ∧ next' = none) ∨
    ∃ t t' a', next = some t ∧ next' = some t' ∧ Transition.Reachable (atomic cfg) Exact a a' ∧
      Represented cfg t a' ∧ Alike (view a') t t'

theorem main_exclusive (s : Running) (t : Thread) :
    Exclusive (simulation (fun _ => cfg.bits) (fun _ => cfg.small)) machine (fun _ => True) s t :=
  fun _ _ asked _ _ _ different asked' => .inr (request_apart different asked asked')

/-- What is different may go on to be different, but for what the step gave to a send. -/
theorem Similar.moved {x x' : State} {R B : Nat → Prop} (similar : Similar R B x x')
    (move : Move cfg (view a) (view a'))
    (reqs : ∀ r, R r → Unread (view a) r ∧ ∀ sent, (view a).main = .peekReq sent → (view a').main ≠ .peekBuf r sent)
    (blocks : ∀ b, B b → Unseen (view a) b ∧ ∀ r sent rest, (view a).main = .peekBuf r sent →
      (view a').main ≠ (view a).main → (view a).pool.items ≠ b :: rest) :
    Similar (Unread (view a')) (Unseen (view a')) x x' := by
  refine similar.mono ?_ ?_
  · intro r differs
    obtain ⟨unread,apart⟩ := reqs r differs
    refine (unread.move move).resolve_right ?_
    rintro ⟨sent,before,after⟩
    exact apart sent before after
  · intro b differs
    obtain ⟨unseen,apart⟩ := blocks b differs
    refine (unseen.move move).resolve_right ?_
    rintro ⟨r,sent,rest,before,after,items⟩
    exact apart r sent rest before after items

theorem act_main {pcs : (t : Thread) → Pc t} {b : Act} {x y : State} {pc : Pc (actor b)}
    (done : act b (pcs (actor b)) x = some (pc, y)) :
    Function.update pcs (actor b) pc .main = pcs .main ∨
      ∃ sent, pcs .main = .idle ∧ Function.update pcs (actor b) pc .main = .peekReq sent := by
  cases b with
  | send sent =>
    cases before : pcs .main with
    | idle =>
      simp only [act,before] at done
      split at done
      · contradiction
      · obtain ⟨rfl,-⟩ := Prod.mk.inj (Option.some.inj done)
        exact .inr ⟨sent,rfl,Function.update_self ..⟩
    | _ => simp [act,before] at done
  | prep => exact .inl (Function.update_of_ne (by simp) ..)
  | submit verdict => exact .inl (Function.update_of_ne (by simp) ..)
  | sent r => exact .inl (Function.update_of_ne (by simp) ..)

theorem Alike.acts (alike : Alike (view a) s s') (related : Represented cfg s a) (b : Act) :
    InStep cfg a (step s (.act b)) (step s' (.act b)) := by
  obtain ⟨pcs,loc,mem,caches,shared⟩ := alike
  have io : (view a).io = s.pcs .io := by rw [related.pcs]; rfl
  have main : (view a).main = s.pcs .main := by rw [related.pcs]; rfl
  rw [related.shared] at shared
  cases asked : machine.request (machine.actor b) (s.pcs (machine.actor b)) with
  | some call =>
    have asked' : machine.request (machine.actor b) (s'.pcs (machine.actor b)) = some call := by rw [pcs]; exact asked
    exact .inl ⟨by simp only [step,splitStep,asked],by simp only [step,splitStep,asked']⟩
  | none =>
    have asked' : machine.request (machine.actor b) (s'.pcs (machine.actor b)) = none := by rw [pcs]; exact asked
    rcases act_similar shared io b with ⟨refused,refused'⟩ | ⟨pc,y,y',done,done',similar⟩
    · have refused : machine.act b (s.pcs (machine.actor b)) s.shared = none := by
        rw [related.shared]
        exact refused
      have refused' : machine.act b (s'.pcs (machine.actor b)) s'.shared = none := by
        rw [pcs]
        exact refused'
      exact .inl ⟨by simp only [step,splitStep,asked,refused,Option.map_none],
        by simp only [step,splitStep,asked',refused',Option.map_none]⟩
    · have did : machine.act b (s.pcs (machine.actor b)) s.shared = some (pc, y) := by
        rw [related.shared]
        exact done
      have did' : machine.act b (s'.pcs (machine.actor b)) s'.shared = some (pc, y') := by
        rw [pcs]
        exact done'
      have taken : step s (.act b) = some { s with pcs := Function.update s.pcs (actor b) pc, shared := y } := by
        simp only [step,splitStep,asked,did]
        rfl
      have taken' : step s' (.act b) = some { s' with pcs := Function.update s'.pcs (actor b) pc, shared := y' } := by
        simp only [step,splitStep,asked',did']
        rfl
      obtain ⟨a',atom,related'⟩ := act_simulated related taken
      have exact' : Exact a (.act b) := trivial
      have move : Move cfg (view a) (view a') := step_move exact' atom
      have after : (view a').main = Function.update s.pcs (actor b) pc .main :=
        congrFun related'.pcs.symm Thread.main
      have moved := act_main done
      refine .inr ⟨_,_,a',taken,taken',.step .start exact' atom,related',?_⟩
      refine ⟨by simp only [pcs],loc,mem,?_,similar.moved move ?_ ?_⟩
      · intro q inside
        rw [after] at inside
        rcases moved with same | ⟨sent,-,begun⟩
        · rw [same,← main] at inside
          exact caches q inside
        · rw [begun] at inside
          exact absurd inside List.not_mem_nil
      · intro r unread
        refine ⟨unread,fun sent before now => ?_⟩
        rw [main] at before
        rw [after] at now
        rcases moved with same | ⟨sent,-,begun⟩
        · rw [same,before] at now
          cases now
        · rw [begun] at now
          cases now
      · intro block unseen
        refine ⟨unseen,fun r sent rest before differs _ => ?_⟩
        rw [main] at before differs
        rw [after] at differs
        rcases moved with same | ⟨sent,idle',-⟩
        · exact differs same
        · rw [idle'] at before
          cases before

theorem cached_pop {pcs : (t : Thread) → Pc t} {t : Thread} {q : QueueName}
    (asked : request t (pcs t) = some (q, .popCached)) : q ∈ cached (pcs .main) := by
  cases t with
  | main =>
    cases pc : pcs .main <;> simp only [pc,request,reduceCtorEq,Option.some.injEq,Prod.mk.injEq,and_false,
      and_true] at asked <;> subst asked <;> simp [cached]
  | io => cases pc : pcs .io <;> simp [pc,request] at asked

/-- The calls of both threads on a ring are in step; a cached pop finds the same index. -/
theorem Alike.ring (alike : Alike (view a) s s') (related : Represented cfg s a) {t : Thread} {q : QueueName}
    {op : Op Nat} (asked : machine.request t (s.pcs t) = some (q, op)) {mem mem' : Queue Nat}
    {progress progress' : Progress (Loc Nat) (Res Nat)} (ticked : tick op (s.loc t) (s.mem q) = (mem, progress))
    (ticked' : tick op (s.loc t) (s'.mem q) = (mem', progress')) :
    progress' = progress ∧ (∀ q', Recached (Function.update s.mem q mem q') (Function.update s'.mem q mem' q')) ∧
      (∀ q' ∈ cached (view a).main, Function.update s'.mem q mem' q' = Function.update s.mem q mem q') ∧
      (∀ value, op = .peek → progress = .returned (.success [value]) → mem' = mem) := by
  have same (equal : s'.mem q = s.mem q) : mem' = mem := by
    rw [equal,ticked] at ticked'
    exact (Prod.mk.inj ticked').1.symm
  have others (q' : QueueName) (inside : q' ∈ cached (view a).main) :
      Function.update s'.mem q mem' q' = Function.update s.mem q mem q' := by
    by_cases here : q' = q
    · subst here
      simpa using same (alike.caches q' inside)
    · simpa [Function.update_of_ne here] using alike.caches q' inside
  have rings (recached : Recached mem mem') (q' : QueueName) :
      Recached (Function.update s.mem q mem q') (Function.update s'.mem q mem' q') := by
    by_cases here : q' = q
    · subst here
      simpa using recached
    · simpa [Function.update_of_ne here] using alike.mem q'
  by_cases pops : op = .popCached
  · subst pops
    have equal : s'.mem q = s.mem q := by
      refine alike.caches q ?_
      rw [show (view a).main = s.pcs .main from congrFun related.pcs.symm Thread.main]
      exact cached_pop asked
    have equal' := same equal
    rw [equal,ticked] at ticked'
    exact ⟨(Prod.mk.inj ticked').2.symm,rings ⟨_,equal'⟩,others,fun _ _ _ => equal'⟩
  · have steps := tick_recached pops (s.loc t) (alike.mem q)
    rw [ticked,ticked'] at steps
    exact ⟨steps.1,rings steps.2.1,others,steps.2.2⟩

/-- The state after a call on a queue has returned. -/
def Running.returned (s : Running) (t : Thread) (res : Res Nat) (mem : QueueName → Queue Nat) : Running where
  pcs := Function.update s.pcs t (machine.resume t (s.pcs t) res s.shared).1
  shared := (machine.resume t (s.pcs t) res s.shared).2
  mem := mem
  loc := Function.update s.loc t .entry

def Abstract.returned (a : Abstract) (t : Thread) (res : Res Nat) (abs : QueueName → Fifo Nat) : Abstract where
  pcs := Function.update a.pcs t (machine.resume t (a.pcs t) res a.shared).1
  shared := (machine.resume t (a.pcs t) res a.shared).2
  abs := abs

theorem Alike.io_returned (alike : Alike (view a) s s') {res : Res Nat}
    {abs : QueueName → Fifo Nat} {mem mem' : QueueName → Queue Nat}
    (rings : ∀ q, Recached (mem q) (mem' q)) (caches : ∀ q ∈ cached (view a).main, mem' q = mem q)
    (move : Move cfg (view a) (view (Abstract.returned a .io res abs))) :
    Alike (view (Abstract.returned a .io res abs)) (Running.returned s .io res mem)
      (Running.returned s' .io res mem') := by
  have main : (view (Abstract.returned a .io res abs)).main = (view a).main := rfl
  have next (x : Running) (y : State) : (machine.resume .io (x.pcs .io) res x.shared) =
      ((machine.resume .io (x.pcs .io) res y).1, x.shared) := resumeIo_state ..
  refine ⟨?_,by simp only [Running.returned,alike.loc],rings,caches,?_⟩
  · simp only [Running.returned,alike.pcs]
    rw [next s s'.shared]
  · have similar : Similar (Unread (view a)) (Unseen (view a)) (Running.returned s .io res mem).shared
        (Running.returned s' .io res mem').shared := by
      simp only [Running.returned]
      rw [next s s.shared,next s' s'.shared]
      exact alike.shared
    refine similar.moved move ?_ ?_
    · intro r unread
      refine ⟨unread,fun sent before now => ?_⟩
      rw [main,before] at now
      cases now
    · intro b unseen
      exact ⟨unseen,fun _ _ _ _ differs _ => differs main⟩

theorem Alike.main_returned (alike : Alike (view a) s s') (related : Represented cfg s a) {q : QueueName} {op : Op Nat}
    {res : Res Nat} {choice : Nat} {abs : Fifo Nat} {mem mem' : Queue Nat}
    (asked : machine.request .main (s.pcs .main) = some (q, op))
    (specified : spec (fun _ => cfg.bits) q op (a.abs q) choice = some (abs, res))
    (rings : ∀ q', Recached (Function.update s.mem q mem q') (Function.update s'.mem q mem' q'))
    (caches : ∀ q' ∈ cached (view a).main, Function.update s'.mem q mem' q' = Function.update s.mem q mem q')
    (looks : ∀ value, op = .peek → Progress.returned res = (.returned (.success [value]) : Progress (Loc Nat) (Res Nat)) →
      mem' = mem)
    (move : Move cfg (view a) (view (Abstract.returned a .main res (Function.update a.abs q abs)))) :
    Alike (view (Abstract.returned a .main res (Function.update a.abs q abs)))
      (Running.returned s .main res (Function.update s.mem q mem))
      (Running.returned s' .main res (Function.update s'.mem q mem')) := by
  have here : (view a).main = s.pcs .main := congrFun related.pcs.symm Thread.main
  have held (r : Nat) (inside : r ∈ holding (s.pcs .main)) : ¬ Unread (view a) r := by
    rintro ⟨-,-,-,free⟩
    rw [here] at free
    exact free inside
  obtain ⟨same,similar⟩ := resumeMain_similar alike.shared held res
  have now : (view (Abstract.returned a .main res (Function.update a.abs q abs))).main =
      (resumeMain (s.pcs .main) res s.shared).1 := by
    rw [related.pcs,related.shared]
    rfl
  refine ⟨?_,by simp only [Running.returned,alike.loc],rings,?_,?_⟩
  · simp only [Running.returned,alike.pcs]
    exact congrArg _ same
  · intro q' inside
    rw [now] at inside
    rcases cached_resume asked inside with old | ⟨rfl,look,value,success⟩
    · rw [← here] at old
      exact caches q' old
    · simpa [Running.returned] using looks value look (by rw [success])
  · have shared : (Running.returned s' .main res (Function.update s'.mem q mem')).shared =
        (resumeMain (s.pcs .main) res s'.shared).2 := by
      simp only [Running.returned,alike.pcs]
      rfl
    rw [shared]
    refine similar.moved move ?_ ?_
    · rintro r ⟨unread,kept⟩
      refine ⟨unread,fun sent before begun => kept ?_⟩
      rw [here] at before
      rw [now,before] at begun
      rw [before]
      exact given_of_peek begun
    · rintro b ⟨unseen,kept⟩
      refine ⟨unseen,fun r sent rest before _ items => kept ?_⟩
      rw [here] at before
      rw [before] at asked ⊢
      simp only [machine,request,Option.some.injEq,Prod.mk.injEq] at asked
      obtain ⟨rfl,rfl⟩ := asked
      have items : (a.abs .poolWrite).items = b :: rest := items
      rcases Fifo.peek_cases specified with ⟨drained,-,-⟩ | ⟨b',rest',items',-,rfl⟩
      · rw [items] at drained
        cases drained
      · rw [items] at items'
        obtain ⟨rfl,-⟩ := List.cons.inj items'
        simp [givenBlock]

theorem Alike.ticks (alike : Alike (view a) s s') (related : Represented cfg s a)
    (harmless : Safe (simulation (fun _ => cfg.bits) (fun _ => cfg.small)) machine (fun _ => True) a) (t : Thread) :
    InStep cfg a (step s (.tick t)) (step s' (.tick t)) := by
  cases asked : machine.request t (s.pcs t) with
  | none =>
    have asked' : machine.request t (s'.pcs t) = none := by rw [alike.pcs]; exact asked
    exact .inl ⟨by simp only [step,splitStep,asked],by simp only [step,splitStep,asked']⟩
  | some call =>
  obtain ⟨q,op⟩ := call
  have asked' : machine.request t (s'.pcs t) = some (q, op) := by rw [alike.pcs]; exact asked
  cases ticked : tick op (s.loc t) (s.mem q) with
  | mk mem progress =>
  cases ticked' : tick op (s.loc t) (s'.mem q) with
  | mk mem' progress' =>
  obtain ⟨rfl,rings,caches,looks⟩ := alike.ring related asked ticked ticked'
  have ticks : (object QueueName Nat).tick q op (s.loc t) (s.mem q) = (mem, progress') := ticked
  have ticks' : (object QueueName Nat).tick q op (s'.loc t) (s'.mem q) = (mem', progress') := by
    rw [alike.loc]
    exact ticked'
  cases progress' with
  | running loc =>
    have taken : step s (.tick t) =
        some { s with mem := Function.update s.mem q mem, loc := Function.update s.loc t loc } := by
      simp only [step,splitStep,asked,ticks]
    have taken' : step s' (.tick t) =
        some { s' with mem := Function.update s'.mem q mem', loc := Function.update s'.loc t loc } := by
      simp only [step,splitStep,asked',ticks']
    refine .inr ⟨_,_,a,taken,taken',.start,
      running_simulated related harmless (main_exclusive s t) asked trivial ticks,?_⟩
    exact ⟨alike.pcs,by simp only [alike.loc],rings,caches,alike.shared⟩
  | returned res =>
    obtain ⟨choice,abs,specified,after⟩ :=
      returned_simulated related harmless (main_exclusive s t) asked trivial ticks
    have asked'' : machine.request t (a.pcs t) = some (q, op) := by rw [← related.pcs]; exact asked
    have atom : atomic cfg a (.op t choice) = some
        { pcs := Function.update a.pcs t (machine.resume t (a.pcs t) res a.shared).1
          shared := (machine.resume t (a.pcs t) res a.shared).2, abs := Function.update a.abs q abs } := by
      simp only [atomic,atomicStep,asked'',specified]
      rfl
    have exact' : Exact a (.op t choice) := trivial
    have move := step_move exact' atom
    have taken : step s (.tick t) = some
        { pcs := Function.update s.pcs t (machine.resume t (s.pcs t) res s.shared).1
          shared := (machine.resume t (s.pcs t) res s.shared).2
          mem := Function.update s.mem q mem, loc := Function.update s.loc t .entry } := by
      simp only [step,splitStep,asked,ticks]
      rfl
    have taken' : step s' (.tick t) = some
        { pcs := Function.update s'.pcs t (machine.resume t (s'.pcs t) res s'.shared).1
          shared := (machine.resume t (s'.pcs t) res s'.shared).2
          mem := Function.update s'.mem q mem', loc := Function.update s'.loc t .entry } := by
      simp only [step,splitStep,asked',ticks']
      rfl
    refine .inr ⟨_,_,_,taken,taken',.step .start exact' atom,after,?_⟩
    cases t with
    | main => exact alike.main_returned related asked specified rings caches looks move
    | io => exact alike.io_returned rings caches move

end Lockstep

/-- What can be seen of a state: where the threads are, what the queues hold, the requests in
flight, the successful sends and the calls of uv_write. -/
structure Observed where
  main : MainPc
  io : IoPc
  queues : QueueName → List Nat
  inFlight : List Nat
  sends : List Sent
  writes : List Write

def observe (s : Running) : Observed where
  main := s.pcs .main
  io := s.pcs .io
  queues := fun q => (s.mem q).contents
  inFlight := s.shared.inFlight
  sends := s.shared.sends
  writes := s.shared.writes

section Runs

variable {cfg : Config} {blocks : Nat → Nat → UInt8} {a : Abstract} {s s' : Running}

theorem Alike.observe (alike : Alike (view a) s s') : observe s' = observe s := by
  have queues (q : QueueName) : (s'.mem q).contents = (s.mem q).contents := by
    obtain ⟨cache,same⟩ := alike.mem q
    rw [same]
    rfl
  simp only [Send.observe,alike.pcs,queues,alike.shared.inFlight,alike.shared.sends,alike.shared.writes]

/-- Whatever the two threads do next, it looks the same from both states. -/
theorem Alike.runs (alike : Alike (view a) s s') (related : Represented cfg s a)
    (roomy : cfg.bufferCount < 2 ^ cfg.bits)
    (reached : Transition.Reachable (atomic cfg) Exact (atomicInitial cfg blocks) a)
    (later : List (SplitLabel Thread Act)) :
    (Transition.execute step later s').map Send.observe = (Transition.execute step later s).map Send.observe := by
  induction later generalizing a s s' with
  | nil =>
    simp only [Transition.execute,Option.map_some]
    rw [alike.observe]
  | cons label rest ih =>
    have lockstep : InStep cfg a (step s label) (step s' label) := by
      cases label with
      | act b => exact alike.acts related b
      | tick t => exact alike.ticks related (reachable_owned roomy reached).safe t
    simp only [Transition.execute]
    rcases lockstep with ⟨stuck,stuck'⟩ | ⟨t,t',a',taken,taken',moved,related',alike'⟩
    · rw [stuck,stuck']
    · rw [taken,taken']
      exact ih alike' related' (reached.trans moved)

end Runs

end Tcpeen.Send
