import Tcpeen.SendOwnership

/-! What is handed to uv_write: the calls of `tcp_service_send` in their order, each at most
once, with the bytes they were given. -/
namespace Tcpeen.Send

open SplitOperation QueueSpsc

/-- The request that `on_prep_cb` looks at. -/
def testing : IoPc → List Nat
  | .prepTest r => [r]
  | _ => []

/-- The request points to the bytes of a call, in its own buffer. -/
def Covers (s : State) (r : Nat) (sent : Sent) : Prop :=
  (s.reqs r).channel = sent.channel ∧ (s.reqs r).buffer = some (s.reqs r).base.1 ∧ s.covered r = sent.bytes

structure Carried (v : View) : Prop where
  assembled : ∀ r sent, v.main = .push r sent → Covers v.s r sent
  carries : ∀ r ∈ v.ready.items ++ v.s.inFlight ++ testing v.io,
    ∃ sent, v.s.sends[(v.s.reqs r).ticket]? = some sent ∧ Covers v.s r sent
  order : (v.s.writes.map (·.ticket) ++
    (testing v.io ++ v.ready.items).map fun r => (v.s.reqs r).ticket).Pairwise (· < ·)
  logged : ∀ w ∈ v.s.writes, ∃ sent, v.s.sends[w.ticket]? = some sent ∧
    sent.channel = w.channel ∧ sent.bytes = w.bytes
  flying : ∀ r ∈ v.s.inFlight, ∃ w ∈ v.s.writes, w.ticket = (v.s.reqs r).ticket ∧
    w.channel = (v.s.reqs r).channel ∧ w.bytes = v.s.covered r

section Step

variable {cfg : Config} {v v' : View}

/-- A step that leaves the requests on their way as they are. -/
theorem Carried.frame (carried : Carried v) {main : MainPc} {io : IoPc} {s : State} {pool free ready : Fifo Nat}
    (writes : s.writes = v.s.writes) (sends : s.sends = v.s.sends)
    (assembled : ∀ r sent, main = .push r sent → Covers s r sent)
    (kept : ∀ r ∈ ready.items ++ s.inFlight ++ testing io,
      r ∈ v.ready.items ++ v.s.inFlight ++ testing v.io ∧ s.reqs r = v.s.reqs r ∧ s.covered r = v.s.covered r)
    (flying : ∀ r ∈ s.inFlight, r ∈ v.s.inFlight)
    (order : (testing io ++ ready.items).Sublist (testing v.io ++ v.ready.items)) :
    Carried ⟨main,io,s,pool,free,ready⟩ := by
  refine ⟨assembled,?_,?_,?_,?_⟩
  · intro r member
    obtain ⟨member',same,bytes⟩ := kept r member
    obtain ⟨sent,found,covers⟩ := carried.carries r member'
    simp only [sends,same,Covers,bytes]
    exact ⟨sent,found,covers⟩
  · have same : (testing io ++ ready.items).map (fun r => (s.reqs r).ticket) =
        (testing io ++ ready.items).map fun r => (v.s.reqs r).ticket := by
      apply List.map_congr_left
      intro r member
      have member' : r ∈ ready.items ++ s.inFlight ++ testing io := by
        simp only [List.mem_append] at member ⊢
        tauto
      rw [(kept r member').2.1]
    simp only [writes,same]
    exact carried.order.sublist ((order.map _).append_left _)
  · simp only [writes,sends]
    exact carried.logged
  · intro r member
    obtain ⟨-,same,bytes⟩ := kept r (by simp only [List.mem_append]; tauto)
    obtain ⟨w,logged,told⟩ := carried.flying r (flying r member)
    simp only [writes,same,bytes]
    exact ⟨w,logged,told⟩

/-- A step that touches neither the requests nor the bytes. -/
theorem Carried.same (carried : Carried v) {main : MainPc} {io : IoPc} {pool free ready : Fifo Nat}
    (assembled : ∀ r sent, main ≠ .push r sent) (items : ready.items = v.ready.items)
    (place : testing io = testing v.io) : Carried ⟨main,io,v.s,pool,free,ready⟩ := by
  refine carried.frame rfl rfl (fun r sent pc => absurd pc (assembled r sent)) ?_ (fun _ member => member) ?_
  · intro r member
    rw [items,place] at member
    exact ⟨member,rfl,rfl⟩
  · rw [items,place]

/-- A step of the IO thread that touches neither the requests nor the bytes. -/
theorem Carried.io (carried : Carried v) {io : IoPc} {pool free ready : Fifo Nat}
    (place : testing io ++ ready.items = testing v.io ++ v.ready.items) :
    Carried ⟨v.main,io,v.s,pool,free,ready⟩ := by
  refine carried.frame rfl rfl carried.assembled ?_ (fun _ member => member) (by rw [place])
  intro r member
  have moved : r ∈ testing io ++ ready.items ↔ r ∈ testing v.io ++ v.ready.items := by rw [place]
  refine ⟨?_,rfl,rfl⟩
  simp only [List.mem_append] at member moved ⊢
  tauto

theorem testing_hand (io : IoPc) (r : Nat) (member : r ∈ testing io) : handReqs io = [r] := by
  cases io <;> simp_all [testing,handReqs]

/-- A request on its way is not free. -/
theorem Owned.apart (owned : Owned cfg v) {r x : Nat} (free : r ∈ freeReqs v)
    (member : x ∈ v.ready.items ++ v.s.inFlight ++ testing v.io) : x ≠ r := by
  rintro rfl
  obtain ⟨-,absent,hand⟩ := owned.free_only free
  rcases List.mem_append.mp member with member | member
  · exact absent member
  · rw [testing_hand v.io x member] at hand
    simp at hand

/-- Nor is its buffer. -/
theorem Owned.buffer_apart (owned : Owned cfg v) {b x : Nat} (free : b ∈ freeBuffers v)
    (member : x ∈ v.ready.items ++ v.s.inFlight ++ testing v.io) : (v.s.reqs x).buffer ≠ some b := by
  intro buffer
  have places := owned.buffers b
  have here := List.count_pos_iff.mpr free
  have has : v.s.has b x = true := by simp [State.has,buffer]
  have bound : (if b < cfg.bufferCount then 1 else 0) ≤ 1 := by split <;> omega
  rcases List.mem_append.mp member with member | member
  · have := List.countP_pos_iff.mpr ⟨x,member,has⟩
    omega
  · cases pc : v.io <;> simp only [pc,testing,List.not_mem_nil,List.mem_singleton] at member
    subst member
    rw [pc,handBuffers_test,if_pos has] at places
    omega

theorem covered_same {s s' : State} {r : Nat} (req : s'.reqs r = s.reqs r)
    (block : s'.buffers (s.reqs r).base.1 = s.buffers (s.reqs r).base.1) : s'.covered r = s.covered r := by
  simp only [State.covered,req,block]

theorem Carried.peekReq (carried : Carried v) (owned : Owned cfg v) {sent : Sent} {r : Nat} {rest : List Nat}
    (pc : v.main = .peekReq sent) (items : v.free.items = r :: rest) :
    Carried { v with main := .peekBuf r sent, s := v.s.dropBuffer r, free := ⟨r :: rest,true⟩ } := by
  have free : r ∈ freeReqs v := by simp [freeReqs,pc,items]
  refine carried.frame rfl rfl (by simp) ?_ (fun _ member => member) (List.Sublist.refl _)
  intro x member
  have req : (v.s.dropBuffer r).reqs x = v.s.reqs x := Function.update_of_ne (owned.apart free member) ..
  exact ⟨member,req,covered_same req rfl⟩

/-- A reset buffer that takes the bytes holds them from its start. -/
theorem write_reset {b written : Buffer} {bytes : List UInt8} (wrote : b.reset.write bytes = some written) :
    window written.buf.mem written.readPtr written.length = bytes := by
  obtain ⟨-,rfl⟩ := Buffer.write_cases wrote
  have held := window_store b.buf.mem 0 bytes
  simpa [Buffer.readPtr,Buffer.length,Buffer.reset,Buffer.writeReset,Buffer.readReset] using held

theorem assemble_kept (r b : Nat) (sent : Sent) (s : State) :
    (assemble r b sent s).2.writes = s.writes ∧ (assemble r b sent s).2.sends = s.sends ∧
      (∀ x, x ≠ r → (assemble r b sent s).2.reqs x = s.reqs x) ∧
      (∀ x, x ≠ b → (assemble r b sent s).2.buffers x = s.buffers x) := by
  unfold assemble
  simp only
  split <;> exact ⟨rfl,rfl,fun _ different => Function.update_of_ne different ..,
    fun _ different => Function.update_of_ne different ..⟩

theorem assemble_covers {r b : Nat} {sent : Sent} {s : State} {r' : Nat} {sent' : Sent}
    (next : (assemble r b sent s).1 = .push r' sent') : Covers (assemble r b sent s).2 r' sent' := by
  unfold assemble at next ⊢
  simp only at next ⊢
  split at next
  · cases next
  · next written wrote =>
    obtain ⟨rfl,rfl⟩ := MainPc.push.inj next
    refine ⟨?_,?_,?_⟩
    · simp [State.setReq,State.setBuffer]
    · simp [State.setReq,State.setBuffer]
    · simpa [State.covered,State.setReq,State.setBuffer] using write_reset wrote

/-- The bytes of a new call go to a buffer that no request on its way uses. -/
theorem Carried.peekBuf (carried : Carried v) (owned : Owned cfg v) {sent : Sent} {r b : Nat} {rest : List Nat}
    (pc : v.main = .peekBuf r sent) (items : v.pool.items = b :: rest) :
    Carried { v with main := (assemble r b sent v.s).1, s := (assemble r b sent v.s).2
                     pool := ⟨b :: rest,true⟩ } := by
  have free := owned.peekBuf_free pc
  have free' : b ∈ freeBuffers v := by simp [freeBuffers,pc,items]
  obtain ⟨flying,-,-,-⟩ := assemble_effect r b sent v.s
  obtain ⟨writes,sends,reqs,blocks⟩ := assemble_kept r b sent v.s
  refine carried.frame writes sends (fun _ _ next => assemble_covers next) ?_ ?_ (List.Sublist.refl _)
  · intro x member
    rw [flying] at member
    have req := reqs x (owned.apart free member)
    obtain ⟨sent',-,-,buffer,-⟩ := carried.carries x member
    have different : (v.s.reqs x).base.1 ≠ b := by
      rintro rfl
      exact owned.buffer_apart free' member buffer
    exact ⟨member,req,covered_same req (blocks _ different)⟩
  · intro x member
    rwa [flying] at member

theorem Carried.bounded (carried : Carried v) (t : Nat)
    (member : t ∈ v.s.writes.map (·.ticket) ++ (testing v.io ++ v.ready.items).map fun r => (v.s.reqs r).ticket) :
    t < v.s.sends.length := by
  rcases List.mem_append.mp member with member | member
  · obtain ⟨w,logged,rfl⟩ := List.mem_map.mp member
    obtain ⟨sent,found,-⟩ := carried.logged w logged
    exact (List.getElem?_eq_some_iff.mp found).1
  · obtain ⟨r,waiting,rfl⟩ := List.mem_map.mp member
    obtain ⟨sent,found,-⟩ := carried.carries r (by simp only [List.mem_append] at waiting ⊢; tauto)
    exact (List.getElem?_eq_some_iff.mp found).1

/-- A call that succeeds gets the next ticket. -/
theorem Carried.push (carried : Carried v) (owned : Owned cfg v) {sent : Sent} {r : Nat}
    (pc : v.main = .push r sent) :
    Carried { v with main := .popBuf, s := v.s.accept r sent
                     ready := { v.ready with items := v.ready.items ++ [r] } } := by
  have free := owned.push_free pc
  have reqs (x : Nat) (member : x ∈ v.ready.items ++ v.s.inFlight ++ testing v.io) :
      (v.s.accept r sent).reqs x = v.s.reqs x := Function.update_of_ne (owned.apart free member) ..
  have ticket : ((v.s.accept r sent).reqs r).ticket = v.s.sends.length := by simp [State.accept,State.setReq]
  have older {t : Nat} {sent' : Sent} (found : v.s.sends[t]? = some sent') :
      (v.s.sends ++ [sent])[t]? = some sent' := by
    rw [List.getElem?_append_left (List.getElem?_eq_some_iff.mp found).1]
    exact found
  refine ⟨by simp,?_,?_,?_,?_⟩
  · intro x member
    by_cases same : x = r
    · subst same
      refine ⟨sent,?_,?_⟩
      · change (v.s.sends ++ [sent])[((v.s.accept x sent).reqs x).ticket]? = some sent
        rw [ticket]
        exact List.getElem?_concat_length
      · have covers := carried.assembled x sent pc
        simpa [Covers,State.covered,State.accept,State.setReq] using covers
    · have member' : x ∈ v.ready.items ++ v.s.inFlight ++ testing v.io := by
        simp only [List.mem_append,List.mem_singleton] at member ⊢
        tauto
      obtain ⟨sent',found,covers⟩ := carried.carries x member'
      have req := reqs x member'
      refine ⟨sent',?_,?_⟩
      · simp only [req]
        exact older found
      · simp only [Covers,req,covered_same req rfl]
        exact covers
  · have tickets : (testing v.io ++ v.ready.items).map (fun x => ((v.s.accept r sent).reqs x).ticket) =
        (testing v.io ++ v.ready.items).map fun x => (v.s.reqs x).ticket := by
      apply List.map_congr_left
      intro x member
      rw [reqs x (by simp only [List.mem_append] at member ⊢; tauto)]
    change (v.s.writes.map (·.ticket) ++ (testing v.io ++ (v.ready.items ++ [r])).map
      fun x => ((v.s.accept r sent).reqs x).ticket).Pairwise (· < ·)
    rw [← List.append_assoc,List.map_append,tickets,← List.append_assoc,List.map_singleton,ticket,
      List.pairwise_append]
    refine ⟨carried.order,List.pairwise_singleton ..,?_⟩
    intro t member t' member'
    rw [List.mem_singleton.mp member']
    exact carried.bounded t member
  · intro w logged
    obtain ⟨sent',found,told⟩ := carried.logged w logged
    exact ⟨sent',older found,told⟩
  · intro x member
    obtain ⟨w,logged,told⟩ := carried.flying x member
    have req := reqs x (by simp only [List.mem_append]; tauto)
    simp only [req,covered_same req rfl]
    exact ⟨w,logged,told⟩

/-- A call of uv_write is the next of the calls that are on their way. -/
theorem Carried.write (carried : Carried v) {r handle : Nat} (pc : v.io = .prepTest r) {io : IoPc} {s : State}
    (place : testing io = [])
    (writes : s.writes = v.s.writes ++ [⟨(v.s.reqs r).ticket,(v.s.reqs r).channel,handle,v.s.covered r⟩])
    (sends : s.sends = v.s.sends) (buffers : s.buffers = v.s.buffers)
    (kept : ∀ x ∈ v.ready.items ++ s.inFlight, s.reqs x = v.s.reqs x)
    (flying : ∀ x ∈ s.inFlight, x ∈ v.s.inFlight ∨ x = r)
    (assembled : ∀ r' sent, v.main = .push r' sent → Covers s r' sent) : Carried { v with io := io, s := s } := by
  have own := carried.carries r (by simp [pc,testing])
  have covered (x : Nat) (member : x ∈ v.ready.items ++ s.inFlight) : s.covered x = v.s.covered x :=
    covered_same (kept x member) (by rw [buffers])
  refine ⟨assembled,?_,?_,?_,?_⟩
  · intro x member
    simp only [place,List.append_nil] at member
    have old : x ∈ v.ready.items ++ v.s.inFlight ++ testing v.io := by
      simp only [pc,testing,List.mem_append,List.mem_singleton] at member ⊢
      rcases member with member | member
      · exact .inl (.inl member)
      · rcases flying x member with member | same
        · exact .inl (.inr member)
        · exact .inr same
    obtain ⟨sent,found,covers⟩ := carried.carries x old
    simp only [sends,Covers,kept x member,covered x member]
    exact ⟨sent,found,covers⟩
  · have order := carried.order
    have tickets : v.ready.items.map (fun x => (s.reqs x).ticket) =
        v.ready.items.map fun x => (v.s.reqs x).ticket := by
      apply List.map_congr_left
      intro x member
      rw [kept x (List.mem_append_left _ member)]
    rw [pc] at order
    simp only [testing] at order
    simp only [place,writes,List.nil_append,tickets]
    simpa using order
  · intro w logged
    simp only [writes,List.mem_append,List.mem_singleton] at logged
    rcases logged with logged | rfl
    · simp only [sends]
      exact carried.logged w logged
    · obtain ⟨sent,found,channel,-,bytes⟩ := own
      simp only [sends]
      exact ⟨sent,found,channel.symm,bytes.symm⟩
  · intro x member
    have member' : x ∈ v.ready.items ++ s.inFlight := List.mem_append_right _ member
    simp only [writes,kept x member',covered x member']
    rcases flying x member with old | rfl
    · obtain ⟨w,logged,told⟩ := carried.flying x old
      exact ⟨w,List.mem_append_left _ logged,told⟩
    · exact ⟨_,List.mem_append_right _ (List.mem_singleton_self _),rfl,rfl,rfl⟩

/-- The main thread fills another request than the one in the hand of a callback. -/
theorem Carried.covers_apart (carried : Carried v) (owned : Owned cfg v) {r : Nat} (absent : r ∉ freeReqs v)
    {s : State} (reqs : ∀ x, x ≠ r → s.reqs x = v.s.reqs x) (buffers : s.buffers = v.s.buffers) (r' : Nat)
    (sent : Sent) (pc : v.main = .push r' sent) : Covers s r' sent := by
  have different : r' ≠ r := by
    rintro rfl
    exact absent (owned.push_free pc)
  have req := reqs r' different
  have covers := carried.assembled r' sent pc
  simp only [Covers,req,covered_same req (show s.buffers _ = v.s.buffers _ by rw [buffers])]
  exact covers

theorem Carried.submit (carried : Carried v) (owned : Owned cfg v) {r : Nat} {verdict : Verdict}
    {x : IoPc × State} (pc : v.io = .prepTest r) (ran : onPrep r verdict v.s = some x) :
    Carried { v with io := x.1, s := x.2 } := by
  obtain ⟨absent,notFree⟩ := owned.hand_only (show handReqs v.io = [r] by rw [pc]; rfl)
  unfold onPrep at ran
  split at ran
  · obtain ⟨b,buffer,rfl⟩ := Option.map_eq_some_iff.mp ran
    refine carried.frame rfl rfl carried.assembled ?_ (fun _ member => member) ?_
    · intro y member
      refine ⟨?_,rfl,rfl⟩
      simp only [testing,List.append_nil] at member
      exact List.mem_append_left _ member
    · exact List.sublist_append_right ..
  · next handle =>
    obtain rfl := Option.some.inj ran
    refine carried.write pc rfl rfl rfl rfl (fun _ _ => rfl) ?_ carried.assembled
    intro y member
    simpa using List.mem_append.mp member
  · next handle =>
    obtain ⟨b,buffer,rfl⟩ := Option.map_eq_some_iff.mp ran
    have reqs (y : Nat) (different : y ≠ r) : ((v.s.log r handle).dropBuffer r).reqs y = v.s.reqs y :=
      Function.update_of_ne different ..
    refine carried.write pc rfl rfl rfl rfl ?_ (fun _ member => .inl member)
      (carried.covers_apart owned notFree reqs rfl)
    intro y member
    apply reqs
    rintro rfl
    exact absent member

theorem Carried.sent (carried : Carried v) (owned : Owned cfg v) {r : Nat} {x : IoPc × State}
    (pc : v.io = .idle) (flying : r ∈ v.s.inFlight) (ran : onSend r (v.s.written r) = some x) :
    Carried { v with io := x.1, s := x.2 } := by
  obtain ⟨b,buffer,rfl⟩ := Option.map_eq_some_iff.mp ran
  obtain ⟨absent,notFree⟩ := owned.flying_only flying
  have reqs (y : Nat) (different : y ≠ r) : (v.s.dropBuffer r).reqs y = v.s.reqs y :=
    Function.update_of_ne different ..
  refine carried.frame rfl rfl (carried.covers_apart owned notFree reqs rfl) ?_
    (fun _ member => List.mem_of_mem_erase member) ?_
  · intro y member
    simp only [testing,List.append_nil] at member
    have req := reqs y (by rintro rfl; exact absent member)
    refine ⟨?_,req,covered_same req rfl⟩
    apply List.mem_append_left
    rw [List.mem_append] at member ⊢
    exact member.imp_right List.mem_of_mem_erase
  · rw [pc]
    exact List.Sublist.refl _

theorem Carried.move (carried : Carried v) (owned : Owned cfg v) (move : Move cfg v v') : Carried v' := by
  cases move with
  | send pc some' => exact carried.same (by simp) rfl rfl
  | noReq pc none' => exact carried.same (by simp) rfl rfl
  | peekReq pc items => exact carried.peekReq owned pc items
  | noBuf pc none' => exact carried.same (by simp) rfl rfl
  | peekBuf pc items => exact carried.peekBuf owned pc items
  | push pc room => exact carried.push owned pc
  | pushFull pc full => exact carried.same (by simp) rfl rfl
  | popBuf pc => exact carried.same (by simp) rfl rfl
  | popReq pc => exact carried.same (by simp) rfl rfl
  | prep pc => exact carried.io (by rw [pc]; rfl)
  | prepNone pc none' => exact carried.io (by rw [pc]; rfl)
  | prepPop pc items => exact carried.io (by rw [pc,items]; rfl)
  | submit pc ran => exact carried.submit owned pc ran
  | sent pc flying ran => exact carried.sent owned pc flying ran
  | poolPush next pushed =>
    refine carried.io ?_
    cases pc : v.io <;> simp only [returned,pc,reduceCtorEq,Option.some.injEq,Prod.mk.injEq] at next <;>
      obtain ⟨rfl,rfl⟩ := next <;> rfl
  | freePush next pushed =>
    refine carried.io ?_
    cases pc : v.io <;> simp only [recycled,pc,reduceCtorEq,Option.some.injEq,Prod.mk.injEq] at next <;>
      obtain ⟨rfl,rfl⟩ := next <;> rfl

theorem dropBuffer_ticket (s : State) (r x : Nat) : ((s.dropBuffer r).reqs x).ticket = (s.reqs x).ticket := by
  simp only [State.dropBuffer,State.setReq,Function.update_apply]
  split
  · next same => rw [same]
  · rfl

theorem onPrep_kept {r : Nat} {verdict : Verdict} {s : State} {x : IoPc × State}
    (ran : onPrep r verdict s = some x) :
    x.2.sends = s.sends ∧ x.2.buffers = s.buffers ∧ (∀ y, (x.2.reqs y).ticket = (s.reqs y).ticket) ∧
      testing x.1 = [] := by
  unfold onPrep at ran
  split at ran
  · obtain ⟨b,-,rfl⟩ := Option.map_eq_some_iff.mp ran
    exact ⟨rfl,rfl,fun _ => rfl,rfl⟩
  · obtain rfl := Option.some.inj ran
    exact ⟨rfl,rfl,fun _ => rfl,rfl⟩
  · obtain ⟨b,-,rfl⟩ := Option.map_eq_some_iff.mp ran
    exact ⟨rfl,rfl,dropBuffer_ticket _ r,rfl⟩

theorem assemble_capacity (r b : Nat) (sent : Sent) (s : State) (x : Nat) :
    ((assemble r b sent s).2.buffers x).buf.capacity = (s.buffers x).buf.capacity := by
  unfold assemble
  simp only
  split
  · simp only [State.setBuffer,State.setReq,Function.update_apply]
    split
    · next same => rw [same]; rfl
    · rfl
  · next written wrote =>
    obtain ⟨-,rfl⟩ := Buffer.write_cases wrote
    simp only [State.setBuffer,State.setReq,Function.update_apply]
    split
    · next same => rw [same]; rfl
    · rfl

/-- Every block of the pool has the size it was set up with. -/
def Sized (cfg : Config) (v : View) : Prop := ∀ b, (v.s.buffers b).buf.capacity = cfg.maxRead

theorem Sized.move (sized : Sized cfg v) (move : Move cfg v v') : Sized cfg v' := by
  cases move with
  | peekBuf pc items =>
    intro x
    rw [assemble_capacity]
    exact sized x
  | submit pc ran =>
    intro x
    simp only [(onPrep_kept ran).2.1]
    exact sized x
  | sent pc flying ran =>
    obtain ⟨b,-,rfl⟩ := Option.map_eq_some_iff.mp ran
    exact sized
  | _ => exact sized

end Step

theorem initial_carried (cfg : Config) (blocks : Nat → Nat → UInt8) :
    Carried (view (atomicInitial cfg blocks)) := by
  refine ⟨?_,?_,?_,?_,?_⟩
  · intro r sent assembled
    cases assembled
  · intro r member
    simp [view,atomicInitial,start,idle,testing,filled,filledCount] at member
  · simp [view,atomicInitial,start,idle,testing,filled,filledCount]
  · intro w logged
    simp [view,atomicInitial,start] at logged
  · intro r member
    simp [view,atomicInitial,start] at member

theorem reachable_carried {cfg : Config} {blocks : Nat → Nat → UInt8} {a : Abstract}
    (roomy : cfg.bufferCount < 2 ^ cfg.bits)
    (reach : Transition.Reachable (atomic cfg) Exact (atomicInitial cfg blocks) a) : Carried (view a) :=
  reach.invariant_with (fun a => Owned cfg (view a)) (fun a => Carried (view a))
    (fun _ reached => reachable_owned roomy reached) (initial_carried cfg blocks)
    fun _ _ _ owned carried exact' taken => carried.move owned (step_move exact' taken)

theorem reachable_sized {cfg : Config} {blocks : Nat → Nat → UInt8} {a : Abstract}
    (reach : Transition.Reachable (atomic cfg) Exact (atomicInitial cfg blocks) a) : Sized cfg (view a) :=
  reach.invariant (fun a => Sized cfg (view a)) (fun _ => rfl)
    fun _ _ _ sized exact' taken => sized.move (step_move exact' taken)

/-- On every channel the calls of uv_write are some of the successful sends for it, in call
order and none twice, with their bytes; and the bytes of a request in flight are still
those of its send. -/
def InOrder (s : State) : Prop :=
  (∀ c, ((s.writes.filter fun w => w.channel == c).map (·.bytes)).Sublist
    ((s.sends.filter fun sent => sent.channel == c).map (·.bytes))) ∧
  (s.writes.map (·.ticket)).Pairwise (· < ·) ∧
  (∀ w ∈ s.writes, ∃ sent, s.sends[w.ticket]? = some sent ∧ sent.channel = w.channel ∧ sent.bytes = w.bytes) ∧
  ∀ r ∈ s.inFlight, ∃ w ∈ s.writes, w.ticket = (s.reqs r).ticket ∧ w.channel = (s.reqs r).channel ∧
    s.covered r = w.bytes

theorem Carried.inOrder {v : View} (carried : Carried v) : InOrder v.s := by
  have increasing := (List.pairwise_append.mp carried.order).1
  refine ⟨?_,increasing,carried.logged,?_⟩
  · intro c
    have picked := Counting.sublist_of_positions (v.s.sends.map fun sent => (sent.channel,sent.bytes))
      (fun w : Write => w.ticket) (fun w => (w.channel,w.bytes)) increasing (by
        intro w logged
        obtain ⟨sent,found,channel,bytes⟩ := carried.logged w logged
        simp [found,channel,bytes])
    have filtered := (picked.filter fun p => p.1 == c).map Prod.snd
    simpa only [List.filter_map,List.map_map,Function.comp_def] using filtered
  · intro r member
    obtain ⟨w,logged,ticket,channel,bytes⟩ := carried.flying r member
    exact ⟨w,logged,ticket,channel,bytes.symm⟩

theorem sends_in_order (mem : QueueName → Queue Nat) (ready : SetUp serviceConfig mem)
    (blocks : Nat → Nat → UInt8) (s : Running)
    (reach : Transition.Reachable step (fun _ _ => True) (initial serviceConfig blocks mem) s) :
    InOrder s.shared := by
  have roomy : serviceConfig.bufferCount < 2 ^ serviceConfig.bits := by decide
  obtain ⟨a,reached,related⟩ := reachable_related roomy ready reach
  rw [related.shared]
  exact (reachable_carried roomy reached).inOrder

/-- Two sends, of which the first is written and still in flight. -/
def inFlightRun : List (SplitLabel Thread Act) :=
  .act (.send ⟨7,[1,2,3],none⟩) :: List.replicate 12 (.tick .main) ++ .act .prep ::
    List.replicate 4 (.tick .io) ++ .act (.submit (.uvWrite 5 true)) ::
    .act (.send ⟨7,[4],none⟩) :: List.replicate 12 (.tick .main)

theorem sends_in_order_flying :
    ∃ s, Transition.execute step inFlightRun serviceStart = some s ∧
      s.shared.writes = [⟨0,7,5,[1,2,3]⟩] ∧ s.shared.sends.length = 2 ∧ InOrder s.shared := by
  have observed : (Transition.execute step inFlightRun serviceStart).map
      (fun s => (s.shared.writes,s.shared.sends.length)) = some ([⟨0,7,5,[1,2,3]⟩],2) := by decide +kernel
  obtain ⟨s,run,final⟩ := Option.map_eq_some_iff.mp observed
  simp only [Prod.mk.injEq] at final
  exact ⟨s,run,final.1,final.2,sends_in_order _ serviceStart_setUp _ s (.of_execute (fun _ _ _ => trivial) run)⟩

end Tcpeen.Send
