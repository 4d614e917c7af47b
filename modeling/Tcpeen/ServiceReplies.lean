import Tcpeen.Service

/-! Where replies go. A send that answers a READ event reaches the connection of the event
as long as its channel is still that connection's when the send begins, and is not given to
another one while the request is assembled or waits. -/
namespace Tcpeen.Service

open SplitOperation QueueSpsc

/-- The send that has not published its request. -/
def asking : Send.MainPc → List Send.Sent
  | .peekReq sent | .peekBuf _ sent | .push _ sent => [sent]
  | _ => []

/-- The send being assembled and the sends of some requests. -/
def pending (main : Send.MainPc) (reqs : List Nat) (s : Send.State) : List Send.Sent :=
  asking main ++ reqs.filterMap fun r => s.sends[(s.reqs r).ticket]?

/-- `priv` says whose connection a channel is. -/
structure Tagged (priv : Nat → Option Nat) (v : Send.View) : Prop where
  waiting : ∀ sent ∈ pending v.main (Send.testing v.io ++ v.ready.items) v.s, ∀ h,
    sent.source = some h → priv sent.channel = some h
  written : ∀ w ∈ v.s.writes, ∀ sent, v.s.sends[w.ticket]? = some sent → ∀ h,
    sent.source = some h → w.handle = h

section Step

variable {cfg : Config} {priv : Nat → Option Nat} {v v' : Send.View}

/-- A step that begins no send and hands nothing over. -/
theorem Tagged.frame (tagged : Tagged priv v) {main : Send.MainPc} {io : Send.IoPc} {s : Send.State}
    {pool free ready : Fifo Nat} (asks : asking main ⊆ asking v.main)
    (reqs : Send.testing io ++ ready.items ⊆ Send.testing v.io ++ v.ready.items)
    (sends : s.sends = v.s.sends) (tickets : ∀ r, (s.reqs r).ticket = (v.s.reqs r).ticket)
    (writes : s.writes = v.s.writes) : Tagged priv ⟨main,io,s,pool,free,ready⟩ := by
  constructor
  · intro sent member
    apply tagged.waiting
    simp only [pending,sends,tickets,List.mem_append] at member ⊢
    rcases member with member | member
    · exact .inl (asks member)
    · exact .inr (List.filterMap_subset _ reqs member)
  · simp only [writes,sends]
    exact tagged.written

theorem assemble_ticket (r b : Nat) (sent : Send.Sent) (s : Send.State) (x : Nat) :
    ((Send.assemble r b sent s).2.reqs x).ticket = (s.reqs x).ticket := by
  unfold Send.assemble
  simp only
  split <;> simp only [Send.State.setReq,Send.State.setBuffer,Function.update_apply] <;> split <;>
    first | rfl | (next same => rw [same])

theorem onPrep_writes {r : Nat} {verdict : Send.Verdict} {s : Send.State} {x : Send.IoPc × Send.State}
    (ran : Send.onPrep r verdict s = some x) (w : Send.Write) (logged : w ∈ x.2.writes) :
    w ∈ s.writes ∨ (∃ ok, verdict = .uvWrite w.handle ok) ∧ w.ticket = (s.reqs r).ticket ∧
      w.channel = (s.reqs r).channel := by
  unfold Send.onPrep at ran
  split at ran
  · obtain ⟨b,-,rfl⟩ := Option.map_eq_some_iff.mp ran
    exact .inl logged
  · obtain rfl := Option.some.inj ran
    rcases List.mem_append.mp logged with old | new
    · exact .inl old
    · rw [List.mem_singleton.mp new]
      exact .inr ⟨⟨true,rfl⟩,rfl,rfl⟩
  · obtain ⟨b,-,rfl⟩ := Option.map_eq_some_iff.mp ran
    rcases List.mem_append.mp logged with old | new
    · exact .inl old
    · rw [List.mem_singleton.mp new]
      exact .inr ⟨⟨false,rfl⟩,rfl,rfl⟩

theorem Tagged.peekBuf (tagged : Tagged priv v) {sent : Send.Sent} {r b : Nat} {rest : List Nat}
    (pc : v.main = .peekBuf r sent) :
    Tagged priv { v with main := (Send.assemble r b sent v.s).1, s := (Send.assemble r b sent v.s).2
                         pool := ⟨b :: rest,true⟩ } := by
  obtain ⟨-,-,-,next⟩ := Send.assemble_effect r b sent v.s
  obtain ⟨writes,sends,-,-⟩ := Send.assemble_kept r b sent v.s
  refine tagged.frame ?_ (List.Subset.refl _) sends (assemble_ticket r b sent v.s) writes
  rcases next with next | next <;> simp [next,pc,asking]

/-- A send that succeeds is one of the sends on their way. -/
theorem Tagged.push (tagged : Tagged priv v) (owned : Send.Owned cfg v) (carried : Send.Carried v)
    {sent : Send.Sent} {r : Nat} (pc : v.main = .push r sent) :
    Tagged priv { v with main := .popBuf, s := v.s.accept r sent
                         ready := { v.ready with items := v.ready.items ++ [r] } } := by
  have free := owned.push_free pc
  have older {t : Nat} {first sent' : Send.Sent} (told : v.s.sends[t]? = some first)
      (found : (v.s.sends ++ [sent])[t]? = some sent') : v.s.sends[t]? = some sent' := by
    rwa [List.getElem?_append_left (List.getElem?_eq_some_iff.mp told).1] at found
  constructor
  · intro sent' member
    obtain ⟨x,member,found⟩ : ∃ x ∈ Send.testing v.io ++ (v.ready.items ++ [r]),
        (v.s.sends ++ [sent])[((v.s.accept r sent).reqs x).ticket]? = some sent' :=
      List.mem_filterMap.mp member
    by_cases same : x = r
    · subst same
      have ticket : ((v.s.accept x sent).reqs x).ticket = v.s.sends.length := by
        simp [Send.State.accept,Send.State.setReq]
      rw [ticket,List.getElem?_concat_length] at found
      obtain rfl := Option.some.inj found
      exact tagged.waiting sent (by simp [pending,pc,asking])
    · have known : x ∈ Send.testing v.io ++ v.ready.items := by
        simp only [List.mem_append,List.mem_singleton] at member ⊢
        tauto
      obtain ⟨first,told,-⟩ := carried.carries x (by simp only [List.mem_append] at known ⊢; tauto)
      have req : (v.s.accept r sent).reqs x = v.s.reqs x := Function.update_of_ne same ..
      rw [req] at found
      exact tagged.waiting sent' (List.mem_append_right _
        (List.mem_filterMap.mpr ⟨x,known,older told found⟩))
  · intro w logged sent' found
    obtain ⟨first,told,-⟩ := carried.logged w logged
    exact tagged.written w logged sent' (older told found)

/-- `on_prep_cb` writes to the connection that the channel has then. -/
theorem Tagged.submit (tagged : Tagged priv v) (carried : Send.Carried v) {r : Nat} {verdict : Send.Verdict}
    {x : Send.IoPc × Send.State} (pc : v.io = .prepTest r) (ran : Send.onPrep r verdict v.s = some x)
    (handed : ∀ w ∈ x.2.writes, w ∈ v.s.writes ∨ priv w.channel = some w.handle) :
    Tagged priv { v with io := x.1, s := x.2 } := by
  obtain ⟨own,told,channel,-⟩ := carried.carries r (by simp [pc,Send.testing])
  obtain ⟨sends,-,tickets,place⟩ := Send.onPrep_kept ran
  constructor
  · intro sent member
    apply tagged.waiting
    simp only [pending,sends,tickets,place,List.filterMap_append,List.mem_append] at member ⊢
    tauto
  · intro w logged sent found h source
    simp only [sends] at found
    rcases onPrep_writes ran w logged with old | ⟨-,ticket,sameChannel⟩
    · exact tagged.written w old sent found h source
    · rcases handed w logged with old | handed
      · exact tagged.written w old sent found h source
      · rw [ticket,told] at found
        obtain rfl := Option.some.inj found
        have tag := tagged.waiting own (List.mem_append_right _
          (List.mem_filterMap.mpr ⟨r,by simp [pc,Send.testing],told⟩)) h source
        rw [sameChannel,channel,tag] at handed
        exact (Option.some.inj handed).symm

theorem Tagged.move (tagged : Tagged priv v) (owned : Send.Owned cfg v) (carried : Send.Carried v)
    (move : Send.Move cfg v v')
    (entered : ∀ sent, v.main = .idle → v'.main = .peekReq sent → ∀ h, sent.source = some h →
      priv sent.channel = some h)
    (handed : ∀ w ∈ v'.s.writes, w ∈ v.s.writes ∨ priv w.channel = some w.handle) : Tagged priv v' := by
  cases move with
  | @send sent pc some' =>
    refine ⟨?_,tagged.written⟩
    intro sent' member
    rcases List.mem_append.mp member with new | old
    · rw [List.mem_singleton.mp new]
      exact entered sent pc rfl
    · exact tagged.waiting sent' (List.mem_append_right _ old)
  | peekReq pc items =>
    exact tagged.frame (by simp [pc,asking]) (List.Subset.refl _) rfl (Send.dropBuffer_ticket v.s _) rfl
  | peekBuf pc items => exact tagged.peekBuf pc
  | push pc room => exact tagged.push owned carried pc
  | prepPop pc items =>
    exact tagged.frame (List.Subset.refl _) (by simp [pc,items,Send.testing]) rfl (fun _ => rfl) rfl
  | submit pc ran => exact tagged.submit carried pc ran handed
  | sent pc flying ran =>
    obtain ⟨b,-,rfl⟩ := Option.map_eq_some_iff.mp ran
    exact tagged.frame (List.Subset.refl _) (by simp [pc,Send.testing]) rfl (Send.dropBuffer_ticket v.s _) rfl
  | poolPush next pushed =>
    refine tagged.frame (List.Subset.refl _) ?_ rfl (fun _ => rfl) rfl
    cases pc : v.io <;> simp only [Send.returned,pc,reduceCtorEq,Option.some.injEq,Prod.mk.injEq] at next <;>
      obtain ⟨rfl,rfl⟩ := next <;> exact List.Subset.refl _
  | freePush next pushed =>
    refine tagged.frame (List.Subset.refl _) ?_ rfl (fun _ => rfl) rfl
    cases pc : v.io <;> simp only [Send.recycled,pc,reduceCtorEq,Option.some.injEq,Prod.mk.injEq] at next <;>
      obtain ⟨rfl,rfl⟩ := next <;> exact List.Subset.refl _
  | prep pc => exact tagged.frame (List.Subset.refl _) (by simp [pc,Send.testing]) rfl (fun _ => rfl) rfl
  | prepNone pc none' => exact tagged.frame (List.Subset.refl _) (by simp [pc,Send.testing]) rfl (fun _ => rfl) rfl
  | _ => exact tagged.frame (by simp [asking]) (List.Subset.refl _) rfl (fun _ => rfl) rfl

/-- Channels may change hands when no reply for them is pending. -/
theorem Tagged.channels (tagged : Tagged priv v) {priv' : Nat → Option Nat}
    (kept : ∀ sent ∈ pending v.main (Send.testing v.io ++ v.ready.items) v.s, sent.source.isSome →
      priv' sent.channel = priv sent.channel) : Tagged priv' v := by
  refine ⟨?_,tagged.written⟩
  intro sent member h source
  rw [kept sent member (by rw [source]; rfl)]
  exact tagged.waiting sent member h source

end Step

theorem resume_writes (t : Thread) (pc : Send.Pc t) (res : Res Nat) (s : Send.State) :
    (Send.resume t pc res s).2.writes = s.writes := by
  cases t with
  | main =>
    simp only [Send.resume]
    unfold Send.resumeMain
    split <;> first | rfl | exact (Send.assemble_kept ..).1
  | io =>
    simp only [Send.resume]
    unfold Send.resumeIo
    split <;> rfl

/-- A send begins only where it is called. -/
theorem send_entered {cfg : Config} {a a' : Send.Abstract} {label : AtomicLabel Thread Send.Act Nat (Res Nat)}
    {sent : Send.Sent} (taken : Send.atomic cfg a label = some a') (before : a.pcs .main = .idle)
    (after : a'.pcs .main = .peekReq sent) : label = .act (.send sent) := by
  have called (t : Thread) {call : Send.QueueName × Op Nat} {pc : Send.Pc t}
      (asked : Send.request t (a.pcs t) = some call)
      (after : Function.update a.pcs t pc .main = .peekReq sent) : False := by
    cases t with
    | main => simp [before,Send.request] at asked
    | io =>
      have after' : a.pcs .main = .peekReq sent := after
      rw [before] at after'
      cases after'
  cases label with
  | act b =>
    obtain ⟨-,r,done,rfl⟩ := atomicStep_act_cases taken
    cases b with
    | send sent' =>
      have done' : Send.act (.send sent') (a.pcs .main) a.shared = some r := done
      rw [before] at done'
      simp only [Send.act] at done'
      split at done'
      · contradiction
      · obtain rfl := Option.some.inj done'
        rw [Send.MainPc.peekReq.inj after]
    | _ =>
      have after' : a.pcs .main = .peekReq sent := after
      rw [before] at after'
      cases after'
  | op t choice =>
    obtain ⟨q,op,abs,res,asked,-,rfl⟩ := atomicStep_op_cases taken
    exact (called t asked after).elim
  | havoc t res =>
    obtain ⟨q,op,asked,rfl⟩ := atomicStep_havoc_cases taken
    exact (called t asked after).elim

/-- A write is logged only where `on_prep_cb` calls uv_write. -/
theorem send_handed {cfg : Config} {a a' : Send.Abstract} {label : AtomicLabel Thread Send.Act Nat (Res Nat)}
    (taken : Send.atomic cfg a label = some a') (w : Send.Write) (logged : w ∈ a'.shared.writes) :
    w ∈ a.shared.writes ∨ ∃ r ok, label = .act (.submit (.uvWrite w.handle ok)) ∧
      a.pcs .io = .prepTest r ∧ w.channel = (a.shared.reqs r).channel := by
  cases label with
  | act b =>
    obtain ⟨-,x,done,rfl⟩ := atomicStep_act_cases taken
    cases b with
    | submit verdict =>
      cases pc : a.pcs .io with
      | prepTest r =>
        have ran : Send.onPrep r verdict a.shared = some x := by
          simpa [Send.machine,Send.act,pc] using done
        rcases onPrep_writes ran w logged with old | ⟨⟨ok,rfl⟩,-,channel⟩
        · exact .inl old
        · exact .inr ⟨r,ok,rfl,rfl,channel⟩
      | _ => simp [Send.machine,Send.act,pc] at done
    | send sent =>
      left
      cases pc : a.pcs .main with
      | idle =>
        simp only [Send.machine,Send.act,pc] at done
        split at done
        · contradiction
        · obtain rfl := Option.some.inj done
          exact logged
      | _ => simp [Send.machine,Send.act,pc] at done
    | prep =>
      left
      cases pc : a.pcs .io with
      | idle =>
        simp only [Send.machine,Send.act,pc] at done
        obtain rfl := Option.some.inj done
        exact logged
      | _ => simp [Send.machine,Send.act,pc] at done
    | sent r =>
      left
      cases pc : a.pcs .io with
      | idle =>
        simp only [Send.machine,Send.act,pc] at done
        split at done
        · obtain ⟨b,-,rfl⟩ := Option.map_eq_some_iff.mp done
          exact logged
        · contradiction
      | _ => simp [Send.machine,Send.act,pc] at done
  | op t choice =>
    obtain ⟨q,op,abs,res,-,-,rfl⟩ := atomicStep_op_cases taken
    left
    rw [← resume_writes t (a.pcs t) res a.shared]
    exact logged
  | havoc t res =>
    obtain ⟨q,op,-,rfl⟩ := atomicStep_havoc_cases taken
    left
    rw [← resume_writes t (a.pcs t) res a.shared]
    exact logged

/-- The condition on runs, for atomic queues. -/
def Answering (cfg : Config) (a : Abstract) : AtomicLabel Thread Act Nat (Res Nat) → Prop
  | .act (.inr (.send sent)) => ∀ h, sent.source = some h → (a.shared.1.clientMap sent.channel).priv = some h
  | .act (.inl (.connection failure)) => ∀ c, reopened failure a.shared.1 = some c →
      ∀ sent ∈ pending (a.pcs .main).2 (a.abs (.inr .reqsReady)).items a.shared.2, sent.source.isSome →
        sent.channel ≠ c
  | .havoc t _ => ∃ op, (machine cfg).request t (a.pcs t) = some (.inl .poolRead, op)
  | _ => True

section Runs

variable {cfg : Config} {free : ListPtr Nat} {readBlocks writeBlocks : Nat → Nat → UInt8} {a a' : Abstract}

theorem reachable_send
    (reach : Transition.Reachable (atomic cfg) (Answering cfg) (atomicInitial cfg free readBlocks writeBlocks) a) :
    Transition.Reachable (Send.atomic cfg) Send.Exact (Send.atomicInitial cfg writeBlocks) a.right := by
  refine right_reachable (fun _ _ => trivial) (fun _ _ _ => trivial) ?_ reach
  rintro a t res q op ⟨op',pool⟩ asked
  have same := pool.symm.trans asked
  cases same

theorem reachable_receive
    (reach : Transition.Reachable (atomic cfg) (Answering cfg) (atomicInitial cfg free readBlocks writeBlocks) a) :
    Transition.Reachable (Receive.atomic cfg) (fun _ _ => True) (Receive.atomicInitial cfg free readBlocks)
      a.left :=
  left_reachable (fun _ _ _ => trivial) (fun _ _ _ => trivial) (fun _ _ _ _ => trivial) reach

/-- Whose connection a channel is. -/
def privOf (s : Receive.State) (c : Nat) : Option Nat := (s.clientMap c).priv

theorem left_priv {label : AtomicLabel Thread Receive.Act Nat (Res Nat)} {c : Nat}
    (taken : Receive.atomic cfg a.left label = some a'.left)
    (other : ∀ failure, label = .act (.connection failure) → reopened failure a.shared.1 ≠ some c) :
    privOf a'.shared.1 c = privOf a.shared.1 c := by
  change privOf a'.left.shared c = privOf a.left.shared c
  cases label with
  | act b =>
    obtain ⟨-,r,done,same⟩ := atomicStep_act_cases taken
    rw [same]
    exact act_priv done fun failure called => other failure (by rw [called])
  | op t choice =>
    obtain ⟨q,op,abs,res,-,-,same⟩ := atomicStep_op_cases taken
    rw [same]
    exact resume_priv t _ res _ c
  | havoc t res =>
    obtain ⟨q,op,-,same⟩ := atomicStep_havoc_cases taken
    rw [same]
    exact resume_priv t _ res _ c

/-- The receiving half gives the channels of waiting replies to no other connection. -/
theorem Tagged.left (tagged : Tagged (privOf a.shared.1) (Send.view a.right))
    {label : AtomicLabel Thread Receive.Act Nat (Res Nat)}
    (step : LeftStep (spec fun _ => cfg.bits) (Receive.machine cfg) a a' label)
    (quiet : ∀ failure, label = .act (.connection failure) → ∀ c, reopened failure a.shared.1 = some c →
      ∀ sent ∈ pending (Send.view a.right).main (Send.testing (Send.view a.right).io ++
        (Send.view a.right).ready.items) (Send.view a.right).s, sent.source.isSome → sent.channel ≠ c) :
    Tagged (privOf a'.shared.1) (Send.view a'.right) := by
  rw [step.2]
  refine tagged.channels ?_
  intro sent member tag
  refine left_priv step.1 ?_
  rintro failure called opens
  exact quiet failure called sent.channel opens sent member tag rfl

/-- The sending half begins replies to owners only and writes to the handle of the channel. -/
theorem Tagged.right (tagged : Tagged (privOf a.shared.1) (Send.view a.right))
    (owned : Send.Owned cfg (Send.view a.right)) (carried : Send.Carried (Send.view a.right))
    {label : AtomicLabel Thread Send.Act Nat (Res Nat)}
    (step : RightStep (spec fun _ => cfg.bits) Send.machine a a' label) (exact' : Send.Exact a.right label)
    (begins : ∀ sent, label = .act (.send sent) → ∀ h, sent.source = some h →
      privOf a.shared.1 sent.channel = some h)
    (writes : ∀ r handle ok, label = .act (.submit (.uvWrite handle ok)) → (a.pcs .io).2 = .prepTest r →
      privOf a.shared.1 (a.shared.2.reqs r).channel = some handle) :
    Tagged (privOf a'.shared.1) (Send.view a'.right) := by
  have same : a'.shared.1 = a.shared.1 := congrArg Atomic.shared step.2
  rw [same]
  refine tagged.move owned carried (Send.step_move exact' step.1) ?_ ?_
  · intro sent before after
    exact begins sent (send_entered step.1 before after)
  · intro w logged
    rcases send_handed step.1 w logged with old | ⟨r,ok,called,pc,channel⟩
    · exact .inl old
    · right
      rw [channel]
      exact writes r w.handle ok called pc

theorem Tagged.step {label : AtomicLabel Thread Act Nat (Res Nat)}
    (tagged : Tagged (privOf a.shared.1) (Send.view a.right)) (owned : Send.Owned cfg (Send.view a.right))
    (carried : Send.Carried (Send.view a.right)) (answering : Answering cfg a label)
    (taken : atomic cfg a label = some a') : Tagged (privOf a'.shared.1) (Send.view a'.right) := by
  cases label with
  | act b =>
    obtain ⟨permitted,⟨b,rfl,step⟩ | ⟨b,rfl,step⟩⟩ := join_act_cases taken
    · refine tagged.left step ?_
      rintro failure called c opens sent member tag
      obtain rfl := AtomicLabel.act.inj called
      refine answering c opens sent ?_ tag
      have outside : ((a.pcs .io).2 == Send.IoPc.idle) = true := permitted
      have place : Send.testing (Send.view a.right).io = [] := by
        rw [show (Send.view a.right).io = .idle from eq_of_beq outside]
        rfl
      rw [place] at member
      exact member
    · refine tagged.right owned carried step trivial ?_ ?_
      · rintro sent called
        obtain rfl := AtomicLabel.act.inj called
        exact answering
      · rintro r handle ok called pc
        obtain rfl := AtomicLabel.act.inj called
        have seen : allowed cfg (.inr (.submit (.uvWrite handle ok))) (a.pcs .io) a.shared = true := permitted
        rw [show a.pcs .io = ((a.pcs .io).1,.prepTest r) from Prod.ext rfl pc] at seen
        simp only [allowed,found,Bool.and_eq_true,beq_iff_eq] at seen
        exact seen.2
  | op t choice =>
    rcases join_op_cases taken with step | step
    · exact tagged.left step (by simp)
    · exact tagged.right owned carried step trivial (by simp) (by simp)
  | havoc t res =>
    rcases join_havoc_cases taken with step | ⟨⟨q,op,asked⟩,-⟩
    · exact tagged.left step (by simp)
    · obtain ⟨op',pool⟩ := answering
      have same := pool.symm.trans asked
      cases same

theorem initial_tagged :
    Tagged (privOf (atomicInitial cfg free readBlocks writeBlocks).shared.1)
      (Send.view (atomicInitial cfg free readBlocks writeBlocks).right) := by
  constructor
  · intro sent member
    simp [Send.view,Atomic.right,atomicInitial,idle,Send.idle,pending,asking,Send.testing,Send.filled,
      Send.filledCount] at member
  · intro w logged
    simp [Send.view,Atomic.right,atomicInitial,Send.start] at logged

theorem reachable_tagged (roomy : cfg.bufferCount < 2 ^ cfg.bits)
    (reach : Transition.Reachable (atomic cfg) (Answering cfg) (atomicInitial cfg free readBlocks writeBlocks) a) :
    Tagged (privOf a.shared.1) (Send.view a.right) :=
  reach.invariant_with (fun a => Send.Owned cfg (Send.view a.right) ∧ Send.Carried (Send.view a.right))
    (fun a => Tagged (privOf a.shared.1) (Send.view a.right))
    (fun _ reached => ⟨Send.reachable_owned roomy (reachable_send reached),
      Send.reachable_carried roomy (reachable_send reached)⟩)
    initial_tagged fun _ _ _ known tagged answering taken => tagged.step known.1 known.2 answering taken

/-- All queues but pool_read, to which both threads push. -/
def tracked (q : QueueName) : Prop := q ≠ .inl .poolRead

theorem reachable_safe (roomy : cfg.bufferCount < 2 ^ cfg.bits)
    (reach : Transition.Reachable (atomic cfg) (Answering cfg) (atomicInitial cfg free readBlocks writeBlocks) a) :
    Safe (simulation (fun _ => cfg.bits) (fun _ => cfg.small)) (machine cfg) tracked a := by
  have receive := Receive.safe_of_limit (Receive.atomic_limit (reachable_receive reach)) fun _ => True
  have send := (Send.reachable_owned roomy (reachable_send reach)).safe
  intro t q op asked _
  rcases join_request_cases asked with ⟨q₁,rfl,asked₁⟩ | ⟨q₂,rfl,-,asked₂⟩
  · exact receive t q₁ op asked₁ trivial
  · exact send t q₂ op asked₂ trivial

theorem calls_exclusive (s : Running) (t : Thread) :
    Exclusive (simulation (fun _ => cfg.bits) (fun _ => cfg.small)) (machine cfg) tracked s t := by
  rintro q op asked inside other op' different asked'
  right
  rcases join_request_cases asked with ⟨q₁,rfl,asked₁⟩ | ⟨q₂,rfl,-,asked₂⟩
  · obtain ⟨_,same,asked₁'⟩ | ⟨_,same,-⟩ := join_request_cases asked'
    · obtain rfl := Sum.inl.inj same
      rcases Receive.request_apart different asked₁ asked₁' with sides | ⟨rfl,-⟩
      · exact sides
      · exact absurd rfl inside
    · cases same
  · obtain ⟨_,same,-⟩ | ⟨_,same,-,asked₂'⟩ := join_request_cases asked'
    · cases same
    · obtain rfl := Sum.inr.inj same
      exact Send.request_apart different asked₂ asked₂'

end Runs

/-- A send that answers a READ event begins while the channel still has the connection of
the event. -/
def answersOwner (s : Running) : SplitLabel Thread Act → Bool
  | .act (.inr (.send sent)) => sent.source.all fun h => (s.shared.1.clientMap sent.channel).priv == some h
  | _ => true

/-- No channel is reopened while a reply for it is being assembled or waits in
write_reqs_ready. -/
def reopensQuiet (s : Running) : SplitLabel Thread Act → Bool
  | .act (.inl (.connection failure)) =>
    (reopened failure s.shared.1).all fun c =>
      (pending (s.pcs .main).2 (s.mem (.inr .reqsReady)).contents s.shared.2).all fun sent =>
        sent.source.isNone || sent.channel != c
  | _ => true

/-- Such runs are runs of the atomic queues. -/
theorem reachable_related {cfg : Config} {free : ListPtr Nat} {readBlocks writeBlocks : Nat → Nat → UInt8}
    {mem : QueueName → Queue Nat} {s : Running} (roomy : cfg.bufferCount < 2 ^ cfg.bits)
    (ready : SetUp cfg free mem)
    (reach : Transition.Reachable (step cfg)
      (fun s label => answersOwner s label = true ∧ reopensQuiet s label = true)
      (initial cfg free readBlocks writeBlocks mem) s) :
    ∃ a, Transition.Reachable (atomic cfg) (Answering cfg) (atomicInitial cfg free readBlocks writeBlocks) a ∧
      Related (simulation (fun _ => cfg.bits) (fun _ => cfg.small)) (machine cfg) tracked s a := by
  have begun : Related (simulation (fun _ => cfg.bits) (fun _ => cfg.small)) (machine cfg) tracked
      (initial cfg free readBlocks writeBlocks mem) (atomicInitial cfg free readBlocks writeBlocks) := by
    refine ⟨rfl,rfl,?_,?_,fun _ _ => rfl⟩
    · intro q _
      cases q with
      | inl q => exact ready.receive.queues q
      | inr q => exact ready.send q
    · intro t q op asked
      cases t <;> cases asked
  refine refines (Answering cfg) begun (fun a reached => reachable_safe roomy reached)
    (fun s t _ => calls_exclusive s t) ?_ (fun _ _ _ _ _ _ _ _ _ _ _ _ _ => trivial) ?_ reach
  · rintro s a b related ⟨owner,quiet⟩
    cases b with
    | inl b =>
      cases b with
      | connection failure =>
        intro c opens sent member tag
        have items : (s.mem (.inr .reqsReady)).contents = (a.abs (.inr .reqsReady)).items :=
          (related.rel (.inr .reqsReady) (by simp [tracked])).contents cfg.small
        simp only [reopensQuiet,related.shared,related.pcs,items,opens,Option.all_some,List.all_eq_true,
          Bool.or_eq_true,Option.isNone_iff_eq_none,bne_iff_ne] at quiet
        rcases quiet sent member with untagged | different
        · rw [untagged] at tag
          cases tag
        · exact different
      | _ => trivial
    | inr b =>
      cases b with
      | send sent =>
        intro h source
        simpa [answersOwner,source,related.shared] using owner
      | _ => trivial
  · rintro s a t res q op related - - asked outside
    exact ⟨op,by rw [asked,not_not.mp outside]⟩

/-- Every call of uv_write carries the bytes of a successful send for its channel, and if
that send answers a READ event it is made on the connection of the event. -/
def Answered (s : State) : Prop :=
  ∀ w ∈ s.2.writes, ∃ sent, s.2.sends[w.ticket]? = some sent ∧ sent.channel = w.channel ∧
    sent.bytes = w.bytes ∧ ∀ h, sent.source = some h → w.handle = h

theorem replies_answered (free : ListPtr Nat) (mem : QueueName → Queue Nat) (ready : SetUp serviceConfig free mem)
    (readBlocks writeBlocks : Nat → Nat → UInt8) (s : Running)
    (reach : Transition.Reachable (step serviceConfig)
      (fun s label => answersOwner s label = true ∧ reopensQuiet s label = true)
      (initial serviceConfig free readBlocks writeBlocks mem) s) : Answered s.shared := by
  have roomy : serviceConfig.bufferCount < 2 ^ serviceConfig.bits := by decide
  obtain ⟨a,reached,related⟩ := reachable_related roomy ready reach
  have tagged := reachable_tagged roomy reached
  have carried := Send.reachable_carried roomy (reachable_send reached)
  intro w logged
  rw [related.shared] at logged ⊢
  obtain ⟨sent,told,channel,bytes⟩ := carried.logged w logged
  exact ⟨sent,told,channel,bytes,tagged.written w logged sent told⟩

def serviceStart : Running :=
  initial serviceConfig ⟨id,10000,10000⟩ (fun _ _ => 0) (fun _ _ => 0)
    (Sum.elim (fun q => countedQueue serviceConfig.bits (Receive.filledCount serviceConfig q))
      fun q => countedQueue serviceConfig.bits (Send.filledCount serviceConfig q))

theorem serviceStart_setUp : SetUp serviceConfig ⟨id,10000,10000⟩ serviceStart.mem :=
  ⟨Receive.serviceStart_setUp,Send.serviceStart_setUp⟩

def receiving : SplitLabel Thread Receive.Act → SplitLabel Thread Act
  | .act a => .act (.inl a)
  | .tick t => .tick t

/-- A connection is accepted on channel 9999 and the main thread takes its READ event. -/
def readRun : List (SplitLabel Thread Act) :=
  (Receive.connected ++ Receive.byteRead ++ .act .acquire :: Receive.mainCall 5).map receiving

/-- A reply to the first connection, and the write of it to some handle. -/
def replyRun (handle : Nat) : List (SplitLabel Thread Act) :=
  .act (.inr (.send ⟨9999,[1,2,3],some 0⟩)) :: List.replicate 12 (.tick .main) ++
    .act (.inr .prep) :: List.replicate 4 (.tick .io) ++ [.act (.inr (.submit (.uvWrite handle true)))]

theorem replies_answered_read :
    ∃ s, Transition.execute (Transition.checked (step serviceConfig)
        (fun s label => answersOwner s label && reopensQuiet s label)) (readRun ++ replyRun 0) serviceStart =
          some s ∧
      s.shared.2.writes = [⟨0,9999,0,[1,2,3]⟩] ∧ Answered s.shared := by
  have observed : (Transition.execute (Transition.checked (step serviceConfig)
      (fun s label => answersOwner s label && reopensQuiet s label)) (readRun ++ replyRun 0) serviceStart).map
        (fun s => s.shared.2.writes) = some [⟨0,9999,0,[1,2,3]⟩] := by decide +kernel
  obtain ⟨s,run,written⟩ := Option.map_eq_some_iff.mp observed
  refine ⟨s,run,written,replies_answered _ _ serviceStart_setUp _ _ s (.of_checked ?_ run)⟩
  intro s label passed
  simpa using passed

/-- The peer ends, and the next connection is given its channel. -/
def replacedRun : List (SplitLabel Thread Act) :=
  (.act (.read 0 .error) :: .act (.close 0) :: Receive.ioCall 12 ++
    .act (.connection none) :: Receive.ioCall 8).map receiving

/-- The reply to the first connection is written to the second. -/
theorem reply_to_stranger :
    SetUp serviceConfig ⟨id,10000,10000⟩ serviceStart.mem ∧
      ∃ s, Transition.Reachable (step serviceConfig) (fun _ _ => True) serviceStart s ∧ ¬ Answered s.shared := by
  have observed : (Transition.execute (step serviceConfig) (readRun ++ replacedRun ++ replyRun 1) serviceStart).map
      (fun s => (s.shared.2.writes,s.shared.2.sends)) =
        some ([⟨0,9999,1,[1,2,3]⟩],[⟨9999,[1,2,3],some 0⟩]) := by decide +kernel
  obtain ⟨s,run,final⟩ := Option.map_eq_some_iff.mp observed
  obtain ⟨writes,sends⟩ := Prod.mk.inj final
  refine ⟨serviceStart_setUp,s,.of_execute (fun _ _ _ => trivial) run,?_⟩
  intro answered
  obtain ⟨sent,told,-,-,same⟩ := answered ⟨0,9999,1,[1,2,3]⟩ (by rw [writes]; exact List.mem_singleton_self _)
  rw [sends] at told
  obtain rfl := Option.some.inj told
  cases same 0 rfl

end Tcpeen.Service
