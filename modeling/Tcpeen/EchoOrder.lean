import Tcpeen.Echo
import Tcpeen.ServiceWrites

/-! What the echo server writes. As long as every send finds a request and a buffer, the
sends are the READ events handled so far, in their order. -/
namespace Tcpeen.Echo

open SplitOperation QueueSpsc

/-- Sends that have begun, and what became of them. -/
structure Flow (cfg : Config) (a : Service.Abstract) (begun : List Send.Sent) : Prop where
  fits : Service.Fits cfg (Send.view a.right)
  answered : a.shared.2.sends ++ Service.asking (a.pcs .main).2 = begun
  handed : ∃ n, Service.Handed (Receive.Ended a.shared.1) (Send.view a.right) n

/-- Every send answers a connection that has its channel. -/
def Named (a : Service.Abstract) (begun : List Send.Sent) : Prop :=
  ∀ sent ∈ begun, ∃ h, sent.source = some h ∧ h < a.shared.1.handleCount ∧
    (a.shared.1.handles h).data = some sent.channel

section Flow

variable {cfg : Config} {a a' : Service.Abstract} {begun : List Send.Sent}

theorem Flow.left (flow : Flow cfg a begun) (named : Named a begun)
    {label : AtomicLabel Thread Receive.Act Nat (Res Nat)} (orderly : Receive.Orderly True a.left label)
    (step : LeftStep (spec fun _ => cfg.bits) (Receive.machine cfg) a a' label) : Flow cfg a' begun := by
  obtain ⟨n,handed⟩ := flow.handed
  have keeps := Receive.move_keeps (Receive.step_move orderly step.1)
  have shared : a'.shared.2 = a.shared.2 := congrArg Atomic.shared step.2
  have main : (a'.pcs .main).2 = (a.pcs .main).2 := congrArg (fun x : Send.Abstract => x.pcs .main) step.2
  refine ⟨by rw [step.2]; exact flow.fits,by rw [shared,main]; exact flow.answered,n,?_⟩
  rw [step.2]
  refine handed.mono ?_
  intro sent member h source
  obtain ⟨h',source',inside,-⟩ := named sent (by rw [← flow.answered]; exact List.mem_append_left _ member)
  obtain rfl := Option.some.inj (source.symm.trans source')
  exact keeps.ended h inside

/-- `on_prep_cb` writes as long as the connection has not ended, and not after. -/
theorem Flow.submit (flow : Flow cfg a begun) (known : Service.Known cfg a) (named : Named a begun)
    {verdict : Send.Verdict} {r : Nat} {x : Send.IoPc × Send.State} {n : Nat} (pc : (a.pcs .io).2 = .prepTest r)
    (found : Service.found (a.shared.1.clientMap (a.shared.2.reqs r).channel) verdict = true)
    (ran : Send.onPrep r verdict a.shared.2 = some x)
    (handed : Service.Handed (Receive.Ended a.shared.1) (Send.view a.right) n) :
    Service.Handed (Receive.Ended a.shared.1) { Send.view a.right with io := x.1, s := x.2 } (n + 1) := by
  obtain ⟨sent,told,channel,-⟩ := known.carried.carries r (by
    rw [show (Send.view a.right).io = .prepTest r from pc]
    simp [Send.testing])
  have told' : a.shared.2.sends[(a.shared.2.reqs r).ticket]? = some sent := told
  have channel' : (a.shared.2.reqs r).channel = sent.channel := channel
  obtain ⟨h,source,-,data⟩ := named sent (by
    rw [← flow.answered]
    exact List.mem_append_left _ (List.mem_of_getElem? told'))
  have priv : (a.shared.1.clientMap sent.channel).priv = some h := by
    refine known.tagged.waiting sent (List.mem_append_right _ ?_) h source
    refine List.mem_filterMap.mpr ⟨r,?_,told⟩
    rw [show (Send.view a.right).io = .prepTest r from pc]
    simp [Send.testing]
  rw [channel'] at found
  refine handed.submit known.carried pc ran told source ?_ ?_
  · rintro rfl
    simp only [Service.found,bne_iff_ne,ne_eq] at found
    exact known.sound.ended data found
  · rintro handle ok rfl
    simp only [Service.found,Bool.and_eq_true,beq_iff_eq] at found
    obtain ⟨closes,recorded⟩ := known.recorded
    refine ⟨Option.some.inj (found.2.symm.trans priv),?_⟩
    exact recorded.unended known.sound found.1 priv

/-- The main thread moves by a call of `tcp_service_send` and by its queue operations. -/
theorem send_main_moves {a a' : Send.Abstract} {label : AtomicLabel Thread Send.Act Nat (Res Nat)}
    (exact' : Send.Exact a label) (taken : Send.atomic cfg a label = some a') (moved : a'.pcs .main ≠ a.pcs .main) :
    a.pcs .main = .idle ∨ ∃ choice, label = .op .main choice := by
  cases label with
  | act b =>
    obtain ⟨-,r,done,rfl⟩ := atomicStep_act_cases taken
    cases b with
    | send sent =>
      left
      have done' : Send.act (.send sent) (a.pcs .main) a.shared = some r := done
      cases pc : a.pcs .main with
      | idle => rfl
      | _ =>
        rw [pc] at done'
        cases done'
    | _ => exact absurd rfl moved
  | op t choice =>
    cases t with
    | main => exact .inr ⟨choice,rfl⟩
    | io =>
      obtain ⟨q,op,abs,res,-,-,rfl⟩ := atomicStep_op_cases taken
      exact absurd rfl moved
  | havoc t res => exact exact'.elim

/-- `on_prep_cb` is done with a request when it has looked at its channel. -/
theorem send_tests {a a' : Send.Abstract} {label : AtomicLabel Thread Send.Act Nat (Res Nat)} {r : Nat}
    (exact' : Send.Exact a label) (taken : Send.atomic cfg a label = some a') (pc : a.pcs .io = .prepTest r) :
    a'.pcs .io = a.pcs .io ∨ ∃ verdict, label = .act (.submit verdict) := by
  cases label with
  | act b =>
    obtain ⟨-,x,done,rfl⟩ := atomicStep_act_cases taken
    cases b with
    | send sent => exact .inl rfl
    | submit verdict => exact .inr ⟨verdict,rfl⟩
    | prep =>
      have done' : Send.act .prep (a.pcs .io) a.shared = some x := done
      rw [pc] at done'
      cases done'
    | sent r' =>
      have done' : Send.act (.sent r') (a.pcs .io) a.shared = some x := done
      rw [pc] at done'
      cases done'
  | op t choice =>
    obtain ⟨q,op,abs,res,asked,-,rfl⟩ := atomicStep_op_cases taken
    cases t with
    | main => exact .inl rfl
    | io =>
      have asked' : Send.request .io (a.pcs .io) = some (q,op) := asked
      rw [pc] at asked'
      cases asked'
  | havoc t res => exact exact'.elim

theorem Flow.right (flow : Flow cfg a begun) (known : Service.Known cfg a) (roomy : cfg.bufferCount < 2 ^ cfg.bits)
    {label : AtomicLabel Thread Send.Act Nat (Res Nat)} (exact' : Send.Exact a.right label)
    (step : RightStep (spec fun _ => cfg.bits) Send.machine a a' label)
    (stocked : ∀ choice, label = .op .main choice → Service.Stocked (Send.view a.right) (a.pcs .main).2)
    (calls : ∀ sent, label ≠ .act (.send sent))
    (handed : ∃ n, Service.Handed (Receive.Ended a.shared.1) (Send.view a'.right) n) : Flow cfg a' begun := by
  have shared : a'.shared.1 = a.shared.1 := congrArg Atomic.shared step.2
  have move := Send.step_move exact' step.1
  refine ⟨?_,?_,by rwa [shared]⟩
  · refine flow.fits.move move ?_
    intro sent idle begins
    exact absurd (Service.send_entered step.1 idle begins) (calls sent)
  · have stocked' : (Send.view a'.right).main ≠ (Send.view a.right).main →
        Service.Stocked (Send.view a.right) (Send.view a.right).main := by
      intro moved
      rcases send_main_moves exact' step.1 moved with idle | ⟨choice,called⟩
      · rw [show (Send.view a.right).main = .idle from idle]
        trivial
      · exact stocked choice called
    rcases flow.fits.calls known.owned roomy move stocked' with same | ⟨sent,idle,begins,-⟩
    · exact same.trans flow.answered
    · exact absurd (Service.send_entered step.1 idle begins) (calls sent)

theorem Flow.send (flow : Flow cfg a begun) (known : Service.Known cfg a) {sent : Send.Sent}
    (step : RightStep (spec fun _ => cfg.bits) Send.machine a a' (.act (.send sent)))
    (short : sent.bytes.length ≤ cfg.maxRead) : Flow cfg a' (begun ++ [sent]) := by
  obtain ⟨n,handed⟩ := flow.handed
  have shared : a'.shared.1 = a.shared.1 := congrArg Atomic.shared step.2
  have exact' : Send.Exact a.right (.act (.send sent)) := trivial
  have move := Send.step_move exact' step.1
  refine ⟨?_,?_,n,?_⟩
  · refine flow.fits.move move ?_
    intro sent' idle begins
    obtain ⟨⟩ := Service.send_entered step.1 idle begins
    exact short
  · obtain ⟨-,r,done,eq⟩ := atomicStep_act_cases step.1
    have done' : Send.act (.send sent) (a.pcs .main).2 a.shared.2 = some r := done
    have answered := flow.answered
    have main : a'.right.pcs .main = r.1 := by rw [eq]; rfl
    have sends : a'.right.shared = r.2 := by rw [eq]
    change a'.right.shared.sends ++ Service.asking (a'.right.pcs .main) = begun ++ [sent]
    cases pc : (a.pcs .main).2 with
    | idle =>
      rw [pc] at done' answered
      simp only [Send.act] at done'
      split at done'
      · contradiction
      · obtain rfl := Option.some.inj done'
        rw [main,sends,← answered]
        simp [Service.asking]
    | _ =>
      rw [pc] at done'
      cases done'
  · rw [shared]
    refine handed.move known.owned move ?_
    intro r pc
    rcases send_tests exact' step.1 pc with same | ⟨verdict,called⟩
    · exact same
    · cases called

theorem Flow.op (flow : Flow cfg a begun) (known : Service.Known cfg a) (named : Named a begun)
    (roomy : cfg.bufferCount < 2 ^ cfg.bits) {t : Thread} {choice : Nat}
    (stocked : t = .main → Receive.request .main (a.pcs .main).1 = none →
      Service.Stocked (Send.view a.right) (a.pcs .main).2)
    (taken : Service.atomic cfg a (.op t choice) = some a') : Flow cfg a' begun := by
  obtain ⟨n,handed⟩ := flow.handed
  cases first : Receive.request t (a.pcs t).1 with
  | some call =>
    have orderly : Receive.Orderly True a.left (.op t choice) := trivial
    exact flow.left named orderly (join_op_left first taken)
  | none =>
    have exact' : Send.Exact a.right (.op t choice) := trivial
    have step := join_op_right first taken
    refine flow.right known roomy exact' step ?_ (by simp) ⟨n,?_⟩
    · rintro _ ⟨⟩
      exact stocked rfl first
    · refine handed.move known.owned (Send.step_move exact' step.1) ?_
      intro r pc
      rcases send_tests exact' step.1 pc with same | ⟨verdict,called⟩
      · exact same
      · cases called

theorem Flow.act (flow : Flow cfg a begun) (known : Service.Known cfg a) (named : Named a begun)
    (roomy : cfg.bufferCount < 2 ^ cfg.bits) {b : Service.Act} (replying : Service.Replying a (.act b))
    (calls : ∀ sent, b ≠ .inr (.send sent)) (taken : Service.atomic cfg a (.act b) = some a') :
    Flow cfg a' begun := by
  obtain ⟨n,handed⟩ := flow.handed
  obtain ⟨permitted,⟨b,rfl,step⟩ | ⟨b,rfl,step⟩⟩ := join_act_cases taken
  · exact flow.left named replying.orderly step
  · have exact' : Send.Exact a.right (.act b) := trivial
    refine flow.right known roomy exact' step (by simp) ?_ ?_
    · rintro sent ⟨⟩
      exact calls sent rfl
    · by_cases tests : ∃ r, (a.pcs .io).2 = .prepTest r
      · obtain ⟨r,pc⟩ := tests
        rcases send_tests exact' step.1 pc with same | ⟨verdict,called⟩
        · refine ⟨n,handed.move known.owned (Send.step_move exact' step.1) ?_⟩
          exact fun _ _ => same
        · obtain rfl := AtomicLabel.act.inj called
          obtain ⟨-,x,done,eq⟩ := atomicStep_act_cases step.1
          have ran : Send.act (.submit verdict) (a.pcs .io).2 a.shared.2 = some x := done
          have found : Service.allowed cfg (.inr (.submit verdict)) (a.pcs .io) a.shared = true := permitted
          rw [show a.pcs .io = ((a.pcs .io).1,.prepTest r) from Prod.ext rfl pc] at found
          rw [pc] at ran
          refine ⟨n + 1,?_⟩
          rw [eq]
          exact flow.submit known named pc found ran handed
      · refine ⟨n,handed.move known.owned (Send.step_move exact' step.1) ?_⟩
        exact fun r pc => absurd ⟨r,pc⟩ tests

end Flow

def replies (l : List Receive.Delivery) : List Send.Sent :=
  (l.filter fun d => d.notice.type == .clientRead).map reply

theorem bytesFor_replies (h : Nat) (l : List Receive.Delivery) :
    Service.bytesFor h (replies l) = Receive.bytesFrom h l := by
  induction l with
  | nil => rfl
  | cons d l ih =>
    simp only [replies,Service.bytesFor,Receive.bytesFrom,List.filter_cons] at ih ⊢
    by_cases type : d.notice.type = .clientRead <;> by_cases source : d.notice.source = h <;>
      simp [type,source,reply,ih]

/-- What is left of the batch. -/
def unhandled (updates : List Nat) : Loop → List Nat
  | .sleeping => []
  | .batch eidx => updates.drop eidx

/-- The events that the loop has dealt with. -/
def handledOf (s : Receive.State) (loop : Loop) : List Receive.Delivery :=
  s.delivered.take (s.delivered.length - (unhandled s.eventUpdates loop).length)

/-- The loop has begun a send for each READ event it has dealt with. -/
def Echoing (cfg : Config) (a : Abstract) : Prop := Flow cfg (plain a) (replies (handledOf a.shared.1.1 a.shared.2))

section Step

variable {cfg : Config} {free : ListPtr Nat} {readBlocks writeBlocks : Nat → Nat → UInt8} {a a' : Abstract}

theorem replies_named {a : Service.Abstract} (known : Service.Known cfg a) {l : List Receive.Delivery}
    (part : l ⊆ a.shared.1.delivered) : Named a (replies l) := by
  intro sent member
  obtain ⟨d,found,rfl⟩ := List.mem_map.mp member
  have delivered := part (List.mem_of_mem_filter found)
  have log : a.shared.1.delivered.map (·.notice) ++ (Receive.view a.left).ready.map a.shared.1.notice =
      a.shared.1.queued := known.events.log
  obtain ⟨inside,data,-⟩ := known.sourced d.notice (by
    rw [← log]
    exact List.mem_append_left _ (List.mem_map_of_mem delivered))
  exact ⟨_,rfl,inside,data⟩

theorem handledOf_same {s s' : Receive.State} {loop : Loop} (updates : s'.eventUpdates = s.eventUpdates)
    (delivered : s'.delivered = s.delivered) : handledOf s' loop = handledOf s loop := by
  simp only [handledOf,updates,delivered]

theorem handledOf_all {s : Receive.State} {loop : Loop} (none' : unhandled s.eventUpdates loop = []) :
    handledOf s loop = s.delivered := by
  simp [handledOf,none']

/-- A turn of the `for` loop deals with the next event. -/
theorem handledOf_next {s : Receive.State} {eidx e : Nat} (batch : s.eventUpdates.map s.delivery <:+ s.delivered)
    (listed : s.eventUpdates[eidx]? = some e) :
    handledOf s (.batch (eidx + 1)) = handledOf s (.batch eidx) ++ [s.delivery e] := by
  obtain ⟨older,delivered⟩ := batch
  obtain ⟨inside,-⟩ := List.getElem?_eq_some_iff.mp listed
  have taken (i : Nat) (within : i ≤ s.eventUpdates.length) :
      handledOf s (.batch i) = older ++ (s.eventUpdates.map s.delivery).take i := by
    have length : (older ++ s.eventUpdates.map s.delivery).length -
        (unhandled s.eventUpdates (.batch i)).length = older.length + i := by
      simp only [unhandled,List.length_append,List.length_map,List.length_drop]
      omega
    rw [handledOf,← delivered,length,List.take_length_add_append]
  rw [taken _ inside,taken _ inside.le,List.take_add_one,List.getElem?_map,listed,List.append_assoc]
  rfl

theorem replies_concat (l : List Receive.Delivery) (d : Receive.Delivery) :
    replies (l ++ [d]) = replies l ++ if d.notice.type = .clientRead then [reply d] else [] := by
  by_cases type : d.notice.type = .clientRead <;> simp [replies,List.filter_append,type]

/-- What arrives in one event fits a write buffer. -/
theorem payload_short {a : Service.Abstract} {e : Nat} (known : Service.Known cfg a)
    (idle : (a.pcs .main).1 = .idle) (acquired : a.shared.1.acquired = true)
    (member : e ∈ a.shared.1.eventUpdates) : (a.shared.1.payload e).length ≤ cfg.maxRead := by
  cases type : (a.shared.1.events e).type with
  | clientRead =>
    cases buffer : (a.shared.1.events e).tnBuffer with
    | none => simp [Receive.State.payload,type,buffer]
    | some b =>
      obtain ⟨-,unread⟩ := batch_unread known idle acquired member type buffer
      have aligned := (known.streams.valid b).aligned
      have bounded := (known.streams.valid b).bounded
      have capacity := (known.blocks.untapped b).2
      simp only [show (Receive.view a.left).s.buffers b = a.shared.1.buffers b from rfl] at aligned bounded capacity
      rw [← unread,Buffer.unread_length,Buffer.readLength]
      omega
  | _ => simp [Receive.State.payload,type]

/-- The main thread's own queue operations leave the events it has dealt with. -/
theorem resumeMain_handled {a : Service.Abstract} {loop : Loop} (known : Service.Known cfg a)
    (paced : Paced (a.pcs .main).1 a.shared.1.acquired loop) (res : Res Nat) :
    handledOf (Receive.resumeMain (a.pcs .main).1 res a.shared.1).2 loop = handledOf a.shared.1 loop := by
  cases pc : (a.pcs .main).1 with
  | idle => rfl
  | acquire limit =>
    rw [pc] at paced
    obtain ⟨-,-,updates⟩ := known.events.waiting limit pc
    have updates' : a.shared.1.eventUpdates = [] := updates
    cases loop with
    | sleeping =>
      rcases paced with ⟨idle,-⟩ | releasing
      · cases idle
      · exact releasing.elim
    | batch eidx =>
      rcases paced.2 with idle | ⟨rfl,-⟩
      · cases idle
      · cases res with
        | success values =>
          rw [handledOf_all (s := a.shared.1) (by rw [updates']; rfl)]
          simp [Receive.resumeMain,handledOf,unhandled]
        | _ => rfl
  | releasePool e b rest => rfl
  | releaseEvent e rest =>
    obtain ⟨flag,same⟩ := Receive.releaseNext_frame a.shared.1 rest
    simp only [Receive.resumeMain,same]
    exact handledOf_same rfl rfl

/-- Every send finds a request and a buffer. -/
def Supplied (a : Abstract) : AtomicLabel Thread Act Nat (Res Nat) → Prop
  | .op .main _ => Receive.request .main (a.pcs .main).1 = none →
      Service.Stocked (Send.view (plain a).right) (a.pcs .main).2
  | _ => True

/-- One turn of the `for` loop echoes a READ event and passes over the others. -/
theorem Echoing.handle (echoing : Echoing cfg a) (following : Following cfg free readBlocks writeBlocks a)
    (known : Service.Known cfg (plain a)) (taken : atomic cfg a (.act .handle) = some a') : Echoing cfg a' := by
  have paced := following.paced
  obtain ⟨quiet,eidx,e,loop,listed,loop',same⟩ := handle_cases taken
  have idle : (a.pcs .main).1 = .idle := Receive.request_idle_main (join_request_none quiet).1
  rw [loop] at paced
  have member : e ∈ a.shared.1.1.eventUpdates := List.mem_of_getElem? listed
  have batch : a.shared.1.1.eventUpdates.map a.shared.1.1.delivery <:+ a.shared.1.1.delivered :=
    batch_delivered known idle paced.1
  have next := handledOf_next batch listed
  rcases same with ⟨type,same⟩ | ⟨type,r,ran,same⟩
  · have shared : a'.shared.1 = a.shared.1 := congrArg (fun x : Service.Abstract => x.shared) same
    have other : (a.shared.1.1.delivery e).notice.type ≠ .clientRead := type
    rw [Echoing,same,shared,loop',next,replies_concat,if_neg other,List.append_nil,← loop]
    exact echoing
  · obtain ⟨-,step⟩ := following.handle known loop listed type quiet ran
    rw [← same] at step
    have shared : a'.shared.1.1 = a.shared.1.1 := (send_kept step).2
    have read : (a.shared.1.1.delivery e).notice.type = .clientRead := type
    rw [Echoing,shared,loop',next,replies_concat,if_pos read,← loop]
    obtain ⟨-,⟨b,called,-⟩ | ⟨b,called,right⟩⟩ := join_act_cases step
    · cases called
    · obtain rfl := Sum.inr.inj called
      exact Flow.send echoing known right (payload_short known idle paced.1 member)

theorem Echoing.step {label : AtomicLabel Thread Act Nat (Res Nat)} (echoing : Echoing cfg a)
    (following : Following cfg free readBlocks writeBlocks a) (known : Service.Known cfg (plain a))
    (roomy : cfg.bufferCount < 2 ^ cfg.bits) (exact' : Exact a label) (supplied : Supplied a label)
    (taken : atomic cfg a label = some a') : Echoing cfg a' := by
  have named : Named (plain a) (replies (handledOf a.shared.1.1 a.shared.2)) :=
    replies_named known (List.take_subset ..)
  have paced := following.paced
  cases label with
  | act b =>
    cases b with
    | acquire =>
      obtain ⟨loop,plain',loop'⟩ := acquire_cases taken
      obtain ⟨idle,main,shared⟩ := acquire_effect plain'
      have replying := acquire_replying paced loop idle
      have flow := Flow.act echoing known named roomy replying (by simp) plain'
      have handled : handledOf a'.shared.1.1 a'.shared.2 = handledOf a.shared.1.1 a.shared.2 := by
        rw [loop,loop',shared]
        simp [handledOf,unhandled]
      rwa [Echoing,handled]
    | handle => exact echoing.handle following known taken
    | release =>
      obtain ⟨⟨eidx,loop,all⟩,plain',loop'⟩ := release_cases taken
      obtain ⟨main,shared⟩ := release_effect plain'
      rw [loop] at paced
      have replying : Service.Replying (plain a) (.act (.inl .release)) := paced.1
      have flow := Flow.act echoing known named roomy replying (by simp) plain'
      have handled : handledOf a'.shared.1.1 a'.shared.2 = handledOf a.shared.1.1 a.shared.2 := by
        obtain ⟨flag,same⟩ := Receive.releaseNext_frame a.shared.1.1 a.shared.1.1.eventUpdates
        have none' : unhandled a.shared.1.1.eventUpdates (.batch eidx) = [] := List.drop_eq_nil_of_le all
        rw [loop,loop',handledOf_all none',shared,same]
        simp [handledOf,unhandled]
      rwa [Echoing,handled]
    | io b =>
      obtain ⟨own,plain',loop'⟩ := io_cases taken
      obtain ⟨-,batch⟩ := io_act_kept own plain'
      have calls (sent : Send.Sent) : b ≠ .inr (.send sent) := by
        rintro rfl
        cases own
      have flow := Flow.act echoing known named roomy (io_replying own exact') calls plain'
      have handled : handledOf a'.shared.1.1 a'.shared.2 = handledOf a.shared.1.1 a.shared.2 := by
        rw [loop']
        exact handledOf_same batch.updates batch.delivered
      rwa [Echoing,handled]
  | op t choice =>
    obtain ⟨plain',loop'⟩ := op_plain taken
    have flow := Flow.op echoing known named roomy (by rintro rfl; exact supplied) plain'
    have handled : handledOf a'.shared.1.1 a'.shared.2 = handledOf a.shared.1.1 a.shared.2 := by
      rw [loop']
      rcases op_kept plain' with ⟨-,batch⟩ | ⟨-,res,-,shared⟩
      · exact handledOf_same batch.updates batch.delivered
      · rw [show a'.shared.1.1 = _ from shared]
        exact resumeMain_handled known paced res
    rwa [Echoing,handled]
  | havoc t res => exact exact'.elim

theorem initial_echoing : Echoing cfg (atomicInitial cfg free readBlocks writeBlocks) := by
  refine ⟨⟨fun _ => rfl,fun _ member => absurd member List.not_mem_nil⟩,rfl,0,rfl,?_⟩
  exact fun _ => .inl rfl

theorem reachable_echoing (roomy : cfg.bufferCount < 2 ^ cfg.bits)
    (built : ∃ data, clientListSetup data cfg.clientsMax = some free)
    (reach : Transition.Reachable (atomic cfg) (fun a label => Exact a label ∧ Supplied a label)
      (atomicInitial cfg free readBlocks writeBlocks) a) : Echoing cfg a := by
  refine reach.invariant_with (Following cfg free readBlocks writeBlocks) (Echoing cfg)
    (fun _ reached => reachable_following roomy built (reached.weaken fun _ _ guard => guard.1)) initial_echoing ?_
  intro a label a' following echoing guard taken
  exact echoing.step following (Service.reachable_known roomy built following.reached) roomy guard.1 guard.2 taken

/-- On every connection: what was handed to uv_write begins what was received. -/
theorem Echoing.begins (echoing : Echoing cfg a) (known : Service.Known cfg (plain a)) (h : Nat) :
    Service.writtenOn h a.shared.1.2.writes <+: a.shared.1.1.received h := by
  obtain ⟨n,handed⟩ := echoing.handed
  have answered : a.shared.1.2.sends ++ Service.asking (a.pcs .main).2 =
      replies (handledOf a.shared.1.1 a.shared.2) := echoing.answered
  have sent : Service.bytesFor h a.shared.1.2.sends <+:
      Service.bytesFor h (replies (handledOf a.shared.1.1 a.shared.2)) := by
    rw [← answered,Service.bytesFor_append]
    exact List.prefix_append ..
  have handled : Receive.bytesFrom h (handledOf a.shared.1.1 a.shared.2) <+:
      Receive.bytesFrom h a.shared.1.1.delivered := by
    conv => rhs; rw [← List.take_append_drop (a.shared.1.1.delivered.length -
      (unhandled a.shared.1.1.eventUpdates a.shared.2).length) a.shared.1.1.delivered,Receive.bytesFrom_append]
    exact List.prefix_append ..
  have delivered : Receive.bytesFrom h a.shared.1.1.delivered <+: a.shared.1.1.received h := by
    refine List.IsPrefix.trans ?_ (known.streams.begins h)
    rw [Receive.View.history,Receive.bytesFrom_append]
    exact List.prefix_append ..
  rw [bytesFor_replies] at sent
  exact (handed.begins h).trans (sent.trans (handled.trans delivered))

end Step

/-- No channel is given to a second connection. -/
def opensUnused (s : Running) : SplitLabel Thread Act → Bool
  | .act (.io (.inl (.connection failure))) =>
    (Service.reopened failure s.shared.1.1).all fun c => (s.shared.1.1.clientMap c).priv.isNone
  | _ => true

/-- When `tcp_service_send` looks for a request in write_reqs_free and for a buffer in
pool_write, it finds one. -/
def supplied (s : Running) : SplitLabel Thread Act → Bool
  | .tick .main =>
    match (s.pcs .main).2, s.loc .main with
    | .peekReq _, .tail _ => (s.mem (.inr .reqsFree)).head != (s.mem (.inr .reqsFree)).tail
    | .peekBuf .., .tail _ => (s.mem (.inr .poolWrite)).head != (s.mem (.inr .poolWrite)).tail
    | _, _ => true
  | _ => true

/-- The next call of the thread is a push to pool_read, or it is in the middle of one. -/
def pushesPool (s : Running) (t : Thread) : Bool :=
  match Receive.request t (s.pcs t).1 with
  | some (.poolRead, .push _) => true
  | _ => false

/-- No step of a push to pool_read is taken while the other thread has begun one. -/
def pushesApart (s : Running) : SplitLabel Thread Act → Bool
  | .tick t => !(pushesPool s t && pushesPool s (Receive.otherThread t) &&
      decide (s.loc (Receive.otherThread t) ≠ .entry))
  | _ => true

section Runs

variable {cfg : Config}

theorem request_cases {t : Thread} {pc : Pc t} {q : Service.QueueName} {op : Op Nat}
    (asked : (machine cfg).request t pc = some (q, op)) :
    (∃ q₁, q = .inl q₁ ∧ Receive.request t pc.1 = some (q₁, op)) ∨
      (∃ q₂, q = .inr q₂ ∧ Receive.request t pc.1 = none ∧ Send.request t pc.2 = some (q₂, op)) := by
  have asked' : (Service.machine cfg).request t pc = some (q,op) := asked
  exact join_request_cases asked'

theorem pushes_exclusive {s : Running} {t : Thread} (apart : pushesApart s (.tick t) = true) :
    Exclusive (simulation (fun _ => cfg.bits) (fun _ => cfg.small)) (machine cfg) (fun _ => True) s t := by
  rintro q op asked - other op' different asked'
  rcases request_cases asked with ⟨q₁,rfl,asked₁⟩ | ⟨q₂,rfl,-,asked₂⟩
  · obtain ⟨_,same,asked₁'⟩ | ⟨_,same,-⟩ := request_cases asked'
    · obtain rfl := Sum.inl.inj same
      rcases Receive.request_apart different asked₁ asked₁' with sides | ⟨rfl,b,b',rfl,rfl⟩
      · exact .inr sides
      · left
        obtain rfl : other = Receive.otherThread t := by
          cases t <;> cases other <;> first | rfl | exact absurd rfl different
        change s.loc (Receive.otherThread t) = .entry
        simpa [pushesApart,pushesPool,asked₁,asked₁'] using apart
    · cases same
  · obtain ⟨_,same,-⟩ | ⟨_,same,-,asked₂'⟩ := request_cases asked'
    · cases same
    · obtain rfl := Sum.inr.inj same
      exact .inr (Send.request_apart different asked₂ asked₂')

theorem known_safe {a : Abstract} (known : Service.Known cfg (plain a)) :
    Safe (simulation (fun _ => cfg.bits) (fun _ => cfg.small)) (machine cfg) (fun _ => True) a := by
  intro t q op asked _
  rcases request_cases asked with ⟨q₁,rfl,asked₁⟩ | ⟨q₂,rfl,-,asked₂⟩
  · exact known.events.safe (fun _ => True) t q₁ op asked₁ trivial
  · exact known.owned.safe t q₂ op asked₂ trivial

theorem setUp_related {free : ListPtr Nat} {mem : Service.QueueName → Queue Nat}
    (ready : Service.SetUp cfg free mem) (readBlocks writeBlocks : Nat → Nat → UInt8) :
    Related (simulation (fun _ => cfg.bits) (fun _ => cfg.small)) (machine cfg) (fun _ => True)
      (initial cfg free readBlocks writeBlocks mem) (atomicInitial cfg free readBlocks writeBlocks) := by
  refine ⟨rfl,rfl,?_,?_,fun _ _ => rfl⟩
  · intro q _
    cases q with
    | inl q => exact ready.receive.queues q
    | inr q => exact ready.send q
  · intro t q op asked
    cases t <;> cases asked

theorem opensUnused_exact {s : Running} {a : Abstract} {b : Act}
    (related : Related (simulation (fun _ => cfg.bits) (fun _ => cfg.small)) (machine cfg) (fun _ => True) s a) :
    opensUnused s (.act b) = true ↔ Exact a (.act b) := by
  cases b with
  | io b =>
    rcases b with (b | b)
    · cases b with
      | connection failure =>
        rw [opensUnused,Exact,related.shared]
        cases Service.reopened failure a.shared.1.1 <;> simp [Service.privOf]
      | _ => simp [opensUnused,Exact]
    · simp [opensUnused,Exact]
  | _ => simp [opensUnused,Exact]

/-- A peek that finds nothing has compared two equal indices. -/
theorem peek_empty {loc : Loc Nat} {q q' : Queue Nat} (ticked : tick .peek loc q = (q', .returned .empty)) :
    ∃ tail, loc = .tail tail := by
  cases loc with
  | tail tail => exact ⟨tail,rfl⟩
  | _ => simp [tick] at ticked

theorem supplied_stocked {s : Running} {a : Abstract} {choice : Nat} {res : Res Nat} {q : Service.QueueName}
    {op : Op Nat} {f : Fifo Nat}
    (related : Related (simulation (fun _ => cfg.bits) (fun _ => cfg.small)) (machine cfg) (fun _ => True) s a)
    (passed : supplied s (.tick .main) = true) (returns : Returns (object Service.QueueName Nat)
    (machine cfg) s .main res)
    (asked : (machine cfg).request .main (a.pcs .main) = some (q, op))
    (specified : spec (fun _ => cfg.bits) q op (a.abs q) choice = some (f, res)) :
    Supplied a (.op .main choice) := by
  intro quiet
  obtain ⟨q',op',mem,asked',ticked⟩ := returns
  rw [related.pcs,asked] at asked'
  obtain ⟨rfl,rfl⟩ := Prod.mk.inj (Option.some.inj asked')
  have finds (place : Send.QueueName) (peeks : q = .inr place ∧ op = .peek)
      (guarded : ∀ tail, s.loc .main = .tail tail → (s.mem (.inr place)).head ≠ (s.mem (.inr place)).tail) :
      (a.abs (.inr place)).items ≠ [] := by
    obtain ⟨rfl,rfl⟩ := peeks
    intro none'
    rcases Fifo.peek_cases specified with ⟨-,-,rfl⟩ | ⟨value,rest,items,-⟩
    · obtain ⟨tail,loc⟩ := peek_empty ticked
      have known := (related.rel (.inr place) trivial).empty_iff cfg.small
      exact guarded tail loc (known.mpr none')
    · rw [items] at none'
      cases none'
  rcases request_cases asked with ⟨q₁,rfl,asked₁⟩ | ⟨q₂,rfl,-,asked₂⟩
  · rw [quiet] at asked₁
    cases asked₁
  · cases pc : (a.pcs .main).2 with
    | peekReq sent =>
      rw [pc] at asked₂
      obtain ⟨rfl,rfl⟩ := Prod.mk.inj (Option.some.inj asked₂)
      refine finds .reqsFree ⟨rfl,rfl⟩ ?_
      intro tail loc
      simpa [supplied,related.pcs,pc,loc] using passed
    | peekBuf r sent =>
      rw [pc] at asked₂
      obtain ⟨rfl,rfl⟩ := Prod.mk.inj (Option.some.inj asked₂)
      refine finds .poolWrite ⟨rfl,rfl⟩ ?_
      intro tail loc
      simpa [supplied,related.pcs,pc,loc] using passed
    | _ => trivial

/-- Such runs are runs of the atomic queues. -/
theorem reachable_related {free : ListPtr Nat} {mem : Service.QueueName → Queue Nat}
    {readBlocks writeBlocks : Nat → Nat → UInt8} {s : Running} (roomy : cfg.bufferCount < 2 ^ cfg.bits)
    (ready : Service.SetUp cfg free mem)
    (reach : Transition.Reachable (step cfg)
      (fun s label => opensUnused s label = true ∧ supplied s label = true ∧ pushesApart s label = true)
      (initial cfg free readBlocks writeBlocks mem) s) :
    ∃ a, Transition.Reachable (atomic cfg) (fun a label => Exact a label ∧ Supplied a label)
        (atomicInitial cfg free readBlocks writeBlocks) a ∧
      Related (simulation (fun _ => cfg.bits) (fun _ => cfg.small)) (machine cfg) (fun _ => True) s a := by
  refine refines (fun a label => Exact a label ∧ Supplied a label) (setUp_related ready readBlocks writeBlocks)
    ?_ (fun s t allowed => pushes_exclusive allowed.2.2) ?_ ?_
    (fun _ _ _ _ _ _ _ _ _ _ outside => (outside trivial).elim) reach
  · intro a reached
    have following := reachable_following roomy ready.receive.list (reached.weaken fun _ _ guard => guard.1)
    exact known_safe (Service.reachable_known roomy ready.receive.list following.reached)
  · rintro s a b related ⟨unused,-⟩
    exact ⟨(opensUnused_exact related).mp unused,trivial⟩
  · rintro s a t choice res q op abs related ⟨-,supply,-⟩ returns asked specified
    refine ⟨trivial,?_⟩
    cases t with
    | main => exact supplied_stocked related supply returns asked specified
    | io => trivial

end Runs

/-- On every connection, the bytes handed to uv_write begin the bytes received from it. -/
def InStep (s : State) : Prop := ∀ h, Service.writtenOn h s.1.2.writes <+: s.1.1.received h

/-- The echo of every connection is in step in every run in which no channel id is reused,
every send finds a request and a buffer, and pushes to pool_read do not overlap. -/
theorem echoes_in_step (free : ListPtr Nat) (mem : Service.QueueName → Queue Nat)
    (ready : Service.SetUp serviceConfig free mem) (readBlocks writeBlocks : Nat → Nat → UInt8) (s : Running)
    (reach : Transition.Reachable (step serviceConfig)
      (fun s label => opensUnused s label = true ∧ supplied s label = true ∧ pushesApart s label = true)
      (initial serviceConfig free readBlocks writeBlocks mem) s) : InStep s.shared := by
  have roomy : serviceConfig.bufferCount < 2 ^ serviceConfig.bits := by decide
  obtain ⟨a,reached,related⟩ := reachable_related roomy ready reach
  have following := reachable_following roomy ready.receive.list (reached.weaken fun _ _ guard => guard.1)
  have known := Service.reachable_known roomy ready.receive.list following.reached
  rw [related.shared]
  exact (reachable_echoing roomy ready.receive.list reached).begins known

def echoStart : Running :=
  initial serviceConfig ⟨id,10000,10000⟩ (fun _ _ => 0) (fun _ _ => 0) Service.serviceStart.mem

def ofIo : SplitLabel Thread Receive.Act → SplitLabel Thread Act
  | .act a => .act (.io (.inl a))
  | .tick t => .tick t

/-- A connection sends a byte and the loop echoes it. -/
def echoRun : List (SplitLabel Thread Act) :=
  (Receive.connected ++ Receive.byteRead).map ofIo ++ .act .acquire :: List.replicate 5 (.tick .main) ++
    .act .handle :: .act .handle :: List.replicate 12 (.tick .main) ++ .act (.io (.inr .prep)) ::
    List.replicate 4 (.tick .io) ++ [.act (.io (.inr (.submit (.uvWrite 0 true))))]

theorem echoes_in_step_byte :
    ∃ s, Transition.execute (Transition.checked (step serviceConfig)
        (fun s label => opensUnused s label && (supplied s label && pushesApart s label))) echoRun echoStart =
          some s ∧
      s.shared.1.2.writes.length = 1 ∧ InStep s.shared := by
  have observed : (Transition.execute (Transition.checked (step serviceConfig)
      (fun s label => opensUnused s label && (supplied s label && pushesApart s label))) echoRun echoStart).map
        (fun s => s.shared.1.2.writes.length) = some 1 := by decide +kernel
  obtain ⟨s,run,written⟩ := Option.map_eq_some_iff.mp observed
  refine ⟨s,run,written,echoes_in_step _ _ Service.serviceStart_setUp _ _ s (.of_checked ?_ run)⟩
  intro s label passed
  simpa using passed

end Tcpeen.Echo
