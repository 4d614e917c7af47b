import Tcpeen.ServiceReplies

/-! What uv_write gets of the sends. The requests that wait have the last tickets, so the
sends before them are settled: written, or left out because their connection had ended. -/
namespace Tcpeen.Service

open SplitOperation QueueSpsc

/-- The bytes handed to uv_write on a handle. -/
def writtenOn (h : Nat) (writes : List Send.Write) : List UInt8 :=
  (writes.filter fun w => w.handle == h).flatMap (·.bytes)

/-- The bytes that were to be sent to a connection. -/
def bytesFor (h : Nat) (sends : List Send.Sent) : List UInt8 :=
  (sends.filter fun sent => sent.source == some h).flatMap (·.bytes)

theorem writtenOn_concat (h : Nat) (writes : List Send.Write) (w : Send.Write) :
    writtenOn h (writes ++ [w]) = writtenOn h writes ++ if w.handle = h then w.bytes else [] := by
  by_cases same : w.handle = h <;> simp [writtenOn,List.filter_append,same]

theorem bytesFor_append (h : Nat) (sends sends' : List Send.Sent) :
    bytesFor h (sends ++ sends') = bytesFor h sends ++ bytesFor h sends' := by
  simp [bytesFor,List.filter_append]

theorem bytesFor_concat (h : Nat) (sends : List Send.Sent) (sent : Send.Sent) :
    bytesFor h (sends ++ [sent]) = bytesFor h sends ++ if sent.source = some h then sent.bytes else [] := by
  by_cases same : sent.source = some h <;> simp [bytesFor,List.filter_append,same]

def tickets (v : Send.View) : List Nat := (Send.testing v.io ++ v.ready.items).map fun r => (v.s.reqs r).ticket

/-- The first `n` sends are settled. -/
structure Handed (ended : Nat → Prop) (v : Send.View) (n : Nat) : Prop where
  numbered : List.range n ++ tickets v = List.range v.s.sends.length
  written : ∀ h, writtenOn h v.s.writes = bytesFor h (v.s.sends.take n) ∨
    ended h ∧ writtenOn h v.s.writes <+: bytesFor h (v.s.sends.take n)

section Step

variable {cfg : Config} {ended : Nat → Prop} {v v' : Send.View} {n : Nat}

theorem Handed.within (handed : Handed ended v n) : n ≤ v.s.sends.length := by
  have length := congrArg List.length handed.numbered
  simp only [List.length_append,List.length_range] at length
  omega

/-- What reaches a connection is the beginning of what was sent to it. -/
theorem Handed.begins (handed : Handed ended v n) (h : Nat) :
    writtenOn h v.s.writes <+: bytesFor h v.s.sends := by
  have settled : bytesFor h (v.s.sends.take n) <+: bytesFor h v.s.sends := by
    conv => rhs; rw [← List.take_append_drop n v.s.sends,bytesFor_append]
    exact List.prefix_append ..
  rcases handed.written h with same | ⟨-,begins⟩
  · rw [same]
    exact settled
  · exact begins.trans settled

theorem Handed.mono (handed : Handed ended v n) {ended' : Nat → Prop}
    (later : ∀ sent ∈ v.s.sends, ∀ h, sent.source = some h → ended h → ended' h) : Handed ended' v n := by
  refine ⟨handed.numbered,?_⟩
  intro h
  rcases handed.written h with same | ⟨done,begins⟩
  · exact .inl same
  by_cases sends : ∃ sent ∈ v.s.sends.take n, sent.source = some h
  · obtain ⟨sent,member,source⟩ := sends
    exact .inr ⟨later sent (List.mem_of_mem_take member) h source done,begins⟩
  · have none' : bytesFor h (v.s.sends.take n) = [] := by
      rw [bytesFor,List.filter_eq_nil_iff.mpr ?_,List.flatMap_nil]
      intro sent member
      simpa using fun source => sends ⟨sent,member,source⟩
    rw [none'] at begins
    exact .inl (by rw [none',List.prefix_nil.mp begins])

theorem Handed.frame (handed : Handed ended v n) {main : Send.MainPc} {io : Send.IoPc} {s : Send.State}
    {pool free ready : Fifo Nat} (writes : s.writes = v.s.writes) (sends : s.sends = v.s.sends)
    (reqs : Send.testing io ++ ready.items = Send.testing v.io ++ v.ready.items)
    (same : ∀ r, (s.reqs r).ticket = (v.s.reqs r).ticket) : Handed ended ⟨main,io,s,pool,free,ready⟩ n := by
  constructor
  · simp only [tickets,reqs,same,sends]
    exact handed.numbered
  · simpa only [writes,sends] using handed.written

/-- A send gets the next ticket. -/
theorem Handed.push (handed : Handed ended v n) (owned : Send.Owned cfg v) {sent : Send.Sent} {r : Nat}
    (pc : v.main = .push r sent) :
    Handed ended { v with main := .popBuf, s := v.s.accept r sent
                          ready := { v.ready with items := v.ready.items ++ [r] } } n := by
  have free := owned.push_free pc
  have old : (Send.testing v.io ++ v.ready.items).map (fun x => ((v.s.accept r sent).reqs x).ticket) =
      tickets v := by
    apply List.map_congr_left
    intro x member
    have different := owned.apart free (by simp only [List.mem_append] at member ⊢; tauto)
    rw [show (v.s.accept r sent).reqs x = v.s.reqs x from Function.update_of_ne different ..]
  have new : ((v.s.accept r sent).reqs r).ticket = v.s.sends.length := by
    simp [Send.State.accept,Send.State.setReq]
  constructor
  · have last : tickets { v with main := .popBuf, s := v.s.accept r sent
                                 ready := { v.ready with items := v.ready.items ++ [r] } } =
        tickets v ++ [v.s.sends.length] := by
      rw [← old,← new,tickets,← List.append_assoc,List.map_append]
      rfl
    rw [last,← List.append_assoc,handed.numbered]
    simp [Send.State.accept,List.range_succ]
  · intro h
    have take : (v.s.accept r sent).sends.take n = v.s.sends.take n :=
      List.take_append_of_le_length handed.within
    simp only [take]
    exact handed.written h

/-- The request that is tested has the first ticket that is not settled. -/
theorem Handed.next (handed : Handed ended v n) {r : Nat} (pc : v.io = .prepTest r) :
    (v.s.reqs r).ticket = n ∧ n < v.s.sends.length ∧
      List.range (n + 1) ++ v.ready.items.map (fun x => (v.s.reqs x).ticket) = List.range v.s.sends.length := by
  have first := handed.numbered
  simp only [tickets,pc,Send.testing,List.cons_append,List.nil_append,List.map_cons] at first
  have length := congrArg List.length first
  simp only [List.length_append,List.length_range,List.length_cons] at length
  have at' := congrArg (·[n]?) first
  simp only [List.getElem?_append_right (List.length_range (n := n)).le,List.length_range,Nat.sub_self,
    List.getElem?_cons_zero,List.getElem?_range (show n < v.s.sends.length by omega),Option.some.injEq] at at'
  refine ⟨at',by omega,?_⟩
  rw [List.range_succ,List.append_assoc,← first,at']
  rfl

theorem Handed.submit (handed : Handed ended v n) (carried : Send.Carried v) {r h : Nat} {verdict : Send.Verdict}
    {x : Send.IoPc × Send.State} (pc : v.io = .prepTest r) (ran : Send.onPrep r verdict v.s = some x)
    {sent : Send.Sent} (told : v.s.sends[(v.s.reqs r).ticket]? = some sent) (source : sent.source = some h)
    (shut : verdict = .notOpen → ended h)
    (goes : ∀ handle ok, verdict = .uvWrite handle ok → handle = h ∧ ¬ ended h) :
    Handed ended { v with io := x.1, s := x.2 } (n + 1) := by
  obtain ⟨ticket,within,left⟩ := handed.next pc
  rw [ticket] at told
  have bytes : v.s.covered r = sent.bytes := by
    obtain ⟨own,told',-,-,covered⟩ := carried.carries r (by simp [pc,Send.testing])
    rw [ticket,told] at told'
    obtain rfl := Option.some.inj told'
    exact covered
  have settled (h' : Nat) : bytesFor h' (v.s.sends.take (n + 1)) =
      bytesFor h' (v.s.sends.take n) ++ if h = h' then sent.bytes else [] := by
    rw [List.take_add_one,told,Option.toList_some,bytesFor_concat,source]
    simp only [Option.some.injEq]
  have dropped (done : ended h) (h' : Nat) : writtenOn h' v.s.writes = bytesFor h' (v.s.sends.take (n + 1)) ∨
      ended h' ∧ writtenOn h' v.s.writes <+: bytesFor h' (v.s.sends.take (n + 1)) := by
    rw [settled]
    by_cases same : h = h'
    · subst same
      refine .inr ⟨done,List.IsPrefix.trans ?_ (List.prefix_append ..)⟩
      rcases handed.written h with equal | ⟨-,begins⟩
      · rw [equal]
      · exact begins
    · rw [if_neg same,List.append_nil]
      exact handed.written h'
  have logged (handle : Nat) (mine : handle = h) (alive : ¬ ended h) (h' : Nat) :
      writtenOn h' (v.s.log r handle).writes = bytesFor h' (v.s.sends.take (n + 1)) ∨
        ended h' ∧ writtenOn h' (v.s.log r handle).writes <+: bytesFor h' (v.s.sends.take (n + 1)) := by
    subst mine
    simp only [Send.State.log,writtenOn_concat,settled,bytes]
    by_cases same : handle = h'
    · subst same
      simp only [if_true]
      left
      rcases handed.written handle with equal | ⟨done,-⟩
      · rw [equal]
      · exact absurd done alive
    · simp only [if_neg same,List.append_nil]
      exact handed.written h'
  unfold Send.onPrep at ran
  split at ran
  · obtain ⟨b,-,rfl⟩ := Option.map_eq_some_iff.mp ran
    exact ⟨left,dropped (shut rfl)⟩
  · next handle =>
    obtain rfl := Option.some.inj ran
    obtain ⟨mine,alive⟩ := goes handle true rfl
    exact ⟨left,logged handle mine alive⟩
  · next handle =>
    obtain ⟨b,-,rfl⟩ := Option.map_eq_some_iff.mp ran
    obtain ⟨mine,alive⟩ := goes handle false rfl
    refine ⟨?_,logged handle mine alive⟩
    have same (x : Nat) : (((v.s.log r handle).dropBuffer r).reqs x).ticket = (v.s.reqs x).ticket :=
      Send.dropBuffer_ticket (v.s.log r handle) r x
    simp only [tickets,Send.testing,List.nil_append,same]
    exact left

/-- A step that is not the end of the test of a request. -/
theorem Handed.move (handed : Handed ended v n) (owned : Send.Owned cfg v) (move : Send.Move cfg v v')
    (other : ∀ r, v.io = .prepTest r → v'.io = v.io) : Handed ended v' n := by
  cases move with
  | send pc some' => exact handed.frame rfl rfl rfl fun _ => rfl
  | noReq pc none' => exact handed.frame rfl rfl rfl fun _ => rfl
  | peekReq pc items => exact handed.frame rfl rfl rfl (Send.dropBuffer_ticket v.s _)
  | noBuf pc none' => exact handed.frame rfl rfl rfl fun _ => rfl
  | @peekBuf r sent b rest pc items =>
    obtain ⟨writes,sends,-,-⟩ := Send.assemble_kept r b sent v.s
    exact handed.frame writes sends rfl (assemble_ticket r b sent v.s)
  | push pc room => exact handed.push owned pc
  | pushFull pc full => exact handed.frame rfl rfl rfl fun _ => rfl
  | popBuf pc => exact handed.frame rfl rfl rfl fun _ => rfl
  | popReq pc => exact handed.frame rfl rfl rfl fun _ => rfl
  | prep pc => exact handed.frame rfl rfl (by rw [pc]; rfl) fun _ => rfl
  | prepNone pc none' => exact handed.frame rfl rfl (by rw [pc]; rfl) fun _ => rfl
  | prepPop pc items => exact handed.frame rfl rfl (by rw [pc,items]; rfl) fun _ => rfl
  | @submit r verdict x pc ran =>
    have stays : x.1 = .prepTest r := (other r pc).trans pc
    unfold Send.onPrep at ran
    split at ran
    · obtain ⟨b,-,rfl⟩ := Option.map_eq_some_iff.mp ran
      cases stays
    · obtain rfl := Option.some.inj ran
      cases stays
    · obtain ⟨b,-,rfl⟩ := Option.map_eq_some_iff.mp ran
      cases stays
  | sent pc flying ran =>
    obtain ⟨b,-,rfl⟩ := Option.map_eq_some_iff.mp ran
    exact handed.frame rfl rfl (by rw [pc]; rfl) (Send.dropBuffer_ticket v.s _)
  | poolPush next pushed =>
    refine handed.frame rfl rfl ?_ fun _ => rfl
    cases pc : v.io <;> simp only [Send.returned,pc,reduceCtorEq,Option.some.injEq,Prod.mk.injEq] at next <;>
      obtain ⟨rfl,rfl⟩ := next <;> rfl
  | freePush next pushed =>
    refine handed.frame rfl rfl ?_ fun _ => rfl
    cases pc : v.io <;> simp only [Send.recycled,pc,reduceCtorEq,Option.some.injEq,Prod.mk.injEq] at next <;>
      obtain ⟨rfl,rfl⟩ := next <;> rfl

end Step

/-- The queue that a send looks at has an entry. -/
def Stocked (v : Send.View) : Send.MainPc → Prop
  | .peekReq _ => v.free.items ≠ []
  | .peekBuf .. => v.pool.items ≠ []
  | _ => True

/-- A send fits the buffers of the pool. -/
structure Fits (cfg : Config) (v : Send.View) : Prop where
  blocks : ∀ b, (v.s.buffers b).buf.capacity = cfg.maxRead
  short : ∀ sent ∈ asking v.main, sent.bytes.length ≤ cfg.maxRead

section Fits

variable {cfg : Config} {v v' : Send.View}

theorem Fits.assembles (fits : Fits cfg v) {r b : Nat} {sent : Send.Sent} (pc : v.main = .peekBuf r sent) :
    (Send.assemble r b sent v.s).1 = .push r sent := by
  have short := fits.short sent (by rw [pc]; exact List.mem_singleton_self _)
  have block := cfg.block
  have room : (v.s.buffers b).reset.buf.len + sent.bytes.length ≤ (v.s.buffers b).reset.buf.capacity := by
    change 0 + sent.bytes.length ≤ (v.s.buffers b).buf.capacity
    rw [fits.blocks b]
    omega
  have valid : (v.s.buffers b).reset.Valid := by
    refine ⟨rfl,Nat.zero_le _,?_⟩
    change (v.s.buffers b).buf.capacity < sizeHalf
    rw [fits.blocks b]
    exact block
  obtain ⟨written,wrote,-⟩ := valid.write sent.bytes room
  simp only [Send.assemble,wrote]

theorem Fits.move (fits : Fits cfg v) (move : Send.Move cfg v v')
    (begins : ∀ sent, v.main = .idle → v'.main = .peekReq sent → sent.bytes.length ≤ cfg.maxRead) :
    Fits cfg v' := by
  refine ⟨Send.Sized.move fits.blocks move,?_⟩
  cases move with
  | @send sent pc some' =>
    intro sent' member
    rw [List.mem_singleton.mp member]
    exact begins sent pc rfl
  | peekReq pc items =>
    have short := fits.short
    rwa [pc] at short
  | @peekBuf r sent b rest pc items =>
    have short := fits.short
    simp only [fits.assembles pc]
    rwa [pc] at short
  | submit pc ran => exact fits.short
  | sent pc flying ran => exact fits.short
  | prep pc => exact fits.short
  | prepNone pc none' => exact fits.short
  | prepPop pc items => exact fits.short
  | poolPush next pushed => exact fits.short
  | freePush next pushed => exact fits.short
  | _ => simp [asking]

/-- A send that finds a request and a buffer succeeds. -/
theorem Fits.calls (fits : Fits cfg v) (owned : Send.Owned cfg v) (roomy : cfg.bufferCount < 2 ^ cfg.bits)
    (move : Send.Move cfg v v') (stocked : v'.main ≠ v.main → Stocked v v.main) :
    v'.s.sends ++ asking v'.main = v.s.sends ++ asking v.main ∨
      ∃ sent, v.main = .idle ∧ v'.main = .peekReq sent ∧ v'.s.sends = v.s.sends := by
  cases move with
  | @send sent pc some' => exact .inr ⟨sent,pc,rfl,rfl⟩
  | noReq pc none' =>
    rw [pc] at stocked
    exact absurd none' (stocked (by simp))
  | noBuf pc none' =>
    rw [pc] at stocked
    exact absurd none' (stocked (by simp))
  | pushFull pc full =>
    have room := owned.ready_room pc
    omega
  | peekReq pc items =>
    left
    rw [pc]
    rfl
  | @peekBuf r sent b rest pc items =>
    left
    simp only [fits.assembles pc,(Send.assemble_kept r b sent v.s).2.1]
    rw [pc]
    rfl
  | push pc room =>
    left
    rw [pc]
    exact List.append_nil _
  | popBuf pc =>
    left
    rw [pc]
    rfl
  | popReq pc =>
    left
    rw [pc]
    rfl
  | submit pc ran =>
    left
    simp only [(Send.onPrep_kept ran).1]
  | sent pc flying ran =>
    obtain ⟨b,-,rfl⟩ := Option.map_eq_some_iff.mp ran
    exact .inl rfl
  | _ => exact .inl rfl

end Fits

end Tcpeen.Service
