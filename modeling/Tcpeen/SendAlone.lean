import Tcpeen.QueueSpscAlone
import Tcpeen.SendCall
import Tcpeen.SendTraces

/-! A call of `tcp_service_send` in a run, while the IO thread stands still: it does what the
call as one function does, and if it fails then no later step of either thread can tell. -/
namespace Tcpeen.Send

open SplitOperation QueueSpsc

section Alone

variable {cfg : Config} {s : Running} {w : WriteSide}

/-- Only the main thread moves, inside its call. -/
abbrev Calling : Running → Running → Prop := Transition.Reachable step fun _ label => label = .tick .main

/-- The main thread is here, and about to enter a call on a queue or outside. -/
structure Stage (s : Running) (pc : MainPc) (shared : State) (mem : QueueName → Queue Nat) : Prop where
  main : s.pcs .main = pc
  loc : s.loc .main = .entry
  shared : s.shared = shared
  mem : s.mem = mem

theorem Stage.call {pc : MainPc} {shared : State} {mem : QueueName → Queue Nat} {q : QueueName} {op : Op Nat}
    {fuel : Nat} {mem' : Queue Nat} {res : Res Nat} (stage : Stage s pc shared mem)
    (asked : machine.request .main pc = some (q, op)) (ran : callAlone op (mem q) fuel .entry = (mem', some res)) :
    ∃ t, Calling s t ∧ Stage t (resumeMain pc res shared).1 (resumeMain pc res shared).2
      (Function.update mem q mem') := by
  obtain ⟨rfl,loc,rfl,rfl⟩ := stage
  rw [← loc] at ran
  obtain ⟨t,run,main,shared,mem,entry⟩ := call_runs asked ran
  exact ⟨t,run,main,entry,shared,mem⟩

theorem numbered_update {reqs reqs' : Nat → WriteReq} (same : ∀ r, (reqs r).numbered (reqs' r).ticket = reqs' r)
    (r : Nat) {req req' : WriteReq} (here : req.numbered req'.ticket = req') (x : Nat) :
    (Function.update reqs r req x).numbered (Function.update reqs' r req' x).ticket =
      Function.update reqs' r req' x := by
  by_cases this : x = r
  · subst this
    simpa using here
  · simpa [Function.update_of_ne this] using same x

theorem send_begins {sent : Sent} (main : s.pcs .main = .idle) (some' : sent.bytes ≠ []) :
    step s (.act (.send sent)) = some { s with pcs := Function.update s.pcs .main (.peekReq sent) } := by
  have quiet : machine.request .main (s.pcs .main) = none := by rw [main]; rfl
  have begun : machine.act (.send sent) (s.pcs .main) s.shared = some (.peekReq sent, s.shared) := by
    rw [main]
    simp [machine,act,some']
  have quiet' : machine.request (machine.actor (.send sent)) (s.pcs (machine.actor (.send sent))) = none := quiet
  have begun' : machine.act (.send sent) (s.pcs (machine.actor (.send sent))) s.shared =
      some (.peekReq sent, s.shared) := begun
  simp only [step,splitStep,quiet',begun',Option.map_some]
  rfl

/-- A failed call leaves cached indexes, and traces in the oldest free request and block. -/
structure Leaves (w : WriteSide) (s s' : Running) : Prop where
  rings : ∀ q, Recached (s.mem q) (s'.mem q)
  shared : Similar
    (fun r => w.writeReqsFree.head ≠ w.writeReqsFree.tail ∧ r = oldest w.writeReqsFree)
    (fun b => w.poolWrite.tnBuffersFree.head ≠ w.poolWrite.tnBuffersFree.tail ∧
      b = oldest w.poolWrite.tnBuffersFree) s.shared s'.shared

/-- A call that goes on alone from here ends with this side. It counts as a send if it succeeds,
and leaves what no step reads if it fails. -/
def Ends (cfg : Config) (w : WriteSide) (s : Running) (sent : Sent) (call : WriteSide × Status) : Prop :=
  ∃ s', Calling s s' ∧ s'.pcs .main = .idle ∧ Shows cfg s' call.1 ∧
    s'.shared.sends = (if call.2 = .success then s.shared.sends ++ [sent] else s.shared.sends) ∧
    (call.2 ≠ .success → Leaves w s s')

variable {sent : Sent}

theorem recached_looked {mem : QueueName → Queue Nat} (q : QueueName) (rings : ∀ q, Recached (s.mem q) (mem q))
    (x : QueueName) : Recached (s.mem x) (Function.update mem q (looked (s.mem q)) x) := by
  by_cases here : x = q
  · subst here
    exact ⟨_,Function.update_self ..⟩
  · rw [Function.update_of_ne here]
    exact rings x

theorem Shows.noReq (shows' : Shows cfg s w) (stage : Stage s (.peekReq sent) s.shared s.mem)
    (drained : w.writeReqsFree.head = w.writeReqsFree.tail) : Ends cfg w s sent (w, .noReq) := by
  rw [shows'.free] at drained
  obtain ⟨t,run,main,-,shared,mem⟩ := stage.call rfl (peek_drained drained)
  rw [Function.update_eq_self] at mem
  refine ⟨t,run,main,?_,by simp [shared,resumeMain],fun _ => ⟨fun q => ⟨_,by rw [mem]⟩,?_⟩⟩
  rotate_left
  · rw [shared]
    exact .refl ..
  refine ⟨?_,?_,?_,?_,?_,shows'.blockSize⟩
  · simpa [shared,resumeMain] using shows'.reqs
  · simpa [mem] using shows'.free
  · simpa [mem] using shows'.ready
  · simpa [mem] using shows'.pool
  · simpa [shared,resumeMain] using shows'.buffers

theorem Shows.refuses (shows' : Shows cfg s w) (stage : Stage s (.peekReq sent) s.shared s.mem)
    (filled : w.writeReqsFree.head ≠ w.writeReqsFree.tail)
    (drained : w.poolWrite.tnBuffersFree.head = w.poolWrite.tnBuffersFree.tail) :
    Ends cfg w s sent (w.refused, .noBuf) := by
  have filled' := filled
  rw [shows'.free] at filled
  rw [shows'.pool] at drained
  obtain ⟨t,run,looks⟩ := stage.call rfl (peek_filled filled)
  obtain ⟨u,run',main,-,shared,mem⟩ := looks.call rfl (peek_drained drained)
  rw [Function.update_eq_self,← shows'.free] at mem
  rw [← shows'.free] at shared
  refine ⟨u,.trans run run',main,?_,by simp [shared,resumeMain,State.dropBuffer,State.setReq],fun _ => ⟨?_,?_⟩⟩
  · refine ⟨?_,?_,?_,?_,?_,shows'.blockSize⟩
    · rw [shared]
      exact numbered_update shows'.reqs _ (by simp [WriteReq.numbered,shows'.req])
    · simp [mem,WriteSide.refused,WriteSide.setReq]
    · simp [mem,WriteSide.refused,WriteSide.setReq,shows'.ready]
    · simp [mem,WriteSide.refused,WriteSide.setReq,shows'.pool]
    · rw [shared]
      exact shows'.buffers
  · rw [mem,shows'.free]
    exact recached_looked .reqsFree fun _ => ⟨_,rfl⟩
  · rw [shared]
    exact (Similar.refl _ _ s.shared).mark ⟨filled',rfl⟩ none

theorem Shows.offers (shows' : Shows cfg s w) (stage : Stage s (.peekReq sent) s.shared s.mem)
    (filled : w.writeReqsFree.head ≠ w.writeReqsFree.tail)
    (stocked : w.poolWrite.tnBuffersFree.head ≠ w.poolWrite.tnBuffersFree.tail) :
    ∃ t, Calling s t ∧ Stage t
      (assemble (oldest w.writeReqsFree) (oldest w.poolWrite.tnBuffersFree) sent
        (s.shared.dropBuffer (oldest w.writeReqsFree))).1
      (assemble (oldest w.writeReqsFree) (oldest w.poolWrite.tnBuffersFree) sent
        (s.shared.dropBuffer (oldest w.writeReqsFree))).2
      (Function.update (Function.update s.mem .reqsFree (looked w.writeReqsFree)) .poolWrite
        (looked w.poolWrite.tnBuffersFree)) := by
  rw [shows'.free] at filled ⊢
  rw [shows'.pool] at stocked ⊢
  obtain ⟨t,run,looks⟩ := stage.call rfl (peek_filled filled)
  obtain ⟨u,run',offered⟩ := looks.call rfl (peek_filled (q := s.mem .poolWrite) stocked)
  exact ⟨u,.trans run run',offered⟩

theorem Shows.long (shows' : Shows cfg s w) (stage : Stage s (.peekReq sent) s.shared s.mem)
    (filled : w.writeReqsFree.head ≠ w.writeReqsFree.tail)
    (stocked : w.poolWrite.tnBuffersFree.head ≠ w.poolWrite.tnBuffersFree.tail)
    (long : (w.poolWrite.tnBuffers (oldest w.poolWrite.tnBuffersFree)).buffer.reset.write sent.bytes = none) :
    Ends cfg w s sent (w.offered, .noBuf) := by
  obtain ⟨t,run,ended⟩ := shows'.offers stage filled stocked
  have long' : ((s.shared.dropBuffer (oldest w.writeReqsFree)).buffers
      (oldest w.poolWrite.tnBuffersFree)).reset.write sent.bytes = none := by
    rw [shows'.buffers] at long
    exact long
  simp only [assemble,long'] at ended
  obtain ⟨main,-,shared,mem⟩ := ended
  refine ⟨t,run,main,?_,by simp [shared,State.dropBuffer,State.setReq,State.setBuffer],fun _ => ⟨?_,?_⟩⟩
  rotate_left
  · rw [mem,shows'.free,shows'.pool]
    exact recached_looked .poolWrite (recached_looked .reqsFree fun _ => ⟨_,rfl⟩)
  · rw [shared]
    refine Similar.resetBlock (b := oldest w.poolWrite.tnBuffersFree) ?_ ⟨stocked,rfl⟩
    refine Similar.mark ?_ ⟨filled,rfl⟩ (some _)
    exact Similar.mark (.refl ..) ⟨filled,rfl⟩ none
  refine ⟨?_,?_,?_,?_,?_,shows'.blockSize⟩
  · rw [shared]
    simp only [State.setBuffer,State.setReq,State.dropBuffer,Function.update_self,Function.update_idem]
    exact numbered_update shows'.reqs _ (by simp [WriteReq.numbered,shows'.req])
  · simp [mem,WriteSide.offered,WriteSide.setReq]
  · simp [mem,WriteSide.offered,WriteSide.setReq,shows'.ready]
  · simp [mem,WriteSide.offered,WriteSide.setReq,BufferPool.resetBuffer,BufferPool.setBuffer]
  · intro b
    rw [shared]
    by_cases here : b = oldest w.poolWrite.tnBuffersFree
    · subst here
      rw [offered_block,shows'.buffers]
      simp [State.setBuffer,State.setReq,State.dropBuffer]
    · simpa [WriteSide.offered,WriteSide.setReq,BufferPool.resetBuffer,BufferPool.setBuffer,State.setBuffer,
        State.setReq,State.dropBuffer,Function.update_of_ne here] using shows'.buffers b

theorem Shows.sends (shows' : Shows cfg s w) (stage : Stage s (.peekReq sent) s.shared s.mem)
    (filled : w.writeReqsFree.head ≠ w.writeReqsFree.tail)
    (stocked : w.poolWrite.tnBuffersFree.head ≠ w.poolWrite.tnBuffersFree.tail) {buffer : Buffer}
    (wrote : (w.poolWrite.tnBuffers (oldest w.poolWrite.tnBuffersFree)).buffer.reset.write sent.bytes = some buffer)
    {q : Queue Nat}
    (pushed : callAlone (.push (oldest w.writeReqsFree)) w.writeReqsReady 4 .entry = (q, some (.success []))) :
    Ends cfg w s sent (w.sent sent.channel buffer q, .success) := by
  obtain ⟨t,offers,assembled⟩ := shows'.offers stage filled stocked
  have wrote' : ((s.shared.dropBuffer (oldest w.writeReqsFree)).buffers
      (oldest w.poolWrite.tnBuffersFree)).reset.write sent.bytes = some buffer := by
    rw [shows'.buffers] at wrote
    exact wrote
  simp only [assemble,wrote'] at assembled
  rw [shows'.ready] at pushed
  obtain ⟨u,publishes,published⟩ := assembled.call rfl pushed
  obtain ⟨x,pops,popped⟩ := published.call rfl (tnQueueSpscPopCached_alone _)
  obtain ⟨y,ends,ended⟩ := popped.call rfl (tnQueueSpscPopCached_alone _)
  refine ⟨y,.trans offers (.trans publishes (.trans pops ends)),ended.main,?_,?_⟩
  · obtain ⟨-,-,shared,mem⟩ := ended
    refine ⟨?_,?_,?_,?_,?_,shows'.blockSize⟩
    · rw [shared]
      simp only [resumeMain,State.accept,State.setBuffer,State.setReq,State.dropBuffer,WriteSide.sent,
        WriteSide.offered,WriteSide.setReq,Function.update_self,Function.update_idem]
      exact numbered_update shows'.reqs _ (by simp [WriteReq.numbered])
    · simp [mem,WriteSide.sent,WriteSide.offered,WriteSide.setReq]
    · simp [mem,WriteSide.sent]
    · simp [mem,WriteSide.sent,WriteSide.offered,WriteSide.setReq,BufferPool.setBuffer,BufferPool.resetBuffer,
        BufferPool.popCached,BufferPool.taken,tnQueueSpscPopCached_alone]
    · intro b
      rw [shared]
      by_cases here : b = oldest w.poolWrite.tnBuffersFree
      · subst here
        simp [WriteSide.sent,BufferPool.setBuffer,BufferPool.popCached,BufferPool.taken,resumeMain,State.accept,
          State.setBuffer,State.setReq]
      · simpa [WriteSide.sent,WriteSide.offered,WriteSide.setReq,BufferPool.setBuffer,BufferPool.resetBuffer,
          BufferPool.popCached,BufferPool.taken,resumeMain,State.accept,State.setBuffer,State.setReq,
          State.dropBuffer,Function.update_of_ne here] using shows'.buffers b
  · simp [ended.shared,resumeMain,State.accept,State.setBuffer,State.setReq,State.dropBuffer]

theorem Shows.ends (shows' : Shows cfg s w) (stage : Stage s (.peekReq sent) s.shared s.mem)
    {call : WriteSide × Status} (course : Course w sent.channel sent.bytes call) : Ends cfg w s sent call := by
  cases course with
  | noReq drained => exact shows'.noReq stage drained
  | refused filled drained => exact shows'.refuses stage filled drained
  | long filled stocked long => exact shows'.long stage filled stocked long
  | sent buffer q filled stocked wrote pushed => exact shows'.sends stage filled stocked wrote pushed

/-- The other thread stands still. -/
theorem calling_io {t : Running} (run : Calling s t) : t.pcs .io = s.pcs .io ∧ t.loc .io = s.loc .io := by
  refine run.invariant (fun t => t.pcs .io = s.pcs .io ∧ t.loc .io = s.loc .io) ⟨rfl,rfl⟩ ?_
  rintro u label t ⟨pcs,loc⟩ rfl taken
  obtain ⟨q,op,mem,-,⟨loc',-,rfl⟩ | ⟨res,-,rfl⟩⟩ := splitStep_tick_cases taken
  · exact ⟨pcs,by simpa using loc⟩
  · exact ⟨by simpa using pcs,by simpa using loc⟩

/-- The call in a run, from its first step. -/
theorem Shows.performs (shows' : Shows cfg s w) (sent : Sent) (main : s.pcs .main = .idle) (loc : s.loc .main = .entry)
    (some' : sent.bytes ≠ []) {call : WriteSide × Status} (course : Course w sent.channel sent.bytes call) :
    ∃ s₁ s', step s (.act (.send sent)) = some s₁ ∧ Calling s₁ s' ∧ s'.pcs .main = .idle ∧
      s'.pcs .io = s.pcs .io ∧ s'.loc .io = s.loc .io ∧ Shows cfg s' call.1 ∧
      s'.shared.sends = (if call.2 = .success then s.shared.sends ++ [sent] else s.shared.sends) ∧
      (call.2 ≠ .success → Leaves w s s') := by
  have begun := send_begins main some'
  have shown : Shows cfg { s with pcs := Function.update s.pcs .main (.peekReq sent) } w :=
    ⟨shows'.reqs,shows'.free,shows'.ready,shows'.pool,shows'.buffers,shows'.blockSize⟩
  obtain ⟨s',run,idle',shows'',sends,leaves⟩ := shown.ends ⟨by simp,loc,rfl,rfl⟩ course
  obtain ⟨pcs,loc'⟩ := calling_io run
  refine ⟨_,s',begun,run,idle',?_,loc',shows'',sends,fun failed => ⟨(leaves failed).rings,(leaves failed).shared⟩⟩
  rw [pcs]
  simp

/-- What a failed call leaves, no step can tell. -/
theorem Leaves.alike {t : Running} {a : Abstract} (leaves : Leaves w s t) (shows' : Shows cfg s w)
    (related : Represented cfg s a) (owned : Owned cfg (view a)) (carried : Carried (view a))
    (main : s.pcs .main = .idle) (pcs : t.pcs = s.pcs) (loc : t.loc = s.loc) : Alike (view a) s t := by
  have main' : (view a).main = .idle := by rw [← main,related.pcs]; rfl
  refine ⟨pcs,loc,leaves.rings,?_,leaves.shared.mono ?_ ?_⟩
  · intro q inside
    rw [main'] at inside
    exact absurd inside List.not_mem_nil
  · rintro r ⟨filled,rfl⟩
    rw [shows'.free] at filled ⊢
    obtain ⟨-,absent,hand⟩ := owned.free_only (oldest_free related main filled)
    rw [List.mem_append,not_or] at absent
    exact ⟨absent.1,absent.2,hand,by simp [main',holding]⟩
  · rintro b ⟨stocked,rfl⟩
    rw [shows'.pool] at stocked ⊢
    intro r member
    refine oldest_apart related owned carried main stocked ?_
    simp only [main',pushing,List.append_nil,List.mem_append] at member ⊢
    tauto

end Alone

/-- `tcp_service_send` between two calls of any run, while the IO thread stands still: it
succeeds if and only if there are a free request and a free block that the bytes fit, and then
appends that one request with these bytes and this channel; otherwise it moves nothing, and
neither the next call nor any later step of either thread can tell that it was made. The run of
the call step by step ends with the same side. -/
theorem send_all_or_nothing (mem : QueueName → Queue Nat) (ready : SetUp serviceConfig mem)
    (blocks : Nat → Nat → UInt8) (s : Running)
    (reach : Transition.Reachable step (fun _ _ => True) (initial serviceConfig blocks mem) s)
    (main : s.pcs .main = .idle) (w : WriteSide) (shows' : Shows serviceConfig s w) (channel : Nat)
    (sndbuf : List UInt8) (some' : sndbuf ≠ []) (source : Option Nat) :
    let call := tcpServiceSend w channel sndbuf
    (call.2 = .success ↔ Accepts w sndbuf) ∧
    (call.2 = .success → ∃ r b, Published w call.1 channel sndbuf r b) ∧
    (call.2 ≠ .success → Untouched w call.1 ∧
      ∀ channel' sndbuf', tcpServiceSend call.1 channel' sndbuf' = tcpServiceSend w channel' sndbuf') ∧
    ∃ s₁ s', step s (.act (.send ⟨channel,sndbuf,source⟩)) = some s₁ ∧ Calling s₁ s' ∧
      s'.pcs .main = .idle ∧ Shows serviceConfig s' call.1 ∧
      (call.2 ≠ .success → ∀ later,
        (Transition.execute step later s').map observe = (Transition.execute step later s).map observe) := by
  intro call
  have roomy : serviceConfig.bufferCount < 2 ^ serviceConfig.bits := by decide
  obtain ⟨a,reached,related⟩ := reachable_related roomy ready reach
  have owned := reachable_owned roomy reached
  have carried := reachable_carried roomy reached
  have sound := shows'.sound owned carried (reachable_sized reached) roomy related main
  have loc : s.loc .main = .entry := related.outside .main (by rw [main]; rfl)
  have course : Course w channel sndbuf call := sound.course serviceConfig.small channel sndbuf
  have outcome := sound.outcome serviceConfig.small channel sndbuf
  refine ⟨?_,?_,?_,?_⟩
  · rcases outcome with ⟨accepts,success,-⟩ | ⟨refuses,failed,-⟩
    · exact ⟨fun _ => accepts,fun _ => success⟩
    · exact ⟨fun success => absurd success failed,fun accepts => absurd accepts refuses⟩
  · intro success
    rcases outcome with ⟨-,-,published⟩ | ⟨-,failed,-⟩
    · exact published
    · exact absurd success failed
  · intro failed
    rcases outcome with ⟨-,success,-⟩ | ⟨-,-,untouched⟩
    · exact absurd success failed
    · refine ⟨untouched,send_again channel sndbuf (fun filled => ?_) failed⟩
      rw [ne_eq,sound.ring.full_iff serviceConfig.small]
      exact Nat.ne_of_lt (sound.room filled).1
  · obtain ⟨s₁,s',begun,run,idle',io,locIo,shows'',-,leaves⟩ :=
      shows'.performs ⟨channel,sndbuf,source⟩ main loc some' course
    have reach' := (reach.step trivial begun).trans (run.weaken fun _ _ _ => trivial)
    obtain ⟨a',-,related'⟩ := reachable_related roomy ready reach'
    have loc' : s'.loc .main = .entry := related'.outside .main (by rw [idle']; rfl)
    have pcs : s'.pcs = s.pcs := by
      funext t
      cases t with
      | main => exact idle'.trans main.symm
      | io => exact io
    have locs : s'.loc = s.loc := by
      funext t
      cases t with
      | main => exact loc'.trans loc.symm
      | io => exact locIo
    exact ⟨s₁,s',begun,run,idle',shows'',fun failed =>
      ((leaves failed).alike shows' related owned carried main pcs locs).runs related roomy reached⟩

/-- The write side of a state, with a pool for the counters and the layout. -/
def Running.side (s : Running) (pool : BufferPool) : WriteSide where
  writeReqs := s.shared.reqs
  writeReqsFree := s.mem .reqsFree
  writeReqsReady := s.mem .reqsReady
  poolWrite := { pool with tnBuffersFree := s.mem .poolWrite
                           tnBuffers := fun b => { pool.tnBuffers b with buffer := s.shared.buffers b } }

theorem side_shows {cfg : Config} (s : Running) {pool : BufferPool} (size : pool.blockSize.toNat = cfg.maxRead) :
    Shows cfg s (s.side pool) :=
  ⟨fun _ => rfl,rfl,rfl,rfl,fun _ => rfl,size⟩

/-- The pool of the service with two blocks handed out. -/
def usedPool : BufferPool where
  blocksInuse := 2
  bytesInuse := 2 * 65535
  blockSize := 65535
  blockCount := 40000
  tnBuffers := fun i => ⟨(40000 - 1 - BitVec.ofNat 64 i) * 65535, true, Buffer.setup (fun _ => 0) 65535⟩
  tnBuffersFree := countedQueue 16 40000

/-- One byte more than a block has. -/
def oversized : List UInt8 := List.replicate 65536 0

theorem oversized_length : oversized.length = 65536 := List.length_replicate

/-- With a send in flight and another one waiting, one byte is taken and 65536 are refused. -/
theorem send_all_or_nothing_flying :
    ∃ s, Transition.execute step inFlightRun serviceStart = some s ∧
      (tcpServiceSend (s.side usedPool) 7 [5]).2 = .success ∧
      (∃ r b, Published (s.side usedPool) (tcpServiceSend (s.side usedPool) 7 [5]).1 7 [5] r b) ∧
      Untouched (s.side usedPool) (tcpServiceSend (s.side usedPool) 7 oversized).1 := by
  have observed : (Transition.execute step inFlightRun serviceStart).map (fun s => (s.pcs .main,
      decide ((s.mem .reqsFree).head = (s.mem .reqsFree).tail),
      decide ((s.mem .poolWrite).head = (s.mem .poolWrite).tail))) = some (.idle,false,false) := by decide +kernel
  obtain ⟨s,run,seen⟩ := Option.map_eq_some_iff.mp observed
  simp only [Prod.mk.injEq,decide_eq_false_iff_not] at seen
  obtain ⟨main,filled,stocked⟩ := seen
  have reach : Transition.Reachable step (fun _ _ => True) serviceStart s := .of_execute (fun _ _ _ => trivial) run
  have size : usedPool.blockSize.toNat = 65535 := by decide
  have shown : Shows serviceConfig s (s.side usedPool) := side_shows s size
  have some' : oversized ≠ [] := List.ne_nil_of_length_pos (by rw [oversized_length]; decide)
  have short := send_all_or_nothing _ serviceStart_setUp _ s reach main _ shown 7 [5] (by simp) none
  have long := send_all_or_nothing _ serviceStart_setUp _ s reach main _ shown 7 oversized some' none
  have accepts : Accepts (s.side usedPool) [5] := by
    refine ⟨by rwa [ne_eq,contents_nil_iff],by rwa [ne_eq,contents_nil_iff],?_⟩
    change 1 ≤ usedPool.blockSize.toNat
    omega
  have success := short.1.mpr accepts
  refine ⟨s,run,success,short.2.1 success,(long.2.2.1 fun taken => ?_).1⟩
  have fits : oversized.length ≤ usedPool.blockSize.toNat := (long.1.mp taken).2.2
  rw [oversized_length] at fits
  omega

end Tcpeen.Send
