import Tcpeen.TcpservMemory

/-! What the echo server of tcpserv.c sends back, in every order of the callbacks. -/
namespace Tcpeen.Tcpserv

open Ownership

/-- The bytes of a log for one handle. -/
def bytesOn (handle : Nat) (log : List (Nat × List UInt8)) : List UInt8 :=
  log.flatMap fun x => if x.1 = handle then x.2 else []

def State.received (s : State) (handle : Nat) : List UInt8 := bytesOn handle s.reads

def State.wire (s : State) (handle : Nat) : List UInt8 := bytesOn handle s.wired

def Flying.message (r : Flying) : Nat × List UInt8 := (r.handle, r.data.take r.len)

/-- What TCP did not take yet of a request, and takes unless the request fails. -/
def Flying.rest (handle : Nat) (r : Flying) : List UInt8 :=
  if r.handle = handle ∧ r.failed = false then (r.data.take r.len).drop r.sent else []

def State.pending (s : State) (handle : Nat) : List UInt8 := s.flying.flatMap (Flying.rest handle)

/-- A connection that is not closed. -/
def State.openOn (s : State) (handle : Nat) : Prop := ∃ c ∈ s.clients, c.handle = handle ∧ c.closing = false

def total (log : List (Nat × List UInt8)) : Nat := (log.flatMap fun x => x.2).length

/-- What the run keeps of the bytes: in order on every handle, nothing missing in the middle where no
request failed, nothing missing at all where the connection is open; and the counters count them. -/
structure Streams (s : State) : Prop where
  sizes : ∀ r ∈ s.flying, r.sent ≤ r.len ∧ r.len ≤ r.data.length
  given : ∀ x ∈ s.reads, x.1 < s.heap.next
  inOrder : ∀ handle, (s.wire handle ++ s.pending handle).Sublist (s.received handle)
  whole : ∀ handle, handle ∉ s.lost → ∃ dropped,
    s.received handle = s.wire handle ++ s.pending handle ++ dropped ∧ (s.openOn handle → dropped = [])
  reads : s.recvMsgs = UInt64.ofNat s.reads.length ∧ s.recvBytes = UInt64.ofNat (total s.reads)
  sends : s.sendMsgs = UInt64.ofNat s.done.length ∧ s.sendBytes = UInt64.ofNat (total s.done)
  answered : (s.done ++ s.flying.map Flying.message).Subperm s.reads

section Logs

variable {log : List (Nat × List UInt8)} {handle handle' : Nat} {bs : List UInt8}

theorem bytesOn_own : bytesOn handle (log ++ [(handle, bs)]) = bytesOn handle log ++ bs := by
  simp [bytesOn]

theorem bytesOn_other (apart : handle' ≠ handle) : bytesOn handle (log ++ [(handle', bs)]) = bytesOn handle log := by
  simp [bytesOn,apart]

theorem bytesOn_fresh (fresh : ∀ x ∈ log, x.1 ≠ handle) : bytesOn handle log = [] :=
  List.flatMap_eq_nil_iff.mpr fun x member => if_neg (fresh x member)

theorem total_concat : total (log ++ [(handle, bs)]) = total log + bs.length := by
  simp [total]

end Logs

section Steps

variable {s t : State}

/-- A step that moves no byte, and opens no connection. -/
theorem Streams.quiet (streams : Streams s) (flying : t.flying = s.flying) (later : s.heap.next ≤ t.heap.next)
    (reads : t.reads = s.reads) (wired : t.wired = s.wired) (done : t.done = s.done) (lost : t.lost = s.lost)
    (counts : t.recvMsgs = s.recvMsgs ∧ t.recvBytes = s.recvBytes ∧ t.sendMsgs = s.sendMsgs ∧ t.sendBytes = s.sendBytes)
    (opens : ∀ handle, t.openOn handle → s.openOn handle ∨ ∀ x ∈ s.reads, x.1 ≠ handle) : Streams t := by
  obtain ⟨sizes,given,inOrder,whole,recv,send,answered⟩ := streams
  obtain ⟨recvMsgs,recvBytes,sendMsgs,sendBytes⟩ := counts
  refine ⟨flying ▸ sizes,fun x member => Nat.lt_of_lt_of_le (given x (reads ▸ member)) later,fun handle => ?_,
    fun handle sound => ?_,?_,?_,?_⟩
  · simpa only [State.wire,State.pending,State.received,flying,reads,wired] using inOrder handle
  · obtain ⟨dropped,split,none'⟩ := whole handle (lost ▸ sound)
    refine ⟨dropped,?_,fun opened => ?_⟩
    · simpa only [State.wire,State.pending,State.received,flying,reads,wired] using split
    · rcases opens handle opened with before | fresh
      · exact none' before
      · have nothing : s.received handle = [] := bytesOn_fresh fresh
        rw [nothing] at split
        have all : s.wire handle = [] ∧ s.pending handle = [] ∧ dropped = [] := by simpa using split.symm
        exact all.2.2
  · rw [recvMsgs,recvBytes,reads]
    exact recv
  · rw [sendMsgs,sendBytes,done]
    exact send
  · rw [done,flying,reads]
    exact answered

theorem Held.handles {more : List (Nat × Block)} (held : Held more s) : (s.clients.map Client.handle).Nodup := by
  have part (l : List Client) : (l.map Client.handle).Sublist ((l.flatMap Client.cells).map Prod.fst) := by
    induction l with
    | nil => exact .slnil
    | cons c l ih =>
      rw [List.map_cons,List.flatMap_cons,List.map_append,Client.cells,List.map_cons,List.cons_append]
      exact (List.sublist_append_of_sublist_right ih).cons_cons c.handle
  have all : ((more ++ (s.clients.flatMap Client.cells ++ s.flying.flatMap Flying.cells)).map Prod.fst).Nodup := held.apart
  simp only [List.map_append] at all
  exact (part s.clients).nodup (List.nodup_append.mp (List.nodup_append.mp all).2.1).1

/-- The one connection with a handle is closed. -/
theorem closed_alone {i : Nat} {c d : Client} (apart : (s.clients.map Client.handle).Nodup)
    (found : s.clients[i]? = some c) (closing : d.closing = true) :
    ¬ ∃ x ∈ s.clients.set i d, x.handle = c.handle ∧ x.closing = false := by
  obtain ⟨front,back,whole,-,set,-⟩ := cut_at found
  rintro ⟨x,member,named,still⟩
  rw [whole,List.map_append,List.map_cons] at apart
  obtain ⟨-,behind,across⟩ := List.nodup_append.mp apart
  rw [set] at member
  rcases List.mem_append.mp member with before | here
  · exact across _ (List.mem_map_of_mem before) _ List.mem_cons_self named
  · rcases List.mem_cons.mp here with rfl | after
    · rw [closing] at still
      cases still
    · exact (List.nodup_cons.mp behind).1 (named ▸ List.mem_map_of_mem after)

theorem opens_set {i : Nat} {c d : Client} (found : s.clients[i]? = some c) (same : d.handle = c.handle)
    (narrow : d.closing = false → c.closing = false) {handle : Nat}
    (opened : ∃ x ∈ s.clients.set i d, x.handle = handle ∧ x.closing = false) : s.openOn handle := by
  obtain ⟨x,member,named,still⟩ := opened
  rcases List.mem_or_eq_of_mem_set member with old | rfl
  · exact ⟨x,old,named,still⟩
  · exact ⟨c,List.mem_of_getElem? found,same ▸ named,narrow still⟩

/-- A read: it is handed over whole, or dropped and its connection closed. -/
theorem Streams.read {handle : Nat} {bs : List UInt8} (streams : Streams s) (opened : s.openOn handle)
    (below : handle < s.heap.next) (later : s.heap.next ≤ t.heap.next) (reads : t.reads = s.reads ++ [(handle, bs)])
    (wired : t.wired = s.wired) (done : t.done = s.done) (lost : t.lost = s.lost)
    (counts : t.recvMsgs = s.recvMsgs + 1 ∧ t.recvBytes = s.recvBytes + UInt64.ofNat bs.length ∧
      t.sendMsgs = s.sendMsgs ∧ t.sendBytes = s.sendBytes)
    (opens : ∀ handle, t.openOn handle → s.openOn handle)
    (queue : t.flying = s.flying ∧ ¬ t.openOn handle ∨ ∃ r : Flying, t.flying = s.flying ++ [r] ∧ r.handle = handle ∧
      r.failed = false ∧ r.sent = 0 ∧ r.len ≤ r.data.length ∧ r.data.take r.len = bs) : Streams t := by
  obtain ⟨sizes,given,inOrder,whole,recv,send,answered⟩ := streams
  obtain ⟨recvMsgs,recvBytes,sendMsgs,sendBytes⟩ := counts
  have received : t.received handle = s.received handle ++ bs := by
    rw [State.received,reads]
    exact bytesOn_own
  have others (handle' : Nat) (apart : handle' ≠ handle) :
      t.received handle' = s.received handle' ∧ t.pending handle' = s.pending handle' := by
    refine ⟨?_,?_⟩
    · rw [State.received,reads]
      exact bytesOn_other apart.symm
    · rcases queue with ⟨flying,-⟩ | ⟨r,flying,rfl,-⟩
      · rw [State.pending,flying]
        rfl
      · simp [State.pending,flying,Flying.rest,apart.symm]
  have wires (handle' : Nat) : t.wire handle' = s.wire handle' := by
    rw [State.wire,wired]
    rfl
  have queued : t.pending handle = s.pending handle ∧ ¬ t.openOn handle ∨
    t.pending handle = s.pending handle ++ bs := by
    rcases queue with ⟨flying,closed⟩ | ⟨r,flying,rfl,sound,unsent,-,rfl⟩
    · refine .inl ⟨?_,closed⟩
      rw [State.pending,flying]
      rfl
    · exact .inr (by simp [State.pending,flying,Flying.rest,sound,unsent])
  refine ⟨?_,?_,fun handle' => ?_,fun handle' sound => ?_,?_,?_,?_⟩
  · rcases queue with ⟨flying,-⟩ | ⟨r,flying,-,-,unsent,fits,-⟩
    · exact flying ▸ sizes
    · rw [flying]
      intro x member
      rcases List.mem_append.mp member with old | last
      · exact sizes x old
      · obtain rfl := List.mem_singleton.mp last
        exact ⟨unsent ▸ Nat.zero_le _,fits⟩
  · rw [reads]
    intro x member
    rcases List.mem_append.mp member with old | last
    · exact Nat.lt_of_lt_of_le (given x old) later
    · obtain rfl := List.mem_singleton.mp last
      exact Nat.lt_of_lt_of_le below later
  · by_cases own : handle' = handle
    · subst own
      rw [received,wires]
      rcases queued with ⟨same,-⟩ | more
      · rw [same]
        exact (inOrder handle').trans (List.sublist_append_left ..)
      · rw [more,← List.append_assoc]
        exact (inOrder handle').append (List.Sublist.refl bs)
    · obtain ⟨same,same'⟩ := others handle' own
      rw [same,same',wires]
      exact inOrder handle'
  · obtain ⟨dropped,split,none'⟩ := whole handle' (lost ▸ sound)
    by_cases own : handle' = handle
    · subst own
      rw [none' opened,List.append_nil] at split
      rw [received,wires,split]
      rcases queued with ⟨same,closed⟩ | more
      · exact ⟨bs,by rw [same],fun again => absurd again closed⟩
      · exact ⟨[],by rw [more,List.append_nil,List.append_assoc],fun _ => rfl⟩
    · obtain ⟨same,same'⟩ := others handle' own
      rw [same,same',wires]
      exact ⟨dropped,split,fun again => none' (opens handle' again)⟩
  · rw [recvMsgs,recvBytes,reads,recv.1,recv.2,total_concat,List.length_append,UInt64.ofNat_add,UInt64.ofNat_add]
    exact ⟨rfl,rfl⟩
  · rw [sendMsgs,sendBytes,done]
    exact send
  · rw [done,reads]
    rcases queue with ⟨flying,-⟩ | ⟨r,flying,rfl,-,-,-,rfl⟩
    · rw [flying]
      exact answered.trans (List.sublist_append_left ..).subperm
    · rw [flying,List.map_append,← List.append_assoc]
      exact (List.subperm_append_right _).mpr answered

theorem transmit_live {j n : Nat} {r : Flying} (live : s.heap.live r.base = some (.buffer r.data)) :
    transmit s j r n = { s with
      wired := s.wired ++ [(r.handle, ((r.data.take r.len).drop r.sent).take n)]
      flying := s.flying.set j { r with sent := r.sent + n } } := by
  simp only [transmit,live]

/-- What is handed over is written from the same buffer, and requests of one handle in their order. -/
theorem Streams.transmit {more : List (Nat × Block)} {j n : Nat} {r : Flying} (streams : Streams s) (held : Held more s)
    (found : s.flying[j]? = some r) (sound : r.failed = false) (room : r.sent + n ≤ r.len) (turn : s.turn j r = true) :
    Streams (transmit s j r n) := by
  have live : s.heap.live r.base = some (.buffer r.data) := (held.request found).load List.mem_cons_self
  obtain ⟨sizes,given,inOrder,whole,recv,send,answered⟩ := streams
  obtain ⟨front,back,flying,first,set,-⟩ := cut_at found
  have fits := sizes r (List.mem_of_getElem? found)
  have before : front.flatMap (Flying.rest r.handle) = [] := by
    refine List.flatMap_eq_nil_iff.mpr fun x member => ?_
    have ready := List.all_eq_true.mp turn x (first ▸ member)
    have short := (sizes x (flying ▸ List.mem_append_left _ member)).2
    simp only [Flying.settled,ne_eq,decide_not,Bool.or_eq_true,Bool.not_eq_true',decide_eq_false_iff_not,
      decide_eq_true_eq] at ready
    rw [Flying.rest]
    split
    · next own =>
      rcases ready with apart | lost | written
      · exact absurd own.1 apart
      · rw [own.2] at lost
        cases lost
      · rw [written]
        exact List.drop_eq_nil_of_le (by rw [List.length_take]; omega)
    · rfl
  have moved (handle : Nat) :
      bytesOn handle (s.wired ++ [(r.handle, ((r.data.take r.len).drop r.sent).take n)]) ++
        (s.flying.set j { r with sent := r.sent + n }).flatMap (Flying.rest handle) =
          s.wire handle ++ s.pending handle := by
    rw [State.wire,State.pending,set,flying]
    by_cases own : r.handle = handle
    · subst own
      have cut : ((r.data.take r.len).drop r.sent).take n ++ (r.data.take r.len).drop (r.sent + n) =
          (r.data.take r.len).drop r.sent := by
        rw [← List.drop_drop,List.take_append_drop]
      rw [bytesOn_own]
      simp only [List.flatMap_append,List.flatMap_cons,before,List.nil_append,Flying.rest,sound,and_self,if_true]
      rw [List.append_assoc,← List.append_assoc (List.take n _),cut]
    · rw [bytesOn_other own]
      simp [Flying.rest,own]
  have messages : (s.flying.set j { r with sent := r.sent + n }).map Flying.message = s.flying.map Flying.message := by
    rw [set,flying]
    simp [Flying.message]
  rw [transmit_live live]
  refine ⟨fun x member => ?_,given,fun handle => ?_,fun handle kept => ?_,recv,send,?_⟩
  · rcases List.mem_or_eq_of_mem_set member with old | rfl
    · exact sizes x old
    · exact ⟨room,fits.2⟩
  · have kept := inOrder handle
    rw [← moved] at kept
    exact kept
  · have kept' := whole handle kept
    rw [← moved] at kept'
    exact kept'
  · rw [← messages] at answered
    exact answered

/-- A request that fails takes nothing more of its handle. -/
theorem Streams.fail {j : Nat} {r : Flying} (streams : Streams s) (found : s.flying[j]? = some r) :
    Streams { s with flying := s.flying.set j { r with failed := true }, lost := r.handle :: s.lost } := by
  obtain ⟨sizes,given,inOrder,whole,recv,send,answered⟩ := streams
  obtain ⟨front,back,flying,-,set,-⟩ := cut_at found
  have fits := sizes r (List.mem_of_getElem? found)
  have fewer (handle : Nat) : ((s.flying.set j { r with failed := true }).flatMap (Flying.rest handle)).Sublist
      (s.pending handle) := by
    rw [set,State.pending,flying]
    simp only [List.flatMap_append,List.flatMap_cons]
    refine (List.Sublist.refl _).append (List.Sublist.append ?_ (.refl _))
    simp [Flying.rest]
  refine ⟨?_,given,fun handle => ?_,fun handle kept => ?_,recv,send,?_⟩
  · intro x member
    rcases List.mem_or_eq_of_mem_set member with old | rfl
    · exact sizes x old
    · exact fits
  · exact ((List.Sublist.refl _).append (fewer handle)).trans (inOrder handle)
  · obtain ⟨apart,kept'⟩ := not_or.mp (mt List.mem_cons.mpr kept)
    have same : (s.flying.set j { r with failed := true }).flatMap (Flying.rest handle) = s.pending handle := by
      rw [set,State.pending,flying]
      simp [Flying.rest,Ne.symm apart]
    obtain ⟨dropped,split,none'⟩ := whole handle kept'
    refine ⟨dropped,?_,none'⟩
    simp only [State.pending,State.wire,State.received] at same split ⊢
    rw [same]
    exact split
  · have messages : (s.flying.set j { r with failed := true }).map Flying.message = s.flying.map Flying.message := by
      rw [set,flying]
      simp [Flying.message]
    rw [messages]
    exact answered

theorem onSendCb_cases {j : Nat} {r : Flying} (live : s.heap.live r.req = some (.request r.base r.len)) :
    ∃ heap, heap.next = s.heap.next ∧
      (r.failed = true ∧ onSendCb s j r = { s with heap, flying := s.flying.eraseIdx j } ∨
        r.failed = false ∧ onSendCb s j r = { s with
          heap
          flying := s.flying.eraseIdx j
          sendMsgs := s.sendMsgs + 1
          sendBytes := s.sendBytes + UInt64.ofNat r.len
          done := s.done ++ [r.message] }) := by
  refine ⟨(s.heap.release r.base).release r.req,rfl,?_⟩
  cases failed : r.failed with
  | true => exact .inl ⟨rfl,by simp [onSendCb,freeWriteReq,live,failed]⟩
  | false => exact .inr ⟨rfl,by simp [onSendCb,freeWriteReq,live,failed,Flying.message]⟩

/-- A request that is called back has nothing left to write. -/
theorem Streams.sent {more : List (Nat × Block)} {j : Nat} {r : Flying} (streams : Streams s) (held : Held more s)
    (found : s.flying[j]? = some r) (settled : r.settled = true) : Streams (onSendCb s j r) := by
  have live : s.heap.live r.req = some (.request r.base r.len) := (held.request found).load (by simp)
  obtain ⟨sizes,given,inOrder,whole,recv,send,answered⟩ := streams
  obtain ⟨front,back,flying,-,-,erased⟩ := cut_at found
  have fits := sizes r (List.mem_of_getElem? found)
  have nothing (handle : Nat) : r.rest handle = [] := by
    rw [Flying.rest]
    split
    · next own =>
      have written : r.sent = r.len := by simpa [Flying.settled,own.2] using settled
      exact List.drop_eq_nil_of_le (by rw [List.length_take]; omega)
    · rfl
  have same (handle : Nat) : (s.flying.eraseIdx j).flatMap (Flying.rest handle) = s.pending handle := by
    rw [erased,State.pending,flying]
    simp [nothing]
  have left : ∀ x ∈ s.flying.eraseIdx j, x.sent ≤ x.len ∧ x.len ≤ x.data.length :=
    fun x member => sizes x (List.mem_of_mem_eraseIdx member)
  have ordered (handle : Nat) : (s.wire handle ++ (s.flying.eraseIdx j).flatMap (Flying.rest handle)).Sublist
      (s.received handle) := (same handle).symm ▸ inOrder handle
  have wholes (handle : Nat) (kept : handle ∉ s.lost) : ∃ dropped, s.received handle =
      s.wire handle ++ (s.flying.eraseIdx j).flatMap (Flying.rest handle) ++ dropped ∧
        (s.openOn handle → dropped = []) :=
    (same handle).symm ▸ whole handle kept
  obtain ⟨heap,next,⟨-,back'⟩ | ⟨-,back'⟩⟩ := onSendCb_cases (j := j) live
  · rw [back']
    refine ⟨left,next.symm ▸ given,ordered,wholes,recv,send,?_⟩
    have part : (s.flying.eraseIdx j).Sublist s.flying := List.eraseIdx_sublist ..
    exact ((List.Sublist.refl _).append (part.map _)).subperm.trans answered
  · rw [back']
    refine ⟨left,next.symm ▸ given,ordered,wholes,recv,?_,?_⟩
    · have length : r.message.2.length = r.len := by
        rw [Flying.message,List.length_take]
        omega
      have more' : total (s.done ++ [r.message]) = total s.done + r.len := length ▸ total_concat
      have msgs : s.sendMsgs + 1 = UInt64.ofNat (s.done ++ [r.message]).length := by
        rw [List.length_append,UInt64.ofNat_add,send.1]
        rfl
      have bytes : s.sendBytes + UInt64.ofNat r.len = UInt64.ofNat (total (s.done ++ [r.message])) := by
        rw [more',UInt64.ofNat_add,send.2]
      exact ⟨msgs,bytes⟩
    · have moved : (s.done ++ [r.message] ++ (s.flying.eraseIdx j).map Flying.message).Perm
          (s.done ++ s.flying.map Flying.message) := by
        rw [erased,flying,List.append_assoc]
        simp only [List.map_append,List.map_cons,List.singleton_append]
        exact (List.perm_middle.symm).append_left _
      exact moved.subperm.trans answered

theorem landed_next (h : Arena Block) (c : Client) (bs : List UInt8) : (landed h c bs).next = h.next := by
  rw [landed]
  repeat' split
  all_goals rfl

theorem Client.close_handle (c : Client) : c.close.handle = c.handle := by
  rw [Client.close]
  split <;> rfl

theorem Client.close_closing (c : Client) : c.close.closing = true := by
  rw [Client.close]
  split
  · assumption
  · rfl

theorem mayRead_bytes {c : Client} {bs : List UInt8} (may : c.mayRead (.bytes bs) = true) : c.reading = true := by
  simp only [Client.mayRead] at may
  split at may
  · exact (Bool.and_eq_true_iff.mp may).1
  · cases may

theorem Streams.moves {more : List (Nat × Block)} (streams : Streams s) (held : Held more s)
    (reading : ∀ c ∈ s.clients, c.reading = !c.closing) (moves : Moves s t) : Streams t := by
  have below {c : Client} (member : c ∈ s.clients) : c.handle < s.heap.next := by
    refine Owns.given held c.handle .handle (List.mem_append_right _ (List.mem_append_left _ ?_))
    exact List.mem_flatMap.mpr ⟨c,member,List.mem_cons_self⟩
  cases moves with
  | connection answer =>
    rw [onConnectionCb]
    split
    · refine streams.quiet rfl (Nat.le_succ _) rfl rfl rfl rfl ⟨rfl,rfl,rfl,rfl⟩ fun handle opened => ?_
      obtain ⟨c,member,named,still⟩ := opened
      rcases List.mem_append.mp member with old | last
      · exact .inl ⟨c,old,named,still⟩
      · refine .inr fun x read own => ?_
        have early := streams.given x read
        have new : c.handle = s.heap.next := by
          obtain rfl := List.mem_singleton.mp last
          rw [Accepting.client]
          split <;> rfl
        omega
    · exact streams
  | @alloc i c mem found =>
    obtain ⟨heap,lent,later,same⟩ := onRecvAllocCb_cases s i c mem
    rw [same]
    exact streams.quiet rfl later rfl rfl rfl rfl ⟨rfl,rfl,rfl,rfl⟩ fun handle opened =>
      .inl (opens_set (d := { c with lent }) found rfl (fun still => still) opened)
  | @recv i c read mem written found may =>
    have member := List.mem_of_getElem? found
    let s' := { s with heap := landed s.heap c read.landing }
    have next : s'.heap.next = s.heap.next := landed_next ..
    rcases onRecvCb_cases s' i c read mem written with
      ⟨heap,d,later,kind,same⟩ | ⟨b,bs,heap,later,rfl,same | ⟨req,base,bytes,lent,same⟩⟩
    · rw [same]
      refine streams.quiet rfl (next ▸ later) rfl rfl rfl rfl ⟨rfl,rfl,rfl,rfl⟩ fun handle opened => .inl ?_
      have named : d.handle = c.handle := by
        rcases kind with rfl | rfl
        · rfl
        · exact Client.close_handle _
      have narrow : d.closing = false → c.closing = false := by
        rcases kind with rfl | rfl
        · exact id
        · simp [Client.close_closing]
      exact opens_set found named narrow opened
    · have opened : c.closing = false := by
        have on : c.reading = true := mayRead_bytes may
        rw [reading c member] at on
        simpa using on
      have mine : s.openOn c.handle := ⟨c,member,rfl,opened⟩
      rw [same]
      refine streams.read mine (below member) (next ▸ later) rfl rfl rfl rfl ⟨rfl,rfl,rfl,rfl⟩ (fun handle again => ?_)
        (.inl ⟨rfl,?_⟩)
      · exact opens_set found (Client.close_handle { c with lent := .nothing }) (fun _ => opened) again
      · exact closed_alone (s := s) held.handles found (Client.close_closing _)
    · have opened : c.closing = false := by
        have on : c.reading = true := mayRead_bytes may
        rw [reading c member] at on
        simpa using on
      have mine : s.openOn c.handle := ⟨c,member,rfl,opened⟩
      rw [same]
      refine streams.read mine (below member) (next ▸ later) rfl rfl rfl rfl ⟨rfl,rfl,rfl,rfl⟩ (fun handle again => ?_)
        (.inr ⟨_,rfl,rfl,rfl,rfl,?_,?_⟩)
      · exact opens_set (d := { c with lent := .nothing }) found rfl (fun still => still) again
      · simp
      · simp
  | transmit found sound room turn => exact streams.transmit held found sound room turn
  | fail found => exact streams.fail found
  | sent found settled => exact streams.sent held found settled
  | close =>
    refine streams.quiet rfl (Nat.le_refl _) rfl rfl rfl rfl ⟨rfl,rfl,rfl,rfl⟩ fun handle opened => ?_
    obtain ⟨c,member,named,still⟩ := opened
    exact .inl ⟨c,List.mem_of_mem_eraseIdx member,named,still⟩
  | rest =>
    exact streams.quiet rfl (Nat.le_refl _) rfl rfl rfl rfl ⟨rfl,rfl,rfl,rfl⟩ fun handle opened => .inl opened

theorem Streams.step {label : Label} (streams : Streams s) (tidy : Tidy s) (taken : step s label = some t) :
    Streams t := by
  cases pc : s.pc with
  | start =>
    cases label with
    | begin fails =>
      simp only [Tcpserv.step,pc] at taken
      obtain ⟨same,later,-⟩ := uvuServerRun_entered fails (tidy.ended (by simp [pc]))
      rw [← Option.some.inj taken]
      generalize uvuServerRun s fails = t at same later
      rw [same]
      exact streams.quiet rfl later rfl rfl rfl rfl ⟨rfl,rfl,rfl,rfl⟩ fun handle opened => .inl opened
    | _ => simp [Tcpserv.step,pc] at taken
  | running =>
    have loop : loopStep s label = some t := by cases label <;> simpa only [Tcpserv.step,pc] using taken
    rcases loopStep_cases loop with moves | ⟨drained,rfl⟩
    · exact streams.moves (tidy.held pc) tidy.reading moves
    · obtain ⟨same,-⟩ := uvLoopEnd_owns (tidy.held pc) tidy.reading drained
      rw [same]
      exact streams.quiet rfl (Nat.le_of_eq (uvuServerRunCleanup_next s).symm) rfl rfl rfl rfl ⟨rfl,rfl,rfl,rfl⟩
        fun handle opened => .inl opened
  | finished => simp [Tcpserv.step,pc] at taken

end Steps

theorem initial_streams : Streams initial := by
  refine ⟨?_,?_,fun handle => .slnil,fun handle _ => ⟨[],rfl,fun _ => rfl⟩,⟨rfl,rfl⟩,⟨rfl,rfl⟩,List.nil_subperm⟩
  · intro r member
    cases member
  · intro x member
    cases member

theorem reachable_streams {s : State} (reach : Transition.Reachable step (fun _ _ => True) initial s) : Streams s :=
  reach.invariant_with Tidy Streams (fun _ => reachable_tidy) initial_streams
    fun _ _ _ tidy streams _ taken => streams.step tidy taken

/-- In every order of the callbacks, whatever the allocator, `uv_write` and TCP refuse: what a connection is
sent is of what was read from it, in its order, and a beginning of it where no request failed; with nothing
in flight an open connection has got all of it. The counters count the reads, and the replies that were
written whole. -/
theorem echoes_exact (s : State) (reach : Transition.Reachable step (fun _ _ => True) initial s) (handle : Nat) :
    (s.wire handle).Sublist (s.received handle) ∧
    (handle ∉ s.lost → s.wire handle <+: s.received handle) ∧
    (handle ∉ s.lost → s.openOn handle → s.idle handle = true → s.wire handle = s.received handle) ∧
    s.recvMsgs = UInt64.ofNat s.reads.length ∧ s.recvBytes = UInt64.ofNat (total s.reads) ∧
    s.sendMsgs = UInt64.ofNat s.done.length ∧ s.sendBytes = UInt64.ofNat (total s.done) ∧
    s.done.Subperm s.reads := by
  obtain ⟨-,-,inOrder,whole,recv,send,answered⟩ := reachable_streams reach
  refine ⟨(List.sublist_append_left ..).trans (inOrder handle),fun sound => ?_,fun sound opened idle => ?_,
    recv.1,recv.2,
    send.1,send.2,(List.sublist_append_left ..).subperm.trans answered⟩
  · obtain ⟨dropped,split,-⟩ := whole handle sound
    exact ⟨s.pending handle ++ dropped,by rw [split,List.append_assoc]⟩
  · obtain ⟨dropped,split,none'⟩ := whole handle sound
    have nothing : s.pending handle = [] := by
      refine List.flatMap_eq_nil_iff.mpr fun r member => ?_
      have other : r.handle ≠ handle := by simpa using List.all_eq_true.mp idle r member
      exact if_neg fun own => other own.1
    rw [split,none' opened,nothing,List.append_nil,List.append_nil]

/-- Two connections; the second fails to allocate a request. -/
def bothRun : List Label :=
  [.begin fun _ => false,.connection ⟨true,true,true,true⟩,.connection ⟨true,true,true,true⟩,.alloc 0 (some [0,0,0]),
    .alloc 1 (some [0,0,0]),.recv 0 (.bytes [1,2]) true true,.recv 1 (.bytes [3]) false true,.alloc 0 (some [0,0,0]),
    .recv 0 (.bytes [4,5,6]) true true,.transmit 0 1,.transmit 0 1,.transmit 1 3,.sendCb 0,.sendCb 0]

theorem echoes_exact_both :
    ∃ s, Transition.execute step bothRun initial = some s ∧ s.wire 3 = [1,2,4,5,6] ∧ s.wire 4 = [] ∧
      s.received 4 = [3] ∧
      s.wire 3 = s.received 3 ∧ s.done.Subperm s.reads := by
  have observed : (Transition.execute step bothRun initial).map
      (fun s => ([s.wire 3,s.wire 4,s.received 4], s.lost, s.clients[0]?, s.idle 3)) =
        some ([[1,2,4,5,6],[],[3]], [], some ⟨3,true,false,.nothing⟩, true) := by decide +kernel
  obtain ⟨s,run,same⟩ := Option.map_eq_some_iff.mp observed
  simp only [Prod.mk.injEq,List.cons.injEq,and_true] at same
  obtain ⟨⟨first,second,third⟩,none',client,idle⟩ := same
  have reach : Transition.Reachable step (fun _ _ => True) initial s := .of_execute (fun _ _ _ => trivial) run
  obtain ⟨-,-,all,-,-,-,-,counted⟩ := echoes_exact s reach 3
  have opened : s.openOn 3 := ⟨_,List.mem_of_getElem? client,rfl,rfl⟩
  exact ⟨s,run,first,second,third,all (by simp [none']) opened idle,counted⟩

/-- `on_send_cb` closes no connection, so what is behind a request that failed may still be sent. -/
theorem failed_request_gap :
    ∃ s, Transition.Reachable step (fun _ _ => True) initial s ∧ s.received 3 = [1,2] ∧ s.wire 3 = [2] ∧
      s.openOn 3 := by
  have observed : (Transition.execute step [.begin fun _ => false,.connection ⟨true,true,true,true⟩,.alloc 0 (some [0]),
      .recv 0 (.bytes [1]) true true,.alloc 0 (some [0]),.recv 0 (.bytes [2]) true true,.fail 0,.sendCb 0,.transmit 0 1]
      initial).map (fun s => (s.received 3, s.wire 3, s.clients[0]?)) =
        some ([1,2], [2], some ⟨3,true,false,.nothing⟩) := by decide +kernel
  obtain ⟨s,run,same⟩ := Option.map_eq_some_iff.mp observed
  simp only [Prod.mk.injEq] at same
  obtain ⟨received,wire,client⟩ := same
  exact ⟨s,.of_execute (fun _ _ _ => trivial) run,received,wire,_,List.mem_of_getElem? client,rfl,rfl⟩

end Tcpeen.Tcpserv
