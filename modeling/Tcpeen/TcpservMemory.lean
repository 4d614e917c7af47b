import Tcpeen.Tcpserv

/-! The memory of the echo server of tcpserv.c: who owns which block, in every order of the callbacks. -/
namespace Tcpeen.Tcpserv

open Ownership

def Lent.cells : Lent → List (Nat × Block)
  | .buffer base bytes => [(base, .buffer bytes)]
  | _ => []

def Client.cells (c : Client) : List (Nat × Block) := (c.handle, .handle) :: c.lent.cells

def Flying.cells (r : Flying) : List (Nat × Block) := [(r.req, .request r.base r.len), (r.base, .buffer r.data)]

/-- The blocks of `uvu_server_run` itself. -/
def State.threadCells (s : State) : List (Nat × Block) :=
  (s.loop.toList ++ s.tcpServer.toList ++ s.acceptTimer.toList).map fun p => (p, .handle)

/-- A block in the loop belongs to a connection, or to a request. -/
def State.loopCells (s : State) : List (Nat × Block) := s.clients.flatMap Client.cells ++ s.flying.flatMap Flying.cells

def State.cells (s : State) : List (Nat × Block) :=
  match s.pc with
  | .running => s.threadCells ++ s.loopCells
  | _ => []

section Callbacks

variable {s s' : State} {i j : Nat} {c : Client} {r : Flying} {more : List (Nat × Block)}

/-- A state whose heap is owned by the loop, and by others. -/
def Held (more : List (Nat × Block)) (s : State) : Prop := Owns s.heap (more ++ s.loopCells)

theorem Held.alloc (held : Held more s) (found : s.clients[i]? = some c) (free : c.lent = .nothing)
    (mem : Option (List UInt8)) : Held more (onRecvAllocCb s i c mem) := by
  cases mem with
  | none =>
    refine Owns.recount held fun cell => ?_
    simp only [onRecvAllocCb,State.loopCells,owners_at Client.cells found,owners_set Client.cells found,
      List.count_append,Client.cells,free,Lent.cells]
  | some bytes =>
    refine (Owns.acquire held (.buffer bytes)).recount fun cell => ?_
    simp only [onRecvAllocCb,State.loopCells,owners_at Client.cells found,owners_set Client.cells found,
      List.count_append,Client.cells,free,Lent.cells,List.count_cons,List.count_nil,Arena.acquire]
    omega

theorem Held.close (held : Held more s) (found : s.clients[i]? = some c) (free : c.lent = .nothing) :
    Held more (onCloseCb s i c) := by
  have owns : Owns s.heap ((c.handle, .handle) :: (more ++ (onCloseCb s i c).loopCells)) := by
    refine Owns.recount held fun cell => ?_
    simp only [onCloseCb,State.loopCells,owners_at Client.cells found,List.count_append,Client.cells,free,Lent.cells,
      List.count_cons,List.count_nil]
    omega
  exact owns.release

theorem onSendCb_live (live : s.heap.live r.req = some (.request r.base r.len)) :
    (onSendCb s j r).heap = (s.heap.release r.base).release r.req ∧ (onSendCb s j r).clients = s.clients ∧
      (onSendCb s j r).flying = s.flying.eraseIdx j := by
  cases failed : r.failed <;> simp [onSendCb,freeWriteReq,live,failed]

theorem Held.request (held : Held more s) (found : s.flying[j]? = some r) :
    Owns s.heap ((r.base, .buffer r.data) :: (r.req, .request r.base r.len) ::
      (more ++ (s.clients.flatMap Client.cells ++ (s.flying.eraseIdx j).flatMap Flying.cells))) := by
  refine Owns.recount held fun cell => ?_
  simp only [State.loopCells,owners_at Flying.cells found,List.count_append,Flying.cells,List.count_cons,List.count_nil]
  omega

theorem Held.sent (held : Held more s) (found : s.flying[j]? = some r) : Held more (onSendCb s j r) := by
  have owns := held.request found
  have live : s.heap.live r.req = some (.request r.base r.len) := owns.load (by simp)
  obtain ⟨heap,clients,flying⟩ := onSendCb_live (j := j) live
  rw [Held,State.loopCells,heap,clients,flying]
  exact owns.release.release

theorem Client.close_cells (c : Client) : c.close.cells = c.cells := by
  rw [Client.close]
  split <;> rfl

/-- The buffer of a connection apart. -/
theorem Held.lent (held : Held more s) (found : s.clients[i]? = some c) {d : Client}
    (bare : d.cells = [(c.handle, .handle)]) :
    Owns s.heap (c.lent.cells ++ (more ++ ((s.clients.set i d).flatMap Client.cells ++
      s.flying.flatMap Flying.cells))) := by
  refine Owns.recount held fun cell => ?_
  have apart : Client.cells c = (c.handle, .handle) :: c.lent.cells := rfl
  simp only [State.loopCells,owners_at Client.cells found,owners_set Client.cells found,List.count_append,bare,
    apart,List.count_cons,List.count_nil]
  omega

theorem release_lent {h : Arena Block} {lent : Lent} (owns : Owns h (lent.cells ++ more)) :
    Owns (release h lent.base) more := by
  cases lent with
  | nothing => exact owns
  | null => exact owns
  | buffer base bytes => exact Owns.release owns

/-- What libuv has behind a read. -/
def Lent.landed (bs : List UInt8) : Lent → Lent
  | .buffer base bytes => .buffer base (bs ++ bytes.drop bs.length)
  | lent => lent

theorem Lent.landed_base (lent : Lent) (bs : List UInt8) : (lent.landed bs).base = lent.base := by
  cases lent <;> rfl

theorem landed_owns {h : Arena Block} (bs : List UInt8) (owns : Owns h (c.lent.cells ++ more)) :
    Owns (landed h c bs) ((c.lent.landed bs).cells ++ more) := by
  cases lent : c.lent with
  | nothing => simpa [landed,Lent.landed,lent] using owns
  | null => simpa [landed,Lent.landed,lent] using owns
  | buffer base bytes =>
    rw [lent] at owns
    have live : h.live base = some (.buffer bytes) := owns.load (by simp [Lent.cells])
    simp only [landed,lent,live]
    exact Owns.store owns _

theorem Held.recv (held : Held more s) (found : s.clients[i]? = some c) {read : Read} (mem written : Bool) :
    Held more (onRecvCb { s with heap := landed s.heap c read.landing } i c read mem written) := by
  have bare : ({ c with lent := .nothing } : Client).cells = [(c.handle, .handle)] := rfl
  have closed : ({ c with lent := .nothing } : Client).close.cells = [(c.handle, .handle)] := Client.close_cells _
  have kept := landed_owns read.landing (held.lent found bare)
  have ended := landed_owns read.landing (held.lent found closed)
  generalize landed s.heap c read.landing = heap at kept ended ⊢
  have given := release_lent ended
  rw [Lent.landed_base] at given
  cases read with
  | error => exact given
  | bytes bs =>
    cases bs with
    | nil =>
      have owns := release_lent kept
      rw [Lent.landed_base] at owns
      exact owns
    | cons b bs =>
      cases lent : c.lent with
      | nothing =>
        rw [lent] at given
        cases mem <;> simp only [onRecvCb,lent] <;> exact given
      | null =>
        rw [lent] at given
        cases mem <;> simp only [onRecvCb,lent] <;> exact given
      | buffer base bytes =>
        rw [lent] at given kept ended
        cases mem with
        | false =>
          simp only [onRecvCb,lent]
          exact given
        | true =>
          cases written with
          | false =>
            have asked := (Owns.acquire ended (.request 0 0)).store (.request base (b :: bs).length)
            simp only [onRecvCb,lent]
            exact (asked.perm (List.Perm.swap ..)).release.release
          | true =>
            have asked := (Owns.acquire kept (.request 0 0)).store (.request base (b :: bs).length)
            have new : (heap.acquire (.request 0 0)).1 = heap.next := rfl
            simp only [onRecvCb,lent,if_true]
            refine Owns.recount asked fun cell => ?_
            simp only [new,State.counted,State.loopCells,Lent.landed,Lent.cells,List.flatMap_append,List.flatMap_cons,
              List.flatMap_nil,
              List.count_append,Flying.cells,List.count_cons,List.count_nil,Read.landing]
            omega

theorem Accepting.client_cells (answer : Accepting) (handle : Nat) :
    (answer.client handle).cells = [(handle, .handle)] := by
  rw [Accepting.client]
  split
  · rfl
  · exact Client.close_cells _

theorem Held.connection (held : Held more s) (answer : Accepting) : Held more (onConnectionCb s answer) := by
  rw [onConnectionCb]
  split
  · have new := answer.client_cells s.heap.next
    have same : (s.heap.acquire .handle).1 = s.heap.next := rfl
    refine (Owns.acquire held .handle).recount fun cell => ?_
    simp only [State.loopCells,List.flatMap_append,List.flatMap_cons,List.flatMap_nil,List.count_append,same,new,
      List.count_cons,List.count_nil]
    omega
  · exact held

theorem Held.transmit (held : Held more s) (found : s.flying[j]? = some r) (n : Nat) :
    Held more (transmit s j r n) ∧ (transmit s j r n).heap = s.heap := by
  have live : s.heap.live r.base = some (.buffer r.data) := (held.request found).load List.mem_cons_self
  have same : ({ r with sent := r.sent + n } : Flying).cells = r.cells := rfl
  simp only [Tcpserv.transmit,live,and_true]
  refine Owns.recount held fun cell => ?_
  simp only [State.loopCells,owners_at Flying.cells found,owners_set Flying.cells found,List.count_append,same]

end Callbacks


/-- What the run keeps. -/
structure Tidy (s : State) : Prop where
  held : s.pc = .running → Held s.threadCells s
  ended : s.pc ≠ .running → Owns s.heap []
  idle : s.pc = .start → s.clients = [] ∧ s.flying = []
  reading : ∀ c ∈ s.clients, c.reading = !c.closing
  attached : ∀ r ∈ s.flying, r.handle ∈ s.clients.map Client.handle

/-- A call of `uv_run`, as far as the connections go. -/
inductive Moves (s : State) : State → Prop
  | connection (answer : Accepting) : Moves s (onConnectionCb s answer)
  | alloc {i : Nat} {c : Client} (mem : Option (List UInt8)) : s.clients[i]? = some c → c.reading = true →
      c.lent = .nothing → Moves s (onRecvAllocCb s i c mem)
  | recv {i : Nat} {c : Client} {read : Read} (mem written : Bool) : s.clients[i]? = some c → c.mayRead read = true →
      Moves s (onRecvCb { s with heap := landed s.heap c read.landing } i c read mem written)
  | transmit {j n : Nat} {r : Flying} : s.flying[j]? = some r → r.failed = false → r.sent + n ≤ r.len →
      s.turn j r = true → Moves s (transmit s j r n)
  | fail {j : Nat} {r : Flying} : s.flying[j]? = some r → r.settled = false →
      Moves s { s with flying := s.flying.set j { r with failed := true }, lost := r.handle :: s.lost }
  | sent {j : Nat} {r : Flying} : s.flying[j]? = some r → r.settled = true → Moves s (onSendCb s j r)
  | close {i : Nat} {c : Client} : s.clients[i]? = some c → c.closing = true → c.lent = .nothing →
      s.idle c.handle = true → Moves s (onCloseCb s i c)
  | rest (serverHandle timerHandle asyncHandle : HandleState) (closing : Bool) :
      Moves s { s with serverHandle, timerHandle, asyncHandle, closing }

theorem loopStep_cases {s t : State} {label : Label} (taken : loopStep s label = some t) :
    Moves s t ∨ s.drained ∧ t = uvLoopEnd s := by
  cases label with
  | begin fails => cases taken
  | connection answer =>
    obtain ⟨-,same⟩ := Option.ite_none_right_eq_some.mp taken
    exact .inl (Option.some.inj same ▸ .connection answer)
  | alloc i mem =>
    obtain ⟨c,found,taken⟩ := Option.bind_eq_some_iff.mp taken
    obtain ⟨⟨reading,free⟩,same⟩ := Option.ite_none_right_eq_some.mp taken
    exact .inl (Option.some.inj same ▸ .alloc mem found reading free)
  | recv i read mem written =>
    obtain ⟨c,found,taken⟩ := Option.bind_eq_some_iff.mp taken
    obtain ⟨may,same⟩ := Option.ite_none_right_eq_some.mp taken
    exact .inl (Option.some.inj same ▸ .recv mem written found may)
  | transmit j n =>
    obtain ⟨r,found,taken⟩ := Option.bind_eq_some_iff.mp taken
    obtain ⟨⟨sound,room,turn⟩,same⟩ := Option.ite_none_right_eq_some.mp taken
    exact .inl (Option.some.inj same ▸ .transmit found sound room turn)
  | fail j =>
    obtain ⟨r,found,taken⟩ := Option.bind_eq_some_iff.mp taken
    obtain ⟨open',same⟩ := Option.ite_none_left_eq_some.mp taken
    exact .inl (Option.some.inj same ▸ .fail found (by simpa using open'))
  | sendCb j =>
    obtain ⟨r,found,taken⟩ := Option.bind_eq_some_iff.mp taken
    obtain ⟨settled,same⟩ := Option.ite_none_right_eq_some.mp taken
    exact .inl (Option.some.inj same ▸ .sent found settled)
  | closeCb i =>
    obtain ⟨c,found,taken⟩ := Option.bind_eq_some_iff.mp taken
    obtain ⟨⟨closing,free,idle⟩,same⟩ := Option.ite_none_right_eq_some.mp taken
    exact .inl (Option.some.inj same ▸ .close found closing free idle)
  | leave =>
    obtain ⟨drained,same⟩ := Option.ite_none_right_eq_some.mp taken
    exact .inr ⟨drained,(Option.some.inj same).symm⟩
  | timerCb =>
    obtain ⟨-,same⟩ := Option.ite_none_right_eq_some.mp taken
    rw [← Option.some.inj same,timerCb]
    split
    · exact .inl (.rest ..)
    · exact .inl (.rest s.serverHandle s.timerHandle s.asyncHandle s.closing)
  | _ =>
    obtain ⟨-,same⟩ := Option.ite_none_right_eq_some.mp taken
    exact .inl (Option.some.inj same ▸ .rest ..)

theorem onRecvAllocCb_cases (s : State) (i : Nat) (c : Client) (mem : Option (List UInt8)) :
    ∃ heap lent, s.heap.next ≤ heap.next ∧
      onRecvAllocCb s i c mem = { s with heap, clients := s.clients.set i { c with lent } } := by
  cases mem with
  | none => exact ⟨_,_,Nat.le_refl _,rfl⟩
  | some bytes => exact ⟨_,_,Nat.le_succ _,rfl⟩

theorem release_next (h : Arena Block) (p : Option Nat) : (release h p).next = h.next := by
  cases p <;> rfl

/-- `on_recv_cb` gives the buffer back, closes the connection or not, and where it echoes passes it on. -/
theorem onRecvCb_cases (s : State) (i : Nat) (c : Client) (read : Read) (mem written : Bool) :
    (∃ heap d, s.heap.next ≤ heap.next ∧
      (d = { c with lent := .nothing } ∨ d = Client.close { c with lent := .nothing }) ∧
      onRecvCb s i c read mem written = { s with heap, clients := s.clients.set i d }) ∨
    ∃ b bs heap, s.heap.next ≤ heap.next ∧ read = .bytes (b :: bs) ∧
      (onRecvCb s i c read mem written = { s.counted c.handle (b :: bs) with
        heap, clients := s.clients.set i (Client.close { c with lent := .nothing }) } ∨
      ∃ req base bytes, c.lent = .buffer base bytes ∧
        onRecvCb s i c read mem written = { s.counted c.handle (b :: bs) with
          heap
          clients := s.clients.set i { c with lent := .nothing }
          flying := s.flying ++
            [⟨req,c.handle,base,(b :: bs).length,0,false,b :: bs ++ bytes.drop (b :: bs).length⟩] }) := by
  have freed : s.heap.next ≤ (release s.heap c.lent.base).next := Nat.le_of_eq (release_next ..).symm
  cases read with
  | error => exact .inl ⟨_,_,freed,.inr rfl,rfl⟩
  | bytes bs =>
    cases bs with
    | nil => exact .inl ⟨_,_,freed,.inl rfl,rfl⟩
    | cons b bs =>
      have later : s.heap.next ≤ (onRecvCb s i c (.bytes (b :: bs)) mem written).heap.next := by
        simp only [onRecvCb]
        split
        · split <;> exact Nat.le_succ _
        · exact freed
      refine .inr ⟨b,bs,(onRecvCb s i c (.bytes (b :: bs)) mem written).heap,later,rfl,?_⟩
      cases lent : c.lent with
      | nothing => exact .inl (by cases mem <;> simp only [onRecvCb,lent] <;> rfl)
      | null => exact .inl (by cases mem <;> simp only [onRecvCb,lent] <;> rfl)
      | buffer base bytes =>
        cases mem with
        | false => exact .inl (by simp only [onRecvCb,lent]; rfl)
        | true =>
          cases written with
          | false => exact .inl (by simp only [onRecvCb,lent]; rfl)
          | true => exact .inr ⟨s.heap.next,base,bytes,rfl,by simp only [onRecvCb,lent]; rfl⟩

/-- What a step of the loop does not touch. -/
theorem Moves.outside {s t : State} (moves : Moves s t) : t.pc = s.pc ∧ t.threadCells = s.threadCells := by
  cases moves with
  | connection answer =>
    rw [onConnectionCb]
    split <;> exact ⟨rfl,rfl⟩
  | alloc mem => cases mem <;> exact ⟨rfl,rfl⟩
  | @recv i c read mem written =>
    rcases onRecvCb_cases { s with heap := landed s.heap c read.landing } i c read mem written with
      ⟨heap,d,-,-,same⟩ | ⟨b,bs,heap,-,-,same | ⟨req,base,bytes,-,same⟩⟩ <;> rw [same] <;> exact ⟨rfl,rfl⟩
  | transmit =>
    rw [Tcpserv.transmit]
    split <;> exact ⟨rfl,rfl⟩
  | sent =>
    simp only [onSendCb]
    repeat' split
    all_goals exact ⟨rfl,rfl⟩
  | _ => exact ⟨rfl,rfl⟩

theorem Moves.held {s t : State} (moves : Moves s t) {more : List (Nat × Block)} (held : Held more s) :
    Held more t := by
  cases moves with
  | connection answer => exact held.connection answer
  | alloc mem found reading free => exact held.alloc found free mem
  | recv mem written found may => exact held.recv found mem written
  | transmit found => exact (held.transmit found _).1
  | @fail j r found =>
    have same : ({ r with failed := true } : Flying).cells = r.cells := rfl
    refine Owns.recount held fun cell => ?_
    simp only [State.loopCells,owners_at Flying.cells found,owners_set Flying.cells found,List.count_append,same]
  | sent found => exact held.sent found
  | close found closing free idle => exact held.close found free
  | rest => exact held

theorem Moves.clients {s t : State} (moves : Moves s t) (reading : ∀ c ∈ s.clients, c.reading = !c.closing) :
    ∀ c ∈ t.clients, c.reading = !c.closing := by
  have closed (c : Client) (kept : c.reading = !c.closing) : c.close.reading = !c.close.closing := by
    rw [Client.close]
    split
    · exact kept
    · rfl
  have updated {l : List Client} {i : Nat} {d : Client} (all : ∀ c ∈ l, c.reading = !c.closing)
      (own : d.reading = !d.closing) : ∀ c ∈ l.set i d, c.reading = !c.closing := by
    intro c member
    rcases List.mem_or_eq_of_mem_set member with old | rfl
    · exact all c old
    · exact own
  cases moves with
  | connection answer =>
    have new (handle : Nat) : (answer.client handle).reading = !(answer.client handle).closing := by
      rw [Accepting.client]
      split
      · rfl
      · rfl
    rw [onConnectionCb]
    split
    · intro c member
      rcases List.mem_append.mp member with old | last
      · exact reading c old
      · obtain rfl := List.mem_singleton.mp last
        exact new _
    · exact reading
  | @alloc i c mem found =>
    have own := reading c (List.mem_of_getElem? found)
    obtain ⟨heap,lent,-,same⟩ := onRecvAllocCb_cases s i c mem
    rw [same]
    exact updated reading own
  | @recv i c read mem written found =>
    have own := reading c (List.mem_of_getElem? found)
    have own' : (Client.close { c with lent := .nothing }).reading =
      !(Client.close { c with lent := .nothing }).closing :=
      closed { c with lent := .nothing } own
    rcases onRecvCb_cases { s with heap := landed s.heap c read.landing } i c read mem written with
      ⟨heap,d,-,rfl | rfl,same⟩ | ⟨b,bs,heap,-,-,same | ⟨req,base,bytes,-,same⟩⟩ <;> rw [same]
    · exact updated reading own
    · exact updated reading own'
    · exact updated reading own'
    · exact updated reading own
  | transmit =>
    rw [Tcpserv.transmit]
    split <;> exact reading
  | sent =>
    simp only [onSendCb]
    repeat' split
    all_goals exact reading
  | close => exact fun c member => reading c (List.mem_of_mem_eraseIdx member)
  | _ => exact reading

/-- The handles are the same, but for a new one and one that is closed. -/
theorem Moves.attached {s t : State} (moves : Moves s t)
    (attached : ∀ r ∈ s.flying, r.handle ∈ s.clients.map Client.handle) :
    ∀ r ∈ t.flying, r.handle ∈ t.clients.map Client.handle := by
  have handles {i : Nat} {c d : Client} (found : s.clients[i]? = some c) (same : d.handle = c.handle) :
      (s.clients.set i d).map Client.handle = s.clients.map Client.handle := by
    obtain ⟨front,back,whole,-,set,-⟩ := cut_at found
    rw [set,whole]
    simp [same]
  have updated {j : Nat} {r q : Flying} (found : s.flying[j]? = some r) (same : q.handle = r.handle) :
      ∀ x ∈ s.flying.set j q, x.handle ∈ s.clients.map Client.handle := by
    intro x member
    rcases List.mem_or_eq_of_mem_set member with old | rfl
    · exact attached x old
    · exact same ▸ attached r (List.mem_of_getElem? found)
  have closed (c : Client) : c.close.handle = c.handle := by
    rw [Client.close]
    split <;> rfl
  cases moves with
  | connection answer =>
    rw [onConnectionCb]
    split
    · intro r member
      rw [List.map_append]
      exact List.mem_append_left _ (attached r member)
    · exact attached
  | @alloc i c mem found =>
    obtain ⟨heap,lent,-,same⟩ := onRecvAllocCb_cases s i c mem
    have kept : (s.clients.set i { c with lent }).map Client.handle = s.clients.map Client.handle := handles found rfl
    rw [same]
    exact fun r member => kept.symm ▸ attached r member
  | @recv i c read mem written found =>
    rcases onRecvCb_cases { s with heap := landed s.heap c read.landing } i c read mem written with
      ⟨heap,d,-,kind,same⟩ | ⟨b,bs,heap,-,-,same | ⟨req,base,bytes,-,same⟩⟩ <;> rw [same]
    · have named : d.handle = c.handle := by
        rcases kind with rfl | rfl
        · rfl
        · exact closed _
      exact fun r member => (handles found named).symm ▸ attached r member
    · exact fun r member => (handles found (closed { c with lent := .nothing })).symm ▸ attached r member
    · intro r member
      rw [show ((s.clients.set i { c with lent := .nothing }).map Client.handle) =
        s.clients.map Client.handle from handles found rfl]
      rcases List.mem_append.mp member with old | last
      · exact attached r old
      · obtain rfl := List.mem_singleton.mp last
        exact List.mem_map.mpr ⟨c,List.mem_of_getElem? found,rfl⟩
  | transmit found =>
    rw [Tcpserv.transmit]
    split
    · exact updated found rfl
    · exact attached
  | fail found => exact updated found rfl
  | sent =>
    simp only [onSendCb]
    repeat' split
    all_goals exact fun r member => attached r (List.mem_of_mem_eraseIdx member)
  | @close i c found _ _ idle =>
    obtain ⟨front,back,whole,-,-,erased⟩ := cut_at found
    intro r member
    have apart : r.handle ≠ c.handle := by simpa using List.all_eq_true.mp idle r member
    have place := attached r member
    rw [whole] at place
    simp only [onCloseCb,erased]
    simpa [apart] using place
  | rest => exact attached

theorem release_owned {h : Arena Block} {p : Option Nat} {more : List (Nat × Block)}
    (owns : Owns h ((p.toList.map fun p => (p, Block.handle)) ++ more)) : Owns (release h p) more := by
  cases p with
  | none => exact owns
  | some p => exact Owns.release owns

theorem uvuServerRunCleanup_owns {s : State} (owns : Owns s.heap s.threadCells) :
    Owns (uvuServerRunCleanup s).heap [] := by
  have turned : Owns s.heap ((s.acceptTimer.toList.map fun p => (p, Block.handle)) ++
      ((s.tcpServer.toList.map fun p => (p, Block.handle)) ++ 
        ((s.loop.toList.map fun p => (p, Block.handle)) ++ []))) := by
    refine Owns.recount owns fun cell => ?_
    simp only [State.threadCells,List.map_append,List.count_append,List.count_nil]
    omega
  exact release_owned (release_owned (release_owned turned))

/-- The thread has given up and owns nothing, or it is in `uv_run` with its own blocks. -/
structure Entered (s t : State) : Prop where
  same : t = { s with
    heap := t.heap, pc := t.pc, loop := t.loop, tcpServer := t.tcpServer, acceptTimer := t.acceptTimer
    serverHandle := t.serverHandle, timerHandle := t.timerHandle }
  later : s.heap.next ≤ t.heap.next
  owns : t.pc = .finished ∧ Owns t.heap [] ∨ t.pc = .running ∧ Owns t.heap t.threadCells

section Entering

variable {s : State} (fails : SetupCall → Bool)

theorem uvuServerRunCleanup_next (s : State) : (uvuServerRunCleanup s).heap.next = s.heap.next := by
  simp only [uvuServerRunCleanup,release_next]

theorem cleanup_entered (owns : Owns s.heap s.threadCells) : Entered s (uvuServerRunCleanup s) :=
  ⟨rfl,Nat.le_of_eq (uvuServerRunCleanup_next s).symm,.inl ⟨rfl,uvuServerRunCleanup_owns owns⟩⟩

theorem listen_entered (owns : Owns s.heap s.threadCells) : Entered s (uvuServerListen s fails) := by
  rw [uvuServerListen]
  repeat' split
  all_goals first
    | exact cleanup_entered owns
    | exact ⟨rfl,Nat.le_refl _,.inr ⟨rfl,owns⟩⟩

theorem timer_entered (owns : Owns s.heap s.threadCells) (absent : s.acceptTimer = none) :
    Entered s (acquireTimer s fails) := by
  rw [acquireTimer]
  split
  · exact cleanup_entered owns
  · let s' := { s with acceptTimer := some s.heap.next, heap := (s.heap.acquire .handle).2 }
    have owns' : Owns s'.heap s'.threadCells := by
      refine (Owns.acquire owns .handle).recount fun cell => ?_
      simp only [s',State.threadCells,absent,Option.toList,List.map_append,List.count_append,List.map_cons,List.map_nil,
        List.count_cons,List.count_nil]
      omega
    obtain ⟨same,later,ended⟩ := listen_entered fails owns'
    exact ⟨same,Nat.le_trans (Nat.le_succ _) later,ended⟩

theorem server_entered (owns : Owns s.heap s.threadCells) (absent : s.tcpServer = none)
    (absent' : s.acceptTimer = none) :
    Entered s (acquireServer s fails) := by
  rw [acquireServer]
  split
  · exact cleanup_entered owns
  · let s' := { s with tcpServer := some s.heap.next, heap := (s.heap.acquire .handle).2 }
    have owns' : Owns s'.heap s'.threadCells := by
      refine (Owns.acquire owns .handle).recount fun cell => ?_
      simp only [s',State.threadCells,absent,Option.toList,List.map_append,List.count_append,List.map_cons,List.map_nil,
        List.count_cons,List.count_nil]
      omega
    obtain ⟨same,later,ended⟩ := timer_entered fails owns' absent'
    exact ⟨same,Nat.le_trans (Nat.le_succ _) later,ended⟩

/-- Whatever fails in front of `uv_run`, what was acquired is released. -/
theorem uvuServerRun_entered (owns : Owns s.heap []) : Entered s (uvuServerRun s fails) := by
  let s' := { s with loop := none, tcpServer := none, acceptTimer := none }
  have nothing : Owns s'.heap s'.threadCells := owns
  rw [uvuServerRun,acquireLoop]
  split
  · obtain ⟨same,later,ended⟩ := cleanup_entered nothing
    exact ⟨same,later,ended⟩
  · let s'' := { s' with loop := some s.heap.next, heap := (s.heap.acquire .handle).2 }
    have one : Owns s''.heap s''.threadCells := Owns.acquire owns .handle
    obtain ⟨same,later,ended⟩ := server_entered fails one rfl rfl
    exact ⟨same,Nat.le_trans (Nat.le_succ _) later,ended⟩

end Entering

/-- A connection is reading or closing, and `uv_run` waits for both. -/
theorem drained_clients {s : State} (reading : ∀ c ∈ s.clients, c.reading = !c.closing) (drained : s.drained) :
    s.clients = [] := by
  refine List.eq_nil_iff_forall_not_mem.mpr fun c member => ?_
  obtain ⟨idle,open'⟩ := drained.2.2.2.2 c member
  have kept := reading c member
  rw [idle,open'] at kept
  cases kept

/-- `uv_run` returns with no connection left, so the walk closes nothing. -/
theorem uvLoopEnd_owns {s : State} (held : Held s.threadCells s) (reading : ∀ c ∈ s.clients, c.reading = !c.closing)
    (drained : s.drained) : uvLoopEnd s = uvuServerRunCleanup s ∧ Owns (uvLoopEnd s).heap [] := by
  have gone := drained_clients reading drained
  obtain ⟨server,timer,async,flying,-⟩ := drained
  have closes : s.uvLoopClose = true := by simp [State.uvLoopClose,server,timer,async,gone]
  have owns : Owns s.heap s.threadCells := by
    simpa [Held,State.loopCells,gone,flying] using held
  have same : uvLoopEnd s = uvuServerRunCleanup s := if_pos closes
  exact ⟨same,same ▸ uvuServerRunCleanup_owns owns⟩

theorem Tidy.step {s t : State} {label : Label} (tidy : Tidy s) (taken : step s label = some t) : Tidy t := by
  obtain ⟨held,ended,idle,reading,attached⟩ := tidy
  cases pc : s.pc with
  | start =>
    cases label with
    | begin fails =>
      simp only [Tcpserv.step,pc] at taken
      obtain rfl := Option.some.inj taken
      obtain ⟨none',nothing⟩ := idle pc
      obtain ⟨same,-,outcome⟩ := uvuServerRun_entered fails (ended (by simp [pc]))
      have clients : (uvuServerRun s fails).clients = s.clients := by rw [same]
      have flying : (uvuServerRun s fails).flying = s.flying := by rw [same]
      rcases outcome with gone | entered
      · refine ⟨fun now => ?_,fun _ => gone.2,fun now => ?_,by simp [clients,none'],by simp [flying,nothing]⟩
        · rw [gone.1] at now
          cases now
        · rw [gone.1] at now
          cases now
      · refine ⟨fun _ => ?_,fun now => absurd entered.1 now,fun now => ?_,by simp [clients,none'],
          by simp [flying,nothing]⟩
        · simpa [Held,State.loopCells,clients,none',flying,nothing] using entered.2
        · rw [entered.1] at now
          cases now
    | _ => simp [Tcpserv.step,pc] at taken
  | running =>
    have loop : loopStep s label = some t := by cases label <;> simpa only [Tcpserv.step,pc] using taken
    rcases loopStep_cases loop with moves | ⟨drained,rfl⟩
    · obtain ⟨same,thread⟩ := moves.outside
      have now : t.pc = .running := same.trans pc
      refine ⟨fun _ => thread ▸ moves.held (held pc),fun other => absurd now other,fun other => ?_,
        moves.clients reading,moves.attached attached⟩
      rw [now] at other
      cases other
    · obtain ⟨same,owns⟩ := uvLoopEnd_owns (held pc) reading drained
      refine ⟨fun now => ?_,fun _ => owns,fun now => ?_,?_,?_⟩
      · rw [same] at now
        cases now
      · rw [same] at now
        cases now
      · rw [same]
        exact reading
      · rw [same]
        exact attached
  | finished => simp [Tcpserv.step,pc] at taken

theorem initial_tidy : Tidy initial := by
  refine ⟨fun now => ?_,fun _ => owns_empty,fun _ => ⟨rfl,rfl⟩,fun c member => ?_,fun r member => ?_⟩
  · cases now
  · cases member
  · cases member

theorem reachable_tidy {s : State} (reach : Transition.Reachable step (fun _ _ => True) initial s) : Tidy s :=
  reach.invariant Tidy initial_tidy fun _ _ _ tidy _ taken => tidy.step taken

/-- In every order of the callbacks, whatever fails: no block is released twice, or used when it is not live.
What is live are the blocks of the thread, the handle of each connection with the buffer that libuv has for
it, and each request with its buffer, all apart. Where `uv_run` returns only those of the thread are left,
`uv_loop_close` succeeds at once, and the thread ends with nothing. -/
theorem memory_owned (s : State) (reach : Transition.Reachable step (fun _ _ => True) initial s) :
    s.heap.misused = false ∧ (s.cells.map Prod.fst).Nodup ∧
    (∀ p block, s.heap.live p = some block ↔ (p, block) ∈ s.cells) ∧
    (∀ t, step s .leave = some t → s.uvLoopClose = true ∧ s.loopCells = []) ∧
    (s.pc = .finished → ∀ p, s.heap.live p = none) := by
  have tidy := reachable_tidy reach
  have owns : Owns s.heap s.cells := by
    rw [State.cells]
    split
    · next pc => exact tidy.held pc
    · next other => exact tidy.ended other
  refine ⟨owns.used,owns.apart,owns.exact,fun t left => ?_,fun pc => ?_⟩
  · have pc : s.pc = .running := by
      cases pc : s.pc <;> simp [step,pc] at left ⊢
    simp only [step,pc] at left
    obtain ⟨drained,-⟩ := Option.ite_none_right_eq_some.mp left
    have gone := drained_clients tidy.reading drained
    obtain ⟨server,timer,async,flying,-⟩ := drained
    exact ⟨by simp [State.uvLoopClose,server,timer,async,gone],by simp [State.loopCells,gone,flying]⟩
  · exact Owns.nothing (tidy.ended (by simp [pc]))

/-- A connection that is echoed to and then reset, and the end of the server. -/
def resetRun : List Label :=
  [.begin fun _ => false,.connection ⟨true,true,true,true⟩,.alloc 0 (some [0,0,0]),.recv 0 (.bytes [1,2]) true true,
    .alloc 0 (some [0,0,0]),.recv 0 .error true true,.stop,.asyncCb,.fail 0,.sendCb 0,.closeCb 0,.timerCb,.asyncClosed,
    .serverClosed,.timerClosed,.leave]

theorem memory_owned_reset :
    ∃ s, Transition.execute step resetRun initial = some s ∧ s.heap.next = 7 ∧ s.heap.misused = false ∧
      ∀ p, s.heap.live p = none := by
  have observed : (Transition.execute step resetRun initial).map (fun s => (s.heap.next, s.pc)) =
    some (7, .finished) := by
    decide +kernel
  obtain ⟨s,run,same⟩ := Option.map_eq_some_iff.mp observed
  obtain ⟨next,pc⟩ := Prod.mk.inj same
  have reach : Transition.Reachable step (fun _ _ => True) initial s := .of_execute (fun _ _ _ => trivial) run
  obtain ⟨used,-,-,-,ended⟩ := memory_owned s reach
  exact ⟨s,run,next,used,ended pc⟩

end Tcpeen.Tcpserv
