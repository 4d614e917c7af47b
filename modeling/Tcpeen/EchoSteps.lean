import Tcpeen.EchoOrder

/-! Single steps of the echo server as runs in which every call goes to its end before another
begins. -/
namespace Tcpeen.Echo

open SplitOperation QueueSpsc

/-- Calls run alone, and no channel is given to a second connection. -/
def Alone (cfg : Config) (a : Abstract) (label : AtomicLabel Thread Act Nat (Res Nat)) : Prop :=
  Exact a label ∧ ∀ t choice, label = .op t choice → Determined (spec fun _ => cfg.bits) (machine cfg) a t choice

def Solo (cfg : Config) : Abstract → Abstract → Prop := Transition.Reachable (atomic cfg) (Alone cfg)

theorem Solo.trans {cfg : Config} {a b d : Abstract} (first : Solo cfg a b) (rest : Solo cfg b d) : Solo cfg a d :=
  Transition.Reachable.trans first rest

/-- The operation has no choice on this queue. -/
def Settled : Op Nat → Fifo Nat → Bool
  | .popAll _, f => f.items.length ≤ 1
  | .count _, _ => false
  | _, _ => true

theorem settled_determined {capacity choice : Nat} {op : Op Nat} {f : Fifo Nat} {r : Fifo Nat × Res Nat}
    (settled : Settled op f = true) (applied : Fifo.apply capacity op f choice = some r) :
    Fifo.apply capacity op f 1 = some r := by
  refine Fifo.apply_determined ?_ ?_ applied
  · rintro limit rfl
    simpa [Settled] using settled
  · rintro caller rfl
    simp [Settled] at settled

/-- The queues, one by one. -/
structure Stock where
  poolRead : Fifo Nat
  eventsFree : Fifo Nat
  eventsReady : Fifo Nat
  poolWrite : Fifo Nat
  reqsFree : Fifo Nat
  reqsReady : Fifo Nat

namespace Stock

def queues (k : Stock) : Service.QueueName → Fifo Nat
  | .inl .poolRead => k.poolRead
  | .inl .eventsFree => k.eventsFree
  | .inl .eventsReady => k.eventsReady
  | .inr .poolWrite => k.poolWrite
  | .inr .reqsFree => k.reqsFree
  | .inr .reqsReady => k.reqsReady

def set (k : Stock) (q : Service.QueueName) (f : Fifo Nat) : Stock :=
  match q with
  | .inl .poolRead => { k with poolRead := f }
  | .inl .eventsFree => { k with eventsFree := f }
  | .inl .eventsReady => { k with eventsReady := f }
  | .inr .poolWrite => { k with poolWrite := f }
  | .inr .reqsFree => { k with reqsFree := f }
  | .inr .reqsReady => { k with reqsReady := f }

theorem update (k : Stock) (q : Service.QueueName) (f : Fifo Nat) :
    Function.update k.queues q f = (k.set q f).queues := by
  funext q'
  rcases q with (q | q) <;> rcases q' with (q' | q') <;> cases q <;> cases q' <;> rfl

end Stock

/-- A state put together from its parts. -/
def place (main : Pc .main) (io : Pc .io) (rs : Receive.State) (ss : Send.State) (loop : Loop) (k : Stock) :
    Abstract :=
  ⟨fun | .main => main | .io => io, ((rs, ss), loop), k.queues⟩

section Steps

variable {cfg : Config} {main main' : Pc .main} {io io' : Pc .io} {rs rs' : Receive.State} {ss ss' : Send.State}
  {loop loop' : Loop} {k k' : Stock}

theorem update_main (pc : Pc .main) :
    Function.update (place main io rs ss loop k).pcs .main pc = (place pc io rs ss loop k).pcs := by
  funext t
  cases t <;> rfl

theorem update_io (pc : Pc .io) :
    Function.update (place main io rs ss loop k).pcs .io pc = (place main pc rs ss loop k).pcs := by
  funext t
  cases t <;> rfl

theorem update_queues (q : Service.QueueName) (f : Fifo Nat) :
    Function.update (place main io rs ss loop k).abs q f = (place main io rs ss loop (k.set q f)).abs :=
  k.update q f

theorem solo_op {a : Abstract} {t : Thread} {q : Service.QueueName} {op : Op Nat} {f : Fifo Nat} {res : Res Nat}
    {r : Pc t × Service.State} (asked : (Service.machine cfg).request t (a.pcs t) = some (q, op))
    (settled : Settled op (a.abs q) = true) (applied : Fifo.apply (2 ^ cfg.bits) op (a.abs q) 1 = some (f, res))
    (next : (Service.machine cfg).resume t (a.pcs t) res a.shared.1 = r) :
    Solo cfg a ⟨Function.update a.pcs t r.1, (r.2, a.shared.2), Function.update a.abs q f⟩ := by
  have alone : Alone cfg a (.op t 1) := by
    refine ⟨trivial,?_⟩
    rintro _ _ ⟨⟩ q' op' choice r asked' applied'
    obtain ⟨rfl,rfl⟩ := Prod.mk.inj (Option.some.inj (asked.symm.trans asked'))
    exact settled_determined settled applied'
  have asked' : (machine cfg).request t (a.pcs t) = some (q,op) := asked
  have applied' : spec (fun _ => cfg.bits) q op (a.abs q) 1 = some (f,res) := applied
  subst next
  refine .step .start alone ?_
  simp only [atomic,atomicStep,asked',applied',Option.map_some]
  rfl

theorem solo_main {q : Service.QueueName} {op : Op Nat} {f : Fifo Nat} {res : Res Nat}
    (asked : (Service.machine cfg).request .main main = some (q, op)) (settled : Settled op (k.queues q) = true)
    (applied : Fifo.apply (2 ^ cfg.bits) op (k.queues q) 1 = some (f, res))
    (next : (Service.machine cfg).resume .main main res (rs, ss) = (main', (rs', ss'))) :
    Solo cfg (place main io rs ss loop k) (place main' io rs' ss' loop (k.set q f)) := by
  have taken := solo_op (a := place main io rs ss loop k) asked settled applied next
  rwa [update_main,update_queues] at taken

theorem solo_io {q : Service.QueueName} {op : Op Nat} {f : Fifo Nat} {res : Res Nat}
    (asked : (Service.machine cfg).request .io io = some (q, op)) (settled : Settled op (k.queues q) = true)
    (applied : Fifo.apply (2 ^ cfg.bits) op (k.queues q) 1 = some (f, res))
    (next : (Service.machine cfg).resume .io io res (rs, ss) = (io', (rs', ss'))) :
    Solo cfg (place main io rs ss loop k) (place main io' rs' ss' loop (k.set q f)) := by
  have taken := solo_op (a := place main io rs ss loop k) asked settled applied next
  rwa [update_io,update_queues] at taken

theorem solo_main_receive {pc pc' : Receive.MainPc} {q : Receive.QueueName} {op : Op Nat} {f : Fifo Nat} {res : Res Nat}
    (asked : Receive.request .main pc = some (q, op)) (settled : Settled op (k.queues (.inl q)) = true)
    (applied : Fifo.apply (2 ^ cfg.bits) op (k.queues (.inl q)) 1 = some (f, res))
    (next : Receive.resumeMain pc res rs = (pc', rs')) (after : k.set (.inl q) f = k') :
    Solo cfg (place (pc, .idle) io rs ss loop k) (place (pc', .idle) io rs' ss loop k') := by
  subst after
  have asked' : (Receive.machine cfg).request .main pc = some (q,op) := asked
  have next' : (Receive.machine cfg).resume .main pc res rs = (pc',rs') := next
  refine solo_main ?_ settled applied ?_
  · simp only [Service.machine,join,asked']
  · rw [Service.machine,join_resume_left asked',next']

theorem solo_main_send {pc pc' : Send.MainPc} {q : Send.QueueName} {op : Op Nat} {f : Fifo Nat} {res : Res Nat}
    (asked : Send.request .main pc = some (q, op)) (settled : Settled op (k.queues (.inr q)) = true)
    (applied : Fifo.apply (2 ^ cfg.bits) op (k.queues (.inr q)) 1 = some (f, res))
    (next : Send.resumeMain pc res ss = (pc', ss')) (after : k.set (.inr q) f = k') :
    Solo cfg (place (.idle, pc) io rs ss loop k) (place (.idle, pc') io rs ss' loop k') := by
  subst after
  have quiet : (Receive.machine cfg).request .main .idle = none := rfl
  have asked' : Send.machine.request .main pc = some (q,op) := asked
  have next' : Send.machine.resume .main pc res ss = (pc',ss') := next
  refine solo_main ?_ settled applied ?_
  · simp only [Service.machine,join,quiet,asked',Option.map_some]
  · rw [Service.machine,join_resume_right quiet,next']

theorem solo_io_receive {pc pc' : Receive.IoPc} {q : Receive.QueueName} {op : Op Nat} {f : Fifo Nat} {res : Res Nat}
    (asked : Receive.request .io pc = some (q, op)) (settled : Settled op (k.queues (.inl q)) = true)
    (applied : Fifo.apply (2 ^ cfg.bits) op (k.queues (.inl q)) 1 = some (f, res))
    (next : Receive.resumeIo pc res rs = (pc', rs')) (after : k.set (.inl q) f = k') :
    Solo cfg (place main (pc, .idle) rs ss loop k) (place main (pc', .idle) rs' ss loop k') := by
  subst after
  have asked' : (Receive.machine cfg).request .io pc = some (q,op) := asked
  have next' : (Receive.machine cfg).resume .io pc res rs = (pc',rs') := next
  refine solo_io ?_ settled applied ?_
  · simp only [Service.machine,join,asked']
  · rw [Service.machine,join_resume_left asked',next']

theorem solo_io_send {pc pc' : Send.IoPc} {q : Send.QueueName} {op : Op Nat} {f : Fifo Nat} {res : Res Nat}
    (asked : Send.request .io pc = some (q, op)) (settled : Settled op (k.queues (.inr q)) = true)
    (applied : Fifo.apply (2 ^ cfg.bits) op (k.queues (.inr q)) 1 = some (f, res))
    (next : Send.resumeIo pc res ss = (pc', ss')) (after : k.set (.inr q) f = k') :
    Solo cfg (place main (.idle, pc) rs ss loop k) (place main (.idle, pc') rs ss' loop k') := by
  subst after
  have quiet : (Receive.machine cfg).request .io .idle = none := rfl
  have asked' : Send.machine.request .io pc = some (q,op) := asked
  have next' : Send.machine.resume .io pc res ss = (pc',ss') := next
  refine solo_io ?_ settled applied ?_
  · simp only [Service.machine,join,quiet,asked',Option.map_some]
  · rw [Service.machine,join_resume_right quiet,next']

theorem solo_act {a : Abstract} {b : Act} {r : Pc (actor cfg b) × State} (exact' : Exact a (.act b))
    (quiet : (machine cfg).request _ (a.pcs (actor cfg b)) = none)
    (done : act cfg b (a.pcs (actor cfg b)) a.shared = some r) :
    Solo cfg a { a with pcs := Function.update a.pcs (actor cfg b) r.1, shared := r.2 } := by
  have alone : Alone cfg a (.act b) := ⟨exact',by simp⟩
  have quiet' : (machine cfg).request _ (a.pcs ((machine cfg).actor b)) = none := quiet
  have done' : (machine cfg).act b (a.pcs ((machine cfg).actor b)) a.shared = some r := done
  refine .step .start alone ?_
  simp only [atomic,atomicStep,quiet',done']
  rfl

theorem solo_io_act {b : Act} {r : Pc (actor cfg b) × State} (own : actor cfg b = .io)
    (exact' : Exact (place main io rs ss loop k) (.act b))
    (quiet : (Service.machine cfg).request .io io = none)
    (done : act cfg b ((place main io rs ss loop k).pcs (actor cfg b)) ((rs, ss), loop) = some r) :
    Solo cfg (place main io rs ss loop k) (place main (own ▸ r.1) r.2.1.1 r.2.1.2 r.2.2 k) := by
  have quiet' : (machine cfg).request _ ((place main io rs ss loop k).pcs (actor cfg b)) = none := by
    rw [own]
    exact quiet
  have pcs (t : Thread) (same : t = .io) (pc : Pc t) :
      Function.update (place main io rs ss loop k).pcs t pc =
        (place main (same ▸ pc) rs ss loop k).pcs := by
    subst same
    exact update_io pc
  have taken := solo_act exact' quiet' done
  rwa [pcs _ own] at taken

theorem solo_main_act {b : Act} {r : Pc (actor cfg b) × State} (own : actor cfg b = .main)
    (exact' : Exact (place main io rs ss loop k) (.act b))
    (quiet : (Service.machine cfg).request .main main = none)
    (done : act cfg b ((place main io rs ss loop k).pcs (actor cfg b)) ((rs, ss), loop) = some r) :
    Solo cfg (place main io rs ss loop k) (place (own ▸ r.1) io r.2.1.1 r.2.1.2 r.2.2 k) := by
  have quiet' : (machine cfg).request _ ((place main io rs ss loop k).pcs (actor cfg b)) = none := by
    rw [own]
    exact quiet
  have pcs (t : Thread) (same : t = .main) (pc : Pc t) :
      Function.update (place main io rs ss loop k).pcs t pc =
        (place (same ▸ pc) io rs ss loop k).pcs := by
    subst same
    exact update_main pc
  have taken := solo_act exact' quiet' done
  rwa [pcs _ own] at taken

/-- `on_connection_cb`, where no channel has had a connection. -/
theorem solo_connection {r : Receive.IoPc × Receive.State} (unused : ∀ c, Service.privOf rs c = none)
    (ran : Receive.onConnection none rs = r) :
    Solo cfg (place main (.idle, .idle) rs ss loop k) (place main (r.1, .idle) r.2 ss loop k) := by
  refine solo_io_act (b := .io (.inl (.connection none))) (r := ((r.1,.idle),((r.2,ss),loop))) rfl
    (fun c _ => unused c) rfl ?_
  change act cfg (.io (.inl (.connection none))) (.idle,.idle) ((rs,ss),loop) = _
  simp [act,Service.machine,join,Service.allowed,Service.outsideSend,Receive.machine,Receive.act,ran,Service.actor]
  rfl

/-- `on_recv_alloc_cb` on a channel without a buffer. -/
theorem solo_alloc {h c : Nat} (handle : rs.handles h = ⟨some c,false,false,none⟩)
    (buffer : (rs.clientMap c).readBuffer = none) :
    Solo cfg (place main (.idle, .idle) rs ss loop k)
      (place main (.allocPop h c, .idle) rs ss loop k) := by
  refine solo_io_act (b := .io (.inl (.alloc h))) (r := ((.allocPop h c,.idle),((rs,ss),loop))) rfl trivial rfl ?_
  change act cfg (.io (.inl (.alloc h))) (.idle,.idle) ((rs,ss),loop) = _
  simp [act,Service.machine,join,Service.allowed,Service.outsideSend,Receive.machine,Receive.act,handle,
    Receive.Handle.reading,Receive.onRecvAlloc,buffer,Service.actor]
  rfl

/-- `on_recv_cb` on data. -/
theorem solo_read {h c : Nat} {buf : Receive.UvBuf} {bytes : List UInt8} {r : Receive.IoPc × Receive.State}
    (handle : rs.handles h = ⟨some c,false,false,some buf⟩)
    (ran : Receive.onRecv h c buf (.data bytes) rs = some r) :
    Solo cfg (place main (.idle, .idle) rs ss loop k) (place main (r.1, .idle) r.2 ss loop k) := by
  refine solo_io_act (b := .io (.inl (.read h (.data bytes)))) (r := ((r.1,.idle),((r.2,ss),loop))) rfl trivial rfl ?_
  change act cfg (.io (.inl (.read h (.data bytes)))) (.idle,.idle) ((rs,ss),loop) = _
  simp [act,Service.machine,join,Service.allowed,Service.outsideSend,Receive.machine,Receive.act,handle,
    Receive.Handle.reading,ran,Service.actor]
  rfl

theorem solo_acquire :
    Solo cfg (place (.idle, .idle) io rs ss .sleeping k)
      (place (.acquire (BitVec.ofNat 64 cfg.bufferCount),.idle) io
        { rs with eventUpdates := [], acquired := true } ss (.batch 0) k) := by
  refine solo_main_act (b := .acquire) (r := ((.acquire (BitVec.ofNat 64 cfg.bufferCount),.idle),
    (({ rs with eventUpdates := [], acquired := true },ss),.batch 0))) rfl trivial rfl ?_
  change act cfg .acquire (.idle,.idle) ((rs,ss),.sleeping) = _
  simp [act,Service.machine,join,Service.allowed,Service.outsideSend,Receive.machine,Receive.act]

theorem solo_handle {eidx e : Nat} {r : Pc .main × Service.State} (listed : rs.eventUpdates[eidx]? = some e)
    (type : (rs.events e).type = .clientRead) (ran : handleClientRead cfg e (.idle,.idle) (rs,ss) = some r) :
    Solo cfg (place (.idle, .idle) io rs ss (.batch eidx) k)
      (place r.1 io r.2.1 r.2.2 (.batch (eidx + 1)) k) := by
  refine solo_main_act (b := .handle) (r := (r.1,(r.2,.batch (eidx + 1)))) rfl trivial rfl ?_
  change act cfg .handle (.idle,.idle) ((rs,ss),.batch eidx) = _
  simp [act,listed,type,ran]

/-- An event that is not a READ event. -/
theorem solo_pass {eidx e : Nat} (listed : rs.eventUpdates[eidx]? = some e)
    (type : (rs.events e).type ≠ .clientRead) :
    Solo cfg (place (.idle, .idle) io rs ss (.batch eidx) k) (place (.idle, .idle) io rs ss (.batch (eidx + 1)) k) := by
  refine solo_main_act (b := .handle) (r := ((.idle,.idle),((rs,ss),.batch (eidx + 1)))) rfl trivial rfl ?_
  change act cfg .handle (.idle,.idle) ((rs,ss),.batch eidx) = _
  simp only [act,listed]

theorem solo_release {eidx : Nat} {r : Receive.MainPc × Receive.State} (all : rs.eventUpdates.length ≤ eidx)
    (next : Receive.releaseNext rs rs.eventUpdates = r) :
    Solo cfg (place (.idle, .idle) io rs ss (.batch eidx) k) (place (r.1, .idle) io r.2 ss .sleeping k) := by
  refine solo_main_act (b := .release) (r := ((r.1,.idle),((r.2,ss),.sleeping))) rfl trivial rfl ?_
  change act cfg .release (.idle,.idle) ((rs,ss),.batch eidx) = _
  simp [act,Nat.not_lt.mpr all,Service.machine,join,Service.allowed,Service.outsideSend,Receive.machine,
    Receive.act,next]

theorem solo_prep :
    Solo cfg (place main (.idle, .idle) rs ss loop k) (place main (.idle, .prepPop) rs ss loop k) := by
  refine solo_io_act (b := .io (.inr .prep)) (r := ((.idle,.prepPop),((rs,ss),loop))) rfl trivial rfl ?_
  change act cfg (.io (.inr .prep)) (.idle,.idle) ((rs,ss),loop) = _
  simp [act,Service.machine,join,Service.allowed,Send.machine,Send.act,Service.actor]
  rfl

theorem solo_submit {r : Nat} {verdict : Send.Verdict} {x : Send.IoPc × Send.State}
    (found : Service.found (rs.clientMap (ss.reqs r).channel) verdict = true)
    (ran : Send.onPrep r verdict ss = some x) :
    Solo cfg (place main (.idle, .prepTest r) rs ss loop k) (place main (.idle, x.1) rs x.2 loop k) := by
  refine solo_io_act (b := .io (.inr (.submit verdict))) (r := ((.idle,x.1),((rs,x.2),loop))) rfl trivial rfl ?_
  change act cfg (.io (.inr (.submit verdict))) (.idle,.prepTest r) ((rs,ss),loop) = _
  simp [act,Service.machine,join,Service.allowed,found,Send.machine,Send.act,ran,Service.actor]
  rfl

theorem solo_sent {r : Nat} {x : Send.IoPc × Send.State} (flying : r ∈ ss.inFlight)
    (ran : Send.onSend r (ss.written r) = some x) :
    Solo cfg (place main (.idle, .idle) rs ss loop k) (place main (.idle, x.1) rs x.2 loop k) := by
  refine solo_io_act (b := .io (.inr (.sent r))) (r := ((.idle,x.1),((rs,x.2),loop))) rfl trivial rfl ?_
  change act cfg (.io (.inr (.sent r))) (.idle,.idle) ((rs,ss),loop) = _
  simp [act,Service.machine,join,Service.allowed,flying,Send.machine,Send.act,ran,Service.actor]
  rfl

end Steps

end Tcpeen.Echo
