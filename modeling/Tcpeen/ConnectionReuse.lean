import Tcpeen.ConnectionHistory
import Tcpeen.ConnectionResync

/-! A connection that is taken up again. `tcp_connect_begin` resets nothing of the decoder, so
the new stream is decoded with whatever the streams before it have left. -/
namespace Tcpeen.Connection

open Framing (framed Sized Incomplete)

/-- What a connection lives through: data that its buffer stores, and writes that take an id. -/
inductive Event
  | stored (bytes : List UInt8)
  | numbered
  deriving DecidableEq, Repr

def events (w : World) (label : Label) : List Event :=
  if label.takesId w.conn then [.numbered]
  else if label.bytes ≠ [] ∧ (w.conn.nextBuffer.write label.bytes).isSome then [.stored label.bytes]
  else []

/-- All that the buffer has stored. -/
def received (log : List Event) : List UInt8 :=
  log.flatMap fun
    | .stored bytes => bytes
    | .numbered => []

/-- The ids that have been taken. -/
def taken (log : List Event) : Nat := log.count .numbered

/-- What a reader of the stream sees of the decoder. -/
def Conn.view (c : Conn) : Buffer × ReadState × UInt64 := (c.nextBuffer, c.readState, c.lastRecvMsgId)

/-- Whatever arrives is decoded as by a freshly initialised connection that counts from `last`. -/
def AsFresh (last : UInt64) (c : Conn) : Prop :=
  ∃ mem, ∀ (ctx : Context) (closing : Nat → Bool) (arrivals : List Arrival),
    (feed closing arrivals c).map (fun r => (r.1.view, r.2)) =
      (feed closing arrivals { tcpConnInit ctx mem with lastRecvMsgId := last }).map fun r => (r.1.view, r.2)

/-- The decoder is clean and expects the id behind `last`. -/
structure CleanStart (last : UInt64) (c : Conn) : Prop where
  header : c.readState = .header
  empty : c.nextBuffer.unread = []
  agrees : c.lastRecvMsgId = last
  fresh : AsFresh last c

/-! ### Decoders that cannot be told apart -/

structure Similar (c c' : Conn) : Prop where
  buffer : c'.nextBuffer = c.nextBuffer
  state : c'.readState = c.readState
  last : c'.lastRecvMsgId = c.lastRecvMsgId
  length : c.readState = .payload → c'.nextPayloadLen = c.nextPayloadLen

inductive Round.Similar : Round → Round → Prop
  | done : Similar .done .done
  | again {c c' : Conn} {latency : UInt64} {effects : List Effect} :
      Connection.Similar c c' → Similar (.again c latency effects) (.again c' latency effects)
  | cleanup {c c' : Conn} : Connection.Similar c c' → Similar (.cleanup c) (.cleanup c')

section Similar

variable {c c' : Conn} (now latency : UInt64) (nread : Nat)

theorem decodeRound_similar (similar : Similar c c') :
    Round.Similar (decodeRound now nread c latency) (decodeRound now nread c' latency) := by
  obtain ⟨buffer,state,last,length⟩ := similar
  cases mode : c.readState with
  | header =>
    simp only [decodeRound,state,mode,buffer]
    split
    · exact .done
    · split
      · exact .cleanup ⟨buffer,state,last,length⟩
      · exact .again ⟨rfl,rfl,last,fun _ => rfl⟩
  | payload =>
    have same := length mode
    simp only [decodeRound,state,mode,buffer,same,last]
    split
    · exact .done
    · split
      · exact .cleanup ⟨buffer,state,last,length⟩
      · split
        · exact .cleanup ⟨rfl,rfl,rfl,fun _ => rfl⟩
        · split
          · exact .cleanup ⟨rfl,rfl,rfl,fun _ => rfl⟩
          · split <;> exact .again ⟨rfl,rfl,rfl,fun _ => rfl⟩
  | none | error | invalid =>
    simp only [decodeRound,state,mode]
    exact .again ⟨buffer,state,last,length⟩

/-- The loop ends for both or for neither, with the same latency and the same warnings. -/
theorem decode_similar (fuel : Nat) (similar : Similar c c') :
    (decode now nread fuel c latency = none ∧ decode now nread fuel c' latency = none) ∨
      ∃ d d' latency' effects, decode now nread fuel c latency = some (d, latency', effects) ∧
        decode now nread fuel c' latency = some (d', latency', effects) ∧ Similar d d' := by
  induction fuel generalizing c c' latency with
  | zero => exact .inl ⟨rfl,rfl⟩
  | succ fuel ih =>
    have round := decodeRound_similar now latency nread similar
    rw [decode,decode]
    generalize decodeRound now nread c latency = r at round ⊢
    generalize decodeRound now nread c' latency = r' at round ⊢
    cases round with
    | done => exact .inr ⟨c,c',_,_,rfl,rfl,similar⟩
    | cleanup similar' => exact .inr ⟨_,_,_,_,rfl,rfl,similar'⟩
    | @again _ _ latency₁ first similar' =>
      rcases ih latency₁ similar' with ⟨ends,ends'⟩ | ⟨d,d',latency',effects,ends,ends',similar''⟩
      · exact .inl ⟨by simp only [ends,Option.map_none],by simp only [ends',Option.map_none]⟩
      · exact .inr ⟨d,d',latency',first ++ effects,by simp only [ends,Option.map_some],
          by simp only [ends',Option.map_some],similar''⟩

theorem Similar.recvDone (similar : Similar c c') :
    Similar (recvDone now nread latency c) (recvDone now nread latency c') := by
  obtain ⟨buffer,state,last,length⟩ := similar
  exact ⟨by simp only [Connection.recvDone,buffer],state,last,length⟩

variable (closing : Nat → Bool)

theorem Similar.recv (similar : Similar c c') (now : UInt64) (bytes : List UInt8) :
    (onTcpRecvCb closing now (.data bytes) c = none ∧ onTcpRecvCb closing now (.data bytes) c' = none) ∨
      ∃ d d' effects, onTcpRecvCb closing now (.data bytes) c = some (d, effects) ∧
        onTcpRecvCb closing now (.data bytes) c' = some (d', effects) ∧ Similar d d' := by
  cases bytes with
  | nil => exact .inr ⟨c,c',[],rfl,rfl,similar⟩
  | cons byte bytes =>
    simp only [onTcpRecvCb,similar.buffer]
    cases c.nextBuffer.write (byte :: bytes) with
    | none => exact .inr ⟨c,c',[],rfl,rfl,similar⟩
    | some b =>
      have stored : Similar { c with nextBuffer := b } { c' with nextBuffer := b } :=
        ⟨rfl,similar.state,similar.last,similar.length⟩
      rcases decode_similar now 0 (byte :: bytes).length (b.readLength + 1) stored with
        ⟨ends,ends'⟩ | ⟨d,d',latency,effects,ends,ends',similar'⟩
      · exact .inl ⟨by simp only [ends,Option.map_none],by simp only [ends',Option.map_none]⟩
      · right
        simp only [ends,ends',Option.map_some]
        cases latency with
        | none => exact ⟨d,d',effects,rfl,rfl,similar'⟩
        | some latency => exact ⟨_,_,effects,rfl,rfl,similar'.recvDone now latency (byte :: bytes).length⟩

theorem feed_similar (similar : Similar c c') (arrivals : List Arrival) :
    (feed closing arrivals c').map (fun r => (r.1.view, r.2)) =
      (feed closing arrivals c).map fun r => (r.1.view, r.2) := by
  suffices agree : (feed closing arrivals c = none ∧ feed closing arrivals c' = none) ∨
      ∃ d d' effects, feed closing arrivals c = some (d, effects) ∧ feed closing arrivals c' = some (d', effects) ∧
        Similar d d' by
    rcases agree with ⟨ends,ends'⟩ | ⟨d,d',effects,ends,ends',similar'⟩
    · rw [ends,ends']
    · simp only [ends,ends',Option.map_some,Conn.view,similar'.buffer,similar'.state,similar'.last]
  induction arrivals generalizing c c' with
  | nil => exact .inr ⟨c,c',[],rfl,rfl,similar⟩
  | cons a arrivals ih =>
    rcases similar.recv closing a.now a.bytes with ⟨ends,ends'⟩ | ⟨d,d',effects,received,received',similar'⟩
    · exact .inl ⟨by simp [Connection.feed,ends],by simp [Connection.feed,ends']⟩
    · rcases ih similar' with ⟨ends,ends'⟩ | ⟨e,e',later,fed,fed',similar''⟩
      · exact .inl ⟨by simp [Connection.feed,received,ends],by simp [Connection.feed,received',ends']⟩
      · exact .inr ⟨e,e',effects ++ later,feed_cons received fed,feed_cons received' fed',similar''⟩

end Similar

/-! ### Histories -/

/-- Where the decoder stands after all that the buffer has stored. -/
structure Standing (bytes : List UInt8) (c : Conn) : Prop where
  long : (∀ d ∈ Framing.payloads bytes, 17 ≤ d.length) →
    Facing (Framing.remainder bytes) c ∧ (c.nextBuffer.readLength = 0 → c.nextBuffer.buf.len = 0) ∧
      c.lastRecvMsgId = (Framing.payloads bytes).foldl expectId 0
  short : ¬ (∀ d ∈ Framing.payloads bytes, 17 ≤ d.length) → Stuck c

section Standing

variable {bytes : List UInt8} {c c' : Conn}

theorem Standing.same (standing : Standing bytes c) (same : c'.decoder = c.decoder) : Standing bytes c' := by
  simp only [Conn.decoder,Decoder.mk.injEq] at same
  obtain ⟨buffer,state,length,last⟩ := same
  constructor
  · intro long
    obtain ⟨⟨valid,capacity,place⟩,rewound,ids⟩ := standing.long long
    exact ⟨⟨buffer ▸ valid,buffer ▸ capacity,by rw [state,buffer,length]; exact place⟩,by rw [buffer]; exact rewound,
      last.trans ids⟩
  · intro short
    obtain ⟨valid,capacity,inside,few⟩ := standing.short short
    exact ⟨buffer ▸ valid,buffer ▸ capacity,state.trans inside,by rw [length]; exact few⟩

/-- A chunk that is stored moves the decoder on, unless it is stuck. -/
theorem Standing.recv (standing : Standing bytes c) {closing : Nat → Bool} {now : UInt64} {chunk : List UInt8}
    {b : Buffer} {effects : List Effect} (some' : chunk ≠ []) (stored : c.nextBuffer.write chunk = some b)
    (received : onTcpRecvCb closing now (.data chunk) c = some (c', effects)) : Standing (bytes ++ chunk) c' := by
  obtain ⟨whole,sized,incomplete⟩ := Framing.payloads_spec (Framing.remainder bytes ++ chunk)
  obtain ⟨all,rest⟩ := Framing.payloads_append bytes chunk
  have split : (∀ d ∈ Framing.payloads (bytes ++ chunk), 17 ≤ d.length) ↔
      (∀ d ∈ Framing.payloads bytes, 17 ≤ d.length) ∧
        ∀ d ∈ Framing.payloads (Framing.remainder bytes ++ chunk), 17 ≤ d.length := by
    rw [all,List.forall_mem_append]
  constructor
  · intro long
    obtain ⟨before,new⟩ := split.mp long
    obtain ⟨facing,-,ids⟩ := standing.long before
    obtain ⟨c₁,receives⟩ := recv_frames closing now facing some' stored whole sized new (.inl incomplete)
    obtain ⟨rfl,-⟩ := Prod.mk.inj (Option.some.inj (receives.received.symm.trans received))
    have waits := receives.waits incomplete
    refine ⟨rest ▸ waits.facing,waits.rewound,?_⟩
    rw [waits.last,ids,all,List.foldl_append]
  · intro short
    by_cases before : ∀ d ∈ Framing.payloads bytes, 17 ≤ d.length
    · have new : ¬ ∀ d ∈ Framing.payloads (Framing.remainder bytes ++ chunk), 17 ≤ d.length :=
        fun new => short (split.mpr ⟨before,new⟩)
      obtain ⟨good,bad,tail,parts,long,few⟩ := first_short new
      obtain ⟨facing,-,-⟩ := standing.long before
      rw [parts] at whole sized
      obtain ⟨sized₁,sized₂⟩ := sized.of_append
      have whole' : Framing.remainder bytes ++ chunk =
          framed good ++ (Framing.frame bad ++ (framed tail ++ Framing.remainder (Framing.remainder bytes ++ chunk))) :=
        whole.trans (by rw [Framing.framed_append,framed]; simp only [List.append_assoc])
      obtain ⟨c₁,receives⟩ := recv_frames closing now facing some' stored whole' sized₁ long (.inr ⟨bad,_,few,rfl⟩)
      obtain ⟨rfl,-⟩ := Prod.mk.inj (Option.some.inj (receives.received.symm.trans received))
      exact receives.stuck (Framing.frame_complete sized₂.head)
    · obtain ⟨c₁,received',stuck,-⟩ := (standing.short before).recv closing now some' stored
      obtain ⟨rfl,-⟩ := Prod.mk.inj (Option.some.inj (received'.symm.trans received))
      exact stuck

end Standing

/-- A connection and its history. -/
structure Lived (w : World) (log : List Event) : Prop where
  ordered : Ordered w
  current : w.conn.currentMsgId = UInt64.ofNat (taken log)
  standing : Standing (received log) w.conn

section History

variable {w w' : World} {log : List Event} {label : Label}

theorem received_append (log later : List Event) : received (log ++ later) = received log ++ received later := by
  simp [received]

theorem Label.bytes_cases (some' : label.bytes ≠ []) :
    ∃ h now, label = .recvCb h now (.data label.bytes) := by
  cases label with
  | recvCb h now read =>
    cases read with
    | data bytes => exact ⟨h,now,rfl⟩
    | error code => exact absurd rfl some'
  | _ => exact absurd rfl some'

theorem Label.takesId_bytes {c : Conn} (takes : label.takesId c = true) : label.bytes = [] := by
  cases label with
  | writeBegin ticks data outcome => rfl
  | _ => cases takes

theorem step_recv {h : Nat} {now : UInt64} {bytes : List UInt8}
    (moved : step w (.recvCb h now (.data bytes)) = some w') :
    ∃ effects, onTcpRecvCb w.closing now (.data bytes) w.conn = some (w'.conn, effects) := by
  simp only [step] at moved
  split at moved
  · obtain ⟨r,ran,rfl⟩ := Option.map_eq_some_iff.mp moved
    exact ⟨r.2,by rw [run_conn,ran]⟩
  · cases moved

theorem Lived.step (lived : Lived w log) (moved : Connection.step w label = some w') :
    Lived w' (log ++ events w label) := by
  have follows := lived.ordered.follows moved
  have ordered := lived.ordered.step moved
  by_cases takes : label.takesId w.conn = true
  · have entry : events w label = [.numbered] := if_pos takes
    refine ⟨ordered,?_,?_⟩
    · rw [follows.current,if_pos takes,lived.current,entry,taken,taken,List.count_append,UInt64.ofNat_add]
      rfl
    · rw [received_append,entry]
      simpa [received] using lived.standing.same (follows.decoder (Label.takesId_bytes takes))
  · have current : w'.conn.currentMsgId = UInt64.ofNat (taken (log ++ events w label)) := by
      have none' : (events w label).count .numbered = 0 := by
        rw [events,if_neg takes]
        split <;> simp
      rw [follows.current,if_neg takes,lived.current,taken,taken,List.count_append,none']
      rfl
    refine ⟨ordered,current,?_⟩
    rw [received_append,events,if_neg takes]
    by_cases some' : label.bytes = []
    · rw [if_neg (by simp [some'])]
      simpa [received] using lived.standing.same (follows.decoder some')
    · obtain ⟨h,now,same⟩ := Label.bytes_cases some'
      rw [same] at moved
      obtain ⟨effects,ran⟩ := step_recv moved
      cases stored : w.conn.nextBuffer.write label.bytes with
      | none =>
        have dropped : w'.conn = w.conn := by
          obtain ⟨byte,bytes,parts⟩ := List.exists_cons_of_ne_nil some'
          rw [parts] at ran stored
          simp only [onTcpRecvCb,stored] at ran
          exact (Prod.mk.inj (Option.some.inj ran)).1.symm
        rw [dropped]
        simpa [received] using lived.standing
      | some b =>
        rw [if_pos ⟨some',rfl⟩]
        simpa [received] using lived.standing.recv some' stored ran

/-- From the begin of a connect to its callback the decoder rests. -/
structure Waiting (h : Nat) (decoder : Decoder) (w : World) : Prop where
  ordered : Ordered w
  known : h < w.count
  rests : (w.handles h).connecting = true → w.conn.decoder = decoder ∧ (w.handles h).reading = false

theorem Waiting.step {h : Nat} {decoder : Decoder} (waiting : Waiting h decoder w)
    (moved : Connection.step w label = some w') : Waiting h decoder w' := by
  have follows := waiting.ordered.follows moved
  refine ⟨waiting.ordered.step moved,waiting.known.trans_le follows.count,?_⟩
  intro waits
  obtain ⟨-,connecting,reading,-⟩ : Carried (w.handles h) (w'.handles h) := by
    rcases step_carried (fun _ _ => waiting.known) moved with carried | ⟨called,-⟩
    · exact carried
    · rw [called] at waits
      cases waits
  obtain ⟨same,silent⟩ := waiting.rests (connecting ▸ waits)
  refine ⟨?_,reading.trans silent⟩
  by_cases some' : label.bytes = []
  · exact (follows.decoder some').trans same
  · obtain ⟨h',now,data⟩ := Label.bytes_cases some'
    rw [data] at moved
    have current := (waiting.ordered.callback rfl moved).2
    have active : (w.handles h).active = true := by
      rw [TcpHandle.active,← connecting,waits]
      rfl
    obtain rfl := Option.some.inj ((waiting.ordered.alone h active).1.symm.trans current)
    simp only [Connection.step] at moved
    rw [silent] at moved
    cases moved

end History

theorem init_standing (ctx : Context) (mem : Nat → UInt8) : Standing [] (tcpConnInit ctx mem) :=
  ⟨fun _ => ⟨⟨Buffer.setup_valid _ _ (by decide),rfl,rfl⟩,fun _ => rfl,rfl⟩,
    fun short => absurd (fun _ inside => absurd inside List.not_mem_nil) short⟩

/-- A decoder that has consumed all it got is a fresh one, but for the id it expects. -/
theorem Facing.asFresh {c : Conn} (facing : Facing [] c) (header : c.readState = .header)
    (rewound : c.nextBuffer.readLength = 0 → c.nextBuffer.buf.len = 0) : AsFresh c.lastRecvMsgId c := by
  have unread := facing.header header
  have nothing : c.nextBuffer.readLength = 0 := by rw [← Buffer.unread_length,unread,List.length_nil]
  have length := rewound nothing
  have aligned := facing.valid.aligned
  have setup : c.nextBuffer = Buffer.setup c.nextBuffer.buf.mem nextBufSize := by
    have capacity := facing.capacity
    generalize c.nextBuffer = b at *
    obtain ⟨⟨mem,len,cap⟩,⟨ptr,left⟩⟩ := b
    simp only [Buffer.readLength] at nothing length aligned capacity
    obtain rfl : ptr = 0 := by omega
    subst nothing length capacity
    rfl
  refine ⟨c.nextBuffer.buf.mem,fun ctx closing arrivals => ?_⟩
  have similar : Similar { tcpConnInit ctx c.nextBuffer.buf.mem with lastRecvMsgId := c.lastRecvMsgId } c :=
    ⟨setup,header,rfl,fun inside => by cases inside⟩
  exact feed_similar closing similar arrivals

theorem Facing.emptied {c : Conn} (facing : Facing [] c) : c.readState = .header := by
  rcases facing.state with header | inside
  · exact header
  · have whole := congrArg List.length (facing.payload inside)
    rw [List.length_append,BigEndian.encode_length,List.length_nil] at whole
    omega

theorem Standing.cleanStart_iff {bytes : List UInt8} {c : Conn} (standing : Standing bytes c) (last : UInt64) :
    CleanStart last c ↔ (∀ d ∈ Framing.payloads bytes, 17 ≤ d.length) ∧ Framing.remainder bytes = [] ∧
      (Framing.payloads bytes).foldl expectId 0 = last := by
  constructor
  · rintro ⟨header,empty,agrees,-⟩
    have long : ∀ d ∈ Framing.payloads bytes, 17 ≤ d.length := by
      by_contra short
      have inside := (standing.short short).inside
      rw [header] at inside
      cases inside
    obtain ⟨facing,-,ids⟩ := standing.long long
    exact ⟨long,(facing.header header).symm.trans empty,ids.symm.trans agrees⟩
  · rintro ⟨long,nothing,ids⟩
    obtain ⟨facing,rewound,seen⟩ := standing.long long
    rw [nothing] at facing
    have agrees := seen.trans ids
    exact ⟨facing.emptied,facing.header facing.emptied,agrees,agrees ▸ facing.asFresh facing.emptied rewound⟩

/-- For every history of a connection up to a new connect that succeeds: the new stream is met
by a clean decoder that agrees on the next id, exactly where all that was received before are
whole frames with payloads of 17 bytes or more, whose ids reach the last one taken. -/
theorem reuse_exact (ctx : Context) (mem : Nat → UInt8) (w w₁ w₂ w₃ : World) (log : List Event)
    (history : Transition.Reachable (Transition.logged step events) (fun _ _ => True)
      (initialWorld ctx mem, []) (w, log))
    (ended : w.conn.state = .disconnected) (begun : step w (.connectBegin none) = some w₁)
    (between : Transition.Reachable step (fun _ _ => True) w₁ w₂)
    (connected : step w₂ (.connectedCb w.count true true) = some w₃) :
    CleanStart w.conn.currentMsgId w₃.conn ↔
      (∀ d ∈ Framing.payloads (received log), 17 ≤ d.length) ∧ Framing.remainder (received log) = [] ∧
        (Framing.payloads (received log)).foldl expectId 0 = UInt64.ofNat (taken log) := by
  have lived : Lived w log := by
    refine history.invariant (fun s => Lived s.1 s.2) ?_ ?_
    · exact ⟨initialWorld_ordered ctx mem,rfl,init_standing ctx mem⟩
    · intro s label t lived _ moved
      obtain ⟨w',moved',rfl⟩ := Option.map_eq_some_iff.mp moved
      exact lived.step moved'
  have started : Waiting w.count w.conn.decoder w₁ := by
    have follows := lived.ordered.follows begun
    refine ⟨lived.ordered.step begun,?_,fun _ => ⟨follows.decoder rfl,?_⟩⟩
    · cases begun
      simp [World.tcpInit,ended]
    · cases begun
      rw [(run_carried _ _ _).reading]
      simp [World.tcpInit,ended,World.setHandle]
  have waiting : Waiting w.count w.conn.decoder w₂ :=
    between.invariant (Waiting w.count w.conn.decoder) started fun _ _ _ waiting _ moved => waiting.step moved
  have pending : (w₂.handles w.count).connecting = true := by
    by_contra no
    simp [step,no] at connected
  have same : w₃.conn.decoder = w.conn.decoder :=
    ((waiting.ordered.follows connected).decoder rfl).trans (waiting.rests pending).1
  rw [(lived.standing.same same).cleanStart_iff,lived.current]

/-- A history and a new connect behind it, with what is seen of them at the end. -/
def reconnect (labels : List Label) : Option ((World × List Event) × World × World) := do
  let s ← Transition.execute (Transition.logged step events) labels (initialWorld ⟨0,0,0,0⟩ fun _ => 0, [])
  let w₁ ← step s.1 (.connectBegin none)
  let w₂ ← step w₁ (.connectedCb s.1.count true true)
  pure (s, w₁, w₂)

theorem reconnect_cases {labels : List Label} {s : World × List Event} {w₁ w₂ : World}
    (run : reconnect labels = some (s, w₁, w₂)) :
    Transition.Reachable (Transition.logged step events) (fun _ _ => True)
        (initialWorld ⟨0,0,0,0⟩ fun _ => 0, []) s ∧
      step s.1 (.connectBegin none) = some w₁ ∧ step w₁ (.connectedCb s.1.count true true) = some w₂ := by
  obtain ⟨s',ran,rest⟩ := Option.bind_eq_some_iff.mp run
  obtain ⟨w₁',begun,rest⟩ := Option.bind_eq_some_iff.mp rest
  obtain ⟨w₂',connected,rest⟩ := Option.bind_eq_some_iff.mp rest
  cases rest
  exact ⟨.of_execute (fun _ _ _ => trivial) ran,begun,connected⟩

/-- A frame is sent and comes back before the connection is closed. -/
def wholeFrame : List Label :=
  [.connectBegin none,.connectedCb 0 true true,.writeBegin 5 [1] .sent,.recvCb 0 6 (.data (frame 1 ⟨5,[1]⟩)),
    .writeCb 0 7 0 22,.disconnect,.closeCb 0]

theorem reuse_whole : ∃ s w₁ w₂, reconnect wholeFrame = some (s, w₁, w₂) ∧ received s.2 = frame 1 ⟨5,[1]⟩ ∧
    CleanStart s.1.conn.currentMsgId w₂.conn := by
  have observed : (reconnect wholeFrame).map (fun r => (r.1.1.conn.state,received r.1.2,taken r.1.2)) =
      some (.disconnected,frame 1 ⟨5,[1]⟩,1) := by decide +kernel
  obtain ⟨⟨⟨w,log⟩,w₁,w₂⟩,run,seen⟩ := Option.map_eq_some_iff.mp observed
  simp only [Prod.mk.injEq] at seen
  obtain ⟨ended,bytes,ids⟩ := seen
  obtain ⟨history,begun,connected⟩ := reconnect_cases run
  refine ⟨(w,log),w₁,w₂,run,bytes,(reuse_exact _ _ w w₁ w₁ w₂ log history ended begun .start connected).mpr ?_⟩
  rw [bytes,ids]
  exact ⟨by decide +kernel,by decide +kernel,by decide +kernel⟩

/-- The connection is closed with two bytes of a header in the buffer. -/
def halfHeader : List Label :=
  [.connectBegin none,.connectedCb 0 true true,.recvCb 0 6 (.data [0,0]),.disconnect,.closeCb 0]

/-- They are still there when the new stream begins. -/
theorem reuse_half :
    ¬ ∀ (ctx : Context) (mem : Nat → UInt8) (w w₁ w₂ w₃ : World) (log : List Event),
      Transition.Reachable (Transition.logged step events) (fun _ _ => True) (initialWorld ctx mem, []) (w, log) →
      w.conn.state = .disconnected → step w (.connectBegin none) = some w₁ →
      Transition.Reachable step (fun _ _ => True) w₁ w₂ → step w₂ (.connectedCb w.count true true) = some w₃ →
      CleanStart w.conn.currentMsgId w₃.conn := by
  intro always
  have observed : (reconnect halfHeader).map (fun r => (r.1.1.conn.state,r.2.2.conn.nextBuffer.unread)) =
      some (.disconnected,[0,0]) := by decide +kernel
  obtain ⟨⟨⟨w,log⟩,w₁,w₂⟩,run,seen⟩ := Option.map_eq_some_iff.mp observed
  simp only [Prod.mk.injEq] at seen
  obtain ⟨ended,unread⟩ := seen
  obtain ⟨history,begun,connected⟩ := reconnect_cases run
  have empty := (always _ _ w w₁ w₁ w₂ log history ended begun .start connected).empty
  rw [unread] at empty
  cases empty

end Tcpeen.Connection
