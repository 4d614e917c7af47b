import Tcpeen.ConnectionCodec

/-! The decoder of `on_tcp_recv_cb` on arbitrary bytes. A payload of 17 bytes or more is taken
and the loop is back at a header; one of 16 or fewer is never left. -/
namespace Tcpeen.Connection

open Framing (framed Sized Incomplete)

/-- The first eight bytes of a payload. -/
def payloadId (payload : List UInt8) : UInt64 := UInt64.ofNat (BigEndian.decode (payload.take 8))

/-- The eight bytes behind them. -/
def payloadStamp (payload : List UInt8) : UInt64 :=
  UInt64.ofNat (BigEndian.decode ((payload.drop 8).take 8))

def payloadLatency (now : UInt64) (payload : List UInt8) : UInt64 := (now - payloadStamp payload) / 1000000

/-- `last_recv_msg_id` after a payload. -/
def expectId (last : UInt64) (payload : List UInt8) : UInt64 :=
  if payloadId payload = last + 1 then last + 1 else last

/-- The warning for a payload. -/
def mismatch (nread : Nat) (last : UInt64) (payload : List UInt8) : List Effect :=
  if payloadId payload = last + 1 then []
  else [.idMismatch nread (UInt32.ofNat payload.length) (last + 1) (payloadId payload)]

def mismatches (nread : Nat) : UInt64 → List (List UInt8) → List Effect
  | _, [] => []
  | last, payload :: rest => mismatch nread last payload ++ mismatches nread (expectId last payload) rest

/-- The latency that the loop leaves with: the one of the last payload it took. -/
def lastLatency (now : UInt64) (latency : UInt64) (payloads : List (List UInt8)) : UInt64 :=
  payloads.foldl (fun _ payload => payloadLatency now payload) latency

/-- Where the decoder stands: everything that has arrived is consumed but these bytes. In
`TCP_CHANNEL_READ_PAYLOAD` the length at their front has been read. -/
structure Facing (rest : List UInt8) (c : Conn) : Prop where
  valid : c.nextBuffer.Valid
  capacity : c.nextBuffer.buf.capacity = nextBufSize
  place : match c.readState with
    | .header => c.nextBuffer.unread = rest
    | .payload => rest = BigEndian.encode 4 c.nextPayloadLen.toNat ++ c.nextBuffer.unread
    | _ => False

/-- The connection at the heads of the decode loop. -/
def heads (now : UInt64) (nread : Nat) : Nat → Conn → UInt64 → List Conn
  | 0, _, _ => []
  | fuel + 1, c, latency =>
    match decodeRound now nread c latency with
    | .again next latency _ => c :: heads now nread fuel next latency
    | _ => [c]

/-- Rounds of the loop that go on, with the warnings and the heads on their way. -/
inductive Rounds (now : UInt64) (nread : Nat) :
    Conn → UInt64 → List Effect → List Conn → Conn → UInt64 → Prop
  | refl (c : Conn) (latency : UInt64) : Rounds now nread c latency [] [] c latency
  | round {c c₁ c₂ : Conn} {latency latency₁ latency₂ : UInt64} {first later : List Effect} {visited : List Conn} :
      decodeRound now nread c latency = .again c₁ latency₁ first →
      Rounds now nread c₁ latency₁ later visited c₂ latency₂ →
      Rounds now nread c latency (first ++ later) (c :: visited) c₂ latency₂

section Rounds

variable {now : UInt64} {nread : Nat} {c c' : Conn} {latency latency' : UInt64} {effects : List Effect}
  {visited : List Conn}

theorem Rounds.decode (rounds : Rounds now nread c latency effects visited c' latency') (fuel : Nat) :
    decode now nread (visited.length + fuel) c latency =
      (Connection.decode now nread fuel c' latency').map fun (c, latency, later) => (c, latency, effects ++ later) := by
  induction rounds with
  | refl c latency =>
    simp
  | @round c c₁ c₂ latency latency₁ latency₂ first later visited pass _ ih =>
    rw [List.length_cons,Nat.add_right_comm,Connection.decode]
    simp only [pass,ih,Option.map_map]
    congr 1
    funext result
    simp

theorem Rounds.heads (rounds : Rounds now nread c latency effects visited c' latency') (fuel : Nat) :
    heads now nread (visited.length + fuel) c latency = visited ++ Connection.heads now nread fuel c' latency' := by
  induction rounds with
  | refl c latency => simp
  | round pass _ ih =>
    rw [List.length_cons,Nat.add_right_comm,Connection.heads]
    simp only [pass,ih,List.cons_append]

end Rounds

section Round

variable (now latency : UInt64) (nread : Nat) {length : Nat} {data more : List UInt8} {c : Conn}

theorem Facing.header (facing : Facing more c) (header : c.readState = .header) : c.nextBuffer.unread = more := by
  have place := facing.place
  rwa [header] at place

theorem Facing.payload (facing : Facing more c) (inside : c.readState = .payload) :
    more = BigEndian.encode 4 c.nextPayloadLen.toNat ++ c.nextBuffer.unread := by
  have place := facing.place
  rwa [inside] at place

/-- The length at the front is read, whatever it is. -/
theorem header_round (facing : Facing (BigEndian.encode 4 length ++ more) c) (header : c.readState = .header)
    (small : length < 256 ^ 4) :
    ∃ b, decodeRound now nread c latency = .again
        { c with nextBuffer := b, nextPayloadLen := UInt32.ofNat length, readState := .payload } latency [] ∧
      (UInt32.ofNat length).toNat = length ∧ b.unread = more ∧
      Facing (BigEndian.encode 4 length ++ more)
        { c with nextBuffer := b, nextPayloadLen := UInt32.ofNat length, readState := .payload } := by
  have unread := facing.header header
  obtain ⟨b,read,valid,left,same⟩ := facing.valid.readBe unread
  rw [Nat.mod_eq_of_lt small] at read
  have enough : ¬ c.nextBuffer.readLength < 4 := by
    rw [← Buffer.unread_length,unread]
    simp
  have exact' : (UInt32.ofNat length).toNat = length := by
    rw [UInt32.toNat_ofNat']
    exact Nat.mod_eq_of_lt small
  refine ⟨b,by simp [decodeRound,header,enough,Buffer.readBe32,read],exact',left,valid,by rw [same,facing.capacity],?_⟩
  simp only [exact',left]

theorem read_word {b : Buffer} (valid : b.Valid) {first later : List UInt8} (eight : first.length = 8)
    (unread : b.unread = first ++ later) :
    ∃ b', b.readBe64 = some (b', BigEndian.decode first) ∧ b'.Valid ∧ b'.unread = later ∧ b'.buf = b.buf := by
  obtain ⟨b',read,valid',left,same⟩ := valid.read unread
  rw [eight] at read
  exact ⟨b',by simp [Buffer.readBe64,Buffer.readBe,read],valid',left,same⟩

/-- A payload of 17 bytes or more is taken. -/
theorem payload_round (facing : Facing (Framing.frame data ++ more) c) (inside : c.readState = .payload)
    (small : data.length < 256 ^ 4) (long : 17 ≤ data.length) :
    ∃ b, decodeRound now nread c latency = .again
        { c with nextBuffer := b, lastRecvMsgId := expectId c.lastRecvMsgId data, readState := .header }
        (payloadLatency now data) (mismatch nread c.lastRecvMsgId data) ∧
      b.readLength < c.nextBuffer.readLength ∧
      Facing more { c with nextBuffer := b, lastRecvMsgId := expectId c.lastRecvMsgId data, readState := .header } := by
  have place := facing.payload inside
  rw [Framing.frame,List.append_assoc] at place
  obtain ⟨length,unread⟩ := Framing.header_inj small c.nextPayloadLen.toNat_lt place
  have enough : ¬ c.nextBuffer.readLength < c.nextPayloadLen.toNat := by
    rw [← Buffer.unread_length,← unread,List.length_append]
    omega
  have parts : c.nextBuffer.unread = data.take 8 ++ ((data.drop 8).take 8 ++ (data.drop 16 ++ more)) := by
    rw [← unread,← List.append_assoc ((data.drop 8).take 8),show (16 : Nat) = 8 + 8 from rfl,← List.drop_drop,
      List.take_append_drop,← List.append_assoc,List.take_append_drop]
  obtain ⟨b₁,read₁,valid₁,unread₁,same₁⟩ := read_word facing.valid (by rw [List.length_take]; omega) parts
  obtain ⟨b₂,read₂,valid₂,unread₂,same₂⟩ := read_word valid₁
    (by rw [List.length_take,List.length_drop]; omega) unread₁
  have some' : data.drop 16 ≠ [] := by
    intro none'
    have left := congrArg List.length none'
    rw [List.length_drop,List.length_nil] at left
    omega
  obtain ⟨b₃,skip,valid₃,unread₃,same₃⟩ := valid₂.readSkip some' unread₂
  have number : (c.nextPayloadLen - 16).toNat = (data.drop 16).length := by
    rw [UInt32.toNat_sub_of_le _ _ (by rw [UInt32.le_iff_toNat_le,← length]; simp; omega),List.length_drop,← length]
    rfl
  have span : c.nextPayloadLen = UInt32.ofNat data.length := by
    rw [length,UInt32.ofNat_toNat]
  refine ⟨b₃,?_,?_,valid₃,?_,unread₃⟩
  · simp only [decodeRound,inside,if_neg enough,read₁,read₂,number,skip]
    by_cases match' : payloadId data = c.lastRecvMsgId + 1
    · have expected : UInt64.ofNat (BigEndian.decode (data.take 8)) = c.lastRecvMsgId + 1 := match'
      simp [expected,expectId,mismatch,match',payloadLatency,payloadStamp]
    · have other : UInt64.ofNat (BigEndian.decode (data.take 8)) ≠ c.lastRecvMsgId + 1 := match'
      simp [other,expectId,mismatch,payloadLatency,payloadStamp,← span,payloadId]
  · rw [← Buffer.unread_length,unread₃,← Buffer.unread_length,← unread,List.length_append]
    omega
  · simp only [same₃,same₂,same₁]
    exact facing.capacity

theorem word_cases {b : Buffer} (valid : b.Valid) :
    b.readBe64 = none ∨ ∃ b' value, b.readBe64 = some (b', value) ∧ b'.Valid ∧ b'.buf = b.buf := by
  rcases valid.readBe_cases 8 with ⟨-,refused⟩ | ⟨b',read,skips⟩
  · exact .inl refused
  · exact .inr ⟨b',_,read,skips.valid,skips.buf⟩

/-- A decoder that waits for a payload of 16 bytes or fewer. -/
structure Stuck (c : Conn) : Prop where
  valid : c.nextBuffer.Valid
  capacity : c.nextBuffer.buf.capacity = nextBufSize
  inside : c.readState = .payload
  short : c.nextPayloadLen.toNat ≤ 16

/-- What is left behind the two words of such a payload: nothing, or a number that wraps. -/
theorem skip_refused {b : Buffer} {length : UInt32} (valid : b.Valid) (capacity : b.buf.capacity = nextBufSize)
    (short : length.toNat ≤ 16) : b.readSkip (length - 16).toNat = none := by
  have aligned := valid.aligned
  have bounded := valid.bounded
  have block : nextBufSize = 131070 := rfl
  rcases Nat.eq_or_lt_of_le short with equal | less
  · have zero : length - 16 = 0 := by
      rw [← UInt32.toNat_inj,UInt32.toNat_sub,equal]
      rfl
    rw [zero]
    simp only [Buffer.readSkip]
    split <;> simp
  · have wraps : (length - 16).toNat = 2 ^ 32 - 16 + length.toNat := by
      rw [UInt32.toNat_sub]
      simp
      omega
    have refused : sizeHalf < b.pos.len ∨ sizeHalf < (length - 16).toNat ∨ b.pos.len < (length - 16).toNat := by
      right
      right
      omega
    simp only [Buffer.readSkip,Cursor.advance,if_pos refused]

theorem Stuck.round (stuck : Stuck c) :
    decodeRound now nread c latency = .done ∨ ∃ c', decodeRound now nread c latency = .cleanup c' ∧ Stuck c' := by
  obtain ⟨valid,capacity,inside,short⟩ := stuck
  simp only [decodeRound,inside]
  split
  · exact .inl rfl
  · right
    rcases word_cases valid with refused | ⟨b₁,value₁,read₁,valid₁,same₁⟩
    · exact ⟨c,by simp only [refused],valid,capacity,inside,short⟩
    · rcases word_cases valid₁ with refused | ⟨b₂,value₂,read₂,valid₂,same₂⟩
      · exact ⟨{ c with nextBuffer := b₁ },by simp only [read₁,refused,inside],valid₁,by rw [same₁,capacity],
          inside,short⟩
      · have capacity₂ : b₂.buf.capacity = nextBufSize := by rw [same₂,same₁,capacity]
        exact ⟨{ c with nextBuffer := b₂ },by simp only [read₁,read₂,skip_refused valid₂ capacity₂ short,inside],valid₂,
          capacity₂,inside,short⟩

/-- The loop ends at once, with the decoder where it was. -/
theorem Stuck.decode (stuck : Stuck c) (fuel : Nat) :
    ∃ c' latency', decode now nread (fuel + 1) c latency = some (c', latency', []) ∧ Stuck c' ∧
      heads now nread (fuel + 1) c latency = [c] := by
  rcases stuck.round now latency nread with done | ⟨c',cleanup,stuck'⟩
  · exact ⟨c,some latency,by simp [Connection.decode,done],stuck,by simp [heads,done]⟩
  · exact ⟨c',none,by simp [Connection.decode,cleanup],stuck',by simp [heads,cleanup]⟩

end Round

/-- The bytes that the loop cannot get past: a frame that has not arrived, or one whose
payload is too short. -/
def Blocking (bytes : List UInt8) : Prop :=
  Incomplete bytes ∨ ∃ short rest, short.length ≤ 16 ∧ bytes = Framing.frame short ++ rest

/-- The unread bytes at the heads of the loop that stand before a header. -/
def headerRests (visited : List Conn) : List Nat :=
  (visited.filter fun c => c.readState = .header).map fun c => c.nextBuffer.readLength

/-- The loop takes these payloads and comes to a header with the rest behind it. -/
structure Takes (now latency : UInt64) (nread : Nat) (payloads : List (List UInt8)) (more : List UInt8) (c c' : Conn)
    (visited : List Conn) : Prop where
  rounds : Rounds now nread c latency (mismatches nread c.lastRecvMsgId payloads) visited c'
    (lastLatency now latency payloads)
  header : c'.readState = .header
  facing : Facing more c'
  only : OnlyDecoder c c'
  last : c'.lastRecvMsgId = payloads.foldl expectId c.lastRecvMsgId
  shorter : visited.length + c'.nextBuffer.readLength ≤ c.nextBuffer.readLength
  starts : ∀ done tail, payloads = done ++ tail → done ≠ [] → tail ≠ [] →
    (framed tail ++ more).length ∈ headerRests visited
  bound : ∀ rest ∈ headerRests visited, more.length ≤ rest

section Takes

variable {now latency : UInt64} {nread : Nat} {payload : List UInt8} {payloads : List (List UInt8)}
  {more : List UInt8} {c c' : Conn}

theorem headerRests_payload (inside : c.readState = .payload) (visited : List Conn) :
    headerRests (c :: visited) = headerRests visited := by
  simp [headerRests,inside]

theorem headerRests_header (header : c.readState = .header) (visited : List Conn) :
    headerRests (c :: visited) = c.nextBuffer.readLength :: headerRests visited := by
  simp [headerRests,header]

/-- A payload in front of others, of which the loop finds the header next. -/
theorem Takes.cons {c₁ : Conn} {visited : List Conn} (inside : c.readState = .payload)
    (pass : decodeRound now nread c latency =
      .again c₁ (payloadLatency now payload) (mismatch nread c.lastRecvMsgId payload)) (only : OnlyDecoder c c₁)
    (last : c₁.lastRecvMsgId = expectId c.lastRecvMsgId payload)
    (shorter : c₁.nextBuffer.readLength < c.nextBuffer.readLength)
    (takes : Takes now (payloadLatency now payload) nread payloads more c₁ c' visited)
    (first : payloads ≠ [] → (framed payloads ++ more).length ∈ headerRests visited) :
    Takes now latency nread (payload :: payloads) more c c' (c :: visited) where
  rounds := by
    have rounds := takes.rounds
    rw [last] at rounds
    exact .round pass rounds
  header := takes.header
  facing := takes.facing
  only := only.trans takes.only
  last := by rw [takes.last,last,List.foldl_cons]
  shorter := by
    have before := takes.shorter
    rw [List.length_cons]
    omega
  starts := by
    intro done tail split some' filled
    rw [headerRests_payload inside]
    obtain ⟨d,done,rfl⟩ := List.exists_cons_of_ne_nil some'
    obtain ⟨rfl,rfl⟩ := List.cons.inj split
    cases done with
    | nil => exact first filled
    | cons d' done => exact takes.starts _ tail rfl (by simp) filled
  bound := by
    rw [headerRests_payload inside]
    exact takes.bound

/-- The length of a frame is read before its payload. -/
theorem Takes.behind {c₁ : Conn} {visited : List Conn} (header : c.readState = .header)
    (place : c.nextBuffer.readLength = (framed payloads ++ more).length)
    (pass : decodeRound now nread c latency = .again c₁ latency []) (only : OnlyDecoder c c₁)
    (last : c₁.lastRecvMsgId = c.lastRecvMsgId) (shorter : c₁.nextBuffer.readLength < c.nextBuffer.readLength)
    (takes : Takes now latency nread payloads more c₁ c' visited) :
    Takes now latency nread payloads more c c' (c :: visited) where
  rounds := by
    have rounds := takes.rounds
    rw [last] at rounds
    exact .round pass rounds
  header := takes.header
  facing := takes.facing
  only := only.trans takes.only
  last := by rw [takes.last,last]
  shorter := by
    have before := takes.shorter
    rw [List.length_cons]
    omega
  starts := by
    intro done tail split some' filled
    rw [headerRests_header header]
    exact List.mem_cons_of_mem _ (takes.starts done tail split some' filled)
  bound := by
    intro rest member
    rw [headerRests_header header] at member
    rcases List.mem_cons.mp member with rfl | later
    · rw [place,List.length_append]
      omega
    · exact takes.bound rest later

variable (now latency nread)

theorem header_takes (facing : Facing (framed payloads ++ more) c) (header : c.readState = .header)
    (sized : Sized payloads) (long : ∀ payload ∈ payloads, 17 ≤ payload.length) :
    ∃ c' visited, Takes now latency nread payloads more c c' visited ∧
      (payloads ≠ [] → (framed payloads ++ more).length ∈ headerRests visited) := by
  induction payloads generalizing c latency with
  | nil =>
    refine ⟨c,[],⟨.refl c latency,header,facing,rfl,rfl,by simp,?_,by simp [headerRests]⟩,by simp⟩
    intro done tail split _ filled
    exact absurd (List.append_eq_nil_iff.mp split.symm).2 filled
  | cons payload rest ih =>
    have place : c.nextBuffer.readLength = (framed (payload :: rest) ++ more).length := by
      rw [← Buffer.unread_length,facing.header header]
    have facing' := facing
    simp only [framed,Framing.frame,List.append_assoc] at facing'
    obtain ⟨b₁,pass₁,-,left₁,facing₁⟩ := header_round now latency nread facing' header sized.head
    have facing₂ := facing₁
    rw [← List.append_assoc] at facing₂
    obtain ⟨b₂,pass₂,shorter₂,facing₃⟩ := payload_round now latency nread facing₂ rfl sized.head
      (long payload List.mem_cons_self)
    obtain ⟨c',visited,takes,first⟩ := ih _ facing₃ rfl sized.tail fun d inside =>
      long d (List.mem_cons_of_mem _ inside)
    have inner := Takes.cons rfl pass₂ rfl rfl shorter₂ takes first
    refine ⟨c',_,Takes.behind header place pass₁ rfl rfl ?_ inner,?_⟩
    · rw [← Buffer.unread_length,left₁,place,framed,Framing.frame]
      simp only [List.length_append,BigEndian.encode_length]
      omega
    · intro _
      rw [headerRests_header header,place]
      exact List.mem_cons_self

/-- Inside a payload the loop finishes it first. -/
theorem payload_takes (facing : Facing (framed (payload :: payloads) ++ more) c) (inside : c.readState = .payload)
    (sized : Sized (payload :: payloads)) (long : ∀ d ∈ payload :: payloads, 17 ≤ d.length) :
    ∃ c' visited, Takes now latency nread (payload :: payloads) more c c' visited := by
  simp only [framed,List.append_assoc] at facing
  obtain ⟨b,pass,shorter,facing'⟩ := payload_round now latency nread facing inside sized.head
    (long payload List.mem_cons_self)
  obtain ⟨c',visited,takes,first⟩ := header_takes now (payloadLatency now payload) nread facing' rfl sized.tail
    fun d later => long d (List.mem_cons_of_mem _ later)
  exact ⟨c',_,Takes.cons inside pass rfl rfl shorter takes first⟩

theorem Facing.state (facing : Facing more c) : c.readState = .header ∨ c.readState = .payload := by
  have place := facing.place
  cases mode : c.readState with
  | header => exact .inl rfl
  | payload => exact .inr rfl
  | none | error | invalid => simp [mode] at place

/-- How the loop ends at the bytes that block it: behind their length, if that is there. -/
structure Ends (now latency : UInt64) (nread fuel : Nat) (more : List UInt8) (c c' : Conn)
    (latency' : Option UInt64) : Prop where
  decoded : decode now nread fuel c latency = some (c', latency', [])
  waits : Incomplete more → latency' = some latency ∧ Facing more c' ∧ OnlyDecoder c c' ∧
    c'.lastRecvMsgId = c.lastRecvMsgId
  stuck : ¬ Incomplete more → Stuck c'
  once : headerRests (heads now nread fuel c latency) = if c.readState = .header then [more.length] else []

theorem Blocking.cases (blocking : Blocking more) :
    more.length < 4 ∨ ∃ length rest, more = BigEndian.encode 4 length ++ rest ∧ length < 256 ^ 4 ∧
      (rest.length < length ∨ length ≤ 16) := by
  rcases blocking with (short | ⟨length,rest,same,small,short⟩) | ⟨short,rest,few,same⟩
  · exact .inl short
  · exact .inr ⟨length,rest,same,small,.inl short⟩
  · refine .inr ⟨short.length,short ++ rest,?_,by omega,.inr few⟩
    rw [same,Framing.frame,List.append_assoc]

theorem payload_ends {length : Nat} {rest : List UInt8} (facing : Facing (BigEndian.encode 4 length ++ rest) c)
    (inside : c.readState = .payload) (small : length < 256 ^ 4) (blocks : rest.length < length ∨ length ≤ 16)
    (fuel : Nat) : ∃ c' latency', Ends now latency nread (fuel + 1) (BigEndian.encode 4 length ++ rest)
    c c' latency' := by
  obtain ⟨number,unread⟩ := Framing.header_inj small c.nextPayloadLen.toNat_lt (facing.payload inside)
  by_cases short : rest.length < length
  · have waits : c.nextBuffer.readLength < c.nextPayloadLen.toNat := by
      rw [← Buffer.unread_length,← unread,← number]
      exact short
    have done : decodeRound now nread c latency = .done := by simp [decodeRound,inside,waits]
    refine ⟨c,some latency,by simp [decode,done],fun _ => ⟨rfl,facing,rfl,rfl⟩,?_,?_⟩
    · intro complete
      exact absurd ((Framing.incomplete_iff small).mpr short) complete
    · simp [heads,done,headerRests,inside]
  · have stuck : Stuck c := ⟨facing.valid,facing.capacity,inside,by omega⟩
    obtain ⟨c',latency',decoded,stuck',visited⟩ := stuck.decode now latency nread fuel
    refine ⟨c',latency',decoded,?_,fun _ => stuck',?_⟩
    · intro incomplete
      exact absurd ((Framing.incomplete_iff small).mp incomplete) short
    · rw [visited]
      simp [headerRests,inside]

theorem blocking_ends (facing : Facing more c) (blocking : Blocking more) (fuel : Nat)
    (enough : c.nextBuffer.readLength < fuel) :
    ∃ c' latency', Ends now latency nread fuel more c c' latency' := by
  obtain ⟨fuel,rfl⟩ := Nat.exists_eq_add_of_lt (Nat.zero_lt_of_lt enough)
  rw [Nat.zero_add] at enough ⊢
  rcases blocking.cases with short | ⟨length,rest,rfl,small,blocks⟩
  · rcases facing.state with header | inside
    · have waits : c.nextBuffer.readLength < 4 := by
        rw [← Buffer.unread_length,facing.header header]
        exact short
      have done : decodeRound now nread c latency = .done := by simp [decodeRound,header,waits]
      refine ⟨c,some latency,by simp [decode,done],fun _ => ⟨rfl,facing,rfl,rfl⟩,?_,?_⟩
      · intro complete
        exact absurd (.inl short) complete
      · simp only [heads,done,headerRests_header header,header,if_true]
        rw [← Buffer.unread_length,facing.header header]
        rfl
    · have whole := congrArg List.length (facing.payload inside)
      rw [List.length_append,BigEndian.encode_length] at whole
      omega
  · rcases facing.state with header | inside
    · have place : c.nextBuffer.readLength = (BigEndian.encode 4 length ++ rest).length := by
        rw [← Buffer.unread_length,facing.header header]
      obtain ⟨b,pass,-,-,facing'⟩ := header_round now latency nread facing header small
      obtain ⟨fuel,rfl⟩ : ∃ left, fuel = left + 1 := by
        refine Nat.exists_eq_succ_of_ne_zero ?_
        rw [place,List.length_append,BigEndian.encode_length] at enough
        omega
      obtain ⟨c',latency',ends⟩ := payload_ends now latency nread facing' rfl small blocks fuel
      refine ⟨c',latency',?_,?_,ends.stuck,?_⟩
      · rw [decode]
        simp [pass,ends.decoded]
      · intro incomplete
        obtain ⟨same,facing'',only,last⟩ := ends.waits incomplete
        have first : OnlyDecoder c
            { c with nextBuffer := b, nextPayloadLen := UInt32.ofNat length, readState := .payload } := rfl
        exact ⟨same,facing'',first.trans only,last⟩
      · rw [heads]
        simp only [pass,headerRests_header header,ends.once,header,if_true,place]
        simp
    · exact payload_ends now latency nread facing inside small blocks fuel

/-- What the loop does with whole frames and the bytes behind them. -/
structure Decodes (fuel : Nat) (payloads : List (List UInt8)) (more : List UInt8) (c c' : Conn)
    (latency' : Option UInt64) : Prop where
  decoded : decode now nread fuel c latency = some (c', latency', mismatches nread c.lastRecvMsgId payloads)
  waits : Incomplete more → latency' = some (lastLatency now latency payloads) ∧ Facing more c' ∧
    OnlyDecoder c c' ∧ c'.lastRecvMsgId = payloads.foldl expectId c.lastRecvMsgId
  stuck : ¬ Incomplete more → Stuck c'
  starts : ∀ done tail, payloads = done ++ tail → done ≠ [] →
    (framed tail ++ more).length ∈ headerRests (heads now nread fuel c latency)
  bound : ∀ rest ∈ headerRests (heads now nread fuel c latency), more.length ≤ rest

theorem headerRests_append (first later : List Conn) :
    headerRests (first ++ later) = headerRests first ++ headerRests later := by
  simp [headerRests]

variable {now latency nread}

theorem Takes.decodes {visited : List Conn} (takes : Takes now latency nread payloads more c c' visited)
    (blocking : Blocking more) (fuel : Nat) (enough : c.nextBuffer.readLength < fuel) :
    ∃ c'' latency', Decodes now latency nread fuel payloads more c c'' latency' := by
  have shorter := takes.shorter
  obtain ⟨left,rfl⟩ := Nat.exists_eq_add_of_le (show visited.length ≤ fuel by omega)
  obtain ⟨c'',latency',ends⟩ := blocking_ends now (lastLatency now latency payloads) nread takes.facing blocking left
    (by omega)
  have visits : headerRests (heads now nread (visited.length + left) c latency) =
      headerRests visited ++ [more.length] := by
    rw [takes.rounds.heads,headerRests_append,ends.once,if_pos takes.header]
  refine ⟨c'',latency',?_,?_,ends.stuck,?_,?_⟩
  · rw [takes.rounds.decode,ends.decoded]
    simp
  · intro incomplete
    obtain ⟨same,facing,only,last⟩ := ends.waits incomplete
    exact ⟨same,facing,takes.only.trans only,last.trans takes.last⟩
  · intro done tail split some'
    rw [visits]
    by_cases filled : tail = []
    · simp [filled,framed]
    · exact List.mem_append_left _ (takes.starts done tail split some' filled)
  · intro rest member
    rw [visits] at member
    rcases List.mem_append.mp member with before | last
    · exact takes.bound rest before
    · rw [List.mem_singleton.mp last]

variable (now latency nread)

/-- Whole frames with payloads of 17 bytes or more are taken, whatever is behind them. -/
theorem decode_frames (facing : Facing (framed payloads ++ more) c) (sized : Sized payloads)
    (long : ∀ d ∈ payloads, 17 ≤ d.length) (blocking : Blocking more) (fuel : Nat)
    (enough : c.nextBuffer.readLength < fuel) :
    ∃ c' latency', Decodes now latency nread fuel payloads more c c' latency' := by
  rcases facing.state with header | inside
  · obtain ⟨c',visited,takes,-⟩ := header_takes now latency nread facing header sized long
    exact takes.decodes blocking fuel enough
  · cases payloads with
    | nil =>
      obtain ⟨c',latency',ends⟩ := blocking_ends now latency nread facing blocking fuel enough
      refine ⟨c',latency',ends.decoded,ends.waits,ends.stuck,?_,?_⟩
      · intro done tail split some'
        exact absurd (List.append_eq_nil_iff.mp split.symm).1 some'
      · simp [ends.once,inside]
    | cons payload payloads =>
      obtain ⟨c',visited,takes⟩ := payload_takes now latency nread facing inside sized long
      exact takes.decodes blocking fuel enough

end Takes

/-! ### A callback -/

/-- The heads of the loop in a callback with data. -/
def visitedBy (now : UInt64) (chunk : List UInt8) (c : Conn) : List Conn :=
  if chunk = [] then []
  else match c.nextBuffer.write chunk with
    | none => []
    | some b => heads now chunk.length (b.readLength + 1) { c with nextBuffer := b } 0

/-- What a callback that took these payloads adds to the statistics. -/
structure Counts (now : UInt64) (payloads : List (List UInt8)) (c c' : Conn) : Prop where
  recvMsgs : c'.recvMsgs = c.recvMsgs + 1
  latencyTotal : c'.latencyTotal = c.latencyTotal + lastLatency now 0 payloads
  latencyMax : c'.latencyMax =
    if c.latencyMax < lastLatency now 0 payloads then lastLatency now 0 payloads else c.latencyMax

/-- A callback that leaves the decoder before the rest, with an empty buffer rewound. -/
structure Waits (now : UInt64) (payloads : List (List UInt8)) (more : List UInt8) (c c' : Conn) : Prop where
  facing : Facing more c'
  rewound : c'.nextBuffer.readLength = 0 → c'.nextBuffer.buf.len = 0
  last : c'.lastRecvMsgId = payloads.foldl expectId c.lastRecvMsgId
  current : c'.currentMsgId = c.currentMsgId
  counts : Counts now payloads c c'

structure Receives (closing : Nat → Bool) (now : UInt64) (chunk : List UInt8) (payloads : List (List UInt8))
    (more : List UInt8) (c c' : Conn) : Prop where
  received : onTcpRecvCb closing now (.data chunk) c =
    some (c', mismatches chunk.length c.lastRecvMsgId payloads)
  waits : Incomplete more → Waits now payloads more c c'
  stuck : ¬ Incomplete more → Stuck c'
  starts : ∀ done tail, payloads = done ++ tail → done ≠ [] →
    (framed tail ++ more).length ∈ headerRests (visitedBy now chunk c)
  bound : ∀ rest ∈ headerRests (visitedBy now chunk c), more.length ≤ rest

section Callback

variable {closing : Nat → Bool} {now : UInt64} {nread : Nat} {latency : UInt64} {chunk more : List UInt8}
  {payloads : List (List UInt8)} {c : Conn} {b : Buffer}

theorem stored_valid (valid : c.nextBuffer.Valid) (stored : c.nextBuffer.write chunk = some b) :
    b.Valid ∧ b.unread = c.nextBuffer.unread ++ chunk ∧ b.buf.capacity = c.nextBuffer.buf.capacity := by
  obtain ⟨b',wrote,valid',unread,-,capacity⟩ := valid.write chunk (Buffer.write_cases stored).1
  obtain rfl := Option.some.inj (stored.symm.trans wrote)
  exact ⟨valid',unread,capacity⟩

theorem Facing.store (facing : Facing more c) (stored : c.nextBuffer.write chunk = some b) :
    Facing (more ++ chunk) { c with nextBuffer := b } := by
  obtain ⟨valid,unread,capacity⟩ := stored_valid facing.valid stored
  refine ⟨valid,capacity.trans facing.capacity,?_⟩
  rcases facing.state with header | inside
  · simp only [header,unread,facing.header header]
  · simp only [inside,unread]
    rw [← List.append_assoc,← facing.payload inside]

theorem recvDone_valid (now : UInt64) (nread : Nat) (latency : UInt64) (valid : c.nextBuffer.Valid)
    (capacity : c.nextBuffer.buf.capacity = nextBufSize) :
    (recvDone now nread latency c).nextBuffer.Valid ∧
      (recvDone now nread latency c).nextBuffer.buf.capacity = nextBufSize := by
  simp only [recvDone]
  split
  · exact ⟨valid.reset,capacity⟩
  · exact ⟨valid,capacity⟩

theorem Facing.recvDone (facing : Facing more c) : Facing more (recvDone now nread latency c) := by
  obtain ⟨valid,capacity⟩ := recvDone_valid now nread latency facing.valid facing.capacity
  refine ⟨valid,capacity,?_⟩
  rw [recvDone_unread]
  exact facing.place

theorem Stuck.recvDone (stuck : Stuck c) : Stuck (recvDone now nread latency c) := by
  obtain ⟨valid,capacity⟩ := recvDone_valid now nread latency stuck.valid stuck.capacity
  exact ⟨valid,capacity,stuck.inside,stuck.short⟩

theorem recvDone_rewound (empty : (Connection.recvDone now nread latency c).nextBuffer.readLength = 0) :
    (Connection.recvDone now nread latency c).nextBuffer.buf.len = 0 := by
  rw [recvDone_readLength] at empty
  simp only [Connection.recvDone,if_pos empty]
  rfl

theorem onTcpRecvCb_stored (some' : chunk ≠ []) (stored : c.nextBuffer.write chunk = some b) {c' : Conn}
    {latency' : Option UInt64} {effects : List Effect}
    (decoded : decode now chunk.length (b.readLength + 1) { c with nextBuffer := b } 0 =
      some (c', latency', effects)) :
    onTcpRecvCb closing now (.data chunk) c =
      some ((latency'.map fun latency => Connection.recvDone now chunk.length latency c').getD c', effects) := by
  cases chunk with
  | nil => exact absurd rfl some'
  | cons byte bytes =>
    simp only [onTcpRecvCb,stored,decoded,Option.map_some]
    cases latency' <;> rfl

variable (closing now)

theorem recv_frames {before : List UInt8} (facing : Facing before c) (some' : chunk ≠ [])
    (stored : c.nextBuffer.write chunk = some b) (whole : before ++ chunk = framed payloads ++ more)
    (sized : Sized payloads) (long : ∀ d ∈ payloads, 17 ≤ d.length) (blocking : Blocking more) :
    ∃ c', Receives closing now chunk payloads more c c' := by
  have facing' := facing.store stored
  rw [whole] at facing'
  obtain ⟨c',latency',decodes⟩ :=
    decode_frames now 0 chunk.length facing' sized long blocking (b.readLength + 1) (Nat.lt_succ_self _)
  have visited : visitedBy now chunk c =
      heads now chunk.length (b.readLength + 1) { c with nextBuffer := b } 0 := by
    simp only [visitedBy,if_neg some',stored]
  refine ⟨_,onTcpRecvCb_stored some' stored decodes.decoded,?_,?_,?_,?_⟩
  · intro incomplete
    obtain ⟨same,facing'',only,last⟩ := decodes.waits incomplete
    rw [same,Option.map_some,Option.getD_some]
    refine ⟨facing''.recvDone,recvDone_rewound,last,?_,?_,?_,?_⟩
    · simp only [Connection.recvDone]
      rw [only]
    · simp only [Connection.recvDone]
      rw [only]
    · simp only [Connection.recvDone]
      rw [only]
    · simp only [Connection.recvDone]
      rw [only]
  · intro complete
    have stuck := decodes.stuck complete
    cases latency' with
    | none => exact stuck
    | some latency => exact stuck.recvDone
  · rw [visited]
    exact decodes.starts
  · rw [visited]
    exact decodes.bound

/-- A stuck decoder takes nothing of what arrives, and never stands before a header. -/
theorem Stuck.recv (stuck : Stuck c) (some' : chunk ≠ []) (stored : c.nextBuffer.write chunk = some b) :
    ∃ c', onTcpRecvCb closing now (.data chunk) c = some (c', []) ∧ Stuck c' ∧
      headerRests (visitedBy now chunk c) = [] := by
  obtain ⟨valid,-,capacity⟩ := stored_valid stuck.valid stored
  have stuck' : Stuck { c with nextBuffer := b } :=
    ⟨valid,capacity.trans stuck.capacity,stuck.inside,stuck.short⟩
  obtain ⟨c',latency',decoded,still,visited⟩ := stuck'.decode now 0 chunk.length b.readLength
  refine ⟨_,onTcpRecvCb_stored some' stored decoded,?_,?_⟩
  · cases latency' with
    | none => exact still
    | some latency => exact still.recvDone
  · simp only [visitedBy,if_neg some',stored,visited]
    exact headerRests_payload stuck'.inside []

end Callback

/-! ### A run of callbacks -/

/-- Callbacks on chunks without a short payload in them, behind bytes of an incomplete frame. -/
inductive Fed (closing : Nat → Bool) : List UInt8 → Conn → List Arrival → Conn → List Effect → Prop
  | done {before : List UInt8} {c : Conn} : Facing before c → Incomplete before → Fed closing before c [] c []
  | skip {before : List UInt8} {c c' : Conn} {a : Arrival} {arrivals : List Arrival} {effects : List Effect} :
      a.bytes = [] → Fed closing before c arrivals c' effects → Fed closing before c (a :: arrivals) c' effects
  | take {before : List UInt8} {c c₁ c' : Conn} {a : Arrival} {arrivals : List Arrival} {later : List Effect} :
      a.bytes ≠ [] →
      Receives closing a.now a.bytes (Framing.payloads (before ++ a.bytes)) (Framing.remainder (before ++ a.bytes))
        c c₁ →
      Fed closing (Framing.remainder (before ++ a.bytes)) c₁ arrivals c' later →
      Fed closing before c (a :: arrivals) c'
        (mismatches a.bytes.length c.lastRecvMsgId (Framing.payloads (before ++ a.bytes)) ++ later)

section Feed

variable {closing : Nat → Bool} {c : Conn} {arrivals : List Arrival} {before : List UInt8}

theorem feed_cons {a : Arrival} {c₁ c' : Conn} {first later : List Effect}
    (received : onTcpRecvCb closing a.now (.data a.bytes) c = some (c₁, first))
    (fed : feed closing arrivals c₁ = some (c', later)) :
    feed closing (a :: arrivals) c = some (c', first ++ later) := by
  simp [feed,received,fed]

theorem recv_nothing {a : Arrival} (nothing : a.bytes = []) :
    onTcpRecvCb closing a.now (.data a.bytes) c = some (c, []) := by
  rw [nothing]
  rfl

theorem Kept.next {a : Arrival} {c₁ : Conn} {first : List Effect} (kept : Kept closing (a :: arrivals) c)
    (received : onTcpRecvCb closing a.now (.data a.bytes) c = some (c₁, first)) : Kept closing arrivals c₁ := by
  obtain ⟨-,next,received',later⟩ := kept
  obtain rfl := Option.some.inj (received.symm.trans received')
  exact later

theorem fed_of_kept (facing : Facing before c) (open' : Incomplete before) (kept : Kept closing arrivals c)
    (long : ∀ d ∈ Framing.payloads (before ++ arrivals.flatMap (·.bytes)), 17 ≤ d.length) :
    ∃ c' effects, Fed closing before c arrivals c' effects := by
  induction arrivals generalizing c before with
  | nil => exact ⟨c,[],.done facing open'⟩
  | cons a arrivals ih =>
    rw [List.flatMap_cons,← List.append_assoc] at long
    by_cases nothing : a.bytes = []
    · rw [nothing,List.append_nil] at long
      obtain ⟨c',effects,fed⟩ := ih facing open' (kept.next (recv_nothing nothing)) long
      exact ⟨c',effects,.skip nothing fed⟩
    · rw [(Framing.payloads_append _ _).1] at long
      obtain ⟨whole,sized,incomplete⟩ := Framing.payloads_spec (before ++ a.bytes)
      obtain ⟨b,stored⟩ := Option.isSome_iff_exists.mp kept.1
      obtain ⟨c₁,receives⟩ := recv_frames closing a.now facing nothing stored whole sized
        (fun d inside => long d (List.mem_append_left _ inside)) (.inl incomplete)
      obtain ⟨c',effects,fed⟩ := ih (receives.waits incomplete).facing incomplete (kept.next receives.received)
        fun d inside => long d (List.mem_append_right _ inside)
      exact ⟨c',_,.take nothing receives fed⟩

theorem Fed.feed {c' : Conn} {effects : List Effect} (fed : Fed closing before c arrivals c' effects) :
    feed closing arrivals c = some (c', effects) := by
  induction fed with
  | done _ _ => rfl
  | skip nothing _ ih => exact feed_cons (recv_nothing nothing) ih
  | take _ receives _ ih => exact feed_cons receives.received ih

theorem Fed.facing {c' : Conn} {effects : List Effect} (fed : Fed closing before c arrivals c' effects) :
    Facing (Framing.remainder (before ++ arrivals.flatMap (·.bytes))) c' := by
  induction fed with
  | done facing open' =>
    rw [List.flatMap_nil,List.append_nil,Framing.remainder_incomplete open']
    exact facing
  | skip nothing _ ih =>
    rw [List.flatMap_cons,nothing,List.nil_append]
    exact ih
  | take _ _ _ ih =>
    rw [List.flatMap_cons,← List.append_assoc,(Framing.payloads_append _ _).2]
    exact ih

end Feed

end Tcpeen.Connection
