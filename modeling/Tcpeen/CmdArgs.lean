import Tcpeen.ByteCursor

/-! `parse_tcploadgen_args` from the point where argparse has filled `cmdline_args`. The two
entries of `bc_array` hold anything; what argparse prints of its usage is left out. -/
namespace Tcpeen.CmdArgs

open ByteCursor

/-- `cmdline_args_t`; `host` is its array of 255 bytes. -/
structure CmdlineArgs (memory : Memory) where
  clients : Int
  rate : Int
  prefixLen : Int
  time : Int
  msglen : Int
  message : Option (CString memory)
  server : Option (CString memory)
  host : List UInt8
  port : Int

inductive Complaint
  | message | missingServer | server | port | prefixLen
  deriving DecidableEq, Repr

/-- What the call prints; the texts with a blank at their end go on with the server string. -/
def Complaint.text : Complaint → String
  | .message => "Invalid or missing message"
  | .missingServer => "Invalid or missing server"
  | .server => "Invalid server (must be IP:Port format): "
  | .port => "Invalid port: "
  | .prefixLen => "Invalid prefix length, must the bit length of an int: 8, 16, 32, or 64"

/-- A call that returns 0, or -1 with its complaint, or does not return. -/
inductive Outcome (memory : Memory)
  | accepted (args : CmdlineArgs memory)
  | refused (why : Complaint) (args : CmdlineArgs memory)
  | faulted
  | spins

def Outcome.code {memory : Memory} : Outcome memory → Option Int
  | .accepted _ => some 0
  | .refused .. => some (-1)
  | _ => none

def isSpace (b : UInt8) : Bool := b = 32 || 9 ≤ b && b ≤ 13

def isDigit (b : UInt8) : Bool := 48 ≤ b && b ≤ 57

/-- The value of decimal digits. -/
def decimal (digits : List UInt8) : Nat := digits.foldl (fun n b => 10 * n + (b.toNat - 48)) 0

/-- The number that `atoi` finds after blanks and a sign. -/
def leading (s : List UInt8) : Nat := decimal (s.takeWhile isDigit)

def atoi (s : List UInt8) : Int :=
  match s.dropWhile isSpace with
  | [] => 0
  | b :: rest => if b = 45 then - (leading rest : Int) else if b = 43 then leading rest else leading (b :: rest)

/-- `char buf[32] = { 0 }` after a `memcpy` to its start. -/
def padded (bytes : List UInt8) : List UInt8 := bytes ++ List.replicate (32 - bytes.length) 0

/-- The conversion of a length to `int`. -/
def toInt (n : Nat) : Int := Int.bmod n (2 ^ 32)

variable {memory : Memory}

/-- The checks of the two entries, and what follows them. -/
def parseParts (host port : AwsByteCursor) (args : CmdlineArgs memory) : Outcome memory :=
  if 16 < host.len ∨ host.len ≤ 0 ∨ 5 < port.len ∨ host.len ≤ 0 then .refused .server args
  else match load memory host.ptr host.len, load memory port.ptr port.len with
    | some shost, some sport =>
      let port := atoi (padded sport)
      if port ≤ 0 ∨ 65535 < port then .refused .port args
      else
        let args := { args with host := padded shost ++ args.host.drop 32, port }
        if args.prefixLen ≠ 0 ∧ (args.prefixLen.tmod 8 ≠ 0 ∨ 64 < args.prefixLen ∨ args.prefixLen < 0) then
          .refused .prefixLen args
        else .accepted args
    | _, _ => .faulted

/-- `sizeof(struct aws_byte_cursor)`. -/
def cursorSize : Nat := 16

def parseServer (bcArray : Nat → AwsByteCursor) (server : CString memory) (args : CmdlineArgs memory) :
    Outcome memory :=
  let bcList := awsArrayListInitStatic bcArray 2 cursorSize
  match awsByteCursorSplitOnChar memory (awsByteCursorFromCStr server) 58 bcList with
  | none => .spins
  | some (false, _) => .refused .server args
  | some (true, bcList) => parseParts (bcList.data 0) (bcList.data 1) args

def parseTcploadgenArgs (bcArray : Nat → AwsByteCursor) (args : CmdlineArgs memory) : Outcome memory :=
  let args := { args with
    clients := if args.clients ≤ 0 then 1 else args.clients
    rate := if args.rate < 0 then 1 else args.rate
    time := if args.time ≤ 0 then 10 else args.time }
  match args.message with
  | none => .refused .message args
  | some message =>
    let args := { args with msglen := toInt message.bytes.length }
    if args.msglen ≤ 0 then .refused .message args
    else match args.server with
      | none => .refused .missingServer args
      | some server => parseServer bcArray server args

/-- The string is a host and a port with a colon between them. -/
structure Address (s host port : List UInt8) : Prop where
  text : s = host ++ 58 :: port
  hostColon : 58 ∉ host
  portColon : 58 ∉ port
  hostSome : 1 ≤ host.length
  hostFits : host.length ≤ 16
  portSome : 1 ≤ port.length
  portFits : port.length ≤ 5
  digits : ∀ b ∈ port, isDigit b = true
  positive : 1 ≤ decimal port
  small : decimal port ≤ 65535

/-- The call accepts addresses, takes them apart, and returns -1 for all else. -/
structure Decides (s : List UInt8) (out : Outcome memory) : Prop where
  accepts : ∀ host port, Address s host port →
    ∃ args, out = .accepted args ∧ args.host.takeWhile (· != 0) = host ∧ args.port = decimal port
  refuses : (¬ ∃ host port, Address s host port) → out.code = some (-1)

/-- A number that is taken for a port. -/
def IsPort (port : Int) : Prop := 0 < port ∧ port ≤ 65535

instance (port : Int) : Decidable (IsPort port) := inferInstanceAs (Decidable (_ ∧ _))

/-- A host that passes the checks, and an entry that is short enough and passes for a port though
the string has no such part: behind the colon there is more than a number, or there is no colon
and the entry is what the stack held. -/
inductive Misread (memory : Memory) (leftover : AwsByteCursor) (s : List UInt8) : Prop
  | tail {host port : List UInt8} : s = host ++ 58 :: port → 58 ∉ host → 58 ∉ port → 1 ≤ host.length →
      host.length ≤ 16 → port.length ≤ 5 → (∃ b ∈ port, isDigit b = false) → IsPort (atoi port) →
      Misread memory leftover s
  | leftover : 58 ∉ s → 1 ≤ s.length → s.length ≤ 16 → leftover.len ≤ 5 →
      (∀ bytes, load memory leftover.ptr leftover.len = some bytes → IsPort (atoi bytes)) →
      Misread memory leftover s

/-- The message has a positive length as an `int` and nothing is misread; or it has none, and
then the call refuses everything. -/
def ReadRight (message : CString memory) (leftover : AwsByteCursor) (s : List UInt8) : Prop :=
  if 0 < toInt message.bytes.length then ¬ Misread memory leftover s
  else ¬ ∃ host port, Address s host port

section Split

variable {server : CString memory} {bcArray : Nat → AwsByteCursor} {args : CmdlineArgs memory}

/-- Two parts fit into the list. -/
theorem pushAll_two (bcArray : Nat → AwsByteCursor) (first second : AwsByteCursor) (more : List AwsByteCursor) :
    pushAll (awsArrayListInitStatic bcArray 2 cursorSize) [first] =
        (true, ⟨2 * cursorSize,cursorSize,1,Function.update bcArray 0 first⟩) ∧
      pushAll (awsArrayListInitStatic bcArray 2 cursorSize) [first,second] =
        (true, ⟨2 * cursorSize,cursorSize,2,Function.update (Function.update bcArray 0 first) 1 second⟩) ∧
      ∀ third, ∃ list, pushAll (awsArrayListInitStatic bcArray 2 cursorSize) (first :: second :: third :: more) =
        (false, list) :=
  ⟨rfl,rfl,fun _ => ⟨_,rfl⟩⟩

theorem parseServer_absent (absent : 58 ∉ server.bytes) :
    parseServer bcArray server args = parseParts ⟨server.ptr,server.bytes.length⟩ (bcArray 1) args := by
  simp only [parseServer,awsByteCursorSplitOnChar_parts,List.splitOn_eq_singleton absent,cursorsOf,
    (pushAll_two bcArray _ ⟨0,0⟩ []).1]
  rfl

theorem parseServer_two {host port : List UInt8} (text : server.bytes = host ++ 58 :: port)
    (hostColon : 58 ∉ host) (portColon : 58 ∉ port) :
    parseServer bcArray server args =
      parseParts ⟨server.ptr,host.length⟩ ⟨server.ptr + host.length + 1,port.length⟩ args := by
  simp only [parseServer,awsByteCursorSplitOnChar_parts,text,List.splitOn_append_cons_self_of_not_mem hostColon,
    List.splitOn_eq_singleton portColon,cursorsOf,(pushAll_two bcArray _ _ []).2.1]
  rfl

theorem parseServer_more {host rest : List UInt8} (text : server.bytes = host ++ 58 :: rest)
    (hostColon : 58 ∉ host) (again : 58 ∈ rest) :
    parseServer bcArray server args = .refused .server args := by
  obtain ⟨second,third,rfl,secondColon⟩ := List.eq_append_cons_of_mem again
  obtain ⟨part,parts,split⟩ := List.exists_cons_of_ne_nil (List.splitOn_ne_nil 58 third)
  obtain ⟨list,full⟩ := (pushAll_two bcArray ⟨server.ptr,host.length⟩
    ⟨server.ptr + host.length + 1,second.length⟩
    (cursorsOf (server.ptr + host.length + 1 + second.length + 1 + part.length + 1) parts)).2.2
      ⟨server.ptr + host.length + 1 + second.length + 1,part.length⟩
  simp only [parseServer,awsByteCursorSplitOnChar_parts,text,List.splitOn_append_cons_self_of_not_mem hostColon,
    List.splitOn_append_cons_self_of_not_mem secondColon,split,cursorsOf,full]

end Split

section Numbers

variable {digits rest : List UInt8}

theorem takeWhile_padded (p : UInt8 → Bool) (stops : p 0 = false) (bytes : List UInt8) (n : Nat) :
    (bytes ++ List.replicate n 0).takeWhile p = bytes.takeWhile p := by
  rw [List.takeWhile_append]
  split
  · have none' : (List.replicate n (0 : UInt8)).takeWhile p = [] := by simp [stops]
    rw [none',List.append_nil]
    next whole => exact (List.takeWhile_prefix p).eq_of_length whole |>.symm
  · rfl

theorem leading_padded (bytes : List UInt8) (n : Nat) : leading (bytes ++ List.replicate n 0) = leading bytes := by
  rw [leading,leading,takeWhile_padded isDigit (by decide)]

/-- The null bytes behind a number do not change it. -/
theorem atoi_padded (bytes : List UInt8) : atoi (padded bytes) = atoi bytes := by
  have zeros (n : Nat) : atoi (List.replicate n 0) = 0 := by
    cases n <;> rfl
  rw [padded,atoi,atoi,List.dropWhile_append]
  cases dropped : bytes.dropWhile isSpace with
  | nil => exact zeros _
  | cons b rest =>
    have same : leading (b :: rest ++ List.replicate (32 - bytes.length) 0) = leading (b :: rest) := leading_padded ..
    have same' : leading (rest ++ List.replicate (32 - bytes.length) 0) = leading rest := leading_padded ..
    change (if b = 45 then - (leading (rest ++ _) : Int) else if b = 43 then (leading (rest ++ _) : Int)
      else leading (b :: rest ++ _)) = _
    rw [same,same']

/-- Digits are the number that they are. -/
theorem atoi_digits (all : ∀ b ∈ digits, isDigit b = true) : atoi digits = decimal digits := by
  cases digits with
  | nil => rfl
  | cons b rest =>
    have first : isDigit b = true := all b (List.mem_cons_self ..)
    have notSpace : isSpace b = false := by
      simp only [isDigit,Bool.and_eq_true,decide_eq_true_eq] at first
      simp only [isSpace,Bool.or_eq_false_iff,decide_eq_false_iff_not,Bool.and_eq_false_iff]
      constructor
      · rintro rfl
        exact absurd first.1 (by decide)
      · exact .inr (UInt8.not_le.mpr (UInt8.lt_of_lt_of_le (by decide) first.1))
    have notSign : b ≠ 45 ∧ b ≠ 43 := by
      constructor <;> rintro rfl <;> exact absurd first (by decide)
    rw [atoi,List.dropWhile_cons_of_neg (by simp [notSpace])]
    simp only [if_neg notSign.1,if_neg notSign.2,leading,List.takeWhile_eq_self_iff.mpr all]

end Numbers

section Parts

variable {server : CString memory} {bcArray : Nat → AwsByteCursor} {args : CmdlineArgs memory}
  {host port : AwsByteCursor}

theorem parseParts_refuses (wrong : 16 < host.len ∨ host.len ≤ 0 ∨ 5 < port.len) :
    parseParts host port args = .refused .server args := by
  rw [parseParts,if_pos (by omega)]

/-- Past the checks of the lengths the number decides. -/
theorem parseParts_number {shost sport : List UInt8} (none' : args.prefixLen = 0)
    (right : ¬ (16 < host.len ∨ host.len ≤ 0 ∨ 5 < port.len)) (first : load memory host.ptr host.len = some shost)
    (second : load memory port.ptr port.len = some sport) :
    parseParts host port args =
      if IsPort (atoi sport) then
        .accepted { args with host := padded shost ++ args.host.drop 32, port := atoi sport }
      else .refused .port args := by
  have passed : ¬ (16 < host.len ∨ host.len ≤ 0 ∨ 5 < port.len ∨ host.len ≤ 0) := by omega
  rw [parseParts,if_neg passed,first,second]
  by_cases number : IsPort (atoi sport)
  · have inside : ¬ (atoi sport ≤ 0 ∨ 65535 < atoi sport) := by
      obtain ⟨positive,small⟩ := number
      omega
    simp [atoi_padded,number,inside,none']
  · have outside : atoi sport ≤ 0 ∨ 65535 < atoi sport := by
      by_contra both
      exact number ⟨by omega,by omega⟩
    simp [atoi_padded,number,outside]

theorem parseParts_faults {shost : List UInt8}
    (right : ¬ (16 < host.len ∨ host.len ≤ 0 ∨ 5 < port.len)) (first : load memory host.ptr host.len = some shost)
    (second : load memory port.ptr port.len = none) : parseParts host port args = .faulted := by
  have passed : ¬ (16 < host.len ∨ host.len ≤ 0 ∨ 5 < port.len ∨ host.len ≤ 0) := by omega
  rw [parseParts,if_neg passed,first,second]

/-- The host that the call leaves is a string again. -/
theorem padded_string {bytes rest : List UInt8} (short : bytes.length ≤ 16) (noNull : 0 ∉ bytes) :
    (padded bytes ++ rest).takeWhile (· != 0) = bytes := by
  have some' : 32 - bytes.length = 31 - bytes.length + 1 := by omega
  rw [padded,List.append_assoc,List.takeWhile_append_of_pos (all_bne noNull),some',List.replicate_succ]
  simp

end Parts

section Decide

variable {s host port host' port' : List UInt8} {out : Outcome memory}

theorem cut_unique (hostColon : 58 ∉ host) (hostColon' : 58 ∉ host')
    (same : host ++ 58 :: port = host' ++ 58 :: port') : host = host' ∧ port = port' := by
  have heads := congrArg (List.takeWhile (· != 58)) same
  rw [List.takeWhile_append_of_pos (all_bne hostColon),List.takeWhile_append_of_pos (all_bne hostColon')] at heads
  have equal : host = host' := by simpa using heads
  subst equal
  simpa using same

theorem Decides.of_refused (code : out.code = some (-1)) (none' : ¬ ∃ host port, Address s host port) :
    Decides s out where
  accepts host port address := absurd ⟨host,port,address⟩ none'
  refuses _ := code

theorem Address.isPort (address : Address s host port) : IsPort (atoi port) := by
  rw [atoi_digits address.digits]
  have positive := address.positive
  have small := address.small
  exact ⟨by omega,by omega⟩

end Decide

section Whole

variable {server : CString memory} {bcArray : Nat → AwsByteCursor} {args : CmdlineArgs memory}

/-- Without a colon there is no address, and the second entry is what the stack held. -/
theorem parseServer_absent_exact (none' : args.prefixLen = 0) (absent : 58 ∉ server.bytes) :
    Decides server.bytes (parseServer bcArray server args) ↔ ¬ Misread memory (bcArray 1) server.bytes := by
  have noAddress : ¬ ∃ host port, Address server.bytes host port := by
    rintro ⟨host,port,address⟩
    exact absent (by simp [address.text])
  have left (misread : Misread memory (bcArray 1) server.bytes) :
      1 ≤ server.bytes.length ∧ server.bytes.length ≤ 16 ∧ (bcArray 1).len ≤ 5 ∧
        ∀ bytes, load memory (bcArray 1).ptr (bcArray 1).len = some bytes → IsPort (atoi bytes) := by
    cases misread with
    | tail text => exact absurd (by simp [text]) absent
    | leftover _ some' fits short number => exact ⟨some',fits,short,number⟩
  rw [parseServer_absent absent]
  have first := load_holds server.holds_bytes
  by_cases wrong : 16 < server.bytes.length ∨ server.bytes.length ≤ 0 ∨ 5 < (bcArray 1).len
  · rw [parseParts_refuses wrong]
    refine iff_of_true (.of_refused rfl noAddress) fun misread => ?_
    have := left misread
    omega
  · cases second : load memory (bcArray 1).ptr (bcArray 1).len with
    | none =>
      rw [parseParts_faults wrong first second]
      refine iff_of_false (fun decides => by cases decides.refuses noAddress) (not_not.mpr ?_)
      exact .leftover absent (by omega) (by omega) (by omega) (by simp [second])
    | some sport =>
      rw [parseParts_number none' wrong first second]
      by_cases number : IsPort (atoi sport)
      · rw [if_pos number]
        refine iff_of_false (fun decides => by cases decides.refuses noAddress) (not_not.mpr ?_)
        exact .leftover absent (by omega) (by omega) (by omega) (by simpa [second] using number)
      · rw [if_neg number]
        exact iff_of_true (.of_refused rfl noAddress) fun misread => number ((left misread).2.2.2 sport second)

/-- With one colon the number decides. -/
theorem parseServer_two_exact {host port : List UInt8} (none' : args.prefixLen = 0)
    (text : server.bytes = host ++ 58 :: port) (hostColon : 58 ∉ host) (portColon : 58 ∉ port) :
    Decides server.bytes (parseServer bcArray server args) ↔ ¬ Misread memory (bcArray 1) server.bytes := by
  have parts {host' port' : List UInt8} (text' : server.bytes = host' ++ 58 :: port') (hostColon' : 58 ∉ host') :
      host = host' ∧ port = port' := cut_unique hostColon hostColon' (text.symm.trans text')
  have holds := server.holds_bytes
  rw [text,holds_append] at holds
  have first := load_holds holds.1
  have second := load_holds holds.2.2
  have left (misread : Misread memory (bcArray 1) server.bytes) :
      1 ≤ host.length ∧ host.length ≤ 16 ∧ port.length ≤ 5 ∧ (∃ b ∈ port, isDigit b = false) ∧
        IsPort (atoi port) := by
    cases misread with
    | tail text' hostColon' _ some' fits short more number =>
      obtain ⟨rfl,rfl⟩ := parts text' hostColon'
      exact ⟨some',fits,short,more,number⟩
    | leftover absent => exact absurd (by simp [text]) absent
  rw [parseServer_two text hostColon portColon]
  by_cases wrong : 16 < host.length ∨ host.length ≤ 0 ∨ 5 < port.length
  · rw [parseParts_refuses wrong]
    refine iff_of_true (.of_refused rfl ?_) fun misread => ?_
    · rintro ⟨host',port',address⟩
      obtain ⟨rfl,rfl⟩ := parts address.text address.hostColon
      have some' := address.hostSome
      have fits := address.hostFits
      have short := address.portFits
      omega
    · have := left misread
      omega
  · rw [parseParts_number none' wrong first second]
    by_cases number : IsPort (atoi port)
    · rw [if_pos number]
      by_cases more : ∃ b ∈ port, isDigit b = false
      · refine iff_of_false (fun decides => ?_) (not_not.mpr ?_)
        · have noAddress : ¬ ∃ host port, Address server.bytes host port := by
            rintro ⟨host',port',address⟩
            obtain ⟨rfl,rfl⟩ := parts address.text address.hostColon
            obtain ⟨b,member,other⟩ := more
            exact absurd (address.digits b member) (by simp [other])
          cases decides.refuses noAddress
        · exact .tail text hostColon portColon (by omega) (by omega) (by omega) more number
      · have digits (b : UInt8) (member : b ∈ port) : isDigit b = true := by
          by_contra other
          exact more ⟨b,member,by simpa using other⟩
        have value := atoi_digits digits
        have range := number
        rw [value] at range
        have some' : port ≠ [] := by
          rintro rfl
          exact absurd range (by decide)
        have address : Address server.bytes host port :=
          { text := text, hostColon := hostColon, portColon := portColon, hostSome := by omega
            hostFits := by omega, portSome := List.length_pos_iff.mpr some', portFits := by omega
            digits := digits, positive := by have := range.1; omega, small := by have := range.2; omega }
        refine iff_of_true ⟨?_,fun none' => absurd ⟨_,_,address⟩ none'⟩ fun misread => more (left misread).2.2.2.1
        intro host' port' address'
        obtain ⟨rfl,rfl⟩ := parts address'.text address'.hostColon
        have noNull : 0 ∉ host := fun inside => server.noNull (by simp [text,inside])
        exact ⟨_,rfl,padded_string (by omega) noNull,value⟩
    · rw [if_neg number]
      refine iff_of_true (.of_refused rfl ?_) fun misread => number (left misread).2.2.2.2
      rintro ⟨host',port',address⟩
      obtain ⟨rfl,rfl⟩ := parts address.text address.hostColon
      exact number address.isPort

theorem parseServer_more_exact {host rest : List UInt8}
    (text : server.bytes = host ++ 58 :: rest) (hostColon : 58 ∉ host) (again : 58 ∈ rest) :
    Decides server.bytes (parseServer bcArray server args) ↔ ¬ Misread memory (bcArray 1) server.bytes := by
  have other {host' port' : List UInt8} (text' : server.bytes = host' ++ 58 :: port') (hostColon' : 58 ∉ host') :
      58 ∈ port' := (cut_unique hostColon hostColon' (text.symm.trans text')).2 ▸ again
  rw [parseServer_more text hostColon again]
  refine iff_of_true (.of_refused rfl ?_) ?_
  · rintro ⟨host',port',address⟩
    exact address.portColon (other address.text address.hostColon)
  · intro misread
    cases misread with
    | tail text' hostColon' portColon' => exact portColon' (other text' hostColon')
    | leftover absent => exact absent (by simp [text])

theorem parseServer_exact (none' : args.prefixLen = 0) :
    Decides server.bytes (parseServer bcArray server args) ↔ ¬ Misread memory (bcArray 1) server.bytes := by
  by_cases colon : 58 ∈ server.bytes
  · obtain ⟨host,rest,text,hostColon⟩ := List.eq_append_cons_of_mem colon
    by_cases again : 58 ∈ rest
    · exact parseServer_more_exact text hostColon again
    · exact parseServer_two_exact none' text hostColon again
  · exact parseServer_absent_exact none' colon

theorem parse_exact (bcArray : Nat → AwsByteCursor) {message : CString memory}
    (messageGiven : args.message = some message)
    (serverGiven : args.server = some server) (none' : args.prefixLen = 0)
    (positive : 0 < toInt message.bytes.length) :
    Decides server.bytes (parseTcploadgenArgs bcArray args) ↔ ¬ Misread memory (bcArray 1) server.bytes := by
  simp only [parseTcploadgenArgs,messageGiven,serverGiven]
  rw [if_neg (Int.not_le.mpr positive)]
  exact parseServer_exact none'

end Whole

/-- For every string, every message and whatever is on the stack: the call decides about the string
as described exactly where it is read right. -/
theorem server_decided (bcArray : Nat → AwsByteCursor) (args : CmdlineArgs memory) (message server : CString memory)
    (messageGiven : args.message = some message) (serverGiven : args.server = some server)
    (none' : args.prefixLen = 0) :
    Decides server.bytes (parseTcploadgenArgs bcArray args) ↔ ReadRight message (bcArray 1) server.bytes := by
  rw [ReadRight]
  by_cases positive : 0 < toInt message.bytes.length
  · rw [if_pos positive]
    exact parse_exact bcArray messageGiven serverGiven none' positive
  · rw [if_neg positive]
    simp only [parseTcploadgenArgs,messageGiven,serverGiven]
    rw [if_pos (Int.not_lt.mp positive)]
    refine ⟨?_,.of_refused rfl⟩
    rintro decides ⟨host,port,address⟩
    obtain ⟨args',accepted,-⟩ := decides.accepts host port address
    cases accepted

/-- The bytes and a null byte from an address on. -/
def placed (ptr : Nat) (bytes : List UInt8) : Memory := fun a => if ptr ≤ a then (bytes ++ [0])[a - ptr]? else none

/-- `h:80`, `h:80a` and `h`, the message `m`, and a `9` that is left on the stack. -/
def sample : Memory := fun a =>
  placed 16 [104,58,56,48] a <|> placed 32 [104,58,56,48,97] a <|> placed 48 [104] a <|> placed 64 [109] a <|>
    placed 80 [57] a

def sampleAddress : CString sample := ⟨16,[104,58,56,48],by decide,by decide,by decide,by decide⟩

def sampleTail : CString sample := ⟨32,[104,58,56,48,97],by decide,by decide,by decide,by decide⟩

def sampleHost : CString sample := ⟨48,[104],by decide,by decide,by decide,by decide⟩

def sampleMessage : CString sample := ⟨64,[109],by decide,by decide,by decide,by decide⟩

def sampleArgs (server : CString sample) : CmdlineArgs sample where
  clients := 0
  rate := 0
  prefixLen := 0
  time := 0
  msglen := 0
  message := some sampleMessage
  server := some server
  host := List.replicate 255 0
  port := 0

/-- A stack with nothing on it. -/
def clean : Nat → AwsByteCursor := fun _ => ⟨0,0⟩

theorem server_decided_address : ∃ args, parseTcploadgenArgs clean (sampleArgs sampleAddress) = .accepted args ∧
    args.host.takeWhile (· != 0) = [104] ∧ args.port = 80 := by
  have right : ReadRight sampleMessage (clean 1) sampleAddress.bytes := by
    rw [ReadRight,if_pos (by decide)]
    intro misread
    cases misread with
    | tail text hostColon _ _ _ _ more =>
      obtain ⟨rfl,rfl⟩ := cut_unique (by decide) hostColon (show [104] ++ 58 :: [56,48] = _ from text)
      exact absurd more (by decide)
    | leftover absent => exact absurd absent (by decide)
  have decides := (server_decided clean (sampleArgs sampleAddress) sampleMessage sampleAddress rfl rfl rfl).mpr right
  have digits : ∀ b ∈ ([56,48] : List UInt8), isDigit b = true := List.all_eq_true.mp (by decide)
  exact decides.accepts [104] [56,48] ⟨rfl,by decide,by decide,by decide,by decide,by decide,by decide,digits,
    by decide,by decide⟩

/-- `h:80a` is accepted; `h` is accepted or not with what the stack holds. -/
theorem misread_accepted :
    ¬ Decides sampleTail.bytes (parseTcploadgenArgs clean (sampleArgs sampleTail)) ∧
    ¬ Decides sampleHost.bytes (parseTcploadgenArgs (fun _ => ⟨80,1⟩) (sampleArgs sampleHost)) ∧
    (parseTcploadgenArgs clean (sampleArgs sampleTail)).code = some 0 ∧
    (parseTcploadgenArgs (fun _ => ⟨80,1⟩) (sampleArgs sampleHost)).code = some 0 ∧
    (parseTcploadgenArgs clean (sampleArgs sampleHost)).code = some (-1) := by
  have tail : Misread sample (clean 1) sampleTail.bytes :=
    .tail (show _ = [104] ++ 58 :: [56,48,97] from rfl) (by decide) (by decide) (by decide) (by decide) (by decide)
      (by decide) (by decide)
  have leftover : Misread sample ⟨80,1⟩ sampleHost.bytes := by
    refine .leftover (by decide) (by decide) (by decide) (by decide) fun bytes loaded => ?_
    obtain rfl := Option.some.inj (loaded.symm.trans (show load sample 80 1 = some [57] from rfl))
    decide
  have positive : 0 < toInt sampleMessage.bytes.length := by decide
  refine ⟨?_,?_,by decide,by decide,by decide⟩
  · exact (parse_exact clean rfl rfl rfl positive).not.mpr (not_not.mpr tail)
  · exact (parse_exact _ rfl rfl rfl positive).not.mpr (not_not.mpr leftover)

end Tcpeen.CmdArgs
