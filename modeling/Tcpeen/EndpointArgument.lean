import Tcpeen.CmdArgs
import Tcpeen.Endpoint

/-! The text of an endpoint as the server of tcplg.c: `parse_tcploadgen_args` takes it apart and
`tcp_connect_begin` hands the parts to `tn_endpoint_set`. -/
namespace Tcpeen.EndpointArgument

open ByteCursor CmdArgs Inet Endpoint Numeral

/-- The endpoint that `tcp_connect_begin` sets from the parsed arguments. -/
def hostRemote {memory : Memory} (ifNameToIndex : Text → UInt32) (endpoint : TnEndpoint) (args : CmdlineArgs memory) :
    Bool × TnEndpoint :=
  tnEndpointSet ifNameToIndex endpoint (some (args.host.takeWhile (· != 0))) (UInt16.ofNat args.port.toNat)

section Digits

theorem decimal_value (ds : List Nat) (below : ∀ d ∈ ds, d < 10) :
    decimal (ds.map fun d => digits.getD d 0) = value 10 ds := by
  have digit : ∀ d < 10, (digits.getD d 0).toNat - 48 = d := by decide
  induction ds using List.reverseRecOn with
  | nil => rfl
  | append_singleton ds d ih =>
    have front := ih fun x member => below x (by simp [member])
    rw [decimal] at front ⊢
    rw [List.map_append,List.foldl_append,front,value_concat]
    simp only [List.map_cons,List.map_nil,List.foldl_cons,List.foldl_nil,digit d (below d (by simp))]
    omega

theorem decimal_printed (n : Nat) : decimal (printed digits n) = n := by
  have two : 2 ≤ 10 := by decide
  calc decimal (printed digits n) = value 10 (numeral 10 n) := decimal_value _ (numeral_below two n)
    _ = n := value_numeral two n

theorem printed_isDigit (n : Nat) : ∀ b ∈ printed digits n, isDigit b = true := by
  have table : ∀ b ∈ digits, isDigit b = true := by decide +kernel
  intro b member
  exact table b (printed_mem (by decide) b member)

end Digits

section Parse

variable {memory : Memory} {server : CString memory} {bcArray : Nat → AwsByteCursor} {args : CmdlineArgs memory}
  {name : Text} {port : UInt16}

/-- The lengths of prefixes that are taken. -/
def IsPrefixLen (len : Int) : Prop := len.tmod 8 = 0 ∧ 0 ≤ len ∧ len ≤ 64

/-- A call with a message and a server gets to the server. -/
theorem parse_server (bcArray : Nat → AwsByteCursor) {message : CString memory}
    (messageGiven : args.message = some message)
    (serverGiven : args.server = some server) (positive : 0 < toInt message.bytes.length) :
    ∃ args' : CmdlineArgs memory, args'.prefixLen = args.prefixLen ∧
      parseTcploadgenArgs bcArray args = parseServer bcArray server args' := by
  simp only [parseTcploadgenArgs,messageGiven,serverGiven]
  rw [if_neg (Int.not_le.mpr positive)]
  refine ⟨_,?_,rfl⟩
  rfl

/-- A name without a colon, and the port that is printed behind it. -/
theorem parseServer_hostText (lengths : IsPrefixLen args.prefixLen) (text : server.bytes = hostText name port)
    (noColon : 58 ∉ name) (some' : 1 ≤ name.length) (fits : name.length ≤ 16) :
    parseServer bcArray server args =
      if port = 0 then .refused .port args
      else .accepted { args with host := padded name ++ args.host.drop 32, port := port.toNat } := by
  have number : atoi (printed digits port.toNat) = (port.toNat : Int) := by
    rw [atoi_digits (printed_isDigit _),decimal_printed]
  have portColon : 58 ∉ printed digits port.toNat := fun member =>
    absurd (printed_mem (by decide) 58 member) (by decide)
  have short := printed_port_length port
  have small := port.toNat_lt
  have holds := server.holds_bytes
  rw [text,hostText,holds_append] at holds
  have first := load_holds holds.1
  have second := load_holds holds.2.2
  have passed : ¬ (16 < name.length ∨ name.length ≤ 0 ∨ 5 < (printed digits port.toNat).length ∨ name.length ≤ 0) := by
    omega
  have prefix' : ¬ (args.prefixLen ≠ 0 ∧ (args.prefixLen.tmod 8 ≠ 0 ∨ 64 < args.prefixLen ∨ args.prefixLen < 0)) := by
    obtain ⟨whole,low,high⟩ := lengths
    omega
  rw [parseServer_two text noColon portColon,parseParts,if_neg passed]
  simp only [first,second,atoi_padded,number]
  by_cases zero : port = 0
  · rw [if_pos zero,if_pos (.inl (by simp [zero]))]
  · have positive : 0 < port.toNat := Nat.pos_of_ne_zero fun none' => zero (UInt16.toNat.inj none')
    rw [if_neg zero,if_neg (by omega),if_neg prefix']

/-- A name with a colon in it is refused before its parts are looked at. -/
theorem parseServer_colons (text : server.bytes = hostText name port) (colon : 58 ∈ name) :
    parseServer bcArray server args = .refused .server args := by
  obtain ⟨front,rest,rfl,absent⟩ := List.eq_append_cons_of_mem colon
  rw [hostText,List.append_assoc,List.cons_append] at text
  exact parseServer_more text absent (by simp)

end Parse

/-- Every call with the string of an endpoint returns. It accepts the string where the endpoint has
an IPv4 address and a port, and the parts it leaves set the same address. -/
theorem endpoint_argument {memory : Memory} (bcArray : Nat → AwsByteCursor) (args : CmdlineArgs memory)
    (message server : CString memory) (messageGiven : args.message = some message)
    (serverGiven : args.server = some server)
    (positive : 0 < toInt message.bytes.length) (lengths : IsPrefixLen args.prefixLen) (endpoint : TnEndpoint)
    (text : tnEndpointGetString endpoint 64 = .string server.bytes) :
    ((∃ args', parseTcploadgenArgs bcArray args = .accepted args') ∨
      (parseTcploadgenArgs bcArray args).code = some (-1)) ∧
    ((∃ args', parseTcploadgenArgs bcArray args = .accepted args') ↔
      ∃ sa, endpoint.sockaddr = .in4 sa ∧ sa.port ≠ 0) ∧
    ∀ args', parseTcploadgenArgs bcArray args = .accepted args' → ∀ ifNameToIndex later,
      hostRemote ifNameToIndex later args' = (true, ⟨.ipv4,endpoint.sockaddr⟩) := by
  obtain ⟨args',same,parsed⟩ := parse_server bcArray messageGiven serverGiven positive
  have lengths' : IsPrefixLen args'.prefixLen := same ▸ lengths
  obtain ⟨type,sa⟩ := endpoint
  cases sa with
  | unspec => simp [tnEndpointGetString] at text
  | other => simp [tnEndpointGetString] at text
  | in4 sa =>
    obtain ⟨port,address⟩ := sa
    have printed := (Named.in4 ⟨port,address⟩).string type (show 46 ≤ 64 by decide)
    have string : server.bytes = hostText (dotted address.bytes) (ntohs port) :=
      Printed.string.inj (text.symm.trans printed)
    have noColon : 58 ∉ dotted address.bytes := dotted_plain (by decide)
    have noNull : 0 ∉ dotted address.bytes := dotted_plain (by decide)
    have some' : 1 ≤ (dotted address.bytes).length := by
      simp only [dotted,List.length_append,List.length_cons]
      omega
    have short := dotted_length_le address.bytes
    rw [parsed,parseServer_hostText lengths' string noColon some' (by omega)]
    have zero : ntohs port = 0 ↔ port = 0 := ⟨fun none' => ntohs_injective none',fun none' => by rw [none']; rfl⟩
    by_cases none' : ntohs port = 0
    · rw [if_pos none']
      simp [zero.mp none',Outcome.code]
    · have given : port ≠ 0 := mt zero.mpr none'
      rw [if_neg none']
      refine ⟨.inl ⟨_,rfl⟩,iff_of_true ⟨_,rfl⟩ ⟨_,rfl,given⟩,?_⟩
      rintro args'' accepted ifNameToIndex later
      obtain rfl := Outcome.accepted.inj accepted
      have host : (padded (dotted address.bytes) ++ args'.host.drop 32).takeWhile (· != 0) = dotted address.bytes :=
        padded_string (by omega) noNull
      simp [hostRemote,host,tnEndpointSet_dotted,htons_ntohs]
  | in6 sa =>
    obtain ⟨name,name6,format⟩ := uvIp6Name_name sa
    have printed := (Named.in6 name6 format).string type (show 46 ≤ 64 by decide)
    have string := Printed.string.inj (text.symm.trans printed)
    rw [parsed,parseServer_colons string name6.colon]
    simp [Outcome.code]

section Sample

/-- `1.2.3.4:80`. -/
def quadText : Text := [49,46,50,46,51,46,52,58,56,48]

def quadArgument : CString (placed 96 quadText) := ⟨96,quadText,by decide,by decide,by decide,by decide⟩

def quadArgs : CmdlineArgs (placed 96 quadText) where
  clients := 1
  rate := 1
  prefixLen := 32
  time := 10
  msglen := 0
  message := some quadArgument
  server := some quadArgument
  host := List.replicate 255 0
  port := 0

theorem endpoint_argument_quad : ∃ args', parseTcploadgenArgs clean quadArgs = .accepted args' ∧
    hostRemote (fun _ => 0) .zero args' = (true, ⟨.ipv4,.in4 ⟨htons 80,⟨[1,2,3,4],rfl⟩⟩⟩) := by
  obtain ⟨-,accepts,sets⟩ := endpoint_argument clean quadArgs quadArgument quadArgument rfl rfl (by decide)
    ⟨rfl,by decide,by decide⟩ ⟨.ipv4,.in4 ⟨htons 80,⟨[1,2,3,4],rfl⟩⟩⟩ (by decide +kernel)
  obtain ⟨args',accepted⟩ := accepts.mpr ⟨_,rfl,by decide⟩
  exact ⟨args',accepted,sets args' accepted _ _⟩

end Sample

end Tcpeen.EndpointArgument
