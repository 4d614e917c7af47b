import Tcpeen.Inet6

/-! endpoint.c and the addresses of uv-common.c. A call that returns a code and fills its argument
gives both; `if_nametoindex` is a parameter. -/
namespace Tcpeen.Endpoint

open Inet Numeral

inductive Family
  | unspec | inet | inet6 | other
  deriving DecidableEq, Repr

def Family.size : Family → Nat
  | .inet => 4
  | .inet6 => 16
  | _ => 0

def uvInetPton (af : Family) (src : Text) : Except UvError (List UInt8) :=
  match af with
  | .inet => ((inetPton4 src).map .ok).getD (.error .inval)
  | .inet6 =>
    match strchr src 37 with
    | some len => if 45 < len then .error .inval else ((inetPton6 (src.take len)).map .ok).getD (.error .inval)
    | none => ((inetPton6 src).map .ok).getD (.error .inval)
  | _ => .error .afNoSupport

def uvInetNtop (af : Family) (src : List UInt8) (size : Nat) : Except UvError Text :=
  match af with
  | .inet => inetNtop4 src size
  | .inet6 => inetNtop6 src size
  | _ => .error .afNoSupport

def htons (port : UInt16) : UInt16 := port <<< 8 ||| port >>> 8

def ntohs (port : UInt16) : UInt16 := port <<< 8 ||| port >>> 8

section Sizes

variable {src : Text} {bytes : List UInt8}

theorem pton6Loop_room {tmp : List UInt8} {colonp : Option Nat} {curtok : Text} {seen val : Nat}
    {out : List UInt8 × Option Nat × Nat × Nat} (accepted : pton6Loop src tmp colonp curtok seen val = some out)
    (room : tmp.length ≤ 16) : out.1.length ≤ 16 := by
  fun_induction pton6Loop src tmp colonp curtok seen val <;> grind [wordBytes,inetPton4_sound]

theorem pton6Finish_size {tmp : List UInt8} {colonp : Option Nat} (room : tmp.length ≤ 16)
    (finished : pton6Finish tmp colonp = some bytes) : bytes.length = 16 := by
  have shifted (n first : Nat) (is : List Nat) (block : List UInt8) (whole : block.length = 16) :
      (is.foldl (shiftTurn first n) block).length = 16 := by
    induction is generalizing block with
    | nil => exact whole
    | cons i is ih => exact ih _ (by simp [shiftTurn,whole])
  cases colonp with
  | none =>
    simp only [pton6Finish,Option.ite_none_left_eq_some,Option.some.injEq,not_not] at finished
    obtain ⟨whole,rfl⟩ := finished
    exact whole
  | some first =>
    simp only [pton6Finish,Option.ite_none_left_eq_some,Option.some.injEq] at finished
    obtain ⟨-,rfl⟩ := finished
    apply shifted
    rw [List.length_append,List.length_replicate]
    omega

theorem inetPton6_size (accepted : inetPton6 src = some bytes) : bytes.length = 16 := by
  have body (s : Text) (accepted : pton6Body s = some bytes) : bytes.length = 16 := by
    rw [pton6Body] at accepted
    split at accepted
    · contradiction
    · next run =>
      have room := pton6Loop_room run (by simp)
      simp only at room
      split at accepted
      · split at accepted
        · contradiction
        · refine pton6Finish_size ?_ accepted
          simp only [List.length_append,wordBytes,List.length_cons,List.length_nil]
          omega
      · exact pton6Finish_size room accepted
  rw [inetPton6] at accepted
  split at accepted
  · exact body _ (Option.ite_none_left_eq_some.mp accepted).2
  · exact body _ accepted

theorem getD_ok {read : Option (List UInt8)} (accepted : (read.map .ok).getD (.error UvError.inval) = Except.ok bytes) :
    read = some bytes := by
  cases read with
  | none => simp at accepted
  | some found => simpa using accepted

theorem uvInetPton_size {af : Family} (accepted : uvInetPton af src = .ok bytes) : bytes.length = af.size := by
  cases af with
  | inet => exact (inetPton4_sound (getD_ok accepted)).1
  | inet6 =>
    simp only [uvInetPton] at accepted
    split at accepted
    · split at accepted
      · contradiction
      · exact inetPton6_size (getD_ok accepted)
    · exact inetPton6_size (getD_ok accepted)
  | unspec => cases accepted
  | other => cases accepted

end Sizes

structure SockaddrIn where
  port : UInt16
  addr : InAddr
  deriving DecidableEq

structure SockaddrIn6 where
  port : UInt16
  flowinfo : UInt32
  addr : In6Addr
  scope : UInt32
  deriving DecidableEq

/-- `struct sockaddr_storage`, by its family. -/
inductive Sockaddr
  | unspec
  | in4 (sa : SockaddrIn)
  | in6 (sa : SockaddrIn6)
  | other
  deriving DecidableEq

/-- `uv_inet_pton` with a `struct in_addr` to write to. -/
def pton4 (src : Text) : Except UvError InAddr :=
  match found : uvInetPton .inet src with
  | .ok bytes => .ok ⟨bytes,uvInetPton_size found⟩
  | .error err => .error err

def pton6 (src : Text) : Except UvError In6Addr :=
  match found : uvInetPton .inet6 src with
  | .ok bytes => .ok ⟨bytes,uvInetPton_size found⟩
  | .error err => .error err

/-- The result of `uv_ip4_addr` and `*addr` after it. -/
def uvIp4Addr (ip : Text) (port : UInt16) : Option UvError × SockaddrIn :=
  match pton4 ip with
  | .ok addr => (none, ⟨htons port,addr⟩)
  | .error err => (some err, ⟨htons port,⟨List.replicate 4 0,rfl⟩⟩)

/-- `address_part` has 40 bytes. -/
def uvIp6Addr (ifNameToIndex : Text → UInt32) (ip : Text) (port : UInt16) : Option UvError × SockaddrIn6 :=
  let (ip, scope) := match strchr ip 37 with
    | some zone => (ip.take (if 40 ≤ zone then 39 else zone), ifNameToIndex (ip.drop (zone + 1)))
    | none => (ip, 0)
  match pton6 ip with
  | .ok addr => (none, ⟨htons port,0,addr,scope⟩)
  | .error err => (some err, ⟨htons port,0,⟨List.replicate 16 0,rfl⟩,scope⟩)

def uvIp4Name (src : SockaddrIn) (size : Nat) : Except UvError Text := uvInetNtop .inet src.addr.bytes size

def uvIp6Name (src : SockaddrIn6) (size : Nat) : Except UvError Text := uvInetNtop .inet6 src.addr.bytes size

inductive EndpointType
  | none | ipv4 | ipv6 | pipe | file
  deriving DecidableEq, Repr

structure TnEndpoint where
  type : EndpointType
  sockaddr : Sockaddr
  deriving DecidableEq

/-- `memset(endpoint, 0, sizeof(*endpoint))`. -/
def TnEndpoint.zero : TnEndpoint := ⟨.none,.unspec⟩

/-- What `tn_endpoint_get_string` leaves in a buffer of `buf_len` bytes; `overrun` writes past it. -/
inductive Printed
  | error
  | string (s : Text)
  | overrun
  deriving DecidableEq, Repr

/-- `sprintf(buf, "%s:%u", ipbuf, port)`; a name that is not given leaves `ipbuf` zero. -/
def sprintf (name : Except UvError Text) (port : UInt16) (bufLen : Nat) : Printed :=
  let ipbuf := match name with
    | .ok text => text
    | .error _ => []
  let s := ipbuf ++ 58 :: printed digits (ntohs port).toNat
  if s.length < bufLen then .string s else .overrun

def tnEndpointGetString (endpoint : TnEndpoint) (bufLen : Nat) : Printed :=
  match endpoint.sockaddr with
  | .in6 sa => sprintf (uvIp6Name sa 255) sa.port bufLen
  | .in4 sa => sprintf (uvIp4Name sa 255) sa.port bufLen
  | _ => .error

/-- `true` is TN_SUCCESS; a null pointer for a text is `none`. -/
def tnEndpointSetIp4 (endpoint : TnEndpoint) (ip : Option Text) (port : UInt16) : Bool × TnEndpoint :=
  match ip with
  | none => (false, endpoint)
  | some ip =>
    match uvIp4Addr ip port with
    | (none, sa) => (true, ⟨.ipv4,.in4 sa⟩)
    | (some _, sa) => (false, { TnEndpoint.zero with sockaddr := .in4 sa })

def tnEndpointSetIp6 (ifNameToIndex : Text → UInt32) (endpoint : TnEndpoint) (ip : Option Text) (port : UInt16) :
    Bool × TnEndpoint :=
  match ip with
  | none => (false, endpoint)
  | some ip =>
    match uvIp6Addr ifNameToIndex ip port with
    | (none, sa) => (true, ⟨.ipv6,.in6 sa⟩)
    | (some _, sa) => (false, { TnEndpoint.zero with sockaddr := .in6 sa })

def tnEndpointSet (ifNameToIndex : Text → UInt32) (endpoint : TnEndpoint) (ip : Option Text) (port : UInt16) :
    Bool × TnEndpoint :=
  match tnEndpointSetIp6 ifNameToIndex endpoint ip port with
  | (false, endpoint) => tnEndpointSetIp4 endpoint ip port
  | (true, endpoint) => (true, endpoint)

/-- A null pointer for the address is `none`. -/
def tnEndpointConvertFrom (endpoint : TnEndpoint) (sockaddr : Option Sockaddr) : Bool × TnEndpoint :=
  match sockaddr with
  | none => (false, endpoint)
  | some (.in6 sa) => (true, ⟨.ipv6,.in6 sa⟩)
  | some (.in4 sa) => (true, ⟨.ipv4,.in4 sa⟩)
  | some _ => (false, .zero)

section Ports

/-- Two swaps of the bytes. -/
theorem ntohs_htons (port : UInt16) : ntohs (htons port) = port := by
  apply UInt16.toBitVec_inj.mp
  simp only [ntohs,htons,UInt16.toBitVec_or,UInt16.toBitVec_shiftLeft,UInt16.toBitVec_shiftRight]
  ext i inside
  have outside : port.toBitVec.getLsbD (8 + (8 + i)) = false := BitVec.getLsbD_of_ge _ _ (by omega)
  by_cases low : i < 8
  · have within : 8 + i < 16 := by omega
    simp [low,within,outside]
  · have above : ¬ 8 + i < 16 := by omega
    have next : i - 8 < 8 := by omega
    have same : 8 + (i - 8) = i := by omega
    simp [low,above,next,same,outside,BitVec.getLsbD_eq_getElem inside]

theorem htons_ntohs (port : UInt16) : htons (ntohs port) = port := ntohs_htons port

theorem ntohs_injective : Function.Injective ntohs := Function.LeftInverse.injective htons_ntohs

end Ports

section Names

variable {ifNameToIndex : Text → UInt32} {endpoint : TnEndpoint} {name zone : Text} {port : UInt16} {bytes : List UInt8}

theorem strchr_absent {ch : UInt8} (absent : ch ∉ name) : strchr name ch = none := List.idxOf?_eq_none_iff.mpr absent

theorem strchr_cut {ch : UInt8} (absent : ch ∉ name) : strchr (name ++ ch :: zone) ch = some name.length := by
  refine List.idxOf?_eq_some_iff.mpr ⟨by simp,by simp,?_⟩
  intro i before same
  rw [List.getElem_append_left before] at same
  exact absent (same ▸ List.getElem_mem before)

theorem uvIp4Name_dotted (sa : SockaddrIn) : uvIp4Name sa 255 = .ok (dotted sa.addr.bytes) :=
  inetNtop4_dotted (Nat.lt_of_le_of_lt (dotted_length_le _) (by decide))

/-- The name of an IPv6 address. -/
structure IsName6 (address : In6Addr) (name : Text) : Prop where
  short : name.length ≤ 39
  parses : inetPton6 name = some address.bytes
  colon : 58 ∈ name
  chars : ∀ b ∈ name, b ∈ 58 :: 46 :: xdigitsL

theorem uvIp6Name_name (sa : SockaddrIn6) : ∃ name, IsName6 sa.addr name ∧ uvIp6Name sa 255 = .ok name := by
  obtain ⟨name,shape,short,parses,format⟩ := inetNtop6_text sa.addr.bytes sa.addr.size
  exact ⟨name,⟨short,parses,shape.colon (wordsOf_length _),shape.mem⟩,format 255 (by omega)⟩

theorem dotted_plain {b : UInt8} (outside : b ∉ 46 :: digits) : b ∉ dotted bytes :=
  fun member => outside (dotted_mem b member)

theorem IsName6.plain {address : In6Addr} {b : UInt8} (name6 : IsName6 address name)
    (outside : b ∉ 58 :: 46 :: xdigitsL) :
    b ∉ name :=
  fun member => outside (name6.chars b member)

theorem pton4_ok {address : InAddr} (accepted : inetPton4 name = some address.bytes) : pton4 name = .ok address := by
  have found : uvInetPton .inet name = .ok address.bytes := by simp [uvInetPton,accepted]
  rw [pton4]
  split
  · next bytes same =>
    rw [found] at same
    obtain rfl := Except.ok.inj same
    rfl
  · next same =>
    rw [found] at same
    cases same

theorem pton4_sound {address : InAddr} (accepted : pton4 name = .ok address) : inetPton4 name = some address.bytes := by
  rw [pton4] at accepted
  split at accepted
  · next bytes found =>
    obtain rfl := Except.ok.inj accepted
    exact getD_ok found
  · cases accepted

theorem pton6_ok {address : In6Addr} (name6 : IsName6 address name) : pton6 name = .ok address := by
  have absent : 37 ∉ name := name6.plain (by decide)
  have found : uvInetPton .inet6 name = .ok address.bytes := by
    simp [uvInetPton,strchr_absent absent,name6.parses]
  rw [pton6]
  split
  · next bytes same =>
    rw [found] at same
    obtain rfl := Except.ok.inj same
    rfl
  · next same =>
    rw [found] at same
    cases same

theorem pton6_dotted {address : InAddr} : pton6 (dotted address.bytes) = .error .inval := by
  have absent : 37 ∉ dotted address.bytes := dotted_plain (by decide)
  have refused : uvInetPton .inet6 (dotted address.bytes) = .error .inval := by
    simp [uvInetPton,strchr_absent absent,inetPton6_dotted address.size]
  rw [pton6]
  split
  · next same =>
    rw [refused] at same
    cases same
  · next same =>
    rw [refused] at same
    obtain rfl := Except.error.inj same
    rfl

theorem uvIp6Addr_ok (ifNameToIndex : Text → UInt32) (zone : Text) (port : UInt16) {address : In6Addr}
    (name6 : IsName6 address name) :
    uvIp6Addr ifNameToIndex name port = (none, ⟨htons port,0,address,0⟩) ∧
      uvIp6Addr ifNameToIndex (name ++ 37 :: zone) port = (none, ⟨htons port,0,address,ifNameToIndex zone⟩) := by
  have absent : 37 ∉ name := name6.plain (by decide)
  have short : ¬ 40 ≤ name.length := by
    have := name6.short
    omega
  constructor
  · simp only [uvIp6Addr,strchr_absent absent,pton6_ok name6]
  · simp [uvIp6Addr,strchr_cut absent,short,pton6_ok name6]

theorem uvIp6Addr_sound {sa : SockaddrIn6} (accepted : uvIp6Addr ifNameToIndex name port = (none, sa)) :
    sa.port = htons port ∧ sa.flowinfo = 0 := by
  rw [uvIp6Addr] at accepted
  simp only at accepted
  split at accepted
  · obtain rfl := (Prod.mk.inj accepted).2
    exact ⟨rfl,rfl⟩
  · cases accepted

/-- The two ways in which an endpoint is set. -/
theorem tnEndpointSet_sound {set : TnEndpoint}
    (done : tnEndpointSet ifNameToIndex endpoint (some name) port = (true, set)) :
    (∃ address : InAddr, name = dotted address.bytes ∧ set = ⟨.ipv4,.in4 ⟨htons port,address⟩⟩) ∨
      ∃ address scope, set = ⟨.ipv6,.in6 ⟨htons port,0,address,scope⟩⟩ := by
  rw [tnEndpointSet,tnEndpointSetIp6] at done
  cases six : uvIp6Addr ifNameToIndex name port with
  | mk failed sa =>
    cases failed with
    | none =>
      simp only [six,Prod.mk.injEq,true_and] at done
      obtain ⟨port',flow⟩ := uvIp6Addr_sound six
      exact .inr ⟨sa.addr,sa.scope,by rw [← done,← port',← flow]⟩
    | some err =>
      simp only [six,tnEndpointSetIp4,uvIp4Addr] at done
      cases four : pton4 name with
      | error err => simp [four] at done
      | ok address =>
        simp only [four,Prod.mk.injEq,true_and] at done
        exact .inl ⟨address,(inetPton4_sound (pton4_sound four)).2,done.symm⟩

theorem tnEndpointSet_dotted (address : InAddr) :
    tnEndpointSet ifNameToIndex endpoint (some (dotted address.bytes)) port =
      (true, ⟨.ipv4,.in4 ⟨htons port,address⟩⟩) := by
  have absent : 37 ∉ dotted address.bytes := dotted_plain (by decide)
  have four : pton4 (dotted address.bytes) = .ok address := pton4_ok (inetPton4_dotted address.size)
  simp only [tnEndpointSet,tnEndpointSetIp6,uvIp6Addr,strchr_absent absent,pton6_dotted,tnEndpointSetIp4,uvIp4Addr,four]

theorem tnEndpointSet_name6 (zone : Text) {address : In6Addr} (name6 : IsName6 address name) :
    tnEndpointSet ifNameToIndex endpoint (some name) port = (true, ⟨.ipv6,.in6 ⟨htons port,0,address,0⟩⟩) ∧
      tnEndpointSet ifNameToIndex endpoint (some (name ++ 37 :: zone)) port =
        (true, ⟨.ipv6,.in6 ⟨htons port,0,address,ifNameToIndex zone⟩⟩) := by
  obtain ⟨plain,zoned⟩ := uvIp6Addr_ok ifNameToIndex zone port name6
  exact ⟨by simp only [tnEndpointSet,tnEndpointSetIp6,plain],by simp only [tnEndpointSet,tnEndpointSetIp6,zoned]⟩

end Names

section Strings

def Sockaddr.port : Sockaddr → UInt16
  | .in4 sa => sa.port
  | .in6 sa => sa.port
  | _ => 0

/-- The scope of an IPv6 address is not printed. -/
def Sockaddr.zoned (scope : UInt32) : Sockaddr → Sockaddr
  | .in6 sa => .in6 { sa with scope }
  | sa => sa

def hostText (name : Text) (port : UInt16) : Text := name ++ 58 :: printed digits port.toNat

variable {ifNameToIndex : Text → UInt32} {endpoint later : TnEndpoint} {sa sa' : Sockaddr} {name name' ip : Text}
  {port : UInt16} {bufLen : Nat} {type : EndpointType}

/-- The name that is printed of a socket address. -/
inductive Named : Sockaddr → Text → Prop
  | in4 (sa : SockaddrIn) : Named (.in4 sa) (dotted sa.addr.bytes)
  | in6 {sa : SockaddrIn6} {name : Text} : IsName6 sa.addr name → uvIp6Name sa 255 = .ok name → Named (.in6 sa) name

theorem printed_port_length (port : UInt16) : (printed digits port.toNat).length ≤ 5 := by
  have small : port.toNat < digits.length ^ 5 := Nat.lt_trans port.toNat_lt (by decide)
  exact printed_length_le (by decide) (by decide) small

theorem Named.short (named : Named sa name) : name.length ≤ 39 := by
  cases named with
  | in4 sa => exact Nat.le_trans (dotted_length_le _) (by decide)
  | in6 name6 format => exact name6.short

theorem sprintf_named (short : name.length ≤ 39) (room : 46 ≤ bufLen) :
    sprintf (.ok name) port bufLen = .string (hostText name (ntohs port)) := by
  have number := printed_port_length (ntohs port)
  refine if_pos ?_
  simp only [List.length_append,List.length_cons]
  omega

theorem Named.determined (named : Named sa name) (named' : Named sa name') : name = name' := by
  cases named with
  | in4 sa =>
    cases named' with
    | in4 => rfl
  | in6 name6 format =>
    cases named' with
    | in6 name6' format' => exact Except.ok.inj (format.symm.trans format')

/-- 46 bytes are enough for every string. -/
theorem Named.string (type : EndpointType) (named : Named sa name) (room : 46 ≤ bufLen) :
    tnEndpointGetString ⟨type,sa⟩ bufLen = .string (hostText name (ntohs sa.port)) := by
  have short := named.short
  cases named with
  | in4 sa => simp only [tnEndpointGetString,uvIp4Name_dotted,sprintf_named short room,Sockaddr.port]
  | in6 name6 format => simp only [tnEndpointGetString,format,sprintf_named short room,Sockaddr.port]

theorem last_cut {c : UInt8} {front front' back back' : Text} (absent : c ∉ back) (absent' : c ∉ back')
    (same : front ++ c :: back = front' ++ c :: back') : front = front' ∧ back = back' := by
  rcases List.append_eq_append_iff.mp same with ⟨more,rfl,tails⟩ | ⟨more,rfl,tails⟩
  · cases more with
    | nil => exact ⟨by simp,by simpa using tails⟩
    | cons d more =>
      have inside := (List.cons.inj tails).2
      exact absurd (by simp [inside]) absent
  · cases more with
    | nil => exact ⟨by simp,by simpa using tails.symm⟩
    | cons d more =>
      have inside := (List.cons.inj tails).2
      exact absurd (by simp [inside]) absent'

/-- What is behind the last colon is the port. -/
theorem hostText_injective {port' : UInt16} (same : hostText name port = hostText name' port') :
    name = name' ∧ port = port' := by
  have noColon (n : Nat) : 58 ∉ printed digits n := fun member =>
    absurd (printed_mem (by decide) 58 member) (by decide)
  obtain ⟨names,ports⟩ := last_cut (noColon _) (noColon _) same
  exact ⟨names,UInt16.toNat.inj (printed_injective (by decide) (by decide) ports)⟩

/-- The address of a host; the scope and the flow of an IPv6 address are no part of it. -/
inductive SameHost : Sockaddr → Sockaddr → Prop
  | in4 (sa : SockaddrIn) : SameHost (.in4 sa) (.in4 sa)
  | in6 (port : UInt16) (addr : In6Addr) (flow flow' scope scope' : UInt32) :
      SameHost (.in6 ⟨port,flow,addr,scope⟩) (.in6 ⟨port,flow',addr,scope'⟩)

/-- Different hosts have different names. -/
theorem Named.sameHost (named : Named sa name) (named' : Named sa' name) (ports : sa.port = sa'.port) :
    SameHost sa sa' := by
  have four (x y : SockaddrIn) (same : dotted x.addr.bytes = dotted y.addr.bytes) : x.addr = y.addr := by
    have parsed := inetPton4_dotted x.addr.size
    rw [same,inetPton4_dotted y.addr.size] at parsed
    exact (InAddr.ext (Option.some.inj parsed)).symm
  have apart (x : SockaddrIn) (y : SockaddrIn6) : ¬ IsName6 y.addr (dotted x.addr.bytes) := by
    intro name6
    have refused := inetPton6_dotted x.addr.size
    rw [name6.parses] at refused
    cases refused
  generalize text : name = name' at named'
  cases named with
  | in4 x =>
    cases named' with
    | in4 y =>
      obtain ⟨port,addr⟩ := x
      obtain ⟨port',addr'⟩ := y
      obtain rfl : addr = addr' := four _ _ text
      obtain rfl : port = port' := ports
      exact .in4 _
    | in6 name6 format => exact absurd (text ▸ name6) (apart _ _)
  | @in6 x name name6 format =>
    cases named' with
    | in4 y => exact absurd (text ▸ name6) (apart _ _)
    | @in6 y name' name6' format' =>
      obtain ⟨port,flow,addr,scope⟩ := x
      obtain ⟨port',flow',addr',scope'⟩ := y
      have parsed := name6.parses
      rw [text,name6'.parses] at parsed
      obtain rfl : addr = addr' := (In6Addr.ext (Option.some.inj parsed)).symm
      obtain rfl : port = port' := ports
      exact .in6 ..

/-- The name of a host does not say its scope. -/
theorem SameHost.names (same : SameHost sa sa') (named : Named sa name) : Named sa' name ∧ sa'.port = sa.port := by
  cases same with
  | in4 x => exact ⟨named,rfl⟩
  | in6 port addr flow flow' scope scope' =>
    cases named with
    | in6 name6 format => exact ⟨.in6 name6 format,rfl⟩

/-- An address is converted when it has a name. -/
theorem tnEndpointConvertFrom_cases (endpoint : TnEndpoint) (sa : Sockaddr) :
    (∃ name type, Named sa name ∧ tnEndpointConvertFrom endpoint (some sa) = (true, ⟨type,sa⟩)) ∨
      (∀ name, ¬ Named sa name) ∧ tnEndpointConvertFrom endpoint (some sa) = (false, .zero) := by
  cases sa with
  | in4 sa => exact .inl ⟨_,.ipv4,.in4 sa,rfl⟩
  | in6 sa =>
    obtain ⟨name,name6,format⟩ := uvIp6Name_name sa
    exact .inl ⟨name,.ipv6,.in6 name6 format,rfl⟩
  | unspec => exact .inr ⟨by rintro name ⟨⟩,rfl⟩
  | other => exact .inr ⟨by rintro name ⟨⟩,rfl⟩

end Strings

/-- An endpoint that was set is printed, and set again from what is printed in front of its port.
An IPv4 address is printed as it was given; what is set of an IPv6 address takes its scope from the
text behind a `%`. -/
theorem set_string_round_trip {ifNameToIndex : Text → UInt32} {endpoint later set : TnEndpoint} {ip : Text}
    {port : UInt16}
    (done : tnEndpointSet ifNameToIndex endpoint (some ip) port = (true, set)) :
    ∃ name, (∀ bufLen, 46 ≤ bufLen → tnEndpointGetString set bufLen = .string (hostText name port)) ∧
      (set.type = .ipv4 → name = ip) ∧
      tnEndpointSet ifNameToIndex later (some name) port = (true, { set with sockaddr := set.sockaddr.zoned 0 }) ∧
      ∀ zone, set.type = .ipv6 → tnEndpointSet ifNameToIndex later (some (name ++ 37 :: zone)) port =
        (true, { set with sockaddr := set.sockaddr.zoned (ifNameToIndex zone) }) := by
  rcases tnEndpointSet_sound done with ⟨address,rfl,rfl⟩ | ⟨address,scope,rfl⟩
  · refine ⟨dotted address.bytes,?_,fun _ => rfl,tnEndpointSet_dotted address,by simp⟩
    intro bufLen room
    simpa [Sockaddr.port,ntohs_htons] using (Named.in4 ⟨htons port,address⟩).string .ipv4 room
  · obtain ⟨name,name6,format⟩ := uvIp6Name_name ⟨htons port,0,address,scope⟩
    refine ⟨name,?_,by simp,(tnEndpointSet_name6 [] name6).1,fun zone _ => (tnEndpointSet_name6 zone name6).2⟩
    intro bufLen room
    simpa [Sockaddr.port,ntohs_htons] using (Named.in6 name6 format).string .ipv6 room

/-- `::1%2`. -/
theorem set_string_loopback :
    ∃ name, (∀ bufLen, 46 ≤ bufLen →
        tnEndpointGetString ⟨.ipv6,.in6 ⟨htons 80,0,⟨List.replicate 15 0 ++ [1],rfl⟩,2⟩⟩ bufLen =
          .string (hostText name 80)) ∧
      tnEndpointSet (fun _ => 2) .zero (some name) 80 =
        (true, ⟨.ipv6,.in6 ⟨htons 80,0,⟨List.replicate 15 0 ++ [1],rfl⟩,0⟩⟩) := by
  have set : tnEndpointSet (fun _ => 2) .zero (some [58,58,49,37,50]) 80 =
      (true, ⟨.ipv6,.in6 ⟨htons 80,0,⟨List.replicate 15 0 ++ [1],rfl⟩,2⟩⟩) := by rfl
  obtain ⟨name,text,-,again,-⟩ := set_string_round_trip set
  exact ⟨name,text,again⟩

/-- The 64 bytes that an event has for a host are enough for every address that is converted, and
the string tells hosts apart. -/
theorem hosts_told_apart (endpoint endpoint' : TnEndpoint) (sa sa' : Sockaddr) :
    ((tnEndpointConvertFrom endpoint (some sa)).1 = true ↔
      ∃ s, tnEndpointGetString (tnEndpointConvertFrom endpoint (some sa)).2 64 = .string s) ∧
    ((tnEndpointConvertFrom endpoint (some sa)).1 = true →
      (tnEndpointGetString (tnEndpointConvertFrom endpoint (some sa)).2 64 =
        tnEndpointGetString (tnEndpointConvertFrom endpoint' (some sa')).2 64 ↔ SameHost sa sa')) := by
  rcases tnEndpointConvertFrom_cases endpoint sa with ⟨name,type,named,converted⟩ | ⟨-,refused⟩
  · rw [converted]
    simp only [named.string type (show 46 ≤ 64 by decide)]
    refine ⟨by simp,fun _ => ?_⟩
    rcases tnEndpointConvertFrom_cases endpoint' sa' with ⟨name',type',named',converted'⟩ | ⟨nameless,refused'⟩
    · rw [converted']
      simp only [named'.string type' (show 46 ≤ 64 by decide),Printed.string.injEq]
      constructor
      · intro same
        obtain ⟨rfl,ports⟩ := hostText_injective same
        exact named.sameHost named' (ntohs_injective ports)
      · intro same
        obtain ⟨again,ports⟩ := same.names named
        rw [ports,again.determined named']
    · rw [refused']
      refine iff_of_false (by simp [tnEndpointGetString,TnEndpoint.zero]) fun same => ?_
      exact nameless name (same.names named).1
  · rw [refused]
    simp [tnEndpointGetString,TnEndpoint.zero]

end Tcpeen.Endpoint
