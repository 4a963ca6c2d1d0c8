/-
  Addresses of peers, and their round trips.
-/
import GoI2pBt.Bencode.Codec
import GoI2pBt.Bencode.Generic
import GoI2pBt.Bencode.Short
import GoI2pBt.Lib.Hostport
import GoI2pBt.Lib.Netip

namespace GoI2pBt.Metainfo

open List Bencode Int

/-! ## Network addresses -/

inductive NetAddr where
  | ipAddr (ip zone : Bytes)
  | udpAddr (ip : Bytes) (port : ℤ) (zone : Bytes)
  | tcpAddr (ip : Bytes) (port : ℤ) (zone : Bytes)
  | i2p (addr : Bytes)
  | i2pPtr (addr : Bytes)
deriving DecidableEq

/-- What is taken from the packages `i2pkeys` and `net`. -/
structure Net where
  toBytes : Bytes → Except Error Bytes
  newI2PAddrFromBytes : Bytes → Except Error Bytes
  destHashFromBytes : Bytes → NetAddr
  i2pString : Bytes → Bytes
  i2pLookup : Bytes → Except Error Bytes
  lookupIP : Bytes → Except Error (List Bytes)

def zonedString (ip zone : Bytes) : Bytes :=
  let host := if ip = [] then [] else ipString ip
  if zone = [] then host else host ++ ch '%' :: zone

def i2pSuffix : Bytes := utf8 ".i2p"

/-- An address is read back from its bytes, and two bytes more give another text (the text is a
hash of the bytes). -/
structure Net.Lawful (net : Net) : Prop where
  new_toBytes : ∀ {b addr}, net.newI2PAddrFromBytes b = .ok addr →
    ∃ key, net.toBytes addr = .ok key ∧ net.newI2PAddrFromBytes key = .ok addr
  string_append : ∀ {b p addr addr'}, net.newI2PAddrFromBytes b = .ok addr →
    net.newI2PAddrFromBytes (b ++ p) = .ok addr' → p.length = 2 →
    net.i2pString addr' ≠ net.i2pString addr
  string_i2p : ∀ {b addr}, net.newI2PAddrFromBytes b = .ok addr → i2pSuffix <:+ net.i2pString addr
  lookup_new : ∀ {s addr}, net.i2pLookup s = .ok addr → ∃ b, net.newI2PAddrFromBytes b = .ok addr
  lookupIP_length : ∀ {s ips}, net.lookupIP s = .ok ips → ∀ ip ∈ ips, ip.length = 4 ∨ ip.length = 16

variable (env : Env) (net : Net)

def NetAddr.String : NetAddr → Bytes
  | .ipAddr ip zone => zonedString ip zone
  | .udpAddr ip port zone => joinHostPort (zonedString ip zone) (formatInt port)
  | .tcpAddr ip port zone => joinHostPort (zonedString ip zone) (formatInt port)
  | .i2p addr => net.i2pString addr
  | .i2pPtr addr => net.i2pString addr

def NetAddr.Port : NetAddr → ℤ
  | .tcpAddr _ port _ => port
  | .udpAddr _ port _ => port
  | .i2pPtr _ => 6881
  | .i2p _ => 6881
  | .ipAddr ip zone =>
    match splitHostPort (zonedString ip zone) with
    | .error _ => 0
    | .ok (_, port) => (parseInt 64 port).getD 0

def LookupNetAddr (shost : Bytes) : Except Error (List NetAddr) :=
  if i2pSuffix <:+ shost then do
    return [.i2p (← net.i2pLookup shost)]
  else
    match net.lookupIP shost with
    | .error _ => .error (.method "fail to lookup the domain '%s': %s")
    | .ok ips => .ok (ips.map fun ip => .ipAddr (if to4 ip ≠ [] then to4 ip else ip) [])

/-! ## Addresses -/

structure Address where
  ip : Option NetAddr
  port : UInt16
deriving DecidableEq

inductive AnyAddr where
  | netIP (ip : Bytes)
  | addr (addr : NetAddr)
  | other

def NewAddress (ip : AnyAddr) (port : UInt16) : Address :=
  match ip with
  | .netIP ip => ⟨some (.ipAddr ip []), port⟩
  | .addr (.ipAddr ip zone) => ⟨some (.ipAddr ip zone), port⟩
  | .addr (.i2p addr) => ⟨some (.i2p addr), port⟩
  | _ => ⟨none, 0⟩

def ConvertAddress (addr : NetAddr) : Except Error Address :=
  match addr with
  | .tcpAddr _ port _ => .ok (NewAddress (.addr addr) (UInt16.ofInt port))
  | .udpAddr _ port _ => .ok (NewAddress (.addr addr) (UInt16.ofInt port))
  | .i2pPtr _ => .ok (NewAddress (.addr addr) 6881)
  | .i2p _ => .ok (NewAddress (.addr addr) 6881)
  | .ipAddr _ _ => .error (.method "unsupported address type: %T")

namespace Address

def FromString (a : Address) (addr : Bytes) : Except Error Address :=
  match splitHostPort addr with
  | .error _ => .error (.method "invalid address '%s': %s")
  | .ok (host, port) =>
    match if port = [] then some a.port.toNat else parseUint 16 port with
    | none => .error (.method "invalid address '%s': %s")
    | some v =>
      match LookupNetAddr net host with
      | .error _ => .error (.method "fail to lookup the domain '%s': %s")
      | .ok [] => .error (.method "the domain '%s' has no ips")
      | .ok (ip :: _) => .ok ⟨some ip, UInt16.ofNat v⟩

def FromAddr (ua : NetAddr) : Address := ⟨some ua, UInt16.ofInt ua.Port⟩

def Equal (a o : Address) : Option Bool :=
  if a.port ≠ o.port then some false
  else
    match a.ip, o.ip with
    | some ip, some ip' => some (ip.String net = ip'.String net)
    | _, _ => none

/-! ## Binary form -/

def ipBytes (a : Address) : Except Error Bytes :=
  match a.ip with
  | some (.ipAddr ip _) => .ok ip
  | some (.udpAddr ip _ _) => .ok ip
  | some (.i2p addr) => net.toBytes addr
  | _ => .ok []

def MarshalBinary (a : Address) : Except Error Bytes := do
  return (← a.ipBytes net) ++ beBytes 2 a.port.toNat

def UnmarshalBinary (b : Bytes) : Except Error Address :=
  if b.length ≤ 18 then
    if b.length = 6 ∨ b.length = 18 then
      .ok ⟨some (.ipAddr (b.take (b.length - 2)) []), UInt16.ofNat (beNat (b.drop (b.length - 2)))⟩
    else .error (.method "invalid compact information of ip and port")
  else do
    -- all of `b` is the key
    return ⟨some (.i2p (← net.newI2PAddrFromBytes b)), 6881⟩

/-! ## Bencode form -/

def decode (vs : List GoVal) : Except Error Address :=
  match vs with
  | .iface .string (.str host) :: vs =>
    if i2pSuffix <:+ host then do
      return ⟨some (.i2p (← net.newI2PAddrFromBytes host)), 6881⟩
    else
      match parseIP host with
      | none => .error (.method "invalid compact information of ip and port")
      | some ip =>
        match vs with
        | .iface (.int 64) (.int port) :: _ =>
          .ok ⟨some (.ipAddr (if to4 ip ≠ [] then to4 ip else ip) []), UInt16.ofInt port⟩
        | _ => .error .panic
  | _ => .error .panic

def UnmarshalBencode (a : Address) (b : Bytes) : Except Error Address :=
  match DecodeBytes env b .iface .nilIface with
  | .error err => .error err
  | .ok (.iface .string (.str v)) => a.FromString net v
  | .ok (.iface (.slice .iface) v) => decode net (elemsOf v).1
  | .ok _ => .error (.method "unsupported type: %T")

def MarshalBencode (a : Address) : Except Error Bytes :=
  match a.ip with
  | none => .error .panic
  | some ip =>
    EncodeBytes env (.iface (.slice .iface)
      (.slice [.iface .string (.str (ip.String net)), .iface (.uint 16) (.uint a.port.toNat)] []))

/-! ## Other forms of the address -/

def To4 (a : Address) : NetAddr :=
  match a.ip with
  | some (.ipAddr ip _) => .ipAddr (to4 ip) []
  | some (.udpAddr ip _ _) => .ipAddr (to4 ip) []
  | _ => .ipAddr [127, 0, 0, 1] []

def To16 (a : Address) : NetAddr :=
  match a.ip with
  | some (.ipAddr ip _) => .ipAddr (to16 ip) []
  | some (.udpAddr ip _ _) => .ipAddr (to16 ip) []
  | _ => .ipAddr (replicate 15 0 ++ [1]) []

def IsIPv6 (a : Address) : Bool :=
  match a.ip with
  | some (.ipAddr ip _) => to4 ip = []
  | some (.udpAddr ip _ _) => to4 ip = []
  | _ => false

def Addr (a : Address) : Option NetAddr :=
  match a.ip with
  | some (.ipAddr ip _) => some (.udpAddr ip a.port.toNat [])
  | some (.udpAddr ip _ _) => some (.udpAddr ip a.port.toNat [])
  | some (.i2pPtr addr) => some (.i2pPtr addr)
  | some (.i2p addr) => some (.i2pPtr addr)
  | _ => none

/-! ## Go values -/

def type : GoType := .named "Address"
  (.struct [(⟨"IP", [], false, true⟩, .iface), (⟨"Port", [], false, true⟩, .uint 16)])

def ptrType (name : String) : GoType := .ptr (.named name (.struct []))

def addrToGo : NetAddr → GoVal
  | .ipAddr ip zone => .iface (ptrType "IPAddr") (.ptr (.struct [bytesVal ip, .str zone]))
  | .udpAddr ip port zone =>
    .iface (ptrType "UDPAddr") (.ptr (.struct [bytesVal ip, .int port, .str zone]))
  | .tcpAddr ip port zone =>
    .iface (ptrType "TCPAddr") (.ptr (.struct [bytesVal ip, .int port, .str zone]))
  | .i2p addr => .iface (.named "I2PAddr" .string) (.str addr)
  | .i2pPtr addr => .iface (.ptr (.named "I2PAddr" .string)) (.ptr (.str addr))

def addrOfGo : GoVal → Option NetAddr
  | .iface (.ptr (.named "IPAddr" _)) (.ptr v) =>
    some (.ipAddr (valBytes (fieldOf v 0)) (strOf (fieldOf v 1)))
  | .iface (.ptr (.named "UDPAddr" _)) (.ptr v) =>
    some (.udpAddr (valBytes (fieldOf v 0)) (intOf (fieldOf v 1)) (strOf (fieldOf v 2)))
  | .iface (.ptr (.named "TCPAddr" _)) (.ptr v) =>
    some (.tcpAddr (valBytes (fieldOf v 0)) (intOf (fieldOf v 1)) (strOf (fieldOf v 2)))
  | .iface (.named "I2PAddr" _) v => some (.i2p (strOf v))
  | .iface (.ptr (.named "I2PAddr" _)) (.ptr v) => some (.i2pPtr (strOf v))
  | _ => none

def toGo (a : Address) : GoVal := .struct [(a.ip.map addrToGo).getD .nilIface, .uint a.port.toNat]

def ofGo (v : GoVal) : Address := ⟨addrOfGo (fieldOf v 0), UInt16.ofNat (uintOf (fieldOf v 1))⟩

@[simp] theorem addrOfGo_toGo (addr : NetAddr) : addrOfGo (addrToGo addr) = some addr := by
  cases addr with
  | ipAddr ip zone => exact congrArg (fun b => some (NetAddr.ipAddr b zone)) (valBytes_bytesVal ip)
  | udpAddr ip port zone =>
    exact congrArg (fun b => some (NetAddr.udpAddr b port zone)) (valBytes_bytesVal ip)
  | tcpAddr ip port zone =>
    exact congrArg (fun b => some (NetAddr.tcpAddr b port zone)) (valBytes_bytesVal ip)
  | i2p addr => rfl
  | i2pPtr addr => rfl

@[simp] theorem ofGo_toGo (a : Address) : ofGo a.toGo = a := by
  obtain ⟨ip, port⟩ := a
  have hport : UInt16.ofNat port.toNat = port := UInt16.ofNat_toNat
  cases ip with
  | none => exact congrArg (Address.mk none) hport
  | some addr => exact congrArg₂ Address.mk (addrOfGo_toGo addr) hport

def methods : Methods where
  marshalBencode := some (.value, fun v => (ofGo v).MarshalBencode env net)
  unmarshalBencode := some fun old b => ((ofGo old).UnmarshalBencode env net b).map toGo

/-! ## Round trips -/

def BinaryTrip (a : Address) : Prop :=
  ∃ b a', a.MarshalBinary net = .ok b ∧ UnmarshalBinary net b = .ok a' ∧ Equal net a' a = some true

def BencodeTrip (a : Address) : Prop := ∃ b, a.MarshalBencode env net = .ok b ∧
    ∀ a₀ : Address, ∃ a', a₀.UnmarshalBencode env net b = .ok a' ∧ Equal net a' a = some true

def RoundTrips (a : Address) : Prop := a.BinaryTrip net ∧ a.BencodeTrip env net

variable {env net}

section Binary

variable {ip : Bytes}

theorem unmarshalBinary_append (h : ip.length = 4 ∨ ip.length = 16) (port : UInt16) :
    UnmarshalBinary net (ip ++ beBytes 2 port.toNat) = .ok ⟨some (.ipAddr ip []), port⟩ := by
  have hlen : (ip ++ beBytes 2 port.toNat).length = ip.length + 2 := by simp
  have hport : UInt16.ofNat (beNat (beBytes 2 port.toNat)) = port := by
    rw [beNat_beBytes, Nat.mod_eq_of_lt (show _ < 256 ^ 2 from port.toNat_lt), UInt16.ofNat_toNat]
  rw [UnmarshalBinary, hlen, if_pos (by omega), if_pos (by omega), Nat.add_sub_cancel,
    take_left, drop_left, hport]

theorem unmarshalBinary_port (port : UInt16) : UnmarshalBinary net ([] ++ beBytes 2 port.toNat) =
      .error (.method "invalid compact information of ip and port") := by
  have hlen : ([] ++ beBytes 2 port.toNat).length = 2 := by simp
  rw [UnmarshalBinary, hlen, if_pos (by omega), if_neg (by omega)]

theorem equal_mk {ip ip' port port'} : Equal net ⟨some ip, port⟩ ⟨some ip', port'⟩ = some true ↔
      port = port' ∧ ip.String net = ip'.String net := by
  unfold Equal
  by_cases hp : port = port'
  · simp [hp]
  · simp [hp]

theorem length_zonedString_le (ip zone : Bytes) :
    (zonedString ip []).length + zone.length ≤ (zonedString ip zone).length := by
  unfold zonedString
  by_cases hz : zone = []
  · simp [hz]
  · simp only [hz, if_false, if_true, length_append, length_cons]
    omega

theorem length_joinHostPort_lt (host port : Bytes) :
    host.length < (joinHostPort host port).length := by
  unfold joinHostPort
  split_ifs
  · simp only [length_cons, length_append]; omega
  · simp only [length_cons, length_append]; omega

theorem zonedString_nil (h : ip.length = 4 ∨ ip.length = 16) : zonedString ip [] = ipString ip := by
  have hne : ip ≠ [] := by rintro rfl; simp at h
  simp [zonedString, hne]

theorem not_i2pSuffix_ipString (h : ip.length = 4 ∨ ip.length = 16) :
    ¬ i2pSuffix <:+ ipString ip := by
  intro hs
  have hp : ch 'p' ∈ ipString ip := hs.subset (by decide)
  exact absurd (mem_ipString h hp) (by decide)

theorem binaryTrip_ipAddr (h : ip.length = 4 ∨ ip.length = 16) (port : UInt16) :
    BinaryTrip net ⟨some (.ipAddr ip []), port⟩ :=
  ⟨_, _, rfl, unmarshalBinary_append h port, equal_mk.2 ⟨rfl, rfl⟩⟩

theorem zone_of_binaryTrip {ip zone port}
    (hip : ip.length = 4 ∨ ip.length = 16) (h : BinaryTrip net ⟨some (.ipAddr ip zone), port⟩) :
    zone = [] := by
  obtain ⟨b, a', hb, hr, heq⟩ := h
  cases hb
  cases (unmarshalBinary_append hip port).symm.trans hr
  have hlen := length_zonedString_le ip zone
  have hstr : zonedString ip [] = zonedString ip zone := (equal_mk.1 heq).2
  rw [← hstr] at hlen
  exact length_eq_zero_iff.1 (by omega)

theorem not_binaryTrip_udp {ip zone} (hip : ip.length = 4 ∨ ip.length = 16) (p : ℤ)
    (port : UInt16) : ¬ BinaryTrip net ⟨some (.udpAddr ip p zone), port⟩ := by
  rintro ⟨b, a', hb, hr, heq⟩
  cases hb
  cases (unmarshalBinary_append hip port).symm.trans hr
  have hle := length_zonedString_le ip zone
  have hlt := length_joinHostPort_lt (zonedString ip zone) (formatInt p)
  have hstr : zonedString ip [] = joinHostPort (zonedString ip zone) (formatInt p) :=
    (equal_mk.1 heq).2
  rw [← hstr] at hlt
  omega

theorem not_binaryTrip_of_port {a : Address}
    (h : a.MarshalBinary net = .ok ([] ++ beBytes 2 a.port.toNat)) : ¬ a.BinaryTrip net := by
  rintro ⟨b, a', hb, hr, -⟩
  cases h.symm.trans hb
  cases (unmarshalBinary_port a.port).symm.trans hr

theorem not_binaryTrip_i2p (hnet : net.Lawful) {addr b}
    (h : net.newI2PAddrFromBytes b = .ok addr) (port : UInt16) :
    ¬ BinaryTrip net ⟨some (.i2p addr), port⟩ := by
  rintro ⟨w, a', hw, hr, heq⟩
  obtain ⟨key, hbytes, hback⟩ := hnet.new_toBytes h
  have hkey : MarshalBinary net ⟨some (.i2p addr), port⟩ = .ok (key ++ beBytes 2 port.toNat) := by
    have hip : ipBytes net ⟨some (.i2p addr), port⟩ = .ok key := hbytes
    rw [MarshalBinary, hip]
    rfl
  cases hkey.symm.trans hw
  rw [UnmarshalBinary] at hr
  split_ifs at hr with h18 hlen
  · cases hr
    have hip : ∀ {l : Bytes}, l.length = 6 ∨ l.length = 18 →
        (l.take (l.length - 2)).length = 4 ∨ (l.take (l.length - 2)).length = 16 := by
      intro l hl
      rw [length_take]
      omega
    have hstr : zonedString _ [] = net.i2pString addr := (equal_mk.1 heq).2
    rw [zonedString_nil (hip hlen)] at hstr
    exact not_i2pSuffix_ipString (hip hlen) (hstr ▸ hnet.string_i2p h)
  · cases hnew : net.newI2PAddrFromBytes (key ++ beBytes 2 port.toNat) with
    | error err => rw [hnew] at hr; cases hr
    | ok addr' =>
      rw [hnew] at hr
      cases hr
      exact hnet.string_append hback hnew (length_beBytes _ _) (equal_mk.1 heq).2

end Binary

section Bencode

variable {ip : Bytes}

theorem encodeBytes_pair (s : Bytes) (port : UInt16) : EncodeBytes env (.iface (.slice .iface)
        (.slice [.iface .string (.str s), .iface (.uint 16) (.uint port.toNat)] [])) =
      .ok (Value.list [.str s, .int port.toNat]).tree.bytes := by
  rfl

theorem decodeBytes_pair {s} (hs : s.length < 2 ^ 31) (port : UInt16) :
    ∃ sp, DecodeBytes env (Value.list [.str s, .int port.toNat]).tree.bytes .iface .nilIface =
      .ok (.iface (.slice .iface)
        (.slice [.iface .string (.str s), .iface (.int 64) (.int port.toNat)] sp)) := by
  have hport := port.toNat_lt
  have hvalid : (Value.list [.str s, .int port.toNat]).Valid := ⟨hs, ⟨by omega, by omega⟩, trivial⟩
  obtain ⟨w, hw, hg⟩ := decodeBytes_generic env hvalid
  rcases generic_eq_list hg with ⟨-, hnil⟩ | ⟨es, sp, rfl, hes⟩
  · cases hnil
  · obtain ⟨x, xs, rfl, hx, hxs⟩ := genericItems_eq_cons hes
    obtain ⟨y, ys, rfl, hy, hys⟩ := genericItems_eq_cons hxs
    cases genericItems_eq_nil hys
    rw [generic_eq_str hx, generic_eq_int hy] at hw
    exact ⟨sp, hw⟩

theorem decode_ipString (h : ip.length = 4 ∨ ip.length = 16) (port : UInt16) :
    decode net [.iface .string (.str (ipString ip)), .iface (.int 64) (.int port.toNat)] =
      .ok ⟨some (.ipAddr (if to4 ip ≠ [] then to4 ip else to16 ip) []), port⟩ := by
  have hport : UInt16.ofInt port.toNat = port := by
    have := port.toNat_lt
    rw [UInt16.ofInt, emod_eq_of_lt (by omega) (by omega), toNat_natCast,
      UInt16.ofNat_toNat]
  rw [decode, if_neg (not_i2pSuffix_ipString h), parseIP_ipString h]
  dsimp only
  rw [to4_to16 h]
  conv_rhs => rw [← hport]
  rfl

theorem string_decoded (h : ip.length = 4 ∨ ip.length = 16) :
    zonedString (if to4 ip ≠ [] then to4 ip else to16 ip) [] = ipString ip := by
  split_ifs with h4
  · rw [zonedString_nil (.inl ((length_to4 ip).resolve_right h4)), ipString_to4 h4]
  · have h16 : ip.length = 16 := h.resolve_left fun hlen => h4 (by
      rw [to4, if_pos hlen]
      rintro rfl
      cases hlen)
    rw [zonedString_nil (.inr (length_to16 h)), to16, if_neg (by omega), if_pos h16]

def ipTree (ip : Bytes) (port : UInt16) : Tree :=
  (Value.list [.str (ipString ip), .int port.toNat]).tree

def ipBack (ip : Bytes) (port : UInt16) : Address :=
  ⟨some (.ipAddr (if to4 ip ≠ [] then to4 ip else to16 ip) []), port⟩

section

variable (h : ip.length = 4 ∨ ip.length = 16) (port : UInt16)
include h port

theorem marshalBencode_ipAddr :
    MarshalBencode env net ⟨some (.ipAddr ip []), port⟩ = .ok (ipTree ip port).bytes := by
  rw [ipTree, ← zonedString_nil h]
  exact encodeBytes_pair _ port

theorem unmarshalBencode_ipTree
    (a0 : Address) :
    a0.UnmarshalBencode env net (ipTree ip port).bytes = .ok (ipBack ip port) := by
  have hlen : (ipString ip).length < 2 ^ 31 := (length_ipString h).trans_lt (by norm_num)
  obtain ⟨sp, hdec⟩ : ∃ sp, DecodeBytes env _ _ _ = .ok _ := decodeBytes_pair hlen port
  rw [ipTree, UnmarshalBencode, hdec]
  exact decode_ipString h port

theorem equal_ipBack : Equal net (ipBack ip port) ⟨some (.ipAddr ip []), port⟩ = some true :=
  equal_mk.2 ⟨rfl, (string_decoded h).trans (zonedString_nil h).symm⟩

theorem bencodeTrip_ipAddr : BencodeTrip env net ⟨some (.ipAddr ip []), port⟩ :=
  ⟨_, marshalBencode_ipAddr h port, fun a0 =>
    ⟨_, unmarshalBencode_ipTree h port a0, equal_ipBack h port⟩⟩

end

theorem codec_ipAddr {env'} (h : env'.methods "Address" = methods env net)
    (hip : ip.length = 4 ∨ ip.length = 16) (port : UInt16) :
    Codec env' type (toGo ⟨some (.ipAddr ip []), port⟩) (ipTree ip port) (ipBack ip port).toGo := by
  have hlen : (ipString ip).length < 2 ^ 31 := (length_ipString hip).trans_lt (by norm_num)
  have hport := port.toNat_lt
  have hvalid : (Value.list [.str (ipString ip), .int port.toNat]).Valid :=
    ⟨hlen, ⟨by omega, by omega⟩, trivial⟩
  refine codec_marshaler (by rw [h]; rfl) (by rw [h]; rfl) rfl hvalid.wf ?_ ?_ ?_
  · simp [ipTree, Value.tree, Value.trees, Tree.scannable, Tree.scannableItems,
      Tree.digitFirst_formatUint]
  · rw [ofGo_toGo]
    exact marshalBencode_ipAddr hip port
  · rw [unmarshalBencode_ipTree hip port]
    rfl

end Bencode

end Address

/-! ## Constructors -/

def NetAddr.Valid (net : Net) : NetAddr → Prop
  | .ipAddr ip _ => ip.length = 4 ∨ ip.length = 16
  | .udpAddr ip _ _ => ip.length = 4 ∨ ip.length = 16
  | .tcpAddr ip _ _ => ip.length = 4 ∨ ip.length = 16
  | .i2p addr => ∃ b, net.newI2PAddrFromBytes b = .ok addr
  | .i2pPtr addr => ∃ b, net.newI2PAddrFromBytes b = .ok addr

def AnyAddr.Valid (net : Net) : AnyAddr → Prop
  | .netIP ip => ip.length = 4 ∨ ip.length = 16
  | .addr a => a.Valid net
  | .other => False

namespace Address

variable {env net}

variable {a : Address}

inductive Constructed (env : Env) (net : Net) : Address → Prop
  | newAddress (ip : AnyAddr) (port : UInt16) :
      ip.Valid net → Constructed env net (NewAddress ip port)
  | fromString (a₀ a : Address) (s : Bytes) : a₀.FromString net s = .ok a → Constructed env net a
  | fromAddr (ua : NetAddr) : ua.Valid net → Constructed env net (FromAddr ua)
  | convertAddress (addr : NetAddr) (a : Address) :
      addr.Valid net → ConvertAddress addr = .ok a → Constructed env net a
  | unmarshalBinary (b : Bytes) (a : Address) :
      UnmarshalBinary net b = .ok a → Constructed env net a
  | unmarshalBencode (a₀ a : Address) (b : Bytes) :
      a₀.UnmarshalBencode env net b = .ok a → Constructed env net a

def ValidIP (net : Net) (a : Address) : Prop := ∀ addr ∈ a.ip, addr.Valid net

theorem validIP_some {addr port} (h : addr.Valid net) : ValidIP net ⟨some addr, port⟩ := by
  intro x hx
  cases hx
  exact h

theorem validIP_newAddress {ip} (h : ip.Valid net) (port : UInt16) :
    (NewAddress ip port).ValidIP net := by
  unfold NewAddress
  split
  · exact validIP_some h
  · exact validIP_some h
  · exact validIP_some h
  · intro x hx
    cases hx

theorem valid_lookupNetAddr (hnet : net.Lawful) {host addrs}
    (h : LookupNetAddr net host = .ok addrs) : ∀ addr ∈ addrs, addr.Valid net := by
  rw [LookupNetAddr] at h
  split_ifs at h
  · cases hl : net.i2pLookup host with
    | error err => rw [hl] at h; cases h
    | ok addr =>
      rw [hl] at h
      cases h
      intro x hx
      cases mem_singleton.1 hx
      exact hnet.lookup_new hl
  · split at h
    · cases h
    · rename_i ips hips
      cases h
      intro addr haddr
      obtain ⟨ip, hip, rfl⟩ := mem_map.1 haddr
      have hlen := hnet.lookupIP_length hips ip hip
      show _ ∨ _
      split_ifs with h4
      · exact .inl ((length_to4 ip).resolve_right h4)
      · exact hlen

theorem validIP_fromString (hnet : net.Lawful) {a0 a : Address} {s : Bytes}
    (h : a0.FromString net s = .ok a) : a.ValidIP net := by
  rw [FromString] at h
  split at h
  · cases h
  · split at h
    · cases h
    · split at h
      · cases h
      · cases h
      · rename_i ip rest hlookup
        cases h
        exact validIP_some (valid_lookupNetAddr hnet hlookup ip mem_cons_self)

theorem validIP_unmarshalBinary {b} (h : UnmarshalBinary net b = .ok a) : a.ValidIP net := by
  rw [UnmarshalBinary] at h
  split_ifs at h with h18 hlen
  · cases h
    refine validIP_some ?_
    show _ ∨ _
    rw [length_take]
    omega
  · cases hnew : net.newI2PAddrFromBytes b with
    | error err => rw [hnew] at h; cases h
    | ok addr =>
      rw [hnew] at h
      cases h
      exact validIP_some ⟨b, hnew⟩

theorem validIP_decode {vs} (h : decode net vs = .ok a) : a.ValidIP net := by
  rw [decode.eq_def] at h
  split at h
  · rename_i host vs
    split at h
    · cases hnew : net.newI2PAddrFromBytes host with
      | error err => rw [hnew] at h; cases h
      | ok addr =>
        rw [hnew] at h
        cases h
        exact validIP_some ⟨host, hnew⟩
    · split at h
      · cases h
      · rename_i ip hip
        split at h
        · cases h
          refine validIP_some ?_
          show _ ∨ _
          split_ifs with h4
          · exact .inl ((length_to4 ip).resolve_right h4)
          · exact .inr (length_parseIP hip)
        · cases h
  · cases h

theorem validIP_unmarshalBencode (hnet : net.Lawful) {a0 a : Address} {b : Bytes}
    (h : a0.UnmarshalBencode env net b = .ok a) : a.ValidIP net := by
  rw [UnmarshalBencode] at h
  split at h
  · cases h
  · exact validIP_fromString hnet h
  · exact validIP_decode h
  · cases h

theorem Constructed.validIP (hnet : net.Lawful) (h : Constructed env net a) : a.ValidIP net := by
  cases h with
  | newAddress ip port hip => exact validIP_newAddress hip port
  | fromString a0 _ s h => exact validIP_fromString hnet h
  | fromAddr ua hua => exact validIP_some hua
  | convertAddress addr _ haddr h =>
    have hnew : ∀ port, (NewAddress (.addr addr) port).ValidIP net :=
      validIP_newAddress (show AnyAddr.Valid net (.addr addr) from haddr)
    unfold ConvertAddress at h
    split at h
    all_goals cases h
    all_goals exact hnew _
  | unmarshalBinary b _ h => exact validIP_unmarshalBinary h
  | unmarshalBencode a0 _ b h => exact validIP_unmarshalBencode hnet h

/-- **Round trips of addresses.** Of the addresses that the package builds, those with an
`*net.IPAddr` without a zone are read back from both forms. -/
theorem address_roundTrips_iff (hnet : net.Lawful) {a : Address} (h : Constructed env net a) :
    a.RoundTrips env net ↔ ∃ ip, a.ip = some (.ipAddr ip []) := by
  have hvalid := h.validIP hnet
  obtain ⟨addr, port⟩ := a
  constructor
  · rintro ⟨hbin, -⟩
    match addr, hvalid with
    | none, _ => exact absurd hbin (not_binaryTrip_of_port rfl)
    | some (.ipAddr ip zone), hvalid =>
      obtain rfl := zone_of_binaryTrip (hvalid _ rfl) hbin
      exact ⟨ip, rfl⟩
    | some (.udpAddr ip p zone), hvalid =>
      exact absurd hbin (not_binaryTrip_udp (hvalid _ rfl) p port)
    | some (.tcpAddr ip p zone), _ => exact absurd hbin (not_binaryTrip_of_port rfl)
    | some (.i2p key), hvalid =>
      obtain ⟨b, hb⟩ := hvalid _ rfl
      exact absurd hbin (not_binaryTrip_i2p hnet hb port)
    | some (.i2pPtr key), _ => exact absurd hbin (not_binaryTrip_of_port rfl)
  · rintro ⟨ip, rfl⟩
    have hip : ip.length = 4 ∨ ip.length = 16 := hvalid _ rfl
    exact ⟨binaryTrip_ipAddr hip port, bencodeTrip_ipAddr hip port⟩

def sampleNet : Net where
  toBytes := .ok
  newI2PAddrFromBytes b := if i2pSuffix <:+ b then .ok b else .error (.method "Not an I2P address")
  destHashFromBytes := .i2p
  i2pString addr := addr
  i2pLookup _ := .error (.method "no such host")
  lookupIP _ := .error (.method "no such host")

/-- A net with binary destinations, besides texts that are addresses themselves. -/
def keyNet : Net :=
  { sampleNet with
    newI2PAddrFromBytes := .ok
    i2pString addr := if i2pSuffix <:+ addr then addr else addr ++ i2pSuffix }

theorem keyNet_lawful : keyNet.Lawful where
  new_toBytes h := ⟨_, rfl, rfl⟩
  string_append {b p _ _} h h' hp := by
    cases h
    cases h'
    intro hs
    have hlen : i2pSuffix.length = 4 := rfl
    have := congrArg length hs
    simp only [keyNet] at this
    split_ifs at this <;> simp only [length_append] at this <;> omega
  string_i2p {b addr} h := by
    simp only [keyNet]
    split_ifs with hs
    · exact hs
    · exact suffix_append _ _
  lookup_new h := by cases h
  lookupIP_length h := by cases h

theorem roundTrips_sample : RoundTrips bareEnv keyNet (NewAddress (.netIP [1, 2, 3, 4]) 80) :=
  (address_roundTrips_iff keyNet_lawful (.newAddress (.netIP [1, 2, 3, 4]) 80 (.inl rfl))).2 ⟨_, rfl⟩

theorem constructed_lost : (ConvertAddress (.udpAddr [1, 2, 3, 4] 80 []) = .ok ⟨none, 0⟩ ∧
      Constructed bareEnv keyNet ⟨none, 0⟩ ∧ ¬ RoundTrips bareEnv keyNet ⟨none, 0⟩) ∧
    (Constructed bareEnv keyNet (FromAddr (.udpAddr [1, 2, 3, 4] 80 [])) ∧
      ¬ RoundTrips bareEnv keyNet (FromAddr (.udpAddr [1, 2, 3, 4] 80 []))) ∧
    (Constructed bareEnv keyNet (NewAddress (.addr (.i2p (replicate 391 7))) 6881) ∧
      ¬ RoundTrips bareEnv keyNet (NewAddress (.addr (.i2p (replicate 391 7))) 6881)) := by
  have hkey : keyNet.newI2PAddrFromBytes (replicate 391 7) = .ok (replicate 391 7) := rfl
  refine ⟨⟨rfl, ?_, ?_⟩, ⟨.fromAddr _ (.inl rfl), ?_⟩, ⟨.newAddress _ _ ⟨_, hkey⟩, ?_⟩⟩
  · exact .convertAddress (.udpAddr [1, 2, 3, 4] 80 []) _ (.inl rfl) rfl
  · exact fun h => not_binaryTrip_of_port rfl h.1
  · exact fun h => not_binaryTrip_udp (.inl rfl) 80 _ h.1
  · exact fun h => not_binaryTrip_i2p keyNet_lawful hkey 6881 h.1

end Address

/-! ## Host addresses -/

structure HostAddress where
  host : Bytes
  port : UInt16
deriving DecidableEq

namespace HostAddress

def type : GoType := .named "HostAddress"
  (.struct [(⟨"Host", [], false, true⟩, .string), (⟨"Port", [], false, true⟩, .uint 16)])

def toGo (a : HostAddress) : GoVal := .struct [.str a.host, .uint a.port.toNat]

def ofGo (v : GoVal) : HostAddress := ⟨strOf (fieldOf v 0), UInt16.ofNat (uintOf (fieldOf v 1))⟩

def FromString (a : HostAddress) (addr : Bytes) : Except Error HostAddress :=
  match splitHostPort addr with
  | .error _ => .error (.method "invalid address '%s': %s")
  | .ok (host, port) =>
    if host = [] then .error (.method "invalid address '%s': missing host")
    else if port ≠ [] then
      match parseUint 16 port with
      | none => .error (.method "invalid address '%s': %s")
      | some v => .ok ⟨host, UInt16.ofNat v⟩
    else .ok { a with host }

def decode (vs : List GoVal) : Except Error HostAddress :=
  match vs with
  | .iface .string (.str host) :: .iface (.int 64) (.int port) :: _ =>
    .ok ⟨host, UInt16.ofInt port⟩
  | _ => .error .panic

def UnmarshalBencode (env : Env) (a : HostAddress) (b : Bytes) : Except Error HostAddress :=
  match DecodeBytes env b .iface .nilIface with
  | .error err => .error err
  | .ok (.iface .string (.str v)) => a.FromString v
  | .ok (.iface (.slice .iface) v) => decode (elemsOf v).1
  | .ok _ => .error (.method "unsupported type: %T")

def MarshalBencode (env : Env) (a : HostAddress) : Except Error Bytes :=
  EncodeBytes env (.iface (.slice .iface)
    (.slice [.iface .string (.str a.host), .iface (.uint 16) (.uint a.port.toNat)] []))

def methods (env : Env) : Methods where
  marshalBencode := some (.value, fun v => (ofGo v).MarshalBencode env)
  unmarshalBencode := some fun old b => ((ofGo old).UnmarshalBencode env b).map toGo

theorem FromString_short {a a' : HostAddress} {addr : Bytes} (h : a.FromString addr = .ok a') :
    a'.host.length ≤ addr.length := by
  rw [FromString] at h
  split at h
  · cases h
  · rename_i host port hsplit
    have hlen := splitHostPort_length hsplit
    split_ifs at h
    · split at h
      · cases h
      · cases h; exact hlen
    · cases h; exact hlen

theorem UnmarshalBencode_short {env : Env} (henv : ShortEnv env) {a a' : HostAddress} {b : Bytes}
    (h : a.UnmarshalBencode env b = .ok a') : Short a'.toGo := by
  suffices hhost : a'.host.length < 2 ^ 31 by
    refine .struct fun v hv => ?_
    simp only [mem_cons, not_mem_nil, or_false] at hv
    rcases hv with rfl | rfl
    · exact .str hhost
    · exact .uint
  rw [UnmarshalBencode] at h
  split at h
  · cases h
  · rename_i v hv
    have hs := decodeBytes_short henv .nilIface hv
    cases hs with
    | iface hs =>
      cases hs with
      | str hs => exact (FromString_short h).trans_lt hs
  · rename_i v hv
    have hs := decodeBytes_short henv .nilIface hv
    cases hs with
    | iface hs =>
      have hes := (short_elemsOf hs).1
      rw [decode.eq_def] at h
      split at h
      · rename_i host port rest heq
        cases h
        have := hes (.iface .string (.str host)) (by rw [heq]; exact mem_cons_self)
        cases this with
        | iface hs =>
          cases hs with
          | str hs => exact hs
      · cases h
  · cases h

end HostAddress

end GoI2pBt.Metainfo
