/-
  Nodes and compact lists of nodes.
-/
import GoI2pBt.Metainfo.Address
import GoI2pBt.Metainfo.Hash

namespace GoI2pBt.Krpc

open List Bencode Metainfo Address

/-! ## Nodes -/

structure Node where
  id : Hash
  addr : Address
deriving DecidableEq

def NewNode (id : Hash) (ip : Bytes) (port : ℤ) : Node :=
  ⟨id, NewAddress (.netIP ip) (UInt16.ofInt port)⟩

def NewNodeByUDPAddr (id : Hash) (addr : NetAddr) : Node := ⟨id, .FromAddr addr⟩

variable (env : Env) (net : Net)

namespace Node

def Equal (n o : Node) : Option Bool :=
  if n.id = o.id then n.addr.Equal net o.addr else some false

def MarshalBinary (n : Node) : Except Bencode.Error Bytes := do
  return n.id.bytes ++ (← n.addr.MarshalBinary net)

def UnmarshalBinary (b : Bytes) : Except Bencode.Error Node :=
  if b.length < 26 then .error (.method "short buffer")
  else do return ⟨.ofBytes (b.take 20), ← Address.UnmarshalBinary net (b.drop 20)⟩

def type : GoType := .named "Node"
  (.struct [(⟨"ID", [], false, true⟩, Hash.type), (⟨"Addr", [], false, true⟩, Address.type)])

def toGo (n : Node) : GoVal := .struct [n.id.toGo, n.addr.toGo]

def ofGo (v : GoVal) : Node := ⟨.ofGo (fieldOf v 0), .ofGo (fieldOf v 1)⟩

@[simp] theorem ofGo_toGo (n : Node) : ofGo n.toGo = n := by
  have hid : Hash.ofGo n.id.toGo = n.id := Hash.ofGo_toGo _
  have haddr : Address.ofGo n.addr.toGo = n.addr := Address.ofGo_toGo _
  exact congrArg₂ Node.mk hid haddr

end Node

/-! ## Compact lists -/

def unmarshalNodes (w : ℕ) : ℕ → Bytes → Except Bencode.Error (List Node)
  | 0, _ => .ok []
  | n + 1, b => do
    let ni ← Node.UnmarshalBinary net (b.take w)
    return ni :: (← unmarshalNodes w n (b.drop w))

def unmarshalCompact (unmarshalBinary : Bytes → Except Bencode.Error (List Node)) (b : Bytes) :
    Except Bencode.Error (List Node) :=
  match DecodeBytes env b .string (.str []) with
  | .error err => .error err
  | .ok s => unmarshalBinary (strOf s)

def marshalCompact (b : Except Bencode.Error Bytes) : Except Bencode.Error Bytes := do
  EncodeBytes env (.iface (.slice (.uint 8)) (bytesVal (← b)))

def nodesOfGo (v : GoVal) : List Node := (elemsOf v).1.map Node.ofGo

def nodesToGo (isNil : Bool) (cn : List Node) : GoVal := sliceVal isNil (cn.map Node.toGo)

@[simp] theorem nodesOfGo_toGo (isNil : Bool) (cn : List Node) :
    nodesOfGo (nodesToGo isNil cn) = cn := by
  simp [nodesOfGo, nodesToGo, Function.comp_def]

namespace CompactIPv4Node

def MarshalBinary : List Node → Except Bencode.Error Bytes
  | [] => .ok []
  | ni :: cn =>
    if ni.addr.To4.String net = [] then MarshalBinary cn
    else do
      let b ← Node.MarshalBinary net ⟨ni.id, ⟨some ni.addr.To4, ni.addr.port⟩⟩
      if b.length ≠ 26 then .error .panic
      else return b ++ (← MarshalBinary cn)

def UnmarshalBinary (b : Bytes) : Except Bencode.Error (List Node) :=
  if b.length % 26 ≠ 0 then .error (.method "CompactIPv4NodeInfo: invalid bytes length '%d'")
  else unmarshalNodes net 26 (b.length / 26) b

def MarshalBencode (cn : List Node) : Except Bencode.Error Bytes :=
  marshalCompact env (MarshalBinary net cn)

def UnmarshalBencode (b : Bytes) : Except Bencode.Error (List Node) :=
  unmarshalCompact env (UnmarshalBinary net) b

def type : GoType := .named "CompactIPv4Node" (.slice Node.type)

def methods : Methods where
  marshalBencode := some (.value, fun v => MarshalBencode env net (nodesOfGo v))
  unmarshalBencode := some fun _ b => (UnmarshalBencode env net b).map (nodesToGo false)

end CompactIPv4Node

namespace CompactIPv6Node

def MarshalBinary : List Node → Except Bencode.Error Bytes
  | [] => .ok []
  | ni :: cn => do
    let b ← Node.MarshalBinary net ⟨ni.id, ⟨some ni.addr.To16, ni.addr.port⟩⟩
    if b.length ≠ 38 then .error .panic
    else return b ++ (← MarshalBinary cn)

def UnmarshalBinary (b : Bytes) : Except Bencode.Error (List Node) :=
  if b.length % 38 ≠ 0 then .error (.method "CompactIPv6NodeInfo: invalid bytes length '%d'")
  else unmarshalNodes net 38 (b.length / 38) b

def MarshalBencode (cn : List Node) : Except Bencode.Error Bytes :=
  marshalCompact env (MarshalBinary net cn)

def UnmarshalBencode (b : Bytes) : Except Bencode.Error (List Node) :=
  unmarshalCompact env (UnmarshalBinary net) b

def type : GoType := .named "CompactIPv6Node" (.slice Node.type)

def methods : Methods where
  marshalBencode := some (.value, fun v => MarshalBencode env net (nodesOfGo v))
  unmarshalBencode := some fun _ b => (UnmarshalBencode env net b).map (nodesToGo false)

end CompactIPv6Node

/-! ## What is read back -/

variable {env net}

def nodeBytes (id : Hash) (ip : Bytes) (port : UInt16) : Bytes :=
  id.bytes ++ (ip ++ beBytes 2 port.toNat)

theorem marshalBinary_ipAddr (id : Hash) (ip zone : Bytes) (port : UInt16) :
    Node.MarshalBinary net ⟨id, ⟨some (.ipAddr ip zone), port⟩⟩ = .ok (nodeBytes id ip port) := rfl

theorem length_nodeBytes (id : Hash) (ip : Bytes) (port : UInt16) :
    (nodeBytes id ip port).length = ip.length + 22 := by
  have hid : id.bytes.length = 20 := id.length_eq
  simp only [nodeBytes, length_append, length_beBytes, hid]
  omega

theorem unmarshalBinary_nodeBytes (id : Hash) {ip} (h : ip.length = 4 ∨ ip.length = 16)
    (port : UInt16) :
    Node.UnmarshalBinary net (nodeBytes id ip port) = .ok ⟨id, ⟨some (.ipAddr ip []), port⟩⟩ := by
  have hid : id.bytes.length = 20 := id.length_eq
  have htake : (nodeBytes id ip port).take 20 = id.bytes := take_left' hid
  have hdrop : (nodeBytes id ip port).drop 20 = ip ++ beBytes 2 port.toNat := drop_left' hid
  rw [Node.UnmarshalBinary, length_nodeBytes, if_neg (by omega), htake, hdrop,
    unmarshalBinary_append h, Hash.ofBytes_bytes]
  rfl

abbrev IPNodes := List (Hash × Bytes × UInt16)

def IPNodes.nodes (l : IPNodes) : List Node :=
  l.map fun p => ⟨p.1, ⟨some (.ipAddr p.2.1 []), p.2.2⟩⟩

def IPNodes.bytes (l : IPNodes) : Bytes := l.flatMap fun p => nodeBytes p.1 p.2.1 p.2.2

theorem IPNodes.length_bytes {l : IPNodes} {w : ℕ} (h : ∀ p ∈ l, p.2.1.length + 22 = w) :
    l.bytes.length = w * l.length := by
  induction l with
  | nil => rfl
  | cons p l ih =>
    have hp : (nodeBytes p.1 p.2.1 p.2.2).length = w := by
      rw [length_nodeBytes, h p mem_cons_self]
    have ih := ih fun p hp => h p (mem_cons_of_mem _ hp)
    have hcons : IPNodes.bytes (p :: l) = nodeBytes p.1 p.2.1 p.2.2 ++ IPNodes.bytes l := rfl
    rw [hcons, length_append, hp, ih, length_cons]
    ring

theorem IPNodes.unmarshalNodes_bytes {l : IPNodes} {w : ℕ} (hw : w = 26 ∨ w = 38)
    (h : ∀ p ∈ l, p.2.1.length + 22 = w) :
    unmarshalNodes net w l.length l.bytes = .ok l.nodes := by
  induction l with
  | nil => rfl
  | cons p l ih =>
    have hlen := h p mem_cons_self
    have hp : (nodeBytes p.1 p.2.1 p.2.2).length = w := by rw [length_nodeBytes, hlen]
    have hcons : IPNodes.bytes (p :: l) = nodeBytes p.1 p.2.1 p.2.2 ++ IPNodes.bytes l := rfl
    rw [hcons, length_cons, unmarshalNodes, take_left' hp, drop_left' hp,
      unmarshalBinary_nodeBytes _ (by omega), ih fun p hp => h p (mem_cons_of_mem _ hp)]
    rfl

theorem codec_compact {env' : Env} {name : String} {marshal : List Node → Except Error Bytes}
    {unmarshal : Bytes → Except Error (List Node)} (hm : env'.methods name =
      { marshalBencode := some (.value, fun v => marshalCompact env (marshal (nodesOfGo v)))
        unmarshalBencode := some fun _ b =>
          (unmarshalCompact env unmarshal b).map (nodesToGo false) })
    {isNil : Bool} {cn cn' : List Node} {b : Bytes} (hb : b.length < 2 ^ 31)
    (hwrite : marshal cn = .ok b) (hread : unmarshal b = .ok cn') :
    Codec env' (.named name (.slice Node.type)) (nodesToGo isNil cn)
      (.str (formatUint b.length) b) (nodesToGo false cn') := by
  have hbytes : Codec env (.slice (.uint 8)) _ _ _ := codec_bytes hb
  have hstring : Codec env .string _ _ _ := codec_string hb
  refine codec_marshaler (by rw [hm]) (by rw [hm]) (direct_sliceVal _ _) hbytes.wf hbytes.scan
    ?_ ?_
  · rw [nodesOfGo_toGo, marshalCompact, hwrite]
    exact hbytes.writes false
  · have hdec : DecodeBytes env _ .string (.str []) = .ok _ :=
      decodeBytes_ok_iff.2 ⟨_, [], hstring.wf, (append_nil _).symm, hstring.reads⟩
    rw [unmarshalCompact, hdec]
    change (unmarshal b).map _ = _
    rw [hread]
    rfl

structure OnIP (a : Address) (ip : Bytes) : Prop where
  ip_eq : a.ip = some (.ipAddr ip [])
  length : ip.length = 4 ∨ ip.length = 16

def Node.V4 (n : Node) : Prop := ∃ ip, OnIP n.addr ip ∧ to4 ip ≠ []

def Node.V6 (n : Node) : Prop := ∃ ip, OnIP n.addr ip ∧ to4 ip = []

theorem Node.equal_of_string {id addr addr' port} (h : addr.String net = addr'.String net) :
    Node.Equal net ⟨id, ⟨some addr, port⟩⟩ ⟨id, ⟨some addr', port⟩⟩ = some true := by
  rw [Node.Equal, if_pos rfl]
  exact equal_mk.2 ⟨rfl, h⟩

theorem string_to4 {ip} (h : to4 ip ≠ []) :
    NetAddr.String net (.ipAddr (to4 ip) []) = ipString ip := by
  change zonedString (to4 ip) [] = _
  rw [zonedString_nil (.inl ((length_to4 ip).resolve_right h)), ipString_to4 h]

def Marshalled (net : Net) (w : ℕ) (cn : List Node) (x : Except Bencode.Error Bytes) : Prop :=
  ∃ l : IPNodes, (∀ p ∈ l, p.2.1.length + 22 = w) ∧ l.length = cn.length ∧ x = .ok l.bytes ∧
    Forall₂ (fun n' n => Node.Equal net n' n = some true) l.nodes cn

variable {w : ℕ} {cn : List Node}

theorem marshalled_nil (net : Net) (w : ℕ) : Marshalled net w [] (.ok []) :=
  ⟨[], by simp, rfl, rfl, .nil⟩

theorem Marshalled.cons {x id ip ip' port} (h : Marshalled net w cn x) (hip : ip.length + 22 = w)
    (hstr : NetAddr.String net (.ipAddr ip []) = NetAddr.String net (.ipAddr ip' [])) :
    Marshalled net w (⟨id, ⟨some (.ipAddr ip' []), port⟩⟩ :: cn) (do
      let b ← Node.MarshalBinary net ⟨id, ⟨some (.ipAddr ip []), port⟩⟩
      if b.length ≠ w then .error .panic else return b ++ (← x)) := by
  obtain ⟨l, hl, hlen, rfl, heq⟩ := h
  refine ⟨(id, ip, port) :: l, ?_, congrArg (· + 1) hlen, ?_, .cons ?_ heq⟩
  · exact forall_mem_cons.2 ⟨hip, hl⟩
  · rw [marshalBinary_ipAddr]
    change (if (nodeBytes id ip port).length ≠ w then _ else _) = _
    rw [if_neg (by rw [length_nodeBytes, hip]; simp)]
    rfl
  · exact Node.equal_of_string hstr

theorem marshalled_v4 (net : Net) {cn} (h : ∀ n ∈ cn, n.V4) :
    Marshalled net 26 cn (CompactIPv4Node.MarshalBinary net cn) := by
  induction cn with
  | nil => exact marshalled_nil net 26
  | cons n cn ih =>
    obtain ⟨id, ⟨addr, port⟩⟩ := n
    obtain ⟨ip, ⟨hip, hlen4⟩, h4⟩ := h _ mem_cons_self
    cases hip
    have hto4 : To4 ⟨some (.ipAddr ip []), port⟩ = .ipAddr (to4 ip) [] := rfl
    have h4len : (to4 ip).length = 4 := (length_to4 ip).resolve_right h4
    have hne : ipString ip ≠ [] := ipString_ne_nil hlen4
    have hstr : NetAddr.String net _ = _ := string_to4 h4
    rw [CompactIPv4Node.MarshalBinary, hto4, hstr, if_neg hne]
    exact (ih fun n hn => h n (mem_cons_of_mem _ hn)).cons (congrArg (· + 22) h4len)
      (hstr.trans (zonedString_nil hlen4).symm)

theorem marshalled_v6 (net : Net) {cn} (h : ∀ n ∈ cn, n.V6) :
    Marshalled net 38 cn (CompactIPv6Node.MarshalBinary net cn) := by
  induction cn with
  | nil => exact marshalled_nil net 38
  | cons n cn ih =>
    obtain ⟨id, ⟨addr, port⟩⟩ := n
    obtain ⟨ip, ⟨hip, hlen6⟩, h6⟩ := h _ mem_cons_self
    cases hip
    have h16 : ip.length = 16 := hlen6.resolve_left fun hlen => by
      rw [to4, if_pos hlen] at h6
      rw [h6] at hlen
      cases hlen
    have hto16 : To16 ⟨some (.ipAddr ip []), port⟩ = .ipAddr ip [] := by
      change NetAddr.ipAddr (to16 ip) [] = _
      rw [to16, if_neg (by omega), if_pos h16]
    rw [CompactIPv6Node.MarshalBinary, hto16]
    exact (ih fun n hn => h n (mem_cons_of_mem _ hn)).cons (congrArg (· + 22) h16) rfl

theorem Marshalled.codec {env' : Env} {name : String} {marshal : List Node → Except Error Bytes}
    {err} (h : Marshalled net w cn (marshal cn)) (hw : w = 26 ∨ w = 38) (hm : env'.methods name =
      { marshalBencode := some (.value, fun v => marshalCompact env (marshal (nodesOfGo v)))
        unmarshalBencode := some fun _ b => (unmarshalCompact env (fun b =>
          if b.length % w ≠ 0 then .error err else unmarshalNodes net w (b.length / w) b) b).map
            (nodesToGo false) }) (isNil : Bool) (hlen : w * cn.length < 2 ^ 31) :
    ∃ x cn', Forall₂ (fun n' n => Node.Equal net n' n = some true) cn' cn ∧
      Codec env' (.named name (.slice Node.type)) (nodesToGo isNil cn) x (nodesToGo false cn') := by
  obtain ⟨l, hl, hn, hwrite, heq⟩ := h
  have hbytes := IPNodes.length_bytes hl
  refine ⟨_, l.nodes, heq, codec_compact hm (by rw [hbytes, hn]; exact hlen) hwrite ?_⟩
  rw [hbytes, Nat.mul_mod_right, if_neg (by simp), Nat.mul_div_cancel_left _ (by omega),
    IPNodes.unmarshalNodes_bytes hw hl]

end GoI2pBt.Krpc
