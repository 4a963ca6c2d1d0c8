/-
  The peer lists of HTTP trackers.
-/
import GoI2pBt.Metainfo.Address

namespace GoI2pBt.Tracker.Http

open List Bencode Metainfo Option Int Value

def errInvalidPeer : Error := .method "invalid peer information format"

def ErrInvalidAddr : Error := .method "invalid compact information of ip and port"

@[ext]
structure Peer where
  ID : Bytes
  IP : Bytes
  Port : UInt16
deriving DecidableEq

namespace Peer

def fields : List (Field × GoType) :=
  [(tagged "ID" "peer id", .string), (tagged "IP" "ip", .string), (tagged "Port" "port", .uint 16)]

def type : GoType := .named "Peer" (.struct fields)

def toGo (p : Peer) : GoVal := .struct [.str p.ID, .str p.IP, .uint p.Port.toNat]

end Peer

variable (env : Env) (net : Net)

/-! ## Entries of a fixed size -/

def readEntries (w : ℕ) (read : Bytes → Except Error Peer) : ℕ → Bytes → Except Error (List Peer)
  | 0, _ => .ok []
  | k + 1, data => do
    let peer ← read (data.take w)
    let peers ← readEntries w read k (data.drop w)
    return peer :: peers

def readAddress (b : Bytes) : Except Error Peer := do
  let addr ← Address.UnmarshalBinary net b
  match addr.ip with
  | none => .error .panic
  | some ip => return ⟨[], ip.String net, addr.port⟩

def readI2P (hash : Bytes) : Except Error Peer :=
  .ok ⟨[], base32String hash ++ utf8 ".b32.i2p", 6881⟩

def writeEntries (conv : Bytes → Bytes) : List Peer → Except Error Bytes
  | [] => .ok []
  | peer :: peers => do
    let ip := conv ((parseIP peer.IP).getD [])
    if ip = [] then .error errInvalidPeer
    else return ip ++ beBytes 2 peer.Port.toNat ++ (← writeEntries conv peers)

def marshalEntries (conv : Bytes → Bytes) (ps : List Peer) : Except Error Bytes := do
  EncodeBytes env.noMethods (.iface (.slice (.uint 8)) (bytesVal (← writeEntries conv ps)))

/-! ## Peers -/

abbrev Peers := List Peer

namespace Peers

def unmarshalCompactPeers (data : Bytes) : Except Error Peers :=
  if data.length % 32 = 0 ∧ data.length > 0 then readEntries 32 readI2P (data.length / 32) data
  else if data.length % 6 = 0 then readEntries 6 (readAddress net) (data.length / 6) data
  else .error ErrInvalidAddr

def extractPeerFromDict : GoVal → Except Error Peer
  | .iface (.map .iface) (.map m) =>
    match m.lookup (utf8 "peer id") with
    | some (.iface .string (.str pid)) =>
      match m.lookup (utf8 "ip") with
      | some (.iface .string (.str ip)) =>
        match m.lookup (utf8 "port") with
        | some (.iface (.int 64) (.int port)) => .ok ⟨pid, ip, .ofInt port⟩
        | _ => .error errInvalidPeer
      | _ => .error errInvalidPeer
    | _ => .error errInvalidPeer
  | _ => .error errInvalidPeer

def unmarshalDictPeers : List GoVal → Except Error Peers
  | [] => .ok []
  | p :: data => do
    let peer ← extractPeerFromDict p
    let peers ← unmarshalDictPeers data
    return peer :: peers

def UnmarshalBencode (b : Bytes) : Except Error Peers :=
  match DecodeBytes env.noMethods b .iface .nilIface with
  | .error err => .error err
  | .ok (.iface .string (.str vs)) => unmarshalCompactPeers net vs
  | .ok (.iface (.slice .iface) vs) => unmarshalDictPeers (elemsOf vs).1
  | .ok _ => .error errInvalidPeer

def marshalCompactBencode (ps : Peers) : Except Error Bytes := marshalEntries env to4 ps

def encodePeers : Peers → Except Error Bytes
  | [] => .ok []
  | p :: ps => do
    let b ← EncodeBytes env.noMethods (.iface Peer.type p.toGo)
    return b ++ (← encodePeers ps)

def MarshalBencode (ps : Peers) : Except Error Bytes :=
  if ∃ p ∈ ps, p.ID = [] then marshalCompactBencode env ps
  else do
    return ch 'l' :: (← encodePeers env ps) ++ [ch 'e']

def RoundTrips (ps : Peers) : Prop :=
  ∃ b, MarshalBencode env ps = .ok b ∧ UnmarshalBencode env net b = .ok ps

end Peers

/-! ## Peers6 -/

abbrev Peers6 := List Peer

namespace Peers6

def UnmarshalBencode (b : Bytes) : Except Error Peers6 :=
  match DecodeBytes env.noMethods b .string (.str []) with
  | .error err => .error err
  | .ok s =>
    if (strOf s).length % 18 ≠ 0 then .error ErrInvalidAddr
    else readEntries 18 (readAddress net) ((strOf s).length / 18) (strOf s)

def MarshalBencode (ps : Peers6) : Except Error Bytes := marshalEntries env to16 ps

def RoundTrips (ps : Peers6) : Prop :=
  ∃ b, MarshalBencode env ps = .ok b ∧ UnmarshalBencode env net b = .ok ps

end Peers6

variable {env net}

/-! ## Reading entries back -/

theorem readEntries_flatMap {w : ℕ} {read : Bytes → Except Error Peer} {enc : Peer → Bytes}
    {ps : List Peer} (h : ∀ p ∈ ps, (enc p).length = w ∧ read (enc p) = .ok p) :
    readEntries w read ps.length (ps.flatMap enc) = .ok ps := by
  induction ps with
  | nil => rfl
  | cons p ps ih =>
    obtain ⟨hlen, hread⟩ := h p mem_cons_self
    rw [flatMap_cons, length_cons, readEntries, ← hlen, take_left, drop_left,
      hlen, hread, ih fun q hq => h q (mem_cons_of_mem p hq)]
    rfl

theorem length_readEntries {w read k data ps} (h : readEntries w read k data = .ok ps) :
    ps.length = k := by
  induction k generalizing data ps with
  | zero => cases h; rfl
  | succ k ih =>
    obtain ⟨p, -, h⟩ := except_bind_eq_ok.1 h
    obtain ⟨qs, hqs, h⟩ := except_bind_eq_ok.1 h
    cases h
    rw [length_cons, ih hqs]

theorem readEntries_id {w : ℕ} {read : Bytes → Except Error Peer}
    (hread : ∀ {b p}, read b = .ok p → p.ID = []) {k : ℕ} {data : Bytes} {ps : List Peer}
    (h : readEntries w read k data = .ok ps) : ∀ p ∈ ps, p.ID = [] := by
  induction k generalizing data ps with
  | zero => cases h; simp
  | succ k ih =>
    obtain ⟨p, hp, h⟩ := except_bind_eq_ok.1 h
    obtain ⟨qs, hqs, h⟩ := except_bind_eq_ok.1 h
    cases h
    intro q hq
    rcases mem_cons.1 hq with rfl | hq
    · exact hread hp
    · exact ih hqs q hq

theorem readAddress_id {b p} (h : readAddress net b = .ok p) : p.ID = [] := by
  obtain ⟨addr, -, h⟩ := except_bind_eq_ok.1 h
  cases hip : addr.ip with
  | none => rw [hip] at h; cases h
  | some ip => rw [hip] at h; cases h; rfl

theorem readAddress_append {ip} (h : ip.length = 4 ∨ ip.length = 16) (port : UInt16) :
    readAddress net (ip ++ beBytes 2 port.toNat) = .ok ⟨[], ipString ip, port⟩ := by
  rw [readAddress, Address.unmarshalBinary_append h]
  change Except.ok (Peer.mk [] (zonedString ip []) port) = _
  rw [Address.zonedString_nil h]

structure Canonical (n : ℕ) (conv : Bytes → Bytes) (p : Peer) (ip : Bytes) : Prop where
  id : p.ID = []
  text : p.IP = ipString ip
  length : ip.length = n
  conv : conv ((parseIP p.IP).getD []) = ip

section Entries

variable {n : ℕ} {conv : Bytes → Bytes} {ps : List Peer}

def entry (conv : Bytes → Bytes) (p : Peer) : Bytes :=
  conv ((parseIP p.IP).getD []) ++ beBytes 2 p.Port.toNat

theorem writeEntries_canonical (hn : n = 4 ∨ n = 16) (h : ∀ p ∈ ps, ∃ ip, Canonical n conv p ip) :
    writeEntries conv ps = .ok (ps.flatMap (entry conv)) := by
  induction ps with
  | nil => rfl
  | cons p ps ih =>
    obtain ⟨ip, hp⟩ := h p mem_cons_self
    have hne : ip ≠ [] := by
      rintro rfl
      have := hp.length
      rcases hn with rfl | rfl <;> cases this
    rw [writeEntries, ih fun q hq => h q (mem_cons_of_mem p hq), hp.conv, flatMap_cons,
      entry, hp.conv]
    simp only [hne, if_false]
    rfl

theorem readEntries_canonical (hn : n = 4 ∨ n = 16) (h : ∀ p ∈ ps, ∃ ip, Canonical n conv p ip) :
    readEntries (n + 2) (readAddress net) ps.length (ps.flatMap (entry conv)) = .ok ps := by
  refine readEntries_flatMap fun p hp => ?_
  obtain ⟨ip, hc⟩ := h p hp
  rw [entry, hc.conv]
  refine ⟨by simp [hc.length], ?_⟩
  have hlen : ip.length = 4 ∨ ip.length = 16 := hc.length ▸ hn
  rw [readAddress_append hlen, ← hc.text, ← hc.id]

theorem length_flatMap_entry (h : ∀ p ∈ ps, ∃ ip, Canonical n conv p ip) :
    (ps.flatMap (entry conv)).length = (n + 2) * ps.length := by
  induction ps with
  | nil => simp
  | cons p ps ih =>
    obtain ⟨ip, hp⟩ := h p mem_cons_self
    rw [flatMap_cons, length_append, ih fun q hq => h q (mem_cons_of_mem p hq),
      entry, hp.conv, length_append, hp.length, length_beBytes, length_cons]
    ring

end Entries

def Compact4 (ps : List Peer) : Prop :=
  ∀ p ∈ ps, p.ID = [] ∧ ∃ ip : Bytes, ip.length = 4 ∧ p.IP = ipString ip

def Compact6 (ps : List Peer) : Prop :=
  ∀ p ∈ ps, p.ID = [] ∧ ∃ ip : Bytes, ip.length = 16 ∧ to4 ip = [] ∧ p.IP = ipString ip

theorem Compact4.canonical {ps} (h : Compact4 ps) : ∀ p ∈ ps, ∃ ip, Canonical 4 to4 p ip := by
  intro p hp
  obtain ⟨hid, ip, hlen, htext⟩ := h p hp
  refine ⟨ip, hid, htext, hlen, ?_⟩
  rw [htext, parseIP_ipString (.inl hlen), getD_some, to4_to16 (.inl hlen), to4, if_pos hlen]

theorem Compact6.canonical {ps} (h : Compact6 ps) : ∀ p ∈ ps, ∃ ip, Canonical 16 to16 p ip := by
  intro p hp
  obtain ⟨hid, ip, hlen, -, htext⟩ := h p hp
  refine ⟨ip, hid, htext, hlen, ?_⟩
  have h16 : to16 ip = ip := by rw [to16, if_neg (by omega), if_pos hlen]
  rw [htext, parseIP_ipString (.inr hlen), getD_some, h16, h16]

/-! ## Dictionaries -/

namespace Peer

def value (p : Peer) : Value := .dict
  [(utf8 "ip", .str p.IP), (utf8 "peer id", .str p.ID), (utf8 "port", .int p.Port.toNat)]

def Short (p : Peer) : Prop := p.ID.length < 2 ^ 31 ∧ p.IP.length < 2 ^ 31

theorem keysLt {α : Type} (ip id port : α) :
    KeysLt [(utf8 "ip", ip), (utf8 "peer id", id), (utf8 "port", port)] := by
  have h1 : utf8 "ip" < utf8 "peer id" := by decide
  have h2 : utf8 "ip" < utf8 "port" := by decide
  have h3 : utf8 "peer id" < utf8 "port" := by decide
  simp [KeysLt, h1, h2, h3]

theorem valid_value {p : Peer} (h : p.Short) : p.value.Valid := by
  have hport := p.Port.toNat_lt
  exact ⟨keysLt _ _ _, by decide, h.2, by decide, h.1, by decide, ⟨by omega, by omega⟩, trivial⟩

theorem tagIs_ip : tagIs "ip" "ip".toList false := by decide +kernel

theorem tagIs_port : tagIs "port" "port".toList false := by decide +kernel

def rows (env : Env) {p : Peer} (h : p.Short) : List (Row env) :=
  [Row.tagged "ID" "peer id" "peer id".toList false fun _ => codec_string h.1,
   Row.tagged "IP" "ip" "ip".toList false (fun _ => codec_string h.2) rfl tagIs_ip,
   Row.tagged "Port" "port" "port".toList false
     (fun _ => codec_uint (by decide) p.Port.toNat_lt) rfl tagIs_port]

theorem encodeBytes_peer {p : Peer} (h : p.Short) :
    EncodeBytes env.noMethods (.iface type p.toGo) = .ok p.value.tree.bytes := by
  -- the struct has the ID before the IP
  have hpairs : rowPairs (rows env.noMethods h) =
      [(utf8 "peer id", (str p.ID).tree), (utf8 "ip", (str p.IP).tree),
        (utf8 "port", (int p.Port.toNat).tree)] := rfl
  have hread : readStruct env.noMethods false (rowFields (rows env.noMethods h))
      ((rows env.noMethods h).map Row.val) = _ := readStruct_rows _
  have hsort : env.noMethods.sort ((rowPairs (rows env.noMethods h)).map
        fun p => (p.1, .ok p.2.bytes)) =
      ([(utf8 "ip", (str p.IP).tree), (utf8 "peer id", (str p.ID).tree),
        (utf8 "port", (int p.Port.toNat).tree)] : List (Bytes × Tree)).map
        fun p => (p.1, .ok p.2.bytes) := by
    rw [hpairs]
    exact sort_of_perm (keysLt _ _ _) (.swap _ _ _)
  change writeDict env.noMethods (readStruct env.noMethods false (rowFields (rows env.noMethods h))
    ((rows env.noMethods h).map Row.val)) = _
  rw [hread, writeDict, hsort, writePairs_trees]
  rfl

theorem extract_value {p g} (h : generic g = some p.value) :
    Peers.extractPeerFromDict g = .ok p := by
  have hport : UInt16.ofInt p.Port.toNat = p.Port := by
    have := p.Port.toNat_lt
    rw [UInt16.ofInt, emod_eq_of_lt (by omega) (by omega), toNat_natCast,
      UInt16.ofNat_toNat]
  rcases generic_eq_dict h with ⟨-, hnil⟩ | ⟨es, rfl, hes⟩
  · cases hnil
  · obtain ⟨ip, es, rfl, hip, hes⟩ := genericEntries_eq_cons hes
    obtain ⟨id, es, rfl, hid, hes⟩ := genericEntries_eq_cons hes
    obtain ⟨port, es, rfl, hport', hes⟩ := genericEntries_eq_cons hes
    cases genericEntries_eq_nil hes
    rw [generic_eq_str hip, generic_eq_str hid, generic_eq_int hport']
    change Except.ok (Peer.mk p.ID p.IP (UInt16.ofInt p.Port.toNat)) = _
    rw [hport]

end Peer

theorem Peers.encodePeers_eq {ps : Peers} (h : ∀ p ∈ ps, p.Short) :
    encodePeers env ps = .ok (Tree.itemsBytes (trees (ps.map Peer.value))) := by
  induction ps with
  | nil => rfl
  | cons p ps ih =>
    rw [encodePeers, Peer.encodeBytes_peer (h p mem_cons_self),
      ih fun q hq => h q (mem_cons_of_mem p hq)]
    rfl

theorem Peers.unmarshalDict_values {ps gs}
    (h : genericItems gs = some (ps.map Peer.value)) : unmarshalDictPeers gs = .ok ps := by
  induction ps generalizing gs with
  | nil => rw [genericItems_eq_nil h]; rfl
  | cons p ps ih =>
    obtain ⟨x, xs, rfl, hx, hxs⟩ := genericItems_eq_cons h
    rw [unmarshalDictPeers, Peer.extract_value hx, ih hxs]
    rfl

/-! ## What is decoded -/

theorem head_of_decode_list {b v}
    (h : DecodeBytes env b .iface .nilIface = .ok (.iface (.slice .iface) v)) :
    b.head? = some (ch 'l') := by
  obtain ⟨tree, s, -, hb, hs⟩ := decodeBytes_ok_iff.1 h
  cases tree with
  | int ds =>
    rw [store_iface_int] at hs
    obtain ⟨i, -, hi⟩ := except_map_eq_ok.1 hs
    cases hi
  | str len c =>
    rw [store_iface_str] at hs
    split_ifs at hs
    cases hs
  | list ts =>
    rw [hb]
    rfl
  | dict es =>
    rw [store_iface_dict] at hs
    obtain ⟨ws, -, hw⟩ := except_map_eq_ok.1 hs
    cases hw

theorem short_lookup {m : List (Bytes × GoVal)} (hm : ∀ e ∈ m, Bencode.Short e.2) {key s : Bytes}
    {t : GoType} (h : m.lookup key = some (.iface t (.str s))) : s.length < 2 ^ 31 := by
  obtain ⟨l1, l2, rfl, -⟩ := lookup_eq_some_iff.1 h
  have hs : Bencode.Short (.iface t (.str s)) := hm (key, _) (by simp)
  cases hs with
  | iface hv => exact length_strOf hv

theorem short_extract {g : GoVal} {p : Peer} (hg : Bencode.Short g)
    (h : Peers.extractPeerFromDict g = .ok p) : p.Short := by
  unfold Peers.extractPeerFromDict at h
  split at h
  · next m =>
    cases hg with
    | iface hm =>
      cases hm with
      | map hm =>
        split at h
        · next pid hpid =>
          split at h
          · next ip hip =>
            split at h
            · cases h
              exact ⟨short_lookup hm hpid, short_lookup hm hip⟩
            · cases h
          · cases h
        · cases h
  · cases h

namespace Peers

variable {ps : Peers}

theorem short_unmarshalDict {gs} (hgs : ∀ g ∈ gs, Bencode.Short g)
    (h : unmarshalDictPeers gs = .ok ps) : ∀ p ∈ ps, p.Short := by
  induction gs generalizing ps with
  | nil => cases h; simp
  | cons g gs ih =>
    obtain ⟨p, hp, h⟩ := except_bind_eq_ok.1 h
    obtain ⟨qs, hqs, h⟩ := except_bind_eq_ok.1 h
    cases h
    intro q hq
    rcases mem_cons.1 hq with rfl | hq
    · exact short_extract (hgs g mem_cons_self) hp
    · exact ih (fun x hx => hgs x (mem_cons_of_mem g hx)) hqs q hq

theorem unmarshalBencode_cases {b} (h : UnmarshalBencode env net b = .ok ps) :
    (∃ vs : Bytes, vs.length < 2 ^ 31 ∧ unmarshalCompactPeers net vs = .ok ps ∧
      DecodeBytes env.noMethods b .iface .nilIface = .ok (.iface .string (.str vs))) ∨
    (b.head? = some (ch 'l') ∧ ∀ p ∈ ps, p.Short) := by
  unfold UnmarshalBencode at h
  cases hd : DecodeBytes env.noMethods b .iface .nilIface with
  | error e => rw [hd] at h; cases h
  | ok w =>
    have hshort := decodeBytes_short shortEnv_noMethods .nilIface hd
    rw [hd] at h
    split at h
    · cases ‹Except.error _ = Except.ok _›
    · next vs heq =>
      cases heq
      cases hshort with
      | iface hv => exact .inl ⟨vs, length_strOf hv, h, rfl⟩
    · next vs heq =>
      cases heq
      cases hshort with
      | iface hv => exact .inr ⟨head_of_decode_list hd, short_unmarshalDict (short_elemsOf hv).1 h⟩
    · cases h

theorem unmarshalCompact_spec {vs} (h : unmarshalCompactPeers net vs = .ok ps) :
    (∀ p ∈ ps, p.ID = []) ∧ 6 * ps.length ≤ vs.length ∧
      (vs.length % 32 = 0 → vs.length = 32 * ps.length) := by
  unfold unmarshalCompactPeers at h
  split_ifs at h with h32 h6
  · have hlen := length_readEntries h
    refine ⟨readEntries_id (fun hp => by cases hp; rfl) h, by omega, fun _ => by omega⟩
  · have hlen := length_readEntries h
    refine ⟨readEntries_id readAddress_id h, by omega, fun h0 => by omega⟩

/-! ## Round trips -/

theorem validItems_values (h : ∀ p ∈ ps, p.Short) : ValidItems (ps.map Peer.value) := by
  induction ps with
  | nil => trivial
  | cons p ps ih =>
    exact ⟨Peer.valid_value (h p mem_cons_self), ih fun q hq => h q (mem_cons_of_mem p hq)⟩

theorem unmarshalBencode_values (h : ∀ p ∈ ps, p.Short) :
    UnmarshalBencode env net (list (ps.map Peer.value)).tree.bytes = .ok ps := by
  obtain ⟨w, hw, hg⟩ := decodeBytes_generic env.noMethods (v := .list (ps.map Peer.value))
    (validItems_values h)
  rw [UnmarshalBencode, hw]
  rcases generic_eq_list hg with ⟨rfl, hnil⟩ | ⟨es, sp, rfl, hes⟩
  · rw [map_eq_nil_iff.1 hnil]
    rfl
  · exact unmarshalDict_values hes

theorem dict_roundTrips_iff (hids : ∀ p ∈ ps, p.ID ≠ []) :
    RoundTrips env net ps ↔ ∀ p ∈ ps, p.Short := by
  have hdict : ¬ ∃ p ∈ ps, p.ID = [] := fun ⟨p, hp, hid⟩ => hids p hp hid
  constructor
  · rintro ⟨b, -, h⟩
    rcases unmarshalBencode_cases h with ⟨vs, -, hc, -⟩ | ⟨-, hs⟩
    · intro p hp
      exact absurd ((unmarshalCompact_spec hc).1 p hp) (hids p hp)
    · exact hs
  · intro hs
    refine ⟨_, ?_, unmarshalBencode_values hs⟩
    rw [MarshalBencode, if_neg hdict, encodePeers_eq hs]
    rfl

theorem marshalEntries_eq {n conv ps} (hn : n = 4 ∨ n = 16)
    (h : ∀ p ∈ ps, ∃ ip, Canonical n conv p ip) :
    marshalEntries env conv ps = .ok (str (ps.flatMap (entry conv))).tree.bytes := by
  rw [marshalEntries, writeEntries_canonical hn h]
  change Except.ok (encodeStr (valBytes (bytesVal _))) = _
  rw [valBytes_bytesVal]
  rfl

theorem compact_roundTrips_iff (hc : Compact4 ps) :
    RoundTrips env net ps ↔ 6 * ps.length < 2 ^ 31 ∧ (16 ∣ ps.length → ps = []) := by
  by_cases hps : ps = []
  · subst hps
    simp [dict_roundTrips_iff]
  have hcan := hc.canonical
  have hpos : 0 < ps.length := length_pos_of_ne_nil hps
  have hid : ∃ p ∈ ps, p.ID = [] := by
    obtain ⟨p, hp⟩ := exists_mem_of_ne_nil ps hps
    exact ⟨p, hp, (hc p hp).1⟩
  have hlen : (ps.flatMap (entry to4)).length = 6 * ps.length := length_flatMap_entry hcan
  have hmarshal : MarshalBencode env ps = .ok (str (ps.flatMap (entry to4))).tree.bytes := by
    rw [MarshalBencode, if_pos hid]
    exact marshalEntries_eq (.inl rfl) hcan
  have hdecode : 6 * ps.length < 2 ^ 31 → UnmarshalBencode env net
      (str (ps.flatMap (entry to4))).tree.bytes =
        unmarshalCompactPeers net (ps.flatMap (entry to4)) := by
    intro hshort
    obtain ⟨w, hw, hg⟩ := decodeBytes_generic env.noMethods (v := .str (ps.flatMap (entry to4)))
      (show _ < 2 ^ 31 by rwa [hlen])
    rw [UnmarshalBencode, hw, generic_eq_str hg]
  constructor
  · rintro ⟨b, hb, h⟩
    rw [hmarshal] at hb
    cases hb
    have hshort : 6 * ps.length < 2 ^ 31 := by
      rcases unmarshalBencode_cases h with ⟨vs, hvs, hcompact, -⟩ | ⟨hhead, -⟩
      · have := (unmarshalCompact_spec hcompact).2.1
        omega
      · -- the text of a string starts with a digit
        obtain ⟨c, l, hc, hd⟩ := formatUint_head (ps.flatMap (entry to4)).length
        rw [tree, Tree.bytes, hc] at hhead
        cases hhead
        exact absurd hd (by decide)
    refine ⟨hshort, fun h16 => ?_⟩
    rw [hdecode hshort] at h
    have h32 := (unmarshalCompact_spec h).2.2
    rw [hlen] at h32
    omega
  · rintro ⟨hshort, h16⟩
    refine ⟨_, hmarshal, ?_⟩
    have h32 : ¬ (6 * ps.length % 32 = 0 ∧ 6 * ps.length > 0) := by
      rintro ⟨h0, -⟩
      exact hps (h16 (by omega))
    rw [hdecode hshort, unmarshalCompactPeers, hlen, if_neg h32, if_pos (by omega),
      Nat.mul_div_cancel_left _ (by decide)]
    exact readEntries_canonical (.inl rfl) hcan

end Peers

theorem Peers6.compact_roundTrips_iff {ps : Peers6} (hc : Compact6 ps) :
    RoundTrips env net ps ↔ 18 * ps.length < 2 ^ 31 := by
  have hcan := hc.canonical
  have hlen : (ps.flatMap (entry to16)).length = 18 * ps.length := length_flatMap_entry hcan
  constructor
  · rintro ⟨b, -, h⟩
    unfold UnmarshalBencode at h
    cases hd : DecodeBytes env.noMethods b .string (.str []) with
    | error e => rw [hd] at h; cases h
    | ok s =>
      have hshort := length_strOf (decodeBytes_short shortEnv_noMethods (.str (by decide)) hd)
      rw [hd] at h
      dsimp only at h
      split_ifs at h with h18
      have := length_readEntries h
      omega
  · intro hshort
    refine ⟨_, Peers.marshalEntries_eq (.inr rfl) hcan, ?_⟩
    have hcodec : Codec env.noMethods .string _ _ _ :=
      codec_string (s := ps.flatMap (entry to16)) (by rwa [hlen])
    have hd : DecodeBytes env.noMethods _ .string (.str []) = .ok (.str (ps.flatMap (entry to16))) :=
      decodeBytes_ok_iff.2 ⟨_, [], hcodec.wf, (append_nil _).symm, hcodec.reads⟩
    rw [UnmarshalBencode, tree, hd]
    change (if (ps.flatMap (entry to16)).length % 18 ≠ 0 then _ else readEntries 18 _
      ((ps.flatMap (entry to16)).length / 18) (ps.flatMap (entry to16))) = _
    rw [hlen, if_neg (by omega), Nat.mul_div_cancel_left _ (by decide)]
    exact readEntries_canonical (.inr rfl) hcan

/-- **Which peer lists are read back.** -/
theorem roundTrips_iff_fits (env : Env) (net : Net) : (∀ ps : Peers, (∀ p ∈ ps, p.ID ≠ []) →
      (Peers.RoundTrips env net ps ↔ ∀ p ∈ ps, p.Short)) ∧
    (∀ ps : Peers, Compact4 ps →
      (Peers.RoundTrips env net ps ↔ 6 * ps.length < 2 ^ 31 ∧ (16 ∣ ps.length → ps = []))) ∧
    ∀ ps : Peers6, Compact6 ps → (Peers6.RoundTrips env net ps ↔ 18 * ps.length < 2 ^ 31) :=
  ⟨fun _ => Peers.dict_roundTrips_iff, fun _ => Peers.compact_roundTrips_iff,
    fun _ => Peers6.compact_roundTrips_iff⟩

open Metainfo.Address (sampleNet)

theorem roundTrips_iff_fits_sample :
    Peers.RoundTrips bareEnv sampleNet [⟨[97], utf8 "example.org", 80⟩, ⟨[98], [], 6881⟩] ∧
      Peers.RoundTrips bareEnv sampleNet
        [⟨[], utf8 "1.2.3.4", 80⟩, ⟨[], utf8 "10.0.0.7", 6881⟩] ∧
      Peers6.RoundTrips bareEnv sampleNet [⟨[], utf8 "::1", 80⟩, ⟨[], utf8 "::2", 6881⟩] := by
  obtain ⟨hdict, hcompact, hcompact6⟩ := roundTrips_iff_fits bareEnv sampleNet
  refine ⟨(hdict _ (by simp)).2 (by simp [Peer.Short]; decide +kernel), (hcompact _ ?_).2 (by simp),
    (hcompact6 _ ?_).2 (by simp)⟩
  · refine forall_mem_cons.2 ⟨⟨rfl, [1, 2, 3, 4], rfl, by decide +kernel⟩, ?_⟩
    exact forall_mem_singleton.2 ⟨rfl, [10, 0, 0, 7], rfl, by decide +kernel⟩
  · refine forall_mem_cons.2
      ⟨⟨rfl, replicate 15 0 ++ [1], rfl, by decide, by decide +kernel⟩, ?_⟩
    exact forall_mem_singleton.2
      ⟨rfl, replicate 15 0 ++ [2], rfl, by decide, by decide +kernel⟩

theorem sixteen_misread : Compact4 (replicate 16 ⟨[], utf8 "1.2.3.4", 80⟩) ∧
      ¬ Peers.RoundTrips bareEnv sampleNet (replicate 16 ⟨[], utf8 "1.2.3.4", 80⟩) := by
  have hc : Compact4 (replicate 16 ⟨[], utf8 "1.2.3.4", 80⟩) := by
    intro p hp
    cases eq_of_mem_replicate hp
    exact ⟨rfl, [1, 2, 3, 4], rfl, by decide +kernel⟩
  refine ⟨hc, fun h => ?_⟩
  have h16 := ((Peers.compact_roundTrips_iff hc).1 h).2 (by simp)
  cases h16

end GoI2pBt.Tracker.Http
