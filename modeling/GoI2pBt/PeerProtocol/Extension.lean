/-
  The messages of the extension protocol.
-/
import GoI2pBt.Bencode.Codec
import GoI2pBt.Bencode.Total
import GoI2pBt.Lib.Netip

namespace GoI2pBt.PeerProtocol

open Bencode List

def ExtendedIDHandshake : UInt8 := 0

def ExtendedMessageNameMetadata : Bytes := utf8 "ut_metadata"

def UtMetadataExtendedMsgTypeRequest : UInt8 := 0
def UtMetadataExtendedMsgTypeData : UInt8 := 1

/-- What the messages take from other packages: the environment of `bencode`, and
`i2pkeys.DestHashFromBytes` with the hash and the error it returns. -/
structure ExtEnv extends Env where
  DestHashFromBytes : Bytes → Bytes × Option String

/-- The hash that 32 bytes stand for has these bytes. -/
def ExtEnv.KeepsHashes (env : ExtEnv) : Prop :=
  ∀ b : Bytes, b.length = 32 → env.DestHashFromBytes b = (b, none)

def sampleExtEnv : ExtEnv := { bareEnv with DestHashFromBytes b := ((b ++ replicate 32 0).take 32, none) }

theorem keepsHashes_sampleExtEnv : sampleExtEnv.KeepsHashes := by
  intro b hb
  simp [sampleExtEnv, ← hb]

/-! ## IP addresses -/

namespace CompactIP

def MarshalBencode (env : ExtEnv) (ci : Bytes) : Except Error Bytes :=
  if ci.length = 4 then EncodeBytes env.toEnv (.iface (.slice (.uint 8)) (bytesVal ci))
  else if ci.length = 16 then EncodeBytes env.toEnv (.iface (.slice (.uint 8)) (bytesVal ci))
  else if ci.length = 32 then
    match env.DestHashFromBytes ci with
    | (_, some err) => .error (.method err)
    | (i2p, none) => EncodeBytes env.toEnv (.iface (.slice (.uint 8)) (bytesVal i2p))
  else .error (.method "invalid ipv4 or ipv6")

def UnmarshalBencode (env : ExtEnv) (b : Bytes) : Except Error Bytes :=
  let last := fun n => b.drop (b.length - n)
  if 4 ≤ b.length ∧ b.length < 16 then .ok (if to4 (last 4) ≠ [] then to4 (last 4) else last 4)
  else if 16 ≤ b.length ∧ b.length < 32 then
    .ok (if to16 (last 16) ≠ [] then to16 (last 16) else last 16)
  else if 32 ≤ b.length then .ok (env.DestHashFromBytes (last 32)).1
  else .error (.method "invalid ipv4 or ipv6")

def type : GoType := .named "CompactIP" (.slice (.uint 8))

def methods (env : ExtEnv) : Methods where
  marshalBencode := some (.value, fun v => MarshalBencode env (valBytes v))
  unmarshalBencode := some fun _ b => (UnmarshalBencode env b).map bytesVal

end CompactIP

def extEnv (env : ExtEnv) : Env := env.toEnv.withMethods fun
  | "CompactIP" => CompactIP.methods env
  | _ => {}

theorem unmarshals_compactIP (env : ExtEnv) : Unmarshals (extEnv env) "CompactIP" := by
  refine ⟨_, rfl, fun old b e he => ?_⟩
  unfold CompactIP.UnmarshalBencode at he
  dsimp only at he
  split_ifs at he
  all_goals
    cases he
  trivial

theorem dest_zero_struct {env name} {fs : List (Field × GoType)}
    (hn : env.methods name = {}) (hflat : Flat env (.named name (.struct fs)) fs)
    (h : ∀ p ∈ fs, p.2.isIface = false ∧ Dest env p.2 (zero p.2)) :
    Dest env (.named name (.struct fs)) (zero (.named name (.struct fs))) := by
  refine .struct hn hflat (fun p hp => (h p hp).1) fun i f u v hf hv => ?_
  rw [zeroFields_eq, getElem?_map, hf] at hv
  cases hv
  exact (h _ (mem_of_getElem? hf)).2

/-! ## The extended handshake -/

@[ext]
structure ExtendedHandshakeMsg where
  m : List (Bytes × UInt8)
  v : Bytes
  reqq : Int64
  port : UInt16
  ipv6 : Bytes
  ipv4 : Bytes
  yourIP : Bytes
  metadataSize : Int64
deriving DecidableEq

namespace ExtendedHandshakeMsg

def fields : List (Field × GoType) := [(tagged "M" "m", .map (.uint 8)),
   (tagged "V" "v,omitempty", .string),
   (tagged "Reqq" "reqq,omitempty", .int 64),
   (tagged "Port" "p,omitempty", .uint 16),
   (tagged "IPv6" "ipv6,omitempty", .slice (.uint 8)),
   (tagged "IPv4" "ipv4,omitempty", CompactIP.type),
   (tagged "YourIP" "yourip,omitempty", CompactIP.type),
   (tagged "MetadataSize" "metadata_size,omitempty", .int 64)]

def type : GoType := .named "ExtendedHandshakeMsg" (.struct fields)

def ofGo (v : GoVal) : ExtendedHandshakeMsg where
  m := (entriesOf (fieldOf v 0)).map fun p => (p.1, .ofNat (uintOf p.2))
  v := strOf (fieldOf v 1)
  reqq := .ofInt (intOf (fieldOf v 2))
  port := .ofNat (uintOf (fieldOf v 3))
  ipv6 := valBytes (fieldOf v 4)
  ipv4 := valBytes (fieldOf v 5)
  yourIP := valBytes (fieldOf v 6)
  metadataSize := .ofInt (intOf (fieldOf v 7))

def id (ehm : ExtendedHandshakeMsg) (name : Bytes) : UInt8 := (ehm.m.lookup name).getD 0

def Decode (env : ExtEnv) (b : Bytes) : Except Error ExtendedHandshakeMsg :=
  (DecodeBytes (extEnv env) b type (zero type)).map ofGo

theorem keyed (env : Env) : Keyed env fields ["m".toList, "v".toList, "reqq".toList, "p".toList,
    "ipv6".toList, "ipv4".toList, "yourip".toList, "metadata_size".toList] :=
  keyed_of_fieldKeys (by decide +kernel) (by decide +kernel)

theorem dest_zero (env : ExtEnv) : Dest (extEnv env) type (zero type) := by
  have hip : Dest (extEnv env) CompactIP.type (zero CompactIP.type) :=
    .method (unmarshals_compactIP env)
  have hint : ∀ bits, Dest (extEnv env) (.int bits) (zero (.int bits)) :=
    fun _ => .base trivial rfl rfl
  have huint : ∀ bits, Dest (extEnv env) (.uint bits) (zero (.uint bits)) :=
    fun _ => .base trivial rfl rfl
  refine dest_zero_struct rfl (keyed _).flat (forall_iff_forall_mem.1 ?_)
  exact ⟨⟨rfl, .nilMap trivial rfl (huint 8)⟩, ⟨rfl, .base trivial rfl rfl⟩, ⟨rfl, hint 64⟩,
    ⟨rfl, huint 16⟩, ⟨rfl, .nilSlice trivial rfl rfl (huint 8)⟩, ⟨rfl, hip⟩, ⟨rfl, hip⟩,
    rfl, hint 64⟩

theorem decode_returned {env b e} (h : Decode env b = .error e) : e.Returned := by
  unfold Decode DecodeBytes at h
  cases hd : Bencode.Decode (extEnv env) type (zero type) (NewDecoder b) with
  | ok v d =>
    rw [hd] at h
    cases h
  | error e' d =>
    rw [hd] at h
    cases h
    exact (decode_ends (dest_zero env) rfl).of_error hd

end ExtendedHandshakeMsg

/-! ## Metadata messages -/

@[ext]
structure UtMetadataExtendedMsg where
  msgType : UInt8
  piece : Int64
  totalSize : Int64
  data : Bytes
deriving DecidableEq

namespace UtMetadataExtendedMsg

def fields : List (Field × GoType) := [(tagged "MsgType" "msg_type", .uint 8),
   (tagged "Piece" "piece", .int 64),
   (tagged "TotalSize" "total_size,omitempty", .int 64),
   (tagged "Data" "-", .slice (.uint 8))]

def type : GoType := .named "UtMetadataExtendedMsg" (.struct fields)

def toGo (um : UtMetadataExtendedMsg) : GoVal := .struct
  [.uint um.msgType.toNat, .int um.piece.toInt, .int um.totalSize.toInt, bytesGo true um.data]

def ofGo (v : GoVal) : UtMetadataExtendedMsg where
  msgType := .ofNat (uintOf (fieldOf v 0))
  piece := .ofInt (intOf (fieldOf v 1))
  totalSize := .ofInt (intOf (fieldOf v 2))
  data := valBytes (fieldOf v 3)

def cleared (um : UtMetadataExtendedMsg) : UtMetadataExtendedMsg :=
  if um.msgType ≠ UtMetadataExtendedMsgTypeData then { um with totalSize := 0, data := [] } else um

def EncodeToPayload (env : ExtEnv) (um : UtMetadataExtendedMsg) (buf : Bytes) :
    Except Error Bytes := do
  let b ← EncodeBytes (extEnv env) (.iface type um.cleared.toGo)
  return buf ++ (b ++ um.cleared.data)

def EncodeToBytes (env : ExtEnv) (um : UtMetadataExtendedMsg) : Except Error Bytes := do
  let b ← EncodeBytes (extEnv env) (.iface type um.cleared.toGo)
  return b ++ um.cleared.data

def DecodeFromPayload (env : ExtEnv) (b : Bytes) : Except Error UtMetadataExtendedMsg :=
  match Bencode.Decode (extEnv env) (.ptr type) (.ptr (zero type)) (NewDecoder b) with
  | .error e _ => .error e
  | .ok (.ptr v) d =>
    -- the slice `b[n:]`
    if d.n ≤ b.length then .ok { ofGo v with data := b.drop d.n } else .error .panic
  | .ok _ _ => .error .panic

variable {env : ExtEnv}

theorem keyed (env : Env) : Keyed env fields ["msg_type".toList, "piece".toList,
    "total_size".toList, "-".toList] :=
  keyed_of_fieldKeys (by decide +kernel) (by decide +kernel)

theorem dest_zero (env : ExtEnv) : Dest (extEnv env) type (zero type) := by
  refine dest_zero_struct rfl (keyed _).flat (forall_iff_forall_mem.1 ?_)
  exact ⟨⟨rfl, .base trivial rfl rfl⟩, ⟨rfl, .base trivial rfl rfl⟩, ⟨rfl, .base trivial rfl rfl⟩,
    rfl, .nilSlice trivial rfl rfl (.base trivial rfl rfl)⟩

theorem decodeFromPayload_ok_iff {b um} :
    DecodeFromPayload env b = .ok um ↔ ∃ tree s v, tree.WF ∧ b = tree.bytes ++ s ∧
      store (extEnv env) type (zero type) true tree = .ok v ∧ um = { ofGo v with data := s } := by
  have hptr : Bencode.Decode (extEnv env) (.ptr type) (.ptr (zero type)) (NewDecoder b) = _ :=
    decode_ptr rfl type (zero type)
  unfold DecodeFromPayload
  cases hd : Bencode.Decode (extEnv env) type (zero type) (NewDecoder b) with
  | error e d =>
    rw [hptr, bind_of_error hd]
    refine iff_of_false (fun h => nomatch h) ?_
    rintro ⟨tree, s, v, hw, hb, hs, -⟩
    obtain ⟨d', hok⟩ := (decode_ok_iff (fresh_newDecoder b)).2 ⟨tree, s, hw, hb, hs⟩
    rw [hd] at hok
    cases hok
  | ok v d =>
    obtain ⟨tree, hw, hreads, hstore⟩ := decode_reads (fresh_newDecoder b) hd
    have hb : b = tree.bytes ++ d.r := hreads.r
    have hn : d.n = tree.bytes.length := by rw [hreads.n]; exact zero_add _
    rw [hptr, bind_of_ok hd]
    change (if d.n ≤ b.length then Except.ok { ofGo v with data := b.drop d.n }
      else .error Error.panic) = .ok um ↔ _
    rw [if_pos (by rw [hn, hb, length_append]; omega), hn]
    constructor
    · intro h
      cases h
      exact ⟨tree, d.r, v, hw, hb, hstore, by rw [hb, drop_left]⟩
    · rintro ⟨tree', s, v', hw', hb', hs', rfl⟩
      obtain ⟨rfl, rfl⟩ := Tree.bytes_inj hw hw' (hb.symm.trans hb')
      rw [hstore] at hs'
      cases hs'
      rw [hb, drop_left]

theorem decodeFromPayload_append {b um} (h : DecodeFromPayload env b = .ok um) (data : Bytes) :
    DecodeFromPayload env (b ++ data) = .ok { um with data := um.data ++ data } := by
  obtain ⟨tree, s, v, hw, hb, hs, rfl⟩ := decodeFromPayload_ok_iff.1 h
  exact decodeFromPayload_ok_iff.2
    ⟨tree, s ++ data, v, hw, by rw [hb, append_assoc], hs, rfl⟩

theorem decodeFromPayload_returned {b e} (h : DecodeFromPayload env b = .error e) : e.Returned := by
  cases hd : Bencode.Decode (extEnv env) type (zero type) (NewDecoder b) with
  | error e' d =>
    unfold DecodeFromPayload at h
    rw [decode_ptr rfl, bind_of_error hd] at h
    cases h
    exact (decode_ends (dest_zero env) rfl).of_error hd
  | ok v d =>
    obtain ⟨tree, hw, hreads, hstore⟩ := decode_reads (fresh_newDecoder b) hd
    have hok : DecodeFromPayload env b = .ok { ofGo v with data := d.r } :=
      decodeFromPayload_ok_iff.2 ⟨tree, d.r, v, hw, hreads.r, hstore, rfl⟩
    rw [hok] at h
    cases h

def rows (env : ExtEnv) (um : UtMetadataExtendedMsg) : List (Row (extEnv env)) :=
  [Row.tagged "MsgType" "msg_type" "msg_type".toList false
     fun _ => codec_uint (by decide) um.msgType.toNat_lt,
   Row.tagged "Piece" "piece" "piece".toList false fun _ => codec_int64 um.piece,
   Row.tagged "TotalSize" "total_size,omitempty" "total_size".toList true
     fun _ => codec_int64 um.totalSize,
   Row.dash "Data" (.slice (.uint 8)) (bytesGo true um.data)]

theorem decode_encode (env : ExtEnv) (um : UtMetadataExtendedMsg) :
    ∃ b, EncodeToBytes env um = .ok b ∧ DecodeFromPayload env b = .ok um.cleared := by
  have hnodup : ((rows env um.cleared).map Row.key).Nodup := (keyed (extEnv env)).nodup
  have henv : (extEnv env).methods "UtMetadataExtendedMsg" = {} := rfl
  obtain ⟨x, hx⟩ := codec_struct henv hnodup
  have henc : EncodeBytes (extEnv env) (.iface type um.cleared.toGo) = .ok x.bytes :=
    hx.writes false
  refine ⟨x.bytes ++ um.cleared.data, ?_, ?_⟩
  · rw [EncodeToBytes, henc]
    rfl
  · refine decodeFromPayload_ok_iff.2 ⟨x, um.cleared.data, _, hx.wf, rfl, hx.reads, ?_⟩
    refine UtMetadataExtendedMsg.ext ?_ ?_ ?_ rfl
    · exact UInt8.ofNat_toNat.symm
    · exact (Int64.ofInt_toInt _).symm
    · exact (int64_optBack _).symm

theorem encodeToPayload_eq (env : ExtEnv) (um : UtMetadataExtendedMsg) (buf : Bytes) :
    EncodeToPayload env um buf = (EncodeToBytes env um).map (buf ++ ·) := by
  rw [EncodeToPayload, EncodeToBytes]
  cases EncodeBytes (extEnv env) (.iface type um.cleared.toGo) <;> rfl

/-- **Metadata messages are read back.** -/
theorem decodeFromPayload_encodeToPayload (env : ExtEnv) (um : UtMetadataExtendedMsg) (buf : Bytes) :
    ∃ b, EncodeToPayload env um buf = .ok (buf ++ b) ∧
      (um.msgType = UtMetadataExtendedMsgTypeData → DecodeFromPayload env b = .ok um) ∧
      (um.msgType ≠ UtMetadataExtendedMsgTypeData →
        DecodeFromPayload env b = .ok { um with totalSize := 0, data := [] }) := by
  obtain ⟨b, henc, hdec⟩ := decode_encode env um
  refine ⟨b, by rw [encodeToPayload_eq, henc]; rfl, ?_, ?_⟩
  · intro hdata
    rwa [cleared, if_neg (not_not.2 hdata)] at hdec
  · intro hdata
    rwa [cleared, if_pos hdata] at hdec

end UtMetadataExtendedMsg

end GoI2pBt.PeerProtocol
