/-
  Extended handshakes: when they are read back as sent.
-/
import GoI2pBt.PeerProtocol.Message
import GoI2pBt.PeerProtocol.Pex

namespace GoI2pBt.PeerProtocol

open Bencode List

def SendExtMsg (extID : UInt8) (payload : Bytes) : Message where
  keepalive := false
  type := MTypeExtended
  index := 0
  begin := 0
  length := 0
  piece := []
  bitField := []
  extendedID := extID
  extendedPayload := payload
  port := 0
  unknownTypePayload := []

namespace ExtendedHandshakeMsg

variable {env : ExtEnv} {nils : String → Bool} {ehm : ExtendedHandshakeMsg}

def toGo (nils : String → Bool) (ehm : ExtendedHandshakeMsg) : GoVal := .struct
  [mapVal (nils "M") (ehm.m.map fun p => (p.1, .uint p.2.toNat)), .str ehm.v,
   .int ehm.reqq.toInt, .uint ehm.port.toNat, bytesGo (nils "IPv6") ehm.ipv6,
   bytesGo (nils "IPv4") ehm.ipv4, bytesGo (nils "YourIP") ehm.yourIP,
   .int ehm.metadataSize.toInt]

def encoded (env : ExtEnv) (nils : String → Bool) (ehm : ExtendedHandshakeMsg) : Except Error Bytes :=
  EncodeBytes (extEnv env) (.iface type (ehm.toGo nils))

def Encode (env : ExtEnv) (nils : String → Bool) (written : Bytes) (ehm : ExtendedHandshakeMsg) :
    Bytes × Option Error :=
  match ehm.encoded env nils with
  | .error err => (written, some err)
  | .ok _ => ([], none)

def SendExtHandshakeMsg (env : ExtEnv) (nils : String → Bool) (ehm : ExtendedHandshakeMsg) :
    Except Error Message := do
  let payload ← ehm.encoded env nils
  return SendExtMsg ExtendedIDHandshake payload

/-! ## What is sent is read back -/

structure Fits (ehm : ExtendedHandshakeMsg) : Prop where
  m : KeysLt ehm.m
  names : ∀ p ∈ ehm.m, p.1.length < 2 ^ 31
  v : ehm.v.length < 2 ^ 31
  ipv6 : ehm.ipv6.length < 2 ^ 31
  ipv4 : ehm.ipv4 = [] ∨ CompactIP.Valid ehm.ipv4
  yourIP : ehm.yourIP = [] ∨ CompactIP.Valid ehm.yourIP

theorem codec_m (isNil : Bool) (h : ehm.Fits) : Codec (extEnv env) (.map (.uint 8))
      (mapVal isNil (ehm.m.map fun p => (p.1, .uint p.2.toNat)))
      (.dict (ehm.m.map fun p => entryOf (p.1, .int (formatUint p.2.toNat))))
      (.map (ehm.m.map fun p => (p.1, .uint p.2.toNat))) :=
  codec_mapVal (t := .map (.uint 8)) (fun b : UInt8 => .uint b.toNat) (fun b => .uint b.toNat)
    (fun b => .int (formatUint b.toNat)) rfl trivial isNil h.m h.names (fun _ _ => rfl)
    fun p _ => codec_uint (by decide) p.2.toNat_lt

theorem codec_ip (hkeys : env.KeepsHashes) {ci : Bytes} (isNil : Bool)
    (h : ci = [] ∨ CompactIP.Valid ci)
    (hne : ¬ (true = true ∧ isEmptyValue (bytesGo isNil ci) = true)) :
    Codec (extEnv env) CompactIP.type (bytesGo isNil ci) (.str (formatUint ci.length) ci)
      (bytesVal ci) := by
  have hci : ci ≠ [] := by
    rintro rfl
    exact hne ⟨rfl, isEmptyValue_sliceVal.2 rfl⟩
  rw [bytesGo, sliceVal_of_ne isNil fun hnil => hci (map_eq_nil_iff.1 hnil)]
  exact CompactIP.codec hkeys (h.resolve_left hci)

theorem tagIs_v : tagIs "v,omitempty" "v".toList true := by decide +kernel

def rows (hkeys : env.KeepsHashes) (nils : String → Bool) (h : ehm.Fits) : List (Row (extEnv env)) :=
  [Row.tagged "M" "m" "m".toList false (fun _ => codec_m (nils "M") h) (isNilValue_mapVal _ _),
   Row.tagged "V" "v,omitempty" "v".toList true (fun _ => codec_string h.v) rfl tagIs_v,
   Row.tagged "Reqq" "reqq,omitempty" "reqq".toList true fun _ => codec_int64 ehm.reqq,
   Row.tagged "Port" "p,omitempty" "p".toList true
     fun _ => codec_uint (by decide) ehm.port.toNat_lt,
   Row.tagged "IPv6" "ipv6,omitempty" "ipv6".toList true (codec_bytesGo (nils "IPv6") h.ipv6)
     (isNilValue_sliceVal _ _),
   Row.tagged "IPv4" "ipv4,omitempty" "ipv4".toList true (codec_ip hkeys (nils "IPv4") h.ipv4)
     (isNilValue_sliceVal _ _),
   Row.tagged "YourIP" "yourip,omitempty" "yourip".toList true
     (codec_ip hkeys (nils "YourIP") h.yourIP) (isNilValue_sliceVal _ _),
   Row.tagged "MetadataSize" "metadata_size,omitempty" "metadata_size".toList true
     fun _ => codec_int64 ehm.metadataSize]

theorem valBytes_optBack_ip (isNil : Bool) (ci : Bytes) :
    valBytes (optBack true CompactIP.type (bytesGo isNil ci) (bytesVal ci)) = ci := by
  refine optBack_cases (P := fun w => valBytes w = ci) (fun h => ?_) (valBytes_bytesVal ci)
  rw [map_eq_nil_iff.1 (isEmptyValue_sliceVal.1 h)]
  rfl

/-- **Extended handshakes.** The handshake that is sent is the one the other side decodes. -/
theorem decode_sent {env : ExtEnv} (hkeys : env.KeepsHashes) (nils : String → Bool) (h : ehm.Fits) :
    ∃ msg, ehm.SendExtHandshakeMsg env nils = .ok msg ∧
      Decode env msg.extendedPayload = .ok ehm := by
  have henv : (extEnv env).methods "ExtendedHandshakeMsg" = {} := rfl
  have hnodup : ((rows hkeys nils h).map Row.key).Nodup := (keyed (extEnv env)).nodup
  obtain ⟨x, hx⟩ := codec_struct henv hnodup
  have henc : ehm.encoded env nils = .ok x.bytes := hx.writes false
  have hdec : DecodeBytes (extEnv env) x.bytes type (zero type) =
      .ok (.struct ((rows hkeys nils h).map Row.back)) :=
    decodeBytes_ok_iff.2 ⟨x, [], hx.wf, (append_nil _).symm, hx.reads⟩
  refine ⟨_, by rw [SendExtHandshakeMsg, henc]; rfl, ?_⟩
  rw [SendExtMsg, Decode, hdec]
  refine congrArg Except.ok (ExtendedHandshakeMsg.ext ?_ ?_ ?_ ?_ ?_ ?_ ?_ ?_)
  · change (ehm.m.map fun p => (p.1, GoVal.uint p.2.toNat)).map
      (fun p => (p.1, UInt8.ofNat (uintOf p.2))) = ehm.m
    rw [map_map]
    refine (map_congr_left fun p _ => ?_).trans ehm.m.map_id
    exact Prod.ext rfl UInt8.ofNat_toNat
  · exact strOf_optBack true _
  · exact int64_optBack _
  · exact (congrArg UInt16.ofNat (uintOf_optBack true 16 _)).trans UInt16.ofNat_toNat
  · exact valBytes_optBack true _ _
  · exact valBytes_optBack_ip _ _
  · exact valBytes_optBack_ip _ _
  · exact int64_optBack _

/-! ## What `Encode` gives -/

theorem encoded_ne_nil {b} (h : ehm.encoded env nils = .ok b) : b ≠ [] := by
  change writeDict (extEnv env) _ = .ok b at h
  rw [writeDict, except_bind_eq_ok] at h
  obtain ⟨body, -, hb⟩ := h
  cases hb
  exact cons_ne_nil _ _

def EncodesAsSent (env : ExtEnv) (nils : String → Bool) (written : Bytes)
    (ehm : ExtendedHandshakeMsg) : Prop :=
  ∃ msg, ehm.SendExtHandshakeMsg env nils = .ok msg ∧
    ehm.Encode env nils written = (msg.extendedPayload, none) ∧
    Decode env msg.extendedPayload = .ok ehm

/-- **`Encode` never gives what is sent.** -/
theorem not_encodesAsSent (env : ExtEnv) (nils : String → Bool) (written : Bytes)
    (ehm : ExtendedHandshakeMsg) : ¬ ehm.EncodesAsSent env nils written := by
  rintro ⟨msg, hsent, henc, -⟩
  rw [SendExtHandshakeMsg, except_bind_eq_ok] at hsent
  obtain ⟨payload, hpayload, hmsg⟩ := hsent
  cases hmsg
  rw [Encode, hpayload] at henc
  exact encoded_ne_nil hpayload (Prod.mk.inj henc).1.symm

def emptyMsg : ExtendedHandshakeMsg := ⟨[], [], 0, 0, [], [], [], 0⟩

def sampleHandshake : ExtendedHandshakeMsg :=
  ⟨[(utf8 "ut_metadata", 1), (utf8 "ut_pex", 2)], utf8 "go", 250, 6881, replicate 16 1, [10, 0, 0, 1],
    replicate 32 7, 31235⟩

theorem fits_sampleHandshake : sampleHandshake.Fits := by
  refine ⟨?_, ?_, ?_, ?_, .inr ?_, .inr ?_⟩
  · exact pairwise_pair.2 (by decide +kernel)
  all_goals decide +kernel

theorem decode_sent_sample : ∃ msg,
    sampleHandshake.SendExtHandshakeMsg sampleExtEnv (fun _ => true) = .ok msg ∧
      Decode sampleExtEnv msg.extendedPayload = .ok sampleHandshake :=
  decode_sent keepsHashes_sampleExtEnv _ fits_sampleHandshake

theorem emptyMsg_lost : emptyMsg.SendExtHandshakeMsg sampleExtEnv (fun _ => true) =
      .ok (SendExtMsg ExtendedIDHandshake (utf8 "d1:mdee")) ∧
    emptyMsg.Encode sampleExtEnv (fun _ => true) [] = ([], none) ∧
    ¬ emptyMsg.EncodesAsSent sampleExtEnv (fun _ => true) [] := by
  have henc : emptyMsg.encoded sampleExtEnv (fun _ => true) = .ok (utf8 "d1:mdee") :=
    except_eq_ok (by decide +kernel)
  have hsent : emptyMsg.SendExtHandshakeMsg sampleExtEnv (fun _ => true) =
      .ok (SendExtMsg ExtendedIDHandshake (utf8 "d1:mdee")) := by
    rw [SendExtHandshakeMsg, henc]
    rfl
  have hnone : emptyMsg.Encode sampleExtEnv (fun _ => true) [] = ([], none) := by
    rw [Encode, henc]
  refine ⟨hsent, hnone, ?_⟩
  rintro ⟨msg, hmsg, heq, -⟩
  rw [hsent] at hmsg
  cases hmsg
  rw [hnone] at heq
  exact absurd (Prod.mk.inj heq).1 (by decide)

end ExtendedHandshakeMsg

end GoI2pBt.PeerProtocol
