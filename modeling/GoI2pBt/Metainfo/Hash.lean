/-
  The 20-byte hashes.
-/
import GoI2pBt.Bencode.Codec
import GoI2pBt.Lib.Hex

namespace GoI2pBt.Metainfo

open Bencode List

def HashSize : ℕ := 20

/-- The `[HashSize]byte` of a hash. -/
@[ext]
structure Hash where
  bytes : Bytes
  length_eq : bytes.length = HashSize
deriving DecidableEq

def NewHashFromBytes (sha1 : Bytes → Hash) (b : Bytes) : Hash := sha1 b

namespace Hash

def ofBytes (b : Bytes) : Hash where
  bytes := (b ++ replicate HashSize 0).take HashSize
  length_eq := by simp

def zero : Hash := ofBytes []

def IsZero (h : Hash) : Bool := h = zero

@[simp] theorem ofBytes_bytes (h : Hash) : ofBytes h.bytes = h := by
  ext1
  change (h.bytes ++ replicate HashSize 0).take HashSize = h.bytes
  rw [← h.length_eq, take_left]

/-! ## Bencode form -/

def FromString (s : Bytes) : Except Error Hash :=
  if s.length = HashSize then .ok (ofBytes s)
  else if s.length = 2 * HashSize then
    match hexDecode s with
    | some b => .ok (ofBytes b)
    | none => .error (.method "encoding/hex: invalid byte: %#U")
  else if s.length = 32 then
    match base32Decode s with
    | some b => .ok (ofBytes b)
    | none => .error (.method "base32 decoded hash has wrong length: %d, expected %d")
  else .error (.method "hash string has bad length: %d")

def type : GoType := .named "Hash" (.array HashSize (.uint 8))

def toGo (h : Hash) : GoVal := .array (h.bytes.map fun x => .uint x.toNat)

def ofGo (v : GoVal) : Hash := ofBytes ((elemsOf v).1.map fun x => UInt8.ofNat (uintOf x))

@[simp] theorem ofGo_toGo (h : Hash) : ofGo h.toGo = h := by
  have hb : (h.bytes.map fun x => UInt8.ofNat (uintOf (.uint x.toNat))) = h.bytes := by
    simp [uintOf]
  rw [ofGo, toGo, elemsOf, map_map]
  exact (congrArg ofBytes hb).trans h.ofBytes_bytes

@[simp] theorem ofGo_optBack (opt : Bool) (h : Hash) :
    ofGo (optBack opt type h.toGo h.toGo) = h := by
  refine optBack_cases (P := fun w => ofGo w = h) (fun he => ?_) h.ofGo_toGo
  have hnil : h.bytes = [] := map_eq_nil_iff.1 (of_decide_eq_true he)
  have hlen := h.length_eq
  rw [hnil] at hlen
  cases hlen

variable (env : Env)

def MarshalBencode (h : Hash) : Except Error Bytes :=
  EncodeBytes env (.iface (.slice (.uint 8)) (bytesVal h.bytes))

def UnmarshalBencode (b : Bytes) : Except Error Hash :=
  match DecodeBytes env b .string (.str []) with
  | .error err => .error err
  | .ok s => FromString (strOf s)

def methods : Methods where
  marshalBencode := some (.value, fun v => (ofGo v).MarshalBencode env)
  unmarshalBencode := some fun _ b => (UnmarshalBencode env b).map toGo

variable {env}

theorem codec {env'} (h : env'.methods "Hash" = methods env) (a : Hash) :
    Codec env' type a.toGo (.str (formatUint a.bytes.length) a.bytes) a.toGo := by
  have hlen : a.bytes.length < 2 ^ 31 := by rw [a.length_eq]; decide
  have hbytes : Codec env (.slice (.uint 8)) _ _ _ := codec_bytes hlen
  have hstring : Codec env .string _ _ _ := codec_string hlen
  refine codec_marshaler (by rw [h]; rfl) (by rw [h]; rfl) rfl hbytes.wf hbytes.scan ?_ ?_
  · rw [ofGo_toGo]
    exact hbytes.writes false
  · have hdec : DecodeBytes env _ .string (.str []) = .ok _ :=
      decodeBytes_ok_iff.2 ⟨_, [], hstring.wf, (append_nil _).symm, hstring.reads⟩
    rw [UnmarshalBencode, hdec]
    change (FromString a.bytes).map toGo = _
    rw [FromString, if_pos a.length_eq, ofBytes_bytes]
    rfl

end Hash

end GoI2pBt.Metainfo
