/-
  The messages of the DHT.
-/
import GoI2pBt.Krpc.Node

namespace GoI2pBt.Krpc

open Bencode Metainfo

/-! ## Error codes -/

def ErrorCodeServer : Int64 := 202
def ErrorCodeMethodUnknown : Int64 := 204
def ErrorCodeMessageValueFieldTooBig : Int64 := 205
def ErrorCodeInvalidSignature : Int64 := 206
def ErrorCodeSaltFieldTooBig : Int64 := 207
def ErrorCodeCasHashMismatched : Int64 := 301
def ErrorCodeSequenceNumberLessThanCurrent : Int64 := 302

/-! ## Messages -/

structure Error where
  code : Int64
  reason : Bytes
deriving DecidableEq

abbrev Want := Bytes

def WantNodes : Want := utf8 "n4"
def WantNodes6 : Want := utf8 "n6"

@[ext]
structure QueryArg where
  id : Hash := .zero
  target : Hash := .zero
  infoHash : Hash := .zero
  port : UInt16 := 0
  token : Bytes := []
  impliedPort : Bool := false
  wants : List Want := []
  v : Bytes := []
  k : Bytes := []
  sig : Bytes := []
  seq : Int64 := 0
  salt : Bytes := []
  cas : Int64 := 0
deriving DecidableEq

def QueryArg.ContainsWant (a : QueryArg) (w : Want) : Bool := w ∈ a.wants

@[ext]
structure ResponseResult where
  id : Hash := .zero
  nodes : List Node := []
  nodes6 : List Node := []
  token : Bytes := []
  values : List Address := []
  samples : List Hash := []
  num : Int64 := 0
  interval : Int64 := 0
  v : Bytes := []
  k : Bytes := []
  sig : Bytes := []
  seq : Int64 := 0
deriving DecidableEq

@[ext]
structure Message where
  t : Bytes := []
  y : Bytes := []
  q : Bytes := []
  a : QueryArg := {}
  r : ResponseResult := {}
  e : Error := ⟨0, []⟩
  ro : Bool := false
deriving DecidableEq

def NewQueryMsg (tid method : Bytes) (arg : QueryArg) : Message :=
  { t := tid, y := utf8 "q", q := method, a := arg }

def NewResponseMsg (tid : Bytes) (data : ResponseResult) : Message :=
  { t := tid, y := utf8 "r", r := data }

def NewErrorMsg (tid : Bytes) (code : Int64) (reason : Bytes) : Message :=
  { t := tid, y := utf8 "e", e := ⟨code, reason⟩ }

namespace Message

def IsQuery (m : Message) : Bool := m.y = utf8 "q"
def IsResponse (m : Message) : Bool := m.y = utf8 "r"
def IsError (m : Message) : Bool := m.y = utf8 "e"

end Message

/-! ## Go values -/

variable (env : Env) (net : Net) (nils : String → Bool)

namespace Error

def type : GoType := .named "Error"
  (.struct [(⟨"Code", [], false, true⟩, .int 64), (⟨"Reason", [], false, true⟩, .string)])

def toGo (e : Error) : GoVal := .struct [.int e.code.toInt, .str e.reason]

def ofGo (v : GoVal) : Error := ⟨.ofInt (intOf (fieldOf v 0)), strOf (fieldOf v 1)⟩

@[simp] theorem ofGo_toGo (e : Error) : ofGo e.toGo = e :=
  congrArg (Error.mk · e.reason) (Int64.ofInt_toInt e.code)

def decode (vs : List GoVal) : Except Bencode.Error Error :=
  match vs with
  | .iface (.int 64) (.int code) :: .iface .string (.str reason) :: _ => .ok ⟨.ofInt code, reason⟩
  | _ => .error (.method "panic: %v")

def UnmarshalBencode (e : Error) (b : Bytes) : Except Bencode.Error Error :=
  match DecodeBytes env b .iface .nilIface with
  | .error err => .error err
  | .ok (.iface (.slice .iface) v) => decode (elemsOf v).1
  | .ok (.iface .string (.str v)) => .ok { e with reason := v }
  | .ok _ => .error (.method "KRPC error bencode value has unexpected type: %T")

def MarshalBencode (e : Error) : Except Bencode.Error Bytes :=
  if e.code = 0 ∧ e.reason = [] then .ok []
  else
    EncodeBytes env (.iface (.slice .iface)
      (.slice [.iface (.int 64) (.int e.code.toInt), .iface .string (.str e.reason)] []))

def methods : Methods where
  marshalBencode := some (.value, fun v => (ofGo v).MarshalBencode env)
  unmarshalBencode := some fun old b => ((ofGo old).UnmarshalBencode env b).map toGo

end Error

def krpcEnv : Env := env.withMethods fun
  | "Hash" => Hash.methods env.noMethods
  | "Address" => Address.methods env.noMethods net
  | "CompactIPv4Node" => CompactIPv4Node.methods env.noMethods net
  | "CompactIPv6Node" => CompactIPv6Node.methods env.noMethods net
  | "Error" => Error.methods env.noMethods
  | _ => {}

namespace QueryArg

def fields : List (Field × GoType) := [(tagged "ID" "id", Hash.type),
   (tagged "Target" "target,omitempty", Hash.type),
   (tagged "InfoHash" "info_hash,omitempty", Hash.type),
   (tagged "Port" "port,omitempty", .uint 16),
   (tagged "Token" "token,omitempty", .string),
   (tagged "ImpliedPort" "implied_port,omitempty", .bool),
   (tagged "Wants" "want,omitempty", .slice (.named "Want" .string)),
   (tagged "V" "v,omitempty", .slice (.uint 8)),
   (tagged "K" "k,omitempty", .slice (.uint 8)),
   (tagged "Sig" "sig,omitempty", .slice (.uint 8)),
   (tagged "Seq" "seq,omitempty", .int 64),
   (tagged "Salt" "salt,omitempty", .slice (.uint 8)),
   (tagged "CAS" "cas,omitempty", .int 64)]

def type : GoType := .named "QueryArg" (.struct fields)

def toGo (a : QueryArg) : GoVal := .struct
  [a.id.toGo, a.target.toGo, a.infoHash.toGo, .uint a.port.toNat, .str a.token,
   .bool a.impliedPort, sliceVal (nils "A.Wants") (a.wants.map .str), bytesGo (nils "A.V") a.v,
   bytesGo (nils "A.K") a.k, bytesGo (nils "A.Sig") a.sig, .int a.seq.toInt,
   bytesGo (nils "A.Salt") a.salt, .int a.cas.toInt]

def ofGo (v : GoVal) : QueryArg where
  id := .ofGo (fieldOf v 0)
  target := .ofGo (fieldOf v 1)
  infoHash := .ofGo (fieldOf v 2)
  port := .ofNat (uintOf (fieldOf v 3))
  token := strOf (fieldOf v 4)
  impliedPort := boolOf (fieldOf v 5)
  wants := (elemsOf (fieldOf v 6)).1.map strOf
  v := valBytes (fieldOf v 7)
  k := valBytes (fieldOf v 8)
  sig := valBytes (fieldOf v 9)
  seq := .ofInt (intOf (fieldOf v 10))
  salt := valBytes (fieldOf v 11)
  cas := .ofInt (intOf (fieldOf v 12))

end QueryArg

namespace ResponseResult

def fields : List (Field × GoType) := [(tagged "ID" "id", Hash.type),
   (tagged "Nodes" "nodes,omitempty", CompactIPv4Node.type),
   (tagged "Nodes6" "nodes6,omitempty", CompactIPv6Node.type),
   (tagged "Token" "token,omitempty", .string),
   (tagged "Values" "values,omitempty", .named "CompactAddresses" (.slice Address.type)),
   (tagged "Samples" "samples,omitempty", .slice Hash.type),
   (tagged "Num" "num,omitempty", .int 64),
   (tagged "Interval" "interval,omitempty", .int 64),
   (tagged "V" "v,omitempty", .slice (.uint 8)),
   (tagged "K" "k,omitempty", .slice (.uint 8)),
   (tagged "Sig" "sig,omitempty", .slice (.uint 8)),
   (tagged "Seq" "seq,omitempty", .int 64)]

def type : GoType := .named "ResponseResult" (.struct fields)

def toGo (r : ResponseResult) : GoVal := .struct
  [r.id.toGo, nodesToGo (nils "R.Nodes") r.nodes, nodesToGo (nils "R.Nodes6") r.nodes6,
   .str r.token, sliceVal (nils "R.Values") (r.values.map Address.toGo),
   sliceVal (nils "R.Samples") (r.samples.map Hash.toGo), .int r.num.toInt, .int r.interval.toInt,
   bytesGo (nils "R.V") r.v, bytesGo (nils "R.K") r.k, bytesGo (nils "R.Sig") r.sig,
   .int r.seq.toInt]

def ofGo (v : GoVal) : ResponseResult where
  id := .ofGo (fieldOf v 0)
  nodes := nodesOfGo (fieldOf v 1)
  nodes6 := nodesOfGo (fieldOf v 2)
  token := strOf (fieldOf v 3)
  values := (elemsOf (fieldOf v 4)).1.map Address.ofGo
  samples := (elemsOf (fieldOf v 5)).1.map Hash.ofGo
  num := .ofInt (intOf (fieldOf v 6))
  interval := .ofInt (intOf (fieldOf v 7))
  v := valBytes (fieldOf v 8)
  k := valBytes (fieldOf v 9)
  sig := valBytes (fieldOf v 10)
  seq := .ofInt (intOf (fieldOf v 11))

end ResponseResult

namespace Message

def fields : List (Field × GoType) := [(tagged "T" "t", .string), (tagged "Y" "y", .string),
   (tagged "Q" "q,omitempty", .string),
   (tagged "A" "a,omitempty", QueryArg.type),
   (tagged "R" "r,omitempty", ResponseResult.type),
   (tagged "E" "e,omitempty", Error.type),
   (tagged "RO" "ro,omitempty", .bool)]

def type : GoType := .named "Message" (.struct fields)

def toGo (m : Message) : GoVal := .struct
  [.str m.t, .str m.y, .str m.q, m.a.toGo nils, m.r.toGo nils, m.e.toGo, .bool m.ro]

def ofGo (v : GoVal) : Message where
  t := strOf (fieldOf v 0)
  y := strOf (fieldOf v 1)
  q := strOf (fieldOf v 2)
  a := .ofGo (fieldOf v 3)
  r := .ofGo (fieldOf v 4)
  e := .ofGo (fieldOf v 5)
  ro := boolOf (fieldOf v 6)

def Encode (m : Message) : Except Bencode.Error Bytes :=
  EncodeBytes (krpcEnv env net) (.iface type (m.toGo nils))

def Decode (b : Bytes) : Except Bencode.Error Message :=
  (DecodeBytes (krpcEnv env net) b type (zero type)).map ofGo

end Message

end GoI2pBt.Krpc
