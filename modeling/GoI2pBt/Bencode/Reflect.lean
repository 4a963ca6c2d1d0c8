/-
  Go types and values, as the package sees them by reflection.
-/
import GoI2pBt.Lib.Strconv

namespace GoI2pBt.Bencode

/-! ## Types and values -/

structure Field where
  name : String
  tag : List (String × String)
  anonymous : Bool
  exported : Bool

inductive GoType where
  | bool
  | int (bits : ℕ)
  | uint (bits : ℕ)
  | string
  | iface
  | rawMessage
  | ptr (elem : GoType)
  | slice (elem : GoType)
  | array (len : ℕ) (elem : GoType)
  | map (elem : GoType)
  | struct (fields : List (Field × GoType))
  | named (name : String) (under : GoType)

inductive GoVal where
  | bool (b : Bool)
  | int (i : ℤ)
  | uint (n : ℕ)
  | str (s : Bytes)
  | nilIface
  | iface (type : GoType) (v : GoVal)
  | nilPtr
  | ptr (v : GoVal)
  | nilSlice
  | slice (elems spare : List GoVal)
  | array (elems : List GoVal)
  | nilMap
  | map (entries : List (Bytes × GoVal))
  | struct (fields : List GoVal)

def GoType.under : GoType → GoType
  | .named _ t => t.under
  | t => t

def GoType.isIface (t : GoType) : Bool := t.under matches .iface

mutual

def zero : GoType → GoVal
  | .bool => .bool false
  | .int _ => .int 0
  | .uint _ => .uint 0
  | .string => .str []
  | .iface => .nilIface
  | .rawMessage => .nilSlice
  | .ptr _ => .nilPtr
  | .slice _ => .nilSlice
  | .array n t => .array (List.replicate n (zero t))
  | .map _ => .nilMap
  | .struct fs => .struct (zeroFields fs)
  | .named _ t => zero t

def zeroFields : List (Field × GoType) → List GoVal
  | [] => []
  | (_, t) :: fs => zero t :: zeroFields fs

end

def bytesVal (b : Bytes) : GoVal := .slice (b.map fun x => .uint x.toNat) []

def valBytes : GoVal → Bytes
  | .slice es _ => es.map fun | .uint n => UInt8.ofNat n | _ => 0
  | _ => []

@[simp] theorem valBytes_bytesVal (b : Bytes) : valBytes (bytesVal b) = b := by
  simp [valBytes, bytesVal, Function.comp_def]

/-! The parts of a value, read with the type it has. -/

def strOf : GoVal → Bytes
  | .str s => s
  | _ => []

def intOf : GoVal → ℤ
  | .int i => i
  | _ => 0

def uintOf : GoVal → ℕ
  | .uint n => n
  | _ => 0

def boolOf : GoVal → Bool
  | .bool b => b
  | _ => false

def entriesOf : GoVal → List (Bytes × GoVal)
  | .map es => es
  | _ => []

def fieldOf : GoVal → ℕ → GoVal
  | .struct vs, i => vs.getD i .nilIface
  | _, _ => .nilIface

def mapSet (key : Bytes) (x : GoVal) : List (Bytes × GoVal) → List (Bytes × GoVal)
  | [] => [(key, x)]
  | (k, y) :: es =>
    if key < k then (key, x) :: (k, y) :: es
    else if k < key then (k, y) :: mapSet key x es
    else (key, x) :: es

inductive RValue where
  | invalid
  | mk (type : GoType) (v : GoVal) (addr : Bool)

/-! ## Errors and the surroundings of the package -/

inductive Error where
  | eof
  | unexpectedEof
  | invalidInput
  | numError (text : Bytes)
  | negativeLength (l : ℤ)
  | cannotStoreInt (t : GoType)
  | cannotStoreString (t : GoType)
  | cantStoreList (t : GoType)
  | cantStoreDict (t : GoType)
  | unordered (last key : Bytes)
  | method (msg : String)
  | panic
  | outOfFuel

inductive Receiver where
  | value
  | pointer
deriving DecidableEq

structure Methods where
  marshalBencode : Option (Receiver × (GoVal → Except Error Bytes)) := none
  marshalText : Option (Receiver × (GoVal → Except Error Bytes)) := none
  unmarshalBencode : Option (GoVal → Bytes → Except Error GoVal) := none
  unmarshalText : Option (GoVal → Bytes → Except Error GoVal) := none

structure Env where
  methods : String → Methods
  wideLetter : Char → Bool
  sort : List (Bytes × Except Error Bytes) → List (Bytes × Except Error Bytes)
  sort_perm : ∀ l, (sort l).Perm l
  sort_sorted : ∀ l, (sort l).Pairwise fun a b => a.1 ≤ b.1

def bareEnv : Env where
  methods _ := {}
  wideLetter _ := false
  sort l := l.insertionSort fun a b => a.1 ≤ b.1
  sort_perm l := List.perm_insertionSort _ l
  sort_sorted l := have : Std.Total fun a b : Bytes × Except Error Bytes => a.1 ≤ b.1 :=
      ⟨fun a b => List.le_total a.1 b.1⟩
    have : IsTrans (Bytes × Except Error Bytes) fun a b => a.1 ≤ b.1 :=
      ⟨fun _ _ _ => List.le_trans⟩
    List.pairwise_insertionSort _ l

def Env.withMethods (env : Env) (methods : String → Methods) : Env := { env with methods }

def Env.noMethods (env : Env) : Env := env.withMethods fun _ => {}

/-! ## Struct tags -/

def tagged (name tag : String) : Field := ⟨name, [("bencode", tag)], false, true⟩

def Field.tagGet (f : Field) (key : String) : String :=
  ((f.tag.find? fun p => p.1 == key).map (·.2)).getD ""

def parseTag (tag : List Char) : List Char × List Char :=
  (tag.takeWhile (· ≠ ','), (tag.dropWhile (· ≠ ',')).drop 1)

def tagContains (options name : List Char) : Bool :=
  options ≠ [] ∧ name ∈ options.splitOn ',' ∧ name ≠ []

def isValidTag (env : Env) (key : List Char) : Bool := !key.isEmpty && key.all fun c =>
    [' ', '$', '-', '_', '.'].contains c || c.isAlphanum || (128 ≤ c.toNat && env.wideLetter c)

def keyBytes (name : List Char) : Bytes := name.flatMap String.utf8EncodeChar

end GoI2pBt.Bencode
