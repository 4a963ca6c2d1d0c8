/-
  The encoder of `bencode/encode.go`.
-/
import GoI2pBt.Bencode.Reflect

namespace GoI2pBt.Bencode

/-! ## Tokens -/

def encodeInt (digits : Bytes) : Bytes := ch 'i' :: (digits ++ [ch 'e'])

def encodeStr (s : Bytes) : Bytes := formatUint s.length ++ ch ':' :: s

/-! ## Empty values -/

def isNilValue : GoVal → Bool
  | .nilIface | .nilPtr => true
  | _ => false

mutual

def isZero : GoVal → Bool
  | .bool b => !b
  | .int i => i = 0
  | .uint n => n = 0
  | .str s => s = []
  | .nilIface | .nilPtr | .nilSlice | .nilMap => true
  | .array vs | .struct vs => isZeroAll vs
  | _ => false

def isZeroAll : List GoVal → Bool
  | [] => true
  | v :: vs => isZero v && isZeroAll vs

end

def isEmptyValue : GoVal → Bool
  | .array vs => vs = []
  | .slice es _ => es = []
  | .map es => es = []
  | v => isZero v

/-! ## Marshalers -/

def usable (ptr : Bool) (m : Option (Receiver × (GoVal → Except Error Bytes))) :
    Option (GoVal → Except Error Bytes) :=
  match m with
  | some (.value, f) => some f
  | some (.pointer, f) => if ptr then some f else none
  | none => none

def callMarshaler (ms : Methods) (ptr : Bool) (v : GoVal) : Option (Except Error Bytes) :=
  match usable ptr ms.marshalBencode, usable ptr ms.marshalText with
  | some f, _ => some (f v)
  | none, some f => some ((f v).map encodeStr)
  | none, none => none

def findMarshaler (env : Env) (t : GoType) (addr : Bool) : GoVal → Option (Except Error Bytes)
  | .nilPtr => none
  | .ptr v =>
    match t.under with
    | .ptr (.named name _) => callMarshaler (env.methods name) true v
    | _ => none
  | .iface (.named name _) v => callMarshaler (env.methods name) false v
  | .iface (.ptr (.named name _)) (.ptr v) => callMarshaler (env.methods name) true v
  -- the method is called on a nil pointer
  | .iface (.ptr (.named name _)) .nilPtr =>
    (callMarshaler (env.methods name) true .nilPtr).map fun _ => .error .panic
  | v =>
    match t with
    | .named name _ => callMarshaler (env.methods name) addr v
    | _ => none

def orMarshaler (checks : Bool) (m : Option (Except Error Bytes)) (k : Except Error Bytes) :
    Except Error Bytes :=
  match m with
  | some r => if checks then r else k
  | none => k

/-! ## Struct fields -/

def processFieldTag (env : Env) (f : Field) (v : GoVal) : Option (List Char) :=
  let tagValue := f.tagGet "bencode"
  if tagValue = "" then some f.name.toList
  else if tagValue = "-" then none
  else
    let (name, options) := parseTag tagValue.toList
    if tagContains options "omitempty".toList ∧ isEmptyValue v then none
    else some (if isValidTag env name then name else f.name.toList)

def shouldEmbedAnonymousStruct (f : Field) (t : GoType) : Bool :=
  f.anonymous && f.tagGet "bencode" = "" && t.under matches .struct _

def GoType.isRawMessage (t : GoType) : Bool := t matches .rawMessage

def GoType.isBytes (t : GoType) : Bool := t matches .slice (.uint 8)

def GoType.elem (t : GoType) : GoType :=
  match t.under with
  | .ptr e | .slice e | .array _ e | .map e => e
  | _ => .iface

def GoType.fields (t : GoType) : List (Field × GoType) :=
  match t.under with
  | .struct fs => fs
  | _ => []

def writePairs : List (Bytes × Except Error Bytes) → Except Error Bytes
  | [] => .ok []
  | (k, x) :: ps => do
    let x ← x
    let rest ← writePairs ps
    return encodeStr k ++ x ++ rest

def writeDict (env : Env) (dict : List (Bytes × Except Error Bytes)) : Except Error Bytes := do
  let body ← writePairs (env.sort dict)
  return ch 'd' :: (body ++ [ch 'e'])

/-! ## The recursion -/

mutual

def encodeFrom (env : Env) (checks direct : Bool) (t : GoType) (addr : Bool) :
    GoVal → Except Error Bytes
  | .nilPtr => .ok []
  | .nilIface => orMarshaler checks (findMarshaler env t addr .nilIface) (.ok [])
  | .ptr v => orMarshaler checks (findMarshaler env t addr (.ptr v))
      (encodeFrom env checks false t.elem true v)
  | .iface t' v => orMarshaler checks (findMarshaler env t addr (.iface t' v))
      (encodeFrom env false direct t' false v)
  | .int i => orMarshaler checks (findMarshaler env t addr (.int i)) (.ok (encodeInt (formatInt i)))
  | .uint n => orMarshaler checks (findMarshaler env t addr (.uint n))
      (.ok (encodeInt (formatUint n)))
  | .bool b => orMarshaler checks (findMarshaler env t addr (.bool b))
      (.ok (encodeInt (formatUint b.toNat)))
  | .str s => orMarshaler checks (findMarshaler env t addr (.str s)) (.ok (encodeStr s))
  | .nilSlice => orMarshaler checks (findMarshaler env t addr .nilSlice)
      (.ok (if t.isRawMessage then []
        else if direct && t.isBytes then encodeStr []
        else [ch 'l', ch 'e']))
  | .slice es sp => orMarshaler checks (findMarshaler env t addr (.slice es sp))
      (if t.isRawMessage then .ok (valBytes (.slice es sp))
        else if direct && t.isBytes then .ok (encodeStr (valBytes (.slice es sp)))
        else (encodeElems env t.elem true es).map fun b => ch 'l' :: (b ++ [ch 'e']))
  | .array es => orMarshaler checks (findMarshaler env t addr (.array es))
      ((encodeElems env t.elem addr es).map fun b => ch 'l' :: (b ++ [ch 'e']))
  | .nilMap => orMarshaler checks (findMarshaler env t addr .nilMap) (writeDict env [])
  | .map es => orMarshaler checks (findMarshaler env t addr (.map es))
      (writeDict env (encodeEntries env t.elem es))
  | .struct vs => orMarshaler checks (findMarshaler env t addr (.struct vs))
      (writeDict env (readStruct env addr t.fields vs))

def encodeElems (env : Env) (e : GoType) (addr : Bool) : List GoVal → Except Error Bytes
  | [] => .ok []
  | v :: vs => do
    let b ← encodeFrom env true true e addr v
    let rest ← encodeElems env e addr vs
    return b ++ rest

def encodeEntries (env : Env) (e : GoType) :
    List (Bytes × GoVal) → List (Bytes × Except Error Bytes)
  | [] => []
  | (k, v) :: es =>
    if isNilValue v then encodeEntries env e es
    else (k, encodeFrom env true true e false v) :: encodeEntries env e es

def readStruct (env : Env) (addr : Bool) :
    List (Field × GoType) → List GoVal → List (Bytes × Except Error Bytes)
  | (f, t) :: fs, v :: vs =>
    -- `shouldProcessField`: unexported fields and nil pointers and interfaces are left out
    if !f.exported || isNilValue v then readStruct env addr fs vs
    else
      match processFieldTag env f v with
      | none => readStruct env addr fs vs
      | some rkey =>
        if shouldEmbedAnonymousStruct f t then
          (match v with
            | .struct ws => readStruct env addr t.fields ws
            | _ => []) ++ readStruct env addr fs vs
        else (keyBytes rkey, encodeFrom env true true t addr v) :: readStruct env addr fs vs
  | _, _ => []

end

def encodeValue (env : Env) (t : GoType) (v : GoVal) (addr : Bool) : Except Error Bytes :=
  encodeFrom env true true t addr v

def EncodeBytes (env : Env) : GoVal → Except Error Bytes
  | .iface t v => encodeValue env t v false
  | _ => .error .panic

end GoI2pBt.Bencode
