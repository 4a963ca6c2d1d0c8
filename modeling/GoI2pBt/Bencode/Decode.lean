/-
  The decoder of `bencode/decode.go`.
-/
import GoI2pBt.Bencode.Reflect

namespace GoI2pBt.Bencode

/-! ## The decoder and its reader -/

structure Decoder where
  r : Bytes
  raw : Bool
  buf : Bytes
  n : ℕ
  failUnordered : Bool
  alloc : ℕ

abbrev DecodeM := EStateM Error Decoder

def lift {α : Type} (x : Except Error α) : DecodeM α := fun d =>
  match x with
  | .ok a => .ok a d
  | .error e => .error e d

def NewDecoder (r : Bytes) : Decoder := ⟨r, false, [], 0, false, 0⟩

def Decoder.advance (d : Decoder) (p r : Bytes) : Decoder :=
  { d with r := r, buf := if d.raw then d.buf ++ p else d.buf, n := d.n + p.length }

def peekByte : DecodeM UInt8 := fun d =>
  match d.r with
  | [] => .error .eof d
  | b :: _ => .ok b d

def readByte : DecodeM UInt8 := fun d =>
  match d.r with
  | [] => .error .eof (d.advance [0] [])
  | b :: r => .ok b (d.advance [b] r)

def readBytes (delim : UInt8) : DecodeM Bytes := fun d =>
  match cut delim d.r with
  | none => .error .eof (d.advance d.r [])
  | some (l, r) => .ok l (d.advance (l ++ [delim]) r)

def readFull (l : ℕ) : DecodeM Bytes := fun d =>
  let d := { d with alloc := d.alloc + l }
  if l ≤ d.r.length then .ok (d.r.take l) (d.advance (d.r.take l) (d.r.drop l))
  else .error (if d.r = [] then .eof else .unexpectedEof) (d.advance d.r [])

/-! ## Destinations -/

inductive Target where
  | unmarshaler (u : GoVal → Bytes → Except Error GoVal) (old : GoVal)
  | textUnmarshaler (u : GoVal → Bytes → Except Error GoVal) (old : GoVal)
  | value (v : RValue)
  | panic

structure Resolved where
  target : Target
  put : GoVal → GoVal

def Resolved.map (f : GoVal → GoVal) (r : Resolved) : Resolved := ⟨r.target, fun x => f (r.put x)⟩

def checkUnmarshalers (env : Env) (t : GoType) (old : GoVal) : Option Target :=
  match t with
  | .named name _ =>
    match (env.methods name).unmarshalBencode, (env.methods name).unmarshalText with
    | some u, _ => some (.unmarshaler u old)
    | none, some u => some (.textUnmarshaler u old)
    | none, none => none
  | _ => none

def allocElem : GoType → GoType × (GoVal → GoVal)
  | .ptr t => ((allocElem t).1, fun x => .ptr ((allocElem t).2 x))
  | t => (t, id)

def indirectAlloc (t : GoType) (v : GoVal) (addr : Bool) : Resolved :=
  match v with
  | .nilPtr =>
    match t.under with
    -- a nil pointer that cannot be set makes `v.Set` panic
    | .ptr e => if addr then ⟨.value (.mk (allocElem e).1 (zero (allocElem e).1) true),
        fun x => .ptr ((allocElem e).2 x)⟩ else ⟨.panic, id⟩
    | _ => ⟨.panic, id⟩
  | .iface t' .nilPtr => ⟨.panic, .iface t'⟩
  | .iface t' v' => ⟨.value (.mk t' v' false), .iface t'⟩
  | v => ⟨.value (.mk t v addr), id⟩

def indirect (env : Env) (t : GoType) (v : GoVal) (addr : Bool) : Resolved :=
  match if addr then checkUnmarshalers env t v else none with
  | some target => ⟨target, id⟩
  | none =>
    match v with
    | .ptr v' =>
      match t.under with
      | .ptr e => (indirect env e v' true).map .ptr
      | _ => ⟨.panic, id⟩
    | .iface (.ptr e) (.ptr v') => (indirect env e v' true).map fun x => .iface (.ptr e) (.ptr x)
    | v => indirectAlloc t v addr

def RValue.set (v : RValue) (x : GoVal) : Except Error GoVal :=
  match v with
  | .mk _ _ true => .ok x
  | _ => .error .panic

/-! ## Integers and strings -/

def readIntegerDigits : DecodeM Bytes := do
  let c ← readByte
  if c ≠ ch 'i' then throw .panic
  let line ← readBytes (ch 'e')
  if (← get).raw then return [] else return line

def parseInt64 (digits : Bytes) : Except Error ℤ :=
  match parseInt 64 digits with
  | some i => .ok i
  | none => .error (.numError digits)

def parseUint64 (digits : Bytes) : Except Error ℕ :=
  match parseUint 64 digits with
  | some n => .ok n
  | none => .error (.numError digits)

def assignIntegerValue (v : RValue) (digits : Bytes) : Except Error GoVal :=
  match v with
  | .invalid => .ok .nilIface
  | .mk t _ _ =>
    match t.under with
    | .iface => do v.set (.iface (.int 64) (.int (← parseInt64 digits)))
    | .int bits => do v.set (.int ((← parseInt64 digits).bmod (2 ^ bits)))
    | .uint bits => do v.set (.uint ((← parseUint64 digits) % 2 ^ bits))
    | .bool => do v.set (.bool ((← parseUint64 digits) ≠ 0))
    | _ => .error (.cannotStoreInt t)

def decodeInt (v : RValue) : DecodeM GoVal := do
  let digits ← readIntegerDigits
  lift (assignIntegerValue v digits)

def readString : DecodeM Bytes := do
  let line ← readBytes (ch ':')
  match parseInt 32 line with
  | none => throw (.numError line)
  | some l =>
    if l < 0 then throw (.negativeLength l)
    readFull l.toNat

def assignString (v : RValue) (buf : Bytes) : Except Error GoVal :=
  match v with
  | .invalid => .error .panic
  | .mk t _ _ =>
    match t with
    | .slice (.uint 8) => v.set (bytesVal buf)
    | _ =>
      match t.under with
      | .string => v.set (.str buf)
      | .iface => v.set (.iface .string (.str buf))
      | _ => .error (.cannotStoreString t)

def decodeString (v : RValue) : DecodeM GoVal := do
  let buf ← readString
  if (← get).raw then return .nilIface else lift (assignString v buf)

/-! ## Lists -/

def elemsOf : GoVal → List GoVal × List GoVal
  | .slice es sp => (es, sp)
  | .array es => (es, [])
  | _ => ([], [])

def ensureSliceCapacity (isArray : Bool) (e : GoType) (addr : Bool) (index : ℕ)
    (s : List GoVal × List GoVal) : Except Error (List GoVal × List GoVal) := do
  let cap := s.1.length + s.2.length
  if index < s.1.length then return s
  if isArray || !addr then throw .panic
  let spare := if index < cap then s.2
    else List.replicate (max (cap + cap / 2) 4 - s.1.length) (zero e)
  return (s.1 ++ spare.take 1, spare.drop 1)

def processListElements (dec : RValue → DecodeM GoVal) (isArray : Bool) (e : GoType)
    (addr : Bool) : ℕ → ℕ → List GoVal × List GoVal → DecodeM (List GoVal × List GoVal)
  | 0, _, _ => throw .outOfFuel
  | fuel + 1, i, s => do
    let c ← peekByte
    if c = ch 'e' then
      let _ ← readByte
      return s
    let s ← lift (ensureSliceCapacity isArray e addr i s)
    let x ← dec (.mk e (s.1.getD i (zero e)) (addr || !isArray))
    processListElements dec isArray e addr fuel (i + 1) (s.1.set i x, s.2)

def processListInRawMode (dec : RValue → DecodeM GoVal) : ℕ → DecodeM GoVal
  | 0 => throw .outOfFuel
  | fuel + 1 => do
    let c ← peekByte
    if c = ch 'e' then
      let _ ← readByte
      return .nilIface
    let _ ← dec .invalid
    processListInRawMode dec fuel

def consumeToken (tok : UInt8) : DecodeM Unit := do
  let c ← readByte
  if c ≠ tok then throw .panic

def sliceAfter (old : GoVal) (s : List GoVal × List GoVal) : GoVal :=
  if s.1 = [] then old else .slice s.1 s.2

def decodeList (dec : RValue → DecodeM GoVal) (fuel : ℕ) (v : RValue) : DecodeM GoVal := do
  if (← get).raw then
    consumeToken (ch 'l')
    processListInRawMode dec fuel
  else
    match v with
    | .invalid => throw .panic
    | .mk t old addr =>
      match t.under with
      | .iface =>
        consumeToken (ch 'l')
        let s ← processListElements dec false .iface true fuel 0 ([], [])
        lift (v.set (.iface (.slice .iface) (sliceAfter .nilSlice s)))
      | .slice e =>
        consumeToken (ch 'l')
        return sliceAfter old (← processListElements dec false e addr fuel 0 (elemsOf old))
      | .array _ e =>
        consumeToken (ch 'l')
        return .array (← processListElements dec true e addr fuel 0 (elemsOf old)).1
      | _ => throw (.cantStoreList t)

/-! ## Dictionaries -/

def extractFieldName (f : Field) : List Char :=
  let name := (parseTag (f.tagGet "bencode").toList).1
  if name ≠ [] then name else if f.anonymous then [] else f.name.toList

def processRegularFields (env : Env) (path : List ℕ) :
    ℕ → List (Field × GoType) → List (Bytes × List ℕ)
  | _, [] => []
  | i, (f, _) :: fs =>
    let name := extractFieldName f
    if f.exported ∧ name ≠ [] ∧ isValidTag env name then
      (keyBytes name, path ++ [i]) :: processRegularFields env path (i + 1) fs
    else processRegularFields env path (i + 1) fs

mutual

def setStructValues (env : Env) (path : List ℕ) : GoType → List (Bytes × List ℕ)
  | .struct fs => processEmbeddedFields env path 0 fs ++ processRegularFields env path 0 fs
  | .named _ t => setStructValues env path t
  | _ => []

def processEmbeddedFields (env : Env) (path : List ℕ) :
    ℕ → List (Field × GoType) → List (Bytes × List ℕ)
  | _, [] => []
  | i, (f, t) :: fs =>
    (if f.exported ∧ f.anonymous ∧ f.tag = [] then setStructValues env (path ++ [i]) t else []) ++
      processEmbeddedFields env path (i + 1) fs

end

def lookupField (vals : List (Bytes × List ℕ)) (key : Bytes) : Option (List ℕ) :=
  (vals.reverse.find? fun p => p.1 = key).map (·.2)

def fieldAt : List ℕ → GoType → GoVal → Option (GoType × GoVal)
  | [], t, v => some (t, v)
  | i :: path, t, .struct vs =>
    match t.under with
    | .struct fs =>
      match fs[i]?, vs[i]? with
      | some (_, t'), some v' => fieldAt path t' v'
      | _, _ => none
    | _ => none
  | _ :: _, _, _ => none

def setFieldAt (x : GoVal) : List ℕ → GoVal → GoVal
  | [], _ => x
  | i :: path, .struct vs => .struct (vs.modify i (setFieldAt x path))
  | _ :: _, v => v

inductive DictTarget where
  | map (elem : GoType)
  | struct (vals : List (Bytes × List ℕ))

def setupDictTarget (env : Env) (t : GoType) (old : GoVal) (addr : Bool) :
    Except Error (DictTarget × GoVal) :=
  match t.under with
  | .map e =>
    match old with
    | .nilMap => if addr then .ok (.map e, .map []) else .error .panic
    | _ => .ok (.map e, old)
  | .struct _ => .ok (.struct (setStructValues env [] t), old)
  | _ => .error (.cantStoreDict t)

def checkDictEnd : DecodeM Bool := do
  let c ← peekByte
  if c = ch 'e' then
    let _ ← readByte
    return true
  return false

def processNextDictKey (last : Option Bytes) : DecodeM Bytes := do
  let key ← readString
  match last with
  | none => return key
  | some k => if (← get).failUnordered ∧ key < k then throw (.unordered k key) else return key

def handleKeyValuePair (dec : RValue → DecodeM GoVal) (tgt : DictTarget) (t : GoType)
    (addr : Bool) (key : Bytes) (cur : GoVal) : DecodeM GoVal :=
  match tgt with
  | .map e => do
    let x ← dec (.mk e (zero e) true)
    match cur with
    | .map es => return .map (mapSet key x es)
    | _ => throw .panic
  | .struct vals =>
    match (lookupField vals key).bind fun path => (fieldAt path t cur).map (path, ·) with
    | some (path, t', v') => do return setFieldAt (← dec (.mk t' v' addr)) path cur
    | none => do
      -- `skipInvalidValue`: the value goes into a fresh `interface{}`
      let _ ← dec (.mk .iface .nilIface true)
      return cur

def processDictKeyValuePairs (dec : RValue → DecodeM GoVal) (tgt : DictTarget) (t : GoType)
    (addr : Bool) : ℕ → Option Bytes → GoVal → DecodeM GoVal
  | 0, _, _ => throw .outOfFuel
  | fuel + 1, last, cur => do
    if ← checkDictEnd then return cur
    let key ← processNextDictKey last
    let cur ← handleKeyValuePair dec tgt t addr key cur
    processDictKeyValuePairs dec tgt t addr fuel (some key) cur

def processDictInRawMode (dec : RValue → DecodeM GoVal) : ℕ → DecodeM GoVal
  | 0 => throw .outOfFuel
  | fuel + 1 => do
    let c ← peekByte
    if c = ch 'e' then
      let _ ← readByte
      return .nilIface
    let _ ← decodeString .invalid
    let _ ← dec .invalid
    processDictInRawMode dec fuel

def decodeDict (env : Env) (dec : RValue → DecodeM GoVal) (fuel : ℕ) (v : RValue) :
    DecodeM GoVal := do
  if (← get).raw then
    consumeToken (ch 'd')
    processDictInRawMode dec fuel
  else
    match v with
    | .invalid => throw .panic
    | .mk t old addr =>
      consumeToken (ch 'd')
      if t.isIface then
        -- an interface receives a new `map[string]interface{}`
        let m ← processDictKeyValuePairs dec (.map .iface) (.map .iface) true fuel none (.map [])
        lift (v.set (.iface (.map .iface) m))
      else
        let (tgt, cur) ← lift (setupDictTarget env t old addr)
        processDictKeyValuePairs dec tgt t addr fuel none cur

/-! ## The recursion -/

def dispatchDecodeByType (env : Env) (dec : RValue → DecodeM GoVal) (fuel : ℕ) (v : RValue) :
    DecodeM GoVal := do
  let next ← peekByte
  if next = ch 'i' then decodeInt v
  else if IsDigit next then decodeString v
  else if next = ch 'l' then decodeList dec fuel v
  else if next = ch 'd' then decodeDict env dec fuel v
  else throw .invalidInput

def decodeRaw (env : Env) (dec : RValue → DecodeM GoVal) (fuel : ℕ) : DecodeM Bytes := fun d =>
  match dispatchDecodeByType env dec fuel .invalid { d with buf := [], raw := true } with
  | .ok _ d' => .ok d'.buf { d' with raw := false }
  | .error e d' => .error e { d' with raw := false }

def decodeInto (env : Env) : ℕ → RValue → DecodeM GoVal
  | 0, _ => throw .outOfFuel
  | fuel + 1, val => do
    let dec := decodeInto env fuel
    if (← get).raw then dispatchDecodeByType env dec fuel val
    else
      match val with
      | .invalid => throw .panic
      | .mk t old addr =>
        let res := indirect env t old addr
        match res.target with
        | .panic => throw .panic
        | .unmarshaler u old =>
          -- `handleUnmarshalerInterface`: `decodeInto(&x)` for a new `RawMessage` `x`
          let x ← dec (.mk .rawMessage .nilSlice true)
          return res.put (← lift (u old (valBytes x)))
        | .textUnmarshaler u old =>
          let x ← readString
          return res.put (← lift (u old x))
        | .value (.mk .rawMessage old addr) =>
          let x ← decodeRaw env dec fuel
          return res.put (← lift (RValue.set (.mk .rawMessage old addr) (bytesVal x)))
        | .value v => return res.put (← dispatchDecodeByType env dec fuel v)

def Decode (env : Env) (t : GoType) (old : GoVal) : DecodeM GoVal := fun d =>
  decodeInto env (d.r.length + 2) (.mk t old true) d

def DecodeBytes (env : Env) (b : Bytes) (t : GoType) (old : GoVal) : Except Error GoVal :=
  match Decode env t old (NewDecoder b) with
  | .ok v _ => .ok v
  | .error e _ => .error e

end GoI2pBt.Bencode
