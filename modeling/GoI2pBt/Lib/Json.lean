/-
  JSON texts, and storing them in variables.
-/
import GoI2pBt.Lib.Hex
import GoI2pBt.Lib.Strconv

namespace GoI2pBt

inductive Json where
  | null
  | bool (b : Bool)
  | num (literal : Bytes)
  | str (s : Bytes)
  | arr (items : List Json)
  | obj (members : List (Bytes × Json))

namespace Json

mutual

def beq : Json → Json → Bool
  | .null, .null => true
  | .bool b, .bool b' => b = b'
  | .num l, .num l' => l = l'
  | .str s, .str s' => s = s'
  | .arr vs, .arr vs' => beqItems vs vs'
  | .obj ms, .obj ms' => beqMembers ms ms'
  | _, _ => false

def beqItems : List Json → List Json → Bool
  | [], [] => true
  | v :: vs, v' :: vs' => beq v v' && beqItems vs vs'
  | _, _ => false

def beqMembers : List (Bytes × Json) → List (Bytes × Json) → Bool
  | [], [] => true
  | (k, v) :: ms, (k', v') :: ms' => k = k' && beq v v' && beqMembers ms ms'
  | _, _ => false

end

mutual

theorem beq_iff : ∀ v v' : Json, beq v v' ↔ v = v'
  | .null, v' => by cases v' <;> simp [beq]
  | .bool _, v' => by cases v' <;> simp [beq]
  | .num _, v' => by cases v' <;> simp [beq]
  | .str _, v' => by cases v' <;> simp [beq]
  | .arr vs, v' => by cases v' <;> simp [beq, beqItems_iff vs]
  | .obj ms, v' => by cases v' <;> simp [beq, beqMembers_iff ms]

theorem beqItems_iff : ∀ vs vs' : List Json, beqItems vs vs' ↔ vs = vs'
  | [], vs' => by cases vs' <;> simp [beqItems]
  | v :: vs, vs' => by cases vs' <;> simp [beqItems, beq_iff v, beqItems_iff vs]

theorem beqMembers_iff : ∀ ms ms' : List (Bytes × Json), beqMembers ms ms' ↔ ms = ms'
  | [], ms' => by cases ms' <;> simp [beqMembers]
  | (k, v) :: ms, ms' => by
    cases ms' <;> simp [beqMembers, Prod.ext_iff, beq_iff v, beqMembers_iff ms]

end

instance : DecidableEq Json := fun v v' => decidable_of_iff _ (beq_iff v v')

/-! ## Strings -/

def quotationMark : UInt8 := 34

def backslash : UInt8 := 92

def replacement : Bytes := [0xEF, 0xBF, 0xBD]

def encodeRune (r : ℕ) : Bytes :=
  if r < 0x80 then [UInt8.ofNat r]
  else if r < 0x800 then [UInt8.ofNat (0xC0 + r / 0x40), UInt8.ofNat (0x80 + r % 0x40)]
  else if r < 0x10000 then
    [UInt8.ofNat (0xE0 + r / 0x1000), UInt8.ofNat (0x80 + r / 0x40 % 0x40),
      UInt8.ofNat (0x80 + r % 0x40)]
  else
    [UInt8.ofNat (0xF0 + r / 0x40000), UInt8.ofNat (0x80 + r / 0x1000 % 0x40),
      UInt8.ofNat (0x80 + r / 0x40 % 0x40), UInt8.ofNat (0x80 + r % 0x40)]

def runeTail (c : ℕ) : Option (ℕ × ℕ × ℕ) :=
  if c < 0xC2 then none
  else if c < 0xE0 then some (1, 0x80, 0xBF)
  else if c < 0xF0 then
    some (2, if c = 0xE0 then 0xA0 else 0x80, if c = 0xED then 0x9F else 0xBF)
  else if c < 0xF5 then
    some (3, if c = 0xF0 then 0x90 else 0x80, if c = 0xF4 then 0x8F else 0xBF)
  else none

def runeWidth : Bytes → Option ℕ
  | [] => none
  | c :: s => do
    let (n, lo, hi) ← runeTail c.toNat
    let tail := s.take n
    if tail.length = n ∧ (∀ b ∈ tail.take 1, lo ≤ b.toNat ∧ b.toNat ≤ hi) ∧
        ∀ b ∈ tail.drop 1, 0x80 ≤ b.toNat ∧ b.toNat ≤ 0xBF then
      some (n + 1)
    else none

def hex4 (s : Bytes) : Option (ℕ × Bytes) :=
  let digits := s.take 4
  if digits.length = 4 ∧ ∀ c ∈ digits, (fromHexChar c).isSome then some (hexVal digits, s.drop 4)
  else none

def lowSurrogate (s : Bytes) : Option (ℕ × Bytes) :=
  match s with
  | c :: u :: s =>
    if c = backslash ∧ u = ch 'u' then
      (hex4 s).filter fun p => 0xDC00 ≤ p.1 ∧ p.1 < 0xE000
    else none
  | _ => none

def readEscape : Bytes → Option (Bytes × Bytes)
  | [] => none
  | c :: s =>
    if c = quotationMark ∨ c = backslash ∨ c = ch '/' then some ([c], s)
    else if c = ch 'b' then some ([8], s)
    else if c = ch 'f' then some ([12], s)
    else if c = ch 'n' then some ([10], s)
    else if c = ch 'r' then some ([13], s)
    else if c = ch 't' then some ([9], s)
    else if c = ch 'u' then do
      let (r, s) ← hex4 s
      if r < 0xD800 ∨ 0xE000 ≤ r then some (encodeRune r, s)
      else
        match if r < 0xDC00 then lowSurrogate s else none with
        | some (r', s) => some (encodeRune (0x10000 + (r - 0xD800) * 0x400 + (r' - 0xDC00)), s)
        | none => some (replacement, s)
    else none

def readString : ℕ → Bytes → Option (Bytes × Bytes)
  | 0, _ => none
  | _ + 1, [] => none
  | n + 1, c :: s =>
    if c = quotationMark then some ([], s)
    else if c = backslash then do
      let (text, s) ← readEscape s
      let (t, s) ← readString n s
      some (text ++ t, s)
    else if c.toNat < 0x20 then none
    else if c.toNat < 0x80 then do
      let (t, s) ← readString n s
      some (c :: t, s)
    else
      match runeWidth (c :: s) with
      | some w => do
        let (t, s) ← readString n (s.drop (w - 1))
        some ((c :: s).take w ++ t, s)
      | none => do
        let (t, s) ← readString n s
        some (replacement ++ t, s)

/-! ## Values -/

def isSpace (c : UInt8) : Bool := c = 32 ∨ c = 9 ∨ c = 10 ∨ c = 13

def skipSpace (s : Bytes) : Bytes := s.dropWhile isSpace

def isDigit (c : UInt8) : Bool := 48 ≤ c.toNat ∧ c.toNat ≤ 57

def readDigits (s : Bytes) : Option (Bytes × Bytes) :=
  let digits := s.takeWhile isDigit
  if digits = [] then none else some (digits, s.dropWhile isDigit)

def readInt : Bytes → Option (Bytes × Bytes)
  | [] => none
  | c :: s => if c = ch '0' then some ([c], s) else readDigits (c :: s)

def readFraction : Bytes → Option (Bytes × Bytes)
  | [] => some ([], [])
  | c :: s =>
    if c = ch '.' then (readDigits s).map fun p => (c :: p.1, p.2)
    else some ([], c :: s)

def readExponent : Bytes → Option (Bytes × Bytes)
  | [] => some ([], [])
  | c :: s =>
    if c = ch 'e' ∨ c = ch 'E' then
      match s with
      | sign :: s' =>
        if sign = ch '+' ∨ sign = ch '-' then
          (readDigits s').map fun p => (c :: sign :: p.1, p.2)
        else (readDigits s).map fun p => (c :: p.1, p.2)
      | [] => none
    else some ([], c :: s)

def readNumber (s : Bytes) : Option (Bytes × Bytes) := do
  let sign := if s.head? = some (ch '-') then s.take 1 else []
  let (int, s) ← readInt (s.drop sign.length)
  let (frac, s) ← readFraction s
  let (exp, s) ← readExponent s
  some (sign ++ int ++ frac ++ exp, s)

def expect (text s : Bytes) : Option Bytes :=
  if text <+: s then some (s.drop text.length) else none

def expectEither (c d : UInt8) (s : Bytes) : Option (Bool × Bytes) :=
  match skipSpace s with
  | [] => none
  | x :: s => if x = c then some (true, s) else if x = d then some (false, s) else none

mutual

def readValue : ℕ → ℕ → Bytes → Option (Json × Bytes)
  | _, 0, _ => none
  | depth, n + 1, s =>
    match skipSpace s with
    | [] => none
    | c :: s =>
      if c = ch '{' then
        match depth, skipSpace s with
        | 0, _ => none
        | _, [] => none
        | depth + 1, d :: s' =>
          if d = ch '}' then some (.obj [], s')
          else (readMembers depth n s).map fun p => (.obj p.1, p.2)
      else if c = ch '[' then
        match depth, skipSpace s with
        | 0, _ => none
        | _, [] => none
        | depth + 1, d :: s' =>
          if d = ch ']' then some (.arr [], s')
          else (readItems depth n s).map fun p => (.arr p.1, p.2)
      else if c = quotationMark then
        (readString (s.length + 1) s).map fun p => (.str p.1, p.2)
      else if c = ch 'n' then (expect (utf8 "ull") s).map fun s => (.null, s)
      else if c = ch 't' then (expect (utf8 "rue") s).map fun s => (.bool true, s)
      else if c = ch 'f' then (expect (utf8 "alse") s).map fun s => (.bool false, s)
      else (readNumber (c :: s)).map fun p => (.num p.1, p.2)

def readItems : ℕ → ℕ → Bytes → Option (List Json × Bytes)
  | _, 0, _ => none
  | depth, n + 1, s => do
    let (v, s) ← readValue depth n s
    let (more, s) ← expectEither (ch ',') (ch ']') s
    if more then (readItems depth n s).map fun p => (v :: p.1, p.2) else some ([v], s)

def readMembers : ℕ → ℕ → Bytes → Option (List (Bytes × Json) × Bytes)
  | _, 0, _ => none
  | depth, n + 1, s => do
    let s ← expect [quotationMark] (skipSpace s)
    let (key, s) ← readString (s.length + 1) s
    let s ← expect [ch ':'] (skipSpace s)
    let (v, s) ← readValue depth n s
    let (more, s) ← expectEither (ch ',') (ch '}') s
    if more then (readMembers depth n s).map fun p => ((key, v) :: p.1, p.2)
    else some ([(key, v)], s)

end

def maxNestingDepth : ℕ := 10000

def parse (text : Bytes) : Option Json :=
  match readValue maxNestingDepth (2 * text.length + 1) text with
  | some (v, s) => if skipSpace s = [] then some v else none
  | none => none

/-! ## Storing a value -/

abbrev Into (α : Type) := Json → α → Option α

def bool.into : Into Bool
  | .null, x => some x
  | .bool b, _ => some b
  | _, _ => none

def str.into : Into Bytes
  | .null, x => some x
  | .str s, _ => some s
  | _, _ => none

def int64.into : Into ℤ
  | .null, x => some x
  | .num literal, _ => parseInt 64 literal
  | _, _ => none

variable {α β : Type}

def itemsInto (into : Into α) (zero : α) : List Json → List α → Option (List α)
  | [], _ => some []
  | v :: vs, xs => do
    let x ← into v (xs.headD zero)
    let xs ← itemsInto into zero vs xs.tail
    some (x :: xs)

def slice.into (into : Into α) (zero : α) : Into (Option (List α))
  | .null, _ => some none
  | .arr vs, xs => (itemsInto into zero vs (xs.getD [])).map some
  | _, _ => none

def pointer.into (into : Into α) (zero : α) : Into (Option α)
  | .null, _ => some none
  | v, x => (into v (x.getD zero)).map some

def foldName : Bytes → Bytes
  | 0xC5 :: 0xBF :: s => ch 'S' :: foldName s
  | 0xE2 :: 0x84 :: 0xAA :: s => ch 'K' :: foldName s
  | c :: s => (if 97 ≤ c.toNat ∧ c.toNat ≤ 122 then c - 32 else c) :: foldName s
  | [] => []

structure Field (α : Type) where
  name : Bytes
  into : Into α

def field (name : String) (get : α → β) (set : α → β → α) (into : Into β) : Field α :=
  ⟨utf8 name, fun v x => (into v (get x)).map (set x)⟩

def unused (name : String) (zero : β) (into : Into β) : Field α :=
  ⟨utf8 name, fun v x => (into v zero).map fun _ => x⟩

def findField (fields : List (Field α)) (key : Bytes) : Option (Field α) :=
  (fields.find? fun f => f.name = key) <|>
    fields.find? fun f => foldName f.name = foldName key

def memberInto (fields : List (Field α)) (x : α) (m : Bytes × Json) : Option α :=
  match findField fields m.1 with
  | some f => f.into m.2 x
  | none => some x

def struct.into (fields : List (Field α)) : Into α
  | .null, x => some x
  | .obj members, x => members.foldlM (memberInto fields) x
  | _, _ => none

/-! ## Values of type `interface{}` -/

structure Float64 where
  reformat : Bytes → Option Bytes
  toInt64 : Bytes → Int64
  reformat_int : ∀ i : ℤ, |i| ≤ 2 ^ 53 → reformat (formatInt i) = some (formatInt i)
  toInt64_int : ∀ i : ℤ, |i| ≤ 2 ^ 53 → toInt64 (formatInt i) = Int64.ofInt i

def insertMember (key : Bytes) (v : Json) : List (Bytes × Json) → List (Bytes × Json)
  | [] => [(key, v)]
  | m :: ms =>
    if key = m.1 then (key, v) :: ms
    else if key < m.1 then (key, v) :: m :: ms
    else m :: insertMember key v ms

mutual

def any (F : Float64) : Json → Option Json
  | .num literal => (F.reformat literal).map .num
  | .arr items => (anyItems F items).map .arr
  | .obj members => (anyMembers F members []).map .obj
  | v => some v

def anyItems (F : Float64) : List Json → Option (List Json)
  | [] => some []
  | v :: vs => do
    let v ← any F v
    let vs ← anyItems F vs
    some (v :: vs)

def anyMembers (F : Float64) : List (Bytes × Json) → List (Bytes × Json) →
    Option (List (Bytes × Json))
  | [], acc => some acc
  | (key, v) :: ms, acc => do
    let v ← any F v
    anyMembers F ms (insertMember key v acc)

end

def any.into (F : Float64) : Into Json := fun v _ => v.any F

end Json

end GoI2pBt
