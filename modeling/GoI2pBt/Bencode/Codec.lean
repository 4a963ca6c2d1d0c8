/-
  Go values that are written and read back, type by type.
-/
import GoI2pBt.Bencode.Structs

namespace GoI2pBt.Bencode

open List Bencode.Tree Option

/-- `v` is written as `x`, and `x` is read as `back`. -/
structure Codec (env : Env) (t : GoType) (v : GoVal) (x : Tree) (back : GoVal) : Prop where
  writes : ∀ addr, encodeFrom env true true t addr v = .ok x.bytes
  wf : x.WF
  scan : x.scannable = true
  reads : store env t (zero t) true x = .ok back

variable {env : Env} {t e : GoType}

/-! ## Strings and numbers -/

theorem codec_str (ht : t.under = .string) (h : NoMethods env t) {s} (hs : s.length < 2 ^ 31) :
    Codec env t (.str s) (.str (formatUint s.length) s) (.str s) where
  writes addr := by
    rw [encodeFrom, findMarshaler_noMethods h rfl]; rfl
  wf := strOk_formatUint hs
  scan := digitFirst_formatUint _
  reads := by
    have hz : zero t = .str [] := by rw [zero_under, ht]; rfl
    rw [store_noMethods h (by rw [hz]; rfl) (notRaw ht nofun), storeValue,
      if_pos (digitFirst_formatUint _)]
    rw [assignString.eq_def]
    dsimp only
    split
    · cases ht
    · rw [ht]; rfl

theorem codec_string {s} (hs : s.length < 2 ^ 31) :
    Codec env .string (.str s) (.str (formatUint s.length) s) (.str s) :=
  codec_str (t := .string) rfl trivial hs

theorem codec_int {bits} (hb : bits ≤ 64) (hb0 : 0 < bits) {i} (hlo : -2 ^ (bits - 1) ≤ i)
    (hhi : i < 2 ^ (bits - 1)) :
    Codec env (.int bits) (.int i) (.int (formatInt i)) (.int i) where
  writes addr := by
    rw [encodeFrom, findMarshaler_noMethods (t := .int bits) trivial rfl]; rfl
  wf := notMem_formatInt (by decide) (by decide) i
  scan := rfl
  reads := by
    have hpow : (2 : ℤ) ^ (bits - 1) ≤ 2 ^ 63 := pow_le_pow_right₀ (by norm_num) (by omega)
    have hp : parseInt64 (formatInt i) = .ok i := by
      rw [parseInt64, parseInt_formatInt (by push_cast; omega) (by push_cast; omega)]
    have hmod : i.bmod (2 ^ bits) = i := by
      have h2 : (2 : ℤ) ^ bits = 2 * 2 ^ (bits - 1) := by
        rw [← pow_succ', Nat.sub_add_cancel hb0]
      exact Int.bmod_eq_of_le (by push_cast; omega) (by push_cast; omega)
    rw [store_noMethods (t := .int bits) trivial rfl rfl, storeValue, assignIntegerValue]
    change (parseInt64 (formatInt i) >>= fun i => _) = _
    rw [hp, except_ok_bind, hmod]; rfl

theorem codec_int64 (i : Int64) : Codec env (.int 64) (.int i.toInt) (.int (formatInt i.toInt))
    (.int i.toInt) :=
  codec_int (le_refl 64) (by decide) i.le_toInt i.toInt_lt

theorem codec_uint {bits} (hb : bits ≤ 64) {n} (hn : n < 2 ^ bits) :
    Codec env (.uint bits) (.uint n) (.int (formatUint n)) (.uint n) where
  writes addr := by
    rw [encodeFrom, findMarshaler_noMethods (t := .uint bits) trivial rfl]; rfl
  wf := notMem_formatUint (by decide) n
  scan := rfl
  reads := by
    have hp : parseUint64 (formatUint n) = .ok n := by
      rw [parseUint64, parseUint_formatUint (hn.trans_le (Nat.pow_le_pow_right (by norm_num) hb))]
    rw [store_noMethods (t := .uint bits) trivial rfl rfl, storeValue, assignIntegerValue]
    change (parseUint64 (formatUint n) >>= fun n => _) = _
    rw [hp, except_ok_bind, Nat.mod_eq_of_lt hn]; rfl

theorem codec_bool (b : Bool) :
    Codec env .bool (.bool b) (.int (formatUint b.toNat)) (.bool b) where
  writes addr := by
    rw [encodeFrom, findMarshaler_noMethods (t := .bool) trivial rfl]; rfl
  wf := notMem_formatUint (by decide) _
  scan := rfl
  reads := by
    have hp : parseUint64 (formatUint b.toNat) = .ok b.toNat := by
      rw [parseUint64, parseUint_formatUint (by cases b <;> decide)]
    rw [store_noMethods (t := .bool) trivial rfl rfl, storeValue, assignIntegerValue]
    change (parseUint64 (formatUint b.toNat) >>= fun n => _) = _
    rw [hp, except_ok_bind]
    cases b <;> rfl

theorem codec_bytes {b} (hb : b.length < 2 ^ 31) :
    Codec env (.slice (.uint 8)) (bytesVal b) (.str (formatUint b.length) b) (bytesVal b) where
  writes addr := by
    rw [bytesVal, encodeFrom, findMarshaler_noMethods (t := .slice (.uint 8)) trivial rfl]
    change Except.ok (encodeStr (valBytes (bytesVal b))) = _
    rw [valBytes_bytesVal]; rfl
  wf := strOk_formatUint hb
  scan := digitFirst_formatUint _
  reads := by
    rw [store_noMethods (t := .slice (.uint 8)) trivial rfl rfl, storeValue,
      if_pos (digitFirst_formatUint _)]
    rfl

theorem codec_rawMessage {x} (hw : x.WF) (hs : x.scannable = true) :
    Codec env .rawMessage (bytesVal x.bytes) x (bytesVal x.bytes) where
  writes addr := by
    rw [bytesVal, encodeFrom, findMarshaler_noMethods (t := .rawMessage) trivial rfl]
    change Except.ok (valBytes (bytesVal x.bytes)) = _
    rw [valBytes_bytesVal]
  wf := hw
  scan := hs
  reads := by rw [zero, store_rawMessage, if_pos hs]

/-! ## Slices -/

structure Codecs (env : Env) (e : GoType) (vs : List GoVal) (xs : List Tree) (bs : List GoVal) :
    Prop where
  writes : ∀ addr, encodeElems env e addr vs = .ok (itemsBytes xs)
  wf : WFItems xs
  scan : scannableItems xs = true
  reads : storeAll env e xs = .ok bs

theorem Codecs.nil : Codecs env e [] [] [] := ⟨fun _ => rfl, trivial, rfl, rfl⟩

theorem Codecs.cons {v back x vs bs xs} (h : Codec env e v x back) (hs : Codecs env e vs xs bs) :
    Codecs env e (v :: vs) (x :: xs) (back :: bs) where
  writes addr := by rw [encodeElems, h.writes, hs.writes]; rfl
  wf := ⟨h.wf, hs.wf⟩
  scan := by rw [scannableItems, h.scan, hs.scan]; rfl
  reads := by rw [storeAll, h.reads, hs.reads]; rfl

theorem exists_codecs {α : Type} {l : List α} {enc : α → GoVal} {P : α → GoVal → Prop}
    (h : ∀ a ∈ l, ∃ x back, P a back ∧ Codec env e (enc a) x back) :
    ∃ xs bs, Forall₂ P l bs ∧ Codecs env e (l.map enc) xs bs := by
  induction l with
  | nil => exact ⟨[], [], .nil, .nil⟩
  | cons a l ih =>
    obtain ⟨x, back, hp, hc⟩ := h a mem_cons_self
    obtain ⟨xs, bs, hps, hcs⟩ := ih fun a ha => h a (mem_cons_of_mem _ ha)
    exact ⟨x :: xs, back :: bs, .cons hp hps, .cons hc hcs⟩

theorem store_list_zero (ht : t.under = .slice e) (hn : NoMethods env t) (xs : List Tree) :
    (store env t (zero t) true (.list xs)).map (fun w => (elemsOf w).1) = storeAll env e xs := by
  have hz : zero t = .nilSlice := by rw [zero_under, ht]; rfl
  rw [store_noMethods hn (by rw [hz]; rfl) (notRaw ht nofun), hz, ← storeItems_nil]
  simp only [storeValue, storeList, ht]
  change ((storeItems env false e true 0 ([], []) _).map _).map _ = _
  cases storeItems env false e true 0 ([], []) xs with
  | error err => rfl
  | ok s =>
    rw [except_map_ok, except_map_ok, except_map_ok, sliceAfter]
    split_ifs with hnil
    · rw [hnil]
      rfl
    · rfl

theorem codec_slice (ht : t.under = .slice e) (hn : NoMethods env t) (hb : t.isBytes = false)
    {vs bs xs} (sp : List GoVal) (h : Codecs env e vs xs bs) :
    ∃ back, (elemsOf back).1 = bs ∧ Codec env t (.slice vs sp) (.list xs) back := by
  have hitems := store_list_zero ht hn xs
  rw [h.reads, except_map_eq_ok] at hitems
  obtain ⟨back, hreads, hbs⟩ := hitems
  refine ⟨back, hbs, ?_, h.wf, h.scan, hreads⟩
  intro addr
  rw [encodeFrom, findMarshaler_noMethods hn rfl, notRaw ht nofun, hb]
  have he : t.elem = e := by rw [GoType.elem, ht]
  simp only [orMarshaler, Bool.false_eq_true, if_false, Bool.and_false, he, h.writes]
  rfl

theorem codecs_strs (he : e.under = .string) (hn : NoMethods env e) {us : List Bytes}
    (h : ∀ s ∈ us, s.length < 2 ^ 31) :
    Codecs env e (us.map .str) (us.map fun s => .str (formatUint s.length) s) (us.map .str) := by
  induction us with
  | nil => exact .nil
  | cons s us ih =>
    exact .cons (codec_str he hn (h s mem_cons_self))
      (ih fun s hs => h s (mem_cons_of_mem _ hs))

/-! ## Slices that may be nil -/

def sliceVal (isNil : Bool) (vs : List GoVal) : GoVal :=
  if isNil ∧ vs = [] then .nilSlice else .slice vs []

def bytesGo (isNil : Bool) (b : Bytes) : GoVal := sliceVal isNil (b.map fun x => .uint x.toNat)

@[simp] theorem elemsOf_sliceVal (isNil : Bool) (vs : List GoVal) :
    (elemsOf (sliceVal isNil vs)).1 = vs := by
  unfold sliceVal
  split_ifs with h
  · exact h.2.symm
  · rfl

theorem isEmptyValue_sliceVal {isNil vs} : isEmptyValue (sliceVal isNil vs) = true ↔ vs = [] := by
  unfold sliceVal
  split_ifs with h
  · exact iff_of_true rfl h.2
  · exact decide_eq_true_iff

theorem isNilValue_sliceVal (isNil : Bool) (vs : List GoVal) :
    isNilValue (sliceVal isNil vs) = false := by
  unfold sliceVal
  split_ifs <;> rfl

theorem direct_sliceVal (isNil : Bool) (vs : List GoVal) : direct (sliceVal isNil vs) = true := by
  unfold sliceVal
  split_ifs <;> rfl

theorem sliceVal_of_ne (isNil : Bool) {vs} (h : vs ≠ []) :
    sliceVal isNil vs = .slice vs [] := if_neg fun hn => h hn.2

theorem codec_sliceVal (ht : t.under = .slice e) (hn : NoMethods env t) (hb : t.isBytes = false)
    (isNil : Bool) {vs bs xs} (h : Codecs env e vs xs bs) :
    ∃ back, (elemsOf back).1 = bs ∧ (¬ (true = true ∧ isEmptyValue (sliceVal isNil vs) = true) →
        Codec env t (sliceVal isNil vs) (.list xs) back) := by
  obtain ⟨back, hback, hc⟩ := codec_slice ht hn hb [] h
  refine ⟨back, hback, fun hne => ?_⟩
  rw [sliceVal_of_ne isNil fun hnil => hne ⟨rfl, isEmptyValue_sliceVal.2 hnil⟩]
  exact hc

theorem codec_bytesGo (isNil : Bool) {b} (hb : b.length < 2 ^ 31)
    (hne : ¬ (true = true ∧ isEmptyValue (bytesGo isNil b) = true)) :
    Codec env (.slice (.uint 8)) (bytesGo isNil b) (.str (formatUint b.length) b) (bytesVal b) := by
  rw [bytesGo, sliceVal_of_ne isNil fun hnil => hne ⟨rfl, isEmptyValue_sliceVal.2 hnil⟩]
  exact codec_bytes hb

/-! ## Types with their own methods -/

theorem encodeFrom_marshaler {name} {under : GoType} {m v}
    (hm : (env.methods name).marshalBencode = some (.value, m)) (hv : direct v = true)
    (addr : Bool) : encodeFrom env true true (.named name under) addr v = m v := by
  have hf : findMarshaler env (.named name under) addr v = some (m v) := by
    have hc : callMarshaler (env.methods name) addr v = some (m v) := by
      rw [callMarshaler, hm]
      rfl
    cases v <;> first | exact hc | cases hv
  cases v <;> first | (rw [encodeFrom, hf]; rfl) | cases hv

theorem codec_marshaler {name} {under : GoType} {m u v back x}
    (hm : (env.methods name).marshalBencode = some (.value, m))
    (hu : (env.methods name).unmarshalBencode = some u) (hv : direct v = true)
    (hw : x.WF) (hs : x.scannable = true) (hwrites : m v = .ok x.bytes)
    (hreads : u (zero under) x.bytes = .ok back) :
    Codec env (.named name under) v x back where
  writes addr := by rw [encodeFrom_marshaler hm hv, hwrites]
  wf := hw
  scan := hs
  reads := by rw [store_unmarshaler hu, if_pos hs]; exact hreads

/-! ## Structs -/

theorem scannable_rows {rows : List (Row env)} {qs : List (Bytes × Tree)}
    (hp : qs.Perm (rowPairs rows)) : (Tree.dict (qs.map entryOf)).scannable = true := by
  have hall : ∀ q ∈ qs, q.2.scannable = true := fun q hq => by
    obtain ⟨r, -, hr⟩ := mem_flatMap.1 (hp.mem_iff.1 hq)
    simp only [mem_toList, map_eq_some_iff] at hr
    obtain ⟨x, hx, rfl⟩ := hr
    exact (r.wf x hx).2
  rw [scannable]
  clear hp
  induction qs with
  | nil => rfl
  | cons q qs ih =>
    rw [map_cons, entryOf, scannableEntries, hall q mem_cons_self,
      ih fun q hq => hall q (mem_cons_of_mem _ hq)]
    rfl

theorem codec_struct {name : String} (henv : env.methods name = {}) {rows : List (Row env)}
    (hnodup : (rows.map Row.key).Nodup) :
    ∃ x, Codec env (.named name (.struct (rowFields rows))) (.struct (rows.map Row.val)) x
      (.struct (rows.map Row.back)) := by
  obtain ⟨qs, hp, hwrites⟩ := encodeFrom_rows henv rows
  exact ⟨.dict (qs.map entryOf), fun addr => hwrites true true addr, rowPairs_wf hp,
    scannable_rows hp, store_rows henv hnodup hp⟩

/-! ## Rows of tagged fields -/

def optBack (opt : Bool) (t : GoType) (v back : GoVal) : GoVal :=
  if opt ∧ isEmptyValue v then zero t else back

def Row.tagged (goName tag : String) (name : List Char) (opt : Bool) {t : GoType} {v : GoVal}
    {x : Tree} {back : GoVal} (h : ¬ (opt = true ∧ isEmptyValue v = true) → Codec env t v x back)
    (hv : isNilValue v = false := by rfl) (htag : tagIs tag name opt := by decide +kernel) :
    Row env where
  field := Bencode.tagged goName tag
  type := t
  val := v
  name := name
  tree := if opt ∧ isEmptyValue v then none else some x
  back := optBack opt t v back
  named := fieldOk_tagged htag
  short := (tagIs_spec htag).2.2.2.2.1
  writes addr := by
    rw [fieldEntry_tagged htag hv]
    by_cases he : opt = true ∧ isEmptyValue v = true
    · rw [if_pos he, if_pos he]; rfl
    · rw [if_neg he, if_neg he, (h he).writes]; rfl
  wf y hy := by
    by_cases he : opt = true ∧ isEmptyValue v = true
    · rw [if_pos he] at hy; cases hy
    · rw [if_neg he] at hy; cases hy; exact ⟨(h he).wf, (h he).scan⟩
  reads := by
    by_cases he : opt = true ∧ isEmptyValue v = true
    · exact .inl ⟨if_pos he, if_pos he⟩
    · exact .inr ⟨x, if_neg he, by rw [optBack, if_neg he]; exact (h he).reads⟩

theorem fieldOk_dash (goName : String) : FieldOk env (Bencode.tagged goName "-") ['-'] := by
  have hname : (parseTag "-".toList).1 = ['-'] := by decide +kernel
  refine ⟨rfl, rfl, ?_, cons_ne_nil _ _, isValidTag_of_asciiName (by decide)⟩
  rw [extractFieldName, tagGet_tagged]
  simp only [hname, if_pos (cons_ne_nil '-' [])]

def Row.dash (goName : String) (t : GoType) (v : GoVal) : Row env where
  field := Bencode.tagged goName "-"
  type := t
  val := v
  name := ['-']
  tree := none
  back := zero t
  named := fieldOk_dash goName
  short := by decide
  writes addr := by
    have htag : processFieldTag env (Bencode.tagged goName "-") v = none := by
      rw [processFieldTag, tagGet_tagged]
      rfl
    rw [fieldEntry.eq_def, htag]
    split_ifs <;> rfl
  wf _ hx := nomatch hx
  reads := .inl ⟨rfl, rfl⟩

theorem optBack_cases {P : GoVal → Prop} {opt : Bool} {v back : GoVal}
    (hzero : isEmptyValue v = true → P (zero t)) (hback : P back) : P (optBack opt t v back) := by
  rw [optBack]
  split_ifs with h
  · exact hzero h.2
  · exact hback

@[simp] theorem strOf_optBack (opt : Bool) (s : Bytes) :
    strOf (optBack opt .string (.str s) (.str s)) = s :=
  optBack_cases (P := (strOf · = s)) (fun h => (of_decide_eq_true h).symm) rfl

@[simp] theorem intOf_optBack (opt : Bool) (bits : ℕ) (i : ℤ) :
    intOf (optBack opt (.int bits) (.int i) (.int i)) = i :=
  optBack_cases (P := (intOf · = i)) (fun h => (of_decide_eq_true h).symm) rfl

theorem int64_optBack (i : Int64) :
    Int64.ofInt (intOf (optBack true (.int 64) (.int i.toInt) (.int i.toInt))) = i := by
  rw [intOf_optBack, Int64.ofInt_toInt]

@[simp] theorem uintOf_optBack (opt : Bool) (bits n : ℕ) :
    uintOf (optBack opt (.uint bits) (.uint n) (.uint n)) = n :=
  optBack_cases (P := (uintOf · = n)) (fun h => (of_decide_eq_true h).symm) rfl

@[simp] theorem boolOf_optBack (opt b : Bool) :
    boolOf (optBack opt .bool (.bool b) (.bool b)) = b :=
  optBack_cases (P := (boolOf · = b)) (fun h => (Bool.not_eq_true' b ▸ h : b = false).symm) rfl

@[simp] theorem valBytes_optBack (opt isNil : Bool) (b : Bytes) :
    valBytes (optBack opt (.slice (.uint 8)) (bytesGo isNil b) (bytesVal b)) = b := by
  refine optBack_cases (P := fun w => valBytes w = b) (fun h => ?_) (valBytes_bytesVal b)
  rw [map_eq_nil_iff.1 (isEmptyValue_sliceVal.1 h)]
  rfl

theorem elemsOf_optBack_sliceVal (opt isNil : Bool) (ht : t.under = .slice e) {vs : List GoVal}
    {back : GoVal} (h : vs = [] → (elemsOf back).1 = []) :
    (elemsOf (optBack opt t (sliceVal isNil vs) back)).1 = (elemsOf back).1 := by
  refine optBack_cases (P := fun w => (elemsOf w).1 = (elemsOf back).1) (fun he => ?_) rfl
  rw [h (isEmptyValue_sliceVal.1 he), zero_under, ht]
  rfl

theorem elemsOf_optBack (opt : Bool) (ht : t.under = .slice e) {vs sp back}
    (h : vs = [] → (elemsOf back).1 = []) :
    (elemsOf (optBack opt t (.slice vs sp) back)).1 = (elemsOf back).1 := by
  rw [optBack]
  split_ifs with he
  · rw [h (of_decide_eq_true he.2), zero_under, ht]; rfl
  · rfl

end GoI2pBt.Bencode
