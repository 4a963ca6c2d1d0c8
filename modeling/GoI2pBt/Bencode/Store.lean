/-
  The decoder as a function of the tree of the text.
-/
import GoI2pBt.Bencode.Reads

namespace GoI2pBt.Bencode

open List Bencode.Tree

/-! ## Storing a tree -/

def atTarget (env : Env) (t : GoType) (old : GoVal) (addr : Bool) (tree : Tree)
    (k : RValue → Except Error GoVal) : Except Error GoVal :=
  let res := indirect env t old addr
  match res.target with
  | .panic => .error .panic
  | .unmarshaler u old =>
    if tree.scannable then (u old tree.bytes).map res.put else .error .invalidInput
  | .textUnmarshaler u old =>
    match tree with
    | .str _ c => (u old c).map res.put
    | _ => .error .invalidInput
  | .value (.mk .rawMessage old addr) =>
    if tree.scannable then ((RValue.mk .rawMessage old addr).set (bytesVal tree.bytes)).map res.put
    else .error .invalidInput
  | .value v => (k v).map res.put

def storeList (items : Bool → GoType → Bool → List GoVal × List GoVal →
    Except Error (List GoVal × List GoVal)) (v : RValue) : Except Error GoVal :=
  match v with
  | .invalid => .error .panic
  | .mk t old addr =>
    match t.under with
    | .iface => do
      let s ← items false .iface true ([], [])
      v.set (.iface (.slice .iface) (sliceAfter .nilSlice s))
    | .slice e => (items false e addr (elemsOf old)).map (sliceAfter old)
    | .array _ e => (items true e addr (elemsOf old)).map fun s => .array s.1
    | _ => .error (.cantStoreList t)

def storeDict (env : Env) (entries : DictTarget → GoType → Bool → GoVal → Except Error GoVal)
    (v : RValue) : Except Error GoVal :=
  match v with
  | .invalid => .error .panic
  | .mk t old addr =>
    if t.isIface then do
      let m ← entries (.map .iface) (.map .iface) true (.map [])
      v.set (.iface (.map .iface) m)
    else do
      let (tgt, cur) ← setupDictTarget env t old addr
      entries tgt t addr cur

def storePair (x : GoType → GoVal → Bool → Except Error GoVal) (tgt : DictTarget) (t : GoType)
    (addr : Bool) (key : Bytes) (cur : GoVal) : Except Error GoVal :=
  match tgt with
  | .map e => do
    let y ← x e (zero e) true
    match cur with
    | .map es => return .map (mapSet key y es)
    | _ => throw .panic
  | .struct vals =>
    match (lookupField vals key).bind fun path => (fieldAt path t cur).map (path, ·) with
    | some (path, t', v') => (x t' v' addr).map fun y => setFieldAt y path cur
    | none => (x .iface .nilIface true).map fun _ => cur

mutual

def store (env : Env) (t : GoType) (old : GoVal) (addr : Bool) : Tree → Except Error GoVal
  | .int ds => atTarget env t old addr (.int ds) fun v => assignIntegerValue v ds
  | .str len c => atTarget env t old addr (.str len c) fun v =>
      if digitFirst len then assignString v c else .error .invalidInput
  | .list ts => atTarget env t old addr (.list ts) <| storeList fun isArray e addr s =>
      storeItems env isArray e addr 0 s ts
  | .dict es => atTarget env t old addr (.dict es) <| storeDict env fun tgt t addr cur =>
      storeEntries env tgt t addr cur es

def storeItems (env : Env) (isArray : Bool) (e : GoType) (addr : Bool) (i : ℕ)
    (s : List GoVal × List GoVal) : List Tree → Except Error (List GoVal × List GoVal)
  | [] => .ok s
  | t :: ts => do
    let s ← ensureSliceCapacity isArray e addr i s
    let x ← store env e (s.1.getD i (zero e)) (addr || !isArray) t
    storeItems env isArray e addr (i + 1) (s.1.set i x, s.2) ts

def storeEntries (env : Env) (tgt : DictTarget) (t : GoType) (addr : Bool) (cur : GoVal) :
    List (Entry Tree) → Except Error GoVal
  | [] => .ok cur
  | ⟨_, key, x⟩ :: es => do
    let cur ← storePair (fun t old addr => store env t old addr x) tgt t addr key cur
    storeEntries env tgt t addr cur es

end

def storeValue (env : Env) (v : RValue) : Tree → Except Error GoVal
  | .int ds => assignIntegerValue v ds
  | .str len c => if digitFirst len then assignString v c else .error .invalidInput
  | .list ts => storeList (fun isArray e addr s => storeItems env isArray e addr 0 s ts) v
  | .dict es => storeDict env (fun tgt t addr cur => storeEntries env tgt t addr cur es) v

theorem store_eq (env : Env) (t : GoType) (old : GoVal) (addr : Bool) (tree : Tree) :
    store env t old addr tree = atTarget env t old addr tree fun v => storeValue env v tree := by
  cases tree <;> rfl

/-! ## At the start of a text -/

structure At (raw : Bool) (d : Decoder) (p s : Bytes) : Prop where
  raw : d.raw = raw
  ord : d.failUnordered = false
  r : d.r = p ++ s

theorem At.next {raw d d' p q s} (h : At raw d (p ++ q) s) (hr : Reads d p d') : At raw d' q s :=
  ⟨hr.raw.trans h.raw, hr.failUnordered.trans h.ord, hr.rest (by rw [h.r, append_assoc])⟩

theorem At.head {raw d p q s} (h : At raw d (p ++ q) s) :
    At raw d p (q ++ s) := ⟨h.raw, h.ord, by rw [h.r, append_assoc]⟩

variable {env : Env} {dec : RValue → DecodeM GoVal} {d : Decoder} {fuel : ℕ} {v : RValue}
  {s r : Bytes} {raw : Bool}

theorem dispatch_int (h : d.r = ch 'i' :: r) :
    dispatchDecodeByType env dec fuel v d = decodeInt v d := by
  rw [dispatchDecodeByType, peekByte_bind h]; rfl

theorem dispatch_list (h : d.r = ch 'l' :: r) :
    dispatchDecodeByType env dec fuel v d = decodeList dec fuel v d := by
  rw [dispatchDecodeByType, peekByte_bind h]; rfl

theorem dispatch_dict (h : d.r = ch 'd' :: r) :
    dispatchDecodeByType env dec fuel v d = decodeDict env dec fuel v d := by
  rw [dispatchDecodeByType, peekByte_bind h]; rfl

theorem dispatch_str (env : Env) (dec : RValue → DecodeM GoVal) (fuel : ℕ) (v : RValue)
    {len c} (hs : StrOk len c) (h : d.r = len ++ r) :
    dispatchDecodeByType env dec fuel v d =
      if digitFirst len then decodeString v d else .error .invalidInput d := by
  obtain ⟨b, l, rfl, hi, hl, hd⟩ := hs.head_digit
  rw [dispatchDecodeByType, peekByte_bind h, if_neg hi, if_neg hl, if_neg hd]
  by_cases hb : IsDigit b <;> simp [digitFirst, hb]

/-! ## Raw mode -/

def scanned (ok : Bool) : Except Error GoVal := if ok then .ok .nilIface else .error .invalidInput

theorem scanned_and (a b : Bool) : (scanned a >>= fun _ => scanned b) = scanned (a && b) := by
  cases a <;> rfl

theorem meets_decodeString_raw {len c} (hs : StrOk len c) (h : At true d (len ++ ch ':' :: c) s) :
    Meets reading (decodeString v) d (len ++ ch ':' :: c) (.ok .nilIface) := by
  have hr : d.r = len ++ ch ':' :: (c ++ s) := by rw [h.r]; simp
  rw [← append_nil (len ++ ch ':' :: c)]
  refine (meets_readString hs hr).step fun d1 h1 => Meets.skip (get_apply d1) (meets_of_eq ?_)
  simp [h1.raw.trans h.raw]

theorem At.not_end {p q} (h : At raw d (p ++ q) s)
    (hp : ∃ b r, p = b :: r ∧ b ≠ ch 'e') : checkDictEnd d = .ok false d := by
  obtain ⟨b, r, rfl, hb⟩ := hp
  exact checkDictEnd_false (by rw [h.r]; rfl) hb

theorem StrOk.not_end {len c} (hs : StrOk len c) :
    ∃ b r, len ++ ch ':' :: c = b :: r ∧ b ≠ ch 'e' := by
  obtain ⟨b, l, rfl, hb⟩ := hs.head
  exact ⟨b, _, rfl, hb⟩

theorem meets_rawList {ts} (hw : WFItems ts) (ih : ∀ t ∈ ts, ∀ d s, At true d t.bytes s →
      Meets reading (dec .invalid) d t.bytes (scanned t.scannable))
    (hf : ts.length < fuel) (h : At true d (itemsBytes ts ++ [ch 'e']) s) :
    Meets reading (processListInRawMode dec fuel) d (itemsBytes ts ++ [ch 'e'])
      (scanned (scannableItems ts)) := by
  induction fuel generalizing d ts with
  | zero => omega
  | succ fuel ihf =>
    rw [processListInRawMode, peekByte_bind_end]
    cases ts with
    | nil => exact (meets_checkDictEnd_true h.r).step (q := []) fun d1 _ => meets_pure _ d1
    | cons t ts =>
      rw [itemsBytes_cons_end] at h ⊢
      rw [scannableItems, ← scanned_and]
      refine Meets.skip (h.not_end hw.1.head) ?_
      refine (ih t mem_cons_self d _ h.head).bind fun a d1 _ h1 => ?_
      exact ihf hw.2 (fun t ht => ih t (mem_cons_of_mem _ ht)) (by simpa using hf) (h.next h1)

theorem meets_rawDict {es} (hw : WFEntries es) (ih : ∀ e ∈ es, ∀ d s, At true d e.val.bytes s →
      Meets reading (dec .invalid) d e.val.bytes (scanned e.val.scannable))
    (hf : es.length < fuel) (h : At true d (entriesBytes es ++ [ch 'e']) s) :
    Meets reading (processDictInRawMode dec fuel) d (entriesBytes es ++ [ch 'e'])
      (scanned (scannableEntries es)) := by
  induction fuel generalizing d es with
  | zero => omega
  | succ fuel ihf =>
    rw [processDictInRawMode, peekByte_bind_end]
    cases es with
    | nil => exact (meets_checkDictEnd_true h.r).step (q := []) fun d1 _ => meets_pure _ d1
    | cons e es =>
      obtain ⟨len, key, t⟩ := e
      rw [entriesBytes_cons_end] at h ⊢
      rw [scannableEntries, ← scanned_and]
      refine Meets.skip (h.not_end (StrOk.not_end hw.1)) ?_
      refine (meets_decodeString_raw hw.1 h.head).step fun d1 h1 => ?_
      have h1 := h.next h1
      refine (ih _ mem_cons_self d1 _ h1.head).bind fun a d2 _ h2 => ?_
      exact ihf hw.2.2 (fun t ht => ih t (mem_cons_of_mem _ ht)) (by simpa using hf)
        (h1.next h2)

theorem WFItems.length_lt {ts} (h : WFItems ts) : ts.length ≤ (itemsBytes ts).length := by
  induction ts with
  | nil => simp
  | cons t ts ih =>
    have := h.1.bytes_pos
    have := ih h.2
    simp only [itemsBytes, length_append, length_cons]; omega

theorem WFEntries.length_lt {es} (h : WFEntries es) : es.length ≤ (entriesBytes es).length := by
  induction es with
  | nil => simp
  | cons e es ih =>
    have := ih h.2.2
    simp only [entriesBytes, length_append, length_cons]; omega

theorem meets_dispatch_raw
    (ih : ∀ (t : Tree) d s, t.WF → t.bytes.length ≤ fuel → At true d t.bytes s →
      Meets reading (dec .invalid) d t.bytes (scanned t.scannable))
    {t : Tree} (hw : t.WF) (hf : t.bytes.length ≤ fuel + 1) (h : At true d t.bytes s) :
    Meets reading (dispatchDecodeByType env dec fuel .invalid) d t.bytes (scanned t.scannable) := by
  cases t with
  | int ds =>
    have hd := h.r
    simp only [bytes, cons_append, append_assoc, nil_append] at hd
    refine Meets.congr (dispatch_int hd) ?_
    rw [← append_nil (Tree.int ds).bytes]
    exact (meets_readIntegerDigits hw hd).step fun d1 _ => meets_pure GoVal.nilIface d1
  | str len c =>
    have hd := h.r
    simp only [bytes, append_assoc] at hd
    have hdis := dispatch_str env dec fuel .invalid hw hd
    rw [scannable]
    cases hl : digitFirst len with
    | false => rw [hl] at hdis; exact ⟨_, _, hdis⟩
    | true => rw [hl] at hdis; exact (meets_decodeString_raw hw h).congr hdis
  | list ts =>
    have hd := h.r
    simp only [bytes, cons_append] at hd
    have hlen : (itemsBytes ts).length + 1 ≤ fuel := by simpa [bytes] using hf
    refine Meets.congr (dispatch_list hd) ?_
    refine Meets.skip (get_apply d) ?_
    rw [if_pos h.raw]
    refine (meets_consumeToken hd).step fun d1 h1 => ?_
    refine meets_rawList hw (fun t ht d s => ih t d s (wfItems_iff.1 hw t ht) ?_) ?_
      (At.next (p := [ch 'l']) h h1)
    · have := length_mem_items ht; omega
    · have := WFItems.length_lt hw; omega
  | dict es =>
    have hd := h.r
    simp only [bytes, cons_append] at hd
    have hlen : (entriesBytes es).length + 1 ≤ fuel := by simpa [bytes] using hf
    refine Meets.congr (dispatch_dict hd) ?_
    refine Meets.skip (get_apply d) ?_
    rw [if_pos h.raw]
    refine (meets_consumeToken hd).step fun d1 h1 => ?_
    refine meets_rawDict hw (fun e he d s => ih e.val d s (wfEntries_iff.1 hw e he).2 ?_) ?_
      (At.next (p := [ch 'd']) h h1)
    · have := length_mem_entries he; omega
    · have := WFEntries.length_lt hw; omega

theorem decodeInto_of_raw (h : d.raw = true) :
    decodeInto env (fuel + 1) v d = dispatchDecodeByType env (decodeInto env fuel) fuel v d := by
  rw [decodeInto.eq_def]
  dsimp only
  rw [get_bind, if_pos h]

theorem meets_decodeInto_raw : ∀ (fuel : ℕ) (t : Tree) (d : Decoder) (s : Bytes), t.WF →
    t.bytes.length ≤ fuel → At true d t.bytes s →
    Meets reading (decodeInto env fuel .invalid) d t.bytes (scanned t.scannable)
  | 0, _, _, _, hw, _, _ => by have := hw.bytes_pos; omega
  | fuel + 1, t, d, s, hw, hf, h =>
    (meets_dispatch_raw (meets_decodeInto_raw fuel) hw hf h).congr (decodeInto_of_raw h.raw)

theorem meets_decodeRaw {t : Tree} (hw : t.WF) (hf : t.bytes.length ≤ fuel + 1)
    (h : At false d t.bytes s) :
    Meets reading (decodeRaw env (decodeInto env fuel) fuel) d t.bytes
      (if t.scannable then .ok t.bytes else .error .invalidInput) := by
  have : Meets reading (dispatchDecodeByType env (decodeInto env fuel) fuel .invalid)
      { d with buf := [], raw := true } t.bytes (scanned t.scannable) :=
    meets_dispatch_raw (meets_decodeInto_raw fuel) hw hf ⟨rfl, h.ord, h.r⟩
  cases hs : t.scannable with
  | false =>
    rw [hs] at this
    obtain ⟨e, d', he⟩ := this
    exact ⟨e, { d' with raw := false }, by simp only [decodeRaw, he]⟩
  | true =>
    rw [hs] at this
    obtain ⟨d', hd, hr⟩ := this
    have hb : d'.buf = t.bytes := hr.buf rfl
    refine ⟨{ d' with raw := false }, by simp [decodeRaw, hd, hb], ?_⟩
    exact ⟨hr.r, hr.n, h.raw.symm, hr.failUnordered, fun hd => by simp [h.raw] at hd⟩

/-! ## Values -/

variable {t : GoType} {old : GoVal} {addr : Bool}

def DecOk (env : Env) (dec : RValue → DecodeM GoVal) (t : Tree) : Prop :=
  ∀ ty old addr d s, At false d t.bytes s →
    Meets reading (dec (.mk ty old addr)) d t.bytes (store env ty old addr t)

theorem meets_processListElements {ts isArray} {e : GoType}
    (hw : WFItems ts) (ih : ∀ t ∈ ts, DecOk env dec t) {i xs}
    (hf : ts.length < fuel) (h : At false d (itemsBytes ts ++ [ch 'e']) s) :
    Meets reading (processListElements dec isArray e addr fuel i xs) d
      (itemsBytes ts ++ [ch 'e']) (storeItems env isArray e addr i xs ts) := by
  induction fuel generalizing d ts i xs with
  | zero => omega
  | succ fuel ihf =>
    rw [processListElements, peekByte_bind_end]
    cases ts with
    | nil => exact (meets_checkDictEnd_true h.r).step (q := []) fun d1 _ => meets_pure _ d1
    | cons t ts =>
      rw [itemsBytes_cons_end] at h ⊢
      rw [storeItems]
      refine Meets.skip (h.not_end hw.1.head) ?_
      refine (meets_lift _ d).bind (q := t.bytes ++ _) fun xs d1 _ h1 => ?_
      have h1 := At.next (p := []) h h1
      refine (ih t mem_cons_self _ _ _ d1 _ h1.head).bind fun x d2 _ h2 => ?_
      exact ihf hw.2 (fun t ht => ih t (mem_cons_of_mem _ ht)) (by simpa using hf)
        (h1.next h2)

theorem meets_handleKeyValuePair {x} (hx : DecOk env dec x) {tgt key cur} (h : At false d x.bytes s)
    :
    Meets reading (handleKeyValuePair dec tgt t addr key cur) d x.bytes
      (storePair (fun t old addr => store env t old addr x) tgt t addr key cur) := by
  cases tgt with
  | map e =>
    rw [← append_nil x.bytes]
    refine (hx _ _ _ d s h).bind fun y d1 _ _ => ?_
    cases cur with
    | map es => exact meets_pure _ d1
    | _ => exact meets_throw _ _ _ _
  | struct vals =>
    cases hf : (lookupField vals key).bind fun path => (fieldAt path t cur).map (path, ·) with
    | none | some => simpa only [handleKeyValuePair, storePair, hf] using (hx _ _ _ d s h).map

theorem processNextDictKey_of_ord {d1 last key}
    (h : readString d = .ok key d1) (ho : d1.failUnordered = false) :
    processNextDictKey last d = .ok key d1 := by
  rw [processNextDictKey, bind_of_ok h]
  cases last with
  | none => rfl
  | some k => exact (get_bind _ d1).trans (by simp [ho])

theorem meets_processDictKeyValuePairs {es tgt}
    (hw : WFEntries es) (ih : ∀ e ∈ es, DecOk env dec e.val) {last cur}
    (hf : es.length < fuel) (h : At false d (entriesBytes es ++ [ch 'e']) s) :
    Meets reading (processDictKeyValuePairs dec tgt t addr fuel last cur) d
      (entriesBytes es ++ [ch 'e']) (storeEntries env tgt t addr cur es) := by
  induction fuel generalizing d es last cur with
  | zero => omega
  | succ fuel ihf =>
    rw [processDictKeyValuePairs]
    cases es with
    | nil => exact (meets_checkDictEnd_true h.r).step (q := []) fun d1 _ => meets_pure _ d1
    | cons e es =>
      obtain ⟨len, key, x⟩ := e
      rw [entriesBytes_cons_end] at h ⊢
      rw [storeEntries]
      refine Meets.skip (h.not_end (StrOk.not_end hw.1)) ?_
      have hkey : Meets reading (processNextDictKey last) d (len ++ ch ':' :: key) (.ok key) := by
        obtain ⟨d1, h1, hr⟩ := meets_readString hw.1 (by simpa using h.r)
        exact ⟨d1, processNextDictKey_of_ord h1 (hr.failUnordered.trans h.ord), hr⟩
      refine hkey.step fun d1 h1 => ?_
      have h1 := h.next h1
      refine (meets_handleKeyValuePair (ih _ mem_cons_self) h1.head).bind fun cur d2 _ h2 => ?_
      exact ihf hw.2.2 (fun t ht => ih t (mem_cons_of_mem _ ht)) (by simpa using hf)
        (h1.next h2)

theorem meets_decodeList {ts} (hw : WFItems ts) (ih : ∀ t ∈ ts, DecOk env dec t)
    (hf : ts.length < fuel) (h : At false d (Tree.list ts).bytes s) :
    Meets reading (decodeList dec fuel v) d (Tree.list ts).bytes
      (storeList (fun isArray e addr s => storeItems env isArray e addr 0 s ts) v) := by
  have hd : d.r = ch 'l' :: (itemsBytes ts ++ [ch 'e'] ++ s) := by rw [h.r]; rfl
  refine Meets.skip (get_apply d) ?_
  rw [if_neg (by simp [h.raw])]
  have loop : ∀ isArray e addr xs d1, Reads d [ch 'l'] d1 →
      Meets reading (processListElements dec isArray e addr fuel 0 xs) d1
        (itemsBytes ts ++ [ch 'e']) (storeItems env isArray e addr 0 xs ts) :=
    fun isArray e addr xs d1 h1 => meets_processListElements hw ih hf (At.next (p := [ch 'l']) h h1)
  cases v with
  | invalid => exact meets_throw _ _ _ _
  | mk t old addr =>
    simp only [storeList]
    cases hu : t.under with
    | iface =>
      refine (meets_consumeToken hd).step (q := itemsBytes ts ++ [ch 'e']) fun d1 h1 => ?_
      rw [← append_nil (itemsBytes ts ++ [ch 'e'])]
      exact (loop _ _ _ _ d1 h1).bind fun xs d2 _ _ => meets_lift _ d2
    | slice | array => exact (meets_consumeToken hd).step fun d1 h1 => (loop _ _ _ _ d1 h1).map
    | _ => exact meets_throw _ _ _ _

theorem meets_decodeDict {es} (hw : WFEntries es) (ih : ∀ e ∈ es, DecOk env dec e.val)
    (hf : es.length < fuel) (h : At false d (Tree.dict es).bytes s) :
    Meets reading (decodeDict env dec fuel v) d (Tree.dict es).bytes
      (storeDict env (fun tgt t addr cur => storeEntries env tgt t addr cur es) v) := by
  have hd : d.r = ch 'd' :: (entriesBytes es ++ [ch 'e'] ++ s) := by rw [h.r]; rfl
  refine Meets.skip (get_apply d) ?_
  rw [if_neg (by simp [h.raw])]
  cases v with
  | invalid => exact meets_throw _ _ _ _
  | mk t old addr =>
    refine (meets_consumeToken hd).step (q := entriesBytes es ++ [ch 'e']) fun d1 h1 => ?_
    have h1 := At.next (p := [ch 'd']) h h1
    simp only [storeDict]
    cases t.isIface with
    | true =>
      rw [← append_nil (entriesBytes es ++ [ch 'e'])]
      exact (meets_processDictKeyValuePairs hw ih hf h1).bind fun m d2 _ _ => meets_lift _ d2
    | false =>
      refine (meets_lift _ d1).bind (q := entriesBytes es ++ [ch 'e']) fun tc d2 _ h2 => ?_
      exact meets_processDictKeyValuePairs hw ih hf (At.next (p := []) h1 h2)

theorem meets_dispatch (ih : ∀ t : Tree, t.WF → t.bytes.length < fuel → DecOk env dec t)
    {t} (hw : t.WF) (hf : t.bytes.length ≤ fuel) (h : At false d t.bytes s) :
    Meets reading (dispatchDecodeByType env dec fuel v) d t.bytes (storeValue env v t) := by
  cases t with
  | int ds =>
    have hd := h.r
    simp only [bytes, cons_append, append_assoc, nil_append] at hd
    refine Meets.congr (dispatch_int hd) ?_
    have hds := meets_readIntegerDigits hw hd
    rw [h.raw] at hds
    rw [← append_nil (Tree.int ds).bytes]
    exact hds.step fun d1 _ => meets_lift _ d1
  | str len c =>
    have hd := h.r
    simp only [bytes, append_assoc] at hd
    have hdis := dispatch_str env dec fuel v hw hd
    rw [storeValue]
    cases hl : digitFirst len with
    | false => rw [hl] at hdis; exact ⟨_, _, hdis⟩
    | true =>
      rw [hl, if_pos rfl] at hdis
      refine Meets.congr hdis ?_
      rw [← append_nil (Tree.str len c).bytes]
      refine (meets_readString hw (by simpa using hd)).step fun d1 h1 => ?_
      refine Meets.skip (get_apply d1) ?_
      rw [if_neg (by simp [h1.raw.trans h.raw])]
      exact meets_lift _ d1
  | list ts =>
    have hd := h.r
    have hlen : (itemsBytes ts).length + 1 < fuel := by simpa [bytes] using hf
    refine Meets.congr (dispatch_list hd) ?_
    refine meets_decodeList hw (fun t ht => ih t (wfItems_iff.1 hw t ht) ?_) ?_ h
    · have := length_mem_items ht; omega
    · have := WFItems.length_lt hw; omega
  | dict es =>
    have hd := h.r
    have hlen : (entriesBytes es).length + 1 < fuel := by simpa [bytes] using hf
    refine Meets.congr (dispatch_dict hd) ?_
    refine meets_decodeDict hw (fun e he => ih e.val (wfEntries_iff.1 hw e he).2 ?_) ?_ h
    · have := length_mem_entries he; omega
    · have := WFEntries.length_lt hw; omega

theorem decodeInto_of_not_raw (h : d.raw = false) : decodeInto env (fuel + 1) (.mk t old addr) d =
      (match (indirect env t old addr).target with
        | .panic => throw .panic
        | .unmarshaler u x => do
          let y ← decodeInto env fuel (.mk .rawMessage .nilSlice true)
          return (indirect env t old addr).put (← lift (u x (valBytes y)))
        | .textUnmarshaler u x => do
          let y ← readString
          return (indirect env t old addr).put (← lift (u x y))
        | .value (.mk .rawMessage x addr') => do
          let y ← decodeRaw env (decodeInto env fuel) fuel
          return (indirect env t old addr).put
            (← lift (RValue.set (.mk .rawMessage x addr') (bytesVal y)))
        | .value v => do
          return (indirect env t old addr).put
            (← dispatchDecodeByType env (decodeInto env fuel) fuel v) : DecodeM GoVal) d := by
  have hraw : ¬ d.raw = true := by simp [h]
  rw [decodeInto.eq_def]
  dsimp only
  exact (get_bind _ d).trans (congrFun (if_neg hraw) d)

theorem meets_decodeInto_rawMessage {t : Tree} (hw : t.WF) (hf : t.bytes.length ≤ fuel)
    (h : At false d t.bytes s) :
    Meets reading (decodeInto env fuel (.mk .rawMessage .nilSlice true)) d t.bytes
      (if t.scannable then .ok (bytesVal t.bytes) else .error .invalidInput) := by
  obtain ⟨fuel, rfl⟩ := Nat.exists_eq_add_one.2 (hw.bytes_pos.trans_le hf)
  refine Meets.congr (decodeInto_of_not_raw h.raw) ?_
  exact Meets.guard (x := decodeRaw env (decodeInto env fuel) fuel) (meets_decodeRaw hw hf h)
    fun d1 _ => meets_pure (bytesVal t.bytes) d1

theorem readString_error {t : Tree} (hw : t.WF) (ht : ∀ len c, t ≠ .str len c)
    (h : At raw d t.bytes s) : ∃ e d', readString d = .error e d' := by
  cases hr : readString d with
  | error e d' => exact ⟨e, d', rfl⟩
  | ok c d' =>
    obtain ⟨p, ⟨hp, -⟩, len, hs, rfl⟩ := accepts_readString.ok hr
    have e : t.bytes ++ s = (Tree.str len c).bytes ++ d'.r := h.r.symm.trans hp
    exact absurd (bytes_inj hw (show (Tree.str len c).WF from hs) e).1 (ht len c)

theorem meets_decodeInto : ∀ (fuel : ℕ) (t : Tree), t.WF → t.bytes.length < fuel →
    DecOk env (decodeInto env fuel) t
  | 0, _, _, _ => by omega
  | fuel + 1, t, hw, _ => by
    intro ty old addr d s h
    refine Meets.congr (decodeInto_of_not_raw h.raw) ?_
    rw [store_eq, atTarget]
    generalize indirect env ty old addr = res
    obtain ⟨target, put⟩ := res
    have hlen : t.bytes.length ≤ fuel := by omega
    cases target with
    | panic => exact meets_throw _ _ _ _
    | unmarshaler u x =>
      refine (meets_decodeInto_rawMessage hw hlen h).guard fun d1 _ => ?_
      rw [valBytes_bytesVal]
      exact (meets_lift _ d1).map
    | textUnmarshaler u x =>
      by_cases ht : ∃ len c, t = .str len c
      · obtain ⟨len, c, rfl⟩ := ht
        rw [← append_nil (Tree.str len c).bytes]
        have hd : d.r = len ++ ch ':' :: (c ++ s) := by rw [h.r]; simp [bytes]
        exact (meets_readString hw hd).step fun d1 _ => (meets_lift _ d1).map
      · obtain ⟨e, d', he⟩ := readString_error hw (fun len c hc => ht ⟨len, c, hc⟩) h
        cases t with
        | str len c => exact absurd ⟨len, c, rfl⟩ ht
        | _ => exact ⟨e, d', bind_of_error he⟩
    | value v =>
      have hval : Meets reading (do
          return put (← dispatchDecodeByType env (decodeInto env fuel) fuel v)) d t.bytes
          ((storeValue env v t).map put) :=
        (meets_dispatch (fun t => meets_decodeInto fuel t) hw hlen h).map
      match v with
      | .mk .rawMessage x addr' =>
        exact (meets_decodeRaw hw (Nat.le_succ_of_le hlen) h).guard fun d1 _ =>
          (meets_lift _ d1).map
      | .invalid => exact hval
      | .mk .bool _ _ | .mk (.int _) _ _ | .mk (.uint _) _ _ | .mk .string _ _ | .mk .iface _ _
      | .mk (.ptr _) _ _ | .mk (.slice _) _ _ | .mk (.array _ _) _ _ | .mk (.map _) _ _
      | .mk (.struct _) _ _ | .mk (.named _ _) _ _ => exact hval

end GoI2pBt.Bencode
