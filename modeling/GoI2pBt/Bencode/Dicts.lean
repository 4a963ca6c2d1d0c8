/-
  Maps and slices that are written and read back.
-/
import GoI2pBt.Bencode.Codec

namespace GoI2pBt.Bencode

open List Bencode.Tree

variable {env : Env} {t e : GoType}

/-! ## Slices that are always written -/

theorem codec_sliceVal_always (ht : t.under = .slice e) (hn : NoMethods env t)
    (hb : t.isBytes = false) (isNil : Bool) {vs bs xs} (h : Codecs env e vs xs bs) :
    ∃ back, (elemsOf back).1 = bs ∧ Codec env t (sliceVal isNil vs) (.list xs) back := by
  obtain ⟨back, hback, hc⟩ := codec_slice ht hn hb [] h
  refine ⟨back, hback, ?_⟩
  by_cases hnil : isNil ∧ vs = []
  · rw [sliceVal, if_pos hnil]
    refine ⟨fun addr => ?_, hc.wf, hc.scan, hc.reads⟩
    have hr := notRaw ht nofun
    have hw := hc.writes addr
    rw [hnil.2, encodeFrom, findMarshaler_noMethods hn rfl, hr, hb] at hw
    rw [encodeFrom, findMarshaler_noMethods hn rfl, hr, hb]
    exact hw
  · rw [sliceVal, if_neg hnil]
    exact hc

theorem encodeFrom_bytesGo (isNil : Bool) (b : Bytes) (addr : Bool) :
    encodeFrom env true true (.slice (.uint 8)) addr (bytesGo isNil b) =
      .ok (Tree.str (formatUint b.length) b).bytes := by
  rw [bytesGo, sliceVal]
  split_ifs with hnil
  · obtain rfl := map_eq_nil_iff.1 hnil.2
    rfl
  · rw [encodeFrom, findMarshaler_noMethods (t := .slice (.uint 8)) trivial rfl]
    change Except.ok (encodeStr (valBytes (bytesVal b))) = _
    rw [valBytes_bytesVal]
    rfl

theorem codec_bytesGo_always (isNil : Bool) {b} (hb : b.length < 2 ^ 31) :
    Codec env (.slice (.uint 8)) (bytesGo isNil b) (.str (formatUint b.length) b) (bytesVal b) := by
  have hc : Codec env (.slice (.uint 8)) (bytesVal b) _ (bytesVal b) := codec_bytes hb
  exact ⟨encodeFrom_bytesGo isNil b, hc.wf, hc.scan, hc.reads⟩

/-! ## Maps -/

section Maps

variable {α : Type} {l : List (Bytes × α)} {val back : α → GoVal} {tree : α → Tree}

theorem encodeEntries_eq (hnil : ∀ p ∈ l, isNilValue (val p.2) = false)
    (h : ∀ p ∈ l, Codec env e (val p.2) (tree p.2) (back p.2)) :
    encodeEntries env e (l.map fun p => (p.1, val p.2)) =
      (l.map fun p => (p.1, tree p.2)).map fun p => (p.1, .ok p.2.bytes) := by
  induction l with
  | nil => rfl
  | cons p l ih =>
    rw [map_cons, encodeEntries, if_neg (ne_true_of_eq_false (hnil p mem_cons_self)),
      (h p mem_cons_self).writes, ih (fun p hp => hnil p (mem_cons_of_mem _ hp))
      fun p hp => h p (mem_cons_of_mem _ hp)]
    rfl

theorem storeVals_eq (h : ∀ p ∈ l, Codec env e (val p.2) (tree p.2) (back p.2)) :
    storeVals env e (l.map fun p => entryOf (p.1, tree p.2)) =
      .ok (l.map fun p => (p.1, back p.2)) := by
  induction l with
  | nil => rfl
  | cons p l ih =>
    rw [map_cons, entryOf, storeVals, (h p mem_cons_self).reads,
      ih fun p hp => h p (mem_cons_of_mem _ hp)]
    rfl

theorem scannableEntries_eq (h : ∀ p ∈ l, Codec env e (val p.2) (tree p.2) (back p.2)) :
    scannableEntries (l.map fun p => entryOf (p.1, tree p.2)) = true := by
  induction l with
  | nil => rfl
  | cons p l ih =>
    rw [map_cons, entryOf, scannableEntries, (h p mem_cons_self).scan,
      ih fun p hp => h p (mem_cons_of_mem _ hp)]
    rfl

theorem store_map (ht : t.under = .map e) (hn : NoMethods env t) {es} :
    store env t (zero t) true (.dict es) = (storeVals env e es).map fun ws =>
      .map (ws.foldl (fun m p => mapSet p.1 p.2 m) []) := by
  have hz : zero t = .nilMap := by rw [zero_under, ht]; rfl
  have hi : t.isIface = false := by rw [GoType.isIface.eq_def, ht]
  rw [store_noMethods hn (by rw [hz]; rfl) (notRaw ht nofun), hz]
  simp only [storeValue, storeDict, hi, Bool.false_eq_true, if_false, setupDictTarget, ht, if_true,
    except_ok_bind]
  exact storeEntries_map

theorem codec_map (ht : t.under = .map e) (hn : NoMethods env t) (hkeys : KeysLt l)
    (hshort : ∀ p ∈ l, p.1.length < 2 ^ 31) (hnil : ∀ p ∈ l, isNilValue (val p.2) = false)
    (h : ∀ p ∈ l, Codec env e (val p.2) (tree p.2) (back p.2)) :
    Codec env t (.map (l.map fun p => (p.1, val p.2)))
      (.dict (l.map fun p => entryOf (p.1, tree p.2))) (.map (l.map fun p => (p.1, back p.2))) where
  writes addr := by
    have hsort : KeysLt ((l.map fun p => (p.1, tree p.2)).map fun p =>
        (p.1, (Except.ok p.2.bytes : Except Error Bytes))) := by
      rw [KeysLt, map_map, pairwise_map]
      exact hkeys
    have he : t.elem = e := by rw [GoType.elem, ht]
    rw [encodeFrom, findMarshaler_noMethods hn rfl, he, encodeEntries_eq hnil h, orMarshaler,
      writeDict, sort_of_keysLt hsort, writePairs_trees, map_map]
    rfl
  wf := by
    refine wfEntries_iff.2 fun q hq => ?_
    obtain ⟨p, hp, rfl⟩ := mem_map.1 hq
    exact ⟨strOk_formatUint (hshort p hp), (h p hp).wf⟩
  scan := scannableEntries_eq h
  reads := by
    have hback : KeysLt (l.map fun p => (p.1, back p.2)) := by
      rw [KeysLt, pairwise_map]
      exact hkeys
    rw [store_map ht hn, storeVals_eq h, except_map_ok, foldl_mapSet (m := []) hback, nil_append]

def mapVal (isNil : Bool) (es : List (Bytes × GoVal)) : GoVal :=
  if isNil ∧ es = [] then .nilMap else .map es

theorem isNilValue_mapVal (isNil : Bool) (es : List (Bytes × GoVal)) :
    isNilValue (mapVal isNil es) = false := by
  unfold mapVal
  split_ifs <;> rfl

theorem codec_mapVal (val back : α → GoVal) (tree : α → Tree) (ht : t.under = .map e)
    (hn : NoMethods env t) (isNil : Bool) (hkeys : KeysLt l)
    (hshort : ∀ p ∈ l, p.1.length < 2 ^ 31) (hnil : ∀ p ∈ l, isNilValue (val p.2) = false)
    (h : ∀ p ∈ l, Codec env e (val p.2) (tree p.2) (back p.2)) :
    Codec env t (mapVal isNil (l.map fun p => (p.1, val p.2)))
      (.dict (l.map fun p => entryOf (p.1, tree p.2))) (.map (l.map fun p => (p.1, back p.2))) := by
  have hc := codec_map ht hn hkeys hshort hnil h
  rw [mapVal]
  split_ifs with hempty
  · obtain rfl := map_eq_nil_iff.1 hempty.2
    refine ⟨fun addr => ?_, hc.wf, hc.scan, hc.reads⟩
    rw [encodeFrom, findMarshaler_noMethods hn rfl, orMarshaler, writeDict,
      sort_of_keysLt Pairwise.nil]
    rfl
  · exact hc

end Maps

theorem readStruct_tagged {fs : List (Field × GoType)} {vs : List GoVal} {goName tag : String}
    {name : List Char} {v : GoVal} {x : Tree} {addr : Bool} (htag : tagIs tag name false)
    (hv : isNilValue v = false) (hx : encodeFrom env true true t addr v = .ok x.bytes) :
    readStruct env addr ((tagged goName tag, t) :: fs) (v :: vs) =
      (keyBytes name, .ok x.bytes) :: readStruct env addr fs vs := by
  rw [readStruct_cons, fieldEntry_tagged htag hv, if_neg (by simp), hx]
  rfl

/-! ## Strings that are too long to be read -/

theorem Tree.StrOk.eq_length {n c} (h : StrOk (formatUint n) c) : c.length = n := by
  have hn : parseInt (n + 1) (formatUint n) = some (n : ℤ) :=
    parseInt_formatUint (Nat.lt_two_pow_self)
  exact Int.ofNat_inj.1 (parseInt_unique h hn)

theorem Tree.WF.ne_long {x : Tree} (hx : x.WF) {f s r : Bytes} (hf : 2 ^ 31 ≤ f.length) :
    x.bytes ++ s ≠ (Tree.str (formatUint f.length) f).bytes ++ r := by
  intro he
  obtain ⟨b, l, hl, hdigit⟩ := formatUint_head f.length
  -- the text of any other tree begins with a letter
  have hletter : ∀ c : Char, ¬ IsDigit (ch c) → ∀ y : Bytes, ch c :: y ≠
      (Tree.str (formatUint f.length) f).bytes ++ r := by
    intro c hc y h
    rw [bytes, hl] at h
    exact hc ((cons.inj h).1 ▸ hdigit)
  cases x with
  | str len c =>
    simp only [bytes, append_assoc, cons_append] at he
    obtain ⟨rfl, -⟩ := append_delim_inj (StrOk.colon_notMem hx) (notMem_formatUint (by decide) _) he
    have hlt := StrOk.length_lt hx
    rw [StrOk.eq_length hx] at hlt
    omega
  | int ds => exact hletter 'i' (by decide) _ he
  | list ts => exact hletter 'l' (by decide) _ he
  | dict es => exact hletter 'd' (by decide) _ he

section

variable {es : List (Entry Tree)}
  (hes : ∀ e ∈ es, StrOk e.len e.key ∧ (e.val.WF ∨ ∃ f, e.val = .str (formatUint f.length) f))
include hes

theorem wf_of_entriesBytes {fs : List (Entry Tree)} {s s' : Bytes}
    (hfs : WFEntries fs) (h : entriesBytes fs ++ ch 'e' :: s = entriesBytes es ++ ch 'e' :: s') :
    ∀ e ∈ es, e.val.WF := by
  induction es generalizing fs with
  | nil => nofun
  | cons e es ih =>
    obtain ⟨hkey, hval⟩ := hes e mem_cons_self
    have hrest := fun e he => hes e (mem_cons_of_mem _ he)
    cases fs with
    | nil =>
      obtain ⟨b, l, hb, hne⟩ := StrOk.head hkey
      simp [entriesBytes, hb, Ne.symm hne] at h
    | cons e' fs =>
      obtain ⟨len', key', x⟩ := e'
      obtain ⟨len, key, y⟩ := e
      rw [entriesBytes_cons_end, entriesBytes_cons_end] at h
      simp only [append_assoc, cons_append] at h
      obtain ⟨rfl, rfl, hxy⟩ := StrOk.inj hfs.1 hkey h
      have hy : y.WF := by
        rcases hval with hy | ⟨f, rfl⟩
        · exact hy
        · rcases lt_or_ge f.length (2 ^ 31) with hf | hf
          · exact strOk_formatUint hf
          · exact absurd hxy (hfs.2.1.ne_long hf)
      obtain ⟨-, hrest'⟩ := bytes_inj hfs.2.1 hy hxy
      rintro e he
      rcases mem_cons.1 he with rfl | he
      · exact hy
      · exact ih hrest hfs.2.2 hrest' e he

theorem wf_of_dict {x : Tree} {s : Bytes}
    (hx : x.WF) (h : (Tree.dict es).bytes = x.bytes ++ s) : ∀ e ∈ es, e.val.WF := by
  cases x with
  | dict fs =>
    simp only [bytes, cons_append, append_assoc, nil_append, cons.injEq, true_and] at h
    exact wf_of_entriesBytes hes hx h.symm
  | int | list => exact absurd (cons.inj h).1 (by decide)
  | str len c =>
    obtain ⟨b, l, rfl, -, -, hb⟩ := StrOk.head_digit hx
    simp [bytes, Ne.symm hb] at h

end

end GoI2pBt.Bencode
