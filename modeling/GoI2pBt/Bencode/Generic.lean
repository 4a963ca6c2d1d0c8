/-
  Values without types: what `interface{}` is written from and read as.
-/
import GoI2pBt.Bencode.Containers
import GoI2pBt.Bencode.Encode

namespace GoI2pBt.Bencode

open Bencode.Tree List

/-! ## Values -/

inductive Value where
  | int (i : ℤ)
  | str (s : Bytes)
  | list (items : List Value)
  | dict (entries : List (Bytes × Value))

namespace Value

mutual

def Valid : Value → Prop
  | .int i => -2 ^ 63 ≤ i ∧ i < 2 ^ 63
  | .str s => s.length < 2 ^ 31
  | .list vs => ValidItems vs
  | .dict es => KeysLt es ∧ ValidEntries es

def ValidItems : List Value → Prop
  | [] => True
  | v :: vs => v.Valid ∧ ValidItems vs

def ValidEntries : List (Bytes × Value) → Prop
  | [] => True
  | (k, v) :: es => k.length < 2 ^ 31 ∧ v.Valid ∧ ValidEntries es

end

mutual

def tree : Value → Tree
  | .int i => .int (formatInt i)
  | .str s => .str (formatUint s.length) s
  | .list vs => .list (trees vs)
  | .dict es => .dict (entryTrees es)

def trees : List Value → List Tree
  | [] => []
  | v :: vs => v.tree :: trees vs

def entryTrees : List (Bytes × Value) → List (Entry Tree)
  | [] => []
  | (k, v) :: es => ⟨formatUint k.length, k, v.tree⟩ :: entryTrees es

end

end Value

open Value

structure Generic where
  val : Value
  valid : val.Valid

mutual

def generic : GoVal → Option Value
  | .iface (.int 64) (.int i) => some (.int i)
  | .iface .string (.str s) => some (.str s)
  | .iface (.slice .iface) .nilSlice => some (.list [])
  | .iface (.slice .iface) (.slice es _) => (genericItems es).map .list
  | .iface (.map .iface) .nilMap => some (.dict [])
  | .iface (.map .iface) (.map es) => (genericEntries es).map .dict
  | _ => none

def genericItems : List GoVal → Option (List Value)
  | [] => some []
  | x :: xs =>
    match generic x, genericItems xs with
    | some v, some vs => some (v :: vs)
    | _, _ => none

def genericEntries : List (Bytes × GoVal) → Option (List (Bytes × Value))
  | [] => some []
  | (k, x) :: es =>
    match generic x, genericEntries es with
    | some v, some vs => some ((k, v) :: vs)
    | _, _ => none

end

/-! ## Reading off a value -/

theorem generic_eq_int {g i} (h : generic g = some (.int i)) : g = .iface (.int 64) (.int i) := by
  unfold generic at h
  split at h <;> simp at h
  · subst h; rfl

theorem generic_eq_str {g s} (h : generic g = some (.str s)) : g = .iface .string (.str s) := by
  unfold generic at h
  split at h <;> simp at h
  · subst h; rfl

theorem generic_eq_list {g vs} (h : generic g = some (.list vs)) :
    (g = .iface (.slice .iface) .nilSlice ∧ vs = []) ∨
      ∃ es sp, g = .iface (.slice .iface) (.slice es sp) ∧ genericItems es = some vs := by
  unfold generic at h
  split at h <;> simp at h
  · exact .inl ⟨rfl, h⟩
  · next es sp => exact .inr ⟨es, sp, rfl, h⟩

theorem generic_eq_dict {g vs} (h : generic g = some (.dict vs)) :
    (g = .iface (.map .iface) .nilMap ∧ vs = []) ∨
      ∃ es, g = .iface (.map .iface) (.map es) ∧ genericEntries es = some vs := by
  unfold generic at h
  split at h <;> simp at h
  · exact .inl ⟨rfl, h⟩
  · next es => exact .inr ⟨es, rfl, h⟩

theorem genericItems_cons {x xs vs} : genericItems (x :: xs) = some vs ↔
      ∃ w ws, vs = w :: ws ∧ generic x = some w ∧ genericItems xs = some ws := by
  rw [genericItems]
  cases generic x <;> cases genericItems xs <;> simp [eq_comm]

theorem genericItems_eq_nil {es} (h : genericItems es = some []) : es = [] := by
  cases es with
  | nil => rfl
  | cons x xs => obtain ⟨w, ws, hv, -⟩ := genericItems_cons.1 h; cases hv

theorem genericItems_eq_cons {es v vs} (h : genericItems es = some (v :: vs)) :
    ∃ x xs, es = x :: xs ∧ generic x = some v ∧ genericItems xs = some vs := by
  cases es with
  | nil => cases h
  | cons x xs =>
    obtain ⟨w, ws, hv, hx, hxs⟩ := genericItems_cons.1 h
    cases hv
    exact ⟨x, xs, rfl, hx, hxs⟩

theorem genericEntries_cons {k x xs vs} : genericEntries ((k, x) :: xs) = some vs ↔
      ∃ w ws, vs = (k, w) :: ws ∧ generic x = some w ∧ genericEntries xs = some ws := by
  rw [genericEntries]
  cases generic x <;> cases genericEntries xs <;> simp [eq_comm]

theorem genericEntries_eq_nil {es} (h : genericEntries es = some []) : es = [] := by
  cases es with
  | nil => rfl
  | cons e es => obtain ⟨w, ws, hv, -⟩ := genericEntries_cons.1 h; cases hv

theorem genericEntries_eq_cons {es k v vs} (h : genericEntries es = some ((k, v) :: vs)) :
    ∃ x xs, es = (k, x) :: xs ∧ generic x = some v ∧ genericEntries xs = some vs := by
  cases es with
  | nil => cases h
  | cons e xs =>
    obtain ⟨w, ws, hv, hx, hxs⟩ := genericEntries_cons.1 h
    cases hv
    exact ⟨e.2, xs, rfl, hx, hxs⟩

/-! ## Encoding -/

variable {env : Env}

def PlainType (t : GoType) : Prop := t = .int 64 ∨ t = .string ∨ t = .slice .iface ∨ t = .map .iface

theorem generic_eq_some {g v} (h : generic g = some v) : ∃ t x, g = .iface t x ∧ PlainType t := by
  unfold generic at h
  split at h <;> simp [PlainType] at h ⊢

theorem findMarshaler_plain {t : GoType} (ht : PlainType t) (addr : Bool) (x : GoVal) :
    findMarshaler env .iface addr (.iface t x) = none := by
  rcases ht with rfl | rfl | rfl | rfl <;> rfl

theorem encodeFrom_iface_plain {t : GoType} (ht : PlainType t) (addr : Bool) (x : GoVal) :
    encodeFrom env true true .iface addr (.iface t x) = encodeFrom env false true t false x := by
  rw [encodeFrom, findMarshaler_plain ht]; rfl

mutual

theorem encodeFrom_generic : ∀ (v : Value) {t : GoType} {x : GoVal} (checks : Bool),
    generic (.iface t x) = some v → v.Valid →
    encodeFrom env checks true t false x = .ok v.tree.bytes
  | .int i, t, x, checks, h, _ => by
    cases generic_eq_int h
    cases checks <;> rfl
  | .str s, t, x, checks, h, _ => by
    cases generic_eq_str h
    cases checks <;> rfl
  | .list vs, t, x, checks, h, hv => by
    rcases generic_eq_list h with ⟨hg, rfl⟩ | ⟨es, sp, hg, hes⟩
    · cases hg; cases checks <;> rfl
    · cases hg
      have := encodeElems_generic vs hes hv
      cases checks <;> simp [encodeFrom, orMarshaler, findMarshaler, GoType.isRawMessage,
        GoType.isBytes, GoType.elem, GoType.under, this, tree, bytes]
  | .dict vs, t, x, checks, h, hv => by
    rcases generic_eq_dict h with ⟨hg, rfl⟩ | ⟨es, hg, hes⟩
    · cases hg
      have : env.sort [] = [] := sort_of_keysLt Pairwise.nil
      cases checks <;> simp [encodeFrom, orMarshaler, findMarshaler, writeDict, this, writePairs,
        tree, entryTrees, bytes, entriesBytes]
    · cases hg
      obtain ⟨hk, hw⟩ := encodeEntries_generic vs hes hv.2
      have hsort : env.sort (encodeEntries env .iface es) = encodeEntries env .iface es :=
        sort_of_keysLt (by
          have := hv.1
          rw [KeysLt, ← pairwise_map (f := Prod.fst) (R := (· < ·))] at this ⊢
          rwa [hk])
      cases checks <;> simp [encodeFrom, orMarshaler, findMarshaler, GoType.elem, GoType.under,
        writeDict, hsort, hw, tree, bytes]

theorem encodeElems_generic : ∀ (vs : List Value) {es : List GoVal},
    genericItems es = some vs → ValidItems vs →
    encodeElems env .iface true es = .ok (itemsBytes (trees vs))
  | [], es, h, _ => by
    cases es with
    | nil => rfl
    | cons x xs => obtain ⟨w, ws, hv, -⟩ := genericItems_cons.1 h; cases hv
  | v :: vs, es, h, hv => by
    cases es with
    | nil => simp [genericItems] at h
    | cons x xs =>
      obtain ⟨w, ws, hvs, hx, hxs⟩ := genericItems_cons.1 h
      cases hvs
      obtain ⟨t, y, rfl, ht⟩ := generic_eq_some hx
      rw [encodeElems, encodeFrom_iface_plain ht, encodeFrom_generic v false hx hv.1,
        encodeElems_generic vs hxs hv.2]
      rfl

theorem encodeEntries_generic : ∀ (vs : List (Bytes × Value)) {es : List (Bytes × GoVal)},
    genericEntries es = some vs → ValidEntries vs →
    (encodeEntries env .iface es).map Prod.fst = vs.map Prod.fst ∧
      writePairs (encodeEntries env .iface es) = .ok (entriesBytes (entryTrees vs))
  | [], es, h, _ => by
    cases es with
    | nil => exact ⟨rfl, rfl⟩
    | cons x xs => obtain ⟨w, ws, hv, -⟩ := genericEntries_cons.1 h; cases hv
  | (k, v) :: vs, es, h, hv => by
    cases es with
    | nil => simp [genericEntries] at h
    | cons x xs =>
      obtain ⟨k', x⟩ := x
      obtain ⟨w, ws, hvs, hx, hxs⟩ := genericEntries_cons.1 h
      cases hvs
      obtain ⟨t, y, rfl, ht⟩ := generic_eq_some hx
      obtain ⟨hk, hw⟩ := encodeEntries_generic vs hxs hv.2.2
      rw [encodeEntries, if_neg (by simp [isNilValue])]
      rw [writePairs, encodeFrom_iface_plain ht, encodeFrom_generic v false hx hv.2.1, hw]
      simp [hk, encodeStr, entryTrees, entriesBytes]

end

/-! ## Decoding -/

mutual

theorem Value.Valid.wf : ∀ (v : Value), v.Valid → v.tree.WF
  | .int i, h => notMem_formatInt (by decide) (by decide) i
  | .str s, h => strOk_formatUint h
  | .list vs, h => ValidItems.wf vs h
  | .dict es, h => ValidEntries.wf es h.2

theorem Value.ValidItems.wf : ∀ (vs : List Value), ValidItems vs → WFItems (trees vs)
  | [], _ => trivial
  | v :: vs, h => ⟨Valid.wf v h.1, ValidItems.wf vs h.2⟩

theorem Value.ValidEntries.wf : ∀ (es : List (Bytes × Value)), ValidEntries es →
    WFEntries (entryTrees es)
  | [], _ => trivial
  | (_, v) :: es, h => ⟨strOk_formatUint h.1, Valid.wf v h.2.1, ValidEntries.wf es h.2.2⟩

end

theorem entryTrees_keys (es : List (Bytes × Value)) :
    (entryTrees es).map Entry.key = es.map Prod.fst := by
  induction es with
  | nil => rfl
  | cons e es ih => rw [entryTrees, map_cons, ih, map_cons]

mutual

theorem store_generic : ∀ (v : Value), v.Valid →
    ∃ w, store env .iface .nilIface true v.tree = .ok w ∧ generic w = some v
  | .int i, h => by
    refine ⟨.iface (.int 64) (.int i), ?_, rfl⟩
    have hp : parseInt 64 (formatInt i) = some i := parseInt_formatInt h.1 h.2
    rw [tree, store_iface_int, parseInt64, hp]; rfl
  | .str s, h => by
    refine ⟨.iface .string (.str s), ?_, rfl⟩
    rw [tree, store_iface_str, if_pos (digitFirst_formatUint _)]
  | .list vs, h => by
    obtain ⟨ws, hws, hg⟩ := storeAll_generic vs h
    have hs := storeItems_nil env .iface (trees vs)
    rw [hws, except_map_eq_ok] at hs
    obtain ⟨⟨xs, sp⟩, hs, rfl⟩ := hs
    refine ⟨_, by rw [tree, store_iface_list, hs, except_map_ok], ?_⟩
    cases xs with
    | nil => cases hg; rfl
    | cons x xs => simp only [sliceAfter, reduceCtorEq, if_false, generic, hg]; rfl
  | .dict es, h => by
    obtain ⟨ws, hws, hg⟩ := storeVals_generic es h.2
    have hkeys : KeysLt ws := by
      have := h.1
      rw [KeysLt, ← pairwise_map (f := Prod.fst) (R := (· < ·))] at this ⊢
      rwa [storeVals_keys hws, entryTrees_keys]
    refine ⟨.iface (.map .iface) (.map ws), ?_, by rw [generic, hg]; rfl⟩
    rw [tree, store_iface_dict, hws, except_map_ok, foldl_mapSet (m := []) hkeys, nil_append]

theorem storeAll_generic : ∀ (vs : List Value), ValidItems vs →
    ∃ ws, storeAll env .iface (trees vs) = .ok ws ∧ genericItems ws = some vs
  | [], _ => ⟨[], rfl, rfl⟩
  | v :: vs, h => by
    obtain ⟨w, hw, hg⟩ := store_generic v h.1
    obtain ⟨ws, hws, hgs⟩ := storeAll_generic vs h.2
    refine ⟨w :: ws, ?_, genericItems_cons.2 ⟨v, vs, rfl, hg, hgs⟩⟩
    rw [trees, storeAll, zero, hw, hws]; rfl

theorem storeVals_generic : ∀ (es : List (Bytes × Value)), ValidEntries es →
    ∃ ws, storeVals env .iface (entryTrees es) = .ok ws ∧ genericEntries ws = some es
  | [], _ => ⟨[], rfl, rfl⟩
  | (k, v) :: es, h => by
    obtain ⟨w, hw, hg⟩ := store_generic v h.2.1
    obtain ⟨ws, hws, hgs⟩ := storeVals_generic es h.2.2
    refine ⟨(k, w) :: ws, ?_, genericEntries_cons.2 ⟨v, es, rfl, hg, hgs⟩⟩
    rw [entryTrees, storeVals, zero, hw, hws]; rfl

end

theorem decodeBytes_generic (env : Env) {v} (h : v.Valid) :
    ∃ w, DecodeBytes env v.tree.bytes .iface .nilIface = .ok w ∧ generic w = some v := by
  obtain ⟨w, hw, hg⟩ : ∃ w, store env .iface .nilIface true v.tree = .ok w ∧ generic w = some v :=
    store_generic v h
  exact ⟨w, decodeBytes_ok_iff.2 ⟨v.tree, [], h.wf, by simp, hw⟩, hg⟩

/-- **What is encoded is decoded.** -/
theorem decode_encodeBytes (env : Env) {g : GoVal} (v : Generic) (hg : generic g = some v.val)
    (s : Bytes) :
    ∃ b w d', EncodeBytes env g = .ok b ∧
      Decode env .iface .nilIface (NewDecoder (b ++ s)) = .ok w d' ∧
      generic w = some v.val ∧ d'.n = b.length ∧ d'.r = s := by
  obtain ⟨t, x, rfl, -⟩ := generic_eq_some hg
  obtain ⟨w, hw, hgw⟩ : ∃ w, store env .iface .nilIface true v.val.tree = .ok w ∧
      generic w = some v.val := store_generic v.val v.valid
  have hr : (NewDecoder (v.val.tree.bytes ++ s)).r = v.val.tree.bytes ++ s := rfl
  have := meets_decode env .iface .nilIface (fresh_newDecoder _) (Value.Valid.wf v.val v.valid) hr
  rw [hw] at this
  obtain ⟨d', hd, hread⟩ := this
  refine ⟨v.val.tree.bytes, w, d', encodeFrom_generic v.val true hg v.valid, hd, hgw, ?_,
    hread.rest hr⟩
  rw [hread.n]; exact Nat.zero_add _

def sampleGeneric : Generic where
  val := .dict [([97], .list [.int (-1), .str []])]
  valid := by simp [Value.Valid, Value.ValidEntries, Value.ValidItems, KeysLt]

theorem decode_encodeBytes_sample :
    ∃ b w d', EncodeBytes bareEnv (.iface (.map .iface) (.map [([97], .iface (.slice .iface)
        (.slice [.iface (.int 64) (.int (-1)), .iface .string (.str [])] []))])) = .ok b ∧
      Decode bareEnv .iface .nilIface (NewDecoder (b ++ [ch 'e'])) = .ok w d' ∧
      generic w = some sampleGeneric.val ∧ d'.n = b.length ∧ d'.r = [ch 'e'] :=
  decode_encodeBytes bareEnv sampleGeneric rfl [ch 'e']

end GoI2pBt.Bencode
