/-
  Structs with tagged fields, written and read back.
-/
import GoI2pBt.Bencode.Containers
import GoI2pBt.Bencode.Encode

namespace GoI2pBt.Bencode

open List Bencode.Tree

variable {env : Env} {t : GoType} {fs : List (Field × GoType)} {addr : Bool}

/-! ## Types without methods -/

def NoMethods (env : Env) : GoType → Prop
  | .named name _ => env.methods name = {}
  | _ => True

def direct : GoVal → Bool
  | .nilPtr | .ptr _ | .nilIface | .iface _ _ => false
  | _ => true

theorem findMarshaler_noMethods (h : NoMethods env t) {v} (hv : direct v = true)
    (addr : Bool) : findMarshaler env t addr v = none := by
  rw [findMarshaler.eq_def]
  split
  · rfl
  · cases hv
  · cases hv
  · cases hv
  · cases hv
  · split
    · rw [NoMethods] at h
      rw [h]; rfl
    · rfl

theorem indirect_noMethods (h : NoMethods env t) {v} (hv : direct v = true) :
    indirect env t v true = ⟨.value (.mk t v true), id⟩ := by
  have hc : checkUnmarshalers env t v = none := by
    rw [checkUnmarshalers.eq_def]
    split
    · rw [NoMethods] at h
      rw [h]
    · rfl
  rw [indirect.eq_def, if_pos rfl, hc]
  cases v <;> first | rfl | cases hv

theorem zero_under (t : GoType) : zero t = zero t.under := by
  induction t using GoType.under.induct with
  | case1 name t ih => rw [zero, GoType.under, ih]
  | case2 t ht => rw [GoType.under.eq_2 t ht]

theorem store_noMethods (h : NoMethods env t) {old} (hd : direct old = true)
    (hr : t.isRawMessage = false) (x : Tree) :
    store env t old true x = storeValue env (.mk t old true) x := by
  have hid : ∀ y : Except Error GoVal, y.map id = y := fun y => by cases y <;> rfl
  rw [store_eq, atTarget, indirect_noMethods h hd]
  cases t <;> first | exact hid _ | cases hr

theorem notRaw {u : GoType} (ht : t.under = u) (hu : u ≠ .rawMessage) : t.isRawMessage = false := by
  cases t <;> first | rfl | exact absurd ht.symm hu

/-! ## Decoding -/

structure Flat (env : Env) (t : GoType) (fs : List (Field × GoType)) : Prop where
  under : t.under = .struct fs
  path : ∀ p ∈ setStructValues env [] t, ∃ i, p.2 = [i] ∧ i < fs.length
  inj : ∀ p ∈ setStructValues env [] t, ∀ q ∈ setStructValues env [] t, p.2 = q.2 → p.1 = q.1

theorem lookupField_mem {vals key path}
    (h : lookupField vals key = some path) : (key, path) ∈ vals := by
  rw [lookupField, Option.map_eq_some_iff] at h
  obtain ⟨⟨k, p⟩, hf, rfl⟩ := h
  have hk := find?_some hf
  have hm := mem_reverse.1 (mem_of_find?_eq_some hf)
  simp only [decide_eq_true_eq] at hk
  exact hk ▸ hm

def storeRun (env : Env) (t : GoType) (addr : Bool) : GoVal → List Tree → Except Error GoVal
  | v, [] => .ok v
  | v, x :: xs => do
    let v ← store env t v addr x
    storeRun env t addr v xs

theorem storeRun_keeps {P : GoVal → Prop} {v w : GoVal} {trees : List Tree}
    (hP : ∀ tree ∈ trees, ∀ {v w}, P v → store env t v addr tree = .ok w → P w) (hv : P v)
    (h : storeRun env t addr v trees = .ok w) : P w := by
  induction trees generalizing v with
  | nil =>
    cases h
    exact hv
  | cons x xs ih =>
    obtain ⟨u, hu, h⟩ := except_bind_eq_ok.1 h
    exact ih (fun tree ht => hP tree (mem_cons_of_mem _ ht)) (hP x mem_cons_self hv hu) h

def treesFor (env : Env) (t : GoType) (i : ℕ) (es : List (Entry Tree)) : List Tree :=
  (es.filter fun e => lookupField (setStructValues env [] t) e.key = some [i]).map Entry.val

theorem storePair_field {x : GoType → GoVal → Bool → Except Error GoVal} {key i f} {u : GoType}
    {v vs} (ht : t.under = .struct fs) (hk : lookupField (setStructValues env [] t) key = some [i])
    (hf : fs[i]? = some (f, u)) (hv : vs[i]? = some v) :
    storePair x (.struct (setStructValues env [] t)) t addr key (.struct vs) =
      (x u v addr).map fun y => .struct (vs.set i y) := by
  have hset : ∀ y, setFieldAt y [i] (.struct vs) = .struct (vs.set i y) := by
    intro y
    simp only [setFieldAt, set_eq_modify]
  simp only [storePair, hk, Option.bind_some, fieldAt, ht, hf, hv, Option.map_some, hset]

theorem storePair_unknown {x : GoType → GoVal → Bool → Except Error GoVal} {key cur}
    (hk : lookupField (setStructValues env [] t) key = none) :
    storePair x (.struct (setStructValues env [] t)) t addr key cur =
      (x .iface .nilIface true).map fun _ => cur := by
  simp only [storePair, hk, Option.bind_none]

theorem Flat.storePair_ok (hflat : Flat env t fs) {x key vs cur} (hlen : vs.length = fs.length)
    (h : storePair (fun t old addr => store env t old addr x) (.struct (setStructValues env [] t))
      t addr key (.struct vs) = .ok cur) :
    (lookupField (setStructValues env [] t) key = none ∧ cur = .struct vs) ∨
      ∃ i f u v y, lookupField (setStructValues env [] t) key = some [i] ∧
        fs[i]? = some (f, u) ∧ vs[i]? = some v ∧ store env u v addr x = .ok y ∧
        cur = .struct (vs.set i y) := by
  cases hk : lookupField (setStructValues env [] t) key with
  | none =>
    rw [storePair_unknown hk, except_map_eq_ok] at h
    obtain ⟨-, -, rfl⟩ := h
    exact .inl ⟨rfl, rfl⟩
  | some path =>
    obtain ⟨i, hi, hlt⟩ := hflat.path _ (lookupField_mem hk)
    simp only at hi
    subst hi
    have hf : fs[i]? = some fs[i] := getElem?_eq_getElem hlt
    have hv : vs[i]? = some vs[i] := getElem?_eq_getElem (hlen ▸ hlt)
    rw [storePair_field hflat.under hk hf hv, except_map_eq_ok] at h
    obtain ⟨y, hy, rfl⟩ := h
    exact .inr ⟨i, _, _, _, y, rfl, hf, hv, hy, rfl⟩

theorem Flat.storeEntries_field (hflat : Flat env t fs) {es vs cur} (hlen : vs.length = fs.length)
    (h : storeEntries env (.struct (setStructValues env [] t)) t addr (.struct vs) es = .ok cur) :
    ∃ ws, cur = .struct ws ∧ ws.length = fs.length ∧
      ∀ i f u v, fs[i]? = some (f, u) → vs[i]? = some v →
        ∃ w, ws[i]? = some w ∧ storeRun env u addr v (treesFor env t i es) = .ok w := by
  induction es generalizing vs with
  | nil =>
    cases h
    exact ⟨vs, rfl, hlen, fun i f u v _ hv => ⟨v, hv, rfl⟩⟩
  | cons e es ih =>
    obtain ⟨len, key, x⟩ := e
    rw [storeEntries, except_bind_eq_ok] at h
    obtain ⟨c, hc, hrest⟩ := h
    rcases hflat.storePair_ok hlen hc with ⟨hk, rfl⟩ | ⟨j, f', u', v', y, hk, hf', hv', hy, rfl⟩
    · obtain ⟨ws, rfl, hws, hall⟩ := ih hlen hrest
      refine ⟨ws, rfl, hws, fun i f u v hf hv => ?_⟩
      obtain ⟨w, hw, hrun⟩ := hall i f u v hf hv
      exact ⟨w, hw, by simpa [treesFor, hk] using hrun⟩
    · obtain ⟨ws, rfl, hws, hall⟩ := ih (by simpa using hlen) hrest
      refine ⟨ws, rfl, hws, fun i f u v hf hv => ?_⟩
      by_cases hij : j = i
      · subst hij
        rw [hf', Option.some.injEq, Prod.mk.injEq] at hf
        obtain ⟨rfl, rfl⟩ := hf
        rw [hv', Option.some.injEq] at hv
        subst hv
        have hlt : j < vs.length := (List.getElem?_eq_some_iff.1 hv').1
        obtain ⟨w, hw, hrun⟩ := hall j f' u' y hf' (by simp [hlt])
        exact ⟨w, hw, by simpa [treesFor, hk, storeRun, hy] using hrun⟩
      · obtain ⟨w, hw, hrun⟩ := hall i f u v hf (by rw [List.getElem?_set_ne hij]; exact hv)
        exact ⟨w, hw, by simpa [treesFor, hk, hij] using hrun⟩

theorem Flat.storeEntries_ok (hflat : Flat env t fs) {es vs} (hkeys : (es.map Entry.key).Nodup)
    (hes : ∀ e ∈ es, ∃ i f u v y, lookupField (setStructValues env [] t) e.key = some [i] ∧
      fs[i]? = some (f, u) ∧ vs[i]? = some v ∧ store env u v addr e.val = .ok y) :
    ∃ cur, storeEntries env (.struct (setStructValues env [] t)) t addr (.struct vs) es =
      .ok cur := by
  induction es generalizing vs with
  | nil => exact ⟨_, rfl⟩
  | cons e es ih =>
    obtain ⟨len, key, x⟩ := e
    obtain ⟨i, f, u, v, y, hk, hf, hv, hy⟩ := hes _ mem_cons_self
    have hstep : storePair (fun t old addr => store env t old addr x)
        (.struct (setStructValues env [] t)) t addr key (.struct vs) =
        .ok (.struct (vs.set i y)) := by
      rw [storePair_field hflat.under hk hf hv, hy, except_map_ok]
    rw [storeEntries, hstep, except_ok_bind]
    rw [map_cons, nodup_cons] at hkeys
    refine ih hkeys.2 fun e he => ?_
    obtain ⟨j, f', u', v', y', hk', hf', hv', hy'⟩ := hes e (mem_cons_of_mem _ he)
    -- another key leads to another field
    have hij : i ≠ j := by
      rintro rfl
      have := hflat.inj _ (lookupField_mem hk) _ (lookupField_mem hk') rfl
      exact hkeys.1 (mem_map.2 ⟨e, he, this.symm⟩)
    exact ⟨j, f', u', v', y', hk', hf', by rw [getElem?_set_ne hij]; exact hv', hy'⟩

theorem store_named_dict {name} (henv : env.methods name = {}) (vs : List GoVal)
    (es : List (Entry Tree)) :
    store env (.named name (.struct fs)) (.struct vs) true (.dict es) =
      storeEntries env (.struct (setStructValues env [] (.named name (.struct fs))))
        (.named name (.struct fs)) true (.struct vs) es := by
  rw [store_noMethods (t := .named name (.struct fs)) henv rfl rfl]; rfl

theorem store_named_struct_ok {name} (henv : env.methods name = {}) {vs tree x}
    (h : store env (.named name (.struct fs)) (.struct vs) true tree = .ok x) :
    ∃ es, tree = .dict es := by
  rw [store_noMethods (t := .named name (.struct fs)) henv rfl rfl] at h
  cases tree with
  | int ds => cases h
  | str len c =>
    rw [storeValue] at h
    split_ifs at h
    cases h
  | list ts => cases h
  | dict es => exact ⟨es, rfl⟩

/-! ## Encoding -/

def fieldEntry (env : Env) (addr : Bool) (f : Field) (t : GoType) (v : GoVal) :
    List (Bytes × Except Error Bytes) :=
  if !f.exported || isNilValue v then []
  else
    match processFieldTag env f v with
    | none => []
    | some rkey =>
      if shouldEmbedAnonymousStruct f t then
        match v with
        | .struct ws => readStruct env addr t.fields ws
        | _ => []
      else [(keyBytes rkey, encodeFrom env true true t addr v)]

theorem readStruct_cons (f : Field) (v : GoVal) (vs : List GoVal) :
    readStruct env addr ((f, t) :: fs) (v :: vs) =
      fieldEntry env addr f t v ++ readStruct env addr fs vs := by
  rw [readStruct.eq_def, fieldEntry.eq_def]
  dsimp only
  by_cases hskip : (!f.exported || isNilValue v) = true
  · rw [if_pos hskip, if_pos hskip]; rfl
  · rw [if_neg hskip, if_neg hskip]
    cases processFieldTag env f v with
    | none => rfl
    | some rkey => dsimp only; split_ifs <;> rfl

theorem exists_perm_of_perm_map {α β : Type} {g : α → β} {l : List α} {m : List β}
    (h : m.Perm (l.map g)) : ∃ l' : List α, l'.Perm l ∧ l'.map g = m := by
  generalize hl : l.map g = n at h
  induction h generalizing l with
  | nil => exact ⟨[], by rw [map_eq_nil_iff.1 hl], rfl⟩
  | cons x _ ih =>
    obtain ⟨a, l1, rfl, rfl, hl1⟩ := map_eq_cons_iff.1 hl
    obtain ⟨l', hp, hm⟩ := ih hl1
    exact ⟨a :: l', hp.cons a, by rw [map_cons, hm]⟩
  | swap x y zs =>
    obtain ⟨a, l1, rfl, rfl, hl1⟩ := map_eq_cons_iff.1 hl
    obtain ⟨b, l2, rfl, rfl, rfl⟩ := map_eq_cons_iff.1 hl1
    exact ⟨b :: a :: l2, Perm.swap a b l2, rfl⟩
  | trans _ _ ih1 ih2 =>
    obtain ⟨l2, hp2, hm2⟩ := ih2 hl
    obtain ⟨l1, hp1, hm1⟩ := ih1 hm2
    exact ⟨l1, hp1.trans hp2, hm1⟩

def entryOf (p : Bytes × Tree) : Entry Tree := ⟨formatUint p.1.length, p.1, p.2⟩

theorem writePairs_trees (ps : List (Bytes × Tree)) :
    writePairs (ps.map fun p => (p.1, .ok p.2.bytes)) = .ok (entriesBytes (ps.map entryOf)) := by
  induction ps with
  | nil => rfl
  | cons p ps ih =>
    rw [map_cons, writePairs, ih]
    simp [entryOf, entriesBytes, encodeStr]

theorem writeDict_trees (env : Env) (ps : List (Bytes × Tree)) :
    ∃ qs : List (Bytes × Tree), qs.Perm ps ∧ writeDict env (ps.map fun p => (p.1, .ok p.2.bytes)) =
      .ok (Tree.dict (qs.map entryOf)).bytes := by
  obtain ⟨qs, hp, hq⟩ := exists_perm_of_perm_map
    (env.sort_perm (ps.map fun p => (p.1, .ok p.2.bytes)))
  refine ⟨qs, hp, ?_⟩
  rw [writeDict, ← hq, writePairs_trees]
  rfl

/-! ## Field names -/

structure FieldOk (env : Env) (f : Field) (name : List Char) : Prop where
  exported : f.exported = true
  regular : f.anonymous = false
  name_eq : extractFieldName f = name
  name_ne : name ≠ []
  valid : isValidTag env name = true

def asciiName (name : List Char) : Bool :=
  !name.isEmpty && name.all fun c => [' ', '$', '-', '_', '.'].contains c || c.isAlphanum

theorem isValidTag_of_asciiName {name} (h : asciiName name = true) :
    isValidTag env name = true := by
  simp only [asciiName, isValidTag, Bool.and_eq_true, all_eq_true] at h ⊢
  exact ⟨h.1, fun c hc => by rw [h.2 c hc, Bool.true_or]⟩

def tagIs (tag : String) (name : List Char) (opt : Bool) : Bool :=
  tag ≠ "-" ∧ (parseTag tag.toList).1 = name ∧ asciiName name ∧ (keyBytes name).length < 2 ^ 31 ∧
    tagContains (parseTag tag.toList).2 "omitempty".toList = opt

section Tagged

variable {goName tag : String} {name : List Char} {opt : Bool}

theorem tagIs_spec (h : tagIs tag name opt) : tag ≠ "" ∧ tag ≠ "-" ∧
    (parseTag tag.toList).1 = name ∧ asciiName name = true ∧ (keyBytes name).length < 2 ^ 31 ∧
    tagContains (parseTag tag.toList).2 "omitempty".toList = opt := by
  rw [tagIs, decide_eq_true_eq] at h
  obtain ⟨hdash, hname, hascii, hopt⟩ := h
  refine ⟨?_, hdash, hname, hascii, hopt⟩
  rintro rfl
  subst hname
  exact absurd hascii (by decide)

theorem tagGet_tagged : (tagged goName tag).tagGet "bencode" = tag := rfl

theorem fieldOk_tagged (h : tagIs tag name opt) : FieldOk env (tagged goName tag) name := by
  obtain ⟨-, -, hname, hascii, -⟩ := tagIs_spec h
  have hne : name ≠ [] := by rintro rfl; exact absurd hascii (by decide)
  refine ⟨rfl, rfl, ?_, hne, isValidTag_of_asciiName hascii⟩
  rw [extractFieldName, tagGet_tagged]
  simp only [hname, if_pos hne]

theorem processFieldTag_tagged (h : tagIs tag name opt) (v : GoVal) :
    processFieldTag env (tagged goName tag) v =
      if opt ∧ isEmptyValue v then none else some name := by
  obtain ⟨hne, hdash, hname, hascii, -, hopt⟩ := tagIs_spec h
  rw [processFieldTag, tagGet_tagged]
  simp only [if_neg hne, if_neg hdash, hname, hopt, isValidTag_of_asciiName hascii, if_true]

theorem fieldEntry_tagged (h : tagIs tag name opt) {v} (hv : isNilValue v = false) :
    fieldEntry env addr (tagged goName tag) t v =
      if opt ∧ isEmptyValue v then []
      else [(keyBytes name, encodeFrom env true true t addr v)] := by
  rw [fieldEntry.eq_def, processFieldTag_tagged h]
  by_cases he : opt ∧ isEmptyValue v
  · simp [tagged, hv, he]
  · simp [tagged, hv, he, shouldEmbedAnonymousStruct]

end Tagged

/-! ## The keys of a struct type -/

structure Keyed (env : Env) (fs : List (Field × GoType)) (names : List (List Char)) : Prop where
  fields : Forall₂ (fun f name => FieldOk env f.1 name) fs names
  nodup : (names.map keyBytes).Nodup

def fieldKeys : List (Field × GoType) → List (List Char) → Bool
  | [], [] => true
  | (f, _) :: fs, name :: names =>
    f.exported && !f.anonymous && (extractFieldName f = name : Bool) && asciiName name &&
      fieldKeys fs names
  | _, _ => false

section Keyed

variable {names : List (List Char)} {goName : String}

theorem keyed_of_fieldKeys (h : fieldKeys fs names = true) (hn : (names.map keyBytes).Nodup) :
    Keyed env fs names := by
  refine ⟨?_, hn⟩
  clear hn
  induction fs generalizing names with
  | nil =>
    cases names with
    | nil => exact .nil
    | cons name names => cases h
  | cons f fs ih =>
    cases names with
    | nil => cases h
    | cons name names =>
      simp only [fieldKeys, Bool.and_eq_true, Bool.not_eq_true', decide_eq_true_eq] at h
      obtain ⟨⟨⟨⟨hexp, hreg⟩, hname⟩, hascii⟩, hrest⟩ := h
      have hne : name ≠ [] := by rintro rfl; exact absurd hascii (by decide)
      exact .cons ⟨hexp, hreg, hname, hne, isValidTag_of_asciiName hascii⟩ (ih hrest)

theorem processRegularFields_eq (path : List ℕ) (i : ℕ)
    (h : Forall₂ (fun f name => FieldOk env f.1 name) fs names) :
    processRegularFields env path i fs =
      (names.zipIdx i).map fun p => (keyBytes p.1, path ++ [p.2]) := by
  induction h generalizing i with
  | nil => rfl
  | @cons f name fs names hf _ ih =>
    have hc : f.1.exported ∧ extractFieldName f.1 ≠ [] ∧
        isValidTag env (extractFieldName f.1) = true := by
      rw [hf.name_eq]; exact ⟨hf.exported, hf.name_ne, hf.valid⟩
    rw [processRegularFields.eq_def]
    dsimp only
    rw [if_pos hc, ih, zipIdx_cons, map_cons, hf.name_eq]

theorem processEmbeddedFields_eq (path : List ℕ) (i : ℕ)
    (h : Forall₂ (fun f name => FieldOk env f.1 name) fs names) :
    processEmbeddedFields env path i fs = [] := by
  induction h generalizing i with
  | nil => rfl
  | @cons f name fs names hf _ ih =>
    rw [processEmbeddedFields, ih, if_neg (by simp [hf.regular])]; rfl

theorem Keyed.setStructValues_eq (h : Keyed env fs names) :
    setStructValues env [] (.named goName (.struct fs)) =
      names.zipIdx.map fun p => (keyBytes p.1, [p.2]) := by
  rw [setStructValues, setStructValues, processEmbeddedFields_eq [] 0 h.fields,
    processRegularFields_eq [] 0 h.fields]
  rfl

theorem Keyed.mem_vals (h : Keyed env fs names) {p} :
    p ∈ setStructValues env [] (.named goName (.struct fs)) ↔
      ∃ i name, names[i]? = some name ∧ p = (keyBytes name, [i]) := by
  rw [h.setStructValues_eq, mem_map]
  constructor
  · rintro ⟨⟨name, i⟩, hm, rfl⟩
    exact ⟨i, name, mk_mem_zipIdx_iff_getElem?.1 hm, rfl⟩
  · rintro ⟨i, name, hi, rfl⟩
    exact ⟨(name, i), mk_mem_zipIdx_iff_getElem?.2 hi, rfl⟩

theorem Keyed.flat (h : Keyed env fs names) : Flat env (.named goName (.struct fs)) fs where
  under := rfl
  path p hp := by
    obtain ⟨i, name, hi, rfl⟩ := h.mem_vals.1 hp
    exact ⟨i, rfl, h.fields.length_eq ▸ (List.getElem?_eq_some_iff.1 hi).1⟩
  inj p hp q hq heq := by
    obtain ⟨i, name, hi, rfl⟩ := h.mem_vals.1 hp
    obtain ⟨j, name', hj, rfl⟩ := h.mem_vals.1 hq
    simp only [List.cons.injEq, and_true] at heq
    rw [heq, hj, Option.some.injEq] at hi
    exact congrArg keyBytes hi.symm

theorem Keyed.lookup (h : Keyed env fs names) {i name} (hi : names[i]? = some name) :
    lookupField (setStructValues env [] (.named goName (.struct fs))) (keyBytes name) =
      some [i] := by
  cases hk : lookupField (setStructValues env [] (.named goName (.struct fs))) (keyBytes name) with
  | none =>
    rw [lookupField, Option.map_eq_none_iff, List.find?_eq_none] at hk
    refine absurd (decide_eq_true rfl) (hk (keyBytes name, [i]) ?_)
    exact List.mem_reverse.2 (h.mem_vals.2 ⟨i, name, hi, rfl⟩)
  | some path =>
    obtain ⟨j, name', hj, he⟩ := h.mem_vals.1 (lookupField_mem hk)
    obtain ⟨hkey, rfl⟩ := Prod.mk.inj he
    have hlt : i < (names.map keyBytes).length := by
      simpa using (List.getElem?_eq_some_iff.1 hi).1
    have hij : i = j := (List.getElem?_inj hlt h.nodup).1 (by simp [hi, hj, hkey])
    rw [hij]

theorem Keyed.lookup_iff (h : Keyed env fs names) {i name key} (hi : names[i]? = some name) :
    lookupField (setStructValues env [] (.named goName (.struct fs))) key = some [i] ↔
      key = keyBytes name := by
  constructor
  · intro hk
    obtain ⟨j, name', hj, he⟩ := h.mem_vals.1 (lookupField_mem hk)
    simp only [Prod.mk.injEq, cons.injEq, and_true] at he
    obtain ⟨rfl, rfl⟩ := he
    rw [hi, Option.some.injEq] at hj
    rw [hj]
  · rintro rfl
    exact h.lookup hi

theorem Keyed.treesFor_eq (h : Keyed env fs names) {i name}
    (hi : names[i]? = some name) (es : List (Entry Tree)) :
    treesFor env (.named goName (.struct fs)) i es =
      (es.filter fun e => e.key = keyBytes name).map Entry.val := by
  rw [treesFor]
  simp only [h.lookup_iff hi]

theorem zeroFields_eq (fs : List (Field × GoType)) : zeroFields fs = fs.map fun p => zero p.2 := by
  induction fs with
  | nil => rfl
  | cons p fs ih => rw [zeroFields, ih, map_cons]

theorem Keyed.store_fields (h : Keyed env fs names) (henv : env.methods goName = {})
    {vs} (hlen : vs.length = fs.length) {tree x}
    (hs : store env (.named goName (.struct fs)) (.struct vs) true tree = .ok x) :
    ∃ ws, x = .struct ws ∧ ws.length = fs.length ∧
      ∀ (i : ℕ) f u v, fs[i]? = some (f, u) → vs[i]? = some v →
        ∃ w trees, ws[i]? = some w ∧ storeRun env u true v trees = .ok w := by
  obtain ⟨es, rfl⟩ := store_named_struct_ok henv hs
  rw [store_named_dict henv] at hs
  obtain ⟨ws, rfl, hws, hall⟩ := h.flat.storeEntries_field hlen hs
  refine ⟨ws, rfl, hws, fun i f u v hf hv => ?_⟩
  obtain ⟨w, hw, hrun⟩ := hall i f u v hf hv
  exact ⟨w, _, hw, hrun⟩

theorem Keyed.store_ok (h : Keyed env fs names) (henv : env.methods goName = {}) {tree x}
    (hs : store env (.named goName (.struct fs)) (zero (.named goName (.struct fs))) true tree = .ok x)
    :
    ∃ es ws, tree = .dict es ∧ x = .struct ws ∧
      ∀ (i : ℕ) f u name, fs[i]? = some (f, u) → names[i]? = some name → ∃ w, ws[i]? = some w ∧
        storeRun env u true (zero u) ((es.filter fun e => e.key = keyBytes name).map Entry.val) =
          .ok w := by
  rw [zero, zero] at hs
  obtain ⟨es, rfl⟩ := store_named_struct_ok henv hs
  rw [store_named_dict henv] at hs
  have hlen : (zeroFields fs).length = fs.length := by rw [zeroFields_eq, length_map]
  obtain ⟨ws, rfl, -, hall⟩ := h.flat.storeEntries_field hlen hs
  refine ⟨es, ws, rfl, rfl, fun i f u name hf hi => ?_⟩
  rw [← h.treesFor_eq hi]
  exact hall i f u (zero u) hf (by simp [zeroFields_eq, hf])

end Keyed

/-! ## Rows -/

structure Row (env : Env) where
  field : Field
  type : GoType
  val : GoVal
  name : List Char
  tree : Option Tree
  back : GoVal
  named : FieldOk env field name
  short : (keyBytes name).length < 2 ^ 31
  writes : ∀ addr, fieldEntry env addr field type val =
    (tree.map fun x => (keyBytes name, Except.ok x.bytes)).toList
  wf : ∀ x ∈ tree, x.WF ∧ x.scannable = true
  reads : (tree = none ∧ back = zero type) ∨
    ∃ x, tree = some x ∧ store env type (zero type) true x = .ok back

def Row.key (r : Row env) : Bytes := keyBytes r.name

def rowPairs (rows : List (Row env)) : List (Bytes × Tree) :=
  rows.flatMap fun r => (r.tree.map fun x => (r.key, x)).toList

def rowFields (rows : List (Row env)) : List (Field × GoType) := rows.map fun r => (r.field, r.type)

theorem readStruct_rows (rows : List (Row env)) :
    readStruct env addr (rowFields rows) (rows.map Row.val) =
      (rowPairs rows).map fun p => (p.1, .ok p.2.bytes) := by
  induction rows with
  | nil => rfl
  | cons r rows ih =>
    rw [rowFields, map_cons, map_cons, readStruct_cons, r.writes addr]
    rw [rowFields] at ih
    rw [ih, rowPairs, rowPairs, flatMap_cons, map_append]
    cases r.tree <;> rfl

theorem encodeFrom_rows {name} (henv : env.methods name = {}) (rows : List (Row env)) :
    ∃ qs : List (Bytes × Tree), qs.Perm (rowPairs rows) ∧ ∀ checks direct addr,
      encodeFrom env checks direct (.named name (.struct (rowFields rows))) addr
        (.struct (rows.map Row.val)) = .ok (Tree.dict (qs.map entryOf)).bytes := by
  obtain ⟨qs, hp, hq⟩ := writeDict_trees env (rowPairs rows)
  refine ⟨qs, hp, fun checks direct addr => ?_⟩
  have hm : findMarshaler env (.named name (.struct (rowFields rows))) addr
      (.struct (rows.map Row.val)) = none := by
    simp [findMarshaler, callMarshaler, henv, usable]
  rw [encodeFrom, hm, orMarshaler]
  change writeDict env (readStruct env addr (rowFields rows) (rows.map Row.val)) = _
  rw [readStruct_rows, hq]

theorem rowPairs_wf {rows : List (Row env)} {qs : List (Bytes × Tree)}
    (hp : qs.Perm (rowPairs rows)) : (Tree.dict (qs.map entryOf)).WF := by
  refine wfEntries_iff.2 fun e he => ?_
  obtain ⟨q, hq, rfl⟩ := mem_map.1 he
  obtain ⟨r, -, hr⟩ := mem_flatMap.1 (hp.mem_iff.1 hq)
  simp only [Option.mem_toList, Option.map_eq_some_iff] at hr
  obtain ⟨x, hx, rfl⟩ := hr
  exact ⟨strOk_formatUint r.short, (r.wf x hx).1⟩

theorem mem_rowPairs_key {rows : List (Row env)} {p : Bytes × Tree} (h : p ∈ rowPairs rows) :
    p.1 ∈ rows.map Row.key := by
  obtain ⟨r, hr, hp⟩ := mem_flatMap.1 h
  simp only [Option.mem_toList, Option.map_eq_some_iff] at hp
  obtain ⟨x, -, rfl⟩ := hp
  exact mem_map.2 ⟨r, hr, rfl⟩

theorem rowPairs_nodup {rows : List (Row env)} (h : (rows.map Row.key).Nodup) :
    ((rowPairs rows).map Prod.fst).Nodup := by
  induction rows with
  | nil => exact nodup_nil
  | cons r rows ih =>
    rw [map_cons, nodup_cons] at h
    rw [rowPairs, flatMap_cons, map_append]
    refine Nodup.append ?_ (ih h.2) ?_
    · cases r.tree <;> simp
    · intro k hk hk'
      obtain ⟨p, hp, rfl⟩ := mem_map.1 hk'
      cases htree : r.tree with
      | none => simp [htree] at hk
      | some x =>
        simp only [htree, Option.map_some, Option.toList_some, map_singleton, mem_singleton] at hk
        exact h.1 (hk ▸ mem_rowPairs_key hp)

theorem rowPairs_filter {rows : List (Row env)} (h : (rows.map Row.key).Nodup) {i : ℕ}
    {r : Row env} (hr : rows[i]? = some r) :
    (rowPairs rows).filter (fun p => p.1 = r.key) = (r.tree.map fun x => (r.key, x)).toList := by
  induction rows generalizing i with
  | nil => simp at hr
  | cons r' rows ih =>
    rw [map_cons, nodup_cons] at h
    rw [rowPairs, flatMap_cons, filter_append]
    cases i with
    | zero =>
      simp only [getElem?_cons_zero, Option.some.injEq] at hr
      subst hr
      have hrest : (rowPairs rows).filter (fun p => p.1 = r'.key) = [] := by
        refine filter_eq_nil_iff.2 fun p hp hk => h.1 ?_
        simp only [decide_eq_true_eq] at hk
        exact hk ▸ mem_rowPairs_key hp
      rw [rowPairs] at hrest
      rw [hrest, append_nil]
      cases r'.tree <;> simp
    | succ i =>
      simp only [getElem?_cons_succ] at hr
      have hne : r'.key ≠ r.key := fun he => h.1 (he ▸ mem_map.2 ⟨r, mem_of_getElem? hr, rfl⟩)
      have hhead : (r'.tree.map fun x => (r'.key, x)).toList.filter (fun p => p.1 = r.key) = [] := by
        cases r'.tree <;> simp [hne]
      rw [hhead, nil_append]
      exact ih h.2 hr

theorem rows_fieldOk (rows : List (Row env)) :
    Forall₂ (fun f name => FieldOk env f.1 name) (rowFields rows) (rows.map Row.name) := by
  rw [rowFields, forall₂_map_left_iff, forall₂_map_right_iff, forall₂_same]
  exact fun r _ => r.named

theorem treesFor_rows {name : String} {rows : List (Row env)}
    (h : Keyed env (rowFields rows) (rows.map Row.name)) {i : ℕ} {r : Row env}
    (hr : rows[i]? = some r) {qs : List (Bytes × Tree)} (hp : qs.Perm (rowPairs rows)) :
    treesFor env (.named name (.struct (rowFields rows))) i (qs.map entryOf) = r.tree.toList := by
  have hkeys : (rows.map Row.key).Nodup := by
    have := h.nodup
    rwa [map_map] at this
  have hperm := hp.filter fun q => q.1 = r.key
  rw [rowPairs_filter hkeys hr] at hperm
  have hi : (rows.map Row.name)[i]? = some r.name := by simp [hr]
  rw [h.treesFor_eq hi, filter_map, map_map]
  change map Prod.snd (qs.filter fun q => q.1 = r.key) = _
  cases htree : r.tree with
  | none =>
    rw [htree] at hperm
    rw [perm_nil.1 hperm]
    rfl
  | some x =>
    rw [htree] at hperm
    rw [perm_singleton.1 hperm]
    rfl

theorem store_rows {name : String} (henv : env.methods name = {}) {rows : List (Row env)}
    (hnodup : (rows.map Row.key).Nodup) {qs : List (Bytes × Tree)} (hp : qs.Perm (rowPairs rows)) :
    store env (.named name (.struct (rowFields rows))) (zero (.named name (.struct (rowFields rows))))
      true (.dict (qs.map entryOf)) = .ok (.struct (rows.map Row.back)) := by
  have h : Keyed env (rowFields rows) (rows.map Row.name) :=
    ⟨rows_fieldOk rows, by rw [map_map]; exact hnodup⟩
  have hz : zero (.named name (.struct (rowFields rows))) =
      .struct (rows.map fun r => zero r.type) := by
    rw [zero, zero, zeroFields_eq, rowFields, map_map]; rfl
  have hqkeys : ((qs.map entryOf).map Entry.key).Nodup := by
    rw [map_map]
    exact (hp.map Prod.fst).nodup_iff.2 (rowPairs_nodup hnodup)
  have hfield : ∀ (i : ℕ) (r : Row env), rows[i]? = some r →
      (rowFields rows)[i]? = some (r.field, r.type) ∧
      (rows.map fun r => zero r.type)[i]? = some (zero r.type) := fun i r hr => by
    simp [rowFields, hr]
  -- every entry can be stored into the zero value of its field
  have hstored : ∀ e ∈ qs.map entryOf, ∃ i f u v y,
      lookupField (setStructValues env [] (.named name (.struct (rowFields rows)))) e.key =
        some [i] ∧ (rowFields rows)[i]? = some (f, u) ∧
      (rows.map fun r => zero r.type)[i]? = some v ∧ store env u v true e.val = .ok y := by
    intro e he
    obtain ⟨q, hq, rfl⟩ := mem_map.1 he
    obtain ⟨r, hr, hx⟩ := mem_flatMap.1 (hp.mem_iff.1 hq)
    simp only [Option.mem_toList, Option.map_eq_some_iff] at hx
    obtain ⟨x, hx, rfl⟩ := hx
    obtain ⟨i, hi⟩ := mem_iff_getElem?.1 hr
    obtain ⟨hf, hv⟩ := hfield i r hi
    rcases r.reads with ⟨hn, -⟩ | ⟨y, hy, hs⟩
    · rw [hn] at hx; cases hx
    · rw [hx] at hy; cases hy
      exact ⟨i, _, _, _, _, h.lookup (by simp [hi]), hf, hv, hs⟩
  obtain ⟨cur, hcur⟩ := h.flat.storeEntries_ok hqkeys hstored
  obtain ⟨ws, rfl, hlen, hall⟩ := h.flat.storeEntries_field (by simp [rowFields]) hcur
  rw [hz, store_named_dict henv, hcur]
  congr 2
  refine ext_getElem? fun i => ?_
  cases hi : rows[i]? with
  | none =>
    have : rows.length ≤ i := getElem?_eq_none_iff.1 hi
    rw [getElem?_eq_none (by rw [hlen]; simpa [rowFields] using this), getElem?_map, hi]
    rfl
  | some r =>
    obtain ⟨hf, hv⟩ := hfield i r hi
    obtain ⟨w, hw, hrun⟩ := hall i _ _ _ hf hv
    rw [hw, getElem?_map, hi, Option.map_some, Option.some.injEq]
    rw [treesFor_rows h hi hp] at hrun
    rcases r.reads with ⟨hn, hb⟩ | ⟨y, hy, hs⟩
    · rw [hn] at hrun; cases hrun; exact hb.symm
    · rw [hy, Option.toList_some, storeRun, hs] at hrun; cases hrun; rfl

end GoI2pBt.Bencode
