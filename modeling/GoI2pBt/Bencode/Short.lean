/-
  Decoded strings are shorter than 2^31 bytes, integers have 64 bits.
-/
import GoI2pBt.Bencode.Accept

namespace GoI2pBt.Bencode

open List Bencode.Tree Option Int

inductive Short : GoVal → Prop
  | bool {b} : Short (.bool b)
  | int {i} : -2 ^ 63 ≤ i → i < 2 ^ 63 → Short (.int i)
  | uint {n} : Short (.uint n)
  | str {s} : s.length < 2 ^ 31 → Short (.str s)
  | nilIface : Short .nilIface
  | iface {t v} : Short v → Short (.iface t v)
  | nilPtr : Short .nilPtr
  | ptr {v} : Short v → Short (.ptr v)
  | nilSlice : Short .nilSlice
  | slice {es sp} : (∀ v ∈ es, Short v) → (∀ v ∈ sp, Short v) → Short (.slice es sp)
  | array {es} : (∀ v ∈ es, Short v) → Short (.array es)
  | nilMap : Short .nilMap
  | map {es} : (∀ p ∈ es, Short p.2) → Short (.map es)
  | struct {vs} : (∀ v ∈ vs, Short v) → Short (.struct vs)

structure ShortEnv (env : Env) : Prop where
  unmarshalBencode : ∀ name u, (env.methods name).unmarshalBencode = some u →
    ∀ old b x, Short old → u old b = .ok x → Short x
  unmarshalText : ∀ name u, (env.methods name).unmarshalText = some u →
    ∀ old b x, Short old → u old b = .ok x → Short x

theorem shortEnv_noMethods {env : Env} : ShortEnv env.noMethods where
  unmarshalBencode name u h := by cases h
  unmarshalText name u h := by cases h

/-! ## Values that the decoder makes -/

mutual

theorem short_zero : ∀ t : GoType, Short (zero t)
  | .bool => .bool
  | .int _ => .int (by decide) (by decide)
  | .uint _ => .uint
  | .string => .str (by decide)
  | .iface => .nilIface
  | .rawMessage => .nilSlice
  | .ptr _ => .nilPtr
  | .slice _ => .nilSlice
  | .array n t => .array fun v hv => by rw [eq_of_mem_replicate hv]; exact short_zero t
  | .map _ => .nilMap
  | .struct fs => .struct (short_zeroFields fs)
  | .named _ t => by rw [zero]; exact short_zero t

theorem short_zeroFields : ∀ (fs : List (Field × GoType)), ∀ v ∈ zeroFields fs, Short v
  | [], v, hv => by simp [zeroFields] at hv
  | (f, t) :: fs, v, hv => by
    rw [zeroFields, mem_cons] at hv
    rcases hv with rfl | hv
    · exact short_zero t
    · exact short_zeroFields fs v hv

end

theorem short_bytesVal (b : Bytes) : Short (bytesVal b) := by
  refine .slice (fun v hv => ?_) (by simp)
  obtain ⟨x, -, rfl⟩ := mem_map.1 hv
  exact .uint

theorem short_elemsOf {v} (h : Short v) :
    (∀ x ∈ (elemsOf v).1, Short x) ∧ ∀ x ∈ (elemsOf v).2, Short x := by
  cases h with
  | slice hes hsp => exact ⟨hes, hsp⟩
  | array hes => exact ⟨hes, by simp [elemsOf]⟩
  | _ => exact ⟨by simp [elemsOf], by simp [elemsOf]⟩

theorem length_strOf {v} (h : Short v) : (strOf v).length < 2 ^ 31 := by
  cases h with
  | str h => exact h
  | _ => exact (by decide : 0 < 2 ^ 31)

theorem length_strOf_elems {v} (h : Short v) :
    ∀ s ∈ (elemsOf v).1.map strOf, s.length < 2 ^ 31 := fun s hs => by
  obtain ⟨w, hw, rfl⟩ := mem_map.1 hs
  exact length_strOf ((short_elemsOf h).1 w hw)

theorem intOf_bounds {v} (h : Short v) : -2 ^ 63 ≤ intOf v ∧ intOf v < 2 ^ 63 := by
  cases h with
  | int h1 h2 => exact ⟨h1, h2⟩
  | _ => exact (by decide : -2 ^ 63 ≤ (0 : ℤ) ∧ (0 : ℤ) < 2 ^ 63)

theorem short_fieldOf {v} (h : Short v) (i : ℕ) : Short (fieldOf v i) := by
  cases h with
  | @struct vs hvs =>
    rw [fieldOf, getD_eq_getElem?_getD]
    cases hi : vs[i]? with
    | none => exact .nilIface
    | some w => exact hvs w (mem_of_getElem? hi)
  | _ => exact .nilIface

theorem short_mapSet {key x} (hx : Short x) {es}
    (h : ∀ p ∈ es, Short p.2) : ∀ p ∈ mapSet key x es, Short p.2 := by
  induction es with
  | nil => simpa [mapSet] using hx
  | cons q es ih =>
    obtain ⟨k, y⟩ := q
    have ih := ih fun p hp => h p (mem_cons_of_mem _ hp)
    have hy := h _ mem_cons_self
    intro p hp
    rw [mapSet] at hp
    split_ifs at hp
    · rcases mem_cons.1 hp with rfl | hp
      · exact hx
      · exact h p hp
    · rcases mem_cons.1 hp with rfl | hp
      · exact hy
      · exact ih p hp
    · rcases mem_cons.1 hp with rfl | hp
      · exact hx
      · exact h p (mem_cons_of_mem _ hp)

theorem short_fieldAt {path} {t t' : GoType} {v v'} (hv : Short v)
    (h : fieldAt path t v = some (t', v')) : Short v' := by
  induction path generalizing t v with
  | nil => cases h; exact hv
  | cons i path ih =>
    cases hv with
    | struct hvs =>
      rw [fieldAt.eq_def] at h
      dsimp only at h
      split at h
      · split at h
        · rename_i _ _ _ _ _ hi
          exact ih (hvs _ (mem_of_getElem? hi)) h
        · cases h
      · cases h
    | _ => simp [fieldAt] at h

theorem short_setFieldAt {path x v} (hx : Short x) (hv : Short v) :
    Short (setFieldAt x path v) := by
  induction path generalizing v with
  | nil => exact hx
  | cons i path ih =>
    cases hv with
    | @struct vs hvs =>
      refine .struct fun w hw => ?_
      obtain ⟨j, hj⟩ := mem_iff_getElem?.1 hw
      rw [getElem?_modify] at hj
      obtain ⟨u, hu, rfl⟩ := map_eq_some_iff.1 hj
      have hus := hvs u (mem_of_getElem? hu)
      split_ifs
      · exact ih hus
      · exact hus
    | _ => rw [setFieldAt.eq_def]; constructor <;> assumption

theorem short_set {xs : List GoVal} {i : ℕ} {x : GoVal} (hx : Short x) (h : ∀ v ∈ xs, Short v) :
    ∀ v ∈ xs.set i x, Short v := fun v hv => by
  rcases mem_or_eq_of_mem_set hv with hv | rfl
  · exact h v hv
  · exact hx

theorem short_ensureSliceCapacity {isArray addr} {e : GoType} {i s s'} (h1 : ∀ v ∈ s.1, Short v)
    (h2 : ∀ v ∈ s.2, Short v) (h : ensureSliceCapacity isArray e addr i s = .ok s') :
    (∀ v ∈ s'.1, Short v) ∧ ∀ v ∈ s'.2, Short v := by
  simp only [ensureSliceCapacity] at h
  split_ifs at h with hlt hpanic hcap
  · cases h; exact ⟨h1, h2⟩
  all_goals cases h
  · refine ⟨fun v hv => ?_, fun v hv => h2 v (mem_of_mem_drop hv)⟩
    rcases mem_append.1 hv with hv | hv
    · exact h1 v hv
    · exact h2 v (mem_of_mem_take hv)
  · refine ⟨fun v hv => ?_, fun v hv => ?_⟩
    · rcases mem_append.1 hv with hv | hv
      · exact h1 v hv
      · rw [eq_of_mem_replicate (mem_of_mem_take hv)]; exact short_zero e
    · rw [eq_of_mem_replicate (mem_of_mem_drop hv)]; exact short_zero e

theorem RValue.set_eq_ok {v : RValue} {x y : GoVal} (h : v.set x = .ok y) : y = x := by
  rw [RValue.set.eq_def] at h
  split at h
  · cases h; rfl
  · cases h

theorem bmod_pow_bounds {i} (h1 : -2 ^ 63 ≤ i) (h2 : i < 2 ^ 63) (bits : ℕ) :
    -2 ^ 63 ≤ i.bmod (2 ^ bits) ∧ i.bmod (2 ^ bits) < 2 ^ 63 := by
  rcases lt_or_ge bits 64 with hb | hb
  · -- a narrow destination bounds its content by itself
    have hpow : (2 : ℤ) ^ bits ≤ 2 ^ 63 := pow_le_pow_right₀ (by norm_num) (by omega)
    have hpos : 0 < (2 : ℕ) ^ bits := by positivity
    have hle := le_bmod (x := i) hpos
    have hlt := bmod_lt (x := i) hpos
    push_cast at hle hlt
    constructor <;> omega
  · have hpow : (2 : ℤ) ^ 64 ≤ 2 ^ bits := pow_le_pow_right₀ (by norm_num) hb
    rw [bmod_eq_of_le] <;> push_cast <;> omega

theorem parseInt64_bounds {ds i} (h : parseInt64 ds = .ok i) : -2 ^ 63 ≤ i ∧ i < 2 ^ 63 := by
  rw [parseInt64] at h
  split at h
  · rename_i j hj
    cases h
    exact parseInt_range hj
  · cases h

theorem short_assignIntegerValue {v : RValue} {ds : Bytes} {x : GoVal}
    (h : assignIntegerValue v ds = .ok x) : Short x := by
  cases v with
  | invalid => cases h; exact .nilIface
  | mk t old addr =>
    rw [assignIntegerValue] at h
    split at h
    · obtain ⟨i, hi, h⟩ := except_bind_eq_ok.1 h
      obtain ⟨h1, h2⟩ := parseInt64_bounds hi
      rw [RValue.set_eq_ok h]; exact .iface (.int h1 h2)
    · obtain ⟨i, hi, h⟩ := except_bind_eq_ok.1 h
      obtain ⟨h1, h2⟩ := parseInt64_bounds hi
      rw [RValue.set_eq_ok h]
      exact .int (bmod_pow_bounds h1 h2 _).1 (bmod_pow_bounds h1 h2 _).2
    · obtain ⟨i, hi, h⟩ := except_bind_eq_ok.1 h
      rw [RValue.set_eq_ok h]; exact .uint
    · obtain ⟨i, hi, h⟩ := except_bind_eq_ok.1 h
      rw [RValue.set_eq_ok h]; exact .bool
    · cases h

theorem short_assignString {v : RValue} {c : Bytes} {x : GoVal} (hc : c.length < 2 ^ 31)
    (h : assignString v c = .ok x) : Short x := by
  cases v with
  | invalid => cases h
  | mk t old addr =>
    rw [assignString.eq_def] at h
    dsimp only at h
    split at h
    · rw [RValue.set_eq_ok h]; exact short_bytesVal c
    · split at h
      · rw [RValue.set_eq_ok h]; exact .str hc
      · rw [RValue.set_eq_ok h]; exact .iface (.str hc)
      · cases h

/-! ## Targets -/

def RValue.Short : RValue → Prop
  | .invalid => True
  | .mk _ v _ => Bencode.Short v

def Resolved.Short (r : Resolved) : Prop :=
  (match r.target with
    | .unmarshaler u old | .textUnmarshaler u old => ∀ b x, u old b = .ok x → Bencode.Short x
    | .value v => v.Short
    | .panic => True) ∧ ∀ x, Bencode.Short x → Bencode.Short (r.put x)

theorem Resolved.Short.map {r : Resolved} (h : r.Short) {f : GoVal → GoVal}
    (hf : ∀ x, Bencode.Short x → Bencode.Short (f x)) : (r.map f).Short :=
  ⟨h.1, fun x hx => hf _ (h.2 x hx)⟩

theorem short_allocElem (t : GoType) {x} (hx : Short x) : Short ((allocElem t).2 x) := by
  induction t using allocElem.induct with
  | case1 t ih => exact .ptr ih
  | case2 t ht => rw [allocElem.eq_2 t ht]; exact hx

theorem short_indirectAlloc {t : GoType} {v addr} (hv : Short v) :
    (indirectAlloc t v addr).Short := by
  rw [indirectAlloc.eq_def]
  split
  · split
    · split_ifs
      · exact ⟨short_zero _, fun x hx => .ptr (short_allocElem _ hx)⟩
      · exact ⟨trivial, fun x hx => hx⟩
    · exact ⟨trivial, fun x hx => hx⟩
  · exact ⟨trivial, fun x hx => .iface hx⟩
  · cases hv with
    | iface hv => exact ⟨hv, fun x hx => .iface hx⟩
  · exact ⟨hv, fun x hx => hx⟩

theorem short_checkUnmarshalers {env} (henv : ShortEnv env) {t : GoType} {v target} (hv : Short v)
    (h : checkUnmarshalers env t v = some target) :
    Resolved.Short ⟨target, id⟩ := by
  rw [checkUnmarshalers.eq_def] at h
  split at h
  · rename_i name _
    split at h
    · rename_i u hu
      cases h
      exact ⟨fun b x hx => henv.unmarshalBencode name u hu v b x hv hx, fun x hx => hx⟩
    · rename_i u _ hu
      cases h
      exact ⟨fun b x hx => henv.unmarshalText name u hu v b x hv hx, fun x hx => hx⟩
    · cases h
  · cases h

theorem short_indirect {env : Env} (henv : ShortEnv env) (t : GoType) (v : GoVal) (addr : Bool)
    (hv : Short v) : (indirect env t v addr).Short := by
  fun_induction indirect env t v addr with
  | case1 v t addr target h =>
    split_ifs at h
    exact short_checkUnmarshalers henv hv h
  | case2 t addr v e _ _ ih =>
    cases hv with
    | ptr hv => exact (ih hv).map fun x hx => .ptr hx
  | case3 => exact ⟨trivial, fun x hx => hx⟩
  | case4 t addr e v _ ih =>
    cases hv with
    | iface hv =>
      cases hv with
      | ptr hv => exact (ih hv).map fun x hx => .iface (.ptr hx)
  | case5 => exact short_indirectAlloc hv

theorem short_atTarget {env : Env} (henv : ShortEnv env) {t : GoType} {old : GoVal} {addr : Bool}
    {tree : Tree} {k : RValue → Except Error GoVal} {x : GoVal} (hold : Short old)
    (hk : ∀ v y, v.Short → k v = .ok y → Short y)
    (h : atTarget env t old addr tree k = .ok x) : Short x := by
  obtain ⟨htgt, hput⟩ := short_indirect henv t old addr hold
  rw [atTarget.eq_def] at h
  dsimp only at h
  split at h
  · cases h
  · rename_i heq
    rw [heq] at htgt
    split_ifs at h
    obtain ⟨y, hy, rfl⟩ := except_map_eq_ok.1 h
    exact hput _ (htgt _ _ hy)
  · rename_i heq
    rw [heq] at htgt
    split at h
    · obtain ⟨y, hy, rfl⟩ := except_map_eq_ok.1 h
      exact hput _ (htgt _ _ hy)
    · cases h
  · split_ifs at h
    obtain ⟨y, hy, rfl⟩ := except_map_eq_ok.1 h
    rw [RValue.set_eq_ok hy]
    exact hput _ (short_bytesVal _)
  · rename_i v hv heq
    rw [heq] at htgt
    obtain ⟨y, hy, rfl⟩ := except_map_eq_ok.1 h
    exact hput _ (hk v y htgt hy)

theorem short_storeList {items : Bool → GoType → Bool → List GoVal × List GoVal →
      Except Error (List GoVal × List GoVal)}
    (hitems : ∀ isArray e addr s s', (∀ v ∈ s.1, Short v) → (∀ v ∈ s.2, Short v) →
      items isArray e addr s = .ok s' → (∀ v ∈ s'.1, Short v) ∧ ∀ v ∈ s'.2, Short v)
    {v : RValue} {x : GoVal} (hv : v.Short) (h : storeList items v = .ok x) : Short x := by
  rw [storeList.eq_def] at h
  split at h
  · cases h
  obtain ⟨hes, hsp⟩ := short_elemsOf hv
  split at h
  · obtain ⟨s, hs, h⟩ := except_bind_eq_ok.1 h
    obtain ⟨h1, h2⟩ := hitems _ _ _ _ _ (by simp) (by simp) hs
    rw [RValue.set_eq_ok h, sliceAfter]
    split_ifs
    · exact .iface .nilSlice
    · exact .iface (.slice h1 h2)
  · obtain ⟨s, hs, rfl⟩ := except_map_eq_ok.1 h
    obtain ⟨h1, h2⟩ := hitems _ _ _ _ _ hes hsp hs
    rw [sliceAfter]
    split_ifs
    · exact hv
    · exact .slice h1 h2
  · obtain ⟨s, hs, rfl⟩ := except_map_eq_ok.1 h
    exact .array (hitems _ _ _ _ _ hes hsp hs).1
  · cases h

theorem short_storeDict {env : Env}
    {entries : DictTarget → GoType → Bool → GoVal → Except Error GoVal}
    (hentries : ∀ tgt t addr cur y, Short cur → entries tgt t addr cur = .ok y → Short y)
    {v : RValue} {x : GoVal} (hv : v.Short) (h : storeDict env entries v = .ok x) : Short x := by
  rw [storeDict.eq_def] at h
  split at h
  · cases h
  split_ifs at h
  · obtain ⟨m, hm, h⟩ := except_bind_eq_ok.1 h
    rw [RValue.set_eq_ok h]
    exact .iface (hentries _ _ _ _ _ (.map (by simp)) hm)
  · obtain ⟨⟨tgt, cur⟩, hc, h⟩ := except_bind_eq_ok.1 h
    refine hentries _ _ _ _ _ ?_ h
    rw [setupDictTarget.eq_def] at hc
    split at hc
    · split at hc
      · split_ifs at hc
        cases hc
        exact .map (by simp)
      · cases hc; exact hv
    · cases hc; exact hv
    · cases hc

theorem short_storePair {x : GoType → GoVal → Bool → Except Error GoVal}
    (hx : ∀ t old addr y, Short old → x t old addr = .ok y → Short y) {tgt} {t : GoType}
    {addr key cur y} (hcur : Short cur) (h : storePair x tgt t addr key cur = .ok y) : Short y := by
  cases tgt with
  | map e =>
    obtain ⟨z, hz, h⟩ := except_bind_eq_ok.1 h
    cases hcur with
    | map hes =>
      cases h
      exact .map (short_mapSet (hx _ _ _ _ (short_zero e) hz) hes)
    | _ => cases h
  | struct vals =>
    rw [storePair.eq_def] at h
    dsimp only at h
    split at h
    · rename_i path t' v' heq
      obtain ⟨z, hz, rfl⟩ := except_map_eq_ok.1 h
      obtain ⟨p, -, hp⟩ := bind_eq_some_iff.1 heq
      obtain ⟨q, hq, he⟩ := map_eq_some_iff.1 hp
      cases he
      exact short_setFieldAt (hx _ _ _ _ (short_fieldAt hcur hq) hz) hcur
    · obtain ⟨z, -, rfl⟩ := except_map_eq_ok.1 h
      exact hcur

/-! ## Storing a tree -/

mutual

theorem store_short {env} (henv : ShortEnv env) : ∀ (tree : Tree) {t : GoType}
    {old : GoVal} {addr : Bool} {x : GoVal}, tree.WF → Short old →
    store env t old addr tree = .ok x → Short x
  | .int ds, _, _, _, _, _, hold, h =>
    short_atTarget henv hold (fun _ _ _ h => short_assignIntegerValue h) h
  | .str len c, _, _, _, _, hw, hold, h => by
    refine short_atTarget henv hold (fun v y _ h => ?_) h
    split_ifs at h
    exact short_assignString (StrOk.length_lt hw) h
  | .list ts, _, _, _, _, hw, hold, h =>
    short_atTarget henv hold (fun _ _ hv h => short_storeList
      (fun _ _ _ _ _ h1 h2 h => storeItems_short henv ts hw h1 h2 h) hv h) h
  | .dict es, _, _, _, _, hw, hold, h =>
    short_atTarget henv hold (fun _ _ hv h => short_storeDict
      (fun _ _ _ _ _ hcur h => storeEntries_short henv es hw hcur h) hv h) h

theorem storeItems_short {env : Env} (henv : ShortEnv env) : ∀ (ts : List Tree) {isArray : Bool}
    {e : GoType} {addr : Bool} {i : ℕ} {s s' : List GoVal × List GoVal}, WFItems ts →
    (∀ v ∈ s.1, Short v) → (∀ v ∈ s.2, Short v) →
    storeItems env isArray e addr i s ts = .ok s' → (∀ v ∈ s'.1, Short v) ∧ ∀ v ∈ s'.2, Short v
  | [], _, _, _, _, _, _, _, h1, h2, h => by cases h; exact ⟨h1, h2⟩
  | t :: ts, _, e, _, i, s, _, hw, h1, h2, h => by
    rw [storeItems] at h
    obtain ⟨s1, hs1, h⟩ := except_bind_eq_ok.1 h
    obtain ⟨x, hx, h⟩ := except_bind_eq_ok.1 h
    obtain ⟨h3, h4⟩ := short_ensureSliceCapacity h1 h2 hs1
    have hget : Short (s1.1.getD i (zero e)) := by
      rw [getD_eq_getElem?_getD]
      cases hi : s1.1[i]? with
      | none => exact short_zero e
      | some v => exact h3 v (mem_of_getElem? hi)
    have hset : ∀ v ∈ s1.1.set i x, Short v := short_set (store_short henv t hw.1 hget hx) h3
    exact storeItems_short henv ts (s := (s1.1.set i x, s1.2)) hw.2 hset h4 h

theorem storeEntries_short {env} (henv : ShortEnv env) : ∀ (es : List (Entry Tree))
    {tgt : DictTarget} {t : GoType} {addr : Bool} {cur y : GoVal}, WFEntries es → Short cur →
    storeEntries env tgt t addr cur es = .ok y → Short y
  | [], _, _, _, _, _, _, hcur, h => by cases h; exact hcur
  | ⟨_, _, t⟩ :: es, _, _, _, _, _, hw, hcur, h => by
    rw [storeEntries] at h
    obtain ⟨c, hc, h⟩ := except_bind_eq_ok.1 h
    exact storeEntries_short henv es hw.2.2
      (short_storePair (fun _ _ _ _ hold h => store_short henv t hw.2.1 hold h) hcur hc) h

end

theorem decodeBytes_short {env} (henv : ShortEnv env) {b} {t : GoType}
    {old x} (hold : Short old) (h : DecodeBytes env b t old = .ok x) : Short x := by
  obtain ⟨tree, s, hw, -, hs⟩ := decodeBytes_ok_iff.1 h
  exact store_short henv tree hw hold hs

end GoI2pBt.Bencode
