/-
  Query strings.
-/
import GoI2pBt.Lib.Hex

namespace GoI2pBt

open List

variable {p : Bytes × Bytes} {x : UInt8} {s : Bytes}

abbrev Values := Finmap fun _ : Bytes => List Bytes

namespace Values

def all (vs : Values) (k : Bytes) : List Bytes := (vs.lookup k).getD []

def Get (vs : Values) (k : Bytes) : Bytes := (vs.all k).headD []

def Set (vs : Values) (k v : Bytes) : Values := vs.insert k [v]

def Add (vs : Values) (k v : Bytes) : Values := vs.insert k (vs.all k ++ [v])

def Del (vs : Values) (k : Bytes) : Values := vs.erase k

variable {vs ws : Values} {k k' v : Bytes}

@[simp] theorem all_empty : (∅ : Values).all k = [] := rfl

theorem all_insert {l} : Values.all (vs.insert k l) k' = if k' = k then l else vs.all k' := by
  by_cases h : k' = k
  · subst h
    simp [all]
  · rw [all, Finmap.lookup_insert_of_ne vs h, if_neg h, all]

theorem all_add : (vs.Add k v).all k' = if k' = k then vs.all k' ++ [v] else vs.all k' := by
  rw [Add, all_insert]
  by_cases h : k' = k
  · rw [if_pos h, if_pos h, h]
  · rw [if_neg h, if_neg h]

theorem all_del : (vs.Del k).all k' = if k' = k then [] else vs.all k' := by
  by_cases h : k' = k
  · subst h
    simp [all, Del, Finmap.lookup_erase]
  · rw [all, Del, Finmap.lookup_erase_ne h, if_neg h, all]

theorem get_set : (vs.Set k v).Get k' = if k' = k then v else vs.Get k' := by
  rw [Get, Set, all_insert, Get]
  by_cases h : k' = k
  · rw [if_pos h, if_pos h]
    rfl
  · rw [if_neg h, if_neg h]

/-! ## Maps without empty lists -/

def Proper (vs : Values) : Prop := ∀ k, vs.lookup k ≠ some []

theorem Proper.ext (hv : vs.Proper) (hw : ws.Proper) (h : ∀ k, vs.all k = ws.all k) : vs = ws := by
  refine Finmap.ext_lookup fun k => ?_
  have hk := h k
  rw [all, all] at hk
  have hvk := hv k
  have hwk := hw k
  cases hvs : vs.lookup k with
  | none =>
    cases hws : ws.lookup k with
    | none => rfl
    | some l =>
      rw [hvs, hws] at hk
      rw [hws, ← show [] = l from hk] at hwk
      exact absurd rfl hwk
  | some l =>
    cases hws : ws.lookup k with
    | none =>
      rw [hvs, hws] at hk
      rw [hvs, show l = [] from hk] at hvk
      exact absurd rfl hvk
    | some l' =>
      rw [hvs, hws] at hk
      exact congrArg some hk

theorem proper_empty : (∅ : Values).Proper := fun k => by simp

theorem Proper.insert (h : vs.Proper) {l} (hl : l ≠ []) :
    Values.Proper (vs.insert k l) := fun k' => by
  by_cases hk : k' = k
  · subst hk
    rw [Finmap.lookup_insert]
    simpa using hl
  · rw [Finmap.lookup_insert_of_ne vs hk]
    exact h k'

theorem Proper.add (h : vs.Proper) : (vs.Add k v).Proper := h.insert (by simp)

theorem Proper.del (h : vs.Proper) : (vs.Del k).Proper := fun k' => by
  by_cases hk : k' = k
  · subst hk
    simp [Del, Finmap.lookup_erase]
  · rw [Del, Finmap.lookup_erase_ne hk]
    exact h k'

/-! ## Maps and their settings -/

def ofPairs (l : List (Bytes × Bytes)) : Values := l.foldl (fun vs p => vs.Add p.1 p.2) ∅

def pairs (vs : Values) : List (Bytes × Bytes) :=
  (vs.keys.sort (· ≤ ·)).flatMap fun k => (vs.all k).map fun v => (k, v)

def settings (l : List (Bytes × Bytes)) (k : Bytes) : List Bytes :=
  (l.filter fun p => p.1 = k).map Prod.snd

@[simp] theorem pairs_empty : (∅ : Values).pairs = [] := by
  rw [pairs, Finmap.keys_empty, Finset.sort_empty, flatMap_nil]

theorem all_foldl_add (l : List (Bytes × Bytes)) :
    (l.foldl (fun vs p => vs.Add p.1 p.2) vs).all k = vs.all k ++ settings l k := by
  induction l generalizing vs with
  | nil => simp [settings]
  | cons p l ih =>
    rw [foldl_cons, ih, all_add]
    by_cases h : k = p.1
    · simp [settings, ← h]
    · simp [settings, h, Ne.symm h]

@[simp] theorem all_ofPairs (l : List (Bytes × Bytes)) : (ofPairs l).all k = settings l k :=
  all_foldl_add l

theorem proper_ofPairs (l : List (Bytes × Bytes)) : (ofPairs l).Proper :=
  foldlRecOn l _ proper_empty fun _ h _ _ => h.add

@[simp] theorem settings_append (l l' : List (Bytes × Bytes)) :
    settings (l ++ l') k = settings l k ++ settings l' k := by
  simp [settings]

theorem settings_map (l : List Bytes) :
    settings (l.map fun v => (k', v)) k = if k' = k then l else [] := by
  by_cases h : k' = k
  · have hall : (l.map fun v => (k', v)).filter (fun p => p.1 = k) = l.map fun v => (k', v) :=
      filter_eq_self.2 fun p hp => by
        obtain ⟨v, -, rfl⟩ := mem_map.1 hp
        simpa using h
    rw [settings, hall, if_pos h, map_map]
    exact map_id l
  · simp [settings, h]

theorem settings_flatMap {ks : List Bytes} (hks : ks.Nodup) (f : Bytes → List Bytes) :
    settings (ks.flatMap fun k => (f k).map fun v => (k, v)) k = if k ∈ ks then f k else [] := by
  induction ks with
  | nil => rfl
  | cons k' ks ih =>
    obtain ⟨hk', hks⟩ := nodup_cons.1 hks
    rw [flatMap_cons, settings_append, settings_map, ih hks]
    by_cases h : k' = k
    · subst h
      simp [hk']
    · simp [h, Ne.symm h]

@[simp] theorem settings_pairs : settings vs.pairs k = vs.all k := by
  rw [pairs, settings_flatMap (Finset.sort_nodup _ _)]
  by_cases hk : k ∈ vs.keys
  · rw [if_pos ((Finset.mem_sort _).2 hk)]
  · rw [if_neg fun h => hk ((Finset.mem_sort _).1 h), all,
      Finmap.lookup_eq_none.2 fun h => hk (Finmap.mem_keys.2 h)]
    rfl

end Values

/-! ## Escaping -/

def Unreserved (c : UInt8) : Prop :=
  65 ≤ c.toNat ∧ c.toNat ≤ 90 ∨ 97 ≤ c.toNat ∧ c.toNat ≤ 122 ∨ 48 ≤ c.toNat ∧ c.toNat ≤ 57 ∨
    c = ch '-' ∨ c = ch '_' ∨ c = ch '.' ∨ c = ch '~'

instance : DecidablePred Unreserved := fun c => by unfold Unreserved; infer_instance

def upperHexByte (d : ℕ) : UInt8 := if d < 10 then UInt8.ofNat (48 + d) else UInt8.ofNat (55 + d)

def escapeByte (c : UInt8) : Bytes :=
  if Unreserved c then [c]
  else if c = ch ' ' then [ch '+']
  else [ch '%', upperHexByte (c.toNat / 16), upperHexByte (c.toNat % 16)]

def queryEscape (s : Bytes) : Bytes := s.flatMap escapeByte

def queryUnescape : Bytes → Option Bytes
  | [] => some []
  | c :: s =>
    if c = ch '%' then
      match s with
      | a :: b :: s => do
        let hi ← fromHexChar a
        let lo ← fromHexChar b
        return UInt8.ofNat (hi * 16 + lo) :: (← queryUnescape s)
      | _ => none
    else (queryUnescape s).map ((if c = ch '+' then ch ' ' else c) :: ·)

theorem queryUnescape_cons {c} (h : c ≠ ch '%') (s : Bytes) :
    queryUnescape (c :: s) = (queryUnescape s).map ((if c = ch '+' then ch ' ' else c) :: ·) := by
  conv_lhs => unfold queryUnescape
  rw [if_neg h]

theorem upperHexByte_spec {d} (h : d < 16) :
    fromHexChar (upperHexByte d) = some d ∧ Unreserved (upperHexByte d) := by
  interval_cases d <;> decide

theorem queryUnescape_escapeByte (c : UInt8) (s : Bytes) :
    queryUnescape (escapeByte c ++ s) = (queryUnescape s).map (c :: ·) := by
  have hc : c.toNat < 256 := c.toNat_lt
  unfold escapeByte
  split_ifs with hu hs
  · have hp : c ≠ ch '%' := by rintro rfl; exact absurd hu (by decide)
    have hq : c ≠ ch '+' := by rintro rfl; exact absurd hu (by decide)
    rw [singleton_append, queryUnescape_cons hp, if_neg hq]
  · subst hs
    rw [singleton_append, queryUnescape_cons (by decide), if_pos rfl]
  · have hhi := (upperHexByte_spec (d := c.toNat / 16) (by omega)).1
    have hlo := (upperHexByte_spec (d := c.toNat % 16) (by omega)).1
    have hbyte : UInt8.ofNat (c.toNat / 16 * 16 + c.toNat % 16) = c := by
      rw [Nat.div_add_mod' c.toNat 16, UInt8.ofNat_toNat]
    simp only [cons_append, nil_append, queryUnescape, if_true, hhi, hlo,
      Option.bind_eq_bind, Option.bind_some, hbyte]
    cases queryUnescape s <;> rfl

@[simp] theorem queryUnescape_queryEscape (s : Bytes) : queryUnescape (queryEscape s) = some s := by
  induction s with
  | nil => rfl
  | cons c s ih =>
    change queryUnescape (escapeByte c ++ queryEscape s) = _
    rw [queryUnescape_escapeByte, ih]
    rfl

theorem queryUnescape_plain (hp : ch '%' ∉ s) (hq : ch '+' ∉ s) : queryUnescape s = some s := by
  induction s with
  | nil => rfl
  | cons c s ih =>
    rw [mem_cons, not_or] at hp hq
    rw [queryUnescape_cons (Ne.symm hp.1), if_neg (Ne.symm hq.1), ih hp.2 hq.2]
    rfl

theorem mem_queryEscape (h : x ∈ queryEscape s) : Unreserved x ∨ x = ch '+' ∨ x = ch '%' := by
  obtain ⟨c, -, hx⟩ := mem_flatMap.1 h
  have hc : c.toNat < 256 := c.toNat_lt
  unfold escapeByte at hx
  split_ifs at hx with hu hs
  · rw [mem_singleton] at hx
    exact .inl (hx ▸ hu)
  · exact .inr (.inl (mem_singleton.1 hx))
  · simp only [mem_cons, not_mem_nil, or_false] at hx
    rcases hx with rfl | rfl | rfl
    · exact .inr (.inr rfl)
    · exact .inl (upperHexByte_spec (by omega)).2
    · exact .inl (upperHexByte_spec (by omega)).2

theorem notMem_queryEscape (h : ¬ (Unreserved x ∨ x = ch '+' ∨ x = ch '%'))
    (s : Bytes) : x ∉ queryEscape s :=
  fun hx => h (mem_queryEscape hx)

/-! ## Query strings -/

def parseSetting (s : Bytes) : Option (Bytes × Bytes) :=
  if ch ';' ∈ s ∨ s = [] then none
  else
    let p := (cut (ch '=') s).getD (s, [])
    do return (← queryUnescape p.1, ← queryUnescape p.2)

def ParseQuery (query : Bytes) : Values :=
  .ofPairs ((query.splitOn (ch '&')).filterMap parseSetting)

def settingText (p : Bytes × Bytes) : Bytes := queryEscape p.1 ++ ch '=' :: queryEscape p.2

def Values.Encode (vs : Values) : Bytes := [ch '&'].intercalate (vs.pairs.map settingText)

theorem mem_settingText (h : x ∈ settingText p) :
    Unreserved x ∨ x = ch '+' ∨ x = ch '%' ∨ x = ch '=' := by
  rw [settingText, mem_append, mem_cons] at h
  rcases h with h | rfl | h
  · rcases mem_queryEscape h with h | h | h <;> simp [h]
  · simp
  · rcases mem_queryEscape h with h | h | h <;> simp [h]

theorem notMem_settingText
    (h : ¬ (Unreserved x ∨ x = ch '+' ∨ x = ch '%' ∨ x = ch '=')) (p : Bytes × Bytes) :
    x ∉ settingText p :=
  fun hx => h (mem_settingText hx)

theorem parseSetting_text {k k' s v : Bytes} (hk : ch '=' ∉ k) (hsemi : ch ';' ∉ k ++ ch '=' :: s)
    (hunk : queryUnescape k = some k') (huns : queryUnescape s = some v) :
    parseSetting (k ++ ch '=' :: s) = some (k', v) := by
  rw [parseSetting, if_neg (by simpa using hsemi), cut_append hk]
  simp [hunk, huns]

@[simp] theorem parseSetting_settingText (p : Bytes × Bytes) :
    parseSetting (settingText p) = some p :=
  parseSetting_text (notMem_queryEscape (by decide) _) (notMem_settingText (by decide) p)
    (queryUnescape_queryEscape _) (queryUnescape_queryEscape _)

theorem settings_encode (vs : Values) :
    (vs.Encode.splitOn (ch '&')).filterMap parseSetting = vs.pairs := by
  have hread : (vs.pairs.map settingText).filterMap parseSetting = vs.pairs := by
    simp [filterMap_map]
  by_cases hp : vs.pairs = []
  · rw [Values.Encode, hp]
    rfl
  · rw [Values.Encode, splitOn_intercalate, hread]
    · intro l hl
      obtain ⟨p, -, rfl⟩ := mem_map.1 hl
      exact notMem_settingText (by decide) p
    · simpa using hp

theorem parseQuery_cons (hs : ch '&' ∉ s) (hp : parseSetting s = some p) (vs : Values) :
    ParseQuery (s ++ ch '&' :: vs.Encode) = .ofPairs (p :: vs.pairs) := by
  have hsplit : (s ++ ch '&' :: vs.Encode).splitOn (ch '&')
      = s :: vs.Encode.splitOn (ch '&') :=
    splitOnP_append_cons_of_forall_mem (by
      intro x hx
      simpa using fun h : x = ch '&' => hs (h ▸ hx)) _ (by simp) _
  rw [ParseQuery, hsplit, filterMap_cons, hp, settings_encode]

theorem parseQuery_singleton (hs : ch '&' ∉ s)
    (hp : parseSetting s = some p) : ParseQuery s = .ofPairs [p] := by
  have hsplit : s.splitOn (ch '&') = [s] := by
    have h : ∀ l ∈ [s], ch '&' ∉ l := fun l hl => mem_singleton.1 hl ▸ hs
    simpa using splitOn_intercalate (ch '&') h (cons_ne_nil _ _)
  rw [ParseQuery, hsplit, filterMap_cons, hp]
  rfl

theorem mem_encode {vs : Values} (h : x ∈ vs.Encode) :
    Unreserved x ∨ x = ch '+' ∨ x = ch '%' ∨ x = ch '=' ∨ x = ch '&' := by
  rw [Values.Encode] at h
  generalize vs.pairs = ps at h
  induction ps with
  | nil => simp [intercalate] at h
  | cons p ps ih =>
    cases ps with
    | nil =>
      rw [map_singleton, intercalate_singleton] at h
      rcases mem_settingText h with h | h | h | h <;> simp [h]
    | cons p' ps =>
      rw [map_cons, map_cons, intercalate_cons_cons, mem_append, mem_append, mem_singleton] at h
      rcases h with (h | h) | h
      · rcases mem_settingText h with h | h | h | h <;> simp [h]
      · simp [h]
      · exact ih h

/-! ## URLs without a host and a path -/

structure URL where
  Scheme : Bytes
  RawQuery : Bytes
deriving DecidableEq

def URL.String (u : URL) : Bytes :=
  u.Scheme ++ ch ':' :: (if u.RawQuery ≠ [] then ch '?' :: u.RawQuery else [])

structure URL.Plain (u : URL) : Prop where
  scheme : ∀ c ∈ u.Scheme, 97 ≤ c.toNat ∧ c.toNat ≤ 122
  scheme_ne : u.Scheme ≠ []
  query : ∀ c ∈ u.RawQuery, 32 ≤ c.toNat ∧ c.toNat ≠ 127 ∧ c ≠ ch '#'

structure URLParser where
  Parse : Bytes → Option URL
  parse_string : ∀ u : URL, u.Plain → Parse u.String = some u

def plainParser : URLParser where
  Parse s :=
    match cut (ch ':') s with
    | none => none
    | some (scheme, []) => some ⟨scheme, []⟩
    | some (scheme, c :: query) => if c = ch '?' then some ⟨scheme, query⟩ else none
  parse_string u h := by
    have hcolon : ch ':' ∉ u.Scheme := fun hc => absurd (h.scheme _ hc) (by decide)
    obtain ⟨scheme, query⟩ := u
    rw [URL.String, cut_append hcolon]
    cases query with
    | nil => rfl
    | cons c query => rfl

end GoI2pBt
