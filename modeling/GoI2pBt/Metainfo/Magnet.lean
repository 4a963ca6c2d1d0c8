/-
  Magnet links, written and parsed.
-/
import GoI2pBt.Lib.Url
import GoI2pBt.Metainfo.Hash

namespace GoI2pBt.Metainfo

open List Bencode Values

@[ext]
structure Magnet where
  InfoHash : Hash
  Trackers : List Bytes
  DisplayName : Bytes
  WebSeeds : List Bytes
  Params : Values
deriving DecidableEq

def xtPrefix : Bytes := utf8 "urn:btih:"

def parseInfohash (xt : Bytes) : Except Error Hash :=
  if ¬ xtPrefix <+: xt then .error (.method "bad xt parameter prefix")
  else
    let encoded := xt.drop xtPrefix.length
    let decoded :=
      if encoded.length = 40 then some (hexDecode encoded)
      else if encoded.length = 32 then some (base32StdDecode encoded)
      else none
    match decoded with
    | none => .error (.method "unhandled xt parameter encoding (encoded length %d)")
    | some none => .error (.method "error decoding xt: %s")
    | some (some b) => if b.length ≠ 20 then .error .panic else .ok (.ofBytes b)

def dropFirst (vs : Values) (key : Bytes) : Values :=
  match vs.all key with
  | [] => vs.Del key
  | [_] => vs.Del key
  | _ :: sl => vs.insert key sl

def magnetOf (ih : Hash) (q : Values) : Magnet :=
  let q := dropFirst q (utf8 "xt")
  let displayName := q.Get (utf8 "dn")
  let q := dropFirst q (utf8 "dn")
  let trackers := q.all (utf8 "tr")
  let q := q.Del (utf8 "tr")
  let webSeeds := q.all (utf8 "ws")
  let q := q.Del (utf8 "ws")
  ⟨ih, trackers, displayName, webSeeds, q⟩

variable (url : URLParser)

def ParseMagnetURI (uri : Bytes) : Except Error Magnet :=
  match url.Parse uri with
  | none => .error (.method "error parsing uri: %s")
  | some u =>
    if u.Scheme ≠ utf8 "magnet" then .error (.method "unexpected scheme %q")
    else
      let q := ParseQuery u.RawQuery
      match parseInfohash (q.Get (utf8 "xt")) with
      | .error .panic => .error .panic
      | .error _ => .error (.method "error parsing infohash %q: %s")
      | .ok ih => .ok (magnetOf ih q)

namespace Magnet

def values (m : Magnet) : Values :=
  let vs := m.Params
  let vs := m.Trackers.foldl (fun vs tr => vs.Add (utf8 "tr") tr) vs
  let vs := m.WebSeeds.foldl (fun vs ws => vs.Add (utf8 "ws") ws) vs
  if m.DisplayName ≠ [] then vs.Add (utf8 "dn") m.DisplayName else vs

def xt (m : Magnet) : Bytes := xtPrefix ++ hexString m.InfoHash.bytes

def rawQuery (m : Magnet) : Bytes :=
  let raw := utf8 "xt=" ++ m.xt
  if m.values ≠ ∅ then raw ++ ch '&' :: m.values.Encode else raw

def String (m : Magnet) : Bytes := URL.String ⟨utf8 "magnet", m.rawQuery⟩

end Magnet

/-! ## What is taken out of a query -/

theorem all_dropFirst (vs : Values) (key k : Bytes) :
    (dropFirst vs key).all k = if k = key then (vs.all k).tail else vs.all k := by
  unfold dropFirst
  split
  · next h =>
    rw [all_del]
    by_cases hk : k = key
    · simp [hk, h]
    · simp [hk]
  · next h =>
    rw [all_del]
    by_cases hk : k = key
    · simp [hk, h]
    · simp [hk]
  · next h =>
    rw [all_insert]
    by_cases hk : k = key
    · simp [hk, h]
    · simp [hk]

theorem proper_dropFirst {vs} (h : vs.Proper) (key : Bytes) : (dropFirst vs key).Proper := by
  unfold dropFirst
  split
  · exact h.del
  · exact h.del
  · next hne _ => exact h.insert hne

structure Magnet.Clean (m : Magnet) : Prop where
  proper : m.Params.Proper
  tr : m.Params.all (utf8 "tr") = []
  ws : m.Params.all (utf8 "ws") = []

theorem all_params_magnetOf (ih : Hash) (q : Values) (k : Bytes) : (magnetOf ih q).Params.all k =
      if k = utf8 "tr" ∨ k = utf8 "ws" then []
      else if k = utf8 "xt" ∨ k = utf8 "dn" then (q.all k).tail
      else q.all k := by
  simp only [magnetOf, all_del, all_dropFirst]
  by_cases hws : k = utf8 "ws"
  · simp [hws]
  by_cases htr : k = utf8 "tr"
  · simp [htr]
  by_cases hdn : k = utf8 "dn"
  · subst hdn
    simp +decide
  by_cases hxt : k = utf8 "xt"
  · subst hxt
    simp +decide
  · simp [hws, htr, hdn, hxt]

theorem clean_magnetOf {ih q} (h : q.Proper) : (magnetOf ih q).Clean where
  proper := (proper_dropFirst (proper_dropFirst h _) _).del.del
  tr := by rw [all_params_magnetOf]; simp
  ws := by rw [all_params_magnetOf]; simp

theorem trackers_magnetOf (ih : Hash) (q : Values) :
    (magnetOf ih q).Trackers = q.all (utf8 "tr") := by
  simp +decide [magnetOf, all_dropFirst]

theorem webSeeds_magnetOf (ih : Hash) (q : Values) :
    (magnetOf ih q).WebSeeds = q.all (utf8 "ws") := by
  simp +decide [magnetOf, all_dropFirst, all_del]

theorem displayName_magnetOf (ih : Hash) (q : Values) :
    (magnetOf ih q).DisplayName = (q.all (utf8 "dn")).headD [] := by
  simp +decide [magnetOf, all_dropFirst, Get]

/-! ## What is put into a query -/

namespace Magnet

variable {m : Magnet}

theorem all_foldl_add_key (vs : Values) (key : Bytes) (l : List Bytes) (k : Bytes) :
    (l.foldl (fun vs v => vs.Add key v) vs).all k = vs.all k ++ if k = key then l else [] := by
  induction l generalizing vs with
  | nil => simp
  | cons v l ih =>
    rw [foldl_cons, ih, all_add]
    by_cases hk : k = key
    · simp [hk]
    · simp [hk]

theorem all_values (k : Bytes) :
    m.values.all k = m.Params.all k ++ (if k = utf8 "tr" then m.Trackers else []) ++
      (if k = utf8 "ws" then m.WebSeeds else []) ++
      (if k = utf8 "dn" ∧ m.DisplayName ≠ [] then [m.DisplayName] else []) := by
  rw [values]
  by_cases hd : m.DisplayName = []
  · simp [hd, all_foldl_add_key]
  · simp only [hd, ne_eq, not_false_eq_true, if_true, and_true, all_add, all_foldl_add_key]
    by_cases hk : k = utf8 "dn"
    · simp [hk]
    · simp [hk]

theorem parseInfohash_xt : parseInfohash m.xt = .ok m.InfoHash := by
  have hlen : (hexString m.InfoHash.bytes).length = 40 := by
    rw [length_hexString, m.InfoHash.length_eq]
    rfl
  have hxt : xtPrefix <+: m.xt := ⟨_, rfl⟩
  have hdrop : m.xt.drop xtPrefix.length = hexString m.InfoHash.bytes := drop_left
  rw [parseInfohash, if_neg (not_not.2 hxt), hdrop]
  dsimp only
  rw [if_pos hlen, hexDecode_hexString]
  have h20 : m.InfoHash.bytes.length = 20 := m.InfoHash.length_eq
  dsimp only
  rw [if_neg (not_not.2 h20), Hash.ofBytes_bytes]

theorem mem_xt {c} (h : c ∈ m.xt) : c ∈ utf8 "urn:btih:0123456789abcdef" := by
  have hdigit : ∀ d < 16, hexByte d ∈ utf8 "urn:btih:0123456789abcdef" := by decide +kernel
  rcases mem_append.1 h with h | h
  · have hprefix : ∀ c ∈ xtPrefix, c ∈ utf8 "urn:btih:0123456789abcdef" := by decide +kernel
    exact hprefix c h
  · obtain ⟨d, hd, rfl⟩ := mem_hexString h
    exact hdigit d hd

theorem notMem_xt {c} (h : c ∉ utf8 "urn:btih:0123456789abcdef") : c ∉ m.xt :=
  fun hc => h (mem_xt hc)

theorem parseSetting_xt : parseSetting (utf8 "xt=" ++ m.xt) = some (utf8 "xt", m.xt) :=
  parseSetting_text (k := utf8 "xt") (by decide)
    (by simpa +decide using notMem_xt (by decide)) rfl
    (queryUnescape_plain (notMem_xt (by decide)) (notMem_xt (by decide)))

theorem parseQuery_rawQuery :
    ParseQuery m.rawQuery = .ofPairs ((utf8 "xt", m.xt) :: m.values.pairs) := by
  have hamp : ch '&' ∉ utf8 "xt=" ++ m.xt := by
    simpa +decide using notMem_xt (by decide)
  rw [rawQuery]
  split_ifs with hvs
  · exact parseQuery_cons hamp parseSetting_xt _
  · rw [not_not.1 hvs, pairs_empty]
    exact parseQuery_singleton hamp parseSetting_xt

theorem plain_string : URL.Plain ⟨utf8 "magnet", m.rawQuery⟩ where
  scheme := show ∀ c ∈ utf8 "magnet", 97 ≤ c.toNat ∧ c.toNat ≤ 122 by decide +kernel
  scheme_ne := show utf8 "magnet" ≠ [] by decide
  query := by
    have hplain : ∀ c : UInt8, Unreserved c ∨ c = ch '+' ∨ c = ch '%' ∨ c = ch '=' ∨ c = ch '&' ∨
        c ∈ utf8 "urn:btih:0123456789abcdef" ∨ c ∈ utf8 "xt=" →
        32 ≤ c.toNat ∧ c.toNat ≠ 127 ∧ c ≠ ch '#' := by decide +kernel
    intro c hc
    refine hplain c ?_
    have hraw : c ∈ utf8 "xt=" ++ m.xt ∨ c = ch '&' ∨ c ∈ m.values.Encode := by
      change c ∈ m.rawQuery at hc
      rw [rawQuery] at hc
      split_ifs at hc with hvs
      · rw [mem_append, mem_cons] at hc
        exact hc
      · exact .inl hc
    rcases hraw with h | h | h
    · rcases mem_append.1 h with h | h
      · simp [h]
      · simp [mem_xt h]
    · simp [h]
    · rcases mem_encode h with h | h | h | h | h <;> simp [h]

theorem parse_string_eq : ParseMagnetURI url m.String =
      .ok (magnetOf m.InfoHash (.ofPairs ((utf8 "xt", m.xt) :: m.values.pairs))) := by
  have hget : Get (.ofPairs ((utf8 "xt", m.xt) :: m.values.pairs)) (utf8 "xt") = m.xt := by
    simp [Get, settings]
  have hscheme : ¬ utf8 "magnet" ≠ utf8 "magnet" := fun h => h rfl
  rw [ParseMagnetURI, String, url.parse_string _ plain_string]
  dsimp only
  rw [if_neg hscheme, parseQuery_rawQuery, hget, parseInfohash_xt]

theorem all_reread (k : Bytes) : all (.ofPairs ((utf8 "xt", m.xt) :: m.values.pairs)) k =
      (if k = utf8 "xt" then [m.xt] else []) ++ m.values.all k := by
  have hcons : (utf8 "xt", m.xt) :: m.values.pairs = [(utf8 "xt", m.xt)] ++ m.values.pairs := rfl
  have hone : settings [(utf8 "xt", m.xt)] k = if k = utf8 "xt" then [m.xt] else [] := by
    by_cases hk : k = utf8 "xt"
    · simp [settings, hk]
    · simp [settings, hk, Ne.symm hk]
  rw [all_ofPairs, hcons, settings_append, hone, settings_pairs]

end Magnet

theorem append_singleton_eq_cons {α : Type} {d : α} {l : List α} :
    l ++ [d] = d :: l ↔ ∀ v ∈ l, v = d := by
  induction l with
  | nil => simp
  | cons v l ih =>
    constructor
    · intro h
      obtain ⟨rfl, h⟩ := cons.inj h
      simpa using ih.1 h
    · intro h
      obtain rfl : v = d := h v mem_cons_self
      rw [cons_append, ih.2 fun w hw => h w (mem_cons_of_mem _ hw)]

theorem reread_dn {d : Bytes} {rest : List Bytes} :
    ((rest ++ if d ≠ [] then [d] else []).headD [] = d ∧
      (rest ++ if d ≠ [] then [d] else []).tail = rest) ↔ ∀ v ∈ rest, v = d ∧ v ≠ [] := by
  cases rest with
  | nil => by_cases hd : d = [] <;> simp [hd]
  | cons v rest =>
    by_cases hd : d = []
    · -- nothing is written for the display name, so that one value is lost
      subst hd
      refine iff_of_false ?_ fun h => (h v mem_cons_self).2 (h v mem_cons_self).1
      rintro ⟨-, h⟩
      simp at h
    · rw [if_pos hd, cons_append, headD_cons, tail_cons]
      constructor
      · rintro ⟨rfl, h⟩ w hw
        have hw : w = v := by
          rcases mem_cons.1 hw with rfl | hw
          · rfl
          · exact append_singleton_eq_cons.1 h w hw
        exact ⟨hw, hw ▸ hd⟩
      · intro h
        obtain rfl : v = d := (h v mem_cons_self).1
        exact ⟨rfl, append_singleton_eq_cons.2 fun w hw => (h w (mem_cons_of_mem _ hw)).1⟩

theorem Magnet.Clean.reread_eq_iff {m : Magnet} (h : m.Clean) :
    magnetOf m.InfoHash (.ofPairs ((utf8 "xt", m.xt) :: m.values.pairs)) = m ↔
      ∀ v ∈ m.Params.all (utf8 "dn"), v = m.DisplayName ∧ v ≠ [] := by
  have hq := proper_ofPairs ((utf8 "xt", m.xt) :: m.values.pairs)
  have hdn : all (.ofPairs ((utf8 "xt", m.xt) :: m.values.pairs)) (utf8 "dn") =
      m.Params.all (utf8 "dn") ++ if m.DisplayName ≠ [] then [m.DisplayName] else [] := by
    rw [Magnet.all_reread, Magnet.all_values]
    simp +decide
  rw [← reread_dn, ← hdn]
  constructor
  · intro he
    have hname := congrArg Magnet.DisplayName he
    have hparams := congrArg (fun m => m.Params.all (utf8 "dn")) he
    rw [displayName_magnetOf] at hname
    rw [all_params_magnetOf, if_neg (by decide), if_pos (.inr rfl)] at hparams
    exact ⟨hname, hparams⟩
  · rintro ⟨hname, hparams⟩
    refine Magnet.ext rfl ?_ ?_ ?_ ((clean_magnetOf hq).proper.ext h.proper fun k => ?_)
    · rw [trackers_magnetOf, Magnet.all_reread, Magnet.all_values, h.tr]
      simp +decide
    · rw [displayName_magnetOf, hname]
    · rw [webSeeds_magnetOf, Magnet.all_reread, Magnet.all_values, h.ws]
      simp +decide
    · rw [all_params_magnetOf]
      by_cases htr : k = utf8 "tr"
      · rw [if_pos (.inl htr), htr, h.tr]
      by_cases hws : k = utf8 "ws"
      · rw [if_pos (.inr hws), hws, h.ws]
      rw [if_neg (by simp [htr, hws])]
      by_cases hkdn : k = utf8 "dn"
      · rw [if_pos (.inr hkdn), hkdn, hparams]
      by_cases hxt : k = utf8 "xt"
      · subst hxt
        rw [if_pos (.inl rfl), Magnet.all_reread, Magnet.all_values]
        simp +decide
      · rw [if_neg (by simp [hxt, hkdn]), Magnet.all_reread, Magnet.all_values]
        simp [htr, hws, hkdn, hxt]

theorem ParseMagnetURI.clean {url uri m} (h : ParseMagnetURI url uri = .ok m) : m.Clean := by
  unfold ParseMagnetURI at h
  split at h
  · cases h
  · split_ifs at h with hs
    dsimp only at h
    split at h
    · cases h
    · cases h
    · cases h
      exact clean_magnetOf (proper_ofPairs _)

/-- **A link is read back if it has one display name.** -/
theorem parse_string_iff (url : URLParser) {uri : Bytes} {m : Magnet}
    (h : ParseMagnetURI url uri = .ok m) :
    ParseMagnetURI url m.String = .ok m ↔
      ∀ v ∈ m.Params.all (utf8 "dn"), v = m.DisplayName ∧ v ≠ [] := by
  rw [Magnet.parse_string_eq, Except.ok.injEq]
  exact (ParseMagnetURI.clean h).reread_eq_iff

def namedLink : Bytes :=
  utf8 "magnet:?xt=urn:btih:0000000000000000000000000000000000000000&dn=a&tr=t"

def renamedLink : Bytes :=
  utf8 "magnet:?xt=urn:btih:0000000000000000000000000000000000000000&dn=a&dn=b"

theorem parse_string_iff_sample : ∃ m, ParseMagnetURI plainParser namedLink = .ok m ∧
    ParseMagnetURI plainParser m.String = .ok m := by
  have h : ParseMagnetURI plainParser namedLink = .ok ⟨.zero, [utf8 "t"], utf8 "a", [], ∅⟩ :=
    except_eq_ok (by decide +kernel)
  exact ⟨_, h, (parse_string_iff plainParser h).2 (by simp)⟩

theorem renamed : ∃ m, ParseMagnetURI plainParser renamedLink = .ok m ∧ m.DisplayName = utf8 "a" ∧
    ∃ m', ParseMagnetURI plainParser m.String = .ok m' ∧ m'.DisplayName = utf8 "b" := by
  have h : ParseMagnetURI plainParser renamedLink =
      .ok ⟨.zero, [], utf8 "a", [], Finmap.singleton (utf8 "dn") [utf8 "b"]⟩ :=
    except_eq_ok (by decide +kernel)
  refine ⟨_, h, rfl, _, Magnet.parse_string_eq _, ?_⟩
  rw [displayName_magnetOf, Magnet.all_reread, Magnet.all_values]
  decide +kernel

theorem parseInfohash_cases (t : Bytes) :
    (∃ ih, parseInfohash (xtPrefix ++ t) = .ok ih ∧ Hash.FromString t = .ok ih ∧ t.length ≠ 20 ∧
        ∀ b, t.length = 32 → base32StdDecode t = some b → b.length = 20) ∨
      (parseInfohash (xtPrefix ++ t) = .error .panic ∧ t.length = 32 ∧
        ∃ b, base32StdDecode t = some b ∧ b.length ≠ 20) ∨
      ∃ msg, parseInfohash (xtPrefix ++ t) = .error (.method msg) ∧
        (t.length = 32 → base32StdDecode t = none) := by
  have hxt : xtPrefix <+: xtPrefix ++ t := ⟨_, rfl⟩
  have hdrop : (xtPrefix ++ t).drop xtPrefix.length = t := List.drop_left
  rw [parseInfohash, if_neg (not_not.2 hxt), hdrop]
  dsimp only
  by_cases h40 : t.length = 40
  · rw [if_pos h40]
    cases hdec : hexDecode t with
    | none => exact .inr (.inr ⟨_, rfl, by omega⟩)
    | some b =>
      have hb : b.length = 20 := by
        have := length_hexDecode hdec
        omega
      left
      refine ⟨.ofBytes b, if_neg (not_not.2 hb), ?_, by omega, by omega⟩
      rw [Hash.FromString, if_neg (by rw [h40]; decide),
        if_pos (show t.length = 2 * HashSize from h40), hdec]
  by_cases h32 : t.length = 32
  · rw [if_neg h40, if_pos h32]
    cases hdec : base32StdDecode t with
    | none => exact .inr (.inr ⟨_, rfl, fun _ => rfl⟩)
    | some b =>
      by_cases hb : b.length = 20
      · left
        refine ⟨.ofBytes b, if_neg (not_not.2 hb), ?_, by omega, ?_⟩
        · rw [Hash.FromString, if_neg (by rw [h32]; decide), if_neg (by rw [h32]; decide),
            if_pos h32, (base32Decode_eq_some_iff h32).2 ⟨hdec, hb⟩]
        · rintro _ - ⟨⟩
          exact hb
      · exact .inr (.inl ⟨if_pos hb, h32, b, rfl, hb⟩)
  · rw [if_neg h40, if_neg h32]
    exact .inr (.inr ⟨_, rfl, fun h => absurd h h32⟩)

variable (url : URLParser)

def hashText (uri : Bytes) : Option Bytes :=
  match url.Parse uri with
  | none => none
  | some u =>
    if u.Scheme ≠ utf8 "magnet" then none
    else
      let xt := (ParseQuery u.RawQuery).Get (utf8 "xt")
      if xtPrefix <+: xt then some (xt.drop xtPrefix.length) else none

variable {url} {uri : Bytes}

theorem parseMagnetURI_of_none (h : hashText url uri = none) :
    ∃ msg, ParseMagnetURI url uri = .error (.method msg) := by
  rw [hashText] at h
  rw [ParseMagnetURI]
  cases hu : url.Parse uri with
  | none => exact ⟨_, rfl⟩
  | some u =>
    rw [hu] at h
    dsimp only at h ⊢
    by_cases hs : u.Scheme ≠ utf8 "magnet"
    · rw [if_pos hs]
      exact ⟨_, rfl⟩
    · rw [if_neg hs] at h ⊢
      have hxt : ¬ xtPrefix <+: (ParseQuery u.RawQuery).Get (utf8 "xt") := fun hxt => by
        rw [if_pos hxt] at h
        cases h
      rw [parseInfohash, if_pos hxt]
      exact ⟨_, rfl⟩

theorem parseMagnetURI_of_some {t} (h : hashText url uri = some t) :
    (∀ ih, parseInfohash (xtPrefix ++ t) = .ok ih →
        ∃ m, ParseMagnetURI url uri = .ok m ∧ m.InfoHash = ih) ∧
      (parseInfohash (xtPrefix ++ t) = .error .panic → ParseMagnetURI url uri = .error .panic) ∧
      ∀ msg, parseInfohash (xtPrefix ++ t) = .error (.method msg) →
        ∃ msg, ParseMagnetURI url uri = .error (.method msg) := by
  rw [hashText] at h
  rw [ParseMagnetURI]
  cases hu : url.Parse uri with
  | none =>
    rw [hu] at h
    cases h
  | some u =>
    rw [hu] at h
    dsimp only at h ⊢
    split_ifs at h with hs hxt
    cases h
    obtain ⟨t, ht⟩ := hxt
    rw [if_neg hs, ← ht, List.drop_left]
    refine ⟨fun ih hih => ?_, fun hpanic => ?_, fun msg hmsg => ?_⟩
    · rw [hih]
      exact ⟨_, rfl, rfl⟩
    · rw [hpanic]
    · rw [hmsg]
      exact ⟨_, rfl⟩

variable (url uri) in
structure ParsesHash : Prop where
  returns : ParseMagnetURI url uri ≠ .error .panic
  hash : ∀ m, ParseMagnetURI url uri = .ok m →
    ∃ t, hashText url uri = some t ∧ Hash.FromString t = .ok m.InfoHash
  fails : ∀ t, hashText url uri = some t →
    (∃ err, Hash.FromString t = .error err) ∨ t.length = HashSize →
    ∃ err, ParseMagnetURI url uri = .error err

/-- **Base 32 with padding is accepted wrongly.** -/
theorem parsesHash_iff (url : URLParser) (uri : Bytes) :
    ParsesHash url uri ↔ ∀ t, hashText url uri = some t → t.length = 32 →
      (base32StdDecode t).isSome → ∀ c ∈ t, ¬ IsFiller c := by
  cases ht : hashText url uri with
  | none =>
    obtain ⟨msg, hparse⟩ := parseMagnetURI_of_none ht
    refine iff_of_true ⟨?_, fun m hm => ?_, fun t ht' => ?_⟩ fun t ht' => nomatch ht'
    · rw [hparse]
      rintro ⟨⟩
    · rw [hparse] at hm
      cases hm
    · rw [ht] at ht'
      cases ht'
  | some t =>
    obtain ⟨hok, hpanics, herrs⟩ := parseMagnetURI_of_some ht
    rcases parseInfohash_cases t with ⟨ih, hih, hfrom, h20, hlen⟩ | ⟨hpanic, h32, b, hb, h20⟩ |
      ⟨msg, hmsg, hnone⟩
    · obtain ⟨m, hparse, rfl⟩ := hok ih hih
      refine iff_of_true ⟨?_, fun m' hm' => ?_, fun t' ht' hfail => ?_⟩ ?_
      · rw [hparse]
        rintro ⟨⟩
      · rw [hparse] at hm'
        cases hm'
        exact ⟨t, ht, hfrom⟩
      · rw [ht] at ht'
        cases ht'
        rcases hfail with ⟨err, herr⟩ | hraw
        · rw [hfrom] at herr
          cases herr
        · exact absurd hraw h20
      · rintro _ ⟨⟩ h32 hsome
        obtain ⟨b, hb⟩ := Option.isSome_iff_exists.1 hsome
        exact (base32StdDecode_length h32 hb).1.1 (hlen b h32 hb)
    · refine iff_of_false (fun h => h.returns (hpanics hpanic)) fun h => ?_
      have hsome : (base32StdDecode t).isSome := by rw [hb]; rfl
      exact h20 ((base32StdDecode_length h32 hb).1.2 (h t rfl h32 hsome))
    · obtain ⟨msg', hparse⟩ := herrs msg hmsg
      refine iff_of_true ⟨?_, fun m hm => ?_, fun t' ht' _ => ⟨_, hparse⟩⟩ ?_
      · rw [hparse]
        rintro ⟨⟩
      · rw [hparse] at hm
        cases hm
      · rintro _ ⟨⟩ h32 hsome
        rw [hnone h32] at hsome
        cases hsome

def paddedHash : Bytes := utf8 "AAAAAAAAAAAAAAAAAAAAAAAAAA======"

def paddedLink : Bytes := utf8 "magnet:?xt=urn:btih:" ++ paddedHash

theorem parse_paddedLink : hashText plainParser paddedLink = some paddedHash ∧
    Hash.FromString paddedHash =
      .error (.method "base32 decoded hash has wrong length: %d, expected %d") ∧
    ParseMagnetURI plainParser paddedLink = .error .panic := by
  have htext : hashText plainParser paddedLink = some paddedHash := by decide +kernel
  refine ⟨htext, rfl, (parseMagnetURI_of_some htext).2.1 ?_⟩
  rcases parseInfohash_cases paddedHash with ⟨ih, -, -, -, hlen⟩ | ⟨hpanic, -⟩ | ⟨msg, -, hnone⟩
  · exact absurd (hlen (List.replicate 16 0) (by decide) (by decide +kernel)) (by decide)
  · exact hpanic
  · exact absurd (hnone (by decide)) (by decide +kernel)

end GoI2pBt.Metainfo
