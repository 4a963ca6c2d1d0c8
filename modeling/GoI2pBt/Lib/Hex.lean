/-
  Texts in base 16 and 32.
-/
import GoI2pBt.Lib.Bytes

namespace GoI2pBt

open List

variable {c : UInt8}

def hexByte (d : ℕ) : UInt8 := if d < 10 then UInt8.ofNat (48 + d) else UInt8.ofNat (87 + d)

def fromHexChar (c : UInt8) : Option ℕ :=
  if 48 ≤ c.toNat ∧ c.toNat ≤ 57 then some (c.toNat - 48)
  else if 97 ≤ c.toNat ∧ c.toNat ≤ 102 then some (c.toNat - 87)
  else if 65 ≤ c.toNat ∧ c.toNat ≤ 70 then some (c.toNat - 55)
  else none

def formatHex (n : ℕ) : Bytes :=
  if n = 0 then [hexByte 0] else (Nat.digits 16 n).reverse.map hexByte

def hexVal (s : Bytes) : ℕ := s.foldl (fun acc c => acc * 16 + (fromHexChar c).getD 0) 0

def hexString (b : Bytes) : Bytes :=
  b.flatMap fun x => [hexByte (x.toNat / 16), hexByte (x.toNat % 16)]

def hexDecode : Bytes → Option Bytes
  | [] => some []
  | [_] => none
  | a :: b :: s => do
    let hi ← fromHexChar a
    let lo ← fromHexChar b
    return UInt8.ofNat (hi * 16 + lo) :: (← hexDecode s)

def base32Val (c : UInt8) : Option ℕ :=
  if 65 ≤ c.toNat ∧ c.toNat ≤ 90 then some (c.toNat - 65)
  else if 50 ≤ c.toNat ∧ c.toNat ≤ 55 then some (c.toNat - 24)
  else none

def base32Decode (s : Bytes) : Option Bytes := (s.mapM base32Val).map fun vs =>
    beBytes (5 * vs.length / 8) (vs.foldl (fun acc v => acc * 32 + v) 0)

def base32Group : List ℕ → Bytes → Option (List ℕ × Bool × Bytes)
  | vs, [] => if vs.length = 8 then some (vs, false, []) else none
  | vs, c :: src =>
    if vs.length = 8 then some (vs, false, c :: src)
    else if c = ch '=' ∧ 2 ≤ vs.length ∧ src.length < 8 then
      if src.length + vs.length < 7 ∨ (∃ x ∈ src.take (7 - vs.length), x ≠ ch '=') ∨
          vs.length = 3 ∨ vs.length = 6 then none
      else some (vs, true, src)
    else
      match base32Val c with
      | none => none
      | some v => base32Group (vs ++ [v]) src

def base32GroupBytes (vs : List ℕ) : Bytes :=
  (beBytes 5 ((vs ++ replicate (8 - vs.length) 0).foldl (fun acc v => acc * 32 + v) 0)).take
    (5 * vs.length / 8)

def base32Groups : ℕ → Bytes → Option Bytes
  | _, [] => some []
  | 0, _ :: _ => none
  | k + 1, c :: src =>
    match base32Group [] (c :: src) with
    | none => none
    | some (vs, true, _) => some (base32GroupBytes vs)
    | some (vs, false, rest) => (base32Groups k rest).map (base32GroupBytes vs ++ ·)

def base32StdDecode (s : Bytes) : Option Bytes :=
  let src := s.filter fun c => c ≠ 13 ∧ c ≠ 10
  base32Groups src.length src

example : base32StdDecode (utf8 "MZXW6YTBOI======") = some (utf8 "foobar") := by decide +kernel

def base32Symbol (d : ℕ) : UInt8 := if d < 26 then UInt8.ofNat (97 + d) else UInt8.ofNat (24 + d)

def base32String (b : Bytes) : Bytes :=
  let w := (8 * b.length + 4) / 5
  let n := beNat b * 2 ^ (5 * w - 8 * b.length)
  (range w).map fun i => base32Symbol (n / 32 ^ (w - 1 - i) % 32)

example : base32String (utf8 "foob") = utf8 "mzxw6yq" := by decide +kernel

theorem fromHexChar_hexByte {d} (h : d < 16) : fromHexChar (hexByte d) = some d := by
  unfold hexByte
  split_ifs with hd
  · have hn : (UInt8.ofNat (48 + d)).toNat = 48 + d := by simp only [UInt8.toNat_ofNat']; omega
    rw [fromHexChar, hn, if_pos (by omega)]
    simp
  · have hn : (UInt8.ofNat (87 + d)).toNat = 87 + d := by simp only [UInt8.toNat_ofNat']; omega
    rw [fromHexChar, hn, if_neg (by omega), if_pos (by omega)]
    simp

@[simp] theorem hexDecode_hexString (b : Bytes) : hexDecode (hexString b) = some b := by
  induction b with
  | nil => rfl
  | cons x b ih =>
    have hx : x.toNat < 256 := x.toNat_lt
    change hexDecode (hexByte (x.toNat / 16) :: hexByte (x.toNat % 16) :: hexString b) = _
    rw [hexDecode, fromHexChar_hexByte (by omega), fromHexChar_hexByte (by omega), ih]
    change some (UInt8.ofNat (x.toNat / 16 * 16 + x.toNat % 16) :: b) = _
    rw [Nat.div_add_mod' x.toNat 16, UInt8.ofNat_toNat]

theorem length_hexString (b : Bytes) : (hexString b).length = 2 * b.length := by
  induction b with
  | nil => rfl
  | cons x b ih =>
    change (hexString b).length + 2 = _
    rw [ih, length_cons]
    ring

theorem mem_hexString {b} (h : c ∈ hexString b) : ∃ d < 16, c = hexByte d := by
  obtain ⟨x, -, hc⟩ := mem_flatMap.1 h
  have hx : x.toNat < 256 := x.toNat_lt
  simp only [mem_cons, not_mem_nil, or_false] at hc
  rcases hc with rfl | rfl
  · exact ⟨_, by omega, rfl⟩
  · exact ⟨_, by omega, rfl⟩

theorem formatHex_ne_nil (n : ℕ) : formatHex n ≠ [] := by
  unfold formatHex
  split_ifs with h
  · simp
  · simpa [Nat.digits_eq_nil_iff_eq_zero] using h

theorem exists_hexByte_of_mem {n} (h : c ∈ formatHex n) : ∃ d < 16, c = hexByte d := by
  unfold formatHex at h
  split_ifs at h with hn
  · exact ⟨0, by omega, mem_singleton.1 h⟩
  · simp only [mem_map, mem_reverse] at h
    obtain ⟨d, hd, rfl⟩ := h
    exact ⟨d, Nat.digits_lt_base (by omega) hd, rfl⟩

theorem isSome_of_mem_formatHex {n} (h : c ∈ formatHex n) : (fromHexChar c).isSome := by
  obtain ⟨d, hd, rfl⟩ := exists_hexByte_of_mem h
  rw [fromHexChar_hexByte hd]
  rfl

theorem foldr_hexByte (l : List ℕ) (h : ∀ d ∈ l, d < 16) :
    l.foldr (fun d acc => acc * 16 + (fromHexChar (hexByte d)).getD 0) 0 = Nat.ofDigits 16 l := by
  induction l with
  | nil => rfl
  | cons d l ih =>
    rw [foldr_cons, ih fun d hd => h d (by simp [hd]), Nat.ofDigits_cons,
      fromHexChar_hexByte (h d (by simp))]
    simp only [Option.getD_some]
    omega

@[simp] theorem hexVal_formatHex (n : ℕ) : hexVal (formatHex n) = n := by
  unfold formatHex
  split_ifs with h
  · subst h; rfl
  · rw [hexVal, foldl_map, foldl_reverse,
      foldr_hexByte _ fun d hd => Nat.digits_lt_base (by omega) hd, Nat.ofDigits_digits]

theorem length_formatHex {n w} (h : n < 16 ^ w) (hw : 0 < w) : (formatHex n).length ≤ w := by
  unfold formatHex
  split_ifs with hn
  · exact hw
  · rw [length_map, length_reverse]
    exact (Nat.digits_length_le_iff (by omega) n).2 h

theorem length_hexDecode : ∀ {s b : Bytes}, hexDecode s = some b → s.length = 2 * b.length
  | [], b, h => by
    cases h
    rfl
  | [c], b, h => by cases h
  | c :: d :: s, b, h => by
    rw [hexDecode] at h
    simp only [Option.bind_eq_bind, Option.bind_eq_some_iff, Option.pure_def,
      Option.some.injEq] at h
    obtain ⟨hi, -, lo, -, b, hb, rfl⟩ := h
    rw [length_cons, length_cons, length_cons, length_hexDecode hb]
    ring

/-! ## Base 32 with padding and line ends -/

theorem beBytes_append (a b x : ℕ) {y} (hy : y < 256 ^ b) :
    beBytes (a + b) (x * 256 ^ b + y) = beBytes a x ++ beBytes b y := by
  induction a with
  | zero =>
    have hadd := beBytes_add_mul b y x
    rw [add_comm] at hadd
    rw [zero_add, hadd]
    rfl
  | succ a ih =>
    have hdiv : (x * 256 ^ b + y) / 256 ^ (a + b) = x / 256 ^ a := by
      rw [add_comm a, pow_add, ← Nat.div_div_eq_div_mul, add_comm (x * _),
        Nat.add_mul_div_right _ _ (by positivity), Nat.div_eq_of_lt hy, zero_add]
    rw [add_right_comm, beBytes, beBytes, hdiv, ih, cons_append]

theorem base32Val_lt {v} (h : base32Val c = some v) : v < 32 := by
  rw [base32Val] at h
  split_ifs at h <;> cases h <;> omega

def base32Num (vs : List ℕ) : ℕ := vs.foldl (fun acc v => acc * 32 + v) 0

theorem foldl_base32 (vs : List ℕ) (acc : ℕ) :
    vs.foldl (fun acc v => acc * 32 + v) acc = acc * 32 ^ vs.length + base32Num vs := by
  induction vs generalizing acc with
  | nil => simp [base32Num]
  | cons v vs ih =>
    have hcons : base32Num (v :: vs) = (0 * 32 + v) * 32 ^ vs.length + base32Num vs := by
      rw [base32Num, foldl_cons, ih]
    rw [foldl_cons, ih, hcons, length_cons]
    ring

theorem base32Num_append (us vs : List ℕ) :
    base32Num (us ++ vs) = base32Num us * 32 ^ vs.length + base32Num vs := by
  rw [base32Num, foldl_append, foldl_base32]
  rfl

theorem base32Num_lt {vs} (h : ∀ v ∈ vs, v < 32) : base32Num vs < 32 ^ vs.length := by
  induction vs using reverseRecOn with
  | nil => simp [base32Num]
  | append_singleton vs v ih =>
    have hv := h v (by simp)
    have hvs := ih fun w hw => h w (mem_append_left _ hw)
    have hone : base32Num [v] = v := by simp [base32Num]
    rw [base32Num_append, length_append, hone, length_singleton, pow_succ]
    omega

theorem mapM_base32Val {s : Bytes} {vs : List ℕ} (h : s.mapM base32Val = some vs) :
    vs.length = s.length ∧ ∀ v ∈ vs, v < 32 := by
  induction s generalizing vs with
  | nil => cases h; simp
  | cons c s ih =>
    obtain ⟨v, hv, vs', hvs', rfl⟩ := exists_of_mapM_cons h
    obtain ⟨hlen, hlt⟩ := ih hvs'
    exact ⟨by simp [hlen], forall_mem_cons.2 ⟨base32Val_lt hv, hlt⟩⟩

theorem base32Decode_append {s t : Bytes} {us vs : List ℕ} (hs : s.mapM base32Val = some us)
    (ht : t.mapM base32Val = some vs) (hs8 : 8 ∣ s.length) (ht8 : 8 ∣ t.length) :
    base32Decode (s ++ t) = some (beBytes (5 * s.length / 8) (base32Num us) ++
      beBytes (5 * t.length / 8) (base32Num vs)) := by
  obtain ⟨hus, -⟩ := mapM_base32Val hs
  obtain ⟨hvs, hlt⟩ := mapM_base32Val ht
  obtain ⟨i, hi⟩ := hs8
  obtain ⟨j, hj⟩ := ht8
  have hpow : 32 ^ vs.length = 256 ^ (5 * t.length / 8) := by
    have hdiv : 5 * t.length / 8 = 5 * j := by omega
    rw [hdiv, hvs, hj, show 32 = 2 ^ 5 from rfl, show 256 = 2 ^ 8 from rfl, ← pow_mul, ← pow_mul]
    congr 1
    ring
  have hnum := base32Num_lt hlt
  rw [hpow] at hnum
  have happ : (s ++ t).mapM base32Val = some (us ++ vs) := by
    rw [mapM_append, hs, ht]
    rfl
  have hlen : 5 * (us ++ vs).length / 8 = 5 * s.length / 8 + 5 * t.length / 8 := by
    rw [length_append, hus, hvs]
    omega
  rw [base32Decode, happ, Option.map_some, hlen, ← base32Num, base32Num_append, hpow,
    beBytes_append _ _ _ hnum]

theorem base32Group_cases {src} : ∀ {vs vs' : List ℕ} {padded : Bool} {rest : Bytes},
    vs.length ≤ 8 → base32Group vs src = some (vs', padded, rest) →
    (∃ p us, padded = false ∧ src = p ++ rest ∧ p.mapM base32Val = some us ∧ vs' = vs ++ us ∧
        vs'.length = 8) ∨
      padded = true ∧ vs'.length < 8 ∧ ch '=' ∈ src ∧ 8 ≤ vs.length + src.length := by
  induction src with
  | nil =>
    intro vs vs' padded rest hlen h
    rw [base32Group] at h
    split_ifs at h with h8
    cases h
    exact .inl ⟨[], [], rfl, rfl, rfl, by simp, h8⟩
  | cons c src ih =>
    intro vs vs' padded rest hlen h
    rw [base32Group] at h
    split_ifs at h with h8 hpad hbad
    · cases h
      exact .inl ⟨[], [], rfl, rfl, rfl, by simp, h8⟩
    · cases h
      refine .inr ⟨rfl, by omega, by simp [hpad.1], ?_⟩
      rw [length_cons]
      omega
    · split at h
      · cases h
      · rename_i v hv
        rcases ih (by simp; omega) h with ⟨p, us, hpadded, rfl, hus, hvs', hlen'⟩ | ⟨hp, hlt, hmem, hle⟩
        · refine .inl ⟨c :: p, v :: us, hpadded, rfl, ?_, by simp [hvs'], hlen'⟩
          rw [mapM_cons, hv, hus]
          rfl
        · refine .inr ⟨hp, hlt, mem_cons_of_mem _ hmem, ?_⟩
          simp only [length_append, length_cons, length_nil] at hle ⊢
          omega

theorem base32Groups_cases : ∀ {k : ℕ} {src b : Bytes}, base32Groups k src = some b →
    (∃ us, src.mapM base32Val = some us ∧ 8 ∣ src.length ∧
        b = beBytes (5 * src.length / 8) (base32Num us)) ∨
      ch '=' ∈ src ∧ 8 * b.length < 5 * src.length
  | k, [], b, h => by
    rw [base32Groups] at h
    cases h
    exact .inl ⟨[], rfl, by simp, rfl⟩
  | 0, c :: src, b, h => by cases h
  | k + 1, c :: src, b, h => by
    rw [base32Groups] at h
    split at h
    · cases h
    · rename_i vs rest hgroup
      cases h
      rcases base32Group_cases (by simp) hgroup with ⟨p, us, hfalse, -⟩ | ⟨-, hlt, hmem, hle⟩
      · cases hfalse
      · refine .inr ⟨hmem, ?_⟩
        rw [base32GroupBytes, length_take, length_beBytes]
        simp only [length_nil, zero_add] at hle
        omega
    · rename_i vs rest hgroup
      rw [Option.map_eq_some_iff] at h
      obtain ⟨b', hb', rfl⟩ := h
      rcases base32Group_cases (by simp) hgroup with ⟨p, us, -, hsrc, hus, hvs, h8⟩ | ⟨htrue, -⟩
      · rw [nil_append] at hvs
        subst hvs
        obtain ⟨hlen, -⟩ := mapM_base32Val hus
        have hbytes : base32GroupBytes vs = beBytes 5 (base32Num vs) := by
          rw [base32GroupBytes, h8, replicate_zero, append_nil, ← base32Num,
            take_of_length_le (by simp)]
        rw [hsrc, hbytes]
        rcases base32Groups_cases hb' with ⟨us', hus', hdvd, rfl⟩ | ⟨hmem, hlt⟩
        · left
          have hpdvd : 8 ∣ p.length := ⟨1, by omega⟩
          have hfive : 5 * p.length / 8 = 5 := by omega
          have happ := base32Decode_append hus hus' hpdvd hdvd
          rw [hfive, base32Decode, Option.map_eq_some_iff] at happ
          obtain ⟨ws, hws, hval⟩ := happ
          refine ⟨ws, hws, ?_, ?_⟩
          · rw [length_append]
            exact Nat.dvd_add hpdvd hdvd
          · rw [← hval, (mapM_base32Val hws).1]
            rfl
        · refine .inr ⟨mem_append_right _ hmem, ?_⟩
          simp only [length_append, length_beBytes]
          omega
      · cases htrue

def IsFiller (c : UInt8) : Prop := c = ch '=' ∨ c = 13 ∨ c = 10

theorem base32Val_filler (h : IsFiller c) : base32Val c = none := by
  rcases h with rfl | rfl | rfl <;> rfl

theorem notFiller_of_mapM {s : Bytes} {us : List ℕ} (h : s.mapM base32Val = some us) :
    ∀ c ∈ s, ¬ IsFiller c := by
  induction s generalizing us with
  | nil => simp
  | cons d s ih =>
    obtain ⟨v, hv, vs', hvs', -⟩ := exists_of_mapM_cons h
    refine forall_mem_cons.2 ⟨fun hfill => ?_, ih hvs'⟩
    rw [base32Val_filler hfill] at hv
    cases hv

theorem filter_notFiller {s : Bytes} (h : ∀ c ∈ s, ¬ IsFiller c) :
    (s.filter fun c => decide (c ≠ 13 ∧ c ≠ 10)) = s := by
  refine filter_eq_self.2 fun c hc => ?_
  have hfill := h c hc
  rw [IsFiller, not_or, not_or] at hfill
  exact decide_eq_true hfill.2

theorem base32Group_symbols {p : Bytes} : ∀ {vs us : List ℕ} {rest : Bytes},
    p.mapM base32Val = some us → vs.length + us.length = 8 →
    base32Group vs (p ++ rest) = some (vs ++ us, false, rest) := by
  induction p with
  | nil =>
    rintro vs us rest ⟨⟩ hlen
    cases rest with
    | nil | cons => simp [base32Group, show vs.length = 8 from hlen]
  | cons c p ih =>
    intro vs us rest hus hlen
    have hpad : c ≠ ch '=' := fun hc => notFiller_of_mapM hus c mem_cons_self (.inl hc)
    obtain ⟨v, hv, us, hp, rfl⟩ := exists_of_mapM_cons hus
    rw [length_cons] at hlen
    rw [cons_append, base32Group, if_neg (by omega), if_neg (fun h => hpad h.1), hv]
    dsimp only
    rw [ih hp (by simp; omega), append_assoc]
    rfl

theorem base32Groups_symbols {k n : ℕ} {src : Bytes} {us : List ℕ}
    (h : src.mapM base32Val = some us) (hlen : src.length = 8 * n) (hn : n ≤ k) :
    (base32Groups k src).isSome := by
  induction n generalizing k src us with
  | zero =>
    obtain rfl := eq_nil_of_length_eq_zero hlen
    rw [base32Groups]
    rfl
  | succ n ih =>
    obtain ⟨k, rfl⟩ : ∃ j, k = j + 1 := ⟨k - 1, by omega⟩
    obtain ⟨c, src, rfl⟩ := exists_cons_of_length_pos (l := src) (by omega)
    rw [← take_append_drop 8 (c :: src), mapM_append] at h
    simp only [Option.bind_eq_bind, Option.bind_eq_some_iff, Option.pure_def,
      Option.some.injEq] at h
    obtain ⟨vs, hvs, ws, hws, -⟩ := h
    have hvlen : vs.length = 8 := by
      rw [(mapM_base32Val hvs).1, length_take]
      omega
    have hgroup : base32Group [] ((c :: src).take 8 ++ (c :: src).drop 8) = _ :=
      base32Group_symbols hvs (by simpa using hvlen)
    rw [take_append_drop] at hgroup
    rw [base32Groups, hgroup]
    dsimp only
    rw [Option.isSome_map]
    refine ih hws ?_ (by omega)
    rw [length_drop]
    omega

theorem base32StdDecode_length {s b : Bytes} (hs : s.length = 32) (h : base32StdDecode s = some b) :
    (b.length = 20 ↔ ∀ c ∈ s, ¬ IsFiller c) ∧ (b.length = 20 → base32Decode s = some b) := by
  rw [base32StdDecode] at h
  have hle := length_filter_le (fun c : UInt8 => decide (c ≠ 13 ∧ c ≠ 10)) s
  rcases base32Groups_cases h with ⟨us, hus, hdvd, rfl⟩ | ⟨hmem, hlt⟩
  · rw [length_beBytes]
    -- 20 bytes come of 32 symbols, so that no character was left out
    have hself (h20 : 5 * (s.filter fun c => decide (c ≠ 13 ∧ c ≠ 10)).length / 8 = 20) :
        (s.filter fun c => decide (c ≠ 13 ∧ c ≠ 10)) = s :=
      filter_eq_self.2 (length_filter_eq_length_iff.1 (by omega))
    refine ⟨⟨fun h20 => ?_, fun hfill => ?_⟩, fun h20 => ?_⟩
    · rw [hself h20] at hus
      exact notFiller_of_mapM hus
    · rw [filter_notFiller hfill, hs]
    · rw [hself h20] at hus ⊢
      rw [base32Decode, hus, Option.map_some, (mapM_base32Val hus).1]
      rfl
  · refine ⟨iff_of_false (by omega) fun hc => ?_, fun h20 => by omega⟩
    exact hc _ (mem_of_mem_filter hmem) (.inl rfl)

theorem base32Decode_eq_some_iff {s b : Bytes} (hs : s.length = 32) :
    base32Decode s = some b ↔ base32StdDecode s = some b ∧ b.length = 20 := by
  constructor
  · intro h
    obtain ⟨us, hus, -⟩ := Option.map_eq_some_iff.1 h
    have hfill := notFiller_of_mapM hus
    have hsome : (base32StdDecode s).isSome := by
      rw [base32StdDecode, filter_notFiller hfill]
      exact base32Groups_symbols (n := 4) hus hs (by omega)
    obtain ⟨b', hb'⟩ := Option.isSome_iff_exists.1 hsome
    obtain ⟨hiff, heq⟩ := base32StdDecode_length hs hb'
    rw [heq (hiff.2 hfill)] at h
    obtain rfl := Option.some.inj h
    exact ⟨hb', hiff.2 hfill⟩
  · rintro ⟨h, h20⟩
    exact (base32StdDecode_length hs h).2 h20

end GoI2pBt
