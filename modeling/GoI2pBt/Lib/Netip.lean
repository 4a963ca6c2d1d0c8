/-
  The texts of IP addresses.
-/
import GoI2pBt.Lib.Hex
import GoI2pBt.Lib.Strconv

namespace GoI2pBt

open List Option

variable {ip : Bytes} {c : UInt8} {gs : List ℕ}

/-! ## The two forms -/

def v4Head : Bytes := [0, 0, 0, 0, 0, 0, 0, 0, 0, 0, 0xff, 0xff]

def to4 (ip : Bytes) : Bytes :=
  if ip.length = 4 then ip
  else if ip.length = 16 ∧ ip.take 12 = v4Head then ip.drop 12
  else []

def to16 (ip : Bytes) : Bytes :=
  if ip.length = 4 then v4Head ++ ip else if ip.length = 16 then ip else []

theorem length_to4 (ip : Bytes) : (to4 ip).length = 4 ∨ to4 ip = [] := by
  unfold to4
  split_ifs with h4 h16
  · exact .inl h4
  · left
    rw [length_drop, h16.1]
  · exact .inr rfl

theorem length_of_to4 (h : to4 ip ≠ []) : ip.length = 4 ∨ ip.length = 16 := by
  unfold to4 at h
  split_ifs at h with h1 h2
  · exact .inl h1
  · exact .inr h2.1
  · exact absurd rfl h

theorem length_to16 (h : ip.length = 4 ∨ ip.length = 16) : (to16 ip).length = 16 := by
  unfold to16
  split_ifs with h4 h16
  · rw [length_append, h4]; rfl
  · exact h16
  · omega

theorem to16_to4 (h : to4 ip ≠ []) : to16 (to4 ip) = to16 ip := by
  unfold to4 at h ⊢
  split_ifs at h ⊢ with h4 h16
  · rfl
  · have hlen : (ip.drop 12).length = 4 := by rw [length_drop, h16.1]
    rw [to16, if_pos hlen, to16, if_neg h4, if_pos h16.1, ← h16.2, take_append_drop]
  · exact absurd rfl h

theorem to4_to16 (h : ip.length = 4 ∨ ip.length = 16) : to4 (to16 ip) = to4 ip := by
  rcases h with h | h
  · have hlen : (v4Head ++ ip).length = 16 := by rw [length_append, h]; rfl
    rw [to16, if_pos h, to4, if_neg (by omega), if_pos ⟨hlen, rfl⟩, to4, if_pos h]
    rfl
  · rw [to16, if_neg (by omega), if_pos h]

/-! ## Writing -/

def dotted (ip : Bytes) : Bytes := [ch '.'].intercalate (ip.map fun x => formatUint x.toNat)

def groups : Bytes → List ℕ
  | a :: b :: ip => (a.toNat * 256 + b.toNat) :: groups ip
  | _ => []

def ofGroups (gs : List ℕ) : Bytes := gs.flatMap (beBytes 2)

def joinGroups : List ℕ → Bytes
  | [] => []
  | [g] => formatHex g
  | g :: gs => formatHex g ++ ch ':' :: joinGroups gs

def zerosAt (gs : List ℕ) (i : ℕ) : ℕ := ((gs.drop i).takeWhile (· = 0)).length

def zeroRun (gs : List ℕ) : ℕ × ℕ := (range 8).foldl
    (fun best i =>
      if 2 ≤ zerosAt gs i ∧ best.2 - best.1 < zerosAt gs i then (i, i + zerosAt gs i) else best)
    (255, 255)

def string6 (gs : List ℕ) : Bytes :=
  if (zeroRun gs).1 < 8 then
    joinGroups (gs.take (zeroRun gs).1) ++ ch ':' :: ch ':' :: joinGroups (gs.drop (zeroRun gs).2)
  else joinGroups gs

def ipString (ip : Bytes) : Bytes :=
  if ip = [] then utf8 "<nil>"
  else if ip.length ≠ 4 ∧ ip.length ≠ 16 then ch '?' :: hexString ip
  else if to4 ip ≠ [] then dotted (to4 ip)
  else string6 (groups ip)

/-! ## Parsing -/

def octet (s : Bytes) : Option UInt8 :=
  if s ≠ [] ∧ (∀ c ∈ s, IsDigit c) ∧ (s.head? = some (ch '0') → s.length = 1) ∧
      digitsVal s ≤ 255 then
    some (UInt8.ofNat (digitsVal s))
  else none

def parse4 (s : Bytes) : Option Bytes :=
  match (s.splitOn (ch '.')).mapM octet with
  | some [a, b, c, d] => some [a, b, c, d]
  | _ => none

def isHexChar (c : UInt8) : Bool := (fromHexChar c).isSome

def parseGroups : ℕ → Bytes → List ℕ → Option ℕ → Option (Bytes × List ℕ × Option ℕ)
  | 0, s, gs, e => some (s, gs, e)
  | n + 1, s, gs, e =>
    let ds := s.takeWhile isHexChar
    let gs' := gs ++ [hexVal ds]
    if ds = [] ∨ 4 < ds.length then none
    else
      match s.dropWhile isHexChar with
      | [] => some ([], gs', e)
      | c :: rest =>
        if c = ch '.' then
          -- an IPv4 address in the place of the last two groups
          if (e = none ∧ gs.length ≠ 6) ∨ 6 < gs.length then none
          else (parse4 s).map fun ip => ([], gs ++ groups ip, e)
        else if c ≠ ch ':' then none
        else
          match rest with
          | [] => none
          | c :: rest' =>
            if c = ch ':' then
              if e.isSome then none
              else if rest' = [] then some ([], gs', some gs'.length)
              else parseGroups n rest' gs' (some gs'.length)
            else parseGroups n rest gs' e

def expand (gs : List ℕ) : Option ℕ → Option (List ℕ)
  | none => if gs.length < 8 then none else some gs
  | some k =>
    if gs.length < 8 then some (gs.take k ++ replicate (8 - gs.length) 0 ++ gs.drop k)
    else none

def finish6 : Option (Bytes × List ℕ × Option ℕ) → Option Bytes
  | some ([], gs, e) => (expand gs e).map ofGroups
  | _ => none

def parse6 (s : Bytes) : Option Bytes :=
  if s = [ch ':', ch ':'] then some (replicate 16 0)
  else if s.take 2 = [ch ':', ch ':'] then finish6 (parseGroups 8 (s.drop 2) [] (some 0))
  else finish6 (parseGroups 8 s [] none)

def parseIP (s : Bytes) : Option Bytes :=
  if ch '%' ∈ s then none
  else
    match s.find? fun c => c = ch '.' ∨ c = ch ':' with
    | none => none
    | some c => if c = ch '.' then (parse4 s).map to16 else parse6 s

example : ipString (replicate 15 0 ++ [1]) = utf8 "::1" := by decide +kernel
example : parseIP (utf8 "1::ffff:1.2.3.4") =
    some [0, 1, 0, 0, 0, 0, 0, 0, 0, 0, 0xff, 0xff, 1, 2, 3, 4] := by decide +kernel

/-! ## IPv4 -/

theorem octet_formatUint (x : UInt8) : octet (formatUint x.toNat) = some x := by
  have hx := x.toNat_lt
  rw [octet, digitsVal_formatUint, if_pos, UInt8.ofNat_toNat]
  refine ⟨formatUint_ne_nil _, fun c hc => isDigit_of_mem_formatUint hc, fun h => ?_, by omega⟩
  rw [formatUint_head_zero h]
  rfl

theorem parse4_dotted (h : ip.length = 4) : parse4 (dotted ip) = some ip := by
  have hsplit : (dotted ip).splitOn (ch '.') = ip.map fun x => formatUint x.toNat := by
    refine splitOn_intercalate _ ?_ ?_
    · intro l hl
      obtain ⟨x, -, rfl⟩ := mem_map.1 hl
      exact notMem_formatUint (by decide) _
    · rw [ne_eq, map_eq_nil_iff]
      rintro rfl
      cases h
  obtain ⟨a, b, c, d, rfl⟩ : ∃ a b c d, ip = [a, b, c, d] := by
    match ip, h with
    | [a, b, c, d], _ => exact ⟨a, b, c, d, rfl⟩
  rw [parse4, hsplit]
  simp [octet_formatUint]

theorem mem_dotted (h : c ∈ dotted ip) : c = ch '.' ∨ IsDigit c := by
  induction ip with
  | nil => simp [dotted] at h
  | cons x ip ih =>
    cases ip with
    | nil =>
      simp only [dotted, map_cons, map_nil, intercalate_singleton] at h
      exact .inr (isDigit_of_mem_formatUint h)
    | cons y ip =>
      simp only [dotted, map_cons, intercalate_cons_cons, mem_append, mem_singleton] at h ih
      rcases h with (h | h) | h
      · exact .inr (isDigit_of_mem_formatUint h)
      · exact .inl h
      · exact ih h

theorem dot_mem_dotted (h : 2 ≤ ip.length) : ch '.' ∈ dotted ip := by
  match ip, h with
  | x :: y :: ip, _ => simp [dotted, intercalate_cons_cons]

/-! ## Groups -/

theorem ofGroups_groups : ∀ (n : ℕ) (ip : Bytes), ip.length = 2 * n → ofGroups (groups ip) = ip
  | 0, [], _ => rfl
  | n + 1, a :: b :: ip, h => by
    have hlen : ip.length = 2 * n := by simp only [length_cons] at h; omega
    have hb := b.toNat_lt
    have ha := a.toNat_lt
    have hpair : beBytes 2 (a.toNat * 256 + b.toNat) = [a, b] := by
      have := beBytes_beNat [a, b]
      simpa [beNat] using this
    rw [groups, ofGroups, flatMap_cons, hpair]
    exact congrArg (fun l => a :: b :: l) (ofGroups_groups n ip hlen)

theorem length_groups : ∀ ip : Bytes, (groups ip).length = ip.length / 2
  | [] => rfl
  | [_] => by simp [groups]
  | _ :: _ :: ip => by
    rw [groups, length_cons, length_groups ip]
    simp only [length_cons]
    omega

theorem groups_lt : ∀ (ip : Bytes), ∀ g ∈ groups ip, g < 16 ^ 4
  | [], g, h => by simp [groups] at h
  | [_], g, h => by simp [groups] at h
  | a :: b :: ip, g, h => by
    have ha := a.toNat_lt
    have hb := b.toNat_lt
    rcases mem_cons.1 h with rfl | h
    · omega
    · exact groups_lt ip g h

/-! ## Zero runs -/

def IsRun (gs : List ℕ) (r : ℕ × ℕ) : Prop := r = (255, 255) ∨ r.1 < 8 ∧ r.1 + 2 ≤ r.2 ∧
    gs = gs.take r.1 ++ (replicate (r.2 - r.1) 0 ++ gs.drop r.2)

theorem drop_zerosAt (gs : List ℕ) (i : ℕ) :
    gs.drop i = replicate (zerosAt gs i) 0 ++ gs.drop (i + zerosAt gs i) := by
  have hrep : (gs.drop i).takeWhile (· = 0) = replicate (zerosAt gs i) 0 := by
    refine eq_replicate_iff.2 ⟨rfl, fun g hg => ?_⟩
    simpa using mem_takeWhile_imp hg
  have hdrop : (gs.drop i).dropWhile (· = 0) = gs.drop (i + zerosAt gs i) :=
    calc (gs.drop i).dropWhile (· = 0)
        = ((gs.drop i).takeWhile (· = 0) ++ (gs.drop i).dropWhile (· = 0)).drop (zerosAt gs i) :=
          drop_left.symm
      _ = (gs.drop i).drop (zerosAt gs i) := by rw [takeWhile_append_dropWhile]
      _ = gs.drop (i + zerosAt gs i) := drop_drop
  rw [← hrep, ← hdrop, takeWhile_append_dropWhile]

theorem isRun_zeroRun (gs : List ℕ) : IsRun gs (zeroRun gs) := by
  refine foldlRecOn _ _ (.inl rfl) fun best hbest i hi => ?_
  split_ifs with h
  · refine .inr ⟨mem_range.1 hi, by simpa using h.1, ?_⟩
    have hdrop := drop_zerosAt gs i
    rw [Nat.add_sub_cancel_left]
    dsimp only
    rw [← hdrop, take_append_drop]
  · exact hbest

/-! ## IPv6 -/

section
variable {g n : ℕ} {gs : List ℕ} {e : Option ℕ}

theorem isHexChar_of_mem {c} (h : c ∈ formatHex g) : isHexChar c = true := isSome_of_mem_formatHex h

theorem takeWhile_formatHex (g : ℕ) {r} (hr : ∀ c ∈ r.head?, isHexChar c = false) :
    (formatHex g ++ r).takeWhile isHexChar = formatHex g ∧
      (formatHex g ++ r).dropWhile isHexChar = r := by
  have hall : ∀ c ∈ formatHex g, isHexChar c = true := fun c hc => isHexChar_of_mem hc
  rw [takeWhile_append_of_pos hall, dropWhile_append_of_pos hall]
  cases r with
  | nil => simp
  | cons c r =>
    have hc : isHexChar c = false := hr c rfl
    simp [hc]

theorem parseGroups_last (hg : g < 16 ^ 4) :
    parseGroups (n + 1) (formatHex g) gs e = some ([], gs ++ [g], e) := by
  obtain ⟨htake, hdrop⟩ := takeWhile_formatHex g (r := []) (by simp)
  rw [append_nil] at htake hdrop
  have hlen := length_formatHex hg (by omega)
  rw [parseGroups, htake, hdrop, hexVal_formatHex, if_neg (not_or.2 ⟨formatHex_ne_nil g, by omega⟩)]

theorem parseGroups_colon (hg : g < 16 ^ 4) (s : Bytes) :
    parseGroups (n + 1) (formatHex g ++ ch ':' :: s) gs e =
      match s with
      | [] => none
      | c :: s' =>
        if c = ch ':' then
          if e.isSome then none
          else if s' = [] then some ([], gs ++ [g], some (gs ++ [g]).length)
          else parseGroups n s' (gs ++ [g]) (some (gs ++ [g]).length)
        else parseGroups n s (gs ++ [g]) e := by
  obtain ⟨htake, hdrop⟩ := takeWhile_formatHex g (r := ch ':' :: s) (by simp; decide)
  have hlen := length_formatHex hg (by omega)
  rw [parseGroups, htake, hdrop, hexVal_formatHex, if_neg (not_or.2 ⟨formatHex_ne_nil g, by omega⟩)]
  dsimp only
  rw [if_neg (by decide), if_neg (by decide)]
  cases s <;> rfl

theorem joinGroups_cons_cons (g g' : ℕ) (gs : List ℕ) :
    joinGroups (g :: g' :: gs) = formatHex g ++ ch ':' :: joinGroups (g' :: gs) := rfl

theorem joinGroups_head (g : ℕ) (gs : List ℕ) :
    ∃ c s, joinGroups (g :: gs) = c :: s ∧ c ≠ ch ':' := by
  obtain ⟨c, s, hs⟩ := exists_cons_of_ne_nil (formatHex_ne_nil g)
  have hc : c ≠ ch ':' := by
    rintro rfl
    have := isHexChar_of_mem (g := g) (c := ch ':') (by rw [hs]; exact mem_cons_self)
    exact absurd this (by decide)
  cases gs with
  | nil => exact ⟨c, s, hs, hc⟩
  | cons g' gs =>
    exact ⟨c, s ++ ch ':' :: joinGroups (g' :: gs), by rw [joinGroups_cons_cons, hs]; rfl, hc⟩

theorem parseGroups_join (e : Option ℕ) : ∀ (hs : List ℕ) (n : ℕ) (gs : List ℕ), hs ≠ [] →
    hs.length ≤ n → (∀ g ∈ hs, g < 16 ^ 4) →
    parseGroups n (joinGroups hs) gs e = some ([], gs ++ hs, e)
  | [], _, _, h, _, _ => absurd rfl h
  | [g], n + 1, _, _, _, hlt => parseGroups_last (hlt g (by simp))
  | g :: g' :: hs, n + 1, gs, _, hlen, hlt => by
    obtain ⟨c, s, hcs, hc⟩ := joinGroups_head g' hs
    have ih := parseGroups_join e (g' :: hs) n (gs ++ [g]) (by simp)
      (by simp only [length_cons] at hlen ⊢; omega) fun x hx => hlt x (by simp [hx])
    rw [joinGroups_cons_cons, parseGroups_colon (hlt g (by simp)), hcs]
    dsimp only
    rw [if_neg hc, ← hcs, ih, append_assoc]
    rfl

theorem parseGroups_ellipsis (ts : List ℕ) (hts : ∀ g ∈ ts, g < 16 ^ 4) :
    ∀ (hs : List ℕ) (n : ℕ) (gs : List ℕ), hs ≠ [] →
    hs.length + ts.length ≤ n → (∀ g ∈ hs, g < 16 ^ 4) →
    parseGroups n (joinGroups hs ++ ch ':' :: ch ':' :: joinGroups ts) gs none =
      some ([], gs ++ hs ++ ts, some (gs.length + hs.length))
  | [], _, _, h, _, _ => absurd rfl h
  | _ :: _, 0, _, _, hlen, _ => by simp at hlen
  | [g], n + 1, _, _, hlen, hlt => by
    rw [joinGroups, parseGroups_colon (hlt g (by simp))]
    dsimp only
    rw [if_pos rfl]
    cases ts with
    | nil => simp [joinGroups]
    | cons t ts =>
      obtain ⟨c, s, hcs, -⟩ := joinGroups_head t ts
      have hne : joinGroups (t :: ts) ≠ [] := by rw [hcs]; simp
      rw [if_neg (by simp), if_neg hne, parseGroups_join _ _ _ _ (by simp)
        (by simp only [length_cons] at hlen ⊢; omega) hts]
      simp
  | g :: g' :: hs, n + 1, gs, _, hlen, hlt => by
    obtain ⟨c, s, hcs, hc⟩ := joinGroups_head g' hs
    have ih := parseGroups_ellipsis ts hts (g' :: hs) n (gs ++ [g]) (by simp)
      (by simp only [length_cons] at hlen ⊢; omega) fun x hx => hlt x (by simp [hx])
    have hcount : (gs ++ [g]).length + (g' :: hs).length = gs.length + (g :: g' :: hs).length := by
      simp only [length_append, length_cons, length_nil]
      omega
    rw [joinGroups_cons_cons, append_assoc, cons_append, parseGroups_colon (hlt g (by simp))]
    rw [hcs] at ih ⊢
    simp only [cons_append] at ih ⊢
    rw [if_neg hc, ih, hcount]
    simp

end

theorem parse6_ellipsis (hs ts : List ℕ) {k} (hk : 2 ≤ k) (hlen : hs.length + k + ts.length = 8)
    (hhs : ∀ g ∈ hs, g < 16 ^ 4) (hts : ∀ g ∈ ts, g < 16 ^ 4) :
    parse6 (joinGroups hs ++ ch ':' :: ch ':' :: joinGroups ts) =
      some (ofGroups (hs ++ (replicate k 0 ++ ts))) := by
  cases hs with
  | nil =>
    rw [length_nil, zero_add] at hlen
    rw [joinGroups, nil_append]
    cases ts with
    | nil =>
      obtain rfl : k = 8 := hlen
      rfl
    | cons t ts =>
      obtain ⟨c, s, hcs, -⟩ := joinGroups_head t ts
      have hread := parseGroups_join (some 0) (t :: ts) 8 [] (by simp) (by omega) hts
      have hrep : 8 - (t :: ts).length = k := by omega
      have hlt : (t :: ts).length < 8 := by omega
      have htake : (ch ':' :: ch ':' :: joinGroups (t :: ts)).take 2 = [ch ':', ch ':'] := rfl
      have hdrop : (ch ':' :: ch ':' :: joinGroups (t :: ts)).drop 2 = joinGroups (t :: ts) := rfl
      rw [parse6, if_neg (by simp [hcs]), if_pos htake, hdrop, hread, nil_append, finish6,
        expand, if_pos hlt, hrep]
      rfl
  | cons h hs =>
    obtain ⟨c, s, hcs, hc⟩ := joinGroups_head h hs
    have hread := parseGroups_ellipsis ts hts (h :: hs) 8 [] (by simp) (by omega) hhs
    have hrep : 8 - ((h :: hs) ++ ts).length = k := by rw [length_append]; omega
    have hlt : ((h :: hs) ++ ts).length < 8 := by rw [length_append]; omega
    rw [hcs] at hread ⊢
    rw [parse6, cons_append, if_neg (by simp [hc]), if_neg (by simp [hc]),
      ← cons_append, hread, nil_append, length_nil, zero_add, finish6, expand,
      if_pos hlt, hrep, take_left, drop_left, append_assoc]
    rfl

theorem parse6_string6 (hlen : gs.length = 8) (hlt : ∀ g ∈ gs, g < 16 ^ 4) :
    parse6 (string6 gs) = some (ofGroups gs) := by
  unfold string6
  rcases isRun_zeroRun gs with hnone | ⟨hlt8, hrun, hgs⟩
  · rw [hnone, if_neg (by omega)]
    obtain ⟨g, gs', rfl⟩ := exists_cons_of_length_pos (by omega : 0 < gs.length)
    obtain ⟨c, s, hcs, hc⟩ := joinGroups_head g gs'
    have hread := parseGroups_join none (g :: gs') 8 [] (by simp) hlen.le hlt
    rw [parse6, hcs, if_neg (by simp [hc]), if_neg (by simp [hc]), ← hcs, hread, nil_append,
      finish6, expand, if_neg (by omega)]
    rfl
  · rw [if_pos hlt8]
    generalize zeroRun gs = r at hlt8 hrun hgs ⊢
    have hcount := congrArg length hgs
    rw [length_append, length_append, length_replicate] at hcount
    have hparse := parse6_ellipsis (gs.take r.1) (gs.drop r.2) (k := r.2 - r.1) (by omega)
      (by omega) (fun g hg => hlt g (mem_of_mem_take hg))
      fun g hg => hlt g (mem_of_mem_drop hg)
    rw [hparse, ← hgs]

theorem mem_joinGroups : ∀ {gs : List ℕ}, c ∈ joinGroups gs → c = ch ':' ∨ isHexChar c = true
  | [], h => by simp [joinGroups] at h
  | [_], h => .inr (isHexChar_of_mem h)
  | g :: g' :: gs, h => by
    rw [joinGroups_cons_cons, mem_append, mem_cons] at h
    rcases h with h | h | h
    · exact .inr (isHexChar_of_mem h)
    · exact .inl h
    · exact mem_joinGroups h

theorem mem_string6 (h : c ∈ string6 gs) : c = ch ':' ∨ isHexChar c = true := by
  unfold string6 at h
  split_ifs at h
  · simp only [mem_append, mem_cons] at h
    rcases h with h | h | h | h
    · exact mem_joinGroups h
    · exact .inl h
    · exact .inl h
    · exact mem_joinGroups h
  · exact mem_joinGroups h

theorem colon_mem_string6 (hlen : gs.length = 8) : ch ':' ∈ string6 gs := by
  unfold string6
  split_ifs
  · simp
  · match gs, hlen with
    | g :: g' :: gs, _ => simp [joinGroups_cons_cons]

theorem length_joinGroups : ∀ gs : List ℕ, (∀ g ∈ gs, g < 16 ^ 4) →
    (joinGroups gs).length ≤ 5 * gs.length
  | [], _ => by simp [joinGroups]
  | [g], h => by
    have hg := length_formatHex (h g (by simp)) (by omega)
    simp only [joinGroups, length_cons, length_nil]
    omega
  | g :: g' :: gs, h => by
    have hg := length_formatHex (h g (by simp)) (by omega)
    have ih := length_joinGroups (g' :: gs) fun x hx => h x (by simp [hx])
    rw [joinGroups_cons_cons, length_append, length_cons]
    simp only [length_cons] at ih ⊢
    omega

/-! ## Texts -/

theorem find?_eq_some_of_forall {s : Bytes} {p : UInt8 → Bool} (hc : c ∈ s)
    (hp : p c = true) (h : ∀ x ∈ s, p x = true → x = c) : s.find? p = some c := by
  cases hfind : s.find? p with
  | none => exact absurd hp (find?_eq_none.1 hfind c hc)
  | some x => rw [h x (mem_of_find?_eq_some hfind) (find?_some hfind)]

theorem mem_ipString (h : ip.length = 4 ∨ ip.length = 16)
    (hc : c ∈ ipString ip) : c = ch '.' ∨ c = ch ':' ∨ isHexChar c = true := by
  have hne : ip ≠ [] := by rintro rfl; simp at h
  rw [ipString, if_neg hne, if_neg (by omega)] at hc
  split_ifs at hc with h4
  · rcases mem_dotted hc with hc | ⟨hlo, hhi⟩
    · exact .inl hc
    · refine .inr (.inr ?_)
      rw [isHexChar, fromHexChar, if_pos ⟨hlo, hhi⟩]
      rfl
  · exact .inr (mem_string6 hc)

theorem parseIP_ipString (h : ip.length = 4 ∨ ip.length = 16) :
    parseIP (ipString ip) = some (to16 ip) := by
  have hzone : ch '%' ∉ ipString ip := by
    intro hc
    exact absurd (mem_ipString h hc) (by decide)
  have hne : ip ≠ [] := by rintro rfl; simp at h
  rw [parseIP, if_neg hzone]
  rw [ipString, if_neg hne, if_neg (by omega)]
  split_ifs with h4
  · have hlen := (length_to4 ip).resolve_right h4
    have hfind : (dotted (to4 ip)).find? (fun c => c = ch '.' ∨ c = ch ':') = some (ch '.') := by
      refine find?_eq_some_of_forall (dot_mem_dotted (by omega)) (by decide) fun x hx hp => ?_
      rcases mem_dotted hx with rfl | hd
      · rfl
      · refine (of_decide_eq_true hp).resolve_right ?_
        rintro rfl
        exact absurd hd (by decide)
    rw [hfind]
    dsimp only
    rw [if_pos rfl, parse4_dotted hlen, map_some, to16_to4 h4]
  · have hlen : ip.length = 16 := by
      refine h.resolve_left fun h => h4 ?_
      rw [to4, if_pos h]
      exact hne
    have hgs : (groups ip).length = 8 := by rw [length_groups, hlen]
    have hfind : (string6 (groups ip)).find? (fun c => c = ch '.' ∨ c = ch ':') =
        some (ch ':') := by
      refine find?_eq_some_of_forall (colon_mem_string6 hgs) (by decide) fun x hx hp => ?_
      rcases mem_string6 hx with rfl | hd
      · rfl
      · refine (of_decide_eq_true hp).resolve_left ?_
        rintro rfl
        exact absurd hd (by decide)
    rw [hfind]
    dsimp only
    rw [if_neg (by decide), parse6_string6 hgs (groups_lt ip),
      ofGroups_groups 8 ip hlen, to16, if_neg (by omega), if_pos hlen]

/-! ## What is parsed -/

theorem length_parse4 {s ip} (h : parse4 s = some ip) : ip.length = 4 := by
  rw [parse4] at h
  split at h
  · cases h; rfl
  · cases h

theorem length_parseGroups : ∀ {n : ℕ} {s s' : Bytes} {gs gs' : List ℕ} {e e' : Option ℕ},
    parseGroups n s gs e = some (s', gs', e') → gs.length + n ≤ 8 → gs'.length ≤ 8
  | 0, _, _, _, _, _, _, h, _ => by
    cases h
    omega
  | n + 1, _, _, gs, _, _, _, h, _ => by
    have hone : ∀ g : ℕ, (gs ++ [g]).length = gs.length + 1 := fun g => by simp
    rw [parseGroups] at h
    split at h
    · cases h
    split at h
    · cases h
      rw [hone]; omega
    split at h
    · split at h
      · cases h
      · obtain ⟨ip, hip, h⟩ := map_eq_some_iff.1 h
        cases h
        rw [length_append, length_groups, length_parse4 hip]
        omega
    split at h
    · cases h
    split at h
    · cases h
    split at h
    · split at h
      · cases h
      · split at h
        · cases h
          rw [hone]; omega
        · exact length_parseGroups h (by rw [hone]; omega)
    · exact length_parseGroups h (by rw [hone]; omega)

theorem length_expand {gs gs' e} (h : expand gs e = some gs')
    (hlen : gs.length ≤ 8) : gs'.length = 8 := by
  cases e with
  | none =>
    rw [expand] at h
    split_ifs at h
    cases h
    omega
  | some k =>
    rw [expand] at h
    split_ifs at h
    cases h
    simp only [length_append, length_take, length_replicate, length_drop]
    omega

theorem length_ofGroups (gs : List ℕ) : (ofGroups gs).length = 2 * gs.length := by
  induction gs with
  | nil => rfl
  | cons g gs ih =>
    rw [ofGroups, flatMap_cons, length_append, length_beBytes, ← ofGroups, ih, length_cons]
    ring

theorem length_finish6 {s ip e}
    (h : finish6 (parseGroups 8 s [] e) = some ip) : ip.length = 16 := by
  rw [finish6.eq_def] at h
  split at h
  · rename_i hread
    obtain ⟨gs', hexp, rfl⟩ := map_eq_some_iff.1 h
    rw [length_ofGroups, length_expand hexp (length_parseGroups hread le_rfl)]
  · cases h

theorem length_parse6 {s ip} (h : parse6 s = some ip) : ip.length = 16 := by
  rw [parse6] at h
  split_ifs at h
  · cases h; rfl
  · exact length_finish6 h
  · exact length_finish6 h

theorem length_parseIP {s ip} (h : parseIP s = some ip) : ip.length = 16 := by
  rw [parseIP] at h
  split_ifs at h
  split at h
  · cases h
  · split_ifs at h
    · obtain ⟨ip', hip, rfl⟩ := map_eq_some_iff.1 h
      exact length_to16 (.inl (length_parse4 hip))
    · exact length_parse6 h

/-! ## Texts of both forms -/

theorem ipString_ne_nil (h : ip.length = 4 ∨ ip.length = 16) : ipString ip ≠ [] := by
  intro hnil
  have hparse := parseIP_ipString h
  rw [hnil] at hparse
  cases hparse

theorem ipString_to4 (h : to4 ip ≠ []) : ipString (to4 ip) = ipString ip := by
  have hlen := (length_to4 ip).resolve_right h
  have h4 : to4 (to4 ip) = to4 ip := by rw [to4, if_pos hlen]
  have hip := length_of_to4 h
  have hne : ip ≠ [] := by
    rintro rfl
    simp at hip
  rw [ipString, if_neg h, if_neg (by omega), h4, if_pos h, ipString, if_neg hne,
    if_neg (by omega), if_pos h]

theorem colon_notMem_ipString (h : ip.length = 4) : ch ':' ∉ ipString ip := by
  have hne : ip ≠ [] := by
    rintro rfl
    cases h
  have hto4 : to4 ip = ip := by rw [to4, if_pos h]
  rw [ipString, if_neg hne, if_neg (by omega), hto4, if_pos hne]
  intro hc
  rcases mem_dotted hc with hc | hc
  · exact absurd hc (by decide)
  · exact absurd hc (by decide)

theorem length_dotted (h : ip.length = 4) : (dotted ip).length ≤ 15 := by
  have hoctet : ∀ x : UInt8, (formatUint x.toNat).length ≤ 3 := fun x =>
    length_formatUint (x.toNat_lt.trans (by norm_num)) (by omega)
  match ip, h with
  | [a, b, c, d], _ =>
    have ha := hoctet a
    have hb := hoctet b
    have hc := hoctet c
    have hd := hoctet d
    simp only [dotted, map_cons, map_nil, intercalate_cons_cons,
      intercalate_singleton, length_append, length_singleton]
    omega

theorem length_ipString_of_to4 (h : to4 ip ≠ []) : (ipString ip).length ≤ 15 := by
  have hlen := (length_to4 ip).resolve_right h
  have h4 : to4 (to4 ip) = to4 ip := by rw [to4, if_pos hlen]
  rw [← ipString_to4 h, ipString, if_neg h, if_neg (by omega), h4, if_pos h]
  exact length_dotted hlen

theorem length_ipString (h : ip.length = 4 ∨ ip.length = 16) : (ipString ip).length ≤ 82 := by
  have hne : ip ≠ [] := by rintro rfl; simp at h
  by_cases h4 : to4 ip ≠ []
  · exact (length_ipString_of_to4 h4).trans (by omega)
  rw [ipString, if_neg hne, if_neg (by omega)]
  split_ifs
  · have hgs := length_groups ip
    have hall := length_joinGroups _ (groups_lt ip)
    unfold string6
    split_ifs
    · have hl := length_joinGroups ((groups ip).take (zeroRun (groups ip)).1)
        fun g hg => groups_lt ip g (mem_of_mem_take hg)
      have hr := length_joinGroups ((groups ip).drop (zeroRun (groups ip)).2)
        fun g hg => groups_lt ip g (mem_of_mem_drop hg)
      simp only [length_append, length_cons, length_take, length_drop] at hl hr ⊢
      omega
    · omega

end GoI2pBt
