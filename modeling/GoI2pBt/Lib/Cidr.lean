/-
  Blocks of addresses (`net.ParseCIDR`).
-/
import GoI2pBt.Lib.Netip

namespace GoI2pBt

open List Option

variable {ip : Bytes}

/-! ## Addresses -/

def parseAddr (s : Bytes) : Option Bytes :=
  if ch '%' ∈ s then none
  else
    match s.find? fun c => c = ch '.' ∨ c = ch ':' with
    | none => none
    | some c => if c = ch '.' then parse4 s else parse6 s

def ipNum (ip : Bytes) : ℕ := beNat (to16 ip)

theorem to16_of_length (h : ip.length = 16) : to16 ip = ip := by
  rw [to16, if_neg (by omega), if_pos h]

theorem parseIP_eq_map (s : Bytes) : parseIP s = (parseAddr s).map to16 := by
  unfold parseIP parseAddr
  split_ifs with h
  · rfl
  · cases hfind : s.find? fun c => c = ch '.' ∨ c = ch ':' with
    | none => rfl
    | some c =>
      dsimp only
      split_ifs
      · rfl
      · cases h6 : parse6 s with
        | none => rfl
        | some ip => exact congrArg some (to16_of_length (length_parse6 h6)).symm

theorem length_parseAddr {s ip} (h : parseAddr s = some ip) : ip.length = 4 ∨ ip.length = 16 := by
  unfold parseAddr at h
  split_ifs at h
  cases hfind : s.find? fun c => c = ch '.' ∨ c = ch ':' with
  | none => rw [hfind] at h; cases h
  | some c =>
    rw [hfind] at h
    dsimp only at h
    split_ifs at h
    · exact .inl (length_parse4 h)
    · exact .inr (length_parse6 h)

def isAddrChar (c : UInt8) : Bool := c = ch '.' ∨ c = ch ':' ∨ isHexChar c

theorem isAddrChar_of_isDigit {c} (h : IsDigit c) : isAddrChar c = true := by
  have hhex : isHexChar c = true := by
    have hrange : 48 ≤ c.toNat ∧ c.toNat ≤ 57 := h
    rw [isHexChar, fromHexChar, if_pos hrange]
    rfl
  simp [isAddrChar, hhex]

theorem isDigit_of_mapM {ps : List Bytes} {xs : Bytes} (h : ps.mapM octet = some xs) :
    ∀ p ∈ ps, ∀ c ∈ p, IsDigit c := by
  induction ps generalizing xs with
  | nil => simp
  | cons p ps ih =>
    obtain ⟨x, hx, xs', hxs, -⟩ := exists_of_mapM_cons h
    intro q hq
    rcases mem_cons.1 hq with rfl | hq
    · rw [octet] at hx
      split_ifs at hx with hdigits
      exact hdigits.2.1
    · exact ih hxs q hq

theorem mem_intercalate {c : UInt8} {ps : List Bytes} {delim : UInt8}
    (h : c ∈ [delim].intercalate ps) : c = delim ∨ ∃ p ∈ ps, c ∈ p := by
  induction ps with
  | nil => simp at h
  | cons p ps ih =>
    cases ps with
    | nil => exact .inr ⟨p, by simp, by simpa using h⟩
    | cons q ps =>
      rw [intercalate_cons_cons, mem_append, mem_append] at h
      rcases h with (h | h) | h
      · exact .inr ⟨p, by simp, h⟩
      · exact .inl (mem_singleton.1 h)
      · rcases ih h with h | ⟨r, hr, hc⟩
        · exact .inl h
        · exact .inr ⟨r, mem_cons_of_mem _ hr, hc⟩

theorem isAddrChar_parse4 {s ip : Bytes} (h : parse4 s = some ip) : ∀ c ∈ s, isAddrChar c := by
  intro c hc
  have hs : [ch '.'].intercalate (s.splitOn (ch '.')) = s := intercalate_splitOn _
  rw [← hs] at hc
  rcases mem_intercalate hc with rfl | ⟨p, hp, hc⟩
  · rfl
  · rw [parse4] at h
    split at h
    · rename_i hmap
      exact isAddrChar_of_isDigit (isDigit_of_mapM hmap p hp c hc)
    · cases h

theorem isAddrChar_parseGroups : ∀ {n : ℕ} {s s' : Bytes} {gs gs' : List ℕ} {e e' : Option ℕ},
    parseGroups n s gs e = some (s', gs', e') → ∀ c ∈ s, isAddrChar c ∨ c ∈ s'
  | 0, _, _, _, _, _, _, h => by
    cases h
    exact fun c hc => .inr hc
  | n + 1, s, _, _, _, _, _, h => by
    intro c hc
    rw [← takeWhile_append_dropWhile (p := isHexChar) (l := s), mem_append] at hc
    rcases hc with hc | hc
    · have hhex : isHexChar c = true := mem_takeWhile_imp hc
      exact .inl (by simp [isAddrChar, hhex])
    rw [parseGroups] at h
    split at h
    · cases h
    split at h
    · rename_i hrest
      rw [hrest] at hc
      cases hc
    rename_i d rest hrest
    split at h
    · split at h
      · cases h
      · obtain ⟨ip, hip, -⟩ := map_eq_some_iff.1 h
        exact .inl (isAddrChar_parse4 hip c (dropWhile_sublist _ |>.subset hc))
    split at h
    · cases h
    rename_i hcolon
    rw [not_not] at hcolon
    have hcolon' : isAddrChar (ch ':') = true := rfl
    rw [hrest, hcolon] at hc
    rcases mem_cons.1 hc with rfl | hc
    · exact .inl hcolon'
    split at h
    · cases h
    rename_i d' rest'
    split at h
    · rename_i hd'
      rcases mem_cons.1 hc with rfl | hc
      · exact .inl (hd' ▸ hcolon')
      split at h
      · cases h
      · split at h
        · rename_i hnil
          rw [hnil] at hc
          cases hc
        · exact isAddrChar_parseGroups h c hc
    · exact isAddrChar_parseGroups h c hc

theorem isAddrChar_finish6 {s ip e}
    (h : finish6 (parseGroups 8 s [] e) = some ip) : ∀ c ∈ s, isAddrChar c := by
  rw [finish6.eq_def] at h
  split at h
  · rename_i hread
    intro c hc
    rcases isAddrChar_parseGroups hread c hc with h | h
    · exact h
    · cases h
  · cases h

theorem isAddrChar_parse6 {s ip} (h : parse6 s = some ip) : ∀ c ∈ s, isAddrChar c := by
  have hcolons : ∀ c ∈ [ch ':', ch ':'], isAddrChar c := by decide
  rw [parse6] at h
  split_ifs at h with hs hhead
  · rw [hs]
    exact hcolons
  · intro c hc
    rw [← take_append_drop 2 s, hhead, mem_append] at hc
    rcases hc with hc | hc
    · exact hcolons c hc
    · exact isAddrChar_finish6 h c hc
  · exact isAddrChar_finish6 h

theorem isAddrChar_parseAddr {s ip} (h : parseAddr s = some ip) : ∀ c ∈ s, isAddrChar c := by
  unfold parseAddr at h
  split_ifs at h
  split at h
  · cases h
  · split_ifs at h
    · exact isAddrChar_parse4 h
    · exact isAddrChar_parse6 h

/-! ## Numbers -/

theorem beNat_append (a b : Bytes) : beNat (a ++ b) = beNat a * 256 ^ b.length + beNat b := by
  rw [beNat, foldl_append, foldl_be]
  rfl

theorem ipNum_of_length_sixteen (h : ip.length = 16) : ipNum ip = beNat ip := by
  rw [ipNum, to16_of_length h]

theorem ipNum_of_length_four (h : ip.length = 4) : ipNum ip = 0xffff * 2 ^ 32 + beNat ip := by
  rw [ipNum, to16, if_pos h, beNat_append, h]
  rfl

theorem beNat_lt_of_length_four (h : ip.length = 4) : beNat ip < 2 ^ 32 := by
  have hlt := beNat_lt ip
  rwa [h] at hlt

theorem to4_ne_nil (h : ip.length = 16) (hlo : 0xffff * 2 ^ 32 ≤ beNat ip)
    (hhi : beNat ip < 0xffff * 2 ^ 32 + 2 ^ 32) : to4 ip ≠ [] := by
  have hdrop : (ip.drop 12).length = 4 := by rw [length_drop, h]
  have hsplit : beNat ip = beNat (ip.take 12) * 2 ^ 32 + beNat (ip.drop 12) := by
    rw [← take_append_drop 12 ip, beNat_append, take_append_drop, hdrop]
    rfl
  have hlow : beNat (ip.drop 12) < 2 ^ 32 := beNat_lt_of_length_four hdrop
  have hhead : ip.take 12 = v4Head := by
    have hlen : (ip.take 12).length = 12 := by rw [length_take, h]; rfl
    have hnum : beNat (ip.take 12) = 0xffff := by omega
    rw [← beBytes_beNat (ip.take 12), hnum, hlen]
    rfl
  rw [to4, if_neg (by omega), if_pos ⟨h, hhead⟩]
  intro hnil
  rw [hnil] at hdrop
  cases hdrop

/-! ## Masks -/

def cidrMask : ℕ → ℕ → Bytes
  | 0, _ => []
  | l + 1, n => if 8 ≤ n then 0xff :: cidrMask l (n - 8) else ~~~(0xff >>> UInt8.ofNat n) :: cidrMask l 0

def maskIP (ip mask : Bytes) : Bytes :=
  let mask :=
    if mask.length = 16 ∧ ip.length = 4 ∧ mask.take 12 = replicate 12 0xff then mask.drop 12
    else mask
  let ip := if mask.length = 4 ∧ ip.length = 16 ∧ ip.take 12 = v4Head then ip.drop 12 else ip
  if ip.length = mask.length then zipWith (· &&& ·) ip mask else []

theorem length_cidrMask (l n : ℕ) : (cidrMask l n).length = l := by
  induction l generalizing n with
  | zero => rfl
  | succ l ih =>
    unfold cidrMask
    split_ifs <;> rw [length_cons, ih]

/-- A byte operation that keeps the masked bits and adds `fill` times the others. -/
structure Masks (f : UInt8 → UInt8 → UInt8) (fill : ℕ) : Prop where
  full : ∀ x, f x 0xff = x
  part : ∀ n < 8, ∀ x : UInt8, (f x (~~~(0xff >>> UInt8.ofNat n))).toNat =
    x.toNat / 2 ^ (8 - n) * 2 ^ (8 - n) + fill * (2 ^ (8 - n) - 1)

theorem masks_and : Masks (· &&& ·) 0 where
  full := by decide +kernel
  part := by decide +kernel

theorem masks_fill : Masks (fun x m => x &&& m ||| ~~~m) 1 where
  full := by decide +kernel
  part := by decide +kernel

theorem round_add {s l} (h : s ≤ l) (x N : ℕ) :
    (x * 2 ^ l + N) / 2 ^ s * 2 ^ s = x * 2 ^ l + N / 2 ^ s * 2 ^ s := by
  have hpow : x * 2 ^ l = 2 ^ s * (x * 2 ^ (l - s)) := by
    rw [← Nat.mul_left_comm, ← pow_add, Nat.add_sub_cancel' h]
  rw [hpow, Nat.mul_add_div (by positivity), add_mul]
  ring

theorem round_high {k l x N} (hN : N < 2 ^ l) :
    (x * 2 ^ l + N) / 2 ^ (l + k) * 2 ^ (l + k) = x / 2 ^ k * 2 ^ k * 2 ^ l := by
  have hdiv : (x * 2 ^ l + N) / 2 ^ l = x := by
    rw [mul_comm, Nat.mul_add_div (by positivity), Nat.div_eq_of_lt hN, add_zero]
  rw [pow_add, ← Nat.div_div_eq_div_mul, hdiv]
  ring

theorem Masks.beNat_zipWith {f fill} (hf : Masks f fill) (ip : Bytes) : ∀ n ≤ 8 * ip.length,
    beNat (zipWith f ip (cidrMask ip.length n)) =
      beNat ip / 2 ^ (8 * ip.length - n) * 2 ^ (8 * ip.length - n) +
        fill * (2 ^ (8 * ip.length - n) - 1) := by
  induction ip with
  | nil =>
    intro n hn
    have hzero : n = 0 := by simpa using hn
    simp [cidrMask, beNat, hzero]
  | cons x ip ih =>
    intro n hn
    have hN : beNat ip < 2 ^ (8 * ip.length) := pow_256 ip.length ▸ beNat_lt ip
    have hlen : ∀ n, (zipWith f ip (cidrMask ip.length n)).length = ip.length := by
      intro n
      rw [length_zipWith, length_cidrMask, min_self]
    rw [length_cons] at hn ⊢
    rw [cidrMask, beNat_cons x ip]
    split_ifs with h8
    · have hs : 8 * (ip.length + 1) - n = 8 * ip.length - (n - 8) := by omega
      rw [zipWith_cons_cons, beNat_cons, hlen, ih _ (by omega), hf.full, pow_256, hs,
        round_add (by omega), add_assoc]
    · have hs : 8 * (ip.length + 1) - n = 8 * ip.length + (8 - n) := by omega
      rw [zipWith_cons_cons, beNat_cons, hlen, ih 0 (by omega), hf.part n (by omega), Nat.sub_zero,
        Nat.div_eq_of_lt hN, zero_mul, zero_add, pow_256, hs, round_high hN, pow_add]
      have hk : 1 ≤ 2 ^ (8 - n) := Nat.one_le_two_pow
      have hl : 1 ≤ 2 ^ (8 * ip.length) := Nat.one_le_two_pow
      zify [hk, hl, Nat.one_le_iff_ne_zero.2 (by positivity : 2 ^ (8 * ip.length) * 2 ^ (8 - n) ≠ 0)]
      ring

theorem beNat_mask (ip : Bytes) : ∀ n ≤ 8 * ip.length,
    beNat (zipWith (· &&& ·) ip (cidrMask ip.length n)) =
      beNat ip / 2 ^ (8 * ip.length - n) * 2 ^ (8 * ip.length - n) := by
  intro n hn
  rw [masks_and.beNat_zipWith ip n hn, zero_mul, add_zero]

theorem beNat_fill (ip : Bytes) : ∀ n ≤ 8 * ip.length, beNat (zipWith (fun x m => x ||| ~~~m)
        (zipWith (· &&& ·) ip (cidrMask ip.length n)) (cidrMask ip.length n)) =
      beNat ip / 2 ^ (8 * ip.length - n) * 2 ^ (8 * ip.length - n) +
        (2 ^ (8 * ip.length - n) - 1) := by
  intro n hn
  rw [zipWith_zipWith_left, zipWith3_same_right, masks_fill.beNat_zipWith ip n hn, one_mul]

/-! ## Texts of blocks -/

def dtoi (n i : ℕ) : Bytes → ℕ × ℕ × Bool
  | [] => (n, i, i ≠ 0)
  | c :: s =>
    if IsDigit c then
      let n := n * 10 + (c.toNat - 48)
      if 0xFFFFFF ≤ n then (0xFFFFFF, i, false) else dtoi n (i + 1) s
    else (n, i, i ≠ 0)

def parseCIDR (s : Bytes) : Option (Bytes × Bytes) :=
  match cut (ch '/') s with
  | none => none
  | some (addr, mask) =>
    match parseAddr addr with
    | none => none
    | some ip =>
      let (n, i, ok) := dtoi 0 0 mask
      if ok = false ∨ i ≠ mask.length ∨ 8 * ip.length < n then none
      else some (maskIP (to16 ip) (cidrMask ip.length n), cidrMask ip.length n)

def digitsFrom (n : ℕ) (s : Bytes) : ℕ := s.foldl (fun acc b => acc * 10 + (b.toNat - 48)) n

theorem le_digitsFrom (n : ℕ) (s : Bytes) : n ≤ digitsFrom n s := by
  induction s generalizing n with
  | nil => exact le_rfl
  | cons c s ih => exact le_trans (by omega) (ih (n * 10 + (c.toNat - 48)))

theorem dtoi_of_digits {s} : ∀ {n i : ℕ}, (∀ c ∈ s, IsDigit c) → digitsFrom n s < 0xFFFFFF →
      dtoi n i s = (digitsFrom n s, i + s.length, decide (i + s.length ≠ 0)) := by
  induction s with
  | nil => intro n i _ _; rfl
  | cons c s ih =>
    intro n i hs hv
    have hle := le_digitsFrom (n * 10 + (c.toNat - 48)) s
    have hlt : ¬ 0xFFFFFF ≤ n * 10 + (c.toNat - 48) := not_le.2 (hle.trans_lt hv)
    have hlen : i + 1 + s.length = i + (c :: s).length := by rw [length_cons]; omega
    rw [dtoi, if_pos (hs c mem_cons_self)]
    simp only [if_neg hlt]
    rw [ih (fun b hb => hs b (mem_cons_of_mem _ hb)) hv]
    simp only [hlen]
    rfl

theorem digits_of_dtoi {s} : ∀ {n i v : ℕ}, dtoi n i s = (v, i + s.length, true) →
    (∀ c ∈ s, IsDigit c) ∧ v = digitsFrom n s ∧ i + s.length ≠ 0 := by
  induction s with
  | nil =>
    intro n i v h
    simp only [dtoi, Prod.mk.injEq, decide_eq_true_eq] at h
    exact ⟨by simp, h.1.symm, h.2.2⟩
  | cons c s ih =>
    intro n i v h
    have hlen : i + 1 + s.length = i + (c :: s).length := by rw [length_cons]; omega
    rw [dtoi] at h
    split_ifs at h with hc
    · dsimp only at h
      split_ifs at h with hbig
      · simp at h
      · rw [← hlen] at h
        obtain ⟨hs, hv, hne⟩ := ih h
        refine ⟨?_, hv, hlen ▸ hne⟩
        intro b hb
        rcases mem_cons.1 hb with rfl | hb
        · exact hc
        · exact hs b hb
    · simp at h

theorem maskIP_to16 (h : ip.length = 4 ∨ ip.length = 16) (n : ℕ) :
    maskIP (to16 ip) (cidrMask ip.length n) = zipWith (· &&& ·) ip (cidrMask ip.length n) := by
  have hmask : (cidrMask ip.length n).length = ip.length := length_cidrMask _ _
  have hlen : (to16 ip).length = 16 := length_to16 h
  have hsame : (if (cidrMask ip.length n).length = 16 ∧ (to16 ip).length = 4 ∧
      (cidrMask ip.length n).take 12 = replicate 12 0xff then (cidrMask ip.length n).drop 12
      else cidrMask ip.length n) = cidrMask ip.length n := if_neg (by omega)
  simp only [maskIP, hsame]
  rcases h with h | h
  · have h16 : to16 ip = v4Head ++ ip := by rw [to16, if_pos h]
    have hdrop : (v4Head ++ ip).drop 12 = ip := rfl
    have htake : (v4Head ++ ip).take 12 = v4Head := rfl
    have hshort : (cidrMask ip.length n).length = 4 ∧ (to16 ip).length = 16 ∧
        (to16 ip).take 12 = v4Head := ⟨hmask.trans h, hlen, by rw [h16, htake]⟩
    rw [if_pos hshort, h16, hdrop, if_pos hmask.symm]
  · have h16 : to16 ip = ip := to16_of_length h
    have hlong : ¬ ((cidrMask ip.length n).length = 4 ∧ (to16 ip).length = 16 ∧
        (to16 ip).take 12 = v4Head) := by omega
    rw [if_neg hlong, h16, if_pos hmask.symm]

theorem parseCIDR_eq_some_iff {s net} : parseCIDR s = some net ↔
    ∃ addr bits ip, s = addr ++ ch '/' :: bits ∧ ch '/' ∉ addr ∧ parseAddr addr = some ip ∧
      bits ≠ [] ∧ (∀ c ∈ bits, IsDigit c) ∧ digitsVal bits ≤ 8 * ip.length ∧
      net = (zipWith (· &&& ·) ip (cidrMask ip.length (digitsVal bits)),
        cidrMask ip.length (digitsVal bits)) := by
  constructor
  · intro h
    unfold parseCIDR at h
    cases hcut : cut (ch '/') s with
    | none => rw [hcut] at h; cases h
    | some p =>
      obtain ⟨addr, bits⟩ := p
      rw [hcut] at h
      dsimp only at h
      obtain ⟨hslash, rfl⟩ := cut_eq_some hcut
      cases hip : parseAddr addr with
      | none => rw [hip] at h; cases h
      | some ip =>
        rw [hip] at h
        dsimp only at h
        split_ifs at h with hbad
        cases h
        push Not at hbad
        obtain ⟨hok, hi, hle⟩ := hbad
        have hdtoi : dtoi 0 0 bits = ((dtoi 0 0 bits).1, 0 + bits.length, true) := by
          rw [zero_add, ← hi, ← eq_true_of_ne_false hok]
        obtain ⟨hdigits, hv, hne⟩ := digits_of_dtoi hdtoi
        have hv' : (dtoi 0 0 bits).1 = digitsVal bits := hv
        rw [hv'] at hle ⊢
        rw [maskIP_to16 (length_parseAddr hip)]
        exact ⟨addr, bits, ip, rfl, hslash, hip, by simpa using hne, hdigits, hle, rfl⟩
  · rintro ⟨addr, bits, ip, rfl, hslash, hip, hne, hdigits, hle, rfl⟩
    have hlen := length_parseAddr hip
    have hdtoi : dtoi 0 0 bits = (digitsVal bits, bits.length, true) := by
      have hsmall : digitsFrom 0 bits < 0xFFFFFF := lt_of_le_of_lt hle (by omega)
      rw [dtoi_of_digits hdigits hsmall, zero_add, decide_eq_true (by simpa using hne)]
      rfl
    rw [parseCIDR, cut_append hslash]
    simp only [hip, hdtoi]
    rw [if_neg (by simpa using hle), maskIP_to16 hlen]

end GoI2pBt
