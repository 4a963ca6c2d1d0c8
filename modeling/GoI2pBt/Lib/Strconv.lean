/-
  Decimal numbers.
-/
import GoI2pBt.Lib.Bytes

namespace GoI2pBt

open List

def digitByte (d : ℕ) : UInt8 := UInt8.ofNat (48 + d)

def IsDigit (b : UInt8) : Prop := 48 ≤ b.toNat ∧ b.toNat ≤ 57

instance : DecidablePred IsDigit := fun b => inferInstanceAs (Decidable (48 ≤ b.toNat ∧ b.toNat ≤ 57))

def formatUint (n : ℕ) : Bytes :=
  if n = 0 then [digitByte 0] else (Nat.digits 10 n).reverse.map digitByte

def formatInt (i : ℤ) : Bytes :=
  if i < 0 then ch '-' :: formatUint i.natAbs else formatUint i.natAbs

def digitsVal (s : Bytes) : ℕ := s.foldl (fun acc b => acc * 10 + (b.toNat - 48)) 0

def parseUint (bits : ℕ) (s : Bytes) : Option ℕ :=
  if s ≠ [] ∧ (∀ b ∈ s, IsDigit b) ∧ digitsVal s < 2 ^ bits then some (digitsVal s) else none

def signed : Bytes → Bool × Bytes
  | [] => (false, [])
  | b :: s => if b = ch '+' then (false, s) else if b = ch '-' then (true, s) else (false, b :: s)

def parseInt (bits : ℕ) (s : Bytes) : Option ℤ :=
  let ds := (signed s).2
  if ds ≠ [] ∧ ∀ b ∈ ds, IsDigit b then
    if (signed s).1 then if digitsVal ds ≤ 2 ^ (bits - 1) then some (-(digitsVal ds : ℤ)) else none
    else if digitsVal ds < 2 ^ (bits - 1) then some (digitsVal ds) else none
  else none

/-! ## Digits -/

theorem toNat_digitByte {d} (h : d < 10) : (digitByte d).toNat = 48 + d := by
  simp only [digitByte, UInt8.toNat_ofNat']; omega

theorem isDigit_digitByte {d} (h : d < 10) : IsDigit (digitByte d) := by
  rw [IsDigit, toNat_digitByte h]; omega

theorem formatUint_ne_nil (n : ℕ) : formatUint n ≠ [] := by
  unfold formatUint; split_ifs with h
  · simp
  · simpa [Nat.digits_eq_nil_iff_eq_zero] using h

theorem isDigit_of_mem_formatUint {n b} (h : b ∈ formatUint n) : IsDigit b := by
  unfold formatUint at h; split_ifs at h with hn
  · simp only [mem_singleton] at h; subst h; exact isDigit_digitByte (by omega)
  · simp only [mem_map, mem_reverse] at h
    obtain ⟨d, hd, rfl⟩ := h
    exact isDigit_digitByte (Nat.digits_lt_base (by omega) hd)

theorem foldr_digitByte (l : List ℕ) (h : ∀ d ∈ l, d < 10) :
    l.foldr (fun d acc => acc * 10 + ((digitByte d).toNat - 48)) 0 = Nat.ofDigits 10 l := by
  induction l with
  | nil => rfl
  | cons d l ih =>
    rw [foldr_cons, ih fun d hd => h d (by simp [hd]), Nat.ofDigits_cons,
      toNat_digitByte (h d (by simp))]
    omega

@[simp] theorem digitsVal_formatUint (n : ℕ) : digitsVal (formatUint n) = n := by
  unfold formatUint; split_ifs with h
  · subst h; rfl
  · rw [digitsVal, foldl_map, foldl_reverse,
      foldr_digitByte _ fun d hd => Nat.digits_lt_base (by omega) hd, Nat.ofDigits_digits]

theorem notMem_formatUint {c} (h : ¬ IsDigit c) (n : ℕ) : c ∉ formatUint n :=
  fun hc => h (isDigit_of_mem_formatUint hc)

theorem notMem_formatInt {c} (h : ¬ IsDigit c) (hm : c ≠ ch '-') (i : ℤ) : c ∉ formatInt i := by
  unfold formatInt; split_ifs
  · simp [hm, notMem_formatUint h]
  · exact notMem_formatUint h _

theorem formatUint_injective : Function.Injective formatUint := fun m n h => by
  rw [← digitsVal_formatUint m, h, digitsVal_formatUint]

theorem formatUint_head (n : ℕ) : ∃ b l, formatUint n = b :: l ∧ IsDigit b := by
  cases h : formatUint n with
  | nil => exact absurd h (formatUint_ne_nil n)
  | cons b l => exact ⟨b, l, rfl, isDigit_of_mem_formatUint (n := n) (by simp [h])⟩

theorem length_formatUint {n w} (h : n < 10 ^ w) (hw : 0 < w) : (formatUint n).length ≤ w := by
  unfold formatUint
  split_ifs with hn
  · exact hw
  · rw [length_map, length_reverse]
    exact (Nat.digits_length_le_iff (by omega) n).2 h

theorem formatUint_head_zero {n} (h : (formatUint n).head? = some (ch '0')) : n = 0 := by
  by_contra hn
  have hne : Nat.digits 10 n ≠ [] := Nat.digits_ne_nil_iff_ne_zero.2 hn
  have hlt : (Nat.digits 10 n).getLast hne < 10 := Nat.digits_lt_base (by omega) (getLast_mem hne)
  rw [formatUint, if_neg hn, head?_map, head?_reverse,
    getLast?_eq_some_getLast hne, Option.map_some, Option.some.injEq] at h
  have hd := congrArg UInt8.toNat h
  rw [toNat_digitByte hlt] at hd
  have h0 : (ch '0').toNat = 48 := rfl
  exact Nat.getLast_digit_ne_zero 10 hn (by omega)

theorem formatInt_injective : Function.Injective formatInt := by
  have hminus : ∀ m n, ch '-' :: formatUint m ≠ formatUint n := fun m n h => by
    obtain ⟨b, l, hb, hd⟩ := formatUint_head n
    rw [hb] at h
    cases h
    exact absurd hd (by decide)
  intro i j h
  unfold formatInt at h
  split_ifs at h with hi hj hj
  · have := formatUint_injective (cons.inj h).2; omega
  · exact absurd h (hminus _ _)
  · exact absurd h.symm (hminus _ _)
  · have := formatUint_injective h; omega

/-! ## Reading back a formatted number -/

theorem parseUint_formatUint {bits n} (h : n < 2 ^ bits) :
    parseUint bits (formatUint n) = some n := by
  rw [parseUint, if_pos, digitsVal_formatUint]
  exact ⟨formatUint_ne_nil n, fun b hb => isDigit_of_mem_formatUint hb, by simpa⟩

theorem signed_of_isDigit {s} (h : ∀ b ∈ s, IsDigit b) : signed s = (false, s) := by
  cases s with
  | nil => rfl
  | cons b s =>
    have hb := h b (by simp)
    have hp : b ≠ ch '+' := by rintro rfl; exact absurd hb (by decide)
    have hm : b ≠ ch '-' := by rintro rfl; exact absurd hb (by decide)
    simp [signed, hp, hm]

theorem parseInt_formatUint {bits n} (h : n < 2 ^ (bits - 1)) :
    parseInt bits (formatUint n) = some (n : ℤ) := by
  have hd : ∀ b ∈ formatUint n, IsDigit b := fun b hb => isDigit_of_mem_formatUint hb
  simp only [parseInt, signed_of_isDigit hd]
  rw [if_pos ⟨formatUint_ne_nil n, hd⟩]
  simp [h]

theorem parseInt_formatInt {bits i} (hlo : -(2 ^ (bits - 1) : ℤ) ≤ i)
    (hhi : i < 2 ^ (bits - 1)) : parseInt bits (formatInt i) = some i := by
  have hd : ∀ b ∈ formatUint i.natAbs, IsDigit b := fun b hb => isDigit_of_mem_formatUint hb
  by_cases hi : i < 0
  · have hs : signed (ch '-' :: formatUint i.natAbs) = (true, formatUint i.natAbs) := by
      simp [signed]; decide
    simp only [parseInt, formatInt, if_pos hi, hs]
    rw [if_pos ⟨formatUint_ne_nil _, hd⟩]
    have hle : i.natAbs ≤ 2 ^ (bits - 1) := by zify; rw [abs_of_neg hi]; omega
    simp only [digitsVal_formatUint, hle, if_true, Option.some.injEq]
    omega
  · have hlt : i.natAbs < 2 ^ (bits - 1) := by zify; rw [abs_of_nonneg (by omega)]; exact hhi
    rw [formatInt, if_neg hi, parseInt_formatUint hlt]
    simp; omega

theorem parseInt_range {bits s i} (h : parseInt bits s = some i) :
    -(2 ^ (bits - 1) : ℤ) ≤ i ∧ i < 2 ^ (bits - 1) := by
  have hpos : (0 : ℤ) < 2 ^ (bits - 1) := by positivity
  simp only [parseInt] at h
  generalize (signed s).2 = ds at h
  split_ifs at h with h1 h2 h3 h4
  · simp only [Option.some.injEq] at h; subst h
    have : (digitsVal ds : ℤ) ≤ 2 ^ (bits - 1) := by exact_mod_cast h3
    omega
  · simp only [Option.some.injEq] at h; subst h
    have : (digitsVal ds : ℤ) < 2 ^ (bits - 1) := by exact_mod_cast h4
    omega

theorem parseInt_unique {m n s i j} (hi : parseInt m s = some i)
    (hj : parseInt n s = some j) : i = j := by
  simp only [parseInt] at hi hj
  split_ifs at hi hj <;> (rw [← Option.some.inj hi, ← Option.some.inj hj])

theorem parseInt_formatInt_iff {bits i j} : parseInt bits (formatInt i) = some j ↔
      j = i ∧ -(2 ^ (bits - 1) : ℤ) ≤ i ∧ i < 2 ^ (bits - 1) := by
  constructor
  · intro h
    have hlt : i.natAbs < 2 ^ i.natAbs := Nat.lt_two_pow_self
    have hwide : parseInt (i.natAbs + 1) (formatInt i) = some i := by
      have : (i.natAbs : ℤ) < 2 ^ i.natAbs := by exact_mod_cast hlt
      refine parseInt_formatInt ?_ ?_ <;> rw [Nat.add_sub_cancel] <;> omega
    obtain rfl := parseInt_unique h hwide
    exact ⟨rfl, parseInt_range h⟩
  · rintro ⟨rfl, hlo, hhi⟩
    exact parseInt_formatInt hlo hhi

theorem parseUint_formatInt_iff {bits n i} :
    parseUint bits (formatInt i) = some n ↔ (n : ℤ) = i ∧ n < 2 ^ bits := by
  by_cases hi : i < 0
  · refine iff_of_false (fun h => ?_) fun h => by omega
    rw [parseUint, formatInt, if_pos hi] at h
    split_ifs at h with hs
    exact absurd (hs.2.1 _ mem_cons_self) (by decide)
  · have hd : ∀ b ∈ formatUint i.natAbs, IsDigit b := fun b hb => isDigit_of_mem_formatUint hb
    rw [parseUint, formatInt, if_neg hi, digitsVal_formatUint]
    by_cases hlt : i.natAbs < 2 ^ bits
    · rw [if_pos ⟨formatUint_ne_nil _, hd, hlt⟩, Option.some.injEq]
      constructor
      · rintro rfl
        exact ⟨by omega, hlt⟩
      · omega
    · rw [if_neg fun h => hlt h.2.2]
      refine iff_of_false (by simp) ?_
      rintro ⟨rfl, hn⟩
      exact hlt (by simpa using hn)

end GoI2pBt
