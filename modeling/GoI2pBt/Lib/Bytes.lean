/-
  Byte strings, big-endian words and machine integers.
-/
import Mathlib

namespace GoI2pBt

open List Option

abbrev Bytes := List UInt8

/-- The largest number of bytes that Go's `make` takes on a 64-bit platform. -/
def maxAlloc : ℕ := 2 ^ 48

instance decidableForallMem {p : UInt8 → Prop} [DecidablePred p] (s : Bytes) :
    Decidable (∀ b ∈ s, p b) := decidableBAll p s

instance decidableMemTexts (s : Bytes) (texts : List Bytes) : Decidable (s ∈ texts) := inferInstance

abbrev ch (c : Char) : UInt8 := c.toUInt8

def utf8 (s : String) : Bytes := s.toList.flatMap String.utf8EncodeChar

theorem exists_of_mapM_cons {α β} {f : α → Option β} {x xs r} (h : (x :: xs).mapM f = some r) :
    ∃ y, f x = some y ∧ ∃ ys, xs.mapM f = some ys ∧ y :: ys = r := by
  rw [mapM_cons] at h
  simpa only [bind_eq_bind, bind_eq_some_iff, Option.pure_def, some.injEq] using h

/-! ## Cutting at a delimiter -/

def cut (delim : UInt8) : Bytes → Option (Bytes × Bytes)
  | [] => none
  | b :: bs =>
    if b = delim then some ([], bs) else (cut delim bs).map fun p => (b :: p.1, p.2)

theorem cut_append {delim l} (h : delim ∉ l) (r : Bytes) :
    cut delim (l ++ delim :: r) = some (l, r) := by
  induction l with
  | nil => simp [cut]
  | cons b l ih =>
    simp only [mem_cons, not_or] at h
    simp [cut, ih h.2, Ne.symm h.1]

theorem append_delim_inj {delim : UInt8} {l l' r r' : Bytes} (h : delim ∉ l) (h' : delim ∉ l')
    (e : l ++ delim :: r = l' ++ delim :: r') : l = l' ∧ r = r' := by
  have := congrArg (cut delim) e
  rw [cut_append h, cut_append h', some.injEq, Prod.mk.injEq] at this
  exact this

theorem cut_eq_some {delim b l r} (h : cut delim b = some (l, r)) :
    delim ∉ l ∧ b = l ++ delim :: r := by
  induction b generalizing l with
  | nil => simp [cut] at h
  | cons c bs ih =>
    by_cases hc : c = delim
    · simp only [cut, hc, if_true, some.injEq, Prod.mk.injEq] at h
      obtain ⟨rfl, rfl⟩ := h
      simp [hc]
    · simp only [cut, hc, if_false, map_eq_some_iff, Prod.mk.injEq] at h
      obtain ⟨⟨l', r'⟩, hcut, rfl, rfl⟩ := h
      obtain ⟨hl, rfl⟩ := ih hcut
      exact ⟨by simp [hl, Ne.symm hc], rfl⟩

/-! ## Big-endian words -/

def beBytes : ℕ → ℕ → Bytes
  | 0, _ => []
  | w + 1, n => UInt8.ofNat (n / 256 ^ w) :: beBytes w n

def beNat (b : Bytes) : ℕ := b.foldl (fun acc x => acc * 256 + x.toNat) 0

@[simp] theorem length_beBytes (w n : ℕ) : (beBytes w n).length = w := by
  induction w with
  | zero => rfl
  | succ w ih => simp [beBytes, ih]

theorem foldl_beBytes (w n acc : ℕ) :
    (beBytes w n).foldl (fun acc x => acc * 256 + x.toNat) acc = acc * 256 ^ w + n % 256 ^ w := by
  induction w generalizing acc with
  | zero => simp [beBytes, Nat.mod_one]
  | succ w ih =>
    have hdiv : n % 256 ^ (w + 1) = n / 256 ^ w % 256 * 256 ^ w + n % 256 ^ w := by
      rw [pow_succ, Nat.mod_mul, mul_comm, add_comm]
    simp only [beBytes, foldl_cons, ih, UInt8.toNat_ofNat']
    rw [hdiv]; ring

theorem beNat_beBytes (w n : ℕ) : beNat (beBytes w n) = n % 256 ^ w := by
  rw [beNat, foldl_beBytes]; simp

theorem foldl_be (b : Bytes) (acc : ℕ) :
    b.foldl (fun acc x => acc * 256 + x.toNat) acc = acc * 256 ^ b.length + beNat b := by
  induction b generalizing acc with
  | nil => simp [beNat]
  | cons x b ih =>
    simp only [beNat, foldl_cons, length_cons] at ih ⊢
    rw [ih (acc * 256 + x.toNat), ih (0 * 256 + x.toNat)]
    ring

theorem beNat_lt (b : Bytes) : beNat b < 256 ^ b.length := by
  induction b using reverseRecOn with
  | nil => simp [beNat]
  | append_singleton b x ih =>
    have hx := x.toNat_lt
    simp only [beNat, foldl_append, foldl_cons, foldl_nil] at ih ⊢
    rw [length_append, length_singleton, pow_succ]
    omega

theorem beNat_cons (x : UInt8) (b : Bytes) :
    beNat (x :: b) = x.toNat * 256 ^ b.length + beNat b := by
  rw [beNat, foldl_cons, zero_mul, zero_add, foldl_be]

theorem beNat_cons_lt {x y : UInt8} {b c : Bytes} (h : b.length = c.length) (hlt : x < y) :
    beNat (x :: b) < beNat (y :: c) := by
  have hb := beNat_lt b
  have hxy : x.toNat + 1 ≤ y.toNat := UInt8.lt_iff_toNat_lt.1 hlt
  calc beNat (x :: b) < x.toNat * 256 ^ b.length + 256 ^ b.length := by
        rw [beNat_cons]
        omega
    _ = (x.toNat + 1) * 256 ^ c.length := by rw [h]; ring
    _ ≤ y.toNat * 256 ^ c.length := Nat.mul_le_mul_right _ hxy
    _ ≤ beNat (y :: c) := by
        rw [beNat_cons]
        exact Nat.le_add_right _ _

theorem beBytes_add_mul (w n k : ℕ) : beBytes w (n + k * 256 ^ w) = beBytes w n := by
  induction w generalizing k with
  | zero => rfl
  | succ w ih =>
    have hdiv : (n + k * 256 ^ (w + 1)) / 256 ^ w = n / 256 ^ w + k * 256 := by
      rw [pow_succ, show k * (256 ^ w * 256) = k * 256 * 256 ^ w by ring,
        Nat.add_mul_div_right _ _ (by positivity)]
    have htail : n + k * 256 ^ (w + 1) = n + k * 256 * 256 ^ w := by ring
    rw [beBytes, beBytes, hdiv, htail, ih]
    congr 1
    apply UInt8.toNat_inj.1
    simp

theorem beBytes_beNat (b : Bytes) : beBytes b.length (beNat b) = b := by
  induction b with
  | nil => rfl
  | cons x b ih =>
    have hx : beNat (x :: b) = beNat b + x.toNat * 256 ^ b.length := by
      rw [beNat_cons, add_comm]
    have hdiv : (beNat b + x.toNat * 256 ^ b.length) / 256 ^ b.length = x.toNat := by
      rw [Nat.add_mul_div_right _ _ (by positivity), Nat.div_eq_of_lt (beNat_lt b), zero_add]
    rw [hx, length_cons, beBytes, hdiv, beBytes_add_mul, ih, UInt8.ofNat_toNat]

theorem pow_256 (l : ℕ) : 256 ^ l = 2 ^ (8 * l) := by
  rw [pow_mul]
  rfl

theorem beNat_xor : ∀ {a b : Bytes}, a.length = b.length →
    beNat (zipWith (· ^^^ ·) a b) = beNat a ^^^ beNat b
  | [], [], _ => rfl
  | x :: a, y :: b, h => by
    have hlen : a.length = b.length := Nat.succ.inj h
    have ha := beNat_lt a
    have hb := beNat_lt b
    rw [zipWith_cons_cons, beNat_cons, beNat_cons, beNat_cons, beNat_xor hlen, length_zipWith,
      hlen, min_self, UInt8.toNat_xor]
    rw [hlen] at ha
    rw [pow_256] at ha hb ⊢
    refine Nat.eq_of_testBit_eq fun i => ?_
    simp only [mul_comm _ (2 ^ _), Nat.testBit_xor, Nat.testBit_two_pow_mul_add _ ha,
      Nat.testBit_two_pow_mul_add _ hb, Nat.testBit_two_pow_mul_add _ (Nat.xor_lt_two_pow ha hb)]
    split_ifs <;> rfl

theorem log_beNat_cons {v : UInt8} {d} (hlo : 2 ^ d ≤ v.toNat) (hhi : v.toNat < 2 ^ (d + 1)) (vs) :
    Nat.log 2 (beNat (v :: vs)) = d + 8 * vs.length := by
  have hrest := beNat_lt vs
  have hlow := Nat.mul_le_mul_right (256 ^ vs.length) hlo
  have hhigh := Nat.mul_le_mul_right (256 ^ vs.length) (Nat.succ_le_of_lt hhi)
  rw [Nat.succ_mul] at hhigh
  rw [beNat_cons]
  apply Nat.log_eq_of_pow_le_of_lt_pow
  · rw [pow_add, ← pow_256]
    omega
  · rw [add_right_comm, pow_add, ← pow_256]
    omega

/-! ## Machine words -/

theorem beNat_beBytes_of_lt {w n} (h : n < 256 ^ w) : beNat (beBytes w n) = n := by
  rw [beNat_beBytes, Nat.mod_eq_of_lt h]

@[simp] theorem ofNat_be16 (x : UInt16) : UInt16.ofNat (beNat (beBytes 2 x.toNat)) = x := by
  rw [beNat_beBytes_of_lt x.toNat_lt, UInt16.ofNat_toNat]

@[simp] theorem ofNat_be32 (x : UInt32) : UInt32.ofNat (beNat (beBytes 4 x.toNat)) = x := by
  rw [beNat_beBytes_of_lt x.toNat_lt, UInt32.ofNat_toNat]

@[simp] theorem ofNat_be64 (x : UInt64) : UInt64.ofNat (beNat (beBytes 8 x.toNat)) = x := by
  rw [beNat_beBytes_of_lt x.toNat_lt, UInt64.ofNat_toNat]

/-! ## `int64` arithmetic -/

def wrap64 (i : ℤ) : ℤ := i.bmod (2 ^ 64)

theorem wrap64_of_range {i} (hlo : -2 ^ 63 ≤ i) (hhi : i < 2 ^ 63) : wrap64 i = i :=
  Int.bmod_eq_of_le (by norm_num; omega) (by norm_num; omega)

@[simp] theorem wrap64_wrap64_add (a b : ℤ) : wrap64 (wrap64 a + b) = wrap64 (a + b) := by
  simp [wrap64]

@[simp] theorem wrap64_wrap64_sub (a b : ℤ) : wrap64 (wrap64 a - wrap64 b) = wrap64 (a - b) := by
  simp [wrap64]

theorem wrap64_natCast {n : ℕ} (h : n < 2 ^ 63) : wrap64 n = n :=
  wrap64_of_range (by omega) (by omega)

end GoI2pBt
