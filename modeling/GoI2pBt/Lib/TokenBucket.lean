/-
  What a token bucket gives out in an interval of time.
-/
import Mathlib.Algebra.Order.Field.Basic
import Mathlib.Tactic.Linarith
import Mathlib.Tactic.Ring

namespace GoI2pBt
open List

structure Bucket (K : Type) where
  level : K
  last : K

structure Take (K : Type) where
  time : K
  amount : K

namespace Bucket

variable {K : Type} [Field K] [LinearOrder K]

def fill (cap rate : K) (b : Bucket K) (t : K) : Bucket K :=
  ⟨min cap (b.level + rate * (t - b.last)), t⟩

def take (cap rate : K) (b : Bucket K) (x : Take K) : Bucket K :=
  ⟨(b.fill cap rate x.time).level - x.amount, x.time⟩

inductive Takes (cap rate : K) : Bucket K → List (Take K) → Bucket K → Prop
  | nil (b : Bucket K) : Takes cap rate b [] b
  | cons {b b' : Bucket K} {x : Take K} {xs : List (Take K)} :
      b.last ≤ x.time → 0 ≤ x.amount → x.amount ≤ (b.fill cap rate x.time).level →
      Takes cap rate (b.take cap rate x) xs b' → Takes cap rate b (x :: xs) b'

def taken (t₀ t₁ : K) (xs : List (Take K)) : K :=
  (xs.map fun x => if t₀ ≤ x.time ∧ x.time ≤ t₁ then x.amount else 0).sum

variable {cap rate : K} {b b' b'' : Bucket K} {x : Take K} {xs ys : List (Take K)} {t t₀ t₁ : K}

theorem taken_cons : taken t₀ t₁ (x :: xs) =
    (if t₀ ≤ x.time ∧ x.time ≤ t₁ then x.amount else 0) + taken t₀ t₁ xs := by
  rw [taken, map_cons, sum_cons]
  rfl

/-! ## Takes one after the other -/

theorem Takes.trans (h : Takes cap rate b xs b') (h' : Takes cap rate b' ys b'') :
    Takes cap rate b (xs ++ ys) b'' := by
  induction h with
  | nil => exact h'
  | cons hlast hpos hle _ ih => exact .cons hlast hpos hle (ih h')

theorem Takes.last_le (h : Takes cap rate b xs b') : b.last ≤ b'.last := by
  induction h with
  | nil => exact le_rfl
  | cons hlast _ _ _ ih => exact hlast.trans ih

theorem Takes.time_le (h : Takes cap rate b xs b') :
    ∀ x ∈ xs, b.last ≤ x.time ∧ x.time ≤ b'.last := by
  induction h with
  | nil => simp
  | @cons b b' x xs hlast hpos hle hrest ih =>
    intro y hy
    rcases mem_cons.1 hy with rfl | hy
    · exact ⟨hlast, hrest.last_le⟩
    · exact ⟨hlast.trans (ih y hy).1, (ih y hy).2⟩

theorem taken_eq_zero (h : ∀ x ∈ xs, t₁ < x.time) : taken t₀ t₁ xs = 0 := by
  induction xs with
  | nil => rfl
  | cons x xs ih =>
    have hx : ¬ x.time ≤ t₁ := not_le.2 (h x mem_cons_self)
    rw [taken_cons, if_neg fun hin => hx hin.2, zero_add]
    exact ih fun y hy => h y (mem_cons_of_mem _ hy)

section Ordered
variable [IsStrictOrderedRing K]

theorem taken_le_level (h : Takes cap rate b xs b') (hrate : 0 ≤ rate) (hb : 0 ≤ b.level)
    (ht : b.last ≤ t₁) : taken t₀ t₁ xs ≤ b.level + rate * (t₁ - b.last) := by
  induction h with
  | nil b => exact add_nonneg hb (mul_nonneg hrate (sub_nonneg.2 ht))
  | @cons b b' x xs hlast hpos hle hrest ih =>
    rcases lt_or_ge t₁ x.time with hlate | hin
    · rw [taken_eq_zero]
      · exact add_nonneg hb (mul_nonneg hrate (sub_nonneg.2 ht))
      · intro y hy
        rcases mem_cons.1 hy with rfl | hy
        · exact hlate
        · exact hlate.trans_le (hrest.time_le y hy).1
    · have hfill : (b.fill cap rate x.time).level ≤ b.level + rate * (x.time - b.last) :=
        min_le_right _ _
      have hxs : taken t₀ t₁ xs ≤
          (b.fill cap rate x.time).level - x.amount + rate * (t₁ - x.time) :=
        ih (sub_nonneg.2 hle) hin
      have hx : (if t₀ ≤ x.time ∧ x.time ≤ t₁ then x.amount else 0) ≤ x.amount := by
        split_ifs
        · exact le_rfl
        · exact hpos
      calc taken t₀ t₁ (x :: xs)
          ≤ x.amount + ((b.fill cap rate x.time).level - x.amount + rate * (t₁ - x.time)) := by
            rw [taken_cons]
            exact add_le_add hx hxs
        _ ≤ b.level + rate * (x.time - b.last) + rate * (t₁ - x.time) := by linarith
        _ = b.level + rate * (t₁ - b.last) := by ring

theorem taken_le (h : Takes cap rate b xs b') (hrate : 0 ≤ rate) (hcap : 0 ≤ cap) (ht : t₀ ≤ t₁) :
    taken t₀ t₁ xs ≤ cap + rate * (t₁ - t₀) := by
  have hflow : 0 ≤ rate * (t₁ - t₀) := mul_nonneg hrate (sub_nonneg.2 ht)
  induction h with
  | nil => exact add_nonneg hcap hflow
  | @cons b b' x xs hlast hpos hle hrest ih =>
    rw [taken_cons]
    split_ifs with hin
    · -- the first take within the stretch: from here on the level bounds what is taken
      have hxs : taken t₀ t₁ xs ≤
          (b.fill cap rate x.time).level - x.amount + rate * (t₁ - x.time) :=
        taken_le_level hrest hrate (sub_nonneg.2 hle) hin.2
      have hfull : (b.fill cap rate x.time).level ≤ cap := min_le_left _ _
      have hlater : rate * (t₁ - x.time) ≤ rate * (t₁ - t₀) :=
        mul_le_mul_of_nonneg_left (sub_le_sub_left hin.1 _) hrate
      linarith
    · rw [zero_add]
      exact ih

end Ordered

end Bucket

end GoI2pBt
