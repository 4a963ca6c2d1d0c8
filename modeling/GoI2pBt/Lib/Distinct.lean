/-
  The first distinct values of a sequence.
-/
import Mathlib.Data.List.Basic
import Mathlib.Tactic.Common

namespace GoI2pBt

open List

variable {α : Type} [DecidableEq α]

/-! ## Distinct values -/

def distinct (c : ℕ → α) : ℕ → List α
  | 0 => []
  | n + 1 => if c n ∈ distinct c n then distinct c n else distinct c n ++ [c n]

def FirstDistinct (c : ℕ → α) (k : ℕ) (l : List α) : Prop := l.length = k ∧ ∃ n, distinct c n = l

variable {c : ℕ → α} {k m n : ℕ} {l l' : List α}

theorem distinct_succ_mono (c : ℕ → α) (n : ℕ) : distinct c n <+: distinct c (n + 1) := by
  rw [distinct]
  split_ifs
  · exact prefix_rfl
  · exact prefix_append _ _

theorem distinct_mono (c : ℕ → α) (h : m ≤ n) : distinct c m <+: distinct c n := by
  induction h with
  | refl => exact prefix_rfl
  | step _ ih => exact ih.trans (distinct_succ_mono c _)

theorem FirstDistinct.unique (h : FirstDistinct c k l) (h' : FirstDistinct c k l') : l = l' := by
  obtain ⟨hl, m, rfl⟩ := h
  obtain ⟨hl', n, rfl⟩ := h'
  rcases Nat.le_total m n with hmn | hmn
  · exact (distinct_mono c hmn).eq_of_length (hl.trans hl'.symm)
  · exact ((distinct_mono c hmn).eq_of_length (hl'.trans hl.symm)).symm

theorem mem_distinct {x} (h : x ∈ distinct c n) : ∃ i < n, c i = x := by
  induction n with
  | zero => cases h
  | succ n ih =>
    rw [distinct] at h
    split_ifs at h
    · obtain ⟨i, hi, hx⟩ := ih h
      exact ⟨i, Nat.lt_succ_of_lt hi, hx⟩
    · rcases mem_append.1 h with h | h
      · obtain ⟨i, hi, hx⟩ := ih h
        exact ⟨i, Nat.lt_succ_of_lt hi, hx⟩
      · exact ⟨n, Nat.lt_succ_self n, (mem_singleton.1 h).symm⟩

theorem length_distinct_succ (c : ℕ → α) (n : ℕ) :
    (distinct c (n + 1)).length ≤ (distinct c n).length + 1 := by
  rw [distinct]
  split_ifs
  · omega
  · exact Nat.le_of_eq (by rw [length_append, length_singleton])

theorem exists_firstDistinct (h : k ≤ (distinct c n).length) : ∃ l, FirstDistinct c k l := by
  induction n with
  | zero =>
    have hk : k = 0 := Nat.le_zero.1 h
    exact ⟨[], hk.symm, 0, rfl⟩
  | succ n ih =>
    by_cases hn : k ≤ (distinct c n).length
    · exact ih hn
    · have := length_distinct_succ c n
      exact ⟨_, by omega, n + 1, rfl⟩

/-! ## Filling an array -/

def fillStep (st : List α × ℕ) (x : α) : List α × ℕ :=
  if st.2 < st.1.length ∧ x ∉ st.1 then (st.1.set st.2 x, st.2 + 1) else st

def fill (blank : α) (k : ℕ) (c : ℕ → α) : ℕ → List α × ℕ
  | 0 => (replicate k blank, 0)
  | n + 1 => fillStep (fill blank k c n) (c n)

variable {blank : α}

def nonBlank (blank : α) (c : ℕ → α) (n : ℕ) : List α := (distinct c n).filter (· ≠ blank)

theorem nonBlank_succ (blank : α) (c : ℕ → α) (n : ℕ) : nonBlank blank c (n + 1) =
    if c n = blank ∨ c n ∈ nonBlank blank c n then nonBlank blank c n
    else nonBlank blank c n ++ [c n] := by
  unfold nonBlank
  rw [distinct]
  by_cases hmem : c n ∈ distinct c n
  · rw [if_pos hmem, if_pos]
    by_cases hb : c n = blank
    · exact .inl hb
    · exact .inr (mem_filter.2 ⟨hmem, decide_eq_true hb⟩)
  · rw [if_neg hmem, filter_append]
    by_cases hb : c n = blank
    · rw [if_pos (.inl hb), filter_singleton, decide_eq_false (not_not.2 hb)]
      exact append_nil _
    · rw [if_neg, filter_singleton, decide_eq_true hb]
      · rfl
      · rintro (h | h)
        · exact hb h
        · exact hmem (mem_of_mem_filter h)

omit [DecidableEq α] in
theorem mem_blanks {x} (h : l.length < k) :
    x ∈ l ++ replicate (k - l.length) blank ↔ x = blank ∨ x ∈ l := by
  rw [mem_append, mem_replicate, or_comm, and_iff_right (by omega)]

theorem fill_eq (blank : α) (k : ℕ) (c : ℕ → α) (n : ℕ) : fill blank k c n =
    ((nonBlank blank c n).take k ++ replicate (k - ((nonBlank blank c n).take k).length) blank,
      ((nonBlank blank c n).take k).length) := by
  induction n with
  | zero =>
    rw [fill, nonBlank, distinct, filter_nil, take_nil]
    rfl
  | succ n ih =>
    rw [fill, ih, nonBlank_succ, fillStep]
    set l := nonBlank blank c n
    by_cases hfull : k ≤ l.length
    · -- a full array stays as it is
      have hlen : (l.take k).length = k := length_take_of_le hfull
      rw [if_neg (by simp [hlen])]
      split_ifs
      · rfl
      · rw [take_append_of_le_length hfull]
    · rw [take_of_length_le (by omega : l.length ≤ k)]
      have hlt : l.length < k := by omega
      by_cases hc : c n = blank ∨ c n ∈ l
      · rw [if_neg fun h => h.2 ((mem_blanks hlt).2 hc), if_pos hc,
          take_of_length_le (by omega : l.length ≤ k)]
      · rw [if_pos ⟨by simp; omega, fun h => hc ((mem_blanks hlt).1 h)⟩, if_neg hc,
          take_of_length_le (by simp; omega)]
        have hrep : replicate (k - l.length) blank =
            blank :: replicate (k - (l.length + 1)) blank := by
          rw [← replicate_succ]
          congr 1
          omega
        simp only [hrep, length_append, length_singleton,
          set_append_right _ _ (Nat.le_refl _), Nat.sub_self, set_cons_zero,
          append_assoc, singleton_append]

theorem length_fill (blank : α) (k : ℕ) (c : ℕ → α) (n : ℕ) : (fill blank k c n).1.length = k := by
  rw [fill_eq, length_append, length_replicate, length_take]
  omega

theorem fill_le (blank : α) (k : ℕ) (c : ℕ → α) (n : ℕ) : (fill blank k c n).2 ≤ k := by
  rw [fill_eq]
  exact length_take_le _ _

theorem fill_full_iff : (fill blank k c n).2 = k ↔ k ≤ (nonBlank blank c n).length := by
  rw [fill_eq, length_take]
  omega

theorem fill_full (h : k ≤ (nonBlank blank c n).length) :
    (fill blank k c n).1 = (nonBlank blank c n).take k := by
  rw [fill_eq, length_take_of_le h, Nat.sub_self]
  exact append_nil _

theorem nonBlank_mono (blank : α) (c : ℕ → α) (h : m ≤ n) :
    nonBlank blank c m <+: nonBlank blank c n := (distinct_mono c h).filter _

theorem take_nonBlank (hm : k ≤ (nonBlank blank c m).length)
    (hn : k ≤ (nonBlank blank c n).length) :
    (nonBlank blank c m).take k = (nonBlank blank c n).take k := by
  have hle : ∀ {m n}, m ≤ n → k ≤ (nonBlank blank c m).length →
      (nonBlank blank c m).take k = (nonBlank blank c n).take k := by
    intro m n hmn hm
    obtain ⟨l, hl⟩ := nonBlank_mono blank c hmn
    rw [← hl, take_append_of_le_length hm]
  rcases Nat.le_total m n with hmn | hmn
  · exact hle hmn hm
  · exact (hle hmn hn).symm

theorem firstDistinct_take_iff (h : k ≤ (nonBlank blank c n).length) :
    FirstDistinct c k ((nonBlank blank c n).take k) ↔ ∀ l, FirstDistinct c k l → blank ∉ l := by
  constructor
  · intro hf l hl hmem
    rw [hl.unique hf] at hmem
    have := (mem_filter.1 (mem_of_mem_take hmem)).2
    simp at this
  · intro hno
    have hlen : k ≤ (distinct c n).length := Nat.le_trans h (length_filter_le _ _)
    obtain ⟨l, hl⟩ := exists_firstDistinct hlen
    obtain ⟨hk, m, hm⟩ := hl
    -- without the blank nothing is left out of the list
    have hall : nonBlank blank c m = l := by
      rw [nonBlank, hm]
      refine filter_eq_self.2 fun a ha => decide_eq_true ?_
      rintro rfl
      exact hno l ⟨hk, m, hm⟩ ha
    rw [take_nonBlank h (Nat.le_of_eq (by rw [hall, hk])), hall, ← hk, take_length, hk]
    exact ⟨hk, m, hm⟩

theorem exists_full {l} (hl : FirstDistinct c k l) (h : blank ∉ l) :
    ∃ n, k ≤ (nonBlank blank c n).length := by
  obtain ⟨rfl, n, rfl⟩ := hl
  refine ⟨n, ?_⟩
  have hall : nonBlank blank c n = distinct c n := by
    refine filter_eq_self.2 fun a ha => decide_eq_true ?_
    rintro rfl
    exact h ha
  exact Nat.le_of_eq (congrArg length hall).symm

end GoI2pBt
