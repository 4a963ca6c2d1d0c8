/-
  Keeping the best of a sequence in a sorted slice.
-/
import Mathlib.Data.List.Sort
import Mathlib.Data.List.TakeWhile
import Mathlib.Order.Lattice

namespace GoI2pBt

open List

/-! ## Slices -/

section Slices

variable {α : Type}

def copyAt (l : List α) (i : ℕ) (src : List α) : List α :=
  l.take i ++ src.take (l.length - i) ++ l.drop (i + src.length)

theorem set_copyAt (l : List α) {i} (h : i < l.length) (x : α) :
    (copyAt l (i + 1) (l.drop i)).set i x = (l.take i ++ x :: l.drop i).take l.length := by
  have hlen : (l.drop i).length = l.length - i := length_drop
  have hi : (l.take i).length = i := by rw [length_take]; omega
  have htake : l.take (i + 1) = l.take i ++ [l.get ⟨i, h⟩] := by
    rw [take_add_one, getElem?_eq_getElem h]
    rfl
  have hrest : l.drop (i + 1 + (l.drop i).length) = [] := drop_eq_nil_of_le (by omega)
  have hsucc : l.length = i + ((l.length - (i + 1)) + 1) := by omega
  calc (copyAt l (i + 1) (l.drop i)).set i x
      = (l.take i ++ (l.get ⟨i, h⟩ :: (l.drop i).take (l.length - (i + 1)))).set i x := by
        rw [copyAt, hrest, append_nil, htake, append_assoc, singleton_append]
    _ = l.take i ++ x :: (l.drop i).take (l.length - (i + 1)) := by
        rw [set_append_right _ _ hi.le, hi, Nat.sub_self, set_cons_zero]
    _ = (l.take i ++ x :: l.drop i).take (i + ((l.length - (i + 1)) + 1)) := by
        rw [take_append, hi, Nat.add_sub_cancel_left, take_succ_cons,
          take_of_length_le (hi.le.trans (Nat.le_add_right _ _))]
    _ = (l.take i ++ x :: l.drop i).take l.length := by rw [← hsucc]

end Slices

/-! ## Binary search -/

def searchLoop (f : ℕ → Bool) : ℕ → ℕ → ℕ → ℕ
  | 0, i, _ => i
  | fuel + 1, i, j =>
    if i < j then
      let h := (i + j) / 2
      if f h then searchLoop f fuel i h else searchLoop f fuel (h + 1) j
    else i

def search (n : ℕ) (f : ℕ → Bool) : ℕ := searchLoop f n 0 n

theorem searchLoop_eq {f m} : ∀ {fuel i j : ℕ}, j ≤ i + fuel → i ≤ m → m ≤ j →
    (∀ h < m, f h = false) → (∀ h, m ≤ h → h < j → f h = true) → searchLoop f fuel i j = m
  | 0, _, _, _, _, _, _, _ => by
    rw [searchLoop]
    omega
  | fuel + 1, i, j, _, him, hmj, hlo, hhi => by
    rw [searchLoop]
    by_cases hij : i < j
    swap
    · rw [if_neg hij]
      omega
    rw [if_pos hij]
    by_cases hf : f ((i + j) / 2) = true
    · rw [if_pos hf]
      have hm : m ≤ (i + j) / 2 := by
        by_contra hlt
        rw [hlo _ (by omega)] at hf
        cases hf
      exact searchLoop_eq (by omega) him hm hlo fun h hmh hh => hhi h hmh (by omega)
    · rw [if_neg hf]
      have hm : (i + j) / 2 < m := by
        by_contra hge
        exact hf (hhi _ (by omega) (by omega))
      exact searchLoop_eq (by omega) (by omega) hmj hlo hhi

theorem search_eq {f m n} (hm : m ≤ n) (hlo : ∀ h < m, f h = false)
    (hhi : ∀ h, m ≤ h → h < n → f h = true) : search n f = m :=
  searchLoop_eq (by omega) (Nat.zero_le m) hm hlo hhi

/-! ## Keeping the best -/

section Top

variable {α β : Type} [LinearOrder β] (key : α → β)

abbrev SortedBy (l : List α) : Prop := l.Pairwise fun a b => key a ≤ key b

def rank (l : List α) (x : α) : ℕ := (l.takeWhile fun y => key y ≤ key x).length

def insertLast (l : List α) (x : α) : List α := l.take (rank key l x) ++ x :: l.drop (rank key l x)

structure IsTop (k : ℕ) (xs l : List α) : Prop where
  sorted : SortedBy key l
  length : l.length = min k xs.length
  best : ∃ rest, xs.Perm (l ++ rest) ∧ ∀ a ∈ l, ∀ b ∈ rest, key a ≤ key b

variable {key} {l : List α} {x : α}

theorem rank_le (l : List α) (x : α) : rank key l x ≤ l.length := by
  rw [rank]
  exact (takeWhile_sublist _).length_le

theorem take_rank (l : List α) (x : α) :
    l.take (rank key l x) = l.takeWhile fun y => key y ≤ key x :=
  prefix_iff_eq_take.1 ( takeWhile_prefix _) |>.symm

theorem le_of_mem_take_rank {y} (h : y ∈ l.take (rank key l x)) : key y ≤ key x := by
  rw [take_rank] at h
  have hy := mem_takeWhile_imp h
  exact of_decide_eq_true hy

theorem lt_of_mem_drop_rank (hs : SortedBy key l) {y} (h : y ∈ l.drop (rank key l x)) :
    key x < key y := by
  induction l with
  | nil => simp at h
  | cons a l ih =>
    rw [rank, takeWhile_cons] at h
    split_ifs at h with ha
    · exact ih hs.of_cons h
    · have hax : key x < key a := lt_of_not_ge fun hle => ha (decide_eq_true hle)
      rcases mem_cons.1 h with rfl | hy
      · exact hax
      · exact hax.trans_le (rel_of_pairwise_cons hs hy)

theorem insertLast_perm (l : List α) (x : α) : (insertLast key l x).Perm (x :: l) := by
  have hmid : (l.take (rank key l x) ++ x :: l.drop (rank key l x)).Perm
      (x :: (l.take (rank key l x) ++ l.drop (rank key l x))) := perm_middle
  rwa [take_append_drop] at hmid

theorem sorted_insertLast (hs : SortedBy key l) : SortedBy key (insertLast key l x) := by
  rw [insertLast, SortedBy, pairwise_append]
  have hdrop : ∀ y ∈ l.drop (rank key l x), key x ≤ key y :=
    fun y hy => (lt_of_mem_drop_rank hs hy).le
  refine ⟨hs.sublist (take_sublist _ _),
    pairwise_cons.2 ⟨hdrop, hs.sublist (drop_sublist _ _)⟩, fun a ha b hb => ?_⟩
  have hax := le_of_mem_take_rank ha
  rcases mem_cons.1 hb with rfl | hb
  · exact hax
  · exact hax.trans (hdrop b hb)

theorem length_insertLast (l : List α) (x : α) : (insertLast key l x).length = l.length + 1 :=
  (insertLast_perm l x).length_eq

theorem IsTop.nil (k : ℕ) : IsTop key k [] [] := ⟨Pairwise.nil, by simp, [], .refl _, by simp⟩

theorem IsTop.perm {k xs ys} (h : IsTop key k xs l) (hp : xs.Perm ys) : IsTop key k ys l := by
  obtain ⟨hs, hlen, rest, hperm, hbest⟩ := h
  exact ⟨hs, by rw [hlen, hp.length_eq], rest, hp.symm.trans hperm, hbest⟩

theorem le_of_mem_take_drop {l} (hs : SortedBy key l) {k a b}
    (ha : a ∈ l.take k) (hb : b ∈ l.drop k) : key a ≤ key b := by
  rw [← take_append_drop k l, SortedBy, pairwise_append] at hs
  exact hs.2.2 a ha b hb

theorem IsTop.insert {k xs} (h : IsTop key k xs l) (x : α) :
    IsTop key k (x :: xs) ((insertLast key l x).take k) := by
  obtain ⟨hs, hlen, rest, hperm, hbest⟩ := h
  have hsort : SortedBy key (insertLast key l x) := sorted_insertLast hs
  have hins : (insertLast key l x).length = l.length + 1 := length_insertLast l x
  refine ⟨hsort.sublist (take_sublist _ _), ?_, (insertLast key l x).drop k ++ rest, ?_, ?_⟩
  · rw [length_take, hins, hlen, length_cons]
    omega
  · rw [← append_assoc, take_append_drop]
    exact (hperm.cons x).trans ((insertLast_perm l x).symm.append_right rest)
  · intro a ha b hb
    rcases mem_append.1 hb with hb | hb
    · exact le_of_mem_take_drop hsort ha hb
    have hfull : l.length = k := by
      have hrest : 0 < rest.length := length_pos_of_mem hb
      have hsum := hperm.length_eq
      rw [length_append] at hsum
      omega
    have hrank : rank key l x ≤ l.length := rank_le l x
    rcases hrank.eq_or_lt with hr | hr
    · -- the new element is cut off
      rw [insertLast, hr, take_length, ← hfull, take_left] at ha
      exact hbest a ha b hb
    · -- the last element of `l` is cut off
      obtain ⟨z, hz⟩ : ∃ z, z ∈ (l.drop (rank key l x)).drop (k - rank key l x - 1) := by
        refine exists_mem_of_length_pos ?_
        rw [length_drop, length_drop]
        omega
      have hcut : z ∈ (insertLast key l x).drop k := by
        have hk : k = (l.take (rank key l x)).length + ((k - rank key l x - 1) + 1) := by
          rw [length_take]
          omega
        rw [insertLast, hk, drop_length_add_append, drop_succ_cons]
        exact hz
      have hzl : z ∈ l := mem_of_mem_drop (mem_of_mem_drop hz)
      exact (le_of_mem_take_drop hsort ha hcut).trans (hbest z hzl b hb)

theorem isTop_foldl {push k}
    (hpush : ∀ l x, SortedBy key l → l.length ≤ k → push l x = (insertLast key l x).take k)
    (xs : List α) {seen l} (h : IsTop key k seen l) :
    IsTop key k (xs.reverse ++ seen) (xs.foldl push l) := by
  induction xs generalizing seen l with
  | nil => exact h
  | cons x xs ih =>
    have hle : l.length ≤ k := h.length.trans_le (min_le_left _ _)
    rw [foldl_cons, reverse_cons, append_assoc]
    refine ih ?_
    rw [hpush l x h.sorted hle]
    exact h.insert x

end Top

end GoI2pBt
