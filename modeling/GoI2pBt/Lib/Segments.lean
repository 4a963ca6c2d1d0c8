/-
  A text cut into pieces.
-/
import Mathlib

namespace GoI2pBt

open List

variable {α : Type} {l a b p q : List α} {off k m : ℕ}

def splice (l : List α) (off : ℕ) (p : List α) : List α :=
  l.take off ++ p ++ l.drop (off + p.length)

def slice (l : List α) (off k : ℕ) : List α := (l.drop off).take k

theorem length_splice (h : off + p.length ≤ l.length) : (splice l off p).length = l.length := by
  simp only [splice, length_append, length_take, length_drop]
  omega

theorem length_slice (h : off + k ≤ l.length) : (slice l off k).length = k := by
  simp only [slice, length_take, length_drop]
  omega

@[simp] theorem splice_nil : splice l off [] = l := by simp [splice]

@[simp] theorem slice_zero : slice l off 0 = [] := by simp [slice]

theorem splice_append_left (h : off + p.length ≤ a.length) :
    splice (a ++ b) off p = splice a off p ++ b := by
  simp only [splice, append_assoc]
  rw [take_append_of_le_length (by omega), drop_append_of_le_length (by omega)]

theorem splice_append_right : splice (a ++ b) (a.length + off) p = a ++ splice b off p := by
  simp only [splice, append_assoc]
  rw [take_length_add_append, add_assoc, drop_length_add_append, append_assoc]

theorem slice_append_left (h : off + k ≤ a.length) : slice (a ++ b) off k = slice a off k := by
  simp only [slice]
  rw [drop_append_of_le_length (by omega), take_append_of_le_length]
  simp only [length_drop]
  omega

theorem slice_append_right : slice (a ++ b) (a.length + off) k = slice b off k := by
  simp only [slice, drop_length_add_append]

theorem splice_splice (h : off ≤ l.length) :
    splice (splice l off p) (off + p.length) q = splice l off (p ++ q) := by
  have hlen : (l.take off ++ p).length = off + p.length := by
    simp only [length_append, length_take]; omega
  rw [splice, splice, splice, take_left' hlen, ← hlen, drop_length_add_append, hlen,
    drop_drop, length_append]
  simp only [append_assoc, add_assoc]

theorem slice_add : slice l off (k + m) = slice l off k ++ slice l (off + k) m := by
  simp only [slice, take_add, drop_drop]

theorem slice_self (h : p.length = k) : slice p 0 k = p := by
  subst h; simp [slice]

/-! ## Segments -/

section

variable {pre post : List (List α)} {c : List α}

theorem splice_flatten (h : off + p.length ≤ c.length) :
    splice (pre ++ c :: post).flatten (pre.flatten.length + off) p =
      (pre ++ splice c off p :: post).flatten := by
  simp only [flatten_append, flatten_cons]
  rw [splice_append_right, splice_append_left h]

theorem slice_flatten (h : off + k ≤ c.length) :
    slice (pre ++ c :: post).flatten (pre.flatten.length + off) k = slice c off k := by
  simp only [flatten_append, flatten_cons]
  rw [slice_append_right, slice_append_left h]

theorem slice_segment : slice (pre ++ c :: post).flatten pre.flatten.length c.length = c := by
  rw [← add_zero pre.flatten.length, slice_flatten (by omega), slice_self rfl]

end

end GoI2pBt
