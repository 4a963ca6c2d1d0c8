/-
  Readers that are limited to a length.
-/
import GoI2pBt.Lib.Scan

namespace GoI2pBt

open List

inductive StreamErr where
  | eof
  | unexpectedEof
deriving DecidableEq, Repr

structure Limited where
  r : Bytes
  n : ℕ
deriving DecidableEq, Repr

namespace Limited

variable {ε : Type}

def visible (s : Limited) : Bytes := s.r.take s.n

def skip (s : Limited) (k : ℕ) : Limited := ⟨s.r.drop k, s.n - k⟩

def readFull (wrap : StreamErr → ε) (k : ℕ) : EStateM ε Limited Bytes := fun s =>
  if k ≤ s.visible.length then .ok (s.visible.take k) (s.skip k)
  else
    .error (wrap (if s.visible = [] then .eof else .unexpectedEof)) (s.skip s.visible.length)

def readAll : EStateM ε Limited Bytes := fun s => .ok s.visible (s.skip s.visible.length)

def readUint (wrap : StreamErr → ε) (w : ℕ) : EStateM ε Limited ℕ := do
  return beNat (← readFull wrap w)

/-! ## Reading a known text -/

variable {wrap : StreamErr → ε}

theorem visible_append (p q : Bytes) (n : ℕ) : visible ⟨p ++ q, p.length + n⟩ = p ++ q.take n := by
  simp [visible, take_append]

theorem readFull_append {p k} (hk : p.length = k) (q : Bytes) (n : ℕ) :
    readFull wrap k ⟨p ++ q, k + n⟩ = .ok p ⟨q, n⟩ := by
  subst hk
  rw [readFull, visible_append, if_pos (by simp)]
  simp [skip]

theorem readAll_append (p q : Bytes) :
    (readAll : EStateM ε Limited Bytes) ⟨p ++ q, p.length⟩ = .ok p ⟨q, 0⟩ := by
  have h := visible_append p q 0
  rw [add_zero, take_zero, append_nil] at h
  simp [readAll, h, skip]

theorem readUint_beBytes_mod (w v : ℕ) (q : Bytes) (n : ℕ) :
    readUint wrap w ⟨beBytes w v ++ q, w + n⟩ = .ok (v % 256 ^ w) ⟨q, n⟩ := by
  rw [readUint, bind_of_ok (readFull_append (length_beBytes w v) q n), pure_apply, beNat_beBytes]

theorem readUint_beBytes {w v} (hv : v < 256 ^ w) (q : Bytes) (n : ℕ) :
    readUint wrap w ⟨beBytes w v ++ q, w + n⟩ = .ok v ⟨q, n⟩ := by
  rw [readUint_beBytes_mod, Nat.mod_eq_of_lt hv]

/-! ## Reading an unknown text -/

def reading : Reading Limited where
  rel s p s' := s.r = p ++ s'.r ∧ s.n = p.length + s'.n
  refl s := by simp
  trans := by
    rintro s s₁ s₂ p q ⟨h₁, h₂⟩ ⟨h₃, h₄⟩
    refine ⟨?_, ?_⟩
    · rw [h₁, h₃, append_assoc]
    · rw [h₂, h₄, length_append]; omega

theorem length_visible_le (s : Limited) :
    s.visible.length ≤ s.n ∧ s.visible.length ≤ s.r.length := by
  simp only [visible, length_take]; omega

theorem rel_skip (s : Limited) {k} (h : k ≤ s.visible.length) :
    reading.rel s (s.visible.take k) (s.skip k) := by
  obtain ⟨hn, hr⟩ := s.length_visible_le
  have htake : s.visible.take k = s.r.take k := by
    rw [visible, take_take, min_eq_left (by omega)]
  refine ⟨?_, ?_⟩
  · rw [htake]; exact (take_append_drop k s.r).symm
  · simp only [skip, length_take]; omega

theorem accepts_readFull (k : ℕ) :
    Accepts reading (readFull wrap k) fun b p => b = p ∧ p.length = k where
  ok {s _ _} h := by
    rw [readFull] at h
    split at h
    · rename_i hk
      cases h
      exact ⟨_, s.rel_skip hk, rfl, by simp [length_take, hk]⟩
    · cases h
  error _ := trivial

theorem rel_readFull_error {k s s' err}
    (h : readFull wrap k s = .error err s') : reading.rel s s.visible s' := by
  have hall := s.rel_skip (k := s.visible.length) le_rfl
  rw [take_length] at hall
  rw [readFull] at h
  split at h
  · cases h
  · cases h
    exact hall

theorem accepts_readAll :
    Accepts reading (readAll : EStateM ε Limited Bytes) fun b p => b = p where
  ok {s _ _} h := by
    cases h
    have hall := s.rel_skip (k := s.visible.length) le_rfl
    rw [take_length] at hall
    exact ⟨_, hall, rfl⟩
  error _ := trivial

theorem accepts_readUint (w : ℕ) :
    Accepts reading (readUint wrap w) fun v p => v = beNat p ∧ p.length = w :=
  (accepts_readFull w).bind fun b p ⟨hb, hp⟩ => by
    refine accepts_pure ?_
    rw [append_nil, hb]
    exact ⟨rfl, hp⟩

end Limited

end GoI2pBt
