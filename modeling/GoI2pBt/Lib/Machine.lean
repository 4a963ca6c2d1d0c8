/-
  Machines with inputs and outputs, and invariants of their runs.
-/
import Mathlib.Tactic.Common

namespace GoI2pBt
open Option

variable {σ ι ο : Type} (step : σ → ι → Option (σ × ο))

def runSteps : σ → List ι → Option σ
  | s, [] => some s
  | s, i :: is => (step s i).bind fun r => runSteps r.1 is

def runOutputs : σ → List ι → Option (σ × List ο)
  | s, [] => some (s, [])
  | s, i :: is => (step s i).bind fun r => (runOutputs r.1 is).map fun q => (q.1, r.2 :: q.2)

/-- No step fails, and `P` holds of every state, `Q` of every output. -/
def Throughout (P : σ → Prop) (Q : σ → ο → Prop) : σ → List ι → Prop
  | s, [] => P s
  | s, i :: is => P s ∧ ∃ s' o, step s i = some (s', o) ∧ Q s o ∧ Throughout P Q s' is

/-- Every step meets the condition. -/
def Allowed (C : σ → ι → Prop) : σ → List ι → Prop
  | _, [] => True
  | s, i :: is => C s i ∧ ∀ s' o, step s i = some (s', o) → Allowed C s' is

variable {step} {P : σ → Prop} {Q : σ → ο → Prop} {C : σ → ι → Prop}

theorem throughout_of_allowed
    (hstep : ∀ {s i}, P s → C s i → ∃ s' o, step s i = some (s', o) ∧ Q s o ∧ P s')
    {s is} (hs : P s) (h : Allowed step C s is) : Throughout step P Q s is := by
  induction is generalizing s with
  | nil => exact hs
  | cons i is ih =>
    obtain ⟨hc, hrest⟩ := h
    obtain ⟨s', o, he, hq, hs'⟩ := hstep hs hc
    exact ⟨hs, s', o, he, hq, ih hs' (hrest s' o he)⟩

theorem runOutputs_cons {s s' i is os} (h : runOutputs step s (i :: is) = some (s', os)) :
    ∃ t o os', step s i = some (t, o) ∧ runOutputs step t is = some (s', os') ∧ os = o :: os' := by
  rw [runOutputs, bind_eq_some_iff] at h
  obtain ⟨⟨t, o⟩, hi, h⟩ := h
  rw [map_eq_some_iff] at h
  obtain ⟨⟨s'', os'⟩, his, he⟩ := h
  cases he
  exact ⟨t, o, os', hi, his, rfl⟩

theorem runOutputs_concat {s s' t is os i o}
    (h : runOutputs step s is = some (s', os)) (hi : step s' i = some (t, o)) :
    runOutputs step s (is ++ [i]) = some (t, os ++ [o]) := by
  induction is generalizing s os with
  | nil =>
    cases h
    simp [runOutputs, hi]
  | cons j is ih =>
    obtain ⟨s1, o1, os', hj, his, rfl⟩ := runOutputs_cons h
    rw [List.cons_append, runOutputs, hj, bind_some, ih his]
    rfl

theorem invariant_of_allowed (hstep : ∀ {s i s' o}, P s → C s i → step s i = some (s', o) → P s')
    {s s' is} (hs : P s) (h : Allowed step C s is) (hrun : runSteps step s is = some s') :
    P s' := by
  induction is generalizing s with
  | nil =>
    cases hrun
    exact hs
  | cons i is ih =>
    obtain ⟨hc, hrest⟩ := h
    rw [runSteps, bind_eq_some_iff] at hrun
    obtain ⟨⟨t, o⟩, hi, hrun⟩ := hrun
    exact ih (hstep hs hc hi) (hrest t o hi) hrun

theorem allowed_cons {s s' o i is} (hc : C s i) (hi : step s i = some (s', o))
    (h : Allowed step C s' is) : Allowed step C s (i :: is) := by
  refine ⟨hc, fun t u ht => ?_⟩
  cases hi.symm.trans ht
  exact h

theorem Throughout.head {s is} (h : Throughout step P Q s is) : P s := by
  cases is with
  | nil => exact h
  | cons i is => exact h.1

theorem Throughout.mono {P'} (hP : ∀ {s}, P s → P' s) {s is}
    (h : Throughout step P Q s is) : Throughout step P' Q s is := by
  induction is generalizing s with
  | nil => exact hP h
  | cons i is ih =>
    obtain ⟨hs, s', o, he, hq, hrest⟩ := h
    exact ⟨hP hs, s', o, he, hq, ih hrest⟩

theorem allowed_of_throughout
    (hstep : ∀ {s i s' o}, P s → step s i = some (s', o) → Q s o → P s' → C s i)
    {s is} (h : Throughout step P Q s is) : Allowed step C s is := by
  induction is generalizing s with
  | nil => trivial
  | cons i is ih =>
    obtain ⟨hs, s', o, he, hq, hrest⟩ := h
    refine ⟨hstep hs he hq hrest.head, fun t u ht => ?_⟩
    obtain ⟨rfl, rfl⟩ : s' = t ∧ o = u := by simpa [he] using ht
    exact ih hrest

end GoI2pBt
