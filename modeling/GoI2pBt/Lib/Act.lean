/-
  Computations on a state that may panic, with rules for their runs.
-/
import Mathlib.Logic.Relation
import Mathlib.Tactic.Common

namespace GoI2pBt
open List

abbrev Act (σ α : Type) : Type := OptionT (StateM σ) α

namespace Act

variable {σ α β : Type}

def exec (x : Act σ α) (s : σ) : Option α × σ := OptionT.run x s

def crash : Act σ α := fun s => (none, s)

def when (c : Prop) [Decidable c] (x : Act σ Unit) : Act σ Unit := if c then x else pure ()

def recover (x : Act σ Unit) : Act σ Unit := fun s => (some (), (x.exec s).2)

def each (f : α → Act σ Unit) : List α → Act σ Unit
  | [] => pure ()
  | a :: l => do
    f a
    each f l

/-! ## Equations -/

variable {s s' : σ} {x : Act σ α} {f : α → Act σ β} {a : α} {b : β}

@[simp] theorem exec_pure (a : α) (s : σ) : (pure a : Act σ α).exec s = (some a, s) := rfl

@[simp] theorem exec_crash (s : σ) : (crash : Act σ α).exec s = (none, s) := rfl

@[simp] theorem exec_get (s : σ) : (get : Act σ σ).exec s = (some s, s) := rfl

@[simp] theorem exec_modify (g : σ → σ) (s : σ) :
    (modify g : Act σ PUnit).exec s = (some ⟨⟩, g s) := rfl

@[simp] theorem exec_recover (x : Act σ Unit) (s : σ) :
    (recover x).exec s = (some (), (x.exec s).2) := rfl

theorem exec_bind (x : Act σ α) (f : α → Act σ β) (s : σ) :
    (x >>= f).exec s = (x.exec s).1.elim (none, (x.exec s).2) fun a => (f a).exec (x.exec s).2 := by
  change (match (x.exec s).1 with
    | some a => OptionT.run (f a)
    | none => pure none : StateM σ (Option β)) (x.exec s).2 = _
  cases (x.exec s).1 <;> rfl

theorem exec_bind_some (h : x.exec s = (some a, s')) : (x >>= f).exec s = (f a).exec s' := by
  rw [exec_bind, h]
  rfl

theorem exec_bind_none (h : x.exec s = (none, s')) : (x >>= f).exec s = (none, s') := by
  rw [exec_bind, h]
  rfl

@[simp] theorem exec_get_bind (f : σ → Act σ β) (s : σ) : (get >>= f).exec s = (f s).exec s := rfl

@[simp] theorem exec_modify_bind (g : σ → σ) (f : PUnit → Act σ β) (s : σ) :
    ((modify g : Act σ PUnit) >>= f).exec s = (f ⟨⟩).exec (g s) := rfl

@[simp] theorem exec_pure_bind (a : α) (f : α → Act σ β) (s : σ) :
    (pure a >>= f).exec s = (f a).exec s := rfl

@[simp] theorem exec_crash_bind (f : α → Act σ β) (s : σ) :
    ((crash : Act σ α) >>= f).exec s = (none, s) := rfl

theorem exec_of_fst (h : (x.exec s).1 = some a) : x.exec s = (some a, (x.exec s).2) :=
  Prod.ext h rfl

theorem exec_bind_congr_left {y : Act σ α} (h : x.exec s = y.exec s) :
    (x >>= f).exec s = (y >>= f).exec s := by
  rw [exec_bind, exec_bind, h]

theorem exec_bind_congr {g : α → Act σ β} (h : ∀ a s', (f a).exec s' = (g a).exec s') :
    (x >>= f).exec s = (x >>= g).exec s := by
  rw [exec_bind, exec_bind]
  congr 1
  funext a
  exact h a _

theorem exec_bind_cases {P : Option β × σ → Prop}
    (hnone : ∀ s', x.exec s = (none, s') → P (none, s'))
    (hsome : ∀ a s', x.exec s = (some a, s') → P ((f a).exec s')) : P ((x >>= f).exec s) := by
  rcases hx : x.exec s with ⟨_ | a, s'⟩
  · rw [exec_bind_none hx]
    exact hnone s' hx
  · rw [exec_bind_some hx]
    exact hsome a s' hx

theorem exec_bind_eq_some (h : (x >>= f).exec s = (some b, s')) :
    ∃ a s1, x.exec s = (some a, s1) ∧ (f a).exec s1 = (some b, s') := by
  rcases hx : x.exec s with ⟨_ | a, s1⟩
  · rw [exec_bind_none hx] at h
    cases h
  · rw [exec_bind_some hx] at h
    exact ⟨a, s1, rfl, h⟩

/-! ## What every run does -/

def Does (R : σ → σ → Prop) (x : Act σ α) (s : σ) : Prop := Relation.ReflTransGen R s (x.exec s).2

section Does

variable {R : σ → σ → Prop}

theorem does_pure (a : α) : Does R (pure a : Act σ α) s := .refl

theorem does_crash : Does R (crash : Act σ α) s := .refl

theorem does_modify {g : σ → σ} (h : R s (g s)) : Does R (modify g : Act σ PUnit) s := .single h

theorem does_get_bind {f : σ → Act σ β} (h : Does R (f s) s) : Does R (get >>= f) s := h

theorem does_bind (hx : Does R x s)
    (hf : ∀ a s', x.exec s = (some a, s') → Does R (f a) s') : Does R (x >>= f) s := by
  unfold Does at hx ⊢
  rcases hrun : x.exec s with ⟨_ | a, s'⟩
  · rw [exec_bind_none hrun]
    rwa [hrun] at hx
  · rw [exec_bind_some hrun]
    rw [hrun] at hx
    exact hx.trans (hf a s' hrun)

theorem does_when {c : Prop} [Decidable c] {x : Act σ Unit} (h : c → Does R x s) :
    Does R (when c x) s := by
  unfold when
  split_ifs with hc
  · exact h hc
  · exact does_pure ()

theorem does_each {f : α → Act σ Unit} {l : List α} (h : ∀ a ∈ l, ∀ s, Does R (f a) s) :
    Does R (each f l) s := by
  induction l generalizing s with
  | nil => exact does_pure ()
  | cons a l ih =>
    exact does_bind (h a mem_cons_self s) fun _ _ _ => ih fun b hb => h b (mem_cons_of_mem _ hb)

theorem Does.keeps {I : σ → Prop} (h : Does R x s) (hR : ∀ {s s'}, R s s' → I s → I s')
    (hs : I s) : I (x.exec s).2 := by
  unfold Does at h
  generalize (x.exec s).2 = s' at h
  induction h with
  | refl => exact hs
  | tail _ hstep ih => exact hR hstep ih

end Does

/-! ## Runs without a panic -/

def Runs (x : Act σ α) (s : σ) (Q : α → σ → Prop) : Prop := ∃ a s', x.exec s = (some a, s') ∧ Q a s'

section Runs

variable {Q Q' : α → σ → Prop} {P : β → σ → Prop}

theorem runs_pure (h : Q a s) : Runs (pure a) s Q := ⟨a, s, rfl, h⟩

theorem runs_modify {g : σ → σ} {Q : PUnit → σ → Prop} (h : Q ⟨⟩ (g s)) :
    Runs (modify g) s Q := ⟨⟨⟩, g s, rfl, h⟩

theorem Runs.mono (h : Runs x s Q) (hQ : ∀ a s', Q a s' → Q' a s') : Runs x s Q' := by
  obtain ⟨a, s', hx, ha⟩ := h
  exact ⟨a, s', hx, hQ a s' ha⟩

theorem runs_get_bind {f : σ → Act σ β} (h : Runs (f s) s P) : Runs (get >>= f) s P := h

theorem runs_bind_iff_of_exec (hx : x.exec s = (some a, s')) :
    Runs (x >>= f) s P ↔ Runs (f a) s' P := by
  rw [Runs, exec_bind_some hx, Runs]

theorem runs_bind_of_exec (hx : x.exec s = (some a, s')) (hf : Runs (f a) s' P) :
    Runs (x >>= f) s P := (runs_bind_iff_of_exec hx).mpr hf

theorem runs_bind (hx : Runs x s Q) (hf : ∀ a s', Q a s' → Runs (f a) s' P) :
    Runs (x >>= f) s P := by
  obtain ⟨a, s', hrun, ha⟩ := hx
  exact runs_bind_of_exec hrun (hf a s' ha)

theorem runs_when {c : Prop} [Decidable c] {x : Act σ Unit} {Q : Unit → σ → Prop}
    (h : c → Runs x s Q) (hn : ¬ c → Q () s) : Runs (when c x) s Q := by
  unfold when
  split_ifs with hc
  · exact h hc
  · exact runs_pure (hn hc)

theorem runs_each {I : σ → Prop} {f : α → Act σ Unit} {l : List α}
    (h : ∀ a ∈ l, ∀ s, I s → Runs (f a) s fun _ => I) (hs : I s) :
    Runs (each f l) s fun _ => I := by
  induction l generalizing s with
  | nil => exact runs_pure hs
  | cons a l ih =>
    exact runs_bind (h a mem_cons_self s hs) fun _ _ hs' =>
      ih (fun b hb => h b (mem_cons_of_mem _ hb)) hs'

theorem Runs.not_none (h : Runs x s Q) : (x.exec s).1 ≠ none := by
  obtain ⟨a, s', hx, -⟩ := h
  rw [hx]
  exact Option.some_ne_none a

end Runs

end Act

end GoI2pBt
