/-
  Threads that take atomic steps on a shared state.
-/
import Mathlib.Logic.Relation

namespace GoI2pBt

inductive Prog (A : Type) (R : A → Type) (α : Type) where
  | ret (x : α)
  | act (a : A) (k : R a → Prog A R α)

namespace Prog

variable {A : Type} {R : A → Type} {α β : Type}

protected def bind : Prog A R α → (α → Prog A R β) → Prog A R β
  | .ret x, f => f x
  | .act a k, f => .act a fun r => (k r).bind f

instance : Monad (Prog A R) where
  pure := .ret
  bind := Prog.bind

@[simp] theorem pure_eq (x : α) : (pure x : Prog A R α) = .ret x := rfl

@[simp] theorem ret_bind (x : α) (f : α → Prog A R β) : (ret x >>= f) = f x := rfl

@[simp] theorem act_bind (a : A) (k : R a → Prog A R α) (f : α → Prog A R β) :
    (act a k >>= f) = act a fun r => k r >>= f := rfl

end Prog

/-! ## One program -/

structure Shared (A : Type) (R : A → Type) (σ : Type) where
  step : σ → (a : A) → R a → σ → Prop
  idle : σ → σ → Prop

namespace Shared

variable {A : Type} {R : A → Type} {α σ τ : Type} (M : Shared A R σ)

def Next (s s' : σ) : Prop := (∃ a r, M.step s a r s') ∨ M.idle s s'

def Avoids (bad : A → Prop) : Prog A R α → σ → Prop
  | .ret _, _ => True
  | .act a k, s => ¬ bad a ∧ ∀ r s', M.step s a r s' → Avoids bad (k r) s'

def Always (I : σ → Prop) (ok : σ → A → Prop) : Prog A R α → σ → Prop
  | .ret _, _ => True
  | .act a k, s => ∀ s₁, Relation.ReflTransGen M.Next s s₁ → I s₁ →
      ok s₁ a ∧ ∀ r s₂, M.step s₁ a r s₂ → Always I ok (k r) s₂

variable {M} {I : σ → Prop} {ok : σ → A → Prop} {s s' : σ}

theorem Always.later {p : Prog A R α} (h : M.Always I ok p s)
    (hs : Relation.ReflTransGen M.Next s s') : M.Always I ok p s' := by
  cases p with
  | ret x => trivial
  | act a k => exact fun s1 h1 hI => h s1 (hs.trans h1) hI

theorem later_keeps {P : σ → Prop} (hP : ∀ {s s'}, M.Next s s' → P s → P s')
    (h : Relation.ReflTransGen M.Next s s') (hs : P s) : P s' := by
  induction h with
  | refl => exact hs
  | tail _ hn ih => exact hP hn ih

/-! ## Pools -/

inductive Reach (M : Shared A R σ) (spawn : σ → τ → Prop) (start : τ → Prog A R Unit) (s₀ : σ) :
    σ → List (τ × Prog A R Unit) → Prop
  | init : Reach M spawn start s₀ s₀ []
  | spawn {s ts t} : Reach M spawn start s₀ s ts → spawn s t →
    Reach M spawn start s₀ s ((t, start t) :: ts)
  | act {s s' ts ts' t a k r} : Reach M spawn start s₀ s (ts ++ (t, .act a k) :: ts') →
    M.step s a r s' → Reach M spawn start s₀ s' (ts ++ (t, k r) :: ts')
  | idle {s s' ts} : Reach M spawn start s₀ s ts → M.idle s s' → Reach M spawn start s₀ s' ts

variable {spawn : σ → τ → Prop} {start : τ → Prog A R Unit} {s₀ : σ}
  {ts : List (τ × Prog A R Unit)}

theorem Reach.always {okFor : τ → σ → A → Prop} (h : M.Reach spawn start s₀ s ts) (hinit : I s₀)
    (hstart : ∀ {s t}, spawn s t → M.Always I (okFor t) (start t) s)
    (hact : ∀ {t s a r s'}, I s → okFor t s a → M.step s a r s' → I s')
    (hidle : ∀ {s s'}, I s → M.idle s s' → I s') :
    I s ∧ ∀ p ∈ ts, M.Always I (okFor p.1) p.2 s := by
  induction h with
  | init => exact ⟨hinit, fun p hp => nomatch hp⟩
  | spawn _ hsp ih =>
    refine ⟨ih.1, fun p hp => ?_⟩
    rcases List.mem_cons.1 hp with rfl | hp
    · exact hstart hsp
    · exact ih.2 p hp
  | @act s s' ts ts' t a k r _ hs ih =>
    obtain ⟨hok, hnext⟩ := ih.2 (t, .act a k) (by simp) s .refl ih.1
    refine ⟨hact ih.1 hok hs, fun p hp => ?_⟩
    -- the thread that made the step, or one of the others
    rcases List.mem_append.1 hp with hp | hp
    · exact (ih.2 p (by simp [hp])).later (.single (.inl ⟨a, r, hs⟩))
    · rcases List.mem_cons.1 hp with rfl | hp
      · exact hnext r s' hs
      · exact (ih.2 p (by simp [hp])).later (.single (.inl ⟨a, r, hs⟩))
  | idle _ hs ih => exact ⟨hidle ih.1 hs, fun p hp => (ih.2 p hp).later (.single (.inr hs))⟩

theorem Always.head {a : A} {k : R a → Prog A R α} (h : M.Always I ok (.act a k) s) (hI : I s) :
    ok s a := (h s .refl hI).1

end Shared

end GoI2pBt
