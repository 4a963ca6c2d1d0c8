/-
  Readers of texts: what is read, what is accepted, how they fail.
-/
import GoI2pBt.Lib.Bytes

namespace GoI2pBt

variable {ε σ α β : Type}

/-! ## The monads -/

@[simp] theorem except_ok_bind (a : α) (f : α → Except ε β) : (Except.ok a >>= f) = f a := rfl

@[simp] theorem except_error_bind (e : ε) (f : α → Except ε β) :
    (Except.error e >>= f) = .error e := rfl

@[simp] theorem except_map_ok (f : α → β) (a : α) :
    (Except.ok a : Except ε α).map f = .ok (f a) := rfl

@[simp] theorem except_map_error (f : α → β) (e : ε) :
    (Except.error e : Except ε α).map f = .error e := rfl

@[simp] theorem except_pure (a : α) : (pure a : Except ε α) = .ok a := rfl

@[simp] theorem except_throw (e : ε) : (throw e : Except ε α) = .error e := rfl

theorem except_eq_ok {x : Except ε α} {a : α} (h : x.toOption = some a) : x = .ok a := by
  cases x with
  | error e => cases h
  | ok b => cases h; rfl

theorem except_bind_eq_ok {x : Except ε α} {f : α → Except ε β} {b : β} :
    (x >>= f) = .ok b ↔ ∃ a, x = .ok a ∧ f a = .ok b := by
  cases x with
  | error e => simp
  | ok a => simp

theorem except_map_eq_ok {x : Except ε α} {f : α → β} {b : β} :
    x.map f = .ok b ↔ ∃ a, x = .ok a ∧ f a = b := by
  cases x with
  | error e => simp
  | ok a => simp

theorem bind_of_ok {x : EStateM ε σ α} {f : α → EStateM ε σ β} {s s' : σ} {a : α}
    (h : x s = .ok a s') : (x >>= f) s = f a s' := by
  simp only [bind, EStateM.bind, h]

theorem bind_of_error {x : EStateM ε σ α} {f : α → EStateM ε σ β} {s s' : σ} {e : ε}
    (h : x s = .error e s') : (x >>= f) s = .error e s' := by
  simp only [bind, EStateM.bind, h]

theorem bind_eq_ok {x : EStateM ε σ α} {f : α → EStateM ε σ β} {s s' : σ} {b : β} :
    (x >>= f) s = .ok b s' ↔ ∃ a s1, x s = .ok a s1 ∧ f a s1 = .ok b s' := by
  constructor
  · intro h
    cases hx : x s with
    | ok a s1 => exact ⟨a, s1, rfl, by rwa [bind_of_ok hx] at h⟩
    | error e s1 => rw [bind_of_error hx] at h; cases h
  · rintro ⟨a, s1, hx, hf⟩; rw [bind_of_ok hx, hf]

theorem bind_congr_apply {x y : EStateM ε σ α} {f : α → EStateM ε σ β} {s : σ} (h : x s = y s) :
    (x >>= f) s = (y >>= f) s := by
  change EStateM.bind x f s = EStateM.bind y f s
  rw [EStateM.bind, EStateM.bind, h]

@[simp] theorem pure_apply (a : α) (s : σ) : (pure a : EStateM ε σ α) s = .ok a s := rfl

@[simp] theorem throw_apply (e : ε) (s : σ) : (throw e : EStateM ε σ α) s = .error e s := rfl

@[simp] theorem get_apply (s : σ) : (get : EStateM ε σ σ) s = .ok s s := rfl

@[simp] theorem get_bind (f : σ → EStateM ε σ β) (s : σ) : (get >>= f) s = f s s := rfl

/-! ## Reading a text -/

/-- What a run that reads a text does to the state, and what a failed run may have done. -/
structure Reading (σ : Type) where
  rel : σ → Bytes → σ → Prop
  refl : ∀ s, rel s [] s
  trans : ∀ {s s₁ s₂ p q}, rel s p s₁ → rel s₁ q s₂ → rel s (p ++ q) s₂
  lost : σ → σ → Prop := fun _ _ => True
  lost_refl : ∀ s, lost s s := by intros; trivial
  lost_trans : ∀ {s s₁ s₂ p}, rel s p s₁ → lost s₁ s₂ → lost s s₂ := by intros; trivial

def Meets (R : Reading σ) (x : EStateM ε σ α) (s : σ) (p : Bytes) (spec : Except ε α) : Prop :=
  match spec with
  | .ok a => ∃ s', x s = .ok a s' ∧ R.rel s p s'
  | .error _ => ∃ e s', x s = .error e s'

variable {R : Reading σ} {x : EStateM ε σ α} {f : α → EStateM ε σ β} {s : σ} {p q : Bytes}

theorem Meets.congr {y spec} (h : x s = y s) (hy : Meets R y s p spec) : Meets R x s p spec := by
  unfold Meets at hy ⊢
  rwa [h]

theorem meets_pure (a : α) (s : σ) : Meets R (pure a : EStateM ε σ α) s [] (.ok a) :=
  ⟨s, rfl, R.refl s⟩

theorem meets_throw (e e' : ε) (s : σ) (p : Bytes) :
    Meets R (throw e : EStateM ε σ α) s p (.error e') := ⟨e, s, rfl⟩

theorem meets_of_eq {spec} (h : x s = match spec with | .ok a => .ok a s | .error e => .error e s) :
    Meets R x s [] spec := by
  cases spec with
  | ok a => exact ⟨s, h, R.refl s⟩
  | error e => exact ⟨e, s, h⟩

theorem Meets.bind {sx : Except ε α} {sf : α → Except ε β} (hx : Meets R x s p sx)
    (hf : ∀ a s', sx = .ok a → R.rel s p s' → Meets R (f a) s' q (sf a)) :
    Meets R (x >>= f) s (p ++ q) (sx >>= sf) := by
  cases sx with
  | error e =>
    obtain ⟨e', s', h⟩ := hx
    exact ⟨e', s', bind_of_error h⟩
  | ok a =>
    obtain ⟨s', h, hr⟩ := hx
    have hb := hf a s' rfl hr
    change Meets R _ s (p ++ q) (sf a)
    cases hs : sf a with
    | error e =>
      rw [hs] at hb; obtain ⟨e', s'', h'⟩ := hb
      exact ⟨e', s'', (bind_of_ok h).trans h'⟩
    | ok b =>
      rw [hs] at hb; obtain ⟨s'', h', hr'⟩ := hb
      exact ⟨s'', (bind_of_ok h).trans h', R.trans hr hr'⟩

theorem Meets.step {a spec} (hx : Meets R x s p (.ok a))
    (hf : ∀ s', R.rel s p s' → Meets R (f a) s' q spec) : Meets R (x >>= f) s (p ++ q) spec := by
  have : Meets R (x >>= f) s (p ++ q) (Except.ok a >>= fun _ => spec) :=
    hx.bind fun b s' h hr => by cases h; exact hf s' hr
  exact this

theorem Meets.guard {c : Bool} {a : α} {e : ε} {spec : Except ε β}
    (hx : Meets R x s p (if c then .ok a else .error e))
    (hf : ∀ s', R.rel s p s' → Meets R (f a) s' [] spec) :
    Meets R (x >>= f) s p (if c then spec else .error e) := by
  cases c with
  | false =>
    obtain ⟨e', s', h⟩ := hx
    exact ⟨e', s', bind_of_error h⟩
  | true =>
    have := Meets.step (q := []) hx hf
    rwa [List.append_nil] at this

theorem Meets.skip {a spec} (hx : x s = .ok a s)
    (hf : Meets R (f a) s q spec) : Meets R (x >>= f) s q spec := hf.congr (bind_of_ok hx)

theorem Meets.map {g : α → β} {sx : Except ε α} (hx : Meets R x s p sx) :
    Meets R (x >>= fun a => pure (g a)) s p (sx.map g) := by
  have : Meets R (x >>= fun a => pure (g a)) s (p ++ []) (sx >>= fun a => .ok (g a)) :=
    hx.bind fun a s' _ _ => meets_pure (g a) s'
  rw [List.append_nil] at this
  cases sx <;> exact this

/-! ## Reading an unknown text -/

/-- Every successful run has read a text of the grammar `G`, every other one is `lost`. -/
structure Accepts (R : Reading σ) (x : EStateM ε σ α) (G : α → Bytes → Prop) : Prop where
  ok : ∀ {s a s'}, x s = .ok a s' → ∃ p, R.rel s p s' ∧ G a p
  error : ∀ {s e s'}, x s = .error e s' → R.lost s s'

variable {G : α → Bytes → Prop} {K : β → Bytes → Prop}

theorem Accepts.mono {H} (hx : Accepts R x G) (h : ∀ a p, G a p → H a p) : Accepts R x H where
  ok e :=
    let ⟨p, hr, hg⟩ := hx.ok e
    ⟨p, hr, h _ p hg⟩
  error := hx.error

theorem accepts_pure {a} (h : G a []) : Accepts R (pure a : EStateM ε σ α) G where
  ok e := by cases e; exact ⟨[], R.refl _, h⟩
  error e := by cases e

theorem accepts_throw (e : ε) : Accepts R (throw e : EStateM ε σ α) G where
  ok h := by cases h
  error h := by cases h; exact R.lost_refl _

theorem accepts_ite {c : Prop} [Decidable c] {y} (hx : c → Accepts R x G)
    (hy : ¬ c → Accepts R y G) : Accepts R (if c then x else y) G := by
  split_ifs with h
  · exact hx h
  · exact hy h

theorem accepts_get {f : σ → EStateM ε σ β} (hf : ∀ s, Accepts R (f s) K) :
    Accepts R (get >>= f) K := ⟨fun e => (hf _).ok e, fun e => (hf _).error e⟩

theorem Accepts.bind (hx : Accepts R x G)
    (hf : ∀ a p, G a p → Accepts R (f a) fun b q => K b (p ++ q)) : Accepts R (x >>= f) K where
  ok h := by
    obtain ⟨a, s₁, h₁, h₂⟩ := bind_eq_ok.1 h
    obtain ⟨p, hp, hg⟩ := hx.ok h₁
    obtain ⟨q, hq, hk⟩ := (hf a p hg).ok h₂
    exact ⟨p ++ q, R.trans hp hq, hk⟩
  error {s _ _} h := by
    cases hs : x s with
    | ok a s₁ =>
      rw [bind_of_ok hs] at h
      obtain ⟨p, hp, hg⟩ := hx.ok hs
      exact R.lost_trans hp ((hf a p hg).error h)
    | error e s₁ =>
      rw [bind_of_error hs] at h
      cases h
      exact hx.error hs

/-! ## Which errors there can be -/

def Ends (E : ε → Prop) (x : EStateM ε σ α) (s : σ) (Q : α → σ → Prop) : Prop :=
  match x s with
  | .ok a s' => Q a s'
  | .error e _ => E e

section Ends

variable {E : ε → Prop} {Q Q' : α → σ → Prop} {P : β → σ → Prop}

theorem Ends.congr {y} (h : x s = y s) (hy : Ends E y s Q) : Ends E x s Q := by
  unfold Ends at hy ⊢
  rwa [h]

theorem Ends.mono (hx : Ends E x s Q) (h : ∀ a s', Q a s' → Q' a s') : Ends E x s Q' := by
  unfold Ends at hx ⊢
  cases hs : x s with
  | ok a s' =>
    rw [hs] at hx
    exact h a s' hx
  | error e s' =>
    rw [hs] at hx
    exact hx

theorem Ends.of_error {e s'} (hx : Ends E x s Q) (h : x s = .error e s') : E e := by
  unfold Ends at hx
  rwa [h] at hx

theorem ends_pure {a} (h : Q a s) : Ends E (pure a : EStateM ε σ α) s Q := h

theorem ends_throw {e} (h : E e) : Ends E (throw e : EStateM ε σ α) s Q := h

theorem ends_get {f} (h : Ends E (f s) s P) : Ends E (get >>= f) s P := h

theorem Ends.bind (hx : Ends E x s Q) (hf : ∀ a s', Q a s' → Ends E (f a) s' P) :
    Ends E (x >>= f) s P := by
  unfold Ends at hx ⊢
  cases hs : x s with
  | ok a s' =>
    rw [hs] at hx
    rw [bind_of_ok hs]
    exact hf a s' hx
  | error e s' =>
    rw [hs] at hx
    rw [bind_of_error hs]
    exact hx

end Ends

def stateAfter : EStateM.Result ε σ α → σ
  | .ok _ s => s
  | .error _ s => s

end GoI2pBt
