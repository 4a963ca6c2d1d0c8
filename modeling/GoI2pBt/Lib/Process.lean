/-
  Two processes that are joined by pipes.
-/
import GoI2pBt.Lib.Bytes

namespace GoI2pBt

open List

inductive Proc (ρ : Type) where
  | done (r : ρ)
  | write (b : Bytes) (next : Proc ρ)
  | read (n : ℕ) (next : Bytes → Proc ρ)

namespace Proc

variable {ρ : Type} {p q r : Proc ρ} {b inp inp' out out' : Bytes} {n : ℕ}

inductive Does : Proc ρ → Bytes → Bytes → Proc ρ → Prop
  | writePart {c d : Bytes} {next : Proc ρ} (hc : c ≠ []) :
      Does (write (c ++ d) next) [] c (write d next)
  | writeAll {c : Bytes} {next : Proc ρ} : Does (write c next) [] c next
  | readPart {n : ℕ} {c : Bytes} {next : Bytes → Proc ρ} (hc : c ≠ []) (hn : c.length < n) :
      Does (read n next) c [] (read (n - c.length) fun b => next (c ++ b))
  | readAll {n : ℕ} {c : Bytes} {next : Bytes → Proc ρ} (hn : c.length = n) :
      Does (read n next) c [] (next c)

inductive After (p : Proc ρ) : Bytes → Bytes → Proc ρ → Prop
  | refl : After p [] [] p
  | step {inp out inp' out' : Bytes} {q r : Proc ρ} (h : After p inp out q)
      (hd : Does q inp' out' r) : After p (inp ++ inp') (out ++ out') r

def Writes (q : Proc ρ) : Prop := ∃ b next, q = write b next

/-! ## Histories of the three kinds of processes -/

theorem after_done {r} (h : After (done r) inp out q) : inp = [] ∧ out = [] ∧ q = done r := by
  induction h with
  | refl => exact ⟨rfl, rfl, rfl⟩
  | step _ hd ih =>
    obtain ⟨-, -, rfl⟩ := ih
    cases hd

theorem after_write {next} (h : After (write b next) inp out q) :
    (inp = [] ∧ out <+: b ∧ Writes q) ∨ ∃ out', out = b ++ out' ∧ After next inp out' q := by
  -- what is left to write is known while the write is going on
  have hinv : (inp = [] ∧ ∃ d, b = out ++ d ∧ q = write d next) ∨
      ∃ out', out = b ++ out' ∧ After next inp out' q := by
    induction h with
    | refl => exact .inl ⟨rfl, b, rfl, rfl⟩
    | step _ hd ih =>
      rcases ih with ⟨rfl, d, hb, rfl⟩ | ⟨out', rfl, h⟩
      · cases hd with
        | @writePart c d _ hc => exact .inl ⟨rfl, d, by rw [hb, append_assoc], rfl⟩
        | writeAll => exact .inr ⟨[], by rw [hb, append_nil], .refl⟩
      · exact .inr ⟨_, append_assoc .., h.step hd⟩
  rcases hinv with ⟨hinp, d, hb, rfl⟩ | h
  · exact .inl ⟨hinp, ⟨d, hb.symm⟩, d, next, rfl⟩
  · exact .inr h

def writes (bs : List Bytes) (next : Proc ρ) : Proc ρ := bs.foldr write next

theorem after_writes {bs next} (h : After (writes bs next) inp out q) :
    (inp = [] ∧ out <+: bs.flatten ∧ Writes q) ∨
      ∃ out', out = bs.flatten ++ out' ∧ After next inp out' q := by
  induction bs generalizing out with
  | nil => exact .inr ⟨out, rfl, h⟩
  | cons b bs ih =>
    rcases after_write h with ⟨hinp, hout, hw⟩ | ⟨out1, rfl, hnext⟩
    · exact .inl ⟨hinp, hout.trans (prefix_append b bs.flatten), hw⟩
    · rcases ih hnext with ⟨hinp, hout, hw⟩ | ⟨out', rfl, hlast⟩
      · exact .inl ⟨hinp, (prefix_append_right_inj b).2 hout, hw⟩
      · exact .inr ⟨out', by rw [flatten_cons, append_assoc], hlast⟩

theorem after_read (hn : 0 < n) {next} (h : After (read n next) inp out q) :
    (inp.length < n ∧ out = [] ∧ ∃ m next', 0 < m ∧ q = read m next') ∨
      ∃ c inp', c.length = n ∧ inp = c ++ inp' ∧ After (next c) inp' out q := by
  have hinv : (inp.length < n ∧ out = [] ∧ q = read (n - inp.length) fun b => next (inp ++ b)) ∨
      ∃ c inp', c.length = n ∧ inp = c ++ inp' ∧ After (next c) inp' out q := by
    induction h with
    | refl => exact .inl ⟨hn, rfl, rfl⟩
    | @step inp out inp' out' q r _ hd ih =>
      rcases ih with ⟨hlt, rfl, rfl⟩ | ⟨c, inp1, hc, rfl, h⟩
      · cases hd with
        | readPart hc hlen =>
          refine .inl ⟨by rw [length_append]; omega, rfl, ?_⟩
          rw [length_append, Nat.sub_sub]
          simp only [append_assoc]
        | readAll hlen =>
          exact .inr ⟨inp ++ inp', [], by rw [length_append]; omega, (append_nil _).symm, .refl⟩
      · exact .inr ⟨c, inp1 ++ inp', hc, append_assoc .., h.step hd⟩
  rcases hinv with ⟨hlt, hout, hq⟩ | h
  · exact .inl ⟨hlt, hout, _, _, Nat.sub_pos_of_lt hlt, hq⟩
  · exact .inr h

/-! ## Runs end -/

def Next (q p : Proc ρ) : Prop := ∃ inp out, Does p inp out q

theorem acc_write {next : Proc ρ} (h : Acc Next next) (b : Bytes) : Acc Next (write b next) := by
  induction hb : b.length using Nat.strong_induction_on generalizing b with
  | _ k ih =>
    refine .intro _ ?_
    rintro q ⟨inp, out, hd⟩
    cases hd with
    | @writePart _ d _ hc =>
      refine ih d.length ?_ d rfl
      rw [← hb, length_append]
      have := length_pos_of_ne_nil hc
      omega
    | writeAll => exact h

theorem acc_read {next : Bytes → Proc ρ} (h : ∀ c, Acc Next (next c)) (n : ℕ) :
    Acc Next (read n next) := by
  induction n using Nat.strong_induction_on generalizing next with
  | _ n ih =>
    refine .intro _ ?_
    rintro q ⟨inp, out, hd⟩
    cases hd with
    | readPart hc hlen =>
      have := length_pos_of_ne_nil hc
      exact ih _ (by omega) fun c => h _
    | readAll => exact h _

theorem acc_next (p : Proc ρ) : Acc Next p := by
  induction p with
  | done r =>
    refine .intro _ ?_
    rintro q ⟨inp, out, hd⟩
    cases hd
  | write b next ih => exact acc_write ih b
  | read n next ih => exact acc_read ih n

end Proc

/-! ## Two processes -/

structure Pair (ρ σ : Type) where
  left : Proc ρ
  right : Proc σ
  toRight : Bytes
  toLeft : Bytes

namespace Pair

variable {ρ σ : Type} {p : Proc ρ} {q : Proc σ} {c c' : Pair ρ σ}

inductive Step : Pair ρ σ → Pair ρ σ → Prop
  | left {p p' : Proc ρ} {q : Proc σ} {inp out toRight toLeft : Bytes} (h : p.Does inp out p') :
      Step ⟨p, q, toRight, inp ++ toLeft⟩ ⟨p', q, toRight ++ out, toLeft⟩
  | right {p : Proc ρ} {q q' : Proc σ} {inp out toRight toLeft : Bytes} (h : q.Does inp out q') :
      Step ⟨p, q, inp ++ toRight, toLeft⟩ ⟨p, q', toRight, toLeft ++ out⟩

def start (p : Proc ρ) (q : Proc σ) : Pair ρ σ := ⟨p, q, [], []⟩

abbrev Reaches : Pair ρ σ → Pair ρ σ → Prop := Relation.ReflTransGen Step

structure History (p : Proc ρ) (q : Proc σ) (c : Pair ρ σ) (inpL outL inpR outR : Bytes) :
    Prop where
  left : p.After inpL outL c.left
  right : q.After inpR outR c.right
  toRight : outL = inpR ++ c.toRight
  toLeft : outR = inpL ++ c.toLeft

theorem Reaches.history (h : Reaches (start p q) c) :
    ∃ inpL outL inpR outR, History p q c inpL outL inpR outR := by
  induction h with
  | refl => exact ⟨[], [], [], [], .refl, .refl, rfl, rfl⟩
  | tail _ hstep ih =>
    obtain ⟨inpL, outL, inpR, outR, hl, hr, htoRight, htoLeft⟩ := ih
    cases hstep with
    | @left _ _ _ inp out _ _ hd =>
      refine ⟨inpL ++ inp, outL ++ out, inpR, outR, hl.step hd, hr, ?_, ?_⟩
      · rw [htoRight, append_assoc]
      · rw [htoLeft, append_assoc]
    | @right _ _ _ inp out _ _ hd =>
      refine ⟨inpL, outL, inpR ++ inp, outR ++ out, hl, hr.step hd, ?_, ?_⟩
      · rw [htoRight, append_assoc]
      · rw [htoLeft, append_assoc]

theorem acc_step (c : Pair ρ σ) : Acc (fun c' c => Step c c') c := by
  obtain ⟨p, q, toRight, toLeft⟩ := c
  induction Proc.acc_next p generalizing q toRight toLeft with
  | intro p _ ihp =>
    induction Proc.acc_next q generalizing toRight toLeft with
    | intro q _ ihq =>
      refine .intro _ ?_
      rintro c' hstep
      cases hstep with
      | left hd => exact ihp _ ⟨_, _, hd⟩ q _ _
      | right hd => exact ihq _ ⟨_, _, hd⟩ _ _

theorem exists_reaches_end (c : Pair ρ σ) : ∃ c', Reaches c c' ∧ ¬ ∃ c'', Step c' c'' := by
  induction acc_step c with
  | intro c _ ih =>
    by_cases h : ∃ c', Step c c'
    · obtain ⟨c1, hstep⟩ := h
      obtain ⟨c', hreach, hend⟩ := ih c1 hstep
      exact ⟨c', .head hstep hreach, hend⟩
    · exact ⟨c, .refl, h⟩

theorem exists_does_read {n : ℕ} (hn : 0 < n) (next : Bytes → Proc ρ) {b : Bytes} (hb : b ≠ []) :
    ∃ inp rest r, b = inp ++ rest ∧ Proc.Does (.read n next) inp [] r := by
  obtain ⟨x, rest, rfl⟩ := exists_cons_of_ne_nil hb
  rcases lt_or_ge 1 n with h | h
  · exact ⟨[x], rest, _, rfl, .readPart (cons_ne_nil _ _) h⟩
  · exact ⟨[x], rest, _, rfl, .readAll (by rw [length_singleton]; omega)⟩

theorem exists_step_of_writes (h : c.left.Writes ∨ c.right.Writes) : ∃ c', Step c c' := by
  obtain ⟨p, q, toRight, toLeft⟩ := c
  rcases h with ⟨b, next, hw⟩ | ⟨b, next, hw⟩
  · dsimp only at hw
    subst hw
    exact ⟨_, @Step.left _ _ _ _ _ [] _ _ _ .writeAll⟩
  · dsimp only at hw
    subst hw
    exact ⟨_, @Step.right _ _ _ _ _ [] _ _ _ .writeAll⟩

theorem exists_step_left {n next} (hn : 0 < n) (h : c.left = .read n next)
    (hb : c.toLeft ≠ []) : ∃ c', Step c c' := by
  obtain ⟨p, q, toRight, toLeft⟩ := c
  obtain ⟨inp, rest, r, hin, hd⟩ := exists_does_read hn next hb
  dsimp only at h hin
  subst h hin
  exact ⟨_, Step.left hd⟩

theorem exists_step_right {n next} (hn : 0 < n) (h : c.right = .read n next)
    (hb : c.toRight ≠ []) : ∃ c', Step c c' := by
  obtain ⟨p, q, toRight, toLeft⟩ := c
  obtain ⟨inp, rest, r, hin, hd⟩ := exists_does_read hn next hb
  dsimp only at h hin
  subst h hin
  exact ⟨_, Step.right hd⟩

end Pair

end GoI2pBt
