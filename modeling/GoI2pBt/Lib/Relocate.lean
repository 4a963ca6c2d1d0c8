/-
  Moving things one after the other, and moving them back.
-/
import Mathlib

namespace GoI2pBt

open List Function

variable {α β : Type} [DecidableEq α]

def move (m : α → Option β) (a b : α) : α → Option β :=
  if m a = none ∨ a = b then m else update (update m a none) b (m a)

def moveAll (m : α → Option β) (l : List (α × α)) : α → Option β :=
  l.foldl (fun m p => move m p.1 p.2) m

def undoAll (m : α → Option β) (l : List (α × α)) : α → Option β :=
  l.foldr (fun p m => move m p.2 p.1) m

def without (m : α → Option β) (q : α) : α → Option β := update m q none

variable {m : α → Option β} {a b q x : α} {c : β} {l : List (α × α)}

/-! ## One move -/

@[simp] theorem move_self : move m a a = m := if_pos (.inr rfl)

theorem move_of_none (h : m a = none) : move m a b = m := if_pos (.inl h)

theorem move_of_some (h : m a = some c) (hab : a ≠ b) :
    move m a b = update (update m a none) b (some c) := by
  rw [move, if_neg (by simp [h, hab]), h]

theorem move_target (h : m a = some c) : move m a b b = some c := by
  by_cases hab : a = b
  · subst hab
    rw [move_self, h]
  · rw [move_of_some h hab, update_self]

theorem move_source (hab : a ≠ b) : move m a b a = none := by
  cases h : m a with
  | none => rw [move_of_none h, h]
  | some c => rw [move_of_some h hab, update_of_ne hab, update_self]

theorem move_other (ha : x ≠ a) (hb : x ≠ b) : move m a b x = m x := by
  rw [move]
  split_ifs with h
  · rfl
  · rw [update_of_ne hb, update_of_ne ha]

@[simp] theorem without_self : without m q q = none := update_self ..

theorem without_of_ne (h : x ≠ q) : without m q x = m x := update_of_ne h ..

theorem move_back (hab : a = b ∨ m b = none) : move (move m a b) b a = m := by
  rcases eq_or_ne a b with rfl | hne
  · simp
  cases h : m a with
  | none => rw [move_of_none h, move_of_none (hab.resolve_left hne)]
  | some c =>
    rw [move_of_some (move_target h) hne.symm, move_of_some h hne, update_idem,
      update_comm hne.symm, update_idem, ← hab.resolve_left hne,
      update_comm hne, update_eq_self, ← h, update_eq_self]

theorem move_back_over (h : m a = some c) (hab : a ≠ b) : move (move m a b) b a = without m b := by
  rw [move_of_some (move_target h) hab.symm, move_of_some h hab, update_idem,
    update_comm hab.symm, update_idem, update_comm hab, ← h,
    update_comm hab.symm, update_eq_self, without]

theorem move_without (ha : q ≠ a) (hb : q ≠ b ∨ a = b) :
    move (without m q) a b = without (move m a b) q := by
  rcases eq_or_ne a b with rfl | hne
  · simp
  have hqb := hb.resolve_right hne
  cases h : m a with
  | none =>
    rw [move_of_none h, move_of_none]
    rw [without_of_ne ha.symm, h]
  | some c =>
    have hq : without m q a = some c := by rw [without_of_ne ha.symm, h]
    rw [move_of_some hq hne, move_of_some h hne, without, without, update_comm ha, update_comm hqb]

/-! ## Runs -/

@[simp] theorem moveAll_nil : moveAll m [] = m := rfl

@[simp] theorem moveAll_cons (p : α × α) : moveAll m (p :: l) = moveAll (move m p.1 p.2) l := rfl

theorem moveAll_append (l1 l2 : List (α × α)) :
    moveAll m (l1 ++ l2) = moveAll (moveAll m l1) l2 := foldl_append ..

@[simp] theorem undoAll_nil : undoAll m [] = m := rfl

@[simp] theorem undoAll_cons (p : α × α) : undoAll m (p :: l) = move (undoAll m l) p.2 p.1 := rfl

theorem undoAll_append (l1 l2 : List (α × α)) :
    undoAll m (l1 ++ l2) = undoAll (undoAll m l2) l1 := foldr_append ..

theorem moveAll_eq_none (h : m x = none) (hx : ∀ p ∈ l, x ≠ p.2) : moveAll m l x = none := by
  induction l generalizing m with
  | nil => exact h
  | cons p l ih =>
    rw [forall_mem_cons] at hx
    rw [moveAll_cons]
    refine ih ?_ hx.2
    rcases eq_or_ne x p.1 with rfl | hne
    · exact move_source hx.1
    · rw [move_other hne hx.1, h]

theorem moveAll_eq (hsource : ∀ p ∈ l, x ≠ p.1) (htarget : ∀ p ∈ l, x ≠ p.2) :
    moveAll m l x = m x := by
  induction l generalizing m with
  | nil => rfl
  | cons p l ih =>
    rw [forall_mem_cons] at hsource htarget
    rw [moveAll_cons, ih hsource.2 htarget.2, move_other hsource.1 htarget.1]

theorem eq_none_or_of_moveAll_eq_none (h : moveAll m l x = none) :
    m x = none ∨ ∃ p ∈ l, x = p.1 := by
  by_contra hcon
  push Not at hcon
  obtain ⟨hx, hsource⟩ := hcon
  have hsome : ∀ (l : List (α × α)) (m : α → Option β), (∀ p ∈ l, x ≠ p.1) → m x ≠ none →
      moveAll m l x ≠ none := by
    intro l
    induction l with
    | nil => exact fun m _ hx => hx
    | cons p l ih =>
      intro m hl hx
      rw [forall_mem_cons] at hl
      rw [moveAll_cons]
      refine ih _ hl.2 ?_
      rcases eq_or_ne x p.2 with rfl | hne
      · cases hp : m p.1 with
        | none => rwa [move_of_none hp]
        | some c => rw [move_target hp]; nofun
      · rwa [move_other hl.1 hne]
  exact hsome l m hsource hx h

def Found : (α → Option β) → List (α × α) → Prop
  | _, [] => True
  | m, p :: l => m p.1 ≠ none ∧ Found (move m p.1 p.2) l

def Tidy : (α → Option β) → List (α × α) → Prop
  | _, [] => True
  | m, p :: l => m p.1 ≠ none ∧ (p.1 = p.2 ∨ m p.2 = none) ∧ Tidy (move m p.1 p.2) l

theorem found_append {l1 l2} : Found m (l1 ++ l2) ↔ Found m l1 ∧ Found (moveAll m l1) l2 := by
  induction l1 generalizing m with
  | nil => exact ⟨fun h => ⟨trivial, h⟩, fun h => h.2⟩
  | cons p l1 ih => rw [cons_append, Found, Found, ih, and_assoc, moveAll_cons]

theorem tidy_append {l1 l2} : Tidy m (l1 ++ l2) ↔ Tidy m l1 ∧ Tidy (moveAll m l1) l2 := by
  induction l1 generalizing m with
  | nil => exact ⟨fun h => ⟨trivial, h⟩, fun h => h.2⟩
  | cons p l1 ih => rw [cons_append, Tidy, Tidy, ih, and_assoc, and_assoc, moveAll_cons]

theorem Tidy.found (h : Tidy m l) : Found m l := by
  induction l generalizing m with
  | nil => trivial
  | cons p l ih => exact ⟨h.1, ih h.2.2⟩

theorem Found.without (h : Found m l) (hq : ∀ p ∈ l, q ≠ p.1 ∧ q ≠ p.2) :
    Found (without m q) l := by
  induction l generalizing m with
  | nil => trivial
  | cons p l ih =>
    rw [forall_mem_cons] at hq
    refine ⟨?_, ?_⟩
    · rw [without_of_ne hq.1.1.symm]
      exact h.1
    · rw [move_without hq.1.1 (.inl hq.1.2)]
      exact ih h.2 hq.2

theorem Tidy.undoAll_moveAll (h : Tidy m l) : undoAll (moveAll m l) l = m := by
  induction l generalizing m with
  | nil => rfl
  | cons p l ih => rw [undoAll_cons, moveAll_cons, ih h.2.2, move_back h.2.1]

theorem Tidy.undoAll_without (h : Tidy m l) (hq : moveAll m l q ≠ none) :
    ∃ q', m q' ≠ none ∧ undoAll (without (moveAll m l) q) l = without m q' := by
  induction l generalizing m with
  | nil => exact ⟨q, hq, rfl⟩
  | cons p l ih =>
    obtain ⟨hsome, hfree, hrest⟩ := h
    obtain ⟨q', hq', hundo⟩ := ih hrest hq
    rw [moveAll_cons, undoAll_cons, hundo]
    by_cases hp : q' = p.2
    · -- the entry that this move brought
      subst hp
      refine ⟨p.1, hsome, ?_⟩
      rw [move_of_none without_self]
      rcases hfree with heq | hnone
      · rw [heq, move_self]
      · obtain ⟨c, hc⟩ := Option.ne_none_iff_exists'.1 hsome
        have hne : p.1 ≠ p.2 := fun heq => hsome (heq ▸ hnone)
        rw [move_of_some hc hne, without, update_idem, update_comm hne, ← hnone,
          update_eq_self, hnone, without]
    · refine ⟨q', ?_, ?_⟩
      · rcases eq_or_ne q' p.1 with rfl | hne
        · exact hsome
        · rwa [move_other hne hp] at hq'
      · have hne : q' ≠ p.1 ∨ p.2 = p.1 := by
          by_contra hcon
          push Not at hcon
          rw [hcon.1, move_source hcon.2.symm] at hq'
          exact hq' rfl
        rw [move_without hp hne, move_back hfree]

theorem Tidy.missing (h : Tidy m l) (hq : m q ≠ none) (hlast : moveAll m l x = none) (y : α) :
    ∃ l1 p l2, l ++ [(x, y)] = l1 ++ p :: l2 ∧ Tidy (without m q) l1 ∧
      moveAll (without m q) l1 p.1 = none := by
  induction l generalizing m q with
  | nil =>
    refine ⟨[], (x, y), [], rfl, trivial, ?_⟩
    rcases eq_or_ne x q with rfl | hne
    · exact without_self
    · exact (without_of_ne hne).trans hlast
  | cons p l ih =>
    obtain ⟨hsome, hfree, hrest⟩ := h
    by_cases hp : p.1 = q
    · exact ⟨[], p, l ++ [(x, y)], rfl, trivial, by rw [moveAll_nil, hp, without_self]⟩
    have hpq : q ≠ p.2 ∨ p.1 = p.2 := by
      rcases hfree with heq | hnone
      · exact .inr heq
      · exact .inl fun heq => hq (heq ▸ hnone)
    have hq' : move m p.1 p.2 q ≠ none := by
      rcases hpq with hne | heq
      · rwa [move_other (Ne.symm hp) hne]
      · rwa [heq, move_self]
    obtain ⟨l1, p', l2, hsplit, htidy, hmiss⟩ := ih hrest hq' hlast
    rw [← move_without (Ne.symm hp) hpq] at htidy hmiss
    refine ⟨p :: l1, p', l2, by rw [cons_append, hsplit, cons_append], ⟨?_, ?_, htidy⟩, hmiss⟩
    · rwa [without_of_ne hp]
    · refine hfree.imp_right fun hnone => ?_
      rcases eq_or_ne p.2 q with heq | hne
      · rw [heq, without_self]
      · rw [without_of_ne hne, hnone]

end GoI2pBt
