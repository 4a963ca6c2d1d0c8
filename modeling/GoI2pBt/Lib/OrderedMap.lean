/-
  A map with the order of its keys, and sorting without stability.
-/
import Mathlib

namespace GoI2pBt
open List Option Finmap

variable {K V : Type} [DecidableEq K]

structure Placed (pos : V → ℤ) (m : Finmap fun _ : K => V) (order : List K) : Prop where
  nodup : order.Nodup
  mem : ∀ k, k ∈ order ↔ k ∈ m
  pos : ∀ {k v}, m.lookup k = some v → pos v = order.idxOf k

def place (setPos : ℤ → V → V) (m : Finmap fun _ : K => V) (k : K) (i : ℤ) :
    Finmap fun _ : K => V :=
  match m.lookup k with
  | some v => m.insert k (setPos i v)
  | none => m

def renumberFrom (setPos : ℤ → V → V) : (Finmap fun _ : K => V) → ℤ → List K → Finmap fun _ : K => V
  | m, _, [] => m
  | m, i, k :: order => renumberFrom setPos (place setPos m k i) (i + 1) order

def renumber (setPos : ℤ → V → V) (m : Finmap fun _ : K => V) (order : List K) :
    Finmap fun _ : K => V :=
  renumberFrom setPos m 0 order

variable {setPos : ℤ → V → V} {pos : V → ℤ} {m : Finmap fun _ : K => V} {order : List K} {k : K}

theorem lookup_place (k' : K) (i : ℤ) :
    (place setPos m k' i).lookup k = if k = k' then (m.lookup k).map (setPos i) else m.lookup k := by
  unfold place
  by_cases h : k = k'
  · subst h
    cases hl : m.lookup k with
    | none => simp [hl]
    | some v => simp
  · cases hl : m.lookup k' with
    | none => simp [h]
    | some v => simp [lookup_insert_of_ne _ h, h]

theorem lookup_renumberFrom_of_notMem (i : ℤ) (h : k ∉ order) :
    (renumberFrom setPos m i order).lookup k = m.lookup k := by
  induction order generalizing m i with
  | nil => rfl
  | cons k' order ih =>
    rw [mem_cons, not_or] at h
    rw [renumberFrom, ih (i + 1) h.2, lookup_place, if_neg h.1]

theorem lookup_renumberFrom (i : ℤ) (hn : order.Nodup) (h : k ∈ order) :
    (renumberFrom setPos m i order).lookup k = (m.lookup k).map (setPos (i + order.idxOf k)) := by
  induction order generalizing m i with
  | nil => cases h
  | cons k' order ih =>
    obtain ⟨hk', hn⟩ := nodup_cons.1 hn
    rw [renumberFrom]
    by_cases hk : k = k'
    · subst hk
      rw [lookup_renumberFrom_of_notMem _ hk', lookup_place, if_pos rfl, idxOf_cons_self]
      simp
    · have hmem : k ∈ order := (mem_cons.1 h).resolve_left hk
      rw [ih (i + 1) hn hmem, lookup_place, if_neg hk, idxOf_cons_ne _ (Ne.symm hk)]
      push_cast
      rw [add_assoc, add_comm 1 (order.idxOf k : ℤ)]

theorem lookup_isSome_renumberFrom (i : ℤ) :
    ((renumberFrom setPos m i order).lookup k).isSome = (m.lookup k).isSome := by
  induction order generalizing m i with
  | nil => rfl
  | cons k' order ih =>
    rw [renumberFrom, ih, lookup_place]
    split_ifs
    · exact isSome_map
    · rfl

theorem keys_insert (m : Finmap fun _ : K => V) (k : K) (v : V) :
    (m.insert k v).keys = insert k m.keys := by
  ext k'
  rw [Finmap.mem_keys, Finmap.mem_insert, Finset.mem_insert, Finmap.mem_keys]

@[simp] theorem mem_renumber : k ∈ renumber setPos m order ↔ k ∈ m := by
  rw [← lookup_isSome, ← lookup_isSome, renumber, lookup_isSome_renumberFrom]

theorem lookup_renumber (hn : order.Nodup) (h : k ∈ order) :
    (renumber setPos m order).lookup k = (m.lookup k).map (setPos (order.idxOf k)) := by
  rw [renumber, lookup_renumberFrom 0 hn h, zero_add]

theorem placed_renumber (hpos : ∀ i v, pos (setPos i v) = i) (hn : order.Nodup)
    (hm : ∀ k, k ∈ order ↔ k ∈ m) : Placed pos (renumber setPos m order) order where
  nodup := hn
  mem k := by rw [hm, mem_renumber]
  pos {k v} h := by
    have hk : k ∈ order := (hm k).2 (mem_renumber.1 (lookup_isSome.1 (by rw [h]; rfl)))
    rw [lookup_renumber hn hk, map_eq_some_iff] at h
    obtain ⟨w, -, rfl⟩ := h
    exact hpos _ w

/-! ## Sorting -/

structure SortSlice where
  slice : {α : Type} → (α → α → Bool) → List α → List α
  perm : ∀ {α : Type} (less : α → α → Bool) (l : List α), (slice less l).Perm l
  sorted : ∀ {α : Type} {less : α → α → Bool}, (∀ a b, less a b → ¬ less b a) →
    (∀ a b c, ¬ less b a → ¬ less c b → ¬ less c a) →
    ∀ l : List α, (slice less l).Pairwise fun a b => ¬ less b a

def SortSlice.insertion : SortSlice where
  slice less l := l.insertionSort fun a b => ¬ less b a
  perm less l := perm_insertionSort _ l
  sorted {α less} hasymm htrans l := by
    have : Std.Total fun a b : α => ¬ less b a :=
      ⟨fun a b => by
        by_cases h : less b a
        · exact .inr (hasymm b a h)
        · exact .inl h⟩
    have : IsTrans α fun a b : α => ¬ less b a := ⟨fun a b c => htrans a b c⟩
    exact pairwise_insertionSort _ l

end GoI2pBt
