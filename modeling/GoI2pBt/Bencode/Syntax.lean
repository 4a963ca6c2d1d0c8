/-
  The grammar of bencoded texts; every text has one tree.
-/
import GoI2pBt.Lib.Strconv

namespace GoI2pBt.Bencode

open List

structure Entry (α : Type) where
  len : Bytes
  key : Bytes
  val : α

/-- The tree of a text, with the texts of its numbers and lengths. -/
inductive Tree where
  | int (digits : Bytes)
  | str (len content : Bytes)
  | list (items : List Tree)
  | dict (entries : List (Entry Tree))

namespace Tree

variable {len c : Bytes} {es : List (Entry Tree)}

mutual

def bytes : Tree → Bytes
  | .int ds => ch 'i' :: (ds ++ [ch 'e'])
  | .str len c => len ++ ch ':' :: c
  | .list ts => ch 'l' :: (itemsBytes ts ++ [ch 'e'])
  | .dict es => ch 'd' :: (entriesBytes es ++ [ch 'e'])

def itemsBytes : List Tree → Bytes
  | [] => []
  | t :: ts => t.bytes ++ itemsBytes ts

def entriesBytes : List (Entry Tree) → Bytes
  | [] => []
  | ⟨len, key, t⟩ :: es => len ++ ch ':' :: (key ++ (t.bytes ++ entriesBytes es))

end

def StrOk (len c : Bytes) : Prop := parseInt 32 len = some (c.length : ℤ)

def digitFirst : Bytes → Bool
  | [] => false
  | b :: _ => IsDigit b

mutual

def WF : Tree → Prop
  | .int ds => ch 'e' ∉ ds
  | .str len c => StrOk len c
  | .list ts => WFItems ts
  | .dict es => WFEntries es

def WFItems : List Tree → Prop
  | [] => True
  | t :: ts => t.WF ∧ WFItems ts

def WFEntries : List (Entry Tree) → Prop
  | [] => True
  | ⟨len, key, t⟩ :: es => StrOk len key ∧ t.WF ∧ WFEntries es

end

mutual

def scannable : Tree → Bool
  | .int _ => true
  | .str len _ => digitFirst len
  | .list ts => scannableItems ts
  | .dict es => scannableEntries es

def scannableItems : List Tree → Bool
  | [] => true
  | t :: ts => t.scannable && scannableItems ts

def scannableEntries : List (Entry Tree) → Bool
  | [] => true
  | ⟨_, _, t⟩ :: es => t.scannable && scannableEntries es

end

/-! ## Lengths of strings -/

theorem StrOk.signed_digits (h : StrOk len c) :
    (signed len).2 ≠ [] ∧ ∀ b ∈ (signed len).2, IsDigit b := by
  by_contra hn
  simp [StrOk, parseInt, hn] at h

theorem StrOk.length_lt (h : StrOk len c) : c.length < 2 ^ 31 := by
  have hlt := (parseInt_range h).2
  omega

theorem StrOk.mem (h : StrOk len c) {b} (hb : b ∈ len) : b = ch '+' ∨ b = ch '-' ∨ IsDigit b := by
  obtain ⟨-, hd⟩ := h.signed_digits
  cases len with
  | nil => simp at hb
  | cons x len =>
    simp only [signed] at hd
    rcases mem_cons.1 hb with rfl | hb
    · by_cases h1 : b = ch '+'
      · exact .inl h1
      · by_cases h2 : b = ch '-'
        · exact .inr (.inl h2)
        · simp only [h1, h2, if_false] at hd; exact .inr (.inr (hd b (by simp)))
    · refine .inr (.inr ?_)
      split_ifs at hd
      · exact hd b hb
      · exact hd b hb
      · exact hd b (by simp [hb])

theorem StrOk.colon_notMem (h : StrOk len c) : ch ':' ∉ len := by
  intro hb
  rcases h.mem hb with h | h | h <;> exact absurd h (by decide)

theorem StrOk.ne_nil (h : StrOk len c) : len ≠ [] := by
  rintro rfl; exact h.signed_digits.1 rfl

theorem StrOk.head (h : StrOk len c) : ∃ b l, len = b :: l ∧ b ≠ ch 'e' := by
  cases len with
  | nil => exact absurd rfl h.ne_nil
  | cons b l =>
    refine ⟨b, l, rfl, ?_⟩
    rintro rfl
    rcases h.mem (b := ch 'e') (by simp) with h | h | h <;> exact absurd h (by decide)

theorem strOk_formatUint {c} (h : c.length < 2 ^ 31) : StrOk (formatUint c.length) c :=
  parseInt_formatUint h

theorem digitFirst_formatUint (n : ℕ) : digitFirst (formatUint n) := by
  obtain ⟨b, l, h, hb⟩ := formatUint_head n
  simpa [h, digitFirst] using hb

/-! ## Texts -/

theorem wfItems_iff {ts} : WFItems ts ↔ ∀ t ∈ ts, t.WF := by
  induction ts with
  | nil => simp [WFItems]
  | cons t ts ih => simp [WFItems, ih]

theorem wfEntries_iff : WFEntries es ↔ ∀ e ∈ es, StrOk e.len e.key ∧ e.val.WF := by
  induction es with
  | nil => simp [WFEntries]
  | cons e es ih => simp [WFEntries, ih, and_assoc]

theorem itemsBytes_cons_end (t : Tree) (ts : List Tree) (s : Bytes) :
    itemsBytes (t :: ts) ++ s = t.bytes ++ (itemsBytes ts ++ s) := by
  simp [itemsBytes]

theorem entriesBytes_cons_end (len key : Bytes) (t : Tree) (es : List (Entry Tree)) (s : Bytes) :
    entriesBytes (⟨len, key, t⟩ :: es) ++ s =
      (len ++ ch ':' :: key) ++ (t.bytes ++ (entriesBytes es ++ s)) := by
  simp [entriesBytes]

theorem length_mem_items {ts t} (h : t ∈ ts) : t.bytes.length ≤ (itemsBytes ts).length := by
  induction ts with
  | nil => simp at h
  | cons u ts ih =>
    simp only [itemsBytes, length_append]
    rcases mem_cons.1 h with rfl | h
    · omega
    · have := ih h; omega

theorem length_mem_entries {e} (h : e ∈ es) : e.val.bytes.length ≤ (entriesBytes es).length := by
  induction es with
  | nil => simp at h
  | cons f es ih =>
    simp only [entriesBytes, length_append, length_cons]
    rcases mem_cons.1 h with rfl | h
    · omega
    · have := ih h; omega

theorem WF.head {t : Tree} (h : t.WF) : ∃ b r, t.bytes = b :: r ∧ b ≠ ch 'e' := by
  cases t with
  | int | list | dict => exact ⟨_, _, rfl, by decide⟩
  | str len c =>
    obtain ⟨b, l, rfl, hb⟩ := StrOk.head h
    exact ⟨b, _, rfl, hb⟩

theorem WF.bytes_pos {t : Tree} (h : t.WF) : 0 < t.bytes.length := by
  obtain ⟨b, r, hb, -⟩ := h.head; simp [hb]

theorem StrOk.head_digit (h : StrOk len c) :
    ∃ b l, len = b :: l ∧ b ≠ ch 'i' ∧ b ≠ ch 'l' ∧ b ≠ ch 'd' := by
  cases len with
  | nil => exact absurd rfl h.ne_nil
  | cons b l =>
    refine ⟨b, l, rfl, ?_, ?_, ?_⟩ <;>
    · rintro rfl
      rcases h.mem mem_cons_self with h | h | h <;> exact absurd h (by decide)

/-! ## A text has one tree -/

theorem StrOk.inj {len c len' c' s s' : Bytes} (h : StrOk len c) (h' : StrOk len' c')
    (e : len ++ ch ':' :: (c ++ s) = len' ++ ch ':' :: (c' ++ s')) :
    len = len' ∧ c = c' ∧ s = s' := by
  obtain ⟨rfl, e1⟩ := append_delim_inj h.colon_notMem h'.colon_notMem e
  have hl : c.length = c'.length := by
    have := h.symm.trans h'; simpa using this
  obtain ⟨rfl, rfl⟩ := append_inj e1 hl
  exact ⟨rfl, rfl, rfl⟩

mutual

theorem bytes_inj : ∀ {t u : Tree} {s s' : Bytes}, t.WF → u.WF →
    t.bytes ++ s = u.bytes ++ s' → t = u ∧ s = s'
  | .int ds, u, _, _, ht, hu, e => by
    cases u with
    | int ds' =>
      simp only [bytes, cons_append, append_assoc, cons.injEq, true_and, nil_append] at e
      obtain ⟨rfl, rfl⟩ := append_delim_inj ht hu e
      exact ⟨rfl, rfl⟩
    | str len c =>
      obtain ⟨b, l, rfl, hb, -⟩ := StrOk.head_digit hu
      simp [bytes, Ne.symm hb] at e
    | list | dict => exact absurd (cons.inj e).1 (by decide)
  | .str len c, u, _, _, ht, hu, e => by
    cases u with
    | str len' c' =>
      simp only [bytes, cons_append, append_assoc] at e
      obtain ⟨rfl, rfl, rfl⟩ := StrOk.inj ht hu e
      exact ⟨rfl, rfl⟩
    | int ds => obtain ⟨b, l, rfl, hb, -⟩ := StrOk.head_digit ht; simp [bytes, hb] at e
    | list us => obtain ⟨b, l, rfl, -, hb, -⟩ := StrOk.head_digit ht; simp [bytes, hb] at e
    | dict us => obtain ⟨b, l, rfl, -, -, hb⟩ := StrOk.head_digit ht; simp [bytes, hb] at e
  | .list ts, u, _, _, ht, hu, e => by
    cases u with
    | list us =>
      simp only [bytes, cons_append, append_assoc, cons.injEq, true_and, nil_append] at e
      obtain ⟨rfl, rfl⟩ := itemsBytes_inj ht hu e
      exact ⟨rfl, rfl⟩
    | str len c =>
      obtain ⟨b, l, rfl, -, hb, -⟩ := StrOk.head_digit hu
      simp [bytes, Ne.symm hb] at e
    | int | dict => exact absurd (cons.inj e).1 (by decide)
  | .dict es, u, _, _, ht, hu, e => by
    cases u with
    | dict fs =>
      simp only [bytes, cons_append, append_assoc, cons.injEq, true_and, nil_append] at e
      obtain ⟨rfl, rfl⟩ := entriesBytes_inj ht hu e
      exact ⟨rfl, rfl⟩
    | str len c =>
      obtain ⟨b, l, rfl, -, -, hb⟩ := StrOk.head_digit hu
      simp [bytes, Ne.symm hb] at e
    | int | list => exact absurd (cons.inj e).1 (by decide)

theorem itemsBytes_inj : ∀ {ts us : List Tree} {s s' : Bytes}, WFItems ts → WFItems us →
    itemsBytes ts ++ ch 'e' :: s = itemsBytes us ++ ch 'e' :: s' → ts = us ∧ s = s'
  | [], us, _, _, _, hu, e => by
    cases us with
    | nil => simpa [itemsBytes] using e
    | cons u us =>
      obtain ⟨b, r, hb, hne⟩ := hu.1.head
      simp [itemsBytes, hb, Ne.symm hne] at e
  | t :: ts, us, _, _, ht, hu, e => by
    cases us with
    | nil =>
      obtain ⟨b, r, hb, hne⟩ := ht.1.head
      simp [itemsBytes, hb, hne] at e
    | cons u us =>
      simp only [itemsBytes, append_assoc] at e
      obtain ⟨rfl, e1⟩ := bytes_inj ht.1 hu.1 e
      obtain ⟨rfl, rfl⟩ := itemsBytes_inj ht.2 hu.2 e1
      exact ⟨rfl, rfl⟩

theorem entriesBytes_inj : ∀ {es fs : List (Entry Tree)} {s s' : Bytes},
    WFEntries es → WFEntries fs →
    entriesBytes es ++ ch 'e' :: s = entriesBytes fs ++ ch 'e' :: s' → es = fs ∧ s = s'
  | [], fs, _, _, _, hf, e => by
    cases fs with
    | nil => simpa [entriesBytes] using e
    | cons f fs =>
      obtain ⟨b, r, hb, hne⟩ := StrOk.head hf.1
      simp [entriesBytes, hb, Ne.symm hne] at e
  | ⟨len, _, t⟩ :: es, fs, _, _, he, hf, e => by
    cases fs with
    | nil =>
      obtain ⟨b, r, rfl, hne⟩ := StrOk.head he.1
      simp [entriesBytes, hne] at e
    | cons f fs =>
      obtain ⟨len', key', u⟩ := f
      simp only [entriesBytes, append_assoc, cons_append] at e
      obtain ⟨rfl, rfl, e1⟩ := StrOk.inj he.1 hf.1 e
      obtain ⟨rfl, e2⟩ := bytes_inj he.2.1 hf.2.1 e1
      obtain ⟨rfl, rfl⟩ := entriesBytes_inj he.2.2 hf.2.2 e2
      exact ⟨rfl, rfl⟩

end

end Tree

end GoI2pBt.Bencode
