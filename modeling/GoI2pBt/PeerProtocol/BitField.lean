/-
  Bit fields.
-/
import GoI2pBt.PeerProtocol.Handshake

namespace GoI2pBt.PeerProtocol.BitField
open List

/-! ## The operations -/

def NewBitField (pieceNum : ℕ) (set : Bool) : Bytes :=
  replicate ((pieceNum + 7) / 8) (if set then 0xff else 0)

def mask (index : UInt32) : UInt8 := 1 <<< UInt8.ofNat (7 - index.toNat % 8)

def Set (bf : Bytes) (index : UInt32) : Bytes :=
  bf.modify (index.toNat / 8) fun b => b ||| mask index

def Unset (bf : Bytes) (index : UInt32) : Bytes :=
  bf.modify (index.toNat / 8) fun b => b &&& ~~~ mask index

def IsSet (bf : Bytes) (index : UInt32) : Bool :=
  match bf[index.toNat / 8]? with
  | some b => b &&& mask index ≠ 0
  | none => false

def Sets (bf : Bytes) : List UInt32 := ((range (bf.length * 8)).map UInt32.ofNat).filter (IsSet bf)

/-! ## Bits -/

variable {bf : Bytes} {i j : UInt32}

theorem mask_eq (index : UInt32) :
    mask index = ExtensionBits.mask ⟨7 - index.toNat % 8, by rw [ExtensionBitMax]; omega⟩ := by
  have hmod : (7 - index.toNat % 8) % 8 = 7 - index.toNat % 8 := Nat.mod_eq_of_lt (by omega)
  rw [mask, ExtensionBits.mask, hmod]

theorem toNat_mask (index : UInt32) : (mask index).toNat = 2 ^ (7 - index.toNat % 8) := by
  have hmod : (7 - index.toNat % 8) % 8 = 7 - index.toNat % 8 := Nat.mod_eq_of_lt (by omega)
  rw [mask_eq, ExtensionBits.toNat_mask, hmod]

theorem isSet_eq (bf : Bytes) (i : UInt32) :
    IsSet bf i = (bf[i.toNat / 8]?.getD 0).toNat.testBit (7 - i.toNat % 8) := by
  have hmod : (7 - i.toNat % 8) % 8 = 7 - i.toNat % 8 := Nat.mod_eq_of_lt (by omega)
  unfold IsSet
  cases bf[i.toNat / 8]? with
  | none => simp
  | some b =>
    rw [Bool.eq_iff_iff, decide_eq_true_iff, mask_eq, ExtensionBits.and_mask_ne_zero, hmod]
    rfl

theorem isSet_of_length_le (h : bf.length * 8 ≤ i.toNat) : IsSet bf i = false := by
  unfold IsSet
  rw [getElem?_eq_none (by omega)]

theorem eq_of_place (hdiv : i.toNat / 8 = j.toNat / 8)
    (hmod : 7 - i.toNat % 8 = 7 - j.toNat % 8) : i = j :=
  UInt32.toNat_inj.1 (by omega)

theorem isSet_modify (bf : Bytes) (k : ℕ) (f : UInt8 → UInt8) (j : UInt32) :
    IsSet (bf.modify k f) j = (bf[j.toNat / 8]?.elim false fun b =>
      (if k = j.toNat / 8 then f b else b).toNat.testBit (7 - j.toNat % 8)) := by
  rw [isSet_eq, getElem?_modify]
  cases bf[j.toNat / 8]? with
  | none => simp
  | some b => rfl

theorem isSet_elim (bf : Bytes) (j : UInt32) : IsSet bf j =
    bf[j.toNat / 8]?.elim false fun b => b.toNat.testBit (7 - j.toNat % 8) := by
  rw [isSet_eq]
  cases bf[j.toNat / 8]? with
  | none => simp
  | some b => rfl

theorem isSet_Set (bf : Bytes) (i j : UInt32) :
    IsSet (Set bf i) j = (IsSet bf j || decide (i = j ∧ i.toNat < bf.length * 8)) := by
  rw [Set, isSet_modify, isSet_elim]
  cases hb : bf[j.toNat / 8]? with
  | none =>
    have hlen : bf.length ≤ j.toNat / 8 := List.getElem?_eq_none_iff.1 hb
    rw [decide_eq_false fun h => by rw [h.1] at h; omega]
    rfl
  | some b =>
    have hlen : j.toNat / 8 < bf.length := (List.getElem?_eq_some_iff.1 hb).1
    simp only [Option.elim_some]
    split_ifs with hdiv
    · rw [UInt8.toNat_or, Nat.testBit_or, toNat_mask, Nat.testBit_two_pow]
      congr 1
      rw [decide_eq_decide]
      constructor
      · intro hmod
        exact ⟨eq_of_place hdiv hmod, by omega⟩
      · rintro ⟨rfl, -⟩
        rfl
    · rw [decide_eq_false fun h => hdiv (by rw [h.1]), Bool.or_false]

theorem isSet_Unset (bf : Bytes) (i j : UInt32) :
    IsSet (Unset bf i) j = (IsSet bf j && !decide (i = j)) := by
  rw [Unset, isSet_modify, isSet_elim]
  cases hb : bf[j.toNat / 8]? with
  | none => rfl
  | some b =>
    simp only [Option.elim_some]
    split_ifs with hdiv
    · rw [UInt8.toNat_and, Nat.testBit_and, ExtensionBits.testBit_not _ (by omega), toNat_mask,
        Nat.testBit_two_pow]
      congr 2
      rw [decide_eq_decide]
      exact ⟨eq_of_place hdiv, fun h => by rw [h]⟩
    · rw [decide_eq_false fun h => hdiv (by rw [h]), Bool.not_false, Bool.and_true]

@[simp] theorem length_Set (bf : Bytes) (i : UInt32) : (Set bf i).length = bf.length :=
  length_modify ..

@[simp] theorem length_Unset (bf : Bytes) (i : UInt32) : (Unset bf i).length = bf.length :=
  length_modify ..

theorem isSet_NewBitField (pieceNum : ℕ) (i : UInt32) :
    IsSet (NewBitField pieceNum true) i = decide (i.toNat < (pieceNum + 7) / 8 * 8) := by
  rw [isSet_eq, NewBitField, getElem?_replicate]
  by_cases hlt : i.toNat < (pieceNum + 7) / 8 * 8
  · rw [if_pos (by omega), decide_eq_true hlt]
    have hall : ∀ k < 8, (0xff : UInt8).toNat.testBit k = true := by decide
    exact hall _ (by omega)
  · rw [if_neg (by omega), decide_eq_false hlt]
    simp

theorem mem_Sets : i ∈ Sets bf ↔ IsSet bf i = true := by
  unfold Sets
  rw [mem_filter, mem_map]
  constructor
  · exact fun h => h.2
  · intro h
    refine ⟨⟨i.toNat, mem_range.2 ?_, UInt32.ofNat_toNat⟩, h⟩
    by_contra hle
    rw [isSet_of_length_le (by omega)] at h
    cases h

end GoI2pBt.PeerProtocol.BitField
