/-
  Raw messages and interfaces accept the same texts, up to numbers.
-/
import GoI2pBt.Bencode.Containers

namespace GoI2pBt.Bencode

open Bencode.Tree

/-! ## The numbers of a tree -/

namespace Tree

mutual

def intsOk : Tree → Bool
  | .int ds => (parseInt 64 ds).isSome
  | .str _ _ => true
  | .list ts => intsOkItems ts
  | .dict es => intsOkEntries es

def intsOkItems : List Tree → Bool
  | [] => true
  | t :: ts => t.intsOk && intsOkItems ts

def intsOkEntries : List (Entry Tree) → Bool
  | [] => true
  | ⟨_, _, t⟩ :: es => t.intsOk && intsOkEntries es

end

end Tree

variable {env : Env}

mutual

theorem store_iface_ok : ∀ {t : Tree},
    (∃ w, store env .iface .nilIface true t = .ok w) ↔ (t.scannable && t.intsOk) = true
  | .int ds => by
    rw [store_iface_int, parseInt64]
    cases h : parseInt 64 ds <;> simp [scannable, intsOk, h]
  | .str len c => by
    rw [store_iface_str]
    cases h : digitFirst len <;> simp [scannable, intsOk, h]
  | .list ts => by
    rw [store_iface_list, scannable, intsOk, ← storeAll_iface_ok ts, ← storeItems_nil]
    cases storeItems env false .iface true 0 ([], []) ts <;> simp
  | .dict es => by
    rw [store_iface_dict, scannable, intsOk, ← storeVals_iface_ok es]
    cases storeVals env .iface es <;> simp

theorem storeAll_iface_ok : ∀ ts : List Tree,
    (∃ ws, storeAll env .iface ts = .ok ws) ↔ (scannableItems ts && intsOkItems ts) = true
  | [] => by simp [storeAll, scannableItems, intsOkItems]
  | t :: ts => by
    have ht := store_iface_ok (t := t)
    have hts := storeAll_iface_ok ts
    rw [storeAll, zero, scannableItems, intsOkItems]
    cases hs : store env .iface .nilIface true t <;> cases hss : storeAll env .iface ts <;>
      simp_all

theorem storeVals_iface_ok : ∀ es : List (Entry Tree),
    (∃ ws, storeVals env .iface es = .ok ws) ↔ (scannableEntries es && intsOkEntries es) = true
  | [] => by simp [storeVals, scannableEntries, intsOkEntries]
  | ⟨len, _, t⟩ :: es => by
    have ht := store_iface_ok (t := t)
    have hes := storeVals_iface_ok es
    rw [storeVals, zero, scannableEntries, intsOkEntries]
    cases hs : store env .iface .nilIface true t <;> cases hss : storeVals env .iface es <;>
      simp_all

end

/-! ## Agreement -/

structure RawAgrees (env : Env) (b : Bytes) : Prop where
  /-- A `RawMessage` succeeds if and only if an `interface{}` does. -/
  raw_iff : (∃ x d, Decode env .rawMessage .nilSlice (NewDecoder b) = .ok x d) ↔
    ∃ y d, Decode env .iface .nilIface (NewDecoder b) = .ok y d
  /-- Both read the same text, and the `RawMessage` is that text. -/
  raw_same : ∀ x d y d', Decode env .rawMessage .nilSlice (NewDecoder b) = .ok x d →
    Decode env .iface .nilIface (NewDecoder b) = .ok y d' →
    d.n = d'.n ∧ d.r = d'.r ∧ b = valBytes x ++ d.r
  /-- An unmarshaler that takes everything succeeds if and only if an `interface{}` does. -/
  handed_iff : ∀ name under old u, (env.methods name).unmarshalBencode = some u →
    (∀ raw, ∃ x, u old raw = .ok x) →
    ((∃ x d, Decode env (.named name under) old (NewDecoder b) = .ok x d) ↔
      ∃ y d, Decode env .iface .nilIface (NewDecoder b) = .ok y d)
  /-- What an unmarshaler is handed is one value. -/
  handed_valid : ∀ name under old u x d, (env.methods name).unmarshalBencode = some u →
    Decode env (.named name under) old (NewDecoder b) = .ok x d →
    ∃ raw y d', b = raw ++ d.r ∧ u old raw = .ok x ∧
      Decode env .iface .nilIface (NewDecoder raw) = .ok y d' ∧ d'.r = []

def IntsOk (b : Bytes) : Prop := ∀ t s, Tree.WF t → t.scannable → b = t.bytes ++ s → t.intsOk

theorem rawMessage_iff {b s : Bytes} {t : Tree} (hw : t.WF) (hb : b = t.bytes ++ s) :
    (∃ x d, Decode env .rawMessage .nilSlice (NewDecoder b) = .ok x d) ↔ t.scannable = true := by
  rw [decode_iff_store hw hb, store_rawMessage]
  cases t.scannable <;> simp

theorem iface_iff {b s : Bytes} {t : Tree} (hw : t.WF) (hb : b = t.bytes ++ s) :
    (∃ x d, Decode env .iface .nilIface (NewDecoder b) = .ok x d) ↔
      (t.scannable && t.intsOk) = true := by
  rw [decode_iff_store hw hb, store_iface_ok]

theorem IntsOk.ok_iff {b : Bytes} (h : IntsOk b) {ty : GoType} {old : GoVal}
    (hty : ∀ t : Tree, (∃ x, store env ty old true t = .ok x) ↔ t.scannable = true) :
    (∃ x d, Decode env ty old (NewDecoder b) = .ok x d) ↔
      ∃ y d, Decode env .iface .nilIface (NewDecoder b) = .ok y d := by
  constructor
  · rintro ⟨x, d, hx⟩
    obtain ⟨t, hw, hr, hs⟩ := decode_reads (fresh_newDecoder b) hx
    have hsc := (hty t).1 ⟨x, hs⟩
    exact (iface_iff hw hr.r).2 (by rw [hsc, h t d.r hw hsc hr.r]; rfl)
  · rintro ⟨y, d, hy⟩
    obtain ⟨t, hw, hr, hs⟩ := decode_reads (fresh_newDecoder b) hy
    have hsc := store_iface_ok.1 ⟨y, hs⟩
    rw [Bool.and_eq_true] at hsc
    exact (decode_iff_store hw hr.r).2 ((hty t).2 hsc.1)

/-- **When raw messages and interfaces agree.** -/
theorem rawAgrees_iff (env : Env) (b : Bytes) : RawAgrees env b ↔ IntsOk b := by
  constructor
  · intro h t s hw hsc hb
    have := (iface_iff hw hb).1 (h.raw_iff.1 ((rawMessage_iff hw hb).2 hsc))
    rw [Bool.and_eq_true] at this
    exact this.2
  · intro h
    refine ⟨h.ok_iff fun t => ?_, ?_, ?_, ?_⟩
    · rw [store_rawMessage]; cases t.scannable <;> simp
    · intro x d y d' hx hy
      obtain ⟨t, hw, hr, hs⟩ := decode_reads (fresh_newDecoder b) hx
      obtain ⟨t', hw', hr', -⟩ := decode_reads (fresh_newDecoder b) hy
      obtain ⟨rfl, hrest⟩ := bytes_inj hw hw' (hr.r.symm.trans hr'.r)
      refine ⟨hr.n.trans hr'.n.symm, hrest, ?_⟩
      rw [store_rawMessage] at hs
      cases hsc : t.scannable with
      | false => simp [hsc] at hs
      | true =>
        simp only [hsc, if_true, Except.ok.injEq] at hs
        rw [← hs, valBytes_bytesVal]; exact hr.r
    · intro name under old u hu hall
      refine h.ok_iff fun t => ?_
      obtain ⟨x, hx⟩ := hall t.bytes
      rw [store_unmarshaler hu, hx]
      cases t.scannable <;> simp
    · intro name under old u x d hu hx
      obtain ⟨t, hw, hr, hs⟩ := decode_reads (fresh_newDecoder b) hx
      rw [store_unmarshaler hu] at hs
      cases hsc : t.scannable with
      | false => simp [hsc] at hs
      | true =>
        simp only [hsc, if_true] at hs
        -- the text alone is an input too, and nothing follows the value there
        have hb : t.bytes = t.bytes ++ [] := (List.append_nil _).symm
        obtain ⟨y, d', hy⟩ : ∃ y d', Decode env .iface .nilIface (NewDecoder t.bytes) = .ok y d' :=
          (iface_iff hw hb).2 (by rw [hsc, h t d.r hw hsc hr.r]; rfl)
        obtain ⟨t', hw', hr', -⟩ := decode_reads (fresh_newDecoder t.bytes) hy
        obtain ⟨rfl, hrest⟩ := bytes_inj hw hw' (hb.symm.trans hr'.r)
        exact ⟨t.bytes, y, d', hr.r, hs, hy, hrest.symm⟩

theorem not_rawAgrees_iabce : ¬ RawAgrees bareEnv (utf8 "iabce") := by
  intro h
  obtain ⟨y, d, hy⟩ := h.raw_iff.1 ⟨bytesVal (utf8 "iabce"), _, rfl⟩
  cases hy

end GoI2pBt.Bencode
