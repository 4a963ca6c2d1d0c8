/-
  What the decoder accepts is a well-formed text, stored as its tree.
-/
import GoI2pBt.Bencode.Store

namespace GoI2pBt.Bencode

open Bencode.Tree List

variable {env : Env} {dec : RValue → DecodeM GoVal} {d d' : Decoder} {fuel : ℕ} {v : RValue}
  {t : GoType} {old : GoVal} {addr : Bool}

/-! ## The loops -/

theorem accepts_decodeInt {v} : Accepts consuming (decodeInt v)
    fun _ p => ∃ t : Tree, t.WF ∧ p = t.bytes :=
  accepts_readIntegerDigits.bind fun ds p hp => by
    obtain ⟨ds', hds, rfl⟩ := hp
    exact (accepts_lift _).mono fun x q hq => ⟨.int ds', hds, by simp [hq.2, bytes]⟩

theorem accepts_decodeString {v} : Accepts consuming (decodeString v)
    fun _ p => ∃ len c, StrOk len c ∧ p = len ++ ch ':' :: c :=
  accepts_readString.bind fun c p hp => by
    obtain ⟨len, hs, rfl⟩ := hp
    refine accepts_get fun d => accepts_ite (fun _ => accepts_pure ⟨len, c, hs, by simp⟩) fun _ => ?_
    exact (accepts_lift _).mono fun x q hq => ⟨len, c, hs, by simp [hq.2]⟩

theorem accepts_processNextDictKey {last} : Accepts consuming (processNextDictKey last)
      fun c p => ∃ len, StrOk len c ∧ p = len ++ ch ':' :: c :=
  accepts_readString.bind fun c p hp => by
    cases last with
    | none => exact accepts_pure (by simpa using hp)
    | some k =>
      exact accepts_get fun d => accepts_ite (fun _ => accepts_throw _)
        fun _ => accepts_pure (by simpa using hp)

def ItemsText (p : Bytes) : Prop := ∃ ts, WFItems ts ∧ p = itemsBytes ts ++ [ch 'e']

def EntriesText (p : Bytes) : Prop := ∃ es, WFEntries es ∧ p = entriesBytes es ++ [ch 'e']

theorem ItemsText.nil : ItemsText [ch 'e'] := ⟨[], trivial, rfl⟩

theorem EntriesText.nil : EntriesText [ch 'e'] := ⟨[], trivial, rfl⟩

theorem ItemsText.cons {t : Tree} {p : Bytes} (ht : t.WF) (h : ItemsText p) :
    ItemsText (t.bytes ++ p) := by
  obtain ⟨ts, hts, rfl⟩ := h
  exact ⟨t :: ts, ⟨ht, hts⟩, (itemsBytes_cons_end t ts _).symm⟩

theorem EntriesText.cons {len key : Bytes} {t : Tree} {p : Bytes} (hs : StrOk len key)
    (ht : t.WF) (h : EntriesText p) : EntriesText ((len ++ ch ':' :: key) ++ (t.bytes ++ p)) := by
  obtain ⟨es, hes, rfl⟩ := h
  exact ⟨⟨len, key, t⟩ :: es, ⟨hs, ht, hes⟩, (entriesBytes_cons_end len key t es _).symm⟩

section

variable (ih : ∀ v, Accepts consuming (dec v) fun _ p => ∃ t : Tree, t.WF ∧ p = t.bytes)
include ih

theorem accepts_rawList : ∀ fuel,
    Accepts consuming (processListInRawMode dec fuel) fun _ p => ItemsText p
  | 0 => accepts_throw _
  | fuel + 1 => by
    rw [processListInRawMode, peekByte_bind_end]
    refine accepts_checkDictEnd.bind fun b p hp => ?_
    subst hp
    refine accepts_ite (fun hb => accepts_pure (by simpa [hb] using ItemsText.nil)) fun hb => ?_
    refine (ih _).bind fun x q hq => ?_
    obtain ⟨t, ht, rfl⟩ := hq
    exact (accepts_rawList fuel).mono fun y q hq => by simpa [hb] using hq.cons ht

theorem accepts_processListElements {isArray} {e : GoType} : ∀ fuel i xs,
    Accepts consuming (processListElements dec isArray e addr fuel i xs) fun _ p => ItemsText p
  | 0, _, _ => accepts_throw _
  | fuel + 1, i, xs => by
    rw [processListElements, peekByte_bind_end]
    refine accepts_checkDictEnd.bind fun b p hp => ?_
    subst hp
    refine accepts_ite (fun hb => accepts_pure (by simpa [hb] using ItemsText.nil)) fun hb => ?_
    refine (accepts_lift _).bind fun xs p hp => (ih _).bind fun x q hq => ?_
    obtain ⟨-, rfl⟩ := hp
    obtain ⟨t, ht, rfl⟩ := hq
    exact (accepts_processListElements fuel _ _).mono fun y q hq => by simpa [hb] using hq.cons ht

theorem accepts_rawDict : ∀ fuel,
    Accepts consuming (processDictInRawMode dec fuel) fun _ p => EntriesText p
  | 0 => accepts_throw _
  | fuel + 1 => by
    rw [processDictInRawMode, peekByte_bind_end]
    refine accepts_checkDictEnd.bind fun b p hp => ?_
    subst hp
    refine accepts_ite (fun hb => accepts_pure (by simpa [hb] using EntriesText.nil)) fun hb => ?_
    refine accepts_decodeString.bind fun _ p hp => (ih _).bind fun x q hq => ?_
    obtain ⟨len, key, hs, rfl⟩ := hp
    obtain ⟨t, ht, rfl⟩ := hq
    exact (accepts_rawDict fuel).mono fun y q hq => by simpa [hb] using hq.cons hs ht

theorem accepts_handleKeyValuePair {tgt key cur} :
    Accepts consuming (handleKeyValuePair dec tgt t addr key cur)
      fun _ p => ∃ t : Tree, t.WF ∧ p = t.bytes := by
  cases tgt with
  | map e =>
    refine (ih _).bind fun x p hp => ?_
    cases cur with
    | map es => exact accepts_pure (by simpa using hp)
    | _ => exact accepts_throw _
  | struct vals =>
    cases hf : (lookupField vals key).bind fun path => (fieldAt path t cur).map (path, ·) with
    | none | some =>
      simp only [handleKeyValuePair, hf]
      exact (ih _).bind fun x p hp => accepts_pure (by simpa using hp)

theorem accepts_processDictKeyValuePairs {tgt} : ∀ fuel last cur,
    Accepts consuming (processDictKeyValuePairs dec tgt t addr fuel last cur)
      fun _ p => EntriesText p
  | 0, _, _ => accepts_throw _
  | fuel + 1, _, _ => by
    rw [processDictKeyValuePairs]
    refine accepts_checkDictEnd.bind fun b p hp => ?_
    subst hp
    refine accepts_ite (fun hb => accepts_pure (by simpa [hb] using EntriesText.nil)) fun hb => ?_
    refine accepts_processNextDictKey.bind fun key p hp => ?_
    refine (accepts_handleKeyValuePair ih).bind fun x q hq => ?_
    obtain ⟨len, hs, rfl⟩ := hp
    obtain ⟨t, ht, rfl⟩ := hq
    exact (accepts_processDictKeyValuePairs fuel _ _).mono fun y q hq => by
      simpa [hb] using hq.cons hs ht

theorem accepts_decodeList (fuel : ℕ) (v : RValue) : Accepts consuming (decodeList dec fuel v)
    fun _ p => ∃ t : Tree, t.WF ∧ p = t.bytes := by
  have list : ∀ {p}, ItemsText p → ∃ t : Tree, t.WF ∧ [ch 'l'] ++ p = t.bytes := by
    rintro p ⟨ts, hts, rfl⟩
    exact ⟨.list ts, hts, rfl⟩
  refine accepts_get fun d => accepts_ite (fun _ => ?_) fun _ => ?_
  · refine (accepts_consumeToken _).bind fun _ p hp => ?_
    subst hp
    exact (accepts_rawList ih fuel).mono fun _ q hq => list hq
  · cases v with
    | invalid => exact accepts_throw _
    | mk t old addr =>
      dsimp only
      cases t.under with
      | iface =>
        refine (accepts_consumeToken _).bind fun _ p hp => ?_
        subst hp
        refine (accepts_processListElements ih fuel _ _).bind fun xs q hq => ?_
        exact (accepts_lift _).mono fun y r hr => by rw [hr.2, append_nil]; exact list hq
      | slice | array =>
        refine (accepts_consumeToken _).bind fun _ p hp => ?_
        subst hp
        refine (accepts_processListElements ih fuel _ _).bind fun xs q hq => accepts_pure ?_
        rw [append_nil]; exact list hq
      | _ => exact accepts_throw _

theorem accepts_decodeDict (fuel : ℕ) (v : RValue) : Accepts consuming (decodeDict env dec fuel v)
    fun _ p => ∃ t : Tree, t.WF ∧ p = t.bytes := by
  have dict : ∀ {p}, EntriesText p → ∃ t : Tree, t.WF ∧ [ch 'd'] ++ p = t.bytes := by
    rintro p ⟨es, hes, rfl⟩
    exact ⟨.dict es, hes, rfl⟩
  refine accepts_get fun d => accepts_ite (fun _ => ?_) fun _ => ?_
  · refine (accepts_consumeToken _).bind fun _ p hp => ?_
    subst hp
    exact (accepts_rawDict ih fuel).mono fun _ q hq => dict hq
  · cases v with
    | invalid => exact accepts_throw _
    | mk t old addr =>
      refine (accepts_consumeToken _).bind fun _ p hp => ?_
      subst hp
      refine accepts_ite (fun _ => ?_) fun _ => ?_
      · refine (accepts_processDictKeyValuePairs ih fuel _ _).bind fun m q hq => ?_
        exact (accepts_lift _).mono fun y r hr => by rw [hr.2, append_nil]; exact dict hq
      · refine (accepts_lift _).bind fun tc q hq => ?_
        obtain ⟨-, rfl⟩ := hq
        exact (accepts_processDictKeyValuePairs ih fuel _ _).mono fun m q hq => dict hq

theorem accepts_dispatch (fuel : ℕ) (v : RValue) :
    Accepts consuming (dispatchDecodeByType env dec fuel v)
      fun _ p => ∃ t : Tree, t.WF ∧ p = t.bytes := by
  refine accepts_peekByte.bind fun b p hp => ?_
  subst hp
  refine accepts_ite (fun _ => accepts_decodeInt) fun _ => accepts_ite (fun _ => ?_) fun _ =>
    accepts_ite (fun _ => accepts_decodeList ih fuel v) fun _ =>
    accepts_ite (fun _ => accepts_decodeDict ih fuel v) fun _ => accepts_throw _
  refine accepts_decodeString.mono fun _ p hp => ?_
  obtain ⟨len, c, hs, rfl⟩ := hp
  exact ⟨.str len c, hs, rfl⟩

theorem accepts_decodeRaw (fuel : ℕ) : Accepts consuming (decodeRaw env dec fuel)
    fun _ p => ∃ t : Tree, t.WF ∧ p = t.bytes where
  ok h := by
    unfold decodeRaw at h
    split at h
    · next hd =>
      cases h
      obtain ⟨p, hp, ht⟩ := (accepts_dispatch ih fuel _).ok hd
      exact ⟨p, hp, ht⟩
    · cases h
  error h := by
    unfold decodeRaw at h
    split at h
    · cases h
    · next hd =>
      cases h
      have hlost := (accepts_dispatch ih fuel _).error hd
      exact ⟨hlost.1, hlost.2⟩

end

/-! ## The decoder -/

theorem accepts_decodeInto : ∀ (fuel : ℕ) (v : RValue), Accepts consuming (decodeInto env fuel v)
    fun _ p => ∃ t : Tree, t.WF ∧ p = t.bytes
  | 0, v => accepts_throw _
  | fuel + 1, v => by
    have ih := accepts_decodeInto fuel
    have put : ∀ {x : Except Error GoVal} {f : GoVal → GoVal} {p : Bytes},
        (∃ t : Tree, t.WF ∧ p = t.bytes) → Accepts consuming (do return f (← lift x))
          fun _ q => ∃ t : Tree, t.WF ∧ p ++ q = t.bytes := fun hp =>
      (accepts_lift _).bind fun y q hq => accepts_pure (by simpa [hq.2] using hp)
    rw [decodeInto.eq_def]
    refine accepts_get fun d => accepts_ite (fun _ => accepts_dispatch ih fuel v) fun _ => ?_
    cases v with
    | invalid => exact accepts_throw _
    | mk t old addr =>
      dsimp only
      generalize indirect env t old addr = res
      obtain ⟨target, f⟩ := res
      split
      · exact accepts_throw _
      · exact (ih _).bind fun x p hp => put hp
      · refine accepts_readString.bind fun c p hp => put ?_
        obtain ⟨len, hs, rfl⟩ := hp
        exact ⟨.str len c, hs, rfl⟩
      · exact (accepts_decodeRaw ih fuel).bind fun x p hp => put hp
      · exact (accepts_dispatch ih fuel _).bind fun x p hp => accepts_pure (by simpa using hp)

structure Fresh (d : Decoder) : Prop where
  raw : d.raw = false
  ord : d.failUnordered = false

theorem fresh_newDecoder (b : Bytes) : Fresh (NewDecoder b) := ⟨rfl, rfl⟩

theorem meets_decode (env : Env) (t : GoType) (old : GoVal) {tree s} (hd : Fresh d) (hw : tree.WF)
    (h : d.r = tree.bytes ++ s) :
    Meets reading (Decode env t old) d tree.bytes (store env t old true tree) := by
  have hf : tree.bytes.length < d.r.length + 2 := by rw [h, length_append]; omega
  refine Meets.congr (Decode.eq_def env t old d) ?_
  exact meets_decodeInto _ tree hw hf t old true d s ⟨hd.raw, hd.ord, h⟩

theorem decode_reads {x} (hd : Fresh d) (h : Decode env t old d = .ok x d') :
    ∃ tree : Tree, tree.WF ∧ Reads d tree.bytes d' ∧ store env t old true tree = .ok x := by
  obtain ⟨p, ⟨hp, -⟩, tree, hw, rfl⟩ := (accepts_decodeInto _ _).ok h
  have hm := meets_decode env t old hd hw hp
  cases hs : store env t old true tree with
  | error e => rw [hs] at hm; obtain ⟨e', d1, h1⟩ := hm; rw [h] at h1; cases h1
  | ok y =>
    rw [hs] at hm; obtain ⟨d1, h1, hr⟩ := hm; rw [h] at h1; cases h1
    exact ⟨tree, hw, hr, hs⟩

theorem decode_ok_iff {x} (hd : Fresh d) : (∃ d', Decode env t old d = .ok x d') ↔
      ∃ tree s, tree.WF ∧ d.r = tree.bytes ++ s ∧ store env t old true tree = .ok x := by
  constructor
  · rintro ⟨d', h⟩
    obtain ⟨tree, hw, hr, hs⟩ := decode_reads hd h
    exact ⟨tree, d'.r, hw, hr.r, hs⟩
  · rintro ⟨tree, s, hw, hr, hs⟩
    have := meets_decode env t old hd hw hr
    rw [hs] at this
    obtain ⟨d', h, -⟩ := this
    exact ⟨d', h⟩

theorem decode_iff_store {b s tree} (hw : tree.WF) (hb : b = tree.bytes ++ s) :
    (∃ x d, Decode env t old (NewDecoder b) = .ok x d) ↔
      ∃ x, store env t old true tree = .ok x := by
  constructor
  · rintro ⟨x, d, h⟩
    obtain ⟨tree', hw', hr, hs⟩ := decode_reads (fresh_newDecoder b) h
    obtain ⟨rfl, -⟩ := bytes_inj hw hw' (hb.symm.trans hr.r)
    exact ⟨x, hs⟩
  · rintro ⟨x, hs⟩
    obtain ⟨d, h⟩ := (decode_ok_iff (fresh_newDecoder b)).2 ⟨tree, s, hw, hb, hs⟩
    exact ⟨x, d, h⟩

theorem decodeBytes_ok_iff {b x} : DecodeBytes env b t old = .ok x ↔
      ∃ tree s, tree.WF ∧ b = tree.bytes ++ s ∧ store env t old true tree = .ok x := by
  have : (∃ d', Decode env t old (NewDecoder b) = .ok x d') ↔
      ∃ tree s, tree.WF ∧ b = tree.bytes ++ s ∧ store env t old true tree = .ok x :=
    decode_ok_iff (fresh_newDecoder b)
  rw [← this, DecodeBytes]
  cases h : Decode env t old (NewDecoder b) with
  | ok y d' => simp
  | error e d' => simp

end GoI2pBt.Bencode
