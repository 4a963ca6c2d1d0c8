/-
  The error codes with which puts are answered.
-/
import GoI2pBt.Dht.DataStorage

namespace GoI2pBt.Dht

open List Krpc Metainfo DataStore
open Bencode (Env)

/-! ## Causes -/

inductive Cause where
  | valueTooBig
  | saltTooBig
  | invalidSignature
  | casMismatch
  | sequenceNumber
deriving DecidableEq

namespace Cause

def code : Cause → Int64
  | valueTooBig => ErrorCodeMessageValueFieldTooBig
  | saltTooBig => ErrorCodeSaltFieldTooBig
  | invalidSignature => ErrorCodeInvalidSignature
  | casMismatch => ErrorCodeCasHashMismatched
  | sequenceNumber => ErrorCodeSequenceNumberLessThanCurrent

variable (env : Env) (c : Crypto) (ds : DataStore) (a : QueryArg) (now : ℤ)

def Replaces (existing : StorageItem) : Prop :=
  ds.items (stored c a now).target = some existing ∧ existing.isMutable = true ∧ a.k ≠ []

def Applies : Cause → Prop
  | valueTooBig => MaxValueSize < a.v.length
  | saltTooBig => MaxSaltSize < a.salt.length
  | invalidSignature => a.k ≠ [] ∧ (itemOf a).VerifySignature env c = false
  | casMismatch => ∃ existing, Replaces c ds a now existing ∧ a.cas ≠ 0 ∧ a.cas ≠ existing.seq
  | sequenceNumber => ∃ existing, Replaces c ds a now existing ∧ a.seq ≤ existing.seq

def rank : Cause → ℕ
  | valueTooBig => 0
  | saltTooBig => 1
  | invalidSignature => 2
  | casMismatch => 3
  | sequenceNumber => 4

def First (cause : Cause) : Prop := cause.Applies env c ds a now ∧
    ∀ other : Cause, other.rank < cause.rank → ¬ other.Applies env c ds a now

end Cause

structure Identifies (env : Env) (c : Crypto) (ds : DataStore) (a : QueryArg) (now : ℤ) : Prop where
  refused : ∀ cause : Cause, cause.First env c ds a now →
    ∃ text, putQuery env c ds a now = (.error (cause.code, text), ds)
  replied : (∀ cause : Cause, ¬ cause.Applies env c ds a now) →
    putQuery env c ds a now = (.ok (), ds.store (stored c a now))

/-! ## The answer for each cause -/

variable {env : Env} {c : Crypto} {ds : DataStore} {a : QueryArg} {now : ℤ}

theorem not_invalid_of_not_applies (hsig : ¬ Cause.invalidSignature.Applies env c ds a now) :
    ¬ ((itemOf a).isMutable = true ∧ (!(itemOf a).VerifySignature env c) = true) := by
  rintro ⟨hm, hbad⟩
  exact hsig ⟨of_decide_eq_true hm, (Bool.not_eq_true' _).mp hbad⟩

theorem ne_append_self {s t : Bytes} (h : s ≠ []) : t ≠ s ++ t := by
  intro heq
  have hlen := congrArg length heq
  have hpos := length_pos_of_ne_nil h
  rw [length_append] at hlen
  omega

theorem putErrorCode_eq (text : Bytes) : putErrorCode text =
    if text = utf8 "invalid signature" then ErrorCodeInvalidSignature else ErrorCodeServer := by
  have hcas : text ≠ utf8 "CAS mismatch: " ++ text := ne_append_self (by decide)
  have hseq : text ≠ utf8 "sequence number must be greater than current: " ++ text :=
    ne_append_self (by decide)
  rw [putErrorCode, if_neg hcas, if_neg hseq]

theorem ne_of_start {start l₁ l₂ l₃ text : Bytes} (h : ¬ start <+: text) :
    start ++ l₁ ++ l₂ ++ l₃ ≠ text := by
  rintro rfl
  rw [append_assoc, append_assoc] at h
  exact h (prefix_append ..)

theorem checkExisting_of_casMismatch {existing} (hm : existing.isMutable = true)
    (hk : a.k ≠ []) (hne : a.cas ≠ 0) (hcas : a.cas ≠ existing.seq) :
    checkExisting existing (itemOf a) = .error (.casMismatch a.cas existing.seq) :=
  (if_pos ⟨hm, decide_eq_true hk⟩).trans (if_pos ⟨hne, hcas⟩)

theorem checkExisting_of_sequenceNumber {existing} (hm : existing.isMutable = true)
    (hk : a.k ≠ []) (hcas : ¬ (a.cas ≠ 0 ∧ a.cas ≠ existing.seq)) (hseq : a.seq ≤ existing.seq) :
    checkExisting existing (itemOf a) = .error (.sequenceNumber a.seq existing.seq) :=
  (if_pos ⟨hm, decide_eq_true hk⟩).trans ((if_neg hcas).trans (if_pos hseq))

theorem putQuery_of_not_applies (h : ∀ cause : Cause, ¬ cause.Applies env c ds a now) :
    putQuery env c ds a now = (.ok (), ds.store (stored c a now)) := by
  refine putQuery_of_free (not_lt.1 (h .valueTooBig)) (not_lt.1 (h .saltTooBig)) ?_ ?_
  · intro hm
    by_contra hbad
    exact h .invalidSignature ⟨of_decide_eq_true hm, eq_false_of_ne_true hbad⟩
  · intro existing hitem hm hk
    have hreplaces : Cause.Replaces c ds a now existing := ⟨hitem, hm, of_decide_eq_true hk⟩
    refine ⟨fun hne => ?_, Int64.not_le.1 fun hseq => h .sequenceNumber ⟨existing, hreplaces, hseq⟩⟩
    by_contra hcas
    exact h .casMismatch ⟨existing, hreplaces, hne, hcas⟩

section Sizes

variable (hv : ¬ MaxValueSize < a.v.length)
include hv

theorem putQuery_of_saltTooBig (h : MaxSaltSize < a.salt.length) :
    putQuery env c ds a now = (.error (ErrorCodeSaltFieldTooBig, utf8 "salt too large"), ds) := by
  rw [putQuery, if_neg hv, if_pos h]

variable (hs : ¬ MaxSaltSize < a.salt.length)
include hs

theorem putQuery_of_put {err} (h : ds.Put env c (itemOf a) now = (.error err, ds)) :
    putQuery env c ds a now = (.error (putErrorCode err.text, err.text), ds) := by
  rw [putQuery, if_neg hv, if_neg hs, h]

theorem put_of_invalidSignature (hk : a.k ≠ [])
    (hsig : (itemOf a).VerifySignature env c = false) :
    ds.Put env c (itemOf a) now = (.error .invalidSignature, ds) := by
  have hbad : (itemOf a).isMutable = true ∧ (!(itemOf a).VerifySignature env c) = true :=
    ⟨decide_eq_true hk, by rw [hsig]; rfl⟩
  exact (if_neg hv).trans ((if_neg hs).trans (if_pos hbad))

theorem put_of_stale {existing err}
    (hsig : ¬ Cause.invalidSignature.Applies env c ds a now)
    (hitem : ds.items (stored c a now).target = some existing)
    (hcheck : checkExisting existing (itemOf a) = .error err) :
    ds.Put env c (itemOf a) now = (.error err, ds) := by
  rw [stored] at hitem
  rw [Put, hitem]
  refine (if_neg hv).trans ((if_neg hs).trans
    ((if_neg (not_invalid_of_not_applies hsig)).trans ?_))
  dsimp only
  rw [hcheck]

theorem putQuery_of_stale (hsig : ¬ Cause.invalidSignature.Applies env c ds a now)
    (h : Cause.casMismatch.Applies env c ds a now ∨ Cause.sequenceNumber.Applies env c ds a now) :
    ∃ text, putQuery env c ds a now = (.error (ErrorCodeServer, text), ds) := by
  have hserver : ∀ {existing : StorageItem} {err : PutError},
      ds.items (stored c a now).target = some existing →
      checkExisting existing (itemOf a) = .error err →
      err.text ≠ utf8 "invalid signature" →
      ∃ text, putQuery env c ds a now = (.error (ErrorCodeServer, text), ds) := by
    intro existing err hitem hcheck hne
    refine ⟨err.text, ?_⟩
    rw [putQuery_of_put hv hs (put_of_stale hv hs hsig hitem hcheck), putErrorCode_eq, if_neg hne]
  rcases h with ⟨existing, ⟨hitem, hm, hk⟩, hne, hcas⟩ | ⟨existing, ⟨hitem, hm, hk⟩, hseq⟩
  · exact hserver hitem (checkExisting_of_casMismatch hm hk hne hcas) (ne_of_start (by decide))
  · by_cases hcas : a.cas ≠ 0 ∧ a.cas ≠ existing.seq
    · exact hserver hitem (checkExisting_of_casMismatch hm hk hcas.1 hcas.2)
        (ne_of_start (by decide))
    · exact hserver hitem (checkExisting_of_sequenceNumber hm hk hcas hseq)
        (ne_of_start (by decide))

theorem putQuery_of_invalidSignature (h : Cause.invalidSignature.Applies env c ds a now) :
    putQuery env c ds a now =
      (.error (ErrorCodeInvalidSignature, utf8 "invalid signature"), ds) := by
  rw [putQuery_of_put hv hs (put_of_invalidSignature hv hs h.1 h.2), putErrorCode_eq,
    if_pos (by rfl)]
  rfl

end Sizes

theorem code_ne_server (cause : Cause) : cause.code ≠ ErrorCodeServer := by
  cases cause <;> decide

theorem exists_first {cause : Cause} (h : cause.Applies env c ds a now) :
    ∃ first : Cause, first.First env c ds a now := by
  classical
  have hex : ∃ n, ∃ cause : Cause, cause.rank = n ∧ cause.Applies env c ds a now :=
    ⟨_, cause, rfl, h⟩
  obtain ⟨first, hrank, happlies⟩ := Nat.find_spec hex
  refine ⟨first, happlies, fun other hlt hother => ?_⟩
  rw [hrank] at hlt
  exact Nat.find_min hex hlt ⟨other, rfl, hother⟩

/-! ## The codes -/

theorem not_identifies (hbefore : ∀ cause : Cause, cause.rank < 3 → ¬ cause.Applies env c ds a now)
    (hstale : Cause.casMismatch.Applies env c ds a now ∨
      Cause.sequenceNumber.Applies env c ds a now) : ¬ Identifies env c ds a now := by
  intro h
  have ⟨cause, hcause⟩ : ∃ cause : Cause, cause.Applies env c ds a now :=
    hstale.elim (⟨_, ·⟩) (⟨_, ·⟩)
  obtain ⟨first, hfirst⟩ := exists_first hcause
  obtain ⟨text, htext⟩ := h.refused first hfirst
  obtain ⟨text', hserver⟩ := putQuery_of_stale (hbefore .valueTooBig (by decide))
    (hbefore .saltTooBig (by decide)) (hbefore .invalidSignature (by decide)) hstale
  rw [htext] at hserver
  exact code_ne_server first (congrArg Prod.fst (Except.error.inj (congrArg Prod.fst hserver)))

/-- **Stale puts get the code of a server error.** -/
theorem identifies_iff : Identifies env c ds a now ↔
    ¬ ((∀ cause : Cause, cause.rank < 3 → ¬ cause.Applies env c ds a now) ∧
      (Cause.casMismatch.Applies env c ds a now ∨
        Cause.sequenceNumber.Applies env c ds a now)) := by
  constructor
  · rintro h ⟨hbefore, hstale⟩
    exact not_identifies hbefore hstale h
  · intro h
    refine ⟨?_, putQuery_of_not_applies⟩
    rintro cause ⟨happlies, hfirst⟩
    cases cause with
    | valueTooBig => exact ⟨_, if_pos happlies⟩
    | saltTooBig =>
      exact ⟨_, putQuery_of_saltTooBig (hfirst .valueTooBig (by decide)) happlies⟩
    | invalidSignature =>
      exact ⟨_, putQuery_of_invalidSignature (hfirst .valueTooBig (by decide))
        (hfirst .saltTooBig (by decide)) happlies⟩
    | casMismatch => exact absurd ⟨fun other hlt => hfirst other hlt, .inl happlies⟩ h
    | sequenceNumber =>
      exact absurd ⟨fun other hlt => hfirst other (Nat.lt_trans hlt (by decide)), .inr happlies⟩ h

theorem repeated_put_server_error : Nonempty (Keypair sampleCrypto) ∧ ∀ (c : Crypto) (env : Env)
    (pair : Keypair c), ¬ Identifies env c
      (DataStore.empty.store (stored c (pair.signedPut env 1) 0)) (pair.signedPut env 1) 0 := by
  refine ⟨⟨samplePair⟩, fun c env pair => ?_⟩
  refine not_identifies ?_ (.inr ⟨_, ⟨store_self _ _,
    pair.isMutable_signedPut env 1, pair.publicKey_ne_nil⟩, Int64.le_refl _⟩)
  intro cause hrank
  cases cause with
  | valueTooBig => exact Nat.not_lt.2 (Nat.le_of_ble_eq_true rfl)
  | saltTooBig => exact Nat.not_lt_zero _
  | invalidSignature =>
    rintro ⟨-, hbad⟩
    rw [pair.verifySignature_signedPut env 1] at hbad
    cases hbad
  | casMismatch | sequenceNumber => exact absurd hrank (by decide)

end GoI2pBt.Dht
