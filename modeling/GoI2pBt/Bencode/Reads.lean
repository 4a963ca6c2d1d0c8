/-
  What the reading functions of the decoder do to its state.
-/
import GoI2pBt.Lib.Scan
import GoI2pBt.Bencode.Decode
import GoI2pBt.Bencode.Syntax

namespace GoI2pBt.Bencode

open List Bencode.Tree

/-! ## Two disciplines -/

structure Reads (d : Decoder) (p : Bytes) (d' : Decoder) : Prop where
  r : d.r = p ++ d'.r
  n : d'.n = d.n + p.length
  raw : d'.raw = d.raw
  failUnordered : d'.failUnordered = d.failUnordered
  buf : d.raw = true → d'.buf = d.buf ++ p

theorem Reads.trans {d d1 d2 p q} (h : Reads d p d1) (h' : Reads d1 q d2) :
    Reads d (p ++ q) d2 where
  r := by rw [h.r, h'.r, append_assoc]
  n := by rw [h'.n, h.n, length_append, add_assoc]
  raw := h'.raw.trans h.raw
  failUnordered := h'.failUnordered.trans h.failUnordered
  buf hr := by rw [h'.buf (h.raw.trans hr), h.buf hr, append_assoc]

def reading : Reading Decoder where
  rel := Reads
  refl _ := ⟨rfl, rfl, rfl, rfl, fun _ => (append_nil _).symm⟩
  trans := Reads.trans

/-- The largest length that `strconv.ParseInt` with bit size 32 returns. -/
def maxPrefix : ℕ := 2 ^ 31 - 1

/-- A run that succeeds pays with the text it has read for the buffers it has made, and one that
fails has made at most one buffer more, of the largest length a prefix can announce. -/
def consuming : Reading Decoder where
  rel d p d' := d.r = p ++ d'.r ∧ d'.alloc ≤ d.alloc + p.length
  refl _ := ⟨rfl, le_rfl⟩
  trans h h' := by
    refine ⟨by rw [h.1, h'.1, append_assoc], ?_⟩
    have := h.2
    have := h'.2
    rw [length_append]
    omega
  lost d d' := d'.r <:+ d.r ∧ d'.alloc ≤ d.alloc + (d.r.length + maxPrefix)
  lost_refl _ := ⟨suffix_rfl, Nat.le_add_right _ _⟩
  lost_trans {d _ _ p} h h' := by
    refine ⟨h'.1.trans ⟨p, h.1.symm⟩, ?_⟩
    have := h.2
    have := h'.2
    rw [h.1, length_append]
    omega

theorem consuming_advance {d p r} (h : d.r = p ++ r) : consuming.rel d p (d.advance p r) :=
  ⟨h, Nat.le_add_right _ _⟩

theorem lost_advance (d : Decoder) (p : Bytes) : consuming.lost d (d.advance p []) :=
  ⟨nil_suffix, Nat.le_add_right _ _⟩

theorem Reads.rest {d d' p s} (h : Reads d p d') (hd : d.r = p ++ s) :
    d'.r = s := append_cancel_left (h.r.symm.trans hd)

theorem reads_advance {d p r} (h : d.r = p ++ r) : Reads d p (d.advance p r) :=
  ⟨h, rfl, rfl, rfl, fun hr => by simp [Decoder.advance, hr]⟩

/-! ## Known texts -/

variable {d : Decoder} {b delim : UInt8} {l p r : Bytes}

theorem peekByte_of_cons (h : d.r = b :: r) : peekByte d = .ok b d := by
  simp only [peekByte, h]

theorem peekByte_bind {α : Type} {f : UInt8 → DecodeM α} (h : d.r = b :: r) :
    (peekByte >>= f) d = f b d := bind_of_ok (peekByte_of_cons h)

theorem meets_lift {α : Type} (x : Except Error α) (d : Decoder) :
    Meets reading (lift x) d [] x := by
  apply meets_of_eq; cases x <;> rfl

theorem readByte_of_cons (h : d.r = b :: r) : readByte d = .ok b (d.advance [b] r) := by
  simp only [readByte, h]

theorem meets_readByte (h : d.r = b :: r) : Meets reading readByte d [b] (.ok b) :=
  ⟨d.advance [b] r, readByte_of_cons h, reads_advance h⟩

theorem meets_readBytes (hl : delim ∉ l) (h : d.r = l ++ delim :: r) :
    Meets reading (readBytes delim) d (l ++ [delim]) (.ok l) :=
  ⟨d.advance (l ++ [delim]) r, by simp only [readBytes, h, cut_append hl],
    reads_advance (by simp [h])⟩

theorem meets_readFull (h : d.r = p ++ r) : Meets reading (readFull p.length) d p (.ok p) := by
  refine ⟨{ d.advance p r with alloc := d.alloc + p.length }, ?_, ?_⟩
  · simp [readFull, h, Decoder.advance]
  · obtain ⟨h1, h2, h3, h4, h5⟩ := reads_advance h
    exact ⟨h1, h2, h3, h4, h5⟩

theorem meets_consumeToken (h : d.r = b :: r) : Meets reading (consumeToken b) d [b] (.ok ()) := by
  refine (meets_readByte h).step (q := []) fun d' _ => ?_
  simpa using meets_pure (R := reading) () d'

theorem meets_readIntegerDigits (hl : ch 'e' ∉ l) (h : d.r = ch 'i' :: (l ++ ch 'e' :: r)) :
    Meets reading readIntegerDigits d (ch 'i' :: (l ++ [ch 'e']))
      (.ok (if d.raw then [] else l)) := by
  refine (meets_readByte h).step (q := l ++ [ch 'e']) fun d1 h1 => ?_
  rw [← append_nil (l ++ [ch 'e'])]
  refine (meets_readBytes hl (h1.rest h)).step fun d2 h2 => ?_
  have hr : d2.raw = d.raw := h2.raw.trans h1.raw
  refine Meets.skip (get_apply d2) (meets_of_eq ?_)
  cases hd : d.raw <;> simp [hd, hr]

theorem meets_readString {len c} (hs : StrOk len c) (h : d.r = len ++ ch ':' :: (c ++ r)) :
    Meets reading readString d (len ++ ch ':' :: c) (.ok c) := by
  have htext : len ++ ch ':' :: c = (len ++ [ch ':']) ++ c := by simp
  rw [htext]
  refine (meets_readBytes hs.colon_notMem h).step fun d1 h1 => ?_
  rw [StrOk] at hs
  have hr : d1.r = c ++ r := h1.rest (by simp [h])
  have hn : ¬ (c.length : ℤ) < 0 := by omega
  simpa [hs, hn] using meets_readFull hr

theorem meets_checkDictEnd_true (h : d.r = ch 'e' :: r) :
    Meets reading checkDictEnd d [ch 'e'] (.ok true) := by
  obtain ⟨d', hd, hr⟩ := meets_readByte h
  refine ⟨d', ?_, hr⟩
  rw [checkDictEnd, peekByte_bind h, if_pos rfl, bind_of_ok hd, pure_apply]

theorem checkDictEnd_false (h : d.r = b :: r) (hb : b ≠ ch 'e') : checkDictEnd d = .ok false d := by
  rw [checkDictEnd, peekByte_bind h, if_neg hb, pure_apply]

theorem peekByte_bind_end {α : Type} (a : α) (m : DecodeM α) :
    (peekByte >>= fun c => if c = ch 'e' then readByte >>= fun _ => pure a else m) =
      (checkDictEnd >>= fun b => if b then pure a else m) := by
  funext d
  cases hr : d.r with
  | nil => simp [checkDictEnd, bind, EStateM.bind, peekByte, hr]
  | cons b r =>
    rw [peekByte_bind hr, checkDictEnd, bind_assoc, peekByte_bind hr]
    by_cases hb : b = ch 'e'
    · obtain ⟨d', hd, -⟩ := meets_readByte hr
      rw [if_pos hb, if_pos hb, bind_assoc, bind_of_ok hd, bind_of_ok hd]; rfl
    · rw [if_neg hb, if_neg hb]; rfl

/-! ## Unknown texts -/

theorem accepts_lift {α : Type} (x : Except Error α) :
    Accepts consuming (lift x) fun a p => x = .ok a ∧ p = [] := by
  cases x with
  | error e => exact accepts_throw e
  | ok a => exact accepts_pure ⟨rfl, rfl⟩

theorem accepts_readByte : Accepts consuming readByte fun b p => p = [b] where
  ok h := by
    unfold readByte at h
    split at h
    · cases h
    · next c r hr => cases h; exact ⟨_, consuming_advance hr, rfl⟩
  error {d _ _} h := by
    unfold readByte at h
    split at h
    · cases h; exact lost_advance d [0]
    · cases h

theorem accepts_peekByte : Accepts consuming peekByte fun _ p => p = [] where
  ok h := by
    unfold peekByte at h
    split at h <;> cases h
    exact ⟨[], consuming.refl _, rfl⟩
  error h := by
    unfold peekByte at h
    split at h <;> cases h
    exact consuming.lost_refl _

theorem accepts_readBytes (delim : UInt8) :
    Accepts consuming (readBytes delim) fun l p => delim ∉ l ∧ p = l ++ [delim] where
  ok {d l _} h := by
    unfold readBytes at h
    split at h
    · cases h
    · next l' r hc =>
      cases h
      obtain ⟨hl, hr⟩ := cut_eq_some hc
      exact ⟨l ++ [delim], consuming_advance (by simp [hr]), hl, rfl⟩
  error {d _ _} h := by
    unfold readBytes at h
    split at h
    · cases h; exact lost_advance d d.r
    · cases h

theorem accepts_readFull {n : ℕ} (hn : n ≤ maxPrefix) :
    Accepts consuming (readFull n) fun c p => p = c ∧ c.length = n where
  ok {d _ _} h := by
    simp only [readFull] at h
    split_ifs at h with hr
    cases h
    have hlen : (d.r.take n).length = n := by simp [hr]
    exact ⟨d.r.take n, ⟨(take_append_drop n d.r).symm, by rw [hlen]; rfl⟩, rfl, hlen⟩
  error {d _ _} h := by
    simp only [readFull] at h
    split_ifs at h with hr hnil <;> cases h <;> refine ⟨nil_suffix, ?_⟩ <;>
      simp only [Decoder.advance] <;> omega

theorem accepts_consumeToken (b : UInt8) : Accepts consuming (consumeToken b) fun _ p => p = [b] :=
  accepts_readByte.bind fun c p hp => by
    subst hp
    refine accepts_ite (fun _ => accepts_throw _) fun hc => accepts_pure ?_
    simpa using hc

theorem accepts_readIntegerDigits : Accepts consuming readIntegerDigits
      fun _ p => ∃ ds, ch 'e' ∉ ds ∧ p = ch 'i' :: (ds ++ [ch 'e']) :=
  accepts_readByte.bind fun c p hp => by
    subst hp
    refine accepts_ite (fun _ => accepts_throw _) fun hc => ?_
    refine (accepts_readBytes (ch 'e')).bind fun ds q hq => accepts_get fun d => ?_
    obtain ⟨hds, rfl⟩ := hq
    have hi : c = ch 'i' := not_not.1 hc
    refine accepts_ite (fun _ => accepts_pure ?_) fun _ => accepts_pure ?_ <;>
    exact ⟨ds, hds, by simp [hi]⟩

theorem accepts_readString :
    Accepts consuming readString fun c p => ∃ len, StrOk len c ∧ p = len ++ ch ':' :: c :=
  (accepts_readBytes (ch ':')).bind fun len p hp => by
    obtain ⟨-, rfl⟩ := hp
    cases hl : parseInt 32 len with
    | none => exact accepts_throw _
    | some n =>
      have hrange := (parseInt_range hl).2
      refine accepts_ite (fun _ => accepts_throw _) fun hn => ?_
      refine (accepts_readFull (by rw [maxPrefix]; omega)).mono fun c q hq => ⟨len, ?_, by simp [hq.1]⟩
      rw [StrOk, hl, hq.2]
      simp only [Option.some.injEq]; omega

theorem accepts_checkDictEnd :
    Accepts consuming checkDictEnd fun b p => p = if b then [ch 'e'] else [] := by
  have hnil : ∀ {d : Decoder}, d.r = [] → checkDictEnd d = .error .eof d := fun {d} hr =>
    bind_of_error (by rw [peekByte, hr])
  have hcons : ∀ {d : Decoder} {c r}, d.r = c :: r → ∃ b d', checkDictEnd d = .ok b d' ∧
      consuming.rel d (if b then [ch 'e'] else []) d' := by
    intro d c r hr
    by_cases hc : c = ch 'e'
    · subst hc
      refine ⟨true, d.advance [ch 'e'] r, ?_, consuming_advance hr⟩
      rw [checkDictEnd, peekByte_bind hr, if_pos rfl, bind_of_ok (readByte_of_cons hr), pure_apply]
    · exact ⟨false, d, checkDictEnd_false hr hc, consuming.refl d⟩
  constructor
  · intro d b d' h
    cases hr : d.r with
    | nil => rw [hnil hr] at h; cases h
    | cons c r =>
      obtain ⟨b, d', hok, hrel⟩ := hcons hr
      rw [hok] at h; cases h
      exact ⟨_, hrel, rfl⟩
  · intro d e d' h
    cases hr : d.r with
    | nil => rw [hnil hr] at h; cases h; exact consuming.lost_refl d
    | cons c r =>
      obtain ⟨b, d', hok, -⟩ := hcons hr
      rw [hok] at h; cases h

end GoI2pBt.Bencode
