/-
  The decoder returns: no panic, no endless loop.
-/
import GoI2pBt.Bencode.Structs

namespace GoI2pBt.Bencode

open List Bencode.Tree Bool

def Error.Returned : Error → Prop
  | .panic => False
  | .outOfFuel => False
  | _ => True

abbrev Returns {α : Type} (x : DecodeM α) (d : Decoder) (Q : α → Decoder → Prop) : Prop :=
  Ends Error.Returned x d Q

structure Past (k : ℕ) (d d' : Decoder) : Prop where
  raw : d'.raw = d.raw
  r : d'.r.length + k ≤ d.r.length

variable {env : Env} {d d₁ d₂ : Decoder} {k l : ℕ}

theorem Past.trans (h : Past k d d₁) (h' : Past l d₁ d₂) : Past (k + l) d d₂ :=
  ⟨h'.raw.trans h.raw, by have := h.r; have := h'.r; omega⟩

theorem Past.le (h : Past k d d₁) (hl : l ≤ k) : Past l d d₁ := ⟨h.raw, by have := h.r; omega⟩

theorem past_advance {p r} (h : d.r = p ++ r) : Past p.length d (d.advance p r) := by
  refine ⟨rfl, ?_⟩
  rw [h, length_append]
  simp only [Decoder.advance]
  omega

/-! ## Reading -/

variable {β : Type} {f : UInt8 → EStateM Error Decoder β} {P : β → Decoder → Prop}

theorem ends_peekByte (h : ∀ b r, d.r = b :: r → Returns (f b) d P) :
    Returns (peekByte >>= f) d P := by
  cases hr : d.r with
  | nil =>
    rw [Returns, Ends, bind_of_error (by rw [peekByte, hr])]
    trivial
  | cons b r => exact (h b r hr).congr (bind_of_ok (by rw [peekByte, hr]))

theorem ends_readBytes (delim : UInt8) : Returns (readBytes delim) d fun _ => Past 1 d := by
  unfold Returns Ends readBytes
  cases hc : cut delim d.r with
  | none => trivial
  | some p =>
    have hpast : Past (p.1 ++ [delim]).length d (d.advance (p.1 ++ [delim]) p.2) :=
      past_advance (by rw [(cut_eq_some hc).2, append_assoc]; rfl)
    exact hpast.le (by simp)

theorem ends_readFull (n : ℕ) : Returns (readFull n) d fun _ => Past 0 d := by
  unfold Returns Ends readFull
  dsimp only
  split_ifs with hn hnil
  · have hpast : Past (d.r.take n).length d (d.advance (d.r.take n) (d.r.drop n)) :=
      past_advance (take_append_drop n d.r).symm
    exact ⟨rfl, (hpast.le zero_le).r⟩
  · trivial
  · trivial

theorem ends_readString : Returns readString d fun _ => Past 1 d := by
  refine (ends_readBytes (ch ':')).bind fun line d₁ h1 => ?_
  split
  · exact ends_throw trivial
  · dsimp only
    split_ifs
    · exact ends_throw trivial
    · exact (ends_readFull _).mono fun _ _ h => h1.trans h

theorem ends_readByte {b : UInt8} {r : Bytes} (h : d.r = b :: r)
    (hf : ∀ d', Past 1 d d' → Returns (f b) d' P) :
    Returns (readByte >>= f) d P := by
  have hread : readByte d = .ok b (d.advance [b] r) := by rw [readByte, h]
  rw [Returns, Ends, bind_of_ok hread]
  exact hf _ (past_advance (p := [b]) h)

theorem ends_consumeToken {b : UInt8} {r : Bytes} (h : d.r = b :: r) :
    Returns (consumeToken b) d fun _ => Past 1 d := by
  refine ends_readByte h fun d₁ h1 => ?_
  rw [if_neg (not_not.2 rfl)]
  exact ends_pure h1

theorem ends_readIntegerDigits {r : Bytes} (h : d.r = ch 'i' :: r) :
    Returns readIntegerDigits d fun _ => Past 1 d := by
  refine ends_readByte h fun d₁ h1 => ?_
  rw [if_neg (not_not.2 rfl)]
  refine (ends_readBytes (ch 'e')).bind fun line d₂ h2 => ends_get ?_
  have hpast : Past 1 d d₂ := (h1.trans h2).le (by omega)
  split_ifs
  · exact ends_pure hpast
  · exact ends_pure hpast

theorem ends_checkDictEnd : Returns checkDictEnd d fun b => Past (if b then 1 else 0) d := by
  refine ends_peekByte fun b r hr => ?_
  split_ifs
  · exact ends_readByte hr fun _ h => ends_pure h
  · exact ends_pure ⟨rfl, le_rfl⟩

theorem ends_lift {α : Type} {x : Except Error α} {Q : α → Decoder → Prop}
    (h : ∀ a, x = .ok a → Q a d) (he : ∀ e, x = .error e → e.Returned) :
    Returns (lift x) d Q := by
  cases x with
  | ok a => exact h a rfl
  | error e => exact he e rfl

theorem ends_processNextDictKey (last : Option Bytes) :
    Returns (processNextDictKey last) d fun _ => Past 1 d := by
  refine ends_readString.bind fun key d₁ h1 => ?_
  split
  · exact ends_pure h1
  · refine ends_get ?_
    split_ifs
    · exact ends_throw trivial
    · exact ends_pure h1

/-! ## Destinations -/

def GoType.isBase : GoType → Bool
  | .bool | .int _ | .uint _ | .string | .rawMessage => true
  | _ => false

def Unmarshals (env : Env) (name : String) : Prop :=
  ∃ u, (env.methods name).unmarshalBencode = some u ∧ ∀ old b e, u old b = .error e → e.Returned

inductive Dest (env : Env) : GoType → GoVal → Prop
  | fresh : Dest env .iface .nilIface
  | method {name : String} {u : GoType} {v : GoVal} (h : Unmarshals env name) :
      Dest env (.named name u) v
  | base {t : GoType} {v : GoVal} (hn : NoMethods env t) (ht : t.under.isBase = true)
      (hv : direct v = true) : Dest env t v
  | nilSlice {t e : GoType} (hn : NoMethods env t) (ht : t.under = .slice e)
      (hi : e.isIface = false) (he : Dest env e (zero e)) : Dest env t .nilSlice
  | slice {t e : GoType} {es sp : List GoVal} (hn : NoMethods env t) (ht : t.under = .slice e)
      (hi : e.isIface = false) (he : Dest env e (zero e)) (hes : ∀ x ∈ es, Dest env e x)
      (hsp : ∀ x ∈ sp, Dest env e x) : Dest env t (.slice es sp)
  | nilMap {t e : GoType} (hn : NoMethods env t) (ht : t.under = .map e)
      (he : Dest env e (zero e)) : Dest env t .nilMap
  | map {t e : GoType} (es : List (Bytes × GoVal)) (hn : NoMethods env t) (ht : t.under = .map e)
      (he : Dest env e (zero e)) : Dest env t (.map es)
  | struct {t : GoType} {fs : List (Field × GoType)} {vs : List GoVal} (hn : NoMethods env t)
      (ht : Flat env t fs)
      (hi : ∀ p ∈ fs, p.2.isIface = false)
      (h : ∀ (i : ℕ) f u v, fs[i]? = some (f, u) → vs[i]? = some v → Dest env u v) :
      Dest env t (.struct vs)

def Kept (env : Env) (t : GoType) (v : GoVal) : Prop := t.isIface = false → Dest env t v

variable {t e : GoType} {v : GoVal} {dec : RValue → DecodeM GoVal} {fuel : ℕ}

theorem ends_lift_bind {α β : Type} {x : Except Error α} {g : α → Except Error β}
    {Q : β → Decoder → Prop} (he : ∀ e, x = .error e → e.Returned)
    (hg : ∀ a, Returns (lift (g a)) d Q) : Returns (lift (x >>= g)) d Q := by
  cases x with
  | ok a => exact hg a
  | error e => exact he e rfl

theorem returned_parseInt64 {digits e} (h : parseInt64 digits = .error e) : e.Returned := by
  unfold parseInt64 at h
  split at h
  · cases h
  · cases h
    trivial

theorem returned_parseUint64 {digits e} (h : parseUint64 digits = .error e) : e.Returned := by
  unfold parseUint64 at h
  split at h
  · cases h
  · cases h
    trivial

theorem isIface_of_under (h : t.under = .iface) : t.isIface = true := by
  rw [GoType.isIface, h]

theorem ends_assignIntegerValue (digits : Bytes) :
    Returns (lift (assignIntegerValue (.mk t v true) digits)) d fun x d' =>
      (t.under ≠ .iface → t.under.isBase = true ∧ direct x = true) ∧ d' = d := by
  unfold assignIntegerValue
  dsimp only
  cases hu : t.under with
  | iface =>
    exact ends_lift_bind (fun _ => returned_parseInt64) fun _ =>
      ends_pure ⟨fun h => absurd rfl h, rfl⟩
  | int bits =>
    exact ends_lift_bind (fun _ => returned_parseInt64) fun _ => ends_pure ⟨fun _ => ⟨rfl, rfl⟩, rfl⟩
  | uint | bool =>
    exact ends_lift_bind (fun _ => returned_parseUint64) fun _ => ends_pure ⟨fun _ => ⟨rfl, rfl⟩, rfl⟩
  | _ => exact ends_throw trivial

theorem dest_bytesVal (b : Bytes) : Dest env (.slice (.uint 8)) (bytesVal b) := by
  refine .slice trivial rfl rfl (.base trivial rfl rfl) (fun x hx => ?_) fun x hx => nomatch hx
  obtain ⟨c, -, rfl⟩ := mem_map.1 hx
  exact .base trivial rfl rfl

theorem ends_assignString (hn : NoMethods env t) (buf : Bytes) :
    Returns (lift (assignString (.mk t v true) buf)) d fun x d' => Kept env t x ∧ d' = d := by
  unfold assignString
  dsimp only
  split
  · exact ends_pure ⟨fun _ => dest_bytesVal buf, rfl⟩
  · cases hu : t.under with
    | string => exact ends_pure ⟨fun _ => .base hn (by rw [hu]; rfl) rfl, rfl⟩
    | iface =>
      refine ends_pure ⟨fun hi => ?_, rfl⟩
      rw [isIface_of_under hu] at hi
      cases hi
    | _ => exact ends_throw trivial

/-! ## Lists -/

structure DecEnds (env : Env) (dec : RValue → DecodeM GoVal) (n : ℕ) : Prop where
  raw : ∀ {d}, d.raw = true → d.r.length < n → Returns (dec .invalid) d fun _ => Past 1 d
  rawMessage : ∀ {d}, d.raw = false → d.r.length < n →
    Returns (dec (.mk .rawMessage .nilSlice true)) d fun _ => Past 1 d
  value : ∀ {t v d}, Dest env t v → d.raw = false → d.r.length + 1 < n →
    Returns (dec (.mk t v true)) d fun x d' => Kept env t x ∧ Past 1 d d'

variable {n : ℕ}

theorem ends_rawList (hdec : DecEnds env dec n) (hraw : d.raw = true) (hn : d.r.length < n)
    (hf : d.r.length < fuel) :
    Returns (processListInRawMode dec fuel) d fun _ => Past 1 d := by
  induction fuel generalizing d with
  | zero => omega
  | succ fuel ih =>
    rw [processListInRawMode, peekByte_bind_end]
    refine ends_checkDictEnd.bind fun b d₁ h1 => ?_
    have hr1 := h1.r
    split_ifs with hb
    · exact ends_pure (h1.le (by rw [if_pos hb]))
    · refine (hdec.raw (h1.raw.trans hraw) (by omega)).bind fun _ d₂ h2 => ?_
      have hr2 := h2.r
      exact (ih (h2.raw.trans (h1.raw.trans hraw)) (by omega) (by omega)).mono fun _ _ h3 =>
        ((h1.trans h2).trans h3).le (by omega)

structure Elems (env : Env) (e : GoType) (i : ℕ) (s : List GoVal × List GoVal) : Prop where
  next : ∀ (j : ℕ) x, i ≤ j → s.1[j]? = some x → Dest env e x
  spare : ∀ x ∈ s.2, Dest env e x
  all : e.isIface = false → ∀ x ∈ s.1, Dest env e x

theorem Elems.append {i : ℕ} {s : List GoVal × List GoVal} {spare : List GoVal}
    (hs : Elems env e i s) (hi : ¬ i < s.1.length) (hspare : ∀ x ∈ spare, Dest env e x) :
    Elems env e i (s.1 ++ spare.take 1, spare.drop 1) := by
  refine ⟨fun j x hj hx => ?_, fun x hx => hspare x (mem_of_mem_drop hx), fun he x hx => ?_⟩
  · rw [getElem?_append_right (by omega)] at hx
    exact hspare x (mem_of_mem_take (mem_of_getElem? hx))
  · rcases mem_append.1 hx with hx | hx
    · exact hs.all he x hx
    · exact hspare x (mem_of_mem_take hx)

theorem Elems.set {i s x} (hs : Elems env e i s)
    (hx : Kept env e x) : Elems env e (i + 1) (s.1.set i x, s.2) := by
  refine ⟨fun j y hj hy => ?_, hs.spare, fun he y hy => ?_⟩
  · rw [getElem?_set_ne (by omega)] at hy
    exact hs.next j y (by omega) hy
  · rcases mem_or_eq_of_mem_set hy with hy | rfl
    · exact hs.all he y hy
    · exact hx he

theorem Elems.dest {i s} (hs : Elems env e i s)
    (he : Dest env e (zero e)) : Dest env e (s.1.getD i (zero e)) := by
  rw [getD_eq_getElem?_getD]
  cases h : s.1[i]? with
  | none => exact he
  | some x => exact hs.next i x le_rfl h

theorem ends_ensureSliceCapacity {i : ℕ} {s : List GoVal × List GoVal} (he : Dest env e (zero e))
    (hs : Elems env e i s) :
    Returns (lift (ensureSliceCapacity false e true i s)) d fun s' d' =>
      Elems env e i s' ∧ d' = d := by
  unfold ensureSliceCapacity
  dsimp only
  split_ifs with hi hc _ hc
  · exact ends_pure ⟨hs, rfl⟩
  · cases hc
  · cases hc
  · exact ends_pure ⟨hs.append hi hs.spare, rfl⟩
  · refine ends_pure ⟨hs.append hi fun x hx => ?_, rfl⟩
    rw [eq_of_mem_replicate hx]
    exact he

theorem ends_processListElements (hdec : DecEnds env dec n) (he : Dest env e (zero e)) {i s}
    (hs : Elems env e i s) (hraw : d.raw = false) (hn : d.r.length + 1 < n) (hf : d.r.length < fuel)
    :
    Returns (processListElements dec false e true fuel i s) d fun s' d' =>
      (∃ j, Elems env e j s') ∧ Past 1 d d' := by
  induction fuel generalizing d i s with
  | zero => omega
  | succ fuel ih =>
    rw [processListElements, peekByte_bind_end]
    refine ends_checkDictEnd.bind fun b d₁ h1 => ?_
    have hr1 := h1.r
    split_ifs with hb
    · exact ends_pure ⟨⟨i, hs⟩, h1.le (by rw [if_pos hb])⟩
    · refine (ends_ensureSliceCapacity he hs).bind fun s' d₂ h2 => ?_
      obtain ⟨hs', rfl⟩ := h2
      refine (hdec.value (hs'.dest he) (h1.raw.trans hraw) (by omega)).bind fun x d3 h3 => ?_
      have hr3 := h3.2.r
      exact (ih (hs'.set h3.1) (h3.2.raw.trans (h1.raw.trans hraw)) (by omega) (by omega)).mono
        fun _ _ h4 => ⟨h4.1, ((h1.trans h3.2).trans h4.2).le (by omega)⟩

theorem elems_nil (i : ℕ) : Elems env e i ([], []) :=
  ⟨fun _ _ _ h => (nomatch h), fun _ h => (nomatch h), fun _ _ h => (nomatch h)⟩

theorem not_unmarshals {name} {u : GoType} (hn : NoMethods env (.named name u)) :
    ¬ Unmarshals env name := by
  rintro ⟨f, hf, -⟩
  rw [NoMethods] at hn
  rw [hn] at hf
  cases hf

def View (env : Env) (t : GoType) (v : GoVal) : GoType → Prop
  | .slice e => e.isIface = false ∧ Dest env e (zero e) ∧ Elems env e 0 (elemsOf v)
  | .map e => Dest env e (zero e) ∧ (v = .nilMap ∨ ∃ es, v = .map es)
  | .struct fs => ∃ vs, v = .struct vs ∧ Flat env t fs ∧ (∀ p ∈ fs, p.2.isIface = false) ∧
      ∀ (i : ℕ) f u w, fs[i]? = some (f, u) → vs[i]? = some w → Dest env u w
  | .array _ _ | .ptr _ => False
  | _ => True

theorem Dest.view (hv : Dest env t v) (hn : NoMethods env t) : View env t v t.under := by
  cases hv with
  | fresh => trivial
  | method h => exact absurd h (not_unmarshals hn)
  | base _ ht =>
    cases hu : t.under with
    | slice | map | struct | array | ptr => rw [hu] at ht; cases ht
    | _ => trivial
  | nilSlice _ ht hi he =>
    rw [ht]
    exact ⟨hi, he, elems_nil 0⟩
  | slice _ ht hi he hes hsp =>
    rw [ht]
    exact ⟨hi, he, fun j x _ hx => hes x (mem_of_getElem? hx), hsp, fun _ => hes⟩
  | nilMap _ ht he =>
    rw [ht]
    exact ⟨he, .inl rfl⟩
  | map es _ ht he =>
    rw [ht]
    exact ⟨he, .inr ⟨es, rfl⟩⟩
  | struct _ ht hi h =>
    rw [ht.under]
    exact ⟨_, rfl, ht, hi, h⟩

theorem kept_iface (hu : t.under = .iface) (x : GoVal) : Kept env t x := by
  intro hi
  rw [isIface_of_under hu] at hi
  cases hi

theorem ends_decodeList (hdec : DecEnds env dec n) (hv : Dest env t v) (hn : NoMethods env t)
    (hraw : d.raw = false) {r : Bytes} (hr : d.r = ch 'l' :: r) (hlen : d.r.length < n) :
    Returns (decodeList dec n (.mk t v true)) d fun x d' => Kept env t x ∧ Past 1 d d' := by
  refine ends_get ?_
  rw [if_neg (by rw [hraw]; exact false_ne_true)]
  dsimp only
  split
  · rename_i hu
    refine (ends_consumeToken hr).bind fun _ d₁ h1 => ?_
    have hr1 := h1.r
    refine (ends_processListElements hdec .fresh (elems_nil 0) (h1.raw.trans hraw) (by omega)
      (by omega)).bind fun s d₂ h2 => ?_
    exact ends_pure ⟨kept_iface hu _, (h1.trans h2.2).le (by omega)⟩
  · rename_i e hu
    have hview := hv.view hn
    rw [hu] at hview
    obtain ⟨hi, he, helems⟩ := hview
    refine (ends_consumeToken hr).bind fun _ d₁ h1 => ?_
    have hr1 := h1.r
    refine (ends_processListElements hdec he helems (h1.raw.trans hraw) (by omega)
      (by omega)).bind fun s d₂ h2 => ?_
    obtain ⟨j, hs⟩ := h2.1
    refine ends_pure ⟨fun _ => ?_, (h1.trans h2.2).le (by omega)⟩
    unfold sliceAfter
    split_ifs
    · exact hv
    · exact .slice hn hu hi he (hs.all hi) hs.spare
  · rename_i hu
    have hview := hv.view hn
    rw [hu] at hview
    exact hview.elim
  · exact ends_throw trivial

/-! ## Dictionaries -/

theorem ends_decodeString_raw (hraw : d.raw = true) (w : RValue) :
    Returns (decodeString w) d fun _ => Past 1 d := by
  refine ends_readString.bind fun buf d₁ h1 => ends_get ?_
  rw [if_pos (h1.raw.trans hraw)]
  exact ends_pure h1

theorem ends_rawDict (hdec : DecEnds env dec n) (hraw : d.raw = true) (hn : d.r.length < n)
    (hf : d.r.length < fuel) :
    Returns (processDictInRawMode dec fuel) d fun _ => Past 1 d := by
  induction fuel generalizing d with
  | zero => omega
  | succ fuel ih =>
    rw [processDictInRawMode, peekByte_bind_end]
    refine ends_checkDictEnd.bind fun b d₁ h1 => ?_
    have hr1 := h1.r
    split_ifs with hb
    · exact ends_pure (h1.le (by rw [if_pos hb]))
    · refine (ends_decodeString_raw (h1.raw.trans hraw) _).bind fun _ d₂ h2 => ?_
      have hr2 := h2.r
      refine (hdec.raw (h2.raw.trans (h1.raw.trans hraw)) (by omega)).bind fun _ d3 h3 => ?_
      have hr3 := h3.r
      exact (ih (h3.raw.trans (h2.raw.trans (h1.raw.trans hraw))) (by omega) (by omega)).mono
        fun _ _ h4 => (((h1.trans h2).trans h3).trans h4).le (by omega)

inductive DictDest (env : Env) (t : GoType) : DictTarget → GoVal → Prop
  | map {e : GoType} (he : Dest env e (zero e)) (es : List (Bytes × GoVal)) :
      DictDest env t (.map e) (.map es)
  | struct {v : GoVal} (hv : Dest env t v) (hn : NoMethods env t) {fs : List (Field × GoType)}
      (hu : t.under = .struct fs) : DictDest env t (.struct (setStructValues env [] t)) v

theorem fieldAt_dest {fs : List (Field × GoType)} (hv : Dest env t v) (hn : NoMethods env t)
    (hu : t.under = .struct fs) {key path} {u : GoType} {w}
    (hkey : lookupField (setStructValues env [] t) key = some path)
    (hfield : fieldAt path t v = some (u, w)) :
    Dest env u w ∧ ∀ x, Kept env u x → Dest env t (setFieldAt x path v) := by
  have hview := hv.view hn
  rw [hu] at hview
  obtain ⟨vs, rfl, hflat, hi, hfields⟩ := hview
  obtain ⟨i, hpath, -⟩ := hflat.path _ (lookupField_mem hkey)
  cases hpath
  simp only [fieldAt, hu] at hfield
  split at hfield
  swap
  · cases hfield
  rename_i f u' w' hf hw
  cases hfield
  refine ⟨hfields i f _ _ hf hw, fun x hx => ?_⟩
  have hset : setFieldAt x [i] (.struct vs) = .struct (vs.set i x) := by
    simp only [setFieldAt, set_eq_modify]
  rw [hset]
  refine .struct hn hflat hi fun j f' u'' y hf' hy => ?_
  by_cases hij : i = j
  · subst hij
    rw [hf] at hf'
    cases hf'
    rw [List.getElem?_set_self (List.getElem?_eq_some_iff.1 hw).1] at hy
    cases hy
    exact hx (hi _ (mem_of_getElem? hf))
  · rw [List.getElem?_set_ne hij] at hy
    exact hfields j f' u'' y hf' hy

theorem ends_handleKeyValuePair (hdec : DecEnds env dec n) {tgt cur} (hcur : DictDest env t tgt cur)
    (key : Bytes) (hraw : d.raw = false) (hlen : d.r.length + 1 < n) :
    Returns (handleKeyValuePair dec tgt t true key cur) d fun x d' =>
      DictDest env t tgt x ∧ Past 1 d d' := by
  cases hcur with
  | map he es => exact (hdec.value he hraw hlen).bind fun x d₁ h1 => ends_pure ⟨.map he _, h1.2⟩
  | struct hv hn hu =>
    unfold handleKeyValuePair
    dsimp only
    split
    · rename_i path u w hsome
      obtain ⟨path', hkey, hfield⟩ := Option.bind_eq_some_iff.1 hsome
      obtain ⟨uw, hfield, heq⟩ := Option.map_eq_some_iff.1 hfield
      cases heq
      obtain ⟨hdest, hset⟩ := fieldAt_dest hv hn hu hkey hfield
      exact (hdec.value hdest hraw hlen).bind fun x d₁ h1 =>
        ends_pure ⟨.struct (hset x h1.1) hn hu, h1.2⟩
    · exact (hdec.value .fresh hraw hlen).bind fun x d₁ h1 => ends_pure ⟨.struct hv hn hu, h1.2⟩

theorem ends_processDictKeyValuePairs (hdec : DecEnds env dec n) {tgt cur}
    (hcur : DictDest env t tgt cur) (last : Option Bytes) (hraw : d.raw = false)
    (hlen : d.r.length + 1 < n) (hf : d.r.length < fuel) :
    Returns (processDictKeyValuePairs dec tgt t true fuel last cur) d fun x d' =>
      DictDest env t tgt x ∧ Past 1 d d' := by
  induction fuel generalizing d cur last with
  | zero => omega
  | succ fuel ih =>
    rw [processDictKeyValuePairs]
    refine ends_checkDictEnd.bind fun b d₁ h1 => ?_
    have hr1 := h1.r
    split_ifs with hb
    · exact ends_pure ⟨hcur, h1.le (by rw [if_pos hb])⟩
    · refine (ends_processNextDictKey last).bind fun key d₂ h2 => ?_
      have hr2 := h2.r
      refine (ends_handleKeyValuePair hdec hcur key (h2.raw.trans (h1.raw.trans hraw))
        (by omega)).bind fun x d3 h3 => ?_
      have hr3 := h3.2.r
      exact (ih h3.1 _ (h3.2.raw.trans (h2.raw.trans (h1.raw.trans hraw))) (by omega)
        (by omega)).mono fun _ _ h4 => ⟨h4.1, (((h1.trans h2).trans h3.2).trans h4.2).le (by omega)⟩

theorem ends_setupDictTarget (hv : Dest env t v) (hn : NoMethods env t) :
    Returns (lift (setupDictTarget env t v true)) d fun tc d' =>
      DictDest env t tc.1 tc.2 ∧ (∀ {x}, DictDest env t tc.1 x → Kept env t x) ∧ d' = d := by
  have hview := hv.view hn
  unfold setupDictTarget
  cases hu : t.under with
  | map e =>
    rw [hu] at hview
    obtain ⟨he, hmap⟩ := hview
    have hkept : ∀ {x}, DictDest env t (.map e) x → Kept env t x := by
      intro x hx _
      cases hx with
      | map _ es => exact .map es hn hu he
    rcases hmap with rfl | ⟨es, rfl⟩
    · exact ends_pure ⟨.map he [], hkept, rfl⟩
    · exact ends_pure ⟨.map he es, hkept, rfl⟩
  | struct fs =>
    refine ends_pure ⟨.struct hv hn hu, fun {x} hx _ => ?_, rfl⟩
    cases hx with
    | struct hx => exact hx
  | _ => exact ends_throw trivial

theorem ends_decodeDict (hdec : DecEnds env dec n) (hv : Dest env t v) (hn : NoMethods env t)
    (hraw : d.raw = false) {r : Bytes} (hr : d.r = ch 'd' :: r) (hlen : d.r.length < n) :
    Returns (decodeDict env dec n (.mk t v true)) d fun x d' => Kept env t x ∧ Past 1 d d' := by
  refine ends_get ?_
  rw [if_neg (by rw [hraw]; exact false_ne_true)]
  refine (ends_consumeToken hr).bind fun _ d₁ h1 => ?_
  have hr1 := h1.r
  split_ifs with hi
  · refine (ends_processDictKeyValuePairs hdec (.map .fresh []) none (h1.raw.trans hraw) (by omega)
      (by omega)).bind fun x d₂ h2 => ends_pure ⟨fun hi' => ?_, (h1.trans h2.2).le (by omega)⟩
    rw [hi] at hi'
    cases hi'
  · refine (ends_setupDictTarget hv hn).bind fun tc d₂ h2 => ?_
    obtain ⟨htc, hkept, rfl⟩ := h2
    exact (ends_processDictKeyValuePairs hdec htc none (h1.raw.trans hraw) (by omega)
      (by omega)).mono fun x _ h3 => ⟨hkept h3.1, (h1.trans h3.2).le (by omega)⟩

/-! ## The decoder -/

theorem ends_dispatch_raw (hdec : DecEnds env dec n) (hraw : d.raw = true) (hlen : d.r.length ≤ n) :
    Returns (dispatchDecodeByType env dec n .invalid) d fun _ => Past 1 d := by
  refine ends_peekByte fun b r hr => ?_
  split_ifs with hi hs hl hd
  · subst hi
    exact (ends_readIntegerDigits hr).bind fun _ d₂ h2 => ends_pure h2
  · exact ends_decodeString_raw hraw _
  · subst hl
    refine ends_get ?_
    rw [if_pos hraw]
    refine (ends_consumeToken hr).bind fun _ d₂ h2 => ?_
    have hr2 := h2.r
    exact (ends_rawList hdec (h2.raw.trans hraw) (by omega) (by omega)).mono fun _ _ h3 =>
      (h2.trans h3).le (by omega)
  · subst hd
    refine ends_get ?_
    rw [if_pos hraw]
    refine (ends_consumeToken hr).bind fun _ d₂ h2 => ?_
    have hr2 := h2.r
    exact (ends_rawDict hdec (h2.raw.trans hraw) (by omega) (by omega)).mono fun _ _ h3 =>
      (h2.trans h3).le (by omega)
  · exact ends_throw trivial

theorem ends_decodeRaw (hdec : DecEnds env dec n) (hraw : d.raw = false) (hlen : d.r.length ≤ n) :
    Returns (decodeRaw env dec n) d fun _ => Past 1 d := by
  have hends : Returns (dispatchDecodeByType env dec n .invalid)
      { d with buf := [], raw := true } fun _ => Past 1 { d with buf := [], raw := true } :=
    ends_dispatch_raw hdec rfl hlen
  unfold Returns Ends at hends ⊢
  unfold decodeRaw
  cases hx : dispatchDecodeByType env dec n .invalid { d with buf := [], raw := true } with
  | ok x d' =>
    rw [hx] at hends
    exact ⟨hraw.symm, hends.r⟩
  | error e d' =>
    rw [hx] at hends
    exact hends

theorem ends_dispatch (hdec : DecEnds env dec n) (hv : Dest env t v) (hn : NoMethods env t)
    (hraw : d.raw = false) (hlen : d.r.length < n) :
    Returns (dispatchDecodeByType env dec n (.mk t v true)) d fun x d' =>
      Kept env t x ∧ Past 1 d d' := by
  refine ends_peekByte fun b r hr => ?_
  split_ifs with hi hs hl hd
  · subst hi
    refine (ends_readIntegerDigits hr).bind fun digits d₂ h2 => ?_
    refine (ends_assignIntegerValue digits).mono fun x d3 h3 => ⟨fun hi => ?_, h3.2 ▸ h2⟩
    obtain ⟨hbase, hx⟩ := h3.1 fun hu => by rw [isIface_of_under hu] at hi; cases hi
    exact .base hn hbase hx
  · refine ends_readString.bind fun buf d₂ h2 => ends_get ?_
    rw [if_neg (by rw [h2.raw, hraw]; exact false_ne_true)]
    exact (ends_assignString hn buf).mono fun x d3 h3 => ⟨h3.1, h3.2 ▸ h2⟩
  · subst hl
    exact ends_decodeList hdec hv hn hraw hr hlen
  · subst hd
    exact ends_decodeDict hdec hv hn hraw hr hlen
  · exact ends_throw trivial

theorem ends_decodeInto_rawMessage (hdec : DecEnds env (decodeInto env fuel) fuel)
    (hraw : d.raw = false) (hlen : d.r.length ≤ fuel) (old : GoVal) (hold : direct old = true) :
    Returns (decodeInto env (fuel + 1) (.mk .rawMessage old true)) d fun x d' =>
      direct x = true ∧ Past 1 d d' := by
  have hn : NoMethods env .rawMessage := trivial
  refine Ends.congr (decodeInto_of_not_raw hraw) ?_
  rw [indirect_noMethods hn hold]
  exact (ends_decodeRaw hdec hraw hlen).bind fun y d₁ h1 => ends_pure ⟨rfl, h1⟩

theorem ends_decodeInto_method (hdec : DecEnds env (decodeInto env fuel) fuel)
    (hraw : d.raw = false) (hlen : d.r.length < fuel) {name : String} (h : Unmarshals env name)
    (u : GoType) (v : GoVal) :
    Returns (decodeInto env (fuel + 1) (.mk (.named name u) v true)) d fun _ => Past 1 d := by
  obtain ⟨f, hf, herr⟩ := h
  have hind : indirect env (.named name u) v true = ⟨.unmarshaler f v, id⟩ := by
    have hc : checkUnmarshalers env (.named name u) v = some (.unmarshaler f v) := by
      simp only [checkUnmarshalers, hf]
    rw [indirect.eq_def, if_pos rfl, hc]
  refine Ends.congr (decodeInto_of_not_raw hraw) ?_
  rw [hind]
  refine (hdec.rawMessage hraw hlen).bind fun y d₁ h1 => ?_
  exact Ends.bind (Q := fun _ d' => d' = d₁) (ends_lift (fun _ _ => rfl) (herr v _)) fun x d₂ h2 =>
    ends_pure (h2 ▸ h1)

theorem ends_decodeInto_value (hdec : DecEnds env (decodeInto env fuel) fuel) (hv : Dest env t v)
    (hn : NoMethods env t) (hind : indirect env t v true = ⟨.value (.mk t v true), id⟩)
    (hraw : d.raw = false) (hlen : d.r.length < fuel) (ht : t ≠ .rawMessage) :
    Returns (decodeInto env (fuel + 1) (.mk t v true)) d fun x d' =>
      Kept env t x ∧ Past 1 d d' := by
  refine Ends.congr (decodeInto_of_not_raw hraw) ?_
  rw [hind]
  have hends := ends_dispatch hdec hv hn hraw hlen
  cases t with
  | rawMessage => exact absurd rfl ht
  | _ => exact hends.bind fun x d₁ h1 => ends_pure h1

theorem Dest.indirect (hv : Dest env t v) (hn : NoMethods env t) :
    indirect env t v true = ⟨.value (.mk t v true), id⟩ := by
  cases hv with
  | fresh => rfl
  | method h => exact absurd h (not_unmarshals hn)
  | base _ _ hd => exact indirect_noMethods hn hd
  | _ => exact indirect_noMethods hn rfl

theorem noMethods_or (hv : Dest env t v) :
    (∃ name u, t = .named name u ∧ Unmarshals env name) ∨ NoMethods env t := by
  cases hv with
  | fresh => exact .inr trivial
  | method h => exact .inl ⟨_, _, rfl, h⟩
  | base hn | nilSlice hn | slice hn | nilMap hn | map _ hn | struct hn => exact .inr hn

theorem decEnds_decodeInto (env : Env) : ∀ fuel, DecEnds env (decodeInto env fuel) fuel
  | 0 => ⟨fun _ h => (nomatch h), fun _ h => (nomatch h), fun _ _ h => (nomatch h)⟩
  | fuel + 1 => by
    have ih := decEnds_decodeInto env fuel
    refine ⟨fun {d} hraw hlen => ?_, fun {d} hraw hlen => ?_, fun {t v d} hv hraw hlen => ?_⟩
    · refine Ends.congr (decodeInto_of_raw hraw) ?_
      exact ends_dispatch_raw ih hraw (by omega)
    · exact (ends_decodeInto_rawMessage ih hraw (by omega) .nilSlice rfl).mono fun _ _ h => h.2
    · rcases noMethods_or hv with ⟨name, u, rfl, h⟩ | hn
      · exact (ends_decodeInto_method ih hraw (by omega) h u v).mono fun x _ hx =>
          ⟨fun _ => .method h, hx⟩
      · by_cases ht : t = .rawMessage
        · subst ht
          have hd : direct v = true := by
            cases hv with
            | base _ _ hd => exact hd
            | _ => rfl
          exact (ends_decodeInto_rawMessage ih hraw (by omega) v hd).mono fun x _ hx =>
            ⟨fun _ => .base trivial rfl hx.1, hx.2⟩
        · exact ends_decodeInto_value ih hv hn (hv.indirect hn) hraw (by omega) ht

theorem decode_ends (hv : Dest env t v) (hraw : d.raw = false) :
    Returns (Decode env t v) d fun x _ => Kept env t x :=
  ((decEnds_decodeInto env (d.r.length + 2)).value hv hraw (by omega)).mono fun _ _ h => h.1

theorem decodeInto_ptr (hraw : d.raw = false) (t : GoType) (v : GoVal) (fuel : ℕ) :
    decodeInto env (fuel + 1) (.mk (.ptr t) (.ptr v) true) d =
      (decodeInto env (fuel + 1) (.mk t v true) >>= fun x => pure (.ptr x)) d := by
  have hind : indirect env (.ptr t) (.ptr v) true = (indirect env t v true).map .ptr := by
    rw [indirect.eq_def, if_pos rfl]
    rfl
  rw [decodeInto_of_not_raw hraw, hind, bind_congr_apply (decodeInto_of_not_raw hraw)]
  generalize indirect env t v true = res
  obtain ⟨target, put⟩ := res
  cases target with
  | panic => rfl
  | unmarshaler | textUnmarshaler => simp only [Resolved.map, bind_assoc, pure_bind]
  | value w =>
    cases w with
    | invalid => simp only [Resolved.map, bind_assoc, pure_bind]
    | mk u x addr => cases u <;> simp only [Resolved.map, bind_assoc, pure_bind]

theorem decode_ptr (hraw : d.raw = false) (t : GoType) (v : GoVal) :
    Decode env (.ptr t) (.ptr v) d = (Decode env t v >>= fun x => pure (.ptr x)) d :=
  decodeInto_ptr hraw t v _

end GoI2pBt.Bencode
