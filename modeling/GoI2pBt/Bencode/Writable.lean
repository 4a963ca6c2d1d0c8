/-
  Values that the encoder accepts.
-/
import GoI2pBt.Bencode.Codec

namespace GoI2pBt.Bencode

open List

variable {env : Env} {t e : GoType} {v : GoVal}

variable {ps : List (Bytes × Except Error Bytes)} {fs : List (Field × GoType)} {vs : List GoVal}
  {x : Except Error Bytes} {addr : Bool} {name : String}

def Ok (x : Except Error Bytes) : Prop := ∃ b, x = .ok b

def Writable (env : Env) (t : GoType) (v : GoVal) : Prop :=
  ∀ addr, Ok (encodeFrom env true true t addr v)

theorem Codec.writable {x back} (h : Codec env t v x back) : Writable env t v :=
  fun addr => ⟨x.bytes, h.writes addr⟩

theorem ok_map {g} : Ok (x.map g) ↔ Ok x := by
  cases x with
  | error err => exact iff_of_false (fun ⟨b, h⟩ => nomatch h) fun ⟨b, h⟩ => nomatch h
  | ok b => exact iff_of_true ⟨_, rfl⟩ ⟨_, rfl⟩

theorem ok_bind {g} : Ok (x >>= g) ↔ ∃ b, x = .ok b ∧ Ok (g b) := by
  cases x with
  | error err => exact iff_of_false (fun ⟨b, h⟩ => nomatch h) fun ⟨b, h, _⟩ => nomatch h
  | ok b =>
    refine ⟨fun h => ⟨b, rfl, h⟩, ?_⟩
    rintro ⟨b', hb', h⟩
    cases hb'
    exact h

/-! ## Strings and lists -/

theorem writable_str (h : NoMethods env t) (s : Bytes) : Writable env t (.str s) := by
  intro addr
  rw [encodeFrom, findMarshaler_noMethods h rfl]
  exact ⟨_, rfl⟩

theorem writable_bytesGo (isNil : Bool) (b : Bytes) :
    Writable env (.slice (.uint 8)) (bytesGo isNil b) := by
  intro addr
  unfold bytesGo sliceVal
  split_ifs
  · rw [encodeFrom, findMarshaler_noMethods (t := .slice (.uint 8)) trivial rfl]
    exact ⟨_, rfl⟩
  · rw [encodeFrom, findMarshaler_noMethods (t := .slice (.uint 8)) trivial rfl]
    exact ⟨_, rfl⟩

theorem ok_encodeElems :
    Ok (encodeElems env e addr vs) ↔ ∀ v ∈ vs, Ok (encodeFrom env true true e addr v) := by
  induction vs with
  | nil => exact iff_of_true ⟨_, rfl⟩ fun _ hv => nomatch hv
  | cons v vs ih =>
    rw [encodeElems, ok_bind, forall_mem_cons, ← ih]
    constructor
    · rintro ⟨b, hb, h⟩
      obtain ⟨b', hb', -⟩ := ok_bind.1 h
      exact ⟨⟨b, hb⟩, ⟨b', hb'⟩⟩
    · rintro ⟨⟨b, hb⟩, ⟨b', hb'⟩⟩
      exact ⟨b, hb, ok_bind.2 ⟨b', hb', ⟨_, rfl⟩⟩⟩

theorem ok_slice (ht : t.under = .slice e) (hn : NoMethods env t) (hb : t.isBytes = false) {vs sp} :
    Ok (encodeFrom env true true t addr (.slice vs sp)) ↔
      ∀ v ∈ vs, Ok (encodeFrom env true true e true v) := by
  have he : t.elem = e := by rw [GoType.elem, ht]
  rw [encodeFrom, findMarshaler_noMethods hn rfl, notRaw ht nofun, hb, he, ← ok_encodeElems]
  exact ok_map

theorem writable_sliceVal (ht : t.under = .slice e) (hn : NoMethods env t) (hb : t.isBytes = false)
    (isNil : Bool) (h : ∀ v ∈ vs, Writable env e v) :
    Writable env t (sliceVal isNil vs) := by
  intro addr
  unfold sliceVal
  split_ifs
  · rw [encodeFrom, findMarshaler_noMethods hn rfl, notRaw ht nofun, hb]
    exact ⟨_, rfl⟩
  · exact (ok_slice ht hn hb).2 fun v hv => h v hv true

/-! ## Structs -/

theorem ok_writePairs : Ok (writePairs ps) ↔ ∀ q ∈ ps, Ok q.2 := by
  induction ps with
  | nil => exact iff_of_true ⟨_, rfl⟩ fun _ hq => nomatch hq
  | cons q ps ih =>
    obtain ⟨k, x⟩ := q
    rw [writePairs, ok_bind, forall_mem_cons, ← ih]
    constructor
    · rintro ⟨b, hb, h⟩
      obtain ⟨b', hb', -⟩ := ok_bind.1 h
      exact ⟨⟨b, hb⟩, ⟨b', hb'⟩⟩
    · rintro ⟨⟨b, hb⟩, ⟨b', hb'⟩⟩
      exact ⟨b, hb, ok_bind.2 ⟨b', hb', ⟨_, rfl⟩⟩⟩

theorem ok_writeDict : Ok (writeDict env ps) ↔ ∀ q ∈ ps, Ok q.2 := by
  have hperm := env.sort_perm ps
  rw [writeDict, ok_bind]
  constructor
  · rintro ⟨b, hb, -⟩ q hq
    exact ok_writePairs.1 ⟨b, hb⟩ q (hperm.mem_iff.2 hq)
  · intro h
    obtain ⟨b, hb⟩ := ok_writePairs.2 fun q hq => h q (hperm.mem_iff.1 hq)
    exact ⟨b, hb, ⟨_, rfl⟩⟩

theorem ok_struct (henv : env.methods name = {}) :
    Ok (encodeFrom env true true (.named name (.struct fs)) addr (.struct vs)) ↔
      ∀ q ∈ readStruct env addr fs vs, Ok q.2 := by
  have hm : findMarshaler env (.named name (.struct fs)) addr (.struct vs) = none :=
    findMarshaler_noMethods (t := .named name (.struct fs)) henv rfl addr
  rw [encodeFrom, hm, ← ok_writeDict]
  rfl

theorem readStruct_writable
    (h : Forall₂ (fun f v => f.1.anonymous = false ∧ Writable env f.2 v) fs vs) :
    ∀ q ∈ readStruct env addr fs vs, Ok q.2 := by
  induction h with
  | nil => exact fun _ hq => nomatch hq
  | @cons f v fs vs hf _ ih =>
    obtain ⟨field, t⟩ := f
    intro q hq
    rw [readStruct_cons, mem_append] at hq
    rcases hq with hq | hq
    · have hembed : shouldEmbedAnonymousStruct field t = false := by
        rw [shouldEmbedAnonymousStruct, hf.1]
        rfl
      rw [fieldEntry.eq_def, hembed] at hq
      by_cases hskip : (!field.exported || isNilValue v) = true
      · rw [if_pos hskip] at hq
        cases hq
      · rw [if_neg hskip] at hq
        cases htag : processFieldTag env field v with
        | none =>
          rw [htag] at hq
          cases hq
        | some rkey =>
          rw [htag] at hq
          rw [mem_singleton.1 hq]
          exact hf.2 addr
    · exact ih q hq

theorem writable_struct (henv : env.methods name = {})
    (h : Forall₂ (fun f v => f.1.anonymous = false ∧ Writable env f.2 v) fs vs) :
    Writable env (.named name (.struct fs)) (.struct vs) :=
  fun _ => (ok_struct henv).2 (readStruct_writable h)

theorem not_writable_struct (henv : env.methods name = {}) {fs fs' : List (Field × GoType)}
    {vs vs' goName tag field opt} (htag : tagIs tag field opt) (hlen : fs.length = vs.length)
    (hv : isNilValue v = false) (hne : ¬ (opt = true ∧ isEmptyValue v = true))
    (h : ∀ addr, ¬ Ok (encodeFrom env true true t addr v)) (addr : Bool) :
    ¬ Ok (encodeFrom env true true
      (.named name (.struct (fs ++ (tagged goName tag, t) :: fs'))) addr
      (.struct (vs ++ v :: vs'))) := by
  have hmem : (keyBytes field, encodeFrom env true true t addr v) ∈
      readStruct env addr (fs ++ (tagged goName tag, t) :: fs') (vs ++ v :: vs') := by
    induction fs generalizing vs with
    | nil =>
      cases length_eq_zero_iff.1 hlen.symm
      rw [nil_append, nil_append, readStruct_cons, fieldEntry_tagged htag hv, if_neg hne]
      exact mem_cons_self
    | cons f fs ih =>
      cases vs with
      | nil => cases hlen
      | cons w vs =>
        rw [cons_append, cons_append, readStruct_cons]
        exact mem_append_right _ (ih (Nat.succ.inj hlen))
  intro hok
  exact h addr ((ok_struct henv).1 hok _ hmem)

end GoI2pBt.Bencode
