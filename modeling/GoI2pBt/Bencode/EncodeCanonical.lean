/-
  When the output of the encoder is canonical: which values it writes as one bencode value with
  strictly increasing keys, each with its value.
-/
import GoI2pBt.Bencode.Canonical

namespace GoI2pBt.Bencode

open List

variable {env : Env}

variable {dict : List (Bytes × Except Error Bytes)} {out : Bytes} {v : GoVal} {t : GoType}
  {reg : Prop}

/-! ## The parts of a value -/

/-- The keys that `readStruct` writes, with the types and values of their fields. -/
def fieldEntries (env : Env) : List (Field × GoType) → List GoVal → List (Bytes × GoType × GoVal)
  | (f, t) :: fs, v :: vs =>
    (if !f.exported || isNilValue v then []
      else match processFieldTag env f v with
      | none => []
      | some rkey =>
        if shouldEmbedAnonymousStruct f t then
          match v with
          | .struct ws => fieldEntries env t.fields ws
          | _ => []
        else [(keyBytes rkey, t, v)]) ++ fieldEntries env fs vs
  | _, _ => []
termination_by _ vs => sizeOf vs

/-- The entries that are written for a map or a struct. -/
def entries (env : Env) (t : GoType) : GoVal → List (Bytes × GoType × GoVal)
  | .map es => (es.filter fun p => !isNilValue p.2).map fun p => (p.1, t.elem, p.2)
  | .struct vs => fieldEntries env t.fields vs
  | _ => []

/-- The values that are written inside a value. -/
def parts (env : Env) (t : GoType) : GoVal → List (GoType × GoVal)
  | .ptr v => [(t.elem, v)]
  | .iface t' v => [(t', v)]
  | .slice es _ | .array es => es.map fun v => (t.elem, v)
  | v => (entries env t v).map Prod.snd

/-- `P` holds of a value and of all that is written inside it. -/
inductive Everywhere (env : Env) (P : GoType → GoVal → Prop) : GoType → GoVal → Prop
  | mk {t : GoType} {v : GoVal} (h : P t v)
      (hparts : ∀ q ∈ parts env t v, Everywhere env P q.1 q.2) : Everywhere env P t v

theorem everywhere_iff {P} : Everywhere env P t v ↔
    P t v ∧ ∀ q ∈ parts env t v, Everywhere env P q.1 q.2 :=
  ⟨fun ⟨h, hparts⟩ => ⟨h, hparts⟩, fun h => ⟨h.1, h.2⟩⟩

def leadsToNil : GoVal → Bool
  | .nilPtr | .nilIface => true
  | .ptr v => leadsToNil v
  | .iface _ v => leadsToNil v
  | _ => false

/-- Every dictionary has distinct keys, and every entry of it has a value. -/
def Regular (env : Env) : GoType → GoVal → Prop := Everywhere env fun t v =>
  ((entries env t v).map Prod.fst).Nodup ∧ ∀ p ∈ entries env t v, leadsToNil p.2.2 = false

/-- No dictionary has two entries without a value. -/
def Sparse (env : Env) : GoType → GoVal → Prop := Everywhere env fun t v =>
  (entries env t v).countP (leadsToNil ·.2.2) ≤ 1

/-! ## Values without marshalers -/

def NoMarshal (env : Env) : GoType → Prop
  | .named n _ => (env.methods n).marshalBencode = none ∧ (env.methods n).marshalText = none
  | .ptr t => NoMarshal env t
  | _ => True

/-- No type has a marshaler, and every `RawMessage` holds one canonical value. -/
def Plain (env : Env) : GoType → GoVal → Prop := Everywhere env fun t v =>
  NoMarshal env t ∧ (t = .rawMessage → IsCanonical (valBytes v)) ∧
    (t = .rawMessage ∨ t = .slice (.uint 8) → ∀ x ∈ (elemsOf v).1, ∃ n, x = .uint n)

theorem Everywhere.part {P} (h : Everywhere env P t v) {q} (hq : q ∈ parts env t v) :
    Everywhere env P q.1 q.2 := (everywhere_iff.1 h).2 q hq

theorem Plain.noMarshal (h : Plain env t v) : NoMarshal env t := (everywhere_iff.1 h).1.1

theorem callMarshaler_none {name ptr}
    (h : NoMarshal env (.named name t)) : callMarshaler (env.methods name) ptr v = none := by
  simp [callMarshaler, h.1, h.2, usable]

theorem findMarshaler_none {addr} (h : Plain env t v) : findMarshaler env t addr v = none := by
  have hpart : ∀ q ∈ parts env t v, NoMarshal env q.1 := fun q hq =>
    Plain.noMarshal (Everywhere.part h hq)
  unfold findMarshaler
  split
  · rfl
  · split
    · next hu =>
      have := hpart _ (mem_singleton_self _)
      rw [GoType.elem, hu] at this
      exact callMarshaler_none this
    · rfl
  · exact callMarshaler_none (hpart _ (mem_singleton_self _))
  · next under _ => exact callMarshaler_none (t := under) (hpart _ (mem_singleton_self _))
  · next under => rw [callMarshaler_none (t := under) (hpart _ (mem_singleton_self _))]; rfl
  · split
    · exact callMarshaler_none h.noMarshal
    · rfl

theorem orMarshaler_none (checks : Bool) (k : Except Error Bytes) :
    orMarshaler checks none k = k := rfl

/-! ## Dictionaries -/

def written (dict : List (Bytes × Except Error Bytes)) : List Bytes :=
  dict.flatMap fun p => encodeStr p.1 :: match p.2 with
    | .ok b => if b = [] then [] else [b]
    | .error _ => []

theorem writePairs_eq_ok {ps} (h : writePairs ps = .ok out) :
    (∀ p ∈ ps, ∃ b, p.2 = .ok b) ∧ out = (written ps).flatten := by
  induction ps generalizing out with
  | nil => cases h; exact ⟨by simp, rfl⟩
  | cons p ps ih =>
    obtain ⟨k, x⟩ := p
    simp only [writePairs, except_bind_eq_ok] at h
    obtain ⟨b, rfl, rest, hrest, h⟩ := h
    cases h
    obtain ⟨hall, rfl⟩ := ih hrest
    refine ⟨by simpa using hall, ?_⟩
    by_cases hb : b = [] <;> simp [written, hb]

theorem writeDict_isCanonical
    (hn : ∀ p ∈ dict, ∀ b, p.2 = .ok b → b = [] ∨ IsNode b) (h : writeDict env dict = .ok out) :
    (∀ p ∈ dict, ∃ b, p.2 = .ok b) ∧ IsNode out ∧
      (IsCanonical out ↔ Paired none (written (env.sort dict)) ∧
        ∀ p ∈ dict, ∀ b, p.2 = .ok b → b = [] ∨ IsCanonical b) := by
  simp only [writeDict, except_bind_eq_ok] at h
  obtain ⟨body, hbody, h⟩ := h
  cases h
  obtain ⟨hok, rfl⟩ := writePairs_eq_ok hbody
  have hperm : ∀ p, p ∈ env.sort dict ↔ p ∈ dict := fun p => (env.sort_perm dict).mem_iff
  have hmem : ∀ b, b ∈ written (env.sort dict) ↔
      ∃ p ∈ dict, b = encodeStr p.1 ∨ (p.2 = .ok b ∧ b ≠ []) := by
    intro b
    simp only [written, mem_flatMap, mem_cons, hperm]
    refine exists_congr fun p => and_congr_right fun _ => or_congr_right ?_
    cases p.2 with
    | error e => simp
    | ok c =>
      by_cases hc : c = []
      · simp only [hc, if_true, not_mem_nil, Except.ok.injEq, false_iff]
        exact fun ⟨h, hne⟩ => hne h.symm
      · simp only [hc, if_false, mem_singleton, Except.ok.injEq]
        exact ⟨fun h => ⟨h.symm, h ▸ hc⟩, fun h => h.1.symm⟩
  have hnode : ∀ b ∈ written (env.sort dict), IsNode b := by
    intro b hb
    obtain ⟨p, hp, rfl | ⟨hok, hne⟩⟩ := (hmem b).1 hb
    · exact (isCanonical_str p.1).isNode
    · exact (hn p hp b hok).resolve_left hne
  refine ⟨fun p hp => hok p ((hperm p).2 hp), isNode_dict hnode,
    (isCanonical_dict _ hnode).trans (and_congr_right fun _ => ?_)⟩
  constructor
  · intro hall p hp b hok
    by_cases hne : b = []
    · exact .inl hne
    · exact .inr (hall b ((hmem b).2 ⟨p, hp, .inr ⟨hok, hne⟩⟩))
  · intro hall b hb
    obtain ⟨p, hp, rfl | ⟨hok, hne⟩⟩ := (hmem b).1 hb
    · exact isCanonical_str p.1
    · exact (hall p hp b hok).resolve_left hne

theorem written_cons {k b} (hb : b ≠ []) :
    written ((k, .ok b) :: dict) = encodeStr k :: b :: written dict := by
  simp [written, hb]

theorem paired_written_iff {last} (hok : ∀ p ∈ dict, ∃ b, p.2 = .ok b ∧ b ≠ []) :
    Paired last (written dict) ↔ KeysLt dict ∧ ∀ l ∈ last, ∀ p ∈ dict, l < p.1 := by
  induction dict generalizing last with
  | nil => simp [written, Paired, KeysLt]
  | cons p dict ih =>
    obtain ⟨k, x⟩ := p
    obtain ⟨⟨b, rfl, hne⟩, hrest⟩ := forall_mem_cons.1 hok
    rw [written_cons hne, Paired, KeysLt, pairwise_cons]
    simp only [encodeStr_injective.eq_iff, exists_eq_left', ih hrest, forall_mem_cons]
    constructor
    · rintro ⟨hl, hk, hlast⟩
      exact ⟨⟨fun p hp => hlast k rfl p hp, hk⟩, fun l h => ⟨hl l h, fun p hp =>
        List.lt_trans (hl l h) (hlast k rfl p hp)⟩⟩
    · rintro ⟨⟨hk, hrest⟩, hl⟩
      refine ⟨fun l h => (hl l h).1, hrest, fun l h => ?_⟩
      cases h
      exact hk

theorem keysLt_sort_iff : KeysLt (env.sort dict) ↔ (dict.map Prod.fst).Nodup := by
  have hp := (env.sort_perm dict).map Prod.fst
  refine ⟨fun h => hp.nodup_iff.1 h.nodup, fun h => ?_⟩
  have hnd : (env.sort dict).Pairwise fun a b => a.1 ≠ b.1 :=
    List.pairwise_map.1 (hp.nodup_iff.2 h)
  refine (hnd.and (env.sort_sorted dict)).imp fun h => ?_
  by_contra hn
  exact h.1 (List.le_antisymm h.2 hn)

/-- An entry of which only the key is written. -/
def blank (p : Bytes × Except Error Bytes) : Bool := p.2 matches .ok []

theorem length_written (hok : ∀ p ∈ dict, ∃ b, p.2 = .ok b) :
    (written dict).length + dict.countP blank = 2 * dict.length := by
  induction dict with
  | nil => rfl
  | cons p dict ih =>
    obtain ⟨k, x⟩ := p
    obtain ⟨⟨b, rfl⟩, hrest⟩ := forall_mem_cons.1 hok
    have := ih hrest
    cases b with
    | nil =>
      rw [countP_cons_of_pos rfl]
      simp [written] at this ⊢
      omega
    | cons c b =>
      rw [written_cons (cons_ne_nil c b), countP_cons_of_neg (by simp [blank])]
      simp only [length_cons]
      omega

theorem Paired.even : ∀ {last : Option Bytes} {items : List Bytes}, Paired last items →
    items.length % 2 = 0
  | _, [], _ => rfl
  | _, [_], h => h.elim
  | _, _ :: _ :: rest, ⟨_, _, _, h⟩ => by
    have := h.even
    simp only [length_cons]
    omega

-- with one key alone the number of texts is odd
theorem paired_sort_iff (hok : ∀ p ∈ dict, ∃ b, p.2 = .ok b) (hc : dict.countP blank ≤ 1) :
    Paired none (written (env.sort dict)) ↔
      (dict.map Prod.fst).Nodup ∧ ∀ p ∈ dict, p.2 ≠ .ok [] := by
  have hperm := env.sort_perm dict
  have hok' : ∀ p ∈ env.sort dict, ∃ b, p.2 = .ok b := fun p hp => hok p (hperm.mem_iff.1 hp)
  have hfull : (∀ p ∈ dict, p.2 ≠ .ok []) → (Paired none (written (env.sort dict)) ↔
      (dict.map Prod.fst).Nodup) := by
    intro h
    rw [paired_written_iff, keysLt_sort_iff]
    · simp
    · intro p hp
      obtain ⟨b, hb⟩ := hok' p hp
      exact ⟨b, hb, fun hnil => h p (hperm.mem_iff.1 hp) (hnil ▸ hb)⟩
  refine ⟨fun h => ?_, fun h => (hfull h.2).2 h.1⟩
  have hnone : ∀ p ∈ dict, p.2 ≠ .ok [] := by
    have heven := h.even
    have hlen := length_written hok'
    rw [hperm.countP_eq] at hlen
    have hzero : dict.countP blank = 0 := by omega
    intro p hp hnil
    exact countP_eq_zero.1 hzero p hp (by rw [blank, hnil])
  exact ⟨(hfull hnone).1 h, hnone⟩

/-! ## The shape of the output -/

def Shape (v : GoVal) (reg : Prop) (out : Bytes) : Prop :=
  if leadsToNil v then out = [] ∧ reg else IsNode out ∧ (IsCanonical out ↔ reg)

theorem Shape.node (h : Shape v reg out) : out = [] ∨ IsNode out := by
  unfold Shape at h
  split_ifs at h
  · exact .inl h.1
  · exact .inr h.1

theorem Shape.eq_nil_iff (h : Shape v reg out) : out = [] ↔ leadsToNil v = true := by
  unfold Shape at h
  split_ifs at h with hnil
  · simp [h.1, hnil]
  · simp [h.1.ne_nil, hnil]

theorem Shape.canonical (h : Shape v reg out) : (out = [] ∨ IsCanonical out) ↔ reg := by
  unfold Shape at h
  split_ifs at h
  · exact ⟨fun _ => h.2, fun _ => .inl h.1⟩
  · rw [← h.2]
    exact ⟨fun h' => h'.resolve_left h.1.ne_nil, .inr⟩

theorem encodeElems_eq_ok {e addr} {es : List GoVal} (h : encodeElems env e addr es = .ok out) :
    ∃ ps : List (GoVal × Bytes), es = ps.map Prod.fst ∧ out = (ps.map Prod.snd).flatten ∧
      ∀ p ∈ ps, encodeFrom env true true e addr p.1 = .ok p.2 := by
  induction es generalizing out with
  | nil => cases h; exact ⟨[], rfl, rfl, by simp⟩
  | cons v es ih =>
    simp only [encodeElems, except_bind_eq_ok] at h
    obtain ⟨b, hb, rest, hrest, h⟩ := h
    cases h
    obtain ⟨ps, rfl, rfl, hps⟩ := ih hrest
    exact ⟨(v, b) :: ps, rfl, rfl, forall_mem_cons.2 ⟨hb, hps⟩⟩

theorem encodeEntries_filter (e : GoType) (es : List (Bytes × GoVal)) :
    encodeEntries env e es = (es.filter fun p => !isNilValue p.2).map fun p =>
      (p.1, encodeFrom env true true e false p.2) := by
  induction es with
  | nil => rfl
  | cons p es ih => by_cases h : isNilValue p.2 = true <;> simp [encodeEntries, h, ih]

theorem readStruct_eq (addr : Bool) (fs : List (Field × GoType)) (vs : List GoVal) :
    readStruct env addr fs vs = (fieldEntries env fs vs).map fun p =>
      (p.1, encodeFrom env true true p.2.1 addr p.2.2) := by
  fun_induction fieldEntries env fs vs with
  | case1 f t fs v vs ih ih' =>
    rw [readStruct.eq_def]
    dsimp only
    rw [map_append, ← ih']
    by_cases hskip : (!f.exported || isNilValue v) = true
    · rw [if_pos hskip, if_pos hskip]
      rfl
    · rw [if_neg hskip, if_neg hskip]
      cases processFieldTag env f v with
      | none => rfl
      | some rkey =>
        dsimp only
        split_ifs
        · cases v with
          | struct ws => exact congrArg (· ++ _) ih
          | _ => rfl
        · rfl
  | case2 fs vs h =>
    rw [readStruct.eq_def]
    split
    · exact (h _ _ _ _ _ rfl rfl).elim
    · rfl

theorem regular_iff : Regular env t v ↔ (((entries env t v).map Prod.fst).Nodup ∧
    ∀ p ∈ entries env t v, leadsToNil p.2.2 = false) ∧
    ∀ q ∈ parts env t v, Regular env q.1 q.2 := everywhere_iff

theorem shape_dict {x : GoType → GoVal → Except Error Bytes} (hv : leadsToNil v = false)
    (hparts : parts env t v = (entries env t v).map Prod.snd)
    (h : writeDict env ((entries env t v).map fun p => (p.1, x p.2.1 p.2.2)) = .ok out)
    (hx : ∀ q ∈ parts env t v, ∀ {b}, x q.1 q.2 = .ok b → Shape q.2 (Regular env q.1 q.2) b)
    (hc : (entries env t v).countP (leadsToNil ·.2.2) ≤ 1) : Shape v (Regular env t v) out := by
  rw [Shape, hv, regular_iff, hparts]
  rw [hparts, forall_mem_map] at hx
  generalize entries env t v = ents at *
  obtain ⟨hok, hnode, hcan⟩ := writeDict_isCanonical
    (forall_mem_map.2 fun p hp b hb => (hx p hp hb).node) h
  have hok' := forall_mem_map.1 hok
  have hnil : ∀ p ∈ ents, (x p.2.1 p.2.2 = .ok [] ↔ leadsToNil p.2.2 = true) := by
    intro p hp
    obtain ⟨b, hb⟩ := hok' p hp
    rw [← (hx p hp hb).eq_nil_iff, show x p.2.1 p.2.2 = .ok b from hb, Except.ok.injEq]
  have hcount : (ents.map fun p => (p.1, x p.2.1 p.2.2)).countP blank ≤ 1 := by
    rw [countP_map]
    refine (countP_mono_left fun p hp hb => ?_).trans hc
    simp only [Function.comp_apply, blank] at hb
    split at hb
    · exact (hnil p hp).1 ‹_›
    · cases hb
  refine ⟨hnode, hcan.trans ?_⟩
  rw [paired_sort_iff hok hcount, map_map, forall_mem_map, forall_mem_map, forall_mem_map]
  refine and_congr (and_congr_right fun _ => forall₂_congr fun p hp => ?_)
    (forall₂_congr fun p hp => ?_)
  · rw [← Bool.not_eq_true, ← hnil p hp]
  · obtain ⟨b, hb⟩ := hok' p hp
    rw [← (hx p hp hb).canonical]
    simp [show x p.2.1 p.2.2 = .ok b from hb]

theorem Shape.congr {reg'} (h : Shape v reg out) (hr : reg ↔ reg') : Shape v reg' out :=
  propext hr ▸ h

theorem regular_leaf (hp : parts env t v = []) (he : entries env t v = []) : Regular env t v := by
  rw [regular_iff, hp, he]
  simp

theorem regular_single {q} (hp : parts env t v = [q]) (he : entries env t v = []) :
    Regular env q.1 q.2 ↔ Regular env t v := by
  refine Iff.trans ?_ regular_iff.symm
  rw [hp, he]
  simp

theorem shape_leaf (hv : leadsToNil v = false) (h : IsCanonical out) (hreg : Regular env t v) :
    Shape v (Regular env t v) out := by
  rw [Shape, hv]
  exact ⟨h.isNode, fun _ => hreg, fun _ => h⟩

theorem isRawMessage_iff : t.isRawMessage = true ↔ t = .rawMessage := by
  cases t <;> simp [GoType.isRawMessage]

theorem isBytes_iff : t.isBytes = true ↔ t = .slice (.uint 8) := by
  constructor
  · intro h
    unfold GoType.isBytes at h
    split at h
    · rfl
    · cases h
  · rintro rfl; rfl

theorem shape_list {e : GoType} {addr} {es : List GoVal} (hv : leadsToNil v = false)
    (hparts : parts env t v = es.map fun v => (e, v)) (hents : entries env t v = [])
    (ih : ∀ x ∈ es, ∀ {b}, encodeFrom env true true e addr x = .ok b → Shape x (Regular env e x) b)
    (h : (encodeElems env e addr es).map (fun b => ch 'l' :: (b ++ [ch 'e'])) = .ok out) :
    Shape v (Regular env t v) out := by
  obtain ⟨b, hb, rfl⟩ := except_map_eq_ok.1 h
  obtain ⟨ps, rfl, rfl, hps⟩ := encodeElems_eq_ok hb
  rw [forall_mem_map] at ih
  have hn : ∀ b ∈ ps.map Prod.snd, b = [] ∨ IsNode b :=
    forall_mem_map.2 fun p hp => (ih p hp (hps p hp)).node
  rw [Shape, hv]
  refine ⟨isNode_list hn, (isCanonical_list hn).trans ?_⟩
  rw [regular_iff, hents, hparts, map_map, forall_mem_map, forall_mem_map]
  refine (forall₂_congr fun p hp => (ih p hp (hps p hp)).canonical).trans ?_
  simp

/-- The shape of what is written, by induction over the parts of the value. -/
theorem encodeFrom_shape (hp : Plain env t v) : ∀ {checks direct addr : Bool} {out : Bytes},
    Sparse env t v → encodeFrom env checks direct t addr v = .ok out →
    Shape v (Regular env t v) out := by
  induction hp with
  | @mk t v hnode hparts ih =>
    intro checks direct addr out hs h
    have hfind : findMarshaler env t addr v = none := findMarshaler_none ⟨hnode, hparts⟩
    have hsub : ∀ q ∈ parts env t v, ∀ {checks direct addr : Bool} {b},
        encodeFrom env checks direct q.1 addr q.2 = .ok b → Shape q.2 (Regular env q.1 q.2) b :=
      fun q hq _ _ _ _ hb => ih q hq (Everywhere.part hs hq) hb
    obtain ⟨-, hraw, hbytes⟩ := hnode
    cases v
    all_goals try rw [encodeFrom, hfind, orMarshaler_none] at h
    case nilPtr => cases h; exact ⟨rfl, regular_leaf rfl rfl⟩
    case nilIface => cases h; exact ⟨rfl, regular_leaf rfl rfl⟩
    case int i => cases h; exact shape_leaf rfl (isCanonical_int i) (regular_leaf rfl rfl)
    case uint n => cases h; exact shape_leaf rfl (isCanonical_int n) (regular_leaf rfl rfl)
    case bool b => cases h; exact shape_leaf rfl (isCanonical_int b.toNat) (regular_leaf rfl rfl)
    case str s => cases h; exact shape_leaf rfl (isCanonical_str s) (regular_leaf rfl rfl)
    case ptr v | iface t' v =>
      exact (hsub _ (mem_singleton_self _) h).congr (regular_single rfl rfl)
    case nilSlice =>
      split_ifs at h with hr
      · exact absurd rfl (hraw (isRawMessage_iff.1 hr)).isNode.ne_nil
      · cases h; exact shape_leaf rfl (isCanonical_str []) (regular_leaf rfl rfl)
      · cases h; exact shape_leaf rfl ⟨.list [], trivial, rfl⟩ (regular_leaf rfl rfl)
    case slice es sp =>
      have huint : (∀ x ∈ es, ∃ n, x = .uint n) → Regular env t (.slice es sp) := fun hes => by
        refine regular_iff.2 ⟨by simp [entries], forall_mem_map.2 fun x hx => ?_⟩
        obtain ⟨n, rfl⟩ := hes x hx
        exact regular_leaf rfl rfl
      split_ifs at h with h1 h2
      · cases h
        have ht := isRawMessage_iff.1 h1
        exact shape_leaf rfl (hraw ht) (huint (hbytes (.inl ht)))
      · cases h
        have ht := isBytes_iff.1 (Bool.and_eq_true_iff.1 h2).2
        exact shape_leaf rfl (isCanonical_str _) (huint (hbytes (.inr ht)))
      · exact shape_list rfl rfl rfl (fun x hx => hsub _ (mem_map_of_mem hx)) h
    case array es =>
      exact shape_list rfl rfl rfl (fun x hx => hsub _ (mem_map_of_mem hx)) h
    case nilMap =>
      rw [writeDict, sort_of_keysLt Pairwise.nil] at h
      cases h
      exact shape_leaf rfl ⟨.dict [], ⟨Pairwise.nil, trivial⟩, rfl⟩ (regular_leaf rfl rfl)
    case map es =>
      rw [encodeEntries_filter] at h
      refine shape_dict (x := fun t => encodeFrom env true true t false) rfl rfl ?_
        (fun q hq => hsub q hq) (everywhere_iff.1 hs).1
      rw [entries, map_map]
      exact h
    case struct vs =>
      rw [readStruct_eq] at h
      exact shape_dict (x := fun t => encodeFrom env true true t addr) rfl rfl h
        (fun q hq => hsub q hq) (everywhere_iff.1 hs).1

/-! ## The output of `EncodeBytes` -/

/-- The output is empty, for a nil value, or one canonical value. -/
def OutputOk (x : GoVal) (out : Bytes) : Prop := (out = [] ∧ isNilValue x) ∨ IsCanonical out

theorem Regular.sparse (h : Regular env t v) : Sparse env t v := by
  induction h with
  | mk h _ ih => exact ⟨(countP_eq_zero.2 fun p hp => by simp [h.2 p hp]).trans_le zero_le_one, ih⟩

theorem outputOk_iff {x} (hp : Plain env t x) (hs : Sparse env t x)
    (h : EncodeBytes env (.iface t x) = .ok out) :
    OutputOk x out ↔ Regular env t x ∧ (leadsToNil x → isNilValue x) := by
  have hshape := encodeFrom_shape hp hs h
  unfold Shape at hshape
  unfold OutputOk
  split_ifs at hshape with hnil
  · obtain ⟨rfl, hreg⟩ := hshape
    have hne : ¬ IsCanonical [] := fun hc => hc.isNode.ne_nil rfl
    simp [hne, hreg, hnil]
  · have hne : out ≠ [] := hshape.1.ne_nil
    simp [hne, hshape.2, hnil]

def sampleValue : GoVal := .map [([97], .iface (.slice (.int 64)) (.slice [.int 1, .int 2] [])),
  ([98], .iface (.ptr (.map .string)) (.ptr (.map [([99], .str [100])])))]

-- the key `b` passes for the value of the key `a`
example : (EncodeBytes bareEnv (.iface (.map .iface) (.map [([97], .iface (.ptr .bool) .nilPtr),
    ([98], .iface (.ptr .bool) .nilPtr)]))).toOption = some (utf8 "d1:a1:be") := by decide +kernel

def hiddenNil : GoVal := .map [([97], .iface (.ptr (.int 64)) .nilPtr)]

-- two fields with one key
example : (EncodeBytes bareEnv (.iface (.struct [(tagged "K" "k", .bool), (tagged "L" "k", .bool)])
    (.struct [.bool true, .bool false]))).toOption = some (utf8 "d1:ki1e1:ki0ee") := by
  decide +kernel

end GoI2pBt.Bencode
