/-
  Decoding into slices, maps, raw messages and interfaces.
-/
import GoI2pBt.Bencode.Accept

namespace GoI2pBt.Bencode

open List Bencode.Tree

variable {env : Env} {e t : GoType} {addr : Bool}

/-! ## Slices -/

def storeAll (env : Env) (e : GoType) : List Tree → Except Error (List GoVal)
  | [] => .ok []
  | t :: ts => do
    let x ← store env e (zero e) true t
    let xs ← storeAll env e ts
    return x :: xs

theorem ensureSliceCapacity_fresh (xs : List GoVal) {sp} (hsp : ∀ x ∈ sp, x = zero e) :
    ∃ sp', (∀ x ∈ sp', x = zero e) ∧
      ensureSliceCapacity false e true xs.length (xs, sp) = .ok (xs ++ [zero e], sp') := by
  obtain ⟨spare, hspare, hne, hens⟩ : ∃ spare : List GoVal, (∀ x ∈ spare, x = zero e) ∧
      spare ≠ [] ∧ ensureSliceCapacity false e true xs.length (xs, sp) =
        .ok (xs ++ spare.take 1, spare.drop 1) := by
    by_cases hs : sp = []
    · refine ⟨replicate (max (xs.length + xs.length / 2) 4 - xs.length) (zero e), ?_, ?_, ?_⟩
      · exact fun x hx => eq_of_mem_replicate hx
      · have : 0 < max (xs.length + xs.length / 2) 4 - xs.length := by omega
        simp only [ne_eq, replicate_eq_nil_iff]; omega
      · subst hs; simp [ensureSliceCapacity]
    · have hpos : 0 < sp.length := length_pos_iff.2 hs
      exact ⟨sp, hsp, hs, by simp [ensureSliceCapacity, hpos]⟩
  cases spare with
  | nil => exact absurd rfl hne
  | cons x spare =>
    refine ⟨spare, fun y hy => hspare y (mem_cons_of_mem _ hy), ?_⟩
    rw [hens, hspare x mem_cons_self]; rfl

theorem storeItems_fresh (ts : List Tree) (xs : List GoVal) {sp} (hsp : ∀ x ∈ sp, x = zero e) :
    (storeItems env false e true xs.length (xs, sp) ts).map Prod.fst =
      (storeAll env e ts).map (xs ++ ·) := by
  induction ts generalizing xs sp with
  | nil => simp [storeItems, storeAll]
  | cons t ts ih =>
    obtain ⟨sp', hsp', hens⟩ := ensureSliceCapacity_fresh xs hsp
    rw [storeItems, hens, storeAll]
    simp only [except_ok_bind, getD_append_right _ _ _ _ (le_refl _), Nat.sub_self,
      getD_cons_zero, Bool.not_false, Bool.or_true]
    cases store env e (zero e) true t with
    | error err => rfl
    | ok x =>
      have hset : (xs ++ [zero e]).set xs.length x = xs ++ [x] := by
        rw [set_append_right _ _ (le_refl _)]; simp
      have := ih (xs ++ [x]) hsp'
      simp only [length_append, length_singleton] at this
      rw [except_ok_bind, hset, this]
      cases storeAll env e ts <;> simp

theorem storeItems_nil (env : Env) (e : GoType) (ts : List Tree) :
    (storeItems env false e true 0 ([], []) ts).map Prod.fst = storeAll env e ts := by
  have hsp : ∀ x ∈ ([] : List GoVal), x = zero e := by simp
  refine (storeItems_fresh ts [] hsp).trans ?_
  cases storeAll env e ts <;> rfl

/-! ## Maps -/

def KeysLt {α : Type} (es : List (Bytes × α)) : Prop := es.Pairwise fun a b => a.1 < b.1

theorem KeysLt.nodup {α : Type} {es : List (Bytes × α)} (h : KeysLt es) :
    (es.map Prod.fst).Nodup := by
  rw [Nodup, pairwise_map]
  refine h.imp fun {a b} hlt heq => ?_
  rw [heq] at hlt
  exact List.lt_irrefl _ hlt

theorem sort_of_perm {l l'} (h : KeysLt l') (hl : l.Perm l') : env.sort l = l' := by
  have hp := (env.sort_perm l).trans hl
  have hle : l'.Pairwise fun a b => a.1 ≤ b.1 := h.imp fun hlt => List.le_of_lt hlt
  refine hp.eq_of_pairwise ?_ (env.sort_sorted l) hle
  intro a b ha hb hab hba
  exact inj_on_of_nodup_map h.nodup (hp.mem_iff.1 ha) hb (List.le_antisymm hab hba)

theorem sort_of_keysLt {l} (h : KeysLt l) : env.sort l = l := sort_of_perm h (Perm.refl l)

theorem mapSet_of_lt {key x es} (h : ∀ p ∈ es, p.1 < key) : mapSet key x es = es ++ [(key, x)] := by
  induction es with
  | nil => rfl
  | cons p es ih =>
    obtain ⟨k, y⟩ := p
    have hk : k < key := h (k, y) mem_cons_self
    have hn : ¬ key < k := fun hlt => List.lt_irrefl _ (List.lt_trans hk hlt)
    rw [mapSet, if_neg hn, if_pos hk, ih fun p hp => h p (mem_cons_of_mem _ hp), cons_append]

theorem foldl_mapSet {m ws} (h : KeysLt (m ++ ws)) :
    ws.foldl (fun m p => mapSet p.1 p.2 m) m = m ++ ws := by
  induction ws generalizing m with
  | nil => simp
  | cons p ws ih =>
    have hp : ∀ q ∈ m, q.1 < p.1 := fun q hq => (pairwise_append.1 h).2.2 q hq p mem_cons_self
    rw [foldl_cons, mapSet_of_lt hp, ih (by simpa using h), append_assoc]; rfl

def storeVals (env : Env) (e : GoType) : List (Entry Tree) → Except Error (List (Bytes × GoVal))
  | [] => .ok []
  | ⟨_, key, t⟩ :: es => do
    let x ← store env e (zero e) true t
    let xs ← storeVals env e es
    return (key, x) :: xs

theorem storeEntries_map {es m} : storeEntries env (.map e) t addr (.map m) es =
      (storeVals env e es).map fun ws => .map (ws.foldl (fun m p => mapSet p.1 p.2 m) m) := by
  induction es generalizing m with
  | nil => rfl
  | cons f es ih =>
    obtain ⟨len, key, x⟩ := f
    simp only [storeEntries, storePair, storeVals]
    cases store env e (zero e) true x with
    | error err => rfl
    | ok y =>
      simp only [except_ok_bind, except_pure, ih]
      cases storeVals env e es <;> rfl

theorem storeVals_keys {es ws}
    (h : storeVals env e es = .ok ws) : ws.map Prod.fst = es.map Entry.key := by
  induction es generalizing ws with
  | nil => cases h; rfl
  | cons f es ih =>
    obtain ⟨len, key, x⟩ := f
    simp only [storeVals, except_bind_eq_ok] at h
    obtain ⟨y, -, ys, hys, h⟩ := h
    cases h; simp [ih hys]

/-! ## Raw messages and unmarshalers -/

theorem store_rawMessage (tree : Tree) : store env .rawMessage .nilSlice true tree =
      if tree.scannable then .ok (bytesVal tree.bytes) else .error .invalidInput := by
  rw [store_eq]
  cases h : tree.scannable <;>
    simp [atTarget, indirect, checkUnmarshalers, indirectAlloc, h, RValue.set]

theorem store_unmarshaler {name} {under : GoType} {old u}
    (hu : (env.methods name).unmarshalBencode = some u) (tree : Tree) :
    store env (.named name under) old true tree =
      if tree.scannable then u old tree.bytes else .error .invalidInput := by
  have hind : indirect env (.named name under) old true = ⟨.unmarshaler u old, id⟩ := by
    rw [indirect.eq_def]; simp [checkUnmarshalers, hu]
  have hid : (u old tree.bytes).map id = u old tree.bytes := by cases u old tree.bytes <;> rfl
  rw [store_eq, atTarget, hind]
  exact congrArg (fun x => if tree.scannable then x else .error .invalidInput) hid

/-! ## Empty interfaces -/

theorem store_iface (tree : Tree) :
    store env .iface .nilIface true tree = storeValue env (.mk .iface .nilIface true) tree := by
  rw [store_eq]
  change (storeValue env (.mk .iface .nilIface true) tree).map id = _
  cases storeValue env (.mk .iface .nilIface true) tree <;> rfl

theorem store_iface_int (ds : Bytes) : store env .iface .nilIface true (.int ds) =
      (parseInt64 ds).map fun i => .iface (.int 64) (.int i) := by
  rw [store_iface]
  change (parseInt64 ds >>= fun i => RValue.set (.mk .iface .nilIface true) _) = _
  cases parseInt64 ds <;> rfl

theorem store_iface_str (len c : Bytes) : store env .iface .nilIface true (.str len c) =
      if digitFirst len then .ok (.iface .string (.str c)) else .error .invalidInput := by
  rw [store_iface]; rfl

theorem store_iface_list (ts : List Tree) : store env .iface .nilIface true (.list ts) =
      (storeItems env false .iface true 0 ([], []) ts).map fun s =>
        .iface (.slice .iface) (sliceAfter .nilSlice s) := by
  rw [store_iface]
  change (storeItems env false .iface true 0 ([], []) ts >>= fun s =>
    RValue.set (.mk .iface .nilIface true) _) = _
  cases storeItems env false .iface true 0 ([], []) ts <;> rfl

theorem store_iface_dict (es : List (Entry Tree)) : store env .iface .nilIface true (.dict es) =
      (storeVals env .iface es).map fun ws =>
        .iface (.map .iface) (.map (ws.foldl (fun m p => mapSet p.1 p.2 m) [])) := by
  rw [store_iface]
  change (storeEntries env (.map .iface) (.map .iface) true (.map []) es >>= fun m =>
    RValue.set (.mk .iface .nilIface true) _) = _
  rw [storeEntries_map]
  cases storeVals env .iface es <;> rfl

end GoI2pBt.Bencode
