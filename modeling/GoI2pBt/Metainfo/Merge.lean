/-
  Merging blocks into larger ones.
-/
import GoI2pBt.Lib.OrderedMap
import GoI2pBt.Metainfo.FilePieces

namespace GoI2pBt.Metainfo

open List hiding Disjoint

namespace FilePiece

variable {a b : FilePiece} {rest : List FilePiece} {group : List FilePiece}

def Less (a b : FilePiece) : Bool :=
  if a.index < b.index then true
  else if a.index = b.index ∧ a.offset < b.offset then true
  else false

def mergeLoop (index : UInt32) : UInt32 → UInt32 → List FilePiece → List FilePiece → List FilePiece
  | offset, length, [], results => results ++ [⟨index, offset, length⟩]
  | offset, length, fp :: rest, results =>
    if offset + length = fp.offset then mergeLoop index offset (length + fp.length) rest results
    else mergeLoop index fp.offset fp.length rest (results ++ [⟨index, offset, length⟩])

def merge (fpset results : List FilePiece) : List FilePiece :=
  match fpset with
  | [] => results
  | [fp] => results ++ [fp]
  | fp :: rest => mergeLoop fp.index fp.offset fp.length rest results

def groupLoop : List FilePiece → UInt32 → List FilePiece → List FilePiece → List FilePiece
  | [], _, group, results => if group ≠ [] then merge group results else results
  | fp :: rest, curindex, group, results =>
    if fp.index ≠ curindex then groupLoop rest fp.index [fp] (merge group results)
    else groupLoop rest curindex (group ++ [fp]) results

def Merge (srt : SortSlice) (fps : List FilePiece) : List FilePiece :=
  if fps.length < 2 then fps
  else
    match srt.slice Less fps with
    | [] => []
    | fp :: rest => groupLoop (fp :: rest) fp.index [] []

/-! ## One pass -/

def coalesce : FilePiece → List FilePiece → List FilePiece
  | cur, [] => [cur]
  | cur, fp :: rest =>
    if cur.index = fp.index ∧ cur.offset + cur.length = fp.offset then
      coalesce { cur with length := cur.length + fp.length } rest
    else cur :: coalesce fp rest

theorem mergeLoop_eq {index} (h : ∀ fp ∈ rest, fp.index = index)
    (offset length : UInt32) (results : List FilePiece) :
    mergeLoop index offset length rest results =
      results ++ coalesce ⟨index, offset, length⟩ rest := by
  induction rest generalizing offset length results with
  | nil => rfl
  | cons fp rest ih =>
    obtain ⟨hfp, hrest⟩ := forall_mem_cons.1 h
    rw [mergeLoop, coalesce]
    by_cases hadj : offset + length = fp.offset
    · rw [if_pos hadj, if_pos ⟨hfp.symm, hadj⟩, ih hrest]
    · rw [if_neg hadj, if_neg fun h => hadj h.2, ih hrest, append_assoc, ← hfp]
      rfl

theorem merge_eq {fp} (h : ∀ g ∈ rest, g.index = fp.index)
    (results : List FilePiece) : merge (fp :: rest) results = results ++ coalesce fp rest := by
  cases rest with
  | nil => rfl
  | cons g rest => exact mergeLoop_eq h fp.offset fp.length results

theorem coalesce_append {cur fp} (rest : List FilePiece)
    (hcur : cur.index ≠ fp.index) (hgroup : ∀ g ∈ group, g.index ≠ fp.index) :
    coalesce cur (group ++ fp :: rest) = coalesce cur group ++ coalesce fp rest := by
  induction group generalizing cur with
  | nil =>
    have hne : ¬ (cur.index = fp.index ∧ cur.offset + cur.length = fp.offset) := fun h => hcur h.1
    simp only [nil_append, coalesce, hne, if_false, singleton_append]
  | cons g group ih =>
    obtain ⟨hg, hgroup⟩ := forall_mem_cons.1 hgroup
    rw [cons_append, coalesce, coalesce]
    split_ifs with hadj
    · exact ih hcur hgroup
    · rw [ih hg hgroup, cons_append]

theorem groupLoop_eq {cur} (rest results : List FilePiece)
    (hgroup : ∀ g ∈ group, g.index = cur.index) :
    groupLoop rest cur.index (cur :: group) results = results ++ coalesce cur (group ++ rest) := by
  induction rest generalizing cur group results with
  | nil => rw [groupLoop, if_pos (cons_ne_nil _ _), merge_eq hgroup, append_nil]
  | cons fp rest ih =>
    rw [groupLoop]
    by_cases hfp : fp.index = cur.index
    · rw [if_neg (not_not.2 hfp), cons_append, ih, append_assoc, singleton_append]
      intro g hg
      rcases mem_append.1 hg with hg | hg
      · exact hgroup g hg
      · rw [mem_singleton.1 hg, hfp]
    · rw [if_pos hfp, ih _ (by simp), merge_eq hgroup, nil_append, append_assoc,
        coalesce_append rest (Ne.symm hfp) fun g hg => by rw [hgroup g hg]; exact Ne.symm hfp]

theorem merge_eq_coalesce {srt : SortSlice} {fps rest fp}
    (hlen : ¬ fps.length < 2) (hsort : srt.slice Less fps = fp :: rest) :
    Merge srt fps = coalesce fp rest := by
  rw [Merge, if_neg hlen, hsort]
  dsimp only
  rw [groupLoop, if_neg (by simp), nil_append, groupLoop_eq rest [] (by simp)]
  rfl

/-! ## What the pass covers -/

def lower (fp : FilePiece) : ℕ := fp.offset.toNat

def upper (fp : FilePiece) : ℕ := fp.offset.toNat + fp.length.toNat

def positions (fp : FilePiece) : Set (ℕ × ℕ) :=
  {p | p.1 = fp.index.toNat ∧ fp.lower ≤ p.2 ∧ p.2 < fp.upper}

def covered (fps : List FilePiece) : Set (ℕ × ℕ) := {p | ∃ fp ∈ fps, p ∈ fp.positions}

def Valid (fp : FilePiece) : Prop := 0 < fp.length.toNat ∧ fp.upper < 2 ^ 32

def Before (gap : ℕ) (a b : FilePiece) : Prop :=
  a.index.toNat < b.index.toNat ∨ a.index = b.index ∧ a.upper + gap ≤ b.lower

theorem Before.congr {gap a b c} (hi : b.index = c.index) (ho : b.offset = c.offset)
    (h : Before gap a c) : Before gap a b := by
  rw [Before, lower] at h ⊢
  rwa [hi, ho]

theorem Before.trans {a b c} (hb : b.Valid) (hab : Before 0 a b) (hbc : Before 0 b c) :
    Before 1 a c := by
  have hpos := hb.1
  rcases hab with hab | ⟨hab, hle⟩
  · rcases hbc with hbc | ⟨hbc, -⟩
    · exact .inl (hab.trans hbc)
    · exact .inl (hbc ▸ hab)
  · rcases hbc with hbc | ⟨hbc, hle'⟩
    · exact .inl (hab ▸ hbc)
    · refine .inr ⟨hab.trans hbc, ?_⟩
      simp only [upper, lower] at hle hle' ⊢
      omega

theorem less_iff : a.Less b ↔ a.index.toNat < b.index.toNat ∨
    a.index.toNat = b.index.toNat ∧ a.offset.toNat < b.offset.toNat := by
  rw [Less, UInt32.toNat_inj, ← UInt32.lt_iff_toNat_lt, ← UInt32.lt_iff_toNat_lt]
  split_ifs with h1 h2 <;> simp [*]

theorem Before.less {gap} (ha : a.Valid) (h : Before gap a b) : a.Less b := by
  have hpos := ha.1
  rw [less_iff]
  rcases h with h | ⟨h, hle⟩
  · exact .inl h
  · simp only [upper, lower] at hle
    exact .inr ⟨by rw [h], by omega⟩

theorem Before.disjoint {gap} (h : Before gap a b) : Disjoint a.positions b.positions := by
  rw [Set.disjoint_left]
  rintro p ⟨hi, -, hlt⟩ ⟨hi', hle, -⟩
  rcases h with h | ⟨-, h⟩
  · omega
  · omega

theorem Valid.upper_ne {a : FilePiece} (h : a.Valid) : a.upper ≠ a.lower := by
  have hpos := h.1
  simp only [upper, lower]
  omega

def Apart (a b : FilePiece) : Prop := a.index = b.index → a.upper ≠ b.lower ∧ b.upper ≠ a.lower

theorem Before.apart (h : Before 1 a b) : Apart a b := by
  intro hi
  rcases h with h | ⟨-, h⟩
  · rw [hi] at h
    omega
  · simp only [upper, lower] at h ⊢
    omega

theorem adjacent_iff (ha : a.Valid) : a.offset + a.length = b.offset ↔ a.upper = b.lower := by
  have hlt := ha.2
  rw [upper] at hlt
  rw [← UInt32.toNat_inj, UInt32.toNat_add, Nat.mod_eq_of_lt hlt]
  rfl

def join (a b : FilePiece) : FilePiece := { a with length := a.length + b.length }

section Join

variable {a b : FilePiece} (ha : a.Valid) (hb : b.Valid) (hadj : a.upper = b.lower)

include hb hadj in
theorem upper_join : (join a b).upper = b.upper := by
  have hlt := hb.2
  simp only [upper, lower] at hlt hadj
  simp only [join, upper, UInt32.toNat_add]
  rw [Nat.mod_eq_of_lt (by omega)]
  omega

include ha hb hadj in
theorem valid_join : (join a b).Valid := by
  have hup := upper_join hb hadj
  have hpos := ha.1
  refine ⟨?_, by rw [hup]; exact hb.2⟩
  simp only [upper, lower, join] at hup hadj ⊢
  omega

include hb hadj in
theorem positions_join (hi : a.index = b.index) :
    (join a b).positions = a.positions ∪ b.positions := by
  have hup := upper_join hb hadj
  have hlo : (join a b).lower = a.lower := rfl
  have hidx : (join a b).index = a.index := rfl
  have ha' : a.lower ≤ a.upper := Nat.le_add_right _ _
  have hb' : b.lower ≤ b.upper := Nat.le_add_right _ _
  ext p
  simp only [positions, Set.mem_ofPred_eq, Set.mem_union, hup, hlo, hidx, ← hi]
  omega

end Join

structure Coalesced (fps out : List FilePiece) : Prop where
  covered_eq : covered out = covered fps
  pairwise : out.Pairwise (Before 1)
  valid : ∀ fp ∈ out, fp.Valid
  starts : ∀ fp ∈ out, ∃ g ∈ fps, fp.index = g.index ∧ fp.offset = g.offset

theorem covered_cons (fp : FilePiece) (fps : List FilePiece) :
    covered (fp :: fps) = fp.positions ∪ covered fps := by
  ext p
  simp [covered]

theorem coalesced {cur}
    (hsorted : (cur :: rest).Pairwise (Before 0)) (hvalid : ∀ fp ∈ cur :: rest, fp.Valid) :
    Coalesced (cur :: rest) (coalesce cur rest) := by
  induction rest generalizing cur with
  | nil => exact ⟨rfl, pairwise_singleton _ _, hvalid, fun fp hfp => ⟨fp, hfp, rfl, rfl⟩⟩
  | cons fp rest ih =>
    obtain ⟨hcur, hrest⟩ := pairwise_cons.1 hsorted
    obtain ⟨hvcur, hvrest⟩ := forall_mem_cons.1 hvalid
    obtain ⟨hfp, -⟩ := pairwise_cons.1 hrest
    have hvfp := hvrest fp mem_cons_self
    rw [coalesce]
    by_cases hadj : cur.index = fp.index ∧ cur.offset + cur.length = fp.offset
    · -- the range grows
      obtain ⟨hi, hend⟩ := hadj
      rw [if_pos ⟨hi, hend⟩]
      rw [adjacent_iff hvcur] at hend
      have hup := upper_join hvfp hend
      have hsorted' : (join cur fp :: rest).Pairwise (Before 0) := by
        refine pairwise_cons.2 ⟨fun g hg => ?_, (pairwise_cons.1 hrest).2⟩
        have hg := hfp g hg
        rw [Before] at hg ⊢
        rw [hup]
        exact hi ▸ hg
      have hvalid' : ∀ g ∈ join cur fp :: rest, g.Valid := forall_mem_cons.2
        ⟨valid_join hvcur hvfp hend, fun g hg => hvrest g (mem_cons_of_mem _ hg)⟩
      have h := ih hsorted' hvalid'
      refine ⟨?_, h.pairwise, h.valid, fun g hg => ?_⟩
      · refine h.covered_eq.trans ?_
        rw [covered_cons, covered_cons, covered_cons, positions_join hvfp hend hi, Set.union_assoc]
      · obtain ⟨z, hz, hidx, hoff⟩ := h.starts g hg
        rcases mem_cons.1 hz with rfl | hz
        · exact ⟨cur, mem_cons_self, hidx, hoff⟩
        · exact ⟨z, mem_cons_of_mem _ (mem_cons_of_mem _ hz), hidx, hoff⟩
    · rw [if_neg hadj]
      have h := ih hrest hvrest
      have hgap : Before 1 cur fp := by
        rcases hcur fp mem_cons_self with hlt | ⟨hi, hle⟩
        · exact .inl hlt
        · have hne : cur.upper ≠ fp.lower := fun he => hadj ⟨hi, (adjacent_iff hvcur).2 he⟩
          exact .inr ⟨hi, by omega⟩
      refine ⟨?_, pairwise_cons.2 ⟨fun g hg => ?_, h.pairwise⟩,
        forall_mem_cons.2 ⟨hvcur, h.valid⟩, fun g hg => ?_⟩
      · rw [covered_cons, h.covered_eq, ← covered_cons]
      · obtain ⟨z, hz, hidx, hoff⟩ := h.starts g hg
        refine Before.congr hidx hoff ?_
        rcases mem_cons.1 hz with rfl | hz
        · exact hgap
        · exact (hcur fp mem_cons_self).trans hvfp (hfp z hz)
      · rcases mem_cons.1 hg with rfl | hg
        · exact ⟨g, mem_cons_self, rfl, rfl⟩
        · obtain ⟨z, hz, hzg⟩ := h.starts g hg
          exact ⟨z, mem_cons_of_mem _ hz, hzg⟩

/-! ## The result of `Merge` -/

theorem before_of_not_less (hb : b.Valid) (h : ¬ b.Less a)
    (hdisj : Disjoint a.positions b.positions) : Before 0 a b := by
  rw [less_iff] at h
  have hpos := hb.1
  rcases Nat.lt_trichotomy a.index.toNat b.index.toNat with hlt | heq | hgt
  · exact .inl hlt
  · refine .inr ⟨UInt32.toNat_inj.1 heq, ?_⟩
    by_contra hlt
    -- the first byte of `b` would be one of `a`
    have hfirst : (b.index.toNat, b.lower) ∈ a.positions := by
      refine ⟨heq.symm, ?_, by simpa using hlt⟩
      simp only [lower]
      omega
    exact Set.disjoint_left.1 hdisj hfirst ⟨rfl, le_rfl, Nat.lt_add_of_pos_right hpos⟩
  · exact absurd (.inl hgt) h

theorem sorted_slice (srt : SortSlice) {fps} (hvalid : ∀ fp ∈ fps, fp.Valid)
    (hdisj : fps.Pairwise fun a b => Disjoint a.positions b.positions) :
    (srt.slice Less fps).Pairwise (Before 0) := by
  have hsorted : (srt.slice Less fps).Pairwise fun a b => ¬ b.Less a := by
    refine srt.sorted (fun a b hab hba => ?_) (fun a b c hba hcb hca => ?_) fps
    · rw [less_iff] at hab hba
      omega
    · rw [less_iff] at hba hcb hca
      omega
  have hperm := srt.perm Less fps
  have hdisj' : (srt.slice Less fps).Pairwise fun a b => Disjoint a.positions b.positions :=
    (hperm.pairwise_iff fun h => h.symm).2 hdisj
  refine (hsorted.and hdisj').imp_of_mem fun {a b} _ hb h => ?_
  exact before_of_not_less (hvalid b (hperm.mem_iff.1 hb)) h.1 h.2

/-- **`Merge` covers the same bytes.** -/
theorem merge_spec (srt : SortSlice) {fps : List FilePiece} (hvalid : ∀ fp ∈ fps, fp.Valid)
    (hdisj : fps.Pairwise fun a b => Disjoint a.positions b.positions) :
    (Merge srt fps).Pairwise (fun a b => a.Less b) ∧ covered (Merge srt fps) = covered fps ∧
      (Merge srt fps).Pairwise (fun a b => Disjoint a.positions b.positions) ∧
      ∀ a ∈ Merge srt fps, ∀ b ∈ Merge srt fps, a.index = b.index → a.upper ≠ b.lower := by
  have hout : covered (Merge srt fps) = covered fps ∧ (Merge srt fps).Pairwise (Before 1) ∧
      ∀ fp ∈ Merge srt fps, fp.Valid := by
    by_cases hlen : fps.length < 2
    · have hself : Merge srt fps = fps := by rw [Merge, if_pos hlen]
      rw [hself]
      refine ⟨rfl, ?_, hvalid⟩
      match fps, hlen with
      | [], _ => exact .nil
      | [_], _ => exact List.pairwise_singleton _ _
    · have hperm := srt.perm Less fps
      cases hsort : srt.slice Less fps with
      | nil => rw [hsort] at hperm; rw [← hperm.length_eq] at hlen; simp at hlen
      | cons fp rest =>
        have hsorted := sorted_slice srt hvalid hdisj
        rw [hsort] at hsorted hperm
        have h := coalesced hsorted fun g hg => hvalid g (hperm.mem_iff.1 hg)
        rw [merge_eq_coalesce hlen hsort]
        refine ⟨h.covered_eq.trans ?_, h.pairwise, h.valid⟩
        ext p
        simp only [covered, Set.mem_ofPred_eq, hperm.mem_iff]
  obtain ⟨hcov, hpair, hval⟩ := hout
  refine ⟨hpair.imp_of_mem fun ha _ h => h.less (hval _ ha), hcov, hpair.imp fun h => h.disjoint, ?_⟩
  intro a ha b hb hi
  have : Std.Symm Apart := ⟨fun _ _ h hi => (h hi.symm).symm⟩
  have hself : ∀ fp ∈ Merge srt fps, Apart fp fp := fun fp hfp _ =>
    ⟨(hval fp hfp).upper_ne, (hval fp hfp).upper_ne⟩
  have hapart : (Merge srt fps).Pairwise Apart := hpair.imp Before.apart
  exact (hapart.forall_of_forall hself ha hb hi).1

theorem merge_spec_sample : covered (Merge .insertion [⟨1, 4, 4⟩, ⟨0, 8, 2⟩, ⟨1, 0, 4⟩]) =
      covered [⟨1, 4, 4⟩, ⟨0, 8, 2⟩, ⟨1, 0, 4⟩] := by
  have h₁ : Before 0 ⟨0, 8, 2⟩ ⟨1, 4, 4⟩ := .inl (by decide)
  have h₂ : Before 0 ⟨1, 0, 4⟩ ⟨1, 4, 4⟩ := .inr ⟨rfl, by decide⟩
  have h₃ : Before 0 ⟨0, 8, 2⟩ ⟨1, 0, 4⟩ := .inl (by decide)
  refine (merge_spec .insertion (by simp [Valid, upper]) ?_).2.1
  simp [h₁.disjoint.symm, h₂.disjoint.symm, h₃.disjoint]

example : Merge .insertion [⟨1, 4, 4⟩, ⟨0, 8, 2⟩, ⟨1, 0, 4⟩] = [⟨0, 8, 2⟩, ⟨1, 0, 8⟩] := by decide

end FilePiece

end GoI2pBt.Metainfo
