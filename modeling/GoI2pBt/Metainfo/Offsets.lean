/-
  From a piece and an offset to a file.
-/
import GoI2pBt.Metainfo.Storage

namespace GoI2pBt.Metainfo

open List Int Info

def lengths (files : List File) : ℤ := (files.map File.length).sum

@[simp] theorem lengths_nil : lengths [] = 0 := rfl

@[simp] theorem lengths_cons (f : File) (files : List File) :
    lengths (f :: files) = f.length + lengths files := by
  simp [lengths]

@[simp] theorem lengths_append (fs gs : List File) :
    lengths (fs ++ gs) = lengths fs + lengths gs := by
  simp [lengths]

def Info.torrentFiles (info : Info) : List File :=
  if info.IsDir then info.files else [⟨info.length, [info.name]⟩]

def Located (info : Info) (offset : ℤ) (f : File) (fileOffset : ℤ) : Prop :=
  ∃ pre post, info.torrentFiles = pre ++ f :: post ∧ wrap64 (lengths pre + fileOffset) = offset ∧
    ((∀ g ∈ pre, 0 ≤ g.length) → lengths pre + fileOffset = offset) ∧
    (fileOffset < f.length ∨ post = [] ∧ fileOffset = f.length ∧ offset = info.TotalLength)

structure Finds (info : Info) (offset : ℤ) : Prop where
  panics_iff : (∃ p, info.GetFileByOffset offset = .error p) ↔ info.TotalLength < offset
  located : ∀ f o, info.GetFileByOffset offset = .ok (f, o) → Located info offset f o
  unwritten : info.TotalLength < offset → ∀ root fs p, (WriteAt root info fs p offset).fs = fs

def Contains (files : List File) (offset : ℤ) : Prop := ∃ pre f post, files = pre ++ f :: post ∧
    (wrap64 (offset - lengths pre) < f.length ∨
      post = [] ∧ wrap64 (offset - lengths pre) = f.length)

/-! ## The loop -/

def IsInt64 (i : ℤ) : Prop := -2 ^ 63 ≤ i ∧ i < 2 ^ 63

theorem IsInt64.wrap {i} (h : IsInt64 i) : wrap64 i = i := wrap64_of_range h.1 h.2

theorem isInt64_wrap64 (i : ℤ) : IsInt64 (wrap64 i) := by
  rw [wrap64]
  constructor
  · exact le_trans (by norm_num) (le_bmod (by norm_num))
  · exact lt_of_lt_of_le (bmod_lt (by norm_num)) (by norm_num)

theorem wrap64_sub_sub (a b c : ℤ) : wrap64 (wrap64 (a - b) - c) = wrap64 (a - (b + c)) := by
  rw [sub_eq_add_neg (wrap64 _), wrap64_wrap64_add]
  congr 1
  ring

theorem Contains.cons {files offset} (file : File)
    (h : Contains files (wrap64 (offset - file.length))) : Contains (file :: files) offset := by
  obtain ⟨pre, f, post, rfl, hf⟩ := h
  refine ⟨file :: pre, f, post, rfl, ?_⟩
  rwa [wrap64_sub_sub, ← lengths_cons] at hf

theorem fileByOffset_contains {files} (panic : OffsetPanic) :
    ∀ (last : File) {offset : ℤ}, IsInt64 offset → Contains files offset →
    ∃ pre f post o, files = pre ++ f :: post ∧
      fileByOffset panic files last offset = .ok (f, o) ∧ o = wrap64 (offset - lengths pre) ∧
      ((∀ g ∈ pre, 0 ≤ g.length) → 0 ≤ offset → lengths pre + o = offset) ∧
      (o < f.length ∨ post = [] ∧ o = f.length) := by
  induction files with
  | nil => rintro last offset - ⟨pre, f, post, h, -⟩; simp at h
  | cons file files ih =>
    intro last offset h64 hc
    by_cases hlt : offset < file.length
    · refine ⟨[], file, files, offset, rfl, ?_, ?_, ?_, .inl hlt⟩
      · rw [fileByOffset, if_pos hlt]
      · rw [lengths_nil, sub_zero, h64.wrap]
      · intro _ _; rw [lengths_nil, zero_add]
    by_cases hend : offset = file.length ∧ files = []
    · refine ⟨[], file, files, offset, rfl, ?_, ?_, ?_, .inr ⟨hend.2, hend.1⟩⟩
      · rw [fileByOffset, if_neg hlt, if_pos hend]
      · rw [lengths_nil, sub_zero, h64.wrap]
      · intro _ _; rw [lengths_nil, zero_add]
    -- the offset is in none but the later files
    have hrest : Contains files (wrap64 (offset - file.length)) := by
      obtain ⟨pre, f, post, hsplit, hf⟩ := hc
      cases pre with
      | nil =>
        obtain ⟨rfl, rfl⟩ := cons.inj hsplit
        rw [lengths_nil, sub_zero, h64.wrap] at hf
        rcases hf with hf | ⟨hnil, hf⟩
        · exact absurd hf hlt
        · exact absurd ⟨hf, hnil⟩ hend
      | cons g pre =>
        obtain ⟨rfl, hfiles⟩ := cons.inj hsplit
        refine ⟨pre, f, post, hfiles, ?_⟩
        rwa [wrap64_sub_sub, ← lengths_cons]
    obtain ⟨pre, f, post, o, rfl, hfound, ho, hexact, hf⟩ := ih file (isInt64_wrap64 _) hrest
    refine ⟨file :: pre, f, post, o, rfl, ?_, ?_, fun hnonneg h0 => ?_, hf⟩
    · rw [fileByOffset, if_neg hlt, if_neg hend, hfound]
    · rw [ho, wrap64_sub_sub, lengths_cons]
    · have hfile := hnonneg file mem_cons_self
      have hsub : wrap64 (offset - file.length) = offset - file.length :=
        wrap64_of_range (by omega) (by have := h64.2; omega)
      have := hexact (fun g hg => hnonneg g (mem_cons_of_mem _ hg)) (by omega)
      rw [lengths_cons]
      omega

theorem fileByOffset_not_contains {files} (panic : OffsetPanic) (l : File) :
    ∀ {last : File} {offset : ℤ}, IsInt64 offset → ¬ Contains (files ++ [l]) offset →
    fileByOffset panic (files ++ [l]) last offset =
      if wrap64 (offset - lengths (files ++ [l])) > l.length then .error panic
      else .ok (l, wrap64 (offset - lengths (files ++ [l]))) := by
  induction files with
  | nil =>
    intro last offset h64 hc
    have hlt : ¬ offset < l.length := fun h => hc ⟨[], l, [], rfl, .inl (by
      rwa [lengths_nil, sub_zero, h64.wrap])⟩
    have hend : ¬ (offset = l.length ∧ ([] : List File) = []) := fun h =>
      hc ⟨[], l, [], rfl, .inr ⟨rfl, by rw [lengths_nil, sub_zero, h64.wrap, h.1]⟩⟩
    rw [nil_append, fileByOffset, if_neg hlt, if_neg hend, fileByOffset]
    simp only [lengths_cons, lengths_nil, add_zero]
  | cons file files ih =>
    intro last offset h64 hc
    have hlt : ¬ offset < file.length := fun h => hc ⟨[], file, files ++ [l], rfl, .inl (by
      rwa [lengths_nil, sub_zero, h64.wrap])⟩
    have hrest : ¬ Contains (files ++ [l]) (wrap64 (offset - file.length)) :=
      fun h => hc (h.cons file)
    rw [cons_append, fileByOffset, if_neg hlt, if_neg (by simp), ih (isInt64_wrap64 _) hrest,
      wrap64_sub_sub, ← lengths_cons]

/-! ## The whole function -/

variable {info : Info} {offset : ℤ}

theorem totalLength_dir (hdir : info.IsDir) : info.TotalLength = wrap64 (lengths info.files) := by
  rw [TotalLength, if_pos hdir]
  have h := foldl_wrap64 info.files 0
  rwa [zero_add] at h

theorem totalLength_single (hdir : ¬ info.IsDir) : info.TotalLength = info.length := by
  rw [TotalLength, if_neg hdir]

theorem writeAt_of_panic {panic} (h : info.GetFileByOffset offset = .error panic)
    (root : Bytes) (fs : FS) (p : Bytes) : (WriteAt root info fs p offset).fs = fs := by
  rw [WriteAt, writeLoop, h]
  split_ifs <;> rfl

def Info.lastLength (info : Info) : ℤ := (info.files.getLast?.map File.length).getD 0

def FoundAt (info : Info) (offset : ℤ) : Prop :=
  ¬ info.IsDir ∨ Contains info.files offset ∧ offset ≤ info.TotalLength ∨
    ¬ Contains info.files offset ∧ info.TotalLength < offset ∧
      info.lastLength < wrap64 (offset - info.TotalLength)

theorem finds_single (hdir : ¬ info.IsDir) (h64 : IsInt64 offset) : Finds info offset := by
  have htotal := totalLength_single hdir
  have hget : info.GetFileByOffset offset = if offset > info.length then
      .error ⟨offset, info.length⟩ else .ok (⟨info.length, [info.name]⟩, offset) := by
    have hfalse : info.IsDir = false := by simpa using hdir
    rw [GetFileByOffset, hfalse]; rfl
  by_cases hlt : offset > info.length
  · rw [if_pos hlt] at hget
    refine ⟨by simp [hget, htotal, hlt], fun f o h => ?_, fun _ => writeAt_of_panic hget⟩
    rw [hget] at h
    cases h
  · rw [if_neg hlt] at hget
    refine ⟨by simp [hget, htotal, hlt], fun f o h => ?_, fun h => absurd (htotal ▸ h) hlt⟩
    rw [hget] at h
    cases h
    refine ⟨[], [], by rw [torrentFiles, if_neg hdir]; rfl, ?_, ?_, ?_⟩
    · rw [lengths_nil, zero_add, h64.wrap]
    · intro _; rw [lengths_nil, zero_add]
    · rw [htotal]
      rcases lt_or_eq_of_le (not_lt.1 hlt) with h | h
      · exact .inl h
      · exact .inr ⟨rfl, h, h⟩

theorem finds_of_contains (hdir : info.IsDir) (h0 : 0 ≤ offset) (h64 : IsInt64 offset)
    (hc : Contains info.files offset) : Finds info offset ↔ offset ≤ info.TotalLength := by
  obtain ⟨pre, f, post, o, hsplit, hfound, ho, hexact, hf⟩ :=
    fileByOffset_contains ⟨offset, info.TotalLength⟩ ⟨0, []⟩ h64 hc
  have hget : info.GetFileByOffset offset = .ok (f, o) := by
    rw [GetFileByOffset, hdir]; exact hfound
  constructor
  · intro h
    by_contra hlt
    obtain ⟨p, hp⟩ := h.panics_iff.2 (not_le.1 hlt)
    rw [hget] at hp
    cases hp
  · intro hle
    refine ⟨by simp [hget, hle], fun f' o' h => ?_, fun h => absurd h (not_lt.2 hle)⟩
    rw [hget] at h
    cases h
    refine ⟨pre, post, by rw [torrentFiles, if_pos hdir, hsplit], ?_,
      fun hnonneg => hexact hnonneg h0, ?_⟩
    · rw [ho, add_comm, wrap64_wrap64_add, sub_add_cancel, h64.wrap]
    · rcases hf with hf | ⟨hpost, hf⟩
      · exact .inl hf
      · refine .inr ⟨hpost, hf, ?_⟩
        -- the offset is the sum of all lengths
        have hsum : lengths info.files = lengths pre + o := by rw [hsplit, hpost, hf]; simp
        rw [totalLength_dir hdir, hsum, ho, add_comm, wrap64_wrap64_add, sub_add_cancel, h64.wrap]

theorem finds_of_not_contains (hdir : info.IsDir) (h64 : IsInt64 offset)
    (hc : ¬ Contains info.files offset) : Finds info offset ↔
      info.TotalLength < offset ∧ info.lastLength < wrap64 (offset - info.TotalLength) := by
  have hne : info.files ≠ [] := of_decide_eq_true hdir
  obtain ⟨files, l, hsplit⟩ : ∃ files l, info.files = files ++ [l] :=
    ⟨_, _, (dropLast_append_getLast hne).symm⟩
  have hlast : info.lastLength = l.length := by rw [lastLength, hsplit]; simp
  have hrest : wrap64 (offset - lengths info.files) = wrap64 (offset - info.TotalLength) := by
    rw [totalLength_dir hdir, ← wrap64_wrap64_sub, h64.wrap, ← wrap64_wrap64_sub offset,
      h64.wrap, (isInt64_wrap64 _).wrap]
  have hget : info.GetFileByOffset offset =
      if wrap64 (offset - info.TotalLength) > l.length then .error ⟨offset, info.TotalLength⟩
      else .ok (l, wrap64 (offset - info.TotalLength)) := by
    rw [GetFileByOffset, hdir, ← hrest, hsplit]
    rw [hsplit] at hc
    exact fileByOffset_not_contains _ l h64 hc
  rw [hlast]
  by_cases hgt : wrap64 (offset - info.TotalLength) > l.length
  · rw [if_pos hgt] at hget
    constructor
    · intro h
      exact ⟨h.panics_iff.1 ⟨_, hget⟩, hgt⟩
    · rintro ⟨hlt, -⟩
      refine ⟨by simp [hget, hlt], fun f o h => ?_, fun _ => writeAt_of_panic hget⟩
      rw [hget] at h
      cases h
  · rw [if_neg hgt] at hget
    refine ⟨fun h => ?_, fun h => absurd h.2 hgt⟩
    -- the place that is returned would be one that contains the offset
    obtain ⟨pre, post, hfiles, hsum, -, hf⟩ := h.located _ _ hget
    rw [torrentFiles, if_pos hdir] at hfiles
    refine absurd ⟨pre, l, post, hfiles, ?_⟩ hc
    have h64' := isInt64_wrap64 (offset - info.TotalLength)
    set o := wrap64 (offset - info.TotalLength)
    have hplace : wrap64 (offset - lengths pre) = o := by
      rw [← hsum, sub_eq_add_neg, wrap64_wrap64_add, add_comm (lengths pre), add_neg_cancel_right,
        h64'.wrap]
    rw [hplace]
    rcases hf with hf | ⟨hpost, hf, -⟩
    · exact .inl hf
    · exact .inr ⟨hpost, hf⟩

theorem contains_of_le {files} (hne : files ≠ []) (hnonneg : ∀ f ∈ files, 0 ≤ f.length) :
    ∀ {offset : ℤ}, 0 ≤ offset → IsInt64 offset → offset ≤ lengths files → Contains files offset := by
  induction files with
  | nil => exact absurd rfl hne
  | cons file files ih =>
    intro offset h0 h64 hle
    rw [lengths_cons] at hle
    have hwrap : wrap64 (offset - lengths []) = offset := by rw [lengths_nil, sub_zero, h64.wrap]
    by_cases hlt : offset < file.length
    · exact ⟨[], file, files, rfl, .inl (by rwa [hwrap])⟩
    by_cases hnil : files = []
    · have hzero : lengths files = 0 := by rw [hnil]; rfl
      exact ⟨[], file, files, rfl, .inr ⟨hnil, by omega⟩⟩
    have hfile := hnonneg file mem_cons_self
    have hsub : IsInt64 (offset - file.length) := by
      have h1 := h64.1
      have h2 := h64.2
      constructor <;> omega
    refine Contains.cons file ?_
    rw [hsub.wrap]
    exact ih hnil (fun f hf => hnonneg f (mem_cons_of_mem _ hf)) (by omega) hsub (by omega)

theorem lengths_nonneg {files} (h : ∀ f ∈ files, 0 ≤ f.length) : 0 ≤ lengths files :=
  sum_nonneg fun x hx => by
    obtain ⟨f, hf, rfl⟩ := mem_map.1 hx
    exact h f hf

theorem le_of_contains {files} (hnonneg : ∀ f ∈ files, 0 ≤ f.length) (h0 : 0 ≤ offset)
    (h64 : IsInt64 offset) (hc : Contains files offset) : offset ≤ lengths files := by
  obtain ⟨pre, f, post, o, rfl, -, -, hexact, hf⟩ := fileByOffset_contains ⟨0, 0⟩ ⟨0, []⟩ h64 hc
  have hsum := hexact (fun g hg => hnonneg g (mem_append_left _ hg)) h0
  have hpost := lengths_nonneg fun g hg => hnonneg g (mem_append_right _ (mem_cons_of_mem f hg))
  rw [lengths_append, lengths_cons]
  omega

theorem foundAt_iff (hnonneg : ∀ f ∈ info.files, 0 ≤ f.length) (hfit : lengths info.files < 2 ^ 63)
    (h0 : 0 ≤ offset) (h64 : IsInt64 offset) : FoundAt info offset ↔
      ¬ (info.TotalLength < offset ∧ offset ≤ info.TotalLength + info.lastLength) := by
  rw [FoundAt]
  by_cases hdir : info.IsDir
  · have hne : info.files ≠ [] := of_decide_eq_true hdir
    have hsum := lengths_nonneg hnonneg
    have htotal : info.TotalLength = lengths info.files := by
      rw [totalLength_dir hdir, wrap64_of_range (by omega) hfit]
    have hcontains : Contains info.files offset ↔ offset ≤ lengths info.files :=
      ⟨le_of_contains hnonneg h0 h64, contains_of_le hne hnonneg h0 h64⟩
    have hrest : info.TotalLength < offset →
        wrap64 (offset - info.TotalLength) = offset - info.TotalLength := fun h =>
      wrap64_of_range (by omega) (by have := h64.2; omega)
    rw [hcontains, ← htotal]
    constructor
    · rintro (h | ⟨hle, -⟩ | ⟨-, hlt, hlast⟩)
      · exact absurd hdir h
      · omega
      · rw [hrest hlt] at hlast
        omega
    · intro h
      by_cases hle : offset ≤ info.TotalLength
      · exact .inr (.inl ⟨hle, hle⟩)
      · have hlt := not_le.1 hle
        refine .inr (.inr ⟨hle, hlt, ?_⟩)
        rw [hrest hlt]
        by_contra hlast
        exact h ⟨hlt, by omega⟩
  · have hnil : info.files = [] := by simpa [IsDir] using hdir
    have hlast : info.lastLength = 0 := by rw [lastLength, hnil]; rfl
    rw [hlast]
    exact ⟨fun _ => by omega, fun _ => .inl hdir⟩

/-- **Which offsets are found.** -/
theorem finds_iff (info : Info) {offset : ℤ} (h0 : 0 ≤ offset) (hmax : offset < 2 ^ 63) :
    (Finds info offset ↔ FoundAt info offset) ∧
    ((∀ f ∈ info.files, 0 ≤ f.length) → lengths info.files < 2 ^ 63 → (Finds info offset ↔
        ¬ (info.TotalLength < offset ∧ offset ≤ info.TotalLength + info.lastLength))) := by
  have h64 : IsInt64 offset := ⟨by omega, hmax⟩
  have hfinds : Finds info offset ↔ FoundAt info offset := by
    rw [FoundAt]
    by_cases hdir : info.IsDir
    · by_cases hc : Contains info.files offset
      · simp [finds_of_contains hdir h0 h64 hc, hdir, hc]
      · simp [finds_of_not_contains hdir h64 hc, hdir, hc]
    · simp [finds_single hdir h64, hdir]
  exact ⟨hfinds, fun hnonneg hfit => hfinds.trans (foundAt_iff hnonneg hfit h0 h64)⟩

theorem finds_iff_sample : Finds sampleInfo 9 ∧ ¬ Finds sampleInfo 8 := by
  have h (offset : ℤ) (h0 : 0 ≤ offset) (hmax : offset < 2 ^ 63) :=
    (finds_iff sampleInfo h0 hmax).2 (by simp [sampleInfo]) (by simp [sampleInfo])
  have htotal : sampleInfo.TotalLength = 5 := by decide
  have hlast : sampleInfo.lastLength = 3 := rfl
  rw [h 9 (by decide) (by decide), h 8 (by decide) (by decide), htotal, hlast]
  decide

theorem getFileByOffset_beyond : sampleInfo.TotalLength = 5 ∧
    sampleInfo.GetFileByOffset 6 = .ok (⟨3, [utf8 "c"]⟩, 1) ∧
    sampleFS (utf8 "t/c") = some [3, 4, 5] ∧
    (WriteAt [] sampleInfo sampleFS [9] 6).fs (utf8 "t/c") = some [3, 9, 5] :=
  ⟨rfl, rfl, rfl, rfl⟩

end GoI2pBt.Metainfo
