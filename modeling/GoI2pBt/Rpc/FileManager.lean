/-
  Moving the files of a torrent: when all are moved or none.
-/
import GoI2pBt.Lib.Relocate
import GoI2pBt.Metainfo.MetaInfo
import GoI2pBt.Metainfo.Storage

namespace GoI2pBt.Rpc

open List Metainfo Function Option

/-! ## The operating system -/

structure Disk where
  fs : FS
  fault : Option ℕ

def nextFault : Option ℕ → Option ℕ
  | some (n + 1) => some n
  | _ => none

def attempt (d : Disk) : Bool × Disk := (d.fault = some 0, ⟨d.fs, nextFault d.fault⟩)

def osRename (source dest : Bytes) (d : Disk) : Bool × Disk :=
  let (failed, d) := attempt d
  if failed then (false, d)
  else if d.fs source = none then (false, d)
  else (true, { d with fs := move d.fs source dest })

def osRemove (path : Bytes) (d : Disk) : Bool × Disk :=
  let (failed, d) := attempt d
  if failed then (false, d)
  else if d.fs path = none then (false, d)
  else (true, { d with fs := without d.fs path })

def Disk.write (d : Disk) (path content : Bytes) : Disk :=
  { d with fs := update d.fs path (some content) }

/-! ## Moving a file -/

inductive MoveErr where
  | os
  | wrap (text : String) (err : MoveErr)
  | wrapPath (text : String) (path : Bytes) (err : MoveErr)
  | space (need have_ minimum : ℤ)

def copyFile (copied : ℕ) (source dest : Bytes) (d : Disk) : Except MoveErr Unit × Disk :=
  let (failed, d) := attempt d
  if failed ∨ d.fs source = none then (.error (.wrap "failed to open source" .os), d)
  else
    let (failed, d) := attempt d
    if failed then (.error (.wrap "failed to stat source" .os), d)
    else
      -- `os.O_CREATE|os.O_WRONLY|os.O_TRUNC`
      let (failed, d) := attempt d
      if failed then (.error (.wrap "failed to create destination" .os), d)
      else
        let d := d.write dest []
        let contents := (d.fs source).getD []
        let (failed, d) := attempt d
        if failed then
          (.error (.wrap "failed to copy contents" .os), d.write dest (contents.take copied))
        else
          let d := d.write dest contents
          let (failed, d) := attempt d
          if failed then (.error (.wrap "failed to sync destination" .os), d) else (.ok (), d)

def moveFile (copied : ℕ) (source dest : Bytes) (d : Disk) : Except MoveErr Unit × Disk :=
  let (renamed, d) := osRename source dest d
  if renamed then (.ok (), d)
  else
    match copyFile copied source dest d with
    | (.error err, d) => (.error (.wrap "copy failed" err), d)
    | (.ok (), d) =>
      let (removed, d) := osRemove source d
      if removed then (.ok (), d)
      else
        let (_, d) := osRemove dest d
        (.error (.wrap "failed to remove source after copy" .os), d)

def rollbackMoves (movedFiles : List (Bytes × Bytes)) (d : Disk) : Disk :=
  movedFiles.foldr (fun moved d => (osRename moved.2 moved.1 d).2) d

/-! ## Moving a torrent -/

structure MoveEnv where
  minimumFreeSpace : ℤ
  /-- `os.Stat` finds the directory. -/
  accessible : Bytes → Bool
  /-- `int64(stat.Bavail) * int64(stat.Bsize)`. -/
  available : Bytes → ℤ
  copied : ℕ

variable (env : MoveEnv)

def CheckDiskSpace (path : Bytes) (requiredBytes : ℤ) (d : Disk) : Except MoveErr Unit × Disk :=
  let (failed, d) := attempt d
  if failed then (.error (.wrap "failed to get filesystem stats" .os), d)
  else
    let totalRequired := wrap64 (requiredBytes + env.minimumFreeSpace)
    if env.available path < totalRequired then
      (.error (.space requiredBytes (wrap64 (env.available path - env.minimumFreeSpace))
        env.minimumFreeSpace), d)
    else (.ok (), d)

def validateMoveDirectories (sourceDir destDir : Bytes) (totalSize : ℤ) (d : Disk) :
    Except MoveErr Unit × Disk :=
  let (failed, d) := attempt d
  if failed ∨ env.accessible sourceDir = false then
    (.error (.wrap "source directory not accessible" .os), d)
  else
    let (failed, d) := attempt d
    if failed then (.error (.wrap "failed to create destination directory" .os), d)
    else
      match CheckDiskSpace env destDir totalSize d with
      | (.error err, d) => (.error (.wrap "insufficient disk space" err), d)
      | (.ok (), d) => (.ok (), d)

def movePaths (info : Info) (sourceDir destDir : Bytes) (preserveStructure : Bool) (file : File) :
    Bytes × Bytes :=
  (joinPath [sourceDir, file.Path info],
    if preserveStructure then joinPath [destDir, file.Path info]
    else joinPath [destDir, basePath (file.Path info)])

def processFiles : List (Bytes × Bytes) → List (Bytes × Bytes) → Disk → Except MoveErr Unit × Disk
  | [], _, d => (.ok (), d)
  | (srcFile, destFile) :: files, movedFiles, d =>
    -- `os.MkdirAll(filepath.Dir(destFile), 0o755)`
    let (failed, d) := attempt d
    if failed then
      (.error (.wrapPath "failed to create directory for " destFile .os), rollbackMoves movedFiles d)
    else
      match moveFile env.copied srcFile destFile d with
      | (.error err, d) =>
        (.error (.wrapPath "failed to move file " srcFile err), rollbackMoves movedFiles d)
      | (.ok (), d) => processFiles files (movedFiles ++ [(srcFile, destFile)]) d

def processMultiFileTorrent (info : Info) (sourceDir destDir : Bytes) (preserveStructure : Bool)
    (d : Disk) : Except MoveErr Unit × Disk :=
  processFiles env (info.files.map (movePaths info sourceDir destDir preserveStructure)) [] d

def processSingleFileTorrent (info : Info) (sourceDir destDir : Bytes) (d : Disk) :
    Except MoveErr Unit × Disk :=
  let sourcePath := joinPath [sourceDir, info.name]
  match moveFile env.copied sourcePath (joinPath [destDir, info.name]) d with
  | (.error err, d) => (.error (.wrapPath "failed to move single file " sourcePath err), d)
  | (.ok (), d) => (.ok (), d)

def MoveFiles (info : Info) (sourceDir destDir : Bytes) (preserveStructure : Bool) (d : Disk) :
    Except MoveErr Unit × Disk :=
  match validateMoveDirectories env sourceDir destDir info.TotalLength d with
  | (.error err, d) => (.error err, d)
  | (.ok (), d) =>
    if info.IsDir then processMultiFileTorrent env info sourceDir destDir preserveStructure d
    else processSingleFileTorrent env info sourceDir destDir d

/-! ## One file -/

section OneFile

variable {fs : FS} {source dest : Bytes} {copied : ℕ} (r : Option ℕ)

theorem attempt_later (k : ℕ) :
    attempt ⟨fs, r.map (· + (k + 1))⟩ = (false, ⟨fs, r.map (· + k)⟩) := by
  cases r <;> rfl

theorem osRename_found (h : fs source ≠ none) :
    osRename source dest ⟨fs, r.map (· + 1)⟩ = (true, ⟨move fs source dest, r⟩) := by
  have hlater : attempt ⟨fs, r.map (· + (0 + 1))⟩ = (false, ⟨fs, r.map (· + 0)⟩) := attempt_later r 0
  simp only [zero_add, add_zero, Option.map_id'] at hlater
  rw [osRename, hlater]
  dsimp only
  rw [if_neg Bool.false_ne_true, if_neg h]

theorem osRename_missing (f : Option ℕ) (h : fs source = none) :
    osRename source dest ⟨fs, f⟩ = (false, ⟨fs, nextFault f⟩) := by
  rw [osRename, attempt]
  dsimp only
  rw [if_pos h, ite_self]

theorem osRename_fault : osRename source dest ⟨fs, some 0⟩ = (false, ⟨fs, none⟩) := rfl

theorem osRename_disk :
    (osRename source dest ⟨fs, r.map (· + 1)⟩).2 = ⟨move fs source dest, r⟩ := by
  by_cases h : fs source = none
  · rw [osRename_missing _ h, move_of_none h]
    cases r <;> rfl
  · rw [osRename_found r h]

theorem copyFile_missing (f : Option ℕ) (h : fs source = none) :
    copyFile copied source dest ⟨fs, f⟩ =
      (.error (.wrap "failed to open source" .os), ⟨fs, nextFault f⟩) := by
  rw [copyFile, attempt]
  dsimp only
  rw [if_pos (.inr h)]

theorem copyFile_found (h : fs source ≠ none) : copyFile copied source dest ⟨fs, none⟩ =
    (.ok (), ⟨update fs dest
      (some ((update fs dest (some []) source).getD [])), none⟩) := by
  rw [copyFile, attempt]
  dsimp only
  rw [if_neg (by simp [h])]
  simp [attempt, nextFault, Disk.write]

theorem moveFile_missing (f : Option ℕ) (h : fs source = none) :
    moveFile copied source dest ⟨fs, f⟩ =
      (.error (.wrap "copy failed" (.wrap "failed to open source" .os)),
        ⟨fs, nextFault (nextFault f)⟩) := by
  rw [moveFile, osRename_missing f h]
  dsimp only
  rw [if_neg Bool.false_ne_true, copyFile_missing _ h]

theorem moveFile_renamed (h : fs source ≠ none) :
    moveFile copied source dest ⟨fs, r.map (· + 1)⟩ = (.ok (), ⟨move fs source dest, r⟩) := by
  rw [moveFile, osRename_found r h]
  dsimp only
  rw [if_pos rfl]

theorem moveFile_copied (h : fs source ≠ none) (hne : source ≠ dest) :
    moveFile copied source dest ⟨fs, some 0⟩ = (.ok (), ⟨move fs source dest, none⟩) := by
  obtain ⟨c, hc⟩ := ne_none_iff_exists'.1 h
  have hremove : osRemove source ⟨update fs dest (some c), none⟩ =
      (true, ⟨move fs source dest, none⟩) := by
    have hsource : update fs dest (some c) source = some c := by
      rw [update_of_ne hne, hc]
    rw [osRemove, attempt]
    simp only [reduceCtorEq, decide_false, Bool.false_eq_true, if_false, hsource]
    rw [move_of_some hc hne, without, update_comm hne.symm]
    rfl
  rw [moveFile, osRename_fault]
  dsimp only
  rw [if_neg Bool.false_ne_true, copyFile_found h]
  dsimp only
  rw [update_of_ne hne, hc, getD_some, hremove]
  dsimp only
  rw [if_pos rfl]

theorem moveFile_self (h : fs source ≠ none) :
    moveFile copied source source ⟨fs, some 0⟩ = (.ok (), ⟨without fs source, none⟩) := by
  have hremove : osRemove source ⟨update fs source (some []), none⟩ =
      (true, ⟨without fs source, none⟩) := by
    rw [osRemove, attempt]
    simp only [reduceCtorEq, decide_false, Bool.false_eq_true, if_false, update_self,
      without, update_idem]
    rfl
  rw [moveFile, osRename_fault]
  dsimp only
  rw [if_neg Bool.false_ne_true, copyFile_found h]
  dsimp only
  rw [update_self, getD_some, hremove]
  dsimp only
  rw [if_pos rfl]

end OneFile

/-! ## The loop -/

section Loop

variable (fs : FS) (moved files : List (Bytes × Bytes)) (p : Bytes × Bytes) (r : Option ℕ)

theorem rollbackMoves_later :
    rollbackMoves moved ⟨fs, r.map (· + moved.length)⟩ = ⟨undoAll fs moved, r⟩ := by
  induction moved generalizing r with
  | nil => cases r <;> rfl
  | cons p moved ih =>
    have hfault : r.map (· + (p :: moved).length) = (r.map (· + 1)).map (· + moved.length) := by
      rw [Option.map_map]
      congr 1
      funext n
      simp only [length_cons, comp_apply]
      omega
    rw [hfault, rollbackMoves, foldr_cons, ← rollbackMoves, ih, osRename_disk, undoAll_cons]

theorem rollbackMoves_none : rollbackMoves moved ⟨fs, none⟩ = ⟨undoAll fs moved, none⟩ :=
  rollbackMoves_later fs moved none

theorem rollbackMoves_last :
    rollbackMoves (p :: moved) ⟨fs, some moved.length⟩ = ⟨undoAll fs moved, none⟩ := by
  have h := rollbackMoves_later fs moved (some 0)
  rw [map_some, zero_add] at h
  rw [rollbackMoves, foldr_cons, ← rollbackMoves, h, osRename_fault]

theorem processFiles_mkdir : ∃ err, processFiles env (p :: files) moved ⟨fs, some 0⟩ =
    (.error err, ⟨undoAll fs moved, none⟩) := by
  rw [processFiles, ← rollbackMoves_none]
  exact ⟨_, rfl⟩

variable {fs p} in
theorem processFiles_missing (h : fs p.1 = none) :
    ∃ err, processFiles env (p :: files) moved ⟨fs, r.map (· + 3)⟩ =
      (.error err, rollbackMoves moved ⟨fs, r⟩) := by
  have hnext : nextFault (nextFault (r.map (· + 2))) = r := by cases r <;> rfl
  rw [processFiles, attempt_later r 2]
  dsimp only
  rw [if_neg Bool.false_ne_true, moveFile_missing _ h, hnext]
  exact ⟨_, rfl⟩

variable {fs p} in
theorem processFiles_self (h : fs p.1 ≠ none) (hself : p.1 = p.2) :
    processFiles env (p :: files) moved ⟨fs, some 1⟩ =
      processFiles env files (moved ++ [p]) ⟨without fs p.1, none⟩ := by
  have hmove : moveFile env.copied p.1 p.2 ⟨fs, some 0⟩ = (.ok (), ⟨without fs p.1, none⟩) := by
    rw [← hself, moveFile_self h]
  rw [processFiles, attempt]
  simp only [nextFault, some.injEq, one_ne_zero, decide_false, Bool.false_eq_true, if_false, hmove]

variable {fs} in
theorem processFiles_found {l} (h : Found fs l) :
    processFiles env (l ++ files) moved ⟨fs, r.map (· + 2 * l.length)⟩ =
      processFiles env files (moved ++ l) ⟨moveAll fs l, r⟩ := by
  induction l generalizing fs moved with
  | nil =>
    have : r.map (· + 2 * ([] : List (Bytes × Bytes)).length) = r := by cases r <;> rfl
    rw [this, append_nil]
    rfl
  | cons p l ih =>
    have hfault : r.map (· + 2 * (p :: l).length) =
        (r.map (· + 2 * l.length)).map (· + (1 + 1)) := by
      rw [Option.map_map]
      congr 1
    rw [cons_append, processFiles, hfault, attempt_later _ 1]
    dsimp only
    rw [if_neg Bool.false_ne_true, moveFile_renamed _ h.1]
    dsimp only
    rw [ih _ h.2, append_assoc, singleton_append]
    rfl

variable {fs p} in
theorem processFiles_fails {l} (htidy : Tidy fs l) (hmissing : moveAll fs l p.1 = none) :
    ∃ err, processFiles env (l ++ p :: files) moved ⟨fs, none⟩ =
      (.error err, ⟨undoAll fs moved, none⟩) := by
  obtain ⟨err, hfail⟩ := processFiles_missing env (moved ++ l) files none hmissing
  have hrun := processFiles_found env moved (p :: files) none htidy.found
  rw [map_none] at hfail hrun
  refine ⟨err, ?_⟩
  rw [hrun, hfail, rollbackMoves_none, undoAll_append, htidy.undoAll_moveAll]

end Loop

/-! ## All or nothing -/

structure AllMoved (fs fs' : FS) (files : List (Bytes × Bytes)) : Prop where
  distinct : (files.map Prod.snd).Nodup
  found : ∀ p ∈ files, ∃ c, fs p.1 = some c ∧ fs' p.2 = some c
  others : ∀ path c, fs path = some c → (∀ p ∈ files, path ≠ p.1) → fs' path = some c

def AllKept (fs fs' : FS) : Prop := ∀ path c, fs path = some c → fs' path = some c

structure AllOrNothing (fs : FS) (files : List (Bytes × Bytes))
    (result : Except MoveErr Unit × Disk) : Prop where
  all : result.1 = .ok () → AllMoved fs result.2.fs files
  nothing : ∀ err, result.1 = .error err → AllKept fs result.2.fs

def FirstMissing (fs : FS) (files : List (Bytes × Bytes)) : Prop :=
  ∃ p rest, files = p :: rest ∧ fs p.1 = none

structure Orderly (fs : FS) (files : List (Bytes × Bytes)) : Prop where
  present : ∀ p ∈ files, fs p.1 ≠ none
  proper : ∀ p ∈ files, p.1 ≠ p.2
  apart : files.Pairwise fun p q => p.1 ≠ q.1 ∧ p.2 ≠ q.2 ∧ q.1 ≠ p.2
  free : ∀ pre p post, files = pre ++ p :: post →
    fs p.2 = none ∨ (∃ q ∈ pre, p.2 = q.1) ∨ (post = [] ∧ fs p.2 = fs p.1)

theorem not_allKept_without {fs path} (h : fs path ≠ none) : ¬ AllKept fs (without fs path) := by
  intro hkept
  obtain ⟨c, hc⟩ := ne_none_iff_exists'.1 h
  have := hkept path c hc
  rw [without_self] at this
  cases this

theorem pairwise_of_split {α : Type} {R : α → α → Prop} {l : List α}
    (h : ∀ pre a mid b post, l = pre ++ a :: (mid ++ b :: post) → R a b) : l.Pairwise R := by
  induction l with
  | nil => exact .nil
  | cons a l ih =>
    refine .cons (fun b hb => ?_) (ih fun pre x mid y post hl => ?_)
    · obtain ⟨mid, post, rfl⟩ := append_of_mem hb
      exact h [] a mid b post rfl
    · exact h (a :: pre) x mid y post (by rw [hl, cons_append])

section Needed

variable {env} {fs : FS} {files : List (Bytes × Bytes)}
  (hall : ∀ fault, AllOrNothing fs files (processFiles env files [] ⟨fs, fault⟩))

include hall

theorem tidy_of_allOrNothing {pre p q post} (hfiles : files = pre ++ p :: q :: post)
    (hpre : Tidy fs pre) (hp : moveAll fs pre p.1 ≠ none) :
    p.1 = p.2 ∨ moveAll fs pre p.2 = none := by
  by_contra hcon
  push Not at hcon
  obtain ⟨hne, hover⟩ := hcon
  have hfound : Found fs (pre ++ [p]) := found_append.2 ⟨hpre.found, hp, trivial⟩
  have hrun := processFiles_found env [] (q :: post) (some 0) hfound
  obtain ⟨err, hmkdir⟩ := processFiles_mkdir env (moveAll fs (pre ++ [p])) (pre ++ [p]) post q
  rw [nil_append, hmkdir, append_assoc, singleton_append, ← hfiles] at hrun
  have hkept := (hall _).nothing err (congrArg Prod.fst hrun)
  obtain ⟨c, hc⟩ := ne_none_iff_exists'.1 hp
  obtain ⟨path, hpath, hundo⟩ := hpre.undoAll_without hover
  rw [hrun, moveAll_append, undoAll_append] at hkept
  simp only [moveAll_cons, moveAll_nil, undoAll_cons, undoAll_nil] at hkept
  rw [move_back_over hc hne, hundo] at hkept
  exact not_allKept_without hpath hkept

theorem found_of_allOrNothing {p q pre post}
    (hfiles : files = p :: pre ++ q :: post) (htidy : Tidy fs (p :: pre)) :
    moveAll fs (p :: pre) q.1 ≠ none := by
  intro hmissing
  rcases eq_or_ne p.1 p.2 with hself | hne
  · -- the rename of the first file fails, and it is copied to itself
    obtain ⟨hsome, -, hrest⟩ := htidy
    rw [moveAll_cons] at hmissing
    rw [hself, move_self] at hrest hmissing
    obtain ⟨l1, x, l2, hsplit, htidy', hmiss⟩ := hrest.missing hsome hmissing q.2
    have hfiles' : files = p :: (l1 ++ x :: (l2 ++ post)) := by
      have : pre ++ q :: post = l1 ++ x :: (l2 ++ post) := by
        rw [← singleton_append, ← append_assoc, hsplit, append_assoc, cons_append]
      rw [hfiles, cons_append, this]
    obtain ⟨err, hfail⟩ := processFiles_fails env [p] (l2 ++ post) htidy' hmiss
    have hrun := processFiles_self env [] (l1 ++ x :: (l2 ++ post)) hsome hself
    rw [nil_append, hfail, ← hfiles'] at hrun
    have hkept := (hall _).nothing err (congrArg Prod.fst hrun)
    rw [hrun, undoAll_cons, undoAll_nil, hself, move_self] at hkept
    exact not_allKept_without (hself ▸ hsome) hkept
  · -- the last move back fails
    have hrun := processFiles_found env [] (q :: post) (some (pre.length + 3)) htidy.found
    obtain ⟨err, hfail⟩ := processFiles_missing env (p :: pre) post (some pre.length) hmissing
    rw [map_some] at hfail
    rw [nil_append, hfail, rollbackMoves_last, moveAll_cons, htidy.2.2.undoAll_moveAll,
      ← hfiles] at hrun
    have hkept := (hall _).nothing err (congrArg Prod.fst hrun)
    obtain ⟨c, hc⟩ := ne_none_iff_exists'.1 htidy.1
    have := hkept p.1 c hc
    rw [hrun] at this
    dsimp only at this
    rw [move_source hne] at this
    cases this

theorem turns_of_allOrNothing (hfirst : ¬ FirstMissing fs files) {pre} :
    ∀ {p : Bytes × Bytes} {post : List (Bytes × Bytes)}, files = pre ++ p :: post →
      Tidy fs pre ∧ moveAll fs pre p.1 ≠ none := by
  induction pre using reverseRecOn with
  | nil =>
    intro p post hfiles
    exact ⟨trivial, fun hnone => hfirst ⟨p, post, hfiles, hnone⟩⟩
  | append_singleton pre q ih =>
    intro p post hfiles
    have hfiles' : files = pre ++ q :: p :: post := by
      rw [hfiles, append_assoc, singleton_append]
    obtain ⟨htidy, hq⟩ := ih hfiles'
    have htidy' : Tidy fs (pre ++ [q]) :=
      tidy_append.2 ⟨htidy, hq, tidy_of_allOrNothing hall hfiles' htidy hq, trivial⟩
    refine ⟨htidy', ?_⟩
    obtain ⟨x, l, hl⟩ := exists_cons_of_ne_nil (append_ne_nil_of_right_ne_nil pre
      (cons_ne_nil q []))
    rw [hl] at hfiles htidy' ⊢
    exact found_of_allOrNothing hall hfiles htidy'

theorem allMoved_of_allOrNothing (hfound : Found fs files) :
    AllMoved fs (moveAll fs files) files := by
  have hrun := processFiles_found env [] [] none hfound
  rw [append_nil, nil_append, map_none, processFiles] at hrun
  have := (hall none).all (congrArg Prod.fst hrun)
  rwa [hrun] at this

theorem ne_of_allOrNothing {p pre post} (hfiles : files = pre ++ p :: post)
    (hfound : Found fs files) (hpost : ∀ q ∈ post, q.1 ≠ p.2 ∧ p.2 ≠ q.2) : p.1 ≠ p.2 := by
  intro hself
  rw [hfiles, found_append] at hfound
  obtain ⟨hpre, hp, hrest⟩ := hfound
  rw [hself, move_self] at hrest
  have hrest' : Found (without (moveAll fs pre) p.1) (post ++ []) := by
    rw [append_nil, hself]
    exact hrest.without fun q hq => ⟨(hpost q hq).1.symm, (hpost q hq).2⟩
  have hrun := processFiles_found env [] (p :: post) (some 1) hpre
  have hdone := processFiles_found env (pre ++ [p]) [] none (append_nil post ▸ hrest')
  rw [append_nil, map_none, processFiles] at hdone
  rw [nil_append, processFiles_self env pre post hp hself, hdone, ← hfiles] at hrun
  have hmoved := (hall _).all (congrArg Prod.fst hrun)
  obtain ⟨c, -, hc⟩ := hmoved.found p (by rw [hfiles]; simp)
  rw [hrun] at hc
  dsimp only at hc
  rw [moveAll_eq_none (by rw [hself, without_self]) fun q hq => (hpost q hq).2] at hc
  cases hc

theorem orderly_of_allOrNothing (hfirst : ¬ FirstMissing fs files) : Orderly fs files := by
  have hturn := fun {pre p post} (h : files = pre ++ p :: post) =>
    turns_of_allOrNothing hall hfirst h
  have hfound : Found fs files := by
    rcases eq_nil_or_concat files with hnil | ⟨pre, p, hfiles⟩
    · rw [hnil]
      trivial
    · rw [concat_eq_append] at hfiles
      obtain ⟨htidy, hp⟩ := hturn hfiles
      rw [hfiles]
      exact found_append.2 ⟨htidy.found, hp, trivial⟩
  have hmoved := allMoved_of_allOrNothing hall hfound
  have htargets : files.Pairwise fun p q => p.2 ≠ q.2 := pairwise_map.1 hmoved.distinct
  -- a later file does not take an earlier one along
  have hreuse : ∀ pre p mid q post, files = pre ++ p :: (mid ++ q :: post) → q.1 ≠ p.2 := by
    intro pre p mid q post hfiles heq
    rw [hfiles, pairwise_append, pairwise_cons, pairwise_append, pairwise_cons] at htargets
    obtain ⟨-, ⟨hp, -⟩, -⟩ := htargets
    obtain ⟨c, -, hc⟩ := hmoved.found p (by rw [hfiles]; simp)
    have hne : q.1 ≠ q.2 := heq ▸ hp q (by simp)
    rw [hfiles, moveAll_append, moveAll_cons, moveAll_append, moveAll_cons, moveAll_eq_none] at hc
    · cases hc
    · rw [← heq, move_source hne]
    · exact fun x hx => hp x (by simp [hx])
  have hafter : ∀ {pre p post}, files = pre ++ p :: post → ∀ q ∈ post, q.1 ≠ p.2 ∧ p.2 ≠ q.2 := by
    intro pre p post hfiles q hq
    obtain ⟨mid, post, rfl⟩ := append_of_mem hq
    refine ⟨hreuse pre p mid q post hfiles, ?_⟩
    rw [hfiles, pairwise_append, pairwise_cons] at htargets
    exact htargets.2.1.1 q (by simp)
  have hproper : ∀ p ∈ files, p.1 ≠ p.2 := by
    intro p hp
    obtain ⟨pre, post, hfiles⟩ := append_of_mem hp
    exact ne_of_allOrNothing hall hfiles hfound (hafter hfiles)
  refine ⟨fun p hp => ?_, hproper, pairwise_of_split fun pre p mid q post hfiles => ?_,
    fun pre p post hfiles => ?_⟩
  · obtain ⟨c, hc, -⟩ := hmoved.found p hp
    rw [hc]
    nofun
  · have hpq := hafter hfiles q (by simp)
    refine ⟨fun heq => ?_, hpq.2, hpq.1⟩
    -- the second turn finds nothing
    have hfiles' : files = (pre ++ p :: mid) ++ q :: post := by
      rw [hfiles, append_assoc, cons_append]
    refine (hturn hfiles').2 ?_
    rw [moveAll_append, moveAll_cons]
    refine moveAll_eq_none ?_ fun x hx => ?_
    · rw [← heq, move_source (hproper p (by rw [hfiles]; simp))]
    · obtain ⟨m1, m2, rfl⟩ := append_of_mem hx
      refine hreuse (pre ++ p :: m1) x m2 q post ?_
      rw [hfiles]
      simp
  · have hpre : ∀ q ∈ pre, p.2 ≠ q.2 := by
      rw [hfiles, pairwise_append] at htargets
      exact fun q hq => (htargets.2.2 q hq p (by simp)).symm
    have hne : p.1 ≠ p.2 := hproper p (by rw [hfiles]; simp)
    by_cases hnone : moveAll fs pre p.2 = none
    · rcases eq_none_or_of_moveAll_eq_none hnone with h | ⟨q, hq, heq⟩
      · exact .inl h
      · exact .inr (.inl ⟨q, hq, heq⟩)
    · cases post with
      | cons q post =>
        obtain ⟨htidy, hp⟩ := hturn hfiles
        exact absurd (tidy_of_allOrNothing hall hfiles htidy hp) (by simp [hne, hnone])
      | nil =>
        -- what the last file is written over was there from the beginning
        by_cases hsource : ∃ q ∈ pre, p.2 = q.1
        · exact .inr (.inl hsource)
        push Not at hsource
        rw [moveAll_eq hsource hpre] at hnone
        obtain ⟨c, hc⟩ := ne_none_iff_exists'.1 hnone
        have hkept := hmoved.others p.2 c hc fun q hq => by
          rw [hfiles, mem_append, mem_singleton] at hq
          rcases hq with hq | rfl
          · exact hsource q hq
          · exact hne.symm
        obtain ⟨c', hc', hc''⟩ := hmoved.found p (by rw [hfiles]; simp)
        refine .inr (.inr ⟨rfl, ?_⟩)
        rw [hc, hc', ← hkept, ← hc'']

end Needed

/-! ### What is enough -/

section Enough

variable {env} {fs : FS} {files : List (Bytes × Bytes)}

theorem FirstMissing.allOrNothing (h : FirstMissing fs files) (fault : Option ℕ) :
    AllOrNothing fs files (processFiles env files [] ⟨fs, fault⟩) := by
  obtain ⟨p, rest, rfl, hmissing⟩ := h
  have hrun : ∃ err f, processFiles env (p :: rest) [] ⟨fs, fault⟩ = (.error err, ⟨fs, f⟩) := by
    rw [processFiles, attempt]
    dsimp only
    split_ifs
    · exact ⟨_, _, rfl⟩
    · rw [moveFile_missing _ hmissing]
      exact ⟨_, _, rfl⟩
  obtain ⟨err, f, hrun⟩ := hrun
  rw [hrun]
  exact ⟨nofun, fun _ _ _ _ h => h⟩

variable (h : Orderly fs files) {p : Bytes × Bytes} {pre post : List (Bytes × Bytes)}
  (hfiles : files = pre ++ p :: post)

include h hfiles

theorem Orderly.before : ∀ q ∈ pre, q.1 ≠ p.1 ∧ q.2 ≠ p.2 ∧ p.1 ≠ q.2 := by
  have hapart := h.apart
  rw [hfiles, pairwise_append] at hapart
  exact fun q hq => hapart.2.2 q hq p mem_cons_self

theorem Orderly.after : ∀ q ∈ post, p.1 ≠ q.1 ∧ p.2 ≠ q.2 ∧ q.1 ≠ p.2 := by
  have hapart := h.apart
  rw [hfiles, pairwise_append, pairwise_cons] at hapart
  exact hapart.2.1.1

omit h in
theorem mem_of_split : p ∈ files := by
  rw [hfiles]
  simp

theorem Orderly.source_eq : moveAll fs pre p.1 = fs p.1 :=
  moveAll_eq (fun q hq => (h.before hfiles q hq).1.symm) fun q hq => (h.before hfiles q hq).2.2

theorem Orderly.target_none (hpost : post ≠ []) : moveAll fs pre p.2 = none := by
  have htargets : ∀ q ∈ pre, p.2 ≠ q.2 := fun q hq => (h.before hfiles q hq).2.1.symm
  rcases h.free pre p post hfiles with hnone | ⟨q, hq, heq⟩ | ⟨hnil, -⟩
  · exact moveAll_eq_none hnone htargets
  · -- the earlier file has left
    obtain ⟨l1, l2, rfl⟩ := append_of_mem hq
    have hne : q.1 ≠ q.2 := h.proper q (by rw [hfiles]; simp)
    rw [moveAll_append, moveAll_cons]
    exact moveAll_eq_none (by rw [heq, move_source hne]) fun x hx => htargets x (by simp [hx])
  · exact absurd hnil hpost

omit hfiles in
theorem Orderly.tidy : ∀ {pre post : List (Bytes × Bytes)}, files = pre ++ post → post ≠ [] →
    Tidy fs pre := by
  intro pre
  induction pre using reverseRecOn with
  | nil => exact fun _ _ => trivial
  | append_singleton pre q ih =>
    intro post hfiles hpost
    have hfiles' : files = pre ++ q :: post := by
      rw [hfiles, append_assoc, singleton_append]
    refine tidy_append.2 ⟨ih hfiles' (cons_ne_nil _ _), ?_, .inr ?_, trivial⟩
    · rw [h.source_eq hfiles']
      exact h.present q (mem_of_split hfiles')
    · exact h.target_none hfiles' hpost

theorem Orderly.moved : moveAll fs files p.2 = fs p.1 := by
  obtain ⟨c, hc⟩ := ne_none_iff_exists'.1 (h.present p (mem_of_split hfiles))
  have hafter := h.after hfiles
  have hsource := h.source_eq hfiles
  rw [hfiles, moveAll_append, moveAll_cons,
    moveAll_eq (fun q hq => (hafter q hq).2.2.symm) fun q hq => (hafter q hq).2.1,
    move_target (hsource.trans hc), hc]

omit hfiles in
theorem Orderly.allMoved : AllMoved fs (moveAll fs files) files := by
  refine ⟨pairwise_map.2 (h.apart.imp fun hpq => hpq.2.1), fun p hp => ?_,
    fun path c hc hsources => ?_⟩
  · obtain ⟨pre, post, hfiles⟩ := append_of_mem hp
    obtain ⟨c, hc⟩ := ne_none_iff_exists'.1 (h.present p hp)
    exact ⟨c, hc, (h.moved hfiles).trans hc⟩
  · by_cases htarget : ∃ p ∈ files, path = p.2
    · obtain ⟨p, hp, rfl⟩ := htarget
      obtain ⟨pre, post, hfiles⟩ := append_of_mem hp
      rcases h.free pre p post hfiles with hnone | ⟨q, hq, heq⟩ | ⟨-, hsame⟩
      · rw [hnone] at hc
        cases hc
      · exact absurd heq (hsources q (by rw [hfiles]; simp [hq]))
      · rw [h.moved hfiles, ← hsame, hc]
    · push Not at htarget
      rw [moveAll_eq hsources htarget, hc]

omit hfiles in
theorem Orderly.allOrNothing : ∀ {pre post : List (Bytes × Bytes)}, files = pre ++ post →
    ∀ fault, AllOrNothing fs files (processFiles env post pre ⟨moveAll fs pre, fault⟩) := by
  intro pre post
  induction post generalizing pre with
  | nil =>
    intro hfiles fault
    rw [append_nil] at hfiles
    subst hfiles
    exact ⟨fun _ => h.allMoved, nofun⟩
  | cons p post ih =>
    intro hfiles fault
    have hfiles' : files = (pre ++ [p]) ++ post := by
      rw [hfiles, append_assoc, singleton_append]
    have hsource : moveAll fs pre p.1 ≠ none := by
      rw [h.source_eq hfiles]
      exact h.present p (mem_of_split hfiles)
    have hnext : ∀ f, AllOrNothing fs files (processFiles env post (pre ++ [p])
        ⟨move (moveAll fs pre) p.1 p.2, f⟩) := by
      intro f
      have := ih hfiles' f
      rwa [moveAll_append] at this
    have hturn : Found (moveAll fs pre) [p] := ⟨hsource, trivial⟩
    match fault with
    | some 0 =>
      obtain ⟨err, hmkdir⟩ := processFiles_mkdir env (moveAll fs pre) pre post p
      rw [hmkdir, (h.tidy hfiles (cons_ne_nil _ _)).undoAll_moveAll]
      exact ⟨nofun, fun _ _ _ _ h => h⟩
    | some 1 =>
      have hcopy : moveFile env.copied p.1 p.2 ⟨moveAll fs pre, some 0⟩ = _ :=
        moveFile_copied hsource (h.proper p (mem_of_split hfiles))
      rw [processFiles, attempt]
      simp only [nextFault, some.injEq, one_ne_zero, decide_false, Bool.false_eq_true,
        if_false, hcopy]
      exact hnext none
    | some (n + 2) =>
      have hstep := processFiles_found env pre post (some n) hturn
      rw [singleton_append] at hstep
      exact hstep ▸ hnext (some n)
    | none =>
      have hstep := processFiles_found env pre post none hturn
      rw [singleton_append] at hstep
      exact hstep ▸ hnext none

end Enough

theorem processFiles_allOrNothing_iff {fs files} :
    (∀ fault, AllOrNothing fs files (processFiles env files [] ⟨fs, fault⟩)) ↔
      FirstMissing fs files ∨ Orderly fs files := by
  constructor
  · intro hall
    by_cases hfirst : FirstMissing fs files
    · exact .inl hfirst
    · exact .inr (orderly_of_allOrNothing hall hfirst)
  · rintro (h | h) fault
    · exact h.allOrNothing fault
    · exact h.allOrNothing (nil_append files).symm fault

/-! ### The whole move -/

def torrentMoves (info : Info) (sourceDir destDir : Bytes) (preserveStructure : Bool) :
    List (Bytes × Bytes) :=
  if info.IsDir then info.files.map (movePaths info sourceDir destDir preserveStructure)
  else [(joinPath [sourceDir, info.name], joinPath [destDir, info.name])]

def Accepts (env : MoveEnv) (info : Info) (sourceDir destDir : Bytes) : Prop :=
  env.accessible sourceDir = true ∧
    wrap64 (info.TotalLength + env.minimumFreeSpace) ≤ env.available destDir

section Whole

variable {env} {fs : FS} {info : Info} {sourceDir destDir : Bytes}

theorem allOrNothing_of_error {files err f} :
    AllOrNothing fs files (.error err, ⟨fs, f⟩) := ⟨nofun, fun _ _ _ _ h => h⟩

theorem processSingleFileTorrent_iff (r : Option ℕ) :
    AllOrNothing fs [(joinPath [sourceDir, info.name], joinPath [destDir, info.name])]
        (processSingleFileTorrent env info sourceDir destDir ⟨fs, r⟩) ↔
      AllOrNothing fs [(joinPath [sourceDir, info.name], joinPath [destDir, info.name])]
        (processFiles env [(joinPath [sourceDir, info.name], joinPath [destDir, info.name])] []
          ⟨fs, r.map (· + 1)⟩) := by
  have hlater : attempt ⟨fs, r.map (· + 1)⟩ = (false, ⟨fs, r⟩) := by cases r <;> rfl
  rw [processSingleFileTorrent, processFiles, hlater]
  dsimp only
  rw [if_neg Bool.false_ne_true]
  generalize moveFile env.copied _ _ ⟨fs, r⟩ = result
  obtain ⟨res, d⟩ := result
  cases res with
  | error err => exact ⟨fun h => ⟨nofun, fun _ _ => h.nothing _ rfl⟩,
      fun h => ⟨nofun, fun _ _ => h.nothing _ rfl⟩⟩
  | ok u => exact Iff.rfl

theorem validate_accepts (h : Accepts env info sourceDir destDir) (r : Option ℕ) :
    validateMoveDirectories env sourceDir destDir info.TotalLength ⟨fs, r.map (· + 3)⟩ =
      (.ok (), ⟨fs, r⟩) := by
  have hspace : ¬ env.available destDir < wrap64 (info.TotalLength + env.minimumFreeSpace) :=
    not_lt.2 h.2
  have hlast : attempt ⟨fs, r.map (· + 1)⟩ = (false, ⟨fs, r⟩) := by cases r <;> rfl
  rw [validateMoveDirectories, attempt_later r 2]
  dsimp only
  rw [if_neg (by simp [h.1]), attempt_later r 1]
  dsimp only
  rw [if_neg Bool.false_ne_true, CheckDiskSpace, hlast]
  dsimp only
  rw [if_neg Bool.false_ne_true, if_neg hspace]

theorem validate_cases (fault : Option ℕ) :
    (∃ err f, validateMoveDirectories env sourceDir destDir info.TotalLength ⟨fs, fault⟩ =
      (.error err, ⟨fs, f⟩)) ∨
    Accepts env info sourceDir destDir ∧ ∃ r : Option ℕ, fault = r.map (· + 3) := by
  by_cases haccepts : Accepts env info sourceDir destDir
  · match fault with
    | none => exact .inr ⟨haccepts, none, rfl⟩
    | some (n + 3) => exact .inr ⟨haccepts, some n, rfl⟩
    | some 0 => exact .inl ⟨_, _, rfl⟩
    | some 1 =>
      refine .inl ?_
      rw [validateMoveDirectories]
      simp only [attempt, nextFault, haccepts.1]
      exact ⟨_, _, rfl⟩
    | some 2 =>
      refine .inl ?_
      rw [validateMoveDirectories]
      simp only [attempt, nextFault, haccepts.1, CheckDiskSpace]
      exact ⟨_, _, rfl⟩
  · refine .inl ?_
    rw [validateMoveDirectories, attempt]
    dsimp only
    split_ifs with haccess hmkdir
    · exact ⟨_, _, rfl⟩
    · exact ⟨_, _, rfl⟩
    rw [attempt, CheckDiskSpace, attempt]
    dsimp only
    split_ifs with hfault hspace
    · exact ⟨_, _, rfl⟩
    · exact ⟨_, _, rfl⟩
    · refine absurd ⟨?_, not_lt.1 hspace⟩ haccepts
      cases haccessible : env.accessible sourceDir with
      | true => rfl
      | false => exact absurd (.inr haccessible) haccess

end Whole

/-- **A move is all or nothing if it is orderly.** -/
theorem moveFiles_allOrNothing_iff (info : Info) (sourceDir destDir : Bytes)
    (preserveStructure : Bool) (fs : FS) :
    (∀ fault, AllOrNothing fs (torrentMoves info sourceDir destDir preserveStructure)
      (MoveFiles env info sourceDir destDir preserveStructure ⟨fs, fault⟩)) ↔
    ¬ Accepts env info sourceDir destDir ∨
      FirstMissing fs (torrentMoves info sourceDir destDir preserveStructure) ∨
      Orderly fs (torrentMoves info sourceDir destDir preserveStructure) := by
  rw [← processFiles_allOrNothing_iff env]
  -- behind the checks, the rest is the loop
  have hrest : (∀ r, AllOrNothing fs (torrentMoves info sourceDir destDir preserveStructure)
      (if info.IsDir then
        processMultiFileTorrent env info sourceDir destDir preserveStructure ⟨fs, r⟩
      else processSingleFileTorrent env info sourceDir destDir ⟨fs, r⟩)) ↔
      ∀ fault, AllOrNothing fs (torrentMoves info sourceDir destDir preserveStructure)
        (processFiles env (torrentMoves info sourceDir destDir preserveStructure) []
          ⟨fs, fault⟩) := by
    rw [torrentMoves]
    cases info.IsDir with
    | true => exact Iff.rfl
    | false =>
      simp only [Bool.false_eq_true, if_false, processSingleFileTorrent_iff]
      refine ⟨fun h fault => ?_, fun h r => h _⟩
      match fault with
      | none => exact h none
      | some (n + 1) => exact h (some n)
      | some 0 =>
        obtain ⟨err, hmkdir⟩ := processFiles_mkdir env fs [] []
          (joinPath [sourceDir, info.name], joinPath [destDir, info.name])
        rw [hmkdir]
        exact allOrNothing_of_error
  rw [← hrest]
  constructor
  · intro hall
    rw [or_iff_not_imp_left, not_not]
    intro haccepts r
    have := hall (r.map (· + 3))
    rwa [MoveFiles, validate_accepts haccepts] at this
  · intro h fault
    rw [MoveFiles]
    have hcases : (∃ err f, validateMoveDirectories env sourceDir destDir info.TotalLength
        ⟨fs, fault⟩ = (.error err, ⟨fs, f⟩)) ∨ _ := validate_cases fault
    rcases hcases with ⟨err, f, hfail⟩ | ⟨haccepts, r, rfl⟩
    · rw [hfail]
      exact allOrNothing_of_error
    · rw [validate_accepts haccepts]
      exact h.resolve_left (not_not.2 haccepts) r

def roomy : MoveEnv := ⟨0, fun _ => true, fun _ => 100, 0⟩

def sameNames : Info := ⟨utf8 "t", 1, [], 0, [⟨1, [utf8 "a", utf8 "x"]⟩, ⟨1, [utf8 "b", utf8 "x"]⟩]⟩

def sameNamesDisk : FS := fun path =>
  if path = utf8 "s/t/a/x" then some [1] else if path = utf8 "s/t/b/x" then some [2] else none

theorem flattened_collision :
    (MoveFiles roomy sameNames (utf8 "s") (utf8 "e") false ⟨sameNamesDisk, none⟩).1 = .ok () ∧
      ¬ AllOrNothing sameNamesDisk (torrentMoves sameNames (utf8 "s") (utf8 "e") false)
        (MoveFiles roomy sameNames (utf8 "s") (utf8 "e") false ⟨sameNamesDisk, none⟩) := by
  have hok : (MoveFiles roomy sameNames (utf8 "s") (utf8 "e") false ⟨sameNamesDisk, none⟩).1 =
      .ok () := except_eq_ok (by decide +kernel)
  refine ⟨hok, fun h => ?_⟩
  have hdistinct := (h.all hok).distinct
  revert hdistinct
  decide +kernel

end GoI2pBt.Rpc
