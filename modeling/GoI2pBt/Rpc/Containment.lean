/-
  When the files of a torrent stay inside its directory.
-/
import GoI2pBt.Lib.PathLexical
import GoI2pBt.Rpc.FileManager
import GoI2pBt.Rpc.VerifyWritten

namespace GoI2pBt.Rpc

open List Metainfo Function

/-! ## Where paths are made -/

inductive PathUse where
  /-- `WriteAt` makes the parent directory and opens the file. -/
  | write (root : Bytes) (info : Info) (file : File)
  | moveSource (sourceDir : Bytes) (info : Info) (file : File)
  /-- `MoveFiles` makes the parent directory for a file of a multi-file torrent. -/
  | moveDest (destDir : Bytes) (info : Info) (preserveStructure : Bool) (file : File)
  | verify (downloadDir : Bytes) (info : Info) (file : File)

namespace PathUse

def root : PathUse → Bytes
  | write root _ _ => root
  | moveSource root _ _ => root
  | moveDest root _ _ _ => root
  | verify root _ _ => root

def paths : PathUse → List Bytes
  | write root info file =>
    [file.PathWithPrefix root info, dirPath (file.PathWithPrefix root info)]
  | moveSource sourceDir info file =>
    if info.IsDir then [(movePaths info sourceDir [] true file).1]
    else [joinPath [sourceDir, info.name]]
  | moveDest destDir info preserveStructure file =>
    if info.IsDir then
      [(movePaths info [] destDir preserveStructure file).2,
        dirPath (movePaths info [] destDir preserveStructure file).2]
    else [joinPath [destDir, info.name]]
  | verify downloadDir info file => [Content.checkPath info downloadDir file]

def parts : PathUse → List Bytes
  | write _ info file => if info.IsDir then info.name :: file.paths else [info.name]
  | moveSource _ info file => [file.Path info]
  | moveDest _ info preserveStructure file =>
    if preserveStructure || !info.IsDir then [file.Path info] else [basePath (file.Path info)]
  | verify _ info file => [info.name, file.Path info]

def usesParent : PathUse → Bool
  | write _ _ _ => true
  | moveDest _ info _ _ => info.IsDir
  | _ => false

def Contained (u : PathUse) : Prop := ∀ path ∈ u.paths, Inside u.root path

def Harmless (u : PathUse) : Prop :=
  if u.usesParent then Below u.root u.parts else Stays u.root u.parts

theorem path_of_not_isDir {info : Info} {file : File} (h : info.IsDir = false) :
    file.Path info = info.name := by
  rw [File.Path, h]
  rfl

theorem contained_iff_join (u : PathUse) : u.Contained ↔
    Inside u.root (joinPath (u.root :: u.parts)) ∧
      (u.usesParent = true → Inside u.root (dirPath (joinPath (u.root :: u.parts)))) := by
  cases u with
  | write root info file =>
    have hpath : file.PathWithPrefix root info =
        joinPath (root :: (write root info file).parts) := by
      rw [File.PathWithPrefix, parts]
      cases info.IsDir <;> rfl
    rw [Contained, paths, hpath]
    simp only [forall_mem_cons, not_mem_nil, IsEmpty.forall_iff, implies_true, and_true,
      usesParent, forall_const, PathUse.root]
  | moveSource sourceDir info file =>
    have hpath : (moveSource sourceDir info file).paths = [joinPath [sourceDir, file.Path info]] := by
      rw [paths]
      cases hdir : info.IsDir with
      | true => rfl
      | false => rw [path_of_not_isDir hdir]; rfl
    rw [Contained, hpath]
    simp [usesParent, PathUse.root, parts]
  | moveDest destDir info preserveStructure file =>
    cases hdir : info.IsDir with
    | true =>
      have hpath : (movePaths info [] destDir preserveStructure file).2 =
          joinPath (destDir :: (moveDest destDir info preserveStructure file).parts) := by
        rw [movePaths, parts, hdir]
        cases preserveStructure <;> rfl
      rw [Contained, paths, if_pos hdir, hpath]
      simp only [forall_mem_cons, not_mem_nil, IsEmpty.forall_iff, implies_true,
        and_true, usesParent, hdir, forall_const, PathUse.root]
    | false =>
      have hparts : (moveDest destDir info preserveStructure file).parts = [info.name] := by
        rw [parts, hdir, path_of_not_isDir hdir]
        cases preserveStructure <;> rfl
      rw [Contained, paths, hdir, hparts]
      simp [usesParent, hdir, PathUse.root]
  | verify downloadDir info file =>
    have hpath : lexical (Content.checkPath info downloadDir file) =
        lexical (joinPath (downloadDir :: (verify downloadDir info file).parts)) :=
      lexical_joinPath_joinPath downloadDir info.name [file.Path info]
    rw [Contained, paths]
    simp only [forall_mem_cons, not_mem_nil, IsEmpty.forall_iff, implies_true, and_true,
      usesParent, Bool.false_eq_true, Inside, hpath, PathUse.root]

/-- **Paths stay inside if their parts do not climb.** -/
theorem contained_iff_harmless (u : PathUse) : u.Contained ↔ u.Harmless := by
  rw [contained_iff_join, Harmless]
  split_ifs with hparent
  · rw [← inside_parent_iff, imp_iff_right hparent]
  · rw [← inside_joinPath_iff]
    exact and_iff_left fun h => absurd h hparent

end PathUse

/-! ## What is written -/

open PathUse

section Write

variable {root path : Bytes} {info : Info}

theorem fileByOffset_mem {panic f o} : ∀ {files : List File} {last : File} {offset : ℤ},
    Info.fileByOffset panic files last offset = .ok (f, o) → f ∈ last :: files
  | [], _, _, h => by
    rw [Info.fileByOffset] at h
    split_ifs at h
    cases h
    exact mem_cons_self
  | file :: files, _, _, h => by
    rw [Info.fileByOffset] at h
    split_ifs at h
    · cases h
      simp
    · cases h
      simp
    · exact mem_cons_of_mem _ (fileByOffset_mem h)

theorem getFileByOffset_path (root : Bytes) {f offset o}
    (h : info.GetFileByOffset offset = .ok (f, o)) :
    ∃ file ∈ info.AllFiles, f.PathWithPrefix root info = file.PathWithPrefix root info := by
  rw [Info.GetFileByOffset] at h
  cases hdir : info.IsDir with
  | true =>
    rw [hdir] at h
    have hall : info.AllFiles = info.files := by rw [Info.AllFiles, if_pos hdir]
    have hne : info.files ≠ [] := by simpa [Info.IsDir] using hdir
    obtain ⟨file, files, hfiles⟩ := exists_cons_of_ne_nil hne
    rw [hfiles] at h
    rw [hall, hfiles]
    refine ⟨f, ?_, rfl⟩
    simp only [Bool.not_true, Bool.false_eq_true, if_false, Info.fileByOffset] at h
    split_ifs at h
    · cases h
      exact mem_cons_self
    · cases h
      exact mem_cons_self
    · exact fileByOffset_mem h
  | false =>
    refine ⟨⟨info.length, []⟩, by rw [Info.AllFiles, hdir]; simp, ?_⟩
    rw [File.PathWithPrefix, File.PathWithPrefix, hdir]
    rfl

theorem openWriter_outside {fs filename} (h : path ≠ filename) :
    openWriter fs filename path = fs path := by
  rw [openWriter]
  cases fs filename with
  | some c => rfl
  | none => exact update_of_ne h ..

theorem fileWriteAt_outside {fs filename b offset} (h : path ≠ filename) :
    (fileWriteAt fs filename b offset).2.2 path = fs path := by
  rw [fileWriteAt]
  split_ifs
  · rfl
  · split
    · rfl
    · exact update_of_ne h ..

theorem writeLoop_outside {p} (h : ∀ file ∈ info.AllFiles, path ≠ file.PathWithPrefix root info) :
    ∀ (fuel n : ℕ) (offset : ℤ) (fs : FS),
    (writeLoop root info p fuel n offset fs).fs path = fs path := by
  intro fuel
  induction fuel with
  | zero => intro n offset fs; rfl
  | succ fuel ih =>
    intro n offset fs
    rw [writeLoop]
    split_ifs
    · rfl
    cases hfile : info.GetFileByOffset offset with
    | error e => rfl
    | ok found =>
      obtain ⟨f, o⟩ := found
      obtain ⟨file, hmem, hpath⟩ := getFileByOffset_path root hfile
      have hne : path ≠ f.PathWithPrefix root info := hpath ▸ h file hmem
      have hwrite : ∀ b o', (fileWriteAt (openWriter fs (f.PathWithPrefix root info))
          (f.PathWithPrefix root info) b o').2.2 path = fs path := fun b o' => by
        rw [fileWriteAt_outside hne, openWriter_outside hne]
      dsimp only
      split_ifs
      · rfl
      · rfl
      -- an error of the operating system ends the loop, otherwise it goes on
      all_goals first
        | exact hwrite _ _
        | exact (ih _ _ _).trans (hwrite _ _)

end Write

/-! ## What is moved -/

section Move

variable {path source dest : Bytes} {d : Disk}

variable {sourceDir destDir : Bytes} {preserveStructure : Bool}

theorem osRename_outside (hs : path ≠ source) (hd : path ≠ dest) :
    (osRename source dest d).2.fs path = d.fs path := by
  rw [osRename, attempt]
  dsimp only
  split_ifs
  · rfl
  · rfl
  · exact move_other hs hd

theorem osRemove_outside (hs : path ≠ source) : (osRemove source d).2.fs path = d.fs path := by
  rw [osRemove, attempt]
  dsimp only
  split_ifs
  · rfl
  · rfl
  · exact without_of_ne hs

theorem copyFile_outside (copied : ℕ) (source : Bytes) (d : Disk) (hd : path ≠ dest) :
    (copyFile copied source dest d).2.fs path = d.fs path := by
  have hwrite : ∀ (d : Disk) c, (d.write dest c).fs path = d.fs path :=
    fun d c => update_of_ne hd ..
  rw [copyFile]
  dsimp only
  split
  · rfl
  split
  · rfl
  split
  · rfl
  split
  · exact (hwrite _ _).trans (hwrite _ _)
  split
  · exact (hwrite _ _).trans (hwrite _ _)
  · exact (hwrite _ _).trans (hwrite _ _)

theorem moveFile_outside (copied : ℕ) (d : Disk) (hs : path ≠ source) (hd : path ≠ dest) :
    (moveFile copied source dest d).2.fs path = d.fs path := by
  have hrename : (osRename source dest d).2.fs path = d.fs path := osRename_outside hs hd
  have hcopy := copyFile_outside copied source (osRename source dest d).2 hd
  rw [moveFile]
  dsimp only
  split_ifs
  · exact hrename
  · generalize copyFile copied source dest (osRename source dest d).2 = result at hcopy ⊢
    obtain ⟨res, d'⟩ := result
    have hd' : d'.fs path = d.fs path := hcopy.trans hrename
    cases res with
    | error err => exact hd'
    | ok u =>
      have hremove : (osRemove source d').2.fs path = d.fs path := (osRemove_outside hs).trans hd'
      dsimp only
      split_ifs
      · exact hremove
      · exact (osRemove_outside hd).trans hremove

theorem rollbackMoves_outside {moved}
    (h : ∀ p ∈ moved, path ≠ p.1 ∧ path ≠ p.2) : (rollbackMoves moved d).fs path = d.fs path := by
  induction moved with
  | nil => rfl
  | cons p moved ih =>
    rw [forall_mem_cons] at h
    rw [rollbackMoves, foldr_cons, ← rollbackMoves, osRename_outside h.1.2 h.1.1, ih h.2]

theorem processFiles_outside {env} : ∀ {files moved : List (Bytes × Bytes)} {d : Disk},
    (∀ p ∈ moved ++ files, path ≠ p.1 ∧ path ≠ p.2) →
    (processFiles env files moved d).2.fs path = d.fs path
  | [], _, _, _ => rfl
  | p :: files, moved, d, h => by
    have hmoved : ∀ q ∈ moved, path ≠ q.1 ∧ path ≠ q.2 := fun q hq => h q (by simp [hq])
    have hp := h p (by simp)
    have hfile := moveFile_outside env.copied (attempt d).2 hp.1 hp.2
    rw [processFiles]
    dsimp only
    split_ifs
    · exact rollbackMoves_outside hmoved
    · generalize moveFile env.copied p.1 p.2 (attempt d).2 = result at hfile ⊢
      obtain ⟨res, d'⟩ := result
      cases res with
      | error err => exact (rollbackMoves_outside hmoved).trans hfile
      | ok u =>
        refine (processFiles_outside fun q hq => h q ?_).trans hfile
        simpa using hq

theorem mem_paths_of_mem_torrentMoves {info p}
    (hp : p ∈ torrentMoves info sourceDir destDir preserveStructure) :
    ∃ file ∈ info.AllFiles, p.1 ∈ (moveSource sourceDir info file).paths ∧
      p.2 ∈ (moveDest destDir info preserveStructure file).paths := by
  rw [torrentMoves] at hp
  rw [Info.AllFiles]
  simp only [paths]
  cases hdir : info.IsDir with
  | true =>
    rw [hdir] at hp
    obtain ⟨file, hfile, rfl⟩ := mem_map.1 hp
    exact ⟨file, hfile, mem_cons_self, mem_cons_self⟩
  | false =>
    rw [hdir] at hp
    obtain rfl := mem_singleton.1 hp
    exact ⟨_, mem_cons_self, mem_cons_self, mem_cons_self⟩

end Move

def climbing : Info := ⟨utf8 "../x", 1, [], 1, []⟩

theorem write_escapes : ¬ (PathUse.write (utf8 "/d") climbing ⟨1, []⟩).Contained := by
  intro h
  have houtside : ¬ Inside (utf8 "/d") (joinPath [utf8 "/d", utf8 "../x"]) := by decide +kernel
  exact houtside (h _ mem_cons_self)

end GoI2pBt.Rpc
