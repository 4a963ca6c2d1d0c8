/-
  The info dictionary.
-/
import GoI2pBt.Lib.Filepath
import GoI2pBt.Metainfo.Hash

namespace GoI2pBt.Metainfo
open List

structure File where
  length : ℤ
  paths : List Bytes
deriving DecidableEq

structure Info where
  name : Bytes
  pieceLength : ℤ
  pieces : List Hash
  length : ℤ
  files : List File
deriving DecidableEq

namespace Info

def IsDir (info : Info) : Bool := info.files ≠ []

def CountPieces (info : Info) : ℕ := info.pieces.length

def TotalLength (info : Info) : ℤ :=
  if info.IsDir then info.files.foldl (fun ret fi => wrap64 (ret + fi.length)) 0 else info.length

structure OffsetPanic where
  offset : ℤ
  maximum : ℤ
deriving DecidableEq

def fileByOffset (panic : OffsetPanic) : List File → File → ℤ → Except OffsetPanic (File × ℤ)
  | [], file, fileOffset =>
    if fileOffset > file.length then .error panic else .ok (file, fileOffset)
  | file :: files, _, fileOffset =>
    if fileOffset < file.length then .ok (file, fileOffset)
    else if fileOffset = file.length ∧ files = [] then .ok (file, fileOffset)
    else fileByOffset panic files file (wrap64 (fileOffset - file.length))

def GetFileByOffset (info : Info) (offset : ℤ) : Except OffsetPanic (File × ℤ) :=
  if !info.IsDir then
    if offset > info.length then .error ⟨offset, info.length⟩
    else .ok (⟨info.length, [info.name]⟩, offset)
  else fileByOffset ⟨offset, info.TotalLength⟩ info.files ⟨0, []⟩ offset

def AllFiles (info : Info) : List File := if info.IsDir then info.files else [⟨info.length, []⟩]

theorem foldl_wrap64 (files : List File) (a : ℤ) :
    files.foldl (fun ret fi => wrap64 (ret + fi.length)) (wrap64 a) =
      wrap64 (a + (files.map File.length).sum) := by
  induction files generalizing a with
  | nil => simp
  | cons f files ih => rw [foldl_cons, wrap64_wrap64_add, ih, map_cons, sum_cons, add_assoc]

theorem totalLength_eq {info : Info}
    (h : ∀ f ∈ info.AllFiles, -2 ^ 63 ≤ f.length ∧ f.length < 2 ^ 63) :
    info.TotalLength = wrap64 (info.AllFiles.map File.length).sum := by
  rw [TotalLength]
  rw [AllFiles] at h ⊢
  cases hdir : info.IsDir with
  | true =>
    have := foldl_wrap64 info.files 0
    rw [zero_add] at this
    exact this
  | false =>
    rw [hdir] at h
    obtain ⟨hlo, hhi⟩ := h ⟨info.length, []⟩ mem_cons_self
    simpa using (wrap64_of_range hlo hhi).symm

end Info

def File.PathWithPrefix (f : File) (root : Bytes) (info : Info) : Bytes :=
  if info.IsDir then joinPath (root :: info.name :: f.paths) else joinPath [root, info.name]

end GoI2pBt.Metainfo
