/-
  All blocks of a torrent, written in any order.
-/
import GoI2pBt.Metainfo.Storage

namespace GoI2pBt.Metainfo

open List Function Option Int

/-! ## Files that are written over -/

def overlay (c old : Bytes) : Bytes := c ++ old.drop c.length

theorem overlay_overlay (c b old : Bytes) :
    overlay c (overlay b old) = overlay (overlay c b) old := by
  have hlen : c.length - b.length + b.length = c.length + (b.length - c.length) := by omega
  simp only [overlay, append_assoc, drop_append, drop_drop, length_append, length_drop]
  rw [add_comm b.length, hlen]

theorem splice_zero_eq_overlay (c old : Bytes) : splice old 0 c = overlay c old := by
  rw [splice, take_zero, nil_append, zero_add, overlay]

def writeFile (root : Bytes) (info : Info) (fs : FS) (f : File × Bytes) : FS :=
  if f.2 = [] then fs
  else
    update fs (f.1.PathWithPrefix root info)
      (some (overlay f.2 ((fs (f.1.PathWithPrefix root info)).getD [])))

def writeAll (root : Bytes) (info : Info) (fs : FS) (fcs : List (File × Bytes)) : FS :=
  fcs.foldl (writeFile root info) fs

def overlayFS (base fs : FS) : FS := fun path =>
  match base path with
  | none => fs path
  | some b => some (overlay b ((fs path).getD []))

variable {root : Bytes} {info : Info} {fs base : FS}

theorem overlayFS_writeFile (f : File × Bytes) :
    writeFile root info (overlayFS base fs) f = overlayFS (writeFile root info base f) fs := by
  rw [writeFile, writeFile]
  split_ifs with hempty
  · rfl
  funext path
  by_cases hpath : path = f.1.PathWithPrefix root info
  · subst hpath
    rw [update_self, overlayFS, overlayFS, update_self]
    cases base _ with
    | none => simp only [getD_none, overlay, drop_nil, append_nil]
    | some b => simp only [getD_some, overlay_overlay]
  · rw [update_of_ne hpath, overlayFS, overlayFS, update_of_ne hpath]

theorem writeAll_eq (fcs : List (File × Bytes)) :
    writeAll root info fs fcs = overlayFS (writeAll root info (fun _ => none) fcs) fs := by
  have hrun : ∀ (fcs : List (File × Bytes)) (base : FS),
      writeAll root info (overlayFS base fs) fcs = overlayFS (writeAll root info base fcs) fs := by
    intro fcs
    induction fcs with
    | nil => intro base; rfl
    | cons f fcs ih =>
      intro base
      rw [writeAll, foldl_cons, overlayFS_writeFile]
      exact ih _
  exact hrun fcs fun _ => none

/-! ## One file in one round -/

theorem fileWriteAt_start (path b : Bytes) : fileWriteAt (openWriter fs path) path b 0 =
      (b.length, none, update fs path (some (overlay b ((fs path).getD [])))) := by
  have hneg : ¬ (0 : ℤ) < 0 := by omega
  rw [fileWriteAt, if_neg hneg, openWriter]
  cases hold : fs path with
  | none =>
    simp only [update_self, update_idem, toNat_zero, Nat.zero_sub,
      replicate_zero, append_nil, splice_zero_eq_overlay, getD_none]
  | some old =>
    simp only [hold, toNat_zero, Nat.zero_sub, replicate_zero, append_nil,
      splice_zero_eq_overlay, getD_some]

def Sized (file : File) (c : Bytes) : Prop := file.length = (c.length : ℤ)

theorem fileByOffset_start {fpre fpost pre file c}
    (hpre : Forall₂ Sized fpre pre) (hfile : Sized file c) (hc : c ≠ [])
    (hfit : pre.flatten.length < 2 ^ 63) (panic : Info.OffsetPanic) (last : File) :
    Info.fileByOffset panic (fpre ++ file :: fpost) last (pre.flatten.length : ℕ) =
      .ok (file, 0) := by
  induction hpre generalizing last with
  | nil =>
    have hpos : (0 : ℤ) < file.length := by
      rw [hfile]; exact_mod_cast length_pos_iff.2 hc
    exact if_pos hpos
  | @cons f d fpre pre hfd _ ih =>
    rw [flatten_cons, length_append] at hfit ⊢
    have hlen : f.length = (d.length : ℤ) := hfd
    have hnext : wrap64 (((d.length + pre.flatten.length : ℕ) : ℤ) - f.length) =
        (pre.flatten.length : ℕ) := by
      rw [hlen, wrap64_of_range] <;> omega
    rw [cons_append, Info.fileByOffset, if_neg (by omega), if_neg (by simp), hnext]
    exact ih (by omega) f

theorem getFileByOffset_start (root : Bytes) {fpre fpost pre file c}
    (hsplit : info.AllFiles = fpre ++ file :: fpost) (hpre : Forall₂ Sized fpre pre)
    (hfile : Sized file c) (hc : c ≠ []) (hfit : pre.flatten.length < 2 ^ 63) :
    ∃ f, info.GetFileByOffset (pre.flatten.length : ℕ) = .ok (f, 0) ∧ f.length = file.length ∧
      f.PathWithPrefix root info = file.PathWithPrefix root info := by
  cases hdir : info.IsDir with
  | true =>
    have hall : info.AllFiles = info.files := by rw [Info.AllFiles, if_pos hdir]
    refine ⟨file, ?_, rfl, rfl⟩
    rw [Info.GetFileByOffset, hdir, ← hall, hsplit]
    exact fileByOffset_start hpre hfile hc hfit _ _
  | false =>
    have hall : info.AllFiles = [⟨info.length, []⟩] := by rw [Info.AllFiles, hdir]; rfl
    rw [hall] at hsplit
    cases fpre with
    | cons f fpre => simp at hsplit
    | nil =>
      cases hpre
      obtain ⟨rfl, rfl⟩ := cons_eq_cons.1 hsplit
      refine ⟨⟨info.length, [info.name]⟩, ?_, rfl, ?_⟩
      · have hle : ¬ (0 : ℤ) > info.length := by
          have : info.length = (c.length : ℤ) := hfile
          omega
        rw [Info.GetFileByOffset, hdir]
        exact if_neg hle
      · rw [File.PathWithPrefix, File.PathWithPrefix, hdir]
        rfl

/-! ## The loop -/

theorem writeLoop_all {fpost post}
    (hpost : Forall₂ Sized fpost post) : ∀ (fpre : List File) (pre : List Bytes) (fs : FS)
    (fuel : ℕ), info.AllFiles = fpre ++ fpost → Forall₂ Sized fpre pre →
    (pre ++ post).flatten.length < 2 ^ 63 → post.flatten.length ≤ fuel →
    writeLoop root info (pre ++ post).flatten fuel pre.flatten.length (pre.flatten.length : ℕ) fs =
      ⟨(pre ++ post).flatten.length, none, writeAll root info fs (fpost.zip post)⟩ := by
  induction hpost with
  | nil =>
    intro fpre pre fs fuel _ _ _ _
    rw [append_nil]
    cases fuel with
    | zero => rfl
    | succ fuel => exact if_pos le_rfl
  | @cons file c fpost post hfc hpost ih =>
    intro fpre pre fs fuel hsplit hpre hfit hfuel
    have hlen : file.length = (c.length : ℤ) := hfc
    have hsplit' : info.AllFiles = (fpre ++ [file]) ++ fpost := by
      rw [hsplit, append_assoc, singleton_append]
    have hpre' : Forall₂ Sized (fpre ++ [file]) (pre ++ [c]) :=
      rel_append hpre (.cons hfc .nil)
    have hmove : pre ++ c :: post = (pre ++ [c]) ++ post := by
      rw [append_assoc, singleton_append]
    have hn : (pre ++ [c]).flatten.length = pre.flatten.length + c.length := by
      simp only [flatten_append, flatten_cons, flatten_nil, length_append, length_nil, add_zero]
    have htotal : (pre ++ c :: post).flatten.length =
        pre.flatten.length + c.length + post.flatten.length := by
      simp only [flatten_append, flatten_cons, length_append, add_assoc]
    rw [flatten_cons, length_append] at hfuel
    rcases eq_or_ne c [] with rfl | hc
    · -- an empty file is skipped
      have hnext := ih (fpre ++ [file]) (pre ++ [[]]) fs fuel hsplit' hpre' (hmove ▸ hfit) (by
        rw [length_nil] at hfuel; omega)
      rw [← hmove, hn, length_nil, add_zero] at hnext
      rw [hnext, zip_cons_cons, writeAll, writeAll, foldl_cons, writeFile, if_pos rfl]
    · have hpos : 0 < c.length := length_pos_iff.2 hc
      obtain ⟨fuel, rfl⟩ : ∃ m, fuel = m + 1 := ⟨fuel - 1, by omega⟩
      obtain ⟨f, hfound, hflen, hfpath⟩ := getFileByOffset_start root hsplit hpre hfc hc (by omega)
      have hlength : wrap64 (wrap64 (f.length - 0) + (pre.flatten.length : ℕ)) =
          ((c.length + pre.flatten.length : ℕ) : ℤ) := by
        rw [hflen, hlen, sub_zero, wrap64_natCast (by omega), ← Nat.cast_add,
          wrap64_natCast (by omega)]
      have hslice : slice (pre ++ c :: post).flatten pre.flatten.length
          (c.length + pre.flatten.length - pre.flatten.length) = c := by
        rw [Nat.add_sub_cancel, slice_segment]
      have hoffset : wrap64 (((pre.flatten.length : ℕ) : ℤ) + (c.length : ℕ)) =
          ((pre.flatten.length + c.length : ℕ) : ℤ) := by
        rw [← Nat.cast_add, wrap64_natCast (by omega)]
      have hnext := ih (fpre ++ [file]) (pre ++ [c]) (writeFile root info fs (file, c)) fuel
        hsplit' hpre' (hmove ▸ hfit) (by omega)
      rw [← hmove, hn] at hnext
      have hend : ¬ (f.length = 0 ∨ f.length = 0) := by omega
      have hall : ¬ ((pre ++ c :: post).flatten.length : ℤ) <
          ((c.length + pre.flatten.length : ℕ) : ℤ) := by omega
      have hgo : ¬ (¬ ((pre ++ c :: post).flatten.length : ℤ) <
          ((c.length + pre.flatten.length : ℕ) : ℤ) ∧
          ((c.length + pre.flatten.length : ℕ) : ℤ) ≤ (pre.flatten.length : ℕ)) := by omega
      rw [writeLoop, if_neg (by omega), hfound]
      dsimp only
      rw [if_neg hend, hlength, if_neg hgo, if_neg hall, toNat_natCast, hslice, hfpath,
        fileWriteAt_start]
      dsimp only
      rw [hoffset, isSome_none, if_neg Bool.false_ne_true]
      have hwrite : writeFile root info fs (file, c) = update fs _ _ := if_neg hc
      rw [hwrite] at hnext
      refine hnext.trans ?_
      rw [← hwrite]
      rfl

theorem writeAt_all {cs} (hsized : Forall₂ Sized info.AllFiles cs)
    (hfit : cs.flatten.length < 2 ^ 63) :
    WriteAt root info fs cs.flatten 0 =
      ⟨cs.flatten.length, none, writeAll root info fs (info.AllFiles.zip cs)⟩ :=
  writeLoop_all hsized [] [] fs _ rfl .nil hfit (Nat.le_succ _)

end GoI2pBt.Metainfo
