/-
  Writing blocks to files and reading them.
-/
import GoI2pBt.Lib.Segments
import GoI2pBt.Metainfo.Info

namespace GoI2pBt.Metainfo

open List Function Int

/-! ## The operating system -/

abbrev FS := Bytes → Option Bytes

inductive FileErr where
  | shortWrite
  | eof
  | negativeOffset
  | notExist
  | offsetPanic (p : Info.OffsetPanic)
  | slicePanic
deriving DecidableEq

def fileWriteAt (fs : FS) (path b : Bytes) (off : ℤ) : ℕ × Option FileErr × FS :=
  if off < 0 then (0, some .negativeOffset, fs)
  else
    match fs path with
    | none => (0, some .notExist, fs)
    | some c =>
      let c := c ++ replicate (off.toNat - c.length) 0
      (b.length, none, update fs path (some (splice c off.toNat b)))

def fileReadAt (fs : FS) (path : Bytes) (k : ℕ) (off : ℤ) : Bytes × Option FileErr :=
  if off < 0 then ([], some .negativeOffset)
  else
    match fs path with
    | none => ([], some .notExist)
    | some c =>
      let b := slice c off.toNat k
      (b, if b.length < k then some .eof else none)

/-! ## Writing -/

structure Written where
  n : ℕ
  err : Option FileErr
  fs : FS

def openWriter (fs : FS) (filename : Bytes) : FS :=
  match fs filename with
  | some _ => fs
  | none => update fs filename (some [])

def writeLoop (root : Bytes) (info : Info) (p : Bytes) : ℕ → ℕ → ℤ → FS → Written
  | 0, n, _, fs => ⟨n, none, fs⟩
  | fuel + 1, n, offset, fs =>
    if p.length ≤ n then ⟨n, none, fs⟩
    else
      match info.GetFileByOffset offset with
      | .error e => ⟨n, some (.offsetPanic e), fs⟩
      | .ok (file, fileOffset) =>
        if file.length = 0 ∨ file.length = fileOffset then ⟨n, some .shortWrite, fs⟩
        else
          let length := wrap64 (wrap64 (file.length - fileOffset) + n)
          if ¬ p.length < length ∧ length ≤ n then ⟨n, none, fs⟩
          else
            let length := if p.length < length then p.length else length.toNat
            let filename := file.PathWithPrefix root info
            let (m, err, fs) :=
              fileWriteAt (openWriter fs filename) filename (slice p n (length - n)) fileOffset
            if err.isSome then ⟨n + m, err, fs⟩
            else writeLoop root info p fuel (n + m) (wrap64 (offset + m)) fs

def WriteAt (root : Bytes) (info : Info) (fs : FS) (p : Bytes) (offset : ℤ) : Written :=
  writeLoop root info p (p.length + 1) 0 offset fs

/-! ## Reading -/

def readLoop (root : Bytes) (info : Info) (fs : FS) : ℕ → ℕ → ℤ → Bytes → ℕ × Option FileErr × Bytes
  | 0, n, _, p => (n, none, p)
  | fuel + 1, n, offset, p =>
    if p.length ≤ n then (n, none, p)
    else
      match info.GetFileByOffset offset with
      | .error e => (n, some (.offsetPanic e), p)
      | .ok (file, fileOffset) =>
        if file.length = 0 ∨ file.length = fileOffset then (n, some .eof, p)
        else
          let pend := wrap64 (n + wrap64 (file.length - fileOffset))
          let pend := if pend > p.length then (p.length : ℤ) else pend
          let filename := file.PathWithPrefix root info
          if (fs filename).isNone then (n, some .notExist, p)
          else if pend < n then (n, some .slicePanic, p)
          else
            let (b, err) := fileReadAt fs filename (pend.toNat - n) fileOffset
            let p := splice p n b
            if err.isSome then (n + b.length, err, p)
            else readLoop root info fs fuel (n + b.length) (wrap64 (offset + b.length)) p

def ReadAt (root : Bytes) (info : Info) (fs : FS) (p : Bytes) (offset : ℤ) :
    ℕ × Option FileErr × Bytes :=
  readLoop root info fs (p.length + 1) 0 offset p

/-! ## The files on disk -/

def Holds (root : Bytes) (info : Info) (fs : FS) (file : File) (c : Bytes) : Prop :=
  fs (file.PathWithPrefix root info) = some c ∧ file.length = (c.length : ℤ)

def filePaths (root : Bytes) (info : Info) : List Bytes :=
  info.AllFiles.map fun file => file.PathWithPrefix root info

structure OnDisk (root : Bytes) (info : Info) (fs : FS) (cs : List Bytes) : Prop where
  files : Forall₂ (Holds root info fs) info.AllFiles cs
  distinct : (filePaths root info).Nodup

structure FileAt (root : Bytes) (info : Info) (fs : FS) (cs : List Bytes) (g : ℕ) where
  file : File
  pre : List Bytes
  c : Bytes
  post : List Bytes
  o : ℕ
  found : info.GetFileByOffset g = .ok (file, (o : ℤ))
  split : cs = pre ++ c :: post
  pos : g = pre.flatten.length + o
  lt : o < c.length
  holds : Holds root info fs file c
  mem : file.PathWithPrefix root info ∈ filePaths root info
  update : ∀ c' : Bytes, c'.length = c.length → OnDisk root info
    (update fs (file.PathWithPrefix root info) (some c')) (pre ++ c' :: post)

variable {root : Bytes} {info : Info} {fs : FS} {cs : List Bytes}

theorem forall₂_imp_mem {β γ : Type} {R S : β → γ → Prop} {l : List β} {m : List γ}
    (h : Forall₂ R l m) (himp : ∀ a ∈ l, ∀ b, R a b → S a b) : Forall₂ S l m := by
  induction h with
  | nil => exact .nil
  | @cons a b l m hab _ ih =>
    exact .cons (himp a mem_cons_self b hab) (ih fun a ha => himp a (mem_cons_of_mem _ ha))

theorem fileByOffset_spec {R} (hR : ∀ file c, R file c → file.length = (c.length : ℤ)) {files}
    (h : Forall₂ R files cs) (hfit : cs.flatten.length < 2 ^ 63) {g}
    (hg : g < cs.flatten.length) (panic : Info.OffsetPanic) (last : File) :
    ∃ fpre file fpost pre c post o, files = fpre ++ file :: fpost ∧ cs = pre ++ c :: post ∧
      Forall₂ R fpre pre ∧ R file c ∧ Forall₂ R fpost post ∧
      g = pre.flatten.length + o ∧ o < c.length ∧
      Info.fileByOffset panic files last g = .ok (file, (o : ℤ)) := by
  induction h generalizing g last with
  | nil => simp at hg
  | @cons file c files cs hfc hrest ih =>
    have hlen := hR file c hfc
    rw [flatten_cons, length_append] at hg hfit
    by_cases hlt : g < c.length
    · refine ⟨[], file, files, [], c, cs, g, rfl, rfl, .nil, hfc, hrest, by simp, hlt, ?_⟩
      rw [Info.fileByOffset, if_pos (by rw [hlen]; exact_mod_cast hlt)]
    · have hne : ¬ ((g : ℤ) = file.length ∧ files = []) := by
        rintro ⟨hgl, rfl⟩
        cases hrest
        simp only [flatten_nil, length_nil] at hg
        omega
      have hsub : wrap64 ((g : ℤ) - file.length) = ((g - c.length : ℕ) : ℤ) := by
        rw [wrap64_of_range] <;> omega
      obtain ⟨fpre, f, fpost, pre, c', post, o, rfl, rfl, hpre, hf, hpost, hpos, ho, hgo⟩ :=
        ih (g := g - c.length) (by omega) (by omega) file
      refine ⟨file :: fpre, f, fpost, c :: pre, c', post, o, rfl, rfl, .cons hfc hpre, hf, hpost,
        ?_, ho, ?_⟩
      · rw [flatten_cons, length_append]; omega
      · rw [Info.fileByOffset, if_neg (by rw [hlen]; exact_mod_cast hlt), if_neg hne, hsub, hgo]

theorem holds_update {fpre fpost : List File} {file : File} {pre post : List Bytes} {c c' : Bytes}
    (hpre : Forall₂ (Holds root info fs) fpre pre) (hfile : Holds root info fs file c)
    (hpost : Forall₂ (Holds root info fs) fpost post) (hlen : c'.length = c.length)
    (hnodup : ((fpre ++ file :: fpost).map fun f => f.PathWithPrefix root info).Nodup) :
    Forall₂ (Holds root info (update fs (file.PathWithPrefix root info) (some c')))
      (fpre ++ file :: fpost) (pre ++ c' :: post) := by
  rw [map_append, map_cons, nodup_middle, nodup_cons, ← map_append] at hnodup
  have hother : ∀ f ∈ fpre ++ fpost, ∀ d, Holds root info fs f d →
      Holds root info (update fs (file.PathWithPrefix root info) (some c')) f d := by
    rintro f hf d ⟨hd, hl⟩
    refine ⟨?_, hl⟩
    rw [update_of_ne fun heq => hnodup.1 (mem_map.2 ⟨f, hf, heq⟩), hd]
  refine rel_append (forall₂_imp_mem hpre fun f hf => hother f (mem_append_left _ hf))
    (.cons ⟨update_self .., ?_⟩
      (forall₂_imp_mem hpost fun f hf => hother f (mem_append_right _ hf)))
  rw [hfile.2, hlen]

theorem OnDisk.fileAt (hd : OnDisk root info fs cs) (hfit : cs.flatten.length < 2 ^ 63) {g}
    (hg : g < cs.flatten.length) : Nonempty (FileAt root info fs cs g) := by
  have hfiles := hd.files
  have hdist := hd.distinct
  rw [filePaths] at hdist
  cases hdir : info.IsDir with
  | true =>
    have hall : info.AllFiles = info.files := by rw [Info.AllFiles, if_pos hdir]
    rw [hall] at hfiles hdist
    obtain ⟨fpre, file, fpost, pre, c, post, o, hsplit, rfl, hpre, hfile, hpost, hpos, ho, hfound⟩ :=
      fileByOffset_spec (fun _ _ h => h.2) hfiles hfit hg ⟨g, info.TotalLength⟩ ⟨0, []⟩
    rw [hsplit] at hdist
    refine ⟨⟨file, pre, c, post, o, ?_, rfl, hpos, ho, hfile, ?_, fun c' hc' => ⟨?_, hd.distinct⟩⟩⟩
    · rw [Info.GetFileByOffset, hdir]; exact hfound
    · rw [filePaths, hall, hsplit]; simp
    · rw [hall, hsplit]; exact holds_update hpre hfile hpost hc' hdist
  | false =>
    have hall : info.AllFiles = [⟨info.length, []⟩] := by rw [Info.AllFiles, hdir]; rfl
    rw [hall] at hfiles hdist
    cases hfiles with
    | @cons _ c _ _ hfile hnil =>
      cases hnil
      simp only [flatten_cons, flatten_nil, append_nil] at hg
      have hpath : ∀ paths, (File.mk info.length paths).PathWithPrefix root info =
          joinPath [root, info.name] := fun _ => by rw [File.PathWithPrefix, hdir]; rfl
      refine ⟨⟨⟨info.length, [info.name]⟩, [], c, [], g, ?_, rfl, by simp, hg, ?_, ?_,
        fun c' hc' => ⟨?_, hd.distinct⟩⟩⟩
      · have hle : ¬ (g : ℤ) > info.length := by have := hfile.2; simp only at this; omega
        rw [Info.GetFileByOffset, hdir]
        exact if_neg hle
      · exact ⟨by rw [hpath, ← hfile.1, hpath], hfile.2⟩
      · rw [filePaths, hall]; simp [hpath]
      · rw [hall, hpath, ← hpath []]
        exact holds_update .nil hfile .nil hc' (by simp)

theorem FileAt.length_eq {g} (a : FileAt root info fs cs g) :
    a.file.length = (a.c.length : ℤ) := a.holds.2

theorem FileAt.rest_le {g} (a : FileAt root info fs cs g) :
    g + (a.c.length - a.o) ≤ cs.flatten.length := by
  have hlt := a.lt
  have hpos := a.pos
  conv_rhs => rw [a.split]
  simp only [flatten_append, flatten_cons, length_append]
  omega

/-! ## One round -/

def FileAt.chunk {g : ℕ} (a : FileAt root info fs cs g) (k : ℕ) : ℕ := min (a.c.length - a.o) k

def FileAt.write {g : ℕ} (a : FileAt root info fs cs g) (b : Bytes) : FS :=
  Function.update fs (a.file.PathWithPrefix root info) (some (splice a.c a.o b))

theorem FileAt.fileWriteAt_eq {g} (a : FileAt root info fs cs g) (b : Bytes) :
    fileWriteAt (openWriter fs (a.file.PathWithPrefix root info))
      (a.file.PathWithPrefix root info) b a.o = (b.length, none, a.write b) := by
  have hopen : openWriter fs (a.file.PathWithPrefix root info) = fs := by
    rw [openWriter, a.holds.1]
  have hpad : a.o - a.c.length = 0 := by have := a.lt; omega
  have hneg : ¬ (a.o : ℤ) < 0 := by omega
  rw [hopen, fileWriteAt, if_neg hneg, a.holds.1]
  simp only [toNat_natCast, hpad, replicate_zero, append_nil]
  rfl

theorem FileAt.fileReadAt_eq {g k} (a : FileAt root info fs cs g) (hk : k ≤ a.c.length - a.o) :
    fileReadAt fs (a.file.PathWithPrefix root info) k a.o = (slice a.c a.o k, none) := by
  have hlt := a.lt
  have hneg : ¬ (a.o : ℤ) < 0 := by omega
  have hlen : (slice a.c a.o k).length = k := length_slice (by omega)
  rw [fileReadAt, if_neg hneg, a.holds.1]
  simp only [toNat_natCast, hlen, lt_irrefl, if_false]

section Round

variable {p : Bytes} {off n fuel : ℕ}

section

variable (a : FileAt root info fs cs (off + n))
include a

theorem FileAt.chunk_le (k : ℕ) :
    a.chunk k ≤ a.c.length - a.o ∧ a.chunk k ≤ k := ⟨Nat.min_le_left .., Nat.min_le_right ..⟩

theorem FileAt.not_end : ¬ (a.file.length = 0 ∨ a.file.length = (a.o : ℤ)) := by
  have hlt := a.lt
  have hlen := a.length_eq
  omega

theorem FileAt.pend_eq (hfit : cs.flatten.length < 2 ^ 63) :
    wrap64 (wrap64 (a.file.length - (a.o : ℤ)) + n) = ((a.c.length - a.o + n : ℕ) : ℤ) := by
  have hlt := a.lt
  have hlen := a.length_eq
  have hrest := a.rest_le
  have hsub : a.file.length - (a.o : ℤ) = ((a.c.length - a.o : ℕ) : ℤ) := by omega
  rw [hsub, wrap64_natCast (by omega), ← Nat.cast_add, wrap64_natCast (by omega)]

theorem FileAt.offset_eq (hfit : cs.flatten.length < 2 ^ 63) (k : ℕ) :
    wrap64 (((off + n : ℕ) : ℤ) + (a.chunk k : ℤ)) = ((off + (n + a.chunk k) : ℕ) : ℤ) := by
  have hle := (a.chunk_le k).1
  have hrest := a.rest_le
  rw [← Nat.cast_add, wrap64_natCast (by omega), add_assoc]

theorem writeLoop_step (hn : n < p.length) (hfit : cs.flatten.length < 2 ^ 63) :
    writeLoop root info p (fuel + 1) n (off + n : ℕ) fs =
      writeLoop root info p fuel (n + a.chunk (p.length - n)) (off + (n + a.chunk (p.length - n)) : ℕ)
        (a.write (slice p n (a.chunk (p.length - n)))) := by
  have hlt := a.lt
  have hgo : ¬ (¬ (p.length : ℤ) < ((a.c.length - a.o + n : ℕ) : ℤ) ∧
      ((a.c.length - a.o + n : ℕ) : ℤ) ≤ (n : ℤ)) := by omega
  have hchunk : (if (p.length : ℤ) < ((a.c.length - a.o + n : ℕ) : ℤ) then p.length
      else ((a.c.length - a.o + n : ℕ) : ℤ).toNat) - n = a.chunk (p.length - n) := by
    rw [FileAt.chunk]
    split_ifs <;> omega
  have hb : (slice p n (a.chunk (p.length - n))).length = a.chunk (p.length - n) :=
    length_slice (by have := (a.chunk_le (p.length - n)).2; omega)
  rw [writeLoop, if_neg (by omega), a.found]
  dsimp only
  rw [if_neg a.not_end, a.pend_eq hfit, if_neg hgo, hchunk, a.fileWriteAt_eq, hb]
  dsimp only
  rw [a.offset_eq hfit]
  rfl

theorem readLoop_step (hn : n < p.length) (hfit : cs.flatten.length < 2 ^ 63) :
    readLoop root info fs (fuel + 1) n (off + n : ℕ) p =
      readLoop root info fs fuel (n + a.chunk (p.length - n)) (off + (n + a.chunk (p.length - n)) : ℕ)
        (splice p n (slice a.c a.o (a.chunk (p.length - n)))) := by
  have hlt := a.lt
  have hle := a.chunk_le (p.length - n)
  have hpend : (if ((a.c.length - a.o + n : ℕ) : ℤ) > p.length then (p.length : ℤ)
      else ((a.c.length - a.o + n : ℕ) : ℤ)) = ((n + a.chunk (p.length - n) : ℕ) : ℤ) := by
    rw [FileAt.chunk]
    split_ifs <;> omega
  have hb : (slice a.c a.o (a.chunk (p.length - n))).length = a.chunk (p.length - n) :=
    length_slice (by omega)
  rw [readLoop, if_neg (by omega), a.found]
  dsimp only
  rw [if_neg a.not_end, add_comm (n : ℤ), a.pend_eq hfit, hpend, a.holds.1, Option.isNone_some,
    if_neg Bool.false_ne_true, if_neg (by omega), toNat_natCast, Nat.add_sub_cancel_left,
    a.fileReadAt_eq hle.1]
  dsimp only
  rw [hb, a.offset_eq hfit]
  rfl

end

end Round

/-! ## Whole runs -/

def FileAt.contents {g : ℕ} (a : FileAt root info fs cs g) (b : Bytes) : List Bytes :=
  a.pre ++ splice a.c a.o b :: a.post

theorem FileAt.onDisk_write {g} (a : FileAt root info fs cs g) {b}
    (hb : b.length ≤ a.c.length - a.o) : OnDisk root info (a.write b) (a.contents b) :=
  a.update _ (length_splice (by have := a.lt; omega))

theorem FileAt.flatten_contents {g} (a : FileAt root info fs cs g) {b}
    (hb : b.length ≤ a.c.length - a.o) : (a.contents b).flatten = splice cs.flatten g b := by
  have hlt := a.lt
  rw [FileAt.contents, ← splice_flatten (by omega)]
  exact congrArg₂ (fun l g => splice (flatten l) g b) a.split.symm a.pos.symm

theorem FileAt.slice_eq {g k} (a : FileAt root info fs cs g) (hk : k ≤ a.c.length - a.o) :
    slice a.c a.o k = slice cs.flatten g k := by
  have hlt := a.lt
  rw [← slice_flatten (by omega)]
  exact congrArg₂ (fun l g => slice (flatten l) g k) a.split.symm a.pos.symm

theorem writeLoop_run (p : Bytes) (off : ℕ) : ∀ (fuel n : ℕ) {fs : FS} {cs : List Bytes},
    OnDisk root info fs cs → cs.flatten.length < 2 ^ 63 → n ≤ p.length → p.length - n < fuel →
    off + p.length ≤ cs.flatten.length →
    ∃ fs' cs', writeLoop root info p fuel n (off + n : ℕ) fs = ⟨p.length, none, fs'⟩ ∧
      OnDisk root info fs' cs' ∧ cs'.flatten = splice cs.flatten (off + n) (p.drop n) ∧
      ∀ path, path ∉ filePaths root info → fs' path = fs path
  | 0, _, _, _, _, _, _, _, _ => by omega
  | fuel + 1, n, fs, cs, hd, hfit, hn, _, _ => by
    rcases Nat.lt_or_eq_of_le hn with hn | rfl
    · obtain ⟨a⟩ := hd.fileAt hfit (g := off + n) (by omega)
      have hlt := a.lt
      have hle := a.chunk_le (p.length - n)
      have hpos : 0 < a.chunk (p.length - n) := by rw [FileAt.chunk]; omega
      set m := a.chunk (p.length - n) with hm
      have hb : (slice p n m).length = m := length_slice (by omega)
      have hflat := a.flatten_contents (b := slice p n m) (by omega)
      have hlen : (a.contents (slice p n m)).flatten.length = cs.flatten.length := by
        rw [hflat, length_splice (by omega)]
      obtain ⟨fs', cs', hrun, hd', hcs', hframe⟩ := writeLoop_run p off fuel (n + m)
        (a.onDisk_write (b := slice p n m) (by omega)) (by omega) (by omega) (by omega) (by omega)
      refine ⟨fs', cs', by rw [writeLoop_step a hn hfit, hrun], hd', ?_, fun path hpath => ?_⟩
      · have hdrop : p.drop n = slice p n m ++ p.drop (n + m) := by
          rw [slice, ← drop_drop, take_append_drop]
        rw [hcs', hflat, hdrop, ← splice_splice (by omega), hb, add_assoc]
      · rw [hframe path hpath, FileAt.write, Function.update_of_ne]
        rintro rfl
        exact hpath a.mem
    · refine ⟨fs, cs, ?_, hd, by simp, fun _ _ => rfl⟩
      rw [writeLoop, if_pos le_rfl]

theorem readLoop_run (hd : OnDisk root info fs cs) (hfit : cs.flatten.length < 2 ^ 63) (off : ℕ) :
    ∀ (fuel n : ℕ) {p : Bytes}, n ≤ p.length → p.length - n < fuel →
    off + p.length ≤ cs.flatten.length →
    readLoop root info fs fuel n (off + n : ℕ) p =
      (p.length, none, splice p n (slice cs.flatten (off + n) (p.length - n)))
  | 0, _, _, _, _, _ => by omega
  | fuel + 1, n, p, hn, _, _ => by
    rcases Nat.lt_or_eq_of_le hn with hn | rfl
    · obtain ⟨a⟩ := hd.fileAt hfit (g := off + n) (by omega)
      have hlt := a.lt
      have hle := a.chunk_le (p.length - n)
      have hpos : 0 < a.chunk (p.length - n) := by rw [FileAt.chunk]; omega
      set m := a.chunk (p.length - n) with hm
      have hb : (slice a.c a.o m).length = m := length_slice (by omega)
      have hlen : (splice p n (slice a.c a.o m)).length = p.length := length_splice (by omega)
      have hrun := readLoop_run hd hfit off fuel (n + m) (p := splice p n (slice a.c a.o m))
        (by omega) (by omega) (by omega)
      have hsum : p.length - n = m + (p.length - (n + m)) := by omega
      rw [readLoop_step a hn hfit, hrun, hlen, hsum, slice_add, ← splice_splice (by omega),
        ← a.slice_eq hle.1, hb, add_assoc]
    · rw [readLoop, if_pos le_rfl]
      simp

theorem sum_length {files cs} (h : Forall₂ (Holds root info fs) files cs) :
    (files.map File.length).sum = (cs.flatten.length : ℤ) ∧
      ∀ f ∈ files, 0 ≤ f.length ∧ f.length ≤ (cs.flatten.length : ℤ) := by
  induction h with
  | nil => simp
  | @cons file c files cs hfile _ ih =>
    have hlen := hfile.2
    rw [map_cons, sum_cons, ih.1, flatten_cons, length_append]
    refine ⟨by push_cast; omega, fun f hf => ?_⟩
    rcases mem_cons.1 hf with rfl | hf
    · push_cast; omega
    · have := ih.2 f hf
      push_cast; omega

theorem OnDisk.totalLength_eq (hd : OnDisk root info fs cs) (hfit : cs.flatten.length < 2 ^ 63) :
    info.TotalLength = (cs.flatten.length : ℤ) := by
  obtain ⟨hsum, hle⟩ := sum_length hd.files
  rw [Info.totalLength_eq fun f hf => by have := hle f hf; omega, hsum, wrap64_natCast hfit]

/-- **What is written is read back.** -/
theorem writeAt_readAt (hd : OnDisk root info fs cs) (hfit : cs.flatten.length < 2 ^ 63)
    (p : Bytes) (off : ℕ) (hin : (off : ℤ) + p.length ≤ info.TotalLength) :
    ∃ fs' cs', WriteAt root info fs p off = ⟨p.length, none, fs'⟩ ∧ OnDisk root info fs' cs' ∧
      cs'.flatten = splice cs.flatten off p ∧
      (∀ path, path ∉ filePaths root info → fs' path = fs path) ∧
      ∀ (q : Bytes) (off' : ℕ), (off' : ℤ) + q.length ≤ info.TotalLength →
        ReadAt root info fs' q off' = (q.length, none, slice cs'.flatten off' q.length) := by
  have htotal := hd.totalLength_eq hfit
  obtain ⟨fs', cs', hrun, hd', hcs', hframe⟩ :=
    writeLoop_run p off (p.length + 1) 0 hd hfit (by omega) (by omega) (by omega)
  have hlen : cs'.flatten.length = cs.flatten.length := by
    rw [hcs']
    exact length_splice (by simp only [drop_zero]; omega)
  refine ⟨fs', cs', hrun, hd', hcs', hframe, fun q off' hin' => ?_⟩
  have hread := readLoop_run hd' (by omega) off' (q.length + 1) 0 (p := q) (by omega) (by omega)
    (by omega)
  rw [ReadAt]
  refine hread.trans ?_
  have hslice : (slice cs'.flatten off' q.length).length = q.length := length_slice (by omega)
  simp only [Nat.add_zero, Nat.sub_zero, splice, take_zero, nil_append, Nat.zero_add,
    hslice, drop_length, append_nil]

def sampleInfo : Info := ⟨utf8 "t", 4, [], 0, [⟨2, [utf8 "a"]⟩, ⟨0, [utf8 "b"]⟩, ⟨3, [utf8 "c"]⟩]⟩

def sampleFS : FS := fun path =>
  if path = utf8 "t/a" then some [1, 2] else if path = utf8 "t/b" then some []
  else if path = utf8 "t/c" then some [3, 4, 5] else none

theorem writeAt_readAt_sample : ∃ (fs' : FS) (cs' : List Bytes),
    WriteAt [] sampleInfo sampleFS [8, 9] 1 = ⟨2, none, fs'⟩ ∧ cs'.flatten = [1, 8, 9, 4, 5] ∧
      ReadAt [] sampleInfo fs' [0, 0, 0] 1 = (3, none, slice cs'.flatten 1 3) := by
  have hd : OnDisk [] sampleInfo sampleFS [[1, 2], [], [3, 4, 5]] :=
    ⟨.cons ⟨by decide +kernel, rfl⟩ (.cons ⟨by decide +kernel, rfl⟩
      (.cons ⟨by decide +kernel, rfl⟩ .nil)), by decide +kernel⟩
  obtain ⟨fs', cs', hw, -, hcs, -, hread⟩ :=
    writeAt_readAt hd (by decide) [8, 9] 1 (by decide +kernel)
  exact ⟨fs', cs', hw, hcs, hread [0, 0, 0] 1 (by decide +kernel)⟩

def hugeInfo : Info := ⟨utf8 "t", 4, [], 0,
  [⟨1, [utf8 "a"]⟩, ⟨2 ^ 63 - 1, [utf8 "b"]⟩, ⟨2 ^ 63 - 1, [utf8 "c"]⟩, ⟨3, [utf8 "d"]⟩]⟩

def hugeFS : FS := fun path =>
  if path = utf8 "t/a" then some [0] else if path = utf8 "t/d" then some [0, 0, 0]
  else if path = utf8 "t/b" ∨ path = utf8 "t/c" then some (replicate (2 ^ 63 - 1) 0) else none

theorem hugeFS_holds {name} (h : name = utf8 "b" ∨ name = utf8 "c") :
    Holds [] hugeInfo hugeFS ⟨2 ^ 63 - 1, [name]⟩ (replicate (2 ^ 63 - 1) 0) := by
  have hpath : ∀ name, name = utf8 "b" ∨ name = utf8 "c" →
      (File.mk (2 ^ 63 - 1) [name]).PathWithPrefix [] hugeInfo = utf8 "t/" ++ name := by
    rintro _ (rfl | rfl) <;> decide +kernel
  refine ⟨?_, by rw [length_replicate]; norm_num⟩
  rw [hpath name h, hugeFS]
  rcases h with rfl | rfl <;>
    rw [if_neg (by decide +kernel), if_neg (by decide +kernel), if_pos (by decide +kernel)]

theorem writeAt_hugeInfo : (∃ cs, OnDisk [] hugeInfo hugeFS cs) ∧
    (0 : ℤ) + [1, 2].length ≤ hugeInfo.TotalLength ∧
    (WriteAt [] hugeInfo hugeFS [1, 2] 0).n = 1 ∧
    (WriteAt [] hugeInfo hugeFS [1, 2] 0).err = none := by
  refine ⟨⟨[[0], replicate (2 ^ 63 - 1) 0, replicate (2 ^ 63 - 1) 0, [0, 0, 0]], ?_, ?_⟩,
    by decide +kernel, by decide +kernel, by decide +kernel⟩
  · exact .cons ⟨by decide +kernel, rfl⟩ (.cons (hugeFS_holds (Or.inl rfl))
      (.cons (hugeFS_holds (Or.inr rfl)) (.cons ⟨by decide +kernel, rfl⟩ .nil)))
  · decide +kernel

end GoI2pBt.Metainfo
