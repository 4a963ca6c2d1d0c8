/-
  When what the storage has written passes the verification.
-/
import GoI2pBt.Metainfo.WriteAll
import GoI2pBt.Rpc.Verify

namespace GoI2pBt.Rpc

open List Metainfo TorrentManager Int

/-! ## Files in their places -/

structure Placed where
  file : File
  content : Bytes
  offset : ℕ

def placed : List File → List Bytes → ℕ → List Placed
  | file :: files, c :: cs, offset => ⟨file, c, offset⟩ :: placed files cs (offset + c.length)
  | _, _, _ => []

namespace Placed

def Touches (off len : ℕ) (p : Placed) : Prop :=
  off < p.offset + p.content.length ∧ p.offset < off + len

instance (off len : ℕ) : DecidablePred (Touches off len) := fun _ => instDecidableAnd

def start (off : ℕ) (p : Placed) : ℕ := off - p.offset

def size (off len : ℕ) (p : Placed) : ℕ :=
  min (p.offset + p.content.length) (off + len) - max p.offset off

def part (off len : ℕ) (p : Placed) : Bytes := slice p.content (p.start off) (p.size off len)

def segment (info : Info) (torrentDir : Bytes) (off len : ℕ) (p : Placed) : Segment :=
  ⟨joinPath [torrentDir, p.file.Path info], p.start off, p.size off len⟩

variable {off len : ℕ} {p : Placed}

theorem start_add_size_le (h : 0 < p.size off len) :
    p.start off + p.size off len ≤ p.content.length := by
  rw [size] at h
  rw [start, size]
  omega

theorem size_le : p.size off len ≤ len := by
  rw [size]
  omega

theorem length_part : (p.part off len).length = p.size off len := by
  rw [part]
  rcases Nat.eq_zero_or_pos (p.size off len) with h0 | hpos
  · rw [h0, slice_zero, length_nil]
  · exact length_slice (start_add_size_le hpos)

theorem part_eq_nil (h : ¬ p.Touches off len) : p.part off len = [] := by
  rw [← length_eq_zero_iff, length_part, size]
  rw [Touches] at h
  omega

end Placed

theorem le_offset_of_mem {p} : ∀ {files : List File} {cs : List Bytes} {offset : ℕ},
    p ∈ placed files cs offset → offset ≤ p.offset
  | [], _, _, h => nomatch h
  | _ :: _, [], _, h => nomatch h
  | file :: files, c :: cs, _, h => by
    rw [placed, mem_cons] at h
    rcases h with rfl | h
    · exact le_rfl
    · have := le_offset_of_mem h
      omega

theorem offset_add_le_of_mem {p} : ∀ {files : List File} {cs : List Bytes} {offset : ℕ},
    p ∈ placed files cs offset → p.offset + p.content.length ≤ offset + cs.flatten.length
  | [], _, _, h => nomatch h
  | _ :: _, [], _, h => nomatch h
  | file :: files, c :: cs, _, h => by
    rw [placed, mem_cons] at h
    rw [flatten_cons, length_append]
    rcases h with rfl | h
    · dsimp only
      omega
    · have := offset_add_le_of_mem h
      omega

section Arithmetic

variable {info : Info} {torrentDir : Bytes} {off len : ℕ}

theorem fileSegment_eq {file c offset} (hfc : Sized file c) (hend : off + len < 2 ^ 63)
    (hfit : offset + c.length < 2 ^ 63) (htouch : Placed.Touches off len ⟨file, c, offset⟩) :
    fileSegment info torrentDir off len file offset =
      Placed.segment info torrentDir off len ⟨file, c, offset⟩ := by
  obtain ⟨hbegin, hafter⟩ := htouch
  dsimp only at hbegin hafter
  have hlen : file.length = (c.length : ℤ) := hfc
  have hsize : (if ((offset + c.length : ℕ) : ℤ) > ((off + len : ℕ) : ℤ) then
      wrap64 (((off + len : ℕ) : ℤ) - ((max offset off : ℕ) : ℤ))
      else ((c.length - (off - offset) : ℕ) : ℤ)) =
      ((min (offset + c.length) (off + len) - max offset off : ℕ) : ℤ) := by
    split_ifs with h
    · rw [wrap64_of_range] <;> omega
    · omega
  have hpend : wrap64 ((off : ℤ) + (len : ℤ)) = ((off + len : ℕ) : ℤ) := by
    rw [← Nat.cast_add, wrap64_natCast hend]
  have hstart : (if (offset : ℤ) < off then wrap64 ((off : ℤ) - offset) else 0) =
      ((off - offset : ℕ) : ℤ) := by
    split_ifs with h
    · rw [wrap64_of_range] <;> omega
    · omega
  have hreadStart : wrap64 ((offset : ℤ) + ((off - offset : ℕ) : ℤ)) =
      ((max offset off : ℕ) : ℤ) := by
    rw [wrap64_of_range] <;> omega
  have hreadLength : wrap64 (file.length - ((off - offset : ℕ) : ℤ)) =
      ((c.length - (off - offset) : ℕ) : ℤ) := by
    rw [wrap64_of_range] <;> omega
  have hreadEnd : wrap64 (((max offset off : ℕ) : ℤ) + ((c.length - (off - offset) : ℕ) : ℤ)) =
      ((offset + c.length : ℕ) : ℤ) := by
    rw [wrap64_of_range] <;> omega
  rw [fileSegment, calculateReadParameters, hpend]
  dsimp only
  rw [hstart, hreadStart, hreadLength, hreadEnd, hsize]
  rfl

theorem segments_eq (hend : off + len < 2 ^ 63) {files cs}
    (hsized : Forall₂ Sized files cs) : ∀ {offset : ℕ}, offset + cs.flatten.length < 2 ^ 63 →
    segments info torrentDir off len files offset =
      ((placed files cs offset).filter (·.Touches off len)).map
        (Placed.segment info torrentDir off len) := by
  induction hsized with
  | nil => intro offset _; rfl
  | @cons file c files cs hfc _ ih =>
    intro offset hfit
    rw [flatten_cons, length_append] at hfit
    have hlen : file.length = (c.length : ℤ) := hfc
    have hnext : wrap64 ((offset : ℤ) + file.length) = ((offset + c.length : ℕ) : ℤ) := by
      rw [hlen, ← Nat.cast_add, wrap64_natCast (by omega)]
    have hskip : shouldSkipFile offset file.length off ↔ offset + c.length ≤ off := by
      rw [shouldSkipFile, hnext]
      omega
    have hafter : isFileAfterPiece offset off len ↔ off + len ≤ offset := by
      rw [isFileAfterPiece, ← Nat.cast_add, wrap64_natCast hend]
      omega
    rw [segments, hnext, ih (by omega), placed]
    split_ifs with h1 h2
    · -- before the piece
      have h : ¬ Placed.Touches off len ⟨file, c, offset⟩ :=
        fun htouch => absurd (hskip.1 h1) (Nat.not_le.2 htouch.1)
      rw [filter_cons_of_neg (by simpa using h)]
    · -- behind it, and so are all that follow
      have h : ∀ p ∈ Placed.mk file c offset :: placed files cs (offset + c.length),
          ¬ p.Touches off len := by
        intro p hp htouch
        have hle : offset ≤ p.offset :=
          le_offset_of_mem (show p ∈ placed (file :: files) (c :: cs) offset from hp)
        exact absurd ((hafter.1 h2).trans hle) (Nat.not_le.2 htouch.2)
      rw [filter_eq_nil_iff.2 fun p hp => by simpa using h p hp]
      rfl
    · have h : Placed.Touches off len ⟨file, c, offset⟩ :=
        ⟨Nat.not_le.1 (hskip.not.1 h1), Nat.not_le.1 (hafter.not.1 h2)⟩
      rw [filter_cons_of_pos (by simpa using h), map_cons, fileSegment_eq hfc hend (by omega) h]

theorem slice_append {a b : Bytes} {m : ℕ} : slice (a ++ b) off m =
    slice a off m ++ slice b (off - a.length) (m - (a.length - off)) := by
  simp only [slice, drop_append, take_append, length_drop]

theorem flatMap_part {files cs} (hsized : Forall₂ Sized files cs) :
    ∀ {offset : ℕ}, (placed files cs offset).flatMap (Placed.part off len) =
      slice cs.flatten (off - offset) (off + len - max offset off) := by
  induction hsized with
  | nil => intro offset; simp [placed, slice]
  | @cons file c files cs _ _ ih =>
    intro offset
    have hpart : Placed.part off len ⟨file, c, offset⟩ =
        slice c (off - offset) (off + len - max offset off) := by
      rw [Placed.part, Placed.start, Placed.size, slice, slice, take_eq_take_iff, length_drop]
      dsimp only
      omega
    have hstart : off - (offset + c.length) = off - offset - c.length := by omega
    have hrest : off + len - max (offset + c.length) off =
        off + len - max offset off - (c.length - (off - offset)) := by omega
    rw [placed, flatMap_cons, hpart, ih, flatten_cons, slice_append, hstart, hrest]

theorem flatMap_filter_touches (ps : List Placed) :
    (ps.filter (·.Touches off len)).flatMap (Placed.part off len) =
      ps.flatMap (Placed.part off len) := by
  induction ps with
  | nil => rfl
  | cons p ps ih =>
    by_cases h : p.Touches off len
    · rw [filter_cons_of_pos (by simpa using h), flatMap_cons, flatMap_cons, ih]
    · rw [filter_cons_of_neg (by simpa using h), flatMap_cons, Placed.part_eq_nil h, ih, nil_append]

end Arithmetic

/-! ## The content of a torrent -/

structure Content (sha1 : Bytes → Hash) (info : Info) where
  cs : List Bytes
  k : ℕ
  k_pos : 0 < k
  k_lt : k < 2 ^ 63
  pieceLength : info.pieceLength = k
  sized : Forall₂ Sized info.AllFiles cs
  pieces : info.pieces = pieceHashes sha1 k cs.flatten
  fits : cs.flatten.length < 2 ^ 63

namespace Content

variable {sha1 : Bytes → Hash} {info : Info} (t : Content sha1 info) (root : Bytes) (i : ℕ)

def data : Bytes := t.cs.flatten

def piece : Bytes := slice t.data (i * t.k) t.k

def len : ℕ := min t.k (t.data.length - i * t.k)

def touched : List Placed := (placed info.files t.cs 0).filter (·.Touches (i * t.k) (t.len i))

def base : FS := writeAll root info (fun _ => none) (info.AllFiles.zip t.cs)

def checkPath (info : Info) (root : Bytes) (file : File) : Bytes :=
  joinPath [joinPath [root, info.name], file.Path info]

variable {t root i}

theorem countPieces_eq : info.CountPieces = pieceCount t.data.length t.k := by
  rw [Info.CountPieces, t.pieces, pieceHashes, length_map, length_range]
  rfl

theorem mul_lt (hi : i < info.CountPieces) : i * t.k < t.data.length := by
  rw [t.countPieces_eq] at hi
  exact (lt_pieceCount t.k_pos).1 hi

theorem sum_sized {files cs} (h : Forall₂ Sized files cs) :
    (files.map File.length).sum = (cs.flatten.length : ℤ) := by
  induction h with
  | nil => rfl
  | cons hfc _ ih => rw [map_cons, sum_cons, ih, hfc, flatten_cons, length_append, Nat.cast_add]

theorem length_lt_of_sized {files cs} (h : Forall₂ Sized files cs) :
    ∀ file ∈ files, 0 ≤ file.length ∧ file.length ≤ (cs.flatten.length : ℤ) := by
  induction h with
  | nil => nofun
  | @cons f c files cs hfc _ ih =>
    intro file hfile
    have hlen : f.length = (c.length : ℤ) := hfc
    rw [flatten_cons, length_append]
    rcases mem_cons.1 hfile with rfl | hmem
    · omega
    · have := ih file hmem
      omega

theorem totalLength_eq : info.TotalLength = wrap64 t.data.length := by
  have hbound : ∀ f ∈ info.AllFiles, -2 ^ 63 ≤ f.length ∧ f.length < 2 ^ 63 := by
    intro f hf
    have := length_lt_of_sized t.sized f hf
    have := t.fits
    omega
  rw [Info.totalLength_eq hbound, sum_sized t.sized]
  rfl

theorem length_eq (hi : i < info.CountPieces) : (Piece.mk info i).Length = (t.len i : ℕ) :=
  Piece.length_eq t.k_pos t.k_lt t.countPieces_eq t.pieceLength t.totalLength_eq
    (t.countPieces_eq ▸ hi)

theorem offset_eq (hi : i < info.CountPieces) : (Piece.mk info i).Offset = (i * t.k : ℕ) := by
  have hlt := t.mul_lt hi
  have hfits : t.data.length < 2 ^ 63 := t.fits
  rw [Piece.Offset]
  dsimp only
  rw [t.pieceLength, ← Nat.cast_mul, wrap64_natCast (by omega)]

theorem hash_eq (hi : i < info.CountPieces) : (Piece.mk info i).Hash = some (sha1 (t.piece i)) := by
  have hneg : ¬ (i : ℤ) < 0 := by omega
  rw [t.countPieces_eq, data] at hi
  rw [Piece.Hash]
  dsimp only
  rw [if_neg hneg, toNat_natCast, t.pieces, pieceHashes, getElem?_map, getElem?_range hi]
  rfl

theorem piece_eq : t.piece i = slice t.data (i * t.k) (t.len i) := by
  rw [piece, len, slice, slice, take_eq_take_iff, length_drop]
  omega

theorem length_piece (hi : i < info.CountPieces) : (t.piece i).length = t.len i := by
  have := t.mul_lt hi
  rw [piece_eq, length_slice]
  rw [len]
  omega

theorem len_pos (hi : i < info.CountPieces) : 0 < t.len i := by
  have := t.mul_lt hi
  have := t.k_pos
  rw [len]
  omega

theorem end_lt (hi : i < info.CountPieces) : i * t.k + t.len i < 2 ^ 63 := by
  have := t.mul_lt hi
  have hfits : t.data.length < 2 ^ 63 := t.fits
  rw [len]
  omega

theorem sized_files (hdir : info.IsDir = true) : Forall₂ Sized info.files t.cs := by
  have hall : info.AllFiles = info.files := by rw [Info.AllFiles, if_pos hdir]
  exact hall ▸ t.sized

theorem pieceSegments_eq (hdir : info.IsDir = true) (hi : i < info.CountPieces) :
    pieceSegments root ⟨info, i⟩ = (t.touched i).map
      (Placed.segment info (joinPath [root, info.name]) (i * t.k) (t.len i)) := by
  rw [pieceSegments, t.length_eq hi, t.offset_eq hi]
  exact segments_eq (t.end_lt hi) (t.sized_files hdir) (by rw [Nat.zero_add]; exact t.fits)

theorem flatMap_touched (hdir : info.IsDir = true) :
    (t.touched i).flatMap (Placed.part (i * t.k) (t.len i)) = t.piece i := by
  rw [touched, flatMap_filter_touches, flatMap_part (t.sized_files hdir), piece_eq, Nat.zero_max,
    Nat.sub_zero, Nat.add_sub_cancel_left]
  rfl

/-! ## One piece -/

variable (t root i) in
def Found (p : Placed) : Prop := ∃ b, t.base root (checkPath info root p.file) = some b ∧
    (0 < p.size (i * t.k) (t.len i) → p.start (i * t.k) + p.size (i * t.k) (t.len i) ≤ b.length ∧
      slice b (p.start (i * t.k)) (p.size (i * t.k) (t.len i)) = p.part (i * t.k) (t.len i))

theorem Found.segment_spec {p} (h : t.Found root i p) (fs : FS) (hlen : t.len i ≤ maxAlloc) :
    (p.segment info (joinPath [root, info.name]) (i * t.k) (t.len i)).Readable
        (overlayFS (t.base root) fs) ∧
      (p.segment info (joinPath [root, info.name]) (i * t.k) (t.len i)).padded
        (overlayFS (t.base root) fs) = p.part (i * t.k) (t.len i) := by
  obtain ⟨b, hb, hbytes⟩ := h
  generalize hs : p.segment info (joinPath [root, info.name]) (i * t.k) (t.len i) = s
  have hpath : s.path = checkPath info root p.file := by rw [← hs]; rfl
  have hstart : s.start = (p.start (i * t.k) : ℕ) := by rw [← hs]; rfl
  have hlength : s.length = (p.size (i * t.k) (t.len i) : ℕ) := by rw [← hs]; rfl
  have hsize : p.size (i * t.k) (t.len i) ≤ t.len i := Placed.size_le
  obtain ⟨old, hc⟩ : ∃ old, overlayFS (t.base root) fs s.path = some (b ++ old) := by
    rw [overlayFS, hpath, hb]
    exact ⟨_, rfl⟩
  have hcomplete : s.Complete (overlayFS (t.base root) fs) := by
    refine ⟨_, hc, fun hpos => ?_⟩
    have hle := (hbytes (by omega)).1
    rw [hstart, hlength, length_append]
    omega
  refine ⟨⟨by omega, by omega, by omega, _, hc, fun hpos => ?_⟩, ?_⟩
  · have hle := (hbytes (by omega)).1
    rw [hstart, length_append]
    omega
  · rw [hcomplete.padded_eq (by omega), Segment.bytes, hc, Option.getD_some, hstart, hlength,
      toNat_natCast, toNat_natCast]
    rcases Nat.eq_zero_or_pos (p.size (i * t.k) (t.len i)) with h0 | hpos
    · rw [Placed.part, h0, slice_zero, slice_zero]
    · obtain ⟨hle, heq⟩ := hbytes hpos
      rw [slice_append_left hle, heq]

theorem passes_of_found (hdir : info.IsDir = true) (hi : i < info.CountPieces)
    (hlen : t.len i ≤ maxAlloc) (hfound : ∀ p ∈ t.touched i, t.Found root i p) (fs : FS) :
    Passes sha1 (overlayFS (t.base root) fs) root ⟨info, i⟩ := by
  have hbytes : (pieceSegments root ⟨info, i⟩).flatMap (·.padded (overlayFS (t.base root) fs)) =
      t.piece i := by
    rw [t.pieceSegments_eq hdir hi, flatMap_map, ← t.flatMap_touched hdir]
    exact flatMap_congr fun p hp => ((hfound p hp).segment_spec fs hlen).2
  refine ⟨by rw [t.length_eq hi]; omega, ?_, by rw [hbytes, t.length_eq hi, t.length_piece hi],
    by rw [hbytes, t.hash_eq hi]⟩
  rw [t.pieceSegments_eq hdir hi, forall_mem_map]
  exact fun p hp => ((hfound p hp).segment_spec fs hlen).1

variable (t) in
def NoCollision : Prop := ∀ i < info.CountPieces, ∀ b : Bytes, b.length = (t.piece i).length →
    sha1 b = sha1 (t.piece i) → b = t.piece i

theorem eq_of_flatMap_eq {α : Type} {f g : α → Bytes} : ∀ {l : List α},
    (∀ x ∈ l, (f x).length = (g x).length) → l.flatMap f = l.flatMap g → ∀ x ∈ l, f x = g x
  | [], _, _ => nofun
  | y :: l, hlen, heq => by
    rw [forall_mem_cons] at hlen ⊢
    rw [flatMap_cons, flatMap_cons] at heq
    obtain ⟨hhead, htail⟩ := append_inj heq hlen.1
    exact ⟨hhead, eq_of_flatMap_eq hlen.2 htail⟩

theorem isDir_of_passes (t : Content sha1 info) {fs} (hi : i < info.CountPieces)
    (h : Passes sha1 fs root ⟨info, i⟩) : info.IsDir = true := by
  by_contra hdir
  have hfiles : info.files = [] := by simpa [Info.IsDir] using hdir
  have hfills := h.fills
  have hpos := t.len_pos hi
  rw [t.length_eq hi, pieceSegments] at hfills
  simp only [hfiles, segments, flatMap_nil, length_nil] at hfills
  omega

theorem padded_of_passes (hcoll : t.NoCollision) (hdir : info.IsDir = true)
    (hi : i < info.CountPieces) {fs : FS} (h : Passes sha1 fs root ⟨info, i⟩) :
    ∀ p ∈ t.touched i,
      (p.segment info (joinPath [root, info.name]) (i * t.k) (t.len i)).Readable fs ∧
      (p.segment info (joinPath [root, info.name]) (i * t.k) (t.len i)).padded fs =
        p.part (i * t.k) (t.len i) := by
  have hread := h.readable
  have hfills := h.fills
  have hhash := h.hash
  rw [t.pieceSegments_eq hdir hi, forall_mem_map] at hread
  rw [t.pieceSegments_eq hdir hi, flatMap_map] at hfills hhash
  rw [t.length_eq hi] at hfills
  rw [t.hash_eq hi, Option.some.injEq] at hhash
  have heq := hcoll i hi _ (by rw [t.length_piece hi]; exact_mod_cast hfills) hhash.symm
  rw [← t.flatMap_touched hdir] at heq
  refine fun p hp => ⟨hread p hp, eq_of_flatMap_eq (fun p _ => ?_) heq p hp⟩
  rw [Placed.length_part, Segment.length_padded]
  rfl

theorem le_length_of_padded {b ones : Bytes} {start size : ℕ} (hstart : start < b.length)
    (hones : ones = replicate (start + size - b.length) 1)
    (heq : slice (b ++ ones) start size = slice b start size ++
      replicate (size - (slice b start size).length) 0) : start + size ≤ b.length := by
  by_contra hlt
  have hlen : (slice b start size).length = b.length - start := by
    simp only [slice, length_take, length_drop]
    omega
  have hat := congrArg (fun l : Bytes => l[b.length - start]?) heq
  rw [getElem?_append_right (by omega), hlen, Nat.sub_self, slice,
    getElem?_take_of_lt (by omega), getElem?_drop,
    getElem?_append_right (by omega), hones, getElem?_replicate,
    getElem?_replicate, if_pos (by omega), if_pos (by omega)] at hat
  cases hat

theorem found_of_passes (hcoll : t.NoCollision) (hdir : info.IsDir = true)
    (hi : i < info.CountPieces)
    (h : ∀ fs, Passes sha1 (overlayFS (t.base root) fs) root ⟨info, i⟩) :
    ∀ p ∈ t.touched i, t.Found root i p := by
  intro p hp
  have hread := fun fs => t.padded_of_passes hcoll hdir hi (h fs) p hp
  generalize hs : p.segment info (joinPath [root, info.name]) (i * t.k) (t.len i) = s at hread
  have hpath : s.path = checkPath info root p.file := by rw [← hs]; rfl
  have hstart : s.start = (p.start (i * t.k) : ℕ) := by rw [← hs]; rfl
  have hlength : s.length = (p.size (i * t.k) (t.len i) : ℕ) := by rw [← hs]; rfl
  -- the file is one that the writer makes, since it is there on the empty disk
  obtain ⟨b, hb⟩ : ∃ b, t.base root s.path = some b := by
    obtain ⟨c, hc, -⟩ := (hread fun _ => none).1.begins
    cases hbase : t.base root s.path with
    | none =>
      rw [overlayFS, hbase] at hc
      cases hc
    | some b => exact ⟨b, rfl⟩
  have hempty : overlayFS (t.base root) (fun _ => none) s.path = some b := by
    rw [overlayFS, hb]
    simp only [overlay, Option.getD_none, drop_nil, append_nil]
  have hzero := (hread fun _ => none).2
  rw [Segment.padded, Segment.bytes, hempty, Option.getD_some, hstart, hlength, toNat_natCast,
    toNat_natCast] at hzero
  refine ⟨b, hpath ▸ hb, fun hpos => ?_⟩
  have hle : p.start (i * t.k) + p.size (i * t.k) (t.len i) ≤ b.length := by
    -- compare with a disk that is full of ones
    obtain ⟨c, hc, hbegin⟩ := (hread fun _ => none).1.begins
    cases hempty.symm.trans hc
    have hlt := hbegin (by omega)
    have hones := (hread fun _ =>
      some (replicate (p.start (i * t.k) + p.size (i * t.k) (t.len i)) 1)).2
    have hfull : overlayFS (t.base root) (fun _ =>
        some (replicate (p.start (i * t.k) + p.size (i * t.k) (t.len i)) 1)) s.path =
        some (b ++ replicate (p.start (i * t.k) + p.size (i * t.k) (t.len i) - b.length) 1) := by
      rw [overlayFS, hb]
      simp only [overlay, Option.getD_some, drop_replicate]
    rw [Segment.padded, Segment.bytes, hfull, Option.getD_some, hstart, hlength, toNat_natCast,
      toNat_natCast, length_slice (by
        rw [length_append, length_replicate]; omega), Nat.sub_self, replicate_zero,
      append_nil] at hones
    exact le_length_of_padded (by omega) rfl (hones.trans hzero.symm)
  rw [length_slice hle, Nat.sub_self, replicate_zero, append_nil] at hzero
  exact ⟨hle, hzero⟩

/-! ## All pieces -/

variable (t root) in
structure Reaches : Prop where
  dir : info.IsDir = true
  alloc : min t.k t.data.length ≤ maxAlloc
  contents : ∀ p ∈ placed info.files t.cs 0, p.content ≠ [] →
    ∃ b, t.base root (checkPath info root p.file) = some b ∧ p.content <+: b
  /-- An empty file inside a piece is opened too. -/
  empties : ∀ p ∈ placed info.files t.cs 0, p.content = [] → ¬ t.k ∣ p.offset →
    p.offset < t.data.length → ∃ b, t.base root (checkPath info root p.file) = some b

theorem Reaches.found (h : t.Reaches root) : ∀ p ∈ t.touched i, t.Found root i p := by
  intro p hp
  rw [touched, mem_filter, decide_eq_true_eq] at hp
  obtain ⟨hmem, htouch⟩ := hp
  rcases eq_or_ne p.content [] with hempty | hc
  · -- an empty file that is touched is inside the piece
    rw [Placed.Touches, hempty, length_nil, add_zero, len] at htouch
    obtain ⟨b, hb⟩ := h.empties p hmem hempty (fun ⟨q, hq⟩ => by
      have h1 : i * t.k < q * t.k := by rw [mul_comm q]; omega
      have h2 : q * t.k < (i + 1) * t.k := by rw [mul_comm q, add_mul]; omega
      have := Nat.lt_of_mul_lt_mul_right h1
      have := Nat.lt_of_mul_lt_mul_right h2
      omega) (by omega)
    refine ⟨b, hb, fun hpos => ?_⟩
    have hle := Placed.start_add_size_le hpos
    rw [hempty, length_nil] at hle
    omega
  · obtain ⟨b, hb, rest, rfl⟩ := h.contents p hmem hc
    refine ⟨_, hb, fun hpos => ?_⟩
    have hle := Placed.start_add_size_le hpos
    exact ⟨by rw [length_append]; omega, by rw [slice_append_left hle, Placed.part]⟩

theorem reaches_of_found (hdir : info.IsDir = true) (hmax : min t.k t.data.length ≤ maxAlloc)
    (hfound : ∀ i < info.CountPieces, ∀ p ∈ t.touched i, t.Found root i p) : t.Reaches root := by
  -- the piece with the byte at a position
  have hat : ∀ p ∈ placed info.files t.cs 0, ∀ g < t.data.length,
      g / t.k * t.k < p.offset + p.content.length →
      p.offset < g / t.k * t.k + t.len (g / t.k) → t.Found root (g / t.k) p := by
    intro p hp g hg h1 h2
    have hlt : g / t.k * t.k < t.data.length := (Nat.div_mul_le_self g t.k).trans_lt hg
    refine hfound _ ?_ p ?_
    · rw [t.countPieces_eq]
      exact (lt_pieceCount t.k_pos).2 hlt
    · rw [touched, mem_filter, decide_eq_true_eq]
      exact ⟨hp, h1, h2⟩
  have hmod : ∀ g, g / t.k * t.k ≤ g ∧ g < g / t.k * t.k + t.k := by
    intro g
    have := Nat.div_add_mod' g t.k
    have := Nat.mod_lt g t.k_pos
    omega
  refine ⟨hdir, hmax, fun p hp hc => ?_, fun p hp hempty hdvd hlt => ?_⟩
  · have hend : p.offset + p.content.length ≤ t.data.length := by
      have := offset_add_le_of_mem hp
      rw [zero_add] at this
      exact this
    have hbyte : ∀ q < p.content.length, ∃ b,
        t.base root (checkPath info root p.file) = some b ∧ b[q]? = p.content[q]? := by
      intro q hq
      obtain ⟨hlo, hhi⟩ := hmod (p.offset + q)
      have hfit : (p.offset + q) / t.k * t.k + t.len ((p.offset + q) / t.k) ≤ t.data.length := by
        rw [len]; omega
      have hin : p.offset + q < (p.offset + q) / t.k * t.k + t.len ((p.offset + q) / t.k) := by
        rw [len]; omega
      obtain ⟨b, hb, hbytes⟩ := hat p hp (p.offset + q) (by omega) (by omega) (by omega)
      refine ⟨b, hb, ?_⟩
      generalize (p.offset + q) / t.k * t.k = off at *
      generalize t.len ((p.offset + q) / t.k) = len at *
      have hstart : p.start off ≤ q := by rw [Placed.start]; omega
      have hsize : q < p.start off + p.size off len := by
        rw [Placed.start, Placed.size]; omega
      have heq := congrArg (fun l : Bytes => l[q - p.start off]?) (hbytes (by omega)).2
      simp only [Placed.part, slice] at heq
      rw [getElem?_take_of_lt (by omega), getElem?_take_of_lt (by omega),
        getElem?_drop, getElem?_drop, Nat.add_sub_cancel' hstart] at heq
      exact heq
    obtain ⟨b, hb, -⟩ := hbyte 0 (length_pos_iff.2 hc)
    refine ⟨b, hb, prefix_iff_getElem?.2 fun q hq => ?_⟩
    obtain ⟨b', hb', heq⟩ := hbyte q hq
    cases hb.symm.trans hb'
    rw [heq, getElem?_eq_getElem hq]
  · obtain ⟨hlo, hhi⟩ := hmod p.offset
    have hne : p.offset / t.k * t.k ≠ p.offset := fun h => hdvd ⟨_, by rw [mul_comm]; exact h.symm⟩
    obtain ⟨b, hb, -⟩ := hat p hp p.offset hlt (by omega) (by rw [len]; omega)
    exact ⟨b, hb⟩

end Content

/-! ## The whole check -/

structure ReportedComplete (sha1 : Bytes → Hash) (fs : FS) (downloadDir : Bytes) (info : Info) :
    Prop where
  valid : ∀ i < info.CountPieces, verifyPiece sha1 fs downloadDir ⟨info, (i : ℕ)⟩ = .ok true
  seeding : ∀ torrent : TorrentState, (completeVerification (verifyPieces info fun i =>
      (verifyPiece sha1 fs downloadDir ⟨info, i⟩).toOption) torrent).Status = .Seeding

theorem verifyPieces_all {info verify} (h : ∀ i < info.CountPieces, verify i = some true) :
    (verifyPieces info verify).verifiedPieces = info.CountPieces ∧
      (verifyPieces info verify).info = info := by
  rw [verifyPieces]
  generalize info.CountPieces = n at h
  induction n with
  | zero => exact ⟨rfl, rfl⟩
  | succ n ih =>
    obtain ⟨hn, hinfo⟩ := ih fun i hi => h i (by omega)
    rw [range_succ, foldl_append, foldl_cons, foldl_nil, h n (by omega)]
    exact ⟨congrArg (· + 1) hn, hinfo⟩

theorem reportedComplete_iff {sha1 fs downloadDir info} :
    ReportedComplete sha1 fs downloadDir info ↔
      ∀ i < info.CountPieces, Passes sha1 fs downloadDir ⟨info, (i : ℕ)⟩ := by
  refine ⟨fun h i hi => verifyPiece_iff.1 (h.valid i hi), fun h => ?_⟩
  have hvalid : ∀ i < info.CountPieces,
      verifyPiece sha1 fs downloadDir ⟨info, (i : ℕ)⟩ = .ok true :=
    fun i hi => verifyPiece_iff.2 (h i hi)
  refine ⟨hvalid, fun torrent => ?_⟩
  have hsome : ∀ i < info.CountPieces,
      (verifyPiece sha1 fs downloadDir ⟨info, (i : ℕ)⟩).toOption = some true :=
    fun i hi => by rw [hvalid i hi]; rfl
  obtain ⟨hcount, hinfo⟩ := verifyPieces_all hsome
  rw [completeVerification]
  dsimp only
  rw [hcount, hinfo, if_pos rfl]

/-- **When what was written passes the verification.** -/
theorem written_reportedComplete_iff {sha1 : Bytes → Hash} {info : Info}
    (t : Content sha1 info) (downloadDir : Bytes) :
    (t.data = [] ∨ t.Reaches downloadDir → ∀ fs,
      ReportedComplete sha1 (WriteAt downloadDir info fs t.data 0).fs downloadDir info) ∧
    (t.NoCollision → (∀ fs,
      ReportedComplete sha1 (WriteAt downloadDir info fs t.data 0).fs downloadDir info) →
      t.data = [] ∨ t.Reaches downloadDir) := by
  have hfs : ∀ fs, (WriteAt downloadDir info fs t.data 0).fs =
      overlayFS (t.base downloadDir) fs := by
    intro fs
    rw [Content.data, writeAt_all t.sized t.fits]
    exact writeAll_eq _
  simp only [hfs, reportedComplete_iff]
  have hlen : ∀ i, t.len i ≤ min t.k t.data.length := fun i => by rw [Content.len]; omega
  constructor
  · rintro (hempty | hreach) fs i hi
    · have := t.mul_lt hi
      rw [hempty, length_nil] at this
      omega
    · exact t.passes_of_found hreach.dir hi ((hlen i).trans hreach.alloc) hreach.found fs
  · intro hcoll hall
    rcases eq_or_ne t.data [] with hempty | hne
    · exact .inl hempty
    have hzero : 0 < info.CountPieces := by
      rw [t.countPieces_eq]
      exact (lt_pieceCount t.k_pos).2 (by rw [Nat.zero_mul]; exact List.length_pos_iff.2 hne)
    have hfirst := hall (fun _ => none) 0 hzero
    have hdir := t.isDir_of_passes hzero hfirst
    have halloc : min t.k t.data.length ≤ maxAlloc := by
      have := hfirst.length_le
      rw [t.length_eq hzero, Content.len, Nat.zero_mul, Nat.sub_zero] at this
      omega
    exact .inr (Content.reaches_of_found hdir halloc fun i hi =>
      Content.found_of_passes hcoll hdir hi fun fs => hall fs i hi)

def oneByte (name : Bytes) : Info := ⟨name, 1, [sampleDigest [7]], 0, [⟨1, [utf8 "a"]⟩]⟩

theorem one_lt_int64 : 1 < 2 ^ 63 := by decide

def oneByteContent (name : Bytes) : Content sampleDigest (oneByte name) where
  cs := [[7]]
  k := 1
  k_pos := Nat.one_pos
  k_lt := one_lt_int64
  pieceLength := rfl
  sized := .cons rfl .nil
  pieces := rfl
  fits := one_lt_int64

theorem written_nameless :
    (oneByteContent []).NoCollision ∧ (oneByteContent []).Reaches (utf8 "d") ∧
      ∀ fs, ReportedComplete sampleDigest (WriteAt (utf8 "d") (oneByte []) fs [7] 0).fs (utf8 "d")
        (oneByte []) := by
  have hpath : Content.checkPath (oneByte []) (utf8 "d") ⟨1, [utf8 "a"]⟩ =
      File.PathWithPrefix ⟨1, [utf8 "a"]⟩ (utf8 "d") (oneByte []) := by decide +kernel
  have hreach : (oneByteContent []).Reaches (utf8 "d") := by
    refine ⟨rfl, by decide, fun p hp _ => ?_, fun p hp hempty => ?_⟩
    · obtain rfl := List.mem_singleton.1 hp
      refine ⟨[7], ?_, prefix_rfl⟩
      rw [hpath]
      rfl
    · obtain rfl := List.mem_singleton.1 hp
      cases hempty
  refine ⟨fun i hi b hlen heq => ?_, hreach,
    (written_reportedComplete_iff (oneByteContent []) (utf8 "d")).1 (.inr hreach)⟩
  obtain rfl : i = 0 := Nat.lt_one_iff.1 hi
  obtain ⟨x, rfl⟩ := List.length_eq_one_iff.1 hlen
  exact congrArg (fun h : Hash => h.bytes.take 1) heq

theorem written_missed : ¬ ReportedComplete sampleDigest
      (WriteAt (utf8 "d") (oneByte (utf8 "t")) (fun _ => none) (oneByteContent (utf8 "t")).data 0).fs
      (utf8 "d") (oneByte (utf8 "t")) := by
  intro h
  have hfails : (verifyPiece sampleDigest (WriteAt (utf8 "d") (oneByte (utf8 "t")) (fun _ => none)
      (oneByteContent (utf8 "t")).data 0).fs (utf8 "d") ⟨oneByte (utf8 "t"), 0⟩).toOption = none := by
    decide +kernel
  have hvalid := h.valid 0 (by decide)
  rw [Nat.cast_zero] at hvalid
  rw [hvalid] at hfails
  cases hfails

end GoI2pBt.Rpc
