/-
  The verification of a piece on disk.
-/
import GoI2pBt.Downloader.Torrent
import GoI2pBt.Metainfo.FilePieces
import GoI2pBt.Rpc.TorrentManager

namespace GoI2pBt.Metainfo

def Piece.Offset (p : Piece) : ℤ := wrap64 (p.index * p.info.pieceLength)

def Piece.Hash (p : Piece) : Option Hash :=
  if p.index < 0 then none else p.info.pieces[p.index.toNat]?

end GoI2pBt.Metainfo

namespace GoI2pBt.Rpc

open List Metainfo

/-! ## The code -/

inductive VerifyErr where
  | notExist
  | negativeOffset
  | eof
  | panic
deriving DecidableEq

def shouldSkipFile (currentOffset fileSize pieceOffset : ℤ) : Prop :=
  wrap64 (currentOffset + fileSize) ≤ pieceOffset

def isFileAfterPiece (currentOffset pieceOffset pieceLength : ℤ) : Prop :=
  currentOffset ≥ wrap64 (pieceOffset + pieceLength)

instance {a b c : ℤ} : Decidable (shouldSkipFile a b c) := inferInstanceAs (Decidable (_ ≤ _))

instance {a b c : ℤ} : Decidable (isFileAfterPiece a b c) := inferInstanceAs (Decidable (_ ≥ _))

def calculateReadParameters (currentOffset fileSize pieceOffset pieceLength : ℤ) : ℤ × ℤ :=
  let fileStartInPiece :=
    if currentOffset < pieceOffset then wrap64 (pieceOffset - currentOffset) else 0
  let readStart := wrap64 (currentOffset + fileStartInPiece)
  let readLength := wrap64 (fileSize - fileStartInPiece)
  let pieceEnd := wrap64 (pieceOffset + pieceLength)
  (fileStartInPiece,
    if wrap64 (readStart + readLength) > pieceEnd then wrap64 (pieceEnd - readStart)
    else readLength)

def readFileSegment (fs : FS) (filePath : Bytes) (offset length : ℤ) : Except VerifyErr Bytes :=
  match fs filePath with
  | none => .error .notExist
  | some c =>
    if offset < 0 then .error .negativeOffset
    else if length < 0 ∨ (maxAlloc : ℤ) < length then .error .panic
    else
      let data := slice c offset.toNat length.toNat
      if data = [] ∧ 0 < length then .error .eof else .ok data

def cutPiece (piecePos : ℤ) (pieceData : Bytes) : Except VerifyErr Bytes :=
  if 0 ≤ piecePos ∧ piecePos ≤ pieceData.length then .ok (pieceData.take piecePos.toNat)
  else .error .panic

def readPieceLoop (fs : FS) (info : Info) (torrentDir : Bytes) (pieceOffset pieceLength : ℤ) :
    List File → ℤ → ℤ → Bytes → Except VerifyErr Bytes
  | [], _, piecePos, pieceData => cutPiece piecePos pieceData
  | file :: files, currentOffset, piecePos, pieceData =>
    let filePath := joinPath [torrentDir, file.Path info]
    let fileSize := file.length
    if shouldSkipFile currentOffset fileSize pieceOffset then
      readPieceLoop fs info torrentDir pieceOffset pieceLength files
        (wrap64 (currentOffset + fileSize)) piecePos pieceData
    else if isFileAfterPiece currentOffset pieceOffset pieceLength then cutPiece piecePos pieceData
    else
      let (fileStartInPiece, readLength) :=
        calculateReadParameters currentOffset fileSize pieceOffset pieceLength
      match readFileSegment fs filePath fileStartInPiece readLength with
      | .error err => .error err
      | .ok fileData =>
        -- `copy(pieceData[piecePos:], fileData)`
        if 0 ≤ piecePos ∧ piecePos ≤ pieceData.length then
          readPieceLoop fs info torrentDir pieceOffset pieceLength files
            (wrap64 (currentOffset + fileSize)) (wrap64 (piecePos + readLength))
            (splice pieceData piecePos.toNat
              (fileData.take (pieceData.length - piecePos.toNat)))
        else .error .panic

def readPieceFromFiles (fs : FS) (piece : Piece) (torrentDir : Bytes) : Except VerifyErr Bytes :=
  if piece.Length < 0 ∨ (maxAlloc : ℤ) < piece.Length then .error .panic
  else
    readPieceLoop fs piece.info torrentDir piece.Offset piece.Length piece.info.files 0 0
      (replicate piece.Length.toNat 0)

def verifyPiece (sha1 : Bytes → Hash) (fs : FS) (downloadDir : Bytes) (piece : Piece) :
    Except VerifyErr Bool :=
  let torrentDir := joinPath [downloadDir, piece.info.name]
  match readPieceFromFiles fs piece torrentDir with
  | .error err => .error err
  | .ok pieceData =>
    if (pieceData.length : ℤ) ≠ piece.Length then .ok false
    else
      match piece.Hash with
      | none => .error .panic
      | some expectedHash => .ok (sha1 pieceData = expectedHash)

/-! ## Segments -/

structure Segment where
  path : Bytes
  start : ℤ
  length : ℤ
deriving DecidableEq

def fileSegment (info : Info) (torrentDir : Bytes) (pieceOffset pieceLength : ℤ) (file : File)
    (currentOffset : ℤ) : Segment :=
  let (start, length) :=
    calculateReadParameters currentOffset file.length pieceOffset pieceLength
  ⟨joinPath [torrentDir, file.Path info], start, length⟩

def segments (info : Info) (torrentDir : Bytes) (pieceOffset pieceLength : ℤ) :
    List File → ℤ → List Segment
  | [], _ => []
  | file :: files, currentOffset =>
    if shouldSkipFile currentOffset file.length pieceOffset then
      segments info torrentDir pieceOffset pieceLength files (wrap64 (currentOffset + file.length))
    else if isFileAfterPiece currentOffset pieceOffset pieceLength then []
    else
      fileSegment info torrentDir pieceOffset pieceLength file currentOffset ::
        segments info torrentDir pieceOffset pieceLength files
          (wrap64 (currentOffset + file.length))

def pieceSegments (downloadDir : Bytes) (piece : Piece) : List Segment :=
  segments piece.info (joinPath [downloadDir, piece.info.name]) piece.Offset piece.Length
    piece.info.files 0

namespace Segment

structure Readable (fs : FS) (s : Segment) : Prop where
  start_nonneg : 0 ≤ s.start
  length_nonneg : 0 ≤ s.length
  length_le : s.length ≤ maxAlloc
  begins : ∃ c, fs s.path = some c ∧ (0 < s.length → s.start < c.length)

def Complete (fs : FS) (s : Segment) : Prop :=
  ∃ c, fs s.path = some c ∧ (0 < s.length → s.start + s.length ≤ c.length)

def bytes (fs : FS) (s : Segment) : Bytes :=
  slice ((fs s.path).getD []) s.start.toNat s.length.toNat

def padded (fs : FS) (s : Segment) : Bytes :=
  s.bytes fs ++ replicate (s.length.toNat - (s.bytes fs).length) 0

variable {fs : FS} {s : Segment}

theorem length_bytes_le : (s.bytes fs).length ≤ s.length.toNat := by
  simp only [bytes, slice, length_take]
  omega

theorem length_padded : (s.padded fs).length = s.length.toNat := by
  have hle : (s.bytes fs).length ≤ s.length.toNat := length_bytes_le
  rw [padded, length_append, length_replicate]
  omega

theorem Complete.length_bytes (h : s.Complete fs) (hstart : 0 ≤ s.start) :
    (s.bytes fs).length = s.length.toNat := by
  obtain ⟨c, hc, hend⟩ := h
  simp only [bytes, hc, Option.getD_some]
  rcases lt_or_ge 0 s.length with hpos | hneg
  · exact length_slice (by have := hend hpos; omega)
  · rw [Int.toNat_of_nonpos hneg, slice_zero, length_nil]

theorem Complete.padded_eq (h : s.Complete fs) (hstart : 0 ≤ s.start) :
    s.padded fs = s.bytes fs := by
  rw [padded, h.length_bytes hstart, Nat.sub_self, replicate_zero, append_nil]

theorem readFileSegment_ok_iff {b} :
    readFileSegment fs s.path s.start s.length = .ok b ↔ s.Readable fs ∧ b = s.bytes fs := by
  rw [readFileSegment, bytes]
  cases hc : fs s.path with
  | none =>
    refine ⟨nofun, fun h => ?_⟩
    obtain ⟨c, hc', -⟩ := h.1.begins
    rw [hc] at hc'
    cases hc'
  | some c =>
    simp only [Option.getD_some]
    split_ifs with h1 h2 h3
    · refine ⟨nofun, fun h => absurd h.1.start_nonneg (by omega)⟩
    · refine ⟨nofun, fun h => absurd h2 ?_⟩
      have := h.1.length_nonneg
      have := h.1.length_le
      omega
    · refine ⟨nofun, fun h => ?_⟩
      obtain ⟨c', hc', hlt⟩ := h.1.begins
      cases hc.symm.trans hc'
      have hlen := congrArg List.length h3.1
      simp only [slice, List.length_take, List.length_drop, List.length_nil] at hlen
      have := hlt h3.2
      omega
    · have hread : s.Readable fs := by
        refine ⟨by omega, by omega, by omega, c, hc, fun hpos => ?_⟩
        by_contra hge
        refine h3 ⟨?_, hpos⟩
        rw [slice, List.drop_eq_nil_of_le (by omega), List.take_nil]
      simp only [Except.ok.injEq]
      exact ⟨fun h => ⟨hread, h.symm⟩, fun h => h.2.symm⟩

end Segment

/-! ## The loop -/

section Loop

variable {fs : FS} {info : Info} {torrentDir out : Bytes} {pieceOffset pieceLength : ℤ}

theorem readPieceLoop_read {file files currentOffset piecePos pieceData s}
    (hs : s = fileSegment info torrentDir pieceOffset pieceLength file currentOffset)
    (hskip : ¬ shouldSkipFile currentOffset file.length pieceOffset)
    (hafter : ¬ isFileAfterPiece currentOffset pieceOffset pieceLength) :
    readPieceLoop fs info torrentDir pieceOffset pieceLength (file :: files) currentOffset piecePos
        pieceData = .ok out ↔
      s.Readable fs ∧ 0 ≤ piecePos ∧ piecePos ≤ pieceData.length ∧
      readPieceLoop fs info torrentDir pieceOffset pieceLength files
        (wrap64 (currentOffset + file.length)) (wrap64 (piecePos + s.length))
        (splice pieceData piecePos.toNat
          ((s.bytes fs).take (pieceData.length - piecePos.toNat))) = .ok out := by
  have hread : ∀ b, readFileSegment fs s.path s.start s.length = .ok b ↔ _ :=
    fun b => Segment.readFileSegment_ok_iff
  rw [readPieceLoop]
  dsimp only
  rw [if_neg hskip, if_neg hafter]
  subst hs
  rw [fileSegment] at hread ⊢
  dsimp only at hread ⊢
  cases hseg : readFileSegment fs _ _ _ with
  | error err =>
    refine ⟨nofun, fun h => ?_⟩
    have hok := (hread _).2 ⟨h.1, rfl⟩
    rw [hseg] at hok
    cases hok
  | ok fileData =>
    obtain ⟨hr, rfl⟩ := (hread _).1 hseg
    dsimp only
    split_ifs with hpos
    · exact ⟨fun h => ⟨hr, hpos.1, hpos.2, h⟩, fun h => h.2.2.2⟩
    · exact ⟨nofun, fun h => absurd ⟨h.2.1, h.2.2.1⟩ hpos⟩

theorem readPieceLoop_overrun {piecePos pieceData}
    (hpos : (pieceData.length : ℤ) < piecePos) : ∀ (files : List File) (currentOffset : ℤ),
    readPieceLoop fs info torrentDir pieceOffset pieceLength files currentOffset piecePos
      pieceData ≠ .ok out
  | [], _ => by
    rw [readPieceLoop, cutPiece, if_neg (by omega)]
    nofun
  | file :: files, currentOffset => by
    have ih := readPieceLoop_overrun hpos files (wrap64 (currentOffset + file.length))
    by_cases hskip : shouldSkipFile currentOffset file.length pieceOffset
    · rw [readPieceLoop, if_pos hskip]
      exact ih
    by_cases hafter : isFileAfterPiece currentOffset pieceOffset pieceLength
    · rw [readPieceLoop, if_neg hskip, if_pos hafter, cutPiece, if_neg (by omega)]
      nofun
    intro h
    have hle := ((readPieceLoop_read rfl hskip hafter).1 h).2.2.1
    omega

theorem splice_zeros {done b : Bytes} {m : ℕ} :
    splice (done ++ replicate m 0) done.length (b.take m) =
      done ++ b.take m ++ replicate (m - b.length) 0 := by
  have h : splice (done ++ replicate m 0) (done.length + 0) (b.take m) =
      done ++ splice (replicate m 0) 0 (b.take m) := splice_append_right
  rw [add_zero] at h
  rw [h, splice, take_zero, nil_append, zero_add, drop_replicate, length_take, ← append_assoc]
  congr 2
  omega

theorem splice_padded {done : Bytes} {m : ℕ} {s : Segment} (hfit : s.length.toNat ≤ m) :
    splice (done ++ replicate m 0) done.length ((s.bytes fs).take m) =
      done ++ s.padded fs ++ replicate (m - s.length.toNat) 0 := by
  have hle : (s.bytes fs).length ≤ s.length.toNat := Segment.length_bytes_le
  rw [splice_zeros, take_of_length_le (hle.trans hfit), Segment.padded, append_assoc,
    append_assoc, append_assoc, replicate_append_replicate]
  congr 4
  omega

theorem readPieceLoop_ok_iff : ∀ (files : List File) (currentOffset : ℤ) (done : Bytes) (m : ℕ),
    done.length + m ≤ maxAlloc →
    (readPieceLoop fs info torrentDir pieceOffset pieceLength files currentOffset done.length
        (done ++ replicate m 0) = .ok out ↔
      (∀ s ∈ segments info torrentDir pieceOffset pieceLength files currentOffset, s.Readable fs) ∧
      ((segments info torrentDir pieceOffset pieceLength files currentOffset).flatMap
        (·.padded fs)).length ≤ m ∧
      out = done ++ (segments info torrentDir pieceOffset pieceLength files currentOffset).flatMap
        (·.padded fs)) := by
  have hcut : ∀ (done : Bytes) (m : ℕ),
      cutPiece done.length (done ++ replicate m 0) = .ok out ↔ out = done := by
    intro done m
    have hle : (0 : ℤ) ≤ done.length ∧
        (done.length : ℤ) ≤ (done ++ replicate m (0 : UInt8)).length := by
      rw [length_append]; omega
    rw [cutPiece, if_pos hle, Int.toNat_natCast, take_left, Except.ok.injEq]
    exact eq_comm
  intro files
  induction files with
  | nil =>
    intro currentOffset done m _
    rw [readPieceLoop, segments, hcut]
    simp
  | cons file files ih =>
    intro currentOffset done m hmax
    by_cases hskip : shouldSkipFile currentOffset file.length pieceOffset
    · rw [readPieceLoop, if_pos hskip, segments, if_pos hskip]
      exact ih _ done m hmax
    by_cases hafter : isFileAfterPiece currentOffset pieceOffset pieceLength
    · rw [readPieceLoop, if_neg hskip, if_pos hafter, segments, if_neg hskip, if_pos hafter, hcut]
      simp
    rw [readPieceLoop_read rfl hskip hafter, segments, if_neg hskip, if_neg hafter]
    generalize fileSegment info torrentDir pieceOffset pieceLength file currentOffset = s
    have hlen : (done ++ replicate m (0 : UInt8)).length = done.length + m := by
      rw [length_append, length_replicate]
    have hroom : done.length + m - done.length = m := by omega
    rw [hlen, Int.toNat_natCast, hroom, forall_mem_cons, flatMap_cons,
      length_append, Segment.length_padded, ← append_assoc, and_assoc]
    refine and_congr_right fun hs => ?_
    have hs0 := hs.length_nonneg
    have hs1 := hs.length_le
    have hnowrap : wrap64 ((done.length : ℤ) + s.length) = done.length + s.length := by
      refine wrap64_of_range ?_ ?_ <;> unfold maxAlloc at * <;> omega
    rw [hnowrap]
    by_cases hfit : s.length.toNat ≤ m
    · -- the segment fits
      have hpos : (done.length : ℤ) + s.length = (done ++ s.padded fs).length := by
        rw [length_append, Segment.length_padded]; omega
      have hroom' : (done ++ s.padded fs).length + (m - s.length.toNat) ≤ maxAlloc := by
        rw [length_append, Segment.length_padded]; omega
      rw [splice_padded hfit, hpos, ih _ _ _ hroom']
      refine ⟨fun h => ⟨h.2.2.1, by have := h.2.2.2.1; omega, h.2.2.2.2⟩, fun h => ?_⟩
      exact ⟨by omega, by omega, h.1, by have := h.2.1; omega, h.2.2⟩
    · -- it does not, and the next step or the end finds out
      refine ⟨fun h => absurd h.2.2 (readPieceLoop_overrun ?_ _ _), fun h => ?_⟩
      · rw [splice_zeros]
        simp only [length_append, length_take, length_replicate]
        omega
      · have := h.2.1
        omega

end Loop

/-! ## Pieces -/

section Piece

variable {sha1 : Bytes → Hash} {fs : FS} {downloadDir : Bytes} {piece : Piece}

structure Passes (sha1 : Bytes → Hash) (fs : FS) (downloadDir : Bytes) (piece : Piece) : Prop where
  length_le : piece.Length ≤ maxAlloc
  readable : ∀ s ∈ pieceSegments downloadDir piece, s.Readable fs
  fills : (((pieceSegments downloadDir piece).flatMap (·.padded fs)).length : ℤ) = piece.Length
  hash : piece.Hash = some (sha1 ((pieceSegments downloadDir piece).flatMap (·.padded fs)))

theorem verifyPiece_iff :
    verifyPiece sha1 fs downloadDir piece = .ok true ↔ Passes sha1 fs downloadDir piece := by
  rw [verifyPiece]
  have hread : ∀ out, readPieceFromFiles fs piece (joinPath [downloadDir, piece.info.name]) =
      .ok out ↔ 0 ≤ piece.Length ∧ piece.Length ≤ maxAlloc ∧
        (∀ s ∈ pieceSegments downloadDir piece, s.Readable fs) ∧
        ((pieceSegments downloadDir piece).flatMap (·.padded fs)).length ≤ piece.Length.toNat ∧
        out = (pieceSegments downloadDir piece).flatMap (·.padded fs) := by
    intro out
    rw [readPieceFromFiles]
    split_ifs with hlen
    · exact ⟨nofun, fun h => absurd hlen (by have := h.1; have := h.2.1; omega)⟩
    · have hloop : readPieceLoop fs piece.info (joinPath [downloadDir, piece.info.name])
          piece.Offset piece.Length piece.info.files 0 ([] : Bytes).length
          ([] ++ replicate piece.Length.toNat 0) = .ok out ↔ _ :=
        readPieceLoop_ok_iff piece.info.files 0 [] piece.Length.toNat
          (by rw [length_nil]; omega)
      rw [nil_append, nil_append] at hloop
      refine hloop.trans ⟨fun h => ⟨by omega, by omega, h⟩, fun h => h.2.2⟩
  cases hdata : readPieceFromFiles fs piece _ with
  | error err =>
    refine ⟨nofun, fun h => ?_⟩
    have hfills := h.fills
    have hok := (hread _).2 ⟨by omega, h.length_le, h.readable, by omega, rfl⟩
    rw [hdata] at hok
    cases hok
  | ok pieceData =>
    obtain ⟨h0, hmax, hr, hfit, rfl⟩ := (hread _).1 hdata
    dsimp only
    split_ifs with hlen
    · exact ⟨nofun, fun h => absurd h.fills hlen⟩
    · rw [not_not] at hlen
      cases hhash : piece.Hash with
      | none => exact ⟨nofun, fun h => absurd h.hash (by rw [hhash]; nofun)⟩
      | some expected =>
        simp only [Except.ok.injEq, decide_eq_true_eq]
        refine ⟨fun h => ⟨hmax, hr, hlen, by rw [hhash, h]⟩, fun h => ?_⟩
        exact Option.some.inj (h.hash.symm.trans hhash)

structure Present (sha1 : Bytes → Hash) (fs : FS) (downloadDir : Bytes) (piece : Piece) : Prop where
  complete : ∀ s ∈ pieceSegments downloadDir piece, s.Complete fs
  fills : (((pieceSegments downloadDir piece).flatMap (·.bytes fs)).length : ℤ) = piece.Length
  hash : piece.Hash = some (sha1 ((pieceSegments downloadDir piece).flatMap (·.bytes fs)))

structure PassesByZeros (sha1 : Bytes → Hash) (fs : FS) (downloadDir : Bytes) (piece : Piece) :
    Prop extends Passes sha1 fs downloadDir piece where
  truncated : ∃ s ∈ pieceSegments downloadDir piece, ∃ c, fs s.path = some c ∧
    s.start < c.length ∧ (c.length : ℤ) < s.start + s.length

end Piece

def zeroTail (sha1 : Bytes → Hash) : Info :=
  ⟨utf8 "t", 2, [sha1 [7, 0]], 0, [⟨2, [utf8 "a"]⟩]⟩

def halfFile : FS := fun path => if path = utf8 "d/t/t/a" then some [7] else none

end GoI2pBt.Rpc
