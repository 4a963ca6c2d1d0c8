/-
  The hashes of the pieces of files.
-/
import GoI2pBt.Lib.Reader
import GoI2pBt.Lib.Segments
import GoI2pBt.Metainfo.Info

namespace GoI2pBt.Metainfo

open List

variable {ε : Type}

variable {opener : File → Except ε (Reader ε)} {content : File → Bytes}

/-! ## Copying -/

def CopyNBuffer (src : Reader ε) (n : ℤ) (k : ℕ) : List Bytes × ℤ × Option (ReadErr ε) × Reader ε :=
  let k := if k = 0 then 2048 else k
  let (ws, err, l) := copyBuffer k (src.size + 1) ⟨src, n⟩
  let written : ℤ := ws.flatten.length
  if written = n then (ws, n, none, l.r)
  else if written < n ∧ err.isNone then (ws, written, some .eof, l.r)
  else (ws, written, err.map .err, l.r)

/-! ## Hashing -/

def generateLoop (sha1 : Bytes → Hash) (pieceLength : ℤ) :
    ℕ → Reader ε → List Hash → Except ε (List Hash)
  | 0, _, hs => .ok hs
  | fuel + 1, r, hs =>
    let (ws, written, err, r) := CopyNBuffer r pieceLength pieceLength.toNat
    let hs := if written > 0 then hs ++ [NewHashFromBytes sha1 ws.flatten] else hs
    match err with
    | some .eof => .ok hs
    | some (.err e) => .error e
    | none => generateLoop sha1 pieceLength fuel r hs

/-- The hashes of the pieces, or `none` where `make([]byte, pieceLength)` panics. -/
def GeneratePieces (sha1 : Bytes → Hash) (r : Reader ε) (pieceLength : ℤ) :
    Option (Except ε (List Hash)) :=
  if pieceLength < 0 ∨ (maxAlloc : ℤ) < pieceLength then none
  else some (generateLoop sha1 pieceLength (r.data.length + 1) r [])

inductive PiecesErr (ε : Type) where
  | pieceLength
  | opening (file : File) (err : ε)
  | copying (file : File) (err : Option (ReadErr ε))

def writeFiles (opener : File → Except ε (Reader ε)) : List File → List Bytes × Option (PiecesErr ε)
  | [] => ([], none)
  | file :: files =>
    match opener file with
    | .error err => ([], some (.opening file err))
    | .ok r =>
      let (ws, n, err, _) := CopyNBuffer r file.length 8192
      if n ≠ file.length then (ws, some (.copying file err))
      else
        let (rest, err) := writeFiles opener files
        (ws ++ rest, err)

def GeneratePiecesFromFiles (sha1 : Bytes → Hash) (files : List File) (pieceLength : ℤ)
    (opener : File → Except ε (Reader ε)) : Option (Except (PiecesErr ε) (List Hash)) :=
  if pieceLength ≤ 0 then some (.error .pieceLength)
  else
    let (ws, err) := writeFiles opener files
    GeneratePieces sha1 ⟨ws, err⟩ pieceLength

/-! ## Pieces -/

structure Piece where
  info : Info
  index : ℤ

def Info.Piece (info : Info) (index : ℤ) : Option Piece :=
  if index ≥ info.pieces.length then none else some ⟨info, index⟩

def Piece.Length (p : Piece) : ℤ :=
  if p.index = p.info.CountPieces - 1 then
    wrap64 (p.info.TotalLength - wrap64 (p.index * p.info.pieceLength))
  else p.info.pieceLength

/-! ## What is copied -/

section Copy

variable {r : Reader ε} {n : ℕ} (k : ℕ)

theorem copyNBuffer_full (h : n ≤ r.data.length) :
    ∃ ws r', CopyNBuffer r n k = (ws, (n : ℤ), none, r') ∧ ws.flatten = r.data.take n ∧
      r'.data = r.data.drop n ∧ r'.final = r.final := by
  obtain ⟨ws, r', m, hcopy, hws, hr', hfin, -⟩ :=
    copyBuffer_spec (k := if k = 0 then 2048 else k) (by split_ifs <;> omega) (r.size + 1) n r
      (by omega)
  refine ⟨ws, r', ?_, hws, hr', hfin⟩
  have hlen : ((ws.flatten.length : ℕ) : ℤ) = n := by
    rw [hws, length_take, min_eq_left h]
  rw [CopyNBuffer]
  dsimp only
  rw [hcopy]
  dsimp only
  rw [if_pos hlen]

theorem copyNBuffer_end (h : r.data.length < n) (hfinal : r.final = none) :
    ∃ ws r', CopyNBuffer r n k = (ws, (r.data.length : ℤ), some .eof, r') ∧
      ws.flatten = r.data := by
  obtain ⟨ws, r', m, hcopy, hws, -⟩ :=
    copyBuffer_spec (k := if k = 0 then 2048 else k) (by split_ifs <;> omega) (r.size + 1) n r
      (by omega)
  rw [take_of_length_le h.le] at hws
  refine ⟨ws, r', ?_, hws⟩
  rw [CopyNBuffer]
  dsimp only
  rw [hcopy, hfinal]
  dsimp only
  rw [hws, if_neg (by omega), ite_self, if_pos ⟨by omega, rfl⟩]

end Copy

def Opens (opener : File → Except ε (Reader ε)) (content : File → Bytes) (file : File) : Prop :=
  file.length = ((content file).length : ℤ) ∧ ∃ r, opener file = .ok r ∧ r.data = content file

theorem writeFiles_spec {files} (h : ∀ file ∈ files, Opens opener content file) :
    ∃ ws, writeFiles opener files = (ws, none) ∧ ws.flatten = files.flatMap content := by
  induction files with
  | nil => exact ⟨[], rfl, rfl⟩
  | cons file files ih =>
    obtain ⟨hlen, r, hopen, hdata⟩ := h file mem_cons_self
    obtain ⟨ws, r', hcopy, hws, -⟩ := copyNBuffer_full (r := r) (n := (content file).length) 8192
      (by rw [hdata])
    obtain ⟨rest, hrest, hflat⟩ := ih fun f hf => h f (mem_cons_of_mem _ hf)
    refine ⟨ws ++ rest, ?_, ?_⟩
    · rw [writeFiles, hopen]
      dsimp only
      rw [hlen, hcopy]
      dsimp only
      rw [if_neg (not_not.2 rfl), hrest]
    · rw [flatten_append, hws, hdata, take_length, hflat, flatMap_cons]

/-! ## The hashes -/

def pieceCount (total k : ℕ) : ℕ := (total + k - 1) / k

def pieceHashes (sha1 : Bytes → Hash) (k : ℕ) (data : Bytes) : List Hash :=
  (range (pieceCount data.length k)).map fun i => sha1 (slice data (i * k) k)

theorem pieceHashes_nil {sha1 k} (hk : 0 < k) : pieceHashes sha1 k [] = [] := by
  have : pieceCount 0 k = 0 := Nat.div_eq_of_lt (by omega)
  rw [pieceHashes, length_nil, this]; rfl

theorem pieceCount_step {total k} (hk : 0 < k) (ht : 0 < total) :
    pieceCount total k = pieceCount (total - k) k + 1 := by
  rcases lt_or_ge total k with hlt | hge
  · have h0 : pieceCount (total - k) k = 0 := Nat.div_eq_of_lt (by omega)
    rw [h0, pieceCount, Nat.div_eq_iff hk]
    omega
  · rw [pieceCount, pieceCount, ← Nat.add_div_right _ hk]
    congr 1
    omega

theorem pieceHashes_step {sha1 k} (hk : 0 < k) {data} (hd : 0 < data.length) :
    pieceHashes sha1 k data = sha1 (data.take k) :: pieceHashes sha1 k (data.drop k) := by
  rw [pieceHashes, pieceCount_step hk hd, range_succ_eq_map, map_cons, map_map,
    pieceHashes, length_drop, zero_mul]
  congr 1
  refine map_congr_left fun i _ => ?_
  simp only [Function.comp_apply, slice, drop_drop]
  rw [Nat.succ_mul, add_comm]

theorem generateLoop_run (sha1 : Bytes → Hash) {k : ℕ} (hk : 0 < k) : ∀ (fuel : ℕ) {r : Reader ε}
    (hs : List Hash), r.data.length < fuel → r.final = none →
    generateLoop sha1 k fuel r hs = .ok (hs ++ pieceHashes sha1 k r.data)
  | 0, _, _, _, _ => by omega
  | fuel + 1, r, _, _, hfinal => by
    rw [generateLoop]
    dsimp only
    rcases lt_or_ge r.data.length k with hlt | hge
    · -- the last piece, or none
      obtain ⟨ws, r', hcopy, hws⟩ := copyNBuffer_end (k : ℤ).toNat hlt hfinal
      rw [hcopy]
      dsimp only
      rw [hws]
      rcases Nat.eq_zero_or_pos r.data.length with h0 | hpos
      · rw [h0, length_eq_zero_iff.1 h0, pieceHashes_nil hk, if_neg (by simp), append_nil]
      · rw [if_pos (by omega), pieceHashes_step hk hpos, take_of_length_le hlt.le,
          drop_eq_nil_of_le hlt.le, pieceHashes_nil hk]
        rfl
    · obtain ⟨ws, r', hcopy, hws, hr', hfin⟩ := copyNBuffer_full (k : ℤ).toNat hge
      have hlen : r'.data.length < fuel := by rw [hr', length_drop]; omega
      have hstep : pieceHashes sha1 k r.data = _ := pieceHashes_step hk (by omega)
      rw [hcopy]
      dsimp only
      rw [if_pos (by omega), generateLoop_run sha1 hk fuel _ hlen (hfin.trans hfinal), hws, hr',
        hstep, append_assoc]
      rfl

/-! ## Their lengths -/

theorem lt_pieceCount {i total k} (hk : 0 < k) : i < pieceCount total k ↔ i * k < total := by
  rw [pieceCount, ← Nat.add_one_le_iff, Nat.le_div_iff_mul_le hk, add_mul, one_mul]
  omega

theorem sum_min (total k n : ℕ) :
    ∑ i ∈ Finset.range n, min k (total - i * k) = min total (n * k) := by
  induction n with
  | zero => simp
  | succ n ih =>
    rw [Finset.sum_range_succ, ih, Nat.succ_mul]
    omega

theorem Piece.length_eq {info : Info} {total k : ℕ} (hk : 0 < k) (hmax : k < 2 ^ 63)
    (hcount : info.CountPieces = pieceCount total k) (hlen : info.pieceLength = k)
    (htotal : info.TotalLength = wrap64 total) {i : ℕ} (hi : i < pieceCount total k) :
    (Piece.mk info i).Length = (min k (total - i * k) : ℕ) := by
  have hlt : i * k < total := (lt_pieceCount hk).1 hi
  rw [Piece.Length]
  simp only [hcount, hlen, htotal]
  by_cases hlast : i + 1 < pieceCount total k
  · have hnext := (lt_pieceCount hk).1 hlast
    rw [add_mul, one_mul] at hnext
    rw [if_neg (by omega), min_eq_left (by omega)]
  · have hnext : ¬ (i + 1) * k < total := fun h => hlast ((lt_pieceCount hk).2 h)
    rw [add_mul, one_mul] at hnext
    have hsub : (total : ℤ) - (i : ℤ) * (k : ℤ) = ((total - i * k : ℕ) : ℤ) := by
      push_cast [Nat.cast_sub hlt.le]; ring
    rw [if_pos (by omega), wrap64_wrap64_sub, hsub, wrap64_natCast (by omega),
      min_eq_right (by omega)]

theorem sum_lengths {files : List File} (h : ∀ file ∈ files, Opens opener content file) :
    (files.map File.length).sum = ((files.flatMap content).length : ℤ) := by
  induction files with
  | nil => rfl
  | cons file files ih =>
    rw [map_cons, sum_cons, ih fun f hf => h f (mem_cons_of_mem _ hf),
      (h file mem_cons_self).1, flatMap_cons, length_append, Nat.cast_add]

/-- **Pieces of a list of files.** A piece length that fits into memory gives one hash for each piece
of the concatenated files, and an `Info` whose pieces have these lengths. -/
theorem generatePiecesFromFiles_spec (sha1 : Bytes → Hash) {files : List File} {k : ℕ}
    (hk : 0 < k) (hmax : k ≤ maxAlloc) {opener : File → Except ε (Reader ε)} {content : File → Bytes}
    (hopen : ∀ file ∈ files, Opens opener content file ∧ file.length < 2 ^ 63) :
    ∃ hs, GeneratePiecesFromFiles sha1 files k opener = some (.ok hs) ∧
      hs.length = pieceCount (files.flatMap content).length k ∧
      (∀ i < hs.length, hs[i]? = some (sha1 (slice (files.flatMap content) (i * k)
        (min ((i + 1) * k) (files.flatMap content).length - i * k)))) ∧
      ∀ info : Info, info.AllFiles = files → info.pieces = hs → info.pieceLength = k →
        (∀ i < hs.length, info.Piece i = some ⟨info, i⟩ ∧ 0 < (Piece.mk info i).Length ∧
          (Piece.mk info i).Length ≤ info.pieceLength) ∧
        ∑ i ∈ Finset.range hs.length, (Piece.mk info i).Length =
          ((files.flatMap content).length : ℤ) ∧
        info.TotalLength = wrap64 (∑ i ∈ Finset.range hs.length, (Piece.mk info i).Length) := by
  obtain ⟨ws, hwrite, hflat⟩ := writeFiles_spec fun f hf => (hopen f hf).1
  set data := files.flatMap content with hdata
  have hlen : (pieceHashes sha1 k data).length = pieceCount data.length k := by
    rw [pieceHashes, length_map, length_range]
  refine ⟨pieceHashes sha1 k data, ?_, hlen, fun i hi => ?_, fun info hfiles hpieces hpl => ?_⟩
  · rw [GeneratePiecesFromFiles, if_neg (by omega), hwrite]
    dsimp only
    rw [GeneratePieces, if_neg (by omega), generateLoop_run sha1 hk _ _ (by omega) rfl, nil_append,
      Reader.data, hflat]
  · rw [hlen] at hi
    have hlt := (lt_pieceCount hk).1 hi
    rw [pieceHashes, List.getElem?_map, List.getElem?_range hi, Option.map_some, slice, slice,
      Nat.add_mul, Nat.one_mul]
    congr 2
    rcases Nat.lt_or_ge data.length (i * k + k) with h | h
    · rw [Nat.min_eq_right h.le, take_of_length_le (by rw [length_drop]; omega),
        take_of_length_le (by rw [length_drop])]
    · rw [Nat.min_eq_left h, Nat.add_sub_cancel_left]
  · have hsum := sum_lengths fun f hf => (hopen f hf).1
    have htotal : info.TotalLength = wrap64 data.length := by
      rw [Info.totalLength_eq, hfiles, hsum]
      intro f hf
      rw [hfiles] at hf
      obtain ⟨⟨hl, -⟩, hlt⟩ := hopen f hf
      omega
    have hcount : info.CountPieces = pieceCount data.length k := by
      rw [Info.CountPieces, hpieces, hlen]
    have hpiece : ∀ i < pieceCount data.length k,
        (Piece.mk info i).Length = (min k (data.length - i * k) : ℕ) := fun i hi =>
      Piece.length_eq hk (hmax.trans_lt (by decide)) hcount hpl htotal hi
    have hall : ∑ i ∈ Finset.range (pieceCount data.length k), (Piece.mk info i).Length =
        (data.length : ℤ) := by
      rw [Finset.sum_congr rfl fun i hi => hpiece i (Finset.mem_range.1 hi), ← Nat.cast_sum,
        sum_min, Nat.min_eq_left]
      exact not_lt.1 fun h => lt_irrefl _ ((lt_pieceCount hk).2 h)
    rw [hlen]
    refine ⟨fun i hi => ⟨?_, ?_, ?_⟩, hall, by rw [hall, htotal]⟩
    · rw [Info.Piece, if_neg (by rw [hpieces, hlen]; omega)]
    · have := (lt_pieceCount hk).1 hi
      rw [hpiece i hi]; omega
    · rw [hpiece i hi, hpl]; omega

def sampleFiles : List File := [⟨2, [utf8 "a"]⟩, ⟨0, [utf8 "b"]⟩, ⟨3, [utf8 "c"]⟩]

def sampleContent (file : File) : Bytes :=
  if file.length = 2 then [1, 2] else if file.length = 3 then [3, 4, 5] else []

def sampleOpener (file : File) : Except String (Reader String) :=
  if file.length = 2 then .ok ⟨[[1, 2]], none⟩
  else if file.length = 3 then .ok ⟨[[3], [4, 5]], none⟩ else .ok ⟨[], none⟩

def sampleDigest (b : Bytes) : Hash :=
  ⟨(b ++ replicate HashSize 0).take HashSize, by simp [HashSize]⟩

theorem generatePiecesFromFiles_sample :
    ∃ hs, GeneratePiecesFromFiles sampleDigest sampleFiles 2 sampleOpener = some (.ok hs) ∧
      hs.length = 3 ∧ hs[1]? = some (sampleDigest [3, 4]) := by
  have hopen : ∀ file ∈ sampleFiles, Opens sampleOpener sampleContent file ∧ file.length < 2 ^ 63 := by
    intro file hfile
    simp only [sampleFiles, mem_cons, not_mem_nil, or_false] at hfile
    rcases hfile with rfl | rfl | rfl
    · exact ⟨⟨rfl, _, rfl, rfl⟩, by decide⟩
    · exact ⟨⟨rfl, _, rfl, rfl⟩, by decide⟩
    · exact ⟨⟨rfl, _, rfl, rfl⟩, by decide⟩
  obtain ⟨hs, hgen, hlen, hget, -⟩ :=
    generatePiecesFromFiles_spec sampleDigest (k := 2) (by decide) (by decide) hopen
  have hcount : hs.length = 3 := hlen
  exact ⟨hs, hgen, hcount, hget 1 (by omega)⟩

theorem generatePiecesFromFiles_huge :
    GeneratePiecesFromFiles sampleDigest sampleFiles (maxAlloc + 1) sampleOpener = none := rfl

end GoI2pBt.Metainfo
