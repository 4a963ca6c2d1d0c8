/-
  When the blocks of a file tile it.
-/
import GoI2pBt.Metainfo.MetaInfo
import GoI2pBt.Metainfo.Offsets

namespace GoI2pBt.Metainfo

open List

def Tiles {α : Type} (start len : α → ℤ) : List α → ℤ → ℤ → Prop
  | [], lo, hi => lo = hi
  | a :: l, lo, hi => start a = lo ∧ Tiles start len l (lo + len a) hi

structure PieceBlock where
  index : UInt32
  offset : UInt32
  length : UInt32
deriving DecidableEq

structure FilePiece where
  index : UInt32
  offset : UInt32
  length : UInt32
deriving DecidableEq

/-! ## Blocks -/

def blockSize : UInt32 := 16384

def blocksLoop (index : UInt32) : ℕ → UInt32 → UInt32 → List PieceBlock
  | 0, _, _ => []
  | fuel + 1, offset, rest =>
    if 0 < rest then
      let length := if rest < blockSize then rest else blockSize
      ⟨index, offset, length⟩ :: blocksLoop index fuel (offset + length) (rest - length)
    else []

def FilePiece.Blocks (fp : FilePiece) : List PieceBlock :=
  blocksLoop fp.index (fp.length.toNat / 16384 + 1) fp.offset fp.length

def PieceBlock.lo (b : PieceBlock) : ℤ := b.offset.toNat

def PieceBlock.len (b : PieceBlock) : ℤ := b.length.toNat

structure BlocksTile (index : UInt32) (bs : List PieceBlock) (lo hi : ℤ) : Prop where
  tiles : Tiles PieceBlock.lo PieceBlock.len bs lo hi
  index_eq : ∀ b ∈ bs, b.index = index
  size : ∀ b ∈ bs, 1 ≤ b.len ∧ b.len ≤ 16384
  full : ∀ b ∈ bs.dropLast, b.len = 16384

theorem BlocksTile.cons {index b bs lo hi}
    (hne : bs ≠ []) (hindex : b.index = index) (hfull : b.len = 16384) :
    BlocksTile index (b :: bs) lo hi ↔ b.lo = lo ∧ BlocksTile index bs (lo + 16384) hi := by
  constructor
  · rintro ⟨⟨hlo, htiles⟩, hidx, hsize, hdrop⟩
    rw [dropLast_cons_of_ne_nil hne] at hdrop
    rw [hfull] at htiles
    exact ⟨hlo, htiles, fun b hb => hidx b (mem_cons_of_mem _ hb),
      fun b hb => hsize b (mem_cons_of_mem _ hb),
      fun b hb => hdrop b (mem_cons_of_mem _ hb)⟩
  · rintro ⟨hlo, htiles, hidx, hsize, hdrop⟩
    refine ⟨⟨hlo, by rw [hfull]; exact htiles⟩, ?_, ?_, ?_⟩
    · exact forall_mem_cons.2 ⟨hindex, hidx⟩
    · exact forall_mem_cons.2 ⟨by omega, hsize⟩
    · rw [dropLast_cons_of_ne_nil hne]
      exact forall_mem_cons.2 ⟨hfull, hdrop⟩

section Loop

variable {index offset rest : UInt32} {fuel : ℕ}

theorem toNat_blockSize : blockSize.toNat = 16384 := rfl

theorem blocksLoop_zero : blocksLoop index fuel offset 0 = [] := by
  cases fuel with
  | zero => rfl
  | succ fuel => rw [blocksLoop, if_neg (by decide)]

theorem blocksLoop_last (hpos : 0 < rest.toNat) (hlast : rest.toNat ≤ 16384) :
    blocksLoop index (fuel + 1) offset rest = [⟨index, offset, rest⟩] := by
  have hlen : (if rest < blockSize then rest else blockSize) = rest := by
    split_ifs with hlt
    · rfl
    · rw [UInt32.lt_iff_toNat_lt, toNat_blockSize] at hlt
      exact UInt32.toNat_inj.1 (by rw [toNat_blockSize]; omega)
  have hrest : 0 < rest := UInt32.lt_iff_toNat_lt.2 (by simpa using hpos)
  rw [blocksLoop, if_pos hrest]
  simp only [hlen, UInt32.sub_self, blocksLoop_zero]

theorem blocksLoop_full (hrest : 16384 < rest.toNat) : blocksLoop index (fuel + 1) offset rest =
    ⟨index, offset, blockSize⟩ :: blocksLoop index fuel (offset + blockSize) (rest - blockSize) := by
  have hpos : 0 < rest := UInt32.lt_iff_toNat_lt.2 (by simp; omega)
  have hlen : (if rest < blockSize then rest else blockSize) = blockSize := by
    rw [if_neg]
    rw [UInt32.lt_iff_toNat_lt, toNat_blockSize]
    omega
  rw [blocksLoop, if_pos hpos]
  simp only [hlen]

theorem exists_blocksLoop (hpos : 0 < rest.toNat) :
    ∃ b bs, blocksLoop index (fuel + 1) offset rest = b :: bs ∧ b.lo = offset.toNat := by
  rcases lt_or_ge 16384 rest.toNat with h | h
  · exact ⟨_, _, blocksLoop_full h, rfl⟩
  · exact ⟨_, _, blocksLoop_last hpos h, rfl⟩

end Loop

theorem blocksLoop_iff (index : UInt32) : ∀ (fuel : ℕ) (offset rest : UInt32),
    rest.toNat / 16384 < fuel →
    (BlocksTile index (blocksLoop index fuel offset rest) offset.toNat
        (offset.toNat + rest.toNat) ↔
      offset.toNat + (rest.toNat - 1) / 16384 * 16384 < 2 ^ 32)
  | 0, _, _, h => by omega
  | fuel + 1, offset, rest, h => by
    have hoff := offset.toNat_lt
    rcases Nat.eq_zero_or_pos rest.toNat with h0 | hpos
    · have hrest : rest = 0 := UInt32.toNat_inj.1 h0
      rw [h0, hrest, blocksLoop_zero]
      refine ⟨fun _ => by omega, fun _ => ⟨by simp [Tiles], ?_, ?_, ?_⟩⟩ <;> simp
    by_cases hlast : rest.toNat ≤ 16384
    · rw [blocksLoop_last hpos hlast]
      refine ⟨fun _ => by omega, fun _ => ⟨⟨rfl, rfl⟩, ?_, ?_, ?_⟩⟩
      · simp
      · simp only [mem_singleton, forall_eq, PieceBlock.len]
        omega
      · simp
    · have hsub : (rest - blockSize).toNat = rest.toNat - 16384 := by
        have hle : blockSize ≤ rest := UInt32.le_iff_toNat_le.2 (by rw [toNat_blockSize]; omega)
        rw [UInt32.toNat_sub_of_le _ _ hle, toNat_blockSize]
      have hadd : (offset + blockSize).toNat = (offset.toNat + 16384) % 2 ^ 32 := by
        rw [UInt32.toNat_add, toNat_blockSize]
      obtain ⟨k, rfl⟩ : ∃ k, fuel = k + 1 := Nat.exists_eq_succ_of_ne_zero (by omega)
      obtain ⟨b, bs, hbs, hb⟩ : ∃ b bs, blocksLoop index (k + 1) (offset + blockSize)
          (rest - blockSize) = b :: bs ∧ b.lo = _ := exists_blocksLoop (by omega)
      have ih := blocksLoop_iff index (k + 1) (offset + blockSize) (rest - blockSize) (by omega)
      rw [hadd, hsub, hbs] at ih
      have hfull : (PieceBlock.mk index offset blockSize).len = 16384 := rfl
      rw [blocksLoop_full (by omega), hbs, BlocksTile.cons (cons_ne_nil b bs) rfl hfull]
      by_cases hfit : offset.toNat + 16384 < 2 ^ 32
      · have hhi : ((offset.toNat + 16384 : ℕ) : ℤ) + ((rest.toNat - 16384 : ℕ) : ℤ) =
            offset.toNat + rest.toNat := by omega
        rw [Nat.mod_eq_of_lt hfit, hhi] at ih
        push_cast at ih
        have hlo : (PieceBlock.mk index offset blockSize).lo = offset.toNat := rfl
        rw [ih]
        omega
      · -- the next block would start at 2^32 or above
        refine ⟨fun ⟨_, htiles⟩ => ?_, fun hlt => by omega⟩
        have hlo : b.lo = offset.toNat + 16384 := htiles.tiles.1
        omega

/-! ## The pieces of a file -/

def offsetLoop (info : Info) (path : Bytes) : List File → ℤ → Option ℤ
  | [], _ => none
  | file :: files, ret =>
    if path = file.Path info then some ret
    else offsetLoop info path files (wrap64 (ret + file.length))

def File.Offset (f : File) (info : Info) : Option ℤ := offsetLoop info (f.Path info) info.AllFiles 0

def File.FilePieces (f : File) (info : Info) : Option (List FilePiece) :=
  if f.length < 1 then some []
  else
    match f.Offset info with
    | none => none
    | some startOffset =>
      if info.pieceLength = 0 then none
      else
        let startPieceIndex := wrap64 (startOffset.tdiv info.pieceLength)
        let startPieceOffset := startOffset.tmod info.pieceLength
        let endOffset := wrap64 (startOffset + f.length)
        let endPieceIndex := wrap64 (endOffset.tdiv info.pieceLength)
        let endPieceOffset := endOffset.tmod info.pieceLength
        if startPieceIndex = endPieceIndex then
          some [⟨.ofInt startPieceIndex, .ofInt startPieceOffset,
            .ofInt (endPieceOffset - startPieceOffset)⟩]
        else
          let n := wrap64 (endPieceIndex - startPieceIndex + 1)
          if n < 0 ∨ 12 * n > 2 ^ 48 then none
          else
            let middle := (range (endPieceIndex - (startPieceIndex + 1)).toNat).map fun k =>
              ⟨.ofInt (startPieceIndex + 1 + k), 0, .ofInt info.pieceLength⟩
            some (⟨.ofInt startPieceIndex, .ofInt startPieceOffset,
                .ofInt (info.pieceLength - startPieceOffset)⟩ ::
              (middle ++ [⟨.ofInt endPieceIndex, 0, .ofInt endPieceOffset⟩]))

def FilePiece.lo (pieceLength : ℤ) (fp : FilePiece) : ℤ :=
  fp.index.toNat * pieceLength + fp.offset.toNat

def FilePiece.len (fp : FilePiece) : ℤ := fp.length.toNat

structure FilePiece.Proper (info : Info) (fp : FilePiece) : Prop where
  pos : 0 < fp.len
  index_lt : (fp.index.toNat : ℤ) < (info.TotalLength + info.pieceLength - 1) / info.pieceLength
  inside : fp.offset.toNat + fp.len ≤ info.pieceLength
  blocks : BlocksTile fp.index fp.Blocks fp.offset.toNat (fp.offset.toNat + fp.len)

def TilesFile (info : Info) (f : File) (s : ℤ) : Prop := ∃ fps, f.FilePieces info = some fps ∧
    Tiles (FilePiece.lo info.pieceLength) FilePiece.len fps s (max s (s + f.length)) ∧
    ∀ fp ∈ fps, fp.Proper info

structure Fits (total k s l : ℤ) : Prop where
  nonneg : 0 ≤ s
  int64 : s + l < 2 ^ 63
  boundary : (s + l) % k ≠ 0
  last : (s + l) / k * k < total
  index : (s + l) / k < 2 ^ 32
  only : s / k = (s + l) / k → l < 2 ^ 32 ∧ s % k + (l - 1) / 16384 * 16384 < 2 ^ 32
  first : s / k < (s + l) / k →
    k - s % k < 2 ^ 32 ∧ s % k + (k - s % k - 1) / 16384 * 16384 < 2 ^ 32 ∧ (s + l) % k < 2 ^ 32
  middle : s / k + 1 < (s + l) / k → k < 2 ^ 32

/-! ## Ranges of 32 bits -/

theorem toNat_ofInt (x : ℤ) : ((UInt32.ofInt x).toNat : ℤ) = x % 2 ^ 32 := by
  have hmod : (x % 2 ^ 32).toNat % 2 ^ 32 = (x % 2 ^ 32).toNat := Nat.mod_eq_of_lt (by omega)
  rw [UInt32.ofInt, UInt32.toNat_ofNat', hmod]
  omega

open FilePiece

theorem FilePiece.proper_iff {info k} (hinfo : info.pieceLength = k) (hk : 0 < k)
    (fp : FilePiece) : fp.Proper info ↔
      0 < fp.len ∧ fp.index.toNat * k < info.TotalLength ∧ fp.offset.toNat + fp.len ≤ k ∧
      fp.offset.toNat + (fp.len - 1) / 16384 * 16384 < 2 ^ 32 := by
  subst hinfo
  have hindex : (fp.index.toNat : ℤ) < (info.TotalLength + info.pieceLength - 1) / info.pieceLength ↔
      fp.index.toNat * info.pieceLength < info.TotalLength := by
    rw [← Int.add_one_le_iff, Int.le_ediv_iff_mul_le hk, add_mul, one_mul]
    omega
  have hblocks : 0 < fp.len → (BlocksTile fp.index fp.Blocks fp.offset.toNat
      (fp.offset.toNat + fp.len) ↔ fp.offset.toNat + (fp.len - 1) / 16384 * 16384 < 2 ^ 32) := by
    intro hpos
    have h := blocksLoop_iff fp.index (fp.length.toNat / 16384 + 1) fp.offset fp.length (by omega)
    rw [len] at hpos ⊢
    rw [Blocks, h]
    omega
  constructor
  · rintro ⟨hpos, hidx, hin, hb⟩
    exact ⟨hpos, hindex.1 hidx, hin, (hblocks hpos).1 hb⟩
  · rintro ⟨hpos, hidx, hin, hb⟩
    exact ⟨hpos, hindex.2 hidx, hin, (hblocks hpos).2 hb⟩

theorem eq_of_mul_lt {i u k : ℤ} (hk : 0 < k) (hlo : (i - 1) * k < u * k) (hhi : u * k ≤ i * k) :
    u = i := by
  have h1 := lt_of_mul_lt_mul_right hlo hk.le
  have h2 := le_of_mul_le_mul_right hhi hk
  omega

theorem division {s k : ℤ} (h0 : 0 ≤ s) (hk : 0 < k) :
    s / k * k + s % k = s ∧ (0 ≤ s / k ∧ s / k ≤ s) ∧ 0 ≤ s % k ∧ s % k < k :=
  ⟨Int.ediv_mul_add_emod s k, ⟨Int.ediv_nonneg h0 hk.le, Int.ediv_le_self k h0⟩,
    Int.emod_nonneg s hk.ne', Int.emod_lt_of_pos s hk⟩

theorem neighbours (q k : ℤ) :
    (q - 1) * k = q * k - k ∧ (q + 1 - 1) * k = q * k ∧ (q + 1) * k = q * k + k :=
  ⟨by ring, by ring, by ring⟩

/-- The index of a piece that starts at `s` has not been cut to 32 bits. -/
theorem index_exact {s k : ℤ} (h0 : 0 ≤ s) (hk : 0 < k)
    (h : s / k % 2 ^ 32 * k + s % k % 2 ^ 32 = s) : s / k % 2 ^ 32 = s / k := by
  obtain ⟨hsum, ⟨hq0, -⟩, hr0, -⟩ := division h0 hk
  have hle : s / k % 2 ^ 32 ≤ s / k := by omega
  have hmul := mul_le_mul_of_nonneg_right hle hk.le
  refine eq_of_mul_lt hk ?_ hmul
  rw [(neighbours _ _).1]
  omega

/-! ## The pieces behind the first one -/

def tailPieces (k i q r : ℤ) : List FilePiece :=
  (range (q - i).toNat).map (fun j => ⟨.ofInt (i + j), 0, .ofInt k⟩) ++ [⟨.ofInt q, 0, .ofInt r⟩]

theorem tailPieces_self (k q r : ℤ) : tailPieces k q q r = [⟨.ofInt q, 0, .ofInt r⟩] := by
  rw [tailPieces, sub_self]; rfl

theorem tailPieces_of_lt {k i q r} (h : i < q) :
    tailPieces k i q r = ⟨.ofInt i, 0, .ofInt k⟩ :: tailPieces k (i + 1) q r := by
  have hn : (q - i).toNat = (q - (i + 1)).toNat + 1 := by omega
  rw [tailPieces, hn, range_succ_eq_map, map_cons, cons_append, map_map, tailPieces]
  simp only [Nat.cast_zero, add_zero]
  congr 2
  refine map_congr_left fun j _ => ?_
  simp only [Function.comp_apply, Nat.succ_eq_add_one, Nat.cast_add, Nat.cast_one]
  congr 2
  ring

theorem tiles_tailPieces {info : Info} {k q r : ℤ} (hinfo : info.pieceLength = k) (hk : 0 < k)
    (hr : 0 ≤ r) (hrk : r < k) : ∀ (n : ℕ) {i a : ℤ}, q - i = n → 0 ≤ i → (i - 1) * k < a →
    a ≤ i * k →
    (Tiles (lo k) len (tailPieces k i q r) a (q * k + r) ∧
        (∀ fp ∈ tailPieces k i q r, fp.Proper info) ↔
      a = i * k ∧ 0 < r ∧ r < 2 ^ 32 ∧ q < 2 ^ 32 ∧ q * k < info.TotalLength ∧ (i < q → k < 2 ^ 32))
  | 0, i, _, _, hi, hlo, hhi => by
    obtain rfl : i = q := by omega
    rw [tailPieces_self]
    simp only [Tiles, mem_singleton, forall_eq, proper_iff hinfo hk, lo,
      len, toNat_ofInt, UInt32.toNat_zero, Nat.cast_zero, add_zero, zero_add]
    constructor
    · rintro ⟨⟨ha, hb⟩, hpos, hidx, -, -⟩
      have hi32 : i % 2 ^ 32 = i := eq_of_mul_lt hk (ha ▸ hlo) (ha ▸ hhi)
      rw [hi32] at ha hidx
      exact ⟨ha.symm, by omega, by omega, by omega, hidx, by omega⟩
    · rintro ⟨rfl, hr0, hr32, hq32, htotal, -⟩
      rw [Int.emod_eq_of_lt hi hq32, Int.emod_eq_of_lt hr hr32]
      exact ⟨⟨rfl, rfl⟩, hr0, htotal, hrk.le, by omega⟩
  | n + 1, i, a, _, hi, hlo, hhi => by
    have hiq : i < q := by omega
    have hstep : (i + 1 - 1) * k = i * k ∧ (i + 1) * k = i * k + k := ⟨by ring, by ring⟩
    have hq0 : i * k < q * k := mul_lt_mul_of_pos_right hiq hk
    have hhead := proper_iff hinfo hk ⟨.ofInt i, 0, .ofInt k⟩
    simp only [len, toNat_ofInt, UInt32.toNat_zero, Nat.cast_zero, zero_add] at hhead
    rw [tailPieces_of_lt hiq, Tiles, forall_mem_cons, hhead]
    simp only [lo, len, toNat_ofInt, UInt32.toNat_zero, Nat.cast_zero, add_zero]
    constructor
    · rintro ⟨⟨ha, htiles⟩, ⟨hpos, hidx, hle, -⟩, hproper⟩
      have hi32 : i % 2 ^ 32 = i := eq_of_mul_lt hk (ha ▸ hlo) (ha ▸ hhi)
      rw [hi32] at ha hidx
      -- the next piece starts behind this place, and not behind the end of this piece
      obtain ⟨hnext, hr0, hr32, hq32, htotal, -⟩ := (tiles_tailPieces hinfo hk hr hrk n (by omega)
        (by omega) (by omega) (by omega)).1 ⟨htiles, hproper⟩
      exact ⟨ha.symm, hr0, hr32, hq32, htotal, fun _ => by omega⟩
    · rintro ⟨rfl, hr0, hr32, hq32, htotal, hmid⟩
      have hk32 := hmid hiq
      rw [Int.emod_eq_of_lt hi (hiq.trans hq32), Int.emod_eq_of_lt hk.le hk32]
      obtain ⟨htiles, hproper⟩ := (tiles_tailPieces hinfo hk hr hrk n (i := i + 1) (a := i * k + k)
        (by omega) (by omega) (by omega) (by omega)).2
        ⟨by omega, hr0, hr32, hq32, htotal, fun _ => hk32⟩
      exact ⟨⟨rfl, htiles⟩, ⟨hk, by omega, le_rfl, by omega⟩, hproper⟩

/-! ## All pieces of a file -/

variable {info : Info} {f : File} {s : ℤ}

theorem offsetLoop_eq {path pre} (post : List File)
    (hf : path = f.Path info) (hpre : ∀ g ∈ pre, path ≠ g.Path info) (ret : ℤ) :
    offsetLoop info path (pre ++ f :: post) (wrap64 ret) = some (wrap64 (ret + lengths pre)) := by
  induction pre generalizing ret with
  | nil => rw [nil_append, offsetLoop, if_pos hf, lengths_nil, add_zero]
  | cons g pre ih =>
    obtain ⟨hg, hpre⟩ := forall_mem_cons.1 hpre
    rw [cons_append, offsetLoop, if_neg hg, wrap64_wrap64_add, ih hpre, lengths_cons, add_assoc]

theorem offset_eq {pre post} (hsplit : info.AllFiles = pre ++ f :: post)
    (hdistinct : (info.AllFiles.map fun g => g.Path info).Nodup) :
    f.Offset info = some (wrap64 (lengths pre)) := by
  have hpre : ∀ g ∈ pre, f.Path info ≠ g.Path info := by
    intro g hg heq
    rw [hsplit, map_append, map_cons, nodup_middle, nodup_cons] at hdistinct
    exact hdistinct.1 (mem_append_left _ (mem_map.2 ⟨g, hg, heq.symm⟩))
  rw [File.Offset, hsplit]
  have h := offsetLoop_eq post rfl hpre 0
  rw [zero_add] at h
  exact h

theorem not_tilesFile_of_neg (hl : 1 ≤ f.length) (h0 : s < 0) (hk : 0 < info.pieceLength) :
    ¬ TilesFile info f s := by
  rintro ⟨fps, -, htiles, -⟩
  cases fps with
  | nil => simp only [Tiles] at htiles; omega
  | cons fp fps =>
    have hlo : fp.lo info.pieceLength = s := htiles.1
    have hnonneg : 0 ≤ fp.lo info.pieceLength := by rw [lo]; positivity
    omega

theorem not_tilesFile_of_overflow {k} (hinfo : info.pieceLength = k) (hs : f.Offset info = some s)
    (hl : 1 ≤ f.length) (hk : 0 < k) (h0 : 0 ≤ s) (hs64 : IsInt64 s) (hf64 : IsInt64 f.length)
    (hend : ¬ s + f.length < 2 ^ 63) : ¬ TilesFile info f s := by
  have hs2 := hs64.2
  have hf2 := hf64.2
  obtain ⟨e, he⟩ : ∃ e, e = 2 ^ 64 - (s + f.length) := ⟨_, rfl⟩
  have hwrap : wrap64 (s + f.length) = -e := by
    rw [wrap64, Int.bmod_def]
    norm_num
    omega
  have he0 : 0 ≤ e / k := Int.ediv_nonneg (by omega) hk.le
  have hele : e / k ≤ e := Int.ediv_le_self _ (by omega)
  obtain ⟨hsum, ⟨hq0, hqle⟩, hr0, hrk⟩ := division h0 hk
  rintro ⟨fps, hget, htiles, hproper⟩
  rw [max_eq_right (by omega)] at htiles
  rw [File.FilePieces, if_neg (by omega), hs] at hget
  dsimp only at hget
  rw [hinfo, if_neg hk.ne', hwrap, Int.tdiv_eq_ediv_of_nonneg h0, Int.tmod_eq_emod_of_nonneg h0,
    Int.neg_tdiv, Int.neg_tmod, Int.tdiv_eq_ediv_of_nonneg (by omega),
    Int.tmod_eq_emod_of_nonneg (by omega), wrap64_of_range (by omega) (by omega),
    wrap64_of_range (i := -_) (by omega) (by omega)] at hget
  split at hget
  · -- both in the first piece: the file would be shorter than 2^33
    rename_i hsame
    have hzero : s / k = 0 := by omega
    cases hget
    obtain ⟨hlo, hhi⟩ := htiles
    simp only [lo, len, toNat_ofInt, hinfo, hzero, Int.zero_emod, zero_mul, Tiles]
      at hlo hhi
    omega
  · rename_i hne
    split at hget
    · cases hget
    · -- the first and the last piece only, so the pieces are long and there are few of them
      rename_i hmake
      have hmid : (-(e / k) - (s / k + 1)).toNat = 0 := by omega
      cases hget
      rw [hmid] at htiles hproper
      have hfirst := (proper_iff hinfo hk _).1 (hproper _ mem_cons_self)
      simp only [range_zero, map_nil, nil_append, Tiles, lo, len, hinfo,
        toNat_ofInt, UInt32.toNat_zero, Nat.cast_zero, add_zero] at htiles hfirst
      obtain ⟨hlo, hlo', hhi⟩ := htiles
      obtain ⟨hpos, -, hin, -⟩ := hfirst
      obtain ⟨-, hnext, hnext'⟩ := neighbours (s / k) k
      rw [index_exact h0 hk hlo] at hlo
      have hlast : -(e / k) % 2 ^ 32 = s / k + 1 :=
        eq_of_mul_lt hk (by omega) (by omega)
      have hk30 : 2 ^ 30 < k := by
        have hqlt : s / k + 1 ≤ 2 ^ 32 := by omega
        have := mul_le_mul_of_nonneg_right hqlt hk.le
        omega
      have he33 : e / k ≤ 2 ^ 33 := by
        have h1 := Int.ediv_mul_le e hk.ne'
        have h2 := mul_le_mul_of_nonneg_left hk30.le he0
        omega
      rw [wrap64_of_range (by omega) (by omega)] at hmake
      omega

section Inside

variable {k : ℤ} (hinfo : info.pieceLength = k) (hs : f.Offset info = some s) (hl : 1 ≤ f.length)
  (hk : 0 < k) (h0 : 0 ≤ s) (hend : s + f.length < 2 ^ 63)
include hinfo hs hl hk h0 hend

theorem filePieces_eq : f.FilePieces info =
      if s / k = (s + f.length) / k then
        some [⟨.ofInt (s / k), .ofInt (s % k), .ofInt f.length⟩]
      else if 2 ^ 48 < 12 * ((s + f.length) / k - s / k + 1) then none
      else some (⟨.ofInt (s / k), .ofInt (s % k),
          .ofInt (k - s % k)⟩ ::
        tailPieces k (s / k + 1)
          ((s + f.length) / k) ((s + f.length) % k)) := by
  obtain ⟨hsum, ⟨hnonneg, hqle⟩, -⟩ := division h0 hk
  obtain ⟨hsum', ⟨hnonneg', hle⟩, -⟩ := division (s := s + f.length) (by omega) hk
  have hq : wrap64 (s / k) = s / k :=
    wrap64_of_range (by omega) (by omega)
  have he : wrap64 (s + f.length) = s + f.length := wrap64_of_range (by omega) hend
  have hq' : wrap64 ((s + f.length) / k) = (s + f.length) / k :=
    wrap64_of_range (by omega) (by omega)
  rw [File.FilePieces, if_neg (by omega), hs]
  dsimp only
  rw [hinfo, if_neg hk.ne', he, Int.tdiv_eq_ediv_of_nonneg h0, Int.tmod_eq_emod_of_nonneg h0,
    Int.tdiv_eq_ediv_of_nonneg (by omega), Int.tmod_eq_emod_of_nonneg (by omega), hq, hq']
  have hmono : s / k ≤ (s + f.length) / k :=
    Int.ediv_le_ediv hk (by omega)
  set q := s / k
  set q' := (s + f.length) / k
  by_cases hsame : q = q'
  · rw [if_pos hsame, if_pos hsame]
    have hlen : (s + f.length) % k - s % k = f.length := by
      rw [hsame] at hsum
      omega
    rw [hlen]
  · rw [if_neg hsame, if_neg hsame]
    have hmake : wrap64 (q' - q + 1) < 0 ∨ 12 * wrap64 (q' - q + 1) > 2 ^ 48 ↔
        2 ^ 48 < 12 * (q' - q + 1) := by
      by_cases hfit : q' - q + 1 < 2 ^ 63
      · rw [wrap64_of_range (by omega) hfit]
        omega
      · have hbig : q' - q + 1 = 2 ^ 63 := by omega
        rw [hbig]
        decide
    rw [if_congr hmake rfl rfl]
    rfl

theorem tilesFile_of_same (hsame : s / k = (s + f.length) / k) :
    TilesFile info f s ↔ Fits info.TotalLength k s f.length := by
  have hget := filePieces_eq hinfo hs hl hk h0 hend
  rw [if_pos hsame] at hget
  have hmax : max s (s + f.length) = s + f.length := max_eq_right (by omega)
  obtain ⟨hsum, ⟨hq0, -⟩, hr0, hrk⟩ := division h0 hk
  obtain ⟨hsum', -, -, hrk'⟩ := division (s := s + f.length) (by omega) hk
  rw [← hsame] at hsum'
  simp only [TilesFile, hget, Option.some.injEq, exists_eq_left', Tiles, mem_singleton,
    forall_eq, proper_iff hinfo hk, lo, len, toNat_ofInt, hinfo, hmax]
  constructor
  · rintro ⟨⟨hlo, hlen⟩, hpos, hidx, hin, hblocks⟩
    have hq32 := index_exact h0 hk hlo
    rw [hq32] at hlo hidx
    refine ⟨h0, hend, by omega, ?_, ?_, fun _ => ⟨by omega, ?_⟩, fun h => ?_, fun h => ?_⟩
    · rw [← hsame]; exact hidx
    · rw [← hsame]; omega
    · have hl32 : f.length % 2 ^ 32 = f.length := by omega
      have hr32 : s % k % 2 ^ 32 = s % k := by omega
      rwa [hl32, hr32] at hblocks
    · exact absurd hsame h.ne
    · exact absurd hsame (by omega)
  · intro h
    obtain ⟨hl32, hblocks⟩ := h.only hsame
    have hidx := h.index
    have hlast := h.last
    rw [← hsame] at hidx hlast
    rw [Int.emod_eq_of_lt hq0 hidx, Int.emod_eq_of_lt hr0 (by omega),
      Int.emod_eq_of_lt (by omega) hl32]
    exact ⟨⟨hsum, rfl⟩, by omega, hlast, by omega, hblocks⟩

theorem tilesFile_of_lt (hlt : s / k < (s + f.length) / k) :
    TilesFile info f s ↔ Fits info.TotalLength k s f.length := by
  have hget := filePieces_eq hinfo hs hl hk h0 hend
  rw [if_neg hlt.ne] at hget
  have hmax : max s (s + f.length) = s + f.length := max_eq_right (by omega)
  obtain ⟨hsum, ⟨hq0, -⟩, hr0, hrk⟩ := division h0 hk
  obtain ⟨hsum', -, hr0', hrk'⟩ := division (s := s + f.length) (by omega) hk
  obtain ⟨-, hnext, hnext'⟩ := neighbours (s / k) k
  have hlastq : s / k * k <
    (s + f.length) / k * k := mul_lt_mul_of_pos_right hlt hk
  by_cases hmake : 2 ^ 48 < 12 * ((s + f.length) / k - s / k + 1)
  · rw [if_pos hmake] at hget
    constructor
    · rintro ⟨fps, hfps, -⟩
      rw [hget] at hfps
      cases hfps
    · intro h
      have := h.index
      omega
  rw [if_neg hmake] at hget
  have hhead := proper_iff hinfo hk ⟨.ofInt (s / k), .ofInt (s % k), .ofInt (k - s % k)⟩
  simp only [len, toNat_ofInt] at hhead
  have htail (a : ℤ) (hlo : s / k * k < a)
      (hhi : a ≤ (s / k + 1) * k) :=
    tiles_tailPieces (q := (s + f.length) / k) hinfo hk hr0' hrk'
      ((s + f.length) / k - (s / k + 1)).toNat
      (i := s / k + 1) (a := a) (by omega) (by omega) (by omega) hhi
  rw [hsum'] at htail
  simp only [TilesFile, hget, Option.some.injEq, exists_eq_left', Tiles, forall_mem_cons, hhead,
    lo, len, toNat_ofInt, hinfo, hmax]
  constructor
  · rintro ⟨⟨hlo, htiles⟩, ⟨hpos, hidx, hin, hblocks⟩, hproper⟩
    have hq32 := index_exact h0 hk hlo
    rw [hq32] at hlo hidx
    obtain ⟨ha, hr', hr32', hq32', htotal, hmid⟩ := (htail _ (by omega) (by omega)).1
      ⟨htiles, hproper⟩
    refine ⟨h0, hend, hr'.ne', htotal, hq32', fun h => absurd h hlt.ne,
      fun _ => ⟨by omega, ?_, hr32'⟩, fun h => hmid h⟩
    have hl32 : (k - s % k) % 2 ^ 32 =
      k - s % k := by omega
    have hr32 : s % k % 2 ^ 32 = s % k := by omega
    rwa [hl32, hr32] at hblocks
  · intro h
    obtain ⟨hl32, hblocks, hr32'⟩ := h.first hlt
    have hidx := h.index
    have hlast := h.last
    have hpos : 0 < (s + f.length) % k := by have := h.boundary; omega
    rw [Int.emod_eq_of_lt hq0 (by omega), Int.emod_eq_of_lt hr0 (by omega),
      Int.emod_eq_of_lt (by omega) hl32]
    obtain ⟨htiles, hproper⟩ := (htail (s + (k - s % k)) (by omega)
      (by omega)).2 ⟨by omega, hpos, hr32', hidx, hlast, fun hm => h.middle hm⟩
    exact ⟨⟨hsum, htiles⟩, ⟨by omega, by omega, by omega, hblocks⟩, hproper⟩

end Inside

theorem tilesFile_nil (hl : f.length < 1) : TilesFile info f s := by
  refine ⟨[], by rw [File.FilePieces, if_pos hl], ?_, by simp⟩
  simp only [Tiles]
  omega

theorem fits_iff {k total l} (hk : 0 < k) (hk32 : k < 2 ^ 32) (h0 : 0 ≤ s)
    (hle : s + l ≤ total) (hfit : total < 2 ^ 63) (hcount : total < 2 ^ 32 * k) :
    Fits total k s l ↔ (s + l) % k ≠ 0 := by
  refine ⟨fun h => h.boundary, fun hb => ?_⟩
  have hr0 := Int.emod_nonneg s hk.ne'
  have hrk := Int.emod_lt_of_pos s hk
  have hsum := Int.ediv_mul_add_emod (s + l) k
  have hr0' := Int.emod_nonneg (s + l) hk.ne'
  have hrk' := Int.emod_lt_of_pos (s + l) hk
  refine ⟨h0, by omega, hb, by omega, ?_, fun hsame => ?_, fun _ => by omega, fun _ => hk32⟩
  · exact Int.ediv_lt_of_lt_mul hk (by omega)
  · have hsum0 := Int.ediv_mul_add_emod s k
    rw [hsame] at hsum0
    omega

theorem mem_lengths_le {pre post} (h : ∀ g ∈ pre ++ f :: post, 0 ≤ g.length) :
    0 ≤ lengths pre ∧ lengths pre + f.length ≤ lengths (pre ++ f :: post) := by
  have hpre := lengths_nonneg fun g hg => h g (mem_append_left _ hg)
  have hpost := lengths_nonneg fun g hg => h g (mem_append_right _ (mem_cons_of_mem f hg))
  rw [lengths_append, lengths_cons]
  omega

/-- **When the pieces tile a file.** -/
theorem tilesFile_iff (hfiles : ∀ g ∈ info.AllFiles, IsInt64 g.length)
    (hdistinct : (info.AllFiles.map fun g => g.Path info).Nodup) (hk : 0 < info.pieceLength)
    (hf : f ∈ info.AllFiles) : ∃ pre post s, info.AllFiles = pre ++ f :: post ∧
      s = wrap64 (lengths pre) ∧ f.Offset info = some s ∧
      (TilesFile info f s ↔ f.length < 1 ∨ Fits info.TotalLength info.pieceLength s f.length) ∧
      ((∀ g ∈ info.AllFiles, 0 ≤ g.length) → lengths info.AllFiles < 2 ^ 63 →
        info.pieceLength < 2 ^ 32 → info.TotalLength < 2 ^ 32 * info.pieceLength →
        s = lengths pre ∧
          (TilesFile info f s ↔ f.length = 0 ∨ (s + f.length) % info.pieceLength ≠ 0)) := by
  obtain ⟨pre, post, hsplit⟩ := append_of_mem hf
  have hs := offset_eq hsplit hdistinct
  have hs64 := isInt64_wrap64 (lengths pre)
  obtain ⟨s, hdef⟩ : ∃ s, s = wrap64 (lengths pre) := ⟨_, rfl⟩
  rw [← hdef] at hs hs64
  have hiff : TilesFile info f s ↔
      f.length < 1 ∨ Fits info.TotalLength info.pieceLength s f.length := by
    by_cases hl : f.length < 1
    · exact ⟨fun _ => .inl hl, fun _ => tilesFile_nil hl⟩
    rw [or_iff_right hl]
    have hl1 := not_lt.1 hl
    by_cases h0 : 0 ≤ s
    · by_cases hend : s + f.length < 2 ^ 63
      · have hmono : s / info.pieceLength ≤ (s + f.length) / info.pieceLength :=
          Int.ediv_le_ediv hk (by omega)
        rcases hmono.lt_or_eq with hlt | hsame
        · exact tilesFile_of_lt rfl hs hl1 hk h0 hend hlt
        · exact tilesFile_of_same rfl hs hl1 hk h0 hend hsame
      · exact iff_of_false (not_tilesFile_of_overflow rfl hs hl1 hk h0 hs64 (hfiles f hf) hend)
          fun h => hend h.int64
    · exact iff_of_false (not_tilesFile_of_neg hl1 (not_le.1 h0) hk) fun h => h0 h.nonneg
  refine ⟨pre, post, s, hsplit, hdef, hs, hiff, fun hnonneg hfit hk32 hcount => ?_⟩
  have htotal : info.TotalLength = lengths info.AllFiles := by
    have hsum := lengths_nonneg hnonneg
    rw [Info.totalLength_eq hfiles]
    exact wrap64_of_range (by rw [← lengths]; omega) hfit
  rw [hsplit] at hnonneg htotal hfit
  obtain ⟨hpre, hle⟩ := mem_lengths_le hnonneg
  have hf0 := hnonneg f (by simp)
  have hexact : s = lengths pre := by rw [hdef, wrap64_of_range (by omega) (by omega)]
  refine ⟨hexact, hiff.trans ?_⟩
  by_cases hl : f.length < 1
  · exact iff_of_true (.inl hl) (.inl (by omega))
  · rw [or_iff_right hl, or_iff_right (by omega)]
    exact fits_iff hk hk32 (by omega) (by omega) (by omega) hcount

theorem tilesFile_iff_sample : TilesFile sampleInfo ⟨3, [utf8 "c"]⟩ 2 := by
  have hfiles : ∀ g ∈ sampleInfo.AllFiles, IsInt64 g.length ∧ 0 ≤ g.length := by
    simp [sampleInfo, Info.AllFiles, Info.IsDir, IsInt64]
  have hdistinct : (sampleInfo.AllFiles.map fun g => g.Path sampleInfo).Nodup := by decide +kernel
  have hc : File.mk 3 [utf8 "c"] ∈ sampleInfo.AllFiles := by decide
  have hs : (File.mk 3 [utf8 "c"]).Offset sampleInfo = some 2 := by decide +kernel
  obtain ⟨pre, post, s, -, -, hoffset, -, hiff⟩ :=
    tilesFile_iff (fun g hg => (hfiles g hg).1) hdistinct (by decide) hc
  rw [hs, Option.some.injEq] at hoffset
  subst hoffset
  exact (hiff (fun g hg => (hfiles g hg).2) (by decide) (by decide) (by decide)).2.2
    (.inr (by decide))

theorem filePieces_boundary :
    File.FilePieces ⟨4, []⟩ ⟨utf8 "t", 4, [], 4, []⟩ = some [⟨0, 0, 4⟩, ⟨1, 0, 0⟩] ∧
    File.Offset ⟨4, []⟩ ⟨utf8 "t", 4, [], 4, []⟩ = some 0 ∧
    ¬ TilesFile ⟨utf8 "t", 4, [], 4, []⟩ ⟨4, []⟩ 0 := by
  refine ⟨rfl, rfl, ?_⟩
  rintro ⟨fps, hget, -, hproper⟩
  cases hget
  exact absurd (hproper ⟨1, 0, 0⟩ (by decide)).pos (by decide)

end GoI2pBt.Metainfo
