/-
  The allowed fast set.
-/
import GoI2pBt.Lib.Distinct
import GoI2pBt.Lib.Netip
import GoI2pBt.Metainfo.Hash

namespace GoI2pBt.PeerProtocol

open List Metainfo

/-! ## The code -/

inductive Stopped where
  | fuel
  | panic
deriving DecidableEq

def uint32At (x : Bytes) (i : ℕ) : UInt32 := .ofNat (beNat ((x.drop (i * 4)).take 4))

def fastSeed (ip : Bytes) (infohash : Hash) : Bytes :=
  let ip := if to4 ip ≠ [] then to4 ip else ip
  if ip.length = 4 then ip.take 3 ++ [0] ++ infohash.bytes
  else ip.map (· &&& 0xff) ++ infohash.bytes

def uint32Contains (ss : List UInt32) (s : UInt32) : Bool := ss.any fun v => v == s

def takeIndex (sz : UInt32) (x : Bytes) (st : List UInt32 × ℕ) (i : ℕ) : List UInt32 × ℕ :=
  if st.2 < st.1.length then
    let index := uint32At x i % sz
    if !uint32Contains st.1 index then (st.1.set st.2 index, st.2 + 1) else st
  else st

def fastLoop (sha1 : Bytes → Hash) (sz : UInt32) :
    ℕ → Bytes → List UInt32 × ℕ → Except Stopped (List UInt32)
  | 0, _, _ => .error .fuel
  | fuel + 1, x, st =>
    if st.2 < st.1.length then
      if sz = 0 then .error .panic
      else
        let x := (sha1 x).bytes
        fastLoop sha1 sz fuel x ((range 5).foldl (takeIndex sz x) st)
    else .ok st.1

def GenerateAllowedFastSet (sha1 : Bytes → Hash) (fuel : ℕ) (set : List UInt32) (sz : UInt32)
    (ip : Bytes) (infohash : Hash) : Except Stopped (List UInt32) :=
  fastLoop sha1 sz fuel (fastSeed ip infohash) (set, 0)

/-! ## The candidates -/

def block (sha1 : Bytes → Hash) (x : Bytes) (r : ℕ) : Bytes := (fun x => (sha1 x).bytes)^[r] x

def candidate (sha1 : Bytes → Hash) (sz : UInt32) (x : Bytes) (n : ℕ) : UInt32 :=
  uint32At (block sha1 x (n / 5 + 1)) (n % 5) % sz

variable {sha1 : Bytes → Hash} {sz : UInt32} {x : Bytes} {k : ℕ}

theorem uint32Contains_iff {ss s} : uint32Contains ss s = true ↔ s ∈ ss := by
  simp [uint32Contains]

theorem takeIndex_eq (st : List UInt32 × ℕ) (i : ℕ) :
    takeIndex sz x st i = fillStep st (uint32At x i % sz) := by
  unfold takeIndex fillStep
  by_cases hlt : st.2 < st.1.length
  · by_cases hmem : uint32At x i % sz ∈ st.1
    · simp [hmem, uint32Contains_iff.2 hmem]
    · simp [hlt, hmem, mt uint32Contains_iff.1 hmem]
  · simp [hlt]

theorem foldl_takeIndex (r : ℕ) : (range 5).foldl (takeIndex sz (block sha1 x (r + 1)))
        (fill 0 k (candidate sha1 sz x) (5 * r)) =
      fill 0 k (candidate sha1 sz x) (5 * (r + 1)) := by
  have hcand : ∀ i < 5,
      candidate sha1 sz x (5 * r + i) = uint32At (block sha1 x (r + 1)) i % sz := by
    intro i hi
    rw [candidate, Nat.mul_add_div (by decide), Nat.div_eq_of_lt hi, add_zero,
      Nat.mul_add_mod, Nat.mod_eq_of_lt hi]
  have hfold : ∀ j ≤ 5, (range j).foldl (takeIndex sz (block sha1 x (r + 1)))
      (fill 0 k (candidate sha1 sz x) (5 * r)) = fill 0 k (candidate sha1 sz x) (5 * r + j) := by
    intro j hj
    induction j with
    | zero => rfl
    | succ j ih =>
      rw [range_succ, foldl_append, ih (by omega), foldl_cons, foldl_nil,
        takeIndex_eq, ← hcand j (by omega)]
      rfl
  exact hfold 5 le_rfl

theorem block_succ (sha1 : Bytes → Hash) (x : Bytes) (r : ℕ) :
    block sha1 x (r + 1) = (sha1 (block sha1 x r)).bytes := Function.iterate_succ_apply' _ _ _

/-! ## The loop -/

theorem fastLoop_round (hsz : sz ≠ 0) {fuel r}
    (h : (fill 0 k (candidate sha1 sz x) (5 * r)).2 < k) :
    fastLoop sha1 sz (fuel + 1) (block sha1 x r) (fill 0 k (candidate sha1 sz x) (5 * r)) =
      fastLoop sha1 sz fuel (block sha1 x (r + 1))
        (fill 0 k (candidate sha1 sz x) (5 * (r + 1))) := by
  rw [fastLoop, length_fill, if_pos h, if_neg hsz, ← foldl_takeIndex, block_succ]

theorem fastLoop_end {fuel r} (h : ¬ (fill 0 k (candidate sha1 sz x) (5 * r)).2 < k) :
    fastLoop sha1 sz (fuel + 1) (block sha1 x r) (fill 0 k (candidate sha1 sz x) (5 * r)) =
      .ok (fill 0 k (candidate sha1 sz x) (5 * r)).1 := by
  rw [fastLoop, length_fill, if_neg h]

theorem fastLoop_ok (hsz : sz ≠ 0) {fuel r l}
    (h : fastLoop sha1 sz fuel (block sha1 x r) (fill 0 k (candidate sha1 sz x) (5 * r)) = .ok l) :
    ∃ n, k ≤ (nonBlank 0 (candidate sha1 sz x) n).length ∧
      l = (nonBlank 0 (candidate sha1 sz x) n).take k := by
  induction fuel generalizing r with
  | zero => cases h
  | succ fuel ih =>
    by_cases hlt : (fill 0 k (candidate sha1 sz x) (5 * r)).2 < k
    · rw [fastLoop_round hsz hlt] at h
      exact ih h
    · rw [fastLoop_end hlt] at h
      cases h
      have hle := fill_le 0 k (candidate sha1 sz x) (5 * r)
      have hfull : k ≤ (nonBlank 0 (candidate sha1 sz x) (5 * r)).length :=
        fill_full_iff.1 (by omega)
      exact ⟨5 * r, hfull, fill_full hfull⟩

theorem exists_fastLoop_ok (hsz : sz ≠ 0) {r j}
    (h : k ≤ (nonBlank 0 (candidate sha1 sz x) (5 * (r + j))).length) :
    ∃ l, fastLoop sha1 sz (j + 1) (block sha1 x r)
      (fill 0 k (candidate sha1 sz x) (5 * r)) = .ok l := by
  by_cases hlt : (fill 0 k (candidate sha1 sz x) (5 * r)).2 < k
  · induction j generalizing r with
    | zero =>
      have hfull : (fill 0 k (candidate sha1 sz x) (5 * r)).2 = k := fill_full_iff.2 h
      omega
    | succ j ih =>
      rw [fastLoop_round hsz hlt]
      rw [← add_assoc, add_right_comm] at h
      by_cases hnext : (fill 0 k (candidate sha1 sz x) (5 * (r + 1))).2 < k
      · exact ih h hnext
      · exact ⟨_, fastLoop_end hnext⟩
  · exact ⟨_, fastLoop_end hlt⟩

theorem generate_ok_iff (hsz : sz ≠ 0) (ip : Bytes) (infohash : Hash) (l : List UInt32) :
    (∃ fuel, GenerateAllowedFastSet sha1 fuel (replicate k 0) sz ip infohash = .ok l) ↔
      ∃ n, k ≤ (nonBlank 0 (candidate sha1 sz (fastSeed ip infohash)) n).length ∧
        l = (nonBlank 0 (candidate sha1 sz (fastSeed ip infohash)) n).take k := by
  constructor
  · rintro ⟨fuel, h⟩
    exact fastLoop_ok hsz (r := 0) h
  · rintro ⟨n, hn, rfl⟩
    have hmono : nonBlank 0 (candidate sha1 sz (fastSeed ip infohash)) n <+:
        nonBlank 0 (candidate sha1 sz (fastSeed ip infohash)) (5 * (0 + n)) :=
      nonBlank_mono _ _ (by omega)
    obtain ⟨l, hl⟩ := exists_fastLoop_ok hsz (hn.trans hmono.length_le)
    obtain ⟨m, hm, rfl⟩ := fastLoop_ok hsz hl
    rw [take_nonBlank hn hm]
    exact ⟨n + 1, hl⟩

theorem fastSeed_eq {ip} (h : to4 ip ≠ []) (infohash : Hash) :
    fastSeed ip infohash = (to4 ip).take 3 ++ [0] ++ infohash.bytes := by
  have hlen : (to4 ip).length = 4 := by
    unfold to4 at h ⊢
    split_ifs at h ⊢ with h4 h16
    · exact h4
    · rw [length_drop, h16.1]
    · exact absurd rfl h
  rw [fastSeed, if_pos h, if_pos hlen]

/-- **The fast set is exact unless it has the index 0.** -/
theorem generate_exact_iff {ip : Bytes} (h4 : to4 ip ≠ []) (infohash : Hash) (hsz : k ≤ sz.toNat)
    (hk : 0 < k)
    (hc : ∃ n, k ≤ (distinct (candidate sha1 sz
      ((to4 ip).take 3 ++ [0] ++ infohash.bytes)) n).length) :
    (∃ fuel l, GenerateAllowedFastSet sha1 fuel (replicate k 0) sz ip infohash = .ok l ∧
        FirstDistinct (candidate sha1 sz ((to4 ip).take 3 ++ [0] ++ infohash.bytes)) k l) ↔
      ∀ l, FirstDistinct (candidate sha1 sz ((to4 ip).take 3 ++ [0] ++ infohash.bytes)) k l →
        0 ∉ l := by
  have hne : sz ≠ 0 := by
    rintro rfl
    rw [UInt32.toNat_zero] at hsz
    omega
  rw [← fastSeed_eq h4 infohash] at hc ⊢
  constructor
  · rintro ⟨fuel, l, hrun, hl⟩
    obtain ⟨n, hn, rfl⟩ := (generate_ok_iff hne ip infohash l).1 ⟨fuel, hrun⟩
    exact (firstDistinct_take_iff hn).1 hl
  · intro hno
    obtain ⟨n, hn⟩ := hc
    obtain ⟨l, hl⟩ := exists_firstDistinct hn
    obtain ⟨m, hm⟩ := exists_full hl (hno l hl)
    obtain ⟨fuel, hrun⟩ := (generate_ok_iff hne ip infohash _).2 ⟨m, hm, rfl⟩
    exact ⟨fuel, _, hrun, (firstDistinct_take_iff hm).2 hno⟩

def sampleIP : Bytes := [80, 4, 4, 200]

def countDigest (_ : Bytes) : Hash :=
  .ofBytes [0, 0, 0, 8, 0, 0, 0, 2, 0, 0, 0, 1, 0, 0, 0, 3, 0, 0, 0, 5]

theorem generate_three :
    ∃ fuel l, GenerateAllowedFastSet countDigest fuel (replicate 3 0) 7 sampleIP .zero = .ok l ∧
      FirstDistinct
        (candidate countDigest 7 ((to4 sampleIP).take 3 ++ [0] ++ Hash.zero.bytes)) 3 l := by
  refine (generate_exact_iff (by decide) .zero (by decide) (by decide) ⟨4, by decide⟩).2 ?_
  intro l hl
  -- the third candidate repeats the first
  have hthree : FirstDistinct
      (candidate countDigest 7 ((to4 sampleIP).take 3 ++ [0] ++ Hash.zero.bytes)) 3 [1, 2, 3] :=
    ⟨rfl, 4, by decide⟩
  rw [hl.unique hthree]
  decide

theorem generate_one_piece : to4 sampleIP ≠ [] ∧ ∀ sha1,
      FirstDistinct (candidate sha1 1 ((to4 sampleIP).take 3 ++ [0] ++ Hash.zero.bytes)) 1 [0] ∧
      ∀ fuel l, GenerateAllowedFastSet sha1 fuel (replicate 1 0) 1 sampleIP .zero ≠ .ok l := by
  refine ⟨by decide, fun sha1 => ?_⟩
  have hzero : ∀ x n, candidate sha1 1 x n = 0 := fun x n => UInt32.mod_one
  refine ⟨⟨rfl, 1, ?_⟩, fun fuel l hrun => ?_⟩
  · rw [distinct, distinct, if_neg not_mem_nil, hzero]
    rfl
  · obtain ⟨n, hn, -⟩ := (generate_ok_iff (by decide) _ _ l).1 ⟨fuel, hrun⟩
    obtain ⟨a, ha⟩ := exists_mem_of_length_pos hn
    obtain ⟨hmem, hne⟩ := List.mem_filter.1 ha
    obtain ⟨i, -, hi⟩ := mem_distinct hmem
    exact of_decide_eq_true hne (hi.symm.trans (hzero _ i))

end GoI2pBt.PeerProtocol
