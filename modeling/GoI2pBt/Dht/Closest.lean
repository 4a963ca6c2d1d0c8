/-
  `Closest` returns the nodes with the smallest distances.
-/
import GoI2pBt.Dht.RoutingTable

namespace GoI2pBt.Dht

open List Krpc Metainfo

/-! ## Distances -/

def distcmpLoop : Bytes → Bytes → Bytes → ℤ
  | t :: target, x :: a, y :: b =>
    if x ^^^ t > y ^^^ t then 1
    else if x ^^^ t < y ^^^ t then -1
    else distcmpLoop target a b
  | _, _, _ => 0

def distcmp (target a b : Hash) : ℤ := distcmpLoop target.bytes a.bytes b.bytes

def distance (target a : Hash) : ℕ := beNat (xorBytes a target)

theorem distcmpLoop_eq : ∀ {target a b : Bytes}, a.length = target.length →
    b.length = target.length → distcmpLoop target a b = Int.sign
      (beNat (zipWith (· ^^^ ·) a target) - beNat (zipWith (· ^^^ ·) b target))
  | [], [], [], _, _ => rfl
  | t :: target, x :: a, y :: b, ha, hb => by
    have ha' : a.length = target.length := Nat.succ.inj ha
    have hb' : b.length = target.length := Nat.succ.inj hb
    have hlen : (zipWith (· ^^^ ·) a target).length = (zipWith (· ^^^ ·) b target).length := by
      rw [length_zipWith, length_zipWith, ha', hb']
    rw [distcmpLoop, zipWith_cons_cons, zipWith_cons_cons]
    by_cases hgt : x ^^^ t > y ^^^ t
    · have hnum := beNat_cons_lt hlen.symm hgt
      rw [if_pos hgt, Int.sign_eq_one_of_pos (by omega)]
    rw [if_neg hgt]
    by_cases hlt : x ^^^ t < y ^^^ t
    · have hnum := beNat_cons_lt hlen hlt
      rw [if_pos hlt, Int.sign_eq_neg_one_of_neg (by omega)]
    · have heq : x ^^^ t = y ^^^ t := UInt8.le_antisymm (UInt8.not_lt.1 hgt) (UInt8.not_lt.1 hlt)
      rw [if_neg hlt, distcmpLoop_eq ha' hb', heq, beNat_cons, beNat_cons, hlen]
      congr 1
      omega

theorem distcmp_eq (target a b) :
    distcmp target a b = Int.sign (distance target a - distance target b) :=
  distcmpLoop_eq (a.length_eq.trans target.length_eq.symm) (b.length_eq.trans target.length_eq.symm)

theorem distcmp_pos {target a b} :
    distcmp target a b > 0 ↔ distance target b < distance target a := by
  rw [distcmp_eq, gt_iff_lt, Int.sign_pos_iff]
  omega

/-! ## Buckets and distances -/

/-- Bit `i` of an id, the most significant one first. -/
def bit (a : Hash) (i : ℕ) : Bool := (beNat a.bytes).testBit (159 - i)

section

variable (r : Hash) {a b : Hash}

theorem distance_eq (a) : distance r a = beNat a.bytes ^^^ beNat r.bytes :=
  beNat_xor (a.length_eq.trans r.length_eq.symm)

theorem distance_injective : Function.Injective (distance r) := by
  intro a b h
  rw [distance_eq, distance_eq, Nat.xor_left_inj] at h
  have hbytes := congrArg₂ beBytes (a.length_eq.trans b.length_eq.symm) h
  rw [beBytes_beNat, beBytes_beNat] at hbytes
  exact Hash.ext hbytes

theorem bucketid_log (a) : (bucketid r a).val + Nat.log 2 (distance r a) = 159 := by
  have hlog := @firstDiff_log (xorBytes r a) 0 (by rw [length_xorBytes]; decide)
  have hdist : beNat (xorBytes r a) = distance r a := by
    rw [distance_eq, Nat.xor_comm]
    exact beNat_xor (r.length_eq.trans a.length_eq.symm)
  rw [length_xorBytes, HashSize, hdist] at hlog
  exact Nat.succ.inj hlog

theorem bit_bucketid (hne : a ≠ r) : (∀ i < (bucketid r a).val, bit a i = bit r i) ∧
    bit a (bucketid r a) ≠ bit r (bucketid r a) := by
  have hbid := bucketid_log r a
  have hxor : ∀ i, (distance r a).testBit (159 - i) = (bit a i ^^ bit r i) := fun i => by
    rw [distance_eq, Nat.testBit_xor, bit, bit]
  have hpos : distance r a ≠ 0 := by
    intro hzero
    rw [← Nat.xor_self (beNat r.bytes), ← distance_eq] at hzero
    exact hne (distance_injective r hzero)
  constructor
  · intro i hi
    have h := Nat.testBit_eq_false_of_lt (Nat.lt_pow_of_log_lt one_lt_two
      (by omega : Nat.log 2 (distance r a) < 159 - i))
    rw [hxor] at h
    exact bne_eq_false_iff_eq.1 h
  · have h := Nat.testBit_log2 hpos
    rw [Nat.log2_eq_log_two, (by omega : Nat.log 2 (distance r a) = 159 - bucketid r a), hxor] at h
    exact bne_iff_ne.1 h

/-- **Buckets are common prefixes**, ordered as the distances. -/
theorem bucketid_distcmp : (∀ n, (bucketid r n).val < 160) ∧
    (∀ n ≠ r, (∀ i < (bucketid r n).val, bit n i = bit r i) ∧
      bit n (bucketid r n) ≠ bit r (bucketid r n)) ∧
    (∀ a b, bucketid r a > bucketid r b → distcmp r a b < 0) ∧
    IsLinearOrder Hash (distcmp r · · ≤ 0) := by
  refine ⟨fun n => (bucketid r n).isLt, fun n => bit_bucketid r, fun a b h => ?_, ?_⟩
  · have hlt : distance r a < distance r b := by
      have ha := bucketid_log r a
      have hb := bucketid_log r b
      refine lt_of_not_ge fun hle => ?_
      have := Nat.log_mono_right (b := 2) hle
      omega
    rw [distcmp_eq, Int.sign_neg_iff]
    omega
  · simp only [distcmp_eq, Int.sign_nonpos_iff, sub_nonpos, Nat.cast_le]
    exact {
      refl := fun a => le_rfl
      trans := fun a b c => le_trans
      antisymm := fun a b hab hba => distance_injective r (le_antisymm hab hba)
      total := fun a b => le_total _ _ }

end

/-! ## The search -/

def push (target : Hash) (maxnum : ℕ) (ns : List Node) (node : Node) : List Node :=
  let ix := search ns.length fun i =>
    match ns[i]? with
    | some n => distcmp target n.id node.id > 0
    | none => false
  let ns := if ns.length < maxnum then ns ++ [node] else ns
  -- the appended node is overwritten when the nodes slide down
  if ix ≠ ns.length then (copyAt ns (ix + 1) (ns.drop ix)).set ix node else ns

def RoutingTable.Closest (rt : RoutingTable) (target : Hash) (maxnum : ℕ) : List Node :=
  (rt.nodes.map WrappedNode.node).foldl (push target maxnum) []

def Node.key (target : Hash) (n : Node) : ℕ := distance target n.id

theorem search_rank {target ns} (hs : SortedBy (Node.key target) ns) (node : Node) :
    (search ns.length fun i =>
      match ns[i]? with
      | some n => distcmp target n.id node.id > 0
      | none => false) = rank (Node.key target) ns node := by
  refine search_eq (rank_le ns node) (fun h hh => ?_) fun h hm hh => ?_
  · have hlt : h < ns.length := hh.trans_le (rank_le ns node)
    have hmem : ns.get ⟨h, hlt⟩ ∈ ns.take (rank (Node.key target) ns node) :=
      mem_take_iff_getElem.2 ⟨h, by omega, rfl⟩
    have hle := le_of_mem_take_rank hmem
    rw [getElem?_eq_getElem hlt]
    exact decide_eq_false fun hpos => absurd (distcmp_pos.1 hpos) (not_lt_of_ge hle)
  · have hmem : ns.get ⟨h, hh⟩ ∈ ns.drop (rank (Node.key target) ns node) :=
      mem_drop_iff_getElem.2 ⟨h - rank (Node.key target) ns node, by omega, by
        simp only [get_eq_getElem]
        congr 1
        omega⟩
    have hlt := lt_of_mem_drop_rank hs hmem
    rw [getElem?_eq_getElem hh]
    exact decide_eq_true (distcmp_pos.2 hlt)

theorem push_eq {target maxnum ns}
    (hs : SortedBy (Node.key target) ns) (hlen : ns.length ≤ maxnum) (node : Node) :
    push target maxnum ns node = (insertLast (Node.key target) ns node).take maxnum := by
  have hrank : rank (Node.key target) ns node ≤ ns.length := rank_le ns node
  unfold push
  rw [search_rank hs]
  dsimp only
  by_cases hlt : ns.length < maxnum
  · -- the node is appended, and the nodes from the index on slide over it
    have hfull : (insertLast (Node.key target) ns node).length ≤ maxnum := by
      rw [length_insertLast]
      exact hlt
    have htake : (ns ++ [node]).take (rank (Node.key target) ns node) =
        ns.take (rank (Node.key target) ns node) := take_append_of_le_length hrank
    have hdrop : (ns ++ [node]).drop (rank (Node.key target) ns node) =
        ns.drop (rank (Node.key target) ns node) ++ [node] := drop_append_of_le_length hrank
    rw [if_pos hlt, if_pos (by rw [length_append, length_singleton]; omega),
      set_copyAt _ (by rw [length_append, length_singleton]; omega), htake, hdrop,
      take_of_length_le hfull, length_append, length_singleton]
    have hsplit : ns.take (rank (Node.key target) ns node) ++
        node :: (ns.drop (rank (Node.key target) ns node) ++ [node]) =
        insertLast (Node.key target) ns node ++ [node] := by
      rw [insertLast, append_assoc, cons_append]
    have hlength : (insertLast (Node.key target) ns node).length = ns.length + 1 :=
      length_insertLast ns node
    rw [hsplit, ← hlength, take_left]
  · have hmax : ns.length = maxnum := by omega
    rw [if_neg hlt]
    by_cases hix : rank (Node.key target) ns node = ns.length
    · rw [if_neg (by rw [hix]; simp), insertLast, hix, take_length, ← hmax, take_left]
    · rw [if_pos hix, set_copyAt _ (by omega), hmax]
      rfl

theorem closest_isTop (rt : RoutingTable) (target : Hash) (maxnum : ℕ) :
    IsTop (Node.key target) maxnum (rt.nodes.map WrappedNode.node) (rt.Closest target maxnum) := by
  have htop : IsTop (Node.key target) maxnum ((rt.nodes.map WrappedNode.node).reverse ++ [])
      (rt.Closest target maxnum) :=
    isTop_foldl (fun ns node hs hlen => push_eq hs hlen node) _ (IsTop.nil maxnum)
  rw [append_nil] at htop
  exact htop.perm (reverse_perm _)

/-- **`Closest` returns the nearest nodes, in order.** -/
theorem closest_spec (rt : RoutingTable) (target : Hash) (maxnum : ℕ) :
    (rt.Closest target maxnum).length = min maxnum rt.Len ∧
      (rt.Closest target maxnum).Pairwise (fun a b => distance target a.id ≤ distance target b.id) ∧
      ∃ rest, (rt.nodes.map WrappedNode.node).Perm (rt.Closest target maxnum ++ rest) ∧
        ∀ a ∈ rt.Closest target maxnum, ∀ b ∈ rest, ¬ distance target b.id < distance target a.id := by
  obtain ⟨hsorted, hlen, rest, hperm, hbest⟩ := closest_isTop rt target maxnum
  refine ⟨?_, hsorted, rest, hperm, fun a ha b hb => not_lt_of_ge (hbest a ha b hb)⟩
  rw [hlen, length_map, RoutingTable.Len]

end GoI2pBt.Dht
