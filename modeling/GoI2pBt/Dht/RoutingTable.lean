/-
  The routing table, and the runs in which it stays valid.
-/
import GoI2pBt.Krpc.Node
import GoI2pBt.Lib.TopK

namespace GoI2pBt.Dht

open Krpc Metainfo List Function

def bktlen : ℕ := 160

def minute : ℤ := 60 * 10 ^ 9

def badTimeout : ℤ := minute * 20
def dubiousTimeout : ℤ := minute * 15

def zeroTime : ℤ := -62135596800 * 10 ^ 9

/-! ## Nodes -/

inductive NodeStatus where
  | good
  | dubious
  | bad
deriving DecidableEq

structure WrappedNode where
  node : Node
  lastChanged : ℤ
  ptr : ℕ
deriving DecidableEq

namespace WrappedNode

def IsBad (n : WrappedNode) (now : ℤ) : Bool := now - n.lastChanged > badTimeout

def Status (n : WrappedNode) (now : ℤ) : NodeStatus :=
  if now - n.lastChanged > badTimeout then .bad
  else if now - n.lastChanged > dubiousTimeout then .dubious
  else .good

end WrappedNode

/-! ## Buckets -/

inductive AddStatus where
  | nodeAdded
  | nodeNotAdded
  | nodeExistAndUpdated
  | nodeExistAndChanged
deriving DecidableEq

structure Bucket where
  nodes : List WrappedNode := []
  lastChanged : ℤ := zeroTime
  alloc : ℕ := 0
deriving DecidableEq

namespace Bucket

def touch (b : Bucket) (ptr : ℕ) (now : ℤ) : Bucket where
  nodes := b.nodes.map fun n => if n.ptr = ptr then { n with lastChanged := now } else n
  lastChanged := now
  alloc := b.alloc

def append (b : Bucket) (nodes : List WrappedNode) (n : Node) (now : ℤ) : Bucket where
  nodes := nodes ++ [⟨n, now, b.alloc⟩]
  lastChanged := now
  alloc := b.alloc + 1

def AddNode (net : Net) (k : ℕ) (b : Bucket) (n : Node) (now : ℤ) : Option (Bucket × AddStatus) :=
  match b.nodes.find? fun orig => orig.node.id = n.id with
  | some orig =>
    match orig.node.addr.Equal net n.addr with
    | none => none
    | some true => some (b.touch orig.ptr now, .nodeExistAndUpdated)
    | some false => some (b, .nodeExistAndChanged)
  | none =>
    if b.nodes.length < k then some (b.append b.nodes n now, .nodeAdded)
    else
      match b.nodes.findIdx? fun node => node.IsBad now with
      | some i =>
        -- the nodes after the bad one move down, and the last one stays where it is as well
        some (b.append (copyAt b.nodes i (b.nodes.drop (i + 1))) n now, .nodeAdded)
      | none => some (b, .nodeNotAdded)

def dubious (b : Bucket) (now : ℤ) : List Node :=
  (b.nodes.filter fun n => n.Status now = .dubious).map WrappedNode.node

def badIndexes (b : Bucket) (now : ℤ) : List ℕ := b.nodes.findIdxs fun n => n.Status now = .bad

def delNodesByIndex : List WrappedNode → List ℕ → List WrappedNode × Bool
  | nodes, [] => (nodes, true)
  | nodes, index :: indexes =>
    if index < nodes.length then delNodesByIndex (nodes.eraseIdx index) indexes
    else (nodes, false)

def due (b : Bucket) (now : ℤ) : Bool := b.nodes ≠ [] ∧ dubiousTimeout ≤ now - b.lastChanged

def CheckAllNodes (b : Bucket) (pinged : Bool) (now : ℤ) : Bucket × Bool :=
  if !b.due now then (b, true)
  else if !pinged then (b, false)
  else
    let (nodes, ok) := delNodesByIndex b.nodes (b.badIndexes now)
    ({ b with nodes }, ok)

end Bucket

/-! ## Bucket numbers -/

def topBit (v : UInt8) : Option ℕ :=
  if v &&& 0x80 > 0 then some 7
  else if v &&& 0x40 > 0 then some 6
  else if v &&& 0x20 > 0 then some 5
  else if v &&& 0x10 > 0 then some 4
  else if v &&& 0x08 > 0 then some 3
  else if v &&& 0x04 > 0 then some 2
  else if v &&& 0x02 > 0 then some 1
  else if v &&& 0x01 > 0 then some 0
  else none

def firstDiff (i : ℕ) : Bytes → ℕ × ℕ
  | [] => (i - 1, 0)
  | v :: vs =>
    match topBit v with
    | some bitDiff => (i, bitDiff)
    | none => firstDiff (i + 1) vs

theorem topBit_spec : ∀ v : UInt8, (topBit v = none → v = 0) ∧
    ∀ d ∈ topBit v, d < 8 ∧ 2 ^ d ≤ v.toNat ∧ v.toNat < 2 ^ (d + 1) := by
  decide +kernel

-- Equal ids are covered too: the loop then ends at the last byte, and the logarithm of 0 is 0.
theorem firstDiff_log {vs i} (h : 0 < i + vs.length) :
    (firstDiff i vs).1 * 8 + (7 - (firstDiff i vs).2) + Nat.log 2 (beNat vs) + 1 =
      8 * (i + vs.length) := by
  induction vs generalizing i with
  | nil =>
    change (i - 1) * 8 + 7 + Nat.log 2 0 + 1 = 8 * i
    change 0 < i at h
    rw [Nat.log_zero_right]
    omega
  | cons v vs ih =>
    rw [length_cons, firstDiff]
    split
    next d hv =>
      obtain ⟨hd, hlo, hhi⟩ := (topBit_spec v).2 d hv
      rw [log_beNat_cons hlo hhi]
      omega
    next hv =>
      rw [(topBit_spec v).1 hv, beNat_cons, UInt8.toNat_zero, zero_mul, zero_add, ih (by omega)]
      omega

def xorBytes (a b : Hash) : Bytes := zipWith (· ^^^ ·) a.bytes b.bytes

theorem length_xorBytes (a b : Hash) : (xorBytes a b).length = HashSize := by
  rw [xorBytes, length_zipWith, a.length_eq, b.length_eq, min_self]

def bucketid (ownerid nid : Hash) : Fin bktlen where
  val := (firstDiff 0 (xorBytes ownerid nid)).1 * 8 +
    (7 - (firstDiff 0 (xorBytes ownerid nid)).2)
  isLt := by
    have hlen := length_xorBytes ownerid nid
    have hpos : 0 < 0 + (xorBytes ownerid nid).length := by rw [hlen]; decide
    have hlog := firstDiff_log hpos
    rw [hlen, HashSize] at hlog
    rw [bktlen]
    omega

/-! ## The table -/

structure RoutingTable where
  k : ℕ
  ipv6 : Bool
  root : Hash
  bkts : Fin bktlen → Bucket

structure RoutingTableNode where
  node : Node
  lastChanged : ℤ

namespace RoutingTable

def empty (k : ℕ) (root : Hash) (ipv6 : Bool) : RoutingTable := ⟨k, ipv6, root, fun _ => {}⟩

def setBucket (rt : RoutingTable) (i : Fin bktlen) (b : Bucket) : RoutingTable :=
  { rt with bkts := update rt.bkts i b }

variable (net : Net)

def addNode (rt : RoutingTable) (n : Node) (now : ℤ) : Option (RoutingTable × AddStatus) :=
  match (rt.bkts (bucketid rt.root n.id)).AddNode net rt.k n now with
  | none => none
  | some (b, r) => some (rt.setBucket (bucketid rt.root n.id) b, r)

def AddNode (rt : RoutingTable) (n : Node) (now : ℤ) : Option (RoutingTable × AddStatus) :=
  if n.id = rt.root then some (rt, .nodeNotAdded) else rt.addNode net n now

def fresh (stored : List RoutingTableNode) (now : ℤ) : List RoutingTableNode :=
  stored.filter fun node => now - node.lastChanged < dubiousTimeout

def load (rt : RoutingTable) : List RoutingTableNode → Option RoutingTable
  | [] => some rt
  | node :: nodes =>
    match rt.addNode net node.node node.lastChanged with
    | none => none
    | some (rt, _) => rt.load nodes

def newRoutingTable (k : ℕ) (root : Hash) (ipv6 : Bool) (stored : List RoutingTableNode)
    (now : ℤ) : Option RoutingTable := (empty k root ipv6).load net (fresh stored now)

def checkBucket (rt : RoutingTable) (i : Fin bktlen) (pinged : Bool) (now : ℤ) : RoutingTable :=
  rt.setBucket i ((rt.bkts i).CheckAllNodes pinged now).1

def nodes (rt : RoutingTable) : List WrappedNode := (ofFn rt.bkts).flatMap Bucket.nodes

def Len (rt : RoutingTable) : ℕ := rt.nodes.length

/-! ## Validity -/

structure Valid (rt : RoutingTable) : Prop where
  small : ∀ i, (rt.bkts i).nodes.length ≤ rt.k
  nodup : (rt.nodes.map fun n => n.node.id).Nodup
  placed : ∀ i, ∀ n ∈ (rt.bkts i).nodes, bucketid rt.root n.node.id = i
  notRoot : ∀ n ∈ rt.nodes, n.node.id ≠ rt.root

end RoutingTable

namespace Bucket

def ids (b : Bucket) : List Hash := b.nodes.map fun n => n.node.id

structure ValidAt (b : Bucket) (k : ℕ) (root : Hash) (i : Fin bktlen) : Prop where
  small : b.nodes.length ≤ k
  nodup : b.ids.Nodup
  placed : ∀ id ∈ b.ids, bucketid root id = i
  notRoot : root ∉ b.ids

variable {net : Net} {k : ℕ} {root : Hash} {i : Fin bktlen} {b b' : Bucket} {n : Node} {now : ℤ}
  {r : AddStatus}

theorem ids_touch (b : Bucket) (ptr : ℕ) (now : ℤ) : (b.touch ptr now).ids = b.ids := by
  unfold ids touch
  rw [map_map]
  refine map_congr_left fun n _ => ?_
  change (if n.ptr = ptr then { n with lastChanged := now } else n).node.id = _
  split_ifs <;> rfl

theorem length_touch (b : Bucket) (ptr : ℕ) (now : ℤ) :
    (b.touch ptr now).nodes.length = b.nodes.length := length_map _

theorem ids_append (b : Bucket) (nodes : List WrappedNode) (n : Node) (now : ℤ) :
    (b.append nodes n now).ids = (nodes.map fun n => n.node.id) ++ [n.id] := by
  unfold ids append
  rw [map_append]
  rfl

theorem length_append (b : Bucket) (nodes : List WrappedNode) (n : Node) (now : ℤ) :
    (b.append nodes n now).nodes.length = nodes.length + 1 := by simp [append]

theorem addNode_cases (h : b.AddNode net k n now = some (b', r)) :
    (∃ orig ∈ b.nodes, orig.node.id = n.id ∧ orig.node.addr.Equal net n.addr = some true ∧
      b' = b.touch orig.ptr now ∧ r = .nodeExistAndUpdated) ∨
    (∃ orig ∈ b.nodes, orig.node.id = n.id ∧ orig.node.addr.Equal net n.addr = some false ∧
      b' = b ∧ r = .nodeExistAndChanged) ∨
    (n.id ∉ b.ids ∧ b.nodes.length < k ∧ b' = b.append b.nodes n now ∧ r = .nodeAdded) ∨
    (n.id ∉ b.ids ∧ k ≤ b.nodes.length ∧ (∃ j, j < b.nodes.length ∧
      b' = b.append (copyAt b.nodes j (b.nodes.drop (j + 1))) n now) ∧
      (∃ o ∈ b.nodes, o.IsBad now = true) ∧ r = .nodeAdded) ∨
    (n.id ∉ b.ids ∧ k ≤ b.nodes.length ∧ (∀ o ∈ b.nodes, o.IsBad now = false) ∧ b' = b ∧
      r = .nodeNotAdded) := by
  unfold AddNode at h
  split at h
  · rename_i orig hfind
    have hmem := mem_of_find?_eq_some hfind
    have hid : orig.node.id = n.id := of_decide_eq_true (find?_some hfind :)
    split at h
    · cases h
    · cases h
      exact .inl ⟨orig, hmem, hid, ‹_›, rfl, rfl⟩
    · cases h
      exact .inr (.inl ⟨orig, hmem, hid, ‹_›, rfl, rfl⟩)
  · rename_i hfind
    have hnew : n.id ∉ b.ids := by
      intro hmem
      obtain ⟨o, ho, hid⟩ := mem_map.1 hmem
      exact find?_eq_none.1 hfind o ho (decide_eq_true hid)
    split at h
    · cases h
      exact .inr (.inr (.inl ⟨hnew, ‹_›, rfl, rfl⟩))
    · rename_i hfull
      have hk : k ≤ b.nodes.length := Nat.le_of_not_lt hfull
      split at h
      · rename_i j hj
        cases h
        obtain ⟨hlt, hbad, -⟩ := findIdx?_eq_some_iff_getElem.1 hj
        exact .inr (.inr (.inr (.inl ⟨hnew, hk, ⟨j, hlt, rfl⟩, ⟨_, getElem_mem hlt, hbad⟩, rfl⟩)))
      · rename_i hnone
        cases h
        have hgood : ∀ o ∈ b.nodes, o.IsBad now = false := by
          simpa using findIdx?_eq_none_iff.1 hnone
        exact .inr (.inr (.inr (.inr ⟨hnew, hk, hgood, rfl, rfl⟩)))

theorem exists_addNode (h : ∀ o ∈ b.nodes, o.node.id = n.id → o.node.addr.Equal net n.addr ≠ none) :
    ∃ b' r, b.AddNode net k n now = some (b', r) := by
  unfold AddNode
  split
  · rename_i orig hfind
    have hid : orig.node.id = n.id := of_decide_eq_true (find?_some hfind :)
    split
    · exact absurd ‹_› (h orig (mem_of_find?_eq_some hfind) hid)
    · exact ⟨_, _, rfl⟩
    · exact ⟨_, _, rfl⟩
  · split
    · exact ⟨_, _, rfl⟩
    · split
      · exact ⟨_, _, rfl⟩
      · exact ⟨_, _, rfl⟩

def Replaces (b : Bucket) (k : ℕ) (n : Node) (now : ℤ) : Prop :=
  n.id ∉ b.ids ∧ k ≤ b.nodes.length ∧ ∃ o ∈ b.nodes, o.IsBad now = true

theorem length_copyAt_drop {l : List WrappedNode} {j : ℕ} (h : j < l.length) :
    (copyAt l j (l.drop (j + 1))).length = l.length := by
  simp only [copyAt, List.length_append, List.length_take, List.length_drop]
  omega

theorem addNode_validAt_iff (hb : b.ValidAt k root i) (hi : bucketid root n.id = i)
    (h : b.AddNode net k n now = some (b', r)) :
    b'.ValidAt k root i ↔ ¬ b.Replaces k n now ∧ (n.id = root → k ≤ b.nodes.length) := by
  rcases addNode_cases h with ⟨orig, hmem, hid, -, rfl, -⟩ | ⟨orig, hmem, hid, -, rfl, -⟩ |
    ⟨hnew, hlt, rfl, -⟩ | ⟨hnew, hk, ⟨j, hj, rfl⟩, hbad, -⟩ | ⟨hnew, hk, hgood, rfl, -⟩
  · have hn : n.id ∈ b.ids := mem_map.2 ⟨orig, hmem, hid⟩
    refine iff_of_true ⟨?_, ?_, ?_, ?_⟩ ⟨fun hr => hr.1 hn, fun hroot => ?_⟩
    · rw [length_touch]
      exact hb.small
    · rw [ids_touch]
      exact hb.nodup
    · rw [ids_touch]
      exact hb.placed
    · rw [ids_touch]
      exact hb.notRoot
    · exact absurd (hroot ▸ hn) hb.notRoot
  · have hn : n.id ∈ b'.ids := mem_map.2 ⟨orig, hmem, hid⟩
    exact iff_of_true hb ⟨fun hr => hr.1 hn, fun hroot => absurd (hroot ▸ hn) hb.notRoot⟩
  · have hids : (b.append b.nodes n now).ids = b.ids ++ [n.id] := ids_append b b.nodes n now
    constructor
    · intro hv
      refine ⟨fun hr => absurd hr.2.1 (by omega), fun hroot => ?_⟩
      exact absurd (by rw [hids, hroot]; simp) hv.notRoot
    · rintro ⟨-, hroot⟩
      refine ⟨?_, ?_, fun id hid => ?_, ?_⟩
      · rw [length_append]
        exact hlt
      · rw [hids]
        exact nodup_append.2 ⟨hb.nodup, nodup_singleton _, by
          rintro a ha c hc rfl
          exact hnew (mem_singleton.1 hc ▸ ha)⟩
      · rw [hids] at hid
        rcases mem_append.1 hid with hid | hid
        · exact hb.placed id hid
        · rw [mem_singleton.1 hid]
          exact hi
      · rw [hids]
        intro hmem
        rcases mem_append.1 hmem with hmem | hmem
        · exact hb.notRoot hmem
        · have := hroot (mem_singleton.1 hmem).symm
          omega
  · refine iff_of_false (fun hv => ?_) fun hr => hr.1 ⟨hnew, hk, hbad⟩
    have hsmall := hv.small
    rw [length_append, length_copyAt_drop hj] at hsmall
    omega
  · refine iff_of_true hb ⟨fun hr => ?_, fun _ => hk⟩
    obtain ⟨o, ho, hbad⟩ := hr.2.2
    rw [hgood o ho] at hbad
    cases hbad

theorem delNodesByIndex_sublist : ∀ (nodes : List WrappedNode) (indexes : List ℕ),
    (delNodesByIndex nodes indexes).1.Sublist nodes
  | _, [] => .refl _
  | _, index :: indexes => by
    rw [delNodesByIndex]
    split_ifs
    · exact (delNodesByIndex_sublist _ indexes).trans (eraseIdx_sublist _ _)
    · exact .refl _

theorem checkAllNodes_sublist (b : Bucket) (pinged : Bool) (now : ℤ) :
    (b.CheckAllNodes pinged now).1.nodes.Sublist b.nodes := by
  unfold CheckAllNodes
  split_ifs
  · exact .refl _
  · exact .refl _
  · exact delNodesByIndex_sublist _ _

theorem ValidAt.sublist (hb : b.ValidAt k root i) (h : b'.nodes.Sublist b.nodes) :
    b'.ValidAt k root i := by
  have hids : b'.ids.Sublist b.ids := h.map _
  exact ⟨h.length_le.trans hb.small, hb.nodup.sublist hids,
    fun id hid => hb.placed id (hids.subset hid), fun hroot => hb.notRoot (hids.subset hroot)⟩

end Bucket

namespace RoutingTable

variable {net : Net} {rt rt' : RoutingTable} {n : Node} {now : ℤ} {r : AddStatus}

variable {o : WrappedNode} {nodes : List RoutingTableNode} {i : Fin bktlen}

theorem mem_nodes : o ∈ rt.nodes ↔ ∃ i, o ∈ (rt.bkts i).nodes := by
  simp [nodes, mem_ofFn]

open Dht.Bucket

theorem valid_iff : rt.Valid ↔ ∀ i, (rt.bkts i).ValidAt rt.k rt.root i := by
  have hmap : (rt.nodes.map fun n => n.node.id) = (ofFn rt.bkts).flatMap ids := map_flatMap
  constructor
  · intro h i
    have hnodup := h.nodup
    rw [hmap, nodup_flatMap] at hnodup
    refine ⟨h.small i, hnodup.1 _ (mem_ofFn.2 ⟨i, rfl⟩), fun id hid => ?_, fun hroot => ?_⟩
    · obtain ⟨o, ho, rfl⟩ := mem_map.1 hid
      exact h.placed i o ho
    · obtain ⟨o, ho, hid⟩ := mem_map.1 hroot
      exact h.notRoot o (mem_nodes.2 ⟨i, ho⟩) hid
  · intro h
    refine ⟨fun i => (h i).small, ?_, fun i o ho => (h i).placed _ (mem_map_of_mem ho), ?_⟩
    · rw [hmap, nodup_flatMap]
      refine ⟨fun b hb => ?_, pairwise_ofFn.2 fun i j hij id hi hj => ?_⟩
      · obtain ⟨i, rfl⟩ := mem_ofFn.1 hb
        exact (h i).nodup
      · -- the ID decides the bucket
        exact hij.ne (((h i).placed id hi).symm.trans ((h j).placed id hj))
    · intro o ho hid
      obtain ⟨i, ho⟩ := mem_nodes.1 ho
      exact (h i).notRoot (hid ▸ mem_map_of_mem ho)

@[simp] theorem setBucket_self (rt : RoutingTable) (i : Fin bktlen) (b : Bucket) :
    (rt.setBucket i b).bkts i = b := by
  unfold setBucket
  exact update_self ..

theorem setBucket_of_ne {i j} (h : j ≠ i) (b : Bucket) : (rt.setBucket i b).bkts j = rt.bkts j := by
  unfold setBucket
  exact update_of_ne h ..

theorem valid_setBucket (hv : rt.Valid) (i : Fin bktlen) (b : Bucket) :
    (rt.setBucket i b).Valid ↔ b.ValidAt rt.k rt.root i := by
  rw [valid_iff] at hv ⊢
  constructor
  · intro h
    have hi := h i
    rwa [setBucket_self] at hi
  · intro hb j
    by_cases hj : j = i
    · subst hj
      rw [setBucket_self]
      exact hb
    · rw [setBucket_of_ne hj]
      exact hv j

theorem valid_empty (k : ℕ) (root : Hash) (ipv6 : Bool) : (empty k root ipv6).Valid :=
  valid_iff.2 fun _ => ⟨Nat.zero_le k, .nil, fun _ h => (nomatch h), fun h => nomatch h⟩

def bucketOf (rt : RoutingTable) (n : Node) : Bucket := rt.bkts (bucketid rt.root n.id)

theorem addNode_eq_some (h : rt.addNode net n now = some (rt', r)) :
    ∃ b, (rt.bucketOf n).AddNode net rt.k n now = some (b, r) ∧
      rt' = rt.setBucket (bucketid rt.root n.id) b := by
  unfold addNode at h
  split at h
  · cases h
  · rename_i b r' hb
    cases h
    exact ⟨b, hb, rfl⟩

theorem addNode_valid_iff (hv : rt.Valid) (h : rt.addNode net n now = some (rt', r)) :
    rt'.Valid ↔ ¬ (rt.bucketOf n).Replaces rt.k n now ∧
      (n.id = rt.root → rt.k ≤ (rt.bucketOf n).nodes.length) := by
  obtain ⟨b, hb, rfl⟩ := addNode_eq_some h
  rw [valid_setBucket hv]
  exact addNode_validAt_iff (valid_iff.1 hv _) rfl hb

/-! ## The nodes of a table -/

theorem mem_setBucket {b} (h : o ∈ (rt.setBucket i b).nodes) : o ∈ b.nodes ∨ o ∈ rt.nodes := by
  obtain ⟨j, hj⟩ := mem_nodes.1 h
  by_cases hij : j = i
  · subst hij
    rw [setBucket_self] at hj
    exact .inl hj
  · rw [setBucket_of_ne hij] at hj
    exact .inr (mem_nodes.2 ⟨j, hj⟩)

theorem mem_copyAt_drop {l j} (h : o ∈ copyAt l j (l.drop (j + 1))) : o ∈ l := by
  simp only [copyAt, mem_append] at h
  rcases h with (h | h) | h
  · exact mem_of_mem_take h
  · exact mem_of_mem_drop (mem_of_mem_take h)
  · exact mem_of_mem_drop h

theorem mem_addNode (h : rt.addNode net n now = some (rt', r))
    (ho : o ∈ rt'.nodes) : o.node = n ∨ ∃ o' ∈ rt.nodes, o.node = o'.node := by
  obtain ⟨b, hadd, rfl⟩ := addNode_eq_some h
  have hold : ∀ o' ∈ (rt.bucketOf n).nodes, o' ∈ rt.nodes := fun o' ho' => mem_nodes.2 ⟨_, ho'⟩
  have happend : ∀ {l : List WrappedNode}, (∀ o' ∈ l, o' ∈ rt.nodes) →
      o ∈ ((rt.bucketOf n).append l n now).nodes → o.node = n ∨ ∃ o' ∈ rt.nodes, o.node = o'.node := by
    intro l hl ho
    rcases mem_append.1 ho with ho | ho
    · exact .inr ⟨o, hl o ho, rfl⟩
    · rw [mem_singleton.1 ho]
      exact .inl rfl
  rcases mem_setBucket ho with ho | ho
  swap
  · exact .inr ⟨o, ho, rfl⟩
  rcases addNode_cases hadd with ⟨orig, -, -, -, rfl, -⟩ | ⟨orig, -, -, -, rfl, -⟩ |
    ⟨-, -, rfl, -⟩ | ⟨-, -, ⟨j, -, rfl⟩, -⟩ | ⟨-, -, -, rfl, -⟩
  · obtain ⟨o', ho', rfl⟩ := mem_map.1 ho
    refine .inr ⟨o', hold o' ho', ?_⟩
    split_ifs <;> rfl
  · exact .inr ⟨o, hold o ho, rfl⟩
  · exact happend hold ho
  · exact happend (fun o' ho' => hold o' (mem_copyAt_drop ho')) ho
  · exact .inr ⟨o, hold o ho, rfl⟩

theorem mem_AddNode (h : rt.AddNode net n now = some (rt', r))
    (ho : o ∈ rt'.nodes) : o.node = n ∨ ∃ o' ∈ rt.nodes, o.node = o'.node := by
  unfold AddNode at h
  split_ifs at h
  · cases h
    exact .inr ⟨o, ho, rfl⟩
  · exact mem_addNode h ho

theorem exists_AddNode
    (h : ∀ o ∈ rt.nodes, o.node.id = n.id → o.node.addr.Equal net n.addr ≠ none) :
    ∃ rt' r, rt.AddNode net n now = some (rt', r) := by
  unfold AddNode
  split_ifs
  · exact ⟨_, _, rfl⟩
  · obtain ⟨b, r, hb⟩ : ∃ b r, (rt.bucketOf n).AddNode net rt.k n now = some (b, r) :=
      exists_addNode fun o ho => h o (mem_nodes.2 ⟨_, ho⟩)
    refine ⟨rt.setBucket (bucketid rt.root n.id) b, r, ?_⟩
    unfold addNode
    unfold bucketOf at hb
    rw [hb]

theorem mem_of_changed (h : rt.AddNode net n now = some (rt', .nodeExistAndChanged)) :
    ∃ o ∈ rt.nodes, o.node.id = n.id ∧ o.node.addr.Equal net n.addr = some false := by
  unfold AddNode at h
  split_ifs at h
  · cases h
  · obtain ⟨b, hadd, -⟩ := addNode_eq_some h
    rcases addNode_cases hadd with ⟨-, -, -, -, -, hr⟩ | ⟨orig, ho, hid, heq, -, -⟩ |
      ⟨-, -, -, hr⟩ | ⟨-, -, -, -, hr⟩ | ⟨-, -, -, -, hr⟩
    · cases hr
    · exact ⟨orig, mem_nodes.2 ⟨_, ho⟩, hid, heq⟩
    · cases hr
    · cases hr
    · cases hr

theorem mem_checkBucket {pinged} (h : o ∈ (rt.checkBucket i pinged now).nodes) : o ∈ rt.nodes := by
  rcases mem_setBucket h with h | h
  · exact mem_nodes.2 ⟨i, (checkAllNodes_sublist _ pinged now).subset h⟩
  · exact h

theorem mem_load (h : rt.load net nodes = some rt') (ho : o ∈ rt'.nodes) :
    (∃ n ∈ nodes, o.node = n.node) ∨ ∃ o' ∈ rt.nodes, o.node = o'.node := by
  induction nodes generalizing rt with
  | nil =>
    cases h
    exact .inr ⟨o, ho, rfl⟩
  | cons n nodes ih =>
    rw [load] at h
    split at h
    · cases h
    · rename_i rt1 r hadd
      rcases ih h with ⟨n', hn', heq⟩ | ⟨o', ho', heq⟩
      · exact .inl ⟨n', mem_cons_of_mem _ hn', heq⟩
      · rcases mem_addNode hadd ho' with hnew | ⟨o'', ho'', heq'⟩
        · exact .inl ⟨n, mem_cons_self, heq.trans hnew⟩
        · exact .inr ⟨o'', ho'', heq.trans heq'⟩

theorem mem_newRoutingTable {k root ipv6 stored}
    (h : newRoutingTable net k root ipv6 stored now = some rt)
    (ho : o ∈ rt.nodes) : ∃ n ∈ stored, o.node = n.node := by
  rcases mem_load h ho with ⟨n, hn, heq⟩ | ⟨o', ho', -⟩
  · exact ⟨n, mem_of_mem_filter hn, heq⟩
  · obtain ⟨i, hi⟩ := mem_nodes.1 ho'
    cases hi

/-! ## Loading -/

def LoadOk (net : Net) : RoutingTable → List RoutingTableNode → Prop
  | _, [] => True
  | rt, node :: nodes =>
    match rt.addNode net node.node node.lastChanged with
    | none => True
    | some (rt', _) =>
      (¬ (rt.bucketOf node.node).Replaces rt.k node.node node.lastChanged ∧
        (node.node.id = rt.root → rt.k ≤ (rt.bucketOf node.node).nodes.length)) ∧
      LoadOk net rt' nodes

def Broken (rt : RoutingTable) : Prop :=
  ∃ i, rt.k < (rt.bkts i).nodes.length ∨ rt.root ∈ (rt.bkts i).ids

theorem Broken.not_valid (h : rt.Broken) : ¬ rt.Valid := by
  intro hv
  obtain ⟨i, hlt | hroot⟩ := h
  · exact absurd (hv.small i) (by omega)
  · exact (valid_iff.1 hv i).notRoot hroot

theorem broken_setBucket {b}
    (h : rt.k < b.nodes.length ∨ rt.root ∈ b.ids) : (rt.setBucket i b).Broken :=
  ⟨i, by rw [setBucket_self]; exact h⟩

theorem Broken.addNode (hb : rt.Broken) (h : rt.addNode net n now = some (rt', r)) :
    rt'.Broken := by
  obtain ⟨b, hadd, rfl⟩ := addNode_eq_some h
  obtain ⟨i, hi⟩ := hb
  by_cases hne : i = bucketid rt.root n.id
  swap
  · exact ⟨i, by rw [setBucket_of_ne hne]; exact hi⟩
  subst hne
  refine broken_setBucket ?_
  rcases Bucket.addNode_cases hadd with ⟨orig, -, -, -, rfl, -⟩ | ⟨orig, -, -, -, rfl, -⟩ |
    ⟨-, -, rfl, -⟩ | ⟨-, hk, ⟨j, hj, rfl⟩, -, -⟩ | ⟨-, -, -, rfl, -⟩
  · rw [Bucket.length_touch, Bucket.ids_touch]
    exact hi
  · exact hi
  · rw [Bucket.length_append, Bucket.ids_append]
    exact hi.imp Nat.lt_succ_of_lt (mem_append_left _)
  · rw [Bucket.length_append, Bucket.length_copyAt_drop hj]
    exact .inl (Nat.lt_succ_of_le hk)
  · exact hi

theorem Broken.load (hb : rt.Broken) (h : rt.load net nodes = some rt') : rt'.Broken := by
  induction nodes generalizing rt with
  | nil =>
    cases h
    exact hb
  | cons node nodes ih =>
    rw [RoutingTable.load] at h
    split at h
    · cases h
    · rename_i rt1 r hadd
      exact ih (hb.addNode hadd) h

theorem broken_of_addNode (hv : rt.Valid) (h : rt.addNode net n now = some (rt', r))
    (hn : ¬ rt'.Valid) : rt'.Broken := by
  obtain ⟨b, hadd, rfl⟩ := addNode_eq_some h
  refine broken_setBucket ?_
  have hb := valid_iff.1 hv (bucketid rt.root n.id)
  rw [valid_setBucket hv] at hn
  have hiff := Bucket.addNode_validAt_iff hb rfl hadd
  rcases Bucket.addNode_cases hadd with ⟨orig, hmem, hid, -⟩ | ⟨orig, -, -, -, rfl, -⟩ |
    ⟨-, hlt, rfl, -⟩ | ⟨-, hk, ⟨j, hj, rfl⟩, -⟩ | ⟨-, -, -, rfl, -⟩
  · have hids : n.id ∈ (rt.bucketOf n).ids := mem_map.2 ⟨orig, hmem, hid⟩
    refine absurd (hiff.2 ⟨fun hr => hr.1 hids, fun hroot => ?_⟩) hn
    rw [hroot] at hids
    exact absurd hids hb.notRoot
  · exact absurd hb hn
  · by_cases hroot : n.id = rt.root
    · right
      rw [Bucket.ids_append, hroot]
      exact mem_append_right _ (mem_singleton_self _)
    · refine absurd (hiff.2 ⟨fun hr => ?_, fun h => absurd h hroot⟩) hn
      exact absurd hr.2.1 (Nat.not_le_of_lt hlt)
  · rw [Bucket.length_append, Bucket.length_copyAt_drop hj]
    exact .inl (Nat.lt_succ_of_le hk)
  · exact absurd hb hn

theorem load_valid_iff (hv : rt.Valid)
    (h : rt.load net nodes = some rt') : rt'.Valid ↔ LoadOk net rt nodes := by
  induction nodes generalizing rt with
  | nil =>
    cases h
    exact iff_of_true hv trivial
  | cons node nodes ih =>
    rw [load] at h
    rw [LoadOk]
    cases hadd : rt.addNode net node.node node.lastChanged with
    | none =>
      rw [hadd] at h
      cases h
    | some p =>
      obtain ⟨rt1, r⟩ := p
      rw [hadd] at h
      dsimp only at h ⊢
      rw [← addNode_valid_iff hv hadd]
      by_cases hv1 : rt1.Valid
      · rw [ih hv1 h]
        exact (and_iff_right hv1).symm
      · have hbroken := (broken_of_addNode hv hadd hv1).load h
        exact iff_of_false hbroken.not_valid fun hok => hv1 hok.1

/-! ## Runs -/

inductive Op where
  | add (n : Node) (now : ℤ)
  | check (i : Fin bktlen) (pinged : Bool) (now : ℤ)

def Op.apply (net : Net) (rt : RoutingTable) : Op → Option RoutingTable
  | .add n now => (rt.AddNode net n now).map Prod.fst
  | .check i pinged now => some (rt.checkBucket i pinged now)

def Op.Ok (rt : RoutingTable) : Op → Prop
  | .add n now => n.id = rt.root ∨ ¬ (rt.bucketOf n).Replaces rt.k n now
  | .check _ _ _ => True

theorem apply_valid_iff (hv : rt.Valid) {op : Op} (h : op.apply net rt = some rt') :
    rt'.Valid ↔ op.Ok rt := by
  cases op with
  | add n now =>
    obtain ⟨⟨rt1, r⟩, hadd, rfl⟩ := Option.map_eq_some_iff.1 h
    unfold AddNode at hadd
    split_ifs at hadd with hroot
    · cases hadd
      exact iff_of_true hv (.inl hroot)
    · rw [addNode_valid_iff hv hadd]
      simp only [Op.Ok, hroot, false_or, false_imp_iff, and_true]
  | check i pinged now =>
    cases h
    refine iff_of_true ?_ trivial
    exact (valid_setBucket hv i _).2
      ((valid_iff.1 hv i).sublist (checkAllNodes_sublist _ pinged now))

def trace (net : Net) : RoutingTable → List Op → List RoutingTable
  | rt, [] => [rt]
  | rt, op :: ops =>
    rt :: match op.apply net rt with
      | none => []
      | some rt' => trace net rt' ops

def RunOk (net : Net) : RoutingTable → List Op → Prop
  | _, [] => True
  | rt, op :: ops =>
    match op.apply net rt with
    | none => True
    | some rt' => op.Ok rt ∧ RunOk net rt' ops

theorem self_mem_trace (rt : RoutingTable) (ops : List Op) : rt ∈ trace net rt ops := by
  cases ops <;> exact mem_cons_self

theorem trace_valid_iff (hv : rt.Valid) (ops : List Op) :
    (∀ t ∈ trace net rt ops, t.Valid) ↔ RunOk net rt ops := by
  induction ops generalizing rt with
  | nil => exact iff_of_true (fun t ht => mem_singleton.1 ht ▸ hv) trivial
  | cons op ops ih =>
    rw [trace, RunOk, forall_mem_cons]
    cases hop : op.apply net rt with
    | none => exact iff_of_true ⟨hv, fun t ht => nomatch ht⟩ trivial
    | some rt' =>
      dsimp only
      constructor
      · rintro ⟨-, hall⟩
        have hv' : rt'.Valid := hall rt' (self_mem_trace rt' ops)
        exact ⟨(apply_valid_iff hv hop).1 hv', (ih hv').1 hall⟩
      · rintro ⟨hok, hrun⟩
        exact ⟨hv, (ih ((apply_valid_iff hv hop).2 hok)).2 hrun⟩

/-- **When the table is valid throughout a run.** -/
theorem valid_run_iff {k : ℕ} {root : Hash} {ipv6 : Bool} {stored : List RoutingTableNode}
    (h : newRoutingTable net k root ipv6 stored now = some rt) (ops : List Op) :
    (∀ t ∈ trace net rt ops, t.Valid) ↔
      LoadOk net (empty k root ipv6) (fresh stored now) ∧ RunOk net rt ops := by
  have hload := load_valid_iff (valid_empty k root ipv6) h
  constructor
  · intro hall
    have hv := hall rt (self_mem_trace rt ops)
    exact ⟨hload.1 hv, (trace_valid_iff hv ops).1 hall⟩
  · rintro ⟨hok, hrun⟩
    exact (trace_valid_iff (hload.2 hok) ops).2 hrun

def sampleNode (x : UInt8) : Node := NewNode (.ofBytes [x]) [1, 2, 3, x] 6881

def sampleStored : List RoutingTableNode := [⟨sampleNode 1, 5⟩, ⟨sampleNode 64, 6⟩]

def loadedTable : RoutingTable :=
  (newRoutingTable Address.sampleNet 8 .zero false sampleStored 7).getD (empty 8 .zero false)

def sampleOps : List Op := [.add (sampleNode 128) 7, .add (sampleNode 129) 8,
  .check ⟨0, by decide⟩ true 9, .add (sampleNode 128) 10]

theorem valid_run_sample :
    newRoutingTable Address.sampleNet 8 .zero false sampleStored 7 = some loadedTable ∧
      ∀ t ∈ trace Address.sampleNet loadedTable sampleOps, t.Valid := by
  have hnew : newRoutingTable Address.sampleNet 8 .zero false sampleStored 7 = some loadedTable :=
    rfl
  refine ⟨hnew, (valid_run_iff hnew sampleOps).2 ⟨?_, ?_⟩⟩
  · refine ⟨⟨fun h => ?_, fun h => ?_⟩, ⟨fun h => ?_, fun h => ?_⟩, trivial⟩
    · exact absurd h.2.1 (by decide +kernel)
    · exact absurd h (by decide +kernel)
    · exact absurd h.2.1 (by decide +kernel)
    · exact absurd h (by decide +kernel)
  · refine ⟨.inr fun h => ?_, .inr fun h => ?_, trivial, .inr fun h => ?_, trivial⟩
    all_goals exact absurd h.2.1 (by decide +kernel)

theorem invalid_run : (∃ rt, newRoutingTable Address.sampleNet 2 .zero false [] 0 = some rt ∧
      ∃ t ∈ trace Address.sampleNet rt [.add (sampleNode 128) 0, .add (sampleNode 129) 1,
          .add (sampleNode 130) (21 * minute)],
        (t.bkts ⟨0, by decide⟩).ids = [.ofBytes [129], .ofBytes [129], .ofBytes [130]] ∧ ¬ t.Valid) ∧
    (∃ rt, newRoutingTable Address.sampleNet 8 .zero false [⟨⟨.zero, (sampleNode 0).addr⟩, 0⟩] 0 =
        some rt ∧ (rt.bkts ⟨159, by decide⟩).ids = [rt.root] ∧ ¬ rt.Valid) := by
  refine ⟨⟨_, rfl, _, List.mem_cons_of_mem _ (List.mem_cons_of_mem _ (List.mem_cons_of_mem _
    (List.mem_singleton_self _))), ?_, ?_⟩, ⟨_, rfl, ?_, ?_⟩⟩
  · decide +kernel
  · intro hv
    exact absurd (hv.small ⟨0, by decide⟩) (by decide +kernel)
  · decide +kernel
  · intro hv
    exact absurd ((valid_iff.1 hv ⟨159, by decide⟩).notRoot) (by decide +kernel)

end RoutingTable

end GoI2pBt.Dht
