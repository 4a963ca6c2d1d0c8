/-
  The values of canonical texts; a text has one value.
-/
import GoI2pBt.Bencode.Generic

namespace GoI2pBt.Bencode

open List Bencode.Tree Value

variable {outs : List Bytes} {es : List (Bytes × Value)}

/-! ## Canonical texts -/

namespace Value

mutual

def Sorted : Value → Prop
  | .int _ => True
  | .str _ => True
  | .list vs => SortedItems vs
  | .dict es => KeysLt es ∧ SortedEntries es

def SortedItems : List Value → Prop
  | [] => True
  | v :: vs => v.Sorted ∧ SortedItems vs

def SortedEntries : List (Bytes × Value) → Prop
  | [] => True
  | (_, v) :: es => v.Sorted ∧ SortedEntries es

end

end Value

def IsCanonical (b : Bytes) : Prop := ∃ v : Value, v.Sorted ∧ b = v.tree.bytes

/-! ## Well-bracketed texts -/

inductive Node where
  | int (i : ℤ)
  | str (c : Bytes)
  | seq (isDict : Bool) (items : List Node)

namespace Node

mutual

def bytes : Node → Bytes
  | .int i => encodeInt (formatInt i)
  | .str c => encodeStr c
  | .seq isDict ns => (if isDict then ch 'd' else ch 'l') :: (forestBytes ns ++ [ch 'e'])

def forestBytes : List Node → Bytes
  | [] => []
  | n :: ns => n.bytes ++ forestBytes ns

end

theorem forestBytes_eq (ns : List Node) : forestBytes ns = (ns.map bytes).flatten := by
  induction ns with
  | nil => rfl
  | cons n ns ih => simp [forestBytes, ih]

theorem encodeStr_inj {c c' s s'} (h : encodeStr c ++ s = encodeStr c' ++ s') :
    c = c' ∧ s = s' := by
  simp only [encodeStr, append_assoc, cons_append] at h
  obtain ⟨hlen, h⟩ := append_delim_inj (notMem_formatUint (by decide) _)
    (notMem_formatUint (by decide) _) h
  exact append_inj h (formatUint_injective hlen)

theorem encodeInt_inj {i j s s'}
    (h : encodeInt (formatInt i) ++ s = encodeInt (formatInt j) ++ s') : i = j ∧ s = s' := by
  simp only [encodeInt, cons_append, append_assoc, cons.injEq, true_and, nil_append] at h
  obtain ⟨hd, hs⟩ := append_delim_inj (notMem_formatInt (by decide) (by decide) _)
    (notMem_formatInt (by decide) (by decide) _) h
  exact ⟨formatInt_injective hd, hs⟩

theorem encodeStr_head (c : Bytes) : ∃ b l, encodeStr c = b :: l ∧ IsDigit b := by
  obtain ⟨b, l, h, hb⟩ := formatUint_head c.length
  exact ⟨b, l ++ ch ':' :: c, by simp [encodeStr, h], hb⟩

theorem encodeStr_ne_cons {c s l : Bytes} {b : UInt8} (hb : ¬ IsDigit b) :
    encodeStr c ++ s ≠ b :: l := by
  obtain ⟨b', l', h, hd⟩ := encodeStr_head c
  rw [h, cons_append]
  intro he
  exact hb ((cons.inj he).1 ▸ hd)

theorem head_ne_end (n : Node) (s s' : Bytes) : n.bytes ++ s ≠ ch 'e' :: s' := by
  cases n with
  | int i => exact fun h => absurd (cons.inj h).1 (by decide)
  | str c => exact encodeStr_ne_cons (by decide)
  | seq isDict ns => cases isDict <;> exact fun h => absurd (cons.inj h).1 (by decide)

mutual

theorem bytes_inj : ∀ {n m : Node} {s s' : Bytes}, n.bytes ++ s = m.bytes ++ s' → n = m ∧ s = s'
  | .int i, m, _, _, h => by
    cases m with
    | int j => obtain ⟨rfl, rfl⟩ := encodeInt_inj h; exact ⟨rfl, rfl⟩
    | str c => exact absurd h.symm (encodeStr_ne_cons (by decide))
    | seq isDict ms => cases isDict <;> exact absurd (cons.inj h).1 (by decide)
  | .str c, m, _, _, h => by
    cases m with
    | str c' => obtain ⟨rfl, rfl⟩ := encodeStr_inj h; exact ⟨rfl, rfl⟩
    | int j => exact absurd h (encodeStr_ne_cons (by decide))
    | seq isDict ms => cases isDict <;> exact absurd h (encodeStr_ne_cons (by decide))
  | .seq isDict ns, m, _, _, h => by
    cases m with
    | int j => cases isDict <;> exact absurd (cons.inj h).1 (by decide)
    | str c => cases isDict <;> exact absurd h.symm (encodeStr_ne_cons (by decide))
    | seq isDict' ms =>
      simp only [bytes, append_assoc, cons_append, nil_append, cons.injEq] at h
      obtain ⟨hhead, htail⟩ := h
      obtain ⟨rfl, rfl⟩ := forestBytes_inj htail
      have : isDict = isDict' := by
        cases isDict <;> cases isDict' <;> first | rfl | exact absurd hhead (by decide)
      exact ⟨by rw [this], rfl⟩

theorem forestBytes_inj : ∀ {ns ms : List Node} {s s' : Bytes},
    forestBytes ns ++ ch 'e' :: s = forestBytes ms ++ ch 'e' :: s' → ns = ms ∧ s = s'
  | [], ms, _, _, h => by
    cases ms with
    | nil => simpa [forestBytes] using h
    | cons m ms =>
      simp only [forestBytes, append_assoc, nil_append] at h
      exact absurd h.symm (head_ne_end m _ _)
  | n :: ns, ms, _, _, h => by
    cases ms with
    | nil =>
      simp only [forestBytes, append_assoc, nil_append] at h
      exact absurd h (head_ne_end n _ _)
    | cons m ms =>
      simp only [forestBytes, append_assoc] at h
      obtain ⟨rfl, h'⟩ := bytes_inj h
      obtain ⟨rfl, rfl⟩ := forestBytes_inj h'
      exact ⟨rfl, rfl⟩

end

end Node

def IsNode (b : Bytes) : Prop := ∃ n : Node, b = n.bytes

/-! ## The node of a value -/

namespace Value

mutual

def node : Value → Node
  | .int i => .int i
  | .str s => .str s
  | .list vs => .seq false (nodes vs)
  | .dict es => .seq true (entryNodes es)

def nodes : List Value → List Node
  | [] => []
  | v :: vs => v.node :: nodes vs

def entryNodes : List (Bytes × Value) → List Node
  | [] => []
  | (k, v) :: es => .str k :: v.node :: entryNodes es

end

mutual

theorem node_bytes : ∀ v : Value, v.node.bytes = v.tree.bytes
  | .int i => rfl
  | .str s => rfl
  | .list vs => by simp [node, Node.bytes, tree, Tree.bytes, nodes_bytes vs]
  | .dict es => by simp [node, Node.bytes, tree, Tree.bytes, entryNodes_bytes es]

theorem nodes_bytes : ∀ vs : List Value, Node.forestBytes (nodes vs) = itemsBytes (trees vs)
  | [] => rfl
  | v :: vs => by simp [nodes, Node.forestBytes, trees, itemsBytes, node_bytes v, nodes_bytes vs]

theorem entryNodes_bytes : ∀ es : List (Bytes × Value),
    Node.forestBytes (entryNodes es) = entriesBytes (entryTrees es)
  | [] => rfl
  | (k, v) :: es => by
    simp [entryNodes, Node.forestBytes, Node.bytes, encodeStr, entryTrees, entriesBytes,
      node_bytes v, entryNodes_bytes es]

end

end Value

theorem IsCanonical.isNode {b} (h : IsCanonical b) : IsNode b := by
  obtain ⟨v, -, rfl⟩ := h
  exact ⟨v.node, (node_bytes v).symm⟩

theorem IsNode.ne_nil {b} (h : IsNode b) : b ≠ [] := by
  obtain ⟨n, rfl⟩ := h
  cases n with
  | int i => simp [Node.bytes, encodeInt]
  | str c => obtain ⟨b, l, h, -⟩ := Node.encodeStr_head c; simp [Node.bytes, h]
  | seq isDict ns => simp [Node.bytes]

theorem node_inj {n m : Node} (h : n.bytes = m.bytes) : n = m := by
  have : n.bytes ++ [] = m.bytes ++ [] := by rw [h]
  exact (Node.bytes_inj this).1

theorem encodeStr_injective : Function.Injective encodeStr := fun c c' h => by
  have : encodeStr c ++ [] = encodeStr c' ++ [] := by rw [h]
  exact (Node.encodeStr_inj this).1

theorem isCanonical_str (c : Bytes) : IsCanonical (encodeStr c) := ⟨.str c, trivial, rfl⟩

theorem isCanonical_int (i : ℤ) : IsCanonical (encodeInt (formatInt i)) := ⟨.int i, trivial, rfl⟩

/-! ## Lists -/

theorem Value.mem_nodes {n vs} (h : n ∈ nodes vs)
    (hs : SortedItems vs) : ∃ v : Value, v.Sorted ∧ v.node = n := by
  induction vs with
  | nil => simp [nodes] at h
  | cons v vs ih =>
    rcases mem_cons.1 h with rfl | h
    · exact ⟨v, hs.1, rfl⟩
    · exact ih h hs.2

theorem exists_forest (h : ∀ b ∈ outs, b = [] ∨ IsNode b) :
    ∃ ns, Node.forestBytes ns = outs.flatten ∧ ∀ b ∈ outs, b ≠ [] → ∃ n ∈ ns, n.bytes = b := by
  induction outs with
  | nil => exact ⟨[], rfl, by simp⟩
  | cons b outs ih =>
    obtain ⟨ns, hns, hmem⟩ := ih fun c hc => h c (mem_cons_of_mem _ hc)
    rcases h b mem_cons_self with rfl | ⟨n, rfl⟩
    · refine ⟨ns, by simp [hns], fun c hc hne => ?_⟩
      rcases mem_cons.1 hc with rfl | hc
      · exact absurd rfl hne
      · exact hmem c hc hne
    · refine ⟨n :: ns, by simp [Node.forestBytes, hns], fun c hc hne => ?_⟩
      rcases mem_cons.1 hc with rfl | hc
      · exact ⟨n, mem_cons_self, rfl⟩
      · obtain ⟨m, hm, rfl⟩ := hmem c hc hne
        exact ⟨m, mem_cons_of_mem _ hm, rfl⟩

theorem isNode_list (h : ∀ b ∈ outs, b = [] ∨ IsNode b) :
    IsNode (ch 'l' :: (outs.flatten ++ [ch 'e'])) := by
  obtain ⟨ns, hns, -⟩ := exists_forest h
  exact ⟨.seq false ns, by simp [Node.bytes, hns]⟩

theorem exists_items (h : ∀ b ∈ outs, b = [] ∨ IsCanonical b) :
    ∃ vs, SortedItems vs ∧ itemsBytes (trees vs) = outs.flatten := by
  induction outs with
  | nil => exact ⟨[], trivial, rfl⟩
  | cons b outs ih =>
    obtain ⟨vs, hvs, hb⟩ := ih fun c hc => h c (mem_cons_of_mem _ hc)
    rcases h b mem_cons_self with rfl | ⟨v, hv, rfl⟩
    · exact ⟨vs, hvs, by simp [hb]⟩
    · exact ⟨v :: vs, ⟨hv, hvs⟩, by simp [trees, itemsBytes, hb]⟩

theorem isCanonical_list (h : ∀ b ∈ outs, b = [] ∨ IsNode b) :
    IsCanonical (ch 'l' :: (outs.flatten ++ [ch 'e'])) ↔ ∀ b ∈ outs, b = [] ∨ IsCanonical b := by
  constructor
  · rintro ⟨w, hw, hb⟩ b hmem
    obtain ⟨ns, hns, hall⟩ := exists_forest h
    have hnode : w.node = .seq false ns := node_inj (by
      rw [node_bytes, ← hb, Node.bytes, hns]; rfl)
    by_cases hne : b = []
    · exact .inl hne
    · obtain ⟨n, hn, rfl⟩ := hall b hmem hne
      cases w with
      | list vs =>
        simp only [node, Node.seq.injEq, true_and] at hnode
        obtain ⟨v, hv, rfl⟩ := mem_nodes (hnode ▸ hn) hw
        exact .inr ⟨v, hv, node_bytes v⟩
      | int | str | dict => simp [node] at hnode
  · intro hall
    obtain ⟨vs, hvs, hb⟩ := exists_items hall
    exact ⟨.list vs, hvs, by simp [tree, Tree.bytes, hb]⟩

/-! ## Dictionaries -/

def Paired (last : Option Bytes) : List Bytes → Prop
  | [] => True
  | [_] => False
  | k :: _ :: rest => ∃ key, k = encodeStr key ∧ (∀ l ∈ last, l < key) ∧ Paired (some key) rest

theorem isNode_dict {items : List Bytes} (h : ∀ b ∈ items, IsNode b) :
    IsNode (ch 'd' :: (items.flatten ++ [ch 'e'])) := by
  obtain ⟨ns, hns, -⟩ := exists_forest fun b hb => .inr (h b hb)
  exact ⟨.seq true ns, by simp [Node.bytes, hns]⟩

theorem exists_nodes {items} (h : ∀ b ∈ items, IsNode b) :
    ∃ ns : List Node, items = ns.map Node.bytes := by
  induction items with
  | nil => exact ⟨[], rfl⟩
  | cons b items ih =>
    obtain ⟨ns, rfl⟩ := ih fun c hc => h c (mem_cons_of_mem _ hc)
    obtain ⟨n, rfl⟩ := h b mem_cons_self
    exact ⟨n :: ns, rfl⟩

theorem paired_entryNodes {last} (h : KeysLt es) (hl : ∀ l ∈ last, ∀ e ∈ es, l < e.1) :
    Paired last ((entryNodes es).map Node.bytes) := by
  induction es generalizing last with
  | nil => trivial
  | cons e es ih =>
    obtain ⟨k, v⟩ := e
    refine ⟨k, rfl, fun l hl' => hl l hl' (k, v) mem_cons_self, ih h.of_cons ?_⟩
    intro l hl' e he
    cases hl'
    exact rel_of_pairwise_cons h he

theorem canonical_entryNodes (h : SortedEntries es) :
    ∀ b ∈ (entryNodes es).map Node.bytes, IsCanonical b := by
  induction es with
  | nil => simp [entryNodes]
  | cons e es ih =>
    obtain ⟨k, v⟩ := e
    intro b hb
    simp only [entryNodes, map_cons, mem_cons] at hb
    rcases hb with rfl | rfl | hb
    · exact isCanonical_str k
    · exact ⟨v, h.1, node_bytes v⟩
    · exact ih h.2 b hb

theorem exists_entries : ∀ {last : Option Bytes} {items : List Bytes}, Paired last items →
    (∀ b ∈ items, IsCanonical b) →
    ∃ es, KeysLt es ∧ (∀ l ∈ last, ∀ e ∈ es, l < e.1) ∧ SortedEntries es ∧
      entriesBytes (entryTrees es) = items.flatten
  | _, [], _, _ => ⟨[], Pairwise.nil, by simp, trivial, rfl⟩
  | _, [_], h, _ => h.elim
  | _, k :: x :: rest, h, hc => by
    obtain ⟨key, rfl, hl, hp⟩ := h
    obtain ⟨v, hv, rfl⟩ := hc x (by simp)
    obtain ⟨es, hes, hlt, hs, hb⟩ := exists_entries hp fun b hb => hc b (by simp [hb])
    refine ⟨(key, v) :: es, hes.cons fun e he => hlt key rfl e he, ?_, ⟨hv, hs⟩, ?_⟩
    · intro l hl' e he
      rcases List.mem_cons.1 he with rfl | he
      · exact hl l hl'
      · exact List.lt_trans (hl l hl') (hlt key rfl e he)
    · simp [entryTrees, entriesBytes, encodeStr, hb]

theorem isCanonical_dict (items : List Bytes) (h : ∀ b ∈ items, IsNode b) :
    IsCanonical (ch 'd' :: (items.flatten ++ [ch 'e'])) ↔
      Paired none items ∧ ∀ b ∈ items, IsCanonical b := by
  constructor
  · rintro ⟨w, hw, hb⟩
    obtain ⟨ns, rfl⟩ := exists_nodes h
    have hnode : w.node = .seq true ns := node_inj (by
      rw [node_bytes, ← hb, Node.bytes, Node.forestBytes_eq]; rfl)
    cases w with
    | dict es =>
      simp only [node, Node.seq.injEq, true_and] at hnode
      subst hnode
      exact ⟨paired_entryNodes hw.1 (by simp), canonical_entryNodes hw.2⟩
    | int | str | list => simp [node] at hnode
  · rintro ⟨hp, hc⟩
    obtain ⟨es, hes, -, hs, hb⟩ := exists_entries hp hc
    exact ⟨.dict es, ⟨hes, hs⟩, by simp [tree, Tree.bytes, hb]⟩

end GoI2pBt.Bencode
