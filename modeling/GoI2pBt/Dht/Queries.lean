/-
  The replies to queries.
-/
import GoI2pBt.Dht.Effects
import GoI2pBt.Krpc.Wire

namespace GoI2pBt.Dht

open List Act Krpc Metainfo Message
open Bencode (Env Error bareEnv)

/-! ## Distances -/

theorem zipWith_xor_eq_zero : ∀ {a b : Bytes}, a.length = b.length →
    beNat (zipWith (· ^^^ ·) a b) = 0 → a = b
  | [], [], _, _ => rfl
  | x :: a, y :: b, hlen, h => by
    have hpos : 0 < 256 ^ (zipWith (· ^^^ ·) a b).length := Nat.pow_pos (by decide)
    rw [zipWith_cons_cons, beNat_cons, Nat.add_eq_zero_iff, Nat.mul_eq_zero] at h
    have hxy : x ^^^ y = 0 := UInt8.toNat_inj.1 (h.1.resolve_right hpos.ne')
    rw [UInt8.xor_eq_zero_iff.1 hxy, zipWith_xor_eq_zero (Nat.succ.inj hlen) h.2]

theorem distance_self (a : Hash) : distance a a = 0 := by
  have hzero : ∀ l : Bytes, beNat (zipWith (· ^^^ ·) l l) = 0 := by
    intro l
    induction l with
    | nil => rfl
    | cons x l ih =>
      rw [zipWith_cons_cons, beNat_cons, ih, UInt8.xor_self]
      simp
  exact hzero a.bytes

structure IsClosest (rt : RoutingTable) (target : Hash) (k : ℕ) (l : List Node) : Prop where
  length : l.length = min k rt.Len
  best : ∃ rest, (rt.nodes.map WrappedNode.node).Perm (l ++ rest) ∧
    ∀ a ∈ l, ∀ b ∈ rest, distance target a.id ≤ distance target b.id

theorem isClosest_closest (rt : RoutingTable) (target : Hash) (k : ℕ) :
    IsClosest rt target k (rt.Closest target k) := by
  obtain ⟨-, hlen, hbest⟩ := closest_isTop rt target k
  rw [length_map] at hlen
  exact ⟨hlen, hbest⟩

theorem IsClosest.mem {rt target k l}
    (h : IsClosest rt target k l) {n} (hn : n ∈ l) : ∃ o ∈ rt.nodes, o.node = n := by
  obtain ⟨rest, hperm, -⟩ := h.best
  exact mem_map.1 (hperm.mem_iff.2 (mem_append_left _ hn))

theorem IsClosest.one {rt target l} (h : IsClosest rt target 1 l) {o} (ho : o ∈ rt.nodes)
    (hid : o.node.id = target) : ∃ a, l = [a] ∧ a.id = target := by
  have hlen : l.length = 1 := by
    have hpos : 0 < rt.Len := length_pos_of_mem ho
    rw [h.length]
    omega
  obtain ⟨a, rfl⟩ := length_eq_one_iff.1 hlen
  obtain ⟨rest, hperm, hbest⟩ := h.best
  refine ⟨a, rfl, ?_⟩
  have hmem := hperm.mem_iff.1 (mem_map_of_mem ho)
  rcases mem_append.1 hmem with hmem | hmem
  · rw [← mem_singleton.1 hmem]
    exact hid
  · have hle := hbest a (mem_singleton_self a) _ hmem
    rw [hid, distance_self] at hle
    exact Hash.ext (zipWith_xor_eq_zero (Hash.length_eq _ |>.trans (Hash.length_eq _).symm)
      (Nat.le_zero.1 hle))

namespace Server

variable {p : Platform} {mo : Moment} {s s₁ : Server}

/-! ## What stays the same -/

structure Kept (s s' : Server) : Prop where
  conf : s'.conf = s.conf
  tokenManager : s'.tokenManager = s.tokenManager
  tokenPeerManager : s'.tokenPeerManager = s.tokenPeerManager
  dataStore : s'.dataStore = s.dataStore
  events : s'.events = s.events

theorem Kept.refl (s : Server) : Kept s s := ⟨rfl, rfl, rfl, rfl, rfl⟩

theorem kept_AddNode (n : Node) : Kept s ((AddNode p mo n).exec s).2 := by
  have htable : ∀ (table : Server → RoutingTable) setTable, (∀ rt, Kept s (setTable rt s)) →
      Kept s ((addToTable p mo table setTable n).exec s).2 := by
    intro table setTable h
    rw [addToTable, exec_get_bind]
    split
    · exact Kept.refl s
    · exact h _
  rw [AddNode, exec_get_bind]
  split_ifs
  · exact htable _ _ fun _ => ⟨rfl, rfl, rfl, rfl, rfl⟩
  · exact Kept.refl s
  · exact htable _ _ fun _ => ⟨rfl, rfl, rfl, rfl, rfl⟩
  · exact Kept.refl s

theorem kept_addNode (a : NetAddr) (id : Hash) (ro : Bool) :
    Kept s ((addNode p mo a id ro).exec s).2 := by
  rw [addNode]
  split_ifs
  · exact Kept.refl s
  · have hk : Kept s ((AddNode p mo (NewNodeByUDPAddr id a)).exec s).2 := kept_AddNode _
    rcases hrun : (AddNode p mo (NewNodeByUDPAddr id a)).exec s with ⟨_ | r, s'⟩
    · rw [exec_bind_none hrun]
      rwa [hrun] at hk
    · rw [exec_bind_some hrun]
      rw [hrun] at hk
      unfold when
      split_ifs
      · exact ⟨hk.conf, hk.tokenManager, hk.tokenPeerManager, hk.dataStore, hk.events⟩
      · exact hk

/-! ## Replies -/

def responseMsg (s : Server) (tid : Bytes) (r : ResponseResult) : Message :=
  { NewResponseMsg tid { r with id := s.conf.id } with ro := s.conf.readOnly }

def sent (s : Server) (a : NetAddr) (m : Message) (w : WriteResult) (bl : Blacklist) : Server :=
  { s with events := s.events ++ [.send (some a) m w], blacklist := bl }

theorem exec_rawSend {a : NetAddr} {m : Message} {b : Bytes} (ht : m.t ≠ []) (hy : m.y ≠ [])
    (hb : m.Encode p.env p.net mo.nils = .ok b) :
    ∃ err bl, (_send p mo (some a) m).exec s = (some err, s.sent a m (mo.write (some a) b) bl) := by
  unfold _send
  rw [if_neg (by simp [ht, hy]), hb]
  by_cases hw : mo.write (some a) b = .fail
  · simp only [when, if_pos hw]
    exact ⟨_, _, rfl⟩
  · simp only [when, if_neg hw]
    exact ⟨_, s.blacklist, rfl⟩

theorem exec_reply_eq (a : NetAddr) (tid : Bytes) (r : ResponseResult) :
    (reply p mo a tid r).exec s =
      (_send p mo (some a) (s.responseMsg tid r) >>= fun _ => pure ()).exec s := rfl

theorem exec_reply_of_encode {a : NetAddr} {tid b : Bytes} {r : ResponseResult} (ht : tid ≠ [])
    (hb : (s.responseMsg tid r).Encode p.env p.net mo.nils = .ok b) :
    ∃ w bl, (reply p mo a tid r).exec s = (some (), s.sent a (s.responseMsg tid r) w bl) := by
  obtain ⟨err, bl, hsend⟩ := exec_rawSend (s := s) (a := a) ht (cons_ne_nil _ _) hb
  refine ⟨mo.write (some a) b, bl, ?_⟩
  rw [exec_reply_eq, exec_bind_some hsend]
  rfl

theorem exec_reply_of_not_encode {a tid r}
    (h : ∀ b, (s.responseMsg tid r).Encode p.env p.net mo.nils ≠ .ok b) :
    (reply p mo a tid r).exec s = (none, s) := by
  have hsend : (_send p mo (some a) (s.responseMsg tid r)).exec s = (none, s) := by
    unfold _send
    split_ifs
    · rfl
    · split
      · rfl
      · rename_i b hb
        exact absurd hb (h b)
  rw [exec_reply_eq]
  exact exec_bind_none hsend

theorem exec_reply_ok {a : NetAddr} {tid : Bytes} {r : ResponseResult} (ht : tid ≠ [])
    (h6 : ∀ n ∈ r.nodes6, n.addr.Sized) (hv : ∀ v ∈ r.values, v.ip ≠ none) :
    ∃ w bl, (reply p mo a tid r).exec s = (some (), s.sent a (s.responseMsg tid r) w bl) := by
  obtain ⟨b, hb⟩ : ∃ b, (s.responseMsg tid r).Encode p.env p.net mo.nils = .ok b :=
    encode_ok mo.nils p.env p.net h6 hv
  exact exec_reply_of_encode ht hb

theorem exec_reply (p : Platform) (mo : Moment) (s : Server) (a : NetAddr) {tid : Bytes}
    (ht : tid ≠ []) (r : ResponseResult) :
    (∃ w bl, (reply p mo a tid r).exec s = (some (), s.sent a (s.responseMsg tid r) w bl)) ∨
      (reply p mo a tid r).exec s = (none, s) := by
  cases hb : (s.responseMsg tid r).Encode p.env p.net mo.nils with
  | error err => exact .inr (exec_reply_of_not_encode fun b h => by rw [hb] at h; cases h)
  | ok b => exact .inl (exec_reply_of_encode ht hb)

/-! ## Queries that are handled -/

structure Handled (p : Platform) (mo : Moment) (raddr : NetAddr) (m : Message) (s s₁ : Server) :
    Prop where
  admitted : s.admits p raddr = true
  tid : m.t ≠ []
  id : m.a.id.IsZero = false
  added : ∃ r, (addNode p mo raddr m.a.id m.ro).exec s = (some r, s₁) ∧ r ≠ .nodeExistAndChanged
  active : s.conf.readOnly = false

variable {raddr : NetAddr} {data : Bytes} {m : Message}

theorem Handled.kept (h : Handled p mo raddr m s s₁) : Kept s s₁ := by
  obtain ⟨r, hr, -⟩ := h.added
  have hk : Kept s ((addNode p mo raddr m.a.id m.ro).exec s).2 := kept_addNode _ _ _
  rwa [hr] at hk

theorem exec_handlePacket_eq (hdec : Decode p.env p.net data = .ok m)
    (ha : s.admits p raddr = true) :
    (handlePacket p mo raddr data).exec s =
      (when (m.t ≠ []) (handleMessage p mo raddr m)).exec s := by
  rw [handlePacket, exec_get_bind, ha, hdec]
  rfl

theorem step_of_exec {inp} (h : ((act p mo inp).exec s).1 = some ()) :
    step p mo s inp = some ((act p mo inp).exec s).2 := by
  rw [step, exec_of_fst h]

theorem step_packet (hdec : Decode p.env p.net data = .ok m) (ha : s.admits p raddr = true)
    (ht : m.t ≠ []) (hrun : ((handleMessage p mo raddr m).exec s).1 = some ()) :
    step p mo s (.packet raddr data) = some ((handleMessage p mo raddr m).exec s).2 := by
  have hexec : (act p mo (.packet raddr data)).exec s = (handleMessage p mo raddr m).exec s := by
    rw [act, exec_handlePacket_eq hdec ha, when, if_pos ht]
  rw [← hexec] at hrun ⊢
  exact step_of_exec hrun

theorem exec_handlePacket_admitted (hdec : Decode p.env p.net data = .ok m)
    (hq : m.IsQuery = true) (ha : s.admits p raddr = true) (ht : m.t ≠ [])
    (hid : m.a.id.IsZero = false) :
    (handlePacket p mo raddr data).exec s = (addNode p mo raddr m.a.id m.ro >>= fun r => get >>=
      fun s => when (r ≠ .nodeExistAndChanged ∧ !s.conf.readOnly) (handleQuery p mo raddr m)).exec
        s := by
  rw [exec_handlePacket_eq hdec ha, when, if_pos ht, handleMessage, if_pos hq, handleQueryMessage,
    when, if_pos (by rw [hid]; rfl)]

theorem Handled.exec (h : Handled p mo raddr m s s₁)
    (hdec : Decode p.env p.net data = .ok m) (hq : m.IsQuery = true) :
    (handlePacket p mo raddr data).exec s = (handleQuery p mo raddr m).exec s₁ := by
  obtain ⟨r, hadd, hne⟩ := h.added
  have hactive : s₁.conf.readOnly = false := by rw [h.kept.conf, h.active]
  rw [exec_handlePacket_admitted hdec hq h.admitted h.tid h.id, exec_bind_some hadd, exec_get_bind,
    when, if_pos ⟨hne, by rw [hactive]; rfl⟩]

theorem exec_handlePacket (mo : Moment) (s : Server) (raddr : NetAddr)
    (hdec : Decode p.env p.net data = .ok m) (hq : m.IsQuery = true) :
    (∃ s₁, Handled p mo raddr m s s₁ ∧
      (handlePacket p mo raddr data).exec s = (handleQuery p mo raddr m).exec s₁) ∨
    ((∀ s₁, ¬ Handled p mo raddr m s s₁) ∧ Kept s ((handlePacket p mo raddr data).exec s).2) := by
  by_cases ha : s.admits p raddr = true
  swap
  · refine .inr ⟨fun s₁ h => ha h.admitted, ?_⟩
    rw [handlePacket, exec_get_bind, if_pos (by simpa using ha)]
    exact Kept.refl s
  by_cases ht : m.t = []
  · refine .inr ⟨fun s₁ h => h.tid ht, ?_⟩
    rw [exec_handlePacket_eq hdec ha, when, if_neg (not_not.2 ht)]
    exact Kept.refl s
  by_cases hid : m.a.id.IsZero = true
  · refine .inr ⟨fun s₁ h => absurd hid (by rw [h.id]; decide), ?_⟩
    rw [exec_handlePacket_eq hdec ha, when, if_pos ht, handleMessage, if_pos hq, handleQueryMessage,
      when, if_neg (by rw [hid]; decide)]
    exact Kept.refl s
  rw [exec_handlePacket_admitted hdec hq ha ht (Bool.eq_false_iff.2 hid)]
  have hk : Kept s ((addNode p mo raddr m.a.id m.ro).exec s).2 := kept_addNode _ _ _
  rcases hadd : (addNode p mo raddr m.a.id m.ro).exec s with ⟨_ | r, s₁⟩
  · rw [exec_bind_none hadd]
    rw [hadd] at hk
    refine .inr ⟨fun s₁ h => ?_, hk⟩
    obtain ⟨r, hr, -⟩ := h.added
    rw [hadd] at hr
    cases hr
  · rw [exec_bind_some hadd, exec_get_bind]
    rw [hadd] at hk
    unfold when
    split_ifs with hc
    · refine .inl ⟨s₁, ⟨ha, ht, Bool.eq_false_iff.2 hid, ⟨r, hadd, hc.1⟩, ?_⟩, rfl⟩
      rw [← hk.conf]
      simpa using hc.2
    · refine .inr ⟨fun s2 h => hc ?_, hk⟩
      obtain ⟨r', hr', hne⟩ := h.added
      rw [hadd] at hr'
      cases hr'
      refine ⟨hne, ?_⟩
      rw [hk.conf, h.active]
      rfl

/-! ## Node lists -/

def Asks4 (raddr : NetAddr) (a : QueryArg) : Prop := WantNodes ∈ a.wants ∨
    (WantNodes ∉ a.wants ∧ WantNodes6 ∉ a.wants ∧ IsIPv6Addr (some raddr) = false)

def Asks6 (raddr : NetAddr) (a : QueryArg) : Prop := WantNodes6 ∈ a.wants ∨
    (WantNodes ∉ a.wants ∧ WantNodes6 ∉ a.wants ∧ IsIPv6Addr (some raddr) = true)

theorem asks_some (raddr : NetAddr) (a : QueryArg) : Asks4 raddr a ∨ Asks6 raddr a := by
  unfold Asks4 Asks6
  by_cases h4 : WantNodes ∈ a.wants
  · exact .inl (.inl h4)
  by_cases h6 : WantNodes6 ∈ a.wants
  · exact .inr (.inl h6)
  cases hip : IsIPv6Addr (some raddr) with
  | false => exact .inl (.inr ⟨h4, h6, rfl⟩)
  | true => exact .inr (.inr ⟨h4, h6, rfl⟩)

instance (raddr : NetAddr) (a : QueryArg) : Decidable (Asks4 raddr a) :=
  inferInstanceAs (Decidable (_ ∨ _))

instance (raddr : NetAddr) (a : QueryArg) : Decidable (Asks6 raddr a) :=
  inferInstanceAs (Decidable (_ ∨ _))

theorem populateNodes_eq (s : Server) (raddr : NetAddr) (a : QueryArg) (target : Hash)
    (r : ResponseResult) :
    s.populateNodes raddr a target r = { r with
      nodes := if Asks4 raddr a then s.routingTable4.Closest target s.conf.k else r.nodes
      nodes6 := if Asks6 raddr a then s.routingTable6.Closest target s.conf.k else r.nodes6 } := by
  by_cases h4 : WantNodes ∈ a.wants <;> by_cases h6 : WantNodes6 ∈ a.wants <;>
    by_cases hip : IsIPv6Addr (some raddr) = true <;>
    simp [populateNodes, populateNodesBasedOnAddress, populateRequestedNodes,
      QueryArg.ContainsWant, Asks4, Asks6, h4, h6, hip]

structure ListsClosest (s : Server) (raddr : NetAddr) (a : QueryArg) (r : ResponseResult) :
    Prop where
  nodes : Asks4 raddr a → IsClosest s.routingTable4 a.target s.conf.k r.nodes
  nodes6 : Asks6 raddr a → IsClosest s.routingTable6 a.target s.conf.k r.nodes6
  others : ¬ Asks4 raddr a → r.nodes = []
  others6 : ¬ Asks6 raddr a → r.nodes6 = []

def RepliesClosest (raddr : NetAddr) (a : QueryArg) (s s' : Server) : Prop :=
  ∀ r w, .send (some raddr) r w ∈ s'.events.drop s.events.length → r.IsResponse = true →
    ListsClosest s' raddr a r.r

structure IsFindNode (m : Message) : Prop where
  query : m.IsQuery = true
  method : m.q = utf8 "find_node"
  tid : m.t ≠ []
  id : m.a.id.IsZero = false

theorem handleQuery_find_node (h : m.q = utf8 "find_node") :
    handleQuery p mo raddr m = handleFindNodeQuery p mo raddr m := by
  rw [handleQuery, if_neg (by rw [h]; decide), if_pos h]

theorem listsClosest_populateNodes (s : Server) (raddr : NetAddr) (a : QueryArg) :
    ListsClosest s raddr a (s.populateNodes raddr a a.target {}) := by
  rw [populateNodes_eq]
  refine ⟨fun h => ?_, fun h => ?_, fun h => if_neg h, fun h => if_neg h⟩
  · dsimp only
    rw [if_pos h]
    exact isClosest_closest _ _ _
  · dsimp only
    rw [if_pos h]
    exact isClosest_closest _ _ _

theorem repliesClosest_of_eq (hdec : Decode p.env p.net data = .ok m) (hm : IsFindNode m)
    (heq : m.a.infoHash = m.a.target) (mo : Moment) (s : Server) :
    RepliesClosest raddr m.a s ((handlePacket p mo raddr data).exec s).2 := by
  intro r w hr _
  rcases exec_handlePacket mo s raddr hdec hm.query with
    ⟨s₁, hhandled, hexec⟩ | ⟨-, hkept⟩
  · rw [hexec, handleQuery_find_node hm.method, handleFindNodeQuery, exec_get_bind, heq] at hr ⊢
    rcases exec_reply p mo s₁ raddr hm.tid
        (s₁.populateNodes raddr m.a m.a.target {}) with ⟨w', bl, hreply⟩ | hreply
    · rw [hreply] at hr ⊢
      rw [sent, hhandled.kept.events, drop_left, mem_singleton] at hr
      cases hr
      -- neither the ID nor the other fields of the state matter to the lists
      obtain ⟨h4, h6, hn4, hn6⟩ := listsClosest_populateNodes s₁ raddr m.a
      exact ⟨h4, h6, hn4, hn6⟩
    · rw [hreply, hhandled.kept.events, drop_length] at hr
      cases hr
  · rw [hkept.events, drop_length] at hr
    cases hr

/-! ## A table with two nodes -/

def pairTable (root : Hash) (ipv6 : Bool) (a b : Node) : RoutingTable where
  k := 1
  ipv6 := ipv6
  root := root
  bkts i := if i.val = 0 then { nodes := [⟨a, 0, 0⟩, ⟨b, 0, 1⟩] } else {}

theorem mem_pairTable {root ipv6 a b o} :
    o ∈ (pairTable root ipv6 a b).nodes ↔ o = ⟨a, 0, 0⟩ ∨ o = ⟨b, 0, 1⟩ := by
  rw [RoutingTable.mem_nodes]
  constructor
  · rintro ⟨i, hi⟩
    unfold pairTable at hi
    dsimp only at hi
    split_ifs at hi
    · simpa using hi
    · cases hi
  · intro ho
    refine ⟨⟨0, by decide⟩, ?_⟩
    rcases ho with rfl | rfl
    · exact mem_cons_self
    · exact mem_cons_of_mem _ mem_cons_self

theorem eq_of_isClosest {root t t' ipv6 addr l}
    (h : IsClosest (pairTable root ipv6 ⟨t, addr⟩ ⟨t', addr⟩) t 1 l)
    (h' : IsClosest (pairTable root ipv6 ⟨t, addr⟩ ⟨t', addr⟩) t' 1 l) : t' = t := by
  obtain ⟨a, rfl, ha⟩ := h.one (mem_pairTable.2 (.inl rfl)) rfl
  obtain ⟨a', hl, ha'⟩ := h'.one (mem_pairTable.2 (.inr rfl)) rfl
  cases hl
  exact ha'.symm.trans ha

def addr4 : Address := NewAddress (.netIP [1, 2, 3, 4]) 6881
def addr6 : Address := NewAddress (.netIP (replicate 16 1)) 6881

theorem one_le_eight : (1 : ℤ) ≤ 8 := by decide

def pairServer (id t t' : Hash) : Server where
  conf := ⟨1, by decide, id, [IPv4Protocol, IPv6Protocol], false, 8, one_le_eight, 10 ^ 10⟩
  ipv4 := true
  ipv6 := true
  want := []
  routingTable4 := pairTable id false ⟨t, addr4⟩ ⟨t', addr4⟩
  routingTable6 := pairTable id true ⟨t, addr6⟩ ⟨t', addr6⟩
  tokenManager := newTokenManager []
  tokenPeerManager := {}
  transactionManager := {}
  dataStore := .empty
  blacklist := { num := 1024 }
  events := []

def calm (now : ℤ) : Moment where
  now := now
  write _ _ := .ok
  nils _ := true
  peerOrder _ := ⟨id, fun _ => .refl _⟩
  hashOrder := ⟨id, fun _ => .refl _⟩
  transOrder := ⟨id, fun _ => .refl _⟩

theorem exec_addNode_pairServer (p : Platform) (raddr : NetAddr) (id t t' : Hash) (ro : Bool) :
    (addNode p (calm 0) raddr id ro).exec (pairServer id t t') =
      (some .nodeNotAdded, pairServer id t t') := by
  have hself : ∀ (table : Server → RoutingTable) setTable, (table (pairServer id t t')).root = id →
      setTable (table (pairServer id t t')) (pairServer id t t') = pairServer id t t' →
      (addToTable p (calm 0) table setTable (NewNodeByUDPAddr id raddr)).exec (pairServer id t t') =
        (some .nodeNotAdded, pairServer id t t') := by
    intro table setTable hroot hset
    have hid : (NewNodeByUDPAddr id raddr).id = (table (pairServer id t t')).root := hroot.symm
    rw [addToTable, exec_get_bind, RoutingTable.AddNode, if_pos hid, exec_modify_bind, hset]
    rfl
  have hadd : (AddNode p (calm 0) (NewNodeByUDPAddr id raddr)).exec (pairServer id t t') =
      (some .nodeNotAdded, pairServer id t t') := by
    rw [AddNode, exec_get_bind]
    split_ifs
    · exact hself _ _ rfl rfl
    · rename_i h; exact absurd rfl h
    · exact hself _ _ rfl rfl
    · rename_i h; exact absurd rfl h
  rw [addNode]
  split_ifs
  · rfl
  · rw [exec_bind_some hadd]
    rfl

theorem handled_pairServer (p : Platform) (raddr : NetAddr) (hm : IsFindNode m) (t t' : Hash) :
    Handled p (calm 0) raddr m (pairServer m.a.id t t') (pairServer m.a.id t t') where
  admitted := by
    have hdisabled : (pairServer m.a.id t t').isDisabled (some raddr) = false := by
      unfold isDisabled
      split_ifs <;> rfl
    rw [admits, hdisabled]
    rfl
  tid := hm.tid
  id := hm.id
  added := ⟨_, exec_addNode_pairServer p raddr m.a.id t t' m.ro, by decide⟩
  active := rfl

theorem exec_pairServer {p raddr data m}
    (hdec : Decode p.env p.net data = .ok m) (hm : IsFindNode m) (t t' : Hash) :
    ∃ w bl, (handlePacket p (calm 0) raddr data).exec (pairServer m.a.id t t') =
      (some (), (pairServer m.a.id t t').sent raddr ((pairServer m.a.id t t').responseMsg m.t
        ((pairServer m.a.id t t').populateNodes raddr m.a m.a.infoHash {})) w bl) := by
  have hlists := populateNodes_eq (pairServer m.a.id t t') raddr m.a m.a.infoHash {}
  rw [(handled_pairServer p raddr hm t t').exec hdec hm.query, handleQuery_find_node hm.method,
    handleFindNodeQuery, exec_get_bind]
  refine exec_reply_ok hm.tid (fun n hn => ?_) fun v hv => ?_
  · rw [hlists] at hn
    dsimp only at hn
    split_ifs at hn
    · obtain ⟨o, ho, rfl⟩ := (isClosest_closest _ _ _).mem hn
      rcases mem_pairTable.1 ho with rfl | rfl <;> exact .inr rfl
    · cases hn
  · rw [hlists] at hv
    cases hv

theorem eq_of_repliesClosest {p raddr data m}
    (hdec : Decode p.env p.net data = .ok m) (hm : IsFindNode m)
    (h : RepliesClosest raddr m.a (pairServer m.a.id m.a.target m.a.infoHash)
      ((handlePacket p (calm 0) raddr data).exec
        (pairServer m.a.id m.a.target m.a.infoHash)).2) : m.a.infoHash = m.a.target := by
  obtain ⟨w, bl, hexec⟩ := exec_pairServer hdec hm m.a.target m.a.infoHash
  rw [hexec] at h
  have hclosest := h _ w (mem_singleton_self _) rfl
  rw [responseMsg, populateNodes_eq] at hclosest
  rcases asks_some raddr m.a with h4 | h6
  · have htarget := hclosest.nodes h4
    dsimp only [NewResponseMsg] at htarget
    rw [if_pos h4] at htarget
    exact eq_of_isClosest htarget (isClosest_closest _ _ _)
  · have htarget := hclosest.nodes6 h6
    dsimp only [NewResponseMsg] at htarget
    rw [if_pos h6] at htarget
    exact eq_of_isClosest htarget (isClosest_closest _ _ _)

/-- **The reply is for `info_hash`**, not for the target. -/
theorem find_node_iff {p : Platform} {raddr : NetAddr} {data : Bytes} {m : Message}
    (hdec : Message.Decode p.env p.net data = .ok m) (hm : IsFindNode m) :
    (∀ mo s, RepliesClosest raddr m.a s ((handlePacket p mo raddr data).exec s).2) ↔
      m.a.infoHash = m.a.target :=
  ⟨fun h => eq_of_repliesClosest hdec hm (h _ _), repliesClosest_of_eq hdec hm⟩

def samplePlatform : Platform := ⟨bareEnv, Address.sampleNet, id, sampleCrypto⟩

def sampleAddr : NetAddr := .udpAddr [5, 6, 7, 8] 6881 []

def findNodePacket : Bytes := utf8 ("d1:ad2:id20:abcdefghij01234567896:target20:" ++
  "mnopqrstuvwxyz123456e1:q9:find_node1:t2:aa1:y1:qe")

def findNodePacket2 : Bytes := utf8 ("d1:ad2:id20:abcdefghij01234567899:info_hash20:" ++
  "mnopqrstuvwxyz1234566:target20:mnopqrstuvwxyz123456e1:q9:find_node1:t2:aa1:y1:qe")

def sampleId : Hash := .ofBytes (utf8 "abcdefghij0123456789")
def sampleTarget : Hash := .ofBytes (utf8 "mnopqrstuvwxyz123456")

def findNodeMsg (infoHash : Hash) : Message :=
  NewQueryMsg (utf8 "aa") (utf8 "find_node") { id := sampleId, target := sampleTarget, infoHash }

theorem decode_findNodePacket : Decode samplePlatform.env samplePlatform.net
    findNodePacket = .ok (findNodeMsg .zero) := except_eq_ok (by decide +kernel)

theorem decode_findNodePacket2 : Decode samplePlatform.env samplePlatform.net
    findNodePacket2 = .ok (findNodeMsg sampleTarget) := except_eq_ok (by decide +kernel)

theorem isFindNode_findNodeMsg (infoHash : Hash) : IsFindNode (findNodeMsg infoHash) :=
  ⟨rfl, rfl, cons_ne_nil _ _, rfl⟩

theorem find_node_sample : Message.Decode samplePlatform.env samplePlatform.net findNodePacket2 =
        .ok (findNodeMsg sampleTarget) ∧ IsFindNode (findNodeMsg sampleTarget) ∧
      ∀ mo s, RepliesClosest sampleAddr (findNodeMsg sampleTarget).a s
        ((handlePacket samplePlatform mo sampleAddr findNodePacket2).exec s).2 :=
  ⟨decode_findNodePacket2, isFindNode_findNodeMsg _,
    (find_node_iff decode_findNodePacket2 (isFindNode_findNodeMsg _)).2 rfl⟩

theorem find_node_lost :
    Message.Decode samplePlatform.env samplePlatform.net findNodePacket = .ok (findNodeMsg .zero) ∧
      ((handlePacket samplePlatform (calm 0) sampleAddr findNodePacket).exec
          (pairServer sampleId sampleTarget .zero)).2.events =
        [.send (some sampleAddr) (NewResponseMsg (utf8 "aa")
          { id := sampleId, nodes := [⟨.zero, addr4⟩] }) .ok] ∧
      ¬ RepliesClosest sampleAddr (findNodeMsg .zero).a (pairServer sampleId sampleTarget .zero)
        ((handlePacket samplePlatform (calm 0) sampleAddr findNodePacket).exec
          (pairServer sampleId sampleTarget .zero)).2 := by
  refine ⟨decode_findNodePacket, ?_, fun h => ?_⟩
  · rw [exec_handlePacket_eq decode_findNodePacket rfl]
    rfl
  · have heq : Hash.zero = sampleTarget :=
      eq_of_repliesClosest decode_findNodePacket (isFindNode_findNodeMsg _) h
    exact absurd heq (by decide)

end Server

end GoI2pBt.Dht
