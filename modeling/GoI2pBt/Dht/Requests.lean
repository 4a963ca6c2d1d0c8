/-
  Requests to other nodes, and the check of the buckets.
-/
import GoI2pBt.Dht.Panics

namespace GoI2pBt.Dht

open List Act Krpc Metainfo Bool Dht.Bucket

/-! ## Requests -/

namespace Server

variable {p : Platform} {mo : Moment} {s s' : Server}

def queryMsg (s : Server) (query : Bytes) (arg : QueryArg) : Message :=
  { NewQueryMsg s.transactionManager.GetTransactionID.1 query { arg with id := s.conf.id } with
    ro := s.conf.readOnly }

structure Aside (s s' : Server) : Prop where
  conf : s'.conf = s.conf
  ipv4 : s'.ipv4 = s.ipv4
  ipv6 : s'.ipv6 = s.ipv6
  want : s'.want = s.want
  table4 : s'.routingTable4 = s.routingTable4
  table6 : s'.routingTable6 = s.routingTable6

theorem Aside.refl (s : Server) : Aside s s := ⟨rfl, rfl, rfl, rfl, rfl, rfl⟩

theorem Aside.trans {s1} (h : Aside s s1) (h' : Aside s1 s') : Aside s s' :=
  ⟨h'.conf.trans h.conf, h'.ipv4.trans h.ipv4, h'.ipv6.trans h.ipv6, h'.want.trans h.want,
    h'.table4.trans h.table4, h'.table6.trans h.table6⟩

theorem Aside.isDisabled (h : Aside s s') (addr : Option NetAddr) :
    s'.isDisabled addr = s.isDisabled addr := by
  rw [Server.isDisabled, Server.isDisabled, h.ipv4, h.ipv6]

section Request

variable {query : Bytes} {arg : QueryArg} {depth : ℤ} {visited : List Hash} {cb : Option ℕ}
  {onResp : OnResponse}

theorem exec_request_disabled (p : Platform) (mo : Moment) {addr} (h : s.isDisabled addr = true) :
    (request p mo addr query arg depth visited cb onResp).exec s = (some true, s) := by
  rw [request, exec_get_bind, if_pos h]
  rfl

def nextID (s : Server) : Server :=
  { s with transactionManager := s.transactionManager.GetTransactionID.2 }

theorem exec_request_enabled {addr} (h : s.isDisabled addr = false) :
    (request p mo addr query arg depth visited cb onResp).exec s =
      (_send p mo addr (s.queryMsg query arg) >>= fun err => afterRequest p addr err fun a =>
        ⟨s.transactionManager.GetTransactionID.1, query, { arg with id := s.conf.id }, a, mo.now,
          depth, visited, cb, onResp⟩).exec s.nextID := by
  rw [request, exec_get_bind, if_neg (ne_true_of_eq_false h)]
  rfl

theorem encode_queryMsg (p : Platform) (mo : Moment) (s : Server) (query : Bytes) (arg : QueryArg) :
    ∃ b, (s.queryMsg query arg).Encode p.env p.net mo.nils = .ok b :=
  Message.encode_ok mo.nils p.env p.net (fun _ h => nomatch h) (fun _ h => nomatch h)

theorem exec_request_nil (p : Platform) (mo : Moment) (h : s.isDisabled none = false) :
    ∃ s', (request p mo none query arg depth visited cb onResp).exec s = (none, s') := by
  rw [exec_request_enabled h]
  rcases hrun : (_send p mo none (s.queryMsg query arg)).exec s.nextID with ⟨_ | err, s'⟩
  · exact ⟨s', exec_bind_none hrun⟩
  · exact ⟨s', exec_bind_some hrun⟩

theorem exec_request (p : Platform) (mo : Moment) {a} (h : s.isDisabled (some a) = false) :
    ∃ err s' w, (request p mo (some a) query arg depth visited cb onResp).exec s = (some err, s') ∧
      Aside s s' ∧ s'.events = s.events ++ [.send (some a) (s.queryMsg query arg) w] := by
  obtain ⟨b, hb⟩ := encode_queryMsg p mo s query arg
  obtain ⟨err, bl, hrun⟩ := exec_rawSend (s := s.nextID) (a := a) (getTransactionID_ne_nil _)
    (cons_ne_nil _ _) hb
  rw [exec_request_enabled h, exec_bind_some hrun]
  cases err with
  | true | false => exact ⟨_, _, _, rfl, ⟨rfl, rfl, rfl, rfl, rfl, rfl⟩, rfl⟩

end Request

end Server

/-! ## Deleting by index -/

section Delete

variable {nodes : List WrappedNode} {indexes : List ℕ} {now : ℤ} {n : WrappedNode}

theorem WrappedNode.status_bad_iff : n.Status now = .bad ↔ badTimeout < now - n.lastChanged := by
  unfold WrappedNode.Status
  split_ifs with hbad hdubious
  · exact iff_of_true rfl hbad
  · exact iff_of_false (by decide) hbad
  · exact iff_of_false (by decide) hbad

theorem WrappedNode.status_dubious_iff : n.Status now = .dubious ↔
    dubiousTimeout < now - n.lastChanged ∧ now - n.lastChanged ≤ badTimeout := by
  unfold WrappedNode.Status
  split_ifs with hbad hdubious
  · exact iff_of_false (by decide) fun h => (not_lt.2 h.2) hbad
  · exact iff_of_true rfl ⟨hdubious, not_lt.1 hbad⟩
  · exact iff_of_false (by decide) fun h => hdubious h.1

theorem getElem?_delNodesByIndex {j} (h : ∀ i ∈ indexes, j < i) :
    (delNodesByIndex nodes indexes).1[j]? = nodes[j]? := by
  induction indexes generalizing nodes with
  | nil => rfl
  | cons i indexes ih =>
    rw [delNodesByIndex]
    split_ifs with hi
    · rw [ih fun k hk => h k (mem_cons_of_mem _ hk)]
      exact getElem?_eraseIdx_of_lt (h i mem_cons_self)
    · rfl

theorem mem_delNodesByIndex {i j} (hp : (i :: j :: indexes).Pairwise (· < ·))
    (hj : nodes[j]? = some n) : n ∈ (delNodesByIndex nodes (i :: j :: indexes)).1 := by
  obtain ⟨hi, hp⟩ := pairwise_cons.1 hp
  have hij : i < j := hi j mem_cons_self
  rw [delNodesByIndex]
  split_ifs
  · refine mem_of_getElem? (i := j - 1) ?_
    rw [getElem?_delNodesByIndex]
    · rw [getElem?_eraseIdx_of_ge (by omega), Nat.sub_add_cancel (by omega), hj]
    · intro k hk
      rcases mem_cons.1 hk with rfl | hk
      · omega
      · have := (pairwise_cons.1 hp).1 k hk
        omega
  · exact mem_of_getElem? hj

theorem delNodesByIndex_cons (n : WrappedNode) (nodes : List WrappedNode) (indexes : List ℕ) :
    delNodesByIndex (n :: nodes) (indexes.map (· + 1)) =
      (n :: (delNodesByIndex nodes indexes).1,
        (delNodesByIndex nodes indexes).2) := by
  induction indexes generalizing nodes with
  | nil => rfl
  | cons i indexes ih =>
    rw [map_cons, delNodesByIndex, delNodesByIndex, length_cons]
    by_cases hi : i < nodes.length
    · rw [if_pos (by omega), if_pos hi, eraseIdx_cons_succ, ih]
    · rw [if_neg (by omega), if_neg hi]

theorem delNodesByIndex_findIdxs {q} (h : nodes.countP q ≤ 1) :
    delNodesByIndex nodes (nodes.findIdxs q) = (nodes.filter fun n => !q n, true) := by
  induction nodes with
  | nil => rfl
  | cons n nodes ih =>
    rw [findIdxs_cons, findIdxs_start]
    split_ifs with hq
    · -- no other node meets `q`
      rw [countP_cons_of_pos hq] at h
      have hnone : ∀ n ∈ nodes, q n = false := by
        intro n hn
        rw [← not_eq_true]
        exact countP_eq_zero.1 (by omega) n hn
      rw [findIdxs_eq_nil_iff.2 hnone, filter_cons_of_neg (by rw [hq]; decide),
        filter_eq_self.2 fun n hn => by rw [hnone n hn]; rfl]
      rfl
    · rw [countP_cons_of_neg hq] at h
      rw [delNodesByIndex_cons, ih h, filter_cons_of_pos]
      rw [not_eq_true] at hq
      rw [hq]
      rfl

end Delete

/-! ## The check of a bucket -/

namespace Server

variable {p : Platform} {mo : Moment} {s s' : Server}

def table (ipv6 : Bool) (s : Server) : RoutingTable :=
  if ipv6 then s.routingTable6 else s.routingTable4

def setTable (ipv6 : Bool) (rt : RoutingTable) (s : Server) : Server :=
  if ipv6 then setTable6 rt s else setTable4 rt s

theorem table_setTable (ipv6 : Bool) (rt : RoutingTable) (s : Server) :
    (s.setTable ipv6 rt).table ipv6 = rt := by
  cases ipv6 <;> rfl

theorem events_setTable (ipv6 : Bool) (rt : RoutingTable) (s : Server) :
    (s.setTable ipv6 rt).events = s.events := by
  cases ipv6 <;> rfl

theorem Aside.table (h : Aside s s') (ipv6 : Bool) : s'.table ipv6 = s.table ipv6 := by
  cases ipv6
  · exact h.table4
  · exact h.table6

def Pinged (a : NetAddr) (e : Event) : Prop := ∃ m w, e = .send (some a) m w ∧ m.q = utf8 "ping"

def pingTargets (s : Server) (nodes : List Node) : List NetAddr :=
  nodes.filterMap fun n => if s.isDisabled n.addr.Addr then none else n.addr.Addr

def Pingable (s : Server) (n : Node) : Prop := s.isDisabled n.addr.Addr = true ∨ n.addr.Addr ≠ none

theorem Aside.pingTargets (h : Aside s s') (nodes : List Node) :
    s'.pingTargets nodes = s.pingTargets nodes := by
  unfold Server.pingTargets
  simp only [h.isDisabled]

theorem Aside.pingable (h : Aside s s') (n : Node) : s'.Pingable n ↔ s.Pingable n := by
  rw [Pingable, Pingable, h.isDisabled]

def pingNode (p : Platform) (mo : Moment) (node : Node) : Act Server Unit := do
  let _ ← Ping p mo node.addr.Addr none

theorem exec_pingNode (p : Platform) (mo : Moment) {n} (h : s.Pingable n) :
    ∃ s' l, (pingNode p mo n).exec s = (some (), s') ∧ Aside s s' ∧ s'.events = s.events ++ l ∧
      Forall₂ Pinged (s.pingTargets [n]) l := by
  unfold pingNode Ping
  rcases eq_false_or_eq_true (s.isDisabled n.addr.Addr) with hd | hd
  · refine ⟨s, [], exec_bind_some (exec_request_disabled p mo hd), .refl s, (append_nil _).symm, ?_⟩
    rw [pingTargets, filterMap_cons, if_pos hd]
    exact .nil
  · rcases ha : n.addr.Addr with _ | a
    · rcases h with h | h
      · rw [hd] at h
        cases h
      · exact absurd ha h
    · rw [ha] at hd
      obtain ⟨err, s', w, hrun, haside, hev⟩ := exec_request p mo hd
      refine ⟨s', _, exec_bind_some hrun, haside, hev, ?_⟩
      rw [pingTargets, filterMap_cons, ha, hd]
      exact .cons ⟨_, _, rfl, rfl⟩ .nil

theorem exec_pingNode_none (p : Platform) (mo : Moment) {n} (h : ¬ s.Pingable n) :
    ∃ s', (pingNode p mo n).exec s = (none, s') := by
  unfold Pingable at h
  push Not at h
  obtain ⟨hd, ha⟩ := h
  rw [ha] at hd
  obtain ⟨s', hrun⟩ := exec_request_nil p mo (eq_false_of_not_eq_true hd)
  refine ⟨s', exec_bind_none ?_⟩
  rw [Ping, ha]
  exact hrun

theorem exec_pings (p : Platform) (mo : Moment) {nodes} (h : ∀ n ∈ nodes, s.Pingable n) :
    ∃ s' l, (each (pingNode p mo) nodes).exec s = (some (), s') ∧ Aside s s' ∧
      s'.events = s.events ++ l ∧ Forall₂ Pinged (s.pingTargets nodes) l := by
  induction nodes generalizing s with
  | nil => exact ⟨s, [], rfl, .refl s, (append_nil _).symm, .nil⟩
  | cons n nodes ih =>
    obtain ⟨s1, l1, hrun1, haside1, hev1, hl1⟩ := exec_pingNode p mo
      (h n mem_cons_self)
    obtain ⟨s2, l2, hrun2, haside2, hev2, hl2⟩ := ih (s := s1) fun m hm =>
      (haside1.pingable m).2 (h m (mem_cons_of_mem _ hm))
    refine ⟨s2, l1 ++ l2, (exec_bind_some hrun1).trans hrun2, haside1.trans haside2, ?_, ?_⟩
    · rw [hev2, hev1, append_assoc]
    · rw [haside1.pingTargets] at hl2
      have happ : s.pingTargets (n :: nodes) = s.pingTargets [n] ++ s.pingTargets nodes :=
        filterMap_append (l := [n])
      rw [happ]
      exact rel_append hl1 hl2

theorem exec_pings_none (p : Platform) (mo : Moment) {nodes} (h : ¬ ∀ n ∈ nodes, s.Pingable n) :
    ∃ s', (each (pingNode p mo) nodes).exec s = (none, s') := by
  induction nodes generalizing s with
  | nil => exact absurd (fun _ h => nomatch h) h
  | cons n nodes ih =>
    by_cases hn : s.Pingable n
    · obtain ⟨s1, l1, hrun1, haside1, -, -⟩ := exec_pingNode p mo hn
      obtain ⟨s2, hrun2⟩ := ih (s := s1) fun hall => h fun m hm => by
        rcases mem_cons.1 hm with rfl | hm
        · exact hn
        · exact (haside1.pingable m).1 (hall m hm)
      exact ⟨s2, (exec_bind_some hrun1).trans hrun2⟩
    · obtain ⟨s1, hrun1⟩ := exec_pingNode_none p mo hn
      exact ⟨s1, exec_bind_none hrun1⟩

structure ChecksExactly (p : Platform) (mo : Moment) (ipv6 : Bool) (i : Fin bktlen) (s : Server) :
    Prop where
  returns : ((checkBucket p mo (table ipv6) (setTable ipv6) i).exec s).1 = some ()
  kept : ((((checkBucket p mo (table ipv6) (setTable ipv6) i).exec s).2.table ipv6).bkts i).nodes =
    ((s.table ipv6).bkts i).nodes.filter fun n => mo.now - n.lastChanged ≤ badTimeout
  pings : ∃ l, ((checkBucket p mo (table ipv6) (setTable ipv6) i).exec s).2.events = s.events ++ l ∧
    Forall₂ Pinged (s.pingTargets ((((s.table ipv6).bkts i).nodes.filter fun n =>
      dubiousTimeout < mo.now - n.lastChanged ∧ mo.now - n.lastChanged ≤ badTimeout).map
        WrappedNode.node)) l

theorem dubious_eq (b : Bucket) (now : ℤ) :
    b.dubious now = (b.nodes.filter fun n => dubiousTimeout < now - n.lastChanged ∧
      now - n.lastChanged ≤ badTimeout).map WrappedNode.node := by
  unfold dubious
  simp only [WrappedNode.status_dubious_iff]

variable {ipv6 : Bool} {i : Fin bktlen}

section Due

variable {b : Bucket} (hdue : dubiousTimeout ≤ mo.now - b.lastChanged)
include hdue

theorem due_or_nil : b.due mo.now = true ∨ b.nodes = [] ∧ b.due mo.now = false := by
  by_cases hne : b.nodes = []
  · exact .inr ⟨hne, decide_eq_false fun h => h.1 hne⟩
  · exact .inl (decide_eq_true ⟨hne, hdue⟩)

theorem checkAllNodes_eq : b.CheckAllNodes true mo.now =
    ({ b with nodes := (delNodesByIndex b.nodes (b.badIndexes mo.now)).1 },
      (delNodesByIndex b.nodes (b.badIndexes mo.now)).2) := by
  unfold CheckAllNodes
  rcases due_or_nil hdue with h | ⟨hnil, h⟩
  · rw [h]
    rfl
  · rw [h, badIndexes, hnil, findIdxs_nil, delNodesByIndex, ← hnil]
    rfl

theorem when_due : when (b.due mo.now = true) (each (pingNode p mo) (b.dubious mo.now)) =
    each (pingNode p mo) (b.dubious mo.now) := by
  rcases due_or_nil hdue with h | ⟨hnil, h⟩
  · rw [h]
    rfl
  · rw [h, dubious, hnil]
    rfl

end Due

section Check

variable (hdue : dubiousTimeout ≤ mo.now - ((s.table ipv6).bkts i).lastChanged)
include hdue

theorem exec_checkBucket_none
    (hrun : (each (pingNode p mo) (((s.table ipv6).bkts i).dubious mo.now)).exec s = (none, s')) :
    (checkBucket p mo (table ipv6) (setTable ipv6) i).exec s = (none, s') := by
  rw [← when_due hdue] at hrun
  rw [checkBucket, exec_get_bind]
  exact exec_bind_none hrun

theorem exec_checkBucket
    (hrun : (each (pingNode p mo) (((s.table ipv6).bkts i).dubious mo.now)).exec s =
      (some (), s')) :
    (checkBucket p mo (table ipv6) (setTable ipv6) i).exec s =
      (if (((s.table ipv6).bkts i).CheckAllNodes true mo.now).2 then some () else none,
        s'.setTable ipv6 ((s'.table ipv6).checkBucket i true mo.now)) := by
  rw [← when_due hdue] at hrun
  rw [checkBucket, exec_get_bind]
  refine (exec_bind_some hrun).trans ?_
  rw [exec_modify_bind]
  cases (((s.table ipv6).bkts i).CheckAllNodes true mo.now).2 <;> rfl

end Check

theorem nodes_checkBucket (rt : RoutingTable) (i : Fin bktlen) (now : ℤ) :
    ((rt.checkBucket i true now).bkts i).nodes = ((rt.bkts i).CheckAllNodes true now).1.nodes := by
  unfold RoutingTable.checkBucket RoutingTable.setBucket
  simp only [Function.update_self]

theorem delete_exact_iff (b : Bucket) (now : ℤ) :
    delNodesByIndex b.nodes (b.badIndexes now) =
        (b.nodes.filter fun n => now - n.lastChanged ≤ badTimeout, true) ↔
      (b.nodes.countP fun n => badTimeout < now - n.lastChanged) ≤ 1 := by
  have hbad : b.badIndexes now = b.nodes.findIdxs fun n => badTimeout < now - n.lastChanged := by
    unfold badIndexes
    simp only [WrappedNode.status_bad_iff]
  have hfilter : (b.nodes.filter fun n => now - n.lastChanged ≤ badTimeout) =
      b.nodes.filter fun n => !decide (badTimeout < now - n.lastChanged) := by
    simp only [← decide_not, not_lt]
  rw [hbad, hfilter]
  constructor
  · intro h
    by_contra hcount
    -- the second of the bad nodes is left
    have hlen : 1 < (b.nodes.findIdxs fun n => badTimeout < now - n.lastChanged).length := by
      rw [length_findIdxs]
      omega
    obtain ⟨i1, i2, indexes, hidx⟩ : ∃ i1 i2 l,
        (b.nodes.findIdxs fun n => badTimeout < now - n.lastChanged) = i1 :: i2 :: l := by
      generalize b.nodes.findIdxs (fun n => badTimeout < now - n.lastChanged) = l at hlen
      rcases l with _ | ⟨i1, _ | ⟨i2, l⟩⟩
      · cases hlen
      · exact absurd hlen (lt_irrefl 1)
      · exact ⟨i1, i2, l, rfl⟩
    have hmem : i2 ∈ b.nodes.findIdxs fun n => badTimeout < now - n.lastChanged := by
      rw [hidx]
      exact mem_cons_of_mem _ mem_cons_self
    obtain ⟨hi2, hbad2⟩ := mem_findIdxs_iff_exists_getElem_pos.1 hmem
    have hpair : (b.nodes.findIdxs fun n => badTimeout < now - n.lastChanged).Pairwise (· < ·) :=
      pairwise_findIdxs
    rw [hidx] at hpair h
    have hleft := mem_delNodesByIndex hpair (getElem?_eq_getElem hi2)
    rw [h] at hleft
    have := (mem_filter.1 hleft).2
    rw [hbad2] at this
    cases this
  · intro h
    exact delNodesByIndex_findIdxs h

/-- **The check is exact with at most one bad node.** -/
theorem checkBucket_exact_iff
    (hdue : dubiousTimeout ≤ mo.now - ((s.table ipv6).bkts i).lastChanged) :
    ChecksExactly p mo ipv6 i s ↔ (∀ n ∈ ((s.table ipv6).bkts i).dubious mo.now, s.Pingable n) ∧
      (((s.table ipv6).bkts i).nodes.countP fun n => badTimeout < mo.now - n.lastChanged) ≤ 1 := by
  set b := (s.table ipv6).bkts i with hb
  by_cases hping : ∀ n ∈ b.dubious mo.now, s.Pingable n
  · obtain ⟨s', l, hrun, haside, hev, hl⟩ := exec_pings p mo hping
    have hcheck := exec_checkBucket hdue hrun
    have hafter : (s'.table ipv6).bkts i = b := by rw [haside.table, hb]
    rw [← hb, checkAllNodes_eq hdue] at hcheck
    rw [and_iff_right hping, ← delete_exact_iff]
    constructor
    · intro h
      have hreturns := h.returns
      have hkept := h.kept
      rw [hcheck] at hreturns hkept
      rw [table_setTable, nodes_checkBucket, hafter, checkAllNodes_eq hdue] at hkept
      refine Prod.ext hkept ?_
      by_contra hfalse
      rw [if_neg hfalse] at hreturns
      cases hreturns
    · intro h
      rw [h] at hcheck
      refine ⟨by rw [hcheck]; rfl, ?_, l, ?_, ?_⟩
      · rw [hcheck, table_setTable, nodes_checkBucket, hafter, checkAllNodes_eq hdue, h]
      · rw [hcheck, events_setTable, hev]
      · rw [← hb, ← dubious_eq]
        exact hl
  · obtain ⟨s', hrun⟩ := exec_pings_none p mo hping
    refine iff_of_false (fun h => ?_) fun h => hping h.1
    have hreturns := h.returns
    rw [exec_checkBucket_none hdue hrun] at hreturns
    cases hreturns

def firstBucket : Fin bktlen := (0 : Fin 160)

def twoNodes : Server := pairServer sampleTarget sampleId sampleTarget

theorem checkBucket_exact_dubious : dubiousTimeout ≤
        (calm (minute * 20)).now - ((twoNodes.table false).bkts firstBucket).lastChanged ∧
      ChecksExactly samplePlatform (calm (minute * 20)) false firstBucket twoNodes := by
  refine ⟨by decide, (checkBucket_exact_iff (by decide)).2 ⟨?_, by decide⟩⟩
  intro n hn
  exact .inr (by revert n; decide)

theorem checkBucket_two_bad : dubiousTimeout ≤
        (calm (minute * 30)).now - ((twoNodes.table false).bkts firstBucket).lastChanged ∧
      ¬ ChecksExactly samplePlatform (calm (minute * 30)) false firstBucket twoNodes := by
  refine ⟨by decide, fun h => ?_⟩
  have hnone : ((checkBucket samplePlatform (calm (minute * 30)) (table false) (setTable false)
      firstBucket).exec twoNodes).1 = none := by decide
  rw [h.returns] at hnone
  cases hnone

end Server

end GoI2pBt.Dht
