/-
  The search for peers ends: each query has a smaller weight.
-/
import GoI2pBt.Dht.Exchange

namespace GoI2pBt.Dht

open List Act Krpc Metainfo

def Event.isGetPeers : Event → Bool
  | .send _ m _ => m.q = utf8 "get_peers"
  | _ => false

namespace Server

variable (p : Platform) (mo : Moment)

/-! ## The transactions that are registered -/

def ask (info : Hash) (depth : ℤ) (ids : List Hash) (cb : Option ℕ) (node : Node) :
    Act Server (Option Transaction) := do
  let s ← get
  let t ← sendQuery p mo node.addr.Addr (utf8 "get_peers") { infoHash := info, wants := s.want }
    depth ids cb .getPeers
  match t with
  | none => do
    Act.when (node.addr.ip = none) Act.crash
    return none
  | some t => do
    modify (register p t)
    return some t

def askAll (info : Hash) (depth : ℤ) (ids : List Hash) (cb : Option ℕ) :
    List Node → Act Server (List Transaction)
  | [] => return []
  | node :: nodes => do
    let t ← ask p mo info depth ids cb node
    let ts ← askAll info depth ids cb nodes
    return t.toList ++ ts

def search (infohash : Hash) (cb : Option ℕ) : Act Server (List Transaction) :=
  if infohash.IsZero then Act.crash
  else do
    let s ← get
    let nodes := s.collectClosestNodes infohash
    if nodes = [] then do
      handleEmptyNodes cb
      return []
    else askAll p mo infohash s.conf.searchDepth (nodes.map Node.id) cb nodes

def followUp (t : Transaction) (a : NetAddr) (m : Message) : Act Server (List Transaction) := do
  storeTokenIfPresent p mo m a
  if m.r.values ≠ [] then do
    done t (.peers m.r.values)
    Act.each (fun addr => emit (.onTorrent t.arg.infoHash addr.ip)) m.r.values
    return []
  else do
    done t .done
    if 1 ≤ t.depth - 1 then do
      let r ← processResponseNodes p mo t.arg.infoHash t.visited m
      if r.1 then return []
      else askAll p mo t.arg.infoHash (t.depth - 1) r.2.2 t.callback r.2.1
    else return []

variable {p mo} {s s' s₁ : Server}

theorem ask_eq (info : Hash) (depth : ℤ) (ids : List Hash) (cb : Option ℕ) (node : Node)
    (s : Server) :
    (getPeers p mo info node.addr depth ids cb).exec s =
      (ask p mo info depth ids cb node >>= fun _ => pure ()).exec s := by
  rw [getPeers, exec_get_bind, exec_bind_congr_left request_eq, bind_assoc, ask, bind_assoc,
    exec_get_bind, bind_assoc]
  refine exec_bind_congr fun t s' => ?_
  cases t with
  | none =>
    change (when (true ∧ node.addr.ip = none) crash).exec _ =
      ((when (node.addr.ip = none) crash >>= fun _ => pure none) >>= fun _ => pure ()).exec _
    by_cases hip : node.addr.ip = none
    · rw [when, if_pos ⟨rfl, hip⟩, when, if_pos hip]
      rfl
    · rw [when, if_neg fun h => hip h.2, when, if_neg hip]
      rfl
  | some t =>
    change (when (false ∧ node.addr.ip = none) crash).exec _ = _
    rw [when, if_neg fun h => Bool.false_ne_true h.1]
    rfl

theorem askAll_eq (info : Hash) (depth : ℤ) (ids : List Hash) (cb : Option ℕ) (nodes : List Node)
    (s : Server) :
    (each (fun node => getPeers p mo info node.addr depth ids cb) nodes).exec s =
      (askAll p mo info depth ids cb nodes >>= fun _ => pure ()).exec s := by
  induction nodes generalizing s with
  | nil => rfl
  | cons node nodes ih =>
    rw [each, exec_bind_congr_left (ask_eq ..), bind_assoc, askAll, bind_assoc]
    refine exec_bind_congr fun t s' => ?_
    rw [exec_pure_bind, ih, bind_assoc]
    rfl

theorem search_eq (infohash : Hash) (cb : Option ℕ) (s : Server) :
    (GetPeers p mo infohash cb).exec s = (search p mo infohash cb >>= fun _ => pure ()).exec s := by
  unfold GetPeers search
  by_cases hzero : infohash.IsZero = true
  · rw [if_pos hzero, if_pos hzero]
    rfl
  · rw [if_neg hzero, if_neg hzero, exec_get_bind, bind_assoc, exec_get_bind]
    dsimp only
    by_cases hnil : s.collectClosestNodes infohash = []
    · rw [if_pos hnil, if_pos hnil, bind_assoc]
      change _ = (handleEmptyNodes cb >>= fun _ => pure ()).exec s
      rw [bind_pure_unit]
    · rw [if_neg hnil, if_neg hnil]
      exact askAll_eq ..

theorem followUp_eq (t : Transaction) (a : NetAddr) (m : Message) (s : Server) :
    (onGetPeersResp p mo t a m).exec s = (followUp p mo t a m >>= fun _ => pure ()).exec s := by
  unfold onGetPeersResp followUp
  rw [bind_assoc]
  refine exec_bind_congr fun _ s₁ => ?_
  by_cases hv : m.r.values ≠ []
  · rw [if_pos hv, if_pos hv, bind_assoc]
    refine exec_bind_congr fun _ s2 => ?_
    rw [bind_assoc]
    change _ = (each _ m.r.values >>= fun _ => pure ()).exec _
    rw [bind_pure_unit]
  · rw [if_neg hv, if_neg hv, bind_assoc]
    refine exec_bind_congr fun _ s2 => ?_
    rw [when]
    by_cases hdepth : 1 ≤ t.depth - 1
    · rw [if_pos hdepth, if_pos hdepth, bind_assoc]
      refine exec_bind_congr fun r s3 => ?_
      rcases r with ⟨found, nodes, ids⟩
      cases found with
      | true => rfl
      | false => exact askAll_eq ..
    · rw [if_neg hdepth, if_neg hdepth]
      rfl

/-! ## The queries that are sent -/

def Queried (info : Hash) (nodes : List Node) (s s' : Server) : Prop :=
  ∃ l asked, s'.events = s.events ++ l ∧ asked.Sublist nodes ∧
    Forall₂ (fun n => Asks (utf8 "get_peers") QueryArg.infoHash info n.addr.Addr) asked
      (l.filter Event.isGetPeers)

theorem Queried.of_events {info nodes l}
    (h : s'.events = s.events ++ l) (hl : ∀ e ∈ l, e.isGetPeers = false) :
    Queried info nodes s s' := by
  have hnil : l.filter Event.isGetPeers = [] :=
    filter_eq_nil_iff.mpr fun e he => ne_true_of_eq_false (hl e he)
  exact ⟨l, [], h, nil_sublist _, by rw [hnil]; exact .nil⟩

theorem Queried.of_eq {info nodes} (h : s'.events = s.events) : Queried info nodes s s' :=
  .of_events (h.trans (append_nil _).symm) fun _ he => absurd he not_mem_nil

theorem Queried.append {info nodes nodes'} (h : Queried info nodes s s₁)
    (h' : Queried info nodes' s₁ s') : Queried info (nodes ++ nodes') s s' := by
  obtain ⟨l, asked, hev, hsub, hall⟩ := h
  obtain ⟨l', asked', hev', hsub', hall'⟩ := h'
  refine ⟨l ++ l', asked ++ asked', ?_, hsub.append hsub', ?_⟩
  · rw [hev', hev, append_assoc]
  · rw [filter_append]
    exact rel_append hall hall'

theorem Queried.mono {info nodes nodes'} (h : Queried info nodes s s')
    (hsub : nodes.Sublist nodes') : Queried info nodes' s s' := by
  obtain ⟨l, asked, hev, hsub', hall⟩ := h
  exact ⟨l, asked, hev, hsub'.trans hsub, hall⟩

theorem Queried.congr_right {info nodes} (h : Queried info nodes s s₁)
    (hev : s'.events = s₁.events) : Queried info nodes s s' := by
  obtain ⟨l, asked, hev', hsub, hall⟩ := h
  exact ⟨l, asked, hev.trans hev', hsub, hall⟩

section Sends

variable (p mo)

theorem events_block (addr : Option NetAddr) (port : ℤ) (s : Server) :
    ((block p mo addr port).exec s).2.events = s.events := by
  cases addr <;> rfl

theorem events_send (raddr : Option NetAddr) (m : Message) (s : Server) :
    ((send p mo raddr m).exec s).2.events = s.events ∨
      ∃ w, ((send p mo raddr m).exec s).2.events =
        s.events ++ [.send raddr { m with ro := s.conf.readOnly } w] := by
  rw [send, exec_get_bind, _send]
  split_ifs with hempty
  · exact .inl rfl
  · cases Message.Encode p.env p.net mo.nils { m with ro := s.conf.readOnly } with
    | error err => exact .inl rfl
    | ok b =>
      refine .inr ⟨mo.write raddr b, ?_⟩
      dsimp only
      rw [emit, exec_modify_bind, when]
      split_ifs with hfail
      · rw [exec_bind]
        have hblock := events_block p mo raddr 0 { s with events := s.events ++
          [.send raddr { m with ro := s.conf.readOnly } (mo.write raddr b)] }
        cases hrun : ((block p mo raddr 0).exec { s with events := s.events ++
          [.send raddr { m with ro := s.conf.readOnly } (mo.write raddr b)] }).1 with
        | none | some => exact hblock
      · rfl

end Sends

structure AtDepth (depth : ℤ) (t : Transaction) : Prop where
  onResponse : t.onResponse = .getPeers
  depth : t.depth = depth

structure Asked (info : Hash) (depth : ℤ) (nodes : List Node) (s : Server)
    (r : Option (List Transaction) × Server) : Prop where
  queried : Queried info nodes s r.2
  length : (r.1.getD []).length ≤ nodes.length
  atDepth : ∀ t ∈ r.1.getD [], AtDepth depth t

theorem Queried.asked {info nodes} (depth : ℤ)
    (h : Queried info nodes s s') : Asked info depth nodes s (none, s') :=
  ⟨h, zero_le, fun _ ht => absurd ht not_mem_nil⟩

theorem Queried.asked_nil {info nodes} (depth : ℤ)
    (h : Queried info nodes s s') : Asked info depth nodes s (some [], s') :=
  ⟨h, zero_le, fun _ ht => absurd ht not_mem_nil⟩

structure AskedOne (info : Hash) (depth : ℤ) (node : Node) (s : Server)
    (r : Option (Option Transaction) × Server) : Prop where
  queried : Queried info [node] s r.2
  atDepth : ∀ t ∈ r.1.join, AtDepth depth t

theorem Queried.askedOne {info node r} (depth : ℤ)
    (h : Queried info [node] s s') (hr : r.join = none) :
    AskedOne info depth node s (r, s') :=
  ⟨h, fun t ht => absurd (hr ▸ ht) (Option.not_mem_none t)⟩

section Asks

variable (p mo)

theorem askedOne_sendQuery (arg : QueryArg) (depth : ℤ) (ids : List Hash) (cb : Option ℕ)
    (node : Node) (s : Server) :
    AskedOne arg.infoHash depth node s ((sendQuery p mo node.addr.Addr (utf8 "get_peers") arg
      depth ids cb .getPeers).exec s) := by
  rw [sendQuery, exec_get_bind]
  split_ifs with hd
  · exact (Queried.of_eq rfl).askedOne depth rfl
  · rw [exec_modify_bind]
    have hqueried : Queried arg.infoHash [node] s ((send p mo node.addr.Addr
        (NewQueryMsg s.transactionManager.GetTransactionID.1 (utf8 "get_peers")
          { arg with id := s.conf.id })).exec
        { s with transactionManager := s.transactionManager.GetTransactionID.2 }).2 := by
      rcases events_send p mo node.addr.Addr
        (NewQueryMsg s.transactionManager.GetTransactionID.1 (utf8 "get_peers")
          { arg with id := s.conf.id })
        { s with transactionManager := s.transactionManager.GetTransactionID.2 } with
        hev | ⟨w, hev⟩
      · exact .of_eq hev
      · exact ⟨_, [node], hev, Sublist.refl _, .cons ⟨_, w, rfl, rfl, rfl⟩ .nil⟩
    refine exec_bind_cases (P := AskedOne arg.infoHash depth node s) (fun s₁ hrun => ?_)
      fun err s₁ hrun => ?_
    · rw [hrun] at hqueried
      exact hqueried.askedOne depth rfl
    · rw [hrun] at hqueried
      cases node.addr.Addr with
      | none => exact hqueried.askedOne depth rfl
      | some a =>
        cases err with
        | true => exact hqueried.askedOne depth rfl
        | false =>
          refine ⟨hqueried, ?_⟩
          rintro t ⟨⟩
          exact ⟨rfl, rfl⟩

theorem askedOne_ask (info : Hash) (depth : ℤ) (ids : List Hash) (cb : Option ℕ) (node : Node)
    (s : Server) :
    AskedOne info depth node s ((ask p mo info depth ids cb node).exec s) := by
  have hasked := askedOne_sendQuery p mo { infoHash := info, wants := s.want } depth ids cb node s
  rw [ask, exec_get_bind]
  refine exec_bind_cases (P := AskedOne info depth node s) (fun s₁ hrun => ?_)
    fun t s₁ hrun => ?_
  · rw [hrun] at hasked
    exact hasked
  · rw [hrun] at hasked
    cases t with
    | none =>
      change AskedOne info depth node s ((when (node.addr.ip = none) crash >>= fun _ =>
        (pure none : Act Server (Option Transaction))).exec s₁)
      rw [when]
      split_ifs with hip
      · exact hasked.queried.askedOne depth rfl
      · exact hasked
    | some t => exact ⟨hasked.queried.congr_right rfl, hasked.atDepth⟩

theorem asked_askAll (info : Hash) (depth : ℤ) (ids : List Hash) (cb : Option ℕ)
    (nodes : List Node) (s : Server) :
    Asked info depth nodes s ((askAll p mo info depth ids cb nodes).exec s) := by
  induction nodes generalizing s with
  | nil => exact (Queried.of_eq rfl).asked_nil depth
  | cons node nodes ih =>
    have hone := askedOne_ask p mo info depth ids cb node s
    rw [askAll]
    refine exec_bind_cases (P := Asked info depth (node :: nodes) s) (fun s₁ hrun => ?_)
      fun t s₁ hrun => ?_
    · rw [hrun] at hone
      exact (hone.queried.mono (singleton_sublist.mpr mem_cons_self)).asked depth
    · rw [hrun] at hone
      have hrest := ih s₁
      refine exec_bind_cases (P := Asked info depth (node :: nodes) s) (fun s2 hrun' => ?_)
        fun ts s2 hrun' => ?_
      · rw [hrun'] at hrest
        exact (hone.queried.append hrest.queried).asked depth
      · rw [hrun'] at hrest
        refine ⟨hone.queried.append hrest.queried, ?_, ?_⟩
        · change (t.toList ++ ts).length ≤ nodes.length + 1
          have hlen : ts.length ≤ nodes.length := hrest.length
          have htoList : t.toList.length ≤ 1 := by cases t <;> simp
          rw [length_append]
          omega
        · intro t' ht'
          rcases mem_append.mp ht' with ht' | ht'
          · exact hone.atDepth t' (Option.mem_toList.mp ht')
          · exact hrest.atDepth t' ht'

end Asks

/-! ## The nodes of an answer -/

theorem events_addNode2 (node : Node) (ro : Bool) (s : Server) :
    ((addNode2 p mo node ro).exec s).2.events = s.events := by
  unfold addNode2
  split_ifs
  · rfl
  · exact (kept_AddNode node).events

structure Listed {α : Type} (nodes : α → List Node) (nodeList : List Node) (ids : List Hash)
    (s : Server) (r : Option α × Server) : Prop where
  events : r.2.events = s.events
  sublist : ∀ a ∈ r.1, (nodes a).Sublist nodeList
  new : ∀ a ∈ r.1, ∀ n ∈ nodes a, n.id ∉ ids

theorem listed_none {α : Type} {nodes : α → List Node} {nodeList : List Node} {ids : List Hash}
    (h : s'.events = s.events) : Listed nodes nodeList ids s (none, s') :=
  ⟨h, fun _ ha => absurd ha (Option.not_mem_none _), fun _ ha => absurd ha (Option.not_mem_none _)⟩

theorem listed_some {α : Type} {nodes : α → List Node} {nodeList : List Node} {ids : List Hash}
    {a : α} (h : s'.events = s.events) (hsub : (nodes a).Sublist nodeList)
    (hnew : ∀ n ∈ nodes a, n.id ∉ ids) : Listed nodes nodeList ids s (some a, s') := by
  refine ⟨h, ?_, ?_⟩
  · rintro _ ⟨⟩
    exact hsub
  · rintro _ ⟨⟩
    exact hnew

section Nodes

variable (p mo)

theorem listed_processNodeList (target : Hash) (ids : List Hash) (ro : Bool)
    (nodeList : List Node) (s : Server) :
    Listed Prod.snd nodeList ids s ((processNodeList p mo target ids ro nodeList).exec s) := by
  induction nodeList generalizing s with
  | nil => exact listed_some rfl (nil_sublist _) fun n hn => absurd hn not_mem_nil
  | cons node nodeList ih =>
    rw [processNodeList]
    -- a node that is added was not visited
    have hadd : ((if node.id ∈ ids then pure .nodeNotAdded else addNode2 p mo node ro :
          Act Server AddStatus).exec s).2.events = s.events ∧
        ∀ r ∈ ((if node.id ∈ ids then pure .nodeNotAdded else addNode2 p mo node ro :
          Act Server AddStatus).exec s).1, r = .nodeAdded → node.id ∉ ids := by
      split_ifs with hid
      · refine ⟨rfl, ?_⟩
        rintro r ⟨⟩ ⟨⟩
      · exact ⟨events_addNode2 node ro s, fun _ _ _ => hid⟩
    obtain ⟨hev, hnew⟩ := hadd
    refine exec_bind_cases (P := Listed Prod.snd (node :: nodeList) ids s) (fun s₁ hrun => ?_)
      fun r s₁ hrun => ?_
    · rw [hrun] at hev
      exact listed_none hev
    · rw [hrun] at hev hnew
      have hrest := ih s₁
      refine exec_bind_cases (P := Listed Prod.snd (node :: nodeList) ids s) (fun s2 hrun' => ?_)
        fun rest s2 hrun' => ?_
      · rw [hrun'] at hrest
        exact listed_none (hrest.events.trans hev)
      · rw [hrun'] at hrest
        have hsub := hrest.sublist rest rfl
        have hids := hrest.new rest rfl
        by_cases hr : r = .nodeAdded
        · rw [if_pos hr]
          refine listed_some (hrest.events.trans hev) (hsub.cons_cons node) fun n hn => ?_
          rcases mem_cons.mp hn with rfl | hn
          · exact hnew r rfl hr
          · exact hids n hn
        · rw [if_neg hr]
          exact listed_some (hrest.events.trans hev) (hsub.cons node) hids

theorem listed_processResponseNodes (target : Hash) (visited : List Hash) (m : Message)
    (s : Server) :
    Listed (fun r => r.2.1) (m.r.nodes ++ m.r.nodes6) visited s
      ((processResponseNodes p mo target visited m).exec s) := by
  have hlist := listed_processNodeList p mo target visited m.ro m.r.nodes s
  rw [processResponseNodes]
  refine exec_bind_cases (P := Listed _ (m.r.nodes ++ m.r.nodes6) visited s) (fun s₁ hrun => ?_)
    fun r s₁ hrun => ?_
  · rw [hrun] at hlist
    exact listed_none hlist.events
  · rw [hrun] at hlist
    have hsub := hlist.sublist r rfl
    have hids := hlist.new r rfl
    dsimp only
    split_ifs with hfound
    · exact listed_some hlist.events (hsub.trans (sublist_append_left _ _)) hids
    · have hlist6 := listed_processNodeList p mo target (visited ++ r.2.map Node.id) m.ro
        m.r.nodes6 s₁
      refine exec_bind_cases (P := Listed _ (m.r.nodes ++ m.r.nodes6) visited s)
        (fun s2 hrun' => ?_) fun r6 s2 hrun' => ?_
      · rw [hrun'] at hlist6
        exact listed_none (hlist6.events.trans hlist.events)
      · rw [hrun'] at hlist6
        refine listed_some (hlist6.events.trans hlist.events)
          (hsub.append (hlist6.sublist r6 rfl)) fun n hn => ?_
        rcases mem_append.mp hn with hn | hn
        · exact hids n hn
        · exact fun hc => hlist6.new r6 rfl n hn (mem_append_left _ hc)

end Nodes

/-! ## One call -/

theorem Asked.prepend {info depth nodes r} (h : Queried info [] s s₁)
    (h' : Asked info depth nodes s₁ r) : Asked info depth nodes s r :=
  ⟨h.append h'.queried, h'.length, h'.atDepth⟩

theorem exec_done (info : Hash) (t : Transaction) (r : Result) (s : Server) :
    ∃ s', (done t r).exec s = (some (), s') ∧ Queried info [] s s' := by
  unfold done
  cases t.callback with
  | none => exact ⟨s, rfl, .of_eq rfl⟩
  | some cb => exact ⟨_, rfl, .of_events rfl fun e he => by rw [mem_singleton.mp he]; rfl⟩

theorem exec_each_onTorrent (info h : Hash) (values : List Address) (s : Server) :
    ∃ s', (each (fun addr => emit (.onTorrent h addr.ip)) values).exec s = (some (), s') ∧
      Queried info [] s s' := by
  induction values generalizing s with
  | nil => exact ⟨s, rfl, .of_eq rfl⟩
  | cons addr values ih =>
    rw [each, emit, exec_modify_bind]
    have hone : Queried info [] s { s with events := s.events ++ [.onTorrent h addr.ip] } :=
      .of_events rfl fun e he => by rw [mem_singleton.mp he]; rfl
    obtain ⟨s', hrun, hrest⟩ := ih { s with events := s.events ++ [.onTorrent h addr.ip] }
    exact ⟨s', hrun, hone.append hrest⟩

theorem asked_search (p : Platform) (mo : Moment) (infohash : Hash) (cb : Option ℕ) (s : Server) :
    Asked infohash s.conf.searchDepth (s.collectClosestNodes infohash) s
      ((search p mo infohash cb).exec s) := by
  unfold search
  split_ifs with hzero
  · exact (Queried.of_eq rfl).asked _
  · rw [exec_get_bind]
    dsimp only
    split_ifs with hnil
    · cases cb with
      | none => exact (Queried.of_eq rfl).asked_nil _
      | some cb =>
        refine Queried.asked_nil _ (.of_events rfl fun e he => ?_)
        rw [mem_singleton.mp he]
        rfl
    · exact asked_askAll ..

structure FollowedUp (t : Transaction) (m : Message) (s : Server)
    (r : Option (List Transaction) × Server) (nodes : List Node) : Prop where
  sublist : nodes.Sublist (m.r.nodes ++ m.r.nodes6)
  new : ∀ n ∈ nodes, n.id ∉ t.visited
  depth : nodes ≠ [] → 2 ≤ t.depth
  asked : Asked t.arg.infoHash (t.depth - 1) nodes s r

theorem followedUp_nil {t m r}
    (h : Asked t.arg.infoHash (t.depth - 1) [] s r) : FollowedUp t m s r [] :=
  ⟨nil_sublist _, fun _ hn => absurd hn not_mem_nil, fun hne => absurd rfl hne, h⟩

theorem followedUp_followUp (p : Platform) (mo : Moment) (t : Transaction) (a : NetAddr)
    (m : Message) (s : Server) :
    ∃ nodes, FollowedUp t m s ((followUp p mo t a m).exec s) nodes := by
  unfold followUp
  -- the token is stored
  obtain ⟨s0, hstore, hev⟩ : ∃ s0, (storeTokenIfPresent p mo m a).exec s = (some (), s0) ∧
      s0.events = s.events := by
    rw [storeTokenIfPresent, when]
    split_ifs
    · exact ⟨_, rfl, rfl⟩
    · exact ⟨_, rfl, rfl⟩
  have hstart : Queried t.arg.infoHash [] s s0 := .of_eq hev
  rw [exec_bind_some hstore]
  split_ifs with hv hdepth
  · obtain ⟨s₁, hrun, hdone⟩ := exec_done t.arg.infoHash t (.peers m.r.values) s0
    obtain ⟨s2, heach, htorrents⟩ := exec_each_onTorrent t.arg.infoHash t.arg.infoHash
      m.r.values s₁
    rw [exec_bind_some hrun, exec_bind_some heach]
    exact ⟨[], followedUp_nil (((hstart.append hdone).append htorrents).asked_nil _)⟩
  · obtain ⟨s₁, hrun, hdone⟩ := exec_done t.arg.infoHash t .done s0
    rw [exec_bind_some hrun]
    have hlist := listed_processResponseNodes p mo t.arg.infoHash t.visited m s₁
    refine exec_bind_cases (P := fun r => ∃ nodes, FollowedUp t m s r nodes)
      (fun s2 hrun' => ?_) fun r s2 hrun' => ?_
    · rw [hrun'] at hlist
      have hproc : Queried t.arg.infoHash [] s₁ s2 := .of_eq hlist.events
      exact ⟨[], followedUp_nil (((hstart.append hdone).append hproc).asked _)⟩
    · rw [hrun'] at hlist
      have hproc : Queried t.arg.infoHash [] s₁ s2 := .of_eq hlist.events
      split_ifs with hfound
      · exact ⟨[], followedUp_nil (((hstart.append hdone).append hproc).asked_nil _)⟩
      · exact ⟨r.2.1, hlist.sublist r rfl, hlist.new r rfl, fun _ => by omega,
          .prepend ((hstart.append hdone).append hproc) (asked_askAll ..)⟩
  · obtain ⟨s₁, hrun, hdone⟩ := exec_done t.arg.infoHash t .done s0
    rw [exec_bind_some hrun]
    exact ⟨[], followedUp_nil ((hstart.append hdone).asked_nil _)⟩

theorem length_collectClosestNodes (s : Server) (infohash : Hash) :
    (s.collectClosestNodes infohash).length ≤ 2 * s.conf.k := by
  have hlen : ∀ (enabled : Bool) (rt : RoutingTable),
      (if enabled then rt.Closest infohash s.conf.k else []).length ≤ s.conf.k := by
    intro enabled rt
    split_ifs
    · rw [(isClosest_closest rt infohash s.conf.k).length]
      exact min_le_left _ _
    · exact zero_le
  rw [collectClosestNodes, length_append, two_mul]
  exact Nat.add_le_add (hlen _ _) (hlen _ _)

def newQueries (s s' : Server) : List Event :=
  (s'.events.drop s.events.length).filter Event.isGetPeers

theorem Queried.newQueries {info nodes} (h : Queried info nodes s s') :
    ∃ asked : List Node, asked.Sublist nodes ∧
      Forall₂ (fun n => Asks (utf8 "get_peers") QueryArg.infoHash info n.addr.Addr) asked
        (s.newQueries s') := by
  obtain ⟨l, asked, hev, hsub, hall⟩ := h
  refine ⟨asked, hsub, ?_⟩
  rw [Server.newQueries, hev, drop_left]
  exact hall

theorem Queried.length_newQueries {info nodes}
    (h : Queried info nodes s s') : (s.newQueries s').length ≤ nodes.length := by
  obtain ⟨asked, hsub, hall⟩ := h.newQueries
  rw [← hall.length_eq]
  exact hsub.length_le

theorem followedUp_packet {raddr data t m}
    (h : (receive p mo raddr data).exec s = (some (some (.onResponse t raddr m)), s₁))
    (ht : t.onResponse = .getPeers) :
    ∃ nodes, FollowedUp t m s (((followUp p mo t raddr m).exec s₁).1,
      ((handlePacket p mo raddr data).exec s).2) nodes := by
  have hrun : ((handlePacket p mo raddr data).exec s).2 =
      ((followUp p mo t raddr m).exec s₁).2 := by
    rw [handlePacket_eq, exec_bind_some h]
    change ((onResponse p mo t raddr m).exec s₁).2 = _
    rw [onResponse, ht]
    dsimp only
    rw [followUp_eq, exec_bind]
    cases ((followUp p mo t raddr m).exec s₁).1 <;> rfl
  obtain ⟨nodes, hnodes⟩ := followedUp_followUp p mo t raddr m s₁
  rw [hrun]
  exact ⟨nodes, hnodes.sublist, hnodes.new, hnodes.depth,
    .prepend (.of_eq (accepted_of_receive h).2.2) hnodes.asked⟩

end Server

/-! ## The search -/

structure Round where
  trigger : Option (Transaction × Message)
  queries : List Event

def Round.Fresh (r : Round) : Prop := ∀ t m, r.trigger = some (t, m) → ∃ nodes : List Node,
    nodes.Sublist (m.r.nodes ++ m.r.nodes6) ∧ (∀ n ∈ nodes, n.id ∉ t.visited) ∧
      Forall₂ (fun n => Server.Asks (utf8 "get_peers") QueryArg.infoHash t.arg.infoHash
        n.addr.Addr) nodes r.queries

structure Search where
  server : Server
  asked : List Transaction
  rounds : List Round

namespace Search

variable {r : Option (List Transaction) × Server} {d : ℤ}

def count (x : Search) : ℕ := (x.rounds.map fun r => r.queries.length).sum

theorem count_append (s : Server) (asked : List Transaction) (rounds : List Round) (r : Round) :
    count ⟨s, asked, rounds ++ [r]⟩ =
      (rounds.map fun r => r.queries.length).sum + r.queries.length := by
  rw [count, map_append, sum_append, map_singleton, sum_singleton]

def revisit (visited : Transaction → List Hash) (t : Transaction) : Transaction :=
  { t with visited := visited t }

def IsAnswer (p : Platform) (mo : Moment) (x : Search) : Server.Input → Prop
  | .packet raddr data => ∃ t m s₁, t ∈ x.asked ∧ (Server.receive p mo raddr data).exec x.server =
      (some (some (.onResponse t raddr m)), s₁)
  | _ => False

inductive Reachable (p : Platform) (most : ℕ) (s₀ : Server) : Search → Prop
  | call {mo : Moment} (infohash : Hash) (cb : Option ℕ) {s : Server}
      (h : ((Server.GetPeers p mo infohash cb).exec s₀).2 = s) :
      Reachable p most s₀ ⟨s, (((Server.search p mo infohash cb).exec s₀).1.getD []),
        [⟨none, s₀.newQueries s⟩]⟩
  | answer {mo : Moment} {x : Search} {raddr : NetAddr} {data : Bytes} {t : Transaction}
      {m : Message} {s₁ s : Server} (hx : Reachable p most s₀ x) (ht : t ∈ x.asked)
      (hrun : (Server.receive p mo raddr data).exec x.server =
        (some (some (.onResponse t raddr m)), s₁))
      (hmost : m.r.nodes.length + m.r.nodes6.length ≤ most)
      (h : ((Server.handlePacket p mo raddr data).exec x.server).2 = s) :
      Reachable p most s₀ ⟨s,
        x.asked.erase t ++ (((Server.followUp p mo t raddr m).exec s₁).1.getD []),
        x.rounds ++ [⟨some (t, m), x.server.newQueries s⟩]⟩
  | other {mo : Moment} {x : Search} {inp : Server.Input} (hx : Reachable p most s₀ x)
      (hinp : ¬ IsAnswer p mo x inp) :
      Reachable p most s₀ { x with server := ((Server.act p mo inp).exec x.server).2 }
  | revisited {x : Search} (hx : Reachable p most s₀ x) (visited : Transaction → List Hash) :
      Reachable p most s₀ ⟨{ x.server with transactionManager :=
          { x.server.transactionManager with
            trans := x.server.transactionManager.trans.map (revisit visited) } },
        x.asked.map (revisit visited), x.rounds⟩

/-! ## The weight of a search -/

def weight (most : ℕ) (d : ℤ) : ℕ := most * ∑ i ∈ Finset.range (d.toNat - 1), most ^ i

theorem weight_pred (most : ℕ) (hd : 2 ≤ d) :
    weight most d = most + most * weight most (d - 1) := by
  obtain ⟨n, rfl⟩ : ∃ n : ℕ, d = n + 2 := ⟨(d - 2).toNat, by omega⟩
  have hn : ((n : ℤ) + 2).toNat - 1 = n + 1 := by omega
  have hn' : ((n : ℤ) + 2 - 1).toNat - 1 = n := by omega
  rw [weight, weight, hn, hn', geom_sum_succ, mul_add, mul_one, add_comm]

theorem one_add_weight (most : ℕ) (hd : 1 ≤ d) :
    1 + weight most d = ∑ i ∈ Finset.range d.toNat, most ^ i := by
  obtain ⟨n, rfl⟩ : ∃ n : ℕ, d = n + 1 := ⟨(d - 1).toNat, by omega⟩
  have hn : ((n : ℤ) + 1).toNat = n + 1 := by omega
  rw [weight, hn, Nat.add_sub_cancel, geom_sum_succ, add_comm]

def weights (most : ℕ) (l : List Transaction) : ℕ := (l.map fun t => weight most t.depth).sum

theorem weights_append (most : ℕ) (l l' : List Transaction) :
    weights most (l ++ l') = weights most l + weights most l' := by
  rw [weights, map_append, sum_append]
  rfl

theorem weights_erase (most : ℕ) {l t} (ht : t ∈ l) :
    weights most l = weight most t.depth + weights most (l.erase t) :=
  ((perm_cons_erase ht).map fun t : Transaction => weight most t.depth).sum_eq

theorem weights_le (most : ℕ) {l} (h : ∀ t ∈ l, t.depth = d) :
    weights most l = l.length * weight most d := by
  have hmap : l.map (fun t => weight most t.depth) = replicate l.length (weight most d) := by
    rw [eq_replicate_iff, length_map]
    refine ⟨rfl, fun n hn => ?_⟩
    obtain ⟨t, ht, rfl⟩ := mem_map.mp hn
    rw [h t ht]
  rw [weights, hmap, sum_replicate, smul_eq_mul]

theorem weights_asked {most info nodes s} (h : Server.Asked info d nodes s r) :
    (s.newQueries r.2).length + weights most (r.1.getD []) ≤
      nodes.length * (1 + weight most d) := by
  rw [weights_le most fun t ht => (h.atDepth t ht).depth, mul_add, mul_one]
  exact add_le_add h.queried.length_newQueries (Nat.mul_le_mul_right _ h.length)

theorem weights_followedUp {most t m s nodes}
    (h : Server.FollowedUp t m s r nodes) (hmost : m.r.nodes.length + m.r.nodes6.length ≤ most) :
    (s.newQueries r.2).length + weights most (r.1.getD []) ≤ weight most t.depth := by
  refine (weights_asked h.asked).trans ?_
  by_cases hne : nodes = []
  · rw [hne, length_nil, Nat.zero_mul]
    exact zero_le
  · have hlen : nodes.length ≤ most := by
      refine le_trans ?_ hmost
      rw [← length_append]
      exact h.sublist.length_le
    rw [weight_pred most (h.depth hne), Nat.mul_add, Nat.mul_one]
    exact Nat.add_le_add hlen (Nat.mul_le_mul_right _ hlen)

/-! ## Every state of a search -/

structure Bounded (most k : ℕ) (d : ℤ) (x : Search) : Prop where
  getPeers : ∀ t ∈ x.asked, t.onResponse = .getPeers
  depth : ∀ t ∈ x.asked, 1 ≤ t.depth ∧ t.depth ≤ d
  fresh : ∀ r ∈ x.rounds, r.Fresh
  weight : x.count + weights most x.asked ≤ 2 * k * ∑ i ∈ Finset.range d.toNat, most ^ i

section Steps

variable {p : Platform} {mo : Moment} {most k : ℕ} {d : ℤ} {x : Search}

theorem bounded_call (s0 : Server) (infohash : Hash) (cb : Option ℕ) :
    Bounded most s0.conf.k s0.conf.searchDepth
      ⟨((Server.GetPeers p mo infohash cb).exec s0).2,
        (((Server.search p mo infohash cb).exec s0).1.getD []),
        [⟨none, s0.newQueries ((Server.GetPeers p mo infohash cb).exec s0).2⟩]⟩ := by
  have hasked := Server.asked_search p mo infohash cb s0
  have hrun : ((Server.GetPeers p mo infohash cb).exec s0).2 =
      ((Server.search p mo infohash cb).exec s0).2 := by
    rw [Server.search_eq, exec_bind]
    cases ((Server.search p mo infohash cb).exec s0).1 <;> rfl
  rw [hrun]
  refine ⟨fun t ht => (hasked.atDepth t ht).onResponse, fun t ht => ?_, fun r hr => ?_, ?_⟩
  · rw [(hasked.atDepth t ht).depth]
    exact ⟨s0.conf.searchDepth_pos, le_rfl⟩
  · rw [mem_singleton.mp hr]
    rintro t m ⟨⟩
  · rw [← one_add_weight most s0.conf.searchDepth_pos]
    refine (weights_asked hasked).trans ?_
    exact Nat.mul_le_mul_right _ (s0.length_collectClosestNodes infohash)

theorem bounded_answer {raddr data t m s₁} (hx : Bounded most k d x) (ht : t ∈ x.asked)
    (hrun : (Server.receive p mo raddr data).exec x.server =
      (some (some (.onResponse t raddr m)), s₁))
    (hmost : m.r.nodes.length + m.r.nodes6.length ≤ most) :
    Bounded most k d ⟨((Server.handlePacket p mo raddr data).exec x.server).2,
      x.asked.erase t ++ (((Server.followUp p mo t raddr m).exec s₁).1.getD []),
      x.rounds ++ [⟨some (t, m), x.server.newQueries
        ((Server.handlePacket p mo raddr data).exec x.server).2⟩]⟩ := by
  obtain ⟨nodes, hnodes⟩ := Server.followedUp_packet hrun (hx.getPeers t ht)
  refine ⟨fun t' ht' => ?_, fun t' ht' => ?_, fun r hr => ?_, ?_⟩
  · rcases mem_append.mp ht' with ht' | ht'
    · exact hx.getPeers t' (mem_of_mem_erase ht')
    · exact (hnodes.asked.atDepth t' ht').onResponse
  · rcases mem_append.mp ht' with ht' | ht'
    · exact hx.depth t' (mem_of_mem_erase ht')
    · have hne : nodes ≠ [] := by
        rintro rfl
        rw [length_eq_zero_iff.mp (Nat.le_zero.mp hnodes.asked.length)] at ht'
        cases ht'
      have hdepth := hnodes.depth hne
      have hle := (hx.depth t ht).2
      rw [(hnodes.asked.atDepth t' ht').depth]
      omega
  · rcases mem_append.mp hr with hr | hr
    · exact hx.fresh r hr
    · rw [mem_singleton.mp hr]
      rintro t' m' ⟨⟩
      obtain ⟨asked, hsub, hall⟩ := hnodes.asked.queried.newQueries
      exact ⟨asked, hsub.trans hnodes.sublist, fun n hn => hnodes.new n (hsub.subset hn), hall⟩
  · have hweight := hx.weight
    have hfollowed := weights_followedUp hnodes hmost
    dsimp only at hfollowed
    rw [weights_erase most ht, count] at hweight
    rw [weights_append, count_append]
    dsimp only
    omega

theorem bounded_revisited (hx : Bounded most k d x) (visited : Transaction → List Hash)
    (s : Server) : Bounded most k d ⟨s, x.asked.map (revisit visited), x.rounds⟩ := by
  refine ⟨fun t ht => ?_, fun t ht => ?_, hx.fresh, ?_⟩
  · obtain ⟨t', ht', rfl⟩ := mem_map.mp ht
    exact hx.getPeers t' ht'
  · obtain ⟨t', ht', rfl⟩ := mem_map.mp ht
    exact hx.depth t' ht'
  · have hsame : weights most (x.asked.map (revisit visited)) = weights most x.asked := by
      rw [weights, map_map]
      rfl
    rw [hsame]
    exact hx.weight

theorem Reachable.bounded {s0} (h : Reachable p most s0 x) :
    Bounded most s0.conf.k s0.conf.searchDepth x := by
  induction h with
  | call infohash cb h =>
    subst h
    exact bounded_call _ infohash cb
  | answer _ ht hrun hmost h ih =>
    subst h
    exact bounded_answer ih ht hrun hmost
  | other _ _ ih => exact ⟨ih.getPeers, ih.depth, ih.fresh, ih.weight⟩
  | revisited _ visited ih => exact bounded_revisited ih visited _

end Steps

/-- **A search sends finitely many queries.** -/
theorem finite_of_reachable {p : Platform} {most : ℕ} {s₀ : Server} {x : Search}
    (h : Reachable p most s₀ x) :
    x.count ≤ 2 * s₀.conf.k * ∑ i ∈ Finset.range s₀.conf.searchDepth.toNat, most ^ i ∧
      (∀ t ∈ x.asked, 1 ≤ t.depth ∧ t.depth ≤ s₀.conf.searchDepth) ∧ ∀ r ∈ x.rounds, r.Fresh :=
  ⟨(Nat.le_add_right _ _).trans h.bounded.weight, h.bounded.depth, h.bounded.fresh⟩

/-! ## A run -/

open Server

def knowingServer : Server := { answeredServer with transactionManager := {} }

def peersTransaction : Transaction where
  id := utf8 "1"
  query := utf8 "get_peers"
  arg := { id := sampleTarget, infoHash := sampleTarget, wants := [WantNodes] }
  addr := tellerAddr
  time := 0
  depth := 8
  visited := [otherId]
  callback := none
  onResponse := .getPeers

def calledServer : Server :=
  ((GetPeers samplePlatform (calm 0) sampleTarget none).exec knowingServer).2

theorem registered_knowingServer :
    ((Server.search samplePlatform (calm 0) sampleTarget none).exec knowingServer).1 =
      some [peersTransaction] := by decide +kernel

theorem receive_calledServer : ∃ s₁, (receive samplePlatform (calm 0) tellerAddr nodesPacket).exec
    calledServer = (some (some (.onResponse peersTransaction tellerAddr nodesMsg)), s₁) := by
  have hadmits : calledServer.admits samplePlatform tellerAddr = true := by decide +kernel
  have hadd : ((addNode samplePlatform (calm 0) tellerAddr otherId false).exec calledServer).1 =
    some .nodeExistAndUpdated := by decide +kernel
  have hfind : calledServer.transactionManager.trans.find?
    (TransactionManager.hasKey samplePlatform.net nodesMsg.t tellerAddr) =
      some peersTransaction := by decide +kernel
  obtain ⟨s₁, hrun⟩ := exec_receive decode_nodesPacket (by decide)
    ⟨hadmits, cons_ne_nil _ _, by decide, _, _, exec_of_fst hadd, by decide⟩
  rw [hfind] at hrun
  exact ⟨s₁, hrun⟩

theorem length_newQueries_call : (knowingServer.newQueries calledServer).length = 1 := by
  decide +kernel

theorem length_newQueries_answer : (calledServer.newQueries ((handlePacket samplePlatform (calm 0)
    tellerAddr nodesPacket).exec calledServer).2).length = 1 := by decide +kernel

theorem finite_two_queries : ∃ x, Reachable samplePlatform 1 knowingServer x ∧
    x.count = 2 ∧ x.count ≤ 2 * 8 * ∑ i ∈ Finset.range 8, 1 ^ i := by
  obtain ⟨s₁, hrun⟩ := receive_calledServer
  have hcall : Reachable samplePlatform 1 knowingServer ⟨calledServer,
      (((Server.search samplePlatform (calm 0) sampleTarget none).exec knowingServer).1.getD []),
      [⟨none, knowingServer.newQueries calledServer⟩]⟩ := .call sampleTarget none rfl
  rw [registered_knowingServer] at hcall
  have hanswer := hcall.answer (t := peersTransaction) mem_cons_self hrun (by decide) rfl
  refine ⟨_, hanswer, ?_, (finite_of_reachable hanswer).1⟩
  rw [count_append, map_singleton, sum_singleton, length_newQueries_call]
  dsimp only
  rw [length_newQueries_answer]

end Search

end GoI2pBt.Dht
