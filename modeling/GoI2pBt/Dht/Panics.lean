/-
  Which packets make the server panic.
-/
import GoI2pBt.Dht.Tokens

namespace GoI2pBt.Dht.Server

open List Act Krpc Metainfo Option Message
open Bencode (Env Error)

/-! ## Addresses -/

def OnUDP : NetAddr → Prop
  | .udpAddr ip _ _ => ip.length = 4 ∨ ip.length = 16
  | _ => False

structure Proper (n : Node) : Prop where
  ip : n.addr.ip ≠ none
  sized : n.addr.Sized

theorem proper_udp {a} (h : OnUDP a) (id : Hash) : Proper (NewNodeByUDPAddr id a) := by
  cases a with
  | udpAddr ip port zone => exact ⟨some_ne_none _, h⟩
  | _ => exact h.elim

theorem proper_onIP {n} (h : ∃ ip, OnIP n.addr ip) : Proper n := by
  obtain ⟨ip, hip, hlen⟩ := h
  refine ⟨by rw [hip]; exact some_ne_none _, ?_⟩
  unfold Address.Sized
  rw [hip]
  exact hlen

theorem Proper.equal {n o} (hn : Proper n) (ho : Proper o) (net : Net) :
    o.addr.Equal net n.addr ≠ none := by
  obtain ⟨ip, hip⟩ := ne_none_iff_exists'.1 hn.ip
  obtain ⟨ip', hip'⟩ := ne_none_iff_exists'.1 ho.ip
  unfold Address.Equal
  split_ifs
  · exact some_ne_none _
  · rw [hip, hip']
    exact some_ne_none _

theorem newAddress_udp {a} (h : OnUDP a) (port : UInt16) :
    (NewAddress (.addr a) port).ip = none := by
  cases a with
  | udpAddr ip port zone => rfl
  | _ => exact h.elim

/-! ## Sound states -/

structure Sound (s : Server) : Prop where
  table4 : ∀ o ∈ s.routingTable4.nodes, Proper o.node
  table6 : ∀ o ∈ s.routingTable6.nodes, Proper o.node
  peers : ∀ peer ∈ s.tokenPeerManager.peers, OnUDP peer.ip

def Safe {α : Type} (x : Act Server α) (s : Server) : Prop := Runs x s fun _ => Sound

variable {p : Platform} {mo : Moment} {s s₁ : Server}

theorem sound_effect {Offered From s'} (hO : ∀ n, Offered n → Proper n) (hF : ∀ a, From a → OnUDP a)
    (he : Effect p mo Offered From s s') (hs : s.Sound) : s'.Sound := by
  obtain ⟨h4, h6⟩ := allNodes_effect hO he ⟨hs.table4, hs.table6⟩
  refine ⟨h4, h6, ?_⟩
  cases he with
  | @peer a ha id token =>
    intro peer hpeer
    rcases mem_append.1 hpeer with hpeer | hpeer
    · exact hs.peers peer (mem_of_mem_filter hpeer)
    · rw [mem_singleton.1 hpeer]
      exact hF a ha
  | expirePeers interval => exact fun peer hpeer => hs.peers peer (mem_of_mem_filter hpeer)
  | _ => exact hs.peers

/-! ## Nodes -/

theorem safe_emit (e : Event) (hs : s.Sound) : Safe (emit e) s :=
  runs_modify ⟨hs.table4, hs.table6, hs.peers⟩

theorem safe_AddNode {n} (hn : Proper n) (hs : s.Sound) : Safe (AddNode p mo n) s := by
  have hne : s.AllNodes fun o => o.id = n.id → o.addr.Equal p.net n.addr ≠ none :=
    ⟨fun o ho _ => hn.equal (hs.table4 o ho) p.net, fun o ho _ => hn.equal (hs.table6 o ho) p.net⟩
  obtain ⟨r, s', hrun, -⟩ : Runs (AddNode p mo n) s _ := runs_AddNode hne
  have hdoes : Does (Effect p mo Proper OnUDP) (AddNode p mo n) s :=
    does_AddNode allows_effect.toAdmits hn
  refine ⟨r, s', hrun, ?_⟩
  have hkeeps := hdoes.keeps (sound_effect (fun _ h => h) fun _ h => h) hs
  rwa [hrun] at hkeeps

theorem safe_addNode {a} (ha : OnUDP a) (id : Hash) (ro : Bool) (hs : s.Sound) :
    Safe (addNode p mo a id ro) s := by
  unfold addNode
  split_ifs
  · exact runs_pure hs
  · exact runs_bind (safe_AddNode (proper_udp ha id) hs) fun r s' hs' =>
      runs_bind (runs_when (fun _ => runs_modify ⟨hs'.table4, hs'.table6, hs'.peers⟩) fun _ => hs')
        fun _ _ hs' => runs_pure hs'

theorem safe_addNode2 {n} (hn : Proper n) (ro : Bool) (hs : s.Sound) :
    Safe (addNode2 p mo n ro) s := by
  unfold addNode2
  split_ifs
  · exact runs_pure hs
  · exact safe_AddNode hn hs

/-! ## Sending -/

theorem safe_send {a : NetAddr} {m : Message} (ht : m.t ≠ []) (hy : m.y ≠ [])
    (h6 : ∀ n ∈ m.r.nodes6, n.addr.Sized) (hv : ∀ v ∈ m.r.values, v.ip ≠ none) (hs : s.Sound) :
    Safe (send p mo (some a) m) s := by
  obtain ⟨b, hb⟩ : ∃ b, ({ m with ro := s.conf.readOnly } : Message).Encode p.env p.net mo.nils =
      .ok b := encode_ok mo.nils p.env p.net h6 hv
  obtain ⟨err, bl, hrun⟩ : ∃ err bl, (_send p mo (some a) { m with ro := s.conf.readOnly }).exec s =
      (some err, s.sent a { m with ro := s.conf.readOnly } (mo.write (some a) b) bl) :=
    exec_rawSend ht hy hb
  exact runs_get_bind ⟨err, _, hrun, hs.table4, hs.table6, hs.peers⟩

theorem safe_sendError (a : NetAddr) {tid : Bytes} (ht : tid ≠ []) (reason : Bytes) (code : Int64)
    (hs : s.Sound) : Safe (sendError p mo a tid reason code) s :=
  runs_bind (safe_send ht (cons_ne_nil _ _) (fun _ h => nomatch h) (fun _ h => nomatch h) hs)
    fun _ _ hs' => runs_pure hs'

theorem safe_reply (a : NetAddr) {tid : Bytes} (ht : tid ≠ []) {r : ResponseResult}
    (h6 : ∀ n ∈ r.nodes6, n.addr.Sized) (hv : ∀ v ∈ r.values, v.ip ≠ none) (hs : s.Sound) :
    Safe (reply p mo a tid r) s := by
  obtain ⟨w, bl, hrun⟩ : ∃ w bl, (reply p mo a tid r).exec s =
      (some (), s.sent a (s.responseMsg tid r) w bl) := exec_reply_ok ht h6 hv
  exact ⟨(), _, hrun, hs.table4, hs.table6, hs.peers⟩

theorem getTransactionID_ne_nil (tm : TransactionManager) : tm.GetTransactionID.1 ≠ [] := by
  unfold TransactionManager.GetTransactionID
  dsimp only
  split_ifs with htid
  · exact cons_ne_nil _ _
  · have hne : (tm.tid + 1).toNat ≠ 0 := fun h => htid (UInt32.toNat_inj.1 h)
    simpa [TransactionManager.formatBase36, Nat.digits_eq_nil_iff_eq_zero] using hne

theorem safe_request (a : NetAddr) (query : Bytes) (arg : QueryArg) (depth : ℤ)
    (visited : List Hash) (cb : Option ℕ) (onResp : OnResponse) (hs : s.Sound) :
    Safe (request p mo (some a) query arg depth visited cb onResp) s := by
  refine runs_get_bind ?_
  split_ifs
  · exact runs_pure hs
  · have hid : s.transactionManager.GetTransactionID.1 ≠ [] := getTransactionID_ne_nil _
    have hmodify : Safe (modify fun s => { s with
        transactionManager := s.transactionManager.GetTransactionID.2 }) s :=
      runs_modify ⟨hs.table4, hs.table6, hs.peers⟩
    refine runs_bind hmodify fun _ s₁ hs1 => runs_bind (safe_send hid (cons_ne_nil _ _)
      (fun _ h => nomatch h) (fun _ h => nomatch h) hs1) fun err s2 hs2 => ?_
    exact runs_bind (runs_when (fun _ => runs_modify ⟨hs2.table4, hs2.table6, hs2.peers⟩)
      fun _ => hs2) fun _ _ hs3 => runs_pure hs3

theorem safe_done (t : Transaction) (r : Result) (hs : s.Sound) : Safe (done t r) s := by
  unfold done
  split
  · exact runs_pure hs
  · exact safe_emit _ hs

/-! ## Queries -/

variable {raddr : NetAddr} {m : Message} {data : Bytes}

theorem sized_populateNodes (hs : s.Sound) (raddr : NetAddr) (a : QueryArg) (target : Hash)
    {r} (hr : r.nodes6 = []) :
    ∀ n ∈ (s.populateNodes raddr a target r).nodes6, n.addr.Sized := by
  rw [populateNodes_eq, hr]
  dsimp only
  split_ifs
  · intro n hn
    obtain ⟨o, ho, rfl⟩ := (isClosest_closest s.routingTable6 target s.conf.k).mem hn
    exact (hs.table6 o ho).sized
  · exact fun n hn => nomatch hn

theorem values_populateNodes (s : Server) (raddr : NetAddr) (a : QueryArg) (target : Hash)
    (r : ResponseResult) : (s.populateNodes raddr a target r).values = r.values := by
  rw [populateNodes_eq]

theorem safe_replyNodes (ht : m.t ≠ []) (target : Hash) {r} (h6 : r.nodes6 = [])
    (hv : r.values = []) (hs : s.Sound) :
    Safe (reply p mo raddr m.t (s.populateNodes raddr m.a target r)) s := by
  refine safe_reply raddr ht (sized_populateNodes hs raddr m.a target h6) ?_ hs
  rw [values_populateNodes, hv]
  exact fun v hv => nomatch hv

theorem safe_handleAnnouncePeerQuery (ht : m.t ≠ []) (hs : s.Sound) :
    Safe (handleAnnouncePeerQuery p mo raddr m) s := by
  refine runs_get_bind ?_
  split_ifs
  · exact runs_pure hs
  · exact runs_bind (safe_reply raddr ht (fun _ h => nomatch h) (fun _ h => nomatch h) hs)
      fun _ _ hs' => safe_emit _ hs'

theorem safe_handlePutQuery (ht : m.t ≠ []) (hs : s.Sound) :
    Safe (handlePutQuery p mo raddr m) s := by
  refine runs_get_bind ?_
  have hmodify : ∀ ds, Safe (modify fun s => { s with dataStore := ds }) s := fun ds =>
    runs_modify ⟨hs.table4, hs.table6, hs.peers⟩
  refine runs_bind (hmodify _) fun _ s' hs' => ?_
  split
  · exact safe_sendError raddr ht _ _ hs'
  · exact safe_reply raddr ht (fun _ h => nomatch h) (fun _ h => nomatch h) hs'

theorem lists_getQuery (ds : DataStore) (target : Hash) (now : ℤ) :
    (getQuery ds target now).nodes6 = [] ∧ (getQuery ds target now).values = [] := by
  unfold getQuery
  split
  · exact ⟨rfl, rfl⟩
  · split_ifs
    · exact ⟨rfl, rfl⟩
    · exact ⟨rfl, rfl⟩

/-! ## Peers -/

def HasPeer (s : Server) (infohash : Hash) : Prop :=
  ∃ peer ∈ s.tokenPeerManager.peers, peer.id = infohash

theorem mem_getPeers_ip (hs : s.Sound) (ord : Order Peer) {infohash k v}
    (hv : v ∈ s.tokenPeerManager.GetPeers ord.1 infohash k) : v.ip = none := by
  obtain ⟨peer, hpeer, rfl⟩ := mem_map.1 hv
  have hmem := (ord.2 _).mem_iff.1 (mem_of_mem_take hpeer)
  exact newAddress_udp (hs.peers peer (mem_of_mem_filter hmem)) peer.port

theorem getPeers_eq_nil (s : Server) (ord : Order Peer) (infohash : Hash) :
    s.tokenPeerManager.GetPeers ord.1 infohash s.conf.k = [] ↔ ¬ s.HasPeer infohash := by
  have hlen := (ord.2 (s.tokenPeerManager.peers.filter fun peer => peer.id = infohash)).length_eq
  rw [TokenPeerManager.GetPeers, map_eq_nil_iff, take_eq_nil_iff,
    or_iff_right s.conf.k_pos.ne', ← length_eq_zero_iff, hlen, length_eq_zero_iff,
    filter_eq_nil_iff]
  simp [HasPeer]

theorem populatePeersResponse_spec (hs : s.Sound) (raddr : NetAddr) (a : QueryArg) :
    (∀ v ∈ s.populatePeersResponse mo raddr a, v.ip = none) ∧
      (s.populatePeersResponse mo raddr a = [] ↔ ¬ s.HasPeer a.infoHash) := by
  have hget : ∀ ipv6, (∀ v ∈ s.tokenPeerManager.GetPeers (mo.peerOrder ipv6).1 a.infoHash s.conf.k,
        v.ip = none) ∧
      (s.tokenPeerManager.GetPeers (mo.peerOrder ipv6).1 a.infoHash s.conf.k = [] ↔
        ¬ s.HasPeer a.infoHash) :=
    fun ipv6 => ⟨fun v => mem_getPeers_ip hs _, getPeers_eq_nil s _ _⟩
  unfold populatePeersResponse
  cases h4 : a.ContainsWant WantNodes with
  | false =>
    cases h6 : a.ContainsWant WantNodes6 with
    | false => exact hget _
    | true => exact hget true
  | true =>
    cases h6 : a.ContainsWant WantNodes6 with
    | false => exact hget false
    | true =>
      by_cases hnil : s.tokenPeerManager.GetPeers (mo.peerOrder false).1 a.infoHash s.conf.k = []
      · simp only [Bool.not_true, Bool.and_self, Bool.false_eq_true, if_false, if_true, if_pos hnil]
        exact hget true
      · simp only [Bool.not_true, Bool.and_self, Bool.false_eq_true, if_false, if_true, if_neg hnil]
        refine ⟨fun v hv => ?_, ?_⟩
        · rcases mem_append.1 hv with hv | hv
          · exact (hget false).1 v hv
          · exact (hget true).1 v hv
        · rw [append_eq_nil_iff, (hget false).2, (hget true).2, and_self]

theorem peersResponse_of_not_hasPeer (hs : s.Sound) (raddr : NetAddr) {a}
    (h : ¬ s.HasPeer a.infoHash) :
    s.peersResponse mo raddr a = s.populateNodes raddr a a.infoHash {} := by
  unfold peersResponse
  rw [if_pos ((populatePeersResponse_spec hs raddr a).2.2 h)]

theorem peersResponse_of_hasPeer (hs : s.Sound) (raddr : NetAddr) {a}
    (h : s.HasPeer a.infoHash) : ∃ v ∈ (s.peersResponse mo raddr a).values, v.ip = none := by
  obtain ⟨hip, hnil⟩ : (∀ v ∈ s.populatePeersResponse mo raddr a, v.ip = none) ∧ _ :=
    populatePeersResponse_spec hs raddr a
  have hne : s.populatePeersResponse mo raddr a ≠ [] := fun he => hnil.1 he h
  obtain ⟨v, hv⟩ := exists_mem_of_ne_nil _ hne
  refine ⟨v, ?_, hip v hv⟩
  unfold peersResponse
  rwa [if_neg hne]

theorem safe_handleGetPeersQuery (ht : m.t ≠ []) (h : ¬ s.HasPeer m.a.infoHash) (hs : s.Sound) :
    Safe (handleGetPeersQuery p mo raddr m) s := by
  refine runs_get_bind ?_
  rw [peersResponse_of_not_hasPeer hs raddr h]
  have hmodify : Safe (modify fun s => { s with
      tokenManager := s.tokenManager.Token p.net raddr mo.now }) s :=
    runs_modify ⟨hs.table4, hs.table6, hs.peers⟩
  refine runs_bind hmodify fun _ s' hs' => runs_bind (safe_reply raddr ht
    (sized_populateNodes hs raddr m.a _ rfl) ?_ hs') fun _ _ hs'' => safe_emit _ hs''
  intro v hv
  change v ∈ (s.populateNodes raddr m.a m.a.infoHash {}).values at hv
  rw [values_populateNodes] at hv
  cases hv

theorem exec_handleGetPeersQuery_none (h : s.HasPeer m.a.infoHash) (hs : s.Sound) :
    ((handleGetPeersQuery p mo raddr m).exec s).1 = none := by
  obtain ⟨v, hv, hip⟩ : ∃ v ∈ (s.peersResponse mo raddr m.a).values, v.ip = none :=
    peersResponse_of_hasPeer hs raddr h
  have hreply : ∀ s', (reply p mo raddr m.t { s.peersResponse mo raddr m.a with
      token := s.tokenManager.new }).exec s' = (none, s') := fun s' =>
    exec_reply_of_not_encode fun b => encode_nil mo.nils p.env p.net hv hip
  rw [handleGetPeersQuery, exec_get_bind, exec_modify_bind, exec_bind_none (hreply _)]

theorem safe_handleQuery (ht : m.t ≠ [])
    (h : m.q = utf8 "get_peers" → ¬ s.HasPeer m.a.infoHash) (hs : s.Sound) :
    Safe (handleQuery p mo raddr m) s := by
  unfold handleQuery
  split_ifs with hq
  · exact safe_reply raddr ht (fun _ h => nomatch h) (fun _ h => nomatch h) hs
  · exact runs_get_bind (safe_replyNodes ht _ rfl rfl hs)
  · exact safe_handleGetPeersQuery ht (h ‹_›) hs
  · exact safe_handleAnnouncePeerQuery ht hs
  · exact runs_get_bind (safe_replyNodes ht _ rfl rfl hs)
  · exact safe_handlePutQuery ht hs
  · exact runs_get_bind
      (safe_replyNodes ht _ (lists_getQuery _ _ _).1 (lists_getQuery _ _ _).2 hs)
  · exact safe_sendError raddr ht _ _ hs

theorem handleQuery_get_peers (h : m.q = utf8 "get_peers") :
    handleQuery p mo raddr m = handleGetPeersQuery p mo raddr m := by
  rw [handleQuery, if_neg (by rw [h]; decide), if_neg (by rw [h]; decide), if_pos h]

/-! ## Responses -/

theorem onIP_addr {a} (h : ∃ ip, OnIP a ip) : ∃ addr, a.Addr = some addr := by
  obtain ⟨ip, hip, -⟩ := h
  unfold Address.Addr
  rw [hip]
  exact ⟨_, rfl⟩

theorem safe_getPeers {addr} (h : ∃ ip, OnIP addr ip) (info : Hash) (depth : ℤ)
    (ids : List Hash) (cb : Option ℕ) (hs : s.Sound) :
    Safe (getPeers p mo info addr depth ids cb) s := by
  obtain ⟨a, ha⟩ := onIP_addr h
  obtain ⟨ip, hip, -⟩ := h
  unfold getPeers
  rw [ha]
  refine runs_get_bind (runs_bind (safe_request _ _ _ _ _ _ _ hs) fun err s' hs' =>
    runs_when (fun hc => ?_) fun _ => hs')
  rw [hip] at hc
  cases hc.2

theorem safe_sendFindNodeQuery {node} (h : ∃ ip, OnIP node.addr ip) (t : Transaction)
    (ids : List Hash) (hs : s.Sound) : Safe (sendFindNodeQuery p mo t ids node) s := by
  obtain ⟨a, ha⟩ := onIP_addr h
  obtain ⟨ip, hip, -⟩ := h
  unfold sendFindNodeQuery findNode
  rw [ha]
  refine runs_bind (runs_get_bind (safe_request _ _ _ _ _ _ _ hs)) fun err s' hs' =>
    runs_when (fun hc => ?_) fun _ => hs'
  rw [hip] at hc
  cases hc.2

theorem runs_processNodeList (target : Hash) (ids : List Hash) (ro : Bool) {l}
    (h : OnIPs l) (hs : s.Sound) :
    Runs (processNodeList p mo target ids ro l) s fun r s' => OnIPs r.2 ∧ s'.Sound := by
  induction l generalizing s with
  | nil => exact runs_pure ⟨h, hs⟩
  | cons n l ih =>
    have hn := h n mem_cons_self
    have hadd : Safe (if n.id ∈ ids then pure .nodeNotAdded else addNode2 p mo n ro) s := by
      split_ifs
      · exact runs_pure hs
      · exact safe_addNode2 (proper_onIP hn) ro hs
    refine runs_bind hadd fun r s₁ hs1 => runs_bind
      (ih (fun n hn => h n (mem_cons_of_mem _ hn)) hs1) fun rest s2 hrest => ?_
    refine runs_pure ⟨?_, hrest.2⟩
    dsimp only
    split_ifs
    · exact forall_mem_cons.2 ⟨hn, hrest.1⟩
    · exact hrest.1

theorem runs_processResponseNodes (target : Hash) (visited : List Hash)
    (h : OnIPs (m.r.nodes ++ m.r.nodes6)) (hs : s.Sound) :
    Runs (processResponseNodes p mo target visited m) s fun r s' => OnIPs r.2.1 ∧ s'.Sound := by
  obtain ⟨h4, h6⟩ := forall_mem_append.1 h
  refine runs_bind (runs_processNodeList target visited m.ro h4 hs) fun r s₁ hr => ?_
  dsimp only
  split_ifs
  · exact runs_pure hr
  · exact runs_bind (runs_processNodeList target _ m.ro h6 hr.2) fun r6 s2 hr6 =>
      runs_pure ⟨forall_mem_append.2 ⟨hr.1, hr6.1⟩, hr6.2⟩

theorem safe_storeTokenIfPresent {a} (ha : OnUDP a) (hs : s.Sound) :
    Safe (storeTokenIfPresent p mo m a) s := by
  have he : Effect p mo Proper OnUDP s { s with
      tokenPeerManager := s.tokenPeerManager.Set p.net m.r.id a m.r.token mo.now } := .peer ha _ _
  exact runs_when (fun _ => runs_modify (sound_effect (fun _ h => h) (fun _ h => h) he hs))
    fun _ => hs

theorem safe_onGetPeersResp (t : Transaction) {a} (ha : OnUDP a)
    (h : OnIPs (m.r.nodes ++ m.r.nodes6)) (hs : s.Sound) :
    Safe (onGetPeersResp p mo t a m) s := by
  refine runs_bind (safe_storeTokenIfPresent ha hs) fun _ s₁ hs1 => ?_
  split_ifs
  · exact runs_bind (safe_done t _ hs1) fun _ s2 hs2 =>
      runs_each (fun _ _ _ hs => safe_emit _ hs) hs2
  · refine runs_bind (safe_done t _ hs1) fun _ s2 hs2 => runs_when (fun _ => ?_) fun _ => hs2
    refine runs_bind (runs_processResponseNodes _ _ h hs2) fun r s3 hr =>
      runs_when (fun _ => ?_) fun _ => hr.2
    exact runs_each (fun n hn _ hs => safe_getPeers (hr.1 n hn) _ _ _ _ hs) hr.2

theorem safe_onFindNodeResp (t : Transaction) (h : OnIPs (m.r.nodes ++ m.r.nodes6))
    (hs : s.Sound) : Safe (onFindNodeResp p mo t m) s := by
  refine runs_when (fun _ => ?_) fun _ => hs
  refine runs_bind (runs_processResponseNodes _ _ h hs) fun r s₁ hr =>
    runs_when (fun _ => ?_) fun _ => hr.2
  exact runs_each (fun n hn _ hs => safe_sendFindNodeQuery (hr.1 n hn) t _ hs) hr.2

theorem safe_onResponse (t : Transaction) {a} (ha : OnUDP a)
    (h : OnIPs (m.r.nodes ++ m.r.nodes6)) (hs : s.Sound) : Safe (onResponse p mo t a m) s := by
  unfold onResponse
  split
  · exact runs_pure hs
  · exact safe_done t _ hs
  · exact safe_onGetPeersResp t ha h hs
  · exact safe_onFindNodeResp t h hs

theorem safe_withTransaction (raddr : NetAddr) (tid : Bytes) {k}
    (hk : ∀ t s, s.Sound → Safe (k t) s) (hs : s.Sound) :
    Safe (withTransaction p raddr tid k) s := by
  have hmodify : ∀ tm, Safe (modify fun s => { s with transactionManager := tm }) s := fun tm =>
    runs_modify ⟨hs.table4, hs.table6, hs.peers⟩
  refine runs_get_bind (runs_bind (hmodify _) fun _ s₁ hs1 => ?_)
  split
  · exact runs_pure hs1
  · exact hk _ _ hs1

/-! ## Packets -/

theorem safe_handleMessage (ha : OnUDP raddr) (hq : m.IsQuery = false)
    (h : OnIPs (m.r.nodes ++ m.r.nodes6)) (hs : s.Sound) : Safe (handleMessage p mo raddr m) s := by
  unfold handleMessage
  rw [hq, if_neg Bool.false_ne_true]
  split_ifs
  · refine runs_when (fun _ => ?_) fun _ => hs
    refine runs_bind (safe_addNode ha m.r.id m.ro hs) fun r s₁ hs1 =>
      runs_when (fun _ => ?_) fun _ => hs1
    exact safe_withTransaction raddr m.t (fun t _ hs => safe_onResponse t ha h hs) hs1
  · exact safe_withTransaction raddr m.t (fun t _ hs => safe_done t _ hs) hs
  · exact runs_pure hs

theorem safe_handleQueryMessage (ha : OnUDP raddr) (ht : m.t ≠ [])
    (h : ∀ {r s₁}, (addNode p mo raddr m.a.id m.ro).exec s = (some r, s₁) →
      m.a.id.IsZero = false → r ≠ .nodeExistAndChanged → s.conf.readOnly = false →
      m.q = utf8 "get_peers" → ¬ s₁.HasPeer m.a.infoHash) (hs : s.Sound) :
    Safe (handleQueryMessage p mo raddr m) s := by
  refine runs_when (fun hid => ?_) fun _ => hs
  obtain ⟨r, s₁, hadd, hs1⟩ : Safe (addNode p mo raddr m.a.id m.ro) s :=
    safe_addNode ha m.a.id m.ro hs
  have hk : Kept s ((addNode p mo raddr m.a.id m.ro).exec s).2 := kept_addNode _ _ _
  rw [hadd] at hk
  refine runs_bind_of_exec hadd (runs_get_bind (runs_when (fun hc => ?_) fun _ => hs1))
  rw [hk.conf] at hc
  exact safe_handleQuery ht (h hadd (by simpa using hid) hc.1 (by simpa using hc.2)) hs1

structure AsksForPeer (p : Platform) (mo : Moment) (raddr : NetAddr) (m : Message) (s : Server) :
    Prop where
  query : m.IsQuery = true
  handled : ∃ s₁, Handled p mo raddr m s s₁
  method : m.q = utf8 "get_peers"
  peer : s.HasPeer m.a.infoHash

theorem hasPeer_kept (h : Kept s s₁) (infohash : Hash) :
    s₁.HasPeer infohash ↔ s.HasPeer infohash := by
  unfold HasPeer
  rw [h.tokenPeerManager]

theorem safe_handlePacket (ha : OnUDP raddr) (hdec : Decode p.env p.net data = .ok m)
    (h : ¬ AsksForPeer p mo raddr m s) (hs : s.Sound) : Safe (handlePacket p mo raddr data) s := by
  by_cases hpass : s.admits p raddr = true
  swap
  · refine runs_get_bind ?_
    rw [if_pos (by simpa using hpass)]
    exact runs_pure hs
  rw [Safe, Runs, exec_handlePacket_eq hdec hpass]
  refine runs_when (fun ht => ?_) fun _ => hs
  cases hq : m.IsQuery with
  | false => exact safe_handleMessage ha hq (decode_nodes hdec) hs
  | true =>
    unfold handleMessage
    rw [if_pos hq]
    refine safe_handleQueryMessage ha ht (fun {r s₁} hadd hid hr hro hget hpeer => h ?_) hs
    have hhandled : Handled p mo raddr m s s₁ := ⟨hpass, ht, hid, ⟨r, hadd, hr⟩, hro⟩
    exact ⟨hq, ⟨s₁, hhandled⟩, hget, (hasPeer_kept hhandled.kept _).1 hpeer⟩

theorem exec_handlePacket_none (ha : OnUDP raddr) (hdec : Decode p.env p.net data = .ok m)
    (h : AsksForPeer p mo raddr m s) (hs : s.Sound) :
    ((handlePacket p mo raddr data).exec s).1 = none := by
  obtain ⟨s₁, hhandled⟩ := h.handled
  have hs1 : s₁.Sound := by
    obtain ⟨r, hadd, -⟩ := hhandled.added
    obtain ⟨r', s1', hadd', hs1'⟩ : Safe (addNode p mo raddr m.a.id m.ro) s :=
      safe_addNode ha m.a.id m.ro hs
    rw [hadd] at hadd'
    cases hadd'
    exact hs1'
  rw [hhandled.exec hdec h.query, handleQuery_get_peers h.method]
  exact exec_handleGetPeersQuery_none ((hasPeer_kept hhandled.kept _).2 h.peer) hs1

/-! ## Runs -/

def OverUDP : Input → Prop
  | .packet raddr _ => OnUDP raddr
  | .addNode node => Proper node
  | _ => True

theorem proper_of_offers {inp n} (hinp : OverUDP inp) (h : Offers p inp n) : Proper n := by
  cases inp with
  | packet raddr data =>
    obtain ⟨m, hdec, ⟨-, rfl⟩ | ⟨-, rfl | hn⟩⟩ := h
    · exact proper_udp hinp _
    · exact proper_udp hinp _
    · exact proper_onIP (decode_nodes hdec n hn)
  | addNode node =>
    cases h
    exact hinp
  | _ => exact h.elim

theorem onUDP_of_sender {inp a} (hinp : OverUDP inp) (h : Sender inp a) : OnUDP a := by
  cases inp with
  | packet raddr data =>
    cases h
    exact hinp
  | _ => exact h.elim

theorem Reachable.sound (h : Reachable p Proper OverUDP s) : s.Sound := by
  refine h.keeps (fun hnew h4 h6 => ?_) ?_
  swap
  · intro mo inp s s' hinp he hs
    exact sound_effect (fun _ => proper_of_offers hinp) (fun _ => onUDP_of_sender hinp) he hs
  have hreach : Reachable p Proper OverUDP _ := .new hnew h4 h6
  obtain ⟨hall4, hall6⟩ := hreach.allNodes (fun _ hn => hn) fun _ _ => proper_of_offers
  refine ⟨hall4, hall6, ?_⟩
  rw [(newServer_eq_some hnew).2.2.2]
  exact fun peer hpeer => nomatch hpeer

/-- **Only a `get_peers` for a known peer panics.** -/
theorem handlePacket_returns_iff (hs : Reachable p Proper OverUDP s) (mo : Moment)
    (ha : OnUDP raddr) (hdec : Message.Decode p.env p.net data = .ok m) :
    ((handlePacket p mo raddr data).exec s).1 ≠ none ↔ ¬ AsksForPeer p mo raddr m s := by
  constructor
  · exact fun h hpeer => h (exec_handlePacket_none ha hdec hpeer hs.sound)
  · exact fun h => (safe_handlePacket ha hdec h hs.sound).not_none

theorem handlePacket_returns_sample :
    Reachable samplePlatform Proper OverUDP askedServer ∧ OnUDP sampleAddr ∧
      Message.Decode samplePlatform.env samplePlatform.net getPeersPacket = .ok getPeersMsg ∧
      ((handlePacket samplePlatform (calm 1) sampleAddr getPeersPacket).exec askedServer).1 ≠
        none := by
  have ha : OnUDP sampleAddr := .inl rfl
  have hinp : OverUDP (.packet sampleAddr getPeersPacket) := ha
  have hs : Reachable samplePlatform Proper OverUDP askedServer :=
    reachable_sampleServer.step hinp step_askedServer
  have hpeers : askedServer.tokenPeerManager.peers = [] := rfl
  refine ⟨hs, ha, decode_getPeersPacket,
    (handlePacket_returns_iff hs (calm 1) ha decode_getPeersPacket).2 fun h => ?_⟩
  obtain ⟨peer, hpeer, -⟩ := h.peer
  rw [hpeers] at hpeer
  cases hpeer

/-! ## A panic -/

def tokenPacket : Bytes := utf8 "d1:rd2:id20:zyxwvutsrqponmlkjihg5:token1:xe1:t1:11:y1:re"

def tokenMsg : Message := NewResponseMsg (utf8 "1") { id := otherId, token := utf8 "x" }

theorem decode_tokenPacket : Decode samplePlatform.env samplePlatform.net tokenPacket =
    .ok tokenMsg := except_eq_ok (by decide +kernel)

def peeredServer : Server :=
  ((handleMessage samplePlatform (calm 0) tellerAddr tokenMsg).exec searchingServer).2

theorem handlePacket_panics :
    Reachable samplePlatform Proper OverUDP peeredServer ∧ OnUDP sampleAddr ∧
      Message.Decode samplePlatform.env samplePlatform.net getPeersPacket = .ok getPeersMsg ∧
      ((handlePacket samplePlatform (calm 0) sampleAddr getPeersPacket).exec peeredServer).1 =
        none := by
  have hteller : OnUDP tellerAddr := .inl rfl
  have hsearching : Reachable samplePlatform Proper OverUDP searchingServer :=
    reachable_searchingServer (proper_udp hteller _) trivial
  have hinp : OverUDP (.packet tellerAddr tokenPacket) := hteller
  have hstep : step samplePlatform (calm 0) searchingServer (.packet tellerAddr tokenPacket) =
      some peeredServer :=
    step_packet decode_tokenPacket rfl (cons_ne_nil _ _) rfl
  have hadmits : peeredServer.admits samplePlatform sampleAddr = true := rfl
  refine ⟨hsearching.step hinp hstep, .inl rfl, decode_getPeersPacket, ?_⟩
  rw [exec_handlePacket_eq decode_getPeersPacket hadmits]
  rfl

end GoI2pBt.Dht.Server
