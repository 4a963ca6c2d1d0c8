/-
  What each handler of the server may send and change.
-/
import GoI2pBt.Dht.Server

namespace GoI2pBt.Dht.Server

open Act Krpc Metainfo List RoutingTable Option
open Bencode (Env Error)

/-! ## Effects -/

def Plain (s : Server) : Event → Prop
  | .send _ m _ => m.r.token = [] ∨ m.r.token = s.tokenManager.new
  | .rotate _ => False
  | _ => True

def Made (t : Transaction) : Prop := t.onResponse = .findNode → t.depth = 0

inductive Effect (p : Platform) (mo : Moment) (Offered : Node → Prop) (From : NetAddr → Prop) :
    Server → Server → Prop
  | table4 {s : Server} {n : Node} {rt : RoutingTable} {r : AddStatus} (hn : Offered n)
      (h : s.routingTable4.AddNode p.net n mo.now = some (rt, r)) :
      Effect p mo Offered From s (setTable4 rt s)
  | table6 {s : Server} {n : Node} {rt : RoutingTable} {r : AddStatus} (hn : Offered n)
      (h6 : n.addr.IsIPv6 = true) (h : s.routingTable6.AddNode p.net n mo.now = some (rt, r)) :
      Effect p mo Offered From s (setTable6 rt s)
  | check4 (s : Server) (i : Fin bktlen) :
      Effect p mo Offered From s (setTable4 (s.routingTable4.checkBucket i true mo.now) s)
  | check6 (s : Server) (i : Fin bktlen) :
      Effect p mo Offered From s (setTable6 (s.routingTable6.checkBucket i true mo.now) s)
  | blacklist (s : Server) (bl : Blacklist) : Effect p mo Offered From s { s with blacklist := bl }
  | transactions {s : Server} {tm : TransactionManager}
      (h : ∀ t ∈ tm.trans, t ∈ s.transactionManager.trans ∨ Made t) :
      Effect p mo Offered From s { s with transactionManager := tm }
  | store (s : Server) (ds : DataStore) : Effect p mo Offered From s { s with dataStore := ds }
  | emit {s : Server} {e : Event} (he : s.Plain e) :
      Effect p mo Offered From s { s with events := s.events ++ [e] }
  | token (s : Server) (a : NetAddr) :
      Effect p mo Offered From s { s with tokenManager := s.tokenManager.Token p.net a mo.now }
  | clear (s : Server) (expired : ℤ) :
      Effect p mo Offered From s { s with tokenManager := s.tokenManager.clear mo.now expired }
  | rotate (s : Server) (token : Bytes) : Effect p mo Offered From s
      { s with tokenManager := s.tokenManager.updateToken token, events := s.events ++ [.rotate token] }
  | peer {s : Server} {a : NetAddr} (ha : From a) (id : Hash) (token : Bytes) :
      Effect p mo Offered From s
        { s with tokenPeerManager := s.tokenPeerManager.Set p.net id a token mo.now }
  | expirePeers (s : Server) (interval : ℤ) : Effect p mo Offered From s
      { s with tokenPeerManager := s.tokenPeerManager.cleanupExpiredPeers mo.now interval }

structure Admits (p : Platform) (mo : Moment) (Offered : Node → Prop)
    (R : Server → Server → Prop) : Prop where
  table4 : ∀ {s : Server} {n : Node} {rt : RoutingTable} {r : AddStatus}, Offered n →
    s.routingTable4.AddNode p.net n mo.now = some (rt, r) → R s (setTable4 rt s)
  table6 : ∀ {s : Server} {n : Node} {rt : RoutingTable} {r : AddStatus}, Offered n →
    n.addr.IsIPv6 = true → s.routingTable6.AddNode p.net n mo.now = some (rt, r) →
    R s (setTable6 rt s)
  blacklist : ∀ s bl, R s { s with blacklist := bl }
  emit : ∀ {s : Server} {e : Event}, s.Plain e → R s { s with events := s.events ++ [e] }

structure Allows (p : Platform) (mo : Moment) (Offered : Node → Prop)
    (R : Server → Server → Prop) : Prop extends Admits p mo Offered R where
  transactions : ∀ {s : Server} {tm : TransactionManager},
    (∀ t ∈ tm.trans, t ∈ s.transactionManager.trans ∨ Made t) →
    R s { s with transactionManager := tm }
  check4 : ∀ s i, R s (setTable4 (s.routingTable4.checkBucket i true mo.now) s)
  check6 : ∀ s i, R s (setTable6 (s.routingTable6.checkBucket i true mo.now) s)
  store : ∀ s ds, R s { s with dataStore := ds }
  token : ∀ s a, R s { s with tokenManager := s.tokenManager.Token p.net a mo.now }
  clear : ∀ s expired, R s { s with tokenManager := s.tokenManager.clear mo.now expired }
  rotate : ∀ s token, R s { s with
    tokenManager := s.tokenManager.updateToken token, events := s.events ++ [.rotate token] }

variable {p : Platform} {mo : Moment} {Offered : Node → Prop} {From : NetAddr → Prop} {s : Server}

theorem allows_effect : Allows p mo Offered (Effect p mo Offered From) where
  table4 := .table4
  table6 := .table6
  blacklist := .blacklist
  emit := .emit
  transactions := .transactions
  check4 := .check4
  check6 := .check6
  store := .store
  token := .token
  clear := .clear
  rotate := .rotate

/-! ## Nodes -/

section

variable {R : Server → Server → Prop}

section Admits

variable (hR : Admits p mo Offered R)

variable {m : Message}

include hR

theorem does_emit {e} (he : s.Plain e) : Does R (emit e) s := does_modify (hR.emit he)

omit hR in
theorem does_addToTable {table setTable n}
    (h : ∀ {rt r}, (table s).AddNode p.net n mo.now = some (rt, r) → R s (setTable rt s)) :
    Does R (addToTable p mo table setTable n) s := by
  refine does_get_bind ?_
  split
  · exact does_crash
  · exact does_bind (does_modify (h ‹_›)) fun _ _ _ => does_pure _

theorem does_AddNode {n} (hn : Offered n) : Does R (AddNode p mo n) s := by
  refine does_get_bind ?_
  split_ifs with h6
  · exact does_addToTable (hR.table6 hn h6)
  · exact does_pure _
  · exact does_addToTable (hR.table4 hn)
  · exact does_pure _

theorem does_block (addr : Option NetAddr) (port : ℤ) : Does R (block p mo addr port) s := by
  cases addr with
  | none => exact does_crash
  | some a => exact does_modify (hR.blacklist s _)

theorem does_addNode {a id} (ro : Bool)
    (hn : Offered (NewNodeByUDPAddr id a)) : Does R (addNode p mo a id ro) s := by
  unfold addNode
  split_ifs
  · exact does_pure _
  · exact does_bind (does_AddNode hR hn) fun r s' _ =>
      does_bind (does_when fun _ => does_block hR _ _) fun _ _ _ => does_pure _

theorem does_addNode2 {n} (ro : Bool) (hn : Offered n) : Does R (addNode2 p mo n ro) s := by
  unfold addNode2
  split_ifs
  · exact does_pure _
  · exact does_AddNode hR hn

theorem does_processNodeList (target : Hash) (ids : List Hash) (ro : Bool) {l}
    (h : ∀ n ∈ l, Offered n) : Does R (processNodeList p mo target ids ro l) s := by
  induction l generalizing s with
  | nil => exact does_pure _
  | cons n l ih =>
    refine does_bind ?_ fun _ _ _ => does_bind (ih fun n hn => h n (mem_cons_of_mem _ hn))
      fun _ _ _ => does_pure _
    split_ifs
    · exact does_pure _
    · exact does_addNode2 hR ro (h n mem_cons_self)

theorem does_processResponseNodes (target : Hash) (visited : List Hash)
    (h : ∀ n ∈ m.r.nodes ++ m.r.nodes6, Offered n) :
    Does R (processResponseNodes p mo target visited m) s := by
  refine does_bind (does_processNodeList hR _ _ _ fun n hn => h n (mem_append_left _ hn))
    fun r _ _ => ?_
  dsimp only
  split_ifs
  · exact does_pure _
  · exact does_bind (does_processNodeList hR _ _ _ fun n hn => h n (mem_append_right _ hn))
      fun _ _ _ => does_pure _

/-! ## Sending -/

theorem does_rawSend {addr}
    (hm : m.r.token = [] ∨ m.r.token = s.tokenManager.new) : Does R (_send p mo addr m) s := by
  unfold _send
  split_ifs
  · exact does_crash
  · split
    · exact does_crash
    · exact does_bind (does_emit hR hm) fun _ _ _ =>
        does_bind (does_when fun _ => does_block hR _ _) fun _ _ _ => does_pure _

theorem does_send {addr}
    (hm : m.r.token = [] ∨ m.r.token = s.tokenManager.new) : Does R (send p mo addr m) s :=
  does_get_bind (does_rawSend hR hm)

theorem does_sendError (a : NetAddr) (tid reason : Bytes) (code : Int64) :
    Does R (sendError p mo a tid reason code) s :=
  does_bind (does_send hR (.inl rfl)) fun _ _ _ => does_pure _

theorem does_reply (a : NetAddr) (tid : Bytes) {r : ResponseResult}
    (hr : r.token = [] ∨ r.token = s.tokenManager.new) : Does R (reply p mo a tid r) s :=
  does_get_bind (does_bind (does_send hR hr) fun _ _ _ => does_pure _)

theorem does_done (t : Transaction) (r : Result) : Does R (done t r) s := by
  unfold done
  split
  · exact does_pure _
  · exact does_emit hR trivial

end Admits

theorem mem_addTransaction {net : Net} {tm : TransactionManager} {t t' : Transaction}
    (h : t' ∈ (tm.AddTransaction net t).trans) : t' ∈ tm.trans ∨ t' = t := by
  rcases mem_append.1 h with h | h
  · exact .inl (mem_of_mem_filter h)
  · exact .inr (mem_singleton.1 h)

section Allows

variable (hR : Allows p mo Offered R)
include hR

theorem does_afterRequest (addr : Option NetAddr) (err : Bool) {t : NetAddr → Transaction}
    (ht : ∀ a, Made (t a)) : Does R (afterRequest p addr err t) s := by
  cases addr with
  | none => exact does_crash
  | some a =>
    refine does_bind (does_when fun _ => does_modify (hR.transactions fun t' h => ?_)) fun _ _ _ =>
      does_pure _
    rcases mem_addTransaction h with h | rfl
    · exact .inl h
    · exact .inr (ht a)

theorem does_request (addr : Option NetAddr) (query : Bytes) (arg : QueryArg) {depth}
    (visited : List Hash) (cb : Option ℕ) {onResp} (h : onResp = .findNode → depth = 0) :
    Does R (request p mo addr query arg depth visited cb onResp) s := by
  refine does_get_bind ?_
  split_ifs
  · exact does_pure _
  · exact does_bind (does_modify (hR.transactions fun _ h => .inl h)) fun _ _ _ =>
      does_bind (does_send hR.toAdmits (.inl rfl)) fun _ _ _ =>
        does_afterRequest hR _ _ fun _ => h

/-! ## Queries -/

omit hR in
theorem token_populateNodes (s : Server) (raddr : NetAddr) (a : QueryArg) (h : Hash)
    (r : ResponseResult) : (s.populateNodes raddr a h r).token = r.token := by
  simp only [populateNodes, populateNodesBasedOnAddress, populateRequestedNodes]
  split_ifs <;> rfl

omit hR in
theorem token_getQuery (ds : DataStore) (target : Hash) (now : ℤ) :
    (getQuery ds target now).token = [] := by
  unfold getQuery
  split
  · rfl
  · split_ifs <;> rfl

end Allows

section Queries

variable (hR : Admits p mo Offered R)
  (htoken : ∀ s a, R s { s with tokenManager := s.tokenManager.Token p.net a mo.now })
  (hstore : ∀ s ds, R s { s with dataStore := ds })

include hR

include htoken in
theorem does_handleGetPeersQuery (raddr : NetAddr) (m : Message) :
    Does R (handleGetPeersQuery p mo raddr m) s := by
  refine does_get_bind (does_bind (does_modify (htoken s raddr)) fun _ s' hs' => ?_)
  -- the token of the reply is still the current one
  have hnew : s.tokenManager.new = s'.tokenManager.new := by cases hs'; rfl
  exact does_bind (does_reply hR _ _ (.inr hnew)) fun _ _ _ => does_emit hR trivial

include hstore in
theorem does_handlePutQuery (raddr : NetAddr) (m : Message) :
    Does R (handlePutQuery p mo raddr m) s := by
  refine does_get_bind (does_bind (does_modify (hstore s _)) fun _ _ _ => ?_)
  split
  · exact does_sendError hR _ _ _ _
  · exact does_reply hR _ _ (.inl rfl)

theorem does_handleAnnouncePeerQuery (raddr : NetAddr) (m : Message) :
    Does R (handleAnnouncePeerQuery p mo raddr m) s := by
  refine does_get_bind ?_
  split_ifs
  · exact does_pure _
  · exact does_bind (does_reply hR _ _ (.inl rfl)) fun _ _ _ => does_emit hR trivial

include htoken hstore in
theorem does_handleQuery (raddr : NetAddr) (m : Message) : Does R (handleQuery p mo raddr m) s := by
  unfold handleQuery
  split_ifs
  · exact does_reply hR _ _ (.inl rfl)
  · exact does_get_bind (does_reply hR _ _ (.inl (token_populateNodes ..)))
  · exact does_handleGetPeersQuery hR htoken raddr m
  · exact does_handleAnnouncePeerQuery hR raddr m
  · exact does_get_bind (does_reply hR _ _ (.inl (token_populateNodes ..)))
  · exact does_handlePutQuery hR hstore raddr m
  · exact does_get_bind (does_reply hR _ _
      (.inl ((token_populateNodes ..).trans (token_getQuery ..))))
  · exact does_sendError hR _ _ _ _

include htoken hstore in
theorem does_handleQueryMessage {raddr m} (hn : Offered (NewNodeByUDPAddr m.a.id raddr)) :
    Does R (handleQueryMessage p mo raddr m) s :=
  does_when fun _ => does_bind (does_addNode hR _ hn) fun _ _ _ =>
    does_get_bind (does_when fun _ => does_handleQuery hR htoken hstore raddr m)

end Queries

/-! ## Responses -/

section Responses

variable (hR : Allows p mo Offered R)

variable {m : Message} {a : NetAddr}

include hR

theorem does_getPeers (info : Hash) (addr : Address) (depth : ℤ) (ids : List Hash)
    (cb : Option ℕ) : Does R (getPeers p mo info addr depth ids cb) s :=
  does_get_bind (does_bind (does_request hR _ _ _ _ _ nofun) fun _ _ _ =>
    does_when fun _ => does_crash)

theorem does_findNode (target : Hash) (addr : Option NetAddr) (ids : List Hash) :
    Does R (findNode p mo target addr ids) s :=
  does_get_bind (does_request hR _ _ _ _ _ fun _ => rfl)

theorem does_afterStore (t : Transaction) {s1}
    (hstore : (storeTokenIfPresent p mo m a).exec s = (some (), s1))
    (h : ∀ n ∈ m.r.nodes ++ m.r.nodes6, Offered n) :
    Relation.ReflTransGen R s1 ((onGetPeersResp p mo t a m).exec s).2 := by
  rw [onGetPeersResp, exec_bind_some hstore]
  change Does R (if m.r.values ≠ [] then _ else _) s1
  split_ifs
  · exact does_bind (does_done hR.toAdmits _ _) fun _ _ _ =>
      does_each fun _ _ _ => does_emit hR.toAdmits trivial
  · refine does_bind (does_done hR.toAdmits _ _) fun _ _ _ => does_when fun _ => ?_
    exact does_bind (does_processResponseNodes hR.toAdmits _ _ h) fun _ _ _ => does_when fun _ =>
      does_each fun _ _ _ => does_getPeers hR ..

omit hR in
theorem exec_storeTokenIfPresent :
    (storeTokenIfPresent p mo m a).exec s = (some (), if m.r.token ≠ [] then { s with
      tokenPeerManager := s.tokenPeerManager.Set p.net m.r.id a m.r.token mo.now } else s) := by
  rw [storeTokenIfPresent, when]
  split_ifs <;> rfl

theorem does_onGetPeersResp (t : Transaction) (hpeer : ∀ s, R s { s with
      tokenPeerManager := s.tokenPeerManager.Set p.net m.r.id a m.r.token mo.now })
    (h : ∀ n ∈ m.r.nodes ++ m.r.nodes6, Offered n) :
    Does R (onGetPeersResp p mo t a m) s := by
  refine .trans ?_ (does_afterStore hR t exec_storeTokenIfPresent h)
  split_ifs
  · exact .single (hpeer s)
  · exact .refl

theorem does_onFindNodeResp (t : Transaction) (h : ∀ n ∈ m.r.nodes ++ m.r.nodes6, Offered n) :
    Does R (onFindNodeResp p mo t m) s := by
  refine does_when fun _ => does_bind (does_processResponseNodes hR.toAdmits _ _ h) fun _ _ _ =>
    does_when fun _ => does_each fun _ _ _ => ?_
  exact does_bind (does_findNode hR ..) fun _ _ _ => does_when fun _ => does_crash

theorem does_onResponse (t : Transaction) (hpeer : t.onResponse = .getPeers → ∀ s, R s { s with
      tokenPeerManager := s.tokenPeerManager.Set p.net m.r.id a m.r.token mo.now })
    (h : ∀ n ∈ m.r.nodes ++ m.r.nodes6, Offered n) : Does R (onResponse p mo t a m) s := by
  unfold onResponse
  split
  · exact does_pure _
  · exact does_done hR.toAdmits _ _
  · next hresp => exact does_onGetPeersResp hR t (hpeer hresp) h
  · exact does_onFindNodeResp hR t h

theorem does_withTransaction (raddr : NetAddr) (tid : Bytes) {k}
    (hk : ∀ t s, Does R (k t) s) : Does R (withTransaction p raddr tid k) s := by
  refine does_get_bind (does_bind (does_modify (hR.transactions fun _ h => ?_)) fun _ _ _ => ?_)
  · exact .inl (mem_of_mem_filter h)
  · split
    · exact does_pure _
    · exact hk _ _

end Responses

/-! ## Messages -/

def MessageOffers (raddr : NetAddr) (m : Message) (n : Node) : Prop :=
  (m.IsQuery = true ∧ n = NewNodeByUDPAddr m.a.id raddr) ∨
    (m.IsResponse = true ∧ (n = NewNodeByUDPAddr m.r.id raddr ∨ n ∈ m.r.nodes ++ m.r.nodes6))

def Offers (p : Platform) : Input → Node → Prop
  | .packet raddr data, n => ∃ m, Message.Decode p.env p.net data = .ok m ∧ MessageOffers raddr m n
  | .addNode node, n => n = node
  | _, _ => False

def Sender : Input → NetAddr → Prop
  | .packet raddr _, a => a = raddr
  | _, _ => False

section Messages

variable (hR : Allows p mo Offered R)
include hR

theorem does_handleMessage {raddr m} (hpeer : ∀ s, R s { s with
      tokenPeerManager := s.tokenPeerManager.Set p.net m.r.id raddr m.r.token mo.now })
    (h : ∀ n, MessageOffers raddr m n → Offered n) :
    Does R (handleMessage p mo raddr m) s := by
  unfold handleMessage
  split_ifs with hq hr
  · exact does_handleQueryMessage hR.toAdmits hR.token hR.store (h _ (.inl ⟨hq, rfl⟩))
  · refine does_when fun _ => does_bind
      (does_addNode hR.toAdmits _ (h _ (.inr ⟨hr, .inl rfl⟩))) fun _ _ _ => ?_
    exact does_when fun _ => does_withTransaction hR _ _ fun t _ =>
      does_onResponse hR t (fun _ => hpeer) fun n hn => h n (.inr ⟨hr, .inr hn⟩)
  · exact does_withTransaction hR _ _ fun _ _ => does_done hR.toAdmits _ _
  · exact does_pure _

/-! ## Calls and timers -/

theorem does_announceTo (infohash : Hash) (port : UInt16) (impliedPort : Bool) (l : List Node) :
    Does R (announceTo p mo infohash port impliedPort l) s := by
  induction l generalizing s with
  | nil => exact does_pure _
  | cons n l ih =>
    unfold announceTo
    split
    · exact does_crash
    · refine does_get_bind (does_bind ?_ fun _ _ _ => does_bind ih fun _ _ _ => does_pure _)
      split_ifs
      · exact does_pure _
      · exact does_request hR _ _ _ _ _ nofun

theorem does_checkBucket {table setTable} (i : Fin bktlen)
    (h : ∀ s, R s (setTable ((table s).checkBucket i true mo.now) s)) :
    Does R (checkBucket p mo table setTable i) s := by
  refine does_get_bind (does_bind (does_when fun _ => does_each fun _ _ _ => ?_) fun _ _ _ => ?_)
  · exact does_bind (does_request hR _ _ _ _ _ nofun) fun _ _ _ => does_pure _
  · exact does_bind (does_modify (h _)) fun _ _ _ => does_when fun _ => does_crash

theorem does_call {inp} (hinp : ∀ raddr data, inp ≠ .packet raddr data)
    (hadd : ∀ node, inp = .addNode node → Offered node)
    (hexpire : inp = .cleanupPeers → ∀ s, R s { s with
      tokenPeerManager := s.tokenPeerManager.cleanupExpiredPeers mo.now (minute * 1440) }) :
    Does R (act p mo inp) s := by
  cases inp with
  | packet raddr data => exact absurd rfl (hinp raddr data)
  | checkAllBuckets ipv6 =>
    cases ipv6 with
    | false => exact does_each fun i _ _ => does_checkBucket hR i fun s => hR.check4 s i
    | true => exact does_each fun i _ _ => does_checkBucket hR i fun s => hR.check6 s i
  | updateToken token => exact does_modify (hR.rotate s token)
  | clearTokens => exact does_modify (hR.clear s _)
  | cleanupPeers => exact does_modify (hexpire rfl s)
  | cleanupTransactions =>
    exact does_get_bind (does_bind (does_modify (hR.transactions fun _ h =>
      .inl (mem_of_mem_filter h))) fun _ _ _ =>
        does_each fun _ _ _ => does_done hR.toAdmits _ _)
  | cleanBlacklist => exact does_modify (hR.blacklist s _)
  | addNode node =>
    exact does_bind (does_AddNode hR.toAdmits (hadd node rfl)) fun _ _ _ => does_pure _
  | ping addr cb => exact does_bind (does_request hR _ _ _ _ _ nofun) fun _ _ _ => does_pure _
  | findNode addr target =>
    refine does_bind ?_ fun _ _ _ => does_pure _
    unfold FindNode
    split_ifs
    · exact does_pure _
    · exact does_findNode hR ..
  | getPeers infohash cb =>
    change Does _ (GetPeers p mo infohash cb) s
    unfold GetPeers
    split_ifs
    · exact does_crash
    · refine does_get_bind ?_
      dsimp only
      split_ifs
      · cases cb with
        | none => exact does_pure _
        | some cb => exact does_emit hR.toAdmits trivial
      · exact does_each fun _ _ _ => does_getPeers hR ..
  | announcePeer infohash port impliedPort =>
    refine does_bind ?_ fun _ _ _ => does_pure _
    unfold AnnouncePeer
    split_ifs
    · exact does_crash
    · exact does_get_bind (does_announceTo hR ..)

end Messages

end

theorem does_handlePacket (raddr : NetAddr) (data : Bytes) :
    Does (Effect p mo (Offers p (.packet raddr data)) (Sender (.packet raddr data)))
      (handlePacket p mo raddr data) s := by
  refine does_get_bind ?_
  split_ifs
  · exact does_pure _
  · split
    · exact does_pure _
    · rename_i m hm
      have hfrom : Sender (.packet raddr data) raddr := rfl
      exact does_when fun _ => does_handleMessage allows_effect (fun _ => .peer hfrom _ _)
        fun n hn => ⟨m, hm, hn⟩

theorem does_act (inp : Input) :
    Does (Effect p mo (Offers p inp) (Sender inp)) (act p mo inp) s := by
  by_cases hinp : ∃ raddr data, inp = .packet raddr data
  · obtain ⟨raddr, data, rfl⟩ := hinp
    exact does_handlePacket raddr data
  · push Not at hinp
    refine does_call allows_effect hinp ?_ fun _ s => .expirePeers s _
    rintro node rfl
    exact rfl

theorem Reachable.keeps {Stored : Node → Prop} {Given : Input → Prop} {I : Server → Prop}
    (hnew : ∀ {conf stored4 stored6 token now s},
      NewServer p.net conf stored4 stored6 token now = some s →
      (∀ n ∈ stored4, Stored n.node) → (∀ n ∈ stored6, Stored n.node) → I s)
    (heffect : ∀ {mo inp s s'}, Given inp → Effect p mo (Offers p inp) (Sender inp) s s' →
      I s → I s') (h : Reachable p Stored Given s) : I s := by
  induction h with
  | new h h4 h6 => exact hnew h h4 h6
  | @step mo s s' inp _ hinp h ih =>
    have hdoes : Does (Effect p mo (Offers p inp) (Sender inp)) (act p mo inp) s := does_act inp
    have hkeeps := hdoes.keeps (heffect hinp) ih
    unfold Server.step at h
    split at h
    · rename_i hrun
      cases h
      rwa [hrun] at hkeeps
    · cases h

/-! ## The nodes in the tables -/

structure AllNodes (G : Node → Prop) (s : Server) : Prop where
  table4 : ∀ o ∈ s.routingTable4.nodes, G o.node
  table6 : ∀ o ∈ s.routingTable6.nodes, G o.node

theorem AllNodes.mono {G G'} (h : s.AllNodes G) (hG : ∀ n, G n → G' n) : s.AllNodes G' :=
  ⟨fun o ho => hG _ (h.table4 o ho), fun o ho => hG _ (h.table6 o ho)⟩

theorem allNodes_effect {G} (hG : ∀ n, Offered n → G n) {s'}
    (he : Effect p mo Offered From s s') (h : s.AllNodes G) : s'.AllNodes G := by
  have hadd : ∀ {rt rt' : RoutingTable} {n : Node} {r : AddStatus}, Offered n →
      rt.AddNode p.net n mo.now = some (rt', r) → (∀ o ∈ rt.nodes, G o.node) →
      ∀ o ∈ rt'.nodes, G o.node := by
    intro rt rt' n r hn hrt hall o ho
    rcases mem_AddNode hrt ho with heq | ⟨o', ho', heq⟩
    · rw [heq]
      exact hG n hn
    · rw [heq]
      exact hall o' ho'
  cases he with
  | table4 hn hrt => exact ⟨hadd hn hrt h.table4, h.table6⟩
  | table6 hn _ hrt => exact ⟨h.table4, hadd hn hrt h.table6⟩
  | check4 i => exact ⟨fun o ho => h.table4 o (mem_checkBucket ho), h.table6⟩
  | check6 i => exact ⟨h.table4, fun o ho => h.table6 o (mem_checkBucket ho)⟩
  | blacklist | transactions | store | emit | token | clear | rotate | peer | expirePeers =>
    exact ⟨h.table4, h.table6⟩

theorem newServer_eq_some {net conf stored4 stored6 token now}
    (h : NewServer net conf stored4 stored6 token now = some s) :
    newRoutingTable net conf.k conf.id false stored4 now = some s.routingTable4 ∧
      newRoutingTable net conf.k conf.id true stored6 now = some s.routingTable6 ∧
      s.events = [] ∧ s.tokenPeerManager.peers = [] := by
  unfold NewServer at h
  obtain ⟨rt4, h4, h⟩ := bind_eq_some_iff.1 h
  obtain ⟨rt6, h6, h⟩ := bind_eq_some_iff.1 h
  cases h
  exact ⟨h4, h6, rfl, rfl⟩

theorem Reachable.allNodes {Stored : Node → Prop} {Given : Input → Prop} {G : Node → Prop}
    (hstored : ∀ n, Stored n → G n) (hgiven : ∀ inp n, Given inp → Offers p inp n → G n)
    (h : Reachable p Stored Given s) : s.AllNodes G := by
  refine h.keeps (fun hnew h4 h6 => ?_) ?_
  swap
  · intro mo inp s s' hinp he hall
    exact allNodes_effect (fun n => hgiven inp n hinp) he hall
  obtain ⟨hrt4, hrt6, -⟩ := newServer_eq_some hnew
  constructor
  · intro o ho
    obtain ⟨n, hn, heq⟩ := mem_newRoutingTable hrt4 ho
    rw [heq]
    exact hstored _ (h4 n hn)
  · intro o ho
    obtain ⟨n, hn, heq⟩ := mem_newRoutingTable hrt6 ho
    rw [heq]
    exact hstored _ (h6 n hn)

end GoI2pBt.Dht.Server
