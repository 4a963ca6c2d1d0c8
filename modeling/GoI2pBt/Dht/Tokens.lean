/-
  Tokens in the history of a server, and whose nodes are stored.
-/
import GoI2pBt.Dht.Queries

namespace GoI2pBt.Dht.Server

open List Act Krpc Metainfo
open Bencode (Env Error)

variable {p : Platform} {mo : Moment} {s s' : Server}

variable {Stored : Node → Prop} {Given : Input → Prop} {a : NetAddr} {m : Message}

/-! ## The tokens in the history -/

def isRotate : Event → Bool
  | .rotate _ => true
  | _ => false

def HandedAt (net : Net) (events : List Event) (a : NetAddr) (token : Bytes) (k : ℕ) : Prop :=
  ∃ l₁ a' m w l₂, events = l₁ ++ .send (some a') m w :: l₂ ∧ a'.String net = a.String net ∧
    m.IsResponse = true ∧ m.r.token = token ∧ w ≠ .fail ∧ l₂.countP isRotate = k

def Handed (p : Platform) (s : Server) (a : NetAddr) (token : Bytes) : Prop :=
  token ≠ [] ∧ (HandedAt p.net s.events a token 0 ∨ HandedAt p.net s.events a token 1)

def TokensKnown (s : Server) : Prop :=
  ∀ l₁ addr m w l₂, s.events = l₁ ++ .send addr m w :: l₂ → m.r.token ≠ [] →
    (l₂.countP isRotate = 0 → m.r.token = s.tokenManager.new) ∧
      (l₂.countP isRotate = 1 → m.r.token = s.tokenManager.last)

theorem append_singleton_eq {α : Type} {l l1 l2 : List α} {x y : α} (h : l ++ [y] = l1 ++ x :: l2) :
    (l2 = [] ∧ x = y ∧ l = l1) ∨ ∃ l3, l2 = l3 ++ [y] ∧ l = l1 ++ x :: l3 := by
  rcases eq_nil_or_concat l2 with rfl | ⟨l3, z, rfl⟩
  · obtain ⟨hl, hxy⟩ := append_inj' h rfl
    exact .inl ⟨rfl, (singleton_inj.1 hxy).symm, hl⟩
  · rw [concat_eq_append] at h ⊢
    have h' : l ++ [y] = (l1 ++ x :: l3) ++ [z] := by
      rw [h, append_assoc, cons_append]
    obtain ⟨hl, hyz⟩ := append_inj' h' rfl
    rw [singleton_inj.1 hyz]
    exact .inr ⟨l3, rfl, hl⟩

theorem tokensKnown_emit {e} (h : s.TokensKnown) (he : s.Plain e) :
    TokensKnown { s with events := s.events ++ [e] } := by
  intro l1 addr m w l2 hev htok
  rcases append_singleton_eq hev with ⟨rfl, rfl, -⟩ | ⟨l3, rfl, hl⟩
  · exact ⟨fun _ => he.resolve_left htok, fun hcount => nomatch hcount⟩
  · have hplain : isRotate e = false := by
      cases e with
      | rotate token => cases he
      | _ => rfl
    have hcount : (l3 ++ [e]).countP isRotate = l3.countP isRotate := by
      rw [countP_append, countP_singleton, hplain]
      rfl
    rw [hcount]
    exact h l1 addr m w l3 hl htok

theorem tokensKnown_rotate (h : s.TokensKnown) (token : Bytes) : TokensKnown { s with
      tokenManager := s.tokenManager.updateToken token, events := s.events ++ [.rotate token] } := by
  intro l1 addr m w l2 hev htok
  rcases append_singleton_eq hev with ⟨-, hsend, -⟩ | ⟨l3, rfl, hl⟩
  · cases hsend
  · have hcount : (l3 ++ [Event.rotate token]).countP isRotate = l3.countP isRotate + 1 := by
      rw [countP_append]
      rfl
    rw [hcount]
    refine ⟨fun hzero => (nomatch hzero), fun hone => ?_⟩
    exact (h l1 addr m w l3 hl htok).1 (Nat.succ.inj hone)

theorem tokensKnown_effect {Offered From}
    (he : Effect p mo Offered From s s') (h : s.TokensKnown) : s'.TokensKnown := by
  cases he with
  | emit he => exact tokensKnown_emit h he
  | rotate token => exact tokensKnown_rotate h token
  | table4 => exact h
  | table6 => exact h
  | check4 => exact h
  | check6 => exact h
  | blacklist => exact h
  | transactions => exact h
  | store => exact h
  | token => exact h
  | clear => exact h
  | peer => exact h
  | expirePeers => exact h

theorem tokensKnown_new {net conf stored4 stored6 token now}
    (h : NewServer net conf stored4 stored6 token now = some s) :
    s.TokensKnown := by
  obtain ⟨-, -, hevents, -⟩ := newServer_eq_some h
  intro l1 addr m w l2 hev
  rw [hevents] at hev
  exact absurd hev.symm (append_ne_nil_of_right_ne_nil _ (cons_ne_nil _ _))

theorem Reachable.handed (hs : Reachable p Stored Given s) {token} (h : Handed p s a token) :
    s.tokenManager.last = token ∨ s.tokenManager.new = token := by
  have hknown : s.TokensKnown :=
    hs.keeps (fun h _ _ => tokensKnown_new h) fun _ he => tokensKnown_effect he
  obtain ⟨hne, h⟩ := h
  rcases h with ⟨l1, a', m, w, l2, hev, -, -, rfl, -, hcount⟩ |
    ⟨l1, a', m, w, l2, hev, -, -, rfl, -, hcount⟩
  · exact .inr ((hknown l1 _ m w l2 hev hne).1 hcount).symm
  · exact .inl ((hknown l1 _ m w l2 hev hne).2 hcount).symm

/-! ## Announces -/

def Accepts (a : NetAddr) (m : Message) (s s' : Server) : Prop :=
  ∃ r w, s'.events = s.events ++ [.send (some a) r w, .onTorrent m.a.infoHash (some a)] ∧
    r.IsResponse = true

def Rejects (a : NetAddr) (s s' : Server) : Prop :=
  ∃ r w, s'.events = s.events ++ [.send (some a) r w] ∧ r.IsError = true ∧
    s'.tokenManager = s.tokenManager ∧ s'.tokenPeerManager = s.tokenPeerManager ∧
    s'.dataStore = s.dataStore

def AnnounceRight (p : Platform) (a : NetAddr) (m : Message) (s s' : Server) : Prop :=
  (Accepts a m s s' ↔ Handed p s a m.a.token) ∧ (¬ Handed p s a m.a.token → Rejects a s s')

theorem not_announceRight (h : s'.events = s.events) : ¬ AnnounceRight p a m s s' := by
  have hne : ∀ e es, s'.events ≠ s.events ++ e :: es := by
    intro e es hev
    rw [h] at hev
    exact cons_ne_nil e es (self_eq_append_right.1 hev)
  rintro ⟨haccept, hreject⟩
  by_cases hh : Handed p s a m.a.token
  · obtain ⟨r, w, hev, -⟩ := haccept.2 hh
    exact hne _ _ hev
  · obtain ⟨r, w, hev, -⟩ := hreject hh
    exact hne _ _ hev

theorem announceRight_of_accepts (h : Accepts a m s s') :
    AnnounceRight p a m s s' ↔ Handed p s a m.a.token :=
  ⟨fun hr => hr.1.1 h, fun hh => ⟨iff_of_true h hh, fun hn => absurd hh hn⟩⟩

theorem handleQuery_announce_peer {raddr} (h : m.q = utf8 "announce_peer") :
    handleQuery p mo raddr m = handleAnnouncePeerQuery p mo raddr m := by
  rw [handleQuery, if_neg (by rw [h]; decide), if_neg (by rw [h]; decide),
    if_neg (by rw [h]; decide), if_pos h]

theorem accepts_of_not_check {s1}
    (hh : Handled p mo a m s s1) (hc : s1.tokenManager.Check p.net a m.a.token = false) :
    Accepts a m s ((handleAnnouncePeerQuery p mo a m).exec s1).2 := by
  obtain ⟨w, bl, hreply⟩ : ∃ w bl, (reply p mo a m.t {}).exec s1 = _ :=
    exec_reply_ok hh.tid (fun n hn => nomatch hn) fun v hv => nomatch hv
  rw [handleAnnouncePeerQuery, exec_get_bind, if_neg (by rw [hc]; decide), exec_bind_some hreply]
  refine ⟨s1.responseMsg m.t {}, w, ?_, rfl⟩
  change (s1.events ++ [_]) ++ [_] = _
  rw [hh.kept.events, append_assoc]
  rfl

/-- **When an announce is answered rightly.** -/
theorem announce_iff {p : Platform} {s : Server}
    (hs : Reachable p (fun _ => True) (fun _ => True) s) (mo : Moment) (a : NetAddr)
    {data : Bytes} {m : Message} (hdec : Message.Decode p.env p.net data = .ok m)
    (hq : m.IsQuery = true) (hm : m.q = utf8 "announce_peer") :
    AnnounceRight p a m s ((handlePacket p mo a data).exec s).2 ↔
      (∃ s₁, Handled p mo a m s s₁) ∧ Handed p s a m.a.token ∧
        s.tokenManager.addrs (a.String p.net) = none := by
  rcases exec_handlePacket mo s a hdec hq with ⟨s₁, hhandled, hexec⟩ | ⟨hnot, hkept⟩
  swap
  · refine iff_of_false (not_announceRight hkept.events) ?_
    rintro ⟨⟨s₁, hs₁⟩, -⟩
    exact hnot s₁ hs₁
  rw [hexec, handleQuery_announce_peer hm]
  cases hc : s₁.tokenManager.Check p.net a m.a.token with
  | true =>
    have hev : ((handleAnnouncePeerQuery p mo a m).exec s₁).2.events = s.events := by
      rw [handleAnnouncePeerQuery, exec_get_bind, if_pos hc]
      exact hhandled.kept.events
    refine iff_of_false (not_announceRight hev) ?_
    rintro ⟨-, -, hnone⟩
    rw [hhandled.kept.tokenManager, TokenManager.Check, hnone] at hc
    simp at hc
  | false =>
    rw [announceRight_of_accepts (accepts_of_not_check hhandled hc)]
    refine ⟨fun hh => ⟨⟨s₁, hhandled⟩, hh, ?_⟩, fun h => h.2.1⟩
    rw [hhandled.kept.tokenManager, TokenManager.Check, decide_eq_false_iff_not] at hc
    rw [← Option.not_isSome_iff_eq_none]
    exact fun hsome => hc ⟨hs.handed hh, hsome⟩

/-! ## A run -/

def sampleServer : Server where
  conf := ⟨8, Nat.succ_pos 7, sampleTarget, [IPv4Protocol], false, 8, one_le_eight, 10 ^ 10⟩
  ipv4 := true
  ipv6 := false
  want := [WantNodes]
  routingTable4 := .empty 8 sampleTarget false
  routingTable6 := .empty 8 sampleTarget true
  tokenManager := newTokenManager (utf8 "tok")
  tokenPeerManager := {}
  transactionManager := {}
  dataStore := .empty
  blacklist := { num := 1024 }
  events := []

theorem new_sampleServer : NewServer samplePlatform.net
    ⟨8, by decide, sampleTarget, [IPv4Protocol], false, 8, one_le_eight, 10 ^ 10⟩ [] [] (utf8 "tok") 0 =
      some sampleServer := rfl

def getPeersPacket : Bytes := utf8 ("d1:ad2:id20:abcdefghij01234567899:info_hash20:" ++
  "zyxwvutsrqponmlkjihge1:q9:get_peers1:t2:aa1:y1:qe")

def otherId : Hash := .ofBytes (utf8 "zyxwvutsrqponmlkjihg")

def getPeersMsg : Message :=
  NewQueryMsg (utf8 "aa") (utf8 "get_peers") { id := sampleId, infoHash := otherId }

theorem decode_getPeersPacket : Message.Decode samplePlatform.env samplePlatform.net
    getPeersPacket = .ok getPeersMsg := except_eq_ok (by decide +kernel)

def announcePacket : Bytes := utf8 ("d1:ad2:id20:abcdefghij01234567899:info_hash20:" ++
  "abcdefghij01234567895:token3:toke1:q13:announce_peer1:t2:aa1:y1:qe")

def announceMsg : Message := NewQueryMsg (utf8 "aa") (utf8 "announce_peer")
  { id := sampleId, infoHash := sampleId, token := utf8 "tok" }

theorem decode_announcePacket : Message.Decode samplePlatform.env samplePlatform.net
    announcePacket = .ok announceMsg := except_eq_ok (by decide +kernel)

theorem reachable_sampleServer : Reachable samplePlatform Stored Given sampleServer :=
  .new new_sampleServer (fun _ h => nomatch h) fun _ h => nomatch h

def askedServer : Server :=
  ((handleMessage samplePlatform (calm 0) sampleAddr getPeersMsg).exec sampleServer).2

theorem step_askedServer : step samplePlatform (calm 0) sampleServer
    (.packet sampleAddr getPeersPacket) = some askedServer :=
  step_packet decode_getPeersPacket rfl (cons_ne_nil _ _) rfl

theorem reachable_askedServer :
    Reachable samplePlatform (fun _ => True) (fun _ => True) askedServer :=
  reachable_sampleServer.step trivial step_askedServer

theorem events_askedServer : askedServer.events =
    [.send (some sampleAddr) (NewResponseMsg (utf8 "aa")
        { id := sampleTarget
          nodes := [NewNodeByUDPAddr sampleId sampleAddr]
          token := utf8 "tok" }) .ok,
      .onSearch otherId sampleAddr] := by decide +kernel

theorem handed_askedServer : Handed samplePlatform askedServer sampleAddr (utf8 "tok") := by
  refine ⟨cons_ne_nil _ _, .inl ⟨[], sampleAddr, _, .ok, [.onSearch otherId sampleAddr],
    events_askedServer, rfl, rfl, rfl, by decide, rfl⟩⟩

def clearedServer : Server := { askedServer with
  tokenManager := askedServer.tokenManager.clear (minute * 10) (minute * 10) }

theorem reachable_clearedServer :
    Reachable samplePlatform (fun _ => True) (fun _ => True) clearedServer := by
  have hstep : step samplePlatform (calm (minute * 10)) askedServer .clearTokens =
      some clearedServer := rfl
  exact reachable_askedServer.step trivial hstep

theorem handled_clearedServer : ∃ s1, Handled samplePlatform (calm (minute * 10)) sampleAddr
    announceMsg clearedServer s1 := by
  have hadd : ((addNode samplePlatform (calm (minute * 10)) sampleAddr announceMsg.a.id
      announceMsg.ro).exec clearedServer).1 = some .nodeExistAndUpdated := by decide +kernel
  exact ⟨_, rfl, cons_ne_nil _ _, rfl, ⟨_, exec_of_fst hadd, by decide⟩, rfl⟩

theorem announce_sample : Reachable samplePlatform (fun _ => True) (fun _ => True) clearedServer ∧
      Message.Decode samplePlatform.env samplePlatform.net announcePacket = .ok announceMsg ∧
      announceMsg.IsQuery = true ∧ announceMsg.q = utf8 "announce_peer" ∧
      AnnounceRight samplePlatform sampleAddr announceMsg clearedServer
        ((handlePacket samplePlatform (calm (minute * 10)) sampleAddr announcePacket).exec
          clearedServer).2 := by
  have hcleared : clearedServer.tokenManager.addrs (sampleAddr.String samplePlatform.net) = none := rfl
  exact ⟨reachable_clearedServer, decode_announcePacket, rfl, rfl,
    (announce_iff reachable_clearedServer (calm (minute * 10)) sampleAddr decode_announcePacket rfl
      rfl).2 ⟨handled_clearedServer, handed_askedServer, hcleared⟩⟩

theorem announce_wrong : (Reachable samplePlatform (fun _ => True) (fun _ => True) sampleServer ∧
      ¬ Handed samplePlatform sampleServer sampleAddr announceMsg.a.token ∧
      Accepts sampleAddr announceMsg sampleServer
        ((handlePacket samplePlatform (calm 0) sampleAddr announcePacket).exec sampleServer).2) ∧
    (Reachable samplePlatform (fun _ => True) (fun _ => True) askedServer ∧
      Handed samplePlatform askedServer sampleAddr announceMsg.a.token ∧
      ((handlePacket samplePlatform (calm 0) sampleAddr announcePacket).exec
        askedServer).2.events = askedServer.events) := by
  have hadmits : sampleServer.admits samplePlatform sampleAddr = true := rfl
  have hadmits' : askedServer.admits samplePlatform sampleAddr = true := rfl
  refine ⟨⟨reachable_sampleServer, ?_, ?_⟩, reachable_askedServer, handed_askedServer, ?_⟩
  · rintro ⟨-, ⟨l₁, a', m, w, l₂, hev, -⟩ | ⟨l₁, a', m, w, l₂, hev, -⟩⟩
    · exact absurd hev.symm (append_ne_nil_of_right_ne_nil _ (cons_ne_nil _ _))
    · exact absurd hev.symm (append_ne_nil_of_right_ne_nil _ (cons_ne_nil _ _))
  · rw [exec_handlePacket_eq decode_announcePacket hadmits]
    exact ⟨NewResponseMsg (utf8 "aa") { id := sampleTarget }, .ok, rfl, rfl⟩
  · rw [exec_handlePacket_eq decode_announcePacket hadmits']
    decide +kernel

/-! ## Adding a node -/

theorem runs_AddNode {n} (h : s.AllNodes fun o => o.id = n.id → o.addr.Equal p.net n.addr ≠ none) :
    Runs (AddNode p mo n) s fun r s' => s'.blacklist = s.blacklist ∧ (r = .nodeExistAndChanged →
        ¬ s.AllNodes fun o => o.id = n.id → o.addr.Equal p.net n.addr = some true) := by
  have htable : ∀ (table : Server → RoutingTable) setTable,
      (∀ o ∈ (table s).nodes, o.node.id = n.id → o.node.addr.Equal p.net n.addr ≠ none) →
      (∀ rt, (setTable rt s).blacklist = s.blacklist) →
      Runs (addToTable p mo table setTable n) s fun r s' => s'.blacklist = s.blacklist ∧
        (r = .nodeExistAndChanged → ∃ o ∈ (table s).nodes, o.node.id = n.id ∧
          o.node.addr.Equal p.net n.addr = some false) := by
    intro table setTable hne hset
    obtain ⟨rt, r, hadd⟩ : ∃ rt r, (table s).AddNode p.net n mo.now = some (rt, r) :=
      RoutingTable.exists_AddNode hne
    refine ⟨r, setTable rt s, ?_, hset rt, ?_⟩
    · rw [addToTable, exec_get_bind, hadd]
      rfl
    · rintro rfl
      exact RoutingTable.mem_of_changed hadd
  unfold AddNode
  refine runs_get_bind ?_
  split_ifs
  · refine (htable routingTable6 setTable6 h.table6 fun _ => rfl).mono fun r s' hr => ⟨hr.1, ?_⟩
    intro hchanged hall
    obtain ⟨o, ho, hid, heq⟩ := hr.2 hchanged
    exact absurd ((hall.table6 o ho hid).symm.trans heq) (by decide)
  · exact runs_pure ⟨rfl, fun hr => absurd hr (by decide)⟩
  · refine (htable routingTable4 setTable4 h.table4 fun _ => rfl).mono fun r s' hr => ⟨hr.1, ?_⟩
    intro hchanged hall
    obtain ⟨o, ho, hid, heq⟩ := hr.2 hchanged
    exact absurd ((hall.table4 o ho hid).symm.trans heq) (by decide)
  · exact runs_pure ⟨rfl, fun hr => absurd hr (by decide)⟩

/-! ## Runs in which a node has one address -/

def SameAddr (p : Platform) (a : NetAddr) (i : Hash) (n : Node) : Prop :=
  n.id = i → n.addr.Equal p.net (.FromAddr a) = some true

/-- **A node that keeps its address is not blocked.** -/
theorem never_changed {a : NetAddr} {i : Hash}
    (hs : Reachable p (SameAddr p a i) (fun inp => ∀ n, Offers p inp n → SameAddr p a i n) s)
    (mo : Moment) (ro : Bool) :
    ∃ r s', (addNode p mo a i ro).exec s = (some r, s') ∧ r ≠ .nodeExistAndChanged ∧
      s'.blacklist = s.blacklist := by
  have hall : s.AllNodes (SameAddr p a i) := hs.allNodes (fun _ h => h) fun _ n h => h n
  have hne : s.AllNodes fun o => o.id = i → o.addr.Equal p.net (.FromAddr a) ≠ none :=
    hall.mono fun o ho hid => by rw [ho hid]; exact Option.some_ne_none true
  rw [addNode]
  split_ifs
  · exact ⟨_, s, rfl, by decide, rfl⟩
  · obtain ⟨r, s', hrun, hbl, hchanged⟩ : Runs (AddNode p mo (NewNodeByUDPAddr i a)) s _ :=
      runs_AddNode hne
    have hr : r ≠ .nodeExistAndChanged := fun hr => hchanged hr hall
    refine ⟨r, s', ?_, hr, hbl⟩
    rw [exec_bind_some hrun, when, if_neg hr]
    rfl

theorem never_changed_sample :
    Reachable samplePlatform (SameAddr samplePlatform sampleAddr sampleId)
      (fun inp => ∀ n, Offers samplePlatform inp n → SameAddr samplePlatform sampleAddr sampleId n)
      askedServer ∧
    ∃ r s', (addNode samplePlatform (calm 1) sampleAddr sampleId false).exec askedServer =
      (some r, s') ∧ r ≠ .nodeExistAndChanged ∧ s'.blacklist = askedServer.blacklist := by
  have hs : Reachable samplePlatform (SameAddr samplePlatform sampleAddr sampleId)
      (fun inp => ∀ n, Offers samplePlatform inp n →
        SameAddr samplePlatform sampleAddr sampleId n) askedServer := by
    refine reachable_sampleServer.step ?_ step_askedServer
    rintro n ⟨m, hm, hoffers⟩ -
    rw [decode_getPeersPacket] at hm
    cases hm
    rcases hoffers with ⟨-, rfl⟩ | ⟨hr, -⟩
    · rfl
    · cases hr
  exact ⟨hs, never_changed hs (calm 1) false⟩

/-! ## A node from a list -/

def tellerAddr : NetAddr := .udpAddr [9, 9, 9, 9] 6881 []

def nodesPacket : Bytes :=
  utf8 "d1:rd2:id20:zyxwvutsrqponmlkjihg5:nodes26:abcdefghij0123456789" ++ [5, 6, 7, 8, 26, 225] ++
    utf8 "e1:t1:11:y1:re"

def nodesMsg : Message := NewResponseMsg (utf8 "1")
  { id := otherId, nodes := [NewNode sampleId [5, 6, 7, 8] 6881] }

theorem decode_nodesPacket : Message.Decode samplePlatform.env samplePlatform.net nodesPacket =
    .ok nodesMsg := except_eq_ok (by decide +kernel)

def joinedServer : Server :=
  ((act samplePlatform (calm 0) (.addNode (NewNodeByUDPAddr otherId tellerAddr))).exec sampleServer).2

def searchingServer : Server :=
  ((act samplePlatform (calm 0) (.getPeers sampleId none)).exec joinedServer).2

def toldServer : Server :=
  ((handleMessage samplePlatform (calm 0) tellerAddr nodesMsg).exec searchingServer).2

theorem reachable_searchingServer {Stored Given}
    (hadd : Given (.addNode (NewNodeByUDPAddr otherId tellerAddr)))
    (hget : Given (.getPeers sampleId none)) :
    Reachable samplePlatform Stored Given searchingServer := by
  have hjoined : Reachable samplePlatform Stored Given joinedServer :=
    reachable_sampleServer.step hadd (step_of_exec rfl)
  exact hjoined.step hget (step_of_exec rfl)

theorem learned_changed : Reachable samplePlatform (fun _ => True) (fun _ => True) toldServer ∧
      toldServer.routingTable4.nodes.map (·.node) =
        [NewNodeByUDPAddr otherId tellerAddr, NewNode sampleId [5, 6, 7, 8] 6881] ∧
      sampleAddr = .udpAddr [5, 6, 7, 8] 6881 [] ∧
      Message.Decode samplePlatform.env samplePlatform.net getPeersPacket = .ok getPeersMsg ∧
      getPeersMsg.IsQuery = true ∧ getPeersMsg.a.id = sampleId ∧
      ((addNode samplePlatform (calm 0) sampleAddr sampleId getPeersMsg.ro).exec toldServer).1 =
        some .nodeExistAndChanged ∧
      toldServer.admits samplePlatform sampleAddr = true ∧
      ((handlePacket samplePlatform (calm 0) sampleAddr getPeersPacket).exec
        toldServer).2.admits samplePlatform sampleAddr = false := by
  have hadmits : toldServer.admits samplePlatform sampleAddr = true := rfl
  refine ⟨(reachable_searchingServer trivial trivial).step trivial
      (step_packet decode_nodesPacket rfl (List.cons_ne_nil _ _) rfl), rfl, rfl, decode_getPeersPacket, rfl, rfl,
    rfl, hadmits, ?_⟩
  rw [exec_handlePacket_eq decode_getPeersPacket hadmits]
  rfl

end GoI2pBt.Dht.Server
