/-
  When `find_node` follows up the nodes of an answer.
-/
import GoI2pBt.Dht.Requests

namespace GoI2pBt.Dht.Server

open Act Krpc Metainfo List Option

variable {p : Platform} {mo : Moment} {s s' s₁ : Server} {raddr : NetAddr} {data : Bytes}
  {t : Transaction} {m : Message}

/-! ## Answers -/

structure Answers (p : Platform) (mo : Moment) (s : Server) (raddr : NetAddr) (data : Bytes)
    (t : Transaction) (m : Message) (s₁ : Server) : Prop where
  admits : s.admits p raddr = true
  decoded : Message.Decode p.env p.net data = .ok m
  tid : m.t ≠ []
  query : m.IsQuery = false
  response : m.IsResponse = true
  id : m.r.id.IsZero = false
  handled : ∃ r s₀, (addNode p mo raddr m.r.id m.ro).exec s = (some r, s₀) ∧
    r ≠ .nodeExistAndChanged ∧
    (s₀.transactionManager.PopTransaction p.net m.t raddr).1 = some t ∧
    s₁ = { s₀ with
      transactionManager := (s₀.transactionManager.PopTransaction p.net m.t raddr).2 }

theorem exec_packet (h : Answers p mo s raddr data t m s₁) :
    (handlePacket p mo raddr data).exec s = (onResponse p mo t raddr m).exec s₁ := by
  obtain ⟨r, s0, hrun, hr, hpop, rfl⟩ := h.handled
  have hid : (!m.r.id.IsZero) = true := by rw [h.id]; rfl
  rw [handlePacket, exec_get_bind, if_neg (by rw [h.admits]; exact Bool.false_ne_true), h.decoded]
  dsimp only
  rw [when, if_pos h.tid, handleMessage, if_neg (ne_true_of_eq_false h.query),
    if_pos h.response, handleResponseMessage, when, if_pos hid, exec_bind_some hrun, when,
    if_pos hr, withTransaction, exec_get_bind, exec_modify_bind, hpop]

def Asks (query : Bytes) (field : QueryArg → Hash) (h : Hash) (addr : Option NetAddr)
    (e : Event) : Prop := ∃ m w, e = .send addr m w ∧ m.q = query ∧ field m.a = h

/-! ## `find_node` -/

theorem made_effect {Offered From}
    (he : Effect p mo Offered From s s') (h : ∀ t ∈ s.transactionManager.trans, Made t) :
    ∀ t ∈ s'.transactionManager.trans, Made t := by
  cases he with
  | transactions htm => exact fun t ht => (htm t ht).elim (h t) id
  | _ => exact h

theorem Reachable.made {Stored Given}
    (hs : Reachable p Stored Given s) : ∀ t ∈ s.transactionManager.trans, Made t := by
  refine hs.keeps (fun hnew _ _ => ?_) fun _ he => made_effect he
  unfold NewServer at hnew
  obtain ⟨rt4, -, hnew⟩ := bind_eq_some_iff.1 hnew
  obtain ⟨rt6, -, hnew⟩ := bind_eq_some_iff.1 hnew
  cases hnew
  exact fun _ h => nomatch h

theorem made_answers (h : Answers p mo s raddr data t m s₁)
    (hs : ∀ t ∈ s.transactionManager.trans, Made t) : Made t := by
  obtain ⟨r, s0, hrun, -, hpop, -⟩ := h.handled
  have hdoes : Does (Effect p mo (fun _ => True) fun _ => True)
      (addNode p mo raddr m.r.id m.ro) s := does_addNode allows_effect.toAdmits _ trivial
  have hmade := hdoes.keeps (fun he hI => made_effect he hI) hs
  rw [hrun] at hmade
  exact hmade t (mem_of_find?_eq_some hpop)

def NewNodes (p : Platform) (mo : Moment) (s : Server) (t : Transaction) (m : Message)
    (nodes : List Node) : Prop :=
  ∃ ids, ((processResponseNodes p mo t.arg.target t.visited m).exec s).1 = some (false, nodes, ids)

structure FollowsUp (p : Platform) (mo : Moment) (s : Server) (t : Transaction) (m : Message)
    (level : ℕ) (s' : Server) : Prop where
  asks : level < s.conf.searchDepth → ∀ nodes, NewNodes p mo s t m nodes → ∀ n ∈ nodes,
    ∃ e ∈ s'.events.drop s.events.length,
      Asks (utf8 "find_node") QueryArg.target t.arg.target n.addr.Addr e
  ends : s.conf.searchDepth ≤ level → ∀ e ∈ s'.events.drop s.events.length, ∀ addr,
    ¬ Asks (utf8 "find_node") QueryArg.target t.arg.target addr e

theorem exec_onFindNodeResp (h : t.depth = 0) :
    (onFindNodeResp p mo t m).exec s = (some (), s) := by
  rw [onFindNodeResp, when, if_neg (by omega)]
  rfl

/-- **`FindNode` never follows up.** -/
theorem findNode_followsUp_iff {Stored : Node → Prop} {Given : Input → Prop}
    (hs : Reachable p Stored Given s) (h : Answers p mo s raddr data t m s₁)
    (ht : t.onResponse = .findNode) (level : ℕ) :
    FollowsUp p mo s₁ t m level ((handlePacket p mo raddr data).exec s).2 ↔
      (level < s₁.conf.searchDepth → ∀ nodes, NewNodes p mo s₁ t m nodes → nodes = []) := by
  have hrun : (handlePacket p mo raddr data).exec s = (some (), s₁) := by
    rw [exec_packet h, onResponse, ht]
    exact exec_onFindNodeResp (made_answers h hs.made ht)
  have hnone : s₁.events.drop s₁.events.length = [] := List.drop_length
  rw [hrun]
  constructor
  · intro hf hlevel nodes hnodes
    rcases nodes with _ | ⟨n, nodes⟩
    · rfl
    · obtain ⟨e, he, -⟩ := hf.asks hlevel _ hnodes n List.mem_cons_self
      rw [hnone] at he
      cases he
  · intro hall
    refine ⟨fun hlevel nodes hnodes n hn => ?_, fun _ e he => ?_⟩
    · rw [hall hlevel nodes hnodes] at hn
      cases hn
    · rw [hnone] at he
      cases he

/-! ## A run -/

def bootServer : Server :=
  ((act samplePlatform (calm 0) (.findNode (some tellerAddr) sampleTarget)).exec sampleServer).2

theorem reachable_bootServer :
    Reachable samplePlatform (fun _ => True) (fun _ => True) bootServer :=
  reachable_sampleServer.step trivial (step_of_exec rfl)

def bootTransaction : Transaction where
  id := utf8 "1"
  query := utf8 "find_node"
  arg := { id := sampleTarget, target := sampleTarget, wants := [WantNodes] }
  addr := tellerAddr
  time := 0
  depth := 0
  visited := []
  callback := none
  onResponse := .findNode

def answeredServer : Server :=
  { ((addNode samplePlatform (calm 0) tellerAddr otherId false).exec bootServer).2 with
    transactionManager := ⟨[], 1⟩ }

theorem answers_bootServer : Answers samplePlatform (calm 0) bootServer tellerAddr nodesPacket
    bootTransaction nodesMsg answeredServer where
  admits := rfl
  decoded := decode_nodesPacket
  tid := cons_ne_nil _ _
  query := rfl
  response := rfl
  id := rfl
  handled := ⟨.nodeAdded, _, rfl, by decide, rfl, rfl⟩

theorem findNode_followsUp_last :
    Reachable samplePlatform (fun _ => True) (fun _ => True) bootServer ∧
      Answers samplePlatform (calm 0) bootServer tellerAddr nodesPacket bootTransaction nodesMsg
        answeredServer ∧
      FollowsUp samplePlatform (calm 0) answeredServer bootTransaction nodesMsg 8
        ((handlePacket samplePlatform (calm 0) tellerAddr nodesPacket).exec bootServer).2 :=
  ⟨reachable_bootServer, answers_bootServer,
    (findNode_followsUp_iff reachable_bootServer answers_bootServer rfl 8).2
      fun h => absurd h (lt_irrefl 8)⟩

theorem findNode_not_followed :
    Reachable samplePlatform (fun _ => True) (fun _ => True) bootServer ∧
      answeredServer.conf.searchDepth = 8 ∧
      Answers samplePlatform (calm 0) bootServer tellerAddr nodesPacket bootTransaction nodesMsg
        answeredServer ∧
      ¬ FollowsUp samplePlatform (calm 0) answeredServer bootTransaction nodesMsg 1
        ((handlePacket samplePlatform (calm 0) tellerAddr nodesPacket).exec bootServer).2 := by
  refine ⟨reachable_bootServer, rfl, answers_bootServer, fun h => ?_⟩
  have hrun : (handlePacket samplePlatform (calm 0) tellerAddr nodesPacket).exec bootServer =
      (some (), answeredServer) := exec_packet answers_bootServer
  rw [hrun] at h
  obtain ⟨e, he, -⟩ := h.asks (by decide) [NewNode sampleId [5, 6, 7, 8] 6881]
    ⟨[sampleId], rfl⟩ _ List.mem_cons_self
  rw [List.drop_length] at he
  cases he

end GoI2pBt.Dht.Server
