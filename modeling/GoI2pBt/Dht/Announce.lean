/-
  In careful runs, announces carry tokens that the node has given.
-/
import GoI2pBt.Dht.Exchange

namespace GoI2pBt.Dht.Server

open List Act Krpc Metainfo Option

/-! ## Tokens -/

structure TokenAnswer where
  info : Hash
  id : Hash
  addr : NetAddr
  token : Bytes
deriving DecidableEq

def firingAnswer : Firing → Option TokenAnswer
  | .onResponse t raddr m =>
    if t.onResponse = .getPeers ∧ m.r.token ≠ [] then
      some ⟨t.arg.infoHash, m.r.id, raddr, m.r.token⟩
    else none
  | _ => none

def tokenAnswer (p : Platform) (mo : Moment) (s : Server) : Input → Option TokenAnswer
  | .packet raddr data => ((receive p mo raddr data).exec s).1.join.bind firingAnswer
  | _ => none

abbrev Tokens : Type := Hash → NetAddr → Option (TokenAnswer × ℤ)

namespace Tokens

def note (net : Net) (known : Tokens) (answer : TokenAnswer) (now : ℤ) : Tokens := fun h a =>
  if h = answer.info ∧ answer.addr.String net = a.String net then some (answer, now) else known h a

def expire (known : Tokens) (now : ℤ) : Tokens := fun h a =>
  (known h a).filter fun e => now - e.2 ≤ minute * 1440

def step (p : Platform) (mo : Moment) (s : Server) (known : Tokens) : Input → Tokens
  | .cleanupPeers => known.expire mo.now
  | inp => (tokenAnswer p mo s inp).elim known fun answer => known.note p.net answer mo.now

end Tokens

inductive TokenRun (p : Platform) (Stored : Node → Prop) (Ok : Server → Moment → Input → Prop) :
    Server → Tokens → Prop where
  | new {conf : Config} {stored4 stored6 : List RoutingTableNode} {token : Bytes} {now : ℤ}
      {s : Server} (h : NewServer p.net conf stored4 stored6 token now = some s)
      (h4 : ∀ n ∈ stored4, Stored n.node) (h6 : ∀ n ∈ stored6, Stored n.node) :
      TokenRun p Stored Ok s fun _ _ => none
  | step {mo : Moment} {s s' : Server} {known : Tokens} {inp : Input}
      (hs : TokenRun p Stored Ok s known) (hok : Ok s mo inp) (h : step p mo s inp = some s') :
      TokenRun p Stored Ok s' (known.step p mo s inp)

def announced (p : Platform) (mo : Moment) (s : Server) (h : Hash) (port : UInt16)
    (impliedPort : Bool) : List Event :=
  ((AnnouncePeer p mo h port impliedPort).exec s).2.events.drop s.events.length

structure Announces (p : Platform) (s : Server) (known : Tokens) : Prop where
  sends : ∀ mo h port impliedPort, ∀ n ∈ s.collectClosestNodes h, ∀ a answer time,
    n.addr.Addr = some a → known h a = some (answer, time) → answer.addr = a →
    ∃ m w, .send (some a) m w ∈ announced p mo s h port impliedPort ∧
      m.q = utf8 "announce_peer" ∧ m.a.infoHash = h ∧ m.a.token = answer.token
  only : ∀ mo h port impliedPort a m w, .send a m w ∈ announced p mo s h port impliedPort →
    m.q = utf8 "announce_peer" → ∃ a' answer time, a = some a' ∧ known h a' = some (answer, time) ∧
      answer.info = h ∧ answer.addr.String p.net = a'.String p.net ∧ m.a.token = answer.token

/-! ## What leaves the tokens alone -/

structure Apart (s s' : Server) : Prop where
  ipv4 : s'.ipv4 = s.ipv4
  ipv6 : s'.ipv6 = s.ipv6
  tokenPeerManager : s'.tokenPeerManager = s.tokenPeerManager

theorem Apart.refl (s : Server) : Apart s s := ⟨rfl, rfl, rfl⟩

theorem Apart.trans {s s1 s'} (h : Apart s s1) (h' : Apart s1 s') : Apart s s' :=
  ⟨h'.ipv4.trans h.ipv4, h'.ipv6.trans h.ipv6, h'.tokenPeerManager.trans h.tokenPeerManager⟩

theorem Apart.isDisabled {s s'} (h : Apart s s') (addr : Option NetAddr) :
    s'.isDisabled addr = s.isDisabled addr := by
  rw [Server.isDisabled, Server.isDisabled, h.ipv4, h.ipv6]

variable {p : Platform} {mo : Moment} {s s' : Server}

theorem allows_apart (p : Platform) (mo : Moment) : Allows p mo (fun _ => True) Apart where
  table4 _ _ := ⟨rfl, rfl, rfl⟩
  table6 _ _ _ := ⟨rfl, rfl, rfl⟩
  blacklist _ _ := ⟨rfl, rfl, rfl⟩
  emit _ := ⟨rfl, rfl, rfl⟩
  transactions _ := ⟨rfl, rfl, rfl⟩
  check4 _ _ := ⟨rfl, rfl, rfl⟩
  check6 _ _ := ⟨rfl, rfl, rfl⟩
  store _ _ := ⟨rfl, rfl, rfl⟩
  token _ _ := ⟨rfl, rfl, rfl⟩
  clear _ _ := ⟨rfl, rfl, rfl⟩
  rotate _ _ := ⟨rfl, rfl, rfl⟩

theorem apart_of_reflTransGen (h : Relation.ReflTransGen Apart s s') : Apart s s' := by
  induction h with
  | refl => exact .refl s
  | tail _ hstep ih => exact ih.trans hstep

theorem apart_of_does {α : Type} {x : Act Server α} {r : Option α} (h : Does Apart x s)
    (hrun : x.exec s = (r, s')) : Apart s s' := by
  have hapart := apart_of_reflTransGen h
  rwa [hrun] at hapart

theorem does_pop {R} (hR : Allows p mo (fun _ => True) R)
    (raddr : NetAddr) (tid : Bytes) : Does R (pop p raddr tid) s :=
  does_get_bind (does_bind (does_modify (hR.transactions fun _ h =>
    .inl (mem_of_mem_filter h))) fun _ _ _ => does_pure _)

theorem apart_receive (raddr : NetAddr) (data : Bytes) :
    Does Apart (receive p mo raddr data) s := by
  refine does_get_bind ?_
  split_ifs
  · exact does_pure _
  · split
    · exact does_pure _
    · split_ifs
      · exact does_pure _
      · unfold receiveMessage
        split_ifs
        · exact does_bind (does_handleQueryMessage (allows_apart p mo).toAdmits
            (allows_apart p mo).token (allows_apart p mo).store trivial) fun _ _ _ => does_pure _
        · exact does_pure _
        · refine does_bind (does_addNode (allows_apart p mo).toAdmits _ trivial) fun _ _ _ => ?_
          split_ifs
          · exact does_pure _
          · exact does_bind (does_pop (allows_apart p mo) _ _) fun _ _ _ => does_pure _
        · exact does_bind (does_pop (allows_apart p mo) _ _) fun _ _ _ => does_pure _
        · exact does_pure _

theorem apart_call (p : Platform) (mo : Moment) (s : Server) (f : Firing) :
    Apart ((firingAnswer f).elim s fun answer => { s with
      tokenPeerManager := s.tokenPeerManager.Set p.net answer.id answer.addr answer.token mo.now })
    ((call p mo f).exec s).2 := by
  refine apart_of_reflTransGen ?_
  cases f with
  | onError | onTimeout => exact does_done (allows_apart p mo).toAdmits _ _
  | onResponse t raddr m =>
    rw [firingAnswer, call]
    by_cases hresp : t.onResponse = .getPeers
    · have hcall : onResponse p mo t raddr m = onGetPeersResp p mo t raddr m := by
        rw [onResponse, hresp]
      rw [hcall]
      refine does_afterStore (allows_apart p mo) t ?_ fun _ _ => trivial
      rw [exec_storeTokenIfPresent]
      by_cases htoken : m.r.token ≠ []
      · rw [if_pos htoken, if_pos ⟨hresp, htoken⟩]
        rfl
      · rw [if_neg htoken, if_neg fun h => htoken h.2]
        rfl
    · rw [if_neg fun h => hresp h.1]
      exact does_onResponse (allows_apart p mo) t (fun h => absurd h hresp) fun _ _ => trivial

/-! ## Steps -/

def storeStep (p : Platform) (mo : Moment) (s : Server) : Input → TokenPeerManager
  | .cleanupPeers => s.tokenPeerManager.cleanupExpiredPeers mo.now (minute * 1440)
  | inp => (tokenAnswer p mo s inp).elim s.tokenPeerManager fun answer =>
    s.tokenPeerManager.Set p.net answer.id answer.addr answer.token mo.now

theorem exec_of_step {inp} (h : step p mo s inp = some s') :
    (act p mo inp).exec s = (some (), s') := by
  unfold step at h
  split at h
  · next hrun =>
    cases h
    exact hrun
  · cases h

theorem stored_packet {raddr : NetAddr} {data : Bytes}
    (h : (handlePacket p mo raddr data).exec s = (some (), s')) :
    s'.ipv4 = s.ipv4 ∧ s'.ipv6 = s.ipv6 ∧
      s'.tokenPeerManager = storeStep p mo s (.packet raddr data) := by
  rw [handlePacket_eq] at h
  obtain ⟨f, s1, hreceive, hcall⟩ := exec_bind_eq_some h
  have hapart : Apart s s1 := apart_of_does (apart_receive raddr data) hreceive
  have hanswer : tokenAnswer p mo s (.packet raddr data) = f.bind firingAnswer := by
    rw [tokenAnswer, hreceive]
    rfl
  change _ ∧ _ ∧ s'.tokenPeerManager = (tokenAnswer p mo s (.packet raddr data)).elim _ _
  rw [hanswer]
  cases f with
  | none =>
    cases hcall
    exact ⟨hapart.ipv4, hapart.ipv6, hapart.tokenPeerManager⟩
  | some f =>
    have hafter := apart_call p mo s1 f
    change (call p mo f).exec s1 = (some (), s') at hcall
    rw [hcall] at hafter
    change _ ∧ _ ∧ s'.tokenPeerManager = (firingAnswer f).elim _ _
    cases hf : firingAnswer f with
    | none =>
      rw [hf] at hafter
      have hall := hapart.trans hafter
      exact ⟨hall.ipv4, hall.ipv6, hall.tokenPeerManager⟩
    | some answer =>
      rw [hf] at hafter
      refine ⟨hafter.ipv4.trans hapart.ipv4, hafter.ipv6.trans hapart.ipv6, ?_⟩
      refine hafter.tokenPeerManager.trans ?_
      rw [elim_some, elim_some, hapart.tokenPeerManager]

theorem stored_step {inp : Input} (h : step p mo s inp = some s') :
    s'.ipv4 = s.ipv4 ∧ s'.ipv6 = s.ipv6 ∧ s'.tokenPeerManager = storeStep p mo s inp := by
  have hrun := exec_of_step h
  have hother : (∀ raddr data, inp ≠ .packet raddr data) → inp ≠ .cleanupPeers → Apart s s' := by
    intro hpacket hclean
    exact apart_of_does (does_call (allows_apart p mo) hpacket (fun _ _ => trivial)
      fun h => absurd h hclean) hrun
  cases inp with
  | packet raddr data => exact stored_packet hrun
  | cleanupPeers =>
    cases hrun
    exact ⟨rfl, rfl, rfl⟩
  | _ =>
    have hapart := hother nofun nofun
    exact ⟨hapart.ipv4, hapart.ipv6, hapart.tokenPeerManager⟩

theorem tokenAnswer_spec {inp answer} (h : tokenAnswer p mo s inp = some answer) :
    answer.token ≠ [] ∧ answer.id.IsZero = false ∧ s.isDisabled (some answer.addr) = false := by
  cases inp with
  | packet raddr data =>
    rw [tokenAnswer, bind_eq_some_iff] at h
    obtain ⟨f, hf, hanswer⟩ := h
    have hreceive : ((receive p mo raddr data).exec s).1 = some (some f) := join_eq_some_iff.mp hf
    cases f with
    | onResponse t raddr' m =>
      obtain ⟨rfl, ha, -⟩ := accepted_of_receive (exec_of_fst hreceive)
      rw [firingAnswer] at hanswer
      split_ifs at hanswer with htoken
      cases hanswer
      refine ⟨htoken.2, ha.id, ?_⟩
      have hadmits := ha.admits
      rw [admits, Bool.and_eq_true] at hadmits
      simpa using hadmits.1
    | onError | onTimeout => cases hanswer
  | _ => cases h

/-! ## The store and the known tokens -/

def hasPeerKey (net : Net) (h : Hash) (a : NetAddr) (peer : Peer) : Bool :=
  peer.id = h ∧ peer.ip.String net = a.String net

def entryOf (h : Hash) (e : TokenAnswer × ℤ) : Peer :=
  ⟨h, e.1.addr, UInt16.ofInt e.1.addr.Port, e.1.token, e.2⟩

structure Matches (net : Net) (s : Server) (known : Tokens) : Prop where
  found : ∀ h a, s.tokenPeerManager.peers.find? (hasPeerKey net h a) = (known h a).map (entryOf h)
  unique : ∀ h a, ∀ q ∈ s.tokenPeerManager.peers, ∀ q' ∈ s.tokenPeerManager.peers,
    hasPeerKey net h a q = true → hasPeerKey net h a q' = true → q = q'
  given : ∀ h a answer time, known h a = some (answer, time) → answer.info = h ∧
    answer.addr.String net = a.String net ∧ answer.token ≠ [] ∧ h.IsZero = false ∧
    s.isDisabled (some answer.addr) = false

theorem hasPeerKey_iff {net h a peer} :
    hasPeerKey net h a peer = true ↔ peer.id = h ∧ peer.ip.String net = a.String net :=
  decide_eq_true_iff

theorem find?_filter_unique {α : Type} {l : List α} {k q : α → Bool}
    (h : ∀ x ∈ l, ∀ y ∈ l, k x = true → k y = true → x = y) :
    (l.filter q).find? k = (l.find? k).filter q := by
  cases hfind : l.find? k with
  | none =>
    rw [filter_none, find?_eq_none]
    intro x hx
    exact find?_eq_none.mp hfind x (mem_of_mem_filter hx)
  | some x =>
    have hx := mem_of_find?_eq_some hfind
    have hk := find?_some hfind
    rw [filter_some]
    split_ifs with hq
    · have hsome : ((l.filter q).find? k).isSome :=
        find?_isSome.mpr ⟨x, mem_filter.mpr ⟨hx, hq⟩, hk⟩
      obtain ⟨y, hy⟩ := isSome_iff_exists.mp hsome
      rw [hy, h y (mem_of_mem_filter (mem_of_find?_eq_some hy)) x hx
        (find?_some hy) hk]
    · rw [find?_eq_none]
      intro y hy hky
      have heq := h y (mem_of_mem_filter hy) x hx hky hk
      exact hq (heq ▸ (mem_filter.mp hy).2)

theorem Matches.expire {known : Tokens} (h : Matches p.net s known) (now : ℤ) :
    Matches p.net { s with
      tokenPeerManager := s.tokenPeerManager.cleanupExpiredPeers now (minute * 1440) }
      (known.expire now) where
  found hash a := by
    change (s.tokenPeerManager.peers.filter _).find? _ = _
    rw [find?_filter_unique (h.unique hash a), h.found, Tokens.expire]
    cases known hash a with
    | none => rfl
    | some e =>
      rw [map_some, filter_some, filter_some]
      change (if decide (now - e.2 ≤ minute * 1440) = true then _ else _) = _
      split_ifs <;> rfl
  unique hash a q hq q' hq' := h.unique hash a q (mem_of_mem_filter hq) q' (mem_of_mem_filter hq')
  given hash a answer time hknown := by
    rw [Tokens.expire, filter_eq_some_iff] at hknown
    exact h.given hash a answer time hknown.1

theorem find?_replace (net : Net) (peers : List Peer) (h : Hash) (a : NetAddr) (new : Peer) :
    (peers.filter (fun peer => ¬ (peer.id = new.id ∧ peer.ip.String net = new.ip.String net)) ++
      [new]).find? (hasPeerKey net h a) =
      if h = new.id ∧ new.ip.String net = a.String net then some new
      else peers.find? (hasPeerKey net h a) := by
  have hnew : hasPeerKey net h a new = true ↔ h = new.id ∧ new.ip.String net = a.String net :=
    hasPeerKey_iff.trans (and_congr_left' eq_comm)
  rw [find?_append]
  by_cases hkey : h = new.id ∧ new.ip.String net = a.String net
  · -- the other entries with this key are gone
    have hnone : (peers.filter fun peer =>
        ¬ (peer.id = new.id ∧ peer.ip.String net = new.ip.String net)).find?
          (hasPeerKey net h a) = none := by
      rw [find?_eq_none]
      intro peer hpeer hmatch
      obtain ⟨hid, htext⟩ := hasPeerKey_iff.mp hmatch
      refine of_decide_eq_true (mem_filter.mp hpeer).2 ⟨hid.trans hkey.1, ?_⟩
      rw [htext, hkey.2]
    rw [hnone, none_or, if_pos hkey, find?_cons_of_pos (hnew.mpr hkey)]
  · rw [if_neg hkey, find?_cons_of_neg fun hmatch => hkey (hnew.mp hmatch), find?_nil,
      or_none, find?_filter]
    refine find?_congr fun peer _ => ?_
    refine decide_eq_decide.mpr ⟨fun hboth => hasPeerKey_iff.mp hboth.2, fun hmatch =>
      ⟨decide_eq_true ?_, hasPeerKey_iff.mpr hmatch⟩⟩
    rintro ⟨hid, htext⟩
    exact hkey ⟨hmatch.1.symm.trans hid, htext.symm.trans hmatch.2⟩

theorem Matches.note {known : Tokens} (h : Matches p.net s known) {answer : TokenAnswer}
    (hid : answer.id = answer.info) (htoken : answer.token ≠ []) (hzero : answer.id.IsZero = false)
    (henabled : s.isDisabled (some answer.addr) = false) (now : ℤ) :
    Matches p.net { s with
      tokenPeerManager := s.tokenPeerManager.Set p.net answer.id answer.addr answer.token now }
      (known.note p.net answer now) where
  found hash a := by
    refine (find?_replace p.net s.tokenPeerManager.peers hash a
      ⟨answer.id, answer.addr, UInt16.ofInt answer.addr.Port, answer.token, now⟩).trans ?_
    rw [Tokens.note, hid]
    split_ifs with hkey
    · rw [hkey.1]
      rfl
    · exact h.found hash a
  unique hash a q hq q' hq' hkey hkey' := by
    obtain ⟨hqid, hqtext⟩ := hasPeerKey_iff.mp hkey
    obtain ⟨hqid', hqtext'⟩ := hasPeerKey_iff.mp hkey'
    rcases mem_append.mp hq with hold | hnew <;>
      rcases mem_append.mp hq' with hold' | hnew'
    · exact h.unique hash a q (mem_of_mem_filter hold) q' (mem_of_mem_filter hold')
        hkey hkey'
    · cases mem_singleton.mp hnew'
      refine absurd ⟨hqid.trans hqid'.symm, hqtext.trans hqtext'.symm⟩
        (of_decide_eq_true (mem_filter.mp hold).2)
    · cases mem_singleton.mp hnew
      refine absurd ⟨hqid'.trans hqid.symm, hqtext'.trans hqtext.symm⟩
        (of_decide_eq_true (mem_filter.mp hold').2)
    · rw [mem_singleton.mp hnew, mem_singleton.mp hnew']
  given hash a answer' time hknown := by
    rw [Tokens.note] at hknown
    split_ifs at hknown with hkey
    · cases hknown
      refine ⟨hkey.1.symm, hkey.2, htoken, ?_, henabled⟩
      rw [hkey.1, ← hid]
      exact hzero
    · exact h.given hash a answer' time hknown

theorem Matches.congr {known} (h : Matches p.net s known) (h4 : s'.ipv4 = s.ipv4)
    (h6 : s'.ipv6 = s.ipv6) (hpeers : s'.tokenPeerManager = s.tokenPeerManager) :
    Matches p.net s' known where
  found := by
    rw [hpeers]
    exact h.found
  unique := by
    rw [hpeers]
    exact h.unique
  given hash a answer time hknown := by
    rw [isDisabled, h4, h6]
    exact h.given hash a answer time hknown

theorem Matches.step {known inp} (h : Matches p.net s known)
    (hcareful : ∀ answer, tokenAnswer p mo s inp = some answer → answer.id = answer.info)
    (hstep : step p mo s inp = some s') : Matches p.net s' (known.step p mo s inp) := by
  obtain ⟨h4, h6, hpeers⟩ := stored_step hstep
  by_cases hclean : inp = .cleanupPeers
  · subst hclean
    exact (h.expire mo.now).congr h4 h6 hpeers
  · have hknown : known.step p mo s inp = (tokenAnswer p mo s inp).elim known fun answer =>
        known.note p.net answer mo.now := by
      cases inp <;> first | rfl | exact absurd rfl hclean
    have hstore : storeStep p mo s inp = (tokenAnswer p mo s inp).elim s.tokenPeerManager
        fun answer => s.tokenPeerManager.Set p.net answer.id answer.addr answer.token mo.now := by
      cases inp <;> first | rfl | exact absurd rfl hclean
    rw [hknown]
    rw [hstore] at hpeers
    cases hanswer : tokenAnswer p mo s inp with
    | none =>
      rw [hanswer] at hpeers
      exact h.congr h4 h6 hpeers
    | some answer =>
      rw [hanswer] at hpeers
      obtain ⟨htoken, hzero, henabled⟩ := tokenAnswer_spec hanswer
      exact (h.note (hcareful answer hanswer) htoken hzero henabled mo.now).congr h4 h6 hpeers

structure Careful (p : Platform) (s : Server) (mo : Moment) (inp : Input) : Prop where
  id : ∀ answer, tokenAnswer p mo s inp = some answer → answer.id = answer.info
  addr : ∀ n, Offers p inp n → n.addr.Addr ≠ none

theorem TokenRun.matches {known}
    (h : TokenRun p (fun n => n.addr.Addr ≠ none) (Careful p) s known) :
    Matches p.net s known := by
  induction h with
  | new h =>
    have hpeers := (newServer_eq_some h).2.2.2
    constructor
    · intro h a
      rw [hpeers]
      rfl
    · intro h a q hq
      rw [hpeers] at hq
      cases hq
    · intro h a answer time hknown
      cases hknown
  | step hs hok hstep ih => exact ih.step hok.id hstep

theorem TokenRun.reachable {Stored known} (h : TokenRun p Stored (Careful p) s known) :
    Reachable p Stored (fun inp => ∀ n, Offers p inp n → n.addr.Addr ≠ none) s := by
  induction h with
  | new h h4 h6 => exact .new h h4 h6
  | step hs hok hstep ih => exact ih.step hok.addr hstep

/-! ## Announcements -/

theorem Matches.get {known} (h : Matches p.net s known) (hash : Hash) (a : NetAddr) :
    s.tokenPeerManager.Get p.net hash a = (known hash a).elim [] fun e => e.1.token := by
  have hfound : s.tokenPeerManager.peers.find? (fun peer => decide
      (peer.id = hash ∧ peer.ip.String p.net = a.String p.net)) = _ := h.found hash a
  rw [TokenPeerManager.Get, hfound]
  cases known hash a <;> rfl

def IsAnnounce (h : Hash) (token : Bytes) (a : NetAddr) (e : Event) : Prop :=
  ∃ m w, e = .send (some a) m w ∧ m.q = utf8 "announce_peer" ∧ m.a.infoHash = h ∧ m.a.token = token

theorem exec_announceOne (p : Platform) (mo : Moment) (s : Server) (arg : QueryArg) (a : NetAddr) :
    ∃ err s' l, (if arg.token = [] then pure true
        else request p mo (some a) (utf8 "announce_peer") arg 0 [] none .noop).exec s =
        (some err, s') ∧ Apart s s' ∧ s'.events = s.events ++ l ∧
      (arg.token ≠ [] → s.isDisabled (some a) = false →
        ∃ e ∈ l, IsAnnounce arg.infoHash arg.token a e) ∧
      ∀ e ∈ l, arg.token ≠ [] ∧ IsAnnounce arg.infoHash arg.token a e := by
  by_cases hempty : arg.token = []
  · rw [if_pos hempty]
    refine ⟨true, s, [], rfl, .refl s, (append_nil _).symm, ?_, ?_⟩
    · exact fun hne => absurd hempty hne
    · exact fun e he => nomatch he
  · rw [if_neg hempty]
    by_cases hd : s.isDisabled (some a) = true
    · refine ⟨true, s, [], exec_request_disabled p mo hd, .refl s, (append_nil _).symm, ?_, ?_⟩
      · intro _ hd'
        rw [hd'] at hd
        cases hd
      · exact fun e he => nomatch he
    · obtain ⟨err, s', w, hrun, -, hev⟩ : ∃ err s' w, (request p mo (some a)
          (utf8 "announce_peer") arg 0 [] none .noop).exec s = (some err, s') ∧ Aside s s' ∧
          s'.events = s.events ++ [.send (some a) (s.queryMsg (utf8 "announce_peer") arg) w] :=
        exec_request p mo (eq_false_of_ne_true hd)
      have happart : Apart s s' :=
        apart_of_does (does_request (allows_apart p mo) _ _ _ _ _ fun _ => rfl) hrun
      have hannounce : IsAnnounce arg.infoHash arg.token a
          (.send (some a) (s.queryMsg (utf8 "announce_peer") arg) w) :=
        ⟨_, _, rfl, rfl, rfl, rfl⟩
      refine ⟨err, s', _, hrun, happart, hev, ?_, ?_⟩
      · exact fun _ _ => ⟨_, mem_singleton_self _, hannounce⟩
      · intro e he
        rw [mem_singleton.mp he]
        exact ⟨hempty, hannounce⟩

theorem exec_announceTo (p : Platform) (mo : Moment) (s : Server) (h : Hash) (port : UInt16)
    (impliedPort : Bool) {nodes} (haddr : ∀ n ∈ nodes, n.addr.Addr ≠ none) :
    ∃ sent s' l, (announceTo p mo h port impliedPort nodes).exec s = (some sent, s') ∧
      s'.events = s.events ++ l ∧
      (∀ n ∈ nodes, ∀ a, n.addr.Addr = some a → s.tokenPeerManager.Get p.net h a ≠ [] →
        s.isDisabled (some a) = false →
        ∃ e ∈ l, IsAnnounce h (s.tokenPeerManager.Get p.net h a) a e) ∧
      ∀ e ∈ l, ∃ a, s.tokenPeerManager.Get p.net h a ≠ [] ∧
        IsAnnounce h (s.tokenPeerManager.Get p.net h a) a e := by
  induction nodes generalizing s with
  | nil =>
    refine ⟨[], s, [], rfl, (append_nil _).symm, ?_, ?_⟩
    · exact fun n hn => nomatch hn
    · exact fun e he => nomatch he
  | cons n nodes ih =>
    obtain ⟨a, ha⟩ := ne_none_iff_exists'.mp (haddr n mem_cons_self)
    obtain ⟨err, s1, l1, hrun1, hapart, hev1, hone, honly⟩ := exec_announceOne p mo s
      { infoHash := h, port, token := s.tokenPeerManager.Get p.net h a, impliedPort } a
    obtain ⟨sent, s2, l2, hrun2, hev2, hall, hrest⟩ := ih s1 fun n hn =>
      haddr n (mem_cons_of_mem _ hn)
    rw [hapart.tokenPeerManager] at hall hrest
    refine ⟨if err then sent else n :: sent, s2, l1 ++ l2, ?_,
      by rw [hev2, hev1, append_assoc], ?_, ?_⟩
    · rw [announceTo, ha]
      dsimp only
      rw [exec_get_bind, exec_bind_some hrun1, exec_bind_some hrun2]
      rfl
    · intro n' hn' a' ha' hne hd
      rcases mem_cons.mp hn' with rfl | hn'
      · cases ha.symm.trans ha'
        obtain ⟨e, he, hannounce⟩ := hone hne hd
        exact ⟨e, mem_append_left _ he, hannounce⟩
      · obtain ⟨e, he, hannounce⟩ := hall n' hn' a' ha' hne ((hapart.isDisabled _).trans hd)
        exact ⟨e, mem_append_right _ he, hannounce⟩
    · intro e he
      rcases mem_append.mp he with he | he
      · exact ⟨a, honly e he⟩
      · exact hrest e he

theorem mem_collectClosestNodes {G} (hs : s.AllNodes G) {h n}
    (hn : n ∈ s.collectClosestNodes h) : G n := by
  have hmem : ∀ {rt : RoutingTable}, (∀ o ∈ rt.nodes, G o.node) → n ∈ rt.Closest h s.conf.k →
      G n := by
    intro rt hall hn
    obtain ⟨o, ho, rfl⟩ := (isClosest_closest rt h s.conf.k).mem hn
    exact hall o ho
  rcases mem_append.mp hn with hn | hn
  · split_ifs at hn
    · exact hmem hs.table4 hn
    · cases hn
  · split_ifs at hn
    · exact hmem hs.table6 hn
    · cases hn

theorem announced_spec (p : Platform) (mo : Moment) {h} (hzero : h.IsZero = false) (port : UInt16)
    (impliedPort : Bool) (haddr : ∀ n ∈ s.collectClosestNodes h, n.addr.Addr ≠ none) :
    (∀ n ∈ s.collectClosestNodes h, ∀ a, n.addr.Addr = some a →
        s.tokenPeerManager.Get p.net h a ≠ [] → s.isDisabled (some a) = false →
        ∃ e ∈ announced p mo s h port impliedPort,
          IsAnnounce h (s.tokenPeerManager.Get p.net h a) a e) ∧
      ∀ e ∈ announced p mo s h port impliedPort, ∃ a, s.tokenPeerManager.Get p.net h a ≠ [] ∧
        IsAnnounce h (s.tokenPeerManager.Get p.net h a) a e := by
  obtain ⟨sent, s', l, hrun, hev, hall, honly⟩ := exec_announceTo p mo s h port impliedPort haddr
  have hannounced : announced p mo s h port impliedPort = l := by
    rw [announced, AnnouncePeer, if_neg (ne_true_of_eq_false hzero), exec_get_bind, hrun, hev]
    exact drop_left
  rw [hannounced]
  exact ⟨hall, honly⟩

theorem announced_zero (p : Platform) (mo : Moment) {h} (hzero : h.IsZero = true)
    (port : UInt16) (impliedPort : Bool) : announced p mo s h port impliedPort = [] := by
  rw [announced, AnnouncePeer, if_pos hzero]
  exact drop_length

/-- **Announces carry the token of their node.** -/
theorem announces_of_careful {known : Tokens}
    (hrun : TokenRun p (fun n => n.addr.Addr ≠ none) (Careful p) s known) :
    Announces p s known := by
  have hmatches := hrun.matches
  have hnodes : s.AllNodes fun n => n.addr.Addr ≠ none :=
    hrun.reachable.allNodes (fun _ h => h) fun inp n h => h n
  constructor
  · intro mo h port impliedPort n hn a answer time ha hknown hsame
    obtain ⟨-, -, htoken, hzero, henabled⟩ := hmatches.given h a answer time hknown
    have hget : s.tokenPeerManager.Get p.net h a = answer.token := by
      rw [hmatches.get, hknown]
      rfl
    obtain ⟨e, he, m, w, rfl, hq, hinfo, htok⟩ := (announced_spec p mo hzero port impliedPort
      fun n hn => mem_collectClosestNodes hnodes hn).1 n hn a ha (by rw [hget]; exact htoken)
        (hsame ▸ henabled)
    exact ⟨m, w, he, hq, hinfo, htok.trans hget⟩
  · intro mo h port impliedPort a m w he hq
    cases hzero : h.IsZero with
    | true =>
      rw [announced_zero p mo hzero] at he
      cases he
    | false =>
      obtain ⟨a', hne, m', w', heq, -, -, htok⟩ := (announced_spec p mo hzero port impliedPort
        fun n hn => mem_collectClosestNodes hnodes hn).2 _ he
      cases heq
      rw [hmatches.get] at hne htok
      cases hknown : known h a' with
      | none =>
        rw [hknown] at hne
        exact absurd rfl hne
      | some e =>
        rw [hknown] at htok
        obtain ⟨hinfo, htext, -⟩ := hmatches.given h a' e.1 e.2 hknown
        exact ⟨a', e.1, e.2, rfl, hknown, hinfo, htext, htok⟩

/-! ## A run -/

def askingServer (info : Hash) : Server :=
  ((act samplePlatform (calm 0) (.getPeers info none)).exec joinedServer).2

def givenServer (info : Hash) : Server :=
  ((handleMessage samplePlatform (calm 0) tellerAddr tokenMsg).exec (askingServer info)).2

def tellerNode : Node := NewNodeByUDPAddr otherId tellerAddr

def tellerAnswer (info : Hash) : TokenAnswer := ⟨info, otherId, tellerAddr, utf8 "x"⟩

def tellerTokens (info : Hash) : Tokens :=
  Tokens.note samplePlatform.net (fun _ _ => none) (tellerAnswer info) 0

theorem tokenAnswer_teller :
    tokenAnswer samplePlatform (calm 0) (askingServer sampleId) (.packet tellerAddr tokenPacket) =
      some (tellerAnswer sampleId) := by decide +kernel

theorem tokenAnswer_self :
    tokenAnswer samplePlatform (calm 0) (askingServer otherId) (.packet tellerAddr tokenPacket) =
      some (tellerAnswer otherId) := by decide +kernel

theorem tokenRun_given {info Stored Ok} (hadd : Ok sampleServer (calm 0) (.addNode tellerNode))
    (hget : Ok joinedServer (calm 0) (.getPeers info none))
    (hpacket : Ok (askingServer info) (calm 0) (.packet tellerAddr tokenPacket))
    (hask : ((act samplePlatform (calm 0) (.getPeers info none)).exec joinedServer).1 = some ())
    (hadmits : (askingServer info).admits samplePlatform tellerAddr = true)
    (hhandle : ((handleMessage samplePlatform (calm 0) tellerAddr tokenMsg).exec
      (askingServer info)).1 = some ())
    (hanswer : tokenAnswer samplePlatform (calm 0) (askingServer info)
      (.packet tellerAddr tokenPacket) = some (tellerAnswer info)) :
    TokenRun samplePlatform Stored Ok (givenServer info) (tellerTokens info) := by
  have hnew : TokenRun samplePlatform Stored Ok sampleServer fun _ _ => none :=
    .new new_sampleServer (fun _ h => nomatch h) fun _ h => nomatch h
  have hjoined : TokenRun samplePlatform Stored Ok joinedServer fun _ _ => none :=
    hnew.step hadd (step_of_exec rfl)
  have hasking : TokenRun samplePlatform Stored Ok (askingServer info) fun _ _ => none :=
    hjoined.step hget (step_of_exec hask)
  have hgiven := hasking.step hpacket
    (step_packet decode_tokenPacket hadmits (cons_ne_nil _ _) hhandle)
  have hknown : Tokens.step samplePlatform (calm 0) (askingServer info) (fun _ _ => none)
      (.packet tellerAddr tokenPacket) = tellerTokens info := by
    change (tokenAnswer samplePlatform (calm 0) (askingServer info)
      (.packet tellerAddr tokenPacket)).elim _ _ = _
    rw [hanswer]
    rfl
  rw [hknown] at hgiven
  exact hgiven

theorem careful_packet :
    Careful samplePlatform (askingServer otherId) (calm 0) (.packet tellerAddr tokenPacket) where
  id answer h := by
    rw [tokenAnswer_self] at h
    cases h
    rfl
  addr n h := by
    obtain ⟨m, hm, hoffers⟩ := h
    rw [decode_tokenPacket] at hm
    cases hm
    obtain ⟨hq, -⟩ | ⟨-, rfl | hn⟩ := hoffers
    · cases hq
    · exact some_ne_none _
    · cases hn

theorem announces_self :
    TokenRun samplePlatform (fun n => n.addr.Addr ≠ none) (Careful samplePlatform)
      (givenServer otherId) (tellerTokens otherId) ∧
    tellerTokens otherId otherId tellerAddr = some (tellerAnswer otherId, 0) ∧
    Announces samplePlatform (givenServer otherId) (tellerTokens otherId) := by
  have hrun : TokenRun samplePlatform (fun n => n.addr.Addr ≠ none) (Careful samplePlatform)
      (givenServer otherId) (tellerTokens otherId) := by
    refine tokenRun_given ⟨?_, ?_⟩ ⟨?_, ?_⟩ careful_packet rfl rfl rfl tokenAnswer_self
    · rintro answer ⟨⟩
    · rintro n rfl
      exact Option.some_ne_none _
    · rintro answer ⟨⟩
    · rintro n ⟨⟩
  exact ⟨hrun, rfl, announces_of_careful hrun⟩

theorem token_not_announced :
    TokenRun samplePlatform (fun _ => True) (fun _ _ _ => True) (givenServer sampleId)
      (tellerTokens sampleId) ∧
    tellerTokens sampleId sampleId tellerAddr = some (tellerAnswer sampleId, 0) ∧
    tellerNode ∈ (givenServer sampleId).collectClosestNodes sampleId ∧
    ¬ Announces samplePlatform (givenServer sampleId) (tellerTokens sampleId) := by
  have hmem : tellerNode ∈ (givenServer sampleId).collectClosestNodes sampleId := by
    decide +kernel
  have hnone : announced samplePlatform (calm 0) (givenServer sampleId) sampleId 80 false = [] := by
    decide +kernel
  refine ⟨tokenRun_given trivial trivial trivial rfl rfl rfl tokenAnswer_teller, rfl, hmem,
    fun h => ?_⟩
  obtain ⟨m, w, he, -⟩ := h.sends (calm 0) sampleId 80 false tellerNode hmem tellerAddr
    (tellerAnswer sampleId) 0 rfl rfl rfl
  rw [hnone] at he
  cases he

end GoI2pBt.Dht.Server
