/-
  The UDP server: a handler only for a connection it has given.
-/
import GoI2pBt.Lib.Threads
import GoI2pBt.Tracker.Udp

namespace GoI2pBt.Tracker

open List Metainfo Function AnnounceRequest
open Metainfo.Address (sampleNet)

/-! ## Actions -/

inductive Action where
  | onConnect (raddr : NetAddr)
  | getConnectionID
  | addConnection (cid : UInt64) (raddr : NetAddr)
  | checkConnection (cid : UInt64) (raddr : NetAddr)
  | onAnnounce (raddr : NetAddr) (req : AnnounceRequest)
  | onScrap (raddr : NetAddr) (infohashes : List Hash)
  | send (raddr : NetAddr) (b : Bytes)
  | panic

def Action.Result : Action → Type
  | .onConnect _ => Option Bytes
  | .getConnectionID => UInt64
  | .addConnection _ _ => Unit
  | .checkConnection _ _ => Bool
  | .onAnnounce _ _ => Except Bytes AnnounceResponse
  | .onScrap _ _ => Except Bytes (List ScrapeResponse)
  | .send _ _ => Unit
  | .panic => Empty

abbrev Handling := Prog Action Action.Result

def onConnect (raddr : NetAddr) : Handling (Option Bytes) := .act (.onConnect raddr) .ret

def getConnectionID : Handling UInt64 := .act .getConnectionID .ret

def addConnection (cid : UInt64) (raddr : NetAddr) : Handling Unit :=
  .act (.addConnection cid raddr) .ret

def checkConnection (cid : UInt64) (raddr : NetAddr) : Handling Bool :=
  .act (.checkConnection cid raddr) .ret

def onAnnounce (raddr : NetAddr) (req : AnnounceRequest) :
    Handling (Except Bytes AnnounceResponse) := .act (.onAnnounce raddr req) .ret

def onScrap (raddr : NetAddr) (infohashes : List Hash) :
    Handling (Except Bytes (List ScrapeResponse)) := .act (.onScrap raddr infohashes) .ret

def send (raddr : NetAddr) (b : Bytes) : Handling Unit := .act (.send raddr b) .ret

def orPanic {α : Type} : Option α → Handling α
  | some x => .ret x
  | none => .act .panic fun e => nomatch e

/-! ## The handling of a packet -/

def encodeResponseHeader (action tid : UInt32) : Bytes :=
  beBytes 4 action.toNat ++ beBytes 4 tid.toNat

def sendError (raddr : NetAddr) (tid : UInt32) (reason : Bytes) : Handling Unit :=
  send raddr (encodeResponseHeader ActionError tid ++ reason)

def sendConnResp (raddr : NetAddr) (tid : UInt32) (cid : UInt64) : Handling Unit :=
  send raddr (encodeResponseHeader ActionConnect tid ++ beBytes 8 cid.toNat)

def sendAnnounceResp (raddr : NetAddr) (tid : UInt32) (resp : AnnounceResponse) : Handling Unit :=
  send raddr (encodeResponseHeader ActionAnnounce tid ++ resp.EncodeTo)

def sendScrapResp (raddr : NetAddr) (tid : UInt32) (rs : List ScrapeResponse) : Handling Unit :=
  send raddr (encodeResponseHeader ActionScrape tid ++ rs.flatMap ScrapeResponse.EncodeTo)

def handleConnectionRequest (raddr : NetAddr) (tid : UInt32) : Handling Unit := do
  match ← onConnect raddr with
  | some err => sendError raddr tid err
  | none =>
    let cid ← getConnectionID
    addConnection cid raddr
    sendConnResp raddr tid cid

section
variable (net : Net)

def decodeAnnounceRequest (raddr : NetAddr) (b : Bytes) : Option (Except Bytes AnnounceRequest) :=
  let addrLen := (raddr.String net).length
  if addrLen < 16 then
    if b.length < 82 then some (.error (utf8 "invalid announce request"))
    else (AnnounceRequest.DecodeFrom net b 1).map .ok
  else if 16 ≤ addrLen ∧ addrLen < 32 then
    if b.length < 94 then some (.error (utf8 "invalid announce request"))
    else (AnnounceRequest.DecodeFrom net b 0).map .ok
  else
    if b.length < 110 then some (.error (utf8 "invalid announce request"))
    else (AnnounceRequest.DecodeFrom net b 0).map .ok

def handleAnnounceAction (raddr : NetAddr) (tid : UInt32) (b : Bytes) : Handling Unit := do
  match ← orPanic (decodeAnnounceRequest net raddr b) with
  | .error err => sendError raddr tid err
  | .ok req =>
    match ← onAnnounce raddr req with
    | .error err => sendError raddr tid err
    | .ok resp => sendAnnounceResp raddr tid resp

def extractInfohashes (b : Bytes) : List Hash :=
  (range (b.length / 20)).map fun i => .ofBytes (slice b (20 * i) 20)

def handleScrapeAction (raddr : NetAddr) (tid : UInt32) (b : Bytes) : Handling Unit := do
  let infohashes := extractInfohashes b
  if infohashes.length = 0 then sendError raddr tid (utf8 "no infohash")
  else
    match ← onScrap raddr infohashes with
    | .error err => sendError raddr tid err
    | .ok resps => sendScrapResp raddr tid resps

def processAction (raddr : NetAddr) (action tid : UInt32) (b : Bytes) : Handling Unit :=
  if action = ActionAnnounce then handleAnnounceAction net raddr tid b
  else if action = ActionScrape then handleScrapeAction raddr tid b
  else sendError raddr tid (utf8 "unkwnown action")

def handlePacket (raddr : NetAddr) (b : Bytes) : Handling Unit := do
  let cid := UInt64.ofNat (beNat (← orPanic (sub b 0 8)))
  let action := UInt32.ofNat (beNat (← orPanic (sub b 8 12)))
  let tid := UInt32.ofNat (beNat (← orPanic (sub b 12 16)))
  let b ← orPanic (sub b 16 b.length)
  if cid = ProtocolID ∧ action = ActionConnect then handleConnectionRequest raddr tid
  else
    let ok ← checkConnection cid raddr
    if !ok then sendError raddr tid (utf8 "connection is expired")
    else processAction net raddr action tid b

end

/-! ## The server -/

structure WrappedPeerAddr where
  addr : NetAddr
  time : ℤ

inductive Event where
  /-- `OnConnect(raddr)` returned no error. -/
  | connected (raddr : NetAddr)
  | issued (cid : UInt64) (raddr : NetAddr)
  /-- A sweep removed the ids `gone`. -/
  | swept (gone : UInt64 → Bool)

structure Server where
  cid : UInt64
  conns : UInt64 → Option WrappedPeerAddr
  history : List Event

namespace Server

def NewServer : Server := ⟨0, fun _ => none, []⟩

def getConnectionID (uts : Server) : UInt64 × Server :=
  (uts.cid + 1, { uts with cid := uts.cid + 1 })

def addConnection (uts : Server) (cid : UInt64) (raddr : NetAddr) (now : ℤ) : Server :=
  { uts with
    conns := update uts.conns cid (some ⟨raddr, now⟩)
    history := .issued cid raddr :: uts.history }

def checkConnection (net : Net) (uts : Server) (cid : UInt64) (raddr : NetAddr) : Bool :=
  match uts.conns cid with
  | some w => w.addr.String net = raddr.String net
  | none => false

def interval : ℤ := 120 * 10 ^ 9

def expired (uts : Server) (now : ℤ) (cid : UInt64) : Bool :=
  match uts.conns cid with
  | some wa => now - wa.time > interval
  | none => false

def cleanExpiredConnections (uts : Server) (now : ℤ) : Server :=
  { uts with
    conns := fun cid => if uts.expired now cid then none else uts.conns cid
    history := .swept (uts.expired now) :: uts.history }

inductive Step (net : Net) : Server → (a : Action) → a.Result → Server → Prop
  | connected (uts : Server) (raddr : NetAddr) :
    Step net uts (.onConnect raddr) none { uts with history := .connected raddr :: uts.history }
  | refused (uts : Server) (raddr : NetAddr) (err : Bytes) :
    Step net uts (.onConnect raddr) (some err) uts
  | getConnectionID (uts : Server) :
    Step net uts .getConnectionID uts.getConnectionID.1 uts.getConnectionID.2
  | addConnection (uts : Server) (cid : UInt64) (raddr : NetAddr) (now : ℤ) :
    Step net uts (.addConnection cid raddr) () (uts.addConnection cid raddr now)
  | checkConnection (uts : Server) (cid : UInt64) (raddr : NetAddr) :
    Step net uts (.checkConnection cid raddr) (uts.checkConnection net cid raddr) uts
  | onAnnounce (uts : Server) (raddr : NetAddr) (req : AnnounceRequest)
      (res : Except Bytes AnnounceResponse) : Step net uts (.onAnnounce raddr req) res uts
  | onScrap (uts : Server) (raddr : NetAddr) (infohashes : List Hash)
      (res : Except Bytes (List ScrapeResponse)) : Step net uts (.onScrap raddr infohashes) res uts
  | send (uts : Server) (raddr : NetAddr) (b : Bytes) : Step net uts (.send raddr b) () uts

def shared (net : Net) : Shared Action Action.Result Server where
  step := Step net
  idle uts uts' := ∃ now, uts' = uts.cleanExpiredConnections now

end Server

structure Datagram where
  raddr : NetAddr
  b : Bytes
  since : ℕ

def Datagram.cid (d : Datagram) : UInt64 := UInt64.ofNat (beNat (slice d.b 0 8))

def Received (uts : Server) (d : Datagram) : Prop := 16 ≤ d.b.length ∧ d.since = uts.history.length

abbrev Running (net : Net) : Server → List (Datagram × Handling Unit) → Prop :=
  (Server.shared net).Reach Received (fun d => handlePacket net d.raddr d.b) Server.NewServer

/-! ## Connection ids -/

def Live (net : Net) (l : List Event) (cid : UInt64) (raddr : NetAddr) : Prop :=
  ∃ l₁ l₂ raddr', l = l₂ ++ .issued cid raddr' :: l₁ ∧ raddr'.String net = raddr.String net ∧
    .connected raddr' ∈ l₁ ∧ ∀ gone, .swept gone ∈ l₂ → gone cid = false

variable {net : Net} {uts uts' : Server} {raddr raddr' : NetAddr} {cid : UInt64} {l : List Event}
  {b : Bytes}

theorem Live.cons (h : Live net l cid raddr) {e}
    (he : ∀ gone, e = .swept gone → gone cid = false) : Live net (e :: l) cid raddr := by
  obtain ⟨l1, l2, raddr', hl, hstr, hconn, hgone⟩ := h
  refine ⟨l1, e :: l2, raddr', by rw [hl, cons_append], hstr, hconn, fun gone hmem => ?_⟩
  rcases mem_cons.1 hmem with heq | hmem
  · exact he gone heq.symm
  · exact hgone gone hmem

theorem Live.congr (h : Live net l cid raddr) (hstr : raddr.String net = raddr'.String net) :
    Live net l cid raddr' := by
  obtain ⟨l1, l2, raddr1, hl, hstr1, hrest⟩ := h
  exact ⟨l1, l2, raddr1, hl, hstr1.trans hstr, hrest⟩

def Connected (net : Net) (uts : Server) : Prop :=
  ∀ cid w, uts.conns cid = some w → Live net uts.history cid w.addr

theorem connected_sweep (h : Connected net uts) (now : ℤ) :
    Connected net (uts.cleanExpiredConnections now) := by
  intro cid w hw
  change (if uts.expired now cid then none else uts.conns cid) = some w at hw
  split_ifs at hw with hexp
  refine (h cid w hw).cons fun gone hgone => ?_
  cases hgone
  simpa using hexp

theorem connected_addConnection (h : Connected net uts) (hconn : .connected raddr ∈ uts.history)
    (now : ℤ) : Connected net (uts.addConnection cid raddr now) := by
  intro cid' w hw
  change update uts.conns cid (some ⟨raddr, now⟩) cid' = some w at hw
  by_cases hcid : cid' = cid
  · subst hcid
    rw [update_self] at hw
    cases hw
    exact ⟨_, [], _, rfl, rfl, hconn, fun _ h => nomatch h⟩
  · rw [update_of_ne hcid] at hw
    exact (h cid' w hw).cons fun gone hgone => nomatch hgone

theorem live_of_checkConnection (h : Connected net uts)
    (hcheck : uts.checkConnection net cid raddr = true) : Live net uts.history cid raddr := by
  unfold Server.checkConnection at hcheck
  cases hw : uts.conns cid with
  | none => rw [hw] at hcheck; cases hcheck
  | some w =>
    rw [hw] at hcheck
    exact (h cid w hw).congr (of_decide_eq_true hcheck)

theorem history_next (h : (Server.shared net).Next uts uts') : uts.history <:+ uts'.history := by
  rcases h with ⟨a, r, hs⟩ | ⟨now, rfl⟩
  · cases hs with
    | connected | addConnection => exact suffix_cons _ _
    | _ => exact suffix_rfl
  · exact suffix_cons _ _

theorem history_later (h : Relation.ReflTransGen (Server.shared net).Next uts uts') :
    uts.history <:+ uts'.history :=
  Shared.later_keeps (P := fun s => uts.history <:+ s.history)
    (fun hn hs => hs.trans (history_next hn)) h suffix_rfl

/-! ## What a thread may do -/

def Checked (net : Net) (d : Datagram) (uts : Server) : Prop :=
  ∃ l, l <:+ uts.history ∧ d.since ≤ l.length ∧ Live net l d.cid d.raddr

def Allowed (net : Net) (d : Datagram) (uts : Server) : Action → Prop
  | .addConnection _ raddr => .connected raddr ∈ uts.history
  | .onAnnounce raddr _ => raddr = d.raddr ∧ Checked net d uts
  | .onScrap raddr _ => raddr = d.raddr ∧ Checked net d uts
  | _ => True

theorem connected_step {d a r} (h : Connected net uts)
    (hok : Allowed net d uts a) (hs : (Server.shared net).step uts a r uts') :
    Connected net uts' := by
  cases hs with
  | connected => exact fun cid w hw => (h cid w hw).cons fun gone hgone => nomatch hgone
  | addConnection cid raddr now => exact connected_addConnection h hok now
  | _ => exact h

def Datagram.action (d : Datagram) : UInt32 := UInt32.ofNat (beNat (slice d.b 8 4))

def Datagram.tid (d : Datagram) : UInt32 := UInt32.ofNat (beNat (slice d.b 12 4))

theorem handlePacket_eq {d : Datagram} (h : 16 ≤ d.b.length) : handlePacket net d.raddr d.b =
    if d.cid = ProtocolID ∧ d.action = ActionConnect then handleConnectionRequest d.raddr d.tid
    else .act (.checkConnection d.cid d.raddr) fun ok : Bool =>
      if !ok then sendError d.raddr d.tid (utf8 "connection is expired")
      else processAction net d.raddr d.action d.tid (d.b.drop 16) := by
  unfold handlePacket
  rw [sub_eq (by omega) (by omega), sub_eq (by omega) (by omega), sub_eq (by omega) h, sub_end h]
  rfl

abbrev Keeps (net : Net) (d : Datagram) (p : Handling Unit) (uts : Server) : Prop :=
  (Server.shared net).Always (Connected net) (Allowed net d) p uts

section
variable {d : Datagram}

theorem Checked.later (h : Checked net d uts)
    (hs : Relation.ReflTransGen (Server.shared net).Next uts uts') : Checked net d uts' := by
  obtain ⟨l, hl, hrest⟩ := h
  exact ⟨l, hl.trans (history_later hs), hrest⟩

theorem keeps_send (raddr : NetAddr) (b : Bytes) (uts : Server) : Keeps net d (send raddr b) uts :=
  fun _ _ _ => ⟨trivial, fun _ _ _ => trivial⟩

theorem keeps_connect (raddr : NetAddr) (tid : UInt32) (uts : Server) :
    Keeps net d (handleConnectionRequest raddr tid) uts := by
  intro s1 _ _
  refine ⟨trivial, fun err s2 hs => ?_⟩
  cases hs with
  | refused err => exact keeps_send _ _ _
  | connected =>
    -- `OnConnect` is in the history from now on
    intro s3 h3 _
    refine ⟨trivial, fun cid s4 hs4 => ?_⟩
    intro s5 h5 _
    refine ⟨?_, fun _ _ _ => keeps_send _ _ _⟩
    have hnext : (Server.shared net).Next s3 s4 := .inl ⟨_, _, hs4⟩
    exact (history_later ((h3.tail hnext).trans h5)).subset mem_cons_self

theorem keeps_announce (hc : Checked net d uts) (tid : UInt32) (b : Bytes) :
    Keeps net d (handleAnnounceAction net d.raddr tid b) uts := by
  unfold handleAnnounceAction
  cases decodeAnnounceRequest net d.raddr b with
  | none => exact fun _ _ _ => ⟨trivial, fun e => nomatch e⟩
  | some res =>
    cases res with
    | error err => exact keeps_send _ _ _
    | ok req =>
      intro s1 h1 _
      refine ⟨⟨rfl, hc.later h1⟩, fun res s2 _ => ?_⟩
      cases res with
      | error | ok => exact keeps_send _ _ _

theorem keeps_scrape (hc : Checked net d uts) (tid : UInt32) (b : Bytes) :
    Keeps net d (handleScrapeAction d.raddr tid b) uts := by
  unfold handleScrapeAction
  dsimp only
  split_ifs
  · exact keeps_send _ _ _
  · intro s1 h1 _
    refine ⟨⟨rfl, hc.later h1⟩, fun res s2 _ => ?_⟩
    cases res with
    | error | ok => exact keeps_send _ _ _

theorem keeps_processAction (hc : Checked net d uts) (action tid : UInt32) (b : Bytes) :
    Keeps net d (processAction net d.raddr action tid b) uts := by
  unfold processAction
  split_ifs
  · exact keeps_announce hc tid b
  · exact keeps_scrape hc tid b
  · exact keeps_send _ _ _

theorem keeps_handlePacket (h : Received uts d) :
    Keeps net d (handlePacket net d.raddr d.b) uts := by
  rw [handlePacket_eq h.1]
  split_ifs
  · exact keeps_connect _ _ _
  · intro s1 h1 hconn
    refine ⟨trivial, fun ok s2 hs => ?_⟩
    cases hs with
    | checkConnection =>
      cases hcheck : s1.checkConnection net d.cid d.raddr with
      | false => exact keeps_send _ _ _
      | true =>
        refine keeps_processAction ⟨s1.history, suffix_rfl, ?_, ?_⟩ _ _ _
        · rw [h.2]
          exact (history_later h1).length_le
        · exact live_of_checkConnection hconn hcheck

end

/-! ## A run -/

def clientAddr : NetAddr := .udpAddr [127, 0, 0, 1] 6881 []

def connectDatagram : Datagram where
  raddr := clientAddr
  b := beBytes 8 ProtocolID.toNat ++ beBytes 4 ActionConnect.toNat ++ beBytes 4 0
  since := 0

def announceDatagram : Datagram where
  raddr := clientAddr
  b := beBytes 8 1 ++ beBytes 4 ActionAnnounce.toNat ++ beBytes 4 0 ++ replicate 82 0
  since := 2

def connectedServer : Server :=
  Server.addConnection ⟨1, fun _ => none, [.connected clientAddr]⟩ 1 clientAddr 0

theorem running_connected (net : Net) :
    Running net connectedServer [(connectDatagram, .ret ())] := by
  have h0 : Running net Server.NewServer ([] ++ (connectDatagram, handlePacket net _ _) :: []) :=
    .spawn .init ⟨by decide, rfl⟩
  rw [handlePacket_eq (by decide), if_pos (by decide)] at h0
  have h1 : Running net _ ([] ++ (connectDatagram, _) :: []) := .act h0 (.connected _ clientAddr)
  have h2 : Running net _ ([] ++ (connectDatagram, _) :: []) := .act h1 (.getConnectionID _)
  have h3 : Running net _ ([] ++ (connectDatagram, _) :: []) :=
    .act h2 (.addConnection _ 1 clientAddr 0)
  exact .act h3 (.send _ _ _)

theorem check_connectedServer (net : Net) :
    connectedServer.checkConnection net announceDatagram.cid clientAddr = true := by
  have hcid : announceDatagram.cid = 1 := by decide
  rw [hcid]
  exact decide_eq_true (rfl : clientAddr.String net = clientAddr.String net)

theorem string_clientAddr (net : Net) : clientAddr.String net = utf8 "127.0.0.1:6881" := by
  change joinHostPort (zonedString [127, 0, 0, 1] []) (formatInt 6881) = _
  decide +kernel

theorem decode_announceDatagram (net : Net) :
    ∃ req, decodeAnnounceRequest net clientAddr (announceDatagram.b.drop 16) = some (.ok req) := by
  have hlen : (announceDatagram.b.drop 16).length = 82 := by decide
  have hrest : (announceDatagram.b.drop 16).drop (78 + ipWidth true) = [] := by decide
  refine ⟨parsed (announceDatagram.b.drop 16) true [], ?_⟩
  unfold decodeAnnounceRequest
  dsimp only
  rw [string_clientAddr, if_pos (by decide +kernel), if_neg (by omega), show (1 : ℤ) = layout true from rfl,
    decodeFrom_eq (by rw [hlen]; decide), hrest, decodeExts_nil]
  rfl

theorem running_checked (net : Net) : ∃ req k, Running net connectedServer
    [(announceDatagram, .act (.onAnnounce clientAddr req) k), (connectDatagram, .ret ())] := by
  have h0 : Running net connectedServer
      ([] ++ (announceDatagram, handlePacket net _ _) :: [(connectDatagram, .ret ())]) :=
    .spawn (running_connected net) ⟨by decide, rfl⟩
  rw [handlePacket_eq (by decide), if_neg (by decide)] at h0
  obtain ⟨req, hreq⟩ := decode_announceDatagram net
  have hprog : ∃ k, processAction net clientAddr announceDatagram.action announceDatagram.tid
      (announceDatagram.b.drop 16) = .act (.onAnnounce clientAddr req) k := by
    have haction : announceDatagram.action = ActionAnnounce := by decide
    rw [haction, processAction, if_pos rfl, handleAnnounceAction, hreq]
    exact ⟨_, rfl⟩
  obtain ⟨k, hk⟩ := hprog
  have hstep : Server.Step net connectedServer
      (.checkConnection announceDatagram.cid announceDatagram.raddr) true connectedServer :=
    check_connectedServer net ▸ .checkConnection connectedServer _ announceDatagram.raddr
  refine ⟨req, k, ?_⟩
  rw [← hk]
  exact .act h0 hstep

/-- **Handlers are called for live connections.** -/
theorem called_connected {net : Net} {uts : Server} {ts : List (Datagram × Handling Unit)}
    (h : Running net uts ts) {d : Datagram} {a : Action} {k : a.Result → Handling Unit}
    (hmem : (d, .act a k) ∈ ts) {raddr : NetAddr}
    (ha : (∃ req, a = .onAnnounce raddr req) ∨ ∃ infohashes, a = .onScrap raddr infohashes) :
    raddr = d.raddr ∧ ∃ l, l <:+ uts.history ∧ d.since ≤ l.length ∧ Live net l d.cid raddr := by
  have hinit : Connected net Server.NewServer := fun cid w hw => nomatch hw
  have hall : Connected net uts ∧ ∀ p ∈ ts, Keeps net p.1 p.2 uts :=
    h.always hinit keeps_handlePacket connected_step fun hI ⟨now, hs⟩ => hs ▸ connected_sweep hI now
  have hok : Allowed net d uts a := (hall.2 _ hmem).head hall.1
  rcases ha with ⟨req, rfl⟩ | ⟨infohashes, rfl⟩
  · obtain ⟨rfl, hc⟩ := hok
    exact ⟨rfl, hc⟩
  · obtain ⟨rfl, hc⟩ := hok
    exact ⟨rfl, hc⟩

theorem called_connected_sample : ∃ uts ts, ∃ d : Datagram, Running sampleNet uts ts ∧
    clientAddr = d.raddr ∧ ∃ l, l <:+ uts.history ∧ d.since ≤ l.length ∧
      Live sampleNet l d.cid clientAddr := by
  obtain ⟨req, k, hrun⟩ := running_checked sampleNet
  exact ⟨_, _, announceDatagram, hrun, called_connected hrun mem_cons_self (.inl ⟨req, rfl⟩)⟩

theorem called_after_sweep : ∃ uts ts d req k, Running sampleNet uts ts ∧
    (d, .act (.onAnnounce clientAddr req) k) ∈ ts ∧ ¬ Live sampleNet uts.history d.cid clientAddr := by
  obtain ⟨req, k, hrun⟩ := running_checked sampleNet
  have hswept := hrun.idle ⟨Server.interval + 1, rfl⟩
  refine ⟨_, _, announceDatagram, req, k, hswept, mem_cons_self, ?_⟩
  rintro ⟨l₁, l₂, raddr', hl, -, -, hgone⟩
  have hcid : announceDatagram.cid = 1 := by decide
  rcases l₂ with _ | ⟨e, l₂⟩
  · cases hl
  · obtain ⟨rfl, -⟩ := List.cons.inj hl
    have hexp := hgone _ mem_cons_self
    rw [hcid] at hexp
    exact absurd hexp (by decide)

/-! ## Panics -/

def handleDatagram (net : Net) (raddr : NetAddr) (b : Bytes) : Handling Unit :=
  if b.length < 16 then .ret () else handlePacket net raddr b

abbrev Returns (net : Net) (p : Handling Unit) (uts : Server) : Prop :=
  (Server.shared net).Avoids (· = .panic) p uts

def readsV4 (net : Net) (raddr : NetAddr) : Bool := (raddr.String net).length < 16

def announceLength (net : Net) (raddr : NetAddr) : ℕ :=
  if (raddr.String net).length < 16 then 82 else if (raddr.String net).length < 32 then 94 else 110

theorem decodeAnnounceRequest_eq (raddr : NetAddr) (b : Bytes) : decodeAnnounceRequest net raddr b =
      if b.length < announceLength net raddr then some (.error (utf8 "invalid announce request"))
      else (DecodeFrom net b (layout (readsV4 net raddr))).map .ok := by
  unfold decodeAnnounceRequest announceLength readsV4 layout
  dsimp only
  by_cases h1 : (raddr.String net).length < 16
  · simp only [h1, if_true, decide_true]
  · by_cases h2 : (raddr.String net).length < 32
    · simp only [h1, h2, if_false, if_true, decide_false, not_lt.1 h1, and_self, Bool.false_eq_true]
    · simp only [h1, h2, if_false, decide_false, and_false, Bool.false_eq_true]

theorem ipWidth_le_announceLength (net : Net) (raddr : NetAddr) :
    78 + ipWidth (readsV4 net raddr) ≤ announceLength net raddr := by
  unfold ipWidth readsV4 announceLength
  by_cases h : (raddr.String net).length < 16
  · simp [h]
  · simp only [h, decide_false, if_false, Bool.false_eq_true]
    split_ifs <;> omega

theorem returns_send (raddr : NetAddr) (b : Bytes) : Returns net (send raddr b) uts :=
  ⟨fun h => (nomatch h), fun _ _ _ => trivial⟩

theorem returns_connect (raddr : NetAddr) (tid : UInt32) :
    Returns net (handleConnectionRequest raddr tid) uts := by
  refine ⟨fun h => (nomatch h), fun err s1 _ => ?_⟩
  cases err with
  | some err => exact returns_send _ _
  | none =>
    exact ⟨fun h => (nomatch h), fun cid s2 _ =>
      ⟨fun h => (nomatch h), fun _ s3 _ => returns_send _ _⟩⟩

theorem returns_scrape (raddr : NetAddr) (tid : UInt32) (b : Bytes) :
    Returns net (handleScrapeAction raddr tid b) uts := by
  unfold handleScrapeAction
  dsimp only
  split_ifs
  · exact returns_send _ _
  · refine ⟨fun h => (nomatch h), fun res s1 _ => ?_⟩
    cases res with
    | error | ok => exact returns_send _ _

theorem returns_announce_iff (raddr : NetAddr) (tid : UInt32) (b : Bytes) :
    Returns net (handleAnnounceAction net raddr tid b) uts ↔ (announceLength net raddr ≤ b.length →
        Options (b.drop (78 + ipWidth (readsV4 net raddr)))) := by
  unfold handleAnnounceAction
  rw [decodeAnnounceRequest_eq]
  by_cases hlen : b.length < announceLength net raddr
  · rw [if_pos hlen]
    exact iff_of_true (returns_send _ _) fun h => absurd hlen (not_lt.2 h)
  · have hwidth := ipWidth_le_announceLength net raddr
    rw [if_neg hlen, decodeFrom_eq (by omega), ← decodeExts_isSome_iff]
    cases decodeExts (b.drop (78 + ipWidth (readsV4 net raddr))) with
    | none => exact iff_of_false (fun h => h.1 rfl) fun h => nomatch h (not_lt.1 hlen)
    | some exts =>
      refine iff_of_true ⟨fun h => (nomatch h), fun res s1 _ => ?_⟩ fun _ => rfl
      cases res with
      | error | ok => exact returns_send _ _

theorem returns_processAction_iff (raddr : NetAddr) (action tid : UInt32) (b : Bytes) :
    Returns net (processAction net raddr action tid b) uts ↔
      (action = ActionAnnounce → announceLength net raddr ≤ b.length →
        Options (b.drop (78 + ipWidth (readsV4 net raddr)))) := by
  unfold processAction
  split_ifs with hann hscr
  · rw [returns_announce_iff]
    exact ⟨fun h _ => h, fun h => h hann⟩
  · exact iff_of_true (returns_scrape _ _ _) fun h => absurd h hann
  · exact iff_of_true (returns_send _ _) fun h => absurd h hann

theorem returns_handlePacket_iff {d : Datagram} (h : 16 ≤ d.b.length) :
    Returns net (handlePacket net d.raddr d.b) uts ↔
      (d.action = ActionAnnounce → uts.checkConnection net d.cid d.raddr = true →
        Returns net (processAction net d.raddr d.action d.tid (d.b.drop 16)) uts) := by
  rw [handlePacket_eq h]
  split_ifs with hconn
  · refine iff_of_true (returns_connect _ _) fun hann => ?_
    rw [hann] at hconn
    exact absurd hconn.2 (by decide)
  · constructor
    · rintro ⟨-, h⟩ - hcheck
      have hstep := h _ _ (.checkConnection uts d.cid d.raddr)
      rw [hcheck] at hstep
      exact hstep
    · refine fun h => ⟨fun h => (nomatch h), fun ok s1 hs => ?_⟩
      cases hs
      cases hcheck : uts.checkConnection net d.cid d.raddr with
      | false => exact returns_send _ _
      | true =>
        by_cases hann : d.action = ActionAnnounce
        · exact h hann hcheck
        · exact (returns_processAction_iff _ _ _ _).2 fun h => absurd h hann

/-- **The server returns unless options are cut.** -/
theorem handleDatagram_returns_iff (net : Net) (uts : Server) (d : Datagram) :
    Returns net (handleDatagram net d.raddr d.b) uts ↔
      (16 + announceLength net d.raddr ≤ d.b.length → d.action = ActionAnnounce →
        uts.checkConnection net d.cid d.raddr = true →
          Options (d.b.drop (94 + AnnounceRequest.ipWidth (readsV4 net d.raddr)))) := by
  unfold handleDatagram
  split_ifs with hshort
  · exact iff_of_true trivial fun h => by omega
  · have hle : announceLength net d.raddr ≤ d.b.length - 16 ↔
        16 + announceLength net d.raddr ≤ d.b.length := by omega
    have hoff : 16 + (78 + AnnounceRequest.ipWidth (readsV4 net d.raddr)) =
        94 + AnnounceRequest.ipWidth (readsV4 net d.raddr) := by omega
    rw [returns_handlePacket_iff (not_lt.1 hshort), returns_processAction_iff, drop_drop,
      length_drop, hle, hoff]
    exact ⟨fun h h₁ h₂ h₃ => h h₂ h₃ h₂ h₁, fun h h₁ h₂ _ h₃ => h h₃ h₁ h₂⟩

def cutDatagram : Datagram := { announceDatagram with b := announceDatagram.b ++ [URLData, 5] }

theorem handleDatagram_panics : (∃ ts, Running sampleNet connectedServer ts) ∧
    cutDatagram.b.length ≤ 2048 ∧
    ¬ Returns sampleNet (handleDatagram sampleNet cutDatagram.raddr cutDatagram.b) connectedServer := by
  have hlen : cutDatagram.b.length = 100 := by decide
  have hv4 : readsV4 sampleNet cutDatagram.raddr = true := by
    change decide ((clientAddr.String sampleNet).length < 16) = true
    rw [string_clientAddr]
    decide +kernel
  have hmin : announceLength sampleNet cutDatagram.raddr = 82 := if_pos (of_decide_eq_true hv4)
  have hcheck : connectedServer.checkConnection sampleNet cutDatagram.cid cutDatagram.raddr = true :=
    check_connectedServer sampleNet
  refine ⟨⟨_, running_connected sampleNet⟩, by omega, fun h => ?_⟩
  rw [handleDatagram, if_neg (by omega), returns_handlePacket_iff (by omega)] at h
  have hopts := (returns_processAction_iff _ _ _ _).1 (h (by decide) hcheck) (by decide)
    (by rw [hmin, length_drop]; omega)
  rw [hv4, ← decodeExts_isSome_iff] at hopts
  have hrest : (cutDatagram.b.drop 16).drop (78 + AnnounceRequest.ipWidth true) = [URLData, 5] := by
    decide
  rw [hrest, decodeExts_cons, if_neg (by decide)] at hopts
  cases hopts

end GoI2pBt.Tracker
