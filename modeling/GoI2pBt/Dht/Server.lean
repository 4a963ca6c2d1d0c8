/-
  The DHT server: messages, calls and timers.
-/
import GoI2pBt.Dht.Closest
import GoI2pBt.Dht.DataStorage
import GoI2pBt.Dht.Managers
import GoI2pBt.Lib.Act

namespace GoI2pBt.Dht

open Krpc Metainfo
open Bencode (Env Error)

/-! ## The outside -/

structure Platform where
  env : Env
  net : Net
  destHash : Bytes → Bytes
  crypto : Crypto

inductive WriteResult where
  | ok
  | short
  | fail
deriving DecidableEq

def Order (α : Type) : Type := { f : List α → List α // ∀ l, (f l).Perm l }

structure Moment where
  now : ℤ
  write : Option NetAddr → Bytes → WriteResult
  nils : String → Bool
  peerOrder : Bool → Order Peer
  hashOrder : Order Hash
  transOrder : Order Transaction

inductive Result where
  | done
  | peers (values : List Address)
  | error (code : Int64) (reason : Bytes)
  | timeout
deriving DecidableEq

inductive Event where
  | send (addr : Option NetAddr) (m : Message) (written : WriteResult)
  | onSearch (infohash : Hash) (ip : NetAddr)
  | onTorrent (infohash : Hash) (ip : Option NetAddr)
  | callback (cb : ℕ) (addr : Option NetAddr) (r : Result)
  | rotate (token : Bytes)
deriving DecidableEq

/-! ## The state -/

abbrev IPProtocolStack : Type := UInt8

def IPv4Protocol : IPProtocolStack := 4
def IPv6Protocol : IPProtocolStack := 6

structure Config where
  k : ℕ
  k_pos : 0 < k
  id : Hash
  ipProtocols : List IPProtocolStack
  readOnly : Bool
  searchDepth : ℤ
  searchDepth_pos : 1 ≤ searchDepth
  respTimeout : ℤ

structure Server where
  conf : Config
  ipv4 : Bool
  ipv6 : Bool
  want : List Want
  routingTable4 : RoutingTable
  routingTable6 : RoutingTable
  tokenManager : TokenManager
  tokenPeerManager : TokenPeerManager
  transactionManager : TransactionManager
  dataStore : DataStore
  blacklist : Blacklist
  events : List Event

def buildWant (ipProtocols : List IPProtocolStack) : List Want := ipProtocols.filterMap fun ip =>
    if ip = IPv4Protocol then some WantNodes
    else if ip = IPv6Protocol then some WantNodes6
    else none

def NewServer (net : Net) (conf : Config) (stored4 stored6 : List RoutingTableNode)
    (token : Bytes) (now : ℤ) : Option Server := do
  let routingTable4 ← RoutingTable.newRoutingTable net conf.k conf.id false stored4 now
  let routingTable6 ← RoutingTable.newRoutingTable net conf.k conf.id true stored6 now
  return {
    conf
    ipv4 := IPv4Protocol ∈ conf.ipProtocols
    ipv6 := IPv6Protocol ∈ conf.ipProtocols
    want := buildWant conf.ipProtocols
    routingTable4
    routingTable6
    tokenManager := newTokenManager token
    tokenPeerManager := {}
    transactionManager := {}
    dataStore := .empty
    blacklist := { num := 1024 }
    events := [] }

namespace Server

variable (p : Platform) (mo : Moment)

def emit (e : Event) : Act Server Unit := modify fun s => { s with events := s.events ++ [e] }

/-! ## Nodes -/

def setTable4 (rt : RoutingTable) (s : Server) : Server := { s with routingTable4 := rt }

def setTable6 (rt : RoutingTable) (s : Server) : Server := { s with routingTable6 := rt }

def addToTable (table : Server → RoutingTable) (setTable : RoutingTable → Server → Server)
    (node : Node) : Act Server AddStatus := do
  let s ← get
  match (table s).AddNode p.net node mo.now with
  | none => Act.crash
  | some (rt, r) => do
    modify (setTable rt)
    return r

def AddNode (node : Node) : Act Server AddStatus := do
  let s ← get
  if node.addr.IsIPv6 then
    if s.ipv6 then addToTable p mo routingTable6 setTable6 node else return .nodeNotAdded
  else
    if s.ipv4 then addToTable p mo routingTable4 setTable4 node else return .nodeNotAdded

def block (addr : Option NetAddr) (port : ℤ) : Act Server Unit :=
  match addr with
  | none => Act.crash
  | some a => modify fun s =>
      { s with blacklist := s.blacklist.Add (IPAddr p.destHash a) port mo.now }

def addNode (a : NetAddr) (id : Hash) (ro : Bool) : Act Server AddStatus :=
  if ro then return .nodeNotAdded
  else do
    let r ← AddNode p mo (NewNodeByUDPAddr id a)
    Act.when (r = .nodeExistAndChanged) (block p mo (some a) a.Port)
    return r

def addNode2 (node : Node) (ro : Bool) : Act Server AddStatus :=
  if ro then return .nodeNotAdded else AddNode p mo node

/-! ## Sending -/

def isDisabled (s : Server) (raddr : Option NetAddr) : Bool :=
  if IsIPv6Addr raddr then !s.ipv6 else !s.ipv4

def _send (raddr : Option NetAddr) (m : Message) : Act Server Bool :=
  if m.t = [] ∨ m.y = [] then Act.crash
  else
    match m.Encode p.env p.net mo.nils with
    | .error _ => Act.crash
    | .ok b => do
      emit (.send raddr m (mo.write raddr b))
      Act.when (mo.write raddr b = .fail) (block p mo raddr 0)
      return mo.write raddr b ≠ .ok

def send (raddr : Option NetAddr) (m : Message) : Act Server Bool := do
  let s ← get
  _send p mo raddr { m with ro := s.conf.readOnly }

def sendError (raddr : NetAddr) (tid reason : Bytes) (code : Int64) : Act Server Unit := do
  let _ ← send p mo (some raddr) (NewErrorMsg tid code reason)

def reply (raddr : NetAddr) (tid : Bytes) (r : ResponseResult) : Act Server Unit := do
  let s ← get
  let _ ← send p mo (some raddr) (NewResponseMsg tid { r with id := s.conf.id })

def afterRequest (addr : Option NetAddr) (err : Bool) (t : NetAddr → Transaction) :
    Act Server Bool :=
  match addr with
  | none => Act.crash
  | some a => do
    Act.when (!err) (modify fun s =>
      { s with transactionManager := s.transactionManager.AddTransaction p.net (t a) })
    return err

def request (addr : Option NetAddr) (query : Bytes) (arg : QueryArg) (depth : ℤ)
    (visited : List Hash) (callback : Option ℕ) (onResponse : OnResponse) : Act Server Bool := do
  let s ← get
  if s.isDisabled addr then return true
  else do
    let id := s.transactionManager.GetTransactionID.1
    modify fun s => { s with transactionManager := s.transactionManager.GetTransactionID.2 }
    let err ← send p mo addr (NewQueryMsg id query { arg with id := s.conf.id })
    afterRequest p addr err fun a =>
      ⟨id, query, { arg with id := s.conf.id }, a, mo.now, depth, visited, callback, onResponse⟩

def done (t : Transaction) (r : Result) : Act Server Unit :=
  match t.callback with
  | none => pure ()
  | some cb => emit (.callback cb (some t.addr) r)

/-! ## Queries -/

def populateNodesBasedOnAddress (s : Server) (raddr : NetAddr) (infoHash : Hash)
    (r : ResponseResult) : ResponseResult :=
  if IsIPv6Addr (some raddr) then
    { r with nodes6 := s.routingTable6.Closest infoHash s.conf.k }
  else { r with nodes := s.routingTable4.Closest infoHash s.conf.k }

def populateRequestedNodes (s : Server) (n4 n6 : Bool) (infoHash : Hash) (r : ResponseResult) :
    ResponseResult :=
  let r := if n4 then { r with nodes := s.routingTable4.Closest infoHash s.conf.k } else r
  if n6 then { r with nodes6 := s.routingTable6.Closest infoHash s.conf.k } else r

def populateNodes (s : Server) (raddr : NetAddr) (a : QueryArg) (infoHash : Hash)
    (r : ResponseResult) : ResponseResult :=
  let n4 := a.ContainsWant WantNodes
  let n6 := a.ContainsWant WantNodes6
  if !n4 && !n6 then s.populateNodesBasedOnAddress raddr infoHash r
  else s.populateRequestedNodes n4 n6 infoHash r

def populatePeersResponse (s : Server) (raddr : NetAddr) (a : QueryArg) : List Address :=
  let n4 := a.ContainsWant WantNodes
  let n6 := a.ContainsWant WantNodes6
  let getPeers := fun ipv6 =>
    s.tokenPeerManager.GetPeers (mo.peerOrder ipv6).1 a.infoHash s.conf.k
  if !n4 && !n6 then getPeers (IsIPv6Addr (some raddr))
  else
    let values := if n4 then getPeers false else []
    if n6 then
      if values = [] then getPeers true else values ++ getPeers true
    else values

section

variable (raddr : NetAddr) (m : Message)

def handleFindNodeQuery : Act Server Unit := do
  let s ← get
  reply p mo raddr m.t (s.populateNodes raddr m.a m.a.infoHash {})

def peersResponse (s : Server) (raddr : NetAddr) (a : QueryArg) : ResponseResult :=
  let values := s.populatePeersResponse mo raddr a
  if values = [] then s.populateNodes raddr a a.infoHash {} else { values }

def handleGetPeersQuery : Act Server Unit := do
  let s ← get
  modify fun s => { s with tokenManager := s.tokenManager.Token p.net raddr mo.now }
  reply p mo raddr m.t { s.peersResponse mo raddr m.a with token := s.tokenManager.new }
  emit (.onSearch m.a.infoHash raddr)

def handleAnnouncePeerQuery : Act Server Unit := do
  let s ← get
  if s.tokenManager.Check p.net raddr m.a.token then return
  else do
    reply p mo raddr m.t {}
    emit (.onTorrent m.a.infoHash (some raddr))

def handleSampleInfoHashQuery : Act Server Unit := do
  let s ← get
  let samples := s.tokenPeerManager.GetSampleInfoHashes mo.hashOrder.1 s.conf.k
  reply p mo raddr m.t (s.populateNodes raddr m.a m.a.target
    { samples := samples.1, num := .ofNat samples.2, interval := 300 })

def handlePutQuery : Act Server Unit := do
  let s ← get
  let put := putQuery p.env p.crypto s.dataStore m.a mo.now
  modify fun s => { s with dataStore := put.2 }
  match put.1 with
  | .error err => sendError p mo raddr m.t err.2 err.1
  | .ok () => reply p mo raddr m.t {}

def handleGetQuery : Act Server Unit := do
  let s ← get
  reply p mo raddr m.t
    (s.populateNodes raddr m.a m.a.target (getQuery s.dataStore m.a.target mo.now))

def handleQuery : Act Server Unit :=
  if m.q = utf8 "ping" then reply p mo raddr m.t {}
  else if m.q = utf8 "find_node" then handleFindNodeQuery p mo raddr m
  else if m.q = utf8 "get_peers" then handleGetPeersQuery p mo raddr m
  else if m.q = utf8 "announce_peer" then handleAnnouncePeerQuery p mo raddr m
  else if m.q = utf8 "sample_infohashes" then handleSampleInfoHashQuery p mo raddr m
  else if m.q = utf8 "put" then handlePutQuery p mo raddr m
  else if m.q = utf8 "get" then handleGetQuery p mo raddr m
  else sendError p mo raddr m.t (utf8 "unknown query method") ErrorCodeMethodUnknown

end

/-! ## Responses -/

def getPeers (info : Hash) (addr : Address) (depth : ℤ) (ids : List Hash) (cb : Option ℕ) :
    Act Server Unit := do
  let s ← get
  let err ← request p mo addr.Addr (utf8 "get_peers") { infoHash := info, wants := s.want }
    depth ids cb .getPeers
  Act.when (err ∧ addr.ip = none) Act.crash

def findNode (target : Hash) (addr : Option NetAddr) (ids : List Hash) : Act Server Bool := do
  let s ← get
  request p mo addr (utf8 "find_node") { target, wants := s.want } 0 ids none .findNode

def processNodeList (target : Hash) (ids : List Hash) (ro : Bool) :
    List Node → Act Server (Bool × List Node)
  | [] => return (false, [])
  | node :: nodeList => do
    let r ← (if node.id ∈ ids then pure .nodeNotAdded else addNode2 p mo node ro)
    let rest ← processNodeList target ids ro nodeList
    return (node.id = target || rest.1, if r = .nodeAdded then node :: rest.2 else rest.2)

def processResponseNodes (target : Hash) (visited : List Hash) (m : Message) :
    Act Server (Bool × List Node × List Hash) := do
  let r ← processNodeList p mo target visited m.ro m.r.nodes
  let ids := visited ++ r.2.map Node.id
  if r.1 then return (true, r.2, ids)
  else do
    let r6 ← processNodeList p mo target ids m.ro m.r.nodes6
    return (r6.1, r.2 ++ r6.2, ids ++ r6.2.map Node.id)

def storeTokenIfPresent (m : Message) (a : NetAddr) : Act Server Unit :=
  Act.when (m.r.token ≠ []) (modify fun s => { s with
    tokenPeerManager := s.tokenPeerManager.Set p.net m.r.id a m.r.token mo.now })

def onGetPeersResp (t : Transaction) (a : NetAddr) (m : Message) : Act Server Unit := do
  storeTokenIfPresent p mo m a
  if m.r.values ≠ [] then do
    done t (.peers m.r.values)
    Act.each (fun addr => emit (.onTorrent t.arg.infoHash addr.ip)) m.r.values
  else do
    done t .done
    Act.when (1 ≤ t.depth - 1) do
      let r ← processResponseNodes p mo t.arg.infoHash t.visited m
      Act.when (!r.1) (Act.each (fun node =>
        getPeers p mo t.arg.infoHash node.addr (t.depth - 1) r.2.2 t.callback) r.2.1)

def sendFindNodeQuery (t : Transaction) (ids : List Hash) (node : Node) : Act Server Unit := do
  let err ← findNode p mo t.arg.target node.addr.Addr ids
  Act.when (err ∧ node.addr.ip = none) Act.crash

def onFindNodeResp (t : Transaction) (m : Message) : Act Server Unit :=
  Act.when (1 ≤ t.depth - 1) do
    let r ← processResponseNodes p mo t.arg.target t.visited m
    Act.when (!r.1) (Act.each (sendFindNodeQuery p mo t r.2.2) r.2.1)

def onResponse (t : Transaction) (a : NetAddr) (m : Message) : Act Server Unit :=
  match t.onResponse with
  | .noop => pure ()
  | .ping => done t .done
  | .getPeers => onGetPeersResp p mo t a m
  | .findNode => onFindNodeResp p mo t m

def withTransaction (raddr : NetAddr) (tid : Bytes) (k : Transaction → Act Server Unit) :
    Act Server Unit := do
  let s ← get
  let popped := s.transactionManager.PopTransaction p.net tid raddr
  modify fun s => { s with transactionManager := popped.2 }
  match popped.1 with
  | none => pure ()
  | some t => k t

/-! ## Messages -/

def handleQueryMessage (raddr : NetAddr) (m : Message) : Act Server Unit :=
  Act.when (!m.a.id.IsZero) do
    let r ← addNode p mo raddr m.a.id m.ro
    let s ← get
    Act.when (r ≠ .nodeExistAndChanged ∧ !s.conf.readOnly) (handleQuery p mo raddr m)

def handleResponseMessage (raddr : NetAddr) (m : Message) : Act Server Unit :=
  Act.when (!m.r.id.IsZero) do
    let r ← addNode p mo raddr m.r.id m.ro
    Act.when (r ≠ .nodeExistAndChanged)
      (withTransaction p raddr m.t fun t => onResponse p mo t raddr m)

def handleErrorMessage (raddr : NetAddr) (m : Message) : Act Server Unit :=
  withTransaction p raddr m.t fun t => done t (.error m.e.code m.e.reason)

def handleMessage (raddr : NetAddr) (m : Message) : Act Server Unit :=
  if m.IsQuery then handleQueryMessage p mo raddr m
  else if m.IsResponse then handleResponseMessage p mo raddr m
  else if m.IsError then handleErrorMessage p raddr m
  else pure ()

def admits (s : Server) (raddr : NetAddr) : Bool :=
  !s.isDisabled (some raddr) && !s.blacklist.In (IPAddr p.destHash raddr) raddr.Port

def handlePacket (raddr : NetAddr) (data : Bytes) : Act Server Unit := do
  let s ← get
  if !s.admits p raddr then return
  else
    match Message.Decode p.env p.net data with
    | .error _ => return
    | .ok m => Act.when (m.t ≠ []) (handleMessage p mo raddr m)

/-! ## Calls -/

def Ping (addr : Option NetAddr) (cb : Option ℕ) : Act Server Bool :=
  request p mo addr (utf8 "ping") {} 0 [] cb .ping

def FindNode (addr : Option NetAddr) (target : Hash) : Act Server Bool :=
  if target.IsZero then return true else findNode p mo target addr []

def collectClosestNodes (s : Server) (infohash : Hash) : List Node :=
  (if s.ipv4 then s.routingTable4.Closest infohash s.conf.k else []) ++
    (if s.ipv6 then s.routingTable6.Closest infohash s.conf.k else [])

def handleEmptyNodes : Option ℕ → Act Server Unit
  | none => pure ()
  | some cb => emit (.callback cb none .done)

def GetPeers (infohash : Hash) (cb : Option ℕ) : Act Server Unit :=
  if infohash.IsZero then Act.crash
  else do
    let s ← get
    let nodes := s.collectClosestNodes infohash
    if nodes = [] then handleEmptyNodes cb
    else Act.each (fun node =>
      getPeers p mo infohash node.addr s.conf.searchDepth (nodes.map Node.id) cb) nodes

def announceTo (infohash : Hash) (port : UInt16) (impliedPort : Bool) :
    List Node → Act Server (List Node)
  | [] => return []
  | node :: nodes =>
    match node.addr.Addr with
    | none => Act.crash
    | some addr => do
      let s ← get
      let token := s.tokenPeerManager.Get p.net infohash addr
      let arg : QueryArg := { infoHash := infohash, port, token, impliedPort }
      -- without a token the node is passed over
      let err ← (if token = [] then pure true
        else request p mo (some addr) (utf8 "announce_peer") arg 0 [] none .noop)
      let sent ← announceTo infohash port impliedPort nodes
      return if err then sent else node :: sent

def AnnouncePeer (infohash : Hash) (port : UInt16) (impliedPort : Bool) : Act Server (List Node) :=
  if infohash.IsZero then Act.crash
  else do
    let s ← get
    announceTo p mo infohash port impliedPort (s.collectClosestNodes infohash)

/-! ## Timers -/

def checkBucket (table : Server → RoutingTable) (setTable : RoutingTable → Server → Server)
    (i : Fin bktlen) : Act Server Unit := do
  let s ← get
  let b := (table s).bkts i
  Act.when (b.due mo.now) (Act.each (fun node => do
    let _ ← Ping p mo node.addr.Addr none) (b.dubious mo.now))
  modify fun s => setTable ((table s).checkBucket i true mo.now) s
  Act.when (!(b.CheckAllNodes true mo.now).2) Act.crash

def checkAllBuckets (table : Server → RoutingTable) (setTable : RoutingTable → Server → Server) :
    Act Server Unit :=
  Act.recover (Act.each (checkBucket p mo table setTable) (List.finRange bktlen))

def updateToken (token : Bytes) : Act Server Unit := modify fun s =>
  { s with tokenManager := s.tokenManager.updateToken token, events := s.events ++ [.rotate token] }

def cleanupExpiredTransactions : Act Server Unit := do
  let s ← get
  let expired := s.transactionManager.cleanupExpiredTransactions mo.now s.conf.respTimeout
  modify fun s => { s with transactionManager := expired.2 }
  Act.each (fun t => done t .timeout) (mo.transOrder.1 expired.1)

/-! ## Steps -/

inductive Input where
  | packet (raddr : NetAddr) (data : Bytes)
  | checkAllBuckets (ipv6 : Bool)
  | updateToken (token : Bytes)
  | clearTokens
  | cleanupPeers
  | cleanupTransactions
  | cleanBlacklist
  | addNode (node : Node)
  | ping (addr : Option NetAddr) (cb : Option ℕ)
  | findNode (addr : Option NetAddr) (target : Hash)
  | getPeers (infohash : Hash) (cb : Option ℕ)
  | announcePeer (infohash : Hash) (port : UInt16) (impliedPort : Bool)

def act : Input → Act Server Unit
  | .packet raddr data => handlePacket p mo raddr data
  | .checkAllBuckets true => checkAllBuckets p mo routingTable6 setTable6
  | .checkAllBuckets false => checkAllBuckets p mo routingTable4 setTable4
  | .updateToken token => Server.updateToken token
  | .clearTokens =>
    modify fun s => { s with tokenManager := s.tokenManager.clear mo.now (minute * 10) }
  | .cleanupPeers => modify fun s =>
      { s with tokenPeerManager := s.tokenPeerManager.cleanupExpiredPeers mo.now (minute * 1440) }
  | .cleanupTransactions => cleanupExpiredTransactions mo
  | .cleanBlacklist => modify fun s =>
      { s with blacklist := s.blacklist.cleanExpiredEntries mo.now (minute * 10080) }
  | .addNode node => do let _ ← AddNode p mo node
  | .ping addr cb => do let _ ← Ping p mo addr cb
  | .findNode addr target => do let _ ← FindNode p mo addr target
  | .getPeers infohash cb => GetPeers p mo infohash cb
  | .announcePeer infohash port impliedPort => do
    let _ ← AnnouncePeer p mo infohash port impliedPort

def step (s : Server) (inp : Input) : Option Server :=
  match (act p mo inp).exec s with
  | (some _, s') => some s'
  | (none, _) => none

inductive Reachable (p : Platform) (Stored : Node → Prop) (Given : Input → Prop) : Server → Prop
  | new {conf : Config} {stored4 stored6 : List RoutingTableNode} {token : Bytes} {now : ℤ}
      {s : Server} (h : NewServer p.net conf stored4 stored6 token now = some s)
      (h4 : ∀ n ∈ stored4, Stored n.node) (h6 : ∀ n ∈ stored6, Stored n.node) :
      Reachable p Stored Given s
  | step {mo : Moment} {s s' : Server} {inp : Input} (hs : Reachable p Stored Given s)
      (hinp : Given inp) (h : step p mo s inp = some s') : Reachable p Stored Given s'

end Server

end GoI2pBt.Dht
