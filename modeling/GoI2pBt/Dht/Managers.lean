/-
  The managers of tokens, peers, transactions and blocked addresses.
-/
import GoI2pBt.Dht.RoutingTable
import GoI2pBt.Krpc.Message

namespace GoI2pBt.Dht

open Krpc Metainfo

variable (net : Net)

/-! ## Addresses -/

def IPAddr (destHash : Bytes → Bytes) : NetAddr → Bytes
  | .tcpAddr ip _ _ => ipString ip
  | .udpAddr ip _ _ => ipString ip
  | .i2pPtr addr => destHash addr
  | .i2p addr => destHash addr
  | .ipAddr ip zone =>
    match splitHostPort (zonedString ip zone) with
    | .error _ => []
    | .ok (host, _) => host

def IsIPv6Addr : Option NetAddr → Bool
  | some (.udpAddr ip _ _) => to4 ip = []
  | some (.tcpAddr ip _ _) => to4 ip = []
  | some (.ipAddr ip _) => to4 ip = []
  | _ => false

/-! ## Tokens -/

structure TokenManager where
  last : Bytes
  new : Bytes
  addrs : Bytes → Option ℤ

def newTokenManager (token : Bytes) : TokenManager := ⟨token, token, fun _ => none⟩

namespace TokenManager

def updateToken (tm : TokenManager) (token : Bytes) : TokenManager :=
  { tm with last := tm.new, new := token }

def clear (tm : TokenManager) (now expired : ℤ) : TokenManager :=
  { tm with addrs := fun a => (tm.addrs a).filter fun time => now - time < expired }

def Token (tm : TokenManager) (addr : NetAddr) (now : ℤ) : TokenManager :=
  { tm with addrs := Function.update tm.addrs (addr.String net) (some now) }

def Check (tm : TokenManager) (addr : NetAddr) (token : Bytes) : Bool :=
  (tm.last = token ∨ tm.new = token) ∧ (tm.addrs (addr.String net)).isSome

end TokenManager

/-! ## Peers -/

structure Peer where
  id : Hash
  ip : NetAddr
  port : UInt16
  token : Bytes
  time : ℤ
deriving DecidableEq

structure TokenPeerManager where
  peers : List Peer := []

namespace TokenPeerManager

def cleanupExpiredPeers (tpm : TokenPeerManager) (now interval : ℤ) : TokenPeerManager :=
  ⟨tpm.peers.filter fun peer => now - peer.time ≤ interval⟩

def Set (tpm : TokenPeerManager) (id : Hash) (addr : NetAddr) (token : Bytes) (now : ℤ) :
    TokenPeerManager :=
  ⟨tpm.peers.filter (fun peer => ¬ (peer.id = id ∧ peer.ip.String net = addr.String net)) ++
    [⟨id, addr, UInt16.ofInt addr.Port, token, now⟩]⟩

def Get (tpm : TokenPeerManager) (id : Hash) (addr : NetAddr) : Bytes :=
  match tpm.peers.find? fun peer => peer.id = id ∧ peer.ip.String net = addr.String net with
  | some peer => peer.token
  | none => []

def GetPeers (tpm : TokenPeerManager) (order : List Peer → List Peer) (infohash : Hash)
    (maxnum : ℕ) : List Address :=
  ((order (tpm.peers.filter fun peer => peer.id = infohash)).take maxnum).map fun peer =>
    NewAddress (.addr peer.ip) peer.port

def GetSampleInfoHashes (tpm : TokenPeerManager) (order : List Hash → List Hash) (maxnum : ℕ) :
    List Hash × ℕ :=
  let hashes := (tpm.peers.map Peer.id).dedup
  ((order hashes).take maxnum, hashes.length)

end TokenPeerManager

/-! ## Transactions -/

inductive OnResponse where
  | noop
  | ping
  | getPeers
  | findNode
deriving DecidableEq

structure Transaction where
  id : Bytes
  query : Bytes
  arg : QueryArg
  addr : NetAddr
  time : ℤ
  depth : ℤ
  visited : List Hash
  callback : Option ℕ
  onResponse : OnResponse
deriving DecidableEq

structure TransactionManager where
  trans : List Transaction := []
  tid : UInt32 := 0

namespace TransactionManager

def formatBase36 (n : ℕ) : Bytes := (Nat.digits 36 n).reverse.map fun d =>
    if d < 10 then UInt8.ofNat (48 + d) else UInt8.ofNat (87 + d)

def GetTransactionID (tm : TransactionManager) : Bytes × TransactionManager :=
  let tid := tm.tid + 1
  (if tid = 0 then utf8 "0" else formatBase36 tid.toNat, { tm with tid })

def hasKey (tid : Bytes) (addr : NetAddr) (t : Transaction) : Bool :=
  t.id = tid ∧ t.addr.String net = addr.String net

def AddTransaction (tm : TransactionManager) (t : Transaction) : TransactionManager :=
  { tm with trans := tm.trans.filter (fun t' => !hasKey net t.id t.addr t') ++ [t] }

def PopTransaction (tm : TransactionManager) (tid : Bytes) (addr : NetAddr) :
    Option Transaction × TransactionManager :=
  (tm.trans.find? (hasKey net tid addr),
    { tm with trans := tm.trans.filter fun t => !hasKey net tid addr t })

def cleanupExpiredTransactions (tm : TransactionManager) (now interval : ℤ) :
    List Transaction × TransactionManager :=
  (tm.trans.filter fun t => now - t.time > interval,
    { tm with trans := tm.trans.filter fun t => now - t.time ≤ interval })

end TransactionManager

/-! ## The blacklist -/

structure WrappedPort where
  time : ℤ
  enable : Bool
  ports : List ℤ
deriving DecidableEq

structure Blacklist where
  num : ℕ
  ips : List (Bytes × WrappedPort) := []

namespace Blacklist

def lookup (bl : Blacklist) (ip : Bytes) : Option WrappedPort :=
  (bl.ips.find? fun p => p.1 = ip).map Prod.snd

def In (bl : Blacklist) (ip : Bytes) (port : ℤ) : Bool :=
  match bl.lookup ip with
  | none => false
  | some wp => if wp.enable then port ∈ wp.ports else true

def WrappedPort.add (wp : WrappedPort) (port now : ℤ) : WrappedPort :=
  if port < 1 then ⟨now, false, []⟩ else ⟨now, wp.enable, wp.ports.insert port⟩

def Add (bl : Blacklist) (ip : Bytes) (port now : ℤ) : Blacklist :=
  match bl.lookup ip with
  | some wp =>
    { bl with ips := bl.ips.filter (fun p => p.1 ≠ ip) ++ [(ip, WrappedPort.add wp port now)] }
  | none =>
    if bl.num > 0 ∧ bl.ips.length ≥ bl.num then bl
    else { bl with ips := bl.ips ++ [(ip, WrappedPort.add ⟨now, true, []⟩ port now)] }

def Del (bl : Blacklist) (ip : Bytes) (port now : ℤ) : Blacklist :=
  match bl.lookup ip with
  | none => bl
  | some wp =>
    if port < 1 then { bl with ips := bl.ips.filter fun p => p.1 ≠ ip }
    else if !wp.enable then bl
    else if wp.ports.length ≤ 1 then { bl with ips := bl.ips.filter fun p => p.1 ≠ ip }
    else
      { bl with
        ips := bl.ips.filter (fun p => p.1 ≠ ip) ++
          [(ip, ⟨now, wp.enable, wp.ports.filter (· ≠ port)⟩)] }

def cleanExpiredEntries (bl : Blacklist) (now interval : ℤ) : Blacklist :=
  { bl with ips := bl.ips.filter fun p => now - p.2.time ≤ interval }

end Blacklist

end GoI2pBt.Dht
