/-
  The extension bits of a connection, and the handshakes it sends.
-/
import GoI2pBt.PeerProtocol.Handshake

namespace GoI2pBt.PeerProtocol

open Metainfo (Hash)

structure PeerConn where
  infoHash : Hash
  id : Hash
  extBits : ExtensionBits
  peerID : Hash
  peerExtBits : ExtensionBits

def NewPeerConn (id infohash : Hash) : PeerConn where
  infoHash := infohash
  id := id
  extBits := .zero
  peerID := .zero
  peerExtBits := .zero

inductive ConnErr where
  /-- `fail to dial to '%s': %s` -/
  | dial
  | handshake (err : HandshakeErr)
  /-- `inconsistent infohash: local(%s)=%s, remote(%s)=%s` -/
  | inconsistentInfohash (here there : Hash)
  /-- `the remote peer '%s' does not support Extended` -/
  | notSupportExtended
  /-- `inconsistent peer id '%s'` -/
  | inconsistentPeerID (id : Hash)
deriving DecidableEq

def PeerConn.accept (pc : PeerConn) (rhm : HandshakeMsg) : Except ConnErr PeerConn :=
  let pc := { pc with peerID := rhm.peerID, peerExtBits := rhm.extensionBits }
  if pc.infoHash.IsZero then .ok { pc with infoHash := rhm.infoHash }
  else if pc.infoHash ≠ rhm.infoHash then .error (.inconsistentInfohash pc.infoHash rhm.infoHash)
  else .ok pc

def PeerConn.Handshake (pc : PeerConn) (sock : Sock) : Except ConnErr PeerConn × Sock :=
  match PeerProtocol.Handshake ⟨pc.extBits, pc.id, pc.infoHash⟩ sock with
  | .error err sock => (.error (.handshake err), sock)
  | .ok rhm sock => (pc.accept rhm, sock)

theorem PeerConn.out_handshake (pc : PeerConn) (sock : Sock) : (pc.Handshake sock).2 =
      sock.after (PeerProtocol.Handshake ⟨pc.extBits, pc.id, pc.infoHash⟩) := by
  rw [PeerConn.Handshake, Sock.after]
  cases PeerProtocol.Handshake ⟨pc.extBits, pc.id, pc.infoHash⟩ sock <;> rfl

end GoI2pBt.PeerProtocol

namespace GoI2pBt.Downloader

open PeerProtocol
open Metainfo (Hash)

variable {κ : Type}

structure TorrentDownloader (κ : Type) where
  /-- `d.conf.ID` -/
  id : Hash
  ondht : Option κ
  ebits : ExtensionBits

def NewTorrentDownloader (id random : Hash) : TorrentDownloader κ where
  id := if id.IsZero then random else id
  ondht := none
  ebits := ExtensionBits.zero.Set ExtensionBitExtended

namespace TorrentDownloader

def OnDHTNode (d : TorrentDownloader κ) (cb : Option κ) : TorrentDownloader κ :=
  { d with
    ondht := cb
    ebits := if cb.isNone then d.ebits.Unset ExtensionBitDHT else d.ebits.Set ExtensionBitDHT }

def establishConnection (d : TorrentDownloader κ) (dial : Option Sock) (peerID infohash : Hash) :
    Except ConnErr PeerConn × Option Sock :=
  match dial with
  | none => (.error .dial, none)
  | some sock =>
    let conn := { NewPeerConn d.id infohash with extBits := d.ebits }
    let (conn, sock) := conn.Handshake sock
    let checked := do
      let conn ← conn
      if ¬ conn.peerExtBits.IsSupportExtended then throw .notSupportExtended
      if ¬ peerID.IsZero ∧ peerID ≠ conn.peerID then throw (.inconsistentPeerID conn.peerID)
      return conn
    (checked, some sock)

def Sends (d : TorrentDownloader κ) (sock : Sock) (peerID infohash : Hash) (h : HandshakeMsg) : Prop :=
  ∃ sock', (d.establishConnection (some sock) peerID infohash).2 = some sock' ∧
    sock'.out = sock.out ++ h.bytes

theorem Sends.extensionBits_eq {d : TorrentDownloader κ} {sock : Sock} {peerID infohash : Hash}
    {h : HandshakeMsg} (hs : d.Sends sock peerID infohash h) : h.extensionBits = d.ebits := by
  obtain ⟨sock', hconn, hout⟩ := hs
  have hsock : (PeerConn.Handshake { NewPeerConn d.id infohash with extBits := d.ebits } sock).2 =
      sock' := Option.some.inj hconn
  rw [PeerConn.out_handshake] at hsock
  rw [← hsock] at hout
  exact extensionBits_of_sent hout

theorem ebits_eq (id random : Hash) (cbs : List (Option κ)) :
    (cbs.foldl OnDHTNode (NewTorrentDownloader id random)).ebits = .zero := by
  induction cbs using List.reverseRecOn with
  | nil => rfl
  | append_singleton cbs cb ih =>
    rw [List.foldl_append, List.foldl_cons, List.foldl_nil, OnDHTNode]
    cases cb <;> exact ih

end TorrentDownloader

open TorrentDownloader ExtensionBits

/-- **`Set` has no effect**, so no extension is announced. -/
theorem isSet_run_and_sends :
    (∀ ops : List Op, (∀ bit, (zero.run ops).IsSet bit = lastSet ops bit) ↔
      ∀ bit, lastSet ops bit = false) ∧
    ∀ (id random : Hash) (cbs : List (Option κ)) (sock : Sock) (peerID infohash : Hash)
      (h : HandshakeMsg),
      (cbs.foldl OnDHTNode (NewTorrentDownloader id random)).Sends sock peerID infohash h →
      ¬ h.extensionBits.IsSupportExtended ∧ ((h.extensionBits.IsSupportDHT ↔
            (cbs.foldl OnDHTNode (NewTorrentDownloader id random)).ondht.isSome) ↔
          (cbs.foldl OnDHTNode (NewTorrentDownloader id random)).ondht = none) := by
  refine ⟨isSet_run_iff, fun id random cbs sock peerID infohash h hs => ?_⟩
  have hzero : h.extensionBits = .zero := hs.extensionBits_eq.trans (ebits_eq id random cbs)
  have hdht : h.extensionBits.IsSupportDHT = false := by rw [hzero]; exact isSet_zero _
  have hext : h.extensionBits.IsSupportExtended = false := by rw [hzero]; exact isSet_zero _
  rw [hdht, hext]
  exact ⟨by decide, by simp⟩

def sampleDownloader : TorrentDownloader Unit :=
  [some ()].foldl OnDHTNode (NewTorrentDownloader (.ofBytes [1]) .zero)

theorem sampleDownloader_sends :
    sampleDownloader.Sends ⟨[], [], 68⟩ .zero (.ofBytes [2]) ⟨.zero, .ofBytes [1], .ofBytes [2]⟩ :=
  ⟨⟨[], _, 0⟩, rfl, rfl⟩

theorem isSet_run_and_sends_sample :
    ((∀ bit, (zero.run [.set ExtensionBitFast, .unset ExtensionBitFast]).IsSet bit =
        lastSet [.set ExtensionBitFast, .unset ExtensionBitFast] bit) ↔
      ∀ bit, lastSet [.set ExtensionBitFast, .unset ExtensionBitFast] bit = false) ∧
    ∃ h : HandshakeMsg, sampleDownloader.Sends ⟨[], [], 68⟩ .zero (.ofBytes [2]) h ∧
      ¬ h.extensionBits.IsSupportExtended :=
  ⟨(isSet_run_and_sends (κ := Unit)).1 _, _, sampleDownloader_sends,
    ((isSet_run_and_sends (κ := Unit)).2 _ _ _ _ _ _ _ sampleDownloader_sends).1⟩

theorem set_lost : lastSet [.set ExtensionBitExtended] ExtensionBitExtended = true ∧
    (zero.run [.set ExtensionBitExtended]).IsSet ExtensionBitExtended = false ∧
    sampleDownloader.ondht.isSome ∧
    ∃ h : HandshakeMsg, sampleDownloader.Sends ⟨[], [], 68⟩ .zero (.ofBytes [2]) h ∧
      h.extensionBits.IsSupportExtended = false ∧ h.extensionBits.IsSupportDHT = false :=
  ⟨rfl, rfl, rfl, _, sampleDownloader_sends, rfl, rfl⟩

end GoI2pBt.Downloader
