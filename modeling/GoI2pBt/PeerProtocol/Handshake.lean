/-
  Extension bits and handshakes.
-/
import GoI2pBt.Lib.Limited
import GoI2pBt.Metainfo.Hash

namespace GoI2pBt.PeerProtocol

open List hiding Vector
open Metainfo (Hash HashSize)

/-! ## Extension bits -/

def ExtensionBitMax : ℕ := 64

abbrev ExtensionBit := Fin ExtensionBitMax

def ExtensionBitDHT : ExtensionBit := ⟨0, by decide⟩
def ExtensionBitFast : ExtensionBit := ⟨2, by decide⟩
def ExtensionBitExtended : ExtensionBit := ⟨20, by decide⟩

structure ExtensionBits where
  bytes : Vector UInt8 8
deriving DecidableEq

def byValue {α : Type} (body : α → α) (x : α) : α :=
  let _receiver := body x
  x

namespace ExtensionBits

variable (eb : ExtensionBits) (bit : ExtensionBit)

def zero : ExtensionBits := ⟨Vector.replicate 8 0⟩

def index : Fin 8 := ⟨7 - bit / 8, by omega⟩

def mask : UInt8 := 1 <<< UInt8.ofNat (bit % 8)

def setBody : ExtensionBits := ⟨eb.bytes.set (index bit) (eb.bytes[index bit] ||| mask bit)⟩

def unsetBody : ExtensionBits := ⟨eb.bytes.set (index bit) (eb.bytes[index bit] &&& ~~~ mask bit)⟩

def Set : ExtensionBits := byValue (fun eb => eb.setBody bit) eb

def Unset : ExtensionBits := byValue (fun eb => eb.unsetBody bit) eb

def IsSet : Bool := eb.bytes[index bit] &&& mask bit ≠ 0

def IsSupportDHT : Bool := eb.IsSet ExtensionBitDHT
def IsSupportFast : Bool := eb.IsSet ExtensionBitFast
def IsSupportExtended : Bool := eb.IsSet ExtensionBitExtended

/-! ## Sequences of operations -/

inductive Op where
  | set (bit : ExtensionBit)
  | unset (bit : ExtensionBit)
deriving DecidableEq

namespace Op

def target : Op → ExtensionBit
  | set bit | unset bit => bit

def isSet : Op → Bool
  | set _ => true
  | unset _ => false

def apply (eb : ExtensionBits) : Op → ExtensionBits
  | set bit => eb.Set bit
  | unset bit => eb.Unset bit

end Op

def run (ops : List Op) : ExtensionBits := ops.foldl Op.apply eb

def lastSet (ops : List Op) (bit : ExtensionBit) : Bool :=
  (ops.reverse.find? fun op => op.target = bit).any Op.isSet

/-! ## What the operations do to their receiver -/

theorem toNat_mask : (mask bit).toNat = 2 ^ (bit % 8 : ℕ) := by
  have h8 : (bit : ℕ) % 8 < 8 := Nat.mod_lt _ (by decide)
  have hpow : 2 ^ ((bit : ℕ) % 8) < 256 :=
    calc 2 ^ ((bit : ℕ) % 8) < 2 ^ 8 := Nat.pow_lt_pow_right (by decide) h8
      _ = 256 := rfl
  have hmod : (bit : ℕ) % 8 % 256 = (bit : ℕ) % 8 := Nat.mod_eq_of_lt (by omega)
  rw [mask, UInt8.toNat_shiftLeft, UInt8.toNat_ofNat', hmod, Nat.mod_mod, Nat.shiftLeft_eq]
  simpa using Nat.mod_eq_of_lt hpow

theorem and_mask_ne_zero (x : UInt8) : x &&& mask bit ≠ 0 ↔ x.toNat.testBit (bit % 8) := by
  rw [Ne, ← UInt8.toNat_inj, UInt8.toNat_and, toNat_mask, Nat.and_two_pow]
  cases x.toNat.testBit (bit % 8) <;> simp

theorem isSet_eq : eb.IsSet bit = eb.bytes[index bit].toNat.testBit (bit % 8) := by
  rw [IsSet, Bool.eq_iff_iff, decide_eq_true_iff, and_mask_ne_zero]

theorem testBit_not (x : UInt8) {i} (hi : i < 8) :
    (~~~ x).toNat.testBit i = !x.toNat.testBit i := by
  have hnot : (~~~ x).toNat = 2 ^ 8 - (x.toNat + 1) := by
    rw [UInt8.toNat_not, Nat.sub_sub, add_comm 1]
    rfl
  rw [hnot, Nat.testBit_two_pow_sub_succ x.toNat_lt, decide_eq_true hi, Bool.true_and]

variable (bit' : ExtensionBit)

@[simp] theorem isSet_zero : zero.IsSet bit = false := by
  rw [isSet_eq, zero]
  simp

/-! ## What they do to the variable -/

theorem apply_eq (op : Op) : op.apply eb = eb := by
  cases op <;> rfl

theorem run_eq (ops : List Op) : eb.run ops = eb := by
  induction ops with
  | nil => rfl
  | cons op ops ih => rw [run, foldl_cons, apply_eq]; exact ih

theorem isSet_run_iff (ops : List Op) :
    (∀ bit, (zero.run ops).IsSet bit = lastSet ops bit) ↔ ∀ bit, lastSet ops bit = false := by
  rw [run_eq]
  exact forall_congr' fun bit => by rw [isSet_zero, eq_comm]

end ExtensionBits

/-! ## Handshakes -/

structure Sock where
  inp : Bytes
  out : Bytes
  room : ℕ

inductive HandshakeErr where
  | read (err : StreamErr)
  | write
  /-- `unexpected peer protocol header string` -/
  | errInvalidProtocolHeader
deriving DecidableEq

abbrev SockM := EStateM HandshakeErr Sock

namespace Sock

def write (b : Bytes) : SockM Unit := fun s =>
  if b.length ≤ s.room then .ok () ⟨s.inp, s.out ++ b, s.room - b.length⟩
  else .error .write ⟨s.inp, s.out ++ b.take s.room, 0⟩

def readFull (k : ℕ) : SockM Bytes := fun s =>
  if k ≤ s.inp.length then .ok (s.inp.take k) { s with inp := s.inp.drop k }
  else .error (.read (if s.inp = [] then .eof else .unexpectedEof)) { s with inp := [] }

end Sock

def ProtocolHeader : Bytes := 0x13 :: utf8 "BitTorrent protocol"

structure HandshakeMsg where
  extensionBits : ExtensionBits
  peerID : Hash
  infoHash : Hash
deriving DecidableEq

def ExtensionBits.ofBytes (b : Bytes) : ExtensionBits :=
  ⟨⟨((b ++ replicate 8 0).take 8).toArray, by simp⟩⟩

def getPeerHandshakeMsg : SockM HandshakeMsg := do
  let b ← Sock.readFull 68
  if b.take 20 ≠ ProtocolHeader then throw .errInvalidProtocolHeader
  return {
    extensionBits := .ofBytes ((b.drop 20).take 8)
    infoHash := .ofBytes ((b.drop 28).take 20)
    peerID := .ofBytes ((b.drop 48).take 20) }

def writeHandshakeMessage (msg : HandshakeMsg) : SockM Unit := do
  Sock.write ProtocolHeader
  Sock.write msg.extensionBits.bytes.toList
  Sock.write msg.infoHash.bytes
  Sock.write msg.peerID.bytes

def Handshake (msg : HandshakeMsg) : SockM HandshakeMsg := do
  if msg.infoHash.IsZero then
    let ret ← getPeerHandshakeMsg
    writeHandshakeMessage { msg with infoHash := ret.infoHash }
    return ret
  else
    writeHandshakeMessage msg
    getPeerHandshakeMsg

def HandshakeMsg.bytes (msg : HandshakeMsg) : Bytes :=
  ProtocolHeader ++ (msg.extensionBits.bytes.toList ++ (msg.infoHash.bytes ++ msg.peerID.bytes))

theorem Sock.write_bind_write (a b : Bytes) :
    (do Sock.write a; Sock.write b) = Sock.write (a ++ b) := by
  funext s
  by_cases ha : a.length ≤ s.room
  · rw [bind_of_ok (a := ()) (by rw [Sock.write, if_pos ha])]
    simp only [Sock.write, length_append, append_assoc]
    by_cases hb : b.length ≤ s.room - a.length
    · rw [if_pos hb, if_pos (by omega), Nat.sub_sub]
    · rw [if_neg hb, if_neg (by omega), take_append, take_of_length_le ha]
  · have hlen : ¬ (a ++ b).length ≤ s.room := by rw [length_append]; omega
    rw [bind_of_error (by rw [Sock.write, if_neg ha]), Sock.write, if_neg hlen,
      take_append_of_le_length (by omega)]

theorem writeHandshakeMessage_eq (msg : HandshakeMsg) :
    writeHandshakeMessage msg = Sock.write msg.bytes := by
  rw [writeHandshakeMessage, HandshakeMsg.bytes]
  simp only [Sock.write_bind_write]

/-! ## What is sent, and read back -/

theorem HandshakeMsg.length_bytes (msg : HandshakeMsg) : msg.bytes.length = 68 := by
  have hheader : ProtocolHeader.length = 20 := by decide
  have hinfo := msg.infoHash.length_eq
  have hpeer := msg.peerID.length_eq
  rw [HashSize] at hinfo hpeer
  simp only [HandshakeMsg.bytes, length_append, Vector.length_toList]
  omega

theorem ExtensionBits.ofBytes_toList (eb : ExtensionBits) : ofBytes eb.bytes.toList = eb := by
  obtain ⟨v⟩ := eb
  have htake : (v.toList ++ replicate 8 0).take 8 = v.toList := take_left' v.length_toList
  simp only [ofBytes, htake]
  congr

theorem getPeerHandshakeMsg_bytes (msg : HandshakeMsg) (rest out : Bytes) (room : ℕ) :
    getPeerHandshakeMsg ⟨msg.bytes ++ rest, out, room⟩ = .ok msg ⟨rest, out, room⟩ := by
  have hread : Sock.readFull 68 ⟨msg.bytes ++ rest, out, room⟩ = .ok msg.bytes ⟨rest, out, room⟩ := by
    rw [Sock.readFull, if_pos (by simp [msg.length_bytes]), take_left' msg.length_bytes,
      drop_left' msg.length_bytes]
  have hheader : ProtocolHeader.length = 20 := by decide
  have hext : msg.extensionBits.bytes.toList.length = 8 := Vector.length_toList
  have hinfo : msg.infoHash.bytes.length = 20 := msg.infoHash.length_eq
  have hpeer : msg.peerID.bytes.length = 20 := msg.peerID.length_eq
  have h20 : msg.bytes.drop 20 =
      msg.extensionBits.bytes.toList ++ (msg.infoHash.bytes ++ msg.peerID.bytes) :=
    drop_left' hheader
  have h28 : msg.bytes.drop 28 = msg.infoHash.bytes ++ msg.peerID.bytes := by
    rw [show 28 = 20 + 8 from rfl, ← drop_drop, h20, drop_left' hext]
  have h48 : msg.bytes.drop 48 = msg.peerID.bytes := by
    rw [show 48 = 28 + 20 from rfl, ← drop_drop, h28, drop_left' hinfo]
  have hhead : msg.bytes.take 20 = ProtocolHeader := take_left' hheader
  rw [getPeerHandshakeMsg, bind_of_ok hread, hhead, h20, h28, h48, take_left' hext,
    take_left' hinfo, take_of_length_le hpeer.le, ExtensionBits.ofBytes_toList,
    Hash.ofBytes_bytes, Hash.ofBytes_bytes]
  rfl

theorem HandshakeMsg.bytes_injective {a b : HandshakeMsg} (h : a.bytes = b.bytes) : a = b := by
  have ha := getPeerHandshakeMsg_bytes a [] [] 0
  rw [h, getPeerHandshakeMsg_bytes] at ha
  cases ha
  rfl

def Sock.after {α : Type} (x : SockM α) (s : Sock) : Sock :=
  match x s with
  | .ok _ s' | .error _ s' => s'

theorem out_readFull (k : ℕ) (s : Sock) : (s.after (Sock.readFull k)).out = s.out := by
  rw [Sock.after, Sock.readFull]
  split_ifs <;> rfl

theorem out_getPeerHandshakeMsg (s : Sock) : (s.after getPeerHandshakeMsg).out = s.out := by
  have hread := out_readFull 68 s
  rw [Sock.after] at hread ⊢
  rw [getPeerHandshakeMsg]
  cases h : Sock.readFull 68 s with
  | error err s' =>
    rw [h] at hread
    rw [bind_of_error h]
    exact hread
  | ok b s' =>
    rw [h] at hread
    rw [bind_of_ok h]
    by_cases hb : b.take 20 = ProtocolHeader
    · simp only [hb, ne_eq, not_true_eq_false, if_false]
      exact hread
    · simp only [hb, ne_eq, not_false_eq_true, if_true]
      exact hread

theorem out_writeHandshakeMessage (msg : HandshakeMsg) (s : Sock) :
    (s.after (writeHandshakeMessage msg)).out = s.out ++ msg.bytes.take s.room := by
  rw [writeHandshakeMessage_eq, Sock.after, Sock.write]
  split_ifs with h
  · rw [take_of_length_le h]
  · rfl

theorem out_handshake (msg : HandshakeMsg) (s : Sock) : ∃ (infoHash : Hash) (k : ℕ),
    (s.after (Handshake msg)).out = s.out ++ (HandshakeMsg.bytes { msg with infoHash }).take k := by
  rw [Handshake]
  by_cases hz : msg.infoHash.IsZero
  · have hget := out_getPeerHandshakeMsg s
    simp only [hz, if_true]
    rw [Sock.after] at hget ⊢
    cases h : getPeerHandshakeMsg s with
    | error err s' =>
      rw [h] at hget
      rw [bind_of_error h]
      exact ⟨msg.infoHash, 0, by simpa using hget⟩
    | ok ret s1 =>
      have hwrite := out_writeHandshakeMessage { msg with infoHash := ret.infoHash } s1
      rw [h] at hget
      rw [bind_of_ok h]
      rw [Sock.after, hget] at hwrite
      refine ⟨ret.infoHash, s1.room, ?_⟩
      cases hw : writeHandshakeMessage { msg with infoHash := ret.infoHash } s1 with
      | error err s' => rw [bind_of_error hw]; rwa [hw] at hwrite
      | ok _ s' => rw [bind_of_ok hw]; rwa [hw] at hwrite
  · have hwrite := out_writeHandshakeMessage msg s
    simp only [hz, Bool.false_eq_true, if_false]
    rw [Sock.after] at hwrite ⊢
    refine ⟨msg.infoHash, s.room, ?_⟩
    cases hw : writeHandshakeMessage msg s with
    | error err s' => rw [bind_of_error hw]; rwa [hw] at hwrite
    | ok _ s1 =>
      have hget := out_getPeerHandshakeMsg s1
      rw [hw] at hwrite
      rw [bind_of_ok hw]
      exact hget.trans hwrite

theorem extensionBits_of_sent {msg h : HandshakeMsg} {s : Sock}
    (hsent : (s.after (Handshake msg)).out = s.out ++ h.bytes) :
    h.extensionBits = msg.extensionBits := by
  obtain ⟨infoHash, k, hout⟩ := out_handshake msg s
  rw [hsent, append_cancel_left_eq] at hout
  have hk : 68 ≤ k := by
    have hlen := congrArg length hout
    rw [length_take, HandshakeMsg.length_bytes, HandshakeMsg.length_bytes] at hlen
    omega
  rw [take_of_length_le (by rw [HandshakeMsg.length_bytes]; exact hk)] at hout
  rw [HandshakeMsg.bytes_injective hout]

end GoI2pBt.PeerProtocol
