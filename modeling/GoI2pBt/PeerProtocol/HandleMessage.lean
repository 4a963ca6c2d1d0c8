/-
  The messages of a connection and its handlers.
-/
import GoI2pBt.Downloader.Connection
import GoI2pBt.Lib.OrderedMap
import GoI2pBt.PeerProtocol.Extension
import GoI2pBt.PeerProtocol.Message

namespace GoI2pBt.PeerProtocol
open List

open Bencode (Error)

/-! ## Piece lists -/

def Pieces.Append (S : SortSlice) (ps : List UInt32) (index : UInt32) : List UInt32 :=
  if index ∈ ps then ps else S.slice (fun a b => a < b) (ps ++ [index])

/-! ## Connections -/

structure MessageConn extends PeerConn where
  peerChoked : Bool
  peerInterested : Bool
  fasts : List UInt32
  suggests : List UInt32
  bitField : Bytes
  extendedHandshakeMsg : ExtendedHandshakeMsg
  notFirstMsg : Bool
  extHandshake : Bool

def PeerConn.fresh (pc : PeerConn) : MessageConn where
  toPeerConn := pc
  peerChoked := true
  peerInterested := false
  fasts := []
  suggests := []
  bitField := []
  extendedHandshakeMsg := .ofGo (Bencode.zero ExtendedHandshakeMsg.type)
  notFirstMsg := false
  extHandshake := false

/-! ## Handlers -/

inductive Callback where
  | onMessage (msg : Message)
  | choke
  | unchoke
  | interested
  | notInterested
  | have (index : UInt32)
  | bitField (bits : Bytes)
  | request (index begin length : UInt32)
  | piece (index begin : UInt32) (piece : Bytes)
  | cancel (index begin length : UInt32)
  | port (port : UInt16)
  | haveAll
  | haveNone
  | suggest (index : UInt32)
  | allowedFast (index : UInt32)
  | reject (index begin length : UInt32)
  | onExtHandShake
  | onPayload (extid : UInt8) (payload : Bytes)

structure Handler (ε : Type) where
  isBep3 : Bool
  isBep5 : Bool
  isBep6 : Bool
  isBep10 : Bool
  call : Callback → MessageConn → Option ε × MessageConn

inductive HandleErr (ε : Type) where
  | errNotFirstMsg
  | errNotSupportDHT
  | errNotSupportFast
  | errNotSupportExtended
  | errSecondExtHandshake
  | errNoExtHandshake
  | decode (err : Error)
  | handler (err : ε)

/-- What a handler returns: its error, and the connection that it leaves. -/
abbrev Handled (ε : Type) : Type := Option (HandleErr ε) × MessageConn

structure MessageEnv where
  sort : SortSlice
  env : ExtEnv
  leftover : Bytes → ExtendedHandshakeMsg

namespace MessageConn

variable {ε : Type} (E : MessageEnv) (h : Handler ε)

def invoke (cb : Callback) (pc : MessageConn) : Handled ε :=
  ((h.call cb pc).1.map .handler, (h.call cb pc).2)

def invokeBep3Handler (cb : Callback) (msg : Message) (pc : MessageConn) : Handled ε :=
  if h.isBep3 then pc.invoke h cb else pc.invoke h (.onMessage msg)

def invokeBep6Handler (cb : Callback) (msg : Message) (pc : MessageConn) : Handled ε :=
  if h.isBep6 then pc.invoke h cb else pc.invoke h (.onMessage msg)

def isBep3MessageType (type : MessageType) : Bool :=
  type = MTypeChoke ∨ type = MTypeUnchoke ∨ type = MTypeInterested ∨ type = MTypeNotInterested ∨
    type = MTypeHave ∨ type = MTypeBitField ∨ type = MTypeRequest ∨ type = MTypePiece ∨
    type = MTypeCancel

def isBep6MessageType (type : MessageType) : Bool :=
  type = MTypeSuggest ∨ type = MTypeHaveAll ∨ type = MTypeHaveNone ∨ type = MTypeReject ∨
    type = MTypeAllowedFast

variable (pc : MessageConn) (msg : Message)

def handleBitFieldMessage : Handled ε :=
  if pc.notFirstMsg then (some .errNotFirstMsg, pc)
  else invokeBep3Handler h (.bitField msg.bitField) msg { pc with bitField := msg.bitField }

def handleBep3Message : Handled ε :=
  if msg.type = MTypeChoke then invokeBep3Handler h .choke msg { pc with peerChoked := true }
  else if msg.type = MTypeUnchoke then
    invokeBep3Handler h .unchoke msg { pc with peerChoked := false }
  else if msg.type = MTypeInterested then
    invokeBep3Handler h .interested msg { pc with peerInterested := true }
  else if msg.type = MTypeNotInterested then
    invokeBep3Handler h .notInterested msg { pc with peerInterested := false }
  else if msg.type = MTypeHave then invokeBep3Handler h (.have msg.index) msg pc
  else if msg.type = MTypeBitField then handleBitFieldMessage h pc msg
  else if msg.type = MTypeRequest then
    invokeBep3Handler h (.request msg.index msg.begin msg.length) msg pc
  else if msg.type = MTypePiece then
    invokeBep3Handler h (.piece msg.index msg.begin msg.piece) msg pc
  else if msg.type = MTypeCancel then
    invokeBep3Handler h (.cancel msg.index msg.begin msg.length) msg pc
  else (none, pc)

def handleBep5Message : Handled ε :=
  if !pc.extBits.IsSupportDHT then (some .errNotSupportDHT, pc)
  else if h.isBep5 then pc.invoke h (.port msg.port)
  else pc.invoke h (.onMessage msg)

def handleSuggestMessage : Handled ε :=
  if !pc.extBits.IsSupportFast then (some .errNotSupportFast, pc)
  else invokeBep6Handler h (.suggest msg.index) msg
    { pc with suggests := Pieces.Append E.sort pc.suggests msg.index }

def handleFirstMessage (cb : Callback) (pc : MessageConn) (msg : Message) : Handled ε :=
  if pc.notFirstMsg then (some .errNotFirstMsg, pc)
  else if !pc.extBits.IsSupportFast then (some .errNotSupportFast, pc)
  else invokeBep6Handler h cb msg pc

def handleHaveAllMessage : Handled ε :=
  handleFirstMessage h .haveAll pc msg

def handleHaveNoneMessage : Handled ε :=
  handleFirstMessage h .haveNone pc msg

def handleRejectMessage : Handled ε :=
  if !pc.extBits.IsSupportFast then (some .errNotSupportFast, pc)
  else invokeBep6Handler h (.reject msg.index msg.begin msg.length) msg pc

def handleAllowedFastMessage : Handled ε :=
  if !pc.extBits.IsSupportFast then (some .errNotSupportFast, pc)
  else invokeBep6Handler h (.allowedFast msg.index) msg
    { pc with fasts := Pieces.Append E.sort pc.fasts msg.index }

def handleBep6Message : Handled ε :=
  if msg.type = MTypeSuggest then handleSuggestMessage E h pc msg
  else if msg.type = MTypeHaveAll then handleHaveAllMessage h pc msg
  else if msg.type = MTypeHaveNone then handleHaveNoneMessage h pc msg
  else if msg.type = MTypeReject then handleRejectMessage h pc msg
  else if msg.type = MTypeAllowedFast then handleAllowedFastMessage E h pc msg
  else (none, pc)

def handleExtMsg : Handled ε :=
  if msg.extendedID = ExtendedIDHandshake then
    if pc.extHandshake then (some .errSecondExtHandshake, pc)
    else
      match ExtendedHandshakeMsg.Decode E.env msg.extendedPayload with
      | .error err => (some (.decode err), { pc with
          extHandshake := true, extendedHandshakeMsg := E.leftover msg.extendedPayload })
      | .ok ehm => invoke h .onExtHandShake
          { pc with extHandshake := true, extendedHandshakeMsg := ehm }
  else if pc.extHandshake then pc.invoke h (.onPayload msg.extendedID msg.extendedPayload)
  else (some .errNoExtHandshake, pc)

def handleBep10Message : Handled ε :=
  if !pc.extBits.IsSupportExtended then (some .errNotSupportExtended, pc)
  else if h.isBep10 then handleExtMsg E h pc msg
  else pc.invoke h (.onMessage msg)

def dispatch : Handled ε :=
  if isBep3MessageType msg.type then handleBep3Message h pc msg
  else if msg.type = MTypePort then handleBep5Message h pc msg
  else if isBep6MessageType msg.type then handleBep6Message E h pc msg
  else if msg.type = MTypeExtended then handleBep10Message E h pc msg
  else pc.invoke h (.onMessage msg)

def HandleMessage : Handled ε :=
  if msg.keepalive then (none, pc)
  else ((dispatch E h pc msg).1, { (dispatch E h pc msg).2 with notFirstMsg := true })

def run (pc : MessageConn) (msgs : List Message) : MessageConn :=
  msgs.foldl (fun pc msg => (pc.HandleMessage E h msg).2) pc

end MessageConn

/-! ## Handlers that do not change the connection -/

def Handler.Passive {ε : Type} (h : Handler ε) : Prop := ∀ cb pc, (h.call cb pc).2 = pc

namespace MessageConn

variable {ε : Type} {E : MessageEnv} {h : Handler ε} {pc pc' : MessageConn} {msg : Message}

variable {msgs : List Message} {ps : List UInt32}

inductive Handled (E : MessageEnv) (pc : MessageConn) (msg : Message) : MessageConn → Prop
  | choke (ht : msg.type = MTypeChoke) : Handled E pc msg { pc with peerChoked := true }
  | unchoke (ht : msg.type = MTypeUnchoke) : Handled E pc msg { pc with peerChoked := false }
  | interested (ht : msg.type = MTypeInterested) :
      Handled E pc msg { pc with peerInterested := true }
  | notInterested (ht : msg.type = MTypeNotInterested) :
      Handled E pc msg { pc with peerInterested := false }
  | bitField (ht : msg.type = MTypeBitField) (hfirst : pc.notFirstMsg = false) :
      Handled E pc msg { pc with bitField := msg.bitField }
  | suggest (ht : msg.type = MTypeSuggest) (hfast : pc.extBits.IsSupportFast = true) :
      Handled E pc msg { pc with suggests := Pieces.Append E.sort pc.suggests msg.index }
  | allowedFast (ht : msg.type = MTypeAllowedFast) (hfast : pc.extBits.IsSupportFast = true) :
      Handled E pc msg { pc with fasts := Pieces.Append E.sort pc.fasts msg.index }
  | extended (ht : msg.type = MTypeExtended) (hext : pc.extBits.IsSupportExtended = true)
      (ehm : ExtendedHandshakeMsg) :
      Handled E pc msg { pc with extHandshake := true, extendedHandshakeMsg := ehm }
  | other (hc : msg.type ≠ MTypeChoke) (hu : msg.type ≠ MTypeUnchoke)
      (hi : msg.type ≠ MTypeInterested) (hn : msg.type ≠ MTypeNotInterested)
      (hb : msg.type = MTypeBitField → pc.notFirstMsg = true)
      (hs : msg.type = MTypeSuggest → pc.extBits.IsSupportFast = false)
      (ha : msg.type = MTypeAllowedFast → pc.extBits.IsSupportFast = false) :
      Handled E pc msg pc

theorem Handled.of_type (ht : ∀ t ∈ [MTypeChoke, MTypeUnchoke, MTypeInterested, MTypeNotInterested,
    MTypeBitField, MTypeSuggest, MTypeAllowedFast], msg.type ≠ t) : Handled E pc msg pc := by
  simp only [mem_cons, not_mem_nil, or_false, forall_eq_or_imp, forall_eq] at ht
  obtain ⟨hc, hu, hi, hn, hb, hs, ha⟩ := ht
  exact .other hc hu hi hn (fun h => absurd h hb) (fun h => absurd h hs) fun h => absurd h ha

/-! A message of an extension that is not enabled is refused, whatever the handler does. -/

theorem handleBep5_refused (hdht : pc.extBits.IsSupportDHT = false) :
    (handleBep5Message h pc msg).2 = pc := by
  rw [handleBep5Message, hdht]
  rfl

theorem handleBep6_refused (hfast : pc.extBits.IsSupportFast = false) :
    (handleBep6Message E h pc msg).2 = pc := by
  unfold handleBep6Message handleSuggestMessage handleHaveAllMessage handleHaveNoneMessage
    handleFirstMessage handleRejectMessage handleAllowedFastMessage
  simp only [hfast, Bool.not_false, ↓reduceIte]
  split_ifs <;> rfl

theorem handleBep10_refused (hext : pc.extBits.IsSupportExtended = false) :
    (handleBep10Message E h pc msg).2 = pc := by
  rw [handleBep10Message, hext]
  rfl

section Passive

variable (hp : h.Passive)
include hp

theorem invoke_passive (cb : Callback) (pc : MessageConn) : (pc.invoke h cb).2 = pc := hp cb pc

theorem handled_invoke3 {pc1} (hh : Handled E pc msg pc1) (cb : Callback) :
    Handled E pc msg (invokeBep3Handler h cb msg pc1).2 := by
  unfold invokeBep3Handler
  split_ifs
  · rwa [invoke_passive hp]
  · rwa [invoke_passive hp]

theorem handled_invoke6 {pc1} (hh : Handled E pc msg pc1) (cb : Callback) :
    Handled E pc msg (invokeBep6Handler h cb msg pc1).2 := by
  unfold invokeBep6Handler
  split_ifs
  · rwa [invoke_passive hp]
  · rwa [invoke_passive hp]

theorem handled_bep3 (ht : isBep3MessageType msg.type = true) :
    Handled E pc msg (handleBep3Message h pc msg).2 := by
  unfold handleBep3Message handleBitFieldMessage
  split_ifs with hc hu hi hn hh hb hf hr hpc hca
  · exact handled_invoke3 hp (.choke hc) _
  · exact handled_invoke3 hp (.unchoke hu) _
  · exact handled_invoke3 hp (.interested hi) _
  · exact handled_invoke3 hp (.notInterested hn) _
  · exact handled_invoke3 hp (.of_type (by rw [hh]; decide)) _
  · exact .other hc hu hi hn (fun _ => hf) (fun hs => absurd (hb.symm.trans hs) (by decide))
      fun ha => absurd (hb.symm.trans ha) (by decide)
  · exact handled_invoke3 hp (.bitField hb (Bool.eq_false_of_not_eq_true hf)) _
  · exact handled_invoke3 hp (.of_type (by rw [hr]; decide)) _
  · exact handled_invoke3 hp (.of_type (by rw [hpc]; decide)) _
  · exact handled_invoke3 hp (.of_type (by rw [hca]; decide)) _
  · exact absurd (of_decide_eq_true ht) (by tauto)

theorem handled_bep6 (ht : isBep6MessageType msg.type = true) :
    Handled E pc msg (handleBep6Message E h pc msg).2 := by
  rcases Bool.eq_false_or_eq_true pc.extBits.IsSupportFast with hfast | hfast
  · unfold handleBep6Message handleSuggestMessage handleHaveAllMessage handleHaveNoneMessage
      handleFirstMessage handleRejectMessage handleAllowedFastMessage
    simp only [hfast, Bool.not_true, Bool.false_eq_true, ↓reduceIte]
    split_ifs with hs hall hfirst hnone hfirst hr ha
    · exact handled_invoke6 hp (.suggest hs hfast) _
    · exact .of_type (by rw [hall]; decide)
    · exact handled_invoke6 hp (.of_type (by rw [hall]; decide)) _
    · exact .of_type (by rw [hnone]; decide)
    · exact handled_invoke6 hp (.of_type (by rw [hnone]; decide)) _
    · exact handled_invoke6 hp (.of_type (by rw [hr]; decide)) _
    · exact handled_invoke6 hp (.allowedFast ha hfast) _
    · exact absurd (of_decide_eq_true ht) (by tauto)
  · rw [handleBep6_refused hfast]
    have hne : ∀ t, isBep6MessageType t = false → msg.type ≠ t := by
      rintro t hf rfl
      exact Bool.false_ne_true (hf.symm.trans ht)
    exact .other (hne _ (by decide)) (hne _ (by decide)) (hne _ (by decide)) (hne _ (by decide))
      (fun hb => absurd hb (hne _ (by decide))) (fun _ => hfast) fun _ => hfast

theorem handled_bep10 (ht : msg.type = MTypeExtended) :
    Handled E pc msg (handleBep10Message E h pc msg).2 := by
  have hsame : Handled E pc msg pc := .of_type (by rw [ht]; decide)
  rcases Bool.eq_false_or_eq_true pc.extBits.IsSupportExtended with hext | hext
  · unfold handleBep10Message handleExtMsg
    simp only [hext, Bool.not_true, Bool.false_eq_true, ↓reduceIte]
    split_ifs
    · exact hsame
    · split
      · exact .extended ht hext _
      · rw [invoke_passive hp]
        exact .extended ht hext _
    · rw [invoke_passive hp]
      exact hsame
    · exact hsame
    · rw [invoke_passive hp]
      exact hsame
  · rw [handleBep10_refused hext]
    exact hsame

theorem handled_dispatch : Handled E pc msg (dispatch E h pc msg).2 := by
  unfold dispatch
  split_ifs with h3 h5 h6 h10
  · exact handled_bep3 hp h3
  · have hsame : Handled E pc msg pc := .of_type (by rw [h5]; decide)
    unfold handleBep5Message
    split_ifs
    · exact hsame
    · rw [invoke_passive hp]
      exact hsame
    · rw [invoke_passive hp]
      exact hsame
  · exact handled_bep6 hp h6
  · exact handled_bep10 hp h10
  · rw [invoke_passive hp]
    have hgroup : ∀ t ∈ [MTypeChoke, MTypeUnchoke, MTypeInterested, MTypeNotInterested,
        MTypeBitField, MTypeSuggest, MTypeAllowedFast],
        isBep3MessageType t = true ∨ isBep6MessageType t = true := by decide
    refine .of_type fun t ht heq => ?_
    rw [heq] at h3 h6
    exact (hgroup t ht).elim h3 h6

end Passive

/-! ## Piece lists -/

theorem perm_append (S : SortSlice) {index} (h : index ∉ ps) :
    (Pieces.Append S ps index).Perm (ps ++ [index]) := by
  rw [Pieces.Append, if_neg h]
  exact S.perm _ _

theorem mem_append (S : SortSlice) {index i} :
    i ∈ Pieces.Append S ps index ↔ i ∈ ps ∨ i = index := by
  by_cases h : index ∈ ps
  · rw [Pieces.Append, if_pos h]
    exact ⟨.inl, fun hi => hi.elim id fun hi => hi ▸ h⟩
  · rw [(perm_append S h).mem_iff, List.mem_append, List.mem_singleton]

theorem increasing_append (S : SortSlice) (index : UInt32)
    (h : ps.Pairwise (· < ·)) : (Pieces.Append S ps index).Pairwise (· < ·) := by
  by_cases hmem : index ∈ ps
  · rwa [Pieces.Append, if_pos hmem]
  · have hnodup : (Pieces.Append S ps index).Nodup := by
      rw [(perm_append S hmem).nodup_iff, nodup_append_comm]
      refine nodup_cons.2 ⟨hmem, h.imp fun hlt heq => ?_⟩
      rw [heq] at hlt
      exact UInt32.lt_irrefl _ hlt
    have hsorted : (Pieces.Append S ps index).Pairwise fun a b => ¬ decide (b < a) = true := by
      rw [Pieces.Append, if_neg hmem]
      refine S.sorted ?_ ?_ _
      · intro a b hab hba
        exact UInt32.lt_irrefl _ (UInt32.lt_trans (of_decide_eq_true hab) (of_decide_eq_true hba))
      · intro a b c hab hbc hca
        simp only [decide_eq_true_eq, UInt32.not_lt] at hab hbc hca
        exact UInt32.not_lt.2 (UInt32.le_trans hab hbc) hca
    refine (hsorted.and hnodup).imp fun {a b} hab => ?_
    have hle : a ≤ b := UInt32.not_lt.1 fun hlt => hab.1 (decide_eq_true hlt)
    exact UInt32.lt_of_le_of_ne hle hab.2

/-! ## The fields after a message -/

def choking (msg : Message) : Option Bool :=
  if msg.keepalive then none
  else if msg.type = MTypeChoke then some true
  else if msg.type = MTypeUnchoke then some false
  else none

def interest (msg : Message) : Option Bool :=
  if msg.keepalive then none
  else if msg.type = MTypeInterested then some true
  else if msg.type = MTypeNotInterested then some false
  else none

namespace Handled

variable (hh : Handled E pc msg pc')
include hh

theorem extBits : pc'.extBits = pc.extBits := by
  cases hh <;> rfl

theorem peerChoked (hk : msg.keepalive = false) :
    pc'.peerChoked = (choking msg).getD pc.peerChoked := by
  unfold choking
  rw [hk]
  cases hh with
  | other hc hu => simp [hc, hu]
  | _ => simp [*]

theorem peerInterested (hk : msg.keepalive = false) :
    pc'.peerInterested = (interest msg).getD pc.peerInterested := by
  unfold interest
  rw [hk]
  cases hh with
  | other hc hu hi hn => simp [hi, hn]
  | _ => simp [*]

theorem fasts : pc'.fasts =
    if msg.type = MTypeAllowedFast ∧ pc.extBits.IsSupportFast = true then
      Pieces.Append E.sort pc.fasts msg.index
    else pc.fasts := by
  cases hh with
  | other hc hu hi hn hb hs ha =>
    rw [if_neg]
    rintro ⟨ht, hfast⟩
    exact Bool.false_ne_true ((ha ht).symm.trans hfast)
  | _ => simp [*]

theorem suggests : pc'.suggests =
    if msg.type = MTypeSuggest ∧ pc.extBits.IsSupportFast = true then
      Pieces.Append E.sort pc.suggests msg.index
    else pc.suggests := by
  cases hh with
  | other hc hu hi hn hb hs ha =>
    rw [if_neg]
    rintro ⟨ht, hfast⟩
    exact Bool.false_ne_true ((hs ht).symm.trans hfast)
  | _ => simp [*]

theorem bits : pc'.bitField =
    if msg.type = MTypeBitField ∧ pc.notFirstMsg = false then msg.bitField else pc.bitField := by
  cases hh with
  | other hc hu hi hn hb =>
    rw [if_neg]
    rintro ⟨ht, hfirst⟩
    exact Bool.false_ne_true (hfirst.symm.trans (hb ht))
  | _ => simp [*]

end Handled

/-! ## Runs -/

def Sent (type : MessageType) (msgs : List Message) (i : UInt32) : Prop :=
  ∃ msg ∈ msgs, msg.keepalive = false ∧ msg.type = type ∧ msg.index = i

def firstBitField (msgs : List Message) : Option Bytes :=
  ((msgs.find? fun msg => !msg.keepalive).filter fun msg => msg.type = MTypeBitField).map
    Message.bitField

structure Tracks (bits : ExtensionBits) (msgs : List Message) (pc : MessageConn) : Prop where
  extBits : pc.extBits = bits
  notFirstMsg : pc.notFirstMsg = msgs.any fun msg => !msg.keepalive
  fasts_increasing : pc.fasts.Pairwise (· < ·)
  fasts : ∀ i, i ∈ pc.fasts ↔ bits.IsSupportFast = true ∧ Sent MTypeAllowedFast msgs i
  suggests_increasing : pc.suggests.Pairwise (· < ·)
  suggests : ∀ i, i ∈ pc.suggests ↔ bits.IsSupportFast = true ∧ Sent MTypeSuggest msgs i
  peerChoked : pc.peerChoked = (msgs.filterMap choking).getLastD true
  peerInterested : pc.peerInterested = (msgs.filterMap interest).getLastD false
  bitField : pc.bitField = (firstBitField msgs).getD []

theorem tracks_fresh (pc : PeerConn) : Tracks pc.extBits [] pc.fresh where
  extBits := rfl
  notFirstMsg := rfl
  fasts_increasing := .nil
  fasts _ := iff_of_false not_mem_nil fun ⟨_, _, h, _⟩ => not_mem_nil h
  suggests_increasing := .nil
  suggests _ := iff_of_false not_mem_nil fun ⟨_, _, h, _⟩ => not_mem_nil h
  peerChoked := rfl
  peerInterested := rfl
  bitField := rfl

theorem sent_append {type : MessageType} {i} : Sent type (msgs ++ [msg]) i ↔
      Sent type msgs i ∨ msg.keepalive = false ∧ msg.type = type ∧ msg.index = i := by
  unfold Sent
  simp only [List.mem_append, List.mem_singleton, or_and_right, exists_or, exists_eq_left]

theorem getLastD_filterMap {α : Type} (f : Message → Option α) (msgs : List Message) (a : α) :
    ((msgs ++ [msg]).filterMap f).getLastD a = (f msg).getD ((msgs.filterMap f).getLastD a) := by
  rw [filterMap_append]
  cases hf : f msg with
  | none | some => simp [hf]

theorem find_first_eq_none (h : (msgs.any fun msg => !msg.keepalive) = false) :
    (msgs.find? fun msg => !msg.keepalive) = none := by
  rw [find?_eq_none]
  intro m hm hk
  rw [any_eq_false] at h
  exact h m hm hk

theorem find_first_append (msgs : List Message) (msg : Message) :
    ((msgs ++ [msg]).find? fun msg => !msg.keepalive) =
      if (msgs.any fun msg => !msg.keepalive) = true then msgs.find? fun msg => !msg.keepalive
      else [msg].find? fun msg => !msg.keepalive := by
  rw [find?_append]
  split_ifs with hany
  · obtain ⟨first, hfirst⟩ := Option.isSome_iff_exists.1
      (find?_isSome.2 (any_eq_true.1 hany))
    rw [hfirst]
    rfl
  · rw [find_first_eq_none (Bool.eq_false_of_not_eq_true hany)]
    rfl

theorem firstBitField_eq_none
    (h : (msgs.any fun msg => !msg.keepalive) = false) : firstBitField msgs = none := by
  rw [firstBitField, find_first_eq_none h]
  rfl

theorem firstBitField_append (msgs : List Message) : firstBitField (msgs ++ [msg]) =
    if (msgs.any fun msg => !msg.keepalive) = true then firstBitField msgs
    else firstBitField [msg] := by
  unfold firstBitField
  rw [find_first_append]
  split_ifs <;> rfl

theorem mem_pieces {S : SortSlice} {ps ps'} {type : MessageType} {fast} (hk : msg.keepalive = false)
    (hps : ∀ i, i ∈ ps ↔ fast = true ∧ Sent type msgs i)
    (heq : ps' = if msg.type = type ∧ fast = true then Pieces.Append S ps msg.index else ps)
    (i : UInt32) : i ∈ ps' ↔ fast = true ∧ Sent type (msgs ++ [msg]) i := by
  rw [heq, sent_append]
  split_ifs with h
  · rw [mem_append, hps]
    simp only [h, hk, true_and]
    exact or_congr_right eq_comm
  · rw [hps]
    constructor
    · rintro ⟨hf, hs⟩
      exact ⟨hf, .inl hs⟩
    · rintro ⟨hf, hs | ⟨-, ht, -⟩⟩
      · exact ⟨hf, hs⟩
      · exact absurd ⟨ht, hf⟩ h

theorem increasing_pieces {S : SortSlice} {ps ps'} {c : Prop} [Decidable c]
    (hps : ps.Pairwise (· < ·)) (heq : ps' = if c then Pieces.Append S ps msg.index else ps) :
    ps'.Pairwise (· < ·) := by
  rw [heq]
  split_ifs
  · exact increasing_append S _ hps
  · exact hps

theorem tracks_keepalive {bits} (ht : Tracks bits msgs pc)
    (hk : msg.keepalive = true) : Tracks bits (msgs ++ [msg]) pc := by
  have hsent : ∀ {type i}, Sent type (msgs ++ [msg]) i ↔ Sent type msgs i := by
    intro type i
    rw [sent_append, hk]
    exact or_iff_left fun h => Bool.false_ne_true h.1.symm
  refine ⟨ht.extBits, ?_, ht.fasts_increasing, ?_, ht.suggests_increasing, ?_, ?_, ?_, ?_⟩
  · rw [ht.notFirstMsg]
    simp [hk]
  · intro i
    rw [hsent, ht.fasts]
  · intro i
    rw [hsent, ht.suggests]
  · rw [getLastD_filterMap, ← ht.peerChoked, choking, if_pos hk]
    rfl
  · rw [getLastD_filterMap, ← ht.peerInterested, interest, if_pos hk]
    rfl
  · rw [ht.bitField, firstBitField_append]
    split_ifs with hany
    · rfl
    · rw [firstBitField_eq_none (Bool.eq_false_of_not_eq_true hany)]
      simp [firstBitField, hk]

theorem tracks_step (hp : h.Passive) {bits} (ht : Tracks bits msgs pc) (msg : Message) :
    Tracks bits (msgs ++ [msg]) (pc.HandleMessage E h msg).2 := by
  unfold HandleMessage
  rcases Bool.eq_false_or_eq_true msg.keepalive with hk | hk
  · rw [if_pos hk]
    exact tracks_keepalive ht hk
  · rw [if_neg (ne_true_of_eq_false hk)]
    have hh : Handled E pc msg (dispatch E h pc msg).2 := handled_dispatch hp
    refine ⟨hh.extBits.trans ht.extBits, ?_, ?_, ?_, ?_, ?_, ?_, ?_, ?_⟩
    · simp [hk]
    · exact increasing_pieces ht.fasts_increasing hh.fasts
    · exact mem_pieces hk ht.fasts (by rw [← ht.extBits]; exact hh.fasts)
    · exact increasing_pieces ht.suggests_increasing hh.suggests
    · exact mem_pieces hk ht.suggests (by rw [← ht.extBits]; exact hh.suggests)
    · rw [getLastD_filterMap, ← ht.peerChoked]
      exact hh.peerChoked hk
    · rw [getLastD_filterMap, ← ht.peerInterested]
      exact hh.peerInterested hk
    · rw [firstBitField_append, ← ht.notFirstMsg]
      refine hh.bits.trans ?_
      rcases Bool.eq_false_or_eq_true pc.notFirstMsg with hfirst | hfirst
      · rw [hfirst, if_pos rfl, if_neg fun h => Bool.false_ne_true h.2.symm, ht.bitField]
      · have hnone : pc.bitField = [] := by
          rw [ht.bitField, firstBitField_eq_none (ht.notFirstMsg.symm.trans hfirst)]
          rfl
        rw [hfirst, if_neg Bool.false_ne_true, hnone]
        by_cases hb : msg.type = MTypeBitField
        · simp [firstBitField, hk, hb, Option.filter_some]
        · simp [firstBitField, hk, hb, Option.filter_some]

def Disabled (bits : ExtensionBits) (msg : Message) : Prop :=
  (msg.type = MTypePort ∧ bits.IsSupportDHT = false) ∨
    (isBep6MessageType msg.type = true ∧ bits.IsSupportFast = false) ∨
    (msg.type = MTypeExtended ∧ bits.IsSupportExtended = false)

theorem dispatch_disabled (hd : Disabled pc.extBits msg) : (dispatch E h pc msg).2 = pc := by
  unfold dispatch
  rcases hd with ⟨ht, hdht⟩ | ⟨ht, hfast⟩ | ⟨ht, hext⟩
  · rw [ht, if_neg (by decide), if_pos rfl]
    exact handleBep5_refused hdht
  · obtain ⟨h3, h5⟩ : isBep3MessageType msg.type = false ∧ msg.type ≠ MTypePort := by
      rcases of_decide_eq_true ht with ht | ht | ht | ht | ht <;> rw [ht] <;> decide
    rw [if_neg (ne_true_of_eq_false h3), if_neg h5, if_pos ht]
    exact handleBep6_refused hfast
  · rw [ht, if_neg (by decide), if_neg (by decide), if_neg (by decide), if_pos rfl]
    exact handleBep10_refused hext

theorem run_append (pc : MessageConn) (msgs : List Message) (msg : Message) :
    pc.run E h (msgs ++ [msg]) = ((pc.run E h msgs).HandleMessage E h msg).2 := by
  rw [run, foldl_append]
  rfl

/-- **The connection tracks its messages.** -/
theorem tracks_run (hp : h.Passive) (pc : PeerConn) (msgs : List Message) :
    Tracks pc.extBits msgs (pc.fresh.run E h msgs) ∧
      ∀ msg, msg.keepalive = false → Disabled pc.extBits msg →
        pc.fresh.run E h (msgs ++ [msg]) = { pc.fresh.run E h msgs with notFirstMsg := true } := by
  have htracks : Tracks pc.extBits msgs (pc.fresh.run E h msgs) := by
    induction msgs using List.reverseRecOn with
    | nil => exact tracks_fresh pc
    | append_singleton msgs msg ih =>
      rw [run_append]
      exact tracks_step hp ih msg
  refine ⟨htracks, fun msg hk hd => ?_⟩
  rw [← htracks.extBits] at hd
  rw [run_append, HandleMessage, if_neg (ne_true_of_eq_false hk)]
  dsimp only
  rw [dispatch_disabled hd]

def insertionEnv : MessageEnv where
  sort := .insertion
  env := sampleExtEnv
  leftover _ := .ofGo (Bencode.zero ExtendedHandshakeMsg.type)

def noopHandler : Handler Empty := ⟨true, false, true, false, fun _ pc => (none, pc)⟩

/-- A connection to a peer with the fast extension. -/
def fastConn : PeerConn :=
  { NewPeerConn .zero .zero with extBits := .ofBytes [0, 0, 0, 0, 0, 0, 0, 4] }

def indexed (type : MessageType) (index : UInt32) : Message :=
  { Message.sampleRequest with type, index }

def sampleRun : List Message :=
  [{ Message.sampleRequest with type := MTypeBitField, bitField := [0x81] },
   indexed MTypeAllowedFast 3, indexed MTypeUnchoke 0, indexed MTypeSuggest 2,
   indexed MTypeAllowedFast 1, indexed MTypeChoke 0, indexed MTypeSuggest 2]

theorem tracks_run_noop : noopHandler.Passive ∧ fastConn.extBits.IsSupportFast = true ∧
    Tracks fastConn.extBits sampleRun (fastConn.fresh.run insertionEnv noopHandler sampleRun) ∧
    (fastConn.fresh.run insertionEnv noopHandler sampleRun).fasts = [1, 3] := by
  refine ⟨fun _ _ => rfl, by decide +kernel, ?_, by decide +kernel⟩
  exact (tracks_run (fun _ _ => rfl) fastConn sampleRun).1

end MessageConn

end GoI2pBt.PeerProtocol
