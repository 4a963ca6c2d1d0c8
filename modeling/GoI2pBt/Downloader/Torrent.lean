/-
  The download of the metadata of a torrent from a peer.
-/
import GoI2pBt.Metainfo.Hash
import GoI2pBt.PeerProtocol.Extension
import GoI2pBt.PeerProtocol.Message

namespace GoI2pBt.Downloader

open List PeerProtocol UtMetadataExtendedMsg ExtendedHandshakeMsg
open Metainfo (Hash)

def BlockSize : ℕ := 16384

structure TorrentResponse where
  host : Bytes
  port : UInt16
  peerID : Hash
  infoHash : Hash
  infoBytes : Bytes
deriving DecidableEq

structure Session where
  env : ExtEnv
  sha1 : Bytes → Hash
  /-- `d.ondht != nil` -/
  ondht : Bool
  /-- `conn.RemoteAddr().String()` -/
  remoteAddr : Bytes
  /-- `conn.PeerID` -/
  peerID : Hash
  host : Bytes
  port : UInt16
  infohash : Hash

inductive DownloadErr where
  /-- `rehandshake from the peer '%s'` -/
  | rehandshake (addr : Bytes)
  | decode (err : Bencode.Error)
  /-- `the peer does not support "ut_metadata"` -/
  | unsupported
  /-- `invalid final piece length: expected %d, got %d` -/
  | finalPieceLength (expected got : ℤ)
  /-- `invalid piece length: expected %d, got %d` -/
  | pieceLength (expected got : ℤ)

inductive Stop where
  | err (err : DownloadErr)
  | panic

structure Progress where
  pieces : Option (List Bytes) := none
  piecesNum : ℤ := 0
  metadataSize : ℤ := 0
  utmetadataID : UInt8 := 0
  requests : List Message := []
  nodes : List (Bytes × UInt16) := []
  responses : List TorrentResponse := []

abbrev DownloadM := EStateM Stop Progress

/-! ## The handlers -/

def decoded {α : Type} : Except Bencode.Error α → DownloadM α
  | .ok a => pure a
  | .error .panic => throw .panic
  | .error err => throw (.err (.decode err))

def extendedMsg (id : UInt8) (payload : Bytes) : Message where
  keepalive := false
  type := MTypeExtended
  index := 0
  begin := 0
  length := 0
  piece := []
  bitField := []
  extendedID := id
  extendedPayload := payload
  port := 0
  unknownTypePayload := []

def requestPieces (c : Session) (utMetadataID : UInt8) (piecesNum : ℤ) :
    Except Bencode.Error (List Message) :=
  (range piecesNum.toNat).mapM fun i => do
    let payload ← UtMetadataExtendedMsg.EncodeToBytes c.env
      { msgType := UtMetadataExtendedMsgTypeRequest, piece := .ofNat i, totalSize := 0, data := [] }
    return extendedMsg utMetadataID payload

def numPieces (metadataSize : ℤ) : ℤ :=
  if metadataSize.tmod BlockSize ≠ 0 then metadataSize.tdiv BlockSize + 1
  else metadataSize.tdiv BlockSize

def makePieces (n : ℤ) : DownloadM (List Bytes) :=
  if 0 ≤ n ∧ 24 * n ≤ maxAlloc then return replicate n.toNat [] else throw .panic

def processExtendedHandshake (c : Session) (msg : Message) : DownloadM Unit := do
  if (← get).utmetadataID > 0 then throw (.err (.rehandshake c.remoteAddr))
  let ehmsg ← decoded (ExtendedHandshakeMsg.Decode c.env msg.extendedPayload)
  let utmetadataID := ehmsg.id ExtendedMessageNameMetadata
  modify fun s => { s with utmetadataID }
  if utmetadataID = 0 then throw (.err .unsupported)
  let metadataSize := ehmsg.metadataSize.toInt
  let piecesNum := numPieces metadataSize
  modify fun s => { s with metadataSize, piecesNum }
  let pieces ← makePieces piecesNum
  modify fun s => { s with pieces := some pieces }
  -- `go d.requestPieces(…)`, which panics when a request cannot be encoded
  match requestPieces c utmetadataID piecesNum with
  | .ok requests => modify fun s => { s with requests }
  | .error _ => throw .panic

def validatePieceData (utmsg : UtMetadataExtendedMsg) (piecesNum metadataSize : ℤ) :
    Except DownloadErr Unit :=
  let pieceLen : ℤ := utmsg.data.length
  if utmsg.piece.toInt = piecesNum - 1 then
    let expectedLen :=
      if metadataSize.tmod BlockSize = 0 then (BlockSize : ℤ) else metadataSize.tmod BlockSize
    if pieceLen ≠ expectedLen then .error (.finalPieceLength expectedLen pieceLen) else .ok ()
  else if pieceLen ≠ BlockSize then .error (.pieceLength BlockSize pieceLen)
  else .ok ()

def processMetadataPiece (c : Session) (msg : Message) : DownloadM Unit := do
  let s ← get
  match s.pieces with
  | none => return
  | some pieces =>
    let utmsg ← decoded (UtMetadataExtendedMsg.DecodeFromPayload c.env msg.extendedPayload)
    if utmsg.msgType ≠ UtMetadataExtendedMsgTypeData then return
    match validatePieceData utmsg s.piecesNum s.metadataSize with
    | .error err => throw (.err err)
    | .ok () =>
      -- `pieces[utmsg.Piece] = utmsg.Data`
      if 0 ≤ utmsg.piece.toInt ∧ utmsg.piece.toInt < pieces.length then
        set { s with pieces := some (pieces.set utmsg.piece.toInt.toNat utmsg.data) }
      else throw .panic

def handleExtendedMessage (c : Session) (msg : Message) : DownloadM Unit :=
  if msg.extendedID = ExtendedIDHandshake then processExtendedHandshake c msg
  else if msg.extendedID = 1 then processMetadataPiece c msg
  else return

def handleMessage (c : Session) (msg : Message) : DownloadM Unit :=
  if msg.type = MTypeExtended then handleExtendedMessage c msg
  else if msg.type = MTypePort then
    if c.ondht then modify fun s => { s with nodes := s.nodes ++ [(c.host, msg.port)] }
    else return
  else return

def isMetadataComplete (pieces : List Bytes) : Bool := pieces.all fun piece => piece.length ≠ 0

def finalizeMetadata (c : Session) (pieces : List Bytes) : DownloadM Unit := do
  let metadataInfo := pieces.flatten
  if c.infohash = c.sha1 metadataInfo then
    modify fun s => { s with responses := s.responses ++
      [{ host := c.host, port := c.port, peerID := c.peerID, infoHash := c.infohash,
         infoBytes := metadataInfo }] }

def checkAndFinalizeMetadata (c : Session) : DownloadM Unit := do
  match (← get).pieces with
  | none => return
  | some pieces => if isMetadataComplete pieces then finalizeMetadata c pieces

def exchangeRound (c : Session) (msg : Message) : DownloadM Unit := do
  if msg.keepalive then return
  handleMessage c msg
  checkAndFinalizeMetadata c

def runMetadataExchangeLoop (c : Session) : List Message → DownloadM Unit
  | [] => return
  | msg :: msgs => do
    exchangeRound c msg
    runMetadataExchangeLoop c msgs

/-! ## The number and the lengths of the pieces -/

theorem numPieces_eq (size : ℤ) : numPieces size =
    size / 16384 + if size % 16384 = 0 then 0 else if 0 ≤ size then 1 else 2 := by
  unfold numPieces BlockSize
  rcases le_total 0 size with h | h
  · rw [Int.tmod_eq_emod_of_nonneg h, Int.tdiv_eq_ediv_of_nonneg h]
    split_ifs <;> omega
  · obtain ⟨k, rfl⟩ : ∃ k : ℤ, size = -k := ⟨-size, by omega⟩
    rw [Int.neg_tmod, Int.neg_tdiv, Int.tmod_eq_emod_of_nonneg (by omega),
      Int.tdiv_eq_ediv_of_nonneg (by omega)]
    split_ifs <;> omega

theorem numPieces_nonneg_iff (size : ℤ) : 0 ≤ numPieces size ↔ -32768 < size ∧ size ≠ -16384 := by
  rw [numPieces_eq]
  split_ifs <;> omega

theorem numPieces_eq_zero_iff (size : ℤ) :
    numPieces size = 0 ↔ size = 0 ∨ -32768 < size ∧ size < -16384 := by
  rw [numPieces_eq]
  split_ifs <;> omega

def Allocates (size : ℤ) : Prop :=
  -32768 < size ∧ size ≠ -16384 ∧ 24 * ((size + 16383) / 16384) ≤ maxAlloc

theorem allocates_iff (size : ℤ) :
    Allocates size ↔ 0 ≤ numPieces size ∧ 24 * numPieces size ≤ maxAlloc := by
  unfold Allocates maxAlloc
  rw [numPieces_eq]
  split_ifs <;> omega

def pieceLen (n size i : ℤ) : ℤ :=
  if i = n - 1 ∧ size.tmod BlockSize ≠ 0 then size.tmod BlockSize else BlockSize

theorem validatePieceData_ok_iff {um n size} :
    validatePieceData um n size = .ok () ↔ (um.data.length : ℤ) = pieceLen n size um.piece.toInt := by
  unfold validatePieceData pieceLen
  dsimp only
  split_ifs <;> simp_all

/-! ## What the handlers do -/

variable {c : Session} {s s' : Progress} {msg : Message} {msgs : List Message}

theorem decoded_error {α : Type} {x err} (h : x = .error err) (hret : err.Returned) :
    (decoded x : DownloadM α) s = .error (.err (.decode err)) s := by
  subst h
  cases err <;> first | rfl | exact hret.elim

theorem requestPieces_returns (c : Session) (id : UInt8) (n : ℤ) :
    ∃ requests, requestPieces c id n = .ok requests := by
  unfold requestPieces
  induction range n.toNat with
  | nil => exact ⟨[], rfl⟩
  | cons i is ih =>
    obtain ⟨requests, hreq⟩ := ih
    obtain ⟨b, henc, -⟩ := decode_encode c.env
      { msgType := UtMetadataExtendedMsgTypeRequest, piece := .ofNat i, totalSize := 0, data := [] }
    refine ⟨extendedMsg id b :: requests, ?_⟩
    rw [mapM_cons, henc, hreq]
    rfl

/-- What a handshake sets before the table of pieces is made. -/
def Progress.offer (s : Progress) (ehm : ExtendedHandshakeMsg) : Progress :=
  { s with
    utmetadataID := ehm.id ExtendedMessageNameMetadata
    metadataSize := ehm.metadataSize.toInt
    piecesNum := numPieces ehm.metadataSize.toInt }

section Handshake

theorem handshake_again (h : s.utmetadataID ≠ 0) :
    processExtendedHandshake c msg s = .error (.err (.rehandshake c.remoteAddr)) s := by
  have hpos : s.utmetadataID > 0 := UInt8.pos_iff_ne_zero.2 h
  rw [processExtendedHandshake, get_bind]
  simp only [if_pos hpos]
  rfl

variable (h : s.utmetadataID = 0)
include h

theorem handshake_undecoded {err} (hd : Decode c.env msg.extendedPayload = .error err) :
    processExtendedHandshake c msg s = .error (.err (.decode err)) s := by
  rw [processExtendedHandshake, get_bind]
  simp only [h]
  exact bind_of_error (decoded_error hd (decode_returned hd))

variable {ehm : ExtendedHandshakeMsg}
  (hd : ExtendedHandshakeMsg.Decode c.env msg.extendedPayload = .ok ehm)
include hd

theorem handshake_unsupported (hid : ehm.id ExtendedMessageNameMetadata = 0) :
    processExtendedHandshake c msg s = .error (.err .unsupported) s := by
  have hs : { s with utmetadataID := 0 } = s := by rw [← h]
  rw [processExtendedHandshake, get_bind]
  simp only [h, hd, decoded, pure_bind, hid]
  exact congrArg (EStateM.Result.error (Stop.err .unsupported)) hs

variable (hid : ehm.id ExtendedMessageNameMetadata ≠ 0)
include hid

theorem handshake_allocates (hsize : Allocates ehm.metadataSize.toInt) :
    ∃ requests, processExtendedHandshake c msg s = .ok () { s.offer ehm with
        pieces := some (replicate (numPieces ehm.metadataSize.toInt).toNat []), requests } := by
  obtain ⟨requests, hreq⟩ := requestPieces_returns c (ehm.id ExtendedMessageNameMetadata)
    (numPieces ehm.metadataSize.toInt)
  refine ⟨requests, ?_⟩
  rw [processExtendedHandshake, get_bind]
  simp only [h, hd, decoded, pure_bind, if_neg hid, makePieces, if_pos ((allocates_iff _).1 hsize),
    hreq]
  rfl

theorem handshake_panics (hsize : ¬ Allocates ehm.metadataSize.toInt) :
    processExtendedHandshake c msg s = .error .panic (s.offer ehm) := by
  rw [processExtendedHandshake, get_bind]
  simp only [h, hd, decoded, pure_bind, if_neg hid, makePieces,
    if_neg (mt (allocates_iff _).2 hsize)]
  rfl

end Handshake

def IsHandshake (msg : Message) : Prop :=
  msg.keepalive = false ∧ msg.type = MTypeExtended ∧ msg.extendedID = ExtendedIDHandshake

def IsMetadata (msg : Message) : Prop :=
  msg.keepalive = false ∧ msg.type = MTypeExtended ∧ msg.extendedID = 1

/-- The message brings data of the length that its piece has. -/
structure Brings (c : Session) (s : Progress) (msg : Message) (um : UtMetadataExtendedMsg) :
    Prop where
  isMetadata : IsMetadata msg
  decode : UtMetadataExtendedMsg.DecodeFromPayload c.env msg.extendedPayload = .ok um
  type : um.msgType = UtMetadataExtendedMsgTypeData
  len : (um.data.length : ℤ) = pieceLen s.piecesNum s.metadataSize um.piece.toInt

section Metadata

theorem metadata_early (h : s.pieces = none) : processMetadataPiece c msg s = .ok () s := by
  rw [processMetadataPiece, get_bind, h]
  rfl

variable {pieces : List Bytes} (h : s.pieces = some pieces)
include h

theorem metadata_undecoded {err} (hd : DecodeFromPayload c.env msg.extendedPayload = .error err) :
    processMetadataPiece c msg s = .error (.err (.decode err)) s := by
  rw [processMetadataPiece, get_bind, h]
  exact bind_of_error
    (decoded_error hd (decodeFromPayload_returned hd))

variable {um : UtMetadataExtendedMsg}

theorem metadata_other (hd : DecodeFromPayload c.env msg.extendedPayload = .ok um)
    (htype : um.msgType ≠ UtMetadataExtendedMsgTypeData) :
    processMetadataPiece c msg s = .ok () s := by
  rw [processMetadataPiece, get_bind, h]
  simp only [hd, decoded, pure_bind, if_pos htype]
  rfl

theorem metadata_refused (hd : DecodeFromPayload c.env msg.extendedPayload = .ok um)
    (htype : um.msgType = UtMetadataExtendedMsgTypeData)
    (hlen : (um.data.length : ℤ) ≠ pieceLen s.piecesNum s.metadataSize um.piece.toInt) :
    ∃ err, processMetadataPiece c msg s = .error (.err err) s := by
  cases hv : validatePieceData um s.piecesNum s.metadataSize with
  | ok u => exact absurd (validatePieceData_ok_iff.1 hv) hlen
  | error err =>
    refine ⟨err, ?_⟩
    rw [processMetadataPiece, get_bind, h]
    simp only [hd, decoded, pure_bind, htype, ne_eq, not_true_eq_false, if_false, hv]
    rfl

variable (hb : Brings c s msg um)
include hb

theorem metadata_stored (hrange : 0 ≤ um.piece.toInt ∧ um.piece.toInt < pieces.length) :
    processMetadataPiece c msg s =
      .ok () { s with pieces := some (pieces.set um.piece.toInt.toNat um.data) } := by
  rw [processMetadataPiece, get_bind, h]
  simp only [hb.decode, decoded, pure_bind, hb.type, ne_eq, not_true_eq_false, if_false,
    validatePieceData_ok_iff.2 hb.len, if_pos hrange]
  rfl

theorem metadata_panics (hrange : ¬ (0 ≤ um.piece.toInt ∧ um.piece.toInt < pieces.length)) :
    processMetadataPiece c msg s = .error .panic s := by
  rw [processMetadataPiece, get_bind, h]
  simp only [hb.decode, decoded, pure_bind, hb.type, ne_eq, not_true_eq_false, if_false,
    validatePieceData_ok_iff.2 hb.len, if_neg hrange]
  rfl

end Metadata

theorem handleMessage_handshake (h : IsHandshake msg) :
    handleMessage c msg = processExtendedHandshake c msg := by
  rw [handleMessage, if_pos h.2.1, handleExtendedMessage, if_pos h.2.2]

theorem handleMessage_metadata (h : IsMetadata msg) :
    handleMessage c msg = processMetadataPiece c msg := by
  have hid : msg.extendedID ≠ ExtendedIDHandshake := by rw [h.2.2]; decide
  rw [handleMessage, if_pos h.2.1, handleExtendedMessage, if_neg hid, if_pos h.2.2]

theorem handleMessage_other (hk : msg.keepalive = false) (hh : ¬ IsHandshake msg)
    (hm : ¬ IsMetadata msg) : ∃ nodes, handleMessage c msg s = .ok () { s with nodes } := by
  by_cases hext : msg.type = MTypeExtended
  · have hid : msg.extendedID ≠ ExtendedIDHandshake := fun h => hh ⟨hk, hext, h⟩
    have hid' : msg.extendedID ≠ 1 := fun h => hm ⟨hk, hext, h⟩
    rw [handleMessage, if_pos hext, handleExtendedMessage, if_neg hid, if_neg hid']
    exact ⟨s.nodes, rfl⟩
  · rw [handleMessage, if_neg hext]
    split_ifs
    · exact ⟨_, rfl⟩
    · exact ⟨s.nodes, rfl⟩
    · exact ⟨s.nodes, rfl⟩

inductive Outcome (c : Session) (s : Progress) (msg : Message) :
    EStateM.Result Stop Progress Unit → Prop
  | other (nodes : List (Bytes × UInt16)) (hh : ¬ IsHandshake msg) (hm : ¬ IsMetadata msg) :
    Outcome c s msg (.ok () { s with nodes })
  | rehandshake (hh : IsHandshake msg) (hid : s.utmetadataID ≠ 0) :
    Outcome c s msg (.error (.err (.rehandshake c.remoteAddr)) s)
  | badHandshake (err : Bencode.Error) (hh : IsHandshake msg) (hid : s.utmetadataID = 0)
      (hd : ExtendedHandshakeMsg.Decode c.env msg.extendedPayload = .error err) :
    Outcome c s msg (.error (.err (.decode err)) s)
  | unsupported (ehm : ExtendedHandshakeMsg) (hh : IsHandshake msg) (hid : s.utmetadataID = 0)
      (hd : ExtendedHandshakeMsg.Decode c.env msg.extendedPayload = .ok ehm)
      (hut : ehm.id ExtendedMessageNameMetadata = 0) :
    Outcome c s msg (.error (.err .unsupported) s)
  | started (ehm : ExtendedHandshakeMsg) (requests : List Message) (hh : IsHandshake msg)
      (hid : s.utmetadataID = 0)
      (hd : ExtendedHandshakeMsg.Decode c.env msg.extendedPayload = .ok ehm)
      (hut : ehm.id ExtendedMessageNameMetadata ≠ 0) (hsize : Allocates ehm.metadataSize.toInt) :
    Outcome c s msg (.ok () { s.offer ehm with
      pieces := some (replicate (numPieces ehm.metadataSize.toInt).toNat []), requests })
  | sizePanics (ehm : ExtendedHandshakeMsg) (hh : IsHandshake msg) (hid : s.utmetadataID = 0)
      (hd : ExtendedHandshakeMsg.Decode c.env msg.extendedPayload = .ok ehm)
      (hut : ehm.id ExtendedMessageNameMetadata ≠ 0)
      (hsize : ¬ Allocates ehm.metadataSize.toInt) :
    Outcome c s msg (.error .panic (s.offer ehm))
  | early (hm : IsMetadata msg) (hp : s.pieces = none) : Outcome c s msg (.ok () s)
  | badMetadata (l : List Bytes) (err : Bencode.Error) (hm : IsMetadata msg)
      (hp : s.pieces = some l)
      (hd : UtMetadataExtendedMsg.DecodeFromPayload c.env msg.extendedPayload = .error err) :
    Outcome c s msg (.error (.err (.decode err)) s)
  | noData (l : List Bytes) (um : UtMetadataExtendedMsg) (hm : IsMetadata msg)
      (hp : s.pieces = some l)
      (hd : UtMetadataExtendedMsg.DecodeFromPayload c.env msg.extendedPayload = .ok um)
      (htype : um.msgType ≠ UtMetadataExtendedMsgTypeData) :
    Outcome c s msg (.ok () s)
  | refused (l : List Bytes) (um : UtMetadataExtendedMsg) (err : DownloadErr) (hm : IsMetadata msg)
      (hp : s.pieces = some l)
      (hd : UtMetadataExtendedMsg.DecodeFromPayload c.env msg.extendedPayload = .ok um)
      (htype : um.msgType = UtMetadataExtendedMsgTypeData)
      (hlen : (um.data.length : ℤ) ≠ pieceLen s.piecesNum s.metadataSize um.piece.toInt) :
    Outcome c s msg (.error (.err err) s)
  | stored (l : List Bytes) (um : UtMetadataExtendedMsg) (hp : s.pieces = some l)
      (hb : Brings c s msg um) (hrange : 0 ≤ um.piece.toInt ∧ um.piece.toInt < l.length) :
    Outcome c s msg (.ok () { s with pieces := some (l.set um.piece.toInt.toNat um.data) })
  | indexPanics (l : List Bytes) (um : UtMetadataExtendedMsg) (hp : s.pieces = some l)
      (hb : Brings c s msg um)
      (hrange : ¬ (0 ≤ um.piece.toInt ∧ um.piece.toInt < l.length)) :
    Outcome c s msg (.error .panic s)

theorem outcome_handshake (h : IsHandshake msg) :
    Outcome c s msg (processExtendedHandshake c msg s) := by
  by_cases hid : s.utmetadataID = 0
  · cases hd : Decode c.env msg.extendedPayload with
    | error err => rw [handshake_undecoded hid hd]; exact .badHandshake err h hid hd
    | ok ehm =>
      by_cases hut : ehm.id ExtendedMessageNameMetadata = 0
      · rw [handshake_unsupported hid hd hut]; exact .unsupported ehm h hid hd hut
      · by_cases hsize : Allocates ehm.metadataSize.toInt
        · obtain ⟨requests, hok⟩ := handshake_allocates hid hd hut hsize
          rw [hok]
          exact .started ehm requests h hid hd hut hsize
        · rw [handshake_panics hid hd hut hsize]
          exact .sizePanics ehm h hid hd hut hsize
  · rw [handshake_again hid]
    exact .rehandshake h hid

theorem outcome_metadata (h : IsMetadata msg) : Outcome c s msg (processMetadataPiece c msg s) := by
  cases hp : s.pieces with
  | none => rw [metadata_early hp]; exact .early h hp
  | some l =>
    cases hd : DecodeFromPayload c.env msg.extendedPayload with
    | error err => rw [metadata_undecoded hp hd]; exact .badMetadata l err h hp hd
    | ok um =>
      by_cases htype : um.msgType = UtMetadataExtendedMsgTypeData
      · by_cases hlen : (um.data.length : ℤ) = pieceLen s.piecesNum s.metadataSize um.piece.toInt
        · have hb : Brings c s msg um := ⟨h, hd, htype, hlen⟩
          by_cases hrange : 0 ≤ um.piece.toInt ∧ um.piece.toInt < l.length
          · rw [metadata_stored hp hb hrange]
            exact .stored l um hp hb hrange
          · rw [metadata_panics hp hb hrange]
            exact .indexPanics l um hp hb hrange
        · obtain ⟨err, herr⟩ := metadata_refused hp hd htype hlen
          rw [herr]
          exact .refused l um err h hp hd htype hlen
      · rw [metadata_other hp hd htype]
        exact .noData l um h hp hd htype

theorem handleMessage_outcome (c : Session) (s : Progress) (hk : msg.keepalive = false) :
    Outcome c s msg (handleMessage c msg s) := by
  by_cases hh : IsHandshake msg
  · rw [handleMessage_handshake hh]
    exact outcome_handshake hh
  · by_cases hm : IsMetadata msg
    · rw [handleMessage_metadata hm]
      exact outcome_metadata hm
    · obtain ⟨nodes, hok⟩ := handleMessage_other hk hh hm
      rw [hok]
      exact .other nodes hh hm

def response (c : Session) (l : List Bytes) : TorrentResponse where
  host := c.host
  port := c.port
  peerID := c.peerID
  infoHash := c.infohash
  infoBytes := l.flatten

def Matches (c : Session) (l : List Bytes) : Prop :=
  isMetadataComplete l ∧ c.infohash = c.sha1 l.flatten

instance (c : Session) (l : List Bytes) : Decidable (Matches c l) :=
  inferInstanceAs (Decidable (_ ∧ _))

def delivered (c : Session) : Option (List Bytes) → List TorrentResponse
  | none => []
  | some l => if Matches c l then [response c l] else []

theorem checkAndFinalizeMetadata_eq : checkAndFinalizeMetadata c s =
    .ok () { s with responses := s.responses ++ delivered c s.pieces } := by
  obtain ⟨pieces, n, size, id, requests, nodes, responses⟩ := s
  rw [checkAndFinalizeMetadata, get_bind]
  rcases pieces with _ | l
  · simp [delivered]
  · by_cases hc : isMetadataComplete l
    · by_cases hh : c.infohash = c.sha1 l.flatten
      · have hm : Matches c l := ⟨hc, hh⟩
        simp only [delivered, if_pos hc, finalizeMetadata, if_pos hh, if_pos hm]
        rfl
      · have hm : ¬ Matches c l := fun h => hh h.2
        simp only [delivered, if_pos hc, finalizeMetadata, if_neg hh, if_neg hm, append_nil]
        rfl
    · have hm : ¬ Matches c l := fun h => hc h.1
      simp only [delivered, if_neg hc, if_neg hm, append_nil]
      rfl

/-! ## Rounds -/

theorem exchangeRound_ok_iff : exchangeRound c msg s = .ok () s' ↔
    msg.keepalive = true ∧ s' = s ∨ msg.keepalive = false ∧ ∃ s1, handleMessage c msg s = .ok () s1 ∧
      s' = { s1 with responses := s1.responses ++ delivered c s1.pieces } := by
  unfold exchangeRound
  cases hk : msg.keepalive with
  | true => simp [eq_comm]
  | false =>
    simp only [Bool.false_eq_true, if_false, false_and, false_or, true_and]
    rw [bind_eq_ok]
    simp only [checkAndFinalizeMetadata_eq, EStateM.Result.ok.injEq, true_and, eq_comm]
    exact ⟨fun ⟨_, s1, h⟩ => ⟨s1, h⟩, fun ⟨s1, h⟩ => ⟨(), s1, h⟩⟩

theorem exchangeRound_error_iff {e} : exchangeRound c msg s = .error e s' ↔
    msg.keepalive = false ∧ handleMessage c msg s = .error e s' := by
  unfold exchangeRound
  cases hk : msg.keepalive with
  | true => simp
  | false =>
    simp only [Bool.false_eq_true, if_false, true_and]
    cases hm : handleMessage c msg s with
    | error e' s1 => rw [bind_of_error hm]
    | ok u s1 => simp [bind_of_ok hm, checkAndFinalizeMetadata_eq]

structure Sound (s : Progress) : Prop where
  start : s.pieces = none → s.utmetadataID = 0 ∧ s.responses = []
  table : ∀ l, s.pieces = some l →
    s.utmetadataID ≠ 0 ∧ s.piecesNum = l.length ∧ s.piecesNum = numPieces s.metadataSize

theorem sound_start : Sound {} := ⟨fun _ => ⟨rfl, rfl⟩, fun _ h => nomatch h⟩

theorem Outcome.responses {r} (h : Outcome c s msg r) :
    match r with
    | .ok _ s' => s'.responses = s.responses
    | .error _ s' => s'.responses = s.responses := by
  cases h <;> rfl

theorem Outcome.sound (hs : Sound s) (h : Outcome c s msg (.ok () s')) : Sound s' := by
  cases h with
  | other nodes hh hm => exact ⟨hs.start, hs.table⟩
  | started ehm requests hh hid hd hut hsize =>
    have hn := ((allocates_iff _).1 hsize).1
    refine ⟨fun h => (nomatch h), ?_⟩
    rintro l ⟨⟩
    exact ⟨hut, by simp [Progress.offer, Int.toNat_of_nonneg hn], rfl⟩
  | early | noData => exact hs
  | stored l um hp hb hrange =>
    obtain ⟨hid, hn, hsize⟩ := hs.table l hp
    refine ⟨fun h => (nomatch h), ?_⟩
    rintro l' ⟨⟩
    exact ⟨hid, by simpa using hn, hsize⟩

theorem sound_exchangeRound (hs : Sound s) (h : exchangeRound c msg s = .ok () s') : Sound s' := by
  rcases exchangeRound_ok_iff.1 h with ⟨-, rfl⟩ | ⟨hk, s1, h1, rfl⟩
  · exact hs
  · have hs1 : Sound s1 := (h1 ▸ handleMessage_outcome c s hk).sound hs
    refine ⟨fun hp => ⟨(hs1.start hp).1, ?_⟩, hs1.table⟩
    change s1.pieces = none at hp
    change s1.responses ++ delivered c s1.pieces = []
    rw [(hs1.start hp).2, hp]
    rfl

/-! ## Runs -/

theorem loop_append (msgs msgs' : List Message) (s : Progress) :
    runMetadataExchangeLoop c (msgs ++ msgs') s =
      (runMetadataExchangeLoop c msgs >>= fun _ => runMetadataExchangeLoop c msgs') s := by
  induction msgs generalizing s with
  | nil => rfl
  | cons msg msgs ih =>
    rw [cons_append, runMetadataExchangeLoop, runMetadataExchangeLoop, bind_assoc]
    cases hr : exchangeRound c msg s with
    | error e s' => rw [bind_of_error hr, bind_of_error hr]
    | ok u s' => rw [bind_of_ok hr, bind_of_ok hr]; exact ih s'

theorem sound_loop (hs : Sound s)
    (h : runMetadataExchangeLoop c msgs s = .ok () s') : Sound s' := by
  induction msgs generalizing s with
  | nil => cases h; exact hs
  | cons msg msgs ih =>
    obtain ⟨u, s1, h1, h2⟩ := bind_eq_ok.1 h
    exact ih (sound_exchangeRound hs h1) h2

theorem loop_of_ok (h : exchangeRound c msg s = .ok () s') :
    runMetadataExchangeLoop c (msg :: msgs) s = runMetadataExchangeLoop c msgs s' := by
  rw [runMetadataExchangeLoop, bind_of_ok h]

def Throughout (c : Session) (s : Progress) (msgs : List Message)
    (P : Progress → Message → Prop) : Prop :=
  ∀ pre msg post s', msgs = pre ++ msg :: post → runMetadataExchangeLoop c pre s = .ok () s' →
    P s' msg

theorem Throughout.head {P} (h : Throughout c s (msg :: msgs) P) :
    P s msg := h [] msg msgs s rfl rfl

theorem Throughout.tail {P} (h : Throughout c s (msg :: msgs) P)
    (hr : exchangeRound c msg s = .ok () s') : Throughout c s' msgs P := by
  intro pre msg' post s2 hsplit hpre
  refine h (msg :: pre) msg' post s2 (by rw [hsplit, cons_append]) ?_
  rw [loop_of_ok hr, hpre]

/-! ## Panics -/

structure InRange (c : Session) (s : Progress) (msg : Message) : Prop where
  size : IsHandshake msg → s.utmetadataID = 0 →
    ∀ ehm, ExtendedHandshakeMsg.Decode c.env msg.extendedPayload = .ok ehm →
      ehm.id ExtendedMessageNameMetadata ≠ 0 → Allocates ehm.metadataSize.toInt
  index : IsMetadata msg → ∀ l, s.pieces = some l →
    ∀ um, UtMetadataExtendedMsg.DecodeFromPayload c.env msg.extendedPayload = .ok um →
      um.msgType = UtMetadataExtendedMsgTypeData →
        (0 ≤ um.piece.toInt ∧ um.piece.toInt < l.length) ∨ um.data.length ≠ BlockSize ∨
          (um.piece.toInt = -1 ∧ s.metadataSize < -16384)

theorem pieceLen_out {n size i len} (hn : 0 ≤ n) (hsize : n = numPieces size) (hlen : 0 ≤ len)
    (hi : ¬ (0 ≤ i ∧ i < n)) :
    len = pieceLen n size i ↔ len = BlockSize ∧ ¬ (i = -1 ∧ size < -16384) := by
  have hzero := numPieces_eq_zero_iff size
  unfold pieceLen
  by_cases hlast : i = n - 1
  · -- the number before the first one, of an empty table
    obtain rfl : n = 0 := by omega
    rcases hzero.1 hsize.symm with rfl | ⟨h1, h2⟩
    · simp
    · have hrem : size.tmod BlockSize < 0 := by
        rw [← neg_neg size, Int.neg_tmod, Int.tmod_eq_emod_of_nonneg (by omega), BlockSize]
        omega
      rw [if_pos ⟨hlast, hrem.ne⟩]
      constructor
      · intro h; omega
      · rintro ⟨-, h⟩; exact absurd ⟨by omega, h2⟩ h
  · rw [if_neg fun h => hlast h.1]
    have hne : ¬ (i = -1 ∧ size < -16384) := by
      rintro ⟨rfl, hlt⟩
      have hnn := (numPieces_nonneg_iff size).1 (hsize ▸ hn)
      have := hzero.2 (.inr ⟨hnn.1, hlt⟩)
      omega
    exact ⟨fun h => ⟨h, hne⟩, fun h => h.1⟩

theorem Outcome.not_inRange (hs : Sound s) (h : Outcome c s msg (.error .panic s')) :
    ¬ InRange c s msg := by
  intro hr
  cases h with
  | sizePanics ehm hh hid hd hut hsize => exact hsize (hr.size hh hid ehm hd hut)
  | indexPanics l um hp hb hrange =>
    obtain ⟨-, hn, hsize⟩ := hs.table l hp
    have hout := (pieceLen_out (by omega) hsize (by omega) (hn ▸ hrange)).1 hb.len
    rcases hr.index hb.isMetadata l hp um hb.decode hb.type with h | h | h
    · exact hrange h
    · exact h (by exact_mod_cast hout.1)
    · exact hout.2 h

theorem exchangeRound_panics (hs : Sound s) (h : ¬ InRange c s msg) :
    ∃ s', exchangeRound c msg s = .error .panic s' := by
  by_contra hno
  refine h ⟨fun hh hid ehm hd hut => ?_, fun hm l hp um hd htype => ?_⟩
  · by_contra hsize
    have hpanic := handshake_panics hid hd hut hsize
    rw [← handleMessage_handshake hh] at hpanic
    exact hno ⟨_, exchangeRound_error_iff.2 ⟨hh.1, hpanic⟩⟩
  · by_contra hout
    push Not at hout
    obtain ⟨-, hn, hsize⟩ := hs.table l hp
    have hrange : ¬ (0 ≤ um.piece.toInt ∧ um.piece.toInt < l.length) :=
      fun h => absurd h.2 (not_lt.2 (hout.1 h.1))
    have hlen : (um.data.length : ℤ) = pieceLen s.piecesNum s.metadataSize um.piece.toInt :=
      (pieceLen_out (by omega) hsize (by omega) (hn ▸ hrange)).2
        ⟨by rw [hout.2.1], fun h => absurd h.2 (not_lt.2 (hout.2.2 h.1))⟩
    have hpanic := metadata_panics hp ⟨hm, hd, htype, hlen⟩ hrange
    rw [← handleMessage_metadata hm] at hpanic
    exact hno ⟨_, exchangeRound_error_iff.2 ⟨hm.1, hpanic⟩⟩

theorem loop_returns (hs : Sound s) (h : Throughout c s msgs (InRange c))
    (s' : Progress) : runMetadataExchangeLoop c msgs s ≠ .error .panic s' := by
  induction msgs generalizing s with
  | nil => exact fun h => nomatch h
  | cons msg msgs ih =>
    cases hr : exchangeRound c msg s with
    | ok u s1 =>
      rw [loop_of_ok hr]
      exact ih (sound_exchangeRound hs hr) (h.tail hr)
    | error e s1 =>
      rw [runMetadataExchangeLoop, bind_of_error hr]
      rintro ⟨⟩
      obtain ⟨hk, hm⟩ := exchangeRound_error_iff.1 hr
      exact (hm ▸ handleMessage_outcome c s hk).not_inRange hs h.head

/-- **The download returns on messages in range.** -/
theorem loop_returns_iff (c : Session) (msgs : List Message) :
    (∀ s, runMetadataExchangeLoop c msgs {} ≠ .error .panic s) ↔
      Throughout c {} msgs (InRange c) := by
  constructor
  · intro h pre msg post s hsplit hpre
    by_contra hr
    obtain ⟨s', hpanic⟩ := exchangeRound_panics (sound_loop sound_start hpre) hr
    refine h s' ?_
    rw [hsplit, loop_append, bind_of_ok hpre, runMetadataExchangeLoop, bind_of_error hpanic]
  · exact fun h s => loop_returns sound_start h s

def sampleSession : Session where
  env := sampleExtEnv
  sha1 := fun _ => Hash.zero
  ondht := false
  remoteAddr := utf8 "127.0.0.1:6881"
  peerID := Hash.zero
  host := utf8 "127.0.0.1"
  port := 6881
  infohash := Hash.zero

def negativeOffer : Message :=
  extendedMsg ExtendedIDHandshake (utf8 "d1:md11:ut_metadatai1ee13:metadata_sizei-16384ee")

def byteOffer : Message :=
  extendedMsg ExtendedIDHandshake (utf8 "d1:md11:ut_metadatai1ee13:metadata_sizei1ee")

def secondBlock : Message :=
  extendedMsg 1 (utf8 "d8:msg_typei1e5:piecei1ee" ++ replicate BlockSize 0)

def offered (size : Int64) : ExtendedHandshakeMsg where
  m := [(ExtendedMessageNameMetadata, 1)]
  v := []
  reqq := 0
  port := 0
  ipv6 := []
  ipv4 := []
  yourIP := []
  metadataSize := size

theorem decode_byteOffer : Decode sampleExtEnv
    byteOffer.extendedPayload = .ok (offered 1) :=
  except_eq_ok (by decide +kernel)

theorem decode_secondBlock : DecodeFromPayload sampleExtEnv
    secondBlock.extendedPayload = .ok ⟨1, 1, 0, replicate BlockSize 0⟩ := by
  have hempty : DecodeFromPayload sampleExtEnv
      (utf8 "d8:msg_typei1e5:piecei1ee") = .ok ⟨1, 1, 0, []⟩ := except_eq_ok (by decide +kernel)
  exact decodeFromPayload_append hempty (replicate BlockSize 0)

theorem loop_panics :
    (∃ s, runMetadataExchangeLoop sampleSession [negativeOffer] {} = .error .panic s) ∧
      ∃ s, runMetadataExchangeLoop sampleSession [byteOffer, secondBlock] {} = .error .panic s := by
  have hone : Allocates (offered 1).metadataSize.toInt := by unfold Allocates maxAlloc; decide
  constructor
  · have hneg : ¬ InRange sampleSession {} negativeOffer := fun h =>
      absurd rfl (h.size ⟨rfl, rfl, rfl⟩ rfl (offered (-16384))
        (except_eq_ok (by decide +kernel)) (by decide +kernel)).2.1
    obtain ⟨s, hpanic⟩ := exchangeRound_panics sound_start hneg
    exact ⟨s, bind_of_error hpanic⟩
  · have hhs : IsHandshake byteOffer := ⟨rfl, rfl, rfl⟩
    have hid : ({} : Progress).utmetadataID = 0 := rfl
    obtain ⟨requests, hok⟩ : ∃ requests, processExtendedHandshake sampleSession byteOffer {} = _ :=
      handshake_allocates hid decode_byteOffer (by decide +kernel) hone
    rw [← handleMessage_handshake hhs] at hok
    have hround := exchangeRound_ok_iff.2 (Or.inr ⟨hhs.1, _, hok, rfl⟩)
    have hsound := sound_exchangeRound sound_start hround
    obtain ⟨s, hpanic⟩ : ∃ s, exchangeRound sampleSession secondBlock _ = .error .panic s := by
      refine exchangeRound_panics hsound fun h => ?_
      rcases h.index ⟨rfl, rfl, rfl⟩ [[]] rfl _ decode_secondBlock rfl with h | h | h
      · exact absurd h.2 (by decide)
      · exact h length_replicate
      · exact absurd h.1 (by decide)
    refine ⟨s, ?_⟩
    rw [runMetadataExchangeLoop, bind_of_ok hround]
    exact bind_of_error hpanic

end GoI2pBt.Downloader
