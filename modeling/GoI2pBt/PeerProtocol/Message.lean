/-
  The messages between peers, written and read back.
-/
import GoI2pBt.Lib.Limited

namespace GoI2pBt.PeerProtocol

open List Limited

/-! ## Message types -/

abbrev MessageType := UInt8

@[simp] abbrev MTypeChoke : MessageType := 0
@[simp] abbrev MTypeUnchoke : MessageType := 1
@[simp] abbrev MTypeInterested : MessageType := 2
@[simp] abbrev MTypeNotInterested : MessageType := 3
@[simp] abbrev MTypeHave : MessageType := 4
@[simp] abbrev MTypeBitField : MessageType := 5
@[simp] abbrev MTypeRequest : MessageType := 6
@[simp] abbrev MTypePiece : MessageType := 7
@[simp] abbrev MTypeCancel : MessageType := 8
@[simp] abbrev MTypePort : MessageType := 9
@[simp] abbrev MTypeSuggest : MessageType := 0x0d
@[simp] abbrev MTypeHaveAll : MessageType := 0x0e
@[simp] abbrev MTypeHaveNone : MessageType := 0x0f
@[simp] abbrev MTypeReject : MessageType := 0x10
@[simp] abbrev MTypeAllowedFast : MessageType := 0x11
@[simp] abbrev MTypeExtended : MessageType := 20

def definedTypes : List MessageType :=
  [MTypeChoke, MTypeUnchoke, MTypeInterested, MTypeNotInterested, MTypeHave, MTypeBitField,
    MTypeRequest, MTypePiece, MTypeCancel, MTypePort, MTypeSuggest, MTypeHaveAll, MTypeHaveNone,
    MTypeReject, MTypeAllowedFast, MTypeExtended]

structure Message where
  keepalive : Bool
  type : MessageType
  index : UInt32
  begin : UInt32
  length : UInt32
  piece : Bytes
  bitField : Bytes
  extendedID : UInt8
  extendedPayload : Bytes
  port : UInt16
  unknownTypePayload : Bytes
deriving DecidableEq

namespace Message

/-! ## Decoding -/

inductive DecodeErr where
  | stream (err : StreamErr)
  /-- `reading length error: %s` -/
  | readingLength (err : StreamErr)
  /-- `errMessageTooLong` -/
  | tooLong
  /-- `reading piece data error: %s` -/
  | readingPiece (err : StreamErr)
  /-- `%d bytes unused in message type %d` -/
  | unused (n : ℕ) (type : MessageType)
deriving DecidableEq, Repr

abbrev DecodeM := EStateM DecodeErr Limited

def readByte : DecodeM UInt8 := do return UInt8.ofNat (← readUint .stream 1)

def readUint32 : DecodeM UInt32 := do return UInt32.ofNat (← readUint .stream 4)

def decodeIndexOnlyMessage (m : Message) : DecodeM Message := do
  return { m with index := ← readUint32 }

def decodeRequestLikeMessage (m : Message) : DecodeM Message := do
  let index ← readUint32
  let begin ← readUint32
  let length ← readUint32
  return { m with index, begin, length }

def decodeBitFieldMessage (m : Message) (length : ℕ) : DecodeM Message := fun s =>
  match readFull DecodeErr.stream (length - 1) s with
  | .ok bs s => .ok { m with bitField := bs } s
  | .error _ s => .ok m s

def decodePieceMessage (m : Message) : DecodeM Message := do
  let index ← readUint32
  let begin ← readUint32
  let lr ← get
  let piece ← readFull .readingPiece lr.n
  return { m with index, begin, piece }

def decodeExtendedMessage (m : Message) : DecodeM Message := do
  let extendedID ← readByte
  let extendedPayload ← readAll
  return { m with extendedID, extendedPayload }

def decodePortMessage (m : Message) : DecodeM Message := do
  return { m with port := UInt16.ofNat (← readUint .stream 2) }

def decodeUnknownMessage (m : Message) : DecodeM Message := do
  return { m with unknownTypePayload := ← readAll }

def decodeByMessageType (m : Message) (length : ℕ) : DecodeM Message :=
  if m.type ∈ [MTypeChoke, MTypeUnchoke, MTypeInterested, MTypeNotInterested,
      MTypeHaveAll, MTypeHaveNone] then
    return m
  else if m.type ∈ [MTypeHave, MTypeAllowedFast, MTypeSuggest] then m.decodeIndexOnlyMessage
  else if m.type ∈ [MTypeRequest, MTypeCancel, MTypeReject] then m.decodeRequestLikeMessage
  else if m.type = MTypeBitField then m.decodeBitFieldMessage length
  else if m.type = MTypePiece then m.decodePieceMessage
  else if m.type = MTypeExtended then m.decodeExtendedMessage
  else if m.type = MTypePort then m.decodePortMessage
  else m.decodeUnknownMessage

def decodeBody (m : Message) (length : ℕ) : DecodeM Message := do
  let type ← readByte
  decodeByMessageType { m with keepalive := false, type } length

def Decode (m : Message) (maxLength : UInt32) : EStateM DecodeErr Bytes Message := fun r =>
  -- `readMessageLength`, whose reader has no limit
  match readUint id 4 ⟨r, r.length⟩ with
  | .error .eof s => .error (.stream .eof) s.r
  | .error err s => .error (.readingLength err) s.r
  | .ok length s =>
    if length = 0 then .ok { m with keepalive := true } s.r
    else if 0 < maxLength ∧ maxLength.toNat < length then .error .tooLong s.r
    else
      match decodeBody m length ⟨s.r, length⟩ with
      | .error err s => .error err s.r
      | .ok m s => if s.n ≠ 0 then .error (.unused s.n m.type) s.r else .ok m s.r

/-! ## Encoding -/

def marshalBinaryType (m : Message) : Bytes :=
  if m.type ∈ [MTypeChoke, MTypeUnchoke, MTypeInterested, MTypeNotInterested,
      MTypeHaveAll, MTypeHaveNone] then []
  else if m.type = MTypeHave then beBytes 4 m.index.toNat
  else if m.type ∈ [MTypeRequest, MTypeCancel, MTypeReject] then
    beBytes 4 m.index.toNat ++ beBytes 4 m.begin.toNat ++ beBytes 4 m.length.toNat
  else if m.type = MTypeBitField then m.bitField
  else if m.type = MTypePiece then beBytes 4 m.index.toNat ++ beBytes 4 m.begin.toNat ++ m.piece
  else if m.type = MTypeExtended then m.extendedID :: m.extendedPayload
  else if m.type = MTypePort then beBytes 2 m.port.toNat
  else m.unknownTypePayload

def body (m : Message) : Bytes := m.type :: m.marshalBinaryType

def Encode (m : Message) : Bytes :=
  if m.keepalive then [0, 0, 0, 0] else beBytes 4 m.body.length ++ m.body

/-! ## Reading back -/

structure SameFields (m m' : Message) : Prop where
  type : m'.type = m.type
  index : m.type ∈ [MTypeCancel, MTypeRequest, MTypeHave, MTypePiece, MTypeReject, MTypeSuggest,
    MTypeAllowedFast] → m'.index = m.index
  begin : m.type ∈ [MTypeRequest, MTypeCancel, MTypePiece, MTypeReject] → m'.begin = m.begin
  length : m.type ∈ [MTypeRequest, MTypeCancel, MTypeReject] → m'.length = m.length
  piece : m.type = MTypePiece → m'.piece = m.piece
  bitField : m.type = MTypeBitField → m'.bitField = m.bitField
  extended : m.type = MTypeExtended →
    m'.extendedID = m.extendedID ∧ m'.extendedPayload = m.extendedPayload
  port : m.type = MTypePort → m'.port = m.port

def Carried (m m' : Message) : Prop :=
  m'.keepalive = m.keepalive ∧ (m.keepalive = false → SameFields m m')

def RoundTrips (m : Message) : Prop :=
  ∀ m₀ : Message, ∃ m', Decode m₀ 0 m.Encode = .ok m' [] ∧ m.Carried m'

theorem readUint32_beBytes (v : UInt32) (q : Bytes) (n : ℕ) :
    readUint32 ⟨beBytes 4 v.toNat ++ q, 4 + n⟩ = .ok v ⟨q, n⟩ := by
  rw [readUint32, bind_of_ok (readUint_beBytes v.toNat_lt q n), pure_apply, UInt32.ofNat_toNat]

theorem readByte_cons (x : UInt8) (q : Bytes) (n : ℕ) :
    readByte ⟨x :: q, 1 + n⟩ = .ok x ⟨q, n⟩ := by
  have hx : x :: q = beBytes 1 x.toNat ++ q := by simp [beBytes]
  rw [hx, readByte, bind_of_ok (readUint_beBytes x.toNat_lt q n), pure_apply, UInt8.ofNat_toNat]

section
variable (m : Message) (q : Bytes)

def ReadsAll (x : DecodeM Message) (p : Bytes) (m' : Message) : Prop :=
  ∀ q : Bytes, x ⟨p ++ q, p.length⟩ = .ok m' ⟨q, 0⟩

theorem readsAll_index (i : UInt32) :
    ReadsAll m.decodeIndexOnlyMessage (beBytes 4 i.toNat) { m with index := i } := by
  intro q
  rw [decodeIndexOnlyMessage, length_beBytes]
  exact bind_of_ok (readUint32_beBytes i q 0)

theorem readsAll_request (i b l : UInt32) : ReadsAll m.decodeRequestLikeMessage
      (beBytes 4 i.toNat ++ beBytes 4 b.toNat ++ beBytes 4 l.toNat)
      { m with index := i, begin := b, length := l } := by
  intro q
  simp only [length_append, length_beBytes, append_assoc]
  rw [decodeRequestLikeMessage, bind_of_ok (readUint32_beBytes i _ (4 + 4)),
    bind_of_ok (readUint32_beBytes b _ 4)]
  exact bind_of_ok (readUint32_beBytes l q 0)

theorem readsAll_bitField (bs : Bytes) :
    ReadsAll (m.decodeBitFieldMessage (bs.length + 1)) bs { m with bitField := bs } := by
  intro q
  have hbs : readFull DecodeErr.stream bs.length ⟨bs ++ q, bs.length⟩ = .ok bs ⟨q, 0⟩ :=
    readFull_append rfl q 0
  rw [decodeBitFieldMessage, Nat.add_sub_cancel, hbs]

theorem readsAll_piece (i b : UInt32) (piece : Bytes) :
    ReadsAll m.decodePieceMessage (beBytes 4 i.toNat ++ beBytes 4 b.toNat ++ piece)
      { m with index := i, begin := b, piece } := by
  intro q
  have hpiece : readFull DecodeErr.readingPiece piece.length ⟨piece ++ q, piece.length⟩ =
      .ok piece ⟨q, 0⟩ := readFull_append rfl q 0
  simp only [length_append, length_beBytes, append_assoc]
  rw [decodePieceMessage, bind_of_ok (readUint32_beBytes i _ _),
    bind_of_ok (readUint32_beBytes b _ _), get_bind, bind_of_ok hpiece, pure_apply]

theorem readsAll_extended (id : UInt8) (payload : Bytes) :
    ReadsAll m.decodeExtendedMessage (id :: payload)
      { m with extendedID := id, extendedPayload := payload } := by
  intro q
  rw [decodeExtendedMessage, cons_append, length_cons, add_comm,
    bind_of_ok (readByte_cons id _ _), bind_of_ok (readAll_append payload q), pure_apply]

theorem readsAll_port (port : UInt16) :
    ReadsAll m.decodePortMessage (beBytes 2 port.toNat) { m with port } := by
  intro q
  rw [decodePortMessage, length_beBytes, bind_of_ok (readUint_beBytes port.toNat_lt q 0),
    pure_apply, UInt16.ofNat_toNat]

end

def IndexPayload (m : Message) : Prop :=
  m.type ∈ [MTypeSuggest, MTypeAllowedFast] → m.unknownTypePayload = beBytes 4 m.index.toNat

instance (m : Message) : Decidable m.IndexPayload := inferInstanceAs (Decidable (_ → _))

theorem readsAll_marshal {m} (hm : m.type ∈ definedTypes) (hp : m.IndexPayload)
    (m0 : Message) (h0 : m0.type = m.type) :
    ∃ m', ReadsAll (m0.decodeByMessageType (m.marshalBinaryType.length + 1))
        m.marshalBinaryType m' ∧ m'.keepalive = m0.keepalive ∧ SameFields m m' := by
  obtain ⟨_, _, index, begin, length, piece, bitField, id, payload, port, unknown⟩ := m
  obtain ⟨⟩ := m0
  subst h0
  simp only [definedTypes, mem_cons, not_mem_nil, or_false] at hm
  obtain rfl | rfl | rfl | rfl | rfl | rfl | rfl | rfl | rfl | rfl | rfl | rfl | rfl | rfl | rfl |
    rfl := hm
  · exact ⟨_, fun _ => rfl, rfl, by constructor <;> simp⟩
  · exact ⟨_, fun _ => rfl, rfl, by constructor <;> simp⟩
  · exact ⟨_, fun _ => rfl, rfl, by constructor <;> simp⟩
  · exact ⟨_, fun _ => rfl, rfl, by constructor <;> simp⟩
  · exact ⟨_, readsAll_index _ index, rfl, by constructor <;> simp⟩
  · exact ⟨_, readsAll_bitField _ bitField, rfl, by constructor <;> simp⟩
  · exact ⟨_, readsAll_request _ index begin length, rfl, by constructor <;> simp⟩
  · exact ⟨_, readsAll_piece _ index begin piece, rfl, by constructor <;> simp⟩
  · exact ⟨_, readsAll_request _ index begin length, rfl, by constructor <;> simp⟩
  · exact ⟨_, readsAll_port _ port, rfl, by constructor <;> simp⟩
  · obtain rfl : unknown = beBytes 4 index.toNat := hp (by simp)
    exact ⟨_, readsAll_index _ index, rfl, by constructor <;> simp⟩
  · exact ⟨_, fun _ => rfl, rfl, by constructor <;> simp⟩
  · exact ⟨_, fun _ => rfl, rfl, by constructor <;> simp⟩
  · exact ⟨_, readsAll_request _ index begin length, rfl, by constructor <;> simp⟩
  · obtain rfl : unknown = beBytes 4 index.toNat := hp (by simp)
    exact ⟨_, readsAll_index _ index, rfl, by constructor <;> simp⟩
  · exact ⟨_, readsAll_extended _ id payload, rfl, by constructor <;> simp⟩

/-! ## What a successful decoding has read -/

abbrev Consumes {α : Type} (x : DecodeM α) : Prop := Accepts reading x fun _ _ => True

theorem Consumes.bind {α β : Type} {x : DecodeM α} {f : α → DecodeM β} (hx : Consumes x)
    (hf : ∀ a, Consumes (f a)) : Consumes (x >>= f) :=
  Accepts.bind hx fun a _ _ => hf a

theorem consumes_pure {α : Type} (a : α) : Consumes (pure a : DecodeM α) := accepts_pure trivial

theorem consumes_readUint (w : ℕ) : Consumes (readUint DecodeErr.stream w) :=
  (accepts_readUint w).mono fun _ _ _ => trivial

theorem consumes_readUint32 : Consumes readUint32 :=
  (consumes_readUint 4).bind fun _ => consumes_pure _

theorem consumes_readByte : Consumes readByte := (consumes_readUint 1).bind fun _ => consumes_pure _

theorem consumes_readAll : Consumes readAll := accepts_readAll.mono fun _ _ _ => trivial

theorem consumes_bitField (m : Message) (length : ℕ) :
    Consumes (m.decodeBitFieldMessage length) where
  ok h := by
    rw [decodeBitFieldMessage] at h
    split at h
    · rename_i hread
      obtain ⟨p, hp, -⟩ := (accepts_readFull _).ok hread
      cases h
      exact ⟨p, hp, trivial⟩
    · rename_i hread
      cases h
      exact ⟨_, rel_readFull_error hread, trivial⟩
  error _ := trivial

theorem consumes_decodeByMessageType (m : Message) (length : ℕ) :
    Consumes (m.decodeByMessageType length) := by
  unfold decodeByMessageType
  split_ifs
  · exact consumes_pure m
  · exact consumes_readUint32.bind fun _ => consumes_pure _
  · exact consumes_readUint32.bind fun _ => consumes_readUint32.bind fun _ =>
      consumes_readUint32.bind fun _ => consumes_pure _
  · exact m.consumes_bitField length
  · exact consumes_readUint32.bind fun _ => consumes_readUint32.bind fun _ => accepts_get fun _ =>
      Consumes.bind ((accepts_readFull _).mono fun _ _ _ => trivial) fun _ => consumes_pure _
  · exact consumes_readByte.bind fun _ => consumes_readAll.bind fun _ => consumes_pure _
  · exact (consumes_readUint 2).bind fun _ => consumes_pure _
  · exact consumes_readAll.bind fun _ => consumes_pure _

theorem consumes_decodeBody (m : Message) (length : ℕ) : Consumes (m.decodeBody length) :=
  consumes_readByte.bind fun _ => consumes_decodeByMessageType _ length

/-! ## Messages -/

theorem decode_beBytes (m : Message) (v : ℕ) (r : Bytes) : Decode m 0 (beBytes 4 v ++ r) =
      if v % 2 ^ 32 = 0 then .ok { m with keepalive := true } r
      else
        match m.decodeBody (v % 2 ^ 32) ⟨r, v % 2 ^ 32⟩ with
        | .error err s => .error err s.r
        | .ok m s => if s.n ≠ 0 then .error (.unused s.n m.type) s.r else .ok m s.r := by
  have hread : readUint id 4 ⟨beBytes 4 v ++ r, 4 + r.length⟩ = .ok (v % 2 ^ 32) ⟨r, r.length⟩ :=
    readUint_beBytes_mod 4 v r r.length
  rw [Decode, length_append, length_beBytes, hread]
  simp

theorem decode_encode {m : Message} (hk : m.keepalive = false) (hm : m.type ∈ definedTypes)
    (hlen : m.body.length < 2 ^ 32) (hp : m.IndexPayload) (m0 : Message) (q : Bytes) :
    ∃ m', Decode m0 0 (m.Encode ++ q) = .ok m' q ∧ m.Carried m' := by
  have hlen' : m.body.length = 1 + m.marshalBinaryType.length := add_comm _ _
  obtain ⟨m', hread, hk', hsame⟩ :=
    readsAll_marshal hm hp { m0 with keepalive := false, type := m.type } rfl
  have hbody : m0.decodeBody m.body.length ⟨m.body ++ q, m.body.length⟩ = .ok m' ⟨q, 0⟩ := by
    rw [decodeBody, hlen', body, cons_append, bind_of_ok (readByte_cons _ _ _),
      add_comm 1, hread q]
  refine ⟨m', ?_, hk'.trans hk.symm, fun _ => hsame⟩
  rw [Encode, hk, if_neg Bool.false_ne_true, append_assoc, decode_beBytes,
    Nat.mod_eq_of_lt hlen, if_neg (by omega), hbody]
  rfl

theorem decode_encode_keepalive {m : Message} (hk : m.keepalive = true) (m0 : Message)
    (q : Bytes) : ∃ m', Decode m0 0 (m.Encode ++ q) = .ok m' q ∧ m.Carried m' := by
  refine ⟨{ m0 with keepalive := true }, ?_, hk.symm, ?_⟩
  · rw [Encode, hk, if_pos rfl]
    exact decode_beBytes m0 0 q
  · intro h
    rw [hk] at h
    cases h

theorem decode_encode_ok {m m0 m' : Message} (hk : m.keepalive = false)
    (h : Decode m0 0 m.Encode = .ok m' []) : m.body.length < 2 ^ 32 ∧
      m0.decodeBody m.body.length ⟨m.body, m.body.length⟩ = .ok m' ⟨[], 0⟩ := by
  rw [Encode, hk, if_neg Bool.false_ne_true, decode_beBytes] at h
  split at h
  · injection h with _ hnil
    cases hnil
  · split at h
    · cases h
    · rename_i m1 s hread
      obtain ⟨p, ⟨hr, hn⟩, -⟩ := (m0.consumes_decodeBody _).ok hread
      split at h
      · cases h
      · rename_i hzero
        injection h with hm hnil
        obtain ⟨r, n⟩ := s
        dsimp only at hr hn hzero hnil
        obtain rfl : n = 0 := not_not.1 hzero
        subst hm hnil
        have hlen : m.body.length % 2 ^ 32 = m.body.length := by
          rw [hr, append_nil] at hn ⊢
          exact hn
        rw [hlen] at hread
        exact ⟨by omega, hread⟩

theorem accepts_index (m : Message) : Accepts reading m.decodeIndexOnlyMessage fun m' p =>
    m'.index = UInt32.ofNat (beNat p) ∧ p.length = 4 := by
  have hread : Accepts reading readUint32 fun i p => i = UInt32.ofNat (beNat p) ∧ p.length = 4 := by
    refine (accepts_readUint 4).bind fun v p ⟨hv, hp⟩ => accepts_pure ?_
    rw [append_nil, hv]
    exact ⟨rfl, hp⟩
  refine hread.bind fun i p ⟨hi, hp⟩ => accepts_pure ?_
  rw [append_nil]
  exact ⟨hi, hp⟩

theorem indexPayload_of_ok {m m0 m' : Message} (hsame : m.SameFields m')
    (h : m0.decodeBody m.body.length ⟨m.body, m.body.length⟩ = .ok m' ⟨[], 0⟩) :
    m.IndexPayload := by
  intro hm
  simp only [mem_cons, not_mem_nil, or_false] at hm
  have hw : m.marshalBinaryType = m.unknownTypePayload := by
    obtain ht | ht := hm <;> simp [marshalBinaryType, ht]
  have hd : ∀ l, decodeByMessageType { m0 with keepalive := false, type := m.type } l =
      decodeIndexOnlyMessage { m0 with keepalive := false, type := m.type } := by
    obtain ht | ht := hm <;> simp [decodeByMessageType, ht]
  have hindex : m'.index = m.index := hsame.index (by obtain ht | ht := hm <;> simp [ht])
  rw [decodeBody, body, hw, length_cons, add_comm, bind_of_ok (readByte_cons _ _ _), hd] at h
  obtain ⟨p, ⟨hr, -⟩, hi, hlen⟩ := (accepts_index _).ok h
  have hp : m.unknownTypePayload = p := by simpa using hr
  have hlt : beNat p < 2 ^ 32 := by
    have := beNat_lt p
    rwa [hlen] at this
  rw [hp, ← hindex, hi, UInt32.toNat_ofNat_of_lt' hlt, ← hlen, beBytes_beNat]

/-- **Which messages are read back.** -/
theorem roundTrips_iff (m : Message) (hm : m.keepalive = true ∨ m.type ∈ definedTypes) :
    m.RoundTrips ↔ m.keepalive = true ∨ m.body.length < 2 ^ 32 ∧ m.IndexPayload := by
  constructor
  · intro h
    cases hk : m.keepalive
    · obtain ⟨m', hdec, -, hsame⟩ := h m
      obtain ⟨hlen, hbody⟩ := decode_encode_ok hk hdec
      exact .inr ⟨hlen, indexPayload_of_ok (hsame hk) hbody⟩
    · exact .inl rfl
  · intro h m₀
    cases hk : m.keepalive
    · have hm := hm.resolve_left (by rw [hk]; exact Bool.false_ne_true)
      obtain ⟨hlen, hp⟩ := h.resolve_left (by rw [hk]; exact Bool.false_ne_true)
      simpa using decode_encode hk hm hlen hp m₀ []
    · simpa using decode_encode_keepalive hk m₀ []

def sampleRequest : Message :=
  { keepalive := false, type := MTypeRequest, index := 7, begin := 0, length := 16384, piece := [],
    bitField := [], extendedID := 0, extendedPayload := [], port := 0, unknownTypePayload := [] }

theorem roundTrips_sampleRequest : sampleRequest.RoundTrips :=
  (roundTrips_iff sampleRequest (.inr (by decide))).2 (.inr ⟨by decide, by decide⟩)

def sampleSuggest : Message := { sampleRequest with type := MTypeSuggest, index := 1 }

theorem sampleSuggest_lost :
    sampleSuggest.type ∈ definedTypes ∧ sampleSuggest.Encode = [0, 0, 0, 1, 0x0d] ∧
      (∀ m₀ : Message, m₀.Decode 0 sampleSuggest.Encode = .error (.stream .eof) []) ∧
      ¬ sampleSuggest.RoundTrips := by
  have hdec : ∀ m₀ : Message, m₀.Decode 0 sampleSuggest.Encode = .error (.stream .eof) [] :=
    fun m₀ => rfl
  refine ⟨by decide, by decide, hdec, fun h => ?_⟩
  obtain ⟨m', hok, -⟩ := h sampleSuggest
  rw [hdec] at hok
  cases hok

end Message

end GoI2pBt.PeerProtocol
