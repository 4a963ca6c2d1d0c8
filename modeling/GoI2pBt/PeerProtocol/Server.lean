/-
  The loop that reads the messages of a connection.
-/
import GoI2pBt.Lib.Strconv
import GoI2pBt.PeerProtocol.Message

namespace GoI2pBt.PeerProtocol

open List Limited Message

/-! ## The loop -/

def streamText : StreamErr → Bytes
  | .eof => utf8 "EOF"
  | .unexpectedEof => utf8 "unexpected EOF"

def Message.DecodeErr.text : DecodeErr → Bytes
  | .stream err => streamText err
  | .readingLength err => utf8 "reading length error: " ++ streamText err
  | .tooLong => utf8 "the peer message is too long"
  | .readingPiece err => utf8 "reading piece data error: " ++ streamText err
  | .unused n type =>
    formatUint n ++ utf8 " bytes unused in message type " ++ formatUint type.toNat

def endsLoop (err : DecodeErr) : Bool := err = .stream .eof ∨ utf8 "closed" <:+: err.text

def Message.zero : Message where
  keepalive := false
  type := 0
  index := 0
  begin := 0
  length := 0
  piece := []
  bitField := []
  extendedID := 0
  extendedPayload := []
  port := 0
  unknownTypePayload := []

inductive LoopEnd (ε : Type) where
  | closed
  | decoding (err : DecodeErr)
  | handling (err : ε)

def loopRun {σ ε : Type} (maxLength : UInt32) (handle : σ → Message → Except ε σ) :
    ℕ → σ → Bytes → σ × LoopEnd ε
  | 0, s, _ => (s, .closed)
  | fuel + 1, s, r =>
    match Decode .zero maxLength r with
    | .error err _ => if endsLoop err then (s, .closed) else (s, .decoding err)
    | .ok msg r =>
      match handle s msg with
      | .error err => (s, .handling err)
      | .ok s => loopRun maxLength handle fuel s r

/-! ## The end of a stream inside a message -/

def announced (r : Bytes) : ℕ := beNat (r.take 4)

def visibleBody (r : Bytes) : Bytes := (r.drop 4).take (announced r)

def fieldEnds (type : MessageType) : List ℕ :=
  if type ∈ [MTypeHave, MTypeAllowedFast, MTypeSuggest, MTypeExtended, MTypePort] then [0]
  else if type ∈ [MTypeRequest, MTypeCancel, MTypeReject] then [0, 4, 8]
  else if type = MTypePiece then [0, 4]
  else []

def StopsAtField : Bytes → Prop
  | [] => True
  | type :: payload => payload.length ∈ fieldEnds type

instance : DecidablePred StopsAtField
  | [] => .isTrue trivial
  | type :: payload => inferInstanceAs (Decidable (payload.length ∈ fieldEnds type))

def Eofs {α : Type} (x : DecodeM α) (s : Limited) : Prop := ∃ s', x s = .error (.stream .eof) s'

def EofAt {α : Type} (x : DecodeM α) (l : List ℕ) : Prop :=
  ∀ s : Limited, Eofs x s ↔ s.visible.length ∈ l

structure IsField {α : Type} (x : DecodeM α) (w : ℕ) : Prop where
  pos : 0 < w
  read : ∀ s : Limited, w ≤ s.visible.length → ∃ a, x s = .ok a (s.skip w)
  short : ∀ s : Limited, s.visible.length < w → ∃ s',
    x s = .error (.stream (if s.visible = [] then .eof else .unexpectedEof)) s'

section

variable {α β : Type}

theorem visible_skip (s : Limited) (k : ℕ) : (s.skip k).visible = s.visible.drop k := by
  simp only [visible, skip, drop_take]

theorem isField_readUint {w} (hw : 0 < w) : IsField (readUint DecodeErr.stream w) w where
  pos := hw
  read s h := ⟨beNat (s.visible.take w), by
    rw [readUint, bind_of_ok (a := s.visible.take w) (by rw [readFull, if_pos h]), pure_apply]⟩
  short s h := ⟨s.skip s.visible.length, by
    rw [readUint, bind_of_error]
    rw [readFull, if_neg (by omega)]⟩

theorem IsField.map {x w} (h : IsField x w) (g : α → β) : IsField (do return g (← x)) w where
  pos := h.pos
  read s hs := by
    obtain ⟨a, ha⟩ := h.read s hs
    exact ⟨g a, bind_of_ok ha⟩
  short s hs := by
    obtain ⟨s', hs'⟩ := h.short s hs
    exact ⟨s', bind_of_error hs'⟩

theorem isField_readUint32 : IsField readUint32 4 := (isField_readUint (by decide)).map _

theorem isField_readByte : IsField readByte 1 := (isField_readUint (by decide)).map _

theorem eofAt_nil {x : DecodeM α} (h : ∀ s s', x s ≠ .error (.stream .eof) s') : EofAt x [] := by
  intro s
  simp only [Eofs, not_mem_nil, iff_false]
  rintro ⟨s', hs'⟩
  exact h s s' hs'

theorem eofAt_pure (a : α) : EofAt (pure a : DecodeM α) [] := eofAt_nil (by rintro s s' ⟨⟩)

theorem eofAt_readAll_bind {f : Bytes → DecodeM α} (h : ∀ b, EofAt (f b) []) :
    EofAt (readAll >>= f) [] := by
  refine eofAt_nil fun s s' hs => ?_
  have hall : (readAll : DecodeM Bytes) s = .ok s.visible (s.skip s.visible.length) := rfl
  rw [bind_of_ok hall] at hs
  exact not_mem_nil ((h _ _).1 ⟨s', hs⟩)

theorem IsField.eofAt {x : DecodeM α} {w : ℕ} (h : IsField x w) {f : α → DecodeM β} {l : List ℕ}
    (hf : ∀ a, EofAt (f a) l) : EofAt (x >>= f) (0 :: l.map (· + w)) := by
  intro s
  have hpos := h.pos
  rw [mem_cons, length_eq_zero_iff]
  rcases lt_or_ge s.visible.length w with hlt | hge
  · obtain ⟨s', hs'⟩ := h.short s hlt
    have hnot : s.visible.length ∉ l.map (· + w) := by
      rw [mem_map]
      rintro ⟨k, -, hk⟩
      omega
    rw [Eofs, bind_of_error hs', or_iff_left hnot]
    split_ifs with hnil <;> simp [hnil]
  · obtain ⟨a, ha⟩ := h.read s hge
    have hne : s.visible ≠ [] := fun hnil => by rw [hnil] at hge; simp at hge; omega
    rw [Eofs, bind_of_ok ha, ← Eofs, hf a, visible_skip, length_drop, or_iff_right hne, mem_map]
    constructor
    · intro hmem
      exact ⟨_, hmem, by omega⟩
    · rintro ⟨k, hk, hlen⟩
      rwa [← hlen, Nat.add_sub_cancel]

end

variable (m : Message)

theorem eofAt_bitField (length : ℕ) : EofAt (m.decodeBitFieldMessage length) [] := by
  refine eofAt_nil fun s s' hs => ?_
  rw [decodeBitFieldMessage] at hs
  split at hs <;> cases hs

theorem eofAt_piece : EofAt m.decodePieceMessage [0, 4] := by
  refine isField_readUint32.eofAt fun index => isField_readUint32.eofAt (l := []) fun begin =>
    eofAt_nil fun s s' hs => ?_
  rw [get_bind] at hs
  cases hread : readFull DecodeErr.readingPiece s.n s with
  | ok b s1 => rw [bind_of_ok hread] at hs; cases hs
  | error err s1 =>
    rw [bind_of_error hread] at hs
    rw [readFull] at hread
    split at hread <;> cases hread
    cases hs

theorem eofAt_decodeByMessageType (length : ℕ) :
    EofAt (m.decodeByMessageType length) (fieldEnds m.type) := by
  have hreadAll (f : Bytes → Message) : EofAt (do return f (← readAll)) [] :=
    eofAt_readAll_bind fun _ => eofAt_pure _
  rw [decodeByMessageType]
  split_ifs with hempty hindex hrequest hbits hpiece hext hport
  · have hends : fieldEnds m.type = [] := by
      simp only [mem_cons, not_mem_nil, or_false] at hempty
      rcases hempty with h | h | h | h | h | h <;> rw [h] <;> rfl
    rw [hends]
    exact eofAt_pure m
  · have hends : fieldEnds m.type = [0] := by
      simp only [mem_cons, not_mem_nil, or_false] at hindex
      rcases hindex with h | h | h <;> rw [h] <;> rfl
    rw [hends]
    exact isField_readUint32.eofAt fun _ => eofAt_pure _
  · have hends : fieldEnds m.type = [0, 4, 8] := by
      simp only [mem_cons, not_mem_nil, or_false] at hrequest
      rcases hrequest with h | h | h <;> rw [h] <;> rfl
    rw [hends]
    exact isField_readUint32.eofAt fun _ => isField_readUint32.eofAt fun _ =>
      isField_readUint32.eofAt fun _ => eofAt_pure _
  · rw [hbits]
    exact eofAt_bitField m length
  · rw [hpiece]
    exact eofAt_piece m
  · rw [hext]
    exact isField_readByte.eofAt fun _ => eofAt_readAll_bind fun _ => eofAt_pure _
  · rw [hport]
    exact (isField_readUint (by decide)).eofAt fun _ => eofAt_pure _
  · have hends : fieldEnds m.type = [] := by
      simp only [mem_cons, not_mem_nil, or_false, not_or] at hindex hrequest
      simp [fieldEnds, hindex, hrequest, hpiece, hext, hport]
    rw [hends]
    exact hreadAll _

theorem eofs_decodeBody (length : ℕ) (s : Limited) :
    Eofs (m.decodeBody length) s ↔ StopsAtField s.visible := by
  rw [decodeBody, Eofs]
  cases hvis : s.visible with
  | nil =>
    obtain ⟨s', hs'⟩ := isField_readByte.short s (by rw [hvis]; simp)
    rw [hvis, if_pos rfl] at hs'
    rw [bind_of_error hs']
    simp [StopsAtField]
  | cons type payload =>
    have hread : readByte s = .ok type (s.skip 1) := by
      have hfull : readFull DecodeErr.stream 1 s = .ok [type] (s.skip 1) := by
        rw [readFull, hvis, if_pos (by simp)]; rfl
      have huint : readUint DecodeErr.stream 1 s = .ok (beNat [type]) (s.skip 1) := by
        rw [readUint, bind_of_ok hfull, pure_apply]
      have hone : UInt8.ofNat (beNat [type]) = type := by simp [beNat]
      rw [readByte, bind_of_ok huint, pure_apply, hone]
    rw [bind_of_ok hread, ← Eofs, eofAt_decodeByMessageType, visible_skip, hvis, StopsAtField]
    rfl

/-! ## One message -/

structure EndsCleanly (maxLength : UInt32) (r : Bytes) : Prop where
  consumed : ∀ m' r', m.Decode maxLength r = .ok m' r' → ∃ p, r = p ++ r' ∧
    p.length = 4 + announced r ∧ (0 < maxLength → announced r ≤ maxLength.toNat)
  eof : ∀ r', m.Decode maxLength r = .error (.stream .eof) r' → r = []
  loop : ∀ err r', m.Decode maxLength r = .error err r' → endsLoop err → r = []

theorem endsLoop_iff (err : DecodeErr) : endsLoop err ↔ err = .stream .eof := by
  rw [endsLoop, decide_eq_true_iff]
  refine or_iff_left_of_imp fun h => ?_
  cases err with
  | stream err | readingLength err | readingPiece err => cases err <;> revert h <;> decide
  | tooLong => revert h; decide
  | unused n type =>
    -- there is no `c` in this text
    have hc : ch 'c' ∈ DecodeErr.text (.unused n type) := h.subset (by decide)
    simp only [DecodeErr.text, mem_append] at hc
    rcases hc with (hc | hc) | hc
    · exact absurd hc (notMem_formatUint (by decide) n)
    · exact absurd hc (by decide)
    · exact absurd hc (notMem_formatUint (by decide) _)

def finishDecode : EStateM.Result DecodeErr Limited Message → EStateM.Result DecodeErr Bytes Message
  | .error err s => .error err s.r
  | .ok m s => if s.n ≠ 0 then .error (.unused s.n m.type) s.r else .ok m s.r

theorem decode_eq {maxLength r} (h : 4 ≤ r.length) : m.Decode maxLength r =
      if announced r = 0 then .ok { m with keepalive := true } (r.drop 4)
      else if 0 < maxLength ∧ maxLength.toNat < announced r then .error .tooLong (r.drop 4)
      else finishDecode (m.decodeBody (announced r) ⟨r.drop 4, announced r⟩) := by
  have hvis : visible ⟨r, r.length⟩ = r := take_length
  have hread : readUint id 4 ⟨r, r.length⟩ = .ok (announced r) ⟨r.drop 4, r.length - 4⟩ := by
    have hfull : readFull (id : StreamErr → StreamErr) 4 ⟨r, r.length⟩ =
        .ok (r.take 4) ⟨r.drop 4, r.length - 4⟩ := by
      rw [readFull, hvis, if_pos h]
      rfl
    rw [readUint, bind_of_ok hfull, pure_apply, announced]
  rw [Decode, hread]
  rfl

theorem decode_short (maxLength : UInt32) {r} (h : r.length < 4) : ∃ r', m.Decode maxLength r =
      .error (if r = [] then .stream .eof else .readingLength .unexpectedEof) r' := by
  have hvis : visible ⟨r, r.length⟩ = r := take_length
  have hread : readUint id 4 ⟨r, r.length⟩ =
      .error (if r = [] then .eof else .unexpectedEof) ⟨r.drop r.length, r.length - r.length⟩ := by
    rw [readUint, bind_of_error]
    rw [readFull, hvis, if_neg (by omega)]
    rfl
  rw [Decode, hread]
  split_ifs with hnil
  · exact ⟨_, rfl⟩
  · exact ⟨_, rfl⟩

theorem decode_consumed {maxLength r r' m'}
    (h : m.Decode maxLength r = .ok m' r') : 4 ≤ r.length ∧ ∃ p, r = p ++ r' ∧
      p.length = 4 + announced r ∧ (0 < maxLength → announced r ≤ maxLength.toNat) := by
  rcases lt_or_ge r.length 4 with hlt | hge
  · obtain ⟨r1, hr1⟩ := decode_short m maxLength hlt
    rw [h] at hr1
    cases hr1
  refine ⟨hge, ?_⟩
  rw [decode_eq m hge] at h
  split_ifs at h with hzero hlong
  · cases h
    refine ⟨r.take 4, (take_append_drop 4 r).symm, ?_, fun _ => by omega⟩
    rw [length_take, hzero]
    omega
  · have hle : 0 < maxLength → announced r ≤ maxLength.toNat := fun hpos =>
      not_lt.1 fun hlt => hlong ⟨hpos, hlt⟩
    cases hbody : m.decodeBody (announced r) ⟨r.drop 4, announced r⟩ with
    | error err s =>
      rw [hbody, finishDecode] at h
      cases h
    | ok m1 s =>
      obtain ⟨p, ⟨hr, hn⟩, -⟩ := (m.consumes_decodeBody _).ok hbody
      rw [hbody, finishDecode] at h
      split_ifs at h with hunused
      cases h
      dsimp only at hr hn
      refine ⟨r.take 4 ++ p, ?_, ?_, hle⟩
      · rw [append_assoc, ← hr, take_append_drop]
      · rw [length_append, length_take, hn]
        omega

def NotAtField (maxLength : UInt32) (r : Bytes) : Prop :=
  r.length < 4 ∨ announced r = 0 ∨ 0 < maxLength ∧ maxLength.toNat < announced r ∨
    ¬ StopsAtField (visibleBody r)

instance (maxLength : UInt32) (r : Bytes) : Decidable (NotAtField maxLength r) :=
  inferInstanceAs (Decidable (_ ∨ _))

theorem decode_eof_iff {maxLength : UInt32} {r : Bytes} (hne : r ≠ []) :
    (∃ r', m.Decode maxLength r = .error (.stream .eof) r') ↔ ¬ NotAtField maxLength r := by
  rw [NotAtField]
  rcases lt_or_ge r.length 4 with hlt | hge
  · obtain ⟨r1, hr1⟩ := decode_short m maxLength hlt
    rw [hr1, if_neg hne]
    simp [hlt]
  · have heofs := eofs_decodeBody m (announced r) ⟨r.drop 4, announced r⟩
    rw [Eofs] at heofs
    have hvis : visible ⟨r.drop 4, announced r⟩ = visibleBody r := rfl
    rw [hvis] at heofs
    rw [decode_eq m hge]
    split_ifs with hzero hlong
    · simp [hzero]
    · simp [hlong]
    · have hcond : ¬ (r.length < 4 ∨ announced r = 0 ∨
          0 < maxLength ∧ maxLength.toNat < announced r ∨ ¬ StopsAtField (visibleBody r)) ↔
          StopsAtField (visibleBody r) := by
        simp only [hzero, hlong, false_or, not_not, not_lt.2 hge]
      rw [hcond, ← heofs]
      cases hbody : m.decodeBody (announced r) ⟨r.drop 4, announced r⟩ with
      | error err s => simp [finishDecode]
      | ok m1 s =>
        rw [finishDecode]
        split_ifs <;> simp

/-- **When a cut message is not taken for the end.** -/
theorem endsCleanly_iff (maxLength : UInt32) (r : Bytes) :
    EndsCleanly m maxLength r ↔ NotAtField maxLength r := by
  by_cases hnil : r = []
  · have hcond : NotAtField maxLength r := .inl (by simp [hnil])
    exact iff_of_true
      ⟨fun m' r' h => (decode_consumed m h).2, fun _ _ => hnil, fun _ _ _ _ => hnil⟩ hcond
  · constructor
    · intro h
      by_contra hcond
      obtain ⟨r', hr'⟩ := (decode_eof_iff m hnil).2 hcond
      exact hnil (h.eof r' hr')
    · intro hcond
      have heof : ∀ r', m.Decode maxLength r = .error (.stream .eof) r' → r = [] := fun r' hr' =>
        absurd hcond ((decode_eof_iff m hnil).1 ⟨r', hr'⟩)
      refine ⟨fun m' r' h => (decode_consumed m h).2, heof, fun err r' hr' hend => ?_⟩
      rw [(endsLoop_iff err).1 hend] at hr'
      exact heof r' hr'

theorem have_cut_off : (∃ r', Message.Decode .zero 0 [0, 0, 0, 5, 4] = .error (.stream .eof) r') ∧
    (loopRun 0 (fun (_ : Unit) _ => (.ok () : Except Unit Unit)) 6 () [0, 0, 0, 5, 4]).2 =
      .closed := by
  have hdec : ∃ r', Message.Decode .zero 0 [0, 0, 0, 5, 4] = .error (.stream .eof) r' :=
    (decode_eof_iff .zero (by decide)).2 (by decide)
  have hend : endsLoop (.stream .eof) = true := rfl
  refine ⟨hdec, ?_⟩
  obtain ⟨r', hdec⟩ := hdec
  rw [loopRun, hdec]
  simp only [hend, if_true]

end GoI2pBt.PeerProtocol
