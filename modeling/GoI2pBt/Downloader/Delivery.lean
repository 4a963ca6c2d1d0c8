/-
  When the metadata is delivered once; what is delivered is checked.
-/
import GoI2pBt.Downloader.Torrent
import GoI2pBt.Lib.Segments

namespace GoI2pBt.Downloader

open List PeerProtocol
open Metainfo (Hash)

variable {c : Session} {s s' : Progress} {msg : Message} {msgs : List Message} {l l' : List Bytes}
  {metadata : Bytes}

/-! ## Blocks -/

def blockCount (metadata : Bytes) : ℕ := (metadata.length + 16383) / 16384

def block (metadata : Bytes) (i : ℕ) : Bytes := slice metadata (i * BlockSize) BlockSize

theorem flatten_blocks (metadata : Bytes) (k : ℕ) :
    ((range k).map (block metadata)).flatten = metadata.take (k * BlockSize) := by
  induction k with
  | zero => simp
  | succ k ih =>
    rw [range_succ, map_append, flatten_append, ih, Nat.succ_mul, take_add]
    simp [block, slice]

theorem length_block (metadata : Bytes) (i : ℕ) :
    (block metadata i).length = min BlockSize (metadata.length - i * BlockSize) := by
  rw [block, slice, length_take, length_drop]

theorem block_ne_nil {i} (hi : i < blockCount metadata) : block metadata i ≠ [] := by
  rw [← length_pos_iff, length_block, BlockSize]
  unfold blockCount at hi
  omega

theorem numPieces_length (metadata : Bytes) : numPieces metadata.length = blockCount metadata := by
  rw [numPieces_eq, blockCount]
  split_ifs <;> omega

theorem length_block_eq {i} (hi : i < blockCount metadata) : ((block metadata i).length : ℤ) =
    pieceLen (blockCount metadata) metadata.length i := by
  unfold pieceLen
  rw [length_block, Int.tmod_eq_emod_of_nonneg (by omega), BlockSize]
  unfold blockCount at hi ⊢
  split_ifs <;> omega

def Filled (metadata : Bytes) (l : List Bytes) : Prop :=
  l.length = blockCount metadata ∧ ∀ i b, l[i]? = some b → b = [] ∨ b = block metadata i

theorem Filled.flatten (h : Filled metadata l) (hc : isMetadataComplete l) :
    l.flatten = metadata := by
  have hl : l = (range (blockCount metadata)).map (block metadata) := by
    refine ext_getElem (by simp [h.1]) fun i h1 h2 => ?_
    have hne : l[i] ≠ [] := by
      have := all_eq_true.1 hc _ (getElem_mem h1)
      simpa using this
    have := (h.2 i _ (getElem?_eq_getElem h1)).resolve_left hne
    simpa using this
  rw [hl, flatten_blocks, take_of_length_le]
  unfold blockCount BlockSize
  omega

/-! ## The table after a message -/

inductive Leaves (c : Session) (s : Progress) (msg : Message) (l : List Bytes) : List Bytes → Prop
  | other (hh : ¬ IsHandshake msg) (hm : ¬ IsMetadata msg) : Leaves c s msg l l
  | noData (um : UtMetadataExtendedMsg) (hm : IsMetadata msg)
      (hd : UtMetadataExtendedMsg.DecodeFromPayload c.env msg.extendedPayload = .ok um)
      (htype : um.msgType ≠ UtMetadataExtendedMsgTypeData) : Leaves c s msg l l
  | data (um : UtMetadataExtendedMsg) (hb : Brings c s msg um)
      (hrange : 0 ≤ um.piece.toInt ∧ um.piece.toInt < l.length) :
    Leaves c s msg l (l.set um.piece.toInt.toNat um.data)

structure SameOffer (s s' : Progress) : Prop where
  piecesNum : s'.piecesNum = s.piecesNum
  metadataSize : s'.metadataSize = s.metadataSize

theorem leaves_of_handleMessage (hs : Sound s) (hp : s.pieces = some l)
    (hk : msg.keepalive = false) (h : handleMessage c msg s = .ok () s') :
    SameOffer s s' ∧ ∃ l', Leaves c s msg l l' ∧ s'.pieces = some l' := by
  have ho : Outcome c s msg (.ok () s') := h ▸ handleMessage_outcome c s hk
  cases ho with
  | other nodes hh hm => exact ⟨⟨rfl, rfl⟩, l, .other hh hm, hp⟩
  | started ehm requests hh hid hd hut hsize => exact absurd hid (hs.table l hp).1
  | early hm hnone => rw [hp] at hnone; cases hnone
  | noData l1 um hm hp1 hd htype => exact ⟨⟨rfl, rfl⟩, l, .noData um hm hd htype, hp⟩
  | stored l1 um hp1 hb hrange =>
    rw [hp] at hp1
    cases hp1
    exact ⟨⟨rfl, rfl⟩, _, .data um hb hrange, rfl⟩

theorem Leaves.handleMessage (h : Leaves c s msg l l') (hp : s.pieces = some l)
    (hk : msg.keepalive = false) :
    ∃ s', Downloader.handleMessage c msg s = .ok () s' ∧ s'.pieces = some l' := by
  cases h with
  | other hh hm =>
    obtain ⟨nodes, hok⟩ := handleMessage_other hk hh hm
    exact ⟨_, hok, hp⟩
  | noData um hm hd htype =>
    rw [handleMessage_metadata hm]
    exact ⟨s, metadata_other hp hd htype, hp⟩
  | data um hb hrange =>
    rw [handleMessage_metadata hb.isMetadata]
    exact ⟨_, metadata_stored hp hb hrange, rfl⟩

theorem responses_handleMessage (hk : msg.keepalive = false)
    (h : handleMessage c msg s = .ok () s') : s'.responses = s.responses :=
  (h ▸ handleMessage_outcome c s hk : Outcome c s msg (.ok () s')).responses

def Quiet (c : Session) (s : Progress) (msg : Message) : Prop :=
  msg.keepalive = false → ∀ l l', s.pieces = some l → Leaves c s msg l l' → ¬ Matches c l'

theorem responses_round (h : exchangeRound c msg s = .ok () s') :
    ∃ rs, s'.responses = s.responses ++ rs ∧ rs.length ≤ 1 ∧
      ∀ r ∈ rs, c.infohash = c.sha1 r.infoBytes := by
  rcases exchangeRound_ok_iff.1 h with ⟨-, rfl⟩ | ⟨hk, s1, h1, rfl⟩
  · exact ⟨[], by simp⟩
  · refine ⟨delivered c s1.pieces, by rw [responses_handleMessage hk h1], ?_⟩
    rcases s1.pieces with _ | l
    · exact ⟨zero_le, fun r hr => absurd hr not_mem_nil⟩
    · rw [delivered]
      split_ifs with hm
      · refine ⟨le_rfl, fun r hr => ?_⟩
        rw [mem_singleton.1 hr]
        exact hm.2
      · exact ⟨zero_le, fun r hr => absurd hr not_mem_nil⟩

theorem responses_quiet (hs : Sound s) (hr : s.responses ≠ []) (hq : Quiet c s msg)
    (h : exchangeRound c msg s = .ok () s') : s'.responses = s.responses := by
  rcases exchangeRound_ok_iff.1 h with ⟨-, rfl⟩ | ⟨hk, s1, h1, rfl⟩
  · rfl
  · obtain ⟨l, hp⟩ : ∃ l, s.pieces = some l := by
      cases hp : s.pieces with
      | none => exact absurd (hs.start hp).2 hr
      | some l => exact ⟨l, rfl⟩
    obtain ⟨-, l', hl, hp'⟩ := leaves_of_handleMessage hs hp hk h1
    change s1.responses ++ delivered c s1.pieces = s.responses
    rw [responses_handleMessage hk h1, hp', delivered, if_neg (hq hk l l' hp hl), append_nil]

theorem responses_not_quiet (hq : ¬ Quiet c s msg) :
    ∃ s' r, exchangeRound c msg s = .ok () s' ∧ s'.responses = s.responses ++ [r] := by
  simp only [Quiet, not_forall, not_not] at hq
  obtain ⟨hk, l, l', hp, hl, hm⟩ := hq
  obtain ⟨s1, h1, hp'⟩ := hl.handleMessage hp hk
  refine ⟨_, response c l', exchangeRound_ok_iff.2 (.inr ⟨hk, s1, h1, rfl⟩), ?_⟩
  change s1.responses ++ delivered c s1.pieces = _
  rw [responses_handleMessage hk h1, hp', delivered, if_pos hm]

/-! ## Whole downloads -/

def final : EStateM.Result Stop Progress Unit → Progress
  | .ok _ s => s
  | .error _ s => s

def responses (c : Session) (msgs : List Message) : List TorrentResponse :=
  (final (runMetadataExchangeLoop c msgs {})).responses

theorem responses_error {e} (h : exchangeRound c msg s = .error e s') :
    s'.responses = s.responses := by
  obtain ⟨hk, hm⟩ := exchangeRound_error_iff.1 h
  exact (hm ▸ handleMessage_outcome c s hk : Outcome c s msg (.error e s')).responses

theorem loop_of_error {e} (h : exchangeRound c msg s = .error e s') :
    (final (runMetadataExchangeLoop c (msg :: msgs) s)).responses = s.responses := by
  rw [runMetadataExchangeLoop, bind_of_error h]
  exact responses_error h

theorem loop_responses (c : Session) (msgs : List Message) (s : Progress) :
    ∃ rs, (final (runMetadataExchangeLoop c msgs s)).responses = s.responses ++ rs ∧
      ∀ r ∈ rs, c.infohash = c.sha1 r.infoBytes := by
  induction msgs generalizing s with
  | nil => exact ⟨[], by simp [final, runMetadataExchangeLoop]⟩
  | cons msg msgs ih =>
    cases h : exchangeRound c msg s with
    | error e s' => exact ⟨[], by simp [loop_of_error h]⟩
    | ok u s' =>
      obtain ⟨rs, hrs, -, hhash⟩ := responses_round h
      obtain ⟨rs', hrs', hhash'⟩ := ih s'
      refine ⟨rs ++ rs', by rw [loop_of_ok h, hrs', hrs, append_assoc], fun r hr => ?_⟩
      rcases mem_append.1 hr with hr | hr
      · exact hhash r hr
      · exact hhash' r hr

theorem length_responses_le_one (hs : Sound s) (hlen : s.responses.length ≤ 1)
    (h : Throughout c s msgs fun s msg => s.responses ≠ [] → Quiet c s msg) :
    (final (runMetadataExchangeLoop c msgs s)).responses.length ≤ 1 := by
  induction msgs generalizing s with
  | nil => exact hlen
  | cons msg msgs ih =>
    cases hr : exchangeRound c msg s with
    | error e s' => rwa [loop_of_error hr]
    | ok u s' =>
      rw [loop_of_ok hr]
      refine ih (sound_exchangeRound hs hr) ?_ (h.tail hr)
      by_cases hnil : s.responses = []
      · obtain ⟨rs, hrs, hle, -⟩ := responses_round hr
        rw [hrs, hnil]
        exact hle
      · rw [responses_quiet hs hnil (h.head hnil) hr]
        exact hlen

theorem quiet_of_length_le_one (h : (responses c msgs).length ≤ 1) :
    Throughout c {} msgs fun s msg => s.responses ≠ [] → Quiet c s msg := by
  intro pre msg post s hsplit hpre hne
  by_contra hq
  obtain ⟨s', r, hr, hrs⟩ := responses_not_quiet hq
  obtain ⟨rs, hrs', -⟩ := loop_responses c post s'
  have hpos := length_pos_iff.2 hne
  rw [responses, hsplit, loop_append, bind_of_ok hpre, loop_of_ok hr, hrs', hrs] at h
  simp only [length_append, length_singleton] at h
  omega

/-! ## Peers that serve the metadata -/

def Offers (c : Session) (metadata : Bytes) (msg : Message) : Prop :=
  IsHandshake msg ∧ ∃ ehm, ExtendedHandshakeMsg.Decode c.env msg.extendedPayload = .ok ehm ∧
    ehm.id ExtendedMessageNameMetadata ≠ 0 ∧ ehm.metadataSize.toInt = metadata.length

def Carries (c : Session) (metadata : Bytes) (msg : Message) (i : ℕ) : Prop :=
  IsMetadata msg ∧ ∃ um, UtMetadataExtendedMsg.DecodeFromPayload c.env msg.extendedPayload = .ok um ∧
    um.msgType = UtMetadataExtendedMsgTypeData ∧ um.piece.toInt = i ∧ um.data = block metadata i

def Serves (c : Session) (metadata : Bytes) (msg : Message) : Prop :=
  IsMetadata msg → (∃ i < blockCount metadata, Carries c metadata msg i) ∨
    ∃ um, UtMetadataExtendedMsg.DecodeFromPayload c.env msg.extendedPayload = .ok um ∧
      um.msgType ≠ UtMetadataExtendedMsgTypeData

def Conforms (c : Session) (metadata : Bytes) (msgs : List Message) : Prop :=
  c.sha1 metadata = c.infohash ∧ metadata.length ≤ maxAlloc ∧
    ∃ pre offer post, msgs = pre ++ offer :: post ∧ (∀ msg ∈ pre, ¬ IsHandshake msg) ∧
      Offers c metadata offer ∧ (∀ msg ∈ post, Serves c metadata msg) ∧
      ∀ i < blockCount metadata, ∃ msg ∈ post, Carries c metadata msg i

theorem round_before_offer (hh : ¬ IsHandshake msg) (hp : s.pieces = none) :
    ∃ s', exchangeRound c msg s = .ok () s' ∧ s'.pieces = none ∧
      s'.responses = s.responses ∧ s'.utmetadataID = s.utmetadataID := by
  cases hk : msg.keepalive with
  | true => exact ⟨s, exchangeRound_ok_iff.2 (.inl ⟨hk, rfl⟩), hp, rfl, rfl⟩
  | false =>
    obtain ⟨nodes, hok⟩ : ∃ nodes, handleMessage c msg s = .ok () { s with nodes } := by
      by_cases hm : IsMetadata msg
      · rw [handleMessage_metadata hm]
        exact ⟨s.nodes, metadata_early hp⟩
      · exact handleMessage_other hk hh hm
    refine ⟨_, exchangeRound_ok_iff.2 (.inr ⟨hk, _, hok, rfl⟩), hp, ?_, rfl⟩
    change s.responses ++ delivered c s.pieces = s.responses
    rw [hp]
    exact append_nil _

theorem loop_before_offer (hpre : ∀ msg ∈ msgs, ¬ IsHandshake msg) (hp : s.pieces = none) :
    ∃ s', runMetadataExchangeLoop c msgs s = .ok () s' ∧ s'.pieces = none ∧
      s'.responses = s.responses ∧ s'.utmetadataID = s.utmetadataID := by
  induction msgs generalizing s with
  | nil => exact ⟨s, rfl, hp, rfl, rfl⟩
  | cons msg msgs ih =>
    obtain ⟨s1, h1, hp1, hr1, hid1⟩ := round_before_offer (c := c) (hpre msg mem_cons_self) hp
    obtain ⟨s', h', hp', hr', hid'⟩ := ih (fun m hm => hpre m (mem_cons_of_mem _ hm)) hp1
    exact ⟨s', by rw [loop_of_ok h1, h'], hp', hr'.trans hr1, hid'.trans hid1⟩

structure Serving (c : Session) (metadata : Bytes) (come : ℕ → Prop) (s : Progress) : Prop where
  sound : Sound s
  size : s.metadataSize = metadata.length
  table : ∃ l, s.pieces = some l ∧ Filled metadata l ∧
    (∀ i < blockCount metadata, come i → l[i]? = some (block metadata i)) ∧
    (isMetadataComplete l → s.responses ≠ [])

theorem Carries.unique {i j} (hi : Carries c metadata msg i) (hj : Carries c metadata msg j) :
    i = j := by
  obtain ⟨-, um, hd, -, hpiece, -⟩ := hi
  obtain ⟨-, um', hd', -, hpiece', -⟩ := hj
  rw [hd] at hd'
  cases hd'
  exact_mod_cast hpiece.symm.trans hpiece'

theorem Filled.set {i} (h : Filled metadata l) : Filled metadata (l.set i (block metadata i)) := by
  refine ⟨by rw [length_set, h.1], fun j b hb => ?_⟩
  rw [getElem?_set] at hb
  split_ifs at hb with hij hlen
  · cases hb
    exact .inr (by rw [hij])
  · exact h.2 j b hb

theorem leaves_of_serves (hn : s.piecesNum = blockCount metadata)
    (hsize : s.metadataSize = metadata.length) (hl : Filled metadata l)
    (hm : Serves c metadata msg) (hh : ¬ IsHandshake msg) :
    ∃ l', Leaves c s msg l l' ∧ Filled metadata l' ∧
      (∀ i < blockCount metadata, l[i]? = some (block metadata i) ∨ Carries c metadata msg i →
        l'[i]? = some (block metadata i)) := by
  by_cases hmeta : IsMetadata msg
  · rcases hm hmeta with ⟨i, hi, hcar⟩ | ⟨um, hd, htype⟩
    · obtain ⟨-, um, hd, htype, hpiece, hdata⟩ := id hcar
      have hset : l.set um.piece.toInt.toNat um.data = l.set i (block metadata i) := by
        rw [hpiece, hdata, Int.toNat_natCast]
      refine ⟨_, .data um ⟨hmeta, hd, htype, ?_⟩ ?_, ?_, fun j hj h => ?_⟩
      · rw [hdata, hpiece, hn, hsize]
        exact length_block_eq hi
      · rw [hpiece, hl.1]
        omega
      · rw [hset]
        exact hl.set
      · rw [hset, getElem?_set, hl.1]
        split_ifs with hij
        · rw [hij]
        · exact h.resolve_right fun hcar' => hij (hcar.unique hcar')
    · refine ⟨l, .noData um hmeta hd htype, hl, fun i _ h => h.resolve_right ?_⟩
      rintro ⟨-, um', hd', htype', -⟩
      rw [hd] at hd'
      cases hd'
      exact htype htype'
  · exact ⟨l, .other hh hmeta, hl, fun i _ h => h.resolve_right fun hcar => hmeta hcar.1⟩

theorem serving_round {come} (h : Serving c metadata come s)
    (hhash : c.sha1 metadata = c.infohash) (hm : Serves c metadata msg) (hh : ¬ IsHandshake msg) :
    ∃ s', exchangeRound c msg s = .ok () s' ∧
      Serving c metadata (fun i => come i ∨ Carries c metadata msg i) s' := by
  obtain ⟨l, hp, hl, hcome, hresp⟩ := h.table
  obtain ⟨-, hnum, -⟩ := h.sound.table l hp
  cases hk : msg.keepalive with
  | true =>
    have hno : ∀ i, ¬ Carries c metadata msg i := by
      rintro i ⟨hmeta, -⟩
      exact absurd hmeta.1 (by rw [hk]; decide)
    exact ⟨s, exchangeRound_ok_iff.2 (.inl ⟨hk, rfl⟩), h.sound, h.size, l, hp, hl,
      fun i hi hc => hcome i hi (hc.resolve_right (hno i)), hresp⟩
  | false =>
    obtain ⟨l', hleaves, hl', hcome'⟩ :=
      leaves_of_serves (hnum.trans (congrArg Nat.cast hl.1)) h.size hl hm hh
    obtain ⟨s1, h1, hp1⟩ := hleaves.handleMessage hp hk
    have hround := exchangeRound_ok_iff.2 (.inr ⟨hk, s1, h1, rfl⟩)
    have hsame := (leaves_of_handleMessage h.sound hp hk h1).1
    refine ⟨_, hround, sound_exchangeRound h.sound hround, hsame.metadataSize.trans h.size, l', hp1,
      hl', fun i hi hc => hcome' i hi (hc.imp_left (hcome i hi)), fun hcomplete => ?_⟩
    have hmatch : Matches c l' := ⟨hcomplete, by rw [hl'.flatten hcomplete, hhash]⟩
    change s1.responses ++ delivered c s1.pieces ≠ []
    rw [hp1, delivered, if_pos hmatch]
    simp

theorem responses_rehandshake (hs : Sound s) (hp : s.pieces = some l) (hh : IsHandshake msg) :
    (final (runMetadataExchangeLoop c (msg :: msgs) s)).responses = s.responses := by
  have herr : processExtendedHandshake c msg s = _ := handshake_again (hs.table l hp).1
  rw [← handleMessage_handshake hh] at herr
  exact loop_of_error (exchangeRound_error_iff.2 ⟨hh.1, herr⟩)

def OneHandshake (s : Progress) (msg : Message) : Prop :=
  s.responses = [] → s.utmetadataID ≠ 0 → ¬ IsHandshake msg

theorem serving_loop {come} (h : Serving c metadata come s)
    (hhash : c.sha1 metadata = c.infohash) (hm : ∀ msg ∈ msgs, Serves c metadata msg)
    (hall : ∀ i < blockCount metadata, come i ∨ ∃ msg ∈ msgs, Carries c metadata msg i)
    (hone : Throughout c s msgs OneHandshake) :
    (final (runMetadataExchangeLoop c msgs s)).responses ≠ [] := by
  induction msgs generalizing s come with
  | nil =>
    obtain ⟨l, hp, hl, hcome, hresp⟩ := h.table
    refine hresp (all_eq_true.2 fun b hb => ?_)
    obtain ⟨i, hi, rfl⟩ := getElem_of_mem hb
    have hi' : i < blockCount metadata := hl.1 ▸ hi
    have hc : come i := (hall i hi').resolve_right (by simp)
    have hget := hcome i hi' hc
    rw [getElem?_eq_getElem hi] at hget
    rw [Option.some.inj hget]
    simpa using block_ne_nil hi'
  | cons msg msgs ih =>
    obtain ⟨l, hp, -, -, -⟩ := h.table
    by_cases hh : IsHandshake msg
    · rw [responses_rehandshake h.sound hp hh]
      intro hnil
      exact hone.head hnil (h.sound.table l hp).1 hh
    · obtain ⟨s', hround, hserving⟩ := serving_round h hhash (hm msg mem_cons_self) hh
      rw [loop_of_ok hround]
      refine ih hserving (fun m hmem => hm m (mem_cons_of_mem _ hmem)) (fun i hi => ?_)
        (hone.tail hround)
      rcases hall i hi with hc | ⟨m, hmem, hcar⟩
      · exact .inl (.inl hc)
      · rcases mem_cons.1 hmem with rfl | hmem
        · exact .inl (.inr hcar)
        · exact .inr ⟨m, hmem, hcar⟩

theorem serving_offer (hs : Sound s) (hid : s.utmetadataID = 0)
    (hhash : c.sha1 metadata = c.infohash) (hfits : metadata.length ≤ maxAlloc)
    (ho : Offers c metadata msg) :
    ∃ s', exchangeRound c msg s = .ok () s' ∧ Serving c metadata (fun _ => False) s' := by
  obtain ⟨hh, ehm, hd, hut, hsize⟩ := ho
  have halloc : Allocates ehm.metadataSize.toInt := by
    rw [hsize]
    unfold Allocates maxAlloc at *
    omega
  obtain ⟨requests, hok⟩ := handshake_allocates (c := c) hid hd hut halloc
  rw [← handleMessage_handshake hh] at hok
  have hround := exchangeRound_ok_iff.2 (.inr ⟨hh.1, _, hok, rfl⟩)
  have hnum : (numPieces ehm.metadataSize.toInt).toNat = blockCount metadata := by
    rw [hsize, numPieces_length, Int.toNat_natCast]
  have hfilled : Filled metadata
      (replicate (numPieces ehm.metadataSize.toInt).toNat []) := by
    refine ⟨by rw [length_replicate, hnum], fun i b hb => ?_⟩
    exact .inl (eq_of_mem_replicate (mem_of_getElem? hb))
  refine ⟨_, hround, sound_exchangeRound hs hround, hsize, _, rfl, hfilled,
    fun i _ h => h.elim, fun hcomplete => ?_⟩
  have hmatch : Matches c _ := ⟨hcomplete, by rw [hfilled.flatten hcomplete, hhash]⟩
  change s.responses ++ delivered c (some _) ≠ []
  rw [delivered, if_pos hmatch]
  simp

theorem delivers_of_conforms (h : Conforms c metadata msgs)
    (hone : Throughout c {} msgs OneHandshake) : responses c msgs ≠ [] := by
  obtain ⟨hhash, hfits, pre, offer, post, rfl, hpre, hoffer, hpost, hall⟩ := h
  obtain ⟨s, hloop, hp, hr, hid⟩ := loop_before_offer (c := c) (s := {}) hpre rfl
  have hs := sound_loop sound_start hloop
  obtain ⟨s', hround, hserving⟩ := serving_offer hs hid hhash hfits hoffer
  rw [responses, loop_append, bind_of_ok hloop, loop_of_ok hround]
  refine serving_loop hserving hhash hpost (fun i hi => .inr (hall i hi)) ?_
  intro pre' msg post' s2 hsplit hloop'
  refine hone (pre ++ offer :: pre') msg post' s2 (by rw [hsplit]; simp) ?_
  rw [loop_append, bind_of_ok hloop, loop_of_ok hround, hloop']

theorem oneHandshake_of_delivered (h : responses c msgs ≠ []) :
    Throughout c {} msgs OneHandshake := by
  intro pre msg post s hsplit hpre hnil hid hh
  have hs := sound_loop sound_start hpre
  cases hp : s.pieces with
  | none => exact hid (hs.start hp).1
  | some l =>
    refine h ?_
    rw [responses, hsplit, loop_append, bind_of_ok hpre, responses_rehandshake hs hp hh, hnil]

/-- **When the metadata is delivered once.** -/
theorem responses_iff (c : Session) (msgs : List Message) :
    ((responses c msgs).length ≤ 1 ∧ (∀ r ∈ responses c msgs, c.sha1 r.infoBytes = c.infohash) ∧
      ∀ metadata, Conforms c metadata msgs → (responses c msgs).length = 1) ↔
    (Throughout c {} msgs fun s msg => s.responses ≠ [] → Quiet c s msg) ∧
      ((∃ metadata, Conforms c metadata msgs) → Throughout c {} msgs OneHandshake) := by
  constructor
  · rintro ⟨hle, -, hone⟩
    refine ⟨quiet_of_length_le_one hle, ?_⟩
    rintro ⟨metadata, hconf⟩
    refine oneHandshake_of_delivered (List.length_pos_iff.1 ?_)
    rw [hone metadata hconf]
    exact Nat.one_pos
  · rintro ⟨hquiet, hone⟩
    have hle : (responses c msgs).length ≤ 1 :=
      length_responses_le_one sound_start zero_le hquiet
    refine ⟨hle, fun r hr => ?_, fun metadata hconf => ?_⟩
    · obtain ⟨rs, hrs, hhash⟩ := loop_responses c msgs {}
      exact (hhash r (by rwa [responses, hrs] at hr)).symm
    · have hne := delivers_of_conforms hconf (hone ⟨metadata, hconf⟩)
      have hpos := List.length_pos_iff.2 hne
      omega

def onlyBlock : Message := extendedMsg 1 (utf8 "d8:msg_typei1e5:piecei0ee" ++ [0])

def choke : Message := { extendedMsg 0 [] with type := MTypeChoke }

theorem decode_onlyBlock : UtMetadataExtendedMsg.DecodeFromPayload sampleExtEnv
    onlyBlock.extendedPayload = .ok ⟨1, 0, 0, [0]⟩ := except_eq_ok (by decide +kernel)

def byteSession (sha1 : Bytes → Hash) : Session := { sampleSession with sha1, infohash := sha1 [0] }

theorem delivered_twice : ∃ msgs, ∀ sha1 : Bytes → Hash,
    Conforms (byteSession sha1) [0] msgs ∧ 1 < (responses (byteSession sha1) msgs).length := by
  refine ⟨[byteOffer, onlyBlock, choke], fun sha1 => ?_⟩
  have hoffer : Offers (byteSession sha1) [0] byteOffer :=
    ⟨⟨rfl, rfl, rfl⟩, _, decode_byteOffer, by decide +kernel, rfl⟩
  have hcarries : Carries (byteSession sha1) [0] onlyBlock 0 :=
    ⟨⟨rfl, rfl, rfl⟩, _, decode_onlyBlock, rfl, rfl, rfl⟩
  have hchoke : ¬ IsHandshake choke ∧ ¬ IsMetadata choke :=
    ⟨fun h => absurd h.2.1 (by decide), fun h => absurd h.2.1 (by decide)⟩
  have hserves : Serves (byteSession sha1) [0] onlyBlock := fun _ => .inl ⟨0, by decide, hcarries⟩
  have hfits : ([0] : Bytes).length ≤ maxAlloc := by unfold maxAlloc; decide
  constructor
  · refine ⟨rfl, hfits, [], byteOffer, [onlyBlock, choke], rfl, by simp, hoffer, ?_, ?_⟩
    · intro msg hmsg
      rcases List.mem_cons.1 hmsg with rfl | hmsg
      · exact hserves
      · rw [List.mem_singleton.1 hmsg]
        exact fun h => absurd h hchoke.2
    · intro i hi
      obtain rfl : i = 0 := by simpa [blockCount] using hi
      exact ⟨onlyBlock, mem_cons_self, hcarries⟩
  · obtain ⟨s₁, hround₁, hserv₁⟩ := serving_offer sound_start rfl rfl hfits hoffer
    have honly : ¬ IsHandshake onlyBlock := fun h => absurd h.2.2 (by decide)
    obtain ⟨s₂, hround₂, hserv₂⟩ := serving_round hserv₁ rfl hserves honly
    obtain ⟨l, hp, hl, hcome, hresp⟩ := hserv₂.table
    have hl₀ : l = [[0]] := by
      have hget := hcome 0 (by decide) (.inr hcarries)
      refine ext_getElem? fun i => ?_
      rcases i with _ | i
      · exact hget
      · rw [List.getElem?_eq_none (by rw [hl.1]; exact Nat.le_add_left 1 i),
          List.getElem?_eq_none (Nat.le_add_left 1 i)]
    subst hl₀
    by_contra hle
    refine quiet_of_length_le_one (not_lt.1 hle) [byteOffer, onlyBlock] choke [] s₂ rfl ?_
      (hresp rfl) rfl _ _ hp (.other hchoke.1 hchoke.2) ⟨rfl, rfl⟩
    rw [loop_of_ok hround₁, loop_of_ok hround₂]
    rfl

end GoI2pBt.Downloader
