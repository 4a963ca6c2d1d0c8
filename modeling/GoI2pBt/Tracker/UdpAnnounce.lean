/-
  Announce requests between the UDP client and the UDP server.
-/
import GoI2pBt.Tracker.UdpServer

namespace GoI2pBt.Tracker

open List Metainfo Option
open Metainfo.Address (sampleNet)

/-! ## Extensions -/

def Extension.Consistent (e : Extension) : Prop := e.length.toNat = e.data.length

def extsLength (exts : List Extension) : ℕ := (exts.map fun e => 2 + e.data.length).sum

theorem Extension.Consistent.encodeTo {e : Extension} (h : e.Consistent) :
    e.EncodeTo = some (e.type :: e.length :: e.data) := by
  have hlen : UInt8.ofNat e.data.length = e.length := by rw [← h, UInt8.ofNat_toNat]
  unfold EncodeTo
  rw [hlen, if_neg (fun h => h.2 h.1), if_neg (fun h => h rfl)]

/-- A length that `EncodeTo` accepts: left out (0), or the one it writes. -/
def Extension.Encodable (e : Extension) : Prop :=
  e.length = 0 ∨ e.length = UInt8.ofNat e.data.length

theorem Extension.encodeTo_isSome_iff (e : Extension) : e.EncodeTo.isSome ↔ e.Encodable := by
  unfold EncodeTo Encodable
  dsimp only
  split_ifs with hempty hne
  · exact iff_of_true rfl (.inl hempty.1)
  · refine iff_of_false (by decide) fun h => ?_
    rcases h with h | h
    · exact hempty ⟨h, fun hlen => hne (hlen.trans h.symm)⟩
    · exact hne h.symm
  · exact iff_of_true rfl (.inr (not_not.1 hne).symm)

theorem encodeExts_isSome_iff (exts : List Extension) :
    (encodeExts exts).isSome ↔ ∀ e ∈ exts, e.Encodable := by
  induction exts with
  | nil => simp [encodeExts]
  | cons e exts ih =>
    rw [forall_mem_cons, ← ih, ← e.encodeTo_isSome_iff, encodeExts]
    cases e.EncodeTo <;> cases encodeExts exts <;> simp

theorem decodeExts_encodeExts {exts : List Extension} (h : ∀ e ∈ exts, e.Consistent) :
    ∃ b, encodeExts exts = some b ∧ b.length = extsLength exts ∧ decodeExts b = some exts := by
  induction exts with
  | nil => exact ⟨[], rfl, rfl, decodeExts_nil⟩
  | cons e exts ih =>
    obtain ⟨b, henc, hlen, hdec⟩ := ih fun e' he' => h e' (mem_cons_of_mem _ he')
    have he := h e mem_cons_self
    refine ⟨e.type :: e.length :: (e.data ++ b), ?_, ?_, ?_⟩
    · rw [encodeExts, he.encodeTo, henc]
      rfl
    · simp only [extsLength, map_cons, sum_cons, length_cons, length_append]
      rw [hlen, extsLength]
      omega
    · unfold Extension.Consistent at he
      rw [decodeExts_cons, if_pos (by rw [length_append]; omega), he, drop_left, hdec, take_left]
      rfl

theorem decodeExts_spec : ∀ {b : Bytes} {exts : List Extension}, decodeExts b = some exts →
    (∀ e ∈ exts, e.Consistent) ∧ b.length ≤ extsLength exts ∧ extsLength exts ≤ b.length + 1
  | [], _, h => by
    rw [decodeExts_nil] at h
    cases h
    exact ⟨fun e he => (nomatch he), le_rfl, zero_le⟩
  | [type], _, h => by
    rw [decodeExts_singleton] at h
    cases h
    refine ⟨fun e he => ?_, by simp [extsLength], by simp [extsLength]⟩
    rw [mem_singleton.1 he]
    rfl
  | type :: length :: rest, _, h => by
    rw [decodeExts_cons] at h
    split_ifs at h with hle
    obtain ⟨exts', hdec, rfl⟩ := map_eq_some_iff.1 h
    obtain ⟨hcons, hlo, hhi⟩ := decodeExts_spec hdec
    have htake : (rest.take length.toNat).length = length.toNat := by
      rw [length_take, Nat.min_eq_left hle]
    rw [length_drop] at hlo hhi
    refine ⟨fun e he => ?_, ?_, ?_⟩
    · rcases mem_cons.1 he with rfl | he
      · exact htake.symm
      · exact hcons e he
    · simp only [extsLength, map_cons, sum_cons, length_cons] at hlo ⊢
      omega
    · simp only [extsLength, map_cons, sum_cons, length_cons] at hhi ⊢
      omega
termination_by b => b.length

/-! ## Requests -/

def SameIP : NetAddr → NetAddr → Prop
  | .ipAddr ip zone, .ipAddr ip' zone' => to16 ip' = to16 ip ∧ zone' = zone
  | _, _ => False

def SameRequest (r r' : AnnounceRequest) : Prop :=
  r' = { r with ip := r'.ip } ∧ ∃ ip ip', r.ip = some ip ∧ r'.ip = some ip' ∧ SameIP ip ip'

def AnnounceRequest.RoundTrips (net : Net) (r : AnnounceRequest) (raddr : NetAddr) : Prop :=
  ∃ b r', r.EncodeTo net = some b ∧ decodeAnnounceRequest net raddr b = some (.ok r') ∧
    SameRequest r r'

namespace AnnounceRequest

variable {net : Net} {r r' : AnnounceRequest} {raddr : NetAddr} {ip zone b : Bytes}

def segments (r : AnnounceRequest) (ipBytes exts : Bytes) : List Bytes :=
  [r.infoHash.bytes, r.peerID.bytes, beBytes 8 r.downloaded.toUInt64.toNat,
    beBytes 8 r.left.toUInt64.toNat, beBytes 8 r.uploaded.toUInt64.toNat, beBytes 4 r.event.toNat,
    ipBytes, beBytes 4 r.key.toUInt32.toNat, beBytes 4 r.numWant.toUInt32.toNat,
    beBytes 2 r.port.toNat, exts]

theorem encodeTo_eq {addr} (hip : r.ip = some addr) : r.EncodeTo net =
    (encodeExts r.exts).map fun exts => (r.segments (encodeIP net addr) exts).flatten := by
  unfold EncodeTo
  rw [hip]
  cases encodeExts r.exts with
  | none => rfl
  | some exts => simp [segments]

/-- A request that `EncodeTo` writes without a panic. -/
def Encodable (r : AnnounceRequest) : Prop := r.ip ≠ none ∧ ∀ e ∈ r.exts, e.Encodable

theorem encodeTo_isSome_iff (net : Net) (r : AnnounceRequest) :
    (r.EncodeTo net).isSome ↔ r.Encodable := by
  rw [Encodable, ← encodeExts_isSome_iff]
  cases hip : r.ip with
  | none => simp [EncodeTo, hip]
  | some ip => simp [encodeTo_eq hip]

theorem length_segments (r : AnnounceRequest) (ipBytes exts : Bytes) :
    (r.segments ipBytes exts).flatten.length = 78 + ipBytes.length + exts.length := by
  simp [segments, r.infoHash.length_eq, r.peerID.length_eq, HashSize]
  omega

theorem drop_segments (r : AnnounceRequest) (ipBytes exts : Bytes) :
    (r.segments ipBytes exts).flatten.drop (78 + ipBytes.length) = exts := by
  have hflat : (r.segments ipBytes exts).flatten = (r.segments ipBytes []).flatten ++ exts := by
    simp [segments]
  rw [hflat, drop_left' (by rw [length_segments]; rfl)]

theorem parsed_segments (r : AnnounceRequest) {ipBytes} (exts : Bytes) {v4}
    (hw : ipBytes.length = ipWidth v4) :
    parsed (r.segments ipBytes exts).flatten v4 r.exts = { r with ip := some (.ipAddr ipBytes []) } := by
  have hih := r.infoHash.length_eq
  have hpid := r.peerID.length_eq
  have hseg : ∀ pre c post i k, r.segments ipBytes exts = pre ++ c :: post →
      pre.flatten.length = i → c.length = k → slice (r.segments ipBytes exts).flatten i k = c := by
    intro pre c post i k hsplit hi hk
    rw [hsplit, ← hi, ← hk, slice_segment]
  unfold HashSize at hih hpid
  have h0 := hseg [] _ _ 0 20 rfl rfl hih
  have h1 := hseg [_] _ _ 20 20 rfl (by simp [hih]) hpid
  have h2 := hseg [_, _] _ _ 40 8 rfl (by simp [hih, hpid]) (length_beBytes _ _)
  have h3 := hseg [_, _, _] _ _ 48 8 rfl (by simp [hih, hpid]) (length_beBytes _ _)
  have h4 := hseg [_, _, _, _] _ _ 56 8 rfl (by simp [hih, hpid]) (length_beBytes _ _)
  have h5 := hseg [_, _, _, _, _] _ _ 64 4 rfl (by simp [hih, hpid]) (length_beBytes _ _)
  have h6 := hseg [_, _, _, _, _, _] _ _ 68 (ipWidth v4) rfl (by simp [hih, hpid]) hw
  have h7 := hseg [_, _, _, _, _, _, _] _ _ (68 + ipWidth v4) 4 rfl (by simp [hih, hpid, hw]; omega)
    (length_beBytes _ _)
  have h8 := hseg [_, _, _, _, _, _, _, _] _ _ (72 + ipWidth v4) 4 rfl
    (by simp [hih, hpid, hw]; omega) (length_beBytes _ _)
  have h9 := hseg [_, _, _, _, _, _, _, _, _] _ _ (76 + ipWidth v4) 2 rfl
    (by simp [hih, hpid, hw]; omega) (length_beBytes _ _)
  unfold parsed
  rw [h0, h1, h2, h3, h4, h5, h6, h7, h8, h9]
  simp only [ofNat_be16, ofNat_be32, ofNat_be64, Int64.toInt64_toUInt64, Int32.toInt32_toUInt32,
    Hash.ofBytes_bytes]

/-! ## IPs -/

theorem string_ipAddr (h : ip.length = 4 ∨ ip.length = 16) :
    (NetAddr.ipAddr ip []).String net = ipString ip := by
  have hne : ip ≠ [] := by
    rintro rfl
    simp at h
  change zonedString ip [] = _
  rw [zonedString, if_neg hne, if_pos rfl]

theorem encodeIP_short (h : ip.length = 4 ∨ ip.length = 16) (hshort : (ipString ip).length < 31) :
    encodeIP net (.ipAddr ip []) = if to4 ip ≠ [] then to4 ip else to16 ip := by
  unfold encodeIP
  rw [string_ipAddr h, if_pos hshort, parseIP_ipString h, getD_some]
  dsimp only
  rw [to4_to16 h]

theorem encodeIP_long (h : ip.length = 4 ∨ ip.length = 16) (hlong : ¬ (ipString ip).length < 31) :
    encodeIP net (.ipAddr ip []) = ipString ip := by
  unfold encodeIP
  rw [string_ipAddr h, if_neg hlong]

theorem length_encodeIP (net : Net) (h : ip.length = 4 ∨ ip.length = 16) :
    (to4 ip ≠ [] ∧ (encodeIP net (.ipAddr ip [])).length = 4) ∨
    (to4 ip = [] ∧ (ipString ip).length < 31 ∧ (encodeIP net (.ipAddr ip [])).length = 16) ∨
    (to4 ip = [] ∧ ¬ (ipString ip).length < 31 ∧ 31 ≤ (encodeIP net (.ipAddr ip [])).length) := by
  by_cases h4 : to4 ip = []
  · by_cases hshort : (ipString ip).length < 31
    · refine .inr (.inl ⟨h4, hshort, ?_⟩)
      rw [encodeIP_short h hshort, if_neg (not_not.2 h4), length_to16 h]
    · refine .inr (.inr ⟨h4, hshort, ?_⟩)
      rw [encodeIP_long h hshort]
      exact not_lt.1 hshort
  · have hshort : (ipString ip).length < 31 := (length_ipString_of_to4 h4).trans_lt (by omega)
    refine .inl ⟨h4, ?_⟩
    rw [encodeIP_short h hshort, if_pos h4]
    exact (length_to4 ip).resolve_right h4

theorem to16_encodeIP (h : ip.length = 4 ∨ ip.length = 16) (hshort : (ipString ip).length < 31) :
    to16 (encodeIP net (.ipAddr ip [])) = to16 ip := by
  rw [encodeIP_short h hshort]
  split_ifs with h4
  · exact to16_to4 h4
  · have h16 := length_to16 h
    rw [to16, if_neg (by omega), if_pos h16]

/-! ## Round trips -/

theorem decodeAnnounceRequest_ok (h : decodeAnnounceRequest net raddr b = some (.ok r')) :
    announceLength net raddr ≤ b.length ∧ ∃ exts,
      decodeExts (b.drop (78 + ipWidth (readsV4 net raddr))) = some exts ∧
        r' = parsed b (readsV4 net raddr) exts := by
  rw [decodeAnnounceRequest_eq] at h
  split_ifs at h with hlen
  · cases h
  · have hwidth := ipWidth_le_announceLength net raddr
    rw [decodeFrom_eq (by omega)] at h
    refine ⟨not_lt.1 hlen, ?_⟩
    cases hexts : decodeExts (b.drop (78 + ipWidth (readsV4 net raddr))) with
    | none => rw [hexts] at h; cases h
    | some exts =>
      rw [hexts] at h
      cases h
      exact ⟨exts, rfl, rfl⟩

theorem RoundTrips.width (h : r.RoundTrips net raddr) (hip : r.ip = some (.ipAddr ip zone))
    (hlen : ip.length = 4 ∨ ip.length = 16) :
    zone = [] ∧ (∀ e ∈ r.exts, e.Consistent) ∧
      (encodeIP net (.ipAddr ip [])).length = ipWidth (readsV4 net raddr) ∧
      announceLength net raddr ≤
        78 + (encodeIP net (.ipAddr ip [])).length + extsLength r.exts := by
  obtain ⟨b, r', henc, hdec, hfields, addr, addr', haddr, haddr', hsame⟩ := h
  rw [hip] at haddr
  cases haddr
  obtain ⟨hmin, exts, hexts, hr'⟩ := decodeAnnounceRequest_ok hdec
  -- the decoded IP has no zone
  have hzone : zone = [] := by
    rw [hr'] at haddr'
    cases haddr'
    exact hsame.2.symm
  subst hzone
  have hexts' : exts = r.exts := by
    have := congrArg AnnounceRequest.exts hfields
    rwa [hr'] at this
  subst hexts'
  rw [encodeTo_eq hip] at henc
  obtain ⟨e, he, rfl⟩ := map_eq_some_iff.1 henc
  obtain ⟨hcons, hlo, hhi⟩ := decodeExts_spec hexts
  obtain ⟨e', he', hlen', -⟩ := decodeExts_encodeExts hcons
  obtain rfl : e = e' := some.inj (he.symm.trans he')
  have hwidth := ipWidth_le_announceLength net raddr
  rw [length_drop] at hlo hhi
  rw [length_segments] at hmin hlo hhi
  refine ⟨rfl, hcons, ?_, by omega⟩
  have hw : ipWidth (readsV4 net raddr) = 4 ∨ ipWidth (readsV4 net raddr) = 16 := by
    unfold ipWidth
    split_ifs
    · exact .inl rfl
    · exact .inr rfl
  rcases length_encodeIP net hlen with ⟨-, h1⟩ | ⟨-, -, h1⟩ | ⟨-, -, h1⟩
  all_goals omega

theorem roundTrips_of_width (hip : r.ip = some (.ipAddr ip []))
    (hlen : ip.length = 4 ∨ ip.length = 16) (hcons : ∀ e ∈ r.exts, e.Consistent)
    (hshort : (ipString ip).length < 31)
    (hw : (encodeIP net (.ipAddr ip [])).length = ipWidth (readsV4 net raddr))
    (hmin : announceLength net raddr ≤
      78 + (encodeIP net (.ipAddr ip [])).length + extsLength r.exts) :
    r.RoundTrips net raddr := by
  obtain ⟨e, he, helen, hdec⟩ := decodeExts_encodeExts hcons
  have hparsed := parsed_segments r e hw
  refine ⟨(r.segments (encodeIP net (.ipAddr ip [])) e).flatten,
    { r with ip := some (.ipAddr (encodeIP net (.ipAddr ip [])) []) }, ?_, ?_, rfl,
    .ipAddr ip [], _, hip, rfl, to16_encodeIP hlen hshort, rfl⟩
  · rw [encodeTo_eq hip, he]
    rfl
  · have hbytes : (r.segments (encodeIP net (.ipAddr ip [])) e).flatten.length = _ :=
      length_segments r _ _
    rw [decodeAnnounceRequest_eq, if_neg (by omega), decodeFrom_eq (by omega), ← hw, drop_segments,
      hdec, map_some, map_some, hparsed]

/-- **When an announce is read as it was sent.** -/
theorem announce_roundTrips_iff (net : Net) {r : AnnounceRequest} {ip zone : Bytes}
    (hip : r.ip = some (.ipAddr ip zone)) (hlen : ip.length = 4 ∨ ip.length = 16)
    (raddr : NetAddr) :
    r.RoundTrips net raddr ↔ zone = [] ∧ (∀ e ∈ r.exts, e.Consistent) ∧
      ((to4 ip ≠ [] ∧ (raddr.String net).length < 16) ∨
        (to4 ip = [] ∧ (ipString ip).length < 31 ∧ 16 ≤ (raddr.String net).length ∧
          ((raddr.String net).length < 32 ∨ 16 ≤ extsLength r.exts))) := by
  have hmin : announceLength net raddr = if (raddr.String net).length < 16 then 82
    else if (raddr.String net).length < 32 then 94 else 110 := rfl
  have hw : ipWidth (readsV4 net raddr) = if (raddr.String net).length < 16 then 4 else 16 := by
    unfold ipWidth readsV4
    simp only [decide_eq_true_eq]
  constructor
  · intro h
    obtain ⟨hzone, hcons, hwidth, hle⟩ := h.width hip hlen
    refine ⟨hzone, hcons, ?_⟩
    rw [hmin] at hle
    rw [hw] at hwidth
    rcases length_encodeIP net hlen with ⟨h₄, h₁⟩ | ⟨h₄, hshort, h₁⟩ | ⟨h₄, -, h₁⟩
    · refine .inl ⟨h₄, ?_⟩
      by_contra hlong
      rw [if_neg hlong] at hwidth
      omega
    · refine .inr ⟨h₄, hshort, ?_⟩
      split_ifs at hwidth hle <;> omega
    · split_ifs at hwidth <;> omega
  · rintro ⟨rfl, hcons, ⟨h₄, hraddr⟩ | ⟨h₄, hshort, hraddr, hlong⟩⟩
    · rcases length_encodeIP net hlen with ⟨-, h₁⟩ | ⟨h, -⟩ | ⟨h, -⟩
      · refine roundTrips_of_width hip hlen hcons
          ((length_ipString_of_to4 h₄).trans_lt (by omega)) ?_ ?_
        · rw [hw, if_pos hraddr, h₁]
        · rw [hmin, if_pos hraddr, h₁]
          omega
      · exact absurd h h₄
      · exact absurd h h₄
    · rcases length_encodeIP net hlen with ⟨h, -⟩ | ⟨-, -, h₁⟩ | ⟨-, h, -⟩
      · exact absurd h₄ h
      · refine roundTrips_of_width hip hlen hcons hshort ?_ ?_
        · rw [hw, if_neg (by omega), h₁]
        · rw [hmin, if_neg (by omega), h₁]
          split_ifs <;> omega
      · exact absurd hshort h

def sampleRequest (ip : Bytes) : AnnounceRequest where
  infoHash := .zero
  peerID := .zero
  downloaded := 0
  left := 0
  uploaded := 0
  event := 0
  ip := some (.ipAddr ip [])
  key := 0
  numWant := -1
  port := 6881
  exts := []

theorem announce_roundTrips_sample :
    (sampleRequest [1, 2, 3, 4]).RoundTrips sampleNet (.udpAddr [1, 2, 3, 4] 6881 []) := by
  refine (announce_roundTrips_iff sampleNet rfl (.inl rfl) _).2 ⟨rfl, fun e he => (nomatch he), ?_⟩
  exact .inl ⟨by decide, by decide +kernel⟩

theorem announce_changed :
    ¬ (sampleRequest [192, 168, 1, 100]).RoundTrips sampleNet (.udpAddr [192, 168, 1, 100] 6881 []) ∧
    ¬ (sampleRequest [0x20, 1, 0xd, 0xb8, 17, 17, 34, 34, 51, 51, 68, 68, 85, 85, 102, 102]).RoundTrips
      sampleNet (.udpAddr [0x20, 1, 0xd, 0xb8, 17, 17, 34, 34, 51, 51, 68, 68, 85, 85, 102, 102]
        6881 []) := by
  constructor
  · intro h
    exact absurd (h.width rfl (.inl rfl)).2.2.1 (by decide +kernel)
  · intro h
    exact absurd (h.width rfl (.inr rfl)).2.2.1 (by decide +kernel)

end AnnounceRequest

/-! ## The option that carries the URL -/

def NewURLData (data : Bytes) : Extension := ⟨URLData, UInt8.ofNat data.length, data⟩

/-- The options of a client that `createUDPClient` made for a URL with this request URI. -/
def clientExts (requestURI : Bytes) : List Extension :=
  if requestURI ≠ [] then [NewURLData requestURI] else []

def urlOption (uri : Bytes) : Bytes :=
  if uri ≠ [] then URLData :: UInt8.ofNat uri.length :: uri else []

variable {uri : Bytes}

theorem encodeExts_clientExts (uri : Bytes) :
    encodeExts (clientExts uri) = some (urlOption uri) := by
  unfold clientExts urlOption
  split_ifs with h
  · have henc : (NewURLData uri).EncodeTo = some (URLData :: UInt8.ofNat uri.length :: uri) := by
      rw [NewURLData, Extension.EncodeTo, if_neg fun h => h.2 h.1, if_neg fun h => h rfl]
    rw [encodeExts, henc]
    simp [encodeExts]
  · rfl

theorem decodeExts_urlOption (hle : uri.length ≤ 255) :
    decodeExts (urlOption uri) = some (clientExts uri) := by
  unfold clientExts urlOption
  split_ifs
  · have hn : (UInt8.ofNat uri.length).toNat = uri.length :=
      UInt8.toNat_ofNat_of_lt' (Nat.lt_succ_of_le hle)
    rw [decodeExts_cons, hn, if_pos le_rfl, drop_length, decodeExts_nil, take_length]
    rfl
  · exact decodeExts_nil

theorem extsLength_eq (exts : List Extension) :
    extsLength exts = 2 * exts.length + (exts.map Extension.data).flatten.length := by
  simp [extsLength, sum_map_add, length_flatten, Function.comp_def, mul_comm]

theorem length_le_of_decodeExts {exts} (h : decodeExts (urlOption uri) = some exts)
    (hdata : (exts.map Extension.data).flatten = uri) : uri.length ≤ 255 := by
  obtain ⟨hcons, -, hhi⟩ := decodeExts_spec h
  have hlen : (urlOption uri).length ≤ uri.length + 2 := by unfold urlOption; split_ifs <;> simp
  rw [extsLength_eq, hdata] at hhi
  -- the options decoded are a byte longer than the text at most, so there is at most one
  obtain _ | ⟨e, _ | ⟨e', exts⟩⟩ := exts
  · rw [← hdata]
    exact zero_le
  · have he : e.length.toNat = e.data.length := hcons e mem_cons_self
    have hlt := e.length.toNat_lt
    rw [← hdata, map_cons, flatten_cons, map_nil, flatten_nil, append_nil]
    omega
  · rw [length_cons, length_cons] at hhi
    omega

namespace AnnounceRequest

def Carries (net : Net) (r : AnnounceRequest) (raddr : NetAddr) (uri : Bytes) : Prop :=
  ∃ b r', r.EncodeTo net = some b ∧ decodeAnnounceRequest net raddr b = some (.ok r') ∧
    (∀ e ∈ r'.exts, e.type = URLData) ∧ (r'.exts.map Extension.data).flatten = uri

variable {net : Net} {r : AnnounceRequest} {raddr : NetAddr}

theorem length_encodeIP_cases (net : Net) (ip : NetAddr) : (encodeIP net ip).length = 0 ∨
    (encodeIP net ip).length = 4 ∨ (encodeIP net ip).length = 16 ∨
      31 ≤ (encodeIP net ip).length := by
  rw [encodeIP]
  split_ifs with hshort
  · dsimp only
    cases hp : parseIP (ip.String net) with
    | none => exact .inl rfl
    | some IP =>
      rw [getD_some]
      split_ifs with h4
      · exact .inr (.inl ((length_to4 IP).resolve_right h4))
      · exact .inr (.inr (.inl (length_parseIP hp)))
  · exact .inr (.inr (.inr (not_lt.1 hshort)))

theorem length_urlOption (uri : Bytes) :
    (urlOption uri).length = if uri = [] then 0 else uri.length + 2 := by
  rw [urlOption]
  by_cases h : uri = [] <;> simp [h]

/-- The client has an IP, the server reads it at the width at which the client writes it and takes
the datagram, and the length of the request URI fits into one byte. -/
structure Fits (net : Net) (r : AnnounceRequest) (raddr : NetAddr) (uri : Bytes) : Prop where
  width : ∃ ip, r.ip = some ip ∧ (encodeIP net ip).length = ipWidth (readsV4 net raddr)
  taken : announceLength net raddr ≤ 78 + ipWidth (readsV4 net raddr) + (urlOption uri).length
  short : uri.length ≤ 255

/-- The client writes more bytes for its IP than the server reads: what is left of them, the key, the
number of peers and the port are read as options. -/
def Overlong (net : Net) (r : AnnounceRequest) (raddr : NetAddr) : Prop :=
  ∃ ip, r.ip = some ip ∧ ipWidth (readsV4 net raddr) < (encodeIP net ip).length

theorem Fits.carries (hexts : r.exts = clientExts uri) (h : Fits net r raddr uri) :
    r.Carries net raddr uri := by
  obtain ⟨ip, hip, hw⟩ := h.width
  have hmin := h.taken
  have henc : r.EncodeTo net = _ := encodeTo_eq hip
  rw [hexts, encodeExts_clientExts, Option.map_some] at henc
  have hlen := length_segments r (encodeIP net ip) (urlOption uri)
  have hdec : decodeAnnounceRequest net _ _ = _ := decodeAnnounceRequest_eq raddr
    (r.segments (encodeIP net ip) (urlOption uri)).flatten
  rw [if_neg (by omega), decodeFrom_eq (by omega), ← hw, drop_segments,
    decodeExts_urlOption h.short, Option.map_some, Option.map_some] at hdec
  refine ⟨_, _, henc, hdec, ?_⟩
  rw [parsed, clientExts]
  split_ifs with huri
  · simp [NewURLData]
  · simp [not_not.1 huri]

theorem Carries.fits_or_overlong (hexts : r.exts = clientExts uri) (h : r.Carries net raddr uri) :
    Fits net r raddr uri ∨ Overlong net r raddr := by
  obtain ⟨b, r', hb, hdec, -, hdata⟩ := h
  cases hip : r.ip with
  | none =>
    rw [EncodeTo, hip] at hb
    cases hb
  | some ip =>
    rw [encodeTo_eq hip, hexts, encodeExts_clientExts] at hb
    cases hb
    obtain ⟨hmin, exts, hexts', rfl⟩ := decodeAnnounceRequest_ok hdec
    rw [length_segments] at hmin
    have hread := ipWidth_le_announceLength net raddr
    rcases lt_trichotomy (encodeIP net ip).length (ipWidth (readsV4 net raddr)) with hlt | hw | hgt
    · -- at least four bytes of the option are read as part of what stands before it
      have hgap : (encodeIP net ip).length + 4 ≤ ipWidth (readsV4 net raddr) := by
        have hw : ipWidth (readsV4 net raddr) = 4 ∨ ipWidth (readsV4 net raddr) = 16 := by
          cases readsV4 net raddr <;> simp [ipWidth]
        rcases length_encodeIP_cases net ip with h | h | h | h <;> omega
      obtain ⟨-, -, hhi⟩ := decodeExts_spec hexts'
      rw [length_drop, length_segments, extsLength_eq,
        show (exts.map Extension.data).flatten = uri from hdata] at hhi
      have hopt := length_urlOption uri
      split_ifs at hopt <;> omega
    · rw [← hw, drop_segments] at hexts'
      exact .inl ⟨⟨ip, hip, hw⟩, by omega, length_le_of_decodeExts hexts' hdata⟩
    · exact .inr ⟨ip, hip, hgt⟩

/-- **The URL in the options.** The server gets the request URI if the announce fits; else it does
not, unless the bytes in front of the option happen to be options that make up for it. -/
theorem carries_iff (hexts : r.exts = clientExts uri) :
    (Fits net r raddr uri → r.Carries net raddr uri) ∧
      (r.Carries net raddr uri → Fits net r raddr uri ∨ Overlong net r raddr) :=
  ⟨fun h => h.carries hexts, fun h => h.fits_or_overlong hexts⟩

def uriRequest (ip uri : Bytes) : AnnounceRequest :=
  { sampleRequest ip with exts := clientExts uri }

theorem carries_announce : (uriRequest [1, 2, 3, 4] (utf8 "/announce?a=1")).Carries sampleNet
    (.udpAddr [1, 2, 3, 4] 6881 []) (utf8 "/announce?a=1") :=
  (carries_iff rfl).1 ⟨⟨_, rfl, by decide +kernel⟩, by decide +kernel, by decide⟩

theorem not_carries_long : ¬ (uriRequest [1, 2, 3, 4] (replicate 256 (ch '/'))).Carries sampleNet
    (.udpAddr [1, 2, 3, 4] 6881 []) (replicate 256 (ch '/')) := by
  intro h
  rcases h.fits_or_overlong rfl with hfits | ⟨ip, hip, hlt⟩
  · have hle := hfits.short
    rw [length_replicate] at hle
    omega
  · cases hip
    exact absurd hlt (by decide +kernel)

-- the server takes the text of the remote address for one of an IPv6 peer and refuses 93 bytes
example : ¬ (uriRequest [192, 168, 1, 100] (utf8 "/announce")).Carries sampleNet
    (.udpAddr [192, 168, 1, 100] 6881 []) (utf8 "/announce") := by
  intro h
  rcases h.fits_or_overlong rfl with ⟨⟨ip, hip, hw⟩, -, -⟩ | ⟨ip, hip, hlt⟩
  · cases hip
    exact absurd hw (by decide +kernel)
  · cases hip
    exact absurd hlt (by decide +kernel)

end AnnounceRequest

end GoI2pBt.Tracker
