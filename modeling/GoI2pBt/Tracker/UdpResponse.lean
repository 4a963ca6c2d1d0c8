/-
  Announce responses that are read back.
-/
import GoI2pBt.Tracker.Udp

namespace GoI2pBt.Tracker

open List Metainfo AnnounceRequest Address
open Metainfo.Address (sampleNet)

namespace AnnounceResponse

variable {r : AnnounceResponse} {ip : Address → Bytes} {net : Net}

/-! ## Decoding -/

def decodeAddresses (iplen : ℕ) : ℕ → Bytes → List Address
  | 0, _ => []
  | n + 1, b =>
    ⟨some (.ipAddr (b.take iplen) []), UInt16.ofNat (beNat (slice b iplen 2))⟩ ::
      decodeAddresses iplen n (b.drop (iplen + 2))

def DecodeFrom (b : Bytes) (ipv4 : Bool) : Option AnnounceResponse := do
  let interval ← sub b 0 4
  let leechers ← sub b 4 8
  let seeders ← sub b 8 12
  let b ← sub b 12 b.length
  let iplen := ipWidth ipv4
  return {
    interval := UInt32.ofNat (beNat interval)
    leechers := UInt32.ofNat (beNat leechers)
    seeders := UInt32.ofNat (beNat seeders)
    addresses := decodeAddresses iplen (b.length / (iplen + 2)) b }

def parsed (b : Bytes) (ipv4 : Bool) : AnnounceResponse where
  interval := UInt32.ofNat (beNat (slice b 0 4))
  leechers := UInt32.ofNat (beNat (slice b 4 4))
  seeders := UInt32.ofNat (beNat (slice b 8 4))
  addresses := decodeAddresses (ipWidth ipv4)
    ((b.drop 12).length / (ipWidth ipv4 + 2)) (b.drop 12)

theorem decodeFrom_eq {b} (h : 12 ≤ b.length) (ipv4 : Bool) :
    DecodeFrom b ipv4 = some (parsed b ipv4) := by
  unfold DecodeFrom
  rw [sub_eq (by omega) (by omega), sub_eq (by omega) (by omega), sub_eq (by omega) (by omega),
    sub_end h]
  rfl

theorem length_decodeAddresses (iplen n : ℕ) (b : Bytes) :
    (decodeAddresses iplen n b).length = n := by
  induction n generalizing b with
  | zero => rfl
  | succ n ih => rw [decodeAddresses, length_cons, ih]

theorem decodeAddresses_flatMap {iplen : ℕ} {l : List Address}
    (h : ∀ a ∈ l, (ip a).length = iplen) :
    decodeAddresses iplen l.length (l.flatMap fun a => ip a ++ beBytes 2 a.port.toNat) =
      l.map fun a => ⟨some (.ipAddr (ip a) []), a.port⟩ := by
  induction l with
  | nil => rfl
  | cons a l ih =>
    have hip := h a mem_cons_self
    have hport : slice (ip a ++ (beBytes 2 a.port.toNat ++
        l.flatMap fun a => ip a ++ beBytes 2 a.port.toNat)) iplen 2 =
        beBytes 2 a.port.toNat := by
      rw [slice, ← hip, drop_left, take_left' (length_beBytes _ _)]
    have hrest : (ip a ++ (beBytes 2 a.port.toNat ++
        l.flatMap fun a => ip a ++ beBytes 2 a.port.toNat)).drop (iplen + 2) =
        l.flatMap fun a => ip a ++ beBytes 2 a.port.toNat := by
      rw [← append_assoc]
      exact drop_left' (by rw [length_append, hip, length_beBytes])
    rw [flatMap_cons, length_cons, append_assoc, decodeAddresses,
      take_left' hip, hport, hrest, ih fun b hb => h b (mem_cons_of_mem _ hb),
      map_cons, ofNat_be16]

/-! ## Encoding -/

theorem encodeTo_eq (r : AnnounceResponse) : r.EncodeTo = [beBytes 4 r.interval.toNat,
    beBytes 4 r.leechers.toNat, beBytes 4 r.seeders.toNat,
    r.addresses.flatMap fun addr => ipOf addr.To4 ++ beBytes 2 addr.port.toNat].flatten := by
  simp [EncodeTo]

theorem length_encodeTo (r : AnnounceResponse) : r.EncodeTo.length = 12 +
    (r.addresses.flatMap fun addr => ipOf addr.To4 ++ beBytes 2 addr.port.toNat).length := by
  rw [encodeTo_eq]
  simp only [flatten_cons, length_append, length_beBytes, flatten_nil, length_nil]
  omega

theorem drop_encodeTo (r : AnnounceResponse) : r.EncodeTo.drop 12 =
    r.addresses.flatMap fun addr => ipOf addr.To4 ++ beBytes 2 addr.port.toNat :=
  drop_left' (by simp only [length_append, length_beBytes])

theorem parsed_encodeTo (r : AnnounceResponse) (ipv4 : Bool) : parsed r.EncodeTo ipv4 = { r with
      addresses := decodeAddresses (ipWidth ipv4) ((r.EncodeTo.drop 12).length / (ipWidth ipv4 + 2))
        (r.EncodeTo.drop 12) } := by
  have hseg : ∀ pre c post i k, [beBytes 4 r.interval.toNat, beBytes 4 r.leechers.toNat,
      beBytes 4 r.seeders.toNat,
      r.addresses.flatMap fun addr => ipOf addr.To4 ++ beBytes 2 addr.port.toNat] =
        pre ++ c :: post →
      pre.flatten.length = i → c.length = k → slice r.EncodeTo i k = c := by
    intro pre c post i k hsplit hi hk
    rw [encodeTo_eq, hsplit, ← hi, ← hk, slice_segment]
  have h0 := hseg [] _ _ 0 4 rfl rfl (length_beBytes _ _)
  have h1 := hseg [_] _ _ 4 4 rfl (by simp) (length_beBytes _ _)
  have h2 := hseg [_, _] _ _ 8 4 rfl (by simp) (length_beBytes _ _)
  unfold parsed
  rw [h0, h1, h2, ofNat_be32, ofNat_be32, ofNat_be32]

/-! ## Families -/

def netIP : NetAddr → Option Bytes
  | .ipAddr ip _ => some ip
  | .udpAddr ip _ _ => some ip
  | .tcpAddr ip _ _ => some ip
  | _ => none

def FamilyIP : Bool → Bytes → Prop
  | true, ip => to4 ip ≠ []
  | false, ip => ip.length = 16 ∧ to4 ip = []

def OfFamily (ipv4 : Bool) (a : Address) : Prop :=
  ∃ addr ip, a.ip = some addr ∧ netIP addr = some ip ∧ FamilyIP ipv4 ip

def Plain (a : Address) : Prop := ∃ ip, a.ip = some (.ipAddr ip [])

theorem length_to4_of_v4 {a} (h : OfFamily true a) : (ipOf a.To4).length = 4 := by
  obtain ⟨addr, ip, ha, hip, hv4⟩ := h
  have hlen : (to4 ip).length = 4 := (length_to4 ip).resolve_right hv4
  rw [To4, ha]
  cases addr with
  | ipAddr | udpAddr =>
    cases hip
    exact hlen
  | tcpAddr ip' port zone => rfl
  | i2p | i2pPtr => cases hip

theorem length_to4_le (a : Address) : (ipOf a.To4).length ≤ 4 := by
  have hle : ∀ ip : Bytes, (to4 ip).length ≤ 4 := by
    intro ip
    rcases length_to4 ip with h | h
    · exact h.le
    · rw [h]
      exact zero_le
  unfold To4
  split
  · exact hle _
  · exact hle _
  · exact le_rfl

theorem equal_decoded_iff {a} (h : OfFamily true a) :
    Equal net ⟨some (.ipAddr (ipOf a.To4) []), a.port⟩ a = some true ↔ Plain a := by
  have hlen := length_to4_of_v4 h
  obtain ⟨addr, ip, ha, hip, hv4⟩ := h
  obtain ⟨addr', port⟩ := a
  cases ha
  have hstring : (NetAddr.ipAddr (ipOf (To4 ⟨some addr, port⟩)) []).String net =
      ipString (ipOf (To4 ⟨some addr, port⟩)) := zonedString_nil (.inl hlen)
  have hport : ∀ host p, ipString (ipOf (To4 ⟨some addr, port⟩)) ≠ joinHostPort host p := by
    intro host p heq
    exact colon_notMem_ipString hlen (heq ▸ colon_mem_joinHostPort host p)
  rw [equal_mk, hstring]
  constructor
  · rintro ⟨-, heq⟩
    cases addr with
    | ipAddr ip' zone =>
      cases hip
      have hle := length_zonedString_le ip zone
      have hsame : zonedString ip [] = zonedString ip zone := by
        rw [zonedString_nil (length_of_to4 hv4), ← ipString_to4 hv4]
        exact heq
      rw [← hsame] at hle
      have hzone : zone = [] := length_eq_zero_iff.mp (by omega)
      exact ⟨ip, by rw [hzone]⟩
    | udpAddr | tcpAddr => exact absurd heq (hport _ _)
    | i2p | i2pPtr => cases hip
  · rintro ⟨ip', hplain⟩
    cases hplain
    cases hip
    refine ⟨rfl, (ipString_to4 hv4).trans ?_⟩
    exact (zonedString_nil (length_of_to4 hv4)).symm

/-! ## Round trips -/

def RoundTrips (net : Net) (r : AnnounceResponse) (ipv4 : Bool) : Prop :=
  ∃ r', DecodeFrom r.EncodeTo ipv4 = some r' ∧ r'.interval = r.interval ∧
    r'.leechers = r.leechers ∧ r'.seeders = r.seeders ∧
    Forall₂ (fun a' a => Address.Equal net a' a = some true) r'.addresses r.addresses

theorem roundTrips_iff_forall₂ {ipv4} :
    r.RoundTrips net ipv4 ↔ Forall₂ (fun a' a => Equal net a' a = some true)
      (decodeAddresses (ipWidth ipv4)
        ((r.EncodeTo.drop 12).length / (ipWidth ipv4 + 2)) (r.EncodeTo.drop 12))
      r.addresses := by
  have hdec : DecodeFrom r.EncodeTo ipv4 = some (parsed r.EncodeTo ipv4) :=
    decodeFrom_eq (by rw [length_encodeTo]; omega) ipv4
  rw [RoundTrips, hdec, parsed_encodeTo]
  constructor
  · rintro ⟨r', hr', -, -, -, hall⟩
    cases hr'
    exact hall
  · exact fun hall => ⟨_, rfl, rfl, rfl, rfl, hall⟩

theorem length_flatMap_of_width {iplen : ℕ} {l : List Address}
    (h : ∀ a ∈ l, (ip a).length = iplen) :
    (l.flatMap fun a => ip a ++ beBytes 2 a.port.toNat).length = l.length * (iplen + 2) := by
  have hmap : l.map (fun a => (ip a ++ beBytes 2 a.port.toNat).length) =
      replicate l.length (iplen + 2) := by
    rw [eq_replicate_iff, length_map]
    refine ⟨rfl, fun n hn => ?_⟩
    obtain ⟨a, ha, rfl⟩ := mem_map.mp hn
    rw [length_append, h a ha, length_beBytes]
  rw [length_flatMap, hmap, sum_replicate, smul_eq_mul]

theorem roundTrips_v4_iff (h : ∀ a ∈ r.addresses, OfFamily true a) :
    r.RoundTrips net true ↔ ∀ a ∈ r.addresses, Plain a := by
  have hwidth : ∀ a ∈ r.addresses, (ipOf a.To4).length = 4 := fun a ha => length_to4_of_v4 (h a ha)
  have hlen : (r.EncodeTo.drop 12).length / (4 + 2) = r.addresses.length := by
    rw [drop_encodeTo, length_flatMap_of_width hwidth, Nat.mul_div_cancel _ (by omega)]
  have hdec : decodeAddresses (ipWidth true)
      ((r.EncodeTo.drop 12).length / (ipWidth true + 2)) (r.EncodeTo.drop 12) =
      r.addresses.map fun a => ⟨some (.ipAddr (ipOf a.To4) []), a.port⟩ := by
    change decodeAddresses 4 ((r.EncodeTo.drop 12).length / (4 + 2)) _ = _
    rw [hlen, drop_encodeTo]
    exact decodeAddresses_flatMap hwidth
  rw [roundTrips_iff_forall₂, hdec, forall₂_map_left_iff, forall₂_same]
  exact forall₂_congr fun a ha => equal_decoded_iff (h a ha)

theorem not_roundTrips_v6 (h : r.addresses ≠ []) : ¬ r.RoundTrips net false := by
  rw [roundTrips_iff_forall₂]
  intro hall
  have hlen := hall.length_eq
  have hpos := length_pos_iff.mpr h
  have hle : (r.EncodeTo.drop 12).length ≤ r.addresses.length * 6 := by
    rw [drop_encodeTo, length_flatMap]
    have hsum := sum_le_card_nsmul
      (r.addresses.map fun a => (ipOf a.To4 ++ beBytes 2 a.port.toNat).length) 6 (by
        intro n hn
        obtain ⟨a, -, rfl⟩ := mem_map.mp hn
        have hto4 := length_to4_le a
        rw [length_append, length_beBytes]
        omega)
    rwa [length_map, smul_eq_mul] at hsum
  rw [length_decodeAddresses] at hlen
  change (r.EncodeTo.drop 12).length / 18 = _ at hlen
  omega

/-- **Which announce responses are read back.** -/
theorem announceResponse_roundTrips_iff (net : Net) {r : AnnounceResponse} {ipv4 : Bool}
    (h : ∀ a ∈ r.addresses, OfFamily ipv4 a) :
    r.RoundTrips net ipv4 ↔ r.addresses = [] ∨ (ipv4 = true ∧ ∀ a ∈ r.addresses, Plain a) := by
  cases ipv4 with
  | true =>
    rw [roundTrips_v4_iff h]
    constructor
    · exact fun hall => .inr ⟨rfl, hall⟩
    · rintro (hnil | ⟨-, hall⟩)
      · rw [hnil]
        exact fun a ha => absurd ha not_mem_nil
      · exact hall
  | false =>
    constructor
    · exact fun htrip => .inl (by_contra fun hne => not_roundTrips_v6 hne htrip)
    · rintro (hnil | ⟨hv4, -⟩)
      · rw [roundTrips_iff_forall₂, drop_encodeTo, hnil]
        exact .nil
      · cases hv4

def sampleResponse (ips : List Bytes) : AnnounceResponse where
  interval := 1800
  leechers := 1
  seeders := 2
  addresses := ips.map fun ip => ⟨some (.ipAddr ip []), 6881⟩

def twoPeers : AnnounceResponse := sampleResponse [[1, 2, 3, 4], [10, 0, 0, 7]]

theorem announceResponse_roundTrips_sample :
    (∀ a ∈ twoPeers.addresses, OfFamily true a) ∧ twoPeers.RoundTrips sampleNet true := by
  have hfam : ∀ a ∈ twoPeers.addresses, OfFamily true a := forall_mem_cons.2
    ⟨⟨_, _, rfl, rfl, cons_ne_nil _ _⟩, forall_mem_singleton.2 ⟨_, _, rfl, rfl, cons_ne_nil _ _⟩⟩
  refine ⟨hfam, (announceResponse_roundTrips_iff sampleNet hfam).mpr (.inr ⟨rfl, ?_⟩)⟩
  exact forall_mem_cons.2 ⟨⟨_, rfl⟩, forall_mem_singleton.2 ⟨_, rfl⟩⟩

def v6Peer : AnnounceResponse :=
  sampleResponse [[0x20, 1, 0xd, 0xb8, 0, 0, 0, 0, 0, 0, 0, 0, 0, 0, 0, 1]]

theorem ipv6_address_lost :
    (∀ a ∈ v6Peer.addresses, OfFamily false a) ∧
      v6Peer.EncodeTo = [0, 0, 7, 8, 0, 0, 0, 1, 0, 0, 0, 2, 26, 225] ∧
      DecodeFrom [0, 0, 7, 8, 0, 0, 0, 1, 0, 0, 0, 2, 26, 225] false = some ⟨1800, 1, 2, []⟩ ∧
      ¬ v6Peer.RoundTrips sampleNet false := by
  refine ⟨fun a ha => ?_, by decide, by decide, not_roundTrips_v6 (cons_ne_nil _ _)⟩
  rw [List.mem_singleton.mp ha]
  exact ⟨_, _, rfl, rfl, rfl, by decide⟩

end AnnounceResponse

end GoI2pBt.Tracker
