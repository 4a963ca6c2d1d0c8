/-
  The messages of UDP trackers.
-/
import GoI2pBt.Lib.Segments
import GoI2pBt.Metainfo.Address
import GoI2pBt.Metainfo.Hash

namespace GoI2pBt.Tracker

open List Metainfo Option

def ProtocolID : UInt64 := 0x41727101980

def ActionConnect : UInt32 := 0
def ActionAnnounce : UInt32 := 1
def ActionScrape : UInt32 := 2
def ActionError : UInt32 := 3

def sub (b : Bytes) (i j : ℕ) : Option Bytes :=
  if i ≤ j ∧ j ≤ b.length then some (slice b i (j - i)) else none

theorem sub_eq {b i j} (hij : i ≤ j) (hj : j ≤ b.length) : sub b i j = some (slice b i (j - i)) :=
  if_pos ⟨hij, hj⟩

theorem sub_end {b i} (hi : i ≤ b.length) : sub b i b.length = some (b.drop i) := by
  rw [sub_eq hi le_rfl, slice, take_of_length_le (by rw [length_drop])]

/-! ## Extensions -/

abbrev ExtensionType := UInt8

def URLData : ExtensionType := 2

@[ext]
structure Extension where
  type : ExtensionType
  length : UInt8
  data : Bytes
deriving DecidableEq

namespace Extension

def EncodeTo (e : Extension) : Option Bytes :=
  let len := UInt8.ofNat e.data.length
  if e.length = 0 ∧ len ≠ 0 then some (e.type :: len :: e.data)
  else if len ≠ e.length then none
  else some (e.type :: e.length :: e.data)

def DecodeFrom : Bytes → Option (Extension × ℕ)
  | [] => some (⟨0, 0, []⟩, 0)
  | [type] => some (⟨type, 0, []⟩, 1)
  | type :: length :: rest =>
    if 0 < length then do
      let parsed := 2 + length.toNat
      let data ← sub (type :: length :: rest) 2 parsed
      return (⟨type, length, data⟩, parsed)
    else some (⟨type, length, []⟩, 2)

theorem decodeFrom_cons (type length : UInt8) (rest : Bytes) : DecodeFrom (type :: length :: rest) =
      if length.toNat ≤ rest.length then
        some (⟨type, length, rest.take length.toNat⟩, 2 + length.toNat)
      else none := by
  by_cases hzero : length = 0
  · subst hzero
    simp [DecodeFrom]
  · rw [DecodeFrom, if_pos (UInt8.pos_iff_ne_zero.2 hzero)]
    dsimp only
    by_cases hle : length.toNat ≤ rest.length
    · have hsub : sub (type :: length :: rest) 2 (2 + length.toNat) =
          some (rest.take length.toNat) := by
        rw [sub, if_pos ⟨Nat.le_add_right _ _, by simp only [length_cons]; omega⟩]
        simp [slice]
      rw [hsub, if_pos hle]
      rfl
    · have hsub : sub (type :: length :: rest) 2 (2 + length.toNat) = none :=
        if_neg fun h => hle (by have := h.2; simp only [length_cons] at this; omega)
      rw [hsub, if_neg hle]
      rfl

theorem decodeFrom_pos {b e parsed} (hb : b.length ≠ 0)
    (h : DecodeFrom b = some (e, parsed)) : 0 < parsed := by
  match b with
  | [] => exact absurd rfl hb
  | [type] =>
    cases h
    exact Nat.one_pos
  | type :: length :: rest =>
    rw [decodeFrom_cons] at h
    split_ifs at h
    cases h
    omega

end Extension

def decodeExts (b : Bytes) : Option (List Extension) :=
  if _hb : b.length = 0 then some []
  else
    match _h : Extension.DecodeFrom b with
    | none => none
    | some (ext, parsed) =>
      -- `b = b[parsed:]`
      if parsed ≤ b.length then (decodeExts (b.drop parsed)).map (ext :: ·) else none
termination_by b.length
decreasing_by
  have := Extension.decodeFrom_pos _hb _h
  rw [length_drop]
  omega

theorem decodeExts_nil : decodeExts [] = some [] := by
  rw [decodeExts]
  rfl

theorem decodeExts_singleton (type : UInt8) : decodeExts [type] = some [⟨type, 0, []⟩] := by
  rw [decodeExts]
  simp [Extension.DecodeFrom, decodeExts_nil]

theorem decodeExts_cons (type length : UInt8) (rest : Bytes) : decodeExts (type :: length :: rest) =
      if length.toNat ≤ rest.length then
        (decodeExts (rest.drop length.toNat)).map (⟨type, length, rest.take length.toNat⟩ :: ·)
      else none := by
  have hd := Extension.decodeFrom_cons type length rest
  rw [decodeExts, dif_neg (by simp)]
  split
  · next h =>
    rw [hd] at h
    split_ifs at h with hle
    exact (if_neg hle).symm
  · next ext parsed h =>
    rw [hd] at h
    split_ifs at h with hle
    cases h
    rw [if_pos hle, if_pos (by simp only [length_cons]; omega), add_comm]
    rfl

inductive Options : Bytes → Prop
  | nil : Options []
  | alone (type : UInt8) : Options [type]
  | cons (type length : UInt8) (data : Bytes) {rest : Bytes} :
    data.length = length.toNat → Options rest → Options (type :: length :: (data ++ rest))

theorem decodeExts_of_options {b} (h : Options b) : (decodeExts b).isSome := by
  induction h with
  | nil => rw [decodeExts_nil]; rfl
  | alone type => rw [decodeExts_singleton]; rfl
  | cons type length data hlen _ ih =>
    rw [decodeExts_cons, if_pos (by rw [length_append]; omega), ← hlen, drop_left,
      isSome_map]
    exact ih

theorem options_of_decodeExts : ∀ {b : Bytes}, (decodeExts b).isSome → Options b
  | [], _ => .nil
  | [type], _ => .alone type
  | type :: length :: rest, h => by
    rw [decodeExts_cons] at h
    split_ifs at h with hle
    · rw [isSome_map] at h
      have hrest : Options (type :: length :: (rest.take length.toNat ++ rest.drop length.toNat)) :=
        .cons type length _ (by rw [length_take, min_eq_left hle]) (options_of_decodeExts h)
      rwa [take_append_drop] at hrest
    · cases h
termination_by b => b.length

theorem decodeExts_isSome_iff {b} : (decodeExts b).isSome ↔ Options b :=
  ⟨options_of_decodeExts, decodeExts_of_options⟩

def encodeExts : List Extension → Option Bytes
  | [] => some []
  | ext :: exts => do
    let b ← ext.EncodeTo
    return b ++ (← encodeExts exts)

/-! ## Announce requests -/

structure AnnounceRequest where
  infoHash : Hash
  peerID : Hash
  downloaded : Int64
  left : Int64
  uploaded : Int64
  event : UInt32
  ip : Option NetAddr
  key : Int32
  numWant : Int32
  port : UInt16
  exts : List Extension
deriving DecidableEq

namespace AnnounceRequest

def ipWidth (v4 : Bool) : ℕ := if v4 then 4 else 16

/-- The IP field and what follows it; `w` is 1 for IPv4, 0 for IPv6 and else a destination hash, of
which the last half is read again as what follows. -/
def decodeIP (net : Net) (b : Bytes) (w : ℤ) : Option (NetAddr × Bytes) :=
  if w = 1 then return (.ipAddr (← sub b 68 72) [], ← sub b 72 b.length)
  else if w = 0 then return (.ipAddr (← sub b 68 84) [], ← sub b 84 b.length)
  else return (net.destHashFromBytes (← sub b 68 100), ← sub b 84 b.length)

def DecodeFrom (net : Net) (b : Bytes) (w : ℤ) : Option AnnounceRequest := do
  let infoHash ← sub b 0 20
  let peerID ← sub b 20 40
  let downloaded ← sub b 40 48
  let left ← sub b 48 56
  let uploaded ← sub b 56 64
  let event ← sub b 64 68
  let (ip, b) ← decodeIP net b w
  let key ← sub b 0 4
  let numWant ← sub b 4 8
  let port ← sub b 8 10
  let exts ← decodeExts (← sub b 10 b.length)
  return {
    infoHash := .ofBytes infoHash
    peerID := .ofBytes peerID
    downloaded := (UInt64.ofNat (beNat downloaded)).toInt64
    left := (UInt64.ofNat (beNat left)).toInt64
    uploaded := (UInt64.ofNat (beNat uploaded)).toInt64
    event := UInt32.ofNat (beNat event)
    ip := some ip
    key := (UInt32.ofNat (beNat key)).toInt32
    numWant := (UInt32.ofNat (beNat numWant)).toInt32
    port := UInt16.ofNat (beNat port)
    exts }

def parsed (b : Bytes) (v4 : Bool) (exts : List Extension) : AnnounceRequest :=
  { infoHash := .ofBytes (slice b 0 20)
    peerID := .ofBytes (slice b 20 20)
    downloaded := (UInt64.ofNat (beNat (slice b 40 8))).toInt64
    left := (UInt64.ofNat (beNat (slice b 48 8))).toInt64
    uploaded := (UInt64.ofNat (beNat (slice b 56 8))).toInt64
    event := UInt32.ofNat (beNat (slice b 64 4))
    ip := some (.ipAddr (slice b 68 (ipWidth v4)) [])
    key := (UInt32.ofNat (beNat (slice b (68 + ipWidth v4) 4))).toInt32
    numWant := (UInt32.ofNat (beNat (slice b (72 + ipWidth v4) 4))).toInt32
    port := UInt16.ofNat (beNat (slice b (76 + ipWidth v4) 2))
    exts }

/-- The layout that the server asks for. -/
def layout (v4 : Bool) : ℤ := if v4 then 1 else 0

theorem decodeIP_layout {net b v4} (h : 68 + ipWidth v4 ≤ b.length) : decodeIP net b (layout v4) =
      some (.ipAddr (slice b 68 (ipWidth v4)) [], b.drop (68 + ipWidth v4)) := by
  cases v4 with
  | true =>
    change 72 ≤ b.length at h
    rw [decodeIP, if_pos (by decide), sub_eq (by omega) h, sub_end h]
    rfl
  | false =>
    change 84 ≤ b.length at h
    rw [decodeIP, if_neg (by decide), if_pos (by decide), sub_eq (by omega) h, sub_end h]
    rfl

theorem decodeFrom_eq {net b v4} (h : 78 + ipWidth v4 ≤ b.length) : DecodeFrom net b (layout v4) =
      (decodeExts (b.drop (78 + ipWidth v4))).map (parsed b v4) := by
  unfold DecodeFrom parsed
  rw [decodeIP_layout (by omega)]
  generalize ipWidth v4 = w at h ⊢
  have hrest : (b.drop (68 + w)).length = b.length - (68 + w) := length_drop
  have hslice : ∀ i k, slice (b.drop (68 + w)) i k = slice b (68 + w + i) k := by
    intro i k
    rw [slice, slice, drop_drop]
  rw [sub_eq (by omega) (by omega), sub_eq (by omega) (by omega), sub_eq (by omega) (by omega),
    sub_eq (by omega) (by omega), sub_eq (by omega) (by omega), sub_eq (by omega) (by omega)]
  simp only [bind_eq_bind, bind_some]
  rw [sub_eq (by omega) (by omega), sub_eq (by omega) (by omega), sub_eq (by omega) (by omega),
    sub_end (by omega), drop_drop]
  simp only [bind_some, hslice]
  rw [show 68 + w + 10 = 78 + w by omega, show 68 + w + 4 = 72 + w by omega,
    show 68 + w + 8 = 76 + w by omega]
  cases decodeExts (b.drop (78 + w)) <;> rfl

variable (net : Net)

def encodeIP (ip : NetAddr) : Bytes :=
  if (ip.String net).length < 31 then
    -- `net.ParseIP` returns nil for a text that is not an IP
    let IP := (parseIP (ip.String net)).getD []
    if to4 IP ≠ [] then to4 IP else IP
  else ip.String net

def EncodeTo (r : AnnounceRequest) : Option Bytes := do
  let ip ← r.ip
  let exts ← encodeExts r.exts
  return r.infoHash.bytes ++ r.peerID.bytes ++ beBytes 8 r.downloaded.toUInt64.toNat ++
    beBytes 8 r.left.toUInt64.toNat ++ beBytes 8 r.uploaded.toUInt64.toNat ++
    beBytes 4 r.event.toNat ++ encodeIP net ip ++ beBytes 4 r.key.toUInt32.toNat ++
    beBytes 4 r.numWant.toUInt32.toNat ++ beBytes 2 r.port.toNat ++ exts

end AnnounceRequest

/-! ## Responses -/

structure AnnounceResponse where
  interval : UInt32
  leechers : UInt32
  seeders : UInt32
  addresses : List Address
deriving DecidableEq

def ipOf : NetAddr → Bytes
  | .ipAddr ip _ => ip
  | _ => []

def AnnounceResponse.EncodeTo (r : AnnounceResponse) : Bytes :=
  beBytes 4 r.interval.toNat ++ beBytes 4 r.leechers.toNat ++ beBytes 4 r.seeders.toNat ++
    r.addresses.flatMap fun addr => ipOf addr.To4 ++ beBytes 2 addr.port.toNat

structure ScrapeResponse where
  seeders : UInt32
  leechers : UInt32
  completed : UInt32
deriving DecidableEq

def ScrapeResponse.EncodeTo (r : ScrapeResponse) : Bytes :=
  beBytes 4 r.seeders.toNat ++ beBytes 4 r.completed.toNat ++ beBytes 4 r.leechers.toNat

end GoI2pBt.Tracker
