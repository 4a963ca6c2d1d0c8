/-
  Announce and scrape queries to HTTP trackers.
-/
import GoI2pBt.Lib.Url
import GoI2pBt.Metainfo.Hash

namespace GoI2pBt.Tracker.Http

open Bencode Metainfo Int

def orNumError {α : Type} (s : Bytes) : Option α → Except Error α
  | some a => .ok a
  | none => .error (.numError s)

structure AnnounceRequest where
  InfoHash : Hash
  PeerID : Hash
  Uploaded : Int64
  Downloaded : Int64
  Left : Int64
  Port : UInt16
  IP : Bytes
  Event : UInt32
  Compact : Bool
  NumWant : Int32
  Key : Int32
deriving DecidableEq

namespace AnnounceRequest

def zero : AnnounceRequest := ⟨.zero, .zero, 0, 0, 0, 0, [], 0, false, 0, 0⟩

def toUint64 (i : Int32) : ℕ := (i.toInt % 2 ^ 64).toNat

def ToQuery (r : AnnounceRequest) : Values :=
  let vs := (∅ : Values)
  let vs := vs.Set (utf8 "info_hash") r.InfoHash.bytes
  let vs := vs.Set (utf8 "peer_id") r.PeerID.bytes
  let vs := vs.Set (utf8 "uploaded") (formatInt r.Uploaded.toInt)
  let vs := vs.Set (utf8 "downloaded") (formatInt r.Downloaded.toInt)
  let vs := vs.Set (utf8 "left") (formatInt r.Left.toInt)
  let vs := if r.IP ≠ [] then vs.Set (utf8 "ip") r.IP else vs
  let vs := if r.Event > 0 then vs.Set (utf8 "event") (formatInt r.Event.toNat) else vs
  let vs := if r.Port > 0 then vs.Set (utf8 "port") (formatUint r.Port.toNat) else vs
  let vs := if r.NumWant ≠ 0 then vs.Set (utf8 "numwant") (formatUint (toUint64 r.NumWant)) else vs
  let vs := if r.Key ≠ 0 then vs.Set (utf8 "key") (formatInt r.Key.toInt) else vs
  if r.Compact then vs.Set (utf8 "compact") (utf8 "1") else vs.Set (utf8 "compact") (utf8 "0")

variable (r : AnnounceRequest) (vs : Values)

def requiredInt (key : String) : Except Error Int64 :=
  let s := vs.Get (utf8 key)
  (orNumError s (parseInt 64 s)).map Int64.ofInt

def parseRequiredIntegers : Except Error AnnounceRequest := do
  let r := { r with Uploaded := ← requiredInt vs "uploaded" }
  let r := { r with Downloaded := ← requiredInt vs "downloaded" }
  return { r with Left := ← requiredInt vs "left" }

def parseRequiredFields : Except Error AnnounceRequest := do
  let r := { r with InfoHash := ← Hash.FromString (vs.Get (utf8 "info_hash")) }
  let r := { r with PeerID := ← Hash.FromString (vs.Get (utf8 "peer_id")) }
  parseRequiredIntegers r vs

def optionalField {α : Type} (key : String) (parse : Bytes → Option α)
    (store : α → AnnounceRequest) : Except Error AnnounceRequest :=
  let s := vs.Get (utf8 key)
  if s ≠ [] then (orNumError s (parse s)).map store else .ok r

def parseEventField : Except Error AnnounceRequest :=
  optionalField r vs "event" (parseUint 64) fun v => { r with Event := .ofNat v }

def parsePortField : Except Error AnnounceRequest :=
  optionalField r vs "port" (parseUint 64) fun v => { r with Port := .ofNat v }

def parseNumWantField : Except Error AnnounceRequest :=
  optionalField r vs "numwant" (parseUint 64) fun v => { r with NumWant := .ofInt v }

def parseKeyField : Except Error AnnounceRequest :=
  optionalField r vs "key" (parseInt 64) fun v => { r with Key := .ofInt v }

def parseOptionalFields : Except Error AnnounceRequest := do
  let r ← parseEventField r vs
  let r ← parsePortField r vs
  let r ← parseNumWantField r vs
  parseKeyField r vs

def parseStringFields : AnnounceRequest :=
  let r := { r with IP := vs.Get (utf8 "ip") }
  let s := vs.Get (utf8 "compact")
  if s = utf8 "1" then { r with Compact := true }
  else if s = utf8 "0" then { r with Compact := false }
  else r

def FromQuery : Except Error AnnounceRequest := do
  let r ← parseRequiredFields r vs
  let r ← parseOptionalFields r vs
  return parseStringFields r vs

/-! ## The values of a query -/

section Get

variable {r vs}

theorem get_set_if {p : Prop} [Decidable p] {k k' v} :
    (if p then vs.Set k v else vs).Get k' = if k' = k ∧ p then v else vs.Get k' := by
  by_cases hp : p
  · simp [hp, Values.get_set]
  · simp [hp]

theorem get_compact :
    r.ToQuery.Get (utf8 "compact") = if r.Compact then utf8 "1" else utf8 "0" := by
  rw [ToQuery]
  cases r.Compact <;> simp [Values.get_set]

theorem get_toQuery {k} (h : k ≠ utf8 "compact") : r.ToQuery.Get k =
      if k = utf8 "key" ∧ r.Key ≠ 0 then formatInt r.Key.toInt
      else if k = utf8 "numwant" ∧ r.NumWant ≠ 0 then formatUint (toUint64 r.NumWant)
      else if k = utf8 "port" ∧ r.Port > 0 then formatUint r.Port.toNat
      else if k = utf8 "event" ∧ r.Event > 0 then formatInt r.Event.toNat
      else if k = utf8 "ip" ∧ r.IP ≠ [] then r.IP
      else if k = utf8 "left" then formatInt r.Left.toInt
      else if k = utf8 "downloaded" then formatInt r.Downloaded.toInt
      else if k = utf8 "uploaded" then formatInt r.Uploaded.toInt
      else if k = utf8 "peer_id" then r.PeerID.bytes
      else if k = utf8 "info_hash" then r.InfoHash.bytes
      else [] := by
  have hlast : ∀ {vs : Values}, (if r.Compact then vs.Set (utf8 "compact") (utf8 "1")
        else vs.Set (utf8 "compact") (utf8 "0")).Get k = vs.Get k := by
    intro vs
    cases r.Compact <;> simp [Values.get_set, h]
  rw [ToQuery, hlast]
  simp only [get_set_if, Values.get_set]
  rfl

end Get

/-! ## Reading a query back -/

theorem ofInt_toUint64 (i : Int32) : Int32.ofInt (toUint64 i : ℤ) = i := by
  have hnat : (toUint64 i : ℤ) = i.toInt % 2 ^ 64 := toNat_of_nonneg (by omega)
  have hlo := i.le_toInt
  have hhi := i.toInt_lt
  rw [Int32.ofInt_eq_iff_bmod_eq_toInt, hnat, bmod_def]
  omega

theorem toUint64_lt (i : Int32) : toUint64 i < 2 ^ 64 := by
  unfold toUint64
  omega

variable {r vs}

theorem requiredInt_ok {key i} (h : vs.Get (utf8 key) = formatInt i.toInt) :
    requiredInt vs key = .ok i := by
  have hparse : parseInt 64 (formatInt i.toInt) = some i.toInt :=
    parseInt_formatInt (by exact_mod_cast i.le_toInt) (by exact_mod_cast i.toInt_lt)
  rw [requiredInt, h, hparse]
  exact congrArg Except.ok (Int64.ofInt_toInt i)

theorem optionalField_ok {α : Type} {key : String} {parse : Bytes → Option α}
    {store : α → AnnounceRequest} {p : Prop} [Decidable p] {s : Bytes} {a : α}
    {r' : AnnounceRequest} (h : vs.Get (utf8 key) = if p then s else []) (hs : s ≠ [])
    (hparse : parse s = some a) (hstore : store a = r') (hzero : ¬ p → r = r') :
    optionalField r vs key parse store = .ok r' := by
  rw [optionalField, h]
  by_cases hp : p
  · rw [if_pos hp, if_pos hs, hparse, ← hstore]
    rfl
  · rw [if_neg hp, if_neg (by simp), hzero hp]

theorem formatInt_ne_nil (i : ℤ) : formatInt i ≠ [] := by
  rw [formatInt]
  split_ifs
  · simp
  · exact formatUint_ne_nil _

theorem fromString_bytes (h : Hash) : Hash.FromString h.bytes = .ok h := by
  rw [Hash.FromString, if_pos h.length_eq, Hash.ofBytes_bytes]

theorem parseRequiredFields_toQuery : parseRequiredFields zero r.ToQuery = .ok { zero with
      InfoHash := r.InfoHash, PeerID := r.PeerID, Uploaded := r.Uploaded,
      Downloaded := r.Downloaded, Left := r.Left } := by
  have hinfo : r.ToQuery.Get (utf8 "info_hash") = r.InfoHash.bytes := by
    simp +decide [get_toQuery]
  have hpeer : r.ToQuery.Get (utf8 "peer_id") = r.PeerID.bytes := by
    simp +decide [get_toQuery]
  have hup : requiredInt r.ToQuery "uploaded" = .ok r.Uploaded :=
    requiredInt_ok (by simp +decide [get_toQuery])
  have hdown : requiredInt r.ToQuery "downloaded" = .ok r.Downloaded :=
    requiredInt_ok (by simp +decide [get_toQuery])
  have hleft : requiredInt r.ToQuery "left" = .ok r.Left :=
    requiredInt_ok (by simp +decide [get_toQuery])
  rw [parseRequiredFields, hinfo, hpeer, fromString_bytes, fromString_bytes]
  simp only [parseRequiredIntegers, hup, hdown, hleft]
  rfl

theorem parseEventField_toQuery {q : AnnounceRequest} (h : q.Event = 0) :
    parseEventField q r.ToQuery = .ok { q with Event := r.Event } := by
  refine optionalField_ok (p := r.Event > 0) (s := formatInt r.Event.toNat) (a := r.Event.toNat)
    (by simp +decide [get_toQuery]) (formatInt_ne_nil _) ?_ ?_ fun hp => ?_
  · exact parseUint_formatUint (r.Event.toNat_lt.trans (by decide))
  · rw [UInt32.ofNat_toNat]
  · have hr : r.Event = q.Event := (UInt32.le_zero_iff.1 (UInt32.not_lt.1 hp)).trans h.symm
    rw [hr]

theorem parsePortField_toQuery {q : AnnounceRequest} (h : q.Port = 0) :
    parsePortField q r.ToQuery = .ok { q with Port := r.Port } := by
  refine optionalField_ok (p := r.Port > 0) (s := formatUint r.Port.toNat) (a := r.Port.toNat)
    (by simp +decide [get_toQuery]) (formatUint_ne_nil _) ?_ ?_ fun hp => ?_
  · exact parseUint_formatUint (r.Port.toNat_lt.trans (by decide))
  · rw [UInt16.ofNat_toNat]
  · have hr : r.Port = q.Port := (UInt16.le_zero_iff.1 (UInt16.not_lt.1 hp)).trans h.symm
    rw [hr]

theorem parseNumWantField_toQuery {q : AnnounceRequest} (h : q.NumWant = 0) :
    parseNumWantField q r.ToQuery = .ok { q with NumWant := r.NumWant } := by
  refine optionalField_ok (p := r.NumWant ≠ 0) (s := formatUint (toUint64 r.NumWant))
    (a := toUint64 r.NumWant) (by simp +decide [get_toQuery]) (formatUint_ne_nil _) ?_ ?_
    fun hp => ?_
  · exact parseUint_formatUint (toUint64_lt _)
  · rw [ofInt_toUint64]
  · have hr : r.NumWant = q.NumWant := (not_not.1 hp).trans h.symm
    rw [hr]

theorem parseKeyField_toQuery {q : AnnounceRequest} (h : q.Key = 0) :
    parseKeyField q r.ToQuery = .ok { q with Key := r.Key } := by
  have hlo := r.Key.le_toInt
  have hhi := r.Key.toInt_lt
  refine optionalField_ok (p := r.Key ≠ 0) (s := formatInt r.Key.toInt) (a := r.Key.toInt)
    (by simp +decide [get_toQuery]) (formatInt_ne_nil _) ?_ ?_ fun hp => ?_
  · exact parseInt_formatInt (by omega) (by omega)
  · rw [Int32.ofInt_toInt]
  · have hr : r.Key = q.Key := (not_not.1 hp).trans h.symm
    rw [hr]

theorem parseOptionalFields_toQuery {q} (hevent : q.Event = 0)
    (hport : q.Port = 0) (hnum : q.NumWant = 0) (hkey : q.Key = 0) :
    parseOptionalFields q r.ToQuery = .ok { q with
      Event := r.Event, Port := r.Port, NumWant := r.NumWant, Key := r.Key } := by
  rw [parseOptionalFields, parseEventField_toQuery hevent]
  change (parsePortField { q with Event := r.Event } r.ToQuery >>= _) = _
  rw [parsePortField_toQuery (q := { q with Event := r.Event }) hport]
  change (parseNumWantField { q with Event := r.Event, Port := r.Port } r.ToQuery >>= _) = _
  rw [parseNumWantField_toQuery (q := { q with Event := r.Event, Port := r.Port }) hnum]
  exact parseKeyField_toQuery hkey

theorem parseStringFields_toQuery (q : AnnounceRequest) :
    parseStringFields q r.ToQuery = { q with IP := r.IP, Compact := r.Compact } := by
  have hip : r.ToQuery.Get (utf8 "ip") = r.IP := by
    by_cases h : r.IP = []
    · simp +decide [get_toQuery, h]
    · simp +decide [get_toQuery, h]
  rw [parseStringFields, hip, get_compact]
  cases r.Compact
  · rw [if_neg (by decide), if_pos (by decide)]
  · rw [if_pos (by decide)]

/-- **Announce queries are read back.** -/
theorem fromQuery_toQuery (r : AnnounceRequest) : FromQuery zero r.ToQuery = .ok r := by
  rw [FromQuery, parseRequiredFields_toQuery]
  change (parseOptionalFields _ r.ToQuery >>= _) = _
  rw [parseOptionalFields_toQuery rfl rfl rfl rfl]
  exact congrArg Except.ok (parseStringFields_toQuery _)

end AnnounceRequest

end GoI2pBt.Tracker.Http
