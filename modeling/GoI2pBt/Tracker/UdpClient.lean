/-
  When the UDP client returns, and takes only matching responses.
-/
import GoI2pBt.Lib.Act
import GoI2pBt.Tracker.UdpAnnounce
import GoI2pBt.Tracker.UdpResponse

namespace GoI2pBt.Tracker

open List Act Metainfo UInt32
open Option (bind_eq_bind bind_some)

/-! ## Scrape responses -/

def ScrapeResponse.DecodeFrom (b : Bytes) : Option ScrapeResponse := do
  let seeders ← sub b 0 4
  let completed ← sub b 4 8
  let leechers ← sub b 8 12
  return {
    seeders := UInt32.ofNat (beNat seeders)
    completed := UInt32.ofNat (beNat completed)
    leechers := UInt32.ofNat (beNat leechers) }

theorem ScrapeResponse.decodeFrom_isSome {b} (h : 12 ≤ b.length) : ∃ r, DecodeFrom b = some r := by
  unfold DecodeFrom
  rw [sub_eq (by omega) (by omega), sub_eq (by omega) (by omega), sub_eq (by omega) (by omega)]
  exact ⟨_, rfl⟩

/-! ## The outside -/

inductive ClientError where
  | shortBuffer
  | shortWrite
  | conn (err : Bytes)
  | text (reason : Bytes)
deriving DecidableEq

inductive Written where
  | whole
  | short
  | failed (err : Bytes)
deriving DecidableEq

structure Exchange where
  write : Written
  reply : Except Bytes Bytes

structure Occasion where
  now : ℤ
  renewed : ℤ
  renew : Exchange
  own : Exchange

structure Client where
  ipv4 : Bool
  maxBufSize : ℕ
  last : ℤ
  cid : UInt64
  tid : UInt32
  sent : List Bytes

/-! ## Checks of a response -/

namespace Client

def uint32At (data : Bytes) (i : ℕ) : Option UInt32 :=
  (sub data i (i + 4)).map fun b => UInt32.ofNat (beNat b)

def parseError (b : Bytes) : Option (UInt32 × Bytes) := do
  let tid ← uint32At b 0
  let reason ← sub b 4 b.length
  return (tid, reason)

def checkAction (expected : UInt32) (data : Bytes) : Option (Except ClientError Unit) := do
  let action ← uint32At data 0
  if action = expected then return .ok ()
  else if action = ActionError then do
    let e ← parseError (← sub data 4 data.length)
    return .error (.text e.2)
  else return .error (.text (utf8 "tracker response not connect action"))

def checkTranID (data : Bytes) (tid : UInt32) : Option (Except ClientError Unit) := do
  let t ← uint32At data 4
  if t ≠ tid then return .error (.text (utf8 "invalid transaction id"))
  else return .ok ()

def validateLong (expected : UInt32) (data : Bytes) (tid : UInt32) :
    Option (Except ClientError Unit) := do
  match ← checkAction expected data with
  | .error err => return .error err
  | .ok () => if data.length < 16 then return .error .shortBuffer else checkTranID data tid

def validateConnectResponse : Bytes → UInt32 → Option (Except ClientError Unit) :=
  validateLong ActionConnect

def validateAnnounceResponse : Bytes → UInt32 → Option (Except ClientError Unit) :=
  validateLong ActionAnnounce

def validateScrapeResponse (data : Bytes) (tid : UInt32) : Option (Except ClientError Unit) := do
  match ← checkAction ActionScrape data with
  | .error err => return .error err
  | .ok () => checkTranID data tid

/-! ## Operations -/

def orPanic {α : Type} : Option α → Act Client α
  | some x => pure x
  | none => crash

theorem exec_orPanic {α : Type} (x : α) (utc : Client) :
    (orPanic (some x)).exec utc = (some x, utc) := rfl

def getTranID : Act Client UInt32 := do
  modify fun utc => { utc with tid := utc.tid + 1 }
  let utc ← get
  return utc.tid

def send (x : Exchange) (b : Bytes) : Act Client (Except ClientError Unit) := do
  modify fun utc => { utc with sent := utc.sent ++ [b] }
  return match x.write with
    | .whole => .ok ()
    | .short => .error .shortWrite
    | .failed err => .error (.conn err)

def readResponse (x : Exchange) (size : ℕ) : Except ClientError Bytes :=
  match x.reply with
  | .error err => .error (.conn err)
  | .ok d => if (d.take size).length < 8 then .error .shortBuffer else .ok (d.take size)

def ask (x : Exchange) (request : Bytes) (size : ℕ)
    (validate : Bytes → Option (Except ClientError Unit)) : Act Client (Except ClientError Bytes) :=
  do
  match ← send x request with
  | .error err => return .error err
  | .ok () =>
    match readResponse x size with
    | .error err => return .error err
    | .ok data =>
      match ← orPanic (validate data) with
      | .error err => return .error err
      | .ok () => return .ok data

def requestHeader (id : UInt64) (action tid : UInt32) : Bytes :=
  beBytes 8 id.toNat ++ beBytes 4 action.toNat ++ beBytes 4 tid.toNat

def connect (x : Exchange) (renewed : ℤ) : Act Client (Except ClientError Unit) := do
  let tid ← getTranID
  match ← ask x (requestHeader ProtocolID ActionConnect tid) 32 (validateConnectResponse · tid) with
  | .error err => return .error err
  | .ok data => do
    let cid ← orPanic (sub data 8 16)
    modify fun utc => { utc with cid := UInt64.ofNat (beNat cid), last := renewed }
    return .ok ()

def minute : ℤ := 60 * 10 ^ 9

def getConnectionID (o : Occasion) : Act Client (Except ClientError UInt64) := do
  let utc ← get
  if o.now - utc.last > minute then
    match ← connect o.renew o.renewed with
    | .error err => return .error err
    | .ok () => do
      let utc ← get
      return .ok utc.cid
  else return .ok utc.cid

def decodeResponse (ipv4 : Bool) :
    Except ClientError Bytes → Act Client (Except ClientError AnnounceResponse)
  | .error err => return .error err
  | .ok data => do
    let b ← orPanic (sub data 8 data.length)
    let r ← orPanic (AnnounceResponse.DecodeFrom b ipv4)
    return .ok r

def announce (net : Net) (o : Occasion) (req : AnnounceRequest) :
    Act Client (Except ClientError AnnounceResponse) := do
  match ← getConnectionID o with
  | .error err => return .error err
  | .ok cid => do
    let tid ← getTranID
    let b ← orPanic (req.EncodeTo net)
    let utc ← get
    let data ← ask o.own (requestHeader cid ActionAnnounce tid ++ b) utc.maxBufSize
      (validateAnnounceResponse · tid)
    decodeResponse utc.ipv4 data

def parseScrapeResults : ℕ → Bytes → Option (List ScrapeResponse)
  | 0, _ => some []
  | n + 1, data => do
    let r ← ScrapeResponse.DecodeFrom (← sub data 0 12)
    let rs ← parseScrapeResults n (data.drop 12)
    return r :: rs

def scrape (o : Occasion) (ihs : List Hash) :
    Act Client (Except ClientError (List ScrapeResponse)) := do
  match ← getConnectionID o with
  | .error err => return .error err
  | .ok cid => do
    let tid ← getTranID
    let utc ← get
    match ← ask o.own (requestHeader cid ActionScrape tid ++ ihs.flatMap Hash.bytes) utc.maxBufSize
      (validateScrapeResponse · tid) with
    | .error err => return .error err
    | .ok data => do
      let rest ← orPanic (sub data 8 data.length)
      let rs ← orPanic (parseScrapeResults (rest.length / 12) rest)
      return .ok rs

/-! ## What the checks accept -/

variable {data : Bytes}

structure Matches (action tid : UInt32) (data : Bytes) : Prop where
  length : 8 ≤ data.length
  action : UInt32.ofNat (beNat (slice data 0 4)) = action
  tid : UInt32.ofNat (beNat (slice data 4 4)) = tid

theorem uint32At_eq {i} (h : i + 4 ≤ data.length) :
    uint32At data i = some (ofNat (beNat (slice data i 4))) := by
  rw [uint32At, sub_eq (by omega) h, Option.map_some, Nat.add_sub_cancel_left]

theorem checkAction_spec (action : UInt32) (h : 8 ≤ data.length) :
    ∃ r, checkAction action data = some r ∧
      (r = .ok () ↔ ofNat (beNat (slice data 0 4)) = action) := by
  have hrest : (data.drop 4).length = data.length - 4 := length_drop
  rw [checkAction, uint32At_eq (by omega), bind_eq_bind, bind_some]
  by_cases haction : ofNat (beNat (slice data 0 4)) = action
  · rw [if_pos haction]
    exact ⟨_, rfl, iff_of_true rfl haction⟩
  · rw [if_neg haction]
    split_ifs with herr
    · rw [sub_end (by omega), bind_eq_bind, bind_some, parseError,
        uint32At_eq (by omega), sub_end (by omega)]
      exact ⟨_, rfl, iff_of_false (by rintro ⟨⟩) haction⟩
    · exact ⟨_, rfl, iff_of_false (by rintro ⟨⟩) haction⟩

theorem checkTranID_spec (tid : UInt32) (h : 8 ≤ data.length) : ∃ r, checkTranID data tid = some r ∧
    (r = .ok () ↔ ofNat (beNat (slice data 4 4)) = tid) := by
  rw [checkTranID, uint32At_eq (by omega), bind_eq_bind, bind_some]
  by_cases htid : ofNat (beNat (slice data 4 4)) = tid
  · rw [if_neg (not_not.mpr htid)]
    exact ⟨_, rfl, iff_of_true rfl htid⟩
  · rw [if_pos htid]
    exact ⟨_, rfl, iff_of_false (by rintro ⟨⟩) htid⟩

theorem validateLong_spec (action tid : UInt32) (h : 8 ≤ data.length) :
    ∃ r, validateLong action data tid = some r ∧
      (r = .ok () ↔ Matches action tid data ∧ 16 ≤ data.length) := by
  obtain ⟨r, hr, hok⟩ := checkAction_spec action h
  obtain ⟨r', hr', hok'⟩ := checkTranID_spec tid h
  rw [validateLong, hr, bind_eq_bind, bind_some]
  cases r with
  | error err =>
    refine ⟨_, rfl, iff_of_false (by rintro ⟨⟩) fun hm => ?_⟩
    cases hok.mpr hm.1.action
  | ok u =>
    dsimp only
    split_ifs with hlen
    · exact ⟨_, rfl, iff_of_false (by rintro ⟨⟩) fun hm => by omega⟩
    · refine ⟨r', hr', hok'.trans ⟨fun ht => ⟨⟨h, hok.mp rfl, ht⟩, by omega⟩, fun hm => hm.1.tid⟩⟩

theorem validateScrapeResponse_spec (tid : UInt32) (h : 8 ≤ data.length) :
    ∃ r, validateScrapeResponse data tid = some r ∧
      (r = .ok () ↔ Matches ActionScrape tid data) := by
  obtain ⟨r, hr, hok⟩ := checkAction_spec ActionScrape h
  obtain ⟨r', hr', hok'⟩ := checkTranID_spec tid h
  rw [validateScrapeResponse, hr, bind_eq_bind, bind_some]
  cases r with
  | error err =>
    refine ⟨_, rfl, iff_of_false (by rintro ⟨⟩) fun hm => ?_⟩
    cases hok.mpr hm.action
  | ok u => exact ⟨r', hr', hok'.trans ⟨fun ht => ⟨h, hok.mp rfl, ht⟩, fun hm => hm.tid⟩⟩

/-! ## Exchanges -/

def Gives (x : Exchange) (size : ℕ) (data : Bytes) : Prop :=
  x.write = .whole ∧ ∃ d, x.reply = .ok d ∧ data = d.take size

theorem exec_ask (x : Exchange) (request : Bytes) (size : ℕ)
    (validate : Bytes → Option (Except ClientError Unit)) {Valid : Bytes → Prop}
    (hvalid : ∀ data, 8 ≤ data.length → ∃ r, validate data = some r ∧ (r = .ok () ↔ Valid data))
    (utc : Client) :
    ∃ r, (ask x request size validate).exec utc =
        (some r, { utc with sent := utc.sent ++ [request] }) ∧
      ∀ data, r = .ok data ↔ Gives x size data ∧ 8 ≤ data.length ∧ Valid data := by
  obtain ⟨write, reply⟩ := x
  rw [ask, send, bind_assoc, exec_modify_bind, exec_pure_bind]
  cases write with
  | short | failed =>
    exact ⟨_, rfl, fun data => iff_of_false (by rintro ⟨⟩) (by rintro ⟨⟨⟨⟩, -⟩, -⟩)⟩
  | whole =>
    dsimp only
    rw [readResponse]
    cases reply with
    | error err =>
      exact ⟨_, rfl, fun data => iff_of_false (by rintro ⟨⟩) (by rintro ⟨⟨-, d, ⟨⟩, -⟩, -⟩)⟩
    | ok d =>
      dsimp only
      split_ifs with hshort
      · refine ⟨_, rfl, fun data => iff_of_false (by rintro ⟨⟩) ?_⟩
        rintro ⟨⟨-, d', ⟨⟩, rfl⟩, hlen, -⟩
        omega
      · obtain ⟨r, hr, hok⟩ := hvalid (d.take size) (by omega)
        dsimp only
        rw [hr]
        cases r with
        | error err =>
          refine ⟨_, rfl, fun data => iff_of_false (by rintro ⟨⟩) ?_⟩
          rintro ⟨⟨-, d', ⟨⟩, rfl⟩, -, hdata⟩
          cases hok.mpr hdata
        | ok u =>
          refine ⟨_, rfl, fun data => ⟨?_, ?_⟩⟩
          · rintro ⟨⟩
            exact ⟨⟨rfl, d, rfl, rfl⟩, by omega, hok.mp rfl⟩
          · rintro ⟨⟨-, d', ⟨⟩, rfl⟩, -, -⟩
            rfl

def Connects (x : Exchange) (tid : UInt32) : Prop :=
  ∃ data, Gives x 32 data ∧ Matches ActionConnect tid data ∧ 16 ≤ data.length

theorem exec_connect (x : Exchange) (renewed : ℤ) (utc : Client) :
    ∃ r utc', (connect x renewed).exec utc = (some r, utc') ∧
      utc'.tid = utc.tid + 1 ∧ utc'.ipv4 = utc.ipv4 ∧ utc'.maxBufSize = utc.maxBufSize ∧
      utc'.sent = utc.sent ++ [requestHeader ProtocolID ActionConnect (utc.tid + 1)] ∧
      (r = .ok () ↔ Connects x (utc.tid + 1)) := by
  obtain ⟨r, hrun, hok⟩ := exec_ask x (requestHeader ProtocolID ActionConnect (utc.tid + 1)) 32
    (validateConnectResponse · (utc.tid + 1))
    (fun data h => validateLong_spec ActionConnect (utc.tid + 1) h) { utc with tid := utc.tid + 1 }
  rw [connect, getTranID, bind_assoc, exec_modify_bind, bind_assoc, exec_get_bind, exec_pure_bind,
    exec_bind_some hrun]
  cases r with
  | error err =>
    refine ⟨_, _, rfl, rfl, rfl, rfl, rfl, iff_of_false (by rintro ⟨⟩) ?_⟩
    rintro ⟨data, hgives, hm⟩
    cases (hok data).mpr ⟨hgives, hm.1.length, hm⟩
  | ok data =>
    obtain ⟨hgives, -, hm, hlen⟩ := (hok data).mp rfl
    dsimp only
    rw [sub_eq (by omega) (by omega)]
    exact ⟨_, _, rfl, rfl, rfl, rfl, rfl, iff_of_true rfl ⟨data, hgives, hm, hlen⟩⟩

def Ready (o : Occasion) (utc : Client) : Prop :=
  o.now - utc.last > minute → Connects o.renew (utc.tid + 1)

def requestID (o : Occasion) (utc : Client) : UInt32 :=
  if o.now - utc.last > minute then utc.tid + 1 + 1 else utc.tid + 1

theorem exec_getConnectionID (o : Occasion) (utc : Client) :
    ∃ r utc', (getConnectionID o).exec utc = (some r, utc') ∧
      utc'.tid + 1 = requestID o utc ∧ utc'.ipv4 = utc.ipv4 ∧ utc'.maxBufSize = utc.maxBufSize ∧
      ((∃ cid, r = .ok cid) ↔ Ready o utc) := by
  rw [getConnectionID, exec_get_bind, requestID, Ready]
  by_cases hstale : o.now - utc.last > minute
  · rw [if_pos hstale, if_pos hstale]
    obtain ⟨r, utc', hrun, htid, hv4, hsize, -, hok⟩ := exec_connect o.renew o.renewed utc
    rw [exec_bind_some hrun]
    cases r with
    | error err =>
      refine ⟨_, _, rfl, by rw [htid], hv4, hsize, iff_of_false ?_ fun h => ?_⟩
      · rintro ⟨cid, ⟨⟩⟩
      · cases hok.mpr (h hstale)
    | ok u => exact ⟨_, _, rfl, by rw [htid], hv4, hsize, iff_of_true ⟨_, rfl⟩ fun _ => hok.mp rfl⟩
  · rw [if_neg hstale, if_neg hstale]
    exact ⟨_, _, rfl, rfl, rfl, rfl, iff_of_true ⟨_, rfl⟩ fun h => absurd h hstale⟩

/-! ## Safety -/

def Answered (x : Exchange) (action : UInt32) (utc : Client) : Prop :=
  ∃ request d, utc.sent.getLast? = some request ∧ x.reply = .ok d ∧ 8 ≤ d.length ∧
    slice d 0 4 = beBytes 4 action.toNat ∧ slice d 4 4 = slice request 12 4

def Safe {α : Type} (op : Act Client (Except ClientError α)) (x : Exchange) (action : UInt32)
    (utc : Client) : Prop :=
  Runs op utc fun r utc' => ∀ v, r = .ok v → Answered x action utc'

theorem eq_beBytes_of_ofNat {b x} (hb : b.length = 4)
    (h : ofNat (beNat b) = x) : b = beBytes 4 x.toNat := by
  have hlt : beNat b < 2 ^ 32 := by
    have := beNat_lt b
    rw [hb] at this
    omega
  rw [← h, toNat_ofNat', Nat.mod_eq_of_lt hlt, ← hb, beBytes_beNat]

theorem slice_requestHeader (id : UInt64) (action tid : UInt32) (rest : Bytes) :
    slice (requestHeader id action tid ++ rest) 12 4 = beBytes 4 tid.toNat := by
  have hlen : (beBytes 8 id.toNat ++ beBytes 4 action.toNat).length = 12 := by simp
  rw [requestHeader, append_assoc, slice, drop_left' hlen, take_left' (length_beBytes _ _)]

theorem answered_of_matches {x size id action tid rest utc l} (hx : Gives x size data)
    (h : Matches action tid data)
    (hsent : utc.sent = l ++ [requestHeader id action tid ++ rest]) : Answered x action utc := by
  obtain ⟨-, d, hd, rfl⟩ := hx
  have hlen := h.length
  have hsize : 8 ≤ d.length ∧ 8 ≤ size := by
    rw [length_take] at hlen
    omega
  have hslice : ∀ i, i + 4 ≤ 8 → slice (d.take size) i 4 = slice d i 4 := by
    intro i hi
    rw [slice, slice, drop_take, take_take, min_eq_left (by omega)]
  have hfour : ∀ i, i + 4 ≤ 8 → (slice d i 4).length = 4 := fun i hi => length_slice (by omega)
  have haction := h.action
  have htid := h.tid
  rw [hslice 0 (by omega)] at haction
  rw [hslice 4 (by omega)] at htid
  refine ⟨_, d, by rw [hsent, getLast?_concat], hd, hsize.1,
    eq_beBytes_of_ofNat (hfour 0 (by omega)) haction, ?_⟩
  rw [slice_requestHeader]
  exact eq_beBytes_of_ofNat (hfour 4 (by omega)) htid

theorem safe_connect (x : Exchange) (renewed : ℤ) (utc : Client) :
    Safe (connect x renewed) x ActionConnect utc := by
  obtain ⟨r, utc', hrun, -, -, -, hsent, hok⟩ := exec_connect x renewed utc
  refine ⟨r, utc', hrun, fun v hv => ?_⟩
  obtain ⟨data, hgives, hm, -⟩ := hok.mp hv
  rw [← append_nil (requestHeader _ _ _)] at hsent
  exact answered_of_matches hgives hm hsent

theorem parseScrapeResults_isSome {n data} (h : n * 12 ≤ data.length) :
    ∃ rs, parseScrapeResults n data = some rs := by
  induction n generalizing data with
  | zero => exact ⟨[], rfl⟩
  | succ n ih =>
    have hslice : (slice data 0 (12 - 0)).length = 12 := length_slice (by omega)
    obtain ⟨r, hr⟩ := ScrapeResponse.decodeFrom_isSome hslice.ge
    have hrest : n * 12 ≤ (data.drop 12).length := by
      rw [length_drop]
      omega
    obtain ⟨rs, hrs⟩ := ih hrest
    rw [parseScrapeResults, sub_eq (by omega) (by omega), bind_eq_bind, bind_some, hr,
      bind_eq_bind, bind_some, hrs]
    exact ⟨_, rfl⟩

theorem safe_scrape (o : Occasion) (ihs : List Hash) (utc : Client) :
    Safe (scrape o ihs) o.own ActionScrape utc := by
  obtain ⟨r, utc', hrun, -, -, -, -⟩ := exec_getConnectionID o utc
  rw [Safe, scrape]
  refine runs_bind_of_exec hrun ?_
  cases r with
  | error err => exact runs_pure fun v hv => by cases hv
  | ok cid =>
    obtain ⟨r, hask, hok⟩ := exec_ask o.own
      (requestHeader cid ActionScrape (utc'.tid + 1) ++ ihs.flatMap Hash.bytes) utc'.maxBufSize
      (validateScrapeResponse · (utc'.tid + 1))
      (fun data h => validateScrapeResponse_spec (utc'.tid + 1) h)
      { utc' with tid := utc'.tid + 1 }
    refine runs_bind_of_exec (x := getTranID) rfl (runs_get_bind (runs_bind_of_exec hask ?_))
    cases r with
    | error err => exact runs_pure fun v hv => by cases hv
    | ok data =>
      obtain ⟨hgives, hlen, hm⟩ := (hok data).mp rfl
      obtain ⟨rs, hrs⟩ := parseScrapeResults_isSome (Nat.div_mul_le_self (data.drop 8).length 12)
      dsimp only
      rw [sub_end hlen]
      refine runs_bind_of_exec rfl ?_
      rw [hrs]
      exact runs_bind_of_exec rfl (runs_pure fun v _ => answered_of_matches hgives hm rfl)

def CutShort (o : Occasion) (utc : Client) : Prop := ∃ data, Gives o.own utc.maxBufSize data ∧
    Matches ActionAnnounce (requestID o utc) data ∧ 16 ≤ data.length ∧ data.length < 20

theorem decodeFrom_eq_none {b} (h : b.length < 12) (ipv4 : Bool) :
    AnnounceResponse.DecodeFrom b ipv4 = none := by
  unfold AnnounceResponse.DecodeFrom
  have hsub : sub b 8 12 = none := if_neg fun hle => absurd hle.2 (by omega)
  rw [hsub]
  cases sub b 0 4 with
  | none => rfl
  | some interval => cases sub b 4 8 <;> rfl

theorem safe_announce_iff (net : Net) (o : Occasion) (req : AnnounceRequest) (utc : Client) :
    Safe (announce net o req) o.own ActionAnnounce utc ↔
      (Ready o utc → req.Encodable ∧ ¬ CutShort o utc) := by
  rw [← req.encodeTo_isSome_iff net]
  obtain ⟨r, utc', hrun, htid, hv4, hsize, hready⟩ := exec_getConnectionID o utc
  rw [Safe, announce, runs_bind_iff_of_exec hrun]
  cases r with
  | error err =>
    refine iff_of_true (runs_pure fun v hv => by cases hv) fun h => ?_
    obtain ⟨cid, ⟨⟩⟩ := hready.mpr h
  | ok cid =>
    have hr : Ready o utc := hready.mp ⟨cid, rfl⟩
    have htran : getTranID.exec utc' =
      (some (utc'.tid + 1), { utc' with tid := utc'.tid + 1 }) := rfl
    dsimp only
    rw [runs_bind_iff_of_exec htran]
    cases hb : req.EncodeTo net with
    | none => exact iff_of_false (fun hsafe => hsafe.not_none rfl) fun h => by cases (h hr).1
    | some b =>
      obtain ⟨r, hask, hok⟩ := exec_ask o.own
        (requestHeader cid ActionAnnounce (utc'.tid + 1) ++ b) utc'.maxBufSize
        (validateAnnounceResponse · (utc'.tid + 1))
        (fun data h => validateLong_spec ActionAnnounce (utc'.tid + 1) h)
        { utc' with tid := utc'.tid + 1 }
      rw [runs_bind_iff_of_exec (exec_orPanic b _), runs_bind_iff_of_exec (exec_get _),
        runs_bind_iff_of_exec hask]
      rw [htid, hsize] at hok
      cases r with
      | error err =>
        refine iff_of_true (runs_pure fun v hv => by cases hv) fun _ => ⟨rfl, ?_⟩
        rintro ⟨data, hgives, hm, hlen, -⟩
        cases (hok data).mpr ⟨hgives, hm.length, hm, hlen⟩
      | ok data =>
        obtain ⟨hgives, hlen, hm, hlong⟩ := (hok data).mp rfl
        have hrest : (data.drop 8).length = data.length - 8 := length_drop
        rw [decodeResponse]
        dsimp only
        rw [sub_end hlen, runs_bind_iff_of_exec (exec_orPanic _ _)]
        by_cases hcut : data.length < 20
        · rw [decodeFrom_eq_none (by omega)]
          exact iff_of_false (fun hsafe => hsafe.not_none rfl) fun h =>
            (h hr).2 ⟨data, hgives, hm, hlong, hcut⟩
        · refine iff_of_true ?_ fun _ => ⟨rfl, ?_⟩
          · rw [AnnounceResponse.decodeFrom_eq (by omega)]
            refine runs_bind_of_exec rfl (runs_pure fun v _ => ?_)
            rw [← htid] at hm
            exact answered_of_matches hgives hm rfl
          · rintro ⟨data', hgives', hm', hlen', hcut'⟩
            have heq := (hok data').mpr ⟨hgives', hm'.length, hm', hlen'⟩
            cases heq
            exact hcut hcut'

structure AllSafe (net : Net) (o : Occasion) (req : AnnounceRequest) (ihs : List Hash)
    (utc : Client) : Prop where
  connect : Safe (connect o.renew o.renewed) o.renew ActionConnect utc
  announce : Safe (announce net o req) o.own ActionAnnounce utc
  scrape : Safe (scrape o ihs) o.own ActionScrape utc

/-- **When the operations of the client are safe.** -/
theorem operations_safe_iff (net : Net) (o : Occasion) (req : AnnounceRequest) (ihs : List Hash)
    (utc : Client) :
    AllSafe net o req ihs utc ↔ (Ready o utc → req.Encodable ∧ ¬ CutShort o utc) :=
  ⟨fun h => (safe_announce_iff net o req utc).mp h.announce, fun h =>
    ⟨safe_connect _ _ utc, (safe_announce_iff net o req utc).mpr h, safe_scrape o ihs utc⟩⟩

def sampleClient : Client where
  ipv4 := true
  maxBufSize := 2048
  last := 0
  cid := 7
  tid := 0
  sent := []

def shortReply : Occasion where
  now := 0
  renewed := 0
  renew := ⟨.whole, .error []⟩
  own := ⟨.whole, .ok [0, 0, 0, 1, 0, 0, 0, 1, 0, 0, 7, 8, 0, 0, 0, 1]⟩

theorem announce_short_panics : ((announce Address.sampleNet shortReply
    (AnnounceRequest.sampleRequest [1, 2, 3, 4])).exec sampleClient).1 = none ∧
    ¬ AllSafe Address.sampleNet shortReply (AnnounceRequest.sampleRequest [1, 2, 3, 4]) []
      sampleClient := by
  have hpanic : ((announce Address.sampleNet shortReply
      (AnnounceRequest.sampleRequest [1, 2, 3, 4])).exec sampleClient).1 = none :=
    Option.isNone_iff_eq_none.mp (by decide +kernel)
  exact ⟨hpanic, fun h => h.announce.not_none hpanic⟩

end Client

end GoI2pBt.Tracker
