/-
  The methods of the RPC interface.
-/
import GoI2pBt.Rpc.Requests
import GoI2pBt.Rpc.WebSeedManager

namespace GoI2pBt.Rpc

open Json Metainfo
open Bencode (Error)

def ErrCodeInvalidRequest : ℤ := -32600

def ErrCodeMethodNotFound : ℤ := -32601

def ErrCodeInvalidParams : ℤ := -32602

def ErrCodeInternalError : ℤ := -32603

def ErrCodeParseError : ℤ := -32700

def ErrCodeDuplicateTorrent : ℤ := 1

def ErrCodeInvalidArgument : ℤ := 2

structure RPCMethods where
  manager : TorrentManager
  webseedManager : WebSeedManager
  bandwidthScheduler : BandwidthScheduler

structure Packages where
  platform : Platform
  float : Float64
  host : HostParser
  errorText : Error → String

structure Outside where
  order : List Int64
  now : ℤ
  startedRecently : Int64 → Bool
  timeout : Bool

/-! ## Reading -/

structure TorrentFile where
  BytesCompleted : ℤ
  Length : ℤ
  Name : Bytes
deriving DecidableEq

structure FileStat where
  BytesCompleted : ℤ
  Wanted : Bool
  Priority : ℤ
deriving DecidableEq

structure Torrent where
  ID : Int64
  HashString : Bytes
  Name : Bytes
  Status : TorrentStatus
  QueuePosition : ℤ
  DownloadDir : Bytes
  Files : List TorrentFile
  FileStats : List FileStat
  Priorities : List ℤ
  Wanted : List Bool
  Trackers : List Bytes
  TrackerStats : List Bytes
  TotalSize : ℤ
  LeftUntilDone : ℤ
  PercentDone : ℚ
  SizeWhenDone : ℤ
  DownloadedEver : ℤ
  HaveValid : ℤ
  Labels : List Bytes
  MagnetLink : Bytes
  IsFinished : Bool
  MetadataPercentComplete : ℚ
deriving DecidableEq

structure TorrentMagnet where
  ID : Int64
  Name : Bytes
  HashString : Bytes
  MagnetLink : Bytes
deriving DecidableEq

structure SchedulerStats where
  enabled : Bool
  rules_count : ℕ
  current_rule : Option BandwidthScheduleRule

structure BandwidthScheduleGetResponse where
  Enabled : Bool
  Rules : List BandwidthScheduleRule
  Current : Option BandwidthScheduleRule
  Stats : SchedulerStats

inductive Result where
  | nothing
  | torrents (torrents : List Torrent) (removed : List Int64)
  | torrentAdded (torrent : Torrent)
  | torrentDuplicate (torrent : Torrent)
  | magnets (magnets : List TorrentMagnet)
  | webSeeds (torrents : List (Int64 × List WebSeed))
  | schedule (response : BandwidthScheduleGetResponse)
  | session (config : SessionConfiguration)
  | stats (torrentCount : ℕ)

abbrev Outcome := Except RPCError Result

abbrev Handler := Option Json → RPCMethods → Option (RPCMethods × Outcome)

def unmarshal {α : Type} (into : Into α) (zero : α)
    (method : α → RPCMethods → Option (RPCMethods × Outcome)) : Handler := fun params m =>
  match params.bind fun v => into v zero with
  | none => some (m, .error ⟨ErrCodeInvalidParams, "json"⟩)
  | some req => method req m

def TmError.message (text : Error → String) : TmError → String
  | .text message => message
  | .wrap message err => message ++ ": " ++ text err

def QueueManager.GetQueuePosition (qm : QueueManager) (torrentID : Int64) : ℤ :=
  match (qm.lane .DownloadQueue).queue.lookup torrentID, (qm.lane .SeedQueue).queue.lookup torrentID with
  | some item, _ => item.QueuePosition
  | none, some item => item.QueuePosition
  | none, none => -1

def uniqueAnnounces (al : List (List Bytes)) : List Bytes :=
  al.flatten.foldl (fun announces v => if v ≠ [] ∧ v ∉ announces then announces ++ [v] else announces) []

namespace RPCMethods

variable (K : Packages) (o : Outside) (m : RPCMethods)

def GetAllTorrents : List TorrentState := o.order.filterMap m.manager.torrents.lookup

def torrentIDs (ids : List Int64) : List Int64 :=
  if ids = [] then (m.GetAllTorrents o).map TorrentState.ID else ids

def seedKey (id : Int64) : Bytes := formatInt id.toInt

def GetWebSeeds (id : Int64) : List WebSeed := m.webseedManager.GetWebSeeds (seedKey id)

def hexOf (h : Hash) : Bytes := hexString h.bytes

def getName (t : TorrentState) : Bytes :=
  match t.MetaInfo with
  | none => hexOf t.InfoHash
  | some metaInfo =>
    match metaInfo.Info K.platform.env with
    | .ok info => info.name
    | .error _ => hexOf t.InfoHash

def magnetOf (metaInfo : MetaInfo) (infoHash : Hash) : Magnet where
  InfoHash := if infoHash.IsZero then metaInfo.InfoHash K.platform.sha1 else infoHash
  Trackers := uniqueAnnounces metaInfo.Announces
  DisplayName :=
    match metaInfo.Info K.platform.env with
    | .ok info => info.name
    | .error _ => []
  WebSeeds := metaInfo.urlList
  Params := ∅

def activeURLs (id : Int64) : List Bytes :=
  ((m.GetWebSeeds id).filter fun ws => ws.Active && !ws.Failed).map WebSeed.URL

def generateMagnetLink (t : TorrentState) : Bytes :=
  match t.MetaInfo with
  | some metaInfo =>
    let magnet := magnetOf K metaInfo t.InfoHash
    { magnet with WebSeeds := magnet.WebSeeds ++ m.activeURLs t.ID }.String
  | none =>
    let name := getName K t
    let name := if name = [] then hexOf t.InfoHash else name
    utf8 "magnet:?xt=urn:btih:" ++ hexOf t.InfoHash ++ utf8 "&dn=" ++
      (name.flatMap fun c => if c = ch ' ' then utf8 "%20" else [c]) ++
      (m.activeURLs t.ID).flatMap fun url => utf8 "&ws=" ++ queryEscape url

def convertTorrentStateToTorrent (t : TorrentState) : Torrent :=
  let totalSize := t.Files.foldl (fun sum f => wrap64 (sum + f.Length)) 0
  let completed := t.Files.foldl (fun sum f => wrap64 (sum + f.BytesCompleted)) 0
  { ID := t.ID
    HashString := hexOf t.InfoHash
    Name := getName K t
    Status := t.Status
    QueuePosition := m.manager.queueManager.GetQueuePosition t.ID
    DownloadDir := t.DownloadDir
    Files := t.Files.map fun f => ⟨f.BytesCompleted, f.Length, f.Name⟩
    FileStats := t.Files.map fun f => ⟨f.BytesCompleted, f.Wanted, f.Priority⟩
    Priorities := t.Priorities.take t.Files.length
    Wanted := t.Wanted.take t.Files.length
    Trackers := t.TrackerList
    TrackerStats := t.TrackerList
    TotalSize := totalSize
    LeftUntilDone := wrap64 (totalSize - completed)
    PercentDone := if totalSize > 0 then K.platform.quotient completed totalSize else 0
    SizeWhenDone := totalSize
    DownloadedEver := completed
    HaveValid := completed
    Labels := t.Labels
    MagnetLink :=
      match t.MetaInfo with
      | some metaInfo => (magnetOf K metaInfo t.InfoHash).String
      | none => []
    IsFinished := t.Status = .Seeding
    MetadataPercentComplete :=
      if t.MetaInfo ≠ none then 1 else if t.Status = .QueuedVerify then 1 / 2 else 0 }

def filterTorrentFields (t : Torrent) (fields : List Bytes) : Torrent :=
  let has (name : String) : Bool := utf8 name ∈ fields
  { ID := if has "id" then t.ID else 0
    HashString := if has "hashString" then t.HashString else []
    Name := if has "name" then t.Name else []
    Status := if has "status" then t.Status else .Stopped
    QueuePosition := 0
    DownloadDir := if has "downloadDir" then t.DownloadDir else []
    Files := if has "files" then t.Files else []
    FileStats := if has "fileStats" then t.FileStats else []
    Priorities := if has "priorities" then t.Priorities else []
    Wanted := if has "wanted" then t.Wanted else []
    Trackers := if has "trackers" then t.Trackers else []
    TrackerStats := if has "trackerStats" then t.TrackerStats else []
    TotalSize := if has "totalSize" then t.TotalSize else 0
    LeftUntilDone := if has "leftUntilDone" then t.LeftUntilDone else 0
    PercentDone := if has "percentDone" then t.PercentDone else 0
    SizeWhenDone := if has "sizeWhenDone" then t.SizeWhenDone else 0
    DownloadedEver := if has "downloadedEver" then t.DownloadedEver else 0
    HaveValid := if has "haveValid" then t.HaveValid else 0
    Labels := if has "labels" then t.Labels else []
    MagnetLink := if has "magnetLink" then t.MagnetLink else []
    IsFinished := has "isFinished" && t.IsFinished
    MetadataPercentComplete :=
      if has "metadataPercentComplete" then t.MetadataPercentComplete else 0 }

def GetTorrentByHash (hash : Bytes) : Option TorrentState :=
  (m.GetAllTorrents o).find? fun t => hexOf t.InfoHash = hash

def getRecentlyActiveTorrents : List Int64 := ((m.GetAllTorrents o).filter fun t =>
    t.Status = .Downloading ∨ t.Status = .Seeding ∨ o.startedRecently t.ID).map TorrentState.ID

def resolveStringIdentifier (v : Bytes) : Except String (List Int64) :=
  if v = utf8 "recently-active" then .ok (m.getRecentlyActiveTorrents o)
  else
    match m.GetTorrentByHash o v with
    | some t => .ok [t.ID]
    | none => .error ("torrent not found: " ++ textOf v)

def convertSingleIdentifier : Json → Except String (List Int64)
  | .num literal => .ok [K.float.toInt64 literal]
  | .str v => m.resolveStringIdentifier o v
  | .null => .error "invalid torrent ID type: <nil>"
  | .bool _ => .error "invalid torrent ID type: bool"
  | .arr _ => .error "invalid torrent ID type: []interface \x7b\x7d"
  | .obj _ => .error "invalid torrent ID type: map[string]interface \x7b\x7d"

def processIdentifierList : List Json → Except String (List Int64)
  | [] => .ok []
  | id :: ids => do
    let resolvedIDs ← m.convertSingleIdentifier K o id
    let result ← processIdentifierList ids
    return resolvedIDs ++ result

def ResolveTorrentIDs (ids : List Json) : Except String (List Int64) :=
  if ids.isEmpty then .ok o.order else m.processIdentifierList K o ids

/-! ## The methods that read -/

def TorrentGet (req : TorrentGetRequest) : Outcome :=
  match m.ResolveTorrentIDs K o req.IDs with
  | .error err => .error ⟨ErrCodeInvalidArgument, err⟩
  | .ok ids =>
    let view (t : TorrentState) : Torrent :=
      let torrent := m.convertTorrentStateToTorrent K t
      if req.Fields.isEmpty then torrent else filterTorrentFields torrent req.Fields
    .ok (.torrents ((ids.filterMap m.manager.torrents.lookup).map view)
      (ids.filter fun id => (m.manager.torrents.lookup id).isNone))

def TorrentMagnet (req : TorrentMagnetRequest) : Outcome :=
  let torrents :=
    if req.IDs = [] then m.GetAllTorrents o else req.IDs.filterMap m.manager.torrents.lookup
  .ok (.magnets (torrents.map fun t =>
    ⟨t.ID, getName K t, hexOf t.InfoHash, m.generateMagnetLink K t⟩))

def TorrentWebSeedGet (req : TorrentWebSeedGetRequest) : Outcome :=
  .ok (.webSeeds ((m.torrentIDs o req.IDs).map fun id => (id, m.GetWebSeeds id)))

def BandwidthScheduleGet : Outcome :=
  let scheduler := m.bandwidthScheduler
  .ok (.schedule
    { Enabled := scheduler.enabled
      Rules := scheduler.GetRules
      Current := scheduler.GetCurrentRule
      Stats := ⟨scheduler.enabled, scheduler.rules.length, scheduler.GetCurrentRule⟩ })

def SessionGet : Outcome := .ok (.session m.manager.sessionConfig)

def SessionStats : Outcome := .ok (.stats m.manager.torrents.keys.card)

/-! ## The web seeds -/

def seedTypeOf (s : Bytes) : Option WebSeedType :=
  if s = [] then some .HTTPFTP
  else if s = utf8 "url-list" then some .HTTPFTP
  else if s = utf8 "url-data" then some .GetRight
  else none

def addWebSeeds (url : Bytes) (seedType : WebSeedType) :
    List Int64 → WebSeedManager → WebSeedManager × Outcome
  | [], ws => (ws, .ok .nothing)
  | id :: ids, ws =>
    match ws.AddWebSeed K.host (seedKey id) url seedType with
    | (ws, .ok ()) => addWebSeeds url seedType ids ws
    | (ws, .error err) =>
      let err := err.message K.errorText
      (ws, .error ⟨ErrCodeInvalidArgument, s!"failed to add webseed for torrent {id}: {err}"⟩)

def urlRequired : RPCError := ⟨ErrCodeInvalidArgument, "webseed URL is required"⟩

def TorrentWebSeedAdd (req : TorrentWebSeedAddRequest) : RPCMethods × Outcome :=
  if req.URL = [] then (m, .error urlRequired)
  else
    match seedTypeOf req.seedType with
    | none =>
      (m, .error ⟨ErrCodeInvalidArgument, "invalid webseed type: must be 'url-list' or 'url-data'"⟩)
    | some seedType =>
      let r := addWebSeeds K req.URL seedType (m.torrentIDs o req.IDs) m.webseedManager
      ({ m with webseedManager := r.1 }, r.2)

def TorrentWebSeedRemove (req : TorrentWebSeedRemoveRequest) : RPCMethods × Outcome :=
  if req.URL = [] then (m, .error urlRequired)
  else
    let ws := (m.torrentIDs o req.IDs).foldl (fun ws id => ws.RemoveWebSeed (seedKey id) req.URL)
      m.webseedManager
    ({ m with webseedManager := ws }, .ok .nothing)

/-! ## The bandwidth schedule -/

def internalError (message : String) : Outcome := .error ⟨ErrCodeInternalError, message⟩

def setScheduler (r : BandwidthScheduler × Except TmError Unit) : RPCMethods × Outcome :=
  ({ m with bandwidthScheduler := r.1 },
    match r.2 with
    | .ok () => .ok .nothing
    | .error err => internalError (err.message K.errorText))

def removeRules : List Bytes → BandwidthScheduler → BandwidthScheduler × Except String Unit
  | [], bs => (bs, .ok ())
  | name :: names, bs =>
    match bs.RemoveRule name with
    | (bs, .ok ()) => removeRules names bs
    | (bs, .error err) =>
      (bs, .error ("failed to remove existing rule " ++ textOf name ++ ": " ++
        err.message K.errorText))

def addRules : List (Option BandwidthScheduleRule) → BandwidthScheduler →
    Option (BandwidthScheduler × Except String Unit)
  | [], bs => some (bs, .ok ())
  | none :: _, _ => none
  | some rule :: rules, bs =>
    match bs.AddRule rule with
    | (bs, .ok ()) => addRules rules bs
    | (bs, .error err) =>
      some (bs, .error ("failed to add rule " ++ textOf rule.Name ++ ": " ++
        err.message K.errorText))

def replaceRules (rules : List (Option BandwidthScheduleRule)) (bs : BandwidthScheduler) :
    Option (BandwidthScheduler × Except String Unit) :=
  match removeRules K (bs.GetRules.map BandwidthScheduleRule.Name) bs with
  | (bs, .error err) => some (bs, .error err)
  | (bs, .ok ()) => addRules K rules bs

def BandwidthScheduleSet (req : BandwidthScheduleSetRequest) : Option (RPCMethods × Outcome) :=
  let bs := match req.Enabled with
    | some enabled => m.bandwidthScheduler.SetEnabled enabled
    | none => m.bandwidthScheduler
  match req.Rules with
  | none => some ({ m with bandwidthScheduler := bs }, .ok .nothing)
  | some rules =>
    (replaceRules K rules bs).map fun r =>
      ({ m with bandwidthScheduler := r.1 },
        match r.2 with
        | .ok () => .ok .nothing
        | .error err => internalError err)

def BandwidthScheduleRuleAdd (req : BandwidthScheduleRuleRequest) : RPCMethods × Outcome :=
  match req.Rule with
  | none => (m, internalError "rule cannot be nil")
  | some rule => m.setScheduler K (m.bandwidthScheduler.AddRule rule)

def BandwidthScheduleRuleRemove (req : BandwidthScheduleRuleRemoveRequest) : RPCMethods × Outcome :=
  if req.Name = [] then (m, internalError "rule name cannot be empty")
  else m.setScheduler K (m.bandwidthScheduler.RemoveRule req.Name)

def BandwidthScheduleRuleUpdate (req : BandwidthScheduleRuleRequest) : RPCMethods × Outcome :=
  match req.Rule with
  | none => (m, internalError "rule cannot be nil")
  | some rule => m.setScheduler K (m.bandwidthScheduler.UpdateRule rule)

/-! ## The torrents -/

def forTorrents (op : Int64 → TorrentManager → Option (TorrentManager × Except TmError Unit))
    (failure : String) : List Int64 → TorrentManager → Option (TorrentManager × Outcome)
  | [], tm => some (tm, .ok .nothing)
  | id :: ids, tm =>
    match op id tm with
    | none => none
    | some (tm, .ok ()) => forTorrents op failure ids tm
    | some (tm, .error err) =>
      let err := err.message K.errorText
      some (tm, .error ⟨ErrCodeInternalError, s!"failed to {failure} {id}: {err}"⟩)

def torrentAction (op : Int64 → TorrentManager → Option (TorrentManager × Except TmError Unit))
    (failure : String) (req : TorrentActionRequest) : Option (RPCMethods × Outcome) :=
  match m.ResolveTorrentIDs K o req.IDs with
  | .error err => some (m, .error ⟨ErrCodeInvalidArgument, err⟩)
  | .ok ids =>
    (forTorrents K op failure ids m.manager).map fun r => ({ m with manager := r.1 }, r.2)

def TorrentStart (req : TorrentActionRequest) : Option (RPCMethods × Outcome) :=
  m.torrentAction K o (fun id tm => tm.StartTorrent K.platform o.now id) "start torrent" req

def TorrentStartNow (req : TorrentActionRequest) : Option (RPCMethods × Outcome) :=
  m.torrentAction K o (fun id tm => some (tm.StartTorrentNow id)) "start torrent immediately" req

def TorrentStop (req : TorrentActionRequest) : Option (RPCMethods × Outcome) :=
  m.torrentAction K o (fun id tm => some (tm.StopTorrent id)) "stop torrent" req

def TorrentVerify (req : TorrentActionRequest) : Option (RPCMethods × Outcome) :=
  m.torrentAction K o (fun id tm => some (tm.VerifyTorrent id)) "verify torrent" req

def TorrentRemove (req : TorrentActionRequest) : Option (RPCMethods × Outcome) :=
  m.torrentAction K o (fun id tm => some (tm.RemoveTorrent id)) "remove torrent" req

def contains (s part : Bytes) : Bool := s.tails.any fun t => part.isPrefixOf t

def TorrentAdd (req : TorrentAddRequest) : RPCMethods × Outcome :=
  let r := m.manager.AddTorrent K.platform o.order req
  let m' := { m with manager := r.1 }
  match r.2 with
  | .ok t => (m', .ok (.torrentAdded (m'.convertTorrentStateToTorrent K t)))
  | .error (err, _) =>
    let message := err.message K.errorText
    if contains (utf8 message) (utf8 "already exists") then
      match (m'.GetAllTorrents o).getLast? with
      | some t =>
        if req.Metainfo ≠ [] then (m', .ok (.torrentDuplicate (m'.convertTorrentStateToTorrent K t)))
        else (m', .error ⟨ErrCodeDuplicateTorrent, "torrent already exists"⟩)
      | none => (m', .error ⟨ErrCodeDuplicateTorrent, "torrent already exists"⟩)
    else (m', .error ⟨ErrCodeInvalidArgument, message⟩)

end RPCMethods

/-! ## Dispatch -/

structure Setters where
  TorrentSet : Handler
  SessionSet : Handler

def reads (f : RPCMethods → Outcome) (m : RPCMethods) : Option (RPCMethods × Outcome) := some (m, f m)

namespace RPCMethods

variable (K : Packages) (S : Setters) (o : Outside)

def action (methodFunc : RPCMethods → TorrentActionRequest → Option (RPCMethods × Outcome)) : Handler :=
  unmarshal (TorrentActionRequest.into K.float) ⟨[]⟩ fun req m => methodFunc m req

def getTorrentActionHandler (method : Bytes) : Option Handler :=
  if method = utf8 "torrent-start" then some (action K fun m => m.TorrentStart K o)
  else if method = utf8 "torrent-start-now" then some (action K fun m => m.TorrentStartNow K o)
  else if method = utf8 "torrent-stop" then some (action K fun m => m.TorrentStop K o)
  else if method = utf8 "torrent-verify" then some (action K fun m => m.TorrentVerify K o)
  else if method = utf8 "torrent-remove" then some (action K fun m => m.TorrentRemove K o)
  else if method = utf8 "torrent-set" then some S.TorrentSet
  else none

def getSpecialRequestHandler (method : Bytes) : Option Handler :=
  if method = utf8 "torrent-add" then
    some (unmarshal TorrentAddRequest.into ⟨[], [], [], [], false⟩ fun req m =>
      some (m.TorrentAdd K o req))
  else if method = utf8 "torrent-get" then
    some (unmarshal (TorrentGetRequest.into K.float) ⟨[], []⟩ fun req =>
      reads fun m => m.TorrentGet K o req)
  else if method = utf8 "torrent-magnet" then
    some (unmarshal TorrentMagnetRequest.into ⟨[]⟩ fun req => reads fun m => m.TorrentMagnet K o req)
  else if method = utf8 "torrent-webseed-add" then
    some (unmarshal TorrentWebSeedAddRequest.into ⟨[], [], []⟩ fun req m =>
      some (m.TorrentWebSeedAdd K o req))
  else if method = utf8 "torrent-webseed-remove" then
    some (unmarshal TorrentWebSeedRemoveRequest.into ⟨[], []⟩ fun req m =>
      some (m.TorrentWebSeedRemove o req))
  else if method = utf8 "torrent-webseed-get" then
    some (unmarshal TorrentWebSeedGetRequest.into ⟨[]⟩ fun req =>
      reads fun m => m.TorrentWebSeedGet o req)
  else if method = utf8 "bandwidth-schedule-get" then
    some (unmarshal (struct.into []) () fun _ => reads BandwidthScheduleGet)
  else if method = utf8 "bandwidth-schedule-set" then
    some (unmarshal BandwidthScheduleSetRequest.into ⟨none, none⟩ fun req m =>
      m.BandwidthScheduleSet K req)
  else if method = utf8 "bandwidth-schedule-rule-add" then
    some (unmarshal BandwidthScheduleRuleRequest.into ⟨none⟩ fun req m =>
      some (m.BandwidthScheduleRuleAdd K req))
  else if method = utf8 "bandwidth-schedule-rule-remove" then
    some (unmarshal BandwidthScheduleRuleRemoveRequest.into ⟨[]⟩ fun req m =>
      some (m.BandwidthScheduleRuleRemove K req))
  else if method = utf8 "bandwidth-schedule-rule-update" then
    some (unmarshal BandwidthScheduleRuleRequest.into ⟨none⟩ fun req m =>
      some (m.BandwidthScheduleRuleUpdate K req))
  else if method = utf8 "session-set" then some S.SessionSet
  else none

def getSessionHandler (method : Bytes) : Option Handler :=
  if method = utf8 "session-get" then some fun _ => reads SessionGet
  else if method = utf8 "session-stats" then some fun _ => reads SessionStats
  else none

def GetMethodHandler (method : Bytes) : Option Handler :=
  getTorrentActionHandler K S o method <|> getSpecialRequestHandler K S o method <|>
    getSessionHandler method

end RPCMethods

end GoI2pBt.Rpc
