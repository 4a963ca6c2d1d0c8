/-
  The torrent manager.
-/
import GoI2pBt.Metainfo.MetaInfo
import GoI2pBt.Metainfo.Magnet
import GoI2pBt.Metainfo.Pieces
import GoI2pBt.Rpc.QueueRuns

namespace GoI2pBt.Rpc

open Metainfo
open Bencode (Env Error DecodeBytes valBytes)

/-! ## The data -/

inductive TorrentStatus where
  | Stopped
  | QueuedVerify
  | Verifying
  | QueuedDown
  | Downloading
  | QueuedSeed
  | Seeding
deriving DecidableEq

def QueueType.queuedStatus : QueueType → TorrentStatus
  | .DownloadQueue => .QueuedDown
  | .SeedQueue => .QueuedSeed

def QueueType.activeStatus : QueueType → TorrentStatus
  | .DownloadQueue => .Downloading
  | .SeedQueue => .Seeding

structure FileInfo where
  Name : Bytes
  Length : ℤ
  BytesCompleted : ℤ
  Priority : ℤ
  Wanted : Bool
deriving DecidableEq

structure TorrentState where
  address : ℕ
  ID : Int64
  InfoHash : Hash
  MetaInfo : Option MetaInfo
  DownloadDir : Bytes
  Labels : List Bytes
  Status : TorrentStatus
  Files : List FileInfo
  Priorities : List ℤ
  Wanted : List Bool
  TrackerList : List Bytes
  Downloaded : ℤ
  Left : ℤ
  PercentDone : ℚ
deriving DecidableEq

structure SessionConfiguration where
  Version : Bytes
  DownloadDir : Bytes
  IncompleteDir : Bytes
  IncompleteDirEnabled : Bool
  PeerPort : ℤ
  PeerLimitGlobal : ℤ
  PeerLimitPerTorrent : ℤ
  DownloadQueueEnabled : Bool
  DownloadQueueSize : ℤ
  SeedQueueEnabled : Bool
  SeedQueueSize : ℤ
  StartAddedTorrents : Bool
  BlocklistEnabled : Bool
  BlocklistURL : Bytes
deriving DecidableEq

def SessionConfiguration.queueConfig (config : SessionConfiguration) : QueueConfig where
  MaxActive
    | .DownloadQueue => config.DownloadQueueSize
    | .SeedQueue => config.SeedQueueSize
  Enabled
    | .DownloadQueue => config.DownloadQueueEnabled
    | .SeedQueue => config.SeedQueueEnabled

structure TorrentManagerConfig where
  DownloadDir : Bytes
  IncompleteDir : Bytes
  IncompleteDirEnabled : Bool
  MaxTorrents : ℤ
  PeerLimitGlobal : ℤ
  PeerLimitPerTorrent : ℤ
  PeerPort : ℤ
  SessionConfig : SessionConfiguration

structure TorrentAddRequest where
  DownloadDir : Bytes
  Filename : Bytes
  Labels : List Bytes
  Metainfo : Bytes
  Paused : Bool

inductive TmError where
  | text (message : String)
  | wrap (message : String) (err : Error)

structure TorrentRef where
  ID : Int64
  address : ℕ
deriving DecidableEq

def TorrentState.ref (t : TorrentState) : TorrentRef := ⟨t.ID, t.address⟩

structure VerifyResult where
  info : Info
  verifiedPieces : ℕ
  totalBytes : ℤ
  completedBytes : ℤ
deriving DecidableEq

inductive StartStatus where
  | QueuedVerify
  | Downloading
  | Seeding
deriving DecidableEq

def StartStatus.status : StartStatus → TorrentStatus
  | .QueuedVerify => .QueuedVerify
  | .Downloading => .Downloading
  | .Seeding => .Seeding

inductive Goroutine where
  | activated (torrentID : Int64) (queueType : QueueType)
  | start (torrent : TorrentRef)
  | assign (torrent : TorrentRef) (status : StartStatus)
  | verify (torrent : TorrentRef)
  | verified (torrent : TorrentRef) (result : VerifyResult)
  | complete (torrent : TorrentRef) (result : VerifyResult)
deriving DecidableEq

inductive UpdateStage where
  | collect (queueType : QueueType)
  | activate (queueType : QueueType) (queuedTorrents : List Int64)
  | others
deriving DecidableEq

structure Update where
  oldConfig : SessionConfiguration
  stage : UpdateStage
deriving DecidableEq

structure TorrentManager where
  MaxTorrents : ℤ
  torrents : Finmap fun _ : Int64 => TorrentState
  nextID : Int64
  sessionConfig : SessionConfiguration
  queueManager : QueueManager
  updating : Option Update
  goroutines : List Goroutine
  allocated : ℕ
  torrentsAdded : ℤ
  torrentsRemoved : ℤ

structure Platform where
  env : Env
  sha1 : Bytes → Hash
  url : URLParser
  base64 : Bytes → Except Error Bytes
  sort : SortSlice
  quotient : ℤ → ℤ → ℚ

def Ranges {V : Type} (order : List Int64) (m : Finmap fun _ : Int64 => V) : Prop :=
  order.Nodup ∧ order.toFinset = m.keys

instance {V : Type} (order : List Int64) (m : Finmap fun _ : Int64 => V) :
    Decidable (Ranges order m) :=
  inferInstanceAs (Decidable (_ ∧ _))

/-! ## Creation -/

def applyNumericConfigDefaults (config : TorrentManagerConfig) : TorrentManagerConfig :=
  { config with
    MaxTorrents := if config.MaxTorrents ≤ 0 then 100 else config.MaxTorrents
    PeerLimitGlobal := if config.PeerLimitGlobal ≤ 0 then 200 else config.PeerLimitGlobal
    PeerLimitPerTorrent :=
      if config.PeerLimitPerTorrent ≤ 0 then 50 else config.PeerLimitPerTorrent
    PeerPort := if config.PeerPort ≤ 0 then 51413 else config.PeerPort }

def applyBasicConfigDefaults (config : TorrentManagerConfig) : TorrentManagerConfig :=
  { config with
    DownloadDir := if config.DownloadDir = [] then utf8 "downloads" else config.DownloadDir }

def createDefaultSessionConfig (config : TorrentManagerConfig) : SessionConfiguration where
  Version := utf8 "go-i2p-bt/1.0.0"
  DownloadDir := config.DownloadDir
  IncompleteDir := config.IncompleteDir
  IncompleteDirEnabled := config.IncompleteDirEnabled
  PeerPort := config.PeerPort
  PeerLimitGlobal := config.PeerLimitGlobal
  PeerLimitPerTorrent := config.PeerLimitPerTorrent
  DownloadQueueEnabled := false
  DownloadQueueSize := 0
  SeedQueueEnabled := false
  SeedQueueSize := 0
  StartAddedTorrents := true
  BlocklistEnabled := false
  BlocklistURL := []

def applySessionConfigDefaults (config : TorrentManagerConfig) : TorrentManagerConfig :=
  if config.SessionConfig.Version = [] then
    { config with
      SessionConfig :=
        { createDefaultSessionConfig config with
          BlocklistEnabled := config.SessionConfig.BlocklistEnabled
          BlocklistURL := config.SessionConfig.BlocklistURL } }
  else config

def applyConfigDefaults (config : TorrentManagerConfig) : TorrentManagerConfig :=
  applySessionConfigDefaults (applyNumericConfigDefaults (applyBasicConfigDefaults config))

def NewTorrentManager (config : TorrentManagerConfig) : TorrentManager :=
  let config := applyConfigDefaults config
  { MaxTorrents := config.MaxTorrents
    torrents := ∅
    nextID := 1
    sessionConfig := config.SessionConfig
    queueManager := NewQueueManager config.SessionConfig.queueConfig
    updating := none
    goroutines := []
    allocated := 0
    torrentsAdded := 0
    torrentsRemoved := 0 }

namespace TorrentManager

variable (P : Platform) (tm : TorrentManager)

/-! ## Access -/

def spawn (gs : List Goroutine) : TorrentManager :=
  { tm with goroutines := tm.goroutines ++ gs }

def setQueues (r : QueueManager × List Activation) : TorrentManager :=
  { tm with queueManager := r.1 }.spawn (r.2.map fun a : Activation => .activated a.1 a.2)

def put (id : Int64) (t : TorrentState) : TorrentManager :=
  { tm with torrents := tm.torrents.insert id t }

def deref (r : TorrentRef) : Option TorrentState :=
  (tm.torrents.lookup r.ID).filter fun t => t.address = r.address

def modify (r : TorrentRef) (f : TorrentState → TorrentState) : TorrentManager :=
  match tm.deref r with
  | some t => tm.put r.ID (f t)
  | none => tm

def notFound (id : Int64) : TmError := .text s!"torrent with ID {id} not found"

/-! ## Adding and removing -/

def validateTorrentLimit : Option TmError :=
  if tm.torrents.keys.card ≥ tm.MaxTorrents then
    some (.text s!"maximum number of torrents ({tm.MaxTorrents}) reached")
  else none

def parseMetainfoData (metainfoData : Bytes) : Except TmError (Option MetaInfo × Hash) :=
  match P.base64 metainfoData with
  | .error err => .error (.wrap "failed to decode torrent data" err)
  | .ok torrentData =>
    match MetaInfo.Load P.env torrentData with
    | .error err => .error (.wrap "failed to parse torrent file" err)
    | .ok metaInfo => .ok (some metaInfo, metaInfo.InfoHash P.sha1)

def parseMagnetURI (magnetURI : Bytes) : Except TmError (Option MetaInfo × Hash) :=
  match ParseMagnetURI P.url magnetURI with
  | .error err => .error (.wrap "failed to parse magnet URI" err)
  | .ok magnet => .ok (none, magnet.InfoHash)

def parseAddTorrentRequest (req : TorrentAddRequest) : Except TmError (Option MetaInfo × Hash) :=
  if req.Metainfo ≠ [] then parseMetainfoData P req.Metainfo
  else if req.Filename ≠ [] then parseMagnetURI P req.Filename
  else .error (.text "either metainfo or filename (magnet URI) must be provided")

def findByInfoHash (order : List Int64) (infoHash : Hash) : Option TorrentState :=
  order.findSome? fun id => (tm.torrents.lookup id).filter fun t => t.InfoHash = infoHash

def findDuplicateTorrent (order : List Int64) (infoHash : Hash) : Option TorrentState :=
  tm.findByInfoHash order infoHash

def findTorrentByInfoHash (order : List Int64) (infoHash : Hash) : Option TorrentState :=
  tm.findByInfoHash order infoHash

def determineDownloadDirectory (requestedDir : Bytes) (isComplete : Bool) : Bytes :=
  let config := tm.sessionConfig
  if requestedDir ≠ [] then requestedDir
  else if config.IncompleteDirEnabled && !isComplete && config.IncompleteDir ≠ [] then
    config.IncompleteDir
  else config.DownloadDir

def createTorrentState (req : TorrentAddRequest) (metaInfo : Option MetaInfo) (infoHash : Hash) :
    TorrentManager × TorrentState :=
  ({ tm with nextID := tm.nextID + 1, allocated := tm.allocated + 1 },
    { address := tm.allocated
      ID := tm.nextID
      InfoHash := infoHash
      MetaInfo := metaInfo
      DownloadDir := tm.determineDownloadDirectory req.DownloadDir false
      Labels := req.Labels
      Status := .Stopped
      Files := []
      Priorities := []
      Wanted := []
      TrackerList := []
      Downloaded := 0
      Left := 0
      PercentDone := 0 })

def setInitialTorrentStatus (t : TorrentState) (paused hasMetadata : Bool) : TorrentState :=
  { t with
    Status :=
      if paused then .Stopped else if hasMetadata then .Downloading else .QueuedVerify }

def setFiles (t : TorrentState) (info : Info) : TorrentState :=
  { t with
    Files := info.files.map fun file => ⟨file.Path info, file.length, 0, 0, true⟩
    Priorities := info.files.map fun _ => 0
    Wanted := info.files.map fun _ => true }

def extractTrackerList (t : TorrentState) (metaInfo : MetaInfo) : TorrentState :=
  { t with TrackerList := t.TrackerList ++ metaInfo.Announces.flatten }

def initializeFileInfo (t : TorrentState) (metaInfo : MetaInfo) : TorrentState :=
  match metaInfo.Info P.env with
  | .error _ => t
  | .ok info => extractTrackerList (setFiles t info) metaInfo

def handleTorrentStartup (t : TorrentState) (paused hasMetadata : Bool) :
    TorrentState × List Goroutine :=
  if !paused && tm.sessionConfig.StartAddedTorrents then (t, [.start t.ref])
  else if !paused && hasMetadata then ({ t with Status := .Verifying }, [.verify t.ref])
  else (t, [])

def initialTorrent (t : TorrentState) (paused : Bool) (metaInfo : Option MetaInfo) :
    TorrentState × List Goroutine :=
  let t := setInitialTorrentStatus t paused metaInfo.isSome
  let t := match metaInfo with
    | some metaInfo => initializeFileInfo P t metaInfo
    | none => t
  tm.handleTorrentStartup t paused metaInfo.isSome

def AddTorrent (order : List Int64) (req : TorrentAddRequest) :
    TorrentManager × Except (TmError × Option TorrentState) TorrentState :=
  match tm.validateTorrentLimit with
  | some err => (tm, .error (err, none))
  | none =>
    match parseAddTorrentRequest P req with
    | .error err => (tm, .error (err, none))
    | .ok (metaInfo, infoHash) =>
      match tm.findDuplicateTorrent order infoHash with
      | some existing => (tm, .error (.text "torrent already exists", some existing))
      | none =>
        let r := tm.createTorrentState req metaInfo infoHash
        let s := r.1.initialTorrent P r.2 req.Paused metaInfo
        let tm := (r.1.put s.1.ID s.1).spawn s.2
        ({ tm with torrentsAdded := tm.torrentsAdded + 1 }, .ok s.1)

def RemoveTorrent (id : Int64) : TorrentManager × Except TmError Unit :=
  match tm.torrents.lookup id with
  | none => (tm, .error (notFound id))
  | some _ =>
    ({ tm with
        queueManager := tm.queueManager.RemoveFromQueue id
        torrents := tm.torrents.erase id
        torrentsRemoved := tm.torrentsRemoved + 1 }, .ok ())

/-! ## Starting, stopping, verifying -/

def queueTypeOf (t : TorrentState) : QueueType :=
  if t.PercentDone ≥ 1 then .SeedQueue else .DownloadQueue

def started (t : TorrentState) : Prop := t.Status = .Downloading ∨ t.Status = .Seeding

instance (t : TorrentState) : Decidable (started t) := inferInstanceAs (Decidable (_ ∨ _))

def StartTorrent (now : ℤ) (id : Int64) : Option (TorrentManager × Except TmError Unit) :=
  match tm.torrents.lookup id with
  | none => some (tm, .error (notFound id))
  | some t =>
    if started t then some (tm, .ok ())
    else
      let queueType := queueTypeOf t
      let tm := tm.put id { t with Status := queueType.queuedStatus }
      (tm.queueManager.AddToQueue P.sort now id queueType 0).map fun qm =>
        ({ tm with queueManager := qm }, .ok ())

def StartTorrentNow (id : Int64) : TorrentManager × Except TmError Unit :=
  match tm.torrents.lookup id with
  | none => (tm, .error (notFound id))
  | some t =>
    if started t then (tm, .ok ())
    else
      let queueType := queueTypeOf t
      let tm := tm.put id { t with Status := queueType.activeStatus }
      let tm := tm.setQueues (tm.queueManager.ForceActivate id queueType)
      (tm.spawn [.start t.ref], .ok ())

def StopTorrent (id : Int64) : TorrentManager × Except TmError Unit :=
  match tm.torrents.lookup id with
  | none => (tm, .error (notFound id))
  | some t =>
    let tm := { tm with queueManager := tm.queueManager.RemoveFromQueue id }
    (tm.put id { t with Status := .Stopped }, .ok ())

def VerifyTorrent (id : Int64) : TorrentManager × Except TmError Unit :=
  match tm.torrents.lookup id with
  | none => (tm, .error (notFound id))
  | some t =>
    if t.MetaInfo = none then
      (tm, .error (.text s!"cannot verify torrent {id}: no metadata available"))
    else
      ((tm.put id { t with Status := .Verifying }).spawn [.verify t.ref], .ok ())

def SetTorrentQueuePosition (id : Int64) (position : ℤ) : TorrentManager × Except TmError Unit :=
  match tm.torrents.lookup id with
  | none => (tm, .error (notFound id))
  | some _ =>
    match tm.queueManager.SetQueuePosition id position with
    | .error err => (tm, .error (.text err.Message))
    | .ok qm => ({ tm with queueManager := qm }, .ok ())

/-! ## What runs in goroutines -/

def onTorrentActivated (torrentID : Int64) (queueType : QueueType) : TorrentManager :=
  match tm.torrents.lookup torrentID with
  | none => tm
  | some t =>
    if t.Status = queueType.queuedStatus then
      (tm.put torrentID { t with Status := queueType.activeStatus }).spawn
        [match queueType with
          | .DownloadQueue => .start t.ref
          | .SeedQueue => .assign t.ref .Seeding]
    else tm

def startTorrent (r : TorrentRef) : TorrentManager :=
  match tm.deref r with
  | none => tm
  | some t => tm.spawn [.assign r (if t.MetaInfo = none then .QueuedVerify else .Downloading)]

def verifyPieces (info : Info) (verifyPiece : ℕ → Option Bool) : VerifyResult :=
  (List.range info.CountPieces).foldl
    (fun (r : VerifyResult) (i : ℕ) =>
      let length := Piece.Length ⟨info, i⟩
      match verifyPiece i with
      | none => r
      | some false => { r with totalBytes := wrap64 (r.totalBytes + length) }
      | some true =>
        { r with
          totalBytes := wrap64 (r.totalBytes + length)
          verifiedPieces := r.verifiedPieces + 1
          completedBytes := wrap64 (r.completedBytes + length) })
    ⟨info, 0, 0, 0⟩

def verifyTorrentAsync (r : TorrentRef) (verifyPiece : ℕ → Option Bool) : TorrentManager :=
  match tm.deref r with
  | none => tm
  | some t =>
    match t.MetaInfo with
    | none => tm
    | some metaInfo =>
      match metaInfo.Info P.env with
      | .error _ => tm.modify r fun t => { t with Status := .Stopped }
      | .ok info => tm.spawn [.verified r (verifyPieces info verifyPiece)]

def completeFiles (totalCompleted : ℤ) : ℤ → List File → List FileInfo → List FileInfo
  | _, [], fs => fs
  | _, _, [] => []
  | currentOffset, file :: files, f :: fs =>
    let fileEnd := wrap64 (currentOffset + file.length)
    let fileCompleted :=
      if totalCompleted ≥ fileEnd then file.length
      else if totalCompleted > currentOffset then wrap64 (totalCompleted - currentOffset)
      else 0
    { f with BytesCompleted := fileCompleted } :: completeFiles totalCompleted fileEnd files fs

def updateFileCompletion (t : TorrentState) (info : Info) (totalCompleted : ℤ) : TorrentState :=
  { t with Files := completeFiles totalCompleted 0 info.files t.Files }

def completeVerification (result : VerifyResult) (t : TorrentState) : TorrentState :=
  { updateFileCompletion t result.info result.completedBytes with
    Status := if result.verifiedPieces = result.info.CountPieces then .Seeding else .Downloading }

def runGoroutine (verifyPiece : ℕ → Option Bool) : Goroutine → TorrentManager
  | .activated torrentID queueType => tm.onTorrentActivated torrentID queueType
  | .start r => tm.startTorrent r
  | .assign r status => tm.modify r fun t => { t with Status := status.status }
  | .verify r => tm.verifyTorrentAsync P r verifyPiece
  | .verified r result =>
    (tm.modify r fun t =>
      { t with
        Downloaded := result.completedBytes
        Left := wrap64 (result.totalBytes - result.completedBytes) }).spawn [.complete r result]
  | .complete r result => tm.modify r (completeVerification result)

/-! ## Metadata and statistics -/

structure TorrentResponse where
  InfoHash : Hash
  InfoBytes : Bytes

def parseAndValidateMetadata (response : TorrentResponse) : Except TmError MetaInfo :=
  match DecodeBytes P.env response.InfoBytes .rawMessage .nilSlice with
  | .error err => .error (.wrap "failed to parse metadata" err)
  | .ok infoBytes =>
    if P.sha1 response.InfoBytes ≠ response.InfoHash then
      .error (.text "invalid metadata: hash mismatch")
    else .ok ⟨valBytes infoBytes, [], [], [], [], 0, [], [], []⟩

def handleDownloaderResponse (order : List Int64) (response : TorrentResponse) : TorrentManager :=
  match tm.findTorrentByInfoHash order response.InfoHash with
  | none => tm
  | some t =>
    match parseAndValidateMetadata P response with
    | .error _ => tm
    | .ok metaInfo =>
      -- the metadata stays even if the file structure cannot be read from it
      let tm := tm.modify t.ref fun t => { t with MetaInfo := some metaInfo }
      match metaInfo.Info P.env with
      | .error _ => tm
      | .ok info =>
        let tm := tm.modify t.ref fun t => { setFiles t info with Status := .Downloading }
        tm.spawn [.start t.ref]

def calculateBasicCompletionStats (t : TorrentState) (info : Info) : TorrentState :=
  let totalSize := info.TotalLength
  if totalSize ≤ 0 then t
  else
    let percentDone := P.quotient t.Downloaded totalSize
    let left := wrap64 (totalSize - t.Downloaded)
    { t with
      PercentDone := if percentDone > 1 then 1 else percentDone
      Left := if left < 0 then 0 else left }

def updateCompletionStatistics (t : TorrentState) : TorrentState :=
  match t.MetaInfo with
  | none => t
  | some metaInfo =>
    match metaInfo.Info P.env with
    | .error _ => t
    | .ok info => calculateBasicCompletionStats P t info

def updateStats (order : List Int64) : TorrentManager := order.foldl
    (fun tm id =>
      match tm.torrents.lookup id with
      | some t => tm.put id (updateCompletionStatistics P t)
      | none => tm)
    tm

/-! ## The session configuration -/

def validatePortConfiguration (config : SessionConfiguration) : Option TmError :=
  if config.PeerPort ≤ 0 || config.PeerPort > 65535 then
    some (.text s!"invalid peer port: {config.PeerPort}")
  else none

def validatePeerLimits (config : SessionConfiguration) : Option TmError :=
  if config.PeerLimitGlobal < 0 then
    some (.text s!"peer limit global cannot be negative: {config.PeerLimitGlobal}")
  else if config.PeerLimitPerTorrent < 0 then
    some (.text s!"peer limit per torrent cannot be negative: {config.PeerLimitPerTorrent}")
  else none

def validateQueueSizes (config : SessionConfiguration) : Option TmError :=
  if config.DownloadQueueSize < 0 then
    some (.text s!"download queue size cannot be negative: {config.DownloadQueueSize}")
  else if config.SeedQueueSize < 0 then
    some (.text s!"seed queue size cannot be negative: {config.SeedQueueSize}")
  else none

def validateDirectoryConfiguration (dirError : Bytes → Option Error)
    (config : SessionConfiguration) : Option TmError :=
  let download := if config.DownloadDir ≠ [] then dirError config.DownloadDir else none
  let incomplete :=
    if config.IncompleteDirEnabled && config.IncompleteDir ≠ [] then dirError config.IncompleteDir
    else none
  match download, incomplete with
  | some err, _ => some (.wrap "invalid download directory" err)
  | none, some err => some (.wrap "invalid incomplete directory" err)
  | none, none => none

def validateSessionConfiguration (dirError : Bytes → Option Error)
    (config : SessionConfiguration) : Option TmError :=
  validatePortConfiguration config <|> validatePeerLimits config <|> validateQueueSizes config <|>
    validateDirectoryConfiguration dirError config

def queueSettings (config : SessionConfiguration) : Bool × ℤ × Bool × ℤ :=
  (config.DownloadQueueEnabled, config.DownloadQueueSize, config.SeedQueueEnabled,
    config.SeedQueueSize)

def UpdateSessionConfig (dirError : Bytes → Option Error) (config : SessionConfiguration) :
    TorrentManager × Except TmError Unit :=
  match validateSessionConfiguration dirError config with
  | some err => (tm, .error err)
  | none =>
    if queueSettings tm.sessionConfig ≠ queueSettings config then
      ({ tm with
          sessionConfig := config
          queueManager := { tm.queueManager with config := config.queueConfig }
          updating := some ⟨tm.sessionConfig, .collect .DownloadQueue⟩ }, .ok ())
    else
      ({ tm with
          sessionConfig := config
          updating := some ⟨tm.sessionConfig, .others⟩ }, .ok ())

def nextStage : QueueType → UpdateStage
  | .DownloadQueue => .collect .SeedQueue
  | .SeedQueue => .others

def continueUpdate (order : List Int64) (blocklistError : Option Error) (u : Update) :
    TorrentManager × Except TmError Unit :=
  let config := tm.sessionConfig
  match u.stage with
  | .collect t =>
    if ¬ config.queueConfig.Enabled t then
      if Ranges order (tm.queueManager.lane t).queue then
        ({ tm with updating := some { u with stage := .activate t order } }, .ok ())
      else (tm, .ok ())
    else ({ tm with updating := some { u with stage := nextStage t } }, .ok ())
  | .activate t [] => ({ tm with updating := some { u with stage := nextStage t } }, .ok ())
  | .activate t (id :: ids) =>
    let tm := tm.setQueues (tm.queueManager.ForceActivate id t)
    ({ tm with updating := some { u with stage := .activate t ids } }, .ok ())
  | .others =>
    let changed := u.oldConfig.BlocklistEnabled ≠ config.BlocklistEnabled ∨
      u.oldConfig.BlocklistURL ≠ config.BlocklistURL
    match blocklistError with
    | some err =>
      if changed ∧ config.BlocklistURL ≠ [] then
        ({ tm with sessionConfig := u.oldConfig, updating := none },
          .error (.wrap "failed to apply configuration changes" err))
      else ({ tm with updating := none }, .ok ())
    | none => ({ tm with updating := none }, .ok ())

end TorrentManager

/-! ## Steps -/

inductive TmOp where
  | AddTorrent (order : List Int64) (req : TorrentAddRequest)
  | RemoveTorrent (id : Int64)
  | StartTorrent (now : ℤ) (id : Int64)
  | StartTorrentNow (id : Int64)
  | StopTorrent (id : Int64)
  | VerifyTorrent (id : Int64)
  | SetTorrentQueuePosition (id : Int64) (position : ℤ)
  | UpdateSessionConfig (dirError : Bytes → Option Error) (config : SessionConfiguration)
  | continueUpdate (order : List Int64) (blocklistError : Option Error)
  | processQueues
  | run (index : ℕ) (verifyPiece : ℕ → Option Bool)
  | handleDownloaderResponse (order : List Int64) (response : TorrentManager.TorrentResponse)
  | updateStats (order : List Int64)

abbrev Reply := Except TmError (Option TorrentState)

def Reply.ofUnit (r : TorrentManager × Except TmError Unit) : TorrentManager × Reply :=
  (r.1, r.2.map fun _ => none)

def TorrentManager.step (P : Platform) (tm : TorrentManager) :
    TmOp → Option (TorrentManager × Reply)
  | .AddTorrent order req =>
    if tm.updating = none ∧ Ranges order tm.torrents then
      let r := tm.AddTorrent P order req
      some (r.1, (r.2.map some).mapError Prod.fst)
    else some (tm, .ok none)
  | .RemoveTorrent id => some (Reply.ofUnit (tm.RemoveTorrent id))
  | .StartTorrent now id => (tm.StartTorrent P now id).map Reply.ofUnit
  | .StartTorrentNow id => some (Reply.ofUnit (tm.StartTorrentNow id))
  | .StopTorrent id => some (Reply.ofUnit (tm.StopTorrent id))
  | .VerifyTorrent id => some (Reply.ofUnit (tm.VerifyTorrent id))
  | .SetTorrentQueuePosition id position =>
    some (Reply.ofUnit (tm.SetTorrentQueuePosition id position))
  | .UpdateSessionConfig dirError config =>
    if tm.updating = none then some (Reply.ofUnit (tm.UpdateSessionConfig dirError config))
    else some (tm, .ok none)
  | .continueUpdate order blocklistError =>
    match tm.updating with
    | some u => some (Reply.ofUnit (tm.continueUpdate order blocklistError u))
    | none => some (tm, .ok none)
  | .processQueues => some (tm.setQueues tm.queueManager.processQueues, .ok none)
  | .run index verifyPiece =>
    match tm.goroutines[index]? with
    | some g =>
      let tm := { tm with goroutines := tm.goroutines.eraseIdx index }
      some (tm.runGoroutine P verifyPiece g, .ok none)
    | none => some (tm, .ok none)
  | .handleDownloaderResponse order response =>
    if Ranges order tm.torrents then some (tm.handleDownloaderResponse P order response, .ok none)
    else some (tm, .ok none)
  | .updateStats order =>
    if Ranges order tm.torrents then some (tm.updateStats P order, .ok none)
    else some (tm, .ok none)

/-! ## An example -/

/-- The value of a letter of the standard base64 alphabet. -/
def base64Letter (b : UInt8) : Option UInt8 :=
  ((utf8 "ABCDEFGHIJKLMNOPQRSTUVWXYZabcdefghijklmnopqrstuvwxyz0123456789+/").idxOf? b).map .ofNat

/-- Groups of four letters, the last of which may be padded. -/
def base64Groups : Bytes → Option Bytes
  | [] => some []
  | a :: b :: c :: d :: rest => do
    let a ← base64Letter a
    let b ← base64Letter b
    let first := a <<< 2 ||| b >>> 4
    if c = ch '=' ∧ d = ch '=' ∧ rest = [] then return [first]
    let c ← base64Letter c
    let second := b <<< 4 ||| c >>> 2
    if d = ch '=' ∧ rest = [] then return [first, second]
    let d ← base64Letter d
    return first :: second :: (c <<< 6 ||| d) :: (← base64Groups rest)
  | _ => none

/-- `base64.StdEncoding.DecodeString`, which skips line ends. -/
def decodeBase64 (s : Bytes) : Except Error Bytes :=
  match base64Groups (s.filter fun b => b ≠ 10 ∧ b ≠ 13) with
  | some b => .ok b
  | none => .error (.method "illegal base64 data")

def samplePlatform : Platform where
  env := Bencode.bareEnv
  sha1 _ := Hash.zero
  url := plainParser
  base64 := decodeBase64
  sort := .insertion
  quotient a b := a / b

def emptyConfig : TorrentManagerConfig where
  DownloadDir := []
  IncompleteDir := []
  IncompleteDirEnabled := false
  MaxTorrents := 0
  PeerLimitGlobal := 0
  PeerLimitPerTorrent := 0
  PeerPort := 0
  SessionConfig := ⟨[], [], [], false, 0, 0, 0, false, 0, false, 0, false, false, []⟩

/-- The torrent `de`. -/
def pausedRequest : TorrentAddRequest := ⟨[], [], [], utf8 "ZGU=", true⟩

end GoI2pBt.Rpc
