/-
  Web seeds.
-/
import GoI2pBt.Rpc.Verify

namespace GoI2pBt.Rpc

open List Metainfo Option Int Finmap

/-- The type is a string in the source; any string that is not one of the two is stored too. -/
inductive WebSeedType where
  | HTTPFTP
  | GetRight
  | other (text : String)
deriving DecidableEq

structure WebSeed where
  URL : Bytes
  seedType : WebSeedType
  Active : Bool
  Failed : Bool
  FailCount : ℤ
  LastError : Bytes
  LastTried : Option ℤ
  Downloaded : ℤ
  Speed : ℤ
deriving DecidableEq

structure WebSeedManager where
  enabled : Bool
  webSeeds : Finmap fun _ : Bytes => List WebSeed

structure HostParser where
  Parse : Bytes → Except String (Bytes × Bytes)
  parse_http : ∀ host : Bytes, host ≠ [] → (∀ c ∈ host, 97 ≤ c.toNat ∧ c.toNat ≤ 122) →
    Parse (utf8 "http://" ++ host) = .ok (utf8 "http", host)

def httpParser : HostParser where
  Parse s :=
    if utf8 "http://" <+: s then .ok (utf8 "http", s.drop (utf8 "http://").length)
    else .error "missing protocol scheme"
  parse_http host _ _ := by
    rw [if_pos (prefix_append _ _), drop_left]

namespace WebSeedManager

variable (ws : WebSeedManager)

def seeds (torrentID : Bytes) : List WebSeed := (ws.webSeeds.lookup torrentID).getD []

def newSeed (webseedURL : Bytes) (seedType : WebSeedType) : WebSeed where
  URL := webseedURL
  seedType := seedType
  Active := true
  Failed := false
  FailCount := 0
  LastError := []
  LastTried := none
  Downloaded := 0
  Speed := 0

def validateURL (url : HostParser) (webseedURL : Bytes) : Except TmError Unit :=
  match url.Parse webseedURL with
  | .error err => .error (.text s!"invalid webseed URL: {err}")
  | .ok (scheme, host) =>
    if scheme ≠ utf8 "http" ∧ scheme ≠ utf8 "https" ∧ scheme ≠ utf8 "ftp" then
      .error (.text "invalid webseed URL scheme: must be http, https, or ftp")
    else if host = [] then .error (.text "invalid webseed URL: missing host")
    else .ok ()

def AddWebSeed (url : HostParser) (torrentID webseedURL : Bytes) (seedType : WebSeedType) :
    WebSeedManager × Except TmError Unit :=
  if ¬ ws.enabled then (ws, .ok ())
  else
    match validateURL url webseedURL with
    | .error err => (ws, .error err)
    | .ok () =>
      let seeds := ws.seeds torrentID
      let seeds :=
        if ∃ existing ∈ seeds, existing.URL = webseedURL then seeds
        else seeds ++ [newSeed webseedURL seedType]
      ({ ws with webSeeds := ws.webSeeds.insert torrentID seeds }, .ok ())

def RemoveWebSeed (torrentID webseedURL : Bytes) : WebSeedManager :=
  match ws.webSeeds.lookup torrentID with
  | none => ws
  | some seeds =>
    let seeds := seeds.eraseP fun webseed => webseed.URL = webseedURL
    { ws with
      webSeeds :=
        if seeds = [] then ws.webSeeds.erase torrentID else ws.webSeeds.insert torrentID seeds }

def GetWebSeeds (torrentID : Bytes) : List WebSeed := ws.seeds torrentID

/-! ## The seeds of a torrent -/

variable {ws} {url : HostParser} {torrentID webseedURL : Bytes} {seedType : WebSeedType}

theorem validateURL_http (host : Bytes) (hne : host ≠ [])
    (hletters : ∀ c ∈ host, 97 ≤ c.toNat ∧ c.toNat ≤ 122) :
    validateURL url (utf8 "http://" ++ host) = .ok () := by
  rw [validateURL, url.parse_http host hne hletters]
  dsimp only
  rw [if_neg (fun h => h.1 rfl), if_neg hne]

theorem seeds_insert (l : List WebSeed) :
    seeds ⟨ws.enabled, ws.webSeeds.insert torrentID l⟩ torrentID = l := by
  rw [WebSeedManager.seeds, lookup_insert]
  rfl

theorem seeds_AddWebSeed (hen : ws.enabled) (hurl : validateURL url webseedURL = .ok ())
    (hnew : ∀ seed ∈ ws.seeds torrentID, seed.URL ≠ webseedURL) :
    (ws.AddWebSeed url torrentID webseedURL seedType).1.seeds torrentID =
      ws.seeds torrentID ++ [newSeed webseedURL seedType] := by
  have hno : ¬ ∃ existing ∈ ws.seeds torrentID, existing.URL = webseedURL := by
    rintro ⟨seed, hseed, he⟩
    exact hnew seed hseed he
  rw [AddWebSeed, if_neg (not_not.2 hen), hurl]
  dsimp only
  rw [if_neg hno]
  exact seeds_insert _

theorem seeds_RemoveWebSeed : (ws.RemoveWebSeed torrentID webseedURL).seeds torrentID =
      (ws.seeds torrentID).eraseP fun seed => seed.URL = webseedURL := by
  cases hl : ws.webSeeds.lookup torrentID with
  | none =>
    rw [RemoveWebSeed, hl, WebSeedManager.seeds, hl]
    rfl
  | some seeds =>
    have hseeds : ws.seeds torrentID = seeds := by rw [WebSeedManager.seeds, hl, getD_some]
    rw [RemoveWebSeed, hl, hseeds, WebSeedManager.seeds]
    dsimp only
    split_ifs with hempty
    · rw [lookup_erase, hempty, getD_none]
    · rw [lookup_insert, getD_some]

/-! ## Downloading a piece -/

variable (ws)

def GetActiveWebSeeds (torrentID : Bytes) : List WebSeed :=
  (ws.seeds torrentID).filter fun seed => seed.Active && !seed.Failed

/-- The URL and the two numbers of the header `Range: bytes=%d-%d`. -/
structure Request where
  url : Bytes
  range : ℤ × ℤ
deriving DecidableEq

/-- The request of the web seed client for `length` bytes from `offset`. -/
def rangeRequest (url : Bytes) (offset length : ℤ) : Request :=
  ⟨url, offset, wrap64 (offset + length - 1)⟩

def buildRequestURL (seed : WebSeed) (fileName : Bytes) : Except TmError Bytes :=
  match seed.seedType with
  | .HTTPFTP => .ok <|
    if ¬ utf8 "/" <:+ seed.URL ∧ fileName ≠ [] then seed.URL ++ utf8 "/" ++ fileName else seed.URL
  | .GetRight => .ok seed.URL
  | .other text => .error (.text s!"unsupported webseed type: {text}")

def createHTTPRequest (requestURL : Bytes) (pieceIndex pieceLength : ℤ) : Request :=
  rangeRequest requestURL (wrap64 (pieceIndex * pieceLength)) pieceLength

section Fetch

variable (fetch : Request → Except TmError (ℤ × String × Bytes)) (i len : ℤ) (fileName : Bytes)

def executeRequest (req : Request) (expectedLength : ℤ) : Except TmError Bytes := do
  let (code, status, data) ← fetch req
  if code ≠ 206 ∧ code ≠ 200 then .error (.text s!"HTTP {code}: {status}")
  else if data.length ≠ expectedLength then
    .error (.text s!"received {data.length} bytes, expected {expectedLength}")
  else .ok data

def downloadFromSeed (seed : WebSeed) : Except TmError Bytes := do
  let requestURL ← buildRequestURL seed fileName
  executeRequest fetch (createHTTPRequest requestURL i len) len

def downloadFromSeeds : List WebSeed → Except TmError Bytes
  | [] => .error (.text "all webseeds failed")
  | seed :: seeds =>
    match downloadFromSeed fetch i len fileName seed with
    | .ok data => .ok data
    | .error _ => downloadFromSeeds seeds

def DownloadPieceData (torrentID : Bytes) : Except TmError Bytes :=
  if ¬ ws.enabled then .error (.text "webseeds disabled")
  else if ws.GetActiveWebSeeds torrentID = [] then .error (.text "no active webseeds available")
  else downloadFromSeeds fetch i len fileName (ws.GetActiveWebSeeds torrentID)

variable {fetch i len fileName} {data : Bytes}

theorem executeRequest_ok {req} : executeRequest fetch req len = .ok data ↔
    data.length = len ∧ ∃ code status, (code = 206 ∨ code = 200) ∧
      fetch req = .ok (code, status, data) := by
  rw [executeRequest, except_bind_eq_ok]
  constructor
  · rintro ⟨⟨code, status, data'⟩, hfetch, h⟩
    dsimp only at h
    split_ifs at h with hcode hlen
    cases h
    exact ⟨not_not.1 hlen, code, status, by omega, hfetch⟩
  · rintro ⟨hlen, code, status, hcode, hfetch⟩
    refine ⟨_, hfetch, ?_⟩
    dsimp only
    rw [if_neg (by omega), if_neg (not_not.2 hlen)]

theorem downloadFromSeeds_ok {seeds} (h : downloadFromSeeds fetch i len fileName seeds = .ok data) :
    ∃ seed ∈ seeds, downloadFromSeed fetch i len fileName seed = .ok data := by
  induction seeds with
  | nil => cases h
  | cons seed seeds ih =>
    rw [downloadFromSeeds] at h
    split at h
    · cases h
      exact ⟨seed, mem_cons_self, ‹_›⟩
    · obtain ⟨seed', hmem, hok⟩ := ih h
      exact ⟨seed', mem_cons_of_mem _ hmem, hok⟩

/-- Seeds of an unsupported type are passed over. -/
theorem downloadFromSeeds_of_answers {seeds} (hne : ∃ seed ∈ seeds, ∃ url,
      buildRequestURL seed fileName = .ok url)
    (h : ∀ seed ∈ seeds, ∀ url, buildRequestURL seed fileName = .ok url →
      executeRequest fetch (createHTTPRequest url i len) len = .ok data) :
    downloadFromSeeds fetch i len fileName seeds = .ok data := by
  induction seeds with
  | nil =>
    obtain ⟨seed, hmem, -⟩ := hne
    cases hmem
  | cons seed seeds ih =>
    rw [downloadFromSeeds, downloadFromSeed]
    cases hurl : buildRequestURL seed fileName with
    | ok url => rw [except_ok_bind, h seed mem_cons_self url hurl]
    | error err =>
      obtain ⟨seed', hmem, url, hok⟩ := hne
      rcases mem_cons.1 hmem with rfl | hmem
      · cases hurl.symm.trans hok
      · exact ih ⟨seed', hmem, url, hok⟩ fun s hs => h s (mem_cons_of_mem _ hs)

end Fetch

/-- With this argument every seed is asked for the bytes of the piece, and they are taken. -/
def Downloads (p : Piece) (fileName torrentID : Bytes) (pieceLength : ℤ) : Prop :=
  ∀ fetch data, (data.length : ℤ) = p.Length → (∀ seed ∈ ws.GetActiveWebSeeds torrentID,
      ∀ url, buildRequestURL seed fileName = .ok url →
        fetch (rangeRequest url p.Offset p.Length) = .ok (206, "206 Partial Content", data)) →
    ws.DownloadPieceData fetch p.index pieceLength fileName torrentID = .ok data

variable {ws} {p : Piece} {fileName : Bytes} (hlen : 0 ≤ p.Length)

theorem createHTTPRequest_eq_iff {url : Bytes} :
    createHTTPRequest url p.index p.Length = rangeRequest url p.Offset p.Length ↔
      ((2 ^ 64 : ℕ) : ℤ) ∣ p.index * (p.Length - p.info.pieceLength) := by
  rw [mul_sub, dvd_iff_bmod_eq_zero, ← bmod_eq_bmod_iff_bmod_sub_eq_zero]
  exact ⟨congrArg fun req : Request => req.range.1,
    congrArg fun offset => rangeRequest url offset p.Length⟩

include hlen

theorem Downloads.dvd {len} (h : ws.Downloads p fileName torrentID len) :
    ((2 ^ 64 : ℕ) : ℤ) ∣ p.index * (p.Length - p.info.pieceLength) := by
  -- the answers of a server that knows no other range
  have h := h (fun req => if req = rangeRequest req.url p.Offset p.Length then
    .ok (206, "206 Partial Content", replicate p.Length.toNat 0) else .error (.text ""))
    _ (by rw [length_replicate, toNat_of_nonneg hlen]) fun seed _ url _ => if_pos rfl
  unfold DownloadPieceData at h
  split_ifs at h
  obtain ⟨seed, -, hok⟩ := downloadFromSeeds_ok h
  obtain ⟨url, -, hok⟩ := except_bind_eq_ok.1 hok
  obtain ⟨hlen', code, status, -, hfetch⟩ := executeRequest_ok.1 hok
  rw [length_replicate, toNat_of_nonneg hlen] at hlen'
  subst hlen'
  split_ifs at hfetch with hreq
  exact createHTTPRequest_eq_iff.1 hreq

/-- **A piece can be downloaded from the seeds exactly if it has the full length**, or its
    index is 0, up to the overflow of `int64`. -/
theorem exists_downloads_iff (hen : ws.enabled = true)
    (hne : ∃ seed ∈ ws.GetActiveWebSeeds torrentID, ∀ text, seed.seedType ≠ .other text) :
    (∃ pieceLength, ws.Downloads p fileName torrentID pieceLength) ↔
      ((2 ^ 64 : ℕ) : ℤ) ∣ p.index * (p.Length - p.info.pieceLength) := by
  refine ⟨fun ⟨_, h⟩ => h.dvd hlen, fun hdvd => ⟨p.Length, fun fetch data hdata hans => ?_⟩⟩
  obtain ⟨seed, hmem, htype⟩ := hne
  rw [DownloadPieceData, if_neg (not_not.2 hen), if_neg (ne_nil_of_mem hmem)]
  refine downloadFromSeeds_of_answers ⟨seed, hmem, ?_⟩ fun seed' hmem' url hurl => ?_
  · unfold buildRequestURL
    cases ht : seed.seedType with
    | HTTPFTP | GetRight => exact ⟨_, rfl⟩
    | other text => exact absurd ht (htype text)
  · rw [createHTTPRequest_eq_iff.2 hdvd]
    exact executeRequest_ok.2 ⟨hdata, _, _, .inl rfl, hans seed' hmem' url hurl⟩

omit hlen

def seeded : WebSeedManager :=
  (AddWebSeed ⟨true, ∅⟩ httpParser (utf8 "1") (utf8 "http://a") .HTTPFTP).1

def threePieces : Info := ⟨utf8 "f", 2, [.zero, .zero, .zero], 5, []⟩

theorem exists_downloads_second :
    ∃ len, seeded.Downloads ⟨threePieces, 1⟩ (utf8 "f") (utf8 "1") len :=
  (exists_downloads_iff (by decide) rfl
    ⟨newSeed (utf8 "http://a") .HTTPFTP, by decide +kernel, fun _ h => nomatch h⟩).2 (by decide)

theorem not_exists_downloads_last :
    ¬ ∃ len, seeded.Downloads ⟨threePieces, 2⟩ (utf8 "f") (utf8 "1") len :=
  fun ⟨_, h⟩ => absurd (h.dvd (by decide)) (by decide)

end WebSeedManager

end GoI2pBt.Rpc
