/-
  What requests without authorization can change.
-/
import GoI2pBt.Rpc.Methods

namespace GoI2pBt.Rpc

open List Json RPCMethods Option

/-! ## The server -/

structure ServerConfig where
  Username : Bytes
  Password : Bytes
  SessionTokenHeader : Bytes
  MaxRequestSize : ℤ

structure Server where
  config : ServerConfig
  methods : RPCMethods
  sessionID : Bytes

structure HttpRequest where
  Method : Bytes
  Header : Bytes → Bytes
  ContentLength : ℤ
  Body : Option Bytes
  BasicAuth : Option (Bytes × Bytes)

structure Request where
  ID : Json
  Method : Bytes
  Params : Json
  Version : Bytes
deriving DecidableEq

def Request.zero : Request := ⟨.null, [], .null, []⟩

def Request.into (F : Float64) : Into Request := struct.into
  [field "id" Request.ID (fun req v => { req with ID := v }) (any.into F),
   field "method" Request.Method (fun req s => { req with Method := s }) str.into,
   field "params" Request.Params (fun req v => { req with Params := v }) (any.into F),
   field "jsonrpc" Request.Version (fun req s => { req with Version := s }) str.into]

structure Response where
  status : ℕ
  token : Option Bytes
  ID : Json
  outcome : Option Outcome

def applyServerConfigDefaults (config : ServerConfig) : ServerConfig :=
  { config with
    SessionTokenHeader :=
      if config.SessionTokenHeader = [] then utf8 "X-Transmission-Session-Id"
      else config.SessionTokenHeader
    MaxRequestSize :=
      if config.MaxRequestSize = 0 then 10 * 1024 * 1024 else config.MaxRequestSize }

def NewServer (config : ServerConfig) (methods : RPCMethods) (sessionID : Bytes) : Server :=
  ⟨applyServerConfigDefaults config, methods, sessionID⟩

def sendError (status : ℕ) (rpcCode : ℤ) (message : String) : Response :=
  ⟨status, none, .null, some (.error ⟨rpcCode, message⟩)⟩

def stateChangingMethods : List Bytes :=
  [utf8 "torrent-add", utf8 "torrent-start", utf8 "torrent-start-now", utf8 "torrent-stop",
   utf8 "torrent-verify", utf8 "torrent-remove", utf8 "torrent-set", utf8 "session-set"]

def isStateChangingMethod (method : Bytes) : Bool := method ∈ stateChangingMethods

namespace Server

variable (K : Packages) (S : Setters) (o : Outside) (s : Server) (r : HttpRequest)

def validateHTTPRequest : Option Response :=
  if r.Method ≠ utf8 "POST" then
    some (sendError 405 ErrCodeInvalidRequest "Only POST method allowed")
  else if ¬ contains (r.Header (utf8 "Content-Type")) (utf8 "application/json") then
    some (sendError 400 ErrCodeInvalidRequest "Content-Type must be application/json")
  else if r.ContentLength > s.config.MaxRequestSize then
    some (sendError 413 ErrCodeInvalidRequest "Request too large")
  else none

def parseRPCRequest : Except Response Request :=
  match r.Body with
  | none => .error (sendError 400 ErrCodeInvalidRequest "Failed to read request body")
  | some body =>
    match (Json.parse (body.take s.config.MaxRequestSize.toNat)).bind
        fun v => Request.into K.float v Request.zero with
    | none => .error (sendError 400 ErrCodeParseError "Invalid JSON")
    | some req =>
      if req.Version ≠ utf8 "2.0" then
        .error (sendError 400 ErrCodeInvalidRequest "Invalid JSON-RPC version")
      else .ok req

def checkAuth : Bool :=
  if s.config.Username = [] ∧ s.config.Password = [] then true
  else
    match r.BasicAuth with
    | none => false
    | some (username, password) => username = s.config.Username ∧ password = s.config.Password

def checkSessionToken : Bool := r.Header s.config.SessionTokenHeader = s.sessionID

def validateRPCAuthentication (req : Request) : Option Response :=
  if ¬ s.checkAuth r then some (sendError 401 ErrCodeInternalError "Authentication required")
  else if isStateChangingMethod req.Method ∧ ¬ s.checkSessionToken r then
    some { sendError 409 ErrCodeInternalError "Session token required" with
      token := some s.sessionID }
  else none

def params (req : Request) : Option Json :=
  match req.Params with
  | .null => none
  | v => some v

def processRPCRequest (req : Request) : Option (Server × Response) :=
  match RPCMethods.GetMethodHandler K S o req.Method with
  | none =>
    let method := textOf req.Method
    some (s, ⟨200, none, req.ID,
      some (.error ⟨ErrCodeMethodNotFound, s!"Method '{method}' not found"⟩)⟩)
  | some handler =>
    (handler (params req) s.methods).map fun p =>
      ({ s with methods := p.1 }, ⟨200, none, req.ID,
        some (if o.timeout then .error ⟨ErrCodeInternalError, "Request timeout"⟩ else p.2)⟩)

def ServeHTTP : Option (Server × Response) :=
  if r.Method = utf8 "OPTIONS" then some (s, ⟨200, none, .null, none⟩)
  else
    match s.validateHTTPRequest r with
    | some response => some (s, response)
    | none =>
      match s.parseRPCRequest K r with
      | .error response => some (s, response)
      | .ok req =>
        match s.validateRPCAuthentication r req with
        | some response => some (s, response)
        | none => s.processRPCRequest K S o req

end Server

/-! ## What a request without authorization can do -/

def ReadOnly (h : Handler) : Prop := ∀ params m, ∃ outcome, h params m = some (m, outcome)

theorem readOnly_unmarshal {α : Type} {into : Into α} {zero : α} {f : α → RPCMethods → Outcome} :
    ReadOnly (unmarshal into zero fun req => reads (f req)) := by
  intro params m
  rw [unmarshal]
  cases params.bind fun v => into v zero with
  | none => exact ⟨_, rfl⟩
  | some req => exact ⟨f req m, rfl⟩

def unlistedMethods : List Bytes :=
  [utf8 "torrent-webseed-add", utf8 "torrent-webseed-remove", utf8 "bandwidth-schedule-set",
   utf8 "bandwidth-schedule-rule-add", utf8 "bandwidth-schedule-rule-remove",
   utf8 "bandwidth-schedule-rule-update"]

variable {K : Packages} {S : Setters} {o : Outside} {s : Server} {r : HttpRequest} {method : Bytes}

theorem getTorrentActionHandler_eq_none (h : method ∉ stateChangingMethods) :
    getTorrentActionHandler K S o method = none := by
  simp only [stateChangingMethods, mem_cons, not_mem_nil, or_false, not_or] at h
  obtain ⟨-, h1, h2, h3, h4, h5, h6, -⟩ := h
  rw [getTorrentActionHandler, if_neg h1, if_neg h2, if_neg h3, if_neg h4, if_neg h5, if_neg h6]

theorem readOnly_special (h : method ∉ stateChangingMethods) (hu : method ∉ unlistedMethods)
    {handler} (he : getSpecialRequestHandler K S o method = some handler) :
    ReadOnly handler := by
  simp only [stateChangingMethods, mem_cons, not_mem_nil, or_false, not_or] at h
  simp only [unlistedMethods, mem_cons, not_mem_nil, or_false, not_or] at hu
  obtain ⟨hadd, -, -, -, -, -, -, hset⟩ := h
  obtain ⟨h1, h2, h3, h4, h5, h6⟩ := hu
  rw [getSpecialRequestHandler, if_neg hadd, if_neg h1, if_neg h2, if_neg h3, if_neg h4,
    if_neg h5, if_neg h6, if_neg hset] at he
  split_ifs at he <;> cases he <;> exact readOnly_unmarshal

theorem readOnly_session {handler}
    (he : getSessionHandler method = some handler) : ReadOnly handler := by
  rw [getSessionHandler] at he
  split_ifs at he <;> cases he <;> exact fun _ m => ⟨_, rfl⟩

theorem readOnly_handler (h : method ∉ stateChangingMethods) (hu : method ∉ unlistedMethods)
    {handler} (he : RPCMethods.GetMethodHandler K S o method = some handler) :
    ReadOnly handler := by
  rw [RPCMethods.GetMethodHandler, getTorrentActionHandler_eq_none h] at he
  cases hs : getSpecialRequestHandler K S o method with
  | some special =>
    rw [hs] at he
    cases he
    exact readOnly_special h hu hs
  | none =>
    rw [hs] at he
    exact readOnly_session he

namespace Server

def Authorized (s : Server) (r : HttpRequest) : Prop := s.checkSessionToken r ∧ s.checkAuth r

def Calls (K : Packages) (s : Server) (r : HttpRequest) (method : Bytes) : Prop :=
  ∀ req, s.parseRPCRequest K r = .ok req → req.Method = method

def Unchanged (K : Packages) (S : Setters) (o : Outside) (s : Server) (r : HttpRequest) : Prop :=
  ∃ response, s.ServeHTTP K S o r = some (s, response)

theorem serveHTTP_cases (K : Packages) (S : Setters) (o : Outside) (s : Server) (r : HttpRequest) :
    s.Unchanged K S o r ∨ ∃ req, s.parseRPCRequest K r = .ok req ∧ s.checkAuth r ∧
      (isStateChangingMethod req.Method → s.checkSessionToken r) ∧
      s.ServeHTTP K S o r = s.processRPCRequest K S o req := by
  rw [Unchanged, ServeHTTP]
  by_cases hopt : r.Method = utf8 "OPTIONS"
  · rw [if_pos hopt]
    exact .inl ⟨_, rfl⟩
  rw [if_neg hopt]
  cases s.validateHTTPRequest r with
  | some response => exact .inl ⟨_, rfl⟩
  | none =>
    cases hreq : s.parseRPCRequest K r with
    | error response => exact .inl ⟨_, rfl⟩
    | ok req =>
      dsimp only
      cases hauth : s.validateRPCAuthentication r req with
      | some response => exact .inl ⟨_, rfl⟩
      | none =>
        rw [validateRPCAuthentication] at hauth
        split_ifs at hauth with hcred htoken
        refine .inr ⟨req, rfl, hcred, fun hlisted => ?_, rfl⟩
        by_contra hno
        exact htoken ⟨hlisted, hno⟩

theorem unchanged_of_no_credentials (h : ¬ s.checkAuth r) : s.Unchanged K S o r := by
  rcases serveHTTP_cases K S o s r with hun | ⟨-, -, hauth, -⟩
  · exact hun
  · exact absurd hauth h

theorem unchanged_of_readOnly {req} (h : req.Method ∉ stateChangingMethods)
    (hu : req.Method ∉ unlistedMethods) :
    ∃ response, s.processRPCRequest K S o req = some (s, response) := by
  rw [processRPCRequest]
  cases hh : RPCMethods.GetMethodHandler K S o req.Method with
  | none => exact ⟨_, rfl⟩
  | some handler =>
    obtain ⟨outcome, hrun⟩ := readOnly_handler h hu hh (params req) s.methods
    dsimp only
    rw [hrun]
    exact ⟨_, rfl⟩

theorem unchanged_of_notMem_unlisted (hu : method ∉ unlistedMethods) (hcalls : s.Calls K r method)
    (hauth : ¬ s.Authorized r) : s.Unchanged K S o r := by
  rcases serveHTTP_cases K S o s r with hun | ⟨req, hreq, hcred, htoken, hserve⟩
  · exact hun
  have hm : req.Method = method := hcalls req hreq
  have hlisted : req.Method ∉ stateChangingMethods := by
    intro hin
    exact hauth ⟨htoken (decide_eq_true hin), hcred⟩
  rw [Unchanged, hserve]
  exact unchanged_of_readOnly hlisted (hm ▸ hu)

/-! ## What the six methods do -/

def openServer (m : RPCMethods) : Server := NewServer ⟨[], [], [], 0⟩ m (utf8 "session-0")

def post (body : Bytes) : HttpRequest where
  Method := utf8 "POST"
  Header key := if key = utf8 "Content-Type" then utf8 "application/json" else []
  ContentLength := body.length
  Body := some body
  BasicAuth := none

theorem parse_post {m body v req}
    (hlen : body.length ≤ 10 * 1024 * 1024) (hv : Json.parse body = some v)
    (hreq : Request.into K.float v Request.zero = some req) (hversion : req.Version = utf8 "2.0") :
    (openServer m).parseRPCRequest K (post body) = .ok req := by
  have htake : body.take (openServer m).config.MaxRequestSize.toNat = body := take_of_length_le hlen
  rw [parseRPCRequest, post]
  dsimp only
  rw [htake, hv, bind_some, hreq]
  dsimp only
  rw [if_neg (not_not.2 hversion)]

theorem serve_post {m body req} (hlen : body.length ≤ 10 * 1024 * 1024)
    (hparse : (openServer m).parseRPCRequest K (post body) = .ok req)
    (hlisted : req.Method ∉ stateChangingMethods) :
    (openServer m).ServeHTTP K S o (post body) = (openServer m).processRPCRequest K S o req := by
  have hvalid : (openServer m).validateHTTPRequest (post body) = none := by
    have hmethod : (post body).Method = utf8 "POST" := rfl
    have htype : contains ((post body).Header (utf8 "Content-Type"))
        (utf8 "application/json") := by
      change contains (utf8 "application/json") (utf8 "application/json")
      decide +kernel
    have hsize : ¬ (post body).ContentLength > (openServer m).config.MaxRequestSize := by
      change ¬ (body.length : ℤ) > 10 * 1024 * 1024
      omega
    rw [validateHTTPRequest, if_neg (not_not.2 hmethod), if_neg (not_not.2 htype), if_neg hsize]
  have hauth : (openServer m).validateRPCAuthentication (post body) req = none := by
    have hcred : (openServer m).checkAuth (post body) := rfl
    rw [validateRPCAuthentication, if_neg (not_not.2 hcred), if_neg]
    rintro ⟨hin, -⟩
    exact hlisted (of_decide_eq_true hin)
  have hopt : (post body).Method ≠ utf8 "OPTIONS" := by
    change utf8 "POST" ≠ utf8 "OPTIONS"
    decide
  rw [ServeHTTP, if_neg hopt, hvalid]
  dsimp only
  rw [hparse]
  dsimp only
  rw [hauth]

def callText (method params : Bytes) : Bytes :=
  utf8 "\x7b\"jsonrpc\":\"2.0\",\"method\":\"" ++ method ++ utf8 "\",\"params\":" ++ params ++
    utf8 "\x7d"

def callValue (method : Bytes) (params : Json) : Json :=
  .obj [(utf8 "jsonrpc", .str (utf8 "2.0")), (utf8 "method", .str method), (utf8 "params", params)]

def callRequest (method : Bytes) (params : Json) : Request := ⟨.null, method, params, utf8 "2.0"⟩

def sampleRule (name : Bytes) : BandwidthScheduleRule :=
  ⟨name, [], utf8 "00:00", utf8 "01:00", 0, 0, 0, false⟩

def sampleMethods : RPCMethods where
  manager := ((NewTorrentManager emptyConfig).AddTorrent samplePlatform [] pausedRequest).1
  webseedManager :=
    ⟨true, Finmap.singleton (utf8 "1") [WebSeedManager.newSeed (utf8 "http://b") .HTTPFTP]⟩
  bandwidthScheduler := ⟨false, [⟨0, sampleRule (utf8 "n")⟩], none, false, 0⟩

def sampleOutside : Outside := ⟨[1], 0, fun _ => false, false⟩

def Unguarded (K : Packages) (S : Setters) (method : Bytes) : Prop :=
  ∃ (o : Outside) (s : Server) (r : HttpRequest),
    s.Calls K r method ∧ ¬ s.Authorized r ∧ ¬ s.Unchanged K S o r

theorem unguarded_of_change {method} (text : Bytes) (v : Json) {m' outcome handler}
    (hv : Json.parse (callText method text) = some (callValue method v))
    (hlen : (callText method text).length ≤ 10 * 1024 * 1024)
    (hlisted : method ∉ stateChangingMethods)
    (hreq : Request.into K.float (callValue method v) Request.zero = some (callRequest method v))
    (hhandler : RPCMethods.GetMethodHandler K S sampleOutside method = some handler)
    (hrun : handler (params (callRequest method v)) sampleMethods = some (m', outcome))
    (hne : m' ≠ sampleMethods) : Unguarded K S method := by
  have hparse : (openServer sampleMethods).parseRPCRequest K (post (callText method text)) =
      .ok (callRequest method v) := parse_post hlen hv hreq rfl
  refine ⟨sampleOutside, openServer sampleMethods, post (callText method text), fun req h => ?_,
    fun h => ?_, ?_⟩
  · rw [hparse] at h
    cases h
    rfl
  · exact absurd h.1 (by change ¬ decide ([] = utf8 "session-0") = true; decide)
  · rintro ⟨response, h⟩
    rw [serve_post hlen hparse hlisted, processRPCRequest,
      show (callRequest method v).Method = method from rfl, hhandler] at h
    dsimp only at h
    rw [show (openServer sampleMethods).methods = sampleMethods from rfl, hrun, map_some, some.injEq,
      Prod.mk.injEq] at h
    exact hne (congrArg Server.methods h.1)

theorem torrentIDs_sample : sampleMethods.torrentIDs sampleOutside [] = [1] := by
  decide +kernel

theorem addWebSeeds_singleton (url : Bytes) (seedType : WebSeedType) (id : Int64)
    (ws : WebSeedManager) :
    (addWebSeeds K url seedType [id] ws).1 =
      (ws.AddWebSeed K.host (seedKey id) url seedType).1 := by
  rw [addWebSeeds]
  cases hadd : ws.AddWebSeed K.host (seedKey id) url seedType with
  | mk ws' result =>
    cases result with
    | ok => rfl
    | error => rfl

theorem unguarded_webSeedAdd : Unguarded K S (utf8 "torrent-webseed-add") := by
  refine unguarded_of_change (utf8 "\x7b\"url\":\"http://a\"\x7d")
    (.obj [(utf8 "url", .str (utf8 "http://a"))])
    (by decide +kernel) (by decide +kernel) (by decide +kernel) rfl rfl rfl fun e => ?_
  have hurl : WebSeedManager.validateURL K.host (utf8 "http://a") = .ok () :=
    WebSeedManager.validateURL_http (utf8 "a") (by decide +kernel) (by decide +kernel)
  have hnew : ∀ seed ∈ sampleMethods.webseedManager.seeds (seedKey 1),
      seed.URL ≠ utf8 "http://a" := by
    decide +kernel
  have hseeds := congrArg (fun m => m.webseedManager.seeds (seedKey 1)) e
  dsimp only at hseeds
  rw [torrentIDs_sample, addWebSeeds_singleton, WebSeedManager.seeds_AddWebSeed rfl hurl hnew] at hseeds
  exact absurd (append_right_eq_self.1 hseeds) (cons_ne_nil _ _)

theorem unguarded_webSeedRemove : Unguarded K S (utf8 "torrent-webseed-remove") := by
  refine unguarded_of_change (utf8 "\x7b\"url\":\"http://b\"\x7d")
    (.obj [(utf8 "url", .str (utf8 "http://b"))])
    (by decide +kernel) (by decide +kernel) (by decide +kernel) rfl rfl rfl fun e => ?_
  have hseeds := congrArg (fun m => m.webseedManager.seeds (seedKey 1)) e
  dsimp only at hseeds
  rw [torrentIDs_sample, foldl_cons, foldl_nil, WebSeedManager.seeds_RemoveWebSeed] at hseeds
  exact absurd hseeds (by decide +kernel)

theorem unguarded_scheduleSet : Unguarded K S (utf8 "bandwidth-schedule-set") := by
  refine unguarded_of_change (utf8 "\x7b\"enabled\":true\x7d")
    (.obj [(utf8 "enabled", .bool true)])
    (by decide +kernel) (by decide +kernel) (by decide +kernel) rfl rfl rfl fun e => ?_
  have henabled := congrArg (fun m => m.bandwidthScheduler.enabled) e
  cases henabled

theorem unguarded_ruleAdd : Unguarded K S (utf8 "bandwidth-schedule-rule-add") := by
  refine unguarded_of_change (utf8 "\x7b\"rule\":\x7b\"end_time\":\"01:00\",\"name\":\"m\",\"start_time\":\"00:00\"\x7d\x7d")
    (.obj [(utf8 "rule", .obj [(utf8 "end_time", .str (utf8 "01:00")), (utf8 "name", .str (utf8 "m")),
      (utf8 "start_time", .str (utf8 "00:00"))])])
    (by decide +kernel) (by decide +kernel) (by decide +kernel) rfl rfl rfl fun e => ?_
  have hrules := congrArg (fun m => m.bandwidthScheduler.rules.length) e
  exact absurd hrules (by decide +kernel)

theorem unguarded_ruleRemove : Unguarded K S (utf8 "bandwidth-schedule-rule-remove") := by
  refine unguarded_of_change (utf8 "\x7b\"name\":\"n\"\x7d")
    (.obj [(utf8 "name", .str (utf8 "n"))])
    (by decide +kernel) (by decide +kernel) (by decide +kernel) rfl rfl rfl fun e => ?_
  have hrules := congrArg (fun m => m.bandwidthScheduler.rules.length) e
  exact absurd hrules (by decide +kernel)

theorem unguarded_ruleUpdate : Unguarded K S (utf8 "bandwidth-schedule-rule-update") := by
  refine unguarded_of_change (utf8 "\x7b\"rule\":\x7b\"enabled\":true,\"end_time\":\"01:00\",\"name\":\"n\",\"start_time\":\"00:00\"\x7d\x7d")
    (.obj [(utf8 "rule", .obj [(utf8 "enabled", .bool true), (utf8 "end_time", .str (utf8 "01:00")),
      (utf8 "name", .str (utf8 "n")), (utf8 "start_time", .str (utf8 "00:00"))])])
    (by decide +kernel) (by decide +kernel) (by decide +kernel) rfl rfl rfl fun e => ?_
  have hrules := congrArg (fun m => m.bandwidthScheduler.rules.map fun p => p.rule.Enabled) e
  exact absurd hrules (by decide +kernel)

/-- **Six methods are not protected.** -/
theorem unauthorized_iff (K : Packages) (S : Setters) (method : Bytes) :
    (∀ (o : Outside) (s : Server) (r : HttpRequest),
      s.Calls K r method → ¬ s.Authorized r → s.Unchanged K S o r) ↔ method ∉ unlistedMethods := by
  constructor
  · intro h hin
    have hex : Unguarded K S method := by
      simp only [unlistedMethods, mem_cons, not_mem_nil, or_false] at hin
      rcases hin with rfl | rfl | rfl | rfl | rfl | rfl
      · exact unguarded_webSeedAdd
      · exact unguarded_webSeedRemove
      · exact unguarded_scheduleSet
      · exact unguarded_ruleAdd
      · exact unguarded_ruleRemove
      · exact unguarded_ruleUpdate
    obtain ⟨o, s, r, hcalls, hauth, hchanged⟩ := hex
    exact hchanged (h o s r hcalls hauth)
  · intro hu o s r hcalls hauth
    exact unchanged_of_notMem_unlisted hu hcalls hauth

def samplePackages : Packages where
  platform := samplePlatform
  float :=
    { reformat := some
      toInt64 := fun literal => Int64.ofInt ((parseInt 64 literal).getD 0)
      reformat_int := fun _ _ => rfl
      toInt64_int := fun i hi => by
        have h := abs_le.1 hi
        rw [parseInt_formatInt (by norm_num; omega) (by norm_num; omega), getD_some] }
  host := httpParser
  errorText _ := ""

def sampleSetters : Setters := ⟨fun _ m => some (m, .ok .nothing), fun _ m => some (m, .ok .nothing)⟩

theorem webSeed_without_token : ¬ (openServer sampleMethods).Authorized
        (post (callText (utf8 "torrent-webseed-add") (utf8 "\x7b\"url\":\"http://a\"\x7d"))) ∧
      (((openServer sampleMethods).ServeHTTP samplePackages sampleSetters sampleOutside
          (post (callText (utf8 "torrent-webseed-add") (utf8 "\x7b\"url\":\"http://a\"\x7d")))).map
        fun p => (p.1.methods.GetWebSeeds 1).map WebSeed.URL) =
      some [utf8 "http://b", utf8 "http://a"] ∧
      (sampleMethods.GetWebSeeds 1).map WebSeed.URL = [utf8 "http://b"] := by
  refine ⟨fun h => absurd h.1 ?_, ?_, ?_⟩
  · decide +kernel
  · decide +kernel
  · decide +kernel

end Server

end GoI2pBt.Rpc
