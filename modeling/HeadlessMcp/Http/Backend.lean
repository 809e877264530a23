import HeadlessMcp.Core.Backend
import HeadlessMcp.Http.Headers
import HeadlessMcp.OAuth2.Discovery
import HeadlessMcp.Wire.JsonRpc
import HeadlessMcp.Wire.Sse

/-!
# The HTTP backend

`HttpBackend` speaks JSON-RPC over POST requests. Its state is spread over small locks
and atomics, each held for one read or write only, so every access is an operation of its
own and other callers may come in between. The one lock that is held across awaits
serialises re-initialisation.

A POST is one operation: the request goes out and its reply is awaited. It touches no
state, so what others do meanwhile is what they do after it.
-/

namespace HeadlessMcp

open Async

/-- A POST request. It has the headers that tell requests apart, besides what every request has.
-/
structure HttpRequest : Type where
  message : JsonRpcMessage
  /-- the token of the client's default `Authorization` header -/
  bearer : Option String
  headers : Entries String
  /-- the `Mcp-Session-Id` header -/
  sessionId : Option String

/-- How a POST ends. A request may not be sent or not be answered in time, and an answer's body
may break off. -/
inductive HttpReply : Type where
  /-- it could not be sent or was not answered -/
  | failed (timeout : Bool) (text : String) : HttpReply
  /-- an answer, whose body may fail to arrive; header names are in lower case -/
  | response (status : Nat) (headers : Entries String) (body : Except String String) : HttpReply

/-- The atomic operations of an HTTP backend. Each of them is one access to a lock or an atomic,
or one request whose reply is awaited. -/
inductive HttpOp : Type → Type 1 where
  /-- an operation of the token manager -/
  | oauth {β : Type} (o : OAuthOp β) : HttpOp β
  /-- `request_counter.fetch_add(1)` -/
  | nextId : HttpOp Nat
  /-- read `session_id` -/
  | loadSession : HttpOp (Option String)
  /-- set `session_id` to a captured id -/
  | storeSession (sid : String) : HttpOp Unit
  /-- take `session_id` -/
  | takeSession : HttpOp (Option String)
  /-- put `session_id` back, unless there is one -/
  | restoreSession (stale : Option String) : HttpOp Unit
  /-- read `session_epoch` -/
  | loadEpoch : HttpOp Nat
  /-- `session_epoch.fetch_add(1)` -/
  | bumpEpoch : HttpOp Unit
  /-- acquire `reinit_lock` -/
  | lockReinit : HttpOp Unit
  /-- drop its guard -/
  | unlockReinit : HttpOp Unit
  /-- read `connected`, before a request -/
  | isConnected : HttpOp Bool
  /-- read `connected` at the start of `connect`: it goes on to a handshake when it is false -/
  | needsHandshake : HttpOp Bool
  /-- set `connected` -/
  | setConnected (connected : Bool) : HttpOp Unit
  /-- read `initialize_result` -/
  | loadInit : HttpOp (Option InitializeResult)
  /-- set `initialize_result` -/
  | storeInit (init : InitializeResult) : HttpOp Unit
  /-- set `tools_refresh` -/
  | setRefresh : HttpOp Unit
  /-- take `tools_refresh` -/
  | takeRefresh : HttpOp Bool
  /-- read the annotations of the tools -/
  | loadParamHeaders : HttpOp (Entries ParamHeaders)
  /-- set the annotations of the tools -/
  | storeParamHeaders (headers : Entries ParamHeaders) : HttpOp Unit
  /-- the token of the current client -/
  | loadClient : HttpOp (Option String)
  /-- build a client with a token -/
  | storeClient (bearer : Option String) : HttpOp Unit
  /-- send a request and await the reply -/
  | post (request : HttpRequest) : HttpOp HttpReply

/-- What an HTTP backend is created with. It does not change while the backend lives. -/
structure HttpBackend : Type where
  id : String
  url : String
  /-- scheme and authority of the URL, when it can be parsed -/
  origin : Option String
  /-- the token manager, if OAuth2 is configured -/
  manager : Option Manager
  daemonMode : Bool
  serde : Serde

/-- A failed request, and whether the backend's session is thought lost. What decides about
another attempt is whether the server says that it does not know the session. -/
structure Failure : Type where
  error : BackendError
  sessionLost : Option String

/-- `Failure::from`. -/
def Failure.ofError (e : BackendError) : Failure := ⟨e, none⟩

/-- The default token of `build_client`. -/
def clientToken (token : Option String) : Option String :=
  token.filter fun t => t ≠ "" && headerValueOk s!"Bearer {t}"

/-- What the token manager does for the backend. -/
def oauthDo {α : Type} (p : Prog OAuthOp α) : Prog HttpOp α := p.lift HttpOp.oauth

/-! ## Replies -/

/-- `json_payload`: the JSON of a body, out of its event stream. A body that is no stream is its
own payload. -/
def jsonPayload (body : String) : Option String :=
  if "event:".toList.isPrefixOf body.toList || "data:".toList.isPrefixOf body.toList then
    (({} : SseDecoder).feed body).1.head?.map (·.data)
  else some body

/-- `session_not_initialized`: what a restarted backend answers. It looks for the error that such
a server gives, by its code and by the words in its message. -/
def sessionNotInitialized (serde : Serde) (body : String) : Option String :=
  match (jsonPayload body).map (decodeMessage serde) with
  | some (.ok (.error _ err)) =>
    if (err.code = -32600 ∨ (-32099 ≤ err.code ∧ err.code ≤ -32000)) ∧
        strContains "not initialized" (String.ofList (err.message.toList.map Char.toLower)) then
      some "session is not initialized"
    else none
  | _ => none

/-- A `u64` as an `i64`. -/
def asI64 (n : Nat) : Int := if n < 2 ^ 63 then n else (n : Int) - 2 ^ 64

namespace HttpBackend

variable (b : HttpBackend)

/-- A `BackendError` of kind `Protocol`. -/
def protocolError (message : String) : BackendError := ⟨.protocol, message⟩

/-- `parse_response`. -/
def parseResponse (body : String) : BackendResult Value :=
  match jsonPayload body with
  | none => .error (protocolError s!"empty SSE response from '{b.id}'")
  | some json =>
    match decodeMessage b.serde json with
    | .error e => .error (protocolError
        s!"failed to decode response from '{b.id}': {e.display}")
    | .ok (.success _ result) => .ok result
    | .ok (.error _ err) => .error (protocolError
        s!"backend '{b.id}' returned error (code {err.code}): {err.message}")
    | .ok _ => .error (protocolError "unexpected response type")

/-- Where the authorization server of a 401 is looked for. -/
def discoveryUrl (headers : Entries String) : String :=
  match ((headers.get "www-authenticate").filter headerTextOk).bind parseResourceMetadataUrl with
  | some url => url
  | none => s!"{b.origin.getD b.url}/.well-known/oauth-authorization-server"

/-! ## Requests -/

/-- Discovery on a 401; its failure is only logged. The request goes on whatever it finds: what is
discovered is for the token manager. -/
def discoverOn (status : Nat) (headers : Entries String) : Prog HttpOp Unit :=
  match b.manager with
  | some _ =>
    if status = 401 then do
      let _ ← oauthDo (Manager.discover (b.discoveryUrl headers) b.serde.rejects)
      .ret ()
    else .ret ()
  | none => .ret ()

/-- `post_json`: the body, the status and the headers of the reply. -/
def postJson (message : JsonRpcMessage) (extraHeaders : Entries String)
    (sessionId : Option String) :
    Prog HttpOp (BackendResult (String × Nat × Entries String)) := do
  let bearer ← .perform .loadClient
  match ← .perform (.post ⟨message, bearer, extraHeaders, sessionId⟩) with
  | .failed timeout e => .ret (.error ⟨if timeout then .timeout else .connection,
      s!"HTTP request to '{b.id}' failed: {e}"⟩)
  | .response status headers body =>
    b.discoverOn status headers
    match body with
    | .error e => .ret (.error (protocolError s!"failed to read response from '{b.id}': {e}"))
    | .ok body => .ret (.ok (body, status, headers))

/-- Capture the session id of a reply. A reply without the header leaves the id that is stored. -/
def captureSession (headers : Entries String) : Prog HttpOp Unit :=
  match (headers.get "mcp-session-id").filter headerTextOk with
  | some sid => .perform (.storeSession sid)
  | none => .ret ()

/-- What is made of a reply without a retry. It tells a lost session from any other failure, and
an error status from an answer. -/
def finish (body : String) (status : Nat) (sentSession : Option String) :
    Except Failure Value :=
  if isSuccess status then
    match b.parseResponse body with
    | .ok v => .ok v
    | .error e => .error ⟨e, sessionNotInitialized b.serde body⟩
  else
    let kind : BackendErrorKind :=
      if 500 ≤ status ∧ status < 600 then .connection else .protocol
    .error ⟨⟨kind, s!"HTTP {status} from '{b.id}': {body}"⟩,
      if status = 404 ∧ sentSession.isSome then some "HTTP 404 for the session"
      else sessionNotInitialized b.serde body⟩

/-- The retry of a request, with the client rebuilt for a new token. -/
def retryWith (message : JsonRpcMessage) (extraHeaders : Entries String)
    (sentSession : Option String) (token : String) : Prog HttpOp (Except Failure Value) := do
  .perform (.storeClient (clientToken (some token)))
  match ← b.postJson message extraHeaders sentSession with
  | .error e => .ret (.error (.ofError e))
  | .ok (body, status, headers) =>
    captureSession headers
    if isSuccess status then
      match b.parseResponse body with
      | .ok v => .ret (.ok v)
      | .error e => .ret (.error (.ofError e))
    else .ret (.error (.ofError ⟨.auth, s!"HTTP {status} after OAuth2: {body}"⟩))

/-- The annotations that the headers of a request need. -/
def annotations (method : String) (params : Option Value) : Prog HttpOp (Entries ParamHeaders) :=
  if method = "tools/call" ∧ (modernVersion params).isSome then .perform .loadParamHeaders
  else .ret []

/-- The headers of a request besides the common ones. Once they are too many, `modern_headers`
panics. -/
def extraHeaders (method : String) (params : Option Value) : Prog HttpOp (Entries String) := do
  match modernHeaders (← annotations method params) method params with
  | some headers => .ret headers
  | none => .panic

/-- What `send_request_inner` does once it has read the session id: post the request, and
again after a 401 for which a token could be obtained. -/
def exchange (message : JsonRpcMessage) (extraHeaders : Entries String)
    (sentSession : Option String) (retry : Bool) : Prog HttpOp (Except Failure Value) := do
  match ← b.postJson message extraHeaders sentSession with
  | .error e => .ret (.error (.ofError e))
  | .ok (body, status, headers) =>
    captureSession headers
    match b.manager with
    | none => .ret (b.finish body status sentSession)
    | some manager =>
      if status = 401 ∧ retry then
        match ← oauthDo (manager.getToken b.id b.daemonMode) with
        | .ok token => b.retryWith message extraHeaders sentSession token
        | .error _ => .ret (b.finish body status sentSession)
      else .ret (b.finish body status sentSession)

/-- `send_request_inner`. -/
def sendRequestInner (method : String) (params : Option Value) (retry : Bool) :
    Prog HttpOp (Except Failure Value) := do
  let id ← .perform .nextId
  let extraHeaders ← extraHeaders method params
  let sentSession ← .perform .loadSession
  b.exchange (.request (.number (asI64 id)) method params) extraHeaders sentSession retry

/-- `send_notification`. -/
def sendNotification (method : String) (params : Option Value) :
    Prog HttpOp (BackendResult Unit) := do
  let bearer ← .perform .loadClient
  let sessionId ← .perform .loadSession
  match ← .perform (.post ⟨.notification method params, bearer, [],
      sessionId.filter headerValueOk⟩) with
  | .failed _ e => .ret (.error ⟨.connection,
      s!"HTTP notification to '{b.id}' failed: {e}"⟩)
  | .response status _ _ =>
    if isSuccess status ∨ status = 202 then .ret (.ok ())
    else .ret (.error (protocolError
      s!"notification to '{b.id}' returned HTTP {status}"))

/-- The version of the hub. -/
def packageVersion : String := "0.0.16"

/-- The params of `initialize`. -/
def initializeParams : Value :=
  .object [("protocolVersion", .string "2024-11-05"),
    ("clientInfo", .object [("name", .string "headless-mcp"),
      ("version", .string packageVersion)]),
    ("capabilities", .object [])]

/-- `handshake`. -/
def handshake : Prog HttpOp (BackendResult InitializeResult) := do
  match ← b.sendRequestInner "initialize" (some initializeParams) true with
  | .error failure => .ret (.error failure.error)
  | .ok result =>
    match result.toInitializeResult with
    | none => .ret (.error (protocolError s!"bad init result: {b.serde.rejects result}"))
    | some init =>
      let _ ← b.sendNotification "notifications/initialized" none
      .ret (.ok init)

/-- What `reinitialize` does when nobody else has done it. It takes the session id away for the
length of the handshake, and puts it back where the handshake fails. -/
def reinitializeOnce : Prog HttpOp (BackendResult Unit) := do
  let stale ← .perform .takeSession
  let outcome ← b.handshake
  .perform .bumpEpoch
  match outcome with
  | .ok init =>
    .perform (.storeInit init)
    .perform .setRefresh
    .ret (.ok ())
  | .error e =>
    .perform (.restoreSession stale)
    .ret (.error e)

/-- `reinitialize`: redo the handshake, unless another caller already did. It is decided by the
epoch, under the lock: a caller that finds another epoch than it has seen has nothing to do. -/
def reinitialize (seenEpoch : Nat) : Prog HttpOp (BackendResult Unit) :=
  Prog.withLock .lockReinit .unlockReinit do
    if (← .perform .loadEpoch) ≠ seenEpoch then .ret (.ok ())
    else b.reinitializeOnce

/-- The error of a failure that is not handled. -/
def giveUp (result : Except Failure Value) : BackendResult Value :=
  match result with
  | .ok v => .ok v
  | .error failure => .error failure.error

/-- `send_request`: a legacy request that finds the session gone re-initialises and is sent
once more. -/
def sendRequest (method : String) (params : Option Value) (retry : Bool) :
    Prog HttpOp (BackendResult Value) := do
  let epoch ← .perform .loadEpoch
  match ← b.sendRequestInner method params retry with
  | .ok v => .ret (.ok v)
  | .error failure =>
    if failure.sessionLost = none ∨ method = "initialize" ∨ (modernVersion params).isSome then
      .ret (.error failure.error)
    else
      match ← b.reinitialize epoch with
      | .error _ => .ret (.error failure.error)
      | .ok () => do .ret (giveUp (← b.sendRequestInner method params retry))

/-! ## The backend contract -/

/-- `check_connected`. -/
def checkConnected : Prog HttpOp (BackendResult Unit) := do
  if ← .perform .isConnected then .ret (.ok ())
  else .ret (.error ⟨.connection, s!"backend '{b.id}' not connected"⟩)

/-- Use a persisted token, if there is a valid one. -/
def adoptToken : Prog HttpOp Unit :=
  match b.manager with
  | none => .ret ()
  | some manager => do
    match ← oauthDo (manager.adoptPersisted b.id) with
    | some token => .perform (.storeClient (clientToken (some token)))
    | none => .ret ()

/-- `connect`. -/
def connect : Prog HttpOp (BackendResult InitializeResult) := do
  if ← .perform .needsHandshake then
    b.adoptToken
    match ← b.handshake with
    | .error e => .ret (.error e)
    | .ok init =>
      .perform (.storeInit init)
      .perform (.setConnected true)
      .ret (.ok init)
  else
    match ← .perform .loadInit with
    | some init => .ret (.ok init)
    | none => .ret (.error ⟨.internal, "no cached init result"⟩)

/-- The tools of a listing. -/
def readTools : List Value → BackendResult (List ToolDescriptor)
  | [] => .ok []
  | v :: vs =>
    match v.toToolDescriptor with
    | none => .error (protocolError s!"invalid tool descriptor: {b.serde.rejects v}")
    | some tool => (readTools vs).map (tool :: ·)

/-- The annotations of the tools that have some. -/
def annotatedTools (tools : List ToolDescriptor) : Entries ParamHeaders :=
  tools.foldl (fun m tool =>
    match paramHeaderPaths tool.inputSchema with
    | [] => m
    | paths => Entries.insert tool.name paths m) []

/-- `list_tools`. -/
def listTools : Prog HttpOp (BackendResult (List ToolDescriptor)) := do
  match ← b.checkConnected with
  | .error e => .ret (.error e)
  | .ok () =>
    match ← b.sendRequest "tools/list" none true with
    | .error e => .ret (.error e)
    | .ok result =>
      match (result.get "tools").bind Value.asArray with
      | none => .ret (.error (protocolError "no 'tools' array in response"))
      | some list =>
        match b.readTools list with
        | .error e => .ret (.error e)
        | .ok tools =>
          .perform (.storeParamHeaders (annotatedTools tools))
          .ret (.ok tools)

/-- `call_tool`; the timeout is the client's. -/
def callTool (name : String) (arguments : Option Value) : Prog HttpOp (BackendResult Value) := do
  match ← b.checkConnected with
  | .error e => .ret (.error e)
  | .ok () => b.sendRequest "tools/call" (some (toolCallParams name arguments)) true

/-- `request`. -/
def request (method : String) (params : Option Value) : Prog HttpOp (BackendResult Value) := do
  match ← b.checkConnected with
  | .error e => .ret (.error e)
  | .ok () => b.sendRequest method params true

/-- `disconnect`. -/
def disconnect : Prog HttpOp (BackendResult Unit) := do
  .perform (.setConnected false)
  .ret (.ok ())

/-- `health_check`. -/
def healthCheck : Prog HttpOp (BackendResult Unit) := do
  match ← b.checkConnected with
  | .error e => .ret (.error e)
  | .ok () =>
    match ← b.sendRequest "tools/list" none true with
    | .error e => .ret (.error e)
    | .ok _ => .ret (.ok ())

/-- The methods of the backend. -/
def run : {β : Type} → McpOp β → Prog HttpOp β
  | _, .connect => b.connect
  | _, .listTools => b.listTools
  | _, .callTool name arguments _ => b.callTool name arguments
  | _, .disconnect => disconnect
  | _, .healthCheck => b.healthCheck
  | _, .request method params _ => b.request method params
  | _, .takeToolsRefresh => .perform .takeRefresh

end HttpBackend

end HeadlessMcp
