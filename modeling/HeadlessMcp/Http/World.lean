import HeadlessMcp.Async.History
import HeadlessMcp.Http.Backend
import HeadlessMcp.OAuth2.World

/-!
# The world of an HTTP backend

The state that the callers of one backend share, with the record of every request that the
server has seen, and what each operation does to it. The environment chooses the replies.

`opening` says which callers have set out on a handshake and not yet read the session id
that their `initialize` request will carry.
-/

namespace HeadlessMcp

open Async

/-- The shared state of an HTTP backend, and what the server has seen. The token manager's world
is a part of it, since the two are interleaved. -/
structure HttpWorld (ι : Type) : Type where
  oauth : OAuthWorld ι
  requestCounter : Nat
  sessionId : Option String
  sessionEpoch : Nat
  /-- the task that holds `reinit_lock` -/
  reinitHolder : Option ι
  connected : Bool
  initializeResult : Option InitializeResult
  toolsRefresh : Bool
  paramHeaders : Entries ParamHeaders
  /-- the token of the client -/
  client : Option String
  /-- every request that was sent with its reply, newest first -/
  seen : List (HttpRequest × HttpReply)
  /-- the callers about to send an `initialize` request -/
  opening : List ι

/-- What the environment chooses in one step. One record serves all operations: each of them looks
only at the fields that it needs. -/
structure HttpChoice : Type where
  /-- the reply to a request -/
  reply : HttpReply := .failed false ""
  /-- what the token manager's surroundings choose -/
  oauth : OAuthChoice := {}

namespace HttpWorld

variable {ι : Type} [DecidableEq ι]

/-- What each operation does. Only `reinit_lock` makes a task wait, and the refresh lock of the
token manager. -/
def exec (i : ι) : (β : Type) → HttpOp β → HttpChoice → HttpWorld ι → Option (β × HttpWorld ι)
  | β, .oauth o, e, s =>
    (OAuthWorld.exec i β o e.oauth s.oauth).map fun r => (r.1, { s with oauth := r.2 })
  | _, .nextId, _, s =>
    some (s.requestCounter, { s with requestCounter := (s.requestCounter + 1) % 2 ^ 64 })
  | _, .loadSession, _, s => some (s.sessionId, { s with opening := s.opening.filter (· ≠ i) })
  | _, .storeSession sid, _, s => some ((), { s with sessionId := some sid })
  | _, .takeSession, _, s =>
    some (s.sessionId, { s with sessionId := none, opening := i :: s.opening })
  | _, .restoreSession stale, _, s =>
    some ((), { s with sessionId := s.sessionId <|> stale })
  | _, .loadEpoch, _, s => some (s.sessionEpoch, s)
  | _, .bumpEpoch, _, s =>
    some ((), { s with sessionEpoch := (s.sessionEpoch + 1) % 2 ^ 64 })
  | _, .lockReinit, _, s =>
    match s.reinitHolder with
    | none => some ((), { s with reinitHolder := some i })
    | some _ => none
  | _, .unlockReinit, _, s => some ((), { s with reinitHolder := none })
  | _, .isConnected, _, s => some (s.connected, s)
  | _, .needsHandshake, _, s =>
    if s.connected then some (false, s) else some (true, { s with opening := i :: s.opening })
  | _, .setConnected connected, _, s => some ((), { s with connected := connected })
  | _, .loadInit, _, s => some (s.initializeResult, s)
  | _, .storeInit init, _, s => some ((), { s with initializeResult := some init })
  | _, .setRefresh, _, s => some ((), { s with toolsRefresh := true })
  | _, .takeRefresh, _, s => some (s.toolsRefresh, { s with toolsRefresh := false })
  | _, .loadParamHeaders, _, s => some (s.paramHeaders, s)
  | _, .storeParamHeaders headers, _, s => some ((), { s with paramHeaders := headers })
  | _, .loadClient, _, s => some (s.client, s)
  | _, .storeClient bearer, _, s => some ((), { s with client := bearer })
  | _, .post request, e, s => some (e.reply, { s with seen := (request, e.reply) :: s.seen })

end HttpWorld

/-- The machine of an HTTP backend's callers. -/
def httpMachine (ι : Type) [DecidableEq ι] : Machine HttpOp ι HttpChoice (HttpWorld ι) :=
  ⟨HttpWorld.exec⟩

/-- A history of operations on an HTTP backend. -/
abbrev HttpHistory (ι : Type) : Type 1 := List (Performed HttpOp ι)

/-- A state of a backend with its history. -/
abbrev HttpRun (ι : Type) : Type 1 := Recorded HttpOp ι (HttpWorld ι)

/-- A backend that has just been created with a bearer token, over any state of the token
manager. -/
def HttpWorld.fresh {ι : Type} (oauth : OAuthWorld ι) (bearerToken : Option String) :
    HttpWorld ι where
  oauth := oauth
  requestCounter := 0
  sessionId := none
  sessionEpoch := 0
  reinitHolder := none
  connected := false
  initializeResult := none
  toolsRefresh := false
  paramHeaders := []
  client := clientToken bearerToken
  seen := []
  opening := []

/-! ## The calls -/

/-- A call on an HTTP backend that may run concurrently with others. The hub forwards no
request named `initialize`. -/
inductive HttpCall : Type where
  | connect : HttpCall
  | disconnect : HttpCall
  | listTools : HttpCall
  | callTool (name : String) (arguments : Option Value) : HttpCall
  | request (method : String) (params : Option Value) (forwarded : method ≠ "initialize") : HttpCall
  | healthCheck : HttpCall
  | takeToolsRefresh : HttpCall
  | reinitialize (seenEpoch : Nat) : HttpCall

/-- One call as a task. -/
def HttpCall.run (b : HttpBackend) : HttpCall → Prog HttpOp Unit
  | connect => do
    let _ ← b.connect
    .ret ()
  | disconnect => do
    let _ ← HttpBackend.disconnect
    .ret ()
  | listTools => do
    let _ ← b.listTools
    .ret ()
  | callTool name arguments => do
    let _ ← b.callTool name arguments
    .ret ()
  | request method params _ => do
    let _ ← b.request method params
    .ret ()
  | healthCheck => do
    let _ ← b.healthCheck
    .ret ()
  | takeToolsRefresh => do
    let _ ← .perform .takeRefresh
    .ret ()
  | reinitialize seenEpoch => do
    let _ ← b.reinitialize seenEpoch
    .ret ()

/-- Any number of concurrent calls on a backend. -/
def HttpBackend.pool (b : HttpBackend) {ι : Type} (start : HttpWorld ι) (calls : ι → HttpCall) :
    Pool HttpOp ι (HttpWorld ι) Unit :=
  ⟨start, fun i => (calls i).run b⟩

/-- The same, with a history. -/
def HttpBackend.recordedPool (b : HttpBackend) {ι : Type} (start : HttpWorld ι)
    (calls : ι → HttpCall) : Pool HttpOp ι (HttpRun ι) Unit :=
  ⟨⟨start, []⟩, fun i => (calls i).run b⟩

/-! ## A sample backend -/

/-- The result of its `initialize`. -/
def sampleInit : Value :=
  .object [("protocolVersion", .string "2024-11-05"),
    ("serverInfo", .object [("name", .string "api"), ("version", .string "1")]),
    ("capabilities", .object [])]

/-- The body that carries it. -/
def sampleBody : String :=
  "\x7b\"jsonrpc\":\"2.0\",\"id\":0,\"result\":\x7b\"protocolVersion\":\"2024-11-05\"," ++
  "\"serverInfo\":\x7b\"name\":\"api\",\"version\":\"1\"\x7d,\"capabilities\":\x7b\x7d\x7d\x7d"

/-- `serde_json` on that body, and on an empty one. -/
def sampleSerde : Serde where
  fromSlice text :=
    if text = sampleBody then
      .ok (.object [("jsonrpc", .string "2.0"), ("id", .number (.int 0)), ("result", sampleInit)])
    else .error "EOF while parsing a value at line 1 column 0"
  rejects _ := "invalid type"

/-- A backend without OAuth2. -/
def sampleHttp : HttpBackend where
  id := "api"
  url := "https://api.test/mcp"
  origin := some "https://api.test"
  manager := none
  daemonMode := true
  serde := sampleSerde

/-- A token manager that knows nothing. -/
def OAuthWorld.empty (ι : Type) : OAuthWorld ι where
  refreshHolder := none
  cache := none
  discovered := none
  instant := 0
  store := fun _ => none
  exchanges := []
  browser := []

/-- The sample backend, connected under the session id `s1`. -/
def sessionStart (ι : Type) : HttpWorld ι :=
  { HttpWorld.fresh (.empty ι) none with sessionId := some "s1", connected := true }

/-- A restarted server that knows no session. -/
def HttpChoice.forgotten : HttpChoice := { reply := .response 404 [] (.ok "") }

/-- The sample answers: to an `initialize`, under a session id, and to a notification. -/
def HttpChoice.opened (sid : String) : HttpChoice :=
  { reply := .response 200 [("mcp-session-id", sid)] (.ok sampleBody) }

/-- An error of the server, under the session id of the request. -/
def HttpChoice.echoed (sid : String) : HttpChoice :=
  { reply := .response 500 [("mcp-session-id", sid)] (.ok "") }

def HttpChoice.noted : HttpChoice := { reply := .response 202 [] (.ok "") }

end HeadlessMcp
