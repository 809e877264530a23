import HeadlessMcp.Registry.Registry
import HeadlessMcp.Wire.JsonRpc

/-!
# The MCP session

`McpSession` turns one request of a client into what the registry does for it. It keeps
little state of its own: whether a legacy client has initialized, and who listens for
changes. Each handler is a program over that state and the operations of the registry.

A handler asks the registry for one thing after another, and other requests come in between. So
what a handler has looked up may be out of date when it is used, here as in the source.
-/

namespace HeadlessMcp

open Async

/-- The operations of a session: its own, and those of its registry. -/
inductive SessionOp : Type → Type 1 where
  /-- an operation of the registry -/
  | registry {β : Type} (o : RegistryOp β) : SessionOp β
  /-- read `initialized` -/
  | isInitialized : SessionOp Bool
  /-- set `initialized` -/
  | setInitialized : SessionOp Unit
  /-- tell the listeners that the tool list changed -/
  | notifyToolsListChanged : SessionOp Unit

/-- What a handler has the registry do. -/
def registryDo {α : Type} (p : Prog RegistryOp α) : Prog SessionOp α := p.lift SessionOp.registry

/-! ## Requests -/

/-- The key under which modern requests declare their protocol version. -/
def metaProtocolVersion : String := "io.modelcontextprotocol/protocolVersion"

/-- `request_protocol_version`. -/
def requestProtocolVersion (params : Option Value) : Option String := do
  (← (← (← params).get "_meta").get metaProtocolVersion).asStr

/-- Per-request protocol context. It is what tells a modern request from a legacy one, for this
request alone. -/
structure RequestCtx : Type where
  /-- the declared version of a modern request -/
  modern : Option String

/-- `from_params`. -/
def RequestCtx.fromParams (params : Option Value) : RequestCtx := ⟨requestProtocolVersion params⟩

/-- `is_modern`. -/
def RequestCtx.isModern (ctx : RequestCtx) : Bool := ctx.modern.isSome

/-- The params of a `tools/call`. -/
structure ToolCallParams : Type where
  name : String
  arguments : Option Value
  /-- `_meta` -/
  requestMeta : Option Value
  requestState : Option String
  inputResponses : Option Value

/-- `serde_json::from_value::<ToolCallParams>`. -/
def Value.toToolCallParams (v : Value) : Option ToolCallParams := do
  let name ← (← v.get "name").asStr
  let requestState ← v.optString "requestState"
  return ⟨name, v.optField "arguments", v.optField "_meta", requestState,
    v.optField "inputResponses"⟩

/-- The outcome that the audit log records. It is computed next to the reply, and not from it. -/
inductive AuditOutcome : Type where
  | ok
  | error (code : Int)
  deriving DecidableEq

/-- `AuditOutcome::from_result`. -/
def AuditOutcome.fromResult {α : Type} : Except JsonRpcError α → AuditOutcome
  | .ok _ => .ok
  | .error err => .error err.code

/-- What a handler yields: the result, and for the audit log the tool and the outcome. -/
structure Handled : Type where
  result : Except JsonRpcError Value
  toolName : Option String
  outcome : AuditOutcome

/-- A failed request. -/
def Handled.ofError (err : JsonRpcError) : Handled := ⟨.error err, none, .error err.code⟩

/-- Timeout for `tools/call` routed to a backend. -/
def defaultCallTimeoutSecs : Nat := 30

/-- Timeout for forwarded requests. -/
def forwardTimeoutSecs : Nat := 15

/-- `tool_result`: a `CallToolResult` is passed through, anything else is wrapped.
`prettyText` is the text of a value, with line breaks. -/
def toolResult (prettyText : Value → String) (v : Value) : Value :=
  if ((v.get "content").any fun c => c.asArray.isSome) ||
      (v.get "resultType").bind Value.asStr = some "input_required" then v
  else .object [("content", .array [.object [("type", .string "text"),
      ("text", .string (prettyText v))]]),
    ("isError", .bool false), ("structuredContent", v)]

/-- `make_error_result`. -/
def makeErrorResult (message : String) : Value :=
  .object [("content", .array [.object [("type", .string "text"), ("text", .string message)]]),
    ("isError", .bool true)]

/-- A result says that the tool failed. -/
def Value.isError (v : Value) : Bool :=
  match v.get "isError" with
  | some (.bool b) => b
  | _ => false

namespace Session

/-- `require_initialized`: legacy requests need `initialize` first. A modern request declares its
version itself, and needs nothing. -/
def requireInitialized (ctx : RequestCtx) : Prog SessionOp (Except JsonRpcError Unit) :=
  if ctx.isModern then .ret (.ok ())
  else do
    if ← .perform .isInitialized then .ret (.ok ())
    else .ret (.error (.invalidRequest
      "session is not initialized; call \"initialize\" first"))

/-! ## Tool calls -/

/-- A backend that has no such tool indexed and is unhealthy is reconnected. This is where a lazy
backend is first connected, when the name leads to it. -/
def reconnectOnCall (toolName : String) : Option String → Prog SessionOp Unit
  | none => .ret ()
  | some id => do
    if ← registryDo (Registry.hasTool toolName) then .ret ()
    else if ← registryDo (Registry.isHealthy id) then .ret ()
    else
      match ← registryDo (Registry.reconnectBackend id) with
      | .ok () => .perform .notifyToolsListChanged
      | .error _ => .ret ()

/-- The backend takes the metadata of requests. -/
def forwardsMeta : Option String → Prog SessionOp Bool
  | none => .ret false
  | some id => registryDo (Registry.forwardsRequestMeta id)

/-- The metadata of a modern request that goes along with a call. It goes to those backends only
that ask for it. -/
def extraParams (params : ToolCallParams) : Map :=
  [("_meta", params.requestMeta), ("requestState", params.requestState.map .string),
    ("inputResponses", params.inputResponses)].foldl
      (fun extra field => match field.2 with
        | some v => Entries.insert field.1 v extra
        | none => extra) []

/-- The hint of an unreachable backend. Only a backend that could not be reached has one, and one
that did not answer in time. -/
def hintFor (err : BackendError) : Option String → Prog SessionOp (Option String)
  | none => .ret none
  | some id =>
    if err.kind = .connection ∨ err.kind = .timeout then
      registryDo (Registry.unavailableHint id)
    else .ret none

/-- `handle_tools_call`, for params that `serde` has read. -/
def callTool (prettyText : Value → String) (params : ToolCallParams) (ctx : RequestCtx) :
    Prog SessionOp Handled := do
  let backend ← registryDo (Registry.backendOfTool params.name)
  reconnectOnCall params.name backend
  let extra := if ctx.isModern && (← forwardsMeta backend) then extraParams params else []
  match ← registryDo (Registry.routeCallWith params.name params.arguments extra
      defaultCallTimeoutSecs) with
  | .ok v => .ret ⟨.ok (toolResult prettyText v), some params.name,
      if v.isError then .error JsonRpcError.internalErrorCode else .ok⟩
  | .error err =>
    let hint ← hintFor err backend
    let message := match hint with
      | some hint => err.message ++ "\n" ++ hint
      | none => err.message
    .ret ⟨.ok (makeErrorResult message), some params.name,
      .error JsonRpcError.internalErrorCode⟩

/-- `handle_tools_call`; `serdeText` is the text for params that `serde` rejects. -/
def handleToolsCall (prettyText serdeText : Value → String) (params : Option Value)
    (ctx : RequestCtx) : Prog SessionOp Handled := do
  match ← requireInitialized ctx with
  | .error err => .ret (.ofError err)
  | .ok () =>
    match params with
    | none => .ret (.ofError (.invalidParams "\"tools/call\" requires params"))
    | some v =>
      match v.toToolCallParams with
      | none => .ret (.ofError
          (.invalidParams s!"invalid \"tools/call\" params: {serdeText v}"))
      | some params => callTool prettyText params ctx

/-! ## Events -/

/-- `exposed_event_name`. -/
def exposedEventName (backend name : String) : Prog SessionOp String := do
  .ret (computeExposedName (← registryDo (Registry.toolNamespace backend)) name)

/-- The events of one backend, under their exposed names. -/
def exposeEvents (backend : String) : List Value → Prog SessionOp (List Value)
  | [] => .ret []
  | event :: events => do
    match (event.get "name").bind Value.asStr with
    | some name =>
      let exposed ← exposedEventName backend name
      let rest ← exposeEvents backend events
      .ret (event.setField "name" (.string exposed) :: rest)
    | none =>
      let rest ← exposeEvents backend events
      .ret (event :: rest)

/-- The events of one backend after another. A backend that fails is left out, and the list is
what the others have. -/
def listEvents : List String → Prog SessionOp (List Value)
  | [] => .ret []
  | id :: ids => do
    match ← registryDo (Registry.backendRequest id "events/list" none forwardTimeoutSecs) with
    | .ok result =>
      let events ← exposeEvents id (((result.get "events").bind Value.asArray).getD [])
      let rest ← listEvents ids
      .ret (events ++ rest)
    | .error _ => listEvents ids

/-- `handle_events_list`. -/
def handleEventsList (ctx : RequestCtx) : Prog SessionOp (Except JsonRpcError Value) := do
  match ← requireInitialized ctx with
  | .error err => .ret (.error err)
  | .ok () =>
    let ids ← registryDo (Registry.backendsWith "events")
    let all ← listEvents ids
    .ret (.ok (.object [("events", .array all)]))

/-- The first backend that an event name can belong to, with the name there. -/
def findOwner (name : String) : List String → Prog SessionOp (Option (String × String))
  | [] => .ret none
  | id :: ids => do
    match downstreamOf (← registryDo (Registry.toolNamespace id)) name with
    | some original => .ret (some (id, original))
    | none => findOwner name ids

/-- `forward_event_request`: `events/subscribe` and `events/unsubscribe`. A backend without a
namespace gets the name as it is, and any other one gets it without its namespace. -/
def forwardEventRequest (method : String) (params : Option Value) (ctx : RequestCtx) :
    Prog SessionOp (Except JsonRpcError Value) := do
  match ← requireInitialized ctx with
  | .error err => .ret (.error err)
  | .ok () =>
    match params with
    | none => .ret (.error (.invalidParams "missing params"))
    | some params =>
      match (params.get "name").bind Value.asStr with
      | none => .ret (.error (.invalidParams "'name' is required"))
      | some name =>
        let ids ← registryDo (Registry.backendsWith "events")
        match ← findOwner name ids with
        | none => .ret (.error (.invalidParams s!"unknown event '{name}'"))
        | some (backend, original) =>
          match ← registryDo (Registry.backendRequest backend method
              (some (params.setField "name" (.string original))) forwardTimeoutSecs) with
          | .ok v => .ret (.ok v)
          | .error e => .ret (.error (.internalError e.message))

end Session

end HeadlessMcp
