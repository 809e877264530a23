import HeadlessMcp.Session.Listen
import HeadlessMcp.Session.World

/-!
# Dispatch

`McpSession` as a whole: `handle` and `handle_streaming` take one message of a client, find the
handler of its method, record the outcome, and answer. Besides the state of `Session` there is the
owner of each resource, from the last `resources/list`, and there are the streams that have been
opened.

Every request is answered, and recorded in the audit log before that, but for a
`subscriptions/listen` that `handle_streaming` answers with a stream.
-/

namespace HeadlessMcp

open Async

/-- `AuditEvent`. It names the method and the tool, and says how the request ended. -/
structure AuditEvent : Type where
  method : String
  toolName : Option String
  outcome : AuditOutcome

/-- The operations of the whole session. They are those of the inner session, and what the
dispatcher does besides. -/
inductive DispatchOp : Type → Type 1 where
  | session {β : Type} (o : SessionOp β) : DispatchOp β
  /-- look up the owner of a resource -/
  | resourceOwner (uri : String) : DispatchOp (Option String)
  /-- replace the owners -/
  | setResourceOwners (owners : Entries String) : DispatchOp Unit
  /-- write to the audit log -/
  | record (event : AuditEvent) : DispatchOp Unit
  /-- subscribe to the changes, and spawn the task of a stream: the number of the stream -/
  | openStream (stream : ListenStream) : DispatchOp Nat

/-- What a handler has the rest of the session do. -/
def sessionDo {α : Type} (p : Prog SessionOp α) : Prog DispatchOp α := p.lift .session

/-- What a handler has the registry do. -/
def hubDo {α : Type} (p : Prog RegistryOp α) : Prog DispatchOp α := sessionDo (registryDo p)

/-! ## Results -/

/-- `simple`: a result without a tool. -/
def Handled.simple (result : Except JsonRpcError Value) : Handled :=
  ⟨result, none, .fromResult result⟩

/-- `mark_complete`. A value that is no object stays as it is. -/
def markComplete : Value → Value
  | .object obj =>
    .object (if Entries.containsKey obj "resultType" then obj
      else Entries.insert "resultType" (.string "complete") obj)
  | v => v

/-- `LIST_TTL_MS`. -/
def listTtlMs : Nat := 60000

/-- `cache_ttl_ms`. A method that has none is not cacheable. -/
def cacheTtlMs (method : String) : Option Nat :=
  if method ∈ ["server/discover", "tools/list", "resources/list", "resources/templates/list",
      "prompts/list"] then some listTtlMs
  else if method = "resources/read" then some 0
  else none

/-- `mark_cacheable`. An incomplete result is never marked. -/
def markCacheable (method : String) (v : Value) : Value :=
  match cacheTtlMs method, v with
  | some ttlMs, .object obj =>
    if (Entries.get obj "resultType").bind Value.asStr = some "complete" then
      let obj : Map := if (Entries.get obj "ttlMs").any (·.asU64.isSome) then obj
        else Entries.insert "ttlMs" (.number (.int ttlMs)) obj
      .object (Entries.insert "cacheScope" (.string "private") obj)
    else v
  | _, _ => v

/-- What is added to the result of a modern request. A legacy client gets the result as the
handler made it. -/
def Handled.modernized (method : String) (h : Handled) : Handled :=
  { h with result := h.result.map fun v => markCacheable method (markComplete v) }

/-- `Serialize` for a tool. -/
def ToolDescriptor.toValue (t : ToolDescriptor) : Value :=
  .object [("name", .string t.name), ("description", .string t.description),
    ("inputSchema", t.inputSchema)]

namespace Session

/-! ## Handlers -/

/-- `META_SERVER_INFO`. -/
def metaServerInfo : String := "io.modelcontextprotocol/serverInfo"

/-- `LEGACY_PROTOCOL_VERSION`. -/
def legacyProtocolVersion : String := "2025-06-18"

/-- The name and the version of the server. -/
def serverInfo : Value :=
  .object [("name", .string "headless-mcp"), ("version", .string "0.0.16")]

/-- `capabilities`. -/
def capabilities : Prog DispatchOp Value := do
  let caps : Map := [("tools", .object [("listChanged", .bool true)])]
  let caps := if (← hubDo (Registry.backendsWith "resources")) = [] then caps
    else Entries.insert "resources" (.object [("subscribe", .bool false),
      ("listChanged", .bool false)]) caps
  let caps := if (← hubDo (Registry.backendsWith "events")) = [] then caps
    else Entries.insert "events" (.object []) caps
  .ret (.object caps)

/-- `handle_discover`. -/
def handleDiscover : Prog DispatchOp Value := do
  let caps ← capabilities
  .ret (.object [("supportedVersions", .array (modernProtocolVersions.map .string)),
    ("capabilities", caps), ("_meta", .object [(metaServerInfo, serverInfo)])])

/-- `handle_initialize`. -/
def handleInitialize : Prog DispatchOp (Except JsonRpcError Value) := do
  .perform (.session .setInitialized)
  let caps ← capabilities
  .ret (.ok (.object [("protocolVersion", .string legacyProtocolVersion),
    ("serverInfo", serverInfo), ("capabilities", caps)]))

/-- `handle_tools_list`. -/
def handleToolsList (ctx : RequestCtx) : Prog DispatchOp (Except JsonRpcError Value) := do
  match ← sessionDo (requireInitialized ctx) with
  | .error err => .ret (.error err)
  | .ok () =>
    let tools ← hubDo Registry.aggregatedTools
    .ret (.ok (.object [("tools", .array (tools.map (·.toValue)))]))

/-! ### Resources -/

/-- The resources of a listing that have a `uri`, with it. -/
def resourcesOf (result : Value) : List (String × Value) :=
  (((result.get "resources").bind Value.asArray).getD []).filterMap fun resource =>
    ((resource.get "uri").bind Value.asStr).map fun uri => (uri, resource)

/-- A backend owns what nobody owned before. So the first backend of a uri stays its owner. -/
def claimResources (id : String) (owners : Entries String) (resources : List (String × Value)) :
    Entries String :=
  resources.foldl (fun owners r =>
    if owners.containsKey r.1 then owners else owners.insert r.1 id) owners

/-- The resources of one backend after another, and their owners. A backend that fails is left
out. -/
def listResources : List String → Entries String → Prog DispatchOp (List Value × Entries String)
  | [], owners => .ret ([], owners)
  | id :: ids, owners => do
    match ← hubDo (Registry.backendRequest id "resources/list" none forwardTimeoutSecs) with
    | .ok result =>
      let resources := resourcesOf result
      let (rest, owners) ← listResources ids (claimResources id owners resources)
      .ret (resources.map Prod.snd ++ rest, owners)
    | .error _ => listResources ids owners

/-- `handle_resources_list`. -/
def handleResourcesList (ctx : RequestCtx) : Prog DispatchOp (Except JsonRpcError Value) := do
  match ← sessionDo (requireInitialized ctx) with
  | .error err => .ret (.error err)
  | .ok () =>
    let ids ← hubDo (Registry.backendsWith "resources")
    let (all, owners) ← listResources ids []
    .perform (.setResourceOwners owners)
    .ret (.ok (.object [("resources", .array all)]))

/-- Read a resource from its owner. Without an owner the uri is unknown, whether or not a backend
has it. -/
def readFrom (uri : String) : Option String → Prog DispatchOp (Except JsonRpcError Value)
  | none => .ret (.error (.invalidParams s!"resource not found: {uri}"))
  | some owner => do
    match ← hubDo (Registry.backendRequest owner "resources/read"
        (some (.object [("uri", .string uri)])) forwardTimeoutSecs) with
    | .ok v => .ret (.ok v)
    | .error e => .ret (.error (.internalError e.message))

/-- `handle_resources_read`: a resource without a known owner is looked for in a new list. -/
def handleResourcesRead (params : Option Value) (ctx : RequestCtx) :
    Prog DispatchOp (Except JsonRpcError Value) := do
  match ← sessionDo (requireInitialized ctx) with
  | .error err => .ret (.error err)
  | .ok () =>
    match (params.bind (·.get "uri")).bind Value.asStr with
    | none => .ret (.error (.invalidParams "resources/read requires 'uri'"))
    | some uri =>
      match ← .perform (.resourceOwner uri) with
      | some owner => readFrom uri (some owner)
      | none =>
        match ← handleResourcesList ctx with
        | .error err => .ret (.error err)
        | .ok _ =>
          let owner ← .perform (.resourceOwner uri)
          readFrom uri owner

/-! ## Dispatch -/

/-- A handler whose result is all that is recorded. -/
def simple (p : Prog DispatchOp (Except JsonRpcError Value)) : Prog DispatchOp Handled := do
  .ret (.simple (← p))

/-- The handler of a method. The check of `initialized` is left to each of them. -/
def handlerOf (prettyText serdeText : Value → String) (method : String) (params : Option Value)
    (ctx : RequestCtx) : Prog DispatchOp Handled :=
  if method = "server/discover" then simple do .ret (.ok (← handleDiscover))
  else if method = "initialize" ∧ ctx.isModern = false then simple handleInitialize
  else if method = "tools/list" then simple (handleToolsList ctx)
  else if method = "tools/call" then sessionDo (handleToolsCall prettyText serdeText params ctx)
  else if method = "resources/list" then simple (handleResourcesList ctx)
  else if method = "resources/read" then simple (handleResourcesRead params ctx)
  else if method = "events/list" then simple (sessionDo (handleEventsList ctx))
  else if method = "events/subscribe" ∨ method = "events/unsubscribe" then
    simple (sessionDo (forwardEventRequest method params ctx))
  else if method = "subscriptions/listen" then
    .ret (.simple (.error (.invalidRequest "subscriptions/listen needs a streaming transport")))
  else .ret (.simple (.error (.methodNotFound s!"unknown method: {method}")))

/-- `dispatch_request`. -/
def dispatchRequest (prettyText serdeText : Value → String) (method : String)
    (params : Option Value) : Prog DispatchOp Handled :=
  let ctx := RequestCtx.fromParams params
  match ctx.checkVersion with
  | .error err => .ret (.ofError err)
  | .ok () => do
    let handled ← handlerOf prettyText serdeText method params ctx
    .ret (if ctx.isModern then handled.modernized method else handled)

/-- `handle_request`. -/
def handleRequest (prettyText serdeText : Value → String) (requestId : JsonRpcId) (method : String)
    (params : Option Value) : Prog DispatchOp JsonRpcMessage := do
  let handled ← dispatchRequest prettyText serdeText method params
  .perform (.record ⟨method, handled.toolName, handled.outcome⟩)
  match handled.result with
  | .ok v => .ret (.success requestId v)
  | .error err => .ret (.error (some requestId) err)

/-- `handle`: notifications and responses change nothing. Nothing is sent in answer to them
either. -/
def handle (prettyText serdeText : Value → String) :
    JsonRpcMessage → Prog DispatchOp (Option JsonRpcMessage)
  | .request requestId method params => do
    .ret (some (← handleRequest prettyText serdeText requestId method params))
  | .notification _ _ | .success _ _ | .error _ _ => .ret none

end Session

/-- `SessionReply`. -/
inductive SessionReply : Type where
  | message (m : JsonRpcMessage) : SessionReply
  /-- the stream with this number -/
  | stream (requestId : JsonRpcId) (number : Nat) : SessionReply

/-- `handle_streaming`: `subscriptions/listen` opens a stream. -/
def Session.handleStreaming (prettyText serdeText : Value → String) :
    JsonRpcMessage → Prog DispatchOp (Option SessionReply)
  | .request requestId method params =>
    if method = "subscriptions/listen" then
      match Session.listen requestId params (.fromParams params) 0 with
      | .error err => .ret (some (.message (.error (some requestId) err)))
      | .ok stream => do
        .ret (some (.stream requestId (← .perform (.openStream stream))))
    else do
      .ret (some (.message (← Session.handleRequest prettyText serdeText requestId method params)))
  | .notification _ _ | .success _ _ | .error _ _ => .ret none

/-! ## The world -/

/-- The state of the whole session. It has the streams that were opened, the owners of the
resources and the audit log next to the inner session. -/
structure DispatchWorld (ι : Type) : Type where
  session : SessionWorld ι
  resourceOwners : Entries String
  /-- newest first -/
  audit : List AuditEvent
  /-- the streams, in the order in which they were opened -/
  streams : List ListenStream

namespace DispatchWorld

variable {ι : Type}

/-- What each operation does. A new stream starts after the changes that have been sent. -/
def exec (i : ι) : (β : Type) → DispatchOp β → RegistryChoice → DispatchWorld ι →
    Option (β × DispatchWorld ι)
  | β, .session o, e, s =>
    (SessionWorld.exec i β o e s.session).map fun r => (r.1, { s with session := r.2 })
  | _, .resourceOwner uri, _, s => some (s.resourceOwners.get uri, s)
  | _, .setResourceOwners owners, _, s => some ((), { s with resourceOwners := owners })
  | _, .record event, _, s => some ((), { s with audit := event :: s.audit })
  | _, .openStream stream, _, s => some (s.streams.length,
      { s with streams := s.streams ++ [{ stream with next := s.session.notified }] })

end DispatchWorld

/-- The machine of the messages that a session handles. -/
def dispatchMachine (ι : Type) : Machine DispatchOp ι RegistryChoice (DispatchWorld ι) :=
  ⟨DispatchWorld.exec⟩

variable {ι : Type}

/-- The session proper is a part of it. -/
theorem session_onPart : (sessionMachine ι).OnPart (dispatchMachine ι) DispatchOp.session
    DispatchWorld.session fun t s => { s with session := t } where
  exec _ _ _ _ _ := rfl
  get_put _ _ := rfl
  put_put _ _ _ := rfl
  put_get _ := rfl

/-- What the session does for a handler is what it does alone. -/
theorem wp_sessionDo {i : ι} {α : Type} {p : Prog SessionOp α}
    {Q : Outcome α → DispatchWorld ι → Prop} {s : DispatchWorld ι} :
    (dispatchMachine ι).wp i (sessionDo p) Q s ↔
      (sessionMachine ι).wp i p (fun x t => Q x { s with session := t }) s.session :=
  Machine.wp_lift _ session_onPart

/-- What the registry does for a handler is what it does alone. -/
theorem wp_hubDo {i : ι} {α : Type} {p : Prog RegistryOp α}
    {Q : Outcome α → DispatchWorld ι → Prop} {s : DispatchWorld ι} :
    (dispatchMachine ι).wp i (hubDo p) Q s ↔
      (registryMachine ι).wp i p
        (fun x t => Q x { s with session := { s.session with registry := t } })
        s.session.registry := by
  rw [hubDo, wp_sessionDo, wp_registryDo]

end HeadlessMcp
