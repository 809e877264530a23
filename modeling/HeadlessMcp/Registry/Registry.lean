import HeadlessMcp.Async.Prog
import HeadlessMcp.Core.Backend
import HeadlessMcp.Registry.Policy
import Mathlib

/-!
# The backend registry

`BackendRegistry` aggregates the tools of its backends, routes calls and keeps the
connections alive. Its state is a map of backends and a tool index, each behind a lock
that is held across no await but the last one of `unregister`, which only keeps the others
waiting for longer. So every critical section is one atomic operation (`RegistryOp`), and
each method is a program over them and the methods of the backends.

A backend is an object behind an `Arc`; the number of an object stands for its
identity. Where the source iterates over a hash map, `entries` gives the order.
-/

namespace HeadlessMcp

open Async

/-- A registered backend. Besides the definition and the object it has what the last connection
and the health checks have found. -/
structure BackendHandle : Type where
  definition : BackendDef
  /-- the identity of the backend object -/
  object : Nat
  health : Bool
  /-- capabilities from the last successful `initialize` -/
  capabilities : Option ServerCapabilities
  /-- the reconnect attempt count (for backoff) -/
  reconnectAttempts : Nat

/-- A tool in the index. It knows the backend to ask, the name to ask for, and what the clients
are told. -/
structure RoutedTool : Type where
  backendId : String
  exposedName : String
  downstreamName : String
  descriptor : ToolDescriptor

/-- The atomic operations of the registry. All but `sleep` and `backend` are one critical section,
of the map of backends, of the index or of both. -/
inductive RegistryOp : Type → Type 1 where
  /-- look a backend up -/
  | lookup (id : String) : RegistryOp (Option BackendHandle)
  /-- iterate over the backends -/
  | entries : RegistryOp (Entries BackendHandle)
  /-- add a backend, unless its id is taken -/
  | insertBackend (handle : BackendHandle) : RegistryOp Bool
  /-- remove a backend -/
  | removeBackend (id : String) : RegistryOp (Option BackendHandle)
  /-- store the capabilities of a backend -/
  | setCapabilities (id : String) (capabilities : ServerCapabilities) : RegistryOp Unit
  /-- store the health of a backend -/
  | setHealth (id : String) (healthy : Bool) : RegistryOp Unit
  /-- count a reconnect attempt: the new count, 0 for an unknown backend -/
  | countAttempt (id : String) : RegistryOp Nat
  /-- replace the tools of a backend in the index and mark it healthy; the index is
  locked throughout -/
  | reindex (id : String) (toolNamespace : Option String) (hidden : List String)
      (tools : List ToolDescriptor) : RegistryOp (BackendResult Unit)
  /-- drop the tools of a backend from the index -/
  | dropTools (id : String) : RegistryOp Unit
  /-- clear the index -/
  | clearIndex : RegistryOp Unit
  /-- look a tool up -/
  | lookupTool (exposedName : String) : RegistryOp (Option RoutedTool)
  /-- look a tool and its backend up, under both locks -/
  | resolve (exposedName : String) : RegistryOp (Option (RoutedTool × Option BackendHandle))
  /-- iterate over the index and look the tools' backends up, under both locks -/
  | resolveAll : RegistryOp (List (RoutedTool × Option BackendHandle))
  /-- `tokio::time::sleep` -/
  | sleep (milliseconds : Nat) : RegistryOp Unit
  /-- call a method of a backend object -/
  | backend {β : Type} (object : Nat) (method : McpOp β) : RegistryOp β

/-- A `BackendError` of kind `Internal`. -/
def internalError (message : String) : BackendError := ⟨.internal, message⟩

/-- Index the tools of a backend one by one, up to the first name that is taken. -/
def indexTools (id : String) (toolNamespace : Option String) (hidden : List String) :
    List ToolDescriptor → Entries RoutedTool → BackendResult Unit × Entries RoutedTool
  | [], index => (.ok (), index)
  | tool :: tools, index =>
    let exposedName := computeExposedName toolNamespace tool.name
    match index.get exposedName with
    | some existing => (.error (internalError
        (s!"tool name collision: both backend '{existing.backendId}' and backend '{id}' " ++
          s!"expose '{exposedName}'. Add a namespace.")), index)
    | none => indexTools id toolNamespace hidden tools (index.insert exposedName
        ⟨id, exposedName, tool.name,
          ⟨exposedName, tool.description, stripSchemaArgs tool.inputSchema hidden⟩⟩)

/-- What `connect_backend` does under the index lock, up to marking the backend
healthy: drop its old tools, index the new ones. -/
def reindexTools (id : String) (toolNamespace : Option String) (hidden : List String)
    (tools : List ToolDescriptor) (index : Entries RoutedTool) :
    BackendResult Unit × Entries RoutedTool :=
  indexTools id toolNamespace hidden tools (index.retain (·.backendId ≠ id))

/-- A backend advertises a capability. It has done so with its last successful `initialize`. -/
def ServerCapabilities.has (c : ServerCapabilities) (capability : String) : Bool :=
  match capability with
  | "resources" => c.resources.isSome
  | "events" => c.events.isSome
  | "tools" => c.tools.isSome
  | _ => false

/-- The reconnect delay before an attempt, in `u64` arithmetic. It doubles with every attempt and
is at most a minute; the product wraps, as it does in a release build. -/
def reconnectDelay (attempt : Nat) : Nat :=
  min ((1000 * (2 ^ (attempt - 1) % 2 ^ 64)) % 2 ^ 64) 60000

namespace Registry

/-! ## Registration -/

/-- `register`. -/
def register (definition : BackendDef) (object : Nat) : Prog RegistryOp (BackendResult Unit) := do
  if ← .perform (.insertBackend ⟨definition, object, false, none, 0⟩) then .ret (.ok ())
  else .ret (.error (internalError s!"backend '{definition.id}' is already registered"))

/-- `unregister`. Its tools are dropped before it is disconnected, so no new call is routed to it
meanwhile. -/
def unregister (id : String) : Prog RegistryOp (BackendResult Unit) := do
  match ← .perform (.removeBackend id) with
  | none => .ret (.error (internalError s!"backend '{id}' is not registered"))
  | some handle =>
    .perform (.dropTools id)
    .perform (.backend handle.object .disconnect)

/-! ## Connecting -/

/-- `connect_backend`: the handshake, the listing, and the tools into the index. -/
def connectBackend (id : String) : Prog RegistryOp (BackendResult Unit) := do
  match ← .perform (.lookup id) with
  | none => .ret (.error (internalError s!"backend '{id}' is not registered"))
  | some handle =>
    match ← .perform (.backend handle.object .connect) with
    | .error e => .ret (.error e)
    | .ok init =>
      .perform (.setCapabilities id init.capabilities)
      match ← .perform (.backend handle.object .listTools) with
      | .error e => .ret (.error e)
      | .ok tools =>
        let definition := handle.definition
        .perform (.reindex id definition.toolNamespace (hiddenArgs definition)
          (filterTools definition.toolsAllow definition.toolsDeny tools))

/-- Connect one backend after another. Each has its own result, and none of them keeps the next
from being connected. -/
def connectEach : List String → Prog RegistryOp (List (String × BackendResult Unit))
  | [] => .ret []
  | id :: ids => do
    let result ← connectBackend id
    let results ← connectEach ids
    .ret ((id, result) :: results)

/-- `connect_all`: connect the eager backends. A failure of one of them is reported with the
others and does not stop them. -/
def connectAll : Prog RegistryOp (List (String × BackendResult Unit)) := do
  let backends ← .perform .entries
  connectEach ((backends.filter (·.2.definition.connectionMode = .eager)).map Prod.fst)

/-- `reconnect_backend`: disconnect, then connect anew. A failure to disconnect is ignored. -/
def reconnectBackend (id : String) : Prog RegistryOp (BackendResult Unit) := do
  match ← .perform (.lookup id) with
  | some handle => do
    let _ ← .perform (.backend handle.object .disconnect)
    connectBackend id
  | none => connectBackend id

/-- `refresh_tools`: clear the index and re-list every healthy backend. A backend that cannot be
listed then has no tools until it is listed again. -/
def refreshTools : Prog RegistryOp (BackendResult Unit) := do
  let backends ← .perform .entries
  let ids := (backends.filter (·.2.health)).map Prod.fst
  .perform .clearIndex
  let _ ← connectEach ids
  .ret (.ok ())

/-! ## Health checks -/

/-- One backend of a round of health checks. A backend that is not healthy is connected anew,
after a delay that depends on the attempts so far. -/
def checkBackend (id : String) : Prog RegistryOp Unit := do
  let handle ← .perform (.lookup id)
  if handle.any (·.health) then
    match ← .perform (.lookup id) with
    | none => .ret ()
    | some handle =>
      match ← .perform (.backend handle.object .healthCheck) with
      | .ok () =>
        if ← .perform (.backend handle.object .takeToolsRefresh) then
          let _ ← connectBackend id
          .ret ()
        else .ret ()
      | .error _ => .perform (.setHealth id false)
  else
    let attempt ← .perform (.countAttempt id)
    .perform (.sleep (reconnectDelay attempt))
    let _ ← connectBackend id
    .ret ()

/-- Check one backend after another. -/
def checkEach : List String → Prog RegistryOp Unit
  | [] => .ret ()
  | id :: ids => do
    checkBackend id
    checkEach ids

/-- `run_health_checks`: per-call backends are stateless and not checked. -/
def runHealthChecks : Prog RegistryOp Unit := do
  let backends ← .perform .entries
  checkEach ((backends.filter (·.2.definition.connectionMode ≠ .perCall)).map Prod.fst)

/-! ## Routing -/

/-- The `tools/call` that is sent to a backend: with extra params it goes out as a
plain request. -/
def forwardCall (downstreamName : String) (args : Option Value) (extra : Map)
    (timeoutSecs : Nat) : McpOp (BackendResult Value) :=
  if extra = [] then .callTool downstreamName args timeoutSecs
  else .request "tools/call" (some (.object ((extra.insert "name" (.string downstreamName)).insert
    "arguments" (wireArguments args)))) timeoutSecs

/-- A lazy backend is connected on its first call. -/
def connectOnFirstCall (id : String) (mode : ConnectionMode) :
    Prog RegistryOp (BackendResult Unit) :=
  if mode = .lazy then do
    if (← .perform (.lookup id)).any (·.health) then .ret (.ok ())
    else connectBackend id
  else .ret (.ok ())

/-- `route_call_with`: resolve the tool, apply the argument policy, connect as the mode
says, and forward the call. -/
def routeCallWith (exposedName : String) (args : Option Value) (extra : Map)
    (timeoutSecs : Nat) : Prog RegistryOp (BackendResult Value) := do
  match ← .perform (.resolve exposedName) with
  | none => .ret (.error (internalError s!"no such tool: {exposedName}"))
  | some (routed, none) => .ret (.error (internalError
      (s!"backend '{routed.backendId}' for tool '{exposedName}' " ++ "is no longer registered")))
  | some (routed, some handle) =>
    let mode := handle.definition.connectionMode
    match applyArgPolicy handle.definition args with
    | .error e => .ret (.error e)
    | .ok args =>
      let call := forwardCall routed.downstreamName args extra timeoutSecs
      match ← connectOnFirstCall routed.backendId mode with
      | .error e => .ret (.error e)
      | .ok () =>
        if mode = .perCall then
          match ← .perform (.backend handle.object .connect) with
          | .error e => .ret (.error e)
          | .ok _ =>
            let result ← .perform (.backend handle.object call)
            match ← .perform (.backend handle.object .disconnect) with
            | .error e => .ret (.error e)
            | .ok () => .ret result
        else .perform (.backend handle.object call)

/-- `route_call`. -/
def routeCall (exposedName : String) (args : Option Value) (timeoutSecs : Nat) :
    Prog RegistryOp (BackendResult Value) :=
  routeCallWith exposedName args [] timeoutSecs

/-- `backend_request`: any request to one backend. Neither the index nor the argument policy has a
say in it. -/
def backendRequest (id method : String) (params : Option Value) (timeoutSecs : Nat) :
    Prog RegistryOp (BackendResult Value) := do
  match ← .perform (.lookup id) with
  | none => .ret (.error (internalError s!"unknown backend '{id}'"))
  | some handle => .perform (.backend handle.object (.request method params timeoutSecs))

/-! ## Queries -/

/-- `aggregated_tools`: the tools of healthy backends, by name. A tool whose backend is not
healthy stays in the index and is left out here. -/
def aggregatedTools : Prog RegistryOp (List ToolDescriptor) := do
  let tools ← .perform .resolveAll
  .ret (((tools.filter (·.2.any (·.health))).map (·.1.descriptor)).insertionSort
    (fun a b => a.name ≤ b.name))

/-- `has_tool`. -/
def hasTool (exposedName : String) : Prog RegistryOp Bool := do
  .ret (← .perform (.lookupTool exposedName)).isSome

/-- A name starts with a namespace and a dot. -/
def inNamespace (exposedName : String) (toolNamespace : Option String) : Bool :=
  toolNamespace.any fun ns => (stripPrefix s!"{ns}." exposedName).isSome

/-- `backend_of_tool`: the backend of an indexed tool, else a backend whose namespace
the name starts with. -/
def backendOfTool (exposedName : String) : Prog RegistryOp (Option String) := do
  match ← .perform (.lookupTool exposedName) with
  | some routed => .ret (some routed.backendId)
  | none =>
    let backends ← .perform .entries
    .ret ((backends.find? fun b =>
      inNamespace exposedName b.2.definition.toolNamespace).map Prod.fst)

/-- `is_healthy`. -/
def isHealthy (id : String) : Prog RegistryOp Bool := do
  .ret ((← .perform (.lookup id)).any (·.health))

/-- `unavailable_hint`. -/
def unavailableHint (id : String) : Prog RegistryOp (Option String) := do
  .ret ((← .perform (.lookup id)).bind (·.definition.unavailableHint))

/-- `forwards_request_meta`. -/
def forwardsRequestMeta (id : String) : Prog RegistryOp Bool := do
  .ret ((← .perform (.lookup id)).any (·.definition.forwardRequestMeta))

/-- `namespace`. -/
def toolNamespace (id : String) : Prog RegistryOp (Option String) := do
  .ret ((← .perform (.lookup id)).bind (·.definition.toolNamespace))

/-- The healthy backends that advertise a capability, sorted by id. The order makes the answers
that the session puts together from several backends the same at each request. -/
def advertisers (capability : String) (backends : Entries BackendHandle) : List String :=
  ((backends.filter fun b => b.2.health && b.2.capabilities.any (·.has capability)).map
    Prod.fst).insertionSort (· ≤ ·)

/-- `backends_with`. -/
def backendsWith (capability : String) : Prog RegistryOp (List String) := do
  .ret (advertisers capability (← .perform .entries))

end Registry

end HeadlessMcp
