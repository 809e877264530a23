import HeadlessMcp.Core.Json

/-!
# Backend definitions and errors

The configuration of a backend and the uniform error type, with the fields that
the modelled functions read.

They are plain records. What a record must satisfy to be valid is not part of it: the source
accepts any, and the theorems name what they need of a definition.
-/

namespace HeadlessMcp

/-- Coarse classification of a backend error. The session looks at nothing else of an error when it
decides how to report it. -/
inductive BackendErrorKind : Type where
  | connection
  | auth
  | timeout
  | protocol
  | internal
  deriving DecidableEq

/-- The error of every backend operation. The hub passes its message on and never takes it apart. -/
structure BackendError : Type where
  /-- what failed -/
  kind : BackendErrorKind
  /-- the text, free of credentials -/
  message : String
  deriving DecidableEq

/-- `BackendResult`. -/
abbrev BackendResult (α : Type) : Type := Except BackendError α

/-- OAuth2 configuration of a backend. -/
structure OAuth2Config : Type where
  /-- the token endpoint, when it is not discovered -/
  tokenEndpoint : Option String
  /-- the application's client id -/
  clientId : Option String
  /-- the application's client secret -/
  clientSecret : Option String
  /-- space-separated scopes to request -/
  scopes : Option String
  /-- `client_credentials` or `authorization_code` -/
  grantType : String
  /-- port of the local redirect server -/
  callbackPort : Nat
  deriving DecidableEq

/-- How a backend is reached. -/
inductive BackendTransport : Type where
  /-- a child process -/
  | stdio (command : String) (args : List String) (env : List (String × String))
      (cwd : Option String) : BackendTransport
  /-- an HTTP server -/
  | http (url : String) (bearerToken : Option String) (oauth2 : Option OAuth2Config) :
      BackendTransport
  deriving DecidableEq

/-- When a backend is connected, and whether it stays connected. -/
inductive ConnectionMode : Type where
  /-- at startup, and kept -/
  | eager
  /-- on the first call, and kept -/
  | lazy
  /-- for every call anew -/
  | perCall
  deriving DecidableEq

/-- How a backend is defined before it is connected. It is read from the configuration and does
not change while the hub runs. -/
structure BackendDef : Type where
  /-- unique id -/
  id : String
  /-- how to reach it -/
  transport : BackendTransport
  /-- prefix of every exposed tool name; none exposes the bare names -/
  toolNamespace : Option String
  /-- connection strategy -/
  connectionMode : ConnectionMode
  /-- limit of the connect handshake -/
  connectTimeoutSecs : Nat
  /-- limit of a `tools/call` -/
  callTimeoutSecs : Nat
  /-- only these tools, by downstream name; empty means all -/
  toolsAllow : List String
  /-- never these tools; applied after `toolsAllow` -/
  toolsDeny : List String
  /-- appended to the error when the backend cannot be reached -/
  unavailableHint : Option String
  /-- modern clients' request metadata is forwarded on `tools/call` -/
  forwardRequestMeta : Bool
  /-- arguments the hub always sets -/
  pinArgs : Map
  /-- a map has every key once -/
  pinArgsUnique : pinArgs.keys.Nodup := by decide
  /-- arguments callers may not send -/
  denyArgs : List String

/-- `ServerInfo`. -/
structure ServerInfo : Type where
  name : String
  version : String
  deriving DecidableEq

/-- `ServerCapabilities`: what the hub asks of them is whether they are there. -/
structure ServerCapabilities : Type where
  tools : Option Value
  resources : Option Value
  prompts : Option Value
  events : Option Value

/-- Result of a successful `initialize`. -/
structure InitializeResult : Type where
  protocolVersion : String
  serverInfo : ServerInfo
  capabilities : ServerCapabilities

/-- A tool as `tools/list` describes it. -/
structure ToolDescriptor : Type where
  name : String
  description : String
  inputSchema : Value

namespace Value

/-- A field that `serde` reads into an `Option`: absent and `null` are both none. -/
def optField (v : Value) (key : String) : Option Value :=
  match v.get key with
  | none => none
  | some null => none
  | some w => some w

/-- A field that `serde` reads into an `Option` of a string. -/
def optString (v : Value) (key : String) : Option (Option String) :=
  match v.optField key with
  | none => some none
  | some (.string s) => some (some s)
  | some _ => none

/-- A capability: absent, or an object whose flags (default true) are booleans. -/
def capability (v : Value) (key : String) (flags : List String) : Option (Option Value) :=
  match v.optField key with
  | none => some none
  | some (object m) =>
    if flags.all fun f => match Entries.get m f with
      | none => true
      | some (bool _) => true
      | some _ => false
    then some (some (object m))
    else none
  | some _ => none

/-- `serde_json::from_value::<InitializeResult>`. -/
def toInitializeResult (v : Value) : Option InitializeResult := do
  let version ← (← v.get "protocolVersion").asStr
  let info ← v.get "serverInfo"
  let name ← (← info.get "name").asStr
  let infoVersion ← (← info.get "version").asStr
  let caps ← v.get "capabilities"
  let _ ← caps.asObject
  let tools ← caps.capability "tools" ["listChanged"]
  let resources ← caps.capability "resources" ["subscribe", "listChanged"]
  let prompts ← caps.capability "prompts" ["listChanged"]
  return ⟨version, ⟨name, infoVersion⟩, ⟨tools, resources, prompts, caps.optField "events"⟩⟩

/-- `serde_json::from_value::<ToolDescriptor>`. -/
def toToolDescriptor (v : Value) : Option ToolDescriptor := do
  let name ← (← v.get "name").asStr
  let description ← (← v.get "description").asStr
  let schema ← v.get "inputSchema"
  return ⟨name, description, schema⟩

end Value

end HeadlessMcp
