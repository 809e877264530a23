import HeadlessMcp.Session.Dispatch

/-!
# The HTTP transport

`build_router` serves `POST /mcp` behind a rate limit for each address and a bearer token. What
gets through is decoded, the version header of a modern request is compared with its body, and
the session handles the message. Each request is a task of its own.

The rate limiter is a library: its answer to an address is the environment's.

The layers stand in the order in which `build_router` puts them: the rate limit is outermost, then
the path and the token, then the method and the body.
-/

namespace HeadlessMcp

open Async

/-- `HEADER_MISMATCH`. -/
def headerMismatchCode : Int := -32020

namespace HttpTransport

/-! ## Requests and responses -/

/-- The body of a response. -/
inductive Body : Type where
  | empty : Body
  | text (s : String) : Body
  /-- `application/json` -/
  | message (m : JsonRpcMessage) : Body
  /-- server-sent events: the messages of a stream -/
  | events (stream : Nat) : Body

structure Response : Type where
  status : Nat
  body : Body

/-- The bytes of a header value. -/
abbrev HeaderBytes : Type := List UInt8

structure Request : Type where
  ip : String
  path : String
  method : String
  /-- the first value of the header, if there is one -/
  authorization : Option HeaderBytes
  /-- the first value of `mcp-protocol-version` -/
  protocolVersion : Option HeaderBytes
  /-- the body, or what the server answers when it cannot be read -/
  body : Except Response String

/-- `HeaderValue::to_str`: visible ASCII and tabs. -/
def toStr (value : HeaderBytes) : Option String :=
  if value.all fun b => (32 ≤ b && b < 127) || b = 9 then
    some (String.ofList (value.map fun b => Char.ofNat b.toNat))
  else none

/-- `str::strip_prefix`. -/
def stripStart (start s : String) : Option String :=
  if start.toList.isPrefixOf s.toList then some (String.ofList (s.toList.drop start.toList.length))
  else none

/-! ## Authentication -/

/-- `BEARER_PREFIX`. -/
def bearerPrefix : String := "Bearer "

/-- `extract_bearer_token`. -/
def extractBearerToken (request : Request) : Option String := do
  let raw ← toStr (← request.authorization)
  stripStart bearerPrefix raw

/-- `tokens_match`. -/
def tokensMatch (provided expected : String) : Bool := provided = expected

/-- The request carries the token. A request without the header does not. -/
def authorized (bearerToken : String) (request : Request) : Bool :=
  (extractBearerToken request).any fun token => tokensMatch token bearerToken

/-! ## The version header -/

/-- The version and the id of a modern request. -/
def modernOf : JsonRpcMessage → Option (String × JsonRpcId)
  | .request id _ params => (requestProtocolVersion params).map fun v => (v, id)
  | _ => none

/-- The `Debug` form of a text of visible ASCII. -/
def debugText (s : String) : String :=
  "\"" ++ String.ofList (s.toList.flatMap fun c =>
    if c = '"' then ['\\', '"'] else if c = '\\' then ['\\', '\\']
    else if c = '\t' then ['\\', 't'] else [c]) ++ "\""

/-- The version that the header declares. -/
def headerVersion (request : Request) : Option String := request.protocolVersion.bind toStr

/-- What is said about a header that does not agree with the body. -/
def headerMismatchText (header version : String) : String :=
  s!"Header mismatch: MCP-Protocol-Version {debugText header} does not match body version '{version}'"

/-- The error for a modern request whose header does not agree with its body. -/
def headerMismatch (request : Request) (m : JsonRpcMessage) : Option (JsonRpcId × JsonRpcError) :=
  match modernOf m with
  | none => none
  | some (version, id) =>
    if headerVersion request = some version then none
    else some (id, ⟨headerMismatchCode,
      headerMismatchText ((headerVersion request).getD "<missing>") version, none⟩)

/-- `modern_status`. It goes by the code of the error, and every other response is sent with 200.
-/
def modernStatus : JsonRpcMessage → Nat
  | .error _ err =>
    if err.code = unsupportedProtocolVersionCode then 400
    else if err.code = JsonRpcError.methodNotFoundCode then 404
    else 200
  | _ => 200

end HttpTransport

/-! ## Handling -/

/-- The operations of a request. The rate limiter is asked once, and the session as often as the
message needs it. -/
inductive HttpServerOp : Type → Type 1 where
  /-- an operation of the session -/
  | dispatch {β : Type} (o : DispatchOp β) : HttpServerOp β
  /-- `check_key`: the address is within its budget -/
  | checkRate (ip : String) : HttpServerOp Bool

namespace HttpTransport

section Serving

variable (serde : Serde) (prettyText serdeText : Value → String)

/-- A message that the session handles. -/
def handleMessage (m : JsonRpcMessage) : Prog HttpServerOp Response := do
  match ← (Session.handleStreaming prettyText serdeText m).lift .dispatch with
  | some (.message reply) =>
    .ret ⟨if (modernOf m).isSome then modernStatus reply else 200, .message reply⟩
  | some (.stream _ number) => .ret ⟨200, .events number⟩
  | none => .ret ⟨202, .empty⟩

/-- `handle_mcp`. -/
def handleMcp (request : Request) : Prog HttpServerOp Response :=
  match request.body with
  | .error rejection => .ret rejection
  | .ok body =>
    match decodeMessage serde body with
    | .error err => .ret ⟨200, .message (.error none err)⟩
    | .ok m =>
      match headerMismatch request m with
      | some (id, err) => .ret ⟨400, .message (.error (some id) err)⟩
      | none => handleMessage prettyText serdeText m

/-- `require_bearer_token`. -/
def requireBearerToken (bearerToken : String) (request : Request)
    (next : Prog HttpServerOp Response) : Prog HttpServerOp Response :=
  if authorized bearerToken request then next else .ret ⟨401, .text "unauthorized"⟩

/-- `enforce_rate_limit`. It is the outermost layer, so a request over the limit is not even asked
for its token. -/
def enforceRateLimit (request : Request) (next : Prog HttpServerOp Response) :
    Prog HttpServerOp Response := do
  if ← .perform (.checkRate request.ip) then next
  else .ret ⟨429, .text "rate limit exceeded"⟩

/-- `build_router`: the token is asked for on the route alone, the rate limit is for everything. -/
def serve (bearerToken : String) (request : Request) : Prog HttpServerOp Response :=
  enforceRateLimit request <|
    if request.path = "/mcp" then
      requireBearerToken bearerToken request <|
        if request.method = "POST" then handleMcp serde prettyText serdeText request
        else .ret ⟨405, .empty⟩
    else .ret ⟨404, .empty⟩

end Serving

end HttpTransport

/-! ## The world -/

/-- What the environment chooses in one step. -/
structure HttpServerChoice : Type where
  registry : RegistryChoice := {}
  /-- the address is within its budget -/
  allowed : Bool := true

/-- What each operation does. -/
def HttpServerOp.exec {ι : Type} (i : ι) : (β : Type) → HttpServerOp β → HttpServerChoice →
    DispatchWorld ι → Option (β × DispatchWorld ι)
  | β, .dispatch o, e, s => DispatchWorld.exec i β o e.registry s
  | _, .checkRate _, e, s => some (e.allowed, s)

/-- The machine of the requests. -/
def httpServerMachine (ι : Type) : Machine HttpServerOp ι HttpServerChoice (DispatchWorld ι) :=
  ⟨HttpServerOp.exec⟩

end HeadlessMcp
