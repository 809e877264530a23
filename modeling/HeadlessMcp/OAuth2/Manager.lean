import HeadlessMcp.Async.Prog
import HeadlessMcp.Core.Types

/-!
# The OAuth2 token manager

One `OAuth2TokenManager` owns the token of one backend: a cache behind a short
async lock, a refresh lock that is held across requests (the singleflight), and a
write-through to the encrypted store. Each method is a program over `OAuthOp`.

The cache lock is never held across an await: every critical section reads, or
reads and replaces, the entry. So a critical section is one atomic operation,
together with the clock reading made inside it. The refresh lock is held across
awaits and has operations of its own; a `withLock` block is the scope of a guard.

An instant is a number of nanoseconds. `Instant::now() + Duration` panics when the
sum does not fit the platform's `i64` seconds, which `Instant.checkedAdd` models;
`u64` sums of Unix seconds wrap.
-/

namespace HeadlessMcp

open Async

/-! ## Time -/

/-- A reading of the monotonic clock, in nanoseconds. -/
abbrev Instant : Type := Nat

/-- `Duration::from_secs`. -/
def secs (n : Nat) : Nat := 10 ^ 9 * n

/-- The first instant that does not fit the platform's `i64` seconds. -/
def Instant.limit : Nat := secs (2 ^ 63)

/-- `Instant + Duration`; `none` is the overflow panic. The source writes a plain `+`, which is
why each use of this has a branch that panics. -/
def Instant.checkedAdd (t : Instant) (d : Nat) : Option Instant :=
  if t + d < Instant.limit then some (t + d) else none

/-- A `u64` sum in release mode. It wraps, and nothing is reported. -/
def addU64 (a b : Nat) : Nat := (a + b) % 2 ^ 64

/-! ## Data -/

/-- A cached access token with what is needed to refresh it. -/
structure TokenCache : Type where
  accessToken : String
  refreshToken : Option String
  /-- the dynamically registered client id -/
  clientId : Option String
  expiresAt : Instant
  deriving DecidableEq

/-- More than 30 seconds of life are left. The margin keeps a token from expiring on its way to
the backend. -/
def TokenCache.usable (c : TokenCache) (now : Instant) : Bool := now + secs 30 < c.expiresAt

/-- What is not usable now will not be usable later. The monotonic clock never goes back, so a
token that was refused at one look is refused at all later ones. -/
theorem TokenCache.usable_anti {c : TokenCache} {now later : Instant} (hle : now ≤ later)
    (h : c.usable now = false) : c.usable later = false :=
  decide_eq_false fun hlt =>
    of_decide_eq_false h (Nat.lt_of_le_of_lt (Nat.add_le_add_right hle _) hlt)

/-- The stored token of one backend. -/
structure PersistedToken : Type where
  accessToken : String
  refreshToken : Option String
  clientId : Option String
  expiresAtUnix : Nat
  deriving DecidableEq

/-- `PersistedToken::is_valid` at a reading of the wall clock. Here the expiry is a second of Unix
time, since an instant means nothing to another process. -/
def PersistedToken.isValid (t : PersistedToken) (unix : Nat) : Bool :=
  addU64 unix 30 < t.expiresAtUnix

/-- The authorization server metadata that the manager reads (RFC 8414). -/
structure AuthServerMetadata : Type where
  authorizationEndpoint : Option String
  tokenEndpoint : String
  registrationEndpoint : Option String
  scopesSupported : Option (List String)
  codeChallengeMethodsSupported : Option (List String)
  deriving DecidableEq

/-- How an HTTP exchange with a JSON answer ends. The request may fail to be sent, its body may be
no JSON, and else there are a status and a value. -/
inductive JsonReply : Type where
  /-- the request failed -/
  | failed : String → JsonReply
  /-- an answer whose body is not JSON -/
  | unreadable : Nat → String → JsonReply
  /-- an answer with its status -/
  | json : Nat → Value → JsonReply

/-- The form that is posted to the token endpoint. -/
inductive TokenForm : Type where
  | clientCredentials (clientId clientSecret scope : String) : TokenForm
  | authorizationCode (clientId code redirectUri codeVerifier : String) : TokenForm
  | refresh (refreshToken clientId clientSecret : String) : TokenForm
  deriving DecidableEq

/-- `StatusCode::is_success`. -/
def isSuccess (status : Nat) : Bool := 200 ≤ status && status < 300

/-! ## Operations -/

/-- The atomic operations of the token manager. Each of them is one critical section, one request
or one look at a clock; between two of them the other tasks may do anything that the locks allow.
-/
inductive OAuthOp : Type → Type where
  /-- acquire the refresh lock -/
  | lockRefresh : OAuthOp Unit
  /-- drop its guard -/
  | unlockRefresh : OAuthOp Unit
  /-- a critical section that reads the cache, and the clock in it -/
  | readCache : OAuthOp (Instant × Option TokenCache)
  /-- a critical section that replaces the cache; `none` is a panic in it -/
  | updateCache : (Instant → Option TokenCache → Option TokenCache) →
      OAuthOp (Option TokenCache)
  /-- `Instant::now()` -/
  | instantNow : OAuthOp Instant
  /-- seconds since the Unix epoch -/
  | unixNow : OAuthOp Nat
  /-- the discovered metadata -/
  | readDiscovered : OAuthOp (Option AuthServerMetadata)
  /-- replace the discovered metadata -/
  | writeDiscovered : AuthServerMetadata → OAuthOp Unit
  /-- GET a JSON document -/
  | getJson (url : String) : OAuthOp JsonReply
  /-- POST a form to the token endpoint -/
  | postToken (endpoint : String) (form : TokenForm) : OAuthOp JsonReply
  /-- POST a client registration -/
  | postRegistration (endpoint : String) (body : Value) : OAuthOp JsonReply
  /-- 32 random bytes, base64url without padding -/
  | randomVerifier : OAuthOp String
  /-- open the system browser -/
  | openBrowser (url : String) : OAuthOp Bool
  /-- wait for one request to the local callback server: its request line -/
  | receiveCallback (port : Nat) : OAuthOp (BackendResult String)
  /-- answer the browser -/
  | answerCallback : OAuthOp (BackendResult Unit)
  /-- read a line of standard input -/
  | readInput : OAuthOp (BackendResult String)
  /-- `load_token`: the stored token, if it can be read -/
  | loadToken (key : String) : OAuthOp (Option PersistedToken)
  /-- `save_token`'s write, whose error is dropped -/
  | storeToken (key : String) (token : PersistedToken) : OAuthOp Unit

/-- What a manager is created with. The store itself is part of the world. -/
structure Manager : Type where
  config : OAuth2Config
  /-- an encrypted store was given -/
  hasStore : Bool
  /-- BASE64URL(SHA256(·)) -/
  s256 : String → String

/-! ## Helpers -/

/-- A `BackendError` of kind `Auth`. -/
def authError (message : String) : BackendError := ⟨.auth, message⟩

/-- A failed refresh; `rejected` means that the refresh token itself was refused. -/
structure RefreshFailure : Type where
  error : BackendError
  rejected : Bool

/-- `From<BackendError> for RefreshFailure`. -/
def RefreshFailure.ofError (e : BackendError) : RefreshFailure := ⟨e, false⟩

/-- The store key of a backend's token. -/
def tokenKey (backendId : String) : String := s!"oauth2:{backendId}:token"

/-- The provider's description of a refused request. -/
def errorDescription (body : Value) : String :=
  ((body.get "error_description").bind Value.asStr).getD "unknown error"

/-- The token endpoint's answer in the fields that are read from it. -/
def accessTokenOf (body : Value) : Option String := (body.get "access_token").bind Value.asStr

/-- `expires_in`, one hour when it is absent. A value that is no `u64` counts as absent. -/
def expiresInOf (body : Value) : Nat := ((body.get "expires_in").bind Value.asU64).getD 3600

/-- `refresh_token`, which a refresh response may omit. Then the manager goes on with the refresh
token it has. -/
def refreshTokenOf (body : Value) : Option String :=
  (body.get "refresh_token").bind Value.asStr

/-- Hexadecimal digit. -/
def toDigit16 (c : Char) : Option Nat :=
  if c.isDigit then some (c.toNat - '0'.toNat)
  else if 'a' ≤ c ∧ c ≤ 'f' then some (c.toNat - 'a'.toNat + 10)
  else if 'A' ≤ c ∧ c ≤ 'F' then some (c.toNat - 'A'.toNat + 10)
  else none

/-- `percent_decode`, on characters. A `%` consumes the next two characters even
when they are not digits. -/
def percentDecodeChars : List Char → List Char
  | [] => []
  | '%' :: h :: l :: cs =>
    match toDigit16 h, toDigit16 l with
    | some h, some l => Char.ofNat (h * 16 + l) :: percentDecodeChars cs
    | _, _ => percentDecodeChars cs
  | '%' :: _ => []
  | '+' :: cs => ' ' :: percentDecodeChars cs
  | c :: cs => c :: percentDecodeChars cs

/-- `percent_decode`. -/
def percentDecode (s : String) : String := String.ofList (percentDecodeChars s.toList)

/-- The authorization code in the query of a redirect URL. -/
def codeOfUrl (url : String) : Option String :=
  match url.splitOn "?" with
  | _ :: query :: _ => (query.splitOn "&").findSome? fun param =>
      match param.splitOn "=" with
      | k :: v :: vs => if k = "code" then some (percentDecode ("=".intercalate (v :: vs))) else none
      | _ => none
  | _ => none

/-- `char::is_whitespace`: the property `White_Space` of Unicode. -/
def charIsWhitespace (c : Char) : Bool :=
  let n := c.toNat
  (0x9 ≤ n && n ≤ 0xd) || n = 0x20 || n = 0x85 || n = 0xa0 || n = 0x1680 ||
    (0x2000 ≤ n && n ≤ 0x200a) || n = 0x2028 || n = 0x2029 || n = 0x202f || n = 0x205f || n = 0x3000

/-- The authorization code in the request line of the callback: the query of its
second word. -/
def codeOfRequestLine (line : String) : Option String :=
  match (line.split charIsWhitespace).toList.filter (fun w => !w.isEmpty) with
  | _ :: path :: _ => codeOfUrl path.toString
  | _ => none

/-- `save_token`: write the token to the store, with an absolute expiry. -/
def saveToken (backendId : String) (entry : TokenCache) (expiresIn : Nat) :
    Prog OAuthOp Unit := do
  let now ← .perform .unixNow
  .perform (.storeToken (tokenKey backendId)
    ⟨entry.accessToken, entry.refreshToken, entry.clientId, addU64 now expiresIn⟩)

namespace Manager

variable (m : Manager)

/-! ## Methods -/

/-- `resolve_token_endpoint`. -/
def resolveTokenEndpoint : Prog OAuthOp (BackendResult String) :=
  let discovered := do
    match ← .perform .readDiscovered with
    | some d => .ret (.ok d.tokenEndpoint)
    | none => .ret (.error (authError "no OAuth2 token endpoint configured or discovered"))
  match m.config.tokenEndpoint with
  | some endpoint => if endpoint ≠ "" then .ret (.ok endpoint) else discovered
  | none => discovered

/-- `resolve_grant_type`. -/
def resolveGrantType : String :=
  if m.config.grantType ≠ "" ∧ m.config.grantType ≠ "client_credentials" then
    m.config.grantType
  else "client_credentials"

/-- `current_client_id`: from the configuration, or dynamically registered. -/
def currentClientId : Prog OAuthOp (Option String) :=
  match m.config.clientId with
  | some id => .ret (some id)
  | none => do
    let (_, cache) ← .perform .readCache
    .ret (cache.bind TokenCache.clientId)

/-- The entry that `set_dynamic_client_id` leaves behind. Without an entry it makes one: its
access token is empty and it is expired at once, so it is never served. -/
def withDynamicClientId (clientId : String) (now : Instant) :
    Option TokenCache → Option TokenCache
  | some c => some { c with clientId := some clientId }
  | none => some ⟨"", none, some clientId, now⟩

/-- `set_dynamic_client_id`. -/
def setDynamicClientId (clientId : String) : Prog OAuthOp Unit := do
  let _ ← .perform (.updateCache (withDynamicClientId clientId))
  .ret ()

/-- The entry that `install_persisted` puts in the cache, `remaining` nanoseconds
before its expiry. -/
def persistedEntry (t : PersistedToken) (remaining : Nat) (now : Instant)
    (cache : Option TokenCache) : Option TokenCache :=
  (now.checkedAdd remaining).map fun expiresAt =>
    { accessToken := t.accessToken
      refreshToken := t.refreshToken
      clientId := m.config.clientId <|> t.clientId <|> cache.bind TokenCache.clientId
      expiresAt := expiresAt }

/-- `install_persisted`: replace the cache with a stored token, keeping its real
remaining life. -/
def installPersisted (t : PersistedToken) : Prog OAuthOp Unit := do
  let now ← .perform .unixNow
  let remaining := secs (t.expiresAtUnix - now)
  match ← .perform (.updateCache (m.persistedEntry t remaining)) with
  | some _ => .ret ()
  | none => .panic

/-- The entry that `cache_token_response` puts in the cache: what the answer omits
is taken from the entry before it. -/
def responseEntry (accessToken : String) (refreshToken : Option String)
    (expiresAt : Instant) (_now : Instant) (previous : Option TokenCache) :
    Option TokenCache :=
  some
    { accessToken := accessToken
      refreshToken := refreshToken <|> previous.bind TokenCache.refreshToken
      clientId := m.config.clientId <|> previous.bind TokenCache.clientId
      expiresAt := expiresAt }

/-- `cache_token_response`: cache a successful answer of the token endpoint and
write it through to the store, while the caller holds the refresh lock. -/
def cacheTokenResponse (body : Value) (backendId : String) :
    Prog OAuthOp (BackendResult String) :=
  match accessTokenOf body with
  | none => .ret (.error (authError "response missing 'access_token'"))
  | some accessToken => do
    let now ← .perform .instantNow
    match now.checkedAdd (secs (expiresInOf body)) with
    | none => .panic
    | some expiresAt =>
      match ← .perform (.updateCache (m.responseEntry accessToken (refreshTokenOf body) expiresAt)) with
      | none => .panic
      | some entry =>
        if m.hasStore then
          saveToken backendId entry (expiresInOf body)
        .ret (.ok accessToken)

/-- What `do_client_credentials` and `do_authorization_code` make of the token
endpoint's answer. -/
def tokenAnswer (reply : JsonReply) (sendFailed : String) (backendId : String) :
    Prog OAuthOp (BackendResult String) :=
  match reply with
  | .failed e => .ret (.error (authError s!"{sendFailed}: {e}"))
  | .unreadable _ e => .ret (.error (authError s!"failed to parse token response: {e}"))
  | .json status body =>
    if isSuccess status then m.cacheTokenResponse body backendId
    else .ret (.error (authError
      s!"token endpoint returned {status}: {errorDescription body}"))

/-- `do_refresh`. The new token is cached and stored, and the old refresh token is kept where the
answer has none. -/
def doRefresh (refreshToken backendId : String) :
    Prog OAuthOp (Except RefreshFailure String) := do
  match ← m.resolveTokenEndpoint with
  | .error e => .ret (.error (.ofError e))
  | .ok endpoint =>
    let clientId ← m.currentClientId
    let clientSecret := m.config.clientSecret.getD ""
    match ← .perform (.postToken endpoint
        (.refresh refreshToken (clientId.getD "") clientSecret)) with
    | .failed e => .ret (.error (.ofError (authError s!"token refresh failed: {e}")))
    | .unreadable _ e =>
      .ret (.error (.ofError (authError s!"failed to parse refresh response: {e}")))
    | .json status body =>
      if isSuccess status then
        match ← m.cacheTokenResponse body backendId with
        | .ok token => .ret (.ok token)
        | .error e => .ret (.error (.ofError e))
      else
        .ret (.error
          ⟨authError s!"refresh failed ({status}): {errorDescription body}",
            status = 400 ∨ status = 401⟩)

/-- `retry_with_stored`: after a rejected refresh, adopt a token another writer
stored since ours was loaded, and use it once. -/
def retryWithStored (rejected backendId : String) : Prog OAuthOp (Option String) :=
  if !m.hasStore then .ret none
  else do
    match ← .perform (.loadToken (tokenKey backendId)) with
    | none => .ret none
    | some stored =>
      if stored.refreshToken = some rejected then .ret none
      else
        m.installPersisted stored
        let now ← .perform .unixNow
        if stored.isValid now then .ret (some stored.accessToken)
        else match stored.refreshToken with
          | none => .ret none
          | some refreshToken => do
            match ← m.doRefresh refreshToken backendId with
            | .ok token => .ret (some token)
            | .error _ => .ret none

/-- `register_client`: RFC 7591 registration at the discovered endpoint. -/
def registerClient : Prog OAuthOp (BackendResult (String × Option String)) := do
  match (← .perform .readDiscovered).bind AuthServerMetadata.registrationEndpoint with
  | none => .ret (.ok ("", none))
  | some endpoint =>
    let redirectUri := s!"http://localhost:{m.config.callbackPort}/callback"
    let request := Value.object
      [("client_name", .string "headless-mcp"),
       ("redirect_uris", .array [.string redirectUri]),
       ("grant_types", .array [.string "authorization_code", .string "refresh_token"]),
       ("token_endpoint_auth_method", .string "none")]
    match ← .perform (.postRegistration endpoint request) with
    | .failed e => .ret (.error (authError s!"dynamic client registration failed: {e}"))
    | .unreadable _ e =>
      .ret (.error (authError s!"failed to parse registration response: {e}"))
    | .json status reg =>
      if isSuccess status then
        match (reg.get "client_id").bind Value.asStr with
        | none => .ret (.error (authError "registration response missing client_id"))
        | some clientId => .ret (.ok (clientId, (reg.get "client_secret").bind Value.asStr))
      else .ret (.error (authError s!"registration failed ({status}): {reg.print}"))

/-- The client id and secret of a `client_credentials` grant: configured, or
registered on the spot. -/
def clientCredentials : Prog OAuthOp (BackendResult (String × String)) :=
  match m.config.clientId, m.config.clientSecret with
  | some clientId, some clientSecret => .ret (.ok (clientId, clientSecret))
  | some clientId, none => .ret (.ok (clientId, ""))
  | none, _ => do
    match (← .perform .readDiscovered).bind AuthServerMetadata.registrationEndpoint with
    | none => .ret (.error (authError
        "OAuth2 client_id not configured and no registration endpoint"))
    | some _ => do
      match ← m.registerClient with
      | .error e => .ret (.error e)
      | .ok (clientId, clientSecret) =>
        setDynamicClientId clientId
        .ret (.ok (clientId, clientSecret.getD ""))

/-- `do_client_credentials`. -/
def doClientCredentials (tokenEndpoint backendId : String) :
    Prog OAuthOp (BackendResult String) := do
  match ← m.clientCredentials with
  | .error e => .ret (.error e)
  | .ok (clientId, clientSecret) =>
    let scopes := m.config.scopes.getD "mcp"
    let reply ← .perform (.postToken tokenEndpoint
      (.clientCredentials clientId clientSecret scopes))
    m.tokenAnswer reply "OAuth2 token request failed" backendId

/-- The client id of an `authorization_code` grant. -/
def authorizationClientId : Prog OAuthOp (BackendResult String) :=
  match m.config.clientId with
  | some clientId => .ret (.ok clientId)
  | none => do
    match (← .perform .readDiscovered).bind AuthServerMetadata.registrationEndpoint with
    | none => .ret (.error (authError
        "OAuth2 client_id not configured and no registration endpoint discovered"))
    | some _ => do
      match ← m.registerClient with
      | .error e => .ret (.error e)
      | .ok (clientId, _) =>
        setDynamicClientId clientId
        .ret (.ok clientId)

/-- The authorization code: from the callback, or pasted by hand when no browser
could be opened. -/
def obtainCode (authUrl : String) : Prog OAuthOp (BackendResult String) := do
  if ← .perform (.openBrowser authUrl) then
    match ← .perform (.receiveCallback m.config.callbackPort) with
    | .error e => .ret (.error e)
    | .ok line =>
      match codeOfRequestLine line with
      | none => .ret (.error (authError "no authorization code in callback"))
      | some code =>
        match ← .perform .answerCallback with
        | .error e => .ret (.error e)
        | .ok () => .ret (.ok code)
  else
    match ← .perform .readInput with
    | .error e => .ret (.error e)
    | .ok input =>
      match codeOfUrl input.trimAscii.toString with
      | none => .ret (.error (authError "could not parse authorization code from input"))
      | some code => .ret (.ok code)

/-- `do_authorization_code`: the interactive grant with PKCE. -/
def doAuthorizationCode (tokenEndpoint backendId : String) :
    Prog OAuthOp (BackendResult String) := do
  let authEndpoint :=
    ((← .perform .readDiscovered).bind AuthServerMetadata.authorizationEndpoint).getD
      tokenEndpoint
  let pkceMethods :=
    ((← .perform .readDiscovered).bind
      AuthServerMetadata.codeChallengeMethodsSupported).getD []
  match ← m.authorizationClientId with
  | .error e => .ret (.error e)
  | .ok clientId =>
    let codeVerifier ← .perform .randomVerifier
    let codeChallenge := if "S256" ∈ pkceMethods then m.s256 codeVerifier else codeVerifier
    let redirectUri := s!"http://localhost:{m.config.callbackPort}/callback"
    let scopes ← match m.config.scopes with
      | some scopes => Prog.ret scopes
      | none => do
        let discovered ← .perform .readDiscovered
        .ret (((discovered.bind AuthServerMetadata.scopesSupported).map
          (" ".intercalate ·)).getD "")
    let authUrl := s!"{authEndpoint}?response_type=code&client_id={clientId}" ++
      s!"&redirect_uri={redirectUri}&code_challenge={codeChallenge}" ++
      "&code_challenge_method=S256"
    let authUrl := if scopes = "" then authUrl else authUrl ++ s!"&scope={scopes}"
    match ← m.obtainCode authUrl with
    | .error e => .ret (.error e)
    | .ok code =>
      let reply ← .perform (.postToken tokenEndpoint
        (.authorizationCode clientId code redirectUri codeVerifier))
      m.tokenAnswer reply "token request failed" backendId

/-- The refresh path of `get_token`, with the refresh lock held: `none` falls
through to a new acquisition. -/
def getTokenRefresh (backendId : String) (daemonMode : Bool) :
    Prog OAuthOp (Option (BackendResult String)) := do
  let (now, cache) ← .perform .readCache
  match cache with
  | none => .ret none
  | some c =>
    if c.usable now then .ret (some (.ok c.accessToken))
    else match c.refreshToken with
      | none => .ret none
      | some refreshToken => do
        match ← m.doRefresh refreshToken backendId with
        | .ok token => .ret (some (.ok token))
        | .error failure =>
          let retried ← if failure.rejected then m.retryWithStored refreshToken backendId
            else Prog.ret none
          match retried with
          | some token => .ret (some (.ok token))
          | none =>
            if daemonMode then
              .ret (some (.error (authError
                s!"token refresh failed (daemon mode): {failure.error.message}")))
            else .ret none

/-- The acquisition of a new token, with the refresh lock held. -/
def getTokenAcquire (backendId : String) (daemonMode : Bool) :
    Prog OAuthOp (BackendResult String) := do
  let (now, cache) ← .perform .readCache
  match cache.filter (·.usable now) with
  | some c => .ret (.ok c.accessToken)
  | none =>
    match ← m.resolveTokenEndpoint with
    | .error e => .ret (.error e)
    | .ok tokenEndpoint =>
      match m.resolveGrantType with
      | "client_credentials" => m.doClientCredentials tokenEndpoint backendId
      | "authorization_code" =>
        if daemonMode then
          .ret (.error (authError
            "interactive authorization_code grant blocked in daemon mode"))
        else m.doAuthorizationCode tokenEndpoint backendId
      | "urn:ietf:params:oauth:grant-type:jwt-bearer" =>
        .ret (.error (authError "JWT bearer grant is not yet supported by headless-mcp"))
      | other => .ret (.error (authError s!"unsupported OAuth2 grant type: {other}"))

/-- `get_token`: the cached token, or a refreshed one, or a new one. -/
def getToken (backendId : String) (daemonMode : Bool) :
    Prog OAuthOp (BackendResult String) := do
  let acquire := Prog.withLock .lockRefresh .unlockRefresh
    (m.getTokenAcquire backendId daemonMode)
  let (now, cache) ← .perform .readCache
  match cache with
  | none => acquire
  | some c =>
    if c.usable now then .ret (.ok c.accessToken)
    else if c.refreshToken.isSome then
      match ← Prog.withLock .lockRefresh .unlockRefresh
          (m.getTokenRefresh backendId daemonMode) with
      | some result => .ret result
      | none => acquire
    else if daemonMode then
      .ret (.error (authError
        "token expired and no refresh token available (daemon mode — run 'auth' to re-authenticate)"))
    else acquire

/-- `adopt_persisted`: load the stored token into an empty cache. It is loaded under the refresh
lock, so that no refresh goes on meanwhile. -/
def adoptPersisted (backendId : String) : Prog OAuthOp (Option String) :=
  if !m.hasStore then .ret none
  else Prog.withLock .lockRefresh .unlockRefresh do
    let (_, cache) ← .perform .readCache
    match cache.filter (·.accessToken ≠ "") with
    | some _ => .ret none
    | none =>
      match ← .perform (.loadToken (tokenKey backendId)) with
      | none => .ret none
      | some persisted =>
        let now ← .perform .unixNow
        if persisted.isValid now = false ∧ persisted.refreshToken = none then .ret none
        else
          m.installPersisted persisted
          let now ← .perform .unixNow
          .ret (if persisted.isValid now then some persisted.accessToken else none)

/-- The two calls that any number of callers make on one shared manager. -/
inductive Call : Type where
  | getToken (backendId : String) (daemonMode : Bool) : Call
  | adoptPersisted (backendId : String) : Call

/-- The store key that a call works on. -/
def Call.backendId : Call → String
  | getToken backendId _ => backendId
  | adoptPersisted backendId => backendId

/-- What a call returns. -/
inductive Answer : Type where
  | token : BackendResult String → Answer
  | adopted : Option String → Answer

/-- One call as a task. -/
def call : Call → Prog OAuthOp Answer
  | .getToken backendId daemonMode => do .ret (.token (← m.getToken backendId daemonMode))
  | .adoptPersisted backendId => do .ret (.adopted (← m.adoptPersisted backendId))

end Manager

end HeadlessMcp
