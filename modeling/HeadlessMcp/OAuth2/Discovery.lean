import HeadlessMcp.OAuth2.Manager

/-!
# Discovery

Where a backend's authorization server is: the URL in a `WWW-Authenticate` header, and
the metadata documents that it leads to.

A backend that answers with 401 may name its metadata document, and otherwise the document is
looked for at its origin. The documents are read with the fields that the source requires, also
those that nothing uses.
-/

namespace HeadlessMcp

open Async

/-- `str::contains`. -/
def strContains (needle s : String) : Bool :=
  s.toList.tails.any (needle.toList.isPrefixOf ·)

/-- `str::trim`. -/
def strTrim (s : List Char) : List Char :=
  ((s.dropWhile charIsWhitespace).reverse.dropWhile charIsWhitespace).reverse

/-- The URL in one part of the header. It stands between quotes, after the name of the parameter.
-/
def resourceMetadataOf (part : List Char) : Option String :=
  let key := "resource_metadata=\"".toList
  let part := strTrim part
  if key.isPrefixOf part then
    let url := part.drop key.length
    if url.getLast? = some '"' then some (String.ofList url.dropLast) else none
  else none

/-- `parse_resource_metadata_url`. -/
def parseResourceMetadataUrl (headerValue : String) : Option String :=
  if "Bearer ".toList.isPrefixOf headerValue.toList then
    ((headerValue.toList.drop 7).splitOn ',').findSome? resourceMetadataOf
  else none

/-- A list of strings that may be absent. -/
def Value.optStrings (v : Value) (key : String) : Option (Option (List String)) :=
  match v.optField key with
  | none => some none
  | some (.array xs) => (xs.mapM Value.asStr).map some
  | some _ => none

/-- `ResourceMetadata`: its authorization servers. -/
def Value.toAuthorizationServers (v : Value) : Option (Option (List String)) := do
  let _ ← (← v.get "resource").asStr
  let servers ← v.optStrings "authorization_servers"
  let _ ← v.optStrings "scopes_supported"
  let _ ← v.optStrings "bearer_methods_supported"
  let _ ← v.optString "resource_name"
  return servers

/-- `AuthServerMetadata`. -/
def Value.toAuthServerMetadata (v : Value) : Option AuthServerMetadata := do
  let _ ← (← v.get "issuer").asStr
  let authorizationEndpoint ← v.optString "authorization_endpoint"
  let tokenEndpoint ← (← v.get "token_endpoint").asStr
  let registrationEndpoint ← v.optString "registration_endpoint"
  let scopes ← v.optStrings "scopes_supported"
  let _ ← v.optStrings "response_types_supported"
  let _ ← v.optStrings "grant_types_supported"
  let methods ← v.optStrings "code_challenge_methods_supported"
  let _ ← v.optStrings "token_endpoint_auth_methods_supported"
  return ⟨authorizationEndpoint, tokenEndpoint, registrationEndpoint, scopes, methods⟩

namespace Manager

/-- A metadata document; `rejects` is the error of a document of another form. -/
def fetchMetadata {α : Type} (what url : String) (rejects : Value → String)
    (read : Value → Option α) : Prog OAuthOp (BackendResult α) := do
  match ← .perform (.getJson url) with
  | .failed e => .ret (.error (authError s!"failed to fetch {what}: {e}"))
  | .unreadable _ e => .ret (.error (authError s!"failed to parse {what}: {e}"))
  | .json _ body =>
    match read body with
    | none => .ret (.error (authError s!"failed to parse {what}: {rejects body}"))
    | some x => .ret (.ok x)

/-- The metadata URL of the authorization server. -/
def authServerUrl (discoveryUrl : String) (rejects : Value → String) :
    Prog OAuthOp (BackendResult String) :=
  if strContains "oauth-protected-resource" discoveryUrl then do
    match ← fetchMetadata "resource metadata" discoveryUrl rejects
        Value.toAuthorizationServers with
    | .error e => .ret (.error e)
    | .ok servers =>
      match servers.bind List.head? with
      | none => .ret (.error (authError "resource metadata has no authorization_servers"))
      | some url => .ret (.ok s!"{url}/.well-known/oauth-authorization-server")
  else .ret (.ok discoveryUrl)

/-- `discover`: find the authorization server and remember its metadata. A failure leaves what was
discovered before. -/
def discover (discoveryUrl : String) (rejects : Value → String) :
    Prog OAuthOp (BackendResult AuthServerMetadata) := do
  match ← authServerUrl discoveryUrl rejects with
  | .error e => .ret (.error e)
  | .ok url =>
    match ← fetchMetadata "auth server metadata" url rejects Value.toAuthServerMetadata with
    | .error e => .ret (.error e)
    | .ok discovered =>
      .perform (.writeDiscovered discovered)
      .ret (.ok discovered)

end Manager

end HeadlessMcp
