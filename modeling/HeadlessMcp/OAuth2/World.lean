import HeadlessMcp.Async.Machine
import HeadlessMcp.OAuth2.Manager
import Mathlib

/-!
# The world of a token manager

The state that the tasks of one manager share, with the record of everything sent
to the token endpoint, and what each operation does to it. The environment chooses
the clock readings (the monotonic clock never goes back), every answer of the
provider, and whether a read or a write of the store succeeds.
-/

namespace HeadlessMcp

open Async

/-- The shared state of one token manager, and what its surroundings have seen. -/
structure OAuthWorld (ι : Type) : Type where
  /-- the task that holds the refresh lock -/
  refreshHolder : Option ι
  /-- the cached token -/
  cache : Option TokenCache
  /-- discovered metadata -/
  discovered : Option AuthServerMetadata
  /-- the last reading of the monotonic clock -/
  instant : Instant
  /-- the encrypted store -/
  store : String → Option PersistedToken
  /-- every form posted to the token endpoint with its answer, newest first -/
  exchanges : List (TokenForm × JsonReply)
  /-- every URL the browser was sent to, newest first -/
  browser : List String

/-- What the environment chooses in one step. One record serves all operations: each of them looks
only at the fields that it needs. -/
structure OAuthChoice : Type where
  /-- the monotonic clock -/
  instant : Instant := 0
  /-- the wall clock, in seconds -/
  unix : Nat := 0
  /-- the answer to a request -/
  reply : JsonReply := .failed ""
  /-- the store works; the browser opens -/
  flag : Bool := true
  /-- a line of input, a random verifier -/
  text : String := ""
  /-- reading input or talking to the browser fails -/
  fault : Option BackendError := none

namespace OAuthWorld

variable {ι : Type}

/-- The choice's line of text, or its fault. -/
def input (e : OAuthChoice) : BackendResult String :=
  match e.fault with
  | none => .ok e.text
  | some err => .error err

/-- Move the clock to the choice's reading; it cannot go back. -/
def tick (s : OAuthWorld ι) (e : OAuthChoice) : Option (OAuthWorld ι) :=
  if s.instant ≤ e.instant then some { s with instant := e.instant } else none

/-- What each operation does. Only the refresh lock makes a task wait; a critical section of the
cache is one step. -/
def exec (i : ι) : (β : Type) → OAuthOp β → OAuthChoice → OAuthWorld ι →
    Option (β × OAuthWorld ι)
  | _, .lockRefresh, _, s =>
    match s.refreshHolder with
    | none => some ((), { s with refreshHolder := some i })
    | some _ => none
  | _, .unlockRefresh, _, s => some ((), { s with refreshHolder := none })
  | _, .readCache, e, s => (s.tick e).map fun s => ((s.instant, s.cache), s)
  | _, .updateCache f, e, s => (s.tick e).map fun s =>
    match f s.instant s.cache with
    | some c => (some c, { s with cache := some c })
    | none => (none, s)
  | _, .instantNow, e, s => (s.tick e).map fun s => (s.instant, s)
  | _, .unixNow, e, s => some (e.unix, s)
  | _, .readDiscovered, _, s => some (s.discovered, s)
  | _, .writeDiscovered d, _, s => some ((), { s with discovered := some d })
  | _, .getJson _, e, s => some (e.reply, s)
  | _, .postToken _ form, e, s =>
    some (e.reply, { s with exchanges := (form, e.reply) :: s.exchanges })
  | _, .postRegistration _ _, e, s => some (e.reply, s)
  | _, .randomVerifier, e, s => some (e.text, s)
  | _, .openBrowser url, e, s => some (e.flag, { s with browser := url :: s.browser })
  | _, .receiveCallback _, e, s => some (input e, s)
  | _, .answerCallback, e, s => some ((input e).map fun _ => (), s)
  | _, .readInput, e, s => some (input e, s)
  | _, .loadToken key, e, s => some (if e.flag then s.store key else none, s)
  | _, .storeToken key t, e, s =>
    some ((), { s with store := if e.flag then Function.update s.store key (some t) else s.store })

/-- Inversion for `tick`. -/
theorem tick_eq_some {s t : OAuthWorld ι} {e : OAuthChoice} (h : s.tick e = some t) :
    s.instant ≤ e.instant ∧ t = { s with instant := e.instant } := by
  unfold tick at h
  split at h
  · exact ⟨‹_›, (Option.some.inj h).symm⟩
  · cases h

end OAuthWorld

/-- The body of an accepted request. -/
def JsonReply.accepted : JsonReply → Option Value
  | .json status body => if isSuccess status then some body else none
  | _ => none

/-- The refresh token that a request presents. Presenting one is what a provider that rotates its
tokens reacts to. -/
def presentedBy : TokenForm × JsonReply → Option String
  | (.refresh refreshToken _ _, _) => some refreshToken
  | _ => none

/-- A token endpoint is configured, or was discovered. -/
def EndpointKnown (m : Manager) (discovered : Option AuthServerMetadata) : Prop :=
  (∃ endpoint, m.config.tokenEndpoint = some endpoint ∧ endpoint ≠ "") ∨ discovered.isSome

/-- The machine of the token manager's tasks. -/
def oauthMachine (ι : Type) : Machine OAuthOp ι OAuthChoice (OAuthWorld ι) :=
  ⟨OAuthWorld.exec⟩

/-! ## The clock-reading operations -/

section

variable {ι : Type} {i : ι} {e : OAuthChoice} {s t : OAuthWorld ι}

theorem exec_readCache {b : Instant × Option TokenCache}
    (h : (oauthMachine ι).exec i _ .readCache e s = some (b, t)) :
    s.instant ≤ e.instant ∧ b = (e.instant, s.cache) ∧ t = { s with instant := e.instant } := by
  simp only [oauthMachine, OAuthWorld.exec, Option.map_eq_some_iff] at h
  obtain ⟨u, hu, heq⟩ := h
  obtain ⟨hle, rfl⟩ := OAuthWorld.tick_eq_some hu
  obtain ⟨rfl, rfl⟩ := Prod.mk.inj heq
  exact ⟨hle, rfl, rfl⟩

theorem exec_instantNow {b : Instant}
    (h : (oauthMachine ι).exec i _ .instantNow e s = some (b, t)) :
    s.instant ≤ e.instant ∧ b = e.instant ∧ t = { s with instant := e.instant } := by
  simp only [oauthMachine, OAuthWorld.exec, Option.map_eq_some_iff] at h
  obtain ⟨u, hu, heq⟩ := h
  obtain ⟨hle, rfl⟩ := OAuthWorld.tick_eq_some hu
  obtain ⟨rfl, rfl⟩ := Prod.mk.inj heq
  exact ⟨hle, rfl, rfl⟩

theorem exec_updateCache {f : Instant → Option TokenCache → Option TokenCache}
    {b : Option TokenCache}
    (h : (oauthMachine ι).exec i _ (.updateCache f) e s = some (b, t)) :
    s.instant ≤ e.instant ∧ b = f e.instant s.cache ∧
      t = { s with instant := e.instant, cache := b <|> s.cache } := by
  simp only [oauthMachine, OAuthWorld.exec, Option.map_eq_some_iff] at h
  obtain ⟨u, hu, heq⟩ := h
  obtain ⟨hle, rfl⟩ := OAuthWorld.tick_eq_some hu
  split at heq
  · rename_i c hc
    obtain ⟨rfl, rfl⟩ := Prod.mk.inj heq
    exact ⟨hle, hc.symm, rfl⟩
  · rename_i hc
    obtain ⟨rfl, rfl⟩ := Prod.mk.inj heq
    exact ⟨hle, hc.symm, rfl⟩

end

/-! ## A sample backend -/

/-- A backend with an interactive grant and an encrypted store. -/
def interactive : Manager where
  config :=
    { tokenEndpoint := some "https://idp.test/token"
      clientId := some "client"
      clientSecret := none
      scopes := none
      grantType := "authorization_code"
      callbackPort := 9798 }
  hasStore := true
  s256 := id

/-- A token response that rotates the refresh token. -/
def rotatedToken (accessToken refreshToken : String) : Value :=
  .object
    [("access_token", .string accessToken), ("refresh_token", .string refreshToken),
      ("expires_in", .number (.int 3600))]

end HeadlessMcp
