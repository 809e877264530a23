import HeadlessMcp.OAuth2.Locked

/-!
# The lock discipline of the calls

What each method of the manager does to the refresh lock and to the tokens: some
methods touch neither (`_quiet`), the others run inside and do not touch the lock
(`_free`), and the two calls take the lock and give it back on every way out
(`balanced_call`), so that no pool of calls can deadlock.

Most methods also do without the user (`_unattended`). Only `do_authorization_code` asks for
one, and only `get_token` out of daemon mode gets there.
-/

namespace HeadlessMcp

open Async

variable {m : Manager}

/-! ## What needs the user -/

namespace OAuthOp

variable {β : Type}

/-- `o` belongs to the interactive grant alone. These are the ones that wait for a browser or for
a line of input. -/
def Interactive : OAuthOp β → Prop
  | .randomVerifier | .openBrowser _ | .receiveCallback _ | .answerCallback | .readInput => True
  | _ => False

/-- `o` looks at the tokens at most, and needs no user. -/
def Looks (o : OAuthOp β) : Prop := o.Quiet ∧ ¬ o.Interactive

/-- `o` does not touch the refresh lock, and needs no user. -/
def Unattended (o : OAuthOp β) : Prop := o.Free ∧ ¬ o.Interactive

end OAuthOp

variable {α : Type} {p : Prog OAuthOp α}

theorem quiet_of_looks (h : p.Uses OAuthOp.Looks) : p.Uses OAuthOp.Quiet := h.mono fun _ ho => ho.1

theorem unattended_of_looks (h : p.Uses OAuthOp.Looks) : p.Uses OAuthOp.Unattended :=
  h.mono fun _ ho => ⟨ho.1.free, ho.2⟩

theorem free_of_unattended (h : p.Uses OAuthOp.Unattended) : p.Uses OAuthOp.Free :=
  h.mono fun _ ho => ho.1

theorem free_of_quiet (h : p.Uses OAuthOp.Quiet) : p.Uses OAuthOp.Free :=
  h.mono fun _ => OAuthOp.Quiet.free

/-! ## Methods that do not touch the tokens -/

theorem resolveTokenEndpoint_looks : m.resolveTokenEndpoint.Uses OAuthOp.Looks := by
  have discovered {found : Option AuthServerMetadata → Prog OAuthOp (BackendResult String)}
      (hfound : ∀ d, (found d).Uses OAuthOp.Looks) :
      (Prog.op .readDiscovered found).Uses OAuthOp.Looks := ⟨⟨trivial, id⟩, hfound⟩
  unfold Manager.resolveTokenEndpoint
  split
  · split
    · trivial
    · exact discovered fun d => by cases d <;> trivial
  · exact discovered fun d => by cases d <;> trivial

theorem currentClientId_looks : m.currentClientId.Uses OAuthOp.Looks := by
  unfold Manager.currentClientId
  split
  · trivial
  · exact ⟨⟨trivial, id⟩, fun _ => trivial⟩

theorem registerClient_looks : m.registerClient.Uses OAuthOp.Looks := by
  unfold Manager.registerClient
  refine ⟨⟨trivial, id⟩, fun d => ?_⟩
  simp only [Prog.ret_bind]
  split
  · trivial
  · refine ⟨⟨trivial, id⟩, fun reply => ?_⟩
    simp only [Prog.ret_bind]
    split
    · trivial
    · trivial
    · split
      · split <;> trivial
      · trivial

theorem resolveTokenEndpoint_quiet : m.resolveTokenEndpoint.Uses OAuthOp.Quiet :=
  quiet_of_looks resolveTokenEndpoint_looks

theorem currentClientId_quiet : m.currentClientId.Uses OAuthOp.Quiet :=
  quiet_of_looks currentClientId_looks

theorem registerClient_quiet : m.registerClient.Uses OAuthOp.Quiet :=
  quiet_of_looks registerClient_looks

theorem obtainCode_quiet {authUrl : String} : (m.obtainCode authUrl).Uses OAuthOp.Quiet := by
  unfold Manager.obtainCode
  refine ⟨trivial, fun opened => ?_⟩
  simp only [Prog.ret_bind]
  -- a browser could be opened, so the callback is awaited; or the user pastes the code
  split
  · refine ⟨trivial, fun r => ?_⟩
    simp only [Prog.ret_bind]
    split
    · trivial
    · split
      · trivial
      · refine ⟨trivial, fun a => ?_⟩
        simp only [Prog.ret_bind]
        split <;> trivial
  · refine ⟨trivial, fun r => ?_⟩
    simp only [Prog.ret_bind]
    split
    · trivial
    · split <;> trivial

/-! ## Methods that run inside -/

theorem setDynamicClientId_unattended {clientId : String} :
    (Manager.setDynamicClientId clientId).Uses OAuthOp.Unattended :=
  ⟨⟨⟨id, id⟩, id⟩, fun _ => trivial⟩

theorem installPersisted_unattended {t : PersistedToken} : (m.installPersisted t).Uses OAuthOp.Unattended := by
  refine ⟨⟨⟨id, id⟩, id⟩, fun now => ⟨⟨⟨id, id⟩, id⟩, fun entry => ?_⟩⟩
  cases entry <;> trivial

theorem cacheTokenResponse_unattended {body : Value} {backendId : String} :
    (m.cacheTokenResponse body backendId).Uses OAuthOp.Unattended := by
  unfold Manager.cacheTokenResponse
  -- the branches are those of the method: no token, a lifetime too long, an entry to write through
  split
  · trivial
  · refine ⟨⟨⟨id, id⟩, id⟩, fun now => ?_⟩
    simp only [Prog.ret_bind]
    split
    · trivial
    · refine ⟨⟨⟨id, id⟩, id⟩, fun entry => ?_⟩
      cases entry with
      | none => trivial
      | some entry =>
        simp only [Prog.ret_bind]
        split
        · exact ⟨⟨⟨id, id⟩, id⟩, fun _ => ⟨⟨⟨id, id⟩, id⟩, fun _ => trivial⟩⟩
        · trivial

theorem tokenAnswer_unattended {reply : JsonReply} {sendFailed backendId : String} :
    (m.tokenAnswer reply sendFailed backendId).Uses OAuthOp.Unattended := by
  unfold Manager.tokenAnswer
  split
  · trivial
  · trivial
  · split
    · exact cacheTokenResponse_unattended
    · trivial

theorem doRefresh_unattended {refreshToken backendId : String} :
    (m.doRefresh refreshToken backendId).Uses OAuthOp.Unattended := by
  refine (unattended_of_looks resolveTokenEndpoint_looks).bind fun endpoint => ?_
  split
  · trivial
  · refine (unattended_of_looks currentClientId_looks).bind fun clientId => ⟨⟨⟨id, id⟩, id⟩, fun reply => ?_⟩
    simp only [Prog.ret_bind]
    split
    · trivial
    · trivial
    · split
      · exact cacheTokenResponse_unattended.bind fun r => by cases r <;> trivial
      · trivial

theorem retryWithStored_unattended {rejected backendId : String} :
    (m.retryWithStored rejected backendId).Uses OAuthOp.Unattended := by
  unfold Manager.retryWithStored
  -- no store; nothing in it; nothing newer; still valid; or a refresh token to present
  split
  · trivial
  · refine ⟨⟨⟨id, id⟩, id⟩, fun stored => ?_⟩
    simp only [Prog.ret_bind]
    split
    · trivial
    · split
      · trivial
      · refine installPersisted_unattended.bind fun _ => ⟨⟨⟨id, id⟩, id⟩, fun now => ?_⟩
        simp only [Prog.ret_bind]
        split
        · trivial
        · split
          · trivial
          · exact doRefresh_unattended.bind fun r => by cases r <;> trivial

theorem clientCredentials_unattended : m.clientCredentials.Uses OAuthOp.Unattended := by
  unfold Manager.clientCredentials
  split
  · trivial
  · trivial
  · refine ⟨⟨⟨id, id⟩, id⟩, fun d => ?_⟩
    simp only [Prog.ret_bind]
    split
    · trivial
    · refine (unattended_of_looks registerClient_looks).bind fun reg => ?_
      split
      · trivial
      · exact setDynamicClientId_unattended.bind fun _ => trivial

theorem authorizationClientId_unattended : m.authorizationClientId.Uses OAuthOp.Unattended := by
  unfold Manager.authorizationClientId
  split
  · trivial
  · refine ⟨⟨⟨id, id⟩, id⟩, fun d => ?_⟩
    simp only [Prog.ret_bind]
    split
    · trivial
    · refine (unattended_of_looks registerClient_looks).bind fun reg => ?_
      split
      · trivial
      · exact setDynamicClientId_unattended.bind fun _ => trivial

theorem doClientCredentials_unattended {endpoint backendId : String} :
    (m.doClientCredentials endpoint backendId).Uses OAuthOp.Unattended := by
  refine clientCredentials_unattended.bind fun client => ?_
  split
  · trivial
  · exact ⟨⟨⟨id, id⟩, id⟩, fun _ => tokenAnswer_unattended⟩

theorem doAuthorizationCode_free {endpoint backendId : String} :
    (m.doAuthorizationCode endpoint backendId).Uses OAuthOp.Free := by
  have exchange {authUrl clientId redirectUri codeVerifier : String}
      {present : BackendResult String → Prog OAuthOp (BackendResult String)}
      (herror : ∀ e, present (.error e) = .ret (.error e))
      (hok : ∀ code, present (.ok code) = .op (.postToken endpoint
        (.authorizationCode clientId code redirectUri codeVerifier)) fun reply =>
          m.tokenAnswer reply "token request failed" backendId) :
      ((m.obtainCode authUrl).bind present).Uses OAuthOp.Free := by
    refine (free_of_quiet obtainCode_quiet).bind fun code => ?_
    cases code with
    | error e =>
      rw [herror]
      trivial
    | ok code =>
      rw [hok]
      exact ⟨⟨id, id⟩, fun _ => free_of_unattended tokenAnswer_unattended⟩
  refine ⟨⟨id, id⟩, fun _ => ⟨⟨id, id⟩, fun _ => (free_of_unattended authorizationClientId_unattended).bind fun client => ?_⟩⟩
  split
  · trivial
  · refine ⟨⟨id, id⟩, fun _ => ?_⟩
    simp only [Prog.bind_eq, Prog.ret_bind, Prog.perform_bind]
    split
    · exact exchange (fun _ => rfl) fun _ => rfl
    · exact ⟨⟨id, id⟩, fun _ => exchange (fun _ => rfl) fun _ => rfl⟩

theorem getTokenRefresh_unattended {backendId : String} {daemonMode : Bool} :
    (m.getTokenRefresh backendId daemonMode).Uses OAuthOp.Unattended := by
  have finish {message : String} :
      (if daemonMode then .ret (some (.error (authError message))) else .ret none
        : Prog OAuthOp (Option (BackendResult String))).Uses OAuthOp.Unattended := by
    cases daemonMode <;> trivial
  refine ⟨⟨⟨id, id⟩, id⟩, fun r => ?_⟩
  simp only [Prog.ret_bind]
  -- nothing cached; usable; no refresh token; or a refresh, and what its failure leads to
  split
  · trivial
  · split
    · trivial
    · split
      · trivial
      · refine doRefresh_unattended.bind fun result => ?_
        split
        · trivial
        · simp only [Prog.bind_eq, Prog.ret_bind]
          split
          · refine retryWithStored_unattended.bind fun retried => ?_
            cases retried with
            | some token => trivial
            | none => exact finish
          · exact finish

theorem getTokenAcquire_free {backendId : String} {daemonMode : Bool} :
    (m.getTokenAcquire backendId daemonMode).Uses OAuthOp.Free := by
  refine ⟨⟨id, id⟩, fun r => ?_⟩
  simp only [Prog.ret_bind]
  split
  · trivial
  · refine (free_of_quiet resolveTokenEndpoint_quiet).bind fun endpoint => ?_
    split
    · trivial
    · split
      · exact free_of_unattended doClientCredentials_unattended
      · split
        · trivial
        · exact doAuthorizationCode_free
      · trivial
      · trivial

/-- In daemon mode the acquisition needs no user, and neither does it with another grant. -/
theorem getTokenAcquire_unattended {backendId : String} {daemonMode : Bool}
    (h : daemonMode = true ∨ m.resolveGrantType ≠ "authorization_code") :
    (m.getTokenAcquire backendId daemonMode).Uses OAuthOp.Unattended := by
  refine ⟨⟨⟨id, id⟩, id⟩, fun r => ?_⟩
  simp only [Prog.ret_bind]
  split
  · trivial
  · refine (unattended_of_looks resolveTokenEndpoint_looks).bind fun endpoint => ?_
    split
    · trivial
    · split
      · exact doClientCredentials_unattended
      · rename_i hgrant
        obtain rfl : daemonMode = true := h.resolve_right fun hother => hother hgrant
        trivial
      · trivial
      · trivial

/-! ## The calls -/

/-- A block under the refresh lock gives it back. The body is free to return, to fail or to panic:
the guard is dropped on every way out. -/
theorem balanced_locked {α : Type} {p : Prog OAuthOp α} (hp : p.Uses OAuthOp.Free) :
    (Prog.withLock .lockRefresh .unlockRefresh p).Balanced OAuthOp.Acquires OAuthOp.Releases
      false :=
  Prog.balanced_withLock trivial id trivial hp

/-- A look at the cache from outside. -/
theorem balanced_readCache {α : Type} {k : Instant × Option TokenCache → Prog OAuthOp α}
    (hk : ∀ r, (k r).Balanced OAuthOp.Acquires OAuthOp.Releases false) :
    (Prog.op .readCache k).Balanced OAuthOp.Acquires OAuthOp.Releases false :=
  .inr (.inr ⟨id, id, hk⟩)

theorem balanced_getToken {backendId : String} {daemonMode : Bool} :
    (m.getToken backendId daemonMode).Balanced OAuthOp.Acquires OAuthOp.Releases false := by
  have acquire := balanced_locked (@getTokenAcquire_free m backendId daemonMode)
  refine balanced_readCache fun r => ?_
  simp only [Prog.ret_bind]
  -- the lock is taken at most twice, once for the refresh and once for the acquisition
  split
  · exact acquire
  · split
    · rfl
    · split
      · refine (balanced_locked (free_of_unattended getTokenRefresh_unattended)).bind fun result => ?_
        split
        · rfl
        · exact acquire
      · split
        · rfl
        · exact acquire

/-- Adopting a stored token is a block under the refresh lock, where there is a store. -/
theorem adoptPersisted_eq {backendId : String} :
    m.adoptPersisted backendId = .ret none ∨ ∃ body : Prog OAuthOp (Option String),
      body.Uses OAuthOp.Unattended ∧
        m.adoptPersisted backendId = Prog.withLock .lockRefresh .unlockRefresh body := by
  unfold Manager.adoptPersisted
  split
  · exact .inl rfl
  · refine .inr ⟨_, ?_, rfl⟩
    refine ⟨⟨⟨id, id⟩, id⟩, fun r => ?_⟩
    simp only [Prog.ret_bind]
    split
    · trivial
    · refine ⟨⟨⟨id, id⟩, id⟩, fun stored => ?_⟩
      simp only [Prog.ret_bind]
      split
      · trivial
      · refine ⟨⟨⟨id, id⟩, id⟩, fun now => ?_⟩
        simp only [Prog.ret_bind]
        split
        · trivial
        · exact installPersisted_unattended.bind fun _ => ⟨⟨⟨id, id⟩, id⟩, fun _ => trivial⟩

theorem balanced_adoptPersisted {backendId : String} :
    (m.adoptPersisted backendId).Balanced OAuthOp.Acquires OAuthOp.Releases false := by
  rcases @adoptPersisted_eq m backendId with heq | ⟨body, hbody, heq⟩ <;> rw [heq]
  · rfl
  · exact balanced_locked (free_of_unattended hbody)

/-- Every call takes and drops the refresh lock in turn. So in a pool of calls nobody waits for
the lock for ever. -/
theorem balanced_call {call : Manager.Call} :
    (m.call call).Balanced OAuthOp.Acquires OAuthOp.Releases false := by
  cases call with
  | getToken backendId daemonMode => exact balanced_getToken.bind fun _ => rfl
  | adoptPersisted backendId => exact balanced_adoptPersisted.bind fun _ => rfl

/-! ## The calls and the user -/

/-- `o` needs no user. -/
abbrev OAuthOp.Alone {β : Type} (o : OAuthOp β) : Prop := ¬ o.Interactive

theorem alone_of_unattended (h : p.Uses OAuthOp.Unattended) : p.Uses OAuthOp.Alone :=
  h.mono fun _ ho => ho.2

/-- A block under the refresh lock needs no user. -/
theorem alone_locked (h : p.Uses OAuthOp.Unattended) :
    (Prog.withLock .lockRefresh .unlockRefresh p).Uses OAuthOp.Alone :=
  ⟨id, fun _ => (alone_of_unattended h).andFinally id⟩

/-- **`get_token` needs no user in daemon mode**, nor with another grant. -/
theorem alone_getToken {backendId : String} {daemonMode : Bool}
    (h : daemonMode = true ∨ m.resolveGrantType ≠ "authorization_code") :
    (m.getToken backendId daemonMode).Uses OAuthOp.Alone := by
  have acquire : (Prog.withLock .lockRefresh .unlockRefresh
      (m.getTokenAcquire backendId daemonMode)).Uses OAuthOp.Alone :=
    alone_locked (getTokenAcquire_unattended h)
  refine ⟨id, fun r => ?_⟩
  simp only [Prog.ret_bind]
  -- the look at the cache decides whether anything is done under the lock
  split
  · exact acquire
  · split
    · trivial
    · split
      · refine (alone_locked getTokenRefresh_unattended).bind fun result => ?_
        split
        · trivial
        · exact acquire
      · split
        · trivial
        · exact acquire

theorem alone_adoptPersisted {backendId : String} :
    (m.adoptPersisted backendId).Uses OAuthOp.Alone := by
  rcases @adoptPersisted_eq m backendId with heq | ⟨body, hbody, heq⟩ <;> rw [heq]
  · trivial
  · exact alone_locked hbody

end HeadlessMcp
