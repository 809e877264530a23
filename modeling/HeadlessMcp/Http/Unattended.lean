import HeadlessMcp.Async.Contract
import HeadlessMcp.Async.Angelic
import HeadlessMcp.Http.World
import HeadlessMcp.OAuth2.Discipline

/-!
# HTTP backends and the user

A 401 makes a backend ask its token manager for a token, and out of daemon mode the token manager
may ask the user. No method does so where the backend is in daemon mode, where its grant is not the
interactive one, or where no request is ever answered (`alone_run`). In every other backend already
the connection can lead to the browser (`can_connect`).
-/

namespace HeadlessMcp

open Async

/-! ## Without the user -/

/-- `o` belongs to the interactive grant alone. -/
def HttpOp.Interactive {β : Type} : HttpOp β → Prop
  | .oauth o => o.Interactive
  | _ => False

/-- A request is not answered. A request may still fail in any way that needs no answer. -/
def HttpOp.Unanswered : {β : Type} → HttpOp β → β → Prop
  | _, .post _, .response _ _ _ => False
  | _, _, _ => True

/-- Nothing interactive is done, where no request is answered unless one can be sent. -/
def aloneContract (postable : Bool) : Contract HttpOp Unit where
  next _ _ u := u
  inOrder o _ := ¬ o.Interactive
  admits o b _ := postable = false → o.Unanswered b

/-- The program does nothing interactive. It does so where no answer tells it that a user is
needed. -/
def Alone (postable : Bool) {α : Type} (p : Prog HttpOp α) : Prop :=
  p.Fulfils (aloneContract postable) (fun _ _ => True) ()

/-- The backend is in daemon mode, or no request can be sent to it, or its grant is not the
interactive one. -/
def HttpBackend.Unattended (b : HttpBackend) (postable : Bool) : Prop :=
  b.daemonMode = true ∨ postable = false ∨
    ∀ m ∈ b.manager, m.resolveGrantType ≠ "authorization_code"

section Walk

variable {postable : Bool} {b : HttpBackend} {α β : Type} {p : Prog HttpOp α}
  {message : JsonRpcMessage} {extraHeaders : Entries String} {sessionId : Option String}
  {method : String} {params : Option Value} {retry : Bool}

theorem alone_of_uses (hp : p.Uses fun o => ¬ o.Interactive) : Alone postable p :=
  Prog.Fulfils.of_uses (J := fun _ => True) (fun _ _ ho _ => ⟨ho, fun _ => trivial⟩) hp trivial

theorem alone_bind {f : α → Prog HttpOp β} (hp : Alone postable p)
    (hf : ∀ a, Alone postable (f a)) : Alone postable (p.bind f) :=
  Prog.Fulfils.bind (hp.mono fun a _ _ => hf a)

theorem alone_op {o : HttpOp α} {k : α → Prog HttpOp β} (ho : ¬ o.Interactive)
    (hk : ∀ a, Alone postable (k a)) : Alone postable (.op o k) :=
  ⟨ho, fun a _ => hk a⟩

theorem alone_oauthDo {p : Prog OAuthOp α} (hp : p.Uses OAuthOp.Alone) :
    Alone postable (oauthDo p) :=
  alone_of_uses (Prog.Uses.lift (hp.mono fun _ ho => ho))

theorem alone_fetchMetadata {what url : String} {rejects : Value → String}
    {read : Value → Option α} : (Manager.fetchMetadata what url rejects read).Uses OAuthOp.Alone := by
  refine ⟨id, fun reply => ?_⟩
  rcases reply with e | ⟨status, e⟩ | ⟨status, body⟩
  · trivial
  · trivial
  · simp only [Prog.ret_bind]
    split <;> trivial

theorem alone_discover {url : String} {rejects : Value → String} :
    (Manager.discover url rejects).Uses OAuthOp.Alone := by
  have hurl : (Manager.authServerUrl url rejects).Uses OAuthOp.Alone := by
    unfold Manager.authServerUrl
    split
    · refine alone_fetchMetadata.bind fun servers => ?_
      split
      · trivial
      · split <;> trivial
    · trivial
  refine hurl.bind fun url => ?_
  split
  · trivial
  · refine alone_fetchMetadata.bind fun discovered => ?_
    split
    · trivial
    · exact ⟨id, fun _ => trivial⟩

theorem alone_discoverOn {status : Nat} {headers : Entries String} :
    Alone postable (b.discoverOn status headers) := by
  unfold HttpBackend.discoverOn
  split
  · split
    · exact alone_bind (alone_oauthDo alone_discover) fun _ => trivial
    · trivial
  · trivial

/-- A request has a reply only where one can be sent. -/
theorem alone_postJson :
    (b.postJson message extraHeaders sessionId).Fulfils (aloneContract postable)
      (fun reply _ => postable = true ∨ ∃ e, reply = .error e) () := by
  simp only [HttpBackend.postJson, Prog.bind_eq, Prog.perform_bind]
  refine ⟨id, fun bearer _ => ⟨id, fun reply hreply => ?_⟩⟩
  rcases reply with ⟨timeout, e⟩ | ⟨status, headers, body⟩
  · exact .inr ⟨_, rfl⟩
  · have hpostable : postable = true := by
      cases postable with
      | true => rfl
      | false => exact (hreply rfl).elim
    refine Prog.Fulfils.bind (alone_discoverOn.mono fun _ _ _ => ?_)
    rcases body with e | body <;> exact .inl hpostable

theorem alone_captureSession {headers : Entries String} :
    Alone postable (HttpBackend.captureSession headers) := by
  unfold HttpBackend.captureSession
  split
  · exact alone_op id fun _ => trivial
  · trivial

theorem alone_retryWith {token : String} :
    Alone postable (b.retryWith message extraHeaders sessionId token) := by
  simp only [HttpBackend.retryWith, Prog.bind_eq, Prog.perform_bind]
  refine alone_op id fun _ => Prog.Fulfils.bind (alone_postJson.mono fun reply _ _ => ?_)
  rcases reply with e | ⟨body, status, headers⟩
  · trivial
  · refine alone_bind alone_captureSession fun _ => ?_
    split
    · split <;> trivial
    · trivial

/-- The token manager is asked where a request has been answered. -/
theorem alone_exchange (h : b.Unattended postable) :
    Alone postable (b.exchange message extraHeaders sessionId retry) := by
  refine Prog.Fulfils.bind (alone_postJson.mono fun reply _ hreply => ?_)
  rcases reply with e | ⟨body, status, headers⟩
  · trivial
  have hpostable : postable = true := hreply.resolve_right nofun
  refine alone_bind alone_captureSession fun _ => ?_
  rcases hmanager : b.manager with _ | manager
  · trivial
  dsimp only
  split
  · have htoken : (manager.getToken b.id b.daemonMode).Uses OAuthOp.Alone := by
      refine alone_getToken (h.imp_right fun hother => ?_)
      rcases hother with hunreachable | hgrant
      · rw [hpostable] at hunreachable
        cases hunreachable
      · exact hgrant manager hmanager
    refine alone_bind (alone_oauthDo htoken) fun result => ?_
    rcases result with e | token
    · trivial
    · exact alone_retryWith
  · trivial

theorem alone_sendRequestInner (h : b.Unattended postable) :
    Alone postable (b.sendRequestInner method params retry) := by
  have hannotations : Alone postable (HttpBackend.annotations method params) := by
    unfold HttpBackend.annotations
    split
    · exact alone_op id fun _ => trivial
    · trivial
  have hextra : Alone postable (HttpBackend.extraHeaders method params) := by
    refine alone_bind hannotations fun known => ?_
    split <;> trivial
  simp only [HttpBackend.sendRequestInner, Prog.bind_eq, Prog.perform_bind]
  exact alone_op id fun _ => alone_bind hextra fun _ => alone_op id fun _ => alone_exchange h

theorem alone_sendNotification : Alone postable (b.sendNotification method params) := by
  simp only [HttpBackend.sendNotification, Prog.bind_eq, Prog.perform_bind]
  refine alone_op id fun bearer => alone_op id fun sessionId => alone_op id fun reply => ?_
  rcases reply with ⟨timeout, e⟩ | ⟨status, headers, body⟩
  · trivial
  · dsimp only
    split <;> trivial

theorem alone_handshake (h : b.Unattended postable) : Alone postable b.handshake := by
  refine alone_bind (alone_sendRequestInner h) fun reply => ?_
  rcases reply with failure | result
  · trivial
  · dsimp only
    split
    · trivial
    · exact alone_bind alone_sendNotification fun _ => trivial

theorem alone_reinit (h : b.Unattended postable) {seenEpoch : Nat} :
    Alone postable (b.reinitialize seenEpoch) := by
  refine alone_op id fun _ => Prog.Fulfils.andFinally (Prog.Fulfils.mono
    (Q := fun _ _ => True) ?_ fun _ _ _ _ => trivial) fun _ => id
  simp only [HttpBackend.reinitializeOnce, Prog.bind_eq, Prog.perform_bind]
  refine alone_op id fun epoch => ?_
  split
  · trivial
  · refine alone_op id fun stale => alone_bind (alone_handshake h) fun outcome =>
      alone_op id fun _ => ?_
    rcases outcome with e | init
    · exact alone_op id fun _ => trivial
    · exact alone_op id fun _ => alone_op id fun _ => trivial

theorem alone_sendRequest (h : b.Unattended postable) :
    Alone postable (b.sendRequest method params retry) := by
  simp only [HttpBackend.sendRequest, Prog.bind_eq, Prog.perform_bind]
  refine alone_op id fun epoch => alone_bind (alone_sendRequestInner h) fun reply => ?_
  rcases reply with failure | value
  · dsimp only
    split
    · trivial
    · refine alone_bind (alone_reinit h) fun again => ?_
      rcases again with e | _
      · trivial
      · exact alone_bind (alone_sendRequestInner h) fun _ => trivial
  · trivial

theorem alone_connect (h : b.Unattended postable) : Alone postable b.connect := by
  simp only [HttpBackend.connect, Prog.bind_eq, Prog.perform_bind]
  have hadopt : Alone postable b.adoptToken := by
    unfold HttpBackend.adoptToken
    split
    · trivial
    · refine alone_bind (alone_oauthDo alone_adoptPersisted) fun token => ?_
      rcases token with _ | token
      · trivial
      · exact alone_op id fun _ => trivial
  refine alone_op id fun needed => ?_
  cases needed with
  | true =>
    refine alone_bind hadopt fun _ => alone_bind (alone_handshake h) fun reply => ?_
    rcases reply with e | init
    · trivial
    · exact alone_op id fun _ => alone_op id fun _ => trivial
  | false =>
    refine alone_op id fun init => ?_
    rcases init with _ | init <;> trivial

/-- A method that checks the connection first. -/
theorem alone_checked {k : Prog HttpOp (BackendResult α)} (hk : Alone postable k) :
    Alone postable (b.checkConnected.bind fun
      | .error e => .ret (.error e)
      | .ok () => k) := by
  simp only [HttpBackend.checkConnected, Prog.bind_eq, Prog.perform_bind]
  refine alone_op id fun connected => ?_
  cases connected with
  | true => exact hk
  | false => trivial

/-- **No method needs the user**, where the backend is in daemon mode, cannot be reached or has
another grant. -/
theorem alone_run (h : b.Unattended postable) (op : McpOp α) : Alone postable (b.run op) := by
  cases op with
  | connect => exact alone_connect h
  | disconnect => exact alone_op id fun _ => trivial
  | takeToolsRefresh => exact alone_op id fun _ => trivial
  | callTool name arguments timeoutSecs => exact alone_checked (alone_sendRequest h)
  | request method params timeoutSecs => exact alone_checked (alone_sendRequest h)
  | healthCheck =>
    refine alone_checked (alone_bind (alone_sendRequest h) fun reply => ?_)
    rcases reply with e | _ <;> trivial
  | listTools =>
    refine alone_checked (alone_bind (alone_sendRequest h) fun reply => ?_)
    rcases reply with e | result
    · trivial
    dsimp only
    split
    · trivial
    · split
      · trivial
      · exact alone_op id fun _ => trivial

end Walk

/-! ## To the browser -/

/-- `o` opens the browser. -/
def OAuthOp.Opens {β : Type} : OAuthOp β → Prop
  | .openBrowser _ => True
  | _ => False

/-- `o` opens the browser. -/
def HttpOp.Opens {β : Type} : HttpOp β → Prop
  | .oauth o => o.Opens
  | _ => False

theorem HttpOp.Opens.interactive {β : Type} {o : HttpOp β} (h : o.Opens) : o.Interactive := by
  cases o with
  | oauth o => cases o <;> first | exact trivial | exact h.elim
  | _ => exact h.elim

/-- The metadata of an authorization server that registers clients. -/
def sampleServer : AuthServerMetadata where
  authorizationEndpoint := some "https://idp.test/authorize"
  tokenEndpoint := "https://idp.test/token"
  registrationEndpoint := some "https://idp.test/register"
  scopesSupported := none
  codeChallengeMethodsSupported := none

/-- The document that says so. -/
def sampleServerBody : Value :=
  .object [("issuer", .string "https://idp.test"),
    ("authorization_endpoint", .string "https://idp.test/authorize"),
    ("token_endpoint", .string "https://idp.test/token"),
    ("registration_endpoint", .string "https://idp.test/register")]

/-- The document of a resource with that server. -/
def sampleResourceBody : Value :=
  .object [("resource", .string "https://api.test"),
    ("authorization_servers", .array [.string "https://idp.test"])]

section Browser

variable {ι : Type} {i : ι} {m : Manager} {α : Type} {G : ∀ {δ : Type}, OAuthOp δ → Prop}

/-- A token manager that has no token and finds none. -/
structure OAuthWorld.Bare (s : OAuthWorld ι) : Prop where
  free : s.refreshHolder = none
  cache : s.cache = none
  store : ∀ key, s.store key = none

section

variable {Q : α → OAuthWorld ι → Prop} {s : OAuthWorld ι}

theorem can_readCache {k : Instant × Option TokenCache → Prog OAuthOp α}
    (h : (oauthMachine ι).can i G (k (s.instant, s.cache)) Q s) :
    (oauthMachine ι).can i G (.op .readCache k) Q s :=
  Machine.can_op { instant := s.instant }
    (by simp [oauthMachine, OAuthWorld.exec, OAuthWorld.tick]) h

theorem can_updateCache {f : Instant → Option TokenCache → Option TokenCache}
    {k : Option TokenCache → Prog OAuthOp α}
    (h : ∀ entry t, (oauthMachine ι).can i G (k entry) Q t) :
    (oauthMachine ι).can i G (.op (.updateCache f) k) Q s := by
  have hexec : ∃ r, (oauthMachine ι).exec i _ (.updateCache f) { instant := s.instant } s =
      some r := by
    simp [oauthMachine, OAuthWorld.exec, OAuthWorld.tick]
  obtain ⟨⟨entry, t⟩, hexec⟩ := hexec
  exact Machine.can_op _ hexec (h entry t)

/-- A block under the free refresh lock. -/
theorem can_withLock {p : Prog OAuthOp α} (hs : s.Bare)
    (h : ∀ t : OAuthWorld ι, t.cache = none → (∀ key, t.store key = none) →
      t.discovered = s.discovered →
        (oauthMachine ι).can i G p (fun a u => Q a { u with refreshHolder := none }) t) :
    (oauthMachine ι).can i G (Prog.withLock .lockRefresh .unlockRefresh p) Q s := by
  refine Machine.can_op (b := ()) (t := { s with refreshHolder := some i }) {} ?_
    (Machine.can_andFinally (Machine.can_mono (h _ hs.cache hs.store rfl) fun a u hQ => ?_))
  · simp [oauthMachine, OAuthWorld.exec, hs.free]
  · exact ⟨{}, _, rfl, hQ⟩

/-- There is no token to adopt. -/
theorem can_adoptPersisted {backendId : String} (hs : s.Bare) :
    (oauthMachine ι).can i G (m.adoptPersisted backendId) (fun x t => x = none ∧ t.Bare) s := by
  unfold Manager.adoptPersisted
  split
  · exact ⟨rfl, hs⟩
  · refine can_withLock hs fun t hcache hstore _ => can_readCache ?_
    simp only [hcache, Option.filter_none, Prog.ret_bind]
    refine Machine.can_op (b := none) (t := t) {} ?_ ⟨rfl, rfl, hcache, hstore⟩
    simp [oauthMachine, OAuthWorld.exec, hstore]

/-- A document can be fetched. -/
theorem can_fetchMetadata {β : Type} {what url : String} {rejects : Value → String}
    {read : Value → Option β} {R : BackendResult β → OAuthWorld ι → Prop} (body : Value) {x : β}
    (hbody : read body = some x) (hR : R (.ok x) s) :
    (oauthMachine ι).can i G (Manager.fetchMetadata what url rejects read) R s := by
  refine Machine.can_op (b := .json 200 body) { reply := .json 200 body } rfl ?_
  simp only [Prog.ret_bind, hbody]
  exact hR

/-- An authorization server can be discovered. -/
theorem can_discover {url : String} {rejects : Value → String} (hs : s.Bare) :
    (oauthMachine ι).can i G (Manager.discover url rejects)
      (fun _ t => t.Bare ∧ t.discovered = some sampleServer) s := by
  have hurl : (oauthMachine ι).can i G (Manager.authServerUrl url rejects)
      (fun x t => (∃ url, x = .ok url) ∧ t = s) s := by
    unfold Manager.authServerUrl
    split
    · refine Machine.can_bind (can_fetchMetadata sampleResourceBody
        (x := some ["https://idp.test"]) rfl ?_)
      exact ⟨⟨_, rfl⟩, rfl⟩
    · exact ⟨⟨_, rfl⟩, rfl⟩
  refine Machine.can_bind (Machine.can_mono hurl fun x t hx => ?_)
  obtain ⟨⟨url, rfl⟩, rfl⟩ := hx
  refine Machine.can_bind (can_fetchMetadata sampleServerBody (x := sampleServer) rfl ?_)
  exact Machine.can_op {} rfl ⟨⟨hs.free, hs.cache, hs.store⟩, rfl⟩

theorem can_resolveTokenEndpoint {d : AuthServerMetadata} (hd : s.discovered = some d)
    {R : BackendResult String → OAuthWorld ι → Prop} (hR : ∀ endpoint, R (.ok endpoint) s) :
    (oauthMachine ι).can i G m.resolveTokenEndpoint R s := by
  have discovered {found : Option AuthServerMetadata → Prog OAuthOp (BackendResult String)}
      (hfound : ∀ d, found (some d) = .ret (.ok d.tokenEndpoint)) :
      (oauthMachine ι).can i G (.op .readDiscovered found) R s := by
    refine Machine.can_op (b := some d) (t := s) {} ?_ ?_
    · simp [oauthMachine, OAuthWorld.exec, hd]
    · rw [hfound]
      exact hR d.tokenEndpoint
  unfold Manager.resolveTokenEndpoint
  split
  · split
    · exact hR _
    · exact discovered fun _ => rfl
  · exact discovered fun _ => rfl

/-- A client id is configured, or a client can be registered. -/
theorem can_authorizationClientId (hd : s.discovered = some sampleServer) :
    (oauthMachine ι).can i G m.authorizationClientId
      (fun x _ => ∃ clientId, x = .ok clientId) s := by
  have hread : (oauthMachine ι).exec i _ .readDiscovered {} s = some (some sampleServer, s) := by
    simp [oauthMachine, OAuthWorld.exec, hd]
  unfold Manager.authorizationClientId
  split
  · exact ⟨_, rfl⟩
  · refine Machine.can_op {} hread ?_
    refine Machine.can_bind (Machine.can_op {} hread ?_)
    -- the server registers the client under an id
    let body : Value := .object [("client_id", .string "client")]
    refine Machine.can_op (b := .json 201 body) { reply := .json 201 body } rfl ?_
    exact Machine.can_bind (can_updateCache fun _ _ => ⟨_, rfl⟩)

/-- The interactive grant opens the browser. -/
theorem can_doAuthorizationCode {tokenEndpoint backendId : String}
    (hd : s.discovered = some sampleServer) {R : BackendResult String → OAuthWorld ι → Prop} :
    (oauthMachine ι).can i OAuthOp.Opens (m.doAuthorizationCode tokenEndpoint backendId) R s := by
  have hopens {authUrl : String} {t : OAuthWorld ι} {β : Type}
      {f : BackendResult String → Prog OAuthOp β} {R : β → OAuthWorld ι → Prop} :
      (oauthMachine ι).can i OAuthOp.Opens ((m.obtainCode authUrl).bind f) R t :=
    Machine.can_bind (Machine.can_here {} rfl trivial)
  simp only [Manager.doAuthorizationCode, Prog.bind_eq, Prog.perform_bind]
  refine Machine.can_op {} rfl (Machine.can_op {} rfl (Machine.can_bind ?_))
  refine Machine.can_mono (can_authorizationClientId hd) fun x t hx => ?_
  obtain ⟨clientId, rfl⟩ := hx
  refine Machine.can_op {} rfl ?_
  dsimp only
  rcases m.config.scopes with _ | scopes
  · exact Machine.can_op {} rfl hopens
  · exact hopens

/-- **Out of daemon mode, `get_token` can open the browser** where the grant is interactive and
there is no token. -/
theorem can_getToken {backendId : String} (hs : s.Bare) (hd : s.discovered = some sampleServer)
    (hgrant : m.resolveGrantType = "authorization_code")
    {R : BackendResult String → OAuthWorld ι → Prop} :
    (oauthMachine ι).can i OAuthOp.Opens (m.getToken backendId false) R s := by
  refine can_readCache ?_
  simp only [hs.cache]
  refine can_withLock hs fun t hcache hstore hdiscovered => can_readCache ?_
  simp only [hcache, Option.filter_none, Prog.ret_bind]
  have hd' : t.discovered = some sampleServer := hdiscovered.trans hd
  refine Machine.can_bind (can_resolveTokenEndpoint hd' fun endpoint => ?_)
  simp only [hgrant]
  exact can_doAuthorizationCode hd'

end

variable [DecidableEq ι] {b : HttpBackend} {s : HttpWorld ι}

/-- What the token manager can do for the backend. -/
theorem can_oauthDo {p : Prog OAuthOp α} {R : α → HttpWorld ι → Prop}
    (h : (oauthMachine ι).can i OAuthOp.Opens p (fun a t => ∀ s', s'.oauth = t → R a s') s.oauth) :
    (httpMachine ι).can i HttpOp.Opens (oauthDo p) R s :=
  Machine.can_lift HttpOp.oauth HttpWorld.oauth (fun t (s : HttpWorld ι) => { s with oauth := t })
    (fun e => { oauth := e : HttpChoice })
    (fun _ ho => ho) (fun _ _ _ _ => rfl) (fun _ _ => rfl) h

/-- A 401 opens the browser. -/
theorem can_exchange {message : JsonRpcMessage} {extraHeaders : Entries String}
    {sentSession : Option String} (hmanager : b.manager = some m) (hdaemon : b.daemonMode = false)
    (hgrant : m.resolveGrantType = "authorization_code") (hs : s.oauth.Bare)
    {R : Except Failure Value → HttpWorld ι → Prop} :
    (httpMachine ι).can i HttpOp.Opens (b.exchange message extraHeaders sentSession true) R s := by
  simp only [HttpBackend.exchange, HttpBackend.postJson, Prog.bind_eq, Prog.perform_bind]
  refine Machine.can_bind (Machine.can_op {} rfl ?_)
  refine Machine.can_op (b := .response 401 [] (.ok ""))
    { reply := .response 401 [] (.ok "") } rfl (Machine.can_bind ?_)
  -- the refusal leads to the authorization server
  simp only [HttpBackend.discoverOn, hmanager, if_true, Prog.bind_eq]
  refine Machine.can_bind (can_oauthDo (Machine.can_mono (can_discover hs) ?_))
  rintro - t ⟨ht, hd⟩ s' rfl
  have hcapture : HttpBackend.captureSession [] = .ret () := rfl
  simp only [Machine.can_ret, hcapture, Prog.ret_bind, and_self, if_true, hdaemon]
  exact Machine.can_bind (can_oauthDo (can_getToken ht hd hgrant))

/-- **Out of daemon mode, connecting can open the browser** where the grant is interactive and
there is no token. -/
theorem can_connect (hmanager : b.manager = some m) (hdaemon : b.daemonMode = false)
    (hgrant : m.resolveGrantType = "authorization_code") (hs : s.oauth.Bare)
    (hconnected : s.connected = false) {R : BackendResult InitializeResult → HttpWorld ι → Prop} :
    (httpMachine ι).can i HttpOp.Opens b.connect R s := by
  simp only [HttpBackend.connect, HttpBackend.adoptToken, HttpBackend.handshake,
    HttpBackend.sendRequestInner, hmanager, Prog.bind_eq, Prog.perform_bind]
  refine Machine.can_op (b := true) (t := { s with opening := i :: s.opening }) {} ?_ ?_
  · simp [httpMachine, HttpWorld.exec, hconnected]
  rw [if_pos rfl]
  refine Machine.can_bind (Machine.can_bind (can_oauthDo ?_))
  refine Machine.can_mono (can_adoptPersisted hs) ?_
  rintro x t ⟨rfl, ht⟩ s' rfl
  refine Machine.can_bind (Machine.can_bind (Machine.can_op {} rfl (Machine.can_bind ?_)))
  refine Machine.can_op {} rfl (can_exchange hmanager hdaemon hgrant ?_)
  exact ht

end Browser

end HeadlessMcp
