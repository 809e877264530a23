import HeadlessMcp.OAuth2.Discipline

/-!
# One walk through the calls

What a run does to the tokens is decided in five places: where a client is registered, where a
grant or a refresh is posted and its answer is cached, and where a stored token is loaded and
installed. Everything else that the two calls do looks at the tokens at most, and chooses
between these.

The walk through the rest is the same whatever is to be shown of the tokens, so it is made once
here. A `TokenWalk` names what is to be shown, `TokenWalk.Laws` say what each of them keeps, and
`TokenWalk.Laws.safe_call` is what follows for every call: rotation and pairing are two such walks.
-/

namespace HeadlessMcp

open Async

/-- The client id of a request. -/
def TokenForm.clientId : TokenForm → String
  | .clientCredentials clientId _ _ => clientId
  | .authorizationCode clientId _ _ _ => clientId
  | .refresh _ clientId _ => clientId

/-- What is to be shown of the tokens on the way through a call. -/
structure TokenWalk (ι : Type) where
  /-- what holds in every state -/
  always : Tokens → Prop
  /-- what holds while the refresh lock is free, and between two of the five places -/
  between : Tokens → Prop
  /-- what holds when a grant is about to be posted for a client -/
  forClient : String → Tokens → Prop
  /-- what holds when a refresh token is about to be presented -/
  presents : String → Tokens → Prop
  /-- what holds when a stored token has been loaded -/
  loaded : PersistedToken → Tokens → Prop
  /-- the condition on the steps -/
  rule : Rule OAuthOp ι OAuthChoice (OAuthWorld ι)

namespace TokenWalk

variable {ι : Type} {K : TokenWalk ι} {m : Manager} {backendId : String} {i : ι} {α : Type}
  {s : OAuthWorld ι}

/-- Safe under the discipline of the refresh lock. -/
abbrev Safe (K : TokenWalk ι) (i : ι) (p : Prog OAuthOp α) (Q : Outcome α → OAuthWorld ι → Prop)
    (s : OAuthWorld ι) : Prop :=
  (lockProtocol ι K.always K.between).Safe (oauthMachine ι) K.rule i p Q s

/-- What the five places have to keep, and what leads from one to the next. -/
structure Laws (K : TokenWalk ι) (m : Manager) : Prop where
  /-- a configured client may be used at once -/
  configured : ∀ client ∈ m.config.clientId, ∀ T, K.between T → K.forClient client T
  /-- what is known of a client can be forgotten -/
  forget : ∀ client T, K.forClient client T → K.between T
  /-- so can what is known of a loaded token -/
  discard : ∀ stored T, K.loaded stored T → K.between T
  /-- the cached refresh token may be presented -/
  cached : ∀ T, K.always T → K.between T → ∀ c ∈ T.cache, ∀ r ∈ c.refreshToken, K.presents r T
  /-- a registered client is put in the cache -/
  register : ∀ i client s, Inside i K.between s →
    K.Safe i (Manager.setDynamicClientId client) (fun _ t => Inside i (K.forClient client) t) s
  /-- a grant is posted, and its answer cached -/
  grant : ∀ i endpoint form sendFailed backendId s, (∀ reply, presentedBy (form, reply) = none) →
    Inside i (K.forClient form.clientId) s →
      K.Safe i (.op (.postToken endpoint form) fun reply =>
        m.tokenAnswer reply sendFailed backendId) (fun _ t => Inside i K.between t) s
  /-- a refresh is posted, and its answer cached -/
  refresh : ∀ i r backendId s, Inside i (K.presents r) s →
    K.Safe i (m.doRefresh r backendId) (fun _ t => Inside i K.between t) s
  /-- a stored token is loaded -/
  load : ∀ {α : Type} i key (k : Option PersistedToken → Prog OAuthOp α) Q s,
    Inside i K.between s → (∀ t, Inside i K.between t → K.Safe i (k none) Q t) →
      (∀ stored t, Inside i (K.loaded stored) t → K.Safe i (k (some stored)) Q t) →
        K.Safe i (.op (.loadToken key) k) Q s
  /-- it is installed, and its refresh token may be presented -/
  install : ∀ i stored s, Inside i (K.loaded stored) s →
    K.Safe i (m.installPersisted stored) (fun x t => Inside i K.between t ∧ (x = .done () →
      Inside i (fun T => K.between T ∧ ∀ r ∈ stored.refreshToken, K.presents r T) t)) s

/-- `retry_with_stored`: the stored token is presented once it is installed. It may present
another token than the one that was rejected, and installs it first. -/
theorem safe_retryWithStored (hK : K.Laws m) {rejected : String} (hs : Inside i K.between s) :
    K.Safe i (m.retryWithStored rejected backendId) (fun _ t => Inside i K.between t) s := by
  simp only [Manager.retryWithStored, Prog.bind_eq, Prog.perform_bind]
  split
  · exact safe_inside_ret hs fun _ h => h
  · refine hK.load i _ _ _ _ hs (fun t ht => safe_inside_ret ht fun _ h => h) fun stored t ht => ?_
    dsimp only
    split
    · -- the store has nothing newer
      exact safe_inside_ret ht fun u hu => ⟨hu.1, hK.discard stored _ hu.2⟩
    · refine Protocol.Safe.bind (Protocol.Safe.mono (hK.install i stored t ht) fun x u _ hu => ?_)
      cases x with
      | panicked => exact hu.1
      | done _ =>
        refine safe_quiet_op trivial (hu.2 rfl) fun _ _ now v _ _ _ hv _ => ?_
        split
        · exact safe_inside_ret hv fun w hw => ⟨hw.1, hw.2.1⟩
        · rcases hrefresh : stored.refreshToken with _ | r
          · exact safe_inside_ret hv fun w hw => ⟨hw.1, hw.2.1⟩
          · refine Protocol.Safe.bind (Protocol.Safe.mono
              (hK.refresh i r backendId v ⟨hv.1, hv.2.2 r hrefresh⟩) fun x w _ hw => ?_)
            cases x with
            | panicked => exact hw
            | done a => cases a <;> exact safe_inside_ret hw fun _ h => h

/-- What is known when a client id has been found, or none. -/
def Finds (K : TokenWalk ι) (i : ι) (client : α → String) (x : Outcome (BackendResult α))
    (t : OAuthWorld ι) : Prop :=
  Inside i K.between t ∧ ∀ a, x = .done (.ok a) → Inside i (K.forClient (client a)) t

theorem finds_error (hs : Inside i K.between s) {client : α → String} {e : BackendError} :
    K.Safe i (.ret (.error e)) (K.Finds i client) s :=
  safe_inside_ret hs fun t ht => ⟨ht, fun _ h => by cases h⟩

theorem finds_panicked (hs : Inside i K.between s) (client : α → String) :
    K.Finds i client .panicked s :=
  ⟨hs, fun _ h => by cases h⟩

/-- A client id that is known. -/
theorem finds_ok (hK : K.Laws m) {client : α → String} {a : α}
    (hs : Inside i (K.forClient (client a)) s) :
    K.Safe i (.ret (.ok a)) (K.Finds i client) s := by
  refine safe_inside_ret hs fun t ht => ⟨⟨ht.1, hK.forget _ _ ht.2⟩, fun b h => ?_⟩
  cases h
  exact ht

/-- A client that is registered on the spot. What is registered is put into the cache before it is
used, so the client of the request that follows is the one of the cache. -/
theorem finds_registered (hK : K.Laws m) {client : α → String}
    {use : BackendResult (String × Option String) → Prog OAuthOp (BackendResult α)}
    (hs : Inside i K.between s) (herror : ∀ e, use (.error e) = .ret (.error e))
    (hok : ∀ registered secret, ∃ a, client a = registered ∧ use (.ok (registered, secret)) =
      (Manager.setDynamicClientId registered).bind fun _ => .ret (.ok a)) :
    K.Safe i (m.registerClient.bind use) (K.Finds i client) s := by
  refine safe_quiet_bind registerClient_quiet hs (fun reg t ht => ?_)
    fun t ht => finds_panicked ht client
  rcases reg with e | ⟨registered, secret⟩
  · rw [herror]
    exact finds_error ht
  · obtain ⟨a, hclient, huse⟩ := hok registered secret
    rw [huse]
    refine Protocol.Safe.bind (Protocol.Safe.mono (hK.register i registered t ht)
      fun x u _ hu => ?_)
    cases x with
    | done _ =>
      refine finds_ok hK ?_
      rw [hclient]
      exact hu
    | panicked => exact finds_panicked ⟨hu.1, hK.forget _ _ hu.2⟩ client

/-- The client of a `client_credentials` grant: configured, or registered on the spot. -/
theorem safe_clientCredentials (hK : K.Laws m) (hs : Inside i K.between s) :
    K.Safe i m.clientCredentials (K.Finds i Prod.fst) s := by
  unfold Manager.clientCredentials
  split
  · rename_i client secret hclient _
    exact finds_ok hK ⟨hs.1, hK.configured client hclient _ hs.2⟩
  · rename_i client hclient _
    exact finds_ok hK ⟨hs.1, hK.configured client hclient _ hs.2⟩
  · simp only [Prog.bind_eq, Prog.perform_bind]
    refine safe_quiet_op trivial hs fun _ _ d t _ _ _ ht _ => ?_
    split
    · exact finds_error ht
    · exact finds_registered hK ht (fun _ => rfl) fun _ _ => ⟨(_, _), rfl, rfl⟩

/-- The client of an `authorization_code` grant. -/
theorem safe_authorizationClientId (hK : K.Laws m) (hs : Inside i K.between s) :
    K.Safe i m.authorizationClientId (K.Finds i id) s := by
  unfold Manager.authorizationClientId
  split
  · rename_i client hclient
    exact finds_ok hK ⟨hs.1, hK.configured client hclient _ hs.2⟩
  · simp only [Prog.bind_eq, Prog.perform_bind]
    refine safe_quiet_op trivial hs fun _ _ d t _ _ _ ht _ => ?_
    split
    · exact finds_error ht
    · exact finds_registered hK ht (fun _ => rfl) fun _ _ => ⟨_, rfl, rfl⟩

/-- `do_client_credentials`. -/
theorem safe_doClientCredentials (hK : K.Laws m) {endpoint : String}
    (hs : Inside i K.between s) :
    K.Safe i (m.doClientCredentials endpoint backendId) (fun _ t => Inside i K.between t) s := by
  simp only [Manager.doClientCredentials, Prog.bind_eq, Prog.perform_bind]
  refine Protocol.Safe.bind (Protocol.Safe.mono (safe_clientCredentials hK hs) fun x t _ ht => ?_)
  rcases x with (e | ⟨client, secret⟩) | _
  · exact safe_inside_ret ht.1 fun _ h => h
  · exact hK.grant i endpoint _ _ backendId t (fun _ => rfl) (ht.2 (client, secret) rfl)
  · exact ht.1

/-- The last part of `do_authorization_code`: a code, and the request that presents it. -/
theorem safe_presentCode (hK : K.Laws m) {endpoint authUrl client redirectUri codeVerifier : String}
    {present : BackendResult String → Prog OAuthOp (BackendResult String)}
    (hs : Inside i (K.forClient client) s) (herror : ∀ e, present (.error e) = .ret (.error e))
    (hok : ∀ code, present (.ok code) = .op (.postToken endpoint
      (.authorizationCode client code redirectUri codeVerifier)) fun reply =>
        m.tokenAnswer reply "token request failed" backendId) :
    K.Safe i ((m.obtainCode authUrl).bind present) (fun _ t => Inside i K.between t) s := by
  refine safe_quiet_bind obtainCode_quiet hs (fun code t ht => ?_)
    fun t ht => ⟨ht.1, hK.forget client _ ht.2⟩
  cases code with
  | error e =>
    rw [herror]
    exact safe_inside_ret ht fun u hu => ⟨hu.1, hK.forget client _ hu.2⟩
  | ok code =>
    rw [hok]
    exact hK.grant i endpoint _ _ backendId t (fun _ => rfl) ht

/-- `do_authorization_code`. -/
theorem safe_doAuthorizationCode (hK : K.Laws m) {endpoint : String}
    (hs : Inside i K.between s) :
    K.Safe i (m.doAuthorizationCode endpoint backendId) (fun _ t => Inside i K.between t) s := by
  simp only [Manager.doAuthorizationCode, Prog.bind_eq, Prog.perform_bind]
  refine safe_quiet_op trivial hs fun _ _ _ t _ _ _ ht _ => ?_
  refine safe_quiet_op trivial ht fun _ _ _ t _ _ _ ht _ => ?_
  refine Protocol.Safe.bind (Protocol.Safe.mono (safe_authorizationClientId hK ht)
    fun x t _ ht => ?_)
  rcases x with (e | client) | _
  · exact safe_inside_ret ht.1 fun _ h => h
  · refine safe_quiet_op trivial (ht.2 client rfl) fun _ _ verifier t _ _ _ ht _ => ?_
    -- the scopes are configured, or the discovered ones
    split
    · exact safe_presentCode hK ht (fun _ => rfl) fun _ => rfl
    · exact safe_quiet_op trivial ht fun _ _ _ t _ _ _ ht _ =>
        safe_presentCode hK ht (fun _ => rfl) fun _ => rfl
  · exact ht.1

/-- The cached entry, read inside. -/
theorem safe_readCache_inside {k : Instant × Option TokenCache → Prog OAuthOp α}
    {Q : Outcome α → OAuthWorld ι → Prop} (hs : Inside i K.between s)
    (hk : ∀ now cache t, Inside i (fun T => K.always T ∧ K.between T ∧ T.cache = cache) t →
      K.Safe i (k (now, cache)) Q t) :
    K.Safe i (.op .readCache k) Q s := by
  refine safe_inside_op ⟨id, id⟩ hs fun s' e b t hs' halways _ he ht => ?_
  obtain ⟨-, rfl, rfl⟩ := exec_readCache he
  exact ⟨halways, hk _ _ _ ⟨ht, halways, hs'.2, rfl⟩⟩

/-- What a failed refresh is answered with. -/
theorem safe_refreshFailed {daemonMode : Bool} {message : String} (hs : Inside i K.between s) :
    K.Safe i (if daemonMode then .ret (some (.error (authError message)))
      else .ret (none : Option (BackendResult String))) (fun _ t => Inside i K.between t) s := by
  cases daemonMode <;> exact safe_inside_ret hs fun _ h => h

/-- The refresh path of `get_token`. Whether the refresh succeeds or fails, the tokens are in
order when it is over. -/
theorem safe_getTokenRefresh (hK : K.Laws m) {daemonMode : Bool} (hs : Inside i K.between s) :
    K.Safe i (m.getTokenRefresh backendId daemonMode) (fun _ t => Inside i K.between t) s := by
  simp only [Manager.getTokenRefresh, Prog.bind_eq, Prog.perform_bind]
  refine safe_readCache_inside hs fun now cache t ht => ?_
  have hbetween : Inside i K.between t := ⟨ht.1, ht.2.2.1⟩
  rcases cache with _ | c
  · exact safe_inside_ret hbetween fun _ h => h
  · dsimp only
    split
    · -- another call has refreshed it meanwhile
      exact safe_inside_ret hbetween fun _ h => h
    · rcases hrefresh : c.refreshToken with _ | r
      · exact safe_inside_ret hbetween fun _ h => h
      · have hpresents : K.presents r t.tokens :=
          hK.cached t.tokens ht.2.1 ht.2.2.1 c ht.2.2.2 r hrefresh
        refine Protocol.Safe.bind (Protocol.Safe.mono
          (hK.refresh i r backendId t ⟨ht.1, hpresents⟩) fun x u _ hu => ?_)
        rcases x with (failure | token) | _
        · dsimp only
          split
          · -- the provider has refused the token, so the stored one is tried
            refine Protocol.Safe.bind (Protocol.Safe.mono (safe_retryWithStored hK hu)
              fun x v _ hv => ?_)
            cases x with
            | panicked => exact hv
            | done retried => cases retried with
              | some token => exact safe_inside_ret hv fun _ h => h
              | none => exact safe_refreshFailed hv
          · exact safe_refreshFailed hu
        · exact safe_inside_ret hu fun _ h => h
        · exact hu

/-- The acquisition of a new token. -/
theorem safe_getTokenAcquire (hK : K.Laws m) {daemonMode : Bool} (hs : Inside i K.between s) :
    K.Safe i (m.getTokenAcquire backendId daemonMode) (fun _ t => Inside i K.between t) s := by
  simp only [Manager.getTokenAcquire, Prog.bind_eq, Prog.perform_bind]
  refine safe_readCache_inside hs fun now cache t ht => ?_
  have hbetween : Inside i K.between t := ⟨ht.1, ht.2.2.1⟩
  split
  · exact safe_inside_ret hbetween fun _ h => h
  · refine safe_quiet_bind resolveTokenEndpoint_quiet hbetween (fun endpoint u hu => ?_)
      fun _ h => h
    cases endpoint with
    | error e => exact safe_inside_ret hu fun _ h => h
    | ok endpoint =>
      dsimp only
      split
      · exact safe_doClientCredentials hK hu
      · split
        · exact safe_inside_ret hu fun _ h => h
        · exact safe_doAuthorizationCode hK hu
      · exact safe_inside_ret hu fun _ h => h
      · exact safe_inside_ret hu fun _ h => h

/-- A guarded block. Inside, the task goes from one state that is in order to another, and outside
it touches nothing. -/
theorem safe_locked {p : Prog OAuthOp α}
    (hp : ∀ t, Inside i K.between t → K.Safe i p (fun _ u => Inside i K.between u) t) :
    K.Safe i (Prog.withLock .lockRefresh .unlockRefresh p) (fun _ _ => True) s :=
  safe_withLock (R := fun _ _ => True)
    (fun t ht _ _ => Protocol.Safe.mono (hp t ht) fun _ _ _ hu => ⟨hu, trivial⟩)
    (fun _ _ _ _ _ => trivial) fun _ _ _ _ _ => trivial

/-- `get_token`. -/
theorem safe_getToken (hK : K.Laws m) {daemonMode : Bool} :
    K.Safe i (m.getToken backendId daemonMode) (fun _ _ => True) s := by
  have acquire {s : OAuthWorld ι} : K.Safe i
      (Prog.withLock .lockRefresh .unlockRefresh (m.getTokenAcquire backendId daemonMode))
      (fun _ _ => True) s := safe_locked fun _ ht => safe_getTokenAcquire hK ht
  simp only [Manager.getToken, Prog.bind_eq, Prog.perform_bind]
  refine safe_readCache fun s' e t _ _ _ _ _ => ?_
  rcases s'.cache with _ | c
  · exact acquire
  · dsimp only
    split
    · exact fun _ _ _ => trivial
    · split
      · refine Protocol.Safe.bind (Protocol.Safe.mono
          (safe_locked fun _ ht => safe_getTokenRefresh hK ht) fun x u _ _ => ?_)
        rcases x with (_ | result) | _
        · exact acquire
        · exact fun _ _ _ => trivial
        · trivial
      · split
        · exact fun _ _ _ => trivial
        · exact acquire

/-- `adopt_persisted`. -/
theorem safe_adoptPersisted (hK : K.Laws m) :
    K.Safe i (m.adoptPersisted backendId) (fun _ _ => True) s := by
  unfold Manager.adoptPersisted
  split
  · exact fun _ _ _ => trivial
  · refine safe_locked fun t ht => ?_
    simp only [Prog.bind_eq, Prog.perform_bind]
    refine safe_readCache_inside ht fun now cache u hu => ?_
    have hbetween : Inside i K.between u := ⟨hu.1, hu.2.2.1⟩
    split
    · exact safe_inside_ret hbetween fun _ h => h
    · refine hK.load i _ _ _ _ hbetween (fun v hv => safe_inside_ret hv fun _ h => h)
        fun persisted v hv => ?_
      refine safe_quiet_op trivial hv fun _ _ now v _ _ _ hv _ => ?_
      split
      · exact safe_inside_ret hv fun w hw => ⟨hw.1, hK.discard persisted _ hw.2⟩
      · refine Protocol.Safe.bind (Protocol.Safe.mono (hK.install i persisted v hv)
          fun x w _ hw => ?_)
        cases x with
        | panicked => exact hw.1
        | done _ =>
          refine safe_quiet_op trivial hw.1 fun _ _ now w _ _ _ hw _ => ?_
          exact safe_inside_ret hw fun _ h => h

/-- **Every call keeps what the five places keep**, from every state. -/
theorem Laws.safe_call (hK : K.Laws m) {call : Manager.Call} :
    K.Safe i (m.call call) (fun _ _ => True) s := by
  cases call with
  | getToken backendId daemonMode =>
    refine Protocol.Safe.bind (Protocol.Safe.mono (safe_getToken hK) fun x t _ _ => ?_)
    cases x with
    | done r => exact fun _ _ _ => trivial
    | panicked => trivial
  | adoptPersisted backendId =>
    refine Protocol.Safe.bind (Protocol.Safe.mono (safe_adoptPersisted hK) fun x t _ _ => ?_)
    cases x with
    | done r => exact fun _ _ _ => trivial
    | panicked => trivial

end TokenWalk

end HeadlessMcp
