import HeadlessMcp.Async.Contract
import HeadlessMcp.Http.Traffic
import HeadlessMcp.Http.World

/-!
# After a 401

A request that is answered with 401 is sent once more, with a token from the token manager. The
second request should carry another token than the one that was just refused. The token manager
does not know that it was refused: it goes by the expiry it believes in, and so offers the same
token again as long as that has some life left.

`Remedy` is where a caller stands between the two requests. `OffersAnother` is the condition on
what the token manager is offered meanwhile, by its cache, its provider and its store, and
`LeavesClient` says that nobody else puts the refused token into the client again before it is
read. With both the second request carries another token.
-/

namespace HeadlessMcp

open Async Machine

/-- The header carries a token, and not this one. No token at all is not another one. -/
def Another (token : String) (bearer : Option String) : Prop := ∃ t ∈ bearer, t ≠ token

instance (token : String) (bearer : Option String) : Decidable (Another token bearer) :=
  inferInstanceAs (Decidable (∃ t ∈ bearer, t ≠ token))

/-! ## Where a caller stands -/

/-- How far a stored token has come on its way into the cache. It is compared with the refused
token at its last step, when it is installed. -/
inductive Adoption : Type where
  | none : Adoption
  /-- it was read from the store -/
  | loaded (token : PersistedToken) : Adoption
  /-- its remaining life was computed -/
  | timed (token : PersistedToken) : Adoption
  /-- it is in the cache; whether it is still valid is checked next -/
  | installed (token : PersistedToken) : Adoption

/-- What an operation makes of it. -/
def OAuthOp.adoption : {β : Type} → OAuthOp β → β → Adoption → Adoption
  | _, .loadToken _, stored, _ =>
    match stored with
    | some token => .loaded token
    | none => .none
  | _, .unixNow, _, a =>
    match a with
    | .loaded token => .timed token
    | _ => .none
  | _, .updateCache _, _, a =>
    match a with
    | .timed token => .installed token
    | _ => .none
  | _, _, _, _ => .none

/-- Where a caller stands between a request that is refused and the next one. -/
inductive Remedy : Type where
  | idle : Remedy
  /-- its last request carried the token and was answered with 401 -/
  | refused (token : String) (adoption : Adoption) : Remedy
  /-- it has rebuilt the client -/
  | rebuilt (token : String) : Remedy
  /-- it has read the client, and sends the request once more -/
  | retrying (token : String) : Remedy

/-- A reply that refuses the token of its request. A reply of any other status refuses nothing,
nor does one to a request without a token. -/
def refusal (request : HttpRequest) (reply : HttpReply) : Remedy :=
  match request.bearer, reply with
  | some token, .response 401 _ _ => .refused token .none
  | _, _ => .idle

/-- What an operation makes of it. -/
def HttpOp.remedy : {β : Type} → HttpOp β → β → Remedy → Remedy
  | _, .oauth o, answer, r =>
    match r with
    | .refused token adoption => .refused token (o.adoption answer adoption)
    | r => r
  | _, .storeClient _, _, r =>
    match r with
    | .refused token _ => .rebuilt token
    | _ => .idle
  | _, .loadClient, _, r =>
    match r with
    | .rebuilt token => .retrying token
    | _ => .idle
  | _, .post request, reply, r =>
    match r with
    | .retrying _ => .idle
    | _ => refusal request reply
  | _, _, _, r => r

/-- After a refusal the client is rebuilt with another token, and the next request carries
another one. -/
def HttpOp.Remedies : {β : Type} → HttpOp β → Remedy → Prop
  | _, .storeClient bearer, r => ∀ token adoption, r = .refused token adoption →
      Another token bearer
  | _, .post request, r => ∀ token, r = .retrying token → Another token request.bearer
  | _, _, _ => True

/-- What the token manager is offered is another token: a cached one that it takes for usable,
one that the provider issues, a stored one that it finds valid. -/
def OAuthOp.Offers (token : String) : {β : Type} → OAuthOp β → β → Adoption → Prop
  | _, .readCache, answer, _ => ∀ c ∈ answer.2, c.usable answer.1 = true →
      Another token (clientToken (some c.accessToken))
  | _, .postToken _ _, reply, _ => ∀ body ∈ reply.accepted, ∀ issued ∈ accessTokenOf body,
      Another token (clientToken (some issued))
  | _, .unixNow, now, a => ∀ stored, a = .installed stored → stored.isValid now = true →
      Another token (clientToken (some stored.accessToken))
  | _, _, _, _ => True

/-- After a refusal the token manager is offered another token. This is asked of what the manager
reads, its cache, its store and the answers of the provider, and not of what it returns. -/
def HttpOp.Offers : {β : Type} → HttpOp β → β → Remedy → Prop
  | _, .oauth o, answer, r => ∀ token adoption, r = .refused token adoption →
      o.Offers token answer adoption
  | _, _, _, _ => True

/-- The rebuilt client still has another token when it is read. -/
def HttpOp.Reads : {β : Type} → HttpOp β → β → Remedy → Prop
  | _, .loadClient, bearer, r => ∀ token, r = .rebuilt token → Another token bearer
  | _, _, _, _ => True

instance (a : Adoption) (P : PersistedToken → Prop) [DecidablePred P] :
    Decidable (∀ stored, a = .installed stored → P stored) :=
  match a with
  | .installed stored => decidable_of_iff (P stored)
      ⟨fun h _ heq => by cases heq; exact h, fun h => h stored rfl⟩
  | .none => .isTrue nofun
  | .loaded _ => .isTrue nofun
  | .timed _ => .isTrue nofun

instance (r : Remedy) (P : String → Adoption → Prop) [∀ token, DecidablePred (P token)] :
    Decidable (∀ token adoption, r = .refused token adoption → P token adoption) :=
  match r with
  | .refused token adoption => decidable_of_iff (P token adoption)
      ⟨fun h _ _ heq => by cases heq; exact h, fun h => h token adoption rfl⟩
  | .idle => .isTrue nofun
  | .rebuilt _ => .isTrue nofun
  | .retrying _ => .isTrue nofun

instance (r : Remedy) (P : String → Prop) [DecidablePred P] :
    Decidable (∀ token, r = .retrying token → P token) :=
  match r with
  | .retrying token => decidable_of_iff (P token)
      ⟨fun h _ heq => by cases heq; exact h, fun h => h token rfl⟩
  | .idle => .isTrue nofun
  | .refused _ _ => .isTrue nofun
  | .rebuilt _ => .isTrue nofun

instance (token : String) {β : Type} (o : OAuthOp β) (answer : β) (a : Adoption) :
    Decidable (o.Offers token answer a) := by
  revert answer
  apply OAuthOp.casesOn (motive := fun β o => ∀ answer : β, Decidable (o.Offers token answer a)) o
    <;> intros <;> unfold OAuthOp.Offers <;> infer_instance

instance {β : Type} (o : HttpOp β) (answer : β) (r : Remedy) : Decidable (o.Offers answer r) := by
  cases o <;> unfold HttpOp.Offers <;> infer_instance

/-- What a call does about a refusal, when it is offered another token. The retry is in order only
with another token, so a program that fulfils the contract never sends the refused one again. -/
def remedyContract : Contract HttpOp Remedy where
  next := HttpOp.remedy
  inOrder := HttpOp.Remedies
  admits o answer r := o.Offers answer r ∧ o.Reads answer r

/-! ## The token manager -/

section Manager

variable {α β : Type} {token : String} {m : Manager} {backendId : String} {daemonMode : Bool}

/-- After a refusal the program ends with `P`, when it is offered another token. -/
def Yields (token : String) (p : Prog OAuthOp α) (P : α → Prop) (adoption : Adoption) : Prop :=
  p.Fulfils (remedyContract.comap HttpOp.oauth)
    (fun x r => (∃ adoption, r = .refused token adoption) ∧ P x) (.refused token adoption)

/-- An answer of `get_token` that is a token is another one. -/
def AnotherToken (token : String) (result : BackendResult String) : Prop :=
  ∀ t, result = .ok t → Another token (clientToken (some t))

variable {P Q : α → Prop} {adoption : Adoption}

theorem yields_ret {a : α} (h : P a) : Yields token (.ret a) P adoption := ⟨⟨_, rfl⟩, h⟩

theorem yields_op {o : OAuthOp β} {k : β → Prog OAuthOp α}
    (h : ∀ b, o.Offers token b adoption → Yields token (k b) P (o.adoption b adoption)) :
    Yields token (.op o k) P adoption :=
  ⟨trivial, fun b hb => h b (hb.1 token adoption rfl)⟩

theorem yields_bind {p : Prog OAuthOp β} {f : β → Prog OAuthOp α} {R : β → Prop}
    (hp : Yields token p R adoption) (hf : ∀ b adoption, R b → Yields token (f b) P adoption) :
    Yields token (p.bind f) P adoption := by
  refine Prog.Fulfils.bind (hp.mono fun b r hr => ?_)
  obtain ⟨⟨adoption', rfl⟩, hR⟩ := hr
  exact hf b adoption' hR

/-- Whatever the program does, the refusal is not forgotten. -/
theorem yields_any (p : Prog OAuthOp α) : Yields token p (fun _ => True) adoption := by
  induction p generalizing adoption with
  | ret a => exact yields_ret trivial
  | panic => trivial
  | op o k ih => exact yields_op fun b _ => ih b

theorem yields_andFinally {fin : OAuthOp Unit} {p : Prog OAuthOp α}
    (h : Yields token p P adoption) : Yields token (p.andFinally fin) P adoption := by
  refine Prog.Fulfils.andFinally (h.mono fun a r hr answer => ?_) fun _ => trivial
  obtain ⟨⟨adoption', rfl⟩, hP⟩ := hr
  exact ⟨⟨_, rfl⟩, hP⟩

theorem yields_withLock {acquire release : OAuthOp Unit} {p : Prog OAuthOp α}
    (h : ∀ adoption, Yields token p P adoption) :
    Yields token (Prog.withLock acquire release p) P adoption :=
  yields_op fun _ _ => yields_andFinally (h _)

/-- What is cached is what the provider has issued. -/
theorem yields_cacheTokenResponse {body : Value}
    (hbody : ∀ issued ∈ accessTokenOf body, Another token (clientToken (some issued))) :
    Yields token (m.cacheTokenResponse body backendId) (AnotherToken token) adoption := by
  simp only [Manager.cacheTokenResponse, Prog.bind_eq, Prog.perform_bind]
  -- no access token in the answer, a lifetime that the clock cannot hold, or an entry
  rcases hissued : accessTokenOf body with _ | issued
  · exact yields_ret nofun
  refine yields_op fun now _ => ?_
  split
  · trivial
  refine yields_op fun entry _ => ?_
  rcases entry with _ | entry
  · trivial
  have hresult : AnotherToken token (.ok issued) := by
    intro t ht
    cases ht
    exact hbody issued hissued
  dsimp only
  split
  · exact yields_bind (yields_any _) fun _ _ _ => yields_ret hresult
  · exact yields_ret hresult

/-- A grant yields what the provider issues. -/
theorem yields_tokenAnswer {endpoint sendFailed : String} {form : TokenForm} :
    Yields token (.op (.postToken endpoint form) fun reply =>
      m.tokenAnswer reply sendFailed backendId) (AnotherToken token) adoption := by
  refine yields_op fun reply hoffers => ?_
  cases reply with
  | failed e => exact yields_ret nofun
  | unreadable status e => exact yields_ret nofun
  | json status body =>
    dsimp only [Manager.tokenAnswer]
    split
    · rename_i hstatus
      refine yields_cacheTokenResponse (hoffers body ?_)
      rw [JsonReply.accepted, if_pos hstatus]
      rfl
    · exact yields_ret nofun

theorem yields_doRefresh {refreshToken : String} :
    Yields token (m.doRefresh refreshToken backendId)
      (fun result => ∀ t, result = .ok t → Another token (clientToken (some t))) adoption := by
  simp only [Manager.doRefresh, Prog.bind_eq]
  refine yields_bind (yields_any _) fun endpoint _ _ => ?_
  -- no endpoint to ask; no client, or one
  rcases endpoint with e | endpoint
  · exact yields_ret nofun
  refine yields_bind (yields_any _) fun client _ _ => ?_
  refine yields_op fun reply hoffers => ?_
  -- the provider refuses, or its answer is cached
  cases reply with
  | failed e => exact yields_ret nofun
  | unreadable status e => exact yields_ret nofun
  | json status body =>
    dsimp only [Prog.ret_bind]
    split
    · rename_i hstatus
      refine yields_bind (yields_cacheTokenResponse (hoffers body ?_)) fun result _ hresult => ?_
      · rw [JsonReply.accepted, if_pos hstatus]
        rfl
      · rcases result with e | t
        · exact yields_ret nofun
        · refine yields_ret fun t' ht => ?_
          cases ht
          exact hresult t rfl
    · exact yields_ret nofun

/-- A stored token is used when it is found valid, or to be refreshed. -/
theorem yields_retryWithStored {rejected : String} :
    Yields token (m.retryWithStored rejected backendId)
      (fun result => ∀ t, result = some t → Another token (clientToken (some t))) adoption := by
  unfold Manager.retryWithStored
  split
  · exact yields_ret nofun
  refine yields_op fun stored _ => ?_
  rcases stored with _ | stored
  · exact yields_ret nofun
  dsimp only [Prog.ret_bind]
  split
  · exact yields_ret nofun
  -- the token is installed: its life is computed, it goes into the cache, it is checked
  simp only [Manager.installPersisted, Prog.bind_eq, Prog.perform_bind, Prog.op_bind]
  refine yields_op fun now _ => yields_op fun entry _ => ?_
  rcases entry with _ | entry
  · trivial
  refine yields_op fun now hoffers => ?_
  split
  · rename_i hvalid
    refine yields_ret fun t ht => ?_
    cases ht
    exact hoffers stored rfl hvalid
  · split
    · exact yields_ret nofun
    · refine yields_bind yields_doRefresh fun result _ hresult => ?_
      rcases result with e | t
      · exact yields_ret nofun
      · refine yields_ret fun t' ht => ?_
        cases ht
        exact hresult t rfl

theorem yields_doClientCredentials {endpoint : String} :
    Yields token (m.doClientCredentials endpoint backendId) (AnotherToken token) adoption := by
  simp only [Manager.doClientCredentials, Prog.bind_eq]
  refine yields_bind (yields_any _) fun client _ _ => ?_
  rcases client with e | ⟨client, secret⟩
  · exact yields_ret nofun
  · exact yields_tokenAnswer

theorem yields_doAuthorizationCode {endpoint : String} :
    Yields token (m.doAuthorizationCode endpoint backendId) (AnotherToken token) adoption := by
  -- the last part: a code, and the request that presents it
  have exchange {authUrl client redirectUri codeVerifier : String} {adoption : Adoption}
      {present : BackendResult String → Prog OAuthOp (BackendResult String)}
      (herror : ∀ e, present (.error e) = .ret (.error e))
      (hok : ∀ code, present (.ok code) = .op (.postToken endpoint
        (.authorizationCode client code redirectUri codeVerifier)) fun reply =>
          m.tokenAnswer reply "token request failed" backendId) :
      Yields token ((m.obtainCode authUrl).bind present) (AnotherToken token) adoption := by
    refine yields_bind (yields_any _) fun code _ _ => ?_
    rcases code with e | code
    · rw [herror]
      exact yields_ret fun _ h => by cases h
    · rw [hok]
      exact yields_tokenAnswer
  simp only [Manager.doAuthorizationCode, Prog.bind_eq, Prog.perform_bind]
  refine yields_op fun _ _ => yields_op fun _ _ => ?_
  refine yields_bind (yields_any _) fun client _ _ => ?_
  rcases client with e | client
  · exact yields_ret fun _ h => by cases h
  refine yields_op fun verifier _ => ?_
  split
  · exact exchange (fun _ => rfl) fun _ => rfl
  · exact yields_op fun _ _ => exchange (fun _ => rfl) fun _ => rfl

theorem yields_getTokenRefresh :
    Yields token (m.getTokenRefresh backendId daemonMode)
      (fun result => ∀ r, result = some r → AnotherToken token r) adoption := by
  -- the last part: what a failed refresh is answered with
  have finish {message : String} {adoption : Adoption} :
      Yields token (if daemonMode then .ret (some (.error (authError message)))
        else .ret (none : Option (BackendResult String)))
        (fun result => ∀ r, result = some r → AnotherToken token r) adoption := by
    cases daemonMode with
    | true =>
      refine yields_ret fun r hr t ht => ?_
      cases hr
      cases ht
    | false => exact yields_ret fun _ h => by cases h
  simp only [Manager.getTokenRefresh, Prog.bind_eq, Prog.perform_bind]
  refine yields_op fun answer hoffers => ?_
  obtain ⟨now, cache⟩ := answer
  rcases cache with _ | c
  · exact yields_ret fun _ h => by cases h
  dsimp only
  split
  · rename_i husable
    refine yields_ret fun r hr t ht => ?_
    cases hr
    cases ht
    exact hoffers c rfl husable
  split
  · exact yields_ret fun _ h => by cases h
  refine yields_bind yields_doRefresh fun result _ hresult => ?_
  rcases result with failure | t
  · dsimp only
    split
    · refine yields_bind yields_retryWithStored fun retried _ hretried => ?_
      rcases retried with _ | t
      · exact finish
      · refine yields_ret fun r hr t' ht => ?_
        cases hr
        cases ht
        exact hretried t rfl
    · exact finish
  · refine yields_ret fun r hr t' ht => ?_
    cases hr
    cases ht
    exact hresult t rfl

theorem yields_getTokenAcquire :
    Yields token (m.getTokenAcquire backendId daemonMode) (AnotherToken token) adoption := by
  simp only [Manager.getTokenAcquire, Prog.bind_eq, Prog.perform_bind]
  refine yields_op fun answer hoffers => ?_
  obtain ⟨now, cache⟩ := answer
  dsimp only
  -- a cached token that is usable is what the cache offers; otherwise a grant is asked for
  split
  · rename_i c hcached
    obtain ⟨hcache, husable⟩ := Option.filter_eq_some_iff.mp hcached
    refine yields_ret fun t ht => ?_
    cases ht
    exact hoffers c hcache husable
  · refine yields_bind (yields_any _) fun endpoint _ _ => ?_
    rcases endpoint with e | endpoint
    · exact yields_ret nofun
    dsimp only
    split
    · exact yields_doClientCredentials
    · split
      · exact yields_ret nofun
      · exact yields_doAuthorizationCode
    · exact yields_ret nofun
    · exact yields_ret nofun

/-- The token manager yields another token. -/
theorem yields_getToken :
    Yields token (m.getToken backendId daemonMode) (AnotherToken token) adoption := by
  simp only [Manager.getToken, Prog.bind_eq, Prog.perform_bind]
  have acquire {adoption : Adoption} : Yields token (Prog.withLock .lockRefresh .unlockRefresh
      (m.getTokenAcquire backendId daemonMode)) (AnotherToken token) adoption :=
    yields_withLock fun _ => yields_getTokenAcquire
  refine yields_op fun answer hoffers => ?_
  obtain ⟨now, cache⟩ := answer
  -- nothing cached: a token is acquired
  rcases cache with _ | c
  · exact acquire
  dsimp only
  -- cached and usable, or to be refreshed, or to be acquired anew
  split
  · rename_i husable
    refine yields_ret fun t ht => ?_
    cases ht
    exact hoffers c rfl husable
  split
  · refine yields_bind (yields_withLock fun _ => yields_getTokenRefresh) fun result _ hresult => ?_
    rcases result with _ | r
    · exact acquire
    · exact yields_ret (hresult r rfl)
  split
  · exact yields_ret nofun
  · exact acquire

end Manager

/-! ## The calls -/

section Walk

variable {α β : Type} {p : Prog HttpOp α} {b : HttpBackend} {message : JsonRpcMessage}
  {extraHeaders : Entries String} {sentSession : Option String} {method : String}
  {params : Option Value} {retry : Bool} {r : Remedy}

/-- The caller is not about to send a request once more. It has not rebuilt its client for a
retry, or the retry is done. -/
def Remedy.Calm : Remedy → Prop
  | .idle | .refused _ _ => True
  | .rebuilt _ | .retrying _ => False

/-- The caller has not read the rebuilt client. -/
def Remedy.Unread : Remedy → Prop
  | .retrying _ => False
  | _ => True

theorem Remedy.Calm.unread (h : r.Calm) : r.Unread := by
  cases r <;> first | exact h | trivial

/-- The program fulfils the contract and leaves its caller calm. -/
abbrev Calms (p : Prog HttpOp α) (r : Remedy) : Prop :=
  p.Fulfils remedyContract (fun _ u => u.Calm) r

/-- The operations that have nothing to do with a refusal. -/
def HttpOp.Apart {β : Type} : HttpOp β → Prop
  | .storeClient _ | .loadClient | .post _ => False
  | _ => True

theorem apart_next {o : HttpOp β} (ho : o.Apart) (hr : r.Calm) :
    o.Remedies r ∧ ∀ answer, (o.remedy answer r).Calm := by
  cases o with
  | storeClient bearer => exact False.elim ho
  | loadClient => exact False.elim ho
  | post request => exact False.elim ho
  | oauth o =>
    refine ⟨trivial, fun answer => ?_⟩
    cases r <;> exact hr
  | _ => exact ⟨trivial, fun _ => hr⟩

theorem calms_apart (hp : p.Uses HttpOp.Apart) (hr : r.Calm) : Calms p r :=
  Prog.Fulfils.of_uses (fun _ _ ho hu => apart_next ho hu) hp hr

theorem calms_bind {f : α → Prog HttpOp β} (hp : Calms p r)
    (hf : ∀ a u, Remedy.Calm u → Calms (f a) u) : Calms (p.bind f) r :=
  Prog.Fulfils.bind (hp.mono fun a u hu => hf a u hu)

theorem calms_op {o : HttpOp β} {k : β → Prog HttpOp α} (ho : o.Apart) (hr : r.Calm)
    (hk : ∀ answer u, Remedy.Calm u → Calms (k answer) u) : Calms (.op o k) r := by
  obtain ⟨horder, hnext⟩ := apart_next ho hr
  exact ⟨horder, fun answer _ => hk answer _ (hnext answer)⟩

theorem calm_refusal (request : HttpRequest) (reply : HttpReply) : (refusal request reply).Calm := by
  unfold refusal
  split <;> trivial

/-- A POST with the client's token: the first one, or once more with a rebuilt client. -/
theorem calms_post {k : Option String → HttpRequest} (hbearer : ∀ bearer, (k bearer).bearer = bearer)
    {f : HttpReply → Prog HttpOp α} (hr : r.Unread)
    (hf : ∀ reply u, Remedy.Calm u → Calms (f reply) u) :
    Calms (.op .loadClient fun bearer => .op (.post (k bearer)) f) r := by
  refine ⟨trivial, fun bearer hread => ?_⟩
  cases r with
  | retrying token => exact False.elim hr
  | rebuilt token =>
    refine ⟨fun token' h => ?_, fun reply _ => hf reply _ trivial⟩
    cases h
    rw [hbearer]
    exact hread.2 token rfl
  | idle => exact ⟨nofun, fun reply _ => hf reply _ (calm_refusal _ _)⟩
  | refused token adoption => exact ⟨nofun, fun reply _ => hf reply _ (calm_refusal _ _)⟩

theorem apart_captureSession (headers : Entries String) :
    (HttpBackend.captureSession headers).Uses HttpOp.Apart := by
  unfold HttpBackend.captureSession
  split
  · exact ⟨trivial, fun _ => trivial⟩
  · trivial

theorem apart_discoverOn (status : Nat) (headers : Entries String) :
    (b.discoverOn status headers).Uses HttpOp.Apart := by
  unfold HttpBackend.discoverOn
  split
  · split
    · exact (Prog.uses_lift (fun _ => trivial) _).bind fun _ => trivial
    · trivial
  · trivial

theorem calms_postJson (hr : r.Unread) : Calms (b.postJson message extraHeaders sentSession) r := by
  simp only [HttpBackend.postJson, Prog.bind_eq, Prog.perform_bind]
  refine calms_post (fun _ => rfl) hr fun reply u hu => ?_
  rcases reply with ⟨timeout, e⟩ | ⟨status, headers, body⟩
  · exact hu
  · refine calms_bind (calms_apart (apart_discoverOn status headers) hu) fun _ v hv => ?_
    rcases body with e | body <;> exact hv

/-- The request is sent once more with another token. -/
theorem calms_retryWith {token : String} (hr : r.Calm)
    (htoken : ∀ refused adoption, r = .refused refused adoption →
      Another refused (clientToken (some token))) :
    Calms (b.retryWith message extraHeaders sentSession token) r := by
  simp only [HttpBackend.retryWith, Prog.bind_eq, Prog.perform_bind]
  refine ⟨htoken, fun _ _ => ?_⟩
  have hunread : (HttpOp.remedy (.storeClient (clientToken (some token))) () r).Unread := by
    cases r <;> trivial
  refine calms_bind (calms_postJson hunread) fun reply u hu => ?_
  rcases reply with e | ⟨body, status, headers⟩
  · exact hu
  · refine calms_bind (calms_apart (apart_captureSession headers) hu) fun _ v hv => ?_
    split
    · split <;> exact hv
    · exact hv

theorem calms_exchange (hr : r.Unread) :
    Calms (b.exchange message extraHeaders sentSession retry) r := by
  simp only [HttpBackend.exchange, Prog.bind_eq]
  refine calms_bind (calms_postJson hr) fun reply u hu => ?_
  rcases reply with e | ⟨body, status, headers⟩
  · exact hu
  refine calms_bind (calms_apart (apart_captureSession headers) hu) fun _ v hv => ?_
  split
  · exact hv
  split
  · rename_i manager _ _
    -- what the token manager yields is another token, if one was refused
    have hyields : (oauthDo (manager.getToken b.id b.daemonMode)).Fulfils remedyContract
        (fun result u => u.Calm ∧ ∀ token, result = .ok token → ∀ refused adoption,
          u = .refused refused adoption → Another refused (clientToken (some token))) v := by
      cases v with
      | rebuilt token => exact False.elim hv
      | retrying token => exact False.elim hv
      | idle =>
        refine (Prog.Fulfils.of_uses (A := HttpOp.Apart) (J := (· = .idle)) (fun o u ho hu => ?_)
          (Prog.uses_lift (fun _ => trivial) _) rfl).mono fun result u hu => ?_
        · subst hu
          obtain ⟨horder, -⟩ := apart_next (r := .idle) ho trivial
          refine ⟨horder, fun answer => ?_⟩
          cases o <;> first | rfl | exact False.elim ho
        · subst hu
          exact ⟨trivial, nofun⟩
      | refused token adoption =>
        refine (Prog.fulfils_lift.mpr yields_getToken).mono fun result u hu => ?_
        obtain ⟨⟨adoption', rfl⟩, hanother⟩ := hu
        refine ⟨trivial, fun t ht refused adoption h => ?_⟩
        cases h
        exact hanother t ht
    refine Prog.Fulfils.bind (hyields.mono fun result u hu => ?_)
    rcases result with e | token
    · exact hu.1
    · exact calms_retryWith hu.1 (hu.2 token rfl)
  · exact hv

theorem calms_sendRequestInner (hr : r.Calm) :
    Calms (b.sendRequestInner method params retry) r := by
  have hannotations : (HttpBackend.annotations method params).Uses HttpOp.Apart := by
    unfold HttpBackend.annotations
    split
    · exact ⟨trivial, fun _ => trivial⟩
    · trivial
  have hextra : (HttpBackend.extraHeaders method params).Uses HttpOp.Apart := by
    refine hannotations.bind fun known => ?_
    split <;> trivial
  simp only [HttpBackend.sendRequestInner, Prog.bind_eq, Prog.perform_bind]
  refine calms_op trivial hr fun id u hu => ?_
  refine calms_bind (calms_apart hextra hu) fun headers v hv => ?_
  exact calms_op trivial hv fun sid w hw => calms_exchange hw.unread

theorem calms_sendNotification (hr : r.Calm) : Calms (b.sendNotification method params) r := by
  simp only [HttpBackend.sendNotification, Prog.bind_eq, Prog.perform_bind]
  -- the client is read before the session id
  refine ⟨trivial, fun bearer _ => ⟨trivial, fun sid _ => ⟨?_, fun reply _ => ?_⟩⟩⟩
  · cases r <;> first | exact False.elim hr | exact fun _ h => by cases h
  · have hcalm : (HttpOp.remedy (.post ⟨.notification method params, bearer, [],
        sid.filter headerValueOk⟩) reply (HttpOp.remedy .loadSession sid
          (HttpOp.remedy .loadClient bearer r))).Calm := by
      cases r <;> first | exact False.elim hr | exact calm_refusal _ _
    rcases reply with ⟨timeout, e⟩ | ⟨status, headers, body⟩
    · exact hcalm
    · dsimp only
      split <;> exact hcalm

theorem calms_handshake (hr : r.Calm) : Calms b.handshake r := by
  simp only [HttpBackend.handshake, Prog.bind_eq]
  refine calms_bind (calms_sendRequestInner hr) fun reply u hu => ?_
  rcases reply with failure | result
  · exact hu
  · dsimp only
    split
    · exact hu
    · exact calms_bind (calms_sendNotification hu) fun _ v hv => hv

theorem calms_reinit {seenEpoch : Nat} (hr : r.Calm) : Calms (b.reinitialize seenEpoch) r := by
  unfold HttpBackend.reinitialize Prog.withLock
  refine calms_op trivial hr fun _ u hu => Prog.Fulfils.andFinally ?_ fun _ => trivial
  refine ⟨trivial, fun epoch _ => ?_⟩
  simp only [Prog.ret_bind]
  split
  · exact fun _ => hu
  refine Prog.Fulfils.mono (Q := fun _ u => u.Calm) ?_ fun _ v hv _ => hv
  simp only [HttpBackend.reinitializeOnce, Prog.bind_eq, Prog.perform_bind]
  refine calms_op trivial hu fun stale v hv => ?_
  refine calms_bind (calms_handshake hv) fun outcome w hw => calms_op trivial hw fun _ w hw => ?_
  rcases outcome with e | init
  · exact calms_op trivial hw fun _ _ h => h
  · exact calms_op trivial hw fun _ _ h => calms_op trivial h fun _ _ h => h

theorem calms_sendRequest (hr : r.Calm) : Calms (b.sendRequest method params retry) r := by
  simp only [HttpBackend.sendRequest, Prog.bind_eq, Prog.perform_bind]
  refine calms_op trivial hr fun epoch u hu => ?_
  refine calms_bind (calms_sendRequestInner hu) fun reply v hv => ?_
  rcases reply with failure | value
  · dsimp only
    split
    · exact hv
    · refine calms_bind (calms_reinit hv) fun x w hw => ?_
      rcases x with e | _
      · exact hw
      · exact calms_bind (calms_sendRequestInner hw) fun _ _ h => h
  · exact hv

/-- A call that connects adopts a stored token first, before it has sent anything. -/
theorem calms_connect : Calms b.connect .idle := by
  simp only [HttpBackend.connect, Prog.bind_eq, Prog.perform_bind]
  refine ⟨trivial, fun needed _ => ?_⟩
  have hadopt : b.adoptToken.Fulfils remedyContract (fun _ u => u = .idle) .idle := by
    unfold HttpBackend.adoptToken
    split
    · exact rfl
    · refine Prog.Fulfils.bind (Prog.Fulfils.mono (Prog.Fulfils.of_uses (A := HttpOp.Apart)
        (J := (· = .idle)) (fun o u ho hu => ?_) (Prog.uses_lift (fun _ => trivial) _) rfl)
        fun token u hu => ?_)
      · subst hu
        obtain ⟨horder, -⟩ := apart_next (r := .idle) ho trivial
        refine ⟨horder, fun answer => ?_⟩
        cases o <;> first | rfl | exact False.elim ho
      · subst hu
        rcases token with _ | token
        · exact rfl
        · exact ⟨nofun, fun _ _ => rfl⟩
  -- a handshake, with the token adopted before it, or no handshake at all
  cases needed with
  | true =>
    refine Prog.Fulfils.bind (hadopt.mono fun _ u hu => ?_)
    subst hu
    refine calms_bind (calms_handshake trivial) fun reply u hu => ?_
    rcases reply with e | init
    · exact hu
    · exact calms_op trivial hu fun _ _ h => calms_op trivial h fun _ _ h => h
  | false =>
    refine calms_op trivial trivial fun init u hu => ?_
    rcases init with _ | init <;> exact hu

/-- The methods that check the connection and then send a request. -/
theorem calms_checked {k : Prog HttpOp (BackendResult α)} (hk : ∀ u, Remedy.Calm u → Calms k u)
    (hr : r.Calm) :
    Calms (b.checkConnected.bind fun
      | .error e => .ret (.error e)
      | .ok () => k) r := by
  simp only [HttpBackend.checkConnected, Prog.bind_eq, Prog.perform_bind, Prog.op_bind]
  refine calms_op trivial hr fun connected u hu => ?_
  cases connected with
  | true => exact hk u hu
  | false => exact hu

/-- Every call of a backend fulfils the contract. -/
theorem calms_httpCall (call : HttpCall) : Calms (call.run b) .idle := by
  cases call with
  | connect => exact calms_bind calms_connect fun _ _ h => h
  | disconnect => exact calms_op trivial trivial fun _ _ h => h
  | takeToolsRefresh => exact calms_op trivial trivial fun _ _ h => h
  | listTools =>
    refine calms_bind (calms_checked (fun u hu => ?_) trivial) fun _ _ h => h
    refine calms_bind (calms_sendRequest hu) fun reply v hv => ?_
    rcases reply with e | result
    · exact hv
    dsimp only
    split
    · exact hv
    · split
      · exact hv
      · exact calms_op trivial hv fun _ _ h => h
  | callTool name arguments =>
    exact calms_bind (calms_checked (fun u hu => calms_sendRequest hu) trivial) fun _ _ h => h
  | request method params forwarded =>
    exact calms_bind (calms_checked (fun u hu => calms_sendRequest hu) trivial) fun _ _ h => h
  | healthCheck =>
    refine calms_bind (calms_checked (fun u hu => ?_) trivial) fun _ _ h => h
    refine calms_bind (calms_sendRequest hu) fun reply v hv => ?_
    rcases reply with e | _ <;> exact hv
  | reinitialize seenEpoch => exact calms_bind (calms_reinit trivial) fun _ _ h => h

end Walk

/-! ## The runs -/

section Runs

variable {ι : Type} [DecidableEq ι]

/-- Where a caller stands after a history. -/
def remedyOf (i : ι) (l : HttpHistory ι) : Remedy := remedyContract.after .idle i l

/-- Every request that is sent once more after a 401 carries another token than the refused
one. -/
def Remedied : HttpHistory ι → Prop
  | [] => True
  | p :: l => (∀ request ∈ p.op.posted, ∀ token, remedyOf p.caller l = .retrying token →
      Another token request.bearer) ∧ Remedied l

/-- It can be read off a history. -/
def decidableRemedied : (l : HttpHistory ι) → Decidable (Remedied l)
  | [] => .isTrue trivial
  | p :: l =>
    have : Decidable (Remedied l) := decidableRemedied l
    inferInstanceAs (Decidable ((∀ request ∈ p.op.posted, ∀ token,
      remedyOf p.caller l = .retrying token → Another token request.bearer) ∧ Remedied l))

instance (l : HttpHistory ι) : Decidable (Remedied l) := decidableRemedied l

/-- The client that an operation builds. -/
def HttpOp.builds {β : Type} : HttpOp β → Option (Option String)
  | .storeClient bearer => some bearer
  | _ => none

/-- After a refusal the token manager is offered another token. It is about every step of every
caller, and mentions no retry. -/
def OffersAnother (ι : Type) [DecidableEq ι] : Rule HttpOp ι HttpChoice (HttpRun ι) :=
  fun i β o e s => ∀ r ∈ (httpMachine ι).exec i β o e s.state, o.Offers r.1 (remedyOf i s.log)

instance (i : ι) (β : Type) (o : HttpOp β) (e : HttpChoice) (s : HttpRun ι) :
    Decidable (OffersAnother ι i β o e s) :=
  inferInstanceAs (Decidable (∀ r ∈ (httpMachine ι).exec i β o e s.state,
    o.Offers r.1 (remedyOf i s.log)))

/-- Nobody builds a client with a refused token while the caller that was refused has rebuilt the
client and not yet read it. -/
def LeavesClient (ι : Type) [DecidableEq ι] : Rule HttpOp ι HttpChoice (HttpRun ι) :=
  fun i _ o _ s => ∀ bearer ∈ o.builds, ∀ j, j ≠ i → ∀ token,
    remedyOf j s.log = .rebuilt token → Another token bearer

/-- A caller of the backend, or of another backend with the same token manager. -/
inductive Sharer : Type where
  | own (call : HttpCall) : Sharer
  | sibling (manager : Manager) (call : Manager.Call) : Sharer

/-- One caller as a task. -/
def Sharer.run (b : HttpBackend) : Sharer → Prog HttpOp Unit
  | own call => call.run b
  | sibling manager call => do
    let _ ← oauthDo (manager.call call)
    .ret ()

/-- Any number of concurrent callers. -/
def HttpBackend.sharedPool (b : HttpBackend) (start : HttpWorld ι) (callers : ι → Sharer) :
    Pool HttpOp ι (HttpRun ι) Unit :=
  ⟨⟨start, []⟩, fun i => (callers i).run b⟩

theorem calms_sharer (b : HttpBackend) (caller : Sharer) : Calms (caller.run b) .idle := by
  cases caller with
  | own call => exact calms_httpCall call
  | sibling manager call =>
    have hcall : (oauthDo (manager.call call)).Uses HttpOp.Apart :=
      Prog.uses_lift (fun _ => trivial) _
    exact calms_bind (calms_apart hcall trivial) fun _ _ h => h

variable {i j : ι} {β : Type} {o : HttpOp β} {answer : β} {e : HttpChoice} {s t : HttpWorld ι}
  {l : HttpHistory ι} {token : String}

/-- Only a build changes the client. -/
theorem exec_client (ho : o.builds = none)
    (h : (httpMachine ι).exec i β o e s = some (answer, t)) : t.client = s.client := by
  cases o with
  | storeClient bearer => cases ho
  | oauth o =>
    obtain ⟨r, -, heq⟩ := Option.map_eq_some_iff.mp h
    obtain ⟨-, rfl⟩ := Prod.mk.inj heq
    rfl
  | lockReinit =>
    simp only [httpMachine, HttpWorld.exec] at h
    split at h
    · cases h; rfl
    · cases h
  | needsHandshake =>
    simp only [httpMachine, HttpWorld.exec] at h
    split at h <;> (cases h; rfl)
  | _ => cases h; rfl

/-- A caller has rebuilt the client just now, or had already. -/
theorem remedy_eq_rebuilt {r : Remedy} (h : o.remedy answer r = .rebuilt token) :
    (∃ bearer adoption, o.builds = some bearer ∧ r = .refused token adoption) ∨
      (o.builds = none ∧ r = .rebuilt token) := by
  -- the only operations that touch the client are those that build, load or send through it
  cases o with
  | storeClient bearer =>
    cases r with
    | refused token' adoption =>
      cases h
      exact .inl ⟨bearer, adoption, rfl, rfl⟩
    | _ => cases h
  | oauth o =>
    cases r with
    | rebuilt token' => exact .inr ⟨rfl, h⟩
    | _ => cases h
  | loadClient => cases r <;> cases h
  | post request =>
    have hcalm := calm_refusal request answer
    cases r with
    | retrying token' => cases h
    | _ =>
      rw [show refusal request answer = .rebuilt token from h] at hcalm
      exact False.elim hcalm
  | _ => exact .inr ⟨rfl, h⟩

/-- A rebuilt client has another token than the refused one until it is read. -/
def ClientKept (s : HttpRun ι) : Prop :=
  ∀ j token, remedyOf j s.log = .rebuilt token → Another token s.state.client

theorem ClientKept.step {s t : HttpRun ι} (hs : ClientKept s)
    (hexec : (httpMachine ι).exec i β o e s.state = some (answer, t.state))
    (hlog : t.log = ⟨i, o, answer⟩ :: s.log) (horder : o.Remedies (remedyOf i s.log))
    (hclient : LeavesClient ι i β o e s) : ClientKept t := by
  intro j token hj
  rw [hlog] at hj
  -- the caller itself, or another one that the condition keeps from the client
  by_cases hij : i = j
  · subst hij
    rw [remedyOf, Ledger.after_own] at hj
    -- it has rebuilt the client just now, or before
    rcases remedy_eq_rebuilt hj with ⟨bearer, adoption, hbuilds, hrefused⟩ | ⟨hnone, hrebuilt⟩
    · cases o with
      | storeClient bearer' =>
        obtain ⟨-, hstate⟩ := Prod.mk.inj (Option.some.inj hexec)
        rw [← hstate]
        exact horder token adoption hrefused
      | _ => cases hbuilds
    · rw [exec_client hnone hexec]
      exact hs i token hrebuilt
  · rw [remedyOf, Ledger.after_other hij] at hj
    rcases hbuilds : o.builds with _ | bearer
    · rw [exec_client hbuilds hexec]
      exact hs j token hj
    · cases o with
      | storeClient bearer' =>
        obtain ⟨-, hstate⟩ := Prod.mk.inj (Option.some.inj hexec)
        rw [← hstate]
        exact hclient bearer' rfl j (Ne.symm hij) token hj
      | _ => cases hbuilds

/-- What is in order is remedied. -/
theorem remedied_of_kept {l : HttpHistory ι} (h : remedyContract.Kept .idle l) : Remedied l := by
  induction l with
  | nil => trivial
  | cons p l ih =>
    refine ⟨fun request hrequest token hretrying => ?_, ih h.2⟩
    obtain ⟨caller, o, answer⟩ := p
    cases o with
    | post request' =>
      cases hrequest
      exact h.1 token hretrying
    | _ => cases hrequest

/-- What holds of the callers in every reachable state. -/
structure RemedyHolds (c : Pool HttpOp ι (HttpRun ι) Unit) : Prop where
  contract : remedyContract.Holds .idle (fun _ _ => True) c
  client : ClientKept c.shared

theorem RemedyHolds.step {l : ι × HttpChoice} {c c' : Pool HttpOp ι (HttpRun ι) Unit}
    (h : RemedyHolds c)
    (hC : ∀ (δ : Type) (o : HttpOp δ) (k : δ → Prog HttpOp Unit), c.task l.1 = .op o k →
      OffersAnother ι l.1 δ o l.2 c.shared ∧ LeavesClient ι l.1 δ o l.2 c.shared)
    (hstep : (httpMachine ι).recorded.step l c = some c') : RemedyHolds c' := by
  constructor
  · -- the answer of each operation is one that the contract allows
    refine h.contract.step (fun δ o k b hop horder hexec hlog => ?_) hstep
    refine ⟨(hC δ o k hop).1 _ hexec, ?_⟩
    cases o with
    | loadClient =>
      intro token hrebuilt
      obtain ⟨hb, -⟩ := Prod.mk.inj (Option.some.inj hexec)
      rw [← hb]
      exact h.client l.1 token hrebuilt
    | _ => trivial
  · -- and the client is still the one that the caller has built
    obtain ⟨q, hfire, -⟩ := Machine.step_eq_some _ hstep
    obtain ⟨δ, o, k, b, hop, hexec, -⟩ := Machine.fire_eq_some _ hfire
    obtain ⟨hexec, hlog⟩ := Machine.recorded_exec hexec
    have hfulfils := h.contract.fulfils l.1
    rw [hop] at hfulfils
    exact h.client.step hexec hlog hfulfils.1 (hC δ o k hop).2

/-- **The remedy is another token**: whatever the state of the token manager and however the
callers interleave, every request that is sent once more after a 401 carries another token than
the refused one, in every run in which the token manager is offered another token after a
refusal and nobody else puts the refused one back into the client. -/
theorem retry_carries_another_token (b : HttpBackend) (callers : ι → Sharer) {start : HttpWorld ι}
    {ls : List (ι × HttpChoice)} {c : Pool HttpOp ι (HttpRun ι) Unit}
    (hoffers : (httpMachine ι).recorded.Meets (OffersAnother ι) ls (b.sharedPool start callers))
    (hclient : (httpMachine ι).recorded.Meets (LeavesClient ι) ls (b.sharedPool start callers))
    (hp : (httpMachine ι).recorded.play ls (b.sharedPool start callers) = some c) :
    Remedied c.shared.log := by
  have hstart : RemedyHolds (b.sharedPool start callers) :=
    ⟨⟨fun i => (calms_sharer b (callers i)).mono fun _ _ _ => trivial, trivial⟩, nofun⟩
  have hend := Machine.play_induct _ (P := RemedyHolds)
    (fun _ _ _ h hC hstep => h.step hC hstep) hstart (hoffers.and _ hclient) hp
  exact remedied_of_kept hend.contract.kept

end Runs

/-! ### A token that is revoked early -/

/-- The sample backend with OAuth2. -/
def guardedHttp : HttpBackend := { sampleHttp with manager := some interactive }

/-- It is connected with the token `t1`; the token manager has a token for another hour. -/
def guardedStart (cached : String) : HttpWorld Unit :=
  { sessionStart Unit with
    client := some "t1"
    oauth := { OAuthWorld.empty Unit with cache := some ⟨cached, none, none, secs 3600⟩ } }

/-- A call whose request is refused, and is sent once more. -/
def refusedCall : List (Unit × HttpChoice) :=
  turns () [{}, {}, {}, {}, {}, { reply := .response 401 [] (.ok "") }, {}, {}, {}, {},
    .echoed "s1", {}]

/-- A caller that calls a tool. -/
def toolCaller : Unit → Sharer := fun _ => .own (.callTool "search" none)

/-- The token manager has another token, as a sibling has obtained it meanwhile. -/
theorem another_token_is_sent :
    ∃ c, (httpMachine Unit).recorded.play refusedCall
        (guardedHttp.sharedPool (guardedStart "t2") toolCaller) = some c ∧
      Remedied c.shared.log := by
  have hrun : ((httpMachine Unit).recorded.play refusedCall
      (guardedHttp.sharedPool (guardedStart "t2") toolCaller)).isSome = true := by
    decide +kernel
  obtain ⟨c, hc⟩ := Option.isSome_iff_exists.mp hrun
  have hoffers : (httpMachine Unit).recorded.Meets (OffersAnother Unit) refusedCall
      (guardedHttp.sharedPool (guardedStart "t2") toolCaller) := by
    decide +kernel
  have hclient : (httpMachine Unit).recorded.Meets (LeavesClient Unit) refusedCall
      (guardedHttp.sharedPool (guardedStart "t2") toolCaller) :=
    (Machine.meets_true _ _ _).mono _ fun _ _ _ _ _ _ _ _ _ hj => absurd rfl hj
  exact ⟨c, hc, retry_carries_another_token guardedHttp toolCaller hoffers hclient hc⟩

/-- The token manager still believes in the refused token: it is sent again. -/
theorem refused_token_is_sent_again :
    ∃ c, (httpMachine Unit).recorded.play refusedCall
        (guardedHttp.sharedPool (guardedStart "t1") toolCaller) = some c ∧
      ¬ Remedied c.shared.log := by
  have hrun : ((httpMachine Unit).recorded.play refusedCall
      (guardedHttp.sharedPool (guardedStart "t1") toolCaller)).map (fun c =>
        decide (Remedied c.shared.log)) = some false := by
    decide +kernel
  obtain ⟨c, hc, hend⟩ := Option.map_eq_some_iff.mp hrun
  exact ⟨c, hc, of_decide_eq_false hend⟩

end HeadlessMcp
