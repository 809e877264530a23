import HeadlessMcp.OAuth2.Rotation

/-!
# Refresh tokens and the clients they were issued to

A refresh token is only good for the client it was issued to. Without a configured client id
the manager registers a client of its own and keeps its id next to the token, in the cache and
in the store (`Paired`). A new registration writes the new id into the cached entry before its
grant has succeeded, and leaves the old refresh token there. `RegistersAlone` is the condition
under which no token is left behind.
-/

namespace HeadlessMcp

open Async Machine

namespace Pairing

/-- A refresh token was issued to a client: by one of the exchanges, or before them. -/
def IssuedTo (known : String → String → Prop) (exchanges : List (TokenForm × JsonReply))
    (refreshToken : String) (clientId : Option String) : Prop :=
  ∃ id ∈ clientId, known refreshToken id ∨
    ∃ x ∈ exchanges, issuedBy x = some refreshToken ∧ x.1.clientId = id

/-- Every refresh token, cached or stored, was issued to the client id next to it. -/
structure Paired (known : String → String → Prop) (T : Tokens) : Prop where
  cached : ∀ c ∈ T.cache, ∀ r ∈ c.refreshToken, IssuedTo known T.exchanges r c.clientId
  stored : ∀ key, ∀ p ∈ T.store key, ∀ r ∈ p.refreshToken,
    IssuedTo known T.exchanges r p.clientId

/-- A registered client id is only cached while there is no refresh token in the cache. -/
def RegistersAlone (ι : Type) : Rule OAuthOp ι OAuthChoice (OAuthWorld ι)
  | _, _, .updateCache f, _, s =>
    (∃ id, f = Manager.withDynamicClientId id) → ∀ c ∈ s.cache, c.refreshToken = none
  | _, _, _, _, _ => True

variable {ι : Type} {known : String → String → Prop} {i : ι} {α : Type} {s : OAuthWorld ι}

theorem IssuedTo.cons {exchanges : List (TokenForm × JsonReply)} {r : String}
    {clientId : Option String} (h : IssuedTo known exchanges r clientId)
    (x : TokenForm × JsonReply) : IssuedTo known (x :: exchanges) r clientId := by
  obtain ⟨id, hid, h | ⟨y, hy, hissued⟩⟩ := h
  · exact ⟨id, hid, .inl h⟩
  · exact ⟨id, hid, .inr ⟨y, List.mem_cons_of_mem _ hy, hissued⟩⟩

/-- One more exchange unpairs nothing. A pair that was once made by an exchange stays made. -/
theorem Paired.cons {T : Tokens} (h : Paired known T) (x : TokenForm × JsonReply) :
    Paired known { T with exchanges := x :: T.exchanges } :=
  ⟨fun c hc r hr => (h.cached c hc r hr).cons x,
    fun key p hp r hr => (h.stored key p hp r hr).cons x⟩

/-- A token that an accepted answer issues was issued to the client of the request. -/
theorem issuedTo_answer {form : TokenForm} {status : ℕ} {body : Value} {r : String}
    {exchanges : List (TokenForm × JsonReply)} (hstatus : isSuccess status = true)
    (hr : refreshTokenOf body = some r) :
    IssuedTo known ((form, .json status body) :: exchanges) r (some form.clientId) := by
  refine ⟨form.clientId, rfl, .inr ⟨_, List.mem_cons_self, ?_, rfl⟩⟩
  rw [issuedBy, JsonReply.accepted, if_pos hstatus]
  exact hr

/-- The tokens are paired in every state. -/
abbrev PairingSafe (known : String → String → Prop) (i : ι) (p : Prog OAuthOp α)
    (Q : Outcome α → OAuthWorld ι → Prop) (s : OAuthWorld ι) : Prop :=
  (lockProtocol ι (Paired known) fun _ => True).Safe (oauthMachine ι) (RegistersAlone ι) i p Q s

/-- The task has the refresh lock. -/
abbrev Holds (i : ι) : OAuthWorld ι → Prop := Inside i fun _ => True

/-- The cache holds an entry of a client. Without an entry there is nothing that could belong to a
client. -/
def OfClient (client : String) (T : Tokens) : Prop :=
  ∃ c, T.cache = some c ∧ c.clientId = some client

section Walk

variable {m : Manager} {backendId : String} {client : String} {J : Tokens → Prop}
  {Q : Outcome α → OAuthWorld ι → Prop}

theorem holds_of_inside {s : OAuthWorld ι} (hs : Inside i J s) : Holds i s := ⟨hs.1, trivial⟩

/-- A critical section of the cache that leaves a paired entry behind. -/
theorem safe_updateCache {K : TokenCache → Tokens → Prop}
    {f : Instant → Option TokenCache → Option TokenCache} {k : Option TokenCache → Prog OAuthOp α}
    (hs : Inside i J s)
    (hf : ∀ T now c, J T → Paired known T →
      ((∃ id, f = Manager.withDynamicClientId id) → ∀ c ∈ T.cache, c.refreshToken = none) →
      f now T.cache = some c →
        (∀ r ∈ c.refreshToken, IssuedTo known T.exchanges r c.clientId) ∧
          K c { T with cache := some c })
    (hnone : ∀ t, Inside i J t → PairingSafe known i (k none) Q t)
    (hsome : ∀ c t, Inside i (K c) t → PairingSafe known i (k (some c)) Q t) :
    PairingSafe known i (.op (.updateCache f) k) Q s := by
  refine safe_inside_op ⟨id, id⟩ hs fun s' e b t hs' hpaired hC he ht => ?_
  obtain ⟨-, hb, rfl⟩ := exec_updateCache he
  cases b with
  | none => exact ⟨hpaired, hnone _ ⟨ht, hs'.2⟩⟩
  | some c =>
    obtain ⟨hissued, hK⟩ := hf s'.tokens _ c hs'.2 hpaired hC hb.symm
    refine ⟨⟨fun c' hc' => ?_, hpaired.stored⟩, hsome c _ ⟨ht, hK⟩⟩
    cases hc'
    exact hissued

/-- Posting a form. -/
theorem safe_postToken {endpoint : String} (form : TokenForm) {k : JsonReply → Prog OAuthOp α}
    (hs : Inside i J s)
    (hk : ∀ reply t, Inside i (fun T => ∃ T', J T' ∧ T.cache = T'.cache ∧
      T.exchanges = (form, reply) :: T'.exchanges) t → PairingSafe known i (k reply) Q t) :
    PairingSafe known i (.op (.postToken endpoint form) k) Q s := by
  refine safe_inside_op ⟨id, id⟩ hs fun s' e b t hs' hpaired _ he ht => ?_
  obtain ⟨rfl, rfl⟩ := Prod.mk.inj (Option.some.inj he)
  exact ⟨hpaired.cons _, hk _ _ ⟨ht, s'.tokens, hs'.2, rfl, rfl⟩⟩

/-- What is written through is the cached entry. -/
theorem safe_saveToken {entry : TokenCache} {expiresIn : Nat}
    (hs : Inside i (fun T => T.cache = some entry) s) :
    PairingSafe known i (saveToken backendId entry expiresIn) (fun _ t => Holds i t) s := by
  simp only [saveToken, Prog.bind_eq, Prog.perform_bind]
  refine safe_quiet_op trivial hs fun _ _ now t _ _ _ ht _ => ?_
  refine safe_inside_op ⟨id, id⟩ ht fun s' e b t hs' hpaired _ he hholder => ?_
  obtain ⟨rfl, rfl⟩ := Prod.mk.inj (Option.some.inj he)
  refine ⟨⟨hpaired.cached, fun key p hp r hr => ?_⟩, safe_inside_ret ⟨hholder, trivial⟩ fun _ h => h⟩
  simp only [OAuthWorld.tokens] at hp
  split at hp
  · by_cases hkey : key = tokenKey backendId
    · subst hkey
      rw [Function.update_self] at hp
      cases hp
      exact hpaired.cached entry hs'.2 r hr
    · rw [Function.update_of_ne hkey] at hp
      exact hpaired.stored key p hp r hr
  · exact hpaired.stored key p hp r hr

/-- An accepted answer to a request of the cached client, before it is cached. -/
structure Answered (known : String → String → Prop) (client : String) (body : Value) (T : Tokens) :
    Prop where
  ofClient : OfClient client T
  issued : ∀ r ∈ refreshTokenOf body, IssuedTo known T.exchanges r (some client)

/-- Caching it keeps the client. The answer is cached under the client that its request named, and
that is the client of the cache. -/
theorem safe_cacheTokenResponse {body : Value} (hm : m.config.clientId = none)
    (hs : Inside i (Answered known client body) s) :
    PairingSafe known i (m.cacheTokenResponse body backendId) (fun _ t => Holds i t) s := by
  unfold Manager.cacheTokenResponse
  split
  · exact safe_inside_ret hs fun _ h => holds_of_inside h
  · rename_i accessToken haccess
    simp only [Prog.bind_eq, Prog.perform_bind]
    refine safe_quiet_op trivial hs fun _ _ now t _ _ _ ht _ => ?_
    split
    · exact safe_inside_panic ht fun _ h => holds_of_inside h
    · rename_i expiresAt hexpires
      refine safe_updateCache (K := fun c T => T.cache = some c) ht
        (fun T now c hT hpaired _ hc => ?_)
        (fun u hu => safe_inside_panic hu fun _ h => holds_of_inside h) fun c u hu => ?_
      · refine ⟨fun r hr => ?_, rfl⟩
        obtain rfl := Option.some.inj hc
        obtain ⟨c, hcache, hclient⟩ := hT.ofClient
        have hid : (m.config.clientId <|> T.cache.bind TokenCache.clientId) = some client := by
          rw [hm, hcache]
          exact hclient
        rw [hid]
        rcases hissued : refreshTokenOf body with _ | r'
        · -- the answer omits it, so it is the cached one
          rw [hissued, hcache] at hr
          rw [← hclient]
          exact hpaired.cached c hcache r hr
        · rw [hissued] at hr
          obtain rfl := Option.some.inj hr
          exact hT.issued r' hissued
      · dsimp only
        split
        · refine Protocol.Safe.bind (Protocol.Safe.mono (safe_saveToken hu) fun x v _ hv => ?_)
          cases x with
          | done _ => exact safe_inside_ret hv fun _ h => h
          | panicked => exact hv
        · exact safe_inside_ret hu fun _ h => holds_of_inside h

/-- The answer to a request of the cached client. -/
theorem inside_answered (form : TokenForm) {status : ℕ} {body : Value} {s : OAuthWorld ι}
    (hstatus : isSuccess status = true)
    (hs : Inside i (fun T => ∃ T', OfClient form.clientId T' ∧ T.cache = T'.cache ∧
      T.exchanges = (form, .json status body) :: T'.exchanges) s) :
    Inside i (Answered known form.clientId body) s := by
  obtain ⟨hholder, T', ⟨c, hcache, hclient⟩, hsame, hexchanges⟩ := hs
  refine ⟨hholder, ⟨c, hsame.trans hcache, hclient⟩, fun r hr => ?_⟩
  rw [hexchanges]
  exact issuedTo_answer hstatus hr

/-- `do_refresh` with a token of the cached client. -/
theorem safe_doRefresh {refreshToken : String} (hm : m.config.clientId = none)
    (hs : Inside i (OfClient client) s) :
    PairingSafe known i (m.doRefresh refreshToken backendId) (fun _ t => Holds i t) s := by
  simp only [Manager.doRefresh, Prog.bind_eq, Prog.perform_bind]
  refine safe_quiet_bind resolveTokenEndpoint_quiet hs (fun endpoint t ht => ?_)
    fun t ht => holds_of_inside ht
  cases endpoint with
  | error e => exact safe_inside_ret ht fun _ h => holds_of_inside h
  | ok endpoint =>
    simp only [Manager.currentClientId, hm, Prog.bind_eq, Prog.perform_bind, Prog.op_bind]
    refine safe_quiet_op trivial ht fun s' e r u hs' _ he hu _ => ?_
    obtain ⟨-, rfl, -⟩ := exec_readCache he
    obtain ⟨c, hcache, hclient⟩ := hs'.2
    have hid : s'.cache.bind TokenCache.clientId = some client := by
      rw [show s'.cache = some c from hcache]
      exact hclient
    simp only [Prog.ret_bind, hid]
    refine safe_postToken (.refresh refreshToken client _) hu fun reply v hv => ?_
    cases reply with
    | failed e => exact safe_inside_ret hv fun _ h => holds_of_inside h
    | unreadable status e => exact safe_inside_ret hv fun _ h => holds_of_inside h
    | json status body =>
      dsimp only
      split
      · rename_i hstatus
        refine Protocol.Safe.bind (Protocol.Safe.mono
          (safe_cacheTokenResponse hm (inside_answered (.refresh refreshToken client _)
            hstatus hv)) fun x w _ hw => ?_)
        cases x with
        | done a => cases a <;> exact safe_inside_ret hw fun _ h => h
        | panicked => exact hw
      · exact safe_inside_ret hv fun _ h => holds_of_inside h

/-- A grant for the cached client. -/
theorem safe_grant {endpoint sendFailed : String} (form : TokenForm)
    (hm : m.config.clientId = none) (hs : Inside i (OfClient form.clientId) s) :
    PairingSafe known i (.op (.postToken endpoint form) fun reply =>
      m.tokenAnswer reply sendFailed backendId) (fun _ t => Holds i t) s := by
  refine safe_postToken form hs fun reply t ht => ?_
  cases reply with
  | failed e => exact safe_inside_ret ht fun _ h => holds_of_inside h
  | unreadable status e => exact safe_inside_ret ht fun _ h => holds_of_inside h
  | json status body =>
    simp only [Manager.tokenAnswer]
    split
    · rename_i hstatus
      exact safe_cacheTokenResponse hm (inside_answered form hstatus ht)
    · exact safe_inside_ret ht fun _ h => holds_of_inside h

/-- A registration that leaves no refresh token behind: the step at which the old refresh token
would be left with the new client id. -/
theorem safe_setDynamicClientId (hs : Holds i s) :
    PairingSafe known i (Manager.setDynamicClientId client)
      (fun _ t => Inside i (OfClient client) t) s := by
  simp only [Manager.setDynamicClientId, Prog.bind_eq, Prog.perform_bind]
  have hid : ∀ now (cache : Option TokenCache), ∃ c,
      Manager.withDynamicClientId client now cache = some c ∧ c.clientId = some client ∧
        c.refreshToken = cache.bind TokenCache.refreshToken := by
    rintro now (_ | c) <;> exact ⟨_, rfl, rfl, rfl⟩
  refine safe_inside_op ⟨id, id⟩ hs fun s' e b t hs' hpaired hC he ht => ?_
  obtain ⟨-, hb, rfl⟩ := exec_updateCache he
  obtain ⟨c, hc, hclient, hrefresh⟩ := hid e.instant s'.cache
  rw [hc] at hb
  subst hb
  refine ⟨⟨fun c' hc' r hr => ?_, hpaired.stored⟩,
    safe_inside_ret ⟨ht, c, rfl, hclient⟩ fun _ h => h⟩
  cases hc'
  rw [hrefresh] at hr
  obtain ⟨c', hcache, hr⟩ := Option.bind_eq_some_iff.mp hr
  rw [hC ⟨client, rfl⟩ c' hcache] at hr
  cases hr

/-- A stored token is paired. -/
theorem safe_loadToken {key : String} {k : Option PersistedToken → Prog OAuthOp α}
    (hs : Holds i s) (hnone : ∀ t, Holds i t → PairingSafe known i (k none) Q t)
    (hsome : ∀ stored t, Inside i (fun T => ∀ r ∈ stored.refreshToken,
      IssuedTo known T.exchanges r stored.clientId) t → PairingSafe known i (k (some stored)) Q t) :
    PairingSafe known i (.op (.loadToken key) k) Q s := by
  refine safe_inside_op ⟨id, id⟩ hs fun s' e b t hs' hpaired _ he ht => ?_
  obtain ⟨rfl, rfl⟩ := Prod.mk.inj (Option.some.inj he)
  refine ⟨hpaired, ?_⟩
  rcases hload : (if e.flag = true then s'.store key else none) with _ | stored
  · exact hnone _ ⟨ht, trivial⟩
  · refine hsome stored _ ⟨ht, hpaired.stored key stored ?_⟩
    split at hload
    · exact hload
    · cases hload

/-- `install_persisted` puts a paired token in the cache. -/
theorem safe_installPersisted {stored : PersistedToken} (hm : m.config.clientId = none)
    (hs : Inside i (fun T => ∀ r ∈ stored.refreshToken,
      IssuedTo known T.exchanges r stored.clientId) s) :
    PairingSafe known i (m.installPersisted stored) (fun x t => Holds i t ∧ (x = .done () →
      Inside i (fun T => True ∧ ∀ r ∈ stored.refreshToken, ∃ client, OfClient client T) t)) s := by
  simp only [Manager.installPersisted, Prog.bind_eq, Prog.perform_bind]
  refine safe_quiet_op trivial hs fun _ _ now t _ _ _ ht _ => ?_
  refine safe_updateCache (K := fun c T => T.cache = some c ∧
      ∀ r ∈ stored.refreshToken, ∃ client, c.clientId = some client) ht
    (fun T now c hT _ _ hc => ?_) (fun u hu => ?_) fun c u hu => ?_
  · obtain ⟨expiresAt, -, rfl⟩ := Option.map_eq_some_iff.mp hc
    have hclient : ∀ r ∈ stored.refreshToken, (m.config.clientId <|> stored.clientId <|>
        T.cache.bind TokenCache.clientId) = stored.clientId := by
      intro r hr
      obtain ⟨client, hid, -⟩ := hT r hr
      rw [hm, show stored.clientId = some client from hid]
      rfl
    refine ⟨fun r hr => ?_, rfl, fun r hr => ?_⟩
    · rw [hclient r hr]
      exact hT r hr
    · obtain ⟨client, hid, -⟩ := hT r hr
      exact ⟨client, (hclient r hr).trans hid⟩
  · exact safe_inside_panic hu fun v hv => ⟨holds_of_inside hv, fun h => by cases h⟩
  · refine safe_inside_ret hu fun v hv => ⟨holds_of_inside hv, fun _ => ⟨hv.1, trivial, ?_⟩⟩
    intro r hr
    obtain ⟨client, hclient⟩ := hv.2.2 r hr
    exact ⟨client, c, hv.2.1, hclient⟩

/-- What pairing shows of the tokens, besides that they are paired: a request is made for the
client in the cache. -/
def tokenWalk (known : String → String → Prop) (ι : Type) : TokenWalk ι where
  always := Paired known
  between _ := True
  forClient := OfClient
  presents _ T := ∃ client, OfClient client T
  loaded stored T := ∀ r ∈ stored.refreshToken, IssuedTo known T.exchanges r stored.clientId
  rule := RegistersAlone ι

/-- The five places keep it, where no client is configured. That is the case in which clients are
registered dynamically. -/
theorem laws_tokenWalk (hm : m.config.clientId = none) : (tokenWalk known ι).Laws m where
  configured client h := by
    rw [hm] at h
    cases h
  forget _ _ _ := trivial
  discard _ _ _ := trivial
  cached T hpaired _ c hc r hr := by
    obtain ⟨client, hclient, -⟩ := hpaired.cached c hc r hr
    exact ⟨client, c, hc, hclient⟩
  register _ _ _ hs := safe_setDynamicClientId hs
  grant _ _ form _ _ _ _ hs := safe_grant form hm hs
  refresh i r backendId s hs := by
    obtain ⟨hholder, client, hclient⟩ := hs
    exact safe_doRefresh hm ⟨hholder, hclient⟩
  load _ _ _ _ _ hs hnone hsome := safe_loadToken hs hnone hsome
  install _ _ _ hs := safe_installPersisted hm hs

end Walk

/-- **The cached refresh token belongs to the cached client**, in every state of every run of any
number of calls on a manager without a configured client id, when the tokens in the store were
paired at the start and no client is registered over a cached refresh token. A registration writes
the new client id over that of the cached entry: with a refresh token in that entry the pair is
broken until the next answer. -/
theorem refreshToken_belongs_to_client [DecidableEq ι] {m : Manager}
    (hm : m.config.clientId = none) {calls : ι → Manager.Call} {start : OAuthWorld ι}
    (hcache : start.cache = none) (hstore : ∀ key, ∀ p ∈ start.store key, ∀ r ∈ p.refreshToken,
      IssuedTo known start.exchanges r p.clientId)
    {ls : List (ι × OAuthChoice)} {c : Pool OAuthOp ι (OAuthWorld ι) Manager.Answer}
    (hregisters : (oauthMachine ι).Meets (RegistersAlone ι) ls
      ⟨start, fun i => m.call (calls i)⟩)
    (hp : (oauthMachine ι).play ls ⟨start, fun i => m.call (calls i)⟩ = some c) :
    ∀ entry ∈ c.shared.cache, ∀ r ∈ entry.refreshToken,
      IssuedTo known c.shared.exchanges r entry.clientId := by
  have hstart : Protocol.Holds (lockProtocol ι (Paired known) fun _ => True) (oauthMachine ι)
      (RegistersAlone ι) (fun _ _ _ => True) ⟨start, fun i => m.call (calls i)⟩ := by
    refine ⟨⟨⟨fun entry h => ?_, hstore⟩, fun _ => trivial⟩, fun i => (laws_tokenWalk hm).safe_call⟩
    rw [OAuthWorld.tokens, hcache] at h
    cases h
  exact (hstart.play hregisters hp).inv.1.cached

/-! ## Two runs -/

/-- A backend that registers its client. -/
def registering : Manager :=
  { interactive with
    config := { interactive.config with clientId := none, grantType := "client_credentials" } }

/-- A server with a registration endpoint. -/
def registrar : AuthServerMetadata where
  authorizationEndpoint := none
  tokenEndpoint := "https://idp.test/token"
  registrationEndpoint := some "https://idp.test/register"
  scopesSupported := none
  codeChallengeMethodsSupported := none

/-- Its answer to a registration. -/
def registeredAs (client : String) : OAuthChoice :=
  { reply := .json 201 (.object [("client_id", .string client)]) }

/-- A new process that has found the registrar, over any store. -/
def registrarFound (ι : Type) (stored : Option PersistedToken) : OAuthWorld ι where
  refreshHolder := none
  cache := none
  discovered := some registrar
  instant := 0
  store := fun key => if key = tokenKey "api" then stored else none
  exchanges := []
  browser := []

/-- The tasks of the runs. -/
def pairingCalls : Fin 2 → Manager.Call
  | 0 => .adoptPersisted "api"
  | 1 => .getToken "api" false

/-- Nothing is stored: a client is registered and gets its first refresh token. -/
def firstRegistration : List (Fin 2 × OAuthChoice) :=
  turns 1 [{}, {}, {}, {}, {}, registeredAs "c1", {},
    { reply := .json 200 (rotatedToken "a1" "r1") }, {}, {}, {}, {}, {}]

/-- No update of the cache finds a refresh token there. -/
def NothingCached (ι : Type) : Rule OAuthOp ι OAuthChoice (OAuthWorld ι)
  | _, _, .updateCache _, _, s => ∀ c ∈ s.cache, c.refreshToken = none
  | _, _, _, _, _ => True

instance {ι β : Type} (i : ι) (o : OAuthOp β) (e : OAuthChoice) (s : OAuthWorld ι) :
    Decidable (NothingCached ι i β o e s) := by
  apply OAuthOp.casesOn (motive := fun β o => Decidable (NothingCached ι i β o e s)) o <;> intros
    <;> unfold NothingCached <;> infer_instance

/-- It belongs to the client. -/
theorem first_registration_is_paired :
    ∃ c, (oauthMachine (Fin 2)).play firstRegistration
        ⟨registrarFound _ none, fun i => registering.call (pairingCalls i)⟩ = some c ∧
      c.shared.cache = some ⟨"a1", some "r1", some "c1", secs 3600⟩ ∧
      ∀ entry ∈ c.shared.cache, ∀ r ∈ entry.refreshToken,
        IssuedTo (fun _ _ => False) c.shared.exchanges r entry.clientId := by
  have hrun : ((oauthMachine (Fin 2)).play firstRegistration
      ⟨registrarFound _ none, fun i => registering.call (pairingCalls i)⟩).map
        (fun c => c.shared.cache) = some (some ⟨"a1", some "r1", some "c1", secs 3600⟩) := by
    decide +kernel
  have hnothing : (oauthMachine (Fin 2)).Meets (NothingCached (Fin 2)) firstRegistration
      ⟨registrarFound _ none, fun i => registering.call (pairingCalls i)⟩ := by
    decide +kernel
  have hregisters := hnothing.mono (D := RegistersAlone (Fin 2)) _ fun i β o e s h => by
    cases o <;> first | exact fun _ => h | trivial
  obtain ⟨c, hc, hcache⟩ := Option.map_eq_some_iff.mp hrun
  refine ⟨c, hc, hcache, refreshToken_belongs_to_client rfl rfl (fun key p hp => ?_) hregisters hc⟩
  simp [registrarFound] at hp

/-- A refresh token of the client `c1` is stored; its refresh times out, and another client is
registered. -/
def secondRegistration : List (Fin 2 × OAuthChoice) :=
  List.flatten [turns 0 [{}, {}, {}, {}, {}, {}, {}, {}],
    turns 1 [{}, {}, {}, {}, { reply := .failed "operation timed out" }, {}, {}, {}, {}, {},
      registeredAs "c2", {}]]

/-- The old refresh token is left with the new client id. -/
theorem second_registration_keeps_the_old_token :
    ∃ c, (oauthMachine (Fin 2)).play secondRegistration
        ⟨registrarFound _ (some ⟨"a0", some "r0", some "c1", 0⟩),
          fun i => registering.call (pairingCalls i)⟩ = some c ∧
      c.shared.cache = some ⟨"a0", some "r0", some "c2", 0⟩ ∧
      ¬ IssuedTo (fun r client => r = "r0" ∧ client = "c1") c.shared.exchanges "r0"
        (some "c2") := by
  have hrun : ((oauthMachine (Fin 2)).play secondRegistration
      ⟨registrarFound _ (some ⟨"a0", some "r0", some "c1", 0⟩),
        fun i => registering.call (pairingCalls i)⟩).map
        (fun c => (c.shared.cache, c.shared.exchanges.map issuedBy)) =
      some (some ⟨"a0", some "r0", some "c2", 0⟩, [none]) := by
    decide +kernel
  obtain ⟨c, hc, hend⟩ := Option.map_eq_some_iff.mp hrun
  obtain ⟨hcache, hissued⟩ := Prod.mk.inj hend
  refine ⟨c, hc, hcache, ?_⟩
  rintro ⟨client, hclient, ⟨-, h⟩ | ⟨x, hx, h, -⟩⟩
  · cases hclient
    revert h
    decide
  · have hmem := List.mem_map_of_mem (f := issuedBy) hx
    rw [hissued, List.mem_singleton, h] at hmem
    cases hmem

end Pairing

end HeadlessMcp
