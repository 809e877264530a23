import HeadlessMcp.OAuth2.Discipline

/-!
# One refresh for everybody

Any number of callers share one manager whose cached access token has expired, and
whose refresh token the provider accepts. The refresh lock makes them a singleflight:
one of them refreshes, the others find the new token in the cache, and every look at
the cache sees either the expired entry or the new one.

`SharedRefresh.Accepting` is the environment of such a run, `Representable` the one
thing that can go wrong in it: a lifetime that the clock cannot hold, which panics the
caller that refreshed.
-/

namespace HeadlessMcp

open Async

/-- A token as the provider issues it. Other fields of the answer play no part. -/
structure IssuedToken : Type where
  accessToken : String
  refreshToken : Option String
  expiresIn : ℕ
  deriving DecidableEq

/-- The token in the body of an answer. -/
def issuedIn (body : Value) : Option IssuedToken :=
  (accessTokenOf body).map fun a => ⟨a, refreshTokenOf body, expiresInOf body⟩

/-- The token in an accepted answer. -/
def JsonReply.issued (reply : JsonReply) : Option IssuedToken := reply.accepted.bind issuedIn

/-- What the runs have in common. Every caller finds the same manager and the same expired entry,
whatever their number and the order of their steps. -/
structure SharedRefresh : Type where
  manager : Manager
  backendId : String
  /-- the entry in the cache at the start -/
  expired : TokenCache
  /-- its refresh token -/
  refreshToken : String
  /-- what the provider issues for it -/
  issued : IssuedToken
  /-- an instant after the whole run at which the issued token is still valid -/
  deadline : Instant

namespace SharedRefresh

variable (S : SharedRefresh)

/-- The refresh token in force after the refresh: the new one, or the old one when the
answer omits it. -/
def inForce : String := S.issued.refreshToken.getD S.refreshToken

/-- The environment: the provider accepts the refresh token, the issued token is valid
past the deadline, which lies more than 30 seconds after every reading of the clock,
and writes to the store succeed. -/
def Accepting (ι : Type) : Rule OAuthOp ι OAuthChoice (OAuthWorld ι)
  | _, _, .postToken _ form, e, _ =>
    presentedBy (form, e.reply) = some S.refreshToken → e.reply.issued = some S.issued
  | _, _, .storeToken _ _, e, _ => e.flag = true
  | _, _, .readCache, e, _ => e.instant + secs 30 < S.deadline
  | _, _, .updateCache _, e, _ => e.instant + secs 30 < S.deadline
  | _, _, .instantNow, e, _ =>
    e.instant + secs 30 < S.deadline ∧ S.deadline ≤ e.instant + secs S.issued.expiresIn
  | _, _, _, _, _ => True

/-- The instant at which the issued token expires fits the clock. -/
def Representable (ι : Type) : Rule OAuthOp ι OAuthChoice (OAuthWorld ι)
  | _, _, .instantNow, e, _ => (e.instant.checkedAdd (secs S.issued.expiresIn)).isSome
  | _, _, _, _, _ => True

instance {ι β : Type} (i : ι) (o : OAuthOp β) (e : OAuthChoice) (s : OAuthWorld ι) :
    Decidable (S.Accepting ι i β o e s) := by
  apply OAuthOp.casesOn (motive := fun β o => Decidable (S.Accepting ι i β o e s)) o <;> intros
    <;> unfold Accepting <;> infer_instance

instance {ι β : Type} (i : ι) (o : OAuthOp β) (e : OAuthChoice) (s : OAuthWorld ι) :
    Decidable (S.Representable ι i β o e s) := by
  apply OAuthOp.casesOn (motive := fun β o => Decidable (S.Representable ι i β o e s)) o <;> intros
    <;> unfold Representable <;> infer_instance

/-- The start of such a run: the cached access token has expired, and nothing has been
asked yet. -/
structure Start {ι : Type} (start : OAuthWorld ι) : Prop where
  hasStore : S.manager.hasStore = true
  endpoint : EndpointKnown S.manager start.discovered
  cache : start.cache = some S.expired
  refreshToken : S.expired.refreshToken = some S.refreshToken
  expired : S.expired.usable start.instant = false
  unheld : start.refreshHolder = none
  unasked : start.exchanges = []
  /-- the empty string is how the manager writes "no access token" -/
  cachedToken : S.expired.accessToken ≠ ""
  issuedToken : S.issued.accessToken ≠ ""
  issuable : ∃ reply : JsonReply, reply.issued = some S.issued
  lifetime : 30 < S.issued.expiresIn
  deadline : start.instant + secs 30 < S.deadline

/-! ## The protocol -/

/-- A cache entry that holds the issued token. -/
structure Renewed (c : TokenCache) : Prop where
  accessToken : c.accessToken = S.issued.accessToken
  refreshToken : c.refreshToken = some S.inForce
  expiresAt : S.deadline ≤ c.expiresAt

/-- After the refresh: one exchange, and the cache and the store agree. -/
structure After (T : Tokens) : Prop where
  exchanges : ∃ x, T.exchanges = [x] ∧ presentedBy x = some S.refreshToken
  cache : ∃ c, T.cache = some c ∧ S.Renewed c
  store : ∃ t, T.store (tokenKey S.backendId) = some t ∧
    t.accessToken = S.issued.accessToken ∧ t.refreshToken = some S.inForce

/-- What holds of the tokens while the lock is free. Either nobody has asked yet and the expired
entry is still there, or one caller has asked and everything agrees on what was issued. -/
def Settled (T : Tokens) : Prop :=
  (T.cache = some S.expired ∧ T.exchanges = []) ∨ S.After T

variable {S} in
/-- The expired entry is in the cache: nothing has been asked. -/
theorem Settled.unasked {T : Tokens} (h : S.Settled T) (hcache : T.cache = some S.expired)
    (hnot : ¬ S.Renewed S.expired) : T.exchanges = [] := by
  rcases h with ⟨-, hexch⟩ | hafter
  · exact hexch
  · obtain ⟨c, hc, hrenewed⟩ := hafter.cache
    rw [hcache] at hc
    exact absurd (Option.some.inj hc ▸ hrenewed) hnot

variable {S} in
/-- Something has been asked: the refresh is over. -/
theorem Settled.after {T : Tokens} (h : S.Settled T) (hasked : T.exchanges ≠ []) :
    S.After T := by
  rcases h with ⟨-, hexch⟩ | hafter
  · exact absurd hexch hasked
  · exact hafter

/-- What every look at the tokens sees. It is true in every state, also of those in which a caller
is inside. -/
structure Seen (T : Tokens) : Prop where
  endpoint : EndpointKnown S.manager T.discovered
  exchanges : T.exchanges.length ≤ 1
  cache : T.cache = some S.expired ∨
    T.exchanges ≠ [] ∧ ∃ c, T.cache = some c ∧ S.Renewed c

/-- The protocol of the run. -/
def protocol (ι : Type) : Protocol ι (OAuthWorld ι) := lockProtocol ι S.Seen S.Settled

/-- The environment, the condition, and the expired entry that stays expired. -/
def Rules (ι : Type) : Rule OAuthOp ι OAuthChoice (OAuthWorld ι) := fun i β o e s =>
  (S.Accepting ι i β o e s ∧ S.Representable ι i β o e s) ∧
    ∀ now, s.instant ≤ now → S.expired.usable now = false

section Walk

variable {S} {ι : Type} {i : ι} {α : Type} {s : OAuthWorld ι} {m : Manager}

/-- Safe under the protocol of the run. -/
abbrev Safe (S : SharedRefresh) (i : ι) (p : Prog OAuthOp α)
    (Q : Outcome α → OAuthWorld ι → Prop) (s : OAuthWorld ι) : Prop :=
  (S.protocol ι).Safe (oauthMachine ι) (S.Rules ι) i p Q s

/-- The endpoint is resolved. It is configured or discovered at the start, and no call changes
either. -/
theorem safe_resolveTokenEndpoint {J : Tokens → Prop}
    {k : BackendResult String → Prog OAuthOp α} {Q : Outcome α → OAuthWorld ι → Prop}
    (hs : Inside i J s) (hJ : ∀ T, J T → EndpointKnown S.manager T.discovered)
    (hk : ∀ endpoint t, Inside i J t → S.Safe i (k (.ok endpoint)) Q t) :
    S.Safe i (S.manager.resolveTokenEndpoint.bind k) Q s := by
  have discovered {found : Option AuthServerMetadata → Prog OAuthOp (BackendResult String)}
      (hfound : ∀ d, found (some d) = .ret (.ok d.tokenEndpoint)) (hd : s.discovered.isSome) :
      S.Safe i ((Prog.op .readDiscovered found).bind k) Q s := by
    refine safe_quiet_op (J := fun T => J T ∧ T.discovered.isSome) trivial ⟨hs.1, hs.2, hd⟩
      fun s' e b t hs' _ he ht htok => ?_
    obtain ⟨rfl, rfl⟩ := Prod.mk.inj (Option.some.inj he)
    obtain ⟨d, hd⟩ := Option.isSome_iff_exists.mp ht.2.2
    rw [show s'.discovered = some d from hd, hfound]
    exact hk _ _ ⟨ht.1, ht.2.1⟩
  unfold Manager.resolveTokenEndpoint
  -- the endpoint is configured, or it was discovered
  rcases hJ _ hs.2 with ⟨endpoint, hconf, hne⟩ | hd
  · rw [hconf]
    simp only [ne_eq, hne, not_false_eq_true, if_true]
    exact hk endpoint s hs
  · split
    · split
      · exact hk _ s hs
      · exact discovered (fun _ => rfl) hd
    · exact discovered (fun _ => rfl) hd

/-- A look at the cache: the expired entry, which is not usable, or the new one, which
is. -/
theorem look {e : OAuthChoice} (hseen : S.Seen s.tokens)
    (hC : S.Rules ι i _ .readCache e s) (hle : s.instant ≤ e.instant) :
    (s.cache = some S.expired ∧ S.expired.usable e.instant = false ∧ ¬ S.Renewed S.expired) ∨
      (s.exchanges ≠ [] ∧ ∃ c, s.cache = some c ∧ S.Renewed c ∧ c.usable e.instant = true) := by
  have usable {c : TokenCache} (hc : S.Renewed c) : c.usable e.instant = true :=
    decide_eq_true (Nat.lt_of_lt_of_le hC.1.1 hc.expiresAt)
  rcases hseen.cache with hold | ⟨hasked, c, hcache, hrenewed⟩
  · have hexpired := hC.2 _ hle
    refine .inl ⟨hold, hexpired, fun hrenewed => ?_⟩
    rw [usable hrenewed] at hexpired
    cases hexpired
  · exact .inr ⟨hasked, c, hcache, hrenewed, usable hrenewed⟩

/-- The cache, read inside. It holds the expired entry or the renewed one, and the clock cannot
take one for the other. -/
theorem safe_readCache_inside {k : Instant × Option TokenCache → Prog OAuthOp α}
    {Q : Outcome α → OAuthWorld ι → Prop} {J : Tokens → Prop} (hs : Inside i J s)
    (hold : ∀ now t, Inside i (fun T => J T ∧ S.Seen T ∧ T.cache = some S.expired) t →
      S.expired.usable now = false → ¬ S.Renewed S.expired → S.Safe i (k (now, some S.expired)) Q t)
    (hnew : ∀ now c t, Inside i (fun T => J T ∧ T.cache = some c ∧ T.exchanges ≠ []) t →
      S.Renewed c → c.usable now = true → S.Safe i (k (now, some c)) Q t) :
    S.Safe i (.op .readCache k) Q s := by
  refine safe_inside_op ⟨id, id⟩ hs fun s' e b t hs' hseen hC he ht => ?_
  obtain ⟨hle, rfl, rfl⟩ := exec_readCache he
  refine ⟨hseen, ?_⟩
  -- nobody has refreshed yet, or somebody has
  rcases look hseen hC hle with ⟨hcache, hexpired, hnot⟩ | ⟨hasked, c, hcache, hrenewed, husable⟩
  · have hk := hold e.instant { s' with instant := e.instant } ⟨ht, hs'.2, hseen, hcache⟩
      hexpired hnot
    rwa [← hcache] at hk
  · have hk := hnew e.instant c { s' with instant := e.instant } ⟨ht, hs'.2, hcache, hasked⟩
      hrenewed husable
    rwa [← hcache] at hk

/-- The refresh is on its way: its exchange is on record, and the expired entry is
still in the cache. -/
structure Asked (S : SharedRefresh) (T : Tokens) : Prop where
  endpoint : EndpointKnown S.manager T.discovered
  cache : T.cache = some S.expired
  exchanges : ∃ x, T.exchanges = [x] ∧ presentedBy x = some S.refreshToken

/-- The entry that the answer is cached in. -/
theorem renewed_responseEntry {body : Value} {expiresAt now : Instant}
    {previous entry : Option TokenCache} (hbody : issuedIn body = some S.issued)
    (hprevious : previous = some S.expired)
    (hrefresh : S.expired.refreshToken = some S.refreshToken) (hvalid : S.deadline ≤ expiresAt)
    (hentry : entry = S.manager.responseEntry S.issued.accessToken (refreshTokenOf body)
      expiresAt now previous) :
    ∃ c, entry = some c ∧ S.Renewed c := by
  obtain ⟨accessToken, -, hissued⟩ := Option.map_eq_some_iff.mp hbody
  have hnew : refreshTokenOf body = S.issued.refreshToken := by rw [← hissued]
  refine ⟨_, hentry, rfl, ?_, hvalid⟩
  rw [hprevious, hnew, inForce]
  cases S.issued.refreshToken with
  | none => exact hrefresh
  | some r => rfl

/-- Caching the issued token settles the run. The cache, the store and the record of exchanges
agree from here on. -/
theorem safe_cacheTokenResponse {body : Value} (hstore : S.manager.hasStore = true)
    (hrefresh : S.expired.refreshToken = some S.refreshToken)
    (hbody : issuedIn body = some S.issued) (hs : Inside i S.Asked s) :
    S.Safe i (S.manager.cacheTokenResponse body S.backendId)
      (fun x t => Inside i S.After t ∧ x = .done (.ok S.issued.accessToken)) s := by
  obtain ⟨accessToken, haccess, hissued⟩ := Option.map_eq_some_iff.mp hbody
  obtain rfl : accessToken = S.issued.accessToken := by rw [← hissued]
  have hlifetime : expiresInOf body = S.issued.expiresIn := by rw [← hissued]
  simp only [Manager.cacheTokenResponse, haccess, Prog.bind_eq, Prog.perform_bind, hlifetime]
  refine safe_quiet_op trivial hs fun s' e now t hs' hC he ht htok => ?_
  obtain ⟨-, rfl, -⟩ := exec_instantNow he
  rcases hexpires : e.instant.checkedAdd (secs S.issued.expiresIn) with _ | expiresAt
  · -- excluded by the condition
    have hsome : (e.instant.checkedAdd (secs S.issued.expiresIn)).isSome := hC.1.2
    rw [hexpires] at hsome
    cases hsome
  have hvalid : S.deadline ≤ expiresAt := by
    have hle : S.deadline ≤ e.instant + secs S.issued.expiresIn := hC.1.1.2
    unfold Instant.checkedAdd at hexpires
    split at hexpires
    · exact Option.some.inj hexpires ▸ hle
    · cases hexpires
  -- the new entry goes into the cache
  refine safe_inside_op ⟨id, id⟩ ht fun s' e entry u hs' hseen _ he hu => ?_
  obtain ⟨-, hentry, rfl⟩ := exec_updateCache he
  obtain ⟨c, rfl, hrenewed⟩ :=
    renewed_responseEntry hbody hs'.2.cache hrefresh hvalid hentry
  obtain ⟨x, hx, hpresented⟩ := hs'.2.exchanges
  have hcached {T : Tokens} (hendpoint : EndpointKnown S.manager T.discovered)
      (hexch : T.exchanges = [x]) (hcache : T.cache = some c) : S.Seen T :=
    ⟨hendpoint, by simp [hexch], .inr ⟨by simp [hexch], c, hcache, hrenewed⟩⟩
  refine ⟨hcached hseen.endpoint hx rfl, ?_⟩
  -- and into the store
  simp only [hstore, saveToken]
  refine safe_quiet_op (J := fun T => T.cache = some c ∧ T.exchanges = [x]) trivial
    ⟨hu, rfl, hx⟩ fun _ _ unix v _ _ _ hv _ => ?_
  refine safe_inside_op ⟨id, id⟩ hv fun s' e b w hs' hseen hC he hw => ?_
  obtain ⟨rfl, rfl⟩ := Prod.mk.inj (Option.some.inj he)
  have hflag : e.flag = true := hC.1.1
  have hsaved : (if e.flag then Function.update s'.store (tokenKey S.backendId) (some
      ⟨c.accessToken, c.refreshToken, c.clientId, addU64 unix S.issued.expiresIn⟩)
      else s'.store) (tokenKey S.backendId) = some
        ⟨c.accessToken, c.refreshToken, c.clientId, addU64 unix S.issued.expiresIn⟩ := by
    rw [if_pos hflag, Function.update_self]
  exact ⟨hcached hseen.endpoint hs'.2.2 hs'.2.1, safe_inside_ret ⟨hw, ⟨x, hs'.2.2, hpresented⟩,
    ⟨c, hs'.2.1, hrenewed⟩, _, hsaved, hrenewed.accessToken, hrenewed.refreshToken⟩
    fun _ ht => ⟨ht, rfl⟩⟩

/-- The client id is read. -/
theorem safe_currentClientId {k : Option String → Prog OAuthOp α} {J : Tokens → Prop}
    {Q : Outcome α → OAuthWorld ι → Prop} (hs : Inside i J s)
    (hk : ∀ clientId t, Inside i J t → S.Safe i (k clientId) Q t) :
    S.Safe i (S.manager.currentClientId.bind k) Q s := by
  unfold Manager.currentClientId
  split
  · exact hk _ s hs
  · exact safe_quiet_op trivial hs fun _ _ b t _ _ _ ht _ => hk _ t ht

/-- The refresh with the expired entry's token settles the run. The provider accepts the token, so
only a panic could keep the answer out of the cache. -/
theorem safe_doRefresh (hstore : S.manager.hasStore = true)
    (hrefresh : S.expired.refreshToken = some S.refreshToken)
    (hs : Inside i (fun T => EndpointKnown S.manager T.discovered ∧
      T.cache = some S.expired ∧ T.exchanges = []) s) :
    S.Safe i (S.manager.doRefresh S.refreshToken S.backendId)
      (fun x t => Inside i S.After t ∧ x = .done (.ok S.issued.accessToken)) s := by
  simp only [Manager.doRefresh, Prog.bind_eq, Prog.perform_bind]
  refine safe_resolveTokenEndpoint hs (fun T hT => hT.1) fun endpoint t ht => ?_
  refine safe_currentClientId ht fun clientId u hu => ?_
  refine safe_inside_op ⟨id, id⟩ hu fun s' e b v hs' hseen hC he hv => ?_
  obtain ⟨rfl, rfl⟩ := Prod.mk.inj (Option.some.inj he)
  obtain ⟨hendpoint, hcache, hexch⟩ := hs'.2
  have hexch : s'.exchanges = [] := hexch
  -- the environment answers this very token with the issued one
  have hreply : e.reply.issued = some S.issued := hC.1.1 rfl
  have hasked : S.Asked (OAuthWorld.tokens { s' with exchanges :=
      (.refresh S.refreshToken (clientId.getD "") (S.manager.config.clientSecret.getD ""),
        e.reply) :: s'.exchanges }) := by
    refine ⟨hendpoint, hcache, (.refresh _ _ _, e.reply), congrArg _ hexch, rfl⟩
  refine ⟨⟨hendpoint, by simp [OAuthWorld.tokens, hexch], .inl hcache⟩, ?_⟩
  -- no reply, an unreadable one, or the answer
  rcases hkind : e.reply with e' | ⟨status, e'⟩ | ⟨status, body⟩
  · rw [hkind] at hreply
    cases hreply
  · rw [hkind] at hreply
    cases hreply
  · rw [hkind] at hreply hasked
    obtain ⟨body', haccepted, hbody⟩ := Option.bind_eq_some_iff.mp hreply
    simp only [JsonReply.accepted] at haccepted
    split at haccepted
    · rename_i hstatus
      obtain rfl := Option.some.inj haccepted
      simp only [hstatus, if_true]
      refine Protocol.Safe.bind (Protocol.Safe.mono
        (safe_cacheTokenResponse hstore hrefresh hbody ⟨hv, hasked⟩) fun x w _ hw => ?_)
      obtain ⟨hafter, rfl⟩ := hw
      exact safe_inside_ret hafter fun _ h => ⟨h, rfl⟩
    · cases haccepted

/-- The refresh path: the caller gets the issued token, whoever refreshed. -/
theorem safe_getTokenRefresh {daemonMode : Bool} (hstore : S.manager.hasStore = true)
    (hrefresh : S.expired.refreshToken = some S.refreshToken)
    (hs : Inside i S.Settled s) :
    S.Safe i (S.manager.getTokenRefresh S.backendId daemonMode)
      (fun x t => Inside i S.After t ∧ x = .done (some (.ok S.issued.accessToken))) s := by
  simp only [Manager.getTokenRefresh, Prog.bind_eq, Prog.perform_bind]
  refine safe_readCache_inside hs (fun now t ht hexpired hnot => ?_)
    fun now c t ht hrenewed husable => ?_
  · -- nobody has refreshed yet
    obtain ⟨hholder, hsettled, hseen, hcache⟩ := ht
    have hunasked : t.tokens.exchanges = [] := hsettled.unasked hcache hnot
    simp only [hexpired, hrefresh, Bool.false_eq_true, if_false]
    refine Protocol.Safe.bind (Protocol.Safe.mono (safe_doRefresh hstore hrefresh
      ⟨hholder, hseen.endpoint, hcache, hunasked⟩) fun x u _ hu => ?_)
    obtain ⟨hafter, rfl⟩ := hu
    exact safe_inside_ret hafter fun _ h => ⟨h, rfl⟩
  · -- somebody has
    obtain ⟨hholder, hsettled, -, hasked⟩ := ht
    simp only [husable, if_true, hrenewed.accessToken]
    exact safe_inside_ret ⟨hholder, hsettled.after hasked⟩ fun _ h => ⟨h, rfl⟩

theorem asked_suffix {l l' : List (TokenForm × JsonReply)} (h : l ≠ []) (hl : l <:+ l') :
    l' ≠ [] :=
  fun hnil => h (List.suffix_nil.mp (hnil ▸ hl))

/-- `get_token`: every caller gets the issued token. Either it refreshes, or it finds the new
entry when it gets the lock. -/
theorem safe_getToken {daemonMode : Bool} (hstore : S.manager.hasStore = true)
    (hrefresh : S.expired.refreshToken = some S.refreshToken) :
    S.Safe i (S.manager.getToken S.backendId daemonMode)
      (fun x t => t.exchanges ≠ [] ∧ x = .done (.ok S.issued.accessToken)) s := by
  simp only [Manager.getToken, Prog.bind_eq, Prog.perform_bind]
  refine safe_readCache fun s' e t hinv _ hC hle ht => ?_
  -- the token has expired, or another caller has refreshed it
  rcases look hinv.1 hC hle with ⟨hcache, hexpired, -⟩ | ⟨hasked, c, hcache, hrenewed, husable⟩
  · -- the refresh under the lock leaves the issued token, whoever has asked for it
    rw [hcache]
    simp only [hexpired, hrefresh, Bool.false_eq_true, if_false, Option.isSome_some, if_true]
    refine Protocol.Safe.bind (safe_withLock (R := fun x u => S.After u.tokens ∧
      x = .done (some (.ok S.issued.accessToken)))
      (fun u hu _ _ => Protocol.Safe.mono (safe_getTokenRefresh hstore hrefresh hu)
        fun x v _ hv => ⟨⟨hv.1.1, .inr hv.1.2⟩, hv.1.2, hv.2⟩)
      (fun x u u' hu heq => heq ▸ hu) fun x u u' hu hsuffix => ?_)
    obtain ⟨hafter, rfl⟩ := hu
    obtain ⟨x, hx, -⟩ := hafter.exchanges
    have hasked : u.exchanges ≠ [] := by
      rw [show u.exchanges = [x] from hx]
      exact List.cons_ne_nil _ _
    exact fun v hr _ => ⟨asked_suffix (asked_suffix hasked hsuffix) hr.1, rfl⟩
  · rw [hcache]
    simp only [husable, if_true, hrenewed.accessToken]
    subst ht
    exact fun v hr _ => ⟨asked_suffix hasked hr.1, rfl⟩

/-- `adopt_persisted`: the cache holds a token, so nothing is adopted. -/
theorem safe_adoptPersisted (hstart : S.Start (ι := ι) start) :
    S.Safe i (S.manager.adoptPersisted S.backendId) (fun x _ => x = .done none) s := by
  simp only [Manager.adoptPersisted, hstart.hasStore, Bool.not_true, Bool.false_eq_true,
    if_false]
  refine safe_withLock (R := fun x _ => x = .done none) (fun t ht _ _ => ?_)
    (fun _ _ _ hx _ => hx) fun _ _ _ hx _ => hx
  simp only [Prog.bind_eq, Prog.perform_bind]
  -- both the expired entry and the renewed one have a token, so nothing is loaded
  refine safe_readCache_inside ht (fun now u hu _ _ => ?_) fun now c u hu hrenewed _ => ?_
  · have hfilter : (some S.expired).filter (fun c => decide (c.accessToken ≠ "")) =
        some S.expired := by
      simp [Option.filter, hstart.cachedToken]
    rw [hfilter]
    exact safe_inside_ret hu fun v hv => ⟨⟨hv.1, hv.2.1⟩, rfl⟩
  · have hfilter : (some c).filter (fun c => decide (c.accessToken ≠ "")) = some c := by
      simp [Option.filter, hrenewed.accessToken, hstart.issuedToken]
    rw [hfilter]
    exact safe_inside_ret hu fun v hv => ⟨⟨hv.1, hv.2.1⟩, rfl⟩

/-- What a call has come to when it has ended. -/
def Answered (S : SharedRefresh) : Manager.Call → Outcome Manager.Answer → OAuthWorld ι → Prop
  | .getToken _ _, x, t => t.exchanges ≠ [] ∧ x = .done (.token (.ok S.issued.accessToken))
  | .adoptPersisted _, x, _ => x = .done (.adopted none)

/-- Every call is safe. -/
theorem safe_call {start : OAuthWorld ι} {call : Manager.Call} (hstart : S.Start start)
    (hid : call.backendId = S.backendId) :
    S.Safe i (S.manager.call call) (S.Answered call) s := by
  cases call with
  | getToken backendId daemonMode =>
    obtain rfl : backendId = S.backendId := hid
    refine Protocol.Safe.bind (Protocol.Safe.mono
      (safe_getToken hstart.hasStore hstart.refreshToken) fun x t _ ht => ?_)
    obtain ⟨hasked, rfl⟩ := ht
    exact fun u hr _ => ⟨asked_suffix hasked hr.1, rfl⟩
  | adoptPersisted backendId =>
    obtain rfl : backendId = S.backendId := hid
    refine Protocol.Safe.bind (Protocol.Safe.mono
      (safe_adoptPersisted hstart) fun x t _ ht => ?_)
    obtain rfl := ht
    exact fun u _ _ => rfl

end Walk

/-! ## Every run can be completed -/

section Progress

variable {S} {ι : Type} {start : OAuthWorld ι}

/-- The clock stays clear of the deadline. -/
theorem exec_clock {i : ι} {β : Type} {o : OAuthOp β} {e : OAuthChoice} {s t : OAuthWorld ι}
    {b : β} (hC : S.Accepting ι i β o e s) (hs : s.instant + secs 30 < S.deadline)
    (h : (oauthMachine ι).exec i β o e s = some (b, t)) : t.instant + secs 30 < S.deadline := by
  cases o <;> simp only [oauthMachine, OAuthWorld.exec, OAuthWorld.tick, Accepting] at h hC <;>
    grind

/-- An operation that does not wait for the lock can be performed. -/
theorem exec_enabled {i : ι} {β : Type} {o : OAuthOp β} {e : OAuthChoice} {s : OAuthWorld ι}
    (hlock : o.Acquires → s.refreshHolder = none) (hclock : s.instant ≤ e.instant) :
    ((oauthMachine ι).exec i β o e s).isSome := by
  have htick : s.tick e = some { s with instant := e.instant } := if_pos hclock
  cases o with
  | lockRefresh => simp [oauthMachine, OAuthWorld.exec, hlock trivial]
  | _ => simp [oauthMachine, OAuthWorld.exec, htick]

/-- A reading of the clock between now and the deadline, within the lifetime. -/
theorem reading {now deadline lifetime : ℕ} (hnow : now + secs 30 < deadline)
    (hlifetime : 30 < lifetime) :
    max now (deadline - secs lifetime) + secs 30 < deadline ∧
      deadline ≤ max now (deadline - secs lifetime) + secs lifetime := by
  simp only [secs] at *
  omega

/-- The environment can always answer. So no run is stuck for want of an answer, and every run can
be brought to its end. -/
theorem exists_choice (hstart : S.Start start) {s : OAuthWorld ι}
    (hclock : s.instant + secs 30 < S.deadline) :
    ∃ e : OAuthChoice, s.instant ≤ e.instant ∧
      ∀ (i : ι) (β : Type) (o : OAuthOp β), S.Accepting ι i β o e s := by
  obtain ⟨reply, hreply⟩ := hstart.issuable
  obtain ⟨hlt, hle⟩ := reading hclock hstart.lifetime
  refine ⟨{ instant := max s.instant (S.deadline - secs S.issued.expiresIn), reply := reply },
    le_max_left _ _, fun i β o => ?_⟩
  cases o with
  | postToken endpoint form => exact fun _ => hreply
  | storeToken key token => rfl
  | readCache => exact hlt
  | updateCache f => exact hlt
  | instantNow => exact ⟨hlt, hle⟩
  | _ => trivial

variable [DecidableEq ι] [Finite ι]

/-- From every state of a run the calls can be completed. By induction on what is left of the
tasks: while one has not ended, some task can take a step. -/
theorem exists_completion (hstart : S.Start start)
    (c : Pool OAuthOp ι (OAuthWorld ι) Manager.Answer)
    (hlock : LockInv OAuthOp.Acquires OAuthOp.Releases OAuthWorld.refreshHolder c)
    (hclock : c.shared.instant + secs 30 < S.deadline) :
    ∃ ls c', (oauthMachine ι).play ls c = some c' ∧
      (oauthMachine ι).Meets (S.Accepting ι) ls c ∧ ∀ i, (c'.task i).Ended := by
  induction c using (oauthMachine ι).after_wellFounded.induction with
  | _ c ih =>
    -- a task that can run makes a step with an answer that the environment allows
    by_cases hend : ∃ i, ¬ (c.task i).Ended
    · obtain ⟨i, δ, o, k, hop, hfree⟩ := hlock.exists_runnable hend
      obtain ⟨e, hle, hC⟩ := exists_choice hstart hclock
      obtain ⟨⟨b, t⟩, hexec⟩ := Option.isSome_iff_exists.mp (exec_enabled (i := i) hfree hle)
      have hstep : (oauthMachine ι).step (i, e) c = some ⟨t, Function.update c.task i (k b)⟩ := by
        simp [Machine.step, hop, Machine.fire, hexec]
      obtain ⟨ls, c', hplay, hmeets, hended⟩ := ih _ ⟨_, hstep⟩ (hlock.step refreshLock hstep)
        (exec_clock (hC i δ o) hclock hexec)
      refine ⟨(i, e) :: ls, c', ?_, ⟨fun β o' k' _ => hC i β o', fun c₁ h₁ => ?_⟩, hended⟩
      · rw [Machine.play_cons, hstep]
        exact hplay
      · rw [hstep] at h₁
        exact Option.some.inj h₁ ▸ hmeets
    · -- all have ended
      refine ⟨[], c, rfl, trivial, fun i => ?_⟩
      exact Classical.not_not.mp fun h => hend ⟨i, h⟩

/-- What a call returns in such a run. -/
def answer (S : SharedRefresh) : Manager.Call → Manager.Answer
  | .getToken _ _ => .token (.ok S.issued.accessToken)
  | .adoptPersisted _ => .adopted none

/-- The calls of a run as a pool. -/
def pool (S : SharedRefresh) (start : OAuthWorld ι) (calls : ι → Manager.Call) :
    Pool OAuthOp ι (OAuthWorld ι) Manager.Answer :=
  ⟨start, fun i => S.manager.call (calls i)⟩

omit [Finite ι] in
/-- Every reachable state of the run has the invariant of the protocol, and every task
in it is safe. -/
theorem holds_of_play {calls : ι → Manager.Call} {ls : List (ι × OAuthChoice)}
    {c : Pool OAuthOp ι (OAuthWorld ι) Manager.Answer} (hstart : S.Start start)
    (hid : ∀ i, (calls i).backendId = S.backendId)
    (hp : (oauthMachine ι).play ls (S.pool start calls) = some c)
    (haccepting : (oauthMachine ι).Meets (S.Accepting ι) ls (S.pool start calls))
    (hfits : (oauthMachine ι).Meets (S.Representable ι) ls (S.pool start calls)) :
    Protocol.Holds (S.protocol ι) (oauthMachine ι) (S.Rules ι) (fun i => S.Answered (calls i))
      c := by
  -- the clock does not go back, so the expired token stays expired
  have hexpired : (oauthMachine ι).Meets
      (fun _ _ _ _ s => ∀ now, s.instant ≤ now → S.expired.usable now = false) ls
      (S.pool start calls) := by
    refine (oauthMachine ι).meets_of_invariant (P := fun s =>
      ∀ now, s.instant ≤ now → S.expired.usable now = false) ?_ fun now hnow => ?_
    · intro i β o e s t b hexec hs now hnow
      exact hs now (Nat.le_trans (exec_instant hexec) hnow)
    · exact TokenCache.usable_anti hnow hstart.expired
  refine Protocol.Holds.play ⟨⟨?_, fun _ => ?_⟩, fun i => safe_call hstart (hid i)⟩
    ((haccepting.and _ hfits).and _ hexpired) hp
  · exact ⟨hstart.endpoint, by simp [pool, OAuthWorld.tokens, hstart.unasked],
      .inl hstart.cache⟩
  · exact .inl ⟨hstart.cache, hstart.unasked⟩

omit [DecidableEq ι] [Finite ι] in
/-- A task that has ended returned its answer. -/
theorem ended_answered {calls : ι → Manager.Call}
    {c : Pool OAuthOp ι (OAuthWorld ι) Manager.Answer}
    (h : Protocol.Holds (S.protocol ι) (oauthMachine ι) (S.Rules ι) (fun i => S.Answered (calls i))
      c) {i : ι} (hi : (c.task i).Ended) :
    c.task i = .ret (S.answer (calls i)) ∧
      S.Answered (calls i) (.done (S.answer (calls i))) c.shared := by
  have hdone {call : Manager.Call} {x : Outcome Manager.Answer}
      (hx : S.Answered call x c.shared) : x = .done (S.answer call) := by
    cases call with
    | getToken _ _ => exact hx.2
    | adoptPersisted _ => exact hx
  cases htask : c.task i with
  | ret a =>
    have hresult := h.result htask
    obtain rfl := Outcome.done.inj (hdone hresult)
    exact ⟨rfl, hresult⟩
  | panic => cases hdone (h.panicked htask)
  | op o k =>
    rw [htask] at hi
    exact absurd hi id

/-- **One refresh for all.** Any number of concurrent calls that start from an expired
token share one refresh: at most one request is ever sent, a call that has ended
returned the issued token (no call panics, and none adopts a stored token), when all have ended the
cache and the store hold what the provider issued, and every run can be completed. -/
theorem one_refresh_for_all {calls : ι → Manager.Call} {ls : List (ι × OAuthChoice)}
    {c : Pool OAuthOp ι (OAuthWorld ι) Manager.Answer} (hstart : S.Start start)
    (hid : ∀ i, (calls i).backendId = S.backendId)
    (hp : (oauthMachine ι).play ls (S.pool start calls) = some c)
    (haccepting : (oauthMachine ι).Meets (S.Accepting ι) ls (S.pool start calls))
    (hfits : (oauthMachine ι).Meets (S.Representable ι) ls (S.pool start calls)) :
    c.shared.exchanges.length ≤ 1 ∧
      (∀ i, (c.task i).Ended → c.task i = .ret (S.answer (calls i))) ∧
      ((∀ i, (c.task i).Ended) → (∃ i daemonMode, calls i = .getToken S.backendId daemonMode) →
        S.After c.shared.tokens) ∧
      ∃ ls' c', (oauthMachine ι).play ls' c = some c' ∧
        (oauthMachine ι).Meets (S.Accepting ι) ls' c ∧ ∀ i, (c'.task i).Ended := by
  have hholds := holds_of_play hstart hid hp haccepting hfits
  have hlock : LockInv OAuthOp.Acquires OAuthOp.Releases OAuthWorld.refreshHolder c :=
    (lockInv_init hstart.unheld fun i => balanced_call).play refreshLock hp
  have hclock : c.shared.instant + secs 30 < S.deadline :=
    (oauthMachine ι).play_induct (P := fun c => c.shared.instant + secs 30 < S.deadline)
      (fun l c c' hc hC hstep => by
        obtain ⟨q, hfire, -⟩ := (oauthMachine ι).step_eq_some hstep
        obtain ⟨β, o, k, b, hop, hexec, -⟩ := (oauthMachine ι).fire_eq_some hfire
        exact exec_clock (hC β o k hop) hc hexec) hstart.deadline haccepting hp
  -- one request at most, the answer of a call, and what all of them leave
  refine ⟨hholds.inv.1.exchanges, fun i hi => ?_, fun hall hasks => ?_,
    exists_completion hstart c hlock hclock⟩
  · exact (ended_answered hholds hi).1
  · obtain ⟨i, daemonMode, hi⟩ := hasks
    have hasked := (ended_answered hholds (hall i)).2
    rw [hi] at hasked
    exact (hholds.inv.2 (hlock.free_of_ended hall)).after hasked.1

end Progress

/-! ## Two runs -/

/-- A refresh of the sample backend that is answered with a lifetime of `expiresIn`
seconds. -/
def sample (expiresIn : ℕ) : SharedRefresh where
  manager := interactive
  backendId := "api"
  expired := ⟨"a0", some "r0", none, 0⟩
  refreshToken := "r0"
  issued := ⟨"a1", some "r1", expiresIn⟩
  deadline := secs 3000

/-- The world at its start. -/
def sampleStart (ι : Type) : OAuthWorld ι where
  refreshHolder := none
  cache := some ⟨"a0", some "r0", none, 0⟩
  discovered := none
  instant := 0
  store := fun _ => none
  exchanges := []
  browser := []

/-- The answer to it. -/
def sampleAnswer (expiresIn : ℕ) : JsonReply :=
  .json 200 (.object
    [("access_token", .string "a1"), ("refresh_token", .string "r1"),
      ("expires_in", .number (.int expiresIn))])

/-- Two callers want a token, a third one adopts what is stored. -/
def sampleCalls : Fin 3 → Manager.Call
  | 2 => .adoptPersisted "api"
  | _ => .getToken "api" true

/-- Both look at the expired entry; the first one refreshes while the second one
waits. -/
def sampleRun : List (Fin 3 × OAuthChoice) :=
  [(0, {}), (1, {}), (0, {}), (0, {}), (0, { reply := sampleAnswer 3600 }), (0, {}), (0, {}),
    (0, {}), (0, {}), (0, {}), (1, {}), (1, {}), (1, {}), (2, {}), (2, {}), (2, {})]

theorem sample_start (ι : Type) (expiresIn : ℕ)
    (hissued : (sampleAnswer expiresIn).issued = some (sample expiresIn).issued)
    (hlifetime : 30 < expiresIn) : (sample expiresIn).Start (sampleStart ι) where
  hasStore := rfl
  endpoint := .inl ⟨"https://idp.test/token", rfl, by decide⟩
  cache := rfl
  refreshToken := rfl
  expired := rfl
  unheld := rfl
  unasked := rfl
  cachedToken := by simp [sample]
  issuedToken := by simp [sample]
  issuable := ⟨_, hissued⟩
  lifetime := hlifetime
  deadline := by simp [sample, sampleStart, secs]

/-- The run with three callers: one refresh, and everything agrees. -/
theorem three_callers_refresh_once :
    ∃ c, (oauthMachine (Fin 3)).play sampleRun
        ((sample 3600).pool (sampleStart (Fin 3)) sampleCalls) = some c ∧
      c.task 1 = .ret (.token (.ok "a1")) ∧ (sample 3600).After c.shared.tokens := by
  have hrun : ((oauthMachine (Fin 3)).play sampleRun
      ((sample 3600).pool (sampleStart (Fin 3)) sampleCalls)).map
        (fun c => decide (∀ i, (c.task i).Ended)) = some true := by
    rfl
  obtain ⟨c, hc, hended⟩ := Option.map_eq_some_iff.mp hrun
  have hall := of_decide_eq_true hended
  obtain ⟨-, hanswer, hafter, -⟩ := one_refresh_for_all
    (sample_start (Fin 3) 3600 rfl (by decide)) (fun i => by revert i; decide) hc (by decide)
    (by decide)
  exact ⟨c, hc, hanswer 1 (hall 1), hafter hall ⟨0, true, rfl⟩⟩

/-- One caller whose refresh is answered with the largest lifetime there is. -/
def overlongRun : List (Unit × OAuthChoice) :=
  [((), {}), ((), {}), ((), {}), ((), { reply := sampleAnswer (2 ^ 64 - 1) }), ((), {}), ((), {})]

/-- It ends without its token: the clock overflows and the caller panics. -/
theorem overlong_lifetime_panics :
    ∃ c, (oauthMachine Unit).play overlongRun
        ((sample (2 ^ 64 - 1)).pool (sampleStart Unit) fun _ => .getToken "api" true) = some c ∧
      (sample (2 ^ 64 - 1)).Start (sampleStart Unit) ∧
      (oauthMachine Unit).Meets ((sample (2 ^ 64 - 1)).Accepting Unit) overlongRun
        ((sample (2 ^ 64 - 1)).pool (sampleStart Unit) fun _ => .getToken "api" true) ∧
      (c.task ()).Ended ∧ ∀ a, c.task () ≠ .ret a := by
  have hrun : ((oauthMachine Unit).play overlongRun
      ((sample (2 ^ 64 - 1)).pool (sampleStart Unit) fun _ => .getToken "api" true)).map
        (fun c => (c.task ()).isPanic) = some true := by
    rfl
  obtain ⟨c, hc, hpanic⟩ := Option.map_eq_some_iff.mp hrun
  refine ⟨c, hc, sample_start Unit (2 ^ 64 - 1) rfl (by decide), by decide, ?_⟩
  rw [Prog.isPanic_iff.mp hpanic]
  exact ⟨trivial, fun a h => by cases h⟩

end SharedRefresh

end HeadlessMcp
