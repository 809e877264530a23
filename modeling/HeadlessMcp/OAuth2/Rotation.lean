import HeadlessMcp.OAuth2.Walk

/-!
# Rotating refresh tokens

A provider that rotates refresh tokens retires a token as soon as a refresh with it
has been answered with another one, and revokes the whole grant when a retired token
comes back. The manager's side of the bargain is `NoReuse`: it never presents a token
that it has itself exchanged.

The cache is what keeps that promise: while the refresh lock is free, the cached
refresh token is one that has not been exchanged (`Tokens.Live`). The store may lag
behind, because a failed write is ignored, and `retry_with_stored` and
`adopt_persisted` load what is in the store. `KeepsNewest` says when they and the
provider's answers leave the cache live, and `noReuse_of_keepsNewest` that this is
all that is needed; `rollback_presents_exchanged_token` is a run in which one write
fails and one refresh is refused.
-/

namespace HeadlessMcp

open Async

/-! ## Exchanged tokens -/

/-- The refresh token that an answer issues. Only an accepted request issues anything, and a
rotating provider need not issue a token with every answer. -/
def issuedBy (x : TokenForm × JsonReply) : Option String := x.2.accepted.bind refreshTokenOf

/-- The refresh token that an exchange retires: it was presented, and another one was
issued for it. -/
def retiredBy (x : TokenForm × JsonReply) : Option String :=
  (presentedBy x).filter fun r => (issuedBy x).any (· ≠ r)

/-- Every refresh token the manager has exchanged for a new one. -/
def retired (exchanges : List (TokenForm × JsonReply)) : List String :=
  exchanges.filterMap retiredBy

/-- The provider never issues a token that it has retired (exchanges are listed newest
first). -/
def Rotates (exchanges : List (TokenForm × JsonReply)) : Prop :=
  exchanges.Pairwise fun later earlier => ∀ r ∈ issuedBy later, retiredBy earlier ≠ some r

/-- The manager never presents a token that it has exchanged. It looks at every pair of exchanges:
what has once been retired by the earlier one is not presented by the later one. -/
def NoReuse (exchanges : List (TokenForm × JsonReply)) : Prop :=
  exchanges.Pairwise fun later earlier => ∀ r ∈ presentedBy later, retiredBy earlier ≠ some r

/-- The cached refresh token has not been exchanged. It is what the next refresh presents, so this
is the invariant that carries `NoReuse`. -/
def Tokens.Live (T : Tokens) : Prop :=
  ∀ c ∈ T.cache, ∀ r ∈ c.refreshToken, r ∉ retired T.exchanges

theorem not_mem_retired {r : String} {exchanges : List (TokenForm × JsonReply)} :
    r ∉ retired exchanges ↔ ∀ x ∈ exchanges, retiredBy x ≠ some r := by
  simp [retired]

theorem retired_cons_of_none {x : TokenForm × JsonReply}
    {exchanges : List (TokenForm × JsonReply)} (h : retiredBy x = none) :
    retired (x :: exchanges) = retired exchanges :=
  List.filterMap_cons_none h

/-- An exchange that issues no other token than the presented one retires nothing. -/
theorem retiredBy_eq_none {x : TokenForm × JsonReply} (h : issuedBy x = none) :
    retiredBy x = none := by
  simp [retiredBy, h]

/-- A token is not retired by the exchange that issues it. -/
theorem retiredBy_ne_issuedBy {x : TokenForm × JsonReply} {r : String}
    (h : issuedBy x = some r) : retiredBy x ≠ some r := by
  simp [retiredBy, h]

/-! ## The condition -/

/-- What keeps the newest refresh token in the cache. An answer that retires the
presented token also carries an access token, with a lifetime that fits the clock; and
the store is never read while it holds an exchanged token. -/
def KeepsNewest (ι : Type) : Rule OAuthOp ι OAuthChoice (OAuthWorld ι)
  | _, _, .postToken _ form, e, _ =>
    retiredBy (form, e.reply) ≠ none → (e.reply.accepted.bind accessTokenOf).isSome
  | _, _, .instantNow, e, s =>
    ∀ x ∈ s.exchanges.head?, retiredBy x ≠ none → ∀ body ∈ x.2.accepted,
      (e.instant.checkedAdd (secs (expiresInOf body))).isSome
  | _, _, .loadToken key, e, s =>
    e.flag = true → ∀ t ∈ s.store key, ∀ r ∈ t.refreshToken, r ∉ retired s.exchanges
  | _, _, _, _, _ => True

instance {ι β : Type} (i : ι) (o : OAuthOp β) (e : OAuthChoice) (s : OAuthWorld ι) :
    Decidable (KeepsNewest ι i β o e s) := by
  cases o <;> unfold KeepsNewest <;> infer_instance

/-- The provider issues no token that the manager has exchanged. This is about the provider and
not about the manager. -/
def IssuesNew (ι : Type) : Rule OAuthOp ι OAuthChoice (OAuthWorld ι)
  | _, _, .postToken _ form, e, s => ∀ r ∈ issuedBy (form, e.reply), r ∉ retired s.exchanges
  | _, _, _, _, _ => True

/-- Both: the rotating provider, and the condition. -/
def RotationRule (ι : Type) : Rule OAuthOp ι OAuthChoice (OAuthWorld ι) :=
  fun i β o e s => IssuesNew ι i β o e s ∧ KeepsNewest ι i β o e s

variable {ι : Type}

/-- A record of a rotating provider was made by a rotating provider. -/
theorem issuesNew_of_rotates [DecidableEq ι] {α : Type} {ls : List (ι × OAuthChoice)}
    {c c' : Pool OAuthOp ι (OAuthWorld ι) α} (hp : (oauthMachine ι).play ls c = some c')
    (h : Rotates c'.shared.exchanges) : (oauthMachine ι).Meets (IssuesNew ι) ls c := by
  refine ((oauthMachine ι).meets_of_play (P := fun s => Rotates s.exchanges) ?_ hp h).1
  intro i β o e s b t hexec ht
  refine ⟨ht.sublist (exec_exchanges_suffix hexec).sublist, ?_⟩
  cases o <;> try trivial
  obtain ⟨rfl, rfl⟩ := Prod.mk.inj (Option.some.inj hexec)
  exact fun r hr => not_mem_retired.mpr fun x hx => (List.pairwise_cons.mp ht).1 x hx r hr

/-! ## The protocol -/

/-- No reuse so far; and while the lock is free the cached token is live. -/
def rotation (ι : Type) : Protocol ι (OAuthWorld ι) :=
  lockProtocol ι (fun T => NoReuse T.exchanges) Tokens.Live

section Walk

variable {i : ι} {α : Type} {s : OAuthWorld ι}

/-- Safe under the rotation protocol. -/
abbrev RotationSafe (i : ι) (p : Prog OAuthOp α) (Q : Outcome α → OAuthWorld ι → Prop)
    (s : OAuthWorld ι) : Prop :=
  (rotation ι).Safe (oauthMachine ι) (RotationRule ι) i p Q s

/-- The task is inside, and the cached token is live. -/
abbrev LiveInside (i : ι) : OAuthWorld ι → Prop := Inside i Tokens.Live

/-- A critical section of the cache that leaves a live entry behind. -/
theorem safe_updateCache {J : Tokens → Prop}
    {f : Instant → Option TokenCache → Option TokenCache}
    {k : Option TokenCache → Prog OAuthOp α} {Q : Outcome α → OAuthWorld ι → Prop}
    (hs : Inside i J s)
    (hsome : ∀ T now c, J T → f now T.cache = some c → ∀ r ∈ c.refreshToken,
      r ∉ retired T.exchanges)
    (hnone : ∀ T now, J T → f now T.cache = none → T.Live)
    (hk : ∀ T b t, J T → t.tokens.exchanges = T.exchanges → LiveInside i t →
      RotationSafe i (k b) Q t) :
    RotationSafe i (.op (.updateCache f) k) Q s := by
  refine safe_inside_op ⟨id, id⟩ hs fun s' e b t hs' halways _ he ht => ?_
  obtain ⟨-, hb, rfl⟩ := exec_updateCache he
  refine ⟨halways, hk _ _ _ hs'.2 rfl ⟨ht, fun c' hc' => ?_⟩⟩
  cases b with
  | none => exact hnone s'.tokens _ hs'.2 hb.symm c' hc'
  | some c =>
    obtain rfl := Option.some.inj hc'
    exact hsome s'.tokens _ c hs'.2 hb.symm

/-- A write to the store does not concern the cache. -/
theorem safe_saveToken {backendId : String} {entry : TokenCache} {expiresIn : Nat}
    (hs : LiveInside i s) :
    RotationSafe i (saveToken backendId entry expiresIn) (fun _ t => LiveInside i t) s := by
  simp only [saveToken, Prog.bind_eq, Prog.perform_bind]
  refine safe_quiet_op trivial hs fun _ _ now t _ _ _ ht _ => ?_
  refine safe_inside_op ⟨id, id⟩ ht fun s' e b t hs' halways _ he hholder => ?_
  obtain ⟨rfl, rfl⟩ := Prod.mk.inj (Option.some.inj he)
  exact ⟨halways, safe_inside_ret ⟨hholder, hs'.2⟩ fun _ h => h⟩

/-- An accepted answer, before it is cached: what it issues is new; when it issues
nothing the cached token is still live; and when the cached token has just been retired
the answer is complete. -/
structure Answered (body : Value) (T : Tokens) : Prop where
  issued : ∀ r ∈ refreshTokenOf body, r ∉ retired T.exchanges
  carried : refreshTokenOf body = none → T.Live
  complete : ¬ T.Live → (accessTokenOf body).isSome ∧
    ∃ x ∈ T.exchanges.head?, retiredBy x ≠ none ∧ x.2.accepted = some body

/-- Caching an accepted answer leaves a live token behind. Where it issues no refresh token the
manager keeps the one it has, which this exchange has not retired. -/
theorem safe_cacheTokenResponse {m : Manager} {body : Value} {backendId : String}
    (hs : Inside i (Answered body) s) :
    RotationSafe i (m.cacheTokenResponse body backendId) (fun _ t => LiveInside i t) s := by
  rcases haccess : accessTokenOf body with _ | accessToken <;>
    simp only [Manager.cacheTokenResponse, haccess, Prog.bind_eq, Prog.perform_bind]
  · -- no access token: nothing was retired
    refine safe_inside_ret hs fun t ht => ⟨ht.1, by_contra fun hlive => ?_⟩
    have hsome := (ht.2.complete hlive).1
    rw [haccess] at hsome
    cases hsome
  · refine safe_quiet_op trivial hs fun s' e now t hs' hC he ht htok => ?_
    rcases hexpires : now.checkedAdd (secs (expiresInOf body)) with _ | expiresAt
    · -- the lifetime overflows the clock: nothing was retired
      obtain ⟨-, rfl, -⟩ := exec_instantNow he
      have hlive : s'.tokens.Live := by
        refine by_contra fun hlive => ?_
        obtain ⟨-, x, hx, hretired, hbody⟩ := hs'.2.complete hlive
        have hsome := hC.2 x hx hretired body hbody
        rw [hexpires] at hsome
        cases hsome
      exact safe_inside_panic ⟨ht.1, htok ▸ hlive⟩ fun _ h => h
    · refine safe_updateCache ht (fun T now c hT hc r hr => ?_) (fun T now hT hc => ?_)
        fun T entry u _ _ hu => ?_
      · obtain rfl := Option.some.inj hc
        rcases hissued : refreshTokenOf body with _ | r'
        · rw [hissued] at hr
          rcases hprevious : T.cache with _ | c
          · rw [hprevious] at hr
            cases hr
          · rw [hprevious] at hr
            exact hT.carried hissued c hprevious r hr
        · rw [hissued] at hr
          obtain rfl := Option.some.inj hr
          exact hT.issued r' hissued
      · cases hc
      · cases entry with
        | none => exact safe_inside_panic hu fun _ h => h
        | some entry =>
          simp only
          split
          · refine Protocol.Safe.bind (Protocol.Safe.mono (safe_saveToken hu) fun x v _ hv => ?_)
            cases x with
            | done a => exact safe_inside_ret hv fun _ h => h
            | panicked => exact hv
          · exact safe_inside_ret hu fun _ h => h

/-- Posting a form. `J` speaks about the tokens before, `K` about the tokens with the
exchange on record. -/
theorem safe_postToken {J : Tokens → Prop} {endpoint : String} {form : TokenForm}
    {k : JsonReply → Prog OAuthOp α} {Q : Outcome α → OAuthWorld ι → Prop}
    (hs : Inside i J s)
    (hpresented : ∀ T, J T → ∀ r ∈ presentedBy (form, .failed ""), r ∉ retired T.exchanges)
    (hk : ∀ T reply t, J T → (∀ r ∈ issuedBy (form, reply), r ∉ retired T.exchanges) →
      (retiredBy (form, reply) ≠ none → (reply.accepted.bind accessTokenOf).isSome) →
      t.refreshHolder = some i →
      t.tokens = { T with exchanges := (form, reply) :: T.exchanges } →
      RotationSafe i (k reply) Q t) :
    RotationSafe i (.op (.postToken endpoint form) k) Q s := by
  refine safe_inside_op ⟨id, id⟩ hs fun s' e b t hs' halways hC he ht => ?_
  obtain ⟨rfl, rfl⟩ := Prod.mk.inj (Option.some.inj he)
  refine ⟨List.pairwise_cons.mpr ⟨fun x hx r hr => ?_, halways⟩,
    hk s'.tokens e.reply _ hs'.2 hC.1 hC.2 ht rfl⟩
  refine not_mem_retired.mp (hpresented s'.tokens hs'.2 r ?_) x hx
  cases form <;> exact hr

/-- An exchange that retires nothing leaves the cached token live. -/
theorem live_cons {T : Tokens} {x : TokenForm × JsonReply} (hx : retiredBy x = none)
    (hT : T.Live) : Tokens.Live { T with exchanges := x :: T.exchanges } := by
  intro c hc r hr
  rw [retired_cons_of_none hx]
  exact hT c hc r hr

/-- The answer to a refresh leaves the tokens as `safe_cacheTokenResponse` wants them. -/
theorem answered_of_refresh {T : Tokens} {r clientId clientSecret : String} {status : ℕ}
    {body : Value} (hT : T.Live)
    (hissued : ∀ r' ∈ issuedBy (.refresh r clientId clientSecret, .json status body),
      r' ∉ retired T.exchanges)
    (hcomplete : retiredBy (.refresh r clientId clientSecret, .json status body) ≠ none →
      ((JsonReply.json status body).accepted.bind accessTokenOf).isSome)
    (hstatus : isSuccess status = true) :
    Answered body { T with exchanges :=
      (.refresh r clientId clientSecret, .json status body) :: T.exchanges } := by
  have haccepted : (JsonReply.json status body).accepted = some body := by
    simp [JsonReply.accepted, hstatus]
  have hbody : issuedBy (.refresh r clientId clientSecret, .json status body) =
      refreshTokenOf body := by
    simp [issuedBy, haccepted]
  refine ⟨fun r' hr' => ?_, fun hnone => ?_, fun hlive => ?_⟩
  · refine not_mem_retired.mpr fun x hx => ?_
    rcases List.mem_cons.mp hx with rfl | hx
    · exact retiredBy_ne_issuedBy (hbody.trans hr')
    · exact not_mem_retired.mp (hissued r' (hbody.trans hr')) x hx
  · exact live_cons (retiredBy_eq_none (hbody.trans hnone)) hT
  · have hretired : retiredBy (.refresh r clientId clientSecret, .json status body) ≠ none :=
      fun hnone => hlive (live_cons hnone hT)
    refine ⟨?_, _, rfl, hretired, haccepted⟩
    simpa [haccepted] using hcomplete hretired

variable {m : Manager} {backendId : String}

/-- `do_refresh` with a token that has not been exchanged. -/
theorem safe_doRefresh {r : String} (hs : Inside i (fun T => T.Live ∧ r ∉ retired T.exchanges) s) :
    RotationSafe i (m.doRefresh r backendId) (fun _ t => LiveInside i t) s := by
  simp only [Manager.doRefresh, Prog.bind_eq, Prog.perform_bind]
  refine safe_quiet_bind resolveTokenEndpoint_quiet hs (fun endpoint t ht => ?_)
    fun t ht => ⟨ht.1, ht.2.1⟩
  cases endpoint with
  | error e => exact safe_inside_ret ht fun u hu => ⟨hu.1, hu.2.1⟩
  | ok endpoint =>
    refine safe_quiet_bind currentClientId_quiet ht (fun clientId u hu => ?_)
      fun u hu => ⟨hu.1, hu.2.1⟩
    refine safe_postToken hu (fun T hT r' hr' => ?_) fun T reply v hT hissued hcomplete hv htok => ?_
    · obtain rfl := Option.some.inj hr'
      exact hT.2
    · have hlive (h : retiredBy (.refresh r (clientId.getD "") (m.config.clientSecret.getD ""),
          reply) = none) : LiveInside i v := ⟨hv, htok ▸ live_cons h hT.1⟩
      cases reply with
      | failed e => exact safe_inside_ret (hlive rfl) fun _ h => h
      | unreadable status e => exact safe_inside_ret (hlive rfl) fun _ h => h
      | json status body =>
        dsimp only
        by_cases hstatus : isSuccess status = true
        · rw [if_pos hstatus]
          have hv : Inside i (Answered body) v :=
            ⟨hv, htok ▸ answered_of_refresh hT.1 hissued hcomplete hstatus⟩
          refine Protocol.Safe.bind (Protocol.Safe.mono (safe_cacheTokenResponse hv)
            fun x w _ hw => ?_)
          cases x with
          | done a => cases a <;> exact safe_inside_ret hw fun _ h => h
          | panicked => exact hw
        · rw [if_neg hstatus]
          refine safe_inside_ret (hlive (retiredBy_eq_none ?_)) fun _ h => h
          simp [issuedBy, JsonReply.accepted, hstatus]

/-- What a token that was not presented can only be: issued by an earlier exchange. -/
theorem answered_of_grant {T : Tokens} {form : TokenForm} {status : ℕ} {body : Value}
    (hT : Tokens.Live { T with exchanges := (form, .json status body) :: T.exchanges })
    (hissued : ∀ r ∈ issuedBy (form, .json status body), r ∉ retired T.exchanges)
    (hretired : retiredBy (form, .json status body) = none) (hstatus : isSuccess status = true) :
    Answered body { T with exchanges := (form, .json status body) :: T.exchanges } := by
  refine ⟨fun r hr => ?_, fun _ => hT, absurd hT⟩
  rw [retired_cons_of_none hretired]
  refine hissued r ?_
  simpa [issuedBy, JsonReply.accepted, hstatus] using hr

/-- Posting a form that presents no refresh token, and caching the answer. -/
theorem safe_grant {endpoint : String} {form : TokenForm} {sendFailed : String}
    (hform : ∀ reply, presentedBy (form, reply) = none) (hs : LiveInside i s) :
    RotationSafe i (.op (.postToken endpoint form) fun reply =>
      m.tokenAnswer reply sendFailed backendId) (fun _ t => LiveInside i t) s := by
  refine safe_postToken hs (fun T _ r hr => ?_) fun T reply t hT hissued hcomplete ht htok => ?_
  · rw [hform] at hr
    cases hr
  have hretired : retiredBy (form, reply) = none := by simp [retiredBy, hform]
  have hlive : Tokens.Live t.tokens := htok ▸ live_cons hretired hT
  unfold Manager.tokenAnswer
  split
  · exact safe_inside_ret ⟨ht, hlive⟩ fun _ h => h
  · exact safe_inside_ret ⟨ht, hlive⟩ fun _ h => h
  · rename_i status body
    split
    · rename_i hstatus
      refine safe_cacheTokenResponse ⟨ht, ?_⟩
      rw [htok] at hlive ⊢
      exact answered_of_grant hlive hissued hretired hstatus
    · exact safe_inside_ret ⟨ht, hlive⟩ fun _ h => h

/-- `set_dynamic_client_id` keeps the refresh token. -/
theorem safe_setDynamicClientId {clientId : String} (hs : LiveInside i s) :
    RotationSafe i (Manager.setDynamicClientId clientId) (fun _ t => LiveInside i t) s := by
  simp only [Manager.setDynamicClientId, Prog.bind_eq, Prog.perform_bind]
  refine safe_updateCache hs (fun T now c hT hc r hr => ?_) (fun T now hT hc => ?_)
    fun _ _ t _ _ ht => safe_inside_ret ht fun _ h => h
  · rcases hcache : T.cache with _ | c'
    · rw [hcache] at hc
      obtain rfl := Option.some.inj hc
      cases hr
    · rw [hcache] at hc
      obtain rfl := Option.some.inj hc
      exact hT c' hcache r hr
  · rcases hcache : T.cache with _ | c' <;> rw [hcache] at hc <;> cases hc

/-- `install_persisted` with a token whose refresh token has not been exchanged. -/
theorem safe_installPersisted {t : PersistedToken}
    (hs : Inside i (fun T => T.Live ∧ ∀ r ∈ t.refreshToken, r ∉ retired T.exchanges) s) :
    RotationSafe i (m.installPersisted t)
      (fun _ u => Inside i (fun T => T.Live ∧ ∀ r ∈ t.refreshToken, r ∉ retired T.exchanges) u)
      s := by
  simp only [Manager.installPersisted, Prog.bind_eq, Prog.perform_bind]
  refine safe_quiet_op trivial hs fun _ _ now u _ _ _ hu _ => ?_
  refine safe_updateCache hu (fun T now c hT hc r hr => ?_) (fun T now hT _ => hT.1)
    fun T entry v hT hexch hv => ?_
  · obtain ⟨expiresAt, -, rfl⟩ := Option.map_eq_some_iff.mp hc
    exact hT.2 r hr
  · have hv' : Inside i (fun T => T.Live ∧ ∀ r ∈ t.refreshToken, r ∉ retired T.exchanges) v :=
      ⟨hv.1, hv.2, fun r hr => hexch ▸ hT.2 r hr⟩
    cases entry with
    | none => exact safe_inside_panic hv' fun _ h => h
    | some entry => exact safe_inside_ret hv' fun _ h => h

/-- A token that is loaded under the condition has not been exchanged. -/
theorem safe_loadToken {key : String} {k : Option PersistedToken → Prog OAuthOp α}
    {Q : Outcome α → OAuthWorld ι → Prop} (hs : LiveInside i s)
    (hnone : ∀ t, LiveInside i t → RotationSafe i (k none) Q t)
    (hsome : ∀ stored t, Inside i (fun T => T.Live ∧ ∀ r ∈ stored.refreshToken,
      r ∉ retired T.exchanges) t → RotationSafe i (k (some stored)) Q t) :
    RotationSafe i (.op (.loadToken key) k) Q s := by
  refine safe_quiet_op trivial hs fun s' e b t _ hC he ht _ => ?_
  obtain ⟨rfl, rfl⟩ := Prod.mk.inj (Option.some.inj he)
  rcases hload : (if e.flag = true then s'.store key else none) with _ | stored
  · exact hnone _ ht
  · split at hload
    · rename_i hflag
      exact hsome stored _ ⟨ht.1, ht.2, hC.2 hflag stored hload⟩
    · cases hload

/-- What rotation shows of the tokens: the cached token is live, and what is presented or
installed has not been exchanged. -/
def rotationWalk (ι : Type) : TokenWalk ι where
  always T := NoReuse T.exchanges
  between := Tokens.Live
  forClient _ := Tokens.Live
  presents r T := T.Live ∧ r ∉ retired T.exchanges
  loaded stored T := T.Live ∧ ∀ r ∈ stored.refreshToken, r ∉ retired T.exchanges
  rule := RotationRule ι

/-- The five places keep it. Each of them either leaves the refresh token alone or puts one in its
place that has not been exchanged. -/
theorem laws_rotationWalk : (rotationWalk ι).Laws m where
  configured _ _ _ hT := hT
  forget _ _ hT := hT
  discard _ _ hT := hT.1
  cached _ _ hT c hc r hr := ⟨hT, hT c hc r hr⟩
  register _ _ _ hs := safe_setDynamicClientId hs
  grant _ _ _ _ _ _ hform hs := safe_grant hform hs
  refresh _ _ _ _ hs := safe_doRefresh hs
  load _ _ _ _ _ hs hnone hsome := safe_loadToken hs hnone hsome
  install i stored s hs := by
    refine Protocol.Safe.mono (safe_installPersisted hs) fun x t _ ht => ?_
    exact ⟨⟨ht.1, ht.2.1⟩, fun _ => ⟨ht.1, ht.2.1, fun r hr => ⟨ht.2.1, ht.2.2 r hr⟩⟩⟩

end Walk

/-- **The manager never presents a token that it has exchanged**, for any number of calls in any
interleaving with a rotating provider, as long as every step meets `KeepsNewest`. The start may be
any cache and any store, as long as this manager has made no exchange. The invariant is that the
cached refresh token is live whenever the refresh lock is free, and `laws_rotationWalk` says that
every place which touches the tokens keeps it. -/
theorem noReuse_of_keepsNewest [DecidableEq ι] {m : Manager} {calls : ι → Manager.Call}
    {start : OAuthWorld ι} {ls : List (ι × OAuthChoice)}
    {c : Pool OAuthOp ι (OAuthWorld ι) Manager.Answer}
    (hnew : start.exchanges = [])
    (hp : (oauthMachine ι).play ls ⟨start, fun i => m.call (calls i)⟩ = some c)
    (hprovider : Rotates c.shared.exchanges)
    (hkeeps : (oauthMachine ι).Meets (KeepsNewest ι) ls ⟨start, fun i => m.call (calls i)⟩) :
    NoReuse c.shared.exchanges := by
  have hstart : Protocol.Holds (rotation ι) (oauthMachine ι) (RotationRule ι)
      (fun _ _ _ => True) ⟨start, fun i => m.call (calls i)⟩ := by
    refine ⟨⟨?_, fun _ => ?_⟩, fun i => laws_rotationWalk.safe_call⟩
    · simp [OAuthWorld.tokens, hnew, NoReuse]
    · intro c _ r _
      simp [OAuthWorld.tokens, hnew, retired]
  exact (hstart.play ((issuesNew_of_rotates hp hprovider).and _ hkeeps) hp).inv.1

/-! ## Two runs -/

/-- A new process with an expired token in the store. -/
def restarted (ι : Type) : OAuthWorld ι where
  refreshHolder := none
  cache := none
  discovered := none
  instant := 0
  store := fun key => if key = tokenKey "api" then some ⟨"a0", some "r0", none, 0⟩ else none
  exchanges := []
  browser := []

/-- The tasks of the run: adopt the stored token, then ask for a token twice. -/
def rollbackCalls : Fin 3 → Manager.Call
  | 0 => .adoptPersisted "api"
  | _ => .getToken "api" true

/-- The first refresh is accepted and written to the store. -/
def keptRotation : List (Fin 3 × OAuthChoice) :=
  [(0, {}), (0, {}), (0, {}), (0, {}), (0, {}), (0, {}), (0, {}), (0, {}),
    (1, {}), (1, {}), (1, {}), (1, { reply := .json 200 (rotatedToken "a1" "r1") }), (1, {}),
    (1, {}), (1, {}), (1, {}), (1, {}),
    (2, { instant := secs 3600 }), (2, {}), (2, { instant := secs 3600 }),
    (2, { reply := .json 400 (.object []) }), (2, {})]

/-- When the write succeeds nothing is presented twice. The store is as new as the cache then. -/
theorem kept_rotation_noReuse :
    ∃ c, (oauthMachine (Fin 3)).play keptRotation
        ⟨restarted (Fin 3), fun i => interactive.call (rollbackCalls i)⟩ = some c ∧
      c.shared.exchanges.length = 2 ∧ NoReuse c.shared.exchanges := by
  have hrun : ((oauthMachine (Fin 3)).play keptRotation
      ⟨restarted (Fin 3), fun i => interactive.call (rollbackCalls i)⟩).map
        (fun c => c.shared.exchanges) = some
      [(.refresh "r1" "client" "", .json 400 (.object [])),
        (.refresh "r0" "client" "", .json 200 (rotatedToken "a1" "r1"))] := by
    rfl
  obtain ⟨c, hc, hexch⟩ := Option.map_eq_some_iff.mp hrun
  refine ⟨c, hc, by rw [hexch]; rfl, noReuse_of_keepsNewest rfl hc ?_ ?_⟩
  · rw [hexch, Rotates]
    decide
  · decide

/-- The first refresh is accepted and its write to the store fails; an hour later the
second refresh is refused, and the stored token is tried once more. -/
def rollback : List (Fin 3 × OAuthChoice) :=
  [(0, {}), (0, {}), (0, {}), (0, {}), (0, {}), (0, {}), (0, {}), (0, {}),
    (1, {}), (1, {}), (1, {}), (1, { reply := .json 200 (rotatedToken "a1" "r1") }), (1, {}),
    (1, {}), (1, {}), (1, { flag := false }), (1, {}),
    (2, { instant := secs 3600 }), (2, {}), (2, { instant := secs 3600 }),
    (2, { reply := .json 400 (.object []) }), (2, {}), (2, { unix := 3600 }),
    (2, { instant := secs 3600 }), (2, { unix := 3600 }),
    (2, { reply := .json 400 (.object []) })]

/-- The retired token `r0` is presented again. -/
theorem rollback_presents_exchanged_token :
    ∃ c, (oauthMachine (Fin 3)).play rollback
        ⟨restarted (Fin 3), fun i => interactive.call (rollbackCalls i)⟩ = some c ∧
      (restarted (Fin 3)).exchanges = [] ∧
      Rotates c.shared.exchanges ∧ ¬ NoReuse c.shared.exchanges := by
  have hrun : ((oauthMachine (Fin 3)).play rollback
      ⟨restarted (Fin 3), fun i => interactive.call (rollbackCalls i)⟩).map
        (fun c => c.shared.exchanges) = some
      [(.refresh "r0" "client" "", .json 400 (.object [])),
        (.refresh "r1" "client" "", .json 400 (.object [])),
        (.refresh "r0" "client" "", .json 200 (rotatedToken "a1" "r1"))] := by
    rfl
  obtain ⟨c, hc, hexch⟩ := Option.map_eq_some_iff.mp hrun
  refine ⟨c, hc, rfl, ?_, ?_⟩
  · rw [hexch, Rotates]
    decide
  · rw [hexch, NoReuse]
    decide

end HeadlessMcp
