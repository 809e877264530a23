import HeadlessMcp.Async.Solo
import HeadlessMcp.OAuth2.World
import Mathlib

/-!
# Client credentials in daemon mode

A daemon that uses the `client_credentials` grant can always ask for another token,
so `get_token` should never give up before it has asked. It does, for one shape of
the cache: an entry that is about to expire and has no refresh token
(`Stranded`). That is what a `client_credentials` answer without a refresh token
leaves behind once it expires, and what dynamic registration leaves behind at once.

`getToken_serves_iff` says that this shape is the only one: from every other cache
the call returns a token with more than 30 seconds left or reaches the token
endpoint.
-/

namespace HeadlessMcp

open Async

variable {ι : Type} {i : ι}

/-- The manager can run the `client_credentials` grant: it is the configured one,
and the client is configured. (The secret may be empty, as for a provider with
`none` authentication.) -/
structure CanAskAgain (m : Manager) : Prop where
  grant : m.resolveGrantType = "client_credentials"
  clientId : m.config.clientId.isSome

/-- The call served its caller: it returned the cached token, usable at the last
reading of the clock, or something was sent to the token endpoint after the `n`
exchanges before it. -/
def Serves (n : ℕ) (x : Outcome (BackendResult String)) (t : OAuthWorld ι) : Prop :=
  (∃ c, t.cache = some c ∧ c.usable t.instant = true ∧ x = .done (.ok c.accessToken)) ∨
    n < t.exchanges.length

/-- The cache holds an entry that has no refresh token and is not usable. -/
def Stranded (cache : Option TokenCache) (now : Instant) : Prop :=
  ∃ c, cache = some c ∧ c.usable now = false ∧ c.refreshToken = none

/-! ## The record of exchanges only grows -/

theorem exec_exchanges_length {δ : Type} {o : OAuthOp δ} {e : OAuthChoice}
    {s t : OAuthWorld ι} {b : δ} (h : (oauthMachine ι).exec i δ o e s = some (b, t)) :
    s.exchanges.length ≤ t.exchanges.length := by
  cases o <;> simp only [oauthMachine, OAuthWorld.exec, OAuthWorld.tick] at h <;> grind

/-- Once the endpoint was reached, it stays reached. The record of exchanges is never cut. -/
theorem wp_contacted {α : Type} {n : ℕ} (p : Prog OAuthOp α) {s : OAuthWorld ι}
    (hs : n < s.exchanges.length) :
    (oauthMachine ι).wp i p (fun _ t => n < t.exchanges.length) s :=
  (oauthMachine ι).wp_of_invariant
    (fun _ _ _ _ _ _ hn hexec => Nat.lt_of_lt_of_le hn (exec_exchanges_length hexec)) p hs

/-- A program that starts by asking the token endpoint reaches it. -/
theorem wp_postToken {α : Type} {n : ℕ} {endpoint : String} {form : TokenForm}
    {k : JsonReply → Prog OAuthOp α} {s : OAuthWorld ι} (hn : n ≤ s.exchanges.length) :
    (oauthMachine ι).wp i (.op (.postToken endpoint form) k)
      (fun _ t => n < t.exchanges.length) s := by
  intro e b t hexec
  obtain ⟨rfl, rfl⟩ := Prod.mk.inj (Option.some.inj hexec)
  exact wp_contacted (k e.reply) (Nat.lt_succ_of_le hn)

/-! ## What each method does when the endpoint and the client are known -/

/-- The endpoint is resolved, and nothing changes. It is known from the configuration or from the
metadata that were discovered, so nothing is asked. -/
theorem wp_resolveTokenEndpoint {m : Manager} {s : OAuthWorld ι}
    {Q : Outcome (BackendResult String) → OAuthWorld ι → Prop}
    (h : EndpointKnown m s.discovered) (hQ : ∀ endpoint, Q (.done (.ok endpoint)) s) :
    (oauthMachine ι).wp i m.resolveTokenEndpoint Q s := by
  have discovered {found : Option AuthServerMetadata → Prog OAuthOp (BackendResult String)}
      (hfound : ∀ d, found (some d) = .ret (.ok d.tokenEndpoint)) (hd : s.discovered.isSome) :
      (oauthMachine ι).wp i (.op .readDiscovered found) Q s := by
    intro e b t hexec
    obtain ⟨rfl, rfl⟩ := Prod.mk.inj (Option.some.inj hexec)
    obtain ⟨d, hd⟩ := Option.isSome_iff_exists.mp hd
    rw [hd, hfound]
    exact hQ _
  unfold Manager.resolveTokenEndpoint
  rcases h with ⟨endpoint, hconf, hne⟩ | hd
  · rw [hconf]
    simp only [ne_eq, hne, not_false_eq_true, if_true]
    exact hQ endpoint
  · split
    · split
      · exact hQ _
      · exact discovered (fun _ => rfl) hd
    · exact discovered (fun _ => rfl) hd

/-- A refresh reaches the endpoint. -/
theorem wp_doRefresh {m : Manager} {n : ℕ} {refreshToken backendId : String}
    {s : OAuthWorld ι} (hclient : CanAskAgain m) (h : EndpointKnown m s.discovered)
    (hn : n ≤ s.exchanges.length) :
    (oauthMachine ι).wp i (m.doRefresh refreshToken backendId)
      (fun _ t => n < t.exchanges.length) s := by
  obtain ⟨clientId, hid⟩ := Option.isSome_iff_exists.mp hclient.clientId
  simp only [Manager.doRefresh, Prog.bind_eq, Machine.wp_bind]
  refine wp_resolveTokenEndpoint h fun endpoint => ?_
  simp only [Machine.andThen, Manager.currentClientId, hid, Prog.ret_bind, Prog.perform_bind]
  exact wp_postToken hn

/-- A `client_credentials` grant reaches the endpoint. -/
theorem wp_doClientCredentials {m : Manager} {n : ℕ} {endpoint backendId : String}
    {s : OAuthWorld ι} (hclient : CanAskAgain m) (hn : n ≤ s.exchanges.length) :
    (oauthMachine ι).wp i (m.doClientCredentials endpoint backendId)
      (fun _ t => n < t.exchanges.length) s := by
  obtain ⟨clientId, hid⟩ := Option.isSome_iff_exists.mp hclient.clientId
  rcases hsecret : m.config.clientSecret with _ | clientSecret <;>
    simp only [Manager.doClientCredentials, Manager.clientCredentials, hid, hsecret,
      Prog.bind_eq, Prog.ret_bind, Prog.perform_bind]
  · exact wp_postToken hn
  · exact wp_postToken hn

/-- Dropping the refresh guard does not take back what the call did. -/
theorem wp_withLock_serves {n : ℕ} {p : Prog OAuthOp (BackendResult String)}
    {s : OAuthWorld ι}
    (h : ∀ t : OAuthWorld ι, t.cache = s.cache → t.discovered = s.discovered →
      t.exchanges = s.exchanges → (oauthMachine ι).wp i p (Serves n) t) :
    (oauthMachine ι).wp i (Prog.withLock .lockRefresh .unlockRefresh p) (Serves n) s := by
  intro e b t hexec
  have hlock : t.cache = s.cache ∧ t.discovered = s.discovered ∧ t.exchanges = s.exchanges := by
    simp only [oauthMachine, OAuthWorld.exec] at hexec
    split at hexec
    · obtain ⟨-, rfl⟩ := Prod.mk.inj (Option.some.inj hexec)
      exact ⟨rfl, rfl, rfl⟩
    · cases hexec
  rw [Machine.wp_andFinally]
  refine Machine.wp_mono _ (h t hlock.1 hlock.2.1 hlock.2.2) ?_
  intro x t hx e b u hexec
  obtain ⟨-, rfl⟩ := Prod.mk.inj (Option.some.inj hexec)
  exact hx

/-- The acquisition serves its caller. -/
theorem wp_getTokenAcquire {m : Manager} {n : ℕ} {backendId : String} {daemonMode : Bool}
    {s : OAuthWorld ι} (hclient : CanAskAgain m) (h : EndpointKnown m s.discovered)
    (hn : n ≤ s.exchanges.length) :
    (oauthMachine ι).wp i (m.getTokenAcquire backendId daemonMode) (Serves n) s := by
  simp only [Manager.getTokenAcquire, Prog.bind_eq, Prog.perform_bind]
  intro e b t hexec
  simp only [oauthMachine, OAuthWorld.exec, Option.map_eq_some_iff] at hexec
  obtain ⟨u, hu, heq⟩ := hexec
  obtain ⟨-, rfl⟩ := OAuthWorld.tick_eq_some hu
  obtain ⟨rfl, rfl⟩ := Prod.mk.inj heq
  rcases hc : s.cache.filter (·.usable e.instant) with _ | c
  · simp only [hc, hclient.grant]
    rw [Machine.wp_bind]
    refine wp_resolveTokenEndpoint (m := m) h fun endpoint => ?_
    exact Machine.wp_mono _ (wp_doClientCredentials hclient hn) fun _ _ => Or.inr
  · simp only [hc]
    obtain ⟨hcache, husable⟩ := Option.filter_eq_some_iff.mp hc
    exact Or.inl ⟨c, hcache, husable, rfl⟩

/-- With a refresh token in the cache the refresh path serves its caller, or falls
through to the acquisition with nothing lost. -/
theorem wp_getTokenRefresh {m : Manager} {n : ℕ} {backendId : String} {daemonMode : Bool}
    {s : OAuthWorld ι} {c : TokenCache} (hclient : CanAskAgain m) (h : EndpointKnown m s.discovered)
    (hn : n ≤ s.exchanges.length) (hcache : s.cache = some c) (hc : c.refreshToken.isSome) :
    (oauthMachine ι).wp i (m.getTokenRefresh backendId daemonMode)
      (fun x t => (∃ c, t.cache = some c ∧ c.usable t.instant = true ∧
          x = .done (some (.ok c.accessToken))) ∨ n < t.exchanges.length) s := by
  obtain ⟨refreshToken, hrefresh⟩ := Option.isSome_iff_exists.mp hc
  simp only [Manager.getTokenRefresh, Prog.bind_eq, Prog.perform_bind]
  intro e b t hexec
  simp only [oauthMachine, OAuthWorld.exec, Option.map_eq_some_iff] at hexec
  obtain ⟨u, hu, heq⟩ := hexec
  obtain ⟨-, rfl⟩ := OAuthWorld.tick_eq_some hu
  obtain ⟨rfl, rfl⟩ := Prod.mk.inj heq
  simp only [hcache, hrefresh]
  by_cases husable : c.usable e.instant = true
  · rw [if_pos husable]
    exact Or.inl ⟨c, rfl, husable, rfl⟩
  · rw [if_neg husable, Machine.wp_bind]
    -- from the refresh request on, the endpoint has been reached
    refine Machine.wp_mono _ (wp_doRefresh (n := n) hclient h hn) fun x t ht => ?_
    cases x with
    | done r => exact Machine.wp_mono _ (wp_contacted _ ht) fun _ _ => Or.inr
    | panicked => exact Or.inr ht

/-- **When a machine-to-machine daemon gives up.** With the endpoint and the client configured,
`get_token` returns a token with more than 30 seconds left or reaches the token endpoint, exactly
when the entry its first critical section finds is not an unusable one without a refresh token.
The call runs alone, and its first critical section reads the clock together with the cache. -/
theorem getToken_serves_iff {m : Manager} {backendId : String} {e : OAuthChoice}
    {es : List OAuthChoice} {s s' : OAuthWorld ι} {x : Outcome (BackendResult String)}
    (hclient : CanAskAgain m) (hendpoint : EndpointKnown m s.discovered)
    (hrun : (oauthMachine ι).solo i (m.getToken backendId true) (e :: es) s = some (x, s')) :
    Serves s.exchanges.length x s' ↔ ¬ Stranded s.cache e.instant := by
  simp only [Manager.getToken, Prog.bind_eq, Prog.perform_bind] at hrun
  obtain ⟨e', es', b, t, hes, hexec, hrest⟩ := Machine.solo_op _ hrun
  obtain ⟨rfl, rfl⟩ := List.cons.inj hes
  simp only [oauthMachine, OAuthWorld.exec, Option.map_eq_some_iff] at hexec
  obtain ⟨u, hu, heq⟩ := hexec
  obtain ⟨-, rfl⟩ := OAuthWorld.tick_eq_some hu
  obtain ⟨rfl, rfl⟩ := Prod.mk.inj heq
  have acquire (t : OAuthWorld ι) (hd : t.discovered = s.discovered)
      (hn : s.exchanges.length ≤ t.exchanges.length) :
      (oauthMachine ι).wp i (Prog.withLock .lockRefresh .unlockRefresh
        (m.getTokenAcquire backendId true)) (Serves s.exchanges.length) t := by
    refine wp_withLock_serves fun u _ hdu hxu => wp_getTokenAcquire hclient ?_ (hxu ▸ hn)
    rw [hdu, hd]
    exact hendpoint
  rcases hcache : s.cache with _ | c
  · -- no entry: a new token is acquired
    simp only [hcache] at hrest
    refine iff_of_true (Machine.wp_solo _ (acquire _ ?_ ?_) hrest) ?_
    · rfl
    · exact Nat.le_refl _
    · rintro ⟨c, hc, -⟩
      cases hc
  · simp only [hcache] at hrest
    by_cases husable : c.usable e.instant = true
    · -- the fast path
      rw [if_pos husable] at hrest
      obtain ⟨-, heq⟩ := Machine.solo_ret _ hrest
      obtain ⟨rfl, rfl⟩ := Prod.mk.inj heq
      refine iff_of_true (Or.inl ⟨c, rfl, husable, rfl⟩) ?_
      rintro ⟨c', hc', hu', -⟩
      obtain rfl := Option.some.inj hc'
      rw [husable] at hu'
      cases hu'
    · rw [if_neg husable] at hrest
      by_cases hrefresh : c.refreshToken.isSome = true
      · -- the refresh path
        rw [if_pos hrefresh] at hrest
        refine iff_of_true (Machine.wp_solo _ (Q := Serves s.exchanges.length) ?_ hrest) ?_
        · rw [Machine.wp_bind]
          intro e b t hexec
          simp only [oauthMachine, OAuthWorld.exec] at hexec
          split at hexec
          · obtain ⟨-, rfl⟩ := Prod.mk.inj (Option.some.inj hexec)
            rw [Machine.wp_andFinally]
            refine Machine.wp_mono _ (wp_getTokenRefresh (n := s.exchanges.length) hclient
              hendpoint (Nat.le_refl _) rfl hrefresh) ?_
            intro x t hx e b u hexec
            obtain ⟨-, rfl⟩ := Prod.mk.inj (Option.some.inj hexec)
            rcases hx with ⟨c', hc', hu', rfl⟩ | hlt
            · exact Or.inl ⟨c', hc', hu', rfl⟩
            · cases x with
              | done r => exact Machine.wp_mono _ (wp_contacted _ hlt) fun _ _ => Or.inr
              | panicked => exact Or.inr hlt
          · cases hexec
        · rintro ⟨c', hc', -, hr'⟩
          obtain rfl := Option.some.inj hc'
          rw [hr'] at hrefresh
          cases hrefresh
      · -- stranded: the call fails and nothing was sent
        rw [if_neg hrefresh] at hrest
        simp only [if_true] at hrest
        obtain ⟨-, heq⟩ := Machine.solo_ret _ hrest
        obtain ⟨rfl, rfl⟩ := Prod.mk.inj heq
        refine iff_of_false ?_ ?_
        · rintro (⟨c', -, -, hx⟩ | hlt)
          · cases hx
          · exact absurd hlt (Nat.lt_irrefl _)
        · refine not_not_intro ⟨c, rfl, Bool.not_eq_true _ ▸ husable, ?_⟩
          exact Option.not_isSome_iff_eq_none.mp hrefresh

/-! ## The second acquisition -/

/-- A backend with static credentials and no stored token. -/
def machineToMachine : Manager where
  config :=
    { tokenEndpoint := some "https://idp.test/token"
      clientId := some "client"
      clientSecret := some "secret"
      scopes := none
      grantType := "client_credentials"
      callbackPort := 9798 }
  hasStore := false
  s256 := id

/-- The world of a manager that was just created. -/
def OAuthWorld.fresh (ι : Type) : OAuthWorld ι where
  refreshHolder := none
  cache := none
  discovered := none
  instant := 0
  store := fun _ => none
  exchanges := []
  browser := []

/-- The usual answer to a `client_credentials` grant: no refresh token. -/
def hourToken : Value :=
  .object [("access_token", .string "t"), ("expires_in", .number (.int 3600))]

/-- The first acquisition succeeds; an hour later the second call fails without
having asked the endpoint. -/
theorem second_acquisition_gives_up :
    ∃ s₁ x s₂,
      (oauthMachine Unit).solo () (machineToMachine.getToken "api" true)
        [{}, {}, {}, { reply := .json 200 hourToken }, {}, {}, {}] (OAuthWorld.fresh Unit) =
          some (.done (.ok "t"), s₁) ∧
      CanAskAgain machineToMachine ∧ EndpointKnown machineToMachine s₁.discovered ∧
      (oauthMachine Unit).solo () (machineToMachine.getToken "api" true)
        [{ instant := secs 3600 }] s₁ = some (x, s₂) ∧
      ¬ Serves s₁.exchanges.length x s₂ := by
  refine ⟨_, _, _, rfl, ⟨rfl, rfl⟩, Or.inl ⟨_, rfl, by decide⟩, rfl, ?_⟩
  rintro (⟨c, -, -, hx⟩ | hlt)
  · cases hx
  · exact absurd hlt (Nat.lt_irrefl _)

/-- The dichotomy at the first acquisition: it serves, and the cache was empty. -/
theorem first_acquisition_serves :
    ∃ x s', (oauthMachine Unit).solo () (machineToMachine.getToken "api" true)
        [{}, {}, {}, { reply := .json 200 hourToken }, {}, {}, {}] (OAuthWorld.fresh Unit) =
          some (x, s') ∧
      (Serves (OAuthWorld.fresh Unit).exchanges.length x s' ↔
        ¬ Stranded (OAuthWorld.fresh Unit).cache 0) := by
  obtain ⟨x, s', hrun⟩ : ∃ x s', (oauthMachine Unit).solo ()
      (machineToMachine.getToken "api" true)
      [{}, {}, {}, { reply := .json 200 hourToken }, {}, {}, {}] (OAuthWorld.fresh Unit) =
        some (x, s') := ⟨_, _, rfl⟩
  have hendpoint : EndpointKnown machineToMachine (OAuthWorld.fresh Unit).discovered :=
    Or.inl ⟨"https://idp.test/token", rfl, by decide⟩
  exact ⟨x, s', hrun, getToken_serves_iff ⟨rfl, rfl⟩ hendpoint hrun⟩

end HeadlessMcp
