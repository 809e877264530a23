import HeadlessMcp.Async.Solo
import HeadlessMcp.OAuth2.World

/-!
# Lifetimes and the clocks

The lifetime of a token is a number of the server. It is added to an instant when the token is
cached, to a Unix second when it is stored, and what is left of it to an instant when the stored
token is installed again. None of the sums is checked or saturated, so all is well exactly for the
lifetimes that fit (`lifetime_is_safe_iff`).
-/

namespace HeadlessMcp

open Async

/-! ## The current time -/

/-- The current time, by both clocks. The two clocks are independent, and every reading that is
made at this time finds these values. -/
structure Reading : Type where
  instant : Instant
  unix : Nat

/-- A response is cached and stored at this time. -/
def CachedAt (ι : Type) (r : Reading) : Rule OAuthOp ι OAuthChoice (OAuthWorld ι)
  | _, _, .instantNow, e, _ => e.instant = r.instant
  | _, _, .unixNow, e, _ => e.unix = r.unix
  | _, _, _, _, _ => True

/-- A stored token is installed at this time. -/
def InstalledAt (ι : Type) (r : Reading) : Rule OAuthOp ι OAuthChoice (OAuthWorld ι)
  | _, _, .updateCache _, e, _ => e.instant = r.instant
  | _, _, .unixNow, e, _ => e.unix = r.unix
  | _, _, _, _, _ => True

/-- A choice of the environment at this time. -/
def Reading.choice (r : Reading) : OAuthChoice := { instant := r.instant, unix := r.unix }

/-- At this time, `cache_token_response` can end so. The other choices of the environment are
free. -/
def Caches (m : Manager) (body : Value) (backendId : String) (r : Reading)
    (s : OAuthWorld Unit) (x : Outcome (BackendResult String)) (t : OAuthWorld Unit) : Prop :=
  ∃ es, (oauthMachine Unit).SoloMeets (CachedAt Unit r) () (m.cacheTokenResponse body backendId)
    es s ∧ (oauthMachine Unit).solo () (m.cacheTokenResponse body backendId) es s = some (x, t)

/-- At this time, `install_persisted` can end so. -/
def Installs (m : Manager) (stored : PersistedToken) (r : Reading) (s : OAuthWorld Unit)
    (x : Outcome Unit) (t : OAuthWorld Unit) : Prop :=
  ∃ es, (oauthMachine Unit).SoloMeets (InstalledAt Unit r) () (m.installPersisted stored) es s ∧
    (oauthMachine Unit).solo () (m.installPersisted stored) es s = some (x, t)

/-! ## What has to go well -/

/-- At this time the response is cached and stored without an overflow, and what is stored can be
installed at a later one. -/
structure TimeSafe (m : Manager) (body : Value) (backendId : String) (r later : Reading) :
    Prop where
  /-- the instant of expiry does not overflow -/
  cached : ∀ s x t, Caches m body backendId r s x t → x ≠ .panicked
  /-- neither does the second of expiry, and it is no earlier than now -/
  stored : ∀ s x t, Caches m body backendId r s x t → s.store (tokenKey backendId) = none →
    ∀ token, t.store (tokenKey backendId) = some token →
      token.expiresAtUnix = r.unix + expiresInOf body ∧ r.unix ≤ token.expiresAtUnix
  /-- nor the instant of expiry in another process -/
  installed : ∀ s x t, Caches m body backendId r s x t → s.store (tokenKey backendId) = none →
    ∀ token, t.store (tokenKey backendId) = some token →
      ∀ s' y t', Installs m token later s' y t' → y ≠ .panicked

/-- The lifetime fits: into the instants when the token is cached, and where it is stored, into
the seconds, and what is left of it into the instants when it is installed. -/
structure LifetimeFits (m : Manager) (life : Nat) (r later : Reading) : Prop where
  instant : r.instant + secs life < Instant.limit
  unix : m.hasStore = true → r.unix + life < 2 ^ 64
  remaining : m.hasStore = true →
    later.instant + secs (r.unix + life - later.unix) < Instant.limit

section Runs

variable {m : Manager} {body : Value} {backendId accessToken : String} {r later : Reading}
  {s t : OAuthWorld Unit}

/-- A world without tokens, at the first instant. -/
def untouched : OAuthWorld Unit := ⟨none, none, none, 0, fun _ => none, [], []⟩

/-! ## Installing -/

/-- Where what is left fits, nothing panics. -/
theorem wp_installPersisted {stored : PersistedToken}
    (hlimit : r.instant + secs (stored.expiresAtUnix - r.unix) < Instant.limit) :
    ((oauthMachine Unit).under (InstalledAt Unit r)).wp () (m.installPersisted stored)
      (fun y _ => y ≠ .panicked) s := by
  simp only [Manager.installPersisted, Prog.bind_eq, Prog.perform_bind]
  refine Machine.wp_under_op fun e unix t hunix hexec => ?_
  obtain ⟨rfl, rfl⟩ := Prod.mk.inj (Option.some.inj hexec)
  have hunix : e.unix = r.unix := hunix
  refine Machine.wp_under_op fun e' entry t hinstant hexec => ?_
  obtain ⟨-, rfl, rfl⟩ := exec_updateCache hexec
  have hinstant : e'.instant = r.instant := hinstant
  rw [Manager.persistedEntry, hunix, hinstant, Instant.checkedAdd, if_pos hlimit]
  exact nofun

/-- Installing a token panics exactly where what is left of its life does not fit. -/
theorem installs_safely_iff {stored : PersistedToken} :
    (∀ s y t, Installs m stored r s y t → y ≠ .panicked) ↔
      r.instant + secs (stored.expiresAtUnix - r.unix) < Instant.limit := by
  constructor
  · intro hsafe
    refine Classical.byContradiction fun hlimit => ?_
    have hrun : Installs m stored r untouched .panicked
        { untouched with instant := r.instant } := by
      refine ⟨List.replicate 2 r.choice, Machine.soloMeets_replicate ?_ _ _ _, ?_⟩
      · intro δ o s
        cases o <;> first | rfl | trivial
      · simp [Manager.installPersisted, Manager.persistedEntry, Instant.checkedAdd, hlimit,
          oauthMachine, OAuthWorld.exec, OAuthWorld.tick, untouched, Machine.solo, Reading.choice]
    exact hsafe _ _ _ hrun rfl
  · rintro hlimit s y t ⟨es, hrule, hrun⟩
    have hsafe := Machine.wp_under_solo (wp_installPersisted hlimit) hrule hrun
    exact hsafe

/-! ## Caching -/

/-- Where the lifetime fits, the response is cached, and stored with the sum of the seconds. -/
theorem wp_caches (hbody : accessTokenOf body = some accessToken)
    (hlimit : r.instant + secs (expiresInOf body) < Instant.limit) :
    ((oauthMachine Unit).under (CachedAt Unit r)).wp () (m.cacheTokenResponse body backendId)
      (fun x t => x ≠ .panicked ∧ (t.store = s.store ∨ m.hasStore = true ∧ ∃ token,
        t.store (tokenKey backendId) = some token ∧
          token.expiresAtUnix = addU64 r.unix (expiresInOf body))) s := by
  rw [Manager.cacheTokenResponse, hbody]
  simp only [Prog.bind_eq, Prog.perform_bind]
  refine Machine.wp_under_op fun e now t hinstant hexec => ?_
  obtain ⟨-, rfl, rfl⟩ := exec_instantNow hexec
  have hinstant : e.instant = r.instant := hinstant
  rw [Instant.checkedAdd, if_pos (by rw [hinstant]; exact hlimit)]
  refine Machine.wp_under_op fun e' entry t _ hexec => ?_
  obtain ⟨-, rfl, rfl⟩ := exec_updateCache hexec
  rw [Manager.responseEntry]
  dsimp only
  split
  · rename_i hstore
    rw [saveToken]
    simp only [Prog.bind_eq, Prog.perform_bind, Prog.op_bind]
    refine Machine.wp_under_op fun e'' unix t hunix hexec => ?_
    obtain ⟨rfl, rfl⟩ := Prod.mk.inj (Option.some.inj hexec)
    have hunix : e''.unix = r.unix := hunix
    refine Machine.wp_under_op fun e₃ _ t _ hexec => ?_
    obtain ⟨-, rfl⟩ := Prod.mk.inj (Option.some.inj hexec)
    refine ⟨nofun, ?_⟩
    split
    · refine .inr ⟨hstore, _, Function.update_self .., ?_⟩
      rw [hunix]
    · exact .inl rfl
  · exact ⟨nofun, .inl rfl⟩

theorem soloMeets_cachedAt {α : Type} (n : Nat) (p : Prog OAuthOp α) :
    (oauthMachine Unit).SoloMeets (CachedAt Unit r) () p (List.replicate n r.choice) s := by
  refine Machine.soloMeets_replicate (fun δ o s => ?_) n p s
  cases o <;> first | rfl | trivial

/-- Where it does not fit, the call panics. -/
theorem caches_panicked (hbody : accessTokenOf body = some accessToken)
    (hlimit : ¬ r.instant + secs (expiresInOf body) < Instant.limit) :
    Caches m body backendId r untouched .panicked { untouched with instant := r.instant } := by
  refine ⟨List.replicate 1 r.choice, soloMeets_cachedAt _ _, ?_⟩
  simp [Manager.cacheTokenResponse, hbody, Instant.checkedAdd, hlimit, oauthMachine,
    OAuthWorld.exec, OAuthWorld.tick, untouched, Machine.solo, Reading.choice]

/-- A response can be stored. -/
theorem caches_stored (backendId : String) (hstore : m.hasStore = true)
    (hbody : accessTokenOf body = some accessToken)
    (hlimit : r.instant + secs (expiresInOf body) < Instant.limit) :
    ∃ x t token, Caches m body backendId r untouched x t ∧
      t.store (tokenKey backendId) = some token ∧
      token.expiresAtUnix = addU64 r.unix (expiresInOf body) := by
  have hrun : (oauthMachine Unit).solo () (m.cacheTokenResponse body backendId)
      (List.replicate 4 r.choice) untouched = some (.done (.ok accessToken), { untouched with
        instant := r.instant
        cache := some ⟨accessToken, refreshTokenOf body, m.config.clientId,
          r.instant + secs (expiresInOf body)⟩
        store := Function.update untouched.store (tokenKey backendId)
          (some ⟨accessToken, refreshTokenOf body, m.config.clientId,
            addU64 r.unix (expiresInOf body)⟩) }) := by
    simp [Manager.cacheTokenResponse, hbody, Instant.checkedAdd, hlimit, hstore, saveToken,
      Manager.responseEntry, oauthMachine, OAuthWorld.exec, OAuthWorld.tick, untouched,
      Machine.solo, Reading.choice]
  exact ⟨_, _, _, ⟨_, soloMeets_cachedAt 4 _, hrun⟩, Function.update_self .., rfl⟩

/-! ## The two together -/

/-- **Which lifetimes are safe.** A token response is cached, stored and later installed without
an overflow, with a second of expiry that is not before now, if and only if its lifetime fits.
There are three sums to be safe: the instant at which the cached token expires, the second that is
stored, and the instant that is made of it again. The condition asks of the lifetime that each of
them fits its type. -/
theorem lifetime_is_safe_iff (hbody : accessTokenOf body = some accessToken) :
    TimeSafe m body backendId r later ↔ LifetimeFits m (expiresInOf body) r later := by
  constructor
  · intro hsafe
    have hinstant : r.instant + secs (expiresInOf body) < Instant.limit :=
      Classical.byContradiction fun hlimit =>
        hsafe.cached _ _ _ (caches_panicked hbody hlimit) rfl
    have hunix (hstore : m.hasStore = true) : r.unix + expiresInOf body < 2 ^ 64 := by
      obtain ⟨x, t, token, hrun, htoken, hexpiry⟩ := caches_stored backendId hstore hbody hinstant
      obtain ⟨hsum, -⟩ := hsafe.stored _ _ _ hrun rfl token htoken
      rw [hexpiry, addU64] at hsum
      omega
    refine ⟨hinstant, hunix, fun hstore => ?_⟩
    obtain ⟨x, t, token, hrun, htoken, -⟩ := caches_stored backendId hstore hbody hinstant
    obtain ⟨hsum, -⟩ := hsafe.stored _ _ _ hrun rfl token htoken
    have hinstalls := installs_safely_iff.mp (hsafe.installed _ _ _ hrun rfl token htoken)
    rwa [hsum] at hinstalls
  · rintro ⟨hinstant, hunix, hremaining⟩
    -- what is stored, and whether anything is
    have hstored {s t : OAuthWorld Unit} {x : Outcome (BackendResult String)}
        (hrun : Caches m body backendId r s x t) (hempty : s.store (tokenKey backendId) = none)
        {token : PersistedToken} (htoken : t.store (tokenKey backendId) = some token) :
        m.hasStore = true ∧ token.expiresAtUnix = r.unix + expiresInOf body := by
      obtain ⟨es, hrule, hsolo⟩ := hrun
      obtain ⟨-, hsame | ⟨hstore, token', htoken', hexpiry⟩⟩ :=
        Machine.wp_under_solo (wp_caches hbody hinstant) hrule hsolo
      · rw [hsame, hempty] at htoken
        cases htoken
      · rw [htoken'] at htoken
        cases htoken
        refine ⟨hstore, ?_⟩
        rw [hexpiry, addU64, Nat.mod_eq_of_lt (hunix hstore)]
    refine ⟨?_, ?_, ?_⟩
    · rintro s x t ⟨es, hrule, hsolo⟩
      exact (Machine.wp_under_solo (wp_caches hbody hinstant) hrule hsolo).1
    · intro s x t hrun hempty token htoken
      obtain ⟨-, hexpiry⟩ := hstored hrun hempty htoken
      exact ⟨hexpiry, hexpiry ▸ Nat.le_add_right _ _⟩
    · intro s x t hrun hempty token htoken
      obtain ⟨hstore, hexpiry⟩ := hstored hrun hempty htoken
      refine installs_safely_iff.mpr ?_
      rw [hexpiry]
      exact hremaining hstore

end Runs

/-! ### An hour, and for ever -/

/-- A token response with this lifetime. -/
def tokenFor (life : Nat) : Value :=
  .object [("access_token", .string "a"), ("expires_in", .number (.int life))]

theorem accessTokenOf_tokenFor (life : Nat) : accessTokenOf (tokenFor life) = some "a" := rfl

/-- An hour fits, also where the token is installed in another process on the next day. -/
theorem an_hour_is_safe :
    TimeSafe interactive (tokenFor 3600) "api" ⟨secs 60, 1000⟩ ⟨secs 5, 86400⟩ :=
  (lifetime_is_safe_iff (accessTokenOf_tokenFor 3600)).mpr
    ⟨by decide, fun _ => by decide, fun _ => by decide⟩

/-- The largest number that a response can carry makes the call that caches it panic. -/
theorem largest_lifetime_panics :
    Caches interactive (tokenFor (2 ^ 64 - 1)) "api" ⟨secs 60, 1000⟩ untouched .panicked
        { untouched with instant := secs 60 } ∧
      ¬ TimeSafe interactive (tokenFor (2 ^ 64 - 1)) "api" ⟨secs 60, 1000⟩ ⟨secs 5, 86400⟩ := by
  have hpanics : Caches interactive (tokenFor (2 ^ 64 - 1)) "api" ⟨secs 60, 1000⟩ untouched
      .panicked { untouched with instant := secs 60 } :=
    caches_panicked (accessTokenOf_tokenFor _) (by decide)
  exact ⟨hpanics, fun h => h.cached _ _ _ hpanics rfl⟩

end HeadlessMcp
