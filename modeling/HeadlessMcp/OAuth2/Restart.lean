import HeadlessMcp.Async.Solo
import HeadlessMcp.OAuth2.World

/-!
# A restart

A token response is cached with an instant of expiry and stored with a second of expiry, and a
manager that starts anew makes an instant of the second again. Across the restart nothing is lost
(`restart_equivalence`): the new manager holds what the old one held, until the same second.
-/

namespace HeadlessMcp

open Async

/-! ## The clocks -/

/-- The seconds of the wall clock, by the monotonic clock of one process. -/
structure WallClock : Type where
  /-- the Unix second at an instant -/
  second : Instant → Nat
  later : ∀ now n, second (now + secs n) = second now + n

/-- A wall clock that started with the monotonic one. So the seconds of one are the seconds of the
other. -/
def WallClock.sinceBoot : WallClock where
  second now := now / secs 1
  later now n := by
    rw [secs, Nat.mul_comm, secs, Nat.mul_one, Nat.add_mul_div_right _ _ (by decide)]

/-- Both clocks are read at one second, and the store works. -/
def AtSecond (ι : Type) (clock : WallClock) (second : Nat) :
    Rule OAuthOp ι OAuthChoice (OAuthWorld ι) :=
  fun _ _ o e _ => match o with
    | .unixNow => e.unix = second
    | .instantNow | .readCache | .updateCache _ => clock.second e.instant = second
    | .loadToken _ | .storeToken _ _ => e.flag = true
    | _ => True

/-- A token with so much life does not overflow a clock at that second: neither the instants, nor
the seconds. -/
structure LifeFits (clock : WallClock) (second life : Nat) : Prop where
  instant : ∀ now, clock.second now = second → now + secs life < Instant.limit
  unix : second + life < 2 ^ 64
  margin : second + 30 < 2 ^ 64

/-- A shorter life fits too. -/
theorem LifeFits.mono {clock : WallClock} {second life life' : Nat}
    (h : LifeFits clock second life) (hle : life' ≤ life) : LifeFits clock second life' where
  instant now hnow := by
    have hfits := h.instant now hnow
    have hsecs : secs life' ≤ secs life := Nat.mul_le_mul_left _ hle
    exact Nat.lt_of_le_of_lt (Nat.add_le_add_left hsecs now) hfits
  unix := Nat.lt_of_le_of_lt (Nat.add_le_add_left hle _) h.unix
  margin := h.margin

variable {ι : Type} {i : ι} {m : Manager} {clock : WallClock} {second : Nat} {body : Value}
  {backendId : String} {s : OAuthWorld ι}

/-! ## Before -/

/-- The cache and the store hold the same token, until a second. -/
structure WrittenThrough (clock : WallClock) (m : Manager) (backendId : String) (expiry : Nat)
    (cached : TokenCache) (s : OAuthWorld ι) : Prop where
  cache : s.cache = some cached
  store : s.store (tokenKey backendId) =
    some ⟨cached.accessToken, cached.refreshToken, cached.clientId, expiry⟩
  expiry : clock.second cached.expiresAt = expiry
  /-- what is configured is not taken from elsewhere -/
  configured : (m.config.clientId <|> cached.clientId) = cached.clientId

/-- A response is written through. What is cached and what is stored come from one answer, and
differ in how they count its life. -/
theorem wp_cacheTokenResponse {accessToken : String} (hstore : m.hasStore = true)
    (hbody : accessTokenOf body = some accessToken)
    (hfits : LifeFits clock second (expiresInOf body)) :
    ((oauthMachine ι).under (AtSecond ι clock second)).wp i (m.cacheTokenResponse body backendId)
      (fun x t => x = .done (.ok accessToken) ∧ ∃ cached, cached.accessToken = accessToken ∧
        WrittenThrough clock m backendId (second + expiresInOf body) cached t) s := by
  rw [Manager.cacheTokenResponse, hbody]
  simp only [Prog.bind_eq, Prog.perform_bind]
  refine Machine.wp_under_op fun e now t hrule hexec => ?_
  obtain ⟨-, rfl, rfl⟩ := exec_instantNow hexec
  have hnow : e.instant + secs (expiresInOf body) < Instant.limit := hfits.instant _ hrule
  rw [Instant.checkedAdd, if_pos hnow]
  refine Machine.wp_under_op fun e' entry t hrule' hexec => ?_
  obtain ⟨-, rfl, rfl⟩ := exec_updateCache hexec
  rw [Manager.responseEntry]
  simp only [hstore, if_true, saveToken, Prog.bind_eq, Prog.perform_bind]
  refine Machine.wp_under_op fun e'' unix t hunix hexec => ?_
  obtain ⟨rfl, rfl⟩ := Prod.mk.inj (Option.some.inj hexec)
  refine Machine.wp_under_op fun e₃ _ t hflag hexec => ?_
  obtain ⟨-, rfl⟩ := Prod.mk.inj (Option.some.inj hexec)
  refine ⟨rfl, _, rfl, rfl, ?_, ?_, ?_⟩
  · have hflag : e₃.flag = true := hflag
    have hunix : e''.unix = second := hunix
    have hsum : addU64 e''.unix (expiresInOf body) = second + expiresInOf body := by
      rw [addU64, hunix, Nat.mod_eq_of_lt hfits.unix]
    simp only [hflag, if_true, Function.update_self, hsum]
  · have hinstant : clock.second e.instant = second := hrule
    rw [clock.later, hinstant]
  · cases m.config.clientId <;> rfl

/-! ## After -/

/-- What a manager holds that has been started at a second. -/
structure Restarted (clock : WallClock) (second expiry : Nat) (cached : TokenCache)
    (x : Option String) (t : OAuthWorld ι) : Prop where
  empty_iff : t.cache = none ↔ expiry ≤ second + 30 ∧ cached.refreshToken = none
  same : ∀ c, t.cache = some c → c.accessToken = cached.accessToken ∧
    c.refreshToken = cached.refreshToken ∧ c.clientId = cached.clientId ∧
    clock.second c.expiresAt = max second expiry
  result : x = if second + 30 < expiry then some cached.accessToken else none

/-- A manager that starts with an empty cache adopts what is stored. -/
theorem wp_adoptPersisted {expiry : Nat} {cached : TokenCache} (hstore : m.hasStore = true)
    (hcache : s.cache = none) (hsaved : s.store (tokenKey backendId) =
      some ⟨cached.accessToken, cached.refreshToken, cached.clientId, expiry⟩)
    (hconfigured : (m.config.clientId <|> cached.clientId) = cached.clientId)
    (hfits : LifeFits clock second (expiry - second)) :
    ((oauthMachine ι).under (AtSecond ι clock second)).wp i (m.adoptPersisted backendId)
      (fun x t => ∃ token, x = .done token ∧ Restarted clock second expiry cached token t) s := by
  have hmargin : addU64 second 30 = second + 30 := Nat.mod_eq_of_lt hfits.margin
  simp only [Manager.adoptPersisted, hstore, Bool.not_true, Bool.false_eq_true, if_false,
    Prog.withLock]
  refine Machine.wp_under_op fun e _ t _ hlock => ?_
  obtain ⟨hcache', hsaved'⟩ : t.cache = none ∧ t.store = s.store := by
    simp only [oauthMachine, OAuthWorld.exec] at hlock
    split at hlock
    · obtain ⟨-, rfl⟩ := Prod.mk.inj (Option.some.inj hlock)
      exact ⟨hcache, rfl⟩
    · cases hlock
  rw [Machine.wp_andFinally]
  simp only [Prog.bind_eq, Prog.perform_bind]
  refine Machine.wp_under_op fun e₁ b t₁ hrule hexec => ?_
  obtain ⟨-, rfl, rfl⟩ := exec_readCache hexec
  rw [hcache']
  refine Machine.wp_under_op fun e₂ b t₂ hflag hexec => ?_
  obtain ⟨rfl, rfl⟩ := Prod.mk.inj (Option.some.inj hexec)
  have hflag : e₂.flag = true := hflag
  simp only [hflag, if_true, hsaved', hsaved]
  refine Machine.wp_under_op fun e₃ unix t₃ hunix hexec => ?_
  obtain ⟨rfl, rfl⟩ := Prod.mk.inj (Option.some.inj hexec)
  have hunix : e₃.unix = second := hunix
  -- the guard is dropped on every way out, which leaves the cache
  have hunlocked {x : Option String} {t : OAuthWorld ι}
      (h : Restarted clock second expiry cached x t) :
      ∀ e b u, ((oauthMachine ι).under (AtSecond ι clock second)).exec i Unit .unlockRefresh e t =
        some (b, u) → ∃ token, Outcome.done x = .done token ∧
          Restarted clock second expiry cached token u := by
    intro e b u hexec
    obtain ⟨-, rfl⟩ := Prod.mk.inj (Option.some.inj (Machine.under_exec.mp hexec).2)
    exact ⟨x, rfl, h.empty_iff, h.same, h.result⟩
  simp only [PersistedToken.isValid, hunix, hmargin]
  by_cases hgone : expiry ≤ second + 30 ∧ cached.refreshToken = none
  · have hvalid : decide (second + 30 < expiry) = false := decide_eq_false (by omega)
    rw [if_pos ⟨hvalid, hgone.2⟩]
    refine hunlocked ⟨?_, ?_, ?_⟩
    · exact iff_of_true rfl hgone
    · exact fun _ h => by cases h
    · rw [if_neg (by omega)]
  · have hkept : ¬ (decide (second + 30 < expiry) = false ∧ cached.refreshToken = none) := by
      rw [decide_eq_false_iff_not, Nat.not_lt]
      exact hgone
    rw [if_neg hkept]
    simp only [Manager.installPersisted, Prog.bind_eq, Prog.perform_bind, Prog.op_bind]
    refine Machine.wp_under_op fun e₄ unix t₄ hunix' hexec => ?_
    obtain ⟨rfl, rfl⟩ := Prod.mk.inj (Option.some.inj hexec)
    have hunix' : e₄.unix = second := hunix'
    refine Machine.wp_under_op fun e₅ entry t₅ hrule' hexec => ?_
    obtain ⟨-, rfl, rfl⟩ := exec_updateCache hexec
    have hinstant : clock.second e₅.instant = second := hrule'
    have hnow : e₅.instant + secs (expiry - e₄.unix) < Instant.limit := by
      rw [hunix']
      exact hfits.instant _ hinstant
    simp only [Manager.persistedEntry, Instant.checkedAdd, if_pos hnow, Option.map_some]
    refine Machine.wp_under_op fun e₆ unix t₆ hunix₂ hexec => ?_
    obtain ⟨rfl, rfl⟩ := Prod.mk.inj (Option.some.inj hexec)
    have hunix₂ : e₆.unix = second := hunix₂
    refine hunlocked ⟨iff_of_false (fun h => by cases h) hgone, ?_, ?_⟩
    · intro c hc
      obtain rfl := Option.some.inj hc
      refine ⟨rfl, rfl, ?_, ?_⟩
      · have hlast : (cached.clientId <|> Option.bind none TokenCache.clientId) =
            cached.clientId := by
          cases cached.clientId <;> rfl
        rw [hlast]
        exact hconfigured
      · rw [hunix', clock.later, hinstant]
        omega
    · by_cases hvalid : second + 30 < expiry <;>
        simp [hunix₂, hmargin, hvalid]

/-! ## Across the restart -/

/-- **A restart loses nothing**: a manager that has written a response through at one second, and
one with the same configuration that is started on the same store at a second not before it. The
new one's cache is empty exactly when at most 30 seconds are left and there is no refresh token, else
it holds the same tokens and client id until the same second, or until now when that has passed;
and it returns the access token exactly when more than 30 seconds are left. -/
theorem restart_equivalence {clock' : WallClock} {second' : Nat} {accessToken : String} {j : ι}
    {es es' : List OAuthChoice} {x : Outcome (BackendResult String)} {y : Outcome (Option String)}
    {s₁ s₂ s₃ : OAuthWorld ι} (hstore : m.hasStore = true)
    (hbody : accessTokenOf body = some accessToken)
    (hfits : LifeFits clock second (expiresInOf body))
    (hfits' : LifeFits clock' second' (expiresInOf body)) (hle : second ≤ second')
    (hrule : (oauthMachine ι).SoloMeets (AtSecond ι clock second) i
      (m.cacheTokenResponse body backendId) es s)
    (hrun : (oauthMachine ι).solo i (m.cacheTokenResponse body backendId) es s = some (x, s₁))
    (hfresh : s₂.cache = none)
    (hsame : s₂.store (tokenKey backendId) = s₁.store (tokenKey backendId))
    (hrule' : (oauthMachine ι).SoloMeets (AtSecond ι clock' second') j
      (m.adoptPersisted backendId) es' s₂)
    (hrun' : (oauthMachine ι).solo j (m.adoptPersisted backendId) es' s₂ = some (y, s₃)) :
    x = .done (.ok accessToken) ∧ ∃ cached token, s₁.cache = some cached ∧
      cached.accessToken = accessToken ∧ y = .done token ∧
      Restarted clock' second' (clock.second cached.expiresAt) cached token s₃ := by
  obtain ⟨hdone, cached, haccess, hwritten⟩ :=
    Machine.wp_under_solo (wp_cacheTokenResponse hstore hbody hfits) hrule hrun
  have hlife : second + expiresInOf body - second' ≤ expiresInOf body := by omega
  obtain ⟨token, hadopted, hrestarted⟩ := Machine.wp_under_solo
    (wp_adoptPersisted hstore hfresh (hsame.trans hwritten.store) hwritten.configured
      (hfits'.mono hlife)) hrule' hrun'
  rw [← hwritten.expiry] at hrestarted
  exact ⟨hdone, cached, token, hwritten.cache, haccess, hadopted, hrestarted⟩

/-- A world without tokens. -/
def emptyOAuth : OAuthWorld Unit := ⟨none, none, none, 0, fun _ => none, [], []⟩

/-- The first token, as it is cached. -/
def firstToken : TokenCache := ⟨"a", some "r", some "client", secs 3600⟩

/-- As it is stored. -/
def firstStored : OAuthWorld Unit :=
  { emptyOAuth with
    cache := some firstToken
    store := Function.update emptyOAuth.store (tokenKey "b")
      (some ⟨"a", some "r", some "client", 3600⟩) }

/-- What a new manager finds. -/
def newlyStarted : OAuthWorld Unit := { firstStored with cache := none }

/-- What the environment chooses at a second. -/
def choiceAt (second : Nat) : OAuthChoice := { instant := secs second, unix := second }

theorem second_choiceAt (second : Nat) :
    WallClock.sinceBoot.second (choiceAt second).instant = second := by
  have hsecond : WallClock.sinceBoot.second (choiceAt second).instant = secs second / secs 1 := rfl
  rw [hsecond, secs, secs, Nat.mul_one]
  exact Nat.mul_div_cancel_left _ (by decide)

/-- With such choices every program runs at that second. -/
theorem soloMeets_choiceAt {α : Type} (second n : Nat) (p : Prog OAuthOp α) (s : OAuthWorld Unit) :
    (oauthMachine Unit).SoloMeets (AtSecond Unit .sinceBoot second) () p
      (List.replicate n (choiceAt second)) s := by
  refine Machine.soloMeets_replicate (fun δ o s => ?_) n p s
  have hsecond := second_choiceAt second
  cases o <;> first | exact hsecond | rfl | trivial

theorem lifeFits_sinceBoot {second : Nat} (h : second < 60) :
    LifeFits .sinceBoot second 3600 := by
  have hinstant (now : Nat) (hnow : now / (10 ^ 9 * 1) = second) :
      now + 10 ^ 9 * 3600 < 10 ^ 9 * 2 ^ 63 := by
    omega
  exact ⟨hinstant, by omega, by omega⟩

/-- A restart at the next second. -/
theorem restart_next_second :
    ∃ s₃ token, (oauthMachine Unit).solo () (interactive.cacheTokenResponse
        (rotatedToken "a" "r") "b") (List.replicate 4 (choiceAt 0)) emptyOAuth =
          some (.done (.ok "a"), firstStored) ∧
      (oauthMachine Unit).solo () (interactive.adoptPersisted "b") (List.replicate 8 (choiceAt 1))
        newlyStarted = some (.done token, s₃) ∧
      Restarted .sinceBoot 1 (WallClock.sinceBoot.second firstToken.expiresAt) firstToken token
        s₃ := by
  have hrun : (oauthMachine Unit).solo () (interactive.cacheTokenResponse
      (rotatedToken "a" "r") "b") (List.replicate 4 (choiceAt 0)) emptyOAuth =
        some (.done (.ok "a"), firstStored) := rfl
  have hadopted : (oauthMachine Unit).solo () (interactive.adoptPersisted "b")
      (List.replicate 8 (choiceAt 1)) newlyStarted = some (.done (some "a"), { firstStored with
        cache := some { firstToken with expiresAt := 3600000000000 }, instant := secs 1 }) := rfl
  have hfresh : newlyStarted.cache = none := rfl
  obtain ⟨-, cached, token, hcache, -, htoken, hrestarted⟩ := restart_equivalence rfl rfl
    (lifeFits_sinceBoot (by omega)) (lifeFits_sinceBoot (by omega)) (Nat.zero_le 1)
    (soloMeets_choiceAt 0 4 _ _) hrun hfresh rfl (soloMeets_choiceAt 1 8 _ _) hadopted
  obtain rfl := Option.some.inj hcache
  exact ⟨_, token, hrun, hadopted.trans (by rw [htoken]), hrestarted⟩

end HeadlessMcp
