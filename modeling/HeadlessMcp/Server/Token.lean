import HeadlessMcp.Core.Search
import HeadlessMcp.Server.Config

/-!
# The bearer token

`load_config` resolves the placeholders of `hub_token`, and `run_http` refuses a token that
still has the marker of an unset variable. It does not look for placeholders that were left:
the resolver gives up at one without closing braces, and after sixteen replacements. A token
from `HEADLESS_MCP_TOKEN` is not resolved at all. `LeavesPlaceholder` is when such a token is
accepted.
-/

namespace HeadlessMcp

/-! ## Resolving -/

/-- A text, as its characters. -/
abbrev Text : Type := List Char

/-- What a process is given: its variables, and the case mapping of `str::to_uppercase`. -/
structure Environment : Type where
  var : String → Option String
  toUppercase : String → String

/-- `ENV_PREFIX`. -/
def envPrefix : Text := "\x7b\x7benv:".toList

/-- `SECRET_PREFIX`. -/
def secretPrefix : Text := "\x7b\x7bsecret:".toList

/-- What ends a placeholder. -/
def closing : Text := "\x7d\x7d".toList

/-- What an unset variable is replaced by starts with this. -/
def unresolvedPrefix : Text := "\x7b\x7bunresolved:".toList

/-- `MAX_RESOLVE_PASSES`. -/
def maxResolvePasses : Nat := 16

namespace Environment

variable (env : Environment)

/-- The value of a variable, or the marker for an unset one. The marker names the variable, so
that it can be read in an error message. -/
def valueOf (key : String) (name : Text) : Text :=
  match env.var key with
  | some value => value.toList
  | none => unresolvedPrefix ++ name ++ closing

/-- What an env placeholder stands for. -/
def variableValue (name : Text) : Text := env.valueOf (String.ofList name) name

/-- What a secret placeholder stands for. -/
def secretValue (name : Text) : Text :=
  env.valueOf ("HEADLESS_MCP_SECRET_" ++ env.toUppercase (String.ofList name)) name

end Environment

/-- Replace a placeholder that starts between `before` and `after`. Its opening has no braces
that close it, so they can be looked for in `after`. -/
def replacePlaceholder (value : Text → Text) (before after : Text) : Option Text :=
  (after.dropInfix? closing).map fun (name, rest) => before ++ value name ++ rest

/-- One pass of `resolve_value`, or `none` where it leaves its loop: a secret is only looked for
where there is no env placeholder, closed or not. -/
def resolvePass (env : Environment) (text : Text) : Option Text :=
  match text.dropInfix? envPrefix with
  | some (before, after) => replacePlaceholder env.variableValue before after
  | none =>
    match text.dropInfix? secretPrefix with
    | some (before, after) => replacePlaceholder env.secretValue before after
    | none => none

/-- The loop of `resolve_value`. It stops where no placeholder can be replaced, and after the last
pass whatever is left. -/
def resolveFrom (env : Environment) : Nat → Text → Text
  | 0, text => text
  | passes + 1, text =>
    match resolvePass env text with
    | some text' => resolveFrom env passes text'
    | none => text

/-- `resolve_value`. -/
def resolveValue (env : Environment) (raw : String) : String :=
  String.ofList (resolveFrom env maxResolvePasses raw.toList)

/-! ## Serving -/

/-- `RawAuthConfig`. -/
structure RawAuthConfig : Type where
  hubToken : Option String
  rateLimit : Nat := 120

/-- `AuthConfig`. -/
structure AuthConfig : Type where
  hubToken : Option String
  rateLimit : Nat

/-- What `load_config` does with the `auth` table. -/
def RawAuthConfig.load (env : Environment) (auth : RawAuthConfig) : AuthConfig :=
  ⟨auth.hubToken.map (resolveValue env), auth.rateLimit⟩

/-- `HttpTransportConfig`. -/
structure HttpTransportConfig : Type where
  bearerToken : String
  rateLimitPerMinute : Nat

/-- `DEFAULT_RATE_LIMIT`. -/
def defaultRateLimit : Nat := 120

/-- The configuration of every listener: a token that the config does not have is taken from the
environment. -/
def httpConfig (env : Environment) (auth : Option AuthConfig) : HttpTransportConfig :=
  ⟨(auth.bind (·.hubToken)).getD ((env.var "HEADLESS_MCP_TOKEN").getD ""),
    (auth.map (·.rateLimit)).getD defaultRateLimit⟩

/-- The listeners that `serve --http` starts: one for each expose block, or a single one. -/
def httpListeners (env : Environment) (auth : Option RawAuthConfig) (expose : List ExposeBlock) :
    List HttpTransportConfig :=
  let config := httpConfig env (auth.map (·.load env))
  if expose = [] then [config] else expose.map fun _ => config

/-- The checks of `run_http`. They are made once, before the listener is bound. -/
def runHttp (config : HttpTransportConfig) : Except String Unit :=
  if config.bearerToken = "" then
    .error ("refusing to start: no bearer token configured " ++
      "(set [auth] hub_token or HEADLESS_MCP_TOKEN)")
  else if unresolvedPrefix <:+: config.bearerToken.toList then
    .error ("refusing to start: bearer token still contains an unresolved placeholder (" ++
      config.bearerToken ++ "); the referenced variable is not set")
  else .ok ()

/-- `tokens_match`. -/
def tokensMatch (provided expected : String) : Bool := provided == expected

/-- A listener of `serve --http` gets past the checks, and the token is the one that it
accepts. -/
def AcceptsToken (env : Environment) (auth : Option RawAuthConfig) (expose : List ExposeBlock)
    (token : String) : Prop :=
  ∃ config ∈ httpListeners env auth expose, runHttp config = .ok () ∧
    tokensMatch token config.bearerToken = true

/-! ## Placeholders -/

/-- A placeholder is opened in the text. It counts whether it is closed or not. -/
def Opened (text : Text) : Prop := envPrefix <:+: text ∨ secretPrefix <:+: text

/-- An unset variable is marked in the text. -/
def Marked (text : Text) : Prop := unresolvedPrefix <:+: text

/-- Nothing is left of a placeholder. This is what the check of `run_http` is there for. -/
def CleanToken (text : Text) : Prop := ¬ Opened text ∧ ¬ Marked text

/-- The placeholder that is replaced next has no closing braces. -/
def Unclosed (text : Text) : Prop :=
  (∃ before after, Search.FirstAt envPrefix text before after ∧ ¬ closing <:+: after) ∨
    (¬ envPrefix <:+: text ∧
      ∃ before after, Search.FirstAt secretPrefix text before after ∧ ¬ closing <:+: after)

/-- **One replacement**: of the first env placeholder by the value of its variable, or, where
there is none, of the first secret by its value. -/
inductive Expansion (env : Environment) (text : Text) : Text → Prop where
  | variable {before after name rest : Text} (hopen : Search.FirstAt envPrefix text before after)
      (hclose : Search.FirstAt closing after name rest) :
      Expansion env text (before ++ env.variableValue name ++ rest)
  | secret {before after name rest : Text} (hnone : ¬ envPrefix <:+: text)
      (hopen : Search.FirstAt secretPrefix text before after)
      (hclose : Search.FirstAt closing after name rest) :
      Expansion env text (before ++ env.secretValue name ++ rest)

/-- A number of replacements, one after another. The value of one may open another, so these need
not be placeholders of the text at the start. -/
inductive Expands (env : Environment) : Nat → Text → Text → Prop where
  | refl {text : Text} : Expands env 0 text text
  | step {n : Nat} {text text' text'' : Text} (hfirst : Expansion env text text')
      (hrest : Expands env n text' text'') : Expands env (n + 1) text text''

theorem replacePlaceholder_eq_some_iff {value : Text → Text} {before after text : Text} :
    replacePlaceholder value before after = some text ↔
      ∃ name rest, Search.FirstAt closing after name rest ∧ text = before ++ value name ++ rest := by
  simp only [replacePlaceholder, Option.map_eq_some_iff, Prod.exists,
    Search.dropInfix?_eq_some_iff]
  constructor
  · rintro ⟨name, rest, hclose, rfl⟩
    exact ⟨name, rest, hclose, rfl⟩
  · rintro ⟨name, rest, hclose, rfl⟩
    exact ⟨name, rest, hclose, rfl⟩

theorem replacePlaceholder_eq_none_iff {value : Text → Text} {before after : Text} :
    replacePlaceholder value before after = none ↔ ¬ closing <:+: after := by
  rw [replacePlaceholder, Option.map_eq_none_iff, Search.dropInfix?_eq_none_iff]

/-- A pass makes a replacement. -/
theorem resolvePass_eq_some_iff {env : Environment} {text text' : Text} :
    resolvePass env text = some text' ↔ Expansion env text text' := by
  constructor
  · intro h
    unfold resolvePass at h
    split at h
    · rename_i hopen
      obtain ⟨name, rest, hclose, rfl⟩ := replacePlaceholder_eq_some_iff.mp h
      exact .variable (Search.dropInfix?_eq_some_iff.mp hopen) hclose
    · rename_i hnone
      split at h
      · rename_i hopen
        obtain ⟨name, rest, hclose, rfl⟩ := replacePlaceholder_eq_some_iff.mp h
        exact .secret (Search.dropInfix?_eq_none_iff.mp hnone)
          (Search.dropInfix?_eq_some_iff.mp hopen) hclose
      · cases h
  · rintro (⟨hopen, hclose⟩ | ⟨hnone, hopen, hclose⟩)
    · rw [resolvePass, Search.dropInfix?_eq_some_iff.mpr hopen]
      exact replacePlaceholder_eq_some_iff.mpr ⟨_, _, hclose, rfl⟩
    · rw [resolvePass, Search.dropInfix?_eq_none_iff.mpr hnone,
        Search.dropInfix?_eq_some_iff.mpr hopen]
      exact replacePlaceholder_eq_some_iff.mpr ⟨_, _, hclose, rfl⟩

/-- The loop is left where no placeholder is opened, or the next one has no closing braces. -/
theorem resolvePass_eq_none_iff {env : Environment} {text : Text} :
    resolvePass env text = none ↔ ¬ Opened text ∨ Unclosed text := by
  constructor
  · intro h
    unfold resolvePass at h
    split at h
    · rename_i hopen
      exact .inr (.inl ⟨_, _, Search.dropInfix?_eq_some_iff.mp hopen,
        replacePlaceholder_eq_none_iff.mp h⟩)
    · rename_i hvariable
      rw [Search.dropInfix?_eq_none_iff] at hvariable
      split at h
      · rename_i hopen
        exact .inr (.inr ⟨hvariable, _, _, Search.dropInfix?_eq_some_iff.mp hopen,
          replacePlaceholder_eq_none_iff.mp h⟩)
      · rename_i hsecret
        rw [Search.dropInfix?_eq_none_iff] at hsecret
        exact .inl (not_or.mpr ⟨hvariable, hsecret⟩)
  · rintro (hopened | ⟨_, _, hopen, hclose⟩ | ⟨hnone, _, _, hopen, hclose⟩)
    · obtain ⟨hvariable, hsecret⟩ := not_or.mp hopened
      rw [resolvePass, Search.dropInfix?_eq_none_iff.mpr hvariable,
        Search.dropInfix?_eq_none_iff.mpr hsecret]
    · rw [resolvePass, Search.dropInfix?_eq_some_iff.mpr hopen]
      exact replacePlaceholder_eq_none_iff.mpr hclose
    · rw [resolvePass, Search.dropInfix?_eq_none_iff.mpr hnone,
        Search.dropInfix?_eq_some_iff.mpr hopen]
      exact replacePlaceholder_eq_none_iff.mpr hclose

/-- **The loop makes replacements while it can.** It ends after some number of them, at a text
where it is left or after the last pass. -/
theorem resolveFrom_eq_iff {env : Environment} {passes : Nat} {text text' : Text} :
    resolveFrom env passes text = text' ↔
      ∃ n ≤ passes, Expands env n text text' ∧
        (n = passes ∨ ¬ Opened text' ∨ Unclosed text') := by
  induction passes generalizing text with
  | zero =>
    rw [resolveFrom]
    constructor
    · rintro rfl
      exact ⟨0, le_rfl, .refl, .inl rfl⟩
    · rintro ⟨n, hn, hexpands, -⟩
      obtain rfl := Nat.le_zero.mp hn
      cases hexpands
      rfl
  | succ passes ih =>
    rw [resolveFrom]
    rcases hpass : resolvePass env text with _ | next
    · constructor
      · rintro rfl
        exact ⟨0, Nat.zero_le _, .refl, .inr (resolvePass_eq_none_iff.mp hpass)⟩
      · rintro ⟨n, -, hexpands, -⟩
        cases hexpands with
        | refl => rfl
        | step hfirst _ =>
          rw [resolvePass_eq_some_iff.mpr hfirst] at hpass
          cases hpass
    · dsimp only
      rw [ih]
      constructor
      · rintro ⟨n, hn, hexpands, hend⟩
        exact ⟨n + 1, Nat.succ_le_succ hn, .step (resolvePass_eq_some_iff.mp hpass) hexpands,
          hend.imp_left (congrArg (· + 1))⟩
      · rintro ⟨n, hn, hexpands, hend⟩
        cases hexpands with
        | refl =>
          -- nothing was replaced, but something could have been
          rcases hend with hend | hend
          · cases hend
          · rw [resolvePass_eq_none_iff.mpr hend] at hpass
            cases hpass
        | step hfirst hrest =>
          rw [resolvePass_eq_some_iff.mpr hfirst] at hpass
          obtain rfl := Option.some.inj hpass
          exact ⟨_, Nat.le_of_succ_le_succ hn, hrest, hend.imp_left Nat.succ.inj⟩

/-! ## Accepted tokens -/

/-- Where the token comes from: the config, to be resolved, or the environment as it is; and
how many replacements are made. -/
def tokenSource (env : Environment) (auth : Option RawAuthConfig) : Text × Nat :=
  match auth.bind (·.hubToken) with
  | some raw => (raw.toList, maxResolvePasses)
  | none => (((env.var "HEADLESS_MCP_TOKEN").getD "").toList, 0)

/-- The placeholders of the token lead to one without closing braces, or to one after the last
replacement, and no unset variable is marked in the text by then. -/
def LeavesPlaceholder (env : Environment) (auth : Option RawAuthConfig) : Prop :=
  ∃ n ≤ (tokenSource env auth).2, ∃ text, Expands env n (tokenSource env auth).1 text ∧
    Opened text ∧ ¬ Marked text ∧ (Unclosed text ∨ n = (tokenSource env auth).2)

/-- The token of every listener. -/
theorem bearerToken_httpConfig (env : Environment) (auth : Option RawAuthConfig) :
    (httpConfig env (auth.map (·.load env))).bearerToken.toList =
      resolveFrom env (tokenSource env auth).2 (tokenSource env auth).1 := by
  rcases auth with _ | ⟨_ | raw, rateLimit⟩
  · rfl
  · rfl
  · exact String.toList_ofList

/-- What a listener accepts. -/
theorem acceptsToken_iff {env : Environment} {auth : Option RawAuthConfig}
    {expose : List ExposeBlock} {token : String} :
    AcceptsToken env auth expose token ↔
      token = (httpConfig env (auth.map (·.load env))).bearerToken ∧ token ≠ "" ∧
        ¬ Marked token.toList := by
  have hlisteners (config : HttpTransportConfig) :
      config ∈ httpListeners env auth expose ↔
        config = httpConfig env (auth.map (·.load env)) := by
    rw [httpListeners]
    split
    · exact List.mem_singleton
    · rename_i hexpose
      rw [List.map_const', List.mem_replicate]
      exact and_iff_right (fun h => hexpose (List.length_eq_zero_iff.mp h))
  have hruns (config : HttpTransportConfig) : runHttp config = .ok () ↔
      config.bearerToken ≠ "" ∧ ¬ Marked config.bearerToken.toList := by
    rw [runHttp]
    split
    · rename_i hempty
      exact ⟨nofun, fun h => absurd hempty h.1⟩
    · rename_i hsome
      split
      · rename_i hmarked
        exact ⟨nofun, fun h => absurd hmarked h.2⟩
      · rename_i hunmarked
        exact ⟨fun _ => ⟨hsome, hunmarked⟩, fun _ => rfl⟩
  constructor
  · rintro ⟨config, hconfig, hrun, hmatch⟩
    obtain rfl := (hlisteners config).mp hconfig
    obtain rfl := eq_of_beq hmatch
    exact ⟨rfl, (hruns _).mp hrun⟩
  · rintro ⟨rfl, h⟩
    exact ⟨_, (hlisteners _).mpr rfl, (hruns _).mpr h, BEq.rfl⟩

/-- **An accepted token is free of placeholders exactly when none is left over.** It is about
every configuration and every environment, and about each listener that `serve` starts: the token
that a listener compares with has neither a placeholder nor the marker of an unset variable in it.
The condition follows the replacements, and what they leave over is one that has no closing
braces, or one after the last of them. -/
theorem accepted_token_is_clean_iff (env : Environment) (auth : Option RawAuthConfig)
    (expose : List ExposeBlock) :
    (∀ token, AcceptsToken env auth expose token → CleanToken token.toList) ↔
      ¬ LeavesPlaceholder env auth := by
  have htoken := bearerToken_httpConfig env auth
  constructor
  · rintro hclean ⟨n, hn, text, hexpands, hopened, hunmarked, hend⟩
    have hresolved : resolveFrom env (tokenSource env auth).2 (tokenSource env auth).1 = text :=
      resolveFrom_eq_iff.mpr ⟨n, hn, hexpands, hend.elim (fun h => .inr (.inr h)) .inl⟩
    rw [hresolved] at htoken
    refine (hclean _ (acceptsToken_iff.mpr ⟨rfl, fun hempty => ?_, htoken ▸ hunmarked⟩)).1
      (htoken ▸ hopened)
    -- nothing is opened in an empty token
    rw [hempty] at htoken
    subst htoken
    rcases hopened with h | h
    · exact absurd (List.infix_nil.mp h) (by decide)
    · exact absurd (List.infix_nil.mp h) (by decide)
  · rintro hnone token haccepts
    obtain ⟨rfl, -, hunmarked⟩ := acceptsToken_iff.mp haccepts
    rw [htoken] at hunmarked ⊢
    refine ⟨fun hopened => hnone ?_, hunmarked⟩
    obtain ⟨n, hn, hexpands, hend⟩ := resolveFrom_eq_iff.mp
      (rfl : resolveFrom env (tokenSource env auth).2 (tokenSource env auth).1 = _)
    refine ⟨n, hn, _, hexpands, hopened, hunmarked, ?_⟩
    rcases hend with hend | hend | hend
    · exact .inr hend
    · exact absurd hopened hend
    · exact .inl hend

/-- An environment with one variable. -/
def oneVariable (name value : String) : Environment where
  var key := if key = name then some value else none
  toUppercase := String.toUpper

/-- A placeholder without closing braces, and one whose value is the placeholder itself, become
the token that is accepted. -/
theorem placeholder_is_accepted :
    (AcceptsToken (oneVariable "HUB" "sekrit") (some ⟨some "\x7b\x7benv:HUB\x7d", 120⟩) []
        "\x7b\x7benv:HUB\x7d" ∧ ¬ CleanToken "\x7b\x7benv:HUB\x7d".toList) ∧
      AcceptsToken (oneVariable "HUB" "\x7b\x7benv:HUB\x7d\x7d")
        (some ⟨some "\x7b\x7benv:HUB\x7d\x7d", 120⟩) [] "\x7b\x7benv:HUB\x7d\x7d" ∧
      ¬ CleanToken "\x7b\x7benv:HUB\x7d\x7d".toList := by
  simp only [acceptsToken_iff, CleanToken, Opened, Marked]
  decide +kernel

end HeadlessMcp
