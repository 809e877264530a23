import HeadlessMcp.Server.Template

/-!
# The refusal

`run_http` puts the token it refuses into its error message. The token has been resolved by
then: an unset variable has left its marker, and a set one its value. So the message tells the
values of two environments apart exactly where a set variable stands next to an unset one.

The variables are compared by being set or unset, since that is what decides about the refusal;
only their values differ between the two environments.
-/

namespace HeadlessMcp

open Search

/-- Two environments that set the same variables. What the variables are set to may differ. -/
structure Environment.SameVariables (env env' : Environment) : Prop where
  upper : env'.toUppercase = env.toUppercase
  set : ∀ key, (env'.var key).isSome = (env.var key).isSome

/-- The variable behind a placeholder. -/
def Placeholder.key (env : Environment) : Placeholder → Text → String
  | .env, name => String.ofList name
  | .secret, name => "HEADLESS_MCP_SECRET_" ++ env.toUppercase (String.ofList name)

theorem Environment.SameVariables.key {env env' : Environment} (h : env.SameVariables env')
    (kind : Placeholder) (name : Text) : kind.key env' name = kind.key env name := by
  cases kind with
  | env => rfl
  | secret =>
    exact congrArg (fun upper => "HEADLESS_MCP_SECRET_" ++ upper (String.ofList name)) h.upper

theorem Placeholder.value_eq (env : Environment) (kind : Placeholder) (name : Text) :
    kind.value env name = env.valueOf (kind.key env name) name := by
  cases kind <;> rfl

/-- The configuration of a listener with a token from the config. -/
def hubConfig (env : Environment) (raw : String) (rateLimit : Nat) : HttpTransportConfig :=
  httpConfig env (some (RawAuthConfig.load env ⟨some raw, rateLimit⟩))

/-- `run_http` refuses such a listener for an unresolved placeholder. The listener is not started,
and the message is all that a user sees. -/
structure Refused (env : Environment) (raw : String) (rateLimit : Nat) (message : String) :
    Prop where
  marked : Marked (hubConfig env raw rateLimit).bearerToken.toList
  error : runHttp (hubConfig env raw rateLimit) = .error message

/-- The refusal of a token does not depend on the values of the variables. -/
def SameRefusal (env : Environment) (raw : String) : Prop :=
  ∀ rateLimit env₁ env₂ message₁ message₂, env.SameVariables env₁ → env.SameVariables env₂ →
    env₁.BraceFree → env₂.BraceFree → Refused env₁ raw rateLimit message₁ →
    Refused env₂ raw rateLimit message₂ → message₁ = message₂

/-- The message shows the token. -/
theorem refused_iff {env : Environment} {raw message : String} {rateLimit : Nat} :
    Refused env raw rateLimit message ↔ Marked (resolveValue env raw).toList ∧
      message = "refusing to start: bearer token still contains an unresolved placeholder (" ++
        resolveValue env raw ++ "); the referenced variable is not set" := by
  have htoken : (hubConfig env raw rateLimit).bearerToken = resolveValue env raw := rfl
  have herror (hmarked : Marked (resolveValue env raw).toList) :
      runHttp (hubConfig env raw rateLimit) =
        .error ("refusing to start: bearer token still contains an unresolved placeholder (" ++
          resolveValue env raw ++ "); the referenced variable is not set") := by
    have hne : (hubConfig env raw rateLimit).bearerToken ≠ "" := fun hempty => by
      rw [← htoken, hempty] at hmarked
      exact absurd (List.infix_nil.mp hmarked) (by decide)
    rw [runHttp, if_neg hne, htoken]
    exact if_pos hmarked
  constructor
  · rintro ⟨hmarked, hmessage⟩
    rw [htoken] at hmarked
    exact ⟨hmarked, (Except.error.inj ((herror hmarked).symm.trans hmessage)).symm⟩
  · rintro ⟨hmarked, rfl⟩
    exact ⟨hmarked, herror hmarked⟩

/-- So the refusals are the same where the tokens are. -/
theorem sameRefusal_iff {env : Environment} {raw : String} : SameRefusal env raw ↔
    ∀ env₁ env₂, env.SameVariables env₁ → env.SameVariables env₂ → env₁.BraceFree →
      env₂.BraceFree → Marked (resolveValue env₁ raw).toList →
      Marked (resolveValue env₂ raw).toList → resolveValue env₁ raw = resolveValue env₂ raw := by
  constructor
  · intro h env₁ env₂ hset₁ hset₂ hbrace₁ hbrace₂ hmarked₁ hmarked₂
    have hmessage := h 0 env₁ env₂ _ _ hset₁ hset₂ hbrace₁ hbrace₂
      (refused_iff.mpr ⟨hmarked₁, rfl⟩) (refused_iff.mpr ⟨hmarked₂, rfl⟩)
    exact (String.append_right_inj _).mp ((String.append_left_inj _).mp hmessage)
  · intro h rateLimit env₁ env₂ message₁ message₂ hset₁ hset₂ hbrace₁ hbrace₂ hrefused₁ hrefused₂
    obtain ⟨hmarked₁, rfl⟩ := refused_iff.mp hrefused₁
    obtain ⟨hmarked₂, rfl⟩ := refused_iff.mp hrefused₂
    rw [h env₁ env₂ hset₁ hset₂ hbrace₁ hbrace₂ hmarked₁ hmarked₂]

/-! ## Any token -/

/-- The placeholder that is replaced next: what is in front of it, its kind and name, and what
is behind it. -/
def nextPlaceholder (text : Text) : Option (Text × Placeholder × Text × Text) :=
  match text.dropInfix? envPrefix with
  | some (before, after) =>
    (after.dropInfix? closing).map fun (name, rest) => (before, .env, name, rest)
  | none =>
    match text.dropInfix? secretPrefix with
    | some (before, after) =>
      (after.dropInfix? closing).map fun (name, rest) => (before, .secret, name, rest)
    | none => none

/-- A pass looks at the variables only for the value of one of them. -/
theorem resolvePass_eq (env : Environment) (text : Text) :
    resolvePass env text = (nextPlaceholder text).map fun (before, kind, name, rest) =>
      before ++ kind.value env name ++ rest := by
  unfold resolvePass nextPlaceholder replacePlaceholder
  rcases text.dropInfix? envPrefix with _ | ⟨before, after⟩
  · rcases text.dropInfix? secretPrefix with _ | ⟨before, after⟩
    · rfl
    · dsimp only
      cases after.dropInfix? closing <;> rfl
  · dsimp only
    cases after.dropInfix? closing <;> rfl

/-- A number of passes use the value of a variable that is set. This is about one environment and
about the text that the passes have made of it so far. -/
def UsesValue (env : Environment) : Nat → Text → Prop
  | 0, _ => False
  | passes + 1, text =>
    match nextPlaceholder text with
    | some (before, kind, name, rest) => (env.var (kind.key env name)).isSome ∨
        UsesValue env passes (before ++ kind.value env name ++ rest)
    | none => False

/-- Where no value is used, the values do not matter. -/
theorem resolveFrom_same {env env' : Environment} (hsame : env.SameVariables env') {passes : Nat}
    {text : Text} (h : ¬ UsesValue env passes text) :
    resolveFrom env' passes text = resolveFrom env passes text := by
  induction passes generalizing text with
  | zero => rfl
  | succ passes ih =>
    rw [resolveFrom, resolveFrom, resolvePass_eq, resolvePass_eq]
    rw [UsesValue] at h
    cases hnext : nextPlaceholder text with
    | none => rfl
    | some next =>
      obtain ⟨before, kind, name, rest⟩ := next
      rw [hnext] at h
      obtain ⟨hunset, hrest⟩ := not_or.mp h
      have hkey := hsame.key kind name
      have hnone : env.var (kind.key env name) = none := by simpa using hunset
      have hnone' : env'.var (kind.key env name) = none := by
        simpa [hnone] using hsame.set (kind.key env name)
      have hvalue : kind.value env' name = kind.value env name := by
        rw [kind.value_eq, kind.value_eq, hkey, Environment.valueOf, Environment.valueOf, hnone,
          hnone']
      simp only [Option.map_some, hvalue]
      exact ih hrest

/-- Whatever the values are, a token that is refused has used none of them. -/
def ValuesUnused (env : Environment) (raw : String) : Prop :=
  ∀ env', env.SameVariables env' → env'.BraceFree → Marked (resolveValue env' raw).toList →
    ¬ UsesValue env' maxResolvePasses raw.toList

theorem Environment.SameVariables.between {env env₁ env₂ : Environment}
    (h₁ : env.SameVariables env₁) (h₂ : env.SameVariables env₂) : env₁.SameVariables env₂ :=
  ⟨h₂.upper.trans h₁.upper.symm, fun key => (h₂.set key).trans (h₁.set key).symm⟩

/-- Such a token has the same refusal in all environments. -/
theorem ValuesUnused.sameRefusal {env : Environment} {raw : String} (h : ValuesUnused env raw) :
    SameRefusal env raw := by
  rw [sameRefusal_iff]
  intro env₁ env₂ hset₁ hset₂ hbrace₁ _ hmarked₁ _
  exact congrArg String.ofList
    (resolveFrom_same (hset₁.between hset₂) (h env₁ hset₁ hbrace₁ hmarked₁)).symm

/-! ## Templates -/

/-- The placeholder is one of a variable that is set. -/
def Piece.IsSet (env : Environment) (p : Piece) : Prop :=
  ∃ kind, p.kind = some kind ∧ (env.var (kind.key env p.text)).isSome

/-- The placeholders of a template that are replaced: all of them, or as many as there are
passes, the env placeholders first. -/
def Template.replaced (t : Template) : List Piece :=
  ((Progress.run maxResolvePasses (.start t)).filter Prod.fst).map Prod.snd

theorem Template.mem_replaced {t : Template} {p : Piece} :
    p ∈ t.replaced ↔ (true, p) ∈ Progress.run maxResolvePasses (.start t) := by
  simp [Template.replaced]

/-- Only placeholders are replaced. -/
theorem Progress.isSome_of_mem_run {passes : Nat} {s : Progress} {p : Piece}
    (h : (true, p) ∈ run passes s) (hs : (true, p) ∉ s) : p.kind.isSome := by
  induction passes generalizing s with
  | zero => exact absurd h hs
  | succ passes ih =>
    rw [run] at h
    split at h
    · rename_i s' hadvance
      by_cases hs' : (true, p) ∈ s'
      · obtain ⟨front, q, back, rfl, rfl, hkind⟩ := advance_eq_some hadvance
        simp only [List.mem_append, List.mem_cons, not_or] at hs hs'
        rcases hs' with h' | h' | h'
        · exact absurd h' hs.1
        · obtain rfl : p = q := (Prod.mk.inj h').2
          exact hkind
        · exact absurd h' hs.2.2
      · exact ih h hs'
    · exact absurd h hs

theorem Template.isSome_of_mem_replaced {t : Template} {p : Piece} (h : p ∈ t.replaced) :
    p.kind.isSome :=
  Progress.isSome_of_mem_run (mem_replaced.mp h) (by simp [Progress.start])

section Markers

variable {env : Environment}

/-- The marker of an unset variable. -/
theorem resolved_of_not_isSet {p : Piece} (hkind : p.kind.isSome) (hunset : ¬ p.IsSet env) :
    p.resolved env = unresolvedPrefix ++ p.text ++ closing := by
  obtain ⟨kind, hkind⟩ := Option.isSome_iff_exists.mp hkind
  have hnone : env.var (kind.key env p.text) = none := by
    rw [← Option.not_isSome_iff_eq_none]
    exact fun hset => hunset ⟨kind, hkind, hset⟩
  simp only [Piece.resolved, hkind, Placeholder.value_eq, Environment.valueOf, hnone]

theorem Piece.isSet_same {env' : Environment} (h : env.SameVariables env') (p : Piece) :
    p.IsSet env' ↔ p.IsSet env := by
  refine exists_congr fun kind => and_congr_right fun _ => ?_
  rw [h.key, h.set]

/-- A piece has no marker, unless it is a placeholder of an unset variable that was replaced. -/
theorem inert_unresolved (henv : env.BraceFree) {e : Bool × Piece}
    (h : e.1 = true → e.2.kind.isSome → e.2.IsSet env) :
    Inert unresolvedPrefix (Progress.shown env e) := by
  obtain ⟨replaced, p⟩ := e
  cases hkind : p.kind with
  | none =>
    have htext : Progress.shown env (replaced, p) = p.text := by
      cases replaced <;> simp [Progress.shown, Piece.source, Piece.resolved, hkind]
    rw [htext]
    exact inert_braceFree p.braceFree
  | some kind =>
    cases replaced with
    | true =>
      obtain ⟨kind', hkind', hset⟩ := h rfl (Option.isSome_of_eq_some hkind)
      dsimp only at hkind' hset
      obtain ⟨value, hvalue⟩ := Option.isSome_iff_exists.mp hset
      have htext : Progress.shown env (true, p) = value.toList := by
        simp [Progress.shown, Piece.resolved, hkind', Placeholder.value_eq, Environment.valueOf,
          hvalue]
      rw [htext]
      exact inert_braceFree (henv _ value hvalue)
    | false =>
      have htext : Progress.shown env (false, p) = kind.opening ++ p.text ++ closing := by
        simp [Progress.shown, Piece.source, hkind]
      rw [htext]
      cases kind <;> exact inert_braces (by decide) (by decide) (by decide) p.braceFree

end Markers

/-- The variables of all placeholders that are replaced are set. -/
def Template.AllSet (env : Environment) (t : Template) : Prop := ∀ p ∈ t.replaced, p.IsSet env

/-- The variable of no placeholder that is replaced is set. -/
def Template.NoneSet (env : Environment) (t : Template) : Prop := ∀ p ∈ t.replaced, ¬ p.IsSet env

section Both

variable {env env' : Environment} {t : Template}

/-- Without an unset variable there is nothing to refuse. -/
theorem not_marked_of_allSet (henv : env.BraceFree) (h : t.AllSet env) :
    ¬ Marked (resolveValue env (String.ofList t.source)).toList := by
  rw [resolveValue_source henv, String.toList_ofList]
  have hinert : Inert unresolvedPrefix
      ((Progress.run maxResolvePasses (.start t)).render env) := by
    refine inert_flatMap fun e he => inert_unresolved henv fun hreplaced _ => ?_
    obtain ⟨replaced, p⟩ := e
    obtain rfl : replaced = true := hreplaced
    exact h p (Template.mem_replaced.mpr he)
  exact hinert.not_contained

/-- An unset variable is marked. -/
theorem marked_of_unset (henv : env.BraceFree) {p : Piece} (hp : p ∈ t.replaced)
    (hunset : ¬ p.IsSet env) : Marked (resolveValue env (String.ofList t.source)).toList := by
  rw [resolveValue_source henv, String.toList_ofList]
  obtain ⟨front, back, hsplit⟩ := List.append_of_mem (Template.mem_replaced.mp hp)
  have hmarker := resolved_of_not_isSet (Template.isSome_of_mem_replaced hp) hunset
  rw [Progress.render, hsplit, List.flatMap_append, List.flatMap_cons, Progress.shown, if_pos rfl,
    hmarker]
  refine ⟨front.flatMap (Progress.shown env),
    p.text ++ closing ++ back.flatMap (Progress.shown env), ?_⟩
  simp

/-- Without a set variable the values do not matter. -/
theorem resolveValue_same (henv : env.BraceFree) (henv' : env'.BraceFree)
    (hsame : env.SameVariables env') (h : t.NoneSet env) :
    resolveValue env (String.ofList t.source) = resolveValue env' (String.ofList t.source) := by
  rw [resolveValue_source henv, resolveValue_source henv']
  refine congrArg String.ofList (List.flatMap_congr fun e he => ?_)
  obtain ⟨replaced, p⟩ := e
  cases replaced with
  | false => rfl
  | true =>
    have hp := Template.mem_replaced.mpr he
    have hunset := h p hp
    have hkind := Template.isSome_of_mem_replaced hp
    have hunset' : ¬ p.IsSet env' := mt (Piece.isSet_same hsame p).mp hunset
    exact (resolved_of_not_isSet hkind hunset).trans (resolved_of_not_isSet hkind hunset').symm

end Both

/-! ## Two environments -/

/-- The same variables, all with one value. -/
def Environment.fill (env : Environment) (value : String) : Environment :=
  { env with var := fun key => (env.var key).map fun _ => value }

theorem Environment.sameVariables_fill (env : Environment) (value : String) :
    env.SameVariables (env.fill value) :=
  ⟨rfl, fun key => by simp [Environment.fill]⟩

theorem Environment.braceFree_fill (env : Environment) {value : String}
    (h : HeadlessMcp.BraceFree value.toList) : (env.fill value).BraceFree := by
  intro key value' hvalue
  obtain ⟨_, -, rfl⟩ := Option.map_eq_some_iff.mp hvalue
  exact h

section Fill

variable {env : Environment}

/-- A placeholder of a set variable is as long as the value. -/
theorem resolved_fill {p : Piece} (h : p.IsSet env) (value : String) :
    p.resolved (env.fill value) = value.toList := by
  obtain ⟨kind, hkind, hset⟩ := h
  obtain ⟨value', hvalue⟩ := Option.isSome_iff_exists.mp hset
  have hkey := (env.sameVariables_fill value).key kind p.text
  have hfill : (env.fill value).var (kind.key env p.text) = some value := by
    simp [Environment.fill, hvalue]
  simp only [Piece.resolved, hkind, Placeholder.value_eq, hkey, Environment.valueOf, hfill]

/-- Nothing else has to do with it. -/
theorem shown_fill (value value' : String) {e : Bool × Piece} (h : e.1 = true → ¬ e.2.IsSet env) :
    Progress.shown (env.fill value) e = Progress.shown (env.fill value') e := by
  obtain ⟨replaced, p⟩ := e
  cases replaced with
  | false => rfl
  | true =>
    have hunset (value : String) : ¬ p.IsSet (env.fill value) :=
      mt (Piece.isSet_same (env.sameVariables_fill value) p).mp (h rfl)
    have hmarker (value : String) (hkind : p.kind.isSome) :=
      resolved_of_not_isSet hkind (hunset value)
    simp only [Progress.shown, if_true]
    cases hkind : p.kind with
    | none => simp only [Piece.resolved, hkind]
    | some kind =>
      have hkind : p.kind.isSome := Option.isSome_of_eq_some hkind
      rw [hmarker value hkind, hmarker value' hkind]

/-- A longer value makes nothing shorter. -/
theorem length_shown_fill (e : Bool × Piece) :
    (Progress.shown (env.fill "") e).length ≤ (Progress.shown (env.fill "x") e).length := by
  by_cases h : e.1 = true ∧ e.2.IsSet env
  · obtain ⟨hreplaced, hset⟩ := h
    rw [Progress.shown, if_pos hreplaced, resolved_fill hset]
    exact Nat.zero_le _
  · have h : e.1 = true → ¬ e.2.IsSet env := fun hreplaced hset => h ⟨hreplaced, hset⟩
    exact (congrArg List.length (shown_fill "" "x" h)).le

/-- It makes the text longer where a set variable is replaced. -/
theorem length_render_fill {s : Progress} {p : Piece} (hp : (true, p) ∈ s) (hset : p.IsSet env) :
    (Progress.render (env.fill "") s).length < (Progress.render (env.fill "x") s).length := by
  have hle (s : Progress) :
      (Progress.render (env.fill "") s).length ≤ (Progress.render (env.fill "x") s).length := by
    induction s with
    | nil => exact Nat.le_refl 0
    | cons e s ih =>
      have he := @length_shown_fill env e
      simp only [Progress.render, List.flatMap_cons, List.length_append] at ih ⊢
      omega
  obtain ⟨front, back, rfl⟩ := List.append_of_mem hp
  have hfront := hle front
  have hback := hle back
  have hempty : Progress.shown (env.fill "") (true, p) = [] := resolved_fill hset ""
  have hx : Progress.shown (env.fill "x") (true, p) = ['x'] := resolved_fill hset "x"
  simp only [Progress.render, List.flatMap_append, List.flatMap_cons, List.length_append, hempty,
    hx, List.length_nil, List.length_singleton] at hfront hback ⊢
  omega

end Fill

/-! ## When nothing is revealed -/

section Template

variable {env : Environment} {t : Template}

/-- A template whose variables are all set or all unset has one refusal. -/
theorem sameRefusal_of_uniform (h : t.AllSet env ∨ t.NoneSet env) :
    SameRefusal env (String.ofList t.source) := by
  rw [sameRefusal_iff]
  intro env₁ env₂ hset₁ hset₂ hbrace₁ hbrace₂ hmarked₁ _
  rcases h with hall | hnone
  · have hall₁ : t.AllSet env₁ := fun p hp => (Piece.isSet_same hset₁ p).mpr (hall p hp)
    exact absurd hmarked₁ (not_marked_of_allSet hbrace₁ hall₁)
  · have hnone₁ : t.NoneSet env₁ := fun p hp => mt (Piece.isSet_same hset₁ p).mp (hnone p hp)
    exact resolveValue_same hbrace₁ hbrace₂ (hset₁.between hset₂) hnone₁

/-- A set variable next to an unset one is revealed. -/
theorem not_sameRefusal_of_mixed {p q : Piece} (hp : p ∈ t.replaced) (hset : p.IsSet env)
    (hq : q ∈ t.replaced) (hunset : ¬ q.IsSet env) :
    ¬ SameRefusal env (String.ofList t.source) := by
  intro hsame
  rw [sameRefusal_iff] at hsame
  have hvars := env.sameVariables_fill
  have hempty : (env.fill "").BraceFree := env.braceFree_fill (by decide)
  have hx : (env.fill "x").BraceFree := env.braceFree_fill (by decide)
  have hstill (value : String) : ¬ q.IsSet (env.fill value) :=
    mt (Piece.isSet_same (hvars value) q).mp hunset
  have htoken := hsame _ _ (hvars "") (hvars "x") hempty hx
    (marked_of_unset hempty hq (hstill "")) (marked_of_unset hx hq (hstill "x"))
  rw [resolveValue_source hempty, resolveValue_source hx] at htoken
  have hlength := length_render_fill (Template.mem_replaced.mp hp) hset
  rw [String.ofList_injective htoken] at hlength
  exact Nat.lt_irrefl _ hlength

/-- The refusal of a template is the same exactly when it replaces only placeholders of set
variables, or only placeholders of unset ones. -/
theorem sameRefusal_source_iff :
    SameRefusal env (String.ofList t.source) ↔ t.AllSet env ∨ t.NoneSet env := by
  refine ⟨fun hsame => ?_, sameRefusal_of_uniform⟩
  by_contra hmixed
  rw [not_or] at hmixed
  simp only [Template.AllSet, Template.NoneSet, not_forall, not_not] at hmixed
  obtain ⟨⟨q, hq, hunset⟩, p, hp, hset⟩ := hmixed
  exact not_sameRefusal_of_mixed hp hset hq hunset hsame

end Template

/-- **The refusal reveals nothing about a template exactly when the variables it replaces are all
set or all unset**, and nothing about any other token either, where all values that lead to a
refusal go unused. The two environments that are compared differ in the values of the variables
that are set, so what is revealed is something about a value. -/
theorem refusal_reveals_nothing_iff (env : Environment) :
    (∀ t : Template, SameRefusal env (String.ofList t.source) ↔ t.AllSet env ∨ t.NoneSet env) ∧
      ∀ raw, ValuesUnused env raw → SameRefusal env raw :=
  ⟨fun _ => sameRefusal_source_iff, fun _ => ValuesUnused.sameRefusal⟩

/-- The value of a set variable next to an unset one. -/
theorem unset_neighbour_reveals :
    ¬ SameRefusal (oneVariable "A" "x") "\x7b\x7benv:A\x7d\x7d\x7b\x7benv:B\x7d\x7d" := by
  intro hsame
  have hset (value : String) : (oneVariable "A" "x").SameVariables (oneVariable "A" value) :=
    ⟨rfl, fun key => by simp only [oneVariable]; split <;> rfl⟩
  have htoken := sameRefusal_iff.mp hsame _ _ (hset "x") (hset "y")
    (braceFree_oneVariable (by decide)) (braceFree_oneVariable (by decide))
    (by unfold Marked; decide +kernel) (by unfold Marked; decide +kernel)
  revert htoken
  decide +kernel

end HeadlessMcp
