import HeadlessMcp.Server.Token

/-!
# Templates

A value of the configuration is text with placeholders in it. `resolve_value` replaces one of
them after another, env placeholders first, and looks at all of the text each time. On text
without stray braces it never sees anything but the placeholders that were there: a pass marks
one of them as replaced and nothing else changes. So the result is the text with every
placeholder replaced in place, as long as there are no more of them than passes.
-/

namespace HeadlessMcp

open Search

/-- A text without braces. -/
def BraceFree (text : Text) : Prop := text.all (fun c => c ≠ '\x7b' && c ≠ '\x7d') = true

instance (text : Text) : Decidable (BraceFree text) := inferInstanceAs (Decidable (_ = true))

theorem BraceFree.ne {text : Text} (h : BraceFree text) {c : Char} (hc : c ∈ text) :
    c ≠ '\x7b' ∧ c ≠ '\x7d' := by
  simpa using List.all_eq_true.mp h c hc

/-- An environment whose values have no braces. Braces in a value could complete or begin a
placeholder. -/
def Environment.BraceFree (env : Environment) : Prop :=
  ∀ key value, env.var key = some value → HeadlessMcp.BraceFree value.toList

/-- The two kinds of placeholders. -/
inductive Placeholder : Type where
  | env
  | secret
  deriving DecidableEq

namespace Placeholder

/-- What a placeholder begins with. -/
def opening : Placeholder → Text
  | env => envPrefix
  | secret => secretPrefix

/-- What a placeholder with a name stands for. -/
def value (environment : Environment) : Placeholder → Text → Text
  | env => environment.variableValue
  | secret => environment.secretValue

end Placeholder

/-- A piece of a template: text, or a placeholder with its name. -/
structure Piece : Type where
  kind : Option Placeholder
  text : Text
  braceFree : BraceFree text

/-- Text with placeholders. This is the structure that a user has in mind who writes such a value.
-/
abbrev Template : Type := List Piece

namespace Piece

/-- The piece as it is written. -/
def source (p : Piece) : Text :=
  match p.kind with
  | none => p.text
  | some kind => kind.opening ++ p.text ++ closing

/-- What it stands for. -/
def resolved (env : Environment) (p : Piece) : Text :=
  match p.kind with
  | none => p.text
  | some kind => kind.value env p.text

end Piece

namespace Template

/-- The template as it is written. -/
def source (t : Template) : Text := t.flatMap Piece.source

/-- The template with every placeholder replaced, in place. -/
def resolved (env : Environment) (t : Template) : Text := t.flatMap (Piece.resolved env)

/-- How many placeholders there are. -/
def placeholders (t : Template) : Nat := t.countP fun p => p.kind.isSome

end Template

/-! ## Replacing one after another -/

/-- The pieces, and which of them have been replaced. The text itself is not kept: it can be put
together again at every moment. -/
abbrev Progress : Type := List (Bool × Piece)

namespace Progress

/-- A piece as it stands in the text. -/
def shown (env : Environment) (e : Bool × Piece) : Text :=
  if e.1 then e.2.resolved env else e.2.source

/-- The text. -/
def render (env : Environment) (s : Progress) : Text := s.flatMap (shown env)

/-- Nothing is replaced. -/
def start (t : Template) : Progress := t.map (false, ·)

/-- A placeholder of a kind that has not been replaced. -/
def isPending (kind : Placeholder) (e : Bool × Piece) : Bool := !e.1 && e.2.kind = some kind

/-- Replace the first pending placeholder of a kind. There is none left where it yields none. -/
def replaceFirst (kind : Placeholder) : Progress → Option Progress
  | [] => none
  | e :: s =>
    if isPending kind e then some ((true, e.2) :: s) else (replaceFirst kind s).map (e :: ·)

/-- One pass: an env placeholder, or a secret where there is none. -/
def advance (s : Progress) : Option Progress :=
  match replaceFirst .env s with
  | some s' => some s'
  | none => replaceFirst .secret s

/-- A number of passes. -/
def run : Nat → Progress → Progress
  | 0, s => s
  | passes + 1, s =>
    match advance s with
    | some s' => run passes s'
    | none => s

/-- How many placeholders have not been replaced. Each pass makes one less of them, as long as
there are any. -/
def remaining (s : Progress) : Nat := s.countP fun e => !e.1 && e.2.kind.isSome

variable {kind : Placeholder} {s s' : Progress}

/-- What is replaced is the first pending placeholder. -/
theorem replaceFirst_eq_some (h : replaceFirst kind s = some s') :
    ∃ front p back, s = front ++ (false, p) :: back ∧ s' = front ++ (true, p) :: back ∧
      p.kind = some kind ∧ ∀ e ∈ front, isPending kind e = false := by
  induction s generalizing s' with
  | nil => cases h
  | cons e s ih =>
    rw [replaceFirst] at h
    split at h
    · rename_i hpending
      obtain ⟨replaced, p⟩ := e
      simp only [isPending, Bool.and_eq_true, Bool.not_eq_true', decide_eq_true_eq] at hpending
      obtain ⟨rfl, hkind⟩ := hpending
      exact ⟨[], p, s, rfl, (Option.some.inj h).symm, hkind, List.forall_mem_nil _⟩
    · rename_i hpending
      obtain ⟨rest, hrest, rfl⟩ := Option.map_eq_some_iff.mp h
      obtain ⟨front, p, back, rfl, rfl, hkind, hfront⟩ := ih hrest
      refine ⟨e :: front, p, back, rfl, rfl, hkind, fun e' he' => ?_⟩
      rcases List.mem_cons.mp he' with rfl | he'
      · exact Bool.eq_false_iff.mpr hpending
      · exact hfront e' he'

theorem replaceFirst_eq_none :
    replaceFirst kind s = none ↔ ∀ e ∈ s, isPending kind e = false := by
  induction s with
  | nil => simp [replaceFirst]
  | cons e s ih =>
    rw [replaceFirst, List.forall_mem_cons]
    by_cases hpending : isPending kind e = true
    · simp [hpending]
    · simp [hpending, ih]

/-- A pass replaces one placeholder. -/
theorem advance_eq_some (h : advance s = some s') :
    ∃ front p back, s = front ++ (false, p) :: back ∧ s' = front ++ (true, p) :: back ∧
      p.kind.isSome := by
  unfold advance at h
  split at h
  · rename_i hfirst
    obtain ⟨front, p, back, hs, hs', hkind, -⟩ := replaceFirst_eq_some hfirst
    obtain rfl := Option.some.inj h
    exact ⟨front, p, back, hs, hs', Option.isSome_of_eq_some hkind⟩
  · obtain ⟨front, p, back, hs, hs', hkind, -⟩ := replaceFirst_eq_some h
    exact ⟨front, p, back, hs, hs', Option.isSome_of_eq_some hkind⟩

/-- Passes end when no placeholder is left. -/
theorem advance_eq_none : advance s = none ↔ remaining s = 0 := by
  have hadvance : advance s = none ↔
      replaceFirst .env s = none ∧ replaceFirst .secret s = none := by
    unfold advance
    split
    · rename_i hfirst
      simp [hfirst]
    · rename_i hfirst
      simp [hfirst]
  rw [hadvance, replaceFirst_eq_none, replaceFirst_eq_none, remaining, List.countP_eq_zero]
  constructor
  · rintro ⟨henv, hsecret⟩ ⟨replaced, p⟩ he hpending
    have henv := henv _ he
    have hsecret := hsecret _ he
    simp only [Bool.and_eq_true, Bool.not_eq_true'] at hpending
    obtain ⟨rfl, hkind⟩ := hpending
    obtain ⟨kind, hkind⟩ := Option.isSome_iff_exists.mp hkind
    cases kind <;> simp [isPending, hkind] at henv hsecret
  · intro h
    refine ⟨fun e he => ?_, fun e he => ?_⟩
    all_goals
      have hnot := h e he
      by_contra hpending
      simp only [isPending, Bool.not_eq_false, Bool.and_eq_true, decide_eq_true_eq] at hpending
      exact hnot (by simp [hpending])

theorem remaining_advance (h : advance s = some s') : remaining s = remaining s' + 1 := by
  obtain ⟨front, p, back, rfl, rfl, hkind⟩ := advance_eq_some h
  simp [remaining, List.countP_append, hkind]
  omega

theorem pieces_advance (h : advance s = some s') : s'.map Prod.snd = s.map Prod.snd := by
  obtain ⟨front, p, back, rfl, rfl, -⟩ := advance_eq_some h
  simp

/-- Every pass takes one placeholder, while there are some. -/
theorem remaining_run (passes : Nat) (s : Progress) :
    remaining (run passes s) = remaining s - passes := by
  induction passes generalizing s with
  | zero => rfl
  | succ passes ih =>
    rw [run]
    split
    · rename_i hadvance
      rw [ih, remaining_advance hadvance]
      omega
    · rename_i hadvance
      rw [advance_eq_none.mp hadvance, Nat.zero_sub]

/-- The pieces stay what they are. -/
theorem pieces_run (passes : Nat) (s : Progress) :
    (run passes s).map Prod.snd = s.map Prod.snd := by
  induction passes generalizing s with
  | zero => rfl
  | succ passes ih =>
    rw [run]
    split
    · rename_i hadvance
      rw [ih, pieces_advance hadvance]
    · rfl

theorem remaining_start (t : Template) : remaining (start t) = t.placeholders := by
  simp [remaining, start, Template.placeholders, List.countP_map, Function.comp_def]

theorem pieces_start (t : Template) : (start t).map Prod.snd = t := by
  simp [start, Function.comp_def]

theorem render_start (env : Environment) (t : Template) : render env (start t) = t.source := by
  simp [render, start, Template.source, shown, List.flatMap_map]

/-- Where no placeholder is left, the text is what the pieces stand for. -/
theorem render_of_remaining {env : Environment} (h : remaining s = 0) :
    render env s = Template.resolved env (s.map Prod.snd) := by
  rw [remaining, List.countP_eq_zero] at h
  rw [render, Template.resolved, List.flatMap_map]
  refine List.flatMap_congr fun e he => ?_
  obtain ⟨replaced, p⟩ := e
  have hnot := h _ he
  cases replaced with
  | true => rfl
  | false =>
    have hkind : p.kind = none := by simpa using hnot
    simp [shown, Piece.source, Piece.resolved, hkind]

end Progress

/-! ## Braces -/

section Braces

variable {env : Environment}

theorem open_not_mem {text : Text} (h : BraceFree text) : '\x7b' ∉ text :=
  fun hmem => (h.ne hmem).1 rfl

/-- Nothing opens in a text without braces. -/
theorem inert_braceFree {pat text : Text} (h : BraceFree text) : Inert ('\x7b' :: pat) text :=
  inert_of_not_mem (open_not_mem h)

/-- Two braces with a word and a name behind them open nothing else than that word. -/
theorem inert_braces {p : Char} {pat word name : Text} (hword : '\x7b' ∉ word)
    (hp : p ∉ word.head?) (hne : word ≠ []) (hname : BraceFree name) :
    Inert ('\x7b' :: '\x7b' :: p :: pat) ('\x7b' :: '\x7b' :: (word ++ name ++ closing)) := by
  obtain ⟨c, word, rfl⟩ := List.exists_cons_of_ne_nil hne
  have hrest : '\x7b' ∉ (c :: word) ++ name ++ closing := by
    rw [List.mem_append, List.mem_append, not_or, not_or]
    exact ⟨⟨hword, open_not_mem hname⟩, by decide⟩
  refine .cons (fun more h => ?_) (.cons (fun more h => ?_) (inert_of_not_mem hrest))
  · have h := (List.cons_prefix_cons.mp (List.cons_prefix_cons.mp h).2).2
    exact hp (by simp [(List.cons_prefix_cons.mp h).1])
  · have h := (List.cons_prefix_cons.mp h).2
    have hbrace : '\x7b' = c := (List.cons_prefix_cons.mp h).1
    exact hword (hbrace ▸ List.mem_cons_self)

/-- The word of a placeholder. -/
def Placeholder.word : Placeholder → Text
  | .env => "env:".toList
  | .secret => "secret:".toList

theorem Placeholder.opening_eq (kind : Placeholder) :
    kind.opening = '\x7b' :: '\x7b' :: kind.word := by
  cases kind <;> rfl

/-- A marker opens no placeholder. -/
theorem inert_marker {name : Text} (h : BraceFree name) (kind : Placeholder) :
    Inert kind.opening (unresolvedPrefix ++ name ++ closing) := by
  cases kind <;> exact inert_braces (by decide) (by decide) (by decide) h

/-- A placeholder opens none of another kind. -/
theorem inert_source {kind : Placeholder} {p : Piece} (h : p.kind ≠ some kind) :
    Inert kind.opening p.source := by
  unfold Piece.source
  cases hkind : p.kind with
  | none => cases kind <;> exact inert_braceFree p.braceFree
  | some other =>
    cases kind <;> cases other
    · exact absurd hkind h
    · exact inert_braces (by decide) (by decide) (by decide) p.braceFree
    · exact inert_braces (by decide) (by decide) (by decide) p.braceFree
    · exact absurd hkind h

variable (henv : env.BraceFree)

include henv

theorem inert_valueOf {key : String} {name : Text} (hname : BraceFree name) (kind : Placeholder) :
    Inert kind.opening (env.valueOf key name) := by
  unfold Environment.valueOf
  split
  · rename_i value hvalue
    cases kind <;> exact inert_braceFree (henv key value hvalue)
  · exact inert_marker hname kind

/-- Nothing opens in what a piece stands for. -/
theorem inert_resolved (p : Piece) (kind : Placeholder) : Inert kind.opening (p.resolved env) := by
  unfold Piece.resolved
  split
  · cases kind <;> exact inert_braceFree p.braceFree
  · rename_i other _
    cases other <;> exact inert_valueOf henv p.braceFree kind

/-- A piece opens a placeholder of a kind only where it is one that is pending. -/
theorem inert_shown {e : Bool × Piece} {kind : Placeholder}
    (h : Progress.isPending kind e = false) : Inert kind.opening (Progress.shown env e) := by
  obtain ⟨replaced, p⟩ := e
  cases replaced with
  | true => exact inert_resolved henv p kind
  | false =>
    refine inert_source fun hkind => ?_
    have hpending : Progress.isPending kind (false, p) = true := decide_eq_true hkind
    exact absurd (hpending.symm.trans h) (by decide)

omit henv in
theorem inert_flatMap {α : Type} {pat : Text} {f : α → Text} {l : List α}
    (h : ∀ a ∈ l, Inert pat (f a)) : Inert pat (l.flatMap f) := by
  induction l with
  | nil => exact inert_nil pat
  | cons a l ih =>
    rw [List.flatMap_cons]
    exact (h a List.mem_cons_self).append (ih fun a ha => h a (List.mem_cons_of_mem _ ha))

/-- The text opens no placeholder of a kind that has none pending. -/
theorem not_opening_render {kind : Placeholder} {s : Progress}
    (h : ∀ e ∈ s, Progress.isPending kind e = false) :
    ¬ kind.opening <:+: Progress.render env s := by
  have hinert : Inert kind.opening (Progress.render env s) :=
    inert_flatMap fun e he => inert_shown henv (h e he)
  rw [kind.opening_eq] at hinert ⊢
  exact hinert.not_contained

/-- A pending placeholder behind others that are not. -/
theorem firstAt_render {kind : Placeholder} {front : Progress} (back : Progress) {p : Piece}
    (hkind : p.kind = some kind) (hfront : ∀ e ∈ front, Progress.isPending kind e = false) :
    FirstAt kind.opening (Progress.render env (front ++ (false, p) :: back))
        (Progress.render env front) (p.text ++ closing ++ Progress.render env back) ∧
      FirstAt closing (p.text ++ closing ++ Progress.render env back) p.text
        (Progress.render env back) := by
  have hclose : Inert closing p.text := inert_of_not_mem fun h => (p.braceFree.ne h).2 rfl
  have hinert : Inert kind.opening (Progress.render env front) :=
    inert_flatMap fun e he => inert_shown henv (hfront e he)
  have hrender : Progress.render env (front ++ (false, p) :: back) = Progress.render env front ++
      kind.opening ++ (p.text ++ closing ++ Progress.render env back) := by
    simp [Progress.render, Progress.shown, Piece.source, hkind]
  refine ⟨?_, hclose.firstAt _⟩
  rw [hrender]
  exact hinert.firstAt _

omit henv in
theorem render_replaced (front back : Progress) {kind : Placeholder} {p : Piece}
    (hkind : p.kind = some kind) : Progress.render env (front ++ (true, p) :: back) =
      Progress.render env front ++ kind.value env p.text ++ Progress.render env back := by
  simp [Progress.render, Progress.shown, Piece.resolved, hkind]

/-- **A pass replaces one placeholder**, the first of its kind. The rest of the text is the same
before and after it. -/
theorem resolvePass_render (s : Progress) :
    resolvePass env (s.render env) = s.advance.map (Progress.render env) := by
  unfold Progress.advance
  cases hfirst : Progress.replaceFirst .env s with
  | some s' =>
    obtain ⟨front, p, back, rfl, rfl, hkind, hfront⟩ := Progress.replaceFirst_eq_some hfirst
    obtain ⟨hopen, hclose⟩ := firstAt_render henv back hkind hfront
    rw [Option.map_some, render_replaced front back hkind]
    exact resolvePass_eq_some_iff.mpr (.variable hopen hclose)
  | none =>
    have hnone := not_opening_render henv (Progress.replaceFirst_eq_none.mp hfirst)
    dsimp only
    cases hsecret : Progress.replaceFirst .secret s with
    | some s' =>
      obtain ⟨front, p, back, rfl, rfl, hkind, hfront⟩ := Progress.replaceFirst_eq_some hsecret
      obtain ⟨hopen, hclose⟩ := firstAt_render henv back hkind hfront
      rw [Option.map_some, render_replaced front back hkind]
      exact resolvePass_eq_some_iff.mpr (.secret hnone hopen hclose)
    | none =>
      have hnone' := not_opening_render henv (Progress.replaceFirst_eq_none.mp hsecret)
      exact resolvePass_eq_none_iff.mpr (.inl (not_or.mpr ⟨hnone, hnone'⟩))

/-- So do a number of passes. -/
theorem resolveFrom_render (passes : Nat) (s : Progress) :
    resolveFrom env passes (s.render env) = (Progress.run passes s).render env := by
  induction passes generalizing s with
  | zero => rfl
  | succ passes ih =>
    rw [resolveFrom, resolvePass_render henv, Progress.run]
    cases s.advance with
    | none => rfl
    | some s' => exact ih s'

/-- A placeholder that is left stands in the text. -/
theorem opened_of_remaining {s : Progress} (h : Progress.remaining s ≠ 0) :
    Opened (s.render env) := by
  by_contra hopened
  have hpass : resolvePass env (s.render env) = none :=
    resolvePass_eq_none_iff.mpr (.inl hopened)
  rw [resolvePass_render henv, Option.map_eq_none_iff, Progress.advance_eq_none] at hpass
  exact h hpass

/-- None stands in what the pieces stand for. -/
theorem not_opened_resolved (t : Template) : ¬ Opened (t.resolved env) := by
  have hinert (kind : Placeholder) : Inert kind.opening (t.resolved env) :=
    inert_flatMap fun p _ => inert_resolved henv p kind
  rintro (h | h)
  · exact (hinert .env).not_contained h
  · exact (hinert .secret).not_contained h

end Braces

/-! ## The result -/

/-- The value of a template: every placeholder is replaced, in place, and none is left over. -/
def Resolves (env : Environment) (t : Template) : Prop :=
  resolveValue env (String.ofList t.source) = String.ofList (t.resolved env) ∧
    ¬ Opened (resolveValue env (String.ofList t.source)).toList

section Result

variable {env : Environment} (henv : env.BraceFree) (t : Template)

include henv

/-- What the passes make of a template. -/
theorem resolveValue_source : resolveValue env (String.ofList t.source) =
    String.ofList ((Progress.run maxResolvePasses (.start t)).render env) := by
  rw [resolveValue, String.toList_ofList, ← Progress.render_start env, resolveFrom_render henv]

/-- With few enough placeholders all of them are replaced. -/
theorem resolveFrom_source (hfew : t.placeholders ≤ maxResolvePasses) :
    resolveFrom env maxResolvePasses t.source = t.resolved env := by
  have hremaining := Progress.remaining_run maxResolvePasses (.start t)
  rw [Progress.remaining_start] at hremaining
  rw [← Progress.render_start env, resolveFrom_render henv,
    Progress.render_of_remaining (by omega), Progress.pieces_run, Progress.pieces_start]

/-- With too many placeholders some are left. -/
theorem not_resolves (hmany : maxResolvePasses < t.placeholders) : ¬ Resolves env t := by
  rintro ⟨-, hclean⟩
  have hremaining := Progress.remaining_run maxResolvePasses (.start t)
  rw [Progress.remaining_start] at hremaining
  rw [resolveValue_source henv, String.toList_ofList] at hclean
  exact hclean (opened_of_remaining henv (by omega))

/-- **A template is resolved exactly when it has no more placeholders than there are passes.** A
pass replaces one placeholder in place, and values without braces bring no new one, so what is
left after the last pass is what was too many. -/
theorem resolves_iff : Resolves env t ↔ t.placeholders ≤ maxResolvePasses := by
  constructor
  · intro hresolves
    by_contra hmany
    exact not_resolves henv t (Nat.lt_of_not_le hmany) hresolves
  · intro hfew
    have hall := resolveFrom_source henv t hfew
    rw [Resolves, resolveValue, String.toList_ofList, hall, String.toList_ofList]
    exact ⟨rfl, not_opened_resolved henv t⟩

/-- **What an operator can check**: no placeholder of `hub_token` is left over when each is closed,
there are no more of them than passes, and no variable has braces in its value. -/
theorem not_leavesPlaceholder {auth : RawAuthConfig}
    (htoken : auth.hubToken = some (String.ofList t.source))
    (hfew : t.placeholders ≤ maxResolvePasses) : ¬ LeavesPlaceholder env (some auth) := by
  have hsource : tokenSource env (some auth) = (t.source, maxResolvePasses) := by
    rw [tokenSource, Option.bind_some, htoken]
    simp only [String.toList_ofList]
  rintro ⟨n, hn, text, hexpands, hopened, -, hend⟩
  rw [hsource] at hn hexpands hend
  -- the text that is left over is what the resolver ends with
  have hresolved : resolveFrom env maxResolvePasses t.source = text :=
    resolveFrom_eq_iff.mpr ⟨n, hn, hexpands, hend.elim (fun h => .inr (.inr h)) .inl⟩
  rw [resolveFrom_source henv t hfew] at hresolved
  exact not_opened_resolved henv t (hresolved ▸ hopened)

end Result

theorem braceFree_oneVariable {name value : String} (h : BraceFree value.toList) :
    (oneVariable name value).BraceFree := by
  intro key value' hvalue
  simp only [oneVariable] at hvalue
  split at hvalue
  · exact Option.some.inj hvalue ▸ h
  · cases hvalue

/-- A placeholder with a short name. -/
def Piece.ofName (kind : Placeholder) (name : Text) (h : BraceFree name := by decide) : Piece :=
  ⟨some kind, name, h⟩

/-- An unset secret in front of a variable and text. -/
theorem secret_and_variable_are_resolved : Resolves (oneVariable "HOST" "a.test")
    [.ofName .secret "x".toList, .ofName .env "HOST".toList, ⟨none, "/mcp".toList, by decide⟩] :=
  (resolves_iff (braceFree_oneVariable (by decide)) _).mpr (by decide)

/-- The seventeenth placeholder is left over. -/
theorem seventeenth_is_left : (oneVariable "A" "x").BraceFree ∧
    ¬ Resolves (oneVariable "A" "x") (List.replicate 17 (.ofName .env "A".toList)) := by
  have henv : (oneVariable "A" "x").BraceFree := braceFree_oneVariable (by decide)
  exact ⟨henv, not_resolves henv _ (by decide)⟩

end HeadlessMcp
