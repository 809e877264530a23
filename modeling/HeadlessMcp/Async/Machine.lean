import HeadlessMcp.Async.Prog
import Mathlib

/-!
# Machines, pools and runs

A `Machine` says what an operation does: from a shared state, and a choice `ε` of
the environment (a clock reading, a server's reply, a failing disk), it yields the
answer and the next state, or nothing when the operation has to wait (a lock that
is held). A `Pool` is a shared state with one task for every index; a run of a
pool is a *schedule*, a list of task indices each with the environment's choice
for that step. Every interleaving of the tasks is some schedule, so a property of
all schedules is a property of all interleavings.

`play` computes a schedule, so a concrete run is checked by evaluating it; `solo`
does the same for one task that runs alone.
-/

namespace Async

universe u w

variable {Op : Type → Type u} {ι ε α : Type} {σ : Type w}

/-- What operations do. `none` means that the operation cannot be performed yet. -/
structure Machine (Op : Type → Type u) (ι ε : Type) (σ : Type w) : Type (max 1 u w) where
  /-- task `i` performs an operation under one choice of the environment -/
  exec : ι → (β : Type) → Op β → ε → σ → Option (β × σ)

/-- A shared state and the rest of every task. The tasks share nothing else: what one of them
knows of another it has read in the state. -/
structure Pool (Op : Type → Type u) (ι : Type) (σ : Type w) (α : Type) : Type (max 1 u w) where
  /-- the state that the tasks share -/
  shared : σ
  /-- what each task has still to do -/
  task : ι → Prog Op α

/-- Two tasks are numbered. -/
instance neZeroTwo : NeZero 2 := ⟨by decide⟩

/-- Three tasks are numbered. -/
instance neZeroThree : NeZero 3 := ⟨by decide⟩

/-- A condition on single steps: the task, its operation, the environment's choice
and the state before the step. -/
abbrev Rule (Op : Type → Type u) (ι ε : Type) (σ : Type w) : Type (max 1 u w) :=
  ι → (β : Type) → Op β → ε → σ → Prop

namespace Machine

variable (M : Machine Op ι ε σ)

/-- The first operation of a program, and what is left of the program after it. -/
def fire (i : ι) (e : ε) : Prog Op α → σ → Option (Prog Op α × σ)
  | .ret _, _ => none
  | .panic, _ => none
  | .op (β := β) o k, s => (M.exec i β o e s).map fun r => (k r.1, r.2)

@[simp] theorem fire_ret (i : ι) (e : ε) (a : α) (s : σ) :
    M.fire i e (.ret a : Prog Op α) s = none := rfl

@[simp] theorem fire_panic (i : ι) (e : ε) (s : σ) :
    M.fire i e (.panic : Prog Op α) s = none := rfl

/-- Inversion for `fire`: only an operation fires, and the machine performs it. -/
theorem fire_eq_some {i : ι} {e : ε} {p q : Prog Op α} {s s' : σ}
    (h : M.fire i e p s = some (q, s')) :
    ∃ (β : Type) (o : Op β) (k : β → Prog Op α) (b : β),
      p = .op o k ∧ M.exec i β o e s = some (b, s') ∧ q = k b := by
  cases p with
  | ret a => cases h
  | panic => cases h
  | op o k =>
    rw [fire, Option.map_eq_some_iff] at h
    obtain ⟨⟨b, t⟩, hexec, heq⟩ := h
    obtain ⟨rfl, rfl⟩ := Prod.mk.inj heq
    exact ⟨_, o, k, b, rfl, hexec, rfl⟩

section Pools

variable [DecidableEq ι]

/-- One step of a pool: the task named by the label performs its next operation. -/
def step (l : ι × ε) (c : Pool Op ι σ α) : Option (Pool Op ι σ α) :=
  (M.fire l.1 l.2 (c.task l.1) c.shared).map fun r =>
    ⟨r.2, Function.update c.task l.1 r.1⟩

/-- Play a schedule. The result is `none` when a task of the schedule has ended or has to wait at
its turn, so a schedule that can be played is a run. -/
def play : List (ι × ε) → Pool Op ι σ α → Option (Pool Op ι σ α)
  | [], c => some c
  | l :: ls, c => (M.step l c).bind (play ls)

/-- Every step of the schedule meets the condition. The condition sees the operation that is about
to be performed, the choice of the environment and the state before, so that a theorem can assume
something of the answers without assuming what the code makes of them. -/
def Meets (C : Rule Op ι ε σ) : List (ι × ε) → Pool Op ι σ α → Prop
  | [], _ => True
  | l :: ls, c =>
    (∀ (β : Type) (o : Op β) (k : β → Prog Op α),
      c.task l.1 = .op o k → C l.1 β o l.2 c.shared) ∧
    ∀ c', M.step l c = some c' → Meets C ls c'

@[simp] theorem play_nil (c : Pool Op ι σ α) : M.play [] c = some c := rfl

@[simp] theorem play_cons (l : ι × ε) (ls : List (ι × ε)) (c : Pool Op ι σ α) :
    M.play (l :: ls) c = (M.step l c).bind (M.play ls) := rfl

/-- A run that is played in two parts. -/
theorem play_append (ls ls' : List (ι × ε)) (c : Pool Op ι σ α) :
    M.play (ls ++ ls') c = (M.play ls c).bind (M.play ls') := by
  induction ls generalizing c with
  | nil => rfl
  | cons l ls ih =>
    rw [List.cons_append, play_cons, play_cons, Option.bind_assoc]
    exact congrArg (Option.bind (M.step l c)) (funext ih)

/-- Inversion for `step`. One task fires, the shared state is the one it leaves, and only its own
program changes. -/
theorem step_eq_some {l : ι × ε} {c c' : Pool Op ι σ α} (h : M.step l c = some c') :
    ∃ q, M.fire l.1 l.2 (c.task l.1) c.shared = some (q, c'.shared) ∧
      c'.task = Function.update c.task l.1 q := by
  rw [step, Option.map_eq_some_iff] at h
  obtain ⟨⟨q, s⟩, hfire, rfl⟩ := h
  exact ⟨q, hfire, rfl⟩

/-- The tasks that did not move keep their program. -/
theorem step_task_ne {l : ι × ε} {c c' : Pool Op ι σ α} (h : M.step l c = some c') {j : ι}
    (hj : j ≠ l.1) : c'.task j = c.task j := by
  obtain ⟨q, -, htask⟩ := M.step_eq_some h
  rw [htask, Function.update_of_ne hj]

/-- A property of pools that every admitted step keeps holds after every run whose
steps are admitted. -/
theorem play_induct {C : Rule Op ι ε σ} {P : Pool Op ι σ α → Prop}
    (hstep : ∀ l c c', P c →
      (∀ (β : Type) (o : Op β) (k : β → Prog Op α),
        c.task l.1 = .op o k → C l.1 β o l.2 c.shared) →
      M.step l c = some c' → P c')
    {ls : List (ι × ε)} {c c' : Pool Op ι σ α} (hc : P c) (hm : M.Meets C ls c)
    (hp : M.play ls c = some c') : P c' := by
  induction ls generalizing c with
  | nil =>
    obtain rfl := Option.some.inj hp
    exact hc
  | cons l ls ih =>
    rw [play_cons, Option.bind_eq_some_iff] at hp
    obtain ⟨c₁, h₁, hp⟩ := hp
    exact ih (hstep l c c₁ hc hm.1 h₁) (hm.2 c₁ h₁) hp

/-- The condition is met by what is left of a run. -/
theorem Meets.rest {C : Rule Op ι ε σ} {ls ls' : List (ι × ε)} {c c' : Pool Op ι σ α}
    (hm : M.Meets C (ls ++ ls') c) (hp : M.play ls c = some c') : M.Meets C ls' c' := by
  induction ls generalizing c with
  | nil =>
    obtain rfl := Option.some.inj hp
    exact hm
  | cons l ls ih =>
    rw [play_cons, Option.bind_eq_some_iff] at hp
    obtain ⟨c₁, h₁, hp⟩ := hp
    exact ih (hm.2 c₁ h₁) hp

/-- A first step that meets the condition, and a rest that does. -/
theorem Meets.cons {C : Rule Op ι ε σ} {l : ι × ε} {ls : List (ι × ε)} {c c' : Pool Op ι σ α}
    {β : Type} {o : Op β} {k : β → Prog Op α} (hop : c.task l.1 = .op o k)
    (hC : C l.1 β o l.2 c.shared) (hstep : M.step l c = some c') (hrest : M.Meets C ls c') :
    M.Meets C (l :: ls) c := by
  refine ⟨fun β' o' k' hop' => ?_, fun c₁ h₁ => ?_⟩
  · rw [hop] at hop'
    cases hop'
    exact hC
  · obtain rfl := Option.some.inj (hstep.symm.trans h₁)
    exact hrest

/-- What follows from such a property is a condition that every step meets. -/
theorem Meets.of_induct {C D : Rule Op ι ε σ} {P : Pool Op ι σ α → Prop}
    (hstep : ∀ l c c', P c →
      (∀ (β : Type) (o : Op β) (k : β → Prog Op α),
        c.task l.1 = .op o k → C l.1 β o l.2 c.shared) →
      M.step l c = some c' → P c')
    (hD : ∀ (l : ι × ε) c (β : Type) (o : Op β) (k : β → Prog Op α), P c →
      c.task l.1 = .op o k → C l.1 β o l.2 c.shared → D l.1 β o l.2 c.shared)
    {ls : List (ι × ε)} {c : Pool Op ι σ α} (hc : P c) (hm : M.Meets C ls c) :
    M.Meets D ls c := by
  induction ls generalizing c with
  | nil => trivial
  | cons l ls ih =>
    exact ⟨fun β o k ho => hD l c β o k hc ho (hm.1 β o k ho),
      fun c' hs => ih (hstep l c c' hc hm.1 hs) (hm.2 c' hs)⟩

/-- With the condition that is always true every schedule is admitted. -/
theorem meets_true (ls : List (ι × ε)) (c : Pool Op ι σ α) :
    M.Meets (fun _ _ _ _ _ => True) ls c := by
  induction ls generalizing c with
  | nil => trivial
  | cons l ls ih => exact ⟨fun _ _ _ _ => trivial, fun c' _ => ih c'⟩

/-- Two conditions at once. -/
theorem Meets.and {C D : Rule Op ι ε σ} {ls : List (ι × ε)} {c : Pool Op ι σ α}
    (hC : M.Meets C ls c) (hD : M.Meets D ls c) :
    M.Meets (fun i β o e s => C i β o e s ∧ D i β o e s) ls c := by
  induction ls generalizing c with
  | nil => trivial
  | cons l ls ih =>
    exact ⟨fun β o k h => ⟨hC.1 β o k h, hD.1 β o k h⟩, fun c' h => ih (hC.2 c' h) (hD.2 c' h)⟩

/-- A weaker condition. -/
theorem Meets.mono {C D : Rule Op ι ε σ} (hCD : ∀ i β (o : Op β) e s, C i β o e s → D i β o e s)
    {ls : List (ι × ε)} {c : Pool Op ι σ α} (hC : M.Meets C ls c) : M.Meets D ls c := by
  induction ls generalizing c with
  | nil => trivial
  | cons l ls ih => exact ⟨fun β o k h => hCD _ _ _ _ _ (hC.1 β o k h), fun c' h => ih (hC.2 c' h)⟩

/-- What every operation keeps holds before every step of every schedule. -/
theorem meets_of_invariant {P : σ → Prop}
    (hstep : ∀ i β (o : Op β) e s b t, M.exec i β o e s = some (b, t) → P s → P t)
    {ls : List (ι × ε)} {c : Pool Op ι σ α} (hc : P c.shared) :
    M.Meets (fun _ _ _ _ s => P s) ls c := by
  induction ls generalizing c with
  | nil => trivial
  | cons l ls ih =>
    refine ⟨fun _ _ _ _ => hc, fun c' h => ih ?_⟩
    obtain ⟨q, hfire, -⟩ := M.step_eq_some h
    obtain ⟨β, o, k, b, -, hexec, -⟩ := M.fire_eq_some hfire
    exact hstep _ _ _ _ _ _ _ hexec hc

/-- A decidable condition can be checked along a schedule. So the witness of a theorem about runs
is checked by evaluating its run. -/
def decidableMeets {C : Rule Op ι ε σ} [∀ i β (o : Op β) e s, Decidable (C i β o e s)] :
    (ls : List (ι × ε)) → (c : Pool Op ι σ α) → Decidable (M.Meets C ls c)
  | [], _ => .isTrue trivial
  | l :: ls, c =>
    have first : Decidable (∀ (β : Type) (o : Op β) (k : β → Prog Op α),
        c.task l.1 = .op o k → C l.1 β o l.2 c.shared) :=
      match h : c.task l.1 with
      | .ret a => .isTrue fun _ _ _ h' => nomatch h'
      | .panic => .isTrue fun _ _ _ h' => nomatch h'
      | .op o _ => decidable_of_iff (C l.1 _ o l.2 c.shared)
          ⟨fun hC _ _ _ h' => by cases h'; exact hC, fun hC => hC _ _ _ rfl⟩
    have rest : Decidable (∀ c', M.step l c = some c' → M.Meets C ls c') :=
      match M.step l c with
      | none => .isTrue fun _ h' => nomatch h'
      | some c' =>
        have : Decidable (M.Meets C ls c') := decidableMeets ls c'
        decidable_of_iff (M.Meets C ls c') ⟨fun h _ h' => Option.some.inj h' ▸ h, fun h => h c' rfl⟩
    instDecidableAnd

instance {C : Rule Op ι ε σ} [∀ i β (o : Op β) e s, Decidable (C i β o e s)]
    (ls : List (ι × ε)) (c : Pool Op ι σ α) : Decidable (M.Meets C ls c) :=
  M.decidableMeets ls c

/-- A run that ends where `P` holds has only steps of the condition `C`, when every
step into `P` comes from `P` and meets `C`. This reads a condition off the record that
the last state keeps of the run. -/
theorem meets_of_play {C : Rule Op ι ε σ} {P : σ → Prop}
    (hback : ∀ i β (o : Op β) e s b t, M.exec i β o e s = some (b, t) → P t →
      P s ∧ C i β o e s)
    {ls : List (ι × ε)} {c c' : Pool Op ι σ α} (hp : M.play ls c = some c')
    (hP : P c'.shared) : M.Meets C ls c ∧ P c.shared := by
  induction ls generalizing c with
  | nil =>
    obtain rfl := Option.some.inj hp
    exact ⟨trivial, hP⟩
  | cons l ls ih =>
    rw [play_cons, Option.bind_eq_some_iff] at hp
    obtain ⟨c₁, h₁, hp⟩ := hp
    obtain ⟨hrest, hP₁⟩ := ih hp
    obtain ⟨q, hfire, -⟩ := M.step_eq_some h₁
    obtain ⟨β, o, k, b, hop, hexec, -⟩ := M.fire_eq_some hfire
    obtain ⟨hPc, hC⟩ := hback _ _ _ _ _ _ _ hexec hP₁
    refine ⟨⟨fun β' o' k' hop' => ?_, fun c₂ h₂ => ?_⟩, hPc⟩
    · rw [hop] at hop'
      cases hop'
      exact hC
    · rw [h₁] at h₂
      exact Option.some.inj h₂ ▸ hrest

end Pools

/-- Run one task alone, with one choice of the environment for each operation. The
task must end exactly when the choices do. -/
def solo (i : ι) : Prog Op α → List ε → σ → Option (Outcome α × σ)
  | .ret a, [], s => some (.done a, s)
  | .ret _, _ :: _, _ => none
  | .panic, [], s => some (.panicked, s)
  | .panic, _ :: _, _ => none
  | .op _ _, [], _ => none
  | .op (β := β) o k, e :: es, s => (M.exec i β o e s).bind fun r => solo i (k r.1) es r.2

@[simp] theorem solo_op_cons (i : ι) {β : Type} (o : Op β) (k : β → Prog Op α) (e : ε)
    (es : List ε) (s : σ) :
    M.solo i (.op o k) (e :: es) s =
      (M.exec i β o e s).bind fun r => M.solo i (k r.1) es r.2 := rfl

@[simp] theorem solo_op_nil (i : ι) {β : Type} (o : Op β) (k : β → Prog Op α) (s : σ) :
    M.solo i (.op o k) [] s = none := rfl

/-- Inversion for a task that has returned. -/
theorem solo_ret {i : ι} {a : α} {es : List ε} {s : σ} {r : Outcome α × σ}
    (h : M.solo i (.ret a) es s = some r) : es = [] ∧ r = (.done a, s) := by
  cases es with
  | nil => exact ⟨rfl, (Option.some.inj h).symm⟩
  | cons e es => cases h

/-- Inversion for a task that has panicked. -/
theorem solo_panic {i : ι} {es : List ε} {s : σ} {r : Outcome α × σ}
    (h : M.solo i (.panic : Prog Op α) es s = some r) : es = [] ∧ r = (.panicked, s) := by
  cases es with
  | nil => exact ⟨rfl, (Option.some.inj h).symm⟩
  | cons e es => cases h

/-- Inversion for a task that starts with an operation. The first choice is spent on the
operation, and the rest of the run goes on from its answer. -/
theorem solo_op {i : ι} {β : Type} {o : Op β} {k : β → Prog Op α} {es : List ε} {s : σ}
    {r : Outcome α × σ} (h : M.solo i (.op o k) es s = some r) :
    ∃ e es' b s', es = e :: es' ∧ M.exec i β o e s = some (b, s') ∧
      M.solo i (k b) es' s' = some r := by
  cases es with
  | nil => cases h
  | cons e es =>
    rw [solo_op_cons, Option.bind_eq_some_iff] at h
    obtain ⟨⟨b, s'⟩, hexec, hrest⟩ := h
    exact ⟨e, es, b, s', rfl, hexec, hrest⟩

/-- A sequence is run in two parts. The first part has to return. -/
theorem solo_bind {i : ι} {β : Type} {p : Prog Op β} {f : β → Prog Op α} {a : β}
    {es es' : List ε} {s t : σ} (h : M.solo i p es s = some (.done a, t)) :
    M.solo i (p.bind f) (es ++ es') s = M.solo i (f a) es' t := by
  induction p generalizing es s with
  | ret b =>
    obtain ⟨rfl, heq⟩ := M.solo_ret h
    obtain ⟨hb, rfl⟩ := Prod.mk.inj heq
    rw [Outcome.done.inj hb]
    rfl
  | panic =>
    obtain ⟨-, heq⟩ := M.solo_panic h
    cases (Prod.mk.inj heq).1
  | op o k ih =>
    obtain ⟨e, es, b, u, rfl, hexec, hrest⟩ := M.solo_op h
    rw [Prog.op_bind, List.cons_append, solo_op_cons, hexec]
    exact ih b hrest

/-- One task takes all the turns. -/
def turns (i : ι) (es : List ε) : List (ι × ε) := es.map fun e => (i, e)

end Machine

end Async
