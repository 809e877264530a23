import HeadlessMcp.Async.Machine

/-!
# Rely and guarantee

A `Protocol` says how the tasks of a pool share their state: an invariant of every
state, and for every task the interference it must expect, a preorder on states.
`Safe i p Q s` is the weakest precondition of the rest `p` of task `i` under that
interference: whatever the others do first, every operation of `p` keeps the
invariant, is interference the others expect, and leaves the task safe again; and
when the task has ended `Q` holds of how it ended.

`Safe` is defined by recursion on the program, so a proof of it walks through the
code. `Protocol.Holds.play` is what the walk is for: when every task is safe at the
start, every task is safe after every run.
-/

namespace Async

universe u w

/-- The invariant of a shared state and the interference each task expects. -/
structure Protocol (ι : Type) (σ : Type w) : Type w where
  /-- what holds of every state -/
  inv : σ → Prop
  /-- what the other tasks may do to the state between two steps of a task -/
  rely : ι → σ → σ → Prop
  /-- the others may do nothing -/
  rely_refl : ∀ i s, rely i s s
  /-- the others may do one thing after another -/
  rely_trans : ∀ i s t u, rely i s t → rely i t u → rely i s u

variable {Op : Type → Type u} {ι ε α β : Type} {σ : Type w}

namespace Protocol

variable (P : Protocol ι σ)

/-- A step of task `i` that the others expect. It keeps the invariant, and every other task finds
in it the interference that it must expect. -/
def Keeps (i : ι) (s t : σ) : Prop :=
  P.inv t ∧ ∀ j, j ≠ i → P.rely j s t

/-- An assertion of task `i` that the others cannot break. So what a task has once seen still
holds when it is its turn again. -/
def Stable (i : ι) (J : σ → Prop) : Prop :=
  ∀ s t, P.rely i s t → P.inv t → J s → J t

variable (M : Machine Op ι ε σ) (C : Rule Op ι ε σ)

/-- The weakest precondition of the rest of a task under interference. -/
def Safe (i : ι) : Prog Op α → (Outcome α → σ → Prop) → σ → Prop
  | .ret a, Q, s => ∀ s', P.rely i s s' → P.inv s' → Q (.done a) s'
  | .panic, Q, s => ∀ s', P.rely i s s' → P.inv s' → Q .panicked s'
  | .op (β := δ) o k, Q, s => ∀ s', P.rely i s s' → P.inv s' → ∀ e b t,
      C i δ o e s' → M.exec i δ o e s' = some (b, t) →
        P.Keeps i s' t ∧ Safe i (k b) Q t

variable {P M C} {i : ι}

theorem safe_ret {a : α} {Q : Outcome α → σ → Prop} {s : σ}
    (h : ∀ s', P.rely i s s' → P.inv s' → Q (.done a) s') :
    P.Safe M C i (.ret a) Q s := h

theorem safe_op {δ : Type} {o : Op δ} {k : δ → Prog Op α} {Q : Outcome α → σ → Prop} {s : σ}
    (h : ∀ s', P.rely i s s' → P.inv s' → ∀ e b t,
      C i δ o e s' → M.exec i δ o e s' = some (b, t) →
        P.Keeps i s' t ∧ P.Safe M C i (k b) Q t) :
    P.Safe M C i (.op o k) Q s := h

/-- What is safe stays safe while the others move. So a task may be left alone for any number of
steps of the others. -/
theorem Safe.rely {p : Prog Op α} {Q : Outcome α → σ → Prop} {s t : σ}
    (h : P.Safe M C i p Q s) (hst : P.rely i s t) : P.Safe M C i p Q t := by
  cases p with
  | ret a => exact fun s' hs' => h s' (P.rely_trans i _ _ _ hst hs')
  | panic => exact fun s' hs' => h s' (P.rely_trans i _ _ _ hst hs')
  | op o k => exact fun s' hs' => h s' (P.rely_trans i _ _ _ hst hs')

/-- To be safe now is to be safe once the others have moved. -/
theorem safe_of_rely {p : Prog Op α} {Q : Outcome α → σ → Prop} {s : σ}
    (h : ∀ s', P.rely i s s' → P.inv s' → P.Safe M C i p Q s') : P.Safe M C i p Q s := by
  cases p with
  | ret a => exact fun s' hs' hi => h s' hs' hi s' (P.rely_refl i s') hi
  | panic => exact fun s' hs' hi => h s' hs' hi s' (P.rely_refl i s') hi
  | op o k => exact fun s' hs' hi => h s' hs' hi s' (P.rely_refl i s') hi

/-- A weaker postcondition. -/
theorem Safe.mono {p : Prog Op α} {Q Q' : Outcome α → σ → Prop} {s : σ}
    (h : P.Safe M C i p Q s) (hQ : ∀ x t, P.inv t → Q x t → Q' x t) :
    P.Safe M C i p Q' s := by
  induction p generalizing s with
  | ret a => exact fun s' hs' hi => hQ _ _ hi (h s' hs' hi)
  | panic => exact fun s' hs' hi => hQ _ _ hi (h s' hs' hi)
  | op o k ih =>
    intro s' hs' hi e b t hC he
    obtain ⟨hk, hrest⟩ := h s' hs' hi e b t hC he
    exact ⟨hk, ih b hrest⟩

/-- Sequencing: what the first part ends in is where the second one starts. -/
theorem Safe.bind {p : Prog Op α} {f : α → Prog Op β} {Q : Outcome β → σ → Prop} {s : σ}
    (h : P.Safe M C i p (fun x t => match x with
      | .done a => P.Safe M C i (f a) Q t
      | .panicked => Q .panicked t) s) :
    P.Safe M C i (p.bind f) Q s := by
  induction p generalizing s with
  | ret a => exact safe_of_rely h
  | panic => exact h
  | op o k ih =>
    intro s' hs' hi e b t hC he
    obtain ⟨hk, hrest⟩ := h s' hs' hi e b t hC he
    exact ⟨hk, ih b hrest⟩

/-- A guard that is dropped: after the body, however it ended, comes the last
operation. -/
theorem Safe.andFinally {fin : Op Unit} {p : Prog Op α} {Q : Outcome α → σ → Prop} {s : σ}
    (h : P.Safe M C i p (fun x t => ∀ e b u,
      C i Unit fin e t → M.exec i Unit fin e t = some (b, u) →
        P.Keeps i t u ∧ ∀ u', P.rely i u u' → P.inv u' → Q x u') s) :
    P.Safe M C i (p.andFinally fin) Q s := by
  induction p generalizing s with
  | ret a => exact fun s' hs' hi e b t hC he => h s' hs' hi e b t hC he
  | panic => exact fun s' hs' hi e b t hC he => h s' hs' hi e b t hC he
  | op o k ih =>
    intro s' hs' hi e b t hC he
    obtain ⟨hk, hrest⟩ := h s' hs' hi e b t hC he
    exact ⟨hk, ih b hrest⟩

/-- The frame rule: when no operation the program uses can break `J`, the program
keeps `J`. -/
theorem Safe.of_uses {A : ∀ {δ : Type}, Op δ → Prop} {J : σ → Prop}
    (hJ : P.Stable i J)
    (hstep : ∀ (δ : Type) (o : Op δ) e s b t, A o → P.inv s → J s → C i δ o e s →
      M.exec i δ o e s = some (b, t) → P.Keeps i s t ∧ J t)
    {p : Prog Op α} (hp : p.Uses A) {s : σ} (hs : J s) :
    P.Safe M C i p (fun _ t => J t) s := by
  induction p generalizing s with
  | ret a => exact fun s' hs' hi => hJ _ _ hs' hi hs
  | panic => exact fun s' hs' hi => hJ _ _ hs' hi hs
  | op o k ih =>
    intro s' hs' hi e b t hC he
    obtain ⟨hk, ht⟩ := hstep _ o e s' b t hp.1 hi (hJ _ _ hs' hi hs) hC he
    exact ⟨hk, ih b (hp.2 b) ht⟩

/-- What holds of a pool in every reachable state: the invariant, and every task is
safe. -/
structure Holds (P : Protocol ι σ) (M : Machine Op ι ε σ) (C : Rule Op ι ε σ)
    (Q : ι → Outcome α → σ → Prop) (c : Pool Op ι σ α) : Prop where
  /-- the invariant of the shared state -/
  inv : P.inv c.shared
  /-- every task is safe from here on -/
  safe : ∀ i, P.Safe M C i (c.task i) (Q i) c.shared

/-- A task that has returned has its postcondition. -/
theorem Holds.result {Q : ι → Outcome α → σ → Prop} {c : Pool Op ι σ α}
    (h : Holds P M C Q c) {a : α} (ha : c.task i = .ret a) : Q i (.done a) c.shared := by
  have hsafe : P.Safe M C i (.ret a) (Q i) c.shared := ha ▸ h.safe i
  exact hsafe c.shared (P.rely_refl _ _) h.inv

/-- A task that has panicked has its postcondition. -/
theorem Holds.panicked {Q : ι → Outcome α → σ → Prop} {c : Pool Op ι σ α}
    (h : Holds P M C Q c) (hpanic : c.task i = .panic) : Q i .panicked c.shared := by
  have hsafe : P.Safe M C i .panic (Q i) c.shared := hpanic ▸ h.safe i
  exact hsafe c.shared (P.rely_refl _ _) h.inv

variable [DecidableEq ι]

/-- One admitted step keeps every task safe: the one that moved by its own
precondition, the others because they expect the step. -/
theorem Holds.step {Q : ι → Outcome α → σ → Prop} {l : ι × ε} {c c' : Pool Op ι σ α}
    (h : Holds P M C Q c)
    (hC : ∀ (δ : Type) (o : Op δ) (k : δ → Prog Op α),
      c.task l.1 = .op o k → C l.1 δ o l.2 c.shared)
    (hstep : M.step l c = some c') : Holds P M C Q c' := by
  obtain ⟨q, hfire, htask⟩ := M.step_eq_some hstep
  obtain ⟨δ, o, k, b, hop, hexec, rfl⟩ := M.fire_eq_some hfire
  have hsafe : P.Safe M C l.1 (.op o k) (Q l.1) c.shared := hop ▸ h.safe l.1
  obtain ⟨hkeeps, hrest⟩ :=
    hsafe c.shared (P.rely_refl _ _) h.inv l.2 b c'.shared (hC δ o k hop) hexec
  refine ⟨hkeeps.1, fun j => ?_⟩
  by_cases hj : j = l.1
  · subst hj
    rw [htask, Function.update_self]
    exact hrest
  · rw [M.step_task_ne hstep hj]
    exact (h.safe j).rely (hkeeps.2 j hj)

/-- **Soundness**: when every task is safe at the start, every task is safe after
every run whose steps meet the condition. -/
theorem Holds.play {Q : ι → Outcome α → σ → Prop} {ls : List (ι × ε)} {c c' : Pool Op ι σ α}
    (h : Holds P M C Q c) (hm : M.Meets C ls c) (hp : M.play ls c = some c') :
    Holds P M C Q c' :=
  M.play_induct (P := Holds P M C Q) (fun _ _ _ hc hC hs => hc.step hC hs) h hm hp

/-- The invariant holds before every step of such a run. So a condition on the steps of a run can
be strengthened by everything that is known of its states. -/
theorem Holds.meets {Q : ι → Outcome α → σ → Prop} {ls : List (ι × ε)} {c : Pool Op ι σ α}
    (h : Holds P M C Q c) (hm : M.Meets C ls c) :
    M.Meets (fun i β o e s => P.inv s ∧ C i β o e s) ls c :=
  Machine.Meets.of_induct M (P := Holds P M C Q) (fun _ _ _ hc hC hs => hc.step hC hs)
    (fun _ _ _ _ _ hc _ hC => ⟨hc.inv, hC⟩) h hm

end Protocol

end Async
