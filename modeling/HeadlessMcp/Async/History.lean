import HeadlessMcp.Async.Solo

/-!
# Histories

What the tasks of a pool have done: every operation that was performed, with its task and
its answer. `Machine.recorded` keeps the history next to the state. It only watches: the
runs are those of the machine itself (`recorded_play`).
-/

namespace Async

universe u v w

variable {Op : Type → Type u} {ι ε α : Type} {σ : Type w}

/-- An operation that has been performed. The one who performed it is noted with its answer, and
not the state in which it did. -/
structure Performed (Op : Type → Type u) (ι : Type) : Type (max 1 u) where
  /-- the task that performed it -/
  caller : ι
  {answerType : Type}
  op : Op answerType
  answer : answerType

/-- A state and what led to it. The newest operation comes first. -/
structure Recorded (Op : Type → Type u) (ι : Type) (σ : Type w) : Type (max 1 u w) where
  state : σ
  /-- what has been performed, newest first -/
  log : List (Performed Op ι)

namespace Machine

variable (M : Machine Op ι ε σ)

/-- The machine that keeps a history. -/
def recorded : Machine Op ι ε (Recorded Op ι σ) where
  exec i β o e s := (M.exec i β o e s.state).map fun r => (r.1, ⟨r.2, ⟨i, o, r.1⟩ :: s.log⟩)

variable {M}

/-- Inversion for a recorded step. -/
theorem recorded_exec {i : ι} {β : Type} {o : Op β} {e : ε} {s t : Recorded Op ι σ} {b : β}
    (h : M.recorded.exec i β o e s = some (b, t)) :
    M.exec i β o e s.state = some (b, t.state) ∧ t.log = ⟨i, o, b⟩ :: s.log := by
  obtain ⟨⟨b', u⟩, hexec, heq⟩ := Option.map_eq_some_iff.mp h
  obtain ⟨rfl, rfl⟩ := Prod.mk.inj heq
  exact ⟨hexec, rfl⟩

/-- A task that runs alone leaves a history. -/
theorem exists_recorded_solo {i : ι} {p : Prog Op α} {es : List ε} {s t : σ} {x : Outcome α}
    (h : M.solo i p es s = some (x, t)) (log : List (Performed Op ι)) :
    ∃ log', M.recorded.solo i p es ⟨s, log⟩ = some (x, ⟨t, log'⟩) := by
  induction p generalizing es s log with
  | ret a =>
    obtain ⟨rfl, heq⟩ := M.solo_ret h
    obtain ⟨rfl, rfl⟩ := Prod.mk.inj heq
    exact ⟨log, rfl⟩
  | panic =>
    obtain ⟨rfl, heq⟩ := M.solo_panic h
    obtain ⟨rfl, rfl⟩ := Prod.mk.inj heq
    exact ⟨log, rfl⟩
  | op o k ih =>
    obtain ⟨e, es, b, u, rfl, hexec, hrest⟩ := M.solo_op h
    obtain ⟨log', hrun⟩ := ih b hrest (⟨i, o, b⟩ :: log)
    refine ⟨log', ?_⟩
    rw [solo_op_cons]
    simp only [recorded, hexec, Option.map_some, Option.bind_some]
    exact hrun

/-! ## Notes -/

section Notes

variable {ν : Type}

/-- The machine with an observer, who takes notes of every operation and the state before
it. The newest notes come first. -/
def noted (M : Machine Op ι ε σ) (observe : (β : Type) → Op β → β → σ → List ν) :
    Machine Op ι ε (σ × List ν) where
  exec i β o e s := (M.exec i β o e s.1).map fun r => (r.1, r.2, observe β o r.1 s.1 ++ s.2)

variable {observe : (β : Type) → Op β → β → σ → List ν}

/-- Inversion for an observed step. The new notes are those of this operation, in front of the
others. -/
theorem noted_exec {i : ι} {β : Type} {o : Op β} {e : ε} {s t : σ × List ν} {b : β}
    (h : (M.noted observe).exec i β o e s = some (b, t)) :
    M.exec i β o e s.1 = some (b, t.1) ∧ t.2 = observe β o b s.1 ++ s.2 := by
  obtain ⟨⟨b', u⟩, hexec, heq⟩ := Option.map_eq_some_iff.mp h
  obtain ⟨rfl, rfl⟩ := Prod.mk.inj heq
  exact ⟨hexec, rfl⟩

/-- What is observed of a part is what is observed of the whole. -/
theorem OnPart.noted {Op' : Type → Type v} {σ' : Type} {σ : Type} {M : Machine Op ι ε σ}
    {M' : Machine Op' ι ε σ'} {h : ∀ {δ : Type}, Op δ → Op' δ} {get : σ' → σ} {put : σ → σ' → σ'}
    (hpart : M.OnPart M' h get put) {observe : (β : Type) → Op β → β → σ → List ν}
    {observe' : (β : Type) → Op' β → β → σ' → List ν}
    (hobserve : ∀ (δ : Type) (o : Op δ) b s, observe' δ (h o) b s = observe δ o b (get s)) :
    (M.noted observe).OnPart (M'.noted observe') h (fun s => (get s.1, s.2))
      fun t s => (put t.1 s.1, t.2) where
  exec i δ o e s := by
    simp only [Machine.noted, hpart.exec, Option.map_map, Function.comp_def, hobserve]
  get_put s t := by rw [hpart.get_put]
  put_put s t u := by rw [hpart.put_put]
  put_get s := by rw [hpart.put_get]

end Notes

/-- A pool without its history. -/
def forget (c : Pool Op ι (Recorded Op ι σ) α) : Pool Op ι σ α := ⟨c.shared.state, c.task⟩

variable [DecidableEq ι]

theorem recorded_step (l : ι × ε) (c : Pool Op ι (Recorded Op ι σ) α) :
    (M.recorded.step l c).map forget = M.step l (forget c) := by
  have hfire : ∀ p : Prog Op α, (M.recorded.fire l.1 l.2 p c.shared).map
      (fun r => (r.1, r.2.state)) = M.fire l.1 l.2 p c.shared.state := by
    intro p
    cases p with
    | ret a => rfl
    | panic => rfl
    | op o k =>
      simp only [fire, recorded, Option.map_map]
      rfl
  rw [step, step, forget, ← hfire, Option.map_map, Option.map_map]
  rfl

/-- The runs of the recorded machine are the runs of the machine. -/
theorem recorded_play (ls : List (ι × ε)) (c : Pool Op ι (Recorded Op ι σ) α) :
    (M.recorded.play ls c).map forget = M.play ls (forget c) := by
  induction ls generalizing c with
  | nil => rfl
  | cons l ls ih =>
    rw [play_cons, play_cons, ← recorded_step, Option.map_bind, Option.bind_map]
    exact congrArg (Option.bind _) (funext fun c' => ih c')

end Machine

end Async
