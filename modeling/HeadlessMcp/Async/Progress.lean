import HeadlessMcp.Async.Machine
import Mathlib

/-!
# Progress

Two reasons why the tasks of a pool cannot hang. A program is a finite-height tree,
so a pool of finitely many tasks has no infinite run (`after_wellFounded`). And when
every task takes and drops one lock in turn, and never ends or takes it again while
it holds it (`Balanced`), then in every reachable state some unfinished task is not
waiting for the lock (`LockInv.exists_runnable`).
-/

namespace Async

universe u

variable {Op : Type → Type u} {ι ε σ α β : Type}

namespace Prog

/-! ## Finite runs -/

/-- `q` is what is left of `p` after some answer to its first operation. -/
def Rest (q p : Prog Op α) : Prop :=
  ∃ (δ : Type) (o : Op δ) (k : δ → Prog Op α) (b : δ), p = .op o k ∧ q = k b

theorem rest_wellFounded : WellFounded (@Rest Op α) := by
  refine ⟨fun p => ?_⟩
  induction p with
  | ret a => exact ⟨_, by rintro q ⟨_, _, _, _, h, -⟩; cases h⟩
  | panic => exact ⟨_, by rintro q ⟨_, _, _, _, h, -⟩; cases h⟩
  | op o k ih =>
    refine ⟨_, ?_⟩
    rintro q ⟨δ, o', k', b, h, rfl⟩
    cases h
    exact ih b

/-- The task has ended. It has returned or panicked, and takes no further step. -/
def Ended : Prog Op α → Prop
  | ret _ => True
  | panic => True
  | op _ _ => False

instance (p : Prog Op α) : Decidable p.Ended :=
  match p with
  | ret _ => .isTrue trivial
  | panic => .isTrue trivial
  | op _ _ => .isFalse id

/-- The task has panicked. -/
def isPanic : Prog Op α → Bool
  | panic => true
  | _ => false

theorem isPanic_iff {p : Prog Op α} : p.isPanic = true ↔ p = panic := by
  cases p <;> simp [isPanic]

theorem exists_op_of_not_ended {p : Prog Op α} (h : ¬ p.Ended) :
    ∃ (δ : Type) (o : Op δ) (k : δ → Prog Op α), p = .op o k := by
  cases p with
  | ret a => exact absurd trivial h
  | panic => exact absurd trivial h
  | op o k => exact ⟨_, o, k, rfl⟩

/-! ## Lock discipline -/

/-- The program uses one lock in turn: `held` says whether it holds the lock now. It
acquires the lock only when it does not hold it, drops it only when it does, and
does not end while holding it. -/
def Balanced (acq rel : ∀ {δ : Type}, Op δ → Prop) : Bool → Prog Op α → Prop
  | held, ret _ => held = false
  | held, panic => held = false
  | held, op o k =>
    (acq o ∧ held = false ∧ ∀ b, (k b).Balanced acq rel true) ∨
    (¬ acq o ∧ rel o ∧ held = true ∧ ∀ b, (k b).Balanced acq rel false) ∨
    (¬ acq o ∧ ¬ rel o ∧ ∀ b, (k b).Balanced acq rel held)

variable {acq rel : ∀ {δ : Type}, Op δ → Prop}

theorem Balanced.bind {p : Prog Op α} {f : α → Prog Op β} {held : Bool}
    (hp : p.Balanced acq rel held) (hf : ∀ a, (f a).Balanced acq rel false) :
    (p.bind f).Balanced acq rel held := by
  induction p generalizing held with
  | ret a =>
    obtain rfl : held = false := hp
    exact hf a
  | panic => exact hp
  | op o k ih =>
    rcases hp with ⟨ho, hh, hk⟩ | ⟨ha, hr, hh, hk⟩ | ⟨ha, hr, hk⟩
    · exact .inl ⟨ho, hh, fun b => ih b (hk b)⟩
    · exact .inr (.inl ⟨ha, hr, hh, fun b => ih b (hk b)⟩)
    · exact .inr (.inr ⟨ha, hr, fun b => ih b (hk b)⟩)

/-- A program that never touches the lock. It is balanced wherever it runs, as long as it does not
hold the lock. -/
theorem Uses.balanced {p : Prog Op α}
    (hp : p.Uses fun o => ¬ acq o ∧ ¬ rel o) : p.Balanced acq rel false := by
  induction p with
  | ret a => rfl
  | panic => rfl
  | op o k ih => exact .inr (.inr ⟨hp.1.1, hp.1.2, fun b => ih b (hp.2 b)⟩)

/-- A guarded block whose body never touches the lock. The guard is given back on every way out,
so the block is balanced whatever its body does. -/
theorem balanced_withLock {acquire release : Op Unit} {p : Prog Op α} (ha : acq acquire)
    (hna : ¬ acq release) (hr : rel release) (hp : p.Uses fun o => ¬ acq o ∧ ¬ rel o) :
    (withLock acquire release p).Balanced acq rel false := by
  refine .inl ⟨ha, rfl, fun _ => ?_⟩
  induction p with
  | ret a => exact .inr (.inl ⟨hna, hr, rfl, fun _ => rfl⟩)
  | panic => exact .inr (.inl ⟨hna, hr, rfl, fun _ => rfl⟩)
  | op o k ih => exact .inr (.inr ⟨hp.1.1, hp.1.2, fun b => ih b (hp.2 b)⟩)

end Prog

/-- `c'` comes right after `c` in some run. -/
def Machine.After (M : Machine Op ι ε σ) [DecidableEq ι] (c' c : Pool Op ι σ α) : Prop :=
  ∃ l, M.step l c = some c'

/-- **Every run of finitely many tasks ends.** An operation may wait, but every step that is made
uses up a part of some program. -/
theorem Machine.after_wellFounded (M : Machine Op ι ε σ) [DecidableEq ι] [Finite ι] :
    WellFounded (M.After (α := α)) := by
  have hwf : WellFounded
      (Pi.Lex WellOrderingRel (fun {_ : ι} => @Prog.Rest Op α)) :=
    Pi.Lex.wellFounded _ fun _ => Prog.rest_wellFounded
  refine Subrelation.wf ?_ (InvImage.wf Pool.task hwf)
  rintro c' c ⟨l, hstep⟩
  obtain ⟨q, hfire, htask⟩ := M.step_eq_some hstep
  obtain ⟨δ, o, k, b, hop, -, rfl⟩ := M.fire_eq_some hfire
  refine ⟨l.1, fun j hj => ?_, ?_⟩
  · exact M.step_task_ne hstep fun h => irrefl (r := WellOrderingRel) _ (h ▸ hj)
  · rw [htask, Function.update_self]
    exact ⟨δ, o, k, b, hop, rfl⟩

/-! ## Deadlock -/

section Deadlock

variable [DecidableEq ι]

/-- How a machine implements one lock: `holder` reads who holds it. -/
structure Lock (M : Machine Op ι ε σ) (acq rel : ∀ {δ : Type}, Op δ → Prop)
    (holder : σ → Option ι) : Prop where
  acquire : ∀ {i δ} {o : Op δ} {e s b t}, acq o → M.exec i δ o e s = some (b, t) →
    holder s = none ∧ holder t = some i
  release : ∀ {i δ} {o : Op δ} {e s b t}, rel o → M.exec i δ o e s = some (b, t) →
    holder t = none
  other : ∀ {i δ} {o : Op δ} {e s b t}, ¬ acq o → ¬ rel o →
    M.exec i δ o e s = some (b, t) → holder t = holder s

variable {M : Machine Op ι ε σ} {acq rel : ∀ {δ : Type}, Op δ → Prop}
  {holder : σ → Option ι}

/-- Every task is balanced, and the one that is inside is the holder. -/
def LockInv (acq rel : ∀ {δ : Type}, Op δ → Prop) (holder : σ → Option ι)
    (c : Pool Op ι σ α) : Prop :=
  ∀ i, (c.task i).Balanced acq rel (decide (holder c.shared = some i))

/-- The lock is free and no task is inside. -/
theorem lockInv_init {c : Pool Op ι σ α} (hfree : holder c.shared = none)
    (hc : ∀ i, (c.task i).Balanced acq rel false) : LockInv acq rel holder c := by
  intro i
  rw [hfree]
  exact hc i

theorem LockInv.step (hlock : Lock M acq rel holder) {c c' : Pool Op ι σ α} {l : ι × ε}
    (hc : LockInv acq rel holder c) (hstep : M.step l c = some c') :
    LockInv acq rel holder c' := by
  obtain ⟨q, hfire, htask⟩ := M.step_eq_some hstep
  obtain ⟨δ, o, k, b, hop, hexec, rfl⟩ := M.fire_eq_some hfire
  have hmover := hc l.1
  rw [hop] at hmover
  intro j
  by_cases hj : j = l.1
  · subst hj
    rw [htask, Function.update_self]
    rcases hmover with ⟨ho, -, hk⟩ | ⟨-, ho, -, hk⟩ | ⟨ha, hr, hk⟩
    · rw [(hlock.acquire ho hexec).2]
      simpa using hk b
    · rw [hlock.release ho hexec]
      exact hk b
    · rw [hlock.other ha hr hexec]
      exact hk b
  · rw [M.step_task_ne hstep hj]
    have hstay := hc j
    rcases hmover with ⟨ho, -, -⟩ | ⟨-, ho, hheld, -⟩ | ⟨ha, hr, -⟩
    · obtain ⟨hs, ht⟩ := hlock.acquire ho hexec
      rw [hs] at hstay
      rw [ht]
      simpa [Ne.symm hj] using hstay
    · rw [of_decide_eq_true hheld] at hstay
      rw [hlock.release ho hexec]
      simpa [Ne.symm hj] using hstay
    · rw [hlock.other ha hr hexec]
      exact hstay

theorem LockInv.play (hlock : Lock M acq rel holder) {c c' : Pool Op ι σ α}
    {ls : List (ι × ε)} (hc : LockInv acq rel holder c) (hp : M.play ls c = some c') :
    LockInv acq rel holder c' :=
  M.play_induct (C := fun _ _ _ _ _ => True) (fun _ _ _ h _ hs => h.step hlock hs) hc
    (M.meets_true ls c) hp

/-- When every task has ended nobody holds the lock. This is what a later task may rely on. -/
theorem LockInv.free_of_ended {c : Pool Op ι σ α} (hc : LockInv acq rel holder c)
    (hend : ∀ i, (c.task i).Ended) : holder c.shared = none := by
  rcases hholder : holder c.shared with _ | j
  · rfl
  · have hj := hc j
    have hended := hend j
    rw [hholder, decide_eq_true rfl] at hj
    cases hop : c.task j with
    | ret a =>
      rw [hop] at hj
      cases hj
    | panic =>
      rw [hop] at hj
      cases hj
    | op o k =>
      rw [hop] at hended
      exact absurd hended id

/-- **No deadlock**: as long as some task has not ended, one of them is not waiting
for the lock. -/
theorem LockInv.exists_runnable {c : Pool Op ι σ α} (hc : LockInv acq rel holder c)
    (hend : ∃ i, ¬ (c.task i).Ended) :
    ∃ (i : ι) (δ : Type) (o : Op δ) (k : δ → Prog Op α), c.task i = .op o k ∧
      (acq o → holder c.shared = none) := by
  rcases hholder : holder c.shared with _ | j
  · obtain ⟨i, hi⟩ := hend
    obtain ⟨δ, o, k, hop⟩ := Prog.exists_op_of_not_ended hi
    exact ⟨i, δ, o, k, hop, fun _ => rfl⟩
  · -- the holder itself can run
    have hj := hc j
    rw [hholder, decide_eq_true rfl] at hj
    cases hop : c.task j with
    | ret a =>
      rw [hop] at hj
      cases hj
    | panic =>
      rw [hop] at hj
      cases hj
    | op o k =>
      refine ⟨j, _, o, k, hop, fun ha => ?_⟩
      rw [hop] at hj
      rcases hj with ⟨-, hheld, -⟩ | ⟨hna, -⟩ | ⟨hna, -⟩
      · cases hheld
      · exact absurd ha hna
      · exact absurd ha hna

end Deadlock

end Async
