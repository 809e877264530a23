import Mathlib

/-!
# Interruptible programs

`Prog Op α` is the syntax of one asynchronous task: a tree of atomic operations
with a leaf for every way the task can end. The operations `Op` are a family
indexed by the type of their answer, so a program is a free monad over them and
reads like the code it stands for. Nothing here says what an operation does:
that is a `Machine`, one module up.

A task ends by returning (`ret`) or by panicking (`panic`). A panic unwinds: it
skips every continuation, but `andFinally` still runs its last operation, which is
how a guard is dropped.
-/

namespace Async

universe u v

/-- A task: return, panic, or one atomic operation and a continuation for its
answer. -/
inductive Prog (Op : Type → Type u) (α : Type) : Type (max 1 u) where
  /-- the task returns -/
  | ret : α → Prog Op α
  /-- the task panics -/
  | panic : Prog Op α
  /-- one atomic operation, then the rest -/
  | op {β : Type} : Op β → (β → Prog Op α) → Prog Op α

/-- How a task that has ended did so. A panic has no value: whatever the task held is dropped, and
what it has done to the shared state stays done. -/
inductive Outcome (α : Type) : Type where
  /-- it returned -/
  | done : α → Outcome α
  /-- it panicked -/
  | panicked : Outcome α
  deriving DecidableEq

namespace Prog

variable {Op : Type → Type u} {Op' : Type → Type v} {α β γ : Type}

/-- Graft a continuation onto every `ret` leaf; a panic has no continuation. -/
protected def bind : Prog Op α → (α → Prog Op β) → Prog Op β
  | ret a, f => f a
  | panic, _ => panic
  | op o k, f => op o fun b => (k b).bind f

instance : Monad (Prog Op) where
  pure := ret
  bind := Prog.bind

@[simp] theorem pure_eq (a : α) : (pure a : Prog Op α) = ret a := rfl

@[simp] theorem bind_eq (p : Prog Op α) (f : α → Prog Op β) : p >>= f = p.bind f := rfl

@[simp] theorem ret_bind (a : α) (f : α → Prog Op β) : (ret a).bind f = f a := rfl

@[simp] theorem panic_bind (f : α → Prog Op β) : (panic : Prog Op α).bind f = panic := rfl

@[simp] theorem op_bind {δ : Type} (o : Op δ) (k : δ → Prog Op α) (f : α → Prog Op β) :
    (op o k).bind f = op o fun b => (k b).bind f := rfl

theorem bind_assoc (p : Prog Op α) (f : α → Prog Op β) (g : β → Prog Op γ) :
    (p.bind f).bind g = p.bind fun a => (f a).bind g := by
  induction p with
  | ret a => rfl
  | panic => rfl
  | op o k ih => exact congrArg (op o) (funext ih)

/-- A single operation as a task. -/
def perform (o : Op α) : Prog Op α := op o ret

@[simp] theorem perform_bind (o : Op α) (f : α → Prog Op β) :
    (perform o).bind f = op o f := rfl

/-- Run `fin` last, whether the task returns or panics. This is the scope of a guard: `fin` gives
the lock back on every way out, so that no `?` and no panic can leave it held. -/
def andFinally (fin : Op Unit) : Prog Op α → Prog Op α
  | ret a => op fin fun _ => ret a
  | panic => op fin fun _ => panic
  | op o k => op o fun b => (k b).andFinally fin

/-- Hold a lock for the length of `body`: acquire it, and drop the guard on every
way out. -/
def withLock (acquire release : Op Unit) (body : Prog Op α) : Prog Op α :=
  op acquire fun _ => body.andFinally release

/-- Replace every operation by a program over other operations. Where an interface treats as one
step what is itself a program, this puts the program in its place, and the answer of the operation
is what the program returns. -/
def interp (h : ∀ {δ : Type}, Op δ → Prog Op' δ) : Prog Op α → Prog Op' α
  | ret a => ret a
  | panic => panic
  | op o k => (h o).bind fun b => (k b).interp h

/-- A sequence is replaced part by part. -/
theorem interp_bind (h : ∀ {δ : Type}, Op δ → Prog Op' δ) (p : Prog Op α) (f : α → Prog Op β) :
    (p.bind f).interp h = (p.interp h).bind fun a => (f a).interp h := by
  induction p with
  | ret a => rfl
  | panic => rfl
  | op o k ih =>
    rw [op_bind, interp, interp, bind_assoc]
    exact congrArg (Prog.bind (h o)) (funext ih)

/-- Replace every operation by one operation of a larger family. Nothing is added and nothing
split, so the lifted program takes as many steps as the program. -/
def lift (h : ∀ {δ : Type}, Op δ → Op' δ) : Prog Op α → Prog Op' α
  | ret a => ret a
  | panic => panic
  | op o k => op (h o) fun b => (k b).lift h

/-- A sequence is lifted part by part. -/
theorem lift_bind (h : ∀ {δ : Type}, Op δ → Op' δ) (p : Prog Op α) (f : α → Prog Op β) :
    (p.bind f).lift h = (p.lift h).bind fun a => (f a).lift h := by
  induction p with
  | ret a => rfl
  | panic => rfl
  | op o k ih => exact congrArg (op (h o)) (funext ih)

/-- What a task has returned. -/
def result : Prog Op α → Option α
  | ret a => some a
  | _ => none

theorem result_eq_some {p : Prog Op α} {a : α} : p.result = some a ↔ p = ret a := by
  cases p <;> simp [result]

/-- Every operation the program can perform satisfies `A`. This is about the text of the program
and not about its runs: every answer is considered, also those that no machine ever gives. -/
def Uses (A : ∀ {δ : Type}, Op δ → Prop) : Prog Op α → Prop
  | ret _ => True
  | panic => True
  | op o k => A o ∧ ∀ b, (k b).Uses A

variable {A : ∀ {δ : Type}, Op δ → Prop}

theorem Uses.bind {p : Prog Op α} {f : α → Prog Op β} (hp : p.Uses A)
    (hf : ∀ a, (f a).Uses A) : (p.bind f).Uses A := by
  induction p with
  | ret a => exact hf a
  | panic => trivial
  | op o k ih => exact ⟨hp.1, fun b => ih b (hp.2 b)⟩

theorem Uses.andFinally {fin : Op Unit} {p : Prog Op α} (hp : p.Uses A) (hfin : A fin) :
    (p.andFinally fin).Uses A := by
  induction p with
  | ret a => exact ⟨hfin, fun _ => trivial⟩
  | panic => exact ⟨hfin, fun _ => trivial⟩
  | op o k ih => exact ⟨hp.1, fun b => ih b (hp.2 b)⟩

theorem Uses.mono {B : ∀ {δ : Type}, Op δ → Prop} (hAB : ∀ {δ : Type} (o : Op δ), A o → B o)
    {p : Prog Op α} (hp : p.Uses A) : p.Uses B := by
  induction p with
  | ret a => trivial
  | panic => trivial
  | op o k ih => exact ⟨hAB o hp.1, fun b => ih b (hp.2 b)⟩

/-- A lifted program performs the lifted operations. -/
theorem Uses.lift {h : ∀ {δ : Type}, Op δ → Op' δ} {B : ∀ {δ : Type}, Op' δ → Prop}
    {p : Prog Op α} (hp : p.Uses fun o => B (h o)) : (p.lift h).Uses B := by
  induction p with
  | ret a => trivial
  | panic => trivial
  | op o k ih => exact ⟨hp.1, fun b => ih b (hp.2 b)⟩

/-- Whatever a program does, lifting it only performs lifted operations. So a property of all
lifted operations needs no walk through the program. -/
theorem uses_lift {h : ∀ {δ : Type}, Op δ → Op' δ} {B : ∀ {δ : Type}, Op' δ → Prop}
    (hB : ∀ {δ : Type} (o : Op δ), B (h o)) (p : Prog Op α) : (p.lift h).Uses B := by
  induction p with
  | ret a => trivial
  | panic => trivial
  | op o k ih => exact ⟨hB o, ih⟩

end Prog

end Async
