import HeadlessMcp.Async.Solo

/-!
# Tasks that are never stuck

An operation can have to wait (`exec` yields nothing). `Unblocked i p s` says that, whatever has
happened so far, the next operation of task `i` can be performed for some choice of the
environment. A program is a well-founded tree, so such a task can always be brought to its end
(`exists_solo_of_unblocked`), from every state that it reaches.
-/

namespace Async

universe u v

variable {Op : Type → Type u} {ι ε σ α β : Type}

namespace Machine

variable (M : Machine Op ι ε σ) {i : ι}

/-- Every operation that the task reaches can be performed. The answers are those the machine can
give in the state reached, so the definition follows one task that runs alone. -/
def Unblocked (i : ι) : Prog Op α → σ → Prop
  | .ret _, _ => True
  | .panic, _ => True
  | .op (β := δ) o k, s => (∃ e r, M.exec i δ o e s = some r) ∧
      ∀ e b t, M.exec i δ o e s = some (b, t) → Unblocked i (k b) t

variable {M}

/-- A sequence is not stuck in its first part, and not in its second one from where the first
one ends. -/
theorem unblocked_bind {p : Prog Op α} {f : α → Prog Op β} {s : σ} (hp : M.Unblocked i p s)
    (hf : M.wp i p (fun x t => ∀ a, x = .done a → M.Unblocked i (f a) t) s) :
    M.Unblocked i (p.bind f) s := by
  induction p generalizing s with
  | ret a => exact hf a rfl
  | panic => trivial
  | op o k ih => exact ⟨hp.1, fun e b t he => ih b (hp.2 e b t he) (hf e b t he)⟩

/-- Operations that never wait. So a program that only performs such operations is never stuck,
however it goes on. -/
theorem unblocked_of_uses {A : ∀ {δ : Type}, Op δ → Prop} {p : Prog Op α} (hp : p.Uses A)
    (hA : ∀ (δ : Type) (o : Op δ) s, A o → ∃ e r, M.exec i δ o e s = some r) (s : σ) :
    M.Unblocked i p s := by
  induction p generalizing s with
  | ret a => trivial
  | panic => trivial
  | op o k ih => exact ⟨hA _ o s hp.1, fun e b t _ => ih b (hp.2 b) t⟩

/-- **A task that is never stuck can be brought to its end.** -/
theorem exists_solo_of_unblocked {p : Prog Op α} {s : σ} (h : M.Unblocked i p s) :
    ∃ es r, M.solo i p es s = some r := by
  induction p generalizing s with
  | ret a => exact ⟨[], _, rfl⟩
  | panic => exact ⟨[], _, rfl⟩
  | op o k ih =>
    obtain ⟨⟨e, ⟨b, t⟩, he⟩, hnext⟩ := h
    obtain ⟨es, r, hrest⟩ := ih b (hnext e b t he)
    exact ⟨e :: es, r, by rw [solo_op_cons, he]; exact hrest⟩

end Machine

end Async
