import HeadlessMcp.Async.Ledger
import HeadlessMcp.Async.Transcript

/-!
# What a program returns

`p.Returns R`: whatever its operations are answered, the program returns only what meets `R`. It
is defined by recursion on the program and says nothing about the state, so it holds of every
run. `Keeps.of_returns` joins it to what the operations do to a ledger.
-/

namespace Async

universe u v

namespace Prog

variable {Op : Type → Type u} {α β τ : Type} {p : Prog Op α} {f : α → Prog Op β} {R R' : α → Prop}
  {S : β → Prop}

/-- The program returns only what meets `R`. A panic returns nothing. -/
def Returns (R : α → Prop) : Prog Op α → Prop
  | ret a => R a
  | panic => True
  | op _ k => ∀ b, (k b).Returns R

/-- Nothing is said about the result. -/
theorem returns_any (p : Prog Op α) : p.Returns fun _ => True := by
  induction p with
  | ret a => trivial
  | panic => trivial
  | op o k ih => exact ih

theorem Returns.mono (h : p.Returns R) (hR : ∀ a, R a → R' a) : p.Returns R' := by
  induction p with
  | ret a => exact hR a h
  | panic => trivial
  | op o k ih => exact fun b => ih b (h b)

theorem Returns.bind (h : p.Returns R) (hf : ∀ a, R a → (f a).Returns S) :
    (p.bind f).Returns S := by
  induction p with
  | ret a => exact hf a h
  | panic => trivial
  | op o k ih => exact fun b => ih b (h b)

/-- A sequence returns what its second part returns. -/
theorem returns_bind (hf : ∀ a, (f a).Returns S) : (p.bind f).Returns S :=
  (returns_any p).bind fun a _ => hf a

/-- A lifted program returns what the program returns. -/
theorem Returns.lift {Op' : Type → Type v} (g : ∀ {δ : Type}, Op δ → Op' δ) (h : p.Returns R) :
    (p.lift g).Returns R := by
  induction p with
  | ret a => exact h
  | panic => trivial
  | op o k ih => exact fun b => ih b (h b)

/-- A program whose operations are in order and keep `J` ends in `J`, with a result that it
returns. -/
theorem Keeps.of_returns {L : Ledger Op τ} {A : ∀ {δ : Type}, Op δ → Prop} {J : τ → Prop} {t : τ}
    (hA : ∀ {δ : Type} (o : Op δ) u, A o → J u → L.inOrder o u ∧ ∀ b, J (L.next o b u))
    (hp : p.Uses A) (hR : p.Returns R) (ht : J t) : p.Keeps L (fun a u => R a ∧ J u) t := by
  induction p generalizing t with
  | ret a => exact ⟨hR, ht⟩
  | panic => trivial
  | op o k ih =>
    obtain ⟨horder, hnext⟩ := hA o t hp.1 ht
    exact ⟨horder, fun b => ih b (hp.2 b) (hR b) (hnext b)⟩

end Prog

end Async
