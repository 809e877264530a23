import HeadlessMcp.Async.Ledger

/-!
# Contracts

A ledger asks nothing of the answers. A `Contract` also says which answers are admitted, and
`Prog.Fulfils` is about a task whose operations are all answered so. `Contract.Holds.step`
carries it to the history of every run; whether an answer is admitted is what a step of the
run has to show.
-/

namespace Async

universe u v w

/-- A ledger, and the answers that are admitted in a state. -/
structure Contract (Op : Type → Type u) (τ : Type) : Type (max 1 u) extends Ledger Op τ where
  /-- what an operation may be answered -/
  admits : {β : Type} → Op β → β → τ → Prop

variable {Op : Type → Type u} {Op' : Type → Type v} {ι ε α β τ : Type} {σ : Type w}
  (K : Contract Op τ)

/-- With admitted answers, the program does what is in order and ends in a state with `Q`. -/
def Prog.Fulfils : Prog Op α → (α → τ → Prop) → τ → Prop
  | .ret a, Q, t => Q a t
  | .panic, _, _ => True
  | .op o k, Q, t => K.inOrder o t ∧ ∀ b, K.admits o b t → (k b).Fulfils Q (K.next o b t)

/-- With admitted answers, the program comes to an operation of a kind, whatever they are. -/
def Prog.Reaches (A : ∀ {δ : Type}, Op δ → Prop) : Prog Op α → τ → Prop
  | .ret _, _ => False
  | .panic, _ => False
  | .op o k, t => A o ∨ ∀ b, K.admits o b t → (k b).Reaches A (K.next o b t)

/-- A contract for operations that stand for others. -/
def Contract.comap (K : Contract Op' τ) (h : ∀ {δ : Type}, Op δ → Op' δ) : Contract Op τ where
  next o := K.next (h o)
  inOrder o := K.inOrder (h o)
  admits o := K.admits (h o)

namespace Prog

variable {K} {p : Prog Op α} {Q Q' : α → τ → Prop} {t : τ}

theorem Fulfils.mono (h : p.Fulfils K Q t) (hQ : ∀ a u, Q a u → Q' a u) : p.Fulfils K Q' t := by
  induction p generalizing t with
  | ret a => exact hQ a t h
  | panic => trivial
  | op o k ih => exact ⟨h.1, fun b hb => ih b (h.2 b hb)⟩

theorem Fulfils.bind {f : α → Prog Op β} {Q : β → τ → Prop}
    (h : p.Fulfils K (fun a u => (f a).Fulfils K Q u) t) : (p.bind f).Fulfils K Q t := by
  induction p generalizing t with
  | ret a => exact h
  | panic => trivial
  | op o k ih => exact ⟨h.1, fun b hb => ih b (h.2 b hb)⟩

theorem Reaches.bind {A : ∀ {δ : Type}, Op δ → Prop} {f : α → Prog Op β}
    (h : p.Reaches K A t) : (p.bind f).Reaches K A t := by
  induction p generalizing t with
  | ret a => exact h.elim
  | panic => exact h.elim
  | op o k ih => exact h.imp id fun hk b hb => ih b (hk b hb)

theorem Fulfils.andFinally {fin : Op Unit}
    (h : p.Fulfils K (fun a u => ∀ b, Q a (K.next fin b u)) t) (hfin : ∀ u, K.inOrder fin u) :
    (p.andFinally fin).Fulfils K Q t := by
  induction p generalizing t with
  | ret a => exact ⟨hfin t, fun b _ => h b⟩
  | panic => exact ⟨hfin t, fun _ _ => trivial⟩
  | op o k ih => exact ⟨h.1, fun b hb => ih b (h.2 b hb)⟩

/-- The frame rule: a program whose operations are always in order and keep `J` keeps it. -/
theorem Fulfils.of_uses {A : ∀ {δ : Type}, Op δ → Prop} {J : τ → Prop}
    (hA : ∀ {δ : Type} (o : Op δ) u, A o → J u → K.inOrder o u ∧ ∀ b, J (K.next o b u))
    (hp : p.Uses A) (ht : J t) : p.Fulfils K (fun _ u => J u) t := by
  induction p generalizing t with
  | ret a => exact ht
  | panic => trivial
  | op o k ih =>
    obtain ⟨horder, hnext⟩ := hA o t hp.1 ht
    exact ⟨horder, fun b _ => ih b (hp.2 b) (hnext b)⟩

/-- A lifted program fulfils what the program fulfils. -/
theorem fulfils_lift {K : Contract Op' τ} {h : ∀ {δ : Type}, Op δ → Op' δ} :
    (p.lift h).Fulfils K Q t ↔ p.Fulfils (K.comap h) Q t := by
  induction p generalizing t with
  | ret a => rfl
  | panic => rfl
  | op o k ih => exact and_congr_right fun _ => forall_congr' fun b => imp_congr_right fun _ => ih b

/-- A program fulfils what every operation does, where its operations stand for programs. -/
theorem Fulfils.interp {K : Contract Op' τ} {h : ∀ {δ : Type}, Op δ → Prog Op' δ} {J : τ → Prop}
    (hop : ∀ {δ : Type} (o : Op δ) u, J u → (h o).Fulfils K (fun _ u => J u) u) (ht : J t) :
    (p.interp h).Fulfils K (fun _ u => J u) t := by
  induction p generalizing t with
  | ret a => exact ht
  | panic => trivial
  | op o k ih => exact Fulfils.bind ((hop o t ht).mono fun b u hu => ih b hu)

end Prog

section Histories

variable [DecidableEq ι] {K} {start : τ} {M : Machine Op ι ε σ} {Q : α → τ → Prop}
  {c c' : Pool Op ι (Recorded Op ι σ) α}

/-- What holds of a pool of such tasks. What has been done was in order, and so is what is left to
do as long as the answers are admitted. -/
structure Contract.Holds (K : Contract Op τ) (start : τ) (Q : α → τ → Prop)
    (c : Pool Op ι (Recorded Op ι σ) α) : Prop where
  /-- every task fulfils the contract from here on -/
  fulfils : ∀ i, (c.task i).Fulfils K Q (K.after start i c.shared.log)
  /-- everything so far was in order -/
  kept : K.Kept start c.shared.log

/-- A step of the pool whose answer is admitted is in order. -/
theorem Contract.Holds.step {l : ι × ε} (h : K.Holds start Q c)
    (hadmits : ∀ (δ : Type) (o : Op δ) (k : δ → Prog Op α) (b : δ), c.task l.1 = .op o k →
      K.inOrder o (K.after start l.1 c.shared.log) →
      M.exec l.1 δ o l.2 c.shared.state = some (b, c'.shared.state) →
      c'.shared.log = ⟨l.1, o, b⟩ :: c.shared.log →
      K.admits o b (K.after start l.1 c.shared.log))
    (hstep : M.recorded.step l c = some c') : K.Holds start Q c' := by
  obtain ⟨q, hfire, htask⟩ := M.recorded.step_eq_some hstep
  obtain ⟨δ, o, k, b, hop, hexec, rfl⟩ := M.recorded.fire_eq_some hfire
  obtain ⟨hexec, hlog⟩ := Machine.recorded_exec hexec
  have hfulfils : (Prog.op o k).Fulfils K Q (K.after start l.1 c.shared.log) :=
    hop ▸ h.fulfils l.1
  have hadmit := hadmits δ o k b hop hfulfils.1 hexec hlog
  refine ⟨fun j => ?_, ?_⟩
  · rw [hlog]
    by_cases hj : j = l.1
    · subst hj
      rw [htask, Function.update_self, Ledger.after_own]
      exact hfulfils.2 b hadmit
    · rw [M.recorded.step_task_ne hstep hj, Ledger.after_other (Ne.symm hj)]
      exact h.fulfils j
  · rw [hlog]
    exact ⟨hfulfils.1, h.kept⟩

end Histories

end Async
