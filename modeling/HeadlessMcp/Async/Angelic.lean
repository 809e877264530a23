import HeadlessMcp.Async.History

/-!
# What a task can do

`wp` is about every choice of the environment. Here the environment helps: `can i G p Q s` says
that it has choices with which task `i` performs an operation of the kind `G`, or else ends in
`Q`. It is computed by the program and commutes with sequencing and with dropped guards, like
`wp`; with a `Q` that never holds it yields a run of a pool in which such an operation has been
performed (`exists_play_of_can`).
-/

namespace Async

universe u v w

variable {Op : Type → Type u} {ι ε α β : Type} {σ : Type w}

namespace Machine

variable (M : Machine Op ι ε σ)

/-- With the right choices, the task performs an operation of the kind, or else ends in `Q`. -/
def can (i : ι) (G : ∀ {δ : Type}, Op δ → Prop) : Prog Op α → (α → σ → Prop) → σ → Prop
  | .ret a, Q, s => Q a s
  | .panic, _, _ => False
  | .op (β := δ) o k, Q, s => ∃ e b t, M.exec i δ o e s = some (b, t) ∧ (G o ∨ can i G (k b) Q t)

variable {M} {i : ι} {G : ∀ {δ : Type}, Op δ → Prop} {p : Prog Op α} {Q Q' : α → σ → Prop} {s : σ}

@[simp] theorem can_ret {a : α} : M.can i G (.ret a) Q s ↔ Q a s := Iff.rfl

/-- An operation that can be answered so. -/
theorem can_op {δ : Type} {o : Op δ} {k : δ → Prog Op α} {b : δ} {t : σ} (e : ε)
    (hexec : M.exec i δ o e s = some (b, t)) (h : M.can i G (k b) Q t) :
    M.can i G (.op o k) Q s :=
  ⟨e, b, t, hexec, .inr h⟩

/-- An operation of the kind that can be performed. -/
theorem can_here {δ : Type} {o : Op δ} {k : δ → Prog Op α} {r : δ × σ} (e : ε)
    (hexec : M.exec i δ o e s = some r) (h : G o) : M.can i G (.op o k) Q s :=
  ⟨e, r.1, r.2, hexec, .inl h⟩

theorem can_mono (h : M.can i G p Q s) (hQ : ∀ a t, Q a t → Q' a t) : M.can i G p Q' s := by
  induction p generalizing s with
  | ret a => exact hQ a s h
  | panic => exact h
  | op o k ih =>
    obtain ⟨e, b, t, hexec, hnext⟩ := h
    exact ⟨e, b, t, hexec, hnext.imp_right (ih b)⟩

/-- A sequence goes on where its first part ends. -/
theorem can_bind {f : α → Prog Op β} {R : β → σ → Prop}
    (h : M.can i G p (fun a t => M.can i G (f a) R t) s) : M.can i G (p.bind f) R s := by
  induction p generalizing s with
  | ret a => exact h
  | panic => exact h.elim
  | op o k ih =>
    obtain ⟨e, b, t, hexec, hnext⟩ := h
    exact ⟨e, b, t, hexec, hnext.imp_right (ih b)⟩

/-- A guard is dropped at the end. -/
theorem can_andFinally {fin : Op Unit}
    (h : M.can i G p (fun a t => ∃ e u, M.exec i Unit fin e t = some ((), u) ∧ Q a u) s) :
    M.can i G (p.andFinally fin) Q s := by
  induction p generalizing s with
  | ret a =>
    obtain ⟨e, u, hexec, hQ⟩ := h
    exact ⟨e, (), u, hexec, .inr hQ⟩
  | panic => exact h.elim
  | op o k ih =>
    obtain ⟨e, b, t, hexec, hnext⟩ := h
    exact ⟨e, b, t, hexec, hnext.imp_right (ih b)⟩

/-- What can be done on a part of the state, whose choices are some of the environment's. -/
theorem can_lift {Op' : Type → Type v} {ε' σ' : Type} {M' : Machine Op' ι ε' σ'}
    (h : ∀ {δ : Type}, Op δ → Op' δ) (get : σ' → σ) (put : σ → σ' → σ') (choose : ε → ε')
    {G' : ∀ {δ : Type}, Op' δ → Prop} (hG : ∀ {δ : Type} (o : Op δ), G o → G' (h o))
    (hexec : ∀ (δ : Type) (o : Op δ) e s, M'.exec i δ (h o) (choose e) s =
      (M.exec i δ o e (get s)).map fun r => (r.1, put r.2 s))
    (hget : ∀ s t, get (put t s) = t) {R : α → σ' → Prop} {s : σ'}
    (hp : M.can i G p (fun a t => ∀ s', get s' = t → R a s') (get s)) :
    M'.can i G' (p.lift h) R s := by
  induction p generalizing s with
  | ret a => exact hp s rfl
  | panic => exact hp
  | op o k ih =>
    obtain ⟨e, b, t, hstep, hnext⟩ := hp
    refine ⟨choose e, b, put t s, by rw [hexec, hstep]; rfl, hnext.imp (hG o) fun h => ih b ?_⟩
    rwa [hget]

/-- **What a task can do is done in a run of every pool with that task**: the others wait. -/
theorem exists_play_of_can [DecidableEq ι] {c : Pool Op ι (Recorded Op ι σ) α}
    (h : M.can i G (c.task i) (fun _ _ => False) c.shared.state) :
    ∃ ls c', M.recorded.play ls c = some c' ∧ ∃ p ∈ c'.shared.log, p.caller = i ∧ G p.op := by
  generalize hp : c.task i = p at h
  induction p generalizing c with
  | ret a => exact h.elim
  | panic => exact h.elim
  | op o k ih =>
    obtain ⟨e, b, t, hexec, hnext⟩ := h
    have hstep : M.recorded.step (i, e) c = some ⟨⟨t, ⟨i, o, b⟩ :: c.shared.log⟩,
        Function.update c.task i (k b)⟩ := by
      simp only [step, hp, fire, recorded, hexec, Option.map_some]
    rcases hnext with hG | hnext
    · refine ⟨[(i, e)], ⟨⟨t, ⟨i, o, b⟩ :: c.shared.log⟩, Function.update c.task i (k b)⟩, ?_,
        ⟨i, o, b⟩, List.mem_cons_self, rfl, hG⟩
      rw [play_cons, hstep]
      rfl
    · obtain ⟨ls, c', hplay, hlog⟩ := ih b
        (c := ⟨⟨t, ⟨i, o, b⟩ :: c.shared.log⟩, Function.update c.task i (k b)⟩)
        (Function.update_self ..) hnext
      refine ⟨(i, e) :: ls, c', ?_, hlog⟩
      rw [play_cons, hstep]
      exact hplay

end Machine

end Async
