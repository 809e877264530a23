import HeadlessMcp.Async.History

/-!
# Ledgers

A `Ledger` follows one task: it has a state that every operation of the task moves on, and it
says which operations are in order in which state. `Prog.Keeps` says that a program only does
what is in order, whatever the answers are; it is defined by recursion on the program, so a
proof of it walks through the code. It is about one task alone and asks nothing of the others:
`Ledger.Holds.step` carries it to the history
of every run.
-/

namespace Async

universe u w

/-- The state of one task's operations, and which of them are in order. -/
structure Ledger (Op : Type → Type u) (τ : Type) : Type (max 1 u) where
  /-- what an operation and its answer make of the state -/
  next : {β : Type} → Op β → β → τ → τ
  /-- what may be done in a state -/
  inOrder : {β : Type} → Op β → τ → Prop

variable {Op : Type → Type u} {ι ε α β τ : Type} {σ : Type w} (L : Ledger Op τ)

/-- The program does what is in order, and ends in a state with `Q`. -/
def Prog.Keeps : Prog Op α → (α → τ → Prop) → τ → Prop
  | .ret a, Q, t => Q a t
  | .panic, _, _ => True
  | .op o k, Q, t => L.inOrder o t ∧ ∀ b, (k b).Keeps Q (L.next o b t)

namespace Prog

variable {L} {p : Prog Op α} {Q Q' : α → τ → Prop} {t : τ}

theorem Keeps.mono (h : p.Keeps L Q t) (hQ : ∀ a u, Q a u → Q' a u) : p.Keeps L Q' t := by
  induction p generalizing t with
  | ret a => exact hQ a t h
  | panic => trivial
  | op o k ih => exact ⟨h.1, fun b => ih b (h.2 b)⟩

theorem Keeps.bind {f : α → Prog Op β} {Q : β → τ → Prop}
    (h : p.Keeps L (fun a u => (f a).Keeps L Q u) t) : (p.bind f).Keeps L Q t := by
  induction p generalizing t with
  | ret a => exact h
  | panic => trivial
  | op o k ih => exact ⟨h.1, fun b => ih b (h.2 b)⟩

theorem Keeps.andFinally {fin : Op Unit}
    (h : p.Keeps L (fun a u => ∀ b, Q a (L.next fin b u)) t) (hfin : ∀ u, L.inOrder fin u) :
    (p.andFinally fin).Keeps L Q t := by
  induction p generalizing t with
  | ret a => exact ⟨hfin t, h⟩
  | panic => exact ⟨hfin t, fun _ => trivial⟩
  | op o k ih => exact ⟨h.1, fun b => ih b (h.2 b)⟩

/-- The frame rule: a program whose operations are always in order and keep `J` keeps it. -/
theorem Keeps.of_uses {A : ∀ {δ : Type}, Op δ → Prop} {J : τ → Prop}
    (hA : ∀ {δ : Type} (o : Op δ) u, A o → J u → L.inOrder o u ∧ ∀ b, J (L.next o b u))
    (hp : p.Uses A) (ht : J t) : p.Keeps L (fun _ u => J u) t := by
  induction p generalizing t with
  | ret a => exact ht
  | panic => trivial
  | op o k ih =>
    obtain ⟨horder, hnext⟩ := hA o t hp.1 ht
    exact ⟨horder, fun b => ih b (hp.2 b) (hnext b)⟩

end Prog

section Histories

variable [DecidableEq ι] (start : τ)

/-- The state of a task after a history. The operations of other tasks do not move it. -/
def Ledger.after (i : ι) : List (Performed Op ι) → τ
  | [] => start
  | p :: l => if p.caller = i then L.next p.op p.answer (after i l) else after i l

/-- Every operation of a history was in order. -/
def Ledger.Kept : List (Performed Op ι) → Prop
  | [] => True
  | p :: l => L.inOrder p.op (L.after start p.caller l) ∧ Kept l

variable {L start}

theorem Ledger.after_other {i j : ι} {o : Op β} {b : β} {l : List (Performed Op ι)} (h : i ≠ j) :
    L.after start j (⟨i, o, b⟩ :: l) = L.after start j l := if_neg h

theorem Ledger.after_own {i : ι} {o : Op β} {b : β} {l : List (Performed Op ι)} :
    L.after start i (⟨i, o, b⟩ :: l) = L.next o b (L.after start i l) := if_pos rfl

variable {M : Machine Op ι ε σ} {Q : α → τ → Prop} {c c' : Pool Op ι (Recorded Op ι σ) α}

/-- What holds of a pool of such tasks. What has been done was in order, and what is left to do is
in order after it. -/
structure Ledger.Holds (L : Ledger Op τ) (start : τ) (Q : α → τ → Prop)
    (c : Pool Op ι (Recorded Op ι σ) α) : Prop where
  /-- every task does what is in order from here on -/
  keeps : ∀ i, (c.task i).Keeps L Q (L.after start i c.shared.log)
  /-- everything so far was in order -/
  kept : L.Kept start c.shared.log

/-- A task that does what is in order goes on doing it. -/
theorem Ledger.keeps_step {l : ι × ε} {i : ι}
    (h : (c.task i).Keeps L Q (L.after start i c.shared.log))
    (hstep : M.recorded.step l c = some c') :
    (c'.task i).Keeps L Q (L.after start i c'.shared.log) := by
  obtain ⟨q, hfire, htask⟩ := M.recorded.step_eq_some hstep
  obtain ⟨δ, o, k, b, hop, hexec, rfl⟩ := M.recorded.fire_eq_some hfire
  obtain ⟨-, hlog⟩ := Machine.recorded_exec hexec
  rw [hlog]
  by_cases hi : i = l.1
  · subst hi
    have hkeeps : (Prog.op o k).Keeps L Q (L.after start l.1 c.shared.log) := hop ▸ h
    rw [htask, Function.update_self, after_own]
    exact hkeeps.2 b
  · rw [M.recorded.step_task_ne hstep hi, after_other (Ne.symm hi)]
    exact h

theorem Ledger.keeps_play {ls : List (ι × ε)} {i : ι}
    (h : (c.task i).Keeps L Q (L.after start i c.shared.log))
    (hplay : M.recorded.play ls c = some c') :
    (c'.task i).Keeps L Q (L.after start i c'.shared.log) :=
  M.recorded.play_induct (C := fun _ _ _ _ _ => True)
    (P := fun c => (c.task i).Keeps L Q (L.after start i c.shared.log))
    (fun _ _ _ hc _ hstep => Ledger.keeps_step hc hstep) h (M.recorded.meets_true ls c) hplay

/-- A task that has done nothing is where it started. -/
theorem Ledger.after_absent {i : ι} {l : List (Performed Op ι)} (h : ∀ p ∈ l, p.caller ≠ i) :
    L.after start i l = start := by
  induction l with
  | nil => rfl
  | cons p l ih =>
    obtain ⟨hp, hl⟩ := List.forall_mem_cons.mp h
    rw [after, if_neg hp]
    exact ih hl

/-- A step of the pool is in order. -/
theorem Ledger.Holds.step {l : ι × ε} (h : L.Holds start Q c)
    (hstep : M.recorded.step l c = some c') : L.Holds start Q c' := by
  refine ⟨fun i => Ledger.keeps_step (h.keeps i) hstep, ?_⟩
  obtain ⟨q, hfire, -⟩ := M.recorded.step_eq_some hstep
  obtain ⟨δ, o, k, b, hop, hexec, rfl⟩ := M.recorded.fire_eq_some hfire
  obtain ⟨-, hlog⟩ := Machine.recorded_exec hexec
  have hkeeps : (Prog.op o k).Keeps L Q (L.after start l.1 c.shared.log) := hop ▸ h.keeps l.1
  rw [hlog]
  exact ⟨hkeeps.1, h.kept⟩

/-- **Every operation of a run was in order** when it was performed, where every task starts in a
state of its own. -/
theorem Ledger.play_inOrder {start : ι → τ} {Q : ι → α → τ → Prop} {ls : List (ι × ε)}
    (hlog : c.shared.log = []) (hkeeps : ∀ i, (c.task i).Keeps L (Q i) (start i))
    (hplay : M.recorded.play ls c = some c') :
    (∀ i, (c'.task i).Keeps L (Q i) (L.after (start i) i c'.shared.log)) ∧
      ∀ newer p older, c'.shared.log = newer ++ p :: older →
        L.inOrder p.op (L.after (start p.caller) p.caller older) := by
  refine M.recorded.play_induct (C := fun _ _ _ _ _ => True)
    (P := fun c => (∀ i, (c.task i).Keeps L (Q i) (L.after (start i) i c.shared.log)) ∧
      ∀ newer p older, c.shared.log = newer ++ p :: older →
        L.inOrder p.op (L.after (start p.caller) p.caller older))
    (fun l c₁ c₂ hc _ hstep => ?_) ⟨fun i => ?_, fun newer p older h => ?_⟩
    (M.recorded.meets_true ls c) hplay
  · refine ⟨fun i => Ledger.keeps_step (hc.1 i) hstep, fun newer p older hsplit => ?_⟩
    obtain ⟨q, hfire, -⟩ := M.recorded.step_eq_some hstep
    obtain ⟨δ, o, k, b, hop, hexec, rfl⟩ := M.recorded.fire_eq_some hfire
    obtain ⟨-, hnew⟩ := Machine.recorded_exec hexec
    rw [hnew] at hsplit
    rcases newer with _ | ⟨p', newer⟩
    · obtain ⟨rfl, rfl⟩ := List.cons.inj hsplit
      have hkept : (Prog.op o k).Keeps L (Q l.1) _ := hop ▸ hc.1 l.1
      exact hkept.1
    · exact hc.2 newer p older (List.cons.inj hsplit).2
  · rw [hlog]
    exact hkeeps i
  · rw [hlog] at h
    exact absurd h.symm (by simp)

end Histories

end Async
