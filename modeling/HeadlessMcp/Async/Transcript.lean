import HeadlessMcp.Async.History

/-!
# Transcripts

A transcript is what one task does from its start to its end: the operations in their order, each
with its answer. `Prog.Performs` says which transcripts a program has, whatever the answers are.
In every run of every machine, a task that has ended has left a transcript of its program in the
history (`performs_of_play`). So what holds of the transcripts of a program holds of all its
runs, next to any other tasks.
-/

namespace Async

universe u v w

/-- An operation with its answer. -/
structure Turn (Op : Type → Type u) : Type (max 1 u) where
  {answerType : Type}
  op : Op answerType
  answer : answerType

/-- The turn as one of a larger interface. -/
def Turn.lift {Op : Type → Type u} {Op' : Type → Type v} (h : ∀ {δ : Type}, Op δ → Op' δ)
    (a : Turn Op) : Turn Op' :=
  ⟨h a.op, a.answer⟩

namespace Prog

variable {Op : Type → Type u} {α β : Type}

/-- The program does this, and ends so. -/
def Performs : Prog Op α → List (Turn Op) → Outcome α → Prop
  | ret a, l, x => l = [] ∧ x = .done a
  | panic, l, x => l = [] ∧ x = .panicked
  | op o k, l, x => ∃ b rest, l = ⟨o, b⟩ :: rest ∧ (k b).Performs rest x

variable {p : Prog Op α} {f : α → Prog Op β} {l : List (Turn Op)}

/-- A sequence is performed in two parts, unless the first one panics. -/
theorem Performs.of_bind {x : Outcome β} (h : (p.bind f).Performs l x) :
    (∃ first a rest, l = first ++ rest ∧ p.Performs first (.done a) ∧ (f a).Performs rest x) ∨
      x = .panicked ∧ p.Performs l .panicked := by
  induction p generalizing l with
  | ret a => exact .inl ⟨[], a, l, rfl, ⟨rfl, rfl⟩, h⟩
  | panic => exact .inr ⟨h.2, h.1, rfl⟩
  | op o k ih =>
    obtain ⟨b, l, rfl, h⟩ := h
    rcases ih b h with ⟨first, a, rest, rfl, hfirst, hrest⟩ | ⟨rfl, hpanic⟩
    · exact .inl ⟨⟨o, b⟩ :: first, a, rest, rfl, ⟨b, first, rfl, hfirst⟩, hrest⟩
    · exact .inr ⟨rfl, b, l, rfl, hpanic⟩

/-- A sequence that returns is performed in two parts. -/
theorem Performs.of_bind_done {b : β} (h : (p.bind f).Performs l (.done b)) :
    ∃ first a rest, l = first ++ rest ∧ p.Performs first (.done a) ∧
      (f a).Performs rest (.done b) := by
  rcases h.of_bind with h | ⟨hpanic, -⟩
  · exact h
  · cases hpanic

/-- A lifted program does what the program does. -/
theorem Performs.of_lift {Op' : Type → Type v} {h : ∀ {δ : Type}, Op δ → Op' δ}
    {l : List (Turn Op')} {x : Outcome α} (hp : (p.lift h).Performs l x) :
    ∃ l', l = l'.map (Turn.lift h) ∧ p.Performs l' x := by
  induction p generalizing l with
  | ret a =>
    obtain ⟨rfl, rfl⟩ := hp
    exact ⟨[], rfl, rfl, rfl⟩
  | panic =>
    obtain ⟨rfl, rfl⟩ := hp
    exact ⟨[], rfl, rfl, rfl⟩
  | op o k ih =>
    obtain ⟨b, l, rfl, hp⟩ := hp
    obtain ⟨l', rfl, hl'⟩ := ih b hp
    exact ⟨⟨o, b⟩ :: l', rfl, b, l', rfl, hl'⟩

/-- Every operation of a transcript is one that the program uses. -/
theorem Performs.uses {A : ∀ {δ : Type}, Op δ → Prop} {x : Outcome α} (h : p.Performs l x)
    (hp : p.Uses A) : ∀ a ∈ l, A a.op := by
  induction p generalizing l with
  | ret a =>
    rw [h.1]
    nofun
  | panic =>
    rw [h.1]
    nofun
  | op o k ih =>
    obtain ⟨b, l, rfl, h⟩ := h
    intro a ha
    rcases List.mem_cons.mp ha with rfl | ha
    · exact hp.1
    · exact ih b h (hp.2 b) a ha

end Prog

/-! ## Alone -/

section Alone

variable {Op : Type → Type u} {ι ε α σ : Type} {M : Machine Op ι ε σ} {i : ι}

/-- A task that runs alone ends as one of its transcripts does, and keeps what its operations
keep. -/
theorem Machine.wp_of_performs {A : ∀ {δ : Type}, Op δ → Prop} {J : σ → Prop}
    {R : Outcome α → Prop} {p : Prog Op α} (hp : p.Uses A)
    (hR : ∀ l x, p.Performs l x → R x)
    (hstep : ∀ (δ : Type) (o : Op δ) e s b t, A o → J s → M.exec i δ o e s = some (b, t) → J t)
    {s : σ} (hs : J s) : M.wp i p (fun x t => R x ∧ J t) s := by
  induction p generalizing s with
  | ret a => exact ⟨hR [] _ ⟨rfl, rfl⟩, hs⟩
  | panic => exact ⟨hR [] _ ⟨rfl, rfl⟩, hs⟩
  | op o k ih =>
    intro e b t he
    refine ih b (hp.2 b) (fun l x h => hR (⟨o, b⟩ :: l) x ⟨b, l, rfl, h⟩) ?_
    exact hstep _ o e s b t hp.1 hs he

end Alone

/-! ## Runs -/

section Runs

variable {Op : Type → Type u} {ι ε α : Type} {σ : Type w} [DecidableEq ι]

/-- What one task has done, oldest first. -/
def transcript (i : ι) : List (Performed Op ι) → List (Turn Op)
  | [] => []
  | p :: l => if p.caller = i then transcript i l ++ [⟨p.op, p.answer⟩] else transcript i l

namespace Machine

variable {M : Machine Op ι ε σ} {c c' : Pool Op ι (Recorded Op ι σ) α}

/-- What a task still does continues what it has done. -/
theorem performs_step {start : ι → Prog Op α} {l : ι × ε}
    (h : ∀ i rest x, (c.task i).Performs rest x →
      (start i).Performs (transcript i c.shared.log ++ rest) x)
    (hstep : M.recorded.step l c = some c') :
    ∀ i rest x, (c'.task i).Performs rest x →
      (start i).Performs (transcript i c'.shared.log ++ rest) x := by
  obtain ⟨q, hfire, htask⟩ := M.recorded.step_eq_some hstep
  obtain ⟨δ, o, k, b, hop, hexec, rfl⟩ := M.recorded.fire_eq_some hfire
  obtain ⟨-, hlog⟩ := Machine.recorded_exec hexec
  intro i rest x hrest
  rw [hlog, transcript]
  by_cases hi : i = l.1
  · subst hi
    rw [htask, Function.update_self] at hrest
    rw [if_pos rfl, List.append_assoc]
    refine h _ _ x ?_
    rw [hop]
    exact ⟨b, rest, rfl, hrest⟩
  · rw [M.recorded.step_task_ne hstep hi] at hrest
    rw [if_neg (Ne.symm hi)]
    exact h i rest x hrest

/-- **A task that has returned has left a transcript of its program**, in every run and next to
any other tasks. -/
theorem performs_of_play {start : ι → Prog Op α} {s : σ} {ls : List (ι × ε)}
    (hp : M.recorded.play ls ⟨⟨s, []⟩, start⟩ = some c) {i : ι} {a : α} (hend : c.task i = .ret a) :
    (start i).Performs (transcript i c.shared.log) (.done a) := by
  have hcontinues := play_induct M.recorded (C := fun _ _ _ _ _ => True)
    (P := fun c => ∀ i rest x, (c.task i).Performs rest x →
      (start i).Performs (transcript i c.shared.log ++ rest) x)
    (fun _ _ _ h _ hstep => performs_step h hstep) (fun _ _ _ h => h) (meets_true _ _ _) hp
  have h := hcontinues i [] (.done a) (by rw [hend]; exact ⟨rfl, rfl⟩)
  rw [List.append_nil] at h
  exact h

end Machine

end Runs

end Async
