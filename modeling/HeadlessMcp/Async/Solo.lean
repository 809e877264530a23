import HeadlessMcp.Async.Machine

/-!
# A task that runs alone

The weakest precondition `wp` of one task without interference: whatever the
environment chooses, the task ends in `Q`. It is computed by the program, commutes
with sequencing and with dropped guards, and is exactly what holds of every `solo`
run.
-/

namespace Async

universe u v w

variable {Op : Type → Type u} {ι ε α β : Type} {σ : Type w}

namespace Machine

variable (M : Machine Op ι ε σ) {i : ι}

/-- Whatever the environment chooses, the task ends in `Q`. A choice for which the operation has
to wait says nothing: it has no next state. -/
def wp (i : ι) : Prog Op α → (Outcome α → σ → Prop) → σ → Prop
  | .ret a, Q, s => Q (.done a) s
  | .panic, Q, s => Q .panicked s
  | .op (β := δ) o k, Q, s => ∀ e b t, M.exec i δ o e s = some (b, t) → wp i (k b) Q t

@[simp] theorem wp_ret {a : α} {Q : Outcome α → σ → Prop} {s : σ} :
    M.wp i (.ret a) Q s ↔ Q (.done a) s := Iff.rfl

@[simp] theorem wp_panic {Q : Outcome α → σ → Prop} {s : σ} :
    M.wp i (.panic : Prog Op α) Q s ↔ Q .panicked s := Iff.rfl

theorem wp_op {δ : Type} {o : Op δ} {k : δ → Prog Op α} {Q : Outcome α → σ → Prop} {s : σ} :
    M.wp i (.op o k) Q s ↔
      ∀ e b t, M.exec i δ o e s = some (b, t) → M.wp i (k b) Q t := Iff.rfl

/-- Where a sequence ends up: the second part starts where the first one returned,
and a panic skips it. -/
def andThen (f : α → Prog Op β) (Q : Outcome β → σ → Prop) : Outcome α → σ → Prop
  | .done a, t => M.wp i (f a) Q t
  | .panicked, t => Q .panicked t

theorem wp_bind {p : Prog Op α} {f : α → Prog Op β} {Q : Outcome β → σ → Prop} {s : σ} :
    M.wp i (p.bind f) Q s ↔ M.wp i p (M.andThen (i := i) f Q) s := by
  induction p generalizing s with
  | ret a => rfl
  | panic => rfl
  | op o k ih => exact forall_congr' fun e => forall_congr' fun b => forall_congr' fun t =>
      imp_congr_right fun _ => ih b

theorem wp_andFinally {fin : Op Unit} {p : Prog Op α} {Q : Outcome α → σ → Prop} {s : σ} :
    M.wp i (p.andFinally fin) Q s ↔
      M.wp i p (fun x t => ∀ e b u, M.exec i Unit fin e t = some (b, u) → Q x u) s := by
  induction p generalizing s with
  | ret a => rfl
  | panic => rfl
  | op o k ih => exact forall_congr' fun e => forall_congr' fun b => forall_congr' fun t =>
      imp_congr_right fun _ => ih b

theorem wp_mono {p : Prog Op α} {Q Q' : Outcome α → σ → Prop} {s : σ}
    (h : M.wp i p Q s) (hQ : ∀ x t, Q x t → Q' x t) : M.wp i p Q' s := by
  induction p generalizing s with
  | ret a => exact hQ _ _ h
  | panic => exact hQ _ _ h
  | op o k ih => exact fun e b t he => ih b (h e b t he)

/-- A program whose operations keep `J` ends in `J`. The walk through the program is not needed
when every operation keeps `J`. -/
theorem wp_of_invariant {J : σ → Prop}
    (hstep : ∀ (δ : Type) (o : Op δ) e s b t, J s → M.exec i δ o e s = some (b, t) → J t)
    (p : Prog Op α) {s : σ} (hs : J s) : M.wp i p (fun _ t => J t) s := by
  induction p generalizing s with
  | ret a => exact hs
  | panic => exact hs
  | op o k ih => exact fun e b t he => ih b (hstep _ o e s b t hs he)

/-- A program that only uses operations which keep `J` ends in `J`. -/
theorem wp_of_uses {A : ∀ {δ : Type}, Op δ → Prop} {J : σ → Prop}
    (hstep : ∀ (δ : Type) (o : Op δ) e s b t, A o → J s → M.exec i δ o e s = some (b, t) → J t)
    {p : Prog Op α} (hp : p.Uses A) {s : σ} (hs : J s) : M.wp i p (fun _ t => J t) s := by
  induction p generalizing s with
  | ret a => exact hs
  | panic => exact hs
  | op o k ih => exact fun e b t he => ih b (hp.2 b) (hstep _ o e s b t hp.1 hs he)

/-- Two machines, one of which acts on a part of the other's state. -/
structure OnPart {Op' : Type → Type v} {σ' : Type} (M : Machine Op ι ε σ)
    (M' : Machine Op' ι ε σ') (h : ∀ {δ : Type}, Op δ → Op' δ) (get : σ' → σ)
    (put : σ → σ' → σ') : Prop where
  exec : ∀ i (δ : Type) (o : Op δ) e s,
    M'.exec i δ (h o) e s = (M.exec i δ o e (get s)).map fun r => (r.1, put r.2 s)
  get_put : ∀ s t, get (put t s) = t
  put_put : ∀ s t u, put u (put t s) = put u s
  put_get : ∀ s, put (get s) s = s

/-- A lifted program does on the whole state what the program does on the part. -/
theorem wp_lift {Op' : Type → Type v} {σ' : Type} {M' : Machine Op' ι ε σ'}
    {h : ∀ {δ : Type}, Op δ → Op' δ} {get : σ' → σ} {put : σ → σ' → σ'}
    (hpart : M.OnPart M' h get put) {p : Prog Op α} {Q : Outcome α → σ' → Prop} {s : σ'} :
    M'.wp i (p.lift h) Q s ↔ M.wp i p (fun x t => Q x (put t s)) (get s) := by
  induction p generalizing s with
  | ret a =>
    rw [Prog.lift, wp_ret, wp_ret, hpart.put_get]
  | panic =>
    rw [Prog.lift, wp_panic, wp_panic, hpart.put_get]
  | op o k ih =>
    rw [Prog.lift, wp_op, wp_op]
    constructor
    · intro hs e b t he
      have := hs e b (put t s) (by rw [hpart.exec, he]; rfl)
      rw [ih, hpart.get_put] at this
      refine M.wp_mono this fun x u hx => ?_
      rwa [hpart.put_put] at hx
    · intro hs e b t he
      rw [hpart.exec, Option.map_eq_some_iff] at he
      obtain ⟨⟨b', u⟩, he, heq⟩ := he
      obtain ⟨rfl, rfl⟩ := Prod.mk.inj heq
      rw [ih, hpart.get_put]
      refine M.wp_mono (hs e _ u he) fun x w hx => ?_
      rwa [hpart.put_put]

/-- A machine that can always perform every operation can run every program. -/
theorem exists_solo {i : ι} (htotal : ∀ (β : Type) (o : Op β) s, ∃ e r, M.exec i β o e s = some r)
    (p : Prog Op α) (s : σ) : ∃ es r, M.solo i p es s = some r := by
  induction p generalizing s with
  | ret a => exact ⟨[], _, rfl⟩
  | panic => exact ⟨[], _, rfl⟩
  | op o k ih =>
    obtain ⟨e, ⟨b, t⟩, he⟩ := htotal _ o s
    obtain ⟨es, r, hrest⟩ := ih b t
    exact ⟨e :: es, r, by rw [solo_op_cons, he]; exact hrest⟩

/-- What the weakest precondition promises holds of every run. -/
theorem wp_solo {p : Prog Op α} {Q : Outcome α → σ → Prop} {es : List ε} {s t : σ}
    {x : Outcome α} (h : M.wp i p Q s) (hr : M.solo i p es s = some (x, t)) : Q x t := by
  induction p generalizing es s with
  | ret a =>
    obtain ⟨-, heq⟩ := M.solo_ret hr
    obtain ⟨rfl, rfl⟩ := Prod.mk.inj heq
    exact h
  | panic =>
    obtain ⟨-, heq⟩ := M.solo_panic hr
    obtain ⟨rfl, rfl⟩ := Prod.mk.inj heq
    exact h
  | op o k ih =>
    obtain ⟨e, es', b, u, rfl, hexec, hrest⟩ := M.solo_op hr
    exact ih b (h e b u hexec) hrest

/-! ## An environment that keeps its promises -/

variable (C : Rule Op ι ε σ)

/-- Every step of a task that runs alone meets the condition. -/
def SoloMeets (i : ι) : Prog Op α → List ε → σ → Prop
  | .op (β := δ) o k, e :: es, s =>
    C i δ o e s ∧ ∀ b t, M.exec i δ o e s = some (b, t) → SoloMeets i (k b) es t
  | _, _, _ => True

variable {M C} in
/-- A step that meets the condition, and a rest that does. -/
theorem SoloMeets.cons {δ : Type} {o : Op δ} {k : δ → Prog Op α} {e : ε} {es : List ε} {s t : σ}
    {b : δ} (hC : C i δ o e s) (he : M.exec i δ o e s = some (b, t))
    (h : M.SoloMeets C i (k b) es t) : M.SoloMeets C i (.op o k) (e :: es) s := by
  refine ⟨hC, fun b' t' he' => ?_⟩
  obtain ⟨rfl, rfl⟩ := Prod.mk.inj (Option.some.inj (he.symm.trans he'))
  exact h

variable {M C} in
/-- A choice that meets the condition at every operation, made again and again. -/
theorem soloMeets_replicate {e : ε} (h : ∀ (δ : Type) (o : Op δ) s, C i δ o e s) (n : Nat)
    (p : Prog Op α) (s : σ) : M.SoloMeets C i p (List.replicate n e) s := by
  induction n generalizing p s with
  | zero => cases p <;> trivial
  | succ n ih =>
    cases p with
    | op o k => exact ⟨h _ o s, fun b t _ => ih (k b) t⟩
    | _ => trivial

open Classical in
/-- The machine in an environment whose choices all meet the condition. -/
noncomputable def under : Machine Op ι ε σ where
  exec i β o e s := if C i β o e s then M.exec i β o e s else none

variable {M C}

theorem under_exec {δ : Type} {o : Op δ} {e : ε} {s : σ} {r : δ × σ} :
    (M.under C).exec i δ o e s = some r ↔ C i δ o e s ∧ M.exec i δ o e s = some r := by
  by_cases h : C i δ o e s <;> simp [under, h]

/-- A run whose steps meet the condition is a run in such an environment. -/
theorem solo_under {p : Prog Op α} {es : List ε} {s : σ} {r : Outcome α × σ}
    (hC : M.SoloMeets C i p es s) (h : M.solo i p es s = some r) :
    (M.under C).solo i p es s = some r := by
  induction p generalizing es s with
  | ret a => cases es <;> exact h
  | panic => cases es <;> exact h
  | op o k ih =>
    obtain ⟨e, es', b, t, rfl, hexec, hrest⟩ := M.solo_op h
    obtain ⟨he, hC⟩ := hC
    rw [solo_op_cons, under_exec.mpr ⟨he, hexec⟩]
    exact ih b (hC b t hexec) hrest

/-- What the weakest precondition promises there holds of every such run. -/
theorem wp_under_solo {p : Prog Op α} {Q : Outcome α → σ → Prop} {es : List ε} {s t : σ}
    {x : Outcome α} (h : (M.under C).wp i p Q s) (hC : M.SoloMeets C i p es s)
    (hr : M.solo i p es s = some (x, t)) : Q x t :=
  wp_solo _ h (solo_under hC hr)

/-- A part of such an environment is one too. -/
theorem OnPart.under {Op' : Type → Type v} {σ σ' : Type} {M : Machine Op ι ε σ}
    {M' : Machine Op' ι ε σ'} {h : ∀ {δ : Type}, Op δ → Op' δ} {get : σ' → σ} {put : σ → σ' → σ'}
    (hpart : M.OnPart M' h get put) {C : Rule Op ι ε σ} {C' : Rule Op' ι ε σ'}
    (hC : ∀ i (δ : Type) (o : Op δ) e s, C' i δ (h o) e s ↔ C i δ o e (get s)) :
    (M.under C).OnPart (M'.under C') h get put where
  exec i δ o e s := by
    by_cases hrule : C i δ o e (get s) <;> simp [Machine.under, hC, hrule, hpart.exec]
  get_put := hpart.get_put
  put_put := hpart.put_put
  put_get := hpart.put_get

/-- What holds of every run holds of some run, where every operation can be performed. -/
theorem exists_solo_of_wp (htotal : ∀ (δ : Type) (o : Op δ) s, ∃ e r, M.exec i δ o e s = some r)
    {p : Prog Op α} {Q : Outcome α → σ → Prop} {s : σ} (h : M.wp i p Q s) :
    ∃ es x t, M.solo i p es s = some (x, t) ∧ Q x t := by
  obtain ⟨es, ⟨x, t⟩, hsolo⟩ := M.exists_solo htotal p s
  exact ⟨es, x, t, hsolo, M.wp_solo h hsolo⟩

/-- An operation in such an environment. -/
theorem wp_under_op {δ : Type} {o : Op δ} {k : δ → Prog Op α} {Q : Outcome α → σ → Prop} {s : σ}
    (h : ∀ e b t, C i δ o e s → M.exec i δ o e s = some (b, t) → (M.under C).wp i (k b) Q t) :
    (M.under C).wp i (.op o k) Q s := by
  intro e b t he
  obtain ⟨hC, hexec⟩ := under_exec.mp he
  exact h e b t hC hexec

end Machine

end Async
