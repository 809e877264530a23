import HeadlessMcp.Async.Returns

/-!
# Operations that stand for programs

An interface can treat as one operation what is a program over other operations: the caller of a
service waits for an answer, and the service does many things before it gives one. `Prog.interp`
puts the programs in the place of the operations. Here a machine `M'` for the programs refines a
machine `M` for the operations: what a task does alone on its way to an answer is invisible to
`M`, and the answer is one that `M` can give too.

Every run of the tasks with the programs in place is matched by a run of the tasks themselves
(`play_refines`), so what holds of the runs of `M` for all answers holds of `M'`.
-/

namespace Async

universe u u' w w'

variable {Op : Type → Type u} {Op' : Type → Type u'} {ι ε ε' α : Type} {σ : Type w} {σ' : Type w'}

/-! ## Several steps of one task -/

namespace Machine

variable (M : Machine Op ι ε σ)

/-- One task performs several operations. -/
def fires (i : ι) : List ε → Prog Op α → σ → Option (Prog Op α × σ)
  | [], p, s => some (p, s)
  | e :: es, p, s => (M.fire i e p s).bind fun r => fires i es r.1 r.2

/-- The steps of one task are a run of a pool. -/
theorem play_fires [DecidableEq ι] {i : ι} {es : List ε} {c : Pool Op ι σ α} {q : Prog Op α} {t : σ}
    (h : M.fires i es (c.task i) c.shared = some (q, t)) :
    M.play (turns i es) c = some ⟨t, Function.update c.task i q⟩ := by
  induction es generalizing c with
  | nil =>
    obtain ⟨rfl, rfl⟩ := Prod.mk.inj (Option.some.inj h)
    rw [Function.update_eq_self]
    rfl
  | cons e es ih =>
    obtain ⟨⟨q₁, t₁⟩, hfire, hrest⟩ := Option.bind_eq_some_iff.mp h
    have hstep : M.step (i, e) c = some ⟨t₁, Function.update c.task i q₁⟩ := by
      rw [step, hfire]
      rfl
    have hrest : M.fires i es (Function.update c.task i q₁ i) t₁ = some (q, t) := by
      rw [Function.update_self]
      exact hrest
    have hplay := ih (c := ⟨t₁, Function.update c.task i q₁⟩) hrest
    rw [Function.update_idem] at hplay
    rw [turns, List.map_cons, play_cons, hstep]
    exact hplay

/-- Along a run a task performs nothing but what its program can perform. -/
theorem uses_play [DecidableEq ι] {A : ∀ {δ : Type}, Op δ → Prop} {i : ι} {ls : List (ι × ε)}
    {c c' : Pool Op ι σ α} (h : (c.task i).Uses A) (hplay : M.play ls c = some c') :
    (c'.task i).Uses A := by
  refine M.play_induct (C := fun _ _ _ _ _ => True) (P := fun c => (c.task i).Uses A)
    (fun l c₁ c₂ hc _ hstep => ?_) h (M.meets_true ls c) hplay
  by_cases hi : i = l.1
  · obtain ⟨q, hfire, htask⟩ := M.step_eq_some hstep
    obtain ⟨δ, o, k, b, hop, -, rfl⟩ := M.fire_eq_some hfire
    rw [← hi] at hop
    rw [hop] at hc
    rw [htask, hi, Function.update_self]
    exact hc.2 b
  · rw [M.step_task_ne hstep hi]
    exact hc

end Machine

/-! ## Interfaces -/

section Refinement

variable (M : Machine Op ι ε σ) (M' : Machine Op' ι ε' σ') (h : ∀ {δ : Type}, Op δ → Prog Op' δ)
  (Inner : ∀ {δ : Type}, Op' δ → Prop) (S : σ → σ' → Prop)

/-- The operation stands for one of the other interface, which does the same. -/
def Immediate {δ : Type} (o : Op δ) : Prop :=
  ∃ o' : Op' δ, h o = .perform o' ∧ ¬ Inner o' ∧ ∀ i e' s s' b t', S s s' →
    M'.exec i δ o' e' s' = some (b, t') → ∃ e t, M.exec i δ o e s = some (b, t) ∧ S t t'

/-- The operation stands for a program of inner operations, and can be answered in any way. -/
def Remote {δ : Type} (o : Op δ) : Prop :=
  (h o).Uses Inner ∧ ∀ i b s s', S s s' → ∃ e t, M.exec i δ o e s = some (b, t) ∧ S t s'

/-- Every operation stands for one or for a program, and inner operations do not show. -/
structure Implements : Prop where
  stands : ∀ {δ : Type} (o : Op δ), Immediate M M' h Inner S o ∨ Remote M h Inner S o
  inner : ∀ i (δ : Type) (o' : Op' δ) e' s s' b t', Inner o' → S s s' →
    M'.exec i δ o' e' s' = some (b, t') → S s t'

/-- The second program does nothing that the first one cannot do. Its operations are of the same
kinds, whatever these are. -/
def Within {δ δ' : Type} (p : Prog Op' δ) (q : Prog Op' δ') : Prop :=
  ∀ A : (∀ {δ : Type}, Op' δ → Prop), p.Uses A → q.Uses A

/-- How far a task has come with the programs in place: it is between two operations, or on its
way to the answer of one. -/
inductive Runs : Prog Op α → Prog Op' α → Prop where
  | between (p : Prog Op α) : Runs p (p.interp h)
  | during {δ : Type} {o : Op δ} {k : δ → Prog Op α} {q : Prog Op' δ}
      (hremote : Remote M h Inner S o) (hq : Within (h o) q) :
      Runs (.op o k) (q.bind fun b => (k b).interp h)

/-- A task whose next operation is performed next, or is the one whose program goes on next. -/
inductive AtFront : Prog Op α → Prog Op' α → Prop where
  | immediate {δ : Type} {o : Op δ} {o' : Op' δ} (k : δ → Prog Op α) (ho : h o = .perform o')
      (himmediate : Immediate M M' h Inner S o) : AtFront (.op o k) (.op o' fun b => (k b).interp h)
  | remote {δ δ' : Type} {o : Op δ} {o' : Op' δ'} {q : δ' → Prog Op' δ} (k : δ → Prog Op α)
      (hremote : Remote M h Inner S o)
      (ho' : ∀ A : (∀ {δ : Type}, Op' δ → Prop), (h o).Uses A → A o')
      (hq : ∀ b, Within (h o) (q b)) :
      AtFront (.op o k) (.op o' fun b => (q b).bind fun b => (k b).interp h)

variable {M M' h Inner S} {i : ι} {p : Prog Op α} {p' q' : Prog Op' α} {s : σ} {s' t' : σ'}

/-- A task that has an answer goes on. -/
theorem Machine.fires_answer {δ : Type} {o : Op δ} {k : δ → Prog Op α} {b : δ} {e : ε} {t u : σ}
    {es : List ε} {q : Prog Op α} (hexec : M.exec i δ o e s = some (b, t))
    (hrest : M.fires i es (k b) t = some (q, u)) :
    M.fires i (e :: es) (.op o k) s = some (q, u) := by
  rw [Machine.fires, Machine.fire, hexec]
  exact hrest

/-- What a task can still do once it was given the answers that it has got: nothing, or what is
at its front. -/
def CaughtUp (M : Machine Op ι ε σ) (M' : Machine Op' ι ε' σ')
    (h : ∀ {δ : Type}, Op δ → Prog Op' δ) (Inner : ∀ {δ : Type}, Op' δ → Prop) (S : σ → σ' → Prop)
    (p : Prog Op α) (p' : Prog Op' α) : Prop :=
  (∃ a, p = .ret a ∧ p' = .ret a) ∨ p' = .panic ∨ AtFront M M' h Inner S p p'

/-- Who has returned with the programs in place has caught up with it. -/
theorem CaughtUp.eq_ret {a : α} (hp : CaughtUp M M' h Inner S p (.ret a)) : p = .ret a := by
  rcases hp with ⟨b, rfl, hb⟩ | hb | hfront
  · rw [Prog.ret.inj hb]
  · cases hb
  · cases hfront

/-- **A task can be given the answers that it has got.** -/
theorem Runs.catchUp (himp : Implements M M' h Inner S) (hr : Runs M h Inner S p p')
    (hs : S s s') : ∃ es q t, M.fires i es p s = some (q, t) ∧ S t s' ∧ Runs M h Inner S q p' ∧
      CaughtUp M M' h Inner S q p' := by
  have hbetween : ∀ (p : Prog Op α) s, S s s' → ∃ es q t, M.fires i es p s = some (q, t) ∧
      S t s' ∧ Runs M h Inner S q (p.interp h) ∧ CaughtUp M M' h Inner S q (p.interp h) := by
    intro p
    induction p with
    | ret a => exact fun s hs => ⟨[], .ret a, s, rfl, hs, .between _, .inl ⟨a, rfl, rfl⟩⟩
    | panic => exact fun s hs => ⟨[], .panic, s, rfl, hs, .between _, .inr (.inl rfl)⟩
    | op o k ih =>
      intro s hs
      rcases himp.stands o with himmediate | hremote
      · obtain ⟨o', ho, -⟩ := id himmediate
        have ho : h o = .perform o' := ho
        refine ⟨[], .op o k, s, rfl, hs, .between _, .inr (.inr ?_)⟩
        rw [Prog.interp, ho]
        exact .immediate k ho himmediate
      · have hwithin : ∀ q, h o = q → Within (h o) q := fun q hq A huses => hq ▸ huses
        rw [Prog.interp]
        generalize hq : h o = q
        replace hwithin := hwithin q hq
        cases q with
        | ret b =>
          obtain ⟨e, t, hexec, ht⟩ := hremote.2 i b s s' hs
          obtain ⟨es, q, u, hrest, hq⟩ := ih b t ht
          exact ⟨e :: es, q, u, M.fires_answer hexec hrest, hq⟩
        | panic =>
          exact ⟨[], .op o k, s, rfl, hs, .during hremote hwithin, .inr (.inl rfl)⟩
        | op o' k' =>
          exact ⟨[], .op o k, s, rfl, hs, .during hremote hwithin,
            .inr (.inr (.remote k hremote (fun A huses => (hwithin A huses).1)
              fun b A huses => (hwithin A huses).2 b))⟩
  cases hr with
  | between => exact hbetween p s hs
  | @during δ o k q hremote hq =>
    cases q with
    | ret b =>
      obtain ⟨e, t, hexec, ht⟩ := hremote.2 i b s s' hs
      obtain ⟨es, q, u, hrest, hq⟩ := hbetween (k b) t ht
      exact ⟨e :: es, q, u, M.fires_answer hexec hrest, hq⟩
    | panic => exact ⟨[], .op o k, s, rfl, hs, .during hremote hq, .inr (.inl rfl)⟩
    | op o' k' =>
      exact ⟨[], .op o k, s, rfl, hs, .during hremote hq,
        .inr (.inr (.remote k hremote (fun A huses => (hq A huses).1)
          fun b A huses => (hq A huses).2 b))⟩

/-- A step from the front is a step of the task, or does not show. -/
theorem AtFront.fire (himp : Implements M M' h Inner S) (hp : AtFront M M' h Inner S p p')
    (hs : S s s') {e' : ε'} (hfire : M'.fire i e' p' s' = some (q', t')) :
    ∃ es q t, M.fires i es p s = some (q, t) ∧ S t t' ∧ Runs M h Inner S q q' := by
  obtain ⟨δ, o', k', b, hop, hexec, rfl⟩ := M'.fire_eq_some hfire
  cases hp with
  | @immediate δ o o₁ k ho himmediate =>
    cases hop
    obtain ⟨o₂, ho₂, -, hsame⟩ := himmediate
    have ho₂ : h o = .perform o₂ := ho₂
    rw [ho] at ho₂
    cases ho₂
    obtain ⟨e, t, hexec', ht⟩ := hsame i e' s s' b t' hs hexec
    exact ⟨[e], k b, t, M.fires_answer hexec' rfl, ht, .between (k b)⟩
  | @remote δ δ' o o₁ q k hremote ho₁ hq =>
    cases hop
    have hinner := ho₁ Inner hremote.1
    exact ⟨[], .op o k, s, rfl, himp.inner i _ _ e' s s' b t' hinner hs hexec,
      .during hremote (hq b)⟩

theorem Machine.fires_append {es es' : List ε} {q r : Prog Op α} {t u : σ}
    (hes : M.fires i es p s = some (q, t)) (hes' : M.fires i es' q t = some (r, u)) :
    M.fires i (es ++ es') p s = some (r, u) := by
  induction es generalizing p s with
  | nil =>
    obtain ⟨rfl, rfl⟩ := Prod.mk.inj (Option.some.inj hes)
    exact hes'
  | cons e es ih =>
    obtain ⟨r₁, hfire, hrest⟩ := Option.bind_eq_some_iff.mp hes
    rw [List.cons_append, Machine.fires, hfire]
    exact ih hrest

/-- **A step with the programs in place is matched by steps of the task.** -/
theorem Runs.fire (himp : Implements M M' h Inner S) (hr : Runs M h Inner S p p') (hs : S s s')
    {e' : ε'} (hfire : M'.fire i e' p' s' = some (q', t')) :
    ∃ es q t, M.fires i es p s = some (q, t) ∧ S t t' ∧ Runs M h Inner S q q' := by
  obtain ⟨es, q, t, hes, ht, -, ⟨a, -, rfl⟩ | rfl | hfront⟩ := hr.catchUp himp (i := i) hs
  · cases hfire
  · cases hfire
  · obtain ⟨es', r, u, hes', hu, hr'⟩ := hfront.fire himp ht hfire
    exact ⟨es ++ es', r, u, Machine.fires_append hes hes', hu, hr'⟩

/-! ## Pools -/

/-- A task that does something of its own, which does not show. It has no counterpart among the
operations of the clients. -/
def Aside (Inner : ∀ {δ : Type}, Op' δ → Prop) (p : Prog Op α) (p' : Prog Op' α) : Prop :=
  ∃ a, p = .ret a ∧ p'.Uses Inner ∧ p'.Returns (· = a)

/-- A pool with the programs in place, next to a pool without: the clients run, and the other
tasks do something of their own. -/
structure Related (M : Machine Op ι ε σ) (h : ∀ {δ : Type}, Op δ → Prog Op' δ)
    (Inner : ∀ {δ : Type}, Op' δ → Prop) (S : σ → σ' → Prop) (client : ι → Prop)
    (c : Pool Op ι σ α) (c' : Pool Op' ι σ' α) : Prop where
  shared : S c.shared c'.shared
  runs : ∀ i, client i → Runs M h Inner S (c.task i) (c'.task i)
  aside : ∀ i, ¬ client i → Aside Inner (c.task i) (c'.task i)

variable [DecidableEq ι] {client : ι → Prop} {c : Pool Op ι σ α} {c' d' : Pool Op' ι σ' α}

/-- A task goes on, and the others are where they were. -/
theorem Related.update (hrel : Related M h Inner S client c c') {t : σ} {t' : σ'} {q : Prog Op α}
    {q' : Prog Op' α} (hs : S t t') (hruns : client i → Runs M h Inner S q q')
    (haside : ¬ client i → Aside Inner q q') :
    Related M h Inner S client ⟨t, Function.update c.task i q⟩
      ⟨t', Function.update c'.task i q'⟩ := by
  refine ⟨hs, fun j hj => ?_, fun j hj => ?_⟩
  · by_cases heq : j = i
    · subst heq
      simpa only [Function.update_self] using hruns hj
    · simpa only [Function.update_of_ne heq] using hrel.runs j hj
  · by_cases heq : j = i
    · subst heq
      simpa only [Function.update_self] using haside hj
    · simpa only [Function.update_of_ne heq] using hrel.aside j hj

/-- A step of the pool is matched. -/
theorem Related.step (himp : Implements M M' h Inner S) (hrel : Related M h Inner S client c c')
    {l : ι × ε'} (hstep : M'.step l c' = some d') :
    ∃ es d, M.play (Machine.turns l.1 es) c = some d ∧ Related M h Inner S client d d' := by
  obtain ⟨q', hfire, htask⟩ := M'.step_eq_some hstep
  have hd' : d' = ⟨d'.shared, Function.update c'.task l.1 q'⟩ := by rw [← htask]
  by_cases hclient : client l.1
  · obtain ⟨es, q, t, hes, ht, hr⟩ := (hrel.runs l.1 hclient).fire himp hrel.shared hfire
    refine ⟨es, _, M.play_fires hes, ?_⟩
    rw [hd']
    exact hrel.update ht (fun _ => hr) fun hnot => absurd hclient hnot
  · obtain ⟨a, hret, huses, hreturns⟩ := hrel.aside l.1 hclient
    obtain ⟨δ, o', k', b, hop, hexec, rfl⟩ := M'.fire_eq_some hfire
    rw [hop] at huses hreturns
    have hs := himp.inner l.1 δ o' l.2 _ _ b _ huses.1 hrel.shared hexec
    refine ⟨[], c, rfl, ?_⟩
    have hc : c = ⟨c.shared, Function.update c.task l.1 (c.task l.1)⟩ := by
      rw [Function.update_eq_self]
    rw [hd', hc]
    exact hrel.update hs (fun h => absurd h hclient)
      fun _ => ⟨a, hret, huses.2 b, hreturns b⟩

/-- **A run with the programs in place is matched by a run of the tasks.** -/
theorem Related.play (himp : Implements M M' h Inner S) (hrel : Related M h Inner S client c c')
    {ls' : List (ι × ε')} (hplay : M'.play ls' c' = some d') :
    ∃ ls d, M.play ls c = some d ∧ Related M h Inner S client d d' := by
  induction ls' generalizing c c' with
  | nil =>
    obtain rfl := Option.some.inj hplay
    exact ⟨[], c, rfl, hrel⟩
  | cons l ls' ih =>
    obtain ⟨c₁', hstep, hrest⟩ := Option.bind_eq_some_iff.mp hplay
    obtain ⟨es, c₁, hes, hrel₁⟩ := hrel.step himp hstep
    obtain ⟨ls, d, hls, hd⟩ := ih hrel₁ hrest
    refine ⟨Machine.turns l.1 es ++ ls, d, ?_, hd⟩
    rw [M.play_append, hes]
    exact hls

/-- A client can be given the answers that it has got, and the others stay where they are. -/
theorem Related.catchUp (himp : Implements M M' h Inner S)
    (hrel : Related M h Inner S client c c') (hi : client i) :
    ∃ es d, M.play (Machine.turns i es) c = some d ∧ Related M h Inner S client d c' ∧
      CaughtUp M M' h Inner S (d.task i) (c'.task i) ∧ ∀ j, j ≠ i → d.task j = c.task j := by
  obtain ⟨es, q, t, hes, ht, hr, hq⟩ := (hrel.runs i hi).catchUp himp (i := i) hrel.shared
  have hrel' := hrel.update ht (fun _ => hr) fun hnot => absurd hi hnot
  rw [Function.update_eq_self] at hrel'
  refine ⟨es, _, M.play_fires hes, hrel', ?_, fun j hj => Function.update_of_ne hj _ _⟩
  simpa only [Function.update_self] using hq

/-- So can any number of clients. -/
theorem Related.catchUpAll (himp : Implements M M' h Inner S)
    (hrel : Related M h Inner S client c c') (is : List ι) (his : ∀ i ∈ is, client i) :
    ∃ ls d, M.play ls c = some d ∧ Related M h Inner S client d c' ∧
      ∀ i ∈ is, CaughtUp M M' h Inner S (d.task i) (c'.task i) := by
  induction is with
  | nil => exact ⟨[], c, rfl, hrel, by simp⟩
  | cons i is ih =>
    obtain ⟨hi, his⟩ := List.forall_mem_cons.mp his
    obtain ⟨ls, d, hls, hd, hcaught⟩ := ih his
    obtain ⟨es, e, hes, he, hown, hothers⟩ := hd.catchUp himp hi
    refine ⟨ls ++ Machine.turns i es, e, ?_, he, fun j hj => ?_⟩
    · rw [M.play_append, hls]
      exact hes
    · by_cases heq : j = i
      · exact heq ▸ hown
      · rw [hothers j heq]
        exact hcaught j ((List.mem_cons.mp hj).resolve_left heq)

/-- **What clients return, they can return without the programs**, all in one run. -/
theorem play_refines (himp : Implements M M' h Inner S)
    (hrel : Related M h Inner S client c c') {ls' : List (ι × ε')}
    (hplay : M'.play ls' c' = some d') (is : List ι) (his : ∀ i ∈ is, client i) :
    ∃ ls d, M.play ls c = some d ∧ S d.shared d'.shared ∧
      ∀ i ∈ is, ∀ a, d'.task i = .ret a → d.task i = .ret a := by
  obtain ⟨ls, d, hls, hd⟩ := hrel.play himp hplay
  obtain ⟨ls₁, e, hls₁, he, hcaught⟩ := hd.catchUpAll himp is his
  refine ⟨ls ++ ls₁, e, ?_, he.shared, fun i hi a hend => ?_⟩
  · rw [M.play_append, hls]
    exact hls₁
  · have hown := hcaught i hi
    rw [hend] at hown
    exact hown.eq_ret

/-- **When a client performs an inner operation, it is on its way to an answer**: its next
operation is one that stands for a program, and the program can perform the inner one. -/
theorem play_refines_inner (himp : Implements M M' h Inner S)
    (hrel : Related M h Inner S client c c') {ls' : List (ι × ε')}
    (hplay : M'.play ls' c' = some d') (hi : client i) {δ' : Type} {o' : Op' δ'}
    {k' : δ' → Prog Op' α} (hnext : d'.task i = .op o' k') (ho' : Inner o') :
    ∃ ls d, M.play ls c = some d ∧ S d.shared d'.shared ∧ ∃ (δ : Type) (o : Op δ)
      (k : δ → Prog Op α), d.task i = .op o k ∧ Remote M h Inner S o ∧
        ∀ A : (∀ {δ : Type}, Op' δ → Prop), (h o).Uses A → A o' := by
  obtain ⟨ls, d, hls, hd⟩ := hrel.play himp hplay
  obtain ⟨es, e, hes, he, hcaught, -⟩ := hd.catchUp himp hi
  refine ⟨ls ++ Machine.turns i es, e, ?_, he.shared, ?_⟩
  · rw [M.play_append, hls]
    exact hes
  · rw [hnext] at hcaught
    rcases hcaught with ⟨b, -, hb⟩ | hb | hfront
    · cases hb
    · cases hb
    · generalize e.task i = p at hfront ⊢
      cases hfront with
      | @immediate _ o _ k ho himmediate =>
        obtain ⟨o₂, ho₂, hnot, -⟩ := himmediate
        have ho₂ : Prog.perform _ = Prog.perform o₂ := ho.symm.trans ho₂
        cases ho₂
        exact absurd ho' hnot
      | remote k hremote hwithin => exact ⟨_, _, k, rfl, hremote, hwithin⟩

end Refinement

end Async
