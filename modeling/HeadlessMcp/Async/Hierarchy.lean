import HeadlessMcp.Async.Progress

/-!
# Lock hierarchies

Tasks that hold several locks at once can wait for each other in a circle. They cannot when the
locks have ranks and every task takes them in ascending order (`Prog.Orderly`): whoever holds a lock
of the highest rank that is held waits for nobody (`Ordered.exists_step`). A pool of finitely many
such tasks comes to its end from wherever it is (`Ordered.completes`).

A task that holds no lock may also wait for something else; of such tasks nothing is said.
-/

namespace Async

universe u v

variable {Op : Type → Type u} {Op' : Type → Type v} {ι ε σ α β K K' ρ : Type}

/-- What an operation has to do with locks. What a lock is, and who holds it, is left open here.
-/
inductive LockUse (K : Type) : Type where
  /-- nothing -/
  | free : LockUse K
  /-- it takes a lock -/
  | takes (k : K) : LockUse K
  /-- it waits until nobody holds a lock -/
  | passes (k : K) : LockUse K
  /-- it drops a lock -/
  | drops (k : K) : LockUse K
  /-- it waits for something else -/
  | waits : LockUse K

namespace LockUse

/-- The locks that a task holds after an operation. -/
def after (held : List K) : LockUse K → List K
  | takes k => k :: held
  | drops _ => held.tail
  | _ => held

/-- The operation needs a lock that nobody holds. -/
def Needs (u : LockUse K) (k : K) : Prop := u = takes k ∨ u = passes k

/-- The use of the locks of a part. -/
def map (f : K → K') : LockUse K → LockUse K'
  | free => free
  | takes k => takes (f k)
  | passes k => passes (f k)
  | drops k => drops (f k)
  | waits => waits

@[simp] theorem after_map (f : K → K') (held : List K) (u : LockUse K) :
    (u.map f).after (held.map f) = (u.after held).map f := by
  cases u with
  | drops k => exact List.map_tail.symm
  | _ => rfl

/-- What a part does with its locks is what the whole does. -/
theorem map_eq_takes {f : K → K'} {u : LockUse K} {l : K'} (h : u.map f = takes l) :
    ∃ k, u = takes k ∧ f k = l := by
  cases u with
  | takes k => exact ⟨k, rfl, takes.inj h⟩
  | _ => cases h

theorem map_eq_drops {f : K → K'} {u : LockUse K} {l : K'} (h : u.map f = drops l) :
    ∃ k, u = drops k ∧ f k = l := by
  cases u with
  | drops k => exact ⟨k, rfl, drops.inj h⟩
  | _ => cases h

variable [LT ρ] (rank : K → ρ) (mayWait : Prop)

/-- What is in order for a task that holds `held`, on top of `base`: it takes locks in ascending
order and drops the last one first. -/
def Fits (base held : List K) : LockUse K → Prop
  | free => True
  | takes k => ∀ k' ∈ held ++ base, rank k' < rank k
  | passes k => ∀ k' ∈ held ++ base, rank k' < rank k
  | drops k => held.head? = some k
  | waits => mayWait ∧ held ++ base = []

variable {rank mayWait} {base held : List K} {u : LockUse K} {l : K}

/-- It makes no difference which locks count as its own. -/
theorem Fits.below (h : u.Fits rank mayWait (l :: base) held) :
    u.Fits rank mayWait base (held ++ [l]) ∧ u.after (held ++ [l]) = u.after held ++ [l] := by
  have hsame : held ++ [l] ++ base = held ++ l :: base := by simp
  cases u with
  | free => exact ⟨trivial, rfl⟩
  | takes k =>
    refine ⟨?_, rfl⟩
    rw [Fits, hsame]
    exact h
  | passes k =>
    refine ⟨?_, rfl⟩
    rw [Fits, hsame]
    exact h
  | drops k =>
    -- a program cannot drop what it did not take
    rcases held with _ | ⟨l₁, held⟩
    · cases h
    · exact ⟨h, rfl⟩
  | waits =>
    refine ⟨⟨h.1, ?_⟩, rfl⟩
    rw [hsame]
    exact h.2

/-- What is in order for a part is in order for the whole. -/
theorem Fits.map {f : K → K'} {rank' : K' → ρ} (hrank : ∀ l, rank' (f l) = rank l)
    (h : u.Fits rank mayWait base held) :
    (u.map f).Fits rank' mayWait (base.map f) (held.map f) := by
  have habove {k : K} (hk : ∀ k' ∈ held ++ base, rank k' < rank k) :
      ∀ k' ∈ held.map f ++ base.map f, rank' k' < rank' (f k) := by
    rw [← List.map_append]
    intro k' hk'
    obtain ⟨k₁, hmem, rfl⟩ := List.mem_map.mp hk'
    rw [hrank, hrank]
    exact hk k₁ hmem
  cases u with
  | free => trivial
  | takes k => exact habove h
  | passes k => exact habove h
  | drops k =>
    rcases held with _ | ⟨l₁, held⟩
    · cases h
    · exact congrArg (Option.map f) h
  | waits =>
    refine ⟨h.1, ?_⟩
    rw [← List.map_append, h.2]
    rfl

end LockUse

/-! ## Programs -/

section Programs

variable [LT ρ] (use : (δ : Type) → Op δ → LockUse K) (rank : K → ρ) (mayWait : Prop)

/-- The program, which holds `held` on top of `base`, takes and drops its locks in order, and ends
with `base`. -/
def Prog.Orderly (base : List K) : List K → Prog Op α → Prop
  | held, .ret _ => held = []
  | held, .panic => held = []
  | held, .op o k => (use _ o).Fits rank mayWait base held ∧
      ∀ b, (k b).Orderly base ((use _ o).after held)

variable {use rank mayWait} {base held : List K} {p : Prog Op α}

namespace Prog

theorem Orderly.bind {f : α → Prog Op β} (hp : p.Orderly use rank mayWait base held)
    (hf : ∀ a, (f a).Orderly use rank mayWait base []) :
    (p.bind f).Orderly use rank mayWait base held := by
  induction p generalizing held with
  | ret a =>
    obtain rfl : held = [] := hp
    exact hf a
  | panic => exact hp
  | op o k ih => exact ⟨hp.1, fun b => ih b (hp.2 b)⟩

/-- One operation that has nothing to do with locks, and the rest. -/
theorem orderly_op {δ : Type} {o : Op δ} {k : δ → Prog Op α} (ho : use _ o = .free)
    (hk : ∀ b, (k b).Orderly use rank mayWait base held) :
    (Prog.op o k).Orderly use rank mayWait base held := by
  refine ⟨?_, fun b => ?_⟩
  · rw [ho]
    trivial
  · rw [ho]
    exact hk b

/-- One that waits until a lock is free. -/
theorem orderly_passes {δ : Type} {o : Op δ} {k : δ → Prog Op α} {l : K} (ho : use _ o = .passes l)
    (hrank : ∀ l' ∈ base, rank l' < rank l)
    (hk : ∀ b, (k b).Orderly use rank mayWait base []) :
    (Prog.op o k).Orderly use rank mayWait base [] := by
  refine ⟨?_, fun b => ?_⟩
  · rw [ho]
    exact hrank
  · rw [ho]
    exact hk b

/-- What is in order above a lock is in order with it, and then it is dropped. -/
theorem Orderly.andFinally {release : Op Unit} {l : K} (hrelease : use _ release = .drops l)
    (hp : p.Orderly use rank mayWait (l :: base) held) :
    (p.andFinally release).Orderly use rank mayWait base (held ++ [l]) := by
  induction p generalizing held with
  -- both ends of the program drop the lock, and nothing else is held there
  | ret a =>
    obtain rfl : held = [] := hp
    refine ⟨?_, fun b => ?_⟩
    · rw [hrelease]
      rfl
    · rw [hrelease]
      rfl
  | panic =>
    obtain rfl : held = [] := hp
    refine ⟨?_, fun b => ?_⟩
    · rw [hrelease]
      rfl
    · rw [hrelease]
      rfl
  -- by induction on the program: what it holds is held on top of the lock
  | op o k ih =>
    obtain ⟨hfits, hafter⟩ := LockUse.Fits.below hp.1
    refine ⟨hfits, fun b => ?_⟩
    rw [hafter]
    exact ih b (hp.2 b)

/-- A lock above those that are held, for the length of a program. -/
theorem Orderly.withLock {acquire release : Op Unit} {l : K} (hacquire : use _ acquire = .takes l)
    (hrelease : use _ release = .drops l) (hrank : ∀ l' ∈ base, rank l' < rank l)
    (hp : p.Orderly use rank mayWait (l :: base) []) :
    (Prog.withLock acquire release p).Orderly use rank mayWait base [] := by
  refine ⟨?_, fun b => ?_⟩
  · rw [hacquire]
    exact hrank
  · rw [hacquire]
    exact hp.andFinally hrelease

/-- What is in order for a part is in order for the whole. -/
theorem Orderly.lift {h : ∀ {δ : Type}, Op δ → Op' δ} {use' : (δ : Type) → Op' δ → LockUse K'}
    {f : K → K'} {rank' : K' → ρ} (huse : ∀ (δ : Type) (o : Op δ), use' δ (h o) = (use δ o).map f)
    (hrank : ∀ l, rank' (f l) = rank l) (hp : p.Orderly use rank mayWait base held) :
    (p.lift h).Orderly use' rank' mayWait (base.map f) (held.map f) := by
  -- the lift renames the operations and the locks, and keeps the order
  induction p generalizing held with
  | ret a =>
    obtain rfl : held = [] := hp
    rfl
  | panic =>
    obtain rfl : held = [] := hp
    rfl
  | op o k ih =>
    refine ⟨?_, fun b => ?_⟩
    · rw [huse]
      exact hp.1.map hrank
    · rw [huse, LockUse.after_map]
      exact ih b (hp.2 b)

/-- Programs in the place of operations, each of which takes and drops locks of its own. -/
theorem orderly_interp {h : ∀ {δ : Type}, Op δ → Prog Op' δ}
    {use' : (δ : Type) → Op' δ → LockUse K}
    (hh : ∀ {δ : Type} (o : Op δ), (h o).Orderly use' rank mayWait base []) (p : Prog Op α) :
    (p.interp h).Orderly use' rank mayWait base [] := by
  induction p with
  | ret a => rfl
  | panic => rfl
  | op o k ih => exact (hh o).bind ih

/-- A program that takes one lock in turn. -/
theorem Balanced.orderly {acq rel : ∀ {δ : Type}, Op δ → Prop} {inside : Bool} {l : K}
    {h : ∀ {δ : Type}, Op δ → Op' δ} {use' : (δ : Type) → Op' δ → LockUse K}
    (hacq : ∀ (δ : Type) (o : Op δ), acq o → use' δ (h o) = .takes l)
    (hrel : ∀ (δ : Type) (o : Op δ), ¬ acq o → rel o → use' δ (h o) = .drops l)
    (hother : ∀ (δ : Type) (o : Op δ), ¬ acq o → ¬ rel o → use' δ (h o) = .free)
    (hrank : ∀ l' ∈ base, rank l' < rank l) (hp : p.Balanced acq rel inside) :
    (p.lift h).Orderly use' rank mayWait base (if inside then [l] else []) := by
  induction p generalizing inside with
  | ret a =>
    obtain rfl : inside = false := hp
    rfl
  | panic =>
    obtain rfl : inside = false := hp
    rfl
  | op o k ih =>
    -- it takes the lock, drops it, or does neither
    rcases hp with ⟨ho, rfl, hk⟩ | ⟨hna, ho, rfl, hk⟩ | ⟨hna, hnr, hk⟩
    · refine ⟨?_, fun b => ?_⟩
      · rw [hacq _ o ho]
        exact hrank
      · rw [hacq _ o ho]
        exact ih b (hk b)
    · refine ⟨?_, fun b => ?_⟩
      · rw [hrel _ o hna ho]
        rfl
      · rw [hrel _ o hna ho]
        exact ih b (hk b)
    · exact orderly_op (hother _ o hna hnr) fun b => ih b (hk b)

end Prog

end Programs

/-! ## Pools -/

section Pools

variable {use : (δ : Type) → Op δ → LockUse K} {holder : σ → K → Option ι}
  [Preorder ρ] {rank : K → ρ} {mayWait : ι → Prop} {c c' : Pool Op ι σ α}

/-- A task and the locks that it holds: its program takes and drops them in order. -/
structure Holding (use : (δ : Type) → Op δ → LockUse K) (rank : K → ρ) (mayWait : Prop)
    (mine : K → Prop) (p : Prog Op α) (held : List K) : Prop where
  orderly : p.Orderly use rank mayWait [] held
  nodup : held.Nodup
  mem_iff : ∀ l, l ∈ held ↔ mine l

/-- Every task is orderly, for the locks that it holds. It is what every step of every task keeps,
so it holds in all reachable states. -/
def Ordered (use : (δ : Type) → Op δ → LockUse K) (holder : σ → K → Option ι) (rank : K → ρ)
    (mayWait : ι → Prop) (c : Pool Op ι σ α) : Prop :=
  ∀ i, ∃ held, Holding use rank (mayWait i) (fun l => holder c.shared l = some i) (c.task i) held

/-- At the start nobody holds a lock. -/
theorem ordered_init (hfree : ∀ l, holder c.shared l = none)
    (hc : ∀ i, (c.task i).Orderly use rank (mayWait i) [] []) :
    Ordered use holder rank mayWait c :=
  fun i => ⟨[], hc i, List.nodup_nil, fun l => by simp [hfree l]⟩

variable [DecidableEq K]

/-- How a machine implements locks: `holder` reads who holds each of them, and nothing waits but
for a lock, or because it says that it does. -/
structure Locks (M : Machine Op ι ε σ) (use : (δ : Type) → Op δ → LockUse K)
    (holder : σ → K → Option ι) : Prop where
  takes : ∀ {i δ} {o : Op δ} {e s b t l}, use δ o = .takes l → M.exec i δ o e s = some (b, t) →
    holder s l = none ∧ holder t = Function.update (holder s) l (some i)
  drops : ∀ {i δ} {o : Op δ} {e s b t l}, use δ o = .drops l → M.exec i δ o e s = some (b, t) →
    holder t = Function.update (holder s) l none
  keeps : ∀ {i δ} {o : Op δ} {e s b t}, (∀ l, use δ o ≠ .takes l ∧ use δ o ≠ .drops l) →
    M.exec i δ o e s = some (b, t) → holder t = holder s
  enabled : ∀ i {δ} {o : Op δ} {s}, use δ o ≠ .waits →
    (∀ l, (use δ o).Needs l → holder s l = none) → ∃ e r, M.exec i δ o e s = some r

variable {M : Machine Op ι ε σ}

section Step

variable {i j : ι} {δ : Type} {o : Op δ} {e : ε} {b : δ} {s t : σ} {held : List K}

/-- The locks that a task holds after an operation of its own. -/
theorem Locks.own (hlocks : Locks M use holder) (hexec : M.exec i δ o e s = some (b, t))
    (hfits : (use δ o).Fits rank (mayWait i) [] held) (hnodup : held.Nodup)
    (hmem : ∀ l, l ∈ held ↔ holder s l = some i) :
    ((use δ o).after held).Nodup ∧ ∀ l, l ∈ (use δ o).after held ↔ holder t l = some i := by
  -- only taking and dropping change what the task holds
  cases huse : use δ o with
  | takes k =>
    obtain ⟨hnone, hholder⟩ := hlocks.takes huse hexec
    have hnot : k ∉ held := fun h => nomatch hnone.symm.trans ((hmem k).mp h)
    refine ⟨List.nodup_cons.mpr ⟨hnot, hnodup⟩, fun l => ?_⟩
    rw [hholder, LockUse.after, List.mem_cons]
    by_cases hl : l = k
    · simp [hl]
    · rw [Function.update_of_ne hl, ← hmem l]
      exact or_iff_right hl
  | drops k =>
    have hholder := hlocks.drops huse hexec
    rw [huse] at hfits
    rcases held with _ | ⟨k₁, held⟩
    · cases hfits
    · obtain rfl := Option.some.inj hfits
      obtain ⟨hnot, hnodup⟩ := List.nodup_cons.mp hnodup
      refine ⟨hnodup, fun l => ?_⟩
      rw [hholder]
      by_cases hl : l = k₁
      · subst hl
        simpa [LockUse.after] using hnot
      · rw [Function.update_of_ne hl, ← hmem l, LockUse.after, List.tail_cons, List.mem_cons]
        exact (or_iff_right hl).symm
  | _ =>
    rw [hlocks.keeps (fun l => by simp [huse]) hexec]
    exact ⟨hnodup, hmem⟩

/-- The locks of the others stay with them. -/
theorem Locks.others (hlocks : Locks M use holder) (hexec : M.exec i δ o e s = some (b, t))
    (hfits : (use δ o).Fits rank (mayWait i) [] held)
    (hmem : ∀ l, l ∈ held ↔ holder s l = some i) (hj : j ≠ i) (l : K) :
    holder s l = some j ↔ holder t l = some j := by
  -- another task's locks are not those that are taken or dropped here
  cases huse : use δ o with
  | takes k =>
    obtain ⟨hnone, hholder⟩ := hlocks.takes huse hexec
    rw [hholder]
    by_cases hl : l = k
    · subst hl
      simp [hnone, Ne.symm hj]
    · rw [Function.update_of_ne hl]
  | drops k =>
    rw [hlocks.drops huse hexec]
    by_cases hl : l = k
    · subst hl
      rw [huse] at hfits
      have hown := (hmem l).mp (List.mem_of_mem_head? hfits)
      simp [hown, Ne.symm hj]
    · rw [Function.update_of_ne hl]
  | _ => rw [hlocks.keeps (fun l => by simp [huse]) hexec]

end Step

variable [DecidableEq ι]

theorem Ordered.step (hlocks : Locks M use holder) (hc : Ordered use holder rank mayWait c)
    {l : ι × ε} (hstep : M.step l c = some c') : Ordered use holder rank mayWait c' := by
  obtain ⟨q, hfire, htask⟩ := M.step_eq_some hstep
  obtain ⟨δ, o, k, b, hop, hexec, rfl⟩ := M.fire_eq_some hfire
  obtain ⟨held, horderly, hnodup, hmem⟩ := hc l.1
  rw [hop] at horderly
  obtain ⟨hfits, hrest⟩ := horderly
  intro j
  -- the task of the step, or another one
  by_cases hj : j = l.1
  · subst hj
    rw [htask, Function.update_self]
    obtain ⟨hnodup, hmem⟩ := hlocks.own hexec hfits hnodup hmem
    exact ⟨_, hrest b, hnodup, hmem⟩
  · rw [M.step_task_ne hstep hj]
    obtain ⟨heldj, horderlyj, hnodupj, hmemj⟩ := hc j
    exact ⟨heldj, horderlyj, hnodupj, fun l' =>
      (hmemj l').trans (hlocks.others hexec hfits hmem hj l')⟩

theorem Ordered.play (hlocks : Locks M use holder) (hc : Ordered use holder rank mayWait c)
    {ls : List (ι × ε)} (hplay : M.play ls c = some c') : Ordered use holder rank mayWait c' :=
  M.play_induct (C := fun _ _ _ _ _ => True) (fun _ _ _ h _ hs => h.step hlocks hs) hc
    (M.meets_true ls c) hplay

/-- The task has ended, or it waits for something that is no lock, and holds none. -/
def AtRest (use : (δ : Type) → Op δ → LockUse K) (mayWait : Prop) (p : Prog Op α) : Prop :=
  p.Ended ∨ mayWait ∧ ∃ (δ : Type) (o : Op δ) (k : δ → Prog Op α), p = .op o k ∧ use δ o = .waits

/-- What holds of a task whose next operation needs no lock that is held. -/
theorem exists_step_of_enabled (hlocks : Locks M use holder) {i : ι} {δ : Type} {o : Op δ}
    {k : δ → Prog Op α} (hop : c.task i = .op o k) (huse : use δ o ≠ .waits)
    (hfree : ∀ l, (use δ o).Needs l → holder c.shared l = none) :
    ∃ l c', M.step l c = some c' := by
  obtain ⟨e, ⟨b, t⟩, hexec⟩ := hlocks.enabled i huse hfree
  refine ⟨(i, e), ⟨t, Function.update c.task i (k b)⟩, ?_⟩
  rw [Machine.step, hop, Machine.fire, hexec]
  rfl

/-- **No deadlock**: as long as some task is not at rest, one of them can go on. It is the holder
of a lock of the highest rank that is held, if any is. -/
theorem Ordered.exists_step [WellFoundedGT ρ] (hlocks : Locks M use holder)
    (hc : Ordered use holder rank mayWait c) (hopen : ∃ i, ¬ AtRest use (mayWait i) (c.task i)) :
    ∃ l c', M.step l c = some c' := by
  by_cases hheld : ∃ r, ∃ l i, rank l = r ∧ holder c.shared l = some i
  · obtain ⟨r, ⟨l, i, rfl, hholder⟩, hmax⟩ := WellFounded.has_min (wellFounded_gt (α := ρ))
      {r | ∃ l i, rank l = r ∧ holder c.shared l = some i} hheld
    obtain ⟨held, horderly, hnodup, hmem⟩ := hc i
    have hl : l ∈ held := (hmem l).mpr hholder
    cases hop : c.task i with
    | ret a =>
      rw [hop] at horderly
      obtain rfl : held = [] := horderly
      cases hl
    | panic =>
      rw [hop] at horderly
      obtain rfl : held = [] := horderly
      cases hl
    | op o k =>
      rw [hop] at horderly
      -- a lock above the highest one is free
      have hfree {l' : K} (habove : ∀ k' ∈ held ++ [], rank k' < rank l') :
          holder c.shared l' = none := by
        rcases hj : holder c.shared l' with _ | j
        · rfl
        · exact absurd (habove l (List.mem_append_left _ hl)) (hmax _ ⟨l', j, rfl, hj⟩)
      have hfits := horderly.1
      refine exists_step_of_enabled hlocks hop (fun huse => ?_) fun l' hneeds => ?_
      · rw [huse] at hfits
        rw [(List.append_eq_nil_iff.mp hfits.2).1] at hl
        cases hl
      · rcases hneeds with huse | huse
        · rw [huse] at hfits
          exact hfree hfits
        · rw [huse] at hfits
          exact hfree hfits
  · obtain ⟨i, hi⟩ := hopen
    rw [AtRest, not_or] at hi
    obtain ⟨hnot, hwaits⟩ := hi
    obtain ⟨δ, o, k, hop⟩ := Prog.exists_op_of_not_ended hnot
    obtain ⟨held, horderly, -, -⟩ := hc i
    rw [hop] at horderly
    refine exists_step_of_enabled hlocks hop (fun huse => ?_) fun l hneeds => ?_
    · have hfits := horderly.1
      rw [huse] at hfits
      exact hwaits ⟨hfits.1, δ, o, k, hop, huse⟩
    · rcases hj : holder c.shared l with _ | j
      · rfl
      · exact absurd ⟨_, l, j, rfl, hj⟩ hheld

/-- **Finitely many tasks come to their end**, from wherever they are: every run can be continued
until nothing can be done any more, and then every task is at rest. -/
theorem Ordered.completes [WellFoundedGT ρ] [Finite ι] (hlocks : Locks M use holder)
    (hc : Ordered use holder rank mayWait c) :
    ∃ ls c', M.play ls c = some c' ∧ (∀ l, M.step l c' = none) ∧
      ∀ i, AtRest use (mayWait i) (c'.task i) := by
  induction c using (M.after_wellFounded (α := α)).induction with
  | _ c ih =>
    -- each step leaves less to do, so the run comes to an end
    by_cases hmore : ∃ l c', M.step l c = some c'
    · obtain ⟨l, c₁, hstep⟩ := hmore
      obtain ⟨ls, c', hplay, hend⟩ := ih c₁ ⟨l, hstep⟩ (hc.step hlocks hstep)
      refine ⟨l :: ls, c', ?_, hend⟩
      rw [M.play_cons, hstep]
      exact hplay
    · refine ⟨[], c, rfl, fun l => ?_, fun i => ?_⟩
      · rcases hstep : M.step l c with _ | c'
        · rfl
        · exact absurd ⟨l, c', hstep⟩ hmore
      · by_contra hi
        exact hmore (hc.exists_step hlocks ⟨i, hi⟩)

end Pools

end Async
