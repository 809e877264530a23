import HeadlessMcp.Hub.Gate
import HeadlessMcp.Http.Locks
import HeadlessMcp.Stdio.Locks

/-!
# The hub comes to an end

Requests, the hub's own chores and the reader tasks wait for each other's locks: `reinit_lock` and
the refresh lock of each HTTP backend, `write_guard` and the locks of `stdin` and `child` of each
stdio backend. They all take them in ascending order, so where the peers answer nobody waits for
ever (`hub_completes`).

Only a request to a backend is given up after a while. The token endpoint, the callback of a
browser, the line on stdin and the child that reads what is written to it are waited for without a
timeout, some of them under a lock: a peer that never answers there stops whoever needs that lock.
That a run can go on says that it does when these peers answer.

The locks of the registry are held across no await, but for the index in `unregister`, which is not
one of the chores.
-/

namespace HeadlessMcp

open Async

/-- What the hub does by itself. These are the calls of the registry that no client asks for. -/
inductive Chore : Type where
  | connectAll : Chore
  | reconnectBackend (id : String) : Chore
  | refreshTools : Chore
  /-- one round of health checks -/
  | runHealthChecks : Chore

/-- A chore as a task; what it yields does not matter here. -/
def Chore.run : Chore → Prog RegistryOp Unit
  | connectAll => do
    let _ ← Registry.connectAll
    .ret ()
  | reconnectBackend id => do
    let _ ← Registry.reconnectBackend id
    .ret ()
  | refreshTools => do
    let _ ← Registry.refreshTools
    .ret ()
  | runHealthChecks => Registry.runHealthChecks

/-- A task of the hub. -/
inductive HubJob : Type where
  | message (m : Incoming) : HubJob
  | chore (c : Chore) : HubJob
  | reader (object child : Nat) (output : List String) : HubJob

/-- What it is there for. -/
def HubJob.duty : HubJob → HubDuty
  | message m => .message m
  | chore c => .maintenance c.run
  | reader object child output => .reader object child output

/-! ## The locks -/

/-- The locks of all backends. They are numbered by the backend object that they belong to. -/
inductive HubLock : Type where
  | http (object : Nat) (l : HttpLock)
  | stdio (object : Nat) (l : StdioLock)
  deriving DecidableEq

def HubLock.rank : HubLock → Bool
  | http _ l => l.rank
  | stdio _ l => l.rank

/-- What each operation has to do with the locks. -/
def LiveOp.use : (β : Type) → LiveOp β → LockUse HubLock
  | _, .dispatch _ => .free
  | β, .http object o => (HttpOp.use β o).map (HubLock.http object)
  | β, .stdio object o => (StdioOp.use β o).map (HubLock.stdio object)

/-- Who holds a lock. -/
def LiveWorld.holder {ι : Type} (s : LiveWorld ι) : HubLock → Option ι
  | .http object l => (s.http object).holder l
  | .stdio object l => (s.stdio object).holder l

section Operations

variable {ι : Type}

/-- A lock of one backend changes hands, and those of the others do not. -/
theorem holder_updated {W K : Type} [DecidableEq K] (hold : W → K → Option ι) (w : Nat → W)
    (object : Nat) {u : W} {l : K} {h : Option ι}
    (hu : hold u = Function.update (hold (w object)) l h) (other : Nat) (l' : K) :
    hold (Function.update w object u other) l' =
      if other = object ∧ l' = l then h else hold (w other) l' := by
  by_cases hother : other = object
  · subst hother
    rw [Function.update_self, hu]
    by_cases hl : l' = l
    · subst hl
      simp
    · simp [hl]
  · rw [Function.update_of_ne hother, if_neg fun h => hother h.1]

theorem LiveWorld.holder_http (s : LiveWorld ι) (object : Nat) {u : HttpWorld ι} {l : HttpLock}
    {h : Option ι} (hu : u.holder = Function.update (s.http object).holder l h) :
    ({ s with http := Function.update s.http object u } : LiveWorld ι).holder =
      Function.update s.holder (.http object l) h := by
  funext l'
  cases l' with
  | http other l' =>
    simp only [Function.update_apply, HubLock.http.injEq]
    exact holder_updated HttpWorld.holder s.http object hu other l'
  | stdio other l' => rfl

theorem LiveWorld.holder_stdio (s : LiveWorld ι) (object : Nat) {u : StdioWorld ι} {l : StdioLock}
    {h : Option ι} (hu : u.holder = Function.update (s.stdio object).holder l h) :
    ({ s with stdio := Function.update s.stdio object u } : LiveWorld ι).holder =
      Function.update s.holder (.stdio object l) h := by
  funext l'
  cases l' with
  | http other l' => rfl
  | stdio other l' =>
    simp only [Function.update_apply, HubLock.stdio.injEq]
    exact holder_updated StdioWorld.holder s.stdio object hu other l'

/-- The session waits for nothing. -/
theorem dispatch_enabled (i : ι) {β : Type} (o : DispatchOp β) (s : DispatchWorld ι) :
    ∃ e r, DispatchWorld.exec i β o e s = some r := by
  have hregistry {β : Type} (o : RegistryOp β) (s : RegistryWorld ι) :
      ∃ r, RegistryWorld.exec i β o {} s = some r := by
    cases o with
    | insertBackend handle =>
      by_cases htaken : s.backends.containsKey handle.definition.id
      · exact ⟨_, if_pos htaken⟩
      · exact ⟨_, if_neg htaken⟩
    | reindex id toolNamespace hidden tools =>
      simp only [RegistryWorld.exec]
      split <;> exact ⟨_, rfl⟩
    | _ => exact ⟨_, rfl⟩
  cases o with
  | session o =>
    cases o with
    | registry o =>
      obtain ⟨r, hr⟩ := hregistry o s.session.registry
      exact ⟨{}, _, congrArg (Option.map _) (congrArg (Option.map _) hr)⟩
    | _ => exact ⟨{}, _, rfl⟩
  | _ => exact ⟨{}, _, rfl⟩

variable [DecidableEq ι]

/-- The locks of the backends are locks of the hub. -/
theorem hub_locks : Locks (liveMachine ι) LiveOp.use LiveWorld.holder where
  takes {i β o e s b t l} huse hexec := by
    cases o with
    | dispatch o => cases huse
    | http object o =>
      obtain ⟨⟨b', u⟩, hu, heq⟩ := Option.map_eq_some_iff.mp hexec
      obtain ⟨rfl, rfl⟩ := Prod.mk.inj heq
      obtain ⟨k, hpart, rfl⟩ := LockUse.map_eq_takes huse
      obtain ⟨hnone, hholder⟩ := http_locks.takes hpart hu
      exact ⟨hnone, s.holder_http object hholder⟩
    | stdio object o =>
      obtain ⟨⟨b', u⟩, hu, heq⟩ := Option.map_eq_some_iff.mp hexec
      obtain ⟨rfl, rfl⟩ := Prod.mk.inj heq
      obtain ⟨k, hpart, rfl⟩ := LockUse.map_eq_takes huse
      obtain ⟨hnone, hholder⟩ := stdio_locks.takes hpart hu
      exact ⟨hnone, s.holder_stdio object hholder⟩
  drops {i β o e s b t l} huse hexec := by
    cases o with
    | dispatch o => cases huse
    | http object o =>
      obtain ⟨⟨b', u⟩, hu, heq⟩ := Option.map_eq_some_iff.mp hexec
      obtain ⟨rfl, rfl⟩ := Prod.mk.inj heq
      obtain ⟨k, hpart, rfl⟩ := LockUse.map_eq_drops huse
      exact s.holder_http object (http_locks.drops hpart hu)
    | stdio object o =>
      obtain ⟨⟨b', u⟩, hu, heq⟩ := Option.map_eq_some_iff.mp hexec
      obtain ⟨rfl, rfl⟩ := Prod.mk.inj heq
      obtain ⟨k, hpart, rfl⟩ := LockUse.map_eq_drops huse
      exact s.holder_stdio object (stdio_locks.drops hpart hu)
  keeps {i β o e s b t} huse hexec := by
    cases o with
    | dispatch o =>
      obtain ⟨r, -, heq⟩ := Option.map_eq_some_iff.mp hexec
      obtain ⟨-, rfl⟩ := Prod.mk.inj heq
      funext l
      cases l <;> rfl
    | http object o =>
      obtain ⟨⟨b', u⟩, hu, heq⟩ := Option.map_eq_some_iff.mp hexec
      obtain ⟨rfl, rfl⟩ := Prod.mk.inj heq
      have hkept : u.holder = (s.http object).holder := http_locks.keeps (fun l =>
        ⟨fun h => (huse (.http object l)).1 (congrArg (LockUse.map _) h),
          fun h => (huse (.http object l)).2 (congrArg (LockUse.map _) h)⟩) hu
      rw [← Function.update_eq_self HttpLock.reinit (s.http object).holder] at hkept
      rw [s.holder_http object hkept]
      exact Function.update_eq_self (HubLock.http object .reinit) s.holder
    | stdio object o =>
      obtain ⟨⟨b', u⟩, hu, heq⟩ := Option.map_eq_some_iff.mp hexec
      obtain ⟨rfl, rfl⟩ := Prod.mk.inj heq
      have hkept : u.holder = (s.stdio object).holder := stdio_locks.keeps (fun l =>
        ⟨fun h => (huse (.stdio object l)).1 (congrArg (LockUse.map _) h),
          fun h => (huse (.stdio object l)).2 (congrArg (LockUse.map _) h)⟩) hu
      rw [← Function.update_eq_self StdioLock.write (s.stdio object).holder] at hkept
      rw [s.holder_stdio object hkept]
      exact Function.update_eq_self (HubLock.stdio object .write) s.holder
  enabled i {β o s} hwaits hfree := by
    cases o with
    | dispatch o =>
      obtain ⟨e, r, hr⟩ := dispatch_enabled i o s.dispatch
      exact ⟨{ dispatch := e }, _, congrArg (Option.map _) hr⟩
    | http object o =>
      obtain ⟨e, r, hr⟩ := http_locks.enabled i (o := o) (s := s.http object)
        (fun h => hwaits (congrArg (LockUse.map _) h))
        fun l hl => hfree (.http object l) (hl.imp (congrArg (LockUse.map _))
          (congrArg (LockUse.map _)))
      exact ⟨{ http := e }, _, congrArg (Option.map _) hr⟩
    | stdio object o =>
      obtain ⟨e, r, hr⟩ := stdio_locks.enabled i (o := o) (s := s.stdio object)
        (fun h => hwaits (congrArg (LockUse.map _) h))
        fun l hl => hfree (.stdio object l) (hl.imp (congrArg (LockUse.map _))
          (congrArg (LockUse.map _)))
      exact ⟨{ stdio := e }, _, congrArg (Option.map _) hr⟩

end Operations

/-! ## The tasks -/

section Tasks

variable {α : Type} {mayWait : Prop} {backends : Nat → Implementation}

/-- The program takes and drops its locks in order. -/
abbrev HubOrderly (mayWait : Prop) (p : Prog LiveOp α) : Prop :=
  p.Orderly LiveOp.use HubLock.rank mayWait [] []

/-- A program inside a backend. -/
theorem orderly_http (object : Nat) {p : Prog HttpOp α} (hp : HttpOrderly [] p) :
    HubOrderly False (p.lift (LiveOp.http object)) := by
  have hlift : (p.lift (LiveOp.http object)).Orderly LiveOp.use HubLock.rank False
      (List.map (HubLock.http object) []) (List.map (HubLock.http object) []) :=
    Prog.Orderly.lift (fun _ _ => rfl) (fun _ => rfl) hp
  exact hlift

theorem orderly_stdio (object : Nat) {p : Prog StdioOp α} (hp : StdioOrderly mayWait p) :
    HubOrderly mayWait (p.lift (LiveOp.stdio object)) := by
  have hlift : (p.lift (LiveOp.stdio object)).Orderly LiveOp.use HubLock.rank mayWait
      (List.map (HubLock.stdio object) []) (List.map (HubLock.stdio object) []) :=
    Prog.Orderly.lift (fun _ _ => rfl) (fun _ => rfl) hp
  exact hlift

/-- What a client does takes its locks in order, whatever it asks of the backends. -/
theorem orderly_client (p : Prog DispatchOp α) :
    HubOrderly False (p.interp (hubStands backends)) := by
  refine Prog.orderly_interp (fun {δ} o => ?_) p
  by_cases ho : o.Calls
  · cases o with
    | session o =>
      cases o with
      | registry o =>
        cases o with
        | backend object method =>
          change HubOrderly False ((backends object).run object method)
          cases backends object with
          | http b => exact orderly_http object (b.orderly_run method)
          | stdio b => exact orderly_stdio object (b.orderly_run method)
        | _ => cases ho
      | _ => cases ho
    | _ => cases ho
  · rw [hubStands_of_not_calls ho]
    exact Prog.orderly_op rfl fun _ => rfl

/-- The task is the reader task of a child. -/
def HubJob.IsReader : HubJob → Prop
  | .reader _ _ _ => True
  | _ => False

variable {prettyText serdeText : Value → String}

/-- Every task takes its locks in order, and a reader task may wait. -/
theorem HubJob.orderly (job : HubJob) :
    HubOrderly job.IsReader ((job.duty.task prettyText serdeText).run backends) := by
  cases job with
  | message m => exact orderly_client _
  | chore c => exact orderly_client _
  | reader object child output =>
    refine Prog.Orderly.bind ?_ fun _ => rfl
    cases hbackend : backends object with
    | http b => rfl
    | stdio b => exact orderly_stdio object (b.orderly_readerTask child output)

end Tasks

/-! ## Runs -/

section Runs

variable {ι : Type} [DecidableEq ι] {backends : Nat → Implementation} {start : LiveWorld ι}
  {jobs : ι → HubJob} {prettyText serdeText : Value → String}

/-- The tasks of a hub. -/
def jobPool (backends : Nat → Implementation) (prettyText serdeText : Value → String)
    (start : LiveWorld ι) (jobs : ι → HubJob) : Pool LiveOp ι (LiveWorld ι) Unit :=
  hubPool backends start fun i => (jobs i).duty.task prettyText serdeText

/-- The task has returned or panicked, or it is a reader task whose child has not been started. -/
def HubJob.Over (job : HubJob) (s : LiveWorld ι) (p : Prog LiveOp Unit) : Prop :=
  p.Ended ∨ job.IsReader ∧ ∃ object child k,
    p = .op (.stdio object (.beginReading child)) k ∧ child ∉ (s.stdio object).reading

/-- A task that waits for something else than a lock waits for a child. -/
theorem over_of_atRest {c : Pool LiveOp ι (LiveWorld ι) Unit} {i : ι} {job : HubJob}
    (hstuck : ∀ l, (liveMachine ι).step l c = none)
    (hrest : AtRest LiveOp.use job.IsReader (c.task i)) : job.Over c.shared (c.task i) := by
  rcases hrest with hended | ⟨hreader, δ, o, k, hop, huse⟩
  · exact .inl hended
  · refine .inr ⟨hreader, ?_⟩
    cases o with
    | dispatch o => cases huse
    | http object o =>
      cases o with
      | oauth o => cases o <;> cases huse
      | _ => cases huse
    | stdio object o =>
      cases o with
      | beginReading child =>
        refine ⟨object, child, k, hop, fun hreading => ?_⟩
        have hexec : (liveMachine ι).exec i Unit (.stdio object (.beginReading child)) {} c.shared =
            some ((), { c.shared with
              stdio := Function.update c.shared.stdio object (c.shared.stdio object) }) :=
          congrArg (Option.map _) (if_pos hreading)
        have hstep := hstuck (i, {})
        rw [Machine.step, hop, Machine.fire, hexec] at hstep
        cases hstep
      | _ => cases huse

/-- **The hub comes to an end where its peers answer**: from every state that finitely many tasks
of a hub reach, in any order of their steps, there is a way to go on after which every request and
every chore has returned or panicked, and so has every reader task whose child was started. On the
way the environment answers what is waited for, be it a backend (or its timeout), a token endpoint,
a browser, a user or a child that is written to. Nobody waits for ever for a lock. -/
theorem hub_completes [Finite ι] (hfree : ∀ l, start.holder l = none) {ls : List (ι × LiveChoice)}
    {c : Pool LiveOp ι (LiveWorld ι) Unit}
    (hplay : (liveMachine ι).play ls (jobPool backends prettyText serdeText start jobs) = some c) :
    ∃ ls' c', (liveMachine ι).play ls' c = some c' ∧
      ∀ i, (jobs i).Over c'.shared (c'.task i) := by
  have hinit : Ordered LiveOp.use LiveWorld.holder HubLock.rank (fun i => (jobs i).IsReader)
      (jobPool backends prettyText serdeText start jobs) :=
    ordered_init hfree fun i => (jobs i).orderly
  obtain ⟨ls', c', hplay', hstuck, hrest⟩ := (hinit.play hub_locks hplay).completes hub_locks
  exact ⟨ls', c', hplay', fun i => over_of_atRest hstuck (hrest i)⟩

end Runs

/-! ### In the middle of a handshake -/

/-- The hub reconnects its backend. -/
def reconnectJobs : Fin 2 → HubJob
  | 0 => .chore (.reconnectBackend "api")
  | 1 => .reader 0 0 [initializeLine "0"]

/-- It holds the lock for the `initialize` request, and both tasks can come to their ends. -/
theorem reconnect_completes :
    ∃ c, (liveMachine (Fin 2)).play (handshakeTurn 0 15 (.ok ()))
        (jobPool (fun _ => .stdio sampleStdio) (fun _ => "") (fun _ => "") oneChildHub
          reconnectJobs) = some c ∧ c.shared.holder (.stdio 0 .write) = some 0 ∧
      ∃ ls' c', (liveMachine (Fin 2)).play ls' c = some c' ∧
        ∀ i, (reconnectJobs i).Over c'.shared (c'.task i) := by
  have hrun : ((liveMachine (Fin 2)).play (handshakeTurn 0 15 (.ok ()))
      (jobPool (fun _ => .stdio sampleStdio) (fun _ => "") (fun _ => "") oneChildHub
        reconnectJobs)).map (fun c => c.shared.holder (.stdio 0 .write)) = some (some 0) := by
    decide +kernel
  obtain ⟨c, hplay, hheld⟩ := Option.map_eq_some_iff.mp hrun
  have hfree : ∀ l, oneChildHub.holder l = none := by
    rintro (⟨object, l⟩ | ⟨object, l⟩) <;> cases l <;> rfl
  exact ⟨c, hplay, hheld, hub_completes hfree hplay⟩

end HeadlessMcp
