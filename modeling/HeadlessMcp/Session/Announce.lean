import HeadlessMcp.Async.Ledger
import HeadlessMcp.Registry.Startup
import HeadlessMcp.Registry.Unregister
import HeadlessMcp.Session.Listen
import HeadlessMcp.Session.Ownership

/-!
# What is announced

A client that listens for changes of the tool list is told of them through a broadcast channel:
the session sends a change, and the task of each `subscriptions/listen` stream queues a message
for it. The session sends one at a single place, after `handle_tools_call` has reconnected a
backend. So a change of the visible list is announced when it is made there
(`changes_are_announced`), and the health checks make theirs in silence.
-/

namespace HeadlessMcp

open Async

/-! ## The stream -/

/-- What has become of a stream: when all that was sent since has been received, and something
was, a message has been queued. -/
structure Follows (base : ListenStream) (sent : Nat) (st : ListenStream) : Prop where
  tools : st.tools = base.tools
  subId : st.subId = base.subId
  next : st.next ≤ sent
  queued : ∃ later, st.queued = later ++ base.queued ∧
    (∀ m ∈ later, m = listChangedMessage base.subId) ∧
    (st.next = base.next ∨ st.next < sent ∨ (base.tools = true → later ≠ []))

theorem Follows.refl {base : ListenStream} {sent : Nat} (h : base.next ≤ sent) :
    Follows base sent base :=
  ⟨rfl, rfl, h, [], rfl, nofun, .inl rfl⟩

/-- More may be sent. -/
theorem Follows.send {base st : ListenStream} {sent sent' : Nat} (h : Follows base sent st)
    (hle : sent ≤ sent') : Follows base sent' st := by
  obtain ⟨later, hqueued, hlater, hcaught⟩ := h.queued
  refine ⟨h.tools, h.subId, h.next.trans hle, later, hqueued, hlater, ?_⟩
  exact hcaught.imp_right (Or.imp_left (·.trans_le hle))

/-- A turn of the stream's task. -/
theorem Follows.turn {base st st' : ListenStream} {sent : Nat} (h : Follows base sent st)
    (hturn : st.turn sent = some st') : Follows base sent st' := by
  obtain ⟨later, hqueued, hlater, -⟩ := h.queued
  rw [ListenStream.turn] at hturn
  split at hturn
  · cases hturn
  rename_i hnext
  have hlt : st.next < sent := lt_of_le_of_ne h.next hnext
  split at hturn
  · -- it lags behind
    rename_i hlag
    obtain rfl := Option.some.inj hturn
    have hcapacity : 0 < changeCapacity := by decide
    refine ⟨h.tools, h.subId, Nat.sub_le _ _, later, hqueued, hlater, .inr (.inl ?_)⟩
    exact Nat.sub_lt (by omega) hcapacity
  · obtain rfl := Option.some.inj hturn
    by_cases htools : st.tools = true
    · refine ⟨h.tools, h.subId, hlt, listChangedMessage st.subId :: later, ?_, ?_, ?_⟩
      · simp only [if_pos htools, hqueued, List.cons_append]
      · exact List.forall_mem_cons.mpr ⟨by rw [h.subId], hlater⟩
      · exact .inr (.inr fun _ => List.cons_ne_nil _ _)
    · refine ⟨h.tools, h.subId, hlt, later, ?_, hlater, .inr (.inr fun hbase => ?_)⟩
      · simp only [if_neg htools, hqueued]
      · exact (htools (h.tools.trans hbase)).elim

/-- **A stream that has received all that was sent** has a message for the last of it. A turn that
cannot be taken means that the stream has caught up with everything sent. -/
theorem Follows.drained {base st : ListenStream} {sent : Nat} (h : Follows base sent st)
    (hdrained : st.turn sent = none) (htools : base.tools = true) (hsent : base.next < sent) :
    ∃ later, st.queued = later ++ base.queued ∧ listChangedMessage base.subId ∈ later := by
  have hnext : st.next = sent := by
    by_contra hnext
    rw [ListenStream.turn, if_neg hnext] at hdrained
    split at hdrained <;> cases hdrained
  obtain ⟨later, hqueued, hlater, hcaught⟩ := h.queued
  refine ⟨later, hqueued, ?_⟩
  -- every message in its queue is the same, and there is at least one
  have hne : later ≠ [] := by
    rcases hcaught with heq | hlt | hne
    · omega
    · omega
    · exact hne htools
  obtain ⟨m, hm⟩ := List.exists_mem_of_ne_nil _ hne
  exact hlater m hm ▸ hm

/-! ## The tasks of a session -/

/-- A request of a client, or a task of the hub. -/
inductive SessionTask : Type where
  | toolsCall (params : Option Value) (ctx : RequestCtx) : SessionTask
  | eventsList (ctx : RequestCtx) : SessionTask
  | eventRequest (method : String) (params : Option Value) (ctx : RequestCtx) : SessionTask
  | hub (task : HubTask) : SessionTask

/-- A task of the session; what it returns does not matter here. -/
def SessionTask.run (prettyText serdeText : Value → String) : SessionTask → Prog SessionOp Unit
  | .toolsCall params ctx => do
    let _ ← Session.handleToolsCall prettyText serdeText params ctx
    .ret ()
  | .eventsList ctx => do
    let _ ← Session.handleEventsList ctx
    .ret ()
  | .eventRequest method params ctx => do
    let _ ← Session.forwardEventRequest method params ctx
    .ret ()
  | .hub task => do
    let _ ← registryDo task.run
    .ret ()

/-- A `tools/call`. -/
def SessionTask.isCall : SessionTask → Bool
  | .toolsCall _ _ => true
  | _ => false

/-- How far a `tools/call` is. What matters is whether it has reconnected a backend and has not
said so yet. -/
inductive CallPhase : Type where
  /-- it has not resolved its tool yet: what it connects now, it reconnects -/
  | unresolved
  /-- it has reconnected a backend, and has to say so -/
  | owing
  | resolved
  deriving DecidableEq

/-- What an operation makes of the phase. -/
def CallPhase.next : {β : Type} → SessionOp β → β → CallPhase → CallPhase
  | _, .registry (.resolve _), _, _ => .resolved
  | _, .registry (.reindex _ _ _ _), .ok _, .unresolved => .owing
  | _, .notifyToolsListChanged, _, _ => .unresolved
  | _, _, _, phase => phase

/-- The operation tells the listeners of a change. -/
def SessionOp.announces {β : Type} : SessionOp β → Bool
  | .notifyToolsListChanged => true
  | _ => false

/-- A reconnection is announced before anything else is done. So a call that owes an announcement
can do nothing else until it has made it. -/
def callLedger : Ledger SessionOp CallPhase where
  next := CallPhase.next
  inOrder o phase := phase = .owing → o.announces = true

/-- An operation that leaves the phase as it is. -/
def SessionOp.Steady {β : Type} : SessionOp β → Prop
  | .registry (.resolve _) | .registry (.reindex _ _ _ _) | .notifyToolsListChanged => False
  | _ => True

section Phases

variable {α β : Type} {o : SessionOp β} {b : β} {phase : CallPhase}

theorem next_steady (ho : o.Steady) : CallPhase.next o b phase = phase := by
  cases o with
  | registry o =>
    cases o with
    | resolve exposedName => exact ho.elim
    | reindex id toolNamespace hidden tools => exact ho.elim
    | _ => rfl
  | notifyToolsListChanged => exact ho.elim
  | _ => rfl

theorem next_resolved {o : RegistryOp β} :
    CallPhase.next (.registry o) b .resolved = .resolved := by
  cases o with
  | reindex id toolNamespace hidden tools => cases b <;> rfl
  | _ => rfl

/-- As long as nothing is owed, everything may be done. -/
theorem inOrder_unresolved (o : SessionOp β) : callLedger.inOrder o .unresolved :=
  fun h => by cases h

/-- Steady operations leave the phase. -/
theorem keeps_unresolved {p : Prog SessionOp α} (hp : p.Uses SessionOp.Steady) :
    p.Keeps callLedger (fun _ phase => phase = .unresolved) .unresolved := by
  refine Prog.Keeps.of_uses (J := fun phase : CallPhase => phase = .unresolved)
    (fun o u ho hu => ?_) hp rfl
  subst hu
  exact ⟨nofun, fun b => next_steady ho⟩

/-- Once the tool is resolved, nothing that the registry does has to be announced. -/
theorem keeps_resolved (p : Prog RegistryOp α) :
    (registryDo p).Keeps callLedger (fun _ phase => phase = .resolved) .resolved := by
  have hp : (registryDo p).Uses (fun o => ∃ o', o = SessionOp.registry o') :=
    Prog.uses_lift (fun o => ⟨o, rfl⟩) p
  refine Prog.Keeps.of_uses (J := fun phase : CallPhase => phase = .resolved)
    (fun o u ho hu => ?_) hp rfl
  obtain ⟨o', rfl⟩ := ho
  subst hu
  exact ⟨nofun, fun b => next_resolved⟩

/-- A connection before that is announced when it succeeds. -/
theorem keeps_connectBackend_unresolved (id : String) :
    (registryDo (Registry.connectBackend id)).Keeps callLedger
      (fun r phase => phase = match r with
        | .ok _ => .owing
        | .error _ => .unresolved) .unresolved := by
  simp only [registryDo, Registry.connectBackend, Prog.bind_eq, Prog.perform_bind, Prog.lift]
  refine ⟨inOrder_unresolved _, fun found => ?_⟩
  -- not registered, no connection, or no listing: nothing is indexed
  rcases found with _ | handle
  · rfl
  refine ⟨inOrder_unresolved _, fun init => ?_⟩
  rcases init with err | init
  · rfl
  refine ⟨inOrder_unresolved _, fun _ => ⟨inOrder_unresolved _, fun tools => ?_⟩⟩
  rcases tools with err | tools
  · rfl
  · -- the index takes the listing, or refuses it
    refine ⟨inOrder_unresolved _, fun r => ?_⟩
    rcases r with err | _ <;> rfl

/-- A reconnection on call is announced. -/
theorem keeps_reconnectOnCall (toolName : String) (backend : Option String) :
    (Session.reconnectOnCall toolName backend).Keeps callLedger
      (fun _ phase => phase = .unresolved) .unresolved := by
  rcases backend with _ | id
  · rfl
  simp only [Session.reconnectOnCall, Prog.bind_eq]
  have hindexed : (registryDo (Registry.hasTool toolName)).Uses SessionOp.Steady :=
    ⟨trivial, fun _ => trivial⟩
  have hhealthy : (registryDo (Registry.isHealthy id)).Uses SessionOp.Steady :=
    ⟨trivial, fun _ => trivial⟩
  refine Prog.Keeps.bind ((keeps_unresolved hindexed).mono fun indexed _ h => ?_)
  subst h
  -- the name is indexed, or the backend healthy: nothing is owed
  split
  · rfl
  refine Prog.Keeps.bind ((keeps_unresolved hhealthy).mono fun healthy _ h => ?_)
  subst h
  split
  · rfl
  have hreconnect : (registryDo (Registry.reconnectBackend id)).Keeps callLedger
      (fun r phase => phase = match r with
        | .ok _ => .owing
        | .error _ => .unresolved) .unresolved := by
    simp only [registryDo, Registry.reconnectBackend, Prog.bind_eq, Prog.perform_bind, Prog.lift]
    refine ⟨inOrder_unresolved _, fun found => ?_⟩
    rcases found with _ | handle
    · exact keeps_connectBackend_unresolved id
    · exact ⟨inOrder_unresolved _, fun _ => keeps_connectBackend_unresolved id⟩
  refine Prog.Keeps.bind (hreconnect.mono fun r phase h => ?_)
  subst h
  -- what a reconnection has indexed is announced at once
  rcases r with err | _
  · rfl
  · exact ⟨fun _ => rfl, fun _ => rfl⟩

/-- **A `tools/call` owes nobody an announcement when it ends.** This is the walk through the
handler; what others do meanwhile does not matter for it. -/
theorem keeps_callTool (prettyText : Value → String) (params : ToolCallParams) (ctx : RequestCtx) :
    (Session.callTool prettyText params ctx).Keeps callLedger (fun _ phase => phase ≠ .owing)
      .unresolved := by
  have hbackend : (registryDo (Registry.backendOfTool params.name)).Uses SessionOp.Steady := by
    refine ⟨trivial, fun found => ?_⟩
    rcases found with _ | routed
    · exact ⟨trivial, fun _ => trivial⟩
    · trivial
  have hforwards (backend : Option String) : (Session.forwardsMeta backend).Uses SessionOp.Steady := by
    rcases backend with _ | id
    · trivial
    · exact ⟨trivial, fun _ => trivial⟩
  simp only [Session.callTool, Prog.bind_eq]
  refine Prog.Keeps.bind ((keeps_unresolved hbackend).mono fun backend _ h => ?_)
  subst h
  refine Prog.Keeps.bind ((keeps_reconnectOnCall params.name backend).mono fun _ _ h => ?_)
  subst h
  refine Prog.Keeps.bind ((keeps_unresolved (hforwards backend)).mono fun forwards _ h => ?_)
  subst h
  have hroute (extra : Map) : (registryDo (Registry.routeCallWith params.name params.arguments extra
      defaultCallTimeoutSecs)).Keeps callLedger (fun _ phase => phase = .resolved)
        .unresolved := by
    simp only [registryDo, Registry.routeCallWith, Prog.bind_eq, Prog.perform_bind, Prog.lift]
    exact ⟨inOrder_unresolved _, fun found => keeps_resolved _⟩
  refine Prog.Keeps.bind ((hroute _).mono fun r _ h => ?_)
  subst h
  -- the call has been resolved, so whatever follows owes nothing
  rcases r with err | value
  · have hhint : (Session.hintFor err backend).Keeps callLedger
        (fun _ phase => phase = .resolved) .resolved := by
      rcases backend with _ | id
      · rfl
      rw [Session.hintFor]
      split
      · exact keeps_resolved _
      · rfl
    refine Prog.Keeps.bind (hhint.mono fun hint _ h => ?_)
    subst h
    exact fun h => by cases h
  · exact fun h => by cases h

theorem keeps_handleToolsCall (prettyText serdeText : Value → String) (params : Option Value)
    (ctx : RequestCtx) : (Session.handleToolsCall prettyText serdeText params ctx).Keeps callLedger
      (fun _ phase => phase ≠ .owing) .unresolved := by
  have haccepted : (Session.requireInitialized ctx).Uses SessionOp.Steady := by
    simp only [Session.requireInitialized, Prog.bind_eq, Prog.perform_bind]
    split
    · trivial
    · refine ⟨trivial, fun ready => ?_⟩
      cases ready <;> trivial
  simp only [Session.handleToolsCall, Prog.bind_eq]
  refine Prog.Keeps.bind ((keeps_unresolved haccepted).mono fun accepted _ h => ?_)
  subst h
  -- not initialised, no parameters, malformed parameters, or a call
  rcases accepted with err | _
  · exact fun h => by cases h
  rcases params with _ | v
  · exact fun h => by cases h
  dsimp only
  rcases v.toToolCallParams with _ | params
  · exact fun h => by cases h
  · exact keeps_callTool prettyText params ctx

end Phases

/-! ## Runs -/

section Runs

variable {ι : Type} [DecidableEq ι] {tasks : ι → SessionTask} {i : ι} {l : ι × RegistryChoice}

/-- A state of the session and what led to it. -/
abbrev SessionRun (ι : Type) := Recorded SessionOp ι (SessionWorld ι)

/-- The tasks of a session. -/
abbrev SessionPool (ι : Type) := Pool SessionOp ι (SessionRun ι) Unit

variable {c c' : SessionPool ι}

/-- The tasks of a run of the session. -/
def sessionTasks (prettyText serdeText : Value → String) (s : SessionWorld ι)
    (tasks : ι → SessionTask) : SessionPool ι :=
  ⟨⟨s, []⟩, fun i => (tasks i).run prettyText serdeText⟩

/-- How far the call of a task is. -/
def phaseOf (i : ι) (s : SessionRun ι) : CallPhase := callLedger.after .unresolved i s.log

/-- The operation indexes the tools of a backend, without an error. -/
def SessionOp.indexes {β : Type} : SessionOp β → β → Bool
  | .registry (.reindex _ _ _ _), .ok _ => true
  | _, _ => false

/-- The visible list only changes in a step in which a `tools/call` that has not resolved its
tool yet indexes the tools of a backend without an error, that is, reconnects it. -/
def ChangesOnCall (tasks : ι → SessionTask) : Rule SessionOp ι RegistryChoice (SessionRun ι) :=
  fun i β o e s => ∀ b t, (sessionMachine ι).exec i β o e s.state = some (b, t) →
    t.registry.visibleTools = s.state.registry.visibleTools ∨
      ((tasks i).isCall = true ∧ phaseOf i s = .unresolved ∧ o.indexes b = true)

/-- A step announces at most one change. -/
theorem notified_step (h : (sessionMachine ι).recorded.step l c = some c') :
    c.shared.state.notified ≤ c'.shared.state.notified := by
  obtain ⟨q, hfire, -⟩ := (sessionMachine ι).recorded.step_eq_some h
  obtain ⟨δ, o, k, b, -, hexec, -⟩ := (sessionMachine ι).recorded.fire_eq_some hfire
  obtain ⟨hexec, -⟩ := Machine.recorded_exec hexec
  -- only the announcement itself is counted
  cases o with
  | registry o =>
    obtain ⟨r, -, heq⟩ := Option.map_eq_some_iff.mp hexec
    obtain ⟨-, hstate⟩ := Prod.mk.inj heq
    rw [← hstate]
  | isInitialized =>
    obtain ⟨-, hstate⟩ := Prod.mk.inj (Option.some.inj hexec)
    rw [← hstate]
  | setInitialized =>
    obtain ⟨-, hstate⟩ := Prod.mk.inj (Option.some.inj hexec)
    rw [← hstate]
  | notifyToolsListChanged =>
    obtain ⟨-, hstate⟩ := Prod.mk.inj (Option.some.inj hexec)
    rw [← hstate]
    exact Nat.le_succ _

theorem notified_play {ls : List (ι × RegistryChoice)}
    (h : (sessionMachine ι).recorded.play ls c = some c') :
    c.shared.state.notified ≤ c'.shared.state.notified :=
  (sessionMachine ι).recorded.play_induct (C := fun _ _ _ _ _ => True)
    (P := fun c' => c.shared.state.notified ≤ c'.shared.state.notified)
    (fun _ _ _ hc _ hstep => hc.trans (notified_step hstep)) le_rfl
    ((sessionMachine ι).recorded.meets_true ls c) h

/-- **What is owed is announced.** By then the number of the changes that were sent has grown. -/
theorem announced_of_owing {ls : List (ι × RegistryChoice)} {Q : Unit → CallPhase → Prop}
    (hkeeps : (c.task i).Keeps callLedger Q (phaseOf i c.shared))
    (howing : phaseOf i c.shared = .owing)
    (hplay : (sessionMachine ι).recorded.play ls c = some c')
    (hpaid : phaseOf i c'.shared ≠ .owing) :
    c.shared.state.notified < c'.shared.state.notified := by
  -- by induction on the run: the first step of the debtor must be the announcement
  induction ls generalizing c with
  | nil =>
    obtain rfl := Option.some.inj hplay
    exact absurd howing hpaid
  | cons l ls ih =>
    rw [Machine.play_cons, Option.bind_eq_some_iff] at hplay
    obtain ⟨c₁, hstep, hplay⟩ := hplay
    -- its own step, or that of another task
    by_cases hi : i = l.1
    · obtain ⟨q, hfire, -⟩ := (sessionMachine ι).recorded.step_eq_some hstep
      obtain ⟨δ, o, k, b, hop, hexec, -⟩ := (sessionMachine ι).recorded.fire_eq_some hfire
      obtain ⟨hexec, -⟩ := Machine.recorded_exec hexec
      rw [hi, hop] at hkeeps
      have horder := hkeeps.1 (hi ▸ howing)
      cases o with
      | notifyToolsListChanged =>
        obtain ⟨-, hstate⟩ := Prod.mk.inj (Option.some.inj hexec)
        refine lt_of_lt_of_le ?_ (notified_play hplay)
        rw [← hstate]
        exact Nat.lt_succ_self _
      | _ => cases horder
    · have hphase : phaseOf i c₁.shared = phaseOf i c.shared := by
        obtain ⟨q, hfire, -⟩ := (sessionMachine ι).recorded.step_eq_some hstep
        obtain ⟨δ, o, k, b, -, hexec, -⟩ := (sessionMachine ι).recorded.fire_eq_some hfire
        rw [phaseOf, (Machine.recorded_exec hexec).2, Ledger.after_other (Ne.symm hi)]
        rfl
      refine lt_of_le_of_lt (notified_step hstep) (ih (Ledger.keeps_step hkeeps hstep) ?_ hplay)
      rw [hphase, howing]

/-! ### With a stream -/

/-- A step of the session, or a turn of the stream's task. The task of the stream reads how many
changes were sent, and touches nothing else of the session. -/
def listenStep : Option (ι × RegistryChoice) → SessionPool ι × ListenStream →
    Option (SessionPool ι × ListenStream)
  | some l, (c, st) => ((sessionMachine ι).recorded.step l c).map fun c => (c, st)
  | none, (c, st) => (st.turn c.shared.state.notified).map fun st => (c, st)

/-- Play a schedule of both. -/
def listenPlay : List (Option (ι × RegistryChoice)) → SessionPool ι × ListenStream →
    Option (SessionPool ι × ListenStream)
  | [], x => some x
  | l :: ls, x => (listenStep l x).bind (listenPlay ls)

/-- The session runs as it does without the stream, and the stream follows it. -/
theorem listenPlay_follows {ls : List (Option (ι × RegistryChoice))} {base st st' : ListenStream}
    (h : Follows base c.shared.state.notified st) (hplay : listenPlay ls (c, st) = some (c', st')) :
    (sessionMachine ι).recorded.play (ls.filterMap id) c = some c' ∧
      Follows base c'.shared.state.notified st' := by
  induction ls generalizing c st with
  | nil =>
    obtain ⟨rfl, rfl⟩ := Prod.mk.inj (Option.some.inj hplay)
    exact ⟨rfl, h⟩
  | cons l ls ih =>
    rw [listenPlay, Option.bind_eq_some_iff] at hplay
    obtain ⟨⟨c₁, st₁⟩, hstep, hplay⟩ := hplay
    -- the stream takes its turn, or the session makes a step
    rcases l with _ | l
    · obtain ⟨_, hturn, heq⟩ := Option.map_eq_some_iff.mp hstep
      obtain ⟨rfl, rfl⟩ := Prod.mk.inj heq
      rw [List.filterMap_cons_none rfl]
      exact ih (h.turn hturn) hplay
    · obtain ⟨_, hsession, heq⟩ := Option.map_eq_some_iff.mp hstep
      obtain ⟨rfl, rfl⟩ := Prod.mk.inj heq
      obtain ⟨hrest, hfollows⟩ := ih (h.send (notified_step hsession)) hplay
      refine ⟨?_, hfollows⟩
      change (sessionMachine ι).recorded.play (l :: ls.filterMap id) c = some c'
      rw [Machine.play_cons, hsession]
      exact hrest

/-- No task is in progress: each of them has returned, or has not started. -/
def SessionIdle (c : SessionPool ι) : Prop :=
  ∀ i, c.task i = .ret () ∨ ∀ p ∈ c.shared.log, p.caller ≠ i

/-- A call that has indexed the tools of a backend before it resolved its own owes an
announcement. -/
theorem owing_of_step (hstep : (sessionMachine ι).recorded.step l c = some c')
    (hchange : ∀ (β : Type) (o : SessionOp β) (k : β → Prog SessionOp Unit) b t,
      c.task l.1 = .op o k → (sessionMachine ι).exec l.1 β o l.2 c.shared.state = some (b, t) →
        phaseOf l.1 c.shared = .unresolved ∧ o.indexes b = true) :
    phaseOf l.1 c'.shared = .owing := by
  obtain ⟨q, hfire, -⟩ := (sessionMachine ι).recorded.step_eq_some hstep
  obtain ⟨δ, o, k, b, hop, hexec, -⟩ := (sessionMachine ι).recorded.fire_eq_some hfire
  obtain ⟨hexec, hlog⟩ := Machine.recorded_exec hexec
  -- the operation that has indexed the tools is the one that the step performed
  obtain ⟨hphase, hindexes⟩ := hchange δ o k b _ hop hexec
  rw [phaseOf, hlog, Ledger.after_own, ← phaseOf, hphase]
  cases o with
  | registry o =>
    cases o with
    | reindex id toolNamespace hidden tools =>
      rcases b with err | _
      · cases hindexes
      · rfl
    | _ => cases hindexes
  | _ => cases hindexes

theorem keeps_call {prettyText serdeText : Value → String} {s : SessionWorld ι}
    {ls : List (ι × RegistryChoice)} (hcall : (tasks i).isCall = true)
    (hplay : (sessionMachine ι).recorded.play ls (sessionTasks prettyText serdeText s tasks) =
      some c) :
    (c.task i).Keeps callLedger (fun _ phase => phase ≠ .owing) (phaseOf i c.shared) := by
  refine Ledger.keeps_play ?_ hplay
  rw [sessionTasks]
  dsimp only
  rcases htask : tasks i with ⟨params, ctx⟩ | ctx | ⟨method, params, ctx⟩ | task <;>
    rw [htask] at hcall
  · exact Prog.Keeps.bind ((keeps_handleToolsCall prettyText serdeText params ctx).mono
      fun _ _ h => h)
  all_goals cases hcall

/-- A task that is not in progress owes nothing. -/
theorem SessionIdle.paid (h : SessionIdle c)
    (hkeeps : (c.task i).Keeps callLedger (fun _ phase => phase ≠ .owing) (phaseOf i c.shared)) :
    phaseOf i c.shared ≠ .owing := by
  rcases h i with hret | habsent
  · rw [hret] at hkeeps
    exact hkeeps
  · rw [phaseOf, Ledger.after_absent habsent]
    exact nofun

/-- **Changes are announced**: in every run in which the visible list only changes when a
`tools/call` reconnects a backend, every change during an open stream that asked for
`toolsListChanged` is followed by a message of the stream, once no task is in progress and the
stream has received what was sent. The list is the visible one, of healthy backends. The health
checks change it too and send nothing, which is why the changes are restricted. -/
theorem changes_are_announced {prettyText serdeText : Value → String} {s : SessionWorld ι}
    {requestId : JsonRpcId} {params : Option Value} {ctx : RequestCtx}
    {ls₀ : List (ι × RegistryChoice)} {ls₁ ls₂ : List (Option (ι × RegistryChoice))}
    {c₀ c₁ c₂ : SessionPool ι} {st st₁ st₂ : ListenStream}
    (hrule : (sessionMachine ι).recorded.Meets (ChangesOnCall tasks)
      (ls₀ ++ (ls₁ ++ some l :: ls₂).filterMap id) (sessionTasks prettyText serdeText s tasks))
    (hbefore : (sessionMachine ι).recorded.play ls₀ (sessionTasks prettyText serdeText s tasks) =
      some c₀)
    (hlisten : Session.listen requestId params ctx c₀.shared.state.notified = .ok st)
    (htools : st.tools = true) (hplay₁ : listenPlay ls₁ (c₀, st) = some (c₁, st₁))
    (hstep : (sessionMachine ι).recorded.step l c₁ = some c₂)
    (hchange : c₂.shared.state.registry.visibleTools ≠ c₁.shared.state.registry.visibleTools)
    (hplay₂ : listenPlay ls₂ (c₂, st₁) = some (c, st₂)) (hidle : SessionIdle c)
    (hdrained : st₂.turn c.shared.state.notified = none) :
    ∃ later, st₂.queued = later ++ st₁.queued ∧ listChangedMessage requestId.toValue ∈ later := by
  obtain ⟨hnext, hsubId⟩ := listen_eq hlisten
  obtain ⟨hrun₁, hfollows₁⟩ := listenPlay_follows (Follows.refl hnext.le) hplay₁
  have hrun : (sessionMachine ι).recorded.play (ls₀ ++ ls₁.filterMap id)
      (sessionTasks prettyText serdeText s tasks) = some c₁ := by
    rw [Machine.play_append, hbefore]
    exact hrun₁
  rw [List.filterMap_append, ← List.append_assoc] at hrule
  have hnow := (hrule.rest _ hrun).1
  -- the change is that of a call, which owes an announcement for it
  have hcall : (tasks l.1).isCall = true ∧
      ∀ (β : Type) (o : SessionOp β) (k : β → Prog SessionOp Unit) b t,
        c₁.task l.1 = .op o k → (sessionMachine ι).exec l.1 β o l.2 c₁.shared.state = some (b, t) →
          phaseOf l.1 c₁.shared = .unresolved ∧ o.indexes b = true := by
    obtain ⟨q, hfire, -⟩ := (sessionMachine ι).recorded.step_eq_some hstep
    obtain ⟨δ, o, k, b, hop, hexec, -⟩ := (sessionMachine ι).recorded.fire_eq_some hfire
    obtain ⟨hexec, -⟩ := Machine.recorded_exec hexec
    obtain ⟨hcall, hphase, hindexes⟩ := (hnow δ o k hop b _ hexec).resolve_left hchange
    refine ⟨hcall, fun β o' k' b' t' hop' hexec' => ?_⟩
    rw [hop] at hop'
    cases hop'
    obtain ⟨rfl, -⟩ := Prod.mk.inj (Option.some.inj (hexec.symm.trans hexec'))
    exact ⟨hphase, hindexes⟩
  have howing := owing_of_step hstep hcall.2
  have hkeeps := Ledger.keeps_step (keeps_call hcall.1 hrun) hstep
  obtain ⟨hrun₂, hfollows₂⟩ := listenPlay_follows
    ((Follows.refl hfollows₁.next).send (notified_step hstep)) hplay₂
  have hsent := announced_of_owing hkeeps howing hrun₂
    (hidle.paid (Ledger.keeps_play hkeeps hrun₂))
  have hbase : st₁.next < c.shared.state.notified :=
    (hfollows₁.next.trans (notified_step hstep)).trans_lt hsent
  obtain ⟨later, hqueued, hmem⟩ :=
    hfollows₂.drained hdrained (hfollows₁.tools.trans htools) hbase
  rw [hfollows₁.subId, hsubId] at hmem
  exact ⟨later, hqueued, hmem⟩

/-- A step meets the rule when its outcome does. -/
theorem meets_outcome {e : RegistryChoice} {ls : List (ι × RegistryChoice)} {β : Type}
    {o : SessionOp β} {k : β → Prog SessionOp Unit} {b : β} {t : SessionWorld ι}
    (hop : c.task i = .op o k)
    (hexec : (sessionMachine ι).exec i β o e c.shared.state = some (b, t))
    (hrule : t.registry.visibleTools = c.shared.state.registry.visibleTools ∨
      ((tasks i).isCall = true ∧ phaseOf i c.shared = .unresolved ∧ o.indexes b = true))
    (hstep : (sessionMachine ι).recorded.step (i, e) c = some c')
    (hrest : (sessionMachine ι).recorded.Meets (ChangesOnCall tasks) ls c') :
    (sessionMachine ι).recorded.Meets (ChangesOnCall tasks) ((i, e) :: ls) c := by
  refine Machine.Meets.cons _ hop (fun b' t' hexec' => ?_) hstep hrest
  obtain ⟨rfl, rfl⟩ := Prod.mk.inj (Option.some.inj (hexec.symm.trans hexec'))
  exact hrule

end Runs

/-! ### A reconnection and a health check -/

/-- Listen for changes of the tool list. -/
def toolsListener : Except JsonRpcError ListenStream :=
  Session.listen (.number 7) (some (.object
    [("notifications", .object [("toolsListChanged", .bool true)])])) ⟨some "2026-07-28"⟩ 0

/-- A call of a tool of `x`, which is not connected. -/
def callsUnconnected : Unit → SessionTask :=
  fun _ => .toolsCall (some (.object [("name", .string "a.t")])) ⟨none⟩

/-- The backend of the call is looked up and connected. -/
def reconnecting : List (Option (Unit × RegistryChoice)) :=
  [{}, {}, {}, {}, {}, {}, {}, {}, .greeted, {}, .offering ["t"]].map fun e => some ((), e)

/-- The call goes on, and the stream takes its turn. -/
def announcing : List (Option (Unit × RegistryChoice)) :=
  [some ((), {}), some ((), {}), some ((), {}), some ((), {}), some ((), {}), none]

/-- A session with `x`, and the call. -/
def unconnectedSession : SessionPool Unit :=
  sessionTasks (fun _ => "") (fun _ => "") (sessionWith [namespacedBackend "x" "a" 0])
    callsUnconnected

/-- The call connects the backend, and the stream says so. -/
theorem reconnection_announced :
    ∃ st₀ c₁ st₁ c₂ c st₂, toolsListener = .ok st₀ ∧
      listenPlay reconnecting (unconnectedSession, st₀) = some (c₁, st₁) ∧
      (sessionMachine Unit).recorded.step ((), {}) c₁ = some c₂ ∧
      c₂.shared.state.registry.visibleTools ≠ c₁.shared.state.registry.visibleTools ∧
      listenPlay announcing (c₂, st₁) = some (c, st₂) ∧
      ∃ later, st₂.queued = later ++ st₁.queued ∧
        listChangedMessage (JsonRpcId.number 7).toValue ∈ later := by
  have hrule : (sessionMachine Unit).recorded.Meets (ChangesOnCall callsUnconnected)
      ([] ++ (reconnecting ++ some ((), {}) :: announcing).filterMap id) unconnectedSession := by
    refine meets_outcome rfl rfl (.inl rfl) rfl ?_
    refine meets_outcome rfl rfl (.inl rfl) rfl ?_
    refine meets_outcome rfl rfl (.inl rfl) rfl ?_
    refine meets_outcome rfl rfl (.inl rfl) rfl ?_
    refine meets_outcome rfl rfl (.inl rfl) rfl ?_
    refine meets_outcome rfl rfl (.inl rfl) rfl ?_
    refine meets_outcome rfl rfl (.inl rfl) rfl ?_
    refine meets_outcome rfl rfl (.inl rfl) rfl ?_
    refine meets_outcome rfl rfl (.inl rfl) rfl ?_
    refine meets_outcome rfl rfl (.inl rfl) rfl ?_
    refine meets_outcome rfl rfl (.inl rfl) rfl ?_
    -- the backend is indexed
    refine meets_outcome rfl rfl (.inr ⟨rfl, rfl, rfl⟩) rfl ?_
    refine meets_outcome rfl rfl (.inl rfl) rfl ?_
    refine meets_outcome rfl rfl (.inl rfl) rfl ?_
    refine meets_outcome rfl rfl (.inl rfl) rfl ?_
    refine meets_outcome rfl rfl (.inl rfl) rfl ?_
    refine meets_outcome rfl rfl (.inl rfl) rfl ?_
    exact trivial
  have hchanged : ∃ st₀ c₁ st₁ c₂ c st₂, toolsListener = .ok st₀ ∧ st₀.tools = true ∧
      listenPlay reconnecting (unconnectedSession, st₀) = some (c₁, st₁) ∧
      (sessionMachine Unit).recorded.step ((), {}) c₁ = some c₂ ∧
      c₂.shared.state.registry.visibleTools ≠ c₁.shared.state.registry.visibleTools ∧
      listenPlay announcing (c₂, st₁) = some (c, st₂) ∧ SessionIdle c ∧
      st₂.turn c.shared.state.notified = none := by
    refine ⟨_, _, _, _, _, _, rfl, rfl, rfl, rfl, fun h => ?_, rfl, fun _ => .inl rfl, rfl⟩
    exact absurd (congrArg List.length h) (by decide +kernel)
  obtain ⟨st₀, c₁, st₁, c₂, c, st₂, hlisten, htools, hplay₁, hstep, hchange, hplay₂, hidle, hdrained⟩ :=
    hchanged
  exact ⟨st₀, c₁, st₁, c₂, c, st₂, hlisten, hplay₁, hstep, hchange, hplay₂,
    changes_are_announced hrule rfl hlisten htools hplay₁ hstep hchange hplay₂ hidle hdrained⟩

/-- `x` is connected, and then found to be unhealthy. -/
def connectAndCheck : Fin 2 → SessionTask
  | 0 => .hub (.registry (.connect "x"))
  | 1 => .hub (.registry .runHealthChecks)

/-- A session with `x`. -/
def checkedSession : SessionPool (Fin 2) :=
  sessionTasks (fun _ => "") (fun _ => "")
    ⟨{ RegistryWorld.empty (Fin 2) with backends := [namespacedBackend "x" "a" 0] }, true, 0⟩
    connectAndCheck

/-- The health check hides the tool of `x`, and the stream stays silent. -/
theorem health_check_silent :
    ∃ c₀ c₁ c₂ c st, toolsListener = .ok st ∧ st.tools = true ∧
      (sessionMachine (Fin 2)).recorded.play
        [(0, {}), (0, .greeted), (0, {}), (0, .offering ["t"]), (0, {})] checkedSession = some c₀ ∧
      st.next = c₀.shared.state.notified ∧
      listenPlay [some (1, {}), some (1, {}), some (1, {}),
        some (1, { done := .error ⟨.connection, ""⟩ })] (c₀, st) = some (c₁, st) ∧
      (sessionMachine (Fin 2)).recorded.step (1, {}) c₁ = some c₂ ∧
      c₂.shared.state.registry.visibleTools ≠ c₁.shared.state.registry.visibleTools ∧
      listenPlay [] (c₂, st) = some (c, st) ∧ SessionIdle c ∧
      st.turn c.shared.state.notified = none ∧
      listChangedMessage (JsonRpcId.number 7).toValue ∉ st.queued := by
  refine ⟨_, _, _, _, _, rfl, rfl, rfl, rfl, rfl, rfl, fun h => ?_, rfl, fun i => ?_, rfl, ?_⟩
  · exact absurd (congrArg List.length h) (by decide +kernel)
  · match i with
    | 0 => exact .inl rfl
    | 1 => exact .inl rfl
  · intro h
    have hmessage := List.mem_singleton.mp h
    exact absurd (JsonRpcMessage.notification.inj hmessage).1 (by decide)

end HeadlessMcp
