import HeadlessMcp.Hub.Liveness

/-!
# The policy of a session

`Registry/Routing.lean` walks through the calls of a registry, one call a task, and finds that they
forward what they may. A session makes many such calls in one task, between its own operations. A
call of the registry is none the wiser: it does on the whole state what it does on a registry with
an empty record (`safe_hubDo`), so the walk is not done again, and what a session forwards as a
`tools/call` was asked for by a client (`sessionInv_of_play`).
-/

namespace HeadlessMcp

open Async

variable {ι : Type}

/-! ## The record -/

/-- An operation that calls no backend leaves the record alone. -/
theorem forwarded_of_not_calls {i : ι} {β : Type} {o : RegistryOp β} (ho : ¬ o.Calls)
    {e : RegistryChoice} {s t : RegistryWorld ι} {b : β}
    (h : RegistryWorld.exec i β o e s = some (b, t)) : t.forwarded = s.forwarded := by
  cases o with
  | backend object method => exact absurd trivial ho
  | entries =>
    obtain ⟨_, -, heq⟩ := Option.map_eq_some_iff.mp h
    obtain ⟨-, rfl⟩ := Prod.mk.inj heq
    rfl
  | insertBackend handle =>
    simp only [RegistryWorld.exec] at h
    split at h <;> obtain ⟨-, rfl⟩ := Prod.mk.inj (Option.some.inj h) <;> rfl
  | reindex id toolNamespace hidden tools =>
    simp only [RegistryWorld.exec] at h
    split at h <;> obtain ⟨-, rfl⟩ := Prod.mk.inj (Option.some.inj h)
    · exact RegistryWorld.modifyBackend_forwarded ..
    · rfl
  | setCapabilities id capabilities =>
    obtain ⟨-, rfl⟩ := Prod.mk.inj (Option.some.inj h)
    exact RegistryWorld.modifyBackend_forwarded ..
  | setHealth id healthy =>
    obtain ⟨-, rfl⟩ := Prod.mk.inj (Option.some.inj h)
    exact RegistryWorld.modifyBackend_forwarded ..
  | countAttempt id =>
    obtain ⟨-, rfl⟩ := Prod.mk.inj (Option.some.inj h)
    exact RegistryWorld.modifyBackend_forwarded ..
  -- the others touch neither the record nor a backend
  | _ =>
    obtain ⟨-, rfl⟩ := Prod.mk.inj (Option.some.inj h)
    rfl

/-- The record of a call, for somebody else. Only the caller is another one. -/
def Forwarded.onBehalfOf {κ : Type} (i : ι) (r : Forwarded κ) : Forwarded ι :=
  { r with caller := i }

/-- **A step on a registry is a step on the registry without its record**, which then has recorded
the step alone. -/
theorem RegistryWorld.exec_alone {κ : Type} {i : ι} (j : κ) {β : Type} {o : RegistryOp β}
    {e : RegistryChoice} {s t : RegistryWorld ι} {b : β}
    (h : RegistryWorld.exec i β o e s = some (b, t)) :
    ∃ u, RegistryWorld.exec j β o e (s.erased : RegistryWorld κ) = some (b, u) ∧
      t = ⟨u.backends, u.index, u.forwarded.map (·.onBehalfOf i) ++ s.forwarded⟩ := by
  -- a call is recorded; any other operation has nothing to record
  by_cases ho : o.Calls
  · cases o with
    | backend object method =>
      obtain ⟨rfl, rfl⟩ := Prod.mk.inj (Option.some.inj h)
      refine ⟨_, rfl, ?_⟩
      rw [RegistryWorld.record, RegistryWorld.record]
      cases method.forwards <;> rfl
    | _ => cases ho
  · refine ⟨t.erased, ?_, ?_⟩
    · rw [exec_erased ho, h]
      rfl
    · rw [← forwarded_of_not_calls ho h]
      rfl

/-! ## The invariant -/

/-- What holds of every state of a session: its index agrees with the definitions of the backends,
every `tools/call` that was forwarded is permitted, as part of a call that its task asked for, and
the backends are registered as they were. -/
structure SessionInv (asked : ι → RegistryCall → Prop) (base s : RegistryWorld ι) : Prop where
  index : Consistent s
  forwarded : ∀ r ∈ s.forwarded, r.method = "tools/call" →
    ∃ call, asked r.caller call ∧ Permitted (fun _ => call) s r
  registered : Extends base s

/-- The call is one of `route_call`. -/
def RegistryCall.IsRoute : RegistryCall → Prop
  | .route _ _ _ _ => True
  | _ => False

/-- Only a routed call can permit a `tools/call`. -/
theorem Permitted.isRoute {call : RegistryCall} {s : RegistryWorld ι} {r : Forwarded ι}
    (h : Permitted (fun _ => call) s r) : call.IsRoute := by
  obtain ⟨_, _, _, _, _, _, _, rfl, -⟩ := h
  trivial

variable {asked : ι → RegistryCall → Prop} {base s t : RegistryWorld ι} {i : ι}
  {call : RegistryCall} {β α : Type}

/-- Without its record the registry is that of a hub with one call. -/
theorem SessionInv.alone (hs : SessionInv asked base s) :
    HubInv (fun _ : Bool => call) base.erased s.erased := by
  refine ⟨fun entry hentry => ?_, nofun, hs.registered⟩
  obtain ⟨hbackend, hname⟩ := hs.index entry hentry
  exact ⟨hbackend, hname⟩

/-- A step that keeps the invariant of a hub with one call keeps the invariant of the session. The
hub has recorded only what this call has forwarded, and the session is the only client of what
came before. -/
theorem SessionInv.step (hs : SessionInv asked base s) (hcall : call.IsRoute → asked i call)
    {u : RegistryWorld Bool} (hu : HubInv (fun _ => call) base.erased u)
    (hext : Extends s.erased u) :
    SessionInv asked base
      ⟨u.backends, u.index, u.forwarded.map (·.onBehalfOf i) ++ s.forwarded⟩ := by
  refine ⟨fun entry hentry => ?_, fun r hr hmethod => ?_, hu.registered⟩
  · obtain ⟨hbackend, hname⟩ := hu.index entry hentry
    exact ⟨hbackend, hname⟩
  · -- what this call has forwarded, and what was forwarded before it
    rcases List.mem_append.mp hr with hr | hr
    · obtain ⟨r', hr', rfl⟩ := List.mem_map.mp hr
      have hpermitted := hu.forwarded r' hr' hmethod
      exact ⟨call, hcall hpermitted.isRoute, hpermitted⟩
    · obtain ⟨call', hasked, hpermitted⟩ := hs.forwarded r hr hmethod
      have hst : Extends s ⟨u.backends, u.index,
          u.forwarded.map (·.onBehalfOf i) ++ s.forwarded⟩ := hext
      exact ⟨call', hasked, hpermitted.extends hst⟩

/-! ## The discipline of a session -/

/-- The invariant holds throughout, and the registered backends stay as they are. -/
def policyProtocol (asked : ι → RegistryCall → Prop) (base : RegistryWorld ι) :
    Protocol ι (DispatchWorld ι) where
  inv s := SessionInv asked base s.session.registry
  rely _ s t := Extends s.session.registry t.session.registry
  rely_refl _ _ := Extends.refl _
  rely_trans _ _ _ _ := Extends.trans

/-- The program keeps the discipline, whatever it starts from. -/
abbrev PolicyKeeps (asked : ι → RegistryCall → Prop) (base : RegistryWorld ι) (i : ι)
    (p : Prog DispatchOp α) : Prop :=
  ∀ s, (policyProtocol asked base).Safe (dispatchMachine ι) (fun _ _ _ _ _ => True) i p
    (fun _ _ => True) s

theorem PolicyKeeps.bind {p : Prog DispatchOp β} {f : β → Prog DispatchOp α}
    (hp : PolicyKeeps asked base i p) (hf : ∀ b, PolicyKeeps asked base i (f b)) :
    PolicyKeeps asked base i (p.bind f) := fun s =>
  Protocol.Safe.bind <| Protocol.Safe.mono (hp s) fun x t _ _ => match x with
    | .done b => hf b t
    | .panicked => trivial

theorem policyKeeps_ret (a : α) : PolicyKeeps asked base i (.ret a) := fun _ _ _ _ => trivial

/-- **A call of the registry keeps the discipline** when it keeps that of a hub in which it is the
only call. -/
theorem safe_hubDo (call : RegistryCall) (hcall : call.IsRoute → asked i call) {p : Prog RegistryOp α}
    (hp : HubKeeps (fun _ : Bool => call) base.erased true p) :
    PolicyKeeps asked base i (hubDo p) := by
  intro s
  specialize hp s.session.registry.erased
  generalize (fun (_ : Outcome α) t => Extends s.session.registry.erased t) = Q at hp
  induction p generalizing s with
  | ret a => exact fun _ _ _ => trivial
  | panic => exact fun _ _ _ => trivial
  | op o k ih =>
    refine Protocol.safe_op fun s' hr hi e b t _ he => ?_
    obtain ⟨⟨b', w⟩, hw, heq⟩ := Option.map_eq_some_iff.mp he
    obtain ⟨rfl, rfl⟩ := Prod.mk.inj heq
    obtain ⟨⟨b', v⟩, hv, heq⟩ := Option.map_eq_some_iff.mp hw
    obtain ⟨rfl, rfl⟩ := Prod.mk.inj heq
    -- The same step without the record, where nobody else is about.
    obtain ⟨u, hu, rfl⟩ := RegistryWorld.exec_alone true hv
    obtain ⟨⟨huinv, hothers⟩, hrest⟩ := hp s'.session.registry.erased hr hi.alone e b' u trivial hu
    have hext : Extends s'.session.registry.erased u := hothers false (by decide)
    exact ⟨⟨hi.step hcall huinv hext, fun _ _ => hext⟩,
      ih b' _ (Protocol.Safe.rely hrest (Extends.refl u))⟩

/-! ## What else a session does -/

/-- An operation that forwards no `tools/call`, and neither indexes tools nor forgets a backend. -/
def RegistryOp.Spared {β : Type} : RegistryOp β → Prop
  | .reindex _ _ _ _ | .removeBackend _ => False
  | .backend _ method => ∀ params, method.forwards ≠ some ("tools/call", params)
  | _ => True

/-- Such an operation of a session, or one that is none of the registry's business. -/
def DispatchOp.Spared {β : Type} : DispatchOp β → Prop
  | .session (.registry o) => o.Spared
  | _ => True

/-- It keeps the invariant. Such an operation may forward a request, but no `tools/call`. -/
theorem SessionInv.spared (hs : SessionInv asked base s) {o : RegistryOp β} (ho : o.Spared)
    {e : RegistryChoice} {b : β} (h : RegistryWorld.exec i β o e s = some (b, t)) :
    SessionInv asked base t ∧ Extends s t := by
  -- it forwards nothing, or it is a request that is none
  by_cases hharmless : o.Harmless
  · obtain ⟨hst, hindex, hforwarded⟩ := exec_harmless hharmless h
    refine ⟨⟨fun entry hentry => (hs.index entry (hindex entry hentry)).extends hst,
      fun r hr hmethod => ?_, hs.registered.trans hst⟩, hst⟩
    obtain ⟨call, hasked, hpermitted⟩ := hs.forwarded r (hforwarded ▸ hr) hmethod
    exact ⟨call, hasked, hpermitted.extends hst⟩
  · cases o with
    | backend object method =>
      obtain ⟨-, rfl⟩ := Prod.mk.inj (Option.some.inj h)
      rcases hforwards : method.forwards with _ | ⟨name, params⟩
      · exact absurd hforwards hharmless
      have hst : Extends s (s.record i object e.value method) := by
        simp only [RegistryWorld.record, hforwards]
        exact fun _ _ h => h
      refine ⟨⟨fun entry hentry => ?_, fun r hr hmethod => ?_, hs.registered.trans hst⟩, hst⟩
      · simp only [RegistryWorld.record, hforwards] at hentry
        exact (hs.index entry hentry).extends hst
      · simp only [RegistryWorld.record, hforwards] at hr
        rcases List.mem_cons.mp hr with rfl | hr
        · obtain rfl : name = "tools/call" := hmethod
          exact absurd hforwards (ho params)
        · obtain ⟨call, hasked, hpermitted⟩ := hs.forwarded r hr hmethod
          exact ⟨call, hasked, hpermitted.extends hst⟩
    | reindex => cases ho
    | removeBackend => cases ho
    | _ => exact absurd trivial hharmless

/-- So does a program of nothing else. The two dispatchers of the session do nothing else with the
registry. -/
theorem policyKeeps_spared {p : Prog DispatchOp α} (hp : p.Uses DispatchOp.Spared) :
    PolicyKeeps asked base i p := by
  intro s
  refine Protocol.Safe.of_uses (J := fun _ => True) (fun _ _ _ _ _ => trivial)
    (fun δ o e s b t ho hi _ _ hexec => ?_) hp trivial
  suffices SessionInv asked base t.session.registry ∧
      Extends s.session.registry t.session.registry from ⟨⟨this.1, fun _ _ => this.2⟩, trivial⟩
  cases o with
  | session o =>
    obtain ⟨⟨b', u⟩, hu, heq⟩ := Option.map_eq_some_iff.mp hexec
    obtain ⟨rfl, rfl⟩ := Prod.mk.inj heq
    cases o with
    | registry o =>
      obtain ⟨⟨b', v⟩, hv, heq⟩ := Option.map_eq_some_iff.mp hu
      obtain ⟨rfl, rfl⟩ := Prod.mk.inj heq
      exact hi.spared ho hv
    | _ =>
      obtain ⟨-, rfl⟩ := Prod.mk.inj (Option.some.inj hu)
      exact ⟨hi, Extends.refl _⟩
  | _ =>
    obtain ⟨-, rfl⟩ := Prod.mk.inj (Option.some.inj hexec)
    exact ⟨hi, Extends.refl _⟩

/-! ## The handlers -/

section Handlers

/-- The registry is asked, and changes nothing that matters. -/
theorem spared_hubDo {p : Prog RegistryOp α} (hp : p.Uses RegistryOp.Spared) :
    (hubDo p).Uses DispatchOp.Spared := by
  have hsession : (registryDo p).Uses fun o => DispatchOp.Spared (.session o) := Prog.Uses.lift hp
  exact hsession.lift

theorem spared_backendRequest {id method : String} {params : Option Value} {timeoutSecs : Nat}
    (hmethod : method ≠ "tools/call") :
    (Registry.backendRequest id method params timeoutSecs).Uses RegistryOp.Spared := by
  refine ⟨trivial, fun found => ?_⟩
  rcases found with _ | handle
  · trivial
  · refine ⟨fun params' h => ?_, fun _ => trivial⟩
    exact hmethod (Prod.mk.inj (Option.some.inj h)).1

theorem spared_backendsWith (capability : String) :
    (Registry.backendsWith capability).Uses RegistryOp.Spared := ⟨trivial, fun _ => trivial⟩

theorem spared_toolNamespace (id : String) :
    (Registry.toolNamespace id).Uses RegistryOp.Spared := ⟨trivial, fun _ => trivial⟩

theorem spared_backendOfTool (exposedName : String) :
    (Registry.backendOfTool exposedName).Uses RegistryOp.Spared := by
  refine ⟨trivial, fun found => ?_⟩
  rcases found with _ | routed
  · exact ⟨trivial, fun _ => trivial⟩
  · trivial

theorem spared_requireInitialized (ctx : RequestCtx) :
    (sessionDo (Session.requireInitialized ctx)).Uses DispatchOp.Spared := by
  rw [Session.requireInitialized]
  split
  · trivial
  · refine ⟨trivial, fun initialized => ?_⟩
    cases initialized <;> trivial

/-- A handler of a client that is let in first. -/
theorem spared_gated {ctx : RequestCtx}
    {f : Except JsonRpcError Unit → Prog DispatchOp α}
    (hrefused : ∀ err, (f (.error err)).Uses DispatchOp.Spared)
    (hadmitted : (f (.ok ())).Uses DispatchOp.Spared) :
    ((sessionDo (Session.requireInitialized ctx)).bind f).Uses DispatchOp.Spared := by
  refine (spared_requireInitialized ctx).bind fun accepted => ?_
  rcases accepted with err | _
  · exact hrefused err
  · exact hadmitted

theorem spared_capabilities : Session.capabilities.Uses DispatchOp.Spared :=
  (spared_hubDo (spared_backendsWith _)).bind fun _ =>
    (spared_hubDo (spared_backendsWith _)).bind fun _ => trivial

theorem spared_listResources (ids : List String) (owners : Entries String) :
    (Session.listResources ids owners).Uses DispatchOp.Spared := by
  induction ids generalizing owners with
  | nil => trivial
  | cons id ids ih =>
    simp only [Session.listResources, Prog.bind_eq]
    refine (spared_hubDo (spared_backendRequest (by decide))).bind fun r => ?_
    rcases r with err | result
    · exact ih owners
    · exact (ih _).bind fun rest => trivial

theorem spared_handleResourcesList (ctx : RequestCtx) :
    (Session.handleResourcesList ctx).Uses DispatchOp.Spared := by
  simp only [Session.handleResourcesList, Prog.bind_eq, Prog.perform_bind]
  refine spared_gated (fun err => trivial) ?_
  refine (spared_hubDo (spared_backendsWith _)).bind fun ids => ?_
  exact (spared_listResources ids []).bind fun _ => ⟨trivial, fun _ => trivial⟩

theorem spared_readFrom (uri : String) (owner : Option String) :
    (Session.readFrom uri owner).Uses DispatchOp.Spared := by
  rcases owner with _ | owner
  · trivial
  simp only [Session.readFrom, Prog.bind_eq]
  refine (spared_hubDo (spared_backendRequest (by decide))).bind fun r => ?_
  rcases r <;> trivial

theorem spared_handleResourcesRead (params : Option Value) (ctx : RequestCtx) :
    (Session.handleResourcesRead params ctx).Uses DispatchOp.Spared := by
  simp only [Session.handleResourcesRead, Prog.bind_eq, Prog.perform_bind]
  refine spared_gated (fun err => trivial) ?_
  dsimp only
  rcases (params.bind (·.get "uri")).bind Value.asStr with _ | uri
  · trivial
  refine ⟨trivial, fun owner => ?_⟩
  rcases owner with _ | owner
  · refine (spared_handleResourcesList ctx).bind fun listed => ?_
    rcases listed with err | _
    · trivial
    · exact ⟨trivial, fun owner => spared_readFrom _ owner⟩
  · exact spared_readFrom _ (some owner)

theorem spared_exposeEvents (backend : String) (events : List Value) :
    (sessionDo (Session.exposeEvents backend events)).Uses DispatchOp.Spared := by
  refine Prog.Uses.lift ?_
  induction events with
  | nil => trivial
  | cons event events ih =>
    simp only [Session.exposeEvents, Session.exposedEventName, Prog.bind_eq]
    split
    · exact ⟨trivial, fun ns => ih.bind fun rest => trivial⟩
    · exact ih.bind fun rest => trivial

theorem spared_listEvents (ids : List String) :
    (sessionDo (Session.listEvents ids)).Uses DispatchOp.Spared := by
  induction ids with
  | nil => trivial
  | cons id ids ih =>
    simp only [Session.listEvents, sessionDo, Prog.bind_eq, Prog.lift_bind]
    refine (spared_hubDo (spared_backendRequest (by decide))).bind fun r => ?_
    rcases r with err | result
    · exact ih
    · dsimp only
      rw [Prog.lift_bind]
      refine (spared_exposeEvents id _).bind fun events => ?_
      rw [Prog.lift_bind]
      exact ih.bind fun rest => trivial

theorem spared_findOwner (name : String) (ids : List String) :
    (sessionDo (Session.findOwner name ids)).Uses DispatchOp.Spared := by
  induction ids with
  | nil => trivial
  | cons id ids ih =>
    simp only [Session.findOwner, sessionDo, Prog.bind_eq, Prog.lift_bind]
    refine (spared_hubDo (spared_toolNamespace id)).bind fun ns => ?_
    split
    · trivial
    · exact ih

theorem spared_handleEventsList (ctx : RequestCtx) :
    (sessionDo (Session.handleEventsList ctx)).Uses DispatchOp.Spared := by
  simp only [Session.handleEventsList, sessionDo, Prog.bind_eq, Prog.lift_bind]
  refine spared_gated (fun err => trivial) ?_
  dsimp only
  rw [Prog.lift_bind]
  refine (spared_hubDo (spared_backendsWith _)).bind fun ids => ?_
  rw [Prog.lift_bind]
  exact (spared_listEvents ids).bind fun all => trivial

theorem spared_forwardEventRequest {method : String} (hmethod : method ≠ "tools/call")
    (params : Option Value) (ctx : RequestCtx) :
    (sessionDo (Session.forwardEventRequest method params ctx)).Uses DispatchOp.Spared := by
  simp only [Session.forwardEventRequest, sessionDo, Prog.bind_eq, Prog.lift_bind]
  refine spared_gated (fun err => trivial) ?_
  -- the name is missing, or is no text; then: nobody owns the event
  rcases params with _ | params
  · trivial
  dsimp only
  rcases (params.get "name").bind Value.asStr with _ | name
  · trivial
  dsimp only
  rw [Prog.lift_bind]
  refine (spared_hubDo (spared_backendsWith _)).bind fun ids => ?_
  rw [Prog.lift_bind]
  refine (spared_findOwner name ids).bind fun owner => ?_
  rcases owner with _ | ⟨backend, original⟩
  · trivial
  · dsimp only
    rw [Prog.lift_bind]
    -- whatever the backend answers, nothing else is forwarded
    refine (spared_hubDo (spared_backendRequest hmethod)).bind fun r => ?_
    rcases r <;> trivial

/-- A result that is all that is recorded. -/
theorem spared_simple {p : Prog DispatchOp (Except JsonRpcError Value)}
    (hp : p.Uses DispatchOp.Spared) : (Session.simple p).Uses DispatchOp.Spared :=
  hp.bind fun _ => trivial

/-- Every handler but that of `tools/call`. -/
theorem spared_handlerOf (prettyText serdeText : Value → String) {method : String}
    (hmethod : method ≠ "tools/call") (params : Option Value) (ctx : RequestCtx) :
    (Session.handlerOf prettyText serdeText method params ctx).Uses DispatchOp.Spared := by
  have hdiscover : Session.handleDiscover.Uses DispatchOp.Spared := by
    simp only [Session.handleDiscover, Prog.bind_eq]
    exact spared_capabilities.bind fun caps => trivial
  have hinitialize : Session.handleInitialize.Uses DispatchOp.Spared := by
    simp only [Session.handleInitialize, Prog.bind_eq, Prog.perform_bind]
    exact ⟨trivial, fun _ => spared_capabilities.bind fun caps => trivial⟩
  have htools : (Session.handleToolsList ctx).Uses DispatchOp.Spared := by
    simp only [Session.handleToolsList, Prog.bind_eq]
    have haggregated : Registry.aggregatedTools.Uses RegistryOp.Spared :=
      ⟨trivial, fun _ => trivial⟩
    refine spared_gated (fun err => trivial) ?_
    exact (spared_hubDo haggregated).bind fun tools => trivial
  -- the methods in the order of the dispatcher; the last branch is the unknown method
  rw [Session.handlerOf]
  split
  · exact spared_simple (hdiscover.bind fun v => trivial)
  split
  · exact spared_simple hinitialize
  split
  · exact spared_simple htools
  split
  · exact spared_simple (spared_handleResourcesList ctx)
  split
  · exact spared_simple (spared_handleResourcesRead params ctx)
  split
  · exact spared_simple (spared_handleEventsList ctx)
  split
  · exact spared_simple (spared_forwardEventRequest hmethod params ctx)
  split <;> trivial

/-! ### Tool calls -/

/-- A backend is reconnected, if need be. -/
theorem policyKeeps_reconnectOnCall (toolName : String) (backend : Option String) :
    PolicyKeeps asked base i (sessionDo (Session.reconnectOnCall toolName backend)) := by
  rcases backend with _ | id
  · exact policyKeeps_ret ()
  have hhas : (Registry.hasTool toolName).Uses RegistryOp.Spared := ⟨trivial, fun _ => trivial⟩
  have hhealthy : (Registry.isHealthy id).Uses RegistryOp.Spared := ⟨trivial, fun _ => trivial⟩
  simp only [Session.reconnectOnCall, sessionDo, Prog.bind_eq, Prog.lift_bind]
  refine (policyKeeps_spared (spared_hubDo hhas)).bind fun indexed => ?_
  -- the name is indexed, or the backend healthy: nothing to do
  split
  · exact policyKeeps_ret ()
  rw [Prog.lift_bind]
  refine (policyKeeps_spared (spared_hubDo hhealthy)).bind fun healthy => ?_
  split
  · exact policyKeeps_ret ()
  rw [Prog.lift_bind]
  refine (safe_hubDo (.reconnect id) (fun h => by cases h) keeps_reconnectBackend).bind fun r => ?_
  -- a reconnection that ends well is notified
  rcases r with err | _
  · exact policyKeeps_ret ()
  · exact policyKeeps_spared ⟨trivial, fun _ => trivial⟩

/-- A tool call forwards what the client asked for. -/
theorem policyKeeps_callTool (prettyText : Value → String) {params : ToolCallParams}
    (ctx : RequestCtx)
    (hasked : ∀ extra timeoutSecs,
      asked i (.route params.name params.arguments extra timeoutSecs)) :
    PolicyKeeps asked base i (sessionDo (Session.callTool prettyText params ctx)) := by
  -- looks at the definition of the owner forward nothing, and neither do hints
  have hforwards (backend : Option String) :
      (sessionDo (Session.forwardsMeta backend)).Uses DispatchOp.Spared := by
    rcases backend with _ | id
    · trivial
    · have hmeta : (Registry.forwardsRequestMeta id).Uses RegistryOp.Spared :=
        ⟨trivial, fun _ => trivial⟩
      exact spared_hubDo hmeta
  have hhint (err : BackendError) (backend : Option String) :
      (sessionDo (Session.hintFor err backend)).Uses DispatchOp.Spared := by
    rcases backend with _ | id
    · trivial
    rw [Session.hintFor]
    split
    · have hunavailable : (Registry.unavailableHint id).Uses RegistryOp.Spared :=
        ⟨trivial, fun _ => trivial⟩
      exact spared_hubDo hunavailable
    · trivial
  simp only [Session.callTool, sessionDo, Prog.bind_eq, Prog.lift_bind]
  refine (policyKeeps_spared (spared_hubDo (spared_backendOfTool _))).bind fun backend => ?_
  refine (policyKeeps_reconnectOnCall params.name backend).bind fun _ => ?_
  refine (policyKeeps_spared (hforwards backend)).bind fun forwards => ?_
  refine (safe_hubDo _ (fun _ => hasked _ _) (keeps_routeCallWith rfl)).bind fun r => ?_
  rcases r with err | v
  · -- a hint may be added to the error
    dsimp only
    rw [Prog.lift_bind]
    exact (policyKeeps_spared (hhint err backend)).bind fun hint => policyKeeps_ret _
  · exact policyKeeps_ret _

/-- A message asks for a call of the registry, as the `tools/call` that it is. -/
def JsonRpcMessage.Asks (m : JsonRpcMessage) : RegistryCall → Prop
  | .route exposedName args _ _ => ∃ requestId v params,
      m = .request requestId "tools/call" (some v) ∧ v.toToolCallParams = some params ∧
        params.name = exposedName ∧ params.arguments = args
  | _ => False

theorem policyKeeps_handleToolsCall (prettyText serdeText : Value → String) (requestId : JsonRpcId)
    (params : Option Value) (ctx : RequestCtx)
    (hasked : ∀ call, JsonRpcMessage.Asks (.request requestId "tools/call" params) call →
      asked i call) :
    PolicyKeeps asked base i
      (sessionDo (Session.handleToolsCall prettyText serdeText params ctx)) := by
  simp only [Session.handleToolsCall, sessionDo, Prog.bind_eq, Prog.lift_bind]
  -- not initialised, no parameters, malformed parameters, or a call
  refine (policyKeeps_spared (spared_requireInitialized ctx)).bind fun accepted => ?_
  rcases accepted with err | _
  · exact policyKeeps_ret _
  rcases params with _ | v
  · exact policyKeeps_ret _
  dsimp only
  rcases hv : v.toToolCallParams with _ | toolCall
  · exact policyKeeps_ret _
  · exact policyKeeps_callTool prettyText ctx fun extra timeoutSecs =>
      hasked _ ⟨requestId, v, toolCall, rfl, hv, rfl, rfl⟩

theorem policyKeeps_dispatchRequest (prettyText serdeText : Value → String) (requestId : JsonRpcId)
    (method : String) (params : Option Value)
    (hasked : ∀ call, JsonRpcMessage.Asks (.request requestId method params) call →
      asked i call) :
    PolicyKeeps asked base i
      (Session.dispatchRequest prettyText serdeText method params) := by
  rw [Session.dispatchRequest]
  -- a version that is not supported is refused before the method is looked at
  rcases (RequestCtx.fromParams params).checkVersion with err | _
  · exact policyKeeps_ret _
  refine PolicyKeeps.bind ?_ fun handled => policyKeeps_ret _
  -- only `tools/call` forwards a call
  by_cases hmethod : method = "tools/call"
  · subst hmethod
    have hhandler : Session.handlerOf prettyText serdeText "tools/call" params
        (.fromParams params) = sessionDo (Session.handleToolsCall prettyText serdeText params
          (.fromParams params)) := rfl
    rw [hhandler]
    exact policyKeeps_handleToolsCall prettyText serdeText requestId params _ hasked
  · exact policyKeeps_spared (spared_handlerOf prettyText serdeText hmethod params _)

theorem policyKeeps_handleRequest (prettyText serdeText : Value → String) (requestId : JsonRpcId)
    (method : String) (params : Option Value)
    (hasked : ∀ call, JsonRpcMessage.Asks (.request requestId method params) call →
      asked i call) :
    PolicyKeeps asked base i
      (Session.handleRequest prettyText serdeText requestId method params) := by
  simp only [Session.handleRequest, Prog.bind_eq, Prog.perform_bind]
  refine (policyKeeps_dispatchRequest prettyText serdeText requestId method params hasked).bind
    fun handled => policyKeeps_spared ⟨trivial, fun _ => ?_⟩
  rcases handled.result <;> trivial

/-- **A message forwards what it asks for.** The walk goes through every handler, and only
`tools/call` asks for a call. -/
theorem policyKeeps_incoming (prettyText serdeText : Value → String) (m : Incoming)
    (hasked : ∀ call, m.message.Asks call → asked i call) :
    PolicyKeeps asked base i (m.run prettyText serdeText) := by
  -- a message on either path; only requests are dispatched
  rcases m with message | message <;> simp only [Incoming.run, Prog.bind_eq] <;>
    refine PolicyKeeps.bind ?_ fun _ => policyKeeps_ret ()
  · rcases message with ⟨requestId, method, params⟩ | _ | _ | _
    · exact (policyKeeps_handleRequest prettyText serdeText requestId method params hasked).bind
        fun reply => policyKeeps_ret _
    all_goals exact policyKeeps_ret _
  · rcases message with ⟨requestId, method, params⟩ | _ | _ | _
    · rw [Session.handleStreaming]
      -- a listening request opens a stream, every other one is dispatched
      split
      · rcases Session.listen requestId params (.fromParams params) 0 with err | stream
        · exact policyKeeps_ret _
        · exact policyKeeps_spared ⟨trivial, fun _ => trivial⟩
      · exact (policyKeeps_handleRequest prettyText serdeText requestId method params hasked).bind
          fun reply => policyKeeps_ret _
    all_goals exact policyKeeps_ret _

/-- What the hub does by itself forwards nothing. -/
theorem policyKeeps_chore (c : Chore) : PolicyKeeps asked base i (hubDo c.run) := by
  refine safe_hubDo .connectAll nofun ?_
  cases c with
  | connectAll =>
    refine keeps_bind ?_ fun _ => keeps_ret ()
    exact keeps_harmless trivial fun backends => keeps_connectEach
  | reconnectBackend id => exact keeps_bind keeps_reconnectBackend fun _ => keeps_ret ()
  | refreshTools => exact keeps_bind keeps_refreshTools fun _ => keeps_ret ()
  | runHealthChecks => exact keeps_harmless trivial fun backends => keeps_checkEach

end Handlers

/-! ## Runs -/

section Runs

variable {jobs : ι → HubJob} {prettyText serdeText : Value → String} {start : DispatchWorld ι}

/-- The task handles a message that asks for a call. -/
def AskedBy (jobs : ι → HubJob) (i : ι) (call : RegistryCall) : Prop :=
  ∃ m, jobs i = .message m ∧ m.message.Asks call

/-- The tasks of a hub keep the discipline. -/
theorem policyKeeps_job (i : ι) : PolicyKeeps (AskedBy jobs) base i
    ((jobs i).duty.task prettyText serdeText).abstract := by
  rcases hjob : jobs i with m | c | ⟨object, child, output⟩
  · exact policyKeeps_incoming prettyText serdeText m fun call hcall => ⟨m, hjob, hcall⟩
  · exact policyKeeps_chore c
  · exact policyKeeps_ret _

variable [DecidableEq ι]

/-- **What a session forwards was asked for**, in every run of the tasks of a hub, for all answers
of the backends. -/
theorem sessionInv_of_play (hindex : start.session.registry.index = [])
    (hforwarded : start.session.registry.forwarded = []) {ls : List (ι × RegistryChoice)}
    {c : Pool DispatchOp ι (DispatchWorld ι) Unit}
    (hplay : (dispatchMachine ι).play ls (clientPool start
      fun i => (jobs i).duty.task prettyText serdeText) = some c) :
    SessionInv (AskedBy jobs) start.session.registry c.shared.session.registry := by
  have hstart : Protocol.Holds (policyProtocol (AskedBy jobs) start.session.registry)
      (dispatchMachine ι) (fun _ _ _ _ _ => True) (fun _ _ _ => True)
      (clientPool start fun i => (jobs i).duty.task prettyText serdeText) := by
    refine ⟨⟨fun entry hentry => ?_, fun r hr => ?_, Extends.refl _⟩,
      fun i => policyKeeps_job i start⟩
    · rw [clientPool, hindex] at hentry
      exact absurd hentry List.not_mem_nil
    · rw [clientPool, hforwarded] at hr
      exact absurd hr List.not_mem_nil
  exact (hstart.play ((dispatchMachine ι).meets_true ls _) hplay).inv

/-- A task that is about to have a backend forward a `tools/call` was asked to. -/
theorem asked_of_next (hindex : start.session.registry.index = [])
    (hforwarded : start.session.registry.forwarded = []) {ls : List (ι × RegistryChoice)}
    {c : Pool DispatchOp ι (DispatchWorld ι) Unit}
    (hplay : (dispatchMachine ι).play ls (clientPool start
      fun i => (jobs i).duty.task prettyText serdeText) = some c) {i : ι} {δ : Type} {object : Nat}
    {method : McpOp δ} {k : δ → Prog DispatchOp Unit}
    (hnext : c.task i = .op (.session (.registry (.backend object method))) k)
    {params : Option Value} (hforwards : method.forwards = some ("tools/call", params)) :
    ∃ call answer, AskedBy jobs i call ∧ Permitted (fun _ => call) c.shared.session.registry
      ⟨i, object, "tools/call", params, answer⟩ := by
  -- Whatever the backend answers, the request is put on record.
  let e : RegistryChoice := {}
  let after : DispatchWorld ι := { c.shared with session := { c.shared.session with
    registry := c.shared.session.registry.record i object e.value method } }
  have hfires : (dispatchMachine ι).fires i [e] (c.task i) c.shared =
      some (k (e.answer method), after) := by
    rw [hnext]
    exact Machine.fires_answer rfl rfl
  have hplay' := (dispatchMachine ι).play_append ls (Machine.turns i [e]) (clientPool start
      fun i => (jobs i).duty.task prettyText serdeText)
  rw [hplay, Option.bind_some, (dispatchMachine ι).play_fires hfires] at hplay'
  have hinv := sessionInv_of_play hindex hforwarded hplay'
  simp only [after, RegistryWorld.record, hforwards] at hinv
  obtain ⟨call, hasked, hpermitted⟩ := hinv.forwarded _ List.mem_cons_self rfl
  exact ⟨call, e.value, hasked, hpermitted.extends fun _ _ h => h⟩

end Runs

end HeadlessMcp
