import HeadlessMcp.Async.Ledger
import HeadlessMcp.Registry.Relisting
import HeadlessMcp.Session.Dispatch

/-!
# The gate

A legacy client has to initialize the session, and a modern one declares its version with every
request. `require_initialized` is called by hand in every handler, and both dispatchers check the
declared version. So nothing reaches a backend, and no stream is opened, but for a request that
declares a supported version, or a legacy one that came after an `initialize` (`requests_are_gated`).
-/

namespace HeadlessMcp

open Async

/-! ## What the operations do -/

/-- The operation reaches a backend, or opens a stream. These are the operations that the gate is
there for. -/
def DispatchOp.interacts {β : Type} : DispatchOp β → Bool
  | .session (.registry (.backend _ _)) => true
  | .openStream _ => true
  | _ => false

/-- The operation initializes the session. -/
def DispatchOp.initializes {β : Type} : DispatchOp β → Bool
  | .session .setInitialized => true
  | _ => false

/-- The operation finds the session initialized. -/
def DispatchOp.admits : {β : Type} → DispatchOp β → β → Bool
  | _, .session .isInitialized, initialized => initialized
  | _, _, _ => false

/-- The operation only writes to the audit log. -/
def DispatchOp.audits {β : Type} : DispatchOp β → Bool
  | .record _ => true
  | _ => false

/-! ## The messages -/

/-- A message that is handled with `handle` or with `handle_streaming`. -/
inductive Incoming : Type where
  | handle (message : JsonRpcMessage) : Incoming
  | handleStreaming (message : JsonRpcMessage) : Incoming

/-- The message. -/
def Incoming.message : Incoming → JsonRpcMessage
  | handle message => message
  | handleStreaming message => message

/-- Handle it; what is answered does not matter here. -/
def Incoming.run (prettyText serdeText : Value → String) : Incoming → Prog DispatchOp Unit
  | handle message => do
    let _ ← Session.handle prettyText serdeText message
    .ret ()
  | handleStreaming message => do
    let _ ← Session.handleStreaming prettyText serdeText message
    .ret ()

/-- The version that a request declares. -/
def JsonRpcMessage.declaredVersion : JsonRpcMessage → Option String
  | .request _ _ params => requestProtocolVersion params
  | _ => none

/-- A legacy `initialize`. -/
def JsonRpcMessage.isLegacyInitialize : JsonRpcMessage → Bool
  | .request _ method params => method = "initialize" && (requestProtocolVersion params).isNone
  | _ => false

/-- A request. -/
def JsonRpcMessage.isRequest : JsonRpcMessage → Bool
  | .request _ _ _ => true
  | _ => false

/-! ## The phases of a request -/

/-- How far a request is at the gate. It is read off what the request has found out about the
session so far. -/
inductive GatePhase : Type where
  /-- it has no business at the gate: its version is not supported, or it is no request -/
  | silent
  /-- a legacy `initialize` -/
  | initializing
  /-- a legacy request that has done nothing yet -/
  | closed
  /-- one that was let in -/
  | opened
  /-- one that was not -/
  | shut
  deriving DecidableEq

/-- Where a message starts. -/
def GatePhase.of (message : JsonRpcMessage) : GatePhase :=
  match message.declaredVersion with
  | some v => if v ∈ modernProtocolVersions then .opened else .silent
  | none =>
    if message.isLegacyInitialize then .initializing
    else if message.isRequest then .closed
    else .silent

/-- Where each kind of message starts. -/
theorem JsonRpcMessage.isLegacyInitialize_of_phase (m : JsonRpcMessage)
    (h : GatePhase.of m = .initializing) : m.isLegacyInitialize = true := by
  rw [GatePhase.of] at h
  split at h
  · split at h <;> cases h
  · split at h
    · assumption
    · split at h <;> cases h

theorem JsonRpcMessage.supported_of_phase (m : JsonRpcMessage) (h : GatePhase.of m = .opened) :
    ∃ v ∈ modernProtocolVersions, m.declaredVersion = some v := by
  rw [GatePhase.of] at h
  split at h
  · rename_i v hversion
    split at h
    · exact ⟨v, ‹_›, hversion⟩
    · cases h
  · split at h
    · cases h
    · split at h <;> cases h

theorem JsonRpcMessage.legacy_of_phase (m : JsonRpcMessage) (h : GatePhase.of m = .closed) :
    m.isRequest = true ∧ m.declaredVersion = none := by
  rw [GatePhase.of] at h
  split at h
  · split at h <;> cases h
  · rename_i hversion
    split at h
    · cases h
    · split at h
      · exact ⟨‹_›, hversion⟩
      · cases h

/-- What an operation makes of the phase. -/
def GatePhase.next {β : Type} (o : DispatchOp β) (b : β) : GatePhase → GatePhase
  | .closed => if o.admits b then .opened else .shut
  | phase => phase

/-- Whoever has done something is not before the gate. -/
theorem GatePhase.next_ne_closed {β : Type} (o : DispatchOp β) (b : β) (phase : GatePhase) :
    phase.next o b ≠ .closed := by
  cases phase with
  | closed =>
    rw [GatePhase.next]
    split <;> nofun
  | _ => nofun

/-- Whoever is in was in, or has been let in. -/
theorem GatePhase.next_eq_opened {β : Type} {o : DispatchOp β} {b : β} {phase : GatePhase}
    (h : phase.next o b = .opened) : phase = .opened ∨ phase = .closed ∧ o.admits b = true := by
  cases phase with
  | closed =>
    rw [GatePhase.next] at h
    split at h
    · exact .inr ⟨rfl, ‹_›⟩
    · cases h
  | opened => exact .inl rfl
  | _ => cases h

/-- What may be done in a phase. -/
def GatePhase.Allows {β : Type} (o : DispatchOp β) : GatePhase → Prop
  | .silent => o.audits = true
  | .initializing => o.interacts = false
  | .closed | .shut => o.interacts = false ∧ o.initializes = false
  | .opened => o.initializes = false

/-- Only an `initialize` initializes the session. -/
theorem GatePhase.eq_initializing {β : Type} {o : DispatchOp β} {phase : GatePhase}
    (h : phase.Allows o) (hsets : o.initializes = true) : phase = .initializing := by
  cases phase with
  | silent =>
    cases o <;> cases h
    cases hsets
  | initializing => rfl
  | closed => exact absurd (h.2.symm.trans hsets) nofun
  | opened => exact absurd (h.symm.trans hsets) nofun
  | shut => exact absurd (h.2.symm.trans hsets) nofun

/-- Only those who are in interact. -/
theorem GatePhase.eq_opened {β : Type} {o : DispatchOp β} {phase : GatePhase}
    (h : phase.Allows o) (hinteracts : o.interacts = true) : phase = .opened := by
  cases phase with
  | silent =>
    cases o <;> cases h
    cases hinteracts
  | initializing => exact absurd (h.symm.trans hinteracts) nofun
  | closed => exact absurd (h.1.symm.trans hinteracts) nofun
  | opened => rfl
  | shut => exact absurd (h.1.symm.trans hinteracts) nofun

/-- Nobody becomes an `initialize`, or silent. -/
theorem GatePhase.next_eq_self {β : Type} {o : DispatchOp β} {b : β} {phase : GatePhase}
    (h : phase.next o b = .initializing ∨ phase.next o b = .silent) : phase.next o b = phase := by
  cases phase with
  | closed =>
    rw [GatePhase.next] at h
    split at h <;> rcases h with h | h <;> cases h
  | _ => rfl

/-- What a request does at the gate. The first operation of a legacy request decides: it finds the
session initialized, or the gate is shut. -/
def gateLedger : Ledger DispatchOp GatePhase where
  next o b := GatePhase.next o b
  inOrder o := GatePhase.Allows o

/-- Nothing for the gate. It neither interacts nor initializes. -/
def DispatchOp.Plain {β : Type} (o : DispatchOp β) : Prop :=
  o.interacts = false ∧ o.initializes = false

/-- Everything but `initialize`. -/
def DispatchOp.Spares {β : Type} (o : DispatchOp β) : Prop := o.initializes = false

section Walks

variable {α β : Type} {phase : GatePhase}

/-- Once it was let in, a request does what it likes, but it does not initialize the session. -/
theorem keeps_opened {p : Prog DispatchOp α} (hp : p.Uses DispatchOp.Spares) :
    p.Keeps gateLedger (fun _ phase => phase = .opened) .opened := by
  refine Prog.Keeps.of_uses (J := fun phase : GatePhase => phase = .opened)
    (fun o u ho hu => ?_) hp rfl
  subst hu
  exact ⟨ho, fun b => rfl⟩

/-- Plain operations need not be let in. -/
theorem keeps_plain {p : Prog DispatchOp α} (hp : p.Uses DispatchOp.Plain)
    (hphase : phase ≠ .silent) :
    p.Keeps gateLedger (fun _ phase => phase ≠ .silent) phase := by
  refine Prog.Keeps.of_uses (J := fun phase : GatePhase => phase ≠ .silent)
    (fun o u ho hu => ?_) hp hphase
  cases u with
  | silent => exact absurd rfl hu
  | initializing => exact ⟨ho.1, fun b => nofun⟩
  | closed =>
    refine ⟨ho, fun b => ?_⟩
    change (if o.admits b then GatePhase.opened else GatePhase.shut) ≠ .silent
    split <;> nofun
  | opened => exact ⟨ho.2, fun b => nofun⟩
  | shut => exact ⟨ho, fun b => nofun⟩

/-- The registry does not initialize the session. -/
theorem spares_registryDo (p : Prog RegistryOp α) :
    (registryDo p).Uses fun o => DispatchOp.Spares (.session o) :=
  Prog.uses_lift (fun o => (rfl : DispatchOp.initializes (.session (.registry o)) = false)) p

theorem spares_hubDo (p : Prog RegistryOp α) : (hubDo p).Uses DispatchOp.Spares :=
  (spares_registryDo p).lift

/-- To look at the backends is plain. -/
theorem plain_backendsWith (capability : String) :
    (hubDo (Registry.backendsWith capability)).Uses DispatchOp.Plain :=
  ⟨⟨rfl, rfl⟩, fun _ => trivial⟩

theorem plain_capabilities : Session.capabilities.Uses DispatchOp.Plain := by
  simp only [Session.capabilities, Prog.bind_eq]
  refine (plain_backendsWith "resources").bind fun ids => ?_
  exact (plain_backendsWith "events").bind fun ids => trivial

/-- Where a request starts whose version is supported. -/
def gateStart (ctx : RequestCtx) : GatePhase := if ctx.isModern then .opened else .closed

/-- **What comes after the gate**: it is only reached by those who are let in. -/
theorem keeps_gated {ctx : RequestCtx} {f : Except JsonRpcError Unit → Prog DispatchOp α}
    (hrefused : ∀ err, (f (.error err)).Uses DispatchOp.Plain)
    (hadmitted : (f (.ok ())).Uses DispatchOp.Spares) :
    ((sessionDo (Session.requireInitialized ctx)).bind f).Keeps gateLedger
      (fun _ phase => phase ≠ .silent) (gateStart ctx) := by
  have hopened : (f (.ok ())).Keeps gateLedger (fun _ phase => phase ≠ .silent) .opened :=
    (keeps_opened hadmitted).mono fun _ _ h => by simp [h]
  rw [Session.requireInitialized, gateStart]
  split
  · exact hopened
  · refine ⟨⟨rfl, rfl⟩, fun initialized => ?_⟩
    cases initialized with
    | true => exact hopened
    | false => exact keeps_plain (hrefused _) nofun

/-! ### The handlers -/

theorem spares_requireInitialized (ctx : RequestCtx) :
    (sessionDo (Session.requireInitialized ctx)).Uses DispatchOp.Spares := by
  rw [Session.requireInitialized]
  split
  · trivial
  · refine ⟨rfl, fun initialized => ?_⟩
    cases initialized <;> trivial

theorem spares_callTool (prettyText : Value → String) (params : ToolCallParams)
    (ctx : RequestCtx) : (sessionDo (Session.callTool prettyText params ctx)).Uses
      DispatchOp.Spares := by
  -- a reconnection, a look at the owner and a hint set nothing up
  have hreconnect (backend : Option String) : (Session.reconnectOnCall params.name backend).Uses
      fun o => DispatchOp.Spares (.session o) := by
    rcases backend with _ | id
    · trivial
    simp only [Session.reconnectOnCall, Prog.bind_eq]
    refine (spares_registryDo _).bind fun indexed => ?_
    split
    · trivial
    refine (spares_registryDo _).bind fun healthy => ?_
    split
    · trivial
    refine (spares_registryDo _).bind fun r => ?_
    rcases r with err | _
    · trivial
    · exact ⟨rfl, fun _ => trivial⟩
  have hforwards (backend : Option String) : (Session.forwardsMeta backend).Uses
      fun o => DispatchOp.Spares (.session o) := by
    rcases backend with _ | id
    · trivial
    · exact spares_registryDo _
  have hhint (err : BackendError) (backend : Option String) : (Session.hintFor err backend).Uses
      fun o => DispatchOp.Spares (.session o) := by
    rcases backend with _ | id
    · trivial
    rw [Session.hintFor]
    split
    · exact spares_registryDo _
    · trivial
  have hcall : (Session.callTool prettyText params ctx).Uses
      fun o => DispatchOp.Spares (.session o) := by
    simp only [Session.callTool, Prog.bind_eq]
    refine (spares_registryDo _).bind fun backend => (hreconnect backend).bind fun _ => ?_
    refine (hforwards backend).bind fun forwards => (spares_registryDo _).bind fun r => ?_
    rcases r with err | v
    · exact (hhint err backend).bind fun hint => trivial
    · trivial
  exact hcall.lift

theorem gated_handleToolsCall (prettyText serdeText : Value → String) (params : Option Value)
    (ctx : RequestCtx) : (sessionDo (Session.handleToolsCall prettyText serdeText params ctx)).Keeps
      gateLedger (fun _ phase => phase ≠ .silent) (gateStart ctx) := by
  simp only [Session.handleToolsCall, sessionDo, Prog.bind_eq, Prog.lift_bind]
  refine keeps_gated (fun err => trivial) ?_
  rcases params with _ | v
  · trivial
  dsimp only
  rcases v.toToolCallParams with _ | params
  · trivial
  · exact spares_callTool prettyText params ctx

theorem spares_listResources (ids : List String) (owners : Entries String) :
    (Session.listResources ids owners).Uses DispatchOp.Spares := by
  induction ids generalizing owners with
  | nil => trivial
  | cons id ids ih =>
    simp only [Session.listResources, Prog.bind_eq]
    refine (spares_hubDo _).bind fun r => ?_
    rcases r with err | result
    · exact ih owners
    · exact (ih _).bind fun rest => trivial

/-- The rest of `handle_resources_list`. -/
theorem spares_resources (ids : List String) :
    ((Session.listResources ids []).bind fun (all, owners) =>
      .op (.setResourceOwners owners) fun _ => .ret (.ok (.object [("resources", .array all)])) :
        Prog DispatchOp (Except JsonRpcError Value)).Uses DispatchOp.Spares :=
  (spares_listResources ids []).bind fun _ => ⟨rfl, fun _ => trivial⟩

theorem spares_handleResourcesList (ctx : RequestCtx) :
    (Session.handleResourcesList ctx).Uses DispatchOp.Spares := by
  simp only [Session.handleResourcesList, Prog.bind_eq, Prog.perform_bind]
  refine (spares_requireInitialized ctx).bind fun accepted => ?_
  rcases accepted with err | _
  · trivial
  · exact (spares_hubDo _).bind spares_resources

theorem spares_readFrom (uri : String) (owner : Option String) :
    (Session.readFrom uri owner).Uses DispatchOp.Spares := by
  rcases owner with _ | owner
  · trivial
  simp only [Session.readFrom, Prog.bind_eq]
  refine (spares_hubDo _).bind fun r => ?_
  rcases r <;> trivial

theorem gated_handleResourcesRead (params : Option Value) (ctx : RequestCtx) :
    (Session.handleResourcesRead params ctx).Keeps gateLedger
      (fun _ phase => phase ≠ .silent) (gateStart ctx) := by
  simp only [Session.handleResourcesRead, Prog.bind_eq, Prog.perform_bind]
  refine keeps_gated (fun err => trivial) ?_
  dsimp only
  rcases (params.bind (·.get "uri")).bind Value.asStr with _ | uri
  · trivial
  refine ⟨rfl, fun owner => ?_⟩
  rcases owner with _ | owner
  · refine (spares_handleResourcesList ctx).bind fun listed => ?_
    rcases listed with err | _
    · trivial
    · exact ⟨rfl, fun owner => spares_readFrom _ owner⟩
  · exact spares_readFrom _ (some owner)

theorem gated_handleResourcesList (ctx : RequestCtx) :
    (Session.handleResourcesList ctx).Keeps gateLedger (fun _ phase => phase ≠ .silent)
      (gateStart ctx) := by
  simp only [Session.handleResourcesList, Prog.bind_eq, Prog.perform_bind]
  refine keeps_gated (fun err => trivial) ?_
  exact (spares_hubDo _).bind spares_resources

theorem gated_handleToolsList (ctx : RequestCtx) :
    (Session.handleToolsList ctx).Keeps gateLedger (fun _ phase => phase ≠ .silent)
      (gateStart ctx) := by
  simp only [Session.handleToolsList, Prog.bind_eq]
  refine keeps_gated (fun err => trivial) ?_
  exact (spares_hubDo _).bind fun tools => trivial

/-- A handler of the session that only asks the registry once it was let in. -/
theorem gated_sessionDo {ctx : RequestCtx} {f : Except JsonRpcError Unit → Prog SessionOp α}
    (hrefused : ∀ err, ∃ a, f (.error err) = .ret a)
    (hadmitted : (f (.ok ())).Uses fun o => DispatchOp.Spares (.session o)) :
    (sessionDo ((Session.requireInitialized ctx).bind f)).Keeps gateLedger
      (fun _ phase => phase ≠ .silent) (gateStart ctx) := by
  rw [sessionDo, Prog.lift_bind]
  refine keeps_gated (fun err => ?_) hadmitted.lift
  obtain ⟨a, ha⟩ := hrefused err
  rw [ha]
  trivial

theorem spares_exposeEvents (backend : String) (events : List Value) :
    (Session.exposeEvents backend events).Uses fun o => DispatchOp.Spares (.session o) := by
  induction events with
  | nil => trivial
  | cons event events ih =>
    simp only [Session.exposeEvents, Session.exposedEventName, Prog.bind_eq]
    split
    · exact ⟨rfl, fun ns => ih.bind fun rest => trivial⟩
    · exact ih.bind fun rest => trivial

theorem spares_listEvents (ids : List String) :
    (Session.listEvents ids).Uses fun o => DispatchOp.Spares (.session o) := by
  induction ids with
  | nil => trivial
  | cons id ids ih =>
    simp only [Session.listEvents, Prog.bind_eq]
    refine (spares_registryDo _).bind fun r => ?_
    rcases r with err | result
    · exact ih
    · exact (spares_exposeEvents id _).bind fun events => ih.bind fun rest => trivial

theorem spares_findOwner (name : String) (ids : List String) :
    (Session.findOwner name ids).Uses fun o => DispatchOp.Spares (.session o) := by
  induction ids with
  | nil => trivial
  | cons id ids ih =>
    simp only [Session.findOwner, Prog.bind_eq]
    refine (spares_registryDo _).bind fun ns => ?_
    split
    · trivial
    · exact ih

theorem gated_handleEventsList (ctx : RequestCtx) :
    (sessionDo (Session.handleEventsList ctx)).Keeps gateLedger (fun _ phase => phase ≠ .silent)
      (gateStart ctx) := by
  simp only [Session.handleEventsList, Prog.bind_eq]
  refine gated_sessionDo (fun err => ⟨_, rfl⟩) ?_
  exact (spares_registryDo _).bind fun ids => (spares_listEvents ids).bind fun all => trivial

theorem gated_forwardEventRequest (method : String) (params : Option Value) (ctx : RequestCtx) :
    (sessionDo (Session.forwardEventRequest method params ctx)).Keeps gateLedger
      (fun _ phase => phase ≠ .silent) (gateStart ctx) := by
  simp only [Session.forwardEventRequest, Prog.bind_eq]
  refine gated_sessionDo (fun err => ⟨_, rfl⟩) ?_
  rcases params with _ | params
  · trivial
  dsimp only
  rcases (params.get "name").bind Value.asStr with _ | name
  · trivial
  refine (spares_registryDo _).bind fun ids => (spares_findOwner name ids).bind fun owner => ?_
  rcases owner with _ | ⟨backend, original⟩
  · trivial
  · refine (spares_registryDo _).bind fun r => ?_
    rcases r <;> trivial

/-! ### The dispatchers -/

/-- A result that is all that is recorded. -/
theorem gated_simple {p : Prog DispatchOp (Except JsonRpcError Value)}
    (hp : p.Keeps gateLedger (fun _ phase => phase ≠ .silent) phase) :
    (Session.simple p).Keeps gateLedger (fun _ phase => phase ≠ .silent) phase :=
  Prog.Keeps.bind (hp.mono fun _ _ h => h)

/-- A handler of a request that does not initialize the session. -/
theorem gated_handlerOf (prettyText serdeText : Value → String) {method : String}
    (params : Option Value) {ctx : RequestCtx}
    (hmethod : ¬ (method = "initialize" ∧ ctx.isModern = false)) :
    (Session.handlerOf prettyText serdeText method params ctx).Keeps gateLedger
      (fun _ phase => phase ≠ .silent) (gateStart ctx) := by
  have hstart : gateStart ctx ≠ .silent := by
    rw [gateStart]
    split <;> nofun
  have hdiscover : Session.handleDiscover.Uses DispatchOp.Plain := by
    simp only [Session.handleDiscover, Prog.bind_eq]
    exact plain_capabilities.bind fun caps => trivial
  -- the methods in the order of the dispatcher; the last branch is the unknown method
  rw [Session.handlerOf, if_neg hmethod]
  split
  · exact gated_simple (keeps_plain (hdiscover.bind fun v => trivial) hstart)
  split
  · exact gated_simple (gated_handleToolsList ctx)
  split
  · exact gated_handleToolsCall prettyText serdeText params ctx
  split
  · exact gated_simple (gated_handleResourcesList ctx)
  split
  · exact gated_simple (gated_handleResourcesRead params ctx)
  split
  · exact gated_simple (gated_handleEventsList ctx)
  split
  · exact gated_simple (gated_forwardEventRequest method params ctx)
  split
  · exact hstart
  · exact hstart

/-- A legacy `initialize` reaches no backend. -/
theorem keeps_initializing {p : Prog DispatchOp α} (hp : p.Uses fun o => o.interacts = false) :
    p.Keeps gateLedger (fun _ _ => True) .initializing := by
  have hkeeps := Prog.Keeps.of_uses (L := gateLedger)
    (J := fun phase : GatePhase => phase = .initializing) (fun o u ho hu => ?_) hp rfl
  · exact hkeeps.mono fun _ _ _ => trivial
  · subst hu
    exact ⟨ho, fun b => rfl⟩

theorem quiet_handleInitialize :
    Session.handleInitialize.Uses fun o => o.interacts = false := by
  simp only [Session.handleInitialize, Prog.bind_eq, Prog.perform_bind]
  refine ⟨rfl, fun _ => ?_⟩
  exact (plain_capabilities.mono fun o ho => ho.1).bind fun caps => trivial

/-- The audit log is no business of the gate. -/
theorem allows_record (event : AuditEvent) (phase : GatePhase) :
    gateLedger.inOrder (.record event) phase := by
  cases phase <;> simp [gateLedger, GatePhase.Allows, DispatchOp.audits, DispatchOp.interacts,
    DispatchOp.initializes]

theorem keeps_dispatchRequest (prettyText serdeText : Value → String) (requestId : JsonRpcId)
    (method : String) (params : Option Value) :
    (Session.dispatchRequest prettyText serdeText method params).Keeps gateLedger (fun _ _ => True)
      (.of (.request requestId method params)) := by
  rw [Session.dispatchRequest]
  have hgated (hmethod : ¬ (method = "initialize" ∧
      (RequestCtx.fromParams params).isModern = false)) :
      (Session.handlerOf prettyText serdeText method params (.fromParams params)).Keeps gateLedger
        (fun _ _ => True) (gateStart (.fromParams params)) :=
    (gated_handlerOf prettyText serdeText params hmethod).mono fun _ _ _ => trivial
  -- no version is declared, so the era is the legacy one
  rcases hversion : requestProtocolVersion params with _ | v
  · have haccepted : (RequestCtx.fromParams params).checkVersion = .ok () :=
      checkVersion_eq_ok.mpr fun w hw => by simp [RequestCtx.fromParams, hversion] at hw
    have hlegacy : (RequestCtx.fromParams params).isModern = false := by
      simp [RequestCtx.isModern, RequestCtx.fromParams, hversion]
    simp only [haccepted, Prog.bind_eq]
    -- `initialize` opens the session, and needs none
    by_cases hmethod : method = "initialize"
    · subst hmethod
      have hof : GatePhase.of (.request requestId "initialize" params) = .initializing := by
        simp [GatePhase.of, JsonRpcMessage.declaredVersion, JsonRpcMessage.isLegacyInitialize,
          hversion]
      have hhandler : Session.handlerOf prettyText serdeText "initialize" params
          (.fromParams params) = Session.simple Session.handleInitialize := by
        rw [Session.handlerOf, if_neg (by decide), if_pos ⟨rfl, hlegacy⟩]
      have hquiet : (Session.simple Session.handleInitialize).Uses
          fun o => o.interacts = false := quiet_handleInitialize.bind fun r => trivial
      rw [hof, hhandler]
      exact Prog.Keeps.bind ((keeps_initializing hquiet).mono fun _ _ _ => trivial)
    · have hof : GatePhase.of (.request requestId method params) = gateStart (.fromParams params) := by
        simp [GatePhase.of, JsonRpcMessage.declaredVersion, JsonRpcMessage.isLegacyInitialize,
          JsonRpcMessage.isRequest, hversion, hmethod, gateStart, hlegacy]
      rw [hof]
      exact Prog.Keeps.bind ((hgated fun h => hmethod h.1).mono fun _ _ _ => trivial)
  · -- a version is declared: a supported one makes the request modern
    by_cases hsupported : v ∈ modernProtocolVersions
    · have haccepted : (RequestCtx.fromParams params).checkVersion = .ok () :=
        checkVersion_eq_ok.mpr fun w hw => by
          obtain rfl := Option.some.inj (hversion.symm.trans hw)
          exact hsupported
      have hmodern : (RequestCtx.fromParams params).isModern = true := by
        simp [RequestCtx.isModern, RequestCtx.fromParams, hversion]
      have hof : GatePhase.of (.request requestId method params) =
          gateStart (.fromParams params) := by
        simp [GatePhase.of, JsonRpcMessage.declaredVersion, hversion, hsupported, gateStart,
          hmodern]
      simp only [haccepted, Prog.bind_eq]
      rw [hof]
      refine Prog.Keeps.bind ((hgated fun h => ?_).mono fun _ _ _ => trivial)
      rw [hmodern] at h
      cases h.2
    · -- any other is refused before the method is looked at
      have hrefused : ∃ err, (RequestCtx.fromParams params).checkVersion = .error err := by
        rcases hcheck : (RequestCtx.fromParams params).checkVersion with err | _
        · exact ⟨err, rfl⟩
        · exact absurd (checkVersion_eq_ok.mp hcheck v hversion) hsupported
      obtain ⟨err, hrefused⟩ := hrefused
      simp only [hrefused]
      trivial

theorem keeps_handleRequest (prettyText serdeText : Value → String) (requestId : JsonRpcId)
    (method : String) (params : Option Value) :
    (Session.handleRequest prettyText serdeText requestId method params).Keeps gateLedger
      (fun _ _ => True) (.of (.request requestId method params)) := by
  simp only [Session.handleRequest, Prog.bind_eq, Prog.perform_bind]
  refine Prog.Keeps.bind ?_
  refine (keeps_dispatchRequest prettyText serdeText requestId method params).mono
    fun handled phase _ => ⟨allows_record _ phase, fun _ => ?_⟩
  rcases handled.result <;> trivial

/-- **A message does at the gate what its phase allows.** The walk goes through both dispatchers
and every handler. -/
theorem gated_run (prettyText serdeText : Value → String) (m : Incoming) :
    (m.run prettyText serdeText).Keeps gateLedger (fun _ _ => True) (.of m.message) := by
  -- a message on either path; only requests are dispatched
  rcases m with message | message
  · simp only [Incoming.run, Incoming.message, Prog.bind_eq]
    refine Prog.Keeps.bind (Q := fun _ _ => True) ?_
    rcases message with ⟨requestId, method, params⟩ | _ | _ | _
    · exact Prog.Keeps.bind ((keeps_handleRequest prettyText serdeText requestId method
        params).mono fun _ _ _ => trivial)
    all_goals trivial
  · simp only [Incoming.run, Incoming.message, Prog.bind_eq]
    refine Prog.Keeps.bind (Q := fun _ _ => True) ?_
    rcases message with ⟨requestId, method, params⟩ | _ | _ | _
    · rw [Session.handleStreaming]
      split
      · -- the stream is opened, or the request refused for its version
        rcases hlisten : Session.listen requestId params (.fromParams params) 0 with err | stream
        · trivial
        · obtain ⟨v, hv, hversion⟩ := listen_supported hlisten
          have hof : GatePhase.of (.request requestId method params) = .opened := by
            have hversion : requestProtocolVersion params = some v := hversion
            simp [GatePhase.of, JsonRpcMessage.declaredVersion, hversion, hv]
          rw [hof]
          exact ⟨rfl, fun _ => trivial⟩
      · exact Prog.Keeps.bind ((keeps_handleRequest prettyText serdeText requestId method
          params).mono fun _ _ _ => trivial)
    all_goals trivial

end Walks

/-! ## Runs -/

section Exec

variable {ι β : Type} {i : ι} {o : DispatchOp β} {b : β} {e : RegistryChoice}
  {s t : DispatchWorld ι}

/-- What an operation finds is true. -/
theorem initialized_of_admits (h : (dispatchMachine ι).exec i β o e s = some (b, t))
    (hadmits : o.admits b = true) : s.session.initialized = true := by
  cases o with
  | session o =>
    cases o with
    | isInitialized =>
      have hfound : s.session.initialized = b := (Prod.mk.inj (Option.some.inj h)).1
      exact hfound.trans hadmits
    | _ => cases hadmits
  | _ => cases hadmits

/-- Only one operation initializes the session. -/
theorem initialized_exec (h : (dispatchMachine ι).exec i β o e s = some (b, t))
    (hinit : t.session.initialized = true) :
    s.session.initialized = true ∨ o.initializes = true := by
  cases o with
  | session o =>
    obtain ⟨⟨b', t'⟩, hr, heq⟩ := Option.map_eq_some_iff.mp h
    obtain ⟨rfl, rfl⟩ := Prod.mk.inj heq
    -- only this operation sets the flag
    cases o with
    | setInitialized => exact .inr rfl
    | registry o =>
      obtain ⟨r, -, heq⟩ := Option.map_eq_some_iff.mp hr
      obtain ⟨-, rfl⟩ := Prod.mk.inj heq
      exact .inl hinit
    | isInitialized =>
      obtain rfl := (Prod.mk.inj (Option.some.inj hr)).2
      exact .inl hinit
    | notifyToolsListChanged =>
      obtain rfl := (Prod.mk.inj (Option.some.inj hr)).2
      exact .inl hinit
  | resourceOwner uri =>
    obtain rfl := (Prod.mk.inj (Option.some.inj h)).2
    exact .inl hinit
  | setResourceOwners owners =>
    obtain rfl := (Prod.mk.inj (Option.some.inj h)).2
    exact .inl hinit
  | record event =>
    obtain rfl := (Prod.mk.inj (Option.some.inj h)).2
    exact .inl hinit
  | openStream stream =>
    obtain rfl := (Prod.mk.inj (Option.some.inj h)).2
    exact .inl hinit

/-- To write to the audit log changes nothing else. -/
theorem unchanged_of_audits (h : (dispatchMachine ι).exec i β o e s = some (b, t))
    (haudits : o.audits = true) : t.session = s.session ∧ t.resourceOwners = s.resourceOwners ∧
      t.streams = s.streams := by
  cases o with
  | record event =>
    obtain rfl := (Prod.mk.inj (Option.some.inj h)).2
    exact ⟨rfl, rfl, rfl⟩
  | _ => cases haudits

end Exec

section Runs

variable {ι : Type} [DecidableEq ι] {messages : ι → Incoming} {i : ι}

/-- A state of the whole session and what led to it. -/
abbrev DispatchRun (ι : Type) := Recorded DispatchOp ι (DispatchWorld ι)

/-- A new session over a registry. -/
def freshSession (registry : RegistryWorld ι) : DispatchWorld ι :=
  ⟨⟨registry, false, 0⟩, [], [], []⟩

/-- A new session, and the messages that it handles. -/
def incomingTasks (prettyText serdeText : Value → String) (registry : RegistryWorld ι)
    (messages : ι → Incoming) : Pool DispatchOp ι (DispatchRun ι) Unit :=
  ⟨⟨freshSession registry, []⟩, fun i => (messages i).run prettyText serdeText⟩

/-- A message that may do something: a request that declares a supported version, or a legacy one
that has done nothing when the session had been initialized by a legacy `initialize`. -/
def Authorized (messages : ι → Incoming) (i : ι) (older : List (Performed DispatchOp ι)) : Prop :=
  (∃ v ∈ modernProtocolVersions, (messages i).message.declaredVersion = some v) ∨
    (messages i).message.isRequest = true ∧ (messages i).message.declaredVersion = none ∧
      ∃ between q before, older = between ++ q :: before ∧ q.op.initializes = true ∧
        (messages q.caller).message.isLegacyInitialize = true ∧ ∀ p ∈ before, p.caller ≠ i

/-- An `initialize` is one from the start. -/
theorem start_of_initializing {start : GatePhase} {l : List (Performed DispatchOp ι)}
    (h : gateLedger.after start i l = .initializing) : start = .initializing := by
  induction l with
  | nil => exact h
  | cons p l ih =>
    rw [Ledger.after] at h
    split at h
    · exact ih ((GatePhase.next_eq_self (.inl h)).symm.trans h)
    · exact ih h

/-- Who is silent stays silent. -/
theorem after_silent (l : List (Performed DispatchOp ι)) :
    gateLedger.after .silent i l = .silent := by
  induction l with
  | nil => rfl
  | cons p l ih =>
    rw [Ledger.after, ih]
    split <;> rfl

/-- Who is before the gate has done nothing. -/
theorem absent_of_closed {start : GatePhase} {l : List (Performed DispatchOp ι)}
    (h : gateLedger.after start i l = .closed) : start = .closed ∧ ∀ p ∈ l, p.caller ≠ i := by
  induction l with
  | nil => exact ⟨h, by simp⟩
  | cons p l ih =>
    rw [Ledger.after] at h
    split at h
    · exact absurd h (GatePhase.next_ne_closed _ _ _)
    · obtain ⟨hstart, habsent⟩ := ih h
      exact ⟨hstart, List.forall_mem_cons.mpr ⟨‹_›, habsent⟩⟩

/-- Who is in started there, or before the gate. -/
theorem start_of_opened {start : GatePhase} {l : List (Performed DispatchOp ι)}
    (h : gateLedger.after start i l = .opened) : start = .opened ∨ start = .closed := by
  induction l with
  | nil => exact .inl h
  | cons p l ih =>
    rw [Ledger.after] at h
    split at h
    · rcases GatePhase.next_eq_opened h with hopened | ⟨hclosed, -⟩
      · exact ih hopened
      · exact .inr (absent_of_closed hclosed).1
    · exact ih h

/-- One that is open has been let in by its first operation. -/
theorem admitted_of_opened {l : List (Performed DispatchOp ι)}
    (h : gateLedger.after .closed i l = .opened) :
    ∃ newer r before, l = newer ++ r :: before ∧ r.op.admits r.answer = true ∧
      ∀ p ∈ before, p.caller ≠ i := by
  induction l with
  | nil => cases h
  -- by induction on the history, newest first
  | cons p l ih =>
    have hlater (hl : gateLedger.after .closed i l = .opened) :
        ∃ newer r before, p :: l = newer ++ r :: before ∧ r.op.admits r.answer = true ∧
          ∀ p ∈ before, p.caller ≠ i := by
      obtain ⟨newer, r, before, rfl, hadmits, habsent⟩ := ih hl
      exact ⟨p :: newer, r, before, rfl, hadmits, habsent⟩
    rw [Ledger.after] at h
    -- the operation is another caller's, or one of its own that may open the gate
    split at h
    · rcases GatePhase.next_eq_opened h with hopened | ⟨hclosed, hadmits⟩
      · exact hlater hopened
      · exact ⟨[], p, l, rfl, hadmits, (absent_of_closed hclosed).2⟩
    · exact hlater h

/-- What has been found out about `initialized` so far. Whoever has found the session initialized
is preceded by an `initialize` that has set it so. -/
structure Initialized (s : DispatchRun ι) : Prop where
  /-- somebody initialized the session -/
  state : s.state.session.initialized = true → ∃ q ∈ s.log, q.op.initializes = true
  /-- and before anybody found it initialized -/
  found : ∀ newer r before, s.log = newer ++ r :: before → r.op.admits r.answer = true →
    ∃ q ∈ before, q.op.initializes = true

theorem Initialized.step {l : ι × RegistryChoice} {c c' : Pool DispatchOp ι (DispatchRun ι) Unit}
    (h : Initialized c.shared)
    (hstep : (dispatchMachine ι).recorded.step l c = some c') :
    Initialized c'.shared := by
  obtain ⟨q, hfire, -⟩ := (dispatchMachine ι).recorded.step_eq_some hstep
  obtain ⟨δ, o, k, b, hop, hexec, rfl⟩ := (dispatchMachine ι).recorded.fire_eq_some hfire
  obtain ⟨hexec, hlog⟩ := Machine.recorded_exec hexec
  -- what is set now was set before, or is by this step; what is let in now finds it set
  refine ⟨fun hinit => ?_, fun newer r before hsplit hadmits => ?_⟩
  · rw [hlog]
    rcases initialized_exec hexec hinit with hbefore | hsets
    · obtain ⟨q, hq, hsets⟩ := h.state hbefore
      exact ⟨q, List.mem_cons_of_mem _ hq, hsets⟩
    · exact ⟨_, List.mem_cons_self, hsets⟩
  · rw [hlog] at hsplit
    rcases newer with _ | ⟨p, newer⟩
    · obtain ⟨rfl, rfl⟩ := List.cons.inj hsplit
      exact h.state (initialized_of_admits hexec hadmits)
    · exact h.found newer r before (List.cons.inj hsplit).2 hadmits

theorem Initialized.play {ls : List (ι × RegistryChoice)}
    {c c' : Pool DispatchOp ι (DispatchRun ι) Unit} (h : Initialized c.shared)
    (hplay : (dispatchMachine ι).recorded.play ls c = some c') : Initialized c'.shared :=
  (dispatchMachine ι).recorded.play_induct (C := fun _ _ _ _ _ => True)
    (P := fun c => Initialized c.shared) (fun _ _ _ hc _ hstep => hc.step hstep) h
    ((dispatchMachine ι).recorded.meets_true ls c) hplay

/-- A legacy request that is open has found the session initialized. -/
theorem authorized_of_opened {s : DispatchRun ι} {newer older : List (Performed DispatchOp ι)}
    (hinit : Initialized s) (hlog : s.log = newer ++ older)
    (horder : ∀ newer p older, s.log = newer ++ p :: older →
      (gateLedger.after (GatePhase.of (messages p.caller).message) p.caller older).Allows p.op)
    (hopened : gateLedger.after (GatePhase.of (messages i).message) i older = .opened)
    (hlegacy : GatePhase.of (messages i).message = .closed) :
    ∃ between q before, older = between ++ q :: before ∧ q.op.initializes = true ∧
      (messages q.caller).message.isLegacyInitialize = true ∧ ∀ p ∈ before, p.caller ≠ i := by
  rw [hlegacy] at hopened
  obtain ⟨newer', r, before, rfl, hadmits, habsent⟩ := admitted_of_opened hopened
  obtain ⟨q, hq, hsets⟩ := hinit.found (newer ++ newer') r before (by rw [hlog]; simp) hadmits
  obtain ⟨between, before', rfl⟩ := List.append_of_mem hq
  refine ⟨newer' ++ r :: between, q, before', by simp, hsets, ?_, fun p hp => habsent p ?_⟩
  · have hallows := horder (newer ++ newer' ++ r :: between) q before' (by rw [hlog]; simp)
    have hphase := start_of_initializing (GatePhase.eq_initializing hallows hsets)
    exact (messages q.caller).message.isLegacyInitialize_of_phase hphase
  · exact List.mem_append_right _ (List.mem_cons_of_mem _ hp)

/-- **Every request passes the gate**: in every run of a new session, whatever reaches a backend or
opens a stream is done for a request that declares a supported version, or for a legacy one that
started after a legacy `initialize`; and a request that declares any other version does nothing but
write to the audit log, which leaves the session as it is. -/
theorem requests_are_gated {prettyText serdeText : Value → String} {registry : RegistryWorld ι}
    {ls : List (ι × RegistryChoice)} {c : Pool DispatchOp ι (DispatchRun ι) Unit}
    (hplay : (dispatchMachine ι).recorded.play ls
      (incomingTasks prettyText serdeText registry messages) = some c) :
    (∀ newer p older, c.shared.log = newer ++ p :: older → p.op.interacts = true →
      Authorized messages p.caller older) ∧
    ∀ i v, (messages i).message.declaredVersion = some v → v ∉ modernProtocolVersions →
      (∀ p ∈ c.shared.log, p.caller = i → p.op.audits = true) ∧
      ∀ e c', (dispatchMachine ι).recorded.step (i, e) c = some c' →
        c'.shared.state.session = c.shared.state.session ∧
        c'.shared.state.resourceOwners = c.shared.state.resourceOwners ∧
        c'.shared.state.streams = c.shared.state.streams := by
  have hrun (i : ι) : ((messages i).run prettyText serdeText).Keeps gateLedger (fun _ _ => True)
      (GatePhase.of (messages i).message) := gated_run prettyText serdeText (messages i)
  obtain ⟨hkeeps, horder⟩ := Ledger.play_inOrder rfl hrun hplay
  have hinit : Initialized c.shared := by
    refine Initialized.play ⟨fun h => ?_, fun newer r before h => ?_⟩ hplay
    · cases h
    · exact absurd h.symm (by simp [incomingTasks])
  refine ⟨fun newer p older hsplit hinteracts => ?_, fun i v hversion hunsupported => ?_⟩
  · have hopened := GatePhase.eq_opened (horder newer p older hsplit) hinteracts
    rcases start_of_opened hopened with hstart | hstart
    · exact .inl ((messages p.caller).message.supported_of_phase hstart)
    · obtain ⟨hrequest, hlegacy⟩ := (messages p.caller).message.legacy_of_phase hstart
      have hlog : c.shared.log = (newer ++ [p]) ++ older := by simp [hsplit]
      exact .inr ⟨hrequest, hlegacy, authorized_of_opened hinit hlog horder hopened hstart⟩
  · have hsilent : GatePhase.of (messages i).message = .silent := by
      simp only [GatePhase.of, hversion, if_neg hunsupported]
    refine ⟨fun p hp hcaller => ?_, fun e c' hstep => ?_⟩
    · obtain ⟨newer, older, hsplit⟩ := List.append_of_mem hp
      have hallows := horder newer p older hsplit
      rw [hcaller, hsilent, after_silent] at hallows
      exact hallows
    · obtain ⟨q, hfire, -⟩ := (dispatchMachine ι).recorded.step_eq_some hstep
      obtain ⟨δ, o, k, b, hop, hexec, -⟩ := (dispatchMachine ι).recorded.fire_eq_some hfire
      have hkept := hkeeps i
      rw [hsilent, after_silent] at hkept
      have hkept : (Prog.op o k).Keeps gateLedger (fun _ _ => True) .silent := hop ▸ hkept
      exact unchanged_of_audits (Machine.recorded_exec hexec).1 hkept.1

end Runs

/-! ### A legacy client -/

/-- A registry with one backend that has resources. -/
def resourceRegistry : RegistryWorld (Fin 2) :=
  { RegistryWorld.empty (Fin 2) with
    backends := [("x", ⟨bareBackend "x", 0, true, some ⟨none, some .null, none, none⟩, 0⟩)] }

/-- A client initializes the session and lists the resources. -/
def legacyClient : Fin 2 → Incoming
  | 0 => .handle (.request (.number 1) "initialize" none)
  | 1 => .handle (.request (.number 2) "resources/list" none)

/-- The backend is asked for the second request, which came after the first. -/
theorem legacy_client_authorized :
    ∃ c, (dispatchMachine (Fin 2)).recorded.play
        [(0, {}), (0, {}), (0, {}), (0, {}), (1, {}), (1, {}), (1, {}), (1, {})]
        (incomingTasks (fun _ => "") (fun _ => "") resourceRegistry legacyClient) = some c ∧
      ∃ newer p older, c.shared.log = newer ++ p :: older ∧ p.op.interacts = true ∧
        Authorized legacyClient p.caller older := by
  have hrun : ∃ c, (dispatchMachine (Fin 2)).recorded.play
      [(0, {}), (0, {}), (0, {}), (0, {}), (1, {}), (1, {}), (1, {}), (1, {})]
      (incomingTasks (fun _ => "") (fun _ => "") resourceRegistry legacyClient) = some c ∧
      ∃ p older, c.shared.log = [] ++ p :: older ∧ p.op.interacts = true :=
    ⟨_, rfl, _, _, rfl, rfl⟩
  obtain ⟨c, hplay, p, older, hlog, hinteracts⟩ := hrun
  exact ⟨c, hplay, [], p, older, hlog, hinteracts,
    (requests_are_gated hplay).1 [] p older hlog hinteracts⟩

end HeadlessMcp
