import HeadlessMcp.Session.Caching

/-!
# Audit

`handle_request` records one event for each request: its method, its tool and its outcome. The
outcome is computed next to the reply in every handler, so the two could differ. They agree,
unless a backend reports an error in a value that is not a `CallToolResult`; and one kind of
request is not recorded at all (`audited_iff`).

The messages are handled one after another by one task, next to any other tasks, so the events of
the task stand in the log in the order of its requests.
-/

namespace HeadlessMcp

open Async

/-! ## Events -/

/-- The event that an operation writes to the audit log. -/
def DispatchOp.event {β : Type} : DispatchOp β → Option AuditEvent
  | .record event => some event
  | _ => none

/-- The events of a transcript. -/
def auditEvents (l : List (Turn DispatchOp)) : List AuditEvent := l.filterMap fun a => a.op.event

/-- An operation that writes nothing to the audit log. -/
def DispatchOp.Unlogged {β : Type} (o : DispatchOp β) : Prop := o.event = none

theorem auditEvents_append (l l' : List (Turn DispatchOp)) :
    auditEvents (l ++ l') = auditEvents l ++ auditEvents l' :=
  List.filterMap_append

theorem auditEvents_unlogged {l : List (Turn DispatchOp)} (h : ∀ a ∈ l, a.op.Unlogged) :
    auditEvents l = [] :=
  List.filterMap_eq_nil_iff.mpr h

/-! ### The audit log -/

section Log

variable {ι : Type} {i : ι}

/-- An operation adds its event to the log. -/
theorem audit_exec {β : Type} {o : DispatchOp β} {e : RegistryChoice} {s t : DispatchWorld ι}
    {b : β} (h : (dispatchMachine ι).exec i β o e s = some (b, t)) :
    t.audit = o.event.toList ++ s.audit := by
  cases o with
  | session o =>
    obtain ⟨r, -, heq⟩ := Option.map_eq_some_iff.mp h
    obtain ⟨-, rfl⟩ := Prod.mk.inj heq
    rfl
  | _ =>
    obtain ⟨-, rfl⟩ := Prod.mk.inj (Option.some.inj h)
    rfl

/-- The log holds what the tasks have written to it, newest first. -/
theorem audit_eq [DecidableEq ι] {α : Type} {start : ι → Prog DispatchOp α} {s : DispatchWorld ι}
    {ls : List (ι × RegistryChoice)} {c : Pool DispatchOp ι (Recorded DispatchOp ι _) α}
    (hplay : (dispatchMachine ι).recorded.play ls ⟨⟨s, []⟩, start⟩ = some c) :
    c.shared.state.audit = c.shared.log.filterMap (fun p => p.op.event) ++ s.audit := by
  let P (c : Pool DispatchOp ι (Recorded DispatchOp ι (DispatchWorld ι)) α) : Prop :=
    c.shared.state.audit = c.shared.log.filterMap (fun p => p.op.event) ++ s.audit
  have hstep : ∀ l c c', P c → (dispatchMachine ι).recorded.step l c = some c' → P c' := by
    intro l c c' hc h
    obtain ⟨q, hfire, -⟩ := Machine.step_eq_some _ h
    obtain ⟨β, o, k, b, -, hexec, rfl⟩ := Machine.fire_eq_some _ hfire
    obtain ⟨hexec, hlog⟩ := Machine.recorded_exec hexec
    have haudit := audit_exec hexec
    simp only [P] at hc ⊢
    rw [haudit, hc, hlog, List.filterMap_cons]
    cases o.event <;> rfl
  exact Machine.play_induct _ (C := fun _ _ _ _ _ => True) (P := P)
    (fun l c c' hc _ h => hstep l c c' hc h) rfl (Machine.meets_true _ _ _) hplay

end Log

/-! ## Outcomes -/

/-- A request has succeeded: it got a result, and for a tool call one that reports no error, or a
stream. -/
def RequestSucceeded (method : String) : Option SessionReply → Prop
  | some (.message (.success _ v)) => method = "tools/call" → v.isError = false
  | some (.stream _ _) => True
  | _ => False

/-- The outcome of a handler says whether its result is a success. A tool that fails is reported
in a successful result, so the result of a call is taken apart. -/
def Handled.Honest (method : String) (handled : Handled) : Prop :=
  handled.outcome = .ok ↔
    ∃ v, handled.result = .ok v ∧ (method = "tools/call" → v.isError = false)

theorem honest_ofError (method : String) (err : JsonRpcError) :
    (Handled.ofError err).Honest method :=
  iff_of_false nofun nofun

theorem honest_simple {method : String} (h : method ≠ "tools/call")
    (result : Except JsonRpcError Value) : (Handled.simple result).Honest method := by
  cases result with
  | error err => exact iff_of_false nofun nofun
  | ok v => exact iff_of_true rfl ⟨v, rfl, fun hcall => absurd hcall h⟩

/-- A field that is inserted next to `isError` leaves it alone. -/
theorem isError_insert {key : String} (h : "isError" ≠ key) (v : Value) (obj : Map) :
    (Value.object (Entries.insert key v obj)).isError = (Value.object obj).isError := by
  simp only [Value.isError, Value.get, Entries.get_insert_ne h]

theorem isError_markComplete (v : Value) : (markComplete v).isError = v.isError := by
  cases v with
  | object obj =>
    simp only [markComplete]
    split
    · rfl
    · exact isError_insert (by decide) _ _
  | _ => rfl

theorem isError_markCacheable (method : String) (v : Value) :
    (markCacheable method v).isError = v.isError := by
  unfold markCacheable
  split
  · split
    · rw [isError_insert (by decide)]
      split
      · rfl
      · exact isError_insert (by decide) _ _
    · rfl
  · rfl

/-- What is added to a modern result does not change what it reports. -/
theorem Handled.Honest.modernized {method : String} {handled : Handled}
    (h : handled.Honest method) : (handled.modernized method).Honest method := by
  rw [Handled.Honest] at h ⊢
  rw [show (handled.modernized method).outcome = handled.outcome from rfl, h]
  rcases hresult : handled.result with err | v
  · simp [Handled.modernized, hresult, Except.map]
  · simp [Handled.modernized, hresult, Except.map, isError_markCacheable, isError_markComplete]

/-! ## Tool calls -/

/-- An error that a backend reports in a value which is not passed on as it is. -/
def DisguisedError (v : Value) : Prop :=
  v.isError = true ∧ (v.get "content").bind Value.asArray = none ∧
    (v.get "resultType").bind Value.asStr ≠ some "input_required"

/-- Any other value reports the same after it was wrapped. -/
theorem isError_toolResult {prettyText : Value → String} {v : Value} (h : ¬ DisguisedError v) :
    (toolResult prettyText v).isError = v.isError := by
  unfold toolResult
  -- passed on as it is, or wrapped as a text
  split
  · rfl
  · -- it has no content and no type, so an error flag of its own would be the disguise
    rename_i hwrapped
    simp only [Bool.or_eq_true, Option.any_eq_true, decide_eq_true_eq, not_or] at hwrapped
    obtain ⟨hcontent, htype⟩ := hwrapped
    have hnone : (v.get "content").bind Value.asArray = none := by
      rw [Option.bind_eq_none_iff]
      intro content hget
      by_contra harray
      exact hcontent ⟨content, hget, Option.isSome_iff_ne_none.mpr harray⟩
    have hplain : v.isError = false := by
      by_contra herror
      exact h ⟨by simpa using herror, hnone, htype⟩
    rw [hplain]
    rfl

/-- A transcript of the registry sends a tool call, which is answered with this value. -/
def RoutedAnswer (l : List (Turn RegistryOp)) (v : Value) : Prop :=
  ∃ object, ∃ call : McpOp (BackendResult Value), ∃ params,
    call.forwards = some ("tools/call", params) ∧
      (⟨.backend object call, .ok v⟩ : Turn RegistryOp) ∈ l

theorem forwards_forwardCall (name : String) (args : Option Value) (extra : Map) (secs : Nat) :
    ∃ params, (Registry.forwardCall name args extra secs).forwards = some ("tools/call", params) := by
  unfold Registry.forwardCall
  split <;> exact ⟨_, rfl⟩

/-- A routed call returns what a backend answered to it. -/
theorem routeCallWith_ok {name : String} {args : Option Value} {extra : Map} {secs : Nat}
    {l : List (Turn RegistryOp)} {v : Value}
    (h : (Registry.routeCallWith name args extra secs).Performs l (.done (.ok v))) :
    RoutedAnswer l v := by
  obtain ⟨resolved, l, rfl, h⟩ := h
  match resolved with
  | none => cases h.2
  | some (routed, none) => cases h.2
  | some (routed, some handle) =>
    simp only [Prog.bind_eq, Prog.ret_bind] at h
    rcases hpolicy : applyArgPolicy handle.definition args with err | args'
    · simp only [hpolicy] at h
      cases h.2
    simp only [hpolicy] at h
    obtain ⟨params, hforwards⟩ := forwards_forwardCall routed.downstreamName args' extra secs
    refine ⟨handle.object, _, params, hforwards, List.mem_cons_of_mem _ ?_⟩
    obtain ⟨connected, result, rest, rfl, -, hrest⟩ :=
      Prog.Performs.of_bind_done h
    refine List.mem_append_right _ ?_
    rcases result with err | _
    · cases hrest.2
    dsimp only at hrest
    split at hrest
    · -- a backend that is connected for this call
      obtain ⟨init, l, rfl, hcall⟩ := hrest
      rcases init with err | _
      · cases hcall.2
      obtain ⟨answer, l, rfl, hdisconnect⟩ := hcall
      obtain ⟨done, l, rfl, hend⟩ := hdisconnect
      rcases done with err | _
      · cases hend.2
      obtain rfl := Outcome.done.inj hend.2
      exact List.mem_cons_of_mem _ List.mem_cons_self
    · obtain ⟨answer, l, rfl, hend⟩ := hrest
      obtain rfl := Outcome.done.inj hend.2
      exact List.mem_cons_self

/-- A transcript of the session sends a tool call, which is answered with this value. -/
def CallAnswer (l : List (Turn DispatchOp)) (v : Value) : Prop :=
  ∃ object, ∃ call : McpOp (BackendResult Value), ∃ params,
    call.forwards = some ("tools/call", params) ∧
      (⟨.session (.registry (.backend object call)), .ok v⟩ : Turn DispatchOp) ∈ l

theorem CallAnswer.mono {l l' : List (Turn DispatchOp)} {v : Value} (hv : CallAnswer l v)
    (h : l ⊆ l') : CallAnswer l' v := by
  obtain ⟨object, call, params, hforwards, hmem⟩ := hv
  exact ⟨object, call, params, hforwards, h hmem⟩

/-- No tool call is answered with an error that the reply hides. Such a value is a result for the
reply and an error for the log. -/
def PlainAnswers (l : List (Turn DispatchOp)) : Prop := ∀ v, CallAnswer l v → ¬ DisguisedError v

section Calls

variable {prettyText serdeText : Value → String} {l : List (Turn DispatchOp)}

/-- What the handler of a tool call records is what the client gets. -/
theorem honest_callTool {params : ToolCallParams} {ctx : RequestCtx} {l : List (Turn SessionOp)}
    {handled : Handled} (h : (Session.callTool prettyText params ctx).Performs l (.done handled))
    (hplain : PlainAnswers (l.map (Turn.lift .session))) : handled.Honest "tools/call" := by
  obtain ⟨found, backend, l, rfl, -, h⟩ := Prog.Performs.of_bind_done h
  obtain ⟨revived, _, l, rfl, -, h⟩ := Prog.Performs.of_bind_done h
  obtain ⟨asked, forwards, l, rfl, -, h⟩ := Prog.Performs.of_bind_done h
  obtain ⟨routed, answer, l, rfl, hroute, h⟩ := Prog.Performs.of_bind_done h
  obtain ⟨routed, rfl, hcall⟩ := hroute.of_lift
  rcases answer with err | v
  · -- the hint of the failure, and the failure as a result
    obtain ⟨hinted, hint, rest, rfl, -, hend⟩ := Prog.Performs.of_bind_done h
    obtain rfl := Outcome.done.inj hend.2
    refine iff_of_false nofun ?_
    rintro ⟨v, hv, hplain⟩
    obtain rfl := Except.ok.inj hv
    exact Bool.noConfusion (hplain rfl)
  · obtain rfl := Outcome.done.inj h.2
    have hanswer : ¬ DisguisedError v := by
      obtain ⟨object, call, params, hforwards, hmem⟩ := routeCallWith_ok hcall
      refine hplain v ⟨object, call, params, hforwards, ?_⟩
      simp only [List.map_append, List.mem_append]
      exact .inr (.inr (.inr (.inl (List.mem_map_of_mem (List.mem_map_of_mem hmem)))))
    rw [Handled.Honest]
    cases herror : v.isError <;> simp [isError_toolResult hanswer, herror]

theorem honest_handleToolsCall {params : Option Value} {ctx : RequestCtx} {handled : Handled}
    (h : (sessionDo (Session.handleToolsCall prettyText serdeText params ctx)).Performs l
      (.done handled)) (hplain : PlainAnswers l) : handled.Honest "tools/call" := by
  obtain ⟨l, rfl, hcall⟩ := h.of_lift
  obtain ⟨asked, accepted, rest, rfl, -, hrest⟩ := Prog.Performs.of_bind_done hcall
  -- not initialised, no parameters, malformed parameters, or a call
  rcases accepted with err | _
  · obtain rfl := Outcome.done.inj hrest.2
    exact honest_ofError _ err
  rcases params with _ | v
  · obtain rfl := Outcome.done.inj hrest.2
    exact honest_ofError _ _
  dsimp only at hrest
  cases hparams : v.toToolCallParams with
  | none =>
    simp only [hparams] at hrest
    obtain rfl := Outcome.done.inj hrest.2
    exact honest_ofError _ _
  | some params =>
    simp only [hparams] at hrest
    refine honest_callTool hrest fun v hv => hplain v (hv.mono ?_)
    rw [List.map_append]
    exact List.subset_append_right _ _

/-! ## One request -/

/-- A handler writes nothing to the audit log. -/
theorem unlogged_sessionDo {α : Type} (p : Prog SessionOp α) :
    (sessionDo p).Uses DispatchOp.Unlogged := by
  have hop {δ : Type} (o : SessionOp δ) : (DispatchOp.session o).Unlogged := rfl
  exact Prog.uses_lift hop p

theorem unlogged_capabilities : Session.capabilities.Uses DispatchOp.Unlogged := by
  refine (unlogged_sessionDo _).bind fun resources => ?_
  exact (unlogged_sessionDo _).bind fun events => trivial

theorem unlogged_handleDiscover : Session.handleDiscover.Uses DispatchOp.Unlogged :=
  unlogged_capabilities.bind fun _ => trivial

theorem unlogged_handleInitialize : Session.handleInitialize.Uses DispatchOp.Unlogged :=
  ⟨rfl, fun _ => unlogged_capabilities.bind fun _ => trivial⟩

theorem unlogged_handleToolsList (ctx : RequestCtx) :
    (Session.handleToolsList ctx).Uses DispatchOp.Unlogged := by
  refine (unlogged_sessionDo _).bind fun accepted => ?_
  rcases accepted with err | _
  · trivial
  · exact (unlogged_sessionDo _).bind fun tools => trivial

theorem unlogged_listResources (ids : List String) (owners : Entries String) :
    (Session.listResources ids owners).Uses DispatchOp.Unlogged := by
  induction ids generalizing owners with
  | nil => trivial
  | cons id ids ih =>
    refine (unlogged_sessionDo _).bind fun answer => ?_
    rcases answer with err | result
    · exact ih owners
    · exact (ih _).bind fun _ => trivial

theorem unlogged_handleResourcesList (ctx : RequestCtx) :
    (Session.handleResourcesList ctx).Uses DispatchOp.Unlogged := by
  refine (unlogged_sessionDo _).bind fun accepted => ?_
  rcases accepted with err | _
  · trivial
  · refine (unlogged_sessionDo _).bind fun ids => ?_
    exact (unlogged_listResources ids []).bind fun _ => ⟨rfl, fun _ => trivial⟩

theorem unlogged_readFrom (uri : String) (owner : Option String) :
    (Session.readFrom uri owner).Uses DispatchOp.Unlogged := by
  rcases owner with _ | owner
  · trivial
  · refine (unlogged_sessionDo _).bind fun answer => ?_
    rcases answer with err | v <;> trivial

theorem unlogged_handleResourcesRead (params : Option Value) (ctx : RequestCtx) :
    (Session.handleResourcesRead params ctx).Uses DispatchOp.Unlogged := by
  refine (unlogged_sessionDo _).bind fun accepted => ?_
  rcases accepted with err | _
  · trivial
  dsimp only
  split
  · trivial
  · simp only [Prog.bind_eq, Prog.perform_bind]
    refine ⟨rfl, fun owner => ?_⟩
    -- the owner of the resource is known, or the backends are listed first
    rcases owner with _ | owner
    · refine (unlogged_handleResourcesList ctx).bind fun listed => ?_
      rcases listed with err | _
      · trivial
      · exact ⟨rfl, fun owner => unlogged_readFrom _ owner⟩
    · exact unlogged_readFrom _ _

theorem unlogged_simple {p : Prog DispatchOp (Except JsonRpcError Value)}
    (h : p.Uses DispatchOp.Unlogged) : (Session.simple p).Uses DispatchOp.Unlogged :=
  h.bind fun _ => trivial

theorem unlogged_handlerOf (method : String) (params : Option Value) (ctx : RequestCtx) :
    (Session.handlerOf prettyText serdeText method params ctx).Uses DispatchOp.Unlogged := by
  unfold Session.handlerOf
  split_ifs
  · exact unlogged_simple (unlogged_handleDiscover.bind fun _ => trivial)
  · exact unlogged_simple unlogged_handleInitialize
  · exact unlogged_simple (unlogged_handleToolsList ctx)
  · exact unlogged_sessionDo _
  · exact unlogged_simple (unlogged_handleResourcesList ctx)
  · exact unlogged_simple (unlogged_handleResourcesRead params ctx)
  · exact unlogged_simple (unlogged_sessionDo _)
  · exact unlogged_simple (unlogged_sessionDo _)
  · trivial
  · trivial

/-- No handler writes to the audit log. -/
theorem unlogged_dispatchRequest (method : String) (params : Option Value) :
    (Session.dispatchRequest prettyText serdeText method params).Uses DispatchOp.Unlogged := by
  unfold Session.dispatchRequest
  dsimp only
  split
  · trivial
  · exact (unlogged_handlerOf method params _).bind fun handled => trivial

theorem honest_handlerOf {method : String} {params : Option Value} {ctx : RequestCtx}
    {handled : Handled} (h : (Session.handlerOf prettyText serdeText method params ctx).Performs l
      (.done handled)) (hplain : PlainAnswers l) : handled.Honest method := by
  by_cases hcall : method = "tools/call"
  · subst hcall
    have hhandler : Session.handlerOf prettyText serdeText "tools/call" params ctx =
        sessionDo (Session.handleToolsCall prettyText serdeText params ctx) := by
      simp [Session.handlerOf]
    rw [hhandler] at h
    exact honest_handleToolsCall h hplain
  · -- the outcome is that of the result
    have hsimple {p : Prog DispatchOp (Except JsonRpcError Value)}
        (h : (Session.simple p).Performs l (.done handled)) : handled.Honest method := by
      obtain ⟨done, result, rest, rfl, -, hend⟩ := Prog.Performs.of_bind_done h
      obtain rfl := Outcome.done.inj hend.2
      exact honest_simple hcall result
    unfold Session.handlerOf at h
    split_ifs at h
    all_goals
      first
        | exact hsimple h
        | obtain rfl := Outcome.done.inj h.2
          exact honest_simple hcall _

/-- The outcome of a request says whether its result is a success. -/
theorem honest_dispatchRequest {method : String} {params : Option Value} {handled : Handled}
    (h : (Session.dispatchRequest prettyText serdeText method params).Performs l (.done handled))
    (hplain : PlainAnswers l) : handled.Honest method := by
  unfold Session.dispatchRequest at h
  dsimp only at h
  split at h
  · obtain rfl := Outcome.done.inj h.2
    exact honest_ofError _ _
  · obtain ⟨done, handled', rest, rfl, hdone, hend⟩ := Prog.Performs.of_bind_done h
    have hhonest : handled'.Honest method :=
      honest_handlerOf hdone fun v hv => hplain v (hv.mono (List.subset_append_left _ _))
    obtain rfl := Outcome.done.inj hend.2
    split
    · exact hhonest.modernized
    · exact hhonest

end Calls

/-! ## One message after another -/

/-- Messages that are handled one after another. Each of them is handled when the one before it
has been answered. -/
def Session.handleAll (prettyText serdeText : Value → String) :
    List JsonRpcMessage → Prog DispatchOp (List (Option SessionReply))
  | [] => .ret []
  | message :: messages => do
    let reply ← Session.handleStreaming prettyText serdeText message
    let replies ← Session.handleAll prettyText serdeText messages
    .ret (reply :: replies)

/-- The requests among the messages: their methods, and what they got. Notifications and responses
are left out, and so are their places among the replies. -/
def requestsOf : List JsonRpcMessage → List (Option SessionReply) →
    List (String × Option SessionReply)
  | .request _ method _ :: messages, reply :: replies => (method, reply) :: requestsOf messages replies
  | _ :: messages, _ :: replies => requestsOf messages replies
  | _, _ => []

/-- The event of a request: its method, and whether it has succeeded. -/
structure EventFor (request : String × Option SessionReply) (event : AuditEvent) : Prop where
  method : event.method = request.1
  outcome : event.outcome = .ok ↔ RequestSucceeded request.1 request.2

/-- A request that opens a stream. -/
def JsonRpcMessage.isListen : JsonRpcMessage → Bool
  | .request _ method _ => method = "subscriptions/listen"
  | _ => false

theorem requestsOf_cons (message : JsonRpcMessage) (reply : Option SessionReply)
    (messages : List JsonRpcMessage) (replies : List (Option SessionReply)) :
    requestsOf (message :: messages) (reply :: replies) =
      requestsOf [message] [reply] ++ requestsOf messages replies := by
  cases message <;> rfl

section Messages

variable {prettyText serdeText : Value → String} {l : List (Turn DispatchOp)}

/-- A request is recorded once it has been dispatched. -/
theorem event_handleRequest {requestId : JsonRpcId} {method : String} {params : Option Value}
    {reply : JsonRpcMessage}
    (h : (Session.handleRequest prettyText serdeText requestId method params).Performs l
      (.done reply)) (hplain : PlainAnswers l) :
    ∃ event, auditEvents l = [event] ∧ EventFor (method, some (.message reply)) event := by
  obtain ⟨done, handled, rest, rfl, hdone, hrest⟩ := Prog.Performs.of_bind_done h
  obtain ⟨_, last, rfl, hlast⟩ := hrest
  have hhonest : handled.Honest method :=
    honest_dispatchRequest hdone fun v hv => hplain v (hv.mono (List.subset_append_left _ _))
  have hquiet : auditEvents done = [] :=
    auditEvents_unlogged (hdone.uses (unlogged_dispatchRequest method params))
  refine ⟨⟨method, handled.toolName, handled.outcome⟩, ?_, rfl, ?_⟩
  · -- the dispatch itself records nothing, so the event is the one of the end
    rw [auditEvents_append, hquiet]
    rcases hresult : handled.result with err | v
    all_goals
      simp only [Prog.ret_bind, hresult] at hlast
      obtain ⟨rfl, -⟩ := hlast
      rfl
  · -- a result or an error, and the event says the same of it
    rw [Handled.Honest] at hhonest
    rw [hhonest]
    rcases hresult : handled.result with err | v
    · simp only [Prog.ret_bind, hresult] at hlast
      obtain rfl := Outcome.done.inj hlast.2
      simp [RequestSucceeded]
    · simp only [Prog.ret_bind, hresult] at hlast
      obtain rfl := Outcome.done.inj hlast.2
      simp [RequestSucceeded]

/-- A message leaves the events of its requests, but for a request that opens a stream. -/
theorem events_handleStreaming {message : JsonRpcMessage} {reply : Option SessionReply}
    (h : (Session.handleStreaming prettyText serdeText message).Performs l (.done reply))
    (hplain : PlainAnswers l) :
    if message.isListen then (requestsOf [message] [reply]).length = 1 ∧ auditEvents l = []
    else List.Forall₂ EventFor (requestsOf [message] [reply]) (auditEvents l) := by
  cases message with
  | request requestId method params =>
    -- a listening request is answered with a stream and not recorded
    by_cases hlisten : method = "subscriptions/listen"
    · have htrue : (JsonRpcMessage.request requestId method params).isListen = true :=
        decide_eq_true hlisten
      rw [if_pos htrue]
      refine ⟨rfl, ?_⟩
      simp only [Session.handleStreaming, hlisten, if_true] at h
      split at h
      · obtain ⟨rfl, -⟩ := h
        rfl
      · obtain ⟨number, rest, rfl, h⟩ := h
        obtain ⟨rfl, -⟩ := h
        rfl
    · -- any other request takes the path of `handle`
      have hfalse : (JsonRpcMessage.request requestId method params).isListen = false :=
        decide_eq_false hlisten
      rw [hfalse, if_neg Bool.false_ne_true]
      simp only [Session.handleStreaming, if_neg hlisten] at h
      obtain ⟨done, answer, rest, rfl, hdone, hend⟩ := Prog.Performs.of_bind_done h
      obtain ⟨rfl, hreply⟩ := hend
      obtain rfl := Outcome.done.inj hreply
      rw [List.append_nil] at hplain ⊢
      obtain ⟨event, hevents, hevent⟩ := event_handleRequest hdone hplain
      rw [hevents]
      exact .cons hevent .nil
  | _ =>
    obtain ⟨rfl, -⟩ := h
    exact .nil

/-- What the messages leave in all. -/
theorem events_handleAll {messages : List JsonRpcMessage} {replies : List (Option SessionReply)}
    (h : (Session.handleAll prettyText serdeText messages).Performs l (.done replies))
    (hplain : PlainAnswers l) :
    (auditEvents l).length + messages.countP (·.isListen) = (requestsOf messages replies).length ∧
      ((∀ message ∈ messages, message.isListen = false) →
        List.Forall₂ EventFor (requestsOf messages replies) (auditEvents l)) := by
  induction messages generalizing l replies with
  | nil =>
    obtain ⟨rfl, hend⟩ := h
    obtain rfl := Outcome.done.inj hend
    exact ⟨rfl, fun _ => .nil⟩
  | cons message messages ih =>
    obtain ⟨first, reply, others, rfl, hfirst, hothers⟩ := Prog.Performs.of_bind_done h
    obtain ⟨later, replies', rest, rfl, hlater, hend⟩ := Prog.Performs.of_bind_done hothers
    obtain ⟨rfl, hreplies⟩ := hend
    obtain rfl := Outcome.done.inj hreplies
    rw [List.append_nil] at hplain ⊢
    have hone := events_handleStreaming hfirst fun v hv =>
      hplain v (hv.mono (List.subset_append_left _ _))
    obtain ⟨hcount, hrest⟩ := ih hlater fun v hv =>
      hplain v (hv.mono (List.subset_append_right _ _))
    rw [requestsOf_cons, auditEvents_append, List.length_append, List.length_append, List.countP_cons]
    -- the first message opens a stream, or leaves the event of its request
    cases hlisten : message.isListen with
    | true =>
      rw [hlisten, if_pos rfl] at hone
      obtain ⟨hrequest, hnone⟩ := hone
      refine ⟨?_, fun hquiet => ?_⟩
      · rw [hrequest, hnone, ← hcount, List.length_nil, if_pos rfl]
        omega
      · have hfalse := hquiet message List.mem_cons_self
        rw [hlisten] at hfalse
        cases hfalse
    | false =>
      rw [hlisten, if_neg Bool.false_ne_true] at hone
      refine ⟨?_, fun hquiet => ?_⟩
      · rw [hone.length_eq, ← hcount, if_neg Bool.false_ne_true]
        omega
      · exact List.rel_append hone (hrest fun message hmem =>
          hquiet message (List.mem_cons_of_mem _ hmem))

end Messages

/-! ## The audit log -/

/-- The audit log receives one event for each request that a task has handled. -/
structure Audited {ι : Type} [DecidableEq ι] (i : ι) (s : DispatchWorld ι)
    (shared : Recorded DispatchOp ι (DispatchWorld ι)) (messages : List JsonRpcMessage)
    (replies : List (Option SessionReply)) : Prop where
  /-- the log holds what the tasks have recorded -/
  received : shared.state.audit = shared.log.filterMap (fun p => p.op.event) ++ s.audit
  /-- which is, for this task, one event after another for its requests -/
  events : List.Forall₂ EventFor (requestsOf messages replies) (auditEvents (transcript i shared.log))

/-- **The audit log gets one event for each request, with the outcome that the client sees,
exactly when no request opens a stream**: for all messages that are handled one after another, in
every run, next to any other tasks, where no backend hides an error in its answer to a call. The
events are compared with the requests one by one, so none is missing, doubled or out of order. A
stream is answered by another function, which writes no event. -/
theorem audited_iff {ι : Type} [DecidableEq ι] {i : ι} {prettyText serdeText : Value → String}
    {messages : List JsonRpcMessage} {start : ι → Prog DispatchOp (List (Option SessionReply))}
    {s : DispatchWorld ι} {ls : List (ι × RegistryChoice)}
    {c : Pool DispatchOp ι (Recorded DispatchOp ι (DispatchWorld ι)) (List (Option SessionReply))}
    {replies : List (Option SessionReply)}
    (hstart : start i = Session.handleAll prettyText serdeText messages)
    (hplay : (dispatchMachine ι).recorded.play ls ⟨⟨s, []⟩, start⟩ = some c)
    (hend : c.task i = .ret replies) (hplain : PlainAnswers (transcript i c.shared.log)) :
    Audited i s c.shared messages replies ↔ ∀ message ∈ messages, message.isListen = false := by
  have hperformed := Machine.performs_of_play hplay hend
  rw [hstart] at hperformed
  obtain ⟨hcount, hevents⟩ := events_handleAll hperformed hplain
  -- a stream opened is an event missing
  constructor
  · intro haudited
    have hlength := haudited.events.length_eq
    have hnone : messages.countP (·.isListen) = 0 := by omega
    simpa using List.countP_eq_zero.mp hnone
  · intro hquiet
    exact ⟨audit_eq hplay, hevents hquiet⟩

/-! ### Three runs -/

/-- A hub with a tool. -/
def toolHub : DispatchWorld Unit :=
  { resourceHub with session := { resourceHub.session with
      registry := { resourceHub.session.registry with
        index := [("t", ⟨"a", "t", "t", ⟨"t", "", .null⟩⟩)] } } }

/-- Messages, as those of the only task. -/
def handleOnly (messages : List JsonRpcMessage) (_ : Unit) :
    Prog DispatchOp (List (Option SessionReply)) :=
  Session.handleAll Value.print Value.print messages

/-- A run of them. -/
def playMessages (messages : List JsonRpcMessage) (choices : List RegistryChoice) :=
  (dispatchMachine Unit).recorded.play (Machine.turns () choices)
    ⟨⟨toolHub, []⟩, handleOnly messages⟩

/-- What a method of a backend is answered with, if it is a value. -/
def McpOp.valueOf {β : Type} : McpOp β → β → Option Value
  | .callTool _ _ _ => Except.toOption
  | .request _ _ _ => Except.toOption
  | _ => fun _ => none

/-- What an operation of the session is answered with by a backend, if it is a value. -/
def DispatchOp.valueOf {β : Type} : DispatchOp β → β → Option Value
  | .session (.registry (.backend _ call)) => call.valueOf
  | _ => fun _ => none

/-- The value that a turn is answered with. -/
def backendValue (a : Turn DispatchOp) : Option Value := a.op.valueOf a.answer

/-- A method that forwards a request is answered with a value, unless it fails. -/
theorem McpOp.valueOf_ok {β : Type} {call : McpOp β} {request : String × Option Value} {answer : β}
    {v : Value} (hforwards : call.forwards = some request)
    (hanswer : HEq answer (Except.ok v : BackendResult Value)) : call.valueOf answer = some v := by
  cases call with
  | callTool name arguments secs =>
    obtain rfl := eq_of_heq hanswer
    rfl
  | request method params secs =>
    obtain rfl := eq_of_heq hanswer
    rfl
  | _ => cases hforwards

/-- The answers to tool calls are among the values of the backends. -/
theorem CallAnswer.mem_values {l : List (Turn DispatchOp)} {v : Value} (h : CallAnswer l v) :
    v ∈ l.filterMap backendValue := by
  obtain ⟨object, call, params, hforwards, hmem⟩ := h
  exact List.mem_filterMap.mpr ⟨_, hmem, McpOp.valueOf_ok hforwards HEq.rfl⟩

/-- A call of a tool, a call without params, a notification, and a request of no known method. -/
def plainMessages : List JsonRpcMessage :=
  [.request (.number 1) "tools/call" (some (.object [("name", .string "t")])),
    .request (.number 2) "tools/call" none, .notification "notifications/initialized" none,
    .request (.number 3) "ping" none]

/-- All requests are recorded, the one that a backend answers too. -/
theorem plain_messages_are_audited : ∃ c replies,
    playMessages plainMessages [{}, {}, {}, {}, {}, { value := .ok (.object [("n", .string "7")]) },
        {}, {}, {}, {}] = some c ∧ c.task () = .ret replies ∧
      (transcript () c.shared.log).filterMap backendValue = [.object [("n", .string "7")]] ∧
      Audited () toolHub c.shared plainMessages replies := by
  obtain ⟨c, replies, hplay, hend, hvalues⟩ : ∃ c replies,
      playMessages plainMessages [{}, {}, {}, {}, {},
          { value := .ok (.object [("n", .string "7")]) }, {}, {}, {}, {}] = some c ∧
        c.task () = .ret replies ∧ (transcript () c.shared.log).filterMap backendValue =
          [.object [("n", .string "7")]] := ⟨_, _, rfl, rfl, rfl⟩
  have hplain : PlainAnswers (transcript () c.shared.log) := by
    intro v hv
    have hmem := hv.mem_values
    rw [hvalues] at hmem
    obtain rfl := List.mem_singleton.mp hmem
    exact fun h => absurd h.1 (by decide)
  have hstart : handleOnly plainMessages () =
    Session.handleAll Value.print Value.print plainMessages := rfl
  have hquiet : plainMessages.all (fun message => !message.isListen) = true := by decide
  refine ⟨c, replies, hplay, hend, hvalues, (audited_iff hstart hplay hend hplain).mpr ?_⟩
  simpa using hquiet

/-- A request for a stream. -/
def listenMessages : List JsonRpcMessage :=
  [.request (.number 1) "subscriptions/listen" (some modernRead)]

/-- A call of a tool. -/
def callMessages : List JsonRpcMessage :=
  [.request (.number 1) "tools/call" (some (.object [("name", .string "t")]))]

/-- A stream is not recorded, and an error without content is recorded for a reply that reports
none. -/
theorem streams_are_not_audited :
    (∃ c replies, playMessages listenMessages [{}] = some c ∧ c.task () = .ret replies ∧
      ¬ Audited () toolHub c.shared listenMessages replies) ∧
    ∃ c replies, playMessages callMessages
        [{}, {}, {}, {}, {}, { value := .ok (.object [("isError", .bool true)]) }, {}] = some c ∧
      c.task () = .ret replies ∧ ¬ Audited () toolHub c.shared callMessages replies := by
  constructor
  · refine ⟨_, _, rfl, rfl, fun haudited => ?_⟩
    exact absurd haudited.events.length_eq (by decide)
  · refine ⟨_, _, rfl, rfl, fun haudited => ?_⟩
    obtain ⟨⟨-, houtcome⟩, -⟩ := List.forall₂_cons.mp haudited.events
    exact AuditOutcome.noConfusion (houtcome.mpr fun _ => rfl)

end HeadlessMcp
