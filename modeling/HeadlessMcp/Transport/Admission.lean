import HeadlessMcp.Async.Returns
import HeadlessMcp.Transport.Http

/-!
# Admission

What a client of the HTTP transport can tell from the status of a response, and which requests
reach the session. The status is a function of the request and of the rate limiter's answer
alone (`expectedStatus`): the handlers, the backends and other requests do not show in it. And
only requests that were let through by all checks do anything in the session.
-/

namespace HeadlessMcp

open Async

namespace Session

/-! ## The codes of errors -/

/-- The code is neither that of an unknown method nor that of an unsupported version. -/
def OrdinaryCode (code : Int) : Prop :=
  code ≠ JsonRpcError.methodNotFoundCode ∧ code ≠ unsupportedProtocolVersionCode

/-- An error of the result has such a code. -/
def Ordinary (result : Except JsonRpcError Value) : Prop :=
  ∀ err, result = .error err → OrdinaryCode err.code

theorem ordinary_ok (v : Value) : Ordinary (.ok v) := nofun

theorem ordinary_error {err : JsonRpcError} (h : OrdinaryCode err.code) :
    Ordinary (.error err) := by
  intro err' heq
  obtain rfl := Except.error.inj heq
  exact h

theorem ordinary_codes : OrdinaryCode JsonRpcError.invalidRequestCode ∧
    OrdinaryCode JsonRpcError.invalidParamsCode ∧ OrdinaryCode JsonRpcError.internalErrorCode :=
  ⟨⟨by decide, by decide⟩, ⟨by decide, by decide⟩, ⟨by decide, by decide⟩⟩

theorem ordinary_invalidRequest (message : String) :
    OrdinaryCode (JsonRpcError.invalidRequest message).code := ordinary_codes.1

theorem ordinary_invalidParams (message : String) :
    OrdinaryCode (JsonRpcError.invalidParams message).code := ordinary_codes.2.1

theorem ordinary_internalError (message : String) :
    OrdinaryCode (JsonRpcError.internalError message).code := ordinary_codes.2.2

/-- `require_initialized` fails with such a code. -/
theorem returns_requireInitialized (ctx : RequestCtx) :
    (requireInitialized ctx).Returns fun accepted =>
      ∀ err, accepted = .error err → OrdinaryCode err.code := by
  rw [requireInitialized]
  split
  · exact nofun
  · intro initialized
    cases initialized
    · intro err herr
      obtain rfl := Except.error.inj herr
      exact ordinary_invalidRequest _
    · exact nofun

/-- What an initialized client gets, or the error for another one. -/
theorem returns_guarded {ctx : RequestCtx} {α : Type} {R : α → Prop}
    {f : Except JsonRpcError Unit → Prog DispatchOp α}
    (herror : ∀ err, OrdinaryCode err.code → (f (.error err)).Returns R)
    (hok : (f (.ok ())).Returns R) : ((sessionDo (requireInitialized ctx)).bind f).Returns R := by
  refine ((returns_requireInitialized ctx).lift DispatchOp.session).bind
    fun accepted haccepted => ?_
  rcases accepted with err | _
  · exact herror err (haccepted err rfl)
  · exact hok

theorem returns_handleToolsList (ctx : RequestCtx) : (handleToolsList ctx).Returns Ordinary :=
  returns_guarded (fun _ => ordinary_error) (Prog.returns_bind fun _ => ordinary_ok _)

theorem returns_handleResourcesList (ctx : RequestCtx) :
    (handleResourcesList ctx).Returns Ordinary := by
  refine returns_guarded (fun _ => ordinary_error) ?_
  exact Prog.returns_bind fun ids => Prog.returns_bind fun listed _ => ordinary_ok _

theorem returns_readFrom (uri : String) (owner : Option String) :
    (readFrom uri owner).Returns Ordinary := by
  rcases owner with _ | owner
  · exact ordinary_error (ordinary_invalidParams _)
  · refine Prog.returns_bind fun answer => ?_
    rcases answer with err | v
    · exact ordinary_error (ordinary_internalError _)
    · exact ordinary_ok v

theorem returns_handleResourcesRead (params : Option Value) (ctx : RequestCtx) :
    (handleResourcesRead params ctx).Returns Ordinary := by
  refine returns_guarded (fun _ => ordinary_error) ?_
  dsimp only
  split
  · exact ordinary_error (ordinary_invalidParams _)
  · intro owner
    rcases owner with _ | owner
    · refine (returns_handleResourcesList ctx).bind fun listed hlisted => ?_
      rcases listed with err | _
      · exact ordinary_error (hlisted err rfl)
      · exact fun owner => returns_readFrom _ owner
    · exact returns_readFrom _ (some owner)

/-- A handler of the session that needs an initialized client. -/
theorem returns_sessionGuarded {ctx : RequestCtx} {α : Type} {R : α → Prop}
    {f : Except JsonRpcError Unit → Prog SessionOp α}
    (herror : ∀ err, OrdinaryCode err.code → (f (.error err)).Returns R)
    (hok : (f (.ok ())).Returns R) :
    (sessionDo ((requireInitialized ctx).bind f)).Returns R := by
  refine ((returns_requireInitialized ctx).bind fun accepted haccepted => ?_).lift _
  rcases accepted with err | _
  · exact herror err (haccepted err rfl)
  · exact hok

theorem returns_handleEventsList (ctx : RequestCtx) :
    (sessionDo (handleEventsList ctx)).Returns Ordinary := by
  refine returns_sessionGuarded (fun _ => ordinary_error) ?_
  exact Prog.returns_bind fun ids => Prog.returns_bind fun all => ordinary_ok _

theorem returns_forwardEventRequest (method : String) (params : Option Value) (ctx : RequestCtx) :
    (sessionDo (forwardEventRequest method params ctx)).Returns Ordinary := by
  refine returns_sessionGuarded (fun _ => ordinary_error) ?_
  rcases params with _ | params
  · exact ordinary_error (ordinary_invalidParams _)
  · dsimp only
    split
    · exact ordinary_error (ordinary_invalidParams _)
    · refine Prog.returns_bind fun ids => Prog.returns_bind fun owner => ?_
      rcases owner with _ | ⟨backend, original⟩
      · exact ordinary_error (ordinary_invalidParams _)
      · refine Prog.returns_bind fun answer => ?_
        rcases answer with err | v
        · exact ordinary_error (ordinary_internalError _)
        · exact ordinary_ok v

/-- The result of a handler is ordinary. -/
def OrdinaryHandled (handled : Handled) : Prop := Ordinary handled.result

theorem returns_simple {p : Prog DispatchOp (Except JsonRpcError Value)} (h : p.Returns Ordinary) :
    (simple p).Returns OrdinaryHandled :=
  h.bind fun _ hresult => hresult

theorem returns_callTool (prettyText : Value → String) (params : ToolCallParams)
    (ctx : RequestCtx) : (callTool prettyText params ctx).Returns OrdinaryHandled := by
  refine Prog.returns_bind fun backend => Prog.returns_bind fun _ => Prog.returns_bind fun asked =>
    Prog.returns_bind fun answer => ?_
  rcases answer with err | v
  · exact Prog.returns_bind fun hint => ordinary_ok _
  · exact ordinary_ok _

theorem ordinary_ofError {err : JsonRpcError} (h : OrdinaryCode err.code) :
    OrdinaryHandled (.ofError err) :=
  ordinary_error h

theorem returns_handleToolsCall (prettyText serdeText : Value → String) (params : Option Value)
    (ctx : RequestCtx) :
    (sessionDo (handleToolsCall prettyText serdeText params ctx)).Returns OrdinaryHandled := by
  refine returns_sessionGuarded (fun _ => ordinary_ofError) ?_
  rcases params with _ | v
  · exact ordinary_ofError (ordinary_invalidParams _)
  · dsimp only
    split
    · exact ordinary_ofError (ordinary_invalidParams _)
    · exact returns_callTool _ _ _

/-- The methods of a modern request. -/
def modernMethods : List String :=
  ["server/discover", "tools/list", "tools/call", "resources/list", "resources/read", "events/list",
    "events/subscribe", "events/unsubscribe"]

/-- The result of a modern request: only an unknown method has the code of one. -/
def ModernResult (method : String) (handled : Handled) : Prop :=
  if method ∈ modernMethods ∨ method = "subscriptions/listen" then OrdinaryHandled handled
  else ∃ err, handled.result = .error err ∧ err.code = JsonRpcError.methodNotFoundCode

/-- The handler of a modern request. -/
theorem returns_handlerOf {prettyText serdeText : Value → String} {method : String}
    {params : Option Value} {ctx : RequestCtx} (hmodern : ctx.isModern = true) :
    (handlerOf prettyText serdeText method params ctx).Returns (ModernResult method) := by
  -- a method that the modern era has, or one that it has not
  by_cases hknown : method ∈ modernMethods ∨ method = "subscriptions/listen"
  · have hresult : ModernResult method = OrdinaryHandled := by
      funext handled
      exact if_pos hknown
    rw [hresult, handlerOf, hmodern]
    -- the branches of the dispatcher in its order; `initialize` is legacy and does not occur
    split_ifs with h₁ h₂ h₃ h₄ h₅ h₆ h₇ h₈ h₉
    · exact returns_simple (Prog.returns_bind fun v => ordinary_ok v)
    · cases h₂.2
    · exact returns_simple (returns_handleToolsList ctx)
    · exact returns_handleToolsCall _ _ _ _
    · exact returns_simple (returns_handleResourcesList ctx)
    · exact returns_simple (returns_handleResourcesRead params ctx)
    · exact returns_simple (returns_handleEventsList ctx)
    · exact returns_simple (returns_forwardEventRequest method params ctx)
    · exact ordinary_error (ordinary_invalidRequest _)
    · simp only [modernMethods, List.mem_cons, List.not_mem_nil] at hknown
      grind
  · -- every other method is unknown
    have hresult : ∀ handled, ModernResult method handled ↔
        ∃ err, handled.result = .error err ∧ err.code = JsonRpcError.methodNotFoundCode :=
      fun handled => iff_of_eq (if_neg hknown)
    have hunknown : handlerOf prettyText serdeText method params ctx =
        .ret (.simple (.error (.methodNotFound s!"unknown method: {method}"))) := by
      simp only [modernMethods, List.mem_cons, List.not_mem_nil, or_false, not_or] at hknown
      simp [handlerOf, hmodern, hknown]
    rw [hunknown]
    exact (hresult _).mpr ⟨_, rfl, rfl⟩

/-- The result of a request that declares a version. -/
theorem returns_dispatchRequest {prettyText serdeText : Value → String} {method version : String}
    {params : Option Value} (hversion : requestProtocolVersion params = some version) :
    (dispatchRequest prettyText serdeText method params).Returns fun handled =>
      if version ∈ modernProtocolVersions then ModernResult method handled
      else ∃ err, handled.result = .error err ∧ err.code = unsupportedProtocolVersionCode := by
  have hctx : RequestCtx.fromParams params = ⟨some version⟩ := by
    rw [RequestCtx.fromParams, hversion]
  rw [dispatchRequest, hctx]
  -- a version that is supported, or the refusal
  by_cases hsupported : version ∈ modernProtocolVersions
  · simp only [RequestCtx.checkVersion, hsupported, if_true]
    refine (returns_handlerOf rfl).bind fun handled hhandled => ?_
    simp only [RequestCtx.isModern, Option.isSome_some, if_true, Prog.Returns]
    rw [ModernResult] at hhandled ⊢
    -- an ordinary result stays ordinary, an unknown method stays an error with its code
    split_ifs at hhandled ⊢
    · intro err herr
      rcases hresult : handled.result with err' | v
      · rw [Handled.modernized, hresult] at herr
        exact hhandled err (hresult.trans herr)
      · rw [Handled.modernized, hresult] at herr
        cases herr
    · obtain ⟨err, hresult, hcode⟩ := hhandled
      exact ⟨err, by rw [Handled.modernized, hresult]; rfl, hcode⟩
  · simp only [RequestCtx.checkVersion, hsupported, if_false]
    exact ⟨_, rfl, rfl⟩

/-- The response to a request is made of the result. -/
theorem returns_handleRequest {prettyText serdeText : Value → String} {id : JsonRpcId}
    {method : String} {params : Option Value} {R : Handled → Prop}
    (h : (dispatchRequest prettyText serdeText method params).Returns R) :
    (handleRequest prettyText serdeText id method params).Returns fun reply =>
      ∃ handled, R handled ∧ ((∃ v, handled.result = .ok v ∧ reply = .success id v) ∨
        ∃ err, handled.result = .error err ∧ reply = .error (some id) err) := by
  refine h.bind fun handled hhandled _ => ?_
  rcases hresult : handled.result with err | v
  · simp only
    exact ⟨handled, hhandled, .inr ⟨err, hresult, rfl⟩⟩
  · simp only
    exact ⟨handled, hhandled, .inl ⟨v, hresult, rfl⟩⟩

end Session

/-! ## The status -/

namespace HttpTransport

section Status

variable {serde : Serde} {prettyText serdeText : Value → String} {bearerToken : String}

/-- The status of the response to a message that the session handles. What its handler does can
change the result, and not the status. -/
def messageStatus : JsonRpcMessage → Nat
  | .request _ method params =>
    match requestProtocolVersion params with
    | none => 200
    | some version =>
      if version ∉ modernProtocolVersions then 400
      else if method ∈ Session.modernMethods ∨ method = "subscriptions/listen" then 200
      else 404
  | _ => 202

/-- The status of the response to a request, if the rate limiter answers so. -/
def expectedStatus (serde : Serde) (bearerToken : String) (request : Request) (allowed : Bool) :
    Nat :=
  if allowed = false then 429
  else if request.path ≠ "/mcp" then 404
  else if authorized bearerToken request = false then 401
  else if request.method ≠ "POST" then 405
  else
    match request.body with
    | .error rejection => rejection.status
    | .ok body =>
      match decodeMessage serde body with
      | .error _ => 200
      | .ok m => if (headerMismatch request m).isSome then 400 else messageStatus m

/-- The status of the response to a request, as its result says. -/
theorem modernStatus_reply {id : JsonRpcId} {handled : Handled} {reply : JsonRpcMessage}
    (h : (∃ v, handled.result = .ok v ∧ reply = .success id v) ∨
      ∃ err, handled.result = .error err ∧ reply = .error (some id) err) :
    (Session.OrdinaryHandled handled → modernStatus reply = 200) ∧
      ∀ err, handled.result = .error err → (err.code = unsupportedProtocolVersionCode →
        modernStatus reply = 400) ∧ (err.code = JsonRpcError.methodNotFoundCode →
        modernStatus reply = 404) := by
  -- a result has status 200, an error the one of its code
  rcases h with ⟨v, hresult, rfl⟩ | ⟨err, hresult, rfl⟩
  · refine ⟨fun _ => rfl, fun err herr => ?_⟩
    rw [hresult] at herr
    cases herr
  · refine ⟨fun hordinary => ?_, fun err' herr => ?_⟩
    · obtain ⟨hmethod, hversion⟩ := hordinary err hresult
      rw [modernStatus, if_neg hversion, if_neg hmethod]
    · obtain rfl := Except.error.inj (hresult.symm.trans herr)
      refine ⟨fun hcode => if_pos hcode, fun hcode => ?_⟩
      rw [modernStatus, if_neg (by rw [hcode]; decide), if_pos hcode]

/-- The status that the reply of the session is sent with is that of the message. -/
def RepliedWith (m : JsonRpcMessage) : Option SessionReply → Prop
  | some (.message reply) =>
    (if (modernOf m).isSome then modernStatus reply else 200) = messageStatus m
  | some (.stream _ _) => messageStatus m = 200
  | none => messageStatus m = 202

theorem returns_request (id : JsonRpcId) (method : String) (params : Option Value) :
    (Session.handleRequest prettyText serdeText id method params).Returns fun reply =>
      RepliedWith (.request id method params) (some (.message reply)) := by
  -- a legacy request has status 200 whatever comes of it
  rcases hversion : requestProtocolVersion params with _ | version
  · simp only [RepliedWith, modernOf, messageStatus, hversion]
    exact (Prog.returns_any _).mono fun _ _ => rfl
  · simp only [RepliedWith, modernOf, messageStatus, hversion]
    refine (Session.returns_handleRequest (Session.returns_dispatchRequest hversion)).mono
      fun reply h => ?_
    obtain ⟨handled, hresult, hreply⟩ := h
    obtain ⟨hordinary, herror⟩ := modernStatus_reply hreply
    simp only [Option.map_some, Option.isSome_some, if_true]
    -- a supported version: the status of the result; any other: 400
    by_cases hsupported : version ∈ modernProtocolVersions
    · rw [if_pos hsupported, Session.ModernResult] at hresult
      rw [if_neg (not_not.mpr hsupported)]
      split_ifs at hresult ⊢
      · exact hordinary hresult
      · obtain ⟨err, herr, hcode⟩ := hresult
        exact (herror err herr).2 hcode
    · rw [if_neg hsupported] at hresult
      rw [if_pos hsupported]
      obtain ⟨err, herr, hcode⟩ := hresult
      exact (herror err herr).1 hcode

/-- A request for a stream gets one, or an error of the kind that its version asks for. -/
theorem listen_status (id : JsonRpcId) (params : Option Value) :
    match Session.listen id params (.fromParams params) 0 with
    | .ok _ => messageStatus (.request id "subscriptions/listen" params) = 200
    | .error err => RepliedWith (.request id "subscriptions/listen" params)
        (some (.message (.error (some id) err))) := by
  have hctx : RequestCtx.fromParams params = ⟨requestProtocolVersion params⟩ := rfl
  rw [hctx]
  -- streams need a version, and a supported one
  rcases hversion : requestProtocolVersion params with _ | version
  · have hlisten : Session.listen id params ⟨none⟩ 0 = .error (.invalidRequest
        "subscriptions/listen requires protocol version 2026-07-28") := rfl
    simp only [hlisten, RepliedWith, modernOf, messageStatus, hversion, Option.map_none]
    rfl
  · by_cases hsupported : version ∈ modernProtocolVersions
    · have hlisten : ∃ st, Session.listen id params ⟨some version⟩ 0 = .ok st := by
        simp only [Session.listen, RequestCtx.checkVersion, hsupported, if_true]
        exact ⟨_, rfl⟩
      obtain ⟨st, hlisten⟩ := hlisten
      simp only [hlisten, messageStatus, hversion, hsupported, not_true, if_false, or_true, if_true]
    · have hlisten : ∃ err, Session.listen id params ⟨some version⟩ 0 = .error err ∧
          err.code = unsupportedProtocolVersionCode := by
        simp only [Session.listen, RequestCtx.checkVersion, hsupported, if_false]
        exact ⟨_, rfl, rfl⟩
      obtain ⟨err, hlisten, hcode⟩ := hlisten
      simp only [hlisten, RepliedWith, modernOf, messageStatus, modernStatus, hversion, hsupported,
        hcode, not_false_eq_true, Option.map_some, Option.isSome_some, if_true]

theorem returns_listen (id : JsonRpcId) (params : Option Value) :
    (Session.handleStreaming prettyText serdeText
      (.request id "subscriptions/listen" params)).Returns
      (RepliedWith (.request id "subscriptions/listen" params)) := by
  have hstatus := listen_status id params
  rw [Session.handleStreaming, if_pos rfl]
  rcases hlisten : Session.listen id params (.fromParams params) 0 with err | st
  · rw [hlisten] at hstatus
    exact hstatus
  · rw [hlisten] at hstatus
    exact fun number => hstatus

/-- **What the session replies to a message with is sent with its status.** -/
theorem returns_handleStreaming (m : JsonRpcMessage) :
    (Session.handleStreaming prettyText serdeText m).Returns (RepliedWith m) := by
  cases m with
  | request id method params =>
    by_cases hmethod : method = "subscriptions/listen"
    · subst hmethod
      exact returns_listen id params
    · rw [Session.handleStreaming, if_neg hmethod]
      exact (returns_request id method params).bind fun _ h => h
  | _ => rfl

end Status

/-! ## Checks -/

section Runs

variable (serde : Serde) (prettyText serdeText : Value → String) (bearerToken : String)

/-- The operation is one of the session. -/
def InSession {β : Type} : HttpServerOp β → Prop
  | .dispatch _ => True
  | .checkRate _ => False

/-- The request passes all checks but the rate limit. These are checks on the request alone. -/
def Admitted (request : Request) : Prop :=
  request.path = "/mcp" ∧ authorized bearerToken request = true ∧ request.method = "POST" ∧
    ∃ body m, request.body = .ok body ∧ decodeMessage serde body = .ok m ∧
      headerMismatch request m = none

/-- The ledger of a request, with the answer of the rate limiter: the limiter is asked once, for
the address of the request, and the session does something only for an admitted request that is
within the limit. -/
def admission : Ledger HttpServerOp (Request × Option Bool) where
  next
    | .checkRate ip, allowed, t => (t.1, if ip = t.1.ip then some allowed else t.2)
    | .dispatch _, _, t => t
  inOrder
    | .checkRate ip, t => ip = t.1.ip ∧ t.2 = none
    | .dispatch _, t => t.2 = some true ∧ Admitted serde bearerToken t.1

/-- The response has the status that is expected. -/
def Expected (response : Response) (t : Request × Option Bool) : Prop :=
  ∃ allowed, t.2 = some allowed ∧
    response.status = expectedStatus serde bearerToken t.1 allowed

variable {serde prettyText serdeText bearerToken}

/-- What the session does for an admitted request. -/
theorem keeps_handleMessage {request : Request} {m : JsonRpcMessage}
    (hadmitted : Admitted serde bearerToken request)
    (hstatus : expectedStatus serde bearerToken request true = messageStatus m) :
    (handleMessage prettyText serdeText m).Keeps (admission serde bearerToken)
      (Expected serde bearerToken) (request, some true) := by
  have hop {δ : Type} (o : DispatchOp δ) : InSession (HttpServerOp.dispatch o) := trivial
  have huses : ((Session.handleStreaming prettyText serdeText m).lift HttpServerOp.dispatch).Uses
      InSession := Prog.uses_lift hop _
  have horder : ∀ {δ : Type} (o : HttpServerOp δ) (t : Request × Option Bool), InSession o →
      t = (request, some true) → (admission serde bearerToken).inOrder o t ∧
        ∀ b, (admission serde bearerToken).next o b t = (request, some true) := by
    rintro δ o t ho rfl
    cases o with
    | dispatch o => exact ⟨⟨rfl, hadmitted⟩, fun _ => rfl⟩
    | checkRate ip => exact ho.elim
  refine Prog.Keeps.bind ((Prog.Keeps.of_returns horder huses
    ((returns_handleStreaming m).lift _) rfl).mono fun reply t h => ?_)
  obtain ⟨hreply, rfl⟩ := h
  -- an accepted notification, a reply, or a stream
  rcases reply with _ | ⟨reply⟩ | ⟨id, number⟩
  · exact ⟨true, rfl, (hstatus.trans hreply).symm⟩
  · exact ⟨true, rfl, hreply.trans hstatus.symm⟩
  · exact ⟨true, rfl, (hstatus.trans hreply).symm⟩

/-- **A request does what its checks allow, and is answered with the status that is expected.** -/
theorem keeps_serve (request : Request) :
    (serve serde prettyText serdeText bearerToken request).Keeps (admission serde bearerToken)
      (Expected serde bearerToken) (request, none) := by
  refine ⟨⟨rfl, rfl⟩, fun allowed => ?_⟩
  have hnext : (admission serde bearerToken).next (.checkRate request.ip) allowed (request, none) =
      (request, some allowed) := by
    simp only [admission, if_true]
  rw [hnext]
  -- the rate limit comes first
  cases allowed
  · exact ⟨false, rfl, rfl⟩
  have hexpected : ∀ response : Response, response.status =
      expectedStatus serde bearerToken request true →
        Expected serde bearerToken response (request, some true) :=
    fun response h => ⟨true, rfl, h⟩
  simp only [Prog.ret_bind, if_true]
  -- then the path, the token, the method, the body, the message and its headers
  by_cases hpath : request.path = "/mcp"
  swap
  · rw [if_neg hpath]
    exact hexpected _ (by simp [expectedStatus, hpath])
  rw [if_pos hpath, requireBearerToken]
  by_cases hauthorized : authorized bearerToken request = true
  swap
  · rw [if_neg hauthorized]
    exact hexpected _ (by simp [expectedStatus, hpath, hauthorized])
  rw [if_pos hauthorized]
  by_cases hmethod : request.method = "POST"
  · rw [if_pos hmethod, handleMcp]
    rcases hbody : request.body with rejection | body
    · exact hexpected _ (by simp [expectedStatus, hpath, hauthorized, hmethod, hbody])
    -- a body that is no message is answered without the session
    rcases hdecoded : decodeMessage serde body with err | m
    · simp only [hdecoded]
      exact hexpected _ (by simp [expectedStatus, hpath, hauthorized, hmethod, hbody, hdecoded])
    rcases hmismatch : headerMismatch request m with _ | ⟨id, err⟩
    · simp only [hdecoded, hmismatch]
      refine keeps_handleMessage
        ⟨hpath, hauthorized, hmethod, body, m, hbody, hdecoded, hmismatch⟩ ?_
      simp [expectedStatus, hpath, hauthorized, hmethod, hbody, hdecoded, hmismatch]
    · simp only [hdecoded, hmismatch]
      exact hexpected _
        (by simp [expectedStatus, hpath, hauthorized, hmethod, hbody, hdecoded, hmismatch])
  · rw [if_neg hmethod]
    exact hexpected _ (by simp [expectedStatus, hpath, hauthorized, hmethod])

variable {ι : Type} [DecidableEq ι] {i : ι} {request : Request}

/-- What the ledger says is the answer that the limiter has given. -/
theorem after_admission (l : List (Performed HttpServerOp ι)) :
    ((admission serde bearerToken).after (request, none) i l).1 = request ∧
      ∀ allowed, ((admission serde bearerToken).after (request, none) i l).2 = some allowed →
        (⟨i, .checkRate request.ip, allowed⟩ : Performed HttpServerOp ι) ∈ l := by
  induction l with
  | nil => exact ⟨rfl, nofun⟩
  | cons p l ih =>
    obtain ⟨hrequest, hanswer⟩ := ih
    rw [Ledger.after]
    -- the operation is the request's own; only the limiter's answer is noted
    split_ifs with hp
    · obtain ⟨caller, o, answer⟩ := p
      obtain rfl : caller = i := hp
      cases o with
      | dispatch o => exact ⟨hrequest, fun allowed h => List.mem_cons_of_mem _ (hanswer allowed h)⟩
      | checkRate ip =>
        refine ⟨hrequest, fun allowed h => ?_⟩
        simp only [admission] at h hrequest
        rw [hrequest] at h
        split_ifs at h with hip
        · obtain rfl := Option.some.inj h
          rw [hip]
          exact List.mem_cons_self
        · exact List.mem_cons_of_mem _ (hanswer allowed h)
    · exact ⟨hrequest, fun allowed h => List.mem_cons_of_mem _ (hanswer allowed h)⟩

variable {requests : ι → Request} {s : DispatchWorld ι} {ls : List (ι × HttpServerChoice)}
  {c : Pool HttpServerOp ι (Recorded HttpServerOp ι (DispatchWorld ι)) Response}

/-- Every request of a run keeps to its ledger. -/
theorem play_admission (hplay : (httpServerMachine ι).recorded.play ls
    ⟨⟨s, []⟩, fun i => serve serde prettyText serdeText bearerToken (requests i)⟩ = some c) :
    (∀ i, (c.task i).Keeps (admission serde bearerToken) (Expected serde bearerToken)
      ((admission serde bearerToken).after (requests i, none) i c.shared.log)) ∧
    ∀ newer p older, c.shared.log = newer ++ p :: older →
      (admission serde bearerToken).inOrder p.op
        ((admission serde bearerToken).after (requests p.caller, none) p.caller older) :=
  Ledger.play_inOrder rfl (fun i => keeps_serve (requests i)) hplay

/-- **Only admitted requests do anything in the session**, next to any other requests and in every
order of steps: the request has the token, is a message with a version header that agrees with it,
and its address was within the rate limit. The operations of the session are counted wherever they
stand in the handler, so nothing is read and nothing changed for a request that was refused. -/
theorem session_admitted (hplay : (httpServerMachine ι).recorded.play ls
      ⟨⟨s, []⟩, fun i => serve serde prettyText serdeText bearerToken (requests i)⟩ = some c)
    {newer older : List (Performed HttpServerOp ι)} {p : Performed HttpServerOp ι}
    (hlog : c.shared.log = newer ++ p :: older) (hp : InSession p.op) :
    Admitted serde bearerToken (requests p.caller) ∧
      (⟨p.caller, .checkRate (requests p.caller).ip, true⟩ : Performed HttpServerOp ι) ∈ older := by
  have horder := (play_admission hplay).2 newer p older hlog
  have hafter : ((admission serde bearerToken).after (requests p.caller, none) p.caller older).1 =
      requests p.caller ∧ _ := after_admission older
  obtain ⟨caller, o, answer⟩ := p
  cases o with
  | dispatch o =>
    obtain ⟨hallowed, hadmitted⟩ := horder
    rw [hafter.1] at hadmitted
    exact ⟨hadmitted, hafter.2 true hallowed⟩
  | checkRate ip => exact hp.elim

/-- **The status of a response is a function of the request and of the rate limiter's answer**:
neither the session nor its backends nor other requests show in it. The status can be read off the
checks in the order in which the router makes them, and the first that fails decides. -/
theorem status_expected (hplay : (httpServerMachine ι).recorded.play ls
      ⟨⟨s, []⟩, fun i => serve serde prettyText serdeText bearerToken (requests i)⟩ = some c)
    {response : Response} (hend : c.task i = .ret response) :
    ∃ allowed, (⟨i, .checkRate (requests i).ip, allowed⟩ : Performed HttpServerOp ι) ∈
      c.shared.log ∧ response.status = expectedStatus serde bearerToken (requests i) allowed := by
  have hkeeps := (play_admission hplay).1 i
  rw [hend] at hkeeps
  obtain ⟨allowed, hallowed, hstatus⟩ := hkeeps
  have hafter : ((admission serde bearerToken).after (requests i, none) i c.shared.log).1 =
      requests i ∧ _ := after_admission c.shared.log
  rw [hafter.1] at hstatus
  exact ⟨allowed, hafter.2 allowed hallowed, hstatus⟩

/-- A modern request for the tools. -/
def toolsListMessage : Value :=
  .object [("jsonrpc", .string "2.0"), ("id", .number (.int 1)), ("method", .string "tools/list"),
    ("params", .object [("_meta", .object [(metaProtocolVersion, .string "2026-07-28")])])]

/-- A client with the token `t`. -/
def toolsListRequest : Request where
  ip := "127.0.0.1"
  path := "/mcp"
  method := "POST"
  authorization := some [66, 101, 97, 114, 101, 114, 32, 116]
  protocolVersion := some [50, 48, 50, 54, 45, 48, 55, 45, 50, 56]
  body := .ok "tools"

/-- A reader that knows this body. -/
def toolsListSerde : Serde := ⟨fun _ => .ok toolsListMessage, fun _ => ""⟩

/-- The pool of one client that asks for the tools of an empty hub. -/
def toolsListPool :
    Pool HttpServerOp Unit (Recorded HttpServerOp Unit (DispatchWorld Unit)) Response :=
  ⟨⟨⟨⟨⟨[], [], []⟩, false, 0⟩, [], [], []⟩, []⟩,
    fun _ => serve toolsListSerde (fun _ => "") (fun _ => "") "t" toolsListRequest⟩

/-- The session lists the tools for a client that was let through. -/
theorem session_admitted_toolsList : ∃ ls c newer older, ∃ p : Performed HttpServerOp Unit,
    (httpServerMachine Unit).recorded.play ls toolsListPool = some c ∧
      c.shared.log = newer ++ p :: older ∧ InSession p.op ∧
      Admitted toolsListSerde "t" toolsListRequest ∧
      (⟨p.caller, .checkRate toolsListRequest.ip, true⟩ : Performed HttpServerOp Unit) ∈ older := by
  obtain ⟨c, newer, p, older, hplay, hlog, hp⟩ : ∃ c, ∃ newer, ∃ p : Performed HttpServerOp Unit,
      ∃ older, (httpServerMachine Unit).recorded.play [((), {}), ((), {})] toolsListPool = some c ∧
        c.shared.log = newer ++ p :: older ∧ InSession p.op :=
    ⟨_, [], _, _, rfl, rfl, trivial⟩
  exact ⟨_, c, newer, older, p, hplay, hlog, hp, session_admitted hplay hlog hp⟩

/-- And answers with 200. -/
theorem status_expected_toolsList : ∃ ls c response,
    (httpServerMachine Unit).recorded.play ls toolsListPool = some c ∧
      c.task () = .ret response ∧ response.status = 200 ∧
      ∃ allowed, (⟨(), .checkRate toolsListRequest.ip, allowed⟩ : Performed HttpServerOp Unit) ∈
        c.shared.log ∧
        response.status = expectedStatus toolsListSerde "t" toolsListRequest allowed := by
  obtain ⟨c, response, hplay, hend, hstatus⟩ : ∃ c response,
      (httpServerMachine Unit).recorded.play [((), {}), ((), {}), ((), {})] toolsListPool = some c ∧
        c.task () = .ret response ∧ response.status = 200 := ⟨_, _, rfl, rfl, rfl⟩
  exact ⟨_, c, response, hplay, hend, hstatus, status_expected hplay hend⟩

end Runs

end HttpTransport

end HeadlessMcp
