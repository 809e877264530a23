import HeadlessMcp.Http.Backend

/-!
# What a request does

One attempt to send a request goes through a few operations only: it reads the session id
and the client, posts, captures what the replies carry and asks the token manager. The
re-initialisation lock, the epoch and the connection are none of its business. `Traffic`
names these operations together with a condition on what is posted.

So what is shown of these operations holds of every attempt, whichever message it sends, and the
walks through the methods of the backend need not go through an attempt again.
-/

namespace HeadlessMcp

open Async

/-- An `initialize` request. -/
def JsonRpcMessage.isInitialize : JsonRpcMessage → Bool
  | .request _ method _ => method = "initialize"
  | _ => false

/-- The request that an operation sends. -/
def HttpOp.posted {β : Type} : HttpOp β → Option HttpRequest
  | .post request => some request
  | _ => none

/-- The operations once the session id is read; what is posted meets a condition. -/
def HttpOp.Exchange (P : HttpRequest → Prop) {β : Type} : HttpOp β → Prop
  | .oauth _ | .loadClient | .storeClient _ => True
  | .storeSession sid => headerTextOk sid = true
  | .post request => P request
  | _ => False

/-- The operations of one attempt. -/
def HttpOp.Traffic (P : HttpRequest → Prop) {β : Type} : HttpOp β → Prop
  | .loadSession | .loadParamHeaders => True
  | o => o.Exchange P

/-- An attempt with the numbering of its request. -/
def HttpOp.Attempt (P : HttpRequest → Prop) {β : Type} : HttpOp β → Prop
  | .nextId => True
  | o => o.Traffic P

theorem HttpOp.Exchange.traffic {P : HttpRequest → Prop} {β : Type} {o : HttpOp β}
    (ho : o.Exchange P) : o.Traffic P := by
  cases o <;> first | exact ho | trivial

theorem HttpOp.Traffic.attempt {P : HttpRequest → Prop} {β : Type} {o : HttpOp β}
    (ho : o.Traffic P) : o.Attempt P := by
  cases o <;> first | exact ho | trivial

namespace HttpBackend

variable {P : HttpRequest → Prop} {b : HttpBackend} {message : JsonRpcMessage}
  {extraHeaders : Entries String} {sessionId : Option String} {method : String}
  {params : Option Value} {retry : Bool}

theorem uses_captureSession (headers : Entries String) :
    (captureSession headers).Uses (HttpOp.Exchange P) := by
  unfold captureSession
  split
  · rename_i sid hsid
    exact ⟨(Option.filter_eq_some_iff.mp hsid).2, fun _ => trivial⟩
  · trivial

theorem uses_discoverOn (status : Nat) (headers : Entries String) :
    (b.discoverOn status headers).Uses (HttpOp.Exchange P) := by
  unfold discoverOn
  split
  · split
    · exact (Prog.uses_lift (fun _ => trivial) _).bind fun _ => trivial
    · trivial
  · trivial

theorem uses_postJson (hP : ∀ bearer, P ⟨message, bearer, extraHeaders, sessionId⟩) :
    (b.postJson message extraHeaders sessionId).Uses (HttpOp.Exchange P) := by
  refine ⟨trivial, fun bearer => ⟨hP bearer, fun reply => ?_⟩⟩
  rcases reply with ⟨timeout, e⟩ | ⟨status, headers, body⟩
  · trivial
  · refine (uses_discoverOn status headers).bind fun _ => ?_
    rcases body with e | body <;> trivial

theorem uses_retryWith {token : String}
    (hP : ∀ bearer, P ⟨message, bearer, extraHeaders, sessionId⟩) :
    (b.retryWith message extraHeaders sessionId token).Uses (HttpOp.Exchange P) := by
  refine ⟨trivial, fun _ => (uses_postJson hP).bind fun reply => ?_⟩
  rcases reply with e | ⟨body, status, headers⟩
  · trivial
  · refine (uses_captureSession headers).bind fun _ => ?_
    split
    · split <;> trivial
    · trivial

theorem traffic_annotations : (annotations method params).Uses (HttpOp.Traffic P) := by
  unfold annotations
  split
  · exact ⟨trivial, fun _ => trivial⟩
  · trivial

theorem traffic_extraHeaders : (HttpBackend.extraHeaders method params).Uses (HttpOp.Traffic P) := by
  refine traffic_annotations.bind fun known => ?_
  split <;> trivial

theorem uses_exchange (hP : ∀ bearer, P ⟨message, bearer, extraHeaders, sessionId⟩) :
    (b.exchange message extraHeaders sessionId retry).Uses (HttpOp.Exchange P) := by
  refine (uses_postJson hP).bind fun reply => ?_
  rcases reply with e | ⟨body, status, headers⟩
  · trivial
  refine (uses_captureSession headers).bind fun _ => ?_
  split
  · trivial
  · split
    · refine (Prog.uses_lift (fun _ => trivial) _).bind fun result => ?_
      rcases result with e | token
      · trivial
      · exact uses_retryWith hP
    · trivial

/-- A request is numbered first; what follows is traffic. -/
theorem traffic_numbered (method : String) (params : Option Value) (retry : Bool)
    (hP : ∀ id bearer headers sessionId, P ⟨.request id method params, bearer, headers, sessionId⟩) :
    ∃ rest, b.sendRequestInner method params retry = .op .nextId rest ∧
      ∀ id, (rest id).Uses (HttpOp.Traffic P) := by
  refine ⟨_, rfl, fun id => ?_⟩
  refine traffic_extraHeaders.bind fun headers => ⟨trivial, fun sessionId => ?_⟩
  exact (uses_exchange fun bearer => hP _ bearer _ sessionId).mono fun _ => HttpOp.Exchange.traffic

theorem traffic_sendRequestInner
    (hP : ∀ id bearer headers sessionId, P ⟨.request id method params, bearer, headers, sessionId⟩) :
    (b.sendRequestInner method params retry).Uses (HttpOp.Attempt P) := by
  obtain ⟨rest, heq, hrest⟩ := traffic_numbered (b := b) method params retry hP
  rw [heq]
  exact ⟨trivial, fun id => (hrest id).mono fun _ => HttpOp.Traffic.attempt⟩

theorem traffic_sendNotification
    (hP : ∀ bearer sessionId, P ⟨.notification method params, bearer, [], sessionId⟩) :
    (b.sendNotification method params).Uses (HttpOp.Traffic P) := by
  simp only [sendNotification, Prog.bind_eq, Prog.perform_bind]
  refine ⟨trivial, fun bearer => ⟨trivial, fun sessionId => ⟨hP bearer _, fun reply => ?_⟩⟩⟩
  rcases reply with ⟨timeout, e⟩ | ⟨status, headers, body⟩
  · trivial
  · dsimp only
    split <;> trivial

/-- A handshake is one attempt and a notification. -/
theorem traffic_handshake
    (hrequest : ∀ id bearer headers sessionId,
      P ⟨.request id "initialize" (some initializeParams), bearer, headers, sessionId⟩)
    (hnotification : ∀ bearer sessionId,
      P ⟨.notification "notifications/initialized" none, bearer, [], sessionId⟩) :
    b.handshake.Uses (HttpOp.Attempt P) := by
  refine (traffic_sendRequestInner hrequest).bind fun reply => ?_
  rcases reply with failure | result
  · trivial
  · dsimp only
    split
    · trivial
    · refine ((traffic_sendNotification hnotification).mono fun _ => HttpOp.Traffic.attempt).bind ?_
      exact fun _ => trivial

end HttpBackend

end HeadlessMcp
