import HeadlessMcp.Session.Session

/-!
# Listening for changes

`subscriptions/listen` opens a stream for the changes of a session. The session sends its changes
through a broadcast channel of bounded capacity, and the task of each stream queues a message for
every change that it receives.

The changes are numbered as they are sent, so a stream is known by the number of the change that
it receives next. One that falls behind by more than the channel holds goes on with the oldest
change that is still there.
-/

namespace HeadlessMcp

/-- `META_SUBSCRIPTION_ID`. -/
def metaSubscriptionId : String := "io.modelcontextprotocol/subscriptionId"

/-- `MODERN_PROTOCOL_VERSIONS`. -/
def modernProtocolVersions : List String := ["2026-07-28"]

/-- `UNSUPPORTED_PROTOCOL_VERSION`. -/
def unsupportedProtocolVersionCode : Int := -32022

/-- `check_version`. -/
def RequestCtx.checkVersion (ctx : RequestCtx) : Except JsonRpcError Unit :=
  match ctx.modern with
  | some v =>
    if v ∈ modernProtocolVersions then .ok ()
    else .error ⟨unsupportedProtocolVersionCode, "Unsupported protocol version",
      some (.object [("supported", .array (modernProtocolVersions.map .string)),
        ("requested", .string v)])⟩
  | none => .ok ()

/-- `notification`: a message of a stream. The id of the subscription is in its metadata, so that
a client tells its streams apart. -/
def streamNotification (method : String) (subId : Value) (params : Map) : JsonRpcMessage :=
  .notification method (some (.object
    (Entries.insert "_meta" (.object [(metaSubscriptionId, subId)]) params)))

/-- An open `subscriptions/listen` stream. The changes of a session are numbered as they are
sent. -/
structure ListenStream : Type where
  /-- it asked for `toolsListChanged` -/
  tools : Bool
  subId : Value
  /-- the change that its task receives next -/
  next : Nat
  /-- what its task has queued, newest first -/
  queued : List JsonRpcMessage

/-- The message for a change. -/
def listChangedMessage (subId : Value) : JsonRpcMessage :=
  streamNotification "notifications/tools/list_changed" subId []

/-- `listen`, in a session that has sent so many changes: the stream starts with an
acknowledgement of what will be sent. -/
def Session.listen (id : JsonRpcId) (params : Option Value) (ctx : RequestCtx) (sent : Nat) :
    Except JsonRpcError ListenStream := do
  ctx.checkVersion
  if ¬ ctx.isModern then
    .error (.invalidRequest "subscriptions/listen requires protocol version 2026-07-28")
  else
    let wanted := (params.bind (·.get "notifications")).getD .null
    let tools := match wanted.get "toolsListChanged" with
      | some (.bool b) => b
      | _ => false
    let agreed : Map := if tools then [("toolsListChanged", .bool true)] else []
    .ok ⟨tools, id.toValue, sent, [streamNotification "notifications/subscriptions/acknowledged"
      id.toValue [("notifications", .object agreed)]]⟩

/-- How many changes the channel holds. A stream that is slower than this goes on with the oldest
change that the channel still has. -/
def changeCapacity : Nat := 64

/-- One turn of the stream's task, when so many changes have been sent: a task that lags behind
goes on with the oldest change that the channel holds, and one that has received all waits. -/
def ListenStream.turn (sent : Nat) (st : ListenStream) : Option ListenStream :=
  if st.next = sent then none
  else if changeCapacity < sent - st.next then some { st with next := sent - changeCapacity }
  else some { st with
    next := st.next + 1
    queued := if st.tools then listChangedMessage st.subId :: st.queued else st.queued }

/-- A new stream starts after the changes that have been sent. -/
theorem listen_eq {requestId : JsonRpcId} {params : Option Value} {ctx : RequestCtx} {sent : Nat}
    {st : ListenStream} (h : Session.listen requestId params ctx sent = .ok st) :
    st.next = sent ∧ st.subId = requestId.toValue := by
  rw [Session.listen] at h
  rcases hversion : ctx.checkVersion with err | _
  · rw [hversion] at h
    cases h
  rw [hversion] at h
  by_cases hmodern : ctx.isModern = true
  · simp only [hmodern, not_true, if_false] at h
    obtain rfl := Except.ok.inj h
    exact ⟨rfl, rfl⟩
  · simp only [hmodern] at h
    cases h

/-- `check_version` accepts the versions that are supported, and requests that declare none. -/
theorem checkVersion_eq_ok {ctx : RequestCtx} :
    ctx.checkVersion = .ok () ↔ ∀ v ∈ ctx.modern, v ∈ modernProtocolVersions := by
  rw [RequestCtx.checkVersion]
  rcases ctx.modern with _ | v
  · exact iff_of_true rfl nofun
  · dsimp only
    by_cases hv : v ∈ modernProtocolVersions
    · rw [if_pos hv]
      exact iff_of_true rfl fun w hw => Option.some.inj hw ▸ hv
    · rw [if_neg hv]
      exact iff_of_false nofun fun h => hv (h v rfl)

/-- A stream is opened for a request that declares a supported version. -/
theorem listen_supported {requestId : JsonRpcId} {params : Option Value} {ctx : RequestCtx}
    {sent : Nat} {st : ListenStream} (h : Session.listen requestId params ctx sent = .ok st) :
    ∃ v ∈ modernProtocolVersions, ctx.modern = some v := by
  rw [Session.listen] at h
  rcases hversion : ctx.checkVersion with err | _
  · rw [hversion] at h
    cases h
  rcases hmodern : ctx.modern with _ | v
  · simp only [hversion, RequestCtx.isModern, hmodern] at h
    cases h
  · exact ⟨v, checkVersion_eq_ok.mp hversion v hmodern, rfl⟩

end HeadlessMcp
