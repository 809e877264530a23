import HeadlessMcp.Http.Traffic
import HeadlessMcp.Hub.Policy

/-!
# What goes over the wire

A backend posts, or writes to its child, requests of its own (`initialize`, `tools/list`) and those
that a method of the backend contract forwards. So a `tools/call` that a hub is about to send is one
that its session has a backend forward, and what the session makes sure of holds on the wire, with
the backends in place (`sent_calls_are_warranted`).

This is the last link of a chain: a client asks for a call, its session routes it, the registry
finds it permitted, and the backend sends it. Every link is a theorem about the layer it belongs
to.
-/

namespace HeadlessMcp

open Async

/-! ## Senders -/

/-- A message that a backend sends by itself, or the request that it forwards. -/
def OnBehalfOf (forwards : Option (String × Option Value)) : JsonRpcMessage → Prop
  | .request _ method params =>
    method = "initialize" ∨ method = "tools/list" ∨ forwards = some (method, params)
  | .notification _ _ => True
  | _ => False

/-- A `tools/call` is forwarded. -/
theorem OnBehalfOf.forwards {forwards : Option (String × Option Value)} {requestId : JsonRpcId}
    {params : Option Value} (h : OnBehalfOf forwards (.request requestId "tools/call" params)) :
    forwards = some ("tools/call", params) := by
  rcases h with h | h | h
  · exact absurd h (by decide)
  · exact absurd h (by decide)
  · exact h

/-- What is posted meets a condition. -/
def HttpOp.Posts (P : JsonRpcMessage → Prop) {β : Type} (o : HttpOp β) : Prop :=
  ∀ request ∈ o.posted, P request.message

/-- The message that an operation writes to a child. -/
def StdioOp.written {β : Type} : StdioOp β → Option JsonRpcMessage
  | .writeAll _ message => some message
  | _ => none

/-- What is written meets a condition. -/
def StdioOp.Writes (P : JsonRpcMessage → Prop) {β : Type} (o : StdioOp β) : Prop :=
  ∀ message ∈ o.written, P message

section Senders

variable {P : JsonRpcMessage → Prop} {β : Type}

theorem HttpOp.posts_of_none {o : HttpOp β} (h : o.posted = none) : o.Posts P := by
  intro request hrequest
  rw [h] at hrequest
  cases hrequest

theorem HttpOp.Attempt.posts {o : HttpOp β}
    (ho : o.Attempt fun request => P request.message) : o.Posts P := by
  intro request hrequest
  cases o <;> cases hrequest
  exact ho

theorem StdioOp.writes_of_none {o : StdioOp β} (h : o.written = none) : o.Writes P := by
  intro message hmessage
  rw [h] at hmessage
  cases hmessage

end Senders

/-! ## HTTP -/

namespace HttpBackend

variable {b : HttpBackend} {forwards : Option (String × Option Value)} {method : String}
  {params : Option Value} {retry : Bool}

/-- The handshake is the backend's own. -/
theorem posts_handshake : b.handshake.Uses (HttpOp.Posts (OnBehalfOf forwards)) :=
  (traffic_handshake (P := fun request => OnBehalfOf forwards request.message)
    (fun _ _ _ _ => .inl rfl) fun _ _ => trivial).mono fun _ => HttpOp.Attempt.posts

theorem posts_reinitialize {seenEpoch : Nat} :
    (b.reinitialize seenEpoch).Uses (HttpOp.Posts (OnBehalfOf forwards)) := by
  refine ⟨HttpOp.posts_of_none rfl, fun _ => Prog.Uses.andFinally
    ⟨HttpOp.posts_of_none rfl, fun epoch => ?_⟩ (HttpOp.posts_of_none rfl)⟩
  simp only [Prog.ret_bind]
  split
  · trivial
  refine ⟨HttpOp.posts_of_none rfl, fun stale => posts_handshake.bind fun outcome =>
    ⟨HttpOp.posts_of_none rfl, fun _ => ?_⟩⟩
  rcases outcome with e | init
  · exact ⟨HttpOp.posts_of_none rfl, fun _ => trivial⟩
  · exact ⟨HttpOp.posts_of_none rfl, fun _ => ⟨HttpOp.posts_of_none rfl, fun _ => trivial⟩⟩

/-- A request is posted as it is, whatever has to be redone for it. -/
theorem posts_sendRequest (h : ∀ requestId,
    OnBehalfOf forwards (.request requestId method params)) :
    (b.sendRequest method params retry).Uses (HttpOp.Posts (OnBehalfOf forwards)) := by
  have hinner : (b.sendRequestInner method params retry).Uses
      (HttpOp.Posts (OnBehalfOf forwards)) :=
    (traffic_sendRequestInner (P := fun request => OnBehalfOf forwards request.message)
      fun requestId _ _ _ => h requestId).mono fun _ => HttpOp.Attempt.posts
  refine ⟨HttpOp.posts_of_none rfl, fun epoch => hinner.bind fun result => ?_⟩
  rcases result with failure | v
  · dsimp only
    split
    · trivial
    · refine posts_reinitialize.bind fun outcome => ?_
      rcases outcome with e | ⟨⟩
      · trivial
      · exact hinner.bind fun _ => trivial
  · trivial

/-- What is done once the backend is known to be connected. -/
theorem posts_checked {β : Type} {f : BackendResult Unit → Prog HttpOp β}
    (hrefused : ∀ e, (f (.error e)).Uses (HttpOp.Posts (OnBehalfOf forwards)))
    (hconnected : (f (.ok ())).Uses (HttpOp.Posts (OnBehalfOf forwards))) :
    (b.checkConnected.bind f).Uses (HttpOp.Posts (OnBehalfOf forwards)) := by
  refine ⟨HttpOp.posts_of_none rfl, fun connected => ?_⟩
  cases connected
  · exact hrefused _
  · exact hconnected

theorem posts_adoptToken : b.adoptToken.Uses (HttpOp.Posts (OnBehalfOf forwards)) := by
  rw [adoptToken]
  split
  · trivial
  · refine (Prog.uses_lift (fun _ => HttpOp.posts_of_none rfl) _).bind fun token => ?_
    rcases token with _ | token
    · trivial
    · exact ⟨HttpOp.posts_of_none rfl, fun _ => trivial⟩

theorem posts_connect : b.connect.Uses (HttpOp.Posts (OnBehalfOf forwards)) := by
  refine ⟨HttpOp.posts_of_none rfl, fun fresh => ?_⟩
  cases fresh
  · refine ⟨HttpOp.posts_of_none rfl, fun init => ?_⟩
    rcases init with _ | init <;> trivial
  · refine posts_adoptToken.bind fun _ => posts_handshake.bind fun outcome => ?_
    rcases outcome with e | init
    · trivial
    · exact ⟨HttpOp.posts_of_none rfl, fun _ => ⟨HttpOp.posts_of_none rfl, fun _ => trivial⟩⟩

/-- **A method posts what it forwards, and what is the backend's own.** -/
theorem posts_run {β : Type} (m : McpOp β) :
    (b.run m).Uses (HttpOp.Posts (OnBehalfOf m.forwards)) := by
  have hlisting {forwards : Option (String × Option Value)} :
      (b.sendRequest "tools/list" none true).Uses (HttpOp.Posts (OnBehalfOf forwards)) :=
    posts_sendRequest fun _ => .inr (.inl rfl)
  cases m with
  | connect => exact posts_connect
  | listTools =>
    refine posts_checked (fun e => trivial) (hlisting.bind fun reply => ?_)
    rcases reply with e | result
    · trivial
    dsimp only
    split
    · trivial
    split
    · trivial
    · exact ⟨HttpOp.posts_of_none rfl, fun _ => trivial⟩
  | callTool name arguments timeoutSecs =>
    exact posts_checked (fun e => trivial) (posts_sendRequest fun _ => .inr (.inr rfl))
  | disconnect => exact ⟨HttpOp.posts_of_none rfl, fun _ => trivial⟩
  | healthCheck =>
    refine posts_checked (fun e => trivial) (hlisting.bind fun reply => ?_)
    rcases reply <;> trivial
  | request method params timeoutSecs =>
    exact posts_checked (fun e => trivial) (posts_sendRequest fun _ => .inr (.inr rfl))
  | takeToolsRefresh => exact ⟨HttpOp.posts_of_none rfl, fun _ => trivial⟩

end HttpBackend

/-! ## Stdio -/

section Stdio

variable {P : JsonRpcMessage → Prop} {b : StdioBackend}
  {forwards : Option (String × Option Value)}

theorem writes_sendMessage {message : JsonRpcMessage} (h : P message) :
    (sendMessage message).Uses (StdioOp.Writes P) := by
  refine ⟨StdioOp.writes_of_none rfl, fun _ => Prog.Uses.andFinally
    ⟨StdioOp.writes_of_none rfl, fun _ => Prog.Uses.andFinally
      ⟨StdioOp.writes_of_none rfl, fun child => ?_⟩ (StdioOp.writes_of_none rfl)⟩
    (StdioOp.writes_of_none rfl)⟩
  rcases child with _ | child
  · trivial
  refine ⟨fun m hm => Option.some.inj hm ▸ h, fun written => ?_⟩
  rcases written with e | _
  · trivial
  refine ⟨StdioOp.writes_of_none rfl, fun flushed => ?_⟩
  rcases flushed <;> trivial

namespace StdioBackend

/-- A request is written as it is. -/
theorem writes_sendRequest {method : String} {params : Option Value} {timeoutSecs : Nat}
    {handshake : Option Nat} (h : ∀ requestId, P (.request requestId method params)) :
    (b.sendRequest method params timeoutSecs handshake).Uses (StdioOp.Writes P) := by
  refine ⟨StdioOp.writes_of_none rfl, fun id => ⟨StdioOp.writes_of_none rfl, fun channel => ?_⟩⟩
  refine (writes_sendMessage (h _)).bind fun sent => ?_
  rcases sent with e | _
  · trivial
  refine ⟨StdioOp.writes_of_none rfl, fun awaited => ?_⟩
  cases awaited with
  | answered r => trivial
  | timedOut => exact ⟨StdioOp.writes_of_none rfl, fun _ => trivial⟩
  | dropped => trivial

/-- The handshake is the backend's own. -/
theorem writes_openChild (child : Nat) :
    (b.openChild child).Uses (StdioOp.Writes (OnBehalfOf forwards)) := by
  refine ⟨StdioOp.writes_of_none rfl, fun _ => ⟨StdioOp.writes_of_none rfl, fun _ =>
    ⟨StdioOp.writes_of_none rfl, fun _ => ?_⟩⟩⟩
  refine (writes_sendRequest fun _ => .inl rfl).bind fun reply => ?_
  rcases reply with e | result
  · trivial
  dsimp only
  split
  · trivial
  refine (writes_sendMessage trivial).bind fun sent => ?_
  rcases sent with e | _
  · trivial
  · exact ⟨StdioOp.writes_of_none rfl, fun _ => ⟨StdioOp.writes_of_none rfl, fun _ => trivial⟩⟩

theorem writes_connect : b.connect.Uses (StdioOp.Writes (OnBehalfOf forwards)) := by
  refine ⟨StdioOp.writes_of_none rfl, fun connected => ?_⟩
  cases connected
  · simp only [Prog.bind_eq]
    split
    · trivial
    refine ⟨StdioOp.writes_of_none rfl, fun spawned => ?_⟩
    rcases spawned with e | spawned
    · trivial
    simp only [Prog.ret_bind]
    split
    · trivial
    split
    · trivial
    · exact writes_openChild spawned.child
  · refine ⟨StdioOp.writes_of_none rfl, fun init => ?_⟩
    rcases init with _ | init <;> trivial

/-- **A method writes what it forwards, and what is the backend's own.** -/
theorem writes_run {β : Type} (m : McpOp β) :
    (b.run m).Uses (StdioOp.Writes (OnBehalfOf m.forwards)) := by
  cases m with
  | connect => exact writes_connect
  | listTools =>
    refine ⟨StdioOp.writes_of_none rfl, fun connected => ?_⟩
    cases connected
    · trivial
    refine (writes_sendRequest fun _ => .inr (.inl rfl)).bind fun reply => ?_
    rcases reply with e | result
    · trivial
    · dsimp only
      split <;> trivial
  | callTool name arguments timeoutSecs =>
    refine ⟨StdioOp.writes_of_none rfl, fun connected => ?_⟩
    cases connected
    · trivial
    · exact writes_sendRequest fun _ => .inr (.inr rfl)
  | disconnect =>
    have hkill : killChild.Uses (StdioOp.Writes (OnBehalfOf none)) := by
      refine ⟨StdioOp.writes_of_none rfl, fun _ => Prog.Uses.andFinally
        ⟨StdioOp.writes_of_none rfl, fun child => ?_⟩ (StdioOp.writes_of_none rfl)⟩
      rcases child with _ | child
      · trivial
      · exact ⟨StdioOp.writes_of_none rfl, fun _ => trivial⟩
    exact ⟨StdioOp.writes_of_none rfl, fun _ => ⟨StdioOp.writes_of_none rfl, fun _ =>
      hkill.bind fun _ => trivial⟩⟩
  | healthCheck =>
    refine ⟨StdioOp.writes_of_none rfl, fun connected => ?_⟩
    cases connected
    · trivial
    refine (writes_sendRequest fun _ => .inr (.inl rfl)).bind fun reply => ?_
    rcases reply <;> trivial
  | request method params timeoutSecs =>
    refine ⟨StdioOp.writes_of_none rfl, fun connected => ?_⟩
    cases connected
    · trivial
    · exact writes_sendRequest fun _ => .inr (.inr rfl)
  | takeToolsRefresh => trivial

/-- A reader task writes nothing. -/
theorem writes_readerTask (child : Nat) (output : List String) :
    (b.readerTask child output).Uses (StdioOp.Writes fun _ => False) := by
  have hline (line : String) : (b.handleLine line).Uses (StdioOp.Writes fun _ => False) := by
    rw [handleLine]
    split
    · trivial
    split
    · exact ⟨StdioOp.writes_of_none rfl, fun _ => trivial⟩
    · exact ⟨StdioOp.writes_of_none rfl, fun _ => trivial⟩
    · trivial
  have hread : (b.readResponses child output).Uses (StdioOp.Writes fun _ => False) := by
    induction output with
    | nil => exact ⟨StdioOp.writes_of_none rfl, fun _ => trivial⟩
    | cons line lines ih =>
      exact ⟨StdioOp.writes_of_none rfl, fun _ => (hline line).bind fun _ => ih⟩
  exact ⟨StdioOp.writes_of_none rfl, fun _ => hread.bind fun _ =>
    ⟨StdioOp.writes_of_none rfl, fun _ => ⟨StdioOp.writes_of_none rfl, fun _ => trivial⟩⟩⟩

end StdioBackend

end Stdio

/-! ## The hub -/

/-- The message that an operation sends, with the backend object that sends it. A POST and a write
to a child are the two ways out of the hub. -/
def LiveOp.sends {β : Type} : LiveOp β → Option (Nat × JsonRpcMessage)
  | .dispatch _ => none
  | .http object o => o.posted.map fun request => (object, request.message)
  | .stdio object o => o.written.map fun message => (object, message)

/-- What is sent meets a condition. -/
def LiveOp.Sends (P : Nat → JsonRpcMessage → Prop) {β : Type} (o : LiveOp β) : Prop :=
  ∀ sent ∈ o.sends, P sent.1 sent.2

/-- The message that a task is about to send. A task is about to send what its next operation
sends. -/
def aboutToSend {α : Type} : Prog LiveOp α → Option (Nat × JsonRpcMessage)
  | .op o _ => o.sends
  | _ => none

/-- Messages are sent inside of backends. -/
theorem LiveOp.inside_of_sends {β : Type} {o : LiveOp β} {sent : Nat × JsonRpcMessage}
    (h : o.sends = some sent) : o.Inside := by
  cases o with
  | dispatch o => cases h
  | http object o => trivial
  | stdio object o => trivial

theorem HttpOp.Posts.sends {P : JsonRpcMessage → Prop} {β : Type} {o : HttpOp β} (object : Nat)
    (ho : o.Posts P) : (LiveOp.http object o).Sends fun n m => n = object ∧ P m := by
  intro sent hsent
  obtain ⟨request, hposted, rfl⟩ := Option.map_eq_some_iff.mp hsent
  exact ⟨rfl, ho request hposted⟩

theorem StdioOp.Writes.sends {P : JsonRpcMessage → Prop} {β : Type} {o : StdioOp β} (object : Nat)
    (ho : o.Writes P) : (LiveOp.stdio object o).Sends fun n m => n = object ∧ P m := by
  intro sent hsent
  obtain ⟨message, hwritten, rfl⟩ := Option.map_eq_some_iff.mp hsent
  exact ⟨rfl, ho message hwritten⟩

/-- A method of a backend object sends what it forwards, and what is the backend's own. -/
theorem Implementation.sends_run (implementation : Implementation) (object : Nat) {β : Type}
    (m : McpOp β) : (implementation.run object m).Uses
      (LiveOp.Sends fun n message => n = object ∧ OnBehalfOf m.forwards message) := by
  cases implementation with
  | http b => exact Prog.Uses.lift ((b.posts_run m).mono fun _ ho => ho.sends object)
  | stdio b => exact Prog.Uses.lift ((b.writes_run m).mono fun _ ho => ho.sends object)

/-- A reader task sends nothing. -/
theorem Implementation.sends_reader (implementation : Implementation) (object child : Nat)
    (output : List String) : (implementation.reader object child output).Uses
      (LiveOp.Sends fun _ _ => False) := by
  cases implementation with
  | http b => trivial
  | stdio b =>
    refine Prog.Uses.lift ((b.writes_readerTask child output).mono fun _ ho => ?_)
    exact fun sent hsent => (ho.sends object sent hsent).2

/-- What entitles a hub to send a `tools/call` to a backend object: a message of a client asks for
a tool under its exposed name, the tool passes the filters of the backend's definition, and what is
sent names it, with arguments that obey the policy. -/
structure Warrant {ι : Type} (s : RegistryWorld ι) (m : JsonRpcMessage) (object : Nat)
    (params : Option Value) (definition : BackendDef) (tool : String) : Prop where
  asked : ∃ requestId v call, m = .request requestId "tools/call" (some v) ∧
    v.toToolCallParams = some call ∧ call.name = computeExposedName definition.toolNamespace tool
  registered : ∃ id, s.known id = some (definition, object)
  passes : PassesFilters definition.toolsAllow definition.toolsDeny tool
  named : params.bind (·.get "name") = some (.string tool)
  obeys : Obeys definition (params.bind (·.get "arguments"))

section Runs

variable {ι : Type} {jobs : ι → HubJob} {prettyText serdeText : Value → String}

/-- What a session forwards is warranted. -/
theorem warrant_of_permitted {s : RegistryWorld ι} {r : Forwarded ι} {call : RegistryCall}
    (hasked : AskedBy jobs r.caller call) (hpermitted : Permitted (fun _ => call) s r) :
    ∃ m definition tool, jobs r.caller = .message m ∧
      Warrant s m.message r.object r.params definition tool := by
  obtain ⟨exposedName, args, extra, timeoutSecs, tool, definition, id, rfl, hknown, hnamed, hpasses,
    rfl, hobeys⟩ := hpermitted
  obtain ⟨m, hjob, requestId, v, call, hm, hv, hname, -⟩ := hasked
  exact ⟨m, definition, tool, hjob, ⟨requestId, v, call, hm, hv, hname⟩, ⟨id, hknown⟩, hpasses,
    hnamed, hobeys⟩

variable [DecidableEq ι]

/-- A reader task never sends anything. -/
theorem reader_sends_nothing {backends : Nat → Implementation} {start : LiveWorld ι}
    {ls' : List (ι × LiveChoice)} {c' : Pool LiveOp ι (LiveWorld ι) Unit}
    (hplay : (liveMachine ι).play ls' (jobPool backends prettyText serdeText start jobs) = some c')
    {i : ι} (hreader : (jobs i).IsReader) : (c'.task i).Uses (LiveOp.Sends fun _ _ => False) := by
  refine (liveMachine ι).uses_play ?_ hplay
  simp only [jobPool, hubPool]
  rcases hjob : jobs i with m | c | ⟨object, child, output⟩ <;> rw [hjob] at hreader
  · exact absurd hreader id
  · exact absurd hreader id
  · exact ((backends object).sends_reader object child output).bind fun _ => trivial

/-- **Every `tools/call` on the wire is warranted**: in every run of a hub with its backends in
place that starts with an empty index, whatever else is going on, a task that is about to post a
`tools/call` or to write one to a child is the task of a client's message that asked for it, and
the policy of the backend's definition is kept. -/
theorem sent_calls_are_warranted {backends : Nat → Implementation} {start : LiveWorld ι}
    (hindex : start.dispatch.session.registry.index = [])
    (hforwarded : start.dispatch.session.registry.forwarded = []) {ls' : List (ι × LiveChoice)}
    {c' : Pool LiveOp ι (LiveWorld ι) Unit}
    (hplay : (liveMachine ι).play ls' (jobPool backends prettyText serdeText start jobs) = some c')
    {i : ι} {object : Nat} {requestId : JsonRpcId} {params : Option Value}
    (hsends : aboutToSend (c'.task i) = some (object, .request requestId "tools/call" params)) :
    ∃ m definition tool, jobs i = .message m ∧
      Warrant c'.shared.dispatch.session.registry m.message object params definition tool := by
  rcases hnext : c'.task i with _ | _ | ⟨o, k⟩ <;> rw [hnext] at hsends
  · cases hsends
  · cases hsends
  have hsends : o.sends = some (object, .request requestId "tools/call" params) := hsends
  have hclient : ((jobs i).duty.task prettyText serdeText).IsClient := by
    by_contra hnot
    have hreader : (jobs i).IsReader := by
      cases hjob : jobs i <;> rw [hjob] at hnot
      · exact hnot trivial
      · exact hnot trivial
      · trivial
    have hquiet := reader_sends_nothing hplay hreader
    rw [hnext] at hquiet
    exact hquiet.1 _ hsends
  -- The session is at a call of a backend that can send this.
  obtain ⟨ls, d, hls, hs, δ₁, o₁, k₁, hop, hremote, hwithin⟩ := play_refines_inner
    (hub_implements backends) (hub_related backends start _) hplay hclient hnext
    (LiveOp.inside_of_sends hsends)
  obtain ⟨object₁, method, rfl⟩ := call_of_remote hremote
  obtain ⟨rfl, hbehalf⟩ := hwithin _ ((backends object₁).sends_run object₁ method) _ hsends
  obtain ⟨call, answer, hasked, hpermitted⟩ :=
    asked_of_next hindex hforwarded hls hop hbehalf.forwards
  refine warrant_of_permitted hasked (hpermitted.extends fun id definition h => ?_)
  have hsame : d.shared.session.registry.backends = c'.shared.dispatch.session.registry.backends :=
    congrArg (fun s => s.session.registry.backends) hs
  rw [RegistryWorld.known, ← hsame]
  exact h

end Runs

/-! ### A mailbox -/

/-- What the mail server lists. -/
def mailListing : String :=
  "\x7b\"jsonrpc\":\"2.0\",\"id\":1,\"result\":\x7b\"tools\":[\x7b\"name\":\"read\"," ++
  "\"description\":\"\",\"inputSchema\":\x7b\x7d\x7d]\x7d\x7d"

/-- The mail server, behind HTTP. -/
def mailHttp : HttpBackend :=
  { sampleHttp with
    id := "mail"
    serde := { sampleSerde with
      fromSlice := fun text =>
        if text = mailListing then
          .ok (.object [("jsonrpc", .string "2.0"), ("id", .number (.int 1)),
            ("result", .object [("tools", .array [.object [("name", .string "read"),
              ("description", .string ""), ("inputSchema", .object [])]])])])
        else sampleSerde.fromSlice text } }

/-- A hub that is to serve one mailbox. -/
def mailHub : LiveWorld (Fin 2) where
  dispatch := ⟨⟨{ RegistryWorld.empty _ with
    backends := [("mail", ⟨readOnly, 0, false, none, 0⟩)] }, false, 0⟩, [], [], []⟩
  http _ := .fresh (.empty _) none
  stdio _ := .fresh _

/-- It connects the mailbox, and a client reads from the account of somebody else. -/
def mailJobs : Fin 2 → HubJob
  | 0 => .chore (.reconnectBackend "mail")
  | 1 => .message (.handle (.request (.number 7) "tools/call" (some (.object [
      ("name", .string "mail.read"),
      ("_meta", .object [("io.modelcontextprotocol/protocolVersion", .string "2026-07-28")]),
      ("arguments", .object [("account", .string "you")])]))))

/-- Some operations that are not answered by anybody. -/
def quietly (n : Nat) : List LiveChoice := List.replicate n {}

/-- The handshake and the listing are answered, then the client has its turns. -/
def mailTurns : List (Fin 2 × LiveChoice) :=
  Machine.turns 0 (quietly 7 ++ [{ http := .opened "s1" }] ++ quietly 3 ++
    [{ http := .noted }] ++ quietly 8 ++
    [{ http := { reply := .response 200 [] (.ok mailListing) } }] ++ quietly 2) ++
  Machine.turns 1 (quietly 9)

/-- A `tools/call` is about to be sent. -/
def callsTool : Option (Nat × JsonRpcMessage) → Bool
  | some (_, .request _ method _) => method = "tools/call"
  | _ => false

theorem exists_of_callsTool {sent : Option (Nat × JsonRpcMessage)} (h : callsTool sent = true) :
    ∃ object requestId params, sent = some (object, .request requestId "tools/call" params) := by
  match sent, h with
  | some (object, .request requestId method params), h =>
    obtain rfl : method = "tools/call" := of_decide_eq_true h
    exact ⟨object, requestId, params, rfl⟩

/-- The call that is about to be posted is warranted. -/
theorem mail_call_is_warranted :
    ∃ c', (liveMachine (Fin 2)).play mailTurns (jobPool (fun _ => .http mailHttp) (fun _ => "")
        (fun _ => "") mailHub mailJobs) = some c' ∧
      ∃ object requestId params,
        aboutToSend (c'.task 1) = some (object, .request requestId "tools/call" params) ∧
        ∃ m definition tool, mailJobs 1 = .message m ∧ Warrant
          c'.shared.dispatch.session.registry m.message object params definition tool := by
  have hrun : ((liveMachine (Fin 2)).play mailTurns (jobPool (fun _ => .http mailHttp)
      (fun _ => "") (fun _ => "") mailHub mailJobs)).map
        (fun c => callsTool (aboutToSend (c.task 1))) = some true := by decide +kernel
  obtain ⟨c', hplay, hcalls⟩ := Option.map_eq_some_iff.mp hrun
  obtain ⟨object, requestId, params, hsends⟩ := exists_of_callsTool hcalls
  exact ⟨c', hplay, object, requestId, params, hsends,
    sent_calls_are_warranted rfl rfl hplay hsends⟩

end HeadlessMcp
