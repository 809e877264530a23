import HeadlessMcp.Async.Transcript
import HeadlessMcp.Session.Resources

/-!
# Caching

A modern result of a cacheable method says how long it may be cached and by whom. What a backend
answers to `resources/read` is passed on with two marks: `mark_complete` adds the result type
where there is none, and `mark_cacheable` makes a complete result private. A result of another
type keeps what the backend wrote.

The read is followed through the handler by its transcript: the value that the backend answered
with is the one that the marks are set on.
-/

namespace HeadlessMcp

open Async

/-! ## The marks -/

/-- A result that no shared cache may keep, and that says how long another one may, where it is
complete. -/
structure PrivateResult (result : Value) : Prop where
  scope : ∀ scope, result.get "cacheScope" = some scope → scope = .string "private"
  complete : result.get "resultType" = some (.string "complete") →
    (∃ ttlMs, result.get "ttlMs" = some ttlMs ∧ ttlMs.asU64.isSome) ∧
      result.get "cacheScope" = some (.string "private")

/-- A value that is complete once it is marked, or that has no scope but a private one. -/
def NarrowAnswer (v : Value) : Prop :=
  v.get "resultType" = none ∨ v.get "resultType" = some (.string "complete") ∨
    ∀ scope, v.get "cacheScope" = some scope → scope = .string "private"

theorem asStr_eq_some {v : Value} {text : String} : v.asStr = some text ↔ v = .string text := by
  cases v <;> simp [Value.asStr]

section Marks

variable {method : String} {ttlMs : Nat} (hmethod : cacheTtlMs method = some ttlMs)

include hmethod

/-- A complete result is made private. -/
theorem privateResult_of_complete {obj : Map} (httl : ttlMs < 2 ^ 64)
    (hcomplete : Entries.get obj "resultType" = some (.string "complete")) :
    PrivateResult (markCacheable method (.object obj)) := by
  have htype : (Entries.get obj "resultType").bind Value.asStr = some "complete" := by
    rw [hcomplete]
    rfl
  simp only [markCacheable, hmethod, htype, if_true]
  refine ⟨fun scope hscope => ?_, fun _ => ⟨?_, Entries.get_insert_self _ _ _⟩⟩
  · rw [Value.get, Entries.get_insert_self] at hscope
    exact (Option.some.inj hscope).symm
  · rw [Value.get, Entries.get_insert_ne (by decide)]
    split
    · rename_i hkept
      exact (Option.any_eq_true _ _).mp hkept
    · refine ⟨_, Entries.get_insert_self _ _ _, ?_⟩
      have hrange : (0 : Int) ≤ ttlMs ∧ (ttlMs : Int) < 2 ^ 64 := by omega
      rw [Value.asU64, if_pos hrange]
      rfl

/-- A result of another type is left alone. -/
theorem markCacheable_of_other {obj : Map} {resultType : Value}
    (htype : Entries.get obj "resultType" = some resultType)
    (hother : resultType ≠ .string "complete") :
    markCacheable method (.object obj) = .object obj := by
  have hskip : (Entries.get obj "resultType").bind Value.asStr ≠ some "complete" := by
    rw [htype]
    exact fun h => hother (asStr_eq_some.mp h)
  simp only [markCacheable, hmethod, hskip, if_false]

/-- **The marks keep a result private exactly when it is complete, or was never public.** -/
theorem privateResult_marked_iff (httl : ttlMs < 2 ^ 64) (v : Value) :
    PrivateResult (markCacheable method (markComplete v)) ↔ NarrowAnswer v := by
  cases v with
  | object obj =>
    by_cases hmissing : Entries.get obj "resultType" = none
    · -- the type is added
      have hmarked : markComplete (.object obj) =
          .object (Entries.insert "resultType" (.string "complete") obj) := by
        simp [markComplete, Entries.containsKey, hmissing]
      rw [hmarked]
      exact iff_of_true
        (privateResult_of_complete hmethod httl (Entries.get_insert_self _ _ _)) (.inl hmissing)
    obtain ⟨resultType, htype⟩ := Option.ne_none_iff_exists'.mp hmissing
    have hmarked : markComplete (.object obj) = .object obj := by
      simp [markComplete, Entries.containsKey, htype]
    rw [hmarked]
    by_cases hcomplete : resultType = .string "complete"
    · rw [hcomplete] at htype
      exact iff_of_true (privateResult_of_complete hmethod httl htype) (.inr (.inl htype))
    · -- the backend's hints stay
      rw [markCacheable_of_other hmethod htype hcomplete]
      have hnot : Entries.get obj "resultType" ≠ some (.string "complete") := by
        rw [htype]
        exact fun h => hcomplete (Option.some.inj h)
      constructor
      · intro hprivate
        exact .inr (.inr hprivate.scope)
      · rintro (h | h | hscope)
        · exact absurd h hmissing
        · exact absurd h hnot
        · exact ⟨hscope, fun h => absurd h hnot⟩
  | _ =>
    simp only [markComplete, markCacheable, hmethod]
    exact iff_of_true ⟨(fun _ h => by cases h), fun h => by cases h⟩ (.inl rfl)

end Marks

/-! ## Reading -/

/-- A transcript forwards a read to a backend, which answers with this value. -/
def ReadAnswer (l : List (Turn DispatchOp)) (v : Value) : Prop :=
  ∃ object params secs, (⟨.session (.registry (.backend object
    (.request "resources/read" params secs))), .ok v⟩ : Turn DispatchOp) ∈ l

/-- The request that an operation forwards to a backend. -/
def DispatchOp.forwards {β : Type} : DispatchOp β → Option (String × Option Value)
  | .session (.registry (.backend _ method)) => method.forwards
  | _ => none

/-- An operation that forwards no read. -/
def DispatchOp.NoRead {β : Type} (o : DispatchOp β) : Prop :=
  ∀ request ∈ o.forwards, request.1 ≠ "resources/read"

theorem not_readAnswer {l : List (Turn DispatchOp)} {v : Value} (h : ∀ a ∈ l, a.op.NoRead) :
    ¬ ReadAnswer l v := by
  rintro ⟨object, params, secs, hmem⟩
  exact h _ hmem _ rfl rfl

/-- An answer comes after what reads nothing. -/
theorem ReadAnswer.after {l l' : List (Turn DispatchOp)} {v : Value} (hv : ReadAnswer (l ++ l') v)
    (h : ∀ a ∈ l, a.op.NoRead) : ReadAnswer l' v := by
  simp only [ReadAnswer, List.mem_append, exists_or] at hv
  exact hv.resolve_left (not_readAnswer h)

/-- An answer comes before what reads nothing. -/
theorem ReadAnswer.before {l l' : List (Turn DispatchOp)} {v : Value}
    (hv : ReadAnswer (l ++ l') v) (h : ∀ a ∈ l', a.op.NoRead) : ReadAnswer l v := by
  simp only [ReadAnswer, List.mem_append, exists_or] at hv
  exact hv.resolve_right (not_readAnswer h)

/-- A request of another method is no read. -/
theorem noRead_backendRequest {id method : String} {params : Option Value} {secs : Nat}
    (h : method ≠ "resources/read") :
    (hubDo (Registry.backendRequest id method params secs)).Uses DispatchOp.NoRead := by
  refine ⟨nofun, fun handle => ?_⟩
  cases handle with
  | none => trivial
  | some handle =>
    refine ⟨?_, fun _ => trivial⟩
    rintro _ ⟨⟩
    exact h

/-- Listing reads nothing. -/
theorem noRead_listResources (ids : List String) (owners : Entries String) :
    (Session.listResources ids owners).Uses DispatchOp.NoRead := by
  induction ids generalizing owners with
  | nil => trivial
  | cons id ids ih =>
    refine (noRead_backendRequest (by decide)).bind fun answer => ?_
    cases answer with
    | error err => exact ih owners
    | ok result => exact (ih _).bind fun _ => trivial

theorem noRead_requireInitialized (ctx : RequestCtx) :
    (sessionDo (Session.requireInitialized ctx)).Uses DispatchOp.NoRead := by
  unfold Session.requireInitialized
  split
  · trivial
  · refine ⟨nofun, fun initialized => ?_⟩
    cases initialized <;> trivial

theorem noRead_handleResourcesList (ctx : RequestCtx) :
    (Session.handleResourcesList ctx).Uses DispatchOp.NoRead := by
  refine (noRead_requireInitialized ctx).bind fun accepted => ?_
  cases accepted with
  | error err => trivial
  | ok _ =>
    refine Prog.Uses.bind ⟨nofun, fun _ => trivial⟩ fun ids => ?_
    refine (noRead_listResources ids []).bind fun collected => ?_
    exact ⟨nofun, fun _ => trivial⟩

/-- What is read from the owner is what the owner answers. -/
theorem readFrom_answer {uri : String} {owner : Option String} {l : List (Turn DispatchOp)}
    {result : Except JsonRpcError Value} {v : Value}
    (h : (Session.readFrom uri owner).Performs l (.done result)) (hv : ReadAnswer l v) :
    result = .ok v := by
  cases owner with
  | none =>
    obtain ⟨rfl, -⟩ := h
    exact absurd hv (not_readAnswer (List.forall_mem_nil _))
  | some owner =>
    obtain ⟨handle, rest, rfl, h⟩ := h
    obtain ⟨object, params, secs, hmem⟩ := hv
    have hlookup (handle : Option BackendHandle) : (⟨.session (.registry (.backend object
        (.request "resources/read" params secs))), .ok v⟩ : Turn DispatchOp) ≠
          ⟨.session (.registry (.lookup owner)), handle⟩ := fun heq =>
      nomatch congrArg (fun a => a.op.forwards) heq
    cases handle with
    | none =>
      obtain ⟨rfl, -⟩ := h
      exact absurd (List.mem_singleton.mp hmem) (hlookup _)
    | some handle =>
      obtain ⟨answer, rest, rfl, h⟩ := h
      have hrest : rest = [] ∧ result = answer.mapError fun e => .internalError e.message := by
        cases answer with
        | error e => exact ⟨h.1, Outcome.done.inj h.2⟩
        | ok v => exact ⟨h.1, Outcome.done.inj h.2⟩
      obtain ⟨rfl, rfl⟩ := hrest
      rcases List.mem_cons.mp hmem with hmem | hmem
      · exact absurd hmem (hlookup _)
      · cases List.mem_singleton.mp hmem
        rfl

/-- A read hands on what a backend answered. -/
theorem handleResourcesRead_answer {params : Option Value} {ctx : RequestCtx}
    {l : List (Turn DispatchOp)} {result : Except JsonRpcError Value} {v : Value}
    (h : (Session.handleResourcesRead params ctx).Performs l (.done result))
    (hanswer : ReadAnswer l v) : result = .ok v := by
  have hnothing : ¬ ReadAnswer [] v := not_readAnswer (List.forall_mem_nil _)
  have hlookup {owner : Option String} {uri : String} {rest : List (Turn DispatchOp)}
      (hv : ReadAnswer (⟨.resourceOwner uri, owner⟩ :: rest) v) : ReadAnswer rest v :=
    hv.after (l := [_]) (List.forall_mem_singleton.mpr nofun)
  obtain ⟨asked, accepted, rest, rfl, hasked, hrest⟩ :=
    Prog.Performs.of_bind_done h
  have hv := hanswer.after (hasked.uses (noRead_requireInitialized ctx))
  cases accepted with
  | error err =>
    obtain ⟨rfl, -⟩ := hrest
    exact absurd hv hnothing
  | ok _ =>
    cases huri : (params.bind (·.get "uri")).bind Value.asStr with
    | none =>
      simp only [huri] at hrest
      obtain ⟨rfl, -⟩ := hrest
      exact absurd hv hnothing
    | some uri =>
      simp only [huri, Prog.bind_eq, Prog.perform_bind] at hrest
      obtain ⟨owner, tail, rfl, htail⟩ := hrest
      cases owner with
      | some owner => exact readFrom_answer htail (hlookup hv)
      | none =>
        -- the list is fetched first, and the owner looked up again
        obtain ⟨listed, found, last, rfl, hlisted, hlast⟩ :=
          Prog.Performs.of_bind_done htail
        have hv := (hlookup hv).after (hlisted.uses (noRead_handleResourcesList ctx))
        cases found with
        | error err =>
          obtain ⟨rfl, -⟩ := hlast
          exact absurd hv hnothing
        | ok _ =>
          obtain ⟨owner, last, rfl, hlast⟩ := hlast
          exact readFrom_answer hlast (hlookup hv)

/-- The success result that is sent to the client is private. It is read off the reply as the
client gets it. -/
def CachedPrivately (reply : JsonRpcMessage) : Prop :=
  ∀ requestId result, reply = .success requestId result → PrivateResult result

section Reply

variable {prettyText serdeText : Value → String} {requestId : JsonRpcId} {params : Option Value}
  {v : Value}

/-- The answer gets the marks of a modern result. -/
theorem dispatchRequest_answer (hmodern : (RequestCtx.fromParams params).isModern = true)
    {l : List (Turn DispatchOp)} {handled : Handled}
    (h : (Session.dispatchRequest prettyText serdeText "resources/read" params).Performs l
      (.done handled)) (hv : ReadAnswer l v) :
    handled.result = .ok (markCacheable "resources/read" (markComplete v)) := by
  have hhandler : Session.handlerOf prettyText serdeText "resources/read" params
      (.fromParams params) =
        Session.simple (Session.handleResourcesRead params (.fromParams params)) := by
    simp [Session.handlerOf]
  unfold Session.dispatchRequest at h
  rcases hversion : (RequestCtx.fromParams params).checkVersion with err | _
  · simp only [hversion] at h
    obtain ⟨rfl, -⟩ := h
    exact absurd hv (not_readAnswer (List.forall_mem_nil _))
  simp only [hversion, hhandler, hmodern, if_true] at h
  obtain ⟨done, simple, rest, rfl, hdone, hrest⟩ :=
    Prog.Performs.of_bind_done h
  obtain ⟨rfl, hhandled⟩ := hrest
  obtain ⟨read, result, rest, rfl, hread, hsimple⟩ :=
    Prog.Performs.of_bind_done hdone
  obtain ⟨rfl, hsimple⟩ := hsimple
  rw [List.append_nil, List.append_nil] at hv
  obtain rfl := handleResourcesRead_answer hread hv
  cases hsimple
  cases hhandled
  rfl

/-- A modern read is answered with what the backend answered, and the marks. -/
theorem handleRequest_answer (hmodern : (RequestCtx.fromParams params).isModern = true)
    {l : List (Turn DispatchOp)} {reply : JsonRpcMessage}
    (h : (Session.handleRequest prettyText serdeText requestId "resources/read" params).Performs l
      (.done reply)) (hv : ReadAnswer l v) :
    reply = .success requestId (markCacheable "resources/read" (markComplete v)) := by
  obtain ⟨done, handled, rest, rfl, hdone, hrest⟩ :=
    Prog.Performs.of_bind_done h
  obtain ⟨_, last, rfl, hlast⟩ := hrest
  -- the outcome is recorded in between
  rcases hresult : handled.result with err | w
  all_goals
    simp only [Prog.ret_bind, hresult] at hlast
    obtain ⟨rfl, hreply⟩ := hlast
    have hv := hv.before (List.forall_mem_singleton.mpr nofun)
    rw [dispatchRequest_answer hmodern hdone hv] at hresult
    cases hresult
  exact Outcome.done.inj hreply

/-- **A resource is cached privately exactly when the backend's answer is complete, or was never
public**: for every answer to a modern read, in every run, next to any other tasks. Where the
backend has chosen another result type than the complete one, the scope that it wrote is passed
on. -/
theorem read_cachedPrivately_iff {ι : Type} [DecidableEq ι] {i : ι}
    {start : ι → Prog DispatchOp JsonRpcMessage} {s : DispatchWorld ι}
    {ls : List (ι × RegistryChoice)} {c : Pool DispatchOp ι _ JsonRpcMessage}
    {reply : JsonRpcMessage}
    (hstart : start i = Session.handleRequest prettyText serdeText requestId "resources/read" params)
    (hmodern : (RequestCtx.fromParams params).isModern = true)
    (hplay : (dispatchMachine ι).recorded.play ls ⟨⟨s, []⟩, start⟩ = some c)
    (hend : c.task i = .ret reply) (hv : ReadAnswer (transcript i c.shared.log) v) :
    CachedPrivately reply ↔ NarrowAnswer v := by
  have hperformed := Machine.performs_of_play hplay hend
  rw [hstart] at hperformed
  have httl : cacheTtlMs "resources/read" = some 0 := by decide
  rw [handleRequest_answer hmodern hperformed hv, ← privateResult_marked_iff httl (by decide) v]
  constructor
  · intro hprivate
    exact hprivate requestId _ rfl
  · rintro hprivate _ _ ⟨⟩
    exact hprivate

end Reply

/-! ### One read -/

/-- A hub that knows who owns a resource. -/
def ownedHub : DispatchWorld Unit := { resourceHub with resourceOwners := [("x", "a")] }

/-- The params of a modern read. -/
def modernRead : Value :=
  .object [("uri", .string "x"),
    ("_meta", .object [(metaProtocolVersion, .string "2026-07-28")])]

/-- The resource is read, as the only task. -/
def readOnce (_ : Unit) : Prog DispatchOp JsonRpcMessage :=
  Session.handleRequest Value.print Value.print (.number 1) "resources/read" (some modernRead)

/-- Whatever the backend answers, it is handed on with the marks. -/
theorem readOnce_run (v : Value) : ∃ c,
    (dispatchMachine Unit).recorded.play (Machine.turns () [{}, {}, { value := .ok v }, {}])
      ⟨⟨ownedHub, []⟩, readOnce⟩ = some c ∧
    c.task () = .ret (.success (.number 1) (markCacheable "resources/read" (markComplete v))) ∧
    ReadAnswer (transcript () c.shared.log) v := by
  refine ⟨_, rfl, rfl, 0, some (.object [("uri", .string "x")]), forwardTimeoutSecs, ?_⟩
  exact List.mem_cons_of_mem _ (List.mem_cons_of_mem _ List.mem_cons_self)

/-- What a backend answers, of some type and with some scope. -/
def scopedAnswer (resultType scope : String) : Value :=
  .object [("resultType", .string resultType), ("cacheScope", .string scope)]

/-- A complete result that the backend made public is made private. -/
theorem complete_result_is_private : CachedPrivately (.success (.number 1)
    (markCacheable "resources/read" (markComplete (scopedAnswer "complete" "public")))) := by
  obtain ⟨c, hplay, hend, hv⟩ := readOnce_run (scopedAnswer "complete" "public")
  have hstart : readOnce () = Session.handleRequest Value.print Value.print (.number 1)
    "resources/read" (some modernRead) := rfl
  exact (read_cachedPrivately_iff hstart rfl hplay hend hv).mpr (.inr (.inl rfl))

/-- An interim result stays public. -/
theorem interim_result_stays_public : ∃ c reply,
    (dispatchMachine Unit).recorded.play
      (Machine.turns () [{}, {}, { value := .ok (scopedAnswer "input_required" "public") }, {}])
      ⟨⟨ownedHub, []⟩, readOnce⟩ = some c ∧
    c.task () = .ret reply ∧
    ReadAnswer (transcript () c.shared.log) (scopedAnswer "input_required" "public") ∧
    ¬ CachedPrivately reply := by
  obtain ⟨c, hplay, hend, hv⟩ := readOnce_run (scopedAnswer "input_required" "public")
  refine ⟨c, _, hplay, hend, hv, fun hprivate => ?_⟩
  have hscope := (hprivate _ _ rfl).scope (.string "public") (by rfl)
  exact absurd (Value.string.inj hscope) (by decide)

end HeadlessMcp
