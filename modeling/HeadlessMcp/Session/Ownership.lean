import HeadlessMcp.Async.History
import HeadlessMcp.Registry.Startup
import HeadlessMcp.Session.World

/-!
# Whose tool a name is

A name that is not indexed is given to a backend by its namespace: `backend_of_tool` takes the
first backend, in the order of a hash map, whose namespace and a dot begin the name. That is the
backend which would expose the name exactly when no other namespace begins it too.

Everything `handle_tools_call` does for such a name, it does with the backend it was given to
(`serveCall`): the notes of what a handler does with the backends (`Touch`) speak of no other.
-/

namespace HeadlessMcp

open Async Machine

variable {ι : Type}

namespace Session

variable {prettyText : Value → String} {params : ToolCallParams} {ctx : RequestCtx}

/-- The rest of `handle_tools_call`, for the backend that the tool was given to. -/
def serveCall (prettyText : Value → String) (params : ToolCallParams) (ctx : RequestCtx)
    (backend : Option String) : Prog SessionOp Handled := do
  reconnectOnCall params.name backend
  let extra := if ctx.isModern && (← forwardsMeta backend) then extraParams params else []
  match ← registryDo (Registry.routeCallWith params.name params.arguments extra
      defaultCallTimeoutSecs) with
  | .ok v => .ret ⟨.ok (toolResult prettyText v), some params.name,
      if v.isError then .error JsonRpcError.internalErrorCode else .ok⟩
  | .error err =>
    let hint ← hintFor err backend
    let message := match hint with
      | some hint => err.message ++ "\n" ++ hint
      | none => err.message
    .ret ⟨.ok (makeErrorResult message), some params.name,
      .error JsonRpcError.internalErrorCode⟩

theorem callTool_eq : callTool prettyText params ctx =
    (registryDo (Registry.backendOfTool params.name)).bind (serveCall prettyText params ctx) := rfl

end Session

/-! ## Which backend is found -/

section Found

variable {listing : Nat → List ToolDescriptor} {i : ι} {s t : RegistryWorld ι} {n : String}
  {b : String × BackendHandle} {es : List RegistryChoice} {x : Outcome (Option String)}

/-- The backend exposes the name, once it is connected. Its filters let the tool pass, and the
exposed name of the tool is this one. -/
def Exposes (listing : Nat → List ToolDescriptor) (b : String × BackendHandle) (n : String) : Prop :=
  n ∈ (offered listing b.1 b.2.definition b.2.object).keys

/-- No other backend's namespace begins the name. This is a condition on the registrations alone,
and not on what any backend lists. -/
def SoleNamespace (s : RegistryWorld ι) (n : String) (b : String × BackendHandle) : Prop :=
  ∀ b' ∈ s.backends, Registry.inNamespace n b'.2.definition.toolNamespace = true → b' = b

/-- What a backend with a namespace exposes is in its namespace. -/
theorem Exposes.inNamespace (h : Exposes listing b n)
    (hns : b.2.definition.toolNamespace.isSome = true) :
    Registry.inNamespace n b.2.definition.toolNamespace = true := by
  obtain ⟨ns, hns⟩ := Option.isSome_iff_exists.mp hns
  rw [Exposes, keys_offered, List.mem_map] at h
  obtain ⟨tool, -, rfl⟩ := h
  have hname := downstreamOf_computeExposedName (some ns) tool.name
  rw [downstreamOf] at hname
  rw [hns, Registry.inNamespace, Option.any_some, hname]
  rfl

/-- Then it is found, whatever the order. -/
theorem SoleNamespace.find {backends : Entries BackendHandle} (hsole : SoleNamespace s n b)
    (hperm : backends.Perm s.backends) (hb : b ∈ s.backends)
    (hbegins : Registry.inNamespace n b.2.definition.toolNamespace = true) :
    (backends.find? fun b => Registry.inNamespace n b.2.definition.toolNamespace).map Prod.fst =
      some b.1 := by
  have hsome : (backends.find? fun b =>
      Registry.inNamespace n b.2.definition.toolNamespace).isSome = true :=
    List.find?_isSome.mpr ⟨b, hperm.mem_iff.mpr hb, hbegins⟩
  obtain ⟨b', hfind⟩ := Option.isSome_iff_exists.mp hsome
  have hbegins' := List.find?_some hfind
  rw [hfind, hsole b' (hperm.mem_iff.mp (List.mem_of_find?_eq_some hfind)) hbegins']
  rfl

/-- A run of `backend_of_tool` for a name that is not indexed. -/
theorem solo_backendOfTool (hnew : s.index.get n = none) :
    (registryMachine ι).solo i (Registry.backendOfTool n) es s = some (x, t) ↔
      ∃ e₁ e₂ backends, es = [e₁, e₂] ∧ e₂.arrange s.backends = some backends ∧ t = s ∧
        x = .done ((backends.find? fun b =>
          Registry.inNamespace n b.2.definition.toolNamespace).map Prod.fst) := by
  simp only [Registry.backendOfTool, Prog.bind_eq, Prog.perform_bind]
  -- two steps: the name is not in the index, then the backends come in some order
  constructor
  · intro h
    obtain ⟨e₁, es, found, s₁, rfl, he, h⟩ := (registryMachine ι).solo_op h
    obtain ⟨rfl, rfl⟩ := Prod.mk.inj (Option.some.inj he)
    rw [hnew] at h
    obtain ⟨e₂, es, backends, s₂, rfl, he, h⟩ := (registryMachine ι).solo_op h
    obtain ⟨_, harrange, heq⟩ := Option.map_eq_some_iff.mp he
    obtain ⟨rfl, rfl⟩ := Prod.mk.inj heq
    obtain ⟨rfl, heq⟩ := (registryMachine ι).solo_ret h
    obtain ⟨rfl, rfl⟩ := Prod.mk.inj heq
    exact ⟨e₁, e₂, _, rfl, harrange, rfl, rfl⟩
  · rintro ⟨e₁, e₂, backends, rfl, harrange, rfl, rfl⟩
    rw [solo_op_cons]
    simp only [registryMachine, RegistryWorld.exec, Option.bind_some, hnew]
    rw [solo_op_cons]
    simp only [RegistryWorld.exec, harrange, Option.map_some, Option.bind_some]
    rfl

/-- **A name is given to the backend that would expose it**, in every order of the backends,
exactly when no other namespace begins it. -/
theorem backendOfTool_iff (hkeys : s.backends.keys.Nodup) (hnew : s.index.get n = none)
    (hb : b ∈ s.backends) (hns : b.2.definition.toolNamespace.isSome = true)
    (hexposes : Exposes listing b n) :
    (∀ es x t, (registryMachine ι).solo i (Registry.backendOfTool n) es s = some (x, t) →
      x = .done (some b.1)) ↔ SoleNamespace s n b := by
  -- a backend whose namespace begins the name may come first, and is then the one found
  constructor
  · intro hfound b' hb' hbegins
    obtain ⟨e, rest, harrange⟩ := exists_arrange_first hkeys hb'
    have hrun := (solo_backendOfTool (i := i) hnew).mpr
      ⟨{}, e, _, rfl, harrange, rfl, rfl⟩
    have hid := hfound _ _ _ hrun
    have hid : b'.1 = b.1 := by simpa [hbegins] using hid
    have hget := Entries.get_of_mem hkeys hb'
    rw [hid, Entries.get_of_mem hkeys hb] at hget
    exact (Prod.ext hid.symm (Option.some.inj hget)).symm
  · -- with no other such namespace, the order makes no difference
    intro hsole es x t hrun
    obtain ⟨e₁, e₂, backends, rfl, harrange, rfl, rfl⟩ := (solo_backendOfTool hnew).mp hrun
    rw [hsole.find (arrange_perm hkeys harrange) hb (hexposes.inNamespace hns)]

end Found

/-! ## What a handler does with the backends -/

/-- Something that is done with a backend. What is done with a backend is seen in the operations
of the registry, by its id or by its object. -/
inductive Touch : Type where
  /-- its registration is looked up -/
  | looked (id : String)
  /-- its object is connected -/
  | connected (object : Nat)
  /-- another method of its object is called -/
  | asked (object : Nat)

/-- It is done with this backend. -/
def Touch.Of (id : String) (object : Nat) : Touch → Prop
  | .looked id' => id' = id
  | .connected object' => object' = object
  | .asked object' => object' = object

/-- What an operation of the registry does with a backend. -/
def touches : (β : Type) → RegistryOp β → β → RegistryWorld ι → List Touch
  | _, .lookup id, _, _ => [.looked id]
  | _, .resolve _, some (routed, _), _ => [.looked routed.backendId]
  | _, .backend object .connect, _, _ => [.connected object]
  | _, .backend object _, _, _ => [.asked object]
  | _, _, _, _ => []

/-- What an operation of the session does with a backend. -/
def sessionTouches : (β : Type) → SessionOp β → β → SessionWorld ι → List Touch
  | β, .registry o, b, s => touches β o b s.registry
  | _, _, _, _ => []

/-- The session with the notes of what is done with the backends. -/
abbrev watchedSession (ι : Type) : Machine SessionOp ι RegistryChoice (SessionWorld ι × List Touch) :=
  (sessionMachine ι).noted sessionTouches

/-- The registry with these notes. -/
abbrev watchedRegistry (ι : Type) :
    Machine RegistryOp ι RegistryChoice (RegistryWorld ι × List Touch) :=
  (registryMachine ι).noted touches

section Touches

variable {i : ι} {n id : String} {definition : BackendDef} {object : Nat} {reconnected : Bool}
  {s t : RegistryWorld ι × List Touch}

/-- So far only this backend has been touched, and if the name is indexed, it is for this one. -/
structure OnlyOf (n id : String) (definition : BackendDef) (object : Nat) (reconnected : Bool)
    (s : RegistryWorld ι × List Touch) : Prop where
  known : s.1.known id = some (definition, object)
  index : ∀ entry ∈ s.1.index, entry.1 = n → entry.2.backendId = id
  touched : ∀ touch ∈ s.2, touch.Of id object
  reconnected : reconnected = true → .connected object ∈ s.2

/-- An operation that is about this backend. -/
def RegistryOp.About (id : String) (object : Nat) {β : Type} : RegistryOp β → Prop
  | .lookup id' => id' = id
  | .setCapabilities id' _ => id' = id
  | .reindex id' _ _ _ => id' = id
  | .lookupTool _ => True
  | .backend object' _ => object' = object
  | _ => False

theorem touches_about {β : Type} {o : RegistryOp β} {b : β} {s : RegistryWorld ι}
    (ho : o.About id object) : ∀ touch ∈ touches β o b s, touch.Of id object := by
  cases o with
  | lookup id' => exact List.forall_mem_singleton.mpr ho
  | setCapabilities id' capabilities => exact nofun
  | reindex id' toolNamespace hidden tools => exact nofun
  | lookupTool exposedName => exact nofun
  | backend object' method =>
    cases method <;> exact List.forall_mem_singleton.mpr ho
  | entries => exact ho.elim
  -- the remaining operations are not about one backend
  | insertBackend handle => exact ho.elim
  | removeBackend id' => exact ho.elim
  | setHealth id' healthy => exact ho.elim
  | countAttempt id' => exact ho.elim
  | dropTools id' => exact ho.elim
  | clearIndex => exact ho.elim
  | resolve exposedName => exact ho.elim
  | resolveAll => exact ho.elim
  | sleep milliseconds => exact ho.elim

theorem exec_about {β : Type} {o : RegistryOp β} {e : RegistryChoice} {b : β}
    {s t : RegistryWorld ι} (ho : o.About id object)
    (h : (registryMachine ι).exec i β o e s = some (b, t)) :
    t.known = s.known ∧ ∀ entry ∈ t.index, entry ∈ s.index ∨ entry.2.backendId = id := by
  cases o with
  | lookup id' =>
    obtain ⟨-, rfl⟩ := Prod.mk.inj (Option.some.inj h)
    exact ⟨rfl, fun _ => .inl⟩
  | lookupTool exposedName =>
    obtain ⟨-, rfl⟩ := Prod.mk.inj (Option.some.inj h)
    exact ⟨rfl, fun _ => .inl⟩
  | setCapabilities id' capabilities =>
    obtain ⟨-, rfl⟩ := Prod.mk.inj (Option.some.inj h)
    rw [RegistryWorld.modifyBackend_index]
    refine ⟨known_modifyBackend ?_ ?_, fun _ => .inl⟩
    · exact fun _ => rfl
    · exact fun _ => rfl
  | reindex id' toolNamespace hidden tools =>
    obtain rfl : id' = id := ho
    have hown : ∀ entry ∈ (reindexTools id' toolNamespace hidden tools s.index).2,
        entry ∈ s.index ∨ entry.2.backendId = id' := fun entry hentry =>
      (own_indexTools entry hentry).imp_left fun h => (Entries.mem_of_mem_retain h).1
    simp only [registryMachine, RegistryWorld.exec] at h
    rcases hre : reindexTools id' toolNamespace hidden tools s.index with ⟨r, index⟩
    rw [hre] at h hown
    -- an index that is refused still holds what was added up to there
    cases r with
    | error err =>
      obtain ⟨-, rfl⟩ := Prod.mk.inj (Option.some.inj h)
      exact ⟨rfl, hown⟩
    | ok u =>
      obtain ⟨-, rfl⟩ := Prod.mk.inj (Option.some.inj h)
      rw [RegistryWorld.modifyBackend_index]
      refine ⟨known_modifyBackend ?_ ?_, hown⟩
      · exact fun _ => rfl
      · exact fun _ => rfl
  | backend object' method =>
    obtain ⟨-, rfl⟩ := Prod.mk.inj (Option.some.inj h)
    rw [RegistryWorld.record]
    split <;> exact ⟨rfl, fun _ => .inl⟩
  -- the remaining operations are not about one backend
  | entries => exact ho.elim
  | insertBackend handle => exact ho.elim
  | removeBackend id' => exact ho.elim
  | setHealth id' healthy => exact ho.elim
  | countAttempt id' => exact ho.elim
  | dropTools id' => exact ho.elim
  | clearIndex => exact ho.elim
  | resolve exposedName => exact ho.elim
  | resolveAll => exact ho.elim
  | sleep milliseconds => exact ho.elim

/-- An operation about this backend, then the rest. -/
theorem wp_about {β α : Type} {o : RegistryOp β} {k : β → Prog RegistryOp α}
    {Q : Outcome α → RegistryWorld ι × List Touch → Prop} (ho : o.About id object)
    (hs : OnlyOf n id definition object reconnected s)
    (hk : ∀ e b t, OnlyOf n id definition object reconnected t →
      (registryMachine ι).exec i β o e s.1 = some (b, t.1) → t.2 = touches β o b s.1 ++ s.2 →
      (watchedRegistry ι).wp i (k b) Q t) : (watchedRegistry ι).wp i (.op o k) Q s := by
  intro e b t he
  obtain ⟨hexec, hnotes⟩ := noted_exec he
  obtain ⟨hknown, hindex⟩ := exec_about ho hexec
  refine hk e b t ⟨?_, fun entry hentry hname => ?_, fun touch htouch => ?_, fun h => ?_⟩ hexec hnotes
  · rw [hknown]
    exact hs.known
  · -- what is in the index was there, or belongs to this backend
    rcases hindex entry hentry with hold | hown
    · exact hs.index entry hold hname
    · exact hown
  · -- what has been touched was touched before, or by this operation
    rw [hnotes] at htouch
    rcases List.mem_append.mp htouch with h | h
    · exact touches_about ho touch h
    · exact hs.touched touch h
  · rw [hnotes]
    exact List.mem_append_right _ (hs.reconnected h)

/-- A look at the backend finds it. -/
theorem wp_lookup_about {α : Type} {k : Option BackendHandle → Prog RegistryOp α}
    {Q : Outcome α → RegistryWorld ι × List Touch → Prop}
    (hs : OnlyOf n id definition object reconnected s)
    (hk : ∀ handle t, OnlyOf n id definition object reconnected t → handle.object = object →
      s.1.backends.get id = some handle → (watchedRegistry ι).wp i (k (some handle)) Q t) :
    (watchedRegistry ι).wp i (.op (.lookup id) k) Q s := by
  refine wp_about rfl hs fun e found t ht hexec _ => ?_
  obtain ⟨rfl, -⟩ := Prod.mk.inj (Option.some.inj hexec)
  obtain ⟨handle, hget, hhandle⟩ := Option.map_eq_some_iff.mp hs.known
  rw [hget]
  exact hk handle t ht (Prod.mk.inj hhandle).2 hget

theorem wp_connectBackend_about (hs : OnlyOf n id definition object reconnected s) :
    (watchedRegistry ι).wp i (Registry.connectBackend id)
      (fun _ t => OnlyOf n id definition object true t) s := by
  simp only [Registry.connectBackend, Prog.bind_eq, Prog.perform_bind]
  refine wp_lookup_about hs fun handle t ht hobject _ => ?_
  refine wp_about hobject ht fun e init u hu _ hnotes => ?_
  have hconnected : OnlyOf n id definition object true u := by
    refine ⟨hu.known, hu.index, hu.touched, fun _ => ?_⟩
    rw [hnotes, ← hobject]
    exact List.mem_cons_self
  -- no connection; then no listing, or a listing to index
  rcases init with err | init
  · exact hconnected
  refine wp_about rfl hconnected fun _ _ v hv _ _ => ?_
  refine wp_about hobject hv fun _ tools w hw _ _ => ?_
  rcases tools with err | tools
  · exact hw
  · exact wp_about rfl hw fun _ _ _ hx _ _ => hx

theorem wp_reconnectBackend_about (hs : OnlyOf n id definition object reconnected s) :
    (watchedRegistry ι).wp i (Registry.reconnectBackend id)
      (fun _ t => OnlyOf n id definition object true t) s := by
  simp only [Registry.reconnectBackend, Prog.bind_eq, Prog.perform_bind]
  refine wp_lookup_about hs fun handle t ht hobject _ => ?_
  exact wp_about hobject ht fun _ _ u hu _ _ => wp_connectBackend_about hu

/-- The program touches only this backend. -/
def KeepsTo (n id : String) (definition : BackendDef) (object : Nat) (reconnected : Bool) (i : ι)
    {α : Type} (p : Prog RegistryOp α) : Prop :=
  ∀ s, OnlyOf n id definition object reconnected s →
    (watchedRegistry ι).wp i p (fun _ t => OnlyOf n id definition object reconnected t) s

theorem keepsTo_ret {α : Type} (a : α) : KeepsTo n id definition object reconnected i (.ret a) :=
  fun _ hs => hs

theorem keepsTo_about {β α : Type} {o : RegistryOp β} {k : β → Prog RegistryOp α}
    (ho : o.About id object) (hk : ∀ b, KeepsTo n id definition object reconnected i (k b)) :
    KeepsTo n id definition object reconnected i (.op o k) :=
  fun _ hs => wp_about ho hs fun _ b t ht _ _ => hk b t ht

theorem keepsTo_connectBackend : KeepsTo n id definition object reconnected i
    (Registry.connectBackend id) := fun _ hs =>
  (watchedRegistry ι).wp_mono (wp_connectBackend_about hs) fun _ _ ht =>
    ⟨ht.known, ht.index, ht.touched, fun _ => ht.reconnected rfl⟩

theorem keepsTo_connectOnFirstCall {mode : ConnectionMode} :
    KeepsTo n id definition object reconnected i (Registry.connectOnFirstCall id mode) := by
  rw [Registry.connectOnFirstCall]
  split
  · simp only [Prog.bind_eq, Prog.perform_bind]
    refine keepsTo_about rfl fun found => ?_
    split
    · exact keepsTo_ret _
    · exact keepsTo_connectBackend
  · exact keepsTo_ret _

/-- A call of the name goes to this backend, or nowhere. -/
theorem keepsTo_routeCallWith {args : Option Value} {extra : Map} {timeoutSecs : Nat} :
    KeepsTo n id definition object reconnected i
      (Registry.routeCallWith n args extra timeoutSecs) := by
  intro s hs
  simp only [Registry.routeCallWith, Prog.bind_eq, Prog.perform_bind]
  intro e found t he
  obtain ⟨hexec, hnotes⟩ := noted_exec he
  obtain ⟨rfl, ht⟩ := Prod.mk.inj (Option.some.inj hexec)
  obtain ⟨t, notes⟩ := t
  obtain rfl : s.1 = t := ht
  rcases hget : s.1.index.get n with _ | routed
  · rw [hget] at hnotes
    obtain rfl : notes = s.2 := hnotes
    exact hs
  rw [hget] at hnotes
  -- an indexed tool of that name is this backend's
  obtain rfl : routed.backendId = id := hs.index _ (Entries.mem_of_get hget) rfl
  obtain ⟨handle, hhandle, hknown⟩ := Option.map_eq_some_iff.mp hs.known
  obtain ⟨-, hobject⟩ := Prod.mk.inj hknown
  have ht : OnlyOf n routed.backendId definition object reconnected (s.1, notes) := by
    subst hnotes
    exact ⟨hs.known, hs.index, List.forall_mem_cons.mpr ⟨rfl, hs.touched⟩, fun h =>
      List.mem_cons_of_mem _ (hs.reconnected h)⟩
  simp only [Option.map_some, hhandle]
  rcases applyArgPolicy handle.definition args with err | args
  · exact ht
  dsimp only
  rw [wp_bind]
  refine (watchedRegistry ι).wp_mono (keepsTo_connectOnFirstCall _ ht) fun x u hu => ?_
  rcases x with r | _
  · rcases r with err | _
    · exact hu
    rw [andThen]
    dsimp only
    split
    · refine wp_about hobject hu fun _ init v hv _ _ => ?_
      rcases init with err | init
      · exact hv
      refine wp_about hobject hv fun _ result w hw _ _ => ?_
      refine wp_about hobject hw fun _ closed x hx _ _ => ?_
      rcases closed with err | _ <;> exact hx
    · exact wp_about hobject hu fun _ _ v hv _ _ => hv
  · exact hu

end Touches

/-! ## The handler -/

section Handler

variable {i : ι} {params : ToolCallParams} {ctx : RequestCtx} {prettyText : Value → String}
  {id : String} {definition : BackendDef} {object : Nat} {reconnected : Bool}
  {s t : SessionWorld ι × List Touch}

/-- So far the handler has touched only this backend. -/
abbrev ServesOnly (n id : String) (definition : BackendDef) (object : Nat) (reconnected : Bool)
    (s : SessionWorld ι × List Touch) : Prop :=
  OnlyOf n id definition object reconnected (s.1.registry, s.2)

theorem watched_onPart : (watchedRegistry ι).OnPart (watchedSession ι) SessionOp.registry
    (fun s => (s.1.registry, s.2)) fun t s => ({ s.1 with registry := t.1 }, t.2) :=
  registry_onPart.noted fun _ _ _ _ => rfl

theorem wp_watched {α : Type} {p : Prog RegistryOp α}
    {Q : Outcome α → SessionWorld ι × List Touch → Prop} :
    (watchedSession ι).wp i (registryDo p) Q s ↔
      (watchedRegistry ι).wp i p (fun x t => Q x ({ s.1 with registry := t.1 }, t.2))
        (s.1.registry, s.2) :=
  wp_lift _ watched_onPart

/-- The program touches only this backend. -/
def ServesTo (n id : String) (definition : BackendDef) (object : Nat) (reconnected : Bool) (i : ι)
    {α : Type} (p : Prog SessionOp α) : Prop :=
  ∀ s, ServesOnly n id definition object reconnected s →
    (watchedSession ι).wp i p (fun _ t => ServesOnly n id definition object reconnected t) s

theorem servesTo_ret {α : Type} (a : α) :
    ServesTo params.name id definition object reconnected i (.ret a) := fun _ hs => hs

theorem servesTo_bind {α β : Type} {p : Prog SessionOp α} {f : α → Prog SessionOp β}
    (hp : ServesTo params.name id definition object reconnected i p)
    (hf : ∀ a, ServesTo params.name id definition object reconnected i (f a)) :
    ServesTo params.name id definition object reconnected i (p.bind f) := by
  intro s hs
  rw [wp_bind]
  refine (watchedSession ι).wp_mono (hp s hs) fun x t ht => ?_
  rcases x with a | _
  · exact hf a t ht
  · exact ht

/-- What keeps to the backend in the registry does so in the session. -/
theorem servesTo_registryDo {α : Type} {p : Prog RegistryOp α}
    (hp : KeepsTo params.name id definition object reconnected i p) :
    ServesTo params.name id definition object reconnected i (registryDo p) := fun _ hs =>
  wp_watched.mpr ((watchedRegistry ι).wp_mono (hp _ hs) fun _ _ h => h)

/-- `has_tool` for a name that is not indexed, and `is_healthy`. -/
theorem wp_hasTool_new {s : RegistryWorld ι × List Touch} {n : String}
    (hnew : s.1.index.get n = none) :
    (watchedRegistry ι).wp i (Registry.hasTool n) (fun x t => x = .done false ∧ t = s) s := by
  simp only [Registry.hasTool, Prog.bind_eq, Prog.perform_bind]
  intro e found t he
  obtain ⟨hexec, hnotes⟩ := noted_exec he
  obtain ⟨rfl, ht⟩ := Prod.mk.inj (Option.some.inj hexec)
  rw [hnew] at hnotes
  rw [hnew]
  exact ⟨rfl, Prod.ext ht.symm hnotes⟩

theorem wp_isHealthy {s : RegistryWorld ι × List Touch} :
    (watchedRegistry ι).wp i (Registry.isHealthy id)
      (fun x t => x = .done (s.1.healthy id) ∧ t = (s.1, .looked id :: s.2)) s := by
  simp only [Registry.isHealthy, Prog.bind_eq, Prog.perform_bind]
  intro e found t he
  obtain ⟨hexec, hnotes⟩ := noted_exec he
  obtain ⟨rfl, ht⟩ := Prod.mk.inj (Option.some.inj hexec)
  exact ⟨rfl, Prod.ext ht.symm hnotes⟩

/-- A name that is not indexed has its backend reconnected, if that is unhealthy. -/
theorem wp_reconnectOnCall (hnew : s.1.registry.index.get params.name = none)
    (hs : ServesOnly params.name id definition object false s) :
    (watchedSession ι).wp i (Session.reconnectOnCall params.name (some id)) (fun _ t =>
      ServesOnly params.name id definition object (!s.1.registry.healthy id) t) s := by
  simp only [Session.reconnectOnCall, Prog.bind_eq]
  rw [wp_bind, wp_watched]
  refine (watchedRegistry ι).wp_mono (wp_hasTool_new hnew) ?_
  rintro _ _ ⟨rfl, rfl⟩
  rw [andThen]
  simp only [Bool.false_eq_true, if_false]
  rw [wp_bind, wp_watched]
  refine (watchedRegistry ι).wp_mono wp_isHealthy ?_
  rintro _ _ ⟨rfl, rfl⟩
  have hlooked : OnlyOf params.name id definition object false
      (s.1.registry, .looked id :: s.2) :=
    ⟨hs.known, hs.index, List.forall_mem_cons.mpr ⟨rfl, hs.touched⟩, fun h => by cases h⟩
  rw [andThen]
  dsimp only
  -- a healthy backend is left alone
  split
  · rename_i hhealthy
    rw [hhealthy]
    exact hlooked
  · rename_i hhealthy
    rw [Bool.eq_false_iff.mpr hhealthy]
    rw [wp_bind, wp_watched]
    refine (watchedRegistry ι).wp_mono (wp_reconnectBackend_about hlooked) fun x t ht => ?_
    rcases x with r | _
    · -- whether the reconnection ends well or not, it has been made
      rcases r with err | _
      · exact ht
      · intro e _ u he
        obtain ⟨hexec, hnotes⟩ := noted_exec he
        obtain ⟨-, hu⟩ := Prod.mk.inj (Option.some.inj hexec)
        obtain ⟨u, notes⟩ := u
        obtain rfl : _ = u := hu
        obtain rfl : notes = t.2 := hnotes
        exact ht
    · exact ht

/-- A look at the backend, for something in its registration. -/
theorem servesTo_lookup {α : Type} {f : Option BackendHandle → α} :
    ServesTo params.name id definition object reconnected i
      (registryDo (.op (.lookup id) fun found => .ret (f found))) :=
  servesTo_registryDo (keepsTo_about rfl fun _ => keepsTo_ret _)

/-- **The handler keeps to the backend** that the name was given to, and reconnects it if it is
unhealthy. -/
theorem wp_serveCall (hnew : s.1.registry.index.get params.name = none)
    (hs : ServesOnly params.name id definition object false s) :
    (watchedSession ι).wp i (Session.serveCall prettyText params ctx (some id)) (fun _ t =>
      ServesOnly params.name id definition object (!s.1.registry.healthy id) t) s := by
  simp only [Session.serveCall, Prog.bind_eq]
  rw [wp_bind]
  refine (watchedSession ι).wp_mono (wp_reconnectOnCall hnew hs) fun x t ht => ?_
  -- the reconnection does not panic; what follows looks at the backend and routes the call
  rcases x with _ | _
  swap
  · exact ht
  refine servesTo_bind servesTo_lookup (fun forwards => ?_) t ht
  refine servesTo_bind (servesTo_registryDo keepsTo_routeCallWith) fun r => ?_
  -- a hint may be added to the error
  rcases r with err | value
  · refine servesTo_bind ?_ fun hint => servesTo_ret _
    rw [Session.hintFor]
    split
    · exact servesTo_lookup
    · exact servesTo_ret _
  · exact servesTo_ret _

end Handler

/-! ## The backend of the call -/

section Call

variable {listing : Nat → List ToolDescriptor} {i : ι} {params : ToolCallParams}
  {ctx : RequestCtx} {prettyText : Value → String} {s : SessionWorld ι}
  {b : String × BackendHandle}

/-- The name is given to the backend `b`, and the call of the tool is served by it alone. -/
structure GivenTo (i : ι) (prettyText : Value → String) (params : ToolCallParams)
    (ctx : RequestCtx) (s : SessionWorld ι) (b : String × BackendHandle) : Prop where
  /-- `backend_of_tool` is `b` -/
  found : ∀ es x t, (registryMachine ι).solo i (Registry.backendOfTool params.name) es s.registry =
    some (x, t) → x = .done (some b.1)
  /-- the metadata, the reconnection and the hint are those of `b` -/
  served : ∀ es x t, (sessionMachine ι).solo i (Session.callTool prettyText params ctx) es s =
    some (x, t) → ∃ es', es' <:+ es ∧ (sessionMachine ι).solo i
      (Session.serveCall prettyText params ctx (some b.1)) es' s = some (x, t)
  /-- no other backend is touched -/
  only : ∀ es x t notes, (watchedSession ι).solo i (Session.callTool prettyText params ctx) es
    (s, []) = some (x, t, notes) → ∀ touch ∈ notes, touch.Of b.1 b.2.object
  /-- an unhealthy `b` is connected -/
  reconnected : ∀ es x t notes, (watchedSession ι).solo i (Session.callTool prettyText params ctx)
    es (s, []) = some (x, t, notes) → s.registry.healthy b.1 = false →
      .connected b.2.object ∈ notes

/-- A run of `tools/call` for a name that is not indexed. -/
theorem solo_callTool_new (hnew : s.registry.index.get params.name = none)
    {es : List RegistryChoice} {r : Outcome Handled × SessionWorld ι}
    (h : (sessionMachine ι).solo i (Session.callTool prettyText params ctx) es s = some r) :
    ∃ e₁ e₂ es' backends, es = e₁ :: e₂ :: es' ∧
      e₂.arrange s.registry.backends = some backends ∧
      (sessionMachine ι).solo i (Session.serveCall prettyText params ctx ((backends.find? fun b =>
        Registry.inNamespace params.name b.2.definition.toolNamespace).map Prod.fst)) es' s =
          some r := by
  obtain ⟨e₁, es, found, s₁, rfl, he, h⟩ := (sessionMachine ι).solo_op h
  obtain ⟨rfl, rfl⟩ := Prod.mk.inj (Option.some.inj he)
  rw [hnew] at h
  obtain ⟨e₂, es, backends, s₂, rfl, he, h⟩ := (sessionMachine ι).solo_op h
  obtain ⟨⟨_, _⟩, he, heq⟩ := Option.map_eq_some_iff.mp he
  obtain ⟨_, harrange, hback⟩ := Option.map_eq_some_iff.mp he
  obtain ⟨rfl, rfl⟩ := Prod.mk.inj hback
  obtain ⟨rfl, rfl⟩ := Prod.mk.inj heq
  exact ⟨e₁, e₂, es, _, rfl, harrange, h⟩

/-- The handler with the notes, when `b` alone can be found. -/
theorem wp_callTool_sole (hkeys : s.registry.backends.keys.Nodup)
    (hnew : s.registry.index.get params.name = none) (hb : b ∈ s.registry.backends)
    (hbegins : Registry.inNamespace params.name b.2.definition.toolNamespace = true)
    (hsole : SoleNamespace s.registry params.name b) :
    (watchedSession ι).wp i (Session.callTool prettyText params ctx) (fun _ t =>
      ServesOnly params.name b.1 b.2.definition b.2.object (!s.registry.healthy b.1) t)
      (s, []) := by
  rw [Session.callTool_eq, wp_bind, wp_watched]
  simp only [Registry.backendOfTool, Prog.bind_eq, Prog.perform_bind]
  intro e₁ found s₁ he
  obtain ⟨hexec, hnotes⟩ := noted_exec he
  obtain ⟨rfl, hs₁⟩ := Prod.mk.inj (Option.some.inj hexec)
  rw [hnew]
  intro e₂ backends s₂ he
  obtain ⟨hexec, hnotes'⟩ := noted_exec he
  obtain ⟨_, harrange, heq⟩ := Option.map_eq_some_iff.mp hexec
  obtain ⟨rfl, hs₂⟩ := Prod.mk.inj heq
  obtain rfl : s₂ = (s.registry, []) :=
    Prod.ext (hs₂.symm.trans hs₁.symm) (hnotes'.trans hnotes)
  rw [← hs₁] at harrange
  rw [wp_ret, hsole.find (arrange_perm hkeys harrange) hb hbegins]
  refine wp_serveCall hnew ⟨known_of_mem hkeys hb, fun entry hentry hname => ?_, nofun, nofun⟩
  have hkey : params.name ∈ s.registry.index.keys := hname ▸ List.mem_map_of_mem hentry
  rw [← Entries.containsKey_iff_mem_keys, Entries.containsKey, hnew] at hkey
  cases hkey

/-- **A name that is not indexed is given to the backend that would expose it**, in every order of
the backends and by the whole of `tools/call`, exactly when no other namespace begins it. Where
several namespaces begin the name, the session takes the first backend that it comes across in a
hash map, and it may be one that does not have the tool. -/
theorem givenTo_iff (hkeys : s.registry.backends.keys.Nodup)
    (hnew : s.registry.index.get params.name = none) (hb : b ∈ s.registry.backends)
    (hns : b.2.definition.toolNamespace.isSome = true) (hexposes : Exposes listing b params.name) :
    GivenTo i prettyText params ctx s b ↔ SoleNamespace s.registry params.name b := by
  refine ⟨fun h => (backendOfTool_iff hkeys hnew hb hns hexposes).mp h.found, fun hsole => ?_⟩
  have hbegins := hexposes.inNamespace hns
  refine ⟨(backendOfTool_iff hkeys hnew hb hns hexposes).mpr hsole, fun es x t hrun => ?_,
    fun es x t notes hrun => ?_, fun es x t notes hrun hunhealthy => ?_⟩
  · -- the whole call starts with the search for the owner
    obtain ⟨e₁, e₂, es', backends, rfl, harrange, hrun⟩ := solo_callTool_new hnew hrun
    rw [hsole.find (arrange_perm hkeys harrange) hb hbegins] at hrun
    exact ⟨es', ⟨[e₁, e₂], rfl⟩, hrun⟩
  · exact ((watchedSession ι).wp_solo (wp_callTool_sole hkeys hnew hb hbegins hsole) hrun).touched
  · have ht := (watchedSession ι).wp_solo (wp_callTool_sole hkeys hnew hb hbegins hsole) hrun
    refine ht.reconnected ?_
    rw [hunhealthy]
    rfl

end Call

/-! ### Nested namespaces -/

/-- A backend whose tools are exposed in a namespace. -/
def namespacedBackend (id toolNamespace : String) (object : Nat) : String × BackendHandle :=
  (id, ⟨{ bareBackend id with toolNamespace := some toolNamespace }, object, false, none, 0⟩)

/-- A session with these backends, none of them connected. -/
def sessionWith (backends : Entries BackendHandle) : SessionWorld Unit :=
  ⟨{ RegistryWorld.empty Unit with backends := backends }, true, 0⟩

/-- Every backend has the tool `t`. -/
def oneTool : Nat → List ToolDescriptor := fun _ => [⟨"t", "", .null⟩]

/-- A call without arguments. -/
def plainCall (name : String) : ToolCallParams := ⟨name, none, none, none, none⟩

/-- A name is given to the backend of its namespace, where the namespace of the other one does not
begin it. -/
theorem givenTo_own_namespace :
    GivenTo () (fun _ => "") (plainCall "a.t") ⟨none⟩
      (sessionWith [namespacedBackend "y" "b" 1, namespacedBackend "x" "a" 0])
      (namespacedBackend "x" "a" 0) := by
  have hmem : namespacedBackend "x" "a" 0 ∈
      [namespacedBackend "y" "b" 1, namespacedBackend "x" "a" 0] :=
    List.mem_cons_of_mem _ List.mem_cons_self
  refine (@givenTo_iff Unit oneTool () (plainCall "a.t") ⟨none⟩ (fun _ => "")
    (sessionWith [namespacedBackend "y" "b" 1, namespacedBackend "x" "a" 0])
    (namespacedBackend "x" "a" 0) (by decide) rfl hmem rfl List.mem_cons_self).mpr
      fun b' hb' hbegins => ?_
  rcases List.mem_cons.mp hb' with rfl | hb'
  · -- no name begins both with `a.` and with `b.`
    exact absurd hbegins (by decide)
  · exact List.mem_singleton.mp hb'

/-- The namespace of `x` begins the name of a tool that only `y` would expose, and the call is
given to `x`. -/
theorem nested_namespaces_mislead :
    let s := sessionWith [namespacedBackend "x" "a" 0, namespacedBackend "y" "a.b" 1]
    let b := namespacedBackend "y" "a.b" 1
    s.registry.index.get "a.b.t" = none ∧ b ∈ s.registry.backends ∧ Exposes oneTool b "a.b.t" ∧
      (∀ b' ∈ s.registry.backends, Exposes oneTool b' "a.b.t" → b' = b) ∧
      ¬ GivenTo () (fun _ => "") (plainCall "a.b.t") ⟨none⟩ s b := by
  refine ⟨rfl, List.mem_cons_of_mem _ List.mem_cons_self, List.mem_cons_self,
    fun b' hb' hexposes => ?_, fun h => ?_⟩
  · rcases List.mem_cons.mp hb' with rfl | hb'
    · rw [Exposes] at hexposes
      exact absurd hexposes (by decide)
    · exact List.mem_singleton.mp hb'
  · have hfound := h.found [{}, {}] (.done (some "x")) _ rfl
    exact absurd hfound (by decide)

end HeadlessMcp
