import HeadlessMcp.Async.Rely
import HeadlessMcp.Registry.World

/-!
# What reaches a backend

Any number of tasks register, connect, reconnect, refresh, check and route at once.
Whatever they do and whatever the backends list, the tool index agrees with the
definitions of the backends (`Consistent`): an entry sits under the exposed name of
its downstream tool, and that tool passes the filters. So every `tools/call` that
reaches a backend is one its definition permits (`Permitted`).

The definitions themselves never change once a backend is registered, which is what
the tasks rely on between two steps (`Extends`).
-/

namespace HeadlessMcp

open Async

/-! ## The calls -/

/-- A call on the registry that may run concurrently with others. -/
inductive RegistryCall : Type where
  | register (definition : BackendDef) (object : Nat) : RegistryCall
  | connectAll : RegistryCall
  | connect (id : String) : RegistryCall
  | reconnect (id : String) : RegistryCall
  | refreshTools : RegistryCall
  | runHealthChecks : RegistryCall
  | route (exposedName : String) (args : Option Value) (extra : Map) (timeoutSecs : Nat) :
      RegistryCall

/-- What a call returns. -/
inductive RegistryAnswer : Type where
  | done : BackendResult Unit → RegistryAnswer
  | results : List (String × BackendResult Unit) → RegistryAnswer
  | checked : RegistryAnswer
  | value : BackendResult Value → RegistryAnswer

/-- One call as a task. -/
def RegistryCall.run : RegistryCall → Prog RegistryOp RegistryAnswer
  | register definition object => do .ret (.done (← Registry.register definition object))
  | connectAll => do .ret (.results (← Registry.connectAll))
  | connect id => do .ret (.done (← Registry.connectBackend id))
  | reconnect id => do .ret (.done (← Registry.reconnectBackend id))
  | refreshTools => do .ret (.done (← Registry.refreshTools))
  | runHealthChecks => do
    Registry.runHealthChecks
    .ret .checked
  | route exposedName args extra timeoutSecs => do
    .ret (.value (← Registry.routeCallWith exposedName args extra timeoutSecs))

/-! ## The invariant -/

section Invariant

variable {ι : Type}

/-- The part of a backend's registration that never changes. -/
def RegistryWorld.known (s : RegistryWorld ι) (id : String) : Option (BackendDef × Nat) :=
  (s.backends.get id).map fun h => (h.definition, h.object)

/-- Every backend is still registered as it was. -/
def Extends (s t : RegistryWorld ι) : Prop :=
  ∀ id d, s.known id = some d → t.known id = some d

/-- An index entry agrees with the definition of its backend. -/
structure Agrees (s : RegistryWorld ι) (entry : String × RoutedTool) : Prop where
  backend : ∃ definition object, s.known entry.2.backendId = some (definition, object) ∧
    PassesFilters definition.toolsAllow definition.toolsDeny entry.2.downstreamName ∧
    entry.1 = computeExposedName definition.toolNamespace entry.2.downstreamName
  exposedName : entry.2.exposedName = entry.1

/-- The tool index agrees with the definitions. -/
def Consistent (s : RegistryWorld ι) : Prop := ∀ entry ∈ s.index, Agrees s entry

/-- A forwarded `tools/call` is permitted: it was routed for a caller under the exposed
name of the downstream tool that it names, that tool passes the backend's filters, and
its arguments obey the backend's policy. -/
def Permitted (calls : ι → RegistryCall) (s : RegistryWorld ι) (r : Forwarded ι) : Prop :=
  ∃ exposedName args extra timeoutSecs tool definition id,
    calls r.caller = .route exposedName args extra timeoutSecs ∧
    s.known id = some (definition, r.object) ∧
    r.params.bind (·.get "name") = some (.string tool) ∧
    PassesFilters definition.toolsAllow definition.toolsDeny tool ∧
    exposedName = computeExposedName definition.toolNamespace tool ∧
    Obeys definition (r.params.bind (·.get "arguments"))

theorem Extends.refl (s : RegistryWorld ι) : Extends s s := fun _ _ h => h

theorem Extends.trans {s t u : RegistryWorld ι} (hst : Extends s t) (htu : Extends t u) :
    Extends s u := fun id d h => htu id d (hst id d h)

theorem Agrees.extends {s t : RegistryWorld ι} {entry : String × RoutedTool}
    (h : Agrees s entry) (hst : Extends s t) : Agrees t entry := by
  obtain ⟨⟨definition, object, hknown, hpasses, hname⟩, hexposed⟩ := h
  exact ⟨⟨definition, object, hst _ _ hknown, hpasses, hname⟩, hexposed⟩

theorem Permitted.extends {calls : ι → RegistryCall} {s t : RegistryWorld ι} {r : Forwarded ι}
    (h : Permitted calls s r) (hst : Extends s t) : Permitted calls t r := by
  obtain ⟨exposedName, args, extra, timeoutSecs, tool, definition, id, hcall, hknown, hrest⟩ := h
  exact ⟨exposedName, args, extra, timeoutSecs, tool, definition, id, hcall, hst _ _ hknown,
    hrest⟩

/-! ## What the operations keep -/

/-- A change of a handle that keeps its definition and its object keeps what is known. -/
theorem known_modifyBackend {s : RegistryWorld ι} {id : String}
    {f : BackendHandle → BackendHandle} (hdef : ∀ h, (f h).definition = h.definition)
    (hobj : ∀ h, (f h).object = h.object) : (s.modifyBackend id f).known = s.known := by
  funext id'
  unfold RegistryWorld.modifyBackend RegistryWorld.known
  split
  · rename_i handle hget
    by_cases hid : id' = id
    · subst hid
      simp [hget, hdef, hobj]
    · simp [Entries.get_insert_ne hid]
  · rfl

theorem extends_modifyBackend {s : RegistryWorld ι} {id : String}
    {f : BackendHandle → BackendHandle} (hdef : ∀ h, (f h).definition = h.definition)
    (hobj : ∀ h, (f h).object = h.object) : Extends s (s.modifyBackend id f) := by
  intro id' d hd
  rw [known_modifyBackend hdef hobj]
  exact hd

/-- Registering a backend adds to what is known. -/
theorem extends_insertBackend {s : RegistryWorld ι} {handle : BackendHandle}
    (h : ¬ s.backends.containsKey handle.definition.id = true) :
    Extends s { s with backends := s.backends.insert handle.definition.id handle } := by
  intro id d hknown
  by_cases hid : id = handle.definition.id
  · subst hid
    obtain ⟨h', hget, -⟩ := Option.map_eq_some_iff.mp hknown
    exact absurd (by simp [Entries.containsKey, hget]) h
  · rw [RegistryWorld.known, Entries.get_insert_ne hid]
    exact hknown

/-- Indexing tools that pass the filters of a registered backend keeps the index
consistent, also when it stops at a name that is taken. -/
theorem indexTools_agrees {s : RegistryWorld ι} {id : String} {definition : BackendDef}
    {object : Nat} {hidden : List String} {tools : List ToolDescriptor}
    {index : Entries RoutedTool} (hknown : s.known id = some (definition, object))
    (htools : ∀ t ∈ tools, PassesFilters definition.toolsAllow definition.toolsDeny t.name)
    (hindex : ∀ entry ∈ index, Agrees s entry) :
    ∀ entry ∈ (indexTools id definition.toolNamespace hidden tools index).2,
      Agrees s entry := by
  induction tools generalizing index with
  | nil => exact hindex
  | cons tool tools ih =>
    rw [indexTools]
    -- at a name that is taken the loop ends, and the index keeps what it has
    split
    · exact hindex
    · refine ih (fun t ht => htools t (List.mem_cons_of_mem _ ht)) fun entry hentry => ?_
      -- the entry of this tool, or an older one
      rcases Entries.mem_insert hentry with rfl | hold
      · exact ⟨⟨definition, object, hknown, htools tool List.mem_cons_self, rfl⟩, rfl⟩
      · exact hindex entry hold

/-- What holds of every state of a hub that started with the backends of `base`: the index
is consistent, and every forwarded `tools/call` is permitted. -/
structure HubInv (calls : ι → RegistryCall) (base s : RegistryWorld ι) : Prop where
  index : Consistent s
  forwarded : ∀ r ∈ s.forwarded, r.method = "tools/call" → Permitted calls s r
  registered : Extends base s

/-- The invariant survives a step that shrinks the index and forwards nothing. -/
theorem HubInv.step {calls : ι → RegistryCall} {base s t : RegistryWorld ι}
    (hs : HubInv calls base s)
    (hst : Extends s t) (hindex : ∀ entry ∈ t.index, Agrees t entry)
    (hforwarded : t.forwarded = s.forwarded) : HubInv calls base t :=
  ⟨hindex, fun r hr hmethod => (hs.forwarded r (hforwarded ▸ hr) hmethod).extends hst,
    hs.registered.trans hst⟩

/-- An operation that neither indexes tools, nor forgets a backend, nor forwards a
request. -/
def RegistryOp.Harmless {β : Type} : RegistryOp β → Prop
  | .reindex _ _ _ _ | .removeBackend _ => False
  | .backend _ method => method.forwards = none
  | _ => True

variable {calls : ι → RegistryCall} {i : ι} {β : Type} {o : RegistryOp β} {e : RegistryChoice}
  {base s t : RegistryWorld ι} {b : β}

/-- A harmless operation changes the index at most by dropping entries, and what is
known at most by adding to it. -/
theorem exec_harmless (ho : o.Harmless)
    (h : (registryMachine ι).exec i β o e s = some (b, t)) :
    Extends s t ∧ (∀ entry ∈ t.index, entry ∈ s.index) ∧ t.forwarded = s.forwarded := by
  have modified (id : String) (f : BackendHandle → BackendHandle)
      (hdef : ∀ h, (f h).definition = h.definition) (hobj : ∀ h, (f h).object = h.object) :
      Extends s (s.modifyBackend id f) ∧
        (∀ entry ∈ (s.modifyBackend id f).index, entry ∈ s.index) ∧
        (s.modifyBackend id f).forwarded = s.forwarded := by
    rw [RegistryWorld.modifyBackend_index]
    exact ⟨extends_modifyBackend hdef hobj, fun _ h => h, RegistryWorld.modifyBackend_forwarded ..⟩
  have unchanged : Extends s s ∧ (∀ entry ∈ s.index, entry ∈ s.index) ∧
      s.forwarded = s.forwarded := ⟨Extends.refl s, fun _ h => h, rfl⟩
  cases o with
  | reindex id ns hidden tools => exact False.elim ho
  -- these two are not harmless; every other operation is gone through below
  | removeBackend id => exact False.elim ho
  | lookup id =>
    obtain ⟨-, rfl⟩ := Prod.mk.inj (Option.some.inj h)
    exact unchanged
  | entries =>
    obtain ⟨_, -, heq⟩ := Option.map_eq_some_iff.mp h
    obtain ⟨-, rfl⟩ := Prod.mk.inj heq
    exact unchanged
  | insertBackend handle =>
    -- a backend with a known id is not registered again
    simp only [registryMachine, RegistryWorld.exec] at h
    split at h
    · obtain ⟨-, rfl⟩ := Prod.mk.inj (Option.some.inj h)
      exact unchanged
    · rename_i hnew
      obtain ⟨-, rfl⟩ := Prod.mk.inj (Option.some.inj h)
      exact ⟨extends_insertBackend hnew, fun _ h => h, rfl⟩
  | setCapabilities id capabilities =>
    obtain ⟨-, rfl⟩ := Prod.mk.inj (Option.some.inj h)
    exact modified id _ (fun _ => rfl) fun _ => rfl
  | setHealth id healthy =>
    obtain ⟨-, rfl⟩ := Prod.mk.inj (Option.some.inj h)
    exact modified id _ (fun _ => rfl) fun _ => rfl
  | countAttempt id =>
    obtain ⟨-, rfl⟩ := Prod.mk.inj (Option.some.inj h)
    exact modified id _ (fun _ => rfl) fun _ => rfl
  | dropTools id =>
    obtain ⟨-, rfl⟩ := Prod.mk.inj (Option.some.inj h)
    exact ⟨Extends.refl s, fun _ (h : _ ∈ s.index.retain (·.backendId ≠ id)) =>
      (Entries.mem_of_mem_retain h).1, rfl⟩
  | clearIndex =>
    obtain ⟨-, rfl⟩ := Prod.mk.inj (Option.some.inj h)
    exact ⟨Extends.refl s, fun _ h => absurd h List.not_mem_nil, rfl⟩
  | lookupTool exposedName =>
    obtain ⟨-, rfl⟩ := Prod.mk.inj (Option.some.inj h)
    exact unchanged
  | resolve exposedName =>
    obtain ⟨-, rfl⟩ := Prod.mk.inj (Option.some.inj h)
    exact unchanged
  | resolveAll =>
    obtain ⟨-, rfl⟩ := Prod.mk.inj (Option.some.inj h)
    exact unchanged
  | sleep milliseconds =>
    obtain ⟨-, rfl⟩ := Prod.mk.inj (Option.some.inj h)
    exact unchanged
  | backend object method =>
    obtain ⟨-, rfl⟩ := Prod.mk.inj (Option.some.inj h)
    have hnone : method.forwards = none := ho
    rw [RegistryWorld.record, hnone]
    exact unchanged

/-- Harmless operations keep the invariant. -/
theorem HubInv.harmless (hs : HubInv calls base s) (ho : o.Harmless)
    (h : (registryMachine ι).exec i β o e s = some (b, t)) : HubInv calls base t ∧ Extends s t := by
  obtain ⟨hst, hindex, hforwarded⟩ := exec_harmless ho h
  exact ⟨hs.step hst (fun entry hentry => (hs.index entry (hindex entry hentry)).extends hst)
    hforwarded, hst⟩

/-- Indexing the filtered tools of a registered backend keeps the invariant. -/
theorem HubInv.reindex {id : String} {definition : BackendDef} {object : Nat}
    {tools : List ToolDescriptor} {b : BackendResult Unit} (hs : HubInv calls base s)
    (hknown : s.known id = some (definition, object))
    (h : (registryMachine ι).exec i _ (.reindex id definition.toolNamespace
      (hiddenArgs definition) (filterTools definition.toolsAllow definition.toolsDeny tools)) e s =
        some (b, t)) : HubInv calls base t ∧ Extends s t := by
  have hagrees : ∀ entry ∈ (reindexTools id definition.toolNamespace (hiddenArgs definition)
      (filterTools definition.toolsAllow definition.toolsDeny tools) s.index).2,
      Agrees s entry :=
    indexTools_agrees hknown (fun t ht => (mem_filterTools.mp ht).2)
      fun entry hentry => hs.index entry (Entries.mem_of_mem_retain hentry).1
  simp only [registryMachine, RegistryWorld.exec] at h
  rcases hre : reindexTools id definition.toolNamespace (hiddenArgs definition)
    (filterTools definition.toolsAllow definition.toolsDeny tools) s.index with ⟨r, index⟩
  rw [hre] at h hagrees
  -- the loop has stopped at a taken name, or the backend is marked healthy as well
  cases r with
  | error err =>
    obtain ⟨-, rfl⟩ := Prod.mk.inj (Option.some.inj h)
    have hst : Extends s { s with index := index } := fun _ _ h => h
    exact ⟨hs.step hst (fun entry hentry => (hagrees entry hentry).extends hst) rfl, hst⟩
  | ok u =>
    obtain ⟨-, rfl⟩ := Prod.mk.inj (Option.some.inj h)
    have hst : Extends s ({ s with index := index }.modifyBackend id fun h =>
        { h with health := true, reconnectAttempts := 0 }) := by
      have hindex : Extends s { s with index := index } := fun _ _ h => h
      refine hindex.trans ?_
      exact extends_modifyBackend (fun _ => rfl) fun _ => rfl
    refine ⟨hs.step hst (fun entry hentry => ?_) (RegistryWorld.modifyBackend_forwarded ..), hst⟩
    rw [RegistryWorld.modifyBackend_index] at hentry
    exact (hagrees entry hentry).extends hst

/-- A permitted request keeps the invariant. -/
theorem HubInv.record (i : ι) (object : Nat) (value : BackendResult Value) (method : McpOp β)
    (hs : HubInv calls base s)
    (hpermitted : ∀ name params, method.forwards = some (name, params) → name = "tools/call" →
      Permitted calls s ⟨i, object, name, params, value⟩) :
    HubInv calls base (s.record i object value method) ∧
      Extends s (s.record i object value method) := by
  -- a request that is not forwarded leaves no record
  rcases hforwards : method.forwards with _ | ⟨name, params⟩ <;>
    simp only [RegistryWorld.record, hforwards]
  · exact ⟨hs, Extends.refl s⟩
  · have hst : Extends s { s with forwarded := ⟨i, object, name, params, value⟩ :: s.forwarded } :=
      fun _ _ h => h
    refine ⟨⟨fun entry hentry => (hs.index entry hentry).extends hst, fun r hr hmethod => ?_,
      hs.registered.trans hst⟩, hst⟩
    -- the new record, and the older ones
    rcases List.mem_cons.mp hr with rfl | hr
    · exact (hpermitted name params hforwards hmethod).extends hst
    · exact (hs.forwarded r hr hmethod).extends hst

/-! ## The calls keep the invariant -/

/-- The discipline of the hub's tasks: the invariant holds throughout, and the
registered backends stay as they are. -/
def hubProtocol (calls : ι → RegistryCall) (base : RegistryWorld ι) :
    Protocol ι (RegistryWorld ι) where
  inv := HubInv calls base
  rely _ := Extends
  rely_refl _ := Extends.refl
  rely_trans _ _ _ _ := Extends.trans

section Walk

variable {α : Type}

/-- Safe under the discipline of the hub, whatever the environment does. -/
abbrev HubSafe (calls : ι → RegistryCall) (base : RegistryWorld ι) (i : ι) (p : Prog RegistryOp α)
    (Q : Outcome α → RegistryWorld ι → Prop) (s : RegistryWorld ι) : Prop :=
  (hubProtocol calls base).Safe (registryMachine ι) (fun _ _ _ _ _ => True) i p Q s

/-- The program keeps the discipline from every state, and what was known at its start
is known at its end. -/
abbrev HubKeeps (calls : ι → RegistryCall) (base : RegistryWorld ι) (i : ι)
    (p : Prog RegistryOp α) : Prop :=
  ∀ s, HubSafe calls base i p (fun _ t => Extends s t) s

/-- A harmless operation, then the rest. -/
theorem safe_harmless {k : β → Prog RegistryOp α} {Q : Outcome α → RegistryWorld ι → Prop}
    (ho : o.Harmless) (hk : ∀ b t, Extends s t → HubSafe calls base i (k b) Q t) :
    HubSafe calls base i (.op o k) Q s := by
  refine Protocol.safe_op fun s' hr hi e b t _ he => ?_
  obtain ⟨ht, hst⟩ := HubInv.harmless hi ho he
  exact ⟨⟨ht, fun _ _ => hst⟩, hk b t (hr.trans hst)⟩

theorem keeps_ret (a : α) : HubKeeps calls base i (.ret a) := fun _ _ hr _ => hr

theorem keeps_harmless {k : β → Prog RegistryOp α} (ho : o.Harmless)
    (hk : ∀ b, HubKeeps calls base i (k b)) : HubKeeps calls base i (.op o k) := fun _ =>
  safe_harmless ho fun b t hst =>
    Protocol.Safe.mono (hk b t) fun _ _ _ htu => hst.trans htu

/-- A program that keeps the discipline, then the rest. -/
theorem safe_bind {δ : Type} {p : Prog RegistryOp δ} {f : δ → Prog RegistryOp α}
    {Q : Outcome α → RegistryWorld ι → Prop} (hp : HubKeeps calls base i p)
    (hf : ∀ a t, Extends s t → HubSafe calls base i (f a) Q t)
    (hpanic : ∀ t, Extends s t → Q .panicked t) :
    HubSafe calls base i (p.bind f) Q s := by
  refine Protocol.Safe.bind (Protocol.Safe.mono (hp s) fun x t _ hst => ?_)
  cases x with
  | done a => exact hf a t hst
  | panicked => exact hpanic t hst

theorem keeps_bind {δ : Type} {p : Prog RegistryOp δ} {f : δ → Prog RegistryOp α}
    (hp : HubKeeps calls base i p) (hf : ∀ a, HubKeeps calls base i (f a)) :
    HubKeeps calls base i (p.bind f) := fun _ =>
  safe_bind hp (fun a t hst => Protocol.Safe.mono (hf a t) fun _ _ _ htu => hst.trans htu)
    fun _ hst => hst

/-- A look at the backends: what was found is known. -/
theorem safe_lookup {id : String} {k : Option BackendHandle → Prog RegistryOp α}
    {Q : Outcome α → RegistryWorld ι → Prop}
    (hk : ∀ found t, Extends s t → (∀ handle, found = some handle →
      t.known id = some (handle.definition, handle.object)) → HubSafe calls base i (k found) Q t) :
    HubSafe calls base i (.op (.lookup id) k) Q s := by
  refine Protocol.safe_op fun s' hr hi e b t _ he => ?_
  obtain ⟨rfl, rfl⟩ := Prod.mk.inj (Option.some.inj he)
  refine ⟨⟨hi, fun _ _ => Extends.refl s'⟩, hk _ s' hr fun handle hget => ?_⟩
  rw [RegistryWorld.known, hget]
  rfl

/-- `connect_backend` indexes what it looked up. -/
theorem keeps_connectBackend {id : String} :
    HubKeeps calls base i (Registry.connectBackend id) := by
  intro s
  simp only [Registry.connectBackend, Prog.bind_eq, Prog.perform_bind]
  refine safe_lookup fun found t hst hfound => ?_
  rcases found with _ | handle
  · exact fun _ hr _ => hst.trans hr
  -- the definition that was looked up is still in force when the tools are indexed
  have hknown := hfound handle rfl
  refine safe_harmless rfl fun init u htu => ?_
  rcases init with err | init
  · exact fun _ hr _ => (hst.trans htu).trans hr
  refine safe_harmless trivial fun _ v huv => ?_
  refine safe_harmless rfl fun tools w hvw => ?_
  have hsw := ((hst.trans htu).trans huv).trans hvw
  rcases tools with err | tools
  · exact fun _ hr _ => hsw.trans hr
  refine Protocol.safe_op fun w' hr hi e b x _ he => ?_
  have hknown' := hr _ _ (hvw _ _ (huv _ _ (htu _ _ hknown)))
  obtain ⟨hx, hext⟩ := HubInv.reindex hi hknown' he
  exact ⟨⟨hx, fun _ _ => hext⟩, fun _ hr' _ => ((hsw.trans hr).trans hext).trans hr'⟩

theorem keeps_connectEach {ids : List String} :
    HubKeeps calls base i (Registry.connectEach ids) := by
  induction ids with
  | nil => exact keeps_ret []
  | cons id ids ih =>
    exact keeps_bind keeps_connectBackend fun _ => keeps_bind ih fun _ => keeps_ret _

theorem keeps_reconnectBackend {id : String} :
    HubKeeps calls base i (Registry.reconnectBackend id) := by
  refine keeps_harmless trivial fun found => ?_
  rcases found with _ | handle
  · exact keeps_connectBackend
  · exact keeps_harmless rfl fun _ => keeps_connectBackend

theorem keeps_refreshTools : HubKeeps calls base i Registry.refreshTools := by
  simp only [Registry.refreshTools, Prog.bind_eq, Prog.perform_bind]
  refine keeps_harmless trivial fun backends => keeps_harmless trivial fun _ => ?_
  exact keeps_bind keeps_connectEach fun _ => keeps_ret _

theorem keeps_checkBackend {id : String} : HubKeeps calls base i (Registry.checkBackend id) := by
  have relist : HubKeeps calls base i ((Registry.connectBackend id).bind fun _ => .ret ()) :=
    keeps_bind keeps_connectBackend fun _ => keeps_ret ()
  simp only [Registry.checkBackend, Prog.bind_eq, Prog.perform_bind]
  refine keeps_harmless trivial fun found => ?_
  -- a connected backend is asked, a disconnected one connected again
  split
  · refine keeps_harmless trivial fun found => ?_
    rcases found with _ | handle
    · exact keeps_ret ()
    · refine keeps_harmless rfl fun health => ?_
      rcases health with err | _
      · exact keeps_harmless trivial keeps_ret
      · refine keeps_harmless rfl fun refresh => ?_
        -- the check may ask for a new listing
        split
        · exact relist
        · exact keeps_ret ()
  · exact keeps_harmless trivial fun attempt => keeps_harmless trivial fun _ => relist

theorem keeps_checkEach {ids : List String} : HubKeeps calls base i (Registry.checkEach ids) := by
  induction ids with
  | nil => exact keeps_ret ()
  | cons id ids ih => exact keeps_bind keeps_checkBackend fun _ => ih

/-- The request that a routed call goes out as. -/
theorem forwardCall_forwards {tool : String} {args : Option Value} {extra : Map}
    {timeoutSecs : Nat} :
    ∃ params : Value, (Registry.forwardCall tool args extra timeoutSecs).forwards =
        some ("tools/call", some params) ∧
      params.get "name" = some (.string tool) ∧
      params.get "arguments" = some (wireArguments args) := by
  unfold Registry.forwardCall
  split
  · exact ⟨_, rfl, rfl, rfl⟩
  · refine ⟨_, rfl, ?_, ?_⟩
    · have hne : "name" ≠ "arguments" := by decide
      rw [Value.get, Entries.get_insert_ne hne, Entries.get_insert_self]
    · rw [Value.get, Entries.get_insert_self]

/-- What goes on the wire obeys the policy when the arguments do. -/
theorem Obeys.wire {definition : BackendDef} {args : Option Value} (h : Obeys definition args) :
    Obeys definition (some (wireArguments args)) := by
  have hcarried (key : String) : carried (some (wireArguments args)) key = carried args key := by
    cases args <;> rfl
  exact ⟨fun key v hv => (hcarried key).trans (h.pinned key v hv),
    fun key hkey hnot => (hcarried key).trans (h.denied key hkey hnot)⟩

/-- Forwarding a call that is permitted, then the rest. -/
theorem safe_forward {exposedName tool id : String} {args args' : Option Value} {extra : Map}
    {timeoutSecs object : Nat} {definition : BackendDef}
    {k : BackendResult Value → Prog RegistryOp α}
    (hcall : calls i = .route exposedName args extra timeoutSecs)
    (hknown : s.known id = some (definition, object))
    (hpasses : PassesFilters definition.toolsAllow definition.toolsDeny tool)
    (hname : exposedName = computeExposedName definition.toolNamespace tool)
    (hobeys : Obeys definition args') (hk : ∀ b, HubKeeps calls base i (k b)) :
    HubSafe calls base i
      (.op (.backend object (Registry.forwardCall tool args' extra timeoutSecs)) k)
      (fun _ t => Extends s t) s := by
  refine Protocol.safe_op fun s' hr hi e b t _ he => ?_
  obtain ⟨rfl, rfl⟩ := Prod.mk.inj (Option.some.inj he)
  obtain ⟨params, hforwards, htool, hargs⟩ :=
    @forwardCall_forwards tool args' extra timeoutSecs
  have hrecord := HubInv.record i object e.value
    -- the call is permitted, because it goes to the backend of the indexed name under its name there
    (Registry.forwardCall tool args' extra timeoutSecs) hi fun name params' h _ => ?_
  · refine ⟨⟨hrecord.1, fun _ _ => hrecord.2⟩, ?_⟩
    exact Protocol.Safe.mono (hk _ _) fun _ _ _ h => (hr.trans hrecord.2).trans h
  · rw [hforwards] at h
    obtain ⟨rfl, rfl⟩ := Prod.mk.inj (Option.some.inj h)
    refine ⟨exposedName, args, extra, timeoutSecs, tool, definition, id, hcall, hr _ _ hknown,
      htool, hpasses, hname, ?_⟩
    rw [Option.bind_some, hargs]
    exact hobeys.wire

/-- A lazy backend is connected. -/
theorem keeps_connectOnFirstCall {id : String} {mode : ConnectionMode} :
    HubKeeps calls base i (Registry.connectOnFirstCall id mode) := by
  simp only [Registry.connectOnFirstCall, Prog.bind_eq, Prog.perform_bind]
  split
  · refine keeps_harmless trivial fun found => ?_
    split
    · exact keeps_ret _
    · exact keeps_connectBackend
  · exact keeps_ret _

/-- `route_call_with`, for the caller that asked for it, forwards what is permitted. -/
theorem keeps_routeCallWith {exposedName : String} {args : Option Value} {extra : Map}
    {timeoutSecs : Nat} (hcall : calls i = .route exposedName args extra timeoutSecs) :
    HubKeeps calls base i (Registry.routeCallWith exposedName args extra timeoutSecs) := by
  intro s
  simp only [Registry.routeCallWith, Prog.bind_eq, Prog.perform_bind]
  refine Protocol.safe_op fun s' hr hi e b t _ he => ?_
  obtain ⟨rfl, rfl⟩ := Prod.mk.inj (Option.some.inj he)
  refine ⟨⟨hi, fun _ _ => Extends.refl s'⟩, ?_⟩
  refine Protocol.Safe.mono (Q := fun _ t => Extends s' t) ?_ fun _ _ _ h => hr.trans h
  rcases hentry : s'.index.get exposedName with _ | routed
  · exact keeps_ret _ s'
  rcases hget : s'.backends.get routed.backendId with _ | handle <;>
    simp only [Option.map_some, hget]
  · exact keeps_ret _ s'
  -- what the index and the backend say at the moment of the look-up
  obtain ⟨definition, object, hknown, hpasses, hname⟩ :=
    (hi.index _ (Entries.mem_of_get hentry)).backend
  obtain ⟨rfl, rfl⟩ : handle.definition = definition ∧ handle.object = object := by
    rw [RegistryWorld.known, hget] at hknown
    exact Prod.mk.inj (Option.some.inj hknown)
  rcases hpolicy : applyArgPolicy handle.definition args with err | args'
  · exact keeps_ret _ s'
  have hobeys := obeys_of_applyArgPolicy hpolicy
  refine safe_bind keeps_connectOnFirstCall (fun ready u hsu => ?_) fun _ h => h
  rcases ready with err | _
  · exact Protocol.Safe.mono (keeps_ret _ u) fun _ _ _ h => hsu.trans h
  refine Protocol.Safe.mono (Q := fun _ t => Extends u t) ?_ fun _ _ _ h => hsu.trans h
  have hknown' := hsu _ _ hknown
  dsimp only
  split
  · -- per-call: connect, call, disconnect
    refine safe_harmless rfl fun init v huv => ?_
    rcases init with err | init
    · exact Protocol.Safe.mono (keeps_ret _ v) fun _ _ _ h => huv.trans h
    refine Protocol.Safe.mono (safe_forward hcall (huv _ _ hknown') hpasses hname hobeys
      fun result => keeps_harmless rfl fun closed => ?_) fun _ _ _ h => huv.trans h
    rcases closed with err | _
    · exact keeps_ret _
    · exact keeps_ret _
  · exact safe_forward hcall hknown' hpasses hname hobeys keeps_ret

/-- Every call keeps the discipline. -/
theorem keeps_run (hcall : calls i = call) : HubKeeps calls base i call.run := by
  -- the calls of the hub, one by one
  cases call with
  | register definition object =>
    refine keeps_harmless trivial fun new => ?_
    cases new <;> exact keeps_ret _
  | connectAll =>
    refine keeps_harmless trivial fun backends => ?_
    exact keeps_bind keeps_connectEach fun _ => keeps_ret _
  | connect id => exact keeps_bind keeps_connectBackend fun _ => keeps_ret _
  | reconnect id => exact keeps_bind keeps_reconnectBackend fun _ => keeps_ret _
  | refreshTools => exact keeps_bind keeps_refreshTools fun _ => keeps_ret _
  | runHealthChecks =>
    refine keeps_harmless trivial fun backends => ?_
    exact keeps_bind keeps_checkEach fun _ => keeps_ret _
  | route exposedName args extra timeoutSecs =>
    exact keeps_bind (keeps_routeCallWith hcall) fun _ => keeps_ret _

end Walk

/-- The calls of a run as a pool, on a registry that may have backends already. -/
def hubFrom (base : RegistryWorld ι) (calls : ι → RegistryCall) :
    Pool RegistryOp ι (RegistryWorld ι) RegistryAnswer :=
  ⟨base, fun i => (calls i).run⟩

/-- The registry of a new hub. -/
def RegistryWorld.empty (ι : Type) : RegistryWorld ι := ⟨[], [], []⟩

/-- The calls of a run on a new hub. -/
def hub (calls : ι → RegistryCall) : Pool RegistryOp ι (RegistryWorld ι) RegistryAnswer :=
  hubFrom (RegistryWorld.empty ι) calls

variable [DecidableEq ι]

/-- Every reachable state of a hub has the invariant. -/
theorem hubInv_of_play {ls : List (ι × RegistryChoice)}
    {c : Pool RegistryOp ι (RegistryWorld ι) RegistryAnswer} (hindex : base.index = [])
    (hforwarded : base.forwarded = [])
    (hp : (registryMachine ι).play ls (hubFrom base calls) = some c) :
    HubInv calls base c.shared := by
  have hstart : Protocol.Holds (hubProtocol calls base) (registryMachine ι)
      (fun _ _ _ _ _ => True) (fun _ _ _ => True) (hubFrom base calls) := by
    refine ⟨⟨?_, ?_, Extends.refl base⟩, fun i => ?_⟩
    · rintro entry hentry
      rw [hubFrom, hindex] at hentry
      exact absurd hentry List.not_mem_nil
    · rintro r hr
      rw [hubFrom, hforwarded] at hr
      exact absurd hr List.not_mem_nil
    · exact Protocol.Safe.mono (keeps_run rfl base) fun _ _ _ _ => trivial
  exact (hstart.play ((registryMachine ι).meets_true ls _) hp).inv

/-- **Every call that reaches a backend is permitted.** Whatever tasks run on a hub, in
whatever order and whatever the backends answer, a `tools/call` that was forwarded to a
backend names a tool that passes its filters, was requested under the exposed name of that
tool, and carries arguments that obey the backend's policy. -/
theorem forwarded_calls_permitted {ls : List (ι × RegistryChoice)}
    {c : Pool RegistryOp ι (RegistryWorld ι) RegistryAnswer}
    (hp : (registryMachine ι).play ls (hub calls) = some c) :
    ∀ r ∈ c.shared.forwarded, r.method = "tools/call" → Permitted calls c.shared r :=
  (hubInv_of_play rfl rfl hp).forwarded

end Invariant

/-! ### A routed call -/

/-- A mailbox that is only read, and always under the same account. -/
def readOnly : BackendDef where
  id := "mail"
  transport := .stdio "mail-server" [] [] none
  toolNamespace := some "mail"
  connectionMode := .eager
  connectTimeoutSecs := 60
  callTimeoutSecs := 300
  toolsAllow := ["read", "send"]
  toolsDeny := ["send"]
  unavailableHint := none
  forwardRequestMeta := false
  pinArgs := [("account", .string "me")]
  denyArgs := ["folder"]

/-- Register the mailbox, connect it, and read from it. -/
def readOnlyCalls : Fin 3 → RegistryCall
  | 0 => .register readOnly 0
  | 1 => .connect "mail"
  | 2 => .route "mail.read" (some (.object [("account", .string "you")])) [] 300

/-- The backend lists two tools, one of them denied. -/
def readOnlySchedule : List (Fin 3 × RegistryChoice) :=
  [(0, {}), (1, {}), (1, { init := .ok ⟨"", ⟨"", ""⟩, ⟨none, none, none, none⟩⟩ }), (1, {}),
    (1, { tools := .ok [⟨"read", "", .null⟩, ⟨"send", "", .null⟩] }), (1, {}),
    (2, {}), (2, { value := .ok .null })]

/-- The caller's account is replaced by the pinned one, and the call is permitted. -/
theorem pinned_account_is_forwarded :
    ∃ c, (registryMachine (Fin 3)).play readOnlySchedule (hub readOnlyCalls) = some c ∧
      c.shared.forwarded.map (·.params) =
        [some (toolCallParams "read" (some (.object [("account", .string "me")])))] ∧
      ∀ r ∈ c.shared.forwarded, r.method = "tools/call" →
        Permitted readOnlyCalls c.shared r := by
  refine ⟨_, rfl, rfl, ?_⟩
  exact @forwarded_calls_permitted _ _ _ readOnlySchedule _ rfl

end HeadlessMcp
