import HeadlessMcp.Session.Ownership

/-!
# The first call of a tool

A lazy or per-call backend is not connected at startup, so its tools are not indexed. The first
call of one of them has to find the backend by its namespace, connect it, and find the tool
among what has been indexed by then. `firstCall_iff` says when that succeeds.
-/

namespace HeadlessMcp

open Async Machine

variable {ι : Type}

/-! ## Backends that answer -/

/-- The backend object connects and lists its tools; another one may fail to, but lists no tools
that are not its own. -/
def Answering (listing : Nat → List ToolDescriptor) (object : Nat) :
    Rule RegistryOp ι RegistryChoice (RegistryWorld ι)
  | _, _, .backend object' .connect, e, _ => object' = object → ∃ init, e.init = .ok init
  | _, _, .backend object' .listTools, e, _ =>
    (∀ tools, e.tools = .ok tools → tools = listing object') ∧
      (object' = object → ∃ tools, e.tools = .ok tools)
  | _, _, _, _, _ => True

/-- A rule for the registry of a session. -/
def onRegistry (C : Rule RegistryOp ι RegistryChoice (RegistryWorld ι)) :
    Rule SessionOp ι RegistryChoice (SessionWorld ι)
  | i, β, .registry o, e, s => C i β o e s.registry
  | _, _, _, _, _ => True

section Registry

variable {listing : Nat → List ToolDescriptor} {i : ι} {n id : String} {definition : BackendDef}
  {object : Nat} {s t : RegistryWorld ι}

theorem responds_answering : Responds (ι := ι) (Answering listing object) i object (listing object) := by
  refine ⟨fun _ _ h => h rfl, fun e _ ⟨hown, hlists⟩ => ?_⟩
  obtain ⟨tools, htools⟩ := hlists rfl
  rw [htools, hown tools htools]

theorem wp_reconnectBackend_relists {C : Rule RegistryOp ι RegistryChoice (RegistryWorld ι)}
    {tools : List ToolDescriptor} (hresponds : Responds C i object tools)
    (hknown : s.known id = some (definition, object)) :
    ((registryMachine ι).under C).wp i (Registry.reconnectBackend id)
      (fun x t => ∃ r, x = .done r ∧ Relists id definition tools s t r) s := by
  obtain ⟨handle, hget, hhandle⟩ := Option.map_eq_some_iff.mp hknown
  simp only [Registry.reconnectBackend, Prog.bind_eq, Prog.perform_bind]
  refine wp_under_op fun e found s₁ _ he => ?_
  obtain ⟨rfl, rfl⟩ := Prod.mk.inj (Option.some.inj he)
  rw [hget]
  refine wp_under_op fun e closed s₂ _ he => ?_
  obtain ⟨rfl, rfl⟩ := Prod.mk.inj (Option.some.inj he)
  exact wp_connectBackend_relists hresponds hknown

/-- What connecting a backend leaves behind that does not expose the name. Nothing was forwarded,
and the definitions are what they were. -/
structure Without (n : String) (s t : RegistryWorld ι) : Prop where
  known : t.known = s.known
  forwarded : t.forwarded = s.forwarded
  absent : t.index.get n = none

/-- Nothing is exposed under the name by the backend. -/
def NotExposed (listing : Nat → List ToolDescriptor) (n id : String) (s : RegistryWorld ι) : Prop :=
  ∀ definition object, s.known id = some (definition, object) →
    n ∉ (offered listing id definition object).keys

theorem Relists.without {tools : List ToolDescriptor} {r : BackendResult Unit}
    (h : Relists id definition tools s t r) (habsent : s.index.get n = none)
    (hnot : n ∉ (filterTools definition.toolsAllow definition.toolsDeny tools).map
      fun tool => computeExposedName definition.toolNamespace tool.name) : Without n s t := by
  refine ⟨h.known, h.forwarded, ?_⟩
  have hindex := congrArg Prod.snd h.reindexed
  rw [reindexTools, indexTools_eq.1] at hindex
  rw [← show _ = t.index from hindex, Entries.get_eq_none_iff, Entries.keys_append,
    List.mem_append, not_or]
  -- not among the entries that stay, and not among the new ones
  constructor
  · intro hmem
    obtain ⟨entry, hentry, rfl⟩ := List.mem_map.mp hmem
    exact Entries.get_eq_none_iff.mp habsent
      (List.mem_map_of_mem (Entries.mem_of_mem_retain hentry).1)
  · intro hmem
    obtain ⟨_, hentry, rfl⟩ := List.mem_map.mp hmem
    obtain ⟨tool, htool, rfl⟩ := List.mem_map.mp hentry
    exact hnot (List.mem_map_of_mem (mem_of_mem_untaken htool))

/-- **Connecting another backend** does not bring the name. Whatever happens on the way there, at
most the tools of its own listing come into the index. -/
theorem wp_connectBackend_without (habsent : s.index.get n = none)
    (hnot : NotExposed listing n id s) :
    ((registryMachine ι).under (Answering listing object)).wp i (Registry.connectBackend id)
      (fun x t => (∃ r, x = .done r) ∧ Without n s t) s := by
  simp only [Registry.connectBackend, Prog.bind_eq, Prog.perform_bind]
  refine wp_under_op fun e found s₁ _ he => ?_
  obtain ⟨rfl, rfl⟩ := Prod.mk.inj (Option.some.inj he)
  -- not registered; then: not connected, no listing, and a listing to index
  rcases hget : s.backends.get id with _ | handle
  · exact ⟨⟨_, rfl⟩, rfl, rfl, habsent⟩
  have hknown : s.known id = some (handle.definition, handle.object) := by
    rw [RegistryWorld.known, hget]
    rfl
  refine wp_under_op fun e init s₂ _ he => ?_
  obtain ⟨rfl, rfl⟩ := Prod.mk.inj (Option.some.inj he)
  rcases RegistryChoice.answer e .connect with err | init
  · -- it is connected, so its capabilities are stored and its tools listed
    exact ⟨⟨_, rfl⟩, rfl, rfl, habsent⟩
  refine wp_under_op fun e _ s₃ _ he => ?_
  obtain ⟨-, rfl⟩ := Prod.mk.inj (Option.some.inj he)
  refine wp_under_op fun e listed s₄ hC he => ?_
  obtain ⟨rfl, rfl⟩ := Prod.mk.inj (Option.some.inj he)
  generalize hu : RegistryWorld.record _ i handle.object _ _ = u
  have hsame : u.known = s.known ∧ u.forwarded = s.forwarded ∧ u.index = s.index := by
    subst hu
    exact ⟨known_modifyBackend (fun _ => rfl) fun _ => rfl,
      RegistryWorld.modifyBackend_forwarded .., RegistryWorld.modifyBackend_index ..⟩
  obtain ⟨hknownU, hforwardedU, hindexU⟩ := hsame
  rcases htools : e.tools with err | tools
  · simp only [RegistryChoice.answer, htools]
    exact ⟨⟨_, rfl⟩, hknownU, hforwardedU, hindexU ▸ habsent⟩
  simp only [RegistryChoice.answer, htools]
  obtain rfl := hC.1 tools htools
  refine wp_mono _ (wp_reindex (hknownU ▸ hknown)) ?_
  rintro _ t ⟨r, rfl, ht⟩
  have hnot' := hnot _ _ hknown
  rw [keys_offered] at hnot'
  have hwithout := ht.without (hindexU ▸ habsent) hnot'
  exact ⟨⟨r, rfl⟩, hwithout.known.trans hknownU, hwithout.forwarded.trans hforwardedU,
    hwithout.absent⟩

theorem wp_reconnectBackend_without (habsent : s.index.get n = none)
    (hnot : NotExposed listing n id s) :
    ((registryMachine ι).under (Answering listing object)).wp i (Registry.reconnectBackend id)
      (fun x t => (∃ r, x = .done r) ∧ Without n s t) s := by
  simp only [Registry.reconnectBackend, Prog.bind_eq, Prog.perform_bind]
  refine wp_under_op fun e found s₁ _ he => ?_
  obtain ⟨rfl, rfl⟩ := Prod.mk.inj (Option.some.inj he)
  rcases s.backends.get id with _ | handle
  · exact wp_connectBackend_without habsent hnot
  · refine wp_under_op fun e closed s₂ _ he => ?_
    obtain ⟨rfl, rfl⟩ := Prod.mk.inj (Option.some.inj he)
    exact wp_connectBackend_without habsent hnot

/-! ## The route of a call -/

/-- The call is forwarded to the backend object, under the name that the tool has there. -/
def ForwardsTo (i : ι) (object : Nat) (tool : String) (before after : List (Forwarded ι)) : Prop :=
  ∃ params answer, after = ⟨i, object, "tools/call", some params, answer⟩ :: before ∧
    params.get "name" = some (.string tool)

variable {C : Rule RegistryOp ι RegistryChoice (RegistryWorld ι)} {args : Option Value}
  {extra : Map} {timeoutSecs : Nat} {routed : RoutedTool}

/-- A name that is not indexed goes nowhere. -/
theorem wp_routeCallWith_unknown (habsent : s.index.get n = none) :
    ((registryMachine ι).under C).wp i (Registry.routeCallWith n args extra timeoutSecs)
      (fun x t => (∃ r, x = .done r) ∧ t.forwarded = s.forwarded) s := by
  simp only [Registry.routeCallWith, Prog.bind_eq, Prog.perform_bind]
  refine wp_under_op fun e found t _ he => ?_
  obtain ⟨rfl, rfl⟩ := Prod.mk.inj (Option.some.inj he)
  rw [habsent]
  exact ⟨⟨_, rfl⟩, rfl⟩

/-- An indexed name whose backend is registered: what is left of the call. The rest is the
connection on the first call, and the call itself. -/
theorem wp_routeCallWith_known {Q : Outcome (BackendResult Value) → RegistryWorld ι → Prop}
    (hget : s.index.get n = some routed)
    (hknown : s.known routed.backendId = some (definition, object))
    (hrefused : ∀ err, applyArgPolicy definition args = .error err → Q (.done (.error err)) s)
    (hcall : ∀ args', applyArgPolicy definition args = .ok args' →
      ((registryMachine ι).under C).wp i (do
        match ← Registry.connectOnFirstCall routed.backendId definition.connectionMode with
        | .error e => .ret (.error e)
        | .ok () =>
          let call := Registry.forwardCall routed.downstreamName args' extra timeoutSecs
          if definition.connectionMode = .perCall then
            match ← .perform (.backend object .connect) with
            | .error e => .ret (.error e)
            | .ok _ =>
              let result ← .perform (.backend object call)
              match ← .perform (.backend object .disconnect) with
              | .error e => .ret (.error e)
              | .ok () => .ret result
          else .perform (.backend object call)) Q s) :
    ((registryMachine ι).under C).wp i (Registry.routeCallWith n args extra timeoutSecs) Q s := by
  obtain ⟨handle, hhandle, heq⟩ := Option.map_eq_some_iff.mp hknown
  obtain ⟨rfl, rfl⟩ := Prod.mk.inj heq
  simp only [Registry.routeCallWith, Prog.bind_eq, Prog.perform_bind]
  refine wp_under_op fun e found t _ he => ?_
  obtain ⟨rfl, rfl⟩ := Prod.mk.inj (Option.some.inj he)
  simp only [hget, Option.map_some, hhandle]
  -- the policy refuses the arguments, or passes on what is left of them
  rcases hpolicy : applyArgPolicy handle.definition args with err | args'
  · exact hrefused err hpolicy
  · exact hcall args' hpolicy

/-- A call whose arguments are refused goes nowhere. -/
theorem wp_routeCallWith_refused (hget : s.index.get n = some routed)
    (hknown : s.known routed.backendId = some (definition, object))
    (hrefused : ∀ args', applyArgPolicy definition args ≠ .ok args') :
    ((registryMachine ι).under C).wp i (Registry.routeCallWith n args extra timeoutSecs)
      (fun x t => (∃ r, x = .done r) ∧ t.forwarded = s.forwarded) s :=
  wp_routeCallWith_known hget hknown (fun _ _ => ⟨⟨_, rfl⟩, rfl⟩) fun args' h =>
    absurd h (hrefused args')

/-- A call to a lazy backend that still cannot be connected goes nowhere. It is connected once
more, and the same name collides again. -/
theorem wp_routeCallWith_collides {tools : List ToolDescriptor} (hresponds : Responds C i object tools)
    (hget : s.index.get n = some routed)
    (hknown : s.known routed.backendId = some (definition, object))
    (hmode : definition.connectionMode = .lazy) (hdown : s.healthy routed.backendId = false)
    (hcollides : (reindexTools routed.backendId definition.toolNamespace (hiddenArgs definition)
      (filterTools definition.toolsAllow definition.toolsDeny tools) s.index).1 ≠ .ok ()) :
    ((registryMachine ι).under C).wp i (Registry.routeCallWith n args extra timeoutSecs)
      (fun x t => (∃ r, x = .done r) ∧ t.forwarded = s.forwarded) s := by
  refine wp_routeCallWith_known hget hknown (fun _ _ => ⟨⟨_, rfl⟩, rfl⟩) fun args' _ => ?_
  simp only [Registry.connectOnFirstCall, if_pos hmode, Prog.bind_eq, Prog.perform_bind,
    Prog.op_bind]
  refine wp_under_op fun e found t _ he => ?_
  obtain ⟨rfl, rfl⟩ := Prod.mk.inj (Option.some.inj he)
  rw [RegistryWorld.healthy] at hdown
  simp only [hdown, Bool.false_eq_true, if_false]
  rw [wp_bind]
  refine wp_mono _ (wp_connectBackend_relists hresponds hknown) ?_
  rintro _ u ⟨r, rfl, hu⟩
  -- whether the connection fails or not, nothing has been forwarded
  rcases r with err | _
  · exact ⟨⟨_, rfl⟩, hu.forwarded⟩
  · exact absurd (congrArg Prod.fst hu.reindexed) hcollides

/-- A call to a backend that is connected, or is connected for this call, is forwarded. -/
theorem wp_routeCallWith_forwards {tools : List ToolDescriptor} {args' : Option Value}
    (hresponds : Responds C i object tools) (hget : s.index.get n = some routed)
    (hknown : s.known routed.backendId = some (definition, object))
    (hpolicy : applyArgPolicy definition args = .ok args')
    (hready : s.healthy routed.backendId = true ∨ definition.connectionMode = .perCall) :
    ((registryMachine ι).under C).wp i (Registry.routeCallWith n args extra timeoutSecs)
      (fun x t => (∃ r, x = .done r) ∧
        ForwardsTo i object routed.downstreamName s.forwarded t.forwarded) s := by
  refine wp_routeCallWith_known hget hknown (fun err h => ?_) fun args'' h => ?_
  · rw [hpolicy] at h
    cases h
  obtain rfl : args' = args'' := Except.ok.inj (hpolicy.symm.trans h)
  obtain ⟨params, hforwards, hname, -⟩ :=
    @forwardCall_forwards routed.downstreamName args' extra timeoutSecs
  have hfirst : ((registryMachine ι).under C).wp i
      (Registry.connectOnFirstCall routed.backendId definition.connectionMode)
      (fun x t => x = .done (.ok ()) ∧ t = s) s := by
    -- only a lazy backend that is unhealthy would be connected first
    rw [Registry.connectOnFirstCall]
    split
    · rename_i hlazy
      have hhealthy : s.healthy routed.backendId = true := by
        refine hready.resolve_right fun h => ?_
        rw [hlazy] at h
        cases h
      simp only [Prog.bind_eq, Prog.perform_bind]
      refine wp_under_op fun e found t _ he => ?_
      obtain ⟨rfl, rfl⟩ := Prod.mk.inj (Option.some.inj he)
      rw [RegistryWorld.healthy] at hhealthy
      rw [if_pos hhealthy]
      exact ⟨rfl, rfl⟩
    · exact ⟨rfl, rfl⟩
  rw [Prog.bind_eq, wp_bind]
  refine wp_mono _ hfirst ?_
  rintro _ s ⟨rfl, rfl⟩
  rw [andThen]
  dsimp only
  -- a per-call backend is connected for the call, any other one is called as it is
  split
  · simp only [Prog.bind_eq, Prog.perform_bind]
    refine wp_under_op fun e init t hC he => ?_
    obtain ⟨rfl, rfl⟩ := Prod.mk.inj (Option.some.inj he)
    obtain ⟨init, hinit⟩ := hresponds.connects _ _ hC
    simp only [RegistryChoice.answer, hinit]
    refine wp_under_op fun e result t _ he => ?_
    obtain ⟨rfl, rfl⟩ := Prod.mk.inj (Option.some.inj he)
    refine wp_under_op fun e' closed u _ he => ?_
    obtain ⟨rfl, rfl⟩ := Prod.mk.inj (Option.some.inj he)
    have hforwarded : ForwardsTo i object routed.downstreamName s.forwarded
        ((s.record i object e.value (Registry.forwardCall routed.downstreamName args' extra
          timeoutSecs)).forwarded) := by
      rw [RegistryWorld.record, hforwards]
      exact ⟨params, _, rfl, hname⟩
    rcases RegistryChoice.answer e' .disconnect with err | _ <;> exact ⟨⟨_, rfl⟩, hforwarded⟩
  · refine wp_under_op fun e result t _ he => ?_
    obtain ⟨rfl, rfl⟩ := Prod.mk.inj (Option.some.inj he)
    refine ⟨⟨_, rfl⟩, ?_⟩
    rw [RegistryWorld.record, hforwards]
    exact ⟨params, _, rfl, hname⟩

end Registry

/-! ## What has been indexed by then -/

section Relisted

variable {listing : Nat → List ToolDescriptor} {n id : String} {definition : BackendDef}
  {object : Nat} {s t : RegistryWorld ι} {tools : List ToolDescriptor} {r : BackendResult Unit}

/-- The tools of a backend that are indexed when it is connected: those before the first name
that is taken. -/
def newlyIndexed (definition : BackendDef) (s : RegistryWorld ι) (tools : List ToolDescriptor) :
    List ToolDescriptor :=
  untaken definition.toolNamespace s.index.keys
    (filterTools definition.toolsAllow definition.toolsDeny tools)

theorem Relists.first (h : Relists id definition tools s t r)
    (hown : ∀ entry ∈ s.index, entry.2.backendId ≠ id) :
    t.index = s.index ++ (newlyIndexed definition s tools).map
        (indexEntry id definition.toolNamespace (hiddenArgs definition)) ∧
      (r = .ok () ↔ newlyIndexed definition s tools =
        filterTools definition.toolsAllow definition.toolsDeny tools) := by
  have hretain : s.index.retain (·.backendId ≠ id) = s.index :=
    List.filter_eq_self.mpr fun entry hentry => decide_eq_true (hown entry hentry)
  have hre := h.reindexed
  rw [reindexTools, hretain] at hre
  obtain ⟨hindex, hok⟩ := @indexTools_eq id definition.toolNamespace (hiddenArgs definition)
    (filterTools definition.toolsAllow definition.toolsDeny tools) s.index
  rw [hre] at hindex hok
  exact ⟨hindex, hok⟩

/-- Listing the tools once more ends as the first time. -/
theorem Relists.again (h : Relists id definition tools s t r)
    (hown : ∀ entry ∈ s.index, entry.2.backendId ≠ id) :
    (reindexTools id definition.toolNamespace (hiddenArgs definition)
      (filterTools definition.toolsAllow definition.toolsDeny tools) t.index).1 = r := by
  have hretain : t.index.retain (·.backendId ≠ id) = s.index.retain (·.backendId ≠ id) := by
    rw [(h.first hown).1, Entries.retain, List.filter_append]
    refine (congrArg (_ ++ ·) (List.filter_eq_nil_iff.mpr fun entry hentry => ?_)).trans
      (List.append_nil _)
    obtain ⟨tool, -, rfl⟩ := List.mem_map.mp hentry
    simp [indexEntry]
  rw [reindexTools, hretain, ← reindexTools, h.reindexed]

/-- A name that is indexed only now is that of one of the backend's tools. -/
theorem Relists.routed (h : Relists id definition tools s t r)
    (hown : ∀ entry ∈ s.index, entry.2.backendId ≠ id) (habsent : s.index.get n = none)
    {routed : RoutedTool} (hget : t.index.get n = some routed) :
    routed.backendId = id ∧ ∃ tool ∈ newlyIndexed definition s tools,
      computeExposedName definition.toolNamespace tool.name = n ∧
      routed.downstreamName = tool.name := by
  have hmem := Entries.mem_of_get hget
  rw [(h.first hown).1] at hmem
  rcases List.mem_append.mp hmem with hold | hnew
  · exact absurd (List.mem_map_of_mem hold) (Entries.get_eq_none_iff.mp habsent)
  · obtain ⟨tool, htool, heq⟩ := List.mem_map.mp hnew
    obtain ⟨rfl, rfl⟩ := Prod.mk.inj heq
    exact ⟨rfl, tool, htool, rfl, rfl⟩

/-- And the name of every tool that is indexed now can be found. -/
theorem Relists.get (h : Relists id definition tools s t r)
    (hown : ∀ entry ∈ s.index, entry.2.backendId ≠ id)
    (hlisted : ∃ tool ∈ newlyIndexed definition s tools,
      computeExposedName definition.toolNamespace tool.name = n) :
    ∃ routed, t.index.get n = some routed := by
  obtain ⟨tool, htool, rfl⟩ := hlisted
  refine Option.ne_none_iff_exists'.mp fun hnone => Entries.get_eq_none_iff.mp hnone ?_
  rw [(h.first hown).1, Entries.keys_append]
  exact List.mem_append_right _ (List.mem_map_of_mem (List.mem_map_of_mem htool))

end Relisted

/-! ## The handler -/

section Handler

variable {listing : Nat → List ToolDescriptor} {i : ι} {params : ToolCallParams}
  {ctx : RequestCtx} {prettyText : Value → String} {id : String} {definition : BackendDef}
  {object : Nat} {s t : SessionWorld ι} {C : Rule RegistryOp ι RegistryChoice (RegistryWorld ι)}
  {owner : Option String}

theorem wp_underRegistry {α : Type} {p : Prog RegistryOp α}
    {Q : Outcome α → SessionWorld ι → Prop} :
    ((sessionMachine ι).under (onRegistry C)).wp i (registryDo p) Q s ↔
      ((registryMachine ι).under C).wp i p (fun x t => Q x { s with registry := t }) s.registry :=
  wp_lift _ (registry_onPart.under fun _ _ _ _ _ => Iff.rfl)

/-- A name that is not indexed has its backend reconnected, if that is unhealthy. The name has to
be missing from the index, or nothing is done. -/
theorem wp_reconnectOnCall_new {Q : Outcome Unit → SessionWorld ι → Prop}
    (habsent : s.registry.index.get params.name = none)
    (hhealthy : s.registry.healthy id = true → Q (.done ()) s)
    (hdown : s.registry.healthy id = false → ((registryMachine ι).under C).wp i
      (Registry.reconnectBackend id) (fun x t => (∃ r, x = .done r) ∧
        ∀ notified, Q (.done ()) ⟨t, s.initialized, notified⟩) s.registry) :
    ((sessionMachine ι).under (onRegistry C)).wp i
      (Session.reconnectOnCall params.name (some id)) Q s := by
  simp only [Session.reconnectOnCall, Prog.bind_eq]
  rw [wp_bind, wp_underRegistry]
  simp only [Registry.hasTool, Prog.bind_eq, Prog.perform_bind]
  refine wp_under_op fun e found u _ he => ?_
  obtain ⟨rfl, rfl⟩ := Prod.mk.inj (Option.some.inj he)
  rw [habsent, wp_ret, andThen]
  simp only [Option.isSome_none, Bool.false_eq_true, if_false]
  rw [wp_bind, wp_underRegistry]
  simp only [Registry.isHealthy, Prog.bind_eq, Prog.perform_bind]
  refine wp_under_op fun e found u _ he => ?_
  obtain ⟨rfl, rfl⟩ := Prod.mk.inj (Option.some.inj he)
  rw [wp_ret, andThen]
  -- a healthy backend is left alone
  split
  · rename_i h
    exact hhealthy h
  · rename_i h
    rw [wp_bind, wp_underRegistry]
    refine wp_mono _ (hdown (Bool.eq_false_iff.mpr h)) ?_
    rintro _ u ⟨⟨r, rfl⟩, hQ⟩
    -- a reconnection that ends well is notified
    rcases r with err | _
    · exact hQ _
    · refine wp_under_op fun e _ w _ he => ?_
      obtain ⟨-, rfl⟩ := Prod.mk.inj (Option.some.inj he)
      exact hQ _

/-- A look at the registration of a backend. -/
theorem wp_look {α : Type} {f : Option BackendHandle → α}
    {Q : Outcome α → SessionWorld ι → Prop} (hQ : ∀ a, Q (.done a) s) :
    ((sessionMachine ι).under (onRegistry C)).wp i
      (registryDo (.op (.lookup id) fun found => .ret (f found))) Q s := by
  rw [wp_underRegistry]
  refine wp_under_op fun e found u _ he => ?_
  obtain ⟨rfl, rfl⟩ := Prod.mk.inj (Option.some.inj he)
  exact hQ _

/-- What becomes of the call depends on the reconnection and the route alone. -/
theorem wp_serveCall_of {P : RegistryWorld ι → Prop} {G : List (Forwarded ι) → Prop}
    (hreconnect : ((sessionMachine ι).under (onRegistry C)).wp i
      (Session.reconnectOnCall params.name owner) (fun x t => x = .done () ∧ P t.registry) s)
    (hroute : ∀ u extra timeoutSecs, P u → ((registryMachine ι).under C).wp i
      (Registry.routeCallWith params.name params.arguments extra timeoutSecs)
      (fun x t => (∃ r, x = .done r) ∧ G t.forwarded) u) :
    ((sessionMachine ι).under (onRegistry C)).wp i (Session.serveCall prettyText params ctx owner)
      (fun _ t => G t.registry.forwarded) s := by
  have hlook {Q : Outcome Bool → SessionWorld ι → Prop} {u : SessionWorld ι}
      (hQ : ∀ a, Q (.done a) u) : ((sessionMachine ι).under (onRegistry C)).wp i
        (Session.forwardsMeta owner) Q u := by
    rcases owner with _ | id
    · exact hQ _
    · exact wp_look hQ
  simp only [Session.serveCall, Prog.bind_eq]
  rw [wp_bind]
  refine wp_mono _ hreconnect ?_
  rintro _ u ⟨rfl, hu⟩
  rw [andThen, wp_bind]
  refine hlook fun forwards => ?_
  rw [andThen, wp_bind, wp_underRegistry]
  refine wp_mono _ (hroute _ _ _ hu) ?_
  rintro _ w ⟨⟨r, rfl⟩, hw⟩
  -- the call has failed: a hint may be added to the error
  rcases r with err | value
  · rw [andThen, wp_bind]
    rcases owner with _ | id
    · exact hw
    · rw [Session.hintFor]
      split
      · exact wp_look fun _ => hw
      · exact hw
  · exact hw

/-- A call that was given to another backend, or to none, goes nowhere. -/
theorem wp_serveCall_other (habsent : s.registry.index.get params.name = none)
    (hnot : ∀ id, owner = some id → NotExposed listing params.name id s.registry) :
    ((sessionMachine ι).under (onRegistry (Answering listing object))).wp i
      (Session.serveCall prettyText params ctx owner)
      (fun _ t => t.registry.forwarded = s.registry.forwarded) s := by
  refine wp_serveCall_of (P := Without params.name s.registry)
    (G := fun forwarded => forwarded = s.registry.forwarded) ?_ fun u extra timeoutSecs hu => ?_
  · rcases owner with _ | id
    · exact ⟨rfl, rfl, rfl, habsent⟩
    · refine wp_reconnectOnCall_new habsent (fun _ => ⟨rfl, rfl, rfl, habsent⟩) fun _ => ?_
      refine wp_mono _ (wp_reconnectBackend_without habsent (hnot id rfl)) ?_
      exact fun x t ⟨hx, ht⟩ => ⟨hx, fun _ => ⟨rfl, ht⟩⟩
  · refine wp_mono _ (wp_routeCallWith_unknown hu.absent) ?_
    exact fun x t ⟨hx, ht⟩ => ⟨hx, ht.trans hu.forwarded⟩

end Handler

/-! ## The first call -/

/-- The backend is registered, is not connected at startup, and has not been connected since. -/
structure Dormant (s : RegistryWorld ι) (b : String × BackendHandle) : Prop where
  registered : b ∈ s.backends
  mode : b.2.definition.connectionMode ≠ .eager
  down : b.2.health = false
  unindexed : ∀ entry ∈ s.index, entry.2.backendId ≠ b.1

theorem Dormant.healthy {s : RegistryWorld ι} {b : String × BackendHandle} (h : Dormant s b)
    (hkeys : s.backends.keys.Nodup) : s.healthy b.1 = false := by
  rw [RegistryWorld.healthy, Entries.get_of_mem hkeys h.registered]
  exact h.down

/-- An operation that leaves this backend, and what is indexed of it, alone. -/
def RegistryOp.LeavesBackend (id : String) {β : Type} : RegistryOp β → Prop
  | .lookup _ | .entries | .backend _ _ => True
  | .setCapabilities id' _ | .reindex id' _ _ _ => id' ≠ id
  | _ => False

theorem get_modifyBackend_ne {s : RegistryWorld ι} {id id' : String}
    {f : BackendHandle → BackendHandle} (h : id' ≠ id) :
    (s.modifyBackend id f).backends.get id' = s.backends.get id' := by
  rw [RegistryWorld.modifyBackend]
  split
  · exact Entries.get_insert_ne h _ _
  · rfl

theorem exec_leavesBackend {i : ι} {β : Type} {o : RegistryOp β} {e : RegistryChoice} {r : β}
    {id : String} {s t : RegistryWorld ι} (ho : o.LeavesBackend id)
    (h : (registryMachine ι).exec i β o e s = some (r, t)) :
    t.backends.get id = s.backends.get id ∧
      ∀ entry ∈ t.index, entry ∈ s.index ∨ entry.2.backendId ≠ id := by
  cases o with
  | lookup id' =>
    obtain ⟨-, rfl⟩ := Prod.mk.inj (Option.some.inj h)
    exact ⟨rfl, fun _ => .inl⟩
  | entries =>
    obtain ⟨_, -, heq⟩ := Option.map_eq_some_iff.mp h
    obtain ⟨-, rfl⟩ := Prod.mk.inj heq
    exact ⟨rfl, fun _ => .inl⟩
  -- the capabilities of another backend
  | setCapabilities id' capabilities =>
    obtain ⟨-, rfl⟩ := Prod.mk.inj (Option.some.inj h)
    rw [RegistryWorld.modifyBackend_index]
    exact ⟨get_modifyBackend_ne (Ne.symm ho), fun _ => .inl⟩
  -- the tools of another backend
  | reindex id' toolNamespace hidden tools =>
    have hne : id' ≠ id := ho
    have hown : ∀ entry ∈ (reindexTools id' toolNamespace hidden tools s.index).2,
        entry ∈ s.index ∨ entry.2.backendId ≠ id := by
      intro entry hentry
      rcases own_indexTools entry hentry with hold | hown
      · exact .inl (Entries.mem_of_mem_retain hold).1
      · exact .inr (hown ▸ hne)
    simp only [registryMachine, RegistryWorld.exec] at h
    rcases hre : reindexTools id' toolNamespace hidden tools s.index with ⟨r, index⟩
    rw [hre] at h hown
    -- an index that is refused still holds what was added up to there
    cases r with
    | error err =>
      obtain ⟨-, rfl⟩ := Prod.mk.inj (Option.some.inj h)
      exact ⟨rfl, hown⟩
    | ok u =>
      obtain ⟨-, rfl⟩ := Prod.mk.inj (Option.some.inj h)
      rw [RegistryWorld.modifyBackend_index]
      exact ⟨get_modifyBackend_ne hne.symm, hown⟩
  | backend object method =>
    obtain ⟨-, rfl⟩ := Prod.mk.inj (Option.some.inj h)
    rw [RegistryWorld.record]
    split <;> exact ⟨rfl, fun _ => .inl⟩
  -- the remaining operations are not among those that leave it alone
  | insertBackend handle => exact ho.elim
  | removeBackend id' => exact ho.elim
  | setHealth id' healthy => exact ho.elim
  | countAttempt id' => exact ho.elim
  | dropTools id' => exact ho.elim
  | clearIndex => exact ho.elim
  | lookupTool exposedName => exact ho.elim
  | resolve exposedName => exact ho.elim
  | resolveAll => exact ho.elim
  | sleep milliseconds => exact ho.elim

theorem leavesBackend_connect {id id' : String} (h : id' ≠ id) :
    (Registry.connectBackend id').Uses (RegistryOp.LeavesBackend id) := by
  refine ⟨trivial, fun found => ?_⟩
  rcases found with _ | handle
  · trivial
  refine ⟨trivial, fun init => ?_⟩
  rcases init with err | init
  · trivial
  refine ⟨h, fun _ => ⟨trivial, fun tools => ?_⟩⟩
  rcases tools with err | tools
  · trivial
  · exact ⟨h, fun _ => trivial⟩

theorem leavesBackend_connectEach {id : String} {ids : List String} (h : id ∉ ids) :
    (Registry.connectEach ids).Uses (RegistryOp.LeavesBackend id) := by
  induction ids with
  | nil => trivial
  | cons id' ids ih =>
    obtain ⟨hne, hids⟩ := not_or.mp fun hor => h (List.mem_cons.mpr hor)
    refine Prog.Uses.bind (leavesBackend_connect (Ne.symm hne)) fun _ => ?_
    exact Prog.Uses.bind (ih hids) fun _ => trivial

/-- **`connect_all` leaves a lazy or per-call backend unconnected.** Only eager ones are in its
list, and what it indexes for those belongs to them. -/
theorem wp_connectAll_dormant {i : ι} {s : RegistryWorld ι} {b : String × BackendHandle}
    (hkeys : s.backends.keys.Nodup) (h : Dormant s b) :
    (registryMachine ι).wp i Registry.connectAll (fun _ t => Dormant t b) s := by
  simp only [Registry.connectAll, Prog.bind_eq, Prog.perform_bind]
  intro e _ t he
  obtain ⟨backends, harrange, heq⟩ := Option.map_eq_some_iff.mp he
  obtain ⟨rfl, rfl⟩ := Prod.mk.inj heq
  -- the backends that it connects have other ids
  have hids : b.1 ∉ (backends.filter (·.2.definition.connectionMode = .eager)).map Prod.fst := by
    intro hmem
    obtain ⟨b', hb', hid⟩ := List.mem_map.mp hmem
    obtain ⟨hb', hmode⟩ := List.mem_filter.mp hb'
    have hget := Entries.get_of_mem hkeys ((arrange_perm hkeys harrange).mem_iff.mp hb')
    rw [hid, Entries.get_of_mem hkeys h.registered] at hget
    refine h.mode ?_
    rw [Option.some.inj hget]
    exact of_decide_eq_true hmode
  refine wp_mono _ (wp_of_uses _ (J := fun t : RegistryWorld ι => t.backends.get b.1 = some b.2 ∧
    ∀ entry ∈ t.index, entry.2.backendId ≠ b.1) (fun δ o e t r u ho ht he => ?_)
      (leavesBackend_connectEach hids) ⟨Entries.get_of_mem hkeys h.registered, h.unindexed⟩) ?_
  · -- each step leaves it registered, and brings no tool of its own into the index
    obtain ⟨hget, hindex⟩ := exec_leavesBackend ho he
    refine ⟨hget.trans ht.1, fun entry hentry => ?_⟩
    rcases hindex entry hentry with hold | hnew
    · exact ht.2 entry hold
    · exact hnew
  · rintro _ t ⟨hget, hindex⟩
    exact ⟨Entries.mem_of_get hget, h.mode, h.down, hindex⟩

/-- The name can be found: the backend has a namespace, no other one begins the name, the
arguments are not refused, and no name of the backend's is taken (for a per-call backend, none
up to the tool's). -/
structure Callable (listing : Nat → List ToolDescriptor) (s : RegistryWorld ι)
    (params : ToolCallParams) (b : String × BackendHandle) : Prop where
  namespaced : b.2.definition.toolNamespace.isSome = true
  sole : SoleNamespace s params.name b
  permitted : ∃ args, applyArgPolicy b.2.definition params.arguments = .ok args
  listed : newlyIndexed b.2.definition s (listing b.2.object) =
      filterTools b.2.definition.toolsAllow b.2.definition.toolsDeny (listing b.2.object) ∨
    b.2.definition.connectionMode = .perCall ∧
      ∃ tool ∈ newlyIndexed b.2.definition s (listing b.2.object),
        computeExposedName b.2.definition.toolNamespace tool.name = params.name

section Serve

variable {listing : Nat → List ToolDescriptor} {i : ι} {params : ToolCallParams}
  {ctx : RequestCtx} {prettyText : Value → String} {tool : ToolDescriptor} {s : SessionWorld ι}
  {b : String × BackendHandle}

/-- The tools of the backend have been listed. Whether all of them have been indexed depends on
the names that were free. -/
def AfterListing (listing : Nat → List ToolDescriptor) (b : String × BackendHandle)
    (s u : RegistryWorld ι) : Prop :=
  ∃ r, Relists b.1 b.2.definition (listing b.2.object) s u r

/-- The reconnection lists the tools of the backend. -/
theorem wp_reconnectOnCall_dormant (hkeys : s.registry.backends.keys.Nodup)
    (hdormant : Dormant s.registry b) (habsent : s.registry.index.get params.name = none) :
    ((sessionMachine ι).under (onRegistry (Answering listing b.2.object))).wp i
      (Session.reconnectOnCall params.name (some b.1))
      (fun x t => x = .done () ∧ AfterListing listing b s.registry t.registry) s := by
  refine wp_reconnectOnCall_new habsent (fun h => ?_) fun _ => ?_
  · rw [hdormant.healthy hkeys] at h
    cases h
  · refine wp_mono _ (wp_reconnectBackend_relists responds_answering
      (known_of_mem hkeys hdormant.registered)) ?_
    rintro _ t ⟨r, rfl, ht⟩
    exact ⟨⟨r, rfl⟩, fun _ => ⟨rfl, r, ht⟩⟩

/-- **A name that can be found** has its call forwarded. The backend is connected on the way. -/
theorem wp_serveCall_callable (hkeys : s.registry.backends.keys.Nodup)
    (hdormant : Dormant s.registry b) (habsent : s.registry.index.get params.name = none)
    (htool : tool ∈ filterTools b.2.definition.toolsAllow b.2.definition.toolsDeny
      (listing b.2.object))
    (hname : computeExposedName b.2.definition.toolNamespace tool.name = params.name)
    (hcallable : Callable listing s.registry params b) :
    ((sessionMachine ι).under (onRegistry (Answering listing b.2.object))).wp i
      (Session.serveCall prettyText params ctx (some b.1)) (fun _ t =>
        ForwardsTo i b.2.object tool.name s.registry.forwarded t.registry.forwarded) s := by
  refine wp_serveCall_of (P := AfterListing listing b s.registry)
    (wp_reconnectOnCall_dormant hkeys hdormant habsent) fun u extra timeoutSecs ⟨r, hu⟩ => ?_
  -- the listing is indexed up to the first name that is taken
  obtain ⟨hindex, hok⟩ := hu.first hdormant.unindexed
  have hlisted : ∃ tool ∈ newlyIndexed b.2.definition s.registry (listing b.2.object),
      computeExposedName b.2.definition.toolNamespace tool.name = params.name := by
    rcases hcallable.listed with hall | ⟨-, hlisted⟩
    · exact ⟨tool, hall ▸ htool, hname⟩
    · exact hlisted
  obtain ⟨routed, hget⟩ := hu.get hdormant.unindexed hlisted
  obtain ⟨hid, tool', -, hname', hdownstream⟩ := hu.routed hdormant.unindexed habsent hget
  -- names are equal only for equal tools of one namespace
  have hsame : tool'.name = tool.name := by
    have h := congrArg (downstreamOf b.2.definition.toolNamespace) (hname'.trans hname.symm)
    rw [downstreamOf_computeExposedName, downstreamOf_computeExposedName] at h
    exact Option.some.inj h
  have hknown : u.known routed.backendId = some (b.2.definition, b.2.object) := by
    rw [hid, hu.known, known_of_mem hkeys hdormant.registered]
  obtain ⟨args, hargs⟩ := hcallable.permitted
  rw [← hu.forwarded, ← hsame, ← hdownstream]
  refine wp_routeCallWith_forwards responds_answering hget hknown hargs ?_
  -- a lazy backend is connected now; a per-call one will be for the call
  rcases hcallable.listed with hall | ⟨hmode, -⟩
  · refine .inl ?_
    rw [hid, hu.healthy]
    exact .inr ⟨hok.mpr hall, rfl⟩
  · exact .inr hmode

/-- **Arguments that are refused, or a name that is taken**, and the call goes nowhere. -/
theorem wp_serveCall_uncallable (hkeys : s.registry.backends.keys.Nodup)
    (hdormant : Dormant s.registry b) (habsent : s.registry.index.get params.name = none)
    (hnot : ¬ ((∃ args, applyArgPolicy b.2.definition params.arguments = .ok args) ∧
      (newlyIndexed b.2.definition s.registry (listing b.2.object) =
          filterTools b.2.definition.toolsAllow b.2.definition.toolsDeny (listing b.2.object) ∨
        b.2.definition.connectionMode = .perCall ∧
          ∃ tool ∈ newlyIndexed b.2.definition s.registry (listing b.2.object),
            computeExposedName b.2.definition.toolNamespace tool.name = params.name))) :
    ((sessionMachine ι).under (onRegistry (Answering listing b.2.object))).wp i
      (Session.serveCall prettyText params ctx (some b.1))
      (fun _ t => t.registry.forwarded = s.registry.forwarded) s := by
  refine wp_serveCall_of (P := AfterListing listing b s.registry)
    (G := fun forwarded => forwarded = s.registry.forwarded)
    (wp_reconnectOnCall_dormant hkeys hdormant habsent) fun u extra timeoutSecs ⟨r, hu⟩ => ?_
  rw [← hu.forwarded]
  -- the name has not come into the index, or it has
  rcases hget : u.index.get params.name with _ | routed
  · exact wp_routeCallWith_unknown hget
  obtain ⟨hid, tool, htool, hname, -⟩ := hu.routed hdormant.unindexed habsent hget
  have hknown : u.known routed.backendId = some (b.2.definition, b.2.object) := by
    rw [hid, hu.known, known_of_mem hkeys hdormant.registered]
  -- the policy accepts the arguments, so a name must be taken
  by_cases hpermitted : ∃ args, applyArgPolicy b.2.definition params.arguments = .ok args
  · obtain ⟨hall, hmode⟩ := not_or.mp fun h => hnot ⟨hpermitted, h⟩
    have hlazy : b.2.definition.connectionMode = .lazy := by
      rcases hmode' : b.2.definition.connectionMode with _ | _ | _
      · exact absurd hmode' hdormant.mode
      · rfl
      · exact absurd ⟨hmode', tool, htool, hname⟩ hmode
    have hr : r ≠ .ok () := fun h => hall ((hu.first hdormant.unindexed).2.mp h)
    refine wp_routeCallWith_collides responds_answering hget hknown hlazy ?_ ?_
    · -- it is still unhealthy when the call is routed
      refine Bool.eq_false_iff.mpr fun h => ?_
      rw [hid, hu.healthy, RegistryWorld.healthy,
        Entries.get_of_mem hkeys hdormant.registered] at h
      rcases h with h | h
      · rw [Option.any_some, hdormant.down] at h
        cases h
      · exact hr h.1
    · rw [hid, hu.again hdormant.unindexed]
      exact hr
  · -- the policy refuses the arguments
    exact wp_routeCallWith_refused hget hknown fun args h => hpermitted ⟨args, h⟩

end Serve

/-- `backend_of_tool` for a name that is not indexed. -/
theorem wp_backendOfTool_new {i : ι} {n : String} {s : RegistryWorld ι}
    {C : Rule RegistryOp ι RegistryChoice (RegistryWorld ι)} (habsent : s.index.get n = none) :
    ((registryMachine ι).under C).wp i (Registry.backendOfTool n) (fun x t => t = s ∧
      ∃ (e : RegistryChoice) (backends : Entries BackendHandle),
        e.arrange s.backends = some backends ∧ x = .done ((backends.find? fun b =>
          Registry.inNamespace n b.2.definition.toolNamespace).map Prod.fst)) s := by
  simp only [Registry.backendOfTool, Prog.bind_eq, Prog.perform_bind]
  refine wp_under_op fun e found t _ he => ?_
  obtain ⟨rfl, rfl⟩ := Prod.mk.inj (Option.some.inj he)
  rw [habsent]
  refine wp_under_op fun e backends t _ he => ?_
  obtain ⟨_, harrange, heq⟩ := Option.map_eq_some_iff.mp he
  obtain ⟨rfl, rfl⟩ := Prod.mk.inj heq
  exact ⟨rfl, e, _, harrange, rfl⟩

/-! ### Runs of the handler -/

section Runs

variable {listing : Nat → List ToolDescriptor} {i : ι} {params : ToolCallParams}
  {ctx : RequestCtx} {prettyText serdeText : Value → String} {v : Value} {object : Nat}
  {s : SessionWorld ι}

/-- A call that is accepted is handled. -/
theorem wp_handleToolsCall_accepted {σ : Type} {N : Machine SessionOp ι RegistryChoice σ}
    {Q : Outcome Handled → σ → Prop} {s : σ}
    (hinit : ∀ e b t, N.exec i _ .isInitialized e s = some (b, t) → b = true ∧ t = s)
    (hparams : v.toToolCallParams = some params)
    (h : N.wp i (Session.callTool prettyText params ctx) Q s) :
    N.wp i (Session.handleToolsCall prettyText serdeText (some v) ctx) Q s := by
  have hok : N.wp i (Session.requireInitialized ctx) (fun x t => x = .done (.ok ()) ∧ t = s) s := by
    simp only [Session.requireInitialized, Prog.bind_eq, Prog.perform_bind]
    -- the era is modern, or the session has been initialised
    split
    · exact ⟨rfl, rfl⟩
    · intro e b t he
      obtain ⟨rfl, rfl⟩ := hinit e b t he
      exact ⟨rfl, rfl⟩
  simp only [Session.handleToolsCall, Prog.bind_eq]
  rw [wp_bind]
  refine wp_mono _ hok ?_
  rintro _ s ⟨rfl, rfl⟩
  simp only [andThen, hparams]
  exact h

theorem answering_total (i : ι) (β : Type) (o : RegistryOp β) (s : RegistryWorld ι) :
    ∃ e r, ((registryMachine ι).under (Answering listing object)).exec i β o e s = some r := by
  have quiet (hC : Answering listing object i β o {} s) :
      ∃ e r, ((registryMachine ι).under (Answering listing object)).exec i β o e s = some r := by
    obtain ⟨r, hr⟩ := registry_total i β o s
    exact ⟨{}, r, under_exec.mpr ⟨hC, hr⟩⟩
  cases o with
  | backend object' method =>
    refine ⟨{ RegistryChoice.greeted with tools := .ok (listing object') }, _,
      under_exec.mpr ⟨?_, rfl⟩⟩
    cases method with
    | connect => exact fun _ => ⟨_, rfl⟩
    | listTools => exact ⟨fun _ h => (Except.ok.inj h).symm, fun _ => ⟨_, rfl⟩⟩
    | _ => trivial
  | _ => exact quiet trivial

theorem answering_session_total (i : ι) (β : Type) (o : SessionOp β) (s : SessionWorld ι) :
    ∃ e r, ((sessionMachine ι).under (onRegistry (Answering listing object))).exec i β o e s =
      some r := by
  cases o with
  | registry o =>
    obtain ⟨e, r, hr⟩ := @answering_total ι listing object i β o s.registry
    obtain ⟨hC, hr⟩ := under_exec.mp hr
    exact ⟨e, _, under_exec.mpr ⟨hC, congrArg (Option.map _) hr⟩⟩
  | _ => exact ⟨{}, _, under_exec.mpr ⟨trivial, rfl⟩⟩

/-- Every order of the backends is that of some run. -/
theorem exists_run {Q : Outcome Handled → SessionWorld ι → Prop} {e : RegistryChoice}
    {backends : Entries BackendHandle} (hinit : s.initialized = true)
    (hparams : v.toToolCallParams = some params)
    (habsent : s.registry.index.get params.name = none)
    (harrange : e.arrange s.registry.backends = some backends)
    (h : ((sessionMachine ι).under (onRegistry (Answering listing object))).wp i
      (Session.serveCall prettyText params ctx ((backends.find? fun b =>
        Registry.inNamespace params.name b.2.definition.toolNamespace).map Prod.fst)) Q s) :
    ∃ es x t, ((sessionMachine ι).under (onRegistry (Answering listing object))).solo i
      (Session.handleToolsCall prettyText serdeText (some v) ctx) es s = some (x, t) ∧ Q x t := by
  obtain ⟨es, x, t, hrun, hQ⟩ := exists_solo_of_wp (answering_session_total i) h
  -- the name is not in the index
  have hlookup : ((sessionMachine ι).under (onRegistry (Answering listing object))).exec i _
      (.registry (.lookupTool params.name)) {} s = some (none, s) :=
    under_exec.mpr ⟨trivial, by
      simp only [sessionMachine, SessionWorld.exec, RegistryWorld.exec, habsent, Option.map_some]⟩
  -- the backends come in the given order
  have hentries : ((sessionMachine ι).under (onRegistry (Answering listing object))).exec i _
      (.registry .entries) e s = some (backends, s) :=
    under_exec.mpr ⟨trivial, by
      simp only [sessionMachine, SessionWorld.exec, RegistryWorld.exec, harrange, Option.map_some]⟩
  have hfound : ((sessionMachine ι).under (onRegistry (Answering listing object))).solo i
      (registryDo (Registry.backendOfTool params.name)) [{}, e] s =
        some (.done ((backends.find? fun b =>
          Registry.inNamespace params.name b.2.definition.toolNamespace).map Prod.fst), s) := by
    simp only [registryDo, Registry.backendOfTool, Prog.bind_eq, Prog.perform_bind, Prog.lift,
      solo_op_cons, hlookup, hentries, Option.bind_some]
    rfl
  obtain ⟨es₀, haccepted⟩ : ∃ es₀, ((sessionMachine ι).under
      (onRegistry (Answering listing object))).solo i (Session.requireInitialized ctx) es₀ s =
        some (.done (.ok ()), s) := by
    simp only [Session.requireInitialized, Prog.bind_eq, Prog.perform_bind]
    -- the era is modern, or the session has been initialised
    split
    · exact ⟨[], rfl⟩
    · have hread : ((sessionMachine ι).under (onRegistry (Answering listing object))).exec i _
          .isInitialized {} s = some (true, s) := under_exec.mpr ⟨trivial, by
        simp only [sessionMachine, SessionWorld.exec, hinit]⟩
      exact ⟨[{}], by simp only [solo_op_cons, hread, Option.bind_some, if_true]; rfl⟩
  refine ⟨es₀ ++ ([{}, e] ++ es), x, t, ?_, hQ⟩
  simp only [Session.handleToolsCall, Prog.bind_eq]
  rw [solo_bind _ haccepted]
  simp only [hparams]
  rw [Session.callTool_eq, solo_bind _ hfound]
  exact hrun

end Runs

/-- The first call of the tool connects the backend and is forwarded to it, under the name that
the tool has there. -/
structure ReachesBackend (listing : Nat → List ToolDescriptor) (i : ι)
    (prettyText serdeText : Value → String) (v : Value) (ctx : RequestCtx) (s : SessionWorld ι)
    (b : String × BackendHandle) (tool : String) : Prop where
  connects : ∀ es x t notes, (watchedSession ι).solo i
    (Session.handleToolsCall prettyText serdeText (some v) ctx) es (s, []) = some (x, t, notes) →
      .connected b.2.object ∈ notes
  forwards : ∀ es x t, ((sessionMachine ι).under (onRegistry (Answering listing b.2.object))).solo i
    (Session.handleToolsCall prettyText serdeText (some v) ctx) es s = some (x, t) →
      ForwardsTo i b.2.object tool s.registry.forwarded t.registry.forwarded

section FirstCall

variable {listing : Nat → List ToolDescriptor} {i : ι} {params : ToolCallParams}
  {ctx : RequestCtx} {prettyText serdeText : Value → String} {v : Value} {tool : ToolDescriptor}
  {s : SessionWorld ι} {b b' : String × BackendHandle}

/-- Only this backend exposes the name. -/
theorem notExposed_of_ne (hkeys : s.registry.backends.keys.Nodup)
    (hother : ∀ b' ∈ s.registry.backends, Exposes listing b' params.name → b' = b)
    (hb' : b' ∈ s.registry.backends) (hne : b' ≠ b) :
    NotExposed listing params.name b'.1 s.registry := by
  intro definition object hknown hexposed
  rw [known_of_mem hkeys hb'] at hknown
  obtain ⟨rfl, rfl⟩ := Prod.mk.inj (Option.some.inj hknown)
  exact hne (hother b' hb' hexposed)

/-- Where the backend cannot be found by its namespace, some order finds another one or none. -/
theorem exists_other_owner (hkeys : s.registry.backends.keys.Nodup)
    (hother : ∀ b' ∈ s.registry.backends, Exposes listing b' params.name → b' = b)
    (hnot : ¬ (b.2.definition.toolNamespace.isSome = true ∧
      SoleNamespace s.registry params.name b)) :
    ∃ (e : RegistryChoice) (backends : Entries BackendHandle),
      e.arrange s.registry.backends = some backends ∧
      ∀ id, (backends.find? fun b =>
          Registry.inNamespace params.name b.2.definition.toolNamespace).map Prod.fst = some id →
        NotExposed listing params.name id s.registry := by
  -- either it has no namespace, so it is not found, or another one begins the name too
  by_cases hsole : SoleNamespace s.registry params.name b
  · refine ⟨{}, s.registry.backends, rfl, fun id hid => ?_⟩
    obtain ⟨b', hfind, rfl⟩ := Option.map_eq_some_iff.mp hid
    refine notExposed_of_ne hkeys hother (List.mem_of_find?_eq_some hfind) ?_
    rintro rfl
    have hbegins := List.find?_some hfind
    rcases hns : b'.2.definition.toolNamespace with _ | ns
    · rw [hns] at hbegins
      cases hbegins
    · exact hnot ⟨hns ▸ rfl, hsole⟩
  · obtain ⟨b', hb', hbegins, hne⟩ : ∃ b' ∈ s.registry.backends,
        Registry.inNamespace params.name b'.2.definition.toolNamespace = true ∧ b' ≠ b := by
      by_contra hnone
      refine hsole fun b' hb' hbegins => ?_
      by_contra hne
      exact hnone ⟨b', hb', hbegins, hne⟩
    obtain ⟨e, rest, harrange⟩ := exists_arrange_first hkeys hb'
    refine ⟨e, _, harrange, fun id hid => ?_⟩
    have hfind : ((b' :: rest).find? fun b =>
        Registry.inNamespace params.name b.2.definition.toolNamespace) = some b' :=
      List.find?_cons_of_pos hbegins
    rw [hfind] at hid
    obtain rfl := Option.some.inj hid
    exact notExposed_of_ne hkeys hother hb' hne

/-- **The first call of a tool of a lazy or per-call backend** connects the backend and is
forwarded to it, in every order of the backends, exactly when the name can be found. The order is
that of a hash map, so it is any. Without a namespace the session does not know which backend to
connect for a name that is not in the index. -/
theorem firstCall_iff (hkeys : s.registry.backends.keys.Nodup) (hdormant : Dormant s.registry b)
    (htool : tool ∈ filterTools b.2.definition.toolsAllow b.2.definition.toolsDeny
      (listing b.2.object))
    (hname : computeExposedName b.2.definition.toolNamespace tool.name = params.name)
    (habsent : s.registry.index.get params.name = none)
    (hother : ∀ b' ∈ s.registry.backends, Exposes listing b' params.name → b' = b)
    (hinit : s.initialized = true) (hparams : v.toToolCallParams = some params) :
    ReachesBackend listing i prettyText serdeText v ctx s b tool.name ↔
      Callable listing s.registry params b := by
  have hexposes : Exposes listing b params.name := by
    rw [Exposes, keys_offered, ← hname]
    exact List.mem_map_of_mem htool
  constructor
  · intro h
    -- a run that leaves the record as it was is no run that forwards
    have hnever : ¬ ∃ es x t, ((sessionMachine ι).under
        (onRegistry (Answering listing b.2.object))).solo i
          (Session.handleToolsCall prettyText serdeText (some v) ctx) es s = some (x, t) ∧
        t.registry.forwarded = s.registry.forwarded := by
      rintro ⟨es, x, t, hrun, hsame⟩
      obtain ⟨_, _, hforwarded, -⟩ := h.forwards es x t hrun
      rw [hsame] at hforwarded
      exact absurd (congrArg List.length hforwarded) (by simp)
    by_cases hfound : b.2.definition.toolNamespace.isSome = true ∧
      SoleNamespace s.registry params.name b
    · obtain ⟨hns, hsole⟩ := hfound
      by_contra hnot
      refine hnever (exists_run (e := {}) hinit hparams habsent rfl ?_)
      rw [hsole.find (List.Perm.refl _) hdormant.registered (hexposes.inNamespace hns)]
      exact wp_serveCall_uncallable hkeys hdormant habsent fun h =>
        hnot ⟨hns, hsole, h.1, h.2⟩
    · obtain ⟨e, backends, harrange, howner⟩ := exists_other_owner hkeys hother hfound
      exact (hnever (exists_run hinit hparams habsent harrange
        (wp_serveCall_other habsent howner))).elim
  · intro h
    have hbegins := hexposes.inNamespace h.namespaced
    refine ⟨fun es x t notes hrun => ?_, fun es x t hrun => ?_⟩
    · have hwatched : (watchedSession ι).wp i
          (Session.handleToolsCall prettyText serdeText (some v) ctx) (fun _ t =>
            ServesOnly params.name b.1 b.2.definition b.2.object (!s.registry.healthy b.1) t)
          (s, []) := by
        refine wp_handleToolsCall_accepted (fun e ready u he => ?_) hparams
          (wp_callTool_sole hkeys habsent hdormant.registered hbegins h.sole)
        obtain ⟨hexec, hnotes⟩ := noted_exec he
        obtain ⟨rfl, hu⟩ := Prod.mk.inj (Option.some.inj hexec)
        exact ⟨hinit, Prod.ext hu.symm hnotes⟩
      refine ((watchedSession ι).wp_solo hwatched hrun).reconnected ?_
      rw [hdormant.healthy hkeys]
      rfl
    · refine wp_solo (Q := fun _ t => ForwardsTo i b.2.object tool.name s.registry.forwarded
        t.registry.forwarded) _ (wp_handleToolsCall_accepted (fun e ready u he => ?_) hparams ?_) hrun
      · obtain ⟨rfl, rfl⟩ := Prod.mk.inj (Option.some.inj (under_exec.mp he).2)
        exact ⟨hinit, rfl⟩
      · rw [Session.callTool_eq, wp_bind, wp_underRegistry]
        refine wp_mono _ (wp_backendOfTool_new habsent) ?_
        rintro _ u ⟨rfl, e, backends, harrange, rfl⟩
        rw [andThen, h.sole.find (arrange_perm hkeys harrange) hdormant.registered hbegins]
        exact wp_serveCall_callable hkeys hdormant habsent htool hname h

end FirstCall

/-! ### With and without a namespace -/

/-- A lazy backend that has not been connected. -/
def lazyBackend (toolNamespace : Option String) : String × BackendHandle :=
  ("x", ⟨{ bareBackend "x" with toolNamespace := toolNamespace, connectionMode := .lazy },
    0, false, none, 0⟩)

theorem dormant_lazyBackend (toolNamespace : Option String) :
    Dormant (sessionWith [lazyBackend toolNamespace]).registry (lazyBackend toolNamespace) :=
  ⟨List.mem_cons_self, by simp [lazyBackend], rfl, nofun⟩

/-- The params of a call without arguments. -/
def callParams (name : String) : Value := .object [("name", .string name)]

/-- With a namespace the backend is found, after `connect_all` has connected the eager backend next
to it and left it alone. -/
theorem lazyBackend_reached :
    let s := sessionWith [lazyBackend (some "a"), namespacedBackend "y" "b" 1]
    ∃ es results t, (registryMachine Unit).solo () Registry.connectAll es s.registry =
        some (.done results, t) ∧ t.index.keys = ["b.t"] ∧
      ReachesBackend oneTool () (fun _ => "") (fun _ => "") (callParams "a.t") ⟨none⟩
        { s with registry := t } (lazyBackend (some "a")) "t" := by
  intro s
  obtain ⟨results, t, hrun, hindex, habsent, hfree, hbackends⟩ : ∃ results t,
      (registryMachine Unit).solo () Registry.connectAll
        [{}, {}, .greeted, {}, .offering ["t"], {}] s.registry = some (.done results, t) ∧
      t.index.keys = ["b.t"] ∧ t.index.get "a.t" = none ∧
      newlyIndexed (lazyBackend (some "a")).2.definition t (oneTool 0) = oneTool 0 ∧
      t.backends = [lazyBackend (some "a"), ("y", ⟨(namespacedBackend "y" "b" 1).2.definition, 1,
        true, some ⟨none, none, none, none⟩, 0⟩)] := ⟨_, _, rfl, rfl, rfl, rfl, rfl⟩
  refine ⟨_, results, t, hrun, hindex, ?_⟩
  have hdormant : Dormant t (lazyBackend (some "a")) :=
    wp_solo _ (wp_connectAll_dormant (by decide)
      ⟨List.mem_cons_self, by simp [lazyBackend], rfl, fun _ h => absurd h List.not_mem_nil⟩) hrun
  -- the other backend has a namespace of its own
  have hothers : ∀ b' ∈ t.backends, b' = lazyBackend (some "a") ∨ b' = ("y",
      ⟨(namespacedBackend "y" "b" 1).2.definition, 1, true, some ⟨none, none, none, none⟩, 0⟩) := by
    intro b' hb'
    rw [hbackends] at hb'
    exact (List.mem_cons.mp hb').imp_right List.mem_singleton.mp
  have hsole : SoleNamespace t "a.t" (lazyBackend (some "a")) := by
    intro b' hb' hbegins
    rcases hothers b' hb' with rfl | rfl
    · rfl
    · exact absurd hbegins (by decide)
  have hexposes : ∀ b' ∈ t.backends, Exposes oneTool b' "a.t" → b' = lazyBackend (some "a") := by
    intro b' hb' hb
    rcases hothers b' hb' with rfl | rfl
    · rfl
    · rw [Exposes] at hb
      exact absurd hb (by decide)
  have hkeys : t.backends.keys.Nodup := by
    rw [hbackends]
    decide
  exact (@firstCall_iff Unit oneTool () (plainCall "a.t") ⟨none⟩ (fun _ => "") (fun _ => "")
    (callParams "a.t") ⟨"t", "", .null⟩ { s with registry := t } (lazyBackend (some "a")) hkeys
    hdormant List.mem_cons_self rfl habsent hexposes rfl rfl).mpr ⟨rfl, hsole, ⟨_, rfl⟩, .inl hfree⟩

/-- Without one it is not: there is no such tool. -/
theorem bare_lazyBackend_missed :
    let s := sessionWith [lazyBackend none]
    Dormant s.registry (lazyBackend none) ∧ s.registry.index.get "t" = none ∧
      Exposes oneTool (lazyBackend none) "t" ∧ s.initialized = true ∧
      ¬ ReachesBackend oneTool () (fun _ => "") (fun _ => "") (callParams "t") ⟨none⟩ s
        (lazyBackend none) "t" := by
  refine ⟨dormant_lazyBackend none, rfl, List.mem_cons_self, rfl, fun h => ?_⟩
  have hrun : ∃ x, (sessionMachine Unit).solo () (Session.handleToolsCall (fun _ => "") (fun _ => "")
      (some (callParams "t")) ⟨none⟩) [{}, {}, {}, {}] (sessionWith [lazyBackend none]) =
        some (x, sessionWith [lazyBackend none]) := ⟨_, rfl⟩
  obtain ⟨x, hrun⟩ := hrun
  have hmeets : (sessionMachine Unit).SoloMeets (onRegistry (Answering oneTool 0)) ()
      (Session.handleToolsCall (fun _ => "") (fun _ => "") (some (callParams "t")) ⟨none⟩)
      [{}, {}, {}, {}] (sessionWith [lazyBackend none]) :=
    SoloMeets.cons trivial rfl (SoloMeets.cons trivial rfl (SoloMeets.cons trivial rfl
      (SoloMeets.cons trivial rfl trivial)))
  obtain ⟨_, _, hforwarded, -⟩ := h.forwards _ _ _ (solo_under hmeets hrun)
  cases hforwarded

end HeadlessMcp
