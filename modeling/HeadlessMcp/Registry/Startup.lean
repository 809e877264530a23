import HeadlessMcp.Registry.Relisting
import HeadlessMcp.Session.Events

/-!
# The order of the startup

`connect_all` visits the eager backends in the order of a hash map. When every backend connects
and lists its tools, the order does not show: without a collision the index has every tool that
is offered, and with one some backend fails, whichever comes first.

The index after a successful start is the concatenation of what the backends offer
(`startupIndex`), up to the order, and a start succeeds exactly when that has no name twice.
-/

namespace HeadlessMcp

open Async Machine

variable {ι : Type}

/-! ## What the backends offer -/

/-- Every backend connects and lists its tools. What a backend lists depends on the backend alone,
and not on when it is asked. -/
def Serving (listing : Nat → List ToolDescriptor) :
    Rule RegistryOp ι RegistryChoice (RegistryWorld ι)
  | _, _, .backend _ .connect, e, _ => ∃ init, e.init = .ok init
  | _, _, .backend object .listTools, e, _ => e.tools = .ok (listing object)
  | _, _, _, _, _ => True

/-- The index entries that a backend offers. -/
def offered (listing : Nat → List ToolDescriptor) (id : String) (definition : BackendDef)
    (object : Nat) : Entries RoutedTool :=
  (filterTools definition.toolsAllow definition.toolsDeny (listing object)).map
    (indexEntry id definition.toolNamespace (hiddenArgs definition))

/-- The backends that are connected at startup. -/
def eagerBackends (backends : Entries BackendHandle) : Entries BackendHandle :=
  backends.filter (·.2.definition.connectionMode = .eager)

/-- What all of them offer. It is a list, so a name that two backends offer is in it twice. -/
def startupIndex (listing : Nat → List ToolDescriptor) (backends : Entries BackendHandle) :
    Entries RoutedTool :=
  (eagerBackends backends).flatMap fun b => offered listing b.1 b.2.definition b.2.object

/-- The backend is healthy. -/
def RegistryWorld.healthy (s : RegistryWorld ι) (id : String) : Bool :=
  (s.backends.get id).any (·.health)

/-- Tools in the order of their names. -/
def sortTools (tools : List ToolDescriptor) : List ToolDescriptor :=
  tools.insertionSort fun a b => a.name ≤ b.name

/-- What `aggregated_tools` returns. These are the tools that a client sees. -/
def RegistryWorld.visibleTools (s : RegistryWorld ι) : List ToolDescriptor :=
  sortTools ((s.index.filter fun entry => s.healthy entry.2.backendId).map (·.2.descriptor))

/-! ## Putting listings together -/

section Offers

variable {listing : Nat → List ToolDescriptor} {toolNamespace : Option String}
  {tools : List ToolDescriptor} {taken : List String}

/-- No name is taken exactly when the names are new and none comes twice. -/
theorem untaken_eq_iff (htaken : taken.Nodup) :
    untaken toolNamespace taken tools = tools ↔
      (taken ++ tools.map fun tool => computeExposedName toolNamespace tool.name).Nodup := by
  rw [untaken_eq_self_iff, List.nodup_append', and_iff_right htaken]
  refine and_congr_right fun _ => ?_
  rw [List.disjoint_comm, List.disjoint_left, List.forall_mem_map]

theorem keys_offered (id : String) (definition : BackendDef) (object : Nat) :
    (offered listing id definition object).keys =
      (filterTools definition.toolsAllow definition.toolsDeny (listing object)).map
        fun tool => computeExposedName definition.toolNamespace tool.name := by
  rw [offered, Entries.keys, List.map_map]
  rfl

/-- Indexing what a backend offers succeeds exactly when no name collides, and then adds it. -/
theorem reindexTools_offered {id : String} {definition : BackendDef} {object : Nat}
    {index : Entries RoutedTool} (hindex : index.keys.Nodup)
    (hfresh : ∀ entry ∈ index, entry.2.backendId ≠ id) :
    ((reindexTools id definition.toolNamespace (hiddenArgs definition)
        (filterTools definition.toolsAllow definition.toolsDeny (listing object)) index).1 = .ok () ↔
      (Entries.keys (index ++ offered listing id definition object)).Nodup) ∧
    ((reindexTools id definition.toolNamespace (hiddenArgs definition)
        (filterTools definition.toolsAllow definition.toolsDeny (listing object)) index).1 = .ok () →
      (reindexTools id definition.toolNamespace (hiddenArgs definition)
        (filterTools definition.toolsAllow definition.toolsDeny (listing object)) index).2 =
        index ++ offered listing id definition object) := by
  have hretain : index.retain (·.backendId ≠ id) = index :=
    List.filter_eq_self.mpr fun entry hentry => decide_eq_true (hfresh entry hentry)
  rw [reindexTools, hretain]
  obtain ⟨hadded, hok⟩ := @indexTools_eq id definition.toolNamespace (hiddenArgs definition)
    (filterTools definition.toolsAllow definition.toolsDeny (listing object)) index
  refine ⟨?_, fun h => ?_⟩
  · rw [hok, untaken_eq_iff hindex, Entries.keys_append, keys_offered]
  · rw [hadded, hok.mp h, offered]

/-- The index never has a name twice. -/
theorem nodup_indexTools {id : String} {hidden : List String} {index : Entries RoutedTool}
    (hindex : index.keys.Nodup) :
    (indexTools id toolNamespace hidden tools index).2.keys.Nodup := by
  induction tools generalizing index with
  | nil => exact hindex
  | cons tool tools ih =>
    rw [indexTools]
    split
    · exact hindex
    · rename_i hget
      have hnew : computeExposedName toolNamespace tool.name ∉ index.keys := by
        rw [← Entries.containsKey_iff_mem_keys, Entries.containsKey, hget]
        exact Bool.false_ne_true
      refine ih ?_
      rw [Entries.insert_of_not_mem hnew, Entries.keys_append]
      exact List.nodup_append'.mpr ⟨hindex, List.nodup_singleton _, by simpa [Entries.keys] using hnew⟩

end Offers

/-! ## One backend -/

section Connecting

variable {listing : Nat → List ToolDescriptor} {i : ι} {id : String} {definition : BackendDef}
  {object : Nat} {s t : RegistryWorld ι}

/-- A change of a handle that keeps its health keeps everybody's. -/
theorem healthy_modifyBackend {f : BackendHandle → BackendHandle} (hf : ∀ h, (f h).health = h.health)
    (id' : String) : (s.modifyBackend id f).healthy id' = s.healthy id' := by
  unfold RegistryWorld.modifyBackend RegistryWorld.healthy
  split
  · rename_i handle hget
    by_cases hid : id' = id
    · subst hid
      simp [hget, hf]
    · simp [Entries.get_insert_ne hid]
  · rfl

/-- A backend that is marked healthy. -/
theorem healthy_markHealthy {f : BackendHandle → BackendHandle} (hf : ∀ h, (f h).health = true)
    (hid : (s.known id).isSome = true) (id' : String) :
    (s.modifyBackend id f).healthy id' = true ↔ s.healthy id' = true ∨ id' = id := by
  obtain ⟨handle, hget⟩ : ∃ handle, s.backends.get id = some handle := by
    rw [RegistryWorld.known, Option.isSome_map] at hid
    exact Option.isSome_iff_exists.mp hid
  rw [RegistryWorld.modifyBackend, hget]
  unfold RegistryWorld.healthy
  by_cases h : id' = id
  · subst h
    simp [hf]
  · simp [Entries.get_insert_ne h, h]

/-- Under the rule, the backend object connects and lists these tools. -/
structure Responds (C : Rule RegistryOp ι RegistryChoice (RegistryWorld ι)) (i : ι) (object : Nat)
    (tools : List ToolDescriptor) : Prop where
  connects : ∀ e s, C i _ (.backend object .connect) e s → ∃ init, e.init = .ok init
  lists : ∀ e s, C i _ (.backend object .listTools) e s → e.tools = .ok tools

/-- What listing the tools of a backend anew leaves behind, with its result. They are what
`reindexTools` makes of the listing and of the index before. -/
structure Relists (id : String) (definition : BackendDef) (tools : List ToolDescriptor)
    (s t : RegistryWorld ι) (r : BackendResult Unit) : Prop where
  known : t.known = s.known
  forwarded : t.forwarded = s.forwarded
  reindexed : reindexTools id definition.toolNamespace (hiddenArgs definition)
    (filterTools definition.toolsAllow definition.toolsDeny tools) s.index = (r, t.index)
  healthy : ∀ id', t.healthy id' = true ↔ s.healthy id' = true ∨ (r = .ok () ∧ id' = id)

theorem wp_reindex {C : Rule RegistryOp ι RegistryChoice (RegistryWorld ι)}
    {tools : List ToolDescriptor} (hknown : s.known id = some (definition, object)) :
    ((registryMachine ι).under C).wp i (.perform (.reindex id definition.toolNamespace
        (hiddenArgs definition) (filterTools definition.toolsAllow definition.toolsDeny tools)))
      (fun x t => ∃ r, x = .done r ∧ Relists id definition tools s t r) s := by
  refine wp_under_op fun e r t _ he => ?_
  refine ⟨r, rfl, ?_⟩
  simp only [registryMachine, RegistryWorld.exec] at he
  rcases hre : reindexTools id definition.toolNamespace (hiddenArgs definition)
    (filterTools definition.toolsAllow definition.toolsDeny tools) s.index with ⟨result, index⟩
  rw [hre] at he
  cases result with
  | error err =>
    obtain ⟨rfl, rfl⟩ := Prod.mk.inj (Option.some.inj he)
    exact ⟨rfl, rfl, hre, fun id' => (or_iff_left fun h => by cases h.1).symm⟩
  | ok _ =>
    obtain ⟨rfl, rfl⟩ := Prod.mk.inj (Option.some.inj he)
    have hregistered : (RegistryWorld.known { s with index := index } id).isSome = true := by
      rw [show RegistryWorld.known { s with index := index } = s.known from rfl, hknown]
      rfl
    refine ⟨?_, RegistryWorld.modifyBackend_forwarded .., ?_, fun id' => ?_⟩
    · refine (known_modifyBackend ?_ ?_).trans rfl
      · exact fun _ => rfl
      · exact fun _ => rfl
    · rw [RegistryWorld.modifyBackend_index]
      exact hre
    · refine (healthy_markHealthy ?_ hregistered id').trans ?_
      · exact fun _ => rfl
      · rw [and_iff_right rfl]
        rfl

/-- **A backend that connects and lists its tools** has them indexed, up to the first name that is
taken, and is healthy afterwards if none is. -/
theorem wp_connectBackend_relists {C : Rule RegistryOp ι RegistryChoice (RegistryWorld ι)}
    {tools : List ToolDescriptor} (hresponds : Responds C i object tools)
    (hknown : s.known id = some (definition, object)) :
    ((registryMachine ι).under C).wp i (Registry.connectBackend id)
      (fun x t => ∃ r, x = .done r ∧ Relists id definition tools s t r) s := by
  obtain ⟨handle, hget, hhandle⟩ := Option.map_eq_some_iff.mp hknown
  obtain ⟨rfl, rfl⟩ := Prod.mk.inj hhandle
  simp only [Registry.connectBackend, Prog.bind_eq, Prog.perform_bind]
  refine wp_under_op fun e found s₁ _ he => ?_
  obtain ⟨rfl, rfl⟩ := Prod.mk.inj (Option.some.inj he)
  rw [hget]
  refine wp_under_op fun e init s₂ hC he => ?_
  obtain ⟨rfl, rfl⟩ := Prod.mk.inj (Option.some.inj he)
  obtain ⟨init, hinit⟩ := hresponds.connects _ _ hC
  simp only [RegistryChoice.answer, hinit]
  refine wp_under_op fun e _ s₃ _ he => ?_
  obtain ⟨-, rfl⟩ := Prod.mk.inj (Option.some.inj he)
  refine wp_under_op fun e listed s₄ hC he => ?_
  obtain ⟨rfl, rfl⟩ := Prod.mk.inj (Option.some.inj he)
  simp only [RegistryChoice.answer, hresponds.lists _ _ hC]
  -- up to here only the capabilities have changed
  generalize hu : RegistryWorld.record _ i handle.object _ _ = u
  have hsame : u.known = s.known ∧ u.forwarded = s.forwarded ∧ u.index = s.index ∧
      ∀ id', u.healthy id' = s.healthy id' := by
    subst hu
    exact ⟨known_modifyBackend (fun _ => rfl) fun _ => rfl,
      RegistryWorld.modifyBackend_forwarded .., RegistryWorld.modifyBackend_index ..,
      healthy_modifyBackend fun _ => rfl⟩
  obtain ⟨hknownU, hforwardedU, hindexU, hhealthyU⟩ := hsame
  refine wp_mono _ (wp_reindex (hknownU ▸ hknown)) ?_
  rintro _ t ⟨r, rfl, ht⟩
  refine ⟨r, rfl, ht.known.trans hknownU, ht.forwarded.trans hforwardedU, ?_, fun id' => ?_⟩
  · rw [← ht.reindexed, hindexU]
  · rw [ht.healthy, hhealthyU]

/-- What the first connection of a backend leaves behind, with its result. -/
structure Connects (listing : Nat → List ToolDescriptor) (id : String) (definition : BackendDef)
    (object : Nat) (s t : RegistryWorld ι) (r : BackendResult Unit) : Prop where
  known : t.known = s.known
  unique : t.index.keys.Nodup
  own : ∀ entry ∈ t.index, entry ∈ s.index ∨ entry.2.backendId = id
  ok : r = .ok () ↔ (Entries.keys (s.index ++ offered listing id definition object)).Nodup
  index : r = .ok () → t.index = s.index ++ offered listing id definition object
  healthy : ∀ id', t.healthy id' = true ↔ s.healthy id' = true ∨ (r = .ok () ∧ id' = id)

/-- An indexed entry was there before or belongs to the backend. -/
theorem own_indexTools {toolNamespace : Option String} {hidden : List String}
    {tools : List ToolDescriptor} {index : Entries RoutedTool} :
    ∀ entry ∈ (indexTools id toolNamespace hidden tools index).2,
      entry ∈ index ∨ entry.2.backendId = id := by
  rw [indexTools_eq.1]
  intro entry hentry
  rcases List.mem_append.mp hentry with h | h
  · exact .inl h
  · obtain ⟨tool, -, rfl⟩ := List.mem_map.mp h
    exact .inr rfl

/-- A backend without an indexed tool is connected without an error exactly when none of its
names collides. -/
theorem Relists.connects {r : BackendResult Unit}
    (h : Relists id definition (listing object) s t r) (hunique : s.index.keys.Nodup)
    (hfresh : ∀ entry ∈ s.index, entry.2.backendId ≠ id) :
    Connects listing id definition object s t r := by
  obtain ⟨hok, hadded⟩ := @reindexTools_offered listing id definition object s.index hunique hfresh
  have hunique' : (reindexTools id definition.toolNamespace (hiddenArgs definition)
      (filterTools definition.toolsAllow definition.toolsDeny (listing object))
        s.index).2.keys.Nodup :=
    nodup_indexTools ((List.filter_sublist.map Prod.fst).nodup hunique)
  have hown : ∀ entry ∈ (reindexTools id definition.toolNamespace (hiddenArgs definition)
      (filterTools definition.toolsAllow definition.toolsDeny (listing object)) s.index).2,
      entry ∈ s.index ∨ entry.2.backendId = id := fun entry hentry =>
    (own_indexTools entry hentry).imp_left fun h => (Entries.mem_of_mem_retain h).1
  rw [h.reindexed] at hok hadded hunique' hown
  exact ⟨h.known, hunique', hown, hok, hadded, h.healthy⟩

theorem responds_serving : Responds (Serving listing) i object (listing object) :=
  ⟨fun _ _ h => h, fun _ _ h => h⟩

/-! ## One backend after another -/

/-- What a registered backend offers. -/
def RegistryWorld.offers (listing : Nat → List ToolDescriptor) (s : RegistryWorld ι) (id : String) :
    Entries RoutedTool :=
  match s.known id with
  | some (definition, object) => offered listing id definition object
  | none => []

/-- No backend has failed. -/
def AllOk (results : List (String × BackendResult Unit)) : Prop := ∀ r ∈ results, r.2 = .ok ()

/-- What the connections leave behind, with their results. -/
structure ConnectsEach (listing : Nat → List ToolDescriptor) (ids : List String)
    (s t : RegistryWorld ι) (results : List (String × BackendResult Unit)) : Prop where
  visited : results.map Prod.fst = ids
  ok : AllOk results ↔ (Entries.keys (s.index ++ ids.flatMap (s.offers listing))).Nodup
  index : AllOk results → t.index = s.index ++ ids.flatMap (s.offers listing)
  healthy : AllOk results → ∀ id ∈ ids, t.healthy id = true
  kept : ∀ id, s.healthy id = true → t.healthy id = true

theorem allOk_cons {r : BackendResult Unit} {results : List (String × BackendResult Unit)} :
    AllOk ((id, r) :: results) ↔ r = .ok () ∧ AllOk results := List.forall_mem_cons

/-- The step of the induction. -/
theorem ConnectsEach.cons {ids : List String} {u : RegistryWorld ι} {r : BackendResult Unit}
    {results : List (String × BackendResult Unit)} (hknown : s.known id = some (definition, object))
    (hfirst : Connects listing id definition object s t r)
    (hrest : ConnectsEach listing ids t u results) :
    ConnectsEach listing (id :: ids) s u ((id, r) :: results) := by
  have hoffers : t.offers listing = s.offers listing := by
    funext id'
    rw [RegistryWorld.offers, hfirst.known, ← RegistryWorld.offers]
  have hoffer : s.offers listing id = offered listing id definition object := by
    rw [RegistryWorld.offers, hknown]
  have hindex : r = .ok () → t.index ++ ids.flatMap (t.offers listing) =
      s.index ++ (id :: ids).flatMap (s.offers listing) := by
    intro hr
    rw [hfirst.index hr, hoffers, List.flatMap_cons, hoffer, List.append_assoc]
  refine ⟨congrArg (id :: ·) hrest.visited, ?_, fun h => ?_, fun h id' hid => ?_, fun id' h => ?_⟩
  · rw [allOk_cons, hrest.ok]
    constructor
    · rintro ⟨hr, hnodup⟩
      rwa [hindex hr] at hnodup
    · intro hnodup
      have hr : r = .ok () := by
        rw [hfirst.ok]
        rw [List.flatMap_cons, hoffer, ← List.append_assoc, Entries.keys_append] at hnodup
        exact (List.nodup_append'.mp hnodup).1
      rw [hindex hr]
      exact ⟨hr, hnodup⟩
  · obtain ⟨hr, hrest'⟩ := allOk_cons.mp h
    rw [hrest.index hrest', hindex hr]
  · obtain ⟨hr, hrest'⟩ := allOk_cons.mp h
    rcases List.mem_cons.mp hid with rfl | hid
    · exact hrest.kept id' ((hfirst.healthy id').mpr (.inr ⟨hr, rfl⟩))
    · exact hrest.healthy hrest' id' hid
  · exact hrest.kept id' ((hfirst.healthy id').mpr (.inl h))

theorem wp_connectEach_serving {ids : List String} (hids : ids.Nodup)
    (hknown : ∀ id ∈ ids, ∃ d, s.known id = some d) (hunique : s.index.keys.Nodup)
    (hfresh : ∀ entry ∈ s.index, entry.2.backendId ∉ ids) :
    ((registryMachine ι).under (Serving listing)).wp i (Registry.connectEach ids)
      (fun x t => ∃ results, x = .done results ∧ ConnectsEach listing ids s t results) s := by
  induction ids generalizing s with
  | nil =>
    refine ⟨[], rfl, rfl, iff_of_true nofun ?_, fun _ => (List.append_nil _).symm, fun _ => nofun,
      fun _ h => h⟩
    rw [List.flatMap_nil, List.append_nil]
    exact hunique
  | cons id ids ih =>
    obtain ⟨hnew, hids⟩ := List.nodup_cons.mp hids
    obtain ⟨⟨definition, object⟩, hid⟩ := hknown id List.mem_cons_self
    rw [Registry.connectEach, Prog.bind_eq, wp_bind]
    refine wp_mono _ (wp_connectBackend_relists responds_serving hid) ?_
    rintro _ t ⟨r, rfl, ht⟩
    have ht := ht.connects hunique fun entry hentry h =>
      hfresh entry hentry (h ▸ List.mem_cons_self)
    have hrest := ih (s := t) hids
      (fun id' h => ht.known ▸ hknown id' (List.mem_cons_of_mem _ h)) ht.unique
      fun entry hentry => by
        rcases ht.own entry hentry with h | h
        · exact fun hmem => hfresh entry h (List.mem_cons_of_mem _ hmem)
        · rw [h]
          exact hnew
    rw [andThen, Prog.bind_eq, wp_bind]
    refine wp_mono _ hrest ?_
    rintro _ u ⟨results, rfl, hu⟩
    exact ⟨(id, r) :: results, rfl, ConnectsEach.cons hid ht hu⟩

end Connecting

/-! ## The visible tools -/

instance : Std.Total fun a b : ToolDescriptor => a.name ≤ b.name := ⟨fun a b => le_total a.name b.name⟩

instance : IsTrans ToolDescriptor fun a b => a.name ≤ b.name := ⟨fun _ _ _ => le_trans⟩

/-- Tools with different names are sorted in one way. -/
theorem sortTools_perm {tools tools' : List ToolDescriptor} (hnames : (tools.map (·.name)).Nodup)
    (h : tools'.Perm tools) : sortTools tools' = sortTools tools := by
  have hperm : (sortTools tools').Perm (sortTools tools) :=
    (List.perm_insertionSort _ _).trans (h.trans (List.perm_insertionSort _ _).symm)
  refine List.Perm.eq_of_pairwise (fun a b ha hb hab hba => ?_)
    (List.pairwise_insertionSort _ _) (List.pairwise_insertionSort _ _) hperm
  have ha : a ∈ tools := (List.perm_insertionSort _ _).mem_iff.mp (hperm.mem_iff.mp ha)
  have hb : b ∈ tools := (List.perm_insertionSort _ _).mem_iff.mp hb
  exact List.inj_on_of_nodup_map hnames ha hb (le_antisymm hab hba)

/-- `aggregated_tools` returns the visible tools. -/
theorem wp_aggregatedTools {i : ι} {s : RegistryWorld ι} :
    (registryMachine ι).wp i Registry.aggregatedTools
      (fun x t => x = .done s.visibleTools ∧ t = s) s := by
  simp only [Registry.aggregatedTools, Prog.bind_eq, Prog.perform_bind]
  intro e tools t he
  obtain ⟨rfl, rfl⟩ := Prod.mk.inj (Option.some.inj he)
  refine ⟨?_, rfl⟩
  rw [RegistryWorld.visibleTools, List.filter_map, List.map_map]
  rfl

/-! ## The startup -/

section Startup

variable {listing : Nat → List ToolDescriptor} {i : ι} {start t : RegistryWorld ι}

theorem known_of_mem {b : String × BackendHandle} (hkeys : start.backends.keys.Nodup)
    (h : b ∈ start.backends) : start.known b.1 = some (b.2.definition, b.2.object) := by
  rw [RegistryWorld.known, Entries.get_of_mem hkeys h]
  rfl

/-- A registered backend offers what its definition says. -/
theorem offers_of_mem {b : String × BackendHandle} (hkeys : start.backends.keys.Nodup)
    (h : b ∈ start.backends) :
    start.offers listing b.1 = offered listing b.1 b.2.definition b.2.object := by
  rw [RegistryWorld.offers, known_of_mem hkeys h]

/-- The names of an index entry. -/
theorem name_of_mem_startupIndex {entry : String × RoutedTool}
    (h : entry ∈ startupIndex listing start.backends) :
    entry.2.descriptor.name = entry.1 ∧
      ∃ b ∈ eagerBackends start.backends, entry.2.backendId = b.1 := by
  obtain ⟨b, hb, h⟩ := List.mem_flatMap.mp h
  obtain ⟨tool, -, rfl⟩ := List.mem_map.mp h
  exact ⟨rfl, b, hb, rfl⟩

theorem names_startupIndex :
    ((startupIndex listing start.backends).map (·.2.descriptor)).map (·.name) =
      (startupIndex listing start.backends).keys := by
  rw [List.map_map, Entries.keys]
  exact List.map_congr_left fun entry h => (name_of_mem_startupIndex h).1

/-- Whatever the order of the visits, the backends offer the same. -/
theorem offers_perm {backends : Entries BackendHandle} (hkeys : start.backends.keys.Nodup)
    (h : backends.Perm start.backends) :
    (((eagerBackends backends).map Prod.fst).flatMap (start.offers listing)).Perm
      (startupIndex listing start.backends) := by
  have hsame : ((eagerBackends backends).map Prod.fst).flatMap (start.offers listing) =
      startupIndex listing backends := by
    rw [List.flatMap_map, startupIndex]
    refine List.flatMap_congr fun b hb => ?_
    exact offers_of_mem hkeys (h.mem_iff.mp (List.mem_filter.mp hb).1)
  rw [hsame]
  exact (h.filter _).flatMap_right _

/-- **The order of the startup does not show**: when every backend connects and lists its tools,
then for every order in which `connect_all` visits the eager ones it fails for none, the index
is the same map and `aggregated_tools` returns the same list, if no exposed name is offered
twice; and it fails for some backend, if one is. -/
theorem connectAll_any_order (hkeys : start.backends.keys.Nodup) (hindex : start.index = [])
    {es : List RegistryChoice} {x : Outcome (List (String × BackendResult Unit))}
    (hserving : (registryMachine ι).SoloMeets (Serving listing) i Registry.connectAll es start)
    (hrun : (registryMachine ι).solo i Registry.connectAll es start = some (x, t)) :
    ∃ results, x = .done results ∧
      (results.map Prod.fst).Perm (eagerBackends start.backends).keys ∧
      ((startupIndex listing start.backends).keys.Nodup → AllOk results ∧
        (∀ name, t.index.get name = (startupIndex listing start.backends).get name) ∧
        ∀ es y u, (registryMachine ι).solo i Registry.aggregatedTools es t = some (y, u) →
          y = .done (sortTools
            ((startupIndex listing start.backends).map (·.2.descriptor)))) ∧
      (¬ (startupIndex listing start.backends).keys.Nodup → ∃ r ∈ results, r.2 ≠ .ok ()) := by
  have hwp : ((registryMachine ι).under (Serving listing)).wp i Registry.connectAll
      (fun x t => ∃ results backends, x = .done results ∧ backends.Perm start.backends ∧
        ConnectsEach listing ((eagerBackends backends).map Prod.fst) start t results) start := by
    simp only [Registry.connectAll, Prog.bind_eq, Prog.perform_bind]
    refine wp_under_op fun e _ s _ he => ?_
    obtain ⟨backends, harrange, heq⟩ := Option.map_eq_some_iff.mp he
    obtain ⟨rfl, rfl⟩ := Prod.mk.inj heq
    have hperm := arrange_perm hkeys harrange
    have hids : ((eagerBackends backends).map Prod.fst).Nodup :=
      (List.filter_sublist.map Prod.fst).nodup ((hperm.map Prod.fst).nodup_iff.mpr hkeys)
    refine wp_mono _ (wp_connectEach_serving hids (fun id hid => ?_) ?_ ?_) ?_
    · obtain ⟨b, hb, rfl⟩ := List.mem_map.mp hid
      exact ⟨_, known_of_mem hkeys (hperm.mem_iff.mp (List.mem_filter.mp hb).1)⟩
    · rw [hindex]
      exact List.nodup_nil
    · rw [hindex]
      nofun
    · rintro x t ⟨results, rfl, h⟩
      exact ⟨results, backends, rfl, hperm, h⟩
  obtain ⟨results, backends, rfl, hperm, hconnects⟩ := wp_under_solo hwp hserving hrun
  have hoffers := @offers_perm ι listing start backends hkeys hperm
  have hok : AllOk results ↔ (startupIndex listing start.backends).keys.Nodup := by
    rw [hconnects.ok, hindex, List.nil_append]
    exact (hoffers.map Prod.fst).nodup_iff
  refine ⟨results, rfl, ?_, fun hnodup => ?_, fun hnodup => ?_⟩
  · rw [hconnects.visited]
    exact (hperm.filter _).map Prod.fst
  · have hall := hok.mpr hnodup
    have hsame : t.index.Perm (startupIndex listing start.backends) := by
      rw [hconnects.index hall, hindex, List.nil_append]
      exact hoffers
    refine ⟨hall, Entries.get_perm hnodup hsame, fun es y u hagg => ?_⟩
    obtain ⟨rfl, -⟩ := (registryMachine ι).wp_solo wp_aggregatedTools hagg
    refine congrArg Outcome.done ?_
    -- every indexed tool is that of a healthy backend
    have hhealthy : t.index.filter (fun entry => t.healthy entry.2.backendId) = t.index := by
      refine List.filter_eq_self.mpr fun entry hentry => ?_
      obtain ⟨-, b, hb, hid⟩ := name_of_mem_startupIndex (hsame.mem_iff.mp hentry)
      rw [hid]
      exact hconnects.healthy hall b.1
        (List.mem_map_of_mem (((hperm.filter _).mem_iff (a := b)).mpr hb))
    rw [RegistryWorld.visibleTools, hhealthy]
    refine sortTools_perm ?_ (hsame.map _)
    rw [names_startupIndex]
    exact hnodup
  · by_contra hnone
    refine hnodup (hok.mp fun r hr => ?_)
    by_contra hne
    exact hnone ⟨r, hr, hne⟩

end Startup

/-- Two backends are registered. -/
def newcomers : RegistryWorld Unit :=
  { RegistryWorld.empty Unit with
    backends := [("a", ⟨bareBackend "a", 0, false, none, 0⟩),
      ("b", ⟨bareBackend "b", 1, false, none, 0⟩)] }

/-- Both of them start, `b` first. -/
theorem connectAll_newcomers :
    ∃ results t, (registryMachine Unit).solo () Registry.connectAll
        [{ order := some ["b", "a"] }, {}, .greeted, {}, .offering ["x"], {}, {}, .greeted, {},
          .offering ["z"], {}] newcomers = some (.done results, t) ∧
      AllOk results ∧ (t.index.get "x").isSome = true ∧ (t.index.get "z").isSome = true := by
  let listing : Nat → List ToolDescriptor := fun object =>
    if object = 0 then [⟨"z", "", .null⟩] else [⟨"x", "", .null⟩]
  obtain ⟨results, t, hrun⟩ : ∃ results t, (registryMachine Unit).solo () Registry.connectAll
      [{ order := some ["b", "a"] }, {}, .greeted, {}, .offering ["x"], {}, {}, .greeted, {},
        .offering ["z"], {}] newcomers = some (.done results, t) := ⟨_, _, rfl⟩
  have hserving : (registryMachine Unit).SoloMeets (Serving listing) () Registry.connectAll
      [{ order := some ["b", "a"] }, {}, .greeted, {}, .offering ["x"], {}, {}, .greeted, {},
        .offering ["z"], {}] newcomers := by
    refine SoloMeets.cons trivial rfl (SoloMeets.cons trivial rfl ?_)
    refine SoloMeets.cons ⟨_, rfl⟩ rfl (SoloMeets.cons trivial rfl ?_)
    refine SoloMeets.cons rfl rfl (SoloMeets.cons trivial rfl ?_)
    refine SoloMeets.cons trivial rfl (SoloMeets.cons ⟨_, rfl⟩ rfl ?_)
    refine SoloMeets.cons trivial rfl (SoloMeets.cons rfl rfl ?_)
    exact SoloMeets.cons trivial rfl trivial
  obtain ⟨_, hresults, -, hdisjoint, -⟩ :=
    @connectAll_any_order Unit listing () newcomers t (by decide) rfl _ _ hserving hrun
  cases hresults
  obtain ⟨hok, hget, -⟩ := hdisjoint (by decide)
  refine ⟨results, t, hrun, hok, ?_, ?_⟩
  · rw [hget]
    rfl
  · rw [hget]
    rfl

end HeadlessMcp
