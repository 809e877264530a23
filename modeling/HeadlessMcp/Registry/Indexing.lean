import HeadlessMcp.Registry.Startup

/-!
# What a connection indexes

`connect_backend` filters the listing of its backend, drops the old entries of the backend and
adds the new ones one by one, up to the first name that is taken. So it succeeds exactly when the
exposed names are distinct and free, and then the index has an entry for each tool that remains
of the listing, and none besides, next to the entries of the other backends
(`connectBackend_exact`).

What the loop of insertions leaves is said once, by `indexTools_eq`: the entries of the tools up
to the first name that is taken, next to those of the other backends.
-/

namespace HeadlessMcp

open Async Machine

variable {ι : Type}

/-! ## Listings that fit into an index -/

/-- The tools that the filters leave of a listing. They are the ones whose downstream names pass.
-/
def BackendDef.remaining (definition : BackendDef) (tools : List ToolDescriptor) :
    List ToolDescriptor :=
  filterTools definition.toolsAllow definition.toolsDeny tools

/-- The names under which they are exposed. -/
def BackendDef.exposedNames (definition : BackendDef) (tools : List ToolDescriptor) :
    List String :=
  (definition.remaining tools).map fun tool =>
    computeExposedName definition.toolNamespace tool.name

/-- Their index entries. -/
def BackendDef.indexed (definition : BackendDef) (id : String) (tools : List ToolDescriptor) :
    Entries RoutedTool :=
  (definition.remaining tools).map
    (indexEntry id definition.toolNamespace (hiddenArgs definition))

/-- The names are pairwise distinct, and none is indexed for another backend. This is the
condition for the whole listing to be indexed. -/
structure Fits (id : String) (names : List String) (index : Entries RoutedTool) : Prop where
  distinct : names.Nodup
  free : ∀ entry ∈ index, entry.1 ∈ names → entry.2.backendId = id

section Reindex

variable {id : String} {definition : BackendDef} {tools : List ToolDescriptor}
  {index : Entries RoutedTool}

/-- The names that are taken once the old entries of the backend are gone. -/
theorem mem_others_keys {name : String} :
    name ∈ (index.retain (·.backendId ≠ id)).keys ↔
      ∃ entry ∈ index, entry.1 = name ∧ entry.2.backendId ≠ id := by
  simp only [Entries.keys, Entries.retain, List.mem_map, List.mem_filter, decide_eq_true_eq]
  grind

/-- A listing is indexed exactly when it fits. -/
theorem reindexTools_ok_iff :
    (reindexTools id definition.toolNamespace (hiddenArgs definition)
        (definition.remaining tools) index).1 = .ok () ↔
      Fits id (definition.exposedNames tools) index := by
  rw [reindexTools, indexTools_eq.2, untaken_eq_self_iff]
  simp only [mem_others_keys]
  constructor
  · rintro ⟨hdistinct, hfree⟩
    refine ⟨hdistinct, fun entry hentry hname => ?_⟩
    obtain ⟨tool, htool, hexposed⟩ := List.mem_map.mp hname
    by_contra hother
    exact hfree tool htool ⟨entry, hentry, hexposed.symm, hother⟩
  · rintro ⟨hdistinct, hfree⟩
    refine ⟨hdistinct, fun tool htool htaken => ?_⟩
    obtain ⟨entry, hentry, hname, hother⟩ := htaken
    refine hother (hfree entry hentry ?_)
    rw [hname]
    exact List.mem_map_of_mem htool

/-- A listing that fits takes the place of the old entries. -/
theorem toolsOf_reindexTools_ok
    (hok : (reindexTools id definition.toolNamespace (hiddenArgs definition)
      (definition.remaining tools) index).1 = .ok ()) :
    toolsOf id (reindexTools id definition.toolNamespace (hiddenArgs definition)
      (definition.remaining tools) index).2 = definition.indexed id tools := by
  let listing : Listing :=
    ⟨id, definition.toolNamespace, hiddenArgs definition, definition.remaining tools, index⟩
  have hfits : listing.Fits := by
    rw [reindexTools, indexTools_eq.2] at hok
    exact hok
  refine (toolsOf_reindexTools listing id).trans ?_
  rw [if_pos rfl, Listing.entries, hfits]
  rfl

/-- The other backends keep theirs. -/
theorem toolsOf_reindexTools_other {other : String} (hother : other ≠ id) :
    toolsOf other (reindexTools id definition.toolNamespace (hiddenArgs definition)
      (definition.remaining tools) index).2 = toolsOf other index := by
  let listing : Listing :=
    ⟨id, definition.toolNamespace, hiddenArgs definition, definition.remaining tools, index⟩
  exact (toolsOf_reindexTools listing other).trans (if_neg hother)

end Reindex

/-! ## The connection -/

/-- **A connection indexes what its backend lists**: for every index, definition and listing,
`connect_backend` succeeds exactly when the exposed names of the tools that remain are pairwise
distinct and free of other backends; then the entries of the backend are those of the tools that
remain, and the other backends have the entries that they had. -/
theorem connectBackend_exact {i : ι} {id : String} {definition : BackendDef} {object : Nat}
    {tools : List ToolDescriptor} {s t : RegistryWorld ι}
    (hknown : s.known id = some (definition, object))
    {es : List RegistryChoice} {x : Outcome (BackendResult Unit)}
    (hserving : (registryMachine ι).SoloMeets (Serving fun _ => tools) i
      (Registry.connectBackend id) es s)
    (hrun : (registryMachine ι).solo i (Registry.connectBackend id) es s = some (x, t)) :
    (x = .done (.ok ()) ↔ Fits id (definition.exposedNames tools) s.index) ∧
      (x = .done (.ok ()) → toolsOf id t.index = definition.indexed id tools ∧
        ∀ other, other ≠ id → toolsOf other t.index = toolsOf other s.index) := by
  obtain ⟨r, rfl, h⟩ := wp_under_solo
    (wp_connectBackend_relists responds_serving hknown) hserving hrun
  have hreindexed : reindexTools id definition.toolNamespace (hiddenArgs definition)
      (definition.remaining tools) s.index = (r, t.index) := h.reindexed
  have hresult : (Outcome.done r = .done (.ok ())) ↔ (reindexTools id definition.toolNamespace
      (hiddenArgs definition) (definition.remaining tools) s.index).1 = .ok () := by
    rw [hreindexed, Outcome.done.injEq]
  refine ⟨hresult.trans reindexTools_ok_iff, fun hok => ⟨?_, fun other hother => ?_⟩⟩
  · have hnew := toolsOf_reindexTools_ok (hresult.mp hok)
    rw [hreindexed] at hnew
    exact hnew
  · have hsame := @toolsOf_reindexTools_other id definition tools s.index other hother
    rw [hreindexed] at hsame
    exact hsame

/-- Two backends with an indexed tool each. -/
def relisted : RegistryWorld Unit :=
  { newcomers with
    index := [("x", ⟨"a", "x", "x", ⟨"x", "", .null⟩⟩), ("y", ⟨"b", "y", "y", ⟨"y", "", .null⟩⟩)] }

/-- The first of them lists another tool, which takes the place of the old one. -/
theorem connectBackend_relisted :
    ∃ t, (registryMachine Unit).solo () (Registry.connectBackend "a")
        [{}, .greeted, {}, .offering ["z"], {}] relisted = some (.done (.ok ()), t) ∧
      toolsOf "a" t.index = [("z", ⟨"a", "z", "z", ⟨"z", "", .null⟩⟩)] ∧
      toolsOf "b" t.index = [("y", ⟨"b", "y", "y", ⟨"y", "", .null⟩⟩)] := by
  obtain ⟨x, t, hrun⟩ : ∃ x t, (registryMachine Unit).solo () (Registry.connectBackend "a")
      [{}, .greeted, {}, .offering ["z"], {}] relisted = some (x, t) := ⟨_, _, rfl⟩
  have hserving : (registryMachine Unit).SoloMeets (Serving fun _ => [⟨"z", "", .null⟩]) ()
      (Registry.connectBackend "a") [{}, .greeted, {}, .offering ["z"], {}] relisted := by
    refine SoloMeets.cons trivial rfl (SoloMeets.cons ⟨_, rfl⟩ rfl ?_)
    refine SoloMeets.cons trivial rfl (SoloMeets.cons rfl rfl ?_)
    exact SoloMeets.cons trivial rfl trivial
  have hknown : relisted.known "a" = some (bareBackend "a", 0) := rfl
  obtain ⟨hok, hindexed⟩ := connectBackend_exact hknown hserving hrun
  have hdone : x = .done (.ok ()) := by
    refine hok.mpr ⟨by decide, ?_⟩
    decide
  subst hdone
  obtain ⟨hnew, hothers⟩ := hindexed rfl
  exact ⟨t, hrun, hnew, hothers "b" (by decide)⟩

end HeadlessMcp
