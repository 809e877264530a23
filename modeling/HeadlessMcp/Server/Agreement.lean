import HeadlessMcp.Registry.Startup
import HeadlessMcp.Server.Expose
import HeadlessMcp.Server.OneShot
import HeadlessMcp.Session.FirstCall
import Mathlib

/-!
# One-shot calls and the hub

A hub puts every tool into its index under its exposed name and looks names up there.
`run_one_shot` has no index: it takes the given name apart at its first dot, and only asks
the backends whose namespace is the part before it, and those without a namespace. The two
select the same backend for every name but those of a backend whose namespace has a dot
itself (`oneShot_agrees_iff`).
-/

namespace HeadlessMcp

open Async Machine

variable {ι : Type} {cfg : HubConfig} {tools : BackendDef → List ToolDescriptor}

/-! ## The hub -/

/-- A backend lists a tool. -/
def ListsTool (tools : BackendDef → List ToolDescriptor) (definition : BackendDef) (tool : String) :
    Prop :=
  ∃ descriptor ∈ tools definition, descriptor.name = tool

/-- A hub that has connected every backend of the config: they were registered in some order
and connected in some order, each of them listed its tools, and nothing failed. -/
structure ConnectedHub (ι : Type) (cfg : HubConfig) (tools : BackendDef → List ToolDescriptor) :
    Type where
  task : ι
  definitions : List BackendDef
  ids : List String
  /-- what each backend object lists -/
  listing : Nat → List ToolDescriptor
  registering : List RegistryChoice
  base : RegistryWorld ι
  connecting : List RegistryChoice
  results : List (String × BackendResult Unit)
  hub : RegistryWorld ι
  definitions_perm : definitions.Perm cfg.backends
  ids_perm : ids.Perm (cfg.backends.map (·.id))
  registers : (registryMachine ι).solo task (registerEach definitions 0) registering
    (RegistryWorld.empty ι) = some (.done (.ok ()), base)
  lists : ∀ d ∈ cfg.backends, ∀ object, base.known d.id = some (d, object) →
    listing object = tools d
  serving : (registryMachine ι).SoloMeets (Serving listing) task (Registry.connectEach ids)
    connecting base
  connects : (registryMachine ι).solo task (Registry.connectEach ids) connecting base =
    some (.done results, hub)
  ok : AllOk results

/-- The name is indexed to the backend with this downstream name. The hub then asks this backend
for this tool. -/
def IndexedTo (s : RegistryWorld ι) (exposedName id tool : String) : Prop :=
  ∃ routed, s.index.get exposedName = some routed ∧ routed.backendId = id ∧
    routed.downstreamName = tool

/-- The ids of a config tell its backends apart. -/
theorem HubConfig.eq_of_id {d d' : BackendDef} (hd : d ∈ cfg.backends) (hd' : d' ∈ cfg.backends)
    (h : d.id = d'.id) : d = d' :=
  List.inj_on_of_nodup_map cfg.idsUnique hd hd' h

/-- What a backend offers is its own. -/
theorem backendId_of_mem_offers {listing : Nat → List ToolDescriptor} {s : RegistryWorld ι}
    {id : String} {entry : String × RoutedTool} (h : entry ∈ s.offers listing id) :
    entry.2.backendId = id := by
  unfold RegistryWorld.offers at h
  split at h
  · obtain ⟨tool, -, rfl⟩ := List.mem_map.mp h
    rfl
  · cases h

namespace ConnectedHub

variable (run : ConnectedHub ι cfg tools)

/-- The index has what the backends offer, and no name twice. -/
theorem index_eq : run.hub.index = run.ids.flatMap (run.base.offers run.listing) ∧
    run.hub.index.keys.Nodup := by
  have hregistered := wp_solo _ wp_registerEach run.registers rfl
  have hindex : run.base.index = [] := hregistered.index
  have hids : run.ids.Nodup := run.ids_perm.nodup_iff.mpr cfg.idsUnique
  have hknown : ∀ id ∈ run.ids, ∃ d, run.base.known id = some d := by
    intro id hid
    obtain ⟨d, hd, rfl⟩ := List.mem_map.mp (run.ids_perm.mem_iff.mp hid)
    obtain ⟨object, hobject⟩ := hregistered.known d (run.definitions_perm.mem_iff.mpr hd)
    exact ⟨_, hobject⟩
  have hwp := @wp_connectEach_serving ι run.listing run.task run.base run.ids hids hknown
    (by rw [hindex]; exact List.nodup_nil) (by rw [hindex]; nofun)
  obtain ⟨results, hresults, heach⟩ := wp_under_solo hwp run.serving run.connects
  cases hresults
  have hadded := heach.index run.ok
  have hnodup := heach.ok.mp run.ok
  rw [← hadded] at hnodup
  rw [hindex, List.nil_append] at hadded
  exact ⟨hadded, hnodup⟩

/-- A name is indexed to a backend of the config exactly when the backend lists a tool with this
exposed name, where it has no filters. -/
theorem indexedTo_iff {d : BackendDef} {exposedName tool : String} (hd : d ∈ cfg.backends)
    (hfilters : d.toolsAllow = [] ∧ d.toolsDeny = []) :
    IndexedTo run.hub exposedName d.id tool ↔
      exposedName = computeExposedName d.toolNamespace tool ∧ ListsTool tools d tool := by
  obtain ⟨hindex, hnodup⟩ := run.index_eq
  obtain ⟨object, hobject⟩ := (wp_solo _ wp_registerEach run.registers rfl).known d
    (run.definitions_perm.mem_iff.mpr hd)
  have hoffers : run.base.offers run.listing d.id =
      (tools d).map (indexEntry d.id d.toolNamespace (hiddenArgs d)) := by
    simp only [RegistryWorld.offers, hobject, offered, run.lists d hd object hobject, hfilters.1,
      hfilters.2, filterTools]
    rfl
  constructor
  · rintro ⟨routed, hget, hid, rfl⟩
    have hmem := Entries.mem_of_get hget
    rw [hindex] at hmem
    obtain ⟨id, -, hmem⟩ := List.mem_flatMap.mp hmem
    obtain rfl : id = d.id := (backendId_of_mem_offers hmem).symm.trans hid
    rw [hoffers] at hmem
    obtain ⟨descriptor, hlists, heq⟩ := List.mem_map.mp hmem
    obtain ⟨rfl, rfl⟩ := Prod.mk.inj heq
    exact ⟨rfl, descriptor, hlists, rfl⟩
  · rintro ⟨rfl, descriptor, hlists, rfl⟩
    have hmem : indexEntry d.id d.toolNamespace (hiddenArgs d) descriptor ∈ run.hub.index := by
      rw [hindex]
      refine List.mem_flatMap.mpr ⟨d.id, run.ids_perm.mem_iff.mpr (List.mem_map_of_mem hd), ?_⟩
      rw [hoffers]
      exact List.mem_map_of_mem hlists
    exact ⟨_, Entries.get_of_mem hnodup hmem, rfl, rfl⟩

end ConnectedHub

/-! ## The search -/

/-- Every backend can be reached, and lists its tools. So whom a name leads to is a matter of the
names and of the listings. -/
def Reachable (tools : BackendDef → List ToolDescriptor) :
    Rule OneShotOp Unit RegistryChoice OneShotWorld
  | _, _, .backend _ .connect, e, _ => ∃ init, e.init = .ok init
  | _, _, .backend object .listTools, e, s =>
    ∀ d, s.created[object]? = some d → e.tools = .ok (tools d)
  | _, _, _, _, _ => True

/-- The name that the tool has at a backend that lists it. -/
def oneShotFinds (tools : BackendDef → List ToolDescriptor) (toolName : String)
    (definition : BackendDef) : Option (BackendDef × String) :=
  match oneShotName definition toolName with
  | some downstreamName =>
    if (tools definition).any (·.name = downstreamName) then some (definition, downstreamName)
    else none
  | none => none

/-- The search finds the first backend that lists the tool. -/
theorem wp_findBackend_reachable {toolName : String} {definitions : List BackendDef}
    {s : OneShotWorld} :
    (oneShotMachine.under (Reachable tools)).wp () (findBackend toolName definitions)
      (fun x _ => x = .done (definitions.findSome? (oneShotFinds tools toolName))) s := by
  induction definitions generalizing s with
  | nil => rfl
  | cons definition definitions ih =>
    rw [findBackend, List.findSome?_cons, oneShotFinds]
    rcases hname : oneShotName definition toolName with _ | downstreamName
    · exact ih
    simp only [Prog.bind_eq, Prog.perform_bind]
    refine wp_under_op fun e object t _ he => ?_
    obtain ⟨rfl, rfl⟩ := Prod.mk.inj (Option.some.inj he)
    refine wp_under_op fun e init t hC he => ?_
    obtain ⟨rfl, rfl⟩ := Prod.mk.inj (Option.some.inj he)
    obtain ⟨init, hinit⟩ := hC
    simp only [RegistryChoice.answer, hinit]
    refine wp_under_op fun e listed t hC he => ?_
    obtain ⟨rfl, rfl⟩ := Prod.mk.inj (Option.some.inj he)
    have hlisted : e.tools = .ok (tools definition) := hC definition (by simp [McpOp.forwards])
    simp only [RegistryChoice.answer, hlisted]
    split
    · rfl
    · refine wp_under_op fun e _ t _ he => ?_
      obtain ⟨rfl, rfl⟩ := Prod.mk.inj (Option.some.inj he)
      exact ih

/-- A search is always possible. -/
theorem reachable_total (β : Type) (o : OneShotOp β) (s : OneShotWorld) :
    ∃ e r, (oneShotMachine.under (Reachable tools)).exec () β o e s = some r := by
  cases o with
  | newBackend definition => exact ⟨{}, _, under_exec.mpr ⟨trivial, rfl⟩⟩
  | backend object method =>
    cases method with
    | connect =>
      let init : InitializeResult := ⟨"", ⟨"", ""⟩, ⟨none, none, none, none⟩⟩
      exact ⟨{ init := .ok init }, _, under_exec.mpr ⟨⟨init, rfl⟩, rfl⟩⟩
    | listTools =>
      refine ⟨{ tools := .ok ((s.created[object]?.map tools).getD []) }, _,
        under_exec.mpr ⟨fun d hd => ?_, rfl⟩⟩
      rw [hd]
      rfl
    | _ => exact ⟨{}, _, under_exec.mpr ⟨trivial, rfl⟩⟩

/-! ## Names with dots -/

/-- What is before the first dot is the namespace exactly when that has no dot. -/
theorem takeWhile_append_dot {ns rest : List Char} :
    (ns ++ '.' :: rest).takeWhile (· ≠ '.') = ns ↔ '.' ∉ ns := by
  constructor
  · intro h hdot
    rw [← h] at hdot
    simpa using List.mem_takeWhile_imp hdot
  · intro h
    have hns : ∀ c ∈ ns, decide (c ≠ '.') = true := fun c hc =>
      decide_eq_true fun heq => h (heq ▸ hc)
    rw [List.takeWhile_append_of_pos hns, List.takeWhile_cons_of_neg (by simp), List.append_nil]

/-- The hint for an exposed name is its namespace exactly when that has no dot. -/
theorem parseToolName_exposed (ns tool : String) :
    ∃ hint, (parseToolName (s!"{ns}." ++ tool)).1 = some hint ∧
      (hint = ns ↔ '.' ∉ ns.toList) := by
  have hlist : (s!"{ns}." ++ tool).toList = ns.toList ++ '.' :: tool.toList := by
    simp [toString]
  have hdot : (ns.toList ++ '.' :: tool.toList).dropWhile (· ≠ '.') ≠ [] := by
    rw [Ne, List.dropWhile_eq_nil_iff]
    intro h
    simpa using h '.' (by simp)
  obtain ⟨c, rest, hdrop⟩ := List.exists_cons_of_ne_nil hdot
  refine ⟨String.ofList ((ns.toList ++ '.' :: tool.toList).takeWhile (· ≠ '.')), ?_, ?_⟩
  · rw [parseToolName, splitOnce, hlist, hdrop]
  · rw [← String.toList_inj, String.toList_ofList, takeWhile_append_dot]

/-- **A tool name is taken apart into the namespace and the downstream name** exactly when the
namespace has no dot. -/
theorem oneShotName_eq_some_iff {definition : BackendDef} {toolName tool : String} :
    oneShotName definition toolName = some tool ↔
      toolName = computeExposedName definition.toolNamespace tool ∧
        ∀ ns, definition.toolNamespace = some ns → '.' ∉ ns.toList := by
  rw [oneShotName]
  rcases hns : definition.toolNamespace with _ | ns
  · simp [computeExposedName]
  · have hexposed : computeExposedName (some ns) tool = s!"{ns}." ++ tool := by
      simp [computeExposedName, toString]
    obtain ⟨hint, hparsed, hdot⟩ := parseToolName_exposed ns tool
    dsimp only
    rw [hexposed]
    constructor
    · intro h
      split at h
      · cases h
      · rename_i hhint
        obtain rfl := append_of_stripPrefix h
        rw [hparsed, Option.any_some, decide_eq_true_eq, not_not] at hhint
        refine ⟨rfl, fun ns' hns' => ?_⟩
        obtain rfl := Option.some.inj hns'
        exact hdot.mp hhint
    · rintro ⟨rfl, hfree⟩
      have hhint : hint = ns := hdot.mpr (hfree ns rfl)
      rw [hparsed, Option.any_some, hhint, if_neg (by simp), stripPrefix_append]

/-- What the search finds at a backend. -/
theorem oneShotFinds_eq_some_iff {toolName tool : String} {d d' : BackendDef} :
    oneShotFinds tools toolName d' = some (d, tool) ↔
      d' = d ∧ oneShotName d toolName = some tool ∧ ListsTool tools d tool := by
  rw [oneShotFinds]
  rcases hname : oneShotName d' toolName with _ | downstreamName
  · refine iff_of_false nofun ?_
    rintro ⟨rfl, hname', -⟩
    rw [hname] at hname'
    cases hname'
  · have hlists : (tools d').any (·.name = downstreamName) = true ↔
        ListsTool tools d' downstreamName := by
      simp [ListsTool]
    dsimp only
    split
    · rename_i hany
      constructor
      · rintro h
        obtain ⟨rfl, rfl⟩ := Prod.mk.inj (Option.some.inj h)
        exact ⟨rfl, hname, hlists.mp hany⟩
      · rintro ⟨rfl, hname', -⟩
        rw [hname] at hname'
        rw [Option.some.inj hname']
    · rename_i hany
      refine iff_of_false nofun ?_
      rintro ⟨rfl, hname', hlisted⟩
      rw [hname] at hname'
      obtain rfl := Option.some.inj hname'
      exact hany (hlists.mpr hlisted)

/-! ## Agreement -/

/-- The name is the exposed name of a tool that is listed by a backend whose namespace has a
dot. -/
def UnderDottedNamespace (cfg : HubConfig) (tools : BackendDef → List ToolDescriptor)
    (toolName : String) : Prop :=
  ∃ d ∈ cfg.backends, ∃ ns, d.toolNamespace = some ns ∧ '.' ∈ ns.toList ∧
    ∃ tool, ListsTool tools d tool ∧ toolName = computeExposedName (some ns) tool

/-- The search selects a backend and a downstream name: it ends, and whenever it ends it has found
these. -/
def Selects (cfg : HubConfig) (tools : BackendDef → List ToolDescriptor) (toolName : String)
    (definition : BackendDef) (tool : String) : Prop :=
  (∃ es x t, (oneShotMachine.under (Reachable tools)).solo () (findBackend toolName cfg.backends)
      es ⟨[], []⟩ = some (x, t)) ∧
    ∀ es x t, (oneShotMachine.under (Reachable tools)).solo () (findBackend toolName cfg.backends)
      es ⟨[], []⟩ = some (x, t) → x = .done (some (definition, tool))

/-- The search selects the first backend at which it finds the tool. -/
theorem selects_iff {toolName tool : String} {d : BackendDef} :
    Selects cfg tools toolName d tool ↔
      cfg.backends.findSome? (oneShotFinds tools toolName) = some (d, tool) := by
  obtain ⟨es, ⟨x, t⟩, hrun⟩ := (oneShotMachine.under (Reachable tools)).exists_solo
    (fun β o s => @reachable_total tools β o s) (findBackend toolName cfg.backends) ⟨[], []⟩
  have hfound := wp_solo _ wp_findBackend_reachable hrun
  constructor
  · rintro ⟨-, h⟩
    have hx := h es x t hrun
    rw [hfound] at hx
    exact Outcome.done.inj hx
  · refine fun h => ⟨⟨es, x, t, hrun⟩, fun es x t hrun => ?_⟩
    rw [wp_solo _ wp_findBackend_reachable hrun, h]

/-- **One-shot calls and the hub select the same backend exactly for the names that are not under a
namespace with a dot.** Where every backend is reachable and has no tool filters, and a hub has
connected all of them, a name is selected at a backend under a downstream name if and only if the
hub has it indexed to this backend with this downstream name; and that is so exactly when no
backend whose namespace has a dot lists a tool that is exposed under the name. -/
theorem oneShot_agrees_iff {toolName : String}
    (hfilters : ∀ d ∈ cfg.backends, d.toolsAllow = [] ∧ d.toolsDeny = [])
    (run : ConnectedHub ι cfg tools) :
    (∀ d ∈ cfg.backends, ∀ tool,
      Selects cfg tools toolName d tool ↔ IndexedTo run.hub toolName d.id tool) ↔
      ¬ UnderDottedNamespace cfg tools toolName := by
  simp only [selects_iff]
  constructor
  · rintro h ⟨d, hd, ns, hns, hdot, tool, hlists, rfl⟩
    have hindexed : IndexedTo run.hub (computeExposedName (some ns) tool) d.id tool :=
      (run.indexedTo_iff hd (hfilters d hd)).mpr ⟨by rw [hns], hlists⟩
    obtain ⟨d', -, hfound⟩ := List.exists_of_findSome?_eq_some ((h d hd tool).mpr hindexed)
    obtain ⟨rfl, hname, -⟩ := oneShotFinds_eq_some_iff.mp hfound
    exact (oneShotName_eq_some_iff.mp hname).2 ns hns hdot
  · intro hfree d hd tool
    -- the search finds at a backend what is indexed to it
    have hfinds {d' d'' : BackendDef} {tool' : String} (hd'' : d'' ∈ cfg.backends) :
        oneShotFinds tools toolName d' = some (d'', tool') ↔
          d' = d'' ∧ IndexedTo run.hub toolName d''.id tool' := by
      rw [oneShotFinds_eq_some_iff, run.indexedTo_iff hd'' (hfilters d'' hd''),
        oneShotName_eq_some_iff, and_assoc]
      refine and_congr_right fun _ => and_congr_right fun hname => ?_
      refine and_iff_right_of_imp fun hlists ns hns hdot => hfree ?_
      exact ⟨d'', hd'', ns, hns, hdot, tool', hlists, hns ▸ hname⟩
    constructor
    · intro h
      obtain ⟨d', -, hfound⟩ := List.exists_of_findSome?_eq_some h
      exact ((hfinds hd).mp hfound).2
    · intro hindexed
      have hfound := (hfinds hd).mpr ⟨rfl, hindexed⟩
      have hsome : (cfg.backends.findSome? (oneShotFinds tools toolName)).isSome = true :=
        List.findSome?_isSome_iff.mpr ⟨d, hd, by rw [hfound]; rfl⟩
      obtain ⟨⟨d', tool'⟩, hfirst⟩ := Option.isSome_iff_exists.mp hsome
      obtain ⟨d'', hd'', hfound'⟩ := List.exists_of_findSome?_eq_some hfirst
      obtain ⟨rfl, -⟩ := oneShotFinds_eq_some_iff.mp hfound'
      -- the index has the name once
      obtain ⟨-, routed', hget', hid', htool'⟩ := (hfinds hd'').mp hfound'
      obtain ⟨routed, hget, hid, htool⟩ := hindexed
      obtain rfl := Option.some.inj (hget.symm.trans hget')
      rw [hfirst, HubConfig.eq_of_id hd'' hd (hid'.symm.trans hid), htool'.symm.trans htool]

/-! ### Sample hubs -/

/-- A config with one backend. -/
def soleConfig (ns : String) : HubConfig where
  backends := [eventBackend "b" (some ns)]
  idsUnique := List.nodup_singleton "b"
  expose := []

/-- It lists one tool. -/
def soleTools : BackendDef → List ToolDescriptor := fun _ => [⟨"up", "", .null⟩]

/-- The hub with this backend. -/
def soleHub (ns : String) : ConnectedHub Unit (soleConfig ns) soleTools where
  task := ()
  definitions := [eventBackend "b" (some ns)]
  ids := ["b"]
  listing _ := [⟨"up", "", .null⟩]
  registering := [{}]
  base := { RegistryWorld.empty Unit with
    backends := [("b", ⟨eventBackend "b" (some ns), 0, false, none, 0⟩)] }
  connecting := [{}, .greeted, {}, .offering ["up"], {}]
  results := [("b", .ok ())]
  hub :=
    { backends := [("b", ⟨eventBackend "b" (some ns), 0, true, some ⟨none, none, none, none⟩, 0⟩)]
      index := [indexEntry "b" (some ns) [] ⟨"up", "", .null⟩]
      forwarded := [] }
  definitions_perm := List.Perm.refl _
  ids_perm := List.Perm.refl _
  registers := rfl
  lists := fun _ _ _ _ => rfl
  serving := by
    refine SoloMeets.cons trivial rfl (SoloMeets.cons ⟨_, rfl⟩ rfl ?_)
    refine SoloMeets.cons trivial rfl (SoloMeets.cons rfl rfl ?_)
    exact SoloMeets.cons trivial rfl trivial
  connects := rfl
  ok := List.forall_mem_singleton.mpr rfl

theorem soleHub_indexed (ns : String) :
    IndexedTo (soleHub ns).hub (computeExposedName (some ns) "up") "b" "up" :=
  ⟨_, if_pos rfl, rfl, rfl⟩

/-- A config with a bare backend and one with a namespace. -/
def mixedConfig : HubConfig where
  backends := [eventBackend "a" none, eventBackend "b" (some "vpn")]
  idsUnique := by decide
  expose := []

/-- The bare one lists a tool with a dot in its name. -/
def mixedTools (definition : BackendDef) : List ToolDescriptor :=
  if definition.id = "a" then [⟨"page.get", "", .null⟩] else [⟨"up", "", .null⟩]

/-- The hub with these two. -/
def mixedHub : ConnectedHub Unit mixedConfig mixedTools where
  task := ()
  definitions := [eventBackend "a" none, eventBackend "b" (some "vpn")]
  ids := ["a", "b"]
  listing object := if object = 0 then [⟨"page.get", "", .null⟩] else [⟨"up", "", .null⟩]
  registering := [{}, {}]
  base := { RegistryWorld.empty Unit with
    backends := [("a", ⟨eventBackend "a" none, 0, false, none, 0⟩),
      ("b", ⟨eventBackend "b" (some "vpn"), 1, false, none, 0⟩)] }
  connecting := [{}, .greeted, {}, .offering ["page.get"], {},
    {}, .greeted, {}, .offering ["up"], {}]
  results := [("a", .ok ()), ("b", .ok ())]
  hub :=
    { backends := [("a", ⟨eventBackend "a" none, 0, true, some ⟨none, none, none, none⟩, 0⟩),
        ("b", ⟨eventBackend "b" (some "vpn"), 1, true, some ⟨none, none, none, none⟩, 0⟩)]
      index := [indexEntry "a" none [] ⟨"page.get", "", .null⟩,
        indexEntry "b" (some "vpn") [] ⟨"up", "", .null⟩]
      forwarded := [] }
  definitions_perm := List.Perm.refl _
  ids_perm := List.Perm.refl _
  registers := rfl
  lists := by
    intro d hd object hobject
    rcases List.mem_cons.mp hd with rfl | hd
    · obtain rfl : 0 = object := (Prod.mk.inj (Option.some.inj hobject)).2
      rfl
    · obtain rfl := List.mem_singleton.mp hd
      obtain rfl : 1 = object := (Prod.mk.inj (Option.some.inj hobject)).2
      rfl
  serving := by
    refine SoloMeets.cons trivial rfl (SoloMeets.cons ⟨_, rfl⟩ rfl ?_)
    refine SoloMeets.cons trivial rfl (SoloMeets.cons rfl rfl ?_)
    refine SoloMeets.cons trivial rfl (SoloMeets.cons trivial rfl (SoloMeets.cons ⟨_, rfl⟩ rfl ?_))
    refine SoloMeets.cons trivial rfl (SoloMeets.cons rfl rfl ?_)
    exact SoloMeets.cons trivial rfl trivial
  connects := rfl
  ok := List.forall_mem_cons.mpr ⟨rfl, List.forall_mem_singleton.mpr rfl⟩

/-- The tools of both backends are selected, the one with a dot in its own name too. -/
theorem tool_is_selected :
    Selects mixedConfig mixedTools "page.get" (eventBackend "a" none) "page.get" ∧
      Selects mixedConfig mixedTools "vpn.up" (eventBackend "b" (some "vpn")) "up" := by
  have hclear (name : String) : ¬ UnderDottedNamespace mixedConfig mixedTools name := by
    rintro ⟨d, hd, ns, hns, hdot, -⟩
    rcases List.mem_cons.mp hd with rfl | hd
    · cases hns
    · obtain rfl := List.mem_singleton.mp hd
      obtain rfl := Option.some.inj hns
      exact absurd hdot (by decide +kernel)
  have hfilters : ∀ d ∈ mixedConfig.backends, d.toolsAllow = [] ∧ d.toolsDeny = [] := by
    intro d hd
    rcases List.mem_cons.mp hd with rfl | hd
    · exact ⟨rfl, rfl⟩
    · obtain rfl := List.mem_singleton.mp hd
      exact ⟨rfl, rfl⟩
  refine ⟨((oneShot_agrees_iff hfilters mixedHub).mpr (hclear "page.get") _ List.mem_cons_self
    "page.get").mpr ?_, ((oneShot_agrees_iff hfilters mixedHub).mpr (hclear "vpn.up") _
      (List.mem_cons_of_mem _ List.mem_cons_self) "up").mpr ?_⟩
  · exact ⟨_, if_pos rfl, rfl, rfl⟩
  · exact ⟨_, rfl, rfl, rfl⟩

/-- The hub has the tool of a backend with a dot in its namespace, and the search does not find
it. -/
theorem dotted_namespace_is_skipped :
    IndexedTo (soleHub "my.vpn").hub "my.vpn.up" "b" "up" ∧
      oneShotMachine.solo () (findBackend "my.vpn.up" (soleConfig "my.vpn").backends) [] ⟨[], []⟩ =
        some (.done none, ⟨[], []⟩) ∧
      ¬ Selects (soleConfig "my.vpn") soleTools "my.vpn.up" (eventBackend "b" (some "my.vpn")) "up" := by
  have hnone : oneShotName (eventBackend "b" (some "my.vpn")) "my.vpn.up" = none := by
    decide +kernel
  have hsearch : findBackend "my.vpn.up" (soleConfig "my.vpn").backends = .ret none := by
    rw [soleConfig, findBackend, hnone]
    rfl
  refine ⟨soleHub_indexed "my.vpn", ?_, fun h => ?_⟩
  · rw [hsearch]
    rfl
  · have hfound := h.2 [] (.done none) ⟨[], []⟩ (by rw [hsearch]; rfl)
    cases hfound

end HeadlessMcp
