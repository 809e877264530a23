import HeadlessMcp.Async.Solo
import HeadlessMcp.Registry.Routing
import HeadlessMcp.Server.Config

/-!
# Expose blocks

An expose block lists the backends of one listener, with tool filters of its own. They are
meant to apply on top of the backend's filters, but `build_expose_registry` puts a list of
the block in the place of the backend's list. `Narrows` is the exact condition on the four
lists under which what the block offers is still within both.
-/

namespace HeadlessMcp

open Async

variable {ι : Type}

/-! ## The registry of a block -/

/-- The registry that `build_expose_registry` leaves. The build has returned `Ok`, so no id was
registered twice. -/
def Built (cfg : HubConfig) (eb : ExposeBlock) (base : RegistryWorld ι) : Prop :=
  ∃ i es, (registryMachine ι).solo i (buildExposeRegistry cfg eb) es (RegistryWorld.empty ι) =
    some (.done (.ok ()), base)

/-- A tool of a backend that the registry lists and routes: both go by the index. -/
def Offers (s : RegistryWorld ι) (id tool : String) : Prop :=
  ∃ entry ∈ s.index, entry.2.backendId = id ∧ entry.2.downstreamName = tool

/-- Where the registration of some backends leads: they are known, nothing is indexed or
forwarded. -/
structure Registered (s : RegistryWorld ι) (definitions : List BackendDef)
    (t : RegistryWorld ι) : Prop where
  kept : Extends s t
  index : t.index = s.index
  forwarded : t.forwarded = s.forwarded
  known : ∀ d ∈ definitions, ∃ object, t.known d.id = some (d, object)

theorem wp_registerEach {i : ι} {definitions : List BackendDef} {object : Nat}
    {s : RegistryWorld ι} :
    (registryMachine ι).wp i (registerEach definitions object)
      (fun x t => x = .done (.ok ()) → Registered s definitions t) s := by
  induction definitions generalizing object s with
  | nil => exact fun _ => ⟨Extends.refl s, rfl, rfl, fun d hd => absurd hd List.not_mem_nil⟩
  | cons definition definitions ih =>
    simp only [registerEach, Registry.register, Prog.bind_eq, Prog.perform_bind, Prog.op_bind]
    rintro e new t he
    simp only [registryMachine, RegistryWorld.exec] at he
    split at he
    · obtain ⟨rfl, rfl⟩ := Prod.mk.inj (Option.some.inj he)
      rintro h
      cases h
    · rename_i hnew
      obtain ⟨rfl, rfl⟩ := Prod.mk.inj (Option.some.inj he)
      refine Machine.wp_mono _ ih fun x u hu hx => ?_
      obtain ⟨hext, hindex, hforwarded, hknown⟩ := hu hx
      have hinsert := @extends_insertBackend _ s ⟨definition, object, false, none, 0⟩ hnew
      refine ⟨hinsert.trans hext, hindex, hforwarded, fun d hd => ?_⟩
      rcases List.mem_cons.mp hd with rfl | hd
      · refine ⟨object, hext _ _ ?_⟩
        simp [RegistryWorld.known]
      · exact hknown d hd

/-- Backends with fresh and different ids are all registered. -/
theorem registerEach_succeeds {i : ι} {definitions : List BackendDef} {object : Nat}
    {s : RegistryWorld ι} (hunique : (definitions.map (·.id)).Nodup)
    (hfresh : ∀ d ∈ definitions, s.backends.get d.id = none) :
    ∃ es t, (registryMachine ι).solo i (registerEach definitions object) es s =
      some (.done (.ok ()), t) := by
  induction definitions generalizing object s with
  | nil => exact ⟨[], s, rfl⟩
  | cons definition definitions ih =>
    obtain ⟨hnot, hunique⟩ := List.nodup_cons.mp hunique
    have hnew := hfresh definition List.mem_cons_self
    obtain ⟨es, t, hrest⟩ := @ih (object + 1)
      { s with backends := s.backends.insert definition.id ⟨definition, object, false, none, 0⟩ }
      hunique fun d hd => by
        have hne : d.id ≠ definition.id := fun heq =>
          hnot (List.mem_map.mpr ⟨d, hd, heq⟩)
        rw [Entries.get_insert_ne hne]
        exact hfresh d (List.mem_cons_of_mem _ hd)
    refine ⟨{} :: es, t, ?_⟩
    simp only [registerEach, Registry.register, Prog.bind_eq, Prog.perform_bind, Prog.op_bind,
      Machine.solo_op_cons]
    simp [registryMachine, RegistryWorld.exec, Entries.containsKey, hnew]
    exact hrest

/-! ## What a block offers -/

/-- The exact condition on the four lists: where both sides have an allow list, the block's
has no tool that the backend does not allow, apart from denied ones; and where the block
has a deny list, every tool that the backend denies is on it, or is not allowed anyway. -/
def Narrows (definition : BackendDef) (ebc : ExposeBackendConfig) : Prop :=
  (ebc.toolsAllow = [] ∨ definition.toolsAllow = [] ∨ ∀ tool ∈ ebc.toolsAllow,
    tool ∉ (exposeDef definition ebc).toolsDeny → tool ∈ definition.toolsAllow) ∧
  (ebc.toolsDeny = [] ∨ ∀ tool ∈ definition.toolsDeny, tool ∈ ebc.toolsDeny ∨
    ((exposeDef definition ebc).toolsAllow ≠ [] ∧
      tool ∉ (exposeDef definition ebc).toolsAllow))

instance (definition : BackendDef) (ebc : ExposeBackendConfig) :
    Decidable (Narrows definition ebc) := inferInstanceAs (Decidable (_ ∧ _))

/-- A tool passes the filters of the backend and those of the block. It is what a user who writes
both lists expects of them. -/
def PassesBoth (definition : BackendDef) (ebc : ExposeBackendConfig) (tool : String) : Prop :=
  PassesFilters definition.toolsAllow definition.toolsDeny tool ∧
    PassesFilters ebc.toolsAllow ebc.toolsDeny tool

/-- What passes the registered filters passes the block's own. -/
theorem passesFilters_of_exposeDef {definition : BackendDef} {ebc : ExposeBackendConfig}
    {tool : String} (h : PassesFilters (exposeDef definition ebc).toolsAllow
      (exposeDef definition ebc).toolsDeny tool) :
    PassesFilters ebc.toolsAllow ebc.toolsDeny tool := by
  obtain ⟨hallow, hdeny⟩ := h
  constructor
  · by_cases hempty : ebc.toolsAllow = []
    · exact .inl hempty
    · simpa [exposeDef, hempty] using hallow
  · by_cases hempty : ebc.toolsDeny = []
    · simp [hempty]
    · simpa [exposeDef, hempty] using hdeny

/-- The lists are narrowing exactly when what passes the registered filters passes the
backend's own. -/
theorem narrows_iff {definition : BackendDef} {ebc : ExposeBackendConfig} :
    Narrows definition ebc ↔ ∀ tool, PassesFilters (exposeDef definition ebc).toolsAllow
      (exposeDef definition ebc).toolsDeny tool →
        PassesFilters definition.toolsAllow definition.toolsDeny tool := by
  constructor
  · rintro ⟨hallow, hdeny⟩ tool ⟨hin, hout⟩
    constructor
    · rcases hallow with hempty | hempty | hallow
      · simpa [exposeDef, hempty] using hin
      · exact .inl hempty
      · by_cases hempty : ebc.toolsAllow = []
        · simpa [exposeDef, hempty] using hin
        · have hmem : tool ∈ ebc.toolsAllow := by simpa [exposeDef, hempty] using hin
          exact .inr (hallow tool hmem hout)
    · by_cases hempty : ebc.toolsDeny = []
      · simpa [exposeDef, hempty] using hout
      · rcases hdeny with h | hdeny
        · exact absurd h hempty
        intro htool
        rcases hdeny tool htool with hblock | ⟨hsome, hnot⟩
        · exact hout (by simpa [exposeDef, hempty] using hblock)
        · exact hin.elim hsome hnot
  · intro h
    constructor
    · by_cases hempty : ebc.toolsAllow = []
      · exact .inl hempty
      refine .inr (or_iff_not_imp_left.mpr fun hsome tool htool hout => ?_)
      have hin : tool ∈ (exposeDef definition ebc).toolsAllow := by simpa [exposeDef, hempty]
      exact (h tool ⟨.inr hin, hout⟩).1.resolve_left hsome
    · by_cases hempty : ebc.toolsDeny = []
      · exact .inl hempty
      refine .inr fun tool htool => or_iff_not_imp_left.mpr fun hnot => ?_
      -- a tool that the backend denies and the block does not: it must not be allowed
      have hout : tool ∉ (exposeDef definition ebc).toolsDeny := by simpa [exposeDef, hempty]
      by_contra hallowed
      have hin : (exposeDef definition ebc).toolsAllow = [] ∨
          tool ∈ (exposeDef definition ebc).toolsAllow := by grind
      exact (h tool ⟨hin, hout⟩).2 htool

/-! ## Runs of a block's registry -/

/-- The backends of a block have different ids. -/
theorem exposedDefs_unique (cfg : HubConfig) (eb : ExposeBlock) :
    ((exposedDefs cfg eb).map (·.id)).Nodup := by
  have hsub : ((exposedDefs cfg eb).map (·.id)).Sublist (cfg.backends.map (·.id)) := by
    rw [exposedDefs]
    induction cfg.backends with
    | nil => exact List.Sublist.refl _
    | cons definition definitions ih =>
      rw [List.filterMap_cons, List.map_cons]
      cases eb.backends.get definition.id with
      | none => exact ih.cons _
      | some ebc => exact ih.cons_cons _
  exact hsub.nodup cfg.idsUnique

/-- A registered backend that lists a tool which passes its filters gets it indexed. -/
theorem offers_of_connect {base : RegistryWorld Unit} {id tool : String}
    {definition : BackendDef} {object : Nat} (hindex : base.index = [])
    (hknown : base.known id = some (definition, object))
    (hpasses : PassesFilters definition.toolsAllow definition.toolsDeny tool) :
    ∃ ls c, (registryMachine Unit).play ls (hubFrom base fun _ => .connect id) = some c ∧
      Offers c.shared id tool := by
  obtain ⟨handle, hget, heq⟩ := Option.map_eq_some_iff.mp hknown
  obtain ⟨rfl, rfl⟩ := Prod.mk.inj heq
  have hfilter : filterTools handle.definition.toolsAllow handle.definition.toolsDeny
      [⟨tool, "", .null⟩] = [⟨tool, "", .null⟩] := by
    obtain ⟨hallow, hdeny⟩ := hpasses
    rcases hallow with hallow | hallow <;> simp [filterTools, hallow, hdeny]
  let init : InitializeResult := ⟨"", ⟨"", ""⟩, ⟨none, none, none, none⟩⟩
  refine ⟨[((), {}), ((), { init := .ok init }), ((), {}),
    ((), { tools := .ok [⟨tool, "", .null⟩] }), ((), {})], ?_⟩
  simp [Machine.play, Machine.step, Machine.fire, hubFrom, RegistryCall.run,
    Registry.connectBackend, registryMachine, RegistryWorld.exec, hget, RegistryChoice.answer,
    RegistryWorld.record, McpOp.forwards, hfilter, reindexTools, indexTools, hindex,
    Entries.retain, Prog.perform, Offers, Entries.insert]

/-- **An expose block stays within both filters exactly when its lists are narrowing.** Every tool
that the block's registry ever offers for a backend, in any run of any calls and whatever the
backends list, passes the backend's filters and the block's. A list of the block that is given
takes the place of the backend's, so it has to say again what the backend's list says. -/
theorem offers_within_both_iff {cfg : HubConfig} {eb : ExposeBlock} {definition : BackendDef}
    {ebc : ExposeBackendConfig} (hmem : definition ∈ cfg.backends)
    (hblock : eb.backends.get definition.id = some ebc) :
    (∀ (ι : Type) [DecidableEq ι] (base : RegistryWorld ι) (calls : ι → RegistryCall)
      (ls : List (ι × RegistryChoice)) (c : Pool RegistryOp ι (RegistryWorld ι) RegistryAnswer),
      Built cfg eb base → (registryMachine ι).play ls (hubFrom base calls) = some c →
        ∀ tool, Offers c.shared definition.id tool → PassesBoth definition ebc tool) ↔
      Narrows definition ebc := by
  have hexposed : exposeDef definition ebc ∈ exposedDefs cfg eb :=
    List.mem_filterMap.mpr ⟨definition, hmem, by rw [hblock]; rfl⟩
  -- what a built registry knows of the backend
  have hbuilt {ι : Type} {base : RegistryWorld ι} (h : Built cfg eb base) :
      base.index = [] ∧ base.forwarded = [] ∧
        ∃ object, base.known definition.id = some (exposeDef definition ebc, object) := by
    obtain ⟨i, es, hsolo⟩ := h
    obtain ⟨-, hindex, hforwarded, hknown⟩ := Machine.wp_solo _ wp_registerEach hsolo rfl
    exact ⟨hindex, hforwarded, hknown _ hexposed⟩
  rw [narrows_iff]
  constructor
  · rintro h tool hpasses
    obtain ⟨es, base, hsolo⟩ := @registerEach_succeeds Unit () (exposedDefs cfg eb) 0
      (RegistryWorld.empty Unit) (exposedDefs_unique cfg eb) fun _ _ => rfl
    have hbase : Built cfg eb base := ⟨(), es, hsolo⟩
    obtain ⟨hindex, -, object, hknown⟩ := hbuilt hbase
    obtain ⟨ls, c, hplay, hoffers⟩ := offers_of_connect hindex hknown hpasses
    exact (h Unit base _ ls c hbase hplay tool hoffers).1
  · rintro h ι _ base calls ls c hbase hplay tool ⟨entry, hentry, hid, rfl⟩
    obtain ⟨hindex, hforwarded, object, hknown⟩ := hbuilt hbase
    have hinv := hubInv_of_play hindex hforwarded hplay
    obtain ⟨definition', object', hknown', hpasses, -⟩ := (hinv.index entry hentry).backend
    -- the backend of the entry is still registered as the block registered it
    have hstill := hinv.registered _ _ hknown
    rw [hid, hstill] at hknown'
    obtain ⟨rfl, rfl⟩ := Prod.mk.inj (Option.some.inj hknown')
    exact ⟨h _ hpasses, passesFilters_of_exposeDef hpasses⟩

/-! ### A block that widens -/

/-- A mailbox that may not send. -/
def noSending : BackendDef where
  id := "mail"
  transport := .stdio "mail-server" [] [] none
  toolNamespace := some "mail"
  connectionMode := .eager
  connectTimeoutSecs := 10
  callTimeoutSecs := 30
  toolsAllow := []
  toolsDeny := ["send"]
  unavailableHint := none
  forwardRequestMeta := false
  pinArgs := []
  pinArgsUnique := List.nodup_nil
  denyArgs := []

/-- A block that hides the drafts as well. -/
def noDrafts : ExposeBlock := ⟨8090, [("mail", ⟨[], ["draft"]⟩)]⟩

/-- The mailbox behind the block. -/
def mailConfig : HubConfig where
  backends := [noSending]
  expose := [noDrafts]

/-- The block offers the tool that the backend denies. -/
theorem denied_tool_is_offered :
    ∃ (base : RegistryWorld Unit) (ls : List (Unit × RegistryChoice))
      (c : Pool RegistryOp Unit (RegistryWorld Unit) RegistryAnswer),
      Built mailConfig noDrafts base ∧
      (registryMachine Unit).play ls (hubFrom base fun _ => .connect "mail") = some c ∧
      Offers c.shared "mail" "send" ∧ ¬ PassesFilters noSending.toolsAllow noSending.toolsDeny
        "send" := by
  refine ⟨_, [((), {}), ((), { init := .ok ⟨"", ⟨"", ""⟩, ⟨none, none, none, none⟩⟩ }), ((), {}),
    ((), { tools := .ok [⟨"send", "", .null⟩] }), ((), {})], _, ⟨(), [{}], rfl⟩, rfl, ?_, by decide⟩
  exact ⟨_, List.mem_cons_self, rfl, rfl⟩

/-- A block whose lists are narrowing: it allows one of the tools. -/
theorem one_tool_is_offered :
    Narrows noSending ⟨["read"], []⟩ ∧
    ∀ (ι : Type) [DecidableEq ι] (base : RegistryWorld ι) (calls : ι → RegistryCall)
      (ls : List (ι × RegistryChoice)) (c : Pool RegistryOp ι (RegistryWorld ι) RegistryAnswer),
      Built mailConfig ⟨8090, [("mail", ⟨["read"], []⟩)]⟩ base →
        (registryMachine ι).play ls (hubFrom base calls) = some c →
        ∀ tool, Offers c.shared "mail" tool → PassesBoth noSending ⟨["read"], []⟩ tool := by
  have hnarrows : Narrows noSending ⟨["read"], []⟩ := by decide
  refine ⟨hnarrows, ?_⟩
  exact (@offers_within_both_iff mailConfig ⟨8090, [("mail", ⟨["read"], []⟩)]⟩ noSending
    ⟨["read"], []⟩ List.mem_cons_self rfl).mpr hnarrows

end HeadlessMcp
