import HeadlessMcp.Core.Types

/-!
# Tool filters and argument policy

What a backend's definition says about its tools: which of them are exposed, under
which name, and which arguments a call may carry. These functions are pure; the
registry applies them when it indexes a listing and when it routes a call.

Two facts about them carry the routing: what the filters keep is what passes them
(`mem_filterTools`), and what the argument policy yields obeys it (`obeys_of_applyArgPolicy`).
-/

namespace HeadlessMcp

/-! ## Tools -/

/-- The filters of `connect_backend`: the allow list, then the deny list; an empty list
filters nothing. -/
def filterTools (toolsAllow toolsDeny : List String) (tools : List ToolDescriptor) :
    List ToolDescriptor :=
  let tools := if toolsAllow ≠ [] then tools.filter (·.name ∈ toolsAllow) else tools
  if toolsDeny ≠ [] then tools.filter (·.name ∉ toolsDeny) else tools

/-- A downstream name passes the filters. An empty list of allowed tools allows all of them, and a
denied tool is never let through. -/
def PassesFilters (toolsAllow toolsDeny : List String) (name : String) : Prop :=
  (toolsAllow = [] ∨ name ∈ toolsAllow) ∧ name ∉ toolsDeny

instance (toolsAllow toolsDeny : List String) (name : String) :
    Decidable (PassesFilters toolsAllow toolsDeny name) :=
  inferInstanceAs (Decidable (_ ∧ _))

/-- The filters keep exactly the tools that pass. -/
theorem mem_filterTools {toolsAllow toolsDeny : List String} {tools : List ToolDescriptor}
    {t : ToolDescriptor} :
    t ∈ filterTools toolsAllow toolsDeny tools ↔
      t ∈ tools ∧ PassesFilters toolsAllow toolsDeny t.name := by
  unfold filterTools PassesFilters
  by_cases hallow : toolsAllow = [] <;> by_cases hdeny : toolsDeny = [] <;>
    simp [hallow, hdeny]
  exact fun _ => and_comm

/-- `compute_exposed_name`. Without a namespace a tool is exposed under its own name. -/
def computeExposedName (toolNamespace : Option String) (toolName : String) : String :=
  match toolNamespace with
  | some ns => s!"{ns}.{toolName}"
  | none => toolName

/-- `str::strip_prefix`. -/
def stripPrefix (start s : String) : Option String :=
  if start.toList.isPrefixOf s.toList then some (String.ofList (s.toList.drop start.length))
  else none

@[simp] theorem stripPrefix_append (start s : String) : stripPrefix start (start ++ s) = some s := by
  have hbegins : start.toList.isPrefixOf (start.toList ++ s.toList) = true :=
    List.isPrefixOf_iff_prefix.mpr (List.prefix_append _ _)
  rw [stripPrefix, String.toList_append, if_pos hbegins, ← String.length_toList,
    List.drop_left, String.ofList_toList]

/-- What is stripped can be put back. -/
theorem append_of_stripPrefix {start s rest : String} (h : stripPrefix start s = some rest) :
    s = start ++ rest := by
  unfold stripPrefix at h
  split at h
  · rename_i hbegins
    obtain ⟨tail, htail⟩ := List.isPrefixOf_iff_prefix.mp hbegins
    obtain rfl := Option.some.inj h
    rw [← htail, ← String.length_toList, List.drop_left]
    apply String.toList_injective
    rw [String.toList_append, String.toList_ofList, htail]
  · cases h

/-- The downstream name of an exposed one. It is looked up by taking the namespace and its dot
off. -/
def downstreamOf (toolNamespace : Option String) (exposedName : String) : Option String :=
  match toolNamespace with
  | some ns => stripPrefix s!"{ns}." exposedName
  | none => some exposedName

/-- Exposing a name and taking the prefix off again gives the name back. -/
@[simp] theorem downstreamOf_computeExposedName (toolNamespace : Option String) (name : String) :
    downstreamOf toolNamespace (computeExposedName toolNamespace name) = some name := by
  cases toolNamespace with
  | none => rfl
  | some ns => exact stripPrefix_append _ _

/-- `hidden_args`: pinned and denied arguments are hidden from callers. -/
def hiddenArgs (d : BackendDef) : List String := d.pinArgs.keys ++ d.denyArgs

/-- `strip_schema_args`: a schema without the hidden arguments. They are taken out of the
properties and out of the required arguments, and the rest of the schema is left as it is. -/
def stripSchemaArgs (schema : Value) (hidden : List String) : Value :=
  if hidden = [] then schema
  else
    let schema := match schema.get "properties" with
      | some (.object props) =>
        schema.setField "properties" (.object (props.filter fun e => e.1 ∉ hidden))
      | _ => schema
    match schema.get "required" with
    | some (.array required) => schema.setField "required"
        (.array (required.filter fun v => !(v.asStr.any (· ∈ hidden))))
    | _ => schema

/-! ## Arguments -/

/-- `apply_arg_policy`: reject denied arguments, then force pinned ones. An argument that is both
denied and pinned is rejected when the caller gives it. -/
def applyArgPolicy (d : BackendDef) (args : Option Value) : BackendResult (Option Value) :=
  if d.pinArgs = [] ∧ d.denyArgs = [] then .ok args
  else
    let policy (obj : Map) : BackendResult (Option Value) :=
      match d.denyArgs.find? (obj.containsKey ·) with
      | some denied => .error
          ⟨.protocol, s!"argument '{denied}' is not allowed for backend '{d.id}'"⟩
      | none => .ok (some (.object (obj.insertAll d.pinArgs)))
    match args with
    | none => policy []
    | some .null => policy []
    | some (.object obj) => policy obj
    | some _ => .error ⟨.protocol, "tool arguments must be an object"⟩

/-- The value that a call carries for an argument. Arguments that are no object carry nothing. -/
def carried (args : Option Value) (key : String) : Option Value := args.bind (·.get key)

/-- The arguments obey the policy of a definition: every pinned argument has its pinned
value, and a denied one is only there when it is pinned. -/
structure Obeys (d : BackendDef) (args : Option Value) : Prop where
  pinned : ∀ key v, d.pinArgs.get key = some v → carried args key = some v
  denied : ∀ key ∈ d.denyArgs, key ∉ d.pinArgs.keys → carried args key = none

/-- What the policy yields obeys it. -/
theorem obeys_of_applyArgPolicy {d : BackendDef} {args args' : Option Value}
    (h : applyArgPolicy d args = .ok args') : Obeys d args' := by
  have policy {obj : Map}
      (h : (match d.denyArgs.find? (obj.containsKey ·) with
        | some denied => .error
            ⟨.protocol, s!"argument '{denied}' is not allowed for backend '{d.id}'"⟩
        | none => .ok (some (.object (obj.insertAll d.pinArgs))) :
          BackendResult (Option Value)) = .ok args') : Obeys d args' := by
    split at h
    · cases h
    · rename_i hfind
      cases h
      refine ⟨fun key v hv => Entries.get_insertAll d.pinArgsUnique hv, fun key hkey hnot => ?_⟩
      have habsent := List.find?_eq_none.mp hfind key hkey
      rw [carried, Option.bind_some]
      refine (Entries.get_insertAll_of_not_mem hnot).trans ?_
      simpa [Entries.containsKey] using habsent
  unfold applyArgPolicy at h
  split at h
  · rename_i hempty
    refine ⟨fun key v hv => ?_, fun key hkey => ?_⟩
    · rw [hempty.1] at hv
      cases hv
    · rw [hempty.2] at hkey
      cases hkey
  · split at h
    · exact policy h
    · exact policy h
    · exact policy h
    · cases h

/-- A backend without pinned or denied arguments is sent what the caller sent. -/
theorem applyArgPolicy_of_empty {d : BackendDef} (hpin : d.pinArgs = []) (hdeny : d.denyArgs = [])
    (args : Option Value) : applyArgPolicy d args = .ok args := by
  simp [applyArgPolicy, hpin, hdeny]

end HeadlessMcp
