import HeadlessMcp.Registry.Policy

/-!
# The advertised schema and the argument policy

Pinned and denied arguments are taken out of the schema that callers see, and the policy rejects
the denied ones and overwrites the pinned ones. The two sides fit together: a call that follows
the advertised schema is accepted, what is forwarded follows the schema of the backend, and what
a caller gives for a pinned argument makes no difference (`schema_fits_policy`).
-/

namespace HeadlessMcp

/-! ## Schemas -/

/-- The properties that a schema names. -/
def properties (schema : Value) : List String :=
  match schema.get "properties" with
  | some (.object props) => Entries.keys props
  | _ => []

/-- The arguments that it requires. -/
def required (schema : Value) : List String :=
  match schema.get "required" with
  | some (.array required) => required.filterMap Value.asStr
  | _ => []

namespace Value

variable {w v v' : Value} {key key' : String}

theorem get_setField_self (h : w.get key = some v') : (w.setField key v).get key = some v := by
  cases w with
  | object m => exact Entries.get_insert_self key v m
  | _ => cases h

theorem get_setField_ne (h : key' ≠ key) : (w.setField key v).get key' = w.get key' := by
  cases w with
  | object m => exact Entries.get_insert_ne h v m
  | _ => rfl

end Value

section Strip

variable {schema : Value} {hidden : List String} {key : String}

/-- The properties without the hidden ones. -/
def stripProperties (hidden : List String) (schema : Value) : Value :=
  match schema.get "properties" with
  | some (.object props) =>
    schema.setField "properties" (.object (props.filter fun e => e.1 ∉ hidden))
  | _ => schema

/-- The required arguments without the hidden ones. -/
def stripRequired (hidden : List String) (schema : Value) : Value :=
  match schema.get "required" with
  | some (.array required) => schema.setField "required"
      (.array (required.filter fun v => !(v.asStr.any (· ∈ hidden))))
  | _ => schema

theorem stripSchemaArgs_eq (hhidden : hidden ≠ []) :
    stripSchemaArgs schema hidden = stripRequired hidden (stripProperties hidden schema) := by
  rw [stripSchemaArgs, if_neg hhidden]
  rfl

theorem properties_stripProperties :
    key ∈ properties (stripProperties hidden schema) ↔ key ∈ properties schema ∧ key ∉ hidden := by
  unfold stripProperties
  split
  · rename_i props hget
    simp only [properties, Value.get_setField_self hget, hget, Entries.keys, List.mem_map,
      List.mem_filter, decide_eq_true_eq]
    grind
  · rename_i hget
    have hnone : properties schema = [] := by
      unfold properties
      split
      · rename_i props h
        exact absurd h (hget props)
      · rfl
    rw [hnone]
    simp

theorem required_stripProperties : required (stripProperties hidden schema) = required schema := by
  unfold stripProperties
  split
  · have hget := @Value.get_setField_ne schema
    rw [required, hget (by decide)]
    rfl
  · rfl

theorem properties_stripRequired : properties (stripRequired hidden schema) = properties schema := by
  unfold stripRequired
  split
  · have hget := @Value.get_setField_ne schema
    rw [properties, hget (by decide)]
    rfl
  · rfl

theorem required_stripRequired :
    key ∈ required (stripRequired hidden schema) ↔ key ∈ required schema ∧ key ∉ hidden := by
  unfold stripRequired
  split
  · rename_i args hget
    simp only [required, Value.get_setField_self hget, hget, List.mem_filterMap, List.mem_filter]
    grind
  · rename_i hget
    have hnone : required schema = [] := by
      unfold required
      split
      · rename_i args h
        exact absurd h (hget args)
      · rfl
    rw [hnone]
    simp

/-- The advertised properties are those that are not hidden. -/
theorem properties_stripSchemaArgs :
    key ∈ properties (stripSchemaArgs schema hidden) ↔ key ∈ properties schema ∧ key ∉ hidden := by
  by_cases hhidden : hidden = []
  · rw [stripSchemaArgs, if_pos hhidden, hhidden]
    simp
  · rw [stripSchemaArgs_eq hhidden, properties_stripRequired, properties_stripProperties]

/-- So are the required arguments. -/
theorem required_stripSchemaArgs :
    key ∈ required (stripSchemaArgs schema hidden) ↔ key ∈ required schema ∧ key ∉ hidden := by
  by_cases hhidden : hidden = []
  · rw [stripSchemaArgs, if_pos hhidden, hhidden]
    simp
  · rw [stripSchemaArgs_eq hhidden, required_stripRequired, required_stripProperties]

end Strip

/-! ## Arguments -/

/-- The arguments follow a schema: they name only its properties, and all that it requires. -/
structure Conforms (schema : Value) (args : Map) : Prop where
  known : ∀ key ∈ args.keys, key ∈ properties schema
  complete : ∀ key ∈ required schema, key ∈ args.keys

/-- What is forwarded follows the schema of the backend, the pins apart, and carries the pins. -/
structure Complies (definition : BackendDef) (schema : Value) (args : Map) : Prop where
  complete : ∀ key ∈ required schema, key ∈ args.keys
  known : ∀ key ∈ args.keys, key ∈ properties schema ∨ key ∈ definition.pinArgs.keys
  pinned : ∀ key v, definition.pinArgs.get key = some v → args.get key = some v

/-- Every denied argument that a schema requires is pinned. Otherwise the backend requires what no
caller can give. -/
def Satisfiable (definition : BackendDef) (schema : Value) : Prop :=
  ∀ key ∈ required schema, key ∈ definition.denyArgs → key ∈ definition.pinArgs.keys

/-- The arguments differ only in those that are pinned and not denied. -/
def DifferInPins (definition : BackendDef) (args args' : Map) : Prop :=
  ∀ key, (key ∈ definition.pinArgs.keys → key ∈ definition.denyArgs) → args.get key = args'.get key

/-- The same outcome: the same error, or the same arguments to forward, as maps. -/
def SameOutcome : BackendResult (Option Value) → BackendResult (Option Value) → Prop
  | .error e, .error e' => e = e'
  | .ok (some (.object args)), .ok (some (.object args')) =>
    ∀ key, Entries.get args key = Entries.get args' key
  | _, _ => False

section Policy

variable {definition : BackendDef} {args args' : Map}

/-- Arguments without a denied one are forwarded with the pins. A pin replaces what the caller
gave for the argument. -/
theorem applyArgPolicy_accepts (hdenied : ∀ key ∈ definition.denyArgs, key ∉ args.keys) :
    applyArgPolicy definition (some (.object args)) =
      .ok (some (.object (args.insertAll definition.pinArgs))) := by
  have hfind : definition.denyArgs.find? (args.containsKey ·) = none := by
    refine List.find?_eq_none.mpr fun key hkey hthere => ?_
    exact hdenied key hkey (Entries.containsKey_iff_mem_keys.mp hthere)
  rw [applyArgPolicy]
  split
  · rename_i hempty
    rw [hempty.1]
    rfl
  · simp only [hfind]

/-- A denied argument is rejected. -/
theorem applyArgPolicy_rejects {denied : String}
    (hfind : definition.denyArgs.find? (args.containsKey ·) = some denied) :
    applyArgPolicy definition (some (.object args)) = .error ⟨.protocol,
      s!"argument '{denied}' is not allowed for backend '{definition.id}'"⟩ := by
  have hpolicy : ¬ (definition.pinArgs = [] ∧ definition.denyArgs = []) := by
    rintro ⟨-, hdeny⟩
    rw [hdeny] at hfind
    cases hfind
  rw [applyArgPolicy, if_neg hpolicy]
  simp only [hfind]

/-- Arguments that follow the advertised schema are accepted, and what is forwarded complies with
the schema of the backend. -/
theorem complies_of_conforms {schema : Value} (hsatisfiable : Satisfiable definition schema)
    (h : Conforms (stripSchemaArgs schema (hiddenArgs definition)) args) :
    ∃ sent, applyArgPolicy definition (some (.object args)) = .ok (some (.object sent)) ∧
      Complies definition schema sent := by
  have hshown : ∀ key ∈ args.keys, key ∈ properties schema ∧ key ∉ hiddenArgs definition :=
    fun key hkey => properties_stripSchemaArgs.mp (h.known key hkey)
  refine ⟨_, applyArgPolicy_accepts fun key hdeny hkey => ?_, fun key hkey => ?_, fun key hkey => ?_,
    fun key v hv => Entries.get_insertAll definition.pinArgsUnique hv⟩
  · exact (hshown key hkey).2 (List.mem_append_right _ hdeny)
  · rw [Entries.mem_keys_insertAll]
    by_cases hhidden : key ∈ hiddenArgs definition
    · -- a required argument that is hidden is pinned
      right
      rcases List.mem_append.mp hhidden with hpin | hdeny
      · exact hpin
      · exact hsatisfiable key hkey hdeny
    · exact .inl (h.complete key (required_stripSchemaArgs.mpr ⟨hkey, hhidden⟩))
  · exact (Entries.mem_keys_insertAll.mp hkey).imp_left fun h => (hshown key h).1

/-- The outcome does not depend on what is given for a pinned argument. -/
theorem sameOutcome_of_differInPins (h : DifferInPins definition args args') :
    SameOutcome (applyArgPolicy definition (some (.object args)))
      (applyArgPolicy definition (some (.object args'))) := by
  have hfind : definition.denyArgs.find? (args.containsKey ·) =
      definition.denyArgs.find? (args'.containsKey ·) := by
    rw [← List.head?_filter, ← List.head?_filter]
    refine congrArg List.head? (List.filter_congr fun key hdeny => ?_)
    rw [Entries.containsKey, Entries.containsKey, h key fun _ => hdeny]
  rcases hdenied : definition.denyArgs.find? (args.containsKey ·) with _ | denied
  · have hfree {args : Map} (hnone : definition.denyArgs.find? (args.containsKey ·) = none) :
        ∀ key ∈ definition.denyArgs, key ∉ args.keys := fun key hkey hthere =>
      List.find?_eq_none.mp hnone key hkey (Entries.containsKey_iff_mem_keys.mpr hthere)
    rw [applyArgPolicy_accepts (hfree hdenied), applyArgPolicy_accepts (hfree (hfind ▸ hdenied))]
    exact fun key => Entries.get_insertAll_congr fun hpin => h key fun hpinned => absurd hpinned hpin
  · rw [applyArgPolicy_rejects hdenied, applyArgPolicy_rejects (hfind ▸ hdenied)]
    rfl

end Policy

/-- **The advertised schema and the argument policy agree.** A call that follows the schema that
callers see is accepted, and what is forwarded complies with the schema of the backend, unless
that requires a denied argument that nothing pins; and calls that differ only in pinned arguments
have the same outcome. The two sides are computed from one definition, and neither looks at the
other. -/
theorem schema_fits_policy (definition : BackendDef) :
    (∀ schema args, Satisfiable definition schema →
      Conforms (stripSchemaArgs schema (hiddenArgs definition)) args →
      ∃ sent, applyArgPolicy definition (some (.object args)) = .ok (some (.object sent)) ∧
        Complies definition schema sent) ∧
    ∀ args args', DifferInPins definition args args' →
      SameOutcome (applyArgPolicy definition (some (.object args)))
        (applyArgPolicy definition (some (.object args'))) :=
  ⟨fun _ _ hsatisfiable h => complies_of_conforms hsatisfiable h,
    fun _ _ h => sameOutcome_of_differInPins h⟩

/-- A backend with a pinned profile and a denied account. -/
def cloudStorage : BackendDef where
  id := "aws"
  transport := .stdio "aws-server" [] [] none
  toolNamespace := some "aws"
  connectionMode := .eager
  connectTimeoutSecs := 60
  callTimeoutSecs := 300
  toolsAllow := []
  toolsDeny := []
  unavailableHint := none
  forwardRequestMeta := false
  pinArgs := [("profile", .string "prod")]
  denyArgs := ["account_id"]

/-- The schema of its `list_buckets`. -/
def listBuckets : Value :=
  .object [("type", .string "object"),
    ("properties", .object [("profile", .null), ("account_id", .null), ("prefix", .null)]),
    ("required", .array [.string "profile", .string "prefix"])]

/-- The prefix is all that a caller has to give, and giving another profile changes nothing. -/
theorem list_buckets_with_the_profile :
    (∃ sent, applyArgPolicy cloudStorage (some (.object [("prefix", .string "x")])) =
        .ok (some (.object sent)) ∧ Complies cloudStorage listBuckets sent) ∧
      SameOutcome
        (applyArgPolicy cloudStorage (some (.object [("profile", .string "admin")])))
        (applyArgPolicy cloudStorage (some (.object [("profile", .string "me")]))) := by
  obtain ⟨haccepts, hsame⟩ := schema_fits_policy cloudStorage
  refine ⟨haccepts listBuckets [("prefix", .string "x")] (fun key hkey hdeny => ?_) ⟨?_, ?_⟩,
    hsame _ _ fun key hkey => ?_⟩
  · obtain rfl := List.mem_singleton.mp hdeny
    exact absurd hkey (by decide)
  · rintro key hkey
    obtain rfl := List.mem_singleton.mp hkey
    decide
  · intro key hkey
    have hrequired : required (stripSchemaArgs listBuckets (hiddenArgs cloudStorage)) =
        ["prefix"] := by decide
    rw [hrequired] at hkey
    exact hkey
  · have hne : key ≠ "profile" := by
      rintro rfl
      exact absurd (hkey (by decide)) (by decide)
    rw [Entries.get_cons, Entries.get_cons, if_neg hne, if_neg hne]

end HeadlessMcp
