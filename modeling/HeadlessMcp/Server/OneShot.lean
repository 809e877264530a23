import HeadlessMcp.Async.Solo
import HeadlessMcp.Registry.World
import HeadlessMcp.Server.Config

/-!
# One-shot calls

`run_one_shot` finds the backend that owns a tool, calls it and exits. It talks to the
backends itself, without a registry, so neither the tool filters nor the argument policy
stand between the caller and the backend. `ArgsKept` is the exact condition under which
the policy would not have changed the arguments.
-/

namespace HeadlessMcp

open Async

/-! ## The program -/

/-- `str::split_once`. -/
def splitOnce (c : Char) (s : String) : Option (String × String) :=
  match s.toList.dropWhile (· ≠ c) with
  | [] => none
  | _ :: rest => some (String.ofList (s.toList.takeWhile (· ≠ c)), String.ofList rest)

/-- `parse_tool_name`. The name is taken apart at its first dot, and without a dot there is no
namespace. -/
def parseToolName (toolName : String) : Option String × String :=
  match splitOnce '.' toolName with
  | some (start, rest) => (some start, rest)
  | none => (none, toolName)

/-- The arguments in `key=value` form, as an object. -/
def parsePairs : List String → Map → Except String Map
  | [], m => .ok m
  | arg :: args, m =>
    match splitOnce '=' arg with
    | none => .error s!"arguments must be key=value pairs, got: '{arg}'"
    | some (key, value) => parsePairs args (m.insert key (.string value))

/-- The caller's arguments: JSON, or pairs. JSON has precedence, and without arguments there are
none. -/
def parseArguments (fromStr : String → Except String Value) (args : List String)
    (jsonArgs : Option String) : Except String (Option Value) :=
  match jsonArgs with
  | some text =>
    match fromStr text with
    | .error e => .error s!"invalid JSON arguments: {e}"
    | .ok v => .ok (some v)
  | none =>
    if args = [] then .ok none
    else (parsePairs args []).map fun m => some (.object m)

/-- The downstream name that a tool name has at a backend, if the backend may own it. -/
def oneShotName (definition : BackendDef) (toolName : String) : Option String :=
  match definition.toolNamespace with
  | some ns =>
    if (parseToolName toolName).1.any (· ≠ ns) then none
    else stripPrefix s!"{ns}." toolName
  | none => some toolName

/-- What a one-shot call does to the outside: create backends and call their methods. -/
inductive OneShotOp : Type → Type 1 where
  /-- `connect_stdio_backend`: a new backend object, of either transport -/
  | newBackend (definition : BackendDef) : OneShotOp Nat
  /-- call a method of a backend object -/
  | backend {β : Type} (object : Nat) (method : McpOp β) : OneShotOp β

/-- Look for a backend that lists the tool. A backend whose namespace is another one is not asked,
and one that cannot be connected is skipped. -/
def findBackend (toolName : String) :
    List BackendDef → Prog OneShotOp (Option (BackendDef × String))
  | [] => .ret none
  | definition :: definitions =>
    match oneShotName definition toolName with
    | none => findBackend toolName definitions
    | some downstreamName => do
      let backend ← .perform (.newBackend definition)
      match ← .perform (.backend backend .connect) with
      | .error _ => findBackend toolName definitions
      | .ok _ =>
        match ← .perform (.backend backend .listTools) with
        | .ok tools =>
          if tools.any (·.name = downstreamName) then .ret (some (definition, downstreamName))
          else do
            let _ ← .perform (.backend backend .disconnect)
            findBackend toolName definitions
        | .error _ => do
          let _ ← .perform (.backend backend .disconnect)
          findBackend toolName definitions

/-- `run_one_shot`, up to printing the result. -/
def runOneShot (fromStr : String → Except String Value) (cfg : HubConfig) (toolName : String)
    (args : List String) (jsonArgs : Option String) : Prog OneShotOp (Except String Value) :=
  match parseArguments fromStr args jsonArgs with
  | .error e => .ret (.error e)
  | .ok arguments => do
    match ← findBackend toolName cfg.backends with
    | none => .ret (.error s!"no backend found that owns tool '{toolName}'")
    | some (definition, downstreamName) =>
      let backend ← .perform (.newBackend definition)
      match ← .perform (.backend backend .connect) with
      | .error e => .ret (.error e.message)
      | .ok _ =>
        match ← .perform (.backend backend
            (.callTool downstreamName arguments definition.callTimeoutSecs)) with
        | .error e => .ret (.error s!"tool call failed: {e.message}")
        | .ok result =>
          match ← .perform (.backend backend .disconnect) with
          | .error e => .ret (.error e.message)
          | .ok () => .ret (.ok result)

/-! ## Its world -/

/-- The backend objects that were created, and the requests they were sent. A one-shot call has a
process of its own, so nothing else is shared. -/
structure OneShotWorld : Type where
  /-- the definition of every object, by its number -/
  created : List BackendDef
  /-- every forwarded request, newest first -/
  forwarded : List (Forwarded Unit)

namespace OneShotWorld

/-- What each operation does. -/
def exec (i : Unit) : (β : Type) → OneShotOp β → RegistryChoice → OneShotWorld →
    Option (β × OneShotWorld)
  | _, .newBackend definition, _, s =>
    some (s.created.length, { s with created := s.created ++ [definition] })
  | _, .backend object method, e, s => some (e.answer method,
    match method.forwards with
    | some (name, params) =>
      { s with forwarded := ⟨i, object, name, params, e.value⟩ :: s.forwarded }
    | none => s)

end OneShotWorld

/-- The machine of a one-shot call. -/
def oneShotMachine : Machine OneShotOp Unit RegistryChoice OneShotWorld := ⟨OneShotWorld.exec⟩

/-! ## What is forwarded -/

/-- The search calls no tool, and finds a backend of the list under its name there. -/
theorem wp_findBackend {toolName : String} {definitions : List BackendDef} {s : OneShotWorld} :
    oneShotMachine.wp () (findBackend toolName definitions)
      (fun x t => t.forwarded = s.forwarded ∧ ∀ definition tool,
        x = .done (some (definition, tool)) →
          definition ∈ definitions ∧ oneShotName definition toolName = some tool) s := by
  induction definitions generalizing s with
  | nil => exact ⟨rfl, fun _ _ h => nomatch h⟩
  | cons definition definitions ih =>
    -- what the rest of the search does, from a state with the same requests
    have rest {t : OneShotWorld} (ht : t.forwarded = s.forwarded) :
        oneShotMachine.wp () (findBackend toolName definitions)
          (fun x u => u.forwarded = s.forwarded ∧ ∀ d tool, x = .done (some (d, tool)) →
            d ∈ definition :: definitions ∧ oneShotName d toolName = some tool) t :=
      Machine.wp_mono _ ih fun x u hu => ⟨hu.1.trans ht, fun d tool hx =>
        ⟨List.mem_cons_of_mem _ (hu.2 d tool hx).1, (hu.2 d tool hx).2⟩⟩
    rw [findBackend]
    rcases hname : oneShotName definition toolName with _ | downstreamName
    · exact rest rfl
    simp only [Prog.bind_eq, Prog.perform_bind]
    rintro e object t he
    obtain ⟨rfl, rfl⟩ := Prod.mk.inj (Option.some.inj he)
    rintro e init t he
    obtain ⟨rfl, rfl⟩ := Prod.mk.inj (Option.some.inj he)
    rcases hinit : RegistryChoice.answer e .connect with err | init
    · exact rest rfl
    rintro e tools t he
    obtain ⟨rfl, rfl⟩ := Prod.mk.inj (Option.some.inj he)
    rcases htools : RegistryChoice.answer e .listTools with err | tools
    · rintro e closed t he
      obtain ⟨rfl, rfl⟩ := Prod.mk.inj (Option.some.inj he)
      exact rest rfl
    · dsimp only
      split
      · refine ⟨rfl, fun d tool hx => ?_⟩
        cases hx
        exact ⟨List.mem_cons_self, hname⟩
      · rintro e closed t he
        obtain ⟨rfl, rfl⟩ := Prod.mk.inj (Option.some.inj he)
        exact rest rfl

/-- A forwarded request of a one-shot call is the caller's own call, to a backend that may
own the tool. -/
structure Direct (cfg : HubConfig) (toolName : String) (arguments : Option Value)
    (t : OneShotWorld) (r : Forwarded Unit) : Prop where
  backend : ∃ definition ∈ cfg.backends, ∃ tool, t.created[r.object]? = some definition ∧
    oneShotName definition toolName = some tool ∧
    r.params = some (toolCallParams tool arguments)
  method : r.method = "tools/call"

/-- `run_one_shot` forwards the caller's own call, and nothing else. -/
theorem wp_runOneShot {fromStr : String → Except String Value} {cfg : HubConfig}
    {toolName : String} {args : List String} {jsonArgs : Option String} {s : OneShotWorld}
    (hs : s.forwarded = []) :
    oneShotMachine.wp () (runOneShot fromStr cfg toolName args jsonArgs)
      (fun _ t => ∀ r ∈ t.forwarded, ∃ arguments,
        parseArguments fromStr args jsonArgs = .ok arguments ∧
          Direct cfg toolName arguments t r) s := by
  unfold runOneShot
  rcases hparse : parseArguments fromStr args jsonArgs with err | arguments
  · intro r hr
    rw [hs] at hr
    exact absurd hr List.not_mem_nil
  simp only [Prog.bind_eq, Prog.perform_bind]
  rw [Machine.wp_bind]
  refine Machine.wp_mono _ wp_findBackend fun found t ⟨hsame, hfound⟩ => ?_
  have hnone : t.forwarded = [] := hsame.trans hs
  have nothing {u : OneShotWorld} (hu : u.forwarded = []) : ∀ r ∈ u.forwarded, ∃ arguments',
      Except.ok arguments = (.ok arguments' : Except String (Option Value)) ∧
        Direct cfg toolName arguments' u r := by
    rw [hu]
    exact fun r hr => absurd hr List.not_mem_nil
  rcases found with (_ | ⟨definition, tool⟩) | _
  · exact nothing hnone
  · obtain ⟨hmem, hname⟩ := hfound definition tool rfl
    rintro e object u he
    obtain ⟨rfl, rfl⟩ := Prod.mk.inj (Option.some.inj he)
    rintro e init u he
    obtain ⟨rfl, rfl⟩ := Prod.mk.inj (Option.some.inj he)
    rcases hinit : RegistryChoice.answer e .connect with err | init
    · exact nothing hnone
    rintro e result u he
    obtain ⟨rfl, rfl⟩ := Prod.mk.inj (Option.some.inj he)
    -- the call is on record now, and stays the only request
    have called : ∀ r ∈ (⟨(), t.created.length, "tools/call",
        some (toolCallParams tool arguments), e.value⟩ : Forwarded Unit) :: t.forwarded,
        ∃ arguments', Except.ok arguments = (.ok arguments' : Except String (Option Value)) ∧
          Direct cfg toolName arguments' ⟨t.created ++ [definition],
            ⟨(), t.created.length, "tools/call", some (toolCallParams tool arguments),
              e.value⟩ :: t.forwarded⟩ r := by
      intro r hr
      rw [hnone] at hr
      obtain rfl := List.mem_singleton.mp hr
      exact ⟨arguments, rfl, ⟨definition, hmem, tool, by simp, hname, rfl⟩, rfl⟩
    rcases hresult : RegistryChoice.answer e (.callTool tool arguments definition.callTimeoutSecs)
      with err | result
    · exact called
    · rintro e closed u he
      obtain ⟨rfl, rfl⟩ := Prod.mk.inj (Option.some.inj he)
      rcases hclosed : RegistryChoice.answer e .disconnect with err | _
      · exact called
      · exact called
  · exact nothing hnone

/-! ## Which backend is found -/

/-- Any backend that may own the tool can be the one that is found. -/
theorem findBackend_finds {toolName tool : String} {definition : BackendDef}
    {definitions : List BackendDef} {s : OneShotWorld} (hmem : definition ∈ definitions)
    (hname : oneShotName definition toolName = some tool) :
    ∃ es t, oneShotMachine.solo () (findBackend toolName definitions) es s =
      some (.done (some (definition, tool)), t) := by
  let init : InitializeResult := ⟨"", ⟨"", ""⟩, ⟨none, none, none, none⟩⟩
  induction definitions generalizing s with
  | nil => exact absurd hmem List.not_mem_nil
  | cons d definitions ih =>
    rcases List.mem_cons.mp hmem with rfl | hmem
    · -- it connects and lists the tool
      refine ⟨[{}, { init := .ok init }, { tools := .ok [⟨tool, "", .null⟩] }],
        { s with created := s.created ++ [definition] }, ?_⟩
      simp [findBackend, hname, oneShotMachine, OneShotWorld.exec, RegistryChoice.answer,
        McpOp.forwards, Machine.solo]
    · rcases hd : oneShotName d toolName with _ | downstreamName
      · obtain ⟨es, t, hrest⟩ := @ih s hmem
        exact ⟨es, t, by rw [findBackend, hd]; exact hrest⟩
      · -- the backend before it cannot be reached
        obtain ⟨es, t, hrest⟩ := @ih { s with created := s.created ++ [d] } hmem
        refine ⟨{} :: {} :: es, t, ?_⟩
        rw [findBackend, hd]
        exact hrest

/-- The one-shot call of a backend that may own the tool can be forwarded to it. -/
theorem runOneShot_forwards {fromStr : String → Except String Value} {cfg : HubConfig}
    {toolName tool : String} {args : List String} {jsonArgs : Option String}
    {arguments : Option Value} {definition : BackendDef}
    (hparse : parseArguments fromStr args jsonArgs = .ok arguments)
    (hmem : definition ∈ cfg.backends) (hname : oneShotName definition toolName = some tool) :
    ∃ es x t, oneShotMachine.solo () (runOneShot fromStr cfg toolName args jsonArgs) es ⟨[], []⟩ =
      some (x, t) ∧ ∃ r ∈ t.forwarded, t.created[r.object]? = some definition ∧
        r.params = some (toolCallParams tool arguments) := by
  obtain ⟨es, t, hfound⟩ := @findBackend_finds toolName tool definition cfg.backends ⟨[], []⟩
    hmem hname
  let init : InitializeResult := ⟨"", ⟨"", ""⟩, ⟨none, none, none, none⟩⟩
  let choices : List RegistryChoice :=
    [{}, { init := .ok init }, { value := .ok .null }, {}]
  let call : Forwarded Unit :=
    ⟨(), t.created.length, "tools/call", some (toolCallParams tool arguments), .ok .null⟩
  refine ⟨es ++ choices, .done (.ok .null), ⟨t.created ++ [definition], call :: t.forwarded⟩, ?_,
    call, List.mem_cons_self, by simp [call], rfl⟩
  unfold runOneShot
  simp only [hparse, Prog.bind_eq, Prog.perform_bind]
  rw [Machine.solo_bind _ hfound]
  rfl

/-! ## What the hub would have sent -/

/-- A forwarded call is the one that the hub would have sent to the backend for the
caller's arguments: its tool passes the filters, and the argument policy yields its
arguments. -/
def AsRouted (definition : BackendDef) (arguments : Option Value) (r : Forwarded Unit) : Prop :=
  ∃ tool arguments', PassesFilters definition.toolsAllow definition.toolsDeny tool ∧
    applyArgPolicy definition arguments = .ok arguments' ∧
    r.method = "tools/call" ∧ r.params = some (toolCallParams tool arguments')

/-- The argument policy of a backend leaves the caller's arguments as they are: there is no
policy, or no denied argument and every pinned one with its value. Without arguments there
is nothing to deny. -/
def ArgsKept (definition : BackendDef) (arguments : Option Value) : Prop :=
  (definition.pinArgs = [] ∧ definition.denyArgs = []) ∨
    match arguments with
    | none => definition.pinArgs = []
    | some (.object obj) => (∀ key ∈ definition.denyArgs, Entries.containsKey obj key = false) ∧
        ∀ e ∈ definition.pinArgs, Entries.get obj e.1 = some e.2
    | some _ => False

/-- Inserting entries changes nothing exactly when they are there. -/
theorem insertAll_eq_self_iff {entries m : Map} (hunique : entries.keys.Nodup) :
    m.insertAll entries = m ↔ ∀ e ∈ entries, m.get e.1 = some e.2 := by
  constructor
  · intro h e he
    rw [← h]
    exact Entries.get_insertAll hunique (Entries.get_of_mem hunique he)
  · exact Entries.insertAll_of_get

/-- The policy yields what goes on the wire anyway exactly when it keeps the arguments. -/
theorem argsKept_iff {definition : BackendDef} {arguments : Option Value} :
    (∃ arguments', applyArgPolicy definition arguments = .ok arguments' ∧
      wireArguments arguments' = wireArguments arguments) ↔ ArgsKept definition arguments := by
  by_cases hempty : definition.pinArgs = [] ∧ definition.denyArgs = []
  · constructor
    · exact fun _ => .inl hempty
    · exact fun _ => ⟨arguments, by rw [applyArgPolicy, if_pos hempty], rfl⟩
  -- what an object is sent as, when there is a policy
  have policy (obj : Map) (wire : Value) :
      (∃ arguments', (match definition.denyArgs.find? (obj.containsKey ·) with
        | some denied => .error
            ⟨.protocol, s!"argument '{denied}' is not allowed for backend '{definition.id}'"⟩
        | none => .ok (some (.object (obj.insertAll definition.pinArgs))) :
          BackendResult (Option Value)) = .ok arguments' ∧ wireArguments arguments' = wire) ↔
      (∀ key ∈ definition.denyArgs, obj.containsKey key = false) ∧
        Value.object (obj.insertAll definition.pinArgs) = wire := by
    rcases hfind : definition.denyArgs.find? (obj.containsKey ·) with _ | denied
    · have habsent : ∀ key ∈ definition.denyArgs, obj.containsKey key = false := by
        simpa using hfind
      simp [wireArguments]
      exact fun _ => habsent
    · have hmem := List.mem_of_find?_eq_some hfind
      have hthere : obj.containsKey denied = true := by simpa using List.find?_some hfind
      simp only [reduceCtorEq, false_and, exists_false, false_iff, not_and]
      intro habsent
      rw [habsent denied hmem] at hthere
      cases hthere
  unfold ArgsKept applyArgPolicy
  rw [or_iff_right hempty, if_neg hempty]
  have hunique := definition.pinArgsUnique
  rcases arguments with _ | v
  · refine (policy [] _).trans ?_
    have hnil := @insertAll_eq_self_iff definition.pinArgs [] hunique
    simp only [wireArguments, Option.getD_none, Value.object.injEq, hnil]
    simp [Entries.containsKey, List.eq_nil_iff_forall_not_mem]
  · cases v with
    | object obj =>
      refine (policy obj _).trans ?_
      simp only [wireArguments, Option.getD_some, Value.object.injEq,
        insertAll_eq_self_iff hunique]
    | null => exact (policy [] _).trans (by simp [wireArguments])
    | bool b => simp
    | number n => simp
    | string text => simp
    | array xs => simp

/-- The params of a call determine its tool and its arguments on the wire. -/
theorem toolCallParams_inj {tool tool' : String} {arguments arguments' : Option Value} :
    toolCallParams tool arguments = toolCallParams tool' arguments' ↔
      tool = tool' ∧ wireArguments arguments = wireArguments arguments' := by
  simp [toolCallParams]

/-- A direct call is the hub's call exactly when the tool passes and the policy keeps the
arguments. -/
theorem asRouted_iff {definition : BackendDef} {tool : String} {arguments : Option Value}
    {r : Forwarded Unit} (hmethod : r.method = "tools/call")
    (hparams : r.params = some (toolCallParams tool arguments)) :
    AsRouted definition arguments r ↔
      PassesFilters definition.toolsAllow definition.toolsDeny tool ∧
        ArgsKept definition arguments := by
  rw [← argsKept_iff]
  constructor
  · rintro ⟨tool', arguments', hpasses, hpolicy, -, hparams'⟩
    rw [hparams] at hparams'
    obtain ⟨rfl, hwire⟩ := toolCallParams_inj.mp (Option.some.inj hparams')
    exact ⟨hpasses, arguments', hpolicy, hwire.symm⟩
  · rintro ⟨hpasses, arguments', hpolicy, hwire⟩
    refine ⟨tool, arguments', hpasses, hpolicy, hmethod, ?_⟩
    rw [hparams, toolCallParams_inj.mpr ⟨rfl, hwire.symm⟩]

/-- **One-shot mode enforces the hub's policy exactly where there is nothing to enforce.**
Whatever the backends answer, every call that is forwarded is the one that the hub would have
sent, if and only if every backend that may own the tool lets it pass its filters and would keep
the arguments. It applies no filter and no argument policy, so what it forwards is the call as it
was typed. -/
theorem oneShot_asRouted_iff {fromStr : String → Except String Value} {cfg : HubConfig}
    {toolName : String} {args : List String} {jsonArgs : Option String} :
    (∀ es x t, oneShotMachine.solo () (runOneShot fromStr cfg toolName args jsonArgs) es ⟨[], []⟩ =
      some (x, t) → ∀ r ∈ t.forwarded, ∃ definition arguments,
        t.created[r.object]? = some definition ∧
        parseArguments fromStr args jsonArgs = .ok arguments ∧
        AsRouted definition arguments r) ↔
      ∀ arguments, parseArguments fromStr args jsonArgs = .ok arguments →
        ∀ definition ∈ cfg.backends, ∀ tool, oneShotName definition toolName = some tool →
          PassesFilters definition.toolsAllow definition.toolsDeny tool ∧
            ArgsKept definition arguments := by
  have hspec {es x t} (h : oneShotMachine.solo ()
      (runOneShot fromStr cfg toolName args jsonArgs) es ⟨[], []⟩ = some (x, t)) :=
    Machine.wp_solo _ (wp_runOneShot rfl) h
  constructor
  · rintro h arguments hparse definition hmem tool hname
    obtain ⟨es, x, t, hsolo, r, hr, hcreated, hparams⟩ :=
      runOneShot_forwards hparse hmem hname
    obtain ⟨definition', arguments', hcreated', hparse', hrouted⟩ := h es x t hsolo r hr
    obtain ⟨_, -, hdirect⟩ := hspec hsolo r hr
    rw [hcreated] at hcreated'
    rw [hparse] at hparse'
    obtain rfl := Option.some.inj hcreated'
    obtain rfl := Except.ok.inj hparse'
    exact (asRouted_iff hdirect.method hparams).mp hrouted
  · rintro h es x t hsolo r hr
    obtain ⟨arguments, hparse, hdirect⟩ := hspec hsolo r hr
    obtain ⟨definition, hmem, tool, hcreated, hname, hparams⟩ := hdirect.backend
    refine ⟨definition, arguments, hcreated, hparse, ?_⟩
    exact (asRouted_iff hdirect.method hparams).mpr (h arguments hparse definition hmem tool hname)

/-! ### A denied tool -/

/-- A mailbox that may not send, with a pinned account. -/
def guardedMail : BackendDef where
  id := "mail"
  transport := .stdio "mail-server" [] [] none
  toolNamespace := some "mail"
  connectionMode := .eager
  connectTimeoutSecs := 10
  callTimeoutSecs := 30
  toolsAllow := []
  toolsDeny := ["send"]
  unavailableHint := none
  forwardRequestMeta := false
  pinArgs := [("account", .string "me")]
  pinArgsUnique := List.nodup_singleton "account"
  denyArgs := []

/-- A one-shot call of the denied tool, under another account, goes out as it is. -/
theorem denied_tool_is_called :
    ∃ es x t, oneShotMachine.solo () (runOneShot (fun _ => .error "") ⟨[guardedMail], by decide, []⟩
        "mail.send" ["account=you"] none) es ⟨[], []⟩ = some (x, t) ∧
      ∃ r ∈ t.forwarded, t.created[r.object]? = some guardedMail ∧
        r.params = some (toolCallParams "send" (some (.object [("account", .string "you")]))) ∧
        ¬ PassesFilters guardedMail.toolsAllow guardedMail.toolsDeny "send" ∧
        ¬ AsRouted guardedMail (some (.object [("account", .string "you")])) r := by
  have hdenied : ¬ PassesFilters guardedMail.toolsAllow guardedMail.toolsDeny "send" := by decide
  refine ⟨[{}, { init := .ok ⟨"", ⟨"", ""⟩, ⟨none, none, none, none⟩⟩ },
    { tools := .ok [⟨"send", "", .null⟩] }, {},
    { init := .ok ⟨"", ⟨"", ""⟩, ⟨none, none, none, none⟩⟩ }, { value := .ok .null }, {}],
    _, _, rfl, _, List.mem_cons_self, rfl, rfl, hdenied, fun hrouted => ?_⟩
  exact hdenied ((asRouted_iff rfl rfl).mp hrouted).1

end HeadlessMcp
