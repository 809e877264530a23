import HeadlessMcp.Async.Machine
import HeadlessMcp.Registry.Registry

/-!
# The world of a registry

The state that the tasks of one hub share, with the record of every request that was
forwarded to a backend, and what each operation does to it. The environment chooses
every answer of the backends and the order in which a hash map is iterated over.
-/

namespace HeadlessMcp

open Async

/-- A request that was forwarded to a backend object. It is noted with the task that had it
forwarded and with the answer that came back. -/
structure Forwarded (ι : Type) : Type where
  /-- the task it was forwarded for -/
  caller : ι
  /-- the backend object it went to -/
  object : Nat
  method : String
  params : Option Value
  /-- what the backend answered -/
  answer : BackendResult Value

/-- The shared state of the registry, and what the backends have received. -/
structure RegistryWorld (ι : Type) : Type where
  backends : Entries BackendHandle
  index : Entries RoutedTool
  /-- every forwarded request, newest first -/
  forwarded : List (Forwarded ι)

/-- What the environment chooses in one step. One record serves all operations: each of them looks
only at the fields that it needs. -/
structure RegistryChoice : Type where
  /-- the order in which the backends are iterated over; none is the order they were
  registered in -/
  order : Option (List String) := none
  /-- the answer to `connect` -/
  init : BackendResult InitializeResult := .error ⟨.connection, ""⟩
  /-- the answer to `list_tools` -/
  tools : BackendResult (List ToolDescriptor) := .error ⟨.connection, ""⟩
  /-- the answer to a call or a request -/
  value : BackendResult Value := .error ⟨.connection, ""⟩
  /-- the answer to `disconnect` and `health_check` -/
  done : BackendResult Unit := .ok ()
  /-- the answer to `take_tools_refresh` -/
  refresh : Bool := false

/-- The backends in the order of the choice, which has to name each of them once. -/
def RegistryChoice.arrange (e : RegistryChoice) (backends : Entries BackendHandle) :
    Option (Entries BackendHandle) :=
  match e.order with
  | none => some backends
  | some ids =>
    if ids.Perm backends.keys then
      some (ids.filterMap fun id => (backends.get id).map fun handle => (id, handle))
    else none

/-- The answer of a backend. -/
def RegistryChoice.answer (e : RegistryChoice) : {β : Type} → McpOp β → β
  | _, .connect => e.init
  | _, .listTools => e.tools
  | _, .callTool _ _ _ => e.value
  | _, .disconnect => e.done
  | _, .healthCheck => e.done
  | _, .request _ _ _ => e.value
  | _, .takeToolsRefresh => e.refresh

namespace RegistryWorld

variable {ι : Type}

/-- Change a backend's handle, if it is registered. A backend that is not registered any more is
not brought back. -/
def modifyBackend (s : RegistryWorld ι) (id : String) (f : BackendHandle → BackendHandle) :
    RegistryWorld ι :=
  match s.backends.get id with
  | some handle => { s with backends := s.backends.insert id (f handle) }
  | none => s

@[simp] theorem modifyBackend_index (s : RegistryWorld ι) (id : String)
    (f : BackendHandle → BackendHandle) : (s.modifyBackend id f).index = s.index := by
  unfold modifyBackend
  split <;> rfl

@[simp] theorem modifyBackend_forwarded (s : RegistryWorld ι) (id : String)
    (f : BackendHandle → BackendHandle) : (s.modifyBackend id f).forwarded = s.forwarded := by
  unfold modifyBackend
  split <;> rfl

/-- Put a forwarded request on record. A request of the backend's own, like its listing, is not
one that a caller had forwarded and leaves no record. -/
def record (s : RegistryWorld ι) (i : ι) (object : Nat) (value : BackendResult Value) {β : Type}
    (method : McpOp β) : RegistryWorld ι :=
  match method.forwards with
  | some (name, params) =>
    { s with forwarded := ⟨i, object, name, params, value⟩ :: s.forwarded }
  | none => s

/-- What each operation does. A critical section always finds its lock free, since it is held
across no await. -/
def exec (i : ι) : (β : Type) → RegistryOp β → RegistryChoice → RegistryWorld ι →
    Option (β × RegistryWorld ι)
  | _, .lookup id, _, s => some (s.backends.get id, s)
  | _, .entries, e, s => (e.arrange s.backends).map fun backends => (backends, s)
  | _, .insertBackend handle, _, s =>
    if s.backends.containsKey handle.definition.id then some (false, s)
    else some (true, { s with
      backends := s.backends.insert handle.definition.id handle })
  | _, .removeBackend id, _, s =>
    some (s.backends.get id, { s with backends := s.backends.filter (·.1 ≠ id) })
  | _, .setCapabilities id capabilities, _, s =>
    some ((), s.modifyBackend id fun h => { h with capabilities := some capabilities })
  | _, .setHealth id healthy, _, s =>
    some ((), s.modifyBackend id fun h => { h with health := healthy })
  | _, .countAttempt id, _, s =>
    let s := s.modifyBackend id fun h =>
      { h with reconnectAttempts := (h.reconnectAttempts + 1) % 2 ^ 32 }
    some (((s.backends.get id).map (·.reconnectAttempts)).getD 0, s)
  | _, .reindex id toolNamespace hidden tools, _, s =>
    match reindexTools id toolNamespace hidden tools s.index with
    | (.ok (), index) => some (.ok (), { s with index := index }.modifyBackend id fun h =>
        { h with health := true, reconnectAttempts := 0 })
    | (.error err, index) => some (.error err, { s with index := index })
  | _, .dropTools id, _, s =>
    some ((), { s with index := s.index.retain (·.backendId ≠ id) })
  | _, .clearIndex, _, s => some ((), { s with index := [] })
  | _, .lookupTool exposedName, _, s => some (s.index.get exposedName, s)
  | _, .resolve exposedName, _, s =>
    some ((s.index.get exposedName).map fun routed =>
      (routed, s.backends.get routed.backendId), s)
  | _, .resolveAll, _, s =>
    some (s.index.map fun entry => (entry.2, s.backends.get entry.2.backendId), s)
  | _, .sleep _, _, s => some ((), s)
  | _, .backend object method, e, s => some (e.answer method, s.record i object e.value method)

end RegistryWorld

/-- The machine of a hub's tasks. -/
def registryMachine (ι : Type) : Machine RegistryOp ι RegistryChoice (RegistryWorld ι) :=
  ⟨RegistryWorld.exec⟩

end HeadlessMcp
