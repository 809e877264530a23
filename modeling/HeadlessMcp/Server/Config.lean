import HeadlessMcp.Registry.Registry

/-!
# The resolved configuration

What `load_config` yields, and the registries that the server builds from it: one with
every backend, or one for each expose block with the backends that the block names.

The functions that build the registries only register: nothing is connected before the caller asks
for it, and the first id that is given twice ends the build with an error.
-/

namespace HeadlessMcp

open Async

/-- The tool filters of an expose block for one backend. -/
structure ExposeBackendConfig : Type where
  toolsAllow : List String
  toolsDeny : List String

/-- One HTTP listener exposing a subset of the backends. -/
structure ExposeBlock : Type where
  port : Nat
  /-- the backends to include, by id -/
  backends : Entries ExposeBackendConfig

/-- The resolved configuration of a hub. -/
structure HubConfig : Type where
  backends : List BackendDef
  /-- the backends of a config file are a table -/
  idsUnique : (backends.map (·.id)).Nodup := by decide
  expose : List ExposeBlock

/-- The definition that an expose block registers: its own filters, where it has any, take
the place of the backend's. -/
def exposeDef (definition : BackendDef) (ebc : ExposeBackendConfig) : BackendDef :=
  { definition with
    toolsAllow := if ebc.toolsAllow ≠ [] then ebc.toolsAllow else definition.toolsAllow
    toolsDeny := if ebc.toolsDeny ≠ [] then ebc.toolsDeny else definition.toolsDeny }

/-- Register one backend after another, each with an object of its own. The number of the object
is the place of the backend in the list. -/
def registerEach : List BackendDef → Nat → Prog RegistryOp (BackendResult Unit)
  | [], _ => .ret (.ok ())
  | definition :: definitions, object => do
    match ← Registry.register definition object with
    | .error e => .ret (.error e)
    | .ok () => registerEach definitions (object + 1)

/-- `build_registry`. -/
def buildRegistry (cfg : HubConfig) : Prog RegistryOp (BackendResult Unit) :=
  registerEach cfg.backends 0

/-- The definitions that an expose block registers. The order is that of the configuration, and a
backend that the block does not name is left out. -/
def exposedDefs (cfg : HubConfig) (eb : ExposeBlock) : List BackendDef :=
  cfg.backends.filterMap fun definition =>
    (eb.backends.get definition.id).map (exposeDef definition)

/-- `build_expose_registry`. -/
def buildExposeRegistry (cfg : HubConfig) (eb : ExposeBlock) :
    Prog RegistryOp (BackendResult Unit) :=
  registerEach (exposedDefs cfg eb) 0

end HeadlessMcp
