import HeadlessMcp.Async.Solo
import HeadlessMcp.Registry.World
import HeadlessMcp.Session.Session

/-!
# The world of a session

The state of a session is that of its registry with the session's own. An operation of
the registry acts on its part alone, so what is proved of a registry method holds of the
handlers that call it.
-/

namespace HeadlessMcp

open Async

/-- The state of a session. -/
structure SessionWorld (ι : Type) : Type where
  registry : RegistryWorld ι
  initialized : Bool
  /-- how often the listeners were told that the tool list changed -/
  notified : Nat

namespace SessionWorld

variable {ι : Type}

/-- What each operation does. The operations of the registry act on its part, and the session's
own on the rest. -/
def exec (i : ι) : (β : Type) → SessionOp β → RegistryChoice → SessionWorld ι →
    Option (β × SessionWorld ι)
  | β, .registry o, e, s =>
    (RegistryWorld.exec i β o e s.registry).map fun r => (r.1, { s with registry := r.2 })
  | _, .isInitialized, _, s => some (s.initialized, s)
  | _, .setInitialized, _, s => some ((), { s with initialized := true })
  | _, .notifyToolsListChanged, _, s => some ((), { s with notified := s.notified + 1 })

end SessionWorld

/-- The machine of a session's tasks. -/
def sessionMachine (ι : Type) : Machine SessionOp ι RegistryChoice (SessionWorld ι) :=
  ⟨SessionWorld.exec⟩

variable {ι : Type}

/-- The registry is a part of the session. -/
theorem registry_onPart : (registryMachine ι).OnPart (sessionMachine ι) SessionOp.registry
    SessionWorld.registry fun t s => { s with registry := t } where
  exec _ _ _ _ _ := rfl
  get_put _ _ := rfl
  put_put _ _ _ := rfl
  put_get _ := rfl

/-- What the registry does for a handler is what it does alone. -/
theorem wp_registryDo {i : ι} {α : Type} {p : Prog RegistryOp α}
    {Q : Outcome α → SessionWorld ι → Prop} {s : SessionWorld ι} :
    (sessionMachine ι).wp i (registryDo p) Q s ↔
      (registryMachine ι).wp i p (fun x t => Q x { s with registry := t }) s.registry :=
  Machine.wp_lift _ registry_onPart

end HeadlessMcp
