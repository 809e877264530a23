import HeadlessMcp.Http.World
import HeadlessMcp.Session.Dispatch
import HeadlessMcp.Stdio.World

/-!
# The whole hub

The session and its registry with the backends in place. In `DispatchOp` the method of a backend is
one operation, and its answer is up to the environment. Here it is the program of an `HttpBackend`
or of a `StdioBackend`, whose operations come between those of all other tasks: several calls on
one backend, the health checks and the reader tasks of the children.

Every backend object has a world of its own. The backends share the store of the tokens, but each
of them has its own keys there.
-/

namespace HeadlessMcp

open Async

/-- What a backend object is. -/
inductive Implementation : Type where
  | http (b : HttpBackend) : Implementation
  | stdio (b : StdioBackend) : Implementation

/-- The operations of a hub: those of its session, and those inside a backend object. -/
inductive LiveOp : Type → Type 1 where
  | dispatch {β : Type} (o : DispatchOp β) : LiveOp β
  | http {β : Type} (object : Nat) (o : HttpOp β) : LiveOp β
  | stdio {β : Type} (object : Nat) (o : StdioOp β) : LiveOp β

/-- An operation inside a backend object. It is one that the session knows nothing of. -/
def LiveOp.Inside {β : Type} : LiveOp β → Prop
  | .dispatch _ => False
  | .http _ _ => True
  | .stdio _ _ => True

/-- The method of a backend object. It works on the world of its own object. -/
def Implementation.run (object : Nat) : Implementation → {β : Type} → McpOp β → Prog LiveOp β
  | .http b, _, method => (b.run method).lift (LiveOp.http object)
  | .stdio b, _, method => (b.run method).lift (LiveOp.stdio object)

/-- What an operation of the session is in the hub. -/
def hubStands (backends : Nat → Implementation) : {β : Type} → DispatchOp β → Prog LiveOp β
  | _, .session (.registry (.backend object method)) => (backends object).run object method
  | _, .session (.registry o) => .perform (.dispatch (.session (.registry o)))
  | _, .session o => .perform (.dispatch (.session o))
  | _, o => .perform (.dispatch o)

/-- The state of a hub. -/
structure LiveWorld (ι : Type) : Type where
  dispatch : DispatchWorld ι
  /-- the HTTP backends, by the number of their object -/
  http : Nat → HttpWorld ι
  /-- the stdio backends -/
  stdio : Nat → StdioWorld ι

/-- What the environment chooses in one step. -/
structure LiveChoice : Type where
  dispatch : RegistryChoice := {}
  http : HttpChoice := {}
  stdio : StdioChoice := {}

/-- What each operation does. -/
def LiveWorld.exec {ι : Type} [DecidableEq ι] (i : ι) :
    (β : Type) → LiveOp β → LiveChoice → LiveWorld ι → Option (β × LiveWorld ι)
  | β, .dispatch o, e, s =>
    (DispatchWorld.exec i β o e.dispatch s.dispatch).map fun r => (r.1, { s with dispatch := r.2 })
  | β, .http object o, e, s => (HttpWorld.exec i β o e.http (s.http object)).map fun r =>
      (r.1, { s with http := Function.update s.http object r.2 })
  | β, .stdio object o, e, s => (StdioWorld.exec i β o e.stdio (s.stdio object)).map fun r =>
      (r.1, { s with stdio := Function.update s.stdio object r.2 })

/-- The machine of a hub's tasks. -/
def liveMachine (ι : Type) [DecidableEq ι] : Machine LiveOp ι LiveChoice (LiveWorld ι) :=
  ⟨LiveWorld.exec⟩

/-! ## The tasks -/

/-- A task of a hub. A client's task is one of the session, and a reader task belongs to a child
of a stdio backend. -/
inductive LiveTask (α : Type) : Type 1 where
  /-- a request that is handled, or what the hub does by itself -/
  | client (p : Prog DispatchOp α) : LiveTask α
  /-- the reader task of a child, with the lines that the child writes -/
  | reader (object child : Nat) (output : List String) : LiveTask α

/-- The task is a client. -/
def LiveTask.IsClient {α : Type} : LiveTask α → Prop
  | .client _ => True
  | .reader _ _ _ => False

/-- What a task does as far as the session is concerned. -/
def LiveTask.abstract {α : Type} [Inhabited α] : LiveTask α → Prog DispatchOp α
  | .client p => p
  | .reader _ _ _ => .ret default

/-- The reader task of a child; only stdio backends have children. -/
def Implementation.reader (object child : Nat) (output : List String) :
    Implementation → Prog LiveOp Unit
  | .http _ => .ret ()
  | .stdio b => (b.readerTask child output).lift (LiveOp.stdio object)

/-- What a task does in the hub. -/
def LiveTask.run {α : Type} [Inhabited α] (backends : Nat → Implementation) :
    LiveTask α → Prog LiveOp α
  | .client p => p.interp (hubStands backends)
  | .reader object child output => do
    (backends object).reader object child output
    .ret default

variable {ι α : Type} [Inhabited α]

/-- The tasks of a hub with its backends in place. This is the hub as it runs. -/
def hubPool (backends : Nat → Implementation) (start : LiveWorld ι) (tasks : ι → LiveTask α) :
    Pool LiveOp ι (LiveWorld ι) α :=
  ⟨start, fun i => (tasks i).run backends⟩

/-- The same tasks where the backends answer as the environment likes. This is what the theorems
about the session are about. -/
def clientPool (start : DispatchWorld ι) (tasks : ι → LiveTask α) :
    Pool DispatchOp ι (DispatchWorld ι) α :=
  ⟨start, fun i => (tasks i).abstract⟩

end HeadlessMcp
