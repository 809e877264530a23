import HeadlessMcp.Async.Solo
import HeadlessMcp.Secrets.Processes

/-!
# The store as a finite map

What a secret store is for is a finite map from keys to texts. A file `Represents` a map when
looking a key up in it gives what the map has; an operation that returns `Ok` answers from the
map and changes it as it should, any other one leaves it alone, whichever step fails.

There is one way out of this: `exists` answers that there is no file when it could not look.
A store that is blind in this way goes on with no secrets at all.
-/

namespace HeadlessMcp

open Async Machine

/-! ## The map -/

/-- What a store holds. -/
abbrev SecretMap : Type := Finmap fun _ : String => String

/-- An operation of the store. These three are the interface of the store. -/
inductive SecretCall : Type where
  | get (key : String) : SecretCall
  | set (key value : String) : SecretCall
  | delete (key : String) : SecretCall
  deriving DecidableEq

namespace SecretCall

/-- The key it is about. -/
def key : SecretCall → String
  | get key => key
  | set key _ => key
  | delete key => key

/-- What it says of a map; an update says nothing. -/
def answer (m : SecretMap) : SecretCall → Option String
  | get key => m.lookup key
  | _ => none

/-- What it makes of a map. -/
def effect (m : SecretMap) : SecretCall → SecretMap
  | get _ => m
  | set key value => m.insert key value
  | delete key => m.erase key

/-- The map after an operation that ended in some way. It is the operation's effect if that has
returned `Ok`, and the same map otherwise. -/
def after (call : SecretCall) (m : SecretMap) :
    Outcome (SecretResult (Option String)) → SecretMap
  | .done (.ok _) => call.effect m
  | _ => m

/-- An operation that returns `Ok` returns what the map says. -/
def Answers (call : SecretCall) (m : SecretMap) :
    Outcome (SecretResult (Option String)) → Prop
  | .done (.ok a) => a = call.answer m
  | _ => True

/-- The operation as a task of the store. -/
def run (crates : StoreCrates) : SecretCall → Prog SecretOp (SecretResult (Option String))
  | get key => crates.get key
  | set key value => (crates.set key value).bind fun r => .ret (r.map fun _ => none)
  | delete key => (crates.delete key).bind fun r => .ret (r.map fun _ => none)

end SecretCall

/-- The file holds a map. Every key that the map has can be opened, and no other key is in the
file. -/
def Represents (crates : StoreCrates) (disk : Option String) (m : SecretMap) : Prop :=
  ∃ file, crates.content disk = .ok file ∧ ∀ key, crates.lookupSecret key file = .ok (m.lookup key)

section Store

variable {π ι : Type} [DecidableEq π] (crates : StoreCrates) (proc : ι → π) (i : ι)

variable {crates proc i} {call : SecretCall} {m : SecretMap} {file : StoreFile}
  {s t : SecretWorld π ι}

/-! ## Sealing and opening -/

/-- A file has what the operation has to know of a map. -/
def SecretCall.Agrees (crates : StoreCrates) (m : SecretMap) (file : StoreFile) : SecretCall → Prop
  | .get key => crates.lookupSecret key file = .ok (m.lookup key)
  | .set key _ => ∀ other, other ≠ key → crates.lookupSecret other file = .ok (m.lookup other)
  | .delete key => ∀ other, other ≠ key → crates.lookupSecret other file = .ok (m.lookup other)

/-- Written or not, the file holds a map. An error leaves the old map, also one that comes after
the new file was written beside it. -/
def Leaves (crates : StoreCrates) (m m' : SecretMap) :
    Outcome (SecretResult Unit) → SecretWorld π ι → Prop
  | .done (.ok _), t => Represents crates t.disk m'
  | _, t => Represents crates t.disk m

/-- How an operation ends, and what is on the disk then. -/
def Ends (crates : StoreCrates) (call : SecretCall) (m : SecretMap)
    (x : Outcome (SecretResult (Option String))) (disk : Option String) : Prop :=
  call.Answers m x ∧ Represents crates disk (call.after m x)

end Store

/-! ## A store alone -/

end HeadlessMcp
