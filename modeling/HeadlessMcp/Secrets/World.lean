import HeadlessMcp.Async.History
import HeadlessMcp.Secrets.FileStore

/-!
# The world of a secrets file

One file and the processes that share it, each with a store of its own and the lock of that
store. The environment chooses the errors of the file system and the random bytes.

A task belongs to a process, and there may be any number of both. The file is what they share.
-/

namespace HeadlessMcp

open Async

/-- The file, and for every process the task that holds the lock of its store. -/
structure SecretWorld (π ι : Type) : Type where
  disk : Option String
  writeHolder : π → Option ι

/-- What the environment chooses in one step. -/
structure SecretChoice : Type where
  /-- the error of a file operation -/
  ioError : Option String := none
  /-- the random bytes -/
  random : Option Nonce := none

namespace SecretWorld

variable {π ι : Type} [DecidableEq π]

/-- What each operation does. A path that cannot be probed does not exist for `exists`. -/
def exec (proc : ι → π) (i : ι) :
    (β : Type) → SecretOp β → SecretChoice → SecretWorld π ι → Option (β × SecretWorld π ι)
  | _, .lockWrite, _, s =>
    match s.writeHolder (proc i) with
    | none => some ((), { s with writeHolder := Function.update s.writeHolder (proc i) (some i) })
    | some _ => none
  | _, .unlockWrite, _, s =>
    some ((), { s with writeHolder := Function.update s.writeHolder (proc i) none })
  | _, .pathExists, e, s => some (s.disk.isSome && e.ioError.isNone, s)
  | _, .readPath, e, s =>
    match e.ioError, s.disk with
    | some err, _ => some (.error err, s)
    | none, none => some (.error "No such file or directory (os error 2)", s)
    | none, some bytes => some (.ok bytes, s)
  | _, .fillBytes, e, s => some (e.random, s)
  | _, .prepareTemp _, e, s =>
    match e.ioError with
    | some err => some (.error err, s)
    | none => some (.ok (), s)
  | _, .persist contents, e, s =>
    match e.ioError with
    | some err => some (.error err, s)
    | none => some (.ok (), { s with disk := some contents })

end SecretWorld

/-- The machine of the tasks of several processes. Every task belongs to a process, and has the
lock of that process to ask for. -/
def secretMachine {π ι : Type} [DecidableEq π] (proc : ι → π) :
    Machine SecretOp ι SecretChoice (SecretWorld π ι) :=
  ⟨SecretWorld.exec proc⟩

/-- A history of operations on the file. -/
abbrev SecretHistory (ι : Type) : Type 1 := List (Performed SecretOp ι)

/-- A state of the file with its history. -/
abbrev SecretRun (π ι : Type) : Type 1 := Recorded SecretOp ι (SecretWorld π ι)

/-- An operation that updates the store. -/
inductive SecretUpdate : Type where
  | set (key value : String) : SecretUpdate
  | delete (key : String) : SecretUpdate

namespace SecretUpdate

/-- The key that it updates. -/
def key : SecretUpdate → String
  | set key _ => key
  | delete key => key

/-- The update as a task. -/
def run (crates : StoreCrates) : SecretUpdate → Prog SecretOp (SecretResult Unit)
  | set key value => crates.set key value
  | delete key => crates.delete key

/-- The update is in a file. A deletion is in a file that has no entry for the key. -/
def In (crates : StoreCrates) (file : StoreFile) : SecretUpdate → Prop
  | set key value => ∃ nonce, ∃ stored ∈ crates.sealSecret nonce value.toUTF8,
      file.lookup key = some stored
  | delete key => file.lookup key = none

end SecretUpdate

end HeadlessMcp
