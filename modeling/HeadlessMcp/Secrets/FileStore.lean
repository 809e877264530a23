import HeadlessMcp.Async.Prog
import Mathlib

/-!
# The encrypted file store

A secret store that is one JSON file. Every operation holds the store's own lock; a `set` and
a `delete` read the whole file, change it in memory and write it back through a temporary file
that is renamed over the old one. What reads or replaces the file is an operation of its own,
for other processes may come in between.
-/

namespace HeadlessMcp

open Async

/-- `StoredSecret`. -/
structure StoredSecret : Type where
  nonce : String
  ciphertext : String
  deriving DecidableEq

/-- `StoreFile`. It is a map from keys to what is stored for them, and its order plays no part. -/
abbrev StoreFile : Type := Finmap fun _ : String => StoredSecret

/-- The nonce of one encryption. -/
abbrev Nonce : Type := Vector UInt8 12

/-- `SecretError`. -/
inductive SecretError : Type where
  | io (text : String) : SecretError
  | emptyKey : SecretError
  | encryptionFailed (key : String) : SecretError
  | decryptionFailed (key : String) : SecretError
  | corrupted (reason : String) : SecretError
  deriving DecidableEq

/-- The result of an operation of the store. -/
abbrev SecretResult (α : Type) : Type := Except SecretError α

/-- What the store uses: `aes_gcm` under the master key, `base64` and `serde_json`. They are
parameters: what is used of them are their laws, as far as a theorem names them. -/
structure StoreCrates : Type where
  encrypt : Nonce → ByteArray → Option ByteArray
  decrypt : Nonce → ByteArray → Option ByteArray
  base64Encode : ByteArray → String
  base64Decode : String → Option ByteArray
  /-- `from_slice::<StoreFile>` -/
  parse : String → Except String StoreFile
  /-- `to_vec_pretty` -/
  render : StoreFile → Except String String

/-- The atomic operations of a store. Between two of them another process may replace the file. -/
inductive SecretOp : Type → Type where
  /-- acquire `write_lock` -/
  | lockWrite : SecretOp Unit
  /-- drop its guard -/
  | unlockWrite : SecretOp Unit
  /-- `path.exists()` -/
  | pathExists : SecretOp Bool
  /-- `std::fs::read` -/
  | readPath : SecretOp (Except String String)
  /-- `OsRng.fill_bytes`, which panics when there are no random bytes -/
  | fillBytes : SecretOp (Option Nonce)
  /-- the temporary file next to the path: create, write, sync and restrict it -/
  | prepareTemp (contents : String) : SecretOp (Except String Unit)
  /-- rename it over the path -/
  | persist (contents : String) : SecretOp (Except String Unit)

/-- `validate_key`. -/
def validateKey (key : String) : SecretResult Unit :=
  if key = "" then .error .emptyKey else .ok ()

/-- `write_atomic`. The file is written beside the old one, synced, and then renamed over it, so
nobody ever reads a part of it. -/
def writeAtomic (contents : String) : Prog SecretOp (SecretResult Unit) := do
  match ← .perform (.prepareTemp contents) with
  | .error e => .ret (.error (.io e))
  | .ok () =>
    match ← .perform (.persist contents) with
    | .error e => .ret (.error (.io e))
    | .ok () => .ret (.ok ())

namespace StoreCrates

variable (crates : StoreCrates)

/-- What the bytes of the file mean. -/
def decodeFile (bytes : String) : SecretResult StoreFile :=
  if bytes = "" then .ok ∅
  else
    match crates.parse bytes with
    | .ok file => .ok file
    | .error source => .error (.corrupted s!"failed to parse secret store file: {source}")

/-- `read_file`. A path that does not exist is an empty file. -/
def readFile : Prog SecretOp (SecretResult StoreFile) := do
  if ← .perform .pathExists then
    match ← .perform .readPath with
    | .error e => .ret (.error (.io e))
    | .ok bytes => .ret (crates.decodeFile bytes)
  else .ret (.ok ∅)

/-- `write_file`. -/
def writeFile (file : StoreFile) : Prog SecretOp (SecretResult Unit) :=
  match crates.render file with
  | .error source =>
    .ret (.error (.corrupted s!"failed to serialize secret store file: {source}"))
  | .ok json => writeAtomic json

/-- What is stored for a plaintext under a nonce. -/
def sealSecret (nonce : Nonce) (plaintext : ByteArray) : Option StoredSecret :=
  (crates.encrypt nonce plaintext).map fun ciphertext =>
    ⟨crates.base64Encode ⟨nonce.toArray⟩, crates.base64Encode ciphertext⟩

/-- `encrypt`. -/
def encryptSecret (key : String) (plaintext : ByteArray) :
    Prog SecretOp (SecretResult StoredSecret) := do
  match ← .perform .fillBytes with
  | none => .panic
  | some nonce =>
    match crates.sealSecret nonce plaintext with
    | some stored => .ret (.ok stored)
    | none => .ret (.error (.encryptionFailed key))

/-- A nonce has twelve bytes. -/
def toNonce (bytes : ByteArray) : Option Nonce :=
  if h : bytes.data.size = 12 then some ⟨bytes.data, h⟩ else none

/-- `decrypt`. It fails where the file was written under another master key, or was changed by
somebody. -/
def decryptSecret (key : String) (stored : StoredSecret) : SecretResult ByteArray :=
  match crates.base64Decode stored.nonce with
  | none => .error (.corrupted s!"nonce for key '{key}' is not valid base64")
  | some nonceBytes =>
    match crates.base64Decode stored.ciphertext with
    | none => .error (.corrupted s!"ciphertext for key '{key}' is not valid base64")
    | some ciphertext =>
      match toNonce nonceBytes with
      | none => .error (.corrupted s!"nonce for key '{key}' has the wrong length")
      | some nonce =>
        match crates.decrypt nonce ciphertext with
        | none => .error (.decryptionFailed key)
        | some plaintext => .ok plaintext

/-! ## The store -/

/-- What `get` makes of the file. -/
def lookupSecret (key : String) (file : StoreFile) : SecretResult (Option String) :=
  match file.lookup key with
  | none => .ok none
  | some stored =>
    match crates.decryptSecret key stored with
    | .error e => .error e
    | .ok plaintext =>
      match String.fromUTF8? plaintext with
      | none => .error (.decryptionFailed key)
      | some text => .ok (some text)

/-- `get`; the lock is held for the reading only. -/
def get (key : String) : Prog SecretOp (SecretResult (Option String)) :=
  match validateKey key with
  | .error e => .ret (.error e)
  | .ok () => do
    match ← Prog.withLock .lockWrite .unlockWrite crates.readFile with
    | .error e => .ret (.error e)
    | .ok file => .ret (crates.lookupSecret key file)

/-- Read the file, change it, write it back. The lock of the store is held throughout, which keeps
out the other tasks of the process and nobody else. -/
def rewrite (change : StoreFile → Prog SecretOp (SecretResult StoreFile)) :
    Prog SecretOp (SecretResult Unit) :=
  Prog.withLock .lockWrite .unlockWrite do
    match ← crates.readFile with
    | .error e => .ret (.error e)
    | .ok file =>
      match ← change file with
      | .error e => .ret (.error e)
      | .ok file => crates.writeFile file

/-- `set`. -/
def set (key value : String) : Prog SecretOp (SecretResult Unit) :=
  match validateKey key with
  | .error e => .ret (.error e)
  | .ok () => crates.rewrite fun file => do
    match ← crates.encryptSecret key value.toUTF8 with
    | .error e => .ret (.error e)
    | .ok stored => .ret (.ok (file.insert key stored))

/-- `delete`. -/
def delete (key : String) : Prog SecretOp (SecretResult Unit) :=
  match validateKey key with
  | .error e => .ret (.error e)
  | .ok () => crates.rewrite fun file => .ret (.ok (file.erase key))

end StoreCrates

end HeadlessMcp
