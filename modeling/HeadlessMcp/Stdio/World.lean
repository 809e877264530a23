import HeadlessMcp.Async.Rely
import HeadlessMcp.Stdio.Backend

/-!
# The world of a stdio backend

The state that the callers and the reader tasks of one backend share, and what each operation
does to it. The environment chooses how a child is spawned, whether a write succeeds and when
a wait times out; what a child writes is given with its reader task, and it may come at any
time.

`opened` and `up` are a record for the observer: the children whose stdin has been stored, and
those whose `connect` has set `connected` since it was last cleared. A pending request
remembers the connections that were up when it was made; with `sent` and `stdin` one can say
whose stdin it goes to (`belongsTo`).
-/

namespace HeadlessMcp

open Async

/-- A one-shot channel, as its receiver sees it. -/
inductive Channel : Type where
  /-- nothing was sent yet -/
  | open : Channel
  | sent (r : BackendResult Value) : Channel
  /-- the sender was dropped -/
  | dropped : Channel

/-- An entry of `pending`. -/
structure PendingRequest : Type where
  id : Int
  /-- the channel whose sender it holds -/
  channel : Nat
  /-- the children of the connections it was made for -/
  owners : List Nat

/-- The number of a request; the other messages have none. -/
def JsonRpcMessage.requestNumber : JsonRpcMessage → Option Int
  | .request (.number n) _ _ => some n
  | _ => none

/-- The shared state of a stdio backend. -/
structure StdioWorld (ι : Type) : Type where
  stdin : Option Nat
  /-- the task that holds the lock of `stdin` -/
  stdinHolder : Option ι
  /-- the task that holds `write_guard` -/
  writeHolder : Option ι
  child : Option Nat
  /-- the task that holds the lock of `child` -/
  childHolder : Option ι
  pending : List PendingRequest
  connected : Bool
  initializeResult : Option InitializeResult
  requestCounter : Nat
  channels : Nat → Channel
  /-- how many channels have been made -/
  channelCount : Nat
  /-- how many children have been spawned -/
  spawned : Nat
  /-- the children whose reader task has been spawned -/
  reading : List Nat
  /-- every message with the child that it was written to, newest first -/
  sent : List (Nat × JsonRpcMessage)
  /-- the children whose stdin has been stored -/
  opened : List Nat
  /-- the children whose `connect` has set `connected` since it was last cleared -/
  up : List Nat

/-- What the environment chooses in one step. -/
structure StdioChoice : Type where
  /-- how a child is spawned: the error, or which of its pipes are captured -/
  spawn : Except String (Bool × Bool) := .ok (true, true)
  write : Except String Unit := .ok ()
  flush : Except String Unit := .ok ()
  /-- the wait is over -/
  timeout : Bool := false
  /-- the lock of `pending` is held by another task -/
  contended : Bool := false

namespace StdioWorld

variable {ι : Type}

/-- The entry of a request. -/
def find (s : StdioWorld ι) (id : Int) : Option PendingRequest := s.pending.find? (·.id = id)

/-- `pending` without the entry of a request. -/
def without (s : StdioWorld ι) (id : Int) : List PendingRequest := s.pending.filter (·.id ≠ id)

/-- What `without` leaves was there. -/
theorem mem_without {s : StdioWorld ι} {id : Int} {p : PendingRequest}
    (h : p ∈ s.without id) : p ∈ s.pending := List.mem_of_mem_filter h

/-- What `find` finds is there under its number. -/
theorem mem_of_find {s : StdioWorld ι} {id : Int} {p : PendingRequest} (h : s.find id = some p) :
    p ∈ s.pending ∧ p.id = id := by
  have hid := List.find?_some (p := fun q : PendingRequest => decide (q.id = id)) h
  exact ⟨List.mem_of_find?_eq_some h, of_decide_eq_true hid⟩

/-- The children that a request was written to. -/
def writtenTo (s : StdioWorld ι) (id : Int) : List Nat :=
  (s.sent.filter (·.2.requestNumber = some id)).map Prod.fst

/-- The children that a pending request belongs to: those of the connections it was made for,
and the one whose stdin it goes to. Before it is written that is the child whose stdin is
stored, since `send_message` writes to whatever stdin it finds. -/
def belongsTo (s : StdioWorld ι) (p : PendingRequest) : List Nat :=
  p.owners ++ if s.writtenTo p.id = [] then s.stdin.toList else s.writtenTo p.id

/-- The channels after the sender in an entry, if any, was used or dropped. -/
def resolve (s : StdioWorld ι) (entry : Option PendingRequest) (outcome : Channel) :
    Nat → Channel :=
  match entry with
  | some p => Function.update s.channels p.channel outcome
  | none => s.channels

/-- The channels whose sender was not in the entry are as they were. -/
theorem resolve_cases (s : StdioWorld ι) (entry : Option PendingRequest) (outcome : Channel)
    (c : Nat) : s.resolve entry outcome c = s.channels c ∨
      (∃ p, entry = some p ∧ p.channel = c) ∧ s.resolve entry outcome c = outcome := by
  cases entry with
  | none => exact .inl rfl
  | some p =>
    by_cases h : p.channel = c
    · subst h
      exact .inr ⟨⟨p, rfl, rfl⟩, Function.update_self ..⟩
    · exact .inl (Function.update_of_ne (Ne.symm h) ..)

/-- The channels after every sender in `pending` was used. -/
def resolveAll (s : StdioWorld ι) (outcome : Channel) : Nat → Channel :=
  fun c => if c ∈ s.pending.map (·.channel) then outcome else s.channels c

/-- What a wait finds in its channel. -/
def awaited (s : StdioWorld ι) (channel : Nat) (timeout : Bool) : Option Awaited :=
  match s.channels channel with
  | .sent r => some (.answered r)
  | .dropped => some .dropped
  | .open => if timeout then some .timedOut else none

/-- What each operation does. -/
def exec (i : ι) : (β : Type) → StdioOp β → StdioChoice → StdioWorld ι → Option (β × StdioWorld ι)
  | _, .isConnected, _, s => some (s.connected, s)
  | _, .establish child, _, s => some ((), { s with connected := true, up := child :: s.up })
  | _, .markClosed, _, s => some ((), { s with connected := false, up := [] })
  | _, .markDown _, _, s => some ((), { s with connected := false, up := [] })
  | _, .loadInit, _, s => some (s.initializeResult, s)
  | _, .storeInit init, _, s => some ((), { s with initializeResult := some init })
  | _, .spawn _ _ _ _, e, s =>
    match e.spawn with
    | .error text => some (.error text, s)
    | .ok (hasStdin, hasStdout) =>
      some (.ok ⟨s.spawned, hasStdin, hasStdout⟩, { s with spawned := s.spawned + 1 })
  | _, .setStdin child, _, s =>
    if s.stdinHolder.isSome then none else
      some ((), { s with stdin := some child, opened := child :: s.opened })
  | _, .clearStdin, _, s =>
    if s.stdinHolder.isSome then none else some ((), { s with stdin := none })
  | _, .setChild child, _, s =>
    if s.childHolder.isSome then none else some ((), { s with child := some child })
  | _, .lockChild, _, s =>
    if s.childHolder.isSome then none else some ((), { s with childHolder := some i })
  | _, .unlockChild, _, s => some ((), { s with childHolder := none })
  | _, .takeChild, _, s => some (s.child, { s with child := none })
  | _, .kill _, _, s => some ((), s)
  | _, .startReader child, _, s => some ((), { s with reading := child :: s.reading })
  | _, .nextId, _, s =>
    some (s.requestCounter, { s with requestCounter := (s.requestCounter + 1) % 2 ^ 64 })
  | _, .register id handshake, _, s =>
    some (s.channelCount,
      { s with
        pending := ⟨id, s.channelCount, handshake.elim s.up ([·])⟩ :: s.without id
        channels := Function.update (s.resolve (s.find id) .dropped) s.channelCount .open
        channelCount := s.channelCount + 1 })
  | _, .lockWrite, _, s =>
    if s.writeHolder.isSome then none else some ((), { s with writeHolder := some i })
  | _, .unlockWrite, _, s => some ((), { s with writeHolder := none })
  | _, .lockStdin, _, s =>
    if s.stdinHolder.isSome then none else some ((), { s with stdinHolder := some i })
  | _, .unlockStdin, _, s => some ((), { s with stdinHolder := none })
  | _, .loadStdin, _, s => some (s.stdin, s)
  | _, .writeAll child message, e, s =>
    some (e.write, { s with sent := (child, message) :: s.sent })
  | _, .flush _, e, s => some (e.flush, s)
  | _, .await channel _, e, s => (s.awaited channel e.timeout).map (·, s)
  | _, .tryForget id, e, s =>
    some ((), if e.contended then s else
      { s with pending := s.without id, channels := s.resolve (s.find id) .dropped })
  | _, .beginReading child, _, s => if child ∈ s.reading then some ((), s) else none
  | _, .nextLine _ _, _, s => some ((), s)
  | _, .settle id r, _, s =>
    some ((), { s with pending := s.without id, channels := s.resolve (s.find id) (.sent r) })
  | _, .endOfOutput _, _, s => some ((), s)
  | _, .drain _ error, _, s =>
    some ((), { s with pending := [], channels := s.resolveAll (.sent (.error error)) })

end StdioWorld

/-- The machine of a stdio backend's callers and reader tasks. -/
def stdioMachine (ι : Type) : Machine StdioOp ι StdioChoice (StdioWorld ι) := ⟨StdioWorld.exec⟩

/-- A backend that has just been created. -/
def StdioWorld.fresh (ι : Type) : StdioWorld ι where
  stdin := none
  stdinHolder := none
  writeHolder := none
  child := none
  childHolder := none
  pending := []
  connected := false
  initializeResult := none
  requestCounter := 0
  channels := fun _ => .dropped
  channelCount := 0
  spawned := 0
  reading := []
  sent := []
  opened := []
  up := []

/-! ## The tasks -/

/-- A call on a stdio backend. -/
inductive StdioCall : Type where
  | connect : StdioCall
  | disconnect : StdioCall
  | listTools : StdioCall
  | callTool (name : String) (arguments : Option Value) (timeoutSecs : Nat) : StdioCall
  | request (method : String) (params : Option Value) (timeoutSecs : Nat) : StdioCall
  | healthCheck : StdioCall

namespace StdioBackend

variable (b : StdioBackend)

/-- One call. -/
def call : StdioCall → Prog StdioOp Unit
  | .connect => do
    let _ ← b.connect
    .ret ()
  | .disconnect => do
    let _ ← disconnect
    .ret ()
  | .listTools => do
    let _ ← b.listTools
    .ret ()
  | .callTool name arguments timeoutSecs => do
    let _ ← b.callTool name arguments timeoutSecs
    .ret ()
  | .request method params timeoutSecs => do
    let _ ← b.request method params timeoutSecs
    .ret ()
  | .healthCheck => do
    let _ ← b.healthCheck
    .ret ()

/-- One call after another, as a caller makes them. -/
def calls : List StdioCall → Prog StdioOp Unit
  | [] => .ret ()
  | c :: cs => do
    b.call c
    calls cs

/-- Any number of callers, each with its calls, and the reader task of every child with the
lines that the child writes. -/
def pool {ι : Type} (callers : ι → List StdioCall) (output : Nat → List String) :
    Pool StdioOp (ι ⊕ Nat) (StdioWorld (ι ⊕ Nat)) Unit where
  shared := .fresh _
  task := Sum.elim (fun i => b.calls (callers i)) fun child => b.readerTask child (output child)

end StdioBackend

end HeadlessMcp
