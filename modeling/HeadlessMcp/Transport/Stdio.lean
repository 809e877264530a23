import HeadlessMcp.Async.Mpsc
import HeadlessMcp.OAuth2.Discovery
import HeadlessMcp.Session.Dispatch

/-!
# The stdio transport

`run` serves one client over stdin and stdout: it reads a line, has the session handle it, and
queues the reply. Replies and the messages of the `subscriptions/listen` streams share one
channel. Its receiver is the task that writes to stdout, and its senders are the loop and one
forwarder for each stream. When stdin ends the loop aborts the forwarders that it knows, waits
for them, and waits for the writer, which ends when no sender is left.

The forwarders, the writer, the streams and the rest of the process run next to the loop: the
environment chooses what they do before each operation of it (`Move`).
-/

namespace HeadlessMcp

open Async

/-- The operations of the loop. -/
inductive TransportOp : Type → Type 1 where
  /-- an operation of the session -/
  | dispatch {β : Type} (o : DispatchOp β) : TransportOp β
  /-- send a message to the writer -/
  | send (m : JsonRpcMessage) : TransportOp Unit
  /-- spawn the forwarder of a stream: its handle -/
  | forward (stream : Nat) : TransportOp Nat
  /-- abort a forwarder -/
  | abort (handle : Nat) : TransportOp Unit
  /-- wait until a forwarder has stopped -/
  | join (handle : Nat) : TransportOp Unit
  /-- drop the loop's sender, and wait for the writer -/
  | finish : TransportOp (Except String Unit)

/-- What the loop has the session do. -/
def dispatchDo {α : Type} (p : Prog DispatchOp α) : Prog TransportOp α := p.lift .dispatch

namespace StdioTransport

/-! ## The loop -/

/-- `line.trim().is_empty()`. -/
def isBlank (line : String) : Bool := strTrim line.toList = []

/-- The key of a stream: its request id as text. Ids of different types have different keys, since
a text is printed with its quotes. -/
def streamKey (id : JsonRpcId) : String := id.toValue.print

/-- The key of the stream that a message cancels. -/
def cancelledKey : JsonRpcMessage → Option String
  | .notification method params =>
    if method = "notifications/cancelled" then
      (params.bind (·.get "requestId")).map Value.print
    else none
  | _ => none

/-- `notifications/cancelled` aborts the forwarder of the stream that it names. The loop forgets
the handle with it. -/
def cancel (streams : Entries Nat) (m : JsonRpcMessage) : Prog TransportOp (Entries Nat) :=
  match cancelledKey m with
  | none => .ret streams
  | some key =>
    match streams.get key with
    | none => .ret streams
    | some handle => do
      .perform (.abort handle)
      .ret (streams.filter (·.1 ≠ key))

section Serving

variable (serde : Serde) (prettyText serdeText : Value → String)

/-- One message: a reply is sent, and a stream gets a forwarder. Only a request is replied to, and
only a stream gets a forwarder. -/
def serveMessage (streams : Entries Nat) (m : JsonRpcMessage) :
    Prog TransportOp (Entries Nat) := do
  let streams ← cancel streams m
  match ← dispatchDo (Session.handleStreaming prettyText serdeText m) with
  | some (.message reply) => do
    .perform (.send reply)
    .ret streams
  | some (.stream id number) => do
    let handle ← .perform (.forward number)
    .ret (streams.insert (streamKey id) handle)
  | none => .ret streams

/-- One line, or none for a line that could not be read. -/
def serveLine (streams : Entries Nat) : Option String → Prog TransportOp (Entries Nat)
  | none => .ret streams
  | some line =>
    if isBlank line then .ret streams
    else
      match decodeMessage serde line with
      | .error err => do
        .perform (.send (.error none err))
        .ret streams
      | .ok m => serveMessage prettyText serdeText streams m

/-- One line after another, until stdin ends. It keeps the handles of the forwarders from line to
line. -/
def serveLines (streams : Entries Nat) : List (Option String) → Prog TransportOp (Entries Nat)
  | [] => .ret streams
  | line :: lines => do
    let streams ← serveLine serde prettyText serdeText streams line
    serveLines streams lines

/-- Abort one forwarder after another. -/
def abortAll : List Nat → Prog TransportOp Unit
  | [] => .ret ()
  | handle :: handles => do
    .perform (.abort handle)
    abortAll handles

/-- Wait for one forwarder after another. -/
def joinAll : List Nat → Prog TransportOp Unit
  | [] => .ret ()
  | handle :: handles => do
    .perform (.join handle)
    joinAll handles

/-- `run`, for the lines of stdin. The handles are those that the loop still holds, and the writer
ends when no sender is left. -/
def run (lines : List (Option String)) : Prog TransportOp (Except String Unit) := do
  let streams ← serveLines serde prettyText serdeText [] lines
  abortAll (streams.map Prod.snd)
  joinAll (streams.map Prod.snd)
  .perform .finish

end Serving

end StdioTransport

/-! ## The world -/

/-- The task that forwards the messages of a stream to the writer. It has a number of its own, and
a sender into the channel of the writer. -/
structure Forwarder : Type where
  stream : Nat
  /-- how many messages of the stream it has taken -/
  taken : Nat := 0
  aborted : Bool := false
  stopped : Bool := false

/-- The state of the transport and of its session. -/
structure TransportWorld : Type where
  dispatch : DispatchWorld Unit
  /-- in the order in which they were spawned: the handle is the index -/
  forwarders : List Forwarder := []
  /-- the channel to the writer: what it has received it has written -/
  out : Mpsc JsonRpcMessage := {}
  /-- why the writer has failed -/
  failed : Option String := none

/-- What happens next to the loop. The loop cannot keep any of it from happening. -/
inductive Move : Type where
  /-- other tasks of the process change the session -/
  | session (t : SessionWorld Unit) : Move
  /-- the task of a stream takes a turn -/
  | turn (stream : Nat) : Move
  /-- a forwarder takes a message of its stream and sends it -/
  | forward (handle : Nat) : Move
  /-- an aborted forwarder stops -/
  | stop (handle : Nat) : Move
  /-- the writer writes a message -/
  | write : Move
  /-- a write fails -/
  | fail (reason : String) : Move

/-- What the environment chooses in one step. -/
structure TransportChoice : Type where
  moves : List Move := []
  registry : RegistryChoice := {}

/-- The messages of a stream, oldest first. -/
def DispatchWorld.messagesOf {ι : Type} (s : DispatchWorld ι) (stream : Nat) :
    List JsonRpcMessage :=
  ((s.streams[stream]?).map fun st => st.queued.reverse).getD []

namespace TransportWorld

variable (s : TransportWorld)

/-- Change one forwarder. -/
def modifyForwarder (handle : Nat) (f : Forwarder → Forwarder) : TransportWorld :=
  { s with forwarders := s.forwarders.modify handle f }

/-- A forwarder takes the next message of its stream and sends it: one that cannot send any more
stops. -/
def forwardOne (handle : Nat) (fwd : Forwarder) : Option TransportWorld :=
  if fwd.stopped then none
  else
    (s.dispatch.messagesOf fwd.stream)[fwd.taken]?.map fun m =>
      { s.modifyForwarder handle fun f =>
          { f with taken := f.taken + 1, stopped := s.out.closed } with out := s.out.send m }

/-- What happens next to the loop. -/
def move : Move → Option TransportWorld
  | .session t => some { s with dispatch := { s.dispatch with session := t } }
  | .turn stream => do
    let st ← s.dispatch.streams[stream]?
    let st ← st.turn s.dispatch.session.notified
    some { s with dispatch := { s.dispatch with streams := s.dispatch.streams.set stream st } }
  | .forward handle => do
    let fwd ← s.forwarders[handle]?
    s.forwardOne handle fwd
  | .stop handle => do
    let fwd ← s.forwarders[handle]?
    if fwd.aborted then some (s.modifyForwarder handle fun f => { f with stopped := true })
    else none
  | .write => s.out.recv.map fun out => { s with out := out }
  | .fail reason =>
    if s.out.closed = false ∧ s.out.queue ≠ [] then
      some { s with out := s.out.close, failed := some reason }
    else none

/-- One move after another. -/
def moveAll (s : TransportWorld) (moves : List Move) : Option TransportWorld :=
  moves.foldlM move s

/-- What each operation does, after the moves. Only `join` and `finish` may have to wait. -/
def perform (registry : RegistryChoice) : (β : Type) → TransportOp β → TransportWorld →
    Option (β × TransportWorld)
  | β, .dispatch o, s =>
    (DispatchWorld.exec () β o registry s.dispatch).map fun r => (r.1, { s with dispatch := r.2 })
  | _, .send m, s => some ((), { s with out := s.out.send m })
  | _, .forward stream, s =>
    some (s.forwarders.length, { s with forwarders := s.forwarders ++ [{ stream := stream }] })
  | _, .abort handle, s => some ((), s.modifyForwarder handle fun f => { f with aborted := true })
  | _, .join handle, s =>
    if s.forwarders[handle]?.all (·.stopped) then some ((), s) else none
  | _, .finish, s =>
    match s.failed with
    | some reason => some (.error reason, s)
    | none =>
      if s.forwarders.all (·.stopped) ∧ s.out.queue = [] then some (.ok (), s) else none

/-- What each operation does. -/
def exec (_ : Unit) (β : Type) (o : TransportOp β) (e : TransportChoice) (s : TransportWorld) :
    Option (β × TransportWorld) :=
  (s.moveAll e.moves).bind (perform e.registry β o)

end TransportWorld

/-- The machine of the loop. -/
def transportMachine : Machine TransportOp Unit TransportChoice TransportWorld :=
  ⟨TransportWorld.exec⟩

end HeadlessMcp
