import HeadlessMcp.Core.Backend
import HeadlessMcp.Http.Backend

/-!
# The stdio backend

`StdioBackend` runs a downstream server as a child process and speaks JSON-RPC over its
stdin and stdout, one message a line. Every connection has a reader task of its own, which
takes the answers off the child's stdout and hands them to whoever waits for them. The
callers and the reader tasks of all children share one state: the stdin of the last child,
the map of pending requests and the flag `connected`.

Children are numbered in the order in which they are spawned. Three operations carry a
number that the code does not look at, so that one can say whose connection a step is about.
-/

namespace HeadlessMcp

open Async

/-- A child process that has been spawned. -/
structure Spawned : Type where
  child : Nat
  /-- its stdin was captured -/
  hasStdin : Bool
  /-- its stdout was captured -/
  hasStdout : Bool

/-- What the wait for a response ends with. -/
inductive Awaited : Type where
  /-- the response, as the reader task or its exit sent it -/
  | answered (r : BackendResult Value) : Awaited
  /-- nobody can send it any more -/
  | dropped : Awaited
  | timedOut : Awaited

/-- The atomic operations of a stdio backend. -/
inductive StdioOp : Type → Type where
  /-- read `connected` -/
  | isConnected : StdioOp Bool
  /-- set `connected`, at the end of a `connect`; the number is that of its child -/
  | establish (child : Nat) : StdioOp Unit
  /-- clear `connected`, in `disconnect` -/
  | markClosed : StdioOp Unit
  /-- clear `connected`, at the exit of the reader task of a child -/
  | markDown (child : Nat) : StdioOp Unit
  /-- read `initialize_result` -/
  | loadInit : StdioOp (Option InitializeResult)
  /-- set `initialize_result` -/
  | storeInit (init : InitializeResult) : StdioOp Unit
  /-- spawn the child process -/
  | spawn (command : String) (args : List String) (env : List (String × String))
      (cwd : Option String) : StdioOp (Except String Spawned)
  /-- set `stdin` -/
  | setStdin (child : Nat) : StdioOp Unit
  /-- set `stdin` to none -/
  | clearStdin : StdioOp Unit
  /-- set `child`; the one that was there is dropped and so killed -/
  | setChild (child : Nat) : StdioOp Unit
  /-- acquire `child` -/
  | lockChild : StdioOp Unit
  /-- drop its guard -/
  | unlockChild : StdioOp Unit
  /-- take `child` under its guard -/
  | takeChild : StdioOp (Option Nat)
  /-- kill a child and wait for its end -/
  | kill (child : Nat) : StdioOp Unit
  /-- spawn the reader task of a child -/
  | startReader (child : Nat) : StdioOp Unit
  /-- `request_counter.fetch_add(1)` -/
  | nextId : StdioOp Nat
  /-- make a one-shot channel and put its sender into `pending`; for an `initialize` request
  the child of its `connect` -/
  | register (id : Int) (handshake : Option Nat) : StdioOp Nat
  /-- acquire `write_guard` -/
  | lockWrite : StdioOp Unit
  /-- drop its guard -/
  | unlockWrite : StdioOp Unit
  /-- acquire `stdin` -/
  | lockStdin : StdioOp Unit
  /-- drop its guard -/
  | unlockStdin : StdioOp Unit
  /-- read `stdin` under its guard -/
  | loadStdin : StdioOp (Option Nat)
  /-- write a message and a line feed -/
  | writeAll (child : Nat) (message : JsonRpcMessage) : StdioOp (Except String Unit)
  | flush (child : Nat) : StdioOp (Except String Unit)
  /-- wait for a response -/
  | await (channel : Nat) (timeoutSecs : Nat) : StdioOp Awaited
  /-- remove a request from `pending`, unless its lock is held -/
  | tryForget (id : Int) : StdioOp Unit
  /-- the reader task of a child sets out -/
  | beginReading (child : Nat) : StdioOp Unit
  /-- read a line of the child's output -/
  | nextLine (child : Nat) (line : String) : StdioOp Unit
  /-- remove a request from `pending` and send its response -/
  | settle (id : Int) (r : BackendResult Value) : StdioOp Unit
  /-- the output of the child ends, or fails -/
  | endOfOutput (child : Nat) : StdioOp Unit
  /-- send an error to every request in `pending`, at the exit of the reader task of a child -/
  | drain (child : Nat) (error : BackendError) : StdioOp Unit

/-- What a stdio backend is created with. -/
structure StdioBackend : Type where
  id : String
  transport : BackendTransport
  connectTimeoutSecs : Nat
  callTimeoutSecs : Nat
  serde : Serde

/-! ## Requests -/

/-- `send_message`. -/
def sendMessage (message : JsonRpcMessage) : Prog StdioOp (BackendResult Unit) :=
  Prog.withLock .lockWrite .unlockWrite <| Prog.withLock .lockStdin .unlockStdin do
    match ← .perform .loadStdin with
    | none => .ret (.error ⟨.connection, "stdin not available"⟩)
    | some child =>
      match ← .perform (.writeAll child message) with
      | .error e => .ret (.error ⟨.connection, s!"write to stdin: {e}"⟩)
      | .ok () =>
        match ← .perform (.flush child) with
        | .error e => .ret (.error ⟨.connection, s!"flush stdin: {e}"⟩)
        | .ok () => .ret (.ok ())

namespace StdioBackend

variable (b : StdioBackend)

/-- What `send_request` does once the request is written. -/
def awaitResponse (method : String) (timeoutSecs : Nat) (id : Int) (channel : Nat) :
    Prog StdioOp (BackendResult Value) := do
  match ← .perform (.await channel timeoutSecs) with
  | .answered r => .ret r
  | .timedOut =>
    .perform (.tryForget id)
    .ret (.error ⟨.timeout,
      s!"request '{method}' to backend '{b.id}' timed out after {timeoutSecs}s"⟩)
  | .dropped => .ret (.error ⟨.connection,
      s!"backend '{b.id}' disconnected while waiting for '{method}' response"⟩)

/-- `send_request`. -/
def sendRequest (method : String) (params : Option Value) (timeoutSecs : Nat)
    (handshake : Option Nat) : Prog StdioOp (BackendResult Value) := do
  let id ← .perform .nextId
  let channel ← .perform (.register (asI64 id) handshake)
  match ← sendMessage (.request (.number (asI64 id)) method params) with
  | .error e => .ret (.error e)
  | .ok () => b.awaitResponse method timeoutSecs (asI64 id) channel

/-- The error of a backend that is not connected. -/
def notConnected : BackendError := ⟨.connection, s!"backend '{b.id}' is not connected"⟩

/-! ## The connection -/

/-- What `connect` does with a child it has spawned. -/
def openChild (child : Nat) : Prog StdioOp (BackendResult InitializeResult) := do
  .perform (.setStdin child)
  .perform (.setChild child)
  .perform (.startReader child)
  match ← b.sendRequest "initialize" (some HttpBackend.initializeParams) b.connectTimeoutSecs
      (some child) with
  | .error e => .ret (.error e)
  | .ok result =>
    match result.toInitializeResult with
    | none => .ret (.error ⟨.protocol,
        s!"failed to parse initialize result from backend '{b.id}': {b.serde.rejects result}"⟩)
    | some init =>
      match ← sendMessage (.notification "notifications/initialized" none) with
      | .error e => .ret (.error e)
      | .ok () =>
        .perform (.storeInit init)
        .perform (.establish child)
        .ret (.ok init)

/-- `connect`. -/
def connect : Prog StdioOp (BackendResult InitializeResult) := do
  if ← .perform .isConnected then
    match ← .perform .loadInit with
    | some init => .ret (.ok init)
    | none => .ret (.error ⟨.internal, "connected but no initialize result cached"⟩)
  else
    match b.transport with
    | .http .. => .ret (.error ⟨.connection, "StdioBackend requires a stdio transport"⟩)
    | .stdio command args env cwd =>
      match ← .perform (.spawn command args env cwd) with
      | .error e => .ret (.error ⟨.connection, s!"failed to spawn backend '{b.id}': {e}"⟩)
      | .ok spawned =>
        if ¬ spawned.hasStdin then
          .ret (.error ⟨.connection, s!"failed to capture stdin of backend '{b.id}'"⟩)
        else if ¬ spawned.hasStdout then
          .ret (.error ⟨.connection, s!"failed to capture stdout of backend '{b.id}'"⟩)
        else b.openChild spawned.child

/-- Kill the child, if there is one, while its lock is held. -/
def killChild : Prog StdioOp Unit :=
  Prog.withLock .lockChild .unlockChild do
    match ← .perform .takeChild with
    | some child => .perform (.kill child)
    | none => .ret ()

/-- `disconnect`. -/
def disconnect : Prog StdioOp (BackendResult Unit) := do
  .perform .markClosed
  .perform .clearStdin
  killChild
  .ret (.ok ())

/-! ## The backend contract -/

/-- The tools of a listing. -/
def readTools : List Value → BackendResult (List ToolDescriptor)
  | [] => .ok []
  | v :: vs =>
    match v.toToolDescriptor with
    | none => .error ⟨.protocol,
        s!"backend '{b.id}' returned an invalid tool descriptor: {b.serde.rejects v}"⟩
    | some tool => (readTools vs).map (tool :: ·)

/-- `list_tools`. -/
def listTools : Prog StdioOp (BackendResult (List ToolDescriptor)) := do
  if ← .perform .isConnected then
    match ← b.sendRequest "tools/list" none b.callTimeoutSecs none with
    | .error e => .ret (.error e)
    | .ok result =>
      match (result.get "tools").bind Value.asArray with
      | none => .ret (.error ⟨.protocol,
          s!"backend '{b.id}' returned a 'tools/list' response without a 'tools' array"⟩)
      | some list => .ret (b.readTools list)
  else .ret (.error b.notConnected)

/-- `request`. -/
def request (method : String) (params : Option Value) (timeoutSecs : Nat) :
    Prog StdioOp (BackendResult Value) := do
  if ← .perform .isConnected then b.sendRequest method params timeoutSecs none
  else .ret (.error b.notConnected)

/-- `call_tool`. -/
def callTool (name : String) (arguments : Option Value) (timeoutSecs : Nat) :
    Prog StdioOp (BackendResult Value) := do
  if ← .perform .isConnected then
    b.sendRequest "tools/call" (some (toolCallParams name arguments)) timeoutSecs none
  else .ret (.error b.notConnected)

/-- `health_check`: a listing with a short timeout. -/
def healthCheck : Prog StdioOp (BackendResult Unit) := do
  if ← .perform .isConnected then
    match ← b.sendRequest "tools/list" none 5 none with
    | .error e => .ret (.error e)
    | .ok _ => .ret (.ok ())
  else .ret (.error b.notConnected)

/-- The methods of the backend; a stdio backend never asks for a refresh of its tools. -/
def run : {β : Type} → McpOp β → Prog StdioOp β
  | _, .connect => b.connect
  | _, .listTools => b.listTools
  | _, .callTool name arguments timeoutSecs => b.callTool name arguments timeoutSecs
  | _, .disconnect => disconnect
  | _, .healthCheck => b.healthCheck
  | _, .request method params timeoutSecs => b.request method params timeoutSecs
  | _, .takeToolsRefresh => .ret false

/-! ## The reader task -/

/-- What the reader task makes of a line. -/
def handleLine (line : String) : Prog StdioOp Unit :=
  if line.toList.all charIsWhitespace then .ret ()
  else
    match decodeMessage b.serde line with
    | .ok (.success (.number n) result) => .perform (.settle n (.ok result))
    | .ok (.error (some (.number n)) err) => .perform (.settle n (.error ⟨.protocol,
        s!"backend '{b.id}' returned error: {err.message}"⟩))
    | _ => .ret ()

/-- `read_responses`, for the lines that the child writes. -/
def readResponses (child : Nat) : List String → Prog StdioOp Unit
  | [] => .perform (.endOfOutput child)
  | line :: lines => do
    .perform (.nextLine child line)
    b.handleLine line
    readResponses child lines

/-- The reader task of a child: it ends with the child's output. -/
def readerTask (child : Nat) (output : List String) : Prog StdioOp Unit := do
  .perform (.beginReading child)
  b.readResponses child output
  .perform (.markDown child)
  .perform (.drain child ⟨.connection, s!"backend '{b.id}' disconnected"⟩)

end StdioBackend

end HeadlessMcp
