import HeadlessMcp.Core.Types

/-!
# The backend contract

`McpBackend`, the seam between the hub and one downstream server, as a family of
operations. The registry only knows these; the transports implement them.
-/

namespace HeadlessMcp

/-- The methods of `McpBackend`, by the type of their answer. A method takes no lock of the
registry, so for the registry it is one operation that may take long. -/
inductive McpOp : Type → Type where
  /-- the full handshake -/
  | connect : McpOp (BackendResult InitializeResult)
  /-- `tools/list` -/
  | listTools : McpOp (BackendResult (List ToolDescriptor))
  /-- `tools/call` -/
  | callTool (name : String) (arguments : Option Value) (timeoutSecs : Nat) :
      McpOp (BackendResult Value)
  /-- tear the connection down -/
  | disconnect : McpOp (BackendResult Unit)
  /-- is the backend reachable and responding? -/
  | healthCheck : McpOp (BackendResult Unit)
  /-- any other request, and a `tools/call` with extra params -/
  | request (method : String) (params : Option Value) (timeoutSecs : Nat) :
      McpOp (BackendResult Value)
  /-- true once after the backend re-did its handshake on its own -/
  | takeToolsRefresh : McpOp Bool

/-- The `arguments` of a `tools/call` on the wire: an empty object when there are none. -/
def wireArguments (arguments : Option Value) : Value := arguments.getD (.object [])

/-- The params of a `tools/call`, as both transports build them. -/
def toolCallParams (name : String) (arguments : Option Value) : Value :=
  .object [("name", .string name), ("arguments", wireArguments arguments)]

/-- The JSON-RPC request that a method sends on behalf of a caller: its method and
params. The handshake and the listing are the backend's own. -/
def McpOp.forwards {β : Type} : McpOp β → Option (String × Option Value)
  | .callTool name arguments _ => some ("tools/call", some (toolCallParams name arguments))
  | .request method params _ => some (method, params)
  | _ => none

end HeadlessMcp
