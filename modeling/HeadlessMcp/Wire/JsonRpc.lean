import HeadlessMcp.Core.Types

/-!
# JSON-RPC messages

The four shapes of a JSON-RPC 2.0 message, the error object, and the decoder. The text
itself is parsed by `serde_json`, which is a parameter here.

The decoder is the source's: the scan for deep nesting first, then the parser, then the fields in
the order in which the source looks at them, so that the error of a bad message is the one the
source gives.
-/

namespace HeadlessMcp

/-- A JSON-RPC 2.0 error object. Its data is whatever the handler of the request gives. -/
structure JsonRpcError : Type where
  code : Int
  message : String
  data : Option Value

namespace JsonRpcError

/-- `PARSE_ERROR`. -/
def parseErrorCode : Int := -32700

/-- `INVALID_REQUEST`. -/
def invalidRequestCode : Int := -32600

/-- `METHOD_NOT_FOUND`. -/
def methodNotFoundCode : Int := -32601

/-- `INVALID_PARAMS`. -/
def invalidParamsCode : Int := -32602

/-- `INTERNAL_ERROR`. -/
def internalErrorCode : Int := -32603

/-- `parse_error`. -/
def parseError (message : String) : JsonRpcError := ⟨parseErrorCode, message, none⟩

/-- `invalid_request`. -/
def invalidRequest (message : String) : JsonRpcError := ⟨invalidRequestCode, message, none⟩

/-- `method_not_found`. -/
def methodNotFound (message : String) : JsonRpcError := ⟨methodNotFoundCode, message, none⟩

/-- `invalid_params`. -/
def invalidParams (message : String) : JsonRpcError := ⟨invalidParamsCode, message, none⟩

/-- `internal_error`. -/
def internalError (message : String) : JsonRpcError := ⟨internalErrorCode, message, none⟩

/-- What `Display` prints. -/
def display (e : JsonRpcError) : String := s!"JSON-RPC error {e.code}: {e.message}"

end JsonRpcError

/-- A request or response id. A null id is no id. -/
inductive JsonRpcId : Type where
  | number : Int → JsonRpcId
  | string : String → JsonRpcId
  deriving DecidableEq

/-- A JSON-RPC message. -/
inductive JsonRpcMessage : Type where
  | request (id : JsonRpcId) (method : String) (params : Option Value) : JsonRpcMessage
  | notification (method : String) (params : Option Value) : JsonRpcMessage
  | success (id : JsonRpcId) (result : Value) : JsonRpcMessage
  /-- `id` is none when the id of the failed request could not be recovered -/
  | error (id : Option JsonRpcId) (error : JsonRpcError) : JsonRpcMessage

/-! ## Encoding -/

/-- `Serialize` for an id. -/
def JsonRpcId.toValue : JsonRpcId → Value
  | number n => .number (.int n)
  | string s => .string s

/-- A field that is skipped when it is none. The key is left out, and not printed with a null. -/
def optionalField (key : String) (v : Option Value) : Map := (v.map fun v => (key, v)).toList

/-- `Serialize` for an error object. -/
def JsonRpcError.toValue (e : JsonRpcError) : Value :=
  .object ([("code", .number (.int e.code)), ("message", .string e.message)] ++
    optionalField "data" e.data)

/-- The fields of a message, in the order in which `Serialize` writes them. -/
def JsonRpcMessage.fields : JsonRpcMessage → Map
  | request id method params =>
    [("jsonrpc", .string "2.0"), ("id", id.toValue), ("method", .string method)] ++
      optionalField "params" params
  | notification method params =>
    [("jsonrpc", .string "2.0"), ("method", .string method)] ++ optionalField "params" params
  | success id result => [("jsonrpc", .string "2.0"), ("id", id.toValue), ("result", result)]
  | error id err =>
    [("jsonrpc", .string "2.0"), ("id", (id.map JsonRpcId.toValue).getD .null),
      ("error", err.toValue)]

/-- `serde_json::to_vec` of a message. It is compact, without white space. -/
def JsonRpcMessage.encode (m : JsonRpcMessage) : String := (Value.object m.fields).print

/-! ## Decoding -/

/-- `MAX_JSON_NESTING_DEPTH`. -/
def maxJsonNestingDepth : Nat := 128

/-- The loop of `exceeds_max_nesting`. The two flags say whether the scanner is in a string, and
whether a backslash came right before. -/
def exceedsFrom (maxDepth : Nat) : Nat → Bool → Bool → List Char → Bool
  | _, _, _, [] => false
  | depth, true, true, _ :: cs => exceedsFrom maxDepth depth true false cs
  | depth, true, false, c :: cs =>
    if c = '\\' then exceedsFrom maxDepth depth true true cs
    else exceedsFrom maxDepth depth (c ≠ '"') false cs
  | depth, false, escaped, c :: cs =>
    if c = '"' then exceedsFrom maxDepth depth true escaped cs
    else if c = '\x7b' ∨ c = '[' then
      if depth + 1 > maxDepth then true else exceedsFrom maxDepth (depth + 1) false escaped cs
    else if c = '\x7d' ∨ c = ']' then exceedsFrom maxDepth (depth - 1) false escaped cs
    else exceedsFrom maxDepth depth false escaped cs

/-- `exceeds_max_nesting`. It is no parser: it counts the open brackets outside of strings. -/
def exceedsMaxNesting (text : String) (maxDepth : Nat) : Bool :=
  exceedsFrom maxDepth 0 false false text.toList

/-- `parse_id`. -/
def parseId (v : Value) : Option JsonRpcId :=
  match v with
  | .string s => some (.string s)
  | _ => v.asI64.map .number

/-- `serde_json::from_value::<JsonRpcError>`. -/
def Value.toJsonRpcError (v : Value) : Option JsonRpcError := do
  let code ← (← v.get "code").asI64
  let message ← (← v.get "message").asStr
  return ⟨code, message, v.optField "data"⟩

/-- What `serde_json` does with a text and says about what it rejects. -/
structure Serde : Type where
  /-- `from_slice::<Value>`, with the text of its error -/
  fromSlice : String → Except String Value
  /-- the error of a `from_value` -/
  rejects : Value → String

/-- `decode_response`. -/
def decodeResponse (serde : Serde) (obj : Map) : Except JsonRpcError JsonRpcMessage :=
  match obj.get "result", obj.get "error" with
  | some _, some _ => .error (.invalidRequest
      "a response must not contain both \"result\" and \"error\"")
  | some result, none =>
    match obj.get "id" with
    | none => .error (.invalidRequest "missing \"id\" field")
    | some idValue =>
      match parseId idValue with
      | none => .error (.invalidRequest "\"id\" must be a number or string")
      | some id => .ok (.success id result)
  | none, some errorValue =>
    match obj.get "id" with
    | none => .error (.invalidRequest "missing \"id\" field")
    | some idValue =>
      let decoded (id : Option JsonRpcId) : Except JsonRpcError JsonRpcMessage :=
        match errorValue.toJsonRpcError with
        | some err => .ok (.error id err)
        | none => .error (.invalidRequest s!"invalid \"error\" object: {serde.rejects errorValue}")
      match idValue with
      | .null => decoded none
      | _ =>
        match parseId idValue with
        | none => .error (.invalidRequest "\"id\" must be a number, string, or null")
        | some id => decoded (some id)
  | none, none => .error (.invalidRequest
      "a JSON-RPC message must contain \"method\", \"result\", or \"error\"")

/-- `decode_request_or_notification`. -/
def decodeRequestOrNotification (obj : Map) (methodValue : Value) :
    Except JsonRpcError JsonRpcMessage :=
  match methodValue with
  | .string method =>
    match obj.get "id" with
    | none => .ok (.notification method (obj.get "params"))
    | some idValue =>
      match parseId idValue with
      | none => .error (.invalidRequest "\"id\" must be a number or string")
      | some id => .ok (.request id method (obj.get "params"))
  | _ => .error (.invalidRequest "\"method\" must be a string")

/-- `decode_value`. A value with a method is a request or a notification, and any other a
response. -/
def decodeValue (serde : Serde) (v : Value) : Except JsonRpcError JsonRpcMessage :=
  match v with
  | .object obj =>
    match Entries.get obj "jsonrpc" with
    | none => .error (.invalidRequest "missing \"jsonrpc\" field")
    | some (.string version) =>
      if version = "2.0" then
        match Entries.get obj "method" with
        | some methodValue => decodeRequestOrNotification obj methodValue
        | none => decodeResponse serde obj
      else .error (.invalidRequest "\"jsonrpc\" must be the string \"2.0\"")
    | some _ => .error (.invalidRequest "\"jsonrpc\" must be the string \"2.0\"")
  | _ => .error (.invalidRequest "a JSON-RPC message must be a JSON object")

/-- `decode_message`. -/
def decodeMessage (serde : Serde) (text : String) : Except JsonRpcError JsonRpcMessage :=
  if exceedsMaxNesting text maxJsonNestingDepth then
    .error (.invalidRequest
      s!"JSON nesting depth exceeds the limit of {maxJsonNestingDepth}")
  else
    match serde.fromSlice text with
    | .error e => .error (.parseError e)
    | .ok v => decodeValue serde v

end HeadlessMcp
