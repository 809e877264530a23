import HeadlessMcp.Core.Types

/-!
# Request headers

What a modern request carries in its headers besides its body: the protocol version, the
method, the name of what it is about, and the arguments that a tool's schema mirrors into
headers of their own.

The names and the values go through the checks of the `http` crate: a name that is no token is
skipped, and so is a value that cannot be one. The map has room for a bounded number of headers,
and panics beyond.
-/

namespace HeadlessMcp

/-- `HeaderValue::from_str` takes a text. It takes the visible characters, the space, the tab and
every byte from 128 on. -/
def headerValueOk (s : String) : Bool :=
  s.toList.all fun c => c = '\t' || (32 ≤ c.toNat && c.toNat ≠ 127)

/-- `HeaderValue::to_str` yields the text. It yields one for the visible characters, the space and
the tab only. -/
def headerTextOk (s : String) : Bool :=
  s.toList.all fun c => c = '\t' || (32 ≤ c.toNat && c.toNat < 127)

/-- A character of a header name. -/
def isTokenChar (c : Char) : Bool :=
  c.isAlphanum || "!#$%&'*+-.^_`|~".toList.contains c

/-- The most bytes of a header name. -/
def maxHeaderNameLen : Nat := 65535

/-- `HeaderName::from_bytes`: names are in lower case. -/
def headerName (s : String) : Option String :=
  if s ≠ "" && s.toList.all isTokenChar && s.length ≤ maxHeaderNameLen then
    some (String.ofList (s.toList.map Char.toLower))
  else none

/-! ## Values -/

/-- `header_text`: a string, integer or boolean argument as text. -/
def headerText : Value → Option String
  | .string s => some s
  | .bool b => some (if b then "true" else "false")
  | .number (.int n) => some (toString n)
  | _ => none

/-- The character of six bits. -/
def base64Char (n : Nat) : Char :=
  "ABCDEFGHIJKLMNOPQRSTUVWXYZabcdefghijklmnopqrstuvwxyz0123456789+/".toList.getD n 'A'

/-- Standard base64 with padding. -/
def base64 : List Nat → List Char
  | [] => []
  | [a] => [base64Char (a / 4), base64Char (a % 4 * 16), '=', '=']
  | [a, b] => [base64Char (a / 4), base64Char (a % 4 * 16 + b / 16),
      base64Char (b % 16 * 4), '=']
  | a :: b :: c :: rest =>
    base64Char (a / 4) :: base64Char (a % 4 * 16 + b / 16) ::
      base64Char (b % 16 * 4 + c / 64) :: base64Char (c % 64) :: base64 rest

/-- The UTF-8 bytes of a text. -/
def utf8Bytes (s : String) : List Nat := s.toUTF8.data.toList.map UInt8.toNat

/-- `encode_header_value`: plain ASCII as is, anything else in base64. What would be read as an
encoded value is encoded too, although it could go as it is. -/
def encodeHeaderValue (value : String) : String :=
  let chars := value.toList
  let start := "=?base64?".toList
  if chars.all (fun c => ' ' ≤ c && c ≤ '~') && chars.head? ≠ some ' ' &&
      chars.getLast? ≠ some ' ' &&
      !(start.isPrefixOf chars && "?=".toList.isSuffixOf chars) then value
  else s!"=?base64?{String.ofList (base64 (utf8Bytes value))}?="

/-! ## Mirrored arguments -/

/-- Where a tool argument lives in the call, and the suffix of its header. -/
abbrev ParamHeaders : Type := List (List String × String)

/-- The header of a property, if its schema asks for one. -/
def paramHeaderOf (path : List String) (prop : Value) : ParamHeaders :=
  match (prop.get "x-mcp-header").bind Value.asStr, (prop.get "type").bind Value.asStr with
  | some name, some type =>
    if type = "string" ∨ type = "integer" ∨ type = "boolean" then [(path, name)] else []
  | _, _ => []

mutual

/-- The annotations below a schema. Only an object can be a schema, and what is no object has no
properties. -/
def walkSchema (path : List String) : Value → ParamHeaders
  | .object fields => walkFields path fields
  | _ => []

/-- The annotations below the `properties` of a schema with these fields. -/
def walkFields (path : List String) : List (String × Value) → ParamHeaders
  | [] => []
  | (key, v) :: fields => if key = "properties" then walkObject path v else walkFields path fields

/-- The annotations of `properties` that are an object. -/
def walkObject (path : List String) : Value → ParamHeaders
  | .object props => walkProps path props
  | _ => []

/-- The annotations of some properties. The property's own annotation comes first, and then those
of the properties below it. -/
def walkProps (path : List String) : List (String × Value) → ParamHeaders
  | [] => []
  | (key, prop) :: props =>
    paramHeaderOf (path ++ [key]) prop ++ walkSchema (path ++ [key]) prop ++ walkProps path props

end

/-- `param_header_paths`. -/
def paramHeaderPaths (schema : Value) : ParamHeaders := walkSchema [] schema

/-! ## Modern requests -/

/-- `modern_version`: the protocol version that a request declares. -/
def modernVersion (params : Option Value) : Option String := do
  (← (← (← params).get "_meta").get "io.modelcontextprotocol/protocolVersion").asStr

/-- How many headers there is room for in an `http::HeaderMap`, which never has more than 32,768
slots and fills three quarters of them. -/
def maxHeaders : Nat := 24576

/-- `HeaderMap::insert`: it makes room first, whatever it inserts, and panics where it cannot. -/
def insertHeader (name value : String) (headers : Entries String) : Option (Entries String) :=
  if headers.length < maxHeaders then some (headers.insert name value) else none

/-- Add a header, unless its value cannot be one. The request goes out without such a header. -/
def putHeader (name value : String) (headers : Entries String) : Option (Entries String) :=
  if headerValueOk value then insertHeader name value headers else some headers

/-- What a modern request is about, in its params. -/
def headerSource (method : String) (params : Value) : Option String :=
  let field := if method = "tools/call" ∨ method = "prompts/get" then some "name"
    else if method = "resources/read" then some "uri"
    else none
  (field.bind params.get).bind Value.asStr

/-- The argument at a path. Every step of the path is the key of an object, and where one is
missing there is no argument. -/
def argumentAt (params : Value) (path : List String) : Option Value :=
  (params.get "arguments").bind fun args => path.foldlM Value.get args

/-- Mirror the annotated arguments of a call. An argument that is absent, or has no text form,
puts no header. -/
def putParams (params : Value) (annotated : ParamHeaders) (headers : Entries String) :
    Option (Entries String) :=
  annotated.foldlM (fun headers annotation =>
    match (argumentAt params annotation.1).bind headerText,
      headerName s!"Mcp-Param-{annotation.2}" with
    | some value, some name => putHeader name (encodeHeaderValue value) headers
    | _, _ => some headers) headers

/-- `modern_headers`, given the annotations of every tool: `none` is its panic. -/
def modernHeaders (paramHeaders : Entries ParamHeaders) (method : String)
    (params : Option Value) : Option (Entries String) :=
  match params, modernVersion params with
  | some params, some version => do
    let headers ← putHeader "mcp-protocol-version" version []
    let headers ← putHeader "mcp-method" method headers
    let source := headerSource method params
    let headers ← match source with
      | some source => putHeader "mcp-name" (encodeHeaderValue source) headers
      | none => some headers
    if method = "tools/call" then
      putParams params ((source.bind paramHeaders.get).getD []) headers
    else some headers
  | _, _ => some []

end HeadlessMcp
