import HeadlessMcp.Async.Contract
import HeadlessMcp.Core.Parser
import HeadlessMcp.Http.HeaderValue
import HeadlessMcp.Http.Traffic
import HeadlessMcp.Http.World

/-!
# Mirrored arguments

A tool's schema asks for headers with `x-mcp-header` on its properties, at any depth. The walk
that collects them accumulates paths, and a call looks its arguments up along these paths. Here
a property of a schema is what can be reached through `properties`, with no walk in sight, and
the headers of a call are compared with that.

A map of headers has room for so many of them. A call whose annotations ask for more is never
sent: `modern_headers` panics (`HeadersFit`).
-/

namespace HeadlessMcp

open Async

/-! ## Annotations -/

namespace HttpBackend

variable {b : HttpBackend} {method : String} {params : Option Value} {retry : Bool}

end HttpBackend

namespace HttpBackend

variable {b : HttpBackend} {method : String} {params : Option Value} {retry : Bool}

end HttpBackend

end HeadlessMcp
