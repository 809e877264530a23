import HeadlessMcp.Async.Prog
import HeadlessMcp.Async.Machine
import HeadlessMcp.Async.Mpsc
import HeadlessMcp.Async.Deadlock
import HeadlessMcp.Async.Rely
import HeadlessMcp.Core.Entries
import HeadlessMcp.Core.Json
import HeadlessMcp.Core.Parser
import HeadlessMcp.Core.Types
import HeadlessMcp.Core.Search
import HeadlessMcp.OAuth2.Manager
import HeadlessMcp.Core.Backend
import HeadlessMcp.Registry.Policy
import HeadlessMcp.Registry.Schema
import HeadlessMcp.Registry.Registry
import HeadlessMcp.Registry.World
import HeadlessMcp.Registry.Routing
import HeadlessMcp.Registry.Relisting
import HeadlessMcp.Async.Solo
import HeadlessMcp.Async.Progress
import HeadlessMcp.Async.History
import HeadlessMcp.Async.Ledger
import HeadlessMcp.Async.Contract
import HeadlessMcp.OAuth2.Discovery
import HeadlessMcp.OAuth2.Challenge
import HeadlessMcp.OAuth2.World
import HeadlessMcp.OAuth2.Daemon
import HeadlessMcp.OAuth2.Restart
import HeadlessMcp.OAuth2.Locked
import HeadlessMcp.OAuth2.Discipline
import HeadlessMcp.OAuth2.Walk
import HeadlessMcp.OAuth2.Rotation
import HeadlessMcp.OAuth2.Singleflight
import HeadlessMcp.OAuth2.Pairing
import HeadlessMcp.Wire.JsonRpc
import HeadlessMcp.Wire.Encoding
import HeadlessMcp.Wire.Limits
import HeadlessMcp.Wire.Sse
import HeadlessMcp.Wire.Framing
import HeadlessMcp.Wire.EventStream
import HeadlessMcp.Wire.Grammar
import HeadlessMcp.Wire.Nesting
import HeadlessMcp.Http.Headers
import HeadlessMcp.Http.HeaderValue
import HeadlessMcp.Http.Backend
import HeadlessMcp.Http.Reply
import HeadlessMcp.Http.Traffic
import HeadlessMcp.Http.World
import HeadlessMcp.Http.Handshake
import HeadlessMcp.Http.Reinitialize
import HeadlessMcp.Http.Window
import HeadlessMcp.Http.Forward
import HeadlessMcp.Http.Remedy
import HeadlessMcp.Async.Transcript
import HeadlessMcp.Http.Attempt
import HeadlessMcp.Http.Repeats
import HeadlessMcp.Http.Mirror
import HeadlessMcp.Stdio.Backend
import HeadlessMcp.Stdio.World
import HeadlessMcp.Stdio.Exit
import HeadlessMcp.Stdio.Correlation
import HeadlessMcp.Stdio.Pending
import HeadlessMcp.Stdio.Connect
import HeadlessMcp.Session.Session
import HeadlessMcp.Session.World
import HeadlessMcp.Session.Events
import HeadlessMcp.Server.Config
import HeadlessMcp.Server.Expose
import HeadlessMcp.Server.OneShot
import HeadlessMcp.Server.Token
import HeadlessMcp.Secrets.FileStore
import HeadlessMcp.Secrets.World
import HeadlessMcp.Secrets.Processes
import HeadlessMcp.Secrets.Refinement
import HeadlessMcp.Registry.Unregister
import HeadlessMcp.Registry.Backoff
import HeadlessMcp.Registry.Startup
import HeadlessMcp.Registry.Indexing
import HeadlessMcp.Session.Ownership
import HeadlessMcp.Session.FirstCall
import HeadlessMcp.Session.Announce
import HeadlessMcp.Session.Listen
import HeadlessMcp.Session.Dispatch
import HeadlessMcp.Session.Gate
import HeadlessMcp.Session.Resources
import HeadlessMcp.Session.Caching
import HeadlessMcp.Session.Audit
import HeadlessMcp.Server.Agreement
import HeadlessMcp.OAuth2.Percent
import HeadlessMcp.OAuth2.Pkce
import HeadlessMcp.OAuth2.Lifetime
import HeadlessMcp.Async.Angelic
import HeadlessMcp.Http.Unattended
import HeadlessMcp.Server.Commands
import HeadlessMcp.Server.Unattended
import HeadlessMcp.Server.Template
import HeadlessMcp.Server.Refusal
import HeadlessMcp.Transport.Stdio
import HeadlessMcp.Transport.Delivery
import HeadlessMcp.Transport.Shutdown
import HeadlessMcp.Async.Returns
import HeadlessMcp.Transport.Http
import HeadlessMcp.Transport.Admission
import HeadlessMcp.Async.Refinement
import HeadlessMcp.Async.Hierarchy
import HeadlessMcp.Http.Locks
import HeadlessMcp.Stdio.Locks
import HeadlessMcp.Hub.World
import HeadlessMcp.Hub.Refinement
import HeadlessMcp.Hub.Gate
import HeadlessMcp.Hub.Liveness
import HeadlessMcp.Hub.Policy
import HeadlessMcp.Hub.Wire
