import HeadlessMcp.Http.World
import HeadlessMcp.Registry.World
import HeadlessMcp.Server.Config

/-!
# The commands

What `headless-mcp serve`, `headless-mcp tools` and `headless-mcp --dry-run` do: build registries
over the backends of the configuration, and connect the eager ones. A program over the registry is
hosted by the hub: the methods of its HTTP backends are programs over the state of these backends,
and the other ones answer as the environment says.

The command line has one switch for the interactive grant, `--no-daemon`. `main` hands it on as
the `daemon` parameter of the other functions.
-/

namespace HeadlessMcp

open Async

/-! ## The hub -/

/-- What the process finds: its libraries, and whether there is a token store. None of it is the
program's own doing, so a theorem about the commands is about every platform. -/
structure Platform : Type where
  /-- scheme and authority of a URL, when it can be parsed -/
  origin : String → Option String
  /-- a request can be sent to the URL -/
  postable : String → Bool
  serde : Serde
  /-- BASE64URL(SHA256(·)) -/
  s256 : String → String
  /-- `build_token_store` yields a store -/
  hasStore : Bool

/-- An HTTP backend in a registry of the hub. It names the registry, the object and the id, since
the same backend may stand in several registries. -/
structure HttpSite : Type where
  registry : Nat
  object : Nat
  backendId : String
  postable : Bool

/-- The operations of a hub: those of its registries and those of its HTTP backends. -/
inductive HubOp : Type → Type 1 where
  | registry {β : Type} (r : Nat) (o : RegistryOp β) : HubOp β
  | http {β : Type} (site : HttpSite) (o : HttpOp β) : HubOp β

variable (platform : Platform)

/-- `HttpBackend::with_store`, and `with_shared_oauth2`. -/
def BackendDef.httpBackend (daemon : Bool) (d : BackendDef) : Option HttpBackend :=
  match d.transport with
  | .http url _ oauth2 => some
    { id := d.id
      url := url
      origin := platform.origin url
      manager := oauth2.map fun config => ⟨config, platform.hasStore, platform.s256⟩
      daemonMode := daemon
      serde := platform.serde }
  | .stdio .. => none

/-- The static token of an HTTP backend. -/
def BackendDef.bearerToken (d : BackendDef) : Option String :=
  match d.transport with
  | .http _ bearerToken _ => bearerToken
  | .stdio .. => none

/-- What an operation of a registry with these definitions is. The methods of an HTTP backend are
programs of their own, and those of any other backend are answered by the environment. -/
def hubOp (daemon : Bool) (definitions : List BackendDef) (r : Nat) :
    {δ : Type} → RegistryOp δ → Prog HubOp δ
  | _, .backend object method =>
    match definitions[object]?.bind (BackendDef.httpBackend platform daemon) with
    | some b =>
      let site := ⟨r, object, b.id, platform.postable b.url⟩
      (b.run method).lift (HubOp.http site)
    | none => .perform (.registry r (.backend object method))
  | _, o => .perform (.registry r o)

/-- A program over a registry of the hub. -/
def hosted {α : Type} (daemon : Bool) (definitions : List BackendDef) (r : Nat)
    (p : Prog RegistryOp α) : Prog HubOp α := p.interp (hubOp platform daemon definitions r)

/-! ## The functions of the commands -/

/-- The error of a command. -/
inductive CommandError : Type where
  | backend (e : BackendError)
  | text (message : String)

/-- How a command ends: what it has printed, and its error. -/
structure CommandEnd : Type where
  printed : List String
  error : Option CommandError

/-- A registry for each expose block, from a number on, whose eager backends are connected. -/
def serveBlocks (cfg : HubConfig) (daemon : Bool) : List ExposeBlock → Nat → Prog HubOp CommandEnd
  | [], _ => .ret ⟨[], none⟩
  | eb :: blocks, r => do
    match ← hosted platform daemon (exposedDefs cfg eb) r (buildExposeRegistry cfg eb) with
    | .error e => .ret ⟨[], some (.backend e)⟩
    | .ok () =>
      let _ ← hosted platform daemon (exposedDefs cfg eb) r Registry.connectAll
      serveBlocks cfg daemon blocks (r + 1)

/-- `run_serve`, up to the start of the listeners. -/
def runServe (cfg : HubConfig) (http daemon : Bool) : Prog HubOp CommandEnd :=
  if cfg.expose ≠ [] then
    if http then serveBlocks platform cfg daemon cfg.expose 0 else .ret ⟨[], none⟩
  else do
    match ← hosted platform daemon cfg.backends 0 (buildRegistry cfg) with
    | .error e => .ret ⟨[], some (.backend e)⟩
    | .ok () =>
      let _ ← hosted platform daemon cfg.backends 0 Registry.connectAll
      .ret ⟨[], none⟩

/-- `run_list_tools`. -/
def runListTools (cfg : HubConfig) (daemon : Bool) : Prog HubOp CommandEnd := do
  match ← hosted platform daemon cfg.backends 0 (buildRegistry cfg) with
  | .error e => .ret ⟨[], some (.backend e)⟩
  | .ok () =>
    let _ ← hosted platform daemon cfg.backends 0 Registry.connectAll
    let tools ← hosted platform daemon cfg.backends 0 Registry.aggregatedTools
    let lines := tools.map fun t => s!"  {t.name}\n    {t.description}"
    .ret ⟨if tools = [] then ["No tools available."] else lines, none⟩

/-- `run_dry_run`. -/
def runDryRun (cfg : HubConfig) (daemon : Bool) : Prog HubOp CommandEnd := do
  match ← hosted platform daemon cfg.backends 0 (buildRegistry cfg) with
  | .error e => .ret ⟨[], some (.backend e)⟩
  | .ok () =>
    let results ← hosted platform daemon cfg.backends 0 Registry.connectAll
    let failed := results.countP fun r => r.2.toOption.isNone
    let tools ← hosted platform daemon cfg.backends 0 Registry.aggregatedTools
    .ret ⟨tools.map fun t => s!"  {t.name}",
      if 0 < failed then some (.text "some backends failed") else none⟩

/-! ## The command line -/

/-- The commands that connect the backends of the configuration. -/
inductive Commands : Type where
  | serve (http : Bool)
  | tools

/-- The command line. -/
structure Cli : Type where
  noDaemon : Bool
  dryRun : Bool
  command : Option Commands

namespace Cli

/-- What `main` runs. -/
def run (cli : Cli) (cfg : HubConfig) : Prog HubOp CommandEnd :=
  match cli.command with
  | some (.serve http) => runServe platform cfg http true
  | some .tools => runListTools platform cfg cli.noDaemon
  | none =>
    if cli.dryRun then runDryRun platform cfg cli.noDaemon
    else runServe platform cfg false true

/-- The command keeps serving its clients. Then clients may send it requests for as long as it
runs. -/
def serves (cli : Cli) : Bool :=
  match cli.command with
  | some (.serve _) => true
  | some .tools => false
  | none => !cli.dryRun

/-- The definitions in the registries of a hub that serves. -/
def servedDefs (cfg : HubConfig) (r : Nat) : List BackendDef :=
  match cfg.expose with
  | [] => cfg.backends
  | blocks => (blocks[r]?.map (exposedDefs cfg)).getD []

/-- The definitions in the registries. -/
def definitions (cli : Cli) (cfg : HubConfig) (r : Nat) : List BackendDef :=
  if cli.serves then servedDefs cfg r else cfg.backends

end Cli

/-! ## The world of a hub -/

/-- The state of a hub. A token manager belongs to a backend id: the registries share it. -/
structure HubWorld (ι : Type) : Type where
  registries : Nat → RegistryWorld ι
  /-- the HTTP backends by registry and object, apart from their token managers -/
  https : Nat → Nat → HttpWorld ι
  managers : String → OAuthWorld ι

/-- What the environment chooses in one step. -/
structure HubChoice : Type where
  registry : RegistryChoice := {}
  http : HttpChoice := {}

/-- Where no request can be sent, none is answered. -/
def HttpChoice.sentTo (postable : Bool) (e : HttpChoice) : HttpChoice :=
  if postable then e
  else { e with reply := match e.reply with
    | .response _ _ _ => .failed false ""
    | reply => reply }

namespace HubWorld

variable {ι : Type} [DecidableEq ι]

/-- The state that the methods of an HTTP backend work on. The token manager is the one of the
backend's id, whichever registry the backend stands in. -/
def backendAt (site : HttpSite) (s : HubWorld ι) : HttpWorld ι :=
  { s.https site.registry site.object with oauth := s.managers site.backendId }

/-- Put it back. -/
def setBackend (site : HttpSite) (t : HttpWorld ι) (s : HubWorld ι) : HubWorld ι :=
  { s with
    https := Function.update s.https site.registry
      (Function.update (s.https site.registry) site.object t)
    managers := Function.update s.managers site.backendId t.oauth }

/-- What each operation does. -/
def exec (i : ι) : (β : Type) → HubOp β → HubChoice → HubWorld ι → Option (β × HubWorld ι)
  | β, .registry r o, e, s =>
    (RegistryWorld.exec i β o e.registry (s.registries r)).map fun x =>
      (x.1, { s with registries := Function.update s.registries r x.2 })
  | β, .http site o, e, s =>
    (HttpWorld.exec i β o (e.http.sentTo site.postable) (s.backendAt site)).map fun x =>
      (x.1, s.setBackend site x.2)

/-- A hub that has just been started with these definitions, over a token store. -/
def start (ι : Type) (definitions : Nat → List BackendDef)
    (store : String → Option PersistedToken) : HubWorld ι where
  registries _ := ⟨[], [], []⟩
  https r object :=
    .fresh (.empty ι) ((definitions r)[object]?.bind BackendDef.bearerToken)
  managers _ := { OAuthWorld.empty ι with store := store }

end HubWorld

/-- The machine of a hub's tasks. -/
def hubMachine (ι : Type) [DecidableEq ι] : Machine HubOp ι HubChoice (HubWorld ι) :=
  ⟨HubWorld.exec⟩

/-- A state of a hub with its history. -/
abbrev CommandRun (ι : Type) : Type 1 := Recorded HubOp ι (HubWorld ι)

/-- What a client has the hub do: any program over one of its registries. -/
structure ClientRequest : Type 1 where
  registry : Nat
  program : Prog RegistryOp Unit

/-- The command, and beside it what the clients ask for where it serves some. -/
def Cli.pool {ι : Type} (cli : Cli) (cfg : HubConfig) (store : String → Option PersistedToken)
    (requests : ι → ClientRequest) : Pool HubOp (Option ι) (CommandRun (Option ι)) Unit where
  shared := ⟨HubWorld.start (Option ι) (cli.definitions cfg) store, []⟩
  task
    | none => do
      let _ ← cli.run platform cfg
      .ret ()
    | some i =>
      if cli.serves then
        hosted platform true (Cli.servedDefs cfg (requests i).registry) (requests i).registry
          (requests i).program
      else .ret ()

end HeadlessMcp
