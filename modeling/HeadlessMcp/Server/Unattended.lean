import HeadlessMcp.Http.Unattended
import HeadlessMcp.Registry.Relisting
import HeadlessMcp.Server.Commands
import HeadlessMcp.Session.Events

/-!
# Commands and the user

Daemon mode is the default: without `--no-daemon` no command but `auth` is meant to ask the user for
anything. `serve` is always in daemon mode. But `main` hands the switch itself to `run_list_tools`
and `run_dry_run`, where it is the `daemon` parameter, so these two are out of daemon mode exactly
when the switch is not given. `unattended_iff` says for which configurations that matters.
-/

namespace HeadlessMcp

open Async

/-- `o` belongs to the interactive grant alone. -/
def HubOp.Interactive {β : Type} : HubOp β → Prop
  | .registry _ _ => False
  | .http _ o => o.Interactive

/-- The backend is connected at startup, a request can be sent to it, and its grant is the
interactive one. -/
def BackendDef.AsksUser (platform : Platform) (d : BackendDef) : Prop :=
  d.connectionMode = .eager ∧ ∃ b, d.httpBackend platform false = some b ∧
    platform.postable b.url = true ∧ ∃ m ∈ b.manager, m.resolveGrantType = "authorization_code"

/-! ## What is registered -/

section Registered

variable {ι : Type} {i : ι} {P : BackendDef → Nat → Prop} {s t : RegistryWorld ι}

/-- Every backend is registered under its id, and `P` holds of its definition and its object. -/
def Entered (P : BackendDef → Nat → Prop) (backends : Entries BackendHandle) : Prop :=
  ∀ e ∈ backends, e.2.definition.id = e.1 ∧ P e.2.definition e.2.object

/-- What the operation registers is as it should be. The condition is on the definition and the
object that go in. -/
def RegistryOp.Enters (P : BackendDef → Nat → Prop) {β : Type} : RegistryOp β → Prop
  | .insertBackend handle => P handle.definition handle.object
  | _ => True

/-- What is found is as it should be. -/
def RegistryOp.Finds (P : BackendDef → Nat → Prop) : {β : Type} → RegistryOp β → β → Prop
  | _, .lookup id, found => ∀ handle ∈ found, handle.definition.id = id ∧
      P handle.definition handle.object
  | _, .entries, found => Entered P found
  | _, _, _ => True

theorem entered_modifyBackend {id : String} {f : BackendHandle → BackendHandle}
    (hf : ∀ h, (f h).definition = h.definition ∧ (f h).object = h.object)
    (hs : Entered P s.backends) : Entered P (s.modifyBackend id f).backends := by
  unfold RegistryWorld.modifyBackend
  split
  · rename_i handle hget
    intro e he
    rcases Entries.mem_insert he with rfl | he
    · obtain ⟨hid, hP⟩ := hs _ (Entries.mem_of_get hget)
      obtain ⟨hdefinition, hobject⟩ := hf handle
      rw [hdefinition, hobject]
      exact ⟨hid, hP⟩
    · exact hs e he
  · exact hs

/-- The iteration finds what there is. -/
theorem mem_of_arrange {e : RegistryChoice} {backends found : Entries BackendHandle}
    (h : e.arrange backends = some found) {entry : String × BackendHandle}
    (hentry : entry ∈ found) : entry ∈ backends := by
  unfold RegistryChoice.arrange at h
  split at h
  · obtain rfl := Option.some.inj h
    exact hentry
  · split at h
    · obtain rfl := Option.some.inj h
      obtain ⟨id, -, hid⟩ := List.mem_filterMap.mp hentry
      obtain ⟨handle, hget, rfl⟩ := Option.map_eq_some_iff.mp hid
      exact Entries.mem_of_get hget
    · cases h

/-- Every operation keeps what is registered as it should be, and finds it so. -/
theorem exec_entered {β : Type} {o : RegistryOp β} {e : RegistryChoice} {b : β}
    (ho : o.Enters P) (hs : Entered P s.backends)
    (h : (registryMachine ι).exec i β o e s = some (b, t)) :
    Entered P t.backends ∧ o.Finds P b := by
  simp only [registryMachine] at h
  cases o with
  | lookup id =>
    obtain ⟨rfl, rfl⟩ := Prod.mk.inj (Option.some.inj h)
    exact ⟨hs, fun handle hget => hs _ (Entries.mem_of_get hget)⟩
  | entries =>
    obtain ⟨found, harrange, heq⟩ := Option.map_eq_some_iff.mp h
    obtain ⟨rfl, rfl⟩ := Prod.mk.inj heq
    exact ⟨hs, fun entry hentry => hs entry (mem_of_arrange harrange hentry)⟩
  | insertBackend handle =>
    simp only [RegistryWorld.exec] at h
    split at h
    · obtain ⟨-, rfl⟩ := Prod.mk.inj (Option.some.inj h)
      exact ⟨hs, trivial⟩
    · obtain ⟨-, rfl⟩ := Prod.mk.inj (Option.some.inj h)
      refine ⟨fun entry hentry => ?_, trivial⟩
      rcases Entries.mem_insert hentry with rfl | hentry
      · exact ⟨rfl, ho⟩
      · exact hs entry hentry
  | removeBackend id =>
    obtain ⟨-, rfl⟩ := Prod.mk.inj (Option.some.inj h)
    exact ⟨fun entry hentry => hs entry (List.mem_filter.mp hentry).1, trivial⟩
  | setCapabilities id capabilities =>
    obtain ⟨-, rfl⟩ := Prod.mk.inj (Option.some.inj h)
    exact ⟨entered_modifyBackend (fun _ => ⟨rfl, rfl⟩) hs, trivial⟩
  | setHealth id healthy =>
    obtain ⟨-, rfl⟩ := Prod.mk.inj (Option.some.inj h)
    exact ⟨entered_modifyBackend (fun _ => ⟨rfl, rfl⟩) hs, trivial⟩
  | countAttempt id =>
    obtain ⟨-, rfl⟩ := Prod.mk.inj (Option.some.inj h)
    exact ⟨entered_modifyBackend (fun _ => ⟨rfl, rfl⟩) hs, trivial⟩
  | reindex id toolNamespace hidden tools =>
    simp only [RegistryWorld.exec] at h
    split at h
    · obtain ⟨-, rfl⟩ := Prod.mk.inj (Option.some.inj h)
      refine ⟨entered_modifyBackend (fun _ => ⟨rfl, rfl⟩) ?_, trivial⟩
      exact hs
    · obtain ⟨-, rfl⟩ := Prod.mk.inj (Option.some.inj h)
      exact ⟨hs, trivial⟩
  | backend object method =>
    obtain ⟨-, rfl⟩ := Prod.mk.inj (Option.some.inj h)
    refine ⟨?_, trivial⟩
    unfold RegistryWorld.record
    split <;> exact hs
  | dropTools id | clearIndex | lookupTool exposedName | resolve exposedName | resolveAll
  | sleep milliseconds =>
    obtain ⟨-, rfl⟩ := Prod.mk.inj (Option.some.inj h)
    exact ⟨hs, trivial⟩

end Registered

/-! ## Without the user -/

/-- Nothing interactive is done, where the backends are registered as `P` says. What is found in a
registry was put there, so the answers are admitted. -/
def hubContract (P : Nat → BackendDef → Nat → Prop) : Contract HubOp Unit where
  next _ _ u := u
  inOrder o _ := match o with
    | .registry r o => o.Enters (P r)
    | .http _ o => ¬ o.Interactive
  admits o b _ := match o with
    | .registry r o => o.Finds (P r) b
    | .http site o => site.postable = false → o.Unanswered b

/-- The program does nothing interactive. -/
def HubAlone (P : Nat → BackendDef → Nat → Prop) {α : Type} (p : Prog HubOp α) : Prop :=
  p.Fulfils (hubContract P) (fun _ _ => True) ()

/-- No method of the backend needs the user. Either it has none that could, or it is in daemon
mode, or its grant is not the interactive one. -/
def BackendDef.Unattended (platform : Platform) (daemon : Bool) (d : BackendDef) : Prop :=
  ∀ b ∈ d.httpBackend platform daemon, b.Unattended (platform.postable b.url)

/-- In daemon mode that is so for every backend. -/
theorem unattended_daemon (platform : Platform) (d : BackendDef) : d.Unattended platform true := by
  intro b hb
  unfold BackendDef.httpBackend at hb
  split at hb
  · obtain rfl := Option.some.inj hb
    exact .inl rfl
  · cases hb

/-- Out of daemon mode it is so for an eager backend exactly when it does not ask the user. -/
theorem unattended_of_not_asksUser {platform : Platform} {d : BackendDef}
    (heager : d.connectionMode = .eager) (h : ¬ d.AsksUser platform) :
    d.Unattended platform false := by
  intro b hb
  rcases hpostable : platform.postable b.url with _ | _
  · exact .inr (.inl rfl)
  · refine .inr (.inr fun m hm hgrant => h ⟨heager, b, hb, hpostable, m, hm, hgrant⟩)

section Walk

variable {platform : Platform} {daemon : Bool} {definitions : List BackendDef} {r : Nat}
  {P : Nat → BackendDef → Nat → Prop} {α β : Type}

theorem hubAlone_bind {p : Prog HubOp α} {f : α → Prog HubOp β} (hp : HubAlone P p)
    (hf : ∀ a, HubAlone P (f a)) : HubAlone P (p.bind f) :=
  Prog.Fulfils.bind (hp.mono fun a _ _ => hf a)

/-- The methods of a backend that needs no user. -/
theorem hubAlone_backend {object : Nat} {method : McpOp α}
    (h : ∀ d ∈ definitions[object]?, d.Unattended platform daemon) :
    HubAlone P (hubOp platform daemon definitions r (.backend object method)) := by
  rw [hubOp]
  split
  · rename_i b hb
    obtain ⟨d, hd, hb⟩ := Option.bind_eq_some_iff.mp hb
    exact Prog.fulfils_lift.mpr (alone_run (h d hd b hb) method)
  · exact ⟨trivial, fun _ _ => trivial⟩

/-- An operation of the registry itself. -/
theorem hubAlone_op {o : RegistryOp β} {k : β → Prog RegistryOp α}
    (ho : hubOp platform daemon definitions r o = .perform (.registry r o)) (henters : o.Enters (P r))
    (hk : ∀ b, o.Finds (P r) b → HubAlone P (hosted platform daemon definitions r (k b))) :
    HubAlone P (hosted platform daemon definitions r (.op o k)) := by
  rw [hosted, Prog.interp, ho]
  exact ⟨henters, hk⟩

/-- A method of a backend. -/
theorem hubAlone_method {object : Nat} {method : McpOp β} {k : β → Prog RegistryOp α}
    (h : ∀ d ∈ definitions[object]?, d.Unattended platform daemon)
    (hk : ∀ b, HubAlone P (hosted platform daemon definitions r (k b))) :
    HubAlone P (hosted platform daemon definitions r (.op (.backend object method) k)) :=
  hubAlone_bind (hubAlone_backend h) hk

/-- Whatever is done with a registry, no user is needed where no backend needs one. -/
theorem hubAlone_hosted (h : ∀ d ∈ definitions, d.Unattended platform daemon)
    (p : Prog RegistryOp α) :
    HubAlone (fun _ _ _ => True) (hosted platform daemon definitions r p) := by
  refine Prog.Fulfils.interp (J := fun _ => True) (fun o u _ => ?_) trivial
  cases o with
  | backend object method => exact hubAlone_backend fun d hd => h d (List.mem_of_getElem? hd)
  | _ => exact ⟨trivial, fun _ _ => trivial⟩

/-- The definitions are registered in their order. -/
def InOrder (definitions : List BackendDef) (_ : Nat) (d : BackendDef) (object : Nat) : Prop :=
  definitions[object]? = some d

/-- Registering them. -/
theorem hubAlone_registerEach {rest : List BackendDef} {object : Nat}
    (h : ∀ k d, rest[k]? = some d → definitions[object + k]? = some d) :
    HubAlone (InOrder definitions)
      (hosted platform daemon definitions r (registerEach rest object)) := by
  induction rest generalizing object with
  | nil => trivial
  | cons d rest ih =>
    simp only [registerEach, Registry.register, Prog.bind_eq, Prog.perform_bind, Prog.op_bind]
    refine hubAlone_op rfl (h 0 d rfl) fun new _ => ?_
    cases new with
    | false => trivial
    | true =>
      refine ih fun k d' hd' => ?_
      rw [Nat.add_assoc, Nat.add_comm 1 k]
      exact h (k + 1) d' hd'

/-- Connecting a backend that needs no user. -/
theorem hubAlone_connectBackend {id : String}
    (h : ∀ d ∈ definitions, d.id = id → d.Unattended platform daemon) :
    HubAlone (InOrder definitions)
      (hosted platform daemon definitions r (Registry.connectBackend id)) := by
  simp only [Registry.connectBackend, Prog.bind_eq, Prog.perform_bind]
  refine hubAlone_op rfl trivial fun found hfound => ?_
  rcases found with _ | handle
  · trivial
  obtain ⟨hid, hobject⟩ := hfound handle rfl
  have hbackend : ∀ d ∈ definitions[handle.object]?, d.Unattended platform daemon := by
    intro d hd
    obtain rfl := Option.some.inj (hobject.symm.trans hd)
    exact h _ (List.mem_of_getElem? hobject) hid
  refine hubAlone_method hbackend fun init => ?_
  rcases init with e | init
  · trivial
  refine hubAlone_op rfl trivial fun _ _ => hubAlone_method hbackend fun listed => ?_
  rcases listed with e | tools
  · trivial
  · exact hubAlone_op rfl trivial fun _ _ => trivial

theorem hubAlone_connectEach {ids : List String}
    (h : ∀ id ∈ ids, ∀ d ∈ definitions, d.id = id → d.Unattended platform daemon) :
    HubAlone (InOrder definitions)
      (hosted platform daemon definitions r (Registry.connectEach ids)) := by
  induction ids with
  | nil => trivial
  | cons id ids ih =>
    obtain ⟨hid, hids⟩ := List.forall_mem_cons.mp h
    simp only [hosted, Registry.connectEach, Prog.bind_eq, Prog.interp_bind]
    exact hubAlone_bind (hubAlone_connectBackend hid) fun result =>
      hubAlone_bind (ih hids) fun _ => trivial

/-- Connecting the eager backends, none of which needs the user. -/
theorem hubAlone_connectAll (hunique : (definitions.map (·.id)).Nodup)
    (h : ∀ d ∈ definitions, d.connectionMode = .eager → d.Unattended platform daemon) :
    HubAlone (InOrder definitions)
      (hosted platform daemon definitions r Registry.connectAll) := by
  simp only [Registry.connectAll, Prog.bind_eq, Prog.perform_bind]
  refine hubAlone_op rfl trivial fun found hfound =>
    hubAlone_connectEach fun id hid d hd heq => h d hd ?_
  obtain ⟨entry, hentry, rfl⟩ := List.mem_map.mp hid
  obtain ⟨hentry, heager⟩ := List.mem_filter.mp hentry
  obtain ⟨hkey, hobject⟩ := hfound entry hentry
  have hsame : d = entry.2.definition :=
    List.inj_on_of_nodup_map hunique hd (List.mem_of_getElem? hobject) (heq.trans hkey.symm)
  rw [hsame]
  exact of_decide_eq_true heager

/-- Listing the tools asks no backend. -/
theorem hubAlone_aggregatedTools :
    HubAlone P (hosted platform daemon definitions r Registry.aggregatedTools) :=
  ⟨trivial, fun _ _ => trivial⟩

end Walk

/-! ## The commands -/

section Commands

variable {platform : Platform} {cfg : HubConfig} {daemon : Bool}

theorem hubAlone_serveBlocks {blocks : List ExposeBlock} {r : Nat} :
    HubAlone (fun _ _ _ => True) (serveBlocks platform cfg true blocks r) := by
  induction blocks generalizing r with
  | nil => trivial
  | cons eb blocks ih =>
    have hhosted {α : Type} (p : Prog RegistryOp α) :
        HubAlone (fun _ _ _ => True) (hosted platform true (exposedDefs cfg eb) r p) :=
      hubAlone_hosted (fun d _ => unattended_daemon platform d) p
    simp only [serveBlocks, Prog.bind_eq]
    refine hubAlone_bind (hhosted _) fun built => ?_
    rcases built with e | _
    · trivial
    · exact hubAlone_bind (hhosted _) fun _ => ih

/-- `serve` is always in daemon mode. -/
theorem hubAlone_runServe {http : Bool} :
    HubAlone (fun _ _ _ => True) (runServe platform cfg http true) := by
  have hhosted {α : Type} (p : Prog RegistryOp α) :
      HubAlone (fun _ _ _ => True) (hosted platform true cfg.backends 0 p) :=
    hubAlone_hosted (fun d _ => unattended_daemon platform d) p
  simp only [runServe, Prog.bind_eq]
  split
  · split
    · exact hubAlone_serveBlocks
    · trivial
  · refine hubAlone_bind (hhosted _) fun built => ?_
    rcases built with e | _
    · trivial
    · exact hubAlone_bind (hhosted _) fun _ => trivial

/-- The commands that connect the eager backends once. -/
theorem hubAlone_once {finish : List (String × BackendResult Unit) → List ToolDescriptor → CommandEnd}
    (h : ∀ d ∈ cfg.backends, d.connectionMode = .eager → d.Unattended platform daemon) :
    HubAlone (InOrder cfg.backends)
      ((hosted platform daemon cfg.backends 0 (buildRegistry cfg)).bind fun
        | .error e => .ret ⟨[], some (.backend e)⟩
        | .ok () => (hosted platform daemon cfg.backends 0 Registry.connectAll).bind fun results =>
          (hosted platform daemon cfg.backends 0 Registry.aggregatedTools).bind fun tools =>
            .ret (finish results tools)) := by
  refine hubAlone_bind (hubAlone_registerEach fun k d hd => ?_) fun built => ?_
  · rwa [Nat.zero_add]
  rcases built with e | _
  · trivial
  · exact hubAlone_bind (hubAlone_connectAll cfg.idsUnique h) fun _ =>
      hubAlone_bind hubAlone_aggregatedTools fun _ => trivial

/-- Where the backends are registered by a command. -/
def Cli.Registers (cli : Cli) (cfg : HubConfig) : Nat → BackendDef → Nat → Prop :=
  if cli.serves then fun _ _ _ => True else InOrder cfg.backends

/-- A command that serves, or a configuration without a backend that asks the user. -/
def Cli.Unattended (platform : Platform) (cli : Cli) (cfg : HubConfig) : Prop :=
  cli.serves = true ∨ ∀ d ∈ cfg.backends, ¬ d.AsksUser platform

theorem hubAlone_run {cli : Cli} (hflag : cli.noDaemon = false)
    (h : cli.Unattended platform cfg) : HubAlone (cli.Registers cfg) (cli.run platform cfg) := by
  obtain ⟨noDaemon, dryRun, command⟩ := cli
  obtain rfl : noDaemon = false := hflag
  have honce (hserves : Cli.serves ⟨false, dryRun, command⟩ = false) :
      ∀ d ∈ cfg.backends, d.connectionMode = .eager → d.Unattended platform false := by
    intro d hd heager
    refine unattended_of_not_asksUser heager (h.resolve_left ?_ d hd)
    rw [hserves]
    nofun
  rcases command with _ | (http | _)
  · cases dryRun with
    | true => exact hubAlone_once (honce rfl)
    | false => exact hubAlone_runServe
  · exact hubAlone_runServe
  · exact hubAlone_once (honce rfl)

end Commands

/-! ## The runs -/

section Runs

variable {ι : Type} [DecidableEq ι] {platform : Platform} {cfg : HubConfig}
  {P : Nat → BackendDef → Nat → Prop}

/-- What holds of a hub in every reachable state. -/
structure HubHolds (P : Nat → BackendDef → Nat → Prop)
    (c : Pool HubOp ι (CommandRun ι) Unit) : Prop where
  contract : (hubContract P).Holds () (fun _ _ => True) c
  entered : ∀ r, Entered (P r) (c.shared.state.registries r).backends

/-- An operation that is in order finds what is registered, and keeps it. -/
theorem exec_admitted {i : ι} {β : Type} {o : HubOp β} {e : HubChoice} {s t : HubWorld ι} {b : β}
    (horder : (hubContract P).inOrder o ())
    (hs : ∀ r, Entered (P r) (s.registries r).backends)
    (h : (hubMachine ι).exec i β o e s = some (b, t)) :
    (hubContract P).admits o b () ∧ ∀ r, Entered (P r) (t.registries r).backends := by
  cases o with
  | registry r o =>
    obtain ⟨⟨b', u⟩, hexec, heq⟩ := Option.map_eq_some_iff.mp h
    obtain ⟨rfl, rfl⟩ := Prod.mk.inj heq
    obtain ⟨hentered, hfinds⟩ := exec_entered horder (hs r) hexec
    refine ⟨hfinds, fun r' => ?_⟩
    by_cases hr : r' = r
    · subst hr
      simpa using hentered
    · simpa [Function.update_of_ne hr] using hs r'
  | http site o =>
    obtain ⟨⟨b', u⟩, hexec, heq⟩ := Option.map_eq_some_iff.mp h
    obtain ⟨rfl, rfl⟩ := Prod.mk.inj heq
    refine ⟨fun hunreachable => ?_, hs⟩
    cases o with
    | post request =>
      obtain ⟨rfl, -⟩ := Prod.mk.inj (Option.some.inj hexec)
      rw [HttpChoice.sentTo, hunreachable]
      rcases e.http.reply with ⟨timeout, text⟩ | ⟨status, headers, body⟩ <;> trivial
    | _ => trivial

theorem HubHolds.step {l : ι × HubChoice} {c c' : Pool HubOp ι (CommandRun ι) Unit}
    (h : HubHolds P c) (hstep : (hubMachine ι).recorded.step l c = some c') : HubHolds P c' := by
  constructor
  · refine h.contract.step (fun δ o k b hop horder hexec hlog => ?_) hstep
    exact (exec_admitted horder h.entered hexec).1
  · obtain ⟨q, hfire, -⟩ := Machine.step_eq_some _ hstep
    obtain ⟨δ, o, k, b, hop, hexec, -⟩ := Machine.fire_eq_some _ hfire
    obtain ⟨hexec, -⟩ := Machine.recorded_exec hexec
    have hfulfils := h.contract.fulfils l.1
    rw [hop] at hfulfils
    exact (exec_admitted hfulfils.1 h.entered hexec).2

/-- What was in order was not interactive. -/
theorem alone_of_kept {l : List (Performed HubOp ι)} (h : (hubContract P).Kept () l) :
    ∀ p ∈ l, ¬ p.op.Interactive := by
  induction l with
  | nil => exact List.forall_mem_nil _
  | cons p l ih =>
    refine List.forall_mem_cons.mpr ⟨?_, ih h.2⟩
    obtain ⟨caller, o, answer⟩ := p
    cases o with
    | registry r o => exact id
    | http site o => exact h.1

/-- A hub whose tasks do nothing interactive. -/
theorem alone_of_play {c c' : Pool HubOp ι (CommandRun ι) Unit} {ls : List (ι × HubChoice)}
    (halone : ∀ i, HubAlone P (c.task i)) (hlog : c.shared.log = [])
    (hempty : ∀ r, (c.shared.state.registries r).backends = [])
    (hplay : (hubMachine ι).recorded.play ls c = some c') :
    ∀ p ∈ c'.shared.log, ¬ p.op.Interactive := by
  have hstart : HubHolds P c := by
    refine ⟨⟨fun i => ?_, ?_⟩, fun r => ?_⟩
    · rw [hlog]
      exact halone i
    · rw [hlog]
      trivial
    · rw [hempty]
      exact List.forall_mem_nil _
  exact alone_of_kept (Machine.play_induct _ (C := fun _ _ _ _ _ => True)
    (fun _ _ _ h _ hstep => h.step hstep) hstart (Machine.meets_true _ ls c) hplay).contract.kept

end Runs

/-! ## To the browser -/

section Browser

variable {ι : Type} [DecidableEq ι] {i : ι} {platform : Platform} {daemon : Bool}
  {definitions : List BackendDef} {r : Nat} {s : HubWorld ι} {G : ∀ {δ : Type}, HubOp δ → Prop}

/-- What the registration of some definitions, from an object on, makes of the backends. -/
structure AllRegistered (definitions : List BackendDef) (object : Nat)
    (before after : Entries BackendHandle) : Prop where
  kept : ∀ id handle, before.get id = some handle → after.get id = some handle
  added : ∀ k d, definitions[k]? = some d →
    after.get d.id = some ⟨d, object + k, false, none, 0⟩
  unique : after.keys.Nodup

/-- All definitions can be registered. -/
theorem can_registerEach {rest : List BackendDef} {object : Nat}
    (hunique : (rest.map (·.id)).Nodup) (hkeys : (s.registries r).backends.keys.Nodup)
    (hfresh : ∀ d ∈ rest, (s.registries r).backends.get d.id = none) :
    (hubMachine ι).can i G (hosted platform daemon definitions r (registerEach rest object))
      (fun x t => x = .ok () ∧ t.https = s.https ∧ t.managers = s.managers ∧
        AllRegistered rest object (s.registries r).backends (t.registries r).backends) s := by
  induction rest generalizing object s with
  | nil => exact ⟨rfl, rfl, rfl, fun _ _ h => h, nofun, hkeys⟩
  | cons d rest ih =>
    obtain ⟨hnot, hunique⟩ := List.nodup_cons.mp hunique
    have hnew := hfresh d List.mem_cons_self
    let backends := (s.registries r).backends
    let handle : BackendHandle := ⟨d, object, false, none, 0⟩
    let u : RegistryWorld ι := { s.registries r with backends := backends.insert d.id handle }
    let t : HubWorld ι := { s with registries := Function.update s.registries r u }
    have ht : (t.registries r).backends = backends.insert d.id handle := by simp [t, u]
    have hexec : (hubMachine ι).exec i _ (.registry r (.insertBackend handle)) {} s =
        some (true, t) := by
      simp [hubMachine, HubWorld.exec, RegistryWorld.exec, Entries.containsKey, handle, hnew, t,
        u, backends]
    have hne : ∀ d' ∈ rest, d'.id ≠ d.id := fun d' hd' heq =>
      hnot (List.mem_map.mpr ⟨d', hd', heq⟩)
    simp only [hosted, registerEach, Registry.register, Prog.bind_eq, Prog.perform_bind,
      Prog.op_bind, Prog.interp, hubOp]
    refine Machine.can_op {} hexec ?_
    refine Machine.can_mono (ih hunique ?_ ?_) ?_
    · rw [ht, Entries.insert_of_not_mem (Entries.get_eq_none_iff.mp hnew), Entries.keys_append]
      exact List.nodup_append.mpr ⟨hkeys, List.nodup_singleton _, by
        rintro key hkey _ hkey' rfl
        have hid : key = d.id := List.mem_singleton.mp hkey'
        exact Entries.get_eq_none_iff.mp hnew (hid ▸ hkey)⟩
    · intro d' hd'
      rw [ht, Entries.get_insert_ne (hne d' hd')]
      exact hfresh d' (List.mem_cons_of_mem _ hd')
    · rintro x u ⟨rfl, hhttps, hmanagers, hall⟩
      rw [ht] at hall
      refine ⟨rfl, hhttps, hmanagers, fun id h hget => hall.kept id h ?_, ?_, hall.unique⟩
      · rwa [Entries.get_insert_ne]
        rintro rfl
        cases hnew.symm.trans hget
      · rintro (_ | k) d' hd'
        · obtain rfl := Option.some.inj hd'
          exact hall.kept _ _ (Entries.get_insert_self ..)
        · rw [Nat.add_comm k 1, ← Nat.add_assoc]
          exact hall.added k d' hd'

/-- Connecting a backend that asks the user. -/
theorem can_connectBackend {object : Nat} {d : BackendDef}
    (hasks : d.AsksUser platform) (hd : definitions[object]? = some d)
    (hget : (s.registries r).backends.get d.id = some ⟨d, object, false, none, 0⟩)
    (hbare : (s.managers d.id).Bare) (hconnected : (s.https r object).connected = false)
    {R : BackendResult Unit → HubWorld ι → Prop} :
    (hubMachine ι).can i HubOp.Interactive
      (hosted platform false definitions r (Registry.connectBackend d.id)) R s := by
  obtain ⟨-, b, hb, hpostable, m, hm, hgrant⟩ := hasks
  have hfields : b.id = d.id ∧ b.daemonMode = false := by
    unfold BackendDef.httpBackend at hb
    split at hb
    · obtain rfl := Option.some.inj hb
      exact ⟨rfl, rfl⟩
    · cases hb
  obtain ⟨hid, hdaemon⟩ := hfields
  have hfound : definitions[object]?.bind (BackendDef.httpBackend platform false) = some b := by
    rw [hd]
    exact hb
  simp only [hosted, Registry.connectBackend, Prog.bind_eq, Prog.perform_bind, Prog.interp]
  refine Machine.can_op (b := some ⟨d, object, false, none, 0⟩) (t := s) {} ?_ ?_
  · simp [hubMachine, HubWorld.exec, RegistryWorld.exec, hget]
  simp only [Prog.interp, hubOp, hfound, Prog.ret_bind]
  let site : HttpSite := ⟨r, object, b.id, platform.postable b.url⟩
  refine Machine.can_bind (Machine.can_lift (M := httpMachine ι) (G := HttpOp.Opens)
    (HubOp.http site) (HubWorld.backendAt site) (HubWorld.setBackend site)
    (fun e => { http := e : HubChoice })
    (fun _ ho => ho.interactive) (fun _ o e u => ?_) (fun u v => ?_) ?_)
  · simp only [hubMachine, HubWorld.exec, httpMachine, site, HttpChoice.sentTo, hpostable, if_true]
  · simp [HubWorld.backendAt, HubWorld.setBackend]
  · rw [← hid] at hbare
    refine can_connect hm hdaemon hgrant ?_ ?_
    · exact hbare
    · exact hconnected

/-- A command that registers and connects the backends. -/
theorem can_once {object : Nat} {d : BackendDef} (hasks : d.AsksUser platform)
    (hd : definitions[object]? = some d) (hunique : (definitions.map (·.id)).Nodup)
    (hempty : (s.registries r).backends = []) (hbare : (s.managers d.id).Bare)
    (hconnected : (s.https r object).connected = false) {α : Type}
    {f : List (String × BackendResult Unit) → Prog HubOp α} {g : BackendError → Prog HubOp α}
    {R : α → HubWorld ι → Prop} :
    (hubMachine ι).can i HubOp.Interactive
      ((hosted platform false definitions r (registerEach definitions 0)).bind fun
        | .error e => g e
        | .ok () => (hosted platform false definitions r Registry.connectAll).bind f) R s := by
  refine Machine.can_bind (Machine.can_mono (can_registerEach hunique ?_ ?_) ?_)
  · rw [hempty]
    exact List.nodup_nil
  · intro d' _
    rw [hempty]
    rfl
  rintro x t ⟨rfl, hhttps, hmanagers, hall⟩
  have hget := hall.added object d hd
  rw [Nat.zero_add] at hget
  -- the backend comes first in the iteration
  obtain ⟨e, rest, harrange⟩ := exists_arrange_first hall.unique (Entries.mem_of_get hget)
  refine Machine.can_bind ?_
  simp only [hosted, Registry.connectAll, Prog.bind_eq, Prog.perform_bind, Prog.interp, hubOp]
  refine Machine.can_op (b := (d.id, ⟨d, object, false, none, 0⟩) :: rest) (t := t)
    { registry := e } ?_ ?_
  · simp [hubMachine, HubWorld.exec, RegistryWorld.exec, harrange]
  have heager : decide (d.connectionMode = .eager) = true := decide_eq_true hasks.1
  simp only [List.filter_cons, heager, if_true, List.map_cons,
    Registry.connectEach, Prog.bind_eq, Prog.interp_bind]
  refine Machine.can_bind (can_connectBackend hasks hd hget ?_ ?_)
  · rw [hmanagers]
    exact hbare
  · rw [hhttps]
    exact hconnected

end Browser

/-! ## The default mode -/

/-- **The commands whose default is daemon mode**: in every run without `--no-daemon` no user is
needed, for every token store, whatever the servers answer and whatever clients ask for, exactly
where the command is `serve`, or no eager backend has the interactive grant. The user is asked
through a browser or a line of stdin, and both are operations of the token manager, so no such
operation is in the history of the run. -/
theorem unattended_iff (platform : Platform) (cfg : HubConfig) (cli : Cli)
    (hflag : cli.noDaemon = false) :
    (∀ (ι : Type) [DecidableEq ι] (store : String → Option PersistedToken)
        (requests : ι → ClientRequest) (ls : List (Option ι × HubChoice))
        (c : Pool HubOp (Option ι) (CommandRun (Option ι)) Unit),
      (hubMachine (Option ι)).recorded.play ls (cli.pool platform cfg store requests) = some c →
        ∀ p ∈ c.shared.log, ¬ p.op.Interactive) ↔
      cli.Unattended platform cfg := by
  constructor
  · intro halone
    refine Classical.byContradiction fun hattended => ?_
    obtain ⟨hserves, hasks⟩ := not_or.mp hattended
    simp only [not_forall, Classical.not_not] at hasks
    obtain ⟨d, hd, hasks⟩ := hasks
    obtain ⟨object, hobject⟩ := List.mem_iff_getElem?.mp hd
    obtain ⟨noDaemon, dryRun, command⟩ := cli
    obtain rfl : noDaemon = false := hflag
    let pool := Cli.pool platform ⟨false, dryRun, command⟩ cfg (fun _ => none)
      (Empty.elim : Empty → ClientRequest)
    have hcan : (hubMachine (Option Empty)).can none HubOp.Interactive (pool.task none)
        (fun _ _ => False) pool.shared.state := by
      have hbare : (pool.shared.state.managers d.id).Bare := ⟨rfl, rfl, fun _ => rfl⟩
      refine Machine.can_bind ?_
      rcases command with _ | (http | _)
      · cases dryRun with
        | true => exact can_once hasks hobject cfg.idsUnique rfl hbare rfl
        | false => exact absurd rfl hserves
      · exact absurd rfl hserves
      · exact can_once hasks hobject cfg.idsUnique rfl hbare rfl
    obtain ⟨ls, c, hplay, p, hp, -, hinteractive⟩ := Machine.exists_play_of_can hcan
    exact halone Empty _ _ ls c hplay p hp hinteractive
  · intro hunattended ι _ store requests ls c hplay
    refine alone_of_play (P := cli.Registers cfg) (fun i => ?_) rfl (fun _ => rfl) hplay
    rcases i with _ | i
    · exact hubAlone_bind (hubAlone_run hflag hunattended) fun _ => trivial
    · by_cases hserves : cli.serves = true
      · simp only [Cli.pool, Cli.Registers, hserves, if_true]
        exact hubAlone_hosted (fun d _ => unattended_daemon platform d) _
      · simp only [Cli.pool, hserves]
        exact trivial

/-! ### A list of the tools -/

/-- A process without a token store. -/
def samplePlatform : Platform where
  origin _ := some "https://api.test"
  postable _ := true
  serde := sampleSerde
  s256 := id
  hasStore := false

/-- One eager backend, with the interactive grant. -/
def attendedConfig : HubConfig where
  backends := [{ readOnly with
    transport := .http "https://api.test/mcp" none (some interactive.config) }]
  expose := []

/-- The choices of the environment up to the request of the handshake, which is refused. -/
def refusedAtOnce (turns : Nat) : List HubChoice :=
  List.replicate 7 ({} : HubChoice) ++
    { http := { reply := .response 401 [] (.ok "") } } :: List.replicate turns ({} : HubChoice)

/-- A hub that serves it gives up. -/
theorem serve_gives_up :
    ∃ c, (hubMachine (Option Empty)).recorded.play (Machine.turns none (refusedAtOnce 5))
        (Cli.pool samplePlatform ⟨false, false, some (.serve true)⟩ attendedConfig (fun _ => none)
          (Empty.elim : Empty → ClientRequest)) = some c ∧
      ∀ p ∈ c.shared.log, ¬ p.op.Interactive := by
  have hrun : ((hubMachine (Option Empty)).recorded.play (Machine.turns none (refusedAtOnce 5))
      (Cli.pool samplePlatform ⟨false, false, some (.serve true)⟩ attendedConfig (fun _ => none)
        (Empty.elim : Empty → ClientRequest))).isSome = true := by
    decide +kernel
  obtain ⟨c, hplay⟩ := Option.isSome_iff_exists.mp hrun
  exact ⟨c, hplay, (unattended_iff samplePlatform attendedConfig
    ⟨false, false, some (.serve true)⟩ rfl).mpr (.inl rfl) Empty _ _ _ c hplay⟩

/-- `headless-mcp tools` opens the browser. -/
theorem tools_open_the_browser :
    ∃ c, (hubMachine (Option Empty)).recorded.play (Machine.turns none (refusedAtOnce 9))
        (Cli.pool samplePlatform ⟨false, false, some .tools⟩ attendedConfig (fun _ => none)
          (Empty.elim : Empty → ClientRequest)) = some c ∧
      (c.shared.state.managers "mail").browser ≠ [] := by
  have hrun : ((hubMachine (Option Empty)).recorded.play (Machine.turns none (refusedAtOnce 9))
      (Cli.pool samplePlatform ⟨false, false, some .tools⟩ attendedConfig (fun _ => none)
        (Empty.elim : Empty → ClientRequest))).map (fun c =>
          (c.shared.state.managers "mail").browser.length) = some 1 := by
    decide +kernel
  obtain ⟨c, hplay, hlength⟩ := Option.map_eq_some_iff.mp hrun
  refine ⟨c, hplay, fun h => ?_⟩
  rw [h] at hlength
  cases hlength

end HeadlessMcp
