import HeadlessMcp.Async.Refinement
import HeadlessMcp.Hub.World
import HeadlessMcp.Registry.Relisting
import HeadlessMcp.Stdio.Exit

/-!
# The hub refines its session

The theorems about the registry and about the session hold for every answer of the backends. This
is why they are about the hub: whatever the HTTP and the stdio backends do inside, with whom they
are interleaved, and whenever they answer, the session could have been given the same answers at
once (`hub_refines`).

The one thing that a hub does not have is the record of the requests that were forwarded, so two
states of a session are compared without it.
-/

namespace HeadlessMcp

open Async

variable {ι κ : Type}

/-! ## Without the record -/

/-- A registry without the record of what was forwarded, and for whom. -/
def RegistryWorld.erased (s : RegistryWorld ι) : RegistryWorld κ := ⟨s.backends, s.index, []⟩

/-- A session without it. -/
def DispatchWorld.erased (s : DispatchWorld ι) : DispatchWorld ι :=
  { s with session := { s.session with registry := s.session.registry.erased } }

/-- The operation calls a method of a backend. -/
def RegistryOp.Calls {β : Type} : RegistryOp β → Prop
  | .backend _ _ => True
  | _ => False

@[simp] theorem RegistryWorld.erased_index (s : RegistryWorld ι) :
    (s.erased : RegistryWorld κ).index = s.index := rfl

@[simp] theorem RegistryWorld.erased_backends (s : RegistryWorld ι) :
    (s.erased : RegistryWorld κ).backends = s.backends := rfl

@[simp] theorem RegistryWorld.erased_modifyBackend (s : RegistryWorld ι) (id : String)
    (f : BackendHandle → BackendHandle) :
    (s.erased : RegistryWorld κ).modifyBackend id f = (s.modifyBackend id f).erased := by
  rw [RegistryWorld.modifyBackend, RegistryWorld.modifyBackend, RegistryWorld.erased_backends]
  cases s.backends.get id <;> rfl

/-- The registry does not look at the record. -/
theorem RegistryWorld.exec_erased {i : ι} {j : κ} {β : Type} {o : RegistryOp β} (ho : ¬ o.Calls)
    (e : RegistryChoice) (s : RegistryWorld ι) :
    RegistryWorld.exec j β o e (s.erased : RegistryWorld κ) =
      (RegistryWorld.exec i β o e s).map fun r => (r.1, r.2.erased) := by
  cases o with
  | backend object method => exact absurd trivial ho
  | entries =>
    simp only [RegistryWorld.exec, erased_backends]
    cases e.arrange s.backends <;> rfl
  | insertBackend handle =>
    by_cases htaken : s.backends.containsKey handle.definition.id
    · have hexec {μ : Type} (m : μ) (u : RegistryWorld μ) (hu : u.backends = s.backends) :
          RegistryWorld.exec m _ (.insertBackend handle) e u = some (false, u) :=
        if_pos (hu ▸ htaken)
      rw [hexec i s rfl, hexec j s.erased rfl, Option.map_some]
    · have hexec {μ : Type} (m : μ) (u : RegistryWorld μ) (hu : u.backends = s.backends) :
          RegistryWorld.exec m _ (.insertBackend handle) e u = some (true, { u with
            backends := u.backends.insert handle.definition.id handle }) :=
        if_neg (hu ▸ htaken)
      rw [hexec i s rfl, hexec j s.erased rfl, Option.map_some]
      rfl
  | countAttempt id =>
    simp only [RegistryWorld.exec, erased_modifyBackend, erased_backends, Option.map_some]
  | setCapabilities id capabilities =>
    simp only [RegistryWorld.exec, erased_modifyBackend, Option.map_some]
  | setHealth id healthy => simp only [RegistryWorld.exec, erased_modifyBackend, Option.map_some]
  | reindex id toolNamespace hidden tools =>
    simp only [RegistryWorld.exec, erased_index]
    rcases reindexTools id toolNamespace hidden tools s.index with ⟨_ | _, index⟩
    · rfl
    · exact congrArg some (Prod.ext rfl
        (RegistryWorld.erased_modifyBackend { s with index := index } id _))
  | _ => rfl

/-- The operation of a session calls a method of a backend. -/
def DispatchOp.Calls {β : Type} : DispatchOp β → Prop
  | .session (.registry o) => o.Calls
  | _ => False

/-- The session does not look at the record. -/
theorem DispatchWorld.exec_erased {i : ι} {β : Type} {o : DispatchOp β} (ho : ¬ o.Calls)
    (e : RegistryChoice) (s : DispatchWorld ι) :
    DispatchWorld.exec i β o e s.erased =
      (DispatchWorld.exec i β o e s).map fun r => (r.1, r.2.erased) := by
  cases o with
  | session o =>
    cases o with
    | registry o =>
      have hexec := RegistryWorld.exec_erased (i := i) (j := i) ho e s.session.registry
      change ((RegistryWorld.exec i β o e s.session.registry.erased).map _).map _ = _
      rw [hexec]
      simp only [DispatchWorld.exec, SessionWorld.exec, Option.map_map]
      rfl
    | _ => rfl
  | _ => rfl

/-! ## The interfaces -/

/-- A session goes with a hub whose session is the same. The record of what was forwarded is the
one thing that the hub does not keep. -/
def Alongside (s : DispatchWorld ι) (s' : LiveWorld ι) : Prop := s.erased = s'.dispatch.erased

/-- A backend can give any answer. -/
theorem RegistryChoice.exists_answer {β : Type} (method : McpOp β) (b : β) :
    ∃ e : RegistryChoice, e.answer method = b := by
  cases method with
  | connect => exact ⟨{ init := b }, rfl⟩
  | listTools => exact ⟨{ tools := b }, rfl⟩
  | callTool => exact ⟨{ value := b }, rfl⟩
  | disconnect => exact ⟨{ done := b }, rfl⟩
  | healthCheck => exact ⟨{ done := b }, rfl⟩
  | request => exact ⟨{ value := b }, rfl⟩
  | takeToolsRefresh => exact ⟨{ refresh := b }, rfl⟩

/-- A call is only put on record. -/
theorem RegistryWorld.erased_record {β : Type} (s : RegistryWorld ι) (i : ι) (object : Nat)
    (value : BackendResult Value) (method : McpOp β) :
    ((s.record i object value method).erased : RegistryWorld κ) = s.erased := by
  rw [RegistryWorld.record]
  cases method.forwards <;> rfl

variable {backends : Nat → Implementation}

/-- What stands for a method of a backend is a program inside the backend. -/
theorem Implementation.uses_run (implementation : Implementation) (object : Nat) {β : Type}
    (method : McpOp β) : (implementation.run object method).Uses LiveOp.Inside := by
  cases implementation with
  | http b => exact Prog.uses_lift (fun _ => trivial) _
  | stdio b => exact Prog.uses_lift (fun _ => trivial) _

theorem hubStands_of_not_calls {β : Type} {o : DispatchOp β} (ho : ¬ o.Calls) :
    hubStands backends o = .perform (.dispatch o) := by
  cases o with
  | session o =>
    cases o with
    | registry o =>
      cases o with
      | backend object method => exact absurd trivial ho
      | _ => rfl
    | _ => rfl
  | _ => rfl

/-- A method of a backend is a program. -/
theorem hub_remote {β : Type} (object : Nat) (method : McpOp β) :
    Remote (dispatchMachine ι) (hubStands backends) LiveOp.Inside Alongside
      (.session (.registry (.backend object method))) := by
  refine ⟨(backends object).uses_run object method, fun i b s s' hs => ?_⟩
  obtain ⟨e, rfl⟩ := RegistryChoice.exists_answer method b
  refine ⟨e, _, rfl, ?_⟩
  have hrecord : ((s.session.registry.record i object e.value method).erased : RegistryWorld ι) =
      s.session.registry.erased := s.session.registry.erased_record i object e.value method
  rw [Alongside, ← hs]
  exact congrArg (fun r => { s with session := { s.session with registry := r } }) hrecord

/-! ## Tasks -/

variable {α : Type} [Inhabited α] {start : LiveWorld ι} {tasks : ι → LiveTask α}

/-- A reader task stays inside its backend. -/
theorem Implementation.uses_reader (implementation : Implementation) (object child : Nat)
    (output : List String) : (implementation.reader object child output).Uses LiveOp.Inside := by
  cases implementation with
  | http b => trivial
  | stdio b => exact Prog.uses_lift (fun _ => trivial) _

/-- At the start the tasks of the hub are those of its session. -/
theorem hub_related (backends : Nat → Implementation) (start : LiveWorld ι)
    (tasks : ι → LiveTask α) :
    Related (dispatchMachine ι) (hubStands backends) LiveOp.Inside Alongside
      (fun i => (tasks i).IsClient) (clientPool start.dispatch tasks)
      (hubPool backends start tasks) := by
  refine ⟨rfl, fun i hi => ?_, fun i hi => ?_⟩
  · change Runs _ _ _ _ (tasks i).abstract ((tasks i).run backends)
    rcases htask : tasks i with p | ⟨object, child, output⟩
    · exact .between p
    · rw [htask] at hi
      exact absurd hi id
  · change Aside _ (tasks i).abstract ((tasks i).run backends)
    rcases htask : tasks i with p | ⟨object, child, output⟩
    · rw [htask] at hi
      exact absurd trivial hi
    · refine ⟨default, rfl, ?_, ?_⟩
      · exact ((backends object).uses_reader object child output).bind fun _ => trivial
      · exact Prog.returns_bind fun _ => rfl

/-! ## Runs -/

variable [DecidableEq ι]

/-- An operation of the session is one of the hub. -/
theorem hub_immediate {β : Type} {o : DispatchOp β} (ho : ¬ o.Calls) :
    Immediate (dispatchMachine ι) (liveMachine ι) (hubStands backends) LiveOp.Inside Alongside o := by
  refine ⟨.dispatch o, hubStands_of_not_calls ho, id, fun i e s s' b t' hs hexec => ?_⟩
  obtain ⟨⟨b', u⟩, hu, heq⟩ := Option.map_eq_some_iff.mp hexec
  obtain ⟨rfl, rfl⟩ := Prod.mk.inj heq
  have herased : DispatchWorld.exec i β o e.dispatch s.erased = some (b', u.erased) := by
    rw [hs, DispatchWorld.exec_erased ho, hu]
    rfl
  rw [DispatchWorld.exec_erased ho] at herased
  obtain ⟨⟨b, t⟩, ht, heq⟩ := Option.map_eq_some_iff.mp herased
  obtain ⟨rfl, ht'⟩ := Prod.mk.inj heq
  exact ⟨e.dispatch, t, ht, ht'⟩

/-- The backends implement what the session expects of them. -/
theorem hub_implements (backends : Nat → Implementation) :
    Implements (dispatchMachine ι) (liveMachine ι) (hubStands backends) LiveOp.Inside
      Alongside where
  stands o := by
    by_cases ho : o.Calls
    · cases o with
      | session o =>
        cases o with
        | registry o =>
          cases o with
          | backend object method => exact .inr (hub_remote object method)
          | _ => cases ho
        | _ => cases ho
      | _ => cases ho
    · exact .inl (hub_immediate ho)
  inner i δ o' e' s s' b t' hinside hs hexec := by
    cases o' with
    | dispatch o => cases hinside
    | http object o =>
      obtain ⟨r, -, heq⟩ := Option.map_eq_some_iff.mp hexec
      obtain ⟨-, rfl⟩ := Prod.mk.inj heq
      exact hs
    | stdio object o =>
      obtain ⟨r, -, heq⟩ := Option.map_eq_some_iff.mp hexec
      obtain ⟨-, rfl⟩ := Prod.mk.inj heq
      exact hs

/-- **The hub refines its session**: every run of a hub, with its HTTP and its stdio backends in
place, ends like a run of the session whose backends answer at once: in the same state but for the
record of what was forwarded, and with the same answers to all of the clients that have one. -/
theorem hub_refines {ls' : List (ι × LiveChoice)} {c' : Pool LiveOp ι (LiveWorld ι) α}
    (hplay : (liveMachine ι).play ls' (hubPool backends start tasks) = some c') (is : List ι)
    (his : ∀ i ∈ is, (tasks i).IsClient) :
    ∃ ls c, (dispatchMachine ι).play ls (clientPool start.dispatch tasks) = some c ∧
      c.shared.erased = c'.shared.dispatch.erased ∧
      ∀ i ∈ is, ∀ a, c'.task i = .ret a → c.task i = .ret a :=
  play_refines (hub_implements backends) (hub_related backends start tasks) hplay is his

/-! ### A handshake -/

/-- A new hub with one stdio backend. -/
def oneChildHub : LiveWorld (Fin 2) where
  dispatch := ⟨⟨{ RegistryWorld.empty _ with
    backends := [("api", ⟨bareBackend "api", 0, false, none, 0⟩)] }, false, 0⟩, [], [], []⟩
  http _ := .fresh (.empty _) none
  stdio _ := .fresh _

/-- The hub connects the backend, and the child answers the handshake. -/
def handshakeTasks : Fin 2 → LiveTask Bool
  | 0 => .client ((hubDo (Registry.connectBackend "api")).bind fun r => .ret r.isOk)
  | 1 => .reader 0 0 [initializeLine "0"]

/-- A task takes its turns, while a write does what it does. -/
def handshakeTurn (i : Fin 2) (n : Nat) (write : Except String Unit) : List (Fin 2 × LiveChoice) :=
  Machine.turns i (List.replicate n { stdio := { write := write } })

/-- The request is written, answered and read; then the child takes no more. -/
def handshakeTurns : List (Fin 2 × LiveChoice) :=
  handshakeTurn 0 15 (.ok ()) ++ handshakeTurn 1 3 (.ok ()) ++ handshakeTurn 0 11 (.ok ()) ++
    handshakeTurn 0 9 (.error "broken pipe")

/-- The session was told that the backend could not be connected, as any backend could have
answered. -/
theorem hub_refines_handshake :
    ∃ c', (liveMachine (Fin 2)).play handshakeTurns
        (hubPool (fun _ => .stdio sampleStdio) oneChildHub handshakeTasks) = some c' ∧
      ∃ ls c, (dispatchMachine (Fin 2)).play ls
          (clientPool oneChildHub.dispatch handshakeTasks) = some c ∧
        c.shared.erased = c'.shared.dispatch.erased ∧ c.task 0 = .ret false := by
  have hrun : ((liveMachine (Fin 2)).play handshakeTurns
      (hubPool (fun _ => .stdio sampleStdio) oneChildHub handshakeTasks)).map
        (fun c => (c.task 0).result) = some (some false) := by decide +kernel
  obtain ⟨c', hplay, hresult⟩ := Option.map_eq_some_iff.mp hrun
  obtain ⟨ls, c, hls, hs, hanswers⟩ := hub_refines hplay [0] (by simp [handshakeTasks,
    LiveTask.IsClient])
  exact ⟨c', hplay, ls, c, hls, hs, hanswers 0 (by simp) false (Prog.result_eq_some.mp hresult)⟩

end HeadlessMcp
