import HeadlessMcp.Async.History
import HeadlessMcp.Registry.Relisting
import Mathlib

/-!
# Backends that come and go

Backends are unregistered while other tasks register, connect, re-list and check them. Removing
a backend takes two steps, its registration and then its tools, and connecting one takes
several: what is indexed at the end was looked up at the beginning.

The invariant (`Settled`): an index entry that is not what the current definition of its backend
produces belongs to a backend whose removal is not finished. It holds in every run in which
nobody indexes the tools of a backend that was removed since he looked it up (`Timely`), and then
the index is right whenever no task is in progress (`index_right_when_idle`).
-/

namespace HeadlessMcp

open Async

/-! ## The tasks -/

/-- A call on the registry, or the removal of a backend. All of them may be in progress at once,
on the same backend or on different ones. -/
inductive HubTask : Type where
  | registry (call : RegistryCall) : HubTask
  | unregister (id : String) : HubTask

/-- What a task returns. -/
inductive HubAnswer : Type where
  | answer : RegistryAnswer → HubAnswer
  | unregistered : BackendResult Unit → HubAnswer

/-- A task of the hub. -/
def HubTask.run : HubTask → Prog RegistryOp HubAnswer
  | .registry call => do .ret (.answer (← call.run))
  | .unregister id => do .ret (.unregistered (← Registry.unregister id))

/-- An operation that neither indexes tools nor removes a backend. -/
def RegistryOp.Plain {β : Type} : RegistryOp β → Prop
  | .reindex _ _ _ _ | .removeBackend _ => False
  | _ => True

/-- **What calls are made of**: plain operations, and connections. -/
theorem RegistryCall.run_induct {P : ∀ {α : Type}, Prog RegistryOp α → Prop}
    (hret : ∀ {α : Type} (a : α), P (.ret a))
    (hop : ∀ {α β : Type} (o : RegistryOp β) (k : β → Prog RegistryOp α), o.Plain →
      (∀ b, P (k b)) → P (.op o k))
    (hbind : ∀ {α β : Type} (p : Prog RegistryOp β) (f : β → Prog RegistryOp α), P p →
      (∀ b, P (f b)) → P (p.bind f))
    (hconnect : ∀ id, P (Registry.connectBackend id)) (call : RegistryCall) : P call.run := by
  -- the loops over the backends, and the parts of a call that are shared
  have each (ids : List String) : P (Registry.connectEach ids) := by
    induction ids with
    | nil => exact hret []
    | cons id ids ih => exact hbind _ _ (hconnect id) fun _ => hbind _ _ ih fun _ => hret _
  have check (id : String) : P (Registry.checkBackend id) := by
    simp only [Registry.checkBackend, Prog.bind_eq, Prog.perform_bind]
    refine hop _ _ trivial fun handle => ?_
    split
    · refine hop _ _ trivial fun found => ?_
      rcases found with _ | handle
      · exact hret _
      refine hop _ _ trivial fun r => ?_
      rcases r with err | _
      · exact hop _ _ trivial fun _ => hret _
      refine hop _ _ trivial fun refresh => ?_
      split
      · exact hbind _ _ (hconnect id) fun _ => hret _
      · exact hret _
    · refine hop _ _ trivial fun attempt => hop _ _ trivial fun _ => ?_
      exact hbind _ _ (hconnect id) fun _ => hret _
  have checks (ids : List String) : P (Registry.checkEach ids) := by
    induction ids with
    | nil => exact hret ()
    | cons id ids ih => exact hbind _ _ (check id) fun _ => ih
  have first (id : String) (mode : ConnectionMode) : P (Registry.connectOnFirstCall id mode) := by
    simp only [Registry.connectOnFirstCall, Prog.bind_eq, Prog.perform_bind]
    split
    · refine hop _ _ trivial fun found => ?_
      split
      · exact hret _
      · exact hconnect id
    · exact hret _
  -- the calls of the hub, one by one
  cases call with
  | register definition object =>
    simp only [RegistryCall.run, Registry.register, Prog.bind_eq, Prog.perform_bind, Prog.op_bind]
    refine hop _ _ trivial fun added => ?_
    cases added <;> exact hret _
  | connectAll =>
    simp only [RegistryCall.run, Registry.connectAll, Prog.bind_eq, Prog.perform_bind, Prog.op_bind]
    exact hop _ _ trivial fun backends => hbind _ _ (each _) fun _ => hret _
  | connect id => exact hbind _ _ (hconnect id) fun _ => hret _
  | reconnect id =>
    simp only [RegistryCall.run, Registry.reconnectBackend, Prog.bind_eq, Prog.perform_bind,
      Prog.op_bind]
    refine hop _ _ trivial fun found => ?_
    rcases found with _ | handle
    · exact hbind _ _ (hconnect id) fun _ => hret _
    · exact hop _ _ trivial fun _ => hbind _ _ (hconnect id) fun _ => hret _
  | refreshTools =>
    simp only [RegistryCall.run, Registry.refreshTools, Prog.bind_eq, Prog.perform_bind,
      Prog.op_bind]
    refine hop _ _ trivial fun backends => hop _ _ trivial fun _ => ?_
    exact hbind _ _ (hbind _ _ (each _) fun _ => hret _) fun _ => hret _
  | runHealthChecks =>
    simp only [RegistryCall.run, Registry.runHealthChecks, Prog.bind_eq, Prog.perform_bind,
      Prog.op_bind]
    exact hop _ _ trivial fun backends => hbind _ _ (checks _) fun _ => hret _
  | route exposedName args extra timeoutSecs =>
    simp only [RegistryCall.run, Registry.routeCallWith, Prog.bind_eq, Prog.perform_bind,
      Prog.op_bind]
    refine hop _ _ trivial fun found => ?_
    -- no such tool, no such backend, or a call
    rcases found with _ | ⟨routed, _ | handle⟩
    · exact hret _
    · exact hret _
    refine hbind _ _ ?_ fun _ => hret _
    dsimp only
    rcases applyArgPolicy handle.definition args with err | args
    · exact hret _
    refine hbind _ _ (first _ _) fun ready => ?_
    rcases ready with err | _
    · exact hret _
    dsimp only
    -- a per-call backend is connected and disconnected around the call
    split
    · refine hop _ _ trivial fun init => ?_
      rcases init with err | init
      · exact hret _
      refine hop _ _ trivial fun result => hop _ _ trivial fun closed => ?_
      rcases closed with err | _ <;> exact hret _
    · exact hop _ _ trivial fun _ => hret _

/-! ## What has been removed -/

/-- A state of the registry and what led to it. -/
abbrev HubRun (ι : Type) := Recorded RegistryOp ι (RegistryWorld ι)

/-- The operation looks the backend up. -/
def RegistryOp.looksUp {β : Type} (id : String) : RegistryOp β → Bool
  | .lookup id' => id' = id
  | _ => false

/-- The operation removes the registration of the backend. -/
def RegistryOp.removes {β : Type} (id : String) : RegistryOp β → β → Bool
  | .removeBackend id', found => id' = id && found.isSome
  | _, _ => false

/-- The operation drops the tools of the backend. -/
def RegistryOp.drops {β : Type} (id : String) : RegistryOp β → Bool
  | .dropTools id' => id' = id
  | _ => false

/-- The backend that the operation indexes the tools of. -/
def RegistryOp.indexed {β : Type} : RegistryOp β → Option String
  | .reindex id _ _ _ => some id
  | _ => none

/-! ## What the operations keep -/

section Operations

variable {ι β : Type} {i : ι} {o : RegistryOp β} {e : RegistryChoice} {b : β} {id : String}
  {s t : RegistryWorld ι}

/-- The entry is what the current definition of its backend makes of a tool that passes its
filters. -/
def Produced (s : RegistryWorld ι) (entry : String × RoutedTool) : Prop :=
  ∃ definition object tool, s.known entry.2.backendId = some (definition, object) ∧
    PassesFilters definition.toolsAllow definition.toolsDeny tool.name ∧
    entry = indexEntry entry.2.backendId definition.toolNamespace (hiddenArgs definition) tool

theorem Produced.named {entry : String × RoutedTool} (h : Produced s entry) :
    entry.2.exposedName = entry.1 ∧ entry.2.descriptor.name = entry.1 := by
  obtain ⟨definition, object, tool, -, -, heq⟩ := h
  rw [heq]
  exact ⟨rfl, rfl⟩

/-- A plain operation adds to what is known, and to the index nothing. -/
theorem exec_plain (ho : o.Plain)
    (h : (registryMachine ι).exec i β o e s = some (b, t)) :
    Extends s t ∧ ∀ entry ∈ t.index, entry ∈ s.index ∧ o.drops entry.2.backendId = false := by
  have harmless (ho : o.Harmless) (hdrops : ∀ id, o.drops id = false) :
      Extends s t ∧ ∀ entry ∈ t.index, entry ∈ s.index ∧ o.drops entry.2.backendId = false := by
    obtain ⟨hst, hindex, -⟩ := exec_harmless ho h
    exact ⟨hst, fun entry hentry => ⟨hindex entry hentry, hdrops _⟩⟩
  -- only dropping the tools of a backend takes entries away
  cases o with
  | reindex id toolNamespace hidden tools => exact ho.elim
  | removeBackend id => exact ho.elim
  | backend object method =>
    obtain ⟨-, rfl⟩ := Prod.mk.inj (Option.some.inj h)
    rw [RegistryWorld.record]
    split <;> exact ⟨fun _ _ h => h, fun _ h => ⟨h, rfl⟩⟩
  | dropTools id =>
    obtain ⟨-, rfl⟩ := Prod.mk.inj (Option.some.inj h)
    refine ⟨fun _ _ h => h, fun entry (hentry : entry ∈ s.index.retain (·.backendId ≠ id)) => ?_⟩
    obtain ⟨hmem, hkeep⟩ := Entries.mem_of_mem_retain hentry
    refine ⟨hmem, decide_eq_false fun hid => ?_⟩
    exact of_decide_eq_true hkeep hid.symm
  | lookup id => exact harmless trivial fun _ => rfl
  | entries => exact harmless trivial fun _ => rfl
  | insertBackend handle => exact harmless trivial fun _ => rfl
  | setCapabilities id capabilities => exact harmless trivial fun _ => rfl
  | setHealth id healthy => exact harmless trivial fun _ => rfl
  | countAttempt id => exact harmless trivial fun _ => rfl
  | clearIndex => exact harmless trivial fun _ => rfl
  | lookupTool exposedName => exact harmless trivial fun _ => rfl
  | resolve exposedName => exact harmless trivial fun _ => rfl
  | resolveAll => exact harmless trivial fun _ => rfl
  | sleep milliseconds => exact harmless trivial fun _ => rfl

/-- Removing a backend leaves the others and the index. -/
theorem exec_remove {found : Option BackendHandle}
    (h : (registryMachine ι).exec i _ (.removeBackend id) e s = some (found, t)) :
    t.index = s.index ∧ ∀ id' d, (RegistryOp.removeBackend id).removes id' found = false →
      s.known id' = some d → t.known id' = some d := by
  obtain ⟨rfl, rfl⟩ := Prod.mk.inj (Option.some.inj h)
  refine ⟨rfl, fun id' d hnot hknown => ?_⟩
  have hne : id' ≠ id := by
    rintro rfl
    obtain ⟨handle, hget, -⟩ := Option.map_eq_some_iff.mp hknown
    simp [RegistryOp.removes, hget] at hnot
  rw [RegistryWorld.known, Entries.get_filter_ne hne]
  exact hknown

/-- Indexing the tools of a backend leaves what is known. -/
theorem exec_reindex {toolNamespace : Option String}
    {hidden : List String} {tools : List ToolDescriptor} {r : BackendResult Unit}
    (h : (registryMachine ι).exec i _ (.reindex id toolNamespace hidden tools) e s = some (r, t)) :
    t.known = s.known ∧ ∀ entry ∈ t.index, entry ∈ s.index ∨
      ∃ tool ∈ tools, entry = indexEntry id toolNamespace hidden tool := by
  have hentries : ∀ entry ∈ (reindexTools id toolNamespace hidden tools s.index).2,
      entry ∈ s.index ∨ ∃ tool ∈ tools, entry = indexEntry id toolNamespace hidden tool := by
    rw [reindexTools, indexTools_eq.1]
    intro entry hentry
    -- an entry that stays, or one of the new tools
    rcases List.mem_append.mp hentry with hold | hnew
    · exact .inl (Entries.mem_of_mem_retain hold).1
    · obtain ⟨tool, htool, rfl⟩ := List.mem_map.mp hnew
      exact .inr ⟨tool, mem_of_mem_untaken htool, rfl⟩
  simp only [registryMachine, RegistryWorld.exec] at h
  rcases hre : reindexTools id toolNamespace hidden tools s.index with ⟨r', index⟩
  rw [hre] at h hentries
  -- the loop has stopped at a taken name, or the backend is marked healthy as well
  cases r' with
  | error err =>
    obtain ⟨-, rfl⟩ := Prod.mk.inj (Option.some.inj h)
    exact ⟨rfl, hentries⟩
  | ok _ =>
    obtain ⟨-, rfl⟩ := Prod.mk.inj (Option.some.inj h)
    rw [RegistryWorld.modifyBackend_index]
    refine ⟨?_, hentries⟩
    refine (known_modifyBackend ?_ ?_).trans rfl
    · exact fun _ => rfl
    · exact fun _ => rfl

/-- What is known of a backend stays, unless it is removed. -/
theorem known_of_exec {d : BackendDef × Nat}
    (h : (registryMachine ι).exec i β o e s = some (b, t)) (ho : o.removes id b = false)
    (hknown : s.known id = some d) : t.known id = some d := by
  by_cases hplain : o.Plain
  · exact (exec_plain hplain h).1 id d hknown
  cases o with
  | removeBackend id' => exact (exec_remove h).2 id d ho hknown
  | reindex id' toolNamespace hidden tools =>
    rw [(exec_reindex h).1]
    exact hknown
  | _ => exact (hplain trivial).elim

end Operations

section Histories

variable {ι : Type} [DecidableEq ι]

/-- The backend has been removed since the task looked it up. What it knows of the backend is out
of date then. -/
def removedSince (i : ι) (id : String) : List (Performed RegistryOp ι) → Bool
  | [] => false
  | p :: l =>
    if p.caller = i ∧ p.op.looksUp id then false
    else p.op.removes id p.answer || removedSince i id l

/-- The task has removed the backend, and has not dropped its tools yet. Until it does, the index
may have entries of the backend. -/
def dropping (i : ι) (id : String) : List (Performed RegistryOp ι) → Bool
  | [] => false
  | p :: l =>
    if p.caller = i then
      if p.op.drops id then false else p.op.removes id p.answer || dropping i id l
    else dropping i id l

/-- Nobody indexes the tools of a backend that was removed since he looked it up, unless they are
about to be dropped again. -/
def Timely : Rule RegistryOp ι RegistryChoice (HubRun ι) :=
  fun i _ o _ s => ∀ id, o.indexed = some id →
    removedSince i id s.log = false ∨ ∃ j, dropping j id s.log = true

instance [Fintype ι] (i : ι) (β : Type) (o : RegistryOp β) (e : RegistryChoice) (s : HubRun ι) :
    Decidable (Timely i β o e s) :=
  match h : o.indexed with
  | none => .isTrue fun _ hid => nomatch h.symm.trans hid
  | some id => decidable_of_iff (removedSince i id s.log = false ∨ ∃ j, dropping j id s.log = true)
      ⟨fun hid _ h' => Option.some.inj (h.symm.trans h') ▸ hid, fun hall => hall id h⟩

/-- Every entry is as it should be, or is about to be dropped. This is the invariant of the runs,
and in an idle state nothing is about to be dropped. -/
def Settled (s : HubRun ι) : Prop :=
  ∀ entry ∈ s.state.index,
    Produced s.state entry ∨ ∃ j, dropping j entry.2.backendId s.log = true

/-- What the others do to what a task has looked up and has to do: nothing, unless they remove
the backend. -/
structure LeavesTask (i : ι) (s t : HubRun ι) : Prop where
  dropping : ∀ id, dropping i id t.log = dropping i id s.log
  known : ∀ id d, (removedSince i id s.log = false → s.state.known id = some d) →
    removedSince i id t.log = false → t.state.known id = some d

/-- The discipline of the hub's tasks. -/
def churn (ι : Type) [DecidableEq ι] : Protocol ι (HubRun ι) where
  inv := Settled
  rely := LeavesTask
  rely_refl _ _ := ⟨fun _ => rfl, fun _ _ h => h⟩
  rely_trans _ _ _ _ hst htu :=
    ⟨fun id => (htu.dropping id).trans (hst.dropping id), fun id d h => htu.known id d (hst.known id d h)⟩

variable {i j : ι} {β : Type} {o : RegistryOp β} {e : RegistryChoice} {b : β} {id : String}
  {s t : HubRun ι}

theorem dropping_other {l : List (Performed RegistryOp ι)} (h : i ≠ j) :
    dropping j id (⟨i, o, b⟩ :: l) = dropping j id l := if_neg h

theorem dropping_own {l : List (Performed RegistryOp ι)} :
    dropping i id (⟨i, o, b⟩ :: l) =
      if o.drops id then false else o.removes id b || dropping i id l := if_pos rfl

/-- Only dropping its tools ends the removal of a backend. -/
theorem dropping_kept {l : List (Performed RegistryOp ι)} (ho : o.drops id = false)
    (h : dropping j id l = true) : dropping j id (⟨i, o, b⟩ :: l) = true := by
  by_cases hij : i = j
  · subst hij
    rw [dropping_own, if_neg (Bool.eq_false_iff.mp ho), h, Bool.or_true]
  · rw [dropping_other hij, h]

theorem removedSince_step {l : List (Performed RegistryOp ι)}
    (hlook : i = j → o.looksUp id = false) :
    removedSince j id (⟨i, o, b⟩ :: l) = (o.removes id b || removedSince j id l) := by
  rw [removedSince, if_neg]
  rintro ⟨hij, hlooks⟩
  rw [hlook hij] at hlooks
  cases hlooks

/-- What a task knows of a backend that it has looked up. -/
def Looked (i : ι) (id : String) (d : BackendDef × Nat) (s : HubRun ι) : Prop :=
  removedSince i id s.log = false → s.state.known id = some d

/-- The task has no tools to drop. -/
def Clear (i : ι) (s : HubRun ι) : Prop := ∀ id, dropping i id s.log = false

/-- A step that is no new look-up leaves what was looked up. -/
theorem Looked.step {d : BackendDef × Nat} (hs : Looked j id d s)
    (hlook : i = j → o.looksUp id = false)
    (h : (registryMachine ι).recorded.exec i β o e s = some (b, t)) : Looked j id d t := by
  obtain ⟨hexec, hlog⟩ := Machine.recorded_exec h
  intro hremoved
  rw [hlog, removedSince_step hlook, Bool.or_eq_false_iff] at hremoved
  exact known_of_exec hexec hremoved.1 (hs hremoved.2)

/-- **The others expect every step.** -/
theorem leavesTask_step (hij : i ≠ j)
    (h : (registryMachine ι).recorded.exec i β o e s = some (b, t)) : LeavesTask j s t := by
  refine ⟨fun id => ?_, fun id d hs => Looked.step hs (fun hij' => (hij hij').elim) h⟩
  rw [(Machine.recorded_exec h).2, dropping_other hij]

/-- A plain step keeps the entries as they should be. -/
theorem Settled.plain (hs : Settled s) (ho : o.Plain)
    (h : (registryMachine ι).recorded.exec i β o e s = some (b, t)) : Settled t := by
  obtain ⟨hexec, hlog⟩ := Machine.recorded_exec h
  obtain ⟨hst, hindex⟩ := exec_plain ho hexec
  intro entry hentry
  obtain ⟨hold, hdrops⟩ := hindex entry hentry
  rcases hs entry hold with ⟨definition, object, tool, hknown, hrest⟩ | ⟨j, hj⟩
  · exact .inl ⟨definition, object, tool, hst _ _ hknown, hrest⟩
  · rw [hlog]
    exact .inr ⟨j, dropping_kept hdrops hj⟩

/-- After the removal of a backend its tools are about to be dropped. -/
theorem Settled.remove {found : Option BackendHandle} (hs : Settled s)
    (h : (registryMachine ι).recorded.exec i _ (.removeBackend id) e s = some (found, t)) :
    Settled t := by
  obtain ⟨hexec, hlog⟩ := Machine.recorded_exec h
  obtain ⟨hindex, hkept⟩ := exec_remove hexec
  intro entry hentry
  rw [hlog]
  by_cases hremoved : (RegistryOp.removeBackend id).removes entry.2.backendId found = true
  · refine .inr ⟨i, ?_⟩
    rw [dropping_own, hremoved]
    rfl
  · rcases hs entry (hindex ▸ hentry) with ⟨definition, object, tool, hknown, hrest⟩ | ⟨j, hj⟩
    · exact .inl ⟨definition, object, tool, hkept _ _ (Bool.eq_false_iff.mpr hremoved) hknown, hrest⟩
    · exact .inr ⟨j, dropping_kept rfl hj⟩

/-- Tools that are indexed in time are as they should be. -/
theorem Settled.reindex {definition : BackendDef} {object : Nat} {tools : List ToolDescriptor}
    {r : BackendResult Unit} (hs : Settled s) (hlooked : Looked i id (definition, object) s)
    (htimely : removedSince i id s.log = false ∨ ∃ j, dropping j id s.log = true)
    (h : (registryMachine ι).recorded.exec i _ (.reindex id definition.toolNamespace
      (hiddenArgs definition) (filterTools definition.toolsAllow definition.toolsDeny tools)) e s =
        some (r, t)) : Settled t := by
  obtain ⟨hexec, hlog⟩ := Machine.recorded_exec h
  obtain ⟨hknown, hindex⟩ := exec_reindex hexec
  intro entry hentry
  rw [hlog]
  -- an older entry is settled as it was
  rcases hindex entry hentry with hold | ⟨tool, htool, rfl⟩
  · rcases hs entry hold with ⟨definition, object, tool, hknown', hrest⟩ | ⟨j, hj⟩
    · exact .inl ⟨definition, object, tool, hknown ▸ hknown', hrest⟩
    · exact .inr ⟨j, dropping_kept rfl hj⟩
  · -- the backend is still the one that was looked up, or its removal has yet to drop its tools
    rcases htimely with hcurrent | ⟨j, hj⟩
    · refine .inl ⟨definition, object, tool, ?_, (mem_filterTools.mp htool).2, rfl⟩
      rw [hknown]
      exact hlooked hcurrent
    · exact .inr ⟨j, dropping_kept rfl hj⟩

/-! ## The walk -/

section Walk

variable {α : Type} {d : BackendDef × Nat}

/-- Safe under the discipline of the hub, as long as the indexing is timely. -/
abbrev ChurnSafe (i : ι) (p : Prog RegistryOp α) (Q : Outcome α → HubRun ι → Prop)
    (s : HubRun ι) : Prop :=
  (churn ι).Safe (registryMachine ι).recorded Timely i p Q s

/-- A task with the program has no tools to drop when it ends. So whoever ends leaves nothing
behind for others to clean up. -/
def Tidy (ι : Type) [DecidableEq ι] {α : Type} (p : Prog RegistryOp α) : Prop :=
  ∀ (i : ι) s, Clear i s → ChurnSafe i p (fun _ t => Clear i t) s

theorem Clear.leaves (hs : Clear i s) (h : LeavesTask i s t) : Clear i t := fun id =>
  (h.dropping id).trans (hs id)

theorem Looked.leaves (hs : Looked i id d s) (h : LeavesTask i s t) : Looked i id d t :=
  h.known id d hs

theorem Clear.plain (hs : Clear i s) (ho : o.Plain)
    (h : (registryMachine ι).recorded.exec i β o e s = some (b, t)) : Clear i t := by
  intro id
  have hremoves : o.removes id b = false := by
    cases o with
    | removeBackend id' => exact ho.elim
    | _ => rfl
  rw [(Machine.recorded_exec h).2, dropping_own, hremoves, hs id]
  exact ite_self _

/-- A plain operation, then the rest. -/
theorem safe_plain {k : β → Prog RegistryOp α} {Q : Outcome α → HubRun ι → Prop}
    (ho : o.Plain) (hs : Clear i s)
    (hk : ∀ b t, Clear i t →
      (∀ id d, o.looksUp id = false → Looked i id d s → Looked i id d t) →
      ChurnSafe i (k b) Q t) : ChurnSafe i (.op o k) Q s := by
  refine Protocol.safe_op fun s' hr hi e b t _ he => ?_
  refine ⟨⟨hi.plain ho he, fun j hj => leavesTask_step hj.symm he⟩, ?_⟩
  exact hk b t ((hs.leaves hr).plain ho he) fun id d hlook h =>
    (h.leaves hr).step (fun _ => hlook) he

/-- A look at a backend: what was found is known. -/
theorem safe_lookUp {k : Option BackendHandle → Prog RegistryOp α}
    {Q : Outcome α → HubRun ι → Prop} (hs : Clear i s)
    (hk : ∀ found t, Clear i t → (∀ handle, found = some handle →
      Looked i id (handle.definition, handle.object) t) → ChurnSafe i (k found) Q t) :
    ChurnSafe i (.op (.lookup id) k) Q s := by
  refine Protocol.safe_op fun s' hr hi e b t _ he => ?_
  refine ⟨⟨hi.plain (o := .lookup id) trivial he, fun j hj => leavesTask_step hj.symm he⟩, ?_⟩
  refine hk b t ((hs.leaves hr).plain (o := .lookup id) trivial he) fun handle hfound _ => ?_
  obtain ⟨rfl, hstate⟩ := Prod.mk.inj (Option.some.inj (Machine.recorded_exec he).1)
  rw [← hstate, RegistryWorld.known, hfound]
  rfl

theorem tidy_ret (a : α) : Tidy ι (.ret a : Prog RegistryOp α) :=
  fun _ _ hs _ hr _ => hs.leaves hr

theorem tidy_bind {p : Prog RegistryOp β} {f : β → Prog RegistryOp α} (hp : Tidy ι p)
    (hf : ∀ b, Tidy ι (f b)) : Tidy ι (p.bind f) := by
  intro i s hs
  refine Protocol.Safe.bind (Protocol.Safe.mono (hp i s hs) fun x t _ ht => ?_)
  cases x with
  | done b => exact hf b i t ht
  | panicked => exact ht

/-- `connect_backend` indexes the tools of what it has looked up. -/
theorem tidy_connectBackend (id : String) : Tidy ι (Registry.connectBackend id) := by
  intro i s hs
  simp only [Registry.connectBackend, Prog.bind_eq, Prog.perform_bind]
  refine safe_lookUp hs fun found s₁ hs hfound => ?_
  rcases found with _ | handle
  · exact tidy_ret _ i s₁ hs
  have hlooked := hfound handle rfl
  refine safe_plain trivial hs fun init s₂ hs hkept => ?_
  have hlooked := hkept id _ rfl hlooked
  rcases init with err | init
  · exact tidy_ret _ i s₂ hs
  refine safe_plain trivial hs fun _ s₃ hs hkept => ?_
  have hlooked := hkept id _ rfl hlooked
  refine safe_plain trivial hs fun tools s₄ hs hkept => ?_
  have hlooked := hkept id _ rfl hlooked
  rcases tools with err | tools
  · exact tidy_ret _ i s₄ hs
  refine Protocol.safe_op fun s' hr hi e r t htimely he => ?_
  have hsettled := hi.reindex (hlooked.leaves hr) (htimely id rfl) he
  refine ⟨⟨hsettled, fun j hj => leavesTask_step hj.symm he⟩, ?_⟩
  refine tidy_ret _ i t fun id' => ?_
  rw [(Machine.recorded_exec he).2, dropping_own]
  exact (hs.leaves hr) id'

/-- `unregister` drops the tools of what it removes. -/
theorem tidy_unregister (id : String) : Tidy ι (Registry.unregister id) := by
  intro i s hs
  simp only [Registry.unregister, Prog.bind_eq, Prog.perform_bind]
  refine Protocol.safe_op fun s' hr hi e found t _ he => ?_
  refine ⟨⟨hi.remove he, fun j hj => leavesTask_step hj.symm he⟩, ?_⟩
  have hs' := hs.leaves hr
  have hlog := (Machine.recorded_exec he).2
  rcases found with _ | handle
  · refine tidy_ret _ i t fun id' => ?_
    rw [hlog, dropping_own]
    simpa [RegistryOp.drops, RegistryOp.removes] using hs' id'
  -- in between only the tools of this backend are to be dropped
  have hother : ∀ id', id' ≠ id → dropping i id' t.log = false := fun id' hne => by
    rw [hlog, dropping_own]
    simpa [RegistryOp.drops, RegistryOp.removes, Ne.symm hne] using hs' id'
  refine Protocol.safe_op fun t' hr hi e _ u _ he => ?_
  refine ⟨⟨hi.plain (o := .dropTools id) trivial he, fun j hj => leavesTask_step hj.symm he⟩, ?_⟩
  have hclear : Clear i u := by
    intro id'
    rw [(Machine.recorded_exec he).2, dropping_own]
    by_cases hid : id' = id
    · simp [RegistryOp.drops, hid]
    · have h := (hr.dropping id').trans (hother id' hid)
      simpa [RegistryOp.drops, RegistryOp.removes, Ne.symm hid] using h
  exact safe_plain trivial hclear fun _ w hw _ => tidy_ret _ i w hw

/-- Every task leaves nothing to drop. -/
theorem tidy_run (task : HubTask) : Tidy ι task.run := by
  cases task with
  | registry call =>
    refine tidy_bind (RegistryCall.run_induct (P := Tidy ι) tidy_ret ?_ ?_ tidy_connectBackend call)
      fun _ => tidy_ret _
    · exact fun o k ho hk i s hs => safe_plain ho hs fun b t ht _ => hk b i t ht
    · exact fun p f hp hf => tidy_bind hp hf
  | unregister id => exact tidy_bind (tidy_unregister id) fun _ => tidy_ret _

end Walk

/-! ## Runs -/

/-- The tasks of a run on a new hub. -/
def churningHub (tasks : ι → HubTask) : Pool RegistryOp ι (HubRun ι) HubAnswer :=
  ⟨⟨RegistryWorld.empty ι, []⟩, fun i => (tasks i).run⟩

/-- No task is in progress: each of them has returned, or has not started. -/
def Idle (c : Pool RegistryOp ι (HubRun ι) HubAnswer) : Prop :=
  ∀ i, (∃ a, c.task i = .ret a) ∨ ∀ p ∈ c.shared.log, p.caller ≠ i

theorem dropping_of_absent {l : List (Performed RegistryOp ι)} (h : ∀ p ∈ l, p.caller ≠ i) :
    dropping i id l = false := by
  induction l with
  | nil => rfl
  | cons p l ih =>
    obtain ⟨hp, hl⟩ := List.forall_mem_cons.mp h
    rw [dropping, if_neg hp]
    exact ih hl

/-- **The index is right whenever no task is in progress**, in every run in which nobody indexes
the tools of a backend that was removed since he looked it up: an entry sits under its exposed
name, which is the name of its descriptor, and is what the current definition of its backend makes
of a tool that passes its filters. -/
theorem index_right_when_idle {tasks : ι → HubTask} {ls : List (ι × RegistryChoice)}
    {c : Pool RegistryOp ι (HubRun ι) HubAnswer}
    (htimely : (registryMachine ι).recorded.Meets Timely ls (churningHub tasks))
    (hrun : (registryMachine ι).recorded.play ls (churningHub tasks) = some c) (hidle : Idle c) :
    ∀ entry ∈ c.shared.state.index, entry.2.exposedName = entry.1 ∧
      entry.2.descriptor.name = entry.1 ∧ Produced c.shared.state entry := by
  have hstart : Protocol.Holds (churn ι) (registryMachine ι).recorded Timely
      (fun i _ t => Clear i t) (churningHub tasks) :=
    ⟨nofun, fun i => tidy_run (tasks i) i _ fun _ => rfl⟩
  have hend := hstart.play htimely hrun
  intro entry hentry
  have hproduced : Produced c.shared.state entry := by
    rcases hend.inv entry hentry with h | ⟨j, hj⟩
    · exact h
    · rcases hidle j with ⟨a, ha⟩ | habsent
      · rw [hend.result ha] at hj
        cases hj
      · rw [dropping_of_absent habsent] at hj
        cases hj
  exact ⟨hproduced.named.1, hproduced.named.2, hproduced⟩

end Histories

/-! ### A removal during a connection -/

/-- `x` is registered and connected, and meanwhile removed. -/
def connectAndUnregister : Fin 3 → HubTask
  | 0 => .registry (.register (bareBackend "x") 0)
  | 1 => .registry (.connect "x")
  | 2 => .unregister "x"

/-- It is removed while it lists its tools. -/
def removedWhileListing : List (Fin 3 × RegistryChoice) :=
  [(0, {}), (1, {}), (1, .greeted), (1, {}), (2, {}), (2, {}), (2, {}), (1, .offering ["t"]), (1, {})]

/-- All of them return, and the index has a tool of a backend that is not registered. -/
theorem removed_while_listing :
    ∃ c, (registryMachine (Fin 3)).recorded.play removedWhileListing
        (churningHub connectAndUnregister) = some c ∧ Idle c ∧
      ∃ entry ∈ c.shared.state.index, c.shared.state.backends.get entry.2.backendId = none := by
  refine ⟨_, rfl, fun i => ?_, _, List.mem_cons_self, rfl⟩
  match i with
  | 0 => exact .inl ⟨_, rfl⟩
  | 1 => exact .inl ⟨_, rfl⟩
  | 2 => exact .inl ⟨_, rfl⟩

/-- `x` is registered and connected, then `y` is registered and removed. -/
def connectThenUnregister : Fin 4 → HubTask
  | 0 => .registry (.register (bareBackend "x") 0)
  | 1 => .registry (.connect "x")
  | 2 => .registry (.register (bareBackend "y") 1)
  | 3 => .unregister "y"

/-- One after the other. -/
def removedInTurn : List (Fin 4 × RegistryChoice) :=
  [(0, {}), (1, {}), (1, .greeted), (1, {}), (1, .offering ["t"]), (1, {}), (2, {}), (3, {}), (3, {}),
    (3, {})]

/-- The tool of `x` is in the index. -/
theorem removed_in_turn :
    ∃ c, (registryMachine (Fin 4)).recorded.play removedInTurn (churningHub connectThenUnregister) =
        some c ∧ Idle c ∧ ∃ entry ∈ c.shared.state.index, Produced c.shared.state entry := by
  have hidle : ∃ c, (registryMachine (Fin 4)).recorded.play removedInTurn
      (churningHub connectThenUnregister) = some c ∧ Idle c ∧ c.shared.state.index ≠ [] := by
    refine ⟨_, rfl, fun i => ?_, nofun⟩
    match i with
    | 0 => exact .inl ⟨_, rfl⟩
    | 1 => exact .inl ⟨_, rfl⟩
    | 2 => exact .inl ⟨_, rfl⟩
    | 3 => exact .inl ⟨_, rfl⟩
  have htimely : (registryMachine (Fin 4)).recorded.Meets Timely removedInTurn
      (churningHub connectThenUnregister) := by
    decide +kernel
  obtain ⟨c, hrun, hidle, hindex⟩ := hidle
  obtain ⟨entry, hentry⟩ := List.exists_mem_of_ne_nil _ hindex
  exact ⟨c, hrun, hidle, entry, hentry, (index_right_when_idle htimely hrun hidle entry hentry).2.2⟩

end HeadlessMcp
