import HeadlessMcp.Async.History
import HeadlessMcp.Async.Solo
import HeadlessMcp.Registry.Routing

/-!
# Listing a backend anew

When a backend cannot be listed anew, its old tools should stay in the index as they were,
and so should those of every other backend. A failed connection and a failed `tools/list`
leave the index alone. But `connect_backend` takes the old tools out before it looks for
names that are taken, and stops at the first such name; and `refresh_tools` clears the
index before it has listed anything.

The notes of a call are what the backends answered, oldest last. With the index before the
call they say what every listing meets (`listings`), hence whether it fits or where it first
collides. `failed_relisting_keeps_iff` says for which answers, definitions and index before the
call every backend that could not be listed anew has the tools it had.
-/

namespace HeadlessMcp

open Async

variable {ι : Type}

/-- The tools of a backend in an index. Every entry of an index belongs to one backend, the one
that it routes to. -/
def toolsOf (id : String) (index : Entries RoutedTool) : Entries RoutedTool :=
  index.filter (·.2.backendId = id)

/-- A backend has the same tools in two indexes. The index is a map, so the order of its entries
does not count. -/
def SameTools (id : String) (index index' : Entries RoutedTool) : Prop :=
  ∀ entry, entry ∈ toolsOf id index' ↔ entry ∈ toolsOf id index

/-! ## Putting a listing into the index -/

/-- A listing, and the index that it is put into. The namespace and the hidden arguments are those
of the backend's definition. -/
structure Listing : Type where
  id : String
  toolNamespace : Option String
  hidden : List String
  tools : List ToolDescriptor
  index : Entries RoutedTool

/-- The tools before the first one whose name is taken, by another backend or by the
listing itself. -/
def untaken (toolNamespace : Option String) : List String → List ToolDescriptor →
    List ToolDescriptor
  | _, [] => []
  | taken, tool :: tools =>
    if computeExposedName toolNamespace tool.name ∈ taken then []
    else tool :: untaken toolNamespace (taken ++ [computeExposedName toolNamespace tool.name]) tools

theorem mem_of_mem_untaken {toolNamespace : Option String} {taken : List String}
    {tools : List ToolDescriptor} {tool : ToolDescriptor}
    (h : tool ∈ untaken toolNamespace taken tools) : tool ∈ tools := by
  induction tools generalizing taken with
  | nil => exact h
  | cons tool' tools ih =>
    rw [untaken] at h
    split at h
    · cases h
    · rcases List.mem_cons.mp h with rfl | h
      · exact List.mem_cons_self
      · exact List.mem_cons_of_mem _ (ih h)

/-- No name is taken exactly when they are pairwise distinct and none of them was taken before. -/
theorem untaken_eq_self_iff {toolNamespace : Option String} {taken : List String}
    {tools : List ToolDescriptor} :
    untaken toolNamespace taken tools = tools ↔
      (tools.map fun tool => computeExposedName toolNamespace tool.name).Nodup ∧
        ∀ tool ∈ tools, computeExposedName toolNamespace tool.name ∉ taken := by
  induction tools generalizing taken with
  | nil => simp [untaken]
  | cons tool tools ih =>
    rw [untaken, List.map_cons, List.nodup_cons, List.forall_mem_cons]
    by_cases h : computeExposedName toolNamespace tool.name ∈ taken
    · rw [if_pos h]
      exact iff_of_false (fun h => by cases h) fun hfree => hfree.2.1 h
    · rw [if_neg h, List.cons.injEq, and_iff_right rfl, ih]
      simp only [List.mem_append, List.mem_singleton, List.mem_map]
      grind

/-- The index entry of a tool. -/
def indexEntry (id : String) (toolNamespace : Option String) (hidden : List String)
    (tool : ToolDescriptor) : String × RoutedTool :=
  let exposedName := computeExposedName toolNamespace tool.name
  (exposedName, ⟨id, exposedName, tool.name,
    ⟨exposedName, tool.description, stripSchemaArgs tool.inputSchema hidden⟩⟩)

namespace Listing

variable (l : Listing)

/-- The tools of the other backends. -/
def others : Entries RoutedTool := l.index.retain (·.backendId ≠ l.id)

/-- The tools before the first collision. These are the ones that `connect_backend` inserts before
it returns its error. -/
def beforeCollision : List ToolDescriptor := untaken l.toolNamespace l.others.keys l.tools

/-- No name collides. -/
def Fits : Prop := l.beforeCollision = l.tools

/-- The index entry of a tool that is listed. -/
def entryOf (tool : ToolDescriptor) : String × RoutedTool :=
  indexEntry l.id l.toolNamespace l.hidden tool

/-- The index entries of the tools before the first collision. -/
def entries : Entries RoutedTool := l.beforeCollision.map (indexEntry l.id l.toolNamespace l.hidden)

/-- Before its first collision the listing names the tools that the backend had, each with the
descriptor it had, and no other. -/
structure Repeats (had : Entries RoutedTool) : Prop where
  all : ∀ entry ∈ had, ∃ tool ∈ l.beforeCollision, l.entryOf tool = entry
  only : ∀ tool ∈ l.beforeCollision, l.entryOf tool ∈ had

/-- The entries before the first collision are those the backend had. -/
theorem mem_entries_iff {had : Entries RoutedTool} :
    (∀ entry, entry ∈ l.entries ↔ entry ∈ had) ↔ l.Repeats had := by
  constructor
  · intro h
    refine ⟨fun entry hentry => ?_, fun tool htool => ?_⟩
    · exact List.mem_map.mp ((h entry).mpr hentry)
    · exact (h _).mp (List.mem_map_of_mem htool)
  · intro h entry
    constructor
    · intro hentry
      obtain ⟨tool, htool, rfl⟩ := List.mem_map.mp hentry
      exact h.only tool htool
    · exact fun hentry => List.mem_map.mpr (h.all entry hentry)

end Listing

theorem Entries.keys_append {α : Type} (m m' : Entries α) :
    Entries.keys (m ++ m') = m.keys ++ m'.keys := List.map_append

/-- Indexing adds the tools before the first collision, and succeeds when there is none. -/
theorem indexTools_eq {id : String} {toolNamespace : Option String} {hidden : List String}
    {tools : List ToolDescriptor} {index : Entries RoutedTool} :
    (indexTools id toolNamespace hidden tools index).2 =
        index ++ (untaken toolNamespace index.keys tools).map (indexEntry id toolNamespace hidden) ∧
      ((indexTools id toolNamespace hidden tools index).1 = .ok () ↔
        untaken toolNamespace index.keys tools = tools) := by
  induction tools generalizing index with
  | nil => simp [indexTools, untaken]
  | cons tool tools ih =>
    rw [indexTools, untaken]
    -- the name is free, so the tool is added; or it is taken, and the rest of the list is left out
    rcases hget : index.get (computeExposedName toolNamespace tool.name) with _ | existing
    · have hfresh : computeExposedName toolNamespace tool.name ∉ index.keys := by
        rw [← Entries.containsKey_iff_mem_keys, Entries.containsKey, hget]
        simp
      simp only [if_neg hfresh]
      obtain ⟨hindex, hok⟩ := @ih (index.insert (computeExposedName toolNamespace tool.name)
        (indexEntry id toolNamespace hidden tool).2)
      rw [Entries.insert_of_not_mem hfresh, Entries.keys_append] at hindex hok
      refine ⟨?_, ?_⟩
      · rw [Entries.insert_of_not_mem hfresh]
        refine hindex.trans ?_
        rw [List.map_cons, List.append_assoc]
        rfl
      · rw [Entries.insert_of_not_mem hfresh, List.cons.injEq, and_iff_right rfl]
        exact hok
    · have htaken : computeExposedName toolNamespace tool.name ∈ index.keys := by
        rw [← Entries.containsKey_iff_mem_keys, Entries.containsKey, hget]
        rfl
      simp [if_pos htaken]

/-- The tools of the listed backend are those before the first collision, and the other
backends keep theirs. -/
theorem toolsOf_reindexTools (l : Listing) (id : String) :
    toolsOf id (reindexTools l.id l.toolNamespace l.hidden l.tools l.index).2 =
      if id = l.id then l.entries else toolsOf id l.index := by
  rw [reindexTools, indexTools_eq.1, toolsOf, List.filter_append]
  have hentries : (l.beforeCollision.map (indexEntry l.id l.toolNamespace l.hidden)).filter
      -- the entries of the listing carry its id
      (·.2.backendId = id) = if id = l.id then l.entries else [] := by
    rw [List.filter_map]
    split
    · rename_i hid
      subst hid
      rw [List.filter_eq_self.mpr fun tool _ => by simp [indexEntry], Listing.entries]
    · rename_i hid
      rw [List.filter_eq_nil_iff.mpr fun tool _ => by simp [indexEntry, Ne.symm hid]]
      rfl
  refine (congrArg _ hentries).trans ?_
  rw [Entries.retain, List.filter_filter]
  -- the entries that stay are those of the other backends
  split
  · rename_i hid
    subst hid
    rw [List.filter_eq_nil_iff.mpr fun e _ => by simp, List.nil_append]
  · rename_i hid
    rw [List.append_nil, toolsOf]
    refine List.filter_congr fun e _ => ?_
    by_cases he : e.2.backendId = id <;> simp [he, hid]

/-! ## What a call did -/

/-- What is noted of a call: the answers of the backends, with what their definitions say of
them, and what was dropped without asking. -/
inductive IndexNote : Type where
  /-- a backend could not be connected or did not list its tools -/
  | unreachable : IndexNote
  /-- a backend listed its tools -/
  | listed (id : String) (toolNamespace : Option String) (hidden : List String)
      (tools : List ToolDescriptor) : IndexNote
  /-- the tools of one backend were dropped, or of all -/
  | dropped (only : Option String) : IndexNote

/-- An answer is an error. A failed connection and a failed `tools/list` leave the same note,
since neither touches the index. -/
def failedNote {α : Type} : BackendResult α → List IndexNote
  | .error _ => [.unreachable]
  | .ok _ => []

/-- The notes of an operation; they do not look at the state of the registry. -/
def noteOf : (β : Type) → RegistryOp β → β → RegistryWorld ι → List IndexNote
  | _, .backend _ .connect, init, _ => failedNote init
  | _, .backend _ .listTools, tools, _ => failedNote tools
  | _, .reindex id toolNamespace hidden tools, _, _ => [.listed id toolNamespace hidden tools]
  | _, .dropTools id, _, _ => [.dropped (some id)]
  | _, .clearIndex, _, _ => [.dropped none]
  | _, _, _, _ => []

/-- The registry under observation. -/
abbrev observedRegistry (ι : Type) :
    Machine RegistryOp ι RegistryChoice (RegistryWorld ι × List IndexNote) :=
  (registryMachine ι).noted noteOf

/-- What the answers make of an index: a listing replaces the tools of its backend by those
before its first collision. -/
def indexAfter (index : Entries RoutedTool) : List IndexNote → Entries RoutedTool
  | [] => index
  | .unreachable :: notes => indexAfter index notes
  | .listed id toolNamespace hidden tools :: notes =>
    let l : Listing := ⟨id, toolNamespace, hidden, tools, indexAfter index notes⟩
    l.others ++ l.entries
  | .dropped (some id) :: notes => (indexAfter index notes).retain (·.backendId ≠ id)
  | .dropped none :: _ => []

/-- The listings among the answers, newest first, each with the index that it meets. -/
def listings (index : Entries RoutedTool) : List IndexNote → List Listing
  | [] => []
  | .listed id toolNamespace hidden tools :: notes =>
    ⟨id, toolNamespace, hidden, tools, indexAfter index notes⟩ :: listings index notes
  | _ :: notes => listings index notes

/-- The last listing of a backend. The notes are newest first, so it is the first one found. -/
def lastListing (id : String) (index : Entries RoutedTool) (notes : List IndexNote) :
    Option Listing := (listings index notes).find? (·.id = id)

/-- Listing a backend failed: it could not be reached, or a name of its listing collided. -/
def ListingFailed (index : Entries RoutedTool) (notes : List IndexNote) : Prop :=
  .unreachable ∈ notes ∨ ∃ l ∈ listings index notes, ¬ l.Fits

/-- A backend was listed anew. Then there is nothing of before to be kept. -/
def ListedAnew (id : String) (index : Entries RoutedTool) (notes : List IndexNote) : Prop :=
  ∃ l ∈ listings index notes, l.id = id ∧ l.Fits

theorem indexAfter_append (index : Entries RoutedTool) (recent notes : List IndexNote) :
    indexAfter index (recent ++ notes) = indexAfter (indexAfter index notes) recent := by
  induction recent with
  | nil => rfl
  | cons note recent ih =>
    cases note with
    | unreachable => exact ih
    | listed id toolNamespace hidden tools =>
      rw [List.cons_append, indexAfter, indexAfter, ih]
    | dropped only =>
      cases only with
      | none => rfl
      | some id => rw [List.cons_append, indexAfter, indexAfter, ih]

/-- What an operation makes of the index is what is noted of it. -/
theorem exec_indexAfter {i : ι} {β : Type} {o : RegistryOp β} {e : RegistryChoice}
    {s t : RegistryWorld ι} {b : β} (h : (registryMachine ι).exec i β o e s = some (b, t)) :
    t.index = indexAfter s.index (noteOf β o b s) := by
  cases o with
  | lookup id | removeBackend id | lookupTool exposedName | resolve exposedName | resolveAll
  | sleep milliseconds | dropTools id | clearIndex =>
    obtain ⟨-, rfl⟩ := Prod.mk.inj (Option.some.inj h)
    rfl
  | entries =>
    obtain ⟨_, -, heq⟩ := Option.map_eq_some_iff.mp h
    obtain ⟨-, rfl⟩ := Prod.mk.inj heq
    rfl
  | insertBackend handle =>
    simp only [registryMachine, RegistryWorld.exec] at h
    split at h <;> obtain ⟨-, rfl⟩ := Prod.mk.inj (Option.some.inj h) <;> rfl
  | setCapabilities id capabilities | setHealth id healthy | countAttempt id =>
    obtain ⟨-, rfl⟩ := Prod.mk.inj (Option.some.inj h)
    exact RegistryWorld.modifyBackend_index ..
  | reindex id toolNamespace hidden tools =>
    have hindex : t.index = (reindexTools id toolNamespace hidden tools s.index).2 := by
      simp only [registryMachine, RegistryWorld.exec] at h
      split at h <;> rename_i hre <;>
        obtain ⟨-, rfl⟩ := Prod.mk.inj (Option.some.inj h) <;> rw [hre]
      exact RegistryWorld.modifyBackend_index ..
    exact hindex.trans indexTools_eq.1
  | backend object method =>
    obtain ⟨-, rfl⟩ := Prod.mk.inj (Option.some.inj h)
    have hindex : (s.record i object e.value method).index = s.index := by
      unfold RegistryWorld.record
      split <;> rfl
    rw [hindex]
    clear h
    -- a connection and a listing are noted when they fail, which leaves the index alone
    cases method with
    | connect => cases b <;> rfl
    | listTools => cases b <;> rfl
    | callTool name arguments timeoutSecs => rfl
    | disconnect => rfl
    | healthCheck => rfl
    | request method params timeoutSecs => rfl
    | takeToolsRefresh => rfl

/-- What a call has made of the index is what is noted of it. -/
theorem solo_indexAfter {α : Type} {i : ι} {p : Prog RegistryOp α} {es : List RegistryChoice}
    {s t : RegistryWorld ι} {x : Outcome α} {notes : List IndexNote}
    (hrun : (observedRegistry ι).solo i p es (s, []) = some (x, t, notes)) :
    t.index = indexAfter s.index notes := by
  refine (observedRegistry ι).wp_solo (Q := fun _ u => u.1.index = indexAfter s.index u.2) ?_ hrun
  refine (observedRegistry ι).wp_of_invariant (fun δ o e u b v hu hexec => ?_) p rfl
  obtain ⟨hexec, hnotes⟩ := Machine.noted_exec hexec
  rw [hnotes, indexAfter_append, ← hu]
  exact exec_indexAfter hexec

/-! ## The calls -/

/-- An operation that drops nothing from the index but what it lists anew. -/
def RegistryOp.Spares {β : Type} : RegistryOp β → Prop
  | .dropTools _ | .clearIndex => False
  | _ => True

namespace Registry

theorem spares_connectBackend (id : String) : (connectBackend id).Uses RegistryOp.Spares := by
  refine ⟨trivial, fun handle => ?_⟩
  rcases handle with _ | handle
  · trivial
  refine ⟨trivial, fun init => ?_⟩
  rcases init with e | init
  · trivial
  refine ⟨trivial, fun _ => ⟨trivial, fun tools => ?_⟩⟩
  rcases tools with e | tools
  · trivial
  · exact ⟨trivial, fun _ => trivial⟩

theorem spares_connectEach (ids : List String) : (connectEach ids).Uses RegistryOp.Spares := by
  induction ids with
  | nil => trivial
  | cons id ids ih => exact (spares_connectBackend id).bind fun _ => ih.bind fun _ => trivial

theorem spares_checkBackend (id : String) : (checkBackend id).Uses RegistryOp.Spares := by
  simp only [checkBackend, Prog.bind_eq, Prog.perform_bind]
  refine ⟨trivial, fun handle => ?_⟩
  dsimp only
  -- a connected backend is asked, a disconnected one connected again
  split
  · refine ⟨trivial, fun handle => ?_⟩
    rcases handle with _ | handle
    · trivial
    refine ⟨trivial, fun answer => ?_⟩
    -- the check fails, or succeeds and may ask for a new listing
    rcases answer with e | _
    · exact ⟨trivial, fun _ => trivial⟩
    · refine ⟨trivial, fun refresh => ?_⟩
      dsimp only
      split
      · exact (spares_connectBackend id).bind fun _ => trivial
      · trivial
  · exact ⟨trivial, fun _ => ⟨trivial, fun _ => (spares_connectBackend id).bind fun _ => trivial⟩⟩

theorem spares_checkEach (ids : List String) : (checkEach ids).Uses RegistryOp.Spares := by
  induction ids with
  | nil => trivial
  | cons id ids ih => exact (spares_checkBackend id).bind fun _ => ih

theorem spares_routeCallWith (exposedName : String) (args : Option Value) (extra : Map)
    (timeoutSecs : Nat) :
    (routeCallWith exposedName args extra timeoutSecs).Uses RegistryOp.Spares := by
  simp only [routeCallWith, Prog.bind_eq, Prog.perform_bind]
  refine ⟨trivial, fun resolved => ?_⟩
  -- no such tool, no such backend, or a call
  rcases resolved with _ | ⟨routed, _ | handle⟩
  · trivial
  · trivial
  dsimp only
  rcases applyArgPolicy handle.definition args with e | args
  · trivial
  dsimp only
  refine Prog.Uses.bind ?_ fun connected => ?_
  · simp only [connectOnFirstCall, Prog.bind_eq, Prog.perform_bind]
    -- a lazy backend may be connected first
    split
    · refine ⟨trivial, fun handle => ?_⟩
      dsimp only
      split
      · trivial
      · exact spares_connectBackend _
    · trivial
  · rcases connected with e | _
    · trivial
    dsimp only
    -- a per-call backend is connected and disconnected around the call
    split
    · refine ⟨trivial, fun init => ?_⟩
      rcases init with e | init
      · trivial
      refine ⟨trivial, fun result => ⟨trivial, fun closed => ?_⟩⟩
      rcases closed with e | _ <;> trivial
    · exact ⟨trivial, fun _ => trivial⟩

end Registry

/-- Only `refresh_tools` clears the index. -/
theorem spares_run {call : RegistryCall} (h : call ≠ .refreshTools) :
    call.run.Uses RegistryOp.Spares := by
  -- the calls of the hub, one by one
  cases call with
  | register definition object =>
    refine Prog.Uses.bind ⟨trivial, fun added => ?_⟩ fun _ => trivial
    cases added <;> trivial
  | connectAll =>
    refine Prog.Uses.bind ⟨trivial, fun backends => ?_⟩ fun _ => trivial
    exact Registry.spares_connectEach _
  | connect id => exact (Registry.spares_connectBackend id).bind fun _ => trivial
  | reconnect id =>
    refine Prog.Uses.bind ⟨trivial, fun handle => ?_⟩ fun _ => trivial
    rcases handle with _ | handle
    · exact Registry.spares_connectBackend id
    · exact ⟨trivial, fun _ => Registry.spares_connectBackend id⟩
  | refreshTools => exact absurd rfl h
  | runHealthChecks =>
    refine Prog.Uses.bind ⟨trivial, fun backends => ?_⟩ fun _ => trivial
    exact Registry.spares_checkEach _
  | route exposedName args extra timeoutSecs =>
    exact (Registry.spares_routeCallWith exposedName args extra timeoutSecs).bind fun _ => trivial

/-- Nothing was dropped. After its first notes no call drops tools without a listing that replaces
them. -/
def Undropped (notes : List IndexNote) : Prop := ∀ only, .dropped only ∉ notes

theorem undropped_noteOf {β : Type} {o : RegistryOp β} (ho : o.Spares) (b : β)
    (s : RegistryWorld ι) : Undropped (noteOf β o b s) := by
  intro only hmem
  cases o with
  | backend object method => cases method <;> cases b <;> simp [noteOf, failedNote] at hmem
  | dropTools id => exact ho
  | clearIndex => exact ho
  | _ => simp [noteOf] at hmem

/-- What the answers make of the tools of a backend, when nothing was dropped without asking:
they are those of its last listing, before the first collision. -/
theorem toolsOf_indexAfter (id : String) (index : Entries RoutedTool) {notes : List IndexNote}
    (h : Undropped notes) : toolsOf id (indexAfter index notes) =
      ((lastListing id index notes).map Listing.entries).getD (toolsOf id index) := by
  induction notes with
  | nil => rfl
  | cons note notes ih =>
    have ih := ih fun only hmem => h only (List.mem_cons_of_mem _ hmem)
    cases note with
    | unreachable => exact ih
    | dropped only => exact absurd List.mem_cons_self (h only)
    | listed id' toolNamespace hidden tools =>
      let l : Listing := ⟨id', toolNamespace, hidden, tools, indexAfter index notes⟩
      have hl : toolsOf id (l.others ++ l.entries) =
          if id = id' then l.entries else toolsOf id l.index := by
        rw [← toolsOf_reindexTools l id]
        exact congrArg (toolsOf id) indexTools_eq.1.symm
      refine hl.trans ?_
      rw [lastListing, listings, List.find?_cons]
      by_cases hid : id = id'
      · -- the newest listing is one of the backend
        subst hid
        simp [l]
      · -- it is one of another backend, and the older ones decide
        rw [if_neg hid]
        simpa [Ne.symm hid, lastListing] using ih

/-- The listings of newer answers come before those of older ones. -/
theorem listings_append (index : Entries RoutedTool) (recent notes : List IndexNote) :
    listings index (recent ++ notes) =
      listings (indexAfter index notes) recent ++ listings index notes := by
  induction recent with
  | nil => rfl
  | cons note recent ih =>
    cases note with
    | unreachable => exact ih
    | dropped only => exact ih
    | listed id toolNamespace hidden tools =>
      rw [List.cons_append, listings, listings, ih, indexAfter_append, List.cons_append]

/-- The notes of a sparing program have no dropped tools. -/
theorem wp_spares {α : Type} {i : ι} {p : Prog RegistryOp α} (hp : p.Uses RegistryOp.Spares)
    {base : List IndexNote} {s : RegistryWorld ι × List IndexNote}
    (hs : ∃ recent, s.2 = recent ++ base ∧ Undropped recent) :
    (observedRegistry ι).wp i p
      (fun _ t => ∃ recent, t.2 = recent ++ base ∧ Undropped recent) s := by
  refine (observedRegistry ι).wp_of_uses (fun δ o e u b t ho hu hexec => ?_) hp hs
  obtain ⟨-, hnotes⟩ := Machine.noted_exec hexec
  obtain ⟨recent, hrecent, hundropped⟩ := hu
  refine ⟨noteOf δ o b u.1 ++ recent, by rw [hnotes, hrecent, List.append_assoc], fun only h => ?_⟩
  rcases List.mem_append.mp h with h | h
  · exact undropped_noteOf ho b u.1 only h
  · exact hundropped only h

/-- What a call does to the index before it lists anything: a refresh clears it. -/
def RegistryCall.firstNotes : RegistryCall → List IndexNote
  | .refreshTools => [.dropped none]
  | _ => []

theorem RegistryCall.firstNotes_of_ne {call : RegistryCall} (h : call ≠ .refreshTools) :
    call.firstNotes = [] := by
  cases call <;> first | exact absurd rfl h | rfl

/-- The notes of a call. -/
theorem notes_of_run {call : RegistryCall} {i : ι} {es : List RegistryChoice}
    {s t : RegistryWorld ι} {x : Outcome RegistryAnswer} {notes : List IndexNote}
    (hrun : (observedRegistry ι).solo i call.run es (s, []) = some (x, t, notes)) :
    ∃ recent, notes = recent ++ call.firstNotes ∧ Undropped recent := by
  have hundropped : Undropped [] := fun _ h => by cases h
  -- only `refresh_tools` begins with a note of its own: it has dropped everything
  by_cases hcall : call = .refreshTools
  · subst hcall
    simp only [RegistryCall.run, Registry.refreshTools, Prog.bind_eq, Prog.perform_bind,
      Prog.op_bind, Prog.bind_assoc, Prog.ret_bind] at hrun
    obtain ⟨e, es₁, backends, s₁, -, hentries, hrun⟩ := Machine.solo_op _ hrun
    obtain ⟨e', es₂, _, s₂, -, hclear, hrun⟩ := Machine.solo_op _ hrun
    have hnone : s₁.2 = [] := (Machine.noted_exec hentries).2
    have hcleared : s₂.2 = [.dropped none] := by
      rw [(Machine.noted_exec hclear).2, hnone]
      rfl
    refine Machine.wp_solo _ (wp_spares ?_ ⟨[], hcleared, hundropped⟩) hrun
    exact (Registry.spares_connectEach _).bind fun _ => trivial
  · rw [RegistryCall.firstNotes_of_ne hcall]
    exact Machine.wp_solo _ (wp_spares (spares_run hcall) ⟨[], rfl, hundropped⟩) hrun

/-- What a call makes of a backend's tools: those of its last listing before the first
collision; without a listing they are as they were, unless the index was cleared. -/
theorem toolsOf_of_run {call : RegistryCall} {i : ι} {es : List RegistryChoice}
    {s t : RegistryWorld ι} {x : Outcome RegistryAnswer} {notes : List IndexNote}
    (hrun : (observedRegistry ι).solo i call.run es (s, []) = some (x, t, notes)) (id : String) :
    toolsOf id t.index = ((lastListing id s.index notes).map Listing.entries).getD
      (toolsOf id (indexAfter s.index call.firstNotes)) := by
  rw [solo_indexAfter hrun]
  obtain ⟨recent, rfl, hundropped⟩ := notes_of_run hrun
  have hfirst : lastListing id s.index (recent ++ call.firstNotes) =
      lastListing id (indexAfter s.index call.firstNotes) recent := by
    have hnone : listings s.index call.firstNotes = [] := by cases call <;> rfl
    rw [lastListing, listings_append, hnone, List.append_nil, lastListing]
  rw [indexAfter_append, toolsOf_indexAfter id _ hundropped, hfirst]

/-- The answers of the backends put the tools of one back that was not listed anew: its listing,
which collides, names before the first collision the tools that the backend had and no other;
and a refresh that gets no listing of it finds none of its tools in the index. -/
structure PutsBack (call : RegistryCall) (notes : List IndexNote) (index : Entries RoutedTool)
    (id : String) : Prop where
  collided : ∀ l, lastListing id index notes = some l → ¬ l.Fits → l.Repeats (toolsOf id index)
  cleared : call = .refreshTools → lastListing id index notes = none → toolsOf id index = []

/-- A listing that fits lists its backend anew. -/
theorem not_fits_of_lastListing {id : String} {index : Entries RoutedTool}
    {notes : List IndexNote} {l : Listing} (hlast : lastListing id index notes = some l)
    (hanew : ¬ ListedAnew id index notes) : ¬ l.Fits := by
  intro hfits
  have hid : l.id = id := by simpa using List.find?_some hlast
  exact hanew ⟨l, List.mem_of_find?_eq_some hlast, hid, hfits⟩

/-- **A failed listing leaves the index alone exactly when the answers put back what the call
took out.** Whatever the state of the registry, the call and the answers of the backends: when
a backend could not be listed, every backend that was not listed anew has the tools it had
before, if and only if its colliding listing repeats them before the first collision, and a
refresh that gets no listing of it finds it without tools. -/
theorem failed_relisting_keeps_iff {call : RegistryCall} {i : ι} {es : List RegistryChoice}
    {s t : RegistryWorld ι} {x : Outcome RegistryAnswer} {notes : List IndexNote}
    (hrun : (observedRegistry ι).solo i call.run es (s, []) = some (x, t, notes)) :
    (ListingFailed s.index notes → ∀ id, ¬ ListedAnew id s.index notes →
        SameTools id s.index t.index) ↔
      (ListingFailed s.index notes → ∀ id, ¬ ListedAnew id s.index notes →
        PutsBack call notes s.index id) := by
  refine imp_congr_right fun _ => forall_congr' fun id => imp_congr_right fun hanew => ?_
  rw [SameTools, toolsOf_of_run hrun id]
  rcases hlast : lastListing id s.index notes with _ | l
  · have hlisted : ∀ l, lastListing id s.index notes = some l → ¬ l.Fits →
        l.Repeats (toolsOf id s.index) := by
      intro l hl
      rw [hlast] at hl
      cases hl
    by_cases hcall : call = .refreshTools
    · -- the index was cleared, and nothing of the backend was put into it again
      subst hcall
      constructor
      · intro h
        refine ⟨hlisted, fun _ _ => List.eq_nil_iff_forall_not_mem.mpr fun entry hentry => ?_⟩
        cases (h entry).mpr hentry
      · intro h entry
        rw [h.cleared rfl hlast]
        rfl
    · -- the backend was not touched
      rw [RegistryCall.firstNotes_of_ne hcall]
      exact iff_of_true (fun _ => Iff.rfl) ⟨hlisted, fun h => absurd h hcall⟩
  · have hfits : ¬ l.Fits := not_fits_of_lastListing hlast hanew
    refine l.mem_entries_iff.trans ⟨fun h => ⟨fun l' hl _ => ?_, fun _ hl => ?_⟩, fun h => ?_⟩
    · rw [hlast] at hl
      obtain rfl := Option.some.inj hl
      exact h
    · rw [hlast] at hl
      cases hl
    · exact h.collided l hlast hfits

/-! ### Tools that are lost -/

/-- A backend whose tools are exposed under their bare names. -/
def bareBackend (id : String) : BackendDef where
  id := id
  transport := .stdio id [] [] none
  toolNamespace := none
  connectionMode := .eager
  connectTimeoutSecs := 10
  callTimeoutSecs := 30
  toolsAllow := []
  toolsDeny := []
  unavailableHint := none
  forwardRequestMeta := false
  pinArgs := []
  denyArgs := []

/-- A successful handshake. -/
def RegistryChoice.greeted : RegistryChoice :=
  { init := .ok ⟨"", ⟨"", ""⟩, ⟨none, none, none, none⟩⟩ }

/-- The tools of a listing, by name. -/
def RegistryChoice.offering (names : List String) : RegistryChoice :=
  { tools := .ok (names.map fun name => ⟨name, "", .null⟩) }

/-- The backends `a` and `b` are registered and connected. -/
def twoBackends : Prog RegistryOp Unit := do
  let _ ← Registry.register (bareBackend "a") 0
  let _ ← Registry.register (bareBackend "b") 1
  let _ ← Registry.connectAll
  .ret ()

/-- The answers to the calls by which `a` lists the tool `z` and `b` the tool `x`. -/
def twoListings : List RegistryChoice :=
  [{}, {}, {}, {}, .greeted, {}, .offering ["z"], {}, {}, .greeted, {}, .offering ["x"], {}]

/-- `b` has the tool `x`. It is listed anew with a tool that `a` has too, and is left with
nothing. A refresh during which `a` cannot be reached leaves `a` with nothing. -/
theorem tools_are_lost :
    ∃ s, (registryMachine Unit).solo () twoBackends twoListings (RegistryWorld.empty Unit) =
        some (.done (), s) ∧
      (∃ es x t notes, (observedRegistry Unit).solo () (RegistryCall.connect "b").run es (s, []) =
          some (x, t, notes) ∧
        ListingFailed s.index notes ∧ ¬ ListedAnew "b" s.index notes ∧
        ¬ SameTools "b" s.index t.index) ∧
      ∃ es x t notes, (observedRegistry Unit).solo () RegistryCall.refreshTools.run es (s, []) =
          some (x, t, notes) ∧
        ListingFailed s.index notes ∧ ¬ ListedAnew "a" s.index notes ∧
        ¬ SameTools "a" s.index t.index := by
  refine ⟨_, rfl, ⟨[{}, .greeted, {}, .offering ["z", "x"], {}], _, _, _, rfl, ?_, ?_, ?_⟩,
    [{}, {}, {}, {}, {}, .greeted, {}, .offering ["x"], {}], _, _, _, rfl, ?_, ?_, ?_⟩
  · exact .inr ⟨_, List.mem_cons_self, fun hfits => absurd (congrArg List.length hfits) (by decide)⟩
  · rintro ⟨l, hl, -, hfits⟩
    cases List.mem_singleton.mp hl
    exact absurd (congrArg List.length hfits) (by decide)
  · intro hsame
    cases (hsame _).mpr List.mem_cons_self
  · exact .inl (List.mem_cons_of_mem _ List.mem_cons_self)
  · rintro ⟨l, hl, hid, -⟩
    cases List.mem_singleton.mp hl
    exact absurd hid (by decide)
  · intro hsame
    cases (hsame _).mpr List.mem_cons_self

/-- `b` is listed anew with its tool `x` and, after that, with a tool that `a` has too: the
listing collides, and `b` keeps `x`. -/
theorem colliding_listing_keeps :
    ∃ s, (registryMachine Unit).solo () twoBackends twoListings (RegistryWorld.empty Unit) =
        some (.done (), s) ∧
      ∃ es x t notes, (observedRegistry Unit).solo () (RegistryCall.connect "b").run es (s, []) =
          some (x, t, notes) ∧
        ListingFailed s.index notes ∧ ¬ ListedAnew "b" s.index notes ∧
        (toolsOf "b" s.index).keys = ["x"] ∧ SameTools "b" s.index t.index ∧
        ((ListingFailed s.index notes → ∀ id, ¬ ListedAnew id s.index notes →
            SameTools id s.index t.index) ↔
          (ListingFailed s.index notes → ∀ id, ¬ ListedAnew id s.index notes →
            PutsBack (.connect "b") notes s.index id)) := by
  let answers : List RegistryChoice := [{}, .greeted, {}, .offering ["x", "z"], {}]
  refine ⟨_, rfl, answers, _, _, _, rfl, ?_, ?_, rfl, fun entry => Iff.rfl,
    @failed_relisting_keeps_iff Unit (.connect "b") () answers _ _ _ _ rfl⟩
  · exact .inr ⟨_, List.mem_cons_self, fun hfits => absurd (congrArg List.length hfits) (by decide)⟩
  · rintro ⟨l, hl, -, hfits⟩
    cases List.mem_singleton.mp hl
    exact absurd (congrArg List.length hfits) (by decide)

end HeadlessMcp
