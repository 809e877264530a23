import HeadlessMcp.Session.Dispatch
import HeadlessMcp.Session.Events

/-!
# Resources

`resources/list` returns what every backend lists and notes the owner of each uri;
`resources/read` asks the owner. The list keeps every entry, and the owners keep the first
backend of each uri, so the two agree where no uri is listed by two backends
(`resources_readable_iff`).

The owners are replaced as a whole by every list, and a read of an unknown uri makes a new list
before it gives up.
-/

namespace HeadlessMcp

open Async

variable {ι : Type}

/-! ## Owners -/

/-- What is owned stays with its owner. -/
theorem get_claimResources_of_get {id owner uri : String} {owners : Entries String}
    {resources : List (String × Value)} (h : owners.get uri = some owner) :
    (Session.claimResources id owners resources).get uri = some owner := by
  induction resources generalizing owners with
  | nil => exact h
  | cons r resources ih =>
    rw [Session.claimResources, List.foldl_cons]
    refine ih ?_
    split
    · exact h
    · rename_i hfree
      have hne : uri ≠ r.1 := by
        rintro rfl
        exact hfree (by rw [Entries.containsKey, h]; rfl)
      rw [Entries.get_insert_ne hne, h]

/-- What is listed has an owner. -/
theorem isSome_get_claimResources {id uri : String} {resource : Value} {owners : Entries String}
    {resources : List (String × Value)} (h : (uri, resource) ∈ resources) :
    ((Session.claimResources id owners resources).get uri).isSome = true := by
  induction resources generalizing owners with
  | nil => exact absurd h List.not_mem_nil
  | cons r resources ih =>
    rw [Session.claimResources, List.foldl_cons]
    -- the resource itself, or a later one of the list
    rcases List.mem_cons.mp h with rfl | h
    · have howned : ∃ owner, (if owners.containsKey uri then owners
          else owners.insert uri id).get uri = some owner := by
        split
        · rename_i hkey
          exact Option.isSome_iff_exists.mp hkey
        · exact ⟨id, Entries.get_insert_self _ _ _⟩
      obtain ⟨owner, howner⟩ := howned
      exact Option.isSome_iff_exists.mpr ⟨owner, get_claimResources_of_get howner⟩
    · exact ih h

/-- A new owner lists the resource. -/
theorem get_claimResources {id owner uri : String} {owners : Entries String}
    {resources : List (String × Value)}
    (h : (Session.claimResources id owners resources).get uri = some owner) :
    owners.get uri = some owner ∨ owner = id ∧ ∃ resource, (uri, resource) ∈ resources := by
  induction resources generalizing owners with
  | nil => exact .inl h
  | cons r resources ih =>
    rw [Session.claimResources, List.foldl_cons] at h
    rcases ih h with h | ⟨rfl, resource, hmem⟩
    · -- a resource with an owner keeps it; a new one gets this backend
      split at h
      · exact .inl h
      · by_cases hr : uri = r.1
        · subst hr
          rw [Entries.get_insert_self] at h
          exact .inr ⟨(Option.some.inj h).symm, r.2, List.mem_cons_self⟩
        · rw [Entries.get_insert_ne hr] at h
          exact .inl h
    · exact .inr ⟨rfl, resource, List.mem_cons_of_mem _ hmem⟩

/-! ## Listing -/

/-- The entries of a reply to `resources/list`. -/
def listedIn (reply : Value) : List Value :=
  ((reply.get "resources").bind Value.asArray).getD []

/-- A backend contributed a resource: it answered one of these requests with it. The answer
belongs to that request, so the entry is what the backend said and not a later one. -/
def ContributedIn (s : RegistryWorld ι) (new : List (Forwarded ι)) (id uri : String)
    (resource : Value) : Prop :=
  ∃ handle r result, s.backends.get id = some handle ∧ r ∈ new ∧ r.object = handle.object ∧
    r.method = "resources/list" ∧ r.answer = .ok result ∧
    (uri, resource) ∈ Session.resourcesOf result

/-- What is contributed is contributed by a registered backend. -/
theorem ContributedIn.registered {s : RegistryWorld ι} {new : List (Forwarded ι)} {id uri : String}
    {resource : Value} (h : ContributedIn s new id uri resource) :
    ∃ handle, s.backends.get id = some handle :=
  h.imp fun _ ⟨_, _, hget, _⟩ => hget

/-- Contributions of more requests. -/
theorem contributedIn_append {s : RegistryWorld ι} {new new' : List (Forwarded ι)}
    {id uri : String} {resource : Value} :
    ContributedIn s (new ++ new') id uri resource ↔
      ContributedIn s new id uri resource ∨ ContributedIn s new' id uri resource := by
  constructor
  · rintro ⟨handle, r, result, hget, hr, hrest⟩
    rcases List.mem_append.mp hr with hr | hr
    · exact .inl ⟨handle, r, result, hget, hr, hrest⟩
    · exact .inr ⟨handle, r, result, hget, hr, hrest⟩
  · rintro (⟨handle, r, result, hget, hr, hrest⟩ | ⟨handle, r, result, hget, hr, hrest⟩)
    · exact ⟨handle, r, result, hget, List.mem_append_left _ hr, hrest⟩
    · exact ⟨handle, r, result, hget, List.mem_append_right _ hr, hrest⟩

/-- A request that failed contributes nothing. -/
theorem not_contributedIn_error {s : RegistryWorld ι} {i : ι} {object : Nat} {id uri : String}
    {resource : Value} {err : BackendError} :
    ¬ ContributedIn s [⟨i, object, "resources/list", none, .error err⟩] id uri resource := by
  rintro ⟨handle, r, result, -, hr, -, -, hanswer, -⟩
  obtain rfl := List.mem_singleton.mp hr
  cases hanswer

/-- A request that was answered contributes the resources of the answer, under the backend
that was asked. -/
theorem contributedIn_ok {s : RegistryWorld ι} {i : ι} {id id' uri : String} {resource result : Value}
    {handle : BackendHandle} (hdistinct : Distinct s) (hget : s.backends.get id = some handle) :
    ContributedIn s [⟨i, handle.object, "resources/list", none, .ok result⟩] id' uri resource ↔
      id' = id ∧ (uri, resource) ∈ Session.resourcesOf result := by
  constructor
  · rintro ⟨handle', r, result', hget', hr, hobject, -, hanswer, hmem⟩
    obtain rfl := List.mem_singleton.mp hr
    cases hanswer
    exact ⟨hdistinct.id_eq hget' hget hobject.symm, hmem⟩
  · rintro ⟨rfl, hmem⟩
    exact ⟨handle, _, result, hget, List.mem_singleton.mpr rfl, rfl, rfl, rfl, hmem⟩

/-- What going through some backends leaves: the requests `new` were made, the resources in
their answers are listed, and the owners of these are among the backends that list them. -/
structure Collected (s t : DispatchWorld ι) (owners owners' : Entries String) (all : List Value)
    (new : List (Forwarded ι)) : Prop where
  backends : t.session.registry.backends = s.session.registry.backends
  forwarded : t.session.registry.forwarded = new ++ s.session.registry.forwarded
  resources : ∀ resource, resource ∈ all ↔
    ∃ id uri, ContributedIn s.session.registry new id uri resource
  kept : ∀ uri owner, owners.get uri = some owner → owners'.get uri = some owner
  claimed : ∀ id uri resource, ContributedIn s.session.registry new id uri resource →
    (owners'.get uri).isSome = true
  owned : ∀ uri owner, owners'.get uri = some owner → owners.get uri = some owner ∨
    ∃ resource, ContributedIn s.session.registry new owner uri resource

/-- Nothing was asked. -/
theorem Collected.nil {s : DispatchWorld ι} {owners : Entries String} :
    Collected s s owners owners [] [] where
  backends := rfl
  forwarded := rfl
  resources resource := by
    constructor
    · intro h
      exact absurd h List.not_mem_nil
    · rintro ⟨id, uri, handle, r, result, -, hr, -⟩
      exact absurd hr List.not_mem_nil
  kept _ _ h := h
  claimed := by
    rintro id uri resource ⟨handle, r, result, -, hr, -⟩
    exact absurd hr List.not_mem_nil
  owned _ _ h := .inl h

/-- Backends that are asked after others. -/
theorem Collected.trans {s t u : DispatchWorld ι} {owners owners' owners'' : Entries String}
    {all all' : List Value} {new new' : List (Forwarded ι)}
    (hst : Collected s t owners owners' all new) (htu : Collected t u owners' owners'' all' new') :
    Collected s u owners owners'' (all ++ all') (new' ++ new) := by
  have hsame {id uri : String} {resource : Value} :
      ContributedIn t.session.registry new' id uri resource ↔
        ContributedIn s.session.registry new' id uri resource := by
    rw [ContributedIn, ContributedIn, hst.backends]
  -- what holds of the backends asked first, and of those asked after them
  refine ⟨htu.backends.trans hst.backends, ?_, fun resource => ?_, fun uri owner h => ?_,
    fun id uri resource h => ?_, fun uri owner h => ?_⟩
  · rw [htu.forwarded, hst.forwarded, List.append_assoc]
  · simp only [List.mem_append, hst.resources, htu.resources, contributedIn_append, hsame,
      exists_or]
    exact or_comm
  · exact htu.kept uri owner (hst.kept uri owner h)
  · rcases contributedIn_append.mp h with h | h
    · exact htu.claimed id uri resource (hsame.mpr h)
    · obtain ⟨owner, howner⟩ := Option.isSome_iff_exists.mp (hst.claimed id uri resource h)
      rw [htu.kept uri owner howner]
      rfl
  · rcases htu.owned uri owner h with h | ⟨resource, h⟩
    · refine (hst.owned uri owner h).imp_right ?_
      rintro ⟨resource, h⟩
      exact ⟨resource, contributedIn_append.mpr (.inr h)⟩
    · exact .inr ⟨resource, contributedIn_append.mpr (.inl (hsame.mp h))⟩

section Handlers

variable {i : ι}

/-- One backend answers. -/
theorem Collected.answered {s : DispatchWorld ι} {owners : Entries String} {id : String}
    {handle : BackendHandle} {result : Value} (hdistinct : Distinct s.session.registry)
    (hget : s.session.registry.backends.get id = some handle) :
    Collected s
      { s with session := { s.session with registry := { s.session.registry with forwarded :=
        ⟨i, handle.object, "resources/list", none, .ok result⟩ ::
          s.session.registry.forwarded } } }
      owners (Session.claimResources id owners (Session.resourcesOf result))
      ((Session.resourcesOf result).map Prod.snd)
      [⟨i, handle.object, "resources/list", none, .ok result⟩] where
  backends := rfl
  forwarded := rfl
  resources resource := by
    simp only [contributedIn_ok hdistinct hget, List.mem_map, Prod.exists]
    constructor
    · rintro ⟨uri, _, hmem, rfl⟩
      exact ⟨id, uri, rfl, hmem⟩
    · rintro ⟨_, uri, -, hmem⟩
      exact ⟨uri, _, hmem, rfl⟩
  kept _ _ h := get_claimResources_of_get h
  claimed id' uri resource h :=
    isSome_get_claimResources ((contributedIn_ok hdistinct hget).mp h).2
  owned uri owner h := by
    refine (get_claimResources h).imp_right ?_
    rintro ⟨rfl, resource, hmem⟩
    exact ⟨resource, (contributedIn_ok hdistinct hget).mpr ⟨rfl, hmem⟩⟩

/-- One backend fails, and is left out. -/
theorem Collected.failed {s : DispatchWorld ι} {owners : Entries String} {object : Nat}
    {err : BackendError} :
    Collected s
      { s with session := { s.session with registry := { s.session.registry with forwarded :=
        ⟨i, object, "resources/list", none, .error err⟩ :: s.session.registry.forwarded } } }
      owners owners [] [⟨i, object, "resources/list", none, .error err⟩] where
  backends := rfl
  forwarded := rfl
  resources resource := by
    constructor
    · intro h
      exact absurd h List.not_mem_nil
    · rintro ⟨id, uri, h⟩
      exact absurd h not_contributedIn_error
  kept _ _ h := h
  claimed _ _ _ h := absurd h not_contributedIn_error
  owned _ _ h := .inl h

theorem wp_listResources {ids : List String} {owners : Entries String} {s : DispatchWorld ι}
    (hdistinct : Distinct s.session.registry)
    (hids : ∀ id ∈ ids, ∃ handle, s.session.registry.backends.get id = some handle) :
    (dispatchMachine ι).wp i (Session.listResources ids owners)
      (fun x t => ∃ all owners' new, x = .done (all, owners') ∧
        Collected s t owners owners' all new) s := by
  induction ids generalizing s owners with
  | nil => exact ⟨[], owners, [], rfl, .nil⟩
  | cons id ids ih =>
    obtain ⟨handle, hget⟩ := hids id List.mem_cons_self
    simp only [Session.listResources, Prog.bind_eq]
    rw [Machine.wp_bind, wp_hubDo]
    refine wp_backendRequest hget fun answer => ?_
    dsimp only [Machine.andThen]
    -- the answer is on record; the rest starts from there
    let t : DispatchWorld ι :=
      { s with session := { s.session with registry := { s.session.registry with forwarded :=
        ⟨i, handle.object, "resources/list", none, answer⟩ :: s.session.registry.forwarded } } }
    have rest (owners : Entries String) :
        (dispatchMachine ι).wp i (Session.listResources ids owners)
          (fun x u => ∃ all owners' new, x = .done (all, owners') ∧
            Collected t u owners owners' all new) t :=
      ih ⟨hdistinct.ids, hdistinct.objects⟩ fun id' hid => hids id' (List.mem_cons_of_mem _ hid)
    rcases answer with err | result
    · refine Machine.wp_mono _ (rest owners) ?_
      rintro x u ⟨all, owners', new, rfl, hu⟩
      exact ⟨all, owners', _, rfl, Collected.failed.trans hu⟩
    · rw [Machine.wp_bind]
      refine Machine.wp_mono _ (rest _) ?_
      rintro x u ⟨all, owners', new, rfl, hu⟩
      exact ⟨_, owners', _, rfl, (Collected.answered hdistinct hget).trans hu⟩

/-- `resources/list` returns what it collects, and keeps the owners. -/
theorem wp_handleResourcesList {ctx : RequestCtx} {s : DispatchWorld ι}
    (hdistinct : Distinct s.session.registry) :
    (dispatchMachine ι).wp i (Session.handleResourcesList ctx)
      (fun x t => ∀ reply, x = .done (.ok reply) →
        ∃ new, Collected s t [] t.resourceOwners (listedIn reply) new) s := by
  simp only [Session.handleResourcesList, Prog.bind_eq, Prog.perform_bind]
  rw [Machine.wp_bind, wp_sessionDo]
  refine wp_requireInitialized (fun _ => ?_) fun _ err reply h => nomatch h
  dsimp only [Machine.andThen]
  rw [Machine.wp_bind, wp_hubDo]
  refine wp_backendsWith hdistinct.ids ?_
  dsimp only [Machine.andThen]
  rw [Machine.wp_bind]
  refine Machine.wp_mono _ (wp_listResources hdistinct fun id hid =>
    registered_of_advertiser hdistinct.ids hid) ?_
  rintro x t ⟨all, owners, new, rfl, hall⟩ e b u he reply hreply
  obtain ⟨-, rfl⟩ := Prod.mk.inj (Option.some.inj he)
  cases hreply
  exact ⟨new, hall.backends, hall.forwarded, hall.resources, hall.kept, hall.claimed, hall.owned⟩

/-! ## Reading -/

/-- The resource is read from its owner. -/
theorem wp_handleResourcesRead {uri owner : String} {params : Value} {ctx : RequestCtx}
    {handle : BackendHandle} {s : DispatchWorld ι} (haccepted : Accepted ctx s.session)
    (huri : params.get "uri" = some (.string uri)) (howner : s.resourceOwners.get uri = some owner)
    (hget : s.session.registry.backends.get owner = some handle) :
    (dispatchMachine ι).wp i (Session.handleResourcesRead (some params) ctx)
      (fun _ t => ∃ answer, t.session.registry.forwarded =
        ⟨i, handle.object, "resources/read", some (.object [("uri", .string uri)]), answer⟩ ::
          s.session.registry.forwarded) s := by
  have hstr : (params.get "uri").bind Value.asStr = some uri := by rw [huri]; rfl
  simp only [Session.handleResourcesRead, Prog.bind_eq, Prog.perform_bind, Option.bind_some, hstr]
  rw [Machine.wp_bind, wp_sessionDo]
  refine wp_requireInitialized (fun _ => ?_) fun h => absurd haccepted h
  rintro e found t he
  obtain ⟨rfl, rfl⟩ := Prod.mk.inj (Option.some.inj he)
  rw [howner]
  simp only [Session.readFrom, Prog.bind_eq]
  rw [Machine.wp_bind, wp_hubDo]
  refine wp_backendRequest hget fun answer => ?_
  dsimp only [Machine.andThen]
  rcases answer with err | v
  · exact ⟨_, rfl⟩
  · exact ⟨_, rfl⟩

end Handlers

/-! ## Listing and reading -/

/-- A backend contributed an entry to a `resources/list`, from `s` to `t`. -/
def Contributed (s t : DispatchWorld ι) (id uri : String) (resource : Value) : Prop :=
  ∃ new, t.session.registry.forwarded = new ++ s.session.registry.forwarded ∧
    ContributedIn s.session.registry new id uri resource

/-- A state after a list, with no other list in between: the owners are what the list left,
and the backends of `s` are still there. -/
structure After (s t u : DispatchWorld ι) : Prop where
  owners : u.resourceOwners = t.resourceOwners
  distinct : Distinct u.session.registry
  registered : ∀ id handle, s.session.registry.backends.get id = some handle →
    ∃ handle', u.session.registry.backends.get id = some handle'

/-- Whoever reads the resource, the request is forwarded to the backend and nowhere else. -/
def ReadFrom (u : DispatchWorld ι) (id uri : String) : Prop :=
  ∃ handle, u.session.registry.backends.get id = some handle ∧
    ∀ i ctx params, Accepted ctx u.session → params.get "uri" = some (.string uri) →
      ∀ es x v, (dispatchMachine ι).solo i (Session.handleResourcesRead (some params) ctx) es u =
          some (x, v) →
        ∃ answer, v.session.registry.forwarded =
          ⟨i, handle.object, "resources/read", some (.object [("uri", .string uri)]), answer⟩ ::
            u.session.registry.forwarded

/-- A resource is read from the backend that owns it. -/
theorem readFrom_owner {u : DispatchWorld ι} {owner uri : String} {handle : BackendHandle}
    (howner : u.resourceOwners.get uri = some owner)
    (hget : u.session.registry.backends.get owner = some handle) : ReadFrom u owner uri := by
  refine ⟨handle, hget, fun i ctx params haccepted huri es x v hsolo => ?_⟩
  exact Machine.wp_solo _ (wp_handleResourcesRead haccepted huri howner hget) hsolo

/-- Every operation of the whole session can be performed. -/
theorem dispatch_total (i : ι) (β : Type) (o : DispatchOp β) (s : DispatchWorld ι) :
    ∃ e r, (dispatchMachine ι).exec i β o e s = some r := by
  cases o with
  | session o =>
    obtain ⟨e, r, hr⟩ := session_total i β o s.session
    exact ⟨e, _, congrArg (Option.map _) hr⟩
  | resourceOwner uri => exact ⟨{}, _, rfl⟩
  | setResourceOwners owners => exact ⟨{}, _, rfl⟩
  | record event => exact ⟨{}, _, rfl⟩
  | openStream stream => exact ⟨{}, _, rfl⟩

/-- And only from it. -/
theorem ReadFrom.eq_owner [Nonempty ι] {u : DispatchWorld ι} {id owner uri : String}
    {handle : BackendHandle} (hdistinct : Distinct u.session.registry) (h : ReadFrom u id uri)
    (howner : u.resourceOwners.get uri = some owner)
    (hget : u.session.registry.backends.get owner = some handle) : id = owner := by
  obtain ⟨handle', hget', hread⟩ := h
  obtain ⟨handle'', hget'', howned⟩ := readFrom_owner howner hget
  -- a modern client reads the resource
  obtain ⟨i⟩ := ‹Nonempty ι›
  let params : Value := .object [("uri", .string uri)]
  have hparams : params.get "uri" = some (.string uri) := rfl
  have haccepted : Accepted ⟨some ""⟩ u.session := .inl rfl
  obtain ⟨es, ⟨x, v⟩, hsolo⟩ := (dispatchMachine ι).exists_solo (dispatch_total i)
    (Session.handleResourcesRead (some params) ⟨some ""⟩) u
  obtain ⟨answer, hforwarded⟩ := hread i _ params haccepted hparams es x v hsolo
  obtain ⟨answer', hforwarded'⟩ := howned i _ params haccepted hparams es x v hsolo
  rw [hforwarded] at hforwarded'
  have hobject : handle'.object = handle''.object :=
    congrArg Forwarded.object (List.cons.inj hforwarded').1
  exact hdistinct.id_eq hget' hget'' hobject

/-- **A listed resource can be read from the backend that lists it exactly when no two
backends list the same uri.** A reply to `resources/list` has the entries that the backends
contributed, and no others. Every entry can be read, after the list and until there is another
one, from the backend that contributed it, if and only if no uri was contributed by two
backends. -/
theorem resources_readable_iff {i : ι} {ctx : RequestCtx} {s t : DispatchWorld ι}
    {es : List RegistryChoice} {reply : Value} (hdistinct : Distinct s.session.registry)
    (hlist : (dispatchMachine ι).solo i (Session.handleResourcesList ctx) es s =
      some (.done (.ok reply), t)) :
    (∀ resource, resource ∈ listedIn reply ↔ ∃ id uri, Contributed s t id uri resource) ∧
    ((∀ u, After s t u → ∀ id uri resource, Contributed s t id uri resource → ReadFrom u id uri) ↔
      ∀ id id' uri resource resource', Contributed s t id uri resource →
        Contributed s t id' uri resource' → id = id') := by
  obtain ⟨new, hall⟩ := Machine.wp_solo _ (wp_handleResourcesList hdistinct) hlist reply rfl
  have hcontributed {id uri : String} {resource : Value} :
      Contributed s t id uri resource ↔ ContributedIn s.session.registry new id uri resource := by
    constructor
    · rintro ⟨new', hnew', h⟩
      rw [hall.forwarded] at hnew'
      rwa [List.append_cancel_right hnew']
    · exact fun h => ⟨new, hall.forwarded, h⟩
  simp only [hcontributed]
  refine ⟨hall.resources, fun hread id id' uri resource resource' h h' => ?_,
    fun hunique u hafter id uri resource h => ?_⟩
  · -- both are read from the owner
    have hafter : After s t t := ⟨rfl, ⟨hall.backends ▸ hdistinct.ids,
      hall.backends ▸ hdistinct.objects⟩, fun _ handle hget => ⟨handle, hall.backends ▸ hget⟩⟩
    have : Nonempty ι := ⟨i⟩
    obtain ⟨owner, howner⟩ := Option.isSome_iff_exists.mp (hall.claimed id uri resource h)
    obtain ⟨resource'', howned⟩ := (hall.owned uri owner howner).resolve_left nofun
    obtain ⟨handle, hget⟩ := howned.registered
    rw [← hall.backends] at hget
    calc id = owner := (hread t hafter id uri resource h).eq_owner hafter.distinct howner hget
      _ = id' := ((hread t hafter id' uri resource' h').eq_owner hafter.distinct howner hget).symm
  · obtain ⟨owner, howner⟩ := Option.isSome_iff_exists.mp (hall.claimed id uri resource h)
    obtain ⟨resource', howned⟩ := (hall.owned uri owner howner).resolve_left nofun
    obtain rfl := hunique _ _ _ _ _ h howned
    obtain ⟨handle, hget⟩ := h.registered
    obtain ⟨handle', hget'⟩ := hafter.registered id handle hget
    rw [← hafter.owners] at howner
    exact readFrom_owner howner hget'

/-! ### Two backends with resources -/

/-- Two healthy backends that advertise resources. -/
def resourceHub : DispatchWorld Unit :=
  let capabilities : ServerCapabilities := ⟨none, some (.object []), none, none⟩
  { session := ⟨⟨[("a", ⟨eventBackend "a" none, 0, true, some capabilities, 0⟩),
      ("b", ⟨eventBackend "b" none, 1, true, some capabilities, 0⟩)], [], []⟩, true, 0⟩
    resourceOwners := []
    audit := []
    streams := [] }

theorem resourceHub_distinct : Distinct resourceHub.session.registry :=
  ⟨(by decide : ["a", "b"].Nodup), (by decide : [0, 1].Nodup)⟩

/-- A listing with one resource. -/
def oneResource (uri : String) : Value :=
  .object [("resources", .array [.object [("uri", .string uri)]])]

/-- What the two backends answer to the list. -/
def resourceAnswers (first second : String) : List RegistryChoice :=
  [{}, {}, {}, { value := .ok (oneResource first) }, {}, { value := .ok (oneResource second) }, {}]

/-- The state after the list. -/
def resourceHubListed (first second : String) (owners : Entries String) : DispatchWorld Unit :=
  { resourceHub with
    session := { resourceHub.session with registry := { resourceHub.session.registry with
      forwarded := [⟨(), 1, "resources/list", none, .ok (oneResource second)⟩,
        ⟨(), 0, "resources/list", none, .ok (oneResource first)⟩] } }
    resourceOwners := owners }

/-- What the two backends contribute. -/
theorem contributed_resourceHub {first second id uri : String} {resource : Value}
    {owners : Entries String}
    (h : Contributed resourceHub (resourceHubListed first second owners) id uri resource) :
    id = "a" ∧ uri = first ∨ id = "b" ∧ uri = second := by
  obtain ⟨new, hnew, handle, r, result, hget, hr, hobject, -, hanswer, hmem⟩ := h
  have hr : r ∈ (resourceHubListed first second owners).session.registry.forwarded := by
    rw [hnew]
    exact List.mem_append_left _ hr
  rcases List.mem_cons.mp hr with rfl | hr
  · cases hanswer
    have hid : id = "b" := resourceHub_distinct.id_eq hget rfl hobject.symm
    refine .inr ⟨hid, ?_⟩
    exact congrArg Prod.fst (List.mem_singleton.mp hmem)
  · obtain rfl := List.mem_singleton.mp hr
    cases hanswer
    have hid : id = "a" := resourceHub_distinct.id_eq hget rfl hobject.symm
    refine .inl ⟨hid, ?_⟩
    exact congrArg Prod.fst (List.mem_singleton.mp hmem)

/-- Different resources can all be read. -/
theorem different_resources_readable :
    ReadFrom (resourceHubListed "x" "y" [("x", "a"), ("y", "b")]) "b" "y" := by
  have hlist : (dispatchMachine Unit).solo () (Session.handleResourcesList ⟨none⟩)
      (resourceAnswers "x" "y") resourceHub = some (.done (.ok (.object [("resources", .array
        [.object [("uri", .string "x")], .object [("uri", .string "y")]])])),
        resourceHubListed "x" "y" [("x", "a"), ("y", "b")]) := rfl
  refine (resources_readable_iff resourceHub_distinct hlist).2.mpr ?_ _ ⟨rfl, ?_, ?_⟩ "b" "y"
    (.object [("uri", .string "y")]) ?_
  · intro id id' uri resource resource' h h'
    rcases contributed_resourceHub h with ⟨rfl, rfl⟩ | ⟨rfl, rfl⟩ <;>
      rcases contributed_resourceHub h' with ⟨rfl, hx⟩ | ⟨rfl, hy⟩
    · rfl
    · exact absurd hy (by decide)
    · exact absurd hx (by decide)
    · rfl
  · exact ⟨resourceHub_distinct.ids, resourceHub_distinct.objects⟩
  · exact fun id handle hget => ⟨handle, hget⟩
  · exact ⟨[⟨(), 1, "resources/list", none, .ok (oneResource "y")⟩,
      ⟨(), 0, "resources/list", none, .ok (oneResource "x")⟩], rfl, _, _, _, rfl,
      List.mem_cons_self, rfl, rfl, rfl, List.mem_cons_self⟩

/-- The resource of the second backend is listed, and read from the first. -/
theorem listed_resource_is_shadowed :
    ∃ x u, (dispatchMachine Unit).solo () (Session.handleResourcesList ⟨none⟩)
        (resourceAnswers "x" "x") resourceHub = some (.done (.ok (.object [("resources", .array
          [.object [("uri", .string "x")], .object [("uri", .string "x")]])])),
          resourceHubListed "x" "x" [("x", "a")]) ∧
      Contributed resourceHub (resourceHubListed "x" "x" [("x", "a")]) "b" "x"
        (.object [("uri", .string "x")]) ∧
      (dispatchMachine Unit).solo () (Session.handleResourcesRead
        (some (.object [("uri", .string "x")])) ⟨none⟩) [{}, {}, {}, { value := .ok .null }]
        (resourceHubListed "x" "x" [("x", "a")]) = some (x, u) ∧
      u.session.registry.forwarded.head? = some ⟨(), 0, "resources/read",
        some (.object [("uri", .string "x")]), .ok .null⟩ ∧
      ¬ ReadFrom (resourceHubListed "x" "x" [("x", "a")]) "b" "x" := by
  refine ⟨_, _, rfl, ⟨[⟨(), 1, "resources/list", none, .ok (oneResource "x")⟩,
    ⟨(), 0, "resources/list", none, .ok (oneResource "x")⟩], rfl, _, _, _, rfl,
    List.mem_cons_self, rfl, rfl, rfl, List.mem_cons_self⟩, rfl, rfl, ?_⟩
  rintro ⟨handle, hget, hread⟩
  obtain rfl := Option.some.inj hget
  obtain ⟨answer, hforwarded⟩ := hread () ⟨none⟩ (.object [("uri", .string "x")]) (.inr rfl) rfl
    [{}, {}, {}, { value := .ok .null }] _ _ rfl
  have hobject : 0 = 1 := congrArg Forwarded.object (List.cons.inj hforwarded).1
  cases hobject

end HeadlessMcp
