import HeadlessMcp.Session.World

/-!
# Events

`events/list` exposes an event under its backend's namespace; `events/subscribe` and
`events/unsubscribe` look for the first backend, by id, that the name can belong to. A
backend without a namespace can own every name, and a namespace can be a part of another,
so the two are only inverse to each other where no earlier backend is in the way
(`Shadowed`).
-/

namespace HeadlessMcp

open Async

variable {ι : Type}

/-! ## The advertisers -/

/-- The registered backends are told apart by their ids and by their objects. -/
structure Distinct (s : RegistryWorld ι) : Prop where
  ids : s.backends.keys.Nodup
  objects : (s.backends.map fun e => e.2.object).Nodup

/-- The namespace of a backend. -/
def RegistryWorld.namespaceOf (s : RegistryWorld ι) (id : String) : Option String :=
  (s.backends.get id).bind (·.definition.toolNamespace)

/-- Whatever the order of iteration, it goes over the same backends. -/
theorem arrange_perm {e : RegistryChoice} {backends backends' : Entries BackendHandle}
    (hunique : backends.keys.Nodup) (h : e.arrange backends = some backends') :
    backends'.Perm backends := by
  unfold RegistryChoice.arrange at h
  -- no order is given, or a permutation of the ids
  split at h
  · cases h
    exact List.Perm.refl _
  · split at h
    · rename_i ids _ hperm
      cases h
      refine (hperm.filterMap _).trans (List.Perm.of_eq ?_)
      rw [Entries.keys, List.filterMap_map]
      calc backends.filterMap _ = backends.filterMap some :=
            List.filterMap_congr fun entry hentry => by
              rw [Function.comp_apply, Entries.get_of_mem hunique hentry]
              rfl
        _ = backends := List.filterMap_some
    · cases h

/-- Any backend can come first. -/
theorem exists_arrange_first {backends : Entries BackendHandle} {b : String × BackendHandle}
    (hkeys : backends.keys.Nodup) (hb : b ∈ backends) :
    ∃ (e : RegistryChoice) (rest : Entries BackendHandle),
      e.arrange backends = some (b :: rest) := by
  have hperm : (b.1 :: backends.keys.erase b.1).Perm backends.keys :=
    (List.perm_cons_erase (List.mem_map_of_mem hb)).symm
  refine ⟨{ order := some (b.1 :: backends.keys.erase b.1) },
    (backends.keys.erase b.1).filterMap fun id => (backends.get id).map fun h => (id, h), ?_⟩
  simp only [RegistryChoice.arrange, if_pos hperm, List.filterMap_cons,
    Entries.get_of_mem hkeys hb, Option.map_some]

/-- So the advertisers are the same too. -/
theorem advertisers_perm {capability : String} {backends backends' : Entries BackendHandle}
    (h : backends'.Perm backends) :
    Registry.advertisers capability backends' = Registry.advertisers capability backends := by
  refine List.Perm.eq_of_pairwise' (List.pairwise_insertionSort (· ≤ ·) _)
    (List.pairwise_insertionSort (· ≤ ·) _) ?_
  refine (List.perm_insertionSort _ _).trans (List.Perm.trans ?_ (List.perm_insertionSort _ _).symm)
  exact (h.filter _).map _

/-- The advertisers come in the order of their ids, each of them once. -/
theorem advertisers_sorted {capability : String} {backends : Entries BackendHandle}
    (hunique : backends.keys.Nodup) :
    (Registry.advertisers capability backends).Pairwise (· < ·) := by
  have hsorted := List.pairwise_insertionSort (· ≤ ·)
    ((backends.filter fun b => b.2.health && b.2.capabilities.any (·.has capability)).map
      Prod.fst)
  have hnodup : (Registry.advertisers capability backends).Nodup := by
    refine (List.perm_insertionSort (· ≤ ·) _).nodup_iff.mpr ?_
    exact (List.filter_sublist.map Prod.fst).nodup hunique
  refine (hsorted.and hnodup).imp fun {a b} h => lt_of_le_of_ne h.1 h.2

/-- An advertiser is registered. -/
theorem registered_of_advertiser {capability : String} {s : RegistryWorld ι} {id : String}
    (hunique : s.backends.keys.Nodup) (h : id ∈ Registry.advertisers capability s.backends) :
    ∃ handle, s.backends.get id = some handle := by
  obtain ⟨entry, hentry, rfl⟩ := List.mem_map.mp ((List.perm_insertionSort _ _).mem_iff.mp h)
  exact ⟨entry.2, Entries.get_of_mem hunique (List.mem_filter.mp hentry).1⟩

/-- The first element of a sorted list that passes a test is the least one that does. -/
theorem find?_eq_some_iff_of_sorted {l : List String} {p : String → Bool} {a : String}
    (hsorted : l.Pairwise (· < ·)) :
    l.find? p = some a ↔ a ∈ l ∧ p a = true ∧ ∀ b ∈ l, b < a → p b = false := by
  induction l with
  | nil => simp
  | cons c l ih =>
    obtain ⟨hfirst, hsorted⟩ := List.pairwise_cons.mp hsorted
    -- the head passes the test, or the rest of the list decides
    by_cases hc : p c = true
    · rw [List.find?_cons_of_pos hc]
      constructor
      · rintro h
        obtain rfl := Option.some.inj h
        refine ⟨List.mem_cons_self, hc, fun b hb hlt => ?_⟩
        rcases List.mem_cons.mp hb with rfl | hb
        · exact absurd hlt (lt_irrefl _)
        · exact absurd (hfirst b hb) hlt.asymm
      · rintro ⟨hmem, hpass, hleast⟩
        rcases List.mem_cons.mp hmem with rfl | hmem
        · rfl
        · rw [hleast c List.mem_cons_self (hfirst a hmem)] at hc
          cases hc
    · rw [List.find?_cons_of_neg hc, ih hsorted]
      constructor
      · rintro ⟨hmem, hpass, hleast⟩
        refine ⟨List.mem_cons_of_mem _ hmem, hpass, fun b hb hlt => ?_⟩
        rcases List.mem_cons.mp hb with rfl | hb
        · simpa using hc
        · exact hleast b hb hlt
      · rintro ⟨hmem, hpass, hleast⟩
        rcases List.mem_cons.mp hmem with rfl | hmem
        · exact absurd hpass hc
        · exact ⟨hmem, hpass, fun b hb => hleast b (List.mem_cons_of_mem _ hb)⟩

/-! ## What the handlers do -/

section Handlers

variable {i : ι}

theorem wp_toolNamespace {id : String} {Q : Outcome (Option String) → RegistryWorld ι → Prop}
    {s : RegistryWorld ι} (h : Q (.done (s.namespaceOf id)) s) :
    (registryMachine ι).wp i (Registry.toolNamespace id) Q s := by
  rintro e found t he
  obtain ⟨rfl, rfl⟩ := Prod.mk.inj (Option.some.inj he)
  exact h

theorem wp_backendsWith {capability : String} {Q : Outcome (List String) → RegistryWorld ι → Prop}
    {s : RegistryWorld ι} (hunique : s.backends.keys.Nodup)
    (h : Q (.done (Registry.advertisers capability s.backends)) s) :
    (registryMachine ι).wp i (Registry.backendsWith capability) Q s := by
  rintro e backends t he
  obtain ⟨_, harrange, heq⟩ := Option.map_eq_some_iff.mp he
  obtain ⟨rfl, rfl⟩ := Prod.mk.inj heq
  rw [← advertisers_perm (arrange_perm hunique harrange)] at h
  exact h

/-- A request to a registered backend is forwarded to its object. -/
theorem wp_backendRequest {id method : String} {params : Option Value} {timeoutSecs : Nat}
    {Q : Outcome (BackendResult Value) → RegistryWorld ι → Prop} {s : RegistryWorld ι}
    {handle : BackendHandle} (hget : s.backends.get id = some handle)
    (h : ∀ answer, Q (.done answer)
      { s with forwarded := ⟨i, handle.object, method, params, answer⟩ :: s.forwarded }) :
    (registryMachine ι).wp i (Registry.backendRequest id method params timeoutSecs) Q s := by
  rintro e found t he
  obtain ⟨rfl, rfl⟩ := Prod.mk.inj (Option.some.inj he)
  rw [hget]
  rintro e answer t he
  obtain ⟨rfl, rfl⟩ := Prod.mk.inj (Option.some.inj he)
  exact h e.value

/-- The events of an answer to `events/list`. -/
def eventsOf (result : Value) : List Value := ((result.get "events").bind Value.asArray).getD []

/-- The name of an event. -/
def eventName (event : Value) : Option String := (event.get "name").bind Value.asStr

/-- An event under its exposed name. -/
def exposedEvent (toolNamespace : Option String) (event : Value) : Value :=
  match eventName event with
  | some name => event.setField "name" (.string (computeExposedName toolNamespace name))
  | none => event

/-- The advertisers of events. -/
def eventBackends (s : RegistryWorld ι) : List String := Registry.advertisers "events" s.backends

theorem wp_exposeEvents {id : String} {events : List Value} {s : SessionWorld ι} :
    (sessionMachine ι).wp i (Session.exposeEvents id events)
      (fun x t => t = s ∧ x = .done (events.map (exposedEvent (s.registry.namespaceOf id)))) s := by
  induction events with
  | nil => exact ⟨rfl, rfl⟩
  | cons event events ih =>
    simp only [Session.exposeEvents, Session.exposedEventName, Prog.bind_eq]
    rcases hname : (event.get "name").bind Value.asStr with _ | name
    · rw [Machine.wp_bind]
      refine Machine.wp_mono _ ih ?_
      rintro x t ⟨rfl, rfl⟩
      exact ⟨rfl, by simp [exposedEvent, eventName, hname]⟩
    · dsimp only
      rw [Prog.bind_assoc, Machine.wp_bind, wp_registryDo]
      refine wp_toolNamespace ?_
      dsimp only [Machine.andThen]
      rw [Prog.ret_bind, Machine.wp_bind]
      refine Machine.wp_mono _ ih ?_
      rintro x t ⟨rfl, rfl⟩
      exact ⟨rfl, by simp [exposedEvent, eventName, hname]⟩

/-- An event that a backend lists under its own name: the backend answered a request of
this run with it. -/
def Lists (s t : RegistryWorld ι) (id : String) (event : Value) : Prop :=
  ∃ handle r result, s.backends.get id = some handle ∧ r ∈ t.forwarded ∧
    r.object = handle.object ∧ r.method = "events/list" ∧ r.answer = .ok result ∧
    event ∈ eventsOf result

/-- What listing the events of some backends leaves: it asked only them, and yields their
events under their exposed names. -/
structure ListedFrom (ids : List String) (s t : SessionWorld ι) (all : List Value) : Prop where
  backends : t.registry.backends = s.registry.backends
  initialized : t.initialized = s.initialized
  kept : ∀ r ∈ s.registry.forwarded, r ∈ t.registry.forwarded
  asked : ∀ r ∈ t.registry.forwarded, r ∈ s.registry.forwarded ∨
    ∃ id ∈ ids, ∃ handle, s.registry.backends.get id = some handle ∧ r.object = handle.object
  events : ∀ event ∈ all, ∃ id ∈ ids, ∃ raw, Lists s.registry t.registry id raw ∧
    event = exposedEvent (s.registry.namespaceOf id) raw

/-- Events that are listed before others. -/
theorem ListedFrom.cons {id : String} {ids : List String} {s t u : SessionWorld ι}
    {events all : List Value} (hst : ListedFrom [id] s t events) (htu : ListedFrom ids t u all) :
    ListedFrom (id :: ids) s u (events ++ all) := by
  have hsame : t.registry.namespaceOf = s.registry.namespaceOf := by
    funext id'
    rw [RegistryWorld.namespaceOf, RegistryWorld.namespaceOf, hst.backends]
  refine ⟨htu.backends.trans hst.backends, htu.initialized.trans hst.initialized,
    fun r hr => htu.kept r (hst.kept r hr), fun r hr => ?_, fun event hevent => ?_⟩
  · rcases htu.asked r hr with hr | ⟨id', hid, handle, hget, hobject⟩
    · refine (hst.asked r hr).imp_right ?_
      rintro ⟨id', hid, hrest⟩
      obtain rfl := List.mem_singleton.mp hid
      exact ⟨_, List.mem_cons_self, hrest⟩
    · exact .inr ⟨id', List.mem_cons_of_mem _ hid, handle, hst.backends ▸ hget, hobject⟩
  · rcases List.mem_append.mp hevent with hevent | hevent
    · obtain ⟨id', hid, raw, ⟨handle, r, result, hget, hr, hrest⟩, heq⟩ := hst.events event hevent
      obtain rfl := List.mem_singleton.mp hid
      exact ⟨_, List.mem_cons_self, raw, ⟨handle, r, result, hget, htu.kept r hr, hrest⟩, heq⟩
    · obtain ⟨id', hid, raw, ⟨handle, r, result, hget, hrest⟩, heq⟩ := htu.events event hevent
      rw [hsame] at heq
      exact ⟨id', List.mem_cons_of_mem _ hid, raw, ⟨handle, r, result, hst.backends ▸ hget, hrest⟩,
        heq⟩

theorem wp_listEvents {ids : List String} {s : SessionWorld ι}
    (hids : ∀ id ∈ ids, ∃ handle, s.registry.backends.get id = some handle) :
    (sessionMachine ι).wp i (Session.listEvents ids)
      (fun x t => ∃ all, x = .done all ∧ ListedFrom ids s t all) s := by
  induction ids generalizing s with
  | nil => exact ⟨[], rfl, rfl, rfl, fun _ h => h, fun _ h => .inl h,
      fun _ h => absurd h List.not_mem_nil⟩
  | cons id ids ih =>
    obtain ⟨handle, hget⟩ := hids id List.mem_cons_self
    simp only [Session.listEvents, Prog.bind_eq]
    rw [Machine.wp_bind, wp_registryDo]
    refine wp_backendRequest hget fun answer => ?_
    -- the answer is on record; the rest starts from there
    let r : Forwarded ι := ⟨i, handle.object, "events/list", none, answer⟩
    let t : SessionWorld ι :=
      { s with registry := { s.registry with forwarded := r :: s.registry.forwarded } }
    have hasked : ∀ r' ∈ t.registry.forwarded, r' ∈ s.registry.forwarded ∨
        ∃ id' ∈ [id], ∃ handle, s.registry.backends.get id' = some handle ∧
          r'.object = handle.object := by
      intro r' hr
      rcases List.mem_cons.mp hr with rfl | hr
      · exact .inr ⟨id, List.mem_singleton.mpr rfl, handle, hget, rfl⟩
      · exact .inl hr
    have rest : (sessionMachine ι).wp i (Session.listEvents ids)
        (fun x u => ∃ all, x = .done all ∧ ListedFrom ids t u all) t :=
      ih fun id' hid => hids id' (List.mem_cons_of_mem _ hid)
    dsimp only [Machine.andThen]
    rcases answer with err | result
    · refine Machine.wp_mono _ rest ?_
      rintro x u ⟨all, rfl, hu⟩
      have hst : ListedFrom [id] s t [] := ⟨rfl, rfl, fun r' hr => List.mem_cons_of_mem _ hr,
        hasked, fun _ h => absurd h List.not_mem_nil⟩
      exact ⟨all, rfl, hst.cons hu⟩
    · rw [Machine.wp_bind]
      refine Machine.wp_mono _ wp_exposeEvents ?_
      rintro x u ⟨rfl, rfl⟩
      dsimp only [Machine.andThen]
      rw [Machine.wp_bind]
      refine Machine.wp_mono _ rest ?_
      rintro x u ⟨all, rfl, hu⟩
      have hst : ListedFrom [id] s t
          ((eventsOf result).map (exposedEvent (t.registry.namespaceOf id))) := by
        refine ⟨rfl, rfl, fun r' hr => List.mem_cons_of_mem _ hr, hasked, fun event hevent => ?_⟩
        obtain ⟨raw, hraw, rfl⟩ := List.mem_map.mp hevent
        exact ⟨id, List.mem_singleton.mpr rfl, raw,
          ⟨handle, r, result, hget, List.mem_cons_self, rfl, rfl, rfl, hraw⟩, rfl⟩
      exact ⟨_, rfl, hst.cons hu⟩

/-- A request that passes `require_initialized`. -/
def Accepted (ctx : RequestCtx) (s : SessionWorld ι) : Prop :=
  ctx.isModern = true ∨ s.initialized = true

theorem wp_requireInitialized {ctx : RequestCtx} {Q : Outcome (Except JsonRpcError Unit) →
    SessionWorld ι → Prop} {s : SessionWorld ι} (hok : Accepted ctx s → Q (.done (.ok ())) s)
    (hrefused : ¬ Accepted ctx s → ∀ err, Q (.done (.error err)) s) :
    (sessionMachine ι).wp i (Session.requireInitialized ctx) Q s := by
  simp only [Session.requireInitialized, Prog.bind_eq, Prog.perform_bind]
  split
  · rename_i hmodern
    exact hok (.inl hmodern)
  · rename_i hlegacy
    rintro e b t he
    obtain ⟨rfl, rfl⟩ := Prod.mk.inj (Option.some.inj he)
    dsimp only
    split
    · rename_i hinit
      exact hok (.inr hinit)
    · rename_i hinit
      exact hrefused (fun h => h.elim hlegacy hinit) _

/-- `events/list` asks the advertisers and lists their events under their exposed names. -/
theorem wp_handleEventsList {ctx : RequestCtx} {s : SessionWorld ι}
    (hdistinct : Distinct s.registry) :
    (sessionMachine ι).wp i (Session.handleEventsList ctx)
      (fun x t => ∀ reply, x = .done (.ok reply) →
        ListedFrom (eventBackends s.registry) s t (eventsOf reply)) s := by
  simp only [Session.handleEventsList, Prog.bind_eq]
  rw [Machine.wp_bind]
  refine wp_requireInitialized (fun _ => ?_) fun _ err reply h => nomatch h
  dsimp only [Machine.andThen]
  rw [Machine.wp_bind, wp_registryDo]
  refine wp_backendsWith hdistinct.ids ?_
  dsimp only [Machine.andThen]
  rw [Machine.wp_bind]
  refine Machine.wp_mono _ (wp_listEvents fun id hid =>
    registered_of_advertiser hdistinct.ids hid) ?_
  rintro x t ⟨all, rfl, hlisted⟩ reply hreply
  cases hreply
  exact hlisted

/-! ## Who gets a subscription -/

/-- A backend can own an event name. This is the test of `forward_event_request`, which takes the
first backend that passes it. -/
def CanOwn (s : RegistryWorld ι) (name id : String) : Bool :=
  (downstreamOf (s.namespaceOf id) name).isSome

theorem wp_findOwner {name : String} {ids : List String} {s : SessionWorld ι} :
    (sessionMachine ι).wp i (Session.findOwner name ids)
      (fun x t => t = s ∧ ∃ owner, x = .done owner ∧
        owner.map Prod.fst = ids.find? (CanOwn s.registry name) ∧
        ∀ id original, owner = some (id, original) →
          downstreamOf (s.registry.namespaceOf id) name = some original) s := by
  induction ids with
  | nil => exact ⟨rfl, none, rfl, rfl, fun _ _ h => nomatch h⟩
  | cons id ids ih =>
    simp only [Session.findOwner, Prog.bind_eq]
    rw [Machine.wp_bind, wp_registryDo]
    refine wp_toolNamespace ?_
    dsimp only [Machine.andThen]
    rcases hdown : downstreamOf (s.registry.namespaceOf id) name with _ | original
    · have hcannot : CanOwn s.registry name id = false := by simp [CanOwn, hdown]
      rw [List.find?_cons_of_neg (by simp [hcannot])]
      exact ih
    · have hcan : CanOwn s.registry name id = true := by simp [CanOwn, hdown]
      rw [List.find?_cons_of_pos hcan]
      refine ⟨rfl, _, rfl, rfl, fun id' original' h => ?_⟩
      obtain ⟨rfl, rfl⟩ := Prod.mk.inj (Option.some.inj h)
      exact hdown

/-- An accepted event request goes to the first advertiser that can own the name, under
the name there. -/
theorem wp_forwardEventRequest {method name : String} {params : Value} {ctx : RequestCtx}
    {s : SessionWorld ι} (hdistinct : Distinct s.registry)
    (hname : params.get "name" = some (.string name)) (haccepted : Accepted ctx s) :
    (sessionMachine ι).wp i (Session.forwardEventRequest method (some params) ctx)
      (fun _ t => match (eventBackends s.registry).find? (CanOwn s.registry name) with
        | none => t = s
        | some id => ∃ original handle answer,
            downstreamOf (s.registry.namespaceOf id) name = some original ∧
            s.registry.backends.get id = some handle ∧
            t.registry.forwarded = ⟨i, handle.object, method,
              some (params.setField "name" (.string original)), answer⟩ ::
                s.registry.forwarded) s := by
  have hstr : (params.get "name").bind Value.asStr = some name := by rw [hname]; rfl
  simp only [Session.forwardEventRequest, Prog.bind_eq, hstr]
  rw [Machine.wp_bind]
  refine wp_requireInitialized (fun _ => ?_) fun h => absurd haccepted h
  dsimp only [Machine.andThen]
  rw [Machine.wp_bind, wp_registryDo]
  refine wp_backendsWith hdistinct.ids ?_
  dsimp only [Machine.andThen]
  rw [Machine.wp_bind]
  refine Machine.wp_mono _ wp_findOwner ?_
  rintro x t ⟨rfl, owner, rfl, hfind, hdown⟩
  rw [eventBackends, ← hfind]
  rcases owner with _ | ⟨id, original⟩
  · rfl
  · have hmem := List.mem_of_find?_eq_some hfind.symm
    obtain ⟨handle, hget⟩ := registered_of_advertiser hdistinct.ids hmem
    dsimp only [Machine.andThen]
    rw [Machine.wp_bind, wp_registryDo]
    refine wp_backendRequest hget fun answer => ?_
    dsimp only [Machine.andThen]
    rcases answer with err | v
    · exact ⟨original, handle, _, hdown id original rfl, hget, rfl⟩
    · exact ⟨original, handle, _, hdown id original rfl, hget, rfl⟩

end Handlers

/-! ## Listing and subscribing -/

/-- A backend with a smaller id that can own the name as well: it has no namespace, or its
namespace and a dot are how the name starts. -/
def Shadowed (s : RegistryWorld ι) (id name : String) : Prop :=
  ∃ id' ∈ eventBackends s, id' < id ∧
    ∀ ns, s.namespaceOf id' = some ns → ∃ rest, name = s!"{ns}." ++ rest

theorem canOwn_iff {s : RegistryWorld ι} {name id : String} :
    CanOwn s name id = true ↔
      ∀ ns, s.namespaceOf id = some ns → ∃ rest, name = s!"{ns}." ++ rest := by
  rcases hns : s.namespaceOf id with _ | ns
  · simp [CanOwn, hns, downstreamOf]
  · simp only [CanOwn, hns, downstreamOf, Option.isSome_iff_exists, Option.some.injEq, forall_eq']
    constructor
    · rintro ⟨rest, h⟩
      exact ⟨rest, append_of_stripPrefix h⟩
    · rintro ⟨rest, rfl⟩
      exact ⟨rest, stripPrefix_append _ _⟩

/-- Objects tell the backends apart. -/
theorem Distinct.id_eq {s : RegistryWorld ι} (hdistinct : Distinct s) {id id' : String}
    {handle handle' : BackendHandle} (hget : s.backends.get id = some handle)
    (hget' : s.backends.get id' = some handle') (hobject : handle.object = handle'.object) :
    id = id' :=
  congrArg Prod.fst (List.inj_on_of_nodup_map hdistinct.objects (Entries.mem_of_get hget)
    (Entries.mem_of_get hget') hobject)

/-- A request went to a backend and nowhere else. It is the one request of the call, whatever came
of it. -/
def SentTo (i : ι) (s t u : RegistryWorld ι) (id method : String) (params : Value) : Prop :=
  ∃ handle answer, s.backends.get id = some handle ∧
    u.forwarded = ⟨i, handle.object, method, some params, answer⟩ :: t.forwarded

/-- Every operation of a registry can be performed. -/
theorem registry_total (i : ι) (β : Type) (o : RegistryOp β) (s : RegistryWorld ι) :
    ∃ r, (registryMachine ι).exec i β o {} s = some r := by
  cases o <;> simp only [registryMachine, RegistryWorld.exec] <;>
    first
      | exact ⟨_, rfl⟩
      | (split <;> exact ⟨_, rfl⟩)

/-- Every operation of a session can be performed. -/
theorem session_total (i : ι) (β : Type) (o : SessionOp β) (s : SessionWorld ι) :
    ∃ e r, (sessionMachine ι).exec i β o e s = some r := by
  refine ⟨{}, ?_⟩
  cases o with
  | registry o =>
    obtain ⟨r, hr⟩ := registry_total i β o s.registry
    exact ⟨_, congrArg (Option.map _) hr⟩
  | isInitialized => exact ⟨_, rfl⟩
  | setInitialized => exact ⟨_, rfl⟩
  | notifyToolsListChanged => exact ⟨_, rfl⟩

/-- **A listed event can be subscribed to exactly when no earlier backend shadows it.**
When `events/list` has returned an event that a backend calls `name`, every accepted
`events/subscribe` and `events/unsubscribe` for its exposed name is forwarded to that
backend under `name`, if and only if no backend with a smaller id can own the exposed
name too. -/
theorem event_forwarded_iff {i : ι} {ctx : RequestCtx} {s t : SessionWorld ι}
    {es : List RegistryChoice} {reply : Value} {id name : String}
    (hdistinct : Distinct s.registry) (hrecord : s.registry.forwarded = [])
    (hlist : (sessionMachine ι).solo i (Session.handleEventsList ctx) es s =
      some (.done (.ok reply), t))
    (hname : ∃ event, Lists s.registry t.registry id event ∧ eventName event = some name) :
    (∀ method ∈ ["events/subscribe", "events/unsubscribe"], ∀ params ctx',
      params.get "name" =
          some (.string (computeExposedName (s.registry.namespaceOf id) name)) →
        Accepted ctx' t → ∀ es' x u,
        (sessionMachine ι).solo i (Session.forwardEventRequest method (some params) ctx') es' t =
            some (x, u) →
          SentTo i s.registry t.registry u.registry id method
            (params.setField "name" (.string name))) ↔
      ¬ Shadowed s.registry id (computeExposedName (s.registry.namespaceOf id) name) := by
  have hlisted := Machine.wp_solo _ (wp_handleEventsList hdistinct) hlist reply rfl
  generalize hexposed : computeExposedName (s.registry.namespaceOf id) name = exposed
  have hdown : downstreamOf (s.registry.namespaceOf id) exposed = some name := by
    rw [← hexposed, downstreamOf_computeExposedName]
  -- listing has not changed the backends
  have hbackends := hlisted.backends
  have hdistinct' : Distinct t.registry :=
    ⟨hbackends ▸ hdistinct.ids, hbackends ▸ hdistinct.objects⟩
  have hnamespace : t.registry.namespaceOf = s.registry.namespaceOf := by
    funext id'
    rw [RegistryWorld.namespaceOf, RegistryWorld.namespaceOf, hbackends]
  have hsorted : (eventBackends t.registry).Pairwise (· < ·) := advertisers_sorted hdistinct'.ids
  have hsame : eventBackends t.registry = eventBackends s.registry := by
    rw [eventBackends, eventBackends, hbackends]
  -- the backend was asked, so it is an advertiser
  obtain ⟨event, ⟨handle, r, result, hget, hr, hobject, -⟩, -⟩ := hname
  have hmem : id ∈ eventBackends s.registry := by
    rcases hlisted.asked r hr with hold | ⟨id', hid', handle', hget', hobject'⟩
    · rw [hrecord] at hold
      exact absurd hold List.not_mem_nil
    · rwa [hdistinct.id_eq hget hget' (hobject.symm.trans hobject')]
  have hcan : CanOwn t.registry exposed id = true := by
    rw [CanOwn, hnamespace, hdown]
    rfl
  have hcan_iff (id' : String) : CanOwn t.registry exposed id' = true ↔
      ∀ ns, s.registry.namespaceOf id' = some ns → ∃ rest, exposed = s!"{ns}." ++ rest := by
    rw [canOwn_iff, hnamespace]
  constructor
  · rintro hsent ⟨id', hid', hlt, howns⟩
    -- some backend gets the subscription, but not the one that lists the event
    let params : Value := .object [("name", .string exposed)]
    have hparams : params.get "name" = some (.string exposed) := rfl
    have haccepted : Accepted ⟨some ""⟩ t := .inl rfl
    obtain ⟨es', ⟨x, u⟩, hsolo⟩ := (sessionMachine ι).exists_solo (session_total i)
      (Session.forwardEventRequest "events/subscribe" (some params) ⟨some ""⟩) t
    have hspec := Machine.wp_solo _ (wp_forwardEventRequest hdistinct' hparams haccepted) hsolo
    obtain ⟨handle', answer', hget', hforwarded'⟩ := hsent _ List.mem_cons_self params _ hparams
      haccepted es' x u hsolo
    have hcan' : CanOwn t.registry exposed id' = true := (hcan_iff id').mpr howns
    rcases hfind : (eventBackends t.registry).find? (CanOwn t.registry exposed) with _ | first
    · have := List.find?_eq_none.mp hfind id' (hsame ▸ hid')
      exact this hcan'
    · rw [hfind] at hspec
      obtain ⟨original, handle'', answer'', -, hget'', hforwarded''⟩ := hspec
      rw [hforwarded''] at hforwarded'
      have hobject' : handle''.object = handle'.object :=
        congrArg Forwarded.object (List.cons.inj hforwarded').1
      rw [hbackends] at hget''
      obtain rfl := hdistinct.id_eq hget'' hget' hobject'
      obtain ⟨-, -, hleast⟩ := (find?_eq_some_iff_of_sorted hsorted).mp hfind
      rw [hleast id' (hsame ▸ hid') hlt] at hcan'
      cases hcan'
  · rintro hshadow method - params ctx' hparams haccepted es' x u hsolo
    have hspec := Machine.wp_solo _ (wp_forwardEventRequest hdistinct' hparams haccepted) hsolo
    have hfind : (eventBackends t.registry).find? (CanOwn t.registry exposed) = some id := by
      refine (find?_eq_some_iff_of_sorted hsorted).mpr ⟨hsame ▸ hmem, hcan, fun id' hid' hlt => ?_⟩
      by_contra hcan'
      rw [Bool.not_eq_false] at hcan'
      exact hshadow ⟨id', hsame ▸ hid', hlt, (hcan_iff id').mp hcan'⟩
    rw [hfind] at hspec
    obtain ⟨original, handle', answer, hdown', hget', hforwarded⟩ := hspec
    rw [hnamespace, hdown] at hdown'
    obtain rfl := Option.some.inj hdown'
    exact ⟨handle', answer, hbackends ▸ hget', hforwarded⟩

/-! ### Two backends with events -/

/-- A backend without filters or pins. -/
def eventBackend (id : String) (toolNamespace : Option String) : BackendDef where
  id := id
  transport := .stdio id [] [] none
  toolNamespace := toolNamespace
  connectionMode := .eager
  connectTimeoutSecs := 10
  callTimeoutSecs := 30
  toolsAllow := []
  toolsDeny := []
  unavailableHint := none
  forwardRequestMeta := false
  pinArgs := []
  pinArgsUnique := List.nodup_nil
  denyArgs := []

/-- Two healthy backends that advertise events, the second one in the namespace `vpn`. -/
def eventHub (first : Option String) : SessionWorld Unit :=
  let capabilities : ServerCapabilities := ⟨none, none, none, some (.object [])⟩
  ⟨⟨[("a", ⟨eventBackend "a" first, 0, true, some capabilities, 0⟩),
    ("b", ⟨eventBackend "b" (some "vpn"), 1, true, some capabilities, 0⟩)], [], []⟩, true, 0⟩

theorem eventHub_distinct (first : Option String) : Distinct (eventHub first).registry :=
  ⟨(by decide : ["a", "b"].Nodup), (by decide : [0, 1].Nodup)⟩

/-- The second backend has one event, the first has none. -/
def oneEvent : Value := .object [("events", .array [.object [("name", .string "up")]])]

/-- The state after the events were listed. -/
def eventHubListed (first : Option String) : SessionWorld Unit :=
  { eventHub first with registry := { (eventHub first).registry with
    forwarded := [⟨(), 1, "events/list", none, .ok oneEvent⟩,
      ⟨(), 0, "events/list", none, .ok (.object [])⟩] } }

/-- Next to a namespace of its own the event goes to the backend that lists it. -/
theorem subscription_next_to_a_namespace :
    ¬ Shadowed (eventHub (some "cloud")).registry "b" "vpn.up" ∧
    ∀ method ∈ ["events/subscribe", "events/unsubscribe"], ∀ params ctx',
      params.get "name" = some (.string "vpn.up") →
        Accepted ctx' (eventHubListed (some "cloud")) → ∀ es' x u,
        (sessionMachine Unit).solo () (Session.forwardEventRequest method (some params) ctx') es'
            (eventHubListed (some "cloud")) = some (x, u) →
          SentTo () (eventHub (some "cloud")).registry (eventHubListed (some "cloud")).registry
            u.registry "b" method (params.setField "name" (.string "up")) := by
  have hlist : (sessionMachine Unit).solo () (Session.handleEventsList ⟨none⟩)
      [{}, {}, {}, { value := .ok (.object []) }, {}, { value := .ok oneEvent }, {}]
      (eventHub (some "cloud")) = some (.done (.ok (.object [("events",
        .array [.object [("name", .string "vpn.up")]])])), eventHubListed (some "cloud")) := rfl
  have hlists : Lists (eventHub (some "cloud")).registry (eventHubListed (some "cloud")).registry
      "b" (.object [("name", .string "up")]) :=
    ⟨⟨eventBackend "b" (some "vpn"), 1, true, some ⟨none, none, none, some (.object [])⟩, 0⟩,
      ⟨(), 1, "events/list", none, .ok oneEvent⟩, oneEvent, rfl, List.mem_cons_self, rfl, rfl, rfl,
      List.mem_cons_self⟩
  have hclear : ¬ Shadowed (eventHub (some "cloud")).registry "b" "vpn.up" := by
    rintro ⟨id', hid', hlt, hown⟩
    have hbackends : eventBackends (eventHub (some "cloud")).registry = ["a", "b"] := rfl
    rw [hbackends] at hid'
    rcases List.mem_cons.mp hid' with rfl | hid'
    · have hcannot : CanOwn (eventHub (some "cloud")).registry "vpn.up" "a" = false := rfl
      exact absurd (canOwn_iff.mpr hown) (by rw [Bool.not_eq_true]; exact hcannot)
    · obtain rfl := List.mem_singleton.mp hid'
      exact absurd hlt (lt_irrefl _)
  refine ⟨hclear, ?_⟩
  exact (event_forwarded_iff (eventHub_distinct _) rfl hlist ⟨_, hlists, rfl⟩).mpr hclear

/-- A backend without a namespace, and with a smaller id, takes the subscription: the only
listed event belongs to the second backend, but the first one gets the request. -/
theorem subscription_is_misrouted :
    ∃ es es' x u, (sessionMachine Unit).solo () (Session.handleEventsList ⟨none⟩) es
        (eventHub none) = some (.done (.ok (.object [("events",
          .array [.object [("name", .string "vpn.up")]])])), eventHubListed none) ∧
      (sessionMachine Unit).solo () (Session.forwardEventRequest "events/subscribe"
        (some (.object [("name", .string "vpn.up")])) ⟨none⟩) es' (eventHubListed none) =
          some (x, u) ∧
      u.registry.forwarded.head? = some ⟨(), 0, "events/subscribe",
        some (.object [("name", .string "vpn.up")]), .ok .null⟩ ∧
      ¬ SentTo () (eventHub none).registry (eventHubListed none).registry u.registry "b"
        "events/subscribe" (.object [("name", .string "up")]) := by
  refine ⟨[{}, {}, {}, { value := .ok (.object []) }, {}, { value := .ok oneEvent }, {}],
    [{}, {}, {}, {}, { value := .ok .null }], _, _, rfl, rfl, rfl, ?_⟩
  rintro ⟨handle, answer, hget, hforwarded⟩
  obtain rfl := Option.some.inj hget
  have hobject : 0 = 1 := congrArg Forwarded.object (List.cons.inj hforwarded).1
  cases hobject

end HeadlessMcp
