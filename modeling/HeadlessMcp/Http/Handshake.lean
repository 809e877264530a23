import HeadlessMcp.Async.Rely
import HeadlessMcp.Http.Traffic
import HeadlessMcp.Http.World

/-!
# Handshakes start new sessions

A re-initialisation takes the session id away before it sends `initialize`, but `connect`
does not: after a `disconnect` the old id is still there and goes out with the new
handshake. `FreshStart` is the condition under which that cannot happen: a handshake sets
out only while no session id is stored, and none is stored before it has read the id.
-/

namespace HeadlessMcp

open Async

/-! ## The invariant -/

section Invariant

variable {ι : Type} [DecidableEq ι]

/-- Handshakes that set out with `connect` find no session id, and nobody stores one while
a handshake has still to read it. -/
def FreshStart (ι : Type) : Rule HttpOp ι HttpChoice (HttpWorld ι)
  | _, _, .needsHandshake, _, s => s.connected = false → s.sessionId = none
  | _, _, .storeSession _, _, s => s.opening = []
  | _, _, .restoreSession stale, _, s =>
    s.sessionId = none → stale.isSome = true → s.opening = []
  | _, _, _, _, _ => True

instance (i : ι) (β : Type) (o : HttpOp β) (e : HttpChoice) (s : HttpWorld ι) :
    Decidable (FreshStart ι i β o e s) :=
  match o with
  | .needsHandshake => inferInstanceAs (Decidable (s.connected = false → s.sessionId = none))
  | .storeSession _ => inferInstanceAs (Decidable (s.opening = []))
  | .restoreSession stale =>
    inferInstanceAs (Decidable (s.sessionId = none → stale.isSome = true → s.opening = []))
  | .oauth _ | .nextId | .loadSession | .takeSession | .loadEpoch | .bumpEpoch | .lockReinit
  | .unlockReinit | .isConnected | .setConnected _ | .loadInit | .storeInit _ | .setRefresh
  | .takeRefresh | .loadParamHeaders | .storeParamHeaders _ | .loadClient | .storeClient _
  | .post _ => .isTrue trivial

/-- No `initialize` request has carried a session id, and none is stored while a handshake
has still to read it. -/
structure Clean (s : HttpWorld ι) : Prop where
  seen : ∀ r ∈ s.seen, r.1.message.isInitialize = true → r.1.sessionId = none
  opening : ∀ i ∈ s.opening, s.sessionId = none

variable {i : ι} {β : Type} {o : HttpOp β} {e : HttpChoice} {s t : HttpWorld ι} {b : β}

/-- An operation that sends nothing keeps the invariant, and every other caller on its
handshake. -/
theorem Clean.quiet (hs : Clean s) (ho : o.posted = none) (hC : FreshStart ι i β o e s)
    (h : (httpMachine ι).exec i β o e s = some (b, t)) :
    Clean t ∧ ∀ j, j ≠ i → j ∈ s.opening → j ∈ t.opening := by
  have unchanged : Clean s ∧ ∀ j, j ≠ i → j ∈ s.opening → j ∈ s.opening := ⟨hs, fun _ _ h => h⟩
  cases o with
  | oauth o =>
    obtain ⟨r, -, heq⟩ := Option.map_eq_some_iff.mp h
    obtain ⟨-, rfl⟩ := Prod.mk.inj heq
    exact ⟨⟨hs.seen, hs.opening⟩, fun _ _ h => h⟩
  | loadSession =>
    obtain ⟨-, rfl⟩ := Prod.mk.inj (Option.some.inj h)
    refine ⟨⟨hs.seen, fun j hj => hs.opening j (List.mem_filter.mp hj).1⟩, fun j hj hmem => ?_⟩
    exact List.mem_filter.mpr ⟨hmem, by simpa using hj⟩
  | storeSession sid =>
    obtain ⟨-, rfl⟩ := Prod.mk.inj (Option.some.inj h)
    have hnone : s.opening = [] := hC
    refine ⟨⟨hs.seen, fun j hj => ?_⟩, fun _ _ h => h⟩
    rw [hnone] at hj
    exact absurd hj List.not_mem_nil
  | takeSession =>
    obtain ⟨-, rfl⟩ := Prod.mk.inj (Option.some.inj h)
    exact ⟨⟨hs.seen, fun _ _ => rfl⟩, fun _ _ h => List.mem_cons_of_mem _ h⟩
  | restoreSession stale =>
    obtain ⟨-, rfl⟩ := Prod.mk.inj (Option.some.inj h)
    refine ⟨⟨hs.seen, fun j hj => ?_⟩, fun _ _ h => h⟩
    have hsession := hs.opening j hj
    have hback : s.sessionId = none → stale.isSome = true → s.opening = [] := hC
    rcases stale with _ | sid
    · simpa using hsession
    · rw [hback hsession rfl] at hj
      exact absurd hj List.not_mem_nil
  | lockReinit =>
    simp only [httpMachine, HttpWorld.exec] at h
    split at h
    · obtain ⟨-, rfl⟩ := Prod.mk.inj (Option.some.inj h)
      exact ⟨⟨hs.seen, hs.opening⟩, fun _ _ h => h⟩
    · cases h
  | needsHandshake =>
    have hfresh : s.connected = false → s.sessionId = none := hC
    simp only [httpMachine, HttpWorld.exec] at h
    split at h
    · obtain ⟨-, rfl⟩ := Prod.mk.inj (Option.some.inj h)
      exact unchanged
    · rename_i hconnected
      obtain ⟨-, rfl⟩ := Prod.mk.inj (Option.some.inj h)
      rw [Bool.not_eq_true] at hconnected
      exact ⟨⟨hs.seen, fun _ _ => hfresh hconnected⟩, fun _ _ h => List.mem_cons_of_mem _ h⟩
  | post request => cases ho
  | nextId => cases h; exact ⟨⟨hs.seen, hs.opening⟩, fun _ _ h => h⟩
  | loadEpoch => cases h; exact unchanged
  | bumpEpoch => cases h; exact ⟨⟨hs.seen, hs.opening⟩, fun _ _ h => h⟩
  | unlockReinit => cases h; exact ⟨⟨hs.seen, hs.opening⟩, fun _ _ h => h⟩
  | isConnected => cases h; exact unchanged
  | setConnected connected => cases h; exact ⟨⟨hs.seen, hs.opening⟩, fun _ _ h => h⟩
  | loadInit => cases h; exact unchanged
  | storeInit init => cases h; exact ⟨⟨hs.seen, hs.opening⟩, fun _ _ h => h⟩
  | setRefresh => cases h; exact ⟨⟨hs.seen, hs.opening⟩, fun _ _ h => h⟩
  | takeRefresh => cases h; exact ⟨⟨hs.seen, hs.opening⟩, fun _ _ h => h⟩
  | loadParamHeaders => cases h; exact unchanged
  | storeParamHeaders headers => cases h; exact ⟨⟨hs.seen, hs.opening⟩, fun _ _ h => h⟩
  | loadClient => cases h; exact unchanged
  | storeClient bearer => cases h; exact ⟨⟨hs.seen, hs.opening⟩, fun _ _ h => h⟩

/-- An operation that neither sends anything nor reads the session id. -/
def HttpOp.Aside {β : Type} : HttpOp β → Prop
  | .post _ | .loadSession => False
  | _ => True

/-- Such an operation keeps the caller itself on its handshake too. -/
theorem opening_aside (ho : o.Aside) (h : (httpMachine ι).exec i β o e s = some (b, t))
    (hi : i ∈ s.opening) : i ∈ t.opening := by
  cases o with
  | oauth o =>
    obtain ⟨r, -, heq⟩ := Option.map_eq_some_iff.mp h
    obtain ⟨-, rfl⟩ := Prod.mk.inj heq
    exact hi
  | loadSession => exact False.elim ho
  | post request => exact False.elim ho
  | takeSession =>
    obtain ⟨-, rfl⟩ := Prod.mk.inj (Option.some.inj h)
    exact List.mem_cons_self
  | lockReinit =>
    simp only [httpMachine, HttpWorld.exec] at h
    split at h
    · obtain ⟨-, rfl⟩ := Prod.mk.inj (Option.some.inj h)
      exact hi
    · cases h
  | needsHandshake =>
    simp only [httpMachine, HttpWorld.exec] at h
    split at h
    · obtain ⟨-, rfl⟩ := Prod.mk.inj (Option.some.inj h)
      exact hi
    · obtain ⟨-, rfl⟩ := Prod.mk.inj (Option.some.inj h)
      exact List.mem_cons_of_mem _ hi
  | nextId => cases h; exact hi
  | storeSession sid => cases h; exact hi
  | restoreSession stale => cases h; exact hi
  | loadEpoch => cases h; exact hi
  | bumpEpoch => cases h; exact hi
  | unlockReinit => cases h; exact hi
  | isConnected => cases h; exact hi
  | setConnected connected => cases h; exact hi
  | loadInit => cases h; exact hi
  | storeInit init => cases h; exact hi
  | setRefresh => cases h; exact hi
  | takeRefresh => cases h; exact hi
  | loadParamHeaders => cases h; exact hi
  | storeParamHeaders headers => cases h; exact hi
  | loadClient => cases h; exact hi
  | storeClient bearer => cases h; exact hi

/-- Sending a request that is not an `initialize` with a session id keeps the invariant. -/
theorem Clean.post {request : HttpRequest} {b : HttpReply} (hs : Clean s)
    (hrequest : request.message.isInitialize = true → request.sessionId = none)
    (h : (httpMachine ι).exec i _ (.post request) e s = some (b, t)) :
    Clean t ∧ t.opening = s.opening := by
  obtain ⟨-, rfl⟩ := Prod.mk.inj (Option.some.inj h)
  refine ⟨⟨fun r hr hinit => ?_, hs.opening⟩, rfl⟩
  rcases List.mem_cons.mp hr with rfl | hr
  · exact hrequest hinit
  · exact hs.seen r hr hinit

/-! ## The programs -/

/-- The discipline of the callers: the invariant holds throughout, and nobody takes another
caller off its handshake. -/
def sessionProtocol (ι : Type) [DecidableEq ι] : Protocol ι (HttpWorld ι) where
  inv := Clean
  rely i s t := i ∈ s.opening → i ∈ t.opening
  rely_refl _ _ h := h
  rely_trans _ _ _ _ hst htu h := htu (hst h)

section Walk

variable {α : Type}

/-- Safe under the discipline, in runs whose handshakes start fresh. -/
abbrev SessionSafe (i : ι) (p : Prog HttpOp α) (Q : Outcome α → HttpWorld ι → Prop)
    (s : HttpWorld ι) : Prop :=
  (sessionProtocol ι).Safe (httpMachine ι) (FreshStart ι) i p Q s

/-- The program keeps the discipline from every state. -/
abbrev SessionKeeps (i : ι) (p : Prog HttpOp α) : Prop :=
  ∀ s, SessionSafe i p (fun _ _ => True) s

/-- An operation that sends nothing, then the rest. -/
theorem safe_quietOp {k : β → Prog HttpOp α} {Q : Outcome α → HttpWorld ι → Prop}
    (ho : o.posted = none) (hk : ∀ b t, SessionSafe i (k b) Q t) :
    SessionSafe i (.op o k) Q s := by
  refine Protocol.safe_op fun s' _ hi e b t hC he => ?_
  obtain ⟨ht, hothers⟩ := Clean.quiet hi ho hC he
  exact ⟨⟨ht, hothers⟩, hk b t⟩

/-- A request that is not an `initialize` with a session id, then the rest. -/
theorem safe_post {request : HttpRequest} {k : HttpReply → Prog HttpOp α}
    {Q : Outcome α → HttpWorld ι → Prop}
    (hrequest : request.message.isInitialize = true → request.sessionId = none)
    (hk : ∀ b t, SessionSafe i (k b) Q t) : SessionSafe i (.op (.post request) k) Q s := by
  refine Protocol.safe_op fun s' _ hi e b t _ he => ?_
  obtain ⟨ht, hopening⟩ := Clean.post hi hrequest he
  exact ⟨⟨ht, fun j _ hj => hopening ▸ hj⟩, hk b t⟩

theorem sessionKeeps_ret (a : α) : SessionKeeps i (.ret a : Prog HttpOp α) :=
  fun _ _ _ _ => trivial

theorem sessionKeeps_op {k : β → Prog HttpOp α} (ho : o.posted = none)
    (hk : ∀ b, SessionKeeps i (k b)) : SessionKeeps i (.op o k) :=
  fun _ => safe_quietOp ho fun b t => hk b t

theorem sessionKeeps_bind {δ : Type} {p : Prog HttpOp δ} {f : δ → Prog HttpOp α}
    (hp : SessionKeeps i p) (hf : ∀ a, SessionKeeps i (f a)) : SessionKeeps i (p.bind f) := by
  refine fun s => Protocol.Safe.bind (Protocol.Safe.mono (hp s) fun x t _ _ => ?_)
  cases x with
  | done a => exact hf a t
  | panicked => trivial

/-- An attempt keeps the discipline when it posts no `initialize` with a session id. -/
theorem keeps_attempt {p : Prog HttpOp α}
    (hp : p.Uses (HttpOp.Attempt fun r => r.message.isInitialize = true → r.sessionId = none)) :
    SessionKeeps i p := by
  induction p with
  | ret a => exact sessionKeeps_ret a
  | panic => exact fun _ _ _ _ => trivial
  | op o k ih =>
    obtain ⟨ho, hk⟩ := hp
    cases hposted : o.posted with
    | none => exact sessionKeeps_op hposted fun b => ih b (hk b)
    | some request =>
      cases o with
      | post request => exact fun s => safe_post ho fun b t => ih b (hk b) t
      | _ => cases hposted

/-- The token manager leaves a caller on its handshake. -/
theorem safe_oauth_opening (p : Prog OAuthOp α) (hi : i ∈ s.opening) :
    SessionSafe i (oauthDo p) (fun _ t => i ∈ t.opening) s := by
  have hstable : (sessionProtocol ι).Stable i fun t => i ∈ t.opening := fun _ _ hr _ h => hr h
  refine Protocol.Safe.of_uses (A := fun o => o.posted = none ∧ o.Aside) hstable
    (fun δ o e s b t ho hi hmem hC he => ?_) (Prog.uses_lift (fun _ => ⟨rfl, trivial⟩) p) hi
  obtain ⟨ht, hothers⟩ := Clean.quiet hi ho.1 hC he
  exact ⟨⟨ht, hothers⟩, opening_aside ho.2 he hmem⟩

/-- An operation that leaves the caller on its handshake, then the rest. -/
theorem safe_aside {k : β → Prog HttpOp α} {Q : Outcome α → HttpWorld ι → Prop}
    (ho : o.posted = none) (haside : o.Aside) (hi : i ∈ s.opening)
    (hk : ∀ b t, i ∈ t.opening → SessionSafe i (k b) Q t) : SessionSafe i (.op o k) Q s := by
  refine Protocol.safe_op fun s' hr hinv e b t hC he => ?_
  obtain ⟨ht, hothers⟩ := Clean.quiet hinv ho hC he
  exact ⟨⟨ht, hothers⟩, hk b t (opening_aside haside he (hr hi))⟩

variable {b : HttpBackend}

theorem keeps_exchange {message : JsonRpcMessage} {extraHeaders : Entries String}
    {sentSession : Option String} {retry : Bool}
    (hrequest : message.isInitialize = true → sentSession = none) :
    SessionKeeps i (b.exchange message extraHeaders sentSession retry) :=
  keeps_attempt ((HttpBackend.uses_exchange fun _ => hrequest).mono
    fun _ ho => ho.traffic.attempt)

/-- Any other request than `initialize` may carry a session id. -/
theorem keeps_sendRequestInner {method : String} {params : Option Value} {retry : Bool}
    (hmethod : method ≠ "initialize") :
    SessionKeeps i (b.sendRequestInner method params retry) := by
  refine keeps_attempt (HttpBackend.traffic_sendRequestInner fun id bearer headers sid hinit => ?_)
  exact absurd (of_decide_eq_true hinit) hmethod

/-- A caller on its handshake sends `initialize` without a session id: none is stored when
it reads it. -/
theorem safe_sendInitialize {params : Option Value} {retry : Bool} (hi : i ∈ s.opening) :
    SessionSafe i (b.sendRequestInner "initialize" params retry) (fun _ _ => True) s := by
  have hannotations : HttpBackend.annotations "initialize" params = .ret [] := by
    simp [HttpBackend.annotations]
  simp only [HttpBackend.sendRequestInner, HttpBackend.extraHeaders, Prog.bind_eq,
    Prog.perform_bind, hannotations, Prog.ret_bind]
  refine safe_aside rfl trivial hi fun id t hi => ?_
  cases modernHeaders [] "initialize" params with
  | none => exact fun _ _ _ => trivial
  | some headers =>
    refine Protocol.safe_op fun t' hr hinv e sentSession u hC he => ?_
    obtain ⟨hu, hothers⟩ := Clean.quiet hinv rfl hC he
    have hnone : t'.sessionId = none := hinv.opening i (hr hi)
    obtain ⟨rfl, -⟩ := Prod.mk.inj (Option.some.inj he)
    exact ⟨⟨hu, hothers⟩, keeps_exchange (fun _ => hnone) u⟩

theorem keeps_sendNotification {method : String} {params : Option Value} :
    SessionKeeps i (b.sendNotification method params) :=
  keeps_attempt ((HttpBackend.traffic_sendNotification fun _ _ h => nomatch h).mono
    fun _ => HttpOp.Traffic.attempt)

/-- A caller that has set out on a handshake. -/
theorem safe_handshake (hi : i ∈ s.opening) :
    SessionSafe i b.handshake (fun _ _ => True) s := by
  simp only [HttpBackend.handshake, Prog.bind_eq]
  refine Protocol.Safe.bind (Protocol.Safe.mono (safe_sendInitialize hi) fun x t _ _ => ?_)
  rcases x with (failure | result) | _
  · exact sessionKeeps_ret _ t
  · dsimp only
    split
    · exact sessionKeeps_ret _ t
    · exact sessionKeeps_bind keeps_sendNotification (fun _ => sessionKeeps_ret _) t
  · trivial

/-- A re-initialisation sets out by taking the session id away. -/
theorem keeps_reinitializeOnce : SessionKeeps i b.reinitializeOnce := by
  intro s
  simp only [HttpBackend.reinitializeOnce, Prog.bind_eq, Prog.perform_bind]
  refine Protocol.safe_op fun s' _ hinv e stale t hC he => ?_
  obtain ⟨ht, hothers⟩ := Clean.quiet hinv rfl hC he
  obtain ⟨-, rfl⟩ := Prod.mk.inj (Option.some.inj he)
  refine ⟨⟨ht, hothers⟩, ?_⟩
  have hsafe : SessionSafe i b.handshake (fun _ _ => True)
      { s' with sessionId := none, opening := i :: s'.opening } :=
    safe_handshake List.mem_cons_self
  refine Protocol.Safe.bind (Protocol.Safe.mono hsafe fun x t _ _ => ?_)
  rcases x with outcome | _
  · refine safe_quietOp rfl fun _ u => ?_
    rcases outcome with e | init
    · exact sessionKeeps_op rfl (fun _ => sessionKeeps_ret _) u
    · exact sessionKeeps_op rfl (fun _ => sessionKeeps_op rfl fun _ => sessionKeeps_ret _) u
  · trivial

theorem keeps_reinitialize {seenEpoch : Nat} : SessionKeeps i (b.reinitialize seenEpoch) := by
  unfold HttpBackend.reinitialize Prog.withLock
  refine sessionKeeps_op rfl fun _ s => Protocol.Safe.andFinally ?_
  -- dropping the guard sends nothing
  have drop {x : Outcome (BackendResult Unit)} {t : HttpWorld ι} (ht : Clean t) :
      ∀ e b u, FreshStart ι i Unit .unlockReinit e t →
        (httpMachine ι).exec i Unit .unlockReinit e t = some (b, u) →
          (sessionProtocol ι).Keeps i t u ∧
            ∀ u', (sessionProtocol ι).rely i u u' → (sessionProtocol ι).inv u' → True := by
    intro e b u hC he
    exact ⟨Clean.quiet ht rfl hC he, fun _ _ _ => trivial⟩
  have body : SessionKeeps i ((Prog.perform .loadEpoch : Prog HttpOp Nat).bind fun epoch =>
      if epoch ≠ seenEpoch then .ret (.ok ()) else b.reinitializeOnce) := by
    refine sessionKeeps_op rfl fun epoch => ?_
    rw [Prog.ret_bind]
    split
    · exact sessionKeeps_ret _
    · exact keeps_reinitializeOnce
  exact Protocol.Safe.mono (body s) fun x t ht _ => drop (x := x) ht

/-- `send_request`, for any other request than `initialize`. -/
theorem keeps_sendRequest {method : String} {params : Option Value} {retry : Bool}
    (hmethod : method ≠ "initialize") : SessionKeeps i (b.sendRequest method params retry) := by
  simp only [HttpBackend.sendRequest, Prog.bind_eq, Prog.perform_bind]
  refine sessionKeeps_op rfl fun epoch => ?_
  refine sessionKeeps_bind (keeps_sendRequestInner hmethod) fun first => ?_
  rcases first with failure | v
  · dsimp only
    split
    · exact sessionKeeps_ret _
    · refine sessionKeeps_bind keeps_reinitialize fun result => ?_
      rcases result with e | _
      · exact sessionKeeps_ret _
      · exact sessionKeeps_bind (keeps_sendRequestInner hmethod) fun _ => sessionKeeps_ret _
  · exact sessionKeeps_ret _

/-- Adopting a persisted token leaves a caller on its handshake. -/
theorem safe_adoptToken (hi : i ∈ s.opening) :
    SessionSafe i b.adoptToken (fun x t => ∀ u, x = .done u → i ∈ t.opening) s := by
  unfold HttpBackend.adoptToken
  split
  · exact fun t hr _ u _ => hr hi
  · rw [Prog.bind_eq]
    refine Protocol.Safe.bind (Protocol.Safe.mono (safe_oauth_opening _ hi) fun x t _ hi => ?_)
    rcases x with (_ | token) | _
    · exact fun t' hr _ u _ => hr hi
    · exact safe_aside rfl trivial hi fun _ t' hi => fun u' hr _ u _ => hr hi
    · intro u hx
      cases hx

/-- `connect` sets out when it finds the backend disconnected. -/
theorem keeps_connect : SessionKeeps i b.connect := by
  intro s
  simp only [HttpBackend.connect, Prog.bind_eq, Prog.perform_bind]
  refine Protocol.safe_op fun s' _ hinv e need t hC he => ?_
  obtain ⟨ht, hothers⟩ := Clean.quiet hinv rfl hC he
  refine ⟨⟨ht, hothers⟩, ?_⟩
  cases need with
  | true =>
    have hi : i ∈ t.opening := by
      simp only [httpMachine, HttpWorld.exec] at he
      split at he
      · cases he
      · obtain ⟨-, rfl⟩ := Prod.mk.inj (Option.some.inj he)
        exact List.mem_cons_self
    refine Protocol.Safe.bind (Protocol.Safe.mono (safe_adoptToken hi) fun x u _ hx => ?_)
    rcases x with a | _
    · have hhandshake := safe_handshake (b := b) (hx a rfl)
      refine Protocol.Safe.bind (Protocol.Safe.mono hhandshake fun x u _ _ => ?_)
      rcases x with (e | init) | _
      · exact sessionKeeps_ret _ u
      · exact sessionKeeps_op rfl (fun _ => sessionKeeps_op rfl fun _ => sessionKeeps_ret _) u
      · trivial
    · trivial
  | false =>
    refine sessionKeeps_op rfl (fun cached => ?_) t
    rcases cached with _ | init <;> exact sessionKeeps_ret _

/-- The methods that check the connection and then send one request. -/
theorem keeps_checked {k : Prog HttpOp (BackendResult α)} (hk : SessionKeeps i k) :
    SessionKeeps i (b.checkConnected.bind fun
      | .error e => .ret (.error e)
      | .ok () => k) := by
  refine sessionKeeps_bind ?_ fun checked => ?_
  · refine sessionKeeps_op rfl fun connected => ?_
    rw [Prog.ret_bind]
    split <;> exact sessionKeeps_ret _
  · rcases checked with e | _
    · exact sessionKeeps_ret _
    · exact hk

theorem keeps_listTools : SessionKeeps i b.listTools := by
  refine keeps_checked (sessionKeeps_bind (keeps_sendRequest (by decide)) fun reply => ?_)
  rcases reply with e | result
  · exact sessionKeeps_ret _
  dsimp only
  split
  · exact sessionKeeps_ret _
  · split
    · exact sessionKeeps_ret _
    · exact sessionKeeps_op rfl fun _ => sessionKeeps_ret _

theorem keeps_healthCheck : SessionKeeps i b.healthCheck := by
  refine keeps_checked (sessionKeeps_bind (keeps_sendRequest (by decide)) fun reply => ?_)
  rcases reply with e | _ <;> exact sessionKeeps_ret _

/-- Every call keeps the discipline. -/
theorem keeps_httpCall (call : HttpCall) : SessionKeeps i (call.run b) := by
  cases call with
  | connect => exact sessionKeeps_bind keeps_connect fun _ => sessionKeeps_ret _
  | disconnect => exact sessionKeeps_op rfl fun _ => sessionKeeps_ret _
  | listTools => exact sessionKeeps_bind keeps_listTools fun _ => sessionKeeps_ret _
  | callTool name arguments =>
    refine sessionKeeps_bind (keeps_checked ?_) fun _ => sessionKeeps_ret _
    exact keeps_sendRequest (by decide)
  | request method params forwarded =>
    refine sessionKeeps_bind (keeps_checked ?_) fun _ => sessionKeeps_ret _
    exact keeps_sendRequest forwarded
  | healthCheck => exact sessionKeeps_bind keeps_healthCheck fun _ => sessionKeeps_ret _
  | takeToolsRefresh => exact sessionKeeps_op rfl fun _ => sessionKeeps_ret _
  | reinitialize seenEpoch =>
    exact sessionKeeps_bind keeps_reinitialize fun _ => sessionKeeps_ret _

end Walk

/-! ## Runs -/

/-- **No handshake resumes a session**: in every run in which handshakes start fresh, no
`initialize` request carries a session id. The calls are any number of callers on one backend that
has just been created, and the server may answer as it likes. A session id of an earlier
connection is what a handshake may not find, so the condition is on the state in which `connect`
begins and on the moments at which ids are stored. -/
theorem initialize_carries_no_session (b : HttpBackend) (oauth : OAuthWorld ι)
    (bearerToken : Option String) (calls : ι → HttpCall) {ls : List (ι × HttpChoice)}
    {c : Pool HttpOp ι (HttpWorld ι) Unit}
    (hfresh : (httpMachine ι).Meets (FreshStart ι) ls
      (b.pool (.fresh oauth bearerToken) calls))
    (hp : (httpMachine ι).play ls (b.pool (.fresh oauth bearerToken) calls) = some c) :
    ∀ r ∈ c.shared.seen, r.1.message.isInitialize = true → r.1.sessionId = none := by
  have hstart : Clean (HttpWorld.fresh oauth bearerToken) :=
    ⟨fun r hr => absurd hr List.not_mem_nil, fun j hj => absurd hj List.not_mem_nil⟩
  have hholds : Protocol.Holds (sessionProtocol ι) (httpMachine ι) (FreshStart ι)
      (fun _ _ _ => True) (b.pool (.fresh oauth bearerToken) calls) :=
    ⟨hstart, fun i => keeps_httpCall (calls i) _⟩
  exact (hholds.play hfresh hp).inv.seen

end Invariant

/-! ## Connecting again -/

/-- A backend is connected, disconnected and connected again. -/
def reconnectCalls : Fin 3 → HttpCall
  | 1 => .disconnect
  | _ => .connect

/-- The first handshake opens the session `s1`. -/
def connectRun : List (Fin 3 × HttpChoice) :=
  [(0, {}), (0, {}), (0, {}), (0, {}), (0, .opened "s1"), (0, {}), (0, {}), (0, {}), (0, .noted),
    (0, {}), (0, {})]

/-- Then comes the next one. -/
def reconnectRun : List (Fin 3 × HttpChoice) :=
  [(1, {}), (2, {}), (2, {}), (2, {}), (2, {}), (2, .opened "s2")]

/-- Both handshakes with a server that has no session ids. -/
def sessionlessRun : List (Fin 3 × HttpChoice) :=
  let answered : HttpChoice := { reply := .response 200 [] (.ok sampleBody) }
  [(0, {}), (0, {}), (0, {}), (0, {}), (0, answered), (0, {}), (0, {}), (0, .noted), (0, {}), (0, {}),
    (1, {}),
    (2, {}), (2, {}), (2, {}), (2, {}), (2, answered), (2, {}), (2, {}), (2, .noted), (2, {}), (2, {})]

/-- Without session ids a backend may be connected again: both of its handshakes start fresh. -/
theorem sessionless_reconnect_starts_fresh :
    ∃ c, (httpMachine (Fin 3)).play sessionlessRun
        (sampleHttp.pool (.fresh (.empty _) none) reconnectCalls) = some c ∧
      (c.shared.seen.countP fun r => r.1.message.isInitialize) = 2 ∧
      ∀ r ∈ c.shared.seen, r.1.message.isInitialize = true → r.1.sessionId = none := by
  have hrun : ((httpMachine (Fin 3)).play sessionlessRun
      (sampleHttp.pool (.fresh (.empty _) none) reconnectCalls)).map
        (fun c => c.shared.seen.countP fun r => r.1.message.isInitialize) = some 2 := by
    decide +kernel
  obtain ⟨c, hc, htwo⟩ := Option.map_eq_some_iff.mp hrun
  exact ⟨c, hc, htwo, initialize_carries_no_session sampleHttp _ none reconnectCalls
    (by decide +kernel) hc⟩

/-- The next one sends the old session id along. -/
theorem reconnect_sends_the_old_session :
    ∃ c, (httpMachine (Fin 3)).play (connectRun ++ reconnectRun)
        (sampleHttp.pool (.fresh (.empty _) none) reconnectCalls) = some c ∧
      ∃ r ∈ c.shared.seen, r.1.message.isInitialize = true ∧ r.1.sessionId = some "s1" := by
  have hrun : ((httpMachine (Fin 3)).play (connectRun ++ reconnectRun)
      (sampleHttp.pool (.fresh (.empty _) none) reconnectCalls)).map
        (fun c => decide (∃ r ∈ c.shared.seen,
          r.1.message.isInitialize = true ∧ r.1.sessionId = some "s1")) = some true := by
    decide +kernel
  obtain ⟨c, hc, hsent⟩ := Option.map_eq_some_iff.mp hrun
  exact ⟨c, hc, of_decide_eq_true hsent⟩

end HeadlessMcp
