import HeadlessMcp.Async.Hierarchy
import HeadlessMcp.Http.World
import HeadlessMcp.OAuth2.Discipline

/-!
# The locks of an HTTP backend

Two locks are held across awaits: `reinit_lock`, for a whole handshake, and the refresh lock of the
token manager, for a token request. A handshake may need a token, so the refresh lock is taken under
`reinit_lock`, and never the other way round.

A POST to the backend has a timeout. The client of the token manager has none, nor has the wait
for the callback of a browser or for a line of stdin, and these are waited for under the locks:
here their answers come whenever the environment gives them.

`HttpOp.use` says what every operation has to do with the locks, and `HttpBackend.orderly_run`
that every method takes them in ascending order, whichever way it ends.
-/

namespace HeadlessMcp

open Async

/-- The locks of an HTTP backend. -/
inductive HttpLock : Type where
  | reinit
  | refresh
  deriving DecidableEq

/-- The refresh lock is above the other. -/
def HttpLock.rank : HttpLock → Bool
  | reinit => false
  | refresh => true

/-- What each operation has to do with the locks. What waits for a server, a browser or a user
needs no lock that others hold, and counts as free. -/
def HttpOp.use : (β : Type) → HttpOp β → LockUse HttpLock
  | _, .lockReinit => .takes .reinit
  | _, .unlockReinit => .drops .reinit
  | _, .oauth .lockRefresh => .takes .refresh
  | _, .oauth .unlockRefresh => .drops .refresh
  | _, _ => .free

/-- Who holds a lock. -/
def HttpWorld.holder {ι : Type} (s : HttpWorld ι) : HttpLock → Option ι
  | .reinit => s.reinitHolder
  | .refresh => s.oauth.refreshHolder

/-! ## The operations -/

section Operations

variable {ι : Type}

/-- The token manager waits for its lock only. -/
theorem oauth_enabled (i : ι) {β : Type} (o : OAuthOp β) (s : OAuthWorld ι)
    (hfree : o.Acquires → s.refreshHolder = none) :
    ∃ e r, OAuthWorld.exec i β o e s = some r := by
  have htick : s.tick { instant := s.instant } = some s := if_pos le_rfl
  cases o with
  | lockRefresh =>
    refine ⟨{}, ((), { s with refreshHolder := some i }), ?_⟩
    rw [OAuthWorld.exec, hfree trivial]
  | readCache => exact ⟨{ instant := s.instant }, _, congrArg (Option.map _) htick⟩
  | updateCache f => exact ⟨{ instant := s.instant }, _, congrArg (Option.map _) htick⟩
  | instantNow => exact ⟨{ instant := s.instant }, _, congrArg (Option.map _) htick⟩
  | _ => exact ⟨{}, _, rfl⟩

/-- What an operation of the token manager does to the locks. -/
theorem oauth_use {β : Type} (o : OAuthOp β) :
    o.Acquires ∧ HttpOp.use β (.oauth o) = .takes .refresh ∨
      ¬ o.Acquires ∧ o.Releases ∧ HttpOp.use β (.oauth o) = .drops .refresh ∨
      o.Free ∧ HttpOp.use β (.oauth o) = .free := by
  cases o with
  | lockRefresh => exact .inl ⟨trivial, rfl⟩
  | unlockRefresh => exact .inr (.inl ⟨id, trivial, rfl⟩)
  | _ => exact .inr (.inr ⟨⟨id, id⟩, rfl⟩)

/-- The refresh lock changes hands, and nothing else does. -/
theorem HttpWorld.holder_oauth (s : HttpWorld ι) {u : OAuthWorld ι} {h : Option ι}
    (hu : u.refreshHolder = h) :
    ({ s with oauth := u } : HttpWorld ι).holder = Function.update s.holder .refresh h := by
  funext l
  cases l with
  | reinit => rfl
  | refresh => exact hu

variable [DecidableEq ι]

/-- The locks of an HTTP backend are locks. -/
theorem http_locks : Locks (httpMachine ι) HttpOp.use HttpWorld.holder where
  takes {i β o e s b t l} huse hexec := by
    cases o with
    | lockReinit =>
      obtain rfl : HttpLock.reinit = l := LockUse.takes.inj huse
      simp only [httpMachine, HttpWorld.exec] at hexec
      split at hexec
      · rename_i hholder
        obtain rfl := (Prod.mk.inj (Option.some.inj hexec)).2
        refine ⟨hholder, funext fun l => ?_⟩
        cases l <;> rfl
      · cases hexec
    | oauth o =>
      obtain ⟨⟨b', u⟩, hu, heq⟩ := Option.map_eq_some_iff.mp hexec
      obtain ⟨rfl, rfl⟩ := Prod.mk.inj heq
      rcases oauth_use o with ⟨ho, htakes⟩ | ⟨-, -, hdrops⟩ | ⟨-, hfree⟩
      · obtain rfl := LockUse.takes.inj (htakes.symm.trans huse)
        obtain ⟨hnone, hholder⟩ := refreshLock.acquire ho hu
        exact ⟨hnone, s.holder_oauth hholder⟩
      · cases hdrops.symm.trans huse
      · cases hfree.symm.trans huse
    | _ => cases huse
  drops {i β o e s b t l} huse hexec := by
    cases o with
    | unlockReinit =>
      obtain rfl : HttpLock.reinit = l := LockUse.drops.inj huse
      obtain rfl := (Prod.mk.inj (Option.some.inj hexec)).2
      funext l
      cases l <;> rfl
    | oauth o =>
      obtain ⟨⟨b', u⟩, hu, heq⟩ := Option.map_eq_some_iff.mp hexec
      obtain ⟨rfl, rfl⟩ := Prod.mk.inj heq
      rcases oauth_use o with ⟨-, htakes⟩ | ⟨-, ho, hdrops⟩ | ⟨-, hfree⟩
      · cases htakes.symm.trans huse
      · obtain rfl := LockUse.drops.inj (hdrops.symm.trans huse)
        exact s.holder_oauth (refreshLock.release ho hu)
      · cases hfree.symm.trans huse
    | _ => cases huse
  keeps {i β o e s b t} huse hexec := by
    cases o with
    | lockReinit => exact absurd rfl (huse .reinit).1
    | unlockReinit => exact absurd rfl (huse .reinit).2
    | oauth o =>
      obtain ⟨⟨b', u⟩, hu, heq⟩ := Option.map_eq_some_iff.mp hexec
      obtain ⟨rfl, rfl⟩ := Prod.mk.inj heq
      rcases oauth_use o with ⟨-, htakes⟩ | ⟨-, -, hdrops⟩ | ⟨hfree, -⟩
      · exact absurd htakes (huse .refresh).1
      · exact absurd hdrops (huse .refresh).2
      · rw [s.holder_oauth (exec_holder hfree hu)]
        exact Function.update_eq_self (HttpLock.refresh) s.holder
    | needsHandshake =>
      change (if s.connected then some (false, s)
        else some (true, { s with opening := i :: s.opening })) = some (b, t) at hexec
      split at hexec
      · obtain rfl := (Prod.mk.inj (Option.some.inj hexec)).2
        rfl
      · obtain rfl := (Prod.mk.inj (Option.some.inj hexec)).2
        funext l
        cases l <;> rfl
    | _ =>
      obtain rfl := (Prod.mk.inj (Option.some.inj hexec)).2
      funext l
      cases l <;> rfl
  enabled i {β o s} _ hfree := by
    cases o with
    | lockReinit =>
      have hnone : s.reinitHolder = none := hfree .reinit (.inl rfl)
      refine ⟨{}, ((), { s with reinitHolder := some i }), ?_⟩
      simp only [httpMachine, HttpWorld.exec, hnone]
    | oauth o =>
      obtain ⟨e, r, hr⟩ := oauth_enabled i o s.oauth fun ho => by
        rcases oauth_use o with ⟨-, htakes⟩ | ⟨hnot, -, -⟩ | ⟨hnot, -⟩
        · exact hfree .refresh (.inl htakes)
        · exact absurd ho hnot
        · exact absurd ho hnot.1
      refine ⟨{ oauth := e }, (r.1, { s with oauth := r.2 }), ?_⟩
      exact congrArg (Option.map _) hr
    | needsHandshake =>
      by_cases hconnected : s.connected
      · exact ⟨{}, (false, s), if_pos hconnected⟩
      · exact ⟨{}, (true, { s with opening := i :: s.opening }), if_neg hconnected⟩
    | _ => exact ⟨{}, _, rfl⟩

end Operations

/-! ## The calls -/

section Calls

variable {α β : Type} {base : List HttpLock} {p : Prog HttpOp α} (b : HttpBackend)

/-- The program takes and drops its locks in order, above the locks that are held. -/
abbrev HttpOrderly (base : List HttpLock) (p : Prog HttpOp α) : Prop :=
  p.Orderly HttpOp.use HttpLock.rank False base []

/-- Under these locks the refresh lock may be taken. -/
def BelowRefresh (base : List HttpLock) : Prop := ∀ l ∈ base, l.rank < HttpLock.refresh.rank

/-- The token manager takes its lock in turn. -/
theorem orderly_oauthDo {p : Prog OAuthOp α} (hbase : BelowRefresh base)
    (hp : p.Balanced OAuthOp.Acquires OAuthOp.Releases false) :
    HttpOrderly base (oauthDo p) := by
  refine Prog.Balanced.orderly (l := HttpLock.refresh) (fun δ o ho => ?_) (fun δ o hna ho => ?_)
    (fun δ o hna hnr => ?_) hbase hp
  · rcases oauth_use o with ⟨-, h⟩ | ⟨hnot, -⟩ | ⟨hnot, -⟩
    · exact h
    · exact absurd ho hnot
    · exact absurd ho hnot.1
  · rcases oauth_use o with ⟨h, -⟩ | ⟨-, -, h⟩ | ⟨hnot, -⟩
    · exact absurd h hna
    · exact h
    · exact absurd ho hnot.2
  · rcases oauth_use o with ⟨h, -⟩ | ⟨-, h, -⟩ | ⟨-, h⟩
    · exact absurd h hna
    · exact absurd h hnr
    · exact h

theorem free_discover {url : String} {rejects : Value → String} :
    (Manager.discover url rejects).Uses OAuthOp.Free := by
  have hfetch {α : Type} {what url : String} {read : Value → Option α} :
      (Manager.fetchMetadata what url rejects read).Uses OAuthOp.Free := by
    refine ⟨⟨id, id⟩, fun reply => ?_⟩
    rcases reply with e | ⟨status, e⟩ | ⟨status, body⟩
    · trivial
    · trivial
    · simp only [Prog.ret_bind]
      split <;> trivial
  have hurl : (Manager.authServerUrl url rejects).Uses OAuthOp.Free := by
    rw [Manager.authServerUrl]
    split
    · refine hfetch.bind fun servers => ?_
      split
      · trivial
      · split <;> trivial
    · trivial
  refine hurl.bind fun url => ?_
  split
  · trivial
  · refine hfetch.bind fun discovered => ?_
    split
    · trivial
    · exact ⟨⟨id, id⟩, fun _ => trivial⟩

theorem orderly_discoverOn (hbase : BelowRefresh base) (status : Nat)
    (headers : Entries String) : HttpOrderly base (b.discoverOn status headers) := by
  rw [HttpBackend.discoverOn]
  split
  · split
    · exact (orderly_oauthDo hbase free_discover.balanced).bind fun _ => rfl
    · rfl
  · rfl

theorem orderly_postJson (hbase : BelowRefresh base) (message : JsonRpcMessage)
    (extraHeaders : Entries String) (sessionId : Option String) :
    HttpOrderly base (b.postJson message extraHeaders sessionId) := by
  refine Prog.orderly_op rfl fun bearer => Prog.orderly_op rfl fun reply => ?_
  rcases reply with ⟨timeout, e⟩ | ⟨status, headers, body⟩
  · rfl
  · refine (orderly_discoverOn b hbase status headers).bind fun _ => ?_
    cases body <;> rfl

theorem orderly_captureSession (headers : Entries String) :
    HttpOrderly base (HttpBackend.captureSession headers) := by
  rw [HttpBackend.captureSession]
  split
  · exact Prog.orderly_op rfl fun _ => rfl
  · rfl

theorem orderly_retryWith (hbase : BelowRefresh base) (message : JsonRpcMessage)
    (extraHeaders : Entries String) (sentSession : Option String) (token : String) :
    HttpOrderly base (b.retryWith message extraHeaders sentSession token) := by
  refine Prog.orderly_op rfl fun _ => ?_
  refine (orderly_postJson b hbase message extraHeaders sentSession).bind fun reply => ?_
  rcases reply with e | ⟨body, status, headers⟩
  · rfl
  · refine (orderly_captureSession headers).bind fun _ => ?_
    split
    · split <;> rfl
    · rfl

theorem orderly_exchange (hbase : BelowRefresh base) (message : JsonRpcMessage)
    (extraHeaders : Entries String) (sentSession : Option String) (retry : Bool) :
    HttpOrderly base (b.exchange message extraHeaders sentSession retry) := by
  refine (orderly_postJson b hbase message extraHeaders sentSession).bind fun reply => ?_
  rcases reply with e | ⟨body, status, headers⟩
  · rfl
  · refine (orderly_captureSession headers).bind fun _ => ?_
    split
    · rfl
    · split
      · refine (orderly_oauthDo hbase balanced_getToken).bind fun token => ?_
        cases token with
        | error e => rfl
        | ok token => exact orderly_retryWith b hbase message extraHeaders sentSession token
      · rfl

theorem orderly_sendRequestInner (hbase : BelowRefresh base) (method : String)
    (params : Option Value) (retry : Bool) :
    HttpOrderly base (b.sendRequestInner method params retry) := by
  have hannotations : HttpOrderly base (HttpBackend.annotations method params) := by
    rw [HttpBackend.annotations]
    split
    · exact Prog.orderly_op rfl fun _ => rfl
    · rfl
  have hextra : HttpOrderly base (HttpBackend.extraHeaders method params) := by
    refine hannotations.bind fun known => ?_
    split <;> rfl
  refine Prog.orderly_op rfl fun id => hextra.bind fun headers => ?_
  exact Prog.orderly_op rfl fun sentSession => orderly_exchange b hbase _ _ _ _

theorem orderly_sendNotification (method : String) (params : Option Value) :
    HttpOrderly base (b.sendNotification method params) := by
  refine Prog.orderly_op rfl fun bearer => Prog.orderly_op rfl fun sessionId =>
    Prog.orderly_op rfl fun reply => ?_
  rcases reply with ⟨timeout, e⟩ | ⟨status, headers, body⟩
  · rfl
  · rw [Prog.ret_bind]
    dsimp only
    split <;> rfl

theorem orderly_handshake (hbase : BelowRefresh base) : HttpOrderly base b.handshake := by
  refine (orderly_sendRequestInner b hbase "initialize" _ true).bind fun result => ?_
  rcases result with failure | result
  · rfl
  · dsimp only
    split
    · rfl
    · exact (orderly_sendNotification b _ _).bind fun _ => rfl

/-- The handshake is made under `reinit_lock`. -/
theorem orderly_reinitialize (seenEpoch : Nat) : HttpOrderly [] (b.reinitialize seenEpoch) := by
  have hbase : BelowRefresh [HttpLock.reinit] := by simp [BelowRefresh, HttpLock.rank]
  refine Prog.Orderly.withLock (l := HttpLock.reinit) rfl rfl (by simp) ?_
  refine Prog.orderly_op rfl fun epoch => ?_
  rw [Prog.ret_bind]
  split
  · rfl
  · refine Prog.orderly_op rfl fun stale => (orderly_handshake b hbase).bind fun outcome => ?_
    refine Prog.orderly_op rfl fun _ => ?_
    cases outcome with
    | error e => exact Prog.orderly_op rfl fun _ => rfl
    | ok init => exact Prog.orderly_op rfl fun _ => Prog.orderly_op rfl fun _ => rfl

theorem belowRefresh_nil : BelowRefresh [] := by simp [BelowRefresh]

theorem orderly_sendRequest (method : String) (params : Option Value) (retry : Bool) :
    HttpOrderly [] (b.sendRequest method params retry) := by
  have hinner := orderly_sendRequestInner b belowRefresh_nil method params retry
  refine Prog.orderly_op rfl fun epoch => hinner.bind fun result => ?_
  rcases result with failure | v
  · dsimp only
    split
    · rfl
    · have hredone := orderly_reinitialize b epoch
      refine hredone.bind fun outcome => ?_
      cases outcome with
      | error e => rfl
      | ok u => exact hinner.bind fun _ => rfl
  · rfl

/-- What is done when the backend is connected. -/
theorem orderly_checkConnected {f : BackendResult Unit → Prog HttpOp α}
    (hfail : ∀ e, HttpOrderly [] (f (.error e))) (hok : HttpOrderly [] (f (.ok ()))) :
    HttpOrderly [] (b.checkConnected.bind f) := by
  refine Prog.orderly_op rfl fun connected => ?_
  cases connected with
  | false => exact hfail _
  | true => exact hok

theorem orderly_connect : HttpOrderly [] b.connect := by
  have hadopt : HttpOrderly [] b.adoptToken := by
    rw [HttpBackend.adoptToken]
    split
    · rfl
    · refine (orderly_oauthDo belowRefresh_nil balanced_adoptPersisted).bind fun token => ?_
      cases token with
      | none => rfl
      | some token => exact Prog.orderly_op rfl fun _ => rfl
  refine Prog.orderly_op rfl fun needed => ?_
  cases needed with
  | false =>
    refine Prog.orderly_op rfl fun init => ?_
    cases init <;> rfl
  | true =>
    refine hadopt.bind fun _ => (orderly_handshake b belowRefresh_nil).bind fun result => ?_
    cases result with
    | error e => rfl
    | ok init => exact Prog.orderly_op rfl fun _ => Prog.orderly_op rfl fun _ => rfl

/-- **Every method of an HTTP backend takes its locks in order.** -/
theorem HttpBackend.orderly_run (method : McpOp α) : HttpOrderly [] (b.run method) := by
  cases method with
  | connect => exact orderly_connect b
  | listTools =>
    refine orderly_checkConnected b (fun _ => rfl) ?_
    refine (orderly_sendRequest b "tools/list" none true).bind fun result => ?_
    rcases result with e | v
    · rfl
    · dsimp only
      split
      · rfl
      · split
        · rfl
        · exact Prog.orderly_op rfl fun _ => rfl
  | callTool name arguments timeoutSecs =>
    exact orderly_checkConnected b (fun _ => rfl) (orderly_sendRequest b _ _ _)
  | disconnect => exact Prog.orderly_op rfl fun _ => rfl
  | healthCheck =>
    refine orderly_checkConnected b (fun _ => rfl) ?_
    refine (orderly_sendRequest b "tools/list" none true).bind fun result => ?_
    cases result <;> rfl
  | request method params timeoutSecs =>
    exact orderly_checkConnected b (fun _ => rfl) (orderly_sendRequest b _ _ _)
  | takeToolsRefresh => exact Prog.orderly_op rfl fun _ => rfl

end Calls

end HeadlessMcp
