import HeadlessMcp.Hub.Refinement
import HeadlessMcp.Session.Gate

/-!
# The gate of the hub

`Session/Gate.lean` is about a session whose backends answer at once. Here the backends are in
place, and next to the messages of the clients there is what the hub does by itself: it connects
its backends, checks their health and reads what their children write. Nothing that a client sends
gets inside a backend, where requests are posted and written, unless it was let in
(`inside_is_authorized`).

The theorems of the session carry over by the refinement: a step inside a backend is matched by a
session that is about to get the backend's answer, and the session only asks a backend for those
that were let in.
-/

namespace HeadlessMcp

open Async

/-! ## Duties -/

/-- What a task of the hub is there for. A message comes from a client, and everything else the
hub does by itself. -/
inductive HubDuty : Type 1 where
  /-- to handle a message of a client -/
  | message (m : Incoming) : HubDuty
  /-- to look after the backends -/
  | maintenance (p : Prog RegistryOp Unit) : HubDuty
  /-- to read what a child writes -/
  | reader (object child : Nat) (output : List String) : HubDuty

/-- The task. -/
def HubDuty.task (prettyText serdeText : Value → String) : HubDuty → LiveTask Unit
  | .message m => .client (m.run prettyText serdeText)
  | .maintenance p => .client (hubDo p)
  | .reader object child output => .reader object child output

/-- Where it is at the gate: the hub itself is in from the start. -/
def HubDuty.phase : HubDuty → GatePhase
  | .message m => .of m.message
  | .maintenance _ => .opened
  | .reader _ _ _ => .opened

/-- A client's message has the right to get inside a backend: it declares a supported version, or
it declares none and the session was initialized, by the legacy `initialize` of some client. -/
def LetIn {ι : Type} (duties : ι → HubDuty) (s : DispatchWorld ι) (m : JsonRpcMessage) : Prop :=
  (∃ v ∈ modernProtocolVersions, m.declaredVersion = some v) ∨
    m.isRequest = true ∧ m.declaredVersion = none ∧ s.session.initialized = true ∧
      ∃ j m', duties j = .message m' ∧ m'.message.isLegacyInitialize = true

variable {ι : Type} {prettyText serdeText : Value → String}

/-- Every duty does what is in order at the gate. -/
theorem HubDuty.keeps (duty : HubDuty) :
    (duty.task prettyText serdeText).abstract.Keeps gateLedger (fun _ _ => True) duty.phase := by
  cases duty with
  | message m => exact gated_run prettyText serdeText m
  | maintenance p => exact (keeps_opened (spares_hubDo p)).mono fun _ _ _ => trivial
  | reader object child output => trivial

/-! ## What has been initialized -/

/-- Nobody takes the initialization back. -/
theorem initialized_stays {i : ι} {β : Type} {o : DispatchOp β} {e : RegistryChoice} {b : β}
    {s t : DispatchWorld ι} (h : (dispatchMachine ι).exec i β o e s = some (b, t))
    (hinit : s.session.initialized = true ∨ o.initializes = true) :
    t.session.initialized = true := by
  cases o with
  | session o =>
    obtain ⟨⟨b', t'⟩, hr, heq⟩ := Option.map_eq_some_iff.mp h
    obtain ⟨rfl, rfl⟩ := Prod.mk.inj heq
    cases o with
    | registry o =>
      obtain ⟨r, -, heq⟩ := Option.map_eq_some_iff.mp hr
      obtain ⟨-, rfl⟩ := Prod.mk.inj heq
      exact hinit.resolve_right nofun
    | setInitialized =>
      obtain rfl := (Prod.mk.inj (Option.some.inj hr)).2
      rfl
    | isInitialized =>
      obtain rfl := (Prod.mk.inj (Option.some.inj hr)).2
      exact hinit.resolve_right nofun
    | notifyToolsListChanged =>
      obtain rfl := (Prod.mk.inj (Option.some.inj hr)).2
      exact hinit.resolve_right nofun
  | _ =>
    obtain rfl := (Prod.mk.inj (Option.some.inj h)).2
    exact hinit.resolve_right nofun

/-- What stands for a program inside a backend is a call of a backend. -/
theorem call_of_remote {backends : Nat → Implementation} {β : Type} {o : DispatchOp β}
    (h : Remote (dispatchMachine ι) (hubStands backends) LiveOp.Inside Alongside o) :
    ∃ object method, o = .session (.registry (.backend object method)) := by
  by_cases ho : o.Calls
  · cases o with
    | session o =>
      cases o with
      | registry o =>
        cases o with
        | backend object method => exact ⟨object, method, rfl⟩
        | _ => cases ho
      | _ => cases ho
    | _ => cases ho
  · have huses : (hubStands backends o).Uses LiveOp.Inside := h.1
    rw [hubStands_of_not_calls ho] at huses
    exact absurd huses.1 id

variable [DecidableEq ι] {duties : ι → HubDuty}

/-- A session that somebody initialized is initialized. -/
theorem initialized_of_log {ls : List (ι × RegistryChoice)}
    {c c' : Pool DispatchOp ι (DispatchRun ι) Unit} (hlog : c.shared.log = [])
    (hplay : (dispatchMachine ι).recorded.play ls c = some c') {q : Performed DispatchOp ι}
    (hq : q ∈ c'.shared.log) (hsets : q.op.initializes = true) :
    c'.shared.state.session.initialized = true := by
  refine (dispatchMachine ι).recorded.play_induct (C := fun _ _ _ _ _ => True)
    (P := fun c => ∀ q ∈ c.shared.log, q.op.initializes = true →
      c.shared.state.session.initialized = true)
    (fun l c₁ c₂ hc _ hstep q hq hsets => ?_) (by simp [hlog])
    ((dispatchMachine ι).recorded.meets_true ls c) hplay q hq hsets
  obtain ⟨q', hfire, -⟩ := (dispatchMachine ι).recorded.step_eq_some hstep
  obtain ⟨δ, o, k, b, hop, hexec, rfl⟩ := (dispatchMachine ι).recorded.fire_eq_some hfire
  obtain ⟨hexec, hlog⟩ := Machine.recorded_exec hexec
  refine initialized_stays hexec ?_
  rw [hlog] at hq
  rcases List.mem_cons.mp hq with rfl | hq
  · exact .inr hsets
  · exact .inl (hc q hq hsets)

/-! ## The session -/

/-- A session with its duties, and its history. -/
def dutyPool (prettyText serdeText : Value → String) (start : DispatchWorld ι)
    (duties : ι → HubDuty) : Pool DispatchOp ι (DispatchRun ι) Unit :=
  ⟨⟨start, []⟩, fun i => ((duties i).task prettyText serdeText).abstract⟩

/-- A message that is about to call a backend was let in. -/
theorem let_in_of_interacts {start : DispatchWorld ι} (hfresh : start.session.initialized = false)
    {ls : List (ι × RegistryChoice)} {c : Pool DispatchOp ι (DispatchRun ι) Unit}
    (hplay : (dispatchMachine ι).recorded.play ls (dutyPool prettyText serdeText start duties) =
      some c) {i : ι} {m : Incoming} (hi : duties i = .message m) {δ : Type} {o : DispatchOp δ}
    {k : δ → Prog DispatchOp Unit} (hnext : c.task i = .op o k) (ho : o.interacts = true) :
    LetIn duties c.shared.state m.message := by
  have hkeeps (i : ι) : ((duties i).task prettyText serdeText).abstract.Keeps gateLedger
      (fun _ _ => True) (duties i).phase := (duties i).keeps
  obtain ⟨hkept, horder⟩ := Ledger.play_inOrder rfl hkeeps hplay
  have hown : (Prog.op o k).Keeps gateLedger (fun _ _ => True)
      (gateLedger.after (duties i).phase i c.shared.log) := hnext ▸ hkept i
  have hopened := GatePhase.eq_opened hown.1 ho
  rw [hi] at hopened
  rcases start_of_opened hopened with hstart | hstart
  · exact .inl (m.message.supported_of_phase hstart)
  · obtain ⟨hrequest, hlegacy⟩ := m.message.legacy_of_phase hstart
    -- The request found the session initialized, so somebody had done it before.
    have hinit : Initialized c.shared := by
      refine Initialized.play ⟨fun h => ?_, fun newer r before h => ?_⟩ hplay
      · exact absurd (hfresh.symm.trans h) nofun
      · exact absurd h.symm (by simp [dutyPool])
    have hclosed : (HubDuty.message m).phase = .closed := hstart
    rw [hclosed] at hopened
    obtain ⟨newer, r, before, hlog, hadmits, -⟩ := admitted_of_opened hopened
    obtain ⟨q, hq, hsets⟩ := hinit.found newer r before hlog hadmits
    obtain ⟨between, older, rfl⟩ := List.append_of_mem hq
    have hmem : q ∈ c.shared.log := by
      rw [hlog]
      simp
    have hphase := start_of_initializing (GatePhase.eq_initializing
      (horder (newer ++ r :: between) q older (by rw [hlog]; simp)) hsets)
    refine .inr ⟨hrequest, hlegacy, initialized_of_log rfl hplay hmem hsets, q.caller, ?_⟩
    rcases hduty : duties q.caller with m' | p | _
    · rw [hduty] at hphase
      exact ⟨m', rfl, m'.message.isLegacyInitialize_of_phase hphase⟩
    · rw [hduty] at hphase
      cases hphase
    · rw [hduty] at hphase
      cases hphase

/-! ## The hub -/

/-- **Only who is let in gets inside a backend**: in every run of a hub that starts with a new
session, while its backends are connected, checked and read from at the same time, a message whose
task is about to do anything inside a backend declares a supported version, or it is a legacy
request and the session has been initialized by a legacy `initialize`. -/
theorem inside_is_authorized {backends : Nat → Implementation} {start : LiveWorld ι}
    (hfresh : start.dispatch.session.initialized = false) {ls' : List (ι × LiveChoice)}
    {c' : Pool LiveOp ι (LiveWorld ι) Unit}
    (hplay : (liveMachine ι).play ls' (hubPool backends start
      fun i => (duties i).task prettyText serdeText) = some c')
    {i : ι} {m : Incoming} (hi : duties i = .message m) {δ : Type} {o : LiveOp δ}
    {k : δ → Prog LiveOp Unit} (hnext : c'.task i = .op o k) (ho : o.Inside) :
    LetIn duties c'.shared.dispatch m.message := by
  have hclient : ((duties i).task prettyText serdeText).IsClient := by
    rw [hi]
    trivial
  obtain ⟨ls, d, hls, hs, δ₁, o₁, k₁, hop, hremote, -⟩ := play_refines_inner
    (hub_implements backends) (hub_related backends start _) hplay hclient hnext ho
  have hrecorded := Machine.recorded_play (M := dispatchMachine ι) ls
    (dutyPool prettyText serdeText start.dispatch duties)
  obtain ⟨c, hc, rfl⟩ := Option.map_eq_some_iff.mp (hrecorded.trans hls)
  obtain ⟨object, method, rfl⟩ := call_of_remote hremote
  have hin := let_in_of_interacts hfresh hc hi hop rfl
  have hsame : c.shared.state.session.initialized = c'.shared.dispatch.session.initialized :=
    congrArg (fun s => s.session.initialized) hs
  rw [LetIn, ← hsame]
  exact hin

/-! ### A legacy client -/

/-- A client initializes the session and lists the resources, of a backend behind HTTP. -/
theorem legacy_client_let_in :
    ∃ c', (liveMachine (Fin 2)).play
        [(0, {}), (0, {}), (0, {}), (0, {}), (1, {}), (1, {}), (1, {})]
        (hubPool (fun _ => .http sampleHttp)
          ⟨freshSession resourceRegistry, fun _ => sessionStart _, fun _ => .fresh _⟩
          fun i => (HubDuty.message (legacyClient i)).task (fun _ => "") fun _ => "") = some c' ∧
      LetIn (fun i => .message (legacyClient i)) c'.shared.dispatch (legacyClient 1).message := by
  have hrun : ∃ c', (liveMachine (Fin 2)).play
      [(0, {}), (0, {}), (0, {}), (0, {}), (1, {}), (1, {}), (1, {})]
      (hubPool (fun _ => .http sampleHttp)
        ⟨freshSession resourceRegistry, fun _ => sessionStart _, fun _ => .fresh _⟩
        fun i => (HubDuty.message (legacyClient i)).task (fun _ => "") fun _ => "") = some c' ∧
      ∃ (δ : Type) (o : LiveOp δ) (k : δ → Prog LiveOp Unit), c'.task 1 = .op o k ∧ o.Inside :=
    ⟨_, rfl, _, _, _, rfl, trivial⟩
  obtain ⟨c', hplay, δ, o, k, hnext, ho⟩ := hrun
  exact ⟨c', hplay, inside_is_authorized rfl hplay rfl hnext ho⟩

end HeadlessMcp
