import HeadlessMcp.Async.Transcript
import HeadlessMcp.Stdio.Correlation
import HeadlessMcp.Stdio.Exit

/-!
# A `connect` that fails

`connect` puts the stdin of its child and the child itself into the shared state before the
handshake, and nothing takes them out again when the handshake fails. So a failed `connect`
leaves the backend as dead as it found it if and only if it never got as far as a child process
(`failed_connect_leaves_dead_iff`).
-/

namespace HeadlessMcp

open Async Machine

variable {ι α β : Type}

/-! ## What requests and reader tasks leave alone -/

/-- The operation neither makes a connection nor closes one. What a reader task does at its exit
counts as neither, since it leaves the stdin and the child where they are. -/
def StdioOp.Bystanding : StdioOp β → Prop
  | .establish _ | .markClosed | .storeInit _ | .spawn _ _ _ _ | .setStdin _ | .clearStdin
  | .setChild _ | .takeChild => False
  | _ => True

section Bystanders

variable (b : StdioBackend)

theorem uses_sendMessage (message : JsonRpcMessage) :
    (sendMessage message).Uses StdioOp.Bystanding := by
  refine ⟨trivial, fun _ => Prog.Uses.andFinally ⟨trivial, fun _ => ?_⟩ trivial⟩
  refine Prog.Uses.andFinally ⟨trivial, fun stdin => ?_⟩ trivial
  cases stdin with
  | none => trivial
  | some child =>
    refine ⟨trivial, fun written => ?_⟩
    cases written with
    | error e => trivial
    | ok =>
      refine ⟨trivial, fun flushed => ?_⟩
      cases flushed <;> trivial

theorem uses_awaitResponse (method : String) (timeoutSecs : Nat) (id : Int) (channel : Nat) :
    (b.awaitResponse method timeoutSecs id channel).Uses StdioOp.Bystanding := by
  refine ⟨trivial, fun awaited => ?_⟩
  cases awaited with
  | answered r => trivial
  | dropped => trivial
  | timedOut => exact ⟨trivial, fun _ => trivial⟩

theorem uses_sendRequest (method : String) (params : Option Value) (timeoutSecs : Nat)
    (handshake : Option Nat) :
    (b.sendRequest method params timeoutSecs handshake).Uses StdioOp.Bystanding := by
  refine ⟨trivial, fun id => ⟨trivial, fun channel => (uses_sendMessage _).bind fun sent => ?_⟩⟩
  cases sent with
  | error e => trivial
  | ok => exact uses_awaitResponse b method timeoutSecs (asI64 id) channel

theorem uses_handleLine (line : String) : (b.handleLine line).Uses StdioOp.Bystanding := by
  rw [StdioBackend.handleLine]
  split
  · trivial
  · split
    · exact ⟨trivial, fun _ => trivial⟩
    · exact ⟨trivial, fun _ => trivial⟩
    · trivial

theorem uses_readResponses (child : Nat) (output : List String) :
    (b.readResponses child output).Uses StdioOp.Bystanding := by
  induction output with
  | nil => exact ⟨trivial, fun _ => trivial⟩
  | cons line lines ih => exact ⟨trivial, fun _ => (uses_handleLine b line).bind fun _ => ih⟩

theorem uses_readerTask (child : Nat) (output : List String) :
    (b.readerTask child output).Uses StdioOp.Bystanding :=
  ⟨trivial, fun _ => (uses_readResponses b child output).bind fun _ =>
    ⟨trivial, fun _ => ⟨trivial, fun _ => trivial⟩⟩⟩

/-- What is only done while `connected` is set. -/
theorem uses_ifConnected {p q : Prog StdioOp α} (hp : p.Uses StdioOp.Bystanding)
    (hq : q.Uses StdioOp.Bystanding) :
    (.op .isConnected fun connected => if connected then p else q : Prog StdioOp α).Uses
      StdioOp.Bystanding := by
  refine ⟨trivial, fun connected => ?_⟩
  cases connected with
  | true => exact hp
  | false => exact hq

theorem uses_listTools : b.listTools.Uses StdioOp.Bystanding := by
  refine uses_ifConnected ((uses_sendRequest b _ _ _ none).bind fun r => ?_) trivial
  cases r with
  | error e => trivial
  | ok result =>
    dsimp only
    split <;> trivial

theorem uses_callTool (name : String) (arguments : Option Value) (timeoutSecs : Nat) :
    (b.callTool name arguments timeoutSecs).Uses StdioOp.Bystanding := by
  refine uses_ifConnected ?_ trivial
  exact uses_sendRequest b "tools/call" (some (toolCallParams name arguments)) timeoutSecs none

theorem uses_request (method : String) (params : Option Value) (timeoutSecs : Nat) :
    (b.request method params timeoutSecs).Uses StdioOp.Bystanding := by
  refine uses_ifConnected ?_ trivial
  exact uses_sendRequest b method params timeoutSecs none

theorem uses_healthCheck : b.healthCheck.Uses StdioOp.Bystanding := by
  refine uses_ifConnected ((uses_sendRequest b _ _ _ none).bind fun r => ?_) trivial
  cases r <;> trivial

theorem uses_call {c : StdioCall} (hconnect : c ≠ .connect) (hdisconnect : c ≠ .disconnect) :
    (b.call c).Uses StdioOp.Bystanding := by
  cases c with
  | connect => exact absurd rfl hconnect
  | disconnect => exact absurd rfl hdisconnect
  | listTools => exact (uses_listTools b).bind fun _ => trivial
  | callTool name arguments timeoutSecs =>
    exact (uses_callTool b name arguments timeoutSecs).bind fun _ => trivial
  | request method params timeoutSecs =>
    exact (uses_request b method params timeoutSecs).bind fun _ => trivial
  | healthCheck => exact (uses_healthCheck b).bind fun _ => trivial

theorem uses_calls {cs : List StdioCall}
    (hcs : ∀ c ∈ cs, c ≠ .connect ∧ c ≠ .disconnect) : (b.calls cs).Uses StdioOp.Bystanding := by
  induction cs with
  | nil => trivial
  | cons c cs ih =>
    obtain ⟨hc, hcs⟩ := List.forall_mem_cons.mp hcs
    exact (uses_call b hc.1 hc.2).bind fun _ => ih hcs

end Bystanders

/-- The child for whose connection an operation sets `connected`. -/
def establishes : StdioOp β → Option Nat
  | .establish child => some child
  | _ => none

/-! ## What one attempt does -/

/-- The child process that an operation has started, with both of its pipes. -/
def StdioOp.started : StdioOp β → β → Option Nat
  | .spawn _ _ _ _, .ok ⟨child, true, true⟩ => some child
  | _, _ => none

/-- A child process has been started. -/
def StartsChild (l : List (Turn StdioOp)) : Prop :=
  ∃ a ∈ l, ∃ child, a.op.started a.answer = some child

/-- The operations of an attempt that gets no child. -/
def StdioOp.Childless : StdioOp β → Prop
  | .spawn _ _ _ _ => True
  | o => o.Bystanding

/-- How an attempt fails. The first two are what can happen to a backend that is not connected. -/
inductive FailedConnect : List (Turn StdioOp) → Prop where
  /-- no child is started -/
  | childless {l : List (Turn StdioOp)} (quiet : ∀ a ∈ l, a.op.Childless)
    (unstarted : ¬ StartsChild l) (down : ⟨.isConnected, false⟩ ∈ l) : FailedConnect l
  /-- the child is started and kept, and the handshake fails -/
  | unshaken {command : String} {args : List String} {env : List (String × String)}
    {cwd : Option String} {child : Nat} {rest : List (Turn StdioOp)}
    (quiet : ∀ a ∈ rest, a.op.Bystanding) :
    FailedConnect (⟨.isConnected, false⟩ ::
      ⟨.spawn command args env cwd, .ok ⟨child, true, true⟩⟩ :: ⟨.setStdin child, ()⟩ ::
      ⟨.setChild child, ()⟩ :: rest)
  /-- `connected` was set, but there was no result -/
  | uncached : FailedConnect [⟨.isConnected, true⟩, ⟨.loadInit, none⟩]

section Attempts

variable {b : StdioBackend} {l : List (Turn StdioOp)} {e : BackendError}

/-- Once it has a child, an attempt that fails undoes nothing. -/
theorem failed_openChild {child : Nat} (h : (b.openChild child).Performs l (.done (.error e))) :
    ∃ rest, l = ⟨.setStdin child, ()⟩ :: ⟨.setChild child, ()⟩ :: rest ∧
      ∀ a ∈ rest, a.op.Bystanding := by
  simp only [StdioBackend.openChild, Prog.bind_eq, Prog.perform_bind] at h
  obtain ⟨_, _, rfl, _, _, rfl, _, l, rfl, h⟩ := h
  refine ⟨_, rfl, fun a ha => ?_⟩
  rcases List.mem_cons.mp ha with rfl | ha
  · trivial
  rcases h.of_bind with ⟨first, reply, rest, rfl, hfirst, hrest⟩ | ⟨hx, -⟩
  · rcases List.mem_append.mp ha with ha | ha
    · exact hfirst.uses (uses_sendRequest b _ _ _ _) a ha
    cases reply with
    | error e' =>
      obtain ⟨rfl, -⟩ := hrest
      cases ha
    | ok result =>
      dsimp only at hrest
      cases hinit : result.toInitializeResult with
      | none =>
        rw [hinit] at hrest
        obtain ⟨rfl, -⟩ := hrest
        cases ha
      | some init =>
        rw [hinit] at hrest
        rcases Prog.Performs.of_bind hrest with ⟨sent, written, rest, rfl, hsent, hrest⟩ | ⟨hx, -⟩
        · rcases List.mem_append.mp ha with ha | ha
          · exact hsent.uses (uses_sendMessage _) a ha
          cases written with
          | error e' =>
            obtain ⟨rfl, -⟩ := hrest
            cases ha
          | ok =>
            -- an attempt that has come so far succeeds
            obtain ⟨_, _, -, _, _, -, -, hx⟩ := hrest
            cases hx
        · cases hx
  · cases hx

/-- **How a `connect` fails.** -/
theorem failed_connect (h : b.connect.Performs l (.done (.error e))) : FailedConnect l := by
  simp only [StdioBackend.connect, Prog.bind_eq, Prog.perform_bind] at h
  obtain ⟨connected, l, rfl, h⟩ := h
  dsimp only at h
  cases connected with
  | true =>
    rw [if_pos rfl] at h
    obtain ⟨cached, l, rfl, h⟩ := h
    cases cached with
    | some init =>
      obtain ⟨-, hx⟩ := h
      cases hx
    | none =>
      obtain ⟨rfl, -⟩ := h
      exact .uncached
  | false =>
    rw [if_neg Bool.false_ne_true] at h
    cases htransport : b.transport with
    | http url token oauth2 =>
      rw [htransport] at h
      obtain ⟨rfl, -⟩ := h
      refine .childless (fun a ha => ?_) ?_ List.mem_cons_self
      · obtain rfl := List.mem_singleton.mp ha
        trivial
      · rintro ⟨a, ha, child, hstarted⟩
        obtain rfl := List.mem_singleton.mp ha
        cases hstarted
    | stdio command args env cwd =>
      rw [htransport] at h
      obtain ⟨answer, l, rfl, h⟩ := h
      -- an attempt that ends here
      have alone (hanswer : (StdioOp.spawn command args env cwd).started answer = none) :
          FailedConnect [⟨.isConnected, false⟩, ⟨.spawn command args env cwd, answer⟩] := by
        refine .childless (fun a ha => ?_) ?_ List.mem_cons_self
        · rcases List.mem_cons.mp ha with rfl | ha
          · trivial
          · obtain rfl := List.mem_singleton.mp ha
            trivial
        · rintro ⟨a, ha, child, hstarted⟩
          rcases List.mem_cons.mp ha with rfl | ha
          · cases hstarted
          · obtain rfl := List.mem_singleton.mp ha
            rw [hanswer] at hstarted
            cases hstarted
      cases answer with
      | error text =>
        obtain ⟨rfl, -⟩ := h
        exact alone rfl
      | ok spawned =>
        obtain ⟨child, hasStdin, hasStdout⟩ := spawned
        dsimp only at h
        cases hasStdin with
        | false =>
          rw [if_pos Bool.false_ne_true] at h
          obtain ⟨rfl, -⟩ := h
          exact alone rfl
        | true =>
          rw [if_neg (not_not_intro rfl)] at h
          cases hasStdout with
          | false =>
            rw [if_pos Bool.false_ne_true] at h
            obtain ⟨rfl, -⟩ := h
            exact alone rfl
          | true =>
            rw [if_neg (not_not_intro rfl)] at h
            obtain ⟨rest, rfl, hquiet⟩ := failed_openChild h
            exact .unshaken hquiet

end Attempts

/-! ## What it leaves -/

/-- The backend is dead: it is not connected, has no stdin, and holds no child that was started
since the state `s`. -/
structure LeftDead (s t : StdioWorld ι) : Prop where
  down : t.connected = false
  stdin : t.stdin = none
  child : ∀ child, t.child = some child → child < s.spawned

/-- What an operation makes of the stdin and the child that are held. -/
def StdioOp.holding : StdioOp β → Option Nat × Option Nat → Option Nat × Option Nat
  | .setStdin child, (_, held) => (some child, held)
  | .clearStdin, (_, held) => (none, held)
  | .setChild child, (stdin, _) => (stdin, some child)
  | .takeChild, (stdin, _) => (stdin, none)
  | _, held => held

section Steps

variable {i : ι} {o : StdioOp β} {a : β} {e : StdioChoice} {s t : StdioWorld ι}

theorem holding_childless (ho : o.Childless) (held : Option Nat × Option Nat) :
    o.holding held = held := by
  cases o <;> first | rfl | exact ho.elim

theorem establishes_childless (ho : o.Childless) : establishes o = none := by
  cases o <;> first | rfl | exact ho.elim

theorem childless_of_bystanding (ho : o.Bystanding) : o.Childless := by
  cases o <;> first | exact trivial | exact ho

/-- What a step does to the connection: which stdin and child it holds, whether it is up, and how
many children have been started. -/
theorem exec_connection (h : (stdioMachine ι).exec i β o e s = some (a, t)) :
    (t.stdin, t.child) = o.holding (s.stdin, s.child) ∧
      (t.connected = true → s.connected = true ∨ ∃ child, establishes o = some child) ∧
      s.spawned ≤ t.spawned ∧ ∀ child, o.started a = some child → s.spawned ≤ child := by
  cases o with
  | establish child =>
    cases h
    exact ⟨rfl, fun _ => .inr ⟨child, rfl⟩, Nat.le_refl _, fun _ h => by cases h⟩
  | markClosed | markDown =>
    cases h
    exact ⟨rfl, (fun h => by cases h), Nat.le_refl _, fun _ h => by cases h⟩
  | spawn =>
    simp only [stdioMachine, StdioWorld.exec] at h
    split at h
    · cases h
      exact ⟨rfl, .inl, Nat.le_refl _, fun _ h => by cases h⟩
    · rename_i hasStdin hasStdout _
      cases h
      refine ⟨rfl, .inl, Nat.le_succ _, fun child hstarted => ?_⟩
      cases hasStdin <;> cases hasStdout <;> cases hstarted
      exact Nat.le_refl _
  | tryForget =>
    cases h
    split <;> exact ⟨rfl, .inl, Nat.le_refl _, fun _ h => by cases h⟩
  | setStdin | clearStdin | setChild | lockChild | lockWrite | lockStdin | beginReading =>
    simp only [stdioMachine, StdioWorld.exec] at h
    split at h <;> cases h
    exact ⟨rfl, .inl, Nat.le_refl _, fun _ h => by cases h⟩
  | await channel =>
    obtain ⟨_, -, heq⟩ := Option.map_eq_some_iff.mp h
    cases heq
    exact ⟨rfl, .inl, Nat.le_refl _, fun _ h => by cases h⟩
  | _ =>
    cases h
    exact ⟨rfl, .inl, Nat.le_refl _, fun _ h => by cases h⟩

theorem exec_isConnected {connected : Bool}
    (h : (stdioMachine ι).exec i _ .isConnected e s = some (connected, t)) :
    connected = s.connected := by
  cases h
  rfl

end Steps

/-- The stdin and the child that are held after a transcript. -/
def holdingAfter (held : Option Nat × Option Nat) (l : List (Turn StdioOp)) :
    Option Nat × Option Nat := l.foldl (fun held a => a.op.holding held) held

theorem holdingAfter_childless {l : List (Turn StdioOp)} (h : ∀ a ∈ l, a.op.Childless)
    (held : Option Nat × Option Nat) : holdingAfter held l = held := by
  induction l with
  | nil => rfl
  | cons a l ih =>
    obtain ⟨ha, hl⟩ := List.forall_mem_cons.mp h
    rw [holdingAfter, List.foldl_cons, holding_childless ha]
    exact ih hl

/-- Somebody has set `connected`. -/
def Established (l : List (Turn StdioOp)) : Prop :=
  ∃ a ∈ l, ∃ child, establishes a.op = some child

section Runs

variable [DecidableEq ι]

/-- One task makes and closes connections, and all others leave them alone. The others may send
requests, wait for responses and give up. -/
structure OneConnects (start : StdioWorld ι) (me : ι) (c : Pool StdioOp ι (StdioRun ι) α) :
    Prop where
  others : ∀ i ≠ me, (c.task i).Uses StdioOp.Bystanding
  held : (c.shared.state.stdin, c.shared.state.child) =
    holdingAfter (start.stdin, start.child) (transcript me c.shared.log)
  up : c.shared.state.connected = true → Established (transcript me c.shared.log)
  seen : ⟨.isConnected, true⟩ ∈ transcript me c.shared.log →
    Established (transcript me c.shared.log)
  grown : start.spawned ≤ c.shared.state.spawned
  started : ∀ a ∈ transcript me c.shared.log, ∀ child, a.op.started a.answer = some child →
    start.spawned ≤ child

variable {start : StdioWorld ι} {me : ι} {l : ι × StdioChoice}
  {c c' : Pool StdioOp ι (StdioRun ι) α}

theorem Established.append {l l' : List (Turn StdioOp)} (h : Established l) :
    Established (l ++ l') := by
  obtain ⟨a, ha, h⟩ := h
  exact ⟨a, List.mem_append_left _ ha, h⟩

theorem OneConnects.step (h : OneConnects start me c)
    (hstep : (stdioMachine ι).recorded.step l c = some c') : OneConnects start me c' := by
  obtain ⟨q, hfire, htask⟩ := Machine.step_eq_some _ hstep
  obtain ⟨δ, o, k, a, hop, hexec, rfl⟩ := Machine.fire_eq_some _ hfire
  obtain ⟨hexec, hlog⟩ := Machine.recorded_exec hexec
  obtain ⟨hheld, hup, hgrown, hstarted⟩ := exec_connection hexec
  have hgrown' := Nat.le_trans h.grown hgrown
  by_cases hme : l.1 = me
  · subst hme
    have hothers : ∀ i ≠ l.1, (c'.task i).Uses StdioOp.Bystanding := by
      intro i hi
      rw [Machine.step_task_ne _ hstep hi]
      exact h.others i hi
    have htranscript : transcript l.1 c'.shared.log = transcript l.1 c.shared.log ++ [⟨o, a⟩] := by
      rw [hlog, transcript, if_pos rfl]
    refine ⟨hothers, ?_, fun hconnected => ?_, fun hseen => ?_, hgrown', fun x hx child hx' => ?_⟩
    · rw [hheld, h.held, htranscript, holdingAfter, holdingAfter, List.foldl_append]
      rfl
    · rw [htranscript]
      rcases hup hconnected with hconnected | hestablishes
      · exact (h.up hconnected).append
      · exact ⟨_, List.mem_append_right _ (List.mem_singleton_self _), hestablishes⟩
    · rw [htranscript] at hseen ⊢
      rcases List.mem_append.mp hseen with hseen | hseen
      · exact (h.seen hseen).append
      · cases List.mem_singleton.mp hseen
        exact (h.up (exec_isConnected hexec).symm).append
    · rw [htranscript] at hx
      rcases List.mem_append.mp hx with hx | hx
      · exact h.started x hx child hx'
      · obtain rfl := List.mem_singleton.mp hx
        exact Nat.le_trans h.grown (hstarted child hx')
  · have huses := h.others l.1 hme
    rw [hop] at huses
    have hquiet := childless_of_bystanding huses.1
    have htranscript : transcript me c'.shared.log = transcript me c.shared.log := by
      rw [hlog, transcript, if_neg hme]
    refine ⟨fun i hi => ?_, ?_, fun hconnected => ?_, ?_, hgrown', ?_⟩
    · by_cases hil : i = l.1
      · subst hil
        rw [htask, Function.update_self]
        exact huses.2 a
      · rw [Machine.step_task_ne _ hstep hil]
        exact h.others i hi
    · rw [hheld, holding_childless hquiet, htranscript]
      exact h.held
    · rw [htranscript]
      rcases hup hconnected with hconnected | ⟨child, hestablishes⟩
      · exact h.up hconnected
      · rw [establishes_childless hquiet] at hestablishes
        cases hestablishes
    · rw [htranscript]
      exact h.seen
    · rw [htranscript]
      exact h.started

/-- One caller connects, any number of others make requests, and every child has its reader
task. -/
def StdioBackend.connectPool (b : StdioBackend) (others : ι → List StdioCall)
    (output : Nat → List String) (start : StdioWorld (Option ι ⊕ Nat)) :
    Pool StdioOp (Option ι ⊕ Nat) (StdioRun (Option ι ⊕ Nat))
      (Option (BackendResult InitializeResult)) where
  shared := ⟨start, []⟩
  task := Sum.elim
    (fun i => i.elim (b.connect.bind fun r => .ret (some r)) fun i =>
      (b.calls (others i)).bind fun _ => .ret none)
    fun child => (b.readerTask child (output child)).bind fun _ => .ret none

theorem oneConnects_connectPool {b : StdioBackend} {others : ι → List StdioCall}
    (hothers : ∀ i, ∀ call ∈ others i, call ≠ .connect ∧ call ≠ .disconnect)
    {output : Nat → List String} {start : StdioWorld (Option ι ⊕ Nat)}
    (hdown : start.connected = false) :
    OneConnects start (.inl none) (b.connectPool others output start) := by
  refine ⟨fun i hi => ?_, rfl, fun hup => ?_, nofun, Nat.le_refl _, nofun⟩
  · match i with
    | .inl none => exact absurd rfl hi
    | .inl (some i) => exact (uses_calls b (hothers i)).bind fun _ => trivial
    | .inr child => exact (uses_readerTask b child _).bind fun _ => trivial
  · have hup : start.connected = true := hup
    rw [hdown] at hup
    cases hup

/-- **When a failed `connect` leaves the backend dead.** Over every run in which nobody else
connects or disconnects, whatever the child and the other callers do, a `connect` that fails
leaves a dead backend if and only if it has not started a child process, and there was no stdin
before. A child that has been started stays in the state with its stdin, whatever makes the
handshake fail after that. -/
theorem failed_connect_leaves_dead_iff (b : StdioBackend) {others : ι → List StdioCall}
    (hothers : ∀ i, ∀ call ∈ others i, call ≠ .connect ∧ call ≠ .disconnect)
    (output : Nat → List String) {start : StdioWorld (Option ι ⊕ Nat)}
    (hdown : start.connected = false)
    (hchild : ∀ child, start.child = some child → child < start.spawned)
    {schedule : List ((Option ι ⊕ Nat) × StdioChoice)}
    {c : Pool StdioOp (Option ι ⊕ Nat) (StdioRun (Option ι ⊕ Nat))
      (Option (BackendResult InitializeResult))}
    (hp : (stdioMachine (Option ι ⊕ Nat)).recorded.play schedule
      (b.connectPool others output start) = some c)
    {e : BackendError} (hfailed : c.task (.inl none) = .ret (some (.error e))) :
    LeftDead start c.shared.state ↔
      start.stdin = none ∧ ¬ StartsChild (transcript (.inl none) c.shared.log) := by
  have hone : OneConnects start (.inl none) c := Machine.play_induct _
    (P := OneConnects start (.inl none)) (C := fun _ _ _ _ _ => True)
    (fun _ _ _ h _ hstep => h.step hstep) (oneConnects_connectPool hothers hdown)
    (Machine.meets_true _ _ _) hp
  have hperformed : (b.connect.bind fun r => .ret (some r)).Performs
      (transcript (.inl none) c.shared.log) (.done (some (.error e))) :=
    performs_of_play hp hfailed
  have hattempt : FailedConnect (transcript (.inl none) c.shared.log) := by
    rcases hperformed.of_bind with ⟨first, r, rest, hl, hconnect, rfl, hr⟩ | ⟨hx, -⟩
    · cases hr
      rw [hl, List.append_nil]
      exact failed_connect hconnect
    · cases hx
  have hheld := hone.held
  have hup := hone.up
  have hseen := hone.seen
  generalize transcript (.inl none) c.shared.log = l at hattempt hheld hup hseen
  cases hattempt with
  | childless quiet unstarted down =>
    rw [holdingAfter_childless quiet] at hheld
    obtain ⟨hstdin, hkept⟩ := Prod.mk.inj hheld
    have hclear : c.shared.state.connected = false := by
      refine Bool.eq_false_iff.mpr fun hconnected => ?_
      obtain ⟨a, ha, child, hestablishes⟩ := hup hconnected
      rw [establishes_childless (quiet a ha)] at hestablishes
      cases hestablishes
    refine ⟨fun h => ⟨hstdin.symm.trans h.stdin, unstarted⟩, fun h => ?_⟩
    exact ⟨hclear, hstdin.trans h.1, fun child h => hchild child (hkept.symm.trans h)⟩
  | unshaken quiet =>
    rename_i command args env cwd child rest
    have hrest : ∀ a ∈ rest, a.op.Childless := fun a ha => childless_of_bystanding (quiet a ha)
    have hstdin : c.shared.state.stdin = some child :=
      congrArg Prod.fst (hheld.trans (holdingAfter_childless hrest (some child, some child)))
    refine iff_of_false (fun h => ?_) fun h => h.2 ?_
    · cases hstdin.symm.trans h.stdin
    · exact ⟨_, List.mem_cons_of_mem _ List.mem_cons_self, child, rfl⟩
  | uncached =>
    obtain ⟨a, ha, child, hestablishes⟩ := hseen List.mem_cons_self
    rcases List.mem_cons.mp ha with rfl | ha
    · cases hestablishes
    · obtain rfl := List.mem_singleton.mp ha
      cases hestablishes

end Runs

/-! ### A command that is not there, and a child that does not answer -/

/-- The command cannot be run. -/
def missingCommand : List ((Option Empty ⊕ Nat) × StdioChoice) :=
  turns (.inl none) [{}, { spawn := .error "No such file or directory (os error 2)" }]

/-- The child says nothing until the time is over. -/
def silentChild : List ((Option Empty ⊕ Nat) × StdioChoice) :=
  List.flatten [turns (.inl none) (List.replicate 14 {}),
    turns (.inl none) [{ timeout := true }, {}]]

/-- Without a child, nothing is left. -/
theorem missing_command_leaves_nothing :
    ∃ c, (stdioMachine (Option Empty ⊕ Nat)).recorded.play missingCommand
        (sampleStdio.connectPool Empty.elim (fun _ => []) (.fresh _)) = some c ∧
      LeftDead (.fresh _) c.shared.state := by
  obtain ⟨c, hc, hfailed, hstarts⟩ : ∃ c,
      (stdioMachine (Option Empty ⊕ Nat)).recorded.play missingCommand
        (sampleStdio.connectPool Empty.elim (fun _ => []) (.fresh _)) = some c ∧
      c.task (.inl none) = .ret (some (.error ⟨.connection,
        "failed to spawn backend 'api': No such file or directory (os error 2)"⟩)) ∧
      transcript (.inl none) c.shared.log = [⟨.isConnected, false⟩,
        ⟨.spawn "api-server" [] [] none, .error "No such file or directory (os error 2)"⟩] :=
    ⟨_, rfl, rfl, rfl⟩
  have hchild : ∀ child, (StdioWorld.fresh (Option Empty ⊕ Nat)).child = some child →
      child < (StdioWorld.fresh (Option Empty ⊕ Nat)).spawned := by
    rintro _ ⟨⟩
  refine ⟨c, hc, (failed_connect_leaves_dead_iff sampleStdio (fun i => i.elim) (fun _ => []) rfl
    hchild hc hfailed).mpr ⟨rfl, ?_⟩⟩
  rw [hstarts]
  rintro ⟨a, ha, child, hstarted⟩
  rcases List.mem_cons.mp ha with rfl | ha
  · cases hstarted
  · obtain rfl := List.mem_singleton.mp ha
    cases hstarted

/-- A child that did not answer in time is still held, and so is its stdin. -/
theorem silent_child_is_kept :
    ∃ c, (stdioMachine (Option Empty ⊕ Nat)).recorded.play silentChild
        (sampleStdio.connectPool Empty.elim (fun _ => []) (.fresh _)) = some c ∧
      c.task (.inl none) = .ret (some (.error ⟨.timeout,
        "request 'initialize' to backend 'api' timed out after 30s"⟩)) ∧
      c.shared.state.stdin = some 0 ∧ c.shared.state.child = some 0 ∧
      ¬ LeftDead (.fresh _) c.shared.state := by
  refine ⟨_, rfl, rfl, rfl, rfl, fun h => ?_⟩
  cases h.stdin

end HeadlessMcp
