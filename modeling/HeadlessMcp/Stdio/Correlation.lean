import HeadlessMcp.Async.Ledger
import HeadlessMcp.Stdio.World

/-!
# Responses and requests

A request is written under a number of its own, and its sender is kept in `pending` under that
number until a response with the number arrives. The numbers come from one counter for all
connections, so a response can only be for the one request that has its number, whatever else
the children write, and however many callers wait, give up, disconnect and connect again.

What one task does is a ledger: it draws a number, registers it, waits on the channel that it
got for it. What all of them do together is an invariant of the history.
-/

namespace HeadlessMcp

open Async Machine

variable {ι α β : Type}

/-! ## What a call does besides its requests -/

/-- The operations of a call that belong to none of its requests. -/
def StdioOp.Around : StdioOp β → Prop
  | .nextId | .register _ _ | .writeAll _ (.request _ _ _) | .await _ _ | .tryForget _
  | .beginReading _ | .nextLine _ _ | .settle _ _ | .endOfOutput _ | .markDown _
  | .drain _ _ => False
  | _ => True

theorem around_notify (method : String) (params : Option Value) :
    (sendMessage (.notification method params)).Uses StdioOp.Around := by
  refine ⟨trivial, fun _ => Prog.Uses.andFinally ⟨trivial, fun _ => ?_⟩ trivial⟩
  refine Prog.Uses.andFinally ⟨trivial, fun stdin => ?_⟩ trivial
  cases stdin with
  | none => trivial
  | some child =>
    refine ⟨trivial, fun written => ?_⟩
    cases written with
    | error e => trivial
    | ok =>
      refine ⟨trivial, fun flushed => ?_⟩
      cases flushed <;> trivial

theorem around_disconnect : StdioBackend.disconnect.Uses StdioOp.Around := by
  refine ⟨trivial, fun _ => ⟨trivial, fun _ => Prog.Uses.bind (p := StdioBackend.killChild)
    ⟨trivial, fun _ => Prog.Uses.andFinally ⟨trivial, fun taken => ?_⟩ trivial⟩ fun _ => trivial⟩⟩
  cases taken with
  | none => trivial
  | some child => exact ⟨trivial, fun _ => trivial⟩

section Calls

variable {τ : Type} {L : Ledger StdioOp τ} {J : τ → Prop} {b : StdioBackend}
  (haround : ∀ {δ : Type} (o : StdioOp δ) u, o.Around → J u →
    L.inOrder o u ∧ ∀ answer, J (L.next o answer u))
  (hsend : ∀ method params timeoutSecs handshake u, J u →
    (b.sendRequest method params timeoutSecs handshake).Keeps L (fun _ v => J v) u)

include haround

theorem frame_around {p : Prog StdioOp α} (hp : p.Uses StdioOp.Around) {u : τ} (hu : J u) :
    p.Keeps L (fun _ v => J v) u :=
  Prog.Keeps.of_uses (A := StdioOp.Around) haround hp hu

/-- What is only done while `connected` is set. -/
theorem frame_ifConnected {p q : Prog StdioOp α} {u : τ} (hu : J u)
    (hp : ∀ u, J u → p.Keeps L (fun _ v => J v) u) (hq : ∀ u, J u → q.Keeps L (fun _ v => J v) u) :
    (.op .isConnected fun connected => if connected then p else q : Prog StdioOp α).Keeps L
      (fun _ v => J v) u := by
  obtain ⟨horder, hnext⟩ := haround .isConnected u trivial hu
  refine ⟨horder, fun connected => ?_⟩
  cases connected with
  | true => exact hp _ (hnext true)
  | false => exact hq _ (hnext false)

include hsend

theorem frame_openChild (child : Nat) {u : τ} (hu : J u) :
    (b.openChild child).Keeps L (fun _ v => J v) u := by
  obtain ⟨hstdin, hu⟩ := haround (.setStdin child) u trivial hu
  refine ⟨hstdin, fun _ => ?_⟩
  obtain ⟨hchild, hu⟩ := haround (.setChild child) _ trivial (hu ())
  refine ⟨hchild, fun _ => ?_⟩
  obtain ⟨hreader, hu⟩ := haround (.startReader child) _ trivial (hu ())
  refine ⟨hreader, fun _ => ?_⟩
  refine ((hsend _ _ _ _ _ (hu ())).mono fun reply u hu => ?_).bind
  cases reply with
  | error e => exact hu
  | ok result =>
    dsimp only
    cases result.toInitializeResult with
    | none => exact hu
    | some init =>
      refine ((frame_around haround (around_notify _ _) hu).mono fun sent u hu => ?_).bind
      cases sent with
      | error e => exact hu
      | ok =>
        obtain ⟨hstore, hu⟩ := haround (.storeInit init) u trivial hu
        refine ⟨hstore, fun _ => ?_⟩
        obtain ⟨hestablish, hu⟩ := haround (.establish child) _ trivial (hu ())
        exact ⟨hestablish, hu⟩

theorem frame_connect {u : τ} (hu : J u) : b.connect.Keeps L (fun _ v => J v) u := by
  refine frame_ifConnected haround hu (fun u hu => ?_) fun u hu => ?_
  · obtain ⟨hload, hu⟩ := haround .loadInit u trivial hu
    refine ⟨hload, fun cached => ?_⟩
    cases cached with
    | none => exact hu none
    | some init => exact hu (some init)
  · cases b.transport with
    | http => exact hu
    | stdio command args env cwd =>
      obtain ⟨hspawn, hu⟩ := haround (.spawn command args env cwd) u trivial hu
      refine ⟨hspawn, fun spawned => ?_⟩
      cases spawned with
      | error e => exact hu _
      | ok spawned =>
        simp only [Prog.ret_bind]
        split
        · exact hu _
        · split
          · exact hu _
          · exact frame_openChild haround hsend spawned.child (hu _)

theorem frame_call (c : StdioCall) {u : τ} (hu : J u) :
    (b.call c).Keeps L (fun _ v => J v) u := by
  cases c with
  | connect => exact ((frame_connect haround hsend hu).mono fun _ _ hu => hu).bind
  | disconnect =>
    exact ((frame_around haround around_disconnect hu).mono fun _ _ hu => hu).bind
  | listTools =>
    refine ((frame_ifConnected haround hu (fun u hu => ?_) fun u hu => ?_).mono
      fun _ _ hu => hu).bind
    · refine ((hsend _ _ _ _ u hu).mono fun reply u hu => ?_).bind
      cases reply with
      | error e => exact hu
      | ok result =>
        dsimp only
        split <;> exact hu
    · exact hu
  | callTool name arguments timeoutSecs =>
    refine ((frame_ifConnected haround hu (fun u hu => ?_) fun u hu => ?_).mono
      fun _ _ hu => hu).bind
    · exact hsend _ _ _ _ u hu
    · exact hu
  | request method params timeoutSecs =>
    refine ((frame_ifConnected haround hu (fun u hu => ?_) fun u hu => ?_).mono
      fun _ _ hu => hu).bind
    · exact hsend _ _ _ _ u hu
    · exact hu
  | healthCheck =>
    refine ((frame_ifConnected haround hu (fun u hu => ?_) fun u hu => ?_).mono
      fun _ _ hu => hu).bind
    · refine ((hsend _ _ _ _ u hu).mono fun reply u hu => ?_).bind
      cases reply <;> exact hu
    · exact hu

/-- The frame rule of the calls: they keep what their requests and all that is around them
keep. -/
theorem frame_calls (cs : List StdioCall) {u : τ} (hu : J u) :
    (b.calls cs).Keeps L (fun _ v => J v) u := by
  induction cs generalizing u with
  | nil => exact hu
  | cons c cs ih => exact ((frame_call haround hsend c hu).mono fun _ _ hu => ih hu).bind

end Calls

/-! ## What one task does -/

/-- Where a task stands: a caller with its request, or a reader task with its line. -/
inductive Correlating : Type where
  | idle : Correlating
  /-- a number was drawn for a request -/
  | drawn (n : Nat) : Correlating
  /-- the request is registered -/
  | waiting (id : Int) (channel : Nat) : Correlating
  /-- its response has come -/
  | answered (id : Int) (channel : Nat) (r : BackendResult Value) : Correlating
  /-- a line was read -/
  | reading (child : Nat) (line : String) : Correlating

/-- What an operation makes of it. A line is used up by the response that it carries. -/
def StdioOp.correlating : StdioOp β → β → Correlating → Correlating
  | .nextId, n, _ => .drawn n
  | .register id _, channel, _ => .waiting id channel
  | .await _ _, .answered r, .waiting id channel => .answered id channel r
  | .nextLine child line, _, _ => .reading child line
  | .settle _ _, _, _ => .idle
  | _, _, t => t

/-- Which operations are in order: a request is registered under the number drawn for it, its
caller waits on its own channel, and a reader task passes on what a line of its child says. -/
def StdioOp.correlates (b : StdioBackend) (output : Nat → List String) :
    StdioOp β → Correlating → Prop
  | .register id _, t => ∃ n, t = .drawn n ∧ id = asI64 n
  | .await channel _, t => ∃ id, t = .waiting id channel
  | .nextLine child line, _ => line ∈ output child
  | .settle id r, t => ∃ child line, t = .reading child line ∧
      ∀ v, r = .ok v → decodeMessage b.serde line = .ok (.success (.number id) v)
  | _, _ => True

/-- The two as a ledger. -/
def stdioLedger (b : StdioBackend) (output : Nat → List String) : Ledger StdioOp Correlating :=
  ⟨StdioOp.correlating, StdioOp.correlates b output⟩

/-- The operations that are always in order and change nothing. -/
def StdioOp.Plain : StdioOp β → Prop
  | .nextId | .register _ _ | .await _ _ | .nextLine _ _ | .settle _ _ => False
  | _ => True

section Walk

variable {b : StdioBackend} {output : Nat → List String} {p : Prog StdioOp α}
  {Q : α → Correlating → Prop} {t : Correlating} {method : String} {params : Option Value}
  {timeoutSecs : Nat} {handshake : Option Nat} {o : StdioOp β}

theorem Plain.next (ho : o.Plain) (answer : β) : o.correlating answer t = t := by
  cases o <;> first | rfl | exact False.elim ho

theorem Plain.inOrder (ho : o.Plain) : o.correlates b output t := by
  cases o <;> trivial

theorem correlates_plain (hp : p.Uses StdioOp.Plain) :
    p.Keeps (stdioLedger b output) (fun _ u => u = t) t :=
  Prog.Keeps.of_uses (J := (· = t))
    (fun _ _ ho hu => ⟨Plain.inOrder ho, fun answer => (Plain.next ho answer).trans hu⟩) hp rfl

theorem plain_sendMessage (message : JsonRpcMessage) :
    (sendMessage message).Uses StdioOp.Plain := by
  refine ⟨trivial, fun _ => Prog.Uses.andFinally ⟨trivial, fun _ => ?_⟩ trivial⟩
  refine Prog.Uses.andFinally ⟨trivial, fun stdin => ?_⟩ trivial
  cases stdin with
  | none => trivial
  | some child =>
    refine ⟨trivial, fun written => ?_⟩
    cases written with
    | error e => trivial
    | ok =>
      refine ⟨trivial, fun flushed => ?_⟩
      cases flushed <;> trivial

/-- A request that returned `Ok` has been answered. -/
def ReturnsAnswer (x : BackendResult Value) (t : Correlating) : Prop :=
  ∀ v, x = .ok v → ∃ id channel, t = .answered id channel (.ok v)

/-- **A request draws its number, registers it, and waits on its own channel.** -/
theorem correlates_sendRequest :
    (b.sendRequest method params timeoutSecs handshake).Keeps (stdioLedger b output)
      ReturnsAnswer t := by
  refine ⟨trivial, fun n => ⟨⟨n, rfl, rfl⟩, fun channel => ?_⟩⟩
  refine ((correlates_plain (plain_sendMessage _)).mono fun sent u hu => ?_).bind
  subst hu
  cases sent with
  | error e => exact nofun
  | ok =>
    refine ⟨⟨asI64 n, rfl⟩, fun awaited => ?_⟩
    cases awaited with
    | answered r =>
      intro v h
      exact ⟨asI64 n, channel, by rw [← h]; rfl⟩
    | dropped => exact nofun
    | timedOut => exact ⟨trivial, fun _ => nofun⟩

theorem correlates_calls (cs : List StdioCall) :
    (b.calls cs).Keeps (stdioLedger b output) (fun _ _ => True) t := by
  refine frame_calls (J := fun _ => True) (fun o u ho _ => ⟨?_, fun _ => trivial⟩)
    (fun _ _ _ _ u _ => correlates_sendRequest.mono fun _ _ _ => trivial) cs trivial
  cases o <;> trivial

/-- A line is passed on only as the response that it is. -/
theorem correlates_handleLine {child : Nat} {line : String} (ht : t = .reading child line) :
    (b.handleLine line).Keeps (stdioLedger b output) (fun _ _ => True) t := by
  unfold StdioBackend.handleLine
  split
  · trivial
  · split
    · rename_i n result hdecode
      refine ⟨⟨child, line, ht, fun v h => ?_⟩, fun _ => trivial⟩
      cases h
      exact hdecode
    · exact ⟨⟨child, line, ht, nofun⟩, fun _ => trivial⟩
    · trivial

theorem correlates_readResponses {child : Nat} {lines : List String}
    (hlines : ∀ line ∈ lines, line ∈ output child) :
    (b.readResponses child lines).Keeps (stdioLedger b output) (fun _ _ => True) t := by
  induction lines generalizing t with
  | nil => exact ⟨trivial, fun _ => trivial⟩
  | cons line lines ih =>
    refine ⟨hlines line List.mem_cons_self, fun _ => ?_⟩
    refine ((correlates_handleLine rfl).mono fun _ _ _ => ?_).bind
    exact ih fun line' hline => hlines line' (List.mem_cons_of_mem line hline)

theorem correlates_readerTask (child : Nat) :
    (b.readerTask child (output child)).Keeps (stdioLedger b output) (fun _ _ => True) t := by
  refine ⟨trivial, fun _ => ?_⟩
  refine ((correlates_readResponses fun _ h => h).mono fun _ _ _ => ?_).bind
  exact ⟨trivial, fun _ => ⟨trivial, fun _ => trivial⟩⟩

end Walk

/-! ## Reading a history -/

/-- A history of a stdio backend. -/
abbrev StdioHistory (ι : Type) : Type 1 := List (Performed StdioOp ι)

/-- A state of a stdio backend with its history. -/
abbrev StdioRun (ι : Type) : Type 1 := Recorded StdioOp ι (StdioWorld ι)

/-- An operation that draws a number for a request. -/
def StdioOp.draws : StdioOp β → Bool
  | .nextId => true
  | _ => false

/-- How many requests have been made. -/
def requests (l : StdioHistory ι) : Nat := l.countP fun p => p.op.draws

/-- A request in the map of pending requests: its caller, its number and its channel. -/
structure Registration (ι : Type) : Type where
  caller : ι
  id : Int
  channel : Nat

/-- The request that an operation registers. -/
def StdioOp.registration (i : ι) : StdioOp β → β → Option (Registration ι)
  | .register id _, channel => some ⟨i, id, channel⟩
  | _, _ => none

/-- All requests, newest first. -/
def registered (l : StdioHistory ι) : List (Registration ι) :=
  l.filterMap fun p => p.op.registration p.caller p.answer

/-- A child wrote the response, and it has been read. -/
def Wrote (b : StdioBackend) (output : Nat → List String) (l : StdioHistory ι) (id : Int)
    (v : Value) : Prop :=
  ∃ i child, ∃ line ∈ output child, ⟨i, .nextLine child line, ()⟩ ∈ l ∧
    decodeMessage b.serde line = .ok (.success (.number id) v)

theorem requests_cons {i : ι} {o : StdioOp β} {a : β} {l : StdioHistory ι} (ho : o.draws = false) :
    requests (⟨i, o, a⟩ :: l) = requests l := by
  rw [requests, List.countP_cons, ho]
  rfl

theorem registered_cons {i : ι} {o : StdioOp β} {a : β} {l : StdioHistory ι}
    (h : o.registration i a = none) :
    registered (⟨i, o, a⟩ :: l) = registered l := by
  rw [registered, List.filterMap_cons, h]
  rfl

/-- The counter counts. -/
theorem exec_counter {i : ι} {o : StdioOp β} {a : β} {e : StdioChoice} {s t : StdioWorld ι}
    (ho : o.draws = false)
    (h : (stdioMachine ι).exec i β o e s = some (a, t)) : t.requestCounter = s.requestCounter := by
  cases o with
  | nextId => cases ho
  | spawn =>
    simp only [stdioMachine, StdioWorld.exec] at h
    split at h <;> (cases h; rfl)
  | tryForget =>
    cases h
    split <;> rfl
  | setStdin | clearStdin | setChild | lockChild | lockWrite | lockStdin | beginReading =>
    simp only [stdioMachine, StdioWorld.exec] at h
    split at h <;> cases h
    rfl
  | await channel =>
    obtain ⟨_, -, heq⟩ := Option.map_eq_some_iff.mp h
    cases heq
    rfl
  | _ =>
    cases h
    rfl

/-- A number that was drawn is the id of its request. -/
theorem asI64_drawn {n m : Nat} (hn : n < m) (hm : m ≤ 2 ^ 63) : asI64 n = (n : Int) :=
  if_pos (Nat.lt_of_lt_of_le hn hm)

/-- The operations that touch the pending requests and their channels. -/
def StdioOp.routes : StdioOp β → Bool
  | .register _ _ | .tryForget _ | .settle _ _ | .drain _ _ => true
  | _ => false

theorem exec_unrouted {i : ι} {o : StdioOp β} {a : β} {e : StdioChoice} {s t : StdioWorld ι}
    (ho : o.routes = false)
    (h : (stdioMachine ι).exec i β o e s = some (a, t)) :
    t.pending = s.pending ∧ t.channels = s.channels ∧ t.channelCount = s.channelCount := by
  cases o with
  | register | tryForget | settle | drain => cases ho
  | spawn =>
    simp only [stdioMachine, StdioWorld.exec] at h
    split at h <;> (cases h; exact ⟨rfl, rfl, rfl⟩)
  | setStdin | clearStdin | setChild | lockChild | lockWrite | lockStdin | beginReading =>
    simp only [stdioMachine, StdioWorld.exec] at h
    split at h <;> cases h
    exact ⟨rfl, rfl, rfl⟩
  | await channel =>
    obtain ⟨_, -, heq⟩ := Option.map_eq_some_iff.mp h
    cases heq
    exact ⟨rfl, rfl, rfl⟩
  | _ =>
    cases h
    exact ⟨rfl, rfl, rfl⟩

theorem registration_unrouted {i : ι} {o : StdioOp β} {a : β} (ho : o.routes = false) :
    o.registration i a = none := by
  cases o with
  | register => cases ho
  | _ => rfl

/-- What is dropped brings no news. -/
theorem sent_of_resolve_dropped {s : StdioWorld ι} {entry : Option PendingRequest} {c : Nat}
    {r : BackendResult Value} (h : s.resolve entry .dropped c = .sent r) :
    s.channels c = .sent r := by
  rcases s.resolve_cases entry .dropped c with hsame | ⟨-, hnew⟩
  · exact hsame.symm.trans h
  · rw [hnew] at h
    cases h

/-- What was written stays written. -/
theorem Wrote.cons {b : StdioBackend} {output : Nat → List String} {l : StdioHistory ι} {id : Int}
    {v : Value} {p : Performed StdioOp ι} (h : Wrote b output l id v) : Wrote b output (p :: l) id v := by
  obtain ⟨i, child, line, hline, hread, hdecode⟩ := h
  exact ⟨i, child, line, hline, List.mem_cons_of_mem p hread, hdecode⟩

/-- A request stays registered. -/
theorem mem_registered_cons {r : Registration ι} {p : Performed StdioOp ι} {l : StdioHistory ι}
    (h : r ∈ registered l) : r ∈ registered (p :: l) := by
  obtain ⟨q, hq, hr⟩ := List.mem_filterMap.mp h
  exact List.mem_filterMap.mpr ⟨q, List.mem_cons_of_mem p hq, hr⟩

section Histories

variable [DecidableEq ι] (b : StdioBackend) (output : Nat → List String)

/-- Where a task stands after a history. -/
def stage (i : ι) (l : StdioHistory ι) : Correlating := (stdioLedger b output).after .idle i l

/-! ## Numbers -/

/-- Every number is drawn once and registered once. -/
structure Numbered (s : StdioRun ι) : Prop where
  counter : s.state.requestCounter = requests s.log
  few : requests s.log ≤ 2 ^ 63
  drawn : ∀ i n, stage b output i s.log = .drawn n →
    n < requests s.log ∧ ∀ r ∈ registered s.log, r.id ≠ n
  apart : ∀ i j n, stage b output i s.log = .drawn n → stage b output j s.log = .drawn n → i = j
  old : ∀ r ∈ registered s.log, ∃ n < requests s.log, r.id = (n : Int)
  distinct : ((registered s.log).map (·.id)).Nodup

/-- A number is drawn only while there are few requests. -/
def FewRequests : Rule StdioOp ι StdioChoice (StdioRun ι) :=
  fun _ _ o _ s => o.draws = true → requests s.log < 2 ^ 63

variable {b output} {i j : ι} {o : StdioOp β} {a : β} {e : StdioChoice} {s t : StdioRun ι}
  {l : StdioHistory ι}

/-- Only a draw leaves a task with a number. -/
theorem correlating_drawn {t : Correlating} {n : Nat} (ho : o.draws = false)
    (h : o.correlating a t = .drawn n) : t = .drawn n := by
  cases o with
  | nextId => cases ho
  | await =>
    cases a with
    | answered r => cases t <;> first | exact h | cases h
    | _ => exact h
  | register | nextLine | settle => cases h
  | _ => exact h

theorem stage_drawn {n : Nat} (ho : o.draws = false)
    (h : stage b output j (⟨i, o, a⟩ :: l) = .drawn n) : stage b output j l = .drawn n := by
  by_cases hij : i = j
  · subst hij
    rw [stage, Ledger.after_own] at h
    exact correlating_drawn ho h
  · rwa [stage, Ledger.after_other hij] at h

/-- A number that a task has after a draw was drawn just now, or the task had it before. -/
theorem stage_draws {n m : Nat}
    (h : stage b output j (⟨i, .nextId, m⟩ :: l) = .drawn n) :
    (j = i ∧ n = m) ∨ (j ≠ i ∧ stage b output j l = .drawn n) := by
  by_cases hij : i = j
  · subst hij
    rw [stage, Ledger.after_own] at h
    cases h
    exact .inl ⟨rfl, rfl⟩
  · rw [stage, Ledger.after_other hij] at h
    exact .inr ⟨Ne.symm hij, h⟩

/-- Who registers a request has used its number up. -/
theorem stage_registers {n c : Nat} {id : Int} {handshake : Option Nat}
    (h : stage b output j (⟨i, .register id handshake, c⟩ :: l) = .drawn n) :
    j ≠ i ∧ stage b output j l = .drawn n := by
  by_cases hij : i = j
  · subst hij
    rw [stage, Ledger.after_own] at h
    cases h
  · exact ⟨Ne.symm hij, stage_drawn rfl h⟩

/-- A draw: the number is as large as there were requests, so it is new. -/
theorem Numbered.draw (hs : Numbered b output s)
    (hlog : t.log = ⟨i, .nextId, requests s.log⟩ :: s.log)
    (hcounter : t.state.requestCounter = requests s.log + 1)
    (hlt : requests s.log < 2 ^ 63) : Numbered b output t := by
  have hcount : requests t.log = requests s.log + 1 := by
    rw [hlog, requests, List.countP_cons]
    rfl
  have hregistered : registered t.log = registered s.log := by
    rw [hlog]
    exact registered_cons rfl
  have hstage : ∀ j n, stage b output j t.log = .drawn n →
      (j = i ∧ n = requests s.log) ∨ (j ≠ i ∧ stage b output j s.log = .drawn n) := by
    intro j n h
    rw [hlog] at h
    exact stage_draws h
  refine ⟨hcounter.trans hcount.symm, by omega, fun j n h => ?_, fun j k n hj hk => ?_,
    fun r hr => ?_, ?_⟩
  · rw [hcount, hregistered]
    rcases hstage j n h with ⟨-, rfl⟩ | ⟨-, h⟩
    · -- all registered numbers are smaller
      refine ⟨Nat.lt_succ_self _, fun r hr hid => ?_⟩
      obtain ⟨m, hm, hold⟩ := hs.old r hr
      omega
    · exact ⟨Nat.lt_succ_of_lt (hs.drawn j n h).1, (hs.drawn j n h).2⟩
  · rcases hstage j n hj with ⟨hij, hn⟩ | ⟨hij, hj⟩ <;>
      rcases hstage k n hk with ⟨hik, hn'⟩ | ⟨hik, hk⟩
    · exact hij.trans hik.symm
    · have := (hs.drawn k n hk).1
      omega
    · have := (hs.drawn j n hj).1
      omega
    · exact hs.apart j k n hj hk
  · rw [hregistered] at hr
    obtain ⟨n, hn, hid⟩ := hs.old r hr
    exact ⟨n, by omega, hid⟩
  · rw [hregistered]
    exact hs.distinct

/-- A registration: the number goes from the one task that had it to its request. -/
theorem Numbered.register (hs : Numbered b output s) {n c : Nat} {handshake : Option Nat}
    (hlog : t.log = ⟨i, .register (asI64 n) handshake, c⟩ :: s.log)
    (hcounter : t.state.requestCounter = s.state.requestCounter)
    (hstage : stage b output i s.log = .drawn n) : Numbered b output t := by
  obtain ⟨hn, hnew⟩ := hs.drawn i n hstage
  have hid : asI64 n = (n : Int) := asI64_drawn hn hs.few
  have hcount : requests t.log = requests s.log := by
    rw [hlog]
    exact requests_cons rfl
  have hregistered : registered t.log = ⟨i, n, c⟩ :: registered s.log := by
    rw [hlog, ← hid]
    rfl
  have hothers : ∀ j m, stage b output j t.log = .drawn m →
      j ≠ i ∧ stage b output j s.log = .drawn m := by
    intro j m h
    rw [hlog] at h
    exact stage_registers h
  refine ⟨?_, hcount ▸ hs.few, fun j m h => ?_, fun j k m hj hk => ?_, fun r hr => ?_, ?_⟩
  · rw [hcount, ← hs.counter]
    exact hcounter
  · obtain ⟨hji, h⟩ := hothers j m h
    obtain ⟨hm, hfresh⟩ := hs.drawn j m h
    refine ⟨hcount ▸ hm, fun r hr => ?_⟩
    rw [hregistered] at hr
    rcases List.mem_cons.mp hr with rfl | hr
    · intro hnm
      -- somebody else holds that number
      cases Int.ofNat.inj hnm
      exact hji (hs.apart j i n h hstage)
    · exact hfresh r hr
  · exact hs.apart j k m (hothers j m hj).2 (hothers k m hk).2
  · rw [hregistered] at hr
    rw [hcount]
    rcases List.mem_cons.mp hr with rfl | hr
    · exact ⟨n, hn, rfl⟩
    · exact hs.old r hr
  · rw [hregistered, List.map_cons, List.nodup_cons]
    refine ⟨fun h => ?_, hs.distinct⟩
    obtain ⟨r, hr, hrn⟩ := List.mem_map.mp h
    exact hnew r hr hrn

/-- Any other step: no number is drawn and none is registered. -/
theorem Numbered.same (hs : Numbered b output s) (hlog : t.log = ⟨i, o, a⟩ :: s.log)
    (ho : o.draws = false) (hregistration : o.registration i a = none)
    (hcounter : t.state.requestCounter = s.state.requestCounter) : Numbered b output t := by
  have hcount : requests t.log = requests s.log := by
    rw [hlog]
    exact requests_cons ho
  have hregistered : registered t.log = registered s.log := by
    rw [hlog]
    exact registered_cons hregistration
  have hstage : ∀ j n, stage b output j t.log = .drawn n →
      stage b output j s.log = .drawn n := by
    intro j n h
    rw [hlog] at h
    exact stage_drawn ho h
  refine ⟨?_, hcount ▸ hs.few, fun j n h => ?_, fun j k n hj hk => ?_, ?_, ?_⟩
  · rw [hcount, ← hs.counter]
    exact hcounter
  · rw [hcount, hregistered]
    exact hs.drawn j n (hstage j n h)
  · exact hs.apart j k n (hstage j n hj) (hstage k n hk)
  · rw [hcount, hregistered]
    exact hs.old
  · rw [hregistered]
    exact hs.distinct

/-- The step lemma for the numbers: a draw, a registration or neither. -/
theorem Numbered.step (hs : Numbered b output s)
    (he : (stdioMachine ι).recorded.exec i β o e s = some (a, t))
    (horder : (stdioLedger b output).inOrder o (stage b output i s.log))
    (hfew : FewRequests i β o e s) : Numbered b output t := by
  obtain ⟨hexec, hlog⟩ := Machine.recorded_exec he
  cases o with
  | nextId =>
    obtain ⟨rfl, hstate⟩ := Prod.mk.inj (Option.some.inj hexec)
    have hlt : requests s.log < 2 ^ 63 := hfew rfl
    rw [hs.counter] at hlog
    refine hs.draw hlog ?_ hlt
    -- the counter is far from wrapping around
    rw [← hstate, ← hs.counter]
    refine Nat.mod_eq_of_lt ?_
    rw [hs.counter]
    omega
  | register id handshake =>
    obtain ⟨n, hstage, rfl⟩ := horder
    exact hs.register hlog (exec_counter rfl hexec) hstage
  | _ => exact hs.same hlog rfl rfl (exec_counter rfl hexec)

/-! ## Channels -/

variable (b output) in
/-- Every request has a channel of its own, and a response comes through it only if a child
wrote it under the number of the request. -/
structure Channelled (s : StdioRun ι) : Prop where
  below : ∀ r ∈ registered s.log, r.channel < s.state.channelCount
  one : ∀ r ∈ registered s.log, ∀ r' ∈ registered s.log, r.channel = r'.channel → r = r'
  pending : ∀ p ∈ s.state.pending, ∃ i, ⟨i, p.id, p.channel⟩ ∈ registered s.log
  sent : ∀ c v, s.state.channels c = .sent (.ok v) →
    ∃ r ∈ registered s.log, r.channel = c ∧ Wrote b output s.log r.id v

variable (b output) in
/-- Where the tasks stand is true: they wait for what they have registered, have been answered
by what was written and have read what is in the output. -/
structure Staged (s : StdioRun ι) : Prop where
  waiting : ∀ i id c, stage b output i s.log = .waiting id c → ⟨i, id, c⟩ ∈ registered s.log
  answered : ∀ i id c v, stage b output i s.log = .answered id c (.ok v) →
    ⟨i, id, c⟩ ∈ registered s.log ∧ Wrote b output s.log id v
  reading : ∀ i child line, stage b output i s.log = .reading child line →
    line ∈ output child ∧ ⟨i, .nextLine child line, ()⟩ ∈ s.log
  heard : ∀ i channel timeoutSecs v,
    ⟨i, .await channel timeoutSecs, .answered (.ok v)⟩ ∈ s.log →
      ∃ id, ⟨i, id, channel⟩ ∈ registered s.log ∧ Wrote b output s.log id v

omit [DecidableEq ι] in
/-- A step that registers no request and brings no news through a channel. -/
theorem Channelled.same (hs : Channelled b output s) (hlog : t.log = ⟨i, o, a⟩ :: s.log)
    (ho : o.registration i a = none) (hcount : t.state.channelCount = s.state.channelCount)
    (hpending : t.state.pending ⊆ s.state.pending)
    (hsent : ∀ c v, t.state.channels c = .sent (.ok v) → s.state.channels c = .sent (.ok v) ∨
      ∃ r ∈ registered s.log, r.channel = c ∧ Wrote b output s.log r.id v) :
    Channelled b output t := by
  have hregistered : registered t.log = registered s.log := by
    rw [hlog]
    exact registered_cons ho
  refine ⟨?_, ?_, fun p hp => ?_, fun c v h => ?_⟩
  · rw [hregistered, hcount]
    exact hs.below
  · rw [hregistered]
    exact hs.one
  · rw [hregistered]
    exact hs.pending p (hpending hp)
  · rw [hregistered, hlog]
    obtain ⟨r, hr, hc, hwrote⟩ := (hsent c v h).elim (hs.sent c v) id
    exact ⟨r, hr, hc, hwrote.cons⟩

omit [DecidableEq ι] in
/-- A registration: the request gets a channel that no other request has, and its sender
replaces the one that was kept under the same number. -/
theorem Channelled.register (hs : Channelled b output s) {id : Int} {handshake : Option Nat}
    {channel : Nat} (hexec : (stdioMachine ι).exec i _ (.register id handshake) e s.state =
      some (channel, t.state))
    (hlog : t.log = ⟨i, .register id handshake, channel⟩ :: s.log) : Channelled b output t := by
  obtain ⟨rfl, hstate⟩ := Prod.mk.inj (Option.some.inj hexec)
  have hregistered : registered t.log = ⟨i, id, s.state.channelCount⟩ :: registered s.log := by
    rw [hlog]
    rfl
  have hcount : t.state.channelCount = s.state.channelCount + 1 := by rw [← hstate]
  refine ⟨fun r hr => ?_, fun r hr r' hr' hc => ?_, fun p hp => ?_, fun c v h => ?_⟩
  · rw [hregistered] at hr
    rw [hcount]
    rcases List.mem_cons.mp hr with rfl | hr
    · exact Nat.lt_succ_self _
    · exact Nat.lt_succ_of_lt (hs.below r hr)
  · rw [hregistered] at hr hr'
    rcases List.mem_cons.mp hr with rfl | hr <;> rcases List.mem_cons.mp hr' with rfl | hr'
    · rfl
    · -- the older channel is below the count, the new one is at it
      exact absurd hc.symm (Nat.ne_of_lt (hs.below r' hr'))
    · exact absurd hc (Nat.ne_of_lt (hs.below r hr))
    · exact hs.one r hr r' hr' hc
  · rw [← hstate] at hp
    rw [hregistered]
    rcases List.mem_cons.mp hp with rfl | hp
    · exact ⟨i, List.mem_cons_self⟩
    · obtain ⟨j, hj⟩ := hs.pending p (StdioWorld.mem_without hp)
      exact ⟨j, List.mem_cons_of_mem _ hj⟩
  · rw [← hstate] at h
    dsimp only at h
    have hne : c ≠ s.state.channelCount := by
      -- nothing has come through the new channel yet
      rintro rfl
      rw [Function.update_self] at h
      cases h
    rw [Function.update_of_ne hne] at h
    obtain ⟨r, hr, hc, hwrote⟩ := hs.sent c v (sent_of_resolve_dropped h)
    rw [hlog]
    exact ⟨r, mem_registered_cons hr, hc, hwrote.cons⟩

/-- A response: it goes to the request that has its number, and a child wrote it. -/
theorem Channelled.settle (hs : Channelled b output s) (hstaged : Staged b output s) {id : Int}
    {r : BackendResult Value} {u : Unit}
    (hexec : (stdioMachine ι).exec i _ (.settle id r) e s.state = some (u, t.state))
    (hlog : t.log = ⟨i, .settle id r, u⟩ :: s.log)
    (horder : (stdioLedger b output).inOrder (.settle id r) (stage b output i s.log)) :
    Channelled b output t := by
  obtain ⟨-, hstate⟩ := Prod.mk.inj (Option.some.inj hexec)
  obtain ⟨child, line, hstage, hdecode⟩ := horder
  refine hs.same hlog rfl (by rw [← hstate]) ?_ fun c v h => ?_
  · rw [← hstate]
    exact fun p hp => StdioWorld.mem_without hp
  · rw [← hstate] at h
    rcases s.state.resolve_cases (s.state.find id) (.sent r) c with hsame | ⟨⟨p, hp, hc⟩, hnew⟩
    · exact .inl (hsame.symm.trans h)
    · have hr : r = .ok v := Channel.sent.inj (hnew.symm.trans h)
      obtain ⟨hmem, hid⟩ := StdioWorld.mem_of_find hp
      obtain ⟨j, hj⟩ := hs.pending p hmem
      obtain ⟨hline, hread⟩ := hstaged.reading i child line hstage
      refine .inr ⟨_, hj, hc, i, child, line, hline, hread, ?_⟩
      rw [hid]
      exact hdecode v hr

/-- The step lemma for the channels. -/
theorem Channelled.step (hs : Channelled b output s) (hstaged : Staged b output s)
    (he : (stdioMachine ι).recorded.exec i β o e s = some (a, t))
    (horder : (stdioLedger b output).inOrder o (stage b output i s.log)) :
    Channelled b output t := by
  obtain ⟨hexec, hlog⟩ := Machine.recorded_exec he
  cases hroutes : o.routes with
  | false =>
    obtain ⟨hpending, hchannels, hcount⟩ := exec_unrouted hroutes hexec
    refine hs.same hlog (registration_unrouted hroutes) hcount (hpending ▸ List.Subset.refl _) ?_
    rw [hchannels]
    exact fun c v h => .inl h
  | true =>
    cases o with
    | register id handshake => exact hs.register hexec hlog
    | settle id r => exact hs.settle hstaged hexec hlog horder
    | tryForget id =>
      obtain ⟨-, hstate⟩ := Prod.mk.inj (Option.some.inj hexec)
      split at hstate
      · refine hs.same hlog rfl (by rw [← hstate]) (by rw [← hstate]; exact List.Subset.refl _) ?_
        rw [← hstate]
        exact fun c v h => .inl h
      · refine hs.same hlog rfl (by rw [← hstate]) ?_ ?_
        · rw [← hstate]
          exact fun p hp => StdioWorld.mem_without hp
        · rw [← hstate]
          exact fun c v h => .inl (sent_of_resolve_dropped h)
    | drain child error =>
      obtain ⟨-, hstate⟩ := Prod.mk.inj (Option.some.inj hexec)
      refine hs.same hlog rfl (by rw [← hstate]) (by rw [← hstate]; exact List.nil_subset _) ?_
      rw [← hstate]
      intro c v h
      refine .inl ?_
      -- whatever was pending gets the error
      dsimp only [StdioWorld.resolveAll] at h
      split at h
      · cases h
      · exact h
    | _ => cases hroutes

/-- What a wait hears through its channel was written under the number of its request. -/
theorem hears (hchannelled : Channelled b output s) (hstaged : Staged b output s)
    {channel timeoutSecs : Nat} {v : Value} {s' : StdioWorld ι}
    (hexec : (stdioMachine ι).exec i _ (.await channel timeoutSecs) e s.state =
      some (.answered (.ok v), s')) {id : Int}
    (hstage : stage b output i s.log = .waiting id channel) : Wrote b output s.log id v := by
  obtain ⟨answer, hanswer, heq⟩ := Option.map_eq_some_iff.mp hexec
  cases heq
  have hsent : s.state.channels channel = .sent (.ok v) := by
    simp only [StdioWorld.awaited] at hanswer
    split at hanswer
    · rename_i r hr
      cases hanswer
      exact hr
    · cases hanswer
    · split at hanswer <;> cases hanswer
  obtain ⟨r, hr, hc, hwrote⟩ := hchannelled.sent channel v hsent
  have hown := hstaged.waiting i id channel hstage
  rw [hchannelled.one r hr _ hown hc] at hwrote
  exact hwrote

omit [DecidableEq ι] in
/-- What an operation registers is in the history after it. -/
theorem mem_registered_new {r : Registration ι} (h : o.registration i a = some r) :
    r ∈ registered (⟨i, o, a⟩ :: l) :=
  List.mem_filterMap.mpr ⟨_, List.mem_cons_self, h⟩

omit [DecidableEq ι] in
/-- A task waits if it did, or has just registered its request. -/
theorem correlating_waiting {u : Correlating} {id : Int} {c : Nat}
    (h : o.correlating a u = .waiting id c) :
    u = .waiting id c ∨ o.registration i a = some ⟨i, id, c⟩ := by
  cases o with
  | register =>
    cases h
    exact .inr rfl
  | await =>
    cases a with
    | answered r => cases u <;> first | exact .inl h | cases h
    | _ => exact .inl h
  | nextId | nextLine | settle => cases h
  | _ => exact .inl h

omit [DecidableEq ι] in
/-- A task is answered if it was, or its wait has just heard the answer. -/
theorem correlating_answered {u : Correlating} {id : Int} {c : Nat} {v : Value}
    (h : o.correlating a u = .answered id c (.ok v)) (horder : o.correlates b output u) :
    u = .answered id c (.ok v) ∨ u = .waiting id c ∧ ∃ timeoutSecs,
      (⟨i, o, a⟩ : Performed StdioOp ι) = ⟨i, .await c timeoutSecs, .answered (.ok v)⟩ := by
  cases o with
  | await channel timeoutSecs =>
    cases a with
    | answered r =>
      obtain ⟨id', rfl⟩ := horder
      cases h
      exact .inr ⟨rfl, timeoutSecs, rfl⟩
    | _ => exact .inl h
  | nextId | register | nextLine | settle => cases h
  | _ => exact .inl h

omit [DecidableEq ι] in
/-- A task has a line if it had it, or has just read it from the output of the child. -/
theorem correlating_reading {u : Correlating} {child : Nat} {line : String}
    (h : o.correlating a u = .reading child line) (horder : o.correlates b output u) :
    u = .reading child line ∨ line ∈ output child ∧
      (⟨i, o, a⟩ : Performed StdioOp ι) = ⟨i, .nextLine child line, ()⟩ := by
  cases o with
  | nextLine =>
    cases h
    exact .inr ⟨horder, rfl⟩
  | await =>
    cases a with
    | answered r => cases u <;> first | exact .inl h | cases h
    | _ => exact .inl h
  | nextId | register | settle => cases h
  | _ => exact .inl h

/-- What a step does to where a task stands: its own operation, or nothing. -/
theorem stage_cons (j : ι) :
    stage b output j (⟨i, o, a⟩ :: l) = stage b output j l ∨
      i = j ∧ stage b output j (⟨i, o, a⟩ :: l) = o.correlating a (stage b output j l) := by
  by_cases hij : i = j
  · subst hij
    exact .inr ⟨rfl, Ledger.after_own⟩
  · exact .inl (Ledger.after_other hij)

/-- The step lemma for where the tasks stand. -/
theorem Staged.step (hs : Staged b output s) (hchannelled : Channelled b output s)
    (he : (stdioMachine ι).recorded.exec i β o e s = some (a, t))
    (horder : (stdioLedger b output).inOrder o (stage b output i s.log)) :
    Staged b output t := by
  obtain ⟨hexec, hlog⟩ := Machine.recorded_exec he
  have hstage : ∀ j, stage b output j t.log = stage b output j s.log ∨
      i = j ∧ stage b output j t.log = o.correlating a (stage b output j s.log) := by
    rw [hlog]
    exact stage_cons
  -- what was true of the older history still is
  have hkeptWaiting : ∀ j id c, stage b output j s.log = .waiting id c →
      ⟨j, id, c⟩ ∈ registered t.log := by
    intro j id c h
    rw [hlog]
    exact mem_registered_cons (hs.waiting j id c h)
  have hkeptAnswered : ∀ j id c v, stage b output j s.log = .answered id c (.ok v) →
      ⟨j, id, c⟩ ∈ registered t.log ∧ Wrote b output t.log id v := by
    intro j id c v h
    rw [hlog]
    exact ⟨mem_registered_cons (hs.answered j id c v h).1, (hs.answered j id c v h).2.cons⟩
  have hkeptReading : ∀ j child line, stage b output j s.log = .reading child line →
      line ∈ output child ∧ ⟨j, .nextLine child line, ()⟩ ∈ t.log := by
    intro j child line h
    rw [hlog]
    exact ⟨(hs.reading j child line h).1, List.mem_cons_of_mem _ (hs.reading j child line h).2⟩
  -- a wait of the step hears what was written under the number of its request
  have hhears : ∀ id c timeoutSecs v, stage b output i s.log = .waiting id c →
      (⟨i, o, a⟩ : Performed StdioOp ι) = ⟨i, .await c timeoutSecs, .answered (.ok v)⟩ →
        Wrote b output t.log id v := by
    intro id c timeoutSecs v hwaits heq
    cases heq
    rw [hlog]
    exact (hears hchannelled hs hexec hwaits).cons
  refine ⟨fun j id c h => ?_, fun j id c v h => ?_, fun j child line h => ?_,
    fun j channel timeoutSecs v h => ?_⟩
  · rcases hstage j with hsame | ⟨rfl, hown⟩
    · exact hkeptWaiting j id c (hsame.symm.trans h)
    · rcases correlating_waiting (hown.symm.trans h) with hold | hnew
      · exact hkeptWaiting i id c hold
      · rw [hlog]
        exact mem_registered_new hnew
  · rcases hstage j with hsame | ⟨rfl, hown⟩
    · exact hkeptAnswered j id c v (hsame.symm.trans h)
    · rcases correlating_answered (hown.symm.trans h) horder with hold | ⟨hold, secs, hnew⟩
      · exact hkeptAnswered i id c v hold
      · exact ⟨hkeptWaiting i id c hold, hhears id c secs v hold hnew⟩
  · rcases hstage j with hsame | ⟨rfl, hown⟩
    · exact hkeptReading j child line (hsame.symm.trans h)
    · rcases correlating_reading (hown.symm.trans h) horder with hold | ⟨hline, hnew⟩
      · exact hkeptReading i child line hold
      · rw [hlog, ← hnew]
        exact ⟨hline, List.mem_cons_self⟩
  · rw [hlog] at h
    rcases List.mem_cons.mp h with heq | h
    · cases heq
      obtain ⟨id, hwaits⟩ := horder
      exact ⟨id, hkeptWaiting _ id channel hwaits, hhears id channel timeoutSecs v hwaits rfl⟩
    · obtain ⟨id, hregistered, hwrote⟩ := hs.heard j channel timeoutSecs v h
      rw [hlog]
      exact ⟨id, mem_registered_cons hregistered, hwrote.cons⟩

end Histories

/-! ## The runs -/

/-- What a caller does: one request whose result it returns, or any calls on the backend. -/
inductive StdioTask : Type where
  | sends (method : String) (params : Option Value) (timeoutSecs : Nat) : StdioTask
  | calls (cs : List StdioCall) : StdioTask

namespace StdioBackend

/-- It as a program. -/
def task (b : StdioBackend) : StdioTask → Prog StdioOp (Option (BackendResult Value))
  | .sends method params timeoutSecs =>
    (b.sendRequest method params timeoutSecs none).bind fun r => .ret (some r)
  | .calls cs => (b.calls cs).bind fun _ => .ret none

/-- Any number of callers, and the reader task of every child with the lines that the child
writes. -/
def requestPool (b : StdioBackend) (tasks : ι → StdioTask) (output : Nat → List String) :
    Pool StdioOp (ι ⊕ Nat) (StdioRun (ι ⊕ Nat)) (Option (BackendResult Value)) where
  shared := ⟨.fresh _, []⟩
  task := Sum.elim (fun i => b.task (tasks i)) fun child =>
    (b.readerTask child (output child)).bind fun _ => .ret none

end StdioBackend

/-- The response to a request is sent through a channel. -/
def StdioWorld.Completes (s : StdioWorld ι) (id : Int) (r : BackendResult Value) (channel : Nat) :
    Prop :=
  s.channels channel = .open ∧ s.resolve (s.find id) (.sent r) channel = .sent r

/-- A response completes at most one request, and only one that has its number. -/
def CompletesOne : Rule StdioOp ι StdioChoice (StdioRun ι)
  | _, _, .settle id r, _, s =>
    (∀ c c', s.state.Completes id r c → s.state.Completes id r c' → c = c') ∧
      ∀ c, s.state.Completes id r c → ∃ i, ⟨i, id, c⟩ ∈ registered s.log
  | _, _, _, _, _ => True

/-- What is known of the requests at the end of a run. -/
structure Correlated (b : StdioBackend) (output : Nat → List String)
    (c : Pool StdioOp (ι ⊕ Nat) (StdioRun (ι ⊕ Nat)) (Option (BackendResult Value))) : Prop where
  /-- no two requests share a number -/
  distinct : ((registered c.shared.log).map (·.id)).Nodup
  /-- a request that returned `Ok` was answered under its own number -/
  answered : ∀ i v, c.task i = .ret (some (.ok v)) → ∃ id channel,
    ⟨i, id, channel⟩ ∈ registered c.shared.log ∧ Wrote b output c.shared.log id v
  /-- so was every wait that got a result, also those of the calls on the backend -/
  heard : ∀ i channel timeoutSecs v,
    ⟨i, .await channel timeoutSecs, .answered (.ok v)⟩ ∈ c.shared.log → ∃ id,
      ⟨i, id, channel⟩ ∈ registered c.shared.log ∧ Wrote b output c.shared.log id v

section Runs

variable [DecidableEq ι] {b : StdioBackend} {output : Nat → List String} {tasks : ι → StdioTask}

/-- A task that returned `Ok` has been answered. -/
def EndsAnswered (x : Option (BackendResult Value)) (t : Correlating) : Prop :=
  ∀ v, x = some (.ok v) → ∃ id channel, t = .answered id channel (.ok v)

/-- What holds of the tasks in every reachable state. -/
structure CorrelationHolds (b : StdioBackend) (output : Nat → List String)
    (c : Pool StdioOp (ι ⊕ Nat) (StdioRun (ι ⊕ Nat)) (Option (BackendResult Value))) : Prop where
  ledger : (stdioLedger b output).Holds .idle EndsAnswered c
  numbered : Numbered b output c.shared
  channelled : Channelled b output c.shared
  staged : Staged b output c.shared

theorem CorrelationHolds.step {l : (ι ⊕ Nat) × StdioChoice}
    {c c' : Pool StdioOp (ι ⊕ Nat) (StdioRun (ι ⊕ Nat)) (Option (BackendResult Value))}
    (h : CorrelationHolds b output c)
    (hC : ∀ (δ : Type) (o : StdioOp δ) (k : δ → Prog StdioOp (Option (BackendResult Value))),
      c.task l.1 = .op o k → FewRequests l.1 δ o l.2 c.shared)
    (hstep : (stdioMachine (ι ⊕ Nat)).recorded.step l c = some c') :
    CorrelationHolds b output c' := by
  obtain ⟨q, hfire, -⟩ := Machine.step_eq_some _ hstep
  obtain ⟨δ, o, k, a, hop, hexec, -⟩ := Machine.fire_eq_some _ hfire
  have hkeeps := h.ledger.keeps l.1
  rw [hop] at hkeeps
  exact ⟨h.ledger.step hstep, h.numbered.step hexec hkeeps.1 (hC δ o k hop),
    h.channelled.step h.staged hexec hkeeps.1, h.staged.step h.channelled hexec hkeeps.1⟩

theorem correlationHolds_requestPool : CorrelationHolds b output (b.requestPool tasks output) := by
  refine ⟨⟨fun i => ?_, trivial⟩, ?_, ?_, ?_⟩
  · cases i with
    | inl i =>
      have htask : (b.task (tasks i)).Keeps (stdioLedger b output) EndsAnswered .idle := by
        cases htasks : tasks i with
        | sends method params timeoutSecs =>
          refine (correlates_sendRequest.mono fun r t hr => ?_).bind
          intro v h
          exact hr v (Option.some.inj h)
        | calls cs => exact ((correlates_calls cs).mono fun _ _ _ => nofun).bind
      exact htask
    | inr child => exact ((correlates_readerTask child).mono fun _ _ _ => nofun).bind
  · exact ⟨rfl, Nat.zero_le _, nofun, nofun, nofun, List.nodup_nil⟩
  · exact ⟨nofun, nofun, nofun, nofun⟩
  · exact ⟨nofun, nofun, nofun, nofun⟩

/-- Fewer requests in the end were fewer all along. -/
theorem meets_fewRequests {schedule : List ((ι ⊕ Nat) × StdioChoice)}
    {c c' : Pool StdioOp (ι ⊕ Nat) (StdioRun (ι ⊕ Nat)) (Option (BackendResult Value))}
    (hp : (stdioMachine (ι ⊕ Nat)).recorded.play schedule c = some c')
    (hfew : requests c'.shared.log < 2 ^ 63) :
    (stdioMachine (ι ⊕ Nat)).recorded.Meets FewRequests schedule c := by
  refine (Machine.meets_of_play (P := fun s => requests s.log < 2 ^ 63) _ ?_ hp hfew).1
  intro i β o e s a t he ht
  obtain ⟨-, hlog⟩ := Machine.recorded_exec he
  rw [hlog, requests, List.countP_cons] at ht
  have hbefore : requests s.log < 2 ^ 63 := Nat.lt_of_le_of_lt (Nat.le_add_right _ _) ht
  exact ⟨hbefore, fun _ => hbefore⟩

omit [DecidableEq ι] in
/-- A response is sent through the channel of the request that has its number. -/
theorem completesOne_of_channelled {i : ι} {β : Type} {o : StdioOp β} {e : StdioChoice}
    {s : StdioRun ι} (hs : Channelled b output s) : CompletesOne i β o e s := by
  cases o with
  | settle id r =>
    have hfound : ∀ c, s.state.Completes id r c →
        ∃ p, s.state.find id = some p ∧ p.channel = c := by
      rintro c ⟨hopen, hsent⟩
      rcases s.state.resolve_cases (s.state.find id) (.sent r) c with hsame | ⟨hp, -⟩
      · rw [hsame, hopen] at hsent
        cases hsent
      · exact hp
    refine ⟨fun c c' h h' => ?_, fun c h => ?_⟩
    · obtain ⟨p, hp, hc⟩ := hfound c h
      obtain ⟨p', hp', hc'⟩ := hfound c' h'
      rw [hp] at hp'
      cases hp'
      exact hc.symm.trans hc'
    · obtain ⟨p, hp, hc⟩ := hfound c h
      obtain ⟨hmem, hid⟩ := StdioWorld.mem_of_find hp
      obtain ⟨i, hi⟩ := hs.pending p hmem
      exact ⟨i, hid ▸ hc ▸ hi⟩
  | _ => trivial

/-- **Responses find their requests**: over every run with fewer than `2 ^ 63` requests,
whatever the children write and whoever disconnects, connects again or gives up, no two
requests share a number, a request returns `Ok` only with a result that a child wrote under
its number, and every response completes at most one request, one that has its number. -/
theorem responses_correlate (b : StdioBackend) (tasks : ι → StdioTask) (output : Nat → List String)
    {schedule : List ((ι ⊕ Nat) × StdioChoice)}
    {c : Pool StdioOp (ι ⊕ Nat) (StdioRun (ι ⊕ Nat)) (Option (BackendResult Value))}
    (hp : (stdioMachine (ι ⊕ Nat)).recorded.play schedule (b.requestPool tasks output) = some c)
    (hfew : requests c.shared.log < 2 ^ 63) :
    Correlated b output c ∧ (stdioMachine (ι ⊕ Nat)).recorded.Meets CompletesOne schedule
      (b.requestPool tasks output) := by
  have hmeets := meets_fewRequests hp hfew
  have hholds : CorrelationHolds b output c :=
    Machine.play_induct _ (P := CorrelationHolds b output) (fun _ _ _ hc hC hs => hc.step hC hs)
      correlationHolds_requestPool hmeets hp
  refine ⟨⟨hholds.numbered.distinct, fun i v h => ?_, hholds.staged.heard⟩, ?_⟩
  · have hkeeps := hholds.ledger.keeps i
    rw [h] at hkeeps
    obtain ⟨id, channel, hstage⟩ := hkeeps v rfl
    obtain ⟨hregistered, hwrote⟩ := hholds.staged.answered i id channel v hstage
    exact ⟨id, channel, hregistered, hwrote⟩
  · exact Machine.Meets.of_induct _ (P := CorrelationHolds b output)
      (fun _ _ _ hc hC hs => hc.step hC hs)
      (fun _ _ _ _ _ hc _ _ => completesOne_of_channelled hc.channelled)
      correlationHolds_requestPool hmeets

end Runs

/-! ## Two requests at the same time -/

/-- The response to a request whose number is a digit. -/
def responseLine (id result : String) : String :=
  "\x7b\"jsonrpc\":\"2.0\",\"id\":" ++ id ++ ",\"result\":\"" ++ result ++ "\"\x7d"

/-- A backend with a child process, and `serde_json` on two responses. -/
def echoStdio : StdioBackend where
  id := "echo"
  transport := .stdio "echo-server" [] [] none
  connectTimeoutSecs := 30
  callTimeoutSecs := 60
  serde :=
    { fromSlice := fun text =>
        if text = responseLine "1" "a" then .ok (.object [("jsonrpc", .string "2.0"),
          ("id", .number (.int 1)), ("result", .string "a")])
        else if text = responseLine "2" "b" then .ok (.object [("jsonrpc", .string "2.0"),
          ("id", .number (.int 2)), ("result", .string "b")])
        else .error "expected value at line 1 column 1"
      rejects := fun _ => "invalid type" }

/-- One caller connects, two others send a request each. -/
def twoRequests : Fin 3 → StdioTask
  | 0 => .calls [.connect]
  | _ => .sends "tools/list" none 60

/-- The child answers the second request first, and twice. -/
def answersTwice : Nat → List String :=
  fun _ => [responseLine "2" "b", responseLine "2" "b", responseLine "1" "a"]

/-- Both requests are written before the first response is read. -/
def outOfOrder : List ((Fin 3 ⊕ Nat) × StdioChoice) :=
  List.flatten [turns (.inl 0) (List.replicate 14 {}), turns (.inl 1) (List.replicate 9 {}),
    turns (.inl 2) (List.replicate 9 {}), turns (.inr 0) (List.replicate 7 {}),
    turns (.inl 1) [{}], turns (.inl 2) [{}]]

/-- The text that a request has returned. -/
def returnedText (p : Prog StdioOp (Option (BackendResult Value))) : Option String :=
  p.result.bind fun x => x.bind fun r => r.toOption.bind Value.asStr

/-- Each request has its own response. -/
theorem out_of_order_correlates :
    ∃ c, (stdioMachine (Fin 3 ⊕ Nat)).recorded.play outOfOrder
        (echoStdio.requestPool twoRequests answersTwice) = some c ∧
      returnedText (c.task (.inl 1)) = some "a" ∧ returnedText (c.task (.inl 2)) = some "b" ∧
      Correlated echoStdio answersTwice c := by
  have hrun : ((stdioMachine (Fin 3 ⊕ Nat)).recorded.play outOfOrder
      (echoStdio.requestPool twoRequests answersTwice)).map
        (fun c => (returnedText (c.task (.inl 1)), returnedText (c.task (.inl 2)),
          requests c.shared.log)) = some (some "a", some "b", 3) := by
    decide +kernel
  obtain ⟨c, hc, hend⟩ := Option.map_eq_some_iff.mp hrun
  obtain ⟨h1, h⟩ := Prod.mk.inj hend
  obtain ⟨h2, hcount⟩ := Prod.mk.inj h
  have hfew : requests c.shared.log < 2 ^ 63 := by
    rw [hcount]
    decide
  exact ⟨c, hc, h1, h2,
    (responses_correlate echoStdio twoRequests answersTwice hc hfew).1⟩

end HeadlessMcp
