import HeadlessMcp.Async.Ledger
import HeadlessMcp.Http.Window

/-!
# Sessions go forward

Every response that carries a session id writes the shared one, however late it arrives. A
response to an old request can so bring an old session back after a re-initialisation.

A history tells which ids the answers to `initialize` have brought (`newest`, `current`) and
what a caller has missed since it read the session id (`outdated`, `late`). What goes wrong is
an overlap: a caller reads the session id, and before it is done with its request another
caller captures a new one. `Apart` is the condition that no capture falls into a request of
another caller; where it is met, the stored id is the newest one and every message carries an
id of the last completed re-initialisation or a later one.
-/

namespace HeadlessMcp

open Async Machine

/-! ## What one caller does -/

/-- The session id of a reply. -/
def HttpReply.session : HttpReply → Option String
  | .failed _ _ => none
  | .response _ headers _ => (headers.get "mcp-session-id").filter headerTextOk

/-- The session id that an operation stores. -/
def HttpOp.stored {β : Type} : HttpOp β → Option String
  | .storeSession sid => some sid
  | _ => none

/-- The last request of a caller and its reply, since it read the session id. -/
abbrev Exchanging : Type := Option (HttpRequest × HttpReply)

/-- What an operation makes of it. -/
def HttpOp.exchanging {β : Type} : HttpOp β → β → Exchanging → Exchanging
  | .loadSession, _, _ => none
  | .post request, reply, _ => some (request, reply)
  | _, _, t => t

/-- A caller stores the session id of its last reply only, and what it sends until it reads the
session id again is all `initialize` or never. -/
structure ExchangeOrder {β : Type} (o : HttpOp β) (t : Exchanging) : Prop where
  stores : ∀ sid ∈ o.stored, ∃ exchanged ∈ t, exchanged.2.session = some sid
  sends : ∀ request ∈ o.posted, ∀ exchanged ∈ t,
    exchanged.1.message.isInitialize = request.message.isInitialize

/-- The ledger of a caller's exchanges. A session id is only stored by a caller whose last reply
has brought it. -/
def sessionLedger : Ledger HttpOp Exchanging where
  next := HttpOp.exchanging
  inOrder o t := ExchangeOrder o t

section Walk

variable {α β : Type} {p : Prog HttpOp α} {Q : α → Exchanging → Prop} {t : Exchanging}
  {b : HttpBackend} {message : JsonRpcMessage} {extraHeaders : Entries String}
  {sentSession : Option String} {method : String} {params : Option Value} {retry : Bool}
  {status : Nat} {headers : Entries String} {body : Except String String} {request : HttpRequest}

end Walk

/-! ## Reading a history -/

section History

variable {ι : Type} [DecidableEq ι]

/-- The last exchange of a caller in a history. It is what the caller has posted last, with the
reply, unless it has read the session id since. -/
def standing (i : ι) (l : HttpHistory ι) : Exchanging := sessionLedger.after none i l

/-- The last exchange was an `initialize`. -/
def Exchanging.initializes (t : Exchanging) : Bool := t.any (·.1.message.isInitialize)

/-- The session id that an operation captures from the answer to an `initialize`, in a `connect`
or in a re-initialisation. -/
def HttpOp.captured {β : Type} (o : HttpOp β) (t : Exchanging) : Option String :=
  if t.initializes then o.stored else none

theorem Exchanging.initializes_iff {t : Exchanging} :
    t.initializes = true ↔ ∃ exchanged ∈ t, exchanged.1.message.isInitialize = true := by
  constructor
  · intro h
    cases t with
    | none => cases h
    | some exchanged => exact ⟨exchanged, rfl, h⟩
  · rintro ⟨exchanged, rfl, h⟩
    exact h

/-- What is captured is what is stored after an `initialize`. -/
theorem captured_eq_some {β : Type} {o : HttpOp β} {t : Exchanging} {sid : String} :
    o.captured t = some sid ↔ t.initializes = true ∧ o.stored = some sid := by
  unfold HttpOp.captured
  split
  · exact (and_iff_right ‹_›).symm
  · exact iff_of_false (fun h => by cases h) fun h => absurd h.1 ‹_›

/-- The end of a successful re-initialisation. -/
def HttpOp.completes {β : Type} : HttpOp β → Bool
  | .setRefresh => true
  | _ => false

/-- The last session id that an `initialize` has brought. The first one is the id that the run
starts with. -/
def newest (first : String) : HttpHistory ι → String
  | [] => first
  | p :: l => (p.op.captured (standing p.caller l)).getD (newest first l)

/-- The session ids since the last re-initialisation that has completed. A request may still go
out under one of them. -/
def current (first : String) : HttpHistory ι → List String
  | [] => [first]
  | p :: l =>
    match p.op.captured (standing p.caller l) with
    | some sid => sid :: current first l
    | none => if p.op.completes then [newest first l] else current first l

/-- Whether something has happened since a caller read the session id. -/
def missed (mark : Performed HttpOp ι → HttpHistory ι → Bool) (i : ι) : HttpHistory ι → Bool
  | [] => false
  | p :: l => if p.caller = i ∧ p.op.readsSession then false else mark p l || missed mark i l

/-- What a caller has read is not the newest session id any more. An `initialize` of another
caller has been answered with an id since then. -/
def outdated (i : ι) (l : HttpHistory ι) : Bool :=
  missed (fun p l => (p.op.captured (standing p.caller l)).isSome) i l

/-- A re-initialisation has completed that brought a newer one. -/
def late (i : ι) (l : HttpHistory ι) : Bool :=
  missed (fun p l => p.op.completes && outdated i l) i l

/-- No response brings back an old session, and no message is sent in one. -/
def GoesForward (first : String) : HttpHistory ι → Prop
  | [] => True
  | p :: l =>
    (∀ sid ∈ p.op.stored, p.op.captured (standing p.caller l) = none → sid = newest first l) ∧
    (∀ request ∈ p.op.posted, request.message.isInitialize = false →
      ∃ sid ∈ current first l, request.sessionId = some sid) ∧ GoesForward first l

end History

/-! ## Two more conditions -/

/-- A server whose replies carry the session id of the request or none, unless it was an
`initialize`. -/
def Echoes (ι : Type) : Rule HttpOp ι HttpChoice (HttpRun ι) :=
  fun _ _ o e _ => ∀ request ∈ o.posted, request.message.isInitialize = false →
    ∀ sid ∈ e.reply.session, request.sessionId = some sid

instance (ι : Type) (i : ι) (β : Type) (o : HttpOp β) (e : HttpChoice) (s : HttpRun ι) :
    Decidable (Echoes ι i β o e s) :=
  inferInstanceAs (Decidable (∀ request ∈ o.posted, request.message.isInitialize = false →
    ∀ sid ∈ e.reply.session, request.sessionId = some sid))

/-- A request is under way: what remains of the caller's program may still send a message or
store the session id of a response before it reads the session id again. -/
def UnderWay {α : Type} : Prog HttpOp α → Prop
  | .ret _ | .panic => False
  | .op o k => o.readsSession = false ∧
    (o.posted.isSome = true ∨ o.stored.isSome = true ∨ ∃ b, UnderWay (k b))

section Overlap

variable {ι : Type} [DecidableEq ι]

/-- The next operation of a caller captures a session id. After this step what the others have
read before is out of date. -/
def Captures (i : ι) (c : Pool HttpOp ι (HttpRun ι) Unit) : Bool :=
  match c.task i with
  | .op o _ => (o.captured (standing i c.shared.log)).isSome
  | _ => false

/-- No session id is captured while a request of another caller is under way. -/
def Apart : List (ι × HttpChoice) → Pool HttpOp ι (HttpRun ι) Unit → Prop
  | [], _ => True
  | l :: ls, c =>
    (Captures l.1 c = true → ∀ j ≠ l.1, ¬ UnderWay (c.task j)) ∧
      ∀ c', (httpMachine ι).recorded.step l c = some c' → Apart ls c'

end Overlap

/-! ## The invariant -/

section Runs

variable {ι : Type} [DecidableEq ι] {first : String} {i j : ι} {β : Type} {o : HttpOp β} {b : β}
  {e : HttpChoice} {s t : HttpRun ι} {l : HttpHistory ι}

/-- Outside the answer to an `initialize` a caller stores nothing when it is outdated, and it
sends nothing but an `initialize` when it is late. -/
structure InTime (i : ι) (o : HttpOp β) (l : HttpHistory ι) : Prop where
  stores : o.stored.isSome = true → o.captured (standing i l) = none → outdated i l = false
  sends : ∀ request ∈ o.posted, request.message.isInitialize = false → late i l = false

/-- The stored session id is the newest one, and so is what has been taken away and what was
read in time. -/
structure Forward (first : String) (s : HttpRun ι) : Prop where
  stored : ∀ sid, s.state.sessionId = some sid → sid = newest first s.log
  away : ∀ j sid, takenBy s.log = some (j, some sid) → sid = newest first s.log
  kept : newest first s.log ∈ current first s.log
  fresh : ∀ j sid, lastRead j s.log = some (some sid) → outdated j s.log = false →
    sid = newest first s.log
  early : ∀ j sid, lastRead j s.log = some (some sid) → late j s.log = false →
    sid ∈ current first s.log
  echoed : ∀ j, ∀ exchanged ∈ standing j s.log,
    exchanged.1.message.isInitialize = false →
      ∀ sid ∈ exchanged.2.session, lastRead j s.log = some (some sid)
  forward : GoesForward first s.log

/-- Nothing was missed: the caller has just read the session id, or nothing has happened since
it did. -/
theorem missed_eq_false {mark : Performed HttpOp ι → HttpHistory ι → Bool}
    (h : missed mark j (⟨i, o, b⟩ :: l) = false) :
    (i = j ∧ o.readsSession = true) ∨ (mark ⟨i, o, b⟩ l = false ∧ missed mark j l = false) := by
  rw [missed] at h
  split at h
  · exact .inl ‹_›
  · exact .inr (Bool.or_eq_false_iff.mp h)

/-- Only a read by the caller itself changes what it has read last. -/
theorem lastRead_cons (h : ¬ (i = j ∧ o.readsSession = true)) :
    lastRead j (⟨i, o, b⟩ :: l) = lastRead j l := by
  rw [lastRead]
  split
  · rename_i hij
    cases o <;> first | rfl | exact absurd ⟨hij, rfl⟩ h
  · rfl

theorem lastRead_unread (h : o.readsSession = false) :
    lastRead j (⟨i, o, b⟩ :: l) = lastRead j l := by
  refine lastRead_cons fun h' => ?_
  rw [h] at h'
  cases h'.2

theorem newest_cons (h : o.captured (standing i l) = none) :
    newest first (⟨i, o, b⟩ :: l) = newest first l := by
  rw [newest]
  exact congrArg (Option.getD · _) h

theorem newest_cons_of_stored (h : o.stored = none) :
    newest first (⟨i, o, b⟩ :: l) = newest first l := by
  refine newest_cons ?_
  rw [HttpOp.captured, h, ite_self]

/-- The operations that may change the session id. All others find it as it was and leave it so. -/
def HttpOp.moves {β : Type} : HttpOp β → Bool
  | .takeSession | .storeSession _ | .restoreSession _ => true
  | _ => false

theorem exec_unmoved {s t : HttpWorld ι} (ho : o.moves = false)
    (h : (httpMachine ι).exec i β o e s = some (b, t)) :
    t.sessionId = s.sessionId ∧ takenBy (⟨i, o, b⟩ :: l) = takenBy l ∧ o.stored = none := by
  cases o with
  | oauth o =>
    obtain ⟨r, -, heq⟩ := Option.map_eq_some_iff.mp h
    obtain ⟨-, rfl⟩ := Prod.mk.inj heq
    exact ⟨rfl, rfl, rfl⟩
  -- the lock can only be taken when it is free
  | lockReinit =>
    simp only [httpMachine, HttpWorld.exec] at h
    split at h
    · obtain ⟨-, rfl⟩ := Prod.mk.inj (Option.some.inj h)
      exact ⟨rfl, rfl, rfl⟩
    · cases h
  | needsHandshake =>
    simp only [httpMachine, HttpWorld.exec] at h
    split at h <;> (cases h; exact ⟨rfl, rfl, rfl⟩)
  | takeSession => cases ho
  | storeSession sid => cases ho
  | restoreSession stale => cases ho
  | _ => cases h; exact ⟨rfl, rfl, rfl⟩

/-- What a caller has read in time. -/
theorem Forward.fresh_step (hs : Forward first s)
    (he : (httpMachine ι).recorded.exec i β o e s = some (b, t)) {sid : String}
    (hread : lastRead j t.log = some (some sid)) (htime : outdated j t.log = false) :
    sid = newest first t.log := by
  obtain ⟨hexec, hlog⟩ := Machine.recorded_exec he
  rw [hlog] at hread htime ⊢
  -- the caller has just read the slot, or read it earlier
  by_cases hown : i = j ∧ o.readsSession = true
  · cases o with
    | loadSession =>
      obtain ⟨rfl, -⟩ := hown
      rw [newest_cons_of_stored rfl]
      rw [lastRead, if_pos rfl] at hread
      refine hs.stored sid ?_
      rw [← Option.some.inj hread]
      exact (Prod.mk.inj (Option.some.inj hexec)).1
    | _ => cases hown.2
  · -- nothing newer has been captured since
    rcases missed_eq_false htime with h | ⟨hmark, hmissed⟩
    · exact absurd h hown
    rw [newest_cons (Option.isSome_eq_false_iff.mp hmark |> Option.isNone_iff_eq_none.mp)]
    exact hs.fresh j sid ((lastRead_cons hown).symm.trans hread) hmissed

/-- The newest session id is always current. -/
theorem Forward.kept_step (hs : Forward first s) :
    newest first (⟨i, o, b⟩ :: s.log) ∈ current first (⟨i, o, b⟩ :: s.log) := by
  cases hcaptured : o.captured (standing i s.log) with
  | some sid =>
    simp only [newest, current, hcaptured]
    exact List.mem_cons_self
  | none =>
    simp only [newest, current, hcaptured, Option.getD_none]
    split
    · exact List.mem_singleton.mpr rfl
    · exact hs.kept

/-- What it has read early enough to send it. -/
theorem Forward.early_step (hs : Forward first s)
    (he : (httpMachine ι).recorded.exec i β o e s = some (b, t)) {sid : String}
    (hread : lastRead j t.log = some (some sid)) (htime : late j t.log = false) :
    sid ∈ current first t.log := by
  obtain ⟨hexec, hlog⟩ := Machine.recorded_exec he
  by_cases hown : i = j ∧ o.readsSession = true
  · have hfresh : sid = newest first t.log := by
      refine hs.fresh_step he hread ?_
      rw [hlog, outdated, missed, if_pos hown]
    rw [hfresh, hlog]
    exact hs.kept_step
  · -- no later handshake has been completed since it was read
    rw [hlog] at hread htime ⊢
    have hread : lastRead j s.log = some (some sid) := (lastRead_cons hown).symm.trans hread
    rcases missed_eq_false htime with h | ⟨hmark, hmissed⟩
    · exact absurd h hown
    have hearly : sid ∈ current first s.log := hs.early j sid hread hmissed
    -- the list of current ids grows, starts anew at the end of a handshake, or stays
    rw [current]
    split
    · exact List.mem_cons_of_mem _ hearly
    · split
      · rename_i hcompletes
        rw [show o.completes = true from hcompletes, Bool.true_and] at hmark
        exact List.mem_singleton.mpr (hs.fresh j sid hread hmark)
      · exact hearly

/-- The session ids of its replies are those that it has read. -/
theorem Forward.echoed_step (hs : Forward first s)
    (he : (httpMachine ι).recorded.exec i β o e s = some (b, t)) (htold : Told t.log)
    (hecho : Echoes ι i β o e s) {exchanged : HttpRequest × HttpReply}
    (hexchanged : standing j t.log = some exchanged)
    (hmessage : exchanged.1.message.isInitialize = false) {sid : String}
    (hsid : exchanged.2.session = some sid) : lastRead j t.log = some (some sid) := by
  obtain ⟨hexec, hlog⟩ := Machine.recorded_exec he
  rw [hlog] at hexchanged htold ⊢
  -- the caller's own step, or another's
  by_cases hown : i = j
  · subst hown
    rw [standing, Ledger.after_own] at hexchanged
    -- a read ends the reply it had; a post begins the next one
    cases o with
    | loadSession => cases hexchanged
    | post request =>
      cases hexchanged
      have hreply : b = e.reply := (Prod.mk.inj (Option.some.inj hexec)).1.symm
      obtain ⟨sid', hsession, hread⟩ := htold.1 request rfl hmessage
      have hsent := hecho request rfl hmessage sid (hreply ▸ hsid)
      rw [hsession] at hsent
      cases hsent
      -- the reply echoes what was sent, and that was read
      exact (lastRead_unread rfl).trans hread
    | _ =>
      refine (lastRead_unread rfl).trans ?_
      exact hs.echoed i exchanged hexchanged hmessage sid hsid
  · rw [standing, Ledger.after_other hown] at hexchanged
    rw [lastRead_other hown]
    exact hs.echoed j exchanged hexchanged hmessage sid hsid

/-- What a caller stores outside the answer to an `initialize` is the newest session id. -/
theorem Forward.stores (hs : Forward first s) {sid : String} (hstored : o.stored = some sid)
    (horder : sessionLedger.inOrder o (standing i s.log)) (htime : InTime i o s.log)
    (houtside : o.captured (standing i s.log) = none) : sid = newest first s.log := by
  obtain ⟨exchanged, hexchanged, hsid⟩ := horder.stores sid hstored
  have hmessage : exchanged.1.message.isInitialize = false := by
    refine Bool.eq_false_iff.mpr fun h => ?_
    have hcaptured : o.captured (standing i s.log) = o.stored :=
      if_pos (Exchanging.initializes_iff.mpr ⟨exchanged, hexchanged, h⟩)
    rw [houtside, hstored] at hcaptured
    cases hcaptured
  refine hs.fresh i sid (hs.echoed i exchanged hexchanged hmessage sid hsid) ?_
  exact htime.stores (by rw [hstored]; rfl) houtside

/-- The step lemma. -/
theorem Forward.step (hs : Forward first s) (hopen : SessionOpen s)
    (he : (httpMachine ι).recorded.exec i β o e s = some (b, t)) (htold : Told t.log)
    (horder : sessionLedger.inOrder o (standing i s.log)) (hecho : Echoes ι i β o e s)
    (htime : InTime i o s.log) : Forward first t := by
  obtain ⟨hexec, hlog⟩ := Machine.recorded_exec he
  have hforward : GoesForward first t.log := by
    rw [hlog]
    refine ⟨fun sid hsid hout => hs.stores hsid horder htime hout, fun request hr hm => ?_,
      hs.forward⟩
    rw [hlog] at htold
    obtain ⟨sid, hsession, hread⟩ := htold.1 request hr hm
    exact ⟨sid, hs.early i sid hread (htime.sends request hr hm), hsession⟩
  have hid : (∀ sid, t.state.sessionId = some sid → sid = newest first t.log) ∧
      ∀ j sid, takenBy t.log = some (j, some sid) → sid = newest first t.log := by
    rw [hlog]
    cases hmoves : o.moves with
    | false =>
      obtain ⟨hsession, htaken, hstored⟩ := exec_unmoved (l := s.log) hmoves hexec
      rw [hsession, htaken, newest_cons_of_stored hstored]
      exact ⟨hs.stored, hs.away⟩
    | true =>
      cases o with
      | takeSession =>
        obtain ⟨hstale, hstate⟩ := Prod.mk.inj (Option.some.inj hexec)
        rw [newest_cons_of_stored rfl, ← hstate]
        refine ⟨nofun, fun j sid h => hs.stored sid ?_⟩
        rw [hstale]
        exact (Prod.mk.inj (Option.some.inj h)).2
      | storeSession sid =>
        obtain ⟨-, hstate⟩ := Prod.mk.inj (Option.some.inj hexec)
        rw [← hstate]
        refine ⟨fun sid' h => ?_, nofun⟩
        cases h
        cases hcaptured : (HttpOp.storeSession sid).captured (standing i s.log) with
        | some sid' =>
          obtain rfl : sid = sid' := Option.some.inj (captured_eq_some.mp hcaptured).2
          rw [newest]
          exact (congrArg (Option.getD · _) hcaptured).symm
        | none =>
          rw [newest_cons hcaptured]
          exact hs.stores rfl horder htime hcaptured
      | restoreSession stale =>
        obtain ⟨-, hstate⟩ := Prod.mk.inj (Option.some.inj hexec)
        rw [newest_cons_of_stored rfl, ← hstate]
        rw [hlog] at htold
        have hput := htold.2.1 stale rfl
        refine ⟨fun sid h => ?_, fun j sid h => ?_⟩
        · -- what is put back had been taken, unless somebody has stored a session id since
          dsimp only at h
          cases hsession : s.state.sessionId with
          | some sid' =>
            rw [hsession] at h
            exact hs.stored sid (hsession.trans h)
          | none =>
            rw [hsession] at h
            obtain ⟨⟨j, taken⟩, htaken⟩ := Option.ne_none_iff_exists'.mp (hopen.taken hsession)
            have hsame : taken = stale := hput _ htaken
            refine hs.away j sid ?_
            rw [htaken, hsame]
            exact congrArg (fun stale => some (j, stale)) h
        · rcases stale with _ | stale
          · exact hs.away j sid h
          · cases h
      | _ => cases hmoves
  refine ⟨hid.1, hid.2, ?_, fun j sid => hs.fresh_step he, fun j sid => hs.early_step he,
    fun j exchanged h hm sid hsid => hs.echoed_step he htold hecho h hm hsid, hforward⟩
  rw [hlog]
  exact hs.kept_step

/-- A caller that has not missed a new session id is not late. -/
theorem late_of_outdated (h : outdated j l = false) : late j l = false := by
  induction l with
  | nil => rfl
  | cons p l ih =>
    rw [late, missed]
    rw [outdated] at h
    rcases missed_eq_false (o := p.op) h with hread | ⟨hmark, hmissed⟩
    · exact if_pos hread
    · split
      · rfl
      · refine Bool.or_eq_false_iff.mpr ⟨?_, ih hmissed⟩
        exact Bool.and_eq_false_imp.mpr fun _ => hmissed

/-- Nothing that a caller has missed is captured by an operation that captures nothing. -/
theorem outdated_cons (h : outdated j l = false) (hcaptured : o.captured (standing i l) = none) :
    outdated j (⟨i, o, b⟩ :: l) = false := by
  rw [outdated, missed]
  split
  · rfl
  · exact Bool.or_eq_false_iff.mpr ⟨by rw [hcaptured]; rfl, h⟩

/-- As long as a request is under way, its caller has missed no new session id, unless the
request is an `initialize`. -/
def Unhurried (c : Pool HttpOp ι (HttpRun ι) Unit) : Prop :=
  ∀ j, UnderWay (c.task j) →
    outdated j c.shared.log = false ∨ (standing j c.shared.log).initializes = true

/-- A caller whose request is under way acts in time. -/
theorem inTime_of_underWay {k : β → Prog HttpOp Unit}
    (h : UnderWay (.op o k) → outdated i l = false ∨ (standing i l).initializes = true)
    (horder : sessionLedger.inOrder o (standing i l)) : InTime i o l := by
  refine ⟨fun hstored houtside => ?_, fun request hposted hmessage => ?_⟩
  · have hunread : o.readsSession = false := by
      cases o <;> first | rfl | cases hstored
    rcases h ⟨hunread, .inr (.inl hstored)⟩ with h | h
    · exact h
    · -- what is stored from an answer to an `initialize` is captured
      rw [HttpOp.captured, if_pos h] at houtside
      rw [houtside] at hstored
      cases hstored
  · have hunread : o.readsSession = false := by
      cases o <;> first | rfl | cases hposted
    rcases h ⟨hunread, .inl (Option.isSome_iff_exists.mpr ⟨request, hposted⟩)⟩ with h | h
    · exact late_of_outdated h
    · -- after an `initialize` only that is sent again
      obtain ⟨exchanged, hexchanged, hinitialize⟩ := Exchanging.initializes_iff.mp h
      rw [horder.sends request hposted exchanged hexchanged, hmessage] at hinitialize
      cases hinitialize

/-- A step keeps the callers unhurried, if what it captures falls into no other request. -/
theorem Unhurried.step {x : ι × HttpChoice} {c c' : Pool HttpOp ι (HttpRun ι) Unit}
    (h : Unhurried c) (hledger : sessionLedger.Holds none (fun _ _ => True) c)
    (hapart : Captures x.1 c = true → ∀ j ≠ x.1, ¬ UnderWay (c.task j))
    (hstep : (httpMachine ι).recorded.step x c = some c') : Unhurried c' := by
  obtain ⟨q, hfire, htask⟩ := Machine.step_eq_some _ hstep
  obtain ⟨δ, o, k, b, hop, hexec, rfl⟩ := Machine.fire_eq_some _ hfire
  obtain ⟨-, hlog⟩ := Machine.recorded_exec hexec
  have horder : sessionLedger.inOrder o (standing x.1 c.shared.log) :=
    (hop ▸ hledger.keeps x.1 : (Prog.op o k).Keeps _ _ _).1
  intro j hj
  rw [hlog]
  by_cases hown : j = x.1
  · subst hown
    rw [htask, Function.update_self] at hj
    cases hread : o.readsSession with
    | true => exact .inl (if_pos ⟨rfl, hread⟩)
    | false =>
      have hbefore : UnderWay (c.task x.1) := hop ▸ ⟨hread, .inr (.inr ⟨b, hj⟩)⟩
      rw [standing, Ledger.after_own]
      cases hcaptured : o.captured (standing x.1 c.shared.log) with
      | some sid =>
        -- the caller has captured the answer to its own `initialize`
        obtain ⟨hstarts, hstored⟩ := captured_eq_some.mp hcaptured
        refine .inr ?_
        cases o with
        | storeSession sid' => exact hstarts
        | _ => cases hstored
      | none =>
        rcases h x.1 hbefore with hfresh | hinitialize
        · exact .inl (outdated_cons hfresh hcaptured)
        · refine .inr ?_
          cases o with
          | loadSession => cases hread
          | post request =>
            obtain ⟨exchanged, hexchanged, hm⟩ := Exchanging.initializes_iff.mp hinitialize
            exact (horder.sends request rfl exchanged hexchanged).symm.trans hm
          | _ => exact hinitialize
  · rw [Machine.step_task_ne _ hstep hown] at hj
    rw [standing, Ledger.after_other (Ne.symm hown)]
    have hcaptured : o.captured (standing x.1 c.shared.log) = none := by
      refine Option.not_isSome_iff_eq_none.mp fun h' => ?_
      refine hapart ?_ j hown hj
      rw [Captures, hop]
      exact h'
    exact (h j hj).imp (outdated_cons · hcaptured) id

/-! ## The runs -/

/-- The conditions on the server and on the reads of a run. -/
abbrev ForwardRule (ι : Type) : Rule HttpOp ι HttpChoice (HttpRun ι) :=
  fun i β o e s => WindowRule ι i β o e s ∧ Echoes ι i β o e s

/-- What holds of the calls in every reachable state. -/
structure ForwardHolds (first : String) (c : Pool HttpOp ι (HttpRun ι) Unit) : Prop where
  window : Protocol.Holds (windowProtocol ι) (httpMachine ι).recorded (WindowRule ι)
    (fun _ _ _ => True) c
  ledger : sessionLedger.Holds none (fun _ _ => True) c
  unhurried : Unhurried c
  forward : Forward first c.shared

theorem ForwardHolds.step {l : ι × HttpChoice} {c c' : Pool HttpOp ι (HttpRun ι) Unit}
    (h : ForwardHolds first c)
    (hC : ∀ (δ : Type) (o : HttpOp δ) (k : δ → Prog HttpOp Unit),
      c.task l.1 = .op o k → ForwardRule ι l.1 δ o l.2 c.shared)
    (hapart : Captures l.1 c = true → ∀ j ≠ l.1, ¬ UnderWay (c.task j))
    (hstep : (httpMachine ι).recorded.step l c = some c') : ForwardHolds first c' := by
  have hwindow := h.window.step (fun δ o k hop => (hC δ o k hop).1) hstep
  refine ⟨hwindow, h.ledger.step hstep, h.unhurried.step h.ledger hapart hstep, ?_⟩
  obtain ⟨q, hfire, -⟩ := Machine.step_eq_some _ hstep
  obtain ⟨δ, o, k, b, hop, hexec, -⟩ := Machine.fire_eq_some _ hfire
  have hkeeps : (Prog.op o k).Keeps sessionLedger _ _ := hop ▸ h.ledger.keeps l.1
  have htime := inTime_of_underWay (k := k) (hop ▸ h.unhurried l.1) hkeeps.1
  exact h.forward.step h.window.inv hexec hwindow.inv.told hkeeps.1 (hC δ o k hop).2 htime

/-- By induction on the schedule. -/
theorem ForwardHolds.play {ls : List (ι × HttpChoice)} {c c' : Pool HttpOp ι (HttpRun ι) Unit}
    (h : ForwardHolds first c) (hrule : (httpMachine ι).recorded.Meets (ForwardRule ι) ls c)
    (hapart : Apart ls c) (hp : (httpMachine ι).recorded.play ls c = some c') :
    ForwardHolds first c' := by
  induction ls generalizing c with
  | nil =>
    obtain rfl := Option.some.inj hp
    exact h
  | cons l ls ih =>
    obtain ⟨c₁, hstep, hp⟩ := Option.bind_eq_some_iff.mp hp
    exact ih (h.step hrule.1 hapart.1 hstep) (hrule.2 c₁ hstep) (hapart.2 c₁ hstep) hp

end Runs

/-! ## Two callers -/

end HeadlessMcp
