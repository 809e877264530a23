import HeadlessMcp.Async.Rely
import HeadlessMcp.Http.Traffic
import HeadlessMcp.Http.World

/-!
# Requests during a handshake

A re-initialisation takes the session id away for the length of its handshake, and other
callers read the id without asking for the re-initialisation lock. A request that reads it
in that window goes out without one: to the server it belongs to no session, and to the hub
its failure is no lost session.

`SessionOpen` says what the history of a run looks like in which nobody reads the id in that
window: every message goes out under the id that its caller has read, and what a failed
re-initialisation puts back is what it has taken.
-/

namespace HeadlessMcp

open Async Machine

/-! ## Reading a history -/

/-- Who has taken which session id away, once a caller has performed one more operation. -/
def HttpOp.takes {ι β : Type} (i : ι) (before : Option (ι × Option String)) :
    HttpOp β → β → Option (ι × Option String)
  | .takeSession, stale => some (i, stale)
  | .storeSession _, _ => none
  | .restoreSession (some _), _ => none
  | _, _ => before

/-- Who has taken which session id away, while nobody has stored one since. The window is open as
long as there is such a caller. -/
def takenBy {ι : Type} : HttpHistory ι → Option (ι × Option String)
  | [] => none
  | p :: l => p.op.takes p.caller (takenBy l) p.answer

/-- What a caller has read last, once it has performed one more operation. -/
def HttpOp.reads {β : Type} (before : Option (Option String)) :
    HttpOp β → β → Option (Option String)
  | .loadSession, sid => some sid
  | _, _ => before

/-- What a caller has last read as the session id. This is the id that its next request goes out
under. -/
def lastRead {ι : Type} [DecidableEq ι] (i : ι) : HttpHistory ι → Option (Option String)
  | [] => none
  | p :: l => if p.caller = i then p.op.reads (lastRead i l) p.answer else lastRead i l

/-- A message goes out under the session id that its caller has read; only an `initialize`
needs none. -/
def InSession {ι : Type} [DecidableEq ι] (i : ι) (before : HttpHistory ι)
    (request : HttpRequest) : Prop :=
  request.message.isInitialize = false →
    ∃ sid, request.sessionId = some sid ∧ lastRead i before = some (some sid)

/-- The session id that an operation puts back. -/
def HttpOp.putsBack {β : Type} : HttpOp β → Option (Option String)
  | .restoreSession stale => some stale
  | _ => none

/-- Every message was in a session, and whatever was put back is what had been taken. -/
def Told {ι : Type} [DecidableEq ι] : HttpHistory ι → Prop
  | [] => True
  | p :: l => (∀ request ∈ p.op.posted, InSession p.caller l request) ∧
      (∀ stale ∈ p.op.putsBack, ∀ taken ∈ takenBy l, taken.2 = stale) ∧ Told l

/-! ## Two conditions -/

/-- The headers of a reply carry a session id. -/
def carriesSession (headers : Entries String) : Bool :=
  ((headers.get "mcp-session-id").filter headerTextOk).isSome

/-- If there is an answer, it carries a session id. -/
def HttpReply.opensSession : HttpReply → Bool
  | .failed _ _ => true
  | .response _ headers _ => carriesSession headers

/-- A read of the session id. -/
def HttpOp.readsSession {β : Type} : HttpOp β → Bool
  | .loadSession => true
  | _ => false

/-- A server that answers every `initialize` with a session id. -/
def IssuesSessions (ι : Type) : Rule HttpOp ι HttpChoice (HttpRun ι) :=
  fun _ _ o e _ => ∀ request ∈ o.posted,
    request.message.isInitialize = true → e.reply.opensSession = true

/-- Nobody reads the session id while another caller has taken it away. This is about the moment
of the read, and not about what is sent afterwards. -/
def ReadsOutside (ι : Type) : Rule HttpOp ι HttpChoice (HttpRun ι) :=
  fun i _ o _ s => o.readsSession = true → ∀ taken ∈ takenBy s.log, taken.1 = i

instance (ι : Type) (i : ι) (β : Type) (o : HttpOp β) (e : HttpChoice) (s : HttpRun ι) :
    Decidable (IssuesSessions ι i β o e s) :=
  inferInstanceAs (Decidable (∀ request ∈ o.posted,
    request.message.isInitialize = true → e.reply.opensSession = true))

instance (ι : Type) [DecidableEq ι] (i : ι) (β : Type) (o : HttpOp β) (e : HttpChoice)
    (s : HttpRun ι) : Decidable (ReadsOutside ι i β o e s) :=
  inferInstanceAs (Decidable (o.readsSession = true → ∀ taken ∈ takenBy s.log, taken.1 = i))

/-- Both of them. -/
abbrev WindowRule (ι : Type) : Rule HttpOp ι HttpChoice (HttpRun ι) :=
  fun i β o e s => IssuesSessions ι i β o e s ∧ ReadsOutside ι i β o e s

section Window

variable {ι : Type} [DecidableEq ι]

/-! ## The discipline -/

/-- There is a proper session id unless somebody has taken it, and the history is as it
should be. -/
structure SessionOpen (s : HttpRun ι) : Prop where
  text : ∀ sid, s.state.sessionId = some sid → headerTextOk sid = true
  taken : s.state.sessionId = none → takenBy s.log ≠ none
  told : Told s.log

/-- The caller has not taken the session id away, or it is back. This is what a caller knows of
itself, whatever the others have taken. -/
def NotTaken (i : ι) (s : HttpRun ι) : Prop := ∀ stale, takenBy s.log ≠ some (i, stale)

/-- Nobody acts in the name of a caller, or takes the session id away while it has the
re-initialisation lock. -/
structure Respects (i : ι) (s t : HttpRun ι) : Prop where
  mine : NotTaken i s → NotTaken i t
  locked : s.state.reinitHolder = some i → t.state.reinitHolder = some i ∧
    (takenBy t.log = takenBy s.log ∨ takenBy t.log = none)

omit [DecidableEq ι] in
theorem Respects.trans {i : ι} {s t u : HttpRun ι} (hst : Respects i s t) (htu : Respects i t u) :
    Respects i s u := by
  refine ⟨fun h => htu.mine (hst.mine h), fun h => ?_⟩
  obtain ⟨ht, hst⟩ := hst.locked h
  obtain ⟨hu, htu⟩ := htu.locked ht
  refine ⟨hu, ?_⟩
  rcases htu with htu | htu
  · rw [htu]
    exact hst
  · exact .inr htu

/-- The discipline of the callers. -/
def windowProtocol (ι : Type) [DecidableEq ι] : Protocol ι (HttpRun ι) where
  inv := SessionOpen
  rely i s t := Respects i s t ∧ lastRead i t.log = lastRead i s.log
  rely_refl _ _ := ⟨⟨id, fun h => ⟨h, .inl rfl⟩⟩, rfl⟩
  rely_trans _ _ _ _ hst htu := ⟨hst.1.trans htu.1, htu.2.trans hst.2⟩

/-- The operations that leave a session id where there is one, and the lock alone. -/
def HttpOp.Leaves (P : HttpRequest → Prop) {β : Type} : HttpOp β → Prop
  | .takeSession | .restoreSession _ | .loadSession | .lockReinit | .unlockReinit => False
  | .storeSession sid => headerTextOk sid = true
  | .post request => P request
  | _ => True

variable {i j : ι} {β : Type} {o : HttpOp β} {e : HttpChoice} {s t : HttpRun ι} {b : β}
  {l : HttpHistory ι} {P : HttpRequest → Prop}

theorem HttpOp.Exchange.leaves (ho : o.Exchange P) : o.Leaves P := by
  cases o <;> first | exact ho | exact False.elim ho

theorem lastRead_other (h : i ≠ j) : lastRead j (⟨i, o, b⟩ :: l) = lastRead j l := if_neg h

theorem lastRead_leaves (ho : o.Leaves P) : lastRead j (⟨i, o, b⟩ :: l) = lastRead j l := by
  by_cases h : i = j
  · subst h
    rw [lastRead, if_pos rfl]
    cases o <;> first | rfl | exact False.elim ho
  · exact lastRead_other h

/-- What such an operation does to the session id. -/
theorem exec_leaves {s t : HttpWorld ι} (ho : o.Leaves P)
    (h : (httpMachine ι).exec i β o e s = some (b, t)) :
    t.reinitHolder = s.reinitHolder ∧
      (t.sessionId = s.sessionId ∧ takenBy (⟨i, o, b⟩ :: l) = takenBy l ∨
        ∃ sid, t.sessionId = some sid ∧ headerTextOk sid = true ∧
          takenBy (⟨i, o, b⟩ :: l) = none) := by
  cases o with
  | oauth o =>
    obtain ⟨r, -, heq⟩ := Option.map_eq_some_iff.mp h
    obtain ⟨-, rfl⟩ := Prod.mk.inj heq
    exact ⟨rfl, .inl ⟨rfl, rfl⟩⟩
  | storeSession sid =>
    obtain ⟨-, rfl⟩ := Prod.mk.inj (Option.some.inj h)
    exact ⟨rfl, .inr ⟨sid, rfl, ho, rfl⟩⟩
  | needsHandshake =>
    simp only [httpMachine, HttpWorld.exec] at h
    split at h <;> (cases h; exact ⟨rfl, .inl ⟨rfl, rfl⟩⟩)
  | takeSession => exact False.elim ho
  | restoreSession stale => exact False.elim ho
  | loadSession => exact False.elim ho
  | lockReinit => exact False.elim ho
  | unlockReinit => exact False.elim ho
  | _ => cases h; exact ⟨rfl, .inl ⟨rfl, rfl⟩⟩

/-- An operation that neither posts nor puts anything back adds nothing to tell. -/
theorem Told.cons (h : Told l) (hposted : o.posted = none) (hputs : o.putsBack = none) :
    Told (⟨i, o, b⟩ :: l) := by
  refine ⟨fun request hr => ?_, fun stale hs => ?_, h⟩
  · rw [show (⟨i, o, b⟩ : Performed HttpOp ι).op.posted = none from hposted] at hr
    cases hr
  · rw [show (⟨i, o, b⟩ : Performed HttpOp ι).op.putsBack = none from hputs] at hs
    cases hs

/-- Such an operation keeps the discipline, and its caller can expect it as well. -/
theorem SessionOpen.leaves (hs : SessionOpen s) (ho : o.Leaves P)
    (hP : ∀ request, P request → InSession i s.log request)
    (he : (httpMachine ι).recorded.exec i β o e s = some (b, t)) :
    SessionOpen t ∧ ∀ j, (windowProtocol ι).rely j s t := by
  obtain ⟨hexec, hlog⟩ := Machine.recorded_exec he
  obtain ⟨hholder, hsession⟩ := exec_leaves (l := s.log) ho hexec
  have htold : Told t.log := by
    rw [hlog]
    cases o with
    | post r => exact ⟨fun _ hr => by cases hr; exact hP r ho, nofun, hs.told⟩
    | restoreSession stale => exact False.elim ho
    | _ => exact hs.told.cons rfl rfl
  have hread : ∀ j, lastRead j t.log = lastRead j s.log := by
    rw [hlog]
    exact fun j => lastRead_leaves ho
  rcases hsession with ⟨hsession, htaken⟩ | ⟨sid, hsession, htext, htaken⟩
  · -- no session id is captured, and nobody takes it away
    have hsame : takenBy t.log = takenBy s.log := by rw [hlog, htaken]
    refine ⟨⟨?_, ?_, htold⟩, fun j => ⟨⟨fun hj => ?_, fun h => ⟨hholder.trans h, .inl hsame⟩⟩,
      hread j⟩⟩
    · rw [hsession]
      exact hs.text
    · rw [hsession, hsame]
      exact hs.taken
    · rw [NotTaken, hsame]
      exact hj
  · -- a session id is captured, which also ends the window
    have hnone : takenBy t.log = none := by rw [hlog, htaken]
    refine ⟨⟨?_, ?_, htold⟩, fun j => ⟨⟨fun _ => ?_, fun h => ⟨hholder.trans h, .inr hnone⟩⟩,
      hread j⟩⟩
    · rw [hsession]
      rintro _ ⟨⟩
      exact htext
    · rw [hsession]
      intro h
      cases h
    · rw [NotTaken, hnone]
      exact fun _ => nofun

/-- Reading the session id outside the window. -/
theorem SessionOpen.read (hs : SessionOpen s) {sid : Option String}
    (he : (httpMachine ι).recorded.exec i _ .loadSession e s = some (sid, t)) :
    (windowProtocol ι).Keeps i s t ∧ Respects i s t ∧ sid = s.state.sessionId ∧
      lastRead i t.log = some sid := by
  obtain ⟨hexec, hlog⟩ := Machine.recorded_exec he
  obtain ⟨hsid, hstate⟩ := Prod.mk.inj (Option.some.inj hexec)
  have hsame : takenBy t.log = takenBy s.log := by
    rw [hlog]
    rfl
  have hrespects : ∀ j, Respects j s t := fun j =>
    ⟨fun h => by rwa [NotTaken, hsame], fun h => ⟨by rw [← hstate]; exact h, .inl hsame⟩⟩
  -- outside the window nothing else changes than what the caller has read
  refine ⟨⟨⟨?_, ?_, ?_⟩, fun j hj => ⟨hrespects j, ?_⟩⟩, hrespects i, hsid.symm, ?_⟩
  · rw [← hstate]
    exact hs.text
  · rw [← hstate, hsame]
    exact hs.taken
  · rw [hlog]
    exact hs.told.cons rfl rfl
  · rw [hlog]
    exact lastRead_other (Ne.symm hj)
  · rw [hlog, lastRead, if_pos rfl]
    rfl

/-- Taking the session id away, with the lock. -/
theorem SessionOpen.take (hs : SessionOpen s) (hlock : s.state.reinitHolder = some i)
    {stale : Option String}
    (he : (httpMachine ι).recorded.exec i _ .takeSession e s = some (stale, t)) :
    (windowProtocol ι).Keeps i s t ∧ (∀ sid, stale = some sid → headerTextOk sid = true) ∧
      t.state.reinitHolder = some i ∧ takenBy t.log = some (i, stale) := by
  obtain ⟨hexec, hlog⟩ := Machine.recorded_exec he
  obtain ⟨hstale, hstate⟩ := Prod.mk.inj (Option.some.inj hexec)
  have htaken : takenBy t.log = some (i, stale) := by
    rw [hlog]
    rfl
  -- with the id away the discipline asks nothing of the slot; the window is the caller's own
  refine ⟨⟨⟨?_, ?_, ?_⟩, fun j hj => ⟨⟨fun _ => ?_, fun h => ?_⟩, ?_⟩⟩, ?_, ?_, htaken⟩
  · rw [← hstate]
    exact nofun
  · rw [htaken]
    exact fun _ => nofun
  · rw [hlog]
    exact hs.told.cons rfl rfl
  · rw [NotTaken, htaken]
    exact fun _ h => hj (Prod.mk.inj (Option.some.inj h)).1.symm
  · rw [hlock] at h
    exact absurd (Option.some.inj h).symm hj
  · rw [hlog]
    exact lastRead_other (Ne.symm hj)
  · rw [← hstale]
    exact hs.text
  · rw [← hstate]
    exact hlock

/-- Putting back what was taken. -/
theorem SessionOpen.restore (hs : SessionOpen s) (hlock : s.state.reinitHolder = some i)
    {stale : Option String} (hstale : ∀ sid, stale = some sid → headerTextOk sid = true)
    (htaken : ∀ taken ∈ takenBy s.log, taken.2 = stale)
    (he : (httpMachine ι).recorded.exec i _ (.restoreSession stale) e s = some ((), t)) :
    (windowProtocol ι).Keeps i s t ∧ t.state.reinitHolder = some i := by
  obtain ⟨hexec, hlog⟩ := Machine.recorded_exec he
  obtain ⟨-, hstate⟩ := Prod.mk.inj (Option.some.inj hexec)
  have hsession : t.state.sessionId = (s.state.sessionId <|> stale) := by rw [← hstate]
  -- only an id that was there can be put back; with none taken the window stays open
  have hback : stale.isSome = true ∧ takenBy t.log = none ∨
      stale = none ∧ takenBy t.log = takenBy s.log := by
    rw [hlog]
    rcases stale with _ | sid
    · exact .inr ⟨rfl, rfl⟩
    · exact .inl ⟨rfl, rfl⟩
  refine ⟨⟨⟨?_, ?_, ?_⟩, fun j hj => ⟨⟨fun h => ?_, fun h => ?_⟩, ?_⟩⟩, ?_⟩
  · -- a session id that a handshake has captured meanwhile wins over the stale one
    rw [hsession]
    intro sid h
    cases hsid : s.state.sessionId with
    | none =>
      rw [hsid] at h
      exact hstale sid h
    | some sid' =>
      rw [hsid] at h
      cases h
      exact hs.text _ hsid
  · -- with an empty slot nothing was put back, so it is still the window of whoever took it
    rw [hsession]
    intro h
    cases hsid : s.state.sessionId with
    | none =>
      rw [hsid] at h
      subst h
      rcases hback with ⟨h, -⟩ | ⟨-, hsame⟩
      · cases h
      · rw [hsame]
        exact hs.taken hsid
    | some sid' =>
      rw [hsid] at h
      cases h
  · rw [hlog]
    refine ⟨nofun, fun stale' h => ?_, hs.told⟩
    cases h
    exact htaken
  · rcases hback with ⟨-, hnone⟩ | ⟨-, hsame⟩
    · rw [NotTaken, hnone]
      exact fun _ => nofun
    · rwa [NotTaken, hsame]
  · rw [hlock] at h
    exact absurd (Option.some.inj h).symm hj
  · rw [hlog]
    exact lastRead_other (Ne.symm hj)
  · rw [← hstate]
    exact hlock

/-- Taking the lock. -/
theorem SessionOpen.lock (hs : SessionOpen s)
    (he : (httpMachine ι).recorded.exec i _ .lockReinit e s = some ((), t)) :
    (windowProtocol ι).Keeps i s t ∧ t.state.reinitHolder = some i ∧
      (NotTaken i s → NotTaken i t) := by
  obtain ⟨hexec, hlog⟩ := Machine.recorded_exec he
  have hfree : s.state.reinitHolder = none ∧ t.state = { s.state with reinitHolder := some i } := by
    simp only [httpMachine, HttpWorld.exec] at hexec
    split at hexec
    · rename_i hnone
      exact ⟨hnone, (Prod.mk.inj (Option.some.inj hexec)).2.symm⟩
    · cases hexec
  obtain ⟨hnone, hstate⟩ := hfree
  have hsame : takenBy t.log = takenBy s.log := by
    rw [hlog]
    rfl
  -- nobody is waiting for the lock's holder: it was free
  refine ⟨⟨⟨?_, ?_, ?_⟩, fun j hj => ⟨⟨fun h => ?_, fun h => ?_⟩, ?_⟩⟩, ?_, fun h => ?_⟩
  · rw [hstate]
    exact hs.text
  · rw [hstate, hsame]
    exact hs.taken
  · rw [hlog]
    exact hs.told.cons rfl rfl
  · rwa [NotTaken, hsame]
  · rw [hnone] at h
    cases h
  · rw [hlog]
    exact lastRead_other (Ne.symm hj)
  · rw [hstate]
  · rwa [NotTaken, hsame]

/-- Dropping it. -/
theorem SessionOpen.unlock (hs : SessionOpen s) (hlock : s.state.reinitHolder = some i)
    (he : (httpMachine ι).recorded.exec i _ .unlockReinit e s = some ((), t)) :
    (windowProtocol ι).Keeps i s t ∧ (NotTaken i s → NotTaken i t) := by
  obtain ⟨hexec, hlog⟩ := Machine.recorded_exec he
  obtain ⟨-, hstate⟩ := Prod.mk.inj (Option.some.inj hexec)
  have hsame : takenBy t.log = takenBy s.log := by
    rw [hlog]
    rfl
  -- dropping the lock changes the session id for nobody
  refine ⟨⟨⟨?_, ?_, ?_⟩, fun j hj => ⟨⟨fun h => ?_, fun h => ?_⟩, ?_⟩⟩, fun h => ?_⟩
  · rw [← hstate]
    exact hs.text
  · rw [← hstate, hsame]
    exact hs.taken
  · rw [hlog]
    exact hs.told.cons rfl rfl
  · rwa [NotTaken, hsame]
  · rw [hlock] at h
    exact absurd (Option.some.inj h).symm hj
  · rw [hlog]
    exact lastRead_other (Ne.symm hj)
  · rwa [NotTaken, hsame]

/-! ## Local assertions -/

/-- What a caller knows and nobody who respects it can break. The caller keeps it over any number
of steps of the others. -/
def Framed (i : ι) (K : HttpRun ι → Prop) : Prop := ∀ s t, Respects i s t → K s → K t

/-- What a caller knows between its operations, and what it lets it post. A walk through its
operations then asks for one such assertion, and not for a new one at each of them. -/
structure Steady (i : ι) (P : HttpRequest → Prop) (J : HttpRun ι → Prop) : Prop where
  stable : (windowProtocol ι).Stable i J
  posts : ∀ s request, J s → P request → InSession i s.log request

/-- The caller has the lock, and if somebody has taken the session id, it was this caller. -/
def Away (i : ι) (stale : Option String) (s : HttpRun ι) : Prop :=
  s.state.reinitHolder = some i ∧ ∀ taken ∈ takenBy s.log, taken = (i, stale)

omit [DecidableEq ι] in
theorem framed_true : Framed i (fun _ : HttpRun ι => True) := fun _ _ _ _ => trivial

omit [DecidableEq ι] in
theorem framed_notTaken : Framed i (NotTaken (ι := ι) i) := fun _ _ h => h.mine

omit [DecidableEq ι] in
theorem framed_holder : Framed i (fun s : HttpRun ι => s.state.reinitHolder = some i) :=
  fun _ _ h hs => (h.locked hs).1

omit [DecidableEq ι] in
theorem framed_away {stale : Option String} : Framed i (Away (ι := ι) i stale) := by
  rintro s t h ⟨hlock, haway⟩
  obtain ⟨hlock, htaken | htaken⟩ := h.locked hlock
  · exact ⟨hlock, by rwa [htaken]⟩
  · exact ⟨hlock, by rw [htaken]; exact nofun⟩

variable {K K' : HttpRun ι → Prop}

omit [DecidableEq ι] in
theorem Framed.and (hK : Framed i K) (hK' : Framed i K') : Framed i (fun s => K s ∧ K' s) :=
  fun s t h hs => ⟨hK s t h hs.1, hK' s t h hs.2⟩

/-- Whatever it knows, a caller may post an `initialize`. -/
theorem Framed.steady (hK : Framed i K) : Steady i (·.message.isInitialize = true) K := by
  refine ⟨fun s t h _ => hK s t h.1, fun _ request _ h h' => ?_⟩
  rw [h] at h'
  cases h'

/-- A caller that has read a session id may post under it. -/
theorem Framed.reading (hK : Framed i K) {sid : String} :
    Steady i (·.sessionId = some sid) (fun s => K s ∧ lastRead i s.log = some (some sid)) := by
  refine ⟨fun s t h _ hs => ⟨hK s t h.1 hs.1, h.2.trans hs.2⟩, fun s request hs h _ => ?_⟩
  exact ⟨sid, h, hs.2⟩

/-! ## The calls -/

/-- Safe under the discipline, in runs that meet both conditions. -/
abbrev WindowSafe {α : Type} (i : ι) (p : Prog HttpOp α) (Q : Outcome α → HttpRun ι → Prop)
    (s : HttpRun ι) : Prop :=
  (windowProtocol ι).Safe (httpMachine ι).recorded (WindowRule ι) i p Q s

section Walk

variable {α : Type} {p : Prog HttpOp α} {Q : Outcome α → HttpRun ι → Prop} {J : HttpRun ι → Prop}
  {hb : HttpBackend} {method : String} {params : Option Value} {retry : Bool}

/-- A program that leaves the session id where it is. -/
theorem safe_leaving (hJ : Steady i P J) (hp : p.Uses (HttpOp.Leaves P)) (hs : J s) :
    WindowSafe i p (fun _ t => J t) s := by
  refine Protocol.Safe.of_uses hJ.stable (fun δ o e s b t ho hi hs _ he => ?_) hp hs
  obtain ⟨ht, hrely⟩ := hi.leaves ho (fun request => hJ.posts s request hs) he
  exact ⟨⟨ht, fun j _ => hrely j⟩, hJ.stable s t (hrely i) ht hs⟩

/-- One operation that leaves the session id where it is, then the rest. -/
theorem safe_leavingOp {k : β → Prog HttpOp α} (hJ : Steady i P J) (ho : o.Leaves P) (hs : J s)
    (hk : ∀ b t, J t → WindowSafe i (k b) Q t) : WindowSafe i (.op o k) Q s := by
  refine Protocol.safe_op fun s' hr hi e b t _ he => ?_
  have hs' : J s' := hJ.stable s s' hr hi hs
  obtain ⟨ht, hrely⟩ := hi.leaves ho (fun request => hJ.posts s' request hs') he
  exact ⟨⟨ht, fun j _ => hrely j⟩, hk b t (hJ.stable s' t (hrely i) ht hs')⟩

/-- Whoever reads the session id outside the window keeps what it knows. -/
theorem safe_loadAny {k : Option String → Prog HttpOp α} (hK : Framed i K) (hs : K s)
    (hk : ∀ sid t, K t → WindowSafe i (k sid) Q t) : WindowSafe i (.op .loadSession k) Q s := by
  refine Protocol.safe_op fun s' hr hi e sid t _ he => ?_
  obtain ⟨hkeeps, hrespects, -⟩ := hi.read he
  exact ⟨hkeeps, hk sid t (hK s' t hrespects (hK s s' hr.1 hs))⟩

/-- It finds a proper one, unless it has taken it itself. -/
theorem safe_loadSession {k : Option String → Prog HttpOp α} (hK : Framed i K) (hs : K s)
    (hmine : NotTaken i s)
    (hk : ∀ sid t, headerTextOk sid = true → K t → NotTaken i t →
      lastRead i t.log = some (some sid) → WindowSafe i (k (some sid)) Q t) :
    WindowSafe i (.op .loadSession k) Q s := by
  refine Protocol.safe_op fun s' hr hi e sid t hC he => ?_
  obtain ⟨hkeeps, hrespects, hsid, hread⟩ := hi.read he
  refine ⟨hkeeps, ?_⟩
  have hmine' : NotTaken i s' := hr.1.mine hmine
  have hnone : takenBy s'.log = none := by
    rcases htaken : takenBy s'.log with _ | ⟨j, stale⟩
    · rfl
    · obtain rfl : j = i := hC.2 rfl _ htaken
      exact absurd htaken (hmine' stale)
  -- an empty slot would be somebody's window, and the rule lets no one else read in it
  cases hsession : s'.state.sessionId with
  | none => exact absurd hnone (hi.taken hsession)
  | some sid' =>
    rw [hsession] at hsid
    subst hsid
    exact hk sid' t (hi.text sid' hsession) (hK s' t hrespects (hK s s' hr.1 hs))
      (hrespects.mine hmine') hread

/-- A caller that has not taken the session id sends its requests in a session. -/
theorem safe_sendInSession (hK : Framed i K) (hs : K s) (hmine : NotTaken i s) :
    WindowSafe i (hb.sendRequestInner method params retry)
      (fun _ t => K t ∧ NotTaken i t) s := by
  have hboth : Framed i (fun t => K t ∧ NotTaken i t) := hK.and framed_notTaken
  simp only [HttpBackend.sendRequestInner, Prog.bind_eq, Prog.perform_bind]
  refine safe_leavingOp hboth.steady trivial ⟨hs, hmine⟩ fun id t ht => ?_
  have hannotations : (HttpBackend.annotations method params).Uses
      (HttpOp.Leaves fun request => request.message.isInitialize = true) := by
    unfold HttpBackend.annotations
    split
    · exact ⟨trivial, fun _ => trivial⟩
    · trivial
  have hextra : WindowSafe i (HttpBackend.extraHeaders method params)
      (fun _ u => K u ∧ NotTaken i u) t := by
    refine safe_leaving hboth.steady (hannotations.bind fun known => ?_) ht
    split <;> trivial
  refine Protocol.Safe.bind (Protocol.Safe.mono hextra fun x u _ hu => ?_)
  rcases x with headers | _
  · refine safe_loadSession hK hu.1 hu.2 fun sid v _ hv hmine hread => ?_
    refine Protocol.Safe.mono (safe_leaving hboth.reading ?_ ⟨⟨hv, hmine⟩, hread⟩)
      fun _ w _ hw => hw.1
    exact (HttpBackend.uses_exchange fun bearer => rfl).mono fun _ => HttpOp.Exchange.leaves
  · exact hu

/-- So is a notification. -/
theorem safe_sendNotification (hK : Framed i K) (hs : K s) (hmine : NotTaken i s) :
    WindowSafe i (hb.sendNotification method params) (fun _ t => K t ∧ NotTaken i t) s := by
  have hboth : Framed i (fun t => K t ∧ NotTaken i t) := hK.and framed_notTaken
  simp only [HttpBackend.sendNotification, Prog.bind_eq, Prog.perform_bind]
  refine safe_leavingOp hboth.steady trivial ⟨hs, hmine⟩ fun bearer t ht => ?_
  refine safe_loadSession hK ht.1 ht.2 fun sid u hsid hu hmine hread => ?_
  -- what the slot holds is a header value: visible text
  have hvalue : (some sid).filter headerValueOk = some sid := by
    refine Option.filter_eq_some_iff.mpr ⟨rfl, ?_⟩
    refine List.all_eq_true.mpr fun c hc => ?_
    have := List.all_eq_true.mp hsid c hc
    simp only [Bool.or_eq_true, Bool.and_eq_true, decide_eq_true_eq] at this ⊢
    exact this.imp_right fun h => ⟨h.1, Nat.ne_of_lt h.2⟩
  rw [hvalue]
  refine safe_leavingOp (o := .post _) hboth.reading rfl ⟨⟨hu, hmine⟩, hread⟩ fun reply v hv => ?_
  have hend : ∀ r : BackendResult Unit,
      WindowSafe i (.ret r) (fun _ t => K t ∧ NotTaken i t) v :=
    fun _ w hr _ => hboth v w hr.1 hv.1
  rcases reply with ⟨timeout, err⟩ | ⟨status, headers, body⟩
  · exact hend _
  · dsimp only
    split <;> exact hend _

/-- The answer to an `initialize` carries a session id. -/
theorem safe_postInitialize {message : JsonRpcMessage} {extraHeaders : Entries String}
    {sessionId : Option String} (hmessage : message.isInitialize = true) (hK : Framed i K)
    (hs : K s) :
    WindowSafe i (hb.postJson message extraHeaders sessionId)
      (fun x t => K t ∧ ∀ body status headers, x = .done (.ok (body, status, headers)) →
        carriesSession headers = true) s := by
  simp only [HttpBackend.postJson, Prog.bind_eq, Prog.perform_bind]
  refine safe_leavingOp hK.steady trivial hs fun bearer t ht => ?_
  refine Protocol.safe_op fun t' hr hi e reply u hC he => ?_
  obtain ⟨hu, hrely⟩ := hi.leaves (P := (·.message.isInitialize = true))
    (o := .post ⟨message, bearer, extraHeaders, sessionId⟩) hmessage
    (fun request h => hK.steady.posts t' request (hK t t' hr.1 ht) h) he
  have hKu : K u := hK t' u (hrely i).1 (hK t t' hr.1 ht)
  refine ⟨⟨hu, fun j _ => hrely j⟩, ?_⟩
  have hreply : reply = e.reply :=
    (Prod.mk.inj (Option.some.inj (Machine.recorded_exec he).1)).1.symm
  -- the server issues a session id with its answer to `initialize`
  have hissues := hC.1 _ rfl hmessage
  rw [← hreply] at hissues
  rcases reply with ⟨timeout, err⟩ | ⟨status, headers, body⟩
  · exact fun w hr _ => ⟨hK u w hr.1 hKu, fun body status headers h => by cases h⟩
  · have hdiscover : WindowSafe i (hb.discoverOn status headers) (fun _ => K) u :=
      safe_leaving hK.steady ((HttpBackend.uses_discoverOn status headers).mono
        fun _ => HttpOp.Exchange.leaves) hKu
    refine Protocol.Safe.bind (Protocol.Safe.mono hdiscover fun x v _ hv => ?_)
    rcases x with _ | _
    · rcases body with err | body
      · exact fun w hr _ => ⟨hK v w hr.1 hv, fun body status headers h => by cases h⟩
      · exact fun w hr _ => ⟨hK v w hr.1 hv, fun body' status' headers' h => by cases h; exact hissues⟩
    · exact ⟨hv, fun body status headers h => by cases h⟩

/-- Capturing it puts a session id back. -/
theorem safe_captureSession {headers : Entries String} (h : carriesSession headers = true)
    (hK : Framed i K) (hs : K s) :
    WindowSafe i (HttpBackend.captureSession headers) (fun _ t => K t ∧ NotTaken i t) s := by
  obtain ⟨sid, hsid⟩ := Option.isSome_iff_exists.mp h
  rw [HttpBackend.captureSession, hsid]
  refine Protocol.safe_op fun s' hr hi e _ t _ he => ?_
  obtain ⟨ht, hrely⟩ := hi.leaves (P := fun _ => False) (o := .storeSession sid)
    (Option.filter_eq_some_iff.mp hsid).2 nofun he
  have hnone : NotTaken i t := by
    rw [NotTaken, (Machine.recorded_exec he).2]
    exact nofun
  refine ⟨⟨ht, fun j _ => hrely j⟩, fun t' hr' _ => ⟨?_, hr'.1.mine hnone⟩⟩
  exact hK t t' hr'.1 (hK s' t (hrely i).1 (hK s s' hr.1 hs))

/-- An answered `initialize` opens a session. -/
theorem safe_exchangeInitialize {message : JsonRpcMessage} {extraHeaders : Entries String}
    {sentSession : Option String} (hmessage : message.isInitialize = true) (hK : Framed i K)
    (hs : K s) :
    WindowSafe i (hb.exchange message extraHeaders sentSession retry)
      (fun x t => K t ∧ ∀ v, x = .done (.ok v) → NotTaken i t) s := by
  simp only [HttpBackend.exchange, Prog.bind_eq]
  refine Protocol.Safe.bind
    (Protocol.Safe.mono (safe_postInitialize hmessage hK hs) fun x t _ hx => ?_)
  rcases x with (err | ⟨body, status, headers⟩) | _
  · exact fun u hr _ => ⟨hK t u hr.1 hx.1, fun v h => by cases h⟩
  · -- the answer carries a session id, so capturing it ends the window
    refine Protocol.Safe.bind (Protocol.Safe.mono
      (safe_captureSession (hx.2 body status headers rfl) hK hx.1) fun x u _ hu => ?_)
    have hboth : Framed i (fun t => K t ∧ NotTaken i t) := hK.and framed_notTaken
    have rest {q : Prog HttpOp (Except Failure Value)}
        (hq : q.Uses (HttpOp.Leaves (·.message.isInitialize = true))) :
        WindowSafe i q (fun x t => K t ∧ ∀ v, x = .done (.ok v) → NotTaken i t) u :=
      Protocol.Safe.mono (safe_leaving hboth.steady hq hu) fun _ _ _ ht => ⟨ht.1, fun _ _ => ht.2⟩
    -- what follows in the exchange, a second attempt with another bearer included, leaves it so
    rcases x with _ | _
    · dsimp only
      split
      · exact rest trivial
      · split
        · refine rest ((Prog.uses_lift (fun _ => trivial) _).bind fun result => ?_)
          rcases result with err | token
          · trivial
          · exact (HttpBackend.uses_retryWith fun _ => hmessage).mono fun _ => HttpOp.Exchange.leaves
        · exact rest trivial
    · exact ⟨hu.1, fun v h => by cases h⟩
  · exact ⟨hx.1, fun v h => by cases h⟩

/-- A successful handshake opens a session, and its notification belongs to it. -/
theorem safe_openSession (hK : Framed i K) (hs : K s) :
    WindowSafe i hb.handshake
      (fun x t => K t ∧ ∀ init, x = .done (.ok init) → NotTaken i t) s := by
  -- first the request, which no session id is needed for
  have hinitialize : WindowSafe i
      (hb.sendRequestInner "initialize" (some HttpBackend.initializeParams) true)
      (fun x t => K t ∧ ∀ v, x = .done (.ok v) → NotTaken i t) s := by
    have hextra : HttpBackend.extraHeaders "initialize"
        (some HttpBackend.initializeParams) = .ret [] := rfl
    simp only [HttpBackend.sendRequestInner, Prog.bind_eq, Prog.perform_bind, hextra,
      Prog.ret_bind]
    exact safe_leavingOp hK.steady trivial hs fun id t ht =>
      safe_loadAny hK ht fun sid u hu => safe_exchangeInitialize rfl hK hu
  simp only [HttpBackend.handshake, Prog.bind_eq]
  refine Protocol.Safe.bind (Protocol.Safe.mono hinitialize fun x t _ hx => ?_)
  rcases x with (failure | result) | _
  · exact fun u hr _ => ⟨hK t u hr.1 hx.1, fun init h => by cases h⟩
  · dsimp only
    -- the result is not one of `initialize`
    split
    · exact fun u hr _ => ⟨hK t u hr.1 hx.1, fun init h => by cases h⟩
    · -- then the notification, which goes out in the session just opened
      refine Protocol.Safe.bind (Protocol.Safe.mono
        (safe_sendNotification hK hx.1 (hx.2 result rfl)) fun x u _ hu => ?_)
      rcases x with _ | _
      · exact fun w hr _ => ⟨hK u w hr.1 hu.1, fun _ _ => hr.1.mine hu.2⟩
      · exact ⟨hu.1, fun init h => by cases h⟩
  · exact ⟨hx.1, fun init h => by cases h⟩

/-- A successful re-initialisation leaves a session behind, a failed one puts back what it has
taken. -/
theorem safe_reopen (hs : s.state.reinitHolder = some i) :
    WindowSafe i hb.reinitializeOnce (fun x t => t.state.reinitHolder = some i ∧
      (x = .done (.ok ()) → NotTaken i t)) s := by
  simp only [HttpBackend.reinitializeOnce, Prog.bind_eq, Prog.perform_bind]
  refine Protocol.safe_op fun s' hr hi e stale t _ he => ?_
  obtain ⟨hkeeps, hstale, hlock, htaken⟩ := hi.take (framed_holder s s' hr.1 hs) he
  have haway : Away i stale t := ⟨hlock, fun taken h => by rw [htaken] at h; cases h; rfl⟩
  refine ⟨hkeeps, Protocol.Safe.bind
    (Protocol.Safe.mono (safe_openSession framed_away haway) fun x u _ hx => ?_)⟩
  rcases x with (err | init) | _
  · -- a failed handshake: what was taken is put back
    refine safe_leavingOp framed_away.steady trivial hx.1 fun _ v hv => ?_
    refine Protocol.safe_op fun v' hr hi e _ w _ he => ?_
    obtain ⟨hlock, haway⟩ := framed_away v v' hr.1 hv
    obtain ⟨hkeeps, hlock⟩ := hi.restore hlock hstale (fun taken h => by rw [haway taken h]) he
    exact ⟨hkeeps, fun w' hr _ => ⟨framed_holder w w' hr.1 hlock, fun h => by cases h⟩⟩
  · -- a finished one: the caches are renewed in the new session
    have hboth : Framed i (fun t => t.state.reinitHolder = some i ∧ NotTaken i t) :=
      framed_holder.and framed_notTaken
    refine safe_leavingOp hboth.steady trivial ⟨hx.1.1, hx.2 init rfl⟩ fun _ v hv => ?_
    refine safe_leavingOp hboth.steady trivial hv fun _ v hv => ?_
    refine safe_leavingOp hboth.steady trivial hv fun _ v hv w hr _ => ?_
    exact ⟨framed_holder v w hr.1 hv.1, fun _ => hr.1.mine hv.2⟩
  · exact ⟨hx.1.1, fun h => by cases h⟩

theorem safe_reopenOnce {seenEpoch : Nat} (hs : NotTaken i s) :
    WindowSafe i (hb.reinitialize seenEpoch) (fun x t => x = .done (.ok ()) → NotTaken i t) s := by
  unfold HttpBackend.reinitialize Prog.withLock
  refine Protocol.safe_op fun s' hr hi e _ t _ he => ?_
  obtain ⟨hkeeps, hlock, hmine⟩ := hi.lock he
  refine ⟨hkeeps, Protocol.Safe.andFinally ?_⟩
  have hboth : Framed i (fun t => t.state.reinitHolder = some i ∧ NotTaken i t) :=
    framed_holder.and framed_notTaken
  have hbody : WindowSafe i
      (Prog.op HttpOp.loadEpoch fun epoch => if epoch ≠ seenEpoch then
        Prog.ret (.ok ()) else hb.reinitializeOnce)
      (fun x u => u.state.reinitHolder = some i ∧ (x = .done (.ok ()) → NotTaken i u)) t := by
    refine safe_leavingOp hboth.steady trivial ⟨hlock, hmine (hr.1.mine hs)⟩ fun epoch u hu => ?_
    -- another caller has re-initialised meanwhile, or it is this one's turn
    split
    · exact fun v hr _ => ⟨framed_holder u v hr.1 hu.1, fun _ => hr.1.mine hu.2⟩
    · exact safe_reopen hu.1
  refine Protocol.Safe.mono hbody fun x u hi hx e _ v _ he => ?_
  obtain ⟨hkeeps, hmine⟩ := hi.unlock hx.1 he
  exact ⟨hkeeps, fun w hr _ h => hr.1.mine (hmine (hx.2 h))⟩

/-- So the second attempt is made in a session as well. -/
theorem safe_send (hs : NotTaken i s) :
    WindowSafe i (hb.sendRequest method params retry) (fun _ _ => True) s := by
  simp only [HttpBackend.sendRequest, Prog.bind_eq, Prog.perform_bind]
  refine safe_leavingOp framed_notTaken.steady trivial hs fun epoch t ht => ?_
  refine Protocol.Safe.bind
    (Protocol.Safe.mono (safe_sendInSession framed_true trivial ht) fun x u _ hu => ?_)
  rcases x with (failure | v) | _
  · -- the request has failed: for a reason that a new session does not help, or for want of one
    dsimp only
    split
    · exact fun _ _ _ => trivial
    · -- a re-initialisation that has ended well leaves a session for the second attempt
      refine Protocol.Safe.bind (Protocol.Safe.mono (safe_reopenOnce hu.2) fun x v _ hx => ?_)
      rcases x with (err | _) | _
      · exact fun _ _ _ => trivial
      · refine Protocol.Safe.bind (Protocol.Safe.mono
          (safe_sendInSession framed_true trivial (hx rfl)) fun x w _ _ => ?_)
        rcases x with _ | _
        · exact fun _ _ _ => trivial
        · trivial
      · trivial
  · exact fun _ _ _ => trivial
  · trivial

/-- A program whose answer does not matter. -/
theorem safe_discard {δ : Type} {q : Prog HttpOp δ} {f : δ → Prog HttpOp α}
    (hq : WindowSafe i q (fun _ _ => True) s)
    (hf : ∀ a t, WindowSafe i (f a) (fun _ _ => True) t) :
    WindowSafe i (q.bind f) (fun _ _ => True) s := by
  refine Protocol.Safe.bind (Protocol.Safe.mono hq fun x t _ _ => ?_)
  rcases x with a | _
  · exact hf a t
  · trivial

theorem windowSafe_ret (a : α) : WindowSafe i (.ret a) (fun _ _ => True) s :=
  fun _ _ _ => trivial

/-- One operation that leaves the session id where it is, wherever that is. -/
theorem safe_anywhereOp {k : β → Prog HttpOp α}
    (ho : o.Leaves (·.message.isInitialize = true))
    (hk : ∀ b t, WindowSafe i (k b) Q t) : WindowSafe i (.op o k) Q s :=
  safe_leavingOp framed_true.steady ho trivial fun b t _ => hk b t

/-- The methods that check the connection and then send a request. -/
theorem safe_checked {k : Prog HttpOp (BackendResult α)} (hs : NotTaken i s)
    (hk : ∀ t, NotTaken i t → WindowSafe i k (fun _ _ => True) t) :
    WindowSafe i (hb.checkConnected.bind fun
      | .error e => .ret (.error e)
      | .ok () => k) (fun _ _ => True) s := by
  simp only [HttpBackend.checkConnected, Prog.bind_eq, Prog.perform_bind, Prog.op_bind]
  refine safe_leavingOp framed_notTaken.steady trivial hs fun connected t ht => ?_
  cases connected with
  | true => exact hk t ht
  | false => exact windowSafe_ret _

theorem safe_listTools (hs : NotTaken i s) : WindowSafe i hb.listTools (fun _ _ => True) s := by
  refine safe_checked hs fun t ht => safe_discard (safe_send ht) fun reply u => ?_
  rcases reply with err | result
  · exact windowSafe_ret _
  dsimp only
  split
  · exact windowSafe_ret _
  · split
    · exact windowSafe_ret _
    · exact safe_anywhereOp (o := .storeParamHeaders _) trivial fun _ _ => windowSafe_ret _

theorem safe_connectIn : WindowSafe i hb.connect (fun _ _ => True) s := by
  simp only [HttpBackend.connect, Prog.bind_eq, Prog.perform_bind]
  refine safe_anywhereOp trivial fun need t => ?_
  -- disconnected: adopt a token and open a session
  cases need with
  | true =>
    have hadopt : hb.adoptToken.Uses (HttpOp.Leaves (·.message.isInitialize = true)) := by
      unfold HttpBackend.adoptToken
      split
      · trivial
      · refine (Prog.uses_lift (fun _ => trivial) _).bind fun token => ?_
        rcases token with _ | token
        · trivial
        · exact ⟨trivial, fun _ => trivial⟩
    refine safe_discard (safe_leaving framed_true.steady hadopt trivial) fun _ u => ?_
    refine safe_discard (Protocol.Safe.mono (safe_openSession framed_true trivial)
      fun _ _ _ _ => trivial) fun outcome v => ?_
    rcases outcome with err | init
    · exact windowSafe_ret _
    · exact safe_anywhereOp trivial fun _ _ => safe_anywhereOp trivial fun _ _ => windowSafe_ret _
  -- connected: the cached result
  | false =>
    refine safe_anywhereOp trivial fun cached u => ?_
    rcases cached with _ | init <;> exact windowSafe_ret _

/-- Every call keeps the discipline. -/
theorem safe_httpCall (call : HttpCall) (hs : NotTaken i s) :
    WindowSafe i (call.run hb) (fun _ _ => True) s := by
  cases call with
  | connect => exact safe_discard safe_connectIn fun _ _ => windowSafe_ret _
  | disconnect =>
    exact safe_anywhereOp (o := .setConnected false) trivial fun _ _ => windowSafe_ret _
  | listTools => exact safe_discard (safe_listTools hs) fun _ _ => windowSafe_ret _
  | callTool name arguments =>
    refine safe_discard (safe_checked hs fun t ht => ?_) fun _ _ => windowSafe_ret _
    exact safe_send ht
  | request method params forwarded =>
    refine safe_discard (safe_checked hs fun t ht => ?_) fun _ _ => windowSafe_ret _
    exact safe_send ht
  | healthCheck =>
    refine safe_discard (safe_checked hs fun t ht => safe_discard (safe_send ht) fun reply _ => ?_)
      fun _ _ => windowSafe_ret _
    rcases reply with err | _ <;> exact windowSafe_ret _
  | takeToolsRefresh => exact safe_anywhereOp (o := .takeRefresh) trivial fun _ _ => windowSafe_ret _
  | reinitialize seenEpoch =>
    refine safe_discard (Protocol.Safe.mono (safe_reopenOnce hs) fun _ _ _ _ => trivial) ?_
    exact fun _ _ => windowSafe_ret _

end Walk

/-! ## Runs -/

/-- A backend that has a session, before any call. -/
theorem sessionOpen_start {start : HttpWorld ι} {sid : String}
    (hsession : start.sessionId = some sid) (hsid : headerTextOk sid = true) :
    SessionOpen (⟨start, []⟩ : HttpRun ι) := by
  refine ⟨fun sid' h => ?_, fun h => ?_, trivial⟩
  · rw [show start.sessionId = some sid from hsession] at h
    exact Option.some.inj h ▸ hsid
  · rw [show start.sessionId = some sid from hsession] at h
    cases h

/-- The discipline holds at the start of any calls, and so in every run. -/
theorem windowHolds (b : HttpBackend) (calls : ι → HttpCall) {start : HttpWorld ι} {sid : String}
    (hsession : start.sessionId = some sid) (hsid : headerTextOk sid = true) :
    Protocol.Holds (windowProtocol ι) (httpMachine ι).recorded (WindowRule ι)
      (fun _ _ _ => True) (b.recordedPool start calls) :=
  ⟨sessionOpen_start hsession hsid, fun i => safe_httpCall (calls i) nofun⟩

/-- A history that is as it should be has no message outside the session. -/
theorem Told.posted {l : HttpHistory ι} (h : Told l) : ∀ p ∈ l, ∀ request,
    p.op.posted = some request → request.message.isInitialize = false →
      request.sessionId ≠ none := by
  induction l with
  | nil => exact fun p hp => absurd hp List.not_mem_nil
  | cons q l ih =>
    intro p hp request hposted hrequest
    rcases List.mem_cons.mp hp with rfl | hp
    · obtain ⟨sid, hsid, -⟩ := h.1 request hposted hrequest
      rw [hsid]
      exact nofun
    · exact ih h.2.2 p hp request hposted hrequest

/-- **No message outside the session**: on a backend that has a session, with a server that issues
a session id on every `initialize`, every other message is sent with a session id, in every run in
which nobody reads the id while another caller has taken it away. The server is taken at its word
that it issues ids, and everything else it answers is free. What can go wrong is a read between
the moment the id is taken away and the one a new id is stored, and the condition is that no
caller reads there. -/
theorem messages_carry_a_session (b : HttpBackend) (calls : ι → HttpCall) {start : HttpWorld ι}
    {sid : String} (hsession : start.sessionId = some sid) (hsid : headerTextOk sid = true)
    {ls : List (ι × HttpChoice)} {c : Pool HttpOp ι (HttpRun ι) Unit}
    (hserver : (httpMachine ι).recorded.Meets (IssuesSessions ι) ls (b.recordedPool start calls))
    (hreads : (httpMachine ι).recorded.Meets (ReadsOutside ι) ls (b.recordedPool start calls))
    (hp : (httpMachine ι).recorded.play ls (b.recordedPool start calls) = some c) :
    ∀ p ∈ c.shared.log, ∀ request, p.op.posted = some request →
      request.message.isInitialize = false → request.sessionId ≠ none := by
  have hholds := windowHolds b calls hsession hsid
  exact (hholds.play (hserver.and _ hreads) hp).inv.told.posted

end Window

/-- One call lists the tools, one probes the backend. -/
def windowCalls : Fin 2 → HttpCall
  | 0 => .listTools
  | 1 => .healthCheck

/-- The first one finds the session lost and takes the id away. -/
def takingRun : List (Fin 2 × HttpChoice) :=
  turns 0 [{}, {}, {}, {}, {}, .forgotten, {}, {}, {}]

/-- The second one is done before that. -/
def outsideRun : List (Fin 2 × HttpChoice) :=
  List.flatten [turns 1 [{}, {}, {}, {}, {}, .echoed "s1", {}], takingRun,
    turns 0 [{}, {}, {}, .opened "s2", {}, {}, {}, .noted]]

/-- All of its messages are sent in a session. -/
theorem outside_the_window :
    ∃ c, (httpMachine (Fin 2)).recorded.play outsideRun
        (sampleHttp.recordedPool (sessionStart _) windowCalls) = some c ∧
      ∀ p ∈ c.shared.log, ∀ request, p.op.posted = some request →
        request.message.isInitialize = false → request.sessionId ≠ none := by
  have hrun : ((httpMachine (Fin 2)).recorded.play outsideRun
      (sampleHttp.recordedPool (sessionStart _) windowCalls)).isSome = true := by
    decide +kernel
  obtain ⟨c, hc⟩ := Option.isSome_iff_exists.mp hrun
  have hrule : (httpMachine (Fin 2)).recorded.Meets (WindowRule (Fin 2)) outsideRun
      (sampleHttp.recordedPool (sessionStart _) windowCalls) := by
    decide +kernel
  have hsid : headerTextOk "s1" = true := by decide +kernel
  exact ⟨c, hc, messages_carry_a_session sampleHttp windowCalls rfl hsid
    (hrule.mono _ fun _ _ _ _ _ h => h.1) (hrule.mono _ fun _ _ _ _ _ h => h.2) hc⟩

/-- The second call starts in the window. -/
def insideRun : List (Fin 2 × HttpChoice) :=
  List.flatten [takingRun, turns 1 [{}, {}, {}, {}, {}, .forgotten]]

/-- Its request goes out without a session id, to a server that issues one on every
`initialize`. -/
theorem inside_the_window :
    ∃ c, (httpMachine (Fin 2)).recorded.play insideRun
        (sampleHttp.recordedPool (sessionStart _) windowCalls) = some c ∧
      (httpMachine (Fin 2)).recorded.Meets (IssuesSessions (Fin 2)) insideRun
        (sampleHttp.recordedPool (sessionStart _) windowCalls) ∧
      ∃ p ∈ c.shared.log, ∃ request, p.op.posted = some request ∧
        request.message.isInitialize = false ∧ request.sessionId = none := by
  have hrun : ((httpMachine (Fin 2)).recorded.play insideRun
      (sampleHttp.recordedPool (sessionStart _) windowCalls)).map (fun c =>
        decide (∃ p ∈ c.shared.log, ∃ request ∈ p.op.posted,
          request.message.isInitialize = false ∧ request.sessionId = none)) = some true := by
    decide +kernel
  obtain ⟨c, hc, hsent⟩ := Option.map_eq_some_iff.mp hrun
  obtain ⟨p, hp, request, hposted, hrequest⟩ := of_decide_eq_true hsent
  exact ⟨c, hc, by decide +kernel, p, hp, request, hposted, hrequest⟩

end HeadlessMcp
