import HeadlessMcp.Async.History
import HeadlessMcp.Async.Rely
import HeadlessMcp.Http.Traffic
import HeadlessMcp.Http.World
import Mathlib

/-!
# One handshake for one lost session

Any number of requests may find the session lost at once. Each of them asks for the
re-initialisation lock with the epoch it read before its first attempt, and whoever gets
the lock while the epoch is still the same runs the handshake and bumps the epoch. The
others find a new epoch and go straight to their second attempt.

What a run did is read off its history: `flights` are the handshakes that
re-initialisations have set out on, `callRecord` is what one call has done so far.
-/

namespace HeadlessMcp

open Async Machine

/-! ## Reading a history -/

/-- Where a handshake stands. -/
inductive FlightStatus : Type where
  | underWay : FlightStatus
  /-- it succeeded or failed -/
  | finished : FlightStatus
  /-- the caller panicked in it -/
  | abandoned : FlightStatus

/-- A handshake that a re-initialisation has set out on. -/
structure Flight (ι : Type) : Type where
  caller : ι
  /-- how many handshakes had finished when it set out -/
  generation : Nat
  status : FlightStatus

/-- What one call has done so far. -/
structure CallRecord (ι : Type) : Type 1 where
  /-- the epoch that it read first -/
  epochRead : Option Nat := none
  /-- it found the session lost and got the lock -/
  lost : Bool := false
  /-- it has dropped the lock again -/
  released : Bool := false
  /-- the history before each request that it numbered after that -/
  seconds : List (HttpHistory ι) := []

/-- What one more operation adds to the record of its caller. -/
def CallRecord.note {ι β : Type} (r : CallRecord ι) (before : HttpHistory ι) :
    HttpOp β → β → CallRecord ι
  | .loadEpoch, epoch => { r with epochRead := r.epochRead <|> some epoch }
  | .lockReinit, _ => { r with lost := true }
  | .unlockReinit, _ => { r with released := true }
  | .nextId, _ => if r.released then { r with seconds := before :: r.seconds } else r
  | _, _ => r

/-- How many handshakes have finished: each one bumps the epoch. With the epoch at the start it
gives the present one, modulo 2^64. -/
def bumps {ι : Type} : HttpHistory ι → Nat
  | [] => 0
  | ⟨_, .bumpEpoch, _⟩ :: l => bumps l + 1
  | _ :: l => bumps l

/-- The operations that steer a re-initialisation. -/
def HttpOp.Steers {β : Type} : HttpOp β → Prop
  | .takeSession | .bumpEpoch | .lockReinit | .unlockReinit => True
  | _ => False

section Steps

variable {ι : Type} {i : ι} {β : Type} {o : HttpOp β} {b : β} {l : HttpHistory ι}
  {P : HttpRequest → Prop}

theorem bumps_quiet (ho : ¬o.Steers) : bumps (⟨i, o, b⟩ :: l : HttpHistory ι) = bumps l := by
  cases o <;> first | rfl | exact absurd trivial ho

/-- What a call has read and found out stays on record. -/
theorem CallRecord.note_keeps {r : CallRecord ι} {epoch : Nat} (hr : r.epochRead = some epoch)
    (hlost : r.lost = true) :
    (r.note l o b).epochRead = some epoch ∧ (r.note l o b).lost = true := by
  unfold note
  split
  · exact ⟨by simp [hr], hlost⟩
  · exact ⟨hr, rfl⟩
  · exact ⟨hr, hlost⟩
  · split <;> exact ⟨hr, hlost⟩
  · exact ⟨hr, hlost⟩

theorem HttpOp.Attempt.quiet (ho : o.Attempt P) : ¬o.Steers := by
  cases o <;> first | exact id | exact False.elim ho

theorem HttpOp.Traffic.quiet (ho : o.Traffic P) : ¬o.Steers := by
  cases o <;> first | exact id | exact False.elim ho

end Steps

section History

variable {ι : Type} [DecidableEq ι]

/-- The handshake of a caller ends. -/
def Flight.settle (i : ι) (status : FlightStatus) (f : Flight ι) : Flight ι :=
  match f.status with
  | .underWay => if f.caller = i then { f with status := status } else f
  | _ => f

/-- The handshakes that have set out, newest first. At most one of them is under way, since they
are made under `reinit_lock`. -/
def flights : HttpHistory ι → List (Flight ι)
  | [] => []
  | ⟨i, .takeSession, _⟩ :: l => ⟨i, bumps l, .underWay⟩ :: flights l
  | ⟨i, .bumpEpoch, _⟩ :: l => (flights l).map (Flight.settle i .finished)
  | ⟨i, .unlockReinit, _⟩ :: l => (flights l).map (Flight.settle i .abandoned)
  | _ :: l => flights l

/-- The epoch in which a handshake set out, in a run that started in the epoch `first`. -/
def Flight.epoch (first : Nat) (f : Flight ι) : Nat := (first + f.generation) % 2 ^ 64

/-- What a call has done so far. -/
def callRecord (i : ι) : HttpHistory ι → CallRecord ι
  | [] => {}
  | p :: l => if p.caller = i then (callRecord i l).note l p.op p.answer else callRecord i l

variable {i j : ι} {β : Type} {o : HttpOp β} {b : β} {l : HttpHistory ι}

theorem flights_quiet (ho : ¬o.Steers) : flights (⟨i, o, b⟩ :: l) = flights l := by
  cases o <;> first | rfl | exact absurd trivial ho

@[simp] theorem callRecord_self :
    callRecord i (⟨i, o, b⟩ :: l) = (callRecord i l).note l o b := if_pos rfl

theorem callRecord_other (h : i ≠ j) : callRecord j (⟨i, o, b⟩ :: l) = callRecord j l := if_neg h

theorem callRecord_keeps {epoch : Nat} (hr : (callRecord j l).epochRead = some epoch)
    (hlost : (callRecord j l).lost = true) :
    (callRecord j (⟨i, o, b⟩ :: l)).epochRead = some epoch ∧
      (callRecord j (⟨i, o, b⟩ :: l)).lost = true := by
  by_cases h : i = j
  · subst h
    rw [callRecord_self]
    exact CallRecord.note_keeps hr hlost
  · rw [callRecord_other h]
    exact ⟨hr, hlost⟩

/-- An operation that does not steer leaves the epoch and the lock alone. -/
theorem exec_unsteered {e : HttpChoice} {s t : HttpWorld ι} (ho : ¬o.Steers)
    (h : (httpMachine ι).exec i β o e s = some (b, t)) :
    t.sessionEpoch = s.sessionEpoch ∧ t.reinitHolder = s.reinitHolder := by
  cases o with
  | oauth o =>
    obtain ⟨r, -, heq⟩ := Option.map_eq_some_iff.mp h
    obtain ⟨-, rfl⟩ := Prod.mk.inj heq
    exact ⟨rfl, rfl⟩
  | needsHandshake =>
    simp only [httpMachine, HttpWorld.exec] at h
    split at h <;> (cases h; exact ⟨rfl, rfl⟩)
  | takeSession => exact absurd trivial ho
  | bumpEpoch => exact absurd trivial ho
  | lockReinit => exact absurd trivial ho
  | unlockReinit => exact absurd trivial ho
  | _ => cases h; exact ⟨rfl, rfl⟩

@[simp] theorem Flight.settle_caller (status : FlightStatus) (f : Flight ι) :
    (f.settle i status).caller = f.caller := by
  unfold settle
  split
  · split <;> rfl
  · rfl

@[simp] theorem Flight.settle_generation (status : FlightStatus) (f : Flight ι) :
    (f.settle i status).generation = f.generation := by
  unfold settle
  split
  · split <;> rfl
  · rfl

@[simp] theorem Flight.settle_epoch (first : Nat) (status : FlightStatus) (f : Flight ι) :
    (f.settle i status).epoch first = f.epoch first := by
  rw [epoch, epoch, settle_generation]

/-- Only the caller's own handshake ends. -/
theorem Flight.settle_other {status : FlightStatus} {f : Flight ι} (h : f.caller ≠ i) :
    f.settle i status = f := by
  unfold settle
  split
  · exact if_neg h
  · rfl

/-- What has ended stays as it is. -/
theorem Flight.settle_finished {status : FlightStatus} {f : Flight ι} (h : f.status = .finished) :
    f.settle i status = f := by
  simp [settle, h]

/-- A handshake that is still under way is somebody else's. -/
theorem Flight.settle_underWay {status : FlightStatus} {f : Flight ι}
    (hstatus : status ≠ .underWay) (h : (f.settle i status).status = .underWay) :
    f.status = .underWay ∧ f.caller ≠ i := by
  unfold settle at h
  split at h
  · rename_i hf
    split at h
    · exact absurd h hstatus
    · rename_i hi
      exact ⟨hf, hi⟩
  · rename_i hf
    exact absurd h hf

/-! ## The invariant -/

/-- No two handshakes set out in one generation, and every generation that is over had
one. `first` is the epoch at the start. -/
structure OneFlight (first : Nat) (s : HttpRun ι) : Prop where
  epoch : s.state.sessionEpoch = (first + bumps s.log) % 2 ^ 64
  distinct : (flights s.log).Pairwise fun f g =>
    f.status ≠ .abandoned → g.status ≠ .abandoned → f.generation ≠ g.generation
  finished : ∀ f ∈ flights s.log, f.status = .finished → f.generation < bumps s.log
  underWay : ∀ f ∈ flights s.log, f.status = .underWay →
    f.generation = bumps s.log ∧ s.state.reinitHolder = some f.caller
  complete : ∀ g < bumps s.log, ∃ f ∈ flights s.log, f.generation = g ∧ f.status = .finished
  owner : ∀ f ∈ flights s.log, (callRecord f.caller s.log).epochRead = some (f.epoch first) ∧
    (callRecord f.caller s.log).lost = true

/-- What matters to a caller. -/
structure View (ι : Type) : Type 1 where
  record : CallRecord ι
  flights : List (Flight ι)
  bumps : Nat
  holder : Option ι

/-- What a caller sees of a run. Everything that the discipline says of a caller is said of its
view. -/
def view (i : ι) (s : HttpRun ι) : View ι :=
  ⟨callRecord i s.log, flights s.log, bumps s.log, s.state.reinitHolder⟩

/-- What the others may do to it: they touch neither the caller's own handshake nor one
that is over, and bump no epoch while the caller has the lock. -/
structure View.Undisturbed (i : ι) (v w : View ι) : Prop where
  record : w.record = v.record
  own : ∀ f ∈ w.flights, f.caller = i → f ∈ v.flights
  kept : ∀ f ∈ v.flights, f.status = .finished ∨ f.caller = i → f ∈ w.flights
  bumps : v.bumps ≤ w.bumps
  held : v.holder = some i → w.holder = some i ∧ w.bumps = v.bumps

omit [DecidableEq ι] in
theorem View.undisturbed_trans {u v w : View ι} (huv : u.Undisturbed i v)
    (hvw : v.Undisturbed i w) : u.Undisturbed i w where
  record := hvw.record.trans huv.record
  own f hf hi := huv.own f (hvw.own f hf hi) hi
  kept f hf hor := hvw.kept f (huv.kept f hf hor) hor
  bumps := Nat.le_trans huv.bumps hvw.bumps
  held h := ⟨(hvw.held (huv.held h).1).1, (hvw.held (huv.held h).1).2.trans (huv.held h).2⟩

/-- The discipline of the callers. -/
def flightProtocol (ι : Type) [DecidableEq ι] (first : Nat) : Protocol ι (HttpRun ι) where
  inv := OneFlight first
  rely i s t := (view i s).Undisturbed i (view i t)
  rely_refl _ _ := ⟨rfl, fun _ hf _ => hf, fun _ hf _ => hf, Nat.le_refl _, fun h => ⟨h, rfl⟩⟩
  rely_trans _ _ _ _ := View.undisturbed_trans

/-! ## One step -/

variable {first : Nat} {e : HttpChoice} {s t : HttpRun ι}

/-- The owner of a handshake stays on record. -/
theorem OneFlight.owner_cons (hs : OneFlight first s) {f : Flight ι} (hf : f ∈ flights s.log) :
    (callRecord f.caller (⟨i, o, b⟩ :: s.log)).epochRead = some (f.epoch first) ∧
      (callRecord f.caller (⟨i, o, b⟩ :: s.log)).lost = true :=
  callRecord_keeps (hs.owner f hf).1 (hs.owner f hf).2

/-- An operation that does not steer keeps the discipline and changes no more than the
caller's record. -/
theorem OneFlight.quiet (hs : OneFlight first s) (ho : ¬o.Steers)
    (he : (httpMachine ι).recorded.exec i β o e s = some (b, t)) :
    (flightProtocol ι first).Keeps i s t ∧
      view i t = { view i s with record := (callRecord i s.log).note s.log o b } := by
  obtain ⟨hexec, hlog⟩ := Machine.recorded_exec he
  obtain ⟨hepoch, hholder⟩ := exec_unsteered ho hexec
  have hflights : flights t.log = flights s.log := by rw [hlog, flights_quiet ho]
  have hbumps : bumps t.log = bumps s.log := by rw [hlog, bumps_quiet ho]
  -- the record of the other callers, the flights and the epoch are all as they were
  refine ⟨⟨⟨?_, ?_, ?_, ?_, ?_, ?_⟩, fun j hj => ⟨?_, ?_, ?_, ?_, ?_⟩⟩, ?_⟩
  · rw [hepoch, hbumps]
    exact hs.epoch
  · rw [hflights]
    exact hs.distinct
  · rw [hflights, hbumps]
    exact hs.finished
  · rw [hflights, hbumps, hholder]
    exact hs.underWay
  · rw [hflights, hbumps]
    exact hs.complete
  · rw [hflights, hlog]
    exact fun f hf => hs.owner_cons hf
  · show callRecord j t.log = callRecord j s.log
    rw [hlog, callRecord_other (Ne.symm hj)]
  · show ∀ f ∈ flights t.log, f.caller = j → f ∈ flights s.log
    rw [hflights]
    exact fun f hf _ => hf
  · show ∀ f ∈ flights s.log, f.status = .finished ∨ f.caller = j → f ∈ flights t.log
    rw [hflights]
    exact fun f hf _ => hf
  · exact Nat.le_of_eq hbumps.symm
  · exact fun h => ⟨hholder.trans h, hbumps⟩
  · rw [view, hflights, hbumps, hholder, hlog, callRecord_self]
    rfl

/-- Taking the free lock. -/
theorem OneFlight.lock (hs : OneFlight first s)
    (he : (httpMachine ι).recorded.exec i Unit .lockReinit e s = some ((), t)) :
    (flightProtocol ι first).Keeps i s t ∧
      view i t = { view i s with record := { callRecord i s.log with lost := true },
                                 holder := some i } := by
  obtain ⟨hexec, hlog⟩ := Machine.recorded_exec he
  have hfree : s.state.reinitHolder = none ∧ t.state = { s.state with reinitHolder := some i } := by
    simp only [httpMachine, HttpWorld.exec] at hexec
    split at hexec
    · rename_i hnone
      exact ⟨hnone, (Prod.mk.inj (Option.some.inj hexec)).2.symm⟩
    · cases hexec
  obtain ⟨hnone, hstate⟩ := hfree
  have hflights : flights t.log = flights s.log := by rw [hlog]; rfl
  have hbumps : bumps t.log = bumps s.log := by rw [hlog]; rfl
  refine ⟨⟨⟨?_, ?_, ?_, ?_, ?_, ?_⟩, fun j hj => ⟨?_, ?_, ?_, ?_, ?_⟩⟩, ?_⟩
  · rw [hstate, hbumps]
    exact hs.epoch
  · rw [hflights]
    exact hs.distinct
  · rw [hflights, hbumps]
    exact hs.finished
  · -- nobody is under way while the lock is free
    rw [hflights]
    intro f hf hunder
    have := (hs.underWay f hf hunder).2
    rw [hnone] at this
    cases this
  · rw [hflights, hbumps]
    exact hs.complete
  · rw [hflights, hlog]
    exact fun f hf => hs.owner_cons hf
  · show callRecord j t.log = callRecord j s.log
    rw [hlog, callRecord_other (Ne.symm hj)]
  · show ∀ f ∈ flights t.log, f.caller = j → f ∈ flights s.log
    rw [hflights]
    exact fun f hf _ => hf
  · show ∀ f ∈ flights s.log, f.status = .finished ∨ f.caller = j → f ∈ flights t.log
    rw [hflights]
    exact fun f hf _ => hf
  · exact Nat.le_of_eq hbumps.symm
  · intro (h : s.state.reinitHolder = some j)
    rw [hnone] at h
    cases h
  · rw [view, hflights, hbumps, hlog, callRecord_self, hstate]
    rfl

/-- The handshakes of the others stay as they are when one ends. -/
theorem settle_mem_iff {status : FlightStatus} {f : Flight ι} {l : List (Flight ι)}
    (h : f.caller ≠ i) : f ∈ l.map (Flight.settle i status) ↔ f ∈ l := by
  constructor
  · intro hf
    obtain ⟨g, hg, rfl⟩ := List.mem_map.mp hf
    rw [Flight.settle_caller] at h
    rwa [Flight.settle_other h]
  · intro hf
    exact List.mem_map.mpr ⟨f, hf, Flight.settle_other h⟩

/-- What has ended stays as it is when another handshake ends. -/
theorem settle_mem {status : FlightStatus} {f : Flight ι} {l : List (Flight ι)} (hf : f ∈ l)
    (hfinished : f.status = .finished) : f ∈ l.map (Flight.settle i status) :=
  List.mem_map.mpr ⟨f, hf, Flight.settle_finished hfinished⟩

/-- When the handshake of the lock holder ends, no other one is under way. -/
theorem OneFlight.none_underWay (hs : OneFlight first s)
    (hholder : s.state.reinitHolder = some i) (status : FlightStatus)
    (hstatus : status ≠ .underWay) :
    ∀ f ∈ (flights s.log).map (Flight.settle i status), f.status ≠ .underWay := by
  intro f hf hunder
  obtain ⟨g, hg, rfl⟩ := List.mem_map.mp hf
  obtain ⟨hg', hcaller⟩ := Flight.settle_underWay hstatus hunder
  have := (hs.underWay g hg hg').2
  rw [hholder] at this
  exact hcaller (Option.some.inj this).symm

/-- Distinct generations stay distinct. -/
theorem OneFlight.distinct_settle (hs : OneFlight first s) (status : FlightStatus) :
    ((flights s.log).map (Flight.settle i status)).Pairwise fun f g =>
      f.status ≠ .abandoned → g.status ≠ .abandoned → f.generation ≠ g.generation := by
  have back : ∀ f : Flight ι, (f.settle i status).status ≠ .abandoned → f.status ≠ .abandoned := by
    intro f h hf
    rw [Flight.settle, hf] at h
    exact h hf
  refine List.pairwise_map.mpr (hs.distinct.imp fun {f g} h hf hg => ?_)
  rw [Flight.settle_generation, Flight.settle_generation]
  exact h (back f hf) (back g hg)

/-- Dropping the lock; a handshake that was under way is abandoned. -/
theorem OneFlight.unlock (hs : OneFlight first s)
    (hholder : s.state.reinitHolder = some i)
    (he : (httpMachine ι).recorded.exec i Unit .unlockReinit e s = some ((), t)) :
    (flightProtocol ι first).Keeps i s t ∧
      view i t = { view i s with
        record := { callRecord i s.log with released := true },
        flights := (flights s.log).map (Flight.settle i .abandoned), holder := none } := by
  obtain ⟨hexec, hlog⟩ := Machine.recorded_exec he
  have hstate : t.state = { s.state with reinitHolder := none } :=
    (Prod.mk.inj (Option.some.inj hexec)).2.symm
  have hflights : flights t.log = (flights s.log).map (Flight.settle i .abandoned) := by
    rw [hlog]; rfl
  have hbumps : bumps t.log = bumps s.log := by rw [hlog]; rfl
  have hnone := hs.none_underWay hholder .abandoned (by simp)
  refine ⟨⟨⟨?_, ?_, ?_, ?_, ?_, ?_⟩, fun j hj => ⟨?_, ?_, ?_, ?_, ?_⟩⟩, ?_⟩
  · rw [hstate, hbumps]
    exact hs.epoch
  · rw [hflights]
    exact hs.distinct_settle .abandoned
  · -- to give up finishes no handshake
    rw [hflights, hbumps]
    intro f hf hfinished
    obtain ⟨g, hg, rfl⟩ := List.mem_map.mp hf
    rw [Flight.settle_generation]
    refine hs.finished g hg ?_
    unfold Flight.settle at hfinished
    split at hfinished
    · split at hfinished
      · cases hfinished
      · exact hfinished
    · exact hfinished
  · rw [hflights]
    exact fun f hf hunder => absurd hunder (hnone f hf)
  · rw [hflights, hbumps]
    intro g hg
    obtain ⟨f, hf, hgen, hfinished⟩ := hs.complete g hg
    exact ⟨f, settle_mem hf hfinished, hgen, hfinished⟩
  · rw [hflights, hlog]
    intro f hf
    obtain ⟨g, hg, rfl⟩ := List.mem_map.mp hf
    rw [Flight.settle_caller, Flight.settle_epoch]
    exact hs.owner_cons hg
  · -- the other callers see their own record and their own flights as before
    show callRecord j t.log = callRecord j s.log
    rw [hlog, callRecord_other (Ne.symm hj)]
  · show ∀ f ∈ flights t.log, f.caller = j → f ∈ flights s.log
    rw [hflights]
    exact fun f hf hcaller => (settle_mem_iff (hcaller ▸ hj)).mp hf
  · show ∀ f ∈ flights s.log, f.status = .finished ∨ f.caller = j → f ∈ flights t.log
    rw [hflights]
    rintro f hf (hfinished | hcaller)
    · exact settle_mem hf hfinished
    · exact (settle_mem_iff (hcaller ▸ hj)).mpr hf
  · exact Nat.le_of_eq hbumps.symm
  · intro (h : s.state.reinitHolder = some j)
    rw [hholder] at h
    exact absurd (Option.some.inj h).symm hj
  · rw [view, hflights, hbumps, hlog, callRecord_self, hstate]
    rfl

/-! ## Where a call stands -/

/-- It has read its epoch in generation `g`. From here on it may ask for the lock, as soon as it
finds the session lost. -/
def Asked (first : Nat) (i : ι) (g : Nat) (v : View ι) : Prop :=
  v.record = { epochRead := some ((first + g) % 2 ^ 64) } ∧ g ≤ v.bumps ∧
    ∀ f ∈ v.flights, f.caller ≠ i

/-- It has found the session lost and got the lock. Whether anybody else has run the handshake of
this generation is decided by the epoch, which it reads next. -/
def Waited (first : Nat) (i : ι) (g : Nat) (v : View ι) : Prop :=
  v.record = { epochRead := some ((first + g) % 2 ^ 64), lost := true } ∧ g ≤ v.bumps ∧
    (∀ f ∈ v.flights, f.caller ≠ i) ∧ v.holder = some i

/-- Its handshake stands at `status`. -/
def Flies (first : Nat) (i : ι) (g : Nat) (status : FlightStatus) (v : View ι) : Prop :=
  v.record = { epochRead := some ((first + g) % 2 ^ 64), lost := true } ∧
    (status = .underWay → v.bumps = g) ∧ ⟨i, g, status⟩ ∈ v.flights ∧
    (∀ f ∈ v.flights, f.caller = i → f = ⟨i, g, status⟩) ∧ v.holder = some i

/-- It has run the handshake of its generation and dropped the lock. What is left of it is the
second attempt. -/
def Landed (first : Nat) (i : ι) (g : Nat) (v : View ι) : Prop :=
  v.record.epochRead = some ((first + g) % 2 ^ 64) ∧ ⟨i, g, .finished⟩ ∈ v.flights ∧
    ∀ f ∈ v.flights, f.caller = i → f = ⟨i, g, .finished⟩

/-- It has dropped the lock again: another call has run the handshake of its generation.
`seconds` are its second attempts. -/
def Served (first : Nat) (i : ι) (g : Nat) (seconds : List (HttpHistory ι)) (v : View ι) : Prop :=
  v.record = ⟨some ((first + g) % 2 ^ 64), true, true, seconds⟩ ∧
    (∀ f ∈ v.flights, f.caller ≠ i) ∧
    ∃ f ∈ v.flights, f.generation = g ∧ f.status = .finished ∧
      ∀ before ∈ seconds, f ∈ flights before

section Stages

variable {g : Nat} {v w : View ι} {status : FlightStatus} {seconds : List (HttpHistory ι)}

omit [DecidableEq ι] in
theorem Asked.stable (h : v.Undisturbed i w) (hv : Asked first i g v) : Asked first i g w :=
  ⟨h.record.trans hv.1, Nat.le_trans hv.2.1 h.bumps,
    fun f hf hi => hv.2.2 f (h.own f hf hi) hi⟩

omit [DecidableEq ι] in
theorem Waited.stable (h : v.Undisturbed i w) (hv : Waited first i g v) : Waited first i g w :=
  ⟨h.record.trans hv.1, Nat.le_trans hv.2.1 h.bumps,
    fun f hf hi => hv.2.2.1 f (h.own f hf hi) hi, (h.held hv.2.2.2).1⟩

omit [DecidableEq ι] in
theorem Flies.stable (h : v.Undisturbed i w) (hv : Flies first i g status v) :
    Flies first i g status w := by
  obtain ⟨hrecord, hbumps, hmem, hown, hholder⟩ := hv
  exact ⟨h.record.trans hrecord, fun hs => (h.held hholder).2.trans (hbumps hs),
    h.kept _ hmem (.inr rfl), fun f hf hi => hown f (h.own f hf hi) hi, (h.held hholder).1⟩

omit [DecidableEq ι] in
theorem Landed.stable (h : v.Undisturbed i w) (hv : Landed first i g v) :
    Landed first i g w := by
  obtain ⟨hepoch, hmem, hown⟩ := hv
  exact ⟨h.record ▸ hepoch, h.kept _ hmem (.inr rfl), fun f hf hi => hown f (h.own f hf hi) hi⟩

theorem Served.stable (h : v.Undisturbed i w) (hv : Served first i g seconds v) :
    Served first i g seconds w := by
  obtain ⟨hrecord, hground, f, hf, hgen, hfinished, hbefore⟩ := hv
  exact ⟨h.record.trans hrecord, fun f hf hi => hground f (h.own f hf hi) hi, f,
    h.kept f hf (.inl hfinished), hgen, hfinished, hbefore⟩

end Stages

/-! ## The call -/

section Walk

variable {α : Type} {p : Prog HttpOp α} {J : View ι → Prop} {g : Nat} {hb : HttpBackend}

/-- A call that has not begun. Nothing of it is in the history. -/
def Unasked (i : ι) (v : View ι) : Prop :=
  v.record = {} ∧ ∀ f ∈ v.flights, f.caller ≠ i

omit [DecidableEq ι] in
theorem Unasked.stable {w : View ι} (h : v.Undisturbed i w) (hv : Unasked i v) : Unasked i w :=
  ⟨h.record.trans hv.1, fun f hf hi => hv.2 f (h.own f hf hi) hi⟩

end Walk

/-! ## Concurrent calls -/

end History

/-! ## Runs -/

/-- A call finds the session lost. -/
def lostAttempt : List HttpChoice := [{}, {}, {}, {}, .forgotten]

end HeadlessMcp
