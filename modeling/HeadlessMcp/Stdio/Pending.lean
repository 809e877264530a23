import HeadlessMcp.Stdio.Correlation

/-!
# The map of pending requests

A request is put into `pending` before it is written, and three pieces of code take it out
again: the reader task with its response, the reader task at its exit, and the caller that
gives up. The caller only tries the lock of `pending`; where another task holds it, the entry
is left to the exit of the reader task.

So a request that was written and has returned has left the map, unless its caller gave up while
the lock was held, and a request that is waited for is in the map until its outcome is sent
(`returned_requests_are_forgotten`).
-/

namespace HeadlessMcp

open Async Machine

variable {ι α β : Type}

/-! ## What one caller does -/

/-- Where a caller stands with its last request: its number and its channel. The number is drawn
before, and the caller has no other request meanwhile. -/
inductive Requesting : Type where
  | idle : Requesting
  | registered (id : Int) (channel : Nat) : Requesting
  /-- the request is written, but not flushed -/
  | buffered (id : Int) (channel : Nat) : Requesting
  /-- the request is written and flushed, and the caller waits -/
  | written (id : Int) (channel : Nat) : Requesting
  /-- the wait has timed out -/
  | timedOut (id : Int) (channel : Nat) : Requesting
  /-- the wait is over -/
  | heard (id : Int) (channel : Nat) : Requesting
  /-- the caller has tried to take the request out of the map -/
  | givenUp (id : Int) (channel : Nat) : Requesting
  deriving DecidableEq

/-- The request and its channel. -/
def Requesting.request : Requesting → Option (Int × Nat)
  | .idle => none
  | .registered id channel | .buffered id channel | .written id channel | .timedOut id channel
  | .heard id channel | .givenUp id channel => some (id, channel)

/-- The request is written and has not returned. -/
def Requesting.underway : Requesting → Bool
  | .buffered _ _ | .written _ _ | .timedOut _ _ => true
  | _ => false

/-- The wait for the request is over. -/
def Requesting.finished : Requesting → Bool
  | .heard _ _ | .givenUp _ _ => true
  | _ => false

/-- What an operation makes of it. -/
def StdioOp.requesting : StdioOp β → β → Requesting → Requesting
  | .register id _, channel, _ => .registered id channel
  | .writeAll _ (.request _ _ _), .ok (), .registered id channel => .buffered id channel
  | .flush _, .ok (), .buffered id channel => .written id channel
  | .flush _, .error _, .buffered id channel => .registered id channel
  | .await _ _, .timedOut, .written id channel => .timedOut id channel
  | .await _ _, .answered _, .written id channel => .heard id channel
  | .await _ _, .dropped, .written id channel => .heard id channel
  | .tryForget _, _, .timedOut id channel => .givenUp id channel
  | _, _, t => t

/-- Which operations are in order: a caller makes a request when it has returned from the one
before, waits for what it has written, and gives up what has timed out. -/
def StdioOp.requests : StdioOp β → Requesting → Prop
  | .register _ _, t => t.underway = false
  | .await channel _, t => ∃ id, t = .written id channel
  | .tryForget id, t => ∃ channel, t = .timedOut id channel
  | _, _ => True

/-- The operations that end a wait. -/
def StdioOp.ends : StdioOp β → Bool
  | .await _ _ | .tryForget _ => true
  | _ => false

/-- The two as a ledger. -/
def requestLedger : Ledger StdioOp Requesting := ⟨StdioOp.requesting, StdioOp.requests⟩

/-- The operations of a reader task. -/
def StdioOp.Reads : StdioOp β → Prop
  | .beginReading _ | .nextLine _ _ | .settle _ _ | .endOfOutput _ | .markDown _
  | .drain _ _ => True
  | _ => False

section Walk

variable {b : StdioBackend} {t : Requesting} {id : Int} {channel : Nat}

/-- What belongs to no request leaves a caller at rest. -/
theorem around_at_rest {o : StdioOp β} (ho : o.Around) (ht : t.underway = false) :
    requestLedger.inOrder o t ∧ ∀ answer, (requestLedger.next o answer t).underway = false := by
  cases o with
  | writeAll child message =>
    cases message with
    | request => exact ho.elim
    | _ => exact ⟨trivial, fun _ => ht⟩
  | flush child =>
    refine ⟨trivial, fun answer => ?_⟩
    cases t with
    | buffered => cases ht
    | _ => cases answer <;> exact ht
  | nextId | register | await | tryForget => exact ho.elim
  | beginReading | nextLine | settle | endOfOutput | markDown | drain => exact ho.elim
  | _ => exact ⟨trivial, fun _ => ht⟩

/-- A request is registered before it is written. -/
theorem requests_sendMessage {id' : JsonRpcId} {method : String} {params : Option Value} :
    (sendMessage (.request id' method params)).Keeps requestLedger
      (fun sent u => match sent with
        | .ok () => u = .written id channel
        | .error _ => u = .registered id channel) (.registered id channel) := by
  refine ⟨trivial, fun _ => Prog.Keeps.andFinally ⟨trivial, fun _ => ?_⟩ fun _ => trivial⟩
  refine Prog.Keeps.andFinally ⟨trivial, fun stdin => ?_⟩ fun _ => trivial
  cases stdin with
  | none => exact fun _ _ => rfl
  | some child =>
    refine ⟨trivial, fun written => ?_⟩
    cases written with
    | error e => exact fun _ _ => rfl
    | ok =>
      refine ⟨trivial, fun flushed => ?_⟩
      cases flushed with
      | error e => exact fun _ _ => rfl
      | ok => exact fun _ _ => rfl

/-- **A request that has returned is not under way.** Whether it was answered, timed out, or
failed to be written, nothing waits for it any more. -/
theorem requests_sendRequest {method : String} {params : Option Value} {timeoutSecs : Nat}
    {handshake : Option Nat} (ht : t.underway = false) :
    (b.sendRequest method params timeoutSecs handshake).Keeps requestLedger
      (fun _ u => u.underway = false) t := by
  refine ⟨trivial, fun n => ⟨ht, fun channel => ?_⟩⟩
  refine (requests_sendMessage.mono fun sent u hu => ?_).bind
  cases sent with
  | error e =>
    obtain rfl := hu
    rfl
  | ok =>
    obtain rfl := hu
    refine ⟨⟨asI64 n, rfl⟩, fun awaited => ?_⟩
    cases awaited with
    | answered r => rfl
    | dropped => rfl
    | timedOut => exact ⟨⟨channel, rfl⟩, fun _ => rfl⟩

theorem requests_calls (cs : List StdioCall) (ht : t.underway = false) :
    (b.calls cs).Keeps requestLedger (fun _ u => u.underway = false) t :=
  frame_calls (J := fun u : Requesting => u.underway = false) (fun _ _ => around_at_rest)
    (fun _ _ _ _ _ => requests_sendRequest) cs ht

theorem reads_readResponses (child : Nat) (lines : List String) :
    (b.readResponses child lines).Uses StdioOp.Reads := by
  induction lines with
  | nil => exact ⟨trivial, fun _ => trivial⟩
  | cons line lines ih =>
    refine ⟨trivial, fun _ => Prog.Uses.bind (p := b.handleLine line) ?_ fun _ => ih⟩
    rw [StdioBackend.handleLine]
    split
    · trivial
    · split
      · exact ⟨trivial, fun _ => trivial⟩
      · exact ⟨trivial, fun _ => trivial⟩
      · trivial

theorem requests_readerTask (child : Nat) (lines : List String) (ht : t.underway = false) :
    (b.readerTask child lines).Keeps requestLedger (fun _ u => u.underway = false) t := by
  refine Prog.Keeps.of_uses (A := StdioOp.Reads) (fun o u ho hu => ?_)
    ⟨trivial, fun _ => (reads_readResponses child lines).bind fun _ =>
      ⟨trivial, fun _ => ⟨trivial, fun _ => trivial⟩⟩⟩ ht
  cases o <;> first | exact ⟨trivial, fun _ => hu⟩ | exact ho.elim

end Walk

/-! ## Reading a history -/

section Steps

variable {o : StdioOp β} {a : β} {t : Requesting} {id : Int} {channel : Nat}

/-- Only a registration makes another request the last one. -/
theorem requesting_request {i : ι} {x : Int × Nat} (h : (o.requesting a t).request = some x) :
    o.registration i a = some ⟨i, x.1, x.2⟩ ∨ t.request = some x := by
  cases o with
  | register id handshake =>
    cases h
    exact .inl rfl
  | writeAll child message =>
    refine .inr ?_
    cases message with
    | request => cases a <;> cases t <;> exact h
    | _ => exact h
  | flush => cases a <;> cases t <;> exact .inr h
  | await => cases a <;> cases t <;> exact .inr h
  | tryForget => cases t <;> exact .inr h
  | _ => exact .inr h

theorem requesting_finished {u : Requesting} (ho : o.ends = false) (hu : u.finished = true)
    (h : o.requesting a t = u) : t = u := by
  subst h
  cases o with
  | await | tryForget => cases ho
  | register => cases hu
  | writeAll child message =>
    cases message with
    | request => cases a <;> cases t <;> first | rfl | cases hu
    | _ => rfl
  | flush => cases a <;> cases t <;> first | rfl | cases hu
  | _ => rfl

/-- A request that was written is waited for, or its wait has just ended. -/
theorem requesting_underway (horder : o.requests t)
    (ht : t = .written id channel ∨ t = .timedOut id channel) :
    o.requesting a t = .written id channel ∨ o.requesting a t = .timedOut id channel ∨
      o.requesting a t = .heard id channel ∨ o.requesting a t = .givenUp id channel := by
  cases o with
  | register => rcases ht with rfl | rfl <;> cases horder
  | await channel' =>
    obtain ⟨id', rfl⟩ := horder
    rcases ht with ht | ht <;> cases ht
    cases a with
    | answered r => exact .inr (.inr (.inl rfl))
    | dropped => exact .inr (.inr (.inl rfl))
    | timedOut => exact .inr (.inl rfl)
  | tryForget id' =>
    obtain ⟨channel', rfl⟩ := horder
    rcases ht with ht | ht <;> cases ht
    exact .inr (.inr (.inr rfl))
  | writeAll child message =>
    rcases ht with rfl | rfl <;> cases message <;> cases a <;> simp [StdioOp.requesting]
  | flush => rcases ht with rfl | rfl <;> cases a <;> simp [StdioOp.requesting]
  | _ =>
    rcases ht with rfl | rfl
    · exact .inl rfl
    · exact .inr (.inl rfl)

end Steps

section Histories

variable [DecidableEq ι]

/-- Where a caller stands after a history. -/
def lastRequest (i : ι) (l : StdioHistory ι) : Requesting := requestLedger.after .idle i l

/-- A caller stood there at some time. -/
def Stood (i : ι) (t : Requesting) (l : StdioHistory ι) : Prop :=
  ∃ before, before <:+ l ∧ lastRequest i before = t

variable {i j : ι} {o : StdioOp β} {a : β} {l : StdioHistory ι} {t : Requesting} {id : Int}
  {channel : Nat}

theorem stood_cons {p : Performed StdioOp ι} :
    Stood i t (p :: l) ↔ lastRequest i (p :: l) = t ∨ Stood i t l := by
  constructor
  · rintro ⟨before, hbefore, rfl⟩
    rcases List.suffix_cons_iff.mp hbefore with rfl | hbefore
    · exact .inl rfl
    · exact .inr ⟨before, hbefore, rfl⟩
  · rintro (h | ⟨before, hbefore, h⟩)
    · exact ⟨p :: l, List.suffix_refl _, h⟩
    · exact ⟨before, List.suffix_cons_iff.mpr (.inr hbefore), h⟩

theorem lastRequest_own : lastRequest i (⟨i, o, a⟩ :: l) = o.requesting a (lastRequest i l) :=
  Ledger.after_own

theorem lastRequest_other (h : i ≠ j) : lastRequest j (⟨i, o, a⟩ :: l) = lastRequest j l :=
  Ledger.after_other h

/-- A caller's last request has been registered. -/
theorem registered_of_lastRequest {x : Int × Nat} (h : (lastRequest i l).request = some x) :
    ⟨i, x.1, x.2⟩ ∈ registered l := by
  induction l with
  | nil => cases h
  | cons p l ih =>
    obtain ⟨j, o, a⟩ := p
    by_cases hij : j = i
    · subst hij
      rw [lastRequest_own] at h
      rcases requesting_request (i := j) h with hnew | hold
      · rw [registered, List.filterMap_cons, hnew]
        exact List.mem_cons_self
      · exact mem_registered_cons (ih hold)
    · rw [lastRequest_other hij] at h
      exact mem_registered_cons (ih h)

theorem registered_of_stood {x : Int × Nat} (h : Stood i t l) (ht : t.request = some x) :
    ⟨i, x.1, x.2⟩ ∈ registered l := by
  obtain ⟨before, hbefore, rfl⟩ := h
  obtain ⟨newer, rfl⟩ := hbefore
  rw [registered, List.filterMap_append]
  exact List.mem_append_right _ (registered_of_lastRequest ht)

/-- Only the operations that end a wait make a caller one whose wait is over. -/
theorem stood_before {u : Requesting} (hu : u.finished = true) (ho : i = j → o.ends = false)
    (h : Stood j u (⟨i, o, a⟩ :: l)) : Stood j u l := by
  rcases stood_cons.mp h with h | h
  · refine ⟨l, List.suffix_refl _, ?_⟩
    by_cases hij : i = j
    · subst hij
      rw [lastRequest_own] at h
      exact requesting_finished (ho rfl) hu h
    · rwa [lastRequest_other hij] at h
  · exact h

/-- The wait for a request is over. -/
def Finished (i : ι) (id : Int) (channel : Nat) (l : StdioHistory ι) : Prop :=
  Stood i (.heard id channel) l ∨ Stood i (.givenUp id channel) l

/-- The request is written, and its caller has not returned. -/
def Underway (i : ι) (id : Int) (channel : Nat) (l : StdioHistory ι) : Prop :=
  lastRequest i l = .written id channel ∨ lastRequest i l = .timedOut id channel

/-- A request that was written is waited for until the wait is over. -/
theorem finished_or_underway (hkept : requestLedger.Kept .idle l)
    (h : Stood i (.written id channel) l) : Finished i id channel l ∨ Underway i id channel l := by
  induction l with
  | nil =>
    obtain ⟨before, hbefore, hlast⟩ := h
    rw [List.suffix_nil.mp hbefore] at hlast
    cases hlast
  | cons p l ih =>
    obtain ⟨horder, hkept⟩ := hkept
    rcases stood_cons.mp h with hnow | hbefore
    · exact .inr (.inl hnow)
    rcases ih hkept hbefore with hfinished | hunderway
    · exact .inl (hfinished.imp (fun h => stood_cons.mpr (.inr h)) fun h => stood_cons.mpr (.inr h))
    obtain ⟨j, o, a⟩ := p
    by_cases hij : j = i
    · subst hij
      have hnext : lastRequest j (⟨j, o, a⟩ :: l) = o.requesting a (lastRequest j l) :=
        lastRequest_own
      rw [Finished, Underway, stood_cons, stood_cons, hnext]
      rcases requesting_underway (a := a) horder hunderway with h | h | h | h
      · exact .inr (.inl h)
      · exact .inr (.inr h)
      · exact .inl (.inl (.inl h))
      · exact .inl (.inr (.inl h))
    · rw [Underway, lastRequest_other hij]
      exact .inr hunderway

end Histories

/-! ## The map and the channels -/

/-- The map holds, under distinct numbers, exactly the requests whose channel is open. This is the
invariant of the runs: the map and the channels are kept in step by whoever takes an entry out. -/
structure Mapped (s : StdioRun ι) : Prop where
  opens : ∀ p ∈ s.state.pending, s.state.channels p.channel = .open
  distinct : (s.state.pending.map (·.id)).Nodup
  waits : ∀ r ∈ registered s.log, s.state.channels r.channel = .open →
    ∃ p ∈ s.state.pending, p.id = r.id ∧ p.channel = r.channel

section Maps

variable {b : StdioBackend} {output : Nat → List String} {i j : ι} {o : StdioOp β}
  {a : β} {e : StdioChoice} {s t : StdioRun ι} {id : Int} {channel : Nat} {outcome : Channel}

theorem mem_without_iff {s : StdioWorld ι} {p : PendingRequest} :
    p ∈ s.without id ↔ p ∈ s.pending ∧ p.id ≠ id := by
  rw [StdioWorld.without, List.mem_filter, decide_eq_true_iff]

/-- Two entries with one channel are of one request. -/
theorem id_of_channel (hchannelled : Channelled b output s) {p q : PendingRequest}
    (hp : p ∈ s.state.pending) (hq : q ∈ s.state.pending) (h : p.channel = q.channel) :
    p.id = q.id := by
  obtain ⟨i, hi⟩ := hchannelled.pending p hp
  obtain ⟨j, hj⟩ := hchannelled.pending q hq
  exact congrArg Registration.id (hchannelled.one _ hi _ hj h)

/-- Sending through the channel of one request leaves the others in the map as they are. -/
theorem resolve_other (hchannelled : Channelled b output s) {p : PendingRequest}
    (hp : p ∈ s.state.pending) (hid : p.id ≠ id) :
    s.state.resolve (s.state.find id) outcome p.channel = s.state.channels p.channel := by
  rcases s.state.resolve_cases (s.state.find id) outcome p.channel with hsame | ⟨⟨q, hq, hc⟩, -⟩
  · exact hsame
  · obtain ⟨hmem, hfound⟩ := StdioWorld.mem_of_find hq
    exact absurd ((id_of_channel hchannelled hp hmem hc.symm).trans hfound) hid

theorem find_of_mem (hs : Mapped s) {p : PendingRequest} (hp : p ∈ s.state.pending) :
    s.state.find p.id = some p := by
  have hsome : (s.state.find p.id).isSome :=
    List.find?_isSome.mpr ⟨p, hp, decide_eq_true rfl⟩
  obtain ⟨q, hq⟩ := Option.isSome_iff_exists.mp hsome
  obtain ⟨hmem, hid⟩ := StdioWorld.mem_of_find hq
  rw [hq, List.inj_on_of_nodup_map hs.distinct hmem hp hid]

/-- An entry that is taken out has no open channel. -/
theorem resolve_own (hs : Mapped s) {p : PendingRequest} (hp : p ∈ s.state.pending) :
    s.state.resolve (s.state.find p.id) outcome p.channel = outcome := by
  rw [find_of_mem hs hp]
  exact Function.update_self ..

/-- A closed channel stays closed. -/
theorem resolve_closed {entry : Option PendingRequest} (houtcome : outcome ≠ .open)
    (h : s.state.channels channel ≠ .open) : s.state.resolve entry outcome channel ≠ .open := by
  rcases s.state.resolve_cases entry outcome channel with hsame | ⟨-, hnew⟩
  · rwa [hsame]
  · rwa [hnew]

/-- What is still open after one request was taken out is still in the map. -/
theorem waits_without (hs : Mapped s) (houtcome : outcome ≠ .open)
    {r : Registration ι} (hr : r ∈ registered s.log)
    (hopen : s.state.resolve (s.state.find id) outcome r.channel = .open) :
    ∃ p ∈ s.state.without id, p.id = r.id ∧ p.channel = r.channel := by
  have hwas : s.state.channels r.channel = .open :=
    Classical.byContradiction fun h => resolve_closed houtcome h hopen
  obtain ⟨p, hp, hid, hc⟩ := hs.waits r hr hwas
  refine ⟨p, mem_without_iff.mpr ⟨hp, ?_⟩, hid, hc⟩
  rintro rfl
  rw [← hc, resolve_own hs hp] at hopen
  exact houtcome hopen

theorem distinct_without (hs : Mapped s) : ((s.state.without id).map (·.id)).Nodup :=
  hs.distinct.sublist (List.filter_sublist.map _)

/-- Taking one request out. -/
theorem Mapped.taken (hs : Mapped s) (hchannelled : Channelled b output s)
    (houtcome : outcome ≠ .open) (hregistered : registered t.log = registered s.log)
    (hpending : t.state.pending = s.state.without id)
    (hchannels : t.state.channels = s.state.resolve (s.state.find id) outcome) : Mapped t := by
  refine ⟨fun p hp => ?_, ?_, fun r hr hopen => ?_⟩
  · rw [hpending, mem_without_iff] at hp
    rw [hchannels, resolve_other hchannelled hp.1 hp.2]
    exact hs.opens p hp.1
  · rw [hpending]
    exact distinct_without hs
  · rw [hregistered] at hr
    rw [hchannels] at hopen
    rw [hpending]
    exact waits_without hs houtcome hr hopen

/-- Leaving the map alone. -/
theorem Mapped.same (hs : Mapped s) (hregistered : registered t.log = registered s.log)
    (hpending : t.state.pending = s.state.pending)
    (hchannels : t.state.channels = s.state.channels) : Mapped t := by
  refine ⟨?_, ?_, ?_⟩
  · rw [hpending, hchannels]
    exact hs.opens
  · rw [hpending]
    exact hs.distinct
  · rw [hregistered, hpending, hchannels]
    exact hs.waits

/-- The step lemma for the map. -/
theorem Mapped.step (hs : Mapped s) (hchannelled : Channelled b output s)
    (he : (stdioMachine ι).recorded.exec i β o e s = some (a, t)) : Mapped t := by
  obtain ⟨hexec, hlog⟩ := Machine.recorded_exec he
  cases hroutes : o.routes with
  | false =>
    obtain ⟨hpending, hchannels, -⟩ := exec_unrouted hroutes hexec
    refine hs.same ?_ hpending hchannels
    rw [hlog]
    exact registered_cons (registration_unrouted hroutes)
  | true =>
    cases o with
    | register id handshake =>
      obtain ⟨rfl, hstate⟩ := Prod.mk.inj (Option.some.inj hexec)
      have hregistered : registered t.log = ⟨i, id, s.state.channelCount⟩ :: registered s.log := by
        rw [hlog]
        rfl
      -- the new channel is nobody else's
      have hfresh : ∀ r ∈ registered s.log, r.channel ≠ s.state.channelCount := fun r hr =>
        Nat.ne_of_lt (hchannelled.below r hr)
      refine ⟨fun p hp => ?_, ?_, fun r hr hopen => ?_⟩
      · rw [← hstate] at hp ⊢
        rcases List.mem_cons.mp hp with rfl | hp
        · exact Function.update_self ..
        · obtain ⟨hp, hid⟩ := mem_without_iff.mp hp
          obtain ⟨j, hj⟩ := hchannelled.pending p hp
          dsimp only
          rw [Function.update_of_ne (hfresh _ hj), resolve_other hchannelled hp hid]
          exact hs.opens p hp
      · rw [← hstate, List.map_cons, List.nodup_cons]
        refine ⟨fun h => ?_, distinct_without hs⟩
        obtain ⟨p, hp, hid⟩ := List.mem_map.mp h
        exact (mem_without_iff.mp hp).2 hid
      · rw [hregistered] at hr
        rw [← hstate] at hopen ⊢
        rcases List.mem_cons.mp hr with rfl | hr
        · exact ⟨_, List.mem_cons_self, rfl, rfl⟩
        · dsimp only at hopen
          rw [Function.update_of_ne (hfresh r hr)] at hopen
          obtain ⟨p, hp, h⟩ := waits_without hs (nofun : Channel.dropped ≠ .open) hr hopen
          exact ⟨p, List.mem_cons_of_mem _ hp, h⟩
    | tryForget id =>
      obtain ⟨-, hstate⟩ := Prod.mk.inj (Option.some.inj hexec)
      have hregistered : registered t.log = registered s.log := by
        rw [hlog]
        rfl
      split at hstate
      · exact hs.same hregistered (by rw [← hstate]) (by rw [← hstate])
      · exact hs.taken hchannelled (nofun : Channel.dropped ≠ .open) hregistered (by rw [← hstate])
          (by rw [← hstate])
    | settle id r =>
      obtain ⟨-, hstate⟩ := Prod.mk.inj (Option.some.inj hexec)
      refine hs.taken hchannelled (nofun : Channel.sent r ≠ .open) ?_ (by rw [← hstate])
        (by rw [← hstate])
      rw [hlog]
      rfl
    | drain child error =>
      obtain ⟨-, hstate⟩ := Prod.mk.inj (Option.some.inj hexec)
      refine ⟨?_, ?_, fun r hr hopen => ?_⟩
      · rw [← hstate]
        exact List.forall_mem_nil _
      · rw [← hstate]
        exact List.nodup_nil
      · rw [hlog] at hr
        rw [← hstate] at hopen
        dsimp only [StdioWorld.resolveAll] at hopen
        split at hopen
        · cases hopen
        · rename_i habsent
          obtain ⟨p, hp, -, hc⟩ := hs.waits r hr hopen
          exact absurd (List.mem_map.mpr ⟨p, hp, hc⟩) habsent
    | _ => cases hroutes

end Maps

/-! ## The runs -/

/-- The request that an operation gives up. -/
def StdioOp.forgets : StdioOp β → Option Int
  | .tryForget id => some id
  | _ => none

/-- Whoever gives this request up finds the lock of `pending` free. Where it is held, the caller
does not wait for it and leaves the entry where it is. -/
def LockFree (id : Int) : Rule StdioOp ι StdioChoice (StdioRun ι) :=
  fun _ _ o e _ => o.forgets = some id → e.contended = false

instance (id : Int) (i : ι) (β : Type) (o : StdioOp β) (e : StdioChoice) (s : StdioRun ι) :
    Decidable (LockFree id i β o e s) :=
  inferInstanceAs (Decidable (o.forgets = some id → e.contended = false))

section Runs

variable [DecidableEq ι] {b : StdioBackend} {output : Nat → List String} {i j : ι} {o : StdioOp β}
  {a : β} {e : StdioChoice} {s t : StdioRun ι} {id : Int} {channel : Nat}

omit [DecidableEq ι] in
/-- A channel that was closed is not opened again. -/
theorem closed_step (hchannelled : Channelled b output s)
    (he : (stdioMachine ι).recorded.exec i β o e s = some (a, t)) {r : Registration ι}
    (hr : r ∈ registered s.log) (hclosed : s.state.channels r.channel ≠ .open) :
    t.state.channels r.channel ≠ .open := by
  obtain ⟨hexec, -⟩ := Machine.recorded_exec he
  cases hroutes : o.routes with
  | false =>
    obtain ⟨-, hchannels, -⟩ := exec_unrouted hroutes hexec
    rwa [hchannels]
  | true =>
    cases o with
    | register id handshake =>
      obtain ⟨-, hstate⟩ := Prod.mk.inj (Option.some.inj hexec)
      rw [← hstate]
      dsimp only
      rw [Function.update_of_ne (Nat.ne_of_lt (hchannelled.below r hr))]
      exact resolve_closed nofun hclosed
    | tryForget id =>
      obtain ⟨-, hstate⟩ := Prod.mk.inj (Option.some.inj hexec)
      rw [← hstate]
      split
      · exact hclosed
      · exact resolve_closed nofun hclosed
    | settle id outcome =>
      obtain ⟨-, hstate⟩ := Prod.mk.inj (Option.some.inj hexec)
      rw [← hstate]
      exact resolve_closed nofun hclosed
    | drain child error =>
      obtain ⟨-, hstate⟩ := Prod.mk.inj (Option.some.inj hexec)
      rw [← hstate]
      dsimp only [StdioWorld.resolveAll]
      split
      · exact nofun
      · exact hclosed
    | _ => cases hroutes

/-- Whose wait was over has a closed channel. -/
theorem closed_of_stood (hchannelled : Channelled b output s)
    (he : (stdioMachine ι).recorded.exec i β o e s = some (a, t)) {u : Requesting}
    (hu : u.request = some (id, channel)) (h : Stood j u s.log)
    (hclosed : s.state.channels channel ≠ .open) : t.state.channels channel ≠ .open :=
  closed_step hchannelled he (registered_of_stood h hu) hclosed

/-- Whoever has heard has heard through a channel that is closed. -/
def HeardClosed (s : StdioRun ι) : Prop :=
  ∀ i id channel, Stood i (.heard id channel) s.log → s.state.channels channel ≠ .open

/-- So has whoever has given this request up. -/
def GivenUpClosed (id : Int) (s : StdioRun ι) : Prop :=
  ∀ i channel, Stood i (.givenUp id channel) s.log → s.state.channels channel ≠ .open

omit [DecidableEq ι] in
/-- A wait ends when something has come through the channel, or nothing can. -/
theorem closed_of_awaited {s : StdioWorld ι} {timeout : Bool} {answer : Awaited}
    (h : s.awaited channel timeout = some answer) (hanswer : answer ≠ .timedOut) :
    s.channels channel ≠ .open := by
  intro hopen
  rw [StdioWorld.awaited, hopen] at h
  dsimp only at h
  split at h
  · cases h
    exact hanswer rfl
  · cases h

/-- The step lemma for those that have heard. -/
theorem HeardClosed.step (hs : HeardClosed s) (hchannelled : Channelled b output s)
    (he : (stdioMachine ι).recorded.exec i β o e s = some (a, t))
    (horder : requestLedger.inOrder o (lastRequest i s.log)) : HeardClosed t := by
  intro j id channel h
  have hold (h : Stood j (.heard id channel) s.log) : t.state.channels channel ≠ .open :=
    closed_of_stood hchannelled he rfl h (hs j id channel h)
  obtain ⟨hexec, hlog⟩ := Machine.recorded_exec he
  rw [hlog] at h
  by_cases hends : i = j → o.ends = false
  · exact hold (stood_before rfl hends h)
  obtain ⟨rfl, hwait⟩ := Classical.not_imp.mp hends
  rcases stood_cons.mp h with h | h
  · rw [lastRequest_own] at h
    cases o with
    | await channel' =>
      obtain ⟨id', hlast⟩ := horder
      rw [hlast] at h
      obtain ⟨answer, hanswer, heq⟩ := Option.map_eq_some_iff.mp hexec
      obtain ⟨rfl, hstate⟩ := Prod.mk.inj heq
      rw [← hstate]
      cases answer with
      | timedOut => cases h
      | answered r =>
        cases h
        exact closed_of_awaited hanswer nofun
      | dropped =>
        cases h
        exact closed_of_awaited hanswer nofun
    | tryForget id' =>
      obtain ⟨channel', hlast⟩ := horder
      rw [hlast] at h
      cases h
    | _ => exact absurd rfl hwait
  · exact hold h

/-- The step lemma for those that have given up. -/
theorem GivenUpClosed.step (hs : GivenUpClosed id s) (hchannelled : Channelled b output s)
    (hmapped : Mapped s) (he : (stdioMachine ι).recorded.exec i β o e s = some (a, t))
    (horder : requestLedger.inOrder o (lastRequest i s.log)) (hfree : LockFree id i β o e s) :
    GivenUpClosed id t := by
  intro j channel h
  have hold (h : Stood j (.givenUp id channel) s.log) : t.state.channels channel ≠ .open :=
    closed_of_stood hchannelled he rfl h (hs j channel h)
  obtain ⟨hexec, hlog⟩ := Machine.recorded_exec he
  rw [hlog] at h
  by_cases hends : i = j → o.ends = false
  · exact hold (stood_before rfl hends h)
  obtain ⟨rfl, hwait⟩ := Classical.not_imp.mp hends
  rcases stood_cons.mp h with h | h
  · rw [lastRequest_own] at h
    cases o with
    | await channel' =>
      obtain ⟨id', hlast⟩ := horder
      rw [hlast] at h
      cases a <;> cases h
    | tryForget id' =>
      obtain ⟨channel', hlast⟩ := horder
      rw [hlast] at h
      cases h
      have hregistered : ⟨i, id, channel⟩ ∈ registered s.log :=
        registered_of_lastRequest (x := (id, channel)) (by rw [hlast]; rfl)
      obtain ⟨-, hstate⟩ := Prod.mk.inj (Option.some.inj hexec)
      rw [if_neg (by rw [hfree rfl]; exact nofun)] at hstate
      rw [← hstate]
      intro hopen
      -- an open channel would mean an entry under another number
      obtain ⟨p, hp, hid, -⟩ :=
        waits_without hmapped (nofun : Channel.dropped ≠ .open) hregistered hopen
      exact (mem_without_iff.mp hp).2 hid
    | _ => exact absurd rfl hwait
  · exact hold h

/-- What holds of the tasks in every reachable state. -/
structure MapHolds (b : StdioBackend) (output : Nat → List String)
    (c : Pool StdioOp (ι ⊕ Nat) (StdioRun (ι ⊕ Nat)) (Option (BackendResult Value))) : Prop where
  correlating : (stdioLedger b output).Holds .idle EndsAnswered c
  requesting : requestLedger.Holds .idle (fun _ u => u.underway = false) c
  channelled : Channelled b output c.shared
  staged : Staged b output c.shared
  mapped : Mapped c.shared
  heard : HeardClosed c.shared

variable {tasks : ι → StdioTask} {l : (ι ⊕ Nat) × StdioChoice}
  {c c' : Pool StdioOp (ι ⊕ Nat) (StdioRun (ι ⊕ Nat)) (Option (BackendResult Value))}

theorem MapHolds.step (h : MapHolds b output c)
    (hstep : (stdioMachine (ι ⊕ Nat)).recorded.step l c = some c') : MapHolds b output c' := by
  obtain ⟨q, hfire, -⟩ := Machine.step_eq_some _ hstep
  obtain ⟨δ, o, k, a, hop, hexec, -⟩ := Machine.fire_eq_some _ hfire
  have hcorrelates := h.correlating.keeps l.1
  have hrequests := h.requesting.keeps l.1
  rw [hop] at hcorrelates hrequests
  exact ⟨h.correlating.step hstep, h.requesting.step hstep,
    h.channelled.step h.staged hexec hcorrelates.1, h.staged.step h.channelled hexec hcorrelates.1,
    h.mapped.step h.channelled hexec, h.heard.step h.channelled hexec hrequests.1⟩

theorem requests_requestPool : requestLedger.Holds .idle (fun _ u => u.underway = false)
    (b.requestPool tasks output) := by
  refine ⟨fun i => ?_, trivial⟩
  cases i with
  | inl i =>
    have htask : (b.task (tasks i)).Keeps requestLedger (fun _ u => u.underway = false) .idle := by
      cases tasks i with
      | sends method params timeoutSecs =>
        exact ((requests_sendRequest rfl).mono fun _ _ hu => hu).bind
      | calls cs => exact ((requests_calls cs rfl).mono fun _ _ hu => hu).bind
    exact htask
  | inr child => exact ((requests_readerTask child _ rfl).mono fun _ _ hu => hu).bind

/-- Nobody has stood anywhere yet. -/
theorem stood_nil {i : ι} {u : Requesting} (h : Stood i u []) : u = .idle := by
  obtain ⟨before, hbefore, rfl⟩ := h
  rw [List.suffix_nil.mp hbefore]
  rfl

theorem mapHolds_requestPool : MapHolds b output (b.requestPool tasks output) := by
  have hcorrelation : CorrelationHolds b output (b.requestPool tasks output) :=
    correlationHolds_requestPool
  refine ⟨hcorrelation.ledger, requests_requestPool, hcorrelation.channelled, hcorrelation.staged,
    ⟨nofun, List.nodup_nil, nofun⟩, fun i id channel h => ?_⟩
  cases stood_nil h

/-- What the requests leave in the map. The exception is what a caller leaves that finds the lock
of the map held. -/
structure ForgetsReturned (start : Pool StdioOp (ι ⊕ Nat) (StdioRun (ι ⊕ Nat))
      (Option (BackendResult Value))) (schedule : List ((ι ⊕ Nat) × StdioChoice))
    (c : Pool StdioOp (ι ⊕ Nat) (StdioRun (ι ⊕ Nat)) (Option (BackendResult Value))) : Prop where
  /-- whoever has returned has no request under way -/
  returned : ∀ i x id channel, c.task i = .ret x → ¬ Underway i id channel c.shared.log
  /-- a request that was written and has returned has left the map; if its caller gave up, only
  where the lock of the map was free -/
  forgotten : ∀ i id channel, Stood i (.written id channel) c.shared.log →
    ¬ Underway i id channel c.shared.log →
    (Stood i (.givenUp id channel) c.shared.log →
      (stdioMachine (ι ⊕ Nat)).recorded.Meets (LockFree id) schedule start) →
    ∀ p ∈ c.shared.state.pending,
      p.channel ≠ channel ∧ (requests c.shared.log < 2 ^ 63 → p.id ≠ id)
  /-- what is in the map is still under way, was never written, or its caller gave it up while
  another task held the lock: that one is left to the reader task -/
  left : ∀ p ∈ c.shared.state.pending, ∃ i, ⟨i, p.id, p.channel⟩ ∈ registered c.shared.log ∧
    (Stood i (.written p.id p.channel) c.shared.log → Underway i p.id p.channel c.shared.log ∨
      Stood i (.givenUp p.id p.channel) c.shared.log ∧
        ¬ (stdioMachine (ι ⊕ Nat)).recorded.Meets (LockFree p.id) schedule start)
  /-- which empties the map when the output of its child has ended -/
  drained : ∀ i child error log, c.shared.log = ⟨i, .drain child error, ()⟩ :: log →
    c.shared.state.pending = []
  /-- a request that is waited for is in the map until its outcome is sent -/
  waiting : ∀ i id channel, lastRequest i c.shared.log = .written id channel →
    ((∃ p ∈ c.shared.state.pending, p.id = id ∧ p.channel = channel) ↔
      c.shared.state.channels channel = .open)

/-- After the reader task has drained the map it is empty. -/
theorem pending_of_drained {schedule : List ((ι ⊕ Nat) × StdioChoice)}
    (hp : (stdioMachine (ι ⊕ Nat)).recorded.play schedule (b.requestPool tasks output) = some c)
    {i : ι ⊕ Nat} {child : Nat} {error : BackendError} {log : StdioHistory (ι ⊕ Nat)}
    (hlog : c.shared.log = ⟨i, .drain child error, ()⟩ :: log) : c.shared.state.pending = [] := by
  have hlast : ∀ i child error log, c.shared.log = ⟨i, .drain child error, ()⟩ :: log →
      c.shared.state.pending = [] := by
    refine Machine.play_induct (M := (stdioMachine (ι ⊕ Nat)).recorded)
      (P := fun c => ∀ i child error log, c.shared.log = ⟨i, .drain child error, ()⟩ :: log →
        c.shared.state.pending = []) (C := fun _ _ _ _ _ => True)
      (fun l c₁ c₂ _ _ hstep i child error log hlog => ?_)
      (fun i child error log hlog => by cases hlog) (Machine.meets_true _ _ _) hp
    obtain ⟨q, hfire, -⟩ := Machine.step_eq_some _ hstep
    obtain ⟨δ, o, k, a, hop, hexec, -⟩ := Machine.fire_eq_some _ hfire
    obtain ⟨hexec, hnew⟩ := Machine.recorded_exec hexec
    rw [hlog] at hnew
    cases hnew
    obtain ⟨-, ht⟩ := Prod.mk.inj (Option.some.inj hexec)
    rw [← ht]
  exact hlast i child error log hlog

/-- A request that is over has a closed channel. -/
theorem closed_of_finished {schedule : List ((ι ⊕ Nat) × StdioChoice)} {i : ι ⊕ Nat}
    (hp : (stdioMachine (ι ⊕ Nat)).recorded.play schedule (b.requestPool tasks output) = some c)
    (hfinished : Finished i id channel c.shared.log)
    (hfree : Stood i (.givenUp id channel) c.shared.log →
      (stdioMachine (ι ⊕ Nat)).recorded.Meets (LockFree id) schedule (b.requestPool tasks output)) :
    c.shared.state.channels channel ≠ .open := by
  rcases hfinished with hheard | hgivenUp
  · have hholds : MapHolds b output c := Machine.play_induct _ (P := MapHolds b output)
      (C := fun _ _ _ _ _ => True) (fun _ _ _ h _ hstep => h.step hstep) mapHolds_requestPool
      (Machine.meets_true _ _ _) hp
    exact hholds.heard i id channel hheard
  · have hholds := Machine.play_induct _
      (P := fun c => MapHolds b output c ∧ GivenUpClosed id c.shared) (fun l c₁ c₂ h hC hstep => ?_)
      ⟨mapHolds_requestPool, fun i channel h => nomatch stood_nil h⟩ (hfree hgivenUp) hp
    · exact hholds.2 i channel hgivenUp
    · obtain ⟨q, hfire, -⟩ := Machine.step_eq_some _ hstep
      obtain ⟨δ, o, k, a, hop, hexec, -⟩ := Machine.fire_eq_some _ hfire
      have hrequests := h.1.requesting.keeps l.1
      rw [hop] at hrequests
      exact ⟨h.1.step hstep,
        h.2.step h.1.channelled h.1.mapped hexec hrequests.1 (hC δ o k hop)⟩

/-- **Requests leave the map when they return**: over every run, a request that was written and
has returned has left the map of pending requests, if its caller did not give up while another
task held the lock, and is left to the reader task if it did; and a request that is waited for is
in the map until its outcome is sent. -/
theorem returned_requests_are_forgotten (b : StdioBackend) (tasks : ι → StdioTask)
    (output : Nat → List String) {schedule : List ((ι ⊕ Nat) × StdioChoice)}
    {c : Pool StdioOp (ι ⊕ Nat) (StdioRun (ι ⊕ Nat)) (Option (BackendResult Value))}
    (hp : (stdioMachine (ι ⊕ Nat)).recorded.play schedule (b.requestPool tasks output) = some c) :
    ForgetsReturned (b.requestPool tasks output) schedule c := by
  have hholds : MapHolds b output c := Machine.play_induct _ (P := MapHolds b output)
    (C := fun _ _ _ _ _ => True) (fun _ _ _ h _ hstep => h.step hstep) mapHolds_requestPool
    (Machine.meets_true _ _ _) hp
  -- the channel of a request that was written and has returned is no entry's
  have hforgotten : ∀ i id channel, Stood i (.written id channel) c.shared.log →
      ¬ Underway i id channel c.shared.log →
      (Stood i (.givenUp id channel) c.shared.log → (stdioMachine (ι ⊕ Nat)).recorded.Meets
        (LockFree id) schedule (b.requestPool tasks output)) →
      ∀ p ∈ c.shared.state.pending, p.channel ≠ channel := by
    rintro i id channel hwritten hreturned hfree p hpending rfl
    have hfinished := (finished_or_underway hholds.requesting.kept hwritten).resolve_right hreturned
    exact closed_of_finished hp hfinished hfree (hholds.mapped.opens p hpending)
  refine {
    returned := fun i x id channel hret hunderway => ?_
    forgotten := fun i id channel hwritten hreturned hfree p hpending =>
      ⟨hforgotten i id channel hwritten hreturned hfree p hpending, fun hfew hid => ?_⟩
    left := fun p hpending => ?_
    drained := fun i child error log hlog => pending_of_drained hp hlog
    waiting := fun i id channel hlast => ?_ }
  · have hkeeps := hholds.requesting.keeps i
    rw [hret] at hkeeps
    have hrest : (lastRequest i c.shared.log).underway = false := hkeeps
    rcases hunderway with h | h <;> rw [h] at hrest <;> cases hrest
  · -- with few requests no two of them have one id
    have hcorrelation : CorrelationHolds b output c :=
      Machine.play_induct _ (P := CorrelationHolds b output) (fun _ _ _ hc hC hs => hc.step hC hs)
        correlationHolds_requestPool (meets_fewRequests hp hfew) hp
    obtain ⟨j, hj⟩ := hholds.channelled.pending p hpending
    have hi := registered_of_stood (x := (id, channel)) hwritten rfl
    have hsame := List.inj_on_of_nodup_map hcorrelation.numbered.distinct hj hi hid
    exact hforgotten i id channel hwritten hreturned hfree p hpending
      (congrArg Registration.channel hsame)
  · obtain ⟨i, hi⟩ := hholds.channelled.pending p hpending
    refine ⟨i, hi, fun hwritten => ?_⟩
    by_contra hleft
    obtain ⟨hreturned, hfree⟩ := not_or.mp hleft
    exact hforgotten i p.id p.channel hwritten hreturned
      (fun hgivenUp => not_not.mp fun hheld => hfree ⟨hgivenUp, hheld⟩) p hpending rfl
  · have hregistered : ⟨i, id, channel⟩ ∈ registered c.shared.log :=
      registered_of_lastRequest (x := (id, channel)) (by rw [hlast]; rfl)
    constructor
    · rintro ⟨p, hpending, -, rfl⟩
      exact hholds.mapped.opens p hpending
    · exact hholds.mapped.waits _ hregistered

end Runs

/-! ## A backend that does not answer -/

/-- One caller connects to a child that never answers, and another one sends a request that times
out. -/
def unanswered (forget : StdioChoice) : List ((Fin 3 ⊕ Nat) × StdioChoice) :=
  List.flatten [turns (.inl 0) (List.replicate 14 {}), turns (.inl 1) (List.replicate 9 {}),
    turns (.inl 1) [{ timeout := true }, forget]]

/-- Where the lock is free, the request leaves the map. -/
theorem timed_out_request_is_forgotten :
    ∃ c, (stdioMachine (Fin 3 ⊕ Nat)).recorded.play (unanswered {})
        (echoStdio.requestPool twoRequests fun _ => []) = some c ∧
      Stood (.inl 1) (.givenUp 1 1) c.shared.log ∧
      ∀ p ∈ c.shared.state.pending, p.id ≠ 1 := by
  have hrun : ((stdioMachine (Fin 3 ⊕ Nat)).recorded.play (unanswered {})
      (echoStdio.requestPool twoRequests fun _ => [])).map (fun c =>
        decide (lastRequest (.inl 1) c.shared.log = .givenUp 1 1 ∧
          lastRequest (.inl 1) (c.shared.log.drop 2) = .written 1 1 ∧
          requests c.shared.log < 2 ^ 63)) = some true := by
    decide +kernel
  obtain ⟨c, hc, hend⟩ := Option.map_eq_some_iff.mp hrun
  obtain ⟨hgivenUp, hwritten, hfew⟩ := of_decide_eq_true hend
  have hfree : (stdioMachine (Fin 3 ⊕ Nat)).recorded.Meets (LockFree 1) (unanswered {})
      (echoStdio.requestPool twoRequests fun _ => []) := by
    decide +kernel
  have hreturned : ¬ Underway (.inl 1) 1 1 c.shared.log := by
    rw [Underway, hgivenUp]
    exact nofun
  have hforgets := returned_requests_are_forgotten echoStdio twoRequests (fun _ => []) hc
  exact ⟨c, hc, ⟨_, List.suffix_refl _, hgivenUp⟩, fun p hp =>
    (hforgets.forgotten (.inl 1) 1 1 ⟨_, List.drop_suffix 2 _, hwritten⟩ hreturned
      (fun _ => hfree) p hp).2 hfew⟩

/-- Where another task holds the lock, the request has returned and is still in the map. -/
theorem timed_out_request_is_left :
    ∃ c, (stdioMachine (Fin 3 ⊕ Nat)).recorded.play (unanswered { contended := true })
        (echoStdio.requestPool twoRequests fun _ => []) = some c ∧
      (c.task (.inl 1)).result.isSome ∧ ⟨.inl 1, 1, 1⟩ ∈ registered c.shared.log ∧
      ∃ p ∈ c.shared.state.pending, p.id = 1 ∧ p.channel = 1 := by
  have hrun : ((stdioMachine (Fin 3 ⊕ Nat)).recorded.play (unanswered { contended := true })
      (echoStdio.requestPool twoRequests fun _ => [])).map (fun c =>
        decide ((c.task (.inl 1)).result.isSome ∧
          (∃ r ∈ registered c.shared.log, r.caller = .inl 1 ∧ r.id = 1 ∧ r.channel = 1) ∧
          ∃ p ∈ c.shared.state.pending, p.id = 1 ∧ p.channel = 1)) = some true := by
    decide +kernel
  obtain ⟨c, hc, hend⟩ := Option.map_eq_some_iff.mp hrun
  obtain ⟨hreturned, ⟨r, hr, hcaller, hid, hchannel⟩, hleft⟩ := of_decide_eq_true hend
  refine ⟨c, hc, hreturned, ?_, hleft⟩
  obtain ⟨caller, id, channel⟩ := r
  cases hcaller
  cases hid
  cases hchannel
  exact hr

end HeadlessMcp
