import HeadlessMcp.Async.Deadlock
import HeadlessMcp.Session.Resources
import HeadlessMcp.Transport.Delivery

/-!
# Shutdown

When stdin ends, `run` aborts the forwarders whose handles it holds, and the writer ends when the
last sender is gone. A request for a stream whose id is that of an open stream replaces the
handle of that stream, so nothing aborts its forwarder any more, and it keeps its sender: the
writer waits for ever. `run` ends well only if no request does that, and otherwise it is never
stuck (`run_ends`).
-/

namespace HeadlessMcp

open Async

namespace StdioTransport

/-! ## Reused ids -/

/-- The message of a line, if it has one. -/
def lineMessage (serde : Serde) : Option String → Option JsonRpcMessage
  | none => none
  | some line => if isBlank line then none else (decodeMessage serde line).toOption

/-- The key of the stream that a message opens. A request that is refused opens none. -/
def openedKey : JsonRpcMessage → Option String
  | .request id method params =>
    if method = "subscriptions/listen" then
      ((Session.listen id params (.fromParams params) 0).toOption).map fun _ => streamKey id
    else none
  | _ => none

/-- The keys of the open streams after a message. A stream that is cancelled is not open any more,
and its key is free. -/
def openAfter (keys : List String) (m : JsonRpcMessage) : List String :=
  keys.filter (some · ≠ cancelledKey m) ++ (openedKey m).toList

/-- No message opens a stream under the key of an open one. It is a property of the lines alone,
and can be checked before the run. -/
def ReusesNone (keys : List String) : List JsonRpcMessage → Prop
  | [] => True
  | m :: ms => (∀ key, openedKey m = some key → key ∉ keys) ∧ ReusesNone (openAfter keys m) ms

/-! ## Handles -/

/-- The handles that the loop holds: each is that of a forwarder which it has not aborted, and
none is held twice. -/
structure Registered (streams : Entries Nat) (aborts : List Bool) : Prop where
  unique : streams.keys.Nodup
  running : ∀ key handle, streams.get key = some handle → aborts[handle]? = some false
  injective : ∀ key key' handle, streams.get key = some handle → streams.get key' = some handle →
    key = key'

/-- The loop holds the handle of every forwarder that it has not aborted. A forwarder that it has
lost is neither aborted nor waited for. -/
def Tracked (streams : Entries Nat) (aborts : List Bool) : Prop :=
  ∀ handle : Nat, aborts[handle]? = some false → ∃ key, streams.get key = some handle

section Handles

variable {streams : Entries Nat} {aborts : List Bool} {key : String} {handle : Nat}

/-- A new forwarder under a key. Its handle is the number of forwarders started so far, so it is
no other's, and only the key itself changes its owner. -/
theorem Registered.insert (h : Registered streams aborts) (key : String) :
    Registered (streams.insert key aborts.length) (aborts ++ [false]) := by
  have hold : ∀ {key handle}, streams.get key = some handle → handle < aborts.length := by
    intro key handle hget
    exact (List.getElem?_eq_some_iff.mp (h.running key handle hget)).1
  refine ⟨Entries.nodup_keys_insert h.unique, fun k handle hk => ?_, fun k k' handle hk hk' => ?_⟩
  · by_cases heq : k = key
    · rw [heq, Entries.get_insert_self] at hk
      obtain rfl := Option.some.inj hk
      exact List.getElem?_concat_length
    · rw [Entries.get_insert_ne heq] at hk
      rw [List.getElem?_append_left (hold hk)]
      exact h.running k handle hk
  · -- two keys with one handle: it is the new one for both or for neither
    by_cases heq : k = key <;> by_cases heq' : k' = key
    · rw [heq, heq']
    · rw [heq, Entries.get_insert_self] at hk
      rw [Entries.get_insert_ne heq'] at hk'
      have := hold hk'
      have := Option.some.inj hk
      omega
    · rw [heq', Entries.get_insert_self] at hk'
      rw [Entries.get_insert_ne heq] at hk
      have := hold hk
      have := Option.some.inj hk'
      omega
    · rw [Entries.get_insert_ne heq] at hk
      rw [Entries.get_insert_ne heq'] at hk'
      exact h.injective k k' handle hk hk'

/-- A new forwarder leaves a handle behind if there was one under its key. -/
theorem Registered.tracked_insert (h : Registered streams aborts) :
    Tracked (streams.insert key aborts.length) (aborts ++ [false]) ↔
      Tracked streams aborts ∧ key ∉ streams.keys := by
  have hold : ∀ {handle}, aborts[handle]? = some false → handle < aborts.length :=
    fun hget => (List.getElem?_eq_some_iff.mp hget).1
  constructor
  · intro ht
    have hnew : ∀ handle, aborts[handle]? = some false → ∃ k, k ≠ key ∧
        streams.get k = some handle := by
      intro handle hrunning
      obtain ⟨k, hk⟩ := ht handle (by rwa [List.getElem?_append_left (hold hrunning)])
      by_cases heq : k = key
      · rw [heq, Entries.get_insert_self] at hk
        have := hold hrunning
        have := Option.some.inj hk
        omega
      · exact ⟨k, heq, by rwa [Entries.get_insert_ne heq] at hk⟩
    refine ⟨fun handle hrunning => ?_, fun hmem => ?_⟩
    · obtain ⟨k, -, hk⟩ := hnew handle hrunning
      exact ⟨k, hk⟩
    · -- the forwarder that was replaced is still running
      obtain ⟨handle, hget⟩ :=
        Option.isSome_iff_exists.mp (Entries.containsKey_iff_mem_keys.mpr hmem)
      obtain ⟨k, hne, hk⟩ := hnew handle (h.running key handle hget)
      exact hne (h.injective k key handle hk hget)
  · rintro ⟨ht, hkey⟩ handle hrunning
    by_cases hlt : handle < aborts.length
    · rw [List.getElem?_append_left hlt] at hrunning
      obtain ⟨k, hk⟩ := ht handle hrunning
      have hne : k ≠ key := by
        rintro rfl
        exact hkey (Entries.containsKey_iff_mem_keys.mp (by rw [Entries.containsKey, hk]; rfl))
      exact ⟨k, by rwa [Entries.get_insert_ne hne]⟩
    · have hlt' := (List.getElem?_eq_some_iff.mp hrunning).1
      rw [List.length_append, List.length_singleton] at hlt'
      obtain rfl : handle = aborts.length := by omega
      exact ⟨key, Entries.get_insert_self ..⟩

theorem get_filter_eq_some {k : String} :
    Entries.get (streams.filter (·.1 ≠ key)) k = some handle ↔
      k ≠ key ∧ streams.get k = some handle := by
  by_cases heq : k = key
  · subst heq
    have hnone : Entries.get (streams.filter (·.1 ≠ k)) k = none := by
      rw [Entries.get_eq_none_iff, Entries.keys]
      simp
    rw [hnone]
    exact iff_of_false (fun h => by cases h) fun hk => hk.1 rfl
  · rw [Entries.get_filter_ne heq]
    exact (and_iff_right heq).symm

/-- A forwarder is aborted, and its handle forgotten. -/
theorem Registered.cancel (h : Registered streams aborts) (hget : streams.get key = some handle) :
    Registered (streams.filter (·.1 ≠ key)) (aborts.set handle true) := by
  refine ⟨?_, fun k handle' hk => ?_, fun k k' handle' hk hk' => ?_⟩
  · exact h.unique.sublist (List.filter_sublist.map _)
  · obtain ⟨hne, hk⟩ := get_filter_eq_some.mp hk
    have hother : handle ≠ handle' := by
      rintro rfl
      exact hne (h.injective k key handle hk hget)
    rw [List.getElem?_set_ne hother]
    exact h.running k handle' hk
  · exact h.injective k k' handle' (get_filter_eq_some.mp hk).2 (get_filter_eq_some.mp hk').2

/-- Nothing is left behind by that. The handle taken out of the map is the one that is aborted. -/
theorem Registered.tracked_cancel (h : Registered streams aborts)
    (hget : streams.get key = some handle) :
    Tracked (streams.filter (·.1 ≠ key)) (aborts.set handle true) ↔ Tracked streams aborts := by
  constructor
  · intro ht handle' hrunning
    -- it was the cancelled one, or somebody else's
    by_cases heq : handle = handle'
    · exact ⟨key, heq ▸ hget⟩
    · obtain ⟨k, hk⟩ := ht handle' (by rwa [List.getElem?_set_ne heq])
      exact ⟨k, (get_filter_eq_some.mp hk).2⟩
  · intro ht handle' hrunning
    by_cases heq : handle = handle'
    · subst heq
      have hlt := (List.getElem?_eq_some_iff.mp (h.running key handle hget)).1
      -- a cancelled forwarder is not running any more
      rw [List.getElem?_set_self hlt] at hrunning
      cases hrunning
    · rw [List.getElem?_set_ne heq] at hrunning
      obtain ⟨k, hk⟩ := ht handle' hrunning
      refine ⟨k, get_filter_eq_some.mpr ⟨?_, hk⟩⟩
      rintro rfl
      exact heq (Option.some.inj (hget.symm.trans hk))

end Handles

/-! ## Aborts -/

/-- Which forwarders have been aborted. -/
def aborts (t : TransportWorld) : List Bool := t.forwarders.map (·.aborted)

/-- What an operation does to them. -/
def abortsAfter {β : Type} : TransportOp β → List Bool → List Bool
  | .forward _, aborts => aborts ++ [false]
  | .abort handle, aborts => aborts.set handle true
  | _, aborts => aborts

/-- The writer is there until it fails, and a forwarder stops only when it was aborted or cannot
send any more. -/
structure Sound (t : TransportWorld) : Prop where
  closed : t.out.closed = true ↔ t.failed ≠ none
  stopped : ∀ fwd ∈ t.forwarders, fwd.stopped = true → fwd.aborted = true ∨ t.out.closed = true

section Steps

variable {s t : TransportWorld}

theorem aborts_modify {handle : Nat} {f : Forwarder → Forwarder}
    (hf : ∀ fwd, (f fwd).aborted = fwd.aborted) :
    aborts (s.modifyForwarder handle f) = aborts s := by
  refine List.ext_getElem? fun k => ?_
  rw [aborts, aborts, TransportWorld.modifyForwarder, List.getElem?_map, List.getElem?_map,
    List.getElem?_modify]
  rcases s.forwarders[k]? with _ | fwd
  · rfl
  · by_cases heq : handle = k
    · simp [heq, hf]
    · simp [heq]

/-- Nothing aborts a forwarder but the loop. The session, the writer and the forwarders themselves
leave the flags as they are. -/
theorem aborts_move {move : Move} (h : s.move move = some t) : aborts t = aborts s := by
  cases move with
  | session d =>
    obtain rfl := Option.some.inj h
    rfl
  | turn stream =>
    obtain ⟨st, -, h⟩ := Option.bind_eq_some_iff.mp h
    obtain ⟨st', -, h⟩ := Option.bind_eq_some_iff.mp h
    obtain rfl := Option.some.inj h
    rfl
  | forward handle =>
    obtain ⟨fwd, -, h⟩ := Option.bind_eq_some_iff.mp h
    rw [TransportWorld.forwardOne] at h
    split_ifs at h
    obtain ⟨m, -, rfl⟩ := Option.map_eq_some_iff.mp h
    apply aborts_modify
    exact fun _ => rfl
  | stop handle =>
    obtain ⟨fwd, -, h⟩ := Option.bind_eq_some_iff.mp h
    split_ifs at h
    obtain rfl := Option.some.inj h
    apply aborts_modify
    exact fun _ => rfl
  | write =>
    obtain ⟨out, -, rfl⟩ := Option.map_eq_some_iff.mp h
    rfl
  | fail reason =>
    simp only [TransportWorld.move] at h
    split_ifs at h
    obtain rfl := Option.some.inj h
    rfl

theorem Sound.move {move : Move} (hs : Sound s) (h : s.move move = some t) : Sound t := by
  cases move with
  | session d =>
    obtain rfl := Option.some.inj h
    exact ⟨hs.closed, hs.stopped⟩
  | turn stream =>
    obtain ⟨st, -, h⟩ := Option.bind_eq_some_iff.mp h
    obtain ⟨st', -, h⟩ := Option.bind_eq_some_iff.mp h
    obtain rfl := Option.some.inj h
    exact ⟨hs.closed, hs.stopped⟩
  | forward handle =>
    obtain ⟨fwd, -, h⟩ := Option.bind_eq_some_iff.mp h
    rw [TransportWorld.forwardOne] at h
    split_ifs at h
    obtain ⟨m, -, rfl⟩ := Option.map_eq_some_iff.mp h
    refine ⟨by rw [Mpsc.send_closed]; exact hs.closed, fun fwd' hfwd' hstopped => ?_⟩
    rw [Mpsc.send_closed]
    obtain ⟨k, hk⟩ := List.mem_iff_getElem?.mp hfwd'
    rw [TransportWorld.modifyForwarder, List.getElem?_modify] at hk
    obtain ⟨old, hold, rfl⟩ := Option.map_eq_some_iff.mp hk
    -- one that had stopped before, or the one that sends
    split at hstopped
    · exact .inr hstopped
    · rename_i hne
      rw [if_neg hne]
      exact hs.stopped old (List.mem_of_getElem? hold) hstopped
  | stop handle =>
    obtain ⟨fwd, hfwd, h⟩ := Option.bind_eq_some_iff.mp h
    split_ifs at h with haborted
    obtain rfl := Option.some.inj h
    refine ⟨hs.closed, fun fwd' hfwd' hstopped => ?_⟩
    obtain ⟨k, hk⟩ := List.mem_iff_getElem?.mp hfwd'
    rw [TransportWorld.modifyForwarder, List.getElem?_modify] at hk
    obtain ⟨old, hold, rfl⟩ := Option.map_eq_some_iff.mp hk
    -- it stops because it was aborted
    split
    · rename_i heq
      subst heq
      obtain rfl := Option.some.inj (hfwd.symm.trans hold)
      exact .inl haborted
    · rename_i hne
      rw [if_neg hne] at hstopped
      exact hs.stopped old (List.mem_of_getElem? hold) hstopped
  | write =>
    obtain ⟨out, hrecv, rfl⟩ := Option.map_eq_some_iff.mp h
    obtain ⟨-, hclosed, -, -, hclosed'⟩ := Mpsc.recv_eq_some hrecv
    refine ⟨?_, fun fwd hfwd hstopped => ?_⟩
    · rw [hclosed', ← hclosed]
      exact hs.closed
    · rw [hclosed', ← hclosed]
      exact hs.stopped fwd hfwd hstopped
  -- a writer that fails closes the queue
  | fail reason =>
    simp only [TransportWorld.move] at h
    split_ifs at h
    obtain rfl := Option.some.inj h
    exact ⟨iff_of_true rfl (fun h => by cases h), fun _ _ _ => .inr rfl⟩

theorem Sound.moveAll {moves : List Move} (hs : Sound s) (h : s.moveAll moves = some t) :
    Sound t ∧ aborts t = aborts s := by
  induction moves generalizing s with
  | nil =>
    obtain rfl := Option.some.inj h
    exact ⟨hs, rfl⟩
  | cons move moves ih =>
    obtain ⟨s', hmove, hmoves⟩ := Option.bind_eq_some_iff.mp h
    have hend := ih (hs.move hmove) hmoves
    exact ⟨hend.1, hend.2.trans (aborts_move hmove)⟩

/-- What an operation of the loop does to the forwarders. -/
theorem Sound.exec {β : Type} {o : TransportOp β} {e : TransportChoice} {b : β} (hs : Sound s)
    (h : transportMachine.exec () β o e s = some (b, t)) :
    Sound t ∧ aborts t = abortsAfter o (aborts s) := by
  obtain ⟨s', hmoves, h⟩ := Option.bind_eq_some_iff.mp h
  obtain ⟨hs, haborts⟩ := hs.moveAll hmoves
  rw [← haborts]
  cases o with
  | dispatch o =>
    obtain ⟨⟨_, d⟩, -, heq⟩ := Option.map_eq_some_iff.mp h
    obtain ⟨-, rfl⟩ := Prod.mk.inj heq
    exact ⟨⟨hs.closed, hs.stopped⟩, rfl⟩
  | send m =>
    obtain ⟨-, rfl⟩ := Prod.mk.inj (Option.some.inj h)
    refine ⟨⟨?_, ?_⟩, rfl⟩
    · rw [Mpsc.send_closed]
      exact hs.closed
    · rw [Mpsc.send_closed]
      exact hs.stopped
  | forward stream =>
    obtain ⟨-, rfl⟩ := Prod.mk.inj (Option.some.inj h)
    -- the new forwarder is running
    refine ⟨⟨hs.closed, fun fwd hfwd hstopped => ?_⟩, List.map_append⟩
    -- the older forwarders, and the new one
    rcases List.mem_append.mp hfwd with hfwd | hfwd
    · exact hs.stopped fwd hfwd hstopped
    · obtain rfl := List.mem_singleton.mp hfwd
      cases hstopped
  | abort handle =>
    obtain ⟨-, rfl⟩ := Prod.mk.inj (Option.some.inj h)
    refine ⟨⟨hs.closed, fun fwd hfwd hstopped => ?_⟩, ?_⟩
    · obtain ⟨k, hk⟩ := List.mem_iff_getElem?.mp hfwd
      rw [TransportWorld.modifyForwarder, List.getElem?_modify] at hk
      obtain ⟨old, hold, rfl⟩ := Option.map_eq_some_iff.mp hk
      -- the aborted one may stop from now on
      split
      · exact .inl rfl
      · rename_i hne
        rw [if_neg hne] at hstopped
        exact hs.stopped old (List.mem_of_getElem? hold) hstopped
    · refine List.ext_getElem? fun k => ?_
      simp only [aborts, abortsAfter, TransportWorld.modifyForwarder, List.getElem?_map,
        List.getElem?_modify, List.getElem?_set, List.length_map]
      by_cases heq : handle = k
      · subst heq
        by_cases hlt : handle < s'.forwarders.length
        · simp [hlt]
        · simp [hlt]
      · simp [heq]
  | join handle =>
    -- the loop waits until the forwarder has stopped
    simp only [TransportWorld.perform] at h
    split_ifs at h
    obtain ⟨-, rfl⟩ := Prod.mk.inj (Option.some.inj h)
    exact ⟨hs, rfl⟩
  | finish =>
    simp only [TransportWorld.perform] at h
    -- the writer ends with an error, or when every sender is gone
    split at h
    · obtain ⟨-, rfl⟩ := Prod.mk.inj (Option.some.inj h)
      exact ⟨hs, rfl⟩
    · split_ifs at h
      obtain ⟨-, rfl⟩ := Prod.mk.inj (Option.some.inj h)
      exact ⟨hs, rfl⟩

/-- A new forwarder gets the next handle. -/
theorem forward_handle {stream : Nat} {e : TransportChoice} {handle : Nat} (hs : Sound s)
    (h : transportMachine.exec () _ (.forward stream) e s = some (handle, t)) :
    handle = (aborts s).length := by
  obtain ⟨s', hmoves, h⟩ := Option.bind_eq_some_iff.mp h
  obtain ⟨rfl, -⟩ := Prod.mk.inj (Option.some.inj h)
  rw [← (hs.moveAll hmoves).2, aborts, List.length_map]

end Steps

/-! ## The loop -/

section Loop

variable {serde : Serde} {prettyText serdeText : Value → String} {s t : TransportWorld}
  {streams : Entries Nat} {keys : List String}

/-- The key of the stream that is replied. -/
def replyKey : Option SessionReply → Option String
  | some (.stream id _) => some (streamKey id)
  | _ => none

/-- A stream is the reply exactly to what opens one. -/
theorem openedKey_eq {m : JsonRpcMessage} {l : List (Turn DispatchOp)}
    {reply : Option SessionReply}
    (h : (Session.handleStreaming prettyText serdeText m).Performs l (.done reply)) :
    openedKey m = replyKey reply := by
  cases m with
  | request id method params =>
    rw [openedKey]
    rw [Session.handleStreaming] at h
    split_ifs at h ⊢
    · -- a listening request
      generalize Session.listen id params (.fromParams params) 0 = opened at h ⊢
      rcases opened with err | st
      · obtain rfl := Outcome.done.inj h.2
        rfl
      · obtain ⟨number, rest, -, hend⟩ := h
        obtain rfl := Outcome.done.inj hend.2
        rfl
    · -- every other request is answered at once
      obtain ⟨_, response, rest, -, -, hend⟩ := Prog.Performs.of_bind_done h
      obtain rfl := Outcome.done.inj hend.2
      rfl
  | _ =>
    obtain rfl := Outcome.done.inj h.2
    rfl

/-- The loop holds the handles of the streams with these keys. -/
structure Holds (keys : List String) (streams : Entries Nat) (t : TransportWorld) : Prop where
  sound : Sound t
  registered : Registered streams (aborts t)
  names : ∀ key, key ∈ keys ↔ key ∈ streams.keys

/-- The loop holds the handles of the streams with these keys, and of all running forwarders
exactly when `P`. -/
def Ends (keys : List String) (P : Prop) : Outcome (Entries Nat) → TransportWorld → Prop
  | .done streams, t => Holds keys streams t ∧ (Tracked streams (aborts t) ↔ P)
  | .panicked, _ => True

/-- A cancellation leaves nothing behind. -/
theorem wp_cancel_holds {m : JsonRpcMessage} (h : Holds keys streams s) :
    transportMachine.wp () (cancel streams m)
      (Ends (keys.filter (some · ≠ cancelledKey m)) (Tracked streams (aborts s))) s := by
  rw [cancel]
  -- the message cancels nothing
  split
  · rename_i hcancelled
    refine ⟨⟨h.sound, h.registered, fun key => ?_⟩, Iff.rfl⟩
    rw [hcancelled, List.mem_filter]
    simpa using h.names key
  · rename_i key hcancelled
    -- nothing is open under the key
    split
    · rename_i hget
      refine ⟨⟨h.sound, h.registered, fun key' => ?_⟩, Iff.rfl⟩
      rw [hcancelled, List.mem_filter]
      have hnot := Entries.get_eq_none_iff.mp hget
      have hnames := h.names key'
      constructor
      · exact fun hmem => hnames.mp hmem.1
      · refine fun hmem => ⟨hnames.mpr hmem, ?_⟩
        simp only [ne_eq, Option.some.injEq, decide_eq_true_eq]
        rintro rfl
        exact hnot hmem
    · -- a forwarder is running under the key
      rename_i handle hget
      intro e b t he
      obtain ⟨hsound, haborts⟩ := h.sound.exec he
      refine ⟨⟨hsound, ?_, fun key' => ?_⟩, ?_⟩
      · rw [haborts]
        exact h.registered.cancel hget
      · rw [hcancelled, List.mem_filter, h.names key', Entries.keys, Entries.keys]
        simp only [List.mem_map, List.mem_filter, ne_eq, Option.some.injEq, decide_eq_true_eq]
        constructor
        · rintro ⟨⟨entry, hentry, rfl⟩, hne⟩
          exact ⟨entry, ⟨hentry, hne⟩, rfl⟩
        · rintro ⟨entry, ⟨hentry, hne⟩, rfl⟩
          exact ⟨⟨entry, hentry, rfl⟩, hne⟩
      · rw [haborts]
        exact h.registered.tracked_cancel hget

/-- What the session does leaves the forwarders alone. -/
theorem wp_dispatchDo_aborts {α : Type} {p : Prog DispatchOp α} (h : Sound s) :
    transportMachine.wp () (dispatchDo p)
      (fun x t => (∃ l, p.Performs l x) ∧ Sound t ∧ aborts t = aborts s) s := by
  let A {δ : Type} (o : TransportOp δ) : Prop := ∀ aborts, abortsAfter o aborts = aborts
  have hop {δ : Type} (o : DispatchOp δ) : A (TransportOp.dispatch o) := fun _ => rfl
  have huses : (dispatchDo p).Uses A := Prog.uses_lift hop p
  have hperforms : ∀ l x, (dispatchDo p).Performs l x → ∃ l, p.Performs l x := by
    intro l x hl
    obtain ⟨l', -, hl'⟩ := hl.of_lift
    exact ⟨l', hl'⟩
  refine Machine.wp_of_performs (J := fun t => Sound t ∧ aborts t = aborts s) huses hperforms
    (fun δ o e u b t ho hu he => ?_) ⟨h, rfl⟩
  obtain ⟨hsound, haborts⟩ := hu.1.exec he
  exact ⟨hsound, haborts.trans ((ho _).trans hu.2)⟩

/-- What opens no stream adds no handle. -/
theorem Holds.unopened {m : JsonRpcMessage} (hopened : openedKey m = none)
    (h : Holds (keys.filter (some · ≠ cancelledKey m)) streams t) :
    Ends (openAfter keys m)
      (Tracked streams (aborts t) ∧ ∀ key, openedKey m = some key → key ∉ keys)
      (.done streams) t := by
  have hnew : ∀ key, openedKey m = some key → key ∉ keys := by
    intro key hkey
    rw [hopened] at hkey
    cases hkey
  refine ⟨?_, (and_iff_left hnew).symm⟩
  rw [openAfter, hopened, Option.toList_none, List.append_nil]
  exact h

/-- What opens a stream cancels none. -/
theorem cancelledKey_of_opened {m : JsonRpcMessage} {key : String} (h : openedKey m = some key) :
    cancelledKey m = none := by
  cases m with
  | request => rfl
  | _ => cases h

/-- What opens a stream adds a handle, and leaves one behind if its key is in use. The handle of
the open one is overwritten in the map, and nothing else in the loop knows it. -/
theorem Holds.opened {m : JsonRpcMessage} {key : String} (hopened : openedKey m = some key)
    (h : Holds (keys.filter (some · ≠ cancelledKey m)) streams s) (hsound : Sound t)
    (haborts : aborts t = aborts s ++ [false]) :
    Ends (openAfter keys m)
      (Tracked streams (aborts s) ∧ ∀ key, openedKey m = some key → key ∉ keys)
      (.done (streams.insert key (aborts s).length)) t := by
  have hkeys : keys.filter (some · ≠ cancelledKey m) = keys := by
    rw [cancelledKey_of_opened hopened]
    simp
  rw [hkeys] at h
  refine ⟨⟨hsound, ?_, fun key' => ?_⟩, ?_⟩
  · rw [haborts]
    exact h.registered.insert key
  · rw [openAfter, hkeys, hopened, Option.toList_some, List.mem_append, List.mem_singleton,
      Entries.mem_keys_insert, h.names key']
    exact or_comm
  · rw [haborts, h.registered.tracked_insert, ← h.names key]
    -- what was open under the key is the handle that gets lost
    refine and_congr_right fun _ => ⟨fun hnot key' hkey' => ?_, fun hnew => hnew key hopened⟩
    obtain rfl := Option.some.inj (hopened.symm.trans hkey')
    exact hnot

/-- A message leaves a handle behind if it opens a stream under the key of an open one. -/
theorem wp_serveMessage_holds {m : JsonRpcMessage} (h : Holds keys streams s) :
    transportMachine.wp () (serveMessage prettyText serdeText streams m)
      (Ends (openAfter keys m)
        (Tracked streams (aborts s) ∧ ∀ key, openedKey m = some key → key ∉ keys)) s := by
  rw [serveMessage, Prog.bind_eq, Machine.wp_bind]
  -- the cancellation comes before the message is handled
  refine Machine.wp_mono _ (wp_cancel_holds (m := m) h) fun x t ht => ?_
  rcases x with streams' | _
  · obtain ⟨ht, htracked⟩ := ht
    simp only [Machine.andThen, Prog.bind_eq]
    rw [Machine.wp_bind]
    refine Machine.wp_mono _ (wp_dispatchDo_aborts ht.sound) fun x u hu => ?_
    obtain ⟨⟨l, hl⟩, hsound, haborts⟩ := hu
    rcases x with reply | _
    · have hopened := openedKey_eq hl
      have hu : Holds (keys.filter (some · ≠ cancelledKey m)) streams' u :=
        ⟨hsound, haborts ▸ ht.registered, ht.names⟩
      have hsame : Tracked streams' (aborts u) ↔ Tracked streams (aborts s) := by
        rw [haborts]
        exact htracked
      rw [← hsame]
      -- no reply, a reply, or a stream
      rcases reply with _ | ⟨reply⟩ | ⟨id, number⟩
      · exact hu.unopened hopened
      · intro e b v he
        obtain ⟨hsent, hkept⟩ := hu.sound.exec he
        rw [show aborts u = aborts v from hkept.symm]
        exact Holds.unopened hopened ⟨hsent, hkept ▸ hu.registered, hu.names⟩
      · intro e handle v he
        obtain ⟨hsent, hkept⟩ := hu.sound.exec he
        rw [forward_handle hu.sound he]
        exact hu.opened hopened hsent hkept
    · trivial
  · trivial

/-- A line does what its message does. -/
theorem wp_serveLine_holds {line : Option String} (h : Holds keys streams s) :
    transportMachine.wp () (serveLine serde prettyText serdeText streams line)
      (match lineMessage serde line with
        | none => Ends keys (Tracked streams (aborts s))
        | some m => Ends (openAfter keys m)
            (Tracked streams (aborts s) ∧ ∀ key, openedKey m = some key → key ∉ keys)) s := by
  -- a line that cannot be read, a blank line, and a line with a message or without
  rcases line with _ | line
  · exact ⟨h, Iff.rfl⟩
  rw [serveLine, lineMessage]
  by_cases hblank : isBlank line = true
  · rw [if_pos hblank, if_pos hblank]
    exact ⟨h, Iff.rfl⟩
  · rw [if_neg hblank, if_neg hblank]
    rcases decodeMessage serde line with err | m
    · intro e b t he
      obtain ⟨hsound, haborts⟩ := h.sound.exec he
      have haborts : aborts t = aborts s := haborts
      exact ⟨⟨hsound, haborts ▸ h.registered, h.names⟩, by rw [haborts]⟩
    · exact wp_serveMessage_holds h

/-- **The loop loses a handle exactly when a message reuses the id of an open stream.** -/
theorem wp_serveLines_holds {lines : List (Option String)} (h : Holds keys streams s) :
    transportMachine.wp () (serveLines serde prettyText serdeText streams lines)
      (fun x t => ∀ streams', x = .done streams' → Sound t ∧ Registered streams' (aborts t) ∧
        (Tracked streams' (aborts t) ↔ Tracked streams (aborts s) ∧
          ReusesNone keys (lines.filterMap (lineMessage serde)))) s := by
  -- by induction on the lines; the map carries the handles that are still known
  induction lines generalizing keys streams s with
  | nil =>
    intro streams' hdone
    obtain rfl := Outcome.done.inj hdone
    exact ⟨h.sound, h.registered, (and_iff_left trivial).symm⟩
  | cons line lines ih =>
    rw [serveLines, Prog.bind_eq, Machine.wp_bind, List.filterMap_cons]
    refine Machine.wp_mono _ (wp_serveLine_holds h) fun x t ht => ?_
    rcases x with streams₁ | _
    · -- a line without a message leaves the map as it is
      generalize lineMessage serde line = message at ht ⊢
      rcases message with _ | m
      · obtain ⟨ht, htracked⟩ := ht
        refine Machine.wp_mono _ (ih ht) fun x u hu streams' hdone => ?_
        obtain ⟨hsound, hregistered, hiff⟩ := hu streams' hdone
        exact ⟨hsound, hregistered, hiff.trans (and_congr_left' htracked)⟩
      · -- a message may lose a handle here, or one of the later lines may
        obtain ⟨ht, htracked⟩ := ht
        refine Machine.wp_mono _ (ih ht) fun x u hu streams' hdone => ?_
        obtain ⟨hsound, hregistered, hiff⟩ := hu streams' hdone
        exact ⟨hsound, hregistered, (hiff.trans (and_congr_left' htracked)).trans and_assoc⟩
    · intro _ hdone
      cases hdone

end Loop

/-! ## The end -/

section Finish

variable {serde : Serde} {prettyText serdeText : Value → String} {s t : TransportWorld}
  {streams : Entries Nat}

/-- Forwarders are aborted. -/
def abortThese (handles : List Nat) (aborts : List Bool) : List Bool :=
  handles.foldl (fun aborts handle => aborts.set handle true) aborts

/-- What is still running is what was running and is not among them. -/
theorem abortThese_running {handles : List Nat} {aborts : List Bool} {handle : Nat} :
    (abortThese handles aborts)[handle]? = some false ↔
      aborts[handle]? = some false ∧ handle ∉ handles := by
  induction handles generalizing aborts with
  | nil => simp [abortThese]
  | cons other handles ih =>
    rw [abortThese, List.foldl_cons, ← abortThese, ih, List.mem_cons, not_or, ← and_assoc]
    refine and_congr_left' ?_
    rw [List.getElem?_set]
    by_cases heq : other = handle
    · subst heq
      simp only [if_true, not_true, and_false, iff_false]
      split_ifs <;> nofun
    · simp [heq, Ne.symm heq]

/-- When the loop has aborted what it holds, nothing runs exactly when it held everything. -/
theorem abortThese_eq (hunique : streams.keys.Nodup) {aborts : List Bool} :
    false ∉ abortThese (streams.map Prod.snd) aborts ↔ Tracked streams aborts := by
  have hheld : ∀ handle, handle ∈ streams.map Prod.snd ↔ ∃ key, streams.get key = some handle := by
    intro handle
    constructor
    · intro hmem
      obtain ⟨entry, hentry, rfl⟩ := List.mem_map.mp hmem
      exact ⟨entry.1, Entries.get_of_mem hunique hentry⟩
    · rintro ⟨key, hget⟩
      exact List.mem_map.mpr ⟨_, Entries.mem_of_get hget, rfl⟩
  rw [List.mem_iff_getElem?, not_exists]
  refine forall_congr' fun handle => ?_
  rw [abortThese_running, hheld, not_and, not_not]

theorem wp_abortAll_aborts (handles : List Nat) (h : Sound s) :
    transportMachine.wp () (abortAll handles)
      (fun _ t => Sound t ∧ aborts t = abortThese handles (aborts s)) s := by
  induction handles generalizing s with
  | nil => exact ⟨h, rfl⟩
  | cons handle handles ih =>
    intro e b t he
    obtain ⟨hsound, haborts⟩ := h.exec he
    refine Machine.wp_mono _ (ih hsound) fun x u hu => ⟨hu.1, ?_⟩
    rw [hu.2, haborts]
    rfl

theorem wp_joinAll_aborts (handles : List Nat) (h : Sound s) :
    transportMachine.wp () (joinAll handles) (fun _ t => Sound t ∧ aborts t = aborts s) s := by
  induction handles generalizing s with
  | nil => exact ⟨h, rfl⟩
  | cons handle handles ih =>
    intro e b t he
    obtain ⟨hsound, haborts⟩ := h.exec he
    exact Machine.wp_mono _ (ih hsound) fun x u hu => ⟨hu.1, hu.2.trans haborts⟩

/-- The writer ends well only when every forwarder was aborted. -/
theorem finish_aborted {e : TransportChoice} (h : Sound s)
    (he : transportMachine.exec () _ .finish e s = some (.ok (), t)) : false ∉ aborts s := by
  obtain ⟨hsound, haborts⟩ := h.exec he
  obtain ⟨hfailed, -, hstopped⟩ := finish_ok he
  have hopen : t.out.closed ≠ true := fun hclosed => hsound.closed.mp hclosed hfailed
  rw [show aborts s = aborts t from haborts.symm, aborts, List.mem_map]
  rintro ⟨fwd, hfwd, haborted⟩
  rcases hsound.stopped fwd hfwd (hstopped fwd hfwd) with h | h
  · exact Bool.noConfusion (haborted.symm.trans h)
  · exact hopen h

/-! ### Nothing is in the way -/

/-- A forwarder that was aborted can stop. -/
theorem move_stop {handle : Nat} {fwd : Forwarder} (hfwd : s.forwarders[handle]? = some fwd)
    (haborted : fwd.aborted = true) : s.move (.stop handle) =
      some (s.modifyForwarder handle fun f => { f with stopped := true }) := by
  simp only [TransportWorld.move, hfwd, Option.bind_eq_bind, Option.bind_some, haborted, if_true]

theorem moveAll_append {s' t : TransportWorld} {moves moves' : List Move}
    (h : s.moveAll moves = some s') (h' : s'.moveAll moves' = some t) :
    s.moveAll (moves ++ moves') = some t := by
  rw [TransportWorld.moveAll, List.foldlM_append]
  exact Option.bind_eq_some_iff.mpr ⟨s', h, h'⟩

/-- One forwarder after another can stop. -/
theorem exists_stops (haborted : false ∉ aborts s) (n : Nat) :
    ∃ moves t, s.moveAll moves = some t ∧
      (∀ k < n, ∀ fwd, t.forwarders[k]? = some fwd → fwd.stopped = true) ∧
      aborts t = aborts s ∧ t.out = s.out ∧ t.failed = s.failed := by
  induction n with
  | zero => exact ⟨[], s, rfl, nofun, rfl, rfl, rfl⟩
  | succ n ih =>
    obtain ⟨moves, t, hmoves, hstopped, haborts, hout, hfailed⟩ := ih
    -- no such forwarder, so nothing has to stop
    rcases hfwd : t.forwarders[n]? with _ | fwd
    · refine ⟨moves, t, hmoves, fun k hk fwd hget => ?_, haborts, hout, hfailed⟩
      rcases Nat.lt_succ_iff_lt_or_eq.mp hk with hk | rfl
      · exact hstopped k hk fwd hget
      · rw [hfwd] at hget
        cases hget
    · -- an aborted forwarder can always stop
      have hfwdAborted : fwd.aborted = true := by
        rw [← Bool.not_eq_false]
        intro hrunning
        refine haborted ?_
        rw [← haborts, ← hrunning]
        exact List.mem_map_of_mem (List.mem_of_getElem? hfwd)
      have hstop := move_stop hfwd hfwdAborted
      refine ⟨moves ++ [.stop n], t.modifyForwarder n fun f => { f with stopped := true },
        moveAll_append hmoves (Option.bind_eq_some_iff.mpr ⟨_, hstop, rfl⟩),
        fun k hk fwd' hget => ?_, (aborts_move hstop).trans haborts, hout, hfailed⟩
      rw [TransportWorld.modifyForwarder, List.getElem?_modify] at hget
      obtain ⟨old, hold, rfl⟩ := Option.map_eq_some_iff.mp hget
      split
      · rfl
      · rename_i hne
        exact hstopped k (by omega) old hold

/-- The writer can write what waits. -/
theorem exists_writes (hopen : s.out.closed = false) : ∃ moves t, s.moveAll moves = some t ∧
    t.out.queue = [] ∧ t.forwarders = s.forwarders ∧ t.failed = s.failed := by
  generalize hqueue : s.out.queue = queue
  induction queue generalizing s with
  | nil => exact ⟨[], s, rfl, hqueue, rfl, rfl⟩
  | cons m queue ih =>
    have hwrite : s.move .write = some { s with
        out := { s.out with queue := queue, received := s.out.received ++ [m] } } := by
      rw [TransportWorld.move, Mpsc.recv_of_queue hopen hqueue, Option.map_some]
    obtain ⟨moves, t, hmoves, ht⟩ := ih (s := { s with
      out := { s.out with queue := queue, received := s.out.received ++ [m] } }) hopen rfl
    exact ⟨.write :: moves, t, Option.bind_eq_some_iff.mpr ⟨_, hwrite, hmoves⟩, ht⟩

/-- After the moves, the operation. -/
theorem exec_moves {β : Type} {o : TransportOp β} {e : TransportChoice}
    (h : s.moveAll e.moves = some t) :
    transportMachine.exec () β o e s = TransportWorld.perform e.registry β o t :=
  congrArg (Option.bind · _) h

/-- When all forwarders are aborted, the loop can wait for any of them. -/
theorem exists_join (haborted : false ∉ aborts s) (handle : Nat) :
    ∃ e r, transportMachine.exec () _ (.join handle) e s = some r := by
  obtain ⟨moves, t, hmoves, hstopped, -⟩ := exists_stops haborted (handle + 1)
  refine ⟨{ moves := moves }, ((), t), (exec_moves hmoves).trans (if_pos ?_)⟩
  rcases hfwd : t.forwarders[handle]? with _ | fwd
  · rfl
  · exact hstopped handle (Nat.lt_succ_self _) fwd hfwd

/-- And for the writer. -/
theorem exists_finish (h : Sound s) (haborted : false ∉ aborts s) :
    ∃ e r, transportMachine.exec () _ .finish e s = some r := by
  -- the writer has failed already, or writes what is left
  rcases hfailed : s.failed with _ | reason
  · have hopen : s.out.closed = false := by
      rw [← Bool.not_eq_true]
      exact fun hclosed => h.closed.mp hclosed hfailed
    obtain ⟨moves, t, hmoves, hstopped, haborts, hout, hfailed'⟩ :=
      exists_stops haborted s.forwarders.length
    obtain ⟨moves', u, hmoves', hqueue, hforwarders, hfailed''⟩ :=
      exists_writes (s := t) (by rw [hout]; exact hopen)
    have hlength : u.forwarders.length = s.forwarders.length := by
      simpa only [aborts, List.length_map, hforwarders] using congrArg List.length haborts
    have hall : u.forwarders.all (·.stopped) = true := by
      rw [List.all_eq_true]
      intro fwd hfwd
      obtain ⟨k, hk⟩ := List.mem_iff_getElem?.mp hfwd
      have hlt := (List.getElem?_eq_some_iff.mp hk).1
      rw [hforwarders] at hk
      exact hstopped k (hlength ▸ hlt) fwd hk
    refine ⟨{ moves := moves ++ moves' }, (.ok (), u),
      (exec_moves (moveAll_append hmoves hmoves')).trans ?_⟩
    simp only [TransportWorld.perform, hfailed'', hfailed', hfailed, hall, hqueue, and_self,
      if_true]
  · refine ⟨{}, (.error reason, s), (exec_moves rfl).trans ?_⟩
    simp only [TransportWorld.perform, hfailed]

/-- An operation that does not wait. -/
def Ready {β : Type} : TransportOp β → Prop
  | .join _ | .finish => False
  | _ => True

theorem exists_exec {β : Type} {o : TransportOp β} (ho : Ready o) (s : TransportWorld) :
    ∃ e r, transportMachine.exec () β o e s = some r := by
  cases o with
  | dispatch o =>
    obtain ⟨e, r, hr⟩ := dispatch_total () β o s.dispatch
    have hr : DispatchWorld.exec () β o e s.dispatch = some r := hr
    exact ⟨{ registry := e }, _, (exec_moves rfl).trans (congrArg (Option.map _) hr)⟩
  | send m => exact ⟨{}, _, rfl⟩
  | forward stream => exact ⟨{}, _, rfl⟩
  | abort handle => exact ⟨{}, _, rfl⟩
  | join handle => exact ho.elim
  | finish => exact ho.elim

theorem ready_cancel (streams : Entries Nat) (m : JsonRpcMessage) :
    (cancel streams m).Uses Ready := by
  rw [cancel]
  split
  · trivial
  · split
    · trivial
    · exact ⟨trivial, fun _ => trivial⟩

theorem ready_serveMessage (streams : Entries Nat) (m : JsonRpcMessage) :
    (serveMessage prettyText serdeText streams m).Uses Ready := by
  refine (ready_cancel streams m).bind fun streams => ?_
  have hop {δ : Type} (o : DispatchOp δ) : Ready (TransportOp.dispatch o) := trivial
  refine (Prog.uses_lift hop _).bind fun reply => ?_
  rcases reply with _ | ⟨reply⟩ | ⟨id, number⟩
  · trivial
  · exact ⟨trivial, fun _ => trivial⟩
  · exact ⟨trivial, fun _ => trivial⟩

theorem ready_serveLines (streams : Entries Nat) (lines : List (Option String)) :
    (serveLines serde prettyText serdeText streams lines).Uses Ready := by
  induction lines generalizing streams with
  | nil => trivial
  | cons line lines ih =>
    refine Prog.Uses.bind ?_ ih
    rcases line with _ | line
    · trivial
    · rw [serveLine]
      split_ifs
      · trivial
      · rcases decodeMessage serde line with err | m
        · exact ⟨trivial, fun _ => trivial⟩
        · exact ready_serveMessage streams m

theorem ready_abortAll (handles : List Nat) : (abortAll handles).Uses Ready := by
  induction handles with
  | nil => trivial
  | cons handle handles ih => exact ⟨trivial, fun _ => ih⟩

/-- What does not wait is not stuck. -/
theorem unblocked_of_ready {α : Type} {p : Prog TransportOp α} (hp : p.Uses Ready)
    (s : TransportWorld) : transportMachine.Unblocked () p s :=
  Machine.unblocked_of_uses hp (fun _ _ s ho => exists_exec ho s) s

theorem unblocked_joinAll (handles : List Nat) (h : Sound s) (haborted : false ∉ aborts s) :
    transportMachine.Unblocked () (joinAll handles) s := by
  induction handles generalizing s with
  | nil => trivial
  | cons handle handles ih =>
    refine ⟨exists_join haborted handle, fun e b t he => ?_⟩
    obtain ⟨hsound, haborts⟩ := h.exec he
    refine ih hsound ?_
    rw [haborts]
    exact haborted

/-- The end of the loop, for the handles that it holds. -/
theorem unblocked_end (h : Sound s) (hregistered : Registered streams (aborts s))
    (htracked : Tracked streams (aborts s)) :
    transportMachine.Unblocked () ((abortAll (streams.map Prod.snd)).bind fun _ =>
      (joinAll (streams.map Prod.snd)).bind fun _ => .perform .finish) s := by
  refine Machine.unblocked_bind (unblocked_of_ready (ready_abortAll _) s) ?_
  refine Machine.wp_mono _ (wp_abortAll_aborts _ h) fun x t ht _ _ => ?_
  have haborted : false ∉ aborts t := by
    rw [ht.2]
    exact (abortThese_eq hregistered.unique).mpr htracked
  refine Machine.unblocked_bind (unblocked_joinAll _ ht.1 haborted) ?_
  refine Machine.wp_mono _ (wp_joinAll_aborts _ ht.1) fun x u hu _ _ => ?_
  refine ⟨exists_finish hu.1 ?_, fun _ _ _ _ => trivial⟩
  rw [hu.2]
  exact haborted

/-- A loop that ends well held every handle. -/
theorem wp_end (h : Sound s) (hregistered : Registered streams (aborts s)) :
    transportMachine.wp () ((abortAll (streams.map Prod.snd)).bind fun _ =>
      (joinAll (streams.map Prod.snd)).bind fun _ => .perform .finish)
      (fun x _ => x = .done (.ok ()) → Tracked streams (aborts s)) s := by
  rw [Machine.wp_bind]
  refine Machine.wp_mono _ (wp_abortAll_aborts _ h) fun x t ht => ?_
  rcases x with _ | _
  · simp only [Machine.andThen]
    rw [Machine.wp_bind]
    refine Machine.wp_mono _ (wp_joinAll_aborts _ ht.1) fun x u hu => ?_
    rcases x with _ | _
    · -- `finish` waits for every forwarder, so the ones that still run must be in the map
      intro e result v he hresult
      obtain rfl := Outcome.done.inj hresult
      have haborted := finish_aborted hu.1 he
      rw [hu.2, ht.2] at haborted
      exact (abortThese_eq hregistered.unique).mp haborted
    · intro hdone
      cases hdone
  · intro hdone
    cases hdone

end Finish

section Runs

variable {serde : Serde} {prettyText serdeText : Value → String} {lines : List (Option String)}
  {d : DispatchWorld Unit}

theorem holds_start : Holds [] [] { dispatch := d } where
  sound := ⟨iff_of_false nofun fun h => h rfl, nofun⟩
  registered := ⟨List.nodup_nil, nofun, nofun⟩
  names _ := Iff.rfl

theorem tracked_start : Tracked [] (aborts { dispatch := d }) := nofun

/-- The loop is never stuck when no request opens a stream under the id of an open one. -/
theorem run_unblocked (hnone : ReusesNone [] (lines.filterMap (lineMessage serde))) :
    transportMachine.Unblocked () (run serde prettyText serdeText lines) { dispatch := d } := by
  have hstart : Holds [] [] { dispatch := d } := holds_start
  have hloop : transportMachine.wp () (serveLines serde prettyText serdeText [] lines) _ _ :=
    wp_serveLines_holds hstart
  rw [run, Prog.bind_eq]
  refine Machine.unblocked_bind (unblocked_of_ready (ready_serveLines _ _) _) ?_
  refine Machine.wp_mono _ hloop fun x t ht streams hdone => ?_
  obtain ⟨hsound, hregistered, hiff⟩ := ht streams hdone
  exact unblocked_end hsound hregistered (hiff.mpr ⟨tracked_start, hnone⟩)

/-- So it can be brought to its end, if the session returns what it is asked for. -/
theorem run_can_end (hnone : ReusesNone [] (lines.filterMap (lineMessage serde))) :
    ∃ es r, transportMachine.solo () (run serde prettyText serdeText lines) es { dispatch := d } =
      some r := Machine.exists_solo_of_unblocked (run_unblocked hnone)

/-- **The transport ends when stdin does, unless a client reuses the id of an open stream.** If no
request does that, the loop is never stuck, whatever the session, the streams and the writer have
done. And a run that ends well has seen no such request. Then the abandoned forwarder would have
been waited for, and it never stops. -/
theorem run_ends : (ReusesNone [] (lines.filterMap (lineMessage serde)) →
      transportMachine.Unblocked () (run serde prettyText serdeText lines) { dispatch := d }) ∧
    ∀ es t, transportMachine.solo () (run serde prettyText serdeText lines) es { dispatch := d } =
      some (.done (.ok ()), t) → ReusesNone [] (lines.filterMap (lineMessage serde)) := by
  have hstart : Holds [] [] { dispatch := d } := holds_start
  have hloop : transportMachine.wp () (serveLines serde prettyText serdeText [] lines) _ _ :=
    wp_serveLines_holds hstart
  constructor
  · exact run_unblocked
  · intro es t hrun
    have hend : transportMachine.wp () (run serde prettyText serdeText lines) (fun x _ =>
        x = .done (.ok ()) → ReusesNone [] (lines.filterMap (lineMessage serde)))
        { dispatch := d } := by
      rw [run, Prog.bind_eq, Machine.wp_bind]
      refine Machine.wp_mono _ hloop fun x t ht => ?_
      rcases x with streams | _
      · obtain ⟨hsound, hregistered, hiff⟩ := ht streams rfl
        exact Machine.wp_mono _ (wp_end hsound hregistered) fun x u hu hok => (hiff.mp (hu hok)).2
      · intro hdone
        cases hdone
    exact Machine.wp_solo _ hend hrun rfl

/-- A client that opens one stream is not in the way, and one that opens it twice is. -/
theorem run_ends_listen :
    transportMachine.Unblocked () (run listenSerde (fun _ => "") (fun _ => "") [some "listen"])
        { dispatch := ⟨⟨⟨[], [], []⟩, false, 0⟩, [], [], []⟩ } ∧
      ∀ es t, transportMachine.solo ()
        (run listenSerde (fun _ => "") (fun _ => "") [some "listen", some "listen"]) es
        { dispatch := ⟨⟨⟨[], [], []⟩, false, 0⟩, [], [], []⟩ } ≠ some (.done (.ok ()), t) := by
  refine ⟨run_ends.1 ⟨fun _ _ => List.not_mem_nil, trivial⟩, fun es t hrun => ?_⟩
  obtain ⟨-, hreused, -⟩ := run_ends.2 es t hrun
  exact hreused "7" rfl (by decide)

end Runs

end StdioTransport

end HeadlessMcp
