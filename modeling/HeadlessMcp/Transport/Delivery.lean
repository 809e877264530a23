import HeadlessMcp.Async.Transcript
import HeadlessMcp.Transport.Stdio

/-!
# Delivery

What a client of the stdio transport reads: the answers to its lines, in the order of the lines,
and between them the messages of its streams. Every message that is written comes from one of
these sources, each source is written in its own order, and a run that ends well has written all
of it (`run_delivers`).

What a line has done is a `LineReply`: the messages that the loop sends for it, the stream that a
forwarder is spawned for, and the operations of the session with their answers. The history of
the run is that of its lines, one after another, so the replies are those of this run and not of
some other one.
-/

namespace HeadlessMcp

open Async

/-! ## What is expected -/

/-- The message is the response to a request with this id. An error without an id answers a line
that could not be read. -/
def JsonRpcMessage.Answers (id : JsonRpcId) : JsonRpcMessage → Prop
  | .success id' _ => id' = id
  | .error id' _ => id' = some id
  | _ => False

namespace StdioTransport

/-- What the loop does for a line. -/
structure LineReply : Type 1 where
  /-- what is sent to the writer -/
  messages : List JsonRpcMessage := []
  /-- the streams that a forwarder is spawned for -/
  streams : List Nat := []
  /-- what the session does, with the answers of its operations -/
  turns : List (Turn DispatchOp) := []

/-- What it does for two lines, or for two parts of one. -/
def LineReply.append (r r' : LineReply) : LineReply :=
  ⟨r.messages ++ r'.messages, r.streams ++ r'.streams, r.turns ++ r'.turns⟩

/-- What it does for any number of lines. -/
def LineReply.join (replies : List LineReply) : LineReply :=
  ⟨(replies.map (·.messages)).flatten, (replies.map (·.streams)).flatten,
    (replies.map (·.turns)).flatten⟩

theorem LineReply.append_nothing (r : LineReply) : r.append {} = r := by
  simp [append]

/-- What the session does, and what the loop sends and spawns afterwards. -/
theorem LineReply.turns_append (messages : List JsonRpcMessage) (streams : List Nat)
    (turns : List (Turn DispatchOp)) :
    LineReply.append { turns := turns } { messages := messages, streams := streams } =
      ⟨messages, streams, turns⟩ := by
  simp [append]

theorem LineReply.append_assoc (r r' r'' : LineReply) :
    (r.append r').append r'' = r.append (r'.append r'') := by
  simp [append, List.append_assoc]

section Answers

variable (serde : Serde) (prettyText serdeText : Value → String)

/-- What a line is answered with, apart from the messages of its stream. -/
inductive AnswersLine : Option String → LineReply → Prop where
  /-- a line that cannot be read is skipped -/
  | unreadable : AnswersLine none {}
  /-- a blank line is skipped -/
  | blank {line : String} (hblank : isBlank line = true) : AnswersLine (some line) {}
  /-- a malformed line is answered with an error that has no id -/
  | malformed {line : String} {err : JsonRpcError} (hblank : isBlank line = false)
      (hline : decodeMessage serde line = .error err) :
      AnswersLine (some line) { messages := [.error none err] }
  /-- a request is answered once, as the session handles it -/
  | answered {line : String} {id : JsonRpcId} {method : String} {params : Option Value}
      {reply : JsonRpcMessage} {turns : List (Turn DispatchOp)} (hblank : isBlank line = false)
      (hline : decodeMessage serde line = .ok (.request id method params))
      (hhandled : (Session.handleStreaming prettyText serdeText
        (.request id method params)).Performs turns (.done (some (.message reply))))
      (hid : reply.Answers id) :
      AnswersLine (some line) { messages := [reply], turns := turns }
  /-- a request that opens a stream is answered by the stream: the one that the session opens for
  it is the one that its forwarder is spawned for -/
  | streamed {line : String} {id : JsonRpcId} {params : Option Value} {st : ListenStream}
      {number : Nat} {turns : List (Turn DispatchOp)} (hblank : isBlank line = false)
      (hline : decodeMessage serde line = .ok (.request id "subscriptions/listen" params))
      (hlisten : Session.listen id params (.fromParams params) 0 = .ok st)
      (hhandled : (Session.handleStreaming prettyText serdeText
        (.request id "subscriptions/listen" params)).Performs turns
          (.done (some (.stream id number)))) :
      AnswersLine (some line) { streams := [number], turns := turns }
  /-- notifications and responses are not answered -/
  | unanswered {line : String} {m : JsonRpcMessage} {turns : List (Turn DispatchOp)}
      (hblank : isBlank line = false) (hline : decodeMessage serde line = .ok m)
      (hm : ∀ id method params, m ≠ .request id method params)
      (hhandled : (Session.handleStreaming prettyText serdeText m).Performs turns (.done none)) :
      AnswersLine (some line) { turns := turns }

end Answers

end StdioTransport

/-! ## The session's replies -/

namespace Session

variable {prettyText serdeText : Value → String} {l : List (Turn DispatchOp)}

/-- A request is answered with its own id. -/
theorem answers_handleRequest {id : JsonRpcId} {method : String} {params : Option Value}
    {reply : JsonRpcMessage}
    (h : (handleRequest prettyText serdeText id method params).Performs l (.done reply)) :
    reply.Answers id := by
  obtain ⟨_, handled, rest, rfl, -, hrest⟩ := Prog.Performs.of_bind_done h
  simp only [Prog.bind_eq, Prog.perform_bind] at hrest
  obtain ⟨_, rest, rfl, hend⟩ := hrest
  dsimp only at hend
  split at hend <;>
    obtain rfl := Outcome.done.inj hend.2
  · rfl
  · rfl

/-- What the session may reply to a message. -/
def Admissible (m : JsonRpcMessage) : Option SessionReply → Prop
  | none => ∀ id method params, m ≠ .request id method params
  | some (.message reply) => ∃ id method params, m = .request id method params ∧ reply.Answers id
  | some (.stream id _) => ∃ params st, m = .request id "subscriptions/listen" params ∧
      Session.listen id params (.fromParams params) 0 = .ok st

/-- **What a message is replied with**: a request gets its response or a stream, and nothing else
is replied to. -/
theorem admissible_handleStreaming {m : JsonRpcMessage} {reply : Option SessionReply}
    (h : (handleStreaming prettyText serdeText m).Performs l (.done reply)) :
    Admissible m reply := by
  cases m with
  | request id method params =>
    rw [handleStreaming] at h
    split_ifs at h with hmethod
    · subst hmethod
      rcases hlisten : Session.listen id params (.fromParams params) 0 with err | st
      · rw [hlisten] at h
        obtain rfl := Outcome.done.inj h.2
        exact ⟨id, _, params, rfl, rfl⟩
      · rw [hlisten] at h
        obtain ⟨number, rest, rfl, hend⟩ := h
        obtain rfl := Outcome.done.inj hend.2
        exact ⟨params, st, rfl, hlisten⟩
    · obtain ⟨_, response, rest, rfl, hdone, hend⟩ := Prog.Performs.of_bind_done h
      obtain rfl := Outcome.done.inj hend.2
      exact ⟨id, method, params, rfl, answers_handleRequest hdone⟩
  | _ =>
    obtain rfl := Outcome.done.inj h.2
    exact nofun

end Session

/-! ## Streams only grow -/

theorem messagesOf_turn {ι : Type} {s : DispatchWorld ι} {stream : Nat} {st st' : ListenStream}
    (hst : s.streams[stream]? = some st) (hturn : st.turn s.session.notified = some st')
    (n : Nat) : s.messagesOf n <+:
      ({ s with streams := s.streams.set stream st' } : DispatchWorld ι).messagesOf n := by
  have hqueued : st.queued.reverse <+: st'.queued.reverse := by
    rw [ListenStream.turn] at hturn
    split_ifs at hturn
    · obtain rfl := Option.some.inj hturn
      exact List.prefix_rfl
    · obtain rfl := Option.some.inj hturn
      rw [List.reverse_cons]
      exact List.prefix_append _ _
    · obtain rfl := Option.some.inj hturn
      exact List.prefix_rfl
  simp only [DispatchWorld.messagesOf, List.getElem?_set]
  split_ifs with hn hlt
  · subst hn
    simpa only [hst, Option.map_some, Option.getD_some] using hqueued
  · rw [List.getElem?_eq_none (by omega)] at hst
    cases hst
  · exact List.prefix_rfl

theorem messagesOf_exec {ι : Type} {i : ι} {β : Type} {o : DispatchOp β} {e : RegistryChoice}
    {s t : DispatchWorld ι} {b : β} (h : DispatchWorld.exec i β o e s = some (b, t)) (n : Nat) :
    s.messagesOf n <+: t.messagesOf n := by
  cases o with
  | session o =>
    obtain ⟨r, -, heq⟩ := Option.map_eq_some_iff.mp h
    obtain ⟨-, rfl⟩ := Prod.mk.inj heq
    exact List.prefix_rfl
  | openStream stream =>
    obtain ⟨-, rfl⟩ := Prod.mk.inj (Option.some.inj h)
    simp only [DispatchWorld.messagesOf]
    by_cases hn : n < s.streams.length
    · simp only [List.getElem?_append_left hn, List.prefix_rfl]
    · have hnone : s.streams[n]? = none := List.getElem?_eq_none (by omega)
      simp only [hnone, Option.map_none, Option.getD_none, List.nil_prefix]
  | _ =>
    obtain ⟨-, rfl⟩ := Prod.mk.inj (Option.some.inj h)
    exact List.prefix_rfl

/-! ## Delivered -/

/-- The transport has taken this from its sources: the loop (`none`) and the forwarders. -/
structure Delivered (t : TransportWorld) (sent : List (Option Nat × JsonRpcMessage)) : Prop where
  accounts : t.out.Accounts sent
  /-- a forwarder has sent the first messages of its stream -/
  forwarded : ∀ handle fwd, t.forwarders[handle]? = some fwd →
    fwd.taken ≤ (t.dispatch.messagesOf fwd.stream).length ∧
      fromSource (some handle) sent = (t.dispatch.messagesOf fwd.stream).take fwd.taken
  /-- there is no other source -/
  known : ∀ m ∈ sent, ∀ handle, m.1 = some handle → handle < t.forwarders.length
  /-- the channel is open until the writer fails -/
  writing : t.failed = none → t.out.closed = false

namespace Delivered

variable {s t : TransportWorld} {sent : List (Option Nat × JsonRpcMessage)}

theorem fresh {d : DispatchWorld Unit} : Delivered { dispatch := d } [] :=
  ⟨.empty, nofun, nofun, fun _ => rfl⟩

/-- The session goes on, and no stream loses anything. -/
theorem dispatch (h : Delivered t sent) {d : DispatchWorld Unit}
    (hd : ∀ n, t.dispatch.messagesOf n <+: d.messagesOf n) :
    Delivered { t with dispatch := d } sent := by
  refine ⟨h.accounts, fun handle fwd hfwd => ?_, h.known, h.writing⟩
  obtain ⟨hle, hsent⟩ := h.forwarded handle fwd hfwd
  obtain ⟨later, hlater⟩ := hd fwd.stream
  refine ⟨hle.trans (hd fwd.stream).length_le, ?_⟩
  rw [hsent, ← hlater, List.take_append_of_le_length hle]

/-- A forwarder is aborted, or stops. -/
theorem modify (h : Delivered t sent) (handle : Nat) {f : Forwarder → Forwarder}
    (hstream : ∀ fwd, (f fwd).stream = fwd.stream) (htaken : ∀ fwd, (f fwd).taken = fwd.taken) :
    Delivered (t.modifyForwarder handle f) sent := by
  refine ⟨h.accounts, fun k fwd hfwd => ?_, fun m hm k hk => ?_, h.writing⟩
  · rw [TransportWorld.modifyForwarder, List.getElem?_modify] at hfwd
    obtain ⟨fwd', hfwd', rfl⟩ := Option.map_eq_some_iff.mp hfwd
    have hkept := h.forwarded k fwd' hfwd'
    split
    · rwa [hstream, htaken]
    · exact hkept
  · rw [TransportWorld.modifyForwarder, List.length_modify]
    exact h.known m hm k hk

/-- The loop sends. -/
theorem send (h : Delivered t sent) (m : JsonRpcMessage) :
    Delivered { t with out := t.out.send m } (sent ++ [(none, m)]) := by
  refine ⟨h.accounts.send none m, fun handle fwd hfwd => ?_, fun m' hm' handle hhandle => ?_, ?_⟩
  · rw [fromSource_send_ne (by simp)]
    exact h.forwarded handle fwd hfwd
  · rcases List.mem_append.mp hm' with hm' | hm'
    · exact h.known m' hm' handle hhandle
    · obtain rfl := List.mem_singleton.mp hm'
      cases hhandle
  · rw [Mpsc.send_closed]
    exact h.writing

/-- The loop spawns a forwarder. -/
theorem spawn (h : Delivered t sent) (stream : Nat) :
    Delivered { t with forwarders := t.forwarders ++ [{ stream := stream }] } sent := by
  refine ⟨h.accounts, fun handle fwd hfwd => ?_, fun m hm handle hhandle => ?_, h.writing⟩
  · by_cases hold : handle < t.forwarders.length
    · rw [List.getElem?_append_left hold] at hfwd
      exact h.forwarded handle fwd hfwd
    · rw [List.getElem?_append_right (by omega), List.getElem?_singleton] at hfwd
      split_ifs at hfwd
      obtain rfl := Option.some.inj hfwd
      refine ⟨Nat.zero_le _, ?_⟩
      rw [List.take_zero]
      exact fromSource_of_forall_ne fun m hm heq => hold (h.known m hm handle heq)
  · rw [List.length_append]
    exact Nat.lt_add_right _ (h.known m hm handle hhandle)

/-- A forwarder takes the next message of its stream and sends it. -/
theorem forward (h : Delivered s sent) {handle : Nat} {fwd : Forwarder}
    (hfwd : s.forwarders[handle]? = some fwd) (hmove : s.forwardOne handle fwd = some t) :
    ∃ m, Delivered t (sent ++ [(some handle, m)]) := by
  rw [TransportWorld.forwardOne] at hmove
  split_ifs at hmove
  obtain ⟨m, hm, rfl⟩ := Option.map_eq_some_iff.mp hmove
  obtain ⟨hlt, hget⟩ := List.getElem?_eq_some_iff.mp hm
  refine ⟨m, h.accounts.send (some handle) m, fun k fwd' hfwd' => ?_, fun m' hm' k hk => ?_, ?_⟩
  · rw [TransportWorld.modifyForwarder, List.getElem?_modify] at hfwd'
    obtain ⟨old, hold, rfl⟩ := Option.map_eq_some_iff.mp hfwd'
    obtain ⟨hle, hsent⟩ := h.forwarded k old hold
    dsimp only [TransportWorld.modifyForwarder] at hold ⊢
    split
    · rename_i heq
      subst heq
      obtain rfl := Option.some.inj (hfwd.symm.trans hold)
      refine ⟨hlt, ?_⟩
      rw [fromSource_send_self, hsent, ← hget, List.take_append_getElem]
    · rename_i hne
      rw [fromSource_send_ne (by simpa using hne)]
      exact ⟨hle, hsent⟩
  · rw [TransportWorld.modifyForwarder, List.length_modify]
    rcases List.mem_append.mp hm' with hm' | hm'
    · exact h.known m' hm' k hk
    · obtain rfl := List.mem_singleton.mp hm'
      obtain rfl := Option.some.inj hk
      exact (List.getElem?_eq_some_iff.mp hfwd).1
  · rw [Mpsc.send_closed]
    exact h.writing

end Delivered

/-! ## Steps -/

/-- What an operation of the loop does for the line it is on. What the operations of one line do
is put together in their order. -/
def TransportOp.reply {β : Type} : TransportOp β → β → StdioTransport.LineReply
  | .dispatch o, answer => { turns := [⟨o, answer⟩] }
  | .send m, _ => { messages := [m] }
  | .forward stream, _ => { streams := [stream] }
  | _, _ => {}

/-- The operations that the session has performed in a history of the loop, oldest first, each
with its answer. -/
def sessionTurns : List (Performed TransportOp Unit) → List (Turn DispatchOp)
  | [] => []
  | p :: log => sessionTurns log ++ (p.op.reply p.answer).turns

/-- What the loop has sent, and the streams of the forwarders that it has spawned. -/
structure LoopReplied (t : TransportWorld) (messages : List JsonRpcMessage)
    (streams : List Nat) : Prop where
  sent : ∃ sent, Delivered t sent ∧ fromSource none sent = messages
  spawned : t.forwarders.map (·.stream) = streams

/-- A forwarder keeps its stream. -/
theorem streams_modifyForwarder {t : TransportWorld} (handle : Nat) {f : Forwarder → Forwarder}
    (hstream : ∀ fwd, (f fwd).stream = fwd.stream) :
    (t.modifyForwarder handle f).forwarders.map (·.stream) = t.forwarders.map (·.stream) := by
  refine List.ext_getElem? fun k => ?_
  rw [TransportWorld.modifyForwarder, List.getElem?_map, List.getElem?_map, List.getElem?_modify]
  cases t.forwarders[k]? with
  | none => rfl
  | some fwd =>
    by_cases hk : handle = k
    · simp only [hk, if_true, Option.map_eq_map, Option.map_some, hstream]
    · simp only [hk, if_false, Option.map_eq_map, Option.map_some]

section Steps

variable {s t : TransportWorld} {messages : List JsonRpcMessage} {streams : List Nat}

/-- What happens next to the loop sends nothing in its name and spawns no forwarder. -/
theorem LoopReplied.move {move : Move} (h : LoopReplied s messages streams)
    (hmove : s.move move = some t) : LoopReplied t messages streams := by
  obtain ⟨⟨sent, h, hreplies⟩, hspawned⟩ := h
  cases move with
  | session d =>
    obtain rfl := Option.some.inj hmove
    exact ⟨⟨sent, h.dispatch fun n => List.prefix_rfl, hreplies⟩, hspawned⟩
  | turn stream =>
    obtain ⟨st, hst, hmove⟩ := Option.bind_eq_some_iff.mp hmove
    obtain ⟨st', hturn, hmove⟩ := Option.bind_eq_some_iff.mp hmove
    obtain rfl := Option.some.inj hmove
    exact ⟨⟨sent, h.dispatch (messagesOf_turn hst hturn), hreplies⟩, hspawned⟩
  | forward handle =>
    obtain ⟨fwd, hfwd, hmove⟩ := Option.bind_eq_some_iff.mp hmove
    obtain ⟨m, h⟩ := h.forward hfwd hmove
    refine ⟨⟨_, h, by rw [fromSource_send_ne (by simp), hreplies]⟩, ?_⟩
    rw [TransportWorld.forwardOne] at hmove
    split_ifs at hmove
    obtain ⟨m, -, rfl⟩ := Option.map_eq_some_iff.mp hmove
    rw [← hspawned]
    exact streams_modifyForwarder handle fun _ => rfl
  | stop handle =>
    obtain ⟨fwd, hfwd, hmove⟩ := Option.bind_eq_some_iff.mp hmove
    split_ifs at hmove
    obtain rfl := Option.some.inj hmove
    refine ⟨⟨sent, h.modify handle (fun _ => rfl) (fun _ => rfl), hreplies⟩, ?_⟩
    rw [← hspawned]
    exact streams_modifyForwarder handle fun _ => rfl
  | write =>
    obtain ⟨out, hrecv, rfl⟩ := Option.map_eq_some_iff.mp hmove
    obtain ⟨_, -, -, -, hopen⟩ := Mpsc.recv_eq_some hrecv
    exact ⟨⟨sent, ⟨h.accounts.recv hrecv, h.forwarded, h.known, fun _ => hopen⟩, hreplies⟩,
      hspawned⟩
  | fail reason =>
    simp only [TransportWorld.move] at hmove
    split_ifs at hmove
    obtain rfl := Option.some.inj hmove
    exact ⟨⟨sent, ⟨h.accounts.close, h.forwarded, h.known, nofun⟩, hreplies⟩, hspawned⟩

theorem LoopReplied.moveAll {moves : List Move} (h : LoopReplied s messages streams)
    (hmoves : s.moveAll moves = some t) : LoopReplied t messages streams := by
  induction moves generalizing s with
  | nil =>
    obtain rfl := Option.some.inj hmoves
    exact h
  | cons move moves ih =>
    obtain ⟨s', hmove, hmoves⟩ := Option.bind_eq_some_iff.mp hmoves
    exact ih (h.move hmove) hmoves

/-- An operation sends what it sends, and spawns what it spawns. -/
theorem LoopReplied.exec {β : Type} {o : TransportOp β} {e : TransportChoice} {b : β}
    (h : LoopReplied s messages streams)
    (hexec : transportMachine.exec () β o e s = some (b, t)) :
    LoopReplied t (messages ++ (o.reply b).messages) (streams ++ (o.reply b).streams) := by
  obtain ⟨s', hmoves, hexec⟩ := Option.bind_eq_some_iff.mp hexec
  obtain ⟨⟨sent, hsent, rfl⟩, rfl⟩ := h.moveAll hmoves
  -- what neither sends nor spawns leaves both lists alone
  have quiet {u : TransportWorld} (hu : Delivered u sent)
      (hstreams : u.forwarders.map (·.stream) = s'.forwarders.map (·.stream)) :
      LoopReplied u (fromSource none sent ++ []) (s'.forwarders.map (·.stream) ++ []) :=
    ⟨⟨sent, hu, (List.append_nil _).symm⟩, hstreams.trans (List.append_nil _).symm⟩
  cases o with
  | dispatch o =>
    obtain ⟨⟨_, d⟩, hd, heq⟩ := Option.map_eq_some_iff.mp hexec
    obtain ⟨-, rfl⟩ := Prod.mk.inj heq
    exact quiet (hsent.dispatch (messagesOf_exec hd)) rfl
  | send m =>
    obtain ⟨-, rfl⟩ := Prod.mk.inj (Option.some.inj hexec)
    exact ⟨⟨_, hsent.send m, fromSource_send_self⟩, (List.append_nil _).symm⟩
  | forward stream =>
    obtain ⟨-, rfl⟩ := Prod.mk.inj (Option.some.inj hexec)
    exact ⟨⟨sent, hsent.spawn stream, (List.append_nil _).symm⟩, List.map_append⟩
  | abort handle =>
    obtain ⟨-, rfl⟩ := Prod.mk.inj (Option.some.inj hexec)
    exact quiet (hsent.modify handle (fun _ => rfl) (fun _ => rfl))
      (streams_modifyForwarder handle fun _ => rfl)
  | join handle =>
    simp only [TransportWorld.perform] at hexec
    split_ifs at hexec
    obtain ⟨-, rfl⟩ := Prod.mk.inj (Option.some.inj hexec)
    exact quiet hsent rfl
  | finish =>
    simp only [TransportWorld.perform] at hexec
    split at hexec
    · obtain ⟨-, rfl⟩ := Prod.mk.inj (Option.some.inj hexec)
      exact quiet hsent rfl
    · split_ifs at hexec
      obtain ⟨-, rfl⟩ := Prod.mk.inj (Option.some.inj hexec)
      exact quiet hsent rfl

end Steps

/-! ## Runs -/

namespace StdioTransport

/-- What the loop has done so far, in the state that it has left and the history that led there. -/
structure Looped (t : Recorded TransportOp Unit TransportWorld) (r : LineReply) : Prop where
  replied : LoopReplied t.state r.messages r.streams
  turns : sessionTurns t.log = r.turns

section Loop

variable {serde : Serde} {prettyText serdeText : Value → String} {r : LineReply}
  {s t : Recorded TransportOp Unit TransportWorld}

/-- One operation of the loop. -/
theorem Looped.exec {β : Type} {o : TransportOp β} {e : TransportChoice} {b : β}
    (h : Looped s r) (hexec : transportMachine.recorded.exec () β o e s = some (b, t)) :
    Looped t (r.append (o.reply b)) := by
  obtain ⟨hexec, hlog⟩ := Machine.recorded_exec hexec
  refine ⟨h.replied.exec hexec, ?_⟩
  rw [hlog, sessionTurns, h.turns]
  rfl

/-- An operation that does nothing for a line. -/
theorem Looped.quiet {β : Type} {o : TransportOp β} {e : TransportChoice} {b : β}
    (ho : o.reply b = {}) (h : Looped s r)
    (hexec : transportMachine.recorded.exec () β o e s = some (b, t)) : Looped t r := by
  have ht := h.exec hexec
  rwa [ho, LineReply.append_nothing] at ht

/-- What the session does is part of the history. -/
theorem wp_dispatchDo {α : Type} {p : Prog DispatchOp α} (h : Looped s r) :
    transportMachine.recorded.wp () (dispatchDo p)
      (fun x t => ∃ l, p.Performs l x ∧ Looped t (r.append { turns := l })) s := by
  induction p generalizing s r with
  | ret a => exact ⟨[], ⟨rfl, rfl⟩, by rwa [LineReply.append_nothing]⟩
  | panic => exact ⟨[], ⟨rfl, rfl⟩, by rwa [LineReply.append_nothing]⟩
  | op o k ih =>
    intro e b t he
    refine Machine.wp_mono _ (ih b (h.exec he)) fun x u hu => ?_
    obtain ⟨l, hl, hu⟩ := hu
    refine ⟨⟨o, b⟩ :: l, ⟨b, l, rfl, hl⟩, ?_⟩
    rwa [LineReply.append_assoc] at hu

/-- A cancellation does nothing for the line. -/
theorem wp_cancel {streams : Entries Nat} {m : JsonRpcMessage} (h : Looped s r) :
    transportMachine.recorded.wp () (cancel streams m) (fun _ t => Looped t r) s := by
  rw [cancel]
  split
  · exact h
  · split
    · exact h
    · exact fun e b t he => h.quiet rfl he

/-- What is done for a part of the lines, if the loop gets through it. -/
def DoneFor {α : Type} (r : LineReply) (A : LineReply → Prop) :
    Outcome α → Recorded TransportOp Unit TransportWorld → Prop
  | .done _, t => ∃ part, A part ∧ Looped t (r.append part)
  | .panicked, _ => True

/-- A message is answered. -/
theorem wp_serveMessage {streams : Entries Nat} {m : JsonRpcMessage} {line : String}
    (hblank : isBlank line = false) (hline : decodeMessage serde line = .ok m) (h : Looped s r) :
    transportMachine.recorded.wp () (serveMessage prettyText serdeText streams m)
      (DoneFor r (AnswersLine serde prettyText serdeText (some line))) s := by
  rw [serveMessage, Prog.bind_eq, Machine.wp_bind]
  refine Machine.wp_mono _ (wp_cancel h) fun x t ht => ?_
  rcases x with streams | _
  · simp only [Machine.andThen, Prog.bind_eq]
    rw [Machine.wp_bind]
    refine Machine.wp_mono _ (wp_dispatchDo ht) fun x t ht => ?_
    obtain ⟨turns, hturns, ht⟩ := ht
    -- after the session has handled the message comes one operation of the loop, or none
    have hnext {o : TransportOp Unit} {u : Recorded TransportOp Unit TransportWorld}
        {e : TransportChoice} {messages : List JsonRpcMessage}
        (ho : o.reply () = { messages := messages })
        (he : transportMachine.recorded.exec () Unit o e t = some ((), u)) :
        Looped u (r.append { messages := messages, turns := turns }) := by
      have hu := ht.exec he
      rwa [ho, LineReply.append_assoc, LineReply.turns_append] at hu
    rcases x with reply | _
    · have hreply := Session.admissible_handleStreaming hturns
      rcases reply with _ | ⟨reply⟩ | ⟨id, number⟩
      · exact ⟨_, .unanswered hblank hline hreply hturns, ht⟩
      · obtain ⟨id, method, params, rfl, hid⟩ := hreply
        exact fun e b u he => ⟨_, .answered hblank hline hturns hid, hnext rfl he⟩
      · obtain ⟨params, st, rfl, hlisten⟩ := hreply
        intro e handle u he
        refine ⟨_, .streamed hblank hline hlisten hturns, ?_⟩
        have hu := ht.exec he
        rwa [TransportOp.reply, LineReply.append_assoc, LineReply.turns_append] at hu
    · trivial
  · trivial

/-- A line is answered. -/
theorem wp_serveLine (streams : Entries Nat) (line : Option String) (h : Looped s r) :
    transportMachine.recorded.wp () (serveLine serde prettyText serdeText streams line)
      (DoneFor r (AnswersLine serde prettyText serdeText line)) s := by
  rcases line with _ | line
  · exact ⟨{}, .unreadable, by rwa [LineReply.append_nothing]⟩
  rw [serveLine]
  by_cases hblank : isBlank line = true
  · rw [if_pos hblank]
    exact ⟨{}, .blank hblank, by rwa [LineReply.append_nothing]⟩
  · rw [if_neg hblank]
    rw [Bool.not_eq_true] at hblank
    rcases hline : decodeMessage serde line with err | m
    · exact fun e b t he => ⟨_, .malformed hblank hline, h.exec he⟩
    · exact wp_serveMessage hblank hline h

/-- The lines are answered, one after another. -/
theorem wp_serveLines (streams : Entries Nat) (lines : List (Option String)) (h : Looped s r) :
    transportMachine.recorded.wp () (serveLines serde prettyText serdeText streams lines)
      (DoneFor r fun part => ∃ replies, List.Forall₂
        (AnswersLine serde prettyText serdeText) lines replies ∧ .join replies = part) s := by
  induction lines generalizing streams s r with
  | nil => exact ⟨{}, ⟨[], .nil, rfl⟩, by rwa [LineReply.append_nothing]⟩
  | cons line lines ih =>
    rw [serveLines, Prog.bind_eq, Machine.wp_bind]
    refine Machine.wp_mono _ (wp_serveLine streams line h) fun x t ht => ?_
    rcases x with streams | _
    · obtain ⟨part, hpart, ht⟩ := ht
      refine Machine.wp_mono _ (ih streams ht) fun x u hu => ?_
      rcases x with streams | _
      · obtain ⟨-, ⟨replies, hreplies, rfl⟩, hu⟩ := hu
        refine ⟨part.append (.join replies), ⟨part :: replies, .cons hpart hreplies, rfl⟩, ?_⟩
        rwa [LineReply.append_assoc] at hu
      · trivial
    · trivial

theorem wp_abortAll (handles : List Nat) (h : Looped s r) :
    transportMachine.recorded.wp () (abortAll handles) (fun _ t => Looped t r) s := by
  induction handles generalizing s with
  | nil => exact h
  | cons handle handles ih => exact fun e b t he => ih (h.quiet rfl he)

theorem wp_joinAll (handles : List Nat) (h : Looped s r) :
    transportMachine.recorded.wp () (joinAll handles) (fun _ t => Looped t r) s := by
  induction handles generalizing s with
  | nil => exact h
  | cons handle handles ih => exact fun e b t he => ih (h.quiet rfl he)

/-- The writer has ended well only when everything is written. -/
theorem finish_ok {e : TransportChoice} {s t : TransportWorld}
    (hexec : transportMachine.exec () _ .finish e s = some (.ok (), t)) :
    t.failed = none ∧ t.out.queue = [] ∧ ∀ fwd ∈ t.forwarders, fwd.stopped = true := by
  obtain ⟨s', -, hexec⟩ := Option.bind_eq_some_iff.mp hexec
  simp only [TransportWorld.perform] at hexec
  split at hexec
  · cases (Prod.mk.inj (Option.some.inj hexec)).1
  · rename_i hfailed
    split_ifs at hexec with hdone
    obtain ⟨-, rfl⟩ := Prod.mk.inj (Option.some.inj hexec)
    exact ⟨hfailed, hdone.2, List.all_eq_true.mp hdone.1⟩

/-- The loop answers all lines before it ends. -/
theorem wp_run (lines : List (Option String)) (h : Looped s {}) :
    transportMachine.recorded.wp () (run serde prettyText serdeText lines) (fun x t => ∀ result,
      x = .done result → ∃ replies,
        List.Forall₂ (AnswersLine serde prettyText serdeText) lines replies ∧
        Looped t (.join replies) ∧
        (result = .ok () → t.state.failed = none ∧ t.state.out.queue = [])) s := by
  rw [run, Prog.bind_eq, Machine.wp_bind]
  refine Machine.wp_mono _ (wp_serveLines [] lines h) fun x t ht => ?_
  rcases x with streams | _
  swap
  · exact nofun
  obtain ⟨-, ⟨replies, hreplies, rfl⟩, ht⟩ := ht
  simp only [Machine.andThen, Prog.bind_eq]
  rw [Machine.wp_bind]
  refine Machine.wp_mono _ (wp_abortAll _ ht) fun x t ht => ?_
  rcases x with _ | _
  swap
  · exact nofun
  simp only [Machine.andThen]
  rw [Machine.wp_bind]
  refine Machine.wp_mono _ (wp_joinAll _ ht) fun x t ht => ?_
  rcases x with _ | _
  swap
  · exact nofun
  intro e result u he result' hresult
  obtain rfl := Outcome.done.inj hresult
  refine ⟨replies, hreplies, ht.quiet rfl he, ?_⟩
  rintro rfl
  have hend := finish_ok (Machine.recorded_exec he).1
  exact ⟨hend.1, hend.2.1⟩

end Loop

/-- What a run has delivered: `log` is its history, `replies` says what it did for each line, and
`sent` is what the writer was sent, with its sources. -/
structure Delivery (serde : Serde) (prettyText serdeText : Value → String)
    (lines : List (Option String)) (d : DispatchWorld Unit) (es : List TransportChoice)
    (result : Except String Unit) (t : TransportWorld) (log : List (Performed TransportOp Unit))
    (replies : List LineReply) (sent : List (Option Nat × JsonRpcMessage)) : Prop where
  ran : transportMachine.recorded.solo () (run serde prettyText serdeText lines) es
    ⟨{ dispatch := d }, []⟩ = some (.done result, ⟨t, log⟩)
  answered : List.Forall₂ (AnswersLine serde prettyText serdeText) lines replies
  /-- what the session did for the lines is all that it did in the run -/
  handled : sessionTurns log = (replies.map (·.turns)).flatten
  /-- the streams that the lines have opened are those of the forwarders -/
  spawned : t.forwarders.map (·.stream) = (replies.map (·.streams)).flatten
  /-- the loop has sent the messages of the lines -/
  replied : fromSource none sent = (replies.map (·.messages)).flatten
  /-- each forwarder has sent the first messages of its stream -/
  forwarded : ∀ handle fwd, t.forwarders[handle]? = some fwd →
    fromSource (some handle) sent = (t.dispatch.messagesOf fwd.stream).take fwd.taken
  /-- and nobody else has sent anything -/
  known : ∀ m ∈ sent, ∀ handle, m.1 = some handle → handle < t.forwarders.length
  written : t.out.received <+: sent.map Prod.snd
  complete : result = .ok () → t.out.received = sent.map Prod.snd

/-- **What a client reads is an interleaving of the answers to its lines and of its streams.**
Every line that is read is answered as the session handles it in this run, the answers are sent
in the order of the lines, every line that opens a stream has its own forwarder, in the order of
the lines as well, and each forwarder sends the first messages of its stream in their order. What
is written is an interleaving of these up to some message, and all of it if the run ends well. -/
theorem run_delivers {serde : Serde} {prettyText serdeText : Value → String}
    {lines : List (Option String)} {d : DispatchWorld Unit} {es : List TransportChoice}
    {result : Except String Unit} {t : TransportWorld}
    (hrun : transportMachine.solo () (run serde prettyText serdeText lines) es { dispatch := d } =
      some (.done result, t)) :
    ∃ log replies sent,
      Delivery serde prettyText serdeText lines d es result t log replies sent := by
  obtain ⟨log, hlog⟩ := Machine.exists_recorded_solo hrun []
  have hstart : Looped ⟨{ dispatch := d }, []⟩ {} := ⟨⟨⟨[], .fresh, rfl⟩, rfl⟩, rfl⟩
  obtain ⟨replies, hreplies, ⟨⟨⟨sent, hsent, hmessages⟩, hspawned⟩, hturns⟩, hok⟩ :=
    Machine.wp_solo _ (wp_run lines hstart) hlog result rfl
  refine ⟨log, replies, sent, {
    ran := hlog
    answered := hreplies
    handled := hturns
    spawned := hspawned
    replied := hmessages
    forwarded := fun handle fwd hfwd => (hsent.forwarded handle fwd hfwd).2
    known := hsent.known
    written := hsent.accounts.received
    complete := fun hresult => ?_ }⟩
  obtain ⟨hfailed, hqueue⟩ := hok hresult
  exact hsent.accounts.received_eq (hsent.writing hfailed) hqueue

/-- A request for a stream of the changes of the tool list. -/
def listenLine : Value :=
  .object [("jsonrpc", .string "2.0"), ("id", .number (.int 7)),
    ("method", .string "subscriptions/listen"),
    ("params", .object [("_meta", .object [(metaProtocolVersion, .string "2026-07-28")]),
      ("notifications", .object [("toolsListChanged", .bool true)])])]

/-- A reader that only knows this request. -/
def listenSerde : Serde :=
  ⟨fun text => if text = "listen" then .ok listenLine else .error "", fun _ => ""⟩

/-- A malformed line, a blank one and a request for a stream: when stdin ends, the forwarder sends
the acknowledgement before it stops. -/
theorem run_delivers_stream :
    let lines := [some "oops", some " ", some "listen"]
    let d : DispatchWorld Unit := ⟨⟨⟨[], [], []⟩, false, 0⟩, [], [], []⟩
    ∃ es t, transportMachine.solo () (run listenSerde (fun _ => "") (fun _ => "") lines) es
        { dispatch := d } = some (.done (.ok ()), t) ∧
      t.out.received.length = 2 ∧ t.forwarders.map (·.stream) = [0] ∧
      ∃ log replies sent,
        Delivery listenSerde (fun _ => "") (fun _ => "") lines d es (.ok ()) t log replies sent := by
  intro lines d
  obtain ⟨t, hrun, hlength, hstreams⟩ : ∃ t, transportMachine.solo ()
      (run listenSerde (fun _ => "") (fun _ => "") lines)
      [{}, {}, {}, {}, { moves := [.forward 0, .stop 0] }, { moves := [.write, .write] }]
      { dispatch := d } = some (.done (.ok ()), t) ∧
      t.out.received.length = 2 ∧ t.forwarders.map (·.stream) = [0] := ⟨_, rfl, rfl, rfl⟩
  exact ⟨_, t, hrun, hlength, hstreams, run_delivers hrun⟩

end StdioTransport

end HeadlessMcp
