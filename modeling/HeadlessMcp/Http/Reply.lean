import HeadlessMcp.Http.Backend
import HeadlessMcp.Wire.EventStream

/-!
# Replies in an event stream

A backend may answer a request with an event stream, where notifications and requests of its own
come before the response. `json_payload` takes a body for a stream when it begins with an `event:`
or a `data:` line, and then takes the first event that has data; the id of the request plays no
part. So `parse_response` returns the response exactly when such a line comes first and the
response is the first event with data (`parseResponse_returns_iff`).

So valid streams are misread: one that begins with a comment is not seen to be a stream, and of
one with a notification in front the notification is taken.
-/

namespace HeadlessMcp

/-! ## Responses -/

/-- The id that a response answers. -/
def JsonRpcMessage.responseId : JsonRpcMessage → Option JsonRpcId
  | success id _ => some id
  | error id _ => id
  | _ => none

/-- The result or error that a message has for the caller. -/
def HttpBackend.outcome (b : HttpBackend) : JsonRpcMessage → BackendResult Value
  | .success _ result => .ok result
  | .error _ err => .error (protocolError
      s!"backend '{b.id}' returned error (code {err.code}): {err.message}")
  | _ => .error (protocolError "unexpected response type")

/-- Exactly one event of the stream has the response to a request. Other events may carry
notifications and requests of the server, before it and after it. -/
structure AnsweredBy (serde : Serde) (blocks : List SseBlock) (i : JsonRpcId) (json : String)
    (response : JsonRpcMessage) : Prop where
  event : ∃ before event after, blocks = before ++ event :: after ∧ event.data = some json ∧
    ∀ other ∈ before ++ after, ∀ text m, other.data = some text →
      decodeMessage serde text = .ok m → m.responseId ≠ some i
  decoded : decodeMessage serde json = .ok response
  own : response.responseId = some i

/-- `parse_response` returns the result or error of a response: that is the message that it
decodes, and never one with another id. -/
structure Returns (b : HttpBackend) (body : String) (i : JsonRpcId) (response : JsonRpcMessage) :
    Prop where
  decodes : ∃ payload, jsonPayload body = some payload ∧
    decodeMessage b.serde payload = .ok response
  own : ∀ payload m id, jsonPayload body = some payload → decodeMessage b.serde payload = .ok m →
    m.responseId = some id → id = i
  returned : b.parseResponse body = b.outcome response

/-! ## Bodies -/

/-- The white space of JSON. -/
def isJsonSpace (c : Char) : Bool := c ∈ [' ', '\t', '\n', '\r']

/-- What a JSON value begins with. -/
def jsonStart : List Char :=
  ['\x7b', '[', '"', '-', 't', 'f', 'n', '0', '1', '2', '3', '4', '5', '6', '7', '8', '9']

/-- `serde_json` rejects a text that does not begin like a JSON value. So a stream that is taken
for a plain body is an error, and never a message. -/
def Serde.RejectsOther (serde : Serde) : Prop :=
  ∀ text, (∀ c, (text.toList.dropWhile isJsonSpace).head? = some c → c ∉ jsonStart) →
    ∃ e, serde.fromSlice text = .error e

/-- The stream begins with an `event:` or a `data:` line. This is what `json_payload` goes by, so
a comment in front hides the stream from it. -/
def BeginsWithField (blocks : List SseBlock) : Prop :=
  ∃ block more f rest lineEnd lines, blocks = block :: more ∧
    block.lines = (.field f (some rest), lineEnd) :: lines ∧ (f = .event ∨ f = .data)

section Bodies

variable {b : HttpBackend} {blocks : List SseBlock} {body json : String}

/-- A body is taken for a stream. Then its first event with data is what the caller gets. -/
def Detected (body : String) : Prop :=
  ("event:".toList.isPrefixOf body.toList || "data:".toList.isPrefixOf body.toList) = true

theorem jsonPayload_detected (h : Detected body) :
    jsonPayload body = (({} : SseDecoder).feed body).1.head?.map (·.data) := if_pos h

theorem jsonPayload_undetected (h : ¬ Detected body) : jsonPayload body = some body := if_neg h

theorem jsonPayload_streamText (h : Detected (streamText blocks)) :
    jsonPayload (streamText blocks) = (blocks.filterMap SseBlock.data).head? := by
  rw [jsonPayload_detected h, ← feed_streamText, List.head?_map]

/-- The text of a stream, up to the end of its first line. -/
theorem streamText_cases (blocks : List SseBlock) :
    blocks = [] ∧ (streamText blocks).toList = [] ∨
      (∃ close more, blocks = ⟨[], close⟩ :: more ∧
        (streamText blocks).toList = close.start ++ '\n' :: (streamText more).toList) ∨
      ∃ line lineEnd lines close more rest, blocks = ⟨(line, lineEnd) :: lines, close⟩ :: more ∧
        (streamText blocks).toList = line.text ++ (lineEnd.start ++ '\n' :: rest) := by
  rcases blocks with _ | ⟨⟨_ | ⟨⟨line, lineEnd⟩, lines⟩, close⟩, more⟩
  · exact .inl ⟨rfl, rfl⟩
  · refine .inr (.inl ⟨close, more, rfl, ?_⟩)
    simp [streamText, SseBlock.rawLines]
  · refine .inr (.inr ⟨line, lineEnd, lines, close, more,
      (SseBlock.rawLines ⟨lines, close⟩ ++ more.flatMap SseBlock.rawLines).flatMap (· ++ ['\n']),
      rfl, ?_⟩)
    simp [streamText, SseBlock.rawLines]

/-- A stream is taken for one exactly when it begins with such a line. -/
theorem detected_streamText_iff : Detected (streamText blocks) ↔ BeginsWithField blocks := by
  have other {line : SseLine} {lineEnd : LineEnd} {lines : List (SseLine × LineEnd)}
      {close : LineEnd} {more : List SseBlock}
      (h : ∀ rest, line ≠ .field .event (some rest) ∧ line ≠ .field .data (some rest)) :
      ¬ BeginsWithField (⟨(line, lineEnd) :: lines, close⟩ :: more) := by
    rintro ⟨block, more, f, rest, lineEnd, lines, hblocks, hlines, hf⟩
    cases hblocks
    cases hlines
    rcases hf with rfl | rfl
    · exact (h rest).1 rfl
    · exact (h rest).2 rfl
  rcases streamText_cases blocks with ⟨rfl, htext⟩ | ⟨close, more, rfl, htext⟩ |
    ⟨line, lineEnd, lines, close, more, rest, rfl, htext⟩
  · rw [Detected, htext]
    refine iff_of_false (by decide) ?_
    rintro ⟨_, _, _, _, _, _, hblocks, -⟩
    cases hblocks
  · rw [Detected, htext]
    refine iff_of_false ?_ ?_
    · cases close <;> exact Bool.false_ne_true
    · rintro ⟨_, _, _, _, _, _, hblocks, hlines, -⟩
      cases hblocks
      cases hlines
  · rw [Detected, htext]
    cases line with
    | comment text =>
      exact iff_of_false Bool.false_ne_true (other fun _ => ⟨nofun, nofun⟩)
    | field f value =>
      cases value with
      | none =>
        refine iff_of_false ?_ (other fun _ => ⟨nofun, nofun⟩)
        cases f <;> cases lineEnd <;> exact Bool.false_ne_true
      | some value =>
        cases f with
        | event => exact iff_of_true rfl ⟨_, _, _, _, _, _, rfl, rfl, .inl rfl⟩
        | data => exact iff_of_true rfl ⟨_, _, _, _, _, _, rfl, rfl, .inr rfl⟩
        | _ => exact iff_of_false Bool.false_ne_true (other fun _ => ⟨nofun, nofun⟩)

/-- A stream does not begin like a JSON value. -/
theorem head_streamText {c : Char}
    (h : ((streamText blocks).toList.dropWhile isJsonSpace).head? = some c) : c ∉ jsonStart := by
  induction blocks with
  | nil => cases h
  | cons block blocks ih =>
    rcases streamText_cases (block :: blocks) with ⟨hnil, -⟩ | ⟨close, more, hblocks, htext⟩ |
      ⟨line, lineEnd, lines, close, more, rest, -, htext⟩
    · cases hnil
    · -- blank lines are white space
      cases hblocks
      rw [htext] at h
      cases close <;> exact ih h
    · rw [htext] at h
      cases line with
      | comment text =>
        cases h
        decide
      | field f value => cases value <;> cases f <;> cases h <;> decide

theorem parseResponse_eq {m : JsonRpcMessage} (hpayload : jsonPayload body = some json)
    (hdecoded : decodeMessage b.serde json = .ok m) : b.parseResponse body = b.outcome m := by
  rw [HttpBackend.parseResponse, hpayload]
  dsimp only
  rw [hdecoded]
  cases m <;> rfl

/-- What is decoded was parsed. -/
theorem fromSlice_of_decodeMessage {serde : Serde} {m : JsonRpcMessage}
    (h : decodeMessage serde json = .ok m) : ∃ v, serde.fromSlice json = .ok v := by
  rw [decodeMessage] at h
  split at h
  · cases h
  · cases hparse : serde.fromSlice json with
    | ok v => exact ⟨v, rfl⟩
    | error e =>
      rw [hparse] at h
      cases h

variable {serde : Serde}

/-- A message is not taken for a stream. -/
theorem undetected_of_decodeMessage (hserde : serde.RejectsOther) {m : JsonRpcMessage}
    (h : decodeMessage serde json = .ok m) : ¬ Detected json := by
  intro hdetected
  obtain ⟨v, hv⟩ := fromSlice_of_decodeMessage h
  have hstart : ∀ c, (json.toList.dropWhile isJsonSpace).head? = some c → c ∉ jsonStart := by
    intro c hc
    rcases (Bool.or_eq_true _ _).mp hdetected with hevent | hdata
    · obtain ⟨rest, hrest⟩ := List.isPrefixOf_iff_prefix.mp hevent
      rw [← hrest] at hc
      cases hc
      decide
    · obtain ⟨rest, hrest⟩ := List.isPrefixOf_iff_prefix.mp hdata
      rw [← hrest] at hc
      cases hc
      decide
  obtain ⟨e, he⟩ := hserde json hstart
  rw [he] at hv
  cases hv

/-- A stream is no message. -/
theorem decodeMessage_streamText (hserde : serde.RejectsOther) {m : JsonRpcMessage} :
    decodeMessage serde (streamText blocks) ≠ .ok m := by
  intro h
  obtain ⟨v, hv⟩ := fromSlice_of_decodeMessage h
  obtain ⟨e, he⟩ := hserde (streamText blocks) fun c hc => head_streamText hc
  rw [he] at hv
  cases hv

/-- The one event that has the response is known by its data. -/
theorem AnsweredBy.unique {i : JsonRpcId} {response m : JsonRpcMessage} {text : String}
    (h : AnsweredBy serde blocks i json response) (htext : text ∈ blocks.filterMap SseBlock.data)
    (hdecoded : decodeMessage serde text = .ok m) (hid : m.responseId = some i) : text = json := by
  obtain ⟨before, event, after, rfl, hdata, hothers⟩ := h.event
  obtain ⟨block, hblock, hblockData⟩ := List.mem_filterMap.mp htext
  have hcases : block = event ∨ block ∈ before ++ after := by
    simp only [List.mem_append, List.mem_cons] at hblock ⊢
    tauto
  rcases hcases with rfl | hother
  · exact Option.some.inj (hblockData.symm.trans hdata)
  · exact absurd hid (hothers block hother text m hblockData hdecoded)

end Bodies

/-- **When `parse_response` returns the response.** For a stream in which exactly one event has
the response to the request, `parse_response` returns the result or error of that response, and
parses a stream of a single event like its data sent unframed, if and only if the stream begins
with an `event:` or a `data:` line and no other data comes before the response. The lines of the
stream end with LF or CRLF, as those do that the decoder knows. -/
theorem parseResponse_returns_iff {b : HttpBackend} (hserde : b.serde.RejectsOther)
    {blocks : List SseBlock} {i : JsonRpcId} {json : String} {response : JsonRpcMessage}
    (h : AnsweredBy b.serde blocks i json response) :
    (Returns b (streamText blocks) i response ∧
      (blocks.length = 1 → b.parseResponse (streamText blocks) = b.parseResponse json)) ↔
      BeginsWithField blocks ∧ (blocks.filterMap SseBlock.data).head? = some json := by
  constructor
  · rintro ⟨⟨⟨payload, hpayload, hdecodes⟩, -, -⟩, -⟩
    by_cases hdetected : Detected (streamText blocks)
    · rw [jsonPayload_streamText hdetected] at hpayload
      refine ⟨detected_streamText_iff.mp hdetected, ?_⟩
      rw [hpayload, h.unique (List.mem_of_mem_head? hpayload) hdecodes h.own]
    · rw [jsonPayload_undetected hdetected] at hpayload
      obtain rfl := Option.some.inj hpayload
      exact absurd hdecodes (decodeMessage_streamText hserde)
  · rintro ⟨hbegins, hfirst⟩
    have hpayload : jsonPayload (streamText blocks) = some json := by
      rw [jsonPayload_streamText (detected_streamText_iff.mpr hbegins), hfirst]
    have hreturned := parseResponse_eq hpayload h.decoded
    refine ⟨⟨⟨json, hpayload, h.decoded⟩, fun payload m id hpayload' hm hid => ?_, hreturned⟩,
      fun _ => ?_⟩
    · obtain rfl := Option.some.inj (hpayload.symm.trans hpayload')
      obtain rfl := Except.ok.inj (h.decoded.symm.trans hm)
      exact Option.some.inj (hid.symm.trans h.own)
    · have hunframed := jsonPayload_undetected (undetected_of_decodeMessage hserde h.decoded)
      rw [hreturned, parseResponse_eq hunframed h.decoded]

/-! ### Sample streams -/

/-- The progress of a call. -/
def callProgress : JsonRpcMessage := .notification "notifications/progress" none

/-- The answer to the second request. -/
def callAnswer : JsonRpcMessage := .success (.number 1) (.string "done")

/-- The answer to the first one. -/
def earlierAnswer : JsonRpcMessage := .success (.number 0) (.string "old")

/-- `serde_json` on these texts. -/
def streamSerde : Serde where
  fromSlice text :=
    if text = callProgress.encode then .ok (.object callProgress.fields)
    else if text = callAnswer.encode then .ok (.object callAnswer.fields)
    else if text = earlierAnswer.encode then .ok (.object earlierAnswer.fields)
    else .error "expected value at line 1 column 1"
  rejects _ := "invalid type"

theorem streamSerde_rejectsOther : streamSerde.RejectsOther := by
  intro text h
  simp only [streamSerde]
  split
  · rename_i heq
    exact absurd (h '\x7b' (by rw [heq]; decide)) (by decide)
  · split
    · rename_i heq
      exact absurd (h '\x7b' (by rw [heq]; decide)) (by decide)
    · split
      · rename_i heq
        exact absurd (h '\x7b' (by rw [heq]; decide)) (by decide)
      · exact ⟨_, rfl⟩

/-- A backend that reads them. -/
def streamBackend : HttpBackend where
  id := "b"
  url := "https://b.test/mcp"
  origin := none
  manager := none
  daemonMode := false
  serde := streamSerde

theorem decode_callProgress : decodeMessage streamSerde callProgress.encode = .ok callProgress := by
  have hdepth : exceedsMaxNesting callProgress.encode maxJsonNestingDepth = false := by decide
  rw [decodeMessage, hdepth]
  simp only [streamSerde, if_true]
  rfl

theorem decode_callAnswer : decodeMessage streamSerde callAnswer.encode = .ok callAnswer := by
  have hdepth : exceedsMaxNesting callAnswer.encode maxJsonNestingDepth = false := by decide
  have hother : callAnswer.encode ≠ callProgress.encode := by decide
  rw [decodeMessage, hdepth]
  simp only [streamSerde, if_neg hother, if_true]
  rfl

theorem decode_earlierAnswer :
    decodeMessage streamSerde earlierAnswer.encode = .ok earlierAnswer := by
  have hdepth : exceedsMaxNesting earlierAnswer.encode maxJsonNestingDepth = false := by decide
  have hother : earlierAnswer.encode ≠ callProgress.encode := by decide
  have hother' : earlierAnswer.encode ≠ callAnswer.encode := by decide
  rw [decodeMessage, hdepth]
  simp only [streamSerde, if_neg hother, if_neg hother', if_true]
  rfl

/-- An event with one of these texts as its data. -/
def eventOf (m : JsonRpcMessage) (h : '\n' ∉ m.encode.toList ∧ '\r' ∉ m.encode.toList) : SseBlock :=
  ⟨[(.field .event (some ⟨" message", by decide⟩), .lf), (.field .data (some ⟨m.encode, h⟩), .lf)],
    .lf⟩

def progressEvent : SseBlock := eventOf callProgress (by decide)
def answerEvent : SseBlock := eventOf callAnswer (by decide)
def earlierEvent : SseBlock := eventOf earlierAnswer (by decide)

/-- The answer after a comment. -/
def commentedEvent : SseBlock :=
  ⟨(.comment ⟨" ping", by decide⟩, .lf) :: answerEvent.lines, .lf⟩

theorem data_progressEvent : progressEvent.data = some callProgress.encode := by decide
theorem data_answerEvent : answerEvent.data = some callAnswer.encode := by decide
theorem data_earlierEvent : earlierEvent.data = some earlierAnswer.encode := by decide
theorem data_commentedEvent : commentedEvent.data = some callAnswer.encode := by decide

/-- Next to these events, the answer is the only response to the second request. -/
theorem answeredBy_callAnswer {before after : List SseBlock} {event : SseBlock}
    (hevent : event.data = some callAnswer.encode)
    (hothers : ∀ other ∈ before ++ after, other = progressEvent ∨ other = earlierEvent) :
    AnsweredBy streamBackend.serde (before ++ event :: after) (.number 1) callAnswer.encode
      callAnswer := by
  refine ⟨⟨before, event, after, rfl, hevent, fun other hother text m htext hm => ?_⟩,
    decode_callAnswer, rfl⟩
  rcases hothers other hother with rfl | rfl
  · obtain rfl := Option.some.inj (htext.symm.trans data_progressEvent)
    obtain rfl := Except.ok.inj (hm.symm.trans decode_callProgress)
    decide
  · obtain rfl := Option.some.inj (htext.symm.trans data_earlierEvent)
    obtain rfl := Except.ok.inj (hm.symm.trans decode_earlierAnswer)
    decide

/-- A response that comes first is returned. -/
theorem first_response_is_returned :
    Returns streamBackend (streamText [answerEvent, progressEvent]) (.number 1) callAnswer := by
  have hothers : ∀ other ∈ [] ++ [progressEvent], other = progressEvent ∨ other = earlierEvent :=
    fun _ h => .inl (List.mem_singleton.mp h)
  have hanswered := @answeredBy_callAnswer [] _ _ data_answerEvent hothers
  have hiff := parseResponse_returns_iff streamSerde_rejectsOther hanswered
  exact (hiff.mpr ⟨⟨_, _, _, _, _, _, rfl, rfl, .inl rfl⟩, by decide⟩).1

/-- Progress before the answer makes the call fail, the answer to another request is taken for it,
and a comment before it makes the body no stream. -/
theorem response_is_missed :
    (AnsweredBy streamBackend.serde [progressEvent, answerEvent] (.number 1) callAnswer.encode
        callAnswer ∧
      streamBackend.parseResponse (streamText [progressEvent, answerEvent]) =
        .error (HttpBackend.protocolError "unexpected response type")) ∧
    (AnsweredBy streamBackend.serde [earlierEvent, answerEvent] (.number 1) callAnswer.encode
        callAnswer ∧
      streamBackend.parseResponse (streamText [earlierEvent, answerEvent]) =
        .ok (.string "old")) ∧
    AnsweredBy streamBackend.serde [commentedEvent] (.number 1) callAnswer.encode callAnswer ∧
      streamBackend.parseResponse (streamText [commentedEvent]) ≠
        streamBackend.parseResponse callAnswer.encode := by
  have hfirst {event : SseBlock} {json : String} (hlines : ∃ rest lineEnd lines,
      event.lines = (.field .event (some rest), lineEnd) :: lines) (hdata : event.data = some json) :
      jsonPayload (streamText [event, answerEvent]) = some json := by
    obtain ⟨rest, lineEnd, lines, hlines⟩ := hlines
    rw [jsonPayload_streamText (detected_streamText_iff.mpr
      ⟨_, _, _, _, _, _, rfl, hlines, .inl rfl⟩), List.filterMap_cons, hdata]
    rfl
  refine ⟨⟨?_, ?_⟩, ⟨?_, ?_⟩, ?_, ?_⟩
  · exact @answeredBy_callAnswer [progressEvent] [] _ data_answerEvent
      fun _ h => .inl (List.mem_singleton.mp h)
  · exact @parseResponse_eq streamBackend _ _ _ (hfirst ⟨_, _, _, rfl⟩ data_progressEvent)
      decode_callProgress
  · exact @answeredBy_callAnswer [earlierEvent] [] _ data_answerEvent
      fun _ h => .inr (List.mem_singleton.mp h)
  · exact @parseResponse_eq streamBackend _ _ _ (hfirst ⟨_, _, _, rfl⟩ data_earlierEvent)
      decode_earlierAnswer
  · exact @answeredBy_callAnswer [] [] _ data_commentedEvent fun _ h => nomatch h
  · have hunframed := undetected_of_decodeMessage streamSerde_rejectsOther decode_callAnswer
    have hparsed : streamBackend.parseResponse callAnswer.encode = .ok (.string "done") :=
      @parseResponse_eq streamBackend _ _ _ (jsonPayload_undetected hunframed) decode_callAnswer
    have hcomment : ¬ Detected (streamText [commentedEvent]) := by
      rw [detected_streamText_iff]
      rintro ⟨_, _, _, _, _, _, hblocks, hlines, -⟩
      cases hblocks
      cases hlines
    rw [hparsed, HttpBackend.parseResponse, jsonPayload_undetected hcomment]
    dsimp only
    split
    · nofun
    · rename_i hm
      exact absurd hm (decodeMessage_streamText streamSerde_rejectsOther)
    · nofun
    · nofun

end HeadlessMcp
