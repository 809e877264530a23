import HeadlessMcp.Wire.Sse
import Mathlib

/-!
# The framing of server-sent events

Feeding a decoder is a homomorphism: what two chunks yield one after the other is what their
concatenation yields at once (`feed_append`). So only the text counts, not how it was cut
into chunks.

The encoder writes one line for every field and for every line of the data, and a blank line
at the end. The decoder reads them back one by one.
-/

namespace HeadlessMcp

/-! ## Lines -/

theorem splitLines_lineFeed (xs : List Char) :
    splitLines ('\n' :: xs) = ([] :: (splitLines xs).1, (splitLines xs).2) := rfl

/-- A character goes to the front of the first line, complete or not. -/
theorem splitLines_cons {c : Char} (hc : c ≠ '\n') (xs : List Char) :
    splitLines (c :: xs) = match splitLines xs with
      | ([], rest) => ([], c :: rest)
      | (line :: lines, rest) => ((c :: line) :: lines, rest) := by
  rw [splitLines]
  rcases splitLines xs with ⟨_ | ⟨line, lines⟩, rest⟩ <;> exact if_neg hc

/-- The lines of a text that goes on. -/
theorem splitLines_append (xs ys : List Char) :
    splitLines (xs ++ ys) = ((splitLines xs).1 ++ (splitLines ((splitLines xs).2 ++ ys)).1,
      (splitLines ((splitLines xs).2 ++ ys)).2) := by
  induction xs with
  | nil => rfl
  | cons c xs ih =>
    by_cases hc : c = '\n'
    · subst hc
      rw [List.cons_append, splitLines_lineFeed, splitLines_lineFeed, ih]
      rfl
    · rw [List.cons_append, splitLines_cons hc, splitLines_cons hc, ih]
      rcases splitLines xs with ⟨_ | ⟨line, lines⟩, rest⟩
      · dsimp only [List.cons_append, List.nil_append]
        rw [splitLines_cons hc]
      · rfl

/-- A text without a line feed has no complete line. -/
theorem splitLines_of_notMem {xs : List Char} (h : '\n' ∉ xs) : splitLines xs = ([], xs) := by
  induction xs with
  | nil => rfl
  | cons c xs ih =>
    obtain ⟨hc, hxs⟩ := List.ne_and_not_mem_of_not_mem_cons h
    rw [splitLines_cons (Ne.symm hc), ih hxs]

/-- What follows the last line feed has none. -/
theorem notMem_splitLines (xs : List Char) : '\n' ∉ (splitLines xs).2 := by
  induction xs with
  | nil => exact List.not_mem_nil
  | cons c xs ih =>
    by_cases hc : c = '\n'
    · subst hc
      exact ih
    · rw [splitLines_cons hc]
      rcases hs : splitLines xs with ⟨_ | ⟨line, lines⟩, rest⟩ <;> rw [hs] at ih
      · exact List.not_mem_cons_of_ne_of_not_mem (Ne.symm hc) ih
      · exact ih

/-- A line comes off the front of a text. -/
theorem splitLines_line {line : List Char} (h : '\n' ∉ line) (rest : List Char) :
    splitLines (line ++ '\n' :: rest) = (line :: (splitLines rest).1, (splitLines rest).2) := by
  induction line with
  | nil => rfl
  | cons c line ih =>
    obtain ⟨hc, hline⟩ := List.ne_and_not_mem_of_not_mem_cons h
    rw [List.cons_append, splitLines_cons (Ne.symm hc), ih hline]

/-! ## Chunks -/

/-- The events of two parts of the lines, one after the other. -/
theorem feedLines_append (xs ys : List (List Char)) (p : PendingEvent) :
    feedLines (xs ++ ys) p =
      ((feedLines xs p).1 ++ (feedLines ys (feedLines xs p).2).1,
        (feedLines ys (feedLines xs p).2).2) := by
  induction xs generalizing p with
  | nil => rfl
  | cons line xs ih =>
    rw [List.cons_append, feedLines, feedLines]
    cases dropCarriageReturn line with
    | nil =>
      dsimp only
      rw [ih, List.append_assoc]
    | cons c cs => exact ih _

namespace SseDecoder

/-- Feed one chunk after another. -/
def feedAll (d : SseDecoder) : List String → List SseEvent × SseDecoder
  | [] => ([], d)
  | chunk :: chunks =>
    let (events, d) := d.feed chunk
    let (more, d) := feedAll d chunks
    (events ++ more, d)

/-- **Two chunks are as good as one**: their events come in the same order, and the decoder
ends in the same state. -/
theorem feed_append (d : SseDecoder) (a b : String) :
    d.feed (a ++ b) = ((d.feed a).1 ++ ((d.feed a).2.feed b).1, ((d.feed a).2.feed b).2) := by
  simp only [feed, String.toList_append]
  rw [← List.append_assoc, splitLines_append, feedLines_append]

/-- A decoder that has read every complete line of what it was fed. -/
def Settled (d : SseDecoder) : Prop := '\n' ∉ d.buffer

theorem settled_new : Settled {} := List.not_mem_nil

theorem settled_feed (d : SseDecoder) (chunk : String) : (d.feed chunk).2.Settled :=
  notMem_splitLines _

theorem Settled.feedAll {d : SseDecoder} (h : d.Settled) (chunks : List String) :
    (d.feedAll chunks).2.Settled := by
  induction chunks generalizing d with
  | nil => exact h
  | cons chunk chunks ih => exact ih (d.settled_feed chunk)

/-- An empty chunk does nothing. -/
theorem Settled.feed_empty {d : SseDecoder} (h : d.Settled) : d.feed "" = ([], d) := by
  have hlines : splitLines (d.buffer ++ "".toList) = ([], d.buffer) := by
    rw [String.toList_empty, List.append_nil]
    exact splitLines_of_notMem h
  rw [feed, hlines]
  rfl

/-- Feeding chunks is feeding their concatenation. -/
theorem Settled.feedAll_eq {d : SseDecoder} (h : d.Settled) (chunks : List String) :
    d.feedAll chunks = d.feed (String.join chunks) := by
  induction chunks generalizing d with
  | nil => rw [String.join_nil, h.feed_empty, SseDecoder.feedAll]
  | cons chunk chunks ih =>
    rw [String.join_cons, feed_append, SseDecoder.feedAll, ← ih (d.settled_feed chunk)]

/-- **Chunking does not matter**: wherever a decoder has got to, the same text yields the same
events in total and leaves the decoder in the same state, however it is cut into chunks. So the
client may read the stream in whatever pieces the network hands over. -/
theorem feedAll_congr (history chunks chunks' : List String)
    (htext : String.join chunks = String.join chunks') :
    (SseDecoder.feedAll {} history).2.feedAll chunks =
      (SseDecoder.feedAll {} history).2.feedAll chunks' := by
  have hsettled := settled_new.feedAll history
  rw [hsettled.feedAll_eq, hsettled.feedAll_eq, htext]

/-- A line end and the blank line after it may be cut anywhere. -/
theorem cut_line_end :
    (feedAll {} [": ping\r\nda"]).2.feedAll ["ta: 1\r", "\n\r", "\n"] =
      (feedAll {} [": ping\r\nda"]).2.feedAll ["ta: 1", "\r\n\r\n"] :=
  feedAll_congr [": ping\r\nda"] ["ta: 1\r", "\n\r", "\n"] ["ta: 1", "\r\n\r\n"] (by decide)

end SseDecoder

/-! ## Round trips -/

/-- The fields of the event fit on a line, and no line of the data ends in a carriage
return. -/
structure SseEvent.Encodable (e : SseEvent) : Prop where
  event : ∀ name, e.event = some name → '\n' ∉ name.toList ∧ '\r' ∉ name.toList
  id : ∀ id, e.id = some id → '\n' ∉ id.toList ∧ '\r' ∉ id.toList
  data : '\r' ∉ e.data.toList

/-- A line of the encoding. -/
def fieldLine (field : String) (value : List Char) : List Char := field.toList ++ ':' :: ' ' :: value

/-- The line of a field that may be missing. -/
def optionalLine (field : String) : Option String → List (List Char)
  | some value => [fieldLine field value.toList]
  | none => []

/-- The lines of an event. -/
def SseEvent.lines (e : SseEvent) : List (List Char) :=
  optionalLine "event" e.event ++ optionalLine "id" e.id ++
    (e.data.toList.splitOn '\n').map (fieldLine "data") ++ [[]]

theorem firstLine_eq {s : String} (h : '\n' ∉ s.toList ∧ '\r' ∉ s.toList) : firstLine s = s := by
  rw [firstLine, List.takeWhile_eq_self_iff.mpr, String.ofList_toList]
  intro c hc
  have hne : c ≠ '\n' ∧ c ≠ '\r' :=
    ⟨fun heq => h.1 (heq ▸ hc), fun heq => h.2 (heq ▸ hc)⟩
  simpa using hne

/-- A field that may be missing, as the encoder writes it. -/
theorem optionalLine_toList (field : String) {value : Option String}
    (h : ∀ v, value = some v → '\n' ∉ v.toList ∧ '\r' ∉ v.toList) :
    (match value with
      | some v => field ++ ": " ++ firstLine v ++ "\n"
      | none => "").toList = (optionalLine field value).flatMap (· ++ ['\n']) := by
  cases value with
  | none => rfl
  | some v =>
    dsimp only
    rw [firstLine_eq (h v rfl)]
    simp [optionalLine, fieldLine]

/-- What the encoder writes, line by line. -/
theorem encodeSseEvent_toList {e : SseEvent} (h : e.Encodable) :
    (encodeSseEvent e).toList = e.lines.flatMap (· ++ ['\n']) := by
  have hevent := optionalLine_toList "event" h.event
  have hid := optionalLine_toList "id" h.id
  have hdata : ((e.data.toList.splitOn '\n').map fun line =>
      "data: " ++ String.ofList line ++ "\n").flatMap String.toList =
        ((e.data.toList.splitOn '\n').map (fieldLine "data")).flatMap (· ++ ['\n']) := by
    rw [List.flatMap_map, List.flatMap_map]
    refine List.flatMap_congr fun line _ => ?_
    simp [fieldLine]
  rw [encodeSseEvent, SseEvent.lines, String.toList_append, String.toList_append,
    String.toList_append, String.toList_join, hdata, List.flatMap_append, List.flatMap_append,
    List.flatMap_append, ← hevent, ← hid]
  rfl

/-- What is split at a separator is part of the whole, without the separator. -/
theorem of_mem_splitOn {α : Type} [DecidableEq α] {a : α} {xs l : List α}
    (h : l ∈ xs.splitOn a) : a ∉ l ∧ l ⊆ xs := by
  induction xs generalizing l with
  | nil =>
    obtain rfl := List.mem_singleton.mp h
    exact ⟨List.not_mem_nil, List.nil_subset _⟩
  | cons x xs ih =>
    rw [List.splitOn_cons_eq_if_modifyHead] at h
    split at h
    · obtain rfl | h := List.mem_cons.mp h
      · exact ⟨List.not_mem_nil, List.nil_subset _⟩
      · exact ⟨(ih h).1, List.Subset.trans (ih h).2 (List.subset_cons_self _ _)⟩
    · rename_i hx
      have hne : a ≠ x := fun heq => hx (beq_iff_eq.mpr heq.symm)
      cases hs : xs.splitOn a with
      | nil => exact absurd hs (List.splitOn_ne_nil a xs)
      | cons first rest =>
        rw [hs] at h ih
        obtain rfl | h := List.mem_cons.mp h
        · obtain ⟨hnot, hsub⟩ := ih List.mem_cons_self
          exact ⟨List.not_mem_cons_of_ne_of_not_mem hne hnot, List.cons_subset_cons x hsub⟩
        · obtain ⟨hnot, hsub⟩ := ih (List.mem_cons_of_mem _ h)
          exact ⟨hnot, List.Subset.trans hsub (List.subset_cons_self _ _)⟩

/-- The lines of an encoding are those that the encoder meant. -/
theorem splitLines_flatMap {lines : List (List Char)} (h : ∀ line ∈ lines, '\n' ∉ line) :
    splitLines (lines.flatMap (· ++ ['\n'])) = (lines, []) := by
  induction lines with
  | nil => rfl
  | cons line lines ih =>
    have hline := h line List.mem_cons_self
    rw [List.flatMap_cons, List.append_assoc, List.singleton_append, splitLines_line hline,
      ih fun l hl => h l (List.mem_cons_of_mem _ hl)]

/-! ### One event -/

theorem fieldOf_ofList {field : List Char} (h : ':' ∉ field) (value : List Char) :
    fieldOf (String.ofList (field ++ ':' :: value)) =
      (String.ofList field, String.ofList value) := by
  have hfield : ∀ c ∈ field, decide (c ≠ ':') = true := fun c hc =>
    decide_eq_true fun heq => h (heq ▸ hc)
  have htake : (field ++ ':' :: value).takeWhile (· ≠ ':') = field := by
    rw [List.takeWhile_append_of_pos hfield, List.takeWhile_cons_of_neg (by decide),
      List.append_nil]
  have hdrop : (field ++ ':' :: value).dropWhile (· ≠ ':') = ':' :: value := by
    rw [List.dropWhile_append_of_pos hfield, List.dropWhile_cons_of_neg (by decide)]
  rw [fieldOf, String.toList_ofList, htake, hdrop, List.tail_cons]

/-- What a line of the encoding does to the event that is being read. -/
def PendingEvent.set (p : PendingEvent) (field value : String) : PendingEvent :=
  match field with
  | "data" => { p with dataLines := p.dataLines ++ [value] }
  | "event" => { p with event := some value }
  | "id" => { p with id := some value }
  | _ => p

/-- The fields that the encoder writes. -/
def fieldNames : List String := ["event", "id", "data"]

theorem fieldNames_plain {field : String} (h : field ∈ fieldNames) :
    ':' ∉ field.toList ∧ '\n' ∉ field.toList ∧ '\r' ∉ field.toList ∧ field.toList ≠ [] := by
  revert field
  decide

/-- A line that starts with a field's name has its value after the colon and a blank. -/
theorem applyLine_fieldLine {field : String} (hfield : field ∈ fieldNames) (p : PendingEvent)
    (value : List Char) :
    p.applyLine (String.ofList (fieldLine field value)) = p.set field (String.ofList value) := by
  obtain ⟨hcolon, -, -, hne⟩ := fieldNames_plain hfield
  have hhead : (fieldLine field value).head? ≠ some ':' := by
    intro heq
    rw [fieldLine, List.head?_append_of_ne_nil _ hne] at heq
    exact hcolon (List.mem_of_mem_head? heq)
  rw [PendingEvent.applyLine, String.toList_ofList, if_neg hhead, fieldLine,
    fieldOf_ofList hcolon]
  simp only [String.toList_ofList, String.ofList_toList]
  simp only [fieldNames, List.mem_cons, List.not_mem_nil, or_false] at hfield
  obtain rfl | rfl | rfl := hfield <;> rfl

/-- A line of the encoding is read back. -/
theorem feedLines_fieldLine {field : String} (hfield : field ∈ fieldNames) {value : List Char}
    (hvalue : '\r' ∉ value) (lines : List (List Char)) (p : PendingEvent) :
    feedLines (fieldLine field value :: lines) p =
      feedLines lines (p.set field (String.ofList value)) := by
  obtain ⟨-, -, hcr, -⟩ := fieldNames_plain hfield
  have hplain : '\r' ∉ fieldLine field value := by
    intro hmem
    obtain hmem | hmem := List.mem_append.mp hmem
    · exact hcr hmem
    · simp only [List.mem_cons] at hmem
      obtain h | h | h := hmem
      · cases h
      · cases h
      · exact hvalue h
  have hkeep : dropCarriageReturn (fieldLine field value) = fieldLine field value :=
    if_neg fun heq => hplain (List.mem_of_getLast? heq)
  rw [← applyLine_fieldLine hfield p value, feedLines, hkeep]
  split
  · rename_i hnil
    rw [fieldLine] at hnil
    exact absurd hnil (by simp)
  · rfl

/-- A field that may be missing is read back. -/
theorem feedLines_optionalLine {field : String} (hfield : field ∈ fieldNames)
    {value : Option String} (hvalue : ∀ v, value = some v → '\n' ∉ v.toList ∧ '\r' ∉ v.toList)
    (lines : List (List Char)) (p : PendingEvent) :
    feedLines (optionalLine field value ++ lines) p =
      feedLines lines (value.elim p (p.set field)) := by
  cases value with
  | none => rfl
  | some v =>
    rw [optionalLine, List.singleton_append, feedLines_fieldLine hfield (hvalue v rfl).2,
      String.ofList_toList]
    rfl

/-- The data is read back line by line. -/
theorem feedLines_dataLines {data : List (List Char)} (h : ∀ line ∈ data, '\r' ∉ line)
    (lines : List (List Char)) (p : PendingEvent) :
    feedLines (data.map (fieldLine "data") ++ lines) p =
      feedLines lines { p with dataLines := p.dataLines ++ data.map String.ofList } := by
  induction data generalizing p with
  | nil => rw [List.map_nil, List.map_nil, List.nil_append, List.append_nil]
  | cons line data ih =>
    rw [List.map_cons, List.cons_append, feedLines_fieldLine (by decide) (h line List.mem_cons_self),
      ih fun l hl => h l (List.mem_cons_of_mem _ hl)]
    simp only [PendingEvent.set, List.append_assoc, List.map_cons, List.singleton_append]

/-- The lines of the data are joined again. -/
theorem intercalate_dataLines (data : String) :
    "\n".intercalate ((data.toList.splitOn '\n').map String.ofList) = data := by
  refine String.toList_injective ?_
  rw [String.toList_intercalate, List.map_map]
  have hid : String.toList ∘ String.ofList = id := funext fun l => String.toList_ofList
  rw [hid, List.map_id]
  exact List.intercalate_splitOn '\n'

/-- An event is read back, whole. -/
theorem feedLines_event {e : SseEvent} (h : e.Encodable) (lines : List (List Char)) :
    feedLines (e.lines ++ lines) {} = (e :: (feedLines lines {}).1, (feedLines lines {}).2) := by
  have hdata : ∀ line ∈ e.data.toList.splitOn '\n', '\r' ∉ line := fun line hline hmem =>
    h.data ((of_mem_splitOn hline).2 hmem)
  -- what has been read when the blank line comes
  have hfields : e.id.elim (e.event.elim {} (PendingEvent.set {} "event"))
      (PendingEvent.set (e.event.elim {} (PendingEvent.set {} "event")) "id") =
        ⟨e.event, e.id, []⟩ := by
    cases e.event <;> cases e.id <;> rfl
  have hdispatch : (⟨e.event, e.id, (e.data.toList.splitOn '\n').map String.ofList⟩ :
      PendingEvent).dispatch = some e := by
    rw [PendingEvent.dispatch, if_neg, intercalate_dataLines]
    rw [List.map_eq_nil_iff]
    exact List.splitOn_ne_nil _ _
  rw [SseEvent.lines, List.append_assoc, List.append_assoc, List.append_assoc,
    feedLines_optionalLine (by decide) h.event, feedLines_optionalLine (by decide) h.id,
    feedLines_dataLines hdata, hfields, List.nil_append, List.singleton_append, feedLines]
  dsimp only [dropCarriageReturn]
  rw [hdispatch]
  rfl

/-- No line of an encoding contains a line feed. -/
theorem notMem_lines {e : SseEvent} (h : e.Encodable) {line : List Char} (hline : line ∈ e.lines) :
    '\n' ∉ line := by
  have plain {field : String} {value : List Char} (hfield : field ∈ fieldNames)
      (hvalue : '\n' ∉ value) : '\n' ∉ fieldLine field value := by
    obtain ⟨-, hlf, -, -⟩ := fieldNames_plain hfield
    simp [fieldLine, hlf, hvalue]
  have optional {field : String} {value : Option String} (hfield : field ∈ fieldNames)
      (hvalue : ∀ v, value = some v → '\n' ∉ v.toList ∧ '\r' ∉ v.toList)
      (hline : line ∈ optionalLine field value) : '\n' ∉ line := by
    cases value with
    | none => cases hline
    | some v =>
      obtain rfl := List.mem_singleton.mp hline
      exact plain hfield (hvalue v rfl).1
  simp only [SseEvent.lines, List.mem_append, List.mem_map, List.mem_singleton] at hline
  obtain ((hline | hline) | ⟨value, hvalue, rfl⟩) | rfl := hline
  · exact optional (by decide) h.event hline
  · exact optional (by decide) h.id hline
  · exact plain (by decide) (of_mem_splitOn hvalue).1
  · exact List.not_mem_nil

/-! ### A stream of events -/

/-- The lines of some events are read back, and nothing is left over. -/
theorem feedLines_events {events : List SseEvent} (h : ∀ e ∈ events, e.Encodable) :
    feedLines (events.flatMap SseEvent.lines) {} = (events, {}) := by
  induction events with
  | nil => rfl
  | cons e events ih =>
    rw [List.flatMap_cons, feedLines_event (h e List.mem_cons_self),
      ih fun e' he' => h e' (List.mem_cons_of_mem _ he')]

/-- The text of some encoded events, in lines. -/
theorem encode_toList {events : List SseEvent} (h : ∀ e ∈ events, e.Encodable) :
    (String.join (events.map encodeSseEvent)).toList =
      (events.flatMap SseEvent.lines).flatMap (· ++ ['\n']) := by
  rw [String.toList_join, List.flatMap_map, List.flatMap_assoc]
  exact List.flatMap_congr fun e he => encodeSseEvent_toList (h e he)

/-- **What is encoded is decoded**: some events, encoded and cut into chunks anyhow, come out of
one decoder as they were, in order, and nothing is left in it. The cuts may fall anywhere, inside
a line, between the two characters of a line end or between two events. -/
theorem feedAll_encode {events : List SseEvent} (h : ∀ e ∈ events, e.Encodable)
    {chunks : List String} (htext : String.join chunks = String.join (events.map encodeSseEvent)) :
    SseDecoder.feedAll {} chunks = (events, {}) := by
  have hlines : ∀ line ∈ events.flatMap SseEvent.lines, '\n' ∉ line := by
    intro line hline
    obtain ⟨e, he, hline⟩ := List.mem_flatMap.mp hline
    exact notMem_lines (h e he) hline
  rw [SseDecoder.settled_new.feedAll_eq, htext, SseDecoder.feed, List.nil_append,
    encode_toList h, splitLines_flatMap hlines]
  dsimp only
  rw [feedLines_events h]

/-- An event with two lines of data, cut inside a field and before its blank line. -/
theorem update_is_decoded :
    SseDecoder.feedAll {} ["event: upd", "ate\nid: 42\ndata: a: b\nda", "ta:  c\n", "\n"] =
      ([⟨some "update", "a: b\n c", some "42"⟩], {}) := by
  have hplain : ∀ e ∈ [(⟨some "update", "a: b\n c", some "42"⟩ : SseEvent)], e.Encodable := by
    intro e he
    obtain rfl := List.mem_singleton.mp he
    refine ⟨?_, ?_, by decide⟩ <;> rintro v ⟨⟩ <;> decide
  exact feedAll_encode hplain (by decide)

end HeadlessMcp
