import HeadlessMcp.Wire.Framing

/-!
# The text of an event stream

A stream is a sequence of events, and an event is a sequence of lines with a blank one at its
end: comments and fields, in any order, each ended by a line feed or by a carriage return and a
line feed. What counts of an event is its data, and the decoder reads the data of the events in
order, whatever lines stand next to it (`feed_streamText`).
-/

namespace HeadlessMcp

/-! ## Lines and events -/

/-- A text that fits on a line. -/
structure LineText : Type where
  text : String
  plain : '\n' ∉ text.toList ∧ '\r' ∉ text.toList

/-- The fields of an event. -/
inductive SseField : Type where
  | event : SseField
  | id : SseField
  | retry : SseField
  | data : SseField
  deriving DecidableEq

/-- The name of a field. -/
def SseField.name : SseField → String
  | event => "event"
  | id => "id"
  | retry => "retry"
  | data => "data"

theorem SseField.name_plain (f : SseField) :
    ':' ∉ f.name.toList ∧ '\n' ∉ f.name.toList ∧ '\r' ∉ f.name.toList := by
  cases f <;> decide

/-- A line of an event. -/
inductive SseLine : Type where
  /-- a comment -/
  | comment (text : LineText) : SseLine
  /-- a field, with what follows its colon, if it has one -/
  | field (f : SseField) (rest : Option LineText) : SseLine

/-- Its text. -/
def SseLine.text : SseLine → List Char
  | comment text => ':' :: text.text.toList
  | field f none => f.name.toList
  | field f (some rest) => f.name.toList ++ ':' :: rest.text.toList

/-- A text without the blank that it may start with. -/
def dropBlank (s : String) : String :=
  match s.toList with
  | ' ' :: rest => String.ofList rest
  | _ => s

/-- What the line adds to the data of its event. -/
def SseLine.data : SseLine → Option String
  | field .data none => some ""
  | field .data (some rest) => some (dropBlank rest.text)
  | _ => none

/-- The end of a line. -/
inductive LineEnd : Type where
  | lf : LineEnd
  | crlf : LineEnd

/-- What stands before its line feed. -/
def LineEnd.start : LineEnd → List Char
  | lf => []
  | crlf => ['\r']

/-- An event of a stream: its lines, and the blank line after them. -/
structure SseBlock : Type where
  lines : List (SseLine × LineEnd)
  close : LineEnd

namespace SseBlock

/-- The lines, each up to its line feed. -/
def rawLines (block : SseBlock) : List (List Char) :=
  block.lines.map (fun line => line.1.text ++ line.2.start) ++ [block.close.start]

/-- The data, line by line. -/
def dataLines (block : SseBlock) : List String := block.lines.filterMap (·.1.data)

/-- The data, if there is any. -/
def data (block : SseBlock) : Option String :=
  if block.dataLines = [] then none else some ("\n".intercalate block.dataLines)

end SseBlock

/-- The text of a stream. -/
def streamText (blocks : List SseBlock) : String :=
  String.ofList ((blocks.flatMap SseBlock.rawLines).flatMap (· ++ ['\n']))

/-! ## Reading a line -/

/-- A line is not empty and holds no line end. -/
theorem SseLine.text_plain (line : SseLine) :
    line.text ≠ [] ∧ '\n' ∉ line.text ∧ '\r' ∉ line.text := by
  cases line with
  | comment text =>
    obtain ⟨hlf, hcr⟩ := text.plain
    simp [SseLine.text, hlf, hcr]
  | field f rest =>
    obtain ⟨-, hlf, hcr⟩ := f.name_plain
    cases rest with
    | none =>
      refine ⟨?_, hlf, hcr⟩
      cases f <;> decide
    | some rest =>
      obtain ⟨hlf', hcr'⟩ := rest.plain
      simp [SseLine.text, hlf, hcr, hlf', hcr']

/-- Without a colon, a line is all name. -/
theorem fieldOf_name {name : List Char} (h : ':' ∉ name) :
    fieldOf (String.ofList name) = (String.ofList name, "") := by
  have hname : ∀ c ∈ name, decide (c ≠ ':') = true := fun c hc =>
    decide_eq_true fun heq => h (heq ▸ hc)
  rw [fieldOf, String.toList_ofList, List.takeWhile_eq_self_iff.mpr hname,
    List.dropWhile_eq_nil_iff.mpr hname]
  rfl

/-- A line adds its data to that of the event that is being read. -/
theorem dataLines_applyLine (line : SseLine) (p : PendingEvent) :
    (p.applyLine (String.ofList line.text)).dataLines = p.dataLines ++ line.data.toList := by
  cases line with
  | comment text =>
    have hcolon : (String.ofList (SseLine.comment text).text).toList.head? = some ':' := by
      rw [String.toList_ofList]
      rfl
    rw [PendingEvent.applyLine, if_pos hcolon]
    exact (List.append_nil _).symm
  | field f rest =>
    obtain ⟨hcolon, -, -⟩ := f.name_plain
    have hhead : (String.ofList (SseLine.field f rest).text).toList.head? ≠ some ':' := by
      rw [String.toList_ofList]
      cases f <;> cases rest <;> simp [SseLine.text, SseField.name]
    rw [PendingEvent.applyLine, if_neg hhead]
    cases rest with
    | none =>
      rw [SseLine.text, fieldOf_name hcolon]
      cases f <;> simp [SseField.name, SseLine.data]
    | some rest =>
      rw [SseLine.text, fieldOf_ofList hcolon]
      cases f with
      | data =>
        simp only [SseField.name, String.ofList_toList, SseLine.data, Option.toList_some]
        rfl
      | _ => simp [SseField.name, SseLine.data]

/-- The end of a line does not matter. -/
theorem dropCarriageReturn_line {text : List Char} (h : '\r' ∉ text) (lineEnd : LineEnd) :
    dropCarriageReturn (text ++ lineEnd.start) = text := by
  cases lineEnd with
  | lf =>
    rw [LineEnd.start, List.append_nil]
    exact if_neg fun heq => h (List.mem_of_getLast? heq)
  | crlf =>
    rw [LineEnd.start, dropCarriageReturn, if_pos List.getLast?_concat, List.dropLast_concat]

/-! ## Reading an event -/

/-- The lines of an event collect its data. -/
theorem feedLines_lines (lines : List (SseLine × LineEnd)) (more : List (List Char))
    (p : PendingEvent) :
    ∃ q : PendingEvent, q.dataLines = p.dataLines ++ lines.filterMap (·.1.data) ∧
      feedLines (lines.map (fun line => line.1.text ++ line.2.start) ++ more) p =
        feedLines more q := by
  induction lines generalizing p with
  | nil => exact ⟨p, (List.append_nil _).symm, rfl⟩
  | cons line lines ih =>
    obtain ⟨hne, -, hcr⟩ := line.1.text_plain
    obtain ⟨q, hq, hfeed⟩ := ih (p.applyLine (String.ofList line.1.text))
    refine ⟨q, ?_, ?_⟩
    · rw [hq, dataLines_applyLine, List.append_assoc, List.filterMap_cons]
      cases line.1.data <;> rfl
    · rw [List.map_cons, List.cons_append, feedLines, dropCarriageReturn_line hcr, ← hfeed]
      split
      · rename_i hnil
        exact absurd hnil hne
      · rfl

/-- An event is read for its data. -/
theorem feedLines_block (block : SseBlock) (more : List (List Char)) :
    ((feedLines (block.rawLines ++ more) {}).1.map (·.data)) =
      block.data.toList ++ (feedLines more {}).1.map (·.data) := by
  obtain ⟨q, hq, hfeed⟩ := feedLines_lines block.lines (block.close.start :: more) {}
  have hblank : dropCarriageReturn block.close.start = [] :=
    dropCarriageReturn_line List.not_mem_nil block.close
  rw [SseBlock.rawLines, List.append_assoc, List.singleton_append, hfeed, feedLines, hblank]
  dsimp only
  rw [List.map_append, PendingEvent.dispatch, SseBlock.data, SseBlock.dataLines, hq]
  refine congrArg (· ++ _) ?_
  rw [List.nil_append]
  split <;> rfl

theorem feedLines_blocks (blocks : List SseBlock) :
    (feedLines (blocks.flatMap SseBlock.rawLines) {}).1.map (·.data) =
      blocks.filterMap SseBlock.data := by
  induction blocks with
  | nil => rfl
  | cons block blocks ih =>
    rw [List.flatMap_cons, feedLines_block, ih, List.filterMap_cons]
    cases block.data <;> rfl

/-- **The decoder reads the data of the events**, in their order. -/
theorem feed_streamText (blocks : List SseBlock) :
    ((({} : SseDecoder).feed (streamText blocks)).1.map (·.data)) =
      blocks.filterMap SseBlock.data := by
  have hlines : ∀ line ∈ blocks.flatMap SseBlock.rawLines, '\n' ∉ line := by
    intro line hline
    obtain ⟨block, -, hline⟩ := List.mem_flatMap.mp hline
    have hstart : ∀ lineEnd : LineEnd, '\n' ∉ lineEnd.start := by
      rintro (_ | _) <;> decide
    rcases List.mem_append.mp hline with hline | hline
    · obtain ⟨l, -, rfl⟩ := List.mem_map.mp hline
      have htext := l.1.text_plain.2.1
      simp [htext, hstart]
    · rw [List.mem_singleton.mp hline]
      exact hstart _
  rw [SseDecoder.feed, List.nil_append, streamText, String.toList_ofList,
    splitLines_flatMap hlines]
  exact feedLines_blocks blocks

end HeadlessMcp
