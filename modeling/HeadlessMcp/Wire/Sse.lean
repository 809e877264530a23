import Mathlib

/-!
# Server-sent events

The framing of server-sent events: an incremental decoder that buffers what it is fed and
yields every event that is complete.

A chunk may end anywhere. So the decoder keeps the text after the last line feed, besides the
event that it is reading; a carriage return is taken off the end of a line when the line is
complete.
-/

namespace HeadlessMcp

/-- One event. -/
structure SseEvent : Type where
  event : Option String
  data : String
  id : Option String
  deriving DecidableEq

/-! ## Encoding -/

/-- `first_line`. -/
def firstLine (s : String) : String :=
  String.ofList (s.toList.takeWhile fun c => c ≠ '\n' ∧ c ≠ '\r')

/-- `encode_sse_event`. -/
def encodeSseEvent (event : SseEvent) : String :=
  (match event.event with
    | some name => "event: " ++ firstLine name ++ "\n"
    | none => "") ++
  (match event.id with
    | some id => "id: " ++ firstLine id ++ "\n"
    | none => "") ++
  String.join ((event.data.toList.splitOn '\n').map fun line =>
    "data: " ++ String.ofList line ++ "\n") ++ "\n"

/-! ## Decoding -/

/-- The event that is being read. -/
structure PendingEvent : Type where
  event : Option String := none
  id : Option String := none
  dataLines : List String := []
  deriving DecidableEq

/-- A line split at its first colon; without one the value is empty. -/
def fieldOf (line : String) : String × String :=
  (String.ofList (line.toList.takeWhile (· ≠ ':')),
    String.ofList (line.toList.dropWhile (· ≠ ':')).tail)

namespace PendingEvent

/-- `apply_line`. -/
def applyLine (p : PendingEvent) (line : String) : PendingEvent :=
  if line.toList.head? = some ':' then p
  else
    let (field, rawValue) := fieldOf line
    let value := match rawValue.toList with
      | ' ' :: rest => String.ofList rest
      | _ => rawValue
    match field with
    | "data" => { p with dataLines := p.dataLines ++ [value] }
    | "event" => { p with event := some value }
    | "id" => { p with id := some value }
    | _ => p

/-- `dispatch`: the event, if there is data, and a fresh one. -/
def dispatch (p : PendingEvent) : Option SseEvent :=
  if p.dataLines = [] then none
  else some ⟨p.event, "\n".intercalate p.dataLines, p.id⟩

end PendingEvent

/-- `SseDecoder`. -/
structure SseDecoder : Type where
  buffer : List Char := []
  pending : PendingEvent := {}

/-- The complete lines of a text, and what follows the last of them. -/
def splitLines : List Char → List (List Char) × List Char
  | [] => ([], [])
  | c :: cs =>
    let (lines, rest) := splitLines cs
    if c = '\n' then ([] :: lines, rest)
    else match lines with
      | [] => ([], c :: rest)
      | line :: lines => ((c :: line) :: lines, rest)

/-- A line without a carriage return at its end. -/
def dropCarriageReturn (line : List Char) : List Char :=
  if line.getLast? = some '\r' then line.dropLast else line

/-- The events that some lines complete, and the event that is then being read. -/
def feedLines : List (List Char) → PendingEvent → List SseEvent × PendingEvent
  | [], p => ([], p)
  | line :: lines, p =>
    match dropCarriageReturn line with
    | [] =>
      let (events, q) := feedLines lines {}
      ((p.dispatch.toList) ++ events, q)
    | line => feedLines lines (p.applyLine (String.ofList line))

/-- `feed`. -/
def SseDecoder.feed (d : SseDecoder) (chunk : String) : List SseEvent × SseDecoder :=
  let (lines, rest) := splitLines (d.buffer ++ chunk.toList)
  let (events, pending) := feedLines lines d.pending
  (events, ⟨rest, pending⟩)

end HeadlessMcp
