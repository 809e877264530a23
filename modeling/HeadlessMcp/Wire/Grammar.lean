import Mathlib

/-!
# The grammar of JSON

JSON texts as bytes, by the productions of RFC 8259. A derivation also says how many arrays and
objects are open behind every byte, so that the depth of a point of the text is a matter of the
grammar and not of whoever reads it.

The bytes of a string need not be UTF-8 here: there are more texts than valid ones.

`IsText` is the only thing that the guard is measured against. Every production says at which
depth its bytes lie, and nothing in it is computed from the guard.
-/

namespace Json

/-- A byte of a text, and how many arrays and objects are open behind it. -/
abbrev Point : Type := UInt8 × Nat

/-- The byte of an ASCII character. -/
abbrev ascii (c : Char) : UInt8 := c.toUInt8

/-- Bytes that open and close nothing. -/
def flat (depth : Nat) (bytes : List UInt8) : List Point := bytes.map (·, depth)

@[simp] theorem map_fst_flat (depth : Nat) (bytes : List UInt8) :
    (flat depth bytes).map Prod.fst = bytes := by
  simp [flat, Function.comp_def]

/-! ## Tokens -/

/-- White space. -/
def isSpace (b : UInt8) : Bool :=
  b = ascii ' ' || b = ascii '\t' || b = ascii '\n' || b = ascii '\r'

/-- A digit. -/
def isDigit (b : UInt8) : Bool := ascii '0' ≤ b && b ≤ ascii '9'

/-- A hexadecimal digit. -/
def isHexDigit (b : UInt8) : Bool :=
  isDigit b || (ascii 'a' ≤ b && b ≤ ascii 'f') || (ascii 'A' ≤ b && b ≤ ascii 'F')

/-- The text of an ASCII token. -/
def token (s : String) : List UInt8 := s.toList.map ascii

/-- The names of the values that are no texts of their own. -/
def literals : List (List UInt8) := [token "null", token "true", token "false"]

/-- The integer part of a number: no zero in front of other digits. -/
inductive IsInteger : List UInt8 → Prop where
  | zero : IsInteger [ascii '0']
  | digits {first : UInt8} {rest : List UInt8} : isDigit first = true → first ≠ ascii '0' →
      (∀ b ∈ rest, isDigit b = true) → IsInteger (first :: rest)

/-- A fraction. -/
inductive IsFraction : List UInt8 → Prop where
  | none : IsFraction []
  | digits {rest : List UInt8} : rest ≠ [] → (∀ b ∈ rest, isDigit b = true) →
      IsFraction (ascii '.' :: rest)

/-- An exponent. -/
inductive IsExponent : List UInt8 → Prop where
  | none : IsExponent []
  | digits {mark : UInt8} {sign rest : List UInt8} : mark = ascii 'e' ∨ mark = ascii 'E' →
      sign = [] ∨ sign = [ascii '+'] ∨ sign = [ascii '-'] → rest ≠ [] →
      (∀ b ∈ rest, isDigit b = true) → IsExponent (mark :: sign ++ rest)

/-- A number. -/
inductive IsNumber : List UInt8 → Prop where
  | mk {sign integer fraction exponent : List UInt8} : sign = [] ∨ sign = [ascii '-'] →
      IsInteger integer → IsFraction fraction → IsExponent exponent →
      IsNumber (sign ++ integer ++ fraction ++ exponent)

/-- What a backslash may stand in front of, but for a code point. -/
def escapes : List UInt8 := token "\"\\/bfnrt"

/-- The characters between the quotes of a string. -/
inductive IsChars : List UInt8 → Prop where
  | nil : IsChars []
  | plain {b : UInt8} {rest : List UInt8} : ascii ' ' ≤ b → b ≠ ascii '"' → b ≠ ascii '\\' →
      IsChars rest → IsChars (b :: rest)
  | escape {b : UInt8} {rest : List UInt8} : b ∈ escapes → IsChars rest →
      IsChars (ascii '\\' :: b :: rest)
  | codePoint {digits rest : List UInt8} : digits.length = 4 →
      (∀ b ∈ digits, isHexDigit b = true) → IsChars rest →
      IsChars (ascii '\\' :: ascii 'u' :: digits ++ rest)

/-- A string with its quotes. -/
inductive IsString : List UInt8 → Prop where
  | mk {chars : List UInt8} : IsChars chars → IsString (ascii '"' :: chars ++ [ascii '"'])

/-- Some white space. -/
def IsSpace (bytes : List UInt8) : Prop := ∀ b ∈ bytes, isSpace b = true

/-! ## Values -/

mutual

/-- A value inside as many arrays and objects as the first argument says. -/
inductive IsValue : Nat → List Point → Prop where
  | literal {depth : Nat} {text : List UInt8} : text ∈ literals → IsValue depth (flat depth text)
  | number {depth : Nat} {text : List UInt8} : IsNumber text → IsValue depth (flat depth text)
  | string {depth : Nat} {text : List UInt8} : IsString text → IsValue depth (flat depth text)
  | emptyArray {depth : Nat} {space : List UInt8} : IsSpace space →
      IsValue depth
        ((ascii '[', depth + 1) :: flat (depth + 1) space ++ [(ascii ']', depth)])
  | array {depth : Nat} {items : List Point} : IsElements (depth + 1) items →
      IsValue depth ((ascii '[', depth + 1) :: items ++ [(ascii ']', depth)])
  | emptyObject {depth : Nat} {space : List UInt8} : IsSpace space →
      IsValue depth
        ((ascii '\x7b', depth + 1) :: flat (depth + 1) space ++ [(ascii '\x7d', depth)])
  | object {depth : Nat} {members : List Point} : IsMembers (depth + 1) members →
      IsValue depth ((ascii '\x7b', depth + 1) :: members ++ [(ascii '\x7d', depth)])

/-- A value with the white space around it. -/
inductive IsElement : Nat → List Point → Prop where
  | mk {depth : Nat} {before after : List UInt8} {value : List Point} : IsSpace before →
      IsValue depth value → IsSpace after →
      IsElement depth (flat depth before ++ value ++ flat depth after)

/-- The items of an array. -/
inductive IsElements : Nat → List Point → Prop where
  | last {depth : Nat} {element : List Point} : IsElement depth element →
      IsElements depth element
  | cons {depth : Nat} {element rest : List Point} : IsElement depth element →
      IsElements depth rest → IsElements depth (element ++ (ascii ',', depth) :: rest)

/-- An entry of an object. -/
inductive IsMember : Nat → List Point → Prop where
  | mk {depth : Nat} {before key after : List UInt8} {element : List Point} : IsSpace before →
      IsString key → IsSpace after → IsElement depth element →
      IsMember depth
        (flat depth (before ++ key ++ after) ++ (ascii ':', depth) :: element)

/-- The entries of an object. -/
inductive IsMembers : Nat → List Point → Prop where
  | last {depth : Nat} {member : List Point} : IsMember depth member → IsMembers depth member
  | cons {depth : Nat} {member rest : List Point} : IsMember depth member →
      IsMembers depth rest → IsMembers depth (member ++ (ascii ',', depth) :: rest)

end

/-- A JSON text, with the depth of its points. -/
def IsText (points : List Point) : Prop := IsElement 0 points

end Json
