import HeadlessMcp.Core.Entries

/-!
# JSON values

`serde_json::Value` and the accessors the hub uses on it. An object is the list of
its entries. No modelled function observes their order.

Numbers are integers, or else texts that the library prints: the hub passes floats on and never
computes with one. What it reads of a value it reads through the accessors, which yield nothing
for a value of another kind, as the source's do.
-/

namespace HeadlessMcp

/-- `serde_json::Number`: an integer, or the text of a number that is not one. -/
inductive Number : Type where
  /-- an integer of the `i64`/`u64` range -/
  | int : Int → Number
  /-- any other number -/
  | float : String → Number
  deriving DecidableEq

/-- `serde_json::Value`. A number is an integer, or else the text that the library prints for it:
no modelled function computes with a float. -/
inductive Value : Type where
  /-- `null` -/
  | null : Value
  /-- `true`, `false` -/
  | bool : Bool → Value
  /-- a number -/
  | number : Number → Value
  /-- a string -/
  | string : String → Value
  /-- an array -/
  | array : List Value → Value
  /-- an object -/
  | object : List (String × Value) → Value

/-- `serde_json::Map`. -/
abbrev Map : Type := Entries Value

namespace Value

/-- `Value::get` with a string index: a field of an object. -/
def get : Value → String → Option Value
  | object m, key => Entries.get m key
  | _, _ => none

/-- `Value::as_str`. -/
def asStr : Value → Option String
  | string s => some s
  | _ => none

/-- `Value::as_array`. -/
def asArray : Value → Option (List Value)
  | array xs => some xs
  | _ => none

/-- `Value::as_object`. -/
def asObject : Value → Option Map
  | object m => some m
  | _ => none

/-- `Value::as_u64`. A number that is negative, too large or no integer is no `u64`. -/
def asU64 : Value → Option Nat
  | number (.int n) => if 0 ≤ n ∧ n < 2 ^ 64 then some n.toNat else none
  | _ => none

/-- `Value::as_i64`. -/
def asI64 : Value → Option Int
  | number (.int n) => if -2 ^ 63 ≤ n ∧ n < 2 ^ 63 then some n else none
  | _ => none

/-- `value[key] = v` on an object; the hub only assigns fields of objects. -/
def setField (w : Value) (key : String) (v : Value) : Value :=
  match w with
  | object m => object (Entries.insert key v m)
  | _ => w

/-! ### Printing -/

/-- `serde_json`'s escape of one character. Quotes, backslashes and control characters are
escaped, and everything else is written as it is. -/
def escapeChar (c : Char) : String :=
  if c = '"' then "\\\""
  else if c = '\\' then "\\\\"
  else if c = '\n' then "\\n"
  else if c = '\r' then "\\r"
  else if c = '\t' then "\\t"
  else if c.toNat = 8 then "\\b"
  else if c.toNat = 12 then "\\f"
  else if c.toNat < 32 then
    "\\u00" ++ String.singleton (Nat.digitChar (c.toNat / 16)) ++
      String.singleton (Nat.digitChar (c.toNat % 16))
  else String.singleton c

/-- A string with its quotes. -/
def printString (s : String) : String :=
  "\"" ++ s.toList.foldl (fun acc c => acc ++ escapeChar c) "" ++ "\""

mutual

/-- The compact form that `Display` prints. There is no white space, and entries are printed in
the order of the list. -/
def print : Value → String
  | null => "null"
  | bool b => if b then "true" else "false"
  | number (.int n) => toString n
  | number (.float text) => text
  | string s => printString s
  | array xs => "[" ++ ",".intercalate (printItems xs) ++ "]"
  | object m => "\x7b" ++ ",".intercalate (printEntries m) ++ "\x7d"

/-- The items of an array. -/
def printItems : List Value → List String
  | [] => []
  | v :: vs => v.print :: printItems vs

/-- The entries of an object. -/
def printEntries : List (String × Value) → List String
  | [] => []
  | (k, v) :: m => (printString k ++ ":" ++ v.print) :: printEntries m

end

end Value

end HeadlessMcp
