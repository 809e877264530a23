import HeadlessMcp.Core.Json
import Mathlib

/-!
# Reading printed JSON

`read` reads back what `print` has written. It is no validator: it follows the first character
of a value and takes the printed form for granted, without white space and with the escapes that
the printer uses. What it shows is that the printed text says which value it was (`read_print`),
so that a parser can give the value back.

The recursion is on a fuel. The length of the text is enough of it (`need_le_length`).
-/

namespace HeadlessMcp

namespace Value

/-! ## Numbers and strings -/

/-- The characters of a number that is not an integer. -/
def floatChars : List Char := "0123456789+-.e".toList

/-- The text of a number that is not an integer: it has a fraction or an exponent. -/
structure FloatText (text : String) : Prop where
  chars : ∀ c ∈ text.toList, c ∈ floatChars
  fraction : '.' ∈ text.toList ∨ 'e' ∈ text.toList

/-- The integer that some digits are, perhaps after a minus sign. -/
def readInt : List Char → Int
  | '-' :: cs => -(Nat.ofDigitChars 10 cs 0)
  | cs => Nat.ofDigitChars 10 cs 0

/-- A number at the start of a text. The longest run of such characters is taken; where it is an
integer the value is one, and else it is a float with this text. -/
def readNumber (cs : List Char) : Option (Value × List Char) :=
  let text := cs.takeWhile (· ∈ floatChars)
  let rest := cs.dropWhile (· ∈ floatChars)
  if text = [] then none
  else if '.' ∈ text ∨ 'e' ∈ text then some (.number (.float (String.ofList text)), rest)
  else some (.number (.int (readInt text)), rest)

/-- A hexadecimal digit, as the printer writes it. -/
def hexValue (c : Char) : Nat := if c.isDigit then c.toNat - 48 else c.toNat - 87

/-- The character that stands after a backslash. -/
def unescape (c : Char) : Char :=
  if c = 'n' then '\n'
  else if c = 'r' then '\r'
  else if c = 't' then '\t'
  else if c = 'b' then Char.ofNat 8
  else if c = 'f' then Char.ofNat 12
  else c

/-- The characters up to the closing quote. An escape stands for one character, and what comes
after the quote is left over. -/
def readChars : List Char → Option (List Char × List Char)
  | [] => none
  | '"' :: cs => some ([], cs)
  | '\\' :: 'u' :: '0' :: '0' :: a :: b :: cs =>
    (readChars cs).map fun r => (Char.ofNat (16 * hexValue a + hexValue b) :: r.1, r.2)
  | '\\' :: c :: cs => (readChars cs).map fun r => (unescape c :: r.1, r.2)
  | c :: cs => (readChars cs).map fun r => (c :: r.1, r.2)

/-! ## Values -/

/-- A word, and the value that it stands for. -/
def readWord (word : String) (v : Value) (cs : List Char) : Option (Value × List Char) :=
  if word.toList.isPrefixOf cs then some (v, cs.drop word.toList.length) else none

mutual

/-- The value at the start of a text, and what comes after it. -/
def readValue : Nat → List Char → Option (Value × List Char)
  | 0, _ => none
  | _ + 1, [] => none
  | fuel + 1, c :: cs =>
    if c = '"' then (readChars cs).map fun r => (.string (String.ofList r.1), r.2)
    else if c = '[' then
      if cs.head? = some ']' then some (.array [], cs.tail)
      else (readItems fuel cs).map fun r => (.array r.1, r.2)
    else if c = '\x7b' then
      if cs.head? = some '\x7d' then some (.object [], cs.tail)
      else (readEntries fuel cs).map fun r => (.object r.1, r.2)
    else if c = 'n' then readWord "ull" .null cs
    else if c = 't' then readWord "rue" (.bool true) cs
    else if c = 'f' then readWord "alse" (.bool false) cs
    else readNumber (c :: cs)

/-- The items of an array up to its closing bracket; there is one. -/
def readItems : Nat → List Char → Option (List Value × List Char)
  | 0, _ => none
  | fuel + 1, cs =>
    (readValue fuel cs).bind fun r =>
      if r.2.head? = some ',' then
        (readItems fuel r.2.tail).map fun q => (r.1 :: q.1, q.2)
      else if r.2.head? = some ']' then some ([r.1], r.2.tail)
      else none

/-- The entries of an object up to its closing brace; there is one. -/
def readEntries : Nat → List Char → Option (List (String × Value) × List Char)
  | 0, _ => none
  | fuel + 1, cs =>
    if cs.head? = some '"' then
      (readChars cs.tail).bind fun k =>
        if k.2.head? = some ':' then
          (readValue fuel k.2.tail).bind fun r =>
            if r.2.head? = some ',' then
              (readEntries fuel r.2.tail).map fun q => ((String.ofList k.1, r.1) :: q.1, q.2)
            else if r.2.head? = some '\x7d' then some ([(String.ofList k.1, r.1)], r.2.tail)
            else none
        else none
    else none

end

/-- The value that a text is. Nothing may be left over. -/
def read (text : String) : Option Value :=
  match readValue text.toList.length text.toList with
  | some (v, []) => some v
  | _ => none

/-! ## What is printed is read -/

/-- A number does not go on here. In printed text a number is followed by a comma, a bracket or a
brace, or by nothing. -/
def NumberEnds (rest : List Char) : Prop := ∀ c ∈ rest.head?, c ∉ floatChars

/-- The text of a number ends where the text goes on with something else. -/
theorem spanNumber {text rest : List Char} (htext : ∀ c ∈ text, c ∈ floatChars)
    (hrest : NumberEnds rest) :
    (text ++ rest).takeWhile (· ∈ floatChars) = text ∧
      (text ++ rest).dropWhile (· ∈ floatChars) = rest := by
  have hall : ∀ c ∈ text, decide (c ∈ floatChars) = true := fun c hc => decide_eq_true (htext c hc)
  rw [List.takeWhile_append_of_pos hall, List.dropWhile_append_of_pos hall]
  cases rest with
  | nil => exact ⟨List.append_nil _, rfl⟩
  | cons c rest =>
    have hc : decide (c ∈ floatChars) = false := decide_eq_false (hrest c rfl)
    rw [List.takeWhile_cons_of_neg (by rw [hc]; exact Bool.false_ne_true),
      List.dropWhile_cons_of_neg (by rw [hc]; exact Bool.false_ne_true)]
    exact ⟨List.append_nil _, rfl⟩

theorem FloatText.ne_nil {text : String} (h : FloatText text) : text.toList ≠ [] := by
  intro hnil
  have hfraction := h.fraction
  rw [hnil] at hfraction
  rcases hfraction with h | h <;> cases h

/-- A number with a fraction or an exponent is read back as its text. -/
theorem readNumber_float {text : String} (h : FloatText text) {rest : List Char}
    (hrest : NumberEnds rest) :
    readNumber (text.toList ++ rest) = some (.number (.float text), rest) := by
  obtain ⟨htake, hdrop⟩ := spanNumber h.chars hrest
  simp only [readNumber, htake, hdrop, if_neg h.ne_nil, if_pos h.fraction, String.ofList_toList]

/-- The digits of a number. -/
theorem repr_digits (n : Nat) :
    ∀ c ∈ n.repr.toList, c ∈ floatChars ∧ c ≠ '.' ∧ c ≠ 'e' ∧ c ≠ '-' := by
  intro c hc
  rw [Nat.toList_repr] at hc
  have hdigit : c.isDigit = true := Nat.isDigit_of_mem_toDigits (by decide) (by decide) hc
  have hall : ∀ d : Fin 128, (Char.ofNat d.val).isDigit = true → Char.ofNat d.val ∈ floatChars ∧
      Char.ofNat d.val ≠ '.' ∧ Char.ofNat d.val ≠ 'e' ∧ Char.ofNat d.val ≠ '-' := by
    decide
  have hlt : c.toNat < 128 := by
    simp only [Char.isDigit, Bool.and_eq_true, decide_eq_true_eq] at hdigit
    have hle : c.toNat ≤ 57 := hdigit.2
    omega
  have hc' := hall ⟨c.toNat, hlt⟩
  simp only [Char.ofNat_toNat] at hc'
  exact hc' hdigit

theorem repr_ne_nil (n : Nat) : n.repr.toList ≠ [] := by
  rw [Nat.toList_repr]
  exact Nat.toDigits_ne_nil

theorem ofDigitChars_repr (n : Nat) : Nat.ofDigitChars 10 n.repr.toList 0 = n := by
  rw [Nat.toList_repr]
  exact Nat.ofDigitChars_ten_toDigits

/-- The text of an integer is some digits, perhaps after a minus sign. -/
theorem toString_negSucc (n : Nat) :
    (toString (Int.negSucc n)).toList = '-' :: (n + 1).repr.toList := by
  simp [Int.toString_eq_repr, Int.repr]

theorem toString_int_ne_nil (n : Int) : (toString n).toList ≠ [] := by
  cases n with
  | ofNat m => exact repr_ne_nil m
  | negSucc m =>
    rw [toString_negSucc]
    exact List.cons_ne_nil _ _

/-- The characters of an integer; none of them makes it a fraction. -/
theorem toString_int_plain (n : Int) :
    ∀ c ∈ (toString n).toList, c ∈ floatChars ∧ c ≠ '.' ∧ c ≠ 'e' := by
  have hdigits (m : Nat) : ∀ c ∈ m.repr.toList, c ∈ floatChars ∧ c ≠ '.' ∧ c ≠ 'e' :=
    fun c hc => ⟨(repr_digits m c hc).1, (repr_digits m c hc).2.1, (repr_digits m c hc).2.2.1⟩
  cases n with
  | ofNat m => exact hdigits m
  | negSucc m =>
    intro c hc
    rw [toString_negSucc] at hc
    rcases List.mem_cons.mp hc with rfl | hc
    · decide
    · exact hdigits _ c hc

theorem toString_int_chars (n : Int) : ∀ c ∈ (toString n).toList, c ∈ floatChars :=
  fun c hc => (toString_int_plain n c hc).1

/-- The digits, and the sign, say which integer it was. -/
theorem readInt_toString (n : Int) : readInt (toString n).toList = n := by
  cases n with
  | ofNat m =>
    have htext : (toString (Int.ofNat m)).toList = m.repr.toList := rfl
    rw [htext, readInt.eq_def]
    split
    · rename_i cs hcs
      exact absurd rfl (repr_digits m '-' (by rw [hcs]; exact List.mem_cons_self)).2.2.2
    · exact congrArg Int.ofNat (ofDigitChars_repr m)
  | negSucc m =>
    rw [toString_negSucc, readInt, ofDigitChars_repr]
    rfl

/-- An integer is read back. -/
theorem readNumber_int (n : Int) {rest : List Char} (hrest : NumberEnds rest) :
    readNumber ((toString n).toList ++ rest) = some (.number (.int n), rest) := by
  obtain ⟨htake, hdrop⟩ := spanNumber (toString_int_chars n) hrest
  have hplain : ¬ ('.' ∈ (toString n).toList ∨ 'e' ∈ (toString n).toList) := by
    rintro (h | h)
    · exact (toString_int_plain n _ h).2.1 rfl
    · exact (toString_int_plain n _ h).2.2 rfl
  simp only [readNumber, htake, hdrop, if_neg (toString_int_ne_nil n), if_neg hplain,
    readInt_toString]

/-- Hexadecimal digits are read back. -/
theorem hexValue_digitChar {n : Nat} (h : n < 16) : hexValue n.digitChar = n := by
  interval_cases n <;> decide

/-- A character is read back from its escape. -/
theorem readChars_escapeChar (c : Char) (rest : List Char) :
    readChars ((escapeChar c).toList ++ rest) =
      (readChars rest).map fun r => (c :: r.1, r.2) := by
  have hcode {n : Nat} (h : c.toNat = n) : Char.ofNat n = c := by
    rw [← h]
    exact Char.ofNat_toNat c
  rw [escapeChar]
  by_cases h₁ : c = '"'
  · rw [if_pos h₁, h₁]
    rfl
  by_cases h₂ : c = '\\'
  · rw [if_neg h₁, if_pos h₂, h₂]
    rfl
  rw [if_neg h₁, if_neg h₂]
  split_ifs with h₃ h₄ h₅ h₆ h₇ h₈
  · rw [h₃]
    rfl
  · rw [h₄]
    rfl
  · rw [h₅]
    rfl
  · rw [← hcode h₆]
    rfl
  · rw [← hcode h₇]
    rfl
  · -- a control character is written with two hexadecimal digits
    have hsplit : 16 * (c.toNat / 16) + c.toNat % 16 = c.toNat := by omega
    have hhigh := hexValue_digitChar (n := c.toNat / 16) (by omega)
    have hlow := hexValue_digitChar (n := c.toNat % 16) (by omega)
    have htext : ("\\u00" ++ String.singleton (c.toNat / 16).digitChar ++
        String.singleton (c.toNat % 16).digitChar).toList ++ rest =
        '\\' :: 'u' :: '0' :: '0' :: (c.toNat / 16).digitChar :: (c.toNat % 16).digitChar :: rest := by
      simp
    rw [htext, readChars, hhigh, hlow, hsplit, Char.ofNat_toNat]
  · rw [String.toList_singleton, List.singleton_append, readChars.eq_def]
    split <;> simp_all

/-- The characters of a printed string. -/
theorem printString_toList (s : String) :
    (printString s).toList = '"' :: (s.toList.flatMap fun c => (escapeChar c).toList) ++ ['"'] := by
  have hfold (cs : List Char) (acc : String) : (cs.foldl (fun acc c => acc ++ escapeChar c) acc).toList =
      acc.toList ++ cs.flatMap fun c => (escapeChar c).toList := by
    induction cs generalizing acc with
    | nil => simp
    | cons c cs ih => rw [List.foldl_cons, ih, String.toList_append, List.append_assoc,
        List.flatMap_cons]
  rw [printString, String.toList_append, String.toList_append, hfold]
  rfl

/-- The characters of a string are read back up to its closing quote. -/
theorem readChars_escaped (cs rest : List Char) :
    readChars ((cs.flatMap fun c => (escapeChar c).toList) ++ '"' :: rest) = some (cs, rest) := by
  induction cs with
  | nil => rfl
  | cons c cs ih =>
    rw [List.flatMap_cons, List.append_assoc, readChars_escapeChar, ih]
    rfl

/-- A printed string, with a text after it, is a quote and what is read back. -/
theorem printString_append (s : String) (rest : List Char) :
    ∃ cs, (printString s).toList ++ rest = '"' :: cs ∧ readChars cs = some (s.toList, rest) := by
  refine ⟨(s.toList.flatMap fun c => (escapeChar c).toList) ++ '"' :: rest, ?_,
    readChars_escaped s.toList rest⟩
  rw [printString_toList, List.cons_append, List.cons_append, List.append_assoc]
  rfl

/-! ### The fuel -/

mutual

/-- Every number that is not an integer is printed with a fraction or an exponent. -/
def Readable : Value → Prop
  | number (.float text) => FloatText text
  | array xs => ReadableItems xs
  | object m => ReadableEntries m
  | _ => True

/-- The items of an array are readable. -/
def ReadableItems : List Value → Prop
  | [] => True
  | v :: vs => v.Readable ∧ ReadableItems vs

/-- The values of an object are readable. -/
def ReadableEntries : List (String × Value) → Prop
  | [] => True
  | (_, v) :: m => v.Readable ∧ ReadableEntries m

end

mutual

/-- The fuel that a value needs. -/
def need : Value → Nat
  | array xs => needItems xs + 1
  | object m => needEntries m + 1
  | _ => 1

/-- The fuel that the items of an array need. -/
def needItems : List Value → Nat
  | [] => 0
  | v :: vs => max v.need (needItems vs) + 1

/-- The fuel that the entries of an object need. -/
def needEntries : List (String × Value) → Nat
  | [] => 0
  | (_, v) :: m => max v.need (needEntries m) + 1

end

theorem need_pos (v : Value) : 0 < v.need := by
  cases v <;> exact Nat.succ_pos _

/-- Texts with commas in between. -/
theorem intercalate_cons (text : String) (texts : List String) :
    (",".intercalate (text :: texts)).toList =
      text.toList ++ if texts = [] then [] else ',' :: (",".intercalate texts).toList := by
  cases texts with
  | nil => simp [String.intercalate_singleton]
  | cons next texts =>
    rw [String.intercalate_cons_cons, String.toList_append, String.toList_append,
      List.append_assoc, if_neg (List.cons_ne_nil _ _)]
    rfl

/-- The text of an array. -/
theorem print_array (xs : List Value) : (array xs).print.toList =
    '[' :: (",".intercalate (printItems xs)).toList ++ [']'] := by
  rw [print, String.toList_append, String.toList_append]
  rfl

/-- The text of an object. -/
theorem print_object (m : List (String × Value)) : (object m).print.toList =
    '\x7b' :: (",".intercalate (printEntries m)).toList ++ ['\x7d'] := by
  rw [print, String.toList_append, String.toList_append]
  rfl

theorem printItems_eq_nil {xs : List Value} : printItems xs = [] ↔ xs = [] := by
  cases xs <;> simp [printItems]

theorem printEntries_eq_nil {m : List (String × Value)} : printEntries m = [] ↔ m = [] := by
  rcases m with _ | ⟨⟨k, v⟩, m⟩ <;> simp [printEntries]

/-- The text of an entry. -/
theorem print_entry (k : String) (v : Value) :
    (printString k ++ ":" ++ v.print).toList = (printString k).toList ++ ':' :: v.print.toList := by
  rw [String.toList_append, String.toList_append, List.append_assoc]
  rfl

mutual

/-- The text of a value is fuel enough. So the fuel of `read` never runs out on printed text. -/
theorem need_le_length : ∀ {v : Value}, v.Readable → v.need ≤ v.print.toList.length
  | null, _ => by decide
  | bool b, _ => by cases b <;> decide
  | number (.int n), _ => List.length_pos_of_ne_nil (toString_int_ne_nil n)
  | number (.float _), h => List.length_pos_of_ne_nil (FloatText.ne_nil h)
  | string s, _ => by
    have htext : (string s).print.toList = (printString s).toList := rfl
    rw [htext, printString_toList, List.cons_append, List.length_cons]
    exact Nat.le_add_left 1 _
  | array xs, h => by
    have hitems := needItems_le_length h
    rw [need, print_array]
    simp only [List.cons_append, List.length_cons, List.length_append, List.length_nil]
    omega
  | object m, h => by
    have hentries := needEntries_le_length h
    rw [need, print_object]
    simp only [List.cons_append, List.length_cons, List.length_append, List.length_nil]
    omega

theorem needItems_le_length : ∀ {xs : List Value}, ReadableItems xs →
    needItems xs ≤ (",".intercalate (printItems xs)).toList.length + 1
  | [], _ => Nat.zero_le _
  | v :: vs, h => by
    have hv := need_le_length h.1
    have hvs := needItems_le_length h.2
    rw [needItems, printItems, intercalate_cons, List.length_append]
    split
    · rename_i hnil
      rw [printItems_eq_nil] at hnil
      subst hnil
      simp only [needItems, List.length_nil]
      omega
    · rw [List.length_cons]
      omega

theorem needEntries_le_length : ∀ {m : List (String × Value)}, ReadableEntries m →
    needEntries m ≤ (",".intercalate (printEntries m)).toList.length + 1
  | [], _ => Nat.zero_le _
  | (k, v) :: m, h => by
    have hv := need_le_length h.1
    have hm := needEntries_le_length h.2
    rw [needEntries, printEntries, intercalate_cons, List.length_append, print_entry,
      List.length_append, List.length_cons]
    -- the last entry has no comma after it
    split
    · rename_i hnil
      rw [printEntries_eq_nil] at hnil
      subst hnil
      simp only [needEntries, List.length_nil]
      omega
    · rw [List.length_cons]
      omega

end

/-! ### Values -/

theorem readWord_append (word : String) (v : Value) (rest : List Char) :
    readWord word v (word.toList ++ rest) = some (v, rest) := by
  rw [readWord, if_pos (List.isPrefixOf_iff_prefix.mpr (List.prefix_append _ _)), List.drop_left]

/-- The first characters that say what a value is. -/
def heads : List Char := ['"', '[', '\x7b', 'n', 't', 'f']

/-- No number starts with one of them. -/
theorem floatChars_not_heads {c : Char} (h : c ∈ floatChars) : c ∉ heads := by
  intro hmem
  simp only [heads, List.mem_cons, List.not_mem_nil, or_false] at hmem
  obtain rfl | rfl | rfl | rfl | rfl | rfl := hmem <;> exact absurd h (by decide)

/-- A value that starts with none of them is a number. -/
theorem readValue_number {fuel : Nat} {c : Char} {cs : List Char} (h : c ∉ heads) :
    readValue (fuel + 1) (c :: cs) = readNumber (c :: cs) := by
  simp only [heads, List.mem_cons, List.not_mem_nil, or_false, not_or] at h
  obtain ⟨h₁, h₂, h₃, h₄, h₅, h₆⟩ := h
  rw [readValue, if_neg h₁, if_neg h₂, if_neg h₃, if_neg h₄, if_neg h₅, if_neg h₆]

/-- The text of a number. -/
theorem readValue_of_chars {fuel : Nat} {text rest : List Char} {v : Value} (hne : text ≠ [])
    (hchars : ∀ c ∈ text, c ∈ floatChars) (h : readNumber (text ++ rest) = some (v, rest)) :
    readValue (fuel + 1) (text ++ rest) = some (v, rest) := by
  cases text with
  | nil => exact absurd rfl hne
  | cons c text =>
    have hc : c ∉ heads := floatChars_not_heads (hchars c List.mem_cons_self)
    rw [List.cons_append, readValue_number hc]
    exact h

/-- A number ends before any character that is not its own. -/
theorem numberEnds_cons {c : Char} (h : c ∉ floatChars) (cs : List Char) :
    NumberEnds (c :: cs) := by
  intro d hd
  cases hd
  exact h

/-- A printed value starts with no bracket that closes an array. -/
theorem head_print_ne {v : Value} (h : v.Readable) (rest : List Char) :
    (v.print.toList ++ rest).head? ≠ some ']' := by
  have hnumber {text : List Char} (hne : text ≠ []) (hchars : ∀ c ∈ text, c ∈ floatChars) :
      (text ++ rest).head? ≠ some ']' := by
    cases text with
    | nil => exact absurd rfl hne
    | cons c text =>
      have hc : c ∈ floatChars := hchars c List.mem_cons_self
      intro hhead
      cases hhead
      exact absurd hc (by decide)
  -- only a number could start with any of several characters
  cases v with
  | null => simp [print]
  | bool b => cases b <;> simp [print]
  | number n =>
    cases n with
    | int n => exact hnumber (toString_int_ne_nil n) (toString_int_chars n)
    | float text => exact hnumber h.ne_nil h.chars
  | string s =>
    have htext : (string s).print.toList = (printString s).toList := rfl
    rw [htext, printString_toList]
    simp
  | array xs =>
    rw [print_array]
    simp
  | object m =>
    rw [print_object]
    simp

mutual

/-- **A printed value is read back**, whatever comes after it. -/
theorem readValue_print : ∀ {v : Value} {fuel : Nat} {rest : List Char}, v.Readable →
    v.need ≤ fuel → NumberEnds rest → readValue fuel (v.print.toList ++ rest) = some (v, rest)
  | _, 0, _, _, hfuel, _ => absurd hfuel (Nat.not_le.mpr (need_pos _))
  | null, fuel + 1, rest, _, _, _ => readWord_append "ull" .null rest
  | bool true, fuel + 1, rest, _, _, _ => readWord_append "rue" (.bool true) rest
  | bool false, fuel + 1, rest, _, _, _ => readWord_append "alse" (.bool false) rest
  | number (.int n), fuel + 1, rest, _, _, hrest =>
    readValue_of_chars (toString_int_ne_nil n) (toString_int_chars n) (readNumber_int n hrest)
  | number (.float text), fuel + 1, rest, h, _, hrest =>
    readValue_of_chars h.ne_nil h.chars (readNumber_float h hrest)
  | string s, fuel + 1, rest, _, _, _ => by
    obtain ⟨cs, htext, hread⟩ := printString_append s rest
    have hprint : (string s).print.toList ++ rest = '"' :: cs := htext
    rw [hprint, readValue, if_pos rfl, hread]
    simp
  | array [], fuel + 1, rest, _, _, _ => by
    rw [print_array]
    rfl
  | array (v :: vs), fuel + 1, rest, h, hfuel, _ => by
    have hitems : readItems fuel ((",".intercalate (printItems (v :: vs))).toList ++
        ']' :: rest) = some (v :: vs, rest) := readItems_print h (Nat.le_of_succ_le_succ hfuel)
    have hhead : ((",".intercalate (printItems (v :: vs))).toList ++ ']' :: rest).head? ≠
        some ']' := by
      rw [printItems, intercalate_cons, List.append_assoc]
      exact head_print_ne h.1 _
    rw [print_array, List.cons_append, List.cons_append, List.append_assoc, List.singleton_append,
      readValue, if_neg (by decide), if_pos rfl, if_neg hhead, hitems]
    rfl
  | object [], fuel + 1, rest, _, _, _ => by
    rw [print_object]
    rfl
  | object ((k, v) :: m), fuel + 1, rest, h, hfuel, _ => by
    have hentries : readEntries fuel ((",".intercalate (printEntries ((k, v) :: m))).toList ++
        '\x7d' :: rest) = some ((k, v) :: m, rest) :=
      readEntries_print h (Nat.le_of_succ_le_succ hfuel)
    have hhead : ((",".intercalate (printEntries ((k, v) :: m))).toList ++ '\x7d' :: rest).head? ≠
        some '\x7d' := by
      rw [printEntries, intercalate_cons, print_entry, printString_toList]
      simp
    rw [print_object, List.cons_append, List.cons_append, List.append_assoc, List.singleton_append,
      readValue, if_neg (by decide), if_neg (by decide), if_pos rfl, if_neg hhead, hentries]
    rfl

theorem readItems_print : ∀ {v : Value} {vs : List Value} {fuel : Nat} {rest : List Char},
    ReadableItems (v :: vs) → needItems (v :: vs) ≤ fuel →
    readItems fuel ((",".intercalate (printItems (v :: vs))).toList ++ ']' :: rest) =
      some (v :: vs, rest)
  | _, _, 0, _, _, hfuel => absurd hfuel (Nat.not_succ_le_zero _)
  | v, [], fuel + 1, rest, h, hfuel => by
    rw [needItems, Nat.add_le_add_iff_right, Nat.max_le] at hfuel
    have hv := readValue_print h.1 hfuel.1 (numberEnds_cons (c := ']') (by decide) rest)
    rw [printItems, intercalate_cons, printItems, if_pos rfl, List.append_nil, readItems, hv]
    rfl
  | v, w :: ws, fuel + 1, rest, h, hfuel => by
    rw [needItems, Nat.add_le_add_iff_right, Nat.max_le] at hfuel
    have hws : readItems fuel ((",".intercalate (printItems (w :: ws))).toList ++ ']' :: rest) =
        some (w :: ws, rest) := readItems_print h.2 hfuel.2
    have hv := readValue_print h.1 hfuel.1 (numberEnds_cons (c := ',') (by decide)
      ((",".intercalate (printItems (w :: ws))).toList ++ ']' :: rest))
    have hne : printItems (w :: ws) ≠ [] := List.cons_ne_nil _ _
    rw [printItems, intercalate_cons, if_neg hne, List.append_assoc, List.cons_append, readItems, hv]
    simp only [Option.bind_some, List.head?_cons, if_true, List.tail_cons, hws, Option.map_some]

theorem readEntries_print : ∀ {k : String} {v : Value} {m : List (String × Value)} {fuel : Nat}
    {rest : List Char}, ReadableEntries ((k, v) :: m) → needEntries ((k, v) :: m) ≤ fuel →
    readEntries fuel ((",".intercalate (printEntries ((k, v) :: m))).toList ++ '\x7d' :: rest) =
      some ((k, v) :: m, rest)
  | _, _, _, 0, _, _, hfuel => absurd hfuel (Nat.not_succ_le_zero _)
  | k, v, [], fuel + 1, rest, h, hfuel => by
    rw [needEntries, Nat.add_le_add_iff_right, Nat.max_le] at hfuel
    have hv := readValue_print h.1 hfuel.1 (numberEnds_cons (c := '\x7d') (by decide) rest)
    obtain ⟨cs, htext, hread⟩ :=
      printString_append k (':' :: v.print.toList ++ '\x7d' :: rest)
    rw [printEntries, intercalate_cons, printEntries, if_pos rfl, List.append_nil, print_entry,
      List.append_assoc, htext, readEntries, List.head?_cons, if_pos rfl, List.tail_cons, hread]
    simp only [Option.bind_some, List.cons_append, List.head?_cons, if_true, List.tail_cons, hv,
      String.ofList_toList]
    rfl
  | k, v, (k', v') :: m, fuel + 1, rest, h, hfuel => by
    rw [needEntries, Nat.add_le_add_iff_right, Nat.max_le] at hfuel
    have hm : readEntries fuel ((",".intercalate (printEntries ((k', v') :: m))).toList ++
        '\x7d' :: rest) = some ((k', v') :: m, rest) := readEntries_print h.2 hfuel.2
    have hv := readValue_print h.1 hfuel.1 (numberEnds_cons (c := ',') (by decide)
      ((",".intercalate (printEntries ((k', v') :: m))).toList ++ '\x7d' :: rest))
    have hne : printEntries ((k', v') :: m) ≠ [] := List.cons_ne_nil _ _
    obtain ⟨cs, htext, hread⟩ := printString_append k (':' :: v.print.toList ++
      ',' :: ((",".intercalate (printEntries ((k', v') :: m))).toList ++ '\x7d' :: rest))
    rw [printEntries, intercalate_cons, if_neg hne, print_entry, List.append_assoc,
      List.append_assoc, List.cons_append (a := ','), htext, readEntries, List.head?_cons, if_pos rfl,
      List.tail_cons, hread]
    simp only [Option.bind_some, List.cons_append, List.head?_cons, if_true, List.tail_cons, hv,
      String.ofList_toList, hm, Option.map_some]

end

/-- **What is printed is read back.** -/
theorem read_print {v : Value} (h : v.Readable) : read v.print = some v := by
  have hends : NumberEnds [] := fun c hc => by cases hc
  have hread := readValue_print h (need_le_length h) hends
  rw [List.append_nil] at hread
  rw [read, hread]

end Value

end HeadlessMcp
