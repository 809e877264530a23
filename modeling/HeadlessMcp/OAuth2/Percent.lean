import HeadlessMcp.OAuth2.Manager

/-!
# Percent-encoding

An authorization code comes back in a URL, in the form `application/x-www-form-urlencoded`: the
bytes of its UTF-8 form, each as itself or escaped. `percent_decode` makes a character of every
byte, so it reads back what was written exactly when that is ASCII
(`percentDecode_formUrlencode_iff`).

Reading is a function of the text, so the encoder may choose freely what it escapes: for any
choice the text that is read is the same.
-/

namespace HeadlessMcp

/-! ## Encoding -/

/-- The bytes of a text. -/
def encodedBytes (text : List Char) : List UInt8 := text.flatMap String.utf8EncodeChar

/-- A byte as the character with this number. -/
def latin1 (b : UInt8) : Char := Char.ofNat b.toNat

/-- The texts that stand for some bytes: a byte is written as an ASCII character, as a plus sign
when it is a space, or as an escape with two digits of either case. Which bytes a browser escapes
is left open, since it may escape any of them. -/
inductive FormEncodes : List UInt8 → List Char → Prop where
  | nil : FormEncodes [] []
  | literal {b : UInt8} {bytes : List UInt8} {text : List Char} (hescape : latin1 b ≠ '%')
      (hplus : latin1 b ≠ '+') (hrest : FormEncodes bytes text) :
      FormEncodes (b :: bytes) (latin1 b :: text)
  | space {bytes : List UInt8} {text : List Char} (hrest : FormEncodes bytes text) :
      FormEncodes (0x20 :: bytes) ('+' :: text)
  | escape {b : UInt8} {high low : Char} {h l : Nat} {bytes : List UInt8} {text : List Char}
      (hhigh : toDigit16 high = some h) (hlow : toDigit16 low = some l)
      (hbyte : b.toNat = h * 16 + l) (hrest : FormEncodes bytes text) :
      FormEncodes (b :: bytes) ('%' :: high :: low :: text)

/-- The bytes that are not escaped. -/
def isFormLiteral (b : UInt8) : Bool := (latin1 b).isAlphanum ∨ latin1 b ∈ ['*', '-', '.', '_']

/-- An upper-case digit. -/
def hexDigit (n : Nat) : Char := if n < 10 then Char.ofNat (48 + n) else Char.ofNat (55 + n)

/-- One byte, as it is sent. -/
def formEncodeByte (b : UInt8) : List Char :=
  if isFormLiteral b then [latin1 b]
  else if b = 0x20 then ['+']
  else ['%', hexDigit (b.toNat / 16), hexDigit (b.toNat % 16)]

/-- The form `application/x-www-form-urlencoded` of a text. -/
def formUrlencode (s : String) : String :=
  String.ofList ((encodedBytes s.toList).flatMap formEncodeByte)

theorem toDigit16_hexDigit {n : Nat} (h : n < 16) : toDigit16 (hexDigit n) = some n := by
  have hall : ∀ n : Fin 16, toDigit16 (hexDigit n) = some n.val := by decide
  exact hall ⟨n, h⟩

/-- What is sent for a byte stands for it. -/
theorem formEncodes_cons {b : UInt8} {bytes : List UInt8} {text : List Char}
    (hrest : FormEncodes bytes text) : FormEncodes (b :: bytes) (formEncodeByte b ++ text) := by
  rw [formEncodeByte]
  split
  · rename_i hliteral
    refine .literal (fun h => ?_) (fun h => ?_) hrest
    · rw [isFormLiteral, h] at hliteral
      exact absurd hliteral (by decide)
    · rw [isFormLiteral, h] at hliteral
      exact absurd hliteral (by decide)
  · split
    · rename_i hspace
      subst hspace
      exact .space hrest
    · have hlt : b.toNat < 256 := b.toNat_lt
      exact .escape (toDigit16_hexDigit (by omega)) (toDigit16_hexDigit (by omega)) (by omega) hrest

theorem formEncodes_formEncode (bytes : List UInt8) :
    FormEncodes bytes (bytes.flatMap formEncodeByte) := by
  induction bytes with
  | nil => exact .nil
  | cons b bytes ih =>
    rw [List.flatMap_cons]
    exact formEncodes_cons ih

/-! ## Decoding -/

theorem percentDecodeChars_literal {c : Char} {text : List Char} (hescape : c ≠ '%')
    (hplus : c ≠ '+') : percentDecodeChars (c :: text) = c :: percentDecodeChars text := by
  rw [percentDecodeChars] <;> grind

/-- **Every byte becomes a character.** -/
theorem percentDecodeChars_of_encodes {bytes : List UInt8} {text : List Char}
    (h : FormEncodes bytes text) : percentDecodeChars text = bytes.map latin1 := by
  induction h with
  | nil => rfl
  | literal hescape hplus _ ih => rw [percentDecodeChars_literal hescape hplus, ih, List.map_cons]
  | space _ ih =>
    rw [percentDecodeChars, ih, List.map_cons]
    rfl
  | escape hhigh hlow hbyte _ ih =>
    rw [percentDecodeChars, hhigh, hlow, List.map_cons, ← ih, latin1, hbyte]

/-! ## Reading back -/

/-- An ASCII character is one byte, the byte with its number. -/
theorem utf8EncodeChar_of_ascii {c : Char} (h : c.toNat < 128) :
    (String.utf8EncodeChar c).map latin1 = [c] := by
  have hlow : c.val.toNat ≤ 0x7f := Nat.le_of_lt_succ h
  have hbyte : (UInt8.ofNat c.val.toNat).toNat = c.toNat := Nat.mod_eq_of_lt (by omega)
  rw [String.utf8EncodeChar, if_pos hlow, List.map_singleton, latin1, hbyte, Char.ofNat_toNat]

/-- Every other character is several bytes. -/
theorem two_le_length_utf8EncodeChar {c : Char} (h : ¬ c.toNat < 128) :
    2 ≤ (String.utf8EncodeChar c).length := by
  have hhigh : ¬ c.val.toNat ≤ 0x7f := fun hle => h (Nat.lt_succ_of_le hle)
  rw [String.utf8EncodeChar, if_neg hhigh]
  split
  · exact Nat.le_refl _
  · split
    · exact Nat.le_succ 2
    · exact Nat.le_add_left 2 2

theorem one_le_length_utf8EncodeChar (c : Char) : 1 ≤ (String.utf8EncodeChar c).length :=
  List.length_pos_iff.mpr String.utf8EncodeChar_ne_nil

theorem length_le_encodedBytes (text : List Char) : text.length ≤ (encodedBytes text).length := by
  induction text with
  | nil => exact Nat.le_refl _
  | cons c text ih =>
    have hc := one_le_length_utf8EncodeChar c
    rw [encodedBytes, List.flatMap_cons, List.length_append, List.length_cons]
    rw [encodedBytes] at ih
    omega

/-- The bytes are the characters exactly when all of them are ASCII. -/
theorem latin1_encodedBytes_iff {text : List Char} :
    (encodedBytes text).map latin1 = text ↔ ∀ c ∈ text, c.toNat < 128 := by
  constructor
  · intro h c hc
    -- another character would make the text longer
    by_contra hhigh
    obtain ⟨before, after, rfl⟩ := List.append_of_mem hc
    have hlength := congrArg List.length h
    have hbefore := length_le_encodedBytes before
    have hafter := length_le_encodedBytes after
    have htwo := two_le_length_utf8EncodeChar hhigh
    rw [encodedBytes, List.flatMap_append, List.flatMap_cons, List.length_map, List.length_append,
      List.length_append, List.length_append, List.length_cons] at hlength
    rw [encodedBytes] at hbefore hafter
    omega
  · intro h
    induction text with
    | nil => rfl
    | cons c text ih =>
      rw [encodedBytes, List.flatMap_cons, List.map_append,
        utf8EncodeChar_of_ascii (h c List.mem_cons_self)]
      exact congrArg (c :: ·) (ih fun c' hc' => h c' (List.mem_cons_of_mem _ hc'))

/-- Whatever escapes are used, the text is read back exactly when it is ASCII. -/
theorem percentDecode_eq_iff {s text : String}
    (h : FormEncodes (encodedBytes s.toList) text.toList) :
    percentDecode text = s ↔ ∀ c ∈ s.toList, c.toNat < 128 := by
  rw [percentDecode, percentDecodeChars_of_encodes h, ← String.toList_inj, String.toList_ofList,
    latin1_encodedBytes_iff]

/-- **Percent-decoding reads an authorization code back exactly when it is ASCII.** What is sent
is the code in the form that the redirect's query has, with each byte of its UTF-8 form as itself
or escaped. Each of them is read as a character of its own, which is right for the bytes below
128, and a character above them has several bytes and comes back as several characters. -/
theorem percentDecode_formUrlencode_iff (s : String) :
    percentDecode (formUrlencode s) = s ↔ ∀ c ∈ s.toList, c.toNat < 128 := by
  refine percentDecode_eq_iff ?_
  rw [formUrlencode, String.toList_ofList]
  exact formEncodes_formEncode _

/-- An accented letter is read back as two characters. -/
theorem percentDecode_accent :
    formUrlencode "é" = "%C3%A9" ∧ percentDecode (formUrlencode "é") = "Ã©" ∧
      percentDecode (formUrlencode "é") ≠ "é" := by
  decide +kernel

end HeadlessMcp
