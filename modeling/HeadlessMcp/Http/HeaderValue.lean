import HeadlessMcp.Http.Headers

/-!
# Header values

A text that is not plain ASCII travels in a header as base64 between `=?base64?` and `?=`. The
reader of a header tells the two forms apart by these marks alone, so a plain text that has the
marks itself must be encoded too. Reading the header gives back the text for every text, and so
no two texts share a header.
-/

namespace HeadlessMcp

/-! ## Base64 -/

/-- The characters of six bits. -/
def base64Alphabet : List Char :=
  "ABCDEFGHIJKLMNOPQRSTUVWXYZabcdefghijklmnopqrstuvwxyz0123456789+/".toList

/-- The six bits of a character. -/
def base64Digit (c : Char) : Option Nat := base64Alphabet.idxOf? c

/-- Reading standard base64. -/
def base64Decode : List Char → Option (List Nat)
  | [] => some []
  | a :: b :: c :: d :: rest => do
    let x ← base64Digit a
    let y ← base64Digit b
    if c = '=' then
      if d = '=' ∧ rest = [] then some [x * 4 + y / 16] else none
    else
      let z ← base64Digit c
      if d = '=' then
        if rest = [] then some [x * 4 + y / 16, y % 16 * 16 + z / 4] else none
      else
        let w ← base64Digit d
        let bytes ← base64Decode rest
        some ((x * 4 + y / 16) :: (y % 16 * 16 + z / 4) :: (z % 4 * 64 + w) :: bytes)
  | _ => none

/-- The alphabet holds every character that is written. -/
theorem base64Char_mem (n : Nat) : base64Char n ∈ base64Alphabet := by
  by_cases h : n < 64
  · have hall : ∀ n < 64, base64Char n ∈ base64Alphabet := by decide +kernel
    exact hall n h
  · have hlength : base64Alphabet.length ≤ n := by
      have : base64Alphabet.length = 64 := by decide
      omega
    have hdefault : base64Char n = 'A' := by
      change base64Alphabet.getD n 'A' = 'A'
      rw [List.getD_eq_getElem?_getD, List.getElem?_eq_none hlength, Option.getD_none]
    rw [hdefault]
    decide

/-- A character is read as the six bits it was written for. -/
theorem base64Digit_base64Char : ∀ n < 64, base64Digit (base64Char n) = some n := by
  decide +kernel

/-- The padding is not a character of six bits. -/
theorem base64Char_ne_pad (n : Nat) : base64Char n ≠ '=' := by
  intro h
  have hpad : '=' ∉ base64Alphabet := by decide +kernel
  exact hpad (h ▸ base64Char_mem n)

/-- **Base64 is read back.** So nothing is lost on the way, whatever the bytes are. -/
theorem base64Decode_base64 {bytes : List Nat} (h : ∀ b ∈ bytes, b < 256) :
    base64Decode (base64 bytes) = some bytes := by
  induction bytes using base64.induct with
  | case1 => rfl
  | case2 a =>
    have ha : a < 256 := h a List.mem_cons_self
    simp only [base64, base64Decode, base64Digit_base64Char (a / 4) (by omega),
      base64Digit_base64Char (a % 4 * 16) (by omega), Option.bind_eq_bind, Option.bind_some,
      and_self, if_true]
    congr 2
    omega
  | case3 a b =>
    have ha : a < 256 := h a List.mem_cons_self
    have hb : b < 256 := h b (List.mem_cons_of_mem _ List.mem_cons_self)
    simp only [base64, base64Decode, base64Digit_base64Char (a / 4) (by omega),
      base64Digit_base64Char (a % 4 * 16 + b / 16) (by omega),
      base64Digit_base64Char (b % 16 * 4) (by omega), Option.bind_eq_bind, Option.bind_some,
      base64Char_ne_pad, if_true, if_false]
    congr 2
    · omega
    · congr 1
      omega
  | case4 a b c rest ih =>
    have ha : a < 256 := h a List.mem_cons_self
    have hb : b < 256 := h b (List.mem_cons_of_mem _ List.mem_cons_self)
    have hc : c < 256 := h c (List.mem_cons_of_mem _ (List.mem_cons_of_mem _ List.mem_cons_self))
    have hrest := ih fun x hx =>
      h x (List.mem_cons_of_mem _ (List.mem_cons_of_mem _ (List.mem_cons_of_mem _ hx)))
    simp only [base64, base64Decode, base64Digit_base64Char (a / 4) (by omega),
      base64Digit_base64Char (a % 4 * 16 + b / 16) (by omega),
      base64Digit_base64Char (b % 16 * 4 + c / 64) (by omega),
      base64Digit_base64Char (c % 64) (by omega), Option.bind_eq_bind, Option.bind_some,
      base64Char_ne_pad, if_false, hrest]
    congr 2
    · omega
    · congr 1
      · omega
      · congr 1
        omega

/-- Base64 is written in the alphabet and the padding. -/
theorem mem_base64 {bytes : List Nat} {c : Char} (h : c ∈ base64 bytes) :
    c ∈ base64Alphabet ∨ c = '=' := by
  induction bytes using base64.induct with
  | case1 => cases h
  | case2 a =>
    simp only [base64, List.mem_cons, List.not_mem_nil, or_false] at h
    rcases h with rfl | rfl | rfl | rfl
    · exact .inl (base64Char_mem _)
    · exact .inl (base64Char_mem _)
    · exact .inr rfl
    · exact .inr rfl
  | case3 a b =>
    simp only [base64, List.mem_cons, List.not_mem_nil, or_false] at h
    rcases h with rfl | rfl | rfl | rfl
    · exact .inl (base64Char_mem _)
    · exact .inl (base64Char_mem _)
    · exact .inl (base64Char_mem _)
    · exact .inr rfl
  | case4 a b c rest ih =>
    simp only [base64, List.mem_cons] at h
    rcases h with rfl | rfl | rfl | rfl | h
    · exact .inl (base64Char_mem _)
    · exact .inl (base64Char_mem _)
    · exact .inl (base64Char_mem _)
    · exact .inl (base64Char_mem _)
    · exact ih h

/-! ## Bytes -/

/-- `String::from_utf8`. -/
def textOfBytes (bytes : List Nat) : Option String :=
  String.fromUTF8? ⟨(bytes.map UInt8.ofNat).toArray⟩

/-- The bytes of a text are bytes. -/
theorem utf8Bytes_lt {s : String} : ∀ b ∈ utf8Bytes s, b < 256 := by
  intro b hb
  obtain ⟨byte, -, rfl⟩ := List.mem_map.mp hb
  exact byte.toNat_lt

/-- A text is read back from its bytes. -/
theorem textOfBytes_utf8Bytes (s : String) : textOfBytes (utf8Bytes s) = some s := by
  have hbytes : (utf8Bytes s).map UInt8.ofNat = s.toUTF8.data.toList := by
    simp [utf8Bytes, Function.comp_def]
  rw [textOfBytes, hbytes]
  exact dif_pos s.isValidUTF8

/-! ## The two forms -/

/-- The marks around an encoded text. -/
def isSentinel (chars : List Char) : Bool :=
  "=?base64?".toList.isPrefixOf chars && "?=".toList.isSuffixOf chars

/-- Reading a header value: base64 between the marks, or the text itself. A text between the marks
that is no base64, or no UTF-8, has no value. -/
def decodeHeaderValue (value : String) : Option String :=
  let chars := value.toList
  if isSentinel chars then
    (base64Decode ((chars.drop 9).take (chars.length - 11))).bind textOfBytes
  else some value

/-- A text that goes into a header as it is. -/
def PlainHeader (chars : List Char) : Prop :=
  (∀ c ∈ chars, ' ' ≤ c ∧ c ≤ '~') ∧ chars.head? ≠ some ' ' ∧ chars.getLast? ≠ some ' '

/-- An encoded text has the marks, a plain one has not. -/
theorem encodeHeaderValue_cases (value : String) :
    (PlainHeader value.toList ∧ isSentinel value.toList = false ∧ encodeHeaderValue value = value) ∨
      (encodeHeaderValue value).toList =
        "=?base64?".toList ++ base64 (utf8Bytes value) ++ "?=".toList := by
  unfold encodeHeaderValue
  dsimp only
  split
  · rename_i h
    simp only [Bool.and_eq_true, List.all_eq_true, decide_eq_true_eq, Bool.not_eq_true'] at h
    exact .inl ⟨⟨h.1.1.1, h.1.1.2, h.1.2⟩, h.2, rfl⟩
  · right
    change ("=?base64?" ++ String.ofList (base64 (utf8Bytes value)) ++ "?=").toList = _
    simp only [String.toList_append, String.toList_ofList]

/-- What stands in the header is plain. -/
theorem plain_encodeHeaderValue (value : String) :
    PlainHeader (encodeHeaderValue value).toList := by
  rcases encodeHeaderValue_cases value with ⟨hplain, -, heq⟩ | heq
  · rwa [heq]
  · rw [heq]
    refine ⟨fun c hc => ?_, by simp, ?_⟩
    · have hall : ("=?base64?".toList ++ base64Alphabet ++ "?=".toList).all
          (fun c => 32 ≤ c.toNat && c.toNat ≤ 126) = true := by decide +kernel
      have hmarks : ∀ c ∈ "=?base64?".toList ++ base64Alphabet ++ "?=".toList,
          ' ' ≤ c ∧ c ≤ '~' := fun c hc => by
        have := List.all_eq_true.mp hall c hc
        simp only [Bool.and_eq_true, decide_eq_true_eq] at this
        exact this
      simp only [List.mem_append] at hc hmarks
      rcases hc with (hc | hc) | hc
      · exact hmarks c (.inl (.inl hc))
      · rcases mem_base64 hc with hc | rfl
        · exact hmarks c (.inl (.inr hc))
        · decide
      · exact hmarks c (.inr hc)
    · rw [List.getLast?_append_of_ne_nil _ (by simp)]
      decide

/-- **A header value is read back.** This is what a server does with the header, in the order of
the checks that it makes. -/
theorem decode_encodeHeaderValue (value : String) :
    decodeHeaderValue (encodeHeaderValue value) = some value := by
  rcases encodeHeaderValue_cases value with ⟨-, hmarks, heq⟩ | heq
  · simp [decodeHeaderValue, heq, hmarks]
  · have hmarks : isSentinel (encodeHeaderValue value).toList = true := by
      rw [isSentinel, heq, Bool.and_eq_true, List.isPrefixOf_iff_prefix,
        List.isSuffixOf_iff_suffix, List.append_assoc]
      exact ⟨List.prefix_append _ _, List.append_assoc .. ▸ List.suffix_append _ _⟩
    have hmiddle : ((encodeHeaderValue value).toList.drop 9).take
        ((encodeHeaderValue value).toList.length - 11) = base64 (utf8Bytes value) := by
      rw [heq, List.append_assoc, List.drop_left' (by decide)]
      refine List.take_left' ?_
      simp
    simp only [decodeHeaderValue, hmarks, if_true, hmiddle, base64Decode_base64 utf8Bytes_lt,
      Option.bind_some, textOfBytes_utf8Bytes]

/-- What is plain can stand in a header. -/
theorem headerValueOk_of_plain {value : String} (h : PlainHeader value.toList) :
    headerValueOk value = true := by
  simp only [headerValueOk, List.all_eq_true, Bool.or_eq_true, Bool.and_eq_true,
    decide_eq_true_eq]
  intro c hc
  obtain ⟨hlow, hhigh⟩ := h.1 c hc
  refine .inr ⟨hlow, ?_⟩
  rintro hdel
  have : c.toNat ≤ '~'.toNat := hhigh
  rw [hdel] at this
  exact absurd this (by decide)

/-- **The encoding of header values is faithful**: it is printable ASCII without spaces around it,
a header takes it, it is read back, and no two texts share it. A text that may stand in a header
as it is goes out as it is, unless it looks like an encoded one, and every other text goes out in
base64 between its marks. So what a server reads is what the client was given. -/
theorem encodeHeaderValue_faithful :
    (∀ value, PlainHeader (encodeHeaderValue value).toList ∧
      headerValueOk (encodeHeaderValue value) = true ∧
      decodeHeaderValue (encodeHeaderValue value) = some value) ∧
    Function.Injective encodeHeaderValue := by
  refine ⟨fun value => ⟨plain_encodeHeaderValue value,
    headerValueOk_of_plain (plain_encodeHeaderValue value),
    decode_encodeHeaderValue value⟩, fun v w h => ?_⟩
  have hv := decode_encodeHeaderValue v
  rw [h, decode_encodeHeaderValue w] at hv
  exact (Option.some.inj hv).symm

/-- A text that looks like an encoded one, and one whose marks overlap. -/
example : decodeHeaderValue (encodeHeaderValue "=?base64?Zm9v?=") = some "=?base64?Zm9v?=" ∧
    encodeHeaderValue "=?base64?=" = "=?base64?PT9iYXNlNjQ/PQ==?=" := by
  decide +kernel

end HeadlessMcp
