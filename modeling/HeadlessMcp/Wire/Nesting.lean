import HeadlessMcp.Wire.Grammar
import HeadlessMcp.Wire.JsonRpc

/-!
# The nesting guard

`exceeds_max_nesting` reads bytes and knows of brackets, quotes and backslashes only. Along the
derivation of a JSON text its depth is the depth of the text at every point, and since it reads
from the left the same holds of every part of a text that a parser may have read so far.
-/

namespace HeadlessMcp

open Json

/-- The loop of `exceeds_max_nesting`, over bytes. -/
def exceedsBytes (maxDepth : Nat) : Nat → Bool → Bool → List UInt8 → Bool
  | _, _, _, [] => false
  | depth, true, true, _ :: bytes => exceedsBytes maxDepth depth true false bytes
  | depth, true, false, byte :: bytes =>
    if byte = ascii '\\' then exceedsBytes maxDepth depth true true bytes
    else exceedsBytes maxDepth depth (byte ≠ ascii '"') false bytes
  | depth, false, escaped, byte :: bytes =>
    if byte = ascii '"' then exceedsBytes maxDepth depth true escaped bytes
    else if byte = ascii '\x7b' ∨ byte = ascii '[' then
      if depth + 1 > maxDepth then true
      else exceedsBytes maxDepth (depth + 1) false escaped bytes
    else if byte = ascii '\x7d' ∨ byte = ascii ']' then
      exceedsBytes maxDepth (depth - 1) false escaped bytes
    else exceedsBytes maxDepth depth false escaped bytes

/-- `exceeds_max_nesting` of any bytes. -/
def exceedsNesting (bytes : List UInt8) (maxDepth : Nat) : Bool :=
  exceedsBytes maxDepth 0 false false bytes

/-! ## The state of the scan -/

/-- The variables of the loop. -/
structure Scan : Type where
  depth : Nat
  inString : Bool
  escaped : Bool
  deriving DecidableEq

namespace Scan

/-- What reading a byte makes of them, without a limit. -/
def step (s : Scan) (byte : UInt8) : Scan :=
  if s.inString then
    if s.escaped then { s with escaped := false }
    else if byte = ascii '\\' then { s with escaped := true }
    else { s with inString := byte ≠ ascii '"' }
  else if byte = ascii '"' then { s with inString := true }
  else if byte = ascii '\x7b' ∨ byte = ascii '[' then { s with depth := s.depth + 1 }
  else if byte = ascii '\x7d' ∨ byte = ascii ']' then { s with depth := s.depth - 1 }
  else s

/-- The guard, from a state of the loop. -/
def exceeds (maxDepth : Nat) (s : Scan) (bytes : List UInt8) : Bool :=
  exceedsBytes maxDepth s.depth s.inString s.escaped bytes

variable {maxDepth : Nat} {s t u : Scan}

/-- The guard stops where the state is too deep. -/
theorem exceeds_cons (h : s.depth ≤ maxDepth) (byte : UInt8) (bytes : List UInt8) :
    s.exceeds maxDepth (byte :: bytes) = true ↔
      maxDepth < (s.step byte).depth ∨ (s.step byte).exceeds maxDepth bytes = true := by
  obtain ⟨depth, inString, escaped⟩ := s
  have hle : ¬ maxDepth < depth := Nat.not_lt.mpr h
  cases inString with
  | true =>
    cases escaped with
    | true => simp [exceeds, exceedsBytes, step, hle]
    | false =>
      by_cases hslash : byte = ascii '\\'
      · simp [exceeds, exceedsBytes, step, hslash, hle]
      · simp [exceeds, exceedsBytes, step, hslash, hle]
  | false =>
    by_cases hquote : byte = ascii '"'
    · simp [exceeds, exceedsBytes, step, hquote, hle]
    by_cases hopen : byte = ascii '\x7b' ∨ byte = ascii '['
    · by_cases hdeep : maxDepth < depth + 1
      · simp [exceeds, exceedsBytes, step, hquote, hopen, hdeep]
      · simp [exceeds, exceedsBytes, step, hquote, hopen, hdeep]
    by_cases hclose : byte = ascii '\x7d' ∨ byte = ascii ']'
    · have hless : ¬ maxDepth < depth - 1 := by omega
      simp [exceeds, exceedsBytes, step, hquote, hopen, hclose, hless]
    · simp [exceeds, exceedsBytes, step, hquote, hopen, hclose, hle]

/-- Reading some points of a text finds the depth of each, and ends in a state. -/
def Follows : Scan → List Point → Scan → Prop
  | s, [], t => s = t
  | s, p :: points, t => (s.step p.1).depth = p.2 ∧ (s.step p.1).Follows points t

/-- The guard finds a point that is too deep. -/
theorem Follows.exceeds_iff {points : List Point} (h : s.Follows points t)
    (hdepth : s.depth ≤ maxDepth) :
    s.exceeds maxDepth (points.map Prod.fst) = true ↔ ∃ p ∈ points, maxDepth < p.2 := by
  induction points generalizing s with
  | nil => simp [exceeds, exceedsBytes]
  | cons p points ih =>
    rw [List.map_cons, exceeds_cons hdepth, h.1]
    by_cases hp : maxDepth < p.2
    · exact ⟨fun _ => ⟨p, List.mem_cons_self, hp⟩, fun _ => .inl hp⟩
    · rw [ih h.2 (by rw [h.1]; omega)]
      simp [hp]

theorem Follows.append {points points' : List Point} (h : s.Follows points t)
    (h' : t.Follows points' u) : s.Follows (points ++ points') u := by
  induction points generalizing s with
  | nil => exact h ▸ h'
  | cons p points ih => exact ⟨h.1, ih h.2⟩

/-- A part of the points that are followed. -/
theorem Follows.take {points points' : List Point} (h : s.Follows (points ++ points') t) :
    ∃ u, s.Follows points u := by
  induction points generalizing s with
  | nil => exact ⟨s, rfl⟩
  | cons p points ih =>
    obtain ⟨u, hu⟩ := ih h.2
    exact ⟨u, h.1, hu⟩

end Scan

/-- What is found in a part of the bytes is found in all of them. -/
theorem exceedsBytes_append {maxDepth depth : Nat} {inString escaped : Bool} {bytes more : List UInt8}
    (h : exceedsBytes maxDepth depth inString escaped bytes = true) :
    exceedsBytes maxDepth depth inString escaped (bytes ++ more) = true := by
  induction bytes generalizing depth inString escaped with
  | nil => cases h
  | cons byte bytes ih =>
    cases inString with
    | true =>
      cases escaped with
      | true => exact ih h
      | false =>
        rw [List.cons_append]
        rw [exceedsBytes] at h ⊢
        split at h
        · rename_i hslash
          rw [if_pos hslash]
          exact ih h
        · rename_i hslash
          rw [if_neg hslash]
          exact ih h
    | false =>
      rw [List.cons_append]
      rw [exceedsBytes] at h ⊢
      split_ifs at h ⊢ <;> first | exact ih h | rfl

/-! ## JSON texts -/

namespace Scan

/-- Outside of strings, at a depth. -/
def outside (depth : Nat) : Scan := ⟨depth, false, false⟩

/-- Inside a string. -/
def inside (depth : Nat) : Scan := ⟨depth, true, false⟩

/-- The bytes that mean something outside of strings. -/
def marks : List UInt8 := [ascii '"', ascii '\x7b', ascii '\x7d', ascii '[', ascii ']']

theorem not_mem_marks {P : UInt8 → Bool} {b : UInt8} (hP : (marks.any P) = false)
    (hb : P b = true) : b ∉ marks := fun hm =>
  absurd hb (List.any_eq_false.mp hP b hm)

/-- Bytes that mean nothing outside of strings. -/
theorem follows_flat {depth : Nat} {bytes : List UInt8} (h : ∀ b ∈ bytes, b ∉ marks) :
    (outside depth).Follows (flat depth bytes) (outside depth) := by
  induction bytes with
  | nil => rfl
  | cons b bytes ih =>
    have hb : b ∉ marks := h b List.mem_cons_self
    simp only [marks, List.mem_cons, List.not_mem_nil, or_false, not_or] at hb
    have hstep : (outside depth).step b = outside depth := by
      simp [step, outside, hb]
    refine ⟨by rw [hstep, outside], ?_⟩
    rw [hstep]
    exact ih fun b hb => h b (List.mem_cons_of_mem _ hb)

theorem follows_space {depth : Nat} {space : List UInt8} (h : IsSpace space) :
    (outside depth).Follows (flat depth space) (outside depth) :=
  follows_flat fun b hb => not_mem_marks (by decide) (h b hb)

/-! ### Tokens -/

theorem digits_not_marks {digits : List UInt8} (h : ∀ b ∈ digits, isDigit b = true) :
    ∀ b ∈ digits, b ∉ marks :=
  fun b hb => not_mem_marks (by decide) (h b hb)

theorem follows_number {depth : Nat} {text : List UInt8} (h : IsNumber text) :
    (outside depth).Follows (flat depth text) (outside depth) := by
  refine follows_flat ?_
  obtain ⟨hsign, hinteger, hfraction, hexponent⟩ := h
  simp only [List.mem_append]
  rintro b (((hb | hb) | hb) | hb)
  · rcases hsign with rfl | rfl
    · cases hb
    · obtain rfl := List.mem_singleton.mp hb
      decide
  · cases hinteger with
    | zero =>
      obtain rfl := List.mem_singleton.mp hb
      decide
    | digits hfirst _ hrest =>
      rcases List.mem_cons.mp hb with rfl | hb
      · exact not_mem_marks (by decide) hfirst
      · exact digits_not_marks hrest b hb
  · cases hfraction with
    | none => cases hb
    | digits _ hrest =>
      rcases List.mem_cons.mp hb with rfl | hb
      · decide
      · exact digits_not_marks hrest b hb
  · cases hexponent with
    | none => cases hb
    | digits hmark hsign _ hrest =>
      rw [List.mem_append, List.mem_cons] at hb
      rcases hb with (rfl | hb) | hb
      · rcases hmark with rfl | rfl <;> decide
      · rcases hsign with rfl | rfl | rfl
        · cases hb
        · obtain rfl := List.mem_singleton.mp hb
          decide
        · obtain rfl := List.mem_singleton.mp hb
          decide
      · exact digits_not_marks hrest b hb

/-- Bytes of a string other than quotes and backslashes. -/
theorem follows_inside {depth : Nat} {bytes : List UInt8}
    (h : ∀ b ∈ bytes, b ≠ ascii '"' ∧ b ≠ ascii '\\') :
    (inside depth).Follows (flat depth bytes) (inside depth) := by
  induction bytes with
  | nil => rfl
  | cons b bytes ih =>
    obtain ⟨hquote, hslash⟩ := h b List.mem_cons_self
    have hstep : (inside depth).step b = inside depth := by simp [step, inside, hquote, hslash]
    refine ⟨by rw [hstep, inside], ?_⟩
    rw [hstep]
    exact ih fun b hb => h b (List.mem_cons_of_mem _ hb)

/-- The byte behind a backslash means nothing. -/
theorem follows_escape {depth : Nat} (b : UInt8) :
    (inside depth).Follows (flat depth [ascii '\\', b]) (inside depth) := by
  have hslash : (inside depth).step (ascii '\\') = ⟨depth, true, true⟩ := by
    simp [step, inside]
  refine ⟨by rw [hslash], ?_⟩
  rw [hslash]
  exact ⟨rfl, rfl⟩

theorem flat_append {depth : Nat} (bytes more : List UInt8) :
    flat depth (bytes ++ more) = flat depth bytes ++ flat depth more := List.map_append

/-- The scan ends a string where the grammar does. -/
theorem follows_chars {depth : Nat} {chars : List UInt8} (h : IsChars chars) :
    (inside depth).Follows (flat depth chars) (inside depth) := by
  induction h with
  | nil => rfl
  | @plain b rest _ hquote hslash _ ih =>
    have hb : (inside depth).Follows (flat depth [b]) (inside depth) :=
      follows_inside fun _ hb => List.mem_singleton.mp hb ▸ ⟨hquote, hslash⟩
    exact hb.append ih
  | escape _ _ ih => exact (follows_escape _).append ih
  | @codePoint digits rest _ hdigits _ ih =>
    have hplain : ∀ b ∈ digits, b ≠ ascii '"' ∧ b ≠ ascii '\\' := by
      intro b hb
      refine ⟨?_, ?_⟩
      · rintro rfl
        exact absurd (hdigits _ hb) (by decide)
      · rintro rfl
        exact absurd (hdigits _ hb) (by decide)
    rw [flat_append]
    exact ((follows_escape (ascii 'u')).append (follows_inside hplain)).append ih

theorem follows_string {depth : Nat} {text : List UInt8} (h : IsString text) :
    (outside depth).Follows (flat depth text) (outside depth) := by
  obtain ⟨hchars⟩ := h
  have hopen : (outside depth).step (ascii '"') = inside depth := by
    simp [step, outside, inside]
  have hclose : (inside depth).step (ascii '"') = outside depth := by
    have hslash : ascii '"' ≠ ascii '\\' := by decide
    simp [step, outside, inside, hslash]
  rw [List.cons_append, flat, List.map_cons]
  refine ⟨by rw [hopen, inside], ?_⟩
  rw [hopen]
  refine (List.map_append ▸ (follows_chars hchars).append ?_)
  exact ⟨by rw [hclose]; rfl, hclose⟩

/-! ### Values -/

/-- What stands between brackets is read one level down. -/
theorem follows_nested {depth : Nat} {opening closing : UInt8} {points : List Point}
    (hopen : opening = ascii '\x7b' ∨ opening = ascii '[')
    (hclose : closing = ascii '\x7d' ∨ closing = ascii ']')
    (h : (outside (depth + 1)).Follows points (outside (depth + 1))) :
    (outside depth).Follows ((opening, depth + 1) :: points ++ [(closing, depth)])
      (outside depth) := by
  have hstart : (outside depth).step opening = outside (depth + 1) := by
    have hquote : opening ≠ ascii '"' := by rcases hopen with rfl | rfl <;> decide
    simp [step, outside, hquote, hopen]
  have hend : (outside (depth + 1)).step closing = outside depth := by
    have hquote : closing ≠ ascii '"' := by rcases hclose with rfl | rfl <;> decide
    have hother : ¬(closing = ascii '\x7b' ∨ closing = ascii '[') := by
      rcases hclose with rfl | rfl <;> decide
    simp [step, outside, hquote, hother, hclose]
  refine ⟨by rw [hstart, outside], ?_⟩
  rw [hstart]
  exact h.append ⟨by rw [hend, outside], hend⟩

/-- A byte that means nothing outside of strings. -/
theorem follows_byte {depth : Nat} {b : UInt8} {points : List Point} (hb : b ∉ marks)
    (h : (outside depth).Follows points (outside depth)) :
    (outside depth).Follows ((b, depth) :: points) (outside depth) := by
  have hbyte : (outside depth).Follows (flat depth [b]) (outside depth) :=
    follows_flat fun _ hmem => List.mem_singleton.mp hmem ▸ hb
  exact hbyte.append h

mutual

theorem follows_value {depth : Nat} {points : List Point} :
    IsValue depth points → (outside depth).Follows points (outside depth)
  | .literal h => follows_flat fun b hb => by
    have hplain : literals.all (fun text => text.all (· ∉ marks)) = true := by decide
    exact of_decide_eq_true (List.all_eq_true.mp (List.all_eq_true.mp hplain _ h) b hb)
  | .number h => follows_number h
  | .string h => follows_string h
  | .emptyArray h => follows_nested (.inr rfl) (.inr rfl) (follows_space h)
  | .array h => follows_nested (.inr rfl) (.inr rfl) (follows_elements h)
  | .emptyObject h => follows_nested (.inl rfl) (.inl rfl) (follows_space h)
  | .object h => follows_nested (.inl rfl) (.inl rfl) (follows_members h)

theorem follows_element {depth : Nat} {points : List Point} :
    IsElement depth points → (outside depth).Follows points (outside depth)
  | .mk hbefore hvalue hafter =>
    ((follows_space hbefore).append (follows_value hvalue)).append (follows_space hafter)

theorem follows_elements {depth : Nat} {points : List Point} :
    IsElements depth points → (outside depth).Follows points (outside depth)
  | .last h => follows_element h
  | .cons h hrest => (follows_element h).append (follows_byte (by decide) (follows_elements hrest))

theorem follows_member {depth : Nat} {points : List Point} :
    IsMember depth points → (outside depth).Follows points (outside depth)
  | .mk hbefore hkey hafter h => by
    rw [flat_append, flat_append]
    refine (((follows_space hbefore).append (follows_string hkey)).append
      (follows_space hafter)).append ?_
    exact follows_byte (by decide) (follows_element h)

theorem follows_members {depth : Nat} {points : List Point} :
    IsMembers depth points → (outside depth).Follows points (outside depth)
  | .last h => follows_member h
  | .cons h hrest => (follows_member h).append (follows_byte (by decide) (follows_members hrest))

end

end Scan

/-! ## Texts -/

/-- The bytes of a character: its code if it is ASCII, else bytes that no ASCII character has. -/
theorem utf8EncodeChar_cases (c : Char) :
    (c.toNat < 128 ∧ String.utf8EncodeChar c = [ascii c]) ∨
      (128 ≤ c.toNat ∧ ∃ b bs, String.utf8EncodeChar c = b :: bs ∧ ∀ x ∈ b :: bs, 128 ≤ x.toNat) := by
  have hnat : c.val.toNat = c.toNat := rfl
  simp only [String.utf8EncodeChar, hnat]
  by_cases h : c.toNat ≤ 127
  · refine .inl ⟨by omega, ?_⟩
    rw [if_pos h]
    rfl
  · refine .inr ⟨by omega, ?_⟩
    rw [if_neg h]
    split_ifs
    all_goals
      refine ⟨_, _, rfl, ?_⟩
      simp only [List.mem_cons, List.not_mem_nil, or_false]
    · rintro x (rfl | rfl) <;> simp <;> omega
    · rintro x (rfl | rfl | rfl) <;> simp <;> omega
    · rintro x (rfl | rfl | rfl | rfl) <;> simp <;> omega

/-- An ASCII character and its byte are told apart from others alike. -/
theorem ascii_inj {c d : Char} (hc : c.toNat < 128) (hd : d.toNat < 128) :
    ascii c = ascii d ↔ c = d := by
  constructor
  · intro h
    have h := congrArg UInt8.toNat h
    have hbyte (e : Char) (he : e.toNat < 128) : (ascii e).toNat = e.toNat := by
      change e.toNat % 256 = e.toNat
      omega
    rw [hbyte c hc, hbyte d hd] at h
    exact Char.toNat_inj.mp h
  · rintro rfl
    rfl

/-- A byte that no ASCII character has is no byte of the scan. -/
theorem ne_ascii_of_high {b : UInt8} (h : 128 ≤ b.toNat) {d : Char} (hd : d.toNat < 128) :
    b ≠ ascii d := by
  rintro rfl
  have hbyte : (ascii d).toNat = d.toNat % 256 := rfl
  omega

/-- Such a byte only ends an escape. -/
theorem exceedsBytes_high {maxDepth depth : Nat} {inString escaped : Bool} {b : UInt8}
    {more : List UInt8} (h : 128 ≤ b.toNat) :
    exceedsBytes maxDepth depth inString escaped (b :: more) =
      exceedsBytes maxDepth depth inString (escaped && !inString) more := by
  have hne (d : Char) (hd : d.toNat < 128) : b ≠ ascii d := ne_ascii_of_high h hd
  cases inString with
  | true =>
    cases escaped with
    | true => rfl
    | false =>
      rw [exceedsBytes, if_neg (hne '\\' (by decide)), decide_eq_true (hne '"' (by decide))]
      rfl
  | false =>
    rw [exceedsBytes, if_neg (hne '"' (by decide)),
      if_neg (not_or.mpr ⟨hne '\x7b' (by decide), hne '[' (by decide)⟩),
      if_neg (not_or.mpr ⟨hne '\x7d' (by decide), hne ']' (by decide)⟩)]
    simp

/-- So do the bytes of a character that is not ASCII. -/
theorem exceedsBytes_append_high {maxDepth depth : Nat} {inString escaped : Bool} {b : UInt8}
    {bytes more : List UInt8} (h : ∀ x ∈ b :: bytes, 128 ≤ x.toNat) :
    exceedsBytes maxDepth depth inString escaped (b :: bytes ++ more) =
      exceedsBytes maxDepth depth inString (escaped && !inString) more := by
  induction bytes generalizing b escaped with
  | nil => exact exceedsBytes_high (h b List.mem_cons_self)
  | cons b' bytes ih =>
    rw [List.cons_append, exceedsBytes_high (h b List.mem_cons_self),
      ih fun x hx => h x (List.mem_cons_of_mem _ hx), Bool.and_assoc, Bool.and_self]

/-- The guard on the bytes of a text is the guard on its characters. -/
theorem exceedsFrom_eq {maxDepth depth : Nat} {inString escaped : Bool} (chars : List Char) :
    exceedsFrom maxDepth depth inString escaped chars =
      exceedsBytes maxDepth depth inString escaped (chars.flatMap String.utf8EncodeChar) := by
  induction chars generalizing depth inString escaped with
  | nil => cases inString <;> cases escaped <;> rfl
  | cons c chars ih =>
    rw [List.flatMap_cons]
    rcases utf8EncodeChar_cases c with ⟨hc, hbytes⟩ | ⟨hc, b, bytes, hbytes, hhigh⟩
    · have hsame (d : Char) (hd : d.toNat < 128) : (ascii c = ascii d) = (c = d) :=
        propext (ascii_inj hc hd)
      rw [hbytes, List.singleton_append]
      cases inString with
      | true =>
        cases escaped with
        | true => exact ih
        | false =>
          rw [exceedsFrom, exceedsBytes]
          simp only [hsame '\\' (by decide), ne_eq, hsame '"' (by decide), ih]
      | false =>
        rw [exceedsFrom, exceedsBytes]
        simp only [hsame '"' (by decide), hsame '\x7b' (by decide), hsame '[' (by decide),
          hsame '\x7d' (by decide), hsame ']' (by decide), ih]
    · have hne (d : Char) (hd : d.toNat < 128) : c ≠ d := by
        rintro rfl
        omega
      rw [hbytes, exceedsBytes_append_high hhigh, ← ih]
      cases inString with
      | true =>
        cases escaped with
        | true => rfl
        | false =>
          rw [exceedsFrom, if_neg (hne '\\' (by decide)), decide_eq_true (hne '"' (by decide))]
          rfl
      | false =>
        rw [exceedsFrom, if_neg (hne '"' (by decide)),
          if_neg (not_or.mpr ⟨hne '\x7b' (by decide), hne '[' (by decide)⟩),
          if_neg (not_or.mpr ⟨hne '\x7d' (by decide), hne ']' (by decide)⟩)]
        simp

/-- The guard of `decode_message` is the guard on the bytes of its text. -/
theorem exceedsMaxNesting_eq (text : String) (maxDepth : Nat) :
    exceedsMaxNesting text maxDepth = exceedsNesting text.toUTF8.data.toList maxDepth := by
  have hbytes : text.toUTF8.data.toList = text.toList.flatMap String.utf8EncodeChar := by
    rw [String.toUTF8_eq_toByteArray, ← String.utf8Encode_toList, List.utf8Encode,
      List.toList_data_toByteArray]
  rw [hbytes]
  exact exceedsFrom_eq text.toList

/-- **The guard measures real nesting.** Of a JSON text it finds exactly whether a point lies
inside more arrays and objects than the limit; and what it lets through, JSON or not, has no
part in front that goes on to a JSON text and lies deeper at any point. -/
theorem exceedsNesting_sound (maxDepth : Nat) :
    (∀ points, IsText points →
      (exceedsNesting (points.map Prod.fst) maxDepth = true ↔ ∃ p ∈ points, maxDepth < p.2)) ∧
    (∀ bytes, exceedsNesting bytes maxDepth = false →
      ∀ part rest, IsText (part ++ rest) → part.map Prod.fst <+: bytes →
        ∀ p ∈ part, p.2 ≤ maxDepth) := by
  refine ⟨fun points h => ?_, fun bytes hbytes part rest h hpart p hp => ?_⟩
  · exact (Scan.follows_element h).exceeds_iff (Nat.zero_le maxDepth)
  · obtain ⟨u, hfollows⟩ := (Scan.follows_element h).take
    obtain ⟨more, rfl⟩ := hpart
    by_contra hdeep
    have hfound := (hfollows.exceeds_iff (Nat.zero_le maxDepth)).mpr ⟨p, hp, Nat.lt_of_not_le hdeep⟩
    have hall : exceedsNesting (part.map Prod.fst ++ more) maxDepth = true :=
      exceedsBytes_append hfound
    exact absurd (hall.symm.trans hbytes) (by decide)

/-- A bracket inside a string opens nothing. -/
example : ∃ points, IsText points ∧ points.map Prod.fst = token "[ \"[\"]" ∧
    points.map Prod.snd = [1, 1, 1, 1, 1, 0] ∧
    exceedsNesting (token "[ \"[\"]") 1 = false := by
  have hstring : IsString (token "\"[\"") :=
    .mk (.plain (by decide) (by decide) (by decide) .nil)
  have hitem : IsElement 1 (flat 1 [ascii ' '] ++ flat 1 (token "\"[\"") ++ flat 1 []) :=
    .mk (by simp [IsSpace, isSpace]) (.string hstring) (List.forall_mem_nil _)
  have hnone : IsSpace [] := List.forall_mem_nil _
  exact ⟨_, .mk hnone (.array (.last hitem)) hnone, by decide, by decide, by decide⟩

end HeadlessMcp
