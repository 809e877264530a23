import HeadlessMcp.Core.Parser
import HeadlessMcp.Wire.JsonRpc
import Mathlib

/-!
# What is encoded is decoded

`decode_message` scans the text for deep nesting before `serde_json` sees it. The scan knows
nothing of JSON but brackets and string ends, so that it lets every printed value of that
depth through is a fact about the printer (`skipped_print`): every string it prints ends where
the scan thinks it does.

`serde_json` keeps a map in the order of its keys, while a message is written in the order of
its fields. `normalize` is that difference, and the only one that parsing makes to what was
printed.
-/

namespace HeadlessMcp

namespace Value

/-! ## Values as `serde_json` keeps them -/

mutual

/-- How deep arrays and objects are nested. -/
def depth : Value → Nat
  | array xs => depthItems xs + 1
  | object m => depthEntries m + 1
  | _ => 0

/-- The depth of the items of an array. -/
def depthItems : List Value → Nat
  | [] => 0
  | v :: vs => max v.depth (depthItems vs)

/-- The depth of the entries of an object. -/
def depthEntries : List (String × Value) → Nat
  | [] => 0
  | (_, v) :: m => max v.depth (depthEntries m)

end

mutual

/-- The value with the entries of every map in the order of their keys. -/
def normalize : Value → Value
  | array xs => array (normalizeItems xs)
  | object m => object ((normalizeEntries m).insertionSort fun a b => a.1 ≤ b.1)
  | v => v

/-- The items of an array, normalized. -/
def normalizeItems : List Value → List Value
  | [] => []
  | v :: vs => v.normalize :: normalizeItems vs

/-- The values of an object, normalized. -/
def normalizeEntries : List (String × Value) → List (String × Value)
  | [] => []
  | (k, v) :: m => (k, v.normalize) :: normalizeEntries m

end

mutual

/-- Every number is in the range of `serde_json`, and its text is that of a number. -/
def Plain : Value → Prop
  | number (.int n) => -2 ^ 63 ≤ n ∧ n < 2 ^ 64
  | number (.float text) => ∀ c ∈ text.toList, c ∈ floatChars
  | array xs => PlainItems xs
  | object m => PlainEntries m
  | _ => True

/-- The items of an array are plain. -/
def PlainItems : List Value → Prop
  | [] => True
  | v :: vs => v.Plain ∧ PlainItems vs

/-- The values of an object are plain. -/
def PlainEntries : List (String × Value) → Prop
  | [] => True
  | (_, v) :: m => v.Plain ∧ PlainEntries m

end

/-- How `serde_json` writes the numbers that are not integers: the texts that it prints and
reads back as they are. Each of them has a fraction or an exponent. -/
structure FloatFormat where
  Prints : String → Prop
  isNumber : ∀ text, Prints text → FloatText text

mutual

/-- A value that `serde_json` can hold: its integers are in range, its other numbers are printed
as they are kept, and no map has two entries for one key. -/
def Held (F : FloatFormat) : Value → Prop
  | number (.int n) => -2 ^ 63 ≤ n ∧ n < 2 ^ 64
  | number (.float text) => F.Prints text
  | array xs => HeldItems F xs
  | object m => (Entries.keys m).Nodup ∧ HeldEntries F m
  | _ => True

/-- The items of an array can be held. -/
def HeldItems (F : FloatFormat) : List Value → Prop
  | [] => True
  | v :: vs => v.Held F ∧ HeldItems F vs

/-- The values of an object can be held. -/
def HeldEntries (F : FloatFormat) : List (String × Value) → Prop
  | [] => True
  | (_, v) :: m => v.Held F ∧ HeldEntries F m

end

mutual

/-- What is held is plain. -/
theorem Held.plain {F : FloatFormat} : ∀ {v : Value}, v.Held F → v.Plain
  | null, _ => trivial
  | bool _, _ => trivial
  | number (.int _), h => h
  | number (.float text), h => (F.isNumber text h).chars
  | string _, _ => trivial
  | array _, h => HeldItems.plain h
  | object _, h => HeldEntries.plain h.2

theorem HeldItems.plain {F : FloatFormat} : ∀ {xs : List Value}, HeldItems F xs → PlainItems xs
  | [], _ => trivial
  | _ :: _, h => ⟨h.1.plain, HeldItems.plain h.2⟩

theorem HeldEntries.plain {F : FloatFormat} :
    ∀ {m : List (String × Value)}, HeldEntries F m → PlainEntries m
  | [], _ => trivial
  | (_, _) :: _, h => ⟨h.1.plain, HeldEntries.plain h.2⟩

end

mutual

/-- What is held is read back from its text. -/
theorem Held.readable {F : FloatFormat} : ∀ {v : Value}, v.Held F → v.Readable
  | null, _ => trivial
  | bool _, _ => trivial
  | number (.int _), _ => trivial
  | number (.float text), h => F.isNumber text h
  | string _, _ => trivial
  | array _, h => HeldItems.readable h
  | object _, h => HeldEntries.readable h.2

theorem HeldItems.readable {F : FloatFormat} :
    ∀ {xs : List Value}, HeldItems F xs → ReadableItems xs
  | [], _ => trivial
  | _ :: _, h => ⟨h.1.readable, HeldItems.readable h.2⟩

theorem HeldEntries.readable {F : FloatFormat} :
    ∀ {m : List (String × Value)}, HeldEntries F m → ReadableEntries m
  | [], _ => trivial
  | (_, _) :: _, h => ⟨h.1.readable, HeldEntries.readable h.2⟩

end

/-- A value that `serde_json` can hold, with every map in the order of its keys. -/
structure Stored (F : FloatFormat) (v : Value) : Prop where
  held : v.Held F
  sorted : v.normalize = v

/-- A lookup finds the normalized field. -/
theorem get_normalizeEntries (m : Map) (key : String) :
    Entries.get (normalizeEntries m) key = (Entries.get m key).map normalize := by
  induction m with
  | nil => rfl
  | cons e m ih =>
    obtain ⟨k, v⟩ := e
    rw [normalizeEntries, Entries.get_cons, Entries.get_cons, ih]
    split <;> rfl

theorem keys_normalizeEntries (m : Map) : Entries.keys (normalizeEntries m) = Entries.keys m := by
  induction m with
  | nil => rfl
  | cons e m ih => exact congrArg (e.1 :: ·) ih

/-- A field of a normalized object. -/
theorem get_normalize {m : Map} (hunique : (Entries.keys m).Nodup) (key : String) :
    (object m).normalize.get key = (Entries.get m key).map normalize := by
  rw [← get_normalizeEntries]
  refine Entries.get_perm ?_ (List.perm_insertionSort _ _) key
  rw [keys_normalizeEntries]
  exact hunique

/-! ## The nesting guard -/

/-- The scan goes past a text outside of strings, at a depth. -/
def Skipped (maxDepth depth : Nat) (text : List Char) : Prop :=
  ∀ rest, exceedsFrom maxDepth depth false false (text ++ rest) =
    exceedsFrom maxDepth depth false false rest

variable {maxDepth depth : Nat}

theorem skipped_nil : Skipped maxDepth depth [] := fun _ => rfl

theorem Skipped.append {xs ys : List Char} (hx : Skipped maxDepth depth xs)
    (hy : Skipped maxDepth depth ys) : Skipped maxDepth depth (xs ++ ys) := fun rest => by
  rw [List.append_assoc, hx, hy]

/-- Characters that mean nothing to the scan. -/
def scanned : List Char := ['"', '\x7b', '\x7d', '[', ']']

theorem skipped_plain {text : List Char} (h : ∀ c ∈ text, c ∉ scanned) :
    Skipped maxDepth depth text := by
  induction text with
  | nil => exact skipped_nil
  | cons c text ih =>
    intro rest
    have hc : c ∉ scanned := h c List.mem_cons_self
    simp only [scanned, List.mem_cons, List.not_mem_nil, or_false, not_or] at hc
    obtain ⟨hquote, hopen, hclose, hbracket, hbracket'⟩ := hc
    rw [List.cons_append, exceedsFrom, if_neg hquote, if_neg (not_or.mpr ⟨hopen, hbracket⟩),
      if_neg (not_or.mpr ⟨hclose, hbracket'⟩)]
    exact ih (fun c hc => h c (List.mem_cons_of_mem _ hc)) rest

/-- Some texts, one after another with a comma in between. -/
theorem skipped_intercalate {texts : List String}
    (h : ∀ text ∈ texts, Skipped maxDepth depth text.toList) :
    Skipped maxDepth depth (",".intercalate texts).toList := by
  induction texts with
  | nil => exact skipped_nil
  | cons text texts ih =>
    have htext := h text List.mem_cons_self
    have hrest := ih fun t ht => h t (List.mem_cons_of_mem _ ht)
    have hcomma : Skipped maxDepth depth ",".toList := skipped_plain (by simp [scanned])
    cases texts with
    | nil => rwa [String.intercalate_singleton]
    | cons next texts =>
      rw [String.intercalate_cons_cons, String.toList_append, String.toList_append]
      exact (htext.append hcomma).append hrest

/-- What is printed between brackets is skipped one level down. -/
theorem skipped_nested {opening closing : Char} {text : List Char}
    (hopen : opening = '\x7b' ∨ opening = '[') (hclose : closing = '\x7d' ∨ closing = ']')
    (hdepth : depth + 1 ≤ maxDepth) (h : Skipped maxDepth (depth + 1) text) :
    Skipped maxDepth depth (opening :: text ++ [closing]) := by
  intro rest
  have hquote : opening ≠ '"' := by
    rintro rfl
    exact absurd hopen (by decide)
  have hquote' : closing ≠ '"' ∧ ¬ (closing = '\x7b' ∨ closing = '[') := by
    obtain rfl | rfl := hclose <;> decide
  rw [List.cons_append, List.cons_append, List.append_assoc, exceedsFrom, if_neg hquote,
    if_pos hopen, if_neg (Nat.not_lt.mpr hdepth), h, List.singleton_append, exceedsFrom,
    if_neg hquote'.1, if_neg hquote'.2, if_pos hclose, Nat.add_sub_cancel]

/-! ### Strings -/

/-- An escape is a backslash and a character, and then perhaps characters of its own. -/
theorem exceedsFrom_escape (c : Char) {text : List Char} (h : ∀ c ∈ text, c ≠ '"' ∧ c ≠ '\\')
    (rest : List Char) :
    exceedsFrom maxDepth depth true false ('\\' :: c :: text ++ rest) =
      exceedsFrom maxDepth depth true false rest := by
  have hfirst : exceedsFrom maxDepth depth true false ('\\' :: c :: text ++ rest) =
      exceedsFrom maxDepth depth true false (text ++ rest) := rfl
  rw [hfirst]
  clear hfirst
  induction text with
  | nil => rfl
  | cons c text ih =>
    obtain ⟨hquote, hslash⟩ := h c List.mem_cons_self
    rw [List.cons_append, exceedsFrom, if_neg hslash, decide_eq_true hquote]
    exact ih fun c hc => h c (List.mem_cons_of_mem _ hc)

theorem digitChar_plain {n : Nat} (h : n < 16) : n.digitChar ≠ '"' ∧ n.digitChar ≠ '\\' := by
  interval_cases n <;> decide

/-- A character inside a string is read to its end. -/
theorem exceedsFrom_escapeChar (c : Char) (rest : List Char) :
    exceedsFrom maxDepth depth true false ((escapeChar c).toList ++ rest) =
      exceedsFrom maxDepth depth true false rest := by
  have short (c : Char) : exceedsFrom maxDepth depth true false ('\\' :: [c] ++ rest) =
      exceedsFrom maxDepth depth true false rest :=
    exceedsFrom_escape c (fun _ h => absurd h List.not_mem_nil) rest
  rw [escapeChar]
  by_cases h₁ : c = '"'
  · rw [if_pos h₁]
    exact short '"'
  by_cases h₂ : c = '\\'
  · rw [if_neg h₁, if_pos h₂]
    exact short '\\'
  rw [if_neg h₁, if_neg h₂]
  split_ifs with h₃ h₄ h₅ h₆ h₇ h₈
  · exact short 'n'
  · exact short 'r'
  · exact short 't'
  · exact short 'b'
  · exact short 'f'
  · have hhex : ∀ d ∈ ['0', '0', (c.toNat / 16).digitChar, (c.toNat % 16).digitChar],
        d ≠ '"' ∧ d ≠ '\\' := by
      intro d hd
      simp only [List.mem_cons, List.not_mem_nil, or_false] at hd
      obtain rfl | rfl | rfl | rfl := hd
      · decide
      · decide
      · exact digitChar_plain (by omega)
      · exact digitChar_plain (Nat.mod_lt _ (by decide))
    rw [← exceedsFrom_escape 'u' hhex rest]
    congr 1
    simp
  · rw [String.toList_singleton, List.singleton_append, exceedsFrom, if_neg h₂,
      decide_eq_true h₁]

theorem skipped_printString (s : String) : Skipped maxDepth depth (printString s).toList := by
  intro rest
  have hinside (cs : List Char) : exceedsFrom maxDepth depth true false
      ((cs.flatMap fun c => (escapeChar c).toList) ++ '"' :: rest) =
        exceedsFrom maxDepth depth false false rest := by
    induction cs with
    | nil => rfl
    | cons c cs ih => rw [List.flatMap_cons, List.append_assoc, exceedsFrom_escapeChar, ih]
  rw [printString_toList, List.cons_append, List.cons_append, List.append_assoc]
  exact hinside s.toList

/-! ### Values -/

theorem skipped_int (n : Int) : Skipped maxDepth depth (toString n).toList := by
  have hdigits (m : Nat) : ∀ c ∈ m.repr.toList, c ∉ scanned := by
    intro c hc
    rw [Nat.toList_repr] at hc
    have hdigit := Nat.isDigit_of_mem_toDigits (by decide) (by decide) hc
    intro hmem
    simp only [scanned, List.mem_cons, List.not_mem_nil, or_false] at hmem
    obtain rfl | rfl | rfl | rfl | rfl := hmem <;> exact absurd hdigit (by decide)
  refine skipped_plain fun c hc => ?_
  cases n with
  | ofNat m => exact hdigits m c hc
  | negSucc m =>
    have hneg : (toString (Int.negSucc m)).toList = '-' :: (m + 1).repr.toList := by
      simp [Int.toString_eq_repr, Int.repr]
    rw [hneg] at hc
    obtain rfl | hc := List.mem_cons.mp hc
    · decide
    · exact hdigits _ c hc

mutual

/-- **The guard lets printed values through** that are nested no deeper than it allows. -/
theorem skipped_print : ∀ {v : Value} {depth : Nat}, v.Plain → depth + v.depth ≤ maxDepth →
    Skipped maxDepth depth v.print.toList
  | null, _, _, _ => skipped_plain (by simp [print, scanned])
  | bool b, _, _, _ => by
    cases b <;> exact skipped_plain (by simp [print, scanned])
  | number (.int n), _, _, _ => skipped_int n
  | number (.float text), _, h, _ => by
    refine skipped_plain fun c hc hmem => ?_
    simp only [scanned, List.mem_cons, List.not_mem_nil, or_false] at hmem
    obtain rfl | rfl | rfl | rfl | rfl := hmem <;> exact absurd (h _ hc) (by decide)
  | string s, _, _, _ => skipped_printString s
  | array xs, depth, h, hdepth => by
    rw [Value.depth, ← Nat.add_assoc, Nat.add_right_comm] at hdepth
    have hitems := skipped_intercalate (skipped_printItems h hdepth)
    rw [print, String.toList_append, String.toList_append]
    exact skipped_nested (.inr rfl) (.inr rfl) (Nat.le_trans (Nat.le_add_right _ _) hdepth) hitems
  | object m, depth, h, hdepth => by
    rw [Value.depth, ← Nat.add_assoc, Nat.add_right_comm] at hdepth
    have hentries := skipped_intercalate (skipped_printEntries h hdepth)
    rw [print, String.toList_append, String.toList_append]
    exact skipped_nested (.inl rfl) (.inl rfl) (Nat.le_trans (Nat.le_add_right _ _) hdepth) hentries

theorem skipped_printItems : ∀ {xs : List Value} {depth : Nat}, PlainItems xs →
    depth + depthItems xs ≤ maxDepth → ∀ text ∈ printItems xs,
      Skipped maxDepth depth text.toList
  | [], _, _, _, _, htext => absurd htext List.not_mem_nil
  | v :: vs, depth, h, hdepth, text, htext => by
    rw [depthItems] at hdepth
    obtain rfl | htext := List.mem_cons.mp htext
    · exact skipped_print h.1 (by omega)
    · exact skipped_printItems h.2 (by omega) text htext

theorem skipped_printEntries : ∀ {m : List (String × Value)} {depth : Nat}, PlainEntries m →
    depth + depthEntries m ≤ maxDepth → ∀ text ∈ printEntries m,
      Skipped maxDepth depth text.toList
  | [], _, _, _, _, htext => absurd htext List.not_mem_nil
  | (k, v) :: m, depth, h, hdepth, text, htext => by
    rw [depthEntries] at hdepth
    obtain rfl | htext := List.mem_cons.mp htext
    · have hkey : Skipped maxDepth depth (printString k).toList := skipped_printString k
      have hcolon : Skipped maxDepth depth ":".toList := skipped_plain (by simp [scanned])
      rw [String.toList_append, String.toList_append]
      exact (hkey.append hcolon).append (skipped_print h.1 (by omega))
    · exact skipped_printEntries h.2 (by omega) text htext

end

/-- An object of such values is nested no deeper than the guard allows. -/
theorem not_exceedsMaxNesting {m : Map} (h : PlainEntries m)
    (hdepth : (object m).depth ≤ maxDepth) :
    exceedsMaxNesting (object m).print maxDepth = false := by
  rw [Value.depth, ← Nat.zero_add (depthEntries m + 1), ← Nat.add_assoc,
    Nat.add_right_comm] at hdepth
  have hentries := skipped_intercalate (skipped_printEntries h hdepth)
  have hprint : Skipped maxDepth 0 (object m).print.toList := by
    rw [print, String.toList_append, String.toList_append]
    exact skipped_nested (.inl rfl) (.inl rfl) (Nat.le_trans (Nat.le_add_right _ _) hdepth) hentries
  rw [exceedsMaxNesting, ← List.append_nil (object m).print.toList, hprint]
  rfl

end Value

/-! ## Messages -/

variable {F : Value.FloatFormat}

/-- An id that is an `i64`, or a string. -/
def JsonRpcId.Valid : JsonRpcId → Prop
  | number n => -2 ^ 63 ≤ n ∧ n < 2 ^ 63
  | string _ => True

/-- An error object with an `i64` code, and data that is not null where it has some. -/
structure JsonRpcError.Valid (F : Value.FloatFormat) (e : JsonRpcError) : Prop where
  code : -2 ^ 63 ≤ e.code ∧ e.code < 2 ^ 63
  data : ∀ v, e.data = some v → v.Stored F ∧ v ≠ .null

/-- A message that the constructors build. -/
def JsonRpcMessage.Valid (F : Value.FloatFormat) : JsonRpcMessage → Prop
  | request id _ params => id.Valid ∧ ∀ v, params = some v → v.Stored F
  | notification _ params => ∀ v, params = some v → v.Stored F
  | success id result => id.Valid ∧ result.Stored F
  | error id err => (∀ i, id = some i → i.Valid) ∧ err.Valid F

theorem JsonRpcId.parseId_toValue {id : JsonRpcId} (h : id.Valid) : parseId id.toValue = some id := by
  cases id with
  | number n =>
    have hrange : (Value.number (.int n)).asI64 = some n := if_pos h
    exact congrArg (Option.map JsonRpcId.number) hrange
  | string s => rfl

theorem JsonRpcId.held_toValue {id : JsonRpcId} (h : id.Valid) : id.toValue.Held F := by
  cases id with
  | number n => exact ⟨h.1, Int.lt_trans h.2 (by decide)⟩
  | string s => trivial

theorem JsonRpcId.normalize_toValue (id : JsonRpcId) : id.toValue.normalize = id.toValue := by
  cases id <;> rfl

/-- A field that may be skipped. -/
theorem heldEntries_optionalField {key : String} {v : Option Value}
    (h : ∀ w, v = some w → w.Stored F) : Value.HeldEntries F (optionalField key v) := by
  cases v with
  | none => trivial
  | some w => exact ⟨(h w rfl).held, trivial⟩

/-- The names of some fields and of one that may be skipped. -/
theorem nodup_optionalField {m : Map} {key : String} (h : (Entries.keys m ++ [key]).Nodup)
    (v : Option Value) : (Entries.keys (m ++ optionalField key v)).Nodup := by
  rw [Entries.keys, List.map_append]
  cases v with
  | none => exact h.sublist (List.Sublist.append_left (List.nil_sublist _) _)
  | some v => exact h

/-- The fields of an error object have different names. -/
theorem JsonRpcError.nodup_fields (e : JsonRpcError) :
    (Entries.keys ([("code", Value.number (.int e.code)), ("message", .string e.message)] ++
      optionalField "data" e.data)).Nodup := by
  have hnames : ["code", "message", "data"].Nodup := by decide
  refine nodup_optionalField ?_ e.data
  exact hnames

theorem JsonRpcError.held_toValue {e : JsonRpcError} (h : e.Valid F) : e.toValue.Held F :=
  ⟨e.nodup_fields, ⟨h.code.1, Int.lt_trans h.code.2 (by decide)⟩, trivial,
    heldEntries_optionalField fun v hv => (h.data v hv).1⟩

/-- An error object is read back. -/
theorem JsonRpcError.toJsonRpcError_normalize {e : JsonRpcError} (h : e.Valid F) :
    e.toValue.normalize.toJsonRpcError = some e := by
  have hget := Value.get_normalize e.nodup_fields
  have hcode : (Value.number (.int e.code)).asI64 = some e.code := if_pos h.code
  have hdata : e.toValue.normalize.optField "data" = e.data := by
    rw [toValue, Value.optField, hget]
    cases hdata : e.data with
    | none => rfl
    | some v =>
      obtain ⟨hstored, hnull⟩ := h.data v hdata
      have hfield : (Entries.get ([("code", Value.number (.int e.code)),
          ("message", .string e.message)] ++ optionalField "data" (some v)) "data").map
            Value.normalize = some v := congrArg some hstored.sorted
      rw [hfield]
      cases v <;> first | rfl | exact absurd rfl hnull
  rw [Value.toJsonRpcError, hdata, toValue, hget, hget]
  show ((Value.number (.int e.code)).asI64.bind fun code => some ⟨code, e.message, e.data⟩) = some e
  rw [hcode]
  rfl

/-- The fields of a message have different names. -/
theorem JsonRpcMessage.nodup_fields (m : JsonRpcMessage) : (Entries.keys m.fields).Nodup := by
  have hrequest : ["jsonrpc", "id", "method", "params"].Nodup := by decide
  have hnotification : ["jsonrpc", "method", "params"].Nodup := by decide
  have hsuccess : ["jsonrpc", "id", "result"].Nodup := by decide
  have herror : ["jsonrpc", "id", "error"].Nodup := by decide
  cases m with
  | request id method params =>
    refine nodup_optionalField ?_ params
    exact hrequest
  | notification method params =>
    refine nodup_optionalField ?_ params
    exact hnotification
  | success id result => exact hsuccess
  | error id err => exact herror

/-- The params of a message, as they are read back. -/
theorem map_normalize_of_stored {v : Option Value} (h : ∀ w, v = some w → w.Stored F) :
    v.map Value.normalize = v := by
  cases v with
  | none => rfl
  | some w => exact congrArg some (h w rfl).sorted

/-- A map holds the fields of a message as they are read back. -/
def JsonRpcMessage.Holds (m : JsonRpcMessage) (obj : Map) : Prop :=
  ∀ key, Entries.get obj key = (Entries.get m.fields key).map Value.normalize

/-- The envelope, which all shapes share. -/
theorem JsonRpcMessage.Holds.decodeValue {m : JsonRpcMessage} {obj : Map} (h : m.Holds obj)
    (serde : Serde) : decodeValue serde (.object obj) = match Entries.get obj "method" with
      | some methodValue => decodeRequestOrNotification obj methodValue
      | none => decodeResponse serde obj := by
  have hversion : Entries.get obj "jsonrpc" = some (.string "2.0") := by
    rw [h]
    cases m <;> rfl
  rw [HeadlessMcp.decodeValue, hversion]
  rfl

/-- A parsed message is decoded to what it was, in the same shape. -/
theorem JsonRpcMessage.Holds.decode {m : JsonRpcMessage} {obj : Map} (h : m.Holds obj)
    (hm : m.Valid F) (serde : Serde) : HeadlessMcp.decodeValue serde (.object obj) = .ok m := by
  rw [h.decodeValue]
  cases m with
  | request id method params =>
    obtain ⟨hid, hparams⟩ := hm
    have hmethod : Entries.get obj "method" = some (.string method) := h "method"
    have hidField : Entries.get obj "id" = some id.toValue :=
      (h "id").trans (congrArg some id.normalize_toValue)
    have hparamsField : Entries.get obj "params" = params := by
      rw [← map_normalize_of_stored hparams, h]
      cases params <;> rfl
    rw [hmethod]
    simp only [decodeRequestOrNotification, hidField, hparamsField,
      JsonRpcId.parseId_toValue hid]
  | notification method params =>
    have hmethod : Entries.get obj "method" = some (.string method) := h "method"
    have hidField : Entries.get obj "id" = none := by
      rw [h]
      cases params <;> rfl
    have hparamsField : Entries.get obj "params" = params := by
      rw [← map_normalize_of_stored hm, h]
      cases params <;> rfl
    rw [hmethod]
    simp only [decodeRequestOrNotification, hidField, hparamsField]
  | success id result =>
    obtain ⟨hid, hresult⟩ := hm
    have hmethod : Entries.get obj "method" = none := h "method"
    have hidField : Entries.get obj "id" = some id.toValue :=
      (h "id").trans (congrArg some id.normalize_toValue)
    have hresultField : Entries.get obj "result" = some result :=
      (h "result").trans (congrArg some hresult.sorted)
    have herrorField : Entries.get obj "error" = none := h "error"
    rw [hmethod]
    simp only [decodeResponse, hresultField, herrorField, hidField,
      JsonRpcId.parseId_toValue hid]
  | error id err =>
    obtain ⟨hid, herr⟩ := hm
    have hmethod : Entries.get obj "method" = none := h "method"
    have hresultField : Entries.get obj "result" = none := h "result"
    have herrorField : Entries.get obj "error" = some err.toValue.normalize := h "error"
    have hdecoded := JsonRpcError.toJsonRpcError_normalize herr
    rw [hmethod]
    cases id with
    | none =>
      have hidField : Entries.get obj "id" = some .null := h "id"
      simp only [decodeResponse, hresultField, herrorField, hidField, hdecoded]
    | some id =>
      have hidField : Entries.get obj "id" = some id.toValue :=
        (h "id").trans (congrArg some id.normalize_toValue)
      have hparse := JsonRpcId.parseId_toValue (hid id rfl)
      simp only [decodeResponse, hresultField, herrorField, hidField, hdecoded]
      split
      · rename_i hnull
        cases id <;> cases hnull
      · rw [hparse]

/-- The fields of a valid message can be held. -/
theorem JsonRpcMessage.heldEntries {m : JsonRpcMessage} (h : m.Valid F) :
    Value.HeldEntries F m.fields := by
  cases m with
  | request id method params =>
    obtain ⟨hid, hparams⟩ := h
    exact ⟨trivial, JsonRpcId.held_toValue hid, trivial, heldEntries_optionalField hparams⟩
  | notification method params => exact ⟨trivial, trivial, heldEntries_optionalField h⟩
  | success id result =>
    obtain ⟨hid, hresult⟩ := h
    exact ⟨trivial, JsonRpcId.held_toValue hid, hresult.held, trivial⟩
  | error id err =>
    obtain ⟨hid, herr⟩ := h
    have herror := JsonRpcError.held_toValue herr
    cases id with
    | none => exact ⟨trivial, trivial, herror, trivial⟩
    | some id => exact ⟨trivial, JsonRpcId.held_toValue (hid id rfl), herror, trivial⟩

/-- **What is encoded is decoded**: a message whose JSON is nested at most 127 levels deep is
read back as the same message in the same shape. What is assumed of `serde_json` says nothing
of messages: it reads back every value that it can hold, nested no deeper, from the text that
it prints for it, with the maps in the order of their keys. -/
theorem decodeMessage_encode (F : Value.FloatFormat) (serde : Serde)
    (hserde : ∀ v : Value, v.Held F → v.depth ≤ 127 → serde.fromSlice v.print = .ok v.normalize)
    {m : JsonRpcMessage} (h : m.Valid F) (hdepth : (Value.object m.fields).depth ≤ 127) :
    decodeMessage serde m.encode = .ok m := by
  have hentries : Value.HeldEntries F m.fields := JsonRpcMessage.heldEntries h
  have hguard : exceedsMaxNesting m.encode maxJsonNestingDepth = false :=
    Value.not_exceedsMaxNesting hentries.plain (Nat.le_trans hdepth (by decide))
  have hparse : serde.fromSlice m.encode = .ok (Value.object m.fields).normalize :=
    hserde (.object m.fields) ⟨m.nodup_fields, hentries⟩ hdepth
  have hholds : m.Holds _ := Value.get_normalize m.nodup_fields
  rw [decodeMessage, hguard, hparse]
  exact hholds.decode h serde

/-- An error response without an id, whose text needs escapes and whose data is an object. -/
def sampleFailure : JsonRpcMessage :=
  .error none ⟨-32602, "missing \"table\"\n", some (.object [("at", .array [.number (.int 3)])])⟩

/-- A format that writes every number with a fraction or an exponent. -/
def anyFloat : Value.FloatFormat := ⟨Value.FloatText, fun _ h => h⟩

theorem sampleFailure_valid : sampleFailure.Valid anyFloat := by
  refine ⟨fun _ h => absurd h (by simp), ⟨by decide, fun v hv => ?_⟩⟩
  obtain rfl := Option.some.inj hv
  have hheld : Value.Held anyFloat (.object [("at", .array [.number (.int 3)])]) :=
    ⟨List.nodup_singleton _, ⟨⟨by decide, by decide⟩, trivial⟩, trivial⟩
  exact ⟨⟨hheld, rfl⟩, by simp⟩

/-- A parser that reads what is printed. -/
def printedSerde : Serde where
  fromSlice text :=
    ((Value.read text).map Value.normalize).elim (.error "expected value at line 1 column 1") .ok
  rejects _ := "invalid type"

/-- It is read back. -/
theorem sampleFailure_is_decoded :
    decodeMessage printedSerde sampleFailure.encode = .ok sampleFailure := by
  have hserde : ∀ v : Value, v.Held anyFloat → v.depth ≤ 127 →
      printedSerde.fromSlice v.print = .ok v.normalize := by
    intro v hv _
    simp only [printedSerde, Value.read_print hv.readable, Option.map_some, Option.elim_some]
  exact decodeMessage_encode anyFloat printedSerde hserde sampleFailure_valid (by decide)

end HeadlessMcp
