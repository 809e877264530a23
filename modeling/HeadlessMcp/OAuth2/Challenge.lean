import HeadlessMcp.Http.Headers
import HeadlessMcp.OAuth2.Discovery

/-!
# Challenges

The `WWW-Authenticate` value that names the metadata document is a list of parameters with
quoted values, and `parse_resource_metadata_url` cuts it at every comma before it looks at the
quotes. What that gets wrong is settled here: a comma in the URL itself, and nothing else. A
piece of a value never looks like the parameter, since it has one quote at most.
-/

namespace HeadlessMcp

/-- A parameter `name="value"` of a challenge. The grammar leaves the spaces around it free, and
its value has no quotes and no backslashes. -/
structure AuthParam : Type where
  /-- the spaces in front of it -/
  before : Nat
  name : String
  value : String
  /-- the spaces behind it -/
  after : Nat
  /-- the name is a token -/
  token : name ≠ "" ∧ name.toList.all isTokenChar = true
  /-- the value needs no escapes -/
  unescaped : value.toList.all (fun c => c ≠ '"' && c ≠ '\\') = true

namespace AuthParam

/-- The parameter without the spaces. -/
def core (p : AuthParam) : List Char :=
  p.name.toList ++ '=' :: '"' :: p.value.toList ++ ['"']

/-- The parameter as it stands in the header. -/
def text (p : AuthParam) : List Char :=
  List.replicate p.before ' ' ++ p.core ++ List.replicate p.after ' '

end AuthParam

/-- A challenge of the scheme `Bearer`. It is the form that the documents of the protocol show:
parameters with commas in between. -/
structure BearerChallenge : Type where
  params : List AuthParam
  /-- no parameter is given twice -/
  distinct : (params.map AuthParam.name).Nodup

namespace BearerChallenge

/-- The header value. -/
def header (c : BearerChallenge) : String :=
  String.ofList ("Bearer ".toList ++ [','].intercalate (c.params.map AuthParam.text))

/-- The value of the parameter `resource_metadata`. No parameter is given twice, so there is one
at most. -/
def resourceMetadata (c : BearerChallenge) : Option String :=
  (c.params.find? fun p => p.name = "resource_metadata").map AuthParam.value

end BearerChallenge

/-! ## Cutting at commas -/

/-- A piece of a text is a part of it. -/
theorem sublist_of_mem_splitOn {α : Type} [DecidableEq α] {a : α} {s t : List α}
    (h : t ∈ s.splitOn a) : t.Sublist s := by
  induction s generalizing t with
  | nil =>
    simp only [List.splitOn_nil, List.mem_singleton] at h
    simp [h]
  | cons x s ih =>
    rw [List.splitOn_cons_eq_if_modifyHead] at h
    split at h
    · rcases List.mem_cons.mp h with rfl | h
      · exact List.nil_sublist _
      · exact (ih h).cons x
    · obtain ⟨r, rs, hr⟩ := List.exists_cons_of_ne_nil (List.splitOn_ne_nil a s)
      rw [hr, List.modifyHead_cons] at h
      rcases List.mem_cons.mp h with rfl | h
      · exact (ih (hr ▸ List.mem_cons_self)).cons_cons x
      · exact (ih (hr ▸ List.mem_cons_of_mem r h)).cons x

/-- What is found in the pieces of a list is what is found in the pieces of its items. -/
theorem findSome?_splitOn_intercalate {α β : Type} [DecidableEq α] {a : α} {f : List α → Option β}
    (hnil : f [] = none) (items : List (List α)) :
    (([a].intercalate items).splitOn a).findSome? f =
      items.findSome? fun item => (item.splitOn a).findSome? f := by
  induction items with
  | nil => simp [List.splitOn_nil, hnil]
  | cons item items ih =>
    cases items with
    | nil => simp
    | cons item' items =>
      rw [List.intercalate_cons_cons, List.append_assoc, List.singleton_append,
        List.splitOn_append_cons_self, List.findSome?_append, ih,
        List.findSome?_cons (a := item)]
      cases (item.splitOn a).findSome? f <;> rfl

/-! ## Trimming -/

/-- Trimming takes nothing from the middle. So what is not in a text is not in the trimmed text
either. -/
theorem strTrim_sublist (s : List Char) : (strTrim s).Sublist s := by
  have h := (List.dropWhile_sublist charIsWhitespace (l := (s.dropWhile charIsWhitespace).reverse))
  have h' := h.reverse
  rw [List.reverse_reverse] at h'
  exact h'.trans (List.dropWhile_sublist _)

/-- The spaces in front of a text that begins with another character. -/
theorem dropWhile_spaces {n : Nat} {s : List Char} (h : ∀ c ∈ s.head?, charIsWhitespace c = false) :
    (List.replicate n ' ' ++ s).dropWhile charIsWhitespace = s := by
  induction n with
  | zero =>
    cases s with
    | nil => rfl
    | cons c s => simp [h c rfl]
  | succ n ih =>
    rw [List.replicate_succ, List.cons_append, List.dropWhile_cons_of_pos (by decide), ih]

/-- Trimming takes the spaces around a text. -/
theorem strTrim_spaces {m n : Nat} {s : List Char}
    (hhead : ∀ c ∈ s.head?, charIsWhitespace c = false)
    (hlast : ∀ c ∈ s.getLast?, charIsWhitespace c = false) (hs : s ≠ []) :
    strTrim (List.replicate m ' ' ++ s ++ List.replicate n ' ') = s := by
  have hfront : (List.replicate m ' ' ++ (s ++ List.replicate n ' ')).dropWhile
      charIsWhitespace = s ++ List.replicate n ' ' := by
    refine dropWhile_spaces fun c hc => hhead c ?_
    rwa [List.head?_append_of_ne_nil _ hs] at hc
  rw [strTrim, List.append_assoc, hfront, List.reverse_append, List.reverse_replicate,
    dropWhile_spaces, List.reverse_reverse]
  intro c hc
  exact hlast c (by rwa [List.head?_reverse] at hc)

/-! ## The parameter -/

/-- A piece that is taken for the parameter has two quotes. -/
theorem two_quotes {t : List Char} {u : String} (h : resourceMetadataOf t = some u) :
    2 ≤ t.count '"' := by
  have htrim : 2 ≤ (strTrim t).count '"' := by
    simp only [resourceMetadataOf, List.isPrefixOf_iff_prefix] at h
    split at h
    · rename_i hprefix
      obtain ⟨url, hurl⟩ := hprefix
      rw [← hurl, List.drop_left] at h
      split at h
      · rename_i hlast
        have hquote : '"' ∈ url := List.mem_of_getLast? hlast
        rw [← hurl, List.count_append]
        have hone := List.count_pos_iff.mpr hquote
        have hkey : "resource_metadata=\"".toList.count '"' = 1 := by decide
        omega
      · cases h
    · cases h
  exact Nat.le_trans htrim ((strTrim_sublist t).count_le _)

/-- A character of a token is neither white space, a comma, a quote nor an equals sign. -/
theorem tokenChar_plain {c : Char} (h : isTokenChar c = true) :
    charIsWhitespace c = false ∧ c ≠ ',' ∧ c ≠ '"' ∧ c ≠ '=' := by
  have hrange : 33 ≤ c.toNat ∧ c.toNat ≤ 126 := by
    simp only [isTokenChar, Bool.or_eq_true] at h
    rcases h with h | h
    · simp only [Char.isAlphanum, Char.isAlpha, Char.isUpper, Char.isLower, Char.isDigit,
        Bool.or_eq_true, Bool.and_eq_true, decide_eq_true_eq, ge_iff_le,
        UInt32.le_iff_toNat_le] at h
      change ((65 ≤ c.toNat ∧ c.toNat ≤ 90) ∨ (97 ≤ c.toNat ∧ c.toNat ≤ 122)) ∨
        (48 ≤ c.toNat ∧ c.toNat ≤ 57) at h
      omega
    · have hmarks : "!#$%&'*+-.^_`|~".toList.all (fun c => 33 ≤ c.toNat && c.toNat ≤ 126) =
          true := by decide +kernel
      simpa using List.all_eq_true.mp hmarks c (List.contains_iff_mem.mp h)
  refine ⟨?_, ?_, ?_, ?_⟩
  · simp only [charIsWhitespace, Bool.or_eq_false_iff, Bool.and_eq_false_iff,
      decide_eq_false_iff_not]
    omega
  all_goals
    rintro rfl
    exact absurd h (by decide)

namespace AuthParam

variable {p : AuthParam}

/-- The characters of the name. -/
theorem tokenChar_name {c : Char} (h : c ∈ p.name.toList) : isTokenChar c = true :=
  List.all_eq_true.mp p.token.2 c h

/-- The value has no quotes. -/
theorem quote_not_mem_value : '"' ∉ p.value.toList := fun h => by
  have hplain := List.all_eq_true.mp p.unescaped _ h
  simp at hplain

/-- Trimming takes the spaces around a parameter. The value ends with a quote and the name starts
with a token character, so nothing of the parameter itself is taken. -/
theorem strTrim_text : strTrim p.text = p.core := by
  have hname : p.name.toList ≠ [] := fun h => p.token.1 (String.toList_injective h)
  obtain ⟨c, cs, hcs⟩ := List.exists_cons_of_ne_nil hname
  refine strTrim_spaces (fun d hd => ?_) (fun d hd => ?_) (by simp [core])
  · obtain rfl : c = d := by simpa [core, hcs] using hd
    exact (tokenChar_plain (tokenChar_name (hcs ▸ List.mem_cons_self))).1
  · rw [core, List.getLast?_concat] at hd
    obtain rfl := Option.some.inj hd
    decide

/-- The name ends where the equals sign is. -/
theorem key_prefix_core :
    "resource_metadata=\"".toList <+: p.core ↔ p.name = "resource_metadata" := by
  have hkey : "resource_metadata=\"".toList = "resource_metadata".toList ++ ['=', '"'] := by decide
  constructor
  · rintro ⟨rest, h⟩
    have hcut : (p.name.toList ++ '=' :: '"' :: (p.value.toList ++ ['"'])).takeWhile (· ≠ '=') =
        p.name.toList := by
      have hname : ∀ c ∈ p.name.toList, decide (c ≠ '=') = true := fun c hc =>
        decide_eq_true (tokenChar_plain (tokenChar_name hc)).2.2.2
      rw [List.takeWhile_append_of_pos hname]
      simp
    rw [core, List.append_assoc, List.cons_append, List.cons_append] at h
    rw [← h, hkey] at hcut
    exact String.toList_injective hcut.symm
  · intro h
    rw [hkey, core, h]
    exact ⟨p.value.toList ++ ['"'], by simp⟩

/-- The parameter on its own. -/
theorem resourceMetadataOf_text :
    resourceMetadataOf p.text = if p.name = "resource_metadata" then some p.value else none := by
  simp only [resourceMetadataOf, strTrim_text, List.isPrefixOf_iff_prefix, key_prefix_core]
  split
  · rename_i h
    have hcore : p.core = "resource_metadata=\"".toList ++ (p.value.toList ++ ['"']) := by
      simp [core, h]
    rw [hcore, List.drop_left, List.getLast?_concat, if_pos rfl, List.dropLast_concat,
      String.ofList_toList]
  · rfl

/-- What the parameter contributes when it is cut at its commas. -/
theorem findSome?_text : (p.text.splitOn ',').findSome? resourceMetadataOf =
    if p.name = "resource_metadata" ∧ ',' ∉ p.value.toList then some p.value else none := by
  have hname : ',' ∉ p.name.toList := fun h => (tokenChar_plain (tokenChar_name h)).2.1 rfl
  have hquote : '"' ∉ p.name.toList := fun h => (tokenChar_plain (tokenChar_name h)).2.2.1 rfl
  by_cases hcomma : ',' ∈ p.value.toList
  · rw [if_neg fun h => h.2 hcomma, List.findSome?_eq_none_iff]
    intro t ht
    -- the comma parts the two quotes
    obtain ⟨u, w, huw⟩ := List.append_of_mem hcomma
    have hclean : '"' ∉ u ++ ',' :: w := huw ▸ p.quote_not_mem_value
    have hcut : p.text = (List.replicate p.before ' ' ++ p.name.toList ++ '=' :: '"' :: u) ++
        ',' :: (w ++ '"' :: List.replicate p.after ' ') := by
      simp [text, core, huw]
    rw [hcut, List.splitOn_append_cons_self, List.mem_append] at ht
    simp only [List.mem_append, List.mem_cons, not_or] at hclean
    have hone : t.count '"' ≤ 1 := by
      rcases ht with ht | ht
      · refine Nat.le_trans ((sublist_of_mem_splitOn ht).count_le _) (Nat.le_of_eq ?_)
        simp [List.count_append, List.count_replicate,
          List.count_eq_zero_of_not_mem hquote, List.count_eq_zero_of_not_mem hclean.1]
      · refine Nat.le_trans ((sublist_of_mem_splitOn ht).count_le _) (Nat.le_of_eq ?_)
        simp [List.count_append, List.count_replicate,
          List.count_eq_zero_of_not_mem hclean.2.2]
    cases h : resourceMetadataOf t with
    | none => rfl
    | some u =>
      have := two_quotes h
      omega
  · have hwhole : ',' ∉ p.text := by
      simp [text, core, hname, hcomma]
    rw [List.splitOn_eq_singleton hwhole, List.findSome?_singleton, resourceMetadataOf_text]
    simp [hcomma]

end AuthParam

/-! ## The header -/

namespace BearerChallenge

/-- The URL is looked for in one parameter after the other. -/
theorem parse_eq_findSome? (c : BearerChallenge) : parseResourceMetadataUrl c.header =
    c.params.findSome? fun p => (p.text.splitOn ',').findSome? resourceMetadataOf := by
  have htext : c.header.toList = "Bearer ".toList ++ [','].intercalate (c.params.map
      AuthParam.text) := String.toList_ofList
  have hprefix : "Bearer ".toList.isPrefixOf c.header.toList = true := by
    rw [List.isPrefixOf_iff_prefix, htext]
    exact List.prefix_append _ _
  have hrest : c.header.toList.drop 7 = [','].intercalate (c.params.map AuthParam.text) := by
    rw [htext]
    exact List.drop_left' (by decide)
  have hnil : resourceMetadataOf [] = none := by decide
  rw [parseResourceMetadataUrl, if_pos hprefix, hrest, findSome?_splitOn_intercalate hnil,
    List.findSome?_map]
  rfl

/-- The URL is the value of the parameter, unless a comma parts it. -/
theorem parse_header (c : BearerChallenge) :
    parseResourceMetadataUrl c.header = c.resourceMetadata.filter fun u => ',' ∉ u.toList := by
  rw [parse_eq_findSome?, resourceMetadata]
  have hdistinct := c.distinct
  generalize c.params = params at hdistinct ⊢
  induction params with
  | nil => rfl
  | cons p params ih =>
    rw [List.map_cons, List.nodup_cons] at hdistinct
    rw [List.findSome?_cons, AuthParam.findSome?_text]
    by_cases hp : p.name = "resource_metadata"
    · have hrest : params.findSome? (fun p => (p.text.splitOn ',').findSome? resourceMetadataOf) =
          none := by
        rw [List.findSome?_eq_none_iff]
        intro q hq
        rw [AuthParam.findSome?_text, if_neg]
        rintro ⟨hname, -⟩
        exact hdistinct.1 (List.mem_map.mpr ⟨q, hq, hname.trans hp.symm⟩)
      rw [hrest, List.find?_cons_of_pos (by simpa using hp)]
      by_cases hcomma : ',' ∈ p.value.toList <;> simp [hp, hcomma, Option.filter]
    · rw [if_neg fun h => hp h.1, List.find?_cons_of_neg (by simpa using hp)]
      exact ih hdistinct.2

end BearerChallenge

/-- **The URL of a challenge is read exactly when it contains no comma**: the other parameters and
their order never matter, whatever their values look like. A comma inside the quotes cuts the URL
in two, and no other piece of the header looks like the parameter. -/
theorem parseResourceMetadataUrl_iff (c : BearerChallenge) :
    parseResourceMetadataUrl c.header = c.resourceMetadata ↔
      ∀ url, c.resourceMetadata = some url → ',' ∉ url.toList := by
  rw [c.parse_header]
  cases c.resourceMetadata <;> simp [Option.filter]

/-- A URL with a comma in it is not found. -/
theorem comma_hides_url : ∃ c : BearerChallenge,
    c.header = "Bearer resource_metadata=\"https://a.test/x,y\"" ∧
      c.resourceMetadata = some "https://a.test/x,y" ∧ parseResourceMetadataUrl c.header = none :=
  ⟨⟨[⟨0, "resource_metadata", "https://a.test/x,y", 0, by decide +kernel, by decide +kernel⟩],
    by decide⟩, by decide +kernel⟩

end HeadlessMcp
