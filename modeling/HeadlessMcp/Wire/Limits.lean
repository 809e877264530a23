import HeadlessMcp.Wire.Encoding

/-!
# Two limits

The nesting guard lets 128 levels through, `serde_json` parses 127. Between the two lies one
depth at which a printed value is answered with a syntax error.

`serde_json` is a library, so its limit is a hypothesis about the two depths on either side of it.
What is proved is where the guard and such a parser disagree (`limitsAgree_iff`).
-/

namespace HeadlessMcp

namespace Value

variable {maxDepth depth : Nat}

/-! ## The guard on what is too deep -/

/-- The scan stops inside a text outside of strings, at a depth. -/
def Stopped (maxDepth depth : Nat) (text : List Char) : Prop :=
  ∀ rest, exceedsFrom maxDepth depth false false (text ++ rest) = true

theorem Skipped.stopped {xs ys : List Char} (hx : Skipped maxDepth depth xs)
    (hy : Stopped maxDepth depth ys) : Stopped maxDepth depth (xs ++ ys) := fun rest => by
  rw [List.append_assoc, hx, hy]

theorem Stopped.append {xs : List Char} (hx : Stopped maxDepth depth xs) (ys : List Char) :
    Stopped maxDepth depth (xs ++ ys) := fun rest => by
  rw [List.append_assoc, hx]

/-- A text that stops the scan, behind texts that it goes past. -/
def FirstStopped (maxDepth depth : Nat) (texts : List String) : Prop :=
  ∃ front text back, texts = front ++ text :: back ∧
    (∀ t ∈ front, Skipped maxDepth depth t.toList) ∧ Stopped maxDepth depth text.toList

theorem FirstStopped.intercalate {texts : List String} (h : FirstStopped maxDepth depth texts) :
    Stopped maxDepth depth (",".intercalate texts).toList := by
  obtain ⟨front, text, back, rfl, hfront, htext⟩ := h
  induction front with
  | nil =>
    cases back with
    | nil => rwa [List.nil_append, String.intercalate_singleton]
    | cons next back =>
      rw [List.nil_append, String.intercalate_cons_cons, String.toList_append,
        String.toList_append]
      exact (htext.append _).append _
  | cons t front ih =>
    have hcomma : Skipped maxDepth depth ",".toList := skipped_plain (by simp [scanned])
    have hrest := ih fun t ht => hfront t (List.mem_cons_of_mem _ ht)
    obtain ⟨next, texts, htexts⟩ : ∃ next texts, front ++ text :: back = next :: texts := by
      cases front <;> exact ⟨_, _, rfl⟩
    rw [List.cons_append, htexts, String.intercalate_cons_cons, String.toList_append,
      String.toList_append, ← htexts]
    exact ((hfront t List.mem_cons_self).append hcomma).stopped hrest

theorem FirstStopped.cons {text : String} {texts : List String}
    (h : Skipped maxDepth depth text.toList) (hrest : FirstStopped maxDepth depth texts) :
    FirstStopped maxDepth depth (text :: texts) := by
  obtain ⟨front, stopped, back, rfl, hfront, hstopped⟩ := hrest
  refine ⟨text :: front, stopped, back, rfl, fun t ht => ?_, hstopped⟩
  rcases List.mem_cons.mp ht with rfl | ht
  · exact h
  · exact hfront t ht

/-- A bracket is one level too deep, or what stands behind it is. -/
theorem stopped_nested {opening closing : Char} {text : List Char}
    (hopen : opening = '\x7b' ∨ opening = '[')
    (h : depth + 1 ≤ maxDepth → Stopped maxDepth (depth + 1) text) :
    Stopped maxDepth depth (opening :: text ++ [closing]) := by
  intro rest
  have hquote : opening ≠ '"' := by rcases hopen with rfl | rfl <;> decide
  rw [List.cons_append, List.cons_append, List.append_assoc, exceedsFrom, if_neg hquote,
    if_pos hopen]
  split
  · rfl
  · rename_i hdeep
    exact h (Nat.not_lt.mp hdeep) _

mutual

/-- **The guard stops at printed values** that are nested deeper than it allows. -/
theorem stopped_print : ∀ {v : Value} {depth : Nat}, v.Plain → depth ≤ maxDepth →
    maxDepth < depth + v.depth → Stopped maxDepth depth v.print.toList
  | null, _, _, hdepth, hdeep => absurd hdeep (Nat.not_lt.mpr hdepth)
  | bool _, _, _, hdepth, hdeep => absurd hdeep (Nat.not_lt.mpr hdepth)
  | number _, _, _, hdepth, hdeep => absurd hdeep (Nat.not_lt.mpr hdepth)
  | string _, _, _, hdepth, hdeep => absurd hdeep (Nat.not_lt.mpr hdepth)
  | array xs, depth, h, _, hdeep => by
    rw [Value.depth] at hdeep
    rw [print, String.toList_append, String.toList_append]
    exact stopped_nested (.inr rfl) fun hdepth =>
      (stopped_printItems h hdepth (by omega)).intercalate
  | object m, depth, h, _, hdeep => by
    rw [Value.depth] at hdeep
    rw [print, String.toList_append, String.toList_append]
    exact stopped_nested (.inl rfl) fun hdepth =>
      (stopped_printEntries h hdepth (by omega)).intercalate

theorem stopped_printItems : ∀ {xs : List Value} {depth : Nat}, PlainItems xs →
    depth ≤ maxDepth → maxDepth < depth + depthItems xs →
    FirstStopped maxDepth depth (printItems xs)
  | [], _, _, hdepth, hdeep => absurd hdeep (Nat.not_lt.mpr hdepth)
  | v :: vs, depth, h, hdepth, hdeep => by
    rw [depthItems] at hdeep
    rw [printItems]
    by_cases hv : depth + v.depth ≤ maxDepth
    · exact .cons (skipped_print h.1 hv) (stopped_printItems h.2 hdepth (by omega))
    · exact ⟨[], _, _, rfl, List.forall_mem_nil _,
        stopped_print h.1 hdepth (Nat.lt_of_not_le hv)⟩

theorem stopped_printEntries : ∀ {m : List (String × Value)} {depth : Nat}, PlainEntries m →
    depth ≤ maxDepth → maxDepth < depth + depthEntries m →
    FirstStopped maxDepth depth (printEntries m)
  | [], _, _, hdepth, hdeep => absurd hdeep (Nat.not_lt.mpr hdepth)
  | (k, v) :: m, depth, h, hdepth, hdeep => by
    rw [depthEntries] at hdeep
    have hkey : Skipped maxDepth depth (printString k ++ ":").toList := by
      have hcolon : Skipped maxDepth depth ":".toList := skipped_plain (by simp [scanned])
      rw [String.toList_append]
      exact (skipped_printString k).append hcolon
    rw [printEntries]
    by_cases hv : depth + v.depth ≤ maxDepth
    · refine .cons ?_ (stopped_printEntries h.2 hdepth (by omega))
      rw [String.toList_append]
      exact hkey.append (skipped_print h.1 hv)
    · refine ⟨[], _, _, rfl, List.forall_mem_nil _, ?_⟩
      rw [String.toList_append]
      exact hkey.stopped (stopped_print h.1 hdepth (Nat.lt_of_not_le hv))

end

/-- The guard on a printed value is about its depth. -/
theorem exceedsMaxNesting_print {v : Value} (h : v.Plain) :
    exceedsMaxNesting v.print maxDepth = true ↔ maxDepth < v.depth := by
  rw [exceedsMaxNesting, ← List.append_nil v.print.toList]
  constructor
  · intro hexceeds
    by_contra hdeep
    rw [skipped_print h (by omega)] at hexceeds
    cases hexceeds
  · intro hdeep
    exact stopped_print h (Nat.zero_le _) (by omega) []

end Value

/-! ## The answers -/

/-- The answer to what is nested too deep. -/
def nestingError : JsonRpcError :=
  .invalidRequest s!"JSON nesting depth exceeds the limit of {maxJsonNestingDepth}"

/-- The guard and the parser draw the same line at a printed value. -/
structure LimitsAgree (serde : Serde) (v : Value) : Prop where
  /-- a printed value is no syntax error -/
  parsed : ∀ e, decodeMessage serde v.print = .error e → e.code ≠ JsonRpcError.parseErrorCode
  /-- what is refused for its depth is too deep -/
  limit : decodeMessage serde v.print = .error nestingError ↔ maxJsonNestingDepth < v.depth
  /-- anything else is decoded -/
  decoded : v.depth ≤ maxJsonNestingDepth → decodeMessage serde v.print = decodeValue serde v

/-- The decoder of values refuses for reasons of its own. -/
structure JsonRpcError.OfDecoder (e : JsonRpcError) : Prop where
  code : e.code = invalidRequestCode
  message : e ≠ nestingError

theorem ofDecoder_invalidRequest {message : String} (h : message.toList.head? ≠ some 'J') :
    (JsonRpcError.invalidRequest message).OfDecoder := by
  refine ⟨rfl, fun heq => h ?_⟩
  have hmessage : message = nestingError.message := congrArg JsonRpcError.message heq
  rw [hmessage]
  rfl

theorem decodeResponse_error {serde : Serde} {obj : Map} {e : JsonRpcError}
    (h : decodeResponse serde obj = .error e) : e.OfDecoder := by
  have hinvalid (text : String) :
      (s!"invalid \"error\" object: {text}").toList.head? ≠ some 'J' := by
    change ("invalid \"error\" object: " ++ text).toList.head? ≠ some 'J'
    rw [String.toList_append]
    simp
  have hdecoded {text : String} (h : JsonRpcError.invalidRequest
      s!"invalid \"error\" object: {text}" = e) : e.OfDecoder := by
    obtain rfl := h
    exact ofDecoder_invalidRequest (hinvalid _)
  unfold decodeResponse at h
  dsimp only at h
  split at h
  · obtain rfl := Except.error.inj h
    exact ofDecoder_invalidRequest (by decide)
  · split at h
    · obtain rfl := Except.error.inj h
      exact ofDecoder_invalidRequest (by decide)
    · split at h
      · obtain rfl := Except.error.inj h
        exact ofDecoder_invalidRequest (by decide)
      · cases h
  · split at h
    · obtain rfl := Except.error.inj h
      exact ofDecoder_invalidRequest (by decide)
    · split at h
      · split at h
        · cases h
        · exact hdecoded (Except.error.inj h)
      · split at h
        · obtain rfl := Except.error.inj h
          exact ofDecoder_invalidRequest (by decide)
        · split at h
          · cases h
          · exact hdecoded (Except.error.inj h)
  · obtain rfl := Except.error.inj h
    exact ofDecoder_invalidRequest (by decide)

theorem decodeRequestOrNotification_error {obj : Map} {methodValue : Value} {e : JsonRpcError}
    (h : decodeRequestOrNotification obj methodValue = .error e) : e.OfDecoder := by
  unfold decodeRequestOrNotification at h
  split at h
  · split at h
    · cases h
    · split at h
      · obtain rfl := Except.error.inj h
        exact ofDecoder_invalidRequest (by decide)
      · cases h
  · obtain rfl := Except.error.inj h
    exact ofDecoder_invalidRequest (by decide)

/-- No value is a syntax error, or nested too deep, for the decoder of values. -/
theorem decodeValue_error {serde : Serde} {v : Value} {e : JsonRpcError}
    (h : decodeValue serde v = .error e) : e.OfDecoder := by
  unfold decodeValue at h
  split at h
  · split at h
    · obtain rfl := Except.error.inj h
      exact ofDecoder_invalidRequest (by decide)
    · split at h
      · split at h
        · exact decodeRequestOrNotification_error h
        · exact decodeResponse_error h
      · obtain rfl := Except.error.inj h
        exact ofDecoder_invalidRequest (by decide)
    · obtain rfl := Except.error.inj h
      exact ofDecoder_invalidRequest (by decide)
  · obtain rfl := Except.error.inj h
    exact ofDecoder_invalidRequest (by decide)

/-! ## The gap -/

section Gap

variable {serde : Serde} {v : Value}

/-- What the guard lets through. -/
theorem decodeMessage_print (h : v.Plain) (hdepth : v.depth ≤ maxJsonNestingDepth) :
    decodeMessage serde v.print = match serde.fromSlice v.print with
      | .error e => .error (.parseError e)
      | .ok v => decodeValue serde v := by
  have hguard : exceedsMaxNesting v.print maxJsonNestingDepth = false := by
    rw [Bool.eq_false_iff, Ne, Value.exceedsMaxNesting_print h]
    omega
  rw [decodeMessage, hguard]
  rfl

/-- At the depth in between, a printed value is a syntax error. -/
theorem not_limitsAgree (h : v.Plain) (hdepth : v.depth = 128)
    (hrefuses : ∃ e, serde.fromSlice v.print = .error e) : ¬LimitsAgree serde v := by
  obtain ⟨e, he⟩ := hrefuses
  intro hagree
  refine hagree.parsed (.parseError e) ?_ rfl
  rw [decodeMessage_print h (Nat.le_of_eq hdepth), he]

/-- **The two limits agree except at one depth**: the guard refuses what is nested deeper than 128
levels, the parser what is nested deeper than 127. So a text that is exactly 128 deep passes the
guard and is then refused with a parse error of the library, whose recursion limit is what the two
hypotheses say of it. -/
theorem limitsAgree_iff (h : v.Plain)
    (hparses : v.depth ≤ 127 → serde.fromSlice v.print = .ok v)
    (hrefuses : 127 < v.depth → ∃ e, serde.fromSlice v.print = .error e) :
    LimitsAgree serde v ↔ v.depth ≠ 128 := by
  constructor
  · intro hagree hdepth
    exact not_limitsAgree h hdepth (hrefuses (by omega)) hagree
  · intro hdepth
    by_cases hdeep : maxJsonNestingDepth < v.depth
    · have hanswer : decodeMessage serde v.print = .error nestingError := by
        rw [decodeMessage, (Value.exceedsMaxNesting_print h).mpr hdeep]
        rfl
      refine ⟨fun e he => ?_, ⟨fun _ => hdeep, fun _ => hanswer⟩, fun hle => by omega⟩
      obtain rfl := Except.error.inj (hanswer.symm.trans he)
      decide
    · have hle : v.depth ≤ maxJsonNestingDepth := Nat.not_lt.mp hdeep
      have hparsed : v.depth ≤ 127 := by
        have : maxJsonNestingDepth = 128 := rfl
        omega
      have hanswer : decodeMessage serde v.print = decodeValue serde v := by
        rw [decodeMessage_print h hle, hparses hparsed]
      refine ⟨fun e he => ?_, ⟨fun he => ?_, fun hlt => absurd hlt hdeep⟩, fun _ => hanswer⟩
      · rw [(decodeValue_error (hanswer.symm.trans he)).code]
        decide
      · exact absurd rfl (decodeValue_error (hanswer.symm.trans he)).message

end Gap

/-- Arrays inside each other around an empty one. -/
def nestedArrays : Nat → Value
  | 0 => .array []
  | n + 1 => .array [nestedArrays n]

theorem depth_nestedArrays (n : Nat) : (nestedArrays n).depth = n + 1 := by
  induction n with
  | zero => rfl
  | succ n ih => simp [nestedArrays, Value.depth, Value.depthItems, ih]

theorem plain_nestedArrays (n : Nat) : (nestedArrays n).Plain := by
  induction n with
  | zero => trivial
  | succ n ih => exact ⟨ih, trivial⟩

/-- `serde_json` on arrays that are 127 and 128 levels deep. -/
def recursionSerde : Serde where
  fromSlice text :=
    if text = (nestedArrays 126).print then .ok (nestedArrays 126)
    else .error "recursion limit exceeded at line 1 column 128"
  rejects _ := "invalid type"

/-- The parser's own limit is respected. -/
theorem deepest_is_parsed : LimitsAgree recursionSerde (nestedArrays 126) := by
  refine (limitsAgree_iff (plain_nestedArrays 126) (fun _ => ?_) fun hdeep => ?_).mpr ?_
  · simp only [recursionSerde, if_true]
  · rw [depth_nestedArrays] at hdeep
    omega
  · rw [depth_nestedArrays]
    decide

/-- One level more is valid JSON within the hub's limit, and a syntax error. -/
theorem gap_is_a_syntax_error :
    (nestedArrays 127).Plain ∧ (nestedArrays 127).depth = 128 ∧
      decodeMessage recursionSerde (nestedArrays 127).print =
        .error (.parseError "recursion limit exceeded at line 1 column 128") ∧
      ¬LimitsAgree recursionSerde (nestedArrays 127) := by
  have hdepth := depth_nestedArrays 127
  have hrefuses : recursionSerde.fromSlice (nestedArrays 127).print =
      .error "recursion limit exceeded at line 1 column 128" := by
    simp only [recursionSerde]
    rw [if_neg]
    intro heq
    have hguard (n : Nat) : exceedsMaxNesting (nestedArrays n).print 127 = true ↔
        127 < (nestedArrays n).depth := Value.exceedsMaxNesting_print (plain_nestedArrays n)
    have hdeep := (hguard 127).mpr (by rw [depth_nestedArrays]; decide)
    rw [heq, hguard 126, depth_nestedArrays] at hdeep
    exact absurd hdeep (by decide)
  refine ⟨plain_nestedArrays 127, hdepth, ?_,
    not_limitsAgree (plain_nestedArrays 127) hdepth ⟨_, hrefuses⟩⟩
  rw [decodeMessage_print (plain_nestedArrays 127) (Nat.le_of_eq hdepth), hrefuses]

end HeadlessMcp
