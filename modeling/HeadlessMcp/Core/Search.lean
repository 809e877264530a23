import Mathlib

/-!
# The first occurrence

`List.dropInfix?` splits a list around the first occurrence of another one. `FirstAt` is
what it finds.

The search itself is the library's. Here it is characterized once (`dropInfix?_eq_some_iff`), and
the proofs about templates and tokens only speak of first occurrences.
-/

namespace Search

variable {α : Type}

/-- `before` and `after` are what is around the first occurrence of `pat`. -/
structure FirstAt (pat l before after : List α) : Prop where
  split : l = before ++ pat ++ after
  first : ∀ before' after', l = before' ++ pat ++ after' → before.length ≤ before'.length

/-- What occurs has a first occurrence. Where there is one occurrence at all there is a leftmost
one. -/
theorem exists_firstAt {pat l : List α} (h : pat <:+: l) :
    ∃ before after, FirstAt pat l before after := by
  classical
  have hoccurs : ∃ n before after, before.length = n ∧ l = before ++ pat ++ after := by
    obtain ⟨before, after, h⟩ := h
    exact ⟨_, before, after, rfl, h.symm⟩
  obtain ⟨before, after, hlength, hsplit⟩ := Nat.find_spec hoccurs
  refine ⟨before, after, hsplit, fun before' after' hsplit' => ?_⟩
  rw [hlength]
  exact Nat.find_min' hoccurs ⟨before', after', rfl, hsplit'⟩

/-- What has a first occurrence occurs. -/
theorem FirstAt.occurs {pat l before after : List α} (h : FirstAt pat l before after) :
    pat <:+: l :=
  ⟨before, after, h.split.symm⟩

/-! ## Parts without an occurrence -/

/-- No occurrence of `pat` begins in `xs`, whatever comes behind it. -/
def Inert (pat xs : List α) : Prop :=
  ∀ rest before after, xs ++ rest = before ++ pat ++ after → xs.length ≤ before.length

theorem inert_nil (pat : List α) : Inert pat [] := fun _ _ _ _ => Nat.zero_le _

/-- One element more in front. -/
theorem Inert.cons {pat xs : List α} {x : α} (hfirst : ∀ rest, ¬ pat <+: x :: xs ++ rest)
    (h : Inert pat xs) : Inert pat (x :: xs) := by
  intro rest before after hsplit
  cases before with
  | nil => exact absurd ⟨after, hsplit.symm⟩ (hfirst rest)
  | cons y before =>
    have hsplit : xs ++ rest = before ++ pat ++ after := (List.cons.inj hsplit).2
    exact Nat.succ_le_succ (h rest before after hsplit)

theorem Inert.append {pat xs ys : List α} (hx : Inert pat xs) (hy : Inert pat ys) :
    Inert pat (xs ++ ys) := by
  intro rest before after hsplit
  rw [List.append_assoc] at hsplit
  have hlength := hx (ys ++ rest) before after hsplit
  obtain ⟨before', rfl⟩ : ∃ before', before = xs ++ before' := by
    have hwhole : before <+: xs ++ (ys ++ rest) := by
      rw [hsplit, List.append_assoc]
      exact List.prefix_append _ _
    have hprefix : xs <+: before :=
      List.prefix_of_prefix_length_le (List.prefix_append _ _) hwhole hlength
    obtain ⟨before', h⟩ := hprefix
    exact ⟨before', h.symm⟩
  have hsplit : ys ++ rest = before' ++ pat ++ after := by
    rw [List.append_assoc xs, List.append_assoc xs] at hsplit
    exact List.append_cancel_left hsplit
  rw [List.length_append, List.length_append]
  exact Nat.add_le_add_left (hy rest before' after hsplit) _

/-- What has not the first element of `pat`. -/
theorem inert_of_not_mem {p : α} {pat xs : List α} (h : p ∉ xs) : Inert (p :: pat) xs := by
  induction xs with
  | nil => exact inert_nil _
  | cons x xs ih =>
    rw [List.mem_cons, not_or] at h
    refine .cons (fun rest hprefix => ?_) (ih h.2)
    rw [List.cons_append, List.cons_prefix_cons] at hprefix
    exact h.1 hprefix.1

/-- An occurrence behind such a part is the first one. -/
theorem Inert.firstAt {pat xs : List α} (h : Inert pat xs) (rest : List α) :
    FirstAt pat (xs ++ pat ++ rest) xs rest := by
  refine ⟨rfl, fun before after hsplit => ?_⟩
  rw [List.append_assoc] at hsplit
  exact h (pat ++ rest) before after hsplit

/-- There is no occurrence in such a part. -/
theorem Inert.not_contained {p : α} {pat xs : List α} (h : Inert (p :: pat) xs) :
    ¬ p :: pat <:+: xs := by
  rintro ⟨before, after, hsplit⟩
  have hlength := h [] before after (by rw [List.append_nil, hsplit])
  rw [← hsplit] at hlength
  simp only [List.length_append, List.length_cons] at hlength
  omega

/-! ## Splitting at the first occurrence -/

variable [BEq α] [LawfulBEq α]

/-- The split is around the first occurrence. So the library's search is known by what it finds,
and no proof looks into it. -/
theorem dropInfix?_eq_some_iff {pat l before after : List α} :
    l.dropInfix? pat = some (before, after) ↔ FirstAt pat l before after := by
  rw [List.dropInfix?_eq_some_iff]
  constructor
  · rintro ⟨⟨pat', hsplit, heq⟩, hfirst⟩
    obtain rfl := eq_of_beq heq
    exact ⟨hsplit, fun before' after' h => hfirst before' _ after' h BEq.rfl⟩
  · rintro ⟨hsplit, hfirst⟩
    refine ⟨⟨pat, hsplit, BEq.rfl⟩, fun before' pat' after' h heq => ?_⟩
    obtain rfl := eq_of_beq heq
    exact hfirst before' after' h

/-- There is no split where it does not occur. -/
theorem dropInfix?_eq_none_iff {pat l : List α} : l.dropInfix? pat = none ↔ ¬ pat <:+: l := by
  rw [Option.eq_none_iff_forall_not_mem]
  constructor
  · intro h hinfix
    obtain ⟨before, after, hfirst⟩ := exists_firstAt hinfix
    exact h _ (dropInfix?_eq_some_iff.mpr hfirst)
  · rintro h ⟨before, after⟩ hsplit
    exact h (dropInfix?_eq_some_iff.mp hsplit).occurs

end Search
