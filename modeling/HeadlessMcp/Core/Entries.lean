import Mathlib

/-!
# Entries

A map as the list of its entries: lookups take the first entry of a key, and an
insertion replaces the value of a key that is there or adds the entry at the end.
This stands for `serde_json::Map` and for the hash maps of the registry; where the
source iterates over a hash map, the order is the environment's choice.
-/

namespace HeadlessMcp

variable {α : Type}

/-- A map from strings, as the list of its entries. -/
abbrev Entries (α : Type) : Type := List (String × α)

namespace Entries

/-- The value of a key. Keys are not repeated in the maps of the source; where a list repeats one,
the first entry counts. -/
def get : Entries α → String → Option α
  | [], _ => none
  | (k, w) :: m, key => if key = k then some w else get m key

/-- The key is there. -/
def containsKey (m : Entries α) (key : String) : Bool := (m.get key).isSome

/-- Add an entry, or replace the value of its key. The place of a key that is there does not
change. -/
def insert (key : String) (v : α) : Entries α → Entries α
  | [] => [(key, v)]
  | (k, w) :: m => if key = k then (key, v) :: m else (k, w) :: insert key v m

/-- Drop the entries whose value fails the test. The order of the entries that are kept does not
change. -/
def retain (keep : α → Bool) (m : Entries α) : Entries α := m.filter fun e => keep e.2

/-- The keys. -/
def keys (m : Entries α) : List String := m.map Prod.fst

@[simp] theorem get_nil (key : String) : get ([] : Entries α) key = none := rfl

theorem get_cons (k : String) (w : α) (m : Entries α) (key : String) :
    get ((k, w) :: m) key = if key = k then some w else get m key := rfl

/-- The inserted key has the inserted value. -/
@[simp] theorem get_insert_self (key : String) (v : α) (m : Entries α) :
    get (insert key v m) key = some v := by
  induction m with
  | nil => rw [insert, get_cons, if_pos rfl]
  | cons e m ih =>
    obtain ⟨k, w⟩ := e
    rw [insert]
    by_cases h : key = k
    · rw [if_pos h, get_cons, if_pos rfl]
    · rw [if_neg h, get_cons, if_neg h, ih]

/-- Every other key keeps its value. -/
theorem get_insert_ne {key key' : String} (h : key' ≠ key) (v : α) (m : Entries α) :
    get (insert key v m) key' = get m key' := by
  induction m with
  | nil => rw [insert, get_cons, if_neg h]
  | cons e m ih =>
    obtain ⟨k, w⟩ := e
    rw [insert, get_cons]
    by_cases hk : key = k
    · rw [if_pos hk, get_cons, if_neg h, if_neg (hk ▸ h)]
    · rw [if_neg hk, get_cons, ih]

/-- Inserting an entry that is there changes nothing. -/
theorem insert_of_get {key : String} {v : α} {m : Entries α} (h : get m key = some v) :
    insert key v m = m := by
  induction m with
  | nil => cases h
  | cons e m ih =>
    obtain ⟨k, w⟩ := e
    rw [get_cons] at h
    rw [insert]
    by_cases hk : key = k
    · rw [if_pos hk] at h ⊢
      rw [hk, Option.some.inj h]
    · rw [if_neg hk] at h ⊢
      rw [ih h]

theorem containsKey_insert (key key' : String) (v : α) (m : Entries α) :
    containsKey (insert key v m) key' = (key' = key || containsKey m key') := by
  by_cases h : key' = key
  · subst h
    simp [containsKey]
  · simp [containsKey, get_insert_ne h, h]

/-- What is looked up is an entry. -/
theorem mem_of_get {m : Entries α} {key : String} {v : α} (h : m.get key = some v) :
    (key, v) ∈ m := by
  induction m with
  | nil => cases h
  | cons e m ih =>
    obtain ⟨k, w⟩ := e
    rw [get_cons] at h
    by_cases hk : key = k
    · rw [if_pos hk] at h
      rw [hk, Option.some.inj h]
      exact List.mem_cons_self
    · rw [if_neg hk] at h
      exact List.mem_cons_of_mem _ (ih h)

/-- The entries after an insertion: the new one, and old ones. -/
theorem mem_insert {key : String} {v : α} {m : Entries α} {e : String × α}
    (h : e ∈ insert key v m) : e = (key, v) ∨ e ∈ m := by
  induction m with
  | nil => exact .inl (List.mem_singleton.mp h)
  | cons e' m ih =>
    obtain ⟨k, w⟩ := e'
    rw [insert] at h
    by_cases hk : key = k
    · rw [if_pos hk] at h
      exact (List.mem_cons.mp h).imp_right (List.mem_cons_of_mem _)
    · rw [if_neg hk] at h
      rcases List.mem_cons.mp h with rfl | h
      · exact .inr List.mem_cons_self
      · exact (ih h).imp_right (List.mem_cons_of_mem _)

/-- A retained entry was there. -/
theorem mem_of_mem_retain {keep : α → Bool} {m : Entries α} {e : String × α}
    (h : e ∈ m.retain keep) : e ∈ m ∧ keep e.2 = true := List.mem_filter.mp h

/-- Insert the entries of another map. Later entries win, as in `Extend` of the source's maps. -/
def insertAll (m : Entries α) (entries : Entries α) : Entries α :=
  entries.foldl (fun m e => insert e.1 e.2 m) m

theorem get_insertAll_of_not_mem {key : String} {entries m : Entries α}
    (h : key ∉ entries.keys) : (m.insertAll entries).get key = m.get key := by
  induction entries generalizing m with
  | nil => rfl
  | cons e entries ih =>
    obtain ⟨k, w⟩ := e
    simp only [keys, List.map_cons, List.mem_cons, not_or] at h
    exact (ih h.2).trans (get_insert_ne h.1 w m)

/-- Inserted entries have their value, when no key is inserted twice. -/
theorem get_insertAll {key : String} {v : α} {entries m : Entries α}
    (hunique : entries.keys.Nodup) (h : entries.get key = some v) :
    (m.insertAll entries).get key = some v := by
  induction entries generalizing m with
  | nil => cases h
  | cons e entries ih =>
    obtain ⟨k, w⟩ := e
    obtain ⟨hnot, hunique⟩ := List.nodup_cons.mp hunique
    rw [get_cons] at h
    by_cases hk : key = k
    · rw [if_pos hk] at h
      obtain rfl := Option.some.inj h
      subst hk
      exact (get_insertAll_of_not_mem hnot).trans (get_insert_self key w m)
    · rw [if_neg hk] at h
      exact ih hunique h

/-- The entries after an insertion of entries. -/
theorem mem_insertAll {entries m : Entries α} {e : String × α} (h : e ∈ m.insertAll entries) :
    e ∈ m ∨ e ∈ entries := by
  induction entries generalizing m with
  | nil => exact .inl h
  | cons e' entries ih =>
    rcases ih h with h | h
    · exact (mem_insert h).elim (fun heq => .inr (heq ▸ List.mem_cons_self)) .inl
    · exact .inr (List.mem_cons_of_mem _ h)

/-- What is looked up afterwards depends on what was there only for the other keys. -/
theorem get_insertAll_congr {key : String} {entries m m' : Entries α}
    (h : key ∉ entries.keys → m.get key = m'.get key) :
    (m.insertAll entries).get key = (m'.insertAll entries).get key := by
  induction entries generalizing m m' with
  | nil => exact h List.not_mem_nil
  | cons e entries ih =>
    obtain ⟨k, w⟩ := e
    rw [keys, List.map_cons, List.mem_cons, not_or] at h
    refine ih fun hentries => ?_
    by_cases hk : key = k
    · rw [hk, get_insert_self, get_insert_self]
    · rw [get_insert_ne hk, get_insert_ne hk]
      exact h ⟨hk, hentries⟩

/-- Inserting entries that are there changes nothing. -/
theorem insertAll_of_get {entries m : Entries α} (h : ∀ e ∈ entries, m.get e.1 = some e.2) :
    m.insertAll entries = m := by
  induction entries with
  | nil => rfl
  | cons e entries ih =>
    have hhead := insert_of_get (h e List.mem_cons_self)
    rw [insertAll, List.foldl_cons, hhead]
    exact ih fun e he => h e (List.mem_cons_of_mem _ he)

/-- An entry is found under its key, when no key is there twice. -/
theorem get_of_mem {m : Entries α} (hunique : m.keys.Nodup) {e : String × α} (h : e ∈ m) :
    m.get e.1 = some e.2 := by
  induction m with
  | nil => cases h
  | cons e' m ih =>
    obtain ⟨k, w⟩ := e'
    obtain ⟨hnot, hunique⟩ := List.nodup_cons.mp hunique
    rcases List.mem_cons.mp h with rfl | h
    · rw [get_cons, if_pos rfl]
    · have hne : e.1 ≠ k := fun heq => hnot (List.mem_map.mpr ⟨e, h, heq⟩)
      rw [get_cons, if_neg hne]
      exact ih hunique h

/-- The order of the entries does not matter, when no key is there twice. -/
theorem get_perm {m m' : Entries α} (hunique : m.keys.Nodup) (h : m'.Perm m) (key : String) :
    m'.get key = m.get key := by
  have hunique' : m'.keys.Nodup := (h.map Prod.fst).nodup_iff.mpr hunique
  cases hget : m.get key with
  | some v =>
    have hmem : (key, v) ∈ m' := h.mem_iff.mpr (mem_of_get hget)
    exact get_of_mem hunique' hmem
  | none =>
    cases hget' : m'.get key with
    | none => rfl
    | some v =>
      have hmem : (key, v) ∈ m := h.mem_iff.mp (mem_of_get hget')
      rw [get_of_mem hunique hmem] at hget
      cases hget

theorem containsKey_iff_mem_keys {m : Entries α} {key : String} :
    m.containsKey key = true ↔ key ∈ m.keys := by
  induction m with
  | nil => simp [containsKey, keys]
  | cons e m ih =>
    obtain ⟨k, w⟩ := e
    rw [containsKey, get_cons, keys, List.map_cons, List.mem_cons]
    by_cases hk : key = k
    · simp [hk]
    · rw [if_neg hk]
      simp only [hk, false_or]
      exact ih

theorem mem_keys_insert {key key' : String} {v : α} {m : Entries α} :
    key' ∈ (insert key v m).keys ↔ key' = key ∨ key' ∈ m.keys := by
  rw [← containsKey_iff_mem_keys, containsKey_insert, Bool.or_eq_true, decide_eq_true_eq,
    containsKey_iff_mem_keys]

/-- A key that is not there is added at the end. -/
theorem insert_of_not_mem {key : String} {v : α} {m : Entries α} (h : key ∉ m.keys) :
    m.insert key v = m ++ [(key, v)] := by
  induction m with
  | nil => rfl
  | cons e m ih =>
    obtain ⟨k, w⟩ := e
    simp only [keys, List.map_cons, List.mem_cons, not_or] at h
    rw [insert, if_neg h.1, ih h.2, List.cons_append]

/-- An insertion adds no key twice. -/
theorem nodup_keys_insert {key : String} {v : α} {m : Entries α} (h : m.keys.Nodup) :
    (insert key v m).keys.Nodup := by
  induction m with
  | nil => exact List.nodup_singleton key
  | cons e m ih =>
    obtain ⟨k, w⟩ := e
    obtain ⟨hnot, hm⟩ := List.nodup_cons.mp h
    rw [insert]
    split
    · rename_i hk
      subst hk
      exact h
    · rename_i hk
      refine List.nodup_cons.mpr ⟨fun hmem => ?_, ih hm⟩
      rcases mem_keys_insert.mp hmem with heq | hmem
      · exact hk heq.symm
      · exact hnot hmem

/-- The keys after an insertion of entries: those that were there, and those of the entries. -/
theorem mem_keys_insertAll {key : String} {entries m : Entries α} :
    key ∈ (m.insertAll entries).keys ↔ key ∈ m.keys ∨ key ∈ entries.keys := by
  induction entries generalizing m with
  | nil => exact (or_iff_left List.not_mem_nil).symm
  | cons e entries ih =>
    have hentries : key ∈ keys (e :: entries) ↔ key = e.1 ∨ key ∈ keys entries := List.mem_cons
    rw [insertAll, List.foldl_cons]
    refine ih.trans ?_
    rw [mem_keys_insert, hentries, or_assoc, or_left_comm]

/-- Taking out one key does not touch the others. This is the frame of a removal. -/
theorem get_filter_ne {key key' : String} (h : key' ≠ key) (m : Entries α) :
    get (m.filter (·.1 ≠ key)) key' = get m key' := by
  induction m with
  | nil => rfl
  | cons e m ih =>
    obtain ⟨k, w⟩ := e
    rw [get_cons, List.filter_cons]
    split
    · rw [get_cons, ih]
    · rename_i hk
      have hk : k = key := by simpa using hk
      rw [ih, if_neg fun hkey => h (hkey.trans hk)]

theorem get_eq_none_iff {m : Entries α} {key : String} : m.get key = none ↔ key ∉ m.keys := by
  rw [← containsKey_iff_mem_keys, containsKey, Bool.not_eq_true, Option.isSome_eq_false_iff,
    Option.isNone_iff_eq_none]

end Entries

end HeadlessMcp
