/-
  Records — what a store holds after it was written to.

  **Specification** — a store is a map from keys to fingerprints.  Recording sets the fingerprint of one
  key, forgetting takes away those of all keys with a given start, and either leaves the store as it was
  when its state file could not be written.

  **The crux** — a table is searched from its start, and a record is put in its place by its key.  So it
  does not matter whether the table is in order: no record with the same key is left before it.
-/
import Wheelwright.Store

namespace Wheelwright

/-! ## Tables

  A table as a function from keys to records, before and after a change. -/

namespace RecordTable

variable {t : RecordTable} {key start : String} {r : FingerprintRecord}

/-- A table is searched from its start. -/
theorem lookup_cons_eq (k k' : String) (old : FingerprintRecord) (rest : RecordTable) :
    List.lookup k ((k', old) :: rest) = if k = k' then some old else List.lookup k rest := by
  by_cases hk : k = k'
  · rw [List.lookup_cons, beq_iff_eq.mpr hk, if_pos hk]
  · rw [List.lookup_cons, beq_eq_false_iff_ne.mpr hk, if_neg hk]

/-- After an insertion the key has the new record, and every other key the old one. -/
theorem lookup_insert (k : String) :
    (insert key r t).lookup k = if k = key then some r else t.lookup k := by
  -- on the table, as far as the place of the key
  induction t with
  | nil => exact lookup_cons_eq k key r []
  | cons e rest ih =>
    obtain ⟨k', old⟩ := e
    rw [insert]
    split
    · -- the old record of the key is replaced
      rename_i heq
      subst heq
      rw [lookup_cons_eq, lookup_cons_eq]
      split <;> rfl
    · rename_i hne
      split
      · rw [lookup_cons_eq]
      · rw [lookup_cons_eq, ih, lookup_cons_eq]
        by_cases hk : k = k'
        · rw [if_pos hk, if_pos hk, if_neg (by rw [hk]; exact hne)]
        · rw [if_neg hk, if_neg hk]

/-- After keys were forgotten by a prefix, those that do not begin so have their records. -/
theorem lookup_withoutStart (k : String) :
    (withoutStart start t).lookup k = if start.toList <+: k.toList then none else t.lookup k := by
  rw [withoutStart]
  induction t with
  | nil => rw [List.filter_nil, List.lookup_nil, ite_self]
  | cons e rest ih =>
    obtain ⟨k', old⟩ := e
    rw [List.filter_cons, lookup_cons_eq]
    -- the first entry is forgotten, or it is kept and may be the one in question
    by_cases hstart : start.toList <+: k'.toList
    · rw [List.isPrefixOf_iff_prefix.mpr hstart, Bool.not_true, if_neg Bool.false_ne_true, ih]
      split
      · rfl
      · rename_i hk
        rw [if_neg fun heq => hk (by rw [heq]; exact hstart)]
    · have hkept : start.toList.isPrefixOf k'.toList = false := by
        rwa [← Bool.not_eq_true, List.isPrefixOf_iff_prefix]
      rw [hkept, Bool.not_false, if_pos rfl, lookup_cons_eq, ih]
      by_cases hk : k = k'
      · rw [if_pos hk, if_pos hk, if_neg (by rw [hk]; exact hstart)]
      · rw [if_neg hk, if_neg hk]

end RecordTable

/-! ## Stores

  The same of stores, whose changes fail when the state file cannot be written. -/

namespace FingerprintStore

variable {s s' : FingerprintStore} {t t' : FileTree} {key start : String}

/-- The fingerprint under a key. -/
def stored (s : FingerprintStore) (key : String) : Option String := (s.load key).map (·.fingerprint)

/-- A store holds other records, or is as it was if its state file could not be written. -/
theorem replace_cases (records : RecordTable) :
    ((s.replace records t).2.2 = none ∧ (s.replace records t).1 = { s with records }) ∨
      (s.replace records t).2.2 ≠ none ∧ (s.replace records t).1 = s := by
  rw [replace]
  split
  · exact Or.inl ⟨rfl, rfl⟩
  · split
    · exact Or.inl ⟨rfl, rfl⟩
    · exact Or.inr ⟨by simp, rfl⟩

/-- **A recorded fingerprint is stored under its key, and no other key is touched.** -/
theorem stored_record {f : String} {now : Timestamp} (h : (s.record key f now t).2.2 = none) (k : String) :
    (s.record key f now t).1.stored k = if k = key then some f else s.stored k := by
  rw [record] at h ⊢
  rcases replace_cases (s := s) (t := t) (s.records.insert key ⟨f, now⟩) with ⟨-, hs⟩ | ⟨hne, -⟩
  · rw [hs, stored, load, stored, load, RecordTable.lookup_insert]
    split <;> rfl
  · exact absurd h hne

/-- A fingerprint that could not be recorded changes nothing. -/
theorem record_of_error {f : String} {now : Timestamp} (h : (s.record key f now t).2.2 ≠ none) :
    (s.record key f now t).1 = s := by
  rw [record] at h ⊢
  rcases replace_cases (s := s) (t := t) (s.records.insert key ⟨f, now⟩) with ⟨hnone, -⟩ | ⟨-, hs⟩
  · exact absurd hnone h
  · exact hs

/-- Nothing was removed if there are as many records as before. -/
theorem withoutStart_eq_of_length (h : s.records.length - (s.records.withoutStart start).length = 0) :
    s.records.withoutStart start = s.records := by
  have hsub : (s.records.withoutStart start).Sublist s.records := List.filter_sublist
  exact hsub.eq_of_length_le (by omega)

/-- A store forgets records, or is as it was if its state file could not be written. -/
theorem forget_cases (s : FingerprintStore) (start : String) (t : FileTree) :
    (∃ n, (s.forget start t).2.2 = .ok n ∧
        (s.forget start t).1 = { s with records := s.records.withoutStart start }) ∨
      ∃ e, (s.forget start t).2.2 = .error e ∧ (s.forget start t).1 = s := by
  rw [forget]
  -- a call that forgets nothing writes nothing
  split
  · rename_i hlen
    refine Or.inl ⟨0, rfl, ?_⟩
    rw [withoutStart_eq_of_length hlen]
  · have hcases := replace_cases (s := s) (t := t) (s.records.withoutStart start)
    split
    · rename_i u t' hu
      rw [hu] at hcases
      exact Or.inl ⟨_, rfl, (hcases.resolve_right fun hne => hne.1 rfl).2⟩
    · rename_i u t' e hu
      rw [hu] at hcases
      exact Or.inr ⟨e, rfl, (hcases.resolve_left fun hnone => by simp at hnone).2⟩

/-- **Forgetting takes away the fingerprints of all keys with the given start**, and of no others. -/
theorem stored_forget {n : Nat} (h : (s.forget start t).2.2 = .ok n) (k : String) :
    (s.forget start t).1.stored k = if start.toList <+: k.toList then none else s.stored k := by
  obtain ⟨-, -, hs⟩ | ⟨e, he, -⟩ := forget_cases s start t
  · rw [hs, stored, load, RecordTable.lookup_withoutStart, stored, load]
    split <;> rfl
  · rw [he] at h
    cases h

/-- Records that could not be forgotten are all still there. -/
theorem forget_of_error {e : BuildError} (h : (s.forget start t).2.2 = .error e) :
    (s.forget start t).1 = s := by
  obtain ⟨n, hn, -⟩ | ⟨-, -, hs⟩ := forget_cases s start t
  · rw [hn] at h
    cases h
  · exact hs

end FingerprintStore

end Wheelwright
