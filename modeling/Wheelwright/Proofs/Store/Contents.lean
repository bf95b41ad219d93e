/-
  Contents of state files — which texts hold records, and which records they hold.

  **Specification** — a value writes a record if it is an object with a fingerprint and a moment, each of them once and
  whatever else, or an array of the two.  A text is a map of records if it writes an object and every field of that
  writes one; of the fields with one name the last counts.

  **Program** — the fields are read one after the other, and put into a table that is kept in order.

  **The crux** — a table in order is told by what is found in it (`eq_of_lookup`), and what is found after all fields
  have been put in is what the last one of the name has put there (`lookup_foldl`).
-/
import Wheelwright.Proofs.Json.Grammar
import Wheelwright.Proofs.Store.StateFile

namespace Wheelwright

/-! ## Fields of an object

  An object may have a name twice.  The reader of records refuses that for the names it knows, and the reader of
  tables takes the last one. -/

namespace Json

variable {fields : List (String × Json)} {name k : String} {j v : Json}

/-- The object has one field of the name, with this value. -/
def OnlyField (fields : List (String × Json)) (name : String) (j : Json) : Prop :=
  fields.filter (fun f => f.1 = name) = [(name, j)]

/-- The last field of the name has this value. -/
def LastField (fields : List (String × Json)) (name : String) (j : Json) : Prop :=
  ∃ before after, fields = before ++ (name, j) :: after ∧ ∀ f ∈ after, f.1 ≠ name

/-- The last field of a name is that of the rest, or the first if the rest has none. -/
theorem lastField_cons : LastField ((k, v) :: fields) name j ↔
    LastField fields name j ∨ (k = name ∧ v = j ∧ ∀ f ∈ fields, f.1 ≠ name) := by
  constructor
  -- the field is the first one, or it stands among the others
  · rintro ⟨before, after, hsplit, hlast⟩
    cases before with
    | nil =>
      cases hsplit
      exact Or.inr ⟨rfl, rfl, hlast⟩
    | cons f before =>
      cases hsplit
      exact Or.inl ⟨before, after, rfl, hlast⟩
  · rintro (⟨before, after, rfl, hlast⟩ | ⟨rfl, rfl, hlast⟩)
    · exact ⟨(k, v) :: before, after, rfl, hlast⟩
    · exact ⟨[], fields, rfl, hlast⟩

/-- An only field is found. -/
theorem lookup_of_onlyField (h : OnlyField fields name j) : fields.lookup name = some j := by
  -- on the fields, of which only one has the name
  induction fields with
  | nil => cases h
  | cons f rest ih =>
    obtain ⟨k, v⟩ := f
    rw [OnlyField, List.filter_cons] at h
    by_cases hk : k = name
    · rw [if_pos (decide_eq_true hk)] at h
      obtain ⟨hfirst, -⟩ := List.cons.inj h
      rw [hfirst, List.lookup_cons, BEq.rfl]
    · rw [if_neg (by rwa [decide_eq_true_iff])] at h
      rw [List.lookup_cons, beq_eq_false_iff_ne.mpr (Ne.symm hk)]
      exact ih h

/-- Without names that occur twice, what is found is the only field. -/
theorem onlyField_of_lookup (hnodup : (fields.map Prod.fst).Nodup) (h : fields.lookup name = some j) :
    OnlyField fields name j := by
  -- on the fields: the first one has the name, and then no other, or the rest decides
  induction fields with
  | nil => cases h
  | cons f rest ih =>
    obtain ⟨k, v⟩ := f
    obtain ⟨hk, hrest⟩ := List.nodup_cons.mp hnodup
    rw [OnlyField, List.filter_cons]
    rw [List.lookup_cons] at h
    by_cases heq : k = name
    · subst heq
      rw [BEq.rfl] at h
      cases h
      rw [if_pos (decide_eq_true rfl), List.filter_eq_nil_iff.mpr]
      intro f hf hname
      exact hk (List.mem_map.mpr ⟨f, hf, of_decide_eq_true hname⟩)
    · rw [beq_eq_false_iff_ne.mpr (Ne.symm heq)] at h
      rw [if_neg (by rwa [decide_eq_true_iff])]
      exact ih hrest h

/-- Only the known fields matter. -/
theorem onlyField_known {names : List String} (hname : name ∈ names) :
    OnlyField (fields.filter fun f => names.contains f.1) name j ↔ OnlyField fields name j := by
  rw [OnlyField, OnlyField, List.filter_filter]
  have hsame : ∀ f : String × Json, (decide (f.1 = name) && names.contains f.1) = decide (f.1 = name) := by
    intro f
    by_cases hf : f.1 = name
    · rw [hf, decide_eq_true rfl, List.contains_iff_mem.mpr hname]
      rfl
    · rw [decide_eq_false hf]
      rfl
  rw [List.filter_congr fun f _ => hsame f]

/-- Of the fields whose names have one each, none occurs twice. -/
theorem nodup_known {names : List String} (h : ∀ name ∈ names, ∃ j, OnlyField fields name j) :
    ((fields.filter fun f => names.contains f.1).map Prod.fst).Nodup := by
  rw [List.nodup_iff_count]
  -- a name is counted once if it is one of those, and not at all otherwise
  intro name
  by_cases hname : name ∈ names
  · obtain ⟨j, hj⟩ := h name hname
    have honly := (onlyField_known hname).mpr hj
    have hcount : ((fields.filter fun f => names.contains f.1).map Prod.fst).count name =
        ((fields.filter fun f => names.contains f.1).filter fun f => f.1 = name).length := by
      rw [List.count, List.countP_map, List.countP_eq_length_filter]
      rfl
    rw [hcount, honly]
    exact Nat.le_refl 1
  · rw [List.count_eq_zero.mpr]
    · exact Nat.zero_le 1
    intro hmem
    obtain ⟨f, hf, rfl⟩ := List.mem_map.mp hmem
    exact hname (List.contains_iff_mem.mp (List.mem_filter.mp hf).2)

/-- Only a string has a text. -/
theorem text?_eq_some_iff {s : String} : text? j = some s ↔ j = .string s := by
  constructor
  · intro h
    cases j with
    | string s' => exact congrArg _ (Option.some.inj h)
    | _ => cases h
  · rintro rfl
    rfl

end Json

/-! ## Records

  A record is written in one of two ways, as an object or as an array. -/

namespace FingerprintRecord

open Json (OnlyField)

variable {r : FingerprintRecord} {j : Json}

/-- The value writes the record. -/
inductive WrittenAs (r : FingerprintRecord) : Json → Prop
  /-- An object with a field for each part, and whatever else. -/
  | object {fields : List (String × Json)} {moment : String}
      (hfingerprint : OnlyField fields "fingerprint" (.string r.fingerprint))
      (hrecorded : OnlyField fields "recorded_at" (.string moment))
      (hmoment : Timestamp.parse? moment = some r.recordedAt) : WrittenAs r (.object fields)
  /-- An array of the two parts. -/
  | array {moment : String} (hmoment : Timestamp.parse? moment = some r.recordedAt) :
      WrittenAs r (.array [.string r.fingerprint, .string moment])

/-- What is asked of the fields of a record. -/
theorem ofJson?_eq_some_iff : ofJson? j = some r ↔ ∃ x moment,
    Json.record? ["fingerprint", "recorded_at"] j = some x ∧
      x.fields.lookup "fingerprint" = some (.string r.fingerprint) ∧
      x.fields.lookup "recorded_at" = some (.string moment) ∧ Timestamp.parse? moment = some r.recordedAt := by
  constructor
  · intro h
    simp only [ofJson?, Json.Record.required, Option.bind_eq_bind, Option.bind_eq_some_iff] at h
    obtain ⟨x, hx, fingerprint, ⟨j₁, h₁, htext₁⟩, moment, ⟨j₂, h₂, htext₂⟩, recordedAt, hmoment, h⟩ := h
    cases h
    rw [Json.text?_eq_some_iff.mp htext₁] at h₁
    rw [Json.text?_eq_some_iff.mp htext₂] at h₂
    exact ⟨x, moment, hx, h₁, h₂, hmoment⟩
  · rintro ⟨x, moment, hx, h₁, h₂, hmoment⟩
    simp only [ofJson?, Json.Record.required, hx, h₁, h₂, Json.text?, hmoment, Option.bind_eq_bind, Option.bind_some]

/-- **A value is read as a record exactly if it writes it.** -/
theorem ofJson?_iff : ofJson? j = some r ↔ r.WrittenAs j := by
  rw [ofJson?_eq_some_iff]
  -- a record is read from an object by the names of its fields, and from an array by their places
  constructor
  · rintro ⟨x, moment, hx, hfingerprint, hrecorded, hmoment⟩
    cases j with
    | object fields =>
      simp only [Json.record?] at hx
      split at hx
      · rename_i hnodup
        cases hx
        have hf := (Json.onlyField_known (by decide)).mp (Json.onlyField_of_lookup hnodup hfingerprint)
        have hm := (Json.onlyField_known (by decide)).mp (Json.onlyField_of_lookup hnodup hrecorded)
        exact .object hf hm hmoment
      · cases hx
    | array items =>
      rw [Json.record?] at hx
      split at hx
      · rename_i hlength
        cases hx
        match items, hlength with
        | [], _ => cases hfingerprint
        | [a], _ => cases hrecorded
        | [a, b], _ =>
          cases hfingerprint
          cases hrecorded
          exact .array hmoment
      · cases hx
    | _ => cases hx
  · intro h
    cases h with
    | array hmoment => exact ⟨_, _, rfl, rfl, rfl, hmoment⟩
    | @object fields moment hf hm hmoment =>
      have honly : ∀ name ∈ ["fingerprint", "recorded_at"], ∃ j, OnlyField fields name j := by
        intro name hname
        rcases List.mem_cons.mp hname with rfl | hname
        · exact ⟨_, hf⟩
        · rw [List.mem_singleton.mp hname]
          exact ⟨_, hm⟩
      have hnodup := Json.nodup_known honly
      have hfknown : OnlyField (fields.filter fun f => ["fingerprint", "recorded_at"].contains f.1) _ _ :=
        (Json.onlyField_known (by decide)).mpr hf
      have hmknown : OnlyField (fields.filter fun f => ["fingerprint", "recorded_at"].contains f.1) _ _ :=
        (Json.onlyField_known (by decide)).mpr hm
      refine ⟨⟨false, _⟩, moment, ?_, Json.lookup_of_onlyField hfknown, Json.lookup_of_onlyField hmknown, hmoment⟩
      rw [Json.record?]
      exact if_pos hnodup

end FingerprintRecord

/-! ## Tables

  The fields are put into the table one after the other.  What is found under a key in the end is what the last field
  of that name has put there, and the table is in order, so that is all there is to know of it. -/

namespace RecordTable

open Json (LastField)

variable {t u entries : RecordTable} {fields : List (String × Json)} {key : String} {r : FingerprintRecord} {j : Json}

/-- The fields write the table: it is in order, every field writes a record, and under a key is the record of the last
    field of that name. -/
structure WrittenAs (t : RecordTable) (fields : List (String × Json)) : Prop where
  /-- The keys are in order, each once. -/
  ordered : t.Pairwise fun a b => a.1 < b.1
  /-- Every field is a record. -/
  records : ∀ f ∈ fields, ∃ r : FingerprintRecord, r.WrittenAs f.2
  /-- The record of a key is that of its last field. -/
  found : ∀ key r, t.lookup key = some r ↔ ∃ j, LastField fields key j ∧ r.WrittenAs j

/-- What is found in a table in order under the first key. -/
theorem lookup_of_lt (h : ∀ e ∈ t, key < e.1) : t.lookup key = none := by
  rw [List.lookup_eq_none_iff]
  intro e he
  rw [bne_iff_ne]
  intro heq
  have hlt := h e he
  rw [← heq] at hlt
  exact String.lt_irrefl key hlt

/-- What is found stands in the table. -/
theorem key_mem_of_lookup (h : t.lookup key = some r) : (key, r) ∈ t := by
  obtain ⟨before, after, rfl, -⟩ := List.lookup_eq_some_iff.mp h
  exact List.mem_append_right _ List.mem_cons_self

/-- **A table in order is told by what is found in it.** -/
theorem eq_of_lookup (ht : t.Pairwise fun a b => a.1 < b.1) (hu : u.Pairwise fun a b => a.1 < b.1)
    (h : ∀ key, t.lookup key = u.lookup key) : t = u := by
  induction t generalizing u with
  | nil =>
    cases u with
    | nil => rfl
    | cons e rest =>
      have hfound := h e.1
      rw [lookup_cons_eq, if_pos rfl] at hfound
      cases hfound
  | cons e rest ih =>
    obtain ⟨k, r⟩ := e
    obtain ⟨hk, hrest⟩ := List.pairwise_cons.mp ht
    cases u with
    | nil =>
      have hfound := h k
      rw [lookup_cons_eq, if_pos rfl] at hfound
      cases hfound
    | cons e' rest' =>
      obtain ⟨k', r'⟩ := e'
      obtain ⟨hk', hrest'⟩ := List.pairwise_cons.mp hu
      -- Neither first key is behind the other: it would not be found in the other table.
      have hkeys : k = k' := by
        refine Decidable.byContradiction fun hne => ?_
        have hfound := h k
        have hfound' := h k'
        rw [lookup_cons_eq, lookup_cons_eq, if_pos rfl, if_neg hne] at hfound
        rw [lookup_cons_eq, lookup_cons_eq, if_pos rfl, if_neg (Ne.symm hne)] at hfound'
        have hlt := hk' _ (key_mem_of_lookup hfound.symm)
        have hlt' := hk _ (key_mem_of_lookup hfound')
        exact String.lt_asymm hlt hlt'
      subst hkeys
      have hrecord := h k
      rw [lookup_cons_eq, lookup_cons_eq, if_pos rfl, if_pos rfl] at hrecord
      cases hrecord
      refine congrArg _ (ih hrest hrest' fun key => ?_)
      by_cases hkey : key = k
      · subst hkey
        rw [lookup_of_lt hk, lookup_of_lt hk']
      · have hfound := h key
        rw [lookup_cons_eq, lookup_cons_eq, if_neg hkey, if_neg hkey] at hfound
        exact hfound

/-- The record of a field, under its name. -/
def dated? (f : String × Json) : Option (String × FingerprintRecord) :=
  (FingerprintRecord.ofJson? f.2).map fun r => (f.1, r)

/-- An entry is read from the field of its name. -/
theorem dated?_eq_some_iff {f : String × Json} {e : String × FingerprintRecord} :
    dated? f = some e ↔ f.1 = e.1 ∧ e.2.WrittenAs f.2 := by
  rw [dated?, Option.map_eq_some_iff]
  constructor
  · rintro ⟨r, hr, rfl⟩
    exact ⟨rfl, FingerprintRecord.ofJson?_iff.mp hr⟩
  · rintro ⟨hname, hwritten⟩
    exact ⟨e.2, FingerprintRecord.ofJson?_iff.mpr hwritten, Prod.ext hname rfl⟩

/-- All fields are read if each writes a record. -/
theorem exists_readAll (h : ∀ f ∈ fields, ∃ r : FingerprintRecord, r.WrittenAs f.2) :
    ∃ entries, Json.readAll dated? fields = some entries := by
  induction fields with
  | nil => exact ⟨[], rfl⟩
  | cons f rest ih =>
    obtain ⟨r, hr⟩ := h f List.mem_cons_self
    obtain ⟨entries, hentries⟩ := ih fun g hg => h g (List.mem_cons_of_mem _ hg)
    have hf : dated? f = some (f.1, r) := dated?_eq_some_iff.mpr ⟨rfl, hr⟩
    refine ⟨(f.1, r) :: entries, ?_⟩
    rw [Json.readAll, hf, hentries]
    rfl

/-- The entries of fields are that of the first and those of the rest. -/
theorem exists_of_readAll_cons {f : String × Json} (h : Json.readAll dated? (f :: fields) = some entries) :
    ∃ e rest, entries = e :: rest ∧ f.1 = e.1 ∧ e.2.WrittenAs f.2 ∧ Json.readAll dated? fields = some rest := by
  rw [Json.readAll] at h
  split at h
  · cases h
  · rename_i e he
    obtain ⟨rest, hrest, rfl⟩ := Option.map_eq_some_iff.mp h
    obtain ⟨hname, hwritten⟩ := dated?_eq_some_iff.mp he
    exact ⟨e, rest, rfl, hname, hwritten, hrest⟩

/-- **After all fields have been put in, the last of the name is found**, and what was there before if there is none. -/
theorem lookup_foldl (h : Json.readAll dated? fields = some entries) :
    (entries.foldl (fun t e => insert e.1 e.2 t) t).lookup key = some r ↔
      (∃ j, LastField fields key j ∧ r.WrittenAs j) ∨ (∀ f ∈ fields, f.1 ≠ key) ∧ t.lookup key = some r := by
  -- on the fields: the rest of them decides, then the first, then the table from before
  induction fields generalizing t entries with
  | nil =>
    cases h
    constructor
    · exact fun hfound => Or.inr ⟨nofun, hfound⟩
    · rintro (⟨j, ⟨before, after, hsplit, -⟩, -⟩ | ⟨-, hfound⟩)
      · cases List.append_ne_nil_of_right_ne_nil before (List.cons_ne_nil _ after) hsplit.symm
      · exact hfound
  | cons f rest ih =>
    obtain ⟨e, entries, rfl, hname, hwritten, hrest⟩ := exists_of_readAll_cons h
    obtain ⟨k, v⟩ := f
    have hvalue : ∀ {r : FingerprintRecord}, r.WrittenAs v ↔ e.2 = r := by
      intro r
      rw [← FingerprintRecord.ofJson?_iff, FingerprintRecord.ofJson?_iff.mpr hwritten, Option.some.injEq]
    rw [List.foldl_cons, ih hrest, lookup_insert]
    constructor
    · rintro (⟨j, hlast, hj⟩ | ⟨hnone, hfound⟩)
      · exact Or.inl ⟨j, Json.lastField_cons.mpr (Or.inl hlast), hj⟩
      · by_cases hkey : key = e.1
        · rw [if_pos hkey] at hfound
          refine Or.inl ⟨v, Json.lastField_cons.mpr (Or.inr ⟨hname.trans hkey.symm, rfl, hnone⟩), ?_⟩
          exact hvalue.mpr (Option.some.inj hfound)
        · rw [if_neg hkey] at hfound
          exact Or.inr ⟨List.forall_mem_cons.mpr ⟨fun hk => hkey (hk.symm.trans hname), hnone⟩, hfound⟩
    · rintro (⟨j, hlast, hj⟩ | ⟨hnone, hfound⟩)
      · rcases Json.lastField_cons.mp hlast with hlast | ⟨rfl, rfl, hnone⟩
        · exact Or.inl ⟨j, hlast, hj⟩
        · refine Or.inr ⟨hnone, ?_⟩
          rw [if_pos hname, hvalue.mp hj]
      · obtain ⟨hk, hnone⟩ := List.forall_mem_cons.mp hnone
        refine Or.inr ⟨hnone, ?_⟩
        rw [if_neg fun hkey => hk (hname.trans hkey.symm)]
        exact hfound

/-- Inserting entries keeps the keys in order. -/
theorem pairwise_foldl (h : t.Pairwise fun a b => a.1 < b.1) :
    (entries.foldl (fun t e => insert e.1 e.2 t) t).Pairwise fun a b => a.1 < b.1 := by
  induction entries generalizing t with
  | nil => exact h
  | cons e rest ih => exact ih (pairwise_insert h)

/-- A table that was read field by field was written as these fields. -/
theorem writtenAs_of_readAll (h : Json.readAll dated? fields = some entries) :
    WrittenAs (entries.foldl (fun t e => insert e.1 e.2 t) []) fields where
  ordered := pairwise_foldl List.Pairwise.nil
  records := by
    induction fields generalizing entries with
    | nil => nofun
    | cons f rest ih =>
      obtain ⟨e, entries, rfl, -, hwritten, hrest⟩ := exists_of_readAll_cons h
      exact List.forall_mem_cons.mpr ⟨⟨e.2, hwritten⟩, ih hrest⟩
  found := by
    intro key r
    rw [lookup_foldl h]
    exact or_iff_left fun hnone => by cases hnone.2

/-- The fields write one table at most. -/
theorem WrittenAs.unique (ht : t.WrittenAs fields) (hu : u.WrittenAs fields) : t = u := by
  refine eq_of_lookup ht.ordered hu.ordered fun key => Option.ext fun r => ?_
  rw [ht.found, hu.found]

/-- **A value is read as a table exactly if it is an object that writes it.** -/
theorem ofJson?_iff : ofJson? j = some t ↔ ∃ fields, j = .object fields ∧ t.WrittenAs fields := by
  constructor
  · intro h
    cases j with
    | object fields =>
      obtain ⟨entries, hentries, rfl⟩ := Option.map_eq_some_iff.mp h
      exact ⟨fields, rfl, writtenAs_of_readAll hentries⟩
    | _ => cases h
  · rintro ⟨fields, rfl, ht⟩
    obtain ⟨entries, hentries⟩ := exists_readAll ht.records
    have hread : ofJson? (.object fields) = some (entries.foldl (fun t e => insert e.1 e.2 t) []) :=
      Option.map_eq_some_iff.mpr ⟨entries, hentries, rfl⟩
    rw [hread, (writtenAs_of_readAll hentries).unique ht]

/-! ## Texts

  A text is first JSON and then a table.  Both steps may fail, and either failure is read as a table without records. -/

/-- The text is a map of records, this table. -/
def SpelledBy (t : RecordTable) (text : String) : Prop :=
  ∃ fields, (Json.object fields).WrittenBy text ∧ t.WrittenAs fields

variable {text : String}

/-- A text spells the table that is read from it. -/
theorem spelledBy_iff : t.SpelledBy text ↔ (Json.parse? text).bind ofJson? = some t := by
  rw [Option.bind_eq_some_iff]
  constructor
  · rintro ⟨fields, hwritten, ht⟩
    exact ⟨_, Json.parse?_iff.mpr hwritten, ofJson?_iff.mpr ⟨fields, rfl, ht⟩⟩
  · rintro ⟨j, hparse, hj⟩
    obtain ⟨fields, rfl, ht⟩ := ofJson?_iff.mp hj
    exact ⟨fields, Json.parse?_iff.mp hparse, ht⟩

end RecordTable

namespace FingerprintStore

variable {t : RecordTable} {text : String}

/-- A text that is a map of records is read as that. -/
theorem decode_of_spelledBy (h : t.SpelledBy text) : decode text = t := by
  rw [decode, RecordTable.spelledBy_iff.mp h]
  rfl

/-- **Any other text is read as no records.** -/
theorem decode_of_not_spelledBy (h : ∀ t : RecordTable, ¬ t.SpelledBy text) : decode text = [] := by
  rw [decode, Option.eq_none_iff_forall_ne_some.mpr fun t ht => h t (RecordTable.spelledBy_iff.mpr ht)]
  rfl

end FingerprintStore

end Wheelwright
