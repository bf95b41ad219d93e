/-
  State files hold what was written to them.

  **Specification** — `decode (encode t) = t` for every table whose keys are in order and whose records are dated by
  moments, whatever the keys and fingerprints are; and every table that is decoded, and every change of such a table, is
  such a table.

  **The crux** — the records of a table come back in the order of its keys, so each is put behind those that are there
  already (`foldl_insert`).
-/
import Wheelwright.Proofs.Json.RoundTrip
import Wheelwright.Proofs.Store.Records
import Wheelwright.Proofs.Text.Moments

namespace Wheelwright

/-! ## Records

  A record is a fingerprint and a moment, and the moment is written to the nanosecond. -/

namespace FingerprintRecord

/-- A record is read back as it was written. -/
theorem ofJson?_toJson {r : FingerprintRecord} (h : r.recordedAt.IsMoment) : ofJson? r.toJson = some r := by
  have hrecord : Json.record? ["fingerprint", "recorded_at"] r.toJson =
      some ⟨false, [("fingerprint", .string r.fingerprint), ("recorded_at", .string r.recordedAt.text)]⟩ := rfl
  have hne : ("recorded_at" == "fingerprint") = false := rfl
  rw [ofJson?, hrecord]
  simp only [Option.bind_eq_bind, Option.bind_some, Json.Record.required, List.lookup_cons, BEq.rfl, hne, Json.text?,
    Timestamp.parse?_text h]

/-- What is read as a record has a real moment. -/
theorem isMoment_of_ofJson? {j : Json} {r : FingerprintRecord} (h : ofJson? j = some r) : r.recordedAt.IsMoment := by
  simp only [ofJson?, Option.bind_eq_bind, Option.bind_eq_some_iff] at h
  obtain ⟨_, -, _, -, text, -, moment, hmoment, h⟩ := h
  cases h
  exact Timestamp.isMoment_of_parse? hmoment

end FingerprintRecord

/-! ## Tables

  Tables are lists in the order of their keys.  Changes keep them so. -/

namespace RecordTable

variable {t : RecordTable} {key start : String} {r : FingerprintRecord}

/-- The keys are in order, so that none is repeated, and every record is dated by a moment. -/
structure IsTable (t : RecordTable) : Prop where
  /-- The keys are in order, each once. -/
  ordered : t.Pairwise fun a b => a.1 < b.1
  /-- Every record was made at a real moment. -/
  dated : ∀ e ∈ t, e.2.recordedAt.IsMoment

/-- The empty table is one. -/
theorem isTable_nil : IsTable [] := ⟨List.Pairwise.nil, fun _ h => by cases h⟩

/-- After an insertion there is the new entry, and none but old ones beside it. -/
theorem mem_insert {e : String × FingerprintRecord} (h : e ∈ insert key r t) : e = (key, r) ∨ e ∈ t := by
  induction t with
  | nil => exact Or.inl (List.mem_singleton.mp h)
  | cons first rest ih =>
    rw [insert] at h
    split at h
    · exact (List.mem_cons.mp h).imp_right fun hrest => List.mem_cons_of_mem _ hrest
    · split at h
      · exact List.mem_cons.mp h
      · rcases List.mem_cons.mp h with rfl | hrest
        · exact Or.inr List.mem_cons_self
        · exact (ih hrest).imp_right fun hmem => List.mem_cons_of_mem _ hmem

/-- Insertion keeps the order. -/
theorem pairwise_insert (h : t.Pairwise fun a b => a.1 < b.1) : (insert key r t).Pairwise fun a b => a.1 < b.1 := by
  -- on the table: the key comes before the first record, in its place, or behind it
  induction t with
  | nil => exact List.pairwise_singleton _ _
  | cons first rest ih =>
    obtain ⟨hfirst, hrest⟩ := List.pairwise_cons.mp h
    rw [insert]
    split
    · rename_i heq
      exact List.pairwise_cons.mpr ⟨fun e he => heq ▸ hfirst e he, hrest⟩
    · rename_i hne
      split
      · rename_i hlt
        refine List.pairwise_cons.mpr ⟨fun e he => ?_, h⟩
        rcases List.mem_cons.mp he with rfl | he
        · exact hlt
        · exact String.lt_trans hlt (hfirst e he)
      · rename_i hle
        refine List.pairwise_cons.mpr ⟨fun e he => ?_, ih hrest⟩
        rcases mem_insert he with rfl | he
        · exact Std.lt_of_le_of_ne (String.not_lt.mp hle) hne
        · exact hfirst e he

/-- So it leaves a table. -/
theorem IsTable.insert (h : IsTable t) (hr : r.recordedAt.IsMoment) : IsTable (insert key r t) := by
  refine ⟨pairwise_insert h.ordered, fun e he => ?_⟩
  rcases mem_insert he with rfl | he
  · exact hr
  · exact h.dated e he

/-- Forgetting leaves a table. -/
theorem IsTable.withoutStart (h : IsTable t) : IsTable (withoutStart start t) :=
  ⟨h.ordered.filter _, fun e he => h.dated e (List.mem_filter.mp he).1⟩

/-- Any number of insertions leaves a table. -/
theorem IsTable.foldl (entries : RecordTable) (hentries : ∀ e ∈ entries, e.2.recordedAt.IsMoment) (h : IsTable t) :
    IsTable (entries.foldl (fun t e => RecordTable.insert e.1 e.2 t) t) := by
  induction entries generalizing t with
  | nil => exact h
  | cons e rest ih =>
    exact ih (fun e he => hentries e (List.mem_cons_of_mem _ he)) (h.insert (hentries e List.mem_cons_self))

/-! ## Reading and writing tables

  A table that is in order is read into an empty one by putting each record at the end. -/

/-- A record whose key is behind all others stands at the end. -/
theorem insert_of_lt (h : ∀ e ∈ t, e.1 < key) : insert key r t = t ++ [(key, r)] := by
  induction t with
  | nil => rfl
  | cons first rest ih =>
    have hlt : first.1 < key := h first List.mem_cons_self
    have hne : first.1 ≠ key := fun heq => String.lt_irrefl key (heq ▸ hlt)
    rw [insert, if_neg hne, if_neg (String.lt_asymm hlt), ih fun e he => h e (List.mem_cons_of_mem _ he)]
    rfl

/-- Entries that are in order are inserted at the end, one after the other. -/
theorem foldl_insert (entries : RecordTable) (h : (t ++ entries).Pairwise fun a b => a.1 < b.1) :
    entries.foldl (fun t e => insert e.1 e.2 t) t = t ++ entries := by
  induction entries generalizing t with
  | nil => exact (List.append_nil t).symm
  | cons e rest ih =>
    have hbefore : ∀ a ∈ t, a.1 < e.1 := fun a ha =>
      (List.pairwise_append.mp h).2.2 a ha e List.mem_cons_self
    rw [List.foldl_cons, insert_of_lt hbefore, ih (by rwa [List.append_assoc]), List.append_assoc]
    rfl

/-- All records of a table are read back. -/
theorem readAll_toJson (h : ∀ e ∈ t, e.2.recordedAt.IsMoment) :
    Json.readAll (fun f => (FingerprintRecord.ofJson? f.2).map fun r => (f.1, r)) (t.map fun e => (e.1, e.2.toJson)) =
      some t := by
  induction t with
  | nil => rfl
  | cons e rest ih =>
    have he := FingerprintRecord.ofJson?_toJson (h e List.mem_cons_self)
    rw [List.map_cons, Json.readAll, he, ih fun e he => h e (List.mem_cons_of_mem _ he)]
    rfl

/-- A table is read back as it was written. -/
theorem ofJson?_toJson (h : IsTable t) : ofJson? t.toJson = some t := by
  have hfold : t.foldl (fun t e => insert e.1 e.2 t) [] = t := foldl_insert (t := []) t h.ordered
  rw [toJson, ofJson?, readAll_toJson h.dated, Option.map_some, hfold]

/-- What is read has real moments. -/
theorem dated_of_readAll {fields : List (String × Json)}
    (h : Json.readAll (fun f => (FingerprintRecord.ofJson? f.2).map fun r => (f.1, r)) fields = some t) :
    ∀ e ∈ t, e.2.recordedAt.IsMoment := by
  -- on the fields, each of which has been read
  induction fields generalizing t with
  | nil =>
    cases h
    exact fun _ he => by cases he
  | cons f rest ih =>
    rw [Json.readAll] at h
    split at h
    · cases h
    · rename_i e he
      obtain ⟨r, hr, rfl⟩ := Option.map_eq_some_iff.mp he
      obtain ⟨t', ht', rfl⟩ := Option.map_eq_some_iff.mp h
      intro e hmem
      rcases List.mem_cons.mp hmem with rfl | hmem
      · exact FingerprintRecord.isMoment_of_ofJson? hr
      · exact ih ht' e hmem

/-- So what is read as a table is one. -/
theorem isTable_of_ofJson? {j : Json} (h : ofJson? j = some t) : IsTable t := by
  unfold ofJson? at h
  split at h
  · obtain ⟨entries, hentries, rfl⟩ := Option.map_eq_some_iff.mp h
    exact isTable_nil.foldl entries (dated_of_readAll hentries)
  · cases h

/-- What is written for a table has no number that JSON cannot spell. -/
theorem isPlain_toJson (t : RecordTable) : t.toJson.isPlain = true := by
  rw [toJson, Json.isPlain]
  induction t with
  | nil => rfl
  | cons e rest ih => exact ih

end RecordTable

/-! ## State files

  The same of the text of the file. -/

namespace FingerprintStore

open RecordTable

/-- What a state file's text holds is a table. -/
theorem isTable_decode (text : String) : IsTable (decode text) := by
  rw [decode]
  cases h : (Json.parse? text).bind RecordTable.ofJson? with
  | none => exact isTable_nil
  | some t =>
    obtain ⟨j, -, hj⟩ := Option.bind_eq_some_iff.mp h
    exact isTable_of_ofJson? hj

/-- **A table is decoded as it was encoded.** -/
theorem decode_encode {t : RecordTable} (h : IsTable t) : decode (encode t) = t := by
  rw [decode, encode, Json.parse?_pretty (isPlain_toJson t), Option.bind_some, ofJson?_toJson h]
  rfl

end FingerprintStore

end Wheelwright
