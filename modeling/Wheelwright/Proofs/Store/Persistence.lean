/-
  Persistence — a store and its state file, whatever fails.

  **Specification** — calls record a fingerprint under a key or forget all keys with a given start.  Whatever the steps
  of their writes come to, and whenever the process dies and the store is opened anew, store and file agree, and the
  store is the map that the calls which succeeded make of the one it was opened with (`Sound.follow`, `store_persists`).

  **Program** — `record` and `forget`, with a `Writer` in place of the steps that write the state file.  A possible
  writer takes these steps, or stops in one of them with an error and leaves one of the trees in `Left`; a process that
  dies leaves the tree of one of the two.

  **The crux** — all is lost of a store that is opened anew but its state file.  So it is enough that each call leaves a
  state file that is opened as the very store that the call leaves in memory (`Kept.perform`), whether it fails or not.
-/
import Wheelwright.Proofs.Store.Records
import Wheelwright.Proofs.Store.Steps

namespace Wheelwright.FingerprintStore

open FileTree

/-! ## Calls

  A call as a change of a map and as a change of a table.  The two agree, and a call keeps a table in order. -/

/-- A moment that can be written down. -/
abbrev Moment := { moment : Timestamp // moment.IsMoment }

/-- A call that changes the records of a store. -/
inductive Call where
  /-- A stage records its fingerprint. -/
  | record (key fingerprint : String) (now : Moment)
  /-- All keys that begin so are forgotten. -/
  | forget (start : String)

namespace Call

/-- What a call makes of a map. -/
def apply (m : String → Option FingerprintRecord) : Call → String → Option FingerprintRecord
  | .record key fingerprint now, k => if k = key then some ⟨fingerprint, now⟩ else m k
  | .forget start, k => if start.toList <+: k.toList then none else m k

/-- What a call makes of a table. -/
def change (records : RecordTable) : Call → RecordTable
  | .record key fingerprint now => records.insert key ⟨fingerprint, now⟩
  | .forget start => records.withoutStart start

/-- What a call does to the records is what it does to what can be loaded. -/
theorem lookup_change (call : Call) (records : RecordTable) :
    (fun key => (call.change records).lookup key) = call.apply fun key => records.lookup key := by
  funext k
  cases call with
  | record key fingerprint now => exact RecordTable.lookup_insert k
  | forget start => exact RecordTable.lookup_withoutStart k

/-- A call keeps the keys in order. -/
theorem isTable_change {records : RecordTable} (call : Call) (h : records.IsTable) : (call.change records).IsTable := by
  cases call with
  | record key fingerprint now => exact h.insert now.property
  | forget start => exact h.withoutStart

end Call

/-! ## Writers

  The steps of a write may fail anywhere, and the process may die anywhere.  A writer is what comes of it, and
  possible are those that some such course of events brings about. -/

/-- What comes of writing records to a state file: a tree, and an error if the write has not come to its end. -/
abbrev Writer := Path → RecordTable → FileTree → FileTree × Option OsError

namespace Writer

/-- All steps are taken. -/
def steps : Writer := fun p records t => t.takeSteps (writeSteps p records)

/-- The steps are taken, or one of them fails or is cut short. -/
def Possible (w : Writer) : Prop :=
  ∀ p records t, w p records t = steps p records t ∨ ∃ u e, Left p t u ∧ w p records t = (u, some e)

/-- The steps one after the other are a possible writer. -/
theorem possible_steps : steps.Possible := fun _ _ _ => Or.inl rfl

end Writer

/-- `replace`, with any writer. -/
def replaceBy (w : Writer) (s : FingerprintStore) (records : RecordTable) (t : FileTree) :
    FingerprintStore × FileTree × Option BuildError :=
  match s.stateFile with
  | none => ({ s with records }, t, none)
  | some p =>
    match w p records t with
    | (t, none) => ({ s with records }, t, none)
    | (t, some e) => (s, t, some (.storeIo p e.message))

/-- A call, with any writer: the store and the tree after it, and its error. -/
def perform (w : Writer) (s : FingerprintStore) (t : FileTree) : Call → FingerprintStore × FileTree × Option BuildError
  | .record key fingerprint now => s.replaceBy w (s.records.insert key ⟨fingerprint, now⟩) t
  | .forget start =>
    if s.records.length - (s.records.withoutStart start).length = 0 then (s, t, none)
    else s.replaceBy w (s.records.withoutStart start) t

variable {p : Path} {s : FingerprintStore} {t u : FileTree} {w : Writer}

/-- With the steps as writer a store replaces its records as it does by itself. -/
theorem replaceBy_steps (records : RecordTable) : s.replaceBy .steps records t = s.replace records t := by
  rw [replaceBy, replace]
  cases s.stateFile with
  | none => rfl
  | some p =>
    rcases htaken : t.takeSteps (writeSteps p records) with ⟨u, _ | e⟩
    · have hsteps : Writer.steps p records t = (u, none) := htaken
      simp only [htaken, hsteps]
    · have hsteps : Writer.steps p records t = (u, some e) := htaken
      simp only [htaken, hsteps]

/-- So a call to record is the store's own. -/
theorem perform_record (key fingerprint : String) (now : Moment) :
    s.perform .steps t (.record key fingerprint now) = s.record key fingerprint now t := by
  rw [perform, record, replaceBy_steps]

/-- So is a call to forget. -/
theorem perform_forget (start : String) : s.perform .steps t (.forget start) =
    ((s.forget start t).1, (s.forget start t).2.1, match (s.forget start t).2.2 with
      | .ok _ => none
      | .error e => some e) := by
  rw [perform, forget]
  split
  · rfl
  · rw [replaceBy_steps]
    split <;> rename_i heq <;> rw [heq]

/-! ## One call

  A single call: it succeeds, and store and file have the changed records; or it fails, and both have the old ones. -/

/-- A store that was opened knows its file. -/
theorem stateFile_of_openFile (h : openFile p t = .ok s) : s.stateFile = some p ∧ s.records.IsTable := by
  rw [openFile] at h
  split at h
  · cases h
    exact ⟨rfl, isTable_decode _⟩
  · cases h
    exact ⟨rfl, RecordTable.isTable_nil⟩
  · cases h

/-- The place is fit for the state file, and the state file is opened as the store. -/
structure Kept (p : Path) (s : FingerprintStore) (t : FileTree) : Prop where
  /-- Its file stands where one can be. -/
  fits : Fits p t
  /-- Opening the file again gives the store. -/
  opened : openFile p t = .ok s

theorem Kept.replaceBy {records : RecordTable} (h : Kept p s t) (hw : w.Possible) (hrecords : records.IsTable) :
    ∃ s' t' error, s.replaceBy w records t = (s', t', error) ∧ Kept p s' t' ∧
      (error = none ∧ s'.records = records ∨ error ≠ none ∧ s' = s) := by
  obtain ⟨hfile, -⟩ := stateFile_of_openFile h.opened
  -- a write that has not come to its end, be it by itself or not
  have hleft {u : FileTree} {e : OsError} (hwrite : w p records t = (u, some e)) (hu : Left p t u) :
      ∃ s' t' error, s.replaceBy w records t = (s', t', error) ∧ Kept p s' t' ∧
        (error = none ∧ s'.records = records ∨ error ≠ none ∧ s' = s) := by
    obtain ⟨hfits, hopen⟩ := h.fits.left h.opened hu
    exact ⟨s, u, some (.storeIo p e.message), by rw [FingerprintStore.replaceBy, hfile]; dsimp only; rw [hwrite],
      ⟨hfits, hopen⟩, Or.inr ⟨nofun, rfl⟩⟩
  -- the writer takes its steps, which fail or come to their end, or it is interrupted
  rcases hw p records t with hsteps | ⟨u, e, hu, hwrite⟩
  · obtain ⟨u, e, htaken, hu⟩ | ⟨-, -, u, htaken, -⟩ := takeSteps_cases p records t
    · exact hleft (hsteps.trans htaken) hu
    · obtain ⟨hfits, hopen⟩ := h.fits.written h.opened hrecords htaken
      refine ⟨{ s with records }, u, none, ?_, ⟨hfits, ?_⟩, Or.inl ⟨rfl, rfl⟩⟩
      · rw [FingerprintStore.replaceBy, hfile]
        dsimp only
        rw [hsteps.trans htaken]
      · rw [hopen, hfile]
  · exact hleft hwrite hu

/-- **A call leaves a state file that is opened as the store it leaves**: it succeeds and changes the map, or fails and
    changes neither. -/
theorem Kept.perform (h : Kept p s t) (hw : w.Possible) (call : Call) :
    ∃ s' t' error, s.perform w t call = (s', t', error) ∧ Kept p s' t' ∧
      (error = none ∧ s'.load = call.apply s.load ∨ error ≠ none ∧ s' = s) := by
  -- every call replaces the records by those it changes them to
  have hchange : ∃ s' t' error, s.perform w t call = (s', t', error) ∧ Kept p s' t' ∧
      (error = none ∧ s'.records = call.change s.records ∨ error ≠ none ∧ s' = s) := by
    have hrecords := call.isTable_change (stateFile_of_openFile h.opened).2
    cases call with
    | record key fingerprint now => exact h.replaceBy hw hrecords
    | forget start =>
      rw [FingerprintStore.perform]
      split
      · rename_i hlength
        exact ⟨s, t, none, rfl, h, Or.inl ⟨rfl, (withoutStart_eq_of_length hlength).symm⟩⟩
      · exact h.replaceBy hw hrecords
  obtain ⟨s', t', error, hperform, hkept, hcases⟩ := hchange
  refine ⟨s', t', error, hperform, hkept, hcases.imp_left fun ⟨hnone, hrecords⟩ => ⟨hnone, ?_⟩⟩
  show (fun key => s'.records.lookup key) = _
  rw [hrecords]
  exact call.lookup_change s.records

/-! ## Histories

  Calls one after the other, between which the process may die.  Then memory is lost and the store is opened again,
  and it is the same store. -/

/-- A call, what its write comes to, and whether the process dies before the call returns. -/
structure Event where
  /-- What is asked for. -/
  call : Call
  /-- How it is written. -/
  writer : Writer
  /-- Whether the process dies afterwards. -/
  dies : Bool := false

/-- A store and the files, and the calls that have succeeded. -/
structure Course where
  /-- The store as it is in memory. -/
  store : FingerprintStore
  /-- The files. -/
  tree : FileTree
  /-- The calls that have succeeded. -/
  succeeded : List Call := []

namespace Course

/-- What comes of an event: after the death of the process the store is opened anew. -/
def happen (p : Path) (c : Course) (e : Event) : Except BuildError Course := do
  let (s, t, error) := c.store.perform e.writer c.tree e.call
  let succeeded := if error.isNone then c.succeeded ++ [e.call] else c.succeeded
  if e.dies then
    let s ← openFile p t
    pure { store := s, tree := t, succeeded }
  else pure { store := s, tree := t, succeeded }

/-- What comes of events, one after the other. -/
def follow (p : Path) (c : Course) (events : List Event) : Except BuildError Course := events.foldlM (happen p) c

/-- The map that calls make of another. -/
def applied (m : String → Option FingerprintRecord) (calls : List Call) : String → Option FingerprintRecord :=
  calls.foldl Call.apply m

/-- Store and file agree, and the store is what the calls that succeeded have made of a map. -/
structure Sound (p : Path) (m : String → Option FingerprintRecord) (c : Course) : Prop where
  /-- The file and the store agree. -/
  kept : Kept p c.store c.tree
  /-- The store holds what these calls make of the records from the start. -/
  loads : c.store.load = applied m c.succeeded

variable {c : Course} {m : String → Option FingerprintRecord}

/-- A call leaves the store that it says, also when the process dies: opened anew it is the same. -/
theorem happen_of_perform {e : Event} {s : FingerprintStore} {error : Option BuildError}
    (hperform : c.store.perform e.writer c.tree e.call = (s, t, error)) (hopen : openFile p t = .ok s) :
    c.happen p e = .ok ⟨s, t, if error.isNone then c.succeeded ++ [e.call] else c.succeeded⟩ := by
  rw [happen, hperform]
  dsimp only
  rw [hopen]
  exact ite_self _

/-- An event can be followed, and store and file agree after it. -/
theorem Sound.happen {e : Event} (h : c.Sound p m) (he : e.writer.Possible) :
    ∃ c', c.happen p e = .ok c' ∧ c'.Sound p m := by
  obtain ⟨s, t, error, hperform, hkept, hcases⟩ := h.kept.perform he e.call
  refine ⟨_, happen_of_perform hperform hkept.opened, hkept, ?_⟩
  rcases hcases with ⟨rfl, hload⟩ | ⟨hne, rfl⟩
  · rw [hload, h.loads]
    exact (List.foldl_concat ..).symm
  · rw [if_neg fun hnone => hne (Option.isNone_iff_eq_none.mp hnone)]
    exact h.loads

/-- Any events lead on from there. -/
theorem Sound.follow {events : List Event} (h : c.Sound p m) (hevents : ∀ e ∈ events, e.writer.Possible) :
    ∃ c', c.follow p events = .ok c' ∧ c'.Sound p m := by
  induction events generalizing c with
  | nil => exact ⟨c, rfl, h⟩
  | cons e rest ih =>
    obtain ⟨next, hnext, hsound⟩ := h.happen (hevents e List.mem_cons_self)
    obtain ⟨c', hfollow, hsound'⟩ := ih hsound fun e he => hevents e (List.mem_cons_of_mem _ he)
    refine ⟨c', ?_, hsound'⟩
    rw [Course.follow, List.foldlM_cons, hnext]
    exact hfollow

end Course

open Course

/-- **What is recorded lasts.**  After any events, store and file agree, and the store is what the calls that succeeded
    have made of it.  So it is after the next call: one that succeeds changes the map, one that fails changes neither
    store nor file, and if the process dies, the store is opened with the map before the call or with that after it. -/
theorem store_persists {events : List Event} (hfits : Fits p t) (hopen : openFile p t = .ok s)
    (hevents : ∀ e ∈ events, e.writer.Possible) :
    ∃ c, follow p { store := s, tree := t } events = .ok c ∧ openFile p c.tree = .ok c.store ∧
      c.store.load = applied s.load c.succeeded ∧
      ∀ (call : Call) (w : Writer), w.Possible →
        (∃ s' t' error, c.store.perform w c.tree call = (s', t', error) ∧ openFile p t' = .ok s' ∧
          (error = none → s'.load = call.apply c.store.load) ∧
          (error ≠ none → s' = c.store ∧ openFile p t' = openFile p c.tree)) ∧
        ∃ c', c.happen p { call, writer := w, dies := true } = .ok c' ∧ openFile p c'.tree = .ok c'.store ∧
          (c'.store.load = c.store.load ∨ c'.store.load = call.apply c.store.load) := by
  -- opening gives what was in the file, and each event keeps that
  have hstart : Sound p s.load { store := s, tree := t } := ⟨⟨hfits, hopen⟩, rfl⟩
  obtain ⟨c, hfollow, hsound⟩ := hstart.follow hevents
  refine ⟨c, hfollow, hsound.kept.opened, hsound.loads, fun call w hw => ?_⟩
  obtain ⟨s', t', error, hperform, hkept, hcases⟩ := hsound.kept.perform hw call
  refine ⟨⟨s', t', error, hperform, hkept.opened, ?_, ?_⟩, ?_⟩
  · intro hnone
    exact (hcases.resolve_right fun ⟨hne, _⟩ => hne hnone).2
  · intro hne
    obtain ⟨-, rfl⟩ := hcases.resolve_left fun ⟨hnone, _⟩ => hne hnone
    exact ⟨rfl, hkept.opened.trans hsound.kept.opened.symm⟩
  · refine ⟨_, happen_of_perform (e := ⟨call, w, true⟩) hperform hkept.opened, hkept.opened, ?_⟩
    rcases hcases with ⟨-, hload⟩ | ⟨-, rfl⟩
    · exact Or.inr hload
    · exact Or.inl rfl

/-! ## A torn write, and places that are not fit

  What may go wrong and what may not: a torn write loses nothing, and in a place that does not fit records are lost. -/

/-- The process dies, or the disk is full, when nothing of the temporary file has been written. -/
def torn : Writer := fun p records t =>
  match t.makeWithin (outerDirectories p) with
  | (_, some _) => Writer.steps p records t
  | (u, none) =>
    match u.write (temporaryFile p) [] false with
    | .error _ => Writer.steps p records t
    | .ok v => (v, some .permissionDenied)

/-- A torn write is possible. -/
theorem possible_torn : torn.Possible := by
  intro p records t
  rw [torn]
  split
  · exact Or.inl rfl
  · rename_i u hdirs
    split
    · exact Or.inl rfl
    · rename_i v hwrite
      exact Or.inr ⟨v, _, .temporary [] hdirs hwrite, rfl⟩

/-- A moment of the year 2026, to the nanosecond. -/
def noon : Moment := ⟨⟨740000, 43200, 5⟩, by decide, by decide, by decide⟩

/-- A place in an empty directory. -/
theorem fits_empty : Fits ⟨"s.json"⟩ {} := by
  have hmissing (here : Location) (name : String) : FileTree.get? {} (here ++ [name]) = none :=
    if_neg (List.append_ne_nil_of_right_ne_nil _ (List.cons_ne_nil _ _))
  refine fits_of_not_link (fun loc name e h => ?_) (Or.inr (by with_unfolding_all decide)) fun here name _ _ => ⟨?_, ?_⟩
  · rw [hmissing] at h
    cases h
  · rw [hmissing]
    nofun
  · rw [hmissing]
    nofun

/-- A record is written, and the write of another is torn. -/
def interrupted : List Event :=
  [{ call := .record "k" "f" noon, writer := .steps }, { call := .record "k" "g" noon, writer := torn }]

theorem store_persists_interrupted :
    ∃ c, follow ⟨"s.json"⟩ { store := { stateFile := some ⟨"s.json"⟩ }, tree := {} } interrupted = .ok c ∧
      openFile ⟨"s.json"⟩ c.tree = .ok c.store ∧ c.store.load "k" = some ⟨"f", noon⟩ ∧
      ∃ c', c.happen ⟨"s.json"⟩ { call := .forget "", writer := torn, dies := true } = .ok c' ∧
        (c'.store.load "k" = some ⟨"f", noon⟩ ∨ c'.store.load "k" = none) := by
  -- the first call is carried out, the second is torn
  have hevents : ∀ e ∈ interrupted, e.writer.Possible := by
    intro e he
    rcases List.mem_cons.mp he with rfl | he
    · dsimp only
      exact Writer.possible_steps
    · cases List.mem_singleton.mp he
      dsimp only
      exact possible_torn
  have hopen : openFile ⟨"s.json"⟩ {} = .ok { stateFile := some ⟨"s.json"⟩ } := openFile_missing (by decide +kernel)
  obtain ⟨c, hfollow, hagree, -, hnext⟩ := store_persists fits_empty hopen hevents
  obtain ⟨-, c', hdies, -, hloads⟩ := hnext (.forget "") torn possible_torn
  have hload : c.store.load "k" = some ⟨"f", noon⟩ := by
    have heval : ((follow ⟨"s.json"⟩ { store := { stateFile := some ⟨"s.json"⟩ }, tree := {} } interrupted).toOption.map
        fun c => c.store.load "k") = some (some ⟨"f", noon⟩) := by decide +kernel
    rw [hfollow] at heval
    exact Option.some.inj heval
  refine ⟨c, hfollow, hagree, hload, c', hdies, hloads.imp (fun h => ?_) fun h => ?_⟩
  · rw [h, hload]
  · rw [h]
    rfl

/-- The temporary file is a link to the state file. -/
def linked : FileTree := { entries := [(["s.json.tmp"], .link "s.json")] }

/-- The state file is a link to the temporary file. -/
def aliased (content : Bytes) : FileTree := { entries :=
  [(["s.json.tmp"], .file content .plain), (["s.json"], .link "s.json.tmp")] }

/-- The file has its content under its other name. -/
theorem read_aliased (content : Bytes) : (aliased content).read ⟨"s.json"⟩ = .ok content := by
  have hplace : (aliased content).locate ⟨"s.json"⟩ true = .ok ["s.json.tmp"] := by
    with_unfolding_all rfl
  exact read_of_file hplace rfl nofun

/-- **Records are lost in places that are not fit.**  A directory is made in the place of the state file, which the call
    that fails leaves there; a link takes its place in a call that succeeds; or what was recorded is gone with the first
    step of the write. -/
theorem records_lost :
    (∃ s, openFile ⟨"a/../a"⟩ {} = .ok s ∧ (s.record "k" "f" noon {}).2.2 ≠ none ∧
      ∀ s', openFile ⟨"a/../a"⟩ (s.record "k" "f" noon {}).2.1 ≠ .ok s') ∧
    (∃ s, openFile ⟨"s.json"⟩ linked = .ok s ∧ (s.record "k" "f" noon linked).2.2 = none ∧
      ∀ s', openFile ⟨"s.json"⟩ (s.record "k" "f" noon linked).2.1 ≠ .ok s') ∧
    ∃ s t u s', openFile ⟨"s.json"⟩ t = .ok s ∧ s.load "k" = some ⟨"f", noon⟩ ∧ Left ⟨"s.json"⟩ t u ∧
      openFile ⟨"s.json"⟩ u = .ok s' ∧ s'.load "k" = none := by
  -- a directory in the way, a loop of links, and a temporary file that is the file itself
  refine ⟨⟨_, openFile_missing (by decide +kernel), ?_, fun s' => ?_⟩,
    ⟨_, openFile_missing (by decide +kernel), ?_, fun s' => ?_⟩, ?_⟩
  · exact Option.isSome_iff_ne_none.mp (by decide +kernel)
  · exact not_openFile (e := .isDirectory) (by decide +kernel) nofun
  · exact Option.isNone_iff_eq_none.mp (by decide +kernel)
  · exact not_openFile (e := .tooManyLinks) (by decide +kernel) nofun
  · have htable : RecordTable.IsTable [("k", ⟨"f", noon⟩)] := RecordTable.isTable_nil.insert noon.property
    have hwrite (content : Bytes) :
        (aliased content).write (temporaryFile ⟨"s.json"⟩) [] false = .ok (aliased []) := by
      have hplace : (aliased content).locate (temporaryFile ⟨"s.json"⟩) true = .ok ["s.json.tmp"] := by
        with_unfolding_all rfl
      rw [FileTree.write, hplace]
      rfl
    have houter : outerDirectories ⟨"s.json"⟩ = [] := by decide +kernel
    refine ⟨_, aliased (Utf8.encode (encode [("k", ⟨"f", noon⟩)])), aliased [], { stateFile := some ⟨"s.json"⟩ },
      openFile_written htable (read_aliased _), rfl, .temporary [] (by rw [houter]; rfl) (hwrite _), ?_, rfl⟩
    rw [openFile, readText, read_aliased]
    rfl

end Wheelwright.FingerprintStore
