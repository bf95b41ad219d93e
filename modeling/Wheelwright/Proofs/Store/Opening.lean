/-
  Opening a state file — what its content decides.

  **Specification** — a state file with a text is opened, whatever the text is.  If it is a map of records the store
  holds these, and otherwise none; and a target whose configuration names the file can be made exactly if it can be made
  with no state file.

  **Program** — the content is decoded to a text, and the text is read as records.  Only the second step has an answer
  for what goes wrong in it.

  **The crux** — there are octets that are no text, and such a file is an error (`openFile_of_not_text`): nothing is
  opened, and no target is made (`unopened_of_no_text`).
-/
import Wheelwright.Proofs.Store.Contents
import Wheelwright.Proofs.Store.Steps
import Wheelwright.Proofs.Target.Clients
import Wheelwright.Proofs.Text.Strict

namespace Wheelwright

/-! ## The store

  The two steps of opening: octets to a text, and a text to records. -/

namespace FingerprintStore

variable {p : Path} {t : FileTree} {bytes : Bytes} {text : String} {table : RecordTable}

/-- A store with a text has the records of that text. -/
theorem openFile_of_text (h : t.read p = .ok (Utf8.encode text)) :
    openFile p t = .ok { stateFile := some p, records := decode text } := by
  have htext : t.readText p = .ok text := by
    rw [FileTree.readText, h]
    dsimp only [bind, Except.bind]
    rw [Utf8.decode?_encode]
  rw [openFile, htext]

/-- **Octets that are no text cannot be opened.** -/
theorem openFile_of_not_text (h : t.read p = .ok bytes) (hbytes : ∀ text, bytes ≠ Utf8.encode text) :
    openFile p t = .error (.storeIo p "stream did not contain valid UTF-8") := by
  have htext : t.readText p = .error .invalidUtf8 := by
    rw [FileTree.readText, h]
    dsimp only [bind, Except.bind]
    rw [Utf8.decode?_eq_none_iff.mpr hbytes]
  rw [openFile, htext]
  rfl

end FingerprintStore

/-! ## Targets

  Whether a target can be made does not depend on the records of its store.  So two ways to get a store are compared
  by whether there is one. -/

/-- The configuration with no state file. -/
def TargetConfig.withoutStateFile (c : TargetConfig) : TargetConfig :=
  { c with pipeline := { c.pipeline with stateFile := none } }

/-- Whether there is a value, and else the error. -/
def verdict {α : Type} (x : Except BuildError α) : Except BuildError Unit := x.map fun _ => ()

/-- What is made of every value makes no error. -/
theorem verdict_bind {α β : Type} (x : Except BuildError α) {f : α → Except BuildError β}
    (hf : ∀ a, verdict (f a) = .ok ()) : verdict (x >>= f) = verdict x := by
  cases x with
  | error e => rfl
  | ok a => exact hf a

namespace BuildTarget

variable (c : TargetConfig) (file : Path) (v : TargetServices) (tree : FileTree) (host : HostGraph)

/-- The state file is not looked at when a target is planned. -/
theorem verdict_configure : verdict (configure c.withoutStateFile file v tree) = verdict (configure c file v tree) := by
  -- the two differ in the state file only, which neither the project nor the plan asks for
  rw [configure, configure]
  cases Project.load file tree with
  | error e => rfl
  | ok project =>
    show verdict (backendFor c project v >>= _) = verdict (backendFor c project v >>= _)
    cases backendFor c project v with
    | error e => rfl
    | ok b =>
      show verdict (TargetStages.declare c project b v >>= _) = verdict (TargetStages.declare c project b v >>= _)
      cases TargetStages.declare c project b v with
      | error e => rfl
      | ok stages =>
        have hplan : ∀ config, Pipeline.build pipelineName (stages.map (·.1)) config =
            (plan (stages.map (·.1))).map fun plan => ⟨pipelineName, stages.map (·.1), plan, config, none⟩ :=
          fun _ => rfl
        dsimp only [bind, Except.bind]
        rw [hplan, hplan]
        cases plan (stages.map (·.1)) with
        | error e => rfl
        | ok plan => rfl

/-- So does what comes of creating a target. -/
theorem verdict_create :
    verdict (create c.withoutStateFile file v tree host) = verdict (create c file v tree host) := by
  rw [create, create, verdict_bind _ fun _ => rfl, verdict_bind _ fun _ => rfl]
  exact verdict_configure c file v tree

end BuildTarget

namespace TargetSession

variable {c : TargetConfig} {s : TargetSession} {p : Path}

/-- The session with one more store, whose target is made with it. -/
def withStore (s : TargetSession) (store : FingerprintStore) : TargetSession :=
  { s with world := { s.world with stores := s.world.stores ++ [store] } }

/-- How a target is made once its store is there. -/
def createWith (s : TargetSession) (c : TargetConfig) (backends : BackendRegistry) (classifiers : ClassifierRegistry)
    (store : FingerprintStore) : Except BuildError TargetSession := do
  let file ← Project.discover c.projectFile s.world.tree
  let services := { backends, classifiers, store := s.world.stores.length }
  let (t, host) ← BuildTarget.create c file services s.world.tree s.host
  let s := s.withStore store
  return { s with target := some t, host, world := { s.world with run := none } }

/-- A target with a state file gets the store that was opened. -/
theorem create_of_openFile {store : FingerprintStore} (hfile : c.pipeline.stateFile = some p)
    (hopen : FingerprintStore.openFile p s.world.tree = .ok store) (backends : BackendRegistry)
    (classifiers : ClassifierRegistry) :
    s.create c backends classifiers none = s.createWith c backends classifiers store := by
  have hstore : s.storeFor c none = .ok (s.withStore store, s.world.stores.length) := by
    rw [storeFor, hfile]
    dsimp only
    rw [hopen]
    rfl
  rw [create, createWith, hstore]
  rfl

/-- A target without one gets an empty store. -/
theorem create_of_no_file (hfile : c.pipeline.stateFile = none) (backends : BackendRegistry)
    (classifiers : ClassifierRegistry) :
    s.create c backends classifiers none = s.createWith c backends classifiers {} := by
  have hstore : s.storeFor c none = .ok (s.withStore {}, s.world.stores.length) := by
    rw [storeFor, hfile]
    rfl
  rw [create, createWith, hstore]
  rfl

/-- The state file and its store make no difference to whether there is a target. -/
theorem verdict_createWith (s : TargetSession) (c : TargetConfig) (backends : BackendRegistry)
    (classifiers : ClassifierRegistry) (store : FingerprintStore) :
    verdict (s.createWith c backends classifiers store) =
      verdict (s.createWith c.withoutStateFile backends classifiers {}) := by
  rw [createWith, createWith]
  show verdict (Project.discover c.projectFile s.world.tree >>= _) =
    verdict (Project.discover c.projectFile s.world.tree >>= _)
  cases Project.discover c.projectFile s.world.tree with
  | error e => rfl
  | ok file =>
    have hcreate := BuildTarget.verdict_create c file { backends, classifiers, store := s.world.stores.length }
      s.world.tree s.host
    show verdict (BuildTarget.create c file _ s.world.tree s.host >>= _) =
      verdict (BuildTarget.create c.withoutStateFile file _ s.world.tree s.host >>= _)
    rw [verdict_bind _ fun _ => rfl, verdict_bind _ fun _ => rfl]
    exact hcreate.symm

/-- A target that was created has put its store among those of the session. -/
theorem stores_of_createWith {s' : TargetSession} {backends : BackendRegistry} {classifiers : ClassifierRegistry}
    {store : FingerprintStore} (h : s.createWith c backends classifiers store = .ok s') :
    s'.world.stores = s.world.stores ++ [store] := by
  obtain ⟨file, -, h⟩ := exists_of_bind_eq_ok h
  obtain ⟨⟨t, host⟩, -, h⟩ := exists_of_bind_eq_ok h
  cases h
  rfl

end TargetSession

/-! ## Any content

  For every text and every target that names the file. -/

namespace FingerprintStore

/-- **What the content of a state file decides.**  A file with a text is opened: as the map of records that the text is,
    and with no records if it is none.  In a configuration it decides what the store of a target holds, and not whether
    there is a target. -/
theorem openFile_content {p : Path} {t : FileTree} {bytes : Bytes} {text : String} (h : t.read p = .ok bytes)
    (htext : bytes = Utf8.encode text) :
    ∃ records : RecordTable, openFile p t = .ok { stateFile := some p, records } ∧
      (∀ table : RecordTable, table.SpelledBy text → records = table) ∧
      ((∀ table : RecordTable, ¬ table.SpelledBy text) → records = []) ∧
      ∀ (s : TargetSession) (c : TargetConfig) backends classifiers, s.world.tree = t → c.pipeline.stateFile = some p →
        verdict (s.create c backends classifiers none) =
            verdict (s.create c.withoutStateFile backends classifiers none) ∧
          ∀ s', s.create c backends classifiers none = .ok s' →
            s'.world.stores = s.world.stores ++ [{ stateFile := some p, records }] := by
  subst htext
  have hopen := openFile_of_text h
  refine ⟨decode text, hopen, fun table ht => decode_of_spelledBy ht, decode_of_not_spelledBy, ?_⟩
  rintro s c backends classifiers rfl hfile
  rw [TargetSession.create_of_openFile hfile hopen, TargetSession.create_of_no_file rfl]
  constructor
  -- what becomes of a target does not depend on what the store holds
  · exact TargetSession.verdict_createWith s c backends classifiers _
  · intro s' hs'
    exact TargetSession.stores_of_createWith hs'

/-! ## Spoilt files

  A file that has lost part of its content, and one that is no text any more. -/

/-- A project in the directory `proj`, and a state file. -/
def stateTree (content : Bytes) : FileTree where
  entries := [(["proj"], .directory), (["proj", "pyproject.toml"], .file (Utf8.encode
    "[build-system]\nrequires = []\nbuild-backend = \"setuptools.build_meta\"\n") .plain),
    (["s.json"], .file content .plain)]

/-- A target whose records stand in a file of its own. -/
def stateConfig : TargetConfig := { projectFile := ⟨"proj"⟩, pipeline := { stateFile := some ⟨"s.json"⟩ } }

/-- A session in which that file has this content. -/
def stateSession (content : Bytes) : TargetSession := { world := { tree := stateTree content, today := default } }

/-- A map whose record has no moment. -/
def spoiltText : String := "\x7b\"k\": \x7b\"fingerprint\": \"f\", \"recorded_at\": \"noon\"\x7d\x7d"

/-- A file that was spoilt in its last layer is opened with no records, and a target is made with it. -/
theorem openFile_content_spoilt :
    (stateTree (Utf8.encode spoiltText)).read ⟨"s.json"⟩ = .ok (Utf8.encode spoiltText) ∧
      openFile ⟨"s.json"⟩ (stateTree (Utf8.encode spoiltText)) = .ok { stateFile := some ⟨"s.json"⟩, records := [] } ∧
      verdict ((stateSession (Utf8.encode spoiltText)).create stateConfig .standard .standard none) = .ok () := by
  have hread : (stateTree (Utf8.encode spoiltText)).read ⟨"s.json"⟩ = .ok (Utf8.encode spoiltText) := by decide +kernel
  obtain ⟨records, hopen, -, hnone, hcreate⟩ := openFile_content hread rfl
  have hspoilt : ∀ table : RecordTable, ¬ table.SpelledBy spoiltText := by
    have hdecode : (Json.parse? spoiltText).bind RecordTable.ofJson? = none := by decide +kernel
    intro table htable
    rw [RecordTable.spelledBy_iff, hdecode] at htable
    cases htable
  have hmade : verdict ((stateSession (Utf8.encode spoiltText)).create stateConfig.withoutStateFile .standard .standard
      none) = .ok () := by
    decide +kernel
  refine ⟨hread, ?_, ?_⟩
  · rw [hopen, hnone hspoilt]
  · rw [(hcreate (stateSession _) stateConfig .standard .standard rfl rfl).1, hmade]

/-- **A spoilt file that costs more than a rebuild**: an octet that no text has.  The file can be read, and is not
    opened; no target is made with it, though one is made without. -/
theorem unopened_of_no_text :
    (stateTree [0xFF]).read ⟨"s.json"⟩ = .ok [0xFF] ∧
      (¬ ∃ store, openFile ⟨"s.json"⟩ (stateTree [0xFF]) = .ok store) ∧
      verdict ((stateSession [0xFF]).create stateConfig .standard .standard none) =
        .error (.storeIo ⟨"s.json"⟩ "stream did not contain valid UTF-8") ∧
      verdict ((stateSession [0xFF]).create stateConfig.withoutStateFile .standard .standard none) = .ok () := by
  have hread : (stateTree [0xFF]).read ⟨"s.json"⟩ = .ok [0xFF] := by decide +kernel
  have hoctets : ∀ text, [0xFF] ≠ Utf8.encode text := Utf8.decode?_eq_none_iff.mp rfl
  refine ⟨hread, ?_, by decide +kernel, by decide +kernel⟩
  rintro ⟨store, hopen⟩
  rw [openFile_of_not_text hread hoctets] at hopen
  cases hopen

end FingerprintStore

end Wheelwright
