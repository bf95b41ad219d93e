/-
  Fingerprint stores — records that last for a run, or in a state file.

  **Program** — a store looks up, adds and removes records.  A store with a state file rewrites the
  whole file on every change: it makes the directories, writes a temporary file beside the state
  file, and renames it.  The change is seen in the store only when all of that succeeded, so that
  store and file agree.

  A state file that is missing or holds anything but records is an empty store; one that cannot be
  read as text is an error.
-/
import Wheelwright.FileTree.Operations
import Wheelwright.Fingerprint
import Wheelwright.Json.Printer
import Wheelwright.Json.Reader

namespace Wheelwright

/-- Records, and the state file that they last in, if there is one. -/
structure FingerprintStore where
  stateFile : Option Path := none
  records : RecordTable := []
  deriving Inhabited

namespace FingerprintStore

/-- The records that a state file's text holds; any other text holds none. -/
def decode (text : String) : RecordTable := ((Json.parse? text).bind RecordTable.ofJson?).getD []

/-- The text of a state file. -/
def encode (records : RecordTable) : String := records.toJson.pretty

/-- The store of a state file. -/
def openFile (p : Path) (t : FileTree) : Except BuildError FingerprintStore :=
  match t.readText p with
  | .ok text => .ok { stateFile := some p, records := decode text }
  | .error .notFound => .ok { stateFile := some p }
  | .error e => .error (.storeIo p e.message)

/-! ## Writing the state file -/

/-- The file that is written before it takes the place of the state file. -/
def temporaryFile (p : Path) : Path := p.withExtension "json.tmp"

/-- What is done one after the other to write records to a state file. -/
def writeSteps (p : Path) (records : RecordTable) : List (FileTree → FileTree × Option OsError) :=
  [fun t => t.makeAll (p.parent?.getD ⟨""⟩),
    (·.attempt (·.write (temporaryFile p) (Utf8.encode (encode records)) false)),
    (·.attempt (·.rename (temporaryFile p) p))]

/-- A store that is to hold other records: the store and the tree after that, and the error if the
    state file could not be written. -/
def replace (s : FingerprintStore) (records : RecordTable) (t : FileTree) :
    FingerprintStore × FileTree × Option BuildError :=
  match s.stateFile with
  | none => ({ s with records }, t, none)
  | some p =>
    match t.takeSteps (writeSteps p records) with
    | (t, none) => ({ s with records }, t, none)
    | (t, some e) => (s, t, some (.storeIo p e.message))

/-! ## Records -/

/-- The record under a key. -/
def load (s : FingerprintStore) (key : String) : Option FingerprintRecord := s.records.lookup key

/-- Notes a fingerprint under a key. -/
def record (s : FingerprintStore) (key fingerprint : String) (now : Timestamp) (t : FileTree) :
    FingerprintStore × FileTree × Option BuildError :=
  s.replace (s.records.insert key ⟨fingerprint, now⟩) t

/-- Removes the records whose keys start with `start`, and tells how many there were. -/
def forget (s : FingerprintStore) (start : String) (t : FileTree) :
    FingerprintStore × FileTree × Except BuildError Nat :=
  let kept := s.records.withoutStart start
  let removed := s.records.length - kept.length
  if removed = 0 then (s, t, .ok 0)
  else
    match s.replace kept t with
    | (s, t, none) => (s, t, .ok removed)
    | (s, t, some e) => (s, t, .error e)

/-! ## Small laws -/

theorem load_replace_of_none (s : FingerprintStore) (records : RecordTable) (t : FileTree)
    (h : s.stateFile = none) (key : String) :
    (s.replace records t).1.load key = records.lookup key := by
  simp [replace, h, load]

end FingerprintStore

end Wheelwright
