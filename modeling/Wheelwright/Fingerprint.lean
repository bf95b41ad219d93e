/-
  Fingerprints — what a build was made from, and when that was noted.

  A record keeps the digest of a stage's inputs and the moment it was noted.  Records are kept under
  keys made of the configuration file and the stage's own key.
-/
import Wheelwright.Json.Record
import Wheelwright.Path
import Wheelwright.Timestamp

namespace Wheelwright

/-- A digest and when it was recorded. -/
structure FingerprintRecord where
  fingerprint : String
  recordedAt : Timestamp
  deriving DecidableEq, Inhabited

namespace FingerprintRecord

def toJson (r : FingerprintRecord) : Json :=
  .object [("fingerprint", .string r.fingerprint), ("recorded_at", .string r.recordedAt.text)]

def ofJson? (j : Json) : Option FingerprintRecord := do
  let r ← Json.record? ["fingerprint", "recorded_at"] j
  let fingerprint ← r.required "fingerprint" Json.text?
  let moment ← r.required "recorded_at" Json.text?
  let recordedAt ← Timestamp.parse? moment
  some { fingerprint, recordedAt }

end FingerprintRecord

/-- The key of a stage's record. -/
def storeKey (configFile : Path) (stageKey : String) : String := configFile.text ++ "#" ++ stageKey

/-! ## Tables of records -/

/-- Records by key, in the order of the keys. -/
abbrev RecordTable := List (String × FingerprintRecord)

namespace RecordTable

/-- The table with a record under `key`, in its place in the order. -/
def insert (key : String) (r : FingerprintRecord) : RecordTable → RecordTable
  | [] => [(key, r)]
  | (k, old) :: rest =>
    if k = key then (key, r) :: rest
    else if key < k then (key, r) :: (k, old) :: rest
    else (k, old) :: insert key r rest

/-- The records whose keys do not start with `start`. -/
def withoutStart (start : String) (t : RecordTable) : RecordTable :=
  t.filter fun e => !start.toList.isPrefixOf e.1.toList

def toJson (t : RecordTable) : Json := .object (t.map fun e => (e.1, e.2.toJson))

/-- The table that an object writes; of a repeated key the last record counts. -/
def ofJson? : Json → Option RecordTable
  | .object fields =>
    (Json.readAll (fun f => (FingerprintRecord.ofJson? f.2).map fun r => (f.1, r)) fields).map
      fun entries => entries.foldl (fun t e => insert e.1 e.2 t) []
  | _ => none

end RecordTable

end Wheelwright
