/-
  Build artifacts — files that a build leaves, told apart by their names.
-/
import Wheelwright.Json.Record
import Wheelwright.Path

namespace Wheelwright

/-- The kind of a file that a build left. -/
inductive ArtifactKind where
  | wheel
  | sdist
  | file
  deriving DecidableEq

namespace ArtifactKind

def name : ArtifactKind → String
  | .wheel => "wheel"
  | .sdist => "sdist"
  | .file => "file"

def ofName? (s : String) : Option ArtifactKind :=
  [ArtifactKind.wheel, .sdist, .file].find? fun x => x.name = s

/-- The kind that a file name shows. -/
def ofFileName (s : String) : ArtifactKind :=
  if s.endsWith ".whl" then .wheel else if s.endsWith ".tar.gz" then .sdist else .file

def toJson (k : ArtifactKind) : Json := .string k.name

def ofJson? (j : Json) : Option ArtifactKind := (Json.variant? .null j).bind ofName?

end ArtifactKind

/-- A file that a build left. -/
structure Artifact where
  path : Path
  kind : ArtifactKind
  deriving DecidableEq

namespace Artifact

/-- The artifact at `path`. -/
def ofPath (path : Path) : Artifact := ⟨path, ArtifactKind.ofFileName (path.fileName?.getD "")⟩

/-- The last name of its path; empty when there is none. -/
def fileName (a : Artifact) : String := a.path.fileName?.getD ""

def toJson (a : Artifact) : Json := .object [("path", .string a.path.text), ("kind", a.kind.toJson)]

def ofJson? (j : Json) : Option Artifact := do
  let r ← Json.record? ["path", "kind"] j
  let path ← r.required "path" Json.text?
  let kind ← r.required "kind" ArtifactKind.ofJson?
  some ⟨⟨path⟩, kind⟩

end Artifact

end Wheelwright
