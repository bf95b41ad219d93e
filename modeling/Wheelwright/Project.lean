/-
  Projects — what a `pyproject.toml` says about how to build.

  **Program** — a project names its build backend, what the backend needs, where a backend of the
  project's own lies, and maybe its name and version.

  **Refused** — a file that is no TOML, one without a build system or without a backend, lists that
  hold anything but strings, and a backend that lies outside the project.
-/
import Wheelwright.Config
import Wheelwright.FileTree.Operations
import Wheelwright.Toml.Reader

namespace Wheelwright

/-- What a project file says. -/
structure Project where
  path : Path
  buildBackend : String
  requires : List String
  backendPath : List Path
  name : Option String
  version : Option String
  deriving DecidableEq

namespace Project

/-- The name of project files. -/
def fileName : String := "pyproject.toml"

/-- The directory of the project. -/
def root (p : Project) : Path := p.path.parent?.getD ⟨"."⟩

/-- The list of strings under `key`; no list when there is no such key. -/
def stringList (key : String) (t : Toml.Entries) : Except BuildError (List String) :=
  match t.lookup key with
  | none => .ok []
  | some v =>
    match v.array?.bind (·.mapM Toml.Value.string?) with
    | some strings => .ok strings
    | none => .error (.notPep517 (key ++ " must be a list of strings"))

/-- The path leads out of the directory that it starts from. -/
def leavesRoot (p : Path) : Bool := p.components.any fun c => c = .parent || c = .root

/-- The path of a backend, if it stays inside the project. -/
def containedPath (raw : String) : Except BuildError Path :=
  if leavesRoot ⟨raw⟩ then
    .error (.notPep517 ("backend-path '" ++ raw ++ "' must stay inside the project root"))
  else .ok ⟨raw⟩

/-- The project that a document describes. -/
def ofTable (path : Path) (t : Toml.Entries) : Except BuildError Project := do
  let some system := (t.lookup "build-system").bind Toml.Value.table?
    | throw (.notPep517 "missing [build-system] table")
  let some buildBackend := (system.lookup "build-backend").bind Toml.Value.string?
    | throw (.notPep517 "missing build-backend key")
  let requires ← stringList "requires" system
  let backendPath ← (← stringList "backend-path" system).mapM containedPath
  let described (key : String) : Option String := do
    let project ← (t.lookup "project").bind Toml.Value.table?
    (project.lookup key).bind Toml.Value.string?
  return {
    path, buildBackend, requires, backendPath
    name := described "name"
    version := described "version" }

/-- The project that the text of the file at `path` describes. -/
def parse (path : Path) (text : String) : Except BuildError Project :=
  match Toml.parse? text with
  | none => .error .invalidToml
  | some t => ofTable path t

/-- The project file that a path leads to: the file itself, or the one in a directory. -/
def discover (p : Path) (t : FileTree) : Except BuildError Path :=
  let file := if t.isDirectory p then p.child fileName else p
  if t.isFile file then .ok file
  else .error (.plan (.configUnreadable file ("no " ++ fileName ++ " found")))

/-- The project of a project file. -/
def load (p : Path) (t : FileTree) : Except BuildError Project :=
  match t.readText p with
  | .ok text => parse p text
  | .error e => .error (.plan (.configUnreadable p e.message))

end Project

namespace TargetConfig

/-- The configuration that a TOML text writes. -/
def parse (text : String) : Except BuildError TargetConfig :=
  match (Toml.parse? text).bind fun t => TargetConfig.read? (.object []) (.object (Toml.entriesJson t)) with
  | some c => .ok c
  | none => .error .invalidConfig

/-- The configuration of a TOML file, its project file seen from the directory of that file. -/
def load (p : Path) (t : FileTree) : Except BuildError TargetConfig :=
  match t.readText p with
  | .ok text => (parse text).map (·.relativeTo p)
  | .error e => .error (.io e.message)

end TargetConfig

end Wheelwright
