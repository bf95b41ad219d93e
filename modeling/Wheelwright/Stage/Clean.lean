/-
  Clean stages — emptying a build directory.

  **Program** — the entries of the directory are removed one by one, in order of their names; the
  directory itself stays.  Before each entry the stage looks whether it was told to stop, and the
  first entry that cannot be removed ends it.  A directory that is not there is clean.
-/
import Wheelwright.FileTree.Operations
import Wheelwright.Result

namespace Wheelwright

/-- A stage that empties a directory. -/
structure CleanStage where
  name : String
  buildDir : Path

namespace CleanStage

/-- What is said about an entry that is going to be removed. -/
def notice (name : String) (isDirectory : Bool) : Diagnostic :=
  .info ("deleting " ++ name ++ if isDirectory then " directory tree" else "")

/-- The result of a stage that could not go on. -/
def failed (s : CleanStage) (kind : FailureKind) (message : String) (said : List Diagnostic) :
    StageResult :=
  .ofFailure { stage := s.name, kind, message } said .zero

/-- Removes entries; `stopped` gives the reason to stop before the entry of that number.  What `remove` could not remove
    it may have removed in part. -/
def sweep (s : CleanStage) (remove : FileTree → Path → FileTree × Option OsError)
    (stopped : Nat → Option String) :
    List (String × Entry) → List Diagnostic → FileTree → StageResult × FileTree
  | [], said, t => (.succeeded s.name said .zero, t)
  | (name, e) :: rest, said, t =>
    match stopped said.length with
    | some reason => (s.failed .cancelled reason said, t)
    | none =>
      let said := said ++ [notice name (e = .directory)]
      match remove t (s.buildDir.child name) with
      | (t, none) => sweep s remove stopped rest said t
      | (t, some error) => (s.failed .io error.message said, t)

/-- Empties the directory by removing what is in it, unless the stage is told to stop. -/
def runWith (s : CleanStage) (remove : FileTree → Path → FileTree × Option OsError)
    (stopped : Nat → Option String) (t : FileTree) : StageResult × FileTree :=
  match t.readDirectory s.buildDir with
  | .ok entries => s.sweep remove stopped entries [] t
  | .error .notFound =>
    (.succeeded s.name [.info (s.buildDir.text ++ " does not exist; nothing to clean")] .zero, t)
  | .error e => (s.failed .io e.message [], t)

/-- Removes what a path leads to, or leaves everything as it is. -/
def discard (t : FileTree) (p : Path) : FileTree × Option OsError :=
  t.attempt (·.remove p)

/-- Empties the directory unless the stage is told to stop. -/
def run (s : CleanStage) (stopped : Nat → Option String) (t : FileTree) : StageResult × FileTree :=
  s.runWith discard stopped t

end CleanStage

end Wheelwright
