/-
  Errors of planning and building.

  Each constructor is a cause; the wording of all of them is in the `message` functions.  Planning
  errors also say which stages they are about and carry `ErrorInfo`.
-/
import Wheelwright.Binary64
import Wheelwright.ErrorInfo
import Wheelwright.Path

namespace Wheelwright

/-! ## Planning errors

  Each error has a code, a summary and a hint, and some have facts.  A cycle is told by its stages in the order in
  which they wait. -/

/-- Why stages cannot be planned, or their inputs not be looked at. -/
inductive PlanError where
  | configUnreadable (path : Path) (reason : String)
  /-- Stages that wait for each other, in the order they would run; the first is repeated at the end. -/
  | cyclicDependency (cycle : List String)
  | resourceConflict (first second : String) (path : Path)
  | unknownPredecessor (stage predecessor : String)
  | selfDependency (stage : String)
  | duplicateStage (stage : String)
  | emptyPipeline
  | invalidExclusion (pattern reason : String)
  deriving DecidableEq

namespace PlanError

/-- A cycle as text. -/
def cycleText (cycle : List String) : String := " -> ".intercalate cycle

/-- The stages of a cycle, each once. -/
def participants (cycle : List String) : List String :=
  if 1 < cycle.length && cycle.head? = cycle.getLast? then cycle.dropLast else cycle

def message : PlanError → String
  | .configUnreadable path reason =>
    "Configuration file '" ++ path.text ++ "' is unreadable: " ++ reason
  | .cyclicDependency cycle => "Cyclic dependency between stages: " ++ cycleText cycle
  | .resourceConflict first second path =>
    "Stages '" ++ first ++ "' and '" ++ second ++ "' may run concurrently but both write to '" ++
      path.text ++ "'"
  | .unknownPredecessor stage predecessor =>
    "Stage '" ++ stage ++ "' depends on unknown stage '" ++ predecessor ++ "'"
  | .selfDependency stage => "Stage '" ++ stage ++ "' cannot depend on itself"
  | .duplicateStage stage => "Stage '" ++ stage ++ "' is declared more than once"
  | .emptyPipeline => "Pipeline has no stages"
  | .invalidExclusion pattern reason => "Invalid exclusion pattern '" ++ pattern ++ "': " ++ reason

/-- The stages that an error is about. -/
def stages : PlanError → List String
  | .cyclicDependency cycle => participants cycle
  | .resourceConflict first second _ => [first, second]
  | .unknownPredecessor stage predecessor => [stage, predecessor]
  | .selfDependency stage => [stage]
  | .duplicateStage stage => [stage]
  | _ => []

/-- The kind of an error in one word. -/
def name : PlanError → String
  | .configUnreadable _ _ => "ConfigUnreadable"
  | .cyclicDependency _ => "CyclicDependency"
  | .resourceConflict _ _ _ => "ResourceConflict"
  | .unknownPredecessor _ _ => "UnknownPredecessor"
  | .selfDependency _ => "SelfDependency"
  | .duplicateStage _ => "DuplicateStage"
  | .emptyPipeline => "EmptyPipeline"
  | .invalidExclusion _ _ => "InvalidExclusion"

/-- The information that goes with an error. -/
def info (e : PlanError) : ErrorInfo :=
  match e with
  | .configUnreadable path reason =>
    { code := "PLAN-001-CONFIG", summary := e.message
      fixHint := some "Make sure pyproject.toml exists and is readable."
      context := [("path", path.text), ("reason", reason)] }
  | .cyclicDependency cycle =>
    { code := "PLAN-002-CYCLE", summary := e.message
      fixHint := some "Remove one of the dependencies in the cycle to break it."
      context := [("cycle", cycleText cycle)] }
  | .resourceConflict _ _ path =>
    { code := "PLAN-003-CONFLICT", summary := e.message
      fixHint := some "Declare a dependency between the stages or give them distinct target paths."
      context := [("path", path.text)] }
  | .unknownPredecessor _ predecessor =>
    { code := "PLAN-004-MISSING_DEP", summary := e.message
      fixHint := some "Check the predecessor name for typos."
      context := [("predecessor", predecessor)] }
  | .selfDependency _ =>
    { code := "PLAN-004-MISSING_DEP", summary := e.message
      fixHint := some "A stage cannot list itself as a predecessor." }
  | .duplicateStage _ =>
    { code := "PLAN-005-DUPLICATE", summary := e.message
      fixHint := some "Stage names must be unique within a pipeline." }
  | .emptyPipeline =>
    { code := "PLAN-006-EMPTY", summary := e.message
      fixHint := some "Add at least one stage to the pipeline before building." }
  | .invalidExclusion pattern _ =>
    { code := "PLAN-007-EXCLUSION", summary := e.message
      fixHint := some "Exclusion patterns use gitignore glob syntax."
      context := [("pattern", pattern)] }

end PlanError

/-! ## Errors of the operating system

  The errors that operations on files may give, with the numbers of the system. -/

/-- Why a file operation failed. -/
inductive OsError where
  | notFound
  | notExecutable
  | permissionDenied
  | alreadyExists
  | notDirectory
  | isDirectory
  | notEmpty
  | tooManyLinks
  | invalidArgument
  | invalidUtf8
  | nulInPath
  | nulInCommand
  deriving DecidableEq

namespace OsError

/-- What went wrong. -/
def text : OsError → String
  | .notFound => "No such file or directory"
  | .notExecutable => "Exec format error"
  | .permissionDenied => "Permission denied"
  | .alreadyExists => "File exists"
  | .notDirectory => "Not a directory"
  | .isDirectory => "Is a directory"
  | .notEmpty => "Directory not empty"
  | .tooManyLinks => "Too many levels of symbolic links"
  | .invalidArgument => "Invalid argument"
  | .nulInPath => "file name contained an unexpected NUL byte"
  | .nulInCommand => "nul byte found in provided data"
  | .invalidUtf8 => "stream did not contain valid UTF-8"

/-- The system's number for it; it knows nothing of the last kinds. -/
def number? : OsError → Option Nat
  | .notFound => some 2
  | .notExecutable => some 8
  | .permissionDenied => some 13
  | .alreadyExists => some 17
  | .notDirectory => some 20
  | .isDirectory => some 21
  | .invalidArgument => some 22
  | .notEmpty => some 39
  | .tooManyLinks => some 40
  | .nulInPath | .nulInCommand | .invalidUtf8 => none

/-- The text of a failed file operation, with the system's number for it. -/
def message (e : OsError) : String :=
  match e.number? with
  | some n => s!"{e.text} (os error {n})"
  | none => e.text

end OsError

/-! ## Errors of a build

  What a caller of a target gets to see. -/

/-- Why a project cannot be built. -/
inductive BuildError where
  | plan (e : PlanError)
  | notPep517 (reason : String)
  | invalidToml
  | unsupportedBackend (identifier : String)
  | unsupportedBuildType (backend buildType : String)
  | storeIo (path : Path) (reason : String)
  | config (reason : String)
  /-- A stage timeout of more seconds than a span of time has. -/
  | timeoutOverflow (seconds : Binary64)
  /-- A configuration text that does not describe a configuration. -/
  | invalidConfig
  | closed
  | io (reason : String)
  deriving DecidableEq

namespace BuildError

/-- The wording of an error; what a reader of some format says of a text is not part of it. -/
def message : BuildError → String
  | .plan e => e.message
  | .notPep517 reason => "Not a valid python PEP-517 build system: " ++ reason
  | .invalidToml => "Invalid pyproject.toml"
  | .unsupportedBackend identifier => "Unsupported build backend '" ++ identifier ++ "'"
  | .unsupportedBuildType backend buildType =>
    "Backend '" ++ backend ++ "' cannot build " ++ buildType
  | .storeIo path reason => "Fingerprint store IO error at '" ++ path.text ++ "': " ++ reason
  | .config reason => "Configuration error: " ++ reason
  | .timeoutOverflow _ => "Configuration error: stage timeout is out of range"
  | .invalidConfig => "Configuration error"
  | .closed => "Build target is closed"
  | .io reason => "IO error: " ++ reason

/-- The kind of an error in one word. -/
def name : BuildError → String
  | .plan e => e.name
  | .notPep517 _ => "NotPep517"
  | .invalidToml => "InvalidToml"
  | .unsupportedBackend _ => "UnsupportedBackend"
  | .unsupportedBuildType _ _ => "UnsupportedBuildType"
  | .storeIo _ _ => "StoreIo"
  | .config _ => "Config"
  | .timeoutOverflow _ => "TimeoutOverflow"
  | .invalidConfig => "Config"
  | .closed => "Closed"
  | .io _ => "Io"

end BuildError

/-- A program that could not be started. -/
structure LaunchError where
  program : String
  reason : String

def LaunchError.message (e : LaunchError) : String :=
  "Failed to launch '" ++ e.program ++ "': " ++ e.reason

/-! ## Computations that may fail -/

/-- A computation that gives a value has given values on the way. -/
theorem exists_of_bind_eq_ok {α β ε : Type} {x : Except ε α} {f : α → Except ε β} {b : β}
    (h : x >>= f = .ok b) : ∃ a, x = .ok a ∧ f a = .ok b := by
  cases x with
  | error e => cases h
  | ok a => exact ⟨a, rfl, h⟩

end Wheelwright
