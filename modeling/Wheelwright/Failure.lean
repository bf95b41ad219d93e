/-
  Failures of a stage.

  A failure names its stage, has a kind and a message, and keeps the exit code when the command ended
  with one.  The kind decides how the stage counts: a deadline and a cancellation leave it cancelled,
  everything else failed.
-/
import Wheelwright.Status

namespace Wheelwright

/-- Why a stage did not succeed. -/
inductive FailureKind where
  | launchFailed
  | timeout
  | nonZeroExit
  | cancelled
  | configUnreadable
  | io
  | internal
  deriving DecidableEq

namespace FailureKind

def name : FailureKind → String
  | .launchFailed => "launch_failed"
  | .timeout => "timeout"
  | .nonZeroExit => "non_zero_exit"
  | .cancelled => "cancelled"
  | .configUnreadable => "config_unreadable"
  | .io => "io"
  | .internal => "internal"

def all : List FailureKind :=
  [.launchFailed, .timeout, .nonZeroExit, .cancelled, .configUnreadable, .io, .internal]

def ofName? (s : String) : Option FailureKind := all.find? fun k => k.name = s

/-- The status of a stage that failed this way. -/
def status : FailureKind → StageStatus
  | .timeout | .cancelled => .cancelled
  | _ => .failed

def toJson (k : FailureKind) : Json := .string k.name

def ofJson? (j : Json) : Option FailureKind := (Json.variant? .null j).bind ofName?

end FailureKind

/-- A failure of a stage. -/
structure StageFailure where
  stage : String
  kind : FailureKind
  message : String
  exitCode : Option Int := none
  deriving DecidableEq

namespace StageFailure

/-- The stage broke off before it had a result. -/
def brokenOff (stage cause : String) : StageFailure :=
  { stage, kind := .internal, message := "stage task failed: " ++ cause }

/-- Stage, kind and message in one sentence. -/
def text (f : StageFailure) : String :=
  "Stage '" ++ f.stage ++ "' " ++ f.kind.name ++ ": " ++ f.message

/-- The failure as fields, the exit code only when there is one. -/
def toJson (f : StageFailure) : Json :=
  .object ([("stage", .string f.stage), ("kind", f.kind.toJson), ("message", .string f.message)] ++
    Json.fieldOf "exit_code" Json.int f.exitCode)

def ofJson? (j : Json) : Option StageFailure := do
  let r ← Json.record? ["stage", "kind", "message", "exit_code"] j
  let stage ← r.required "stage" Json.text?
  let kind ← r.required "kind" FailureKind.ofJson?
  let message ← r.required "message" Json.text?
  let exitCode ← r.optional "exit_code" Json.int32?
  some { stage, kind, message, exitCode }

end StageFailure

end Wheelwright
