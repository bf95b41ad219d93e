/-
  Backend stages — running one command of a build backend.

  **Program** — a stage with a staleness check first compares the fingerprint of its inputs with the
  one recorded after its last success.  It is skipped if they are the same and no predecessor did
  its work; otherwise the command runs, its output lines become diagnostics, and the way it ended
  becomes the result.  The fingerprint from before the launch is recorded only after an exit with
  status zero.
-/
import Wheelwright.Classifier
import Wheelwright.Command
import Wheelwright.Result
import Wheelwright.Staleness

namespace Wheelwright

/-- When a stage may be skipped. -/
structure StalenessCheck where
  inputs : StalenessInputs
  /-- Which store holds the stage's record. -/
  store : Nat
  key : String

/-- A stage that runs a command. -/
structure BackendStage where
  name : String
  command : Command
  classifier : Classifier
  staleness : Option StalenessCheck := none

/-- What a staleness check came to. -/
inductive Freshness where
  | fresh
  /-- The command has to run; the fingerprint to record once it succeeded. -/
  | stale (fingerprint : Option String)
  deriving DecidableEq

namespace BackendStage

/-! ## Before the command -/

/-- The stage failed without an exit. -/
def failed (s : BackendStage) (kind : FailureKind) (message : String) : StageResult :=
  .ofFailure { stage := s.name, kind, message } [] .zero

/-- The stage was told to stop before it did anything. -/
def cancelled (s : BackendStage) (message : String) : StageResult := s.failed .cancelled message

/-- The stage had nothing to do. -/
def upToDate (s : BackendStage) : StageResult := .fresh s.name .zero

/-- The command could not be started. -/
def notLaunched (s : BackendStage) (e : LaunchError) : StageResult := s.failed .launchFailed e.message

/-- Whether the command has to run, given what the inputs came to; a rebuilt predecessor makes every
    stage stale. -/
def judge (s : BackendStage) (upstreamRebuilt : Bool) (verdict : Except PlanError (Bool × String)) :
    Except StageResult Freshness :=
  match verdict with
  | .error e => .error (s.failed .configUnreadable e.message)
  | .ok (isStale, fingerprint) =>
    if isStale || upstreamRebuilt then .ok (.stale (some fingerprint)) else .ok .fresh

/-- Whether the command has to run; `previous` is the recorded fingerprint. -/
def check (s : BackendStage) (upstreamRebuilt : Bool) (previous : Option String) (t : FileTree) :
    Except StageResult Freshness :=
  match s.staleness with
  | none => .ok (.stale none)
  | some c => s.judge upstreamRebuilt (c.inputs.isStale previous t)

/-! ## After the command -/

/-- The diagnostics of output lines. -/
def diagnose (s : BackendStage) (lines : List OutputLine) : List Diagnostic := lines.map s.classifier.classify

/-- What is said when a fingerprint could not be recorded. -/
def unsavedWarning (e : BuildError) : Diagnostic := .warning ("fingerprint not saved: " ++ e.message)

/-- The message of a command that did not succeed: the last error it printed, or how it ended. -/
def failureMessage (outcome : ExitOutcome) (said : List Diagnostic) : String :=
  match said.reverse.find? Diagnostic.isError with
  | some d => d.message
  | none => "backend " ++ outcome.text

/-- The failure that an outcome stands for, if it is one. -/
def failure? (s : BackendStage) (outcome : ExitOutcome) (said : List Diagnostic)
    (cancelMessage : String) : Option StageFailure :=
  match outcome with
  | .exited code =>
    if code = some 0 then none
    else some { stage := s.name, kind := .nonZeroExit, message := failureMessage outcome said, exitCode := code }
  | .cancelled => some { stage := s.name, kind := .cancelled, message := cancelMessage }
  | .timedOut =>
    some { stage := s.name, kind := .timeout
           message := "deadline of " ++ (s.command.timeout.getD .zero).debugText ++ " elapsed" }

/-- The result of a stage whose command ended. -/
def conclude (s : BackendStage) (outcome : ExitOutcome) (said : List Diagnostic)
    (cancelMessage : String) : StageResult :=
  let result :=
    match s.failure? outcome said cancelMessage with
    | none => StageResult.succeeded s.name said .zero
    | some f => .ofFailure f said .zero
  result.withExit outcome

end BackendStage

end Wheelwright
