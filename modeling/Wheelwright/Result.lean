/-
  Results — how a process ended, and what a stage came to.

  A result has one of four makes: the stage succeeded by doing its work, was skipped because nothing
  changed, failed, or was blocked before it started.
-/
import Wheelwright.Diagnostic
import Wheelwright.Failure
import Wheelwright.Span

namespace Wheelwright

/-! ## Exits -/

/-- How a process ended. -/
inductive ExitOutcome where
  /-- By itself, with a code unless a signal ended it. -/
  | exited (code : Option Int)
  | cancelled
  | timedOut
  deriving DecidableEq

namespace ExitOutcome

def isSuccess (e : ExitOutcome) : Bool := e = .exited (some 0)

def code? : ExitOutcome → Option Int
  | .exited code => code
  | _ => none

def text : ExitOutcome → String
  | .exited (some code) => "exited with status " ++ toString code
  | .exited none => "terminated by signal"
  | .cancelled => "cancelled"
  | .timedOut => "timed out"

def toJson : ExitOutcome → Json
  | .exited code => .object [("type", .string "exited"), ("code", Json.ofOption Json.int code)]
  | .cancelled => .object [("type", .string "cancelled")]
  | .timedOut => .object [("type", .string "timed_out")]

/-- The outcome that `j` writes in at most `levels` levels. -/
def ofJson? (levels : Nat) (j : Json) : Option ExitOutcome := do
  let t ← Json.tagged? "type" levels j
  if t.tag = "exited" then
    let r ← Json.record? ["code"] t.body
    (r.nullable "code" Json.int32?).map .exited
  else if !Json.isEmptyBody t.body then none
  else if t.tag = "cancelled" then some .cancelled
  else if t.tag = "timed_out" then some .timedOut
  else none

end ExitOutcome

/-! ## Stage results -/

/-- What a stage came to. -/
structure StageResult where
  stage : String
  status : StageStatus
  diagnostics : List Diagnostic := []
  exit : Option ExitOutcome := none
  durationMs : Binary64
  skipped : Bool := false
  failure : Option StageFailure := none
  cancelReason : Option String := none
  deriving DecidableEq

namespace StageResult

/-- The stage did its work. -/
def succeeded (stage : String) (diagnostics : List Diagnostic) (took : Span) : StageResult :=
  { stage, status := .succeeded, diagnostics, durationMs := took.toMilliseconds }

/-- The stage had nothing to do. -/
def fresh (stage : String) (took : Span) : StageResult :=
  { stage, status := .succeeded, durationMs := took.toMilliseconds, skipped := true }

/-- The stage failed; a cancellation's message is its reason. -/
def ofFailure (f : StageFailure) (diagnostics : List Diagnostic) (took : Span) : StageResult :=
  { stage := f.stage
    status := f.kind.status
    diagnostics
    durationMs := took.toMilliseconds
    failure := some f
    cancelReason := if f.kind.status = .cancelled then some f.message else none }

/-- The stage was given up before it started. -/
def blocked (stage reason : String) : StageResult :=
  { stage, status := .cancelled, durationMs := Span.zero.toMilliseconds, cancelReason := some reason }

def withExit (r : StageResult) (e : ExitOutcome) : StageResult := { r with exit := some e }

def isSuccess (r : StageResult) : Bool := r.status.isSuccess

/-- The stage succeeded and was not skipped. -/
def didWork (r : StageResult) : Bool := r.isSuccess && !r.skipped

/-- How long the stage took, if its number of milliseconds is a span. -/
def duration? (r : StageResult) : Option Span := Span.ofMilliseconds? r.durationMs

/-- The fields of a result; `duration` tells whether to write how long it took. -/
def fields (duration : Bool) (r : StageResult) : List (String × Json) :=
  [("stage", .string r.stage), ("status", r.status.toJson),
    ("diagnostics", .array (r.diagnostics.map Diagnostic.toJson))] ++
  Json.fieldOf "exit" ExitOutcome.toJson r.exit ++
  (if duration then [("duration_ms", .number (.real r.durationMs))] else []) ++
  (if r.skipped then [("skipped", .bool true)] else []) ++
  Json.fieldOf "failure" StageFailure.toJson r.failure ++
  Json.fieldOf "cancel_reason" Json.string r.cancelReason

def toJson (r : StageResult) : Json := .object (r.fields true)

def ofJson? (j : Json) : Option StageResult := do
  let r ← Json.record?
    ["stage", "status", "diagnostics", "exit", "duration_ms", "skipped", "failure", "cancel_reason"] j
  let stage ← r.required "stage" Json.text?
  let status ← r.required "status" StageStatus.ofJson?
  let diagnostics ← r.defaulted "diagnostics" [] (Json.list? Diagnostic.ofJson?)
  let exit ← r.optional "exit" (ExitOutcome.ofJson? 126)
  let durationMs ← r.required "duration_ms" Json.double?
  let skipped ← r.defaulted "skipped" false Json.bool?
  let failure ← r.optional "failure" StageFailure.ofJson?
  let cancelReason ← r.optional "cancel_reason" Json.text?
  some { stage, status, diagnostics, exit, durationMs, skipped, failure, cancelReason }

/-- The result without its duration, with what it says about work and its counts of diagnostics. -/
def view (r : StageResult) : Json :=
  .object (r.fields false ++ [("did_work", .bool r.didWork),
    ("counts", .array ([Severity.info, .warning, .error].map fun s =>
      Json.nat (Diagnostic.countAt s r.diagnostics)))])

/-! ## Expectations on results -/

/-- What a caller may expect of a result. -/
inductive Expectation where
  | ran
  | skipped
  | blocked
  | failed (kind : FailureKind)
  | status (s : StageStatus)

/-- The result is as expected. -/
def meets (r : StageResult) : Expectation → Bool
  | .ran => r.status = .succeeded && !r.skipped
  | .skipped => r.status = .succeeded && r.skipped && r.diagnostics.isEmpty
  | .blocked => r.status = .cancelled && r.exit.isNone && r.diagnostics.isEmpty
  | .failed kind => (r.failure.map (·.kind)) = some kind
  | .status s => r.status = s

end StageResult

end Wheelwright
