/-
  Log records — what a run leaves for a reader.

  A result is told by one record for each diagnostic and one for its end.  A failure ends with a
  warning that has its kind, every other result with a note whether it was skipped.
-/
import Wheelwright.Result
import Wheelwright.Text.Quoted

namespace Wheelwright

/-- How urgent a record is. -/
inductive LogLevel where
  | error
  | warn
  | info
  | debug
  deriving DecidableEq

def LogLevel.name : LogLevel → String
  | .error => "ERROR"
  | .warn => "WARN"
  | .info => "INFO"
  | .debug => "DEBUG"

/-- A record: level, message and named fields. -/
structure LogRecord where
  level : LogLevel
  message : String
  fields : List (String × Json)

namespace LogRecord

def toJson (r : LogRecord) : Json :=
  .object ([("level", .string r.level.name), ("message", .string r.message)] ++ r.fields)

/-- The record of a diagnostic. -/
def ofDiagnostic (stage : String) (d : Diagnostic) : LogRecord :=
  let place := ("location", Json.string (quoteOption quoteText (d.location.map SourceLocation.text)))
  let name := ("stage", Json.string stage)
  match d.severity with
  | .error => ⟨.error, d.message, [name, place]⟩
  | .warning => ⟨.warn, d.message, [name, place]⟩
  | .info => ⟨.debug, d.message, [name]⟩

/-- The record of a stage's end. -/
def ofEnd (r : StageResult) : LogRecord :=
  let start := [("stage", Json.string r.stage), ("status", r.status.toJson)]
  match r.failure with
  | some f =>
    ⟨.warn, f.message,
      start ++ [("kind", f.kind.toJson)] ++ Json.fieldOf "exit_code" Json.int f.exitCode⟩
  | none => ⟨.info, "Stage completed", start ++ [("skipped", .bool r.skipped)]⟩

/-- The records of a result. -/
def ofResult (r : StageResult) : List LogRecord := r.diagnostics.map (ofDiagnostic r.stage) ++ [ofEnd r]

/-- The record of a run's end. -/
def ofRun (pipeline : String) (status : PipelineStatus) : LogRecord :=
  ⟨.info, "Pipeline completed", [("pipeline", .string pipeline), ("status", status.toJson)]⟩

end LogRecord

end Wheelwright
