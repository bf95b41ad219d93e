/-
  Configuration — how to run the stages of a target, and what the target is.
-/
import Wheelwright.Backend
import Wheelwright.Decimal.Shortest
import Wheelwright.Text.Quoted

namespace Wheelwright

/-! ## Running stages

  A number of seconds may be anything that the format has a number for.  What is not positive and finite sets no time,
  and what no span can hold is reported. -/

/-- How to run stages. -/
structure PipelineConfig where
  maxWorkers : Nat := 1
  gracePeriodMs : Nat := 5000
  stageTimeoutSeconds : Option Binary64 := none
  stateFile : Option Path := none
  deriving DecidableEq

/-- A number of seconds that no span of time has. -/
structure SpanOverflow where
  seconds : Binary64

namespace PipelineConfig

/-- The greatest count or number of milliseconds. -/
def maxCount : Nat := Nat.pow 2 64 - 1

/-- At least one worker. -/
def withMaxWorkers (c : PipelineConfig) (n : Nat) : PipelineConfig := { c with maxWorkers := max n 1 }

/-- The grace period in milliseconds, as far as they can be counted. -/
def withGracePeriod (c : PipelineConfig) (d : Span) : PipelineConfig :=
  { c with gracePeriodMs := min d.wholeMillis maxCount }

/-- How many stages may run at once. -/
def workers (c : PipelineConfig) : Nat := max c.maxWorkers 1

def gracePeriod (c : PipelineConfig) : Span := .ofMillis c.gracePeriodMs

/-- The time that a stage may take: none unless it is a positive finite number of seconds. -/
def stageTimeout (c : PipelineConfig) : Except SpanOverflow (Option Span) :=
  match c.stageTimeoutSeconds with
  | none => .ok none
  | some x =>
    if x.isFinite && x.isPositive then
      match Span.ofSeconds? x with
      | some d => .ok (some d)
      | none => .error ⟨x⟩
    else .ok none

/-- The configuration with the names of its parts. -/
def debugText (c : PipelineConfig) : String :=
  let timeout :=
    match c.stageTimeoutSeconds with
    | none => "None"
    | some x => "Some(" ++ Decimal.text x ++ ")"
  "PipelineConfig \x7b max_workers: " ++ toString c.maxWorkers ++ ", grace_period_ms: " ++
    toString c.gracePeriodMs ++ ", stage_timeout_seconds: " ++ timeout ++ ", state_file: " ++
    quoteOption quotePath (c.stateFile.map (·.text)) ++ " \x7d"

def toJson (c : PipelineConfig) : Json :=
  .object ([("max_workers", .nat c.maxWorkers), ("grace_period_ms", .nat c.gracePeriodMs)] ++
    Json.fieldOf "stage_timeout_seconds" (fun x => Json.number (.real x)) c.stageTimeoutSeconds ++
    Json.fieldOf "state_file" (fun p => Json.string p.text) c.stateFile)

def ofJson? (j : Json) : Option PipelineConfig := do
  let r ← Json.record? ["max_workers", "grace_period_ms", "stage_timeout_seconds", "state_file"] j
  let maxWorkers ← r.defaulted "max_workers" 1 (Json.natUpTo? maxCount)
  let gracePeriodMs ← r.defaulted "grace_period_ms" 5000 (Json.natUpTo? maxCount)
  let stageTimeoutSeconds ← r.optional "stage_timeout_seconds" Json.double?
  let stateFile ← r.optional "state_file" Json.text?
  some { maxWorkers, gracePeriodMs, stageTimeoutSeconds, stateFile := stateFile.map Path.mk }

end PipelineConfig

/-! ## Targets -/

/-- What a target is built from and how. -/
structure TargetConfig where
  projectFile : Path
  python : String := "python3"
  venvDir : Path := ⟨".venv"⟩
  buildType : BuildType := .both
  pipeline : PipelineConfig := {}
  deriving DecidableEq

namespace TargetConfig

def toJson (c : TargetConfig) : Json :=
  .object [("project_file", .string c.projectFile.text), ("python", .string c.python),
    ("venv_dir", .string c.venvDir.text), ("build_type", c.buildType.toJson),
    ("pipeline", c.pipeline.toJson)]

/-- The configuration that `j` writes; `unit` is the format's value for no data. -/
def read? (unit : Json) (j : Json) : Option TargetConfig := do
  let r ← Json.record? ["project_file", "python", "venv_dir", "build_type", "pipeline"] j
  let projectFile ← r.required "project_file" Json.text?
  let python ← r.defaulted "python" "python3" Json.text?
  let venvDir ← r.defaulted "venv_dir" ".venv" Json.text?
  let buildType ← r.defaulted "build_type" BuildType.both (BuildType.read? unit)
  let pipeline ← r.defaulted "pipeline" {} PipelineConfig.ofJson?
  some { projectFile := ⟨projectFile⟩, python, venvDir := ⟨venvDir⟩, buildType, pipeline }

/-- The configuration with a relative project file taken from the directory of `path`. -/
def relativeTo (c : TargetConfig) (path : Path) : TargetConfig :=
  if c.projectFile.isAbsolute then c
  else
    match path.parent? with
    | none => c
    | some dir => { c with projectFile := dir.join c.projectFile }

end TargetConfig

end Wheelwright
