/-
  Pipelines — planned stages, and what a run of them came to.

  **State.**  A pipeline holds the token of the run that is armed or in progress.  To cancel is to
  trip that token; without one there is nothing to cancel.
-/
import Wheelwright.Cancellation
import Wheelwright.Config
import Wheelwright.Execution
import Wheelwright.Text.Quoted

namespace Wheelwright

/-- A planned list of stages. -/
structure Pipeline where
  name : String
  specs : List StageSpec
  plan : Plan
  config : PipelineConfig
  /-- The token of the run that is armed or in progress. -/
  current : Option TokenId := none

namespace Pipeline

/-- The pipeline of stages that can be planned. -/
def build (name : String) (specs : List StageSpec) (config : PipelineConfig) :
    Except PlanError Pipeline := do
  let plan ← Wheelwright.plan specs
  return { name, specs, plan, config }

/-! ## The current run

  At most one token is known, that of the run that is armed or in progress. -/

/-- A run is armed or in progress. -/
def isRunning (p : Pipeline) : Bool := p.current.isSome

/-- The token stands for the next run. -/
def arm (p : Pipeline) (token : TokenId) : Pipeline := { p with current := some token }

/-- The run is over. -/
def disarm (p : Pipeline) : Pipeline := { p with current := none }

/-- Cancels the run, and tells whether there was one. -/
def cancel (p : Pipeline) (reason : String) (f : Forest) : Forest × Bool :=
  match p.current with
  | some token => (f.cancel token reason, true)
  | none => (f, false)

/-! ## Pipelines as text -/

/-- Names as quoted text in brackets. -/
def namesText (names : List String) : String := "[" ++ ", ".intercalate (names.map quoteText) ++ "]"

/-- The pipeline as declared, with the names of its parts. -/
def declarationText (p : Pipeline) : String :=
  "PipelineBuilder \x7b name: " ++ quoteText p.name ++ ", stages: " ++
    namesText (p.specs.map (·.name)) ++ ", config: " ++ p.config.debugText ++ ", .. \x7d"

/-- The pipeline as planned, with the names of its parts. -/
def debugText (p : Pipeline) : String :=
  "Pipeline \x7b name: " ++ quoteText p.name ++ ", order: " ++ namesText p.plan.orderedNames ++
    ", config: " ++ p.config.debugText ++ ", .. \x7d"

end Pipeline

/-- What a run came to. -/
structure PipelineOutcome where
  pipeline : String
  status : PipelineStatus
  /-- One result for each stage, in the order of the plan. -/
  results : List StageResult
  cancelReason : Option String

namespace PipelineOutcome

/-- The outcome of a run that is done. -/
def ofExecution (name : String) (x : Execution) (cancelReason : Option String) : PipelineOutcome :=
  let results := x.orderedResults
  { pipeline := name
    status := .aggregate (results.map (·.status))
    results
    cancelReason }

/-- The result of a stage. -/
def result? (o : PipelineOutcome) (stage : String) : Option StageResult :=
  o.results.find? fun r => r.stage = stage

def isSuccess (o : PipelineOutcome) : Bool := o.status = .succeeded

/-- The stages that did their work, in the order of the plan. -/
def rebuilt (o : PipelineOutcome) : List String :=
  (o.results.filter StageResult.didWork).map (·.stage)

/-- The outcome without times and its run's number. -/
def view (o : PipelineOutcome) : Json :=
  .object [("pipeline", .string o.pipeline), ("status", o.status.toJson),
    ("status_text", .string o.status.name), ("results", .array (o.results.map StageResult.view)),
    ("cancel_reason", Json.ofOption Json.string o.cancelReason), ("is_success", .bool o.isSuccess),
    ("rebuilt", .strings o.rebuilt)]

end PipelineOutcome

end Wheelwright
