/-
  Workbenches — one pipeline, rehearsed run after run.

  A workbench keeps a pipeline and a rehearsal in step: the token of a run is the pipeline's current
  one from the start of the run, or from when it was armed, until the run is done.
-/
import Wheelwright.Rehearsal.Run

namespace Wheelwright

/-- A pipeline and the rehearsal of its runs. -/
structure Workbench where
  pipeline : Pipeline
  bodies : List StageBody
  world : Rehearsal

namespace Workbench

/-- The statuses of the stages in the latest run. -/
def statuses (b : Workbench) : List (String × StageStatus) := b.world.statuses b.pipeline

/-- The workbench after a step; the pipeline is disarmed by the step that ends its run. -/
def follow (b : Workbench) (world : Rehearsal) : Workbench :=
  if b.world.outcome?.isNone && world.outcome?.isSome then
    { b with world, pipeline := b.pipeline.disarm }
  else { b with world }

/-- One step, the clock staying before `limit`. -/
def step (limit : Option Nat) (b : Workbench) : Option Workbench := (b.world.step limit).map b.follow

/-- A token of its own. -/
def newToken (b : Workbench) : Workbench × TokenId :=
  let (tokens, id) := b.world.tokens.create
  ({ b with world := { b.world with tokens } }, id)

/-- A token that is tripped when the time `d` is over. -/
def newDeadline (b : Workbench) (d : Span) : Workbench × TokenId :=
  let (b, parent) := b.newToken
  let (tokens, id) := b.world.tokens.withDeadline parent d b.world.now
  ({ b with world := { b.world with tokens } }, id)

/-- The token is armed. -/
def arm (b : Workbench) (token : TokenId) : Workbench := { b with pipeline := b.pipeline.arm token }

/-- Cancels the current run, and tells whether there was one. -/
def cancel (b : Workbench) (reason : String) : Workbench × Bool :=
  let (tokens, running) := b.pipeline.cancel reason b.world.tokens
  ({ b with world := b.world.withTokens tokens }, running)

/-- A run starts. -/
def startRun (b : Workbench) (token : TokenId) : Workbench :=
  let b := b.arm token
  let b := { b with world := { b.world with run := none } }
  b.follow (b.world.startRun b.pipeline b.bodies token)

/-- Everything that happens before the time `limit` happens. -/
def advanceTo (b : Workbench) (limit : Nat) : Workbench :=
  let b := iterate (step (some limit)) b.world.stepBound b
  { b with world := { b.world with now := max b.world.now limit } }

/-- The run comes to its end. -/
def finishRun (b : Workbench) : Workbench :=
  iterate (fun b => if b.world.outcome?.isSome then none else b.step none) b.world.stepBound b

end Workbench

end Wheelwright
