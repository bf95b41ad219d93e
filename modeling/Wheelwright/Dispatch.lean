/-
  Dispatch — the loop that runs a plan.

  **State.**  The run of the plan, why it was cancelled once it was, what was started so far, and what
  listeners were told.  At the end there is an outcome.

  **Steps** — as long as a worker is free and a stage is ready the loop takes the first ready stage;
  after that it waits for a running stage to end.  When there is none the loop ends.  The token may be
  tripped at any time before that.

  **The crux** — a stage that breaks off has a result too, so every started stage comes to be settled.
-/
import Wheelwright.Pipeline

namespace Wheelwright

/-- What a listener is told. -/
inductive Delivery where
  | stage (r : StageResult)
  | pipeline (o : PipelineOutcome)

/-- The result of a stage that ended with a result or by breaking off. -/
def Plan.resultOf (p : Plan) (i : Nat) : Except String StageResult → StageResult
  | .ok r => r
  | .error cause => .ofFailure (.brokenOff (p.nameOf i) cause) [] .zero

/-- The state of the loop. -/
structure Dispatch where
  name : String
  workers : Nat
  state : Execution
  /-- Why the run was cancelled, once its token was tripped. -/
  tripped : Option String := none
  /-- The stages that were started, each with whether a direct predecessor did its work. -/
  started : List (Nat × Bool) := []
  told : List Delivery := []
  outcome : Option PipelineOutcome := none

namespace Dispatch

/-- What the loop does, or what happens to it. -/
inductive Event where
  /-- The token is tripped. -/
  | trip (reason : String)
  /-- The first ready stage is taken. -/
  | take
  /-- A running stage ends, with a result or by breaking off. -/
  | finish (i : Nat) (ending : Except String StageResult)
  /-- The loop ends. -/
  | close

/-- The loop before its first step. -/
def start (p : Pipeline) : Dispatch :=
  { name := p.name, workers := p.config.workers, state := .start p.plan }

/-- The run goes on, and listeners are told of the results that are new. -/
def withState (d : Dispatch) (state : Execution) : Dispatch :=
  { d with state, told := d.told ++ (state.delivered.drop d.state.delivered.length).map .stage }

/-- The next ready stage, if it can be taken. -/
def next? (d : Dispatch) : Option (Execution × Option Nat) := d.state.takeNext d.workers d.tripped

/-- The loop after a step, if it can be made. -/
def step (d : Dispatch) (e : Event) : Option Dispatch :=
  if d.outcome.isSome then none
  else
    match e with
    | .trip reason => if d.tripped.isSome then none else some { d with tripped := some reason }
    | .take =>
      d.next?.map fun (state, new) =>
        { d.withState state with
          started := d.started ++ (new.map fun i => (i, d.state.upstreamRebuilt i)).toList }
    | .finish i ending =>
      if d.next?.isNone && d.state.running.contains i then
        some (d.withState (d.state.settle i (d.state.plan.resultOf i ending)))
      else none
    | .close =>
      if d.next?.isNone && d.state.isDone then
        let o := PipelineOutcome.ofExecution d.name d.state d.tripped
        some { d with outcome := some o, told := d.told ++ [.pipeline o] }
      else none

/-- The loop after a step, or as it was if that cannot be made. -/
def stepOrStay (d : Dispatch) (e : Event) : Dispatch := (d.step e).getD d

/-- Takes ready stages as long as there is one to take, at most `steps` of them. -/
def fill : Nat → Dispatch → Dispatch
  | 0, d => d
  | steps + 1, d =>
    match d.step .take with
    | none => d
    | some next => fill steps next

end Dispatch

end Wheelwright
