/-
  Executions — one run of a plan, as a state and the steps it takes.

  **State.**  A stage is waiting, ready, running or settled.  What is settled has a result.  Of every
  other stage it is counted how many predecessors have not succeeded yet; one that waits for none is
  ready, and ready stages are kept by their position in the plan's order.

  **Steps** — `takeNext` takes the first ready stage while a worker is free, and starts it, or gives it
  up when the run was cancelled; `settle` notes the result of a running stage.  A success may make
  dependents ready; anything else gives up all that depend on the stage, directly or not.

  **The crux** — giving up goes along edges of the plan, so it is no deeper than the plan has stages.
-/
import Wheelwright.Plan
import Wheelwright.Result

namespace Wheelwright

/-- The state of a run; stages go by their number in the plan. -/
structure Execution where
  plan : Plan
  /-- The results of settled stages. -/
  results : List (Option StageResult)
  /-- How many predecessors have not succeeded yet, and the positions of ready stages. -/
  queue : Countdown
  /-- The running stages, in the order they were started. -/
  running : List Nat
  statuses : List StageStatus
  /-- All results, in the order they came. -/
  delivered : List StageResult

namespace Execution

/-- The position where a stage stands in the order. -/
def positionOf (p : Plan) (i : Nat) : Nat := p.order.idxOf i

/-- The stage at a position of the order. -/
def stageAt (p : Plan) (k : Nat) : Nat := p.order.getD k 0

/-- The run before anything was started. -/
def start (p : Plan) : Execution :=
  { plan := p
    results := p.names.map fun _ => none
    queue := .start p.predecessors (stageAt p)
    running := []
    statuses := p.names.map fun _ => .pending
    delivered := [] }

/-- The result of a stage that is settled. -/
def result? (x : Execution) (i : Nat) : Option StageResult := (x.results[i]?).join

/-- A direct predecessor did its work in this run. -/
def upstreamRebuilt (x : Execution) (i : Nat) : Bool :=
  (predsOf x.plan.predecessors i).any fun p => (x.result? p).any StageResult.didWork

/-- Nothing is running and nothing is ready. -/
def isDone (x : Execution) : Bool := x.running.isEmpty && x.queue.ready.isEmpty

/-! ## Settling

  A result is noted and told first.  Then a success takes the counters of the dependents down, and anything else gives
  all of them up, in depth and in the order of their declaration. -/

/-- The run with another status of a stage, if the stage may take it. -/
def changeStatus (x : Execution) (i : Nat) (next : StageStatus) : Execution :=
  match (x.statuses.getD i .pending).advance next with
  | .ok s => { x with statuses := x.statuses.set i s }
  | .error _ => x

/-- The run with the result of a stage noted. -/
def note (x : Execution) (i : Nat) (r : StageResult) : Execution :=
  let x := x.changeStatus i r.status
  { x with results := x.results.set i (some r), delivered := x.delivered ++ [r] }

/-- One predecessor less to wait for; a stage that waits for none is ready. -/
def release (x : Execution) (d : Nat) : Execution :=
  { x with queue := x.queue.release (positionOf x.plan) d }

/-- What is said of a stage that cannot run because of `predecessor`. -/
def blockReason (predecessor : String) : String := "predecessor '" ++ predecessor ++ "' did not succeed"

/-- What is said of a stage that cannot run because the run was cancelled. -/
def cancelReason (reason : String) : String := "pipeline cancelled: " ++ reason

/-- Gives up a stage and all that depend on it, over at most `depth` edges. -/
def block : Nat → String → Execution → Nat → Execution
  | 0, _, x, _ => x
  | depth + 1, reason, x, i =>
    let name := x.plan.nameOf i
    (x.plan.dependentsOf i).foldl
      (fun x d => if (x.result? d).isSome then x else block depth (blockReason name) x d)
      (x.note i (.blocked name reason))

/-- Notes the result of a running stage, and what follows for those that depend on it. -/
def settle (x : Execution) (i : Nat) (r : StageResult) : Execution :=
  let x := { x with running := x.running.erase i }.note i r
  let dependents := x.plan.dependentsOf i
  if r.isSuccess then dependents.foldl release x
  else
    let depth := x.plan.names.length
    let reason := blockReason (x.plan.nameOf i)
    dependents.foldl (fun x d => if (x.result? d).isSome then x else block depth reason x d) x

/-! ## Starting

  Only here are stages started, and the token is looked at in the same step. -/

/-- Takes the first ready stage if one of `workers` workers is free: it is started, or given up when
    the run was cancelled.  Gives the stage that was started. -/
def takeNext (x : Execution) (workers : Nat) (cancelled : Option String) :
    Option (Execution × Option Nat) :=
  if x.running.length < workers then
    match x.queue.ready with
    | [] => none
    | k :: rest =>
      let i := stageAt x.plan k
      let x := { x with queue.ready := rest }
      match cancelled with
      | some reason => some (block x.plan.names.length (cancelReason reason) x i, none)
      | none => some ({ x with running := x.running ++ [i] }.changeStatus i .running, some i)
  else none

/-- The results in the order of the plan. -/
def orderedResults (x : Execution) : List StageResult := x.plan.order.filterMap x.result?

end Execution

end Wheelwright
