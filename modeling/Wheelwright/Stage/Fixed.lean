/-
  Fixed stages — stages that end as they were told to.

  A fixed stage waits for its delay, whatever happens to the run, and then ends in a fixed way: with
  a given result, by breaking off, or with a report on what it was started with.
-/
import Wheelwright.Result
import Wheelwright.Text.Quoted

namespace Wheelwright

/-- How a fixed stage ends. -/
inductive FixedEnding where
  | result (r : StageResult)
  /-- It breaks off with a message. -/
  | panic (message : String)
  /-- It succeeds and tells what it was started with. -/
  | report

/-- A stage with a fixed ending. -/
structure FixedStage where
  name : String
  delay : Option Span
  ending : FixedEnding

namespace FixedStage

def boolText (b : Bool) : String := if b then "true" else "false"

/-- Why a stage broke off. -/
def panicText (message : String) : String := "task # panicked with message " ++ quoteText message

/-- What a stage tells of its start; `reason` is why its run was cancelled. -/
def reportText (upstreamRebuilt : Bool) (reason : Option String) : String :=
  "upstream_rebuilt=" ++ boolText upstreamRebuilt ++ " cancelled=" ++ boolText reason.isSome ++
    " message=" ++ reason.getD "cancelled"

/-- The result of the stage at its end, or why it broke off. -/
def finish (s : FixedStage) (upstreamRebuilt : Bool) (reason : Option String) :
    Except String StageResult :=
  match s.ending with
  | .result r => .ok r
  | .panic message => .error (panicText message)
  | .report => .ok (.succeeded s.name [.info (reportText upstreamRebuilt reason)] .zero)

end FixedStage

end Wheelwright
