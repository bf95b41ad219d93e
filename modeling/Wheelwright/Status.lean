/-
  Status — where a stage stands, and what a whole run came to.

  A stage waits, runs, and ends in one of three ways; it may also end without running.  An end is
  final.  The aggregate of a run is a failure as soon as one stage failed; otherwise it is a
  cancellation unless every stage succeeded.
-/
import Wheelwright.Json.Record

namespace Wheelwright

/-- Where a stage stands. -/
inductive StageStatus where
  | pending
  | running
  | succeeded
  | failed
  | cancelled
  deriving DecidableEq, Inhabited

/-- A change of status that the order of statuses does not allow. -/
structure InvalidTransition where
  source : StageStatus
  target : StageStatus

namespace StageStatus

def name : StageStatus → String
  | .pending => "pending"
  | .running => "running"
  | .succeeded => "succeeded"
  | .failed => "failed"
  | .cancelled => "cancelled"

/-- All statuses. -/
def all : List StageStatus := [.pending, .running, .succeeded, .failed, .cancelled]

/-- The status called `s`. -/
def ofName? (s : String) : Option StageStatus := all.find? fun x => x.name = s

/-- The stage has ended. -/
def isTerminal : StageStatus → Bool
  | .succeeded | .failed | .cancelled => true
  | _ => false

def isSuccess (s : StageStatus) : Bool := s = .succeeded

/-- A waiting stage may start or be given up; a running one may end. -/
def canBecome : StageStatus → StageStatus → Bool
  | .pending, .running => true
  | .pending, .cancelled => true
  | .running, .succeeded => true
  | .running, .failed => true
  | .running, .cancelled => true
  | _, _ => false

/-- The status `next`, if the stage may take it. -/
def advance (s next : StageStatus) : Except InvalidTransition StageStatus :=
  if s.canBecome next then .ok next else .error ⟨s, next⟩

/-- An end is final. -/
theorem canBecome_of_isTerminal {s : StageStatus} (h : s.isTerminal = true) (next : StageStatus) :
    s.canBecome next = false := by
  cases s <;> cases next <;> simp_all [isTerminal, canBecome]

def toJson (s : StageStatus) : Json := .string s.name

def ofJson? (j : Json) : Option StageStatus := (Json.variant? .null j).bind ofName?

end StageStatus

/-- The text of a refused change. -/
def InvalidTransition.message (e : InvalidTransition) : String :=
  "Invalid stage transition from " ++ e.source.name ++ " to " ++ e.target.name

/-- What a whole run came to. -/
inductive PipelineStatus where
  | succeeded
  | failed
  | cancelled
  deriving DecidableEq

namespace PipelineStatus

def name : PipelineStatus → String
  | .succeeded => "succeeded"
  | .failed => "failed"
  | .cancelled => "cancelled"

/-- The status called `s`. -/
def ofName? (s : String) : Option PipelineStatus :=
  [PipelineStatus.succeeded, .failed, .cancelled].find? fun x => x.name = s

/-- What the statuses of all stages come to. -/
def aggregate (statuses : List StageStatus) : PipelineStatus :=
  if statuses.contains .failed then .failed
  else if statuses.all StageStatus.isSuccess then .succeeded
  else .cancelled

def toJson (s : PipelineStatus) : Json := .string s.name

def ofJson? (j : Json) : Option PipelineStatus := (Json.variant? .null j).bind ofName?

end PipelineStatus

end Wheelwright
