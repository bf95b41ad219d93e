/-
  Plans — stages in an order that respects what they wait for.

  **Program** — `plan` checks a list of stage specifications and lays the stages out.  Stages are
  numbered by their place in the declaration.  Of every stage it is counted how many predecessors are
  not placed yet; a stage that waits for none is ready, and the next stage is always the first declared
  one that is ready.

  **Errors** — the checks come in a fixed order: no stages, a name declared twice, a predecessor that
  is the stage itself or is not declared, a cycle, and two stages without a dependency between them
  that write to the same place.  The first check that fails is reported, at the first stage it fails
  for.

  **The crux** — if no waiting stage is ready, every waiting stage waits for a waiting stage; so
  walking from predecessor to predecessor must come back to a stage already visited: a cycle.
-/
import Wheelwright.Error

namespace Wheelwright

/-! ## Specifications -/

/-- What is declared of a stage. -/
structure StageSpec where
  name : String
  /-- Names of the stages to wait for, each once. -/
  predecessors : List String := []
  /-- Places that the stage writes to. -/
  targets : List Path := []
  /-- The name under which the stage's last success is remembered. -/
  key : String := name
  deriving DecidableEq

/-- `items` with `a` at the end, unless it is there already. -/
def addNew {α : Type} [BEq α] (items : List α) (a : α) : List α :=
  if items.contains a then items else items ++ [a]

/-- The specification with more predecessors; repeated names count once. -/
def StageSpec.after (s : StageSpec) (names : List String) : StageSpec :=
  { s with predecessors := names.foldl addNew s.predecessors }

/-! ## Plans -/

/-- An accepted list of stages. -/
structure Plan where
  /-- The stages' names, as declared. -/
  names : List String
  /-- For each stage the stages that it waits for. -/
  predecessors : List (List Nat)
  /-- The stages in the order to start them. -/
  order : List Nat
  /-- For each stage the stages that it waits for, directly or not. -/
  ancestors : List (List Nat)
  deriving DecidableEq

/-! ## Names and predecessors

  Names are checked first and then turned into numbers.  From there on stages are numbers, and names come back in
  answers and reports only. -/

/-- The first name that occurs a second time. -/
def firstRepeated (seen : List String) : List String → Option String
  | [] => none
  | name :: rest => if seen.contains name then some name else firstRepeated (name :: seen) rest

/-- The stages that a stage waits for, as numbers. -/
def resolvePredecessors (names : List String) (stage : String) (found : List Nat) :
    List String → Except PlanError (List Nat)
  | [] => .ok found
  | pred :: rest =>
    if pred = stage then .error (.selfDependency stage)
    else
      match names.idxOf? pred with
      | none => .error (.unknownPredecessor stage pred)
      | some p => resolvePredecessors names stage (addNew found p) rest

/-- The predecessors of all stages, or the first fault among them. -/
def resolveAll (names : List String) : List StageSpec → Except PlanError (List (List Nat))
  | [] => .ok []
  | spec :: rest =>
    match resolvePredecessors names spec.name [] spec.predecessors with
    | .error e => .error e
    | .ok preds =>
      match resolveAll names rest with
      | .error e => .error e
      | .ok more => .ok (preds :: more)

/-! ## Counting down

  A counter for each stage says how many of its predecessors are to come.  Planning and running share this machine:
  the one places stages, and the other one has them succeed. -/

/-- The stages that stage `i` waits for. -/
def predsOf (preds : List (List Nat)) (i : Nat) : List Nat := preds.getD i []

/-- The stages that wait for stage `i`, as declared. -/
def dependentsIn (preds : List (List Nat)) (i : Nat) : List Nat :=
  (List.range preds.length).filter fun j => (predsOf preds j).contains i

/-- Places in order with one more. -/
def insertPlace (k : Nat) : List Nat → List Nat
  | [] => [k]
  | j :: rest => if k < j then k :: j :: rest else if k = j then j :: rest else j :: insertPlace k rest

/-- How far stages are from being ready. -/
structure Countdown where
  /-- For each stage how many predecessors it still waits for. -/
  left : List Nat
  /-- The places of ready stages, in order. -/
  ready : List Nat

namespace Countdown

/-- Nothing has happened yet; `stageAt` tells which stage stands at a place. -/
def start (preds : List (List Nat)) (stageAt : Nat → Nat) : Countdown :=
  let left := preds.map List.length
  { left, ready := (List.range preds.length).filter fun k => left.getD (stageAt k) 0 = 0 }

/-- Stage `d` has one predecessor less to wait for; if it waits for none now, it is ready. -/
def release (placeOf : Nat → Nat) (c : Countdown) (d : Nat) : Countdown :=
  let left := c.left.getD d 0 - 1
  { left := c.left.set d left
    ready := if left = 0 then insertPlace (placeOf d) c.ready else c.ready }

end Countdown

/-! ## The order

  The first ready stage is placed each time, so the order is the one nearest to the declaration.  If some stages
  cannot be placed, a walk among them finds a cycle. -/

/-- Places the first ready stage each time, for at most `steps` steps: the stages in the order they
    were placed, and what the others still wait for. -/
def arrange (preds : List (List Nat)) : Nat → List Nat → Countdown → List Nat × Countdown
  | 0, placed, c => (placed, c)
  | steps + 1, placed, c =>
    match c.ready with
    | [] => (placed, c)
    | i :: rest =>
      arrange preds steps (placed ++ [i])
        ((dependentsIn preds i).foldl (Countdown.release id) { c with ready := rest })

/-- Walks from a stage to its first waiting predecessor until a stage comes up again.  `trail` holds
    the visited stages, the current one first; the answer is the cycle in the order it would run. -/
def walkCycle (preds : List (List Nat)) (waiting : List Nat) : Nat → List Nat → List Nat
  | 0, trail => trail.reverse
  | steps + 1, trail =>
    match trail with
    | [] => []
    | current :: _ =>
      match (predsOf preds current).find? waiting.contains with
      | none => trail.reverse
      | some next =>
        if trail.contains next then next :: (trail.takeWhile (· ≠ next) ++ [next])
        else walkCycle preds waiting steps (next :: trail)

/-- A cycle among stages of which none is ready. -/
def findCycle (preds : List (List Nat)) (waiting : List Nat) : List Nat :=
  match waiting with
  | [] => []
  | start :: _ => walkCycle preds waiting waiting.length [start]

/-! ## Ancestors -/

/-- The predecessors in `preds` with their ancestors as known so far. -/
def withAncestors (known : List (List Nat)) (preds : List Nat) : List Nat :=
  preds.foldl (fun found p => (known.getD p []).foldl addNew (addNew found p)) []

/-- The ancestors of every stage, found along the order. -/
def collectAncestors (preds : List (List Nat)) (order : List Nat) : List (List Nat) :=
  order.foldl (fun known i => known.set i (withAncestors known (predsOf preds i)))
    (preds.map fun _ => [])

/-! ## Places

  Stages that do not wait for each other must not write to places of which one contains the other.  The first such
  pair is reported, by the order of the declaration. -/

/-- The outer of two places of which one is in the other. -/
def overlapping? (a b : Path) : Option Path :=
  if b.startsWith a then some a else if a.startsWith b then some b else none

/-- The first overlap of a place in `as` with one in `bs`. -/
def firstOverlap (as bs : List Path) : Option Path :=
  as.findSome? fun a => bs.findSome? fun b => overlapping? a b

namespace Plan

/-- There is no dependency between the stages `a` and `b`. -/
def unrelated (p : Plan) (a b : Nat) : Bool :=
  !(p.ancestors.getD a []).contains b && !(p.ancestors.getD b []).contains a

/-- The first conflict of the stage `i` with a stage in `rest`, numbered from `j` on. -/
def conflictWith (p : Plan) (i : Nat) (first : StageSpec) (j : Nat) : List StageSpec → Option PlanError
  | [] => none
  | second :: rest =>
    let found := if p.unrelated i j then firstOverlap first.targets second.targets else none
    match found with
    | some path => some (.resourceConflict first.name second.name path)
    | none => conflictWith p i first (j + 1) rest

/-- The first conflict among stages numbered from `i` on. -/
def firstConflict (p : Plan) (i : Nat) : List StageSpec → Option PlanError
  | [] => none
  | first :: rest =>
    match p.conflictWith i first (i + 1) rest with
    | some e => some e
    | none => firstConflict p (i + 1) rest

end Plan

/-- The plan of stages with known predecessors, targets not yet looked at. -/
def planOrder (names : List String) (preds : List (List Nat)) : Except PlanError Plan :=
  let (order, c) := arrange preds preds.length [] (.start preds id)
  if order.length = preds.length then .ok ⟨names, preds, order, collectAncestors preds order⟩
  else
    let waiting := (List.range preds.length).filter fun i => 0 < c.left.getD i 0
    .error (.cyclicDependency ((findCycle preds waiting).map fun i => names.getD i ""))

/-- The plan of a list of stages. -/
def plan (specs : List StageSpec) : Except PlanError Plan :=
  if specs.isEmpty then .error .emptyPipeline
  else
    let names := specs.map (·.name)
    match firstRepeated [] names with
    | some name => .error (.duplicateStage name)
    | none =>
      match resolveAll names specs with
      | .error e => .error e
      | .ok preds =>
        match planOrder names preds with
        | .error e => .error e
        | .ok p =>
          match p.firstConflict 0 specs with
          | some e => .error e
          | none => .ok p

namespace Plan

/-! ## Questions to a plan

  Asked by name and answered by name. -/

def nameOf (p : Plan) (i : Nat) : String := p.names.getD i ""

/-- The number of a declared stage. -/
def index? (p : Plan) (stage : String) : Option Nat := p.names.idxOf? stage

/-- The names in the order to start them. -/
def orderedNames (p : Plan) : List String := p.order.map p.nameOf

/-- The place of a stage in the order. -/
def position? (p : Plan) (stage : String) : Option Nat := (p.index? stage).bind p.order.idxOf?

/-- The stages that wait for stage `i`, as declared. -/
def dependentsOf (p : Plan) (i : Nat) : List Nat := dependentsIn p.predecessors i

/-- The names of the stages that a stage waits for. -/
def predecessorNames (p : Plan) (stage : String) : List String :=
  match p.index? stage with
  | none => []
  | some i => (predsOf p.predecessors i).map p.nameOf

/-- The names of the stages that wait for a stage. -/
def dependentNames (p : Plan) (stage : String) : List String :=
  match p.index? stage with
  | none => []
  | some i => (p.dependentsOf i).map p.nameOf

/-- `stage` waits for `other`, directly or not. -/
def dependsOn (p : Plan) (stage other : String) : Bool :=
  match p.index? stage, p.index? other with
  | some s, some o => (p.ancestors.getD s []).contains o
  | _, _ => false

/-- The two stages are different and neither waits for the other. -/
def canRunConcurrently (p : Plan) (a b : String) : Bool :=
  match p.index? a, p.index? b with
  | some a, some b => a != b && p.unrelated a b
  | _, _ => false

end Plan

end Wheelwright
