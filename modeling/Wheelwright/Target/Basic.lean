/-
  Build targets — a project built through its backend.

  **State.**  A target keeps the project as it was when its pipeline was planned, the pipeline, and
  the numbers under which the host knows its stages.  It may have been invalidated, which makes the
  next build plan anew, and it may have been closed, which is for good.

  **Steps** — each operation here is one step that nothing comes between.  `prepareRun` reads the
  project again, plans anew if it was changed or the target invalidated, and arms a run; a failure
  leaves the target as it was, and an invalidation pending.  `cancel` trips the token of the run
  that is armed or in progress.  `close` cancels and takes the stages from the host.
-/
import Wheelwright.Artifact
import Wheelwright.Target.Stages

namespace Wheelwright

/-! ## The host

  The host numbers stages in the order in which it hears of them, and never uses a number again. -/

/-- The number under which the host knows a stage. -/
abbrev HostStageId := Nat

/-- What the host was asked for. -/
inductive HostCall where
  | register (stage : String) (predecessors : List String) (id : HostStageId)
  | unregister (id : HostStageId)
  deriving DecidableEq

/-- The host's stage graph: all calls so far, and the number of the next stage. -/
structure HostGraph where
  next : HostStageId := 0
  calls : List HostCall := []
  deriving DecidableEq

namespace HostGraph

/-- The host learns of a stage. -/
def register (h : HostGraph) (stage : String) (predecessors : List String) : HostGraph × HostStageId :=
  ({ next := h.next + 1, calls := h.calls ++ [.register stage predecessors h.next] }, h.next)

/-- The host forgets a stage. -/
def unregister (h : HostGraph) (id : HostStageId) : HostGraph :=
  { h with calls := h.calls ++ [.unregister id] }

/-- The host learns of the stages of a plan, in its order. -/
def registerAll (h : HostGraph) (p : Plan) : HostGraph × List HostStageId :=
  p.orderedNames.foldl (fun (h, ids) name =>
    let (h, id) := h.register name (p.predecessorNames name)
    (h, ids ++ [id])) (h, [])

/-- The host forgets stages. -/
def unregisterAll (h : HostGraph) (ids : List HostStageId) : HostGraph := ids.foldl unregister h

end HostGraph

/-- The number of a stage as text. -/
def hostStageText (id : HostStageId) : String := "host-stage-" ++ toString id

/-! ## The target -/

/-- A project with its pipeline. -/
structure BuildTarget where
  config : TargetConfig
  projectFile : Path
  services : TargetServices
  project : Project
  backend : Backend
  pipeline : Pipeline
  bodies : List StageBody
  hostStages : List HostStageId := []
  invalidated : Bool := false
  closed : Bool := false

namespace BuildTarget

/-- The name by which hosts know targets of this kind. -/
def id : String := "python_517_build_system"

/-- The name that users see. -/
def displayName : String := "Python (pyproject.toml)"

/-- The rank among the build systems that claim a project. -/
def priority : Nat := 500

/-- The name of a target's pipeline. -/
def pipelineName : String := "python-517"

/-- The languages that a target builds. -/
def supportsLanguage (language : String) : Bool := language = "python3"

/-! ## Planning

  A target is planned from its files each time.  A pipeline that was planned anew is made known to the host when it
  takes the place of the old one. -/

/-- The backend that builds a project in the configured way. -/
def backendFor (c : TargetConfig) (p : Project) (s : TargetServices) : Except BuildError Backend := do
  let b ← s.backends.resolve p.buildBackend
  if b.supports c.buildType then return b
  else throw (.unsupportedBuildType b.displayName c.buildType.text)

/-- A target with a newly planned pipeline, unknown to the host. -/
def configure (c : TargetConfig) (file : Path) (s : TargetServices) (t : FileTree) :
    Except BuildError BuildTarget := do
  let project ← Project.load file t
  let backend ← backendFor c project s
  let stages ← TargetStages.declare c project backend s
  match Pipeline.build pipelineName (stages.map (·.1)) c.pipeline with
  | .error e => throw (.plan e)
  | .ok pipeline =>
    return { config := c, projectFile := file, services := s, project, backend, pipeline
             bodies := stages.map fun x => .backend x.2 }

/-- The target with its stages known to the host. -/
def registered (t : BuildTarget) (h : HostGraph) : BuildTarget × HostGraph :=
  let (h, hostStages) := h.registerAll t.pipeline.plan
  ({ t with hostStages }, h)

/-- A new target. -/
def create (c : TargetConfig) (file : Path) (s : TargetServices) (tree : FileTree) (h : HostGraph) :
    Except BuildError (BuildTarget × HostGraph) := do
  return (← configure c file s tree).registered h

/-! ## Steps

  What a target does in one go.  What other calls may do between two of these steps is up to its clients. -/

/-- The next build plans anew. -/
def invalidate (t : BuildTarget) : BuildTarget := { t with invalidated := true }

/-- Cancels the run that is armed or in progress, and tells whether there was one. -/
def cancel (t : BuildTarget) (reason : String) (f : Forest) : Forest × Bool := t.pipeline.cancel reason f

/-- A newly planned target takes the place of this one. -/
def replan (t next : BuildTarget) (h : HostGraph) : BuildTarget × HostGraph :=
  { next with closed := t.closed }.registered (h.unregisterAll t.hostStages)

/-- Gets a run ready and arms its token: the target and the host after that, and the error if there
    is no run. -/
def prepareRun (t : BuildTarget) (token : TokenId) (tree : FileTree) (h : HostGraph) :
    BuildTarget × HostGraph × Option BuildError :=
  match Project.load t.projectFile tree with
  | .error e => (t, h, some e)
  | .ok project =>
    if t.invalidated || project ≠ t.project then
      match configure t.config t.projectFile t.services tree with
      | .error e => (t.invalidate, h, some e)
      | .ok next =>
        let (t, h) := t.replan next h
        ({ t with pipeline := t.pipeline.arm token }, h, none)
    else ({ t with pipeline := t.pipeline.arm token }, h, none)

/-- The run is over. -/
def finishRun (t : BuildTarget) : BuildTarget := { t with pipeline := t.pipeline.disarm }

/-- Why a closed target cancels its run. -/
def closeReason : String := "build target closed"

/-- Closes the target; once it is closed nothing more happens. -/
def close (t : BuildTarget) (f : Forest) (h : HostGraph) : BuildTarget × Forest × HostGraph :=
  if t.closed then (t, f, h)
  else
    ({ t with closed := true, hostStages := [] }, (t.cancel closeReason f).1, h.unregisterAll t.hostStages)

/-! ## Looking at a target -/

def builddir (t : BuildTarget) : Path := t.backend.builddir t.project.root

/-- The keys of all records of the target start with this. -/
def storeStart (t : BuildTarget) : String := storeKey t.project.path ""

/-- The stage that cleans. -/
def cleanBody (t : BuildTarget) : Except BuildError StageBody :=
  TargetStages.clean t.config t.project t.backend t.services

/-- The files in the build directory, in the order of their names. -/
def artifacts (t : BuildTarget) (tree : FileTree) : Except BuildError (List Artifact) :=
  match tree.readDirectory t.builddir with
  | .ok entries =>
    .ok (entries.filterMap fun e =>
      match e.2 with
      | .file _ _ => some (.ofPath (t.builddir.child e.1))
      | _ => none)
  | .error .notFound => .ok []
  | .error e => .error (.io e.message)

/-- The target with the names of its parts. -/
def debugText (t : BuildTarget) : String :=
  "BuildTarget \x7b project_file: " ++ quotePath t.projectFile.text ++ ", backend: " ++
    quoteText t.backend.id ++ ", pipeline: " ++ t.pipeline.debugText ++ ", closed: " ++
    (if t.closed then "true" else "false") ++ ", .. \x7d"

end BuildTarget

end Wheelwright
