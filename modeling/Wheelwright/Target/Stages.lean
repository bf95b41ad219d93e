/-
  Stages of a target — how a project is prepared, built and installed.

  **Program** — three stages in a row: `prepare` makes the virtual environment, `build` lets the
  backend write distributions to the build directory, and `install` puts them into the environment.
  Each is guarded by the fingerprint of the same inputs: all source files below the project's root
  but the environment, the build directory and what the backend is known to leave beside it.

  A backend that makes no environment of its own is run with the interpreter of the project's.
-/
import Wheelwright.Fingerprint
import Wheelwright.Pipeline
import Wheelwright.Project
import Wheelwright.Stage.Body

namespace Wheelwright

/-- What a target works with. -/
structure TargetServices where
  backends : BackendRegistry
  classifiers : ClassifierRegistry
  /-- The number of the fingerprint store. -/
  store : Nat

namespace TargetStages

def prepareName : String := "prepare"
def buildName : String := "build"
def installName : String := "install"
def cleanName : String := "clean"

/-- The directory of programs in a virtual environment. -/
def programDir : String := "bin"

/-- The virtual environment of a project. -/
def environment (c : TargetConfig) (root : Path) : Path := root.join c.venvDir

/-- The values of placeholders in a target's commands. -/
def vars (c : TargetConfig) (root builddir : Path) : TemplateVars :=
  { TemplateVars.ofProject root builddir with
    python := c.python, venv := environment c root, backendArg := c.buildType.backendArg }

/-- The command of a template, which must not be empty. -/
def render (t : CommandTemplate) (v : TemplateVars) (root : Path) (b : Backend) (stage : String) :
    Except BuildError Command :=
  match t.toCommand? v root with
  | some c => .ok c
  | none => .error (.config ("backend '" ++ b.id ++ "' has an empty " ++ stage ++ " command"))

/-! ## Commands

  Commands are templates that are filled with the paths of the project and with its name. -/

/-- The command that makes the environment. -/
def prepareTemplate : CommandTemplate :=
  ⟨[Placeholder.python.text, "-m", "venv", Placeholder.venv.text]⟩

/-- What is installed: the project by its name, or by its place. -/
def packageOf (p : Project) : String := p.name.getD p.root.text

/-- The command that installs what was built. -/
def installTemplate (package : String) (bin : Path) : CommandTemplate :=
  CommandTemplate.withProgramDir
    ⟨["python", "-m", "pip", "install", "--no-deps", "--force-reinstall", "--no-index", "--find-links",
      Placeholder.targetDir.text, package]⟩ bin

/-- The command that builds. -/
def buildCommand (c : TargetConfig) (b : Backend) (root : Path) : Except BuildError Command :=
  let v := vars c root (b.builddir root)
  if b.hasIsolation then render b.buildArgv v root b buildName
  else
    let bin := (environment c root).child programDir
    render (b.buildArgv.withProgramDir bin) { v with python := "python" } root b buildName

/-! ## Stages

  Three stages, each of which waits for the one before it, and one that cleans and stands alone. -/

/-- What the staleness of every stage depends on. -/
def inputs (c : TargetConfig) (p : Project) (b : Backend) : StalenessInputs where
  configFile := p.path
  sourceRoot := p.root
  excluded := [environment c p.root, b.builddir p.root]
  excludedGlobs := b.byproducts

/-- The time that a stage may take. -/
def timeout (c : TargetConfig) : Except BuildError (Option Span) :=
  match c.pipeline.stageTimeout with
  | .ok d => .ok d
  | .error e => .error (.timeoutOverflow e.seconds)

/-- A stage of the target. -/
def stage (i : StalenessInputs) (s : TargetServices) (timeout : Option Span) (name : String)
    (command : Command) (classifier : Classifier) : BackendStage where
  name
  command := { command with timeout := timeout.or command.timeout }
  classifier
  staleness := some { inputs := i, store := s.store, key := storeKey i.configFile name }

/-- The stages of a project, in order. -/
def declare (c : TargetConfig) (p : Project) (b : Backend) (s : TargetServices) :
    Except BuildError (List (StageSpec × BackendStage)) := do
  let root := p.root
  let venv := environment c root
  let builddir := b.builddir root
  let v := vars c root builddir
  let prepare ← render prepareTemplate v root b prepareName
  let build ← buildCommand c b root
  let install ← render (installTemplate (packageOf p) (venv.child programDir)) v root b installName
  let timeout ← timeout c
  let stage := stage (inputs c p b) s timeout
  let installer := s.classifiers.get Classifier.pep517.id
  return [
    ({ name := prepareName, targets := [venv] }, stage prepareName prepare installer),
    ({ name := buildName, predecessors := [prepareName], targets := [builddir] },
      stage buildName build (s.classifiers.get b.classifier)),
    ({ name := installName, predecessors := [buildName], targets := [venv] },
      stage installName install installer)]

/-- The stage that cleans: the backend's own command, or emptying the build directory. -/
def clean (c : TargetConfig) (p : Project) (b : Backend) (s : TargetServices) :
    Except BuildError StageBody :=
  let builddir := b.builddir p.root
  match b.cleanArgv with
  | none => .ok (.clean { name := cleanName, buildDir := builddir })
  | some t => do
    let command ← render t (vars c p.root builddir) p.root b cleanName
    return .backend { name := cleanName, command, classifier := s.classifiers.get b.classifier }

end TargetStages

end Wheelwright
