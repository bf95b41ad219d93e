/-
  Build backends — how the distributions of a project are built.

  A project names its backend by an identifier; the registry maps identifiers to backends.  Several
  identifiers share the front end that builds with any of them.
-/
import Wheelwright.Classifier
import Wheelwright.Command
import Wheelwright.Error

namespace Wheelwright

/-! ## What to build -/

/-- The distributions to build. -/
inductive BuildType where
  | sdist
  | wheel
  | both
  deriving DecidableEq, Inhabited

namespace BuildType

def name : BuildType → String
  | .sdist => "sdist"
  | .wheel => "wheel"
  | .both => "both"

def ofName? (s : String) : Option BuildType := [BuildType.sdist, .wheel, .both].find? fun t => t.name = s

/-- The distributions in words. -/
def text : BuildType → String
  | .sdist => "sdist"
  | .wheel => "wheel"
  | .both => "sdist and wheel"

/-- The argument that selects the distributions; both need none. -/
def backendArg : BuildType → Option String
  | .sdist => some "--sdist"
  | .wheel => some "--wheel"
  | .both => none

def toJson (t : BuildType) : Json := .string t.name

/-- The build type that `j` writes; `unit` is the format's value for no data. -/
def read? (unit : Json) (j : Json) : Option BuildType := (Json.variant? unit j).bind ofName?

end BuildType

/-! ## Backends -/

/-- A way to build a project. -/
structure Backend where
  id : String
  displayName : String
  buildTypes : List BuildType
  buildArgv : CommandTemplate
  /-- The command to clean with, when removing the build directory is not enough. -/
  cleanArgv : Option CommandTemplate := none
  /-- The backend makes its own environment to build in. -/
  hasIsolation : Bool
  builddirName : String := "dist"
  /-- Patterns of what a build leaves outside the build directory. -/
  byproducts : List String := []
  classifier : String := Classifier.pep517.id

namespace Backend

/-- The build directory of the project at `root`. -/
def builddir (b : Backend) (root : Path) : Path := root.child b.builddirName

def supports (b : Backend) (t : BuildType) : Bool := b.buildTypes.contains t

/-- The front end that builds with any backend, in an environment of its own. -/
def pypaBuild : Backend where
  id := "pypa-build"
  displayName := "Pypa Build"
  buildTypes := [.sdist, .wheel, .both]
  buildArgv := ⟨[Placeholder.python.text, "-m", "build", Placeholder.backendArg.text, "--outdir",
    Placeholder.targetDir.text, Placeholder.projectRoot.text]⟩
  hasIsolation := true
  byproducts := ["/build", "*.egg-info"]

end Backend

/-! ## The registry -/

/-- Backends by the identifiers that projects name. -/
structure BackendRegistry where
  entries : List (String × Backend)

namespace BackendRegistry

def empty : BackendRegistry := ⟨[]⟩

/-- The identifiers that the usual front end builds for. -/
def standardIdentifiers : List String :=
  ["setuptools.build_meta", "setuptools.build_meta:__legacy__", "flit_core.buildapi",
    "hatchling.build", "poetry.core.masonry.api", "pdm.backend"]

def standard : BackendRegistry := ⟨standardIdentifiers.map fun id => (id, .pypaBuild)⟩

/-- The registry with `identifier` standing for `b`. -/
def register (r : BackendRegistry) (identifier : String) (b : Backend) : BackendRegistry :=
  ⟨(identifier, b) :: r.entries.filter (·.1 ≠ identifier)⟩

/-- The backend that a project asks for. -/
def resolve (r : BackendRegistry) (identifier : String) : Except BuildError Backend :=
  match r.entries.lookup identifier with
  | some b => .ok b
  | none => .error (.unsupportedBackend identifier)

/-- The known identifiers, sorted. -/
def identifiers (r : BackendRegistry) : List String :=
  (r.entries.map (·.1)).mergeSort fun a b => decide (a ≤ b)

end BackendRegistry

end Wheelwright
