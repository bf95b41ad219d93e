/-
  Reports — values as JSON for someone who looks at them.

  A report says more than what is needed to read a value back: texts that were made of it, lengths of
  time in words, what a configuration comes to.
-/
import Wheelwright.Project
import Wheelwright.Target.Basic
import Wheelwright.Window

namespace Wheelwright

namespace Json

/-- A path as its text. -/
def path (p : Path) : Json := .string p.text

/-- A value, or nothing. -/
def orNull (v : Option String) : Json := Json.ofOption Json.string v

end Json

/-- A span in seconds and nanoseconds, and in words. -/
def Span.report (d : Span) : Json :=
  .object [("secs", .nat d.wholeSeconds), ("nanos", .nat d.subsecNanos), ("debug", .string d.debugText)]

/-- A command with its text. -/
def Command.report (c : Command) : Json :=
  .object [("program", .string c.program), ("args", .strings c.args), ("cwd", .path c.cwd),
    ("env", .array (c.env.map fun e => .strings [e.1, e.2])),
    ("timeout", Json.ofOption Span.report c.timeout), ("display", .string c.text)]

/-! ## Errors -/

/-- A planning error with its stages and information. -/
def PlanError.report (e : PlanError) : Json :=
  .object [("error", .string e.name), ("message", .string e.message), ("stages", .strings e.stages),
    ("info", e.info.brief)]

/-- An error with its wording, where it has one of its own. -/
def BuildError.report (e : BuildError) : Json :=
  match e with
  | .plan p => p.report
  | .invalidToml | .invalidConfig => .object [("error", .string e.name)]
  | _ => .object [("error", .string e.name), ("message", .string e.message)]

/-! ## Configurations -/

/-- How stages are run, and what the numbers come to; a timeout may be too long for a span. -/
def PipelineConfig.report (c : PipelineConfig) : Json :=
  let timeout :=
    match c.stageTimeout with
    | .ok d => Json.ofOption Span.report d
    | .error _ => .string "panic"
  .object [("max_workers", .nat c.maxWorkers), ("workers", .nat c.workers),
    ("grace_period_ms", .nat c.gracePeriodMs), ("grace_period", c.gracePeriod.report),
    ("stage_timeout_bits", .orNull (c.stageTimeoutSeconds.map (·.bitsText))),
    ("stage_timeout", timeout), ("state_file", .orNull (c.stateFile.map (·.text)))]

def TargetConfig.report (c : TargetConfig) : Json :=
  .object [("project_file", .path c.projectFile), ("python", .string c.python), ("venv_dir", .path c.venvDir),
    ("build_type", c.buildType.toJson), ("build_type_text", .string c.buildType.text),
    ("pipeline", c.pipeline.report)]

def Project.report (p : Project) : Json :=
  .object [("path", .path p.path), ("root", .path p.root), ("build_backend", .string p.buildBackend),
    ("requires", .strings p.requires), ("backend_path", .strings (p.backendPath.map (·.text))),
    ("name", .orNull p.name), ("version", .orNull p.version)]

/-- A backend, as it builds the project at `root`. -/
def Backend.report (b : Backend) (root : Path) : Json :=
  .object [("id", .string b.id), ("display_name", .string b.displayName),
    ("build_types", .array (b.buildTypes.map BuildType.toJson)), ("builddir_name", .string b.builddirName),
    ("builddir", .path (b.builddir root)), ("byproducts", .strings b.byproducts),
    ("build_argv", .strings b.buildArgv.parts),
    ("clean_argv", Json.ofOption (fun t : CommandTemplate => .strings t.parts) b.cleanArgv),
    ("isolation", .bool b.hasIsolation), ("classifier", .string b.classifier),
    ("supports", .array ([BuildType.sdist, .wheel, .both].map fun t => .bool (b.supports t)))]

/-! ## What happened -/

/-- All closed windows, and the peaks of some paths. -/
def WindowRecorder.report (r : WindowRecorder) (paths : List Path) : Json :=
  .object [("closed", .array (r.closed.map fun w => .array [.path w.path, .string w.writer, .bool true])),
    ("peaks", .array (paths.map fun p => .nat (r.peakWriters p))), ("overlap", .bool r.anyOverlap),
    ("concurrency", .nat r.peakConcurrency)]

/-- A tripped or untripped token. -/
def Forest.report (f : Forest) (id : TokenId) : Json :=
  .object [("cancelled", .bool (f.isCancelled id)),
    ("reason", Json.ofOption CancelReason.toJson (f.reason? id)),
    ("text", .orNull ((f.reason? id).map (·.text))), ("timeout", .bool (f.isTimeout id))]

/-- What the host was asked for. -/
def HostCall.report : HostCall → Json
  | .register stage predecessors id =>
    .array [.string "register", .string stage, .strings predecessors, .string (hostStageText id)]
  | .unregister id => .strings ["unregister", hostStageText id]

/-- A target, and which of some languages it builds. -/
def BuildTarget.report (t : BuildTarget) (languages : List String) : Json :=
  .object [("id", .string BuildTarget.id), ("display_name", .string BuildTarget.displayName),
    ("priority", .nat BuildTarget.priority),
    ("languages", .array (languages.map fun l => .bool (BuildTarget.supportsLanguage l))),
    ("project_file", .path t.projectFile), ("config", t.config.report), ("project", t.project.report),
    ("builddir", .path t.builddir), ("pipeline", .string t.pipeline.name),
    ("order", .strings t.pipeline.plan.orderedNames),
    ("targets", .array (t.pipeline.specs.map fun s => .strings (s.targets.map (·.text)))),
    ("running", .bool t.pipeline.isRunning), ("closed", .bool t.closed)]

/-- A pipeline, as it stands. -/
def Pipeline.report (p : Pipeline) : Json :=
  .object [("name", .string p.name), ("order", .strings p.plan.orderedNames),
    ("running", .bool p.isRunning), ("workers", .nat p.config.workers), ("unknown", .null),
    ("stages", .strings p.plan.names)]

end Wheelwright
