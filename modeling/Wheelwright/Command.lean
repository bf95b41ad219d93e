/-
  Commands — programs with arguments, and templates for them.

  A template's parts may hold placeholders.  Rendering goes through the placeholders in a fixed order
  and puts each one's value into every part; a part that is nothing but the backend's argument is
  dropped when there is none.  The order shows: text that a value brings in is looked at again by the
  placeholders that come later.
-/
import Wheelwright.Json.Record
import Wheelwright.Path
import Wheelwright.Span

namespace Wheelwright

/-! ## Commands -/

/-- A program to run. -/
structure Command where
  program : String
  args : List String := []
  cwd : Path
  env : List (String × String) := []
  timeout : Option Span := none
  deriving DecidableEq

namespace Command

/-- The command of a program and its arguments; nothing for an empty list. -/
def ofArgv? (argv : List String) (cwd : Path) : Option Command :=
  match argv with
  | [] => none
  | program :: args => some { program, args, cwd }

/-- Program and arguments with spaces between them. -/
def text (c : Command) : String := " ".intercalate (c.program :: c.args)

/-- Seconds and the nanoseconds beyond them. -/
def spanJson (d : Span) : Json :=
  .object [("secs", .nat d.wholeSeconds), ("nanos", .nat d.subsecNanos)]

/-- The span of seconds and nanoseconds, if its seconds fit a word of 64 bits. -/
def spanOfParts? (secs nanos : Nat) : Option Span :=
  let total := secs * Span.perSecond + nanos
  if total / Span.perSecond < Nat.pow 2 64 then some ⟨total⟩ else none

/-- A span with both its parts and nothing else. -/
def spanOfJson? (j : Json) : Option Span :=
  let strict :=
    match j with
    | .object fields => fields.all fun f => f.1 = "secs" || f.1 = "nanos"
    | _ => true
  if !strict then none
  else do
    let r ← Json.record? ["secs", "nanos"] j
    let secs ← r.required "secs" (Json.natUpTo? (Nat.pow 2 64 - 1))
    let nanos ← r.required "nanos" (Json.natUpTo? (Nat.pow 2 32 - 1))
    spanOfParts? secs nanos

/-- A pair of texts. -/
def pairOfJson? : Json → Option (String × String)
  | .array [.string a, .string b] => some (a, b)
  | _ => none

def toJson (c : Command) : Json :=
  .object ([("program", .string c.program), ("args", .strings c.args), ("cwd", .string c.cwd.text),
    ("env", .array (c.env.map fun e => .strings [e.1, e.2]))] ++ Json.fieldOf "timeout" spanJson c.timeout)

def ofJson? (j : Json) : Option Command := do
  let r ← Json.record? ["program", "args", "cwd", "env", "timeout"] j
  let program ← r.required "program" Json.text?
  let args ← r.defaulted "args" [] (Json.list? Json.text?)
  let cwd ← r.required "cwd" Json.text?
  let env ← r.defaulted "env" [] (Json.list? pairOfJson?)
  let timeout ← r.optional "timeout" spanOfJson?
  some { program, args, cwd := ⟨cwd⟩, env, timeout }

end Command

/-! ## Templates

  Placeholders are filled one after another in a fixed order, each pass over the text that the one before has left.
  So a value in which a placeholder stands is filled, too, if that one comes later. -/

/-- `cs` with every occurrence of `needle` replaced, from the left; `skip` characters at the front
    belong to an occurrence already replaced. -/
def replaceFrom (needle value : List Char) (skip : Nat) : List Char → List Char
  | [] => []
  | c :: rest =>
    match skip with
    | k + 1 => replaceFrom needle value k rest
    | 0 =>
      if needle.isPrefixOf (c :: rest) then value ++ replaceFrom needle value (needle.length - 1) rest
      else c :: replaceFrom needle value 0 rest

/-- `s` with every occurrence of `needle` replaced. -/
def replaceAll (needle value s : String) : String :=
  String.ofList (replaceFrom needle.toList value.toList 0 s.toList)

/-- What a template may ask for. -/
inductive Placeholder where
  | projectRoot
  | targetDir
  | venv
  | python
  | backendArg
  deriving DecidableEq

namespace Placeholder

/-- A placeholder as it stands in a template. -/
def text : Placeholder → String
  | .projectRoot => "\x7bproject_root\x7d"
  | .targetDir => "\x7btarget_dir\x7d"
  | .venv => "\x7bvenv\x7d"
  | .python => "\x7bpython\x7d"
  | .backendArg => "\x7bbackend_arg\x7d"

/-- The order in which placeholders are filled. -/
def inOrder : List Placeholder := [.projectRoot, .targetDir, .venv, .python, .backendArg]

end Placeholder

/-- The values of placeholders. -/
structure TemplateVars where
  projectRoot : Path := ⟨""⟩
  targetDir : Path := ⟨""⟩
  backendArg : Option String := none
  python : String := ""
  venv : Path := ⟨""⟩

namespace TemplateVars

/-- The values for a project, with the usual interpreter and environment. -/
def ofProject (projectRoot targetDir : Path) : TemplateVars :=
  { projectRoot, targetDir, python := "python3", venv := ⟨".venv"⟩ }

/-- The text of a placeholder; an argument that is not set is empty. -/
def value (v : TemplateVars) : Placeholder → String
  | .projectRoot => v.projectRoot.text
  | .targetDir => v.targetDir.text
  | .venv => v.venv.text
  | .python => v.python
  | .backendArg => v.backendArg.getD ""

end TemplateVars

/-- A command with placeholders. -/
structure CommandTemplate where
  parts : List String
  deriving DecidableEq

namespace CommandTemplate

/-- The template with its program looked up in `dir`. -/
def withProgramDir (t : CommandTemplate) (dir : Path) : CommandTemplate :=
  match t.parts with
  | [] => t
  | program :: rest => ⟨(dir.child program).text :: rest⟩

/-- A part with every placeholder filled, one after another. -/
def fill (v : TemplateVars) (part : String) : String :=
  Placeholder.inOrder.foldl (fun s p => replaceAll p.text (v.value p) s) part

/-- What a part becomes, if it stays. -/
def renderPart (v : TemplateVars) (part : String) : Option String :=
  if part = Placeholder.backendArg.text then v.backendArg else some (fill v part)

/-- The program and arguments of a template. -/
def render (t : CommandTemplate) (v : TemplateVars) : List String := t.parts.filterMap (renderPart v)

/-- The command of a template; nothing when no part is left. -/
def toCommand? (t : CommandTemplate) (v : TemplateVars) (cwd : Path) : Option Command :=
  Command.ofArgv? (t.render v) cwd

def toJson (t : CommandTemplate) : Json := .object [("argv", .strings t.parts)]

def ofJson? (j : Json) : Option CommandTemplate := do
  let r ← Json.record? ["argv"] j
  (r.required "argv" (Json.list? Json.text?)).map CommandTemplate.mk

end CommandTemplate

end Wheelwright
