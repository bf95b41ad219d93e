/-
  Paths of the system — octets that need not be text.

  **Two kinds of paths.**  A `Path` is text, and all of the program that prints, joins or compares paths is about these.
  The system knows paths of any octets.  A path of the system that is text is a `Path`; of another one, the program shows
  and stores a lossy text, and writes no JSON at all.

  **Records** — places, diagnostics, commands and artifacts with paths of the system in them.  Each is the record that has
  the paths' texts, if all of them are texts (`text?`), and there is no other way from the one to the other (`ofText`).
-/
import Wheelwright.Artifact
import Wheelwright.Command
import Wheelwright.Diagnostic
import Wheelwright.Text.Utf8

namespace Wheelwright

/-- A path as the system has it. -/
structure OsPath where
  octets : Bytes

namespace OsPath

/-- The path is text. -/
def IsText (p : OsPath) : Prop := ∃ text, p.octets = Utf8.encode text

/-- The path that is spelled by a text. -/
def ofText (p : Path) : OsPath := ⟨Utf8.encode p.text⟩

/-- The path as text, if it is one. -/
def text? (p : OsPath) : Option Path := (Utf8.decode? p.octets).map Path.mk

end OsPath

/-! ## Records with paths

  The same records as elsewhere, with a path of the system in the place of a text. -/

/-- A line of a source file at any path. -/
structure OsLocation where
  file : OsPath
  line : Nat
  column : Option Nat := none

namespace OsLocation

def ofText (l : SourceLocation) : OsLocation := { file := .ofText l.file, line := l.line, column := l.column }

def text? (l : OsLocation) : Option SourceLocation :=
  l.file.text?.map fun file => { file, line := l.line, column := l.column }

end OsLocation

/-- A diagnostic about a line of such a file. -/
structure OsDiagnostic where
  severity : Severity
  kind : EventKind
  message : String
  location : Option OsLocation := none
  stream : Option OutputStream := none

namespace OsDiagnostic

def ofText (d : Diagnostic) : OsDiagnostic :=
  { severity := d.severity, kind := d.kind, message := d.message, location := d.location.map .ofText
    stream := d.stream }

/-- The diagnostic with its place in text; one without a place is text as it is. -/
def text? (d : OsDiagnostic) : Option Diagnostic :=
  match d.location with
  | none => some { severity := d.severity, kind := d.kind, message := d.message, stream := d.stream }
  | some l => l.text?.map fun place =>
    { severity := d.severity, kind := d.kind, message := d.message, location := some place, stream := d.stream }

end OsDiagnostic

/-- A program to run in any directory. -/
structure OsCommand where
  program : String
  args : List String := []
  cwd : OsPath
  env : List (String × String) := []
  timeout : Option Span := none

namespace OsCommand

def ofText (c : Command) : OsCommand :=
  { program := c.program, args := c.args, cwd := .ofText c.cwd, env := c.env, timeout := c.timeout }

def text? (c : OsCommand) : Option Command :=
  c.cwd.text?.map fun cwd => { program := c.program, args := c.args, cwd, env := c.env, timeout := c.timeout }

end OsCommand

/-- A file of any name that a build left. -/
structure OsArtifact where
  path : OsPath
  kind : ArtifactKind

namespace OsArtifact

def ofText (a : Artifact) : OsArtifact := { path := .ofText a.path, kind := a.kind }

def text? (a : OsArtifact) : Option Artifact := a.path.text?.map fun path => { path, kind := a.kind }

end OsArtifact

end Wheelwright
