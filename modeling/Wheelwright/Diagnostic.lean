/-
  Diagnostics — lines of a tool's output, and what they tell.

  An output line comes from one of two streams and has no line end.  A diagnostic has a severity, a
  kind, a message and, where the line gives them, a place in a source file and the stream it came
  from.
-/
import Wheelwright.Json.Record
import Wheelwright.Path
import Wheelwright.Text.CharClass

namespace Wheelwright

/-! ## Streams and lines

  Lines lose the line ends that close them, of which there may be several. -/

/-- One of the two output streams of a process. -/
inductive OutputStream where
  | stdout
  | stderr
  deriving DecidableEq

namespace OutputStream

def name : OutputStream → String
  | .stdout => "stdout"
  | .stderr => "stderr"

def ofName? (s : String) : Option OutputStream := [OutputStream.stdout, .stderr].find? fun x => x.name = s

def toJson (s : OutputStream) : Json := .string s.name

def ofJson? (j : Json) : Option OutputStream := (Json.variant? .null j).bind ofName?

end OutputStream

/-- A line of output. -/
structure OutputLine where
  stream : OutputStream
  text : String
  deriving DecidableEq

namespace OutputLine

/-- A character of a line end. -/
def isLineEnd (c : Char) : Bool := c = '\n' || c = '\r'

/-- The line of a text, without the line ends that close it. -/
def ofText (stream : OutputStream) (text : String) : OutputLine := ⟨stream, dropEndWhile isLineEnd text⟩

def toJson (l : OutputLine) : Json := .object [("stream", l.stream.toJson), ("text", .string l.text)]

def ofJson? (j : Json) : Option OutputLine := do
  let r ← Json.record? ["stream", "text"] j
  let stream ← r.required "stream" OutputStream.ofJson?
  let text ← r.required "text" Json.text?
  some ⟨stream, text⟩

end OutputLine

/-! ## Severity and kind -/

/-- How serious a diagnostic is. -/
inductive Severity where
  | info
  | warning
  | error
  deriving DecidableEq

namespace Severity

def name : Severity → String
  | .info => "info"
  | .warning => "warning"
  | .error => "error"

def ofName? (s : String) : Option Severity := [Severity.info, .warning, .error].find? fun x => x.name = s

def toJson (s : Severity) : Json := .string s.name

def ofJson? (j : Json) : Option Severity := (Json.variant? .null j).bind ofName?

end Severity

/-- What a diagnostic is about. -/
inductive EventKind where
  | log
  | progress
  | problem
  deriving DecidableEq

namespace EventKind

def name : EventKind → String
  | .log => "log"
  | .progress => "progress"
  | .problem => "problem"

def ofName? (s : String) : Option EventKind := [EventKind.log, .progress, .problem].find? fun x => x.name = s

def toJson (k : EventKind) : Json := .string k.name

def ofJson? (j : Json) : Option EventKind := (Json.variant? .null j).bind ofName?

end EventKind

/-! ## Places -/

/-- A line of a source file, and maybe a column of it. -/
structure SourceLocation where
  file : Path
  line : Nat
  column : Option Nat := none
  deriving DecidableEq

namespace SourceLocation

/-- The greatest line or column. -/
def maxNumber : Nat := Nat.pow 2 32 - 1

/-- File, line and column with colons between them. -/
def text (l : SourceLocation) : String :=
  let start := l.file.text ++ ":" ++ toString l.line
  match l.column with
  | none => start
  | some c => start ++ ":" ++ toString c

def toJson (l : SourceLocation) : Json :=
  .object ([("file", .string l.file.text), ("line", .nat l.line)] ++ Json.fieldOf "column" Json.nat l.column)

def ofJson? (j : Json) : Option SourceLocation := do
  let r ← Json.record? ["file", "line", "column"] j
  let file ← r.required "file" Json.text?
  let line ← r.required "line" (Json.natUpTo? maxNumber)
  let column ← r.optional "column" (Json.natUpTo? maxNumber)
  some { file := ⟨file⟩, line, column }

end SourceLocation

/-! ## Diagnostics

  A diagnostic without a place is about the whole line. -/

/-- What a line of output tells. -/
structure Diagnostic where
  severity : Severity
  kind : EventKind
  message : String
  location : Option SourceLocation := none
  stream : Option OutputStream := none
  deriving DecidableEq

namespace Diagnostic

def info (message : String) : Diagnostic := { severity := .info, kind := .log, message }

def progress (message : String) : Diagnostic := { severity := .info, kind := .progress, message }

def warning (message : String) : Diagnostic := { severity := .warning, kind := .problem, message }

def error (message : String) : Diagnostic := { severity := .error, kind := .problem, message }

def isError (d : Diagnostic) : Bool := d.severity = .error

/-- Place, severity and message with colons between them. -/
def text (d : Diagnostic) : String :=
  let told := d.severity.name ++ ": " ++ d.message
  match d.location with
  | none => told
  | some l => l.text ++ ": " ++ told

def toJson (d : Diagnostic) : Json :=
  .object ([("severity", d.severity.toJson), ("kind", d.kind.toJson), ("message", .string d.message)] ++
    Json.fieldOf "location" SourceLocation.toJson d.location ++
    Json.fieldOf "stream" OutputStream.toJson d.stream)

def ofJson? (j : Json) : Option Diagnostic := do
  let r ← Json.record? ["severity", "kind", "message", "location", "stream"] j
  let severity ← r.required "severity" Severity.ofJson?
  let kind ← r.defaulted "kind" EventKind.log EventKind.ofJson?
  let message ← r.required "message" Json.text?
  let location ← r.optional "location" SourceLocation.ofJson?
  let stream ← r.optional "stream" OutputStream.ofJson?
  some { severity, kind, message, location, stream }

/-- How many of `ds` have severity `s`. -/
def countAt (s : Severity) (ds : List Diagnostic) : Nat := (ds.filter fun d => d.severity = s).length

end Diagnostic

end Wheelwright
