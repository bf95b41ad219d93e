/-
  Classifiers — from lines of output to diagnostics.

  **Places** — a line may name a place as `file:line:message` or `file:line:column:message`, or as a
  frame of a traceback, `File "…", line …`.  The file is what stands before the first colon.  A line
  number that is no number of 32 bits gives no place; a column that is none is left out.

  **Two classifiers** — the full one looks at markers of errors, warnings and progress; the plain one
  only at places.  Neither drops a line: a line that nothing matches is an info with the whole text.

  **Registry** — classifiers by name, and one for every other name.
-/
import Wheelwright.Diagnostic

namespace Wheelwright

/-! ## Places in lines

  Two shapes of lines name a place: the one that compilers use, and a frame of a traceback.  Both are read from the
  left and never taken back. -/

/-- The text up to the first character that satisfies `p`, that character, and the text after it. -/
def splitAtFirst (p : Char → Bool) (cs : List Char) : Option (List Char × List Char) :=
  match cs.dropWhile fun c => !p c with
  | [] => none
  | _ :: rest => some (cs.takeWhile fun c => !p c, rest)

/-- A number of 32 bits in ASCII digits. -/
def wordNumber? (cs : List Char) : Option Nat :=
  (decimalValue cs).filter fun n => n ≤ SourceLocation.maxNumber

/-- A line with a place in it. -/
structure Located where
  location : SourceLocation
  message : String

/-- A line with the shape of a place: its parts as text. -/
structure PlaceParts where
  file : List Char
  line : List Char
  column : Option (List Char)
  message : List Char

/-- A run of digits that a colon ends, and what follows it. -/
def digitsThenColon? (cs : List Char) : Option (List Char × List Char) :=
  let digits := cs.takeWhile isDecimalDigit
  match digits, cs.dropWhile isDecimalDigit with
  | _ :: _, ':' :: rest => some (digits, rest)
  | _, _ => none

/-- The message of a place: the rest of the line without white space in front. -/
def placeMessage? (cs : List Char) : Option (List Char) :=
  let message := cs.dropWhile isBlank
  if message.contains '\n' then none else some message

/-- The parts of `file:line:message` or `file:line:column:message`. -/
def placeParts? (cs : List Char) : Option PlaceParts := do
  let (file, rest) ← splitAtFirst (· = ':') cs
  let first ← file.head?
  if isBlank first then none
  else
    let (line, rest) ← digitsThenColon? rest
    match digitsThenColon? rest with
    | some (column, after) =>
      let message ← placeMessage? after
      some ⟨file, line, some column, message⟩
    | none =>
      let message ← placeMessage? rest
      some ⟨file, line, none, message⟩

/-- A line that is a frame of a traceback: its file and the digits of its line. -/
def frameParts? (cs : List Char) : Option (List Char × List Char) := do
  let opening := "File \"".toList
  let start := cs.dropWhile isBlank
  if opening.isPrefixOf start then
    let (file, rest) ← splitAtFirst (· = '"') (start.drop opening.length)
    let middle := ", line ".toList
    if middle.isPrefixOf rest && !file.isEmpty then
      let digits := (rest.drop middle.length).takeWhile isDecimalDigit
      if digits.isEmpty then none else some (file, digits)
    else none
  else none

/-- The place that a line names, frames of a traceback included. -/
def located? (text : String) : Option Located :=
  match frameParts? text.toList with
  | some (file, digits) =>
    (wordNumber? digits).map fun n =>
      ⟨{ file := ⟨String.ofList file⟩, line := n }, trimBlank text⟩
  | none => do
    let parts ← placeParts? text.toList
    let n ← wordNumber? parts.line
    let column := parts.column.bind wordNumber?
    some ⟨{ file := ⟨String.ofList parts.file⟩, line := n, column }, String.ofList parts.message⟩

/-! ## Markers

  Without a place a message may still announce how serious it is, by its first words or by the name of an exception. -/

/-- Starts of messages that tell an error. -/
def errorMarkers : List String :=
  ["ERROR", "error:", "Error:", "FATAL", "fatal:", "Traceback (most recent call last)"]

/-- Starts of messages that tell a warning. -/
def warningMarkers : List String :=
  ["WARNING", "warning:", "Warning:", "DeprecationWarning", "SetuptoolsDeprecationWarning"]

/-- `cs` starts with one of the markers. -/
def startsWithAny (markers : List String) (cs : List Char) : Bool :=
  markers.any fun m => m.toList.isPrefixOf cs

/-- The name of an exception class: a capital, word characters, and one of three endings. -/
def isExceptionName (cs : List Char) : Bool :=
  match cs with
  | [] => false
  | c :: rest =>
    c.isUpper && ["Error", "Exception", "Exit"].any fun ending =>
      ending.toList.isSuffixOf rest &&
        (rest.take (rest.length - ending.toList.length)).all isWordChar

/-- A dotted name in front of an exception's name. -/
def isDottedName (cs : List Char) : Bool :=
  match cs with
  | [] => false
  | c :: rest => (c.isAlpha || c = '_') && rest.all fun d => isWordChar d || d = '.'

/-- The message starts with the name of an exception and a colon. -/
def startsWithException (cs : List Char) : Bool :=
  match splitAtFirst (· = ':') cs with
  | none => false
  | some (name, _) =>
    match splitAtFirst (· = '.') name.reverse with
    | none => isExceptionName name
    | some (last, before) => isDottedName before.reverse && isExceptionName last.reverse

/-- The severity that a message announces. -/
def announcedSeverity (message : String) : Option Severity :=
  let cs := message.toList.dropWhile isBlank
  if startsWithAny errorMarkers cs || startsWithException cs then some .error
  else if startsWithAny warningMarkers cs || occursIn "Warning:".toList cs then some .warning
  else none

/-! ## The classifiers

  The full classifier looks for places, frames and markers; the plain one for places only. -/

/-- A way to classify lines. -/
inductive Classifier where
  /-- Places, markers and progress. -/
  | pep517
  /-- Places only. -/
  | plain
  deriving DecidableEq

namespace Classifier

def id : Classifier → String
  | .pep517 => "pep517"
  | .plain => "plain"

/-- What a line's text tells the full classifier. -/
def classifyMarked (text : String) : Diagnostic :=
  match located? text with
  | some l =>
    let d :=
      if announcedSeverity l.message = some .error then Diagnostic.error l.message
      else Diagnostic.warning l.message
    { d with location := some l.location }
  | none =>
    if "* ".toList.isPrefixOf text.toList then .progress text
    else
      match announcedSeverity text with
      | some .error => .error text
      | some .warning => .warning text
      | _ => .info text

/-- What a line's text tells the plain classifier. -/
def classifyPlaced (text : String) : Diagnostic :=
  match placeParts? text.toList with
  | none => .info text
  | some parts =>
    match wordNumber? parts.line with
    | none => .info text
    | some n =>
      { Diagnostic.warning (String.ofList parts.message) with
        location := some { file := ⟨String.ofList parts.file⟩, line := n } }

/-- What a line tells. -/
def classify (c : Classifier) (line : OutputLine) : Diagnostic :=
  let d :=
    match c with
    | .pep517 => classifyMarked line.text
    | .plain => classifyPlaced line.text
  { d with stream := some line.stream }

end Classifier

/-! ## The registry -/

/-- Classifiers by name; every other name has the plain one. -/
structure ClassifierRegistry where
  entries : List (String × Classifier)

namespace ClassifierRegistry

def empty : ClassifierRegistry := ⟨[]⟩

def standard : ClassifierRegistry := ⟨[(Classifier.pep517.id, .pep517)]⟩

/-- The registry with `name` standing for `c`. -/
def register (r : ClassifierRegistry) (name : String) (c : Classifier) : ClassifierRegistry :=
  ⟨(name, c) :: r.entries⟩

def contains (r : ClassifierRegistry) (name : String) : Bool := (r.entries.lookup name).isSome

def get (r : ClassifierRegistry) (name : String) : Classifier := (r.entries.lookup name).getD .plain

end ClassifierRegistry

end Wheelwright
