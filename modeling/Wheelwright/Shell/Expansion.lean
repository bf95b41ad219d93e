/-
  Expansion — from words to fields.

  **Program** — the pieces of a word become marks: characters that stand for themselves, characters
  that may be part of a pattern, characters at which a value falls apart, and the places where
  fields are cut.  Marks are grouped into fields, and a field that is a pattern of paths stands for
  the paths that fit it, if there are any.

  Statements inside a word are run by a function that is an argument here.
-/
import Wheelwright.Shell.Session
import Wheelwright.Shell.Sum

namespace Wheelwright.Shell

/-- A part of an expanded word. -/
inductive Mark where
  /-- As written, outside quotes. -/
  | plain (c : Char)
  /-- Stands for itself. -/
  | fixed (c : Char)
  /-- From a value, outside quotes. -/
  | loose (c : Char)
  /-- There is a field here, be it empty. -/
  | here
  /-- A field that is empty is none. -/
  | gone
  /-- A field ends. -/
  | cut
  deriving DecidableEq

namespace Mark

def char? : Mark → Option Char
  | .plain c | .fixed c | .loose c => some c
  | _ => none

/-- The character as part of a pattern. -/
def inPattern : Mark → List Char
  | .plain c | .loose c => [c]
  | .fixed c => ['\\', c]
  | _ => []

/-- The character has a meaning in patterns. -/
def isWild : Mark → Bool
  | .plain c | .loose c => c = '*' || c = '?' || c = '['
  | _ => false

end Mark

/-- The text of marks. -/
def textOf (marks : List Mark) : String := String.ofList (marks.filterMap Mark.char?)

/-- The pattern of marks. -/
def patternOf (marks : List Mark) : List Char := marks.flatMap Mark.inPattern

/-- A value inside a word. -/
def marksOf (quoted : Bool) (text : String) : List Mark :=
  text.toList.map fun c => if quoted then .fixed c else .loose c

/-- Several values, each a field of its own. -/
def marksOfEach (quoted : Bool) (texts : List String) : List Mark :=
  if texts.isEmpty then [.gone]
  else
    let fields := texts.map fun t => (if quoted then [Mark.here] else []) ++ marksOf quoted t
    (fields.intersperse [.cut]).flatten

/-! ## Fields -/

/-- The fields of marks, after those of a field that was begun, the last mark first. -/
def cutFields (begun : List Mark) : List Mark → List (List Mark)
  | [] => flush begun
  | .cut :: rest => flush begun ++ cutFields [] rest
  | .loose c :: rest =>
    if isSeparator c then flush begun ++ cutFields [] rest else cutFields (.loose c :: begun) rest
  | m :: rest => cutFields (m :: begun) rest
where
  flush (begun : List Mark) : List (List Mark) :=
    if begun.isEmpty || (begun.contains .gone && begun.all fun m => m.char?.isNone) then []
    else [begun.reverse]

/-- The marks between slashes. -/
def pathPieces : List Mark → List (List Mark)
  | [] => [[]]
  | m :: rest =>
    if m.char? = some '/' then [] :: pathPieces rest
    else
      match pathPieces rest with
      | [] => [[m]]
      | piece :: more => (m :: piece) :: more

/-- The names in a directory that fit a piece. -/
def fitting (t : FileTree) (directory : Path) (piece : List Mark) : List String :=
  let names := ((t.readDirectory directory).toOption.getD []).map fun e => ofText e.1
  names.filter fun n =>
    matchesPattern (patternOf piece) n.toList &&
      (!n.startsWith "." || piece.head?.bind Mark.char? = some '.')

/-- The paths that fit pieces, those before them being `done`. -/
def fittingPaths (s : Session) (done : String) : List (List Mark) → List String
  | [] => [done]
  | piece :: rest =>
    let close (name : String) := done ++ name ++ if rest.isEmpty then "" else "/"
    let directory := if done = "" then s.directory else s.path done
    if piece.any Mark.isWild then
      (fitting s.tree directory piece).flatMap fun n => fittingPaths s (close n) rest
    else
      let next := close (textOf piece)
      if rest.isEmpty && piece != [] && (s.tree.find? (s.path next) false).toOption.isNone then []
      else fittingPaths s next rest

/-- The texts of a field. -/
def textsOf (s : Session) (field : List Mark) : List String :=
  if field.any Mark.isWild then
    match fittingPaths s "" (pathPieces field) with
    | [] => [textOf field]
    | paths => paths
  else [textOf field]

/-! ## Words -/

/-- How statements are run. -/
abbrev Runner := List Statement → Session → Session

/-- A text without line ends at its end. -/
def withoutLineEnds (text : String) : String :=
  String.ofList (text.toList.reverse.dropWhile (· = '\n')).reverse

/-- The marks of a parameter's value. -/
def parameterMarks (s : Session) (name : String) (quoted : Bool) : List Mark :=
  if name = "@" || (name = "*" && !quoted) then marksOfEach quoted s.arguments
  else marksOf quoted ((s.parameter? name).getD "")

/-- The value of a sum in a session that has set its variables. -/
def sumOf (s : Session) (text : String) : String × Session :=
  match Sum.value? s.parameter? text with
  | some (n, set) => (toString n, set.reverse.foldl (fun s v => s.assign v.1 (toString v.2)) s)
  | none =>
    let s := s.complainHere 2 s!"arithmetic expression: expecting primary: \"{text}\""
    ("", { s with flow := .exiting })

mutual

/-- The marks of a piece, and the session after it. -/
def expandPiece (run : Runner) (s : Session) : Piece → List Mark × Session
  | .text cs quoted => (if quoted then .here :: cs.map .fixed else cs.map .plain, s)
  | .output body quoted =>
    let (text, s) := s.capture (run body)
    (marksOf quoted (withoutLineEnds text), s)
  | .sum expression quoted =>
    let (marks, s) := expandPieces run s expression
    let (n, s) := sumOf s (textOf marks)
    (marksOf quoted n, s)
  | .parameter name use word quoted =>
    let value := s.parameter? name
    let isMissing (emptyToo : Bool) : Bool := value.isNone || (emptyToo && value = some "")
    match use with
    | .value => (parameterMarks s name quoted, s)
    | .length => (marksOf quoted (toString (value.getD "").length), s)
    | .default emptyToo =>
      if isMissing emptyToo then expandPieces run s word else (parameterMarks s name quoted, s)
    | .assign emptyToo =>
      if isMissing emptyToo then
        let (marks, s) := expandPieces run s word
        (marksOf quoted (textOf marks), s.assign name (textOf marks))
      else (parameterMarks s name quoted, s)
    | .alternative emptyToo => if isMissing emptyToo then ([], s) else expandPieces run s word
    | .required emptyToo =>
      if isMissing emptyToo then
        let (marks, s) := expandPieces run s word
        let reason := if word.isEmpty then "parameter not set" else textOf marks
        ([], { s.complainHere 2 s!"{name}: {reason}" with flow := .exiting })
      else (parameterMarks s name quoted, s)
    | .without atEnd longest =>
      let (marks, s) := expandPieces run s word
      let text := trimPattern (patternOf marks) atEnd longest (value.getD "").toList
      (marksOf quoted (String.ofList text), s)

/-- The marks of pieces. -/
def expandPieces (run : Runner) (s : Session) : List Piece → List Mark × Session
  | [] => ([], s)
  | p :: rest =>
    let (marks, s) := expandPiece run s p
    let (more, s) := expandPieces run s rest
    (marks ++ more, s)

end

/-- A tilde at the start of a word stands for the home directory. -/
def expandWord (run : Runner) (s : Session) (w : Word) : List Mark × Session :=
  match w with
  | .text ['~'] false :: rest =>
    let (marks, s) := expandPieces run s rest
    if marks.isEmpty || marks.head? = some (.plain '/') then
      (marksOf true ((s.valueOf? "HOME").getD "~") ++ marks, s)
    else (.plain '~' :: marks, s)
  | _ => expandPieces run s w

/-- The one text that a word stands for where it cannot fall apart. -/
def expandText (run : Runner) (s : Session) (w : Word) : String × Session :=
  let (marks, s) := expandWord run s w
  let spaced := marks.map fun m => if m = .cut then Mark.fixed ' ' else m
  (textOf spaced, s)

/-- The fields of words. -/
def expandWords (run : Runner) (s : Session) : List Word → List String × Session
  | [] => ([], s)
  | w :: rest =>
    let (marks, s) := expandWord run s w
    let texts := (cutFields [] marks).flatMap (textsOf s)
    let (more, s) := expandWords run s rest
    (texts ++ more, s)

end Wheelwright.Shell
