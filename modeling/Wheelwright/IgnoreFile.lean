/-
  Ignore files — which entries of a directory tree are passed over.

  **State.**  A rule is a glob with two marks: it may speak for an entry instead of against it, and
  it may be about directories only.  The rules of one file are about paths below the file's
  directory.

  **Program** — of the rules that fit a path the last one decides.

  A line starts with a `#` for a comment, a `!` for a rule that keeps, a `/` for a rule about the
  directory itself; a slash at its end means directories only.  A glob without any other slash is
  about names anywhere below, and one that ends in `/**` is not about the directory in front.
-/
import Wheelwright.Glob
import Wheelwright.Text.CharClass

namespace Wheelwright

/-- What a rule says of the entries that it fits. -/
inductive Verdict where
  | ignored
  | kept
  deriving DecidableEq

/-- The opposite verdict. -/
def Verdict.invert : Verdict → Verdict
  | .ignored => .kept
  | .kept => .ignored

/-- A rule about paths. -/
structure IgnoreRule where
  pattern : Regex
  verdict : Verdict
  directoriesOnly : Bool

namespace IgnoreRule

/-- A line without the white space at its end, unless a backslash holds that. -/
def trimLine (line : String) : String :=
  if line.endsWith "\\ " then line else dropEndWhile isBlank line

/-- A line's marks taken off: the verdict, whether the glob is about the directory itself, and the
    rest of the line. -/
def takeMarks (cs : List Char) : Verdict × Bool × List Char :=
  match cs with
  | '\\' :: '!' :: _ => (.ignored, false, cs.drop 1)
  | '\\' :: '#' :: _ => (.ignored, false, cs.drop 1)
  | '!' :: '/' :: rest => (.kept, true, rest)
  | '!' :: rest => (.kept, false, rest)
  | '/' :: rest => (.ignored, true, rest)
  | _ => (.ignored, false, cs)

/-- A slash at the end taken off, and a backslash before it. -/
def takeEndSlash (cs : List Char) : Bool × List Char :=
  match cs.reverse with
  | '/' :: '\\' :: before => (true, before.reverse)
  | '/' :: before => (true, before.reverse)
  | _ => (false, cs)

/-- The glob of a line whose marks have been taken off. -/
def globOf (anchored : Bool) (cs : List Char) : String :=
  let text := String.ofList cs
  let glob := if anchored || cs.contains '/' || text = "**" then text else "**/" ++ text
  if glob.endsWith "/**" then glob ++ "/*" else glob

/-- The rule that a line writes; comments and blank lines write none. -/
def ofLine? (openClass : Bool) (line : String) : Except Glob.Error (Option IgnoreRule) :=
  let line := trimLine line
  if line.startsWith "#" || line = "" then .ok none
  else
    let (verdict, anchored, rest) := takeMarks line.toList
    let (directoriesOnly, rest) := takeEndSlash rest
    match Glob.compile openClass (globOf anchored rest) with
    | .ok pattern => .ok (some { pattern, verdict, directoriesOnly })
    | .error e => .error e

/-- The rule is about a path. -/
def fits (r : IgnoreRule) (path : Bytes) (isDirectory : Bool) : Bool :=
  (isDirectory || !r.directoriesOnly) && r.pattern.accepts path

end IgnoreRule

/-- Rules about the paths below a directory. -/
structure IgnoreFile where
  /-- The text of the directory's path. -/
  base : String
  rules : List IgnoreRule

namespace IgnoreFile

/-- A path's text without a leading `./`. -/
def withoutDot (text : String) : String :=
  if text.startsWith "./" then String.ofList (text.toList.drop 2) else text

/-- The lines of a file up to the first that is no text. -/
def linesOf (content : Bytes) : List String :=
  readLines (splitLines content)
where
  /-- The pieces between line feeds; a carriage return before a line feed goes with it. -/
  splitLines : Bytes → List Bytes
    | [] => []
    | b :: rest =>
      if b = 10 then [] :: splitLines rest
      else
        match b, rest, splitLines rest with
        | 13, 10 :: _, lines => lines
        | _, _, [] => [[b]]
        | _, _, line :: more => (b :: line) :: more
  /-- The lines as text, up to the first that is none. -/
  readLines : List Bytes → List String
    | [] => []
    | line :: rest =>
      match Utf8.decode? line with
      | some text => text :: readLines rest
      | none => []

/-- The lines without byte order marks in front of the first. -/
def withoutMarks : List String → List String
  | [] => []
  | first :: rest => dropFrontWhile (fun c => c.toNat = 0xFEFF) first :: rest

/-- The rules of a file about a directory; lines that write no rule are passed over. -/
def ofContent (base : String) (content : Bytes) : IgnoreFile :=
  { base := withoutDot base
    rules := (withoutMarks (linesOf content)).filterMap fun line =>
      match IgnoreRule.ofLine? true line with
      | .ok rule => rule
      | .error _ => none }

/-- The part of a path's text below the directory; a lone name stays. -/
def below (f : IgnoreFile) (text : String) : String :=
  let text := withoutDot text
  let cs := text.toList
  let base := f.base.toList
  if f.base = "." || !cs.contains '/' || !base.isPrefixOf cs then text
  else
    match cs.drop base.length with
    | '/' :: rest => String.ofList rest
    | rest => String.ofList rest

/-- What the rules say of an entry. -/
def verdict? (f : IgnoreFile) (path : String) (isDirectory : Bool) : Option Verdict :=
  let bytes := Utf8.encode (f.below path)
  (f.rules.reverse.find? fun r => r.fits bytes isDirectory).map (·.verdict)

end IgnoreFile

end Wheelwright
