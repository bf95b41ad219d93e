/-
  Programs of scripts — what the names of programs stand for.

  A name with a slash is a path.  Another one is looked for in directories, one after the other;
  where something of that name lies that may not be executed, the search goes on but remembers it.
  The usual programs lie in the usual directories, whether or not the tree shows them.

  A file is a script if it says that the shell runs it, or says nothing of the kind.
-/
import Wheelwright.Shell.Builtin

namespace Wheelwright.Shell

/-! ## Names -/

/-- What a name stands for. -/
inductive Found where
  | usual (name : String)
  | file (path : String)
  | missing
  | forbidden

/-- Directories with the usual programs. -/
def usualDirectories : List String :=
  ["/usr/local/sbin", "/usr/local/bin", "/usr/sbin", "/usr/bin", "/sbin", "/bin"]

/-- Names of the shell. -/
def shellNames : List String := ["sh", "dash", "bash"]

/-- Programs that are there besides the utilities. -/
def isUsual (name : String) : Bool :=
  (Utility.table.lookup name).isSome || shellNames.contains name ||
    ["echo", "printf", "test", "[", "pwd", "kill", "sleep", "env", "printenv"].contains name

/-- What a path with a slash stands for. -/
def foundAt (s : Session) (path : String) : Found :=
  let name := Utility.lastName path
  if usualDirectories.contains (Utility.directoryOf path) && isUsual name then .usual name
  else
    match s.tree.find? (s.path path) true with
    | .ok (_, .file _ .executable) => .file path
    | .ok _ => .forbidden
    | .error _ => .missing

/-- What a name stands for in directories, one after the other. -/
def foundIn (s : Session) (name : String) : List String → Found
  | [] => .missing
  | d :: rest =>
    match foundAt s ((if d = "" then "." else d) ++ "/" ++ name) with
    | .missing => foundIn s name rest
    | .forbidden =>
      match foundIn s name rest with
      | .missing => .forbidden
      | other => other
    | found => found

/-- What the name of a program stands for. -/
def find (s : Session) (name : String) : Found :=
  if name = "" then .missing
  else if name.toList.contains '/' then foundAt s name
  else foundIn s name (((s.valueOf? "PATH").map (piecesOf ':')).getD usualDirectories)

/-! ## Scripts -/

/-- The session of a shell that a program is, with its name and arguments. -/
def asShell (name : String) (arguments : List String) (s : Session) : Session :=
  { s with
    name, arguments, line := 1, functions := [], isStrict := false, latest := none
    shell := s.owner
    values := s.values.filter fun v => s.exported.contains v.1
    traps := s.traps.filter fun t => t.2 = "" }

/-- The word after `#!` in a file and what else is on the line; nothing if a file starts otherwise. -/
def interpreter? (content : List Char) : Option (String × List String) :=
  match content with
  | '#' :: '!' :: rest =>
    let line := (rest.takeWhile (· != '\n')).dropWhile isBlank
    let line := (line.reverse.dropWhile isSeparator).reverse
    let word := line.takeWhile fun c => !isBlank c
    let more := (line.drop word.length).dropWhile isBlank
    some (String.ofList word, if more.isEmpty then [] else [String.ofList more])
  | _ => none

/-- The shell that runs a file of some content, with its options: the file says so, or says nothing. -/
def shellOptions? (content : List Char) : Option (List String) :=
  let isShell (path : String) : Bool :=
    usualDirectories.contains (Utility.directoryOf path) && shellNames.contains (Utility.lastName path)
  match interpreter? content with
  | none => some []
  | some (word, more) =>
    if isShell word then some more
    else if Utility.lastName word = "env" && more.any shellNames.contains then some []
    else none

/-- There is a builtin or a program of a name. -/
def isKnown (s : Session) (name : String) : Bool :=
  (Builtin.special.lookup name).isSome || (Builtin.regular.lookup name).isSome ||
    match find s name with
    | .usual _ | .file _ => true
    | _ => false

/-! ## What programs are given -/

/-- The variables of a program, one a line. -/
def environmentText (s : Session) : String :=
  let seen := s.values.reverse.filter fun v => s.exported.contains v.1
  String.join (seen.map fun v => v.1 ++ "=" ++ v.2 ++ "\n")

/-- A time that is given in seconds or another unit, rounded up. -/
def milliseconds? (text : String) : Option Nat :=
  let digits := text.toList.takeWhile fun c => c.isDigit || c = '.'
  let whole := digits.takeWhile Char.isDigit
  let part := (digits.drop whole.length).drop 1
  let unit? : Option Nat :=
    match text.toList.drop digits.length with
    | [] | ['s'] => some 1000
    | ['m'] => some 60000
    | ['h'] => some 3600000
    | _ => none
  if digits.isEmpty || !part.all Char.isDigit then none
  else
    unit?.map fun unit =>
      let n := (String.ofList (whole ++ part)).toNat?.getD 0 * unit
      (n + Nat.pow 10 part.length - 1) / Nat.pow 10 part.length

end Wheelwright.Shell
