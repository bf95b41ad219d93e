/-
  Launches — what the program of a command does.

  A command starts in its directory, with the variables it brings.  Its program is one of the usual
  ones, or a script: a file that may be executed and says that the shell runs it.  What keeps a
  program from starting is reported as the system does, a missing directory first.
-/
import Wheelwright.Shell.Run

namespace Wheelwright.Shell

/-- The variables that every program has. -/
def usualVariables : List (String × String) :=
  [("PATH", ":".intercalate usualDirectories), ("HOME", "/root")]

/-- The session in which the program of a command starts. -/
def sessionOf (t : FileTree) (c : Command) (directory : Location) (asked : Option Nat) : Session :=
  let path : Path := ⟨"/" ++ "/".intercalate directory⟩
  let s : Session := { tree := t, directory := path, name := ofText c.program, asked }
  let brought := usualVariables ++ c.env ++ [("PWD", path.text)]
  brought.foldl (fun s v => (s.assign (ofText v.1) (ofText v.2)).exports (ofText v.1)) s

/-- The directory that a command starts in. -/
def startDirectory (t : FileTree) (c : Command) : Except OsError Location := do
  match ← t.find? c.cwd true with
  | (loc, .directory) => .ok loc
  | _ => .error .notDirectory

/-- A text of a command holds what cannot be handed over. -/
def holdsNul (c : Command) : Bool :=
  (c.program :: c.cwd.text :: c.args ++ c.env.flatMap fun v => [v.1, v.2]).any fun s =>
    s.toList.contains (Char.ofNat 0)

/-- The program at a path, if it can be started. -/
def executableAt (s : Session) (anyText : Bool) (path : String) : Except OsError Found := do
  match ← s.tree.find? (s.path path) true with
  | (_, .file content .executable) =>
    let text := (ofBytes content).toList
    if (interpreter? text).isNone && !anyText then .error .notExecutable
    else if (shellOptions? text).isNone then .error .notFound
    else .ok (.file path)
  | _ => .error .permissionDenied

/-- The program of a command, if it can be started.  A command that brings its own search path gets
    its files run by the shell even if they do not ask for it. -/
def programOf (s : Session) (c : Command) : Except OsError Found :=
  let name := ofText c.program
  let anyText := c.env.any fun v => v.1 = "PATH"
  match find s name with
  | .usual program => .ok (.usual program)
  | .file path => executableAt s anyText path
  | .forbidden => .error .permissionDenied
  | .missing => if name.toList.contains '/' then executableAt s anyText name else .error .notFound

/-- What the program of a command does. -/
def run (s : Session) (found : Found) (arguments : List String) : Session :=
  let runner : StatementRunner := runStatement depthLimit
  match found with
  | .usual name => usualProgram runner true name arguments s
  | .file path => fileProgram runner true path arguments s
  | .missing | .forbidden => s

/-- What the process of a command will do, or why it cannot be started. -/
def conductOf (t : FileTree) (c : Command) : Except LaunchError Conduct :=
  let start : Except OsError Conduct := do
    if holdsNul c then throw .nulInCommand
    let directory ← startDirectory t c
    let found ← programOf (sessionOf t c directory none) c
    let course (asked : Option Nat) : Course :=
      (run (sessionOf t c directory asked) found (c.args.map ofText)).course
    let usual := course none
    return fun asked => if asked.isNone then usual else course asked
  start.mapError fun e => ⟨c.program, e.message⟩

end Wheelwright.Shell
