/-
  Process scripts — what a command does in a rehearsal.

  A script fits the commands whose text holds its pattern.  It says which files the command makes
  when it starts, which lines it prints, how long it takes and with which code it ends, or that it
  cannot be started at all.  A command that no script fits ends at once, silently and with zero.
-/
import Wheelwright.Command
import Wheelwright.Diagnostic
import Wheelwright.FileTree.Operations
import Wheelwright.Window

namespace Wheelwright

/-- What commands of one pattern do. -/
structure ProcessScript where
  pattern : String := ""
  lines : List OutputLine := []
  exitCode : Int := 0
  delay : Option Span := none
  /-- The command only ends when it is interrupted. -/
  holds : Bool := false
  failsToLaunch : Bool := false
  /-- Where the command writes as long as it runs. -/
  writes : Option Path := none
  /-- Files that are there once the command has started, as seen from its directory. -/
  creates : List (Path × String) := []

namespace ProcessScript

/-- The text of a command holds a pattern. -/
def fits (pattern : String) (c : Command) : Bool := containsText c.text pattern

/-- The first script that fits a command. -/
def choose (scripts : List ProcessScript) (c : Command) : ProcessScript :=
  (scripts.find? fun s => fits s.pattern c).getD {}

/-- How often a command of a pattern was among those launched. -/
def launchesOf (pattern : String) (launched : List Command) : Nat := (launched.filter (fits pattern)).length

/-- What is done one after the other to make the script's files. -/
def creationSteps (s : ProcessScript) (cwd : Path) : List (FileTree → FileTree × Option OsError) :=
  s.creates.flatMap fun f =>
    let path := cwd.join f.1
    [fun t => t.makeAll (path.parent?.getD ⟨""⟩), (·.attempt (·.write path (Utf8.encode f.2) false))]

/-- A command starts: the tree after that, and the error if it could not be started. -/
def launch (s : ProcessScript) (c : Command) (t : FileTree) : FileTree × Option LaunchError :=
  if s.failsToLaunch then (t, some ⟨c.program, "No such file or directory"⟩)
  else
    match t.takeSteps (s.creationSteps c.cwd) with
    | (t, e) => (t, e.map fun e => ⟨c.program, e.message⟩)

/-- The window that is open while a command runs. -/
def window (s : ProcessScript) (c : Command) : Option WriteWindow := s.writes.map fun p => ⟨p, c.text⟩

end ProcessScript

end Wheelwright
