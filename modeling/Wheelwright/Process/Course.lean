/-
  Courses — what a process does, and what is heard of it under supervision.

  **Course** — times count from the launch, in milliseconds.  A process writes bytes, changes files,
  has children, and ends at some time or goes on until it is stopped.

  **Conduct** — what a process does may hang on when it is asked to end: most end at once, some do
  something first, and some do not listen.

  **Supervision** — a process that is asked to end and has not done so when the grace period is over
  is stopped.  Its children are not asked, and as long as one of them holds the output open it may
  have more to say; but nobody waits for that longer than the drain period.
-/
import Wheelwright.Process.Lines
import Wheelwright.Process.Script
import Wheelwright.Result

namespace Wheelwright

/-- Bytes written at some time. -/
structure Chunk where
  time : Nat
  stream : OutputStream
  bytes : Bytes
  /-- A child wrote them, which may live on when the process is gone. -/
  detached : Bool := false

/-- What a process does from its launch on. -/
structure Course where
  /-- Lines that are there from the start. -/
  lines : List OutputLine := []
  /-- In the order of their times. -/
  chunks : List Chunk := []
  changes : List (Nat × (FileTree → FileTree)) := []
  /-- When it ends, and its exit code unless a signal ended it. -/
  ending : Option (Nat × Option Int)
  /-- When its children start and end that can write where it does. -/
  children : List (Nat × Nat) := []

/-- What a process does, by when it is asked to end, if it ever is. -/
abbrev Conduct := Option Nat → Course

/-- How long a supervisor waits for an interrupted process, and for output that is held open. -/
structure Patience where
  grace : Nat
  drain : Nat

namespace Course

/-- The course of a script. -/
def ofScript (s : ProcessScript) : Course :=
  { lines := s.lines
    ending := if s.holds then none else some ((s.delay.getD .zero).timerMillis, some s.exitCode) }

/-! ## Ends

  A process that is asked to end gets some time for it.  Its output may be held open by children, so that is given
  some time, too. -/

/-- The process ends by itself at `time` or before. -/
def endsBy (c : Course) (time : Nat) : Bool := c.ending.any fun e => e.1 ≤ time

/-- When a process that is asked to end at `asked` is gone. -/
def goneAt (c : Course) (p : Patience) (asked : Nat) : Nat :=
  match c.ending with
  | some (time, _) => min time (asked + p.grace)
  | none => asked + p.grace

/-- When the output of a process that is gone at `gone` is closed, if nobody stops reading it. -/
def closedAt (c : Course) (gone : Nat) : Nat :=
  c.children.foldl (fun time child => if child.1 ≤ gone then max time child.2 else time) gone

/-- When the output of a process that is gone at `gone` has been read, or given up. -/
def drainedAt (c : Course) (p : Patience) (gone : Nat) : Nat := min (c.closedAt gone) (gone + p.drain)

/-! ## Output

  The two streams are read side by side, each with the line that it has begun. -/

/-- The chunks that are written when the process is gone at `gone` and read up to `last`. -/
def written (c : Course) (gone last : Nat) : List Chunk :=
  c.chunks.filter fun k => k.time ≤ if k.detached then last else gone

/-- Two readers part way: the lines begun on both streams, the last byte first, and the lines that
    ended with their times, the last first. -/
structure Reading where
  out : Bytes := []
  err : Bytes := []
  lines : List (Nat × OutputLine) := []

/-- The readers take a chunk. -/
def Reading.take (r : Reading) (k : Chunk) : Reading :=
  let isOut := k.stream = .stdout
  let (begun, ended) := LineReader.feed (if isOut then r.out else r.err) k.bytes
  let lines := ended.foldl (fun lines l => (k.time, LineReader.decode k.stream l) :: lines) r.lines
  if isOut then { r with out := begun, lines } else { r with err := begun, lines }

/-- What the readers have of chunks. -/
def reading (chunks : List Chunk) : Reading := chunks.foldl Reading.take {}

/-- The lines of a process that is gone at `gone` and whose output was read up to `last`. -/
def linesRead (c : Course) (gone last : Nat) : List OutputLine :=
  let r := reading (c.written gone last)
  let atEnd :=
    if c.closedAt gone ≤ last then
      (LineReader.closing r.out).map (LineReader.decode .stdout) ++
        (LineReader.closing r.err).map (LineReader.decode .stderr)
    else []
  c.lines ++ r.lines.reverse.map (·.2) ++ atEnd

/-- When a line with some text has been read first. -/
def saysAt (c : Course) (text : String) : Option Nat :=
  ((reading c.chunks).lines.reverse.find? fun l => l.2.text = text).map (·.1)

/-- The tree after the changes of some times. -/
def change (c : Course) (during : Nat → Bool) (t : FileTree) : FileTree :=
  (c.changes.filter fun k => during k.1).foldl (fun t k => k.2 t) t

end Course

/-! ## Supervision

  What a supervisor makes of a process: when it is gone, how it ended, and which lines it has said until then. -/

/-- How a process ended, when, and what it had done until then. -/
structure Departure where
  outcome : ExitOutcome
  time : Nat
  course : Course

namespace Departure

/-- The process ends by itself. -/
def byItself (c : Course) (ending : Nat × Option Int) : Departure := ⟨.exited ending.2, ending.1, c⟩

/-- The process is asked to end at `asked`. -/
def interrupted (p : Patience) (conduct : Conduct) (outcome : ExitOutcome) (asked : Nat) : Departure :=
  let course := conduct (some asked)
  ⟨outcome, course.goneAt p asked, course⟩

/-- When the output has been read, or given up. -/
def drainedAt (d : Departure) (p : Patience) : Nat := d.course.drainedAt p d.time

/-- The lines that are read up to `last`. -/
def lines (d : Departure) (last : Nat) : List OutputLine := d.course.linesRead d.time last

/-- The departure of a process that is asked to end at its deadline, or once it has said `stop`. -/
def supervised (p : Patience) (conduct : Conduct) (deadline : Option Nat) (stop : Option String) :
    Departure :=
  let course := conduct none
  let interrupt (outcome : ExitOutcome) (asked : Nat) : Departure :=
    match course.ending with
    | some e => if e.1 ≤ asked then byItself course e else interrupted p conduct outcome asked
    | none => interrupted p conduct outcome asked
  match deadline, stop.bind course.saysAt with
  | some due, some said => if due < said then interrupt .timedOut due else interrupt .cancelled said
  | some due, none => interrupt .timedOut due
  | none, some said => interrupt .cancelled said
  | none, none => byItself course (course.ending.getD (0, none))

end Departure

end Wheelwright
