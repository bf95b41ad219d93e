/-
  Write windows — who writes where at the same time.

  A window is open from the moment a writer starts on a path until it is done.  The recorder counts
  the open windows of each path; when one opens, it looks at all open windows on the same path, below
  it or above it, and keeps the largest such number for each path.
-/
import Wheelwright.Path

namespace Wheelwright

/-- A window: the path written to and the writer. -/
structure WriteWindow where
  path : Path
  writer : String
  deriving DecidableEq

/-- What is known of all windows so far. -/
structure WindowRecorder where
  /-- Open windows of each path. -/
  active : List (Path × Nat) := []
  /-- For each path the most writers that met when a window on it opened. -/
  peaks : List (Path × Nat) := []
  running : Nat := 0
  peakRunning : Nat := 0
  /-- Closed windows, in the order they closed. -/
  closed : List WriteWindow := []
  deriving DecidableEq

namespace WindowRecorder

/-- The number kept for a path; zero for an unknown one. -/
def count (entries : List (Path × Nat)) (path : Path) : Nat :=
  match entries.find? fun e => e.1.Same path with
  | none => 0
  | some e => e.2

/-- The entries with another number for a path; zero takes the path out. -/
def setCount (entries : List (Path × Nat)) (path : Path) (n : Nat) : List (Path × Nat) :=
  let others := entries.filter fun e => !decide (e.1.Same path)
  if n = 0 then others else others ++ [(path, n)]

/-- One of the paths is, or lies in, the other. -/
def meet (p q : Path) : Bool := p.startsWith q || q.startsWith p

/-- The open windows that meet a path. -/
def meeting (r : WindowRecorder) (path : Path) : Nat :=
  (r.active.filter fun e => meet e.1 path).foldr (fun e n => e.2 + n) 0

/-- A window opens. -/
def opened (r : WindowRecorder) (w : WriteWindow) : WindowRecorder :=
  { r with
    active := setCount r.active w.path (count r.active w.path + 1)
    peaks := setCount r.peaks w.path (max (count r.peaks w.path) (r.meeting w.path + 1))
    running := r.running + 1
    peakRunning := max r.peakRunning (r.running + 1) }

/-- A window closes. -/
def close (r : WindowRecorder) (w : WriteWindow) : WindowRecorder :=
  { r with
    active := setCount r.active w.path (count r.active w.path - 1)
    running := r.running - 1
    closed := r.closed ++ [w] }

/-- The most writers that met on a path. -/
def peakWriters (r : WindowRecorder) (path : Path) : Nat := count r.peaks path

/-- Two windows met somewhere. -/
def anyOverlap (r : WindowRecorder) : Bool := r.peaks.any fun e => 1 < e.2

/-- The most windows that were open at once. -/
def peakConcurrency (r : WindowRecorder) : Nat := r.peakRunning

end WindowRecorder

end Wheelwright
