/-
  Lines of a pipe — what a reader makes of the bytes of a stream.

  **Machine** — the reader's state is the line that has not ended yet, its last byte first.  A line
  feed ends it, and nothing else does, so cutting the bytes into chunks anywhere gives the same
  lines.  When the pipe is closed, a line that was begun is a line; when the reader is stopped, it
  is lost.

  A line is decoded as a whole, with replacement, and without the line ends that close it.
-/
import Wheelwright.Diagnostic
import Wheelwright.Text.Utf8

namespace Wheelwright

namespace LineReader

/-- The byte that ends a line. -/
def lineFeed : UInt8 := 10

/-- Bytes after the line `begun`: the line begun after them, and the lines that ended among them. -/
def feed (begun : Bytes) : Bytes → Bytes × List Bytes
  | [] => (begun, [])
  | b :: rest =>
    if b = lineFeed then
      let (left, lines) := feed [] rest
      (left, begun.reverse :: lines)
    else feed (b :: begun) rest

/-- The line that is left when the pipe is closed. -/
def closing (begun : Bytes) : List Bytes := if begun.isEmpty then [] else [begun.reverse]

/-- All lines of a pipe that was closed after `bytes`. -/
def linesOf (bytes : Bytes) : List Bytes :=
  let (begun, lines) := feed [] bytes
  lines ++ closing begun

/-- A line as text. -/
def decode (stream : OutputStream) (line : Bytes) : OutputLine := .ofText stream (Utf8.decodeLossy line)

/-! ## Small laws -/

theorem feed_nil (begun : Bytes) : feed begun [] = (begun, []) := rfl

theorem feed_append (begun a b : Bytes) :
    feed begun (a ++ b) =
      ((feed (feed begun a).1 b).1, (feed begun a).2 ++ (feed (feed begun a).1 b).2) := by
  induction a generalizing begun with
  | nil => simp [feed]
  | cons x rest ih =>
    by_cases h : x = lineFeed
    · simp [feed, h, ih]
    · simp [feed, h, ih]

end LineReader

end Wheelwright
