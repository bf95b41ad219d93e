/-
  Spans of time — whole nanoseconds.

  A span prints in the largest unit that it fills, with the exact decimal fraction and no zeros at
  the end of it.  A number of seconds becomes a span by rounding to the nearest nanosecond, a tie to
  the even one; below zero, and from 2^64 seconds on, there is no span.
-/
import Wheelwright.Text.CharClass
import Wheelwright.Binary64

namespace Wheelwright

/-- A span of time. -/
structure Span where
  nanoseconds : Nat
  deriving DecidableEq, Inhabited

namespace Span

/-- Nanoseconds in a second. -/
def perSecond : Nat := 1000000000

def zero : Span := ⟨0⟩

def ofMillis (ms : Nat) : Span := ⟨ms * 1000000⟩

/-- Whole seconds of a span. -/
def wholeSeconds (d : Span) : Nat := d.nanoseconds / perSecond

/-- What a span has beyond its whole seconds. -/
def subsecNanos (d : Span) : Nat := d.nanoseconds % perSecond

/-- Whole milliseconds of a span. -/
def wholeMillis (d : Span) : Nat := d.nanoseconds / 1000000

/-- The span in milliseconds, a started one counted whole: the resolution of timers. -/
def timerMillis (d : Span) : Nat := (d.nanoseconds + 999999) / 1000000

/-- `whole` units and `rest` parts of a unit of `10 ^ places` parts. -/
def decimalText (whole rest places : Nat) : String :=
  if rest = 0 then toString whole
  else toString whole ++ "." ++ dropEndWhile (· = '0') (padDecimal places rest)

/-- The span in its largest filled unit. -/
def debugText (d : Span) : String :=
  let n := d.nanoseconds
  if perSecond ≤ n then decimalText (n / perSecond) (n % perSecond) 9 ++ "s"
  else if 1000000 ≤ n then decimalText (n / 1000000) (n % 1000000) 6 ++ "ms"
  else if 1000 ≤ n then decimalText (n / 1000) (n % 1000) 3 ++ "µs"
  else toString n ++ "ns"

/-- The span of a number of seconds, if there is one. -/
def ofSeconds? : Binary64 → Option Span
  | .nan => none
  | .infinite _ => none
  | .finite s m e =>
    if m = 0 then some zero
    else if s then none
    else
      let (num, den) := Binary64.ratio m e
      if Nat.pow 2 64 * den ≤ num then none else some ⟨roundHalfEven (num * perSecond) den⟩

/-- The span in seconds: whole seconds plus the fraction, each rounded on the way. -/
def toSeconds (d : Span) : Binary64 :=
  Binary64.addMagnitudes (Binary64.ofNat d.wholeSeconds)
    (Binary64.div (Binary64.ofNat d.subsecNanos) (Binary64.ofNat perSecond))

/-- The span in milliseconds, as a result reports it. -/
def toMilliseconds (d : Span) : Binary64 := Binary64.mul d.toSeconds (Binary64.ofNat 1000)

/-- The span of a reported number of milliseconds, if there is one. -/
def ofMilliseconds? (x : Binary64) : Option Span := ofSeconds? (Binary64.div x (Binary64.ofNat 1000))

end Span

end Wheelwright
