/-
  Moments — dates with a time of day, in universal time.

  **Reading** — year, month, day, hour, minute, second with an optional fraction, and an offset.  Date
  and time are parted by `T`, `t` or a space; blanks may stand around the parts.  The offset is `Z`,
  `UTC`, or hours and minutes with a sign.  A second of 60 is a leap second, of whatever minute.

  **Writing** — universal time with `Z`, and 0, 3, 6 or 9 digits of the second's fraction, the fewest
  that keep its value.

  Days are counted in the Gregorian calendar of every year.
-/
import Wheelwright.Text.CharClass

namespace Wheelwright

/-- A moment: days since the first of March of year 0, the second of the day, and nanoseconds, which
    pass 10^9 in a leap second. -/
structure Timestamp where
  day : Int
  second : Nat
  nanos : Nat
  deriving DecidableEq, Inhabited

namespace Timestamp

/-! ## The calendar

  Years begin in March here, so that the leap day is the last day of a year. -/

/-- Every fourth year is a leap year, except full centuries that 400 does not divide. -/
def isLeapYear (y : Int) : Bool := y % 4 = 0 && (y % 100 != 0 || y % 400 = 0)

/-- The number of days of a month. -/
def daysInMonth (y : Int) (m : Nat) : Nat :=
  if m = 2 then (if isLeapYear y then 29 else 28)
  else if m = 4 || m = 6 || m = 9 || m = 11 then 30 else 31

/-- Days from the first of March of year 0; months count from March. -/
def dayNumber (y : Int) (m d : Nat) : Int :=
  let y := if m ≤ 2 then y - 1 else y
  let m : Int := ((m + 9) % 12 : Nat)
  365 * y + y / 4 - y / 100 + y / 400 + (153 * m + 2) / 5 + ((d : Int) - 1)

/-- Year, month and day of a day number. -/
def civil (n : Int) : Int × Nat × Nat :=
  let era := n / 146097
  let doe := (n % 146097).toNat
  let yoe := (doe - doe / 1460 + doe / 36524 - doe / 146096) / 365
  let doy := doe - (365 * yoe + yoe / 4 - yoe / 100)
  let mp := (5 * doy + 2) / 153
  let d := doy - (153 * mp + 2) / 5 + 1
  let m := if mp < 10 then mp + 3 else mp - 9
  let y : Int := (yoe : Int) + era * 400
  (if m ≤ 2 then y + 1 else y, m, d)

/-- The years that a date may have. -/
def inRange (y : Int) : Bool := -262143 ≤ y && y ≤ 262142

/-! ## Reading

  Fields may have blanks in front, and numbers have at most as many digits as their field. -/

/-- `cs` without blanks in front. -/
def skipBlanks (cs : List Char) : List Char := cs.dropWhile isBlank

/-- A number of at most `width` digits, and what follows it. -/
def number? (width : Nat) (cs : List Char) : Option (Nat × List Char) :=
  let digits := (cs.take width).takeWhile Char.isDigit
  (decimalValue digits).map fun n => (n, cs.drop digits.length)

/-- A number behind blanks. -/
def field? (width : Nat) (cs : List Char) : Option (Nat × List Char) := number? width (skipBlanks cs)

/-- A year: four digits, or any number of them after a sign. -/
def year? (cs : List Char) : Option (Int × List Char) :=
  match skipBlanks cs with
  | '-' :: rest => (number? rest.length rest).map fun (n, more) => (-(n : Int), more)
  | '+' :: rest => (number? rest.length rest).map fun (n, more) => ((n : Int), more)
  | rest => (number? 4 rest).map fun (n, more) => ((n : Int), more)

/-- A mark behind blanks. -/
def mark? (c : Char) (cs : List Char) : Option (List Char) :=
  match skipBlanks cs with
  | d :: rest => if d = c then some rest else none
  | [] => none

/-- The fraction of a second in nanoseconds; digits beyond the ninth are dropped. -/
def fraction? (cs : List Char) : Option (Nat × List Char) :=
  match cs with
  | '.' :: rest => do
    let (n, _) ← number? 9 rest
    let read := ((rest.take 9).takeWhile Char.isDigit).length
    some (n * Nat.pow 10 (9 - read), rest.dropWhile Char.isDigit)
  | _ => some (0, cs)

/-- A character of two ASCII digits' value, from `lowest` to `highest` in front. -/
def twoDigits? (highest : Char) (cs : List Char) : Option (Nat × List Char) :=
  match cs with
  | a :: b :: rest =>
    if a.isDigit && a ≤ highest && b.isDigit then some ((a.toNat - 48) * 10 + (b.toNat - 48), rest)
    else none
  | _ => none

/-- Hours and minutes of an offset, in seconds. -/
def hoursMinutes? (cs : List Char) : Option (Nat × List Char) := do
  let (h, rest) ← twoDigits? '9' cs
  let (m, rest) ← twoDigits? '5' (rest.dropWhile fun c => c = ':' || isBlank c)
  some (h * 3600 + m * 60, rest)

/-- An offset from universal time in seconds, and what follows it. -/
def offset? (cs : List Char) : Option (Int × List Char) :=
  match skipBlanks cs with
  | 'Z' :: rest => some (0, rest)
  | 'z' :: rest => some (0, rest)
  | '+' :: rest => (hoursMinutes? rest).map fun (n, more) => ((n : Int), more)
  | '-' :: rest => (hoursMinutes? rest).map fun (n, more) => (-(n : Int), more)
  | cs =>
    if (cs.take 3).map Char.toUpper = ['U', 'T', 'C'] then some (0, cs.drop 3)
    else
      match cs with
      | c :: rest =>
        if c.toNat = 0x2212 then (hoursMinutes? rest).map fun (n, more) => (-(n : Int), more) else none
      | [] => none

/-- The moment of a local date and time and its offset, if all are in range. -/
def ofParts? (y : Int) (mo d h mi s nanos : Nat) (offset : Int) : Option Timestamp :=
  if !(inRange y && 1 ≤ mo && mo ≤ 12 && 1 ≤ d && d ≤ daysInMonth y mo) then none
  else if !(h < 24 && mi < 60 && s ≤ 60) then none
  else if !(offset.natAbs < 86400) then none
  else
    let leap := s = 60
    let localSeconds : Int := dayNumber y mo d * 86400 + (h * 3600 + mi * 60 + (if leap then 59 else s) : Nat)
    let total := localSeconds - offset
    let t : Timestamp :=
      ⟨total / 86400, (total % 86400).toNat, nanos + (if leap then 1000000000 else 0)⟩
    if inRange (civil t.day).1 then some t else none

/-- The moment that a text writes. -/
def parse? (text : String) : Option Timestamp := do
  let (y, cs) ← year? text.toList
  let cs ← mark? '-' cs
  let (mo, cs) ← field? 2 cs
  let cs ← mark? '-' cs
  let (d, cs) ← field? 2 cs
  let cs ←
    match cs with
    | c :: rest => if c = 'T' || c = 't' || c = ' ' then some rest else none
    | [] => none
  let (h, cs) ← field? 2 cs
  let cs ← mark? ':' cs
  let (mi, cs) ← field? 2 cs
  let cs ← mark? ':' cs
  let (s, cs) ← field? 2 cs
  let (nanos, cs) ← fraction? cs
  let (offset, cs) ← offset? cs
  if (skipBlanks cs).isEmpty then ofParts? y mo d h mi s nanos offset else none

/-! ## Writing

  Moments are written in universal time, with as many digits of a second as are needed in groups of three. -/

/-- A year: four digits, or a sign and at least four. -/
def yearText (y : Int) : String :=
  if 0 ≤ y && y ≤ 9999 then padDecimal 4 y.toNat
  else (if y < 0 then "-" else "+") ++ padDecimal 4 y.natAbs

/-- The fraction of a second in the fewest groups of three digits. -/
def fractionText (nanos : Nat) : String :=
  if nanos = 0 then ""
  else if nanos % 1000000 = 0 then "." ++ padDecimal 3 (nanos / 1000000)
  else if nanos % 1000 = 0 then "." ++ padDecimal 6 (nanos / 1000)
  else "." ++ padDecimal 9 nanos

/-- The moment in universal time. -/
def text (t : Timestamp) : String :=
  let (y, mo, d) := civil t.day
  let leap := 1000000000 ≤ t.nanos
  let s := t.second % 60 + (if leap then 1 else 0)
  yearText y ++ "-" ++ padDecimal 2 mo ++ "-" ++ padDecimal 2 d ++ "T" ++
    padDecimal 2 (t.second / 3600) ++ ":" ++ padDecimal 2 (t.second / 60 % 60) ++ ":" ++
    padDecimal 2 s ++ fractionText (if leap then t.nanos - 1000000000 else t.nanos) ++ "Z"

end Timestamp

end Wheelwright
