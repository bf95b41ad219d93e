/-
  TOML numbers and dates.

  Digits may be parted by single underscores.  Integers have 64 bits; they are decimal with a sign
  and no leading zero, or hexadecimal, octal or binary behind `0x`, `0o`, `0b`.  Doubles have a
  fraction or an exponent, or are one of the words for infinity and for no number; too large a
  number is no double, unless it is negative.  Dates follow the calendar, seconds go up to 60.
-/
import Wheelwright.Decimal
import Wheelwright.Timestamp
import Wheelwright.Toml.Basic
import Wheelwright.Toml.Text

namespace Wheelwright.Toml

/-! ## Digits

  Digits may have single underscores between them, and those are dropped when digits are read. -/

/-- More digits after a digit, single underscores between digits left out. -/
def moreDigits (isDigit : Char → Bool) : List Char → List Char × List Char
  | '_' :: c :: rest =>
    if isDigit c then
      let (digits, after) := moreDigits isDigit rest
      (c :: digits, after)
    else ([], '_' :: c :: rest)
  | c :: rest =>
    if isDigit c then
      let (digits, after) := moreDigits isDigit rest
      (c :: digits, after)
    else ([], c :: rest)
  | [] => ([], [])

/-- One digit and more of them. -/
def digits? (isDigit : Char → Bool) : List Char → Option (List Char × List Char)
  | c :: rest =>
    if isDigit c then
      let (digits, after) := moreDigits isDigit rest
      some (c :: digits, after)
    else none
  | [] => none

/-- A sign, if there is one, and what follows it. -/
def sign : List Char → List Char × List Char
  | '+' :: rest => (['+'], rest)
  | '-' :: rest => (['-'], rest)
  | cs => ([], cs)

/-- A decimal integer as text: a sign and digits without a leading zero. -/
def decimalText? (cs : List Char) : Option (List Char × List Char) :=
  let (mark, cs) := sign cs
  match cs with
  | '0' :: rest => some (mark ++ ['0'], rest)
  | _ => (digits? Char.isDigit cs).map fun (digits, rest) => (mark ++ digits, rest)

/-! ## Integers -/

/-- The integers of 64 bits. -/
def integerOf? (i : Int) : Option Value :=
  if -(Nat.pow 2 63) ≤ i && i < Nat.pow 2 63 then some (.integer i) else none

/-- The value of digits in some base. -/
def baseValue (base : Nat) (digits : List Char) : Nat :=
  digits.foldl (fun n c => base * n + (Json.hexDigit? c).getD 0) 0

def isHexDigit (c : Char) : Bool := (Json.hexDigit? c).isSome

def isOctalDigit (c : Char) : Bool := '0' ≤ c && c ≤ '7'

def isBinaryDigit (c : Char) : Bool := c = '0' || c = '1'

/-- An integer in a base named in front of it. -/
def basedInteger? (base : Nat) (isDigit : Char → Bool) (cs : List Char) : Option (Value × List Char) := do
  let (digits, rest) ← digits? isDigit cs
  let v ← integerOf? (baseValue base digits)
  some (v, rest)

/-- The value of a decimal integer's text. -/
def decimalInteger? (text : List Char) : Option Value :=
  match text with
  | '-' :: digits => integerOf? (-(Decimal.digitsValue digits : Int))
  | '+' :: digits => integerOf? (Decimal.digitsValue digits)
  | digits => integerOf? (Decimal.digitsValue digits)

/-- An integer. -/
def integer? (cs : List Char) : Option (Value × List Char) :=
  match cs with
  | '0' :: 'x' :: rest => basedInteger? 16 isHexDigit rest
  | '0' :: 'o' :: rest => basedInteger? 8 isOctalDigit rest
  | '0' :: 'b' :: rest => basedInteger? 2 isBinaryDigit rest
  | _ => do
    let (text, rest) ← decimalText? cs
    let v ← decimalInteger? text
    some (v, rest)

/-! ## Doubles -/

/-- An exponent as text. -/
def exponentText? (cs : List Char) : Option (List Char × List Char) :=
  match cs with
  | c :: rest =>
    if c = 'e' || c = 'E' then do
      let (mark, rest) := sign rest
      let (digits, rest) ← digits? Char.isDigit rest
      some ('e' :: (mark ++ digits), rest)
    else none
  | [] => none

/-- A double as text: a decimal integer with a fraction, an exponent, or both. -/
def doubleText? (cs : List Char) : Option (List Char × List Char) := do
  let (whole, rest) ← decimalText? cs
  match rest with
  | '.' :: more =>
    let (digits, after) ← digits? Char.isDigit more
    let text := whole ++ '.' :: digits
    match exponentText? after with
    | some (e, after) => some (text ++ e, after)
    | none => some (text, after)
  | _ =>
    let (e, after) ← exponentText? rest
    some (whole ++ e, after)

/-- `word` at the front of `cs`, and what follows it. -/
def word? (word : String) (cs : List Char) : Option (List Char) :=
  if word.toList.isPrefixOf cs then some (cs.drop word.length) else none

/-- Infinity or no number, with or without a sign. -/
def specialDouble? (cs : List Char) : Option (Value × List Char) :=
  let (mark, cs) := sign cs
  match word? "inf" cs with
  | some rest => some (.float (.infinite (mark = ['-'])), rest)
  | none => (word? "nan" cs).map fun rest => (.float .nan, rest)

/-- A double. -/
def double? (cs : List Char) : Option (Value × List Char) :=
  match doubleText? cs with
  | some (text, rest) => do
    let x ← Decimal.read? (String.ofList text)
    if x = .infinite false then none else some (.float x, rest)
  | none => specialDouble? cs

/-! ## Dates and times

  Dates and times are checked as far as the calendar goes, and kept as the text that was read. -/

/-- `width` digits with a value from `low` to `high`. -/
def fixedNumber? (width low high : Nat) (cs : List Char) : Option (Nat × List Char) :=
  let digits := cs.take width
  if digits.length = width && digits.all Char.isDigit then
    let n := Decimal.digitsValue digits
    if low ≤ n && n ≤ high then some (n, cs.drop width) else none
  else none

/-- `c` at the front of `cs`. -/
def mark? (c : Char) : List Char → Option (List Char)
  | d :: rest => if d = c then some rest else none
  | [] => none

/-- What follows a date. -/
def date? (cs : List Char) : Option (List Char) := do
  let (y, cs) ← fixedNumber? 4 0 9999 cs
  let cs ← mark? '-' cs
  let (m, cs) ← fixedNumber? 2 1 12 cs
  let cs ← mark? '-' cs
  let (d, cs) ← fixedNumber? 2 1 31 cs
  if d ≤ Timestamp.daysInMonth y m then some cs else none

/-- What follows hours and minutes. -/
def hourMinute? (cs : List Char) : Option (List Char) := do
  let (_, cs) ← fixedNumber? 2 0 23 cs
  let cs ← mark? ':' cs
  let (_, cs) ← fixedNumber? 2 0 59 cs
  some cs

/-- What follows a time of day. -/
def time? (cs : List Char) : Option (List Char) := do
  let cs ← hourMinute? cs
  let cs ← mark? ':' cs
  let (_, cs) ← fixedNumber? 2 0 60 cs
  match cs with
  | '.' :: c :: rest => if c.isDigit then some (rest.dropWhile Char.isDigit) else some cs
  | _ => some cs

/-- What follows an offset from universal time. -/
def offset? : List Char → Option (List Char)
  | 'Z' :: rest => some rest
  | 'z' :: rest => some rest
  | '+' :: rest => hourMinute? rest
  | '-' :: rest => hourMinute? rest
  | _ => none

/-- What follows a date with maybe a time of day and an offset, or a time of day. -/
def afterDatetime? (cs : List Char) : Option (List Char) :=
  match date? cs with
  | none => time? cs
  | some rest =>
    match rest with
    | c :: more =>
      if c = 'T' || c = 't' || c = ' ' then
        match time? more with
        | none => some rest
        | some after => some ((offset? after).getD after)
      else some rest
    | [] => some []

/-- A date, a time of day, or both. -/
def datetime? (cs : List Char) : Option (Value × List Char) :=
  (afterDatetime? cs).map fun rest =>
    (.datetime (String.ofList (cs.take (cs.length - rest.length))), rest)

/-! ## Any of them -/

/-- A number, a date or a truth value. -/
def scalar? (cs : List Char) : Option (Value × List Char) :=
  match cs with
  | [] => none
  | c :: _ =>
    if c = 't' then (word? "true" cs).map fun rest => (.boolean true, rest)
    else if c = 'f' then (word? "false" cs).map fun rest => (.boolean false, rest)
    else if c = 'i' || c = 'n' then specialDouble? cs
    else (datetime? cs).orElse fun _ => (double? cs).orElse fun _ => integer? cs

end Wheelwright.Toml
