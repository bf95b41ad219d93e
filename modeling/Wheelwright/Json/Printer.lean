/-
  Writing JSON.

  A text is written with the short escapes where JSON has one, other controls by number, and every
  other character as itself.  Two layouts: on one line without spaces, where characters beyond ASCII
  may be written by number too, and indented by two spaces with one item a line.
-/
import Wheelwright.Json.Basic
import Wheelwright.Text.CharClass

namespace Wheelwright.Json

/-- A code unit as an escape. -/
def unitEscape (n : Nat) : String :=
  let digits := Nat.toDigits 16 n
  "\\u" ++ String.ofList (List.replicate (4 - digits.length) '0' ++ digits)

/-- One character of a written text; `ascii` asks for escapes beyond ASCII. -/
def escapeChar (ascii : Bool) (c : Char) : String :=
  if c = '"' then "\\\""
  else if c = '\\' then "\\\\"
  else if c = '\n' then "\\n"
  else if c = '\r' then "\\r"
  else if c = '\t' then "\\t"
  else if c.toNat = 8 then "\\b"
  else if c.toNat = 12 then "\\f"
  else if c.toNat < 32 then unitEscape c.toNat
  else if ascii && 127 ≤ c.toNat then
    if c.toNat < 0x10000 then unitEscape c.toNat
    else
      let n := c.toNat - 0x10000
      unitEscape (0xD800 + n / 0x400) ++ unitEscape (0xDC00 + n % 0x400)
  else c.toString

/-- A text between quotes. -/
def writeText (ascii : Bool) (s : String) : String :=
  "\"" ++ s.foldl (fun out c => out ++ escapeChar ascii c) "" ++ "\""

/-- A numeral; a double is written as its bits, which JSON has no number for. -/
def writeNumeral : Numeral → String
  | .natural n => toString n
  | .negative n => "-" ++ toString n
  | .real x => "\"" ++ x.bitsText ++ "\""

mutual

/-- `out` followed by the value on one line. -/
def compactOnto (ascii : Bool) (out : String) : Json → String
  | .null => out ++ "null"
  | .bool b => out ++ (if b then "true" else "false")
  | .number n => out ++ writeNumeral n
  | .string s => out ++ writeText ascii s
  | .array items => itemsOnto ascii (out ++ "[") true items ++ "]"
  | .object fields => fieldsOnto ascii (out ++ "\x7b") true fields ++ "\x7d"
  | .unreadable => out ++ "null"

/-- `out` followed by items with commas between them. -/
def itemsOnto (ascii : Bool) (out : String) (first : Bool) : List Json → String
  | [] => out
  | j :: rest =>
    itemsOnto ascii (compactOnto ascii (if first then out else out ++ ",") j) false rest

/-- `out` followed by fields with commas between them. -/
def fieldsOnto (ascii : Bool) (out : String) (first : Bool) : List (String × Json) → String
  | [] => out
  | (name, j) :: rest =>
    let start := (if first then out else out ++ ",") ++ writeText ascii name ++ ":"
    fieldsOnto ascii (compactOnto ascii start j) false rest

end

/-- The value on one line. -/
def line (j : Json) : String := compactOnto false "" j

/-- The value on one line, in ASCII. -/
def compact (j : Json) : String := compactOnto true "" j

/-- The start of a line at some depth. -/
def newLine (depth : Nat) : String := "\n" ++ String.ofList (List.replicate (2 * depth) ' ')

mutual

/-- The value with one item a line, at some depth. -/
def prettyAt (depth : Nat) : Json → String
  | .null => "null"
  | .bool b => if b then "true" else "false"
  | .number n => writeNumeral n
  | .string s => writeText false s
  | .array [] => "[]"
  | .array items => "[" ++ prettyItems (depth + 1) true items ++ newLine depth ++ "]"
  | .object [] => "\x7b\x7d"
  | .object fields => "\x7b" ++ prettyFields (depth + 1) true fields ++ newLine depth ++ "\x7d"
  | .unreadable => "null"

/-- Items, each on its line. -/
def prettyItems (depth : Nat) (first : Bool) : List Json → String
  | [] => ""
  | j :: rest =>
    (if first then "" else ",") ++ newLine depth ++ prettyAt depth j ++ prettyItems depth false rest

/-- Fields, each on its line. -/
def prettyFields (depth : Nat) (first : Bool) : List (String × Json) → String
  | [] => ""
  | (name, j) :: rest =>
    (if first then "" else ",") ++ newLine depth ++ writeText false name ++ ": " ++ prettyAt depth j ++
      prettyFields depth false rest

end

/-- The value with one item a line. -/
def pretty (j : Json) : String := prettyAt 0 j

end Wheelwright.Json
