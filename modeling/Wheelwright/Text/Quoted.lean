/-
  Quoted text — a string between double quotes, readable on one line.

  A quote and a backslash get a backslash in front, the four usual controls have their letters, and
  every other character that cannot be shown is spelled by its code point.
-/
import Wheelwright.Text.CharClass

namespace Wheelwright

/-- One character of a quoted text. -/
def quoteChar (c : Char) : String :=
  if c = '"' then "\\\""
  else if c = '\\' then "\\\\"
  else if c = '\n' then "\\n"
  else if c = '\t' then "\\t"
  else if c = '\r' then "\\r"
  else if c.toNat = 0 then "\\0"
  else if isEscapedChar c then "\\u\x7b" ++ hexText c.toNat ++ "\x7d"
  else c.toString

/-- `s` as quoted text. -/
def quoteText (s : String) : String :=
  "\"" ++ s.toList.foldl (fun out c => out ++ quoteChar c) "" ++ "\""

/-- An optional value, quoted when it is there. -/
def quoteOption (quote : String → String) : Option String → String
  | none => "None"
  | some s => "Some(" ++ quote s ++ ")"

/-- A path as quoted text, in which a single quote has a backslash in front too. -/
def quotePath (s : String) : String :=
  let quote (c : Char) : String := if c = '\'' then "\\'" else quoteChar c
  "\"" ++ s.toList.foldl (fun out c => out ++ quote c) "" ++ "\""

end Wheelwright
