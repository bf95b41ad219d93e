/-
  Character classes — white space, decimal digits, word characters.

  The three classes that patterns over output lines are written in, and the class that quoted text
  spells out.  Membership is decided by the ranges of `CharTable`, with ASCII in front: most text
  is ASCII, and its classes are a handful of comparisons.
-/
import Wheelwright.Text.CharTable

namespace Wheelwright

/-- `c` lies in one of the closed ranges. -/
def inRanges (ranges : List (Nat × Nat)) (c : Char) : Bool :=
  ranges.any fun r => r.1 ≤ c.toNat && c.toNat ≤ r.2

/-- White space of any script. -/
def isBlank (c : Char) : Bool := inRanges Text.CharTable.whiteSpace c

/-- A decimal digit of any script. -/
def isDecimalDigit (c : Char) : Bool :=
  if c.toNat < 128 then c.isDigit else inRanges Text.CharTable.decimalDigits c

/-- A letter, mark, digit or connector of any script. -/
def isWordChar (c : Char) : Bool :=
  if c.toNat < 128 then c.isAlphanum || c = '_' else inRanges Text.CharTable.wordChars c

/-- A character that quoted text cannot show as itself. -/
def isEscapedChar (c : Char) : Bool :=
  if c.toNat < 128 then c.toNat < 32 || c.toNat = 127 else inRanges Text.CharTable.escapedChars c

/-! ## Trimming -/

/-- `s` without the characters at its front that satisfy `p`. -/
def dropFrontWhile (p : Char → Bool) (s : String) : String :=
  String.ofList (s.toList.dropWhile p)

/-- `s` without the characters at its end that satisfy `p`. -/
def dropEndWhile (p : Char → Bool) (s : String) : String :=
  String.ofList (s.toList.reverse.dropWhile p).reverse

/-- `s` without the white space around it. -/
def trimBlank (s : String) : String := dropEndWhile isBlank (dropFrontWhile isBlank s)

/-- `needle` occurs somewhere in `s`. -/
def occursIn (needle : List Char) : List Char → Bool
  | [] => needle.isEmpty
  | c :: rest => needle.isPrefixOf (c :: rest) || occursIn needle rest

/-- `s` holds the text `needle`. -/
def containsText (s needle : String) : Bool := occursIn needle.toList s.toList

/-! ## Numerals -/

/-- The value of a run of ASCII digits; nothing for another text. -/
def decimalValue : List Char → Option Nat
  | [] => none
  | cs => if cs.all Char.isDigit then some (cs.foldl (fun n c => 10 * n + (c.toNat - 48)) 0) else none

/-- `n` in lower-case base sixteen. -/
def hexText (n : Nat) : String := String.ofList (Nat.toDigits 16 n)

/-- `n` in base ten, with zeros in front up to `width` digits. -/
def padDecimal (width n : Nat) : String :=
  let digits := toString n
  String.ofList (List.replicate (width - digits.length) '0') ++ digits

end Wheelwright
