/-
  Decimal numbers — reading a double from text.

  A sign, then digits with an optional point among or around them and an optional exponent; or one of
  the words for infinity and for no number, in any case.  The value is the double nearest to the
  number written, a tie going to the even mantissa.
-/
import Wheelwright.Binary64
import Wheelwright.Text.CharClass

namespace Wheelwright.Decimal

/-- The value of digits read in base ten. -/
def digitsValue (cs : List Char) : Nat := cs.foldl (fun n c => 10 * n + (c.toNat - 48)) 0

/-- A sign in front of a text: whether it is a minus, and what follows it. -/
def sign : List Char → Bool × List Char
  | '-' :: rest => (true, rest)
  | '+' :: rest => (false, rest)
  | cs => (false, cs)

/-- The exponent that ends a number; zero when there is none. -/
def exponent? : List Char → Option Int
  | [] => some 0
  | c :: rest =>
    if c = 'e' || c = 'E' then
      let (negative, digits) := sign rest
      (decimalValue digits).map fun n => if negative then -(n : Int) else n
    else none

/-- Digits, point and exponent. -/
def finite? (negative : Bool) (cs : List Char) : Option Binary64 := do
  let whole := cs.takeWhile Char.isDigit
  let rest := cs.dropWhile Char.isDigit
  let (fraction, rest) :=
    match rest with
    | '.' :: more => (more.takeWhile Char.isDigit, more.dropWhile Char.isDigit)
    | _ => ([], rest)
  if whole.isEmpty && fraction.isEmpty then none
  else
    let e ← exponent? rest
    some (Binary64.ofDecimal negative (digitsValue (whole ++ fraction)) (e - fraction.length))

/-- The double that a text writes. -/
def read? (s : String) : Option Binary64 :=
  let (negative, cs) := sign s.toList
  let word := String.ofList (cs.map Char.toLower)
  if word = "inf" || word = "infinity" then some (.infinite negative)
  else if word = "nan" then some .nan
  else finite? negative cs

end Wheelwright.Decimal
