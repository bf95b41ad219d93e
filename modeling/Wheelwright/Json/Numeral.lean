/-
  JSON numerals.

  **Grammar** — an optional minus, digits without a leading zero, an optional fraction, an optional
  exponent.

  **Value** — an integer that fits 64 bits keeps its value.  Any other numeral is a double computed
  from its leading digits: as many as fit an unsigned word of 64 bits make the significand, the rest
  only count into the exponent, and one multiplication or division by a power of ten (in steps of
  10^308 below the range) gives the double.  That is close to the nearest double, and not always it.
-/
import Wheelwright.Json.Basic
import Wheelwright.Text.CharClass

namespace Wheelwright

/-- A numeral taken apart: sign, digits before and after the point, and the exponent with its sign. -/
structure NumeralText where
  negative : Bool
  whole : List Nat
  fraction : Option (List Nat)
  exponent : Option (Bool × List Nat)

namespace NumeralText

/-- The value of a digit. -/
def digitOf (c : Char) : Nat := c.toNat - 48

/-- The digits at the front of `cs`, and what follows them. -/
def takeDigits (cs : List Char) : List Nat × List Char :=
  ((cs.takeWhile Char.isDigit).map digitOf, cs.dropWhile Char.isDigit)

/-- The exponent that ends a numeral. -/
def parseExponent? : List Char → Option (Option (Bool × List Nat))
  | [] => some none
  | c :: rest =>
    if c = 'e' || c = 'E' then
      let (negative, rest) :=
        match rest with
        | '-' :: more => (true, more)
        | '+' :: more => (false, more)
        | _ => (false, rest)
      let (digits, after) := takeDigits rest
      if digits.isEmpty || !after.isEmpty then none else some (some (negative, digits))
    else none

/-- A whole text as a numeral. -/
def parse? (cs : List Char) : Option NumeralText :=
  let (negative, cs) :=
    match cs with
    | '-' :: rest => (true, rest)
    | _ => (false, cs)
  let (whole, rest) := takeDigits cs
  if whole.isEmpty || (whole.head? = some 0 && whole.length != 1) then none
  else
    match rest with
    | '.' :: more =>
      let (digits, after) := takeDigits more
      if digits.isEmpty then none
      else (parseExponent? after).map fun e => ⟨negative, whole, some digits, e⟩
    | _ => (parseExponent? rest).map fun e => ⟨negative, whole, none, e⟩

/-- The greatest word of 64 bits. -/
def maxWord : Nat := Nat.pow 2 64 - 1

/-- Digits appended to a significand while it fits a word, and the digits that are left. -/
def absorb (significand : Nat) : List Nat → Nat × List Nat
  | [] => (significand, [])
  | d :: rest =>
    if significand * 10 + d ≤ maxWord then absorb (significand * 10 + d) rest
    else (significand, d :: rest)

/-- The power of ten of an exponent, as the nearest double. -/
def powerOfTen (n : Nat) : Binary64 := Binary64.ofDecimal false 1 n

/-- `x · 10 ^ e`, by one step within the table of powers and steps of 10^308 below it; nothing when
    the result is too large. -/
def scale (steps : Nat) (x : Binary64) (e : Int) : Option Binary64 :=
  if e.natAbs ≤ 308 then
    if 0 ≤ e then
      match Binary64.mul x (powerOfTen e.toNat) with
      | .infinite _ => none
      | y => some y
    else some (Binary64.div x (powerOfTen e.natAbs))
  else if !x.isPositive then some x
  else if 0 ≤ e then none
  else
    match steps with
    | 0 => some x
    | n + 1 => scale n (Binary64.div x (powerOfTen 308)) (e + 308)

/-- The double of a significand and a power of ten. -/
def doubleOf (negative : Bool) (significand : Nat) (e : Int) : Option Binary64 :=
  (scale 4 (Binary64.ofNat significand) e).map fun x => if negative then x.negate else x

/-- The least exponent that does not fit a signed word of 32 bits. -/
def exponentLimit : Nat := Nat.pow 2 31

/-- The double of a numeral with the given significand, power of ten and written exponent. -/
def withExponent (negative : Bool) (significand : Nat) (e : Int) :
    Option (Bool × List Nat) → Option Binary64
  | none => doubleOf negative significand e
  | some (below, digits) =>
    let written := digits.foldl (fun n d => 10 * n + d) 0
    if exponentLimit ≤ written then
      if significand != 0 && !below then none
      else some (.finite negative 0 Binary64.minExponent)
    else doubleOf negative significand (if below then e - written else e + written)

/-- The value of a numeral; nothing when it is too large for a double. -/
def value? (t : NumeralText) : Option Numeral :=
  let (significand, left) := absorb 0 t.whole
  match t.fraction, t.exponent with
  | none, none =>
    if !left.isEmpty then (doubleOf t.negative significand left.length).map .real
    else if !t.negative then some (.natural significand)
    else if significand != 0 && significand ≤ Nat.pow 2 63 then some (.negative significand)
    else some (.real (Binary64.ofNat significand).negate)
  | fraction, exponent =>
    let digits := fraction.getD []
    let (significand, unread) := absorb significand digits
    let power : Int := (left.length : Int) - ((digits.length - unread.length : Nat) : Int)
    (withExponent t.negative significand power exponent).map .real

end NumeralText

end Wheelwright
