/-
  The shortest decimal that reads back as a number, and how it is laid out.

  **Digits** — for 1, 2, … digits in turn the two decimals next to the number are tried; the first
  that reads back is taken, of two the nearer one.  Seventeen digits are always enough.

  **Layout** — magnitudes from 1e-4 up to 1e16 are written with a point and at least one digit after
  it; all others with one digit, maybe a fraction, and an exponent.
-/
import Wheelwright.Binary64

namespace Wheelwright.Decimal

/-- The least `t` from `t` on, in at most `steps` steps, for which `num · 10^t` is not below `den`. -/
def leadingZeros (den : Nat) : Nat → Nat → Nat → Nat
  | 0, t, _ => t
  | steps + 1, t, num => if den ≤ num then t else leadingZeros den steps (t + 1) (10 * num)

/-- How many digits `num / den` has before the point; not positive if it starts behind the point. -/
def wholeDigits (num den : Nat) : Int :=
  if den ≤ num then ((Nat.toDigits 10 (num / den)).length : Int)
  else 1 - (leadingZeros den 400 0 num : Int)

/-- A decimal `digits · 10 ^ power` of `count` digits next to `num / den` that reads back. -/
def nearby? (num den : Nat) (whole : Int) (count : Nat) : Option (Nat × Int) :=
  let power := whole - count
  let (n, d) :=
    if 0 ≤ power then (num, den * Nat.pow 10 power.toNat) else (num * Nat.pow 10 (-power).toNat, den)
  let x := Binary64.ofRatio false num den
  let readsBack (k : Nat) := Binary64.ofDecimal false k power = x
  let low := n / d
  let lowIsNearer := 2 * (n % d) ≤ d
  if readsBack low && (lowIsNearer || !readsBack (low + 1)) then some (low, power)
  else if readsBack (low + 1) then some (low + 1, power)
  else none

/-- The shortest decimal for `num / den`, as digits and a power of ten. -/
def shortest (num den : Nat) : Nat × Int :=
  let whole := wholeDigits num den
  ((List.range 17).findSome? fun n => nearby? num den whole (n + 1)).getD (0, 0)

/-- Digits without zeros at their end, and the power of ten for them. -/
def trimZeros : Nat → Nat → Int → Nat × Int
  | 0, digits, power => (digits, power)
  | steps + 1, digits, power =>
    if digits != 0 && digits % 10 = 0 then trimZeros steps (digits / 10) (power + 1) else (digits, power)

/-- A decimal with a point in it. -/
def pointText (digits : List Char) (power : Int) : String :=
  if 0 ≤ power then String.ofList (digits ++ List.replicate power.toNat '0') ++ ".0"
  else
    let places := (-power).toNat
    let padded := List.replicate (places + 1 - digits.length) '0' ++ digits
    String.ofList (padded.take (padded.length - places)) ++ "." ++
      String.ofList (padded.drop (padded.length - places))

/-- A decimal with an exponent. -/
def exponentText (digits : List Char) (power : Int) : String :=
  let exponent := power + digits.length - 1
  let fraction := digits.drop 1
  String.ofList (digits.take 1) ++ (if fraction.isEmpty then "" else "." ++ String.ofList fraction) ++
    "e" ++ toString exponent

/-- A number as text. -/
def text : Binary64 → String
  | .nan => "NaN"
  | .infinite negative => if negative then "-inf" else "inf"
  | .finite negative mantissa exponent =>
    let sign := if negative then "-" else ""
    if mantissa = 0 then sign ++ "0.0"
    else
      let (num, den) := Binary64.ratio mantissa exponent
      let (digits, power) := shortest num den
      let (digits, power) := trimZeros 17 digits power
      let isSmall := num * 10000 < den
      let isLarge := Nat.pow 10 16 * den ≤ num
      let cs := Nat.toDigits 10 digits
      sign ++ if isSmall || isLarge then exponentText cs power else pointText cs power

end Wheelwright.Decimal
