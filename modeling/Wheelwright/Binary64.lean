/-
  Binary64 — double precision numbers in exact arithmetic.

  **Numbers** — a finite number is a sign, a mantissa and an exponent of two.  The mantissa has 53
  bits, or the exponent is the least one, -1074; so each number has one form.

  **Operations** — every operation is computed on quotients of natural numbers and then rounded once,
  by `ofRatio`: to the nearest number, of two equally near ones to that with the even mantissa.
-/

namespace Wheelwright

/-- A double precision number. -/
inductive Binary64 where
  | nan
  | infinite (negative : Bool)
  /-- The number `± mantissa · 2 ^ exponent`. -/
  | finite (negative : Bool) (mantissa : Nat) (exponent : Int)
  deriving DecidableEq, Inhabited

/-- `num / den` to the nearest natural number, a tie to the even one. -/
def roundHalfEven (num den : Nat) : Nat :=
  let q := num / den
  let twice := 2 * (num % den)
  if twice < den then q
  else if den < twice then q + 1
  else if q % 2 = 0 then q else q + 1

namespace Binary64

/-- The least exponent. -/
def minExponent : Int := -1074

/-- The greatest exponent. -/
def maxExponent : Int := 971

/-- `num / den · 2 ^ (-e)` as a quotient. -/
def scaled (num den : Nat) (e : Int) : Nat × Nat :=
  if e ≤ 0 then (num * Nat.pow 2 (-e).toNat, den) else (num, den * Nat.pow 2 e.toNat)

/-- The exponent at which `num / den` has a mantissa of 53 bits, or the least one. -/
def exponentFor (num den : Nat) : Int :=
  let guess : Int := (num.log2 : Int) - (den.log2 : Int) - 52
  let (n, d) := scaled num den guess
  let exact := if n / d < Nat.pow 2 52 then guess - 1 else guess
  if exact < minExponent then minExponent else exact

/-- The number nearest to `± num / den`. -/
def ofRatio (negative : Bool) (num den : Nat) : Binary64 :=
  if num = 0 then .finite negative 0 minExponent
  else
    let e := exponentFor num den
    let (n, d) := scaled num den e
    let m := roundHalfEven n d
    let (m, e) := if m = Nat.pow 2 53 then (Nat.pow 2 52, e + 1) else (m, e)
    if maxExponent < e then .infinite negative else .finite negative m e

/-- The number nearest to `n`. -/
def ofNat (n : Nat) : Binary64 := ofRatio false n 1

/-- The number nearest to `± digits · 10 ^ power`. -/
def ofDecimal (negative : Bool) (digits : Nat) (power : Int) : Binary64 :=
  if digits = 0 then .finite negative 0 minExponent
  else if 400 < power then .infinite negative
  else if power + (digits.log2 : Int) < -1500 then .finite negative 0 minExponent
  else if 0 ≤ power then ofRatio negative (digits * Nat.pow 10 power.toNat) 1
  else ofRatio negative digits (Nat.pow 10 (-power).toNat)

/-- The magnitude of a finite number as a quotient. -/
def ratio (mantissa : Nat) (exponent : Int) : Nat × Nat :=
  if 0 ≤ exponent then (mantissa * Nat.pow 2 exponent.toNat, 1) else (mantissa, Nat.pow 2 (-exponent).toNat)

/-- The number with its sign turned. -/
def negate : Binary64 → Binary64
  | .nan => .nan
  | .infinite s => .infinite !s
  | .finite s m e => .finite (!s) m e

/-- The product, rounded. -/
def mul : Binary64 → Binary64 → Binary64
  | .nan, _ => .nan
  | _, .nan => .nan
  | .infinite s, .infinite t => .infinite (s != t)
  | .infinite s, .finite t m _ => if m = 0 then .nan else .infinite (s != t)
  | .finite s m _, .infinite t => if m = 0 then .nan else .infinite (s != t)
  | .finite s m e, .finite t k f =>
    let (n, d) := ratio m e
    let (p, q) := ratio k f
    ofRatio (s != t) (n * p) (d * q)

/-- The quotient, rounded. -/
def div : Binary64 → Binary64 → Binary64
  | .nan, _ => .nan
  | _, .nan => .nan
  | .infinite _, .infinite _ => .nan
  | .infinite s, .finite t _ _ => .infinite (s != t)
  | .finite s _ _, .infinite t => .finite (s != t) 0 minExponent
  | .finite s m e, .finite t k f =>
    if k = 0 then (if m = 0 then .nan else .infinite (s != t))
    else
      let (n, d) := ratio m e
      let (p, q) := ratio k f
      ofRatio (s != t) (n * q) (d * p)

/-- The sum of two numbers that are not negative, rounded. -/
def addMagnitudes : Binary64 → Binary64 → Binary64
  | .finite _ m e, .finite _ k f =>
    let (n, d) := ratio m e
    let (p, q) := ratio k f
    ofRatio false (n * q + p * d) (d * q)
  | .nan, _ => .nan
  | _, .nan => .nan
  | .infinite s, _ => .infinite s
  | _, .infinite s => .infinite s

/-- The number is greater than zero. -/
def isPositive : Binary64 → Bool
  | .nan => false
  | .infinite s => !s
  | .finite s m _ => !s && m != 0

/-- The number is neither infinite nor undefined. -/
def isFinite : Binary64 → Bool
  | .finite _ _ _ => true
  | _ => false

/-! ## Interchange form

  Doubles go in and out as their bits, so that nothing depends on how a number is printed.  All that is no number has
  one text. -/

/-- The 64 bits of a number: sign, biased exponent, mantissa without its leading bit. -/
def toBits : Binary64 → Nat
  | .nan => 0x7ff8000000000000
  | .infinite s => (if s then Nat.pow 2 63 else 0) + 0x7ff0000000000000
  | .finite s m e =>
    (if s then Nat.pow 2 63 else 0) +
      (if m < Nat.pow 2 52 then m else (e + 1075).toNat * Nat.pow 2 52 + (m - Nat.pow 2 52))

/-- The bits as sixteen digits; `nan` for no number. -/
def bitsText (x : Binary64) : String :=
  if x = .nan then "nan"
  else
    let digits := Nat.toDigits 16 x.toBits
    String.ofList (List.replicate (16 - digits.length) '0' ++ digits)

end Binary64

end Wheelwright
