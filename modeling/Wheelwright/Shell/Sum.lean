/-
  Sums — arithmetic in shell scripts.

  **Program** — a text is cut into numbers, names and signs; then operands and signs are read by
  rank, the loosest binding first.  Numbers have 64 bits and wrap.  A name stands for the number in
  its variable, and for zero without one; a variable may be set on the way.
-/
import Wheelwright.Shell.Basic

namespace Wheelwright.Shell.Sum

inductive Token where
  | number (n : Int)
  | name (s : String)
  | sign (s : String)
  deriving DecidableEq

/-- Signs, longer ones before those they start with. -/
def signs : List String :=
  ["<<", ">>", "<=", ">=", "==", "!=", "&&", "||", "+=", "-=", "*=", "/=", "%=",
    "+", "-", "*", "/", "%", "<", ">", "&", "|", "^", "~", "!", "(", ")", "?", ":", "="]

/-- The value of digits in a base; nothing if one is too large. -/
def inBase (base : Nat) (digits : List Char) : Option Int :=
  digits.foldl (fun n c => do
    let n ← n
    let d :=
      if c.isDigit then c.toNat - '0'.toNat
      else if c.isAlpha then c.toLower.toNat - 'a'.toNat + 10
      else base
    if d < base then some (n * (base : Int) + (d : Int)) else none) (some 0)

/-- A numeral: hexadecimal after `0x`, octal after `0`, else decimal. -/
def numeral? : List Char → Option Int
  | [] => none
  | '0' :: x :: digits =>
    if x = 'x' || x = 'X' then (if digits.isEmpty then none else inBase 16 digits)
    else inBase 8 (x :: digits)
  | digits => inBase 10 digits

/-- A number as spelled in a variable. -/
def number? (text : String) : Option Int :=
  match (trimmed text.toList) with
  | [] => some 0
  | '-' :: rest => (numeral? rest).map fun n => -n
  | '+' :: rest => numeral? rest
  | digits => numeral? digits
where
  trimmed (cs : List Char) : List Char :=
    ((cs.dropWhile isSeparator).reverse.dropWhile isSeparator).reverse

/-- The tokens of a text, at most so many. -/
def tokens : Nat → List Char → Option (List Token)
  | 0, _ => none
  | _, [] => some []
  | count + 1, c :: rest =>
    let all := c :: rest
    if isSeparator c then tokens count rest
    else if c.isDigit then do
      let n ← numeral? (all.takeWhile Char.isAlphanum)
      let more ← tokens count (all.dropWhile Char.isAlphanum)
      some (.number n :: more)
    else if isNameStart c then do
      let more ← tokens count (all.dropWhile isNameChar)
      some (.name (String.ofList (all.takeWhile isNameChar)) :: more)
    else do
      let s ← signs.find? fun s => s.toList.isPrefixOf all
      let more ← tokens count (all.drop s.length)
      some (.sign s :: more)

/-- Signs between two operands, by rank. -/
def ranks : List (List String) :=
  [["||"], ["&&"], ["|"], ["^"], ["&"], ["==", "!="], ["<", "<=", ">", ">="], ["<<", ">>"],
    ["+", "-"], ["*", "/", "%"]]

def wrapped (n : Int) : Int := Int.bmod n (Nat.pow 2 64)

def ofBool (b : Bool) : Int := if b then 1 else 0

/-- What a sign makes of two numbers; nothing if it divides by zero. -/
def combine (sign : String) (a b : Int) : Option Int :=
  let word (n : Int) : Nat := (n % Nat.pow 2 64).toNat
  match sign with
  | "||" => some (ofBool (a != 0 || b != 0))
  | "&&" => some (ofBool (a != 0 && b != 0))
  | "|" => some (wrapped (word a ||| word b : Nat))
  | "^" => some (wrapped (word a ^^^ word b : Nat))
  | "&" => some (wrapped (word a &&& word b : Nat))
  | "==" => some (ofBool (a = b))
  | "!=" => some (ofBool (a ≠ b))
  | "<" => some (ofBool (a < b))
  | "<=" => some (ofBool (a ≤ b))
  | ">" => some (ofBool (b < a))
  | ">=" => some (ofBool (b ≤ a))
  | "<<" => some (wrapped (a * Nat.pow 2 (word b % 64)))
  | ">>" => some (a / Nat.pow 2 (word b % 64))
  | "+" => some (wrapped (a + b))
  | "-" => some (wrapped (a - b))
  | "*" => some (wrapped (a * b))
  | "/" => if b = 0 then none else some (wrapped (a.tdiv b))
  | "%" => if b = 0 then none else some (a.tmod b)
  | _ => none

/-- Variables and their values, the latest first. -/
abbrev Values := List (String × Int)

/-- The number a name stands for. -/
def valueOf (look : String → Option String) (set : Values) (name : String) : Option Int :=
  match set.lookup name with
  | some n => some n
  | none => number? ((look name).getD "")

mutual

/-- An operand of a rank: what it is worth, the tokens after it, and the variables set. -/
def operand (look : String → Option String) : Nat → Nat → List Token → Values →
    Option (Int × List Token × Values)
  | 0, _, _, _ => none
  | steps + 1, rank, ts, set =>
    if rank < ranks.length then do
      let (n, ts, set) ← operand look steps (rank + 1) ts set
      further look steps rank n ts set
    else
      match ts with
      | .number n :: ts => some (n, ts, set)
      | .name v :: .sign "=" :: ts => do
        let (n, ts, set) ← whole look steps ts set
        some (n, ts, (v, n) :: set)
      | .name v :: .sign s :: ts =>
        if ["+=", "-=", "*=", "/=", "%="].contains s then do
          let (n, ts, set) ← whole look steps ts set
          let n ← combine (s.dropEnd 1).toString (← valueOf look set v) n
          some (n, ts, (v, n) :: set)
        else do some (← valueOf look set v, .sign s :: ts, set)
      | .name v :: ts => do some (← valueOf look set v, ts, set)
      | .sign "(" :: ts => do
        let (n, ts, set) ← whole look steps ts set
        if ts.head? = some (.sign ")") then some (n, ts.tail, set) else none
      | .sign s :: ts => do
        let (n, ts, set) ← operand look steps rank ts set
        match s with
        | "-" => some (wrapped (-n), ts, set)
        | "+" => some (n, ts, set)
        | "!" => some (ofBool (n = 0), ts, set)
        | "~" => some (-n - 1, ts, set)
        | _ => none
      | [] => none

/-- The value of `n` and the signs of a rank with operands that follow. -/
def further (look : String → Option String) : Nat → Nat → Int → List Token → Values →
    Option (Int × List Token × Values)
  | 0, _, _, _, _ => none
  | steps + 1, rank, n, ts, set =>
    match ts with
    | .sign s :: rest =>
      if (ranks.getD rank []).contains s then do
        let (m, rest, set) ← operand look steps (rank + 1) rest set
        further look steps rank (← combine s n m) rest set
      else some (n, ts, set)
    | _ => some (n, ts, set)

/-- All of a sum, with a choice between two if there is one. -/
def whole (look : String → Option String) : Nat → List Token → Values →
    Option (Int × List Token × Values)
  | 0, _, _ => none
  | steps + 1, ts, set => do
    let (n, ts, set) ← operand look steps 0 ts set
    if ts.head? = some (.sign "?") then
      let (yes, ts, set) ← whole look steps ts.tail set
      if ts.head? = some (.sign ":") then
        let (no, ts, set) ← whole look steps ts.tail set
        some (if n ≠ 0 then yes else no, ts, set)
      else none
    else some (n, ts, set)

end

/-- What a sum is worth, and the variables it sets. -/
def value? (look : String → Option String) (text : String) : Option (Int × Values) := do
  let ts ← tokens (text.length + 1) text.toList
  if ts.isEmpty then some (0, [])
  else
    match whole look (16 * (ts.length + 1)) ts [] with
    | some (n, [], set) => some (n, set)
    | _ => none

end Wheelwright.Shell.Sum
