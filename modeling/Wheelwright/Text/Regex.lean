/-
  Regular expressions over bytes.

  **Program** — reading one byte turns an expression into the list of expressions that may follow;
  a text is accepted if some expression left at its end accepts the empty text.

  The expressions that may follow are built from parts of the one at the start, so their number
  stays small however long the text is.
-/

namespace Wheelwright

/-- Bytes from ranges, or those in none of them. -/
structure ByteSet where
  negated : Bool
  ranges : List (UInt8 × UInt8)
  deriving DecidableEq

namespace ByteSet

def contains (s : ByteSet) (b : UInt8) : Bool :=
  s.ranges.any (fun r => r.1 ≤ b && b ≤ r.2) != s.negated

/-- One byte. -/
def one (b : UInt8) : ByteSet := ⟨false, [(b, b)]⟩

/-- All bytes but one. -/
def allBut (b : UInt8) : ByteSet := ⟨true, [(b, b)]⟩

/-- All bytes. -/
def all : ByteSet := ⟨true, []⟩

theorem contains_all (b : UInt8) : all.contains b = true := rfl

end ByteSet

/-- A regular expression over bytes. -/
inductive Regex where
  | empty
  | byte (set : ByteSet)
  | seq (r s : Regex)
  | alt (r s : Regex)
  | star (r : Regex)
  deriving DecidableEq

namespace Regex

/-- The empty text is accepted. -/
def nullable : Regex → Bool
  | .empty => true
  | .byte _ => false
  | .seq r s => r.nullable && s.nullable
  | .alt r s => r.nullable || s.nullable
  | .star _ => true

/-- `r` and then `s`. -/
def andThen (r s : Regex) : Regex := if r = .empty then s else .seq r s

/-- What may follow a byte. -/
def after (b : UInt8) : Regex → List Regex
  | .empty => []
  | .byte set => if set.contains b then [.empty] else []
  | .seq r s =>
    let first := (after b r).map (andThen · s)
    if r.nullable then first ++ after b s else first
  | .alt r s => after b r ++ after b s
  | .star r => (after b r).map (andThen · (.star r))

/-- Reads one byte in each of some expressions. -/
def advance (b : UInt8) (states : List Regex) : List Regex := (states.flatMap (after b)).eraseDups

/-- The whole text is accepted. -/
def accepts (r : Regex) (text : List UInt8) : Bool :=
  (text.foldl (fun states b => advance b states) [r]).any nullable

/-- The expressions one after the other. -/
def sequence : List Regex → Regex
  | [] => .empty
  | [r] => r
  | r :: rest => .seq r (sequence rest)

/-- The bytes one after the other. -/
def bytes (text : List UInt8) : Regex := sequence (text.map fun b => .byte (.one b))

/-- One of two expressions, the first or more. -/
def oneOf : Regex → List Regex → Regex
  | r, [] => r
  | r, s :: rest => .alt r (oneOf s rest)

end Regex

end Wheelwright
