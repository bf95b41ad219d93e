/-
  Shell scripts — words and statements.

  A word is a list of pieces.  Text stands for itself; a parameter, the output of statements and a
  sum are replaced by their values.  Pieces outside quotes may fall into several fields, or none.
-/

namespace Wheelwright.Shell

/-- What stands for a parameter when it is set, unset or empty. -/
inductive ParameterUse where
  | value
  | length
  /-- The word stands for an unset parameter, or for an empty one too. -/
  | default (emptyToo : Bool)
  /-- As `default`, and the parameter is set to the word. -/
  | assign (emptyToo : Bool)
  /-- The word stands for a parameter that is set. -/
  | alternative (emptyToo : Bool)
  /-- An unset parameter, or an empty one too, ends the shell with the word as a message. -/
  | required (emptyToo : Bool)
  /-- The value without a pattern at its start or end. -/
  | without (atEnd longest : Bool)
  deriving DecidableEq

/-- What a redirection does. -/
inductive RedirectionKind where
  | input
  /-- What is read stands in the script. -/
  | here
  | output
  | append
  /-- To where another descriptor leads, or nowhere. -/
  | duplicate
  deriving DecidableEq

mutual

/-- A piece of a word. -/
inductive Piece where
  | text (s : List Char) (quoted : Bool)
  | parameter (name : String) (use : ParameterUse) (word : List Piece) (quoted : Bool)
  | output (body : List Statement) (quoted : Bool)
  | sum (expression : List Piece) (quoted : Bool)

/-- Where a descriptor leads to. -/
inductive Redirection where
  | mk (descriptor : Nat) (kind : RedirectionKind) (target : List Piece)

/-- A statement of a script. -/
inductive Statement where
  | simple (line : Nat) (assignments : List (String × List Piece)) (words : List (List Piece))
      (redirections : List Redirection)
  | pipe (first second : Statement)
  | both (first second : Statement)
  | either (first second : Statement)
  | negated (body : Statement)
  | background (body : Statement)
  | group (subshell : Bool) (body : List Statement) (redirections : List Redirection)
  | branch (condition yes no : List Statement)
  | loop (endsWhenTrue : Bool) (condition body : List Statement)
  | each (name : String) (words : Option (List (List Piece))) (body : List Statement)
  | choice (word : List Piece) (cases : List (List (List Piece) × List Statement))
  | define (name : String) (body : Statement)

end

/-- A word. -/
abbrev Word := List Piece

/-! ## Characters -/

def isBlank (c : Char) : Bool := c = ' ' || c = '\t'

/-- A character that fields are split at. -/
def isSeparator (c : Char) : Bool := isBlank c || c = '\n'

/-- A character that ends a word outside quotes. -/
def isMeta (c : Char) : Bool := isSeparator c || [';', '&', '|', '(', ')', '<', '>'].contains c

def isNameStart (c : Char) : Bool := c.isAlpha || c = '_'

def isNameChar (c : Char) : Bool := c.isAlphanum || c = '_'

/-- The text is a name of a variable. -/
def isName (cs : List Char) : Bool := (cs.head?.any isNameStart) && cs.all isNameChar

/-! ## Patterns -/

/-- A set of characters in brackets: whether `c` is in it, and what follows. -/
def inSet (c : Char) (found : Bool) : List Char → Option (Bool × List Char)
  | [] => none
  | ']' :: rest => some (found, rest)
  | a :: '-' :: b :: rest =>
    if b = ']' then some (found || a = c || c = '-', rest) else inSet c (found || (a ≤ c && c ≤ b)) rest
  | a :: rest => inSet c (found || a = c) rest

/-- The pattern fits all of a text; at most `steps` steps are taken. -/
def fits : Nat → List Char → List Char → Bool
  | 0, _, _ => false
  | _, [], text => text.isEmpty
  | steps + 1, '*' :: pattern, text =>
    fits steps pattern text ||
      match text with
      | [] => false
      | _ :: rest => fits steps ('*' :: pattern) rest
  | steps + 1, '?' :: pattern, text =>
    match text with
    | [] => false
    | _ :: rest => fits steps pattern rest
  | steps + 1, '\\' :: p :: pattern, text =>
    match text with
    | [] => false
    | c :: rest => p = c && fits steps pattern rest
  | steps + 1, '[' :: pattern, text =>
    match text with
    | [] => false
    | c :: rest =>
      let negated := pattern.head? = some '!'
      match inSet c false (if negated then pattern.drop 1 else pattern) with
      | some (found, after) => (found != negated) && fits steps after rest
      | none => c = '[' && fits steps pattern rest
  | steps + 1, p :: pattern, text =>
    match text with
    | [] => false
    | c :: rest => p = c && fits steps pattern rest

/-- The pattern fits a text. -/
def matchesPattern (pattern text : List Char) : Bool :=
  fits (pattern.length + text.length + 1) pattern text

/-- A text without what a pattern fits at its start or end. -/
def trimPattern (pattern : List Char) (atEnd longest : Bool) (text : List Char) : List Char :=
  let lengths := List.range (text.length + 1)
  let inOrder := if longest then lengths.reverse else lengths
  if atEnd then
    match inOrder.find? fun n => matchesPattern pattern (text.drop (text.length - n)) with
    | some n => text.take (text.length - n)
    | none => text
  else
    match inOrder.find? fun n => matchesPattern pattern (text.take n) with
    | some n => text.drop n
    | none => text

end Wheelwright.Shell
