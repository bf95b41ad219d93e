/-
  JSON tokens.

  **Machine** — the text is read one character at a time.  Between tokens a mark is a token of its
  own; inside a text the lexer keeps the characters and code units so far; a word is a run of
  letters, digits, signs and points, and is a literal or a numeral once it ends.

  Escapes by number are code units of 16 bits: a leading half needs its trailing half right after it,
  and a text with a lone half is a token without a value.
-/
import Wheelwright.Json.Numeral

namespace Wheelwright.Json

/-- A token. -/
inductive Token where
  | openBrace
  | closeBrace
  | openBracket
  | closeBracket
  | colon
  | comma
  | null
  | bool (b : Bool)
  | number (n : Option Numeral)
  | text (s : Option String)

/-- A part of a text: a character, or a code unit written by number. -/
inductive TextUnit where
  | char (c : Char)
  | code (n : Nat)

/-- The characters of a text, if every code unit has its other half. -/
def assemble : List TextUnit → Option (List Char)
  | [] => some []
  | .char c :: rest => (assemble rest).map (c :: ·)
  | .code n :: rest =>
    if n < 0xD800 || 0xDFFF < n then (assemble rest).map (Char.ofNat n :: ·)
    else if 0xDC00 ≤ n then none
    else
      match rest with
      | .code m :: more =>
        if 0xDC00 ≤ m && m ≤ 0xDFFF then
          (assemble more).map (Char.ofNat (0x10000 + (n - 0xD800) * 0x400 + (m - 0xDC00)) :: ·)
        else none
      | _ => none

/-- Where the lexer stands; lists hold what was read, the last first. -/
inductive Mode where
  | between
  | word (read : List Char)
  | text (read : List TextUnit)
  | escape (read : List TextUnit)
  | hex (read : List TextUnit) (digits : Nat) (value : Nat)

/-- A character of a word. -/
def isWordPart (c : Char) : Bool := c.isAlphanum || c = '-' || c = '+' || c = '.'

/-- The token of a whole word. -/
def wordToken? (cs : List Char) : Option Token :=
  if cs = "true".toList then some (.bool true)
  else if cs = "false".toList then some (.bool false)
  else if cs = "null".toList then some .null
  else (NumeralText.parse? cs).map fun t => .number t.value?

/-- A character between tokens: the token it is, if it is one, and the mode after it. -/
def begin (c : Char) : Option (List Token × Mode) :=
  if c = ' ' || c = '\n' || c = '\t' || c = '\r' then some ([], .between)
  else if c = '{' then some ([.openBrace], .between)
  else if c = '}' then some ([.closeBrace], .between)
  else if c = '[' then some ([.openBracket], .between)
  else if c = ']' then some ([.closeBracket], .between)
  else if c = ':' then some ([.colon], .between)
  else if c = ',' then some ([.comma], .between)
  else if c = '"' then some ([], .text [])
  else if isWordPart c then some ([], .word [c])
  else none

/-- The value of a hexadecimal digit. -/
def hexDigit? (c : Char) : Option Nat :=
  if c.isDigit then some (c.toNat - 48)
  else if 'a' ≤ c && c ≤ 'f' then some (c.toNat - 87)
  else if 'A' ≤ c && c ≤ 'F' then some (c.toNat - 55)
  else none

/-- The character of a one-letter escape. -/
def escapeLetter? (c : Char) : Option Char :=
  if c = '"' || c = '\\' || c = '/' then some c
  else if c = 'b' then some (Char.ofNat 8)
  else if c = 'f' then some (Char.ofNat 12)
  else if c = 'n' then some '\n'
  else if c = 'r' then some '\r'
  else if c = 't' then some '\t'
  else none

/-- One character: the tokens it ends or is, and the mode after it. -/
def lexStep (mode : Mode) (c : Char) : Option (List Token × Mode) :=
  match mode with
  | .between => begin c
  | .word read =>
    if isWordPart c then some ([], .word (c :: read))
    else do
      let token ← wordToken? read.reverse
      let (more, next) ← begin c
      some (token :: more, next)
  | .text read =>
    if c = '"' then some ([.text ((assemble read.reverse).map String.ofList)], .between)
    else if c = '\\' then some ([], .escape read)
    else if c.toNat < 32 then none
    else some ([], .text (.char c :: read))
  | .escape read =>
    if c = 'u' then some ([], .hex read 0 0)
    else (escapeLetter? c).map fun e => ([], .text (.char e :: read))
  | .hex read digits value =>
    (hexDigit? c).map fun d =>
      if digits = 3 then ([], .text (.code (value * 16 + d) :: read))
      else ([], .hex read (digits + 1) (value * 16 + d))

/-- The tokens of a text from a mode on, after those in `done` (the last first). -/
def lexFrom (done : List Token) (mode : Mode) : List Char → Option (List Token)
  | [] =>
    match mode with
    | .between => some done.reverse
    | .word read => (wordToken? read.reverse).map fun t => (t :: done).reverse
    | _ => none
  | c :: rest =>
    match lexStep mode c with
    | none => none
    | some (tokens, next) => lexFrom (tokens.reverse ++ done) next rest

/-- The tokens of a text. -/
def lex (s : String) : Option (List Token) := lexFrom [] .between s.toList

end Wheelwright.Json
