/-
  TOML texts — the four kinds of strings, blanks and comments.

  A text in double quotes has escapes, one in single quotes has none; either may be tripled, and may
  then go over several lines.  A tripled text ends at its last quotes: up to two more quotes right
  before them belong to it.  A line end right after the opening quotes is dropped, and line ends are
  kept as line feeds.
-/
import Wheelwright.Json.Lexer

namespace Wheelwright.Toml

/-! ## Blanks, line ends and comments -/

/-- A blank within a line. -/
def isSpace (c : Char) : Bool := c = ' ' || c = '\t'

/-- The rest of the line is not blank yet. -/
def skipSpace (cs : List Char) : List Char := cs.dropWhile isSpace

/-- What follows a line end. -/
def lineEnd? : List Char → Option (List Char)
  | '\n' :: rest => some rest
  | '\r' :: '\n' :: rest => some rest
  | _ => none

/-- A character that may stand in comments and, quotes and backslashes apart, in texts. -/
def isPlain (c : Char) : Bool := c = '\t' || (32 ≤ c.toNat && c.toNat != 127)

/-- What follows a comment, if one starts here. -/
def skipComment (cs : List Char) : List Char :=
  match cs with
  | '#' :: rest => rest.dropWhile isPlain
  | _ => cs

/-- What follows the end of a line that holds nothing more. -/
def restOfLine? (cs : List Char) : Option (List Char) :=
  match skipComment (skipSpace cs) with
  | [] => some []
  | rest => lineEnd? rest

/-- Skips blanks, line ends and comments with their line ends, at most `count` lines. -/
def skipLines : Nat → List Char → List Char
  | 0, cs => skipSpace cs
  | count + 1, cs =>
    match lineEnd? (skipComment (skipSpace cs)) with
    | some rest => skipLines count rest
    | none => skipSpace cs

/-- Skips blanks, line ends and comments. -/
def skipAll (cs : List Char) : List Char := skipLines cs.length cs

/-! ## Texts without escapes

  Between single quotes everything stands for itself. -/

/-- Up to the closing single quote, after `done` (the last character first). -/
def literalText (done : List Char) : List Char → Option (String × List Char)
  | [] => none
  | c :: rest =>
    if c = '\'' then some (String.ofList done.reverse, rest)
    else if isPlain c then literalText (c :: done) rest
    else none

/-- Up to the closing three single quotes. -/
def literalLines (done : List Char) : List Char → Option (String × List Char)
  | '\'' :: '\'' :: '\'' :: '\'' :: '\'' :: rest => some (String.ofList ('\'' :: '\'' :: done).reverse, rest)
  | '\'' :: '\'' :: '\'' :: '\'' :: rest => some (String.ofList ('\'' :: done).reverse, rest)
  | '\'' :: '\'' :: '\'' :: rest => some (String.ofList done.reverse, rest)
  | '\r' :: '\n' :: rest => literalLines ('\n' :: done) rest
  | c :: rest => if isPlain c || c = '\n' then literalLines (c :: done) rest else none
  | [] => none

/-! ## Texts with escapes

  Between double quotes a backslash begins an escape, and ends a line that goes on. -/

/-- The character of hexadecimal digits, if they name one. -/
def codeChar? (digits : List Char) : Option Char := do
  let values ← digits.mapM Json.hexDigit?
  let n := values.foldl (fun n d => 16 * n + d) 0
  if n < 0xD800 || (0xDFFF < n && n < 0x110000) then some (Char.ofNat n) else none

/-- An escape after its backslash: the character, and what follows. -/
def escape? : List Char → Option (Char × List Char)
  | 'b' :: rest => some (Char.ofNat 8, rest)
  | 'f' :: rest => some (Char.ofNat 12, rest)
  | 'n' :: rest => some ('\n', rest)
  | 'r' :: rest => some ('\r', rest)
  | 't' :: rest => some ('\t', rest)
  | '"' :: rest => some ('"', rest)
  | '\\' :: rest => some ('\\', rest)
  | 'u' :: rest =>
    if rest.length < 4 then none else (codeChar? (rest.take 4)).map fun c => (c, rest.drop 4)
  | 'U' :: rest =>
    if rest.length < 8 then none else (codeChar? (rest.take 8)).map fun c => (c, rest.drop 8)
  | _ => none

/-- Up to the closing double quote, after `done` (the last character first), in `steps` steps. -/
def basicText : Nat → List Char → List Char → Option (String × List Char)
  | 0, _, _ => none
  | steps + 1, done, cs =>
    match cs with
    | [] => none
    | '"' :: rest => some (String.ofList done.reverse, rest)
    | '\\' :: rest =>
      match escape? rest with
      | none => none
      | some (c, rest) => basicText steps (c :: done) rest
    | c :: rest => if isPlain c then basicText steps (c :: done) rest else none

/-- What follows a backslash at the end of a line: the line end and all blanks and line ends after
    it are left out. -/
def joinedLine? (cs : List Char) : Option (List Char) :=
  (lineEnd? (skipSpace cs)).map fun rest => dropBlank rest.length rest
where
  /-- Drops blanks and line ends. -/
  dropBlank : Nat → List Char → List Char
    | 0, cs => cs
    | steps + 1, cs =>
      match lineEnd? (skipSpace cs) with
      | some rest => dropBlank steps rest
      | none => skipSpace cs

/-- Up to the closing three double quotes. -/
def basicLines : Nat → List Char → List Char → Option (String × List Char)
  | 0, _, _ => none
  | steps + 1, done, cs =>
    match cs with
    | '"' :: '"' :: '"' :: '"' :: '"' :: rest => some (String.ofList ('"' :: '"' :: done).reverse, rest)
    | '"' :: '"' :: '"' :: '"' :: rest => some (String.ofList ('"' :: done).reverse, rest)
    | '"' :: '"' :: '"' :: rest => some (String.ofList done.reverse, rest)
    | '\r' :: '\n' :: rest => basicLines steps ('\n' :: done) rest
    | '\\' :: rest =>
      match joinedLine? rest with
      | some rest => basicLines steps done rest
      | none =>
        match escape? rest with
        | none => none
        | some (c, rest) => basicLines steps (c :: done) rest
    | c :: rest => if isPlain c || c = '\n' then basicLines steps (c :: done) rest else none
    | [] => none

/-! ## Any text -/

/-- A text on one line, as keys may be. -/
def lineText? (cs : List Char) : Option (String × List Char) :=
  match cs with
  | '"' :: rest => basicText (rest.length + 1) [] rest
  | '\'' :: rest => literalText [] rest
  | _ => none

/-- A text of any kind. -/
def text? (cs : List Char) : Option (String × List Char) :=
  match cs with
  | '"' :: '"' :: '"' :: rest => basicLines (rest.length + 1) [] ((lineEnd? rest).getD rest)
  | '\'' :: '\'' :: '\'' :: rest => literalLines [] ((lineEnd? rest).getD rest)
  | _ => lineText? cs

end Wheelwright.Toml
