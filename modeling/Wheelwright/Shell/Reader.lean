/-
  Reading shell scripts.

  **Program** — a reader takes characters and gives a value with the characters that follow it.  A
  list of statements ends at the end of the text, at a closing parenthesis, at `;;`, or at a word
  that closes what the list stands in.  The reader of lists is an argument of all the readers below
  it, and is tied to itself by a bound on how deep statements lie in each other.
-/
import Wheelwright.Shell.Basic

namespace Wheelwright.Shell

/-- A reader of some value. -/
abbrev Reader (α : Type) := List Char → Option (α × List Char)

/-! ## Blanks and words of the grammar -/

/-- `cs` without blanks, joined lines and a comment at its start. -/
def skipBlanks : List Char → List Char
  | [] => []
  | c :: rest =>
    if isBlank c then skipBlanks rest
    else if c = '\\' && rest.head? = some '\n' then
      match rest with
      | [] => []
      | _ :: more => skipBlanks more
    else if c = '#' then rest.dropWhile (· != '\n')
    else c :: rest

/-- `cs` without blanks, comments and line ends at its start, in at most so many lines. -/
def skipLines : Nat → List Char → List Char
  | 0, cs => cs
  | lines + 1, cs =>
    match skipBlanks cs with
    | '\n' :: rest => skipLines lines rest
    | other => other

def skipAll (cs : List Char) : List Char := skipLines (cs.length + 1) cs

/-- The plain word at the start of `cs`, and what follows it. -/
def plainWord (cs : List Char) : List Char × List Char :=
  (cs.takeWhile fun c => !isMeta c, cs.dropWhile fun c => !isMeta c)

/-- The word `w` at the start of `cs`. -/
def keyword? (w : String) (cs : List Char) : Option (List Char) :=
  let (word, rest) := plainWord cs
  if word = w.toList then some rest else none

/-- The word `w` after blanks and line ends. -/
def expect (w : String) (cs : List Char) : Option (List Char) := keyword? w (skipAll cs)

/-- Words that close what a list stands in. -/
def closingWords : List String := ["then", "do", "done", "fi", "else", "elif", "esac", "\x7d"]

/-- A list of statements ends here. -/
def atListEnd (cs : List Char) : Bool :=
  match cs with
  | [] => true
  | ')' :: _ => true
  | ';' :: ';' :: _ => true
  | _ => closingWords.any fun w => (keyword? w cs).isSome

/-! ## Pieces of words -/

/-- Where pieces stand, and thus where they end. -/
inductive Place where
  | plain
  | quotes
  | braces
  | bracesInQuotes
  /-- All of a text. -/
  | whole
  deriving DecidableEq

namespace Place

def isQuoted : Place → Bool
  | .quotes | .bracesInQuotes | .whole => true
  | _ => false

def endsAt : Place → Char → Bool
  | .plain, c => isMeta c
  | .quotes, c => c = '"'
  | .braces, c | .bracesInQuotes, c => c = '\x7d'
  | .whole, _ => false

end Place

/-- The text up to the two parentheses that close a sum; `depth` parentheses are open. -/
def sumText (depth : Nat) : List Char → Option (List Char × List Char)
  | [] => none
  | ')' :: ')' :: rest =>
    if depth = 0 then some ([], rest)
    else (sumText (depth - 1) (')' :: rest)).map fun (text, after) => (')' :: text, after)
  | c :: rest =>
    let depth := if c = '(' then depth + 1 else if c = ')' then depth - 1 else depth
    (sumText depth rest).map fun (text, after) => (c :: text, after)

/-- How a parameter is used, after its name in braces. -/
def parameterUse : List Char → ParameterUse × List Char
  | ':' :: '-' :: rest => (.default true, rest)
  | '-' :: rest => (.default false, rest)
  | ':' :: '=' :: rest => (.assign true, rest)
  | '=' :: rest => (.assign false, rest)
  | ':' :: '+' :: rest => (.alternative true, rest)
  | '+' :: rest => (.alternative false, rest)
  | ':' :: '?' :: rest => (.required true, rest)
  | '?' :: rest => (.required false, rest)
  | '%' :: '%' :: rest => (.without true true, rest)
  | '%' :: rest => (.without true false, rest)
  | '#' :: '#' :: rest => (.without false true, rest)
  | '#' :: rest => (.without false false, rest)
  | rest => (.value, rest)

/-- Parameters of one character that is no letter. -/
def isSpecial (c : Char) : Bool := ['?', '#', '@', '*', '$', '!', '-'].contains c || c.isDigit

/-- The name of a parameter at the start of `cs`. -/
def parameterName (cs : List Char) : String × List Char :=
  match cs with
  | c :: rest =>
    if isNameStart c then
      (String.ofList (cs.takeWhile isNameChar), cs.dropWhile isNameChar)
    else if c.isDigit then (String.ofList (cs.takeWhile Char.isDigit), cs.dropWhile Char.isDigit)
    else if isSpecial c then (String.singleton c, rest)
    else ("", cs)
  | [] => ("", [])

/-- A parameter in braces, after the opening one. -/
def bracedParameter (pieces : Place → Reader (List Piece)) (quoted : Bool) : Reader Piece := fun cs =>
  match cs with
  | '#' :: '\x7d' :: rest => some (.parameter "#" .value [] quoted, rest)
  | '#' :: rest =>
    match parameterName rest with
    | (name, '\x7d' :: rest) => some (.parameter name .length [] quoted, rest)
    | _ => none
  | _ =>
    let (name, rest) := parameterName cs
    let (use, rest) := parameterUse rest
    if name = "" then none
    else
      match pieces (if quoted then .bracesInQuotes else .braces) rest with
      | some (word, '\x7d' :: rest) => some (.parameter name use word quoted, rest)
      | _ => none

/-- What a dollar sign starts, after the sign. -/
def dollar (list : Reader (List Statement)) (pieces : Place → Reader (List Piece)) (quoted : Bool) :
    Reader Piece := fun cs =>
  match cs with
  | '(' :: '(' :: rest => do
    let (text, rest) ← sumText 0 rest
    let (expression, _) ← pieces .whole text
    some (.sum expression quoted, rest)
  | '(' :: rest =>
    match list rest with
    | some (body, ')' :: rest) => some (.output body quoted, rest)
    | _ => none
  | '\x7b' :: rest => bracedParameter pieces quoted rest
  | c :: rest =>
    if isSpecial c then some (.parameter (String.singleton c) .value [] quoted, rest)
    else if isNameStart c then
      some (.parameter (String.ofList (cs.takeWhile isNameChar)) .value [] quoted, cs.dropWhile isNameChar)
    else some (.text ['$'] quoted, cs)
  | [] => some (.text ['$'] quoted, [])

/-- The text up to a backquote, and what follows it. -/
def backquoted : List Char → Option (List Char × List Char)
  | [] => none
  | '`' :: rest => some ([], rest)
  | '\\' :: c :: rest =>
    let kept := if c = '`' || c = '\\' || c = '$' then [c] else ['\\', c]
    (backquoted rest).map fun (text, after) => (kept ++ text, after)
  | c :: rest => (backquoted rest).map fun (text, after) => (c :: text, after)

/-- A backslash before the character is dropped where quotes do not end. -/
def escapable (place : Place) (c : Char) : Bool :=
  ['$', '`', '\\'].contains c || (c = '"' && place != .whole)

/-- The pieces at the start of a text, at most `count` of them. -/
def pieces (list : Reader (List Statement)) : Nat → Place → Reader (List Piece)
  | 0, _, _ => none
  | count + 1, place, cs =>
    let go (p : Piece) (rest : List Char) : Option (List Piece × List Char) :=
      (pieces list count place rest).map fun (more, after) => (p :: more, after)
    match cs with
    | [] => some ([], [])
    | c :: rest =>
      if place.endsAt c then some ([], cs)
      else if c = '$' then do
        let (p, rest) ← dollar list (pieces list count) place.isQuoted rest
        go p rest
      else if c = '`' then do
        let (text, rest) ← backquoted rest
        let (body, _) ← list text
        go (.output body place.isQuoted) rest
      else if c = '\\' then
        match rest with
        | [] => go (.text [c] true) []
        | d :: more =>
          if d = '\n' then pieces list count place more
          else if place.isQuoted && !escapable place d then go (.text [c] true) rest
          else go (.text [d] true) more
      else if place.isQuoted then go (.text [c] true) rest
      else if c = '\'' then
        let inner := rest.takeWhile (· != '\'')
        match rest.drop inner.length with
        | _ :: after => go (.text inner true) after
        | [] => none
      else if c = '"' then
        match pieces list count .quotes rest with
        | some (inner, '"' :: after) =>
          (pieces list count place after).map fun (more, after) =>
            (.text [] true :: inner ++ more, after)
        | _ => none
      else go (.text [c] false) rest

/-- A word. -/
def word (list : Reader (List Statement)) : Reader Word := fun cs => pieces list (cs.length + 1) .plain cs

/-! ## Redirections and simple statements -/

/-- The lines before one that is `ending`, and what follows it; at most so many lines. -/
def linesUpTo (ending : List Char) (dropsTabs : Bool) : Nat → List Char → List Char × List Char
  | 0, cs => ([], cs)
  | _, [] => ([], [])
  | lines + 1, cs =>
    let whole := cs.takeWhile (· != '\n')
    let after := cs.drop (whole.length + 1)
    let line := if dropsTabs then whole.dropWhile (· = '\t') else whole
    if line = ending then ([], after)
    else
      let (more, rest) := linesUpTo ending dropsTabs lines after
      (line ++ '\n' :: more, rest)

/-- The characters of plain pieces, and whether some are quoted. -/
def plainText (ps : List Piece) : List Char × Bool :=
  ps.foldl (fun (text, quoted) p =>
    match p with
    | .text cs q => (text ++ cs, quoted || q)
    | _ => (text, quoted)) ([], false)

/-- Input that stands in the script, after its sign: the lines that follow the present one, up to a
    line that is the word after the sign.  They are taken as they are if that word is quoted. -/
def inputHere (list : Reader (List Statement)) : Reader (List Piece) := fun cs => do
  let dropsTabs := cs.head? = some '-'
  let (mark, rest) ← word list (skipBlanks (if dropsTabs then cs.drop 1 else cs))
  let (ending, isRaw) := plainText mark
  let present := rest.takeWhile (· != '\n')
  let (text, after) := linesUpTo ending dropsTabs rest.length (rest.drop (present.length + 1))
  let content ←
    if isRaw then some [Piece.text text true]
    else (pieces list (text.length + 1) .whole text).map (·.1)
  some (content, present ++ '\n' :: after)

/-- A redirection at the start of `cs`. -/
def redirection (list : Reader (List Statement)) (cs : List Char) : Option (Redirection × List Char) :=
  let digits := cs.takeWhile Char.isDigit
  let descriptor (usual : Nat) := (String.ofList digits).toNat?.getD usual
  let read (kind : RedirectionKind) (usual : Nat) (rest : List Char) : Option (Redirection × List Char) := do
    let (target, rest) ← word list (skipBlanks rest)
    if target.isEmpty then none else some (.mk (descriptor usual) kind target, rest)
  match cs.drop digits.length with
  | '>' :: '>' :: rest => read .append 1 rest
  | '>' :: '&' :: rest => read .duplicate 1 rest
  | '>' :: '|' :: rest => read .output 1 rest
  | '>' :: rest => read .output 1 rest
  | '<' :: '&' :: rest => read .duplicate 0 rest
  | '<' :: '<' :: rest =>
    (inputHere list rest).map fun (content, rest) => (.mk (descriptor 0) .here content, rest)
  | '<' :: rest => read .input 0 rest
  | _ => none

/-- Redirections, at most so many. -/
def redirections (list : Reader (List Statement)) : Nat → List Char → List Redirection × List Char
  | 0, cs => ([], cs)
  | count + 1, cs =>
    match redirection list (skipBlanks cs) with
    | some (r, rest) =>
      let (more, after) := redirections list count rest
      (r :: more, after)
    | none => ([], cs)

/-- The name and the value of an assignment. -/
def assignment? (list : Reader (List Statement)) (cs : List Char) :
    Option ((String × Word) × List Char) := do
  let name := cs.takeWhile isNameChar
  match cs.drop name.length with
  | '=' :: rest =>
    if isName name then do
      let (value, rest) ← word list rest
      some ((String.ofList name, value), rest)
    else none
  | _ => none

/-- The parts of a simple statement. -/
structure SimpleParts where
  assignments : List (String × Word) := []
  words : List Word := []
  redirections : List Redirection := []

/-- The parts of a simple statement, after those read already; at most `count` more. -/
def simpleParts (list : Reader (List Statement)) (parts : SimpleParts) : Nat → Reader SimpleParts
  | 0, _ => none
  | count + 1, cs =>
    let cs := skipBlanks cs
    match redirection list cs with
    | some (r, rest) =>
      simpleParts list { parts with redirections := parts.redirections ++ [r] } count rest
    | none =>
      match if parts.words.isEmpty then assignment? list cs else none with
      | some (a, rest) =>
        simpleParts list { parts with assignments := parts.assignments ++ [a] } count rest
      | none =>
        match cs.head? with
        | none => some (parts, cs)
        | some c =>
          if isMeta c then some (parts, cs)
          else do
            let (w, rest) ← word list cs
            simpleParts list { parts with words := parts.words ++ [w] } count rest

/-! ## Statements in words -/

/-- The branches of an `if` after its first word; at most so many. -/
def branches (list : Reader (List Statement)) : Nat → Reader Statement
  | 0, _ => none
  | count + 1, cs => do
    let (condition, rest) ← list cs
    let (yes, rest) ← list (← expect "then" rest)
    match expect "elif" rest with
    | some rest =>
      let (no, rest) ← branches list count rest
      some (.branch condition yes [no], rest)
    | none =>
      match expect "else" rest with
      | some rest =>
        let (no, rest) ← list rest
        some (.branch condition yes no, ← expect "fi" rest)
      | none => some (.branch condition yes [], ← expect "fi" rest)

/-- The body of a loop. -/
def loopBody (list : Reader (List Statement)) : Reader (List Statement) := fun cs => do
  let (body, rest) ← list (← expect "do" cs)
  some (body, ← expect "done" rest)

/-- Words up to the end of a statement, at most so many. -/
def words (list : Reader (List Statement)) : Nat → Reader (List Word)
  | 0, _ => none
  | count + 1, cs =>
    let cs := skipBlanks cs
    match cs.head? with
    | none => some ([], cs)
    | some c =>
      if isMeta c then some ([], cs)
      else do
        let (w, rest) ← word list cs
        let (more, rest) ← words list count rest
        some (w :: more, rest)

/-- `cs` without one semicolon. -/
def skipSemicolon (cs : List Char) : List Char :=
  match skipBlanks cs with
  | ';' :: rest => rest
  | other => other

/-- A `for` loop after its first word. -/
def forLoop (list : Reader (List Statement)) : Reader Statement := fun cs => do
  let (name, rest) := plainWord (skipBlanks cs)
  if !isName name then none
  else
    match expect "in" rest with
    | some rest =>
      let (items, rest) ← words list (rest.length + 1) rest
      let (body, rest) ← loopBody list (skipSemicolon rest)
      some (.each (String.ofList name) (some items) body, rest)
    | none =>
      let (body, rest) ← loopBody list (skipSemicolon rest)
      some (.each (String.ofList name) none body, rest)

/-- The patterns of a case, with bars between them; at most so many. -/
def casePatterns (list : Reader (List Statement)) : Nat → Reader (List Word)
  | 0, _ => none
  | count + 1, cs => do
    let (w, rest) ← word list (skipBlanks cs)
    match skipBlanks rest with
    | '|' :: rest =>
      let (more, rest) ← casePatterns list count rest
      some (w :: more, rest)
    | ')' :: rest => some ([w], rest)
    | _ => none

/-- The cases of a `case`, at most so many. -/
def cases (list : Reader (List Statement)) : Nat → Reader (List (List Word × List Statement))
  | 0, _ => none
  | count + 1, cs =>
    match expect "esac" cs with
    | some rest => some ([], rest)
    | none => do
      let cs := skipAll cs
      let (patterns, rest) ← casePatterns list count (if cs.head? = some '(' then cs.drop 1 else cs)
      let (body, rest) ← list rest
      let rest :=
        match skipAll rest with
        | ';' :: ';' :: rest => rest
        | other => other
      let (more, rest) ← cases list count rest
      some ((patterns, body) :: more, rest)

/-- The empty parentheses of a definition. -/
def emptyParentheses (cs : List Char) : Option (List Char) :=
  match skipBlanks cs with
  | '(' :: rest =>
    match skipBlanks rest with
    | ')' :: rest => some rest
    | _ => none
  | _ => none

/-- A statement that is closed by a word or a parenthesis. -/
def compound (list : Reader (List Statement)) (cs : List Char) : Option (Statement × List Char) :=
  let starting (w : String) (read : Reader Statement) : Option (Statement × List Char) :=
    (keyword? w cs).bind read
  match cs with
  | '(' :: rest =>
    match list rest with
    | some (body, ')' :: rest) => some (.group true body [], rest)
    | _ => none
  | _ =>
    (starting "\x7b" fun rest => do
      let (body, rest) ← list rest
      some (.group false body [], ← expect "\x7d" rest)).or <|
    (starting "if" fun rest => branches list rest.length rest).or <|
    (starting "while" fun rest => do
      let (condition, rest) ← list rest
      let (body, rest) ← loopBody list rest
      some (.loop false condition body, rest)).or <|
    (starting "until" fun rest => do
      let (condition, rest) ← list rest
      let (body, rest) ← loopBody list rest
      some (.loop true condition body, rest)).or <|
    (starting "for" (forLoop list)).or <|
    starting "case" fun rest => do
      let (w, rest) ← word list (skipBlanks rest)
      let rest ← expect "in" rest
      let (all, rest) ← cases list rest.length rest
      some (.choice w all, rest)

/-- A statement without bars and conjunctions; `lines` is the number of lines of the script. -/
def statement (lines : Nat) (list : Reader (List Statement)) : Reader Statement := fun cs =>
  let cs := skipBlanks cs
  match compound list cs with
  | some (s, rest) =>
    let (all, rest) := redirections list rest.length rest
    some (if all.isEmpty then s else .group false [s] all, rest)
  | none => do
    let (name, after) := plainWord cs
    match if isName name then emptyParentheses after else none with
    | some rest =>
      let (body, rest) ← compound list (skipAll rest)
      some (.define (String.ofList name) body, rest)
    | none =>
      let (parts, rest) ← simpleParts list {} (cs.length + 1) cs
      if rest.length = cs.length then none
      else
        let line := lines - (cs.filter (· = '\n')).length
        some (.simple line parts.assignments parts.words parts.redirections, rest)

/-! ## Lists -/

/-- Statements with bars between them, the output of each being the input of the next. -/
def pipeline (lines : Nat) (list : Reader (List Statement)) : Nat → Reader Statement
  | 0, _ => none
  | count + 1, cs => do
    let (first, rest) ← statement lines list cs
    match skipBlanks rest with
    | '|' :: '|' :: _ => some (first, rest)
    | '|' :: rest =>
      let (second, rest) ← pipeline lines list count (skipAll rest)
      some (.pipe first second, rest)
    | _ => some (first, rest)

/-- A pipeline, maybe with its outcome turned round. -/
def negatedPipeline (lines : Nat) (list : Reader (List Statement)) : Reader Statement := fun cs =>
  match keyword? "!" (skipBlanks cs) with
  | some rest => (pipeline lines list (rest.length + 1) rest).map fun (s, rest) => (.negated s, rest)
  | none => pipeline lines list (cs.length + 1) cs

/-- The statements that hang on `first` by its outcome, at most so many. -/
def chained (lines : Nat) (list : Reader (List Statement)) (first : Statement) : Nat → Reader Statement
  | 0, _ => none
  | count + 1, cs =>
    match skipBlanks cs with
    | '&' :: '&' :: rest => do
      let (second, rest) ← negatedPipeline lines list (skipAll rest)
      chained lines list (.both first second) count rest
    | '|' :: '|' :: rest => do
      let (second, rest) ← negatedPipeline lines list (skipAll rest)
      chained lines list (.either first second) count rest
    | other => some (first, other)

/-- The statements of a list, at most so many. -/
def listItems (lines : Nat) (list : Reader (List Statement)) : Nat → Reader (List Statement)
  | 0, _ => none
  | count + 1, cs =>
    let cs := skipAll cs
    if atListEnd cs then some ([], cs)
    else do
      let (first, rest) ← negatedPipeline lines list cs
      let (s, rest) ← chained lines list first (rest.length + 1) rest
      match skipBlanks rest with
      | ';' :: ';' :: _ => some ([s], rest)
      | ';' :: rest =>
        let (more, rest) ← listItems lines list count rest
        some (s :: more, rest)
      | '&' :: rest =>
        let (more, rest) ← listItems lines list count rest
        some (.background s :: more, rest)
      | '\n' :: rest =>
        let (more, rest) ← listItems lines list count rest
        some (s :: more, rest)
      | other => if atListEnd other then some ([s], other) else none

/-- A list of statements that lie in each other at most so deep. -/
def list (lines : Nat) : Nat → Reader (List Statement)
  | 0 => fun _ => none
  | depth + 1 => fun cs => listItems lines (list lines depth) (cs.length + 1) cs

/-- The statements of a script. -/
def parse? (script : String) : Option (List Statement) :=
  let cs := script.toList
  match list ((cs.filter (· = '\n')).length + 1) 64 cs with
  | some (body, []) => some body
  | _ => none

end Wheelwright.Shell
