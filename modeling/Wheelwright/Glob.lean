/-
  Globs — patterns of paths.

  **Program** — a glob is cut into tokens, and the tokens become a regular expression over the bytes
  of a path.  `?` and `*` stay within a name; `**` as a whole name goes over any number of
  directories; `[…]` is one byte of a class, `\x7b…\x7d` one of several globs, and a backslash takes
  the next character as it is.

  **Refused** — a class or a group that is not closed, a group that is not opened, a range whose end
  comes before its start, and a backslash at the end.  Where asked for, an open class is taken as
  text instead.
-/
import Wheelwright.Text.Regex
import Wheelwright.Text.Utf8

namespace Wheelwright

namespace Glob

/-- A part of a glob. -/
inductive Token where
  | literal (c : Char)
  /-- One byte of a name. -/
  | any
  /-- Any part of a name. -/
  | zeroOrMore
  /-- Any directories, or none, at the start. -/
  | recursiveStart
  /-- Everything below. -/
  | recursiveEnd
  /-- Any directories, or none, between two names. -/
  | recursiveMiddle
  | charClass (negated : Bool) (ranges : List (Char × Char))
  | group (branches : List (List Token))

/-- Why a text is no glob. -/
inductive Error where
  | unclosedClass
  | invalidRange (first last : Char)
  | unopenedGroup
  | unclosedGroup
  | danglingEscape
  deriving DecidableEq

def Error.message : Error → String
  | .unclosedClass => "unclosed character class; missing ']'"
  | .invalidRange first last =>
    "invalid range; '" ++ first.toString ++ "' > '" ++ last.toString ++ "'"
  | .unopenedGroup =>
    "unopened alternate group; missing '\x7b' (maybe escape '\x7d' with '[\x7d]'?)"
  | .unclosedGroup =>
    "unclosed alternate group; missing '\x7d' (maybe escape '\x7b' with '[\x7b]'?)"
  | .danglingEscape => "dangling '\\'"

/-! ## Classes

  A class is read to its closing bracket.  A dash stands for itself where no range can be meant. -/

/-- A class part way through. -/
structure ClassDraft where
  /-- The last range comes first. -/
  ranges : List (Char × Char) := []
  /-- A dash after a character may start the rest of a range. -/
  inRange : Bool := false
  isFirst : Bool := true

/-- The last range with another end. -/
def ClassDraft.extend (d : ClassDraft) (c : Char) : Except Error ClassDraft :=
  match d.ranges with
  | [] => .ok { d with ranges := [(c, c)], inRange := false, isFirst := false }
  | (low, _) :: rest =>
    if c < low then .error (.invalidRange low c)
    else .ok ⟨(low, c) :: rest, false, false⟩

/-- One more character of a class. -/
def ClassDraft.add (d : ClassDraft) (c : Char) : Except Error ClassDraft :=
  if d.inRange then d.extend c
  else if c = '-' && !d.isFirst then .ok { d with inRange := true }
  else .ok ⟨(c, c) :: d.ranges, false, false⟩

/-- The ranges of a class, in order; a dash at the end stands for itself. -/
def ClassDraft.close (d : ClassDraft) : List (Char × Char) :=
  (if d.inRange then ('-', '-') :: d.ranges else d.ranges).reverse

/-- The ranges of a class up to its closing bracket, and what follows. -/
def classRanges? : ClassDraft → List Char → Except Error (Option (List (Char × Char) × List Char))
  | _, [] => .ok none
  | d, c :: rest =>
    if c = ']' && !d.isFirst then .ok (some (d.close, rest))
    else do classRanges? (← d.add c) rest

/-! ## Tokens

  Two stars are more than two times one star: between slashes, or at an end of the glob, they go over directories. -/

/-- The branch of a group that is being read, and the groups around it. -/
structure Draft where
  /-- The tokens of the branch, the last one first. -/
  branch : List Token := []
  /-- Of every open group: the branches read before, the last one first, and the tokens that came
      before the group, the last one first. -/
  outer : List (List (List Token) × List Token) := []
  /-- The character read before. -/
  previous : Option Char := none

/-- The draft with one more token. -/
def Draft.push (d : Draft) (token : Token) : Draft := { d with branch := token :: d.branch }

/-- How many branches of open groups have been read or are being read, the glob itself included. -/
def Draft.branchCount (d : Draft) : Nat := d.outer.foldr (fun g n => g.1.length + 1 + n) 0 + 1

/-- Closes the last open group. -/
def Draft.closeGroup (d : Draft) : Except Error Draft :=
  match d.outer with
  | [] => .error .unopenedGroup
  | (branches, before) :: outer =>
    .ok { d with branch := .group (d.branch.reverse :: branches).reverse :: before, outer }

/-- Starts the next branch of the last open group; outside of groups a comma is a comma. -/
def Draft.nextBranch (d : Draft) : Draft :=
  match d.outer with
  | [] => d.push (.literal ',')
  | (branches, before) :: outer =>
    { d with branch := [], outer := (d.branch.reverse :: branches, before) :: outer }

/-- The last token replaced by one that goes over directories, unless it is one already. -/
def Draft.recur (d : Draft) (token : Token) : Draft :=
  match d.branch with
  | .recursiveStart :: _ => d
  | .recursiveEnd :: _ => d
  | _ :: before => { d with branch := token :: before }
  | [] => { d with branch := [token] }

/-- Two stars, `rest` being what follows them: the draft after them, and what follows. -/
def Draft.doubleStar (d : Draft) (before : Option Char) (rest : List Char) : Draft × List Char :=
  let asStars := ((d.push .zeroOrMore).push .zeroOrMore, rest)
  if d.branch.isEmpty then
    match rest with
    | [] => (d.push .recursiveStart, [])
    | '/' :: after => ({ d.push .recursiveStart with previous := some '/' }, after)
    | _ => asStars
  else if before != some '/' &&
      (d.branchCount ≤ 1 || (before != some ',' && before != some '\x7b')) then asStars
  else
    match rest with
    | [] => (d.recur .recursiveEnd, [])
    | '/' :: after => ({ d.recur .recursiveMiddle with previous := some '/' }, after)
    | c :: _ =>
      if (c = ',' || c = '\x7d') && 2 ≤ d.branchCount then (d.recur .recursiveEnd, rest)
      else asStars

/-- Reads tokens, in at most `steps` steps.  With `openClass`, a class that is not closed is text,
    and so are all brackets after it. -/
def tokens? (openClass : Bool) : Nat → Bool → Draft → List Char → Except Error Draft
  | 0, _, d, _ => .ok d
  | _ + 1, _, d, [] => .ok d
  | steps + 1, classes, d, c :: rest =>
    let before := d.previous
    let d := { d with previous := some c }
    let go := tokens? openClass steps classes
    if c = '?' then go (d.push .any) rest
    else if c = '*' then
      match rest with
      | '*' :: more =>
        let (d, rest) := d.doubleStar before more
        go d rest
      | _ => go (d.push .zeroOrMore) rest
    else if c = '[' && classes then
      let (negated, inner) :=
        match rest with
        | '!' :: more => (true, more)
        | '^' :: more => (true, more)
        | _ => (false, rest)
      match classRanges? {} inner with
      | .error e => .error e
      | .ok (some (ranges, rest)) => go ({ d with previous := some ']' }.push (.charClass negated ranges)) rest
      | .ok none =>
        if openClass then tokens? openClass steps false (d.push (.literal '[')) rest
        else .error .unclosedClass
    else if c = '\x7b' then go { d with branch := [], outer := ([], d.branch) :: d.outer } rest
    else if c = '\x7d' then
      match d.closeGroup with
      | .error e => .error e
      | .ok d => go d rest
    else if c = ',' then go d.nextBranch rest
    else if c = '\\' then
      match rest with
      | [] => .error .danglingEscape
      | e :: rest => go ({ d with previous := some e }.push (.literal e)) rest
    else go (d.push (.literal c)) rest

/-! ## Regular expressions

  Globs are matched on bytes, so characters beyond ASCII are sequences of them. -/

/-- The byte between names. -/
def slash : UInt8 := 47

def anyByte : Regex := .byte .all

def anyBytes : Regex := .star anyByte

def isSlash : Regex := .byte (.one slash)

def nameByte : Regex := .byte (.allBut slash)

/-- The byte ranges of a range of characters: bytes of longer characters stand on their own. -/
def byteRanges (r : Char × Char) : List (UInt8 × UInt8) :=
  let single (b : UInt8) := (b, b)
  let low := String.utf8EncodeChar r.1
  if r.1 = r.2 then low.map single
  else
    let high := String.utf8EncodeChar r.2
    low.dropLast.map single ++ [(low.getLastD 0, high.headD 0)] ++ (high.drop 1).map single

mutual

/-- The expression of a token; a group without any text in it leaves none. -/
def Token.regex? : Token → Option Regex
  | .literal c => some (.bytes (String.utf8EncodeChar c))
  | .any => some nameByte
  | .zeroOrMore => some (.star nameByte)
  | .recursiveStart => some (.alt (.alt isSlash .empty) (.seq anyBytes isSlash))
  | .recursiveEnd => some (.seq isSlash anyBytes)
  | .recursiveMiddle => some (.alt isSlash (.seq isSlash (.seq anyBytes isSlash)))
  | .charClass negated ranges => some (.byte ⟨negated, ranges.flatMap byteRanges⟩)
  | .group branches =>
    match branchRegexes branches with
    | [] => none
    | r :: rest => some (.oneOf r rest)

/-- The expressions of the branches that have any. -/
def branchRegexes : List (List Token) → List Regex
  | [] => []
  | branch :: rest =>
    match tokenRegexes branch with
    | [] => branchRegexes rest
    | parts => .sequence parts :: branchRegexes rest

/-- The expressions of tokens. -/
def tokenRegexes : List Token → List Regex
  | [] => []
  | token :: rest => token.regex?.toList ++ tokenRegexes rest

end

/-- The expression of a whole glob; `**` alone stands for every path. -/
def regexOf : List Token → Regex
  | [.recursiveStart] => anyBytes
  | tokens => .sequence (tokenRegexes tokens)

/-- The expression that a glob stands for. -/
def compile (openClass : Bool) (glob : String) : Except Error Regex :=
  let cs := glob.toList
  match tokens? openClass (cs.length + 1) true {} cs with
  | .error e => .error e
  | .ok d => if d.outer.isEmpty then .ok (regexOf d.branch.reverse) else .error .unclosedGroup

end Glob

end Wheelwright
