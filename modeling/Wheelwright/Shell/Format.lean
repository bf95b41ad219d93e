/-
  Formats — what `echo` and `printf` write.

  **Escapes** — a backslash with a letter stands for a control character, and with up to three octal
  digits for an octet.  Where a zero may stand before the digits it does not count as one of them.

  **Formats** — a format is copied; each directive in it takes an argument, or an empty one when
  there are no more.  It is used again as long as arguments are left and one was taken.
-/
import Wheelwright.Shell.Sum

namespace Wheelwright.Shell.Format

def isOctal (c : Char) : Bool := '0' ≤ c && c ≤ '7'

/-- The octet of octal digits. -/
def octetOf (digits : List Char) : Char :=
  Char.ofNat (digits.foldl (fun n c => 8 * n + (c.toNat - '0'.toNat)) 0 % 256)

/-- The control character that a letter stands for after a backslash. -/
def control? (c : Char) : Option Char :=
  ([('a', 7), ('b', 8), ('f', 12), ('n', 10), ('r', 13), ('t', 9), ('v', 11), ('\\', 92)].lookup c).map
    Char.ofNat

/-- What an escape stands for, after the backslash, and what follows it. -/
def escape (cs : List Char) : Char × List Char :=
  match cs with
  | [] => ('\\', [])
  | c :: rest =>
    if isOctal c then
      let digits := (cs.take 3).takeWhile isOctal
      (octetOf digits, cs.drop digits.length)
    else
      match control? c with
      | some d => (d, rest)
      | none => ('\\', cs)

/-- A text with its escapes replaced, and whether it says that nothing more is to be written; at
    most so many steps are taken. -/
def unescaped : Nat → List Char → List Char × Bool
  | 0, _ => ([], false)
  | _, [] => ([], false)
  | steps + 1, '\\' :: cs =>
    if cs.head? = some 'c' then ([], true)
    else
      let cs := if cs.head? = some '0' && (cs.drop 1).head?.any isOctal then cs.drop 1 else cs
      let (c, rest) := escape cs
      let (more, stops) := unescaped steps rest
      (c :: more, stops)
  | steps + 1, c :: rest =>
    let (more, stops) := unescaped steps rest
    (c :: more, stops)

/-- What a shell's own `echo` writes. -/
def echo (arguments : List String) : String :=
  let endsLine := arguments.head? != some "-n"
  let text := (" ".intercalate (if endsLine then arguments else arguments.tail)).toList
  let (text, stops) := unescaped (text.length + 1) text
  String.ofList (text ++ if stops || !endsLine then [] else ['\n'])

/-- An argument of the program `echo` that consists of its options. -/
def isEchoOption (a : String) : Bool :=
  match a.toList with
  | '-' :: letters => !letters.isEmpty && letters.all fun c => c = 'n' || c = 'e' || c = 'E'
  | _ => false

/-- What the program `echo` writes. -/
def echoProgram (arguments : List String) : String :=
  let letters := (arguments.takeWhile isEchoOption).flatMap String.toList
  let text := (" ".intercalate (arguments.dropWhile isEchoOption)).toList
  let escapes := (letters.reverse.find? fun c => c = 'e' || c = 'E') = some 'e'
  let (text, stops) := if escapes then unescaped (text.length + 1) text else (text, false)
  String.ofList (text ++ if stops || letters.contains 'n' then [] else ['\n'])

/-! ## Directives -/

/-- How a directive sets what it writes. -/
structure Setting where
  toLeft : Bool := false
  zeros : Bool := false
  plus : Bool := false
  space : Bool := false
  marked : Bool := false
  width : Nat := 0
  precision : Option Nat := none

/-- A text brought to its width. -/
def Setting.pad (s : Setting) (text : List Char) : List Char :=
  let blanks := List.replicate (s.width - text.length) ' '
  if s.toLeft then text ++ blanks else blanks ++ text

/-- A number with its sign, brought to its width. -/
def Setting.padNumber (s : Setting) (sign digits : List Char) : List Char :=
  let digits := List.replicate (s.precision.getD 1 - digits.length) '0' ++ digits
  if s.zeros && !s.toLeft && s.precision.isNone then
    sign ++ List.replicate (s.width - sign.length - digits.length) '0' ++ digits
  else s.pad (sign ++ digits)

/-- The flags at the start of a directive. -/
def flags (s : Setting) : List Char → Setting × List Char
  | '-' :: rest => flags { s with toLeft := true } rest
  | '0' :: rest => flags { s with zeros := true } rest
  | '+' :: rest => flags { s with plus := true } rest
  | ' ' :: rest => flags { s with space := true } rest
  | '#' :: rest => flags { s with marked := true } rest
  | rest => (s, rest)

/-- The number that an argument spells, and whether it spells one. -/
def numberOf (a : String) : Int × Bool :=
  match a.toList with
  | '\'' :: c :: _ | '"' :: c :: _ => (c.toNat, true)
  | cs =>
    match Sum.number? a with
    | some n => (n, true)
    | none => (((Sum.number? (String.ofList (cs.takeWhile Char.isDigit))).getD 0), false)

/-- A format part way: what is written, the last character first, the arguments left, and those that
    were no numbers. -/
structure Printing where
  written : List Char := []
  arguments : List String
  refused : List String := []
  stops : Bool := false

namespace Printing

def put (p : Printing) (text : List Char) : Printing := { p with written := text.reverse ++ p.written }

def next (p : Printing) : String × Printing :=
  (p.arguments.headD "", { p with arguments := p.arguments.tail })

def nextNumber (p : Printing) : Int × Printing :=
  let (a, p) := p.next
  let (n, isNumber) := numberOf a
  (n, if isNumber then p else { p with refused := p.refused ++ [a] })

/-- A width or precision: digits, or an argument in their place. -/
def count (p : Printing) (cs : List Char) : Int × Printing × List Char :=
  match cs with
  | '*' :: rest =>
    let (n, p) := p.nextNumber
    (n, p, rest)
  | _ =>
    let digits := cs.takeWhile Char.isDigit
    (((String.ofList digits).toNat?.getD 0 : Nat), p, cs.drop digits.length)

/-- Writes the next argument as a letter says; nothing if there is no such letter. -/
def convert (p : Printing) (s : Setting) (letter : Char) : Option Printing :=
  let cut (text : List Char) : List Char := s.pad (text.take (s.precision.getD text.length))
  match letter with
  | 's' =>
    let (a, p) := p.next
    some (p.put (cut a.toList))
  | 'b' =>
    let (a, p) := p.next
    let (text, stops) := unescaped (a.length + 1) a.toList
    some { p.put (cut text) with stops }
  | 'c' =>
    let (a, p) := p.next
    some (p.put (s.pad (a.toList.take 1)))
  | 'd' | 'i' =>
    let (n, p) := p.nextNumber
    let sign := if n < 0 then ['-'] else if s.plus then ['+'] else if s.space then [' '] else []
    some (p.put (s.padNumber sign (Nat.toDigits 10 n.natAbs)))
  | 'u' | 'o' | 'x' | 'X' =>
    let (n, p) := p.nextNumber
    let base := if letter = 'u' then 10 else if letter = 'o' then 8 else 16
    let digits := Nat.toDigits base (n % Nat.pow 2 64).toNat
    let digits := if letter = 'X' then digits.map Char.toUpper else digits
    let sign :=
      if !s.marked || n = 0 || letter = 'u' then [] else if letter = 'o' then ['0'] else ['0', letter]
    some (p.put (s.padNumber sign digits))
  | _ => none

/-- A directive after its sign, and what follows it; nothing if it is none. -/
def directive (p : Printing) (cs : List Char) : Option (Printing × List Char) :=
  if cs.head? = some '%' then some (p.put ['%'], cs.tail)
  else do
    let (s, cs) := flags {} cs
    let (width, p, cs) := p.count cs
    let (precision, p, cs) :=
      match cs with
      | '.' :: rest =>
        let (n, p, rest) := p.count rest
        (some n.toNat, p, rest)
      | _ => (none, p, cs)
    let s := { s with toLeft := s.toLeft || width < 0, width := width.natAbs, precision }
    match cs with
    | letter :: rest => some (← p.convert s letter, rest)
    | [] => none

/-- Goes through a format once, in at most so many steps. -/
def once (p : Printing) : Nat → List Char → Printing
  | 0, _ => p
  | _, [] => p
  | steps + 1, c :: rest =>
    if p.stops then p
    else if c = '\\' then
      if rest.head? = some 'c' then { p with stops := true }
      else
        let (d, rest) := escape rest
        once (p.put [d]) steps rest
    else if c = '%' then
      match p.directive rest with
      | some (p, rest) => once p steps rest
      | none => { p with stops := true, refused := p.refused ++ [String.ofList (c :: rest)] }
    else once (p.put [c]) steps rest

/-- Goes through a format as long as it takes arguments and some are left, at most so many times. -/
def again (format : List Char) : Nat → Printing → Printing
  | 0, p => p
  | rounds + 1, p =>
    let q := p.once (format.length + 1) format
    if q.stops || q.arguments.isEmpty || q.arguments.length = p.arguments.length then q
    else again format rounds q

end Printing

/-- What `printf` writes, and the arguments that were no numbers. -/
def printf (format : String) (arguments : List String) : String × List String :=
  let p := Printing.again format.toList (arguments.length + 1) { arguments }
  (String.ofList p.written.reverse, p.refused)

end Wheelwright.Shell.Format
