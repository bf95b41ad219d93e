/-
  Reading TOML.

  **Program** — a document is a sequence of lines: a header, a doubled header, an assignment, or
  nothing but a comment.  Assignments go into the table of the last header.

  Arrays and inline tables nest less than 80 deep, and a dotted key has less than 80 parts.
-/
import Wheelwright.Toml.Scalar

namespace Wheelwright.Toml

/-- Nesting that is too deep. -/
def depthLimit : Nat := 80

/-! ## Keys -/

/-- A character of a bare key. -/
def isKeyChar (c : Char) : Bool := c.isAlphanum || c = '-' || c = '_'

/-- One part of a key. -/
def simpleKey? (cs : List Char) : Option (String × List Char) :=
  match cs with
  | [] => none
  | c :: _ =>
    if c = '"' || c = '\'' then lineText? cs
    else
      let key := cs.takeWhile isKeyChar
      if key.isEmpty then none else some (String.ofList key, cs.dropWhile isKeyChar)

/-- The parts of a key, `count` of them at most. -/
def keyParts? : Nat → List Char → Option (List String × List Char)
  | 0, _ => none
  | count + 1, cs => do
    let (key, rest) ← simpleKey? (skipSpace cs)
    match skipSpace rest with
    | '.' :: more =>
      let (keys, after) ← keyParts? count more
      some (key :: keys, after)
    | after => some ([key], after)

/-- A key: the parts on the way, and the last part. -/
def key? (cs : List Char) : Option ((List String × String) × List Char) := do
  let (keys, rest) ← keyParts? (depthLimit - 1) cs
  let last ← keys.getLast?
  some ((keys.dropLast, last), rest)

/-! ## Values

  Arrays and inline tables may be nested up to a limit.  All recursion goes by that limit or by a number of parts. -/

/-- The items of an array up to its closing bracket, `count` of them at most. -/
def arrayItems? (value : List Char → Option (Value × List Char)) :
    Nat → List Char → Option (List Value × List Char)
  | 0, _ => none
  | count + 1, cs =>
    match skipAll cs with
    | ']' :: rest => some ([], rest)
    | cs => do
      let (v, rest) ← value cs
      match skipAll rest with
      | ',' :: more =>
        let (items, after) ← arrayItems? value count more
        some (v :: items, after)
      | ']' :: after => some ([v], after)
      | _ => none

/-- A key, an equals sign and a value, with blanks around them. -/
def assignment? (value : List Char → Option (Value × List Char)) (cs : List Char) :
    Option ((List String × String × Value) × List Char) := do
  let ((path, key), rest) ← key? cs
  match rest with
  | '=' :: more =>
    let (v, after) ← value (skipSpace more)
    some ((path, key, v), after)
  | _ => none

/-- The assignments of an inline table up to its closing brace, `count` of them at most. -/
def inlineEntries? (value : List Char → Option (Value × List Char)) :
    Nat → List Char → Option ((List (List String × String × Value)) × List Char)
  | 0, _ => none
  | count + 1, cs => do
    let (entry, rest) ← assignment? value cs
    match skipSpace rest with
    | ',' :: more =>
      let (entries, after) ← inlineEntries? value count more
      some (entry :: entries, after)
    | '}' :: after => some ([entry], after)
    | _ => none

/-- A value, with less than `depth` containers around a scalar. -/
def value? : Nat → List Char → Option (Value × List Char)
  | 0, _ => none
  | depth + 1, cs =>
    match cs with
    | '[' :: rest =>
      if depth = 0 then none
      else (arrayItems? (value? depth) (rest.length + 1) rest).map fun (items, after) => (.array items, after)
    | '{' :: rest =>
      if depth = 0 then none
      else
        match skipSpace rest with
        | '}' :: after => some (.table .whole [], after)
        | _ => do
          let (entries, after) ← inlineEntries? (value? depth) (rest.length + 1) rest
          let t ← Table.ofAssignments entries ⟨.header, []⟩
          some (t.toValue, after)
    | c :: _ =>
      if c = '"' || c = '\'' then (text? cs).map fun (s, rest) => (.string s, rest) else scalar? cs
    | [] => none

/-! ## Documents

  Headers, assignments and blank lines.  An assignment goes to the table of the last header. -/

/-- A document under construction, and the path of the last header. -/
structure Draft where
  root : Table
  current : List String

/-- The header of a table up to the end of its line. -/
def header? (d : Draft) (cs : List Char) : Option (Draft × List Char) := do
  let ((path, key), rest) ← key? cs
  let rest ← mark? ']' rest
  let after ← restOfLine? rest
  let root ← Table.openTable path key d.root
  some (⟨root, path ++ [key]⟩, after)

/-- A doubled header up to the end of its line. -/
def nextHeader? (d : Draft) (cs : List Char) : Option (Draft × List Char) := do
  let ((path, key), rest) ← key? cs
  let rest ← mark? ']' rest
  let rest ← mark? ']' rest
  let after ← restOfLine? rest
  let root ← Table.openNext path key d.root
  some (⟨root, path ++ [key]⟩, after)

/-- An assignment up to the end of its line. -/
def line? (d : Draft) (cs : List Char) : Option (Draft × List Char) := do
  let ((path, key, v), rest) ← assignment? (value? depthLimit) cs
  let after ← restOfLine? rest
  let root ← Table.modify false (Table.assign path key v) d.current d.root
  some (⟨root, d.current⟩, after)

/-- The lines of a document, `count` of them at most. -/
def lines? : Nat → Draft → List Char → Option Draft
  | 0, _, _ => none
  | count + 1, d, cs =>
    match skipSpace cs with
    | [] => some d
    | '#' :: rest =>
      match restOfLine? ('#' :: rest) with
      | some after => lines? count d after
      | none => none
    | '[' :: '[' :: rest =>
      match nextHeader? d rest with
      | some (d, after) => lines? count d after
      | none => none
    | '[' :: rest =>
      match header? d rest with
      | some (d, after) => lines? count d after
      | none => none
    | cs =>
      match lineEnd? cs with
      | some after => lines? count d after
      | none =>
        match line? d cs with
        | some (d, after) => lines? count d after
        | none => none

/-- The table that a text writes; a byte order mark in front is skipped. -/
def parse? (text : String) : Option Entries :=
  let cs := text.toList
  let cs :=
    match cs with
    | c :: rest => if c.toNat = 0xFEFF then rest else cs
    | [] => cs
  (lines? (cs.length + 2) ⟨⟨.header, []⟩, []⟩ cs).map fun d => d.root.entries

end Wheelwright.Toml
