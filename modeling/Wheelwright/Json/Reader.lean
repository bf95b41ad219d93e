/-
  Reading JSON.

  **Machine** — the tokens are taken one at a time.  Containers that are still open wait on a stack
  with what they hold so far; `Expect` says what may come next.  A value that is complete goes into
  the container on top of the stack, or is the answer when there is none.

  Nesting is bounded by nothing but the text.
-/
import Wheelwright.Json.Lexer

namespace Wheelwright.Json

/-- An open container; lists hold what was read, the last first. -/
inductive Frame where
  | array (items : List Json)
  /-- An object; `readable` tells that all its names have been texts. -/
  | object (fields : List (String × Json)) (readable : Bool)
  /-- An object that waits for the value of a name. -/
  | field (fields : List (String × Json)) (readable : Bool) (name : String)

/-- What may come next. -/
inductive Expect where
  | value
  | firstItem
  | next
  | firstName
  | name
  | colon
  | finished (j : Json)

/-- The value `j` is complete: it goes into the innermost open container. -/
def settle (j : Json) : List Frame → Option (Expect × List Frame)
  | [] => some (.finished j, [])
  | .array items :: stack => some (.next, .array (j :: items) :: stack)
  | .field fields readable name :: stack => some (.next, .object ((name, j) :: fields) readable :: stack)
  | .object _ _ :: _ => none

/-- The innermost container is closed. -/
def close (array : Bool) : List Frame → Option (Expect × List Frame)
  | .array items :: stack => if array then settle (.array items.reverse) stack else none
  | .object fields readable :: stack =>
    if array then none
    else settle (if readable then .object fields.reverse else .unreadable) stack
  | _ => none

/-- A token where a value may start. -/
def startValue (t : Token) (stack : List Frame) : Option (Expect × List Frame) :=
  match t with
  | .null => settle .null stack
  | .bool b => settle (.bool b) stack
  | .number (some n) => settle (.number n) stack
  | .number none => settle .unreadable stack
  | .text (some s) => settle (.string s) stack
  | .text none => settle .unreadable stack
  | .openBracket => some (.firstItem, .array [] :: stack)
  | .openBrace => some (.firstName, .object [] true :: stack)
  | _ => none

/-- A token where a name must stand. -/
def startName (t : Token) (stack : List Frame) : Option (Expect × List Frame) :=
  match t, stack with
  | .text (some s), .object fields readable :: rest => some (.colon, .field fields readable s :: rest)
  | .text none, .object fields _ :: rest => some (.colon, .field fields false "" :: rest)
  | _, _ => none

/-- One token. -/
def readStep (expect : Expect) (stack : List Frame) (t : Token) : Option (Expect × List Frame) :=
  match expect, t with
  | .value, t => startValue t stack
  | .firstItem, .closeBracket => close true stack
  | .firstItem, t => startValue t stack
  | .firstName, .closeBrace => close false stack
  | .firstName, t => startName t stack
  | .name, t => startName t stack
  | .colon, .colon => some (.value, stack)
  | .next, .closeBracket => close true stack
  | .next, .closeBrace => close false stack
  | .next, .comma =>
    match stack with
    | .array _ :: _ => some (.value, stack)
    | .object _ _ :: _ => some (.name, stack)
    | _ => none
  | _, _ => none

/-- The value of the tokens from a state on. -/
def readFrom (expect : Expect) (stack : List Frame) : List Token → Option Json
  | [] =>
    match expect with
    | .finished j => some j
    | _ => none
  | t :: rest =>
    match readStep expect stack t with
    | none => none
    | some (after, above) => readFrom after above rest

/-- The value that a text writes. -/
def parse? (s : String) : Option Json := (lex s).bind (readFrom .value [])

end Wheelwright.Json
