/-
  Error information — a code, a summary, a hint how to fix it, and named facts.
-/
import Wheelwright.Json.Record

namespace Wheelwright

/-- What a caller is told of an error. -/
structure ErrorInfo where
  code : String
  summary : String
  fixHint : Option String := none
  /-- Named facts, each name once. -/
  context : List (String × String) := []
  deriving DecidableEq

namespace ErrorInfo

/-- `context` with the fact `name`, replacing an earlier one. -/
def put (context : List (String × String)) (name value : String) : List (String × String) :=
  context.filter (·.1 ≠ name) ++ [(name, value)]

/-- The information with one fact more. -/
def withFact (e : ErrorInfo) (name value : String) : ErrorInfo :=
  { e with context := put e.context name value }

/-- The facts as an object. -/
def contextJson (e : ErrorInfo) : Json := .object (e.context.map fun f => (f.1, .string f.2))

/-- All fields, empty ones too. -/
def toJson (e : ErrorInfo) : Json :=
  .object [("code", .string e.code), ("summary", .string e.summary),
    ("fix_hint", Json.ofOption Json.string e.fixHint), ("context", e.contextJson)]

/-- The fields that tell something. -/
def brief (e : ErrorInfo) : Json :=
  .object ([("code", .string e.code), ("summary", .string e.summary)] ++
    Json.fieldOf "fix_hint" Json.string e.fixHint ++
    (if e.context.isEmpty then [] else [("context", e.contextJson)]))

/-- An object of texts; of a repeated name the last text counts. -/
def texts? : Json → Option (List (String × String))
  | .object fields =>
    (Json.readAll (fun f => (Json.text? f.2).map fun s => (f.1, s)) fields).map fun entries =>
      entries.foldl (fun context f => put context f.1 f.2) []
  | _ => none

def ofJson? (j : Json) : Option ErrorInfo := do
  let r ← Json.record? ["code", "summary", "fix_hint", "context"] j
  let code ← r.required "code" Json.text?
  let summary ← r.required "summary" Json.text?
  let fixHint ← r.nullable "fix_hint" Json.text?
  let context ← r.defaulted "context" [] texts?
  some { code, summary, fixHint, context }

end ErrorInfo

end Wheelwright
