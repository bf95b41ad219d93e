/-
  TOML values, and tables under construction.

  **Marks** — a table may be extended later or not, depending on how it came about: by its own header,
  on the way to another header, on the way of a dotted key, or written whole between braces.  A mark
  on every table tells which.

  **Program** — three operations build a document: a header opens a table, a doubled header opens the
  next table of an array of tables, and an assignment puts a value under a dotted key.  Each walks a
  path of keys; a table that is missing on the way is made.

  **Refused** — a key that has a value already; a header for a table that has one; dotted keys into a
  table that a header made; and any path through a value.
-/
import Wheelwright.Binary64
import Wheelwright.Json.Basic

namespace Wheelwright.Toml

/-- How a table came about. -/
inductive Mark where
  /-- Written between braces. -/
  | whole
  /-- Has its own header, or is the document. -/
  | header
  /-- On the way to a header. -/
  | implied
  /-- On the way of a dotted key. -/
  | dotted
  deriving DecidableEq

/-- A TOML value. -/
inductive Value where
  | string (s : String)
  | integer (i : Int)
  | float (x : Binary64)
  | boolean (b : Bool)
  /-- A date, a time of day, or both, as written. -/
  | datetime (text : String)
  | array (items : List Value)
  /-- The tables of a doubled header. -/
  | tables (items : List Value)
  | table (mark : Mark) (entries : List (String × Value))

/-- The entries of a table. -/
abbrev Entries := List (String × Value)

/-- A table under construction. -/
structure Table where
  mark : Mark
  entries : Entries

namespace Table

def toValue (t : Table) : Value := .table t.mark t.entries

/-- The entries with another value under `key`; a new key comes last. -/
def put (key : String) (v : Value) : Entries → Entries
  | [] => [(key, v)]
  | (k, old) :: rest => if k = key then (key, v) :: rest else (k, old) :: put key v rest

/-- The table with a value under a key that is free. -/
def addNew (t : Table) (key : String) (v : Value) : Option Table :=
  match t.entries.lookup key with
  | none => some { t with entries := t.entries ++ [(key, v)] }
  | some _ => none

/-- Paths of dotted keys may go through a table with this mark. -/
def Mark.opensTo (dotted : Bool) : Mark → Bool
  | .whole => false
  | .header => !dotted
  | _ => true

/-- The last table of an array of tables, and those before it. -/
def lastTable? (items : List Value) : Option (List Value × Table) :=
  match items.reverse with
  | .table mark entries :: before => some (before.reverse, ⟨mark, entries⟩)
  | _ => none

/-- Applies `f` to the table at the end of a path; `dotted` tells a dotted key from a header. -/
def modify (dotted : Bool) (f : Table → Option Table) : List String → Table → Option Table
  | [], t => f t
  | key :: path, t =>
    match t.entries.lookup key with
    | none =>
      (modify dotted f path ⟨if dotted then .dotted else .implied, []⟩).map fun u =>
        { t with entries := t.entries ++ [(key, u.toValue)] }
    | some (.table mark entries) =>
      if Mark.opensTo dotted mark then
        (modify dotted f path ⟨mark, entries⟩).map fun u =>
          { t with entries := put key u.toValue t.entries }
      else none
    | some (.tables items) =>
      match lastTable? items with
      | none => none
      | some (before, last) =>
        (modify dotted f path last).map fun u =>
          { t with entries := put key (.tables (before ++ [u.toValue])) t.entries }
    | some _ => none

/-- A value under a dotted key.  The table that gets it must be the one that the keys start from when
    there is one key, and one made by dotted keys otherwise. -/
def assign (path : List String) (key : String) (v : Value) : Table → Option Table :=
  modify true (fun u => if (u.mark = .dotted) = path.isEmpty then none else u.addNew key v) path

/-- Opens the table of a header. -/
def openTable (path : List String) (key : String) : Table → Option Table :=
  modify false (fun t =>
    match t.entries.lookup key with
    | none => t.addNew key (.table .header [])
    | some (.table .implied entries) => some { t with entries := put key (.table .header entries) t.entries }
    | some _ => none) path

/-- Opens the next table of a doubled header. -/
def openNext (path : List String) (key : String) : Table → Option Table :=
  modify false (fun t =>
    match t.entries.lookup key with
    | none => t.addNew key (.tables [.table .header []])
    | some (.tables items) =>
      some { t with entries := put key (.tables (items ++ [.table .header []])) t.entries }
    | some _ => none) path

/-- The table of assignments between braces. -/
def ofAssignments : List (List String × String × Value) → Table → Option Table
  | [], t => some { t with mark := .whole }
  | (path, key, v) :: rest, t =>
    match assign path key v t with
    | none => none
    | some u => ofAssignments rest u

end Table

/-! ## Looking at values -/

def Value.string? : Value → Option String
  | .string s => some s
  | _ => none

def Value.table? : Value → Option Entries
  | .table _ entries => some entries
  | _ => none

/-- The items of an array; an array of tables is an array, too. -/
def Value.array? : Value → Option (List Value)
  | .array items => some items
  | .tables items => some items
  | _ => none

/-! ## As JSON

  Configurations are read by the same readers as JSON.  A date becomes an object with one field, which no reader of
  records takes for anything else. -/

/-- The one field of the object that a date becomes. -/
def datetimeField : String := "$__toml_private_datetime"

mutual

/-- The value as a reader of records sees it; a date is an object that no record knows the field of. -/
def Value.toJson : Value → Json
  | .string s => .string s
  | .integer i => Json.int i
  | .float x => .number (.real x)
  | .boolean b => .bool b
  | .datetime text => .object [(datetimeField, .string text)]
  | .array items => .array (itemsJson items)
  | .tables items => .array (itemsJson items)
  | .table _ entries => .object (entriesJson entries)

/-- `Value.toJson` of every item. -/
def itemsJson : List Value → List Json
  | [] => []
  | v :: rest => v.toJson :: itemsJson rest

/-- `Value.toJson` of every entry. -/
def entriesJson : List (String × Value) → List (String × Json)
  | [] => []
  | (k, v) :: rest => (k, v.toJson) :: entriesJson rest

end

end Wheelwright.Toml
