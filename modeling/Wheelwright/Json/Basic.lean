/-
  JSON values.

  An object keeps its fields as written, repeated names included: what a repetition means is up to
  the reader of the value.  A scalar that is well formed but has no value — a number beyond the range
  of doubles, a text with half of a surrogate pair — is `unreadable`: it may stand where nobody looks.
-/
import Wheelwright.Binary64

namespace Wheelwright

/-- The value of a numeral: integers of 64 bits stay whole, every other numeral is a double. -/
inductive Numeral where
  | natural (n : Nat)
  /-- The integer `-n`, where `n` is not zero. -/
  | negative (n : Nat)
  | real (x : Binary64)
  deriving DecidableEq

/-- A JSON value. -/
inductive Json where
  | null
  | bool (b : Bool)
  | number (n : Numeral)
  | string (s : String)
  | array (items : List Json)
  | object (fields : List (String × Json))
  | unreadable

namespace Json

/-- The number `n`. -/
def nat (n : Nat) : Json := .number (.natural n)

/-- The number `i`. -/
def int (i : Int) : Json :=
  if 0 ≤ i then .number (.natural i.toNat) else .number (.negative (-i).toNat)

/-- An array of texts. -/
def strings (items : List String) : Json := .array (items.map .string)

/-- `null` for nothing. -/
def ofOption {α : Type} (f : α → Json) : Option α → Json
  | none => .null
  | some a => f a

/-- A field that is left out when there is nothing to write. -/
def fieldOf {α : Type} (name : String) (f : α → Json) (a : Option α) : List (String × Json) :=
  a.toList.map fun v => (name, f v)

/-- A field that is left out when the list is empty. -/
def fieldOfList {α : Type} (name : String) (f : α → Json) (items : List α) : List (String × Json) :=
  if items.isEmpty then [] else [(name, .array (items.map f))]

/-- The first field called `name`. -/
def get? (j : Json) (name : String) : Option Json :=
  match j with
  | .object fields => fields.lookup name
  | _ => none

end Json

/-! ## Containment -/

mutual

/-- No unreadable part, and at most `limit` containers inside one another. -/
def Json.readableWithin (limit : Nat) : Json → Bool
  | .unreadable => false
  | .array items => limit != 0 && readableItems (limit - 1) items
  | .object fields => limit != 0 && readableFields (limit - 1) fields
  | _ => true

/-- `Json.readableWithin` of every item. -/
def readableItems (limit : Nat) : List Json → Bool
  | [] => true
  | j :: rest => j.readableWithin limit && readableItems limit rest

/-- `Json.readableWithin` of every field. -/
def readableFields (limit : Nat) : List (String × Json) → Bool
  | [] => true
  | (_, j) :: rest => j.readableWithin limit && readableFields limit rest

end

end Wheelwright
