/-
  Reading typed values out of JSON.

  A record is an object with named fields, of which unknown ones are ignored and known ones may not be
  repeated; or an array of the fields in their order, where missing ones can only be the last.  What
  is missing or `null` is decided field by field: `required`, `optional`, `defaulted`.

  A variant without data is its name, or an object with that name and the format's empty value.
-/
import Wheelwright.Json.Basic

namespace Wheelwright.Json

/-! ## Scalars

  Readers of single values.  Each of them refuses what is of another kind or out of its range. -/

def text? : Json → Option String
  | .string s => some s
  | _ => none

def bool? : Json → Option Bool
  | .bool b => some b
  | _ => none

/-- A whole number of at most `max`. -/
def natUpTo? (max : Nat) : Json → Option Nat
  | .number (.natural n) => if n ≤ max then some n else none
  | _ => none

/-- A signed whole number of 32 bits. -/
def int32? : Json → Option Int
  | .number (.natural n) => if n < Nat.pow 2 31 then some n else none
  | .number (.negative n) => if n ≤ Nat.pow 2 31 then some (-(n : Int)) else none
  | _ => none

/-- A double; whole numbers are rounded. -/
def double? : Json → Option Binary64
  | .number (.natural n) => some (Binary64.ofNat n)
  | .number (.negative n) => some (Binary64.ofNat n).negate
  | .number (.real x) => some x
  | _ => none

/-- Every item, if `f` reads them all. -/
def readAll {α β : Type} (f : α → Option β) : List α → Option (List β)
  | [] => some []
  | a :: rest =>
    match f a with
    | none => none
    | some b => (readAll f rest).map (b :: ·)

/-- An array of items. -/
def list? {α : Type} (f : Json → Option α) : Json → Option (List α)
  | .array items => readAll f items
  | _ => none

/-- `null`, or a value. -/
def orNull? {α : Type} (f : Json → Option α) : Json → Option (Option α)
  | .null => some none
  | j => (f j).map some

/-! ## Variants -/

/-- The value is the unit of a variant. -/
def isUnit (unit : Json) (j : Json) : Bool :=
  match unit, j with
  | .null, .null => true
  | .object [], .object [] => true
  | _, _ => false

/-- The name of a variant without data; `unit` is what stands for no data in an object. -/
def variant? (unit : Json) : Json → Option String
  | .string s => some s
  | .object [(name, j)] => if isUnit unit j then some name else none
  | _ => none

/-! ## Records

  A record is read by the names of its fields.  An object may have others, which are skipped, but none that is known
  may be there twice. -/

/-- The known fields of a record that are present. -/
structure Record where
  /-- The record was written as an array. -/
  positional : Bool
  fields : List (String × Json)

/-- A record of the fields `names`. -/
def record? (names : List String) : Json → Option Record
  | .array items => if items.length ≤ names.length then some ⟨true, names.zip items⟩ else none
  | .object fields =>
    let known := fields.filter fun f => names.contains f.1
    if (known.map (·.1)).Nodup then some ⟨false, known⟩ else none
  | _ => none

namespace Record

/-- A field that must be present. -/
def required {α : Type} (r : Record) (name : String) (f : Json → Option α) : Option α :=
  (r.fields.lookup name).bind f

/-- A field with a value for its absence. -/
def defaulted {α : Type} (r : Record) (name : String) (value : α) (f : Json → Option α) : Option α :=
  match r.fields.lookup name with
  | none => some value
  | some j => f j

/-- A field that may be absent or `null`. -/
def optional {α : Type} (r : Record) (name : String) (f : Json → Option α) : Option (Option α) :=
  match r.fields.lookup name with
  | none => some none
  | some j => orNull? f j

/-- A field that may be absent from an object, or `null`; an array must have it. -/
def nullable {α : Type} (r : Record) (name : String) (f : Json → Option α) : Option (Option α) :=
  match r.fields.lookup name with
  | none => if r.positional then none else some none
  | some j => orNull? f j

end Record

/-! ## Tagged variants

  A tag is a field among the others in an object, and the first item of an array. -/

/-- A value with a tag: what is left of it under the tag. -/
structure Tagged where
  tag : String
  body : Json

/-- A value that carries its variant in the field `name`, or as its first item.  Such a value is
    kept whole before its variant is known, so all of it must be readable, within `limit` levels. -/
def tagged? (name : String) (limit : Nat) (j : Json) : Option Tagged :=
  if !j.readableWithin limit then none
  else
    match j with
    | .array (.string tag :: items) => some ⟨tag, .array items⟩
    | .object fields =>
      match fields.filter (·.1 = name) with
      | [(_, .string tag)] => some ⟨tag, .object (fields.filter (·.1 ≠ name))⟩
      | _ => none
    | _ => none

/-- A variant without fields: any object will do, an array must be empty. -/
def isEmptyBody : Json → Bool
  | .object _ => true
  | .array items => items.isEmpty
  | _ => false

end Wheelwright.Json
