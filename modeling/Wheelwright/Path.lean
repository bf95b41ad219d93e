/-
  File paths — text read as a sequence of components.

  **Two views.**  A path keeps the text it was made of and prints it; what it names is its list of
  components.  Repeated slashes, inner `.` and a trailing slash leave no component, a leading `.`
  and every `..` do, and `..` is not resolved.  Comparisons are made on components.

  **Operations** — `join`, `parent`, `fileName`, `startsWith`, `withExtension` — work on the text as
  little as they can, so that the spelling of what they keep stays.
-/

namespace Wheelwright

/-- A component of a path. -/
inductive Component where
  | root
  | current
  | parent
  | normal (name : String)
  deriving DecidableEq

/-- A file path, as spelled. -/
structure Path where
  text : String
  deriving DecidableEq, Inhabited

/-! ## Pieces of text between slashes

  A path is a text, and what it names are components.  Repeated slashes, inner dots and a slash at the end change the
  text and not the components. -/

/-- `cs` cut at every `sep`; there is one piece more than there are separators. -/
def splitAtChar (sep : Char) : List Char → List (List Char)
  | [] => [[]]
  | c :: rest =>
    if c = sep then [] :: splitAtChar sep rest
    else
      match splitAtChar sep rest with
      | [] => [[c]]
      | piece :: more => (c :: piece) :: more

/-- The pieces of `s` between separators. -/
def piecesOf (sep : Char) (s : String) : List String :=
  (splitAtChar sep s.toList).map String.ofList

/-- A piece that stands for no component inside a path. -/
def isIdlePiece (piece : String) : Bool := piece = "" || piece = "."

namespace Path

/-- The path starts at the root. -/
def isAbsolute (p : Path) : Bool := p.text.startsWith "/"

/-- The leading component that a path's spelling fixes (the root, or a leading `.`), if any, and
    the pieces that follow it. -/
def lead (p : Path) : Option Component × List String :=
  match piecesOf '/' p.text with
  | [] => (none, [])
  | first :: rest =>
    if first = "" then (if rest.isEmpty then none else some .root, rest)
    else if first = "." then (some .current, rest)
    else (none, first :: rest)

/-- The component of an inner piece. -/
def ofPiece (piece : String) : Option Component :=
  if isIdlePiece piece then none
  else if piece = ".." then some .parent
  else some (.normal piece)

/-- What the path names. -/
def components (p : Path) : List Component :=
  let (first, pieces) := p.lead
  first.toList ++ pieces.filterMap ofPiece

/-- The two paths have the same components. -/
def Same (p q : Path) : Prop := p.components = q.components

instance (p q : Path) : Decidable (p.Same q) :=
  inferInstanceAs (Decidable (p.components = q.components))

/-- `base`'s components come first among those of `p`: `p` is `base` or lies below it. -/
def startsWith (p base : Path) : Bool := base.components.isPrefixOf p.components

/-- `other` seen from `p`: an absolute path stands for itself. -/
def join (p other : Path) : Path :=
  if other.isAbsolute then other
  else if p.text = "" || p.text.endsWith "/" then ⟨p.text ++ other.text⟩
  else ⟨p.text ++ "/" ++ other.text⟩

/-- `p` followed by one name. -/
def child (p : Path) (name : String) : Path := p.join ⟨name⟩

/-- The pieces without idle ones at the end. -/
def dropIdleEnd (pieces : List String) : List String :=
  (pieces.reverse.dropWhile isIdlePiece).reverse

/-- The text of a leading component followed by pieces. -/
def spell (first : Option Component) (pieces : List String) : String :=
  let body := "/".intercalate pieces
  match first with
  | some .root => "/" ++ body
  | some .current => if pieces.isEmpty then "." else "./" ++ body
  | _ => body

/-- The path without its last component; nothing for a root or an empty path. -/
def parent? (p : Path) : Option Path :=
  let (first, pieces) := p.lead
  match (dropIdleEnd pieces).reverse with
  | [] => if first = some .current then some ⟨""⟩ else none
  | _ :: before => some ⟨spell first (dropIdleEnd before.reverse)⟩

/-- The last component, if it is a name. -/
def fileName? (p : Path) : Option String :=
  match p.components.getLast? with
  | some (.normal name) => some name
  | _ => none

/-- A file name without its last extension; a name that only starts with a dot has none. -/
def stemOf (name : String) : String :=
  match (piecesOf '.' name).reverse with
  | _ :: (before :: more) =>
    let stem := ".".intercalate (before :: more).reverse
    if stem = "" || name = ".." then name else stem
  | _ => name

/-- The path with the extension of its file name replaced, or given one. -/
def withExtension (p : Path) (extension : String) : Path :=
  match p.fileName? with
  | none => p
  | some name =>
    let (first, pieces) := p.lead
    let kept := dropIdleEnd pieces
    ⟨spell first (kept.dropLast ++ [stemOf name ++ "." ++ extension])⟩

/-! ## Order -/

/-- The rank of a component's kind. -/
def kindRank : Component → Nat
  | .root => 0
  | .current => 1
  | .parent => 2
  | .normal _ => 3

/-- Components in order: by kind, names by their characters. -/
def componentLt (a b : Component) : Bool :=
  match a, b with
  | .normal x, .normal y => x < y
  | _, _ => kindRank a < kindRank b

/-- Lists of components in dictionary order. -/
def componentsLt : List Component → List Component → Bool
  | _, [] => false
  | [], _ :: _ => true
  | a :: as, b :: bs => componentLt a b || (a = b && componentsLt as bs)

/-- Paths in order, component by component. -/
def lt (p q : Path) : Bool := componentsLt p.components q.components

end Path

end Wheelwright
