/-
  File trees — files, links and directories by location.

  **State.**  A location is the list of names on the way from the root.  A tree maps locations to
  entries; the root is a directory that is always there.  Relative paths start at the tree's home.

  **Program** — `walk` follows a path name by name: every name on the way must be a directory, a
  link on the way stands for what it points to, and `..` leads to where the names so far have led.
  The last name may be missing; a link in its place is followed or not, as asked.
-/
import Wheelwright.Error
import Wheelwright.Text.Utf8

namespace Wheelwright

/-- The names on the way from the root to an entry. -/
abbrev Location := List String

/-- What the process may do with a file. -/
inductive Mode where
  | plain
  | executable
  /-- The file is neither read nor written; it can still be moved and removed, as the directory it lies in allows. -/
  | unreadable
  deriving DecidableEq

/-- The mode of a new file. -/
def Mode.ofNew (executable : Bool) : Mode := if executable then .executable else .plain

/-- What lies at a location. -/
inductive Entry where
  | file (content : Bytes) (mode : Mode)
  | link (target : String)
  | directory
  deriving DecidableEq

/-- Where a process finds what its user has set, for all projects alike. -/
structure UserPlaces where
  /-- The home of the user, as `HOME` has it. -/
  home : Option Path := none
  /-- The directory of the user's settings, if `XDG_CONFIG_HOME` names one. -/
  configHome : Option Path := none
  deriving DecidableEq

/-- Entries by location, and what a process brings along: where its relative paths start, and the places of its user.
    Neither is changed by what is done to the entries. -/
structure FileTree where
  home : Location := []
  user : UserPlaces := {}
  entries : List (Location × Entry) := []

namespace FileTree

/-- What lies at `loc`. -/
def get? (t : FileTree) (loc : Location) : Option Entry :=
  if loc = [] then some .directory else t.entries.lookup loc

/-- The tree with an entry at `loc`. -/
def put (t : FileTree) (loc : Location) (e : Entry) : FileTree :=
  { t with entries := (loc, e) :: t.entries.filter fun f => f.1 != loc }

/-- The tree without `loc` and all that lies below it. -/
def erase (t : FileTree) (loc : Location) : FileTree :=
  { t with entries := t.entries.filter fun f => !loc.isPrefixOf f.1 }

/-- The entry at `source` and all below it moved to `target`. -/
def move (t : FileTree) (source target : Location) : FileTree :=
  let kept := t.entries.filter fun f => !target.isPrefixOf f.1
  { t with entries := kept.map fun f =>
      if source.isPrefixOf f.1 then (target ++ f.1.drop source.length, f.2) else f }

/-- The name and the entry of a location right below `loc`. -/
def childOf? (loc : Location) (f : Location × Entry) : Option (String × Entry) :=
  match loc.isPrefixOf f.1, f.1.drop loc.length with
  | true, [name] => some (name, f.2)
  | _, _ => none

/-- The entries right below `loc`, in the order of their names. -/
def children (t : FileTree) (loc : Location) : List (String × Entry) :=
  (t.entries.filterMap (childOf? loc)).mergeSort fun a b => a.1 ≤ b.1

/-- The most links that are followed on one path. -/
def linkLimit : Nat := 40

/-- Follows `pieces` from `here`; `viaLink` goes on behind a link. -/
def walkPieces (t : FileTree) (follow : Bool)
    (viaLink : Location → List String → Except OsError Location) :
    Location → List String → Except OsError Location
  | here, [] => .ok here
  | here, piece :: rest =>
    match t.get? here with
    | none => .error .notFound
    | some .directory =>
      if isIdlePiece piece then walkPieces t follow viaLink here rest
      else if piece = ".." then walkPieces t follow viaLink here.dropLast rest
      else
        match t.get? (here ++ [piece]) with
        | some (.link target) =>
          if rest.isEmpty && !follow then .ok (here ++ [piece])
          else viaLink (if target.startsWith "/" then [] else here) (piecesOf '/' target ++ rest)
        | _ => walkPieces t follow viaLink (here ++ [piece]) rest
    | some _ => .error .notDirectory

/-- Follows `pieces` from a location over at most `links` links. -/
def walk (t : FileTree) (follow : Bool) : Nat → Location → List String → Except OsError Location
  | 0 => fun _ _ => .error .tooManyLinks
  | links + 1 => walkPieces t follow (walk t follow links)

/-- Where a path leads; its last name may be missing there. -/
def locate (t : FileTree) (p : Path) (follow : Bool) : Except OsError Location :=
  if p.text = "" then .error .notFound
  else if p.text.toList.contains (Char.ofNat 0) then .error .nulInPath
  else walk t follow (linkLimit + 1) (if p.isAbsolute then [] else t.home) (piecesOf '/' p.text)

/-- The entry that a path leads to. -/
def find? (t : FileTree) (p : Path) (follow : Bool) : Except OsError (Location × Entry) := do
  let loc ← t.locate p follow
  match t.get? loc with
  | some e => .ok (loc, e)
  | none => .error .notFound

/-- The path leads to a directory. -/
def isDirectory (t : FileTree) (p : Path) : Bool :=
  match t.find? p true with
  | .ok (_, .directory) => true
  | _ => false

/-- The path leads to a file. -/
def isFile (t : FileTree) (p : Path) : Bool :=
  match t.find? p true with
  | .ok (_, .file _ _) => true
  | _ => false

/-! ## Small laws -/

theorem get?_root (t : FileTree) : t.get? [] = some .directory := rfl

theorem get?_put (t : FileTree) (loc : Location) (e : Entry) (h : loc ≠ []) :
    (t.put loc e).get? loc = some e := by
  simp [get?, put, h]

end FileTree

end Wheelwright
