/-
  Operations on file trees — reading, writing, making, moving and removing.

  Each operation fails as the system call does that stands behind it, and a failed operation leaves
  the tree as it was.  Operations of several steps (`takeSteps`) keep the steps that were taken before
  the one that failed: `makeAll` makes the outer directories first, and these stay when an
  inner one cannot be made.
-/
import Wheelwright.FileTree.Basic
import Wheelwright.Text.CharClass

namespace Wheelwright.FileTree

/-! ## Reading

  Reading follows links.  What is not text is an error for the one function and none for the other. -/

/-- The content of a file. -/
def read (t : FileTree) (p : Path) : Except OsError Bytes := do
  match ← t.find? p true with
  | (_, .file _ .unreadable) => .error .permissionDenied
  | (_, .file content _) => .ok content
  | (_, .directory) => .error .isDirectory
  | (_, .link _) => .error .tooManyLinks

/-- The content of a file as text. -/
def readText (t : FileTree) (p : Path) : Except OsError String := do
  match Utf8.decode? (← t.read p) with
  | some text => .ok text
  | none => .error .invalidUtf8

/-- The names in a directory with what they stand for, in order. -/
def readDirectory (t : FileTree) (p : Path) : Except OsError (List (String × Entry)) := do
  match ← t.find? p true with
  | (loc, .directory) => .ok (t.children loc)
  | _ => .error .notDirectory

/-- All that lies below a directory, by names from there; directories end in a slash. -/
def listing (t : FileTree) (p : Path) : List String :=
  match t.find? p true with
  | .ok (loc, .directory) =>
    let below := t.entries.filter fun f => loc.isPrefixOf f.1 && loc.length < f.1.length
    let names := below.map fun f =>
      "/".intercalate (f.1.drop loc.length) ++ if f.2 = .directory then "/" else ""
    names.mergeSort fun a b => a ≤ b
  | _ => []

/-! ## Writing

  Directories are made from the outside to the inside, and those that were made stay when a later one cannot be made. -/

/-- Writes a file; a file that is there already keeps its mode unless it becomes executable.  A link is followed, and
    what it points to is made if it is missing. -/
def write (t : FileTree) (p : Path) (content : Bytes) (executable : Bool) :
    Except OsError FileTree := do
  let loc ← t.locate p true
  match t.get? loc with
  | some .directory => .error .isDirectory
  | some (.file _ .unreadable) => .error .permissionDenied
  | some (.file _ mode) => .ok (t.put loc (.file content (if executable then .executable else mode)))
  | _ => .ok (t.put loc (.file content (.ofNew executable)))

/-- The path without slashes at its end. -/
def withoutEndSlashes (p : Path) : Path :=
  let text := dropEndWhile (fun c => c = '/') p.text
  if text = "" then p else ⟨text⟩

/-- The path has a slash at its end. -/
def endsInSlash (p : Path) : Bool := p.text.toList.getLast? = some '/'

/-- Makes a directory. -/
def makeDirectory (t : FileTree) (p : Path) : Except OsError FileTree := do
  let loc ← t.locate (withoutEndSlashes p) false
  match t.get? loc with
  | some _ => .error .alreadyExists
  | none => .ok (t.put loc .directory)

/-- A step that leaves the tree as it was when it fails. -/
def attempt (t : FileTree) (step : FileTree → Except OsError FileTree) : FileTree × Option OsError :=
  match step t with
  | .ok u => (u, none)
  | .error e => (t, some e)

/-- Makes a directory unless there is one. -/
def ensureDirectory (t : FileTree) (p : Path) : Except OsError FileTree :=
  match t.makeDirectory p with
  | .ok u => .ok u
  | .error e => if t.isDirectory p then .ok t else .error e

/-- Makes the first directory of a list; when it has no parent, the second is made before, and so on.  Directories that
    were made stay, also when one that lies in them cannot be made. -/
def makeWithin (t : FileTree) : List Path → FileTree × Option OsError
  | [] => (t, none)
  | p :: outer =>
    match t.makeDirectory p with
    | .ok u => (u, none)
    | .error .notFound =>
      match makeWithin t outer with
      | (u, some e) => (u, some e)
      | (u, none) => u.attempt (·.ensureDirectory p)
    | .error e => if t.isDirectory p then (t, none) else (t, some e)

/-- The path, its parent, the parent's parent and so on, at most `count` of them, empty paths left
    out. -/
def ancestors : Nat → Path → List Path
  | 0, _ => []
  | count + 1, p =>
    if p.text = "" then []
    else
      match p.parent? with
      | some q => p :: ancestors count q
      | none => [p]

/-- Makes a directory and those that it lies in. -/
def makeAll (t : FileTree) (p : Path) : FileTree × Option OsError :=
  t.makeWithin (ancestors (p.components.length + 1) p)

/-- The tree with a directory and those that it lies in, if all of them can be made. -/
def makeDirectories (t : FileTree) (p : Path) : Except OsError FileTree :=
  match t.makeAll p with
  | (u, none) => .ok u
  | (_, some e) => .error e

/-- Takes steps up to the first that fails, and keeps what was done before. -/
def takeSteps : List (FileTree → FileTree × Option OsError) → FileTree → FileTree × Option OsError
  | [], t => (t, none)
  | step :: rest, t =>
    match step t with
    | (u, none) => takeSteps rest u
    | (u, some e) => (u, some e)

/-- Writes a file after making the directories that it lies in. -/
def writeWithin (t : FileTree) (p : Path) (content : Bytes) (executable : Bool) :
    Except OsError FileTree := do
  let t ← t.makeDirectories (p.parent?.getD ⟨""⟩)
  t.write p content executable

/-- Makes a link. -/
def makeLink (t : FileTree) (target : String) (p : Path) : Except OsError FileTree := do
  let loc ← t.locate p false
  match t.get? loc with
  | some _ => .error .alreadyExists
  | none => .ok (t.put loc (.link target))

/-! ## Moving and removing

  A rename takes all below an entry along.  What lay at the goal is replaced, unless it is a directory that holds
  something. -/

/-- Removes a file or link, or a directory with all that lies below it. -/
def remove (t : FileTree) (p : Path) : Except OsError FileTree := do
  let (loc, _) ← t.find? p false
  .ok (t.erase loc)

/-- Moves a file, a link or a directory; what was there before is replaced, a directory only by a
    directory and only when it is empty.  Only a directory may be named with a slash at the end. -/
def rename (t : FileTree) (source target : Path) : Except OsError FileTree := do
  let (origin, e) ← t.find? (withoutEndSlashes source) false
  let goal ← t.locate (withoutEndSlashes target) false
  if e ≠ .directory && (endsInSlash source || endsInSlash target) then throw .notDirectory
  if origin = goal then return t
  -- a directory cannot come to lie within itself
  if origin.isPrefixOf goal then throw .invalidArgument
  match t.get? goal with
  | some .directory =>
    if e ≠ .directory then .error .isDirectory
    else if (t.children goal).isEmpty then .ok (t.move origin goal)
    else .error .notEmpty
  | some _ => if e = .directory then .error .notDirectory else .ok (t.move origin goal)
  | none => .ok (t.move origin goal)

end Wheelwright.FileTree
