/-
  Staleness — whether the inputs of a stage are still what they were.

  **Program** — the inputs are a configuration file and the source files below a root.  They are
  written one after the other into one stream of bytes, and the digest of the stream is their
  fingerprint: a stage is stale unless the fingerprint is the one recorded before.

  **Which files count** — a file counts if every entry on the way to it from the root is admitted:
  it lies in no excluded path, no exclusion glob fits it, no ignore file speaks against it, and its
  name does not start with a dot unless an ignore file speaks for it.  Links do not count.

  **Ignore files** — of each directory on the way `.ignore`, `.gitignore` and the excludes of a
  repository are asked in this order, and within each kind the nearest directory first.  Above a
  directory that holds a repository the last two kinds are not asked.  The user's own ignore file is
  asked when none of these says anything, whether there is a repository or not.
-/
import Wheelwright.Sha256
import Wheelwright.UserRules

namespace Wheelwright

/-- What a staleness check looks at. -/
structure StalenessInputs where
  configFile : Path
  sourceRoot : Path
  /-- Paths that are left out, relative ones from the source root. -/
  excluded : List Path := []
  /-- Globs of entries that are left out. -/
  excludedGlobs : List String := []

namespace StalenessInputs

/-- The excluded paths from where the source root starts. -/
def resolvedExclusions (i : StalenessInputs) : List Path :=
  i.excluded.map fun p => if p.isAbsolute then p else i.sourceRoot.join p

/-- The rules of the exclusion globs: each is a line that keeps, read the other way round. -/
def overrides (i : StalenessInputs) : Except PlanError IgnoreFile := do
  let rules ← i.excludedGlobs.mapM fun glob =>
    match IgnoreRule.ofLine? false ("!" ++ glob) with
    | .ok rule => .ok rule
    | .error e =>
      .error (.invalidExclusion glob
        ("error parsing glob '" ++ IgnoreRule.trimLine ("!" ++ glob) ++ "': " ++ e.message))
  return { base := IgnoreFile.withoutDot i.sourceRoot.text, rules := rules.filterMap id }

end StalenessInputs

/-! ## Rules of directories -/

/-- The ignore files of one directory. -/
structure DirectoryRules where
  ignore : IgnoreFile
  gitIgnore : IgnoreFile
  gitExclude : IgnoreFile
  /-- The directory holds a repository. -/
  holdsRepository : Bool

namespace DirectoryRules

/-- The first line of a file, if it is text. -/
def firstLine? (t : FileTree) (p : Path) : Option String :=
  match t.read p with
  | .ok content => (IgnoreFile.linesOf content).head?
  | .error _ => none

/-- Where the repository of a directory keeps its files: the directory `.git`, or what a file of that
    name points to. -/
def repository? (t : FileTree) (dir : Path) : Option Path :=
  let git := dir.child ".git"
  if !t.isFile git then some git
  else do
    let line ← firstLine? t git
    if !line.startsWith "gitdir: " then none
    else
      let linked : Path := ⟨String.ofList (line.toList.drop 8)⟩
      let common ← firstLine? t (linked.child "commondir")
      some (if common.startsWith "." then linked.child common else ⟨common⟩)

/-- The rules of a file about a directory; none when the file cannot be read. -/
def rulesOf (t : FileTree) (dir : Path) (file : Path) : IgnoreFile :=
  match t.read file with
  | .ok content => .ofContent dir.text content
  | .error _ => ⟨IgnoreFile.withoutDot dir.text, []⟩

/-- The ignore files of a directory. -/
def ofDirectory (t : FileTree) (dir : Path) : DirectoryRules where
  ignore := rulesOf t dir (dir.child ".ignore")
  gitIgnore := rulesOf t dir (dir.child ".gitignore")
  gitExclude :=
    match repository? t dir with
    | some git => rulesOf t dir (git.join ⟨"info/exclude"⟩)
    | none => ⟨IgnoreFile.withoutDot dir.text, []⟩
  holdsRepository :=
    match t.find? (dir.child ".git") true with
    | .ok _ => true
    | .error _ => false

/-- The directories whose repository rules are asked, the nearest first. -/
def inRepository : List DirectoryRules → List DirectoryRules
  | [] => []
  | d :: outer => d :: if d.holdsRepository then [] else inRepository outer

/-- What the ignore files of directories say of an entry, the nearest directory first. -/
def verdict? (rules : List DirectoryRules) (path : String) (isDirectory : Bool) : Option Verdict :=
  let ask (files : List IgnoreFile) := files.findSome? fun f => f.verdict? path isDirectory
  let within := inRepository rules
  (ask (rules.map (·.ignore))).or
    ((ask (within.map (·.gitIgnore))).or (ask (within.map (·.gitExclude))))

end DirectoryRules

/-! ## Source files -/

/-- What is left out of the source files, whatever the ignore files of their directories say. -/
structure Exclusions where
  paths : List Path
  globs : IgnoreFile
  /-- The rules of the user's ignore file. -/
  user : IgnoreFile

/-- An entry counts by itself: its ignore rules and name admit it, and it is not excluded.  The globs are asked before
    all ignore files, and the user's ignore file after them. -/
def Exclusions.admits (x : Exclusions) (rules : List DirectoryRules) (p : Path) (name : String)
    (isDirectory : Bool) : Bool :=
  let verdict :=
    ((x.globs.verdict? p.text isDirectory).map Verdict.invert).or
      ((DirectoryRules.verdict? rules p.text isDirectory).or (x.user.verdict? p.text isDirectory))
  let shown :=
    match verdict with
    | some .ignored => false
    | some .kept => true
    | none => !name.startsWith "."
  shown && !x.paths.any p.startsWith

/-- Every entry on the way from a directory over `names` counts. -/
def Exclusions.admitsAll (x : Exclusions) (t : FileTree) (rules : List DirectoryRules) (dir : Path)
    (here : Location) : List String → Bool
  | [] => true
  | name :: rest =>
    let rules := DirectoryRules.ofDirectory t dir :: rules
    let p := dir.child name
    let there := here ++ [name]
    x.admits rules p name (t.get? there = some .directory) && admitsAll x t rules p there rest

/-- A source file: its name from the source root, its path, and its content. -/
structure SourceFile where
  relative : String
  path : Path
  /-- Nothing when the file cannot be read. -/
  content : Option Bytes
  deriving DecidableEq

/-- Files in order of their relative names, and of their paths where these are the same. -/
def SourceFile.le (a b : SourceFile) : Bool :=
  a.relative < b.relative || (a.relative = b.relative && !b.path.lt a.path)

/-- The name of a file from the source root, with slashes for backslashes. -/
def relativeName (names : List String) : String :=
  String.ofList (("/".intercalate names).toList.map fun c => if c = '\\' then '/' else c)

/-- The file at a location as a source file, if it counts. -/
def Exclusions.sourceFile? (x : Exclusions) (t : FileTree) (root : Path) (top : Location)
    (f : Location × Entry) : Option SourceFile :=
  match f.2 with
  | .file _ _ =>
    let names := f.1.drop top.length
    if top.isPrefixOf f.1 && x.admitsAll t [] root top names then
      let path := names.foldl Path.child root
      some { relative := relativeName names, path, content := (t.read path).toOption }
    else none
  | _ => none

/-- The source files below a root, in order. -/
def Exclusions.sourceFiles (x : Exclusions) (t : FileTree) (root : Path) : List SourceFile :=
  match t.locate root true with
  | .ok top => (t.entries.filterMap (x.sourceFile? t root top)).mergeSort SourceFile.le
  | .error _ => []

/-! ## Fingerprints -/

/-- What stands for the content of a file that cannot be read. -/
def unreadableMark : Bytes := 0 :: Utf8.encode "unreadable" ++ [0]

/-- The bytes that a source file adds to the stream. -/
def SourceFile.stream (f : SourceFile) : Bytes :=
  (0 :: Utf8.encode "file" ++ [0]) ++ Utf8.encode f.relative ++ 0 :: f.content.getD unreadableMark

/-- The stream of a configuration and source files. -/
def inputStream (config : Bytes) (files : List SourceFile) : Bytes :=
  Utf8.encode "config" ++ 0 :: config ++ files.flatMap SourceFile.stream

namespace StalenessInputs

/-- What is left out of the source files in a tree. -/
def exclusions (i : StalenessInputs) (t : FileTree) (globs : IgnoreFile) : Exclusions :=
  { paths := i.resolvedExclusions, globs, user := UserRules.ofTree t }

/-- The source files that count. -/
def files (i : StalenessInputs) (t : FileTree) : Except PlanError (List SourceFile) :=
  if t.isDirectory i.sourceRoot then do
    return (i.exclusions t (← i.overrides)).sourceFiles t i.sourceRoot
  else .ok []

/-- The bytes of the configuration file. -/
def config (i : StalenessInputs) (t : FileTree) : Except PlanError Bytes :=
  match t.read i.configFile with
  | .ok content => .ok content
  | .error e => .error (.configUnreadable i.configFile e.message)

/-- The stream of all inputs. -/
def stream (i : StalenessInputs) (t : FileTree) : Except PlanError Bytes := do
  let config ← i.config t
  return inputStream config (← i.files t)

/-- The fingerprint of the inputs. -/
def fingerprint (i : StalenessInputs) (t : FileTree) : Except PlanError String := do
  return Sha256.hexDigest (← i.stream t)

/-- Whether a stage with the recorded fingerprint `previous` has to run, and the fingerprint now. -/
def isStale (i : StalenessInputs) (previous : Option String) (t : FileTree) :
    Except PlanError (Bool × String) := do
  let now ← i.fingerprint t
  return (previous != some now, now)

end StalenessInputs

end Wheelwright
