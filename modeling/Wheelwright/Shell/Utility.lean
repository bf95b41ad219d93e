/-
  Utilities — programs that scripts call for texts and files.

  A utility takes its arguments and the session it runs in, and gives the session after it: what it
  wrote, what it did to files, and its status.  One that fails says why on the second descriptor.
-/
import Wheelwright.Shell.Condition
import Wheelwright.Shell.Format

namespace Wheelwright.Shell

/-- A program by its arguments. -/
abbrev Utility := List String → Session → Session

namespace Utility

/-! ## Arguments -/

/-- An argument of letters after a dash. -/
def isOption (a : String) : Bool := a.length > 1 && a.startsWith "-"

/-- The letters of the options at the start, and the other arguments. -/
def options (arguments : List String) : List Char × List String :=
  let first := arguments.takeWhile fun a => isOption a && a != "--"
  let rest := arguments.drop first.length
  (first.flatMap fun a => a.toList.drop 1, if rest.head? = some "--" then rest.tail else rest)

/-- Does something for each argument; the status is that of the first that failed. -/
def forEach (f : Session → String → Session) (arguments : List String) (s : Session) : Session :=
  arguments.foldl (fun s a =>
    let t := f (s.withStatus 0) a
    if t.status = 0 then t.withStatus s.status else t) (s.withStatus 0)

/-- Does something to files, or says why it could not be done. -/
def attempt (s : Session) (failure : String) (f : FileTree → Except OsError FileTree) : Session :=
  match s.change f with
  | .ok s => s.withStatus 0
  | .error e => s.complain 1 s!"{failure}: {e.text}"

/-! ## Names -/

/-- A path without slashes at its end. -/
def withoutEndSlash (text : String) : List Char :=
  let cs := (text.toList.reverse.dropWhile (· = '/')).reverse
  if cs.isEmpty && text != "" then ['/'] else cs

/-- The last name of a path. -/
def lastName (text : String) : String :=
  let cs := withoutEndSlash text
  if cs = ['/'] then "/" else String.ofList (cs.reverse.takeWhile (· != '/')).reverse

def basename : Utility := fun arguments s =>
  let name := (lastName (arguments.headD "")).toList
  let ending := (arguments[1]?.getD "").toList
  let cut := name != ending && ending.isSuffixOf name
  s.say (String.ofList (if cut then name.take (name.length - ending.length) else name) ++ "\n")

/-- A path without its last name. -/
def directoryOf (text : String) : String :=
  let before := (withoutEndSlash text).reverse.dropWhile (· != '/')
  if withoutEndSlash text = ['/'] then "/"
  else if before.isEmpty then "."
  else String.ofList (withoutEndSlash (String.ofList before.reverse))

def dirname : Utility := forEach fun s a => s.say (directoryOf a ++ "\n")

/-! ## Reading -/

/-- How many zeros are read at most where there is no end of them. -/
def zeroCount : Nat := Nat.pow 2 20

/-- What can be read as `-`, or in a file; the session has read it. -/
def contentOf (s : Session) (name : String) : Except OsError (List Char × Session) :=
  if name = "-" || name = "/dev/stdin" then .ok (s.input, { s with input := [] })
  else if name = "/dev/null" then .ok ([], s)
  else if name = "/dev/zero" then .ok (List.replicate zeroCount (Char.ofNat 0), s)
  else (s.tree.read (s.path name)).map fun bytes => ((ofBytes bytes).toList, s)

/-- Hands what files hold to `f`, one after the other; without a file, what can be read. -/
def reading (name : String) (files : List String) (f : Session → String → List Char → Session)
    (s : Session) : Session :=
  forEach (fun s file =>
    match contentOf s file with
    | .ok (text, s) => f s file text
    | .error .isDirectory => s.complain 1 s!"{name}: {file}: Is a directory"
    | .error e => s.complain 1 s!"{name}: {file}: {e.text}") (if files.isEmpty then ["-"] else files) s

def cat : Utility := fun arguments s =>
  reading "cat" (options arguments).2 (fun s _ text => s.say (String.ofList text)) s

/-- The lines of a text with their line ends. -/
def linesOf (text : List Char) : List (List Char) :=
  let start : List Char × List (List Char) := ([], [])
  let (begun, lines) := text.foldl (fun (begun, lines) c =>
    if c = '\n' then ([], (c :: begun) :: lines) else (c :: begun, lines)) start
  ((if begun.isEmpty then lines else begun :: lines).map List.reverse).reverse

/-- A count among options, in their letters or after them, and the arguments without it. -/
def counted (letter : Char) (arguments : List String) : Option String × List String :=
  match arguments with
  | [] => (none, [])
  | a :: rest =>
    match a.toList with
    | '-' :: c :: more =>
      if c = letter then
        if more.isEmpty then (rest.head?, rest.drop 1) else (some (String.ofList more), rest)
      else if letter = 'n' && c.isDigit then (some (String.ofList (c :: more)), rest)
      else
        let (count, others) := counted letter rest
        (count, a :: others)
    | _ =>
      let (count, others) := counted letter rest
      (count, a :: others)

def headUtility : Utility := fun arguments s =>
  let (octets, rest) := counted 'c' arguments
  let (lines, files) := counted 'n' rest
  reading "head" files (fun s _ text =>
    match octets.bind String.toNat? with
    | some n => s.say (String.ofList (text.take n))
    | none => s.say (String.ofList (((linesOf text).take ((lines.bind String.toNat?).getD 10)).flatten))) s

def tailUtility : Utility := fun arguments s =>
  let (octets, rest) := counted 'c' arguments
  let (lines, files) := counted 'n' rest
  let lastOf {α : Type} (l : List α) (count : Option String) : List α :=
    match (count.getD "10").toList with
    | '+' :: n => l.drop (((String.ofList n).toNat?.getD 1) - 1)
    | n => l.drop (l.length - (String.ofList (n.dropWhile (· = '-'))).toNat?.getD 10)
  reading "tail" files (fun s _ text =>
    let last := if octets.isSome then lastOf text octets else (lastOf (linesOf text) lines).flatten
    s.say (String.ofList last)) s

/-- The words of a text. -/
def wordsOf (text : List Char) : Nat :=
  (text.foldl (fun (inWord, n) c =>
    if isSeparator c then (false, n) else (true, if inWord then n else n + 1)) (false, 0)).2

def wc : Utility := fun arguments s =>
  let (letters, files) := options arguments
  let all := letters.isEmpty
  let counts (text : List Char) : List Nat :=
    (if all || letters.contains 'l' then [text.count '\n'] else []) ++
    (if all || letters.contains 'w' then [wordsOf text] else []) ++
    (if all || letters.contains 'c' || letters.contains 'm' then [text.length] else [])
  reading "wc" files (fun s file text =>
    let numbers := (counts text).map toString
    let width := if numbers.length = 1 then 0 else if files.isEmpty then 7 else (toString text.length).length
    let padded := numbers.map fun n => "".pushn ' ' (width - n.length) ++ n
    s.say (" ".intercalate padded ++ (if files.isEmpty then "" else " " ++ file) ++ "\n")) s

/-- The characters that an argument of `tr` stands for. -/
def characterSet : Nat → List Char → List Char
  | 0, _ => []
  | _, [] => []
  | steps + 1, '\\' :: cs =>
    let (c, rest) := Format.escape cs
    c :: characterSet steps rest
  | steps + 1, a :: '-' :: b :: rest =>
    (List.range (b.toNat + 1 - a.toNat)).map (fun n => Char.ofNat (a.toNat + n)) ++ characterSet steps rest
  | steps + 1, a :: rest => a :: characterSet steps rest

def tr : Utility := fun arguments s =>
  let (letters, sets) := options arguments
  let setAt (n : Nat) : List Char :=
    let text := (sets[n]?.getD "").toList
    characterSet (text.length + 1) text
  let source := setAt 0
  let target := setAt 1
  let image (c : Char) : Char :=
    match source.idxOf? c with
    | some n => (target[n]?).getD (target.getLast?.getD c)
    | none => c
  let text := if letters.contains 'd' then s.input.filter fun c => !source.contains c else s.input.map image
  { s with input := [] }.say (String.ofList text)

def sortUtility : Utility := fun arguments s =>
  let (letters, files) := options arguments
  let (text, s) := files.foldl (fun (text, s) file =>
    match contentOf s file with
    | .ok (more, s) => (text ++ more, s)
    | .error _ => (text, s)) (if files.isEmpty then (s.input, { s with input := [] }) else ([], s))
  let lines := (linesOf text).map fun l => String.ofList (l.filter (· != '\n'))
  let number (l : String) : Int :=
    (Sum.number? (String.ofList (l.toList.takeWhile fun c => c.isDigit || c = '-'))).getD 0
  let before (a b : String) : Bool :=
    if letters.contains 'n' && number a != number b then number a < number b else a ≤ b
  let sorted := lines.mergeSort fun a b => if letters.contains 'r' then before b a else before a b
  let sorted := if letters.contains 'u' then sorted.eraseDups else sorted
  s.say (String.join (sorted.map (· ++ "\n")))

def tee : Utility := fun arguments s =>
  let (letters, files) := options arguments
  let text := String.ofList s.input
  let s := { s with input := [] }.say text
  forEach (fun s file =>
    let p := s.path file
    attempt s s!"tee: {file}" fun t =>
      if letters.contains 'a' then Session.appended p (toBytes text) t
      else t.write p (toBytes text) false) files s

/-- Numbers from one to another. -/
def seq : Utility := fun arguments s =>
  let number (n : Nat) : Int := ((arguments[n]?).bind Sum.number?).getD 1
  let (first, step, last) :=
    match arguments.length with
    | 1 => (1, 1, number 0)
    | 2 => (number 0, 1, number 1)
    | _ => (number 0, number 1, number 2)
  let count : Int := if step = 0 then 0 else (last - first).tdiv step + 1
  let isEmpty := step = 0 || (0 < step && last < first) || (step < 0 && first < last)
  let places := List.range (if isEmpty then 0 else count.toNat)
  s.say (String.join (places.map fun (n : Nat) => toString (first + step * (n : Int)) ++ "\n"))

/-- Says the same again and again, longer than anyone listens. -/
def yes : Utility := fun arguments s =>
  let line := (if arguments.isEmpty then "y" else " ".intercalate arguments) ++ "\n"
  { s.say (String.join (List.replicate 20000 line)) with flow := .stuck }

/-! ## Files -/

def mkdir : Utility := fun arguments s =>
  let (letters, names) := options arguments
  forEach (fun s a =>
    let failure := s!"mkdir: cannot create directory '{a}'"
    if letters.contains 'p' then
      match s.changePartly (·.makeAll (s.path a)) with
      | (s, none) => s.withStatus 0
      | (s, some e) => s.complain 1 s!"{failure}: {e.text}"
    else attempt s failure (·.makeDirectory (s.path a))) names s

/-- Removes a directory that is empty. -/
def removeEmpty (p : Path) (t : FileTree) : Except OsError FileTree := do
  match ← t.find? p false with
  | (loc, .directory) => if (t.children loc).isEmpty then .ok (t.erase loc) else .error .notEmpty
  | _ => .error .notDirectory

def rmdir : Utility := fun arguments s =>
  forEach (fun s a => attempt s s!"rmdir: failed to remove '{a}'" (removeEmpty (s.path a)))
    (options arguments).2 s

def rm : Utility := fun arguments s =>
  let (letters, names) := options arguments
  let whole := letters.contains 'r' || letters.contains 'R'
  forEach (fun s a =>
    let p := s.path a
    match s.tree.find? p false with
    | .error .notFound =>
      if letters.contains 'f' then s else s.complain 1 s!"rm: cannot remove '{a}': No such file or directory"
    | .ok (_, .directory) =>
      if whole then attempt s s!"rm: cannot remove '{a}'" (·.remove p)
      else s.complain 1 s!"rm: cannot remove '{a}': Is a directory"
    | _ => attempt s s!"rm: cannot remove '{a}'" (·.remove p)) names s

def touch : Utility := fun arguments s =>
  forEach (fun s a =>
    let p := s.path a
    if (s.tree.find? p true).toOption.isSome then s
    else attempt s s!"touch: cannot touch '{a}'" (·.write p [] false)) (options arguments).2 s

/-- A mode makes files executable, or keeps them from it; nothing if it leaves that open. -/
def modeOf (mode : String) : Option Bool :=
  let cs := mode.toList
  if cs.all Char.isDigit then
    (cs.drop (cs.length - 3)).head?.map fun c => (c.toNat - '0'.toNat) % 2 = 1
  else if !cs.contains 'x' then none
  else some (!cs.contains '-')

/-- The file at a path with another mode. -/
def withMode (p : Path) (executable : Bool) (t : FileTree) : Except OsError FileTree := do
  match ← t.find? p true with
  | (loc, .file content _) => .ok (t.put loc (.file content (.ofNew executable)))
  | _ => .ok t

def chmod : Utility := fun arguments s =>
  match arguments with
  | [] => s.complain 1 "chmod: missing operand"
  | mode :: names =>
    forEach (fun s a =>
      let p := s.path a
      match s.tree.find? p true, modeOf mode with
      | .error e, _ => s.complain 1 s!"chmod: cannot access '{a}': {e.text}"
      | .ok _, some executable => attempt s s!"chmod: {a}" (withMode p executable)
      | .ok _, none => s) names s

/-- A place for something of some name: the path itself, or one in it if it is a directory. -/
def placeFor (s : Session) (target source : String) : String :=
  if s.tree.isDirectory (s.path target) then
    (if target.endsWith "/" then target else target ++ "/") ++ lastName source
  else target

/-- What lies at a location and below it, put at another. -/
def grafted (source target : Location) (t : FileTree) : FileTree :=
  (t.entries.filter fun f => source.isPrefixOf f.1).foldl (fun t f =>
    t.put (target ++ f.1.drop source.length) f.2) t

/-- Copies a file, or a directory with all that lies below it. -/
def copied (source target : Path) (t : FileTree) : Except OsError FileTree := do
  match ← t.find? source true with
  | (_, .file _ .unreadable) => .error .permissionDenied
  | (_, .file content mode) =>
    let isNew := (t.find? target true).toOption.isNone
    t.write target content (isNew && mode = .executable)
  | (loc, _) => .ok (grafted loc (← t.locate target true) t)

def cp : Utility := fun arguments s =>
  let (letters, names) := options arguments
  let whole := letters.any fun c => c = 'r' || c = 'R' || c = 'a'
  match names.getLast? with
  | none => s.complain 1 "cp: missing file operand"
  | some target =>
    forEach (fun s a =>
      let place := placeFor s target a
      match s.tree.find? (s.path a) true with
      | .error e => s.complain 1 s!"cp: cannot stat '{a}': {e.text}"
      | .ok (_, .directory) =>
        if whole then attempt s s!"cp: cannot create directory '{place}'" (copied (s.path a) (s.path place))
        else s.complain 1 s!"cp: -r not specified; omitting directory '{a}'"
      | .ok _ => attempt s s!"cp: cannot create regular file '{place}'" (copied (s.path a) (s.path place)))
      names.dropLast s

def mv : Utility := fun arguments s =>
  let names := (options arguments).2
  match names.getLast? with
  | none => s.complain 1 "mv: missing file operand"
  | some target =>
    forEach (fun s a =>
      let place := placeFor s target a
      match s.tree.find? (s.path a) false with
      | .error e => s.complain 1 s!"mv: cannot stat '{a}': {e.text}"
      | .ok _ => attempt s s!"mv: cannot move '{a}' to '{place}'" (·.rename (s.path a) (s.path place)))
      names.dropLast s

def ln : Utility := fun arguments s =>
  let (letters, names) := options arguments
  match names with
  | source :: rest =>
    let place := placeFor s (rest.headD (lastName source)) source
    let p := s.path place
    let cleared (t : FileTree) : FileTree :=
      if letters.contains 'f' then (t.remove p).toOption.getD t else t
    if letters.contains 's' then
      attempt s s!"ln: failed to create symbolic link '{place}'" fun t =>
        (cleared t).makeLink (toText source) p
    else
      attempt s s!"ln: failed to create hard link '{place}'" fun t =>
        copied (s.path source) p (cleared t)
  | [] => s.complain 1 "ln: missing file operand"

def ls : Utility := fun arguments s =>
  let (letters, names) := options arguments
  let shown (name : String) : Bool := !name.startsWith "." || letters.contains 'A' || letters.contains 'a'
  let list (s : Session) (p : Path) : List String :=
    let names := ((s.tree.readDirectory p).toOption.getD []).map fun e => ofText e.1
    (if letters.contains 'a' then [".", ".."] else []) ++ names.filter shown
  let each := if names.isEmpty then ["."] else names.mergeSort fun a b => a ≤ b
  let isDirectory (s : Session) (a : String) : Bool := s.tree.isDirectory (s.path a) && !letters.contains 'd'
  let t := forEach (fun s a =>
    match s.tree.find? (s.path a) false with
    | .error e => s.complain 2 s!"ls: cannot access '{a}': {e.text}"
    | .ok _ => if isDirectory s a then s else s.say (a ++ "\n")) each s
  let (u, _) := (each.filter (isDirectory s)).foldl (fun (u, isFirst) a =>
    let title := if names.length < 2 then "" else (if isFirst then "" else "\n") ++ a ++ ":\n"
    (u.say (title ++ String.join ((list s (s.path a)).map (· ++ "\n"))), false))
    (t, each.all (isDirectory s))
  u.withStatus t.status

/-! ## All of them -/

/-- Utilities by name that do nothing but read, write and end. -/
def table : List (String × Utility) :=
  [("true", fun _ s => s.withStatus 0), ("false", fun _ s => s.withStatus 1), ("basename", basename),
    ("dirname", dirname), ("cat", cat), ("head", headUtility), ("tail", tailUtility), ("wc", wc),
    ("tr", tr), ("sort", sortUtility), ("tee", tee), ("seq", seq), ("yes", yes), ("mkdir", mkdir),
    ("rmdir", rmdir), ("rm", rm), ("touch", touch), ("chmod", chmod), ("cp", cp), ("mv", mv),
    ("ln", ln), ("ls", ls)]

end Utility

end Wheelwright.Shell
