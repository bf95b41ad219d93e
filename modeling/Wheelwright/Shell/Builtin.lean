/-
  Builtins — what a shell does itself because it concerns the shell.

  A builtin has the form of a utility.  Those that run statements are not here: they need the shell
  that runs them.
-/
import Wheelwright.Shell.Utility

namespace Wheelwright.Shell.Builtin

/-! ## The end of things -/

/-- Ends the shell, or what else the flow says, with a status. -/
def ending (name : String) (flow : Flow) : Utility := fun arguments s =>
  match arguments.head? with
  | none => { s with flow }
  | some a =>
    match a.toNat? with
    | some n => { s.withStatus (n % 256) with flow }
    | none => { s.complainHere 2 s!"{name}: Illegal number: {a}" with flow := .exiting }

/-- Leaves loops, or goes on with the next round of one. -/
def looping (flow : Nat → Flow) : Utility := fun arguments s =>
  { s.withStatus 0 with flow := flow (max 1 (((arguments.head?).bind String.toNat?).getD 1)) }

/-! ## Directories -/

/-- Names on a way with `.` and `..` worked off. -/
def straightened (names : List String) : List String :=
  (names.foldl (fun done n =>
    if isIdlePiece n then done else if n = ".." then done.tail else n :: done) []).reverse

def cd : Utility := fun arguments s =>
  let target :=
    match arguments.filter (· != "--") with
    | [] => (s.valueOf? "HOME").getD "/"
    | "-" :: _ => (s.valueOf? "OLDPWD").getD ""
    | a :: _ => a
  let p : Path := ⟨"/" ++ "/".intercalate (straightened (piecesOf '/' (s.path target).text))⟩
  if target != "" && s.tree.isDirectory (s.path target) then
    let s := (s.assign "OLDPWD" (ofText s.directory.text)).assign "PWD" (ofText p.text)
    let s := { s with directory := p }
    if arguments.head? = some "-" then s.say (ofText p.text ++ "\n") else s.withStatus 0
  else s.complainHere 2 s!"cd: can't cd to {target}"

def pwd : Utility := fun _ s => s.say (ofText s.directory.text ++ "\n")

/-! ## Variables -/

/-- The name and the value in an argument. -/
def binding (a : String) : String × Option String :=
  let name := a.toList.takeWhile (· != '=')
  match a.toList.drop name.length with
  | _ :: value => (String.ofList name, some (String.ofList value))
  | [] => (a, none)

/-- Sets variables. -/
def declare : Utility := fun arguments s =>
  (arguments.foldl (fun s a =>
    match binding a with
    | (name, some value) => s.assign name value
    | (_, none) => s) s).withStatus 0

def exporting : Utility := fun arguments s =>
  let names := arguments.filter fun a => !a.startsWith "-"
  names.foldl (fun s a => s.exports (binding a).1) (declare arguments s)

def unset : Utility := fun arguments s =>
  ((arguments.filter fun a => !a.startsWith "-").foldl (fun s a =>
    { s.unset a with functions := s.functions.filter fun f => f.1 != a }) s).withStatus 0

def shift : Utility := fun arguments s =>
  let n := ((arguments.head?).bind String.toNat?).getD 1
  if n ≤ s.arguments.length then { s.withStatus 0 with arguments := s.arguments.drop n }
  else { s.complainHere 2 "shift: can't shift that many" with flow := .exiting }

/-- Sets options of the shell, and its arguments if there are some. -/
def set : Utility := fun arguments s =>
  let isSetting (a : String) : Bool := Utility.isOption a || a.startsWith "+"
  let settings := arguments.takeWhile fun a => isSetting a && a != "--"
  let s := settings.foldl (fun s a =>
    if a.toList.contains 'e' then { s with isStrict := a.startsWith "-" } else s) (s.withStatus 0)
  match arguments.drop settings.length with
  | [] => s
  | "--" :: rest => { s with arguments := rest }
  | rest => { s with arguments := rest }

/-- The value for each name: one field, and for the last name all that is left. -/
def assignFields (s : Session) : List String → List Char → Session
  | [], _ => s
  | [name], line =>
    s.assign name (String.ofList ((line.dropWhile isSeparator).reverse.dropWhile isSeparator).reverse)
  | name :: rest, line =>
    let line := line.dropWhile isSeparator
    let field := line.takeWhile fun c => !isSeparator c
    assignFields (s.assign name (String.ofList field)) rest (line.drop field.length)

/-- A line of input, and whether it was ended; backslashes join lines unless they are kept. -/
def inputLine (keeps : Bool) : Nat → List Char → List Char × Bool × List Char
  | 0, cs => ([], false, cs)
  | _, [] => ([], false, [])
  | steps + 1, c :: rest =>
    if c = '\n' then ([], true, rest)
    else
      let (line, ended, after) :=
        if c = '\\' && !keeps then inputLine keeps steps (rest.drop 1) else inputLine keeps steps rest
      if c = '\\' && !keeps then
        ((rest.take 1).filter (· != '\n') ++ line, ended, after)
      else (c :: line, ended, after)

def read : Utility := fun arguments s =>
  let names := arguments.filter fun a => !a.startsWith "-"
  let (line, ended, rest) := inputLine (arguments.contains "-r") (s.input.length + 1) s.input
  (assignFields { s with input := rest } names line).withStatus (if ended then 0 else 1)

/-! ## Signals and children -/

/-- Sends a signal to the process of a number. -/
def send (signal : String) (s : Session) (target : String) : Session :=
  match target.toNat? with
  | none => s.complainHere 1 s!"kill: Illegal number: {target}"
  | some number =>
    let id := number - Session.processNumber
    if number < Session.processNumber || s.born < id then s.complainHere 1 "kill: No such process"
    else if signal = "EXIT" then s.withStatus 0
    else if id = s.shell then (s.withStatus 0).receive signal
    else (s.stop id signal).withStatus 0

def kill : Utility := fun arguments s =>
  let (signal, targets) :=
    match arguments with
    | "-s" :: name :: rest => (some name, rest)
    | a :: rest =>
      if Utility.isOption a && a != "--" then (some (a.drop 1).toString, rest) else (none, arguments)
    | [] => (none, [])
  let targets := targets.filter (· != "--")
  match Session.signalName? (signal.getD "TERM") with
  | none =>
    let given := signal.getD ""
    s.complainHere 2 s!"kill: Illegal option -{given}"
  | some name => targets.foldl (send name) (s.withStatus 0)

/-- Waits for children: all of them, or some with the status of the last. -/
def wait : Utility := fun arguments s =>
  let ids := (arguments.filterMap String.toNat?).map fun n => n - Session.processNumber
  let awaited := if arguments.isEmpty then s.jobs else s.jobs.filter fun j => ids.contains j.id
  let time := awaited.foldl (fun t j => max t j.ends) s.now
  let t := s.waitUntil time true
  if t.flow != .onward then t
  else if !t.sprung.isEmpty then t.withStatus (128 + Session.signalNumber "TERM")
  else if s.now + Nat.pow 10 9 ≤ time then { t with flow := .stuck }
  else
    match ids.getLast? with
    | none => t.withStatus 0
    | some id =>
      match t.jobs.find? fun j => j.id = id with
      | none => t.withStatus 127
      | some j => (if j.wasKilled then t.tellKilled j.status else t).withStatus j.status

/-- Sets what is done on signals. -/
def trap : Utility := fun arguments s =>
  let clear (s : Session) (name : String) : Session :=
    { s with traps := s.traps.filter fun t => t.1 != name }
  let arguments := if arguments.head? = some "--" then arguments.tail else arguments
  match arguments with
  | [] => s.withStatus 0
  | action :: names =>
    let resets := action = "-" || (names.isEmpty && (Session.signalName? action).isSome)
    let names := (if names.isEmpty then [action] else names).filterMap Session.signalName?
    (names.foldl (fun s name =>
      let s := clear s name
      if resets then s else { s with traps := (name, action) :: s.traps }) s).withStatus 0

/-! ## Output -/

def echo : Utility := fun arguments s => s.say (Format.echo arguments)

def printf : Utility := fun arguments s =>
  match if arguments.head? = some "--" then arguments.tail else arguments with
  | [] => s.complainHere 2 "printf: usage: printf format [arg ...]"
  | format :: rest =>
    let (text, refused) := Format.printf format rest
    refused.foldl (fun s a => s.complainHere 1 s!"printf: {a}: expected numeric value") (s.say text)

/-- A condition in brackets. -/
def bracket : Utility := fun arguments s =>
  if arguments.getLast? = some "]" then Condition.run s arguments.dropLast
  else s.complainHere 2 "[: missing ]"

/-! ## All of them -/

/-- Builtins that keep what is assigned before them, and end the shell when their output cannot be
    redirected. -/
def special : List (String × Utility) :=
  [(":", fun _ s => s.withStatus 0), ("exit", ending "exit" .exiting),
    ("return", ending "return" .returning), ("break", looping .leaving), ("continue", looping .again),
    ("export", exporting), ("readonly", declare), ("unset", unset), ("shift", shift), ("set", set),
    ("trap", trap)]

/-- The other builtins. -/
def regular : List (String × Utility) :=
  [("cd", cd), ("pwd", pwd), ("local", declare), ("read", read), ("kill", kill), ("wait", wait),
    ("echo", echo), ("printf", printf), ("test", fun words s => Condition.run s words), ("[", bracket),
    ("umask", fun _ s => s.withStatus 0)]

end Wheelwright.Shell.Builtin
