/-
  Runs — what the statements of a script do.

  **Program** — a statement takes a session to the session after it.  A strict shell is ended by a
  statement that fails, unless it is asked whether the statement fails.

  **The crux** — scripts need not end.  Statements lie in each other only so deep, and a loop goes
  only so many rounds; a script that goes beyond is one of which nothing more will ever be seen.
-/
import Wheelwright.Shell.Expansion
import Wheelwright.Shell.Program
import Wheelwright.Shell.Reader

namespace Wheelwright.Shell

/-- How one statement is run, given whether its failure decides something. -/
abbrev StatementRunner := Bool → Statement → Session → Session

/-- More rounds of one loop than a script takes that is still of interest. -/
def roundLimit : Nat := 50000

/-! ## Lists, scripts and children -/

/-- Statements one after the other. -/
def runList (run : StatementRunner) (isAsked : Bool) (body : List Statement) (s : Session) : Session :=
  body.foldl (fun s statement => if s.flow = .onward then run isAsked statement s else s) s

/-- The statements of a text. -/
def runText (run : StatementRunner) (isAsked : Bool) (text : String) (s : Session) : Session :=
  match parse? text with
  | some body => runList run isAsked body { s with line := 1 }
  | none => { s.complainHere 2 "Syntax error" with flow := .exiting }

/-- What was sprung is done; the status stays. -/
def answerTraps (run : StatementRunner) (s : Session) : Session :=
  s.sprung.foldl (fun s action =>
    if s.flow = .killed || s.flow = .stuck then s
    else
      let t := runText run false action { s with flow := .onward }
      if t.flow = .onward then { t with status := s.status, flow := s.flow } else t) { s with sprung := [] }

/-- A shell ends; what it does on its exit is done. -/
def leave (run : StatementRunner) (s : Session) : Session :=
  match s.flow, s.traps.lookup "EXIT" with
  | .killed, _ | .stuck, _ => s
  | _, some action =>
    let traps := s.traps.filter fun t => t.1 != "EXIT"
    let t := runText run false action { s with flow := .onward, traps }
    if t.flow = .onward then { t with status := s.status, flow := .exiting } else t
  | _, none => { s with flow := .exiting }

/-- Statements run by a child that the shell waits for. -/
def inChild (body : Session → Session) (s : Session) : Session := s.after (body s.child)

/-! ## Programs -/

/-- The shell as a program: a text after `-c`, a file, or its input. -/
def shellProgram (run : StatementRunner) (arguments : List String) (s : Session) : Session :=
  let settings := arguments.takeWhile fun a => Utility.isOption a && a != "--"
  let rest := arguments.drop settings.length
  let rest := if rest.head? = some "--" then rest.tail else rest
  let letters := settings.flatMap String.toList
  let strict (s : Session) : Session := { s with isStrict := letters.contains 'e' }
  leave run <|
    if letters.contains 'c' then
      match rest with
      | [] => (s.complain 2 "sh: 0: -c requires an argument")
      | text :: more => runText run false text (strict (asShell (more.headD "sh") more.tail s))
    else
      match rest with
      | [] => runText run false (String.ofList s.input) (strict (asShell "sh" [] { s with input := [] }))
      | file :: more =>
        match s.tree.read (s.path file) with
        | .ok bytes => runText run false (ofBytes bytes) (strict (asShell file more s))
        | .error _ => s.complain 2 s!"sh: 0: cannot open {file}: No such file"

/-- One of the usual programs; `itself` if the process has become it. -/
def usualProgram (run : StatementRunner) (itself : Bool) (name : String) (arguments : List String)
    (s : Session) : Session :=
  match name with
  | "sleep" =>
    match arguments.mapM milliseconds? with
    | some times =>
      let ms := times.foldl (· + ·) 0
      if itself then s.sleepItself ms else s.sleep ms
    | none =>
      let given := arguments.headD ""
      s.complain 1 s!"sleep: invalid time interval '{given}'"
  | "echo" => s.say (Format.echoProgram arguments)
  | "printf" => Builtin.printf arguments s
  | "test" => Condition.run s arguments
  | "[" => Builtin.bracket arguments s
  | "pwd" => Builtin.pwd arguments s
  | "kill" => Builtin.kill arguments s
  | "env" => s.say (environmentText s)
  | "printenv" =>
    match arguments with
    | [] => s.say (environmentText s)
    | a :: _ =>
      match s.valueOf? a with
      | some value => if s.exported.contains a then s.say (value ++ "\n") else s.withStatus 1
      | none => s.withStatus 1
  | _ =>
    match Utility.table.lookup name with
    | some utility => utility arguments s
    | none =>
      if itself then shellProgram run arguments s
      else inChild (shellProgram run arguments) s

/-- A file that is a program; `itself` if the process has become it. -/
def fileProgram (run : StatementRunner) (itself : Bool) (path : String) (arguments : List String)
    (s : Session) : Session :=
  match s.tree.read (s.path path) with
  | .error _ => s.complainHere 127 s!"{path}: not found"
  | .ok bytes =>
    match shellOptions? (ofBytes bytes).toList with
    | none => s.complainHere 127 s!"{path}: not found"
    | some options =>
      let script (s : Session) : Session := shellProgram run (options ++ path :: arguments) s
      if itself then script s else inChild script s

/-- The program of a name. -/
def runProgram (run : StatementRunner) (itself : Bool) (name : String) (arguments : List String)
    (s : Session) : Session :=
  let s :=
    match find s name with
    | .usual program => usualProgram run itself program arguments s
    | .file path => fileProgram run itself path arguments s
    | .missing => s.complainHere 127 s!"{name}: not found"
    | .forbidden => s.complainHere 126 s!"{name}: Permission denied"
  if itself && s.flow = .onward then { s with flow := .exiting } else s

/-! ## Simple statements -/

/-- Where a file goes that is written to. -/
def outletFor (s : Session) (appends : Bool) (target : String) : Except String (Session × Outlet) :=
  match target with
  | "/dev/null" => .ok (s, .nowhere)
  | "/dev/stdout" => .ok (s, s.outlet 1)
  | "/dev/stderr" => .ok (s, s.outlet 2)
  | _ =>
    let p := s.path target
    match s.change fun t => if appends then Session.appended p [] t else t.write p [] false with
    | .ok s => .ok (s, .file p)
    | .error .notFound => .error s!"cannot create {target}: Directory nonexistent"
    | .error e => .error s!"cannot create {target}: {e.text}"

/-- A redirection is made; the message if it cannot be. -/
def redirect (run : Runner) (s : Session) : Redirection → Session × Option String
  | .mk descriptor kind target =>
    let (text, s) := expandText run s target
    match kind with
    | .duplicate =>
      if descriptor = 0 then ({ s with input := if text = "0" then s.input else [] }, none)
      else
        match text.toNat? with
        | some n =>
          if s.outlet n = .closed && n != 0 then (s, some s!"{n}: Bad file descriptor")
          else (s.setOutlet descriptor (s.outlet n), none)
        | none => (s.setOutlet descriptor .closed, none)
    | .here => ({ s with input := text.toList }, none)
    | .input =>
      match Utility.contentOf s text with
      | .ok (content, s) => ({ s with input := content }, none)
      | .error .notFound => (s, some s!"cannot open {text}: No such file")
      | .error e => (s, some s!"cannot open {text}: {e.text}")
    | .output | .append =>
      match outletFor s (kind = .append) text with
      | .ok (s, outlet) => (s.setOutlet descriptor outlet, none)
      | .error message => (s, some message)

/-- Redirections are made up to the first that cannot be. -/
def redirectAll (run : Runner) (s : Session) : List Redirection → Session × Option String
  | [] => (s, none)
  | r :: rest =>
    match redirect run s r with
    | (s, none) => redirectAll run s rest
    | (s, some message) => (s, some message)

/-- Runs something with redirections, which are undone after it unless they are kept; `refuse` is
    what follows a redirection that cannot be made. -/
def redirected (run : Runner) (all : List Redirection) (keeps : Bool) (refuse body : Session → Session)
    (s : Session) : Session :=
  match redirectAll run s all with
  | (t, none) =>
    let t := body t
    let ownInput := all.any fun | .mk descriptor _ _ => descriptor = 0
    if keeps then t else { t with outlets := s.outlets, input := if ownInput then s.input else t.input }
  | (t, some message) => refuse ({ t with outlets := s.outlets, input := s.input }.complainHere 2 message)

/-- Variables are set to expanded values. -/
def assignAll (run : Runner) (s : Session) : List (String × Word) → Session
  | [] => s
  | (name, value) :: rest =>
    let (text, s) := expandText run s value
    assignAll run (s.assign name text) rest

/-- A function of the script is called. -/
def call (run : StatementRunner) (isAsked : Bool) (body : Statement) (arguments : List String)
    (s : Session) : Session :=
  let t := run isAsked body { s with arguments }
  { t with arguments := s.arguments, flow := if t.flow = .returning then .onward else t.flow }

/-- Builtins that run statements; nothing for another name. -/
def runBuiltin? (run : StatementRunner) (isAsked : Bool) (name : String) (arguments : List String) :
    Option (Session → Session) :=
  match name with
  | "eval" => some fun s => runText run isAsked (" ".intercalate arguments) { s with status := 0 }
  | "." => some fun s =>
    let file := arguments.headD ""
    match s.tree.read (s.path file) with
    | .ok bytes =>
      let t := runText run isAsked (ofBytes bytes) s
      { t with flow := if t.flow = .returning then .onward else t.flow }
    | .error _ => { s.complainHere 2 s!".: cannot open {file}: No such file" with flow := .exiting }
  | "exec" => some fun s =>
    match arguments with
    | [] => s.withStatus 0
    | name :: rest =>
      match find s name with
      | .missing => { s.complainHere 127 s!"exec: {name}: not found" with flow := .exiting }
      | .forbidden => { s.complainHere 126 s!"exec: {name}: Permission denied" with flow := .exiting }
      | _ => runProgram run true name rest s
  | "command" =>
    match arguments with
    | "-v" :: name :: _ => some fun s => if isKnown s name then s.say (name ++ "\n") else s.withStatus 127
    | name :: rest =>
      match (Builtin.special ++ Builtin.regular).lookup name with
      | some builtin => some (builtin rest)
      | none => some (runProgram run false name rest)
    | [] => some (·.withStatus 0)
  | _ => (Builtin.special.lookup name).map fun builtin => builtin arguments

/-- A program or builtin of a name with its arguments. -/
def dispatch (run : StatementRunner) (isAsked : Bool) (name : String) (arguments : List String)
    (s : Session) : Session :=
  match runBuiltin? run isAsked name arguments, s.functions.lookup name, Builtin.regular.lookup name with
  | some builtin, _, _ => builtin s
  | none, some body, _ => call run isAsked body arguments s
  | none, none, some builtin => builtin arguments s
  | none, none, none =>
    match name, arguments with
    | "env", a :: rest =>
      if a.toList.contains '=' then
        runProgram run false (rest.headD "env") rest.tail (Builtin.exporting [a] s)
      else runProgram run false a rest s
    | _, _ => runProgram run false name arguments s

/-- A simple statement. -/
def runSimple (run : StatementRunner) (isAsked : Bool) (line : Nat) (assignments : List (String × Word))
    (words : List Word) (redirections : List Redirection) (s : Session) : Session :=
  let lists : Runner := fun body s => leave run (runList run false body s)
  let before := s.status
  let s := { s with line }
  let (texts, t) := expandWords lists s words
  if t.flow != .onward then t
  else
    match texts with
    | [] =>
      let t := if words.isEmpty then t.withStatus 0 else t
      redirected lists redirections false id (fun t => assignAll lists t assignments) t
    | name :: arguments =>
      let isSpecial := name = "exec" || (Builtin.special.lookup name).isSome
      let refuse (s : Session) : Session := if isSpecial then { s with flow := .exiting } else s
      let body (u : Session) : Session :=
        let v := assignAll lists u assignments
        if isSpecial then dispatch run isAsked name arguments v
        else
          let v := dispatch run isAsked name arguments (assignments.foldl (fun s a => s.exports a.1) v)
          if assignments.isEmpty then v else { v with values := u.values, exported := u.exported }
      redirected lists redirections (name = "exec" && arguments.isEmpty) refuse body (t.withStatus before)

/-! ## Loops -/

/-- Rounds of a loop as long as there is another, at most so many. -/
def rounds (round : Session → Session × Bool) : Nat → Session → Session
  | 0, s => { s with flow := .stuck }
  | n + 1, s =>
    match round s with
    | (s, true) => rounds round n s
    | (s, false) => s

/-- The session after the body of a loop, and whether the loop goes on. -/
def afterBody (s : Session) : Session × Bool :=
  match s.flow with
  | .onward => (s, true)
  | .leaving n => ({ s with flow := if n ≤ 1 then .onward else .leaving (n - 1) }, false)
  | .again n => ({ s with flow := if n ≤ 1 then .onward else .again (n - 1) }, n ≤ 1)
  | _ => (s, false)

/-- A loop with a condition. -/
def runLoop (run : StatementRunner) (endsWhenTrue : Bool) (condition body : List Statement)
    (s : Session) : Session :=
  let round (s : Session) : Session × Bool :=
    let t := runList run true condition s
    if t.flow != .onward then afterBody t
    else if (t.status = 0) = endsWhenTrue then (t.withStatus s.status, false)
    else afterBody (runList run false body t)
  rounds round roundLimit (s.withStatus 0)

/-- A loop over values. -/
def runEach (run : StatementRunner) (name : String) (body : List Statement) : List String → Session → Session
  | [], s => s
  | value :: rest, s =>
    match afterBody (runList run false body (s.assign name value)) with
    | (s, true) => runEach run name body rest s
    | (s, false) => s

/-- The statements of the first case that fits a text. -/
def chooseCase (lists : Runner) (s : Session) (text : String) :
    List (List Word × List Statement) → Session × List Statement
  | [] => (s, [])
  | (patterns, body) :: rest =>
    let (s, found) := patterns.foldl (fun (s, found) p =>
      if found then (s, true)
      else
        let (marks, s) := expandWord lists s p
        (s, matchesPattern (patternOf marks) text.toList)) (s, false)
    if found then (s, body) else chooseCase lists s text rest

/-! ## Statements -/

/-- Two statements beside each other, the second reading what the first writes. -/
def runPipe (run : StatementRunner) (first second : Statement) (s : Session) : Session :=
  let c := leave run (run false first { s.child.setOutlet 1 .kept with kept := [] })
  let text := (String.join c.kept.reverse).toList
  let s := s.beside c
  let ready := if c.flow = .stuck then s.now else c.now
  let d := leave run (run false second ({ s.child with input := text }.clock ready))
  let s := s.after { d with kept := s.kept }
  if c.flow = .stuck then s.stop c.owner "PIPE" else s

/-- A statement that failed ends a strict shell, unless its failure decides something. -/
def strictly (isAsked : Bool) (s : Session) : Session :=
  if s.isStrict && !isAsked && s.status != 0 && s.flow = .onward then { s with flow := .exiting } else s

/-- A statement, those in it lying at most so deep. -/
def runStatement : Nat → StatementRunner
  | 0, _, _, s => { s with flow := .stuck }
  | depth + 1, isAsked, statement, s =>
    let run : StatementRunner := runStatement depth
    let lists : Runner := fun body s => leave run (runList run false body s)
    let t :=
      match statement with
      | .simple line assignments words redirections =>
        strictly isAsked (runSimple run isAsked line assignments words redirections s)
      | .pipe first second => strictly isAsked (runPipe run first second s)
      | .both first second =>
        let t := run true first s
        if t.flow = .onward && t.status = 0 then run isAsked second t else t
      | .either first second =>
        let t := run true first s
        if t.flow = .onward && t.status != 0 then run isAsked second t else t
      | .negated body =>
        let t := run true body s
        if t.flow = .onward then t.withStatus (if t.status = 0 then 1 else 0) else t
      | .background body =>
        let c := leave run (run false body { s.child with input := [] })
        { (s.beside c).withStatus 0 with latest := some c.owner }
      | .group false body redirections => redirected lists redirections false id (runList run isAsked body) s
      | .group true body redirections =>
        let inside (c : Session) : Session := leave run (runList run isAsked body c)
        strictly isAsked (redirected lists redirections false id (inChild inside) s)
      | .branch condition yes no =>
        let t := runList run true condition s
        if t.flow != .onward then t
        else if t.status = 0 then runList run isAsked yes t
        else runList run isAsked no (t.withStatus 0)
      | .loop endsWhenTrue condition body => runLoop run endsWhenTrue condition body s
      | .each name words body =>
        let (values, s) :=
          match words with
          | some words => expandWords lists s words
          | none => (s.arguments, s)
        runEach run name body values (s.withStatus 0)
      | .choice word cases =>
        let (text, s) := expandText lists s word
        let (s, body) := chooseCase lists s text cases
        runList run isAsked body (s.withStatus 0)
      | .define name body => { s.withStatus 0 with functions := (name, body) :: s.functions }
    if t.sprung.isEmpty then t else answerTraps run t

/-- How deep the statements of a script lie in each other, calls of functions counted in. -/
def depthLimit : Nat := 1000

end Wheelwright.Shell
