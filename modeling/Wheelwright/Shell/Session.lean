/-
  Sessions — the state of a shell that runs a script.

  **Text** — a shell knows octets, not characters.  So its texts hold one character for each octet,
  and are translated where they meet paths, names of programs and the script itself.

  **Time** — a session has a clock, which only moves while the shell waits for something.  When the
  shell is asked to end, nothing happens before it waits beyond that moment.

  **Children** — a part of a script that runs beside the shell is a job.  It is run to its end when
  it starts, on a session of its own whose clock goes ahead; what it writes has an owner, and what
  it does to files is seen by the shell when its time has come.
-/
import Wheelwright.Process.Course
import Wheelwright.Shell.Basic

namespace Wheelwright.Shell

/-! ## Octets as text -/

/-- Octets, one character each. -/
def ofBytes (bytes : Bytes) : String := String.ofList (bytes.map fun b => Char.ofNat b.toNat)

def toBytes (s : String) : Bytes := s.toList.map fun c => c.toNat.toUInt8

/-- The octets of a text. -/
def ofText (s : String) : String := ofBytes (Utf8.encode s)

/-- What octets say. -/
def toText (s : String) : String := Utf8.decodeLossy (toBytes s)

theorem toBytes_ofBytes (bytes : Bytes) : toBytes (ofBytes bytes) = bytes := by
  have h (b : UInt8) : UInt8.ofNat (Char.ofNat b.toNat).toNat = b := by
    have hb : b.toNat.isValidChar := .inl (by have := b.toNat_lt; omega)
    have hchar : (Char.ofNat b.toNat).toNat = b.toNat := by
      rw [Char.ofNat, dif_pos hb]
      rfl
    rw [hchar, UInt8.ofNat_toNat]
  induction bytes with
  | nil => rfl
  | cons b rest ih => simp_all [toBytes, ofBytes]

/-! ## State -/

/-- Where a descriptor leads. -/
inductive Outlet where
  | stream (s : OutputStream)
  | file (p : Path)
  /-- To the shell, which keeps it. -/
  | kept
  | nowhere
  | closed
  deriving DecidableEq

/-- How a session goes on after a statement. -/
inductive Flow where
  | onward
  | leaving (loops : Nat)
  | again (loops : Nat)
  | returning
  | exiting
  /-- A signal ended the process. -/
  | killed
  /-- Nothing more will ever be done. -/
  | stuck
  deriving DecidableEq

/-- A child of the shell. -/
structure Job where
  id : Nat
  start : Nat
  ends : Nat
  status : Nat
  /-- It can write where the process writes. -/
  holds : Bool
  /-- A signal ended it. -/
  wasKilled : Bool := false

/-- Something done to files, by whom and when. -/
structure Deed where
  owner : Nat
  time : Nat
  change : FileTree → FileTree

structure Session where
  tree : FileTree
  directory : Path
  name : String
  arguments : List String := []
  values : List (String × String) := []
  exported : List String := []
  functions : List (String × Statement) := []
  /-- What is done on a signal, or on the exit; nothing at all is done on an empty text. -/
  traps : List (String × String) := []
  outlets : List (Nat × Outlet) := [(1, .stream .stdout), (2, .stream .stderr)]
  /-- What can be read. -/
  input : List Char := []
  status : Nat := 0
  line : Nat := 1
  /-- A statement that fails ends the shell. -/
  isStrict : Bool := false
  flow : Flow := .onward
  now : Nat := 0
  /-- When the process will be asked to end. -/
  asked : Option Nat := none
  /-- Traps that were sprung and wait for the end of a statement. -/
  sprung : List String := []
  /-- Zero in the process itself, else the number of the job that runs. -/
  owner : Nat := 0
  /-- The owner that the shell was when it started. -/
  shell : Nat := 0
  /-- How many children there have been. -/
  born : Nat := 0
  /-- Children that were run, the latest first. -/
  jobs : List Job := []
  /-- When programs started and ended that could write where the process writes. -/
  holders : List (Nat × Nat) := []
  /-- The job that was started last without being waited for. -/
  latest : Option Nat := none
  /-- The latest first. -/
  kept : List String := []
  /-- What was written and by whom, the latest first. -/
  chunks : List (Nat × Chunk) := []
  /-- What was done to files, the latest first. -/
  deeds : List Deed := []
  /-- What children will have done to files. -/
  coming : List Deed := []

namespace Session

/-! ## Variables -/

def valueOf? (s : Session) (name : String) : Option String := s.values.lookup name

def unset (s : Session) (name : String) : Session :=
  { s with values := s.values.filter fun v => v.1 != name }

def assign (s : Session) (name value : String) : Session :=
  { s with values := (name, value) :: (s.unset name).values }

theorem valueOf?_unset (s : Session) (name : String) : (s.unset name).valueOf? name = none := by
  have h (a b : String) (_ : (a, b) ∈ s.values) (ha : ¬a = name) : ¬name = a := fun e => ha e.symm
  simpa [unset, valueOf?, List.lookup_eq_none_iff] using h

theorem valueOf?_assign (s : Session) (name value : String) :
    (s.assign name value).valueOf? name = some value := by
  simp [assign, valueOf?]

/-- Children see the variable. -/
def exports (s : Session) (name : String) : Session :=
  if s.exported.contains name then s else { s with exported := name :: s.exported }

/-- The number that stands for the process; those of its children come after it. -/
def processNumber : Nat := 4096

/-- The value of a parameter. -/
def parameter? (s : Session) (name : String) : Option String :=
  match name with
  | "?" => some (toString s.status)
  | "#" => some (toString s.arguments.length)
  | "$" => some (toString (processNumber + s.shell))
  | "!" => s.latest.map fun n => toString (processNumber + n)
  | "-" => some (if s.isStrict then "e" else "")
  | "@" | "*" => if s.arguments.isEmpty then none else some (" ".intercalate s.arguments)
  | "0" => some s.name
  | _ =>
    match name.toNat? with
    | some n => s.arguments[n - 1]?
    | none => s.valueOf? name

/-! ## Files and output -/

/-- The path of a text as seen from the shell's directory. -/
def path (s : Session) (text : String) : Path :=
  if text = "" then ⟨""⟩ else s.directory.join ⟨toText text⟩

/-- Does something to files now. -/
def change (s : Session) (f : FileTree → Except OsError FileTree) : Except OsError Session :=
  match f s.tree with
  | .error e => .error e
  | .ok tree =>
    let deed : Deed := { owner := s.owner, time := s.now, change := fun t => (f t).toOption.getD t }
    .ok { s with tree, deeds := deed :: s.deeds }

/-- Does something to files now that may fail half-way, and keeps what was done until then. -/
def changePartly (s : Session) (f : FileTree → FileTree × Option OsError) : Session × Option OsError :=
  let (tree, e) := f s.tree
  ({ s with tree, deeds := { owner := s.owner, time := s.now, change := fun t => (f t).1 } :: s.deeds }, e)

def withStatus (s : Session) (status : Nat) : Session := { s with status }

/-- Where a descriptor leads. -/
def outlet (s : Session) (descriptor : Nat) : Outlet := (s.outlets.lookup descriptor).getD .closed

def setOutlet (s : Session) (descriptor : Nat) (o : Outlet) : Session :=
  { s with outlets := (descriptor, o) :: s.outlets.filter fun e => e.1 != descriptor }

theorem outlet_setOutlet (s : Session) (descriptor : Nat) (o : Outlet) :
    (s.setOutlet descriptor o).outlet descriptor = o := by
  simp [setOutlet, outlet]

/-- A file with something at its end. -/
def appended (p : Path) (bytes : Bytes) (t : FileTree) : Except OsError FileTree :=
  t.write p ((t.read p).toOption.getD [] ++ bytes) false

/-- Writes to a descriptor. -/
def emit (s : Session) (descriptor : Nat) (text : String) : Session :=
  if text.isEmpty then s
  else
    match s.outlet descriptor with
    | .stream stream =>
      let chunk : Chunk := { time := s.now, stream, bytes := toBytes text, detached := s.owner != 0 }
      { s with chunks := (s.owner, chunk) :: s.chunks }
    | .file p => (s.change (appended p (toBytes text))).toOption.getD (s.withStatus 1)
    | .kept => { s with kept := text :: s.kept }
    | .nowhere => s
    | .closed => s.withStatus 1

/-- Succeeds and writes a text. -/
def say (s : Session) (text : String) : Session := (s.withStatus 0).emit 1 text

/-- Fails with a message. -/
def complain (s : Session) (status : Nat) (message : String) : Session :=
  (s.emit 2 (message ++ "\n")).withStatus status

/-- Fails with a message that says where. -/
def complainHere (s : Session) (status : Nat) (message : String) : Session :=
  s.complain status s!"{s.name}: {s.line}: {message}"

/-- The shell or its child can write where the process writes. -/
def holdsOutput (s : Session) : Bool :=
  s.outlets.any fun e => e.2 = .stream .stdout || e.2 = .stream .stderr

/-! ## Signals -/

/-- Signals by name and number. -/
def signals : List (String × Nat) :=
  [("HUP", 1), ("INT", 2), ("QUIT", 3), ("ILL", 4), ("TRAP", 5), ("ABRT", 6), ("BUS", 7), ("FPE", 8),
    ("KILL", 9), ("USR1", 10), ("SEGV", 11), ("USR2", 12), ("PIPE", 13), ("ALRM", 14), ("TERM", 15),
    ("CHLD", 17), ("CONT", 18), ("STOP", 19)]

/-- The name of a signal or of the exit, as spelled in a script. -/
def signalName? (text : String) : Option String :=
  let bare := if text.startsWith "SIG" then (text.drop 3).toString else text
  if bare = "0" || bare = "EXIT" then some "EXIT"
  else (signals.find? fun e => e.1 = bare || toString e.2 = bare).map (·.1)

def signalNumber (name : String) : Nat := (signals.lookup name).getD 0

/-- A signal arrives. -/
def receive (s : Session) (signal : String) : Session :=
  match if signal = "KILL" || signal = "STOP" then none else s.traps.lookup signal with
  | some "" => s
  | some action => { s with sprung := s.sprung ++ [action] }
  | none =>
    if signal = "CHLD" || signal = "CONT" then s
    else if signal = "STOP" then { s with flow := .stuck }
    else { s with flow := .killed, status := 128 + signalNumber signal }

/-! ## Time -/

/-- The clock moves on, and what children did until then is seen. -/
def clock (s : Session) (time : Nat) : Session :=
  let (due, coming) := s.coming.partition fun d => d.time ≤ time
  { s with now := max s.now time, coming, tree := due.foldl (fun t d => d.change t) s.tree }

/-- The process waits for a child until `time`, or until it has to answer a request to end. -/
def waitUntil (s : Session) (time : Nat) (isBuiltin : Bool) : Session :=
  match s.asked with
  | none => s.clock time
  | some asked =>
    let moment := max asked s.now
    if s.owner != 0 || time ≤ moment then s.clock time
    else
      match s.traps.lookup "TERM" with
      | none => { s.clock moment with flow := .killed, asked := none }
      | some "" => s.clock time
      | some action =>
        { s.clock (if isBuiltin then moment else time) with asked := none, sprung := s.sprung ++ [action] }

/-- A time that does not come. -/
def never (s : Session) : Nat := s.now + Nat.pow 10 12

/-! ## Children -/

/-- The session of a child that starts now. -/
def child (s : Session) : Session :=
  { s with
    owner := s.born + 1, born := s.born + 1, asked := none, latest := none
    traps := s.traps.filter fun t => t.2 = "" }

/-- When a child has ended. -/
def endOf (c : Session) : Nat := if c.flow = .stuck then c.never else c.now

/-- The shell after a child's start, when the child's session has ended as `c`. -/
def beside (s c : Session) : Session :=
  let deeds := c.deeds.take (c.deeds.length - s.deeds.length)
  let isShell := c.shell = s.shell
  let job : Job :=
    { id := c.owner, start := s.now, ends := c.endOf, status := c.status, holds := s.holdsOutput
      wasKilled := c.flow = .killed && !isShell }
  let flow := if c.flow = .killed && isShell then .killed else s.flow
  { s with
    born := c.born, jobs := job :: c.jobs, holders := c.holders
    chunks := c.chunks, deeds := c.deeds, input := c.input
    coming := s.coming ++ deeds.reverse
    flow }.clock s.now

/-- It is said how a child ended that a signal ended. -/
def tellKilled (s : Session) (status : Nat) : Session :=
  match signals.find? fun e => 128 + e.2 = status with
  | some (name, _) =>
    match endings.lookup name with
    | some text => s.emit 2 (text ++ "\n")
    | none => s
  | none => s
where
  endings : List (String × String) :=
    [("HUP", "Hangup"), ("QUIT", "Quit"), ("ABRT", "Aborted"), ("KILL", "Killed"),
      ("SEGV", "Segmentation fault"), ("USR1", "User defined signal 1"),
      ("USR2", "User defined signal 2"), ("ALRM", "Alarm clock"), ("TERM", "Terminated")]

/-- The shell after it waited for a child. -/
def after (s c : Session) : Session :=
  let t := (s.beside c).waitUntil c.endOf false
  if t.flow != .onward then t
  else if c.flow = .stuck then { t with flow := .stuck }
  else if c.flow = .killed then (t.tellKilled c.status).withStatus c.status
  else t.withStatus c.status

/-- What a child that `run` runs writes, and the shell after it waited for it. -/
def capture (s : Session) (run : Session → Session) : String × Session :=
  let c := run { s.child.setOutlet 1 .kept with kept := [] }
  (String.join c.kept.reverse, s.after c)

/-- A child is stopped now by a signal. -/
def stop (s : Session) (id : Nat) (signal : String) : Session :=
  let job (j : Job) : Job :=
    if j.id = id && s.now < j.ends then
      { j with ends := s.now, status := 128 + signalNumber signal, wasKilled := true }
    else j
  { s with
    jobs := s.jobs.map job
    chunks := s.chunks.filter fun k => k.1 != id || k.2.time ≤ s.now
    deeds := s.deeds.filter fun d => d.owner != id || d.time ≤ s.now
    coming := s.coming.filter fun d => d.owner != id }

/-- Time passes in a program that does nothing but wait. -/
def sleep (s : Session) (ms : Nat) : Session :=
  let holders := if s.holdsOutput then (s.now, s.now + ms) :: s.holders else s.holders
  ({ s with holders }.waitUntil (s.now + ms) false).withStatus 0

/-- Time passes in the process itself, which has become a program that waits. -/
def sleepItself (s : Session) (ms : Nat) : Session :=
  ({ s with traps := s.traps.filter fun t => t.2 = "" }.waitUntil (s.now + ms) false).withStatus 0

/-! ## Courses -/

/-- The course of a session that has ended. -/
def course (s : Session) : Course :=
  let ending : Option (Nat × Option Int) :=
    match s.flow with
    | .killed => some (s.now, none)
    | .stuck =>
      if (s.traps.lookup "TERM").isSome then none else s.asked.map fun asked => (max asked s.now, none)
    | _ => some (s.now, some (s.status : Int))
  { chunks := (s.chunks.reverse.map (·.2)).mergeSort fun a b => a.time ≤ b.time
    changes := (s.deeds.reverse.map fun d => (d.time, d.change)).mergeSort fun a b => a.1 ≤ b.1
    ending
    children := s.holders ++ (s.jobs.filter (·.holds)).map fun j => (j.start, j.ends) }

end Session

end Wheelwright.Shell
