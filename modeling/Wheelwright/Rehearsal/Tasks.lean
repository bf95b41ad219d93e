/-
  Tasks of a rehearsal — what a stage does from its start to its result.

  **Program** — a clean stage looks at its directory and is done.  A fixed stage waits and is done.
  A backend stage that was cancelled before it started is done; otherwise, if it has a staleness
  check, it loads its record and then waits for a look at its inputs; it launches its command, waits
  for the process, records the fingerprint from before the launch after a success, and is done.

  **Loading and comparing** — two steps with anything in between.  The look compares with what was
  loaded, and not with what the store holds by then.

  **Processes** — a launched command may get a token of its own with a deadline.  Its process ends
  by itself or is interrupted by that token, whichever comes first, and is heard of once its output
  has been read.
-/
import Wheelwright.Rehearsal.Basic

namespace Wheelwright.Rehearsal

/-! ## Results -/

/-- A task has ended. -/
def finishWith (w : Rehearsal) (n : Nat) (t : StageTask) (ending : Except String StageResult) :
    Rehearsal :=
  let w := w.setPhase n .ended
  match t.stage, w.run with
  | some i, some run =>
    { w with run := some { run with arrived := run.arrived ++ [(i, ending)] } }.enqueue .settle
  | _, _ =>
    let r :=
      match ending with
      | .ok r => r
      | .error cause => .ofFailure (.brokenOff "" cause) [] .zero
    { w with aloneResult := some r }

/-- A task has its result. -/
def finish (w : Rehearsal) (n : Nat) (t : StageTask) (r : StageResult) : Rehearsal :=
  w.finishWith n t (.ok r)

/-- A fixed stage ends. -/
def finishFixed (w : Rehearsal) (n : Nat) (t : StageTask) (s : FixedStage) : Rehearsal :=
  w.finishWith n t (s.finish t.upstreamRebuilt (w.cancelText? t.token))

/-! ## Launching

  A command gets a token, a process and maybe a window.  A program that cannot be started fails its stage at once. -/

/-- What the process of a command will do, if it could be started, and the tree after the start. -/
def conduct (w : Rehearsal) (c : Command) :
    FileTree × Except LaunchError (Conduct × Patience × Option WriteWindow) :=
  match w.runner with
  | .scripted scripts =>
    let script := ProcessScript.choose scripts c
    match script.launch c w.tree with
    | (tree, some e) => (tree, .error e)
    | (tree, none) => (tree, .ok (fun _ => .ofScript script, ⟨0, 0⟩, script.window c))
  | .programs patience conductOf =>
    match conductOf w.tree c with
    | .error e => (w.tree, .error e)
    | .ok conduct =>
      ((conduct none).change (fun time => time = 0) w.tree, .ok (conduct, patience, none))

/-- The token of a command: its own if it has a deadline, else that of the run. -/
def commandToken (w : Rehearsal) (c : Command) (run : TokenId) : Rehearsal × TokenId :=
  match c.timeout with
  | none => (w, run)
  | some d =>
    let (tokens, own) := w.tokens.withDeadline run d w.now
    (w.withTokens tokens, own)

/-- The window of a command opens. -/
def openWindow (w : Rehearsal) : Option WriteWindow → Rehearsal
  | none => w
  | some window => { w with recorder := w.recorder.opened window }

/-- The window of a command closes. -/
def closeWindow (w : Rehearsal) : Option WriteWindow → Rehearsal
  | none => w
  | some window => { w with recorder := w.recorder.close window }

/-- A backend stage launches its command. -/
def launch (w : Rehearsal) (n : Nat) (t : StageTask) (s : BackendStage)
    (fingerprint : Option String) : Rehearsal :=
  let w := { w with launched := w.launched ++ [s.command] }
  match w.conduct s.command with
  | (tree, .error e) => { w with tree }.finish n t (s.notLaunched e)
  | (tree, .ok (conduct, patience, window)) =>
    let (w, token) := { w with tree }.commandToken s.command t.token
    let process := { task := n, conduct, patience, token, window, launchedAt := w.now }
    let w := (w.openWindow window).setPhase n (.playing fingerprint)
    { w with processes := w.processes ++ [process] }.enqueue (.play w.processes.length)

/-! ## Looking at files

  The record is loaded when a task begins to look, and compared when it looks.  Other things may happen in between. -/

/-- A clean stage empties its directory. -/
def sweep (w : Rehearsal) (n : Nat) (t : StageTask) (s : CleanStage) : Rehearsal :=
  let (r, tree) := s.run (fun _ => w.cancelText? t.token) w.tree
  { w with tree }.finish n t r

/-- A backend stage compares its inputs with the fingerprint that it has loaded. -/
def compare (w : Rehearsal) (n : Nat) (t : StageTask) (s : BackendStage) (previous : Option String) :
    Rehearsal :=
  match s.check t.upstreamRebuilt previous w.tree with
  | .error r => w.finish n t r
  | .ok .fresh => w.finish n t s.upToDate
  | .ok (.stale fingerprint) => (w.setPhase n (.launching fingerprint)).enqueue (.advance n)

/-- A task looks at files. -/
def look (w : Rehearsal) (n : Nat) : Rehearsal :=
  match w.tasks[n]? with
  | some t =>
    match t.phase, t.body with
    | .looking _, .clean s => w.sweep n t s
    | .looking previous, .backend s => w.compare n t s previous
    | _, _ => w
  | none => w

/-! ## Going on

  What becomes of a task when it is its turn, by its phase and its body. -/

/-- A task begins to wait for a look at files. -/
def startLooking (w : Rehearsal) (n : Nat) (previous : Option String) : Rehearsal :=
  { w.setPhase n (.looking previous) with looks := w.looks ++ [n] }

/-- A task starts. -/
def enter (w : Rehearsal) (n : Nat) (t : StageTask) : Rehearsal :=
  match t.body with
  | .clean _ => w.startLooking n none
  | .fixed s =>
    let ms := (s.delay.getD .zero).timerMillis
    if ms = 0 then w.finishFixed n t s else (w.setPhase n .waiting).after ms (.advance n)
  | .backend s =>
    match w.cancelText? t.token with
    | some reason => w.finish n t (s.cancelled reason)
    | none =>
      match s.staleness with
      | some c => w.startLooking n (w.recorded c)
      | none => w.launch n t s none

/-- A task goes on. -/
def advance (w : Rehearsal) (n : Nat) : Rehearsal :=
  match w.tasks[n]? with
  | none => w
  | some t =>
    match t.phase, t.body with
    | .starting, _ => w.enter n t
    | .waiting, .fixed s => w.finishFixed n t s
    | .launching fingerprint, .backend s => w.launch n t s fingerprint
    | _, _ => w

/-- A task is started. -/
def spawn (w : Rehearsal) (t : StageTask) : Rehearsal :=
  { w with tasks := w.tasks ++ [t] }.enqueue (.advance w.tasks.length)

/-! ## Processes

  A process ends by itself or is interrupted, and its output is read after that.  Then the task hears of both. -/

/-- A process is gone. -/
def leave (w : Rehearsal) (n : Nat) (p : LaunchedProcess) (d : Departure) : Rehearsal :=
  let w := { w with
    processes := w.processes.set n { p with gone := some d }
    waiting := w.waiting.filter fun e => e.2 != n }
  (w.closeWindow p.window).after (p.launchedAt + d.drainedAt p.patience - w.now) (.report n)

/-- A process starts: it ends by itself after its time, unless its token interrupts it before. -/
def play (w : Rehearsal) (n : Nat) : Rehearsal :=
  match w.processes[n]? with
  | none => w
  | some p =>
    let course := p.conduct none
    if course.endsBy 0 then w.leave n p (.byItself course (course.ending.getD (0, none)))
    else if w.tokens.isCancelled p.token then w.enqueue (.interrupt n)
    else
      let w := { w with waiting := w.waiting ++ [(p.token, n)] }
      match course.ending with
      | some (ms, _) => w.after ms (.expire n)
      | none => w

/-- A process ends by itself, unless it is gone already. -/
def expire (w : Rehearsal) (n : Nat) : Rehearsal :=
  match w.processes[n]? with
  | none => w
  | some p =>
    let course := p.conduct none
    match p.gone, course.ending with
    | none, some ending => w.leave n p (.byItself course ending)
    | _, _ => w

/-- A process is asked to end. -/
def interrupt (w : Rehearsal) (n : Nat) : Rehearsal :=
  match w.processes[n]? with
  | none => w
  | some p =>
    if p.gone.isSome then w
    else
      let outcome := if w.tokens.isTimeout p.token then ExitOutcome.timedOut else .cancelled
      w.leave n p (.interrupted p.patience p.conduct outcome (w.now - p.launchedAt))

/-- The fingerprint from before the launch is recorded; the warning if that failed. -/
def record (w : Rehearsal) (s : BackendStage) (fingerprint : Option String) :
    Rehearsal × List Diagnostic :=
  match s.staleness, fingerprint with
  | some c, some f =>
    let (store, tree, e) := (w.store c.store).record c.key f w.today w.tree
    ({ w with tree, stores := w.stores.set c.store store }, (e.map BackendStage.unsavedWarning).toList)
  | _, _ => (w, [])

/-- The command of a backend stage has ended. -/
def conclude (w : Rehearsal) (n : Nat) (t : StageTask) (s : BackendStage)
    (fingerprint : Option String) (outcome : ExitOutcome) (lines : List OutputLine) : Rehearsal :=
  let said := s.diagnose lines
  let (w, warnings) := if outcome.isSuccess then w.record s fingerprint else (w, [])
  w.finish n t (s.conclude outcome (said ++ warnings) ((w.cancelText? t.token).getD "cancelled"))

/-- The output of a process has been read. -/
def report (w : Rehearsal) (n : Nat) : Rehearsal :=
  match w.processes[n]? with
  | none => w
  | some p =>
    match p.gone, w.tasks[p.task]? with
    | some d, some t =>
      let tree := d.course.change (fun time => 0 < time && time ≤ d.time) w.tree
      let w := { w with tree }
      match t.phase, t.body with
      | .playing fingerprint, .backend s =>
        w.conclude p.task t s fingerprint d.outcome (d.lines (w.now - p.launchedAt))
      | _, _ => w
    | _, _ => w

end Wheelwright.Rehearsal
