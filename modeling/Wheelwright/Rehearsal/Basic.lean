/-
  Rehearsals — runs in virtual time.

  **State** — files, stores, tokens and a clock; the run of a pipeline; the tasks of its stages and
  their processes; and what has still to be done: jobs that can be done now, first come first
  served, looks at files, which wait until there is no such job, and timers.

  **Program** — the state is a machine.  A job is done in no time and may bring about others; the
  clock only moves when there is nothing left to do, and then straight to the next timer.

  **The crux** — a stage is a task with a phase.  Whatever wakes it (the scheduler, a look at files,
  the end of its process, a timer) makes it a job, and what the job does follows from the phase.
-/
import Wheelwright.Cancellation
import Wheelwright.Dispatch
import Wheelwright.Process.Course
import Wheelwright.Stage.Body
import Wheelwright.Store

namespace Wheelwright

/-! ## Tasks of stages

  A task waits for one thing at a time, and its phase says for what. -/

/-- Where the task of a stage stands. -/
inductive StagePhase where
  | starting
  /-- It waits for a look at files; the fingerprint that it has loaded, to compare its inputs with it. -/
  | looking (previous : Option String)
  /-- It is going to launch its command; the fingerprint to record after that. -/
  | launching (fingerprint : Option String)
  /-- It waits for its process. -/
  | playing (fingerprint : Option String)
  /-- It waits for its delay. -/
  | waiting
  | ended

/-- The task of a stage. -/
structure StageTask where
  /-- Its number in the plan of the run; nothing for a stage that is run alone. -/
  stage : Option Nat
  body : StageBody
  token : TokenId
  upstreamRebuilt : Bool
  phase : StagePhase

/-- A launched process. -/
structure LaunchedProcess where
  task : Nat
  conduct : Conduct
  patience : Patience
  token : TokenId
  window : Option WriteWindow
  launchedAt : Nat
  /-- How it ended, once it is gone. -/
  gone : Option Departure := none

/-! ## Runs -/

/-- A run of a pipeline, in progress or done. -/
structure PipelineRun extends Dispatch where
  bodies : List StageBody
  token : TokenId
  /-- How stages ended that the loop has not heard of yet. -/
  arrived : List (Nat × Except String StageResult) := []

/-! ## The machine

  Jobs are done in the order in which they came, and timers become jobs when they are due.  So a rehearsal has one
  next step at any time. -/

/-- Something to do. -/
inductive Job where
  /-- The task goes on. -/
  | advance (task : Nat)
  /-- The process starts. -/
  | play (process : Nat)
  /-- The process ends by itself. -/
  | expire (process : Nat)
  /-- The process is asked to end. -/
  | interrupt (process : Nat)
  /-- The process's output has been read. -/
  | report (process : Nat)
  /-- The run settles what arrived. -/
  | settle

/-- How commands are carried out. -/
inductive CommandRunner where
  /-- By scripts. -/
  | scripted (scripts : List ProcessScript)
  /-- By what the programs do that the commands name. -/
  | programs (patience : Patience) (conductOf : FileTree → Command → Except LaunchError Conduct)

/-- The state of a rehearsal. -/
structure Rehearsal where
  tree : FileTree
  /-- The time that records of fingerprints get. -/
  today : Timestamp
  stores : List FingerprintStore := []
  tokens : Forest := {}
  runner : CommandRunner := .scripted []
  now : Nat := 0
  run : Option PipelineRun := none
  tasks : List StageTask := []
  processes : List LaunchedProcess := []
  jobs : List Job := []
  /-- Tasks that wait for a look at files. -/
  looks : List Nat := []
  timers : List (Nat × Job) := []
  /-- Processes and the tokens that interrupt them. -/
  waiting : List (TokenId × Nat) := []
  recorder : WindowRecorder := {}
  launched : List Command := []
  deliveries : List Delivery := []
  /-- The result of the last stage that was run alone. -/
  aloneResult : Option StageResult := none

namespace Rehearsal

/-- The rehearsal with one more job. -/
def enqueue (w : Rehearsal) (j : Job) : Rehearsal := { w with jobs := w.jobs ++ [j] }

/-- The job is done after `ms` milliseconds, or as a job if that is now. -/
def after (w : Rehearsal) (ms : Nat) (j : Job) : Rehearsal :=
  if ms = 0 then w.enqueue j else { w with timers := w.timers ++ [(w.now + ms, j)] }

/-- Why the run of a token was cancelled. -/
def cancelText? (w : Rehearsal) (token : TokenId) : Option String :=
  (w.tokens.reason? token).map CancelReason.text

/-- Processes whose token was tripped become jobs, in the order in which the tokens pass a trip on. -/
def wake (w : Rehearsal) : Rehearsal :=
  let (hit, rest) := w.waiting.partition fun e => w.tokens.isCancelled e.1
  let inOrder := hit.mergeSort fun a b => a.1 ≤ b.1
  { w with waiting := rest, jobs := w.jobs ++ inOrder.map fun e => .interrupt e.2 }

/-- The rehearsal after a change of tokens. -/
def withTokens (w : Rehearsal) (tokens : Forest) : Rehearsal := wake { w with tokens }

/-- Listeners are told something. -/
def deliver (w : Rehearsal) (d : Delivery) : Rehearsal := { w with deliveries := w.deliveries ++ [d] }

/-- The task with another phase. -/
def setPhase (w : Rehearsal) (n : Nat) (phase : StagePhase) : Rehearsal :=
  { w with tasks := w.tasks.modify n fun t => { t with phase } }

/-- The store of a number. -/
def store (w : Rehearsal) (n : Nat) : FingerprintStore := w.stores.getD n {}

/-- The fingerprint recorded for a check. -/
def recorded (w : Rehearsal) (c : StalenessCheck) : Option String :=
  ((w.store c.store).load c.key).map (·.fingerprint)

end Rehearsal

end Wheelwright
