/-
  Runs of a rehearsal — the scheduler, the clock, and the machine that steps.

  **Scheduler** — `settle` tells the loop of the run how stages ended, of one after the other, and after
  each one has it start what can be started.  When nothing runs and nothing is ready the loop ends.

  **Machine** — `step` does the first job; without one, the look at files that waits longest; and
  without that it moves the clock to the next timer.  There is no step when none of them is there.
-/
import Wheelwright.Rehearsal.Tasks

namespace Wheelwright.Rehearsal

/-! ## The scheduler

  Reports of tasks are collected and heard one after the other.  The token of the run is looked at before each of
  them, and before stages are started. -/

/-- The loop of a run in another state; listeners are told what is new in it. -/
def withLoop (w : Rehearsal) (run : PipelineRun) (loop : Dispatch) : Rehearsal :=
  { w with
    run := some { run with toDispatch := loop }
    deliveries := w.deliveries ++ loop.told.drop run.told.length }

/-- The loop of a run, its token being looked at. -/
def noticed (w : Rehearsal) (run : PipelineRun) : Dispatch :=
  match w.cancelText? run.token with
  | some reason => run.toDispatch.stepOrStay (.trip reason)
  | none => run.toDispatch

/-- The task of a stage that a run started. -/
def taskOf (run : PipelineRun) (i : Nat) (upstreamRebuilt : Bool) (body : StageBody) : StageTask :=
  { stage := some i, body, token := run.token, upstreamRebuilt, phase := .starting }

/-- Starts what can be started. -/
def fill (w : Rehearsal) (run : PipelineRun) : Rehearsal :=
  let loop := (w.noticed run).fill (run.state.plan.names.length + 1)
  (loop.started.drop run.started.length).foldl (fun w (i, upstreamRebuilt) =>
    match run.bodies[i]? with
    | some body => w.spawn (taskOf run i upstreamRebuilt body)
    | none => w) (w.withLoop run loop)

/-- The loop ends if it can. -/
def complete (w : Rehearsal) (run : PipelineRun) : Rehearsal :=
  w.withLoop run ((w.noticed run).stepOrStay .close)

/-- Hears of stages that ended, of one after the other. -/
def settleEach (w : Rehearsal) : List (Nat × Except String StageResult) → Rehearsal
  | [] =>
    match w.run with
    | some run => w.complete run
    | none => w
  | (i, ending) :: rest =>
    match w.run with
    | some run =>
      let w := w.withLoop run ((w.noticed run).stepOrStay (.finish i ending))
      match w.run with
      | some run => settleEach (w.fill run) rest
      | none => w
    | none => w

/-- The run hears of what arrived. -/
def settle (w : Rehearsal) : Rehearsal :=
  match w.run with
  | some run => settleEach { w with run := some { run with arrived := [] } } run.arrived
  | none => w

/-- A run of a pipeline starts. -/
def startRun (w : Rehearsal) (p : Pipeline) (bodies : List StageBody) (token : TokenId) : Rehearsal :=
  settle (w.fill { toDispatch := .start p, bodies, token })

/-- A stage is run alone. -/
def startAlone (w : Rehearsal) (body : StageBody) (token : TokenId) : Rehearsal :=
  { w with aloneResult := none }.spawn
    { stage := none, body, token, upstreamRebuilt := false, phase := .starting }

/-- The outcome of the latest run, once it is done. -/
def outcome? (w : Rehearsal) : Option PipelineOutcome := w.run.bind (·.outcome)

/-- The statuses of a pipeline's stages in the latest run. -/
def statuses (w : Rehearsal) (p : Pipeline) : List (String × StageStatus) :=
  match w.run with
  | some run => p.plan.names.zip run.state.statuses
  | none => p.plan.names.map fun name => (name, .pending)

/-! ## The clock

  The clock stands still while there are jobs, and then moves to whatever comes next. -/

/-- The timer that is due first. -/
def nextTimer? (w : Rehearsal) : Option (Nat × Job) :=
  w.timers.foldl (fun best t =>
    match best with
    | none => some t
    | some b => if t.1 < b.1 then some t else some b) none

/-- The timers without the first of a time. -/
def withoutTimer (due : Nat) : List (Nat × Job) → List (Nat × Job)
  | [] => []
  | t :: rest => if t.1 = due then rest else t :: withoutTimer due rest

/-- The clock moves to a timer whose job has to be done now. -/
def ring (w : Rehearsal) (t : Nat × Job) : Rehearsal :=
  { w with now := max w.now t.1, timers := withoutTimer t.1 w.timers }.enqueue t.2

/-- The clock moves to the timer of a token, which is tripped. -/
def elapse (w : Rehearsal) (t : TokenTimer) : Rehearsal :=
  { w with now := max w.now t.due }.withTokens (w.tokens.fire t)

/-- The clock moves to the next timer that is due before `limit`. -/
def tick (w : Rehearsal) (limit : Option Nat) : Option Rehearsal :=
  let w := { w with tokens := w.tokens.settleTimers }
  let inTime (due : Nat) : Bool := limit.all fun l => due < l
  match w.nextTimer?, w.tokens.nextTimer? with
  | some t, some d =>
    if t.1 ≤ d.due then (if inTime t.1 then some (w.ring t) else none)
    else if inTime d.due then some (w.elapse d) else none
  | some t, none => if inTime t.1 then some (w.ring t) else none
  | none, some d => if inTime d.due then some (w.elapse d) else none
  | none, none => none

/-! ## The machine -/

/-- Does a job. -/
def perform (w : Rehearsal) : Job → Rehearsal
  | .advance n => w.advance n
  | .play n => w.play n
  | .expire n => w.expire n
  | .interrupt n => w.interrupt n
  | .report n => w.report n
  | .settle => w.settle

/-- One step, the clock staying before `limit`. -/
def step (w : Rehearsal) (limit : Option Nat) : Option Rehearsal :=
  match w.jobs, w.looks with
  | j :: rest, _ => some ({ w with jobs := rest }.perform j)
  | [], n :: rest => some ({ w with looks := rest }.look n)
  | [], [] => w.tick limit

/-- More steps than the machine takes before all stages of a run have ended. -/
def stepBound (w : Rehearsal) : Nat :=
  let stages := ((w.run.map fun r => r.bodies.length).getD 0) + w.tasks.length
  16 * (stages + 1) + w.jobs.length + w.timers.length + w.tokens.timers.length

end Wheelwright.Rehearsal

namespace Wheelwright

/-- Steps as long as there are any, at most so many. -/
def iterate {σ : Type} (step : σ → Option σ) : Nat → σ → σ
  | 0, s => s
  | n + 1, s =>
    match step s with
    | none => s
    | some next => iterate step n next

end Wheelwright
