/-
  Histories — runs of one pipeline, one after the other, with all that may happen between and during them.

  **State** — a rehearsal, and a log of what its stages did.

  **Program** — the loop of a run takes, hears and closes (`Dispatch.step`); tasks go on, look at files and
  get the reports of their processes (`Rehearsal.advance`, `look`, `report`); records are forgotten.  What
  is not the run, a task or a store may change at any time and in any way: files, tokens, processes, the
  clock.  So events come in every order, and not only in that of the rehearsal's queue.

  **The log** — it is only added to.  What a stage did in a run is its `diary`, and every law about
  histories is one about the acts that stand before an act.
-/
import Mathlib.Data.List.DropRight
import Wheelwright.Proofs.Store.Records
import Wheelwright.Rehearsal.Run

namespace Wheelwright

/-! ## What histories are about

  A setting is what stays the same over all runs: the pipeline, the bodies of its stages, and the stores before the
  first of them.  Events are finer than the jobs of a rehearsal, so that any order of what may happen is a history. -/

/-- A pipeline, what its stages do, and the stores before the first run. -/
structure Setting where
  /-- The stages, their plan and how many of them may run at once. -/
  pipeline : Pipeline
  /-- What each stage does, at its index. -/
  bodies : List StageBody
  /-- The stores that stages record in, as they are at the start. -/
  stores : List FingerprintStore

namespace Setting

/-- A run with so many workers. -/
def newRun (S : Setting) (config : PipelineConfig) (token : TokenId) : PipelineRun :=
  { toDispatch := .start { S.pipeline with config }, bodies := S.bodies, token }

/-- No run was made yet. -/
structure Unused (S : Setting) (w : Rehearsal) : Prop where
  /-- No run was begun. -/
  run : w.run = none
  tasks : w.tasks = []
  /-- The stores are those of the setting. -/
  stores : w.stores = S.stores

end Setting

namespace History

/-- What a log tells. -/
inductive Act where
  /-- A run begins. -/
  | begins
  /-- A run is done. -/
  | closes (status : PipelineStatus)
  /-- The stage was told to stop before it did anything. -/
  | stops (i : Nat)
  /-- The stage loads its record, and goes to compare its inputs with it. -/
  | loads (i : Nat)
  /-- The configuration of the stage could not be read. -/
  | unreadable (i : Nat)
  /-- The inputs came to a fingerprint, and the stage was skipped. -/
  | skips (i : Nat) (fingerprint : String)
  /-- The inputs came to a fingerprint, and the command has to run. -/
  | stale (i : Nat) (fingerprint : String)
  /-- The command could not be launched. -/
  | unlaunched (i : Nat)
  /-- The command was launched. -/
  | launches (i : Nat)
  /-- The command ended; whether the fingerprint was recorded after that. -/
  | ends (i : Nat) (outcome : ExitOutcome) (saved : Bool)
  /-- The records of a store whose keys have that start were forgotten. -/
  | forgets (store : Nat) (start : String)
  deriving DecidableEq

/-- The stage that an act is an act of. -/
def Act.stage? : Act → Option Nat
  | .stops i | .loads i | .unreadable i | .skips i _ | .stale i _ | .unlaunched i | .launches i
  | .ends i _ _ => some i
  | .begins | .closes _ | .forgets _ _ => none

/-- The command of the stage exited with status zero. -/
abbrev Act.succeeds (i : Nat) (saved : Bool) : Act := .ends i (.exited (some 0)) saved

/-- What happens. -/
inductive Event where
  /-- Anything but the run, the tasks and the stores changes. -/
  | around (other : Rehearsal)
  /-- A run begins, with a token of its own; only one is under way at a time. -/
  | begin (config : PipelineConfig) (token : TokenId)
  /-- The loop learns that its token was tripped. -/
  | trip (reason : String)
  /-- The loop takes a ready stage. -/
  | take
  /-- The loop hears of a stage that ended, the one of that number among those that did. -/
  | hear (k : Nat)
  /-- The loop ends, when nothing is left to do. -/
  | close
  /-- A task goes on: it starts its command, or goes to look at its inputs. -/
  | advance (task : Nat)
  /-- A task looks at its inputs, or a clean stage at its directory. -/
  | look (task : Nat)
  /-- A process is gone, and its task hears of it. -/
  | report (process : Nat)
  /-- Records are forgotten, whoever asks for it and whenever. -/
  | forget (store : Nat) (start : String)

end History

/-! ## Acts

  For each event that is about a task there is a function that says what it writes.  They look at the rehearsal before
  the event, and do not change it. -/

namespace Rehearsal

open History (Act)

/-- Whether the command of the stage is launched. -/
def launchAct (w : Rehearsal) (i : Nat) (s : BackendStage) : Act :=
  match (w.conduct s.command).2 with
  | .ok _ => .launches i
  | .error _ => .unlaunched i

/-- What a task does when it goes on. -/
def advanceAct (w : Rehearsal) (n : Nat) : Option Act := do
  let t ← w.tasks[n]?
  let i ← t.stage
  -- by what the task has come to, and what its stage does
  match t.phase, t.body with
  | .starting, .backend s =>
    -- the token is looked at before anything else
    if w.tokens.isCancelled t.token then some (.stops i)
    else if s.staleness.isSome then some (.loads i)
    else some (w.launchAct i s)
  | .launching _, .backend s => some (w.launchAct i s)
  | _, _ => none

/-- What a task finds when it looks at files. -/
def lookAct (w : Rehearsal) (n : Nat) : Option Act := do
  let t ← w.tasks[n]?
  let i ← t.stage
  match t.phase, t.body with
  -- the record was loaded before; the inputs are looked at now
  | .looking previous, .backend s =>
    let c ← s.staleness
    match s.check t.upstreamRebuilt previous w.tree, c.inputs.fingerprint w.tree with
    | .ok .fresh, .ok f => some (.skips i f)
    | .ok (.stale _), .ok f => some (.stale i f)
    | _, _ => some (.unreadable i)
  | _, _ => none

/-- The rehearsal once a process has changed the files that it changes. -/
def afterProcess (w : Rehearsal) (d : Departure) : Rehearsal :=
  { w with tree := d.course.change (fun time => 0 < time && time ≤ d.time) w.tree }

/-- How the command of a task ended, and whether its fingerprint is recorded. -/
def reportAct (w : Rehearsal) (n : Nat) : Option Act := do
  let p ← w.processes[n]?
  let d ← p.gone
  let t ← w.tasks[p.task]?
  let i ← t.stage
  match t.phase, t.body with
  | .playing fingerprint, .backend s =>
    some (.ends i d.outcome (d.outcome.isSuccess && ((w.afterProcess d).record s fingerprint).2.isEmpty))
  | _, _ => none

/-- The tasks of stages that were just started. -/
def spawnAll (w : Rehearsal) (run : PipelineRun) (started : List (Nat × Bool)) : Rehearsal :=
  started.foldl (fun w (i, upstreamRebuilt) =>
    match run.bodies[i]? with
    | some body => w.spawn (taskOf run i upstreamRebuilt body)
    | none => w) w

/-- The run and its loop after a step. -/
def loopStep? (w : Rehearsal) (e : Dispatch.Event) : Option (PipelineRun × Dispatch) := do
  let run ← w.run
  let loop ← run.toDispatch.step e
  return (run, loop)

/-- The task waits for a look at files. -/
def isLooking (w : Rehearsal) (n : Nat) : Bool :=
  match w.tasks[n]? with
  | some t =>
    match t.phase with
    | .looking _ => true
    | _ => false
  | none => false

/-- Who looks has loaded something, be it that there is no record. -/
theorem isLooking_iff {w : Rehearsal} {n : Nat} :
    w.isLooking n = true ↔ ∃ t previous, w.tasks[n]? = some t ∧ t.phase = .looking previous := by
  unfold isLooking
  cases w.tasks[n]? with
  | none => simp
  | some t => cases hphase : t.phase <;> simp [hphase]

end Rehearsal

/-! ## Histories

  An event gives the act that is written, if any, and the rehearsal after it.  A history is a list of events that are
  all possible. -/

namespace Setting

open History (Act Event)

/-- The act and the rehearsal after an event, if it can happen. -/
def happen? (S : Setting) (w : Rehearsal) : Event → Option (Option Act × Rehearsal)
  | .around other => some (none, { other with run := w.run, tasks := w.tasks, stores := w.stores })
  | .begin config token =>
    if w.run.all fun run => run.outcome.isSome then
      some (some .begins, { w with run := some (S.newRun config token) })
    else none
  | .trip reason => (w.loopStep? (.trip reason)).map fun (run, loop) => (none, w.withLoop run loop)
  | .take => (w.loopStep? .take).map fun (run, loop) =>
      (none, (w.withLoop run loop).spawnAll run (loop.started.drop run.started.length))
  | .hear k => do
    let run ← w.run
    let (i, ending) ← run.arrived[k]?
    let loop ← run.toDispatch.step (.finish i ending)
    return (none, w.withLoop { run with arrived := run.arrived.eraseIdx k } loop)
  | .close => (w.loopStep? .close).map fun (run, loop) =>
      (loop.outcome.map fun o => .closes o.status, w.withLoop run loop)
  | .advance n => some (w.advanceAct n, w.advance n)
  | .look n => if w.isLooking n then some (w.lookAct n, w.look n) else none
  | .report n => some (w.reportAct n, w.report n)
  -- a store that cannot be written keeps its records, and then nothing was forgotten
  | .forget n start =>
    let (store, tree, forgotten) := (w.store n).forget start w.tree
    let act :=
      match forgotten with
      | .ok _ => some (Act.forgets n start)
      | .error _ => none
    some (act, { w with tree, stores := w.stores.set n store })

/-- The log and the rehearsal after some events, if all of them can happen. -/
def follow (S : Setting) (w : Rehearsal) : List Event → Option (List Act × Rehearsal)
  | [] => some ([], w)
  | e :: rest => do
    let (act, w) ← S.happen? w e
    let (log, w) ← S.follow w rest
    return (act.toList ++ log, w)

end Setting

/-! ## Logs

  A log is split at its last `begins`: what stands after it is of the run that is under way.  A diary is what one
  stage wrote.  Both are told for a log with one more act, since that is how logs grow. -/

namespace History

variable {log : List Act} {a : Act} {i j : Nat}

/-- The acts since the last beginning. -/
def thisRun (log : List Act) : List Act := log.rtakeWhile fun a => a ≠ .begins

/-- The acts of a stage. -/
def diary (i : Nat) (log : List Act) : List Act := log.filter fun a => a.stage? = some i

/-- Before anything has happened. -/
@[simp] theorem thisRun_nil : thisRun [] = [] := rfl

/-- A run that begins has no acts yet. -/
@[simp] theorem thisRun_begins (log : List Act) : thisRun (log ++ [.begins]) = [] := by
  rw [thisRun, List.rtakeWhile_concat, if_neg (by simp)]

/-- Every other act is one of the run that is under way. -/
theorem thisRun_append (log : List Act) (ha : a ≠ .begins) : thisRun (log ++ [a]) = thisRun log ++ [a] := by
  rw [thisRun, List.rtakeWhile_concat, if_pos (decide_eq_true ha), thisRun]

/-- And so are several. -/
theorem thisRun_append_of_notMem {more : List Act} (h : .begins ∉ more) :
    thisRun (log ++ more) = thisRun log ++ more := by
  induction more using List.reverseRecOn with
  | nil => simp
  | append_singleton more a ih =>
    rw [List.mem_append, not_or, List.mem_singleton] at h
    rw [← List.append_assoc, thisRun_append _ (Ne.symm h.2), ih h.1, List.append_assoc]

/-- The acts of a run have no beginning of a run among them. -/
theorem begins_notMem_thisRun (log : List Act) : .begins ∉ thisRun log := fun h => by
  simpa using List.mem_rtakeWhile_imp h

/-- What was before this run. -/
theorem exists_before (log : List Act) : ∃ old, log = old ++ thisRun log ∧ thisRun old = [] := by
  -- induction on the log, from its end
  induction log using List.reverseRecOn with
  | nil => exact ⟨[], rfl, rfl⟩
  | append_singleton log a ih =>
    by_cases ha : a = .begins
    · subst ha
      exact ⟨log ++ [.begins], by simp, thisRun_begins log⟩
    · obtain ⟨old, hlog, hold⟩ := ih
      refine ⟨old, ?_, hold⟩
      rw [thisRun_append log ha, ← List.append_assoc, ← hlog]

/-- What was before an act of this run. -/
theorem exists_of_mem_thisRun (h : a ∈ thisRun log) : ∃ pre post, log = pre ++ a :: post ∧
    thisRun log = thisRun pre ++ a :: post ∧ .begins ∉ post := by
  obtain ⟨old, hlog, hold⟩ := exists_before log
  obtain ⟨pre, post, hthis⟩ := List.append_of_mem h
  have hnot := begins_notMem_thisRun log
  rw [hthis, List.mem_append, List.mem_cons, not_or, not_or] at hnot
  refine ⟨old ++ pre, post, ?_, ?_, hnot.2.2⟩
  · rw [List.append_assoc, ← hthis, ← hlog]
  · rw [thisRun_append_of_notMem hnot.1, hold, hthis, List.nil_append]

/-- The same, seen from an act that comes later. -/
theorem exists_earlier {pre post : List Act} {b : Act} (hlog : log = pre ++ a :: post) (hb : b ∈ thisRun pre) :
    ∃ before after, log = before ++ b :: (after ++ a :: post) ∧ pre = before ++ b :: after ∧
      thisRun pre = thisRun before ++ b :: after := by
  obtain ⟨before, after, hpre, hthis, -⟩ := exists_of_mem_thisRun hb
  refine ⟨before, after, ?_, hpre, hthis⟩
  rw [hlog, hpre, List.append_assoc, List.cons_append]

/-- An act that is not one of this run is older than all of them. -/
theorem prefix_of_notMem_thisRun {x y u v : List Act} {b : Act} (hx : log = x ++ a :: y) (hu : log = u ++ b :: v)
    (hthis : thisRun log = thisRun u ++ b :: v) (ha : a ∉ thisRun log) : x <+: u := by
  rcases List.append_eq_append_iff.mp (hx.symm.trans hu) with ⟨more, hmore, -⟩ | ⟨more, -, hmore⟩
  · exact ⟨more, hmore.symm⟩
  · refine absurd ?_ ha
    rw [hthis, hmore]
    simp

/-- The acts of a run are acts. -/
theorem mem_of_mem_thisRun (h : a ∈ thisRun log) : a ∈ log := (List.rtakeWhile_suffix _ _).subset h

/-- A diary of nothing is empty. -/
@[simp] theorem diary_nil (i : Nat) : diary i [] = [] := rfl

/-- Diaries are put together as logs are. -/
theorem diary_append (i : Nat) (log more : List Act) : diary i (log ++ more) = diary i log ++ diary i more :=
  List.filter_append ..

/-- An act of a stage is written into its diary. -/
theorem diary_of_stage (h : a.stage? = some i) : diary i (log ++ [a]) = diary i log ++ [a] := by
  rw [diary_append, diary, diary, List.filter_singleton, h, decide_eq_true rfl]
  rfl

/-- And into no other. -/
theorem diary_of_not_stage (h : a.stage? ≠ some i) : diary i (log ++ [a]) = diary i log := by
  rw [diary_append, diary, diary, List.filter_singleton, decide_eq_false h]
  exact List.append_nil _

/-- A run is begun by nobody's stage. -/
theorem ne_begins_of_stage (h : a.stage? = some i) : a ≠ .begins := by
  rintro rfl
  cases h

/-- A stage goes on with its diary of this run. -/
theorem diary_thisRun_of_stage (h : a.stage? = some i) :
    diary i (thisRun (log ++ [a])) = diary i (thisRun log) ++ [a] := by
  rw [thisRun_append log (ne_begins_of_stage h), diary_of_stage h]

/-- The acts of others are not written there. -/
theorem diary_thisRun_of_not_stage (ha : a ≠ .begins) (h : a.stage? ≠ some i) :
    diary i (thisRun (log ++ [a])) = diary i (thisRun log) := by
  rw [thisRun_append log ha, diary_of_not_stage h]

/-- What a stage writes, if anything, stands at the end of its own diary only. -/
theorem diary_thisRun_toList (log : List Act) {act : Option Act} (hact : ∀ a, act = some a → a.stage? = some i) :
    diary i (thisRun (log ++ act.toList)) = diary i (thisRun log) ++ act.toList ∧
      ∀ j, j ≠ i → diary j (thisRun (log ++ act.toList)) = diary j (thisRun log) := by
  cases act with
  | none => simp
  | some a =>
    have ha := hact a rfl
    refine ⟨diary_thisRun_of_stage ha, fun j hj => diary_thisRun_of_not_stage (ne_begins_of_stage ha) ?_⟩
    rw [ha]
    exact fun heq => hj (Option.some.inj heq).symm

/-- What stands in a diary. -/
theorem mem_diary : a ∈ diary i log ↔ a ∈ log ∧ a.stage? = some i := by
  rw [diary, List.mem_filter, decide_eq_true_iff]

/-- All of it stands in the log. -/
theorem mem_of_mem_diary (h : a ∈ diary i log) : a ∈ log := List.mem_of_mem_filter h

/-! ## A chain of two stages

  The pipeline that the examples of this directory are about: two stages, each of which checks a configuration. -/

/-- A check that looks at a configuration. -/
def checkUnder (key : String) : StalenessCheck :=
  { inputs := { configFile := ⟨"/conf"⟩, sourceRoot := ⟨"/src"⟩ }, store := 0, key }

/-- A stage with such a check. -/
def checked (name : String) : BackendStage :=
  { name
    command := { program := "run", args := [name], cwd := ⟨"/"⟩ }
    classifier := .plain
    staleness := some (checkUnder name) }

/-- Two stages, one after the other. -/
def chained : Setting :=
  { pipeline :=
      { name := "chained"
        specs := [{ name := "prepare" }, { name := "build", predecessors := ["prepare"] }]
        plan := ⟨["prepare", "build"], [[], [0]], [0, 1], [[], [0]]⟩
        config := {} }
    bodies := [.backend (checked "prepare"), .backend (checked "build")]
    stores := [{}] }

/-- The plan of the chain is the one that the planner makes. -/
theorem plan_chained : plan chained.pipeline.specs = .ok chained.pipeline.plan := by decide +kernel

/-- A configuration, and how the process of a task ended. -/
def scene (config : String) (task : Nat) (outcome : ExitOutcome) : Rehearsal :=
  { tree := { entries := [(["conf"], .file (Utf8.encode config) .plain)] }
    today := ⟨0, 0, 0⟩
    processes := [{ task, conduct := fun _ => { ending := none }, patience := ⟨0, 0⟩, token := 0
                    window := none, launchedAt := 0, gone := some ⟨outcome, 0, { ending := none }⟩ }] }

/-- Nothing was built yet. -/
def unbuilt (config : String) : Rehearsal := { scene config 0 .cancelled with stores := chained.stores }

/-- Nothing was built before. -/
theorem unused_unbuilt (config : String) : chained.Unused (unbuilt config) := ⟨rfl, rfl, rfl⟩

/-- A stage is started, and its command runs and ends; the configuration is another one by then. -/
def carriedOut (task : Nat) (outcome : ExitOutcome) (config : String) : List Event :=
  [.take, .advance task, .look task, .advance task, .around (scene config task outcome), .report 0, .hear 0]

/-- What the inputs of its stages come to. -/
def digestOf (config : String) : String :=
  ((checkUnder "").inputs.fingerprint (unbuilt config).tree).toOption.getD ""

/-- A stage is started and skipped. -/
def passedOver (task : Nat) : List Event := [.take, .advance task, .look task, .hear 0]

end History

end Wheelwright
