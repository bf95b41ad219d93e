/-
  Courses — a run, its tasks and what the log tells of it.

  **Specification** — `Course S log run tasks`: the loop of the run is sound; every task that has not ended
  is the only one of its stage, and what the stage wrote in this run fits its phase (`Underway`); what the
  stage wrote fits the result that it reported or got (`Came`); other stages wrote nothing.

  **Program** — the four ways in which a run goes on: the loop makes a step and starts stages, it hears of
  a stage, a task proceeds, a task finishes.

  **The crux** — a diary is read in two directions.  Results follow from it, so it tells which stages have
  succeeded and which did their work (`Came.succeeded_iff`, `Came.didWork_iff`); and these are what a stage was
  started with, so what is found in the log is what the run knew.
-/
import Wheelwright.Proofs.Dispatch.Completion
import Wheelwright.Proofs.History.Laws

namespace Wheelwright

/-! ## Results of commands

  The results that a backend stage may report, with whether each is a success, a skip, or work done. -/

namespace BackendStage

variable (s : BackendStage)

/-- A stage that was stopped was not successful. -/
@[simp] theorem isSuccess_cancelled (message : String) : (s.cancelled message).isSuccess = false := rfl

/-- Nor was one whose configuration could not be read. -/
@[simp] theorem isSuccess_unreadable (message : String) :
    (s.failed .configUnreadable message).isSuccess = false := rfl

/-- Nor was one whose command could not be launched. -/
@[simp] theorem isSuccess_notLaunched (e : LaunchError) : (s.notLaunched e).isSuccess = false := rfl

/-- A stage that is up to date was successful. -/
@[simp] theorem isSuccess_upToDate : s.upToDate.isSuccess = true := rfl

/-- **A stage succeeds exactly if its command exited with status zero.** -/
@[simp] theorem isSuccess_conclude (outcome : ExitOutcome) (said : List Diagnostic) (message : String) :
    (s.conclude outcome said message).isSuccess = outcome.isSuccess := by
  cases outcome with
  | exited code =>
    by_cases hcode : code = some 0
    · subst hcode
      rfl
    · simp [conclude, failure?, hcode, StageResult.withExit, StageResult.isSuccess, StageResult.ofFailure,
        FailureKind.status, StageStatus.isSuccess, ExitOutcome.isSuccess]
  | cancelled | timedOut => rfl

/-- A command that has run was not skipped. -/
@[simp] theorem skipped_conclude (outcome : ExitOutcome) (said : List Diagnostic) (message : String) :
    (s.conclude outcome said message).skipped = false := by
  unfold conclude
  cases s.failure? outcome said message <;> rfl

end BackendStage

/-- All stages of a run that succeeded have succeeded. -/
theorem PipelineStatus.all_of_aggregate {statuses : List StageStatus}
    (h : PipelineStatus.aggregate statuses = .succeeded) : ∀ s ∈ statuses, s.isSuccess = true := by
  unfold aggregate at h
  split at h
  · cases h
  · split at h
    · rename_i hall
      exact List.all_eq_true.mp hall
    · cases h

namespace History

open Dispatch (Sound HasStarted)

variable {S : Setting} {log log' : List Act} {run : PipelineRun} {tasks : List StageTask} {i j n : Nat}
  {t : StageTask} {a : Act} {body : StageBody} {acts : List Act} {r : StageResult}

/-! ## Diaries and results

  What a stage has written in a run is compared with the result that it came to.  In both directions: a result tells
  what was written, and what was written tells whether the stage succeeded, was skipped, or did its work. -/

namespace Came

/-- Stages of other kinds have no diary. -/
theorem acts_of_other (h : Came i body acts r) (hbody : ∀ s, body ≠ .backend s) : acts = [] := by
  cases h with
  | other => rfl
  | stopped s | unreadable s | skipped s | unlaunched s | ended s => exact absurd rfl (hbody s)

/-- A command succeeded if it is written that it was skipped or exited with status zero. -/
theorem succeeded_iff {s : BackendStage} (h : Came i (.backend s) acts r) : r.isSuccess = true ↔
    (∃ f, .skips i f ∈ acts) ∨ ∃ saved, .succeeds i saved ∈ acts := by
  cases h with
  | other hbody => exact absurd rfl (hbody s)
  | stopped | unreadable | skipped => simp
  | unlaunched s fingerprint => cases fingerprint <;> simp [found]
  | ended s fingerprint outcome saved =>
    rw [BackendStage.isSuccess_conclude, ExitOutcome.isSuccess]
    cases fingerprint <;> simp [found, eq_comm]

/-- It did its work if it is written that it exited with status zero. -/
theorem didWork_iff {s : BackendStage} (h : Came i (.backend s) acts r) :
    r.didWork = true ↔ ∃ saved, .succeeds i saved ∈ acts := by
  -- only a command that has ended with success did work
  cases h with
  | other hbody => exact absurd rfl (hbody s)
  | stopped | unreadable => simp [StageResult.didWork]
  | skipped => simp [StageResult.didWork, BackendStage.upToDate, StageResult.fresh]
  | unlaunched s fingerprint => cases fingerprint <;> simp [found, StageResult.didWork]
  | ended s fingerprint outcome saved =>
    rw [StageResult.didWork, BackendStage.isSuccess_conclude, BackendStage.skipped_conclude,
      ExitOutcome.isSuccess]
    cases fingerprint <;> simp [found, eq_comm]

/-- It was skipped if that is written. -/
theorem skipped_iff {s : BackendStage} (h : Came i (.backend s) acts r) :
    r.skipped = true ↔ ∃ f, .skips i f ∈ acts := by
  cases h with
  | other hbody => exact absurd rfl (hbody s)
  | stopped | unreadable => simp [BackendStage.cancelled, BackendStage.failed, StageResult.ofFailure]
  | skipped => simp [BackendStage.upToDate, StageResult.fresh]
  | unlaunched s fingerprint =>
    cases fingerprint <;> simp [found, BackendStage.notLaunched, BackendStage.failed, StageResult.ofFailure]
  | ended s fingerprint => cases fingerprint <;> simp [found]

/-- A stage that did not stop, fail to read or try a launch was skipped. -/
theorem eq_upToDate {s : BackendStage} (h : Came i (.backend s) acts r) (hstops : .stops i ∉ acts)
    (hreads : .unreadable i ∉ acts) (hunlaunched : .unlaunched i ∉ acts) (hlaunches : .launches i ∉ acts) :
    r = s.upToDate := by
  cases h with
  | other hbody => exact absurd rfl (hbody s)
  | stopped => simp at hstops
  | unreadable => simp at hreads
  | skipped => rfl
  | unlaunched => simp at hunlaunched
  | ended => simp at hlaunches

end Came

/-- What the stage wrote in this run fits the result. -/
def Told (S : Setting) (log : List Act) (i : Nat) (r : StageResult) : Prop :=
  ∃ body, S.bodies[i]? = some body ∧ Came i body (diary i (thisRun log)) r

namespace Told

variable (h : Told S log i r)
include h

/-- What a backend stage was told is in its diary. -/
theorem came {s : BackendStage} (hs : S.bodies[i]? = some (.backend s)) :
    Came i (.backend s) (diary i (thisRun log)) r := by
  obtain ⟨body, hbody, hcame⟩ := h
  rwa [← Option.some.inj (hbody.symm.trans hs)]

/-- A success of any kind. -/
theorem succeeded (hr : r.isSuccess = true) : Succeeded S (thisRun log) i := fun _ hs =>
  ((h.came hs).succeeded_iff.mp hr).imp (fun ⟨f, hf⟩ => ⟨f, mem_of_mem_diary hf⟩)
    fun ⟨saved, hsaved⟩ => ⟨saved, mem_of_mem_diary hsaved⟩

/-- A success that did work. -/
theorem worked (hr : r.didWork = true) : Worked S (thisRun log) i := fun _ hs =>
  ((h.came hs).didWork_iff.mp hr).imp fun _ hsaved => mem_of_mem_diary hsaved

/-- Who did no work has no success in its diary. -/
theorem not_worked (hr : r.didWork = false) (saved : Bool) : .succeeds i saved ∉ thisRun log := by
  intro hmem
  replace hmem : .succeeds i saved ∈ diary i (thisRun log) := mem_diary.mpr ⟨hmem, rfl⟩
  obtain ⟨body, hbody, hcame⟩ := h
  -- only backend stages have diaries
  cases body with
  | backend s =>
    have := hcame.didWork_iff.mpr ⟨saved, hmem⟩
    rw [hr] at this
    cases this
  | clean s | fixed s =>
    rw [hcame.acts_of_other (by simp)] at hmem
    exact List.not_mem_nil hmem

/-- Only the diary of the stage matters. -/
theorem congr (hlog : diary i (thisRun log') = diary i (thisRun log)) : Told S log' i r := by
  rwa [Told, hlog]

end Told

/-! ## Courses

  A task that has not ended is the only one of its stage, and was started by the loop.  What it has written fits its
  phase; what an ended one has written fits its result. -/

/-- A task of this run that has not ended. -/
structure Live (S : Setting) (log : List Act) (run : PipelineRun) (i : Nat) (t : StageTask) : Prop where
  /-- The task is that of a stage. -/
  stage : t.stage = some i
  /-- It does what the stage does. -/
  body : S.bodies[i]? = some t.body
  /-- It looks at the token of the run. -/
  token : t.token = run.token
  /-- It was started with this flag, which says whether a predecessor did work. -/
  started : (i, t.upstreamRebuilt) ∈ run.started
  /-- The loop has no result of it. -/
  result : run.state.result? i = none
  /-- And none is on its way. -/
  unheard : ∀ ending, (i, ending) ∉ run.arrived
  /-- Its diary is that of a stage in this phase. -/
  underway : Underway i t.body t.phase (diary i (thisRun log))

/-- A stage with a task was started. -/
theorem Live.hasStarted (h : Live S log run i t) : run.HasStarted i := List.mem_map_of_mem h.started

/-- A run, its tasks and the log go together. -/
structure Course (S : Setting) (log : List Act) (run : PipelineRun) (tasks : List StageTask) : Prop where
  /-- The loop keeps what is known of loops. -/
  loop : ∃ config, Sound { S.pipeline with config } run.toDispatch
  /-- The stages do what they do. -/
  bodies : run.bodies = S.bodies
  /-- A task that has not ended is that of a stage under way. -/
  live : ∀ (n : Nat) (t : StageTask), tasks[n]? = some t → t.phase ≠ .ended → ∃ i, Live S log run i t
  /-- No stage has two tasks that have not ended. -/
  alone : ∀ (n m : Nat) (t u : StageTask), tasks[n]? = some t → tasks[m]? = some u → t.phase ≠ .ended →
    u.phase ≠ .ended → t.stage = u.stage → n = m
  /-- No stage has ended twice. -/
  arrived_nodup : (run.arrived.map Prod.fst).Nodup
  /-- Who has ended and was not heard of yet: a started stage without a result, and it was told what its ending says. -/
  arrived : ∀ i ending, (i, ending) ∈ run.arrived →
    run.HasStarted i ∧ run.state.result? i = none ∧ Told S log i (S.pipeline.plan.resultOf i ending)
  /-- A started stage with a result was told it. -/
  settled : ∀ i r, run.HasStarted i → run.state.result? i = some r → Told S log i r
  /-- A stage that was not started has an empty diary. -/
  unstarted : ∀ i, ¬ run.HasStarted i → diary i (thisRun log) = []

/-- The tasks after one of them has got another phase. -/
theorem getElem?_modify_phase {phase : StagePhase} (hn : tasks[n]? = some t) {m : Nat} {u : StageTask}
    (hu : (tasks.modify n fun t => { t with phase })[m]? = some u) :
    m = n ∧ u = { t with phase } ∨ m ≠ n ∧ tasks[m]? = some u := by
  by_cases hm : m = n
  · subst hm
    rw [List.getElem?_modify_eq, hn] at hu
    exact Or.inl ⟨rfl, (Option.some.inj hu).symm⟩
  · rw [List.getElem?_modify_ne _ _ (Ne.symm hm)] at hu
    exact Or.inr ⟨hm, hu⟩

namespace Course

/-- A run begins: no stage has written anything in it, and no task of an earlier one is left. -/
theorem begins (hp : S.pipeline.plan.WellFormed) (hended : ∀ t ∈ tasks, t.phase = .ended)
    (config : PipelineConfig) (token : TokenId) :
    Course S (log ++ [.begins]) (S.newRun config token) tasks := by
  refine ⟨⟨config, Sound.start hp⟩, rfl, fun n t hn ht => ?_, fun n m t u hn _ ht => ?_, List.nodup_nil,
    fun i ending hi => absurd hi List.not_mem_nil, fun i r hi => absurd hi List.not_mem_nil, fun i _ => ?_⟩
  · exact absurd (hended t (List.mem_of_getElem? hn)) ht
  · exact absurd (hended t (List.mem_of_getElem? hn)) ht
  · rw [thisRun_begins, diary_nil]

variable (h : Course S log run tasks)
include h

/-! ## What a started stage was told

  What is known at the start of a stage, read off the results of its predecessors: they have all succeeded, and the
  flag says whether one of them did its work.  So the log says the same of them. -/

/-- What was not started has not succeeded. -/
theorem started_of_success (hr : run.state.result? i = some r) (hsucc : r.isSuccess = true) :
    run.HasStarted i := by
  obtain ⟨config, hs⟩ := h.loop
  rcases hs.origin i r hr with hst | ⟨q, -, -, rfl⟩ | ⟨reason, -, rfl⟩
  · exact hst
  · cases hsucc
  · cases hsucc

/-- All predecessors of a started stage have succeeded, and wrote that. -/
theorem pred_result (hi : run.HasStarted i) (hj : j ∈ S.preds i) :
    ∃ r, run.state.result? j = some r ∧ r.isSuccess = true ∧ Told S log j r := by
  obtain ⟨config, hs⟩ := h.loop
  obtain ⟨⟨k, flag⟩, hk, rfl⟩ := List.mem_map.mp hi
  obtain ⟨r, hr, hsucc⟩ := Execution.succeeded_iff.mp
    ((hs.started k flag hk).2.1 j (by rw [hs.plan]; exact hj))
  exact ⟨r, hr, hsucc, h.settled j r (h.started_of_success hr hsucc) hr⟩

/-- What a started stage waits for was successful. -/
theorem ready (hi : run.HasStarted i) : Ready S (thisRun log) i := fun _ hj =>
  have ⟨_, _, hsucc, htold⟩ := h.pred_result hi hj
  htold.succeeded hsucc

/-- The flag tells whether a predecessor did its work. -/
theorem flag_eq {flag : Bool} (hi : (i, flag) ∈ run.started) : flag =
    (S.preds i).any fun j => (run.state.result? j).any StageResult.didWork := by
  obtain ⟨config, hs⟩ := h.loop
  rw [← (hs.started i flag hi).2.2, Execution.upstreamRebuilt, hs.plan]
  rfl

/-- A stage that is started with the flag has a predecessor that did work. -/
theorem worked (hi : (i, true) ∈ run.started) : ∃ j ∈ S.preds i, Worked S (thisRun log) j := by
  obtain ⟨j, hj, hwork⟩ := List.any_eq_true.mp (h.flag_eq hi).symm
  obtain ⟨r, hr, -, htold⟩ := h.pred_result (List.mem_map_of_mem hi) hj
  rw [hr] at hwork
  exact ⟨j, hj, htold.worked hwork⟩

/-- A stage that is started without it has none. -/
theorem idle (hi : (i, false) ∈ run.started) : ∀ j ∈ S.preds i, ∀ saved, .succeeds j saved ∉ thisRun log := by
  intro j hj saved
  obtain ⟨r, hr, -, htold⟩ := h.pred_result (List.mem_map_of_mem hi) hj
  refine htold.not_worked ?_ saved
  have := List.any_eq_false.mp (h.flag_eq hi).symm j hj
  rw [hr] at this
  exact Bool.eq_false_iff.mpr this

/-- All stages have results if there is an outcome. -/
theorem result_of_outcome (ho : run.outcome.isSome = true) (hi : i < S.pipeline.plan.names.length) :
    (run.state.result? i).isSome = true := by
  obtain ⟨config, hs⟩ := h.loop
  obtain ⟨o, ho⟩ := Option.isSome_iff_exists.mp ho
  exact hs.coherent.all_settled hs.closed (hs.ended o ho).1 i (by rw [hs.plan]; exact hi)

/-- All stages have succeeded if the outcome says so. -/
theorem all_succeeded {o : PipelineOutcome} (ho : run.outcome = some o) (hstatus : o.status = .succeeded)
    (hi : i < S.pipeline.plan.names.length) : Succeeded S (thisRun log) i := by
  obtain ⟨r, hr⟩ := Option.isSome_iff_exists.mp (h.result_of_outcome (by rw [ho]; rfl) hi)
  obtain ⟨config, hs⟩ := h.loop
  obtain ⟨-, rfl⟩ := hs.ended o ho
  have hmem : r ∈ run.state.orderedResults := List.mem_filterMap.mpr
    ⟨i, hs.coherent.plan.mem_order.mpr (by rw [hs.plan]; exact hi), hr⟩
  have hsucc : r.isSuccess = true := PipelineStatus.all_of_aggregate hstatus _ (List.mem_map_of_mem hmem)
  exact (h.settled i r (h.started_of_success hr hsucc) hr).succeeded hsucc

/-- No task of a run that is done has anything left to do. -/
theorem ended_of_outcome (ho : run.outcome.isSome = true) : ∀ t ∈ tasks, t.phase = .ended := by
  intro t ht
  by_contra hphase
  obtain ⟨n, hn⟩ := List.mem_iff_getElem?.mp ht
  -- a task that has not ended is that of a stage that runs, but the loop has ended and nobody runs
  obtain ⟨i, hlive⟩ := h.live n t hn hphase
  obtain ⟨config, hs⟩ := h.loop
  obtain ⟨o, ho⟩ := Option.isSome_iff_exists.mp ho
  have hrunning := (hs.mem_running i).mpr ⟨hlive.hasStarted, hlive.result⟩
  have hdone := (hs.ended o ho).1
  rw [Execution.isDone, Bool.and_eq_true, List.isEmpty_iff] at hdone
  rw [hdone.1] at hrunning
  exact List.not_mem_nil hrunning

/-! ## How a run goes on

  The four ways to go on, each of which touches one stage.  For the others it has to be shown that nothing is written
  in their diaries and that their tasks are as they were. -/

/-- Only diaries of this run matter. -/
theorem congr (hlog : ∀ i, diary i (thisRun log') = diary i (thisRun log)) : Course S log' run tasks := by
  refine ⟨h.loop, h.bodies, fun n t hn ht => ?_, h.alone, h.arrived_nodup, fun i ending hi => ?_,
    fun i r hi hr => (h.settled i r hi hr).congr (hlog i), fun i hi => (hlog i).trans (h.unstarted i hi)⟩
  · obtain ⟨i, hlive⟩ := h.live n t hn ht
    exact ⟨i, { hlive with underway := hlog i ▸ hlive.underway }⟩
  · obtain ⟨hst, hr, htold⟩ := h.arrived i ending hi
    exact ⟨hst, hr, htold.congr (hlog i)⟩

/-- The loop makes a step that tells of no stage. -/
theorem steps {e : Dispatch.Event} {loop : Dispatch} (hstep : run.toDispatch.step e = some loop)
    (he : ∀ i ending, e ≠ .finish i ending) : Course S log { run with toDispatch := loop } tasks := by
  obtain ⟨config, hs⟩ := h.loop
  -- no event but the end of a stage gives a started stage a result
  have hkeep : ∀ i, loop.HasStarted i → loop.state.result? i = run.state.result? i := fun i =>
    hs.result?_of_step hstep (he i)
  refine ⟨⟨config, hs.step hstep⟩, h.bodies, fun n t hn ht => ?_, h.alone, h.arrived_nodup,
    fun i ending hi => ?_, fun i r hi hr => ?_, fun i hi => h.unstarted i fun hst => hi (hst.step hstep)⟩
  -- live, arrived and settled one by one: who was started stays so, and results stay
  · obtain ⟨i, hlive⟩ := h.live n t hn ht
    exact ⟨i, { hlive with
      started := Dispatch.mem_started_of_step hstep hlive.started
      result := (hkeep i (hlive.hasStarted.step hstep)).trans hlive.result }⟩
  · obtain ⟨hst, hr, htold⟩ := h.arrived i ending hi
    exact ⟨hst.step hstep, (hkeep i (hst.step hstep)).trans hr, htold⟩
  · rw [show ({ run with toDispatch := loop } : PipelineRun).state = loop.state from rfl, hkeep i hi] at hr
    refine h.settled i r ?_ hr
    -- what was just started has no result
    by_contra hnew
    rw [(hs.canStart_of_step hstep hi hnew).2.1] at hr
    cases hr

/-- A started stage gets its task. -/
theorem spawns {flag : Bool} (hi : (i, flag) ∈ run.started) (hr : run.state.result? i = none)
    (hunheard : ∀ ending, (i, ending) ∉ run.arrived) (hbody : S.bodies[i]? = some body)
    (hnew : diary i (thisRun log) = [])
    (hnone : ∀ (n : Nat) (t : StageTask), tasks[n]? = some t → t.phase ≠ .ended → t.stage ≠ some i) :
    Course S log run (tasks ++ [Rehearsal.taskOf run i flag body]) := by
  have hlive : Live S log run i (Rehearsal.taskOf run i flag body) :=
    ⟨rfl, hbody, rfl, hi, hr, hunheard, hnew ▸ .starting body⟩
  -- a task is one of those before, or the new one
  have hget : ∀ (n : Nat) (t : StageTask), (tasks ++ [Rehearsal.taskOf run i flag body])[n]? = some t →
      tasks[n]? = some t ∨ n = tasks.length ∧ t = Rehearsal.taskOf run i flag body := by
    intro n t hn
    -- before the new task, at it, and behind it
    rcases Nat.lt_trichotomy n tasks.length with hlt | rfl | hgt
    · rw [List.getElem?_append_left hlt] at hn
      exact Or.inl hn
    · rw [List.getElem?_concat_length] at hn
      exact Or.inr ⟨rfl, (Option.some.inj hn).symm⟩
    · rw [List.getElem?_eq_none (by rw [List.length_append, List.length_singleton]; omega)] at hn
      cases hn
  refine ⟨h.loop, h.bodies, fun n t hn ht => ?_, fun n m t u hn hm ht hu heq => ?_, h.arrived_nodup,
    h.arrived, h.settled, h.unstarted⟩
  · rcases hget n t hn with hn | ⟨-, rfl⟩
    · exact h.live n t hn ht
    · exact ⟨i, hlive⟩
  -- two tasks of one stage: both are old, or the new one would be that of a stage that has one
  · rcases hget n t hn with hn | ⟨rfl, rfl⟩ <;> rcases hget m u hm with hm | ⟨rfl, rfl⟩
    · exact h.alone n m t u hn hm ht hu heq
    · exact absurd heq (hnone n t hn ht)
    · exact absurd heq.symm (hnone m u hm hu)
    · rfl

/-- The loop hears how a stage ended. -/
theorem hears {k : Nat} {ending : Except String StageResult} {loop : Dispatch}
    (hk : run.arrived[k]? = some (i, ending)) (hstep : run.toDispatch.step (.finish i ending) = some loop) :
    Course S log { run with arrived := run.arrived.eraseIdx k, toDispatch := loop } tasks := by
  obtain ⟨config, hs⟩ := h.loop
  have hmem : (i, ending) ∈ run.arrived := List.mem_of_getElem? hk
  have hkeep : ∀ j, j ≠ i → loop.HasStarted j → loop.state.result? j = run.state.result? j := fun j hj =>
    hs.result?_of_step hstep fun ending' heq => hj (by injection heq with hij; exact hij.symm)
  -- every stage has ended once at most, so what is left tells of others
  have hleft : ∀ j ending', (j, ending') ∈ run.arrived.eraseIdx k → j ≠ i := by
    rintro j ending' hj rfl
    obtain ⟨m, hm, hget⟩ := List.mem_eraseIdx_iff_getElem?.mp hj
    have hlt : m < (run.arrived.map Prod.fst).length := by
      rw [List.length_map]
      exact (List.getElem?_eq_some_iff.mp hget).1
    refine hm ((List.getElem?_inj hlt h.arrived_nodup).mp ?_)
    rw [List.getElem?_map, List.getElem?_map, hget, hk]
    rfl
  refine ⟨⟨config, hs.step hstep⟩, h.bodies, fun n t hn ht => ?_, h.alone, ?_, fun j ending' hj => ?_,
    fun j r hj hr => ?_, fun j hj => h.unstarted j fun hst => hj (hst.step hstep)⟩
  -- live: the stage that was heard of has no task any more, so tasks are those of others
  · obtain ⟨j, hlive⟩ := h.live n t hn ht
    have hji : j ≠ i := by
      rintro rfl
      exact hlive.unheard ending hmem
    exact ⟨j, { hlive with
      started := Dispatch.mem_started_of_step hstep hlive.started
      result := (hkeep j hji (hlive.hasStarted.step hstep)).trans hlive.result
      unheard := fun ending' hj => hlive.unheard ending' ((List.eraseIdx_sublist ..).subset hj) }⟩
  -- arrived: what is left of it
  · exact h.arrived_nodup.sublist ((List.eraseIdx_sublist ..).map _)
  · obtain ⟨hst, hr, htold⟩ := h.arrived j ending' ((List.eraseIdx_sublist ..).subset hj)
    exact ⟨hst.step hstep, (hkeep j (hleft j ending' hj) (hst.step hstep)).trans hr, htold⟩
  -- settled: the stage that was heard of has the result of its ending
  · by_cases hji : j = i
    · subst hji
      obtain ⟨-, -, htold⟩ := h.arrived j ending hmem
      rw [show ({ run with arrived := run.arrived.eraseIdx k, toDispatch := loop } : PipelineRun).state =
        loop.state from rfl, hs.result?_finish hstep] at hr
      exact Option.some.inj hr ▸ htold
    · rw [show ({ run with arrived := run.arrived.eraseIdx k, toDispatch := loop } : PipelineRun).state =
        loop.state from rfl, hkeep j hji hj] at hr
      refine h.settled j r ?_ hr
      by_contra hnew
      rw [(hs.canStart_of_step hstep hj hnew).2.1] at hr
      cases hr

section Task

variable (hn : tasks[n]? = some t) (ht : t.phase ≠ .ended) (hi : t.stage = some i)
include hn ht hi

/-- A task that has not ended is the task of its stage. -/
theorem live_of_stage : Live S log run i t := by
  obtain ⟨j, hlive⟩ := h.live n t hn ht
  rwa [show i = j from Option.some.inj (hi.symm.trans hlive.stage)]

/-- What a stage writes leaves the tasks of other stages. -/
theorem live_of_other (hlog : ∀ j, j ≠ i → diary j (thisRun log') = diary j (thisRun log)) {m : Nat}
    {u : StageTask} (hm : m ≠ n) (hu : tasks[m]? = some u) (hulive : u.phase ≠ .ended) :
    ∃ j, j ≠ i ∧ Live S log' run j u := by
  obtain ⟨j, hlive⟩ := h.live m u hu hulive
  have hj : j ≠ i := by
    rintro rfl
    exact hm (h.alone m n u t hu hn hulive ht (hlive.stage.trans hi.symm))
  exact ⟨j, hj, { hlive with underway := hlog j hj ▸ hlive.underway }⟩

omit hi in
/-- It stays the only one of its stage. -/
theorem alone_modify (phase : StagePhase) (m m' : Nat) (u u' : StageTask)
    (hu : (tasks.modify n fun t => { t with phase })[m]? = some u)
    (hu' : (tasks.modify n fun t => { t with phase })[m']? = some u') (hl : u.phase ≠ .ended)
    (hl' : u'.phase ≠ .ended) (heq : u.stage = u'.stage) : m = m' := by
  rcases getElem?_modify_phase hn hu with ⟨rfl, rfl⟩ | ⟨-, hold⟩ <;>
    rcases getElem?_modify_phase hn hu' with ⟨rfl, rfl⟩ | ⟨-, hold'⟩
  · rfl
  · exact h.alone m m' t u' hn hold' ht hl' heq
  · exact h.alone m m' u t hold hn hl ht heq
  · exact h.alone m m' u u' hold hold' hl hl' heq

/-- A task goes on to another phase. -/
theorem proceeds (hlog : ∀ j, j ≠ i → diary j (thisRun log') = diary j (thisRun log)) {phase : StagePhase}
    (hphase : Underway i t.body phase (diary i (thisRun log'))) :
    Course S log' run (tasks.modify n fun t => { t with phase }) := by
  have hlive := h.live_of_stage hn ht hi
  refine ⟨h.loop, h.bodies, fun m u hu hulive => ?_, h.alone_modify hn ht phase, h.arrived_nodup,
    fun j ending hj => ?_, fun j r hj hr => ?_, fun j hj => ?_⟩
  -- live: the task itself is in its new phase, and all others are as before
  · rcases getElem?_modify_phase hn hu with ⟨rfl, rfl⟩ | ⟨hm, hu⟩
    · exact ⟨i, { hlive with underway := hphase }⟩
    · exact (h.live_of_other hn ht hi hlog hm hu hulive).imp fun _ hj => hj.2
  -- arrived and settled: these are other stages, whose diaries have not changed
  · obtain ⟨hst, hr, htold⟩ := h.arrived j ending hj
    refine ⟨hst, hr, htold.congr (hlog j ?_)⟩
    rintro rfl
    exact hlive.unheard ending hj
  · refine (h.settled j r hj hr).congr (hlog j ?_)
    rintro rfl
    rw [hlive.result] at hr
    cases hr
  · refine (hlog j ?_).trans (h.unstarted j hj)
    rintro rfl
    exact hj hlive.hasStarted

/-- A task comes to its end. -/
theorem finishes (hlog : ∀ j, j ≠ i → diary j (thisRun log') = diary j (thisRun log))
    {ending : Except String StageResult}
    (hcame : Came i t.body (diary i (thisRun log')) (S.pipeline.plan.resultOf i ending)) :
    Course S log' { run with arrived := run.arrived ++ [(i, ending)] }
      (tasks.modify n fun t => { t with phase := .ended }) := by
  have hlive := h.live_of_stage hn ht hi
  refine ⟨h.loop, h.bodies, fun m u hu hulive => ?_, h.alone_modify hn ht .ended, ?_,
    fun j ending' hj => ?_, fun j r hj hr => ?_, fun j hj => ?_⟩
  -- live: the task has ended, and all others are as before
  · rcases getElem?_modify_phase hn hu with ⟨rfl, rfl⟩ | ⟨hm, hu⟩
    · exact absurd rfl hulive
    · obtain ⟨j, hj, hother⟩ := h.live_of_other hn ht hi hlog hm hu hulive
      refine ⟨j, { hother with unheard := fun ending' hmem => ?_ }⟩
      rcases List.mem_append.mp hmem with hmem | hmem
      · exact hother.unheard ending' hmem
      · exact hj (Prod.mk.inj (List.mem_singleton.mp hmem)).1
  -- the stage has not ended before
  · show ((run.arrived ++ [(i, ending)]).map Prod.fst).Nodup
    rw [List.map_append]
    refine List.nodup_append_comm.mpr (List.nodup_cons.mpr ⟨fun hmem => ?_, h.arrived_nodup⟩)
    obtain ⟨⟨j, ending'⟩, hj, rfl⟩ := List.mem_map.mp hmem
    exact hlive.unheard ending' hj
  -- arrived: earlier ones, and this one with what it was told
  · rcases List.mem_append.mp hj with hold | hnew
    · obtain ⟨hst, hr, htold⟩ := h.arrived j ending' hold
      refine ⟨hst, hr, htold.congr (hlog j ?_)⟩
      rintro rfl
      exact hlive.unheard ending' hold
    · obtain ⟨rfl, rfl⟩ := Prod.mk.inj (List.mem_singleton.mp hnew)
      exact ⟨hlive.hasStarted, hlive.result, t.body, hlive.body, hcame⟩
  -- settled and unstarted: other stages
  · refine (h.settled j r hj hr).congr (hlog j ?_)
    rintro rfl
    rw [show ({ run with arrived := run.arrived ++ [(j, ending)] } : PipelineRun).state = run.state from rfl,
      hlive.result] at hr
    cases hr
  · refine (hlog j ?_).trans (h.unstarted j hj)
    rintro rfl
    exact hj hlive.hasStarted

end Task

end Course

end History
end Wheelwright
