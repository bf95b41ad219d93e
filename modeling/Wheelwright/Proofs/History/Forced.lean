/-
  Forced — work goes on down the dependencies.

  **Specification** — in a run of backend and clean stages no stage is skipped if anything that it waits for,
  directly or over other stages, did its work in that run.

  **Program** — the loop looks at the direct predecessors of a stage only, and a backend stage that was told
  of none at work still compares its inputs with its record.

  **The crux** — a stage that was skipped was told that none of its direct predecessors did its work
  (`Unforced`).  They had succeeded when it started, and who succeeds without work was skipped.  So what a
  skipped stage waits for was skipped as well, edge after edge (`Unforced.skipped_upstream`).
-/
import Wheelwright.Proofs.History.Freshness

namespace Wheelwright

/-! ## Clean stages

  A clean stage reports the success that it has, or a failure, and never that it was skipped. -/

namespace CleanStage

variable (s : CleanStage)

theorem skipped_sweep (remove : FileTree → Path → FileTree × Option OsError) (stopped : Nat → Option String)
    (entries : List (String × Entry)) (said : List Diagnostic) (t : FileTree) :
    (s.sweep remove stopped entries said t).1.skipped = false := by
  -- induction on the entries that are left; no end of a sweep is a skip
  induction entries generalizing said t with
  | nil => rfl
  | cons entry rest ih =>
    unfold sweep
    cases stopped said.length with
    | some reason => rfl
    | none =>
      dsimp only
      obtain ⟨left, error⟩ := remove t (s.buildDir.child entry.1)
      cases error with
      | none => exact ih _ left
      | some e => rfl

/-- A clean stage is never skipped. -/
theorem skipped_run (stopped : Nat → Option String) (t : FileTree) : (s.run stopped t).1.skipped = false := by
  rw [run, runWith]
  split
  · exact s.skipped_sweep ..
  · rfl
  · rfl

end CleanStage

/-! ## Checks

  A check comes to fresh, stale or an error.  With the flag it is never fresh, whatever the fingerprints are. -/

namespace BackendStage

variable (s : BackendStage) {upstreamRebuilt : Bool} {previous : Option String} {tree : FileTree}

/-- What a check comes to. -/
theorem check_cases : s.check upstreamRebuilt previous tree = .ok (.stale none) ∨
    ∃ verdict, s.check upstreamRebuilt previous tree = s.judge upstreamRebuilt verdict := by
  unfold check
  cases s.staleness with
  | none => exact Or.inl rfl
  | some c => exact Or.inr ⟨_, rfl⟩

/-- A check that fails is no skip. -/
theorem skipped_of_check {r : StageResult} (h : s.check upstreamRebuilt previous tree = .error r) :
    r.skipped = false := by
  -- a check without a verdict goes on, and one that fails is a failure
  rcases s.check_cases with hstale | ⟨verdict, hjudge⟩
  · rw [hstale] at h
    cases h
  · rw [hjudge] at h
    unfold judge at h
    split at h
    · cases h
      rfl
    · split at h <;> cases h

/-- A stage is fresh only if it was not told of any work. -/
theorem upstreamRebuilt_of_fresh (h : s.check upstreamRebuilt previous tree = .ok .fresh) :
    upstreamRebuilt = false := by
  -- the flag forces a stage to run, whatever the records say
  rcases s.check_cases with hstale | ⟨verdict, hjudge⟩
  · rw [hstale] at h
    cases h
  · rw [hjudge] at h
    unfold judge at h
    split at h
    · cases h
    · split at h
      · cases h
      · rename_i hnot
        rw [Bool.not_eq_true, Bool.or_eq_false_iff] at hnot
        exact hnot.2

end BackendStage

namespace History

variable {S : Setting} {log : List Act} {w w' v : Rehearsal} {run : PipelineRun} {tasks : List StageTask}
  {t : StageTask} {n i j : Nat} {ending : Except String StageResult} {r : StageResult}

/-! ## What a task reports

  Tasks report results in many places.  Each of them is looked at for one thing: a result that says skipped comes from
  a check without the flag. -/

/-- A task that reports that it was skipped was not told of any work. -/
def Excused (t : StageTask) (ending : Except String StageResult) : Prop :=
  ∀ r, ending = .ok r → r.skipped = true → t.upstreamRebuilt = false

/-- Only skips need an excuse. -/
theorem Excused.of_not_skipped (hr : r.skipped = false) : Excused t (.ok r) := by
  rintro _ ⟨⟩ hskip
  rw [hr] at hskip
  cases hskip

/-- The run stays as it is, or a task that has not ended reports to it. -/
inductive Reports (w w' : Rehearsal) : Prop
  /-- Nobody has ended. -/
  | nothing (h : w'.run = w.run)
  /-- A task has ended, and its ending is excused: it is no skip, or the task was started without the flag. -/
  | ending {n i : Nat} {t : StageTask} {ending : Except String StageResult} (hn : w.tasks[n]? = some t)
      (ht : t.phase ≠ .ended) (hi : t.stage = some i) (hexcused : Excused t ending)
      (h : w'.run = w.run.map fun run => { run with arrived := run.arrived ++ [(i, ending)] })

/-- Only the run matters. -/
theorem Reports.congr (h : Reports w v) (hrun : w'.run = v.run) : Reports w w' := by
  cases h with
  | nothing h => exact .nothing (hrun.trans h)
  | ending hn ht hi hexcused h => exact .ending hn ht hi hexcused (hrun.trans h)

section Tasks

variable (hn : w.tasks[n]? = some t) (ht : t.phase ≠ .ended)
include hn ht

/-- A task that ends with an excused result. -/
theorem reports_finishWith (hv : v.run = w.run) (hexcused : Excused t ending) :
    Reports w (v.finishWith n t ending) := by
  have hrun := Rehearsal.run_finishWith v n t ending
  cases hi : t.stage with
  | none =>
    rw [hi] at hrun
    exact .nothing (hrun.trans hv)
  | some i =>
    rw [hi, hv] at hrun
    exact .ending hn ht hi hexcused hrun

/-- A command that cannot be launched is a failure, and one that was launched has not ended. -/
theorem reports_launch (s : BackendStage) (fingerprint : Option String) :
    Reports w (w.launch n t s fingerprint) := by
  cases hconduct : (w.conduct s.command).2 with
  | ok started => exact .nothing (Alike.launch_of_ok hconduct n t fingerprint).run
  | error e =>
    have hreports : Reports w (w.finish n t (s.notLaunched e)) :=
      reports_finishWith hn ht rfl (.of_not_skipped rfl)
    exact hreports.congr (Alike.launch_of_error hconduct n t fingerprint).run

/-- A task that starts is stopped, goes to look, or launches its command. -/
theorem reports_enter (hbody : ∀ s, t.body ≠ .fixed s) : Reports w (w.enter n t) := by
  unfold Rehearsal.enter
  cases hb : t.body with
  | clean s => exact .nothing rfl
  | fixed s => exact absurd hb (hbody s)
  | backend s =>
    -- the token is looked at first
    dsimp only
    cases w.cancelText? t.token with
    | some reason => exact reports_finishWith hn ht rfl (.of_not_skipped rfl)
    | none =>
      dsimp only
      split
      · exact .nothing rfl
      · exact reports_launch hn ht s none

/-- A command that has ended gives a result that is no skip. -/
theorem reports_conclude (hv : v.run = w.run) (s : BackendStage) (fingerprint : Option String)
    (outcome : ExitOutcome) (lines : List OutputLine) :
    Reports w (v.conclude n t s fingerprint outcome lines) := by
  unfold Rehearsal.conclude
  cases outcome.isSuccess with
  | false => exact reports_finishWith hn ht hv (.of_not_skipped (s.skipped_conclude ..))
  | true =>
    exact reports_finishWith hn ht ((run_record v s fingerprint).1.trans hv)
      (.of_not_skipped (s.skipped_conclude ..))

/-- Only a comparison can come to a skip, and it looks at what the task was told. -/
theorem reports_compare (s : BackendStage) (previous : Option String) :
    Reports w (w.compare n t s previous) := by
  unfold Rehearsal.compare
  split
  · rename_i r hcheck
    exact reports_finishWith hn ht rfl (.of_not_skipped (s.skipped_of_check hcheck))
  · rename_i hcheck
    exact reports_finishWith hn ht rfl fun _ _ _ => s.upstreamRebuilt_of_fresh hcheck
  · exact .nothing rfl

end Tasks

section Events

variable (hbody : ∀ t ∈ w.tasks, t.phase ≠ .ended → ∀ s, t.body ≠ .fixed s)
include hbody

/-- A task that goes on reports what it reports when it starts or launches. -/
theorem reports_advance (n : Nat) : Reports w (w.advance n) := by
  unfold Rehearsal.advance
  cases hn : w.tasks[n]? with
  -- by the phase of the task
  | none => exact .nothing rfl
  | some t =>
    have hfixed := hbody t (List.mem_of_getElem? hn)
    dsimp only
    cases hphase : t.phase with
    | starting =>
      have hlive : t.phase ≠ .ended := by simp [hphase]
      exact reports_enter hn hlive (hfixed hlive)
    | waiting =>
      have hlive : t.phase ≠ .ended := by simp [hphase]
      cases hb : t.body with
      | fixed s => exact absurd hb (hfixed hlive s)
      | clean s | backend s => exact .nothing rfl
    | launching fingerprint =>
      cases t.body with
      | backend s => exact reports_launch hn (by simp [hphase]) s fingerprint
      | clean s | fixed s => exact .nothing rfl
    | looking previous | playing fingerprint | ended => exact .nothing rfl

omit hbody in
/-- A look ends with a sweep, which is no skip, or with a comparison, which skips only without the flag. -/
theorem reports_look (hlook : w.isLooking n = true) : Reports w (w.look n) := by
  obtain ⟨t, previous, hn, hphase⟩ := Rehearsal.isLooking_iff.mp hlook
  have ht : t.phase ≠ .ended := by simp [hphase]
  unfold Rehearsal.look
  rw [hn]
  dsimp only
  rw [hphase]
  cases t.body with
  | clean s => exact reports_finishWith hn ht rfl (.of_not_skipped (s.skipped_run ..))
  | backend s => exact reports_compare hn ht s previous
  | fixed s => exact .nothing rfl

omit hbody in
/-- A process that is gone gives its task an ending. -/
theorem reports_report (k : Nat) : Reports w (w.report k) := by
  unfold Rehearsal.report
  cases w.processes[k]? with
  | none => exact .nothing rfl
  | some p =>
    dsimp only
    -- it is gone, and its task is there and waits for it
    cases p.gone with
    | none => exact .nothing rfl
    | some d =>
      cases hn : w.tasks[p.task]? with
      | none => exact .nothing rfl
      | some t =>
        dsimp only
        cases hphase : t.phase with
        | playing fingerprint =>
          cases t.body with
          | backend s =>
            have hlive : t.phase ≠ .ended := by simp [hphase]
            have hafter : (w.afterProcess d).run = w.run := rfl
            exact reports_conclude hn hlive hafter s fingerprint d.outcome (d.lines (w.now - p.launchedAt))
          | clean s | fixed s => exact .nothing rfl
        | starting | looking previous | launching fingerprint | waiting | ended => exact .nothing rfl

end Events

/-! ## What skipped stages were told

  The flag was given when the stage was started, and tells of the predecessors at that time.  They have all succeeded
  by then, so it does not change any more. -/

/-- Every stage that was skipped was told that no direct predecessor did its work. -/
structure Unforced (run : PipelineRun) : Prop where
  /-- A skip that has arrived is that of a stage that was started without the flag. -/
  arrived : ∀ i r, (i, .ok r) ∈ run.arrived → r.skipped = true → (i, false) ∈ run.started
  /-- And so is one that the loop has heard of. -/
  settled : ∀ i r, run.state.result? i = some r → r.skipped = true → (i, false) ∈ run.started

namespace Unforced

/-- At the start of a run nothing has arrived. -/
theorem start (S : Setting) (config : PipelineConfig) (token : TokenId) :
    Unforced (S.newRun config token) := by
  refine ⟨fun i r hi => absurd hi List.not_mem_nil, fun i r hr => ?_⟩
  rw [show (S.newRun config token).state = Execution.start S.pipeline.plan from rfl,
    Execution.result?_start] at hr
  cases hr

/-- A task reports. -/
theorem reports (h : Unforced run) (hexcused : Excused t ending) (hi : (i, t.upstreamRebuilt) ∈ run.started) :
    Unforced { run with arrived := run.arrived ++ [(i, ending)] } := by
  refine ⟨fun k r hk hskip => ?_, h.settled⟩
  rcases List.mem_append.mp hk with hold | hnew
  · exact h.arrived k r hold hskip
  · obtain ⟨rfl, heq⟩ := Prod.mk.inj (List.mem_singleton.mp hnew)
    have hflag := hexcused r heq.symm hskip
    rwa [hflag] at hi

/-- The loop makes a step; a result that it gives to a stage on its own is not that of a skip. -/
theorem steps {p : Pipeline} {e : Dispatch.Event} {loop : Dispatch}
    {arrived : List (Nat × Except String StageResult)} (h : Unforced run) (hs : Dispatch.Sound p run.toDispatch)
    (hstep : run.toDispatch.step e = some loop) (hleft : arrived ⊆ run.arrived)
    (he : ∀ i ending, e = .finish i ending → (i, ending) ∈ run.arrived) :
    Unforced { run with arrived, toDispatch := loop } := by
  refine ⟨fun i r hi hskip => Dispatch.mem_started_of_step hstep (h.arrived i r (hleft hi) hskip),
    fun i r hr hskip => Dispatch.mem_started_of_step hstep ?_⟩
  rw [show ({ run with arrived, toDispatch := loop } : PipelineRun).state = loop.state from rfl] at hr
  -- a result that was there, or a new one: of a stage that has ended, or that was blocked
  cases hold : run.state.result? i with
  | some q =>
    have hsame := (hs.extends_step hstep).result? i q hold
    rw [hr] at hsame
    exact h.settled i r (hsame ▸ hold) hskip
  | none =>
    rcases (hs.step hstep).origin i r hr with hst | ⟨q, -, -, rfl⟩ | ⟨reason, -, rfl⟩
    · obtain ⟨ending, rfl, rfl⟩ := hs.new_result hstep hold hr hst
      cases ending with
      | ok r => exact h.arrived i r (he i (.ok r) rfl) hskip
      | error cause => cases hskip
    · cases hskip
    · cases hskip

variable (hown : ∀ body ∈ S.bodies, ∀ s, body ≠ StageBody.fixed s)
include hown

/-- **Every event leaves it so.** -/
theorem happen {e : Event} {act : Option Act} (hf : Faithful S log w)
    (h : ∀ run, w.run = some run → Unforced run) (he : S.happen? w e = some (act, w')) :
    ∀ run, w'.run = some run → Unforced run := by
  -- in such a setting no task is about a fixed stage
  have hbody : ∀ t ∈ w.tasks, t.phase ≠ .ended → ∀ s, t.body ≠ .fixed s := by
    intro t ht hlive s hs
    obtain ⟨n, hn⟩ := List.mem_iff_getElem?.mp ht
    obtain ⟨run, -, hcourse⟩ := hf.run_of_live hn hlive
    obtain ⟨i, hi⟩ := hcourse.live n t hn hlive
    exact hown t.body (List.mem_of_getElem? hi.body) s hs
  -- a task that reports was started with the flag that it has
  have hreports : ∀ v, Reports w v → ∀ run, v.run = some run → Unforced run := by
    rintro v (hsame | ⟨hn, ht, hi, hexcused, hv⟩) run hrun
    · exact h run (hsame ▸ hrun)
    · obtain ⟨run', hrun', hcourse⟩ := hf.run_of_live hn ht
      rw [hv, hrun'] at hrun
      cases hrun
      exact (h run' hrun').reports hexcused (hcourse.live_of_stage hn ht hi).started
  have hloop : ∀ {e : Dispatch.Event} {found : PipelineRun × Dispatch}, w.loopStep? e = some found →
      (∀ i ending, e ≠ .finish i ending) → Unforced { found.1 with toDispatch := found.2 } := by
    intro e found hfound hne
    obtain ⟨hrun, hstep⟩ := loopStep?_eq_some hfound
    obtain ⟨config, hs⟩ := (hf.course found.1 hrun).loop
    exact (h found.1 hrun).steps hs hstep (List.Subset.refl _) fun i ending heq => absurd heq (hne i ending)
  intro run' hrun'
  -- one event after the other: those of the loop, then those of tasks
  unfold Setting.happen? at he
  cases e with
  | around other =>
    cases he
    exact h run' hrun'
  | begin config token =>
    dsimp only at he
    split at he
    · cases he
      cases hrun'
      exact .start S config token
    · cases he
  | trip reason =>
    obtain ⟨⟨run, loop⟩, hfound, heq⟩ := Option.map_eq_some_iff.mp he
    cases heq
    cases hrun'
    exact hloop hfound (by simp)
  | take =>
    obtain ⟨⟨run, loop⟩, hfound, heq⟩ := Option.map_eq_some_iff.mp he
    cases heq
    rw [(Rehearsal.spawnAll_frame ..).1] at hrun'
    cases hrun'
    exact hloop hfound (by simp)
  | hear k =>
    obtain ⟨run, hrun, he⟩ := Option.bind_eq_some_iff.mp he
    obtain ⟨⟨i, ending⟩, hk, he⟩ := Option.bind_eq_some_iff.mp he
    obtain ⟨loop, hstep, he⟩ := Option.bind_eq_some_iff.mp he
    cases he
    cases hrun'
    obtain ⟨config, hs⟩ := (hf.course run hrun).loop
    refine (h run hrun).steps hs hstep (List.eraseIdx_sublist ..).subset fun j ending' heq => ?_
    cases heq
    exact List.mem_of_getElem? hk
  | close =>
    obtain ⟨⟨run, loop⟩, hfound, heq⟩ := Option.map_eq_some_iff.mp he
    cases heq
    cases hrun'
    exact hloop hfound (by simp)
  | advance n =>
    cases he
    exact hreports _ (reports_advance hbody n) run' hrun'
  | look n =>
    dsimp only at he
    split at he
    · rename_i hlook
      cases he
      exact hreports _ (reports_look hlook) run' hrun'
    · cases he
  | report k =>
    cases he
    exact hreports _ (reports_report k) run' hrun'
  | forget m start =>
    cases he
    exact h run' hrun'

/-- **It is so after any events.** -/
theorem follow {events : List Event} {more : List Act} (hp : S.pipeline.plan.WellFormed)
    (hf : Faithful S log w) (h : ∀ run, w.run = some run → Unforced run)
    (hw : S.follow w events = some (more, w')) : ∀ run, w'.run = some run → Unforced run := by
  induction events generalizing log w more with
  | nil =>
    cases hw
    exact h
  | cons e rest ih =>
    obtain ⟨act, next, tail, hnext, hrest, rfl⟩ := Setting.follow_cons hw
    exact ih (hf.moves hp (moves_of_happen hf.regular hnext)) (happen hown hf h hnext) hrest

omit hown

/-! ## Down the dependencies

  A predecessor that did no work and succeeded was skipped itself.  So from a skipped stage one gets to skipped stages
  only, edge by edge. -/

/-- A direct predecessor of a skipped stage was skipped. -/
theorem skipped_pred (h : Unforced run) (hc : Course S log run tasks) (hr : run.state.result? i = some r)
    (hskip : r.skipped = true) (hj : j ∈ S.preds i) :
    ∃ q, run.state.result? j = some q ∧ q.skipped = true := by
  have hi := h.settled i r hr hskip
  obtain ⟨q, hq, hsucc, -⟩ := hc.pred_result (List.mem_map_of_mem hi) hj
  have hidle : q.didWork = false := by
    have hnone := List.any_eq_false.mp (hc.flag_eq hi).symm j hj
    rw [hq] at hnone
    exact Bool.eq_false_iff.mpr hnone
  -- it succeeded, and not by working
  rw [StageResult.didWork, hsucc, Bool.true_and, Bool.not_eq_false'] at hidle
  exact ⟨q, hq, hidle⟩

/-- **Whatever a skipped stage waits for was skipped.** -/
theorem skipped_upstream (h : Unforced run) (hc : Course S log run tasks)
    (hdep : Relation.TransGen (Edge S.pipeline.plan.predecessors) j i) (hr : run.state.result? i = some r)
    (hskip : r.skipped = true) : ∃ q, run.state.result? j = some q ∧ q.skipped = true := by
  induction hdep generalizing r with
  | single hj => exact h.skipped_pred hc hr hskip hj
  | tail _ hm ih =>
    obtain ⟨q, hq, hskipped⟩ := h.skipped_pred hc hr hskip hm
    exact ih hq hskipped

end Unforced

/-! ## The main result

  The theorem for all runs, and two runs of three stages of which the first one always does its work. -/

/-- **Work forces all that comes after it**: no stage of backends and cleans is skipped in a run in which a
    stage that it waits for, directly or not, did its work. -/
theorem not_skipped_after_work {w₀ : Rehearsal} {events : List Event} {q : StageResult}
    (hplan : plan S.pipeline.specs = .ok S.pipeline.plan) (hown : ∀ body ∈ S.bodies, ∀ s, body ≠ StageBody.fixed s)
    (hw₀ : S.Unused w₀) (hw : S.follow w₀ events = some (log, w)) (hrun : w.run = some run)
    (hdep : DependsOn S.pipeline.specs i j) (hq : run.state.result? j = some q) (hwork : q.didWork = true)
    (hr : run.state.result? i = some r) : r.skipped = false := by
  -- the plan is sound, so a run keeps to it
  have hdesc := (describes_of_plan hplan).1
  have hp := hdesc.toWellFormed
  have hf : Faithful S log w := List.nil_append log ▸ (Faithful.start hw₀).follow hp hw
  have h : Unforced run := by
    refine Unforced.follow hown hp (Faithful.start hw₀) (fun run' hrun' => ?_) hw run hrun
    rw [hw₀.run] at hrun'
    cases hrun'
  -- dependencies are paths of edges in the plan
  have hedge : Relation.TransGen (Edge S.pipeline.plan.predecessors) j i := hdesc.edge_eq ▸ hdep
  by_contra hskip
  rw [Bool.not_eq_false] at hskip
  -- else the worker would have been skipped itself
  obtain ⟨q', hq', hskipped⟩ := h.skipped_upstream (hf.course run hrun) hedge hr hskip
  obtain rfl : q = q' := Option.some.inj (hq.symm.trans hq')
  rw [StageResult.didWork, hskipped, Bool.not_true, Bool.and_false] at hwork
  cases hwork

/-- A directory is emptied before two commands run, one after the other. -/
def swept : Setting :=
  { pipeline :=
      { name := "swept"
        specs := [{ name := "clean" }, { name := "prepare", predecessors := ["clean"] },
          { name := "build", predecessors := ["prepare"] }]
        plan := ⟨["clean", "prepare", "build"], [[], [0], [1]], [0, 1, 2], [[], [0], [1, 0]]⟩
        config := {} }
    bodies := [.clean { name := "clean", buildDir := ⟨"/out"⟩ }, .backend (checked "prepare"),
      .backend (checked "build")]
    stores := [{}] }

/-- The plan of the three stages is the one that the planner makes. -/
theorem plan_swept : plan swept.pipeline.specs = .ok swept.pipeline.plan := by decide +kernel

/-- All stages are carried out, and then once more with nothing changed. -/
def repeated : List Event :=
  [.begin {} 0, .take, .advance 0, .look 0, .hear 0] ++ carriedOut 1 (.exited (some 0)) "A" ++
    carriedOut 2 (.exited (some 0)) "A" ++ [.close, .begin {} 0, .take, .advance 3, .look 3, .hear 0] ++
    carriedOut 4 (.exited (some 0)) "A" ++ carriedOut 5 (.exited (some 0)) "A" ++ [.close]

/-- What the stages write: both commands find the fingerprint that was recorded, and are launched. -/
def repeatedLog : List Act :=
  let run := [.begins, .loads 1, .stale 1 (digestOf "A"), .launches 1, .succeeds 1 true, .loads 2,
    .stale 2 (digestOf "A"), .launches 2, .succeeds 2 true, .closes .succeeded]
  run ++ run

/-- The clean stage always does work, so the build is never skipped, even though nothing has changed. -/
theorem not_skipped_after_work_repeated : ∃ w run q r,
    swept.follow (unbuilt "A") repeated = some (repeatedLog, w) ∧ w.run = some run ∧
      run.state.result? 0 = some q ∧ q.didWork = true ∧ run.state.result? 2 = some r ∧ r.skipped = false := by
  -- the run, evaluated
  have hlog : (swept.follow (unbuilt "A") repeated).map Prod.fst = some repeatedLog := by decide +kernel
  have hworked : ∀ x ∈ swept.follow (unbuilt "A") repeated, (x.2.run.bind fun run =>
      (run.state.result? 0).map StageResult.didWork) = some true := by decide +kernel
  have hsettled : ∀ x ∈ swept.follow (unbuilt "A") repeated, (x.2.run.bind fun run =>
      run.state.result? 2).isSome = true := by decide +kernel
  obtain ⟨⟨log, w⟩, hw, rfl⟩ := Option.map_eq_some_iff.mp hlog
  obtain ⟨run, hrun, hq⟩ := Option.bind_eq_some_iff.mp (hworked _ hw)
  obtain ⟨q, hq, hwork⟩ := Option.map_eq_some_iff.mp hq
  have hr := hsettled _ hw
  rw [hrun, Option.bind_some] at hr
  obtain ⟨r, hr⟩ := Option.isSome_iff_exists.mp hr
  -- two edges: from cleaning to preparing, and from there to building
  have hfirst : Precedes swept.pipeline.specs 0 1 := ⟨_, _, rfl, rfl, by decide⟩
  have hsecond : Precedes swept.pipeline.specs 1 2 := ⟨_, _, rfl, rfl, by decide⟩
  have hdep : DependsOn swept.pipeline.specs 2 0 := .tail (.single hfirst) hsecond
  have hown : ∀ body ∈ swept.bodies, ∀ s, body ≠ StageBody.fixed s := by simp [swept]
  exact ⟨w, run, q, r, hw, hrun, hq, hwork, hr,
    not_skipped_after_work plan_swept hown ⟨rfl, rfl, rfl⟩ hw hrun hdep hq hwork hr⟩

end History

end Wheelwright
