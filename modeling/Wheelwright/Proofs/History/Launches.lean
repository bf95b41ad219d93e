/-
  Launches — what the stages of a run do once its token is tripped.

  **Specification** — a stage that is entered under the tripped token stops.  So what any other stage does
  after the trip it does because it had been let in before: it was checking its inputs when the token was tripped, or its
  process was running, and ends.  When no stage was checking its inputs, no command is launched any more.

  **Program** — `Rehearsal.advance` looks at the token when a backend stage is entered.  It does not look again
  when the stage has checked its inputs and launches its command.

  **The crux** — a task goes through its phases in one direction, and into a check only past the token.
  Seen from the trip on, each task that is checking was checking at the trip (`Continues`).
-/
import Wheelwright.Proofs.Cancellation.Spread
import Wheelwright.Proofs.History.Soundness

namespace Wheelwright

/-! ## Tokens stay tripped

  Events of the run's tasks make tokens and trip some of them, and untrip none.  What happens around the run is asked
  to leave the trip as it is. -/

namespace Forest

variable {f : Forest} {id p : TokenId}

/-- A registration raises flags at most. -/
theorem raises_onCancel {c : Callback} : Raises f (f.onCancel id c) := by
  rw [onCancel]
  split
  · exact raises_runCallbacks _ _ _
  · exact raises_update fun h => h

/-- A child with a deadline lowers no flag. -/
theorem isCancelled_withDeadline (h : f.isCancelled id = true) (d : Span) (now : Nat) :
    (f.withDeadline p d now).1.isCancelled id = true := by
  show (f.create.1.onCancel p (.passOn f.tokens.length)).isCancelled id = true
  refine raises_onCancel.isCancelled id ?_
  rw [isCancelled, reason?, token_create]
  exact h

end Forest

namespace Rehearsal

variable {w : Rehearsal} {n : Nat} {t : StageTask} {s : BackendStage} {id : TokenId}

/-- A task that ends trips no token. -/
@[simp] theorem tokens_finishWith (ending : Except String StageResult) :
    (w.finishWith n t ending).tokens = w.tokens := by
  unfold finishWith
  dsimp only
  split <;> rfl

/-- Nor does a timer that is set. -/
theorem tokens_after (w : Rehearsal) (ms : Nat) (j : Job) : (w.after ms j).tokens = w.tokens := by
  unfold after
  split <;> rfl

/-- Nor does a record. -/
theorem tokens_record (w : Rehearsal) (s : BackendStage) (fingerprint : Option String) :
    (w.record s fingerprint).1.tokens = w.tokens := by
  unfold record
  split <;> rfl

/-- Nor do tasks that are made. -/
theorem tokens_spawnAll (run : PipelineRun) (started : List (Nat × Bool)) (w : Rehearsal) :
    (w.spawnAll run started).tokens = w.tokens := by
  unfold spawnAll
  induction started generalizing w with
  | nil => rfl
  | cons x rest ih =>
    rw [List.foldl_cons, ih]
    dsimp only
    cases run.bodies[x.1]? <;> rfl

/-- A command gets a token of its own; the others keep their flags. -/
theorem isCancelled_commandToken (h : w.tokens.isCancelled id = true) (c : Command) (run : TokenId) :
    (w.commandToken c run).1.tokens.isCancelled id = true := by
  unfold commandToken
  split
  · exact h
  · exact Forest.isCancelled_withDeadline h _ _

/-- So it is when a command is launched. -/
theorem isCancelled_launch (h : w.tokens.isCancelled id = true) (fingerprint : Option String) :
    (w.launch n t s fingerprint).tokens.isCancelled id = true := by
  unfold launch
  dsimp only
  split
  · rw [finish, tokens_finishWith]
    exact h
  · rename_i tree conduct patience window _
    -- a command with a deadline has a token of its own below that of the run
    have hown := isCancelled_commandToken (w := { w with launched := w.launched ++ [s.command], tree }) h
      s.command t.token
    cases window <;> exact hown

/-- And when a task starts. -/
theorem isCancelled_enter (h : w.tokens.isCancelled id = true) : (w.enter n t).tokens.isCancelled id = true := by
  unfold enter
  cases t.body with
  | clean s => exact h
  -- a fixed stage waits or ends
  | fixed s =>
    dsimp only
    split
    · exact (congrArg (Forest.isCancelled · id) (tokens_finishWith _)).trans h
    · exact (congrArg (Forest.isCancelled · id) (tokens_after _ _ _)).trans h
  | backend s =>
    -- a backend stage is stopped, goes to look, or launches its command
    cases w.cancelText? t.token with
    | some reason => exact (congrArg (Forest.isCancelled · id) (tokens_finishWith _)).trans h
    | none =>
      dsimp only
      split
      · exact h
      · exact isCancelled_launch h none

/-- And when it goes on. -/
theorem isCancelled_advance (h : w.tokens.isCancelled id = true) : (w.advance n).tokens.isCancelled id = true := by
  unfold advance
  split
  · exact h
  · split
    · exact isCancelled_enter h
    · rw [finishFixed, tokens_finishWith]
      exact h
    · exact isCancelled_launch h _
    · exact h

/-- Who looks trips nobody. -/
theorem tokens_look : (w.look n).tokens = w.tokens := by
  unfold look
  split
  · split
    · exact tokens_finishWith _
    · unfold compare
      split
      · exact tokens_finishWith _
      · exact tokens_finishWith _
      · rfl
    · rfl
  · rfl

/-- A command that ended trips nobody. -/
theorem tokens_conclude (fingerprint : Option String) (outcome : ExitOutcome) (lines : List OutputLine) :
    (w.conclude n t s fingerprint outcome lines).tokens = w.tokens := by
  unfold conclude
  cases outcome.isSuccess with
  | true => exact (tokens_finishWith _).trans (tokens_record w s fingerprint)
  | false => exact tokens_finishWith _

/-- Nor does the report of its end. -/
theorem tokens_report : (w.report n).tokens = w.tokens := by
  unfold report
  split
  · rfl
  · split
    · dsimp only
      split
      · exact tokens_conclude _ _ _
      · rfl
    · rfl

end Rehearsal

namespace History

variable {S : Setting} {w w' : Rehearsal} {act : Option Act} {e : Event} {id : TokenId}

/-- **A token stays tripped**, if nothing around the run takes that back. -/
theorem isCancelled_of_happen (h : S.happen? w e = some (act, w'))
    (haround : ∀ other, e = .around other → other.tokens.isCancelled id = true)
    (hid : w.tokens.isCancelled id = true) : w'.tokens.isCancelled id = true := by
  -- one event after the other; only what happens around the run may trip tokens, and none lowers a flag
  unfold Setting.happen? at h
  cases e with
  | around other =>
    cases h
    exact haround other rfl
  | begin config token =>
    dsimp only at h
    split at h
    · cases h
      exact hid
    · cases h
  | trip reason | close =>
    obtain ⟨⟨run, loop⟩, -, heq⟩ := Option.map_eq_some_iff.mp h
    cases heq
    exact hid
  | take =>
    obtain ⟨⟨run, loop⟩, -, heq⟩ := Option.map_eq_some_iff.mp h
    cases heq
    rw [Rehearsal.tokens_spawnAll]
    exact hid
  | hear k =>
    obtain ⟨run, -, h⟩ := Option.bind_eq_some_iff.mp h
    obtain ⟨⟨i, ending⟩, -, h⟩ := Option.bind_eq_some_iff.mp h
    obtain ⟨loop, -, h⟩ := Option.bind_eq_some_iff.mp h
    cases h
    exact hid
  | advance n =>
    cases h
    exact Rehearsal.isCancelled_advance hid
  | look n =>
    dsimp only at h
    split at h
    · cases h
      rw [Rehearsal.tokens_look]
      exact hid
    · cases h
  | report k =>
    cases h
    rw [Rehearsal.tokens_report]
    exact hid
  | forget m start =>
    cases h
    exact hid

end History

/-! ## Tasks after a trip

  The task of a stage goes through its phases in one direction.  Once the token is tripped it can only stop, end, or
  go on with what it had been let in to do, which is what `Ebbs` says of each event. -/

namespace StageTask

/-- The stage was let in, and its command was not launched yet: it looks at its inputs, or has done so. -/
structure Checking (t : StageTask) : Prop where
  /-- Only such stages look at files before they run a command. -/
  backend : ∃ s, t.body = .backend s
  /-- The token was looked at before, and it is not looked at again. -/
  phase : (∃ previous, t.phase = .looking previous) ∨ ∃ fingerprint, t.phase = .launching fingerprint

/-- The process of the stage is waited for. -/
def Playing (t : StageTask) : Prop := ∃ fingerprint, t.phase = .playing fingerprint

end StageTask

namespace History

open StageTask (Checking Playing)

variable {S : Setting} {w w' : Rehearsal} {act : Option Act} {e : Event} {n i : Nat} {t : StageTask}
  {tasks tasks' : List StageTask} {phase : StagePhase}

/-- What the task of a stage writes once its token is tripped, and the phase that it comes to. -/
inductive Drains (i : Nat) (t : StageTask) : Option Act → StagePhase → Prop
  /-- The stage is entered, and stops. -/
  | stops (ht : t.phase = .starting) : Drains i t (some (.stops i)) .ended
  /-- The stage has no command. -/
  | other {phase : StagePhase} (hs : ∀ s, t.body ≠ .backend s) (hphase : ∀ f, phase ≠ .playing f) :
      Drains i t none phase
  /-- The stage goes on with its check, and may launch its command. -/
  | checks {act : Option Act} {phase : StagePhase} (ht : Checking t) (hact : ∀ a, act = some a → a.stage? = some i) :
      Drains i t act phase
  /-- The process has ended. -/
  | ends (ht : Playing t) (outcome : ExitOutcome) (saved : Bool) : Drains i t (some (.ends i outcome saved)) .ended

/-- What an event writes once the token of the run is tripped, and the tasks that it leaves. -/
inductive Ebbs (tasks : List StageTask) : Option Act → List StageTask → Prop
  /-- No task goes on. -/
  | rests {act : Option Act} (hact : ∀ a, act = some a → a.stage? = none) : Ebbs tasks act tasks
  /-- A stage is started. -/
  | starts {t : StageTask} (ht : t.phase = .starting) : Ebbs tasks none (tasks ++ [t])
  /-- A task goes on in a way that is open after a trip. -/
  | drains {n i : Nat} {t : StageTask} {act : Option Act} {phase : StagePhase} (hn : tasks[n]? = some t)
      (hi : t.stage = some i) (h : Drains i t act phase) :
      Ebbs tasks act (tasks.modify n fun t => { t with phase })

/-- Nothing is written and no task goes on. -/
theorem Ebbs.refl (tasks : List StageTask) : Ebbs tasks none tasks := .rests fun _ ha => by cases ha

section Steps

variable (hn : w.tasks[n]? = some t) (hi : t.stage = some i)
include hn hi

/-- A command is launched or not: the task had come that far. -/
theorem ebbs_launch {s : BackendStage} {fingerprint : Option String} (ht : Checking t) :
    Ebbs w.tasks (some (w.launchAct i s)) (w.launch n t s fingerprint).tasks := by
  -- the act is that of the stage, whether the launch succeeds or not
  have hact : ∀ a, some (w.launchAct i s) = some a → a.stage? = some i := by
    intro a ha
    rw [← Option.some.inj ha, Rehearsal.launchAct]
    split <;> rfl
  -- a launched command plays; one that was not has ended its task
  cases hconduct : (w.conduct s.command).2 with
  | ok started =>
    rw [(Alike.launch_of_ok hconduct n t fingerprint).tasks]
    exact .drains hn hi (.checks ht hact)
  | error e =>
    rw [(Alike.launch_of_error hconduct n t fingerprint).tasks, Rehearsal.finish, Rehearsal.tasks_finishWith]
    exact .drains hn hi (.checks ht hact)

/-- **A stage that is entered under a tripped token stops.** -/
theorem ebbs_enter (ht : t.phase = .starting) (htrip : w.tokens.isCancelled t.token = true) :
    Ebbs w.tasks (w.advanceAct n) (w.enter n t).tasks := by
  -- the acts are told by the phase and by what the stage does
  unfold Rehearsal.advanceAct Rehearsal.enter
  rw [hn, Option.bind_eq_bind, Option.bind_some, hi, Option.bind_eq_bind, Option.bind_some, ht]
  cases hb : t.body with
  | clean s => exact .drains hn hi (.other (by simp [hb]) (by simp))
  | fixed s =>
    dsimp only
    split
    · rw [Rehearsal.finishFixed, Rehearsal.tasks_finishWith]
      exact .drains hn hi (.other (by simp [hb]) (by simp))
    · rw [(Alike.after _ _ _).tasks]
      exact .drains hn hi (.other (by simp [hb]) (by simp))
  | backend s =>
    -- this is the only place where a stage looks at its token before it launches its command
    obtain ⟨reason, hreason⟩ := Option.isSome_iff_exists.mp htrip
    rw [Rehearsal.cancelText?, hreason, Option.map_some]
    dsimp only
    rw [if_pos htrip, Rehearsal.finish, Rehearsal.tasks_finishWith]
    exact .drains hn hi (.stops ht)

/-- A task that goes on after a trip stops, ends, or does what it was let in to do. -/
theorem ebbs_advance (htrip : t.phase ≠ .ended → w.tokens.isCancelled t.token = true) :
    Ebbs w.tasks (w.advanceAct n) (w.advance n).tasks := by
  unfold Rehearsal.advance
  rw [hn]
  dsimp only
  -- only a task that starts looks at its token; one that was let in before goes on
  cases hphase : t.phase with
  | starting => exact ebbs_enter hn hi hphase (htrip (by simp [hphase]))
  | launching fingerprint =>
    unfold Rehearsal.advanceAct
    rw [hn, Option.bind_eq_bind, Option.bind_some, hi, Option.bind_eq_bind, Option.bind_some, hphase]
    cases hb : t.body with
    | backend s => exact ebbs_launch hn hi ⟨⟨s, hb⟩, Or.inr ⟨fingerprint, hphase⟩⟩
    | clean s | fixed s => exact .refl _
  | waiting =>
    unfold Rehearsal.advanceAct
    rw [hn, Option.bind_eq_bind, Option.bind_some, hi, Option.bind_eq_bind, Option.bind_some, hphase]
    cases hb : t.body with
    | fixed s =>
      dsimp only
      rw [Rehearsal.finishFixed, Rehearsal.tasks_finishWith]
      exact .drains hn hi (.other (by simp [hb]) (by simp))
    | clean s | backend s => exact .refl _
  -- in these phases a task does not go on
  | looking previous | playing fingerprint | ended =>
    unfold Rehearsal.advanceAct
    rw [hn, Option.bind_eq_bind, Option.bind_some, hi, Option.bind_eq_bind, Option.bind_some, hphase]
    exact .refl _

/-- What a look at files writes is an act of the stage. -/
theorem stage_of_lookAct {a : Act} (ha : w.lookAct n = some a) : a.stage? = some i := by
  unfold Rehearsal.lookAct at ha
  rw [hn, Option.bind_eq_bind, Option.bind_some, hi, Option.bind_eq_bind, Option.bind_some] at ha
  split at ha
  · obtain ⟨c, -, ha⟩ := Option.bind_eq_some_iff.mp ha
    split at ha <;> cases ha <;> rfl
  · cases ha

/-- A stage that checks its inputs finds them fresh, stale or unreadable. -/
theorem ebbs_compare {s : BackendStage} (ht : Checking t) (previous : Option String) :
    Ebbs w.tasks (w.lookAct n) (w.compare n t s previous).tasks := by
  have hact : ∀ a, w.lookAct n = some a → a.stage? = some i := fun a => stage_of_lookAct hn hi
  unfold Rehearsal.compare
  split
  · rw [Rehearsal.finish, Rehearsal.tasks_finishWith]
    exact .drains hn hi (.checks ht hact)
  · rw [Rehearsal.finish, Rehearsal.tasks_finishWith]
    exact .drains hn hi (.checks ht hact)
  · exact .drains hn hi (.checks ht hact)

/-- A look is that of a clean stage, or that of a stage that was let in before. -/
theorem ebbs_look {previous : Option String} (hphase : t.phase = .looking previous) :
    Ebbs w.tasks (w.lookAct n) (w.look n).tasks := by
  unfold Rehearsal.look
  rw [hn]
  dsimp only
  rw [hphase]
  -- only a stage of a backend looks at a record
  cases hb : t.body with
  | backend s => exact ebbs_compare hn hi ⟨⟨s, hb⟩, Or.inl ⟨previous, hphase⟩⟩ previous
  | clean s =>
    have hact : w.lookAct n = none := by
      rw [Rehearsal.lookAct, hn, Option.bind_eq_bind, Option.bind_some, hi, Option.bind_eq_bind,
        Option.bind_some, hphase, hb]
    rw [hact]
    show Ebbs w.tasks none (Rehearsal.finishWith _ n t _).tasks
    rw [Rehearsal.tasks_finishWith]
    exact .drains hn hi (.other (by simp [hb]) (by simp))
  | fixed s =>
    have hact : w.lookAct n = none := by
      rw [Rehearsal.lookAct, hn, Option.bind_eq_bind, Option.bind_some, hi, Option.bind_eq_bind,
        Option.bind_some, hphase, hb]
    rw [hact]
    exact .refl _

end Steps

theorem ebbs_conclude {s : BackendStage} {v : Rehearsal} (hn : w.tasks[n]? = some t) (hi : t.stage = some i)
    (ht : Playing t) (hv : v.tasks = w.tasks) (fingerprint : Option String) (outcome : ExitOutcome)
    (lines : List OutputLine) (saved : Bool) :
    Ebbs w.tasks (some (.ends i outcome saved)) (v.conclude n t s fingerprint outcome lines).tasks := by
  -- the task has ended, whether its fingerprint was recorded or not
  have htasks : (v.conclude n t s fingerprint outcome lines).tasks =
      w.tasks.modify n fun t => { t with phase := .ended } := by
    have hended : ∀ u : Rehearsal, u.tasks = w.tasks → ∀ ending, (u.finishWith n t ending).tasks =
        w.tasks.modify n fun t => { t with phase := .ended } := by
      intro u hu ending
      rw [Rehearsal.tasks_finishWith, hu]
    unfold Rehearsal.conclude
    cases outcome.isSuccess with
    | true => exact hended _ ((run_record v s fingerprint).2.trans hv) _
    | false => exact hended _ hv _
  rw [htasks]
  exact .drains hn hi (.ends ht outcome saved)

/-- A report is one of a process that was waited for, or it changes no task. -/
theorem ebbs_report (hreg : ∀ t ∈ w.tasks, Regular t) (k : Nat) :
    Ebbs w.tasks (w.reportAct k) (w.report k).tasks := by
  unfold Rehearsal.reportAct Rehearsal.report
  -- the process, its departure and its task: without any of them nothing happens
  cases hk : w.processes[k]? with
  | none => exact .refl _
  | some p =>
    rw [Option.bind_eq_bind, Option.bind_some]
    dsimp only
    cases hgone : p.gone with
    | none => exact .refl _
    | some d =>
      rw [Option.bind_eq_bind, Option.bind_some]
      cases hn : w.tasks[p.task]? with
      | none => exact .refl _
      | some t =>
        rw [Option.bind_eq_bind, Option.bind_some]
        dsimp only
        cases hphase : t.phase with
        -- a task that plays, of a stage that has a command
        | playing fingerprint =>
          obtain ⟨i, hi⟩ := Option.isSome_iff_exists.mp
            ((hreg t (List.mem_of_getElem? hn)).stage (by rw [hphase]; simp))
          rw [hi, Option.bind_eq_bind, Option.bind_some]
          cases hb : t.body with
          | backend s =>
            have hsame : (w.afterProcess d).tasks = w.tasks := rfl
            exact ebbs_conclude hn hi ⟨fingerprint, hphase⟩ hsame _ _ _ _
          | clean s | fixed s => exact .refl _
        | starting | looking previous | launching fingerprint | waiting | ended =>
          cases t.stage <;> exact .refl _

/-- A stage is started, if there is one that can be. -/
theorem ebbs_take {run : PipelineRun} {loop : Dispatch} (hstep : run.toDispatch.step .take = some loop) :
    Ebbs w.tasks none ((w.withLoop run loop).spawnAll run (loop.started.drop run.started.length)).tasks := by
  -- a taken stage gets a task that has not started yet
  obtain ⟨new, hstarted, -⟩ := Dispatch.started_of_step hstep
  rw [hstarted, List.drop_left]
  cases new with
  | none => exact .refl _
  | some x =>
    obtain ⟨hsome, hnone⟩ := @Rehearsal.spawnAll_singleton run x.1 x.2 (w.withLoop run loop)
    rw [Option.toList_some]
    cases hbody : run.bodies[x.1]? with
    | none =>
      rw [hnone hbody]
      exact .refl _
    | some body =>
      rw [hsome body hbody]
      exact .starts rfl

/-- A task goes on, if there is one of that number, and anything left for it to do. -/
theorem ebbs_advance_any (hreg : ∀ t ∈ w.tasks, Regular t)
    (htrip : ∀ t ∈ w.tasks, t.phase ≠ .ended → w.tokens.isCancelled t.token = true) (n : Nat) :
    Ebbs w.tasks (w.advanceAct n) (w.advance n).tasks := by
  cases hn : w.tasks[n]? with
  | none =>
    rw [Rehearsal.advanceAct, Rehearsal.advance, hn]
    exact .refl _
  | some t =>
    have ht := List.mem_of_getElem? hn
    -- a task without a stage has ended
    cases hi : t.stage with
    | some i => exact ebbs_advance hn hi (htrip t ht)
    | none =>
      have hended : t.phase = .ended := by
        by_contra hlive
        have hstage := (hreg t ht).stage hlive
        rw [hi] at hstage
        cases hstage
      rw [Rehearsal.advanceAct, Rehearsal.advance, hn, Option.bind_eq_bind, Option.bind_some, hi]
      dsimp only
      rw [hended]
      exact .refl _

/-- **Once the token is tripped every event ebbs away.** -/
theorem ebbs_of_happen (hreg : ∀ t ∈ w.tasks, Regular t)
    (htrip : ∀ t ∈ w.tasks, t.phase ≠ .ended → w.tokens.isCancelled t.token = true)
    (h : S.happen? w e = some (act, w')) : Ebbs w.tasks act w'.tasks := by
  -- around the run and in the loop no task goes on, except that one may be started
  unfold Setting.happen? at h
  cases e with
  | around other =>
    cases h
    exact .refl _
  | begin config token =>
    dsimp only at h
    split at h
    · cases h
      exact .rests fun a ha => by cases ha; rfl
    · cases h
  | trip reason =>
    obtain ⟨⟨run, loop⟩, -, heq⟩ := Option.map_eq_some_iff.mp h
    cases heq
    exact .refl _
  | take =>
    obtain ⟨⟨run, loop⟩, hfound, heq⟩ := Option.map_eq_some_iff.mp h
    cases heq
    exact ebbs_take (loopStep?_eq_some hfound).2
  | hear k =>
    obtain ⟨run, -, h⟩ := Option.bind_eq_some_iff.mp h
    obtain ⟨⟨i, ending⟩, -, h⟩ := Option.bind_eq_some_iff.mp h
    obtain ⟨loop, -, h⟩ := Option.bind_eq_some_iff.mp h
    cases h
    exact .refl _
  | close =>
    obtain ⟨⟨run, loop⟩, -, heq⟩ := Option.map_eq_some_iff.mp h
    cases heq
    refine .rests fun a ha => ?_
    obtain ⟨o, -, rfl⟩ := Option.map_eq_some_iff.mp ha
    rfl
  -- a task goes on, looks, or hears of its process
  | advance n =>
    cases h
    exact ebbs_advance_any hreg htrip n
  | look n =>
    dsimp only at h
    split at h
    · rename_i hlook
      cases h
      obtain ⟨t, previous, hn, hphase⟩ := Rehearsal.isLooking_iff.mp hlook
      obtain ⟨i, hi⟩ := Option.isSome_iff_exists.mp
        ((hreg t (List.mem_of_getElem? hn)).stage (by rw [hphase]; simp))
      exact ebbs_look hn hi hphase
    · cases h
  | report k =>
    cases h
    exact ebbs_report hreg k
  | forget m start =>
    cases h
    refine .rests fun a ha => ?_
    split at ha <;> cases ha
    rfl

/-! ## From the trip on

  Seen from the state at the trip, whatever a stage writes later it was let in for by then. -/

/-- What goes on in the later tasks went on before: a check was a check, and a process was one or a check. -/
structure Continues (tasks tasks' : List StageTask) : Prop where
  /-- Who is checking later was checking before. -/
  checking : ∀ u ∈ tasks', Checking u → ∃ t ∈ tasks, t.stage = u.stage ∧ Checking t
  /-- Who plays later was playing before, or checking. -/
  playing : ∀ u ∈ tasks', Playing u → ∃ t ∈ tasks, t.stage = u.stage ∧ (Checking t ∨ Playing t)

/-- What a stage may write after a trip that found these tasks. -/
def Outlasts (tasks : List StageTask) (i : Nat) (a : Act) : Prop :=
  a = .stops i ∨ ∃ t ∈ tasks, t.stage = some i ∧
    (Checking t ∨ Playing t ∧ ∃ outcome saved, a = .ends i outcome saved)

/-- What outlasts later outlasts earlier. -/
theorem Continues.outlasts {a : Act} (h : Continues tasks tasks') (ha : Outlasts tasks' i a) : Outlasts tasks i a := by
  rcases ha with hstops | ⟨u, hu, hi, hcheck | ⟨hplay, hends⟩⟩
  · exact Or.inl hstops
  · obtain ⟨t, ht, hstage, hcheck⟩ := h.checking u hu hcheck
    exact Or.inr ⟨t, ht, hstage.trans hi, Or.inl hcheck⟩
  · obtain ⟨t, ht, hstage, hcheck | hplay⟩ := h.playing u hu hplay
    · exact Or.inr ⟨t, ht, hstage.trans hi, Or.inl hcheck⟩
    · exact Or.inr ⟨t, ht, hstage.trans hi, Or.inr ⟨hplay, hends⟩⟩

/-- A task that drains was checking if it checks after that, and so on. -/
theorem Drains.continues (h : Drains i t act phase) :
    (Checking { t with phase } → Checking t) ∧ (Playing { t with phase } → Checking t ∨ Playing t) := by
  -- by the way in which the task goes on: no way leads back to a check
  cases h with
  | stops =>
    refine ⟨?_, ?_⟩
    · rintro ⟨-, ⟨f, hphase⟩ | ⟨f, hphase⟩⟩ <;> cases hphase
    · rintro ⟨f, hphase⟩
      cases hphase
  | other hs hphase =>
    refine ⟨?_, ?_⟩
    · rintro ⟨⟨s, hbody⟩, -⟩
      exact absurd hbody (hs s)
    · rintro ⟨f, hplay⟩
      exact absurd hplay (hphase f)
  | checks ht => exact ⟨fun _ => ht, fun _ => Or.inl ht⟩
  | ends ht =>
    refine ⟨?_, fun _ => Or.inr ht⟩
    rintro ⟨-, ⟨f, hphase⟩ | ⟨f, hphase⟩⟩ <;> cases hphase

/-- An act of a task that was let in is that of its stage. -/
theorem Drains.outlasts {a : Act} (h : Drains i t (some a) phase) (ht : t ∈ tasks) (hi : t.stage = some i) :
    a.stage? = some i ∧ Outlasts tasks i a := by
  cases h with
  | stops => exact ⟨rfl, Or.inl rfl⟩
  | checks hcheck hact => exact ⟨hact a rfl, Or.inr ⟨t, ht, hi, Or.inl hcheck⟩⟩
  | ends hplay outcome saved => exact ⟨rfl, Or.inr ⟨t, ht, hi, Or.inr ⟨hplay, outcome, saved, rfl⟩⟩⟩

/-- **No event lets another stage into a check.** -/
theorem Ebbs.continues (h : Ebbs tasks act tasks') : Continues tasks tasks' := by
  cases h with
  | rests => exact ⟨fun u hu hcheck => ⟨u, hu, rfl, hcheck⟩, fun u hu hplay => ⟨u, hu, rfl, Or.inr hplay⟩⟩
  -- the stage that is started is neither checking nor playing
  | @starts t ht =>
    refine ⟨?_, ?_⟩
    · intro u hu hcheck
      rcases List.mem_append.mp hu with hu | hu
      · exact ⟨u, hu, rfl, hcheck⟩
      · rw [List.mem_singleton.mp hu] at hcheck
        rcases hcheck.phase with ⟨f, hphase⟩ | ⟨f, hphase⟩ <;> rw [ht] at hphase <;> cases hphase
    · intro u hu hplay
      rcases List.mem_append.mp hu with hu | hu
      · exact ⟨u, hu, rfl, Or.inr hplay⟩
      · rw [List.mem_singleton.mp hu] at hplay
        obtain ⟨f, hphase⟩ := hplay
        rw [ht] at hphase
        cases hphase
  -- one task is in another phase; all others are as they were
  | @drains n i t act phase hn hi hdrains =>
    have hmem : t ∈ tasks := List.mem_of_getElem? hn
    obtain ⟨hchecks, hplays⟩ := hdrains.continues
    refine ⟨?_, ?_⟩
    · intro u hu hcheck
      obtain ⟨m, hm⟩ := List.mem_iff_getElem?.mp hu
      rcases getElem?_modify_phase hn hm with ⟨-, rfl⟩ | ⟨-, hold⟩
      · exact ⟨t, hmem, rfl, hchecks hcheck⟩
      · exact ⟨u, List.mem_of_getElem? hold, rfl, hcheck⟩
    · intro u hu hplay
      obtain ⟨m, hm⟩ := List.mem_iff_getElem?.mp hu
      rcases getElem?_modify_phase hn hm with ⟨-, rfl⟩ | ⟨-, hold⟩
      · exact ⟨t, hmem, rfl, hplays hplay⟩
      · exact ⟨u, List.mem_of_getElem? hold, rfl, Or.inr hplay⟩

/-- An act is one that a stage was let in for. -/
theorem Ebbs.outlasts {a : Act} (h : Ebbs tasks (some a) tasks') (ha : a.stage? = some i) : Outlasts tasks i a := by
  cases h with
  | rests hact =>
    rw [hact a rfl] at ha
    cases ha
  | drains hn hi hdrains =>
    obtain ⟨hstage, hout⟩ := hdrains.outlasts (List.mem_of_getElem? hn) hi
    rw [hstage] at ha
    exact Option.some.inj ha ▸ hout

/-- The run keeps its token. -/
theorem Moves.token {run : PipelineRun} (h : Moves S w act w') (hrun : w.run = some run) (hact : act ≠ some .begins) :
    ∃ run', w'.run = some run' ∧ run'.token = run.token := by
  -- only a run that begins changes the token of the run
  cases h with
  | idle hw => exact ⟨run, hw.run.trans hrun, rfl⟩
  | begins => exact absurd rfl hact
  | loops hsome hstep he hw =>
    obtain rfl := Option.some.inj (hrun.symm.trans hsome)
    exact ⟨_, hw.run.trans (Rehearsal.spawnAll_frame ..).1, rfl⟩
  | hears hsome hk hstep hw =>
    obtain rfl := Option.some.inj (hrun.symm.trans hsome)
    exact ⟨_, hw.run, rfl⟩
  | proceeds hn hi hp hw => exact ⟨run, hw.run.trans hrun, rfl⟩
  | finishes hn hi hf hw =>
    have hended := hw.run
    rw [Rehearsal.run_finishWith, hi] at hended
    dsimp only at hended
    rw [hrun] at hended
    exact ⟨_, hended, rfl⟩
  | forgets hlen hstored hw => exact ⟨run, hw.run.trans hrun, rfl⟩

/-- Tasks that have not ended hold the token of the run. -/
theorem Faithful.isCancelled_token {log : List Act} {run : PipelineRun} (h : Faithful S log w) (hrun : w.run = some run)
    (htrip : w.tokens.isCancelled run.token = true) :
    ∀ t ∈ w.tasks, t.phase ≠ .ended → w.tokens.isCancelled t.token = true := by
  intro t ht hphase
  obtain ⟨n, hn⟩ := List.mem_iff_getElem?.mp ht
  obtain ⟨i, hlive⟩ := (h.course run hrun).live n t hn hphase
  rw [hlive.token]
  exact htrip

/-- What is written in the run after the trip, by induction on the events. -/
theorem Faithful.outlasts {log tail : List Act} {run : PipelineRun} {more : List Event}
    (hp : S.pipeline.plan.WellFormed) (h : Faithful S log w) (hrun : w.run = some run)
    (htrip : w.tokens.isCancelled run.token = true)
    (haround : ∀ other, .around other ∈ more → other.tokens.isCancelled run.token = true)
    (hmore : S.follow w more = some (tail, w')) (hbegins : .begins ∉ tail) :
    ∀ i a, a ∈ tail → a.stage? = some i → Outlasts w.tasks i a := by
  -- induction on the events; the run and its trip stay
  induction more generalizing log w run tail with
  | nil =>
    cases hmore
    intro i a ha
    exact absurd ha List.not_mem_nil
  | cons e rest ih =>
    obtain ⟨act, next, tail', hnext, hrest, rfl⟩ := Setting.follow_cons hmore
    rw [List.mem_append, not_or] at hbegins
    have hmoves := moves_of_happen h.regular hnext
    have hebbs := ebbs_of_happen h.regular (h.isCancelled_token hrun htrip) hnext
    -- no later event begins another run
    have hact : act ≠ some .begins := by
      rintro rfl
      exact hbegins.1 (by simp)
    obtain ⟨run', hrun', htoken⟩ := hmoves.token hrun hact
    have hlater : next.tokens.isCancelled run.token = true := by
      refine isCancelled_of_happen hnext ?_ htrip
      rintro other rfl
      exact haround other List.mem_cons_self
    intro i a ha hi
    rcases List.mem_append.mp ha with ha | ha
    · obtain rfl : act = some a := Option.mem_toList.mp ha
      exact hebbs.outlasts hi
    · -- what goes on after this event went on before it
      refine hebbs.continues.outlasts (ih (h.moves hp hmoves) hrun' ?_ ?_ hrest hbegins.2 i a ha hi)
      · rw [htoken]
        exact hlater
      · intro other hother
        rw [htoken]
        exact haround other (List.mem_cons_of_mem _ hother)

/-! ## The main result

  A stage that is let in before the trip may launch its command after it, since the token is looked at once.  The run
  at the end of this section does so, and it shows that the exception in the theorem is needed. -/

/-- **After a trip a stage that is entered stops, and the others end what they had begun.**  Only a stage that was
    checking its inputs at the trip may still launch its command, and if there is none, no command is launched. -/
theorem acts_after_trip {events more : List Event} {log tail : List Act} {w₀ : Rehearsal} {run : PipelineRun}
    (hplan : plan S.pipeline.specs = .ok S.pipeline.plan) (hw₀ : S.Unused w₀)
    (hw : S.follow w₀ events = some (log, w)) (hrun : w.run = some run)
    (htrip : w.tokens.isCancelled run.token = true)
    (haround : ∀ other, .around other ∈ more → other.tokens.isCancelled run.token = true)
    (hmore : S.follow w more = some (tail, w')) (hbegins : .begins ∉ tail) :
    (∀ i a, a ∈ tail → a.stage? = some i → a = .stops i ∨ ∃ t ∈ w.tasks, t.stage = some i ∧
      (Checking t ∨ Playing t ∧ ∃ outcome saved, a = .ends i outcome saved)) ∧
    ((∀ t ∈ w.tasks, ¬ Checking t) → ∀ i, .launches i ∉ tail ∧ .unlaunched i ∉ tail) := by
  -- the state at the trip is faithful to its log
  have hp := (describes_of_plan hplan).1.toWellFormed
  have h : Faithful S log w := List.nil_append log ▸ (Faithful.start hw₀).follow hp hw
  have hacts := h.outlasts hp hrun htrip haround hmore hbegins
  refine ⟨hacts, ?_⟩
  intro hnone i
  -- with nobody checking, a later act is a stop or the end of what plays
  have hnot : ∀ a, a.stage? = some i → a ≠ .stops i → (∀ outcome saved, a ≠ .ends i outcome saved) → a ∉ tail := by
    intro a hstage hstops hends ha
    rcases hacts i a ha hstage with rfl | ⟨t, ht, -, hcheck | ⟨-, outcome, saved, rfl⟩⟩
    · exact hstops rfl
    · exact hnone t ht hcheck
    · exact hends outcome saved rfl
  exact ⟨hnot _ rfl (by simp) (by simp), hnot _ rfl (by simp) (by simp)⟩

/-- Nothing was built yet, and there is a token for the run. -/
def held : Rehearsal := { unbuilt "A" with tokens := (Forest.create {}).1 }

/-- The first stage of the chain is let in, and then the token is tripped. -/
def letIn : List Event :=
  [.begin {} 0, .take, .advance 0, .around { held with tokens := held.tokens.trip 0 (.requested "stop") }]

/-- It finds its inputs changed, and launches its command. -/
theorem follow_letIn : ∃ w run w', chained.follow held letIn = some ([.begins, .loads 0], w) ∧ w.run = some run ∧
    w.tokens.isCancelled run.token = true ∧ w.launched = [] ∧
    chained.follow w [.look 0, .advance 0] = some ([.stale 0 (digestOf "A"), .launches 0], w') ∧
    w'.launched.length = 1 := by
  -- the run, evaluated: the stage has loaded its record before the trip, and launches after it
  have hrun : ((chained.follow held letIn).bind fun x => x.2.run.bind fun run =>
      (chained.follow x.2 [.look 0, .advance 0]).map fun y => (x.1, x.2.tokens.isCancelled run.token,
        x.2.launched.length, y.1, y.2.launched.length)) =
      some ([.begins, .loads 0], true, 0, [.stale 0 (digestOf "A"), .launches 0], 1) := by
    decide +kernel
  obtain ⟨⟨log, w⟩, hw, hrun⟩ := Option.bind_eq_some_iff.mp hrun
  obtain ⟨run, hsome, hrun⟩ := Option.bind_eq_some_iff.mp hrun
  obtain ⟨⟨tail, w'⟩, hmore, hrun⟩ := Option.map_eq_some_iff.mp hrun
  obtain ⟨rfl, htrip, hbefore, rfl, hafter⟩ := by simpa only [Prod.mk.injEq] using hrun
  exact ⟨w, run, w', hw, hsome, htrip, List.length_eq_zero_iff.mp hbefore, hmore, hafter⟩

/-- The stage that launches its command after the trip was checking its inputs when the token was tripped. -/
theorem acts_after_trip_chained : ∃ log w run tail w', chained.follow held letIn = some (log, w) ∧
    w.run = some run ∧ w.tokens.isCancelled run.token = true ∧
    chained.follow w [.look 0, .advance 0] = some (tail, w') ∧ .launches 0 ∈ tail ∧
    ∃ t ∈ w.tasks, t.stage = some 0 ∧ Checking t := by
  obtain ⟨w, run, w', hw, hrun, htrip, -, hmore, -⟩ := follow_letIn
  have hunused : chained.Unused held := ⟨rfl, rfl, rfl⟩
  have hlaunches : Act.launches 0 ∈ [Act.stale 0 (digestOf "A"), .launches 0] := by simp
  obtain ⟨hacts, -⟩ := acts_after_trip plan_chained hunused hw hrun htrip (by simp) hmore (by simp)
  refine ⟨_, w, run, _, w', hw, hrun, htrip, hmore, hlaunches, ?_⟩
  rcases hacts 0 _ hlaunches rfl with hstops | ⟨t, ht, hi, hcheck | ⟨-, outcome, saved, hends⟩⟩
  · cases hstops
  · exact ⟨t, ht, hi, hcheck⟩
  · cases hends

/-- **A command is launched although the token was tripped before**, while the stage was checking its inputs. -/
theorem launched_under_tripped_token : plan chained.pipeline.specs = .ok chained.pipeline.plan ∧
    chained.Unused held ∧ ∃ log w run tail w', chained.follow held letIn = some (log, w) ∧ w.run = some run ∧
      w.tokens.isCancelled run.token = true ∧ (∀ i, .launches i ∉ log) ∧ w.launched = [] ∧
      chained.follow w [.look 0, .advance 0] = some (tail, w') ∧ .launches 0 ∈ tail ∧ w'.launched.length = 1 := by
  obtain ⟨w, run, w', hw, hrun, htrip, hbefore, hmore, hafter⟩ := follow_letIn
  exact ⟨plan_chained, ⟨rfl, rfl, rfl⟩, _, w, run, _, w', hw, hrun, htrip, by simp, hbefore, hmore, by simp, hafter⟩

end History

end Wheelwright
