/-
  Paths — what the scheduler does is a number of events.

  **Specification** — `Leads S w w'`: some events lead from the one rehearsal to the other; `LoopsOn S w w'`: and at
  most the end of the run is logged on the way.

  **Program** — `Rehearsal.settle` and `startRun`: the scheduler hears of one report after the other, looks at
  its token before each, fills the loop after each and ends it if it can.

  **The crux** — the scheduler passes over a report that its loop does not take, and a history cannot.  But the
  loop has always been filled before (`Dispatch.take_fill`), and what reports is running, so it takes them all.
-/
import Wheelwright.Proofs.History.Soundness

namespace Wheelwright

/-! ## Filling the loop

  The scheduler fills the loop as long as it can take a stage, with a number of steps to bound it.  That number is
  enough, so a filled loop has no stage that it could take. -/

namespace Execution

variable {x y : Execution}

/-- Giving up leaves the queue. -/
theorem block_queue (depth : Nat) : ∀ (reason : String) (x : Execution) (i : Nat),
    (block depth reason x i).queue = x.queue := by
  -- induction on the depth, and inside it on the dependents that are blocked
  induction depth with
  | zero => exact fun _ _ _ => rfl
  | succ depth ih =>
    intro reason x i
    have hall : ∀ (ds : List Nat) (why : String) (x : Execution), (blockAll depth why x ds).queue = x.queue := by
      intro ds why
      induction ds with
      | nil => exact fun _ => rfl
      | cons d rest ihds =>
        intro x
        rw [blockAll, List.foldl_cons]
        refine (ihds _).trans ?_
        split
        · rfl
        · exact ih why x d
    rw [block_succ, hall, note_queue]

/-- Whatever is taken is ready no more. -/
theorem ready_of_takeNext {workers : Nat} {cancelled : Option String} {new : Option Nat}
    (h : x.takeNext workers cancelled = some (y, new)) :
    y.queue.ready.length < x.queue.ready.length := by
  obtain ⟨-, k, rest, hready, ⟨reason, z, -, -, hz, rfl⟩ | ⟨-, -, hy⟩⟩ := takeNext_cases h
  · rw [block_queue, hz.queue, hready]
    exact Nat.lt_succ_self _
  · rw [hy.queue, hready]
    exact Nat.lt_succ_self _

end Execution

namespace Dispatch

variable {p : Pipeline} {d d' : Dispatch}

/-- The loop takes nothing once it has ended, or when no stage is ready or no worker is free. -/
theorem step_take_eq_none : d.step .take = none ↔ d.outcome.isSome = true ∨ d.next? = none := by
  unfold step
  split
  · rename_i hout
    exact iff_of_true rfl (Or.inl hout)
  · rename_i hout
    rw [Option.map_eq_none_iff]
    exact ⟨Or.inr, fun h => h.resolve_left hout⟩

/-- **The loop is filled until nothing can be taken.** -/
theorem take_fill (steps : Nat) (h : d.state.queue.ready.length < steps) :
    (d.fill steps).step .take = none := by
  -- induction on the steps that are left: each takes a stage out of the queue
  induction steps generalizing d with
  | zero => exact absurd h (Nat.not_lt_zero _)
  | succ steps ih =>
    rw [fill]
    cases hs : d.step .take with
    | none => exact hs
    | some next =>
      obtain ⟨-, x, new, hnext, rfl⟩ := step_cases hs
      have hlt := Execution.ready_of_takeNext hnext
      exact ih (Nat.lt_of_lt_of_le hlt (Nat.le_of_lt_succ h))

/-- There are never more ready stages than stages. -/
theorem Sound.ready_length_le (h : Sound p d) : d.state.queue.ready.length ≤ p.plan.names.length := by
  have hnd : d.state.queue.ready.Nodup := h.coherent.sorted.imp Nat.ne_of_lt
  have hsub : d.state.queue.ready ⊆ List.range p.plan.names.length := fun k hk =>
    List.mem_range.mpr (h.plan ▸ ((h.coherent.mem_ready k).mp hk).1)
  have := (List.subperm_of_subset hnd hsub).length_le
  rwa [List.length_range] at this

/-- No stage is next: all workers are busy, or nothing is ready. -/
theorem next?_eq_none_iff : d.next? = none ↔ d.workers ≤ d.state.running.length ∨ d.state.queue.ready = [] :=
  Execution.takeNext_eq_none_iff

/-- Filling does not end the loop. -/
theorem outcome_fill (steps : Nat) (d : Dispatch) : (d.fill steps).outcome = d.outcome := by
  induction steps generalizing d with
  | zero => rfl
  | succ steps ih =>
    rw [fill]
    split
    · rfl
    · rename_i next hs
      rw [ih, outcome_eq_of_step hs (by simp), (step_cases hs).1]

/-- A filled loop can take no further stage. -/
theorem Sound.next?_fill (h : Sound p d) (hout : d.outcome = none) :
    (d.fill (p.plan.names.length + 1)).next? = none := by
  have htake := take_fill (p.plan.names.length + 1) (Nat.lt_succ_of_le h.ready_length_le)
  refine (step_take_eq_none.mp htake).resolve_left fun hsome => ?_
  rw [outcome_fill, hout] at hsome
  cases hsome

/-- The loop hears of a running stage once it is filled. -/
theorem step_finish_eq_some {i : Nat} (ending : Except String StageResult) (hout : d.outcome = none)
    (hnext : d.next? = none) (hi : i ∈ d.state.running) : ∃ next, d.step (.finish i ending) = some next := by
  refine ⟨d.withState (d.state.settle i (d.state.plan.resultOf i ending)), ?_⟩
  unfold step
  rw [if_neg (by simp [hout])]
  dsimp only
  rw [hnext, if_pos (by simpa using hi)]

/-- Filling only starts more stages. -/
theorem started_fill (steps : Nat) : ∀ d : Dispatch, d.started <+: (d.fill steps).started := by
  -- induction on the steps
  induction steps with
  | zero => exact fun _ => List.prefix_rfl
  | succ steps ih =>
    intro d
    rw [fill]
    split
    · exact List.prefix_rfl
    · rename_i next hs
      obtain ⟨new, hstarted, -⟩ := started_of_step hs
      exact (hstarted ▸ List.prefix_append ..).trans (ih next)

end Dispatch

/-! ## Paths

  A path is a list of events from one rehearsal to another.  Where only the loop makes steps, the log grows by the end
  of the run at most, and these paths have a relation of their own. -/

namespace Setting

variable {S : Setting} {w v w' : Rehearsal} {log more : List History.Act}

/-- An event and what follows it. -/
theorem follow_cons_eq {e : History.Event} {rest : List History.Event} {act : Option History.Act}
    (h : S.happen? w e = some (act, v)) (hrest : S.follow v rest = some (log, w')) :
    S.follow w (e :: rest) = some (act.toList ++ log, w') := by
  rw [follow, h, Option.bind_eq_bind, Option.bind_some]
  dsimp only
  rw [hrest]
  rfl

/-- Two runs, one after the other. -/
theorem follow_append {events rest : List History.Event} (h : S.follow w events = some (log, v))
    (hrest : S.follow v rest = some (more, w')) : S.follow w (events ++ rest) = some (log ++ more, w') := by
  induction events generalizing w log with
  | nil =>
    cases h
    exact hrest
  | cons e events ih =>
    obtain ⟨act, next, tail, hnext, htail, rfl⟩ := follow_cons h
    rw [List.append_assoc]
    exact follow_cons_eq hnext (ih htail)

end Setting

namespace History

open Dispatch (Sound)

variable {S : Setting} {w v w' : Rehearsal} {run : PipelineRun} {log : List Act} {n : Nat}

/-- Some events lead from one rehearsal to the other, and at most the end of the run is logged on the way. -/
def LoopsOn (S : Setting) (w w' : Rehearsal) : Prop :=
  ∃ events log, S.follow w events = some (log, w') ∧ ∀ a ∈ log, ∃ status, a = .closes status

namespace LoopsOn

/-- Nothing has to happen. -/
theorem refl (S : Setting) (w : Rehearsal) : LoopsOn S w w := ⟨[], [], rfl, fun _ ha => absurd ha List.not_mem_nil⟩

/-- Two paths are a path. -/
theorem trans (h : LoopsOn S w v) (h' : LoopsOn S v w') : LoopsOn S w w' := by
  obtain ⟨events, log, h, hlog⟩ := h
  obtain ⟨rest, more, h', hmore⟩ := h'
  exact ⟨events ++ rest, log ++ more, Setting.follow_append h h', fun a ha =>
    (List.mem_append.mp ha).elim (hlog a) (hmore a)⟩

/-- One event whose act is at most an end of the run. -/
theorem of_event (e : Event) (act : Option Act) (hact : ∀ a, act = some a → ∃ status, a = .closes status)
    (h : S.happen? w e = some (act, w')) : LoopsOn S w w' := by
  refine ⟨[e], act.toList ++ [], Setting.follow_cons_eq h rfl, fun a ha => hact a ?_⟩
  rwa [List.append_nil, Option.mem_toList] at ha

/-- What is not the run, a task or a store may be as it likes. -/
theorem of_alike (h : Alike w w') : LoopsOn S w w' := by
  refine of_event (.around w') none (by simp) ?_
  rw [Setting.happen?, ← h.run, ← h.tasks, ← h.stores]

end LoopsOn

/-- Some events lead from one rehearsal to the other. -/
def Leads (S : Setting) (w w' : Rehearsal) : Prop := ∃ events log, S.follow w events = some (log, w')

/-- A path on which only the loop goes on is a path. -/
theorem LoopsOn.leads (h : LoopsOn S w w') : Leads S w w' := by
  obtain ⟨events, log, hfollow, -⟩ := h
  exact ⟨events, log, hfollow⟩

namespace Leads

/-- Nothing has to happen. -/
theorem refl (S : Setting) (w : Rehearsal) : Leads S w w := ⟨[], [], rfl⟩

/-- Two paths are a path. -/
theorem trans (h : Leads S w v) (h' : Leads S v w') : Leads S w w' := by
  obtain ⟨events, log, h⟩ := h
  obtain ⟨rest, more, h'⟩ := h'
  exact ⟨events ++ rest, log ++ more, Setting.follow_append h h'⟩

/-- One event is a path. -/
theorem of_event (e : Event) (act : Option Act) (h : S.happen? w e = some (act, w')) : Leads S w w' :=
  ⟨[e], act.toList ++ [], Setting.follow_cons_eq h rfl⟩

/-- What agrees is reached without any event. -/
theorem of_alike (h : Alike w w') : Leads S w w' := (LoopsOn.of_alike h).leads

/-- What is reached from a faithful state is faithful to a longer log. -/
theorem faithful (h : Leads S w w') (hp : S.pipeline.plan.WellFormed) (hw : Faithful S log w) :
    ∃ log, Faithful S log w' := by
  obtain ⟨events, more, hfollow⟩ := h
  exact ⟨log ++ more, hw.follow hp hfollow⟩

end Leads

/-! ## Paths of the loop

  Each step of the loop is an event of the history.  A stage that is taken gets its task in the same event. -/

section Loop

variable (hrun : w.run = some run)
include hrun

/-- The loop of the run takes a step. -/
theorem loopStep?_of_step {e : Dispatch.Event} {loop : Dispatch} (h : run.toDispatch.step e = some loop) :
    w.loopStep? e = some (run, loop) := by
  rw [Rehearsal.loopStep?, hrun, Option.bind_eq_bind, Option.bind_some, h]
  rfl

/-- The loop as it is. -/
theorem loopsOn_stay : LoopsOn S w (w.withLoop run run.toDispatch) :=
  .of_alike ⟨hrun.symm, rfl, rfl⟩

/-- The loop learns of a trip, if there was one. -/
theorem loopsOn_noticed : LoopsOn S w (w.withLoop run (w.noticed run)) := by
  unfold Rehearsal.noticed
  split
  · rename_i reason _
    -- it knows of a trip already, or it learns of this one
    rw [Dispatch.stepOrStay]
    cases hstep : run.toDispatch.step (.trip reason) with
    | none => exact loopsOn_stay hrun
    | some loop =>
      refine .of_event (.trip reason) none (by simp) ?_
      rw [Setting.happen?, loopStep?_of_step hrun hstep]
      rfl
  · exact loopsOn_stay hrun

/-- The loop ends if it can. -/
theorem loopsOn_close : LoopsOn S w (w.withLoop run (run.toDispatch.stepOrStay .close)) := by
  rw [Dispatch.stepOrStay]
  -- it cannot end yet, or it does
  cases hstep : run.toDispatch.step .close with
  | none => exact loopsOn_stay hrun
  | some loop =>
    refine .of_event .close (loop.outcome.map fun o => .closes o.status) (fun a ha => ?_) ?_
    · obtain ⟨o, -, rfl⟩ := Option.map_eq_some_iff.mp ha
      exact ⟨o.status, rfl⟩
    rw [Setting.happen?, loopStep?_of_step hrun hstep]
    rfl

/-- The loop takes a stage, and its task is made. -/
theorem loopsOn_take {loop : Dispatch} (hstep : run.toDispatch.step .take = some loop) :
    LoopsOn S w ((w.withLoop run loop).spawnAll run (loop.started.drop run.started.length)) := by
  refine .of_event .take none (by simp) ?_
  rw [Setting.happen?, loopStep?_of_step hrun hstep]
  rfl

end Loop

end History

namespace Rehearsal

variable {w w' : Rehearsal} {run : PipelineRun}

/-- Tasks are made in the order of the stages. -/
theorem spawnAll_append (run : PipelineRun) (started more : List (Nat × Bool)) (w : Rehearsal) :
    w.spawnAll run (started ++ more) = (w.spawnAll run started).spawnAll run more := List.foldl_append

theorem tasks_spawnAll (run : PipelineRun) (started : List (Nat × Bool)) (w : Rehearsal) :
    (w.spawnAll run started).tasks =
      w.tasks ++ started.filterMap fun x => run.bodies[x.1]?.map (taskOf run x.1 x.2) := by
  -- induction on the stages that were started
  induction started generalizing w with
  | nil => exact (List.append_nil _).symm
  | cons x rest ih =>
    have hstep : w.spawnAll run (x :: rest) = (w.spawnAll run [x]).spawnAll run rest := rfl
    rw [hstep, ih, List.filterMap_cons]
    -- a stage without anything to do gets no task
    cases hbody : run.bodies[x.1]? with
    | none => rw [(spawnAll_singleton w).2 hbody, Option.map_none]
    | some body =>
      rw [(spawnAll_singleton w).1 body hbody, Option.map_some]
      exact List.append_assoc ..

/-- New tasks hang on the old ones only. -/
theorem alike_spawnAll (run : PipelineRun) (started : List (Nat × Bool)) (hrun : w'.run = w.run)
    (htasks : w'.tasks = w.tasks) (hstores : w'.stores = w.stores) :
    Alike (w.spawnAll run started) (w'.spawnAll run started) := by
  refine ⟨?_, ?_, ?_⟩
  · rw [(spawnAll_frame ..).1, (spawnAll_frame ..).1, hrun]
  · rw [tasks_spawnAll, tasks_spawnAll, htasks]
  · rw [(spawnAll_frame ..).2, (spawnAll_frame ..).2, hstores]

end Rehearsal

namespace History

open Dispatch (Sound)

variable {S : Setting} {w v w' : Rehearsal} {run : PipelineRun} {log : List Act}

/-- The loop takes stages one after the other. -/
theorem loopsOn_takes (steps : Nat) : ∀ (w : Rehearsal) (run : PipelineRun), w.run = some run →
    LoopsOn S w ((w.withLoop run (run.toDispatch.fill steps)).spawnAll run
      ((run.toDispatch.fill steps).started.drop run.started.length)) := by
  -- induction on the steps; each takes a stage and makes its task
  induction steps with
  | zero =>
    intro w run hrun
    rw [Dispatch.fill, List.drop_length]
    exact loopsOn_stay hrun
  | succ steps ih =>
    intro w run hrun
    rw [Dispatch.fill]
    cases hstep : run.toDispatch.step .take with
    | none =>
      dsimp only
      rw [List.drop_length]
      exact loopsOn_stay hrun
    | some next =>
      dsimp only
      obtain ⟨new, hnext, -⟩ := Dispatch.started_of_step hstep
      obtain ⟨more, hmore⟩ := Dispatch.started_fill steps next
      have hfirst := loopsOn_take (S := S) hrun hstep
      rw [hnext, List.drop_left] at hfirst
      have hrest := ih ((w.withLoop run next).spawnAll run new.toList) { run with toDispatch := next }
        (Rehearsal.spawnAll_frame ..).1
      refine (hfirst.trans hrest).trans (.of_alike ?_)
      dsimp only
      -- the tasks of the first stage and those of the others are made one after the other
      rw [← hmore, List.drop_left, hnext, List.append_assoc, List.drop_left, Rehearsal.spawnAll_append]
      refine Rehearsal.alike_spawnAll run more ?_ ?_ ?_
      · rw [(Rehearsal.spawnAll_frame ..).1]
        rfl
      · rw [Rehearsal.tasks_spawnAll]
        exact (Rehearsal.tasks_spawnAll run new.toList (w.withLoop run next)).symm
      · rw [(Rehearsal.spawnAll_frame ..).2]
        exact (Rehearsal.spawnAll_frame run new.toList (w.withLoop run next)).2.symm

/-- To look at a token trips the loop, or does nothing. -/
theorem noticed_cases (w : Rehearsal) (run : PipelineRun) : w.noticed run = run.toDispatch ∨
    ∃ reason, run.toDispatch.step (.trip reason) = some (w.noticed run) := by
  unfold Rehearsal.noticed
  split
  · rename_i reason _
    rw [Dispatch.stepOrStay]
    cases hstep : run.toDispatch.step (.trip reason) with
    | none => exact Or.inl rfl
    | some loop => exact Or.inr ⟨reason, hstep⟩
  · exact Or.inl rfl

/-- Nothing else of the loop changes by that. -/
theorem noticed_frame (w : Rehearsal) (run : PipelineRun) :
    (w.noticed run).started = run.started ∧ (w.noticed run).state = run.state ∧
      (w.noticed run).workers = run.workers ∧ (w.noticed run).outcome = run.outcome := by
  obtain heq | ⟨reason, hstep⟩ := noticed_cases w run
  · rw [heq]
    exact ⟨rfl, rfl, rfl, rfl⟩
  · obtain ⟨-, -, heq⟩ := Dispatch.step_cases hstep
    rw [heq]
    exact ⟨rfl, rfl, rfl, rfl⟩

/-- A loop that has learnt of a trip is as sound as before. -/
theorem sound_noticed {p : Pipeline} (h : Sound p run.toDispatch) (w : Rehearsal) : Sound p (w.noticed run) := by
  obtain heq | ⟨reason, hstep⟩ := noticed_cases w run
  · exact heq ▸ h
  · exact h.step hstep

/-- And it has nothing to take if it had nothing before. -/
theorem next?_noticed (h : run.toDispatch.next? = none) (w : Rehearsal) : (w.noticed run).next? = none := by
  obtain ⟨-, hstate, hworkers, -⟩ := noticed_frame w run
  rw [Dispatch.next?_eq_none_iff, hstate, hworkers]
  exact Dispatch.next?_eq_none_iff.mp h

/-- The loop learns of a trip, and then it takes what it can. -/
theorem loopsOn_fill (hrun : w.run = some run) : LoopsOn S w (w.fill run) := by
  have htakes := loopsOn_takes (S := S) (run.state.plan.names.length + 1)
    (w.withLoop run (w.noticed run)) { run with toDispatch := w.noticed run } rfl
  dsimp only at htakes
  rw [(noticed_frame w run).1] at htakes
  refine ((loopsOn_noticed hrun).trans htakes).trans (.of_alike ?_)
  exact Rehearsal.alike_spawnAll run _ rfl rfl rfl

/-- The loop hears of a stage that has ended. -/
theorem loopsOn_hear {k i : Nat} {ending : Except String StageResult} {loop : Dispatch} (hrun : w.run = some run)
    (hk : run.arrived[k]? = some (i, ending)) (hstep : run.toDispatch.step (.finish i ending) = some loop) :
    LoopsOn S w (w.withLoop { run with arrived := run.arrived.eraseIdx k } loop) := by
  refine .of_event (.hear k) none (by simp) ?_
  rw [Setting.happen?, hrun, Option.bind_eq_bind, Option.bind_some, hk, Option.bind_eq_bind, Option.bind_some]
  dsimp only
  rw [hstep]
  rfl

/-! ## The scheduler

  The scheduler hears of all tasks that have ended, looking at its token in between.  Every report is taken by the
  loop, since what reports is running. -/

/-- The rehearsal once reports have come in. -/
def withArrived (w : Rehearsal) (run : PipelineRun) (arrived : List (Nat × Except String StageResult)) :
    Rehearsal :=
  { w with run := some { run with arrived } }

/-- The run of the rehearsal has started all that it can. -/
def Filled (w : Rehearsal) : Prop := ∀ run, w.run = some run → run.toDispatch.next? = none

/-- The loop takes a report of a stage, since the stage is running. -/
theorem step_finish_of_arrived {i : Nat} {ending : Except String StageResult} (h : Faithful S log w)
    (hrun : w.run = some run) (hfilled : run.toDispatch.next? = none) (hi : (i, ending) ∈ run.arrived) :
    ∃ loop, (w.noticed run).step (.finish i ending) = some loop := by
  -- the stage was started and has no result, so the loop counts it among those that run
  have hcourse := h.course run hrun
  obtain ⟨config, hsound⟩ := hcourse.loop
  obtain ⟨hstarted, hresult, -⟩ := hcourse.arrived i ending hi
  have hrunning := (hsound.mem_running i).mpr ⟨hstarted, hresult⟩
  obtain ⟨-, hstate, -, hout⟩ := noticed_frame w run
  refine Dispatch.step_finish_eq_some ending ?_ (next?_noticed hfilled w) (hstate ▸ hrunning)
  rw [hout]
  -- the loop has not ended: then nobody would run
  by_contra hsome
  obtain ⟨o, ho⟩ := Option.ne_none_iff_exists'.mp hsome
  have hdone := (hsound.ended o ho).1
  rw [Execution.isDone, Bool.and_eq_true, List.isEmpty_iff] at hdone
  rw [hdone.1] at hrunning
  exact List.not_mem_nil hrunning

/-- A loop that was filled is so when it ends. -/
theorem filled_complete (hfilled : run.toDispatch.next? = none) : Filled (w.complete run) := by
  intro run' hrun'
  obtain rfl := Option.some.inj hrun'
  show ((w.noticed run).stepOrStay .close).next? = none
  rw [Dispatch.stepOrStay]
  -- whether the loop can end or not, it has nothing to take
  cases hstep : (w.noticed run).step .close with
  | none => exact next?_noticed hfilled w
  | some loop =>
    obtain ⟨-, -, -, rfl⟩ := Dispatch.step_cases hstep
    exact next?_noticed hfilled w

/-- The loop learns of a trip, and then it ends if it can. -/
theorem loopsOn_complete (hrun : w.run = some run) : LoopsOn S w (w.complete run) := by
  have hclose := loopsOn_close (S := S) (w := w.withLoop run (w.noticed run)) rfl
  exact ((loopsOn_noticed hrun).trans hclose).trans (.of_alike ⟨rfl, rfl, rfl⟩)

/-- A run after it was filled. -/
def filledRun (w : Rehearsal) (run : PipelineRun) : PipelineRun :=
  { run with toDispatch := (w.noticed run).fill (run.state.plan.names.length + 1) }

/-- The loop of a run that is filled. -/
theorem run_fill (w : Rehearsal) (run : PipelineRun) : (w.fill run).run = some (filledRun w run) :=
  (Rehearsal.spawnAll_frame ..).1

/-- Stores have no part in it. -/
theorem stores_fill (w : Rehearsal) (run : PipelineRun) : (w.fill run).stores = w.stores :=
  (Rehearsal.spawnAll_frame ..).2

/-- The tasks that are made are those of the stages that were taken. -/
theorem tasks_fill (w : Rehearsal) (run : PipelineRun) : (w.fill run).tasks = w.tasks ++
    ((filledRun w run).started.drop run.started.length).filterMap fun x =>
      run.bodies[x.1]?.map (Rehearsal.taskOf run x.1 x.2) :=
  Rehearsal.tasks_spawnAll run _ (w.withLoop run _)

/-- Then there is nothing more to take. -/
theorem next?_filledRun {p : Pipeline} (w : Rehearsal) (run : PipelineRun) (h : Sound p run.toDispatch)
    (hout : run.outcome = none) : (filledRun w run).toDispatch.next? = none := by
  have hnext := (sound_noticed h w).next?_fill ((noticed_frame w run).2.2.2.trans hout)
  rwa [← h.plan] at hnext

/-- Reports do not matter to what is started. -/
theorem alike_fill_withArrived (arrived : List (Nat × Except String StageResult)) :
    Alike ((withArrived w run arrived).fill { run with arrived })
      (withArrived (w.fill run) (filledRun w run) arrived) := by
  refine ⟨?_, ?_, ?_⟩
  · rw [run_fill]
    rfl
  · rw [tasks_fill]
    exact tasks_fill w run
  · rw [stores_fill]
    exact stores_fill w run

/-- A report is heard, and the others are put aside. -/
theorem loopsOn_heard {i : Nat} {ending : Except String StageResult} {loop : Dispatch}
    (rest : List (Nat × Except String StageResult))
    (hloop : (w.noticed run).step (.finish i ending) = some loop) :
    LoopsOn S (withArrived w run ((i, ending) :: rest))
      (withArrived (w.withLoop run loop) { run with toDispatch := loop } rest) := by
  have hnotice := loopsOn_noticed (S := S) (w := withArrived w run ((i, ending) :: rest)) rfl
  have hhear := loopsOn_hear (S := S)
    (w := (withArrived w run ((i, ending) :: rest)).withLoop { run with arrived := (i, ending) :: rest }
      (w.noticed run))
    (k := 0) rfl rfl hloop
  refine (hnotice.trans hhear).trans (.of_alike ?_)
  exact ⟨rfl, rfl, rfl⟩

/-- **The scheduler hears of one stage after the other.** -/
theorem loopsOn_settleEach (hp : S.pipeline.plan.WellFormed) (reports : List (Nat × Except String StageResult)) :
    ∀ (w : Rehearsal) (run : PipelineRun) {log : List Act}, w.run = some run → run.arrived = [] →
      run.toDispatch.next? = none → Faithful S log (withArrived w run reports) →
      LoopsOn S (withArrived w run reports) (w.settleEach reports) ∧ Filled (w.settleEach reports) := by
  induction reports with
  -- nothing is left to hear of: the loop ends if it can
  | nil =>
    intro w run log hrun harrived hfilled _
    rw [Rehearsal.settleEach, hrun]
    have hsame : Alike (withArrived w run []) w := ⟨by rw [hrun, withArrived, ← harrived], rfl, rfl⟩
    exact ⟨(LoopsOn.of_alike hsame).trans (loopsOn_complete hrun), filled_complete hfilled⟩
  -- the loop hears of the first, takes what it can, and goes on with the others
  | cons report rest ih =>
    intro w run log hrun harrived hfilled h
    obtain ⟨i, ending⟩ := report
    obtain ⟨loop, hloop⟩ := step_finish_of_arrived h rfl hfilled List.mem_cons_self
    have hsettle : w.settleEach ((i, ending) :: rest) =
        ((w.withLoop run loop).fill { run with toDispatch := loop }).settleEach rest := by
      rw [Rehearsal.settleEach, hrun]
      dsimp only
      rw [Dispatch.stepOrStay, show (w.noticed run).step (.finish i ending) = some loop from hloop]
      rfl
    have hfill := loopsOn_fill (S := S) (w := withArrived (w.withLoop run loop) { run with toDispatch := loop } rest)
      rfl
    have hreach := ((loopsOn_heard rest hloop).trans hfill).trans (.of_alike (alike_fill_withArrived rest))
    -- what was started now is running, so that the next report is heard too
    obtain ⟨config, hsound⟩ := (h.course _ rfl).loop
    have hnext := next?_filledRun (w.withLoop run loop) { run with toDispatch := loop }
      ((sound_noticed hsound w).step hloop) (Dispatch.outcome_eq_of_step hloop (by simp))
    obtain ⟨log', h'⟩ := hreach.leads.faithful hp h
    have hrest := ih _ _ (run_fill (w.withLoop run loop) { run with toDispatch := loop }) harrived hnext h'
    rw [hsettle]
    exact ⟨hreach.trans hrest.1, hrest.2⟩

/-- What has arrived is heard of, one ending after the other. -/
theorem loopsOn_settle (hp : S.pipeline.plan.WellFormed) (h : Faithful S log w) (hfilled : Filled w) :
    LoopsOn S w w.settle ∧ Filled w.settle := by
  unfold Rehearsal.settle
  split
  · rename_i run hrun
    have hsame : Alike w (withArrived w run run.arrived) := ⟨hrun.symm, rfl, rfl⟩
    have hsettle := loopsOn_settleEach (S := S) hp run.arrived (withArrived w run []) { run with arrived := [] }
      rfl rfl (hfilled run hrun) (h.congr hsame)
    exact ⟨(LoopsOn.of_alike hsame).trans hsettle.1, hsettle.2⟩
  · exact ⟨.refl S w, hfilled⟩

/-- A run of the setting starts. -/
def startRun (S : Setting) (w : Rehearsal) (config : PipelineConfig) (current : Option TokenId)
    (token : TokenId) : Rehearsal :=
  ({ w with run := none } : Rehearsal).startRun { S.pipeline with config, current } S.bodies token

/-- What a run that has begun does first. -/
theorem loopsOn_startRun (hp : S.pipeline.plan.WellFormed) (config : PipelineConfig) (current : Option TokenId)
    (token : TokenId) (h : Faithful S log { w with run := some (S.newRun config token) }) :
    LoopsOn S { w with run := some (S.newRun config token) } (startRun S w config current token) ∧
      Filled (startRun S w config current token) := by
  -- the run begins with what can be taken at once
  have hfill : LoopsOn S { w with run := some (S.newRun config token) }
      (({ w with run := none } : Rehearsal).fill (S.newRun config token)) := loopsOn_fill rfl
  have hfilled : Filled (({ w with run := none } : Rehearsal).fill (S.newRun config token)) := by
    intro run hrun
    obtain rfl := Option.some.inj ((run_fill ..).symm.trans hrun)
    exact next?_filledRun _ _ (p := { S.pipeline with config }) (Sound.start hp) rfl
  obtain ⟨log', h'⟩ := hfill.leads.faithful hp h
  have hsettle := loopsOn_settle hp h' hfilled
  exact ⟨hfill.trans hsettle.1, hsettle.2⟩

/-- **A run starts when there is none, or the last one is done.** -/
theorem leads_startRun (hp : S.pipeline.plan.WellFormed) (h : Faithful S log w)
    (hidle : ∀ run, w.run = some run → run.outcome.isSome = true) (config : PipelineConfig)
    (current : Option TokenId) (token : TokenId) :
    Leads S w (startRun S w config current token) ∧ Filled (startRun S w config current token) := by
  have hbegin : Leads S w { w with run := some (S.newRun config token) } := by
    refine .of_event (.begin config token) (some .begins) ?_
    rw [Setting.happen?, if_pos]
    cases hrun : w.run with
    | none => rfl
    | some run => exact hidle run hrun
  obtain ⟨hrest, hfilled⟩ := loopsOn_startRun hp config current token (h.begins hp hidle config token)
  exact ⟨hbegin.trans hrest.leads, hfilled⟩

end History

end Wheelwright
