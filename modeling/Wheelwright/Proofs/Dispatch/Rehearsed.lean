/-
  Rehearsed — a rehearsal does nothing to a run that the loop would not do.

  **Specification** — `Rehearses p w`: the rehearsal `w` has come from the start of a run of `p`, by steps
  of its machine and by changes of its tokens from outside.  Then its loop is one that events lead to, so
  what is proved of the loop after any events is true of every rehearsal.

  **The crux** — tasks and processes report to the scheduler (`finishWith`), but only the scheduler gives
  the run another loop, and it does so by `stepOrStay` and `fill`.
-/
import Wheelwright.Proofs.Dispatch.Completion
import Wheelwright.Rehearsal.Run

namespace Wheelwright

namespace Dispatch

variable {p : Pipeline} {d d' : Dispatch} {e : Event}

/-- Some events lead the loop of the pipeline to this state. -/
def Reached (p : Pipeline) (d : Dispatch) : Prop := ∃ events, (start p).follow events = some d

/-- A sequence can be followed in two parts. -/
theorem follow_append (events more : List Event) :
    d.follow (events ++ more) = (d.follow events).bind fun next => next.follow more := by
  induction events generalizing d with
  | nil => rfl
  | cons e rest ih =>
    rw [List.cons_append, follow, follow, Option.bind_assoc]
    exact congrArg _ (funext fun next => ih)

namespace Reached

/-- A loop that starts is reached. -/
theorem start (p : Pipeline) : Reached p (start p) := ⟨[], rfl⟩

/-- What is reached by one more step is reached. -/
theorem step (h : Reached p d) (hs : d.step e = some d') : Reached p d' := by
  obtain ⟨events, hd⟩ := h
  refine ⟨events ++ [e], ?_⟩
  rw [follow_append, hd, Option.bind_some, follow_cons]
  exact ⟨d', hs, rfl⟩

/-- A step that does not apply changes nothing. -/
theorem stepOrStay (h : Reached p d) (e : Event) : Reached p (d.stepOrStay e) := by
  rw [Dispatch.stepOrStay]
  cases hs : d.step e with
  | none => exact h
  | some d' => exact h.step hs

/-- The workers are filled by steps. -/
theorem fill (h : Reached p d) (steps : Nat) : Reached p (d.fill steps) := by
  induction steps generalizing d with
  | zero => exact h
  | succ steps ih =>
    rw [Dispatch.fill]
    split
    · exact h
    · rename_i next hs
      exact ih (h.step hs)

end Reached

end Dispatch

namespace Rehearsal

open Dispatch (Reached)

variable {w w' : Rehearsal} {p : Pipeline}

/-- The loop of the run, if there is one. -/
def loop? (w : Rehearsal) : Option Dispatch := w.run.map PipelineRun.toDispatch

/-! ## What leaves the loop alone

  A rehearsal has tasks, processes, clocks and files, and most of its functions touch the run not at all.  One lemma
  for each of them, so the scheduler below can be looked at by itself. -/

section Tasks

variable (w) (n : Nat) (t : StageTask)

/-- The loop of a rehearsal changes in the settling, the filling and the start of a run only; whatever a task does in
    between leaves it as it is. -/
@[simp] theorem loop?_enqueue (j : Job) : (w.enqueue j).loop? = w.loop? := rfl

@[simp] theorem loop?_after (ms : Nat) (j : Job) : (w.after ms j).loop? = w.loop? := by
  unfold after
  split <;> rfl

@[simp] theorem loop?_withTokens (tokens : Forest) : (w.withTokens tokens).loop? = w.loop? := rfl

@[simp] theorem loop?_setPhase (phase : StagePhase) : (w.setPhase n phase).loop? = w.loop? := rfl

@[simp] theorem loop?_spawn : (w.spawn t).loop? = w.loop? := rfl

/-- A task reports how it ended, which the loop has not heard of yet. -/
@[simp] theorem loop?_finishWith (ending : Except String StageResult) :
    (w.finishWith n t ending).loop? = w.loop? := by
  unfold finishWith
  dsimp only
  split
  · rename_i i run _ hrun
    show some run.toDispatch = _
    rw [show (w.setPhase n .ended).run = w.run from rfl] at hrun
    rw [loop?, hrun, Option.map_some]
  · rfl

@[simp] theorem loop?_finish (r : StageResult) : (w.finish n t r).loop? = w.loop? :=
  w.loop?_finishWith n t (.ok r)

@[simp] theorem loop?_finishFixed (s : FixedStage) : (w.finishFixed n t s).loop? = w.loop? :=
  w.loop?_finishWith n t _

@[simp] theorem loop?_commandToken (c : Command) (run : TokenId) :
    (w.commandToken c run).1.loop? = w.loop? := by
  unfold commandToken
  split <;> rfl

@[simp] theorem loop?_openWindow (window : Option WriteWindow) : (w.openWindow window).loop? = w.loop? := by
  cases window <;> rfl

@[simp] theorem loop?_closeWindow (window : Option WriteWindow) :
    (w.closeWindow window).loop? = w.loop? := by
  cases window <;> rfl

@[simp] theorem loop?_launch (s : BackendStage) (fingerprint : Option String) :
    (w.launch n t s fingerprint).loop? = w.loop? := by
  unfold launch
  dsimp only
  split
  · exact loop?_finish _ n t _
  · rename_i tree conduct patience window _
    exact (loop?_openWindow _ window).trans (loop?_commandToken _ s.command t.token)

@[simp] theorem loop?_sweep (s : CleanStage) : (w.sweep n t s).loop? = w.loop? :=
  loop?_finish _ n t _

@[simp] theorem loop?_compare (s : BackendStage) (previous : Option String) :
    (w.compare n t s previous).loop? = w.loop? := by
  unfold compare
  split <;> simp

@[simp] theorem loop?_look : (w.look n).loop? = w.loop? := by
  unfold look
  split
  · split <;> simp
  · rfl

@[simp] theorem loop?_enter : (w.enter n t).loop? = w.loop? := by
  unfold enter
  split
  · rfl
  · dsimp only
    split <;> simp
  · split
    · simp
    · split
      · rfl
      · simp

@[simp] theorem loop?_advance : (w.advance n).loop? = w.loop? := by
  unfold advance
  split
  · rfl
  · split <;> simp

end Tasks

section Processes

variable (w) (n : Nat)

@[simp] theorem loop?_leave (p : LaunchedProcess) (d : Departure) : (w.leave n p d).loop? = w.loop? := by
  unfold leave
  dsimp only
  rw [loop?_after]
  exact loop?_closeWindow _ p.window

@[simp] theorem loop?_play : (w.play n).loop? = w.loop? := by
  unfold play
  split
  · rfl
  · dsimp only
    split
    · simp
    · split
      · rfl
      · split
        · rw [loop?_after]
          rfl
        · rfl

@[simp] theorem loop?_expire : (w.expire n).loop? = w.loop? := by
  unfold expire
  split
  · rfl
  · dsimp only
    split <;> simp

@[simp] theorem loop?_interrupt : (w.interrupt n).loop? = w.loop? := by
  unfold interrupt
  split
  · rfl
  · split <;> simp

@[simp] theorem loop?_record (s : BackendStage) (fingerprint : Option String) :
    (w.record s fingerprint).1.loop? = w.loop? := by
  unfold record
  split <;> rfl

@[simp] theorem loop?_conclude (t : StageTask) (s : BackendStage) (fingerprint : Option String)
    (outcome : ExitOutcome) (lines : List OutputLine) :
    (w.conclude n t s fingerprint outcome lines).loop? = w.loop? := by
  unfold conclude
  dsimp only
  rw [loop?_finish]
  split
  · exact loop?_record w s fingerprint
  · rfl

@[simp] theorem loop?_report : (w.report n).loop? = w.loop? := by
  unfold report
  split
  · rfl
  · split
    · dsimp only
      split
      · exact loop?_conclude _ _ _ _ _ _ _
      · rfl
    · rfl

end Processes

@[simp] theorem loop?_ring (w : Rehearsal) (t : Nat × Job) : (w.ring t).loop? = w.loop? := rfl

@[simp] theorem loop?_elapse (w : Rehearsal) (t : TokenTimer) : (w.elapse t).loop? = w.loop? := rfl

-- each branch of a tick changes the clock, the timers or the jobs
theorem loop?_tick {limit : Option Nat} (h : w.tick limit = some w') : w'.loop? = w.loop? := by
  unfold tick at h
  dsimp only at h
  split at h
  · split at h
    · split at h
      · cases h
        rfl
      · cases h
    · split at h
      · cases h
        rfl
      · cases h
  · split at h
    · cases h
      rfl
    · cases h
  · split at h
    · cases h
      rfl
    · cases h
  · cases h

/-! ## The scheduler

  The scheduler is the only part that moves the loop, and it moves it by steps of the loop.  Results of tasks that
  have ended are delivered one by one, and the workers are filled after them. -/

/-- The loop of the rehearsal is one that events lead to. -/
def Follows (p : Pipeline) (w : Rehearsal) : Prop := ∀ d, w.loop? = some d → Reached p d

namespace Follows

/-- The loop of a rehearsal that follows the pipeline is reached. -/
theorem reached (h : Follows p w) {run : PipelineRun} (hrun : w.run = some run) :
    Reached p run.toDispatch :=
  h _ (by rw [loop?, hrun]; rfl)

/-- Only the loop counts. -/
theorem of_eq (h : Follows p w) (hw : w'.loop? = w.loop?) : Follows p w' := fun d hd =>
  h d (hw.symm.trans hd)

/-- A rehearsal given a reached loop follows the pipeline. -/
theorem withLoop (run : PipelineRun) {loop : Dispatch} (h : Reached p loop) :
    Follows p (w.withLoop run loop) := by
  intro d hd
  obtain rfl : loop = d := Option.some.inj hd
  exact h

end Follows

/-- Noticing a trip is a step of the loop. -/
theorem reached_noticed {run : PipelineRun} (h : Reached p run.toDispatch) :
    Reached p (w.noticed run) := by
  unfold noticed
  split
  · exact h.stepOrStay _
  · exact h

/-- The tasks spawned for the stages that were started leave the loop as it is. -/
theorem loop?_foldl_spawn (run : PipelineRun) (started : List (Nat × Bool)) (w : Rehearsal) :
    (started.foldl (fun w (i, upstreamRebuilt) =>
      match run.bodies[i]? with
      | some body => w.spawn (taskOf run i upstreamRebuilt body)
      | none => w) w).loop? = w.loop? := by
  induction started generalizing w with
  | nil => rfl
  | cons s rest ih =>
    rw [List.foldl_cons, ih]
    dsimp only
    split <;> rfl

/-- Filling the workers keeps to the loop. -/
theorem follows_fill {run : PipelineRun} (h : Reached p run.toDispatch) : Follows p (w.fill run) :=
  (Follows.withLoop run ((reached_noticed h).fill _)).of_eq (loop?_foldl_spawn run _ _)

/-- So does the delivery of the results of the tasks that have ended. -/
theorem Follows.settleEach (ended : List (Nat × Except String StageResult)) :
    ∀ {w : Rehearsal}, Follows p w → Follows p (w.settleEach ended) := by
  -- by the tasks that have ended, each of which the loop hears of first
  induction ended with
  | nil =>
    intro w h
    unfold Rehearsal.settleEach
    split
    · rename_i run hrun
      exact .withLoop run ((reached_noticed (h.reached hrun)).stepOrStay _)
    · exact h
  | cons e rest ih =>
    intro w h
    unfold Rehearsal.settleEach
    split
    · rename_i run hrun
      have hnext := (reached_noticed (w := w) (h.reached hrun)).stepOrStay (.finish e.1 e.2)
      exact ih (follows_fill hnext)
    · exact h

/-- Settling a rehearsal keeps to the loop. -/
theorem Follows.settle (h : Follows p w) : Follows p w.settle := by
  unfold Rehearsal.settle
  split
  · rename_i run hrun
    -- the reports are taken off the run, and its loop is still the one it had
    refine Follows.settleEach _ (h.of_eq ?_)
    rw [loop?, loop?, hrun]
    rfl
  · exact h

/-- So does any of its jobs. -/
theorem Follows.perform (h : Follows p w) (j : Job) : Follows p (w.perform j) := by
  cases j with
  | settle => exact h.settle
  | advance n => exact h.of_eq (loop?_advance w n)
  | play n => exact h.of_eq (loop?_play w n)
  | expire n => exact h.of_eq (loop?_expire w n)
  | interrupt n => exact h.of_eq (loop?_interrupt w n)
  | report n => exact h.of_eq (loop?_report w n)

/-- And so does any of its steps. -/
theorem Follows.step (h : Follows p w) {limit : Option Nat} (hs : w.step limit = some w') :
    Follows p w' := by
  unfold Rehearsal.step at hs
  split at hs
  · rename_i j rest _
    cases hs
    have hrest : Follows p { w with jobs := rest } := h.of_eq rfl
    exact hrest.perform j
  · cases hs
    exact h.of_eq (loop?_look _ _)
  · exact h.of_eq (loop?_tick hs)

/-- A rehearsal that starts a run follows its pipeline. -/
theorem follows_startRun (w : Rehearsal) (p : Pipeline) (bodies : List StageBody) (token : TokenId) :
    Follows p (w.startRun p bodies token) :=
  (follows_fill (.start p)).settle

/-! ## The main result

  Every rehearsal that was started has a loop that events lead to, so all the laws of loops hold of it. -/

/-- The rehearsal has come from the start of a run, by steps of its machine and by changes of its tokens
    from outside. -/
inductive Rehearses (p : Pipeline) : Rehearsal → Prop
  /-- A run that starts. -/
  | start (w : Rehearsal) (bodies : List StageBody) (token : TokenId) :
      Rehearses p (w.startRun p bodies token)
  /-- A run after any of its steps. -/
  | step {w w' : Rehearsal} {limit : Option Nat} (h : Rehearses p w) (hs : w.step limit = some w') :
      Rehearses p w'
  /-- A run under tokens that others have changed. -/
  | withTokens {w : Rehearsal} (h : Rehearses p w) (tokens : Forest) : Rehearses p (w.withTokens tokens)

/-- **The loop of a rehearsal is one that events lead to.** -/
theorem Rehearses.reached (h : Rehearses p w) {d : Dispatch} (hd : w.loop? = some d) : Reached p d := by
  -- for every loop at once, as a step may give the run another one
  have hfollows : Follows p w := by
    clear hd
    induction h with
    | start w bodies token => exact follows_startRun w p bodies token
    | step _ hs ih => exact ih.step hs
    | withTokens _ tokens ih => exact ih.of_eq rfl
  exact hfollows d hd

end Rehearsal

end Wheelwright
