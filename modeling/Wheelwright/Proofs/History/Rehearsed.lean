/-
  Rehearsed histories — a rehearsal does nothing that a history would not do.

  **Specification** — `Rehearsed S w₀ w`: from `w₀` runs were started one after the other, the machine made
  steps, records were forgotten, and files, tokens and the clock were changed from outside.  Then some events
  lead from `w₀` to `w`, so what is proved of histories is true of every rehearsal.

  **Program** — `Rehearsal.step` does the first job, and only the scheduler's is more than one event.

  **The crux** — the machine looks at files for the task at the head of a queue, whatever the task is about.
  It is one that waits for a look: a task is put there when it starts to wait, and nothing else than the look
  wakes it (`Waits`).
-/
import Wheelwright.Proofs.Dispatch.Rehearsed
import Wheelwright.Proofs.History.Paths

namespace Wheelwright

/-! ## Looks at files

  A task that waits for a look stands in a queue until it has one.  Every function of the machine is asked what it
  does to those that wait: all but the look itself leave them waiting, and a task gets into the queue only when it
  begins to wait. -/

namespace Rehearsal

variable {w w' w'' : Rehearsal} {n : Nat}

/-- Every task that waits for a look waits for one only. -/
structure Waits (w : Rehearsal) : Prop where
  /-- Nobody waits twice. -/
  nodup : w.looks.Nodup
  /-- Whoever waits is in the phase of looking. -/
  looking : ∀ n ∈ w.looks, w.isLooking n = true

/-- No look is added, and no task but that one changes. -/
structure Spares (n : Option Nat) (w w' : Rehearsal) : Prop where
  /-- Nobody begins to wait, and nobody stops. -/
  looks : w'.looks = w.looks
  /-- All tasks but one stay as they are. -/
  tasks : ∀ m t, n ≠ some m → w.tasks[m]? = some t → w'.tasks[m]? = some t

namespace Spares

variable {touched : Option Nat}

/-- Nothing has changed. -/
theorem refl (touched : Option Nat) (w : Rehearsal) : Spares touched w w := ⟨rfl, fun _ _ _ h => h⟩

/-- Two changes that spare all but one task do so together. -/
theorem trans (h : Spares touched w w') (h' : Spares touched w' w'') : Spares touched w w'' :=
  ⟨h'.looks.trans h.looks, fun m t hm ht => h'.tasks m t hm (h.tasks m t hm ht)⟩

/-- Neither looks nor tasks have changed. -/
theorem of_eq (hlooks : w'.looks = w.looks) (htasks : w'.tasks = w.tasks) : Spares touched w w' :=
  ⟨hlooks, fun _ _ _ ht => htasks ▸ ht⟩

/-- One task is in another phase. -/
theorem setPhase (w : Rehearsal) (n : Nat) (phase : StagePhase) : Spares (some n) w (w.setPhase n phase) := by
  refine ⟨rfl, fun m t hm ht => ?_⟩
  rw [← ht]
  exact List.getElem?_modify_ne _ _ fun heq => hm (congrArg some heq)

/-- A timer is set. -/
theorem after (w : Rehearsal) (ms : Nat) (j : Job) : Spares touched w (w.after ms j) := by
  unfold Rehearsal.after
  split <;> exact of_eq rfl rfl

/-- A command gets its token. -/
theorem commandToken (w : Rehearsal) (c : Command) (run : TokenId) :
    Spares touched w (w.commandToken c run).1 := by
  unfold Rehearsal.commandToken
  split <;> exact of_eq rfl rfl

/-- A window of time is opened. -/
theorem openWindow (w : Rehearsal) (window : Option WriteWindow) : Spares touched w (w.openWindow window) := by
  cases window <;> exact of_eq rfl rfl

/-- One task has ended. -/
theorem finishWith (w : Rehearsal) (n : Nat) (t : StageTask) (ending : Except String StageResult) :
    Spares (some n) w (w.finishWith n t ending) := by
  refine (setPhase w n .ended).trans (of_eq ?_ ?_)
  · unfold Rehearsal.finishWith
    dsimp only
    split <;> rfl
  · rw [tasks_finishWith]
    rfl

/-- A launch concerns the task that launches. -/
theorem launch (w : Rehearsal) (n : Nat) (t : StageTask) (s : BackendStage) (fingerprint : Option String) :
    Spares (some n) w (w.launch n t s fingerprint) := by
  unfold Rehearsal.launch
  dsimp only
  -- the command cannot be launched, and the task ends; or it is, and the task plays
  split
  · refine Spares.trans ?_ (finishWith _ n t _)
    exact of_eq rfl rfl
  · rename_i tree conduct patience window _
    have hstart : Spares (some n) w { w with launched := w.launched ++ [s.command], tree } := of_eq rfl rfl
    have hopen := (hstart.trans (commandToken _ s.command t.token)).trans (openWindow _ window)
    exact (hopen.trans (setPhase _ n (.playing fingerprint))).trans (of_eq rfl rfl)

/-- A comparison ends with the task's end or with its next phase. -/
theorem compare (w : Rehearsal) (n : Nat) (t : StageTask) (s : BackendStage) (previous : Option String) :
    Spares (some n) w (w.compare n t s previous) := by
  unfold Rehearsal.compare
  split
  · exact finishWith w n t _
  · exact finishWith w n t _
  · exact (setPhase w n _).trans (of_eq rfl rfl)

/-- A look concerns the task that looks. -/
theorem look (w : Rehearsal) (n : Nat) : Spares (some n) w (w.look n) := by
  unfold Rehearsal.look
  split
  · split
    · refine Spares.trans ?_ (finishWith _ n _ _)
      exact of_eq rfl rfl
    · exact compare w n _ _ _
    · exact refl _ w
  · exact refl _ w

/-- A command that has ended ends its task. -/
theorem conclude (w : Rehearsal) (n : Nat) (t : StageTask) (s : BackendStage) (fingerprint : Option String)
    (outcome : ExitOutcome) (lines : List OutputLine) :
    Spares (some n) w (w.conclude n t s fingerprint outcome lines) := by
  unfold Rehearsal.conclude
  dsimp only
  refine Spares.trans (of_eq ?_ ?_) (finishWith _ n t _)
  -- a record concerns stores, and neither looks nor tasks
  · split
    · unfold Rehearsal.record
      split <;> rfl
    · rfl
  · split
    · exact (History.run_record w s fingerprint).2
    · rfl

/-- New tasks do not touch old ones. -/
theorem spawnAll (run : PipelineRun) (started : List (Nat × Bool)) (w : Rehearsal) :
    Spares touched w (w.spawnAll run started) := by
  refine ⟨?_, fun m t _ ht => ?_⟩
  · unfold Rehearsal.spawnAll
    -- induction on the stages that were started
    induction started generalizing w with
    | nil => rfl
    | cons x rest ih =>
      rw [List.foldl_cons, ih]
      dsimp only
      cases run.bodies[x.1]? <;> rfl
  · rw [tasks_spawnAll]
    exact (List.getElem?_append_left (List.getElem?_eq_some_iff.mp ht).1).trans ht

/-- Filling the loop makes new tasks. -/
theorem fill (w : Rehearsal) (run : PipelineRun) : Spares touched w (w.fill run) :=
  (of_eq rfl rfl : Spares touched w (w.withLoop run _)).trans (spawnAll run _ _)

/-- The loop hears of endings; tasks are made, and none is touched. -/
theorem settleEach (reports : List (Nat × Except String StageResult)) :
    ∀ w : Rehearsal, Spares touched w (w.settleEach reports) := by
  -- induction on what has arrived
  induction reports with
  | nil =>
    intro w
    unfold Rehearsal.settleEach
    split
    · exact of_eq rfl rfl
    · exact refl _ w
  | cons report rest ih =>
    intro w
    unfold Rehearsal.settleEach
    split
    · refine Spares.trans ?_ (ih _)
      refine Spares.trans ?_ (fill _ _)
      exact of_eq rfl rfl
    · exact refl _ w

/-- So it is for all that has arrived at one moment. -/
theorem settle (w : Rehearsal) : Spares touched w w.settle := by
  unfold Rehearsal.settle
  split
  · refine Spares.trans ?_ (settleEach _ _)
    exact of_eq rfl rfl
  · exact refl _ w

end Spares

namespace Waits

variable {touched : Option Nat} {t : StageTask} (h : Waits w)
include h

/-- Who waits goes on waiting, unless it is the task that is touched. -/
theorem spares (hw : Spares touched w w') (hn : ∀ n, touched = some n → n ∉ w.looks) : Waits w' := by
  refine ⟨hw.looks ▸ h.nodup, fun n hmem => ?_⟩
  rw [hw.looks] at hmem
  obtain ⟨t, previous, ht, hphase⟩ := isLooking_iff.mp (h.looking n hmem)
  exact isLooking_iff.mpr ⟨t, previous, hw.tasks n t (fun heq => hn n heq hmem) ht, hphase⟩

/-- All tasks stay as they are. -/
theorem untouched (hw : Spares none w w') : Waits w' := h.spares hw fun _ hn => nomatch hn

/-- A task in another phase does not wait. -/
theorem notMem_of_phase (hn : w.tasks[n]? = some t) (ht : ∀ previous, t.phase ≠ .looking previous) :
    n ∉ w.looks := by
  intro hmem
  obtain ⟨u, previous, hu, hphase⟩ := isLooking_iff.mp (h.looking n hmem)
  obtain rfl := Option.some.inj (hn.symm.trans hu)
  exact ht previous hphase

/-- A task that does not wait for a look may change. -/
theorem of_phase (hn : w.tasks[n]? = some t) (ht : ∀ previous, t.phase ≠ .looking previous)
    (hw : Spares (some n) w w') : Waits w' := by
  refine h.spares hw fun m hm => ?_
  obtain rfl := Option.some.inj hm
  exact h.notMem_of_phase hn ht

/-- A task that starts begins to wait. -/
theorem push (hn : w.tasks[n]? = some t) (ht : ∀ previous, t.phase ≠ .looking previous)
    (previous : Option String) : Waits (w.startLooking n previous) := by
  have hnot := h.notMem_of_phase hn ht
  have hrest := h.of_phase hn ht (.setPhase w n (.looking previous))
  refine ⟨List.nodup_append.mpr ⟨h.nodup, List.nodup_singleton n, ?_⟩, fun m hm => ?_⟩
  -- nobody waits twice: the task has not been waiting
  · rintro m hm _ hmem rfl
    exact hnot (List.mem_singleton.mp hmem ▸ hm)
  · rcases List.mem_append.mp hm with hm | hm
    · exact hrest.looking m hm
    -- the task itself is looking now
    · obtain rfl := List.mem_singleton.mp hm
      refine isLooking_iff.mpr ⟨{ t with phase := .looking previous }, previous, ?_, rfl⟩
      exact (List.getElem?_modify_eq ..).trans (congrArg _ hn)

/-- A task that starts goes to look, or does something else and does not wait. -/
theorem enter (hn : w.tasks[n]? = some t) (ht : t.phase = .starting) : Waits (w.enter n t) := by
  have hphase : ∀ previous, t.phase ≠ .looking previous := by simp [ht]
  unfold Rehearsal.enter
  -- by what the stage does
  split
  · exact h.push hn hphase none
  · dsimp only
    split
    · exact h.of_phase hn hphase (.finishWith w n t _)
    · exact h.of_phase hn hphase ((Spares.setPhase w n _).trans (.after _ _ _))
  · split
    · exact h.of_phase hn hphase (.finishWith w n t _)
    · split
      · exact h.push hn hphase _
      · exact h.of_phase hn hphase (.launch w n t _ _)

/-- A task that goes on was not looking. -/
theorem advance (n : Nat) : Waits (w.advance n) := by
  unfold Rehearsal.advance
  split
  · exact h
  · rename_i t hn
    -- by the phase of the task
    split
    · rename_i hphase
      exact h.enter hn hphase
    · rename_i hphase _
      exact h.of_phase hn (by simp [hphase]) (.finishWith w n t _)
    · rename_i hphase _
      exact h.of_phase hn (by simp [hphase]) (.launch w n t _ _)
    · exact h

/-- A task that hears of its process was not looking. -/
theorem report (k : Nat) : Waits (w.report k) := by
  unfold Rehearsal.report
  split
  · exact h
  · split
    · rename_i hn
      dsimp only
      split
      · rename_i hphase _
        refine h.of_phase hn (by simp [hphase]) (Spares.trans ?_ (.conclude _ _ _ _ _ _ _))
        exact .of_eq rfl rfl
      · exact h.untouched (.of_eq rfl rfl)
    · exact h

omit h in
/-- The task whose turn it is looks at files. -/
theorem look {rest : List Nat} (h : Waits w) (hlooks : w.looks = n :: rest) :
    Waits (({ w with looks := rest } : Rehearsal).look n) := by
  have hnd := h.nodup
  rw [hlooks, List.nodup_cons] at hnd
  have hrest : Waits { w with looks := rest } :=
    ⟨hnd.2, fun m hm => h.looking m (hlooks ▸ List.mem_cons_of_mem n hm)⟩
  refine hrest.spares (.look _ n) fun m hm => ?_
  obtain rfl := Option.some.inj hm
  exact hnd.1

/-- Endings that have arrived wake nobody who looks. -/
theorem settle : Waits w.settle := h.untouched (.settle w)

end Waits

/-- Nothing happens to the run, the tasks and the stores, and no task begins to wait. -/
structure Quiet (w w' : Rehearsal) : Prop extends Alike w w' where
  /-- And the same tasks wait for a look. -/
  looks : w'.looks = w.looks

namespace Quiet

/-- Nothing has happened. -/
theorem refl (w : Rehearsal) : Quiet w w := ⟨.refl w, rfl⟩

/-- Two quiet changes are quiet. -/
theorem trans (h : Quiet w w') (h' : Quiet w' w'') : Quiet w w'' :=
  ⟨h.toAlike.trans h'.toAlike, h'.looks.trans h.looks⟩

/-- Who waits, waits on. -/
theorem waits (h : Quiet w w') (hw : Waits w) : Waits w' :=
  hw.untouched (.of_eq h.looks h.tasks)

/-- A timer is set. -/
theorem after (w : Rehearsal) (ms : Nat) (j : Job) : Quiet w (w.after ms j) := by
  have hlooks : Spares none w (w.after ms j) := .after w ms j
  exact ⟨.after w ms j, hlooks.looks⟩

/-- A window of time is closed. -/
theorem closeWindow (w : Rehearsal) (window : Option WriteWindow) : Quiet w (w.closeWindow window) := by
  cases window <;> exact ⟨⟨rfl, rfl, rfl⟩, rfl⟩

/-- A process is gone; its task has not heard of it yet. -/
theorem leave (w : Rehearsal) (n : Nat) (p : LaunchedProcess) (d : Departure) : Quiet w (w.leave n p d) := by
  refine Quiet.trans ?_ ((closeWindow _ p.window).trans (after _ _ _))
  exact ⟨⟨rfl, rfl, rfl⟩, rfl⟩

/-- A process plays. -/
theorem play (w : Rehearsal) (n : Nat) : Quiet w (w.play n) := by
  unfold Rehearsal.play
  split
  · exact refl w
  · dsimp only
    split
    · exact leave w n _ _
    -- it is gone, it has ended and holds the pipes, or it is played on until its next moment
    · split
      · exact ⟨⟨rfl, rfl, rfl⟩, rfl⟩
      · split
        · refine Quiet.trans ?_ (after _ _ _)
          exact ⟨⟨rfl, rfl, rfl⟩, rfl⟩
        · exact ⟨⟨rfl, rfl, rfl⟩, rfl⟩

/-- A window of time is over. -/
theorem expire (w : Rehearsal) (n : Nat) : Quiet w (w.expire n) := by
  unfold Rehearsal.expire
  split
  · exact refl w
  · dsimp only
    split
    · exact leave w n _ _
    · exact refl w

/-- A process is asked to end. -/
theorem interrupt (w : Rehearsal) (n : Nat) : Quiet w (w.interrupt n) := by
  unfold Rehearsal.interrupt
  split
  · exact refl w
  · split
    · exact refl w
    · exact leave w n _ _

/-- Time passes: a timer rings, or a deadline is over. -/
theorem tick {limit : Option Nat} (h : w.tick limit = some w') : Quiet w w' := by
  -- timers of the rehearsal and those of tokens
  have hring : ∀ t, Quiet w (({ w with tokens := w.tokens.settleTimers } : Rehearsal).ring t) := fun t =>
    ⟨⟨rfl, rfl, rfl⟩, rfl⟩
  have helapse : ∀ t, Quiet w (({ w with tokens := w.tokens.settleTimers } : Rehearsal).elapse t) := fun t =>
    ⟨⟨rfl, rfl, rfl⟩, rfl⟩
  unfold Rehearsal.tick at h
  dsimp only at h
  split at h
  · split at h
    · exact Option.some.inj (Option.ite_none_right_eq_some.mp h).2 ▸ hring _
    · exact Option.some.inj (Option.ite_none_right_eq_some.mp h).2 ▸ helapse _
  · exact Option.some.inj (Option.ite_none_right_eq_some.mp h).2 ▸ hring _
  · exact Option.some.inj (Option.ite_none_right_eq_some.mp h).2 ▸ helapse _
  · cases h

end Quiet

end Rehearsal

/-- Records of a store are forgotten. -/
def Rehearsal.forget (w : Rehearsal) (m : Nat) (start : String) : Rehearsal :=
  let (store, tree, _) := (w.store m).forget start w.tree
  { w with tree, stores := w.stores.set m store }

/-! ## The main result

  Each job of the machine is a path of events, and what is not a job changes nothing that a history speaks of.  So all
  that is proved of histories holds of rehearsals. -/

namespace History

variable {S : Setting} {w₀ w w' : Rehearsal} {log : List Act}

/-- What is filled depends on the loop only. -/
theorem Filled.of_loop? (h : Filled w) (hw : w'.loop? = w.loop?) : Filled w' := by
  intro run hrun
  rw [Rehearsal.loop?, hrun, Option.map_some] at hw
  obtain ⟨run', hrun', heq⟩ := Option.map_eq_some_iff.mp hw.symm
  exact heq ▸ h run' hrun'

/-- **A job is a path.** -/
theorem leads_perform (hp : S.pipeline.plan.WellFormed) (h : Faithful S log w) (hfilled : Filled w) (j : Job) :
    Leads S w (w.perform j) ∧ Filled (w.perform j) := by
  -- what plays, expires or is interrupted is around the run
  have hquiet : ∀ {w'}, Rehearsal.Quiet w w' → Leads S w w' ∧ Filled w' := fun hw =>
    ⟨.of_alike hw.toAlike, hfilled.of_loop? (congrArg (Option.map _) hw.run)⟩
  cases j with
  | advance n => exact ⟨.of_event (.advance n) _ rfl, hfilled.of_loop? (Rehearsal.loop?_advance w n)⟩
  | play n => exact hquiet (.play w n)
  | expire n => exact hquiet (.expire w n)
  | interrupt n => exact hquiet (.interrupt w n)
  | report n => exact ⟨.of_event (.report n) _ rfl, hfilled.of_loop? (Rehearsal.loop?_report w n)⟩
  | settle =>
    obtain ⟨hpath, hfilled⟩ := loopsOn_settle hp h hfilled
    exact ⟨hpath.leads, hfilled⟩

end History

/-- A job wakes no task that looks. -/
theorem Rehearsal.Waits.perform {w : Rehearsal} (h : w.Waits) (j : Job) : (w.perform j).Waits := by
  cases j with
  | advance n => exact h.advance n
  | play n => exact (Quiet.play w n).waits h
  | expire n => exact (Quiet.expire w n).waits h
  | interrupt n => exact (Quiet.interrupt w n).waits h
  | report n => exact h.report n
  | settle => exact h.settle

namespace History

variable {S : Setting} {w₀ w w' : Rehearsal} {log : List Act}

/-- What a rehearsal keeps true of itself: events lead to it, its loop has started all that it can, and every
    task in its queue waits for a look at files. -/
structure Orderly (S : Setting) (w₀ w : Rehearsal) : Prop where
  /-- It was reached by events. -/
  path : Leads S w₀ w
  /-- The loop has taken all that it could. -/
  filled : Filled w
  /-- Who waits for a look is looking. -/
  waits : w.Waits

namespace Orderly

/-- A quiet change is one around the run. -/
theorem quiet (h : Orderly S w₀ w) (hw : w.Quiet w') : Orderly S w₀ w' :=
  ⟨h.path.trans (.of_alike hw.toAlike), h.filled.of_loop? (congrArg (Option.map _) hw.run), hw.waits h.waits⟩

/-- Records may be forgotten at any time. -/
theorem forget (h : Orderly S w₀ w) (m : Nat) (start : String) : Orderly S w₀ (w.forget m start) :=
  ⟨h.path.trans (.of_event (.forget m start) _ rfl), h.filled.of_loop? rfl,
    h.waits.untouched (.of_eq rfl rfl)⟩

variable (hp : S.pipeline.plan.WellFormed) (hw₀ : S.Unused w₀) (h : Orderly S w₀ w)
include hp hw₀ h

/-- A run begins when no other one is under way. -/
theorem begins (hidle : ∀ run, w.run = some run → run.outcome.isSome = true) (config : PipelineConfig)
    (current : Option TokenId) (token : TokenId) : Orderly S w₀ (startRun S w config current token) := by
  obtain ⟨log, hlog⟩ := h.path.faithful hp (.start hw₀)
  obtain ⟨hpath, hfilled⟩ := leads_startRun hp hlog hidle config current token
  refine ⟨h.path.trans hpath, hfilled, h.waits.untouched ?_⟩
  refine Rehearsal.Spares.trans ?_ ((Rehearsal.Spares.fill _ _).trans (.settle _))
  exact .of_eq rfl rfl

/-- **One step of the machine.** -/
theorem step {limit : Option Nat} (hs : w.step limit = some w') : Orderly S w₀ w' := by
  unfold Rehearsal.step at hs
  -- a job, a look, or the time
  split at hs
  · rename_i j rest _
    cases hs
    have hrest : Orderly S w₀ { w with jobs := rest } := h.quiet ⟨⟨rfl, rfl, rfl⟩, rfl⟩
    obtain ⟨log, hlog⟩ := hrest.path.faithful hp (.start hw₀)
    obtain ⟨hpath, hfilled⟩ := leads_perform hp hlog hrest.filled j
    exact ⟨hrest.path.trans hpath, hfilled, hrest.waits.perform j⟩
  -- the task that looks first is in the phase of looking
  · rename_i n rest _ hlooks
    cases hs
    have hlook := h.waits.looking n (hlooks ▸ List.mem_cons_self)
    have hrest : Leads S w₀ { w with looks := rest } := h.path.trans (.of_alike ⟨rfl, rfl, rfl⟩)
    exact ⟨hrest.trans (.of_event (.look n) _ (if_pos hlook)), h.filled.of_loop? (Rehearsal.loop?_look _ n),
      h.waits.look hlooks⟩
  · exact h.quiet (.tick hs)

end Orderly

/-- The rehearsal has come from `w₀` by runs of the setting, one after the other, by steps of its machine, by
    records being forgotten, and by changes from outside. -/
inductive Rehearsed (S : Setting) (w₀ : Rehearsal) : Rehearsal → Prop
  /-- Before anything has happened. -/
  | start : Rehearsed S w₀ w₀
  /-- A run begins, if no other one is under way. -/
  | begins {w : Rehearsal} (h : Rehearsed S w₀ w)
      (hidle : ∀ run, w.run = some run → run.outcome.isSome = true) (config : PipelineConfig)
      (current : Option TokenId) (token : TokenId) : Rehearsed S w₀ (startRun S w config current token)
  /-- The rehearsal takes a step. -/
  | step {w w' : Rehearsal} {limit : Option Nat} (h : Rehearsed S w₀ w) (hs : w.step limit = some w') :
      Rehearsed S w₀ w'
  /-- Records are forgotten. -/
  | forget {w : Rehearsal} (h : Rehearsed S w₀ w) (m : Nat) (start : String) : Rehearsed S w₀ (w.forget m start)
  /-- Something changes around the run. -/
  | around {w w' : Rehearsal} (h : Rehearsed S w₀ w) (hw : w.Quiet w') : Rehearsed S w₀ w'

/-- **Every rehearsal is a history.** -/
theorem Rehearsed.exists_follow (hplan : plan S.pipeline.specs = .ok S.pipeline.plan) (hw₀ : S.Unused w₀)
    (hlooks : w₀.looks = []) (h : Rehearsed S w₀ w) : ∃ events log, S.follow w₀ events = some (log, w) := by
  have hp := (describes_of_plan hplan).1.toWellFormed
  -- induction on how the state was come to
  have horderly : Orderly S w₀ w := by
    induction h with
    | start =>
      refine ⟨.refl S w₀, fun run hrun => ?_, ⟨hlooks ▸ List.nodup_nil, fun n hn => ?_⟩⟩
      · rw [hw₀.run] at hrun
        cases hrun
      · rw [hlooks] at hn
        exact absurd hn List.not_mem_nil
    | begins _ hidle config current token ih => exact ih.begins hp hw₀ hidle config current token
    | step _ hs ih => exact ih.step hp hw₀ hs
    | forget _ m start ih => exact ih.forget m start
    | around _ hw ih => exact ih.quiet hw
  exact horderly.path

end History

end Wheelwright
