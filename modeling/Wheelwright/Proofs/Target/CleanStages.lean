/-
  Clean stages at work — a stage that is run alone, after the runs of its target.

  **Specification** — while no run goes on and the only stage at work is one that is run alone and checks nothing
  before it starts, nothing is recorded and no run comes to life; and when there is a result, nobody is at work any
  more.

  **The crux** — the machine does not know that the run is over: reports, looks and timers of old processes may still
  be in its queues.  But what they wake has ended, and a loop that is done makes no step.
-/
import Wheelwright.Proofs.History.FirstRun

namespace Wheelwright

/-! ## Loops that are done

  A loop that is done stays as it is, whatever is reported to it. -/

namespace Dispatch

variable {d : Dispatch}

/-- No event moves a loop that is done. -/
theorem step_of_outcome (h : d.outcome.isSome = true) (e : Event) : d.step e = none := by
  unfold step
  rw [if_pos h]

/-- It stays as it is. -/
theorem stepOrStay_of_outcome (h : d.outcome.isSome = true) (e : Event) : d.stepOrStay e = d := by
  rw [stepOrStay, step_of_outcome h]
  rfl

/-- It starts no stage. -/
theorem fill_of_outcome (h : d.outcome.isSome = true) (steps : Nat) : d.fill steps = d := by
  cases steps with
  | zero => rfl
  | succ steps => rw [fill, step_of_outcome h]

end Dispatch

namespace Rehearsal

variable {w v w' : Rehearsal} {n : Nat} {t : StageTask} {run : PipelineRun}

/-- It notices nothing. -/
theorem noticed_of_outcome (h : run.outcome.isSome = true) (w : Rehearsal) : w.noticed run = run.toDispatch := by
  unfold noticed
  split
  · exact Dispatch.stepOrStay_of_outcome h _
  · rfl

/-- Nobody hears of reports once the run is over. -/
theorem settleEach_of_outcome (h : run.outcome.isSome = true) (reports : List (Nat × Except String StageResult)) :
    ∀ w : Rehearsal, w.run = some run → Alike w (w.settleEach reports) ∧
      (w.settleEach reports).aloneResult = w.aloneResult := by
  -- on the reports
  induction reports with
  | nil =>
    intro w hrun
    unfold settleEach
    rw [hrun]
    dsimp only
    unfold complete
    rw [noticed_of_outcome h, Dispatch.stepOrStay_of_outcome h]
    exact ⟨⟨hrun.symm, rfl, rfl⟩, rfl⟩
  | cons report rest ih =>
    intro w hrun
    unfold settleEach
    rw [hrun]
    dsimp only
    have hfill : ((w.withLoop run run.toDispatch).fill run) =
        (w.withLoop run run.toDispatch).withLoop run run.toDispatch := by
      unfold fill
      rw [noticed_of_outcome h, Dispatch.fill_of_outcome h]
      dsimp only
      rw [List.drop_length, List.foldl_nil]
    rw [noticed_of_outcome h, Dispatch.stepOrStay_of_outcome h]
    obtain ⟨hsame, halone⟩ := ih ((w.withLoop run run.toDispatch).fill run) (by rw [hfill]; rfl)
    have hw : Alike w ((w.withLoop run run.toDispatch).fill run) := by
      rw [hfill]
      exact ⟨hrun.symm, rfl, rfl⟩
    exact ⟨hw.trans hsame, halone.trans (by rw [hfill]; rfl)⟩

/-! ## What keeps the result of a stage that was run alone

  The result of a stage that was run alone is kept by everything but the end of that stage. -/

/-- A job that is put off leaves the result. -/
theorem aloneResult_after (w : Rehearsal) (ms : Nat) (j : Job) : (w.after ms j).aloneResult = w.aloneResult := by
  grind [after, enqueue]

/-- A command's token does. -/
theorem aloneResult_commandToken (w : Rehearsal) (c : Command) (run : TokenId) :
    (w.commandToken c run).1.aloneResult = w.aloneResult := by
  grind [commandToken, withTokens, wake]

/-- Opening a window does. -/
theorem aloneResult_openWindow (w : Rehearsal) (window : Option WriteWindow) :
    (w.openWindow window).aloneResult = w.aloneResult := by
  cases window <;> rfl

/-- Closing a window does. -/
theorem aloneResult_closeWindow (w : Rehearsal) (window : Option WriteWindow) :
    (w.closeWindow window).aloneResult = w.aloneResult := by
  cases window <;> rfl

/-- A process that leaves does. -/
theorem aloneResult_leave (w : Rehearsal) (n : Nat) (p : LaunchedProcess) (d : Departure) :
    (w.leave n p d).aloneResult = w.aloneResult := by
  rw [leave, aloneResult_after, aloneResult_closeWindow]

/-- A line that is said does. -/
theorem aloneResult_play (w : Rehearsal) (n : Nat) : (w.play n).aloneResult = w.aloneResult := by
  grind [play, aloneResult_leave, aloneResult_after, enqueue]

/-- A deadline does. -/
theorem aloneResult_expire (w : Rehearsal) (n : Nat) : (w.expire n).aloneResult = w.aloneResult := by
  grind [expire, aloneResult_leave]

/-- An interruption does. -/
theorem aloneResult_interrupt (w : Rehearsal) (n : Nat) : (w.interrupt n).aloneResult = w.aloneResult := by
  grind [interrupt, aloneResult_leave]

/-- So does the time. -/
theorem aloneResult_tick {limit : Option Nat} (h : w.tick limit = some w') : w'.aloneResult = w.aloneResult := by
  grind [tick, ring, elapse, withTokens, wake, enqueue]

/-! ## A task that is run alone

  The task has no place in a pipeline, so it reports to nobody and its phases are its own.  No step of it touches a
  store. -/

/-- What becomes of a task of no stage: it goes on to another phase, or it ends and there is a result. -/
inductive Works (w : Rehearsal) (n : Nat) (w' : Rehearsal) : Prop
  /-- The task goes on to another phase, and there is no result yet. -/
  | goesOn (phase : StagePhase) (h : Alike (w.setPhase n phase) w') (halone : w'.aloneResult = w.aloneResult)
  /-- The task has ended, with a result. -/
  | ends (h : Alike (w.setPhase n .ended) w') (halone : w'.aloneResult.isSome = true)

namespace Works

/-- What it begins with may be replaced by what is alike. -/
theorem congr (h : Works v n w') (hv : Alike w v) (halone : v.aloneResult = w.aloneResult) : Works w n w' := by
  cases h with
  | goesOn phase h hsame => exact .goesOn phase ((hv.setPhase n phase).trans h) (hsame.trans halone)
  | ends h hsome => exact .ends ((hv.setPhase n .ended).trans h) hsome

/-- A task that ends has a result. -/
theorem finishWith (w : Rehearsal) (n : Nat) (ht : t.stage = none) (ending : Except String StageResult) :
    Works w n (w.finishWith n t ending) := by
  unfold Rehearsal.finishWith
  rw [ht]
  exact .ends ⟨rfl, rfl, rfl⟩ rfl

/-- A launch is such work. -/
theorem launch (w : Rehearsal) (n : Nat) (ht : t.stage = none) (s : BackendStage) (fingerprint : Option String) :
    Works w n (w.launch n t s fingerprint) := by
  -- a command that could not be spawned ends the stage, one that was plays on
  unfold Rehearsal.launch
  dsimp only
  split
  · exact (finishWith _ n ht _).congr ⟨rfl, rfl, rfl⟩ rfl
  · rename_i tree conduct patience window _
    let u : Rehearsal := { w with launched := w.launched ++ [s.command], tree }
    have htoken := Alike.commandToken u s.command t.token
    have hopen := htoken.trans (Alike.openWindow _ window)
    refine Works.congr (v := (u.commandToken s.command t.token).1.openWindow window) ?_ ?_ ?_
    · exact .goesOn (.playing fingerprint) ⟨rfl, rfl, rfl⟩ rfl
    · exact ⟨hopen.run, hopen.tasks, hopen.stores⟩
    · exact (aloneResult_openWindow _ window).trans (aloneResult_commandToken u s.command t.token)

/-- A comparison is as well. -/
theorem compare (w : Rehearsal) (n : Nat) (ht : t.stage = none) (s : BackendStage) (previous : Option String) :
    Works w n (w.compare n t s previous) := by
  unfold Rehearsal.compare
  split
  · exact finishWith w n ht _
  · exact finishWith w n ht _
  · exact .goesOn _ ⟨rfl, rfl, rfl⟩ rfl

end Works

/-- Nobody is at work, but perhaps one stage that is run alone, checks nothing and has no result yet. -/
structure Aside (w : Rehearsal) : Prop where
  /-- There is no run, or it is over. -/
  idle : ∀ run, w.run = some run → run.outcome.isSome = true
  /-- A task that has not ended is the only one, is run by itself, has no check, and has no result yet. -/
  alone : ∀ (n : Nat) (t : StageTask), w.tasks[n]? = some t → t.phase ≠ .ended →
    t.stage = none ∧ (∀ s, t.body = .backend s → s.staleness = none) ∧ w.aloneResult = none ∧
      ∀ (m : Nat) (u : StageTask), w.tasks[m]? = some u → u.phase ≠ .ended → m = n

/-- A stage that checks nothing is run alone. -/
theorem aside_startAlone {body : StageBody} (hidle : ∀ run, w.run = some run → run.outcome.isSome = true)
    (hended : ∀ t ∈ w.tasks, t.phase = .ended) (hbody : ∀ s, body = .backend s → s.staleness = none)
    (token : TokenId) : Aside (w.startAlone body token) := by
  refine ⟨hidle, fun n t hn ht => ?_⟩
  -- whoever is at work is the task that came in last
  have hnew (k : Nat) (x : StageTask) (hk : (w.startAlone body token).tasks[k]? = some x) (hx : x.phase ≠ .ended) :
      k = w.tasks.length ∧ x = ⟨none, body, token, false, .starting⟩ := by
    rcases Nat.lt_trichotomy k w.tasks.length with hlt | heq | hgt
    · exact absurd (hended x (List.mem_of_getElem? ((List.getElem?_append_left hlt).symm.trans hk))) hx
    · subst heq
      exact ⟨rfl, (Option.some.inj (List.getElem?_concat_length.symm.trans hk)).symm⟩
    · have hlt := (List.getElem?_eq_some_iff.mp hk).1
      have hlength : (w.startAlone body token).tasks.length = w.tasks.length + 1 := List.length_append
      omega
  obtain ⟨rfl, rfl⟩ := hnew n t hn ht
  exact ⟨rfl, hbody, rfl, fun m u hm hu => (hnew m u hm hu).1⟩

/-- A task that is started alone leaves the queues in order. -/
theorem Waits.startAlone (h : w.Waits) (body : StageBody) (token : TokenId) : (w.startAlone body token).Waits :=
  h.untouched ⟨rfl, fun _ _ _ ht =>
    (List.getElem?_append_left (List.getElem?_eq_some_iff.mp ht).1).trans ht⟩

/-- It stays so, nothing is recorded, and nobody comes to work. -/
structure KeepsAside (w w' : Rehearsal) : Prop where
  /-- The task is still aside. -/
  aside : Aside w'
  /-- The stores are as they were. -/
  stores : w'.stores = w.stores
  /-- No task comes back. -/
  ended : (∀ t ∈ w.tasks, t.phase = .ended) → ∀ t ∈ w'.tasks, t.phase = .ended

namespace Aside

variable (h : Aside w)
include h

/-- What matters is the run, the tasks and the result. -/
theorem congr (hrun : w'.run = w.run) (htasks : w'.tasks = w.tasks) (halone : w'.aloneResult = w.aloneResult) :
    Aside w' := by
  refine ⟨fun run hr => h.idle run (hrun ▸ hr), ?_⟩
  rw [htasks, halone]
  exact h.alone

/-- What is alike keeps the task aside. -/
theorem alike (hw : Alike w w') (halone : w'.aloneResult = w.aloneResult) : KeepsAside w w' :=
  ⟨h.congr hw.run hw.tasks halone, hw.stores, fun hended => hw.tasks ▸ hended⟩

/-- Nothing happens. -/
theorem stays : KeepsAside w w := h.alike (.refl w) rfl

/-- Once there is a result nobody is at work. -/
theorem ended (hr : w.aloneResult.isSome = true) : ∀ t ∈ w.tasks, t.phase = .ended := by
  intro t ht
  by_contra hlive
  obtain ⟨n, hn⟩ := List.mem_iff_getElem?.mp ht
  rw [(h.alone n t hn hlive).2.2.1] at hr
  cases hr

/-- The task at work stays aside. -/
theorem works (hn : w.tasks[n]? = some t) (ht : t.phase ≠ .ended) (hw : Works w n w') : KeepsAside w w' := by
  obtain ⟨hstage, hbody, hnone, honly⟩ := h.alone n t hn ht
  have hended (hall : ∀ t ∈ w.tasks, t.phase = .ended) : ∀ t ∈ w'.tasks, t.phase = .ended :=
    absurd (hall t (List.mem_of_getElem? hn)) ht
  cases hw with
  | goesOn phase hsame halone =>
    refine ⟨⟨fun run hrun => h.idle run (hsame.run ▸ hrun), fun m u hm hu => ?_⟩, hsame.stores, hended⟩
    rw [hsame.tasks] at hm ⊢
    -- whoever is at work is the task that went on
    have honly' (k : Nat) (x : StageTask) (hk : (w.setPhase n phase).tasks[k]? = some x) (hx : x.phase ≠ .ended) :
        k = n ∧ x = { t with phase } := by
      rcases History.getElem?_modify_phase hn hk with heq | ⟨hne, hold⟩
      · exact heq
      · exact absurd (honly k x hold hx) hne
    obtain ⟨rfl, rfl⟩ := honly' m u hm hu
    exact ⟨hstage, hbody, halone.trans hnone, fun k x hk hx => (honly' k x hk hx).1⟩
  | ends hsame halone =>
    refine ⟨⟨fun run hrun => h.idle run (hsame.run ▸ hrun), fun m u hm hu => ?_⟩, hsame.stores, hended⟩
    rw [hsame.tasks] at hm
    rcases History.getElem?_modify_phase hn hm with ⟨-, rfl⟩ | ⟨hne, hold⟩
    · exact absurd rfl hu
    · exact absurd (honly m u hold hu) hne

/-- Every step of a task keeps it aside. -/
theorem advance (n : Nat) : KeepsAside w (w.advance n) := by
  unfold Rehearsal.advance
  split
  · exact h.stays
  · rename_i t hn
    by_cases ht : t.phase = .ended
    · rw [ht]
      exact h.stays
    obtain ⟨hstage, hbody, -⟩ := h.alone n t hn ht
    split
    -- a task that begins, be it a sweep, a script or a command: none of them asks a store here
    · refine h.works hn ht ?_
      unfold Rehearsal.enter
      split
      · exact .goesOn (.looking none) ⟨rfl, rfl, rfl⟩ rfl
      · dsimp only
        split
        · exact .finishWith w n hstage _
        · exact .goesOn .waiting (Alike.after _ _ _) (aloneResult_after _ _ _)
      · rename_i s hs
        split
        · exact .finishWith w n hstage _
        · rw [hbody s hs]
          exact .launch w n hstage s none
    · exact h.works hn ht (.finishWith w n hstage _)
    · exact h.works hn ht (.launch w n hstage _ _)
    · exact h.stays

/-- A comparison keeps it aside. -/
theorem look (n : Nat) (hlook : w.isLooking n = true) : KeepsAside w (w.look n) := by
  obtain ⟨t, previous, hn, hphase⟩ := isLooking_iff.mp hlook
  have ht : t.phase ≠ .ended := by simp [hphase]
  obtain ⟨hstage, -⟩ := h.alone n t hn ht
  unfold Rehearsal.look
  rw [hn]
  dsimp only
  split
  · exact h.works hn ht ((Works.finishWith _ n hstage _).congr ⟨rfl, rfl, rfl⟩ rfl)
  · exact h.works hn ht (.compare w n hstage _ _)
  · exact h.stays

/-- So does what a process reports. -/
theorem report (n : Nat) : KeepsAside w (w.report n) := by
  unfold Rehearsal.report
  split
  · exact h.stays
  · rename_i p _
    split
    · rename_i d t _ hn
      dsimp only
      split
      -- only a command that was launched hears of its end
      · rename_i fingerprint s hphase hs
        have ht : t.phase ≠ .ended := by simp [hphase]
        obtain ⟨hstage, hbody, -⟩ := h.alone p.task t hn ht
        refine h.works hn ht ?_
        unfold conclude
        -- without a check nothing is recorded
        have hrecord (v : Rehearsal) : v.record s fingerprint = (v, []) := by
          unfold record
          rw [hbody s hs]
        dsimp only
        rw [hrecord, ite_self]
        exact (Works.finishWith _ p.task hstage _).congr ⟨rfl, rfl, rfl⟩ rfl
      · exact h.alike ⟨rfl, rfl, rfl⟩ rfl
    · exact h.stays

/-- Settling does. -/
theorem settle : KeepsAside w w.settle := by
  -- a run that is over takes no more results
  unfold Rehearsal.settle
  split
  · rename_i run hrun
    have hdone : ({ run with arrived := [] } : PipelineRun).outcome.isSome = true := h.idle run hrun
    obtain ⟨hsame, halone⟩ := settleEach_of_outcome hdone run.arrived
      { w with run := some { run with arrived := [] } } rfl
    have haside : Aside { w with run := some { run with arrived := [] } } := by
      refine ⟨fun r hr => ?_, h.alone⟩
      obtain rfl := Option.some.inj hr
      exact hdone
    have hkeeps := haside.alike hsame halone
    exact ⟨hkeeps.aside, hkeeps.stores, hkeeps.ended⟩
  · exact h.stays

/-- **One step of the machine** while no run goes on. -/
theorem step (hwaits : w.Waits) {limit : Option Nat} (hs : w.step limit = some w') : KeepsAside w w' := by
  unfold Rehearsal.step at hs
  split at hs
  -- a job first, then a look, and only then the clock
  · rename_i j rest _
    cases hs
    have hsame : KeepsAside w { w with jobs := rest } := h.alike ⟨rfl, rfl, rfl⟩ rfl
    have hrest := hsame.aside
    have hkeeps : KeepsAside { w with jobs := rest } (({ w with jobs := rest } : Rehearsal).perform j) := by
      cases j with
      | advance n => exact hrest.advance n
      | play n => exact hrest.alike (Quiet.play _ n).toAlike (aloneResult_play _ n)
      | expire n => exact hrest.alike (Quiet.expire _ n).toAlike (aloneResult_expire _ n)
      | interrupt n => exact hrest.alike (Quiet.interrupt _ n).toAlike (aloneResult_interrupt _ n)
      | report n => exact hrest.report n
      | settle => exact hrest.settle
    exact ⟨hkeeps.aside, hkeeps.stores, hkeeps.ended⟩
  · rename_i n rest _ hlooks
    cases hs
    have hsame : KeepsAside w { w with looks := rest } := h.alike ⟨rfl, rfl, rfl⟩ rfl
    have hkeeps := hsame.aside.look n (hwaits.looking n (hlooks ▸ List.mem_cons_self))
    exact ⟨hkeeps.aside, hkeeps.stores, hkeeps.ended⟩
  · exact h.alike (Quiet.tick hs).toAlike (aloneResult_tick hs)

end Aside

end Rehearsal

end Wheelwright
