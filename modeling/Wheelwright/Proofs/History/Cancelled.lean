/-
  Cancelled runs — a run whose token was tripped says so in the end.

  **Specification** — `Rehearsal.Cancelled w`: the token of the run was tripped, and if there is an outcome it has a
  reason of cancellation.  The machine keeps that, step by step; and a stage that stops before it has done anything
  stops in such a run.

  **The crux** — the loop looks at its token in the very step in which it ends, so no outcome misses a trip.
-/
import Wheelwright.Proofs.Dispatch.Tripping
import Wheelwright.Proofs.History.Idempotence
import Wheelwright.Proofs.History.Launches
import Wheelwright.Proofs.History.Paths

namespace Wheelwright

/-- No event but the last one gives the loop an outcome. -/
theorem Dispatch.outcome_stepOrStay {d : Dispatch} {e : Event} (he : e ≠ .close) :
    (d.stepOrStay e).outcome = d.outcome := by
  rw [stepOrStay]
  cases hs : d.step e with
  | none => rfl
  | some next => exact (outcome_eq_of_step hs he).trans (step_cases hs).1.symm

/-! ## Tokens

  The processes and timers of a rehearsal, asked for one thing: none of them takes a trip back. -/

namespace Forest

variable {f : Forest} {id : TokenId}

/-- A timer that elapses trips its token and takes back no trip. -/
theorem isCancelled_fire (h : f.isCancelled id = true) (t : TokenTimer) : (f.fire t).isCancelled id = true :=
  Raises.isCancelled raises_trip id h

end Forest

namespace Rehearsal

variable {w w' : Rehearsal} {run : PipelineRun} {id : TokenId}

/-- A process that is gone trips no token. -/
theorem tokens_leave (w : Rehearsal) (n : Nat) (p : LaunchedProcess) (d : Departure) :
    (w.leave n p d).tokens = w.tokens := by
  unfold leave
  rw [tokens_after]
  cases p.window <;> rfl

/-- A process that is played trips no token. -/
theorem tokens_play (w : Rehearsal) (n : Nat) : (w.play n).tokens = w.tokens := by
  grind [play, tokens_leave, tokens_after, enqueue]

/-- A time window that is over trips no token of the tasks. -/
theorem tokens_expire (w : Rehearsal) (n : Nat) : (w.expire n).tokens = w.tokens := by
  grind [expire, tokens_leave]

/-- Nor does a process that is asked to end. -/
theorem tokens_interrupt (w : Rehearsal) (n : Nat) : (w.interrupt n).tokens = w.tokens := by
  grind [interrupt, tokens_leave]

/-- Time trips tokens and untrips none. -/
theorem isCancelled_tick {limit : Option Nat} (hs : w.tick limit = some w') (h : w.tokens.isCancelled id = true) :
    w'.tokens.isCancelled id = true := by
  -- a timer that fires trips its token
  have hfire (t : TokenTimer) : (w.tokens.settleTimers.fire t).isCancelled id = true :=
    Forest.isCancelled_fire (f := w.tokens.settleTimers) h t
  unfold tick at hs
  dsimp only at hs
  -- by what comes next: a timer of the tasks, or one of the tokens
  split at hs
  · split at hs
    · exact Option.some.inj (Option.ite_none_right_eq_some.mp hs).2 ▸ h
    · exact Option.some.inj (Option.ite_none_right_eq_some.mp hs).2 ▸ hfire _
  · exact Option.some.inj (Option.ite_none_right_eq_some.mp hs).2 ▸ h
  · exact Option.some.inj (Option.ite_none_right_eq_some.mp hs).2 ▸ hfire _
  · cases hs

/-! ## Cancelled runs

  The scheduler looks at the token of the run before each step of the loop, and so in the step with which the loop
  ends. -/

/-- The token of the run was tripped, and if there is an outcome it says so. -/
def Cancelled (w : Rehearsal) : Prop :=
  ∃ run, w.run = some run ∧ w.tokens.isCancelled run.token = true ∧
    ∀ o, run.outcome = some o → o.cancelReason.isSome = true

/-- A loop that looks at a tripped token knows of the trip, unless it has ended. -/
theorem tripped_noticed (h : w.tokens.isCancelled run.token = true) (hout : run.outcome = none) :
    (w.noticed run).tripped.isSome = true := by
  obtain ⟨reason, hreason⟩ := Option.isSome_iff_exists.mp h
  -- the loop has learnt of the trip, now or before
  rw [noticed, cancelText?, hreason, Option.map_some]
  dsimp only
  rcases Dispatch.stepOrStay_trip run.toDispatch reason.text with ⟨-, -, heq⟩ | ⟨hended | hknown, heq⟩
  · rw [heq]
    rfl
  · rw [hout] at hended
    cases hended
  · rw [heq]
    exact hknown

namespace Cancelled

/-- The run stays as it is. -/
theorem keeps (h : w.Cancelled) (hrun : w'.run = w.run)
    (htokens : ∀ id, w.tokens.isCancelled id = true → w'.tokens.isCancelled id = true) : w'.Cancelled := by
  obtain ⟨run, hsome, htrip, hout⟩ := h
  exact ⟨run, hrun.trans hsome, htokens _ htrip, hout⟩

/-- A loop that is filled is cancelled if it was. -/
theorem fill (hrun : w.run = some run) (h : w.Cancelled) : (w.fill run).Cancelled := by
  obtain ⟨run', hsome, htrip, hout⟩ := h
  obtain rfl := Option.some.inj (hrun.symm.trans hsome)
  refine ⟨History.filledRun w run, History.run_fill w run, ?_, fun o ho => hout o ?_⟩
  · rw [Rehearsal.fill]
    exact (congrArg (Forest.isCancelled · run.token) (tokens_spawnAll run _ _)).trans htrip
  · rw [← (History.noticed_frame w run).2.2.2, ← ho]
    exact (Dispatch.outcome_fill _ _).symm

/-- A loop that ends after a trip has an outcome that says so. -/
theorem complete (hrun : w.run = some run) (h : w.Cancelled) : (w.complete run).Cancelled := by
  obtain ⟨run', hsome, htrip, hout⟩ := h
  obtain rfl := Option.some.inj (hrun.symm.trans hsome)
  refine ⟨_, rfl, htrip, fun o ho => ?_⟩
  dsimp only at ho
  rw [Dispatch.stepOrStay] at ho
  have hframe := (History.noticed_frame w run).2.2.2
  -- it can end, or it has to wait
  cases hs : (w.noticed run).step .close with
  | none =>
    rw [hs] at ho
    exact hout o (hframe ▸ ho)
  | some loop =>
    rw [hs] at ho
    obtain ⟨hopen, -, -, rfl⟩ := Dispatch.step_cases hs
    cases ho
    exact tripped_noticed htrip (hframe ▸ hopen)

/-- **The scheduler misses no trip.** -/
theorem settleEach (reports : List (Nat × Except String StageResult)) :
    ∀ {w : Rehearsal}, w.Cancelled → (w.settleEach reports).Cancelled := by
  -- induction on the reports; each is heard with the trip in mind
  induction reports with
  | nil =>
    intro w h
    obtain ⟨run, hrun, -⟩ := id h
    rw [Rehearsal.settleEach, hrun]
    exact h.complete hrun
  | cons report rest ih =>
    intro w h
    obtain ⟨run, hrun, htrip, hout⟩ := id h
    rw [Rehearsal.settleEach, hrun]
    dsimp only
    have hheard : (w.withLoop run ((w.noticed run).stepOrStay (.finish report.1 report.2))).Cancelled := by
      refine ⟨_, rfl, htrip, fun o ho => hout o ?_⟩
      rw [← (History.noticed_frame w run).2.2.2, ← ho]
      exact (Dispatch.outcome_stepOrStay (by simp)).symm
    exact ih (hheard.fill rfl)

/-- All reports of a moment are heard. -/
theorem settle (h : w.Cancelled) : w.settle.Cancelled := by
  obtain ⟨run, hrun, htrip, hout⟩ := h
  rw [Rehearsal.settle, hrun]
  exact settleEach _ ⟨_, rfl, htrip, hout⟩

end Cancelled

end Rehearsal

namespace History

variable {S : Setting} {w w' : Rehearsal} {log : List Act} {act : Option Act} {i : Nat} {e : Event}

/-- An event of a task changes no token's trip and nothing of the loop. -/
theorem cancelled_of_happen (h : w.Cancelled) (hfaithful : Faithful S log w) (he : S.happen? w e = some (act, w'))
    (haround : ∀ other, e ≠ .around other) (hact : act ≠ some .begins) (hloop : w'.loop? = w.loop?) :
    w'.Cancelled := by
  obtain ⟨run, hrun, htrip, hout⟩ := h
  obtain ⟨run', hrun', htoken⟩ := (moves_of_happen hfaithful.regular he).token hrun hact
  rw [Rehearsal.loop?, Rehearsal.loop?, hrun, hrun'] at hloop
  have hsame : run'.toDispatch = run.toDispatch := Option.some.inj hloop
  refine ⟨run', hrun', ?_, fun o ho => hout o (hsame ▸ ho)⟩
  rw [htoken]
  exact isCancelled_of_happen he (fun other heq => absurd heq (haround other)) htrip

/-- **A stage stops before it does anything only in a cancelled run.** -/
theorem Faithful.cancelled_of_stops (h : Faithful S log w) (hm : Moves S w (some (.stops i)) w') : w.Cancelled := by
  obtain ⟨run, hrun, htrip⟩ := h.tripped_of_stops hm
  refine ⟨run, hrun, htrip, fun o ho => ?_⟩
  obtain ⟨n, t, hn, -, ⟨phase, hp⟩ | ⟨ending, stores, hf⟩⟩ := hm.task_of_act rfl
  · cases hp
  · -- no task is left once there is an outcome
    exact absurd ((h.course run hrun).ended_of_outcome (by rw [ho]; rfl) t (List.mem_of_getElem? hn)) hf.live

end History

end Wheelwright
