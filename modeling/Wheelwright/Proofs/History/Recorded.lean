/-
  Records — whose fingerprint stands in a store.

  **Specification** — at any time of any history the record of a stage is the fingerprint that it found
  before its latest launch whose command exited with status zero and whose record was written, as far as it
  was not forgotten since.  Nothing else changes a store.  A stage is skipped only if its inputs come to
  the fingerprint that it had loaded from there and no predecessor did its work in this run.

  **The crux** — the fingerprint is taken before the launch and written after the exit, and what happens to
  files in between does not touch it.  So inputs that changed in between do not agree with the record.

  **Not more** — the record is loaded when the stage is entered and compared when its inputs have been read.
  What is forgotten in between is overlooked; only then is a stage skipped of which there is no record.
-/
import Wheelwright.Proofs.History.Soundness

namespace Wheelwright.History

open FingerprintStore (storedIn)

variable {S : Setting} {log : List Act} {w w₀ w' : Rehearsal} {run : PipelineRun} {t : StageTask}
  {i n : Nat} {s : BackendStage} {c : StalenessCheck} {f : String} {act : Option Act}

/-! ## What events write

  Which moves change a store, and what has been found when they do.  For a skip the diary of the stage tells what it
  had loaded. -/

/-- Stores change only when a success is saved or records are forgotten. -/
theorem Moves.stores_eq (hm : Moves S w act w') (hsaves : ∀ j, act ≠ some (.succeeds j true))
    (hforgets : ∀ m start, act ≠ some (.forgets m start)) : w'.stores = w.stores := by
  cases hm with
  -- acts that are no stage's own leave the stores as the world frames them
  | idle hw | begins _ hw | hears _ _ _ hw | proceeds _ _ _ hw => exact hw.stores
  | loops hrun hstep he hw => exact hw.stores.trans (Rehearsal.spawnAll_frame ..).2
  | forgets => exact absurd rfl (hforgets _ _)
  | finishes hn hi hf hw =>
    rw [hw.stores, Rehearsal.stores_finishWith]
    -- of the endings only the one with a saved success writes
    cases hf with
    | other | stops | unreadable | skips | unlaunched => rfl
    | ends ht hs hstores =>
      cases hstores with
      | nothing => rfl
      | record => exact absurd rfl (hsaves _)

/-- An act of a stage is one of its task. -/
theorem Moves.task_of_act {a : Act} (hm : Moves S w (some a) w') (ha : a.stage? = some i) :
    ∃ (n : Nat) (t : StageTask), w.tasks[n]? = some t ∧ t.stage = some i ∧
      ((∃ phase, Proceeds w i t (some a) phase) ∨
        ∃ ending stores, Finishes w i t (some a) ending stores) := by
  generalize hact : some a = act at hm
  cases hm with
  | idle | hears => cases hact
  -- these acts name no stage, so they cannot be an act of one
  | begins | forgets =>
    cases hact
    cases ha
  | loops hrun hstep he hw =>
    obtain ⟨o, -, rfl⟩ := Option.map_eq_some_iff.mp hact.symm
    cases ha
  | @proceeds n j t act phase w' hn hj hp hw =>
    subst hact
    obtain rfl : i = j := Option.some.inj (ha.symm.trans (hp.stage a rfl))
    exact ⟨n, t, hn, hj, Or.inl ⟨phase, hp⟩⟩
  | @finishes n j t act ending stores w' hn hj hf hw =>
    subst hact
    obtain rfl : i = j := Option.some.inj (ha.symm.trans (hf.stage a rfl))
    exact ⟨n, t, hn, hj, Or.inr ⟨ending, stores, hf⟩⟩

namespace Faithful

variable (h : Faithful S log w) (howns : S.Owns i s c)
include h howns

/-- The stage of a live task is what the setting says. -/
theorem body_of_live (hn : w.tasks[n]? = some t) (hi : t.stage = some i) (ht : t.phase ≠ .ended) :
    t.body = .backend s := by
  obtain ⟨run, hrun, hcourse⟩ := h.run_of_live hn ht
  exact Option.some.inj ((hcourse.live_of_stage hn ht hi).body.symm.trans howns.body)

/-- What was found is what the inputs come to. -/
theorem fingerprint_of_stale (hm : Moves S w (some (.stale i f)) w') : c.inputs.fingerprint w.tree = .ok f := by
  obtain ⟨n, t, hn, hi, ⟨phase, hp⟩ | ⟨ending, stores, hf⟩⟩ := hm.task_of_act rfl
  · have hbody := h.body_of_live howns hn hi hp.live
    cases hp with
    | stale ht hs hc hf hwhy =>
      obtain ⟨rfl, rfl⟩ := howns.eq (howns.body.trans (congrArg some (hbody.symm.trans hs))) hc
      exact hf
  · cases hf

/-- A stage that loads its record has written nothing else in this run when it comes to compare. -/
theorem diary_of_looking {previous : Option String} (hn : w.tasks[n]? = some t) (hi : t.stage = some i)
    (ht : t.phase = .looking previous) : diary i (thisRun log) = [.loads i] := by
  have hlive : t.phase ≠ .ended := by simp [ht]
  obtain ⟨run, -, hcourse⟩ := h.run_of_live hn hlive
  exact ((hcourse.live_of_stage hn hlive hi).underway.acts_of_looking (h.body_of_live howns hn hi hlive) ht).1

/-- A stage is skipped for the fingerprint that it has loaded only. -/
theorem skips_spec (hm : Moves S w (some (.skips i f)) w') : c.inputs.fingerprint w.tree = .ok f ∧
    Loaded log i c f ∧ diary i (thisRun log) = [.loads i] ∧
      ∃ run, w.run = some run ∧ run.state.upstreamRebuilt i = false := by
  obtain ⟨n, t, hn, hi, ⟨phase, hp⟩ | ⟨ending, stores, hf⟩⟩ := hm.task_of_act rfl
  · cases hp
  · have hbody := h.body_of_live howns hn hi hf.live
    obtain ⟨run, hrun, hcourse⟩ := h.run_of_live hn hf.live
    have hlive := hcourse.live_of_stage hn hf.live hi
    obtain ⟨config, hsound⟩ := hcourse.loop
    -- of the endings only the skip logs a skip, and its guard holds what is to be shown
    cases hf with
    | skips ht hs hc hf hflag =>
      obtain ⟨rfl, rfl⟩ := howns.eq (howns.body.trans (congrArg some (hbody.symm.trans hs))) hc
      refine ⟨hf, (h.carries n t i _ _ _ hn hi howns ht f).mp rfl, h.diary_of_looking howns hn hi ht, run, hrun, ?_⟩
      rw [(hsound.started i _ hlive.started).2.2, hflag]

/-- A look at files finds the stage stale unless what it has loaded agrees. -/
theorem look_stale {previous : Option String} (hn : w.tasks[n]? = some t) (hi : t.stage = some i)
    (ht : t.phase = .looking previous) (hf : c.inputs.fingerprint w.tree = .ok f)
    (hnot : ¬ Loaded log i c f) : S.happen? w (.look n) = some (some (.stale i f), w.look n) := by
  have hbody := h.body_of_live howns hn hi (by simp [ht])
  -- what was loaded is not the fingerprint now, or it would have been loaded as such
  have hprevious : previous ≠ some f := fun heq =>
    hnot ((h.carries n t i s c previous hn hi howns ht f).mp heq)
  have hact : w.lookAct n = some (.stale i f) := by
    unfold Rehearsal.lookAct
    rw [hn, Option.bind_eq_bind, Option.bind_some, hi, Option.bind_eq_bind, Option.bind_some, ht, hbody]
    dsimp only
    rw [howns.check, Option.bind_eq_bind, Option.bind_some, check_eq howns.check, hf]
    dsimp only
    rw [if_neg fun hand => hprevious hand.1]
  rw [Setting.happen?, if_pos (Rehearsal.isLooking_iff.mpr ⟨t, previous, hn, ht⟩), hact]

end Faithful

/-- A skipped stage wrote that. -/
theorem Course.skips_of_skipped {tasks : List StageTask} {r : StageResult} (h : Course S log run tasks)
    (hs : S.bodies[i]? = some (.backend s)) (hr : run.state.result? i = some r) (hskip : r.skipped = true) :
    ∃ f, .skips i f ∈ thisRun log := by
  obtain ⟨config, hsound⟩ := h.loop
  have hstarted : run.HasStarted i := by
    rcases hsound.origin i r hr with hst | ⟨q, -, -, rfl⟩ | ⟨reason, -, rfl⟩
    · exact hst
    · cases hskip
    · cases hskip
  obtain ⟨f, hf⟩ := ((h.settled i r hstarted hr).came hs).skipped_iff.mp hskip
  exact ⟨f, mem_of_mem_diary hf⟩

/-! ## The main result

  The laws of a record at one moment, as a structure with a field for each of them.  Where a part speaks of
  a skip it speaks of the moment of the load, and adds what follows if nothing was forgotten since. -/

/-- Nothing was forgotten under the key since the stage loaded its record in this run. -/
def Unforgotten (log : List Act) (i : Nat) (c : StalenessCheck) : Prop :=
  ∀ early late, log = early ++ .loads i :: late → .begins ∉ late →
    ∀ start, .forgets c.store start ∈ late → ¬ start.toList <+: c.key.toList

/-- What is true of the record of a stage at a moment of a history. -/
structure RecordLaws (S : Setting) (log : List Act) (w : Rehearsal) (i : Nat) (c : StalenessCheck) : Prop where
  /-- There is a record exactly if there was a saved launch that was not forgotten since, and what it holds is
      the fingerprint from before the latest one. -/
  stored : ∀ f, storedIn w.stores c.store c.key = some f ↔ LatestSaved log i c f
  /-- Nothing but a saved success and a forgetting changes a store. -/
  changes : ∀ e act w', S.happen? w e = some (act, w') → (∀ j, act ≠ some (.succeeds j true)) →
    (∀ m start, act ≠ some (.forgets m start)) → w'.stores = w.stores
  /-- What is found before a launch are the inputs as they are when the stage looks. -/
  found : ∀ e f w', S.happen? w e = some (some (.stale i f), w') → c.inputs.fingerprint w.tree = .ok f
  /-- What the stage is going to compare with is what was recorded when it loaded its record in this run. -/
  loaded : ∀ (n : Nat) (t : StageTask) (previous : Option String), w.tasks[n]? = some t → t.stage = some i →
    t.phase = .looking previous → ∀ f, previous = some f ↔ Loaded log i c f
  /-- It is skipped only if its inputs come to that and no predecessor did its work in this run; and unless the
      record was forgotten after it was loaded, that is the record. -/
  skips : ∀ e f w', S.happen? w e = some (some (.skips i f), w') → c.inputs.fingerprint w.tree = .ok f ∧
    Loaded log i c f ∧ (Unforgotten log i c → LatestSaved log i c f) ∧
      ∃ run, w.run = some run ∧ run.state.upstreamRebuilt i = false
  /-- Whoever is reported as skipped was skipped in this run. -/
  skipped : ∀ run r, w.run = some run → run.state.result? i = some r → r.skipped = true →
    ∃ f, .skips i f ∈ thisRun log
  /-- When its inputs come to anything else, it is stale. -/
  stale : ∀ (n : Nat) (t : StageTask) (previous : Option String) (f : String), w.tasks[n]? = some t →
    t.stage = some i → t.phase = .looking previous → c.inputs.fingerprint w.tree = .ok f →
      ¬ Loaded log i c f → ∃ w', S.happen? w (.look n) = some (some (.stale i f), w')

/-- The configuration is changed while the first command runs, and the second one fails; in the next run
    the first stage is about to look. -/
def edited : List Event :=
  [.begin {} 0] ++ carriedOut 0 (.exited (some 0)) "B" ++ carriedOut 1 (.exited (some 1)) "B" ++
    [.close, .begin {} 0, .take, .advance 2]

/-- What the stages write. -/
def editedLog : List Act :=
  [.begins, .loads 0, .stale 0 (digestOf "A"), .launches 0, .succeeds 0 true, .loads 1,
    .stale 1 (digestOf "B"), .launches 1, .ends 1 (.exited (some 1)) false, .closes .failed, .begins, .loads 0]

/-- The record of the first stage is forgotten between its load and its look: it is skipped all the same. -/
example : (chained.follow (unbuilt "A") ([.begin {} 0] ++ carriedOut 0 (.exited (some 0)) "A" ++
      carriedOut 1 (.exited (some 1)) "A" ++
      [.close, .begin {} 0, .take, .advance 2, .forget 0 "prepare", .look 2])).map (Prod.fst ·|>.drop 11) =
    some [.loads 0, .forgets 0 "prepare", .skips 0 (digestOf "A")] := by decide +kernel

end Wheelwright.History
