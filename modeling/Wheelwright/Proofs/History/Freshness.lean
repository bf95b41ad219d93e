/-
  Freshness — what a skipped stage stands for.

  **Specification** — when a run reports a stage as skipped, its inputs came to the fingerprint of the launch
  that was its latest saved one when it loaded its record in this run; nothing that the stage waits for was
  launched in this run, or in the run of that launch after it.

  **The crux** — a stage acts after all that it waits for is done in the run (`Lawful.done_upstream`), and what
  is done does not act again.  Being skipped goes down along dependencies (`Lawful.skipped_upstream`): a
  predecessor that did its work would have made the stage stale.

  **Not more** — runs in between may have launched predecessors, or even the command of the stage itself,
  without a success; a record outlives that, so a change that is taken back finds it again (`reverted`).
-/
import Wheelwright.Proofs.History.Recorded

namespace Wheelwright.History

variable {S : Setting} {log pre post : List Act} {w w₀ : Rehearsal} {run : PipelineRun} {i j : Nat}
  {s : BackendStage} {c : StalenessCheck} {f : String} {a : Act}

/-! ## Upstream of an act

  When a stage acts, what it waits for is done in this run, and what is done writes nothing more.  So there is no
  launch upstream between the moment of the act and the end of the run. -/

/-- A stage that is skipped in a run is not launched in it. -/
theorem Lawful.not_launched_of_skips (h : Lawful S log) (hskip : .skips i f ∈ thisRun log) :
    .launches i ∉ thisRun log := by
  obtain ⟨pre, post, hlog, hthis, hpost⟩ := exists_of_mem_thisRun hskip
  intro hmem
  rw [hthis] at hmem
  rcases List.mem_append.mp hmem with hbefore | hafter
  -- before the skip: the diary would hold more than the load
  · cases h pre _ post hlog with
    | skips hready hloads =>
      have : .launches i ∈ diary i (thisRun pre) := mem_diary.mpr ⟨hbefore, rfl⟩
      rw [hloads] at this
      simp at this
  -- after it: the skip ended the stage, and nothing of a done stage is logged again in the run
  · have hdone : Done (thisRun (pre ++ [.skips i f])) i :=
      Or.inl ⟨f, by rw [thisRun_append _ (by simp)]; simp⟩
    have hlog' : log = (pre ++ [.skips i f]) ++ post := by
      rw [hlog, List.append_assoc, List.singleton_append]
    exact (hlog' ▸ h).stage_ne_of_done hpost hdone _ ((List.mem_cons.mp hafter).resolve_left (by simp)) rfl

section Upstream

variable (hp : S.pipeline.plan.WellFormed) (hall : S.AllOwn) (h : Lawful S log)
include hp hall h

omit h in
/-- A predecessor that succeeded is done, as far as the log tells. -/
theorem done_of_ready {acts : List Act} (hready : Ready S acts i) (hj : j ∈ S.preds i) : Done acts j := by
  obtain ⟨s, c, howns⟩ := hall.owns j (hall.length ▸ hp.lt i j hj)
  exact hready j hj s howns.body

/-- **Whatever a stage waits for is done when it acts.** -/
theorem Lawful.done_upstream (hdep : Relation.TransGen (Edge S.pipeline.plan.predecessors) j i)
    (hlog : log = pre ++ a :: post) (ha : a.stage? = some i) : Done (thisRun pre) j := by
  -- from the last dependency down: a predecessor that is done has acted before
  induction hdep generalizing pre a post with
  | single hj => exact done_of_ready hp hall ((h pre a post hlog).ready ha) hj
  | @tail m i hdep hm ih =>
    have hdone := done_of_ready hp hall ((h pre a post hlog).ready ha) hm
    obtain ⟨b, hb, hstage⟩ : ∃ b ∈ thisRun pre, b.stage? = some m := by
      rcases hdone with ⟨f, hf⟩ | ⟨saved, hsaved⟩
      · exact ⟨_, hf, rfl⟩
      · exact ⟨_, hsaved, rfl⟩
    obtain ⟨before, after, hbefore, -, hthis⟩ := exists_earlier hlog hb
    exact (ih hbefore hstage).mono (hthis ▸ List.subset_append_left ..)

/-- **Whatever a skipped stage waits for was skipped.** -/
theorem Lawful.skipped_upstream (hdep : Relation.TransGen (Edge S.pipeline.plan.predecessors) j i)
    (hlog : log = pre ++ .skips i f :: post) : ∃ f', .skips j f' ∈ thisRun pre := by
  induction hdep generalizing pre f post with
  | @single i hj =>
    -- a direct predecessor is done, and it did not rebuild, or this stage would not have skipped
    cases h pre _ post hlog with
    | skips hready hloads hidle hsaved =>
      exact (done_of_ready hp hall hready hj).resolve_right fun ⟨saved, hmem⟩ => hidle j hj saved hmem
  | @tail m i hdep hm ih =>
    cases h pre _ post hlog with
    | skips hready hloads hidle hsaved =>
      -- one further up: the stage in between skipped, so the hypothesis reads the log up to there
      obtain ⟨f', hf'⟩ := (done_of_ready hp hall hready hm).resolve_right
        fun ⟨saved, hmem⟩ => hidle m hm saved hmem
      obtain ⟨before, after, hbefore, -, hthis⟩ := exists_earlier hlog hf'
      obtain ⟨f'', hf''⟩ := ih hbefore
      exact ⟨f'', hthis ▸ List.mem_append_left _ hf''⟩

/-- Nothing that a stage waits for is launched after the stage in a run. -/
theorem Lawful.not_launched_before (hdep : Relation.TransGen (Edge S.pipeline.plan.predecessors) j i)
    (hlog : log = pre ++ .launches j :: post) : .launches i ∉ thisRun pre := by
  intro hmem
  obtain ⟨before, after, hbefore, -, hthis⟩ := exists_earlier hlog hmem
  have hdone := h.done_upstream hp hall hdep hbefore rfl
  exact (h pre _ post hlog).not_done rfl (hdone.mono (hthis ▸ List.subset_append_left ..))

/-- Nothing that a skipped stage waits for is launched in its run. -/
theorem Lawful.not_launched_beside (hdep : Relation.TransGen (Edge S.pipeline.plan.predecessors) j i)
    (hskip : .skips i f ∈ thisRun log) : .launches j ∉ thisRun log := by
  obtain ⟨pre, post, hlog, hthis, -⟩ := exists_of_mem_thisRun hskip
  obtain ⟨f', hf'⟩ := h.skipped_upstream hp hall hdep hlog
  exact h.not_launched_of_skips (f := f') (hthis ▸ List.mem_append_left _ hf')

end Upstream

/-! ## The main result

  A skip looks at the record that was loaded.  In between another run may have launched predecessors without success,
  and the examples show how far that goes. -/

/-- **A skipped stage stands for its latest saved launch.**  It found the fingerprint that was found before
    the launch which was the latest saved one when it loaded its record, in this run.  Nothing that it waits
    for was launched after that launch in the run of the launch, nor at all in the run that skips the stage. -/
theorem skipped_for_latest_launch {events : List Event} {r : StageResult}
    (hplan : plan S.pipeline.specs = .ok S.pipeline.plan) (hall : S.AllOwn) (hw₀ : S.Unused w₀)
    (hw : S.follow w₀ events = some (log, w)) (hrun : w.run = some run) (howns : S.Owns i s c)
    (hr : run.state.result? i = some r) (hskip : r.skipped = true) :
    ∃ early late f post, log = early ++ .loads i :: (late ++ .skips i f :: post) ∧ .begins ∉ late ++ post ∧
      .loads i ∉ late ∧ LatestSaved early i c f ∧
      ∀ j, DependsOn S.pipeline.specs i j → .launches j ∉ thisRun log ∧
        ∀ before after, log = before ++ .launches j :: after → .launches i ∉ thisRun before := by
  have hdesc := (describes_of_plan hplan).1
  have hp := hdesc.toWellFormed
  have h : Faithful S log w := List.nil_append log ▸ (Faithful.start hw₀).follow hp hw
  -- the result stems from a skip of this run, and the skip from the load before it
  obtain ⟨f, hf⟩ := (h.course run hrun).skips_of_skipped howns.body hr hskip
  obtain ⟨pre, post, hlog, -, hpost⟩ := exists_of_mem_thisRun hf
  have hloaded : Loaded pre i c f := by
    cases h.lawful pre _ post hlog with
    | skips hready hloads hidle hsaved => exact hsaved s c howns
  obtain ⟨early, late, rfl, hlate, hlast, hsaved⟩ := hloaded
  refine ⟨early, late, f, post, by rw [hlog, List.append_assoc, List.cons_append], ?_, hlast, hsaved,
    fun j hdep => ?_⟩
  · exact fun hmem => (List.mem_append.mp hmem).elim hlate hpost
  -- upstream, the laws of a run rule out a launch beside the skip and one before a launch below
  · have hedge : Relation.TransGen (Edge S.pipeline.plan.predecessors) j i := hdesc.edge_eq ▸ hdep
    exact ⟨h.lawful.not_launched_beside hp hall hedge hf,
      fun before after hafter => h.lawful.not_launched_before hp hall hedge hafter⟩

/-- Both stages are built.  The configuration is changed, and the first command of the next run is cancelled;
    the change is taken back, and both stages are skipped. -/
def reverted : List Event :=
  [.begin {} 0] ++ carriedOut 0 (.exited (some 0)) "A" ++ carriedOut 1 (.exited (some 0)) "A" ++
    [.close, .around (unbuilt "B"), .begin {} 0] ++ carriedOut 2 .cancelled "B" ++
    [.close, .around (unbuilt "A"), .begin {} 0] ++ passedOver 3 ++ passedOver 4 ++ [.close]

/-- What the stages write. -/
def revertedLog : List Act :=
  [.begins, .loads 0, .stale 0 (digestOf "A"), .launches 0, .succeeds 0 true, .loads 1,
    .stale 1 (digestOf "A"), .launches 1, .succeeds 1 true, .closes .succeeded, .begins, .loads 0,
    .stale 0 (digestOf "B"), .launches 0, .ends 0 .cancelled false, .closes .cancelled, .begins, .loads 0,
    .skips 0 (digestOf "A"), .loads 1, .skips 1 (digestOf "A"), .closes .succeeded]

/-- The sequence of events gives the log that is written out above. -/
theorem log_reverted : (chained.follow (unbuilt "A") reverted).map Prod.fst = some revertedLog := by
  decide +kernel

/-- Both results say that the stage was skipped. -/
theorem skipped_reverted : ∀ x ∈ chained.follow (unbuilt "A") reverted, ∃ run, x.2.run = some run ∧
    ∀ i < 2, ∃ r, run.state.result? i = some r ∧ r.skipped = true := by
  have hskipped : ∀ x ∈ chained.follow (unbuilt "A") reverted, ∀ i < 2,
      (x.2.run.bind fun run => (run.state.result? i).map StageResult.skipped) = some true := by decide +kernel
  intro x hx
  obtain ⟨run, hrun, -⟩ := Option.bind_eq_some_iff.mp (hskipped x hx 0 (by decide))
  refine ⟨run, hrun, fun i hi => ?_⟩
  have hi := hskipped x hx i hi
  rw [hrun] at hi
  exact Option.map_eq_some_iff.mp hi

/-- The chained build that goes back to its first sources skips its second stage for the latest launch, though a launch
    for other sources lies in between. -/
theorem skipped_for_latest_launch_reverted : ∃ log w, chained.follow (unbuilt "A") reverted = some (log, w) ∧
    ∃ early late f post, log = early ++ .loads 1 :: (late ++ .skips 1 f :: post) ∧ .begins ∉ late ++ post ∧
      LatestSaved early 1 (checkUnder "build") f ∧ .launches 0 ∉ thisRun log := by
  obtain ⟨⟨log, w⟩, hw, rfl⟩ := Option.map_eq_some_iff.mp log_reverted
  obtain ⟨run, hrun, hresults⟩ := skipped_reverted _ hw
  obtain ⟨r, hr, hskip⟩ := hresults 1 (by decide)
  have hdep : DependsOn chained.pipeline.specs 1 0 := .single ⟨_, _, rfl, rfl, by decide⟩
  obtain ⟨early, late, f, post, hlog, hbegins, -, hsaved, hupstream⟩ := skipped_for_latest_launch plan_chained
    allOwn_chained (unused_unbuilt "A") hw hrun (owns_chained (i := 1) rfl rfl) hr hskip
  exact ⟨_, w, hw, early, late, f, post, hlog, hbegins, hsaved, (hupstream 0 hdep).1⟩

/-- **A stage may be skipped although its latest command was cancelled**, and although the command of a
    predecessor was launched after its own. -/
theorem skipped_after_other_launches : plan chained.pipeline.specs = .ok chained.pipeline.plan ∧
    chained.AllOwn ∧ chained.Unused (unbuilt "A") ∧ DependsOn chained.pipeline.specs 1 0 ∧
    ∃ log w run, chained.follow (unbuilt "A") reverted = some (log, w) ∧ w.run = some run ∧
      (∀ i < 2, ∃ r, run.state.result? i = some r ∧ r.skipped = true) ∧
      (∃ pre post, log = pre ++ .launches 0 :: .ends 0 .cancelled false :: post ∧ .launches 0 ∉ post) ∧
      ∃ pre post, log = pre ++ .launches 1 :: post ∧ .launches 1 ∉ post ∧ .launches 0 ∈ post := by
  obtain ⟨⟨log, w⟩, hw, rfl⟩ := Option.map_eq_some_iff.mp log_reverted
  obtain ⟨run, hrun, hresults⟩ := skipped_reverted _ hw
  refine ⟨plan_chained, allOwn_chained, unused_unbuilt "A", .single ⟨_, _, rfl, rfl, by decide⟩, revertedLog, w,
    run, hw, hrun, hresults, ⟨revertedLog.take 13, revertedLog.drop 15, rfl, ?_⟩,
    revertedLog.take 7, revertedLog.drop 8, rfl, ?_, ?_⟩
  · simp [revertedLog]
  · simp [revertedLog]
  · simp [revertedLog]

end Wheelwright.History
