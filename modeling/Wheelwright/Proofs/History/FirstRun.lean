/-
  First runs — what a run does with a stage of which there is no record.

  **Specification** — a run begins when no stage is at work, with stores that hold nothing under a stage's key.  The
  stage is not skipped in it, and runs its command unless there is an excuse (`Excuses`); and if it comes to its result
  without having run its command, there is still nothing under its key when it is done.

  **The crux** — a run may be the first of a setting of its own, whose stores are those that it found, so that all
  that is known of logs is known of its log.  That log begins once, and a skip needs a saved launch before it in the
  same log; in one run a stage does not get to do both.
-/
import Wheelwright.Proofs.Dispatch.Causes
import Wheelwright.Proofs.History.Cancelled
import Wheelwright.Proofs.History.Rehearsed

namespace Wheelwright

namespace Rehearsal

variable {w w' : Rehearsal}

/-- Who waits for a look goes on waiting until it comes. -/
theorem Waits.step (h : w.Waits) {limit : Option Nat} (hs : w.step limit = some w') : w'.Waits := by
  unfold Rehearsal.step at hs
  -- a job is done, a task looks, or time passes
  split at hs
  · cases hs
    have hrest : ∀ jobs, ({ w with jobs } : Rehearsal).Waits := fun jobs => h.untouched (.of_eq rfl rfl)
    exact (hrest _).perform _
  · rename_i hlooks
    cases hs
    exact h.look hlooks
  · exact (Quiet.tick hs).waits h

end Rehearsal

/-- What excuses a stage from running its command: the run was cancelled, one of those that it waits for has not
    succeeded, its inputs could not be read, or the command could not be started. -/
def PipelineOutcome.Excuses (o : PipelineOutcome) (awaited : List String) (r : StageResult) : Prop :=
  o.cancelReason.isSome = true ∨ (∃ q ∈ awaited, ∃ s, o.result? q = some s ∧ s.isSuccess = false) ∨
    ∃ f, r.failure = some f ∧ (f.kind = .configUnreadable ∨ f.kind = .launchFailed)

/-- What excuses a result with few predecessors excuses it with more. -/
theorem PipelineOutcome.Excuses.mono {o : PipelineOutcome} {awaited others : List String} {r : StageResult}
    (h : o.Excuses awaited r) (hsub : ∀ q ∈ awaited, q ∈ others) : o.Excuses others r :=
  h.imp_right (·.imp_left fun ⟨q, hq, hfailed⟩ => ⟨q, hsub q hq, hfailed⟩)

namespace History

open FingerprintStore (storedIn)

variable {S : Setting} {w w' : Rehearsal} {run : PipelineRun} {i n : Nat} {s : BackendStage} {c : StalenessCheck}
  {r : StageResult} {o : PipelineOutcome} {e : Event} {act : Option Act}

/-- Acts of tasks are acts of their stages. -/
theorem not_begins_of_task : w.advanceAct n ≠ some .begins ∧ w.lookAct n ≠ some .begins ∧
    w.reportAct n ≠ some .begins := by
  -- an attempt to launch is a launch or not
  have hlaunch (i : Nat) (s : BackendStage) : w.launchAct i s ≠ .begins := by
    rw [Rehearsal.launchAct]
    split <;> simp
  -- no act of a task begins a run
  refine ⟨fun h => ?_, fun h => ?_, fun h => ?_⟩
  · obtain ⟨t, -, h⟩ := Option.bind_eq_some_iff.mp h
    obtain ⟨i, -, h⟩ := Option.bind_eq_some_iff.mp h
    split at h
    · split at h
      · cases h
      · split at h
        · cases h
        · exact hlaunch i _ (Option.some.inj h)
    · exact hlaunch i _ (Option.some.inj h)
    · cases h
  · obtain ⟨t, -, h⟩ := Option.bind_eq_some_iff.mp h
    obtain ⟨i, -, h⟩ := Option.bind_eq_some_iff.mp h
    split at h
    · obtain ⟨c, -, h⟩ := Option.bind_eq_some_iff.mp h
      split at h <;> cases h
    · cases h
  · obtain ⟨p, -, h⟩ := Option.bind_eq_some_iff.mp h
    obtain ⟨d, -, h⟩ := Option.bind_eq_some_iff.mp h
    obtain ⟨t, -, h⟩ := Option.bind_eq_some_iff.mp h
    obtain ⟨i, -, h⟩ := Option.bind_eq_some_iff.mp h
    split at h <;> cases h

/-- Every stage is a command of its name. -/
structure Named (S : Setting) : Prop where
  /-- No two stages have one name. -/
  nodup : S.pipeline.plan.names.Nodup
  /-- All stages run commands, and each result bears the name of its stage. -/
  body : ∀ i < S.pipeline.plan.names.length, ∃ s, S.bodies[i]? = some (.backend s) ∧ s.name = S.pipeline.plan.nameOf i

/-- The rehearsal is in the first run of the setting, and a stage has stopped only if that was cancelled. -/
structure InFirstRun (S : Setting) (w : Rehearsal) : Prop where
  /-- The acts of the run, its first one aside; and if a stage was stopped, the run was cancelled. -/
  log : ∃ log, .begins ∉ log ∧ Faithful S (.begins :: log) w ∧ ((∃ i, .stops i ∈ log) → w.Cancelled)
  /-- No ready stage waits for a free worker. -/
  filled : Filled w
  /-- Whoever waits for a look is looking, and waits once. -/
  waits : w.Waits

namespace InFirstRun

/-- The scheduler's events. -/
theorem loopsOn (h : InFirstRun S w) (hp : S.pipeline.plan.WellFormed) (hpath : LoopsOn S w w')
    (hkeeps : w.Cancelled → w'.Cancelled) (hfilled : Filled w') (hwaits : w'.Waits) : InFirstRun S w' := by
  -- what a loop does without tasks are ends of runs
  obtain ⟨log, hlog, hfaithful, hstops⟩ := h.log
  obtain ⟨events, more, hfollow, hmore⟩ := hpath
  refine ⟨⟨log ++ more, fun hmem => ?_, hfaithful.follow hp hfollow, fun ⟨i, hmem⟩ => hkeeps (hstops ⟨i, ?_⟩)⟩,
    hfilled, hwaits⟩
  · obtain ⟨status, heq⟩ := hmore _ ((List.mem_append.mp hmem).resolve_left hlog)
    cases heq
  · refine (List.mem_append.mp hmem).resolve_right fun hmem => ?_
    obtain ⟨status, heq⟩ := hmore _ hmem
    cases heq

/-- An event of a task. -/
theorem happens (h : InFirstRun S w) (hp : S.pipeline.plan.WellFormed) (he : S.happen? w e = some (act, w'))
    (haround : ∀ other, e ≠ .around other) (hact : act ≠ some .begins) (hloop : w'.loop? = w.loop?)
    (hwaits : w'.Waits) : InFirstRun S w' := by
  obtain ⟨log, hlog, hfaithful, hstops⟩ := h.log
  have hmoves := moves_of_happen hfaithful.regular he
  have hkeeps (hw : w.Cancelled) : w'.Cancelled := cancelled_of_happen hw hfaithful he haround hact hloop
  -- an act of a task does not begin a run, and a stage that stops has seen a tripped token
  refine ⟨⟨log ++ act.toList, fun hmem => ?_, hfaithful.moves hp hmoves, fun ⟨i, hmem⟩ => hkeeps ?_⟩,
    h.filled.of_loop? hloop, hwaits⟩
  · exact hact (Option.mem_toList.mp ((List.mem_append.mp hmem).resolve_left hlog))
  · rcases List.mem_append.mp hmem with hmem | hmem
    · exact hstops ⟨i, hmem⟩
    · obtain rfl : act = some (.stops i) := Option.mem_toList.mp hmem
      exact hfaithful.cancelled_of_stops hmoves

/-- Tokens, files and the clock may change, but no trip is taken back. -/
theorem quiet (h : InFirstRun S w) (hp : S.pipeline.plan.WellFormed) (hw : w.Quiet w')
    (htokens : ∀ id, w.tokens.isCancelled id = true → w'.tokens.isCancelled id = true) : InFirstRun S w' :=
  h.loopsOn hp (.of_alike hw.toAlike) (·.keeps hw.run htokens) (h.filled.of_loop? (congrArg (Option.map _) hw.run))
    (hw.waits h.waits)

/-- **One step of the machine.** -/
theorem step (h : InFirstRun S w) (hp : S.pipeline.plan.WellFormed) {limit : Option Nat}
    (hs : w.step limit = some w') : InFirstRun S w' := by
  have hwaits := h.waits.step hs
  unfold Rehearsal.step at hs
  -- by the job at the head, or the task that looks first, or the time that passes
  split at hs
  · rename_i j rest _
    cases hs
    have hrest : InFirstRun S { w with jobs := rest } := h.quiet hp ⟨⟨rfl, rfl, rfl⟩, rfl⟩ fun _ hid => hid
    have htokens {v : Rehearsal} (hv : v.tokens = w.tokens) (id : TokenId) (hid : w.tokens.isCancelled id = true) :
        v.tokens.isCancelled id = true := hv ▸ hid
    cases j with
    | advance n =>
      exact hrest.happens hp (e := .advance n) rfl (by simp) not_begins_of_task.1 (Rehearsal.loop?_advance _ n) hwaits
    | report n =>
      exact hrest.happens hp (e := .report n) rfl (by simp) not_begins_of_task.2.2 (Rehearsal.loop?_report _ n) hwaits
    | play n => exact hrest.quiet hp (.play _ n) (htokens (Rehearsal.tokens_play _ n))
    | expire n => exact hrest.quiet hp (.expire _ n) (htokens (Rehearsal.tokens_expire _ n))
    | interrupt n => exact hrest.quiet hp (.interrupt _ n) (htokens (Rehearsal.tokens_interrupt _ n))
    | settle =>
      obtain ⟨log, -, hfaithful, -⟩ := hrest.log
      obtain ⟨hpath, hfilled⟩ := loopsOn_settle hp hfaithful hrest.filled
      exact hrest.loopsOn hp hpath (·.settle) hfilled hwaits
  · rename_i n rest _ hlooks
    cases hs
    have hlook := h.waits.looking n (hlooks ▸ List.mem_cons_self)
    have hrest : InFirstRun S { w with looks := rest } := by
      refine h.loopsOn hp (.of_alike ⟨rfl, rfl, rfl⟩) (·.keeps rfl fun _ hid => hid) (h.filled.of_loop? rfl) ⟨?_, ?_⟩
      · exact (hlooks ▸ h.waits.nodup).of_cons
      · exact fun m hm => h.waits.looking m (hlooks ▸ List.mem_cons_of_mem n hm)
    exact hrest.happens hp (e := .look n) (if_pos hlook) (by simp) not_begins_of_task.2.1 (Rehearsal.loop?_look _ n)
      hwaits
  · exact h.quiet hp (.tick hs) fun _ => Rehearsal.isCancelled_tick hs

/-- A run begins while no stage is at work. -/
theorem begins (hp : S.pipeline.plan.WellFormed) (hended : ∀ t ∈ w.tasks, t.phase = .ended)
    (hstores : w.stores = S.stores) (hwaits : w.Waits) (config : PipelineConfig) (current : Option TokenId)
    (token : TokenId) : InFirstRun S (startRun S w config current token) := by
  -- before the run every store holds what the setting says, and nothing was saved
  have hkept : Kept S [] w.stores := by
    intro i s c howns f
    rw [hstores, howns.unused]
    exact iff_of_false (by simp) not_latestSaved_nil
  -- the setting without a run, then with the run, then the first stages are taken
  have hnone : Faithful S [] { w with run := none } :=
    ⟨lawful_nil S, fun run hrun => (nomatch hrun), fun _ => hended, congrArg List.length hstores, hkept,
      .of_ended hended⟩
  have hbegun : Faithful S [.begins] { w with run := some (S.newRun config token) } :=
    hnone.begins hp (fun run hrun => (nomatch hrun)) config token
  obtain ⟨⟨events, more, hfollow, hmore⟩, hfilled⟩ := loopsOn_startRun hp config current token hbegun
  refine ⟨⟨more, fun hmem => ?_, hbegun.follow hp hfollow, fun ⟨i, hmem⟩ => ?_⟩, hfilled, hwaits.untouched ?_⟩
  · obtain ⟨status, heq⟩ := hmore _ hmem
    cases heq
  · obtain ⟨status, heq⟩ := hmore _ hmem
    cases heq
  refine Rehearsal.Spares.trans ?_ ((Rehearsal.Spares.fill _ _).trans (.settle _))
  exact .of_eq rfl rfl

end InFirstRun

/-! ## What a stage came to

  A run that begins with no record under a stage's key.  A skip would need a launch that was saved before it in this
  same run, and a stage is not both launched and skipped in one run. -/

/-- All of a log that begins once is of this run. -/
theorem thisRun_begins_cons {log : List Act} (h : .begins ∉ log) : thisRun (.begins :: log) = log := by
  rw [← List.singleton_append, thisRun_append_of_notMem h]
  rfl

/-- What was not recorded before the run and is not in its log is not stored. -/
theorem Faithful.not_stored {log : List Act} (h : Faithful S (.begins :: log) w) (howns : S.Owns i s c)
    (hnone : .succeeds i true ∉ log) : storedIn w.stores c.store c.key = none := by
  refine Option.eq_none_iff_forall_ne_some.mpr fun f hf => hnone ?_
  obtain ⟨pre, post, hlog, -⟩ := (h.kept i s c howns f).mp hf
  have hmem : .succeeds i true ∈ Act.begins :: log := hlog ▸ List.mem_append_right pre List.mem_cons_self
  simpa using hmem

/-- **What has no record is not skipped** in a run. -/
theorem Faithful.not_skipped {log : List Act} (h : Faithful S (.begins :: log) w) (hlog : .begins ∉ log)
    (howns : S.Owns i s c) (f : String) : .skips i f ∉ log := by
  -- a skip needs a record that was saved, and none was saved before it
  intro hmem
  obtain ⟨pre, post, rfl⟩ := List.append_of_mem hmem
  have hpre : .begins ∉ pre := fun hbegins => hlog (List.mem_append_left _ hbegins)
  have hlaw := h.lawful (.begins :: pre) (.skips i f) post rfl
  -- by the law of skips, the record is that of a launch in this run, so of this stage
  cases hlaw with
  | skips hready hloads hidle hsaved =>
    rw [thisRun_begins_cons hpre] at hloads
    obtain ⟨early, late, hsplit, before, after, hearly, -⟩ := (hsaved s c howns).exists_latestSaved
    have hsaved : .succeeds i true ∈ Act.begins :: pre := by
      rw [hsplit, hearly]
      simp
    -- but a stage that loads is at the beginning of its diary
    have hdiary : .succeeds i true ∈ diary i pre := mem_diary.mpr ⟨by simpa using hsaved, rfl⟩
    rw [hloads] at hdiary
    simp at hdiary

/-- Why a stage that runs a command has not run it: it stopped before, its inputs could not be read, or the command
    could not be started. -/
def Unrun (i : Nat) (acts : List Act) (r : StageResult) : Prop :=
  .stops i ∈ acts ∨ ∃ f, r.failure = some f ∧ (f.kind = .configUnreadable ∨ f.kind = .launchFailed)

/-- What a stage came to that was not skipped, by what it wrote. -/
theorem Came.runs {acts : List Act} (h : Came i (.backend s) acts r) (hskips : ∀ f, .skips i f ∉ acts) :
    r.skipped = false ∧ (r.exit.isSome = true ∨ Unrun i acts r) ∧ (.succeeds i true ∈ acts → r.exit.isSome = true) := by
  -- it was not skipped, since that would stand in its diary
  have hskipped : r.skipped = false := by
    rw [Bool.eq_false_iff]
    exact fun hr => (h.skipped_iff.mp hr).elim hskips
  refine ⟨hskipped, ?_⟩
  -- by what came of the stage
  cases h with
  | other hbody => exact absurd rfl (hbody s)
  | stopped => exact ⟨Or.inr (Or.inl (List.mem_singleton_self _)), by simp⟩
  | unreadable => exact ⟨Or.inr (Or.inr ⟨_, rfl, Or.inl rfl⟩), by simp⟩
  | skipped s f => exact absurd (List.mem_cons_of_mem _ (List.mem_singleton_self _)) (hskips f)
  | unlaunched s fingerprint =>
    refine ⟨Or.inr (Or.inr ⟨_, rfl, Or.inr rfl⟩), ?_⟩
    cases fingerprint <;> simp [found]
  | ended => exact ⟨Or.inl rfl, fun _ => rfl⟩

/-- A command's result has the name of its stage. -/
theorem Came.stage_eq {acts : List Act} (h : Came i (.backend s) acts r) : r.stage = s.name := by
  cases h with
  | other hbody => exact absurd rfl (hbody s)
  -- a result has the name of the stage, whatever it is
  | stopped | unreadable | skipped | unlaunched => rfl
  | ended s fingerprint outcome saved said message =>
    have hnamed (f : StageFailure) (hf : s.failure? outcome said message = some f) : f.stage = s.name := by
      unfold BackendStage.failure? at hf
      split at hf
      · split at hf <;> cases hf
        rfl
      · cases hf
        rfl
      · cases hf
        rfl
    unfold BackendStage.conclude
    cases hf : s.failure? outcome said message with
    | none => rfl
    | some f => exact hnamed f hf

namespace InFirstRun

/-- A result has the name of its stage. -/
theorem stage_of_result (h : InFirstRun S w) (hnamed : Named S) (hrun : w.run = some run)
    (hi : i < S.pipeline.plan.names.length) (hr : run.state.result? i = some r) :
    r.stage = S.pipeline.plan.nameOf i := by
  obtain ⟨s, hbody, hname⟩ := hnamed.body i hi
  obtain ⟨log, -, hfaithful, -⟩ := h.log
  have hcourse := hfaithful.course run hrun
  obtain ⟨config, hsound⟩ := hcourse.loop
  rcases hsound.origin i r hr with hstarted | ⟨q, -, -, rfl⟩ | ⟨reason, -, rfl⟩
  · exact ((hcourse.settled i r hstarted hr).came hbody).stage_eq.trans hname
  · rw [← hsound.plan]; rfl
  · rw [← hsound.plan]; rfl

/-- The outcome holds under a stage's name what the stage came to. -/
theorem result?_of_outcome (h : InFirstRun S w) (hnamed : Named S) {o : PipelineOutcome} (ho : w.outcome? = some o)
    (hi : i < S.pipeline.plan.names.length) : ∃ run r, w.run = some run ∧ run.state.result? i = some r ∧
      o.result? (S.pipeline.plan.nameOf i) = some r := by
  obtain ⟨run, hrun, hout⟩ := Option.bind_eq_some_iff.mp ho
  obtain ⟨log, -, hfaithful, -⟩ := h.log
  have hcourse := hfaithful.course run hrun
  obtain ⟨r, hr⟩ := Option.isSome_iff_exists.mp (hcourse.result_of_outcome (by rw [hout]; rfl) hi)
  -- the outcome lists them in the order of the plan
  obtain ⟨config, hsound⟩ := hcourse.loop
  obtain ⟨-, rfl⟩ := hsound.ended o hout
  have hlt (j : Nat) (hj : j ∈ run.state.plan.order) : j < S.pipeline.plan.names.length := by
    have := hsound.coherent.plan.mem_order.mp hj
    rwa [hsound.plan] at this
  have hmem : r ∈ run.state.orderedResults := List.mem_filterMap.mpr
    ⟨i, hsound.coherent.plan.mem_order.mpr (by rw [hsound.plan]; exact hi), hr⟩
  refine ⟨run, r, hrun, hr, ?_⟩
  -- no other stage has its name
  have hfound :
      (PipelineOutcome.ofExecution run.name run.state run.tripped).result? (S.pipeline.plan.nameOf i) ≠ none :=
    fun hnone => absurd (h.stage_of_result hnamed hrun hi hr) (by simpa using List.find?_eq_none.mp hnone r hmem)
  obtain ⟨found, hsome⟩ := Option.ne_none_iff_exists'.mp hfound
  obtain ⟨j, hj, hrj⟩ := List.mem_filterMap.mp (List.mem_of_find?_eq_some hsome)
  have hname : found.stage = S.pipeline.plan.nameOf i := by simpa using List.find?_some hsome
  rw [h.stage_of_result hnamed hrun (hlt j hj) hrj] at hname
  obtain rfl := Plan.nameOf_inj hnamed.nodup (hlt j hj) hi hname
  rw [hsome, ← hrj, hr]

/-- **What comes of a stage of which there was no record**: it is not skipped, its command has run unless there is an
    excuse, and there is a record after that only if its command has run. -/
theorem result_of_owns (h : InFirstRun S w) (hnamed : Named S) (ho : w.outcome? = some o)
    (hi : i < S.pipeline.plan.names.length) (howns : S.Owns i s c) :
    ∃ r, o.result? (S.pipeline.plan.nameOf i) = some r ∧ r.skipped = false ∧
      (r.exit.isSome = true ∨ o.Excuses ((predsOf S.pipeline.plan.predecessors i).map S.pipeline.plan.nameOf) r) ∧
      (r.exit = none → storedIn w.stores c.store c.key = none) := by
  obtain ⟨run, r, hrun, hr, hfound⟩ := h.result?_of_outcome hnamed ho hi
  refine ⟨r, hfound, ?_⟩
  obtain ⟨log, hlog, hfaithful, hstops⟩ := h.log
  have hcourse := hfaithful.course run hrun
  have hout : run.outcome = some o := by rwa [Rehearsal.outcome?, hrun] at ho
  -- a started stage: its diary tells what came of it
  by_cases hstarted : run.HasStarted i
  · have hcame := (hcourse.settled i r hstarted hr).came howns.body
    rw [thisRun_begins_cons hlog] at hcame
    obtain ⟨hskipped, hruns, hexit⟩ :=
      hcame.runs fun f hf => hfaithful.not_skipped hlog howns f (mem_of_mem_diary hf)
    refine ⟨hskipped, hruns.imp_right ?_, fun hnone => hfaithful.not_stored howns fun hsaved => ?_⟩
    -- it was stopped: then the run was cancelled; or its failure says why nothing was run
    · rintro (hstop | hfailed)
      · obtain ⟨run', hrun', -, hreason⟩ := hstops ⟨i, mem_of_mem_diary hstop⟩
        obtain rfl := Option.some.inj (hrun.symm.trans hrun')
        exact Or.inl (hreason o hout)
      · exact Or.inr (Or.inr hfailed)
    -- a saved record needs a command that has ended
    · have hsome := hexit (mem_diary.mpr ⟨hsaved, rfl⟩)
      rw [hnone] at hsome
      cases hsome
  -- a stage that was not started: nothing was recorded for it
  · have hidle := hcourse.unstarted i hstarted
    rw [thisRun_begins_cons hlog] at hidle
    have hstored : storedIn w.stores c.store c.key = none := hfaithful.not_stored howns fun hsaved =>
      List.not_mem_nil (hidle ▸ mem_diary.mpr ⟨hsaved, rfl⟩)
    obtain ⟨config, hsound⟩ := hcourse.loop
    -- it was blocked by a failed predecessor, or the run was stopped
    rcases hsound.origin i r hr with hst | ⟨q, hq, hfailed, rfl⟩ | ⟨reason, htrip, rfl⟩
    · exact absurd hst hstarted
    · obtain ⟨s, hs, hsuccess⟩ := hfailed
      have hlt : q < S.pipeline.plan.names.length := by
        have hlt := hsound.coherent.lt_of_result? (i := q) (by rw [hs]; rfl)
        rwa [hsound.plan] at hlt
      obtain ⟨run', s', hrun', hs', hfailed⟩ := h.result?_of_outcome hnamed ho hlt
      obtain rfl := Option.some.inj (hrun.symm.trans hrun')
      obtain rfl := Option.some.inj (hs.symm.trans hs')
      rw [hsound.plan] at hq
      exact ⟨rfl, Or.inr (Or.inr (Or.inl ⟨_, List.mem_map_of_mem hq, s, hfailed, hsuccess⟩)), fun _ => hstored⟩
    · refine ⟨rfl, Or.inr (Or.inl ?_), fun _ => hstored⟩
      rw [(hsound.ended o hout).2]
      exact Option.isSome_iff_exists.mpr ⟨reason, htrip⟩

end InFirstRun

end History

end Wheelwright
