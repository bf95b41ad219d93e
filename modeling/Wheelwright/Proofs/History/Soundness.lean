/-
  Soundness — logs tell what happened, and the stores hold what logs tell.

  **Specification** — `Faithful S log w`: every act of the log is lawful after those before it, the log goes
  together with the run and its tasks (`Course`), under the key of a stage with a record of its own
  stands the fingerprint of its latest saved launch, if there was one since it was forgotten (`Kept`), and
  a stage that compares its inputs does so with what stood there when it loaded its record (`Carries`).

  **Program** — `Setting.follow`: events of all kinds, in any order, over any number of runs.

  **The crux** — an event is one of seven moves.  Each of them writes one act at most, and what makes that
  act lawful is what the task or the loop had found before.
-/
import Wheelwright.Proofs.History.Course

namespace Wheelwright

/-- The first event, and those after it. -/
theorem Setting.follow_cons {S : Setting} {w w' : Rehearsal} {e : History.Event}
    {rest : List History.Event} {log : List History.Act} (h : S.follow w (e :: rest) = some (log, w')) :
    ∃ act next tail, S.happen? w e = some (act, next) ∧ S.follow next rest = some (tail, w') ∧
      log = act.toList ++ tail := by
  obtain ⟨⟨act, next⟩, hnext, h⟩ := Option.bind_eq_some_iff.mp h
  obtain ⟨⟨tail, last⟩, hrest, h⟩ := Option.bind_eq_some_iff.mp h
  cases h
  exact ⟨act, next, tail, hnext, hrest, rfl⟩

namespace History

open FingerprintStore (storedIn)

variable {S : Setting} {log : List Act} {w w' : Rehearsal} {run : PipelineRun} {t : StageTask} {i n : Nat}
  {act : Option Act} {acts : List Act}

/-! ## What a task writes

  What the diary of a stage says at each phase of its task, and what each move of the task adds to it. -/

namespace Underway

/-- A stage that has not gone on has written nothing. -/
theorem acts_of_starting {body : StageBody} (h : Underway i body .starting acts) : acts = [] := by
  cases h
  rfl

/-- Only commands write. -/
theorem acts_of_other {body : StageBody} {phase : StagePhase} (h : Underway i body phase acts)
    (hbody : ∀ s, body ≠ .backend s) : acts = [] := by
  cases h with
  | starting | waiting | sweeping => rfl
  | @looking s | @launching s | @playing s => exact absurd rfl (hbody s)

/-- A command looks at files only to check them, and has loaded its record. -/
theorem acts_of_looking {s : BackendStage} {previous : Option String} (h : Underway i t.body t.phase acts)
    (hs : t.body = .backend s) (ht : t.phase = .looking previous) :
    acts = [.loads i] ∧ s.staleness.isSome = true := by
  rw [hs, ht] at h
  cases h with
  | sweeping hbody => exact absurd rfl (hbody s)
  | looking hchecks => exact ⟨rfl, hchecks⟩

/-- What was written before a launch is what was found. -/
theorem acts_of_aboutToLaunch {s : BackendStage} {fingerprint : Option String}
    (h : Underway i t.body t.phase acts) (hs : t.body = .backend s) (ht : AboutToLaunch t s fingerprint) :
    acts = found i fingerprint ∧ fingerprint.isSome = s.staleness.isSome := by
  rw [hs] at h
  rcases ht with hphase | ⟨hphase, hnone, rfl⟩
  · rw [hphase] at h
    cases h with
    | launching hf => exact ⟨rfl, hf⟩
  · rw [hphase] at h
    exact ⟨h.acts_of_starting, (congrArg Option.isSome hnone).symm⟩

/-- What stands in the diary of a stage whose command runs. -/
theorem acts_of_playing {s : BackendStage} {fingerprint : Option String}
    (h : Underway i t.body t.phase acts) (hs : t.body = .backend s) (ht : t.phase = .playing fingerprint) :
    acts = found i fingerprint ++ [.launches i] ∧ fingerprint.isSome = s.staleness.isSome := by
  rw [hs, ht] at h
  cases h with
  | playing hf => exact ⟨rfl, hf⟩

end Underway

namespace Proceeds

variable {phase : StagePhase} (hp : Proceeds w i t act phase)
include hp

/-- Only a task that has not ended goes on. -/
theorem live : t.phase ≠ .ended := by
  cases hp with
  | looks ht | loads ht | waits ht | stale ht => simp [ht]
  | launches hs ht => rcases ht with ht | ⟨ht, -⟩ <;> simp [ht]

/-- The act of a task is that of its stage. -/
theorem stage (a : Act) (ha : act = some a) : a.stage? = some i := by
  cases hp <;> cases ha <;> rfl

/-- After a move the diary is that of the new phase. -/
theorem underway (h : Underway i t.body t.phase acts) : Underway i t.body phase (acts ++ act.toList) := by
  -- each move starts in a phase whose diary is known
  cases hp with
  | looks ht hs previous =>
    rw [ht] at h
    rw [h.acts_of_starting]
    exact .sweeping hs previous
  | loads ht hs hc =>
    rw [ht] at h
    rw [h.acts_of_starting, hs]
    exact .looking (by rw [hc]; rfl) _
  | waits ht =>
    rw [ht] at h
    rw [h.acts_of_starting]
    exact .waiting _
  | stale ht hs hc hf hwhy =>
    obtain ⟨rfl, -⟩ := h.acts_of_looking hs ht
    rw [hs]
    exact .launching (by rw [hc]; rfl)
  | launches hs ht =>
    obtain ⟨rfl, hf⟩ := h.acts_of_aboutToLaunch hs ht
    rw [hs]
    exact .playing hf

end Proceeds

namespace Finishes

variable {ending : Except String StageResult} {stores : List FingerprintStore}
  (hf : Finishes w i t act ending stores)
include hf

/-- Only a task that has not ended ends. -/
theorem live : t.phase ≠ .ended := by
  cases hf with
  | other ht => exact ht
  | stops ht | unreadable ht | skips ht | ends ht => simp [ht]
  | unlaunched hs ht => rcases ht with ht | ⟨ht, -⟩ <;> simp [ht]

/-- The act of a task is that of its stage. -/
theorem stage (a : Act) (ha : act = some a) : a.stage? = some i := by
  cases hf <;> cases ha <;> rfl

theorem came (p : Plan) (h : Underway i t.body t.phase acts) :
    Came i t.body (acts ++ act.toList) (p.resultOf i ending) := by
  -- the diary of the phase before, and what is written at the end
  cases hf with
  | other ht hs =>
    rw [h.acts_of_other hs]
    exact .other hs _
  | stops ht hs htrip reason =>
    rw [ht] at h
    rw [h.acts_of_starting, hs]
    exact .stopped _ reason
  | unreadable ht hs message =>
    obtain ⟨rfl, -⟩ := h.acts_of_looking hs ht
    rw [hs]
    exact .unreadable _ message
  | skips ht hs =>
    obtain ⟨rfl, -⟩ := h.acts_of_looking hs ht
    rw [hs]
    exact .skipped _ _
  | unlaunched hs ht e =>
    obtain ⟨rfl, -⟩ := h.acts_of_aboutToLaunch hs ht
    rw [hs]
    exact .unlaunched _ _ e
  | @ends s fingerprint outcome saved stores ht hs hstores said message =>
    obtain ⟨rfl, -⟩ := h.acts_of_playing hs ht
    rw [hs, List.append_assoc]
    exact .ended s fingerprint outcome saved said message

/-- No end makes a store or takes one away. -/
theorem stores_length : stores.length = w.stores.length := by
  cases hf with
  | other | stops | unreadable | skips | unlaunched => rfl
  | ends ht hs hstores =>
    cases hstores with
    | nothing => rfl
    | record hc hf hlen => exact hlen

end Finishes

/-! ## Stores and logs

  The stores are told by the log.  A record that is loaded is carried by the task to its look at files; what it
  carries is what was recorded at that time, even if the record is gone by then. -/

/-- Under the key of a stage with a record of its own stands what the log tells. -/
def Kept (S : Setting) (log : List Act) (stores : List FingerprintStore) : Prop :=
  ∀ i s c, S.Owns i s c → ∀ f, storedIn stores c.store c.key = some f ↔ LatestSaved log i c f

namespace Kept

variable {stores : List FingerprintStore} (h : Kept S log stores)
include h

/-- An act that records and forgets nothing. -/
theorem keeps {a : Act} (hsaves : ∀ i, a ≠ .succeeds i true) (hforgets : ∀ m start, a ≠ .forgets m start) :
    Kept S (log ++ [a]) stores := fun i s c howns f =>
  (h i s c howns f).trans (latestSaved_keeps (hsaves i) fun start heq => absurd heq (hforgets _ start)).symm

/-- Forgotten records are not there, and all others are as they were. -/
theorem forgets {stores' : List FingerprintStore} {m : Nat} {start : String}
    (hstored : ∀ k key, storedIn stores' k key =
      if k = m ∧ start.toList <+: key.toList then none else storedIn stores k key) :
    Kept S (log ++ [.forgets m start]) stores' := by
  intro i s c howns f
  rw [hstored]
  split
  -- the key has the start that was forgotten
  · rename_i hgone
    obtain ⟨rfl, hstart⟩ := hgone
    exact iff_of_false (by simp) (latestSaved_forgets hstart)
  -- it has not, or it is of another store
  · rename_i hleft
    rw [h i s c howns f, latestSaved_keeps (by simp) fun start' heq hstart => ?_]
    cases heq
    exact hleft ⟨rfl, hstart⟩

/-- **A command ended**: if it is saved, its fingerprint stands there now, and else what stood there. -/
theorem saves {stores' : List FingerprintStore} {s : BackendStage} {fingerprint : Option String}
    {outcome : ExitOutcome} {saved : Bool} (hlen : stores.length = S.stores.length)
    (hs : S.bodies[i]? = some (.backend s)) (hf : fingerprint.isSome = s.staleness.isSome)
    (hdiary : diary i (thisRun log) = found i fingerprint ++ [.launches i])
    (hstores : Saves stores s fingerprint outcome saved stores') :
    Kept S (log ++ [.ends i outcome saved]) stores' := by
  -- for any stage with a record of its own: the one that has ended, or another one
  intro j s' c' howns f
  cases hstores with
  | nothing hsaved =>
    rw [h j s' c' howns f, latestSaved_keeps (fun heq => ?_) (by simp)]
    obtain ⟨rfl, rfl, rfl⟩ : i = j ∧ outcome = .exited (some 0) ∧ saved = true := by simpa using heq
    obtain rfl : s' = s := StageBody.backend.inj (Option.some.inj (howns.body.symm.trans hs))
    -- it has a check, so it has found a fingerprint
    rcases (hsaved rfl).2 with hnone | hnone
    · rw [howns.check] at hnone
      cases hnone
    · rw [hnone, howns.check] at hf
      cases hf
  | @record c f' stores' hc hfound hlen' hstored =>
    subst hfound
    rw [hstored]
    -- the fingerprint was recorded for this stage: now this is its latest success
    by_cases hji : j = i
    · subst hji
      obtain ⟨rfl, rfl⟩ := howns.eq hs hc
      rw [if_pos ⟨rfl, hlen ▸ howns.store, rfl⟩, latestSaved_saves, hdiary]
      simp [found]
    -- another stage has another place for its record
    · rw [if_neg fun hsame => hji (howns.alone i s c hs hc hsame.1.symm hsame.2.2.symm).symm, h j s' c' howns f,
        latestSaved_keeps (by simpa using fun heq => hji heq.symm) (by simp)]

end Kept

/-- What a task takes along to its look at files is what stood under its key when it loaded its record. -/
def Carries (S : Setting) (log : List Act) (tasks : List StageTask) : Prop :=
  ∀ (n : Nat) (t : StageTask) (i : Nat) (s : BackendStage) (c : StalenessCheck) (previous : Option String),
    tasks[n]? = some t → t.stage = some i → S.Owns i s c → t.phase = .looking previous →
      ∀ f, previous = some f ↔ Loaded log i c f

namespace Carries

variable {tasks : List StageTask}

/-- Nothing is compared when all tasks have ended. -/
theorem of_ended (h : ∀ t ∈ tasks, t.phase = .ended) : Carries S log tasks := by
  intro n t i s c previous hn _ _ hphase
  rw [h t (List.mem_of_getElem? hn)] at hphase
  cases hphase

variable (h : Carries S log tasks)
include h

/-- An act that is no beginning and loads nothing, or only what no task looks for. -/
theorem keeps {a : Act} (hbegins : a ≠ .begins) (hloads : ∀ (n : Nat) (t : StageTask) (i : Nat)
    (previous : Option String), tasks[n]? = some t → t.stage = some i → t.phase = .looking previous →
      a ≠ .loads i) : Carries S (log ++ [a]) tasks :=
  fun n t i s c previous hn hi howns hphase f =>
    (h n t i s c previous hn hi howns hphase f).trans
      (loaded_keeps hbegins (hloads n t i previous hn hi hphase)).symm

/-- A task that starts has nothing to compare yet. -/
theorem append (ht : t.phase = .starting) : Carries S log (tasks ++ [t]) := by
  intro n u i s c previous hn hi howns hphase
  -- the new task is not looking; all others were there
  rcases Nat.lt_or_ge n tasks.length with hlt | hge
  · rw [List.getElem?_append_left hlt] at hn
    exact h n u i s c previous hn hi howns hphase
  · obtain rfl : t = u := by
      rw [List.getElem?_append_right hge] at hn
      exact List.mem_singleton.mp (List.mem_of_getElem? hn) |>.symm
    rw [ht] at hphase
    cases hphase

/-- A task goes on to another phase; if it is to look at files, it has loaded its record. -/
theorem modify (hn : tasks[n]? = some t) {phase : StagePhase}
    (hnew : ∀ i s c previous, t.stage = some i → S.Owns i s c → phase = .looking previous →
      ∀ f, previous = some f ↔ Loaded log i c f) : Carries S log (tasks.modify n fun t => { t with phase }) := by
  intro m u i s c previous hm hi howns hphase
  rcases getElem?_modify_phase hn hm with ⟨rfl, rfl⟩ | ⟨-, hold⟩
  · exact hnew i s c previous hi howns hphase
  · exact h m u i s c previous hold hi howns hphase

end Carries

/-! ## What makes an act lawful

  Why a task may write what it writes.  The move says what the task has found, and the diary says what it did before,
  so each case of the law is filled from these two. -/

section Laws

variable {tasks : List StageTask} {a : Act} (h : Course S log run tasks) (hlive : Live S log run i t)
  (hn : tasks[n]? = some t) (hcarries : Carries S log tasks)
include h hlive hn hcarries

theorem Proceeds.law {phase : StagePhase} (hp : Proceeds w i t (some a) phase) : Law S log a := by
  have hready := h.ready hlive.hasStarted
  have hacts := hlive.underway
  have hbody := hlive.body
  -- it loads first, so nothing stands in its diary
  cases hp with
  | loads ht hs hc =>
    rw [ht] at hacts
    exact .loads hready hacts.acts_of_starting
  | @stale s c f previous ht hs hc hf hwhy =>
    rw [hs] at hbody
    refine .stale hready (hacts.acts_of_looking hs ht).1 fun s' c' howns hloaded => ?_
    -- what it has loaded agrees, so a predecessor did its work
    have hflag := hwhy.resolve_left
      (not_not.mpr ((hcarries n t i s' c' previous hn hlive.stage howns ht f).mpr hloaded))
    exact h.worked (hflag ▸ hlive.started)
  | launches hs ht =>
    rw [hs] at hbody
    obtain ⟨hdiary, hf⟩ := hacts.acts_of_aboutToLaunch hs ht
    -- what it has launched is for what it has found
    exact .launches hready hbody hf hdiary

theorem Finishes.law {ending : Except String StageResult} {stores : List FingerprintStore}
    (hf : Finishes w i t (some a) ending stores) : Law S log a := by
  have hready := h.ready hlive.hasStarted
  have hacts := hlive.underway
  have hbody := hlive.body
  -- each end has its own law, about what stands before it
  cases hf with
  | stops ht hs htrip reason =>
    rw [ht] at hacts
    exact .stops hready hacts.acts_of_starting
  | unreadable ht hs message => exact .unreadable hready (hacts.acts_of_looking hs ht).1
  -- who is skipped has loaded what the inputs came to, and was started without the flag
  | @skips s c f ht hs hc hf hflag =>
    refine .skips hready (hacts.acts_of_looking hs ht).1 (h.idle (hflag ▸ hlive.started)) fun s' c' howns => ?_
    exact (hcarries n t i s' c' (some f) hn hlive.stage howns ht f).mp rfl
  | unlaunched hs ht e =>
    rw [hs] at hbody
    obtain ⟨hdiary, hf⟩ := hacts.acts_of_aboutToLaunch hs ht
    exact .unlaunched hready hbody hf hdiary
  -- only a success is recorded
  | ends ht hs hstores =>
    rw [hs] at hbody
    obtain ⟨hdiary, hf⟩ := hacts.acts_of_playing hs ht
    refine .ends hready hbody hf hdiary fun hsaved => ?_
    cases hstores with
    | nothing hnothing => exact (hnothing hsaved).1
    | record => rfl

end Laws

/-! ## Faithful logs

  All of it together, as one invariant of histories. -/

/-- The log tells what happened, and the stores hold what it tells. -/
structure Faithful (S : Setting) (log : List Act) (w : Rehearsal) : Prop where
  /-- Every act keeps the laws. -/
  lawful : Lawful S log
  /-- The run that is under way is on its course. -/
  course : ∀ run, w.run = some run → Course S log run w.tasks
  /-- Without a run nobody is at work. -/
  idle : w.run = none → ∀ t ∈ w.tasks, t.phase = .ended
  /-- There are as many stores as at the start. -/
  stores : w.stores.length = S.stores.length
  /-- Stores hold what was saved last. -/
  kept : Kept S log w.stores
  /-- Who looks carries what its store held when it was loaded. -/
  carries : Carries S log w.tasks

namespace Faithful

/-- Before anything has happened. -/
theorem start (hw : S.Unused w) : Faithful S [] w := by
  refine ⟨lawful_nil S, fun run hrun => ?_, fun _ t ht => ?_, by rw [hw.stores], fun i s c howns f => ?_,
    .of_ended fun t ht => ?_⟩
  · rw [hw.run] at hrun
    cases hrun
  · rw [hw.tasks] at ht
    exact absurd ht List.not_mem_nil
  -- the records of the setting's stages are not there yet
  · rw [hw.stores, howns.unused]
    exact iff_of_false (by simp) not_latestSaved_nil
  · rw [hw.tasks] at ht
    exact absurd ht List.not_mem_nil

variable (h : Faithful S log w)
include h

/-- Nothing else of a rehearsal matters. -/
theorem congr (hw : Alike w w') : Faithful S log w' :=
  ⟨h.lawful, fun run hrun => hw.tasks ▸ h.course run (hw.run ▸ hrun),
    fun hrun => hw.tasks ▸ h.idle (hw.run ▸ hrun), by rw [hw.stores, h.stores], hw.stores ▸ h.kept,
    hw.tasks ▸ h.carries⟩

/-- All tasks have ended unless a run goes on. -/
theorem ended (hidle : ∀ run, w.run = some run → run.outcome.isSome = true) :
    ∀ t ∈ w.tasks, t.phase = .ended := by
  cases hrun : w.run with
  | none => exact h.idle hrun
  | some run => exact (h.course run hrun).ended_of_outcome (hidle run hrun)

/-- A task that has not ended is one of the run that goes on. -/
theorem run_of_live (hn : w.tasks[n]? = some t) (ht : t.phase ≠ .ended) :
    ∃ run, w.run = some run ∧ Course S log run w.tasks := by
  cases hrun : w.run with
  | none => exact absurd (h.idle hrun t (List.mem_of_getElem? hn)) ht
  | some run => exact ⟨run, rfl, h.course run hrun⟩

/-- All tasks are regular, because they are those of stages. -/
theorem regular : ∀ t ∈ w.tasks, Regular t := by
  intro t ht
  obtain ⟨n, hn⟩ := List.mem_iff_getElem?.mp ht
  refine ⟨fun hphase => ?_, fun s previous hphase hs => ?_⟩
  · obtain ⟨run, -, hcourse⟩ := h.run_of_live hn hphase
    obtain ⟨i, hlive⟩ := hcourse.live n t hn hphase
    rw [hlive.stage]
    rfl
  · obtain ⟨run, -, hcourse⟩ := h.run_of_live hn (by simp [hphase])
    obtain ⟨i, hlive⟩ := hcourse.live n t hn (by simp [hphase])
    exact (hlive.underway.acts_of_looking hs hphase).2

/-! ## Moves keep logs faithful

  One lemma for each of the moves, and the invariant after any events by induction. -/

/-- A run begins: nobody is at work, and nothing was written in it. -/
theorem begins (hp : S.pipeline.plan.WellFormed)
    (hidle : ∀ run, w.run = some run → run.outcome.isSome = true) (config : PipelineConfig) (token : TokenId) :
    Faithful S (log ++ [.begins]) { w with run := some (S.newRun config token) } := by
  refine ⟨h.lawful.append .begins, fun run hrun => ?_, fun hrun => ?_, h.stores,
    h.kept.keeps (by simp) (by simp), .of_ended (h.ended hidle)⟩
  · obtain rfl := Option.some.inj hrun
    exact .begins hp (h.ended hidle) config token
  · cases hrun

/-- The loop makes a step, and the stage that it started gets a task. -/
theorem loops {e : Dispatch.Event} {loop : Dispatch} (hrun : w.run = some run)
    (hstep : run.toDispatch.step e = some loop) (he : ∀ i ending, e ≠ .finish i ending) :
    Faithful S log ((w.withLoop run loop).spawnAll run (loop.started.drop run.started.length)) := by
  -- the loop first, then the task of the stage that it has started
  have hcourse := h.course run hrun
  have hsteps := hcourse.steps hstep he
  have hloop : Faithful S log (w.withLoop run loop) := by
    refine ⟨h.lawful, fun run' hrun' => ?_, fun hrun' => ?_, h.stores, h.kept, h.carries⟩
    · obtain rfl := Option.some.inj hrun'
      exact hsteps
    · cases hrun'
  obtain ⟨new, hstarted, -⟩ := Dispatch.started_of_step hstep
  rw [hstarted, List.drop_left]
  -- it has started nobody, or one stage
  cases new with
  | none => exact hloop
  | some x =>
    obtain ⟨i, flag⟩ := x
    rw [Option.toList_some]
    cases hbody : run.bodies[i]? with
    | none =>
      rw [(Rehearsal.spawnAll_singleton _).2 hbody]
      exact hloop
    | some body =>
      rw [(Rehearsal.spawnAll_singleton _).1 body hbody]
      rw [hcourse.bodies] at hbody
      obtain ⟨config, hs⟩ := hcourse.loop
      have hmem : (i, flag) ∈ loop.started := by
        rw [hstarted]
        exact List.mem_append_right _ (List.mem_singleton_self _)
      -- it is started for the first time
      have hnew : ¬ run.HasStarted i := by
        have hnd := (hs.step hstep).started_nodup
        rw [hstarted, List.map_append] at hnd
        exact fun hold => (List.nodup_append.mp hnd).2.2 i hold i (List.mem_singleton_self _) rfl
      have hstart := hs.canStart_of_step hstep (List.mem_map_of_mem hmem) hnew
      refine ⟨h.lawful, fun run' hrun' => ?_, fun hrun' => ?_, h.stores, h.kept, h.carries.append rfl⟩
      · obtain rfl := Option.some.inj hrun'
        refine hsteps.spawns hmem ?_ (fun ending hending => ?_) hbody (hcourse.unstarted i hnew)
          fun n t hn ht hi => ?_
        · exact (hs.result?_of_step hstep (he i) (List.mem_map_of_mem hmem)).trans hstart.2.1
        · exact hnew (hcourse.arrived i ending hending).1
        · exact hnew (hcourse.live_of_stage hn ht hi).hasStarted
      · cases hrun'

/-- What is written when the loop is done. -/
theorem closes (hrun : w.run = some run) :
    Faithful S (log ++ (run.outcome.map fun o => Act.closes o.status).toList) w := by
  cases ho : run.outcome with
  -- the loop has not ended
  | none => exact (List.append_nil log).symm ▸ h
  | some o =>
    have hlog : ∀ i, diary i (thisRun (log ++ [.closes o.status])) = diary i (thisRun log) := fun i =>
      diary_thisRun_of_not_stage (by simp) (by simp [Act.stage?])
    -- it has: if it says that all was well, then all stages were successful
    refine ⟨h.lawful.append (.closes fun hstatus i hi => ?_), fun run' hrun' => ?_, h.idle, h.stores,
      h.kept.keeps (by simp) (by simp), h.carries.keeps (by simp) (by simp)⟩
    · exact (h.course run hrun).all_succeeded ho hstatus hi
    · exact (h.course run' hrun').congr hlog

/-- The loop hears of a stage: what arrived of it is settled now, and nothing is written. -/
theorem hears {k : Nat} {ending : Except String StageResult} {loop : Dispatch} (hrun : w.run = some run)
    (hk : run.arrived[k]? = some (i, ending)) (hstep : run.toDispatch.step (.finish i ending) = some loop) :
    Faithful S log (w.withLoop { run with arrived := run.arrived.eraseIdx k } loop) := by
  refine ⟨h.lawful, fun run' hrun' => ?_, fun hrun' => ?_, h.stores, h.kept, h.carries⟩
  · obtain rfl := Option.some.inj hrun'
    exact (h.course run hrun).hears hk hstep
  · cases hrun'

section Task

variable (hn : w.tasks[n]? = some t) (hi : t.stage = some i)
include hn hi

theorem proceeds {phase : StagePhase} (hp : Proceeds w i t act phase) :
    Faithful S (log ++ act.toList) (w.setPhase n phase) := by
  obtain ⟨run, hrun, hcourse⟩ := h.run_of_live hn hp.live
  have hlive := hcourse.live_of_stage hn hp.live hi
  obtain ⟨hself, hother⟩ := diary_thisRun_toList log hp.stage
  -- the act is lawful by what stands in the diary, and the diary goes on with it
  refine ⟨h.lawful.append_toList fun a ha => (ha ▸ hp).law hcourse hlive hn h.carries, fun run' hrun' => ?_,
    fun hnone => ?_, h.stores, ?_, ?_⟩
  · obtain rfl : run = run' := Option.some.inj (hrun.symm.trans hrun')
    exact hcourse.proceeds hn hp.live hi hother (hself ▸ hp.underway hlive.underway)
  · rw [show (w.setPhase n phase).run = w.run from rfl, hrun] at hnone
    cases hnone
  -- kept: a task that goes on records nothing
  · cases hp with
    | looks | waits => exact (List.append_nil log).symm ▸ h.kept
    | loads | stale | launches => exact h.kept.keeps (by simp) (by simp)
  -- carries: only the task that loads carries something new
  · cases hp with
    | looks ht hs previous =>
      -- a stage with a record of its own runs a command
      refine (List.append_nil log).symm ▸ h.carries.modify hn fun j s c _ hj howns _ => ?_
      obtain rfl := Option.some.inj (hi.symm.trans hj)
      exact absurd (Option.some.inj (hlive.body.symm.trans howns.body)) (hs s)
    -- what it carries is what its store holds, and the stores hold what was saved last
    | @loads s c ht hs hc =>
      have hothers : Carries S (log ++ [.loads i]) w.tasks := by
        refine h.carries.keeps (by simp) fun m u j previous hm hj hphase heq => ?_
        obtain rfl := Act.loads.inj heq
        obtain rfl := hcourse.alone n m t u hn hm (by simp [ht]) (by simp [hphase]) (hi.trans hj.symm)
        obtain rfl := Option.some.inj (hn.symm.trans hm)
        rw [ht] at hphase
        cases hphase
      refine hothers.modify hn fun j s' c' previous hj howns hphase f => ?_
      obtain rfl := Option.some.inj (hi.symm.trans hj)
      obtain ⟨-, rfl⟩ := howns.eq (hs ▸ hlive.body) hc
      rw [loaded_loads, ← h.kept i s' c howns f, ← StagePhase.looking.inj hphase]
    -- the others do not look now
    | waits => exact (List.append_nil log).symm ▸ h.carries.modify hn (by simp)
    | stale | launches => exact (h.carries.keeps (by simp) (by simp)).modify hn (by simp)

theorem finishes {ending : Except String StageResult} {stores : List FingerprintStore}
    (hf : Finishes w i t act ending stores) :
    Faithful S (log ++ act.toList) (({ w with stores } : Rehearsal).finishWith n t ending) := by
  obtain ⟨run, hrun, hcourse⟩ := h.run_of_live hn hf.live
  have hlive := hcourse.live_of_stage hn hf.live hi
  obtain ⟨hself, hother⟩ := diary_thisRun_toList log hf.stage
  -- its ending has arrived
  have hrun' : (({ w with stores } : Rehearsal).finishWith n t ending).run =
      some { run with arrived := run.arrived ++ [(i, ending)] } := by
    rw [Rehearsal.run_finishWith, hi, hrun]
    rfl
  -- the act is lawful by what stands in the diary
  refine ⟨h.lawful.append_toList fun a ha => (ha ▸ hf).law hcourse hlive hn h.carries, fun run' hsome => ?_,
    fun hnone => ?_, ?_, ?_, ?_⟩
  · obtain rfl := Option.some.inj (hrun'.symm.trans hsome)
    rw [Rehearsal.tasks_finishWith]
    exact hcourse.finishes hn hf.live hi hother (hself ▸ hf.came S.pipeline.plan hlive.underway)
  · rw [hrun'] at hnone
    cases hnone
  · rw [Rehearsal.stores_finishWith]
    exact hf.stores_length.trans h.stores
  -- kept: only a success is recorded
  · rw [Rehearsal.stores_finishWith]
    cases hf with
    | other => exact (List.append_nil log).symm ▸ h.kept
    | stops | unreadable | skips | unlaunched => exact h.kept.keeps (by simp) (by simp)
    | ends ht hs hstores =>
      obtain ⟨hdiary, hfound⟩ := hlive.underway.acts_of_playing hs ht
      exact h.kept.saves h.stores (hs ▸ hlive.body) hfound hdiary hstores
  -- carries: the task does not look any more
  · rw [Rehearsal.tasks_finishWith]
    cases hf with
    | other => exact (List.append_nil log).symm ▸ h.carries.modify hn (by simp)
    | stops | unreadable | skips | unlaunched | ends =>
      exact (h.carries.keeps (by simp) (by simp)).modify hn (by simp)

end Task

/-- Records are forgotten, and no task hears of it. -/
theorem forgets {m : Nat} {start : String} {stores : List FingerprintStore}
    (hlen : stores.length = w.stores.length)
    (hstored : ∀ k key, storedIn stores k key =
      if k = m ∧ start.toList <+: key.toList then none else storedIn w.stores k key) :
    Faithful S (log ++ [.forgets m start]) { w with stores } := by
  have hlog : ∀ i, diary i (thisRun (log ++ [.forgets m start])) = diary i (thisRun log) := fun i =>
    diary_thisRun_of_not_stage (by simp) (by simp [Act.stage?])
  exact ⟨h.lawful.append (.forgets m start), fun run hrun => (h.course run hrun).congr hlog, h.idle,
    hlen.trans h.stores, h.kept.forgets hstored, h.carries.keeps (by simp) (by simp)⟩

/-- **Every move keeps the log faithful.** -/
theorem moves (hp : S.pipeline.plan.WellFormed) (hm : Moves S w act w') :
    Faithful S (log ++ act.toList) w' := by
  -- one kind of move after the other
  cases hm with
  | idle hw => exact (List.append_nil log).symm ▸ h.congr hw
  | begins hidle hw => exact (h.begins hp hidle _ _).congr hw
  | loops hrun hstep he hw =>
    exact ((h.loops hrun hstep he).closes (Rehearsal.spawnAll_frame ..).1).congr hw
  | hears hrun hk hstep hw => exact (List.append_nil log).symm ▸ (h.hears hrun hk hstep).congr hw
  | proceeds hn hi hp hw => exact (h.proceeds hn hi hp).congr hw
  | finishes hn hi hf hw => exact (h.finishes hn hi hf).congr hw
  | forgets hlen hstored hw => exact (h.forgets hlen hstored).congr hw

omit h in
/-- **Logs are faithful after any events.** -/
theorem follow (hp : S.pipeline.plan.WellFormed) {events : List Event} {more : List Act}
    (h : Faithful S log w) (hw : S.follow w events = some (more, w')) : Faithful S (log ++ more) w' := by
  induction events generalizing log w more with
  | nil =>
    cases hw
    exact (List.append_nil log).symm ▸ h
  | cons e rest ih =>
    obtain ⟨act, next, tail, hnext, hrest, rfl⟩ := Setting.follow_cons hw
    rw [← List.append_assoc]
    exact ih (h.moves hp (moves_of_happen h.regular hnext)) hrest

end Faithful

end History

end Wheelwright
