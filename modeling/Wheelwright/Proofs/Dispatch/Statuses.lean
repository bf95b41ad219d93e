/-
  Published statuses — what anybody can read of a pipeline's stages while it runs.

  **Specification** — in any number of runs, one after the other, and at every moment of each: a stage is
  pending until it is started or has a result, running until it has one, and then it has the status of the
  result that listeners were told.

  **Program** — a run begins with all stages pending.  After that statuses change when a stage is taken and
  when it gets a result.  `StatusBoard` follows the loop from one change to the next, also while one failure
  takes many stages with it; it has no step for a change that is not allowed.

  **The crux** — the board gets everywhere that the loop gets (`follow_step`), so the loop asks for no change
  that is not allowed.  Between two steps of the loop the board is in the middle of a row of rounds, and
  where they lead is a sound state of the loop (`Moment`).
-/
import Wheelwright.Proofs.Dispatch.Completion
import Wheelwright.Proofs.Execution.Statuses
import Wheelwright.Rehearsal.Run

namespace Wheelwright

open Execution (stageAt blockReason cancelReason release Shows Idle Cascades Extends Noted Popped)

/-! ## Half a step of the loop

  A step of the loop may change many statuses: a stage ends, and all that depend on it are given up.  Somebody who
  reads statuses meanwhile sees a part of that.  So the step is cut in two, where the giving up begins. -/

namespace Dispatch

variable {p : Pipeline} {d d' next : Dispatch} {e : Event} {x y : Execution} {i : Nat} {r : StageResult}
  {pending rest : List (Nat × String)}

/-- The first part of a step, up to where stages are given up: the loop after it, and those stages, each
    with the reason.  There is none if the step asks for a status that the stage may not take. -/
def opening? (d : Dispatch) (e : Event) : Option (Dispatch × List (Nat × String)) :=
  (d.step e).bind fun next =>
    match e with
    | .trip _ | .close => some (next, [])
    | .take =>
      match d.state.queue.ready, d.tripped with
      | [], _ => none
      | k :: rest, none =>
        let i := stageAt d.state.plan k
        let x := { d.state with queue.ready := rest, running := d.state.running ++ [i] }
        (x.changeStatus? i .running).map fun x =>
          ({ d.withState x with started := d.started ++ [(i, d.state.upstreamRebuilt i)] }, [])
      | k :: rest, some reason =>
        some (d.withState { d.state with queue.ready := rest }, [(stageAt d.state.plan k, cancelReason reason)])
    | .finish i ending =>
      let r := d.state.plan.resultOf i ending
      let x := { d.state with running := d.state.running.erase i }
      (x.note? i r).map fun x =>
        if r.isSuccess then (d.withState ((x.plan.dependentsOf i).foldl release x), [])
        else (d.withState x, (x.plan.dependentsOf i).map fun j => (j, blockReason (x.plan.nameOf i)))

/-- If a stage ends, it ends with a result that is an end. -/
def Event.IsTerminal (p : Plan) : Event → Prop
  | .finish i ending => (p.resultOf i ending).status.isTerminal = true
  | _ => True

/-- Listeners were told of every result. -/
def Heard (d : Dispatch) : Prop := ∀ i r, d.state.result? i = some r → .stage r ∈ d.told

/-- What runs is what was started and has no result. -/
def Runs (d : Dispatch) : Prop := ∀ i, i ∈ d.state.running ↔ d.HasStarted i ∧ d.state.result? i = none

/-- What a sound loop has told is what it settled. -/
theorem Sound.heard (h : Sound p d) : d.Heard := by
  intro i r hr
  obtain ⟨settled, -, hmem, hdel⟩ := h.coherent.told
  rw [h.told, hdel]
  refine List.mem_append_left _ (List.mem_map_of_mem (List.mem_filterMap.mpr ⟨i, ?_, hr⟩))
  rw [hmem, hr]
  rfl

/-! ### Telling of new results

  Listeners are told of results one after another.  Telling of some and then of the others is the same as telling of
  them all. -/

/-- The state put back is the dispatch itself. -/
theorem withState_self (d : Dispatch) : d.withState d.state = d := by
  rw [withState, List.drop_length, List.map_nil, List.append_nil]

/-- To tell of results in two parts is to tell of them at once. -/
theorem withState_withState (hx : d.state.delivered <+: x.delivered) (hy : x.delivered <+: y.delivered) :
    (d.withState x).withState y = d.withState y := by
  obtain ⟨first, hfirst⟩ := hx
  obtain ⟨second, hsecond⟩ := hy
  rw [withState, withState, withState]
  congr 1
  show (d.told ++ (x.delivered.drop d.state.delivered.length).map Delivery.stage) ++
    (y.delivered.drop x.delivered.length).map Delivery.stage = _
  rw [← hsecond, ← hfirst, List.drop_left, List.drop_left, List.append_assoc d.state.delivered, List.drop_left,
    List.append_assoc, List.map_append]

/-- A noted result is told last. -/
theorem told_withState_of_noted (h : Noted d.state y i r) : (d.withState y).told = d.told ++ [.stage r] := by
  rw [withState, h.delivered, List.drop_left]
  rfl

/-- A result that is noted is told. -/
theorem Heard.noted (h : d.Heard) (hy : Noted d.state y i r) : (d.withState y).Heard := by
  intro j s hs
  rw [told_withState_of_noted hy]
  rcases hy.result?_eq_some hs with ⟨-, rfl⟩ | hold
  · exact List.mem_append_right _ (List.mem_singleton.mpr rfl)
  · exact List.mem_append_left _ (h j s hold)

/-- A stage that gets a result does not run any more. -/
theorem Runs.noted (h : d.Runs) (hnd : d.state.running.Nodup) (hy : Noted d.state y i r)
    (hi : i < d.state.results.length) (hrunning : y.running = d.state.running.erase i) : (d.withState y).Runs := by
  intro j
  show j ∈ y.running ↔ d.HasStarted j ∧ y.result? j = none
  rw [hrunning]
  by_cases hji : j = i
  · subst hji
    rw [hy.result?_self hi]
    exact iff_of_false (fun hmem => hnd.not_mem_erase hmem) fun hnone => by cases hnone.2
  · rw [List.mem_erase_of_ne hji, hy.result?_of_ne hji]
    exact h j

/-! ### Where half a step leads

  In the middle of a step the loop is on its way to a state that is known, the one where the step leads. `Moment`
  carries that state along, and each round of giving up goes on to the same one. -/

/-- The loop in the middle of a step: some stages are still to be given up, and when they have been the
    loop is in a sound state. -/
structure Moment (p : Pipeline) (d : Dispatch) (pending : List (Nat × String)) (next : Dispatch) : Prop where
  /-- The statuses show what the execution holds. -/
  shows : d.state.Shows
  /-- No stage that is to be given up runs. -/
  idle : d.state.Idle pending
  /-- The running stages are those that were started and have no result. -/
  runs : d.Runs
  running_nodup : d.state.running.Nodup
  /-- Listeners heard of every result. -/
  heard : d.Heard
  /-- Nothing is left over once there is an outcome. -/
  unfinished : pending ≠ [] → d.outcome = none
  /-- What comes of it is sound. -/
  sound : Sound p next
  /-- It is where giving up the rest leads. -/
  leads : Cascades (d.state, pending) (next.state, [])
  /-- It differs in the execution only. -/
  next_eq : next = d.withState next.state

/-- Between two steps nothing is left to be given up. -/
theorem Sound.moment (h : Sound p d) (hx : d.state.Shows) : Moment p d [] d :=
  ⟨hx, List.forall_mem_nil _, h.mem_running, h.coherent.running_nodup, h.heard, fun hne => absurd rfl hne, h, .refl,
    (withState_self d).symm⟩

/-- A stage is taken and given up: that leads to where the loop gets. -/
theorem Sound.opens_cancel (h : Sound p d) (hx : d.state.Shows) (hs : d.step .take = some next) {k : Nat}
    {ready : List Nat} {reason : String} (hready : d.state.queue.ready = k :: ready) (htrip : d.tripped = some reason) :
    Moment p (d.withState { d.state with queue.ready := ready })
      [(stageAt d.state.plan k, cancelReason reason)] next := by
  have hsound := h.step hs
  obtain ⟨hout, x, new, hnext, rfl⟩ := step_cases hs
  obtain ⟨hk, hstart, -, -⟩ := h.coherent.next_spec hready
  have hlt := h.coherent.plan.stageAt_lt hk
  -- the ready stages are no part of what shows
  have hz : Shows { d.state with queue.ready := ready } := hx.congr rfl rfl rfl rfl
  have hidle : Idle { d.state with queue.ready := ready } [(stageAt d.state.plan k, cancelReason reason)] :=
    List.forall_mem_singleton.mpr ⟨hlt, hstart.1⟩
  have hleads := Execution.cascades_block d.state.plan.names.length { d.state with queue.ready := ready }
    (cancelReason reason) (stageAt d.state.plan k) [] hz hidle hstart.2.1 (Nat.le_add_right ..)
  -- a tripped loop takes the first ready stage to give it up
  rw [next?, Execution.takeNext, htrip, hready] at hnext
  split at hnext
  · cases hnext
    refine ⟨hz, hidle, h.mem_running, h.coherent.running_nodup, ?_, fun _ => hout, hsound, hleads, ?_⟩
    · intro i r hr
      exact List.mem_append_left _ (h.heard i r hr)
    · rw [Option.map_none, Option.toList_none, List.append_nil]
      exact (withState_withState List.prefix_rfl (Extends.of_cascades hleads).delivered).symm
  · cases hnext

/-- A stage is taken and started, which it may be. -/
theorem Sound.opens_start (h : Sound p d) (hx : d.state.Shows) (hs : d.step .take = some next)
    (htrip : d.tripped = none) : d.opening? .take = some (next, []) ∧ Moment p next [] next := by
  have hsound := h.step hs
  have hsome : d.opening? .take = _ := congrArg (Option.bind · _) hs
  obtain ⟨-, x, new, hnext, rfl⟩ := step_cases hs
  obtain ⟨-, -, -, ⟨i, -, rfl, hstarts⟩ | ⟨i, reason, hreason, -⟩⟩ := Execution.takeNext_spec h.coherent h.closed hnext
  · -- it is pending before
    have hallowed : (d.state.statuses.getD i .pending).canBecome .running = true := by
      rw [hx.status i hstarts.lt, Execution.shown_of_idle hstarts.canStart.2.1 hstarts.canStart.1]
      rfl
    rw [next?, Execution.takeNext, htrip] at hnext
    split at hnext
    · cases hready : d.state.queue.ready with
      | nil =>
        rw [hready] at hnext
        cases hnext
      | cons k ready =>
        -- its status is the one it starts with
        rw [hready] at hnext
        cases hnext
        obtain ⟨hchange, hstatuses⟩ := Execution.changeStatus?_of_canBecome
          (x := { d.state with queue.ready := ready, running := d.state.running ++ [stageAt d.state.plan k] }) hallowed
        refine ⟨?_, hsound.moment (hx.starts hstarts hstatuses)⟩
        rw [hsome, Option.bind_some]
        dsimp only
        rw [hready, htrip]
        dsimp only
        rw [hchange]
        rfl
    · cases hnext
  · rw [htrip] at hreason
    cases hreason

/-- A stage ends, and its result may be noted if it is an end: that leads to where the loop gets. -/
theorem Sound.opens_finish (h : Sound p d) (hx : d.state.Shows) {ending : Except String StageResult}
    (hs : d.step (.finish i ending) = some next) (hterminal : (Event.finish i ending).IsTerminal d.state.plan) :
    ∃ d₁ pending, d.opening? (.finish i ending) = some (d₁, pending) ∧ Moment p d₁ pending next := by
  have hsound := h.step hs
  have hsome : d.opening? (.finish i ending) = _ := congrArg (Option.bind · _) hs
  obtain ⟨hout, -, hrun, rfl⟩ := step_cases hs
  obtain ⟨hlt, hnone, -⟩ := h.coherent.running i hrun
  generalize hr : d.state.plan.resultOf i ending = r at *
  -- it is running before
  have hallowed : (d.state.statuses.getD i .pending).canBecome r.status = true := by
    rw [hx.status i hlt, Execution.shown_of_running hnone hrun, StageStatus.running_canBecome_iff, ← hr]
    exact hterminal
  obtain ⟨hnote, hstatuses⟩ := Execution.note?_of_canBecome
    (x := { d.state with running := d.state.running.erase i }) hallowed
  have hnoted : Noted d.state (Execution.note { d.state with running := d.state.running.erase i } i r) i r := by
    obtain ⟨hplan, hresults, hdelivered⟩ :=
      Execution.noted_note (x := { d.state with running := d.state.running.erase i }) (i := i) (r := r)
    exact ⟨hplan, hresults, hdelivered⟩
  have hz := hx.noted hnoted hlt hnone (hr ▸ hterminal) hstatuses Execution.note_running
  have hrunning : (Execution.note { d.state with running := d.state.running.erase i } i r).running =
      d.state.running.erase i := Execution.note_running
  rw [hsome, Option.bind_some]
  dsimp only
  rw [hr, hnote, Option.map_some]
  rw [Execution.settle] at hsound ⊢
  generalize Execution.note { d.state with running := d.state.running.erase i } i r = z at *
  -- a success releases those that wait for it; any other end gives them up
  by_cases hsuccess : r.isSuccess = true
  · rw [if_pos hsuccess] at hsound ⊢
    rw [if_pos hsuccess]
    refine ⟨_, _, rfl, hsound.moment ?_⟩
    rw [Execution.foldl_release_eq]
    exact hz.congr rfl rfl rfl rfl
  · rw [if_neg hsuccess] at hsound ⊢
    rw [if_neg hsuccess]
    have hfailed : z.Failed i :=
      ⟨r, hnoted.result?_self (h.coherent.results_length ▸ hlt), Bool.eq_false_iff.mpr hsuccess⟩
    have hidle := hz.idle_dependents hfailed.not_succeeded (blockReason (z.plan.nameOf i))
    have hleads := Execution.cascades_blockAll (Execution.cascades_block z.plan.names.length)
      (blockReason (z.plan.nameOf i)) (z.plan.dependentsOf i) z [] hz (by rwa [List.append_nil])
      fun _ _ => Nat.le_add_right ..
    rw [List.append_nil] at hleads
    refine ⟨_, _, rfl, hz, hidle, ?_, ?_, h.heard.noted hnoted, fun _ => hout, hsound, hleads, ?_⟩
    · exact Runs.noted h.mem_running h.coherent.running_nodup hnoted (h.coherent.results_length ▸ hlt) hrunning
    · show z.running.Nodup
      rw [hrunning]
      exact h.coherent.running_nodup.erase i
    · refine (withState_withState ?_ (Extends.of_cascades hleads).delivered).symm
      rw [hnoted.delivered]
      exact List.prefix_append ..

/-- **Whatever the loop does next, it begins with a change that is allowed.** -/
theorem Sound.opens (h : Sound p d) (hx : d.state.Shows) (hs : d.step e = some next)
    (hterminal : e.IsTerminal d.state.plan) :
    ∃ d₁ pending, d.opening? e = some (d₁, pending) ∧ Moment p d₁ pending next := by
  cases e with
  -- taking depends on the trip; the other events leave nothing over
  | trip reason =>
    obtain ⟨-, -, rfl⟩ := step_cases hs
    exact ⟨_, _, congrArg (Option.bind · _) hs, (h.step hs).moment hx⟩
  | close =>
    obtain ⟨-, -, -, rfl⟩ := step_cases hs
    exact ⟨_, _, congrArg (Option.bind · _) hs, (h.step hs).moment hx⟩
  | finish i ending => exact h.opens_finish hx hs hterminal
  | take =>
    cases htrip : d.tripped with
    | none => exact ⟨_, _, h.opens_start hx hs htrip⟩
    | some reason =>
      obtain ⟨-, y, new, hnext, -⟩ := step_cases hs
      obtain ⟨-, k, ready, hready, -⟩ := Execution.takeNext_cases hnext
      refine ⟨_, _, ?_, h.opens_cancel hx hs hready htrip⟩
      rw [opening?, hs, Option.bind_some]
      dsimp only
      rw [hready, htrip]

/-- The first half of a step needs a step, and an end if a stage ends. -/
theorem Sound.step_of_opening? (h : Sound p d) (hx : d.state.Shows) {b : Dispatch × List (Nat × String)}
    (hb : d.opening? e = some b) : ∃ next, d.step e = some next ∧ e.IsTerminal d.state.plan := by
  obtain ⟨next, hs, hopens⟩ := Option.bind_eq_some_iff.mp hb
  refine ⟨next, hs, ?_⟩
  cases e with
  | trip _ | take | close => exact True.intro
  | finish i ending =>
    obtain ⟨-, -, hrun, -⟩ := step_cases hs
    obtain ⟨hlt, hnone, -⟩ := h.coherent.running i hrun
    obtain ⟨x, hnote, -⟩ := Option.map_eq_some_iff.mp hopens
    have hallowed : (d.state.statuses.getD i .pending).canBecome (d.state.plan.resultOf i ending).status = true :=
      (Execution.canBecome_of_note? hnote).1
    rwa [hx.status i hlt, Execution.shown_of_running hnone hrun, StageStatus.running_canBecome_iff] at hallowed

/-- **A round leads on to the same state.** -/
theorem Moment.giveUp (h : Moment p d pending next) {b : Execution × List (Nat × String)}
    (hb : d.state.giveUp? pending = some b) : Moment p (d.withState b.1) b.2 next := by
  have hyields : Execution.Yields d.state.plan d.state.running b :=
    Execution.Yields.giveUp (a := (d.state, pending)) ⟨h.shows, h.idle, rfl, rfl⟩ hb
  -- there is only one way on from here
  have hleads : Cascades b (next.state, []) := by
    rcases Relation.ReflTransGen.cases_head h.leads with heq | ⟨c, hc, hrest⟩
    · rw [(Prod.mk.inj heq).2] at hb
      cases hb
    · rw [show d.state.giveUp? pending = some c from hc] at hb
      cases hb
      exact hrest
  have hext : Extends d.state b.1 := Extends.of_cascades (a := (d.state, pending)) (.single hb)
  have hne : pending ≠ [] := by
    rintro rfl
    cases hb
  refine ⟨hyields.shows, hyields.idle, ?_, ?_, ?_, fun _ => h.unfinished hne, h.sound, hleads, ?_⟩
  -- either the stage had its result already, or it is noted now
  · rcases Execution.giveUp?_cases hb with heq | ⟨i, reason, hmem, -, heq⟩
    · rw [heq, withState_self]
      exact h.runs
    · obtain ⟨hi, hidle⟩ := h.idle _ hmem
      rw [heq]
      refine h.runs.noted h.running_nodup Execution.noted_note (h.shows.results_length ▸ hi) ?_
      rw [Execution.note_running, List.erase_of_not_mem hidle]
  · show b.1.running.Nodup
    rw [hyields.running]
    exact h.running_nodup
  · rcases Execution.giveUp?_cases hb with heq | ⟨i, reason, -, -, heq⟩
    · rw [heq, withState_self]
      exact h.heard
    · rw [heq]
      exact h.heard.noted Execution.noted_note
  · rw [withState_withState hext.delivered (Extends.of_cascades hleads).delivered]
    exact h.next_eq

/-- When nothing is left to be given up the loop is where the step leads. -/
theorem Moment.eq_of_nil (h : Moment p d [] next) : next = d := by
  rcases Relation.ReflTransGen.cases_head h.leads with heq | ⟨c, hc, -⟩
  · rw [h.next_eq, ← (Prod.mk.inj heq).1, withState_self]
  · cases hc

/-- At every moment the plan is that of the pipeline. -/
theorem Moment.plan (h : Moment p d pending next) : d.state.plan = p.plan :=
  (Extends.of_cascades h.leads).plan.symm.trans h.sound.plan

/-- A run that has ended has nothing left to give up. -/
theorem Moment.sound_of_outcome (h : Moment p d pending next) {o : PipelineOutcome} (ho : d.outcome = some o) :
    pending = [] ∧ Sound p d := by
  have hnil : pending = [] := by
    by_contra hne
    rw [h.unfinished hne] at ho
    cases ho
  subst hnil
  exact ⟨rfl, h.eq_of_nil ▸ h.sound⟩

end Dispatch

/-! ## The board

  The board makes one change at a time.  It has no event for a change that is not allowed, so a board that follows the
  loop shows that none is asked for. -/

/-- The latest run of a pipeline, one change of status at a time. -/
structure StatusBoard where
  pipeline : Pipeline
  /-- The loop of the latest run. -/
  loop : Option Dispatch := none
  /-- Stages that are to be given up unless they have a result, each with the reason. -/
  pending : List (Nat × String) := []

namespace StatusBoard

open Dispatch (Moment Sound)

/-- What can happen. -/
inductive Event where
  /-- A run begins. -/
  | run
  /-- The loop begins a step. -/
  | loop (e : Dispatch.Event)
  /-- The loop looks at the next stage that is to be given up. -/
  | giveUp

/-- The board after an event, if it can happen: a run begins when none is in progress, and the loop begins a
    step when it is through with the one before. -/
def step (s : StatusBoard) : Event → Option StatusBoard
  | .run =>
    if s.loop.all (·.outcome.isSome) && s.pending.isEmpty then some { s with loop := some (.start s.pipeline) }
    else none
  | .loop e =>
    if s.pending.isEmpty then
      s.loop.bind fun d => (d.opening? e).map fun (d, pending) => { s with loop := some d, pending }
    else none
  | .giveUp =>
    s.loop.bind fun d =>
      (d.state.giveUp? s.pending).map fun (x, pending) => { s with loop := some (d.withState x), pending }

/-- The board after events, if they can happen. -/
def follow (s : StatusBoard) : List Event → Option StatusBoard
  | [] => some s
  | e :: rest => (s.step e).bind fun s => s.follow rest

/-- The statuses of the stages in the latest run. -/
def statuses (s : StatusBoard) : List (String × StageStatus) :=
  match s.loop with
  | some d => s.pipeline.plan.names.zip d.state.statuses
  | none => s.pipeline.plan.names.map fun name => (name, .pending)

/-- The status of a stage in the latest run. -/
def status? (s : StatusBoard) (stage : String) : Option StageStatus := s.statuses.lookup stage

/-- These are the statuses of a rehearsal's run. -/
theorem statuses_rehearsed (w : Rehearsal) (p : Pipeline) :
    w.statuses p = statuses { pipeline := p, loop := w.run.map (·.toDispatch) } := by
  rw [Rehearsal.statuses, statuses]
  cases w.run <;> rfl

variable {p : Pipeline} {s s' : StatusBoard} {d next : Dispatch} {e : Event} {events more : List Event} {i : Nat}
  {name : String} {st : StageStatus}

/-- The session follows its first event and then the others. -/
theorem follow_cons : s.follow (e :: events) = some s' ↔ ∃ u, s.step e = some u ∧ u.follow events = some s' := by
  rw [follow, Option.bind_eq_some_iff]

/-! ### Every moment

  What the board shows is at every moment a moment of some run, or every stage is pending as no run has begun. -/

/-- The board shows a moment of a run, or none has begun. -/
structure Faithful (p : Pipeline) (s : StatusBoard) : Prop where
  /-- The board is that of the pipeline. -/
  pipeline : s.pipeline = p
  /-- With a loop it is at a moment of that loop. -/
  moment : ∀ d, s.loop = some d → ∃ next, Moment p d s.pending next
  /-- Without one nothing is left over. -/
  idle : s.loop = none → s.pending = []

/-- The statuses fit the pipeline at rest. -/
theorem faithful_idle (p : Pipeline) : Faithful p { pipeline := p } :=
  ⟨rfl, (fun _ h => by cases h), fun _ => rfl⟩

/-- One step of a session keeps the statuses faithful. -/
theorem Faithful.step (h : Faithful p s) (hp : p.plan.WellFormed) (hs : s.step e = some s') : Faithful p s' := by
  cases e with
  | run =>
    -- a run starts when the last one is over
    rw [StatusBoard.step] at hs
    split at hs
    · rename_i hcond
      rw [Bool.and_eq_true, List.isEmpty_iff] at hcond
      cases hs
      refine ⟨h.pipeline, ?_, fun hloop => by cases hloop⟩
      intro d hd
      cases hd
      rw [hcond.2, h.pipeline]
      exact ⟨_, (Sound.start hp).moment (Execution.shows_start hp)⟩
    · cases hs
  | loop e =>
    -- the loop goes on when nothing is left over, and the half step is one of its steps
    rw [StatusBoard.step] at hs
    split at hs
    · rename_i hempty
      obtain ⟨d, hd, hs⟩ := Option.bind_eq_some_iff.mp hs
      obtain ⟨⟨d₁, pending⟩, hopens, rfl⟩ := Option.map_eq_some_iff.mp hs
      refine ⟨h.pipeline, ?_, fun hloop => by cases hloop⟩
      intro d' hd'
      cases hd'
      obtain ⟨next, hm⟩ := h.moment d hd
      rw [List.isEmpty_iff.mp hempty] at hm
      obtain rfl := hm.eq_of_nil
      obtain ⟨next, hstep, hterminal⟩ := hm.sound.step_of_opening? hm.shows hopens
      obtain ⟨d₂, pending₂, hopens₂, hm₂⟩ := hm.sound.opens hm.shows hstep hterminal
      rw [hopens] at hopens₂
      cases hopens₂
      exact ⟨next, hm₂⟩
    · cases hs
  | giveUp =>
    -- giving up the next one is part of the step under way
    obtain ⟨d, hd, hs⟩ := Option.bind_eq_some_iff.mp hs
    obtain ⟨b, hb, rfl⟩ := Option.map_eq_some_iff.mp hs
    refine ⟨h.pipeline, ?_, fun hloop => by cases hloop⟩
    intro d' hd'
    cases hd'
    obtain ⟨next, hm⟩ := h.moment d hd
    exact ⟨next, hm.giveUp hb⟩

/-- **The board shows a moment of a run, whatever has happened.** -/
theorem Faithful.follow (h : Faithful p s) (hp : p.plan.WellFormed) (hs : s.follow events = some s') :
    Faithful p s' := by
  induction events generalizing s with
  | nil =>
    cases hs
    exact h
  | cons e rest ih =>
    obtain ⟨u, hu, hrest⟩ := follow_cons.mp hs
    exact ih (h.step hp hu) hrest

/-! ### The board follows the loop

  For the other direction the rounds of one step are made one after the other, and the board has an event for each. -/

/-- **Rounds lead to the end of the step.** -/
theorem follow_giveUps {pending : List (Nat × String)} (h : Moment p d pending next) :
    ∃ n, follow ⟨p, some d, pending⟩ (List.replicate n .giveUp) = some ⟨p, some next, []⟩ := by
  have hleads := h.leads
  generalize ha : (d.state, pending) = a at hleads
  induction hleads using Relation.ReflTransGen.head_induction_on generalizing d pending with
  | refl =>
    obtain ⟨-, rfl⟩ := Prod.mk.inj ha
    obtain rfl := h.eq_of_nil
    exact ⟨0, rfl⟩
  | @head a b hround _ ih =>
    subst ha
    obtain ⟨n, hn⟩ := ih (h.giveUp hround) rfl
    refine ⟨n + 1, follow_cons.mpr ⟨⟨p, some (d.withState b.1), b.2⟩, ?_, hn⟩⟩
    rw [StatusBoard.step, Option.bind_some, show d.state.giveUp? pending = some b from hround]
    rfl

/-- **The board follows every step of the loop**, with changes that are allowed. -/
theorem follow_step {e : Dispatch.Event} (h : Moment p d [] d) (hs : d.step e = some next)
    (hterminal : e.IsTerminal p.plan) :
    ∃ n, follow ⟨p, some d, []⟩ (.loop e :: List.replicate n .giveUp) = some ⟨p, some next, []⟩ := by
  obtain ⟨d₁, pending, hopens, hm⟩ := h.sound.opens h.shows hs (h.sound.plan ▸ hterminal)
  obtain ⟨n, hn⟩ := follow_giveUps hm
  refine ⟨n, follow_cons.mpr ⟨⟨p, some d₁, pending⟩, ?_, hn⟩⟩
  show Option.map _ (d.opening? e) = _
  rw [hopens]
  rfl

/-! ### Looking up statuses

  A status is looked up by the name of the stage, and names are distinct. -/

/-- Looking up a name in distinct ones gives what stands beside it. -/
theorem lookup_zip {names : List String} {sts : List StageStatus} (hnd : names.Nodup) (hi : names[i]? = some name) :
    (names.zip sts).lookup name = sts[i]? := by
  induction names generalizing sts i with
  | nil => cases hi
  | cons first rest ih =>
    cases sts with
    | nil => simp
    | cons st more =>
      cases i with
      | zero =>
        obtain rfl := Option.some.inj hi
        simp
      | succ i =>
        have hne : name ≠ first := by
          rintro rfl
          exact (List.nodup_cons.mp hnd).1 (List.mem_of_getElem? hi)
        rw [List.zip_cons_cons, List.lookup_cons, beq_false_of_ne hne]
        exact ih (List.nodup_cons.mp hnd).2 hi

/-- The status fits what the loop knows of the stage. -/
structure Fits (d : Dispatch) (i : Nat) (st : StageStatus) : Prop where
  pending : st = .pending ↔ ¬ d.HasStarted i ∧ d.state.result? i = none
  running : st = .running ↔ d.HasStarted i ∧ d.state.result? i = none
  settled : ∀ r, d.state.result? i = some r → .stage r ∈ d.told ∧ st = r.status

/-- What is shown of a stage fits. -/
theorem fits_shown {pending : List (Nat × String)} (h : Moment p d pending next) (i : Nat) :
    Fits d i (d.state.shown i) := by
  cases hres : d.state.result? i with
  | some r =>
    have hended := h.shows.ended i r hres
    rw [Execution.shown_of_some hres]
    refine ⟨iff_of_false ?_ fun hnone => ?_, iff_of_false ?_ fun hnone => ?_, fun s hs => ?_⟩
    · intro heq
      rw [heq] at hended
      cases hended
    · rw [hres] at hnone
      cases hnone.2
    · intro heq
      rw [heq] at hended
      cases hended
    · rw [hres] at hnone
      cases hnone.2
    · rw [hres] at hs
      cases hs
      exact ⟨h.heard i r hres, rfl⟩
  | none =>
    -- without a result it runs or is idle
    have hruns := h.runs i
    by_cases hrun : i ∈ d.state.running
    · rw [Execution.shown_of_running hres hrun]
      have hstarted := (hruns.mp hrun).1
      exact ⟨iff_of_false (fun heq => by cases heq) (fun hnot => hnot.1 hstarted),
        iff_of_true rfl ⟨hstarted, hres⟩, fun r hr => by rw [hres] at hr; cases hr⟩
    · rw [Execution.shown_of_idle hres hrun]
      have hidle : ¬ d.HasStarted i := fun hstarted => hrun (hruns.mpr ⟨hstarted, hres⟩)
      exact ⟨iff_of_true rfl ⟨hidle, hres⟩, iff_of_false (fun heq => by cases heq) (fun hnot => hidle hnot.1),
        fun r hr => by rw [hres] at hr; cases hr⟩

/-! ## The main result

  What fits is told by an iff for each of the three statuses that a running pipeline can show. -/

section Main

variable {specs : List StageSpec} {config : PipelineConfig}

/-- The board shows of a declared stage what is known of it. -/
theorem status?_of_moment {pending : List (Nat × String)} (hp : p.plan.Describes specs) (hu : NamesUnique specs)
    (h : Moment p d pending next) {spec : StageSpec} (hi : specs[i]? = some spec) :
    status? ⟨p, some d, pending⟩ spec.name = some (d.state.shown i) := by
  have hlt : i < p.plan.names.length := by
    rw [hp.names_length]
    exact (List.getElem?_eq_some_iff.mp hi).1
  have hnames : p.plan.names[i]? = some spec.name := by
    rw [hp.names_eq, List.getElem?_map, hi]
    rfl
  have hstatus := h.shows.status i (h.plan ▸ hlt)
  have hlen : i < d.state.statuses.length := by
    rw [h.shows.statuses_length, h.plan]
    exact hlt
  show (p.plan.names.zip d.state.statuses).lookup spec.name = _
  rw [lookup_zip (hp.names_eq ▸ hu) hnames, List.getElem?_eq_getElem hlen, ← hstatus, List.getD_eq_getElem _ _ hlen]

/-- In the end the board shows the statuses of the outcome. -/
theorem statuses_of_outcome (hp : p.plan.Describes specs) (hu : NamesUnique specs) (h : Moment p d [] next)
    {o : PipelineOutcome} (ho : d.outcome = some o) :
    o.results.map (fun r => some r.status) = p.plan.orderedNames.map (status? ⟨p, some d, []⟩) := by
  obtain ⟨-, hsound⟩ := h.sound_of_outcome ho
  obtain ⟨hdone, rfl⟩ := hsound.ended o ho
  -- at the end every stage has its result, in the order of the plan
  have hsettled := hsound.coherent.all_settled hsound.closed hdone
  have hlt : ∀ i ∈ p.plan.order, i < p.plan.names.length := fun i hi => hp.mem_order.mp hi
  have hordered : d.state.orderedResults.map some = p.plan.order.map d.state.result? := by
    rw [← hsound.plan]
    refine Execution.orderedResults_eq fun i hi => hsettled i ?_
    rw [hsound.plan] at hi ⊢
    exact hlt i hi
  -- the results are read off in that order, each by its stage's name
  calc d.state.orderedResults.map (fun r => some r.status)
      = (d.state.orderedResults.map some).map (Option.map (·.status)) := by
        rw [List.map_map]
        rfl
    _ = p.plan.order.map fun i => (d.state.result? i).map (·.status) := by
        rw [hordered, List.map_map]
        rfl
    _ = p.plan.order.map fun i => status? ⟨p, some d, []⟩ (p.plan.nameOf i) := by
        refine List.map_congr_left fun i hi => ?_
        have hspec := List.getElem?_eq_getElem (hp.names_length ▸ hlt i hi : i < specs.length)
        obtain ⟨r, hr⟩ := Option.isSome_iff_exists.mp (hsettled i (hsound.plan ▸ hlt i hi))
        rw [hp.nameOf_eq hspec, status?_of_moment hp hu h hspec, Execution.shown_of_some hr, hr]
        rfl
    _ = p.plan.orderedNames.map (status? ⟨p, some d, []⟩) := by
        rw [Plan.orderedNames, List.map_map]
        rfl

/-- **Statuses follow the runs of a pipeline**, one run after the other, at every moment of each: before its start
    a stage is pending, then it is running, and in the end it has the status of the result that listeners were
    told.  The board is never stuck where the loop goes on, so every change that is asked for is allowed. -/
theorem statuses_follow_runs {title : String} (hp : Pipeline.build title specs config = .ok p)
    (hs : follow { pipeline := p } events = some s) :
    (s.loop = none → ∀ spec ∈ specs, s.status? spec.name = some .pending) ∧
    ∀ d, s.loop = some d →
      (∀ i spec, specs[i]? = some spec → ∃ st, s.status? spec.name = some st ∧ Fits d i st) ∧
      (s.pending ≠ [] → (s.step .giveUp).isSome) ∧
      (s.pending = [] → ∀ e next, d.step e = some next → e.IsTerminal p.plan →
        ∃ n, s.follow (.loop e :: List.replicate n .giveUp) = some { s with loop := some next }) ∧
      ∀ o, d.outcome = some o →
        s.pending = [] ∧ o.results.map (fun r => some r.status) = p.plan.orderedNames.map s.status? := by
  obtain ⟨hdesc, hu, -⟩ := describes_of_plan (Dispatch.plan_of_build hp).1
  -- the statuses are told one by one behind the loop, and the session stays faithful to it
  have hfaithful := (faithful_idle p).follow hdesc.toWellFormed hs
  obtain ⟨pipeline, loop, pending⟩ := s
  obtain rfl : pipeline = p := hfaithful.pipeline
  refine ⟨?_, ?_⟩
  · rintro rfl spec hspec
    have hmem : spec.name ∈ pipeline.plan.names := hdesc.names_eq ▸ List.mem_map_of_mem hspec
    exact List.lookup_graph (fun _ => StageStatus.pending) hmem
  · rintro d rfl
    obtain ⟨next, hm⟩ := hfaithful.moment d rfl
    refine ⟨?_, ?_, ?_, ?_⟩
    · intro i spec hi
      exact ⟨_, status?_of_moment hdesc hu hm hi, fits_shown hm i⟩
    -- what is still to be told can be given up
    · intro hne
      have hround := Execution.Yields.exists_giveUp (a := (d.state, pending)) ⟨hm.shows, hm.idle, rfl, rfl⟩ hne
      obtain ⟨b, hb⟩ := Option.isSome_iff_exists.mp hround
      show (Option.map _ (d.state.giveUp? pending)).isSome
      rw [show d.state.giveUp? pending = some b from hb]
      -- with nothing left to tell, the loop may go on
      rfl
    · rintro rfl e next hstep hterminal
      obtain rfl := hm.eq_of_nil
      exact follow_step hm hstep hterminal
    · intro o ho
      obtain ⟨rfl, -⟩ := hm.sound_of_outcome ho
      exact ⟨rfl, statuses_of_outcome hdesc hu hm ho⟩

/-- The fork runs to its end, and runs again until its second stage breaks off while the first one runs. -/
def forkedTwice : List Event :=
  [.run, .loop .take, .loop .take, .loop (.finish 0 (.error "broken")), .giveUp,
    .loop (.finish 1 (.ok (.fresh "b" .zero))), .loop .close,
    .run, .loop .take, .loop .take, .loop (.finish 1 (.error "broken"))]

/-- In the second run the third stage is about to be given up. -/
theorem statuses_follow_runs_forked : ∃ s d, follow { pipeline := Dispatch.forked } forkedTwice = some s ∧
    s.loop = some d ∧ s.pending = [(2, "predecessor 'b' did not succeed")] ∧
    ["a", "b", "c"].map s.status? = [some .running, some .failed, some .pending] ∧
    (∀ i spec, Dispatch.forked.specs[i]? = some spec → ∃ st, s.status? spec.name = some st ∧ Fits d i st) ∧
    (s.step .giveUp).isSome := by
  have hp : Pipeline.build "forked" Dispatch.forked.specs Dispatch.forked.config = .ok Dispatch.forked := rfl
  have hs : follow { pipeline := Dispatch.forked } forkedTwice = some _ := rfl
  obtain ⟨-, hmoment⟩ := statuses_follow_runs hp hs
  obtain ⟨hfits, hround, -⟩ := hmoment _ rfl
  exact ⟨_, _, hs, rfl, rfl, rfl, hfits, hround (List.cons_ne_nil _ _)⟩

end Main

end StatusBoard

end Wheelwright
