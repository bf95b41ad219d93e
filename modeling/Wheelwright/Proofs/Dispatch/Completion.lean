/-
  Completion — the loop comes to its end, and then nothing is missing.

  **Specification** — the loop makes no more than two steps for each stage and two more; before its end it
  can always go on by itself or hear of any stage in flight.  At the end every stage has one result, each
  was told once, and the outcome after them.

  **The crux** — for termination, every step adds to what was started and told, of which there is only so
  much (`effort`).  For completeness, suppose that nothing runs and nothing is ready but stages have no
  result: the first of them in the order has only settled predecessors.  If one of those did not succeed it
  has a result since the run is closed; if all succeeded it is ready since the run is coherent.
-/
import Wheelwright.Proofs.Dispatch.Soundness

namespace Wheelwright

open Execution (positionOf Starts Settles Extends)

/-! ## A run with nothing left to do

  A run that is over in the sense that nothing runs and nothing is ready has no stage without a result.  Otherwise the
  first such stage of the order would be ready or given up. -/

namespace Execution

variable {x y : Execution} {i : Nat} {r : StageResult}

/-- **A run that is done has a result for every stage.** -/
theorem Coherent.all_settled (h : x.Coherent) (hc : x.Closed) (hdone : x.isDone = true) :
    ∀ i < x.plan.names.length, (x.result? i).isSome := by
  rw [isDone, Bool.and_eq_true, List.isEmpty_iff, List.isEmpty_iff] at hdone
  intro i
  -- along the order of the plan
  induction hk : positionOf x.plan i using Nat.strongRecOn generalizing i with
  | ind k ih =>
    intro hi
    by_contra hnone
    rw [Option.not_isSome_iff_eq_none] at hnone
    have hall : x.AllSucceeded i := by
      intro j hj
      -- every predecessor is settled, and a failed one would have settled this stage too
      have hsome := ih _ (hk ▸ h.plan.positionOf_lt_of_mem hj) j rfl (h.plan.lt i j hj)
      rcases succeeded_or_failed hsome with hs | hf
      · exact hs
      · have := hc j hf i hj
        rw [hnone] at this
        cases this
    have hready : positionOf x.plan i ∈ x.queue.ready := by
      rw [h.mem_ready, h.plan.stageAt_positionOf hi]
      exact ⟨h.plan.positionOf_lt hi, by rw [hdone.1]; exact List.not_mem_nil, hnone, hall⟩
    rw [hdone.2] at hready
    exact absurd hready List.not_mem_nil

/-- There is one result for each stage of the order. -/
theorem orderedResults_eq (h : ∀ i ∈ x.plan.order, (x.result? i).isSome) :
    x.orderedResults.map some = x.plan.order.map x.result? := by
  rw [orderedResults, List.map_filterMap_some_eq_filter_map_isSome, List.filter_eq_self]
  intro r hr
  obtain ⟨i, hi, rfl⟩ := List.mem_map.mp hr
  exact h i hi

/-- A settled stage is one more delivery. -/
theorem Settles.delivered_lt (h : Settles x y i r) : x.delivered.length < y.delivered.length := by
  obtain ⟨z, hz, hzy⟩ := h.noted
  have := (Extends.of_givesUpAll hzy).delivered.length_le
  rw [hz.delivered, List.length_append, List.length_singleton] at this
  omega

/-- No more results are delivered than there are stages. -/
theorem Coherent.delivered_le (h : x.Coherent) : x.delivered.length ≤ x.plan.names.length := by
  obtain ⟨settled, hnd, hmem, hdel⟩ := h.told
  have hsub : settled ⊆ List.range x.plan.names.length := fun i hi =>
    List.mem_range.mpr (h.lt_of_result? ((hmem i).mp hi))
  have := (List.subperm_of_subset hnd hsub).length_le
  rw [List.length_range] at this
  rw [hdel]
  exact Nat.le_trans (List.length_filterMap_le ..) this

/-- Counters of a stage that succeeds are taken down one by one, none below zero. -/
theorem Coherent.release?_settle (h : x.Coherent) (hi : i ∈ x.running) (hr : r.isSuccess = true) :
    (x.plan.dependentsOf i).foldlM (Countdown.release? (positionOf x.plan)) x.queue =
      some (x.settle i r).queue := by
  obtain ⟨hnoted, -, hqueue⟩ := settle_of_success (x := x) (i := i) hr
  obtain ⟨hlt, hnone, -⟩ := h.running i hi
  have hnot : x.succeeded i = false := succeeded_of_none hnone
  have hdone : ∀ j, (x.settle i r).succeeded j = (x.succeeded j || j == i) := by
    intro j
    rw [hnoted.succeeded_eq (h.results_length ▸ hlt) hnone, hr, Bool.and_true]
  rw [hqueue]
  exact h.tracks.foldlM_release? h.plan.nodup hnot hdone

end Execution

namespace Dispatch

variable {p : Pipeline} {d d' : Dispatch} {e : Event} {events : List Event}

/-! ## The loop ends

  Every event but the end itself starts a stage, delivers a result, or trips the token, and each of these happens so
  many times at most.  So the loop cannot go on for ever, and as long as it has not ended there is an event that it
  can take. -/

/-- How much has happened so far. -/
def effort (d : Dispatch) : Nat :=
  d.started.length + d.state.delivered.length + d.tripped.toList.length + d.outcome.toList.length

/-- An option holds at most one element. -/
theorem length_toList_le {α : Type} (o : Option α) : o.toList.length ≤ 1 := by
  cases o <;> simp

namespace Sound

/-- The effort is bounded by the size of the plan. -/
theorem effort_le (h : Sound p d) : d.effort ≤ 2 * p.plan.names.length + 2 := by
  -- each stage is started once, so there are no more starts than stages
  have hsub : d.started.map Prod.fst ⊆ List.range p.plan.names.length := by
    intro i hi
    obtain ⟨⟨j, rebuilt⟩, hj, rfl⟩ := List.mem_map.mp hi
    exact List.mem_range.mpr (h.started j rebuilt hj).1
  have hstarted := (List.subperm_of_subset h.started_nodup hsub).length_le
  rw [List.length_map, List.length_range] at hstarted
  have hdelivered := h.coherent.delivered_le
  rw [h.plan] at hdelivered
  have htripped := length_toList_le d.tripped
  have houtcome := length_toList_le d.outcome
  unfold effort
  omega

/-- **Every step is an effort.** -/
theorem effort_lt (h : Sound p d) (hstep : d.step e = some d') : d.effort < d'.effort := by
  obtain ⟨hout, hm⟩ := moves_of_step h.coherent h.closed hstep
  cases hm with
  | trip htrip => simp [effort, htrip]
  | starts hs =>
    simp only [effort, withState, hs.delivered, List.length_append, List.length_singleton]
    omega
  | cancels _ _ hs | ends _ hs =>
    have := hs.delivered_lt
    simp only [effort, withState]
    omega
  | close => simp [effort, hout]

/-- Every event costs effort, so the effort bounds the length of a sequence. -/
theorem length_le_effort (h : Sound p d) (hd : d.follow events = some d') :
    events.length + d.effort ≤ d'.effort := by
  induction events generalizing d with
  | nil =>
    cases hd
    simp
  | cons e rest ih =>
    obtain ⟨next, hs, hrest⟩ := follow_cons.mp hd
    have := h.effort_lt hs
    have := ih (h.step hs) hrest
    rw [List.length_cons]
    omega

/-- **The loop is never stuck**: unless it has ended it takes a stage, ends, or hears of any stage in
    flight, whatever becomes of that. -/
theorem progress (h : Sound p d) (hout : d.outcome = none) :
    (d.step .take).isSome ∨ (d.step .close).isSome ∨
      d.inFlight ≠ [] ∧ ∀ i ∈ d.inFlight, ∀ ending, (d.step (.finish i ending)).isSome := by
  cases hnext : d.next? with
  | some n =>
    refine Or.inl ?_
    simp [Dispatch.step, hout, hnext]
  | none =>
    refine Or.inr ?_
    cases hrun : d.state.running with
    | nil =>
      -- every worker is free, so nothing is ready
      refine Or.inl ?_
      have hworkers : 0 < d.workers := by
        -- there is at least one worker
        rw [h.workers, PipelineConfig.workers]
        omega
      have hready : d.state.queue.ready = [] := by
        rcases Execution.takeNext_eq_none_iff.mp hnext with hfull | hready
        · rw [hrun, List.length_nil] at hfull
          omega
        · exact hready
      simp [Dispatch.step, hout, hnext, Execution.isDone, hrun, hready]
    | cons i rest =>
      refine Or.inr ⟨?_, fun j hj ending => ?_⟩
      · have : i ∈ d.inFlight := h.mem_inFlight.mpr (hrun ▸ List.mem_cons_self ..)
        exact List.ne_nil_of_mem this
      -- a stage that runs may end in any way
      · have := h.mem_inFlight.mp hj
        simp [Dispatch.step, hout, hnext, this]

/-- **The loop comes to its end**, whatever becomes of each stage. -/
theorem completes (h : Sound p d) (answer : Nat → Except String StageResult) :
    ∃ more last, d.follow more = some last ∧ last.outcome.isSome ∧
      ∀ i ending, .finish i ending ∈ more → ending = answer i := by
  -- by how much there is still to do
  induction hk : 2 * p.plan.names.length + 2 - d.effort using Nat.strongRecOn generalizing d with
  | ind k ih =>
    cases hout : d.outcome with
    | some o => exact ⟨[], d, rfl, by rw [hout]; rfl, by simp⟩
    | none =>
      -- whichever of the three goes on, a stage that ends does so with its answer
      have hstep : ∃ e d', d.step e = some d' ∧ ∀ i ending, e = .finish i ending → ending = answer i := by
        rcases h.progress hout with ht | hc | ⟨hne, hf⟩
        · obtain ⟨d', hd'⟩ := Option.isSome_iff_exists.mp ht
          exact ⟨.take, d', hd', fun _ _ he => by cases he⟩
        · obtain ⟨d', hd'⟩ := Option.isSome_iff_exists.mp hc
          exact ⟨.close, d', hd', fun _ _ he => by cases he⟩
        · obtain ⟨i, hi⟩ := List.exists_mem_of_ne_nil _ hne
          obtain ⟨d', hd'⟩ := Option.isSome_iff_exists.mp (hf i hi (answer i))
          refine ⟨.finish i (answer i), d', hd', fun j ending he => ?_⟩
          cases he
          rfl
      obtain ⟨e, d', hs, he⟩ := hstep
      have hlt := h.effort_lt hs
      have hle := (h.step hs).effort_le
      obtain ⟨more, last, hmore, hlast, hanswer⟩ := ih _ (by omega) (h.step hs) rfl
      refine ⟨e :: more, last, follow_cons.mpr ⟨d', hs, hmore⟩, hlast, fun i ending hm => ?_⟩
      rcases List.mem_cons.mp hm with hm | hm
      · exact he i ending hm.symm
      · exact hanswer i ending hm

/-- A stage that ends has the result that it ended with. -/
theorem result?_finish (h : Sound p d) {i : Nat} {ending : Except String StageResult}
    (hs : d.step (.finish i ending) = some d') :
    d'.state.result? i = some (p.plan.resultOf i ending) := by
  obtain ⟨-, -, hrun, rfl⟩ := step_cases hs
  rw [← h.plan]
  exact (Execution.settle_spec h.coherent h.closed hrun _).2.2.result?_self h.coherent.results_length

/-- What listeners were told at the end. -/
theorem told_complete (h : Sound p d) {o : PipelineOutcome} (ho : d.outcome = some o) :
    ∃ settled : List Nat, settled.Perm (List.range p.plan.names.length) ∧
      d.told = (settled.filterMap d.state.result?).map .stage ++ [.pipeline o] := by
  obtain ⟨settled, hnd, hmem, hdel⟩ := h.coherent.told
  refine ⟨settled, (List.perm_ext_iff_of_nodup hnd List.nodup_range).mpr fun i => ?_, ?_⟩
  · rw [hmem, List.mem_range, ← h.plan]
    exact ⟨h.coherent.lt_of_result?, h.coherent.all_settled h.closed (h.ended o ho).1 i⟩
  · rw [h.told, ho, hdel]
    rfl

end Sound

/-! ## The main result

  What the loop owes at any moment and at its end, and the theorem.  The loop of the fork is run to its end with one
  stage that breaks off. -/

/-- What stands when the run of `p`, made for the stages `specs`, has ended in the state `d` with the outcome `o`. -/
structure EndedWith (specs : List StageSpec) (p : Pipeline) (d : Dispatch) (o : PipelineOutcome) : Prop where
  all_settled : ∀ i < specs.length, (d.state.result? i).isSome
  /-- The outcome has one result for each stage, in the order of the plan. -/
  order_perm : p.plan.order.Perm (List.range specs.length)
  results : o.results.map some = p.plan.order.map d.state.result?
  /-- Listeners were told of each stage once, and of the outcome once and last. -/
  told : ∃ settled : List Nat, settled.Perm (List.range specs.length) ∧
    d.told = (settled.filterMap d.state.result?).map .stage ++ [.pipeline o]
  done : ∀ e, d.step e = none

/-- What the loop that runs `p`, made for the stages `specs`, owes at a state `d` that it has come to after `events`. -/
structure Completes (specs : List StageSpec) (p : Pipeline) (events : List Event) (d : Dispatch) : Prop where
  /-- There are only so many steps. -/
  bounded : events.length ≤ 2 * specs.length + 2
  /-- Until the end there is a next one: the loop can take a stage or close, or it waits for stages that run. -/
  progress : d.outcome = none → (d.step .take).isSome ∨ (d.step .close).isSome ∨
    d.inFlight ≠ [] ∧ ∀ i ∈ d.inFlight, ∀ ending, (d.step (.finish i ending)).isSome
  /-- Whatever stages will answer, the loop can be brought to its end with these answers. -/
  completes : ∀ answer : Nat → Except String StageResult, ∃ more last, d.follow more = some last ∧
    last.outcome.isSome ∧ ∀ i ending, .finish i ending ∈ more → ending = answer i
  started_once : (d.started.map Prod.fst).Nodup
  /-- A stage that ends has the result that it ended with, and if that is a success, the counters of the stages that
      wait for it are taken down by one, none of them below zero. -/
  finished : ∀ i ending d', d.step (.finish i ending) = some d' →
    d'.state.result? i = some (p.plan.resultOf i ending) ∧
    ((p.plan.resultOf i ending).isSuccess = true →
      (p.plan.dependentsOf i).foldlM (Countdown.release? (positionOf p.plan)) d.state.queue = some d'.state.queue)
  ended : ∀ o, d.outcome = some o → EndedWith specs p d o

/-- **The loop ends, and it ends with one result for each stage.**  For every number of workers, in
    whatever order stages end, with whatever results, and whenever the token is tripped: there are only so
    many steps, and until the end there is always a next one; a stage is started at most once; no counter
    is taken below zero; and at the end each stage was told once, and the outcome once and last. -/
theorem loop_completes {name : String} {specs : List StageSpec} {config : PipelineConfig}
    (hp : Pipeline.build name specs config = .ok p) (hd : (start p).follow events = some d) :
    Completes specs p events d := by
  obtain ⟨h, hdesc⟩ := sound_of_build hp hd
  have hn := hdesc.names_length
  constructor
  case bounded =>
    -- every event costs effort, of which there is only so much
    have := (Sound.start hdesc.toWellFormed).length_le_effort hd
    have := h.effort_le
    omega
  case progress => exact h.progress
  case completes => exact h.completes
  case started_once => exact h.started_nodup
  case finished =>
    intro i ending d' hs
    refine ⟨h.result?_finish hs, fun hr => ?_⟩
    obtain ⟨-, -, hrun, rfl⟩ := step_cases hs
    rw [← h.plan] at hr ⊢
    exact h.coherent.release?_settle hrun hr
  case ended =>
    intro o ho
    obtain ⟨hdone, ho'⟩ := h.ended o ho
    -- at the end every stage of the plan has its result
    have hall := h.coherent.all_settled h.closed hdone
    rw [h.plan, hn] at hall
    have hordered : d.state.orderedResults.map some = d.state.plan.order.map d.state.result? :=
      Execution.orderedResults_eq fun i hi => hall i (by
        rw [h.plan] at hi
        exact hn ▸ hdesc.mem_order.mp hi)
    refine ⟨hall, hn ▸ hdesc.order_perm, ?_, hn ▸ h.told_complete ho, fun e => ?_⟩
    · rw [ho', ← h.plan]
      exact hordered
    · unfold Dispatch.step
      rw [if_pos (by rw [ho]; rfl)]

/-- The fork ends with three results when one of its first stages succeeds and the other breaks off. -/
theorem loop_completes_forked :
    ∃ d o, (start forked).follow [.take, .take, .finish 1 (.ok (.succeeded "b" [] .zero)),
        .finish 0 (.error "broken"), .close] = some d ∧
      d.outcome = some o ∧ o.status = .failed ∧ o.results.map some = [0, 1, 2].map d.state.result? := by
  have hp : Pipeline.build "forked" forked.specs forked.config = .ok forked := rfl
  have hd : (start forked).follow [.take, .take, .finish 1 (.ok (.succeeded "b" [] .zero)),
      .finish 0 (.error "broken"), .close] = some _ := rfl
  exact ⟨_, _, hd, rfl, rfl, ((loop_completes hp hd).ended _ rfl).results⟩

end Dispatch

end Wheelwright
