/-
  Coherence — the book-keeping of a run never drifts from its results.

  **Specification** — `Coherent x`: the counters of `x` count predecessors that have not succeeded; a
  position is ready exactly if its stage is idle, has no result and all its predecessors have succeeded;
  what runs has no result and all its predecessors have succeeded; every result was told once.
  `Closed x`: whatever waits for a stage that did not succeed has a result.

  **The crux** — a stage can get a result in three ways: its own run ends, a predecessor fails, the run is
  cancelled.  As long as it is no success they all have the same effect (`Coherent.noteFailure`).  A
  success releases the dependents, and a dependent that was given up before still counts the predecessor
  that it was given up for; so it can never become ready again (`Coherent.noteSuccess`).
-/
import Wheelwright.Proofs.Execution.Settling

namespace Wheelwright.Execution

variable {x y : Execution} {i j : Nat} {r : StageResult}

/-- The stage is idle and could be started. -/
def CanStart (x : Execution) (i : Nat) : Prop :=
  i ∉ x.running ∧ x.result? i = none ∧ x.AllSucceeded i

/-- A direct predecessor of the stage has a result, but not a success. -/
def PredecessorFailed (x : Execution) (i : Nat) : Prop :=
  ∃ q ∈ predsOf x.plan.predecessors i, x.Failed q

/-- The results were told one after the other, each once. -/
def Told (x : Execution) : Prop :=
  ∃ settled : List Nat, settled.Nodup ∧ (∀ i, i ∈ settled ↔ (x.result? i).isSome) ∧
    x.delivered = settled.filterMap x.result?

/-- The book-keeping follows from the results. -/
structure Coherent (x : Execution) : Prop where
  /-- Plan and results have the size of each other. -/
  plan : x.plan.WellFormed
  results_length : x.results.length = x.plan.names.length
  /-- The queue counts the predecessors that have not succeeded. -/
  tracks : x.queue.Tracks x.plan.predecessors x.succeeded
  /-- Its ready places are in order and are those of the stages that can start. -/
  sorted : x.queue.ready.Pairwise (· < ·)
  mem_ready : ∀ k, k ∈ x.queue.ready ↔ k < x.plan.names.length ∧ x.CanStart (stageAt x.plan k)
  /-- What runs has no result, and all that it waits for has succeeded. -/
  running_nodup : x.running.Nodup
  running : ∀ i ∈ x.running, i < x.plan.names.length ∧ x.result? i = none ∧ x.AllSucceeded i
  /-- What is settled had all its predecessors succeed, or failed along with one of them. -/
  settled : ∀ i, (x.result? i).isSome → x.AllSucceeded i ∨ x.Failed i ∧ x.PredecessorFailed i
  told : x.Told

/-- Whatever waits for a stage that did not succeed has a result. -/
def Closed (x : Execution) : Prop := ∀ j, x.Failed j → x.DependentsSettled j

/-! ## The start

  Nothing has a result, so the counters are the numbers of predecessors, and ready are the stages that have none. -/

/-- At the start no stage has a result. -/
theorem result?_start (p : Plan) (i : Nat) : (start p).result? i = none := by
  rw [result?, start, List.getElem?_map]
  cases p.names[i]? <;> rfl

/-- The execution is coherent as it starts. -/
theorem coherent_start {p : Plan} (hp : p.WellFormed) : Coherent (start p) := by
  have hsucc : ∀ i, (start p).succeeded i = false := fun i => succeeded_of_none (result?_start p i)
  refine ⟨hp, by simp [start], (Countdown.tracks_start _ _).congr rfl hsucc, sorted_start _, fun k => ?_,
    List.nodup_nil, by simp [start], fun i hi => ?_, [], List.nodup_nil, fun i => ?_, rfl⟩
  -- the queue starts with the stages that wait for nothing
  · show k ∈ (Countdown.start p.predecessors (stageAt p)).ready ↔ k < p.names.length ∧ _
    rw [mem_ready_start, hp.length]
    refine and_congr_right fun _ => ⟨fun h => ⟨List.not_mem_nil, result?_start p _, ?_⟩, ?_⟩
    · intro j hj
      rw [show (start p).plan = p from rfl, h] at hj
      exact absurd hj List.not_mem_nil
    · rintro ⟨-, -, hall⟩
      rw [List.eq_nil_iff_forall_not_mem]
      intro j hj
      have := hall j hj
      rw [hsucc] at this
      cases this
  · rw [result?_start] at hi
    cases hi
  · rw [result?_start]
    simp

/-- And it is closed, as nothing has failed. -/
theorem closed_start (p : Plan) : Closed (start p) := by
  intro j hj
  have := hj.isSome
  rw [result?_start] at this
  cases this

/-! ## What a new result changes

  Two cases are enough for all the ways in which a stage can get a result, one for results that are no success and one
  for successes.  In the first nothing has to be done for the queue, since whatever waits for the stage can never
  become ready.  In the second the dependents are counted down, and ready is what has just come to zero. -/

namespace Noted

variable (hy : Noted x y i r) (hi : i < x.results.length) (hnone : x.result? i = none)
include hy hi hnone

/-- A stage has succeeded if it had before, or has just done so. -/
theorem succeeded_eq (j : Nat) : y.succeeded j = (x.succeeded j || (j == i && r.isSuccess)) := by
  by_cases hj : j = i
  · subst hj
    rw [succeeded, succeeded, hy.result?_self hi, hnone]
    simp
  · rw [succeeded, succeeded, hy.result?_of_ne hj]
    simp [hj]

/-- A new result is told after the others. -/
theorem told_append {settled : List Nat} (hnd : settled.Nodup) (hmem : ∀ j, j ∈ settled ↔ (x.result? j).isSome)
    (hdel : x.delivered = settled.filterMap x.result?) :
    (settled ++ [i]).Nodup ∧ (∀ j, j ∈ settled ++ [i] ↔ (y.result? j).isSome) ∧
      y.delivered = (settled ++ [i]).filterMap y.result? := by
  -- the stage is new among the settled ones
  have hnot : i ∉ settled := by
    rw [hmem, hnone]
    simp
  refine ⟨?_, fun j => ?_, ?_⟩
  · exact List.nodup_append_comm.mpr (List.nodup_cons.mpr ⟨hnot, hnd⟩)
  · rw [List.mem_append, List.mem_singleton]
    by_cases hji : j = i
    · subst hji
      rw [hy.result?_self hi]
      simp
    · rw [hy.result?_of_ne hji, hmem]
      simp [hji]
  · rw [hy.delivered, hdel, List.filterMap_append]
    congr 1
    · refine List.filterMap_congr fun j hj => ?_
      rw [hy.result?_of_ne]
      rintro rfl
      exact hnot hj
    · rw [List.filterMap_cons, hy.result?_self hi]
      rfl

/-- A new result is told as well. -/
theorem told (h : x.Told) : y.Told := by
  obtain ⟨settled, hnd, hmem, hdel⟩ := h
  exact ⟨settled ++ [i], hy.told_append hi hnone hnd hmem hdel⟩

end Noted

/-- A failed predecessor stays failed. -/
theorem Extends.predecessorFailed (h : Extends x y) (hi : x.PredecessorFailed i) :
    y.PredecessorFailed i := by
  obtain ⟨q, hqi, hq⟩ := hi
  exact ⟨q, h.plan ▸ hqi, h.failed hq⟩

/-- With a failed predecessor not all of them have succeeded. -/
theorem PredecessorFailed.not_allSucceeded (h : x.PredecessorFailed i) : ¬ x.AllSucceeded i := by
  obtain ⟨q, hqi, hq⟩ := h
  intro hall
  have := hall q hqi
  rw [hq.not_succeeded] at this
  cases this

namespace Coherent

/-- Only stages of the plan have results. -/
theorem lt_of_result? (h : x.Coherent) (hr : (x.result? i).isSome) : i < x.plan.names.length := by
  rw [← h.results_length]
  rcases Nat.lt_or_ge i x.results.length with hi | hi
  · exact hi
  · rw [result?, List.getElem?_eq_none hi] at hr
    cases hr

/-- Nothing has to be taken off the ready stages for one that cannot start. -/
theorem ready_without (h : x.Coherent) (hi : i < x.plan.names.length) (hnot : ¬ x.CanStart i) (k : Nat) :
    k ∈ x.queue.ready ↔ k ∈ x.queue.ready ∧ k ≠ positionOf x.plan i := by
  refine ⟨fun hk => ⟨hk, ?_⟩, fun hk => hk.1⟩
  rintro rfl
  have hstart := ((h.mem_ready _).mp hk).2
  rw [h.plan.stageAt_positionOf hi] at hstart
  exact hnot hstart

section Noting

variable (h : x.Coherent) (hy : Noted x y i r) (hi : i < x.plan.names.length)
  (hnone : x.result? i = none) (hrunning : y.running = x.running.erase i)
include h hy hi hnone hrunning

/-- Whatever the new result is, nothing but the queue has to be looked at. -/
theorem noted (hcause : x.AllSucceeded i ∨ r.isSuccess = false ∧ x.PredecessorFailed i)
    (htracks : y.queue.Tracks x.plan.predecessors y.succeeded)
    (hsorted : y.queue.ready.Pairwise (· < ·))
    (hready : ∀ k, k ∈ y.queue.ready ↔ k < x.plan.names.length ∧ y.CanStart (stageAt x.plan k)) :
    y.Coherent := by
  have hlen : i < x.results.length := h.results_length ▸ hi
  have hext := Extends.of_noted hy hnone
  -- stages other than the noted one keep what they had
  refine ⟨hy.plan ▸ h.plan, ?_, hy.plan ▸ htracks, hsorted, fun k => ?_, ?_, fun j hj => ?_,
    fun j hj => ?_, hy.told hlen hnone h.told⟩
  · rw [hext.results_length, hext.plan, h.results_length]
  · rw [hy.plan]
    exact hready k
  · rw [hrunning]
    exact h.running_nodup.erase i
  · rw [hrunning, h.running_nodup.mem_erase_iff] at hj
    obtain ⟨hlt, hres, hall⟩ := h.running j hj.2
    exact ⟨hy.plan ▸ hlt, by rw [hy.result?_of_ne hj.1, hres], hext.allSucceeded hall⟩
  · by_cases hji : j = i
    · subst hji
      rcases hcause with hall | ⟨hr, hq⟩
      · exact Or.inl (hext.allSucceeded hall)
      · exact Or.inr ⟨⟨r, hy.result?_self hlen, hr⟩, hext.predecessorFailed hq⟩
    · rw [hy.result?_of_ne hji] at hj
      rcases h.settled j hj with hall | ⟨hf, hq⟩
      · exact Or.inl (hext.allSucceeded hall)
      · exact Or.inr ⟨hext.failed hf, hext.predecessorFailed hq⟩

/-- **A result that is no success changes nothing for other stages**: whether the stage ran, was ready or
    waited for a failed one, the book-keeping is right once it is off the ready and running ones. -/
theorem noteFailure (hr : r.isSuccess = false) (hcause : x.AllSucceeded i ∨ x.PredecessorFailed i)
    (hleft : y.queue.left = x.queue.left) (hsorted : y.queue.ready.Pairwise (· < ·))
    (hready : ∀ k, k ∈ y.queue.ready ↔ k ∈ x.queue.ready ∧ k ≠ positionOf x.plan i) : y.Coherent := by
  have hlen : i < x.results.length := h.results_length ▸ hi
  -- a failure succeeds nothing, so the counters stay
  have hsucc : ∀ j, y.succeeded j = x.succeeded j := by
    intro j
    rw [hy.succeeded_eq hlen hnone, hr, Bool.and_false, Bool.or_false]
  refine h.noted hy hi hnone hrunning (hcause.imp_right fun hq => ⟨hr, hq⟩) ?_ hsorted fun k => ?_
  · exact h.tracks.congr hleft hsucc
  · rw [hready, h.mem_ready, and_assoc]
    refine and_congr_right fun hk => ?_
    rw [h.plan.ne_positionOf_iff hk hi, CanStart, CanStart, hrunning, allSucceeded_congr hy.plan hsucc]
    constructor
    · rintro ⟨⟨hidle, hres, hpreds⟩, hne⟩
      exact ⟨fun hm => hidle (List.mem_of_mem_erase hm), by rw [hy.result?_of_ne hne, hres], hpreds⟩
    · rintro ⟨hidle, hres, hpreds⟩
      have hne : stageAt x.plan k ≠ i := by
        intro heq
        rw [heq, hy.result?_self hlen] at hres
        cases hres
      exact ⟨⟨fun hm => hidle ((List.mem_erase_of_ne hne).mpr hm), by
        rw [← hy.result?_of_ne hne, hres], hpreds⟩, hne⟩

/-- **A success makes ready what waited for it last**, and nothing that has a result. -/
theorem noteSuccess (hrun : i ∈ x.running) (hr : r.isSuccess = true)
    (hqueue : y.queue = (dependentsIn x.plan.predecessors i).foldl
      (Countdown.release (positionOf x.plan)) x.queue) : y.Coherent := by
  have hlen : i < x.results.length := h.results_length ▸ hi
  have hext := Extends.of_noted hy hnone
  have hnot : x.succeeded i = false := succeeded_of_none hnone
  -- the one new success is the noted stage
  have hdone : ∀ j, y.succeeded j = (x.succeeded j || j == i) := by
    intro j
    rw [hy.succeeded_eq hlen hnone, hr, Bool.and_true]
  refine h.noted hy hi hnone hrunning (Or.inl (h.running i hrun).2.2) ?_ ?_ fun k => ?_
  · rw [hqueue]
    exact h.tracks.release h.plan.nodup hnot hdone
  · rw [hqueue]
    exact Countdown.sorted_foldl_release _ _ h.sorted
  rw [hqueue, h.tracks.mem_ready_release h.plan.nodup hnot hdone, h.mem_ready]
  -- what waits for `i` was not startable before
  have hwaits : ∀ d, i ∈ predsOf x.plan.predecessors d → ¬ x.AllSucceeded d := by
    intro d hd hall
    have := hall i hd
    rw [hnot] at this
    cases this
  constructor
  -- ready before, or its last open predecessor was this stage
  · rintro (⟨hk, hidle, hres, hall⟩ | ⟨d, hd, rfl, hall⟩)
    · have hne : stageAt x.plan k ≠ i := by
        rintro heq
        exact hidle (heq ▸ hrun)
      refine ⟨hk, fun hm => ?_, by rw [hy.result?_of_ne hne, hres], hext.allSucceeded hall⟩
      rw [hrunning] at hm
      exact hidle (List.mem_of_mem_erase hm)
    · have hlt := h.plan.lt_of_mem_predsOf hd
      rw [h.plan.stageAt_positionOf hlt]
      refine ⟨h.plan.positionOf_lt hlt, fun hm => ?_, ?_, by rwa [AllSucceeded, hy.plan]⟩
      · rw [hrunning] at hm
        exact hwaits d hd (h.running d (List.mem_of_mem_erase hm)).2.2
      · have hne : d ≠ i := by
          rintro rfl
          exact absurd (h.plan.positionOf_lt_of_mem hd) (Nat.lt_irrefl _)
        rw [hy.result?_of_ne hne]
        by_contra hres
        rcases h.settled d (Option.isSome_iff_ne_none.mpr hres) with hold | ⟨-, q, hq, hf⟩
        · exact hwaits d hd hold
        · -- it was given up for `q`, which never succeeds
          have := hall q hq
          rw [(hext.failed hf).not_succeeded] at this
          cases this
  · rintro ⟨hk, hidle, hres, hall⟩
    rw [AllSucceeded, hy.plan] at hall
    by_cases hd : i ∈ predsOf x.plan.predecessors (stageAt x.plan k)
    · exact Or.inr ⟨stageAt x.plan k, hd, h.plan.positionOf_stageAt hk, hall⟩
    · have hne : stageAt x.plan k ≠ i := by
        intro heq
        rw [heq, hy.result?_self hlen] at hres
        cases hres
      refine Or.inl ⟨hk, fun hm => hidle ?_, by rw [← hy.result?_of_ne hne, hres], fun j hj => ?_⟩
      · rw [hrunning]
        exact (List.mem_erase_of_ne hne).mpr hm
      · have hji : j ≠ i := by
          rintro rfl
          exact hd hj
        simpa [hdone, hji] using hall j hj

end Noting

end Coherent

end Wheelwright.Execution
