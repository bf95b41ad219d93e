/-
  Turns — which stage is started next, and when none is.

  **Specification** — while the loop waits, as many stages are in flight as there are workers, or every
  other stage without a result has a predecessor without one.  The stage that is started is the first in
  the order that could be.  One worker starts stages in the order of the plan, and leaves out those of
  which a predecessor did not succeed.

  **Program** — the counters and ready positions of a run, which change with every result.

  **The crux** — when nothing runs, everything in front of the first ready position has a result
  (`Coherent.settled_before`): the first stage in the order without a result waits for nothing any more.
  With one worker nothing runs when a stage is started.
-/
import Mathlib.Data.List.Sort
import Wheelwright.Proofs.Dispatch.Pass

namespace Wheelwright

open Execution (positionOf stageAt)

/-- The order of a plan goes from position to position. -/
theorem Plan.WellFormed.order_sorted {p : Plan} (h : p.WellFormed) :
    p.order.Pairwise fun i j => positionOf p i < positionOf p j := by
  rw [List.pairwise_iff_getElem]
  intro a b ha hb hab
  rw [positionOf, positionOf, h.greedy.nodup.idxOf_getElem a ha, h.greedy.nodup.idxOf_getElem b hb]
  exact hab

/-! ## What is ready

  The ready stages of the program are positions in the order, kept by counters.  They are compared with the stages
  that could be started, which are told by results alone. -/

namespace Execution

variable {x : Execution} {i j k : Nat} {rest : List Nat}

/-- A stage could be started if it is idle and its predecessors are settled. -/
theorem Closed.canStart (hc : x.Closed) (hidle : i ∉ x.running) (hnone : x.result? i = none)
    (hpreds : ∀ j ∈ predsOf x.plan.predecessors i, (x.result? j).isSome) : x.CanStart i := by
  refine ⟨hidle, hnone, ?_⟩
  intro j hj
  rcases succeeded_or_failed (hpreds j hj) with hsucceeded | hfailed
  · exact hsucceeded
  · -- what waits for a failed stage is settled
    have hsome := hc j hfailed i hj
    rw [hnone] at hsome
    cases hsome

namespace Coherent

variable (h : x.Coherent)
include h

/-- A stage that could be started is ready. -/
theorem position_mem_ready (hi : i < x.plan.names.length) (hstart : x.CanStart i) :
    positionOf x.plan i ∈ x.queue.ready := by
  rw [h.mem_ready, h.plan.stageAt_positionOf hi]
  exact ⟨h.plan.positionOf_lt hi, hstart⟩

/-- When nothing is ready, an idle stage without a result has a predecessor without one. -/
theorem exists_unsettled (hc : x.Closed) (hready : x.queue.ready = []) (hi : i < x.plan.names.length)
    (hidle : i ∉ x.running) (hnone : x.result? i = none) :
    ∃ j ∈ predsOf x.plan.predecessors i, x.result? j = none := by
  by_contra hall
  have hstart := hc.canStart hidle hnone fun j hj => by
    by_contra hj'
    exact hall ⟨j, hj, Option.not_isSome_iff_eq_none.mp hj'⟩
  have hmem := h.position_mem_ready hi hstart
  rw [hready] at hmem
  cases hmem

/-- The first ready stage is the first in the order that could be started. -/
theorem first_le (hready : x.queue.ready = k :: rest) (hj : j < x.plan.names.length) (hstart : x.CanStart j) :
    k ≤ positionOf x.plan j := by
  have hmem := h.position_mem_ready hj hstart
  have hsorted := h.sorted
  rw [hready] at hmem hsorted
  rcases List.mem_cons.mp hmem with heq | hrest
  · exact Nat.le_of_eq heq.symm
  · exact Nat.le_of_lt ((List.pairwise_cons.mp hsorted).1 _ hrest)

/-- **When nothing runs, everything in front of the first ready stage has a result.** -/
theorem settled_before (hc : x.Closed) (hrun : x.running = []) (hready : x.queue.ready = k :: rest) :
    ∀ j < x.plan.names.length, positionOf x.plan j < k → (x.result? j).isSome := by
  intro j
  -- along the order of the plan
  induction hm : positionOf x.plan j using Nat.strongRecOn generalizing j with
  | ind m ih =>
    intro hj hlt
    by_contra hnone
    rw [Option.not_isSome_iff_eq_none] at hnone
    -- its predecessors stand before it, so they are settled and it could start
    have hpreds : ∀ q ∈ predsOf x.plan.predecessors j, (x.result? q).isSome := by
      intro q hq
      have hbefore : positionOf x.plan q < m := hm ▸ h.plan.positionOf_lt_of_mem hq
      exact ih _ hbefore q rfl (h.plan.lt j q hq) (Nat.lt_trans hbefore hlt)
    have hstart := hc.canStart (by rw [hrun]; exact List.not_mem_nil) hnone hpreds
    have hle := h.first_le hready hj hstart
    omega

end Coherent

end Execution

namespace Dispatch

variable {p : Pipeline} {d d' : Dispatch} {e : Event} {events : List Event} {specs : List StageSpec} {i j : Nat}

/-- A stage that was not started and has no result, and whose predecessors have all succeeded. -/
def CouldStart (specs : List StageSpec) (d : Dispatch) (i : Nat) : Prop :=
  i < specs.length ∧ ¬ d.HasStarted i ∧ d.state.result? i = none ∧
    ∀ j, Precedes specs j i → d.state.succeeded j = true

/-- A stage that could start is one the loop may take. -/
theorem Sound.canStart (h : Sound p d) (hp : p.plan.Describes specs) (hj : d.CouldStart specs j) :
    j < d.state.plan.names.length ∧ d.state.CanStart j := by
  obtain ⟨hlt, hstarted, hnone, hpreds⟩ := hj
  refine ⟨by rwa [h.plan, hp.names_length], ?_, hnone, ?_⟩
  · intro hrun
    exact hstarted ((h.mem_running j).mp hrun).1
  · intro q hq
    rw [h.plan] at hq
    exact hpreds q (hp.edge_eq ▸ hq)

/-- A step starts at most one stage: the first ready one, while a worker is free. -/
theorem starts_first (h : d.step e = some d') : d'.started.map Prod.fst = d.started.map Prod.fst ∨
    ∃ k rest, d.state.running.length < d.workers ∧ d.state.queue.ready = k :: rest ∧
      d'.started.map Prod.fst = d.started.map Prod.fst ++ [stageAt d.state.plan k] := by
  by_cases he : e = .take
  · subst he
    obtain ⟨-, x, new, hnext, rfl⟩ := step_cases h
    obtain ⟨hfree, k, rest, hready, ⟨reason, z, -, rfl, -⟩ | ⟨-, rfl, -⟩⟩ := Execution.takeNext_cases hnext
    · refine Or.inl ?_
      rw [Option.map_none, Option.toList_none, List.append_nil]
    · exact Or.inr ⟨k, rest, hfree, hready, List.map_append⟩
  · exact Or.inl (by rw [started_eq_of_step h he])

/-- **A stage that is started is the first in the order that could be.** -/
theorem Sound.position_le (h : Sound p d) (hp : p.plan.Describes specs) (hstep : d.step e = some d')
    (hi : d'.HasStarted i) (hnew : ¬ d.HasStarted i) (hj : d.CouldStart specs j) :
    positionOf p.plan i ≤ positionOf p.plan j := by
  rw [HasStarted] at hi hnew
  rcases starts_first hstep with hsame | ⟨k, rest, -, hready, hstarted⟩
  · exact absurd (hsame ▸ hi) hnew
  · rw [hstarted] at hi
    have hlast : i ∈ [stageAt d.state.plan k] := (List.mem_append.mp hi).resolve_left hnew
    have hkready : k ∈ d.state.queue.ready := hready ▸ List.mem_cons_self ..
    have hk := ((h.coherent.mem_ready k).mp hkready).1
    obtain ⟨hjlt, hstart⟩ := h.canStart hp hj
    have hle := h.coherent.first_le hready hjlt hstart
    rw [← h.plan, List.mem_singleton.mp hlast, h.coherent.plan.positionOf_stageAt hk]
    exact hle

/-- **While the loop waits no stage is left idle that could be started**, unless every worker is busy. -/
theorem Sound.busy_or_waiting (h : Sound p d) (hp : p.plan.Describes specs) (hnext : d.next? = none) :
    d.inFlight.length = d.workers ∨ ∀ i < specs.length, i ∉ d.inFlight → d.state.result? i = none →
      ∃ j, Precedes specs j i ∧ d.state.result? j = none := by
  rcases Execution.takeNext_eq_none_iff.mp hnext with hfull | hready
  · refine Or.inl ?_
    rw [h.inFlight_perm.length_eq]
    exact Nat.le_antisymm h.room hfull
  · refine Or.inr fun i hi hidle hnone => ?_
    have hlt : i < d.state.plan.names.length := by rwa [h.plan, hp.names_length]
    obtain ⟨j, hj, hopen⟩ := h.coherent.exists_unsettled h.closed hready hlt
      (fun hrun => hidle (h.mem_inFlight.mpr hrun)) hnone
    rw [h.plan] at hj
    exact ⟨j, hp.edge_eq ▸ hj, hopen⟩

/-! ## One worker

  With one worker nothing runs when the next stage is taken.  Then everything in front of the first ready stage is
  settled, so a stage that is passed over is one that was given up. -/

/-- So far the stages were started in the order of the plan, and in front of each one nothing is open. -/
structure InTurn (d : Dispatch) : Prop where
  sorted : (d.started.map Prod.fst).Pairwise fun i j => positionOf d.state.plan i < positionOf d.state.plan j
  settled : ∀ i, d.HasStarted i → ∀ j < d.state.plan.names.length,
    positionOf d.state.plan j < positionOf d.state.plan i → (d.state.result? j).isSome

namespace InTurn

/-- Every stage started so far stands in front of the first one that could be. -/
theorem position_lt {k : Nat} {rest : List Nat} (ht : d.InTurn) (h : Sound p d) (hrun : d.state.running = [])
    (hready : d.state.queue.ready = k :: rest) (hi : d.HasStarted i) : positionOf d.state.plan i < k := by
  have hkready : k ∈ d.state.queue.ready := hready ▸ List.mem_cons_self ..
  obtain ⟨hk, -, hnone, -⟩ := (h.coherent.mem_ready k).mp hkready
  rcases Nat.lt_trichotomy (positionOf d.state.plan i) k with hlt | heq | hgt
  · exact hlt
  · -- a started stage without a result would be running
    subst heq
    obtain ⟨⟨j, rebuilt⟩, hj, rfl⟩ := List.mem_map.mp hi
    have hlt : j < d.state.plan.names.length := h.plan ▸ (h.started j rebuilt hj).1
    rw [h.coherent.plan.stageAt_positionOf hlt] at hnone
    have hrunning := (h.mem_running j).mpr ⟨hi, hnone⟩
    rw [hrun] at hrunning
    cases hrunning
  -- one behind it would have waited for it
  · have hsome := ht.settled i hi (stageAt d.state.plan k) (h.coherent.plan.stageAt_lt hk)
      (by rwa [h.coherent.plan.positionOf_stageAt hk])
    rw [hnone] at hsome
    cases hsome

/-- **One worker starts the stages in turn.** -/
theorem step (ht : d.InTurn) (h : Sound p d) (hone : d.workers ≤ 1) (hstep : d.step e = some d') : d'.InTurn := by
  have hext := h.extends_step hstep
  -- what is settled stays settled
  have hold : ∀ i, d.HasStarted i → ∀ j < d'.state.plan.names.length,
      positionOf d'.state.plan j < positionOf d'.state.plan i → (d'.state.result? j).isSome := by
    intro i hi j hj hlt
    rw [hext.plan] at hj hlt
    exact hext.isSome (ht.settled i hi j hj hlt)
  rcases starts_first hstep with hsame | ⟨k, rest, hfree, hready, hstarted⟩
  · refine ⟨?_, fun i hi => hold i ?_⟩
    · rw [hsame, hext.plan]
      exact ht.sorted
    · rw [HasStarted, ← hsame]
      exact hi
  -- with one worker, nothing runs when a stage starts
  · have hrun : d.state.running = [] := List.length_eq_zero_iff.mp (by omega)
    have hkready : k ∈ d.state.queue.ready := hready ▸ List.mem_cons_self ..
    have hk := ((h.coherent.mem_ready k).mp hkready).1
    refine ⟨?_, fun i hi j hj hlt => ?_⟩
    · rw [hstarted, hext.plan]
      refine List.pairwise_append.mpr ⟨ht.sorted, List.pairwise_singleton .., ?_⟩
      intro a ha b hb
      rw [List.mem_singleton.mp hb, h.coherent.plan.positionOf_stageAt hk]
      exact ht.position_lt h hrun hready ha
    -- a stage started before keeps its turn; the new one has all before it settled
    · rw [HasStarted, hstarted] at hi
      rcases List.mem_append.mp hi with hi | hi
      · exact hold i hi j hj hlt
      · rw [hext.plan] at hj hlt
        rw [List.mem_singleton.mp hi, h.coherent.plan.positionOf_stageAt hk] at hlt
        exact hext.isSome (h.coherent.settled_before h.closed hrun hready j hj hlt)

/-- The loop starts in turn. -/
theorem start (p : Pipeline) : (Dispatch.start p).InTurn :=
  ⟨List.Pairwise.nil, fun _ hi => absurd hi List.not_mem_nil⟩

/-- With a single worker every step keeps to the turn. -/
theorem follow (ht : d.InTurn) (h : Sound p d) (hone : d.workers ≤ 1) (hd : d.follow events = some d') :
    d'.InTurn := by
  induction events generalizing d with
  | nil =>
    cases hd
    exact ht
  | cons e rest ih =>
    obtain ⟨next, hs, hrest⟩ := follow_cons.mp hd
    have hnext := h.step hs
    exact ih (ht.step h hone hs) hnext (by rw [hnext.workers, ← h.workers]; exact hone) hrest

/-- What was started in turn can be read off the order. -/
theorem started_eq {chosen : Nat → Bool} (ht : d.InTurn) (h : Sound p d)
    (hmem : ∀ i, d.HasStarted i ↔ i ∈ p.plan.order ∧ chosen i = true) :
    d.started.map Prod.fst = p.plan.order.filter chosen := by
  have hplan : p.plan.WellFormed := h.plan ▸ h.coherent.plan
  have hsorted := h.plan ▸ ht.sorted
  have hperm : (d.started.map Prod.fst).Perm (p.plan.order.filter chosen) :=
    (List.perm_ext_iff_of_nodup h.started_nodup (hplan.greedy.nodup.filter _)).mpr fun i => by
      rw [List.mem_filter]
      exact hmem i
  exact List.Perm.eq_of_pairwise (fun i j _ _ hij hji => absurd hij (Nat.lt_asymm hji)) hsorted
    (hplan.order_sorted.filter _) hperm

end InTurn

/-- A stage that was started stands in the order. -/
theorem Sound.mem_order (h : Sound p d) (hi : d.HasStarted i) : i ∈ p.plan.order := by
  obtain ⟨⟨j, rebuilt⟩, hj, rfl⟩ := List.mem_map.mp hi
  have hplan : p.plan.WellFormed := h.plan ▸ h.coherent.plan
  exact hplan.mem_order.mpr (h.started j rebuilt hj).1

/-- Without a trip a stage with a result was started, or given up for a predecessor that did not succeed. -/
theorem Sound.started_or_givenUp (h : Sound p d) (htrip : d.tripped = none) {r : StageResult}
    (hr : d.state.result? i = some r) : d.HasStarted i ∨ d.state.GivenUp i r := by
  rcases h.origin i r hr with hstarted | hgiven | ⟨reason, htripped, -⟩
  · exact Or.inl hstarted
  · exact Or.inr hgiven
  · rw [htrip] at htripped
    cases htripped

/-- At the end of a run without a trip, what was started is what had all its predecessors succeed. -/
theorem Sound.hasStarted_iff (h : Sound p d) (htrip : d.tripped = none) {o : PipelineOutcome}
    (ho : d.outcome = some o) (i : Nat) : d.HasStarted i ↔
      i ∈ p.plan.order ∧ (predsOf p.plan.predecessors i).all d.state.succeeded = true := by
  have hplan : p.plan.WellFormed := h.plan ▸ h.coherent.plan
  rw [List.all_eq_true, ← h.plan]
  constructor
  -- one that started waited for its predecessors
  · intro hi
    refine ⟨h.plan ▸ h.mem_order hi, ?_⟩
    obtain ⟨⟨j, rebuilt⟩, hj, rfl⟩ := List.mem_map.mp hi
    exact (h.started j rebuilt hj).2.1
  -- one whose predecessors succeeded was not given up
  · rintro ⟨hi, hall⟩
    rw [h.plan, hplan.mem_order] at hi
    obtain ⟨r, hr⟩ := Option.isSome_iff_exists.mp (h.settled_of_outcome ho i hi)
    refine (h.started_or_givenUp htrip hr).resolve_right ?_
    rintro ⟨q, hq, hfailed, -⟩
    have hsucceeded := hall q hq
    rw [hfailed.not_succeeded] at hsucceeded
    cases hsucceeded

/-! ## The main result

  For any number of workers, and for one. -/

/-- **No stage that could be started is left idle, and stages are started in turn.**  While the loop waits
    for a stage, every worker is busy or every other open stage has an open predecessor; what is started
    stands in front of all else that could be started; and one worker that is not tripped starts the stages
    in the order of the plan, at the end all but those that were given up. -/
theorem stages_start_in_turn {name : String} {config : PipelineConfig}
    (hp : Pipeline.build name specs config = .ok p) (hd : (start p).follow events = some d) :
    (d.outcome = none → d.next? = none → d.inFlight ≠ [] → d.inFlight.length = config.workers ∨
      ∀ i < specs.length, i ∉ d.inFlight → d.state.result? i = none →
        ∃ j, Precedes specs j i ∧ d.state.result? j = none) ∧
    (∀ e d' i, d.step e = some d' → d'.HasStarted i → ¬ d.HasStarted i →
      ∀ j, d.CouldStart specs j → positionOf p.plan i ≤ positionOf p.plan j) ∧
    (config.maxWorkers ≤ 1 → (∀ reason, .trip reason ∉ events) →
      (d.started.map Prod.fst).Sublist p.plan.order ∧
      ∀ o, d.outcome = some o →
        d.started.map Prod.fst =
          p.plan.order.filter (fun i => (predsOf p.plan.predecessors i).all d.state.succeeded) ∧
        ∀ i < specs.length, ¬ d.HasStarted i → ∃ r, d.state.result? i = some r ∧ d.state.GivenUp i r) := by
  obtain ⟨h, hdesc⟩ := sound_of_build hp hd
  have hconfig : p.config = config := (plan_of_build hp).2
  refine ⟨?_, ?_, ?_⟩
  · intro _ hnext _
    rw [← hconfig, ← h.workers]
    exact h.busy_or_waiting hdesc hnext
  · intro e d' i hstep hi hnew j hj
    exact h.position_le hdesc hstep hi hnew hj
  · intro hone hquiet
    -- the one worker that was asked for
    have hworkers : (start p).workers ≤ 1 := by
      show p.config.workers ≤ 1
      rw [hconfig, PipelineConfig.workers]
      omega
    have ht : d.InTurn := (InTurn.start p).follow (Sound.start hdesc.toWellFormed) hworkers hd
    have htrip : d.tripped = none := tripped_of_follow hd hquiet
    refine ⟨?_, fun o ho => ⟨ht.started_eq h (h.hasStarted_iff htrip ho), fun i hi hnot => ?_⟩⟩
    · have hmem : ∀ i, d.HasStarted i ↔
          i ∈ p.plan.order ∧ (d.started.map Prod.fst).contains i = true := fun i => by
        rw [List.contains_iff_mem]
        exact ⟨fun hi => ⟨h.mem_order hi, hi⟩, And.right⟩
      -- what is started follows the order, as no stage is passed over
      rw [ht.started_eq h hmem]
      exact List.filter_sublist
    · obtain ⟨r, hr⟩ := Option.isSome_iff_exists.mp
        (h.settled_of_outcome ho i (hdesc.names_length.symm ▸ hi))
      exact ⟨r, hr, (h.started_or_givenUp htrip hr).resolve_left hnot⟩

/-- One worker starts the first two stages of the fork in turn, and gives up the third one. -/
theorem stages_start_in_turn_forked : ∃ events d o,
    (start { forked with config := {} }).follow events = some d ∧ d.outcome = some o ∧
    d.started.map Prod.fst = [0, 1, 2].filter (fun i => ([[], [], [0, 1]].getD i []).all d.state.succeeded) ∧
    d.started.map Prod.fst = [0, 1] := by
  have hp : Pipeline.build "forked" forked.specs {} = .ok { forked with config := {} } := rfl
  have hd : (start { forked with config := {} }).follow
      [.take, .finish 0 (.error "broken"), .take, .finish 1 (.ok (.fresh "b" .zero)), .close] = some _ := rfl
  obtain ⟨-, -, hone⟩ := stages_start_in_turn hp hd
  obtain ⟨-, hend⟩ := hone (Nat.le_refl _) (by simp)
  exact ⟨_, _, _, hd, rfl, (hend _ rfl).1, rfl⟩

end Dispatch

end Wheelwright
