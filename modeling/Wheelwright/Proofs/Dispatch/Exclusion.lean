/-
  Exclusion — stages that run at the same time do not get into each other's way.

  **Specification** — at any time the stages in flight are no more than there are workers, none of two
  waits for the other, and none writes where another one writes.  Before a stage is started, everything
  that it waits for, directly or not, has succeeded.

  **The crux** — nothing looks at targets while the loop runs; `plan` did.  What it promises holds of
  unrelated stages only.  A stage in flight has no result, but everything that one in flight waits for has
  (`Coherent.succeeded_of_dependsOn`); so two stages in flight are unrelated.
-/
import Wheelwright.Proofs.Dispatch.Soundness

namespace Wheelwright

/-! ## Everything below a started stage has succeeded

  A stage is started when its direct predecessors have succeeded, and each of those was started in the same way.  So
  by induction along dependencies everything upstream has succeeded, and none of it is in flight any more. -/

namespace Execution.Coherent

variable {x : Execution} {i j : Nat} (h : x.Coherent)
include h

/-- Only a stage whose predecessors all succeeded can have succeeded. -/
theorem allSucceeded_of_succeeded (hi : x.succeeded i = true) : x.AllSucceeded i := by
  obtain ⟨r, hr, -⟩ := succeeded_iff.mp hi
  rcases h.settled i (by rw [hr]; rfl) with hall | ⟨hfail, -⟩
  · exact hall
  · rw [hfail.not_succeeded] at hi
    cases hi

/-- Success goes down along dependencies. -/
theorem succeeded_of_dependsOn (hdep : Relation.TransGen (Edge x.plan.predecessors) j i) :
    x.AllSucceeded i → x.succeeded j = true := by
  -- from the last dependency down: what succeeded had only successes before it
  induction hdep with
  | single hj => exact fun hall => hall j hj
  | tail _ hm ih => exact fun hall => ih (h.allSucceeded_of_succeeded (hall _ hm))

end Execution.Coherent

namespace Dispatch

variable {p : Pipeline} {d d' : Dispatch} {e : Event} {specs : List StageSpec} {i j : Nat}

namespace Sound

variable (h : Sound p d) (hp : p.plan.Describes specs)
include h hp

/-- A stage whose predecessors have all succeeded has only succeeded ones upstream. -/
theorem succeeded_of_dependsOn (hi : d.state.AllSucceeded i) (hij : DependsOn specs i j) :
    d.state.succeeded j = true := by
  refine h.coherent.succeeded_of_dependsOn ?_ hi
  rw [h.plan, hp.edge_eq]
  exact hij

/-- A stage in flight does not wait for another one in flight. -/
theorem not_dependsOn_of_inFlight (hi : i ∈ d.inFlight) (hj : j ∈ d.inFlight) : ¬ DependsOn specs i j := by
  intro hij
  -- `i` was allowed to start, so `j` would have succeeded; but `j` has no result yet
  have hall := (h.coherent.running i (h.mem_inFlight.mp hi)).2.2
  have hnone := (h.coherent.running j (h.mem_inFlight.mp hj)).2.1
  obtain ⟨r, hr, -⟩ := Execution.succeeded_iff.mp (h.succeeded_of_dependsOn hp hall hij)
  rw [hnone] at hr
  cases hr

end Sound

/-! ## The main result

  Together with the plan's promise that unrelated stages have disjoint targets. -/

/-- **Stages in flight are unrelated, few enough, and write to different places; and a stage is started
    after all that it waits for has succeeded** — after any steps of the loop, in whatever order stages
    end, with whatever results, and whenever the token is tripped. -/
theorem inFlight_exclusive {name : String} {config : PipelineConfig} {events : List Event}
    (hp : Pipeline.build name specs config = .ok p) (hd : (start p).follow events = some d) :
    d.inFlight.Pairwise (Unrelated specs) ∧
    d.inFlight.length ≤ config.workers ∧
    d.inFlight.Pairwise (fun i j => ∀ s t, specs[i]? = some s → specs[j]? = some t → ¬ TargetsOverlap s t) ∧
    ∀ e d', d.step e = some d' → ∀ i, d'.HasStarted i → ¬ d.HasStarted i →
      ∀ j, DependsOn specs i j → ∃ r, d.state.result? j = some r ∧ r.status = .succeeded := by
  obtain ⟨h, hdesc⟩ := sound_of_build hp hd
  obtain ⟨hplan, rfl⟩ := plan_of_build hp
  obtain ⟨-, -, -, -, hapart⟩ := describes_of_plan hplan
  have hnd : d.inFlight.Nodup := h.started_nodup.filter _
  -- no stage in flight is upstream of another, as all that is upstream has succeeded
  have hunrelated : ∀ i ∈ d.inFlight, ∀ j ∈ d.inFlight, Unrelated specs i j := fun i hi j hj =>
    ⟨h.not_dependsOn_of_inFlight hdesc hi hj, h.not_dependsOn_of_inFlight hdesc hj hi⟩
  refine ⟨?_, ?_, ?_, fun e d' hs i hi hnew j hij => ?_⟩
  · exact List.pairwise_of_forall_mem_list hunrelated
  · rw [h.inFlight_perm.length_eq, ← h.workers]
    exact h.room
  -- stages that are unrelated have disjoint targets
  · refine hnd.pairwise_of_forall_ne fun i hi j hj hij s t hs ht => ?_
    exact hapart i j s t hij hs ht (hunrelated i hi j hj)
  -- what a stage waits for has succeeded when it starts, and so has all that is upstream of that
  · obtain ⟨r, hr, hsuccess⟩ := Execution.succeeded_iff.mp
      (h.succeeded_of_dependsOn hdesc (h.canStart_of_step hs hi hnew).2.2 hij)
    exact ⟨r, hr, by simpa [StageResult.isSuccess, StageStatus.isSuccess] using hsuccess⟩

/-- Both stages of the fork run at the same time. -/
theorem inFlight_exclusive_forked :
    Pipeline.build "forked" forked.specs forked.config = .ok forked ∧
    ∃ d, (start forked).follow [.take, .take] = some d ∧ d.inFlight = [0, 1] ∧
      d.inFlight.Pairwise (Unrelated forked.specs) := by
  have hp : Pipeline.build "forked" forked.specs forked.config = .ok forked := rfl
  have hd : (start forked).follow [.take, .take] = some _ := rfl
  exact ⟨hp, _, hd, rfl, (inFlight_exclusive hp hd).1⟩

end Dispatch

end Wheelwright
