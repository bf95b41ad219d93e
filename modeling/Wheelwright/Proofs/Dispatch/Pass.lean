/-
  Passes — one pass along the order tells what becomes of every stage.

  **Specification** — `Plan.pass`: from the first stage of the order to the last, a stage runs if all its
  direct predecessors succeeded, with a flag that tells whether one of them did its work; otherwise it is
  blocked.  Nothing here knows of workers, or of what happens at the same time.

  **Program** — the loop, as long as the token is not tripped and every stage ends as the flag says that
  it is started with (`Answers`).

  **The crux** — induction along the order (`Sound.fate_holds`).  The predecessors of a settled stage need
  not all be settled: a stage is blocked as soon as one of them failed.  But that one is settled, and by
  the induction its fate is no success, which is all that the pass asks for.  The predecessors of a
  started stage are all settled, and the flag cannot change any more.
-/
import Wheelwright.Proofs.Dispatch.Completion

namespace Wheelwright

open Execution (Extends blockReason positionOf)

/-! ## The pass

  The pass reads the order once, and the fate of a stage is computed when all its predecessors have one.  When the
  pass is finished every stage has the fate that `fateFrom` gives it from the finished table, which is how it is used
  from here on. -/

/-- What becomes of a stage. -/
inductive Fate where
  /-- It runs with this flag and ends with this result. -/
  | ran (rebuilt : Bool) (r : StageResult)
  | blocked

namespace Fate

/-- A stage that ran and was successful, or was skipped. -/
def isSuccess : Fate → Bool
  | .ran _ r => r.isSuccess
  | .blocked => false

/-- A stage that ran and did work. -/
def didWork : Fate → Bool
  | .ran _ r => r.didWork
  | .blocked => false

end Fate

namespace Plan

/-- What becomes of a stage once it is known of its predecessors; `respond` tells how a stage ends that
    is started with a flag. -/
def fateFrom (p : Plan) (respond : Nat → Bool → Except String StageResult) (known : List Fate)
    (i : Nat) : Fate :=
  let fates := (predsOf p.predecessors i).map fun j => known.getD j .blocked
  if fates.all Fate.isSuccess then
    let rebuilt := fates.any Fate.didWork
    .ran rebuilt (p.resultOf i (respond i rebuilt))
  else .blocked

/-- What becomes of all stages, told along the order. -/
def pass (p : Plan) (respond : Nat → Bool → Except String StageResult) : List Fate :=
  p.order.foldl (fun known i => known.set i (p.fateFrom respond known i)) (p.names.map fun _ => .blocked)

/-- What becomes of a stage. -/
def fate (p : Plan) (respond : Nat → Bool → Except String StageResult) (i : Nat) : Fate :=
  (p.pass respond).getD i .blocked

/-- **The finished pass explains every fate by those of the predecessors.** -/
theorem WellFormed.fate_eq {p : Plan} (h : p.WellFormed)
    (respond : Nat → Bool → Except String StageResult) {i : Nat} (hi : i < p.names.length) :
    p.fate respond i = p.fateFrom respond (p.pass respond) i := by
  -- the fate of a stage is read off the fates of its predecessors alone, and those come before it
  have hf : ∀ (known known' : List Fate) (i : Nat),
      (∀ j, Edge p.predecessors j i → known[j]? = known'[j]?) →
      p.fateFrom respond known i = p.fateFrom respond known' i := by
    intro known known' i hsame
    have hmap : (predsOf p.predecessors i).map (fun j => known.getD j .blocked) =
        (predsOf p.predecessors i).map fun j => known'.getD j .blocked := by
      refine List.map_congr_left fun j hj => ?_
      rw [List.getD_eq_getElem?_getD, List.getD_eq_getElem?_getD, hsame j hj]
    rw [fateFrom, fateFrom, hmap]
  have := foldl_set_eq (fun known i => p.fateFrom respond known i) hf (p.names.map fun _ => .blocked)
    (List.length_map _) h.greedy i (h.mem_order.mpr hi)
  rw [fate, List.getD_eq_getElem?_getD, pass, this]
  rfl

variable {p : Plan} {respond : Nat → Bool → Except String StageResult} {i : Nat}

/-- With every predecessor a success, the stage runs. -/
theorem WellFormed.fate_of_all (h : p.WellFormed) (hi : i < p.names.length)
    (hall : ∀ j ∈ predsOf p.predecessors i, (p.fate respond j).isSuccess = true) :
    p.fate respond i = .ran ((predsOf p.predecessors i).any fun j => (p.fate respond j).didWork)
      (p.resultOf i (respond i ((predsOf p.predecessors i).any fun j => (p.fate respond j).didWork))) := by
  rw [h.fate_eq respond hi, fateFrom, if_pos]
  · rw [List.any_map]
    rfl
  · rw [List.all_map, List.all_eq_true]
    exact hall

/-- With one that is none, it is blocked. -/
theorem WellFormed.fate_of_not (h : p.WellFormed) (hi : i < p.names.length)
    (hnot : ∃ j ∈ predsOf p.predecessors i, (p.fate respond j).isSuccess = false) :
    p.fate respond i = .blocked := by
  rw [h.fate_eq respond hi, fateFrom, if_neg]
  rw [List.all_map, List.all_eq_true]
  obtain ⟨j, hj, hfail⟩ := hnot
  intro hall
  have : (p.fate respond j).isSuccess = true := hall j hj
  rw [hfail] at this
  cases this

end Plan

/-- Whatever is read off the results of two runs is the same if it is so for each stage. -/
theorem Execution.map_orderedResults_congr {β : Type} {x y : Execution} (key : StageResult → β)
    (hplan : x.plan = y.plan)
    (h : ∀ i ∈ x.plan.order, (x.result? i).map key = (y.result? i).map key) :
    x.orderedResults.map key = y.orderedResults.map key := by
  rw [orderedResults, orderedResults, List.map_filterMap, List.map_filterMap, ← hplan]
  exact List.filterMap_congr h

namespace Dispatch

variable {p : Pipeline} {d d' last : Dispatch} {e : Event} {events : List Event} {i : Nat}
  {respond : Nat → Bool → Except String StageResult}

/-! ## Runs without a trip

  A run is compared with the pass as long as the token is not tripped and every stage ends in the way that `respond`
  tells for the flag with which it was started. -/

/-- The loop gets to a state by events among which there is no trip, and every stage that ended has
    ended as the flag says that it was started with. -/
structure Answers (respond : Nat → Bool → Except String StageResult) (p : Pipeline)
    (events : List Event) (d : Dispatch) : Prop where
  follow : (start p).follow events = some d
  quiet : ∀ reason, .trip reason ∉ events
  answers : ∀ i ending rebuilt, .finish i ending ∈ events → (i, rebuilt) ∈ d.started →
    ending = respond i rebuilt

/-- Without a trip in the sequence the loop is not tripped by it. -/
theorem tripped_of_follow (hd : d.follow events = some d') (hquiet : ∀ reason, .trip reason ∉ events) :
    d'.tripped = d.tripped := by
  induction events generalizing d with
  | nil =>
    cases hd
    rfl
  -- no other event sets the trip
  | cons e rest ih =>
    obtain ⟨next, hs, hrest⟩ := follow_cons.mp hd
    rw [ih hrest fun reason hm => hquiet reason (List.mem_cons_of_mem _ hm)]
    obtain ⟨-, hcase⟩ := step_cases hs
    cases e with
    | trip reason => exact absurd (List.mem_cons_self ..) (hquiet reason)
    | take =>
      obtain ⟨x, new, -, rfl⟩ := hcase
      rfl
    | finish j ending =>
      obtain ⟨-, -, rfl⟩ := hcase
      rfl
    | close =>
      obtain ⟨-, -, rfl⟩ := hcase
      rfl

namespace Sound

/-- A stage with a result is not started any more. -/
theorem hasStarted_of_follow (h : Sound p d) (hd : d.follow events = some last)
    (hr : (d.state.result? i).isSome) (hi : last.HasStarted i) : d.HasStarted i := by
  induction events generalizing d with
  | nil =>
    cases hd
    exact hi
  | cons e rest ih =>
    obtain ⟨next, hs, hrest⟩ := follow_cons.mp hd
    have hnext := ih (h.step hs) hrest ((h.extends_step hs).isSome hr)
    by_contra hnew
    rw [(h.canStart_of_step hs hnext hnew).2.1] at hr
    cases hr

/-- **The result of a started stage is the one that it ended with.** -/
theorem result_of_follow (h : Sound p d) (hd : d.follow events = some last) {r : StageResult}
    (hi : last.HasStarted i) (hr : last.state.result? i = some r) :
    d.state.result? i = some r ∨ ∃ ending, .finish i ending ∈ events ∧ r = p.plan.resultOf i ending := by
  induction events generalizing d with
  | nil =>
    cases hd
    exact Or.inl hr
  | cons e rest ih =>
    obtain ⟨next, hs, hrest⟩ := follow_cons.mp hd
    -- either a later step has settled the stage, or this one, or it was settled before
    rcases ih (h.step hs) hrest with hnext | ⟨ending, hm, rfl⟩
    · cases hx : d.state.result? i with
      | some s => exact Or.inl (((h.extends_step hs).result? i s hx).symm.trans hnext)
      | none =>
        have hst := (h.step hs).hasStarted_of_follow hrest (by rw [hnext]; rfl) hi
        obtain ⟨ending, rfl, rfl⟩ := h.new_result hs hx hnext hst
        exact Or.inr ⟨ending, List.mem_cons_self .., rfl⟩
    · exact Or.inr ⟨ending, List.mem_cons_of_mem _ hm, rfl⟩

/-- Results that are there stay. -/
theorem extends_follow (h : Sound p d) (hd : d.follow events = some last) :
    Execution.Extends d.state last.state := by
  induction events generalizing d with
  | nil =>
    cases hd
    exact .refl _
  | cons e rest ih =>
    obtain ⟨next, hs, hrest⟩ := follow_cons.mp hd
    exact (h.extends_step hs).trans (ih (h.step hs) hrest)

/-- A stage that ended keeps the result that it ended with. -/
theorem result?_of_finish_mem (h : Sound p d) (hd : d.follow events = some last) {ending : Except String StageResult}
    (he : .finish i ending ∈ events) : last.state.result? i = some (p.plan.resultOf i ending) := by
  induction events generalizing d with
  | nil => cases he
  | cons e rest ih =>
    obtain ⟨next, hs, hrest⟩ := follow_cons.mp hd
    rcases List.mem_cons.mp he with rfl | he
    · exact ((h.step hs).extends_follow hrest).result? i _ (h.result?_finish hs)
    · exact ih (h.step hs) hrest he

end Sound

/-! ## Fates come true

  By induction along the order, a settled stage has come to what the pass tells.  A stage that was given up may have
  predecessors that are still running, but the one that it was given up for is settled. -/

/-- The fate of a stage is what became of it. -/
def Came (d : Dispatch) (i : Nat) : Fate → Prop
  | .ran rebuilt r => (i, rebuilt) ∈ d.started ∧ d.state.result? i = some r
  | .blocked => ¬ d.HasStarted i ∧ ∃ r, d.state.result? i = some r ∧ d.state.GivenUp i r

/-- What a stage came to is told by its result. -/
theorem Came.result {f : Fate} (h : d.Came i f) :
    ∃ r, d.state.result? i = some r ∧ r.isSuccess = f.isSuccess ∧ r.didWork = f.didWork := by
  cases f with
  | ran rebuilt r => exact ⟨r, h.2, rfl, rfl⟩
  | blocked =>
    obtain ⟨-, r, hr, q, -, -, rfl⟩ := h
    exact ⟨_, hr, rfl, rfl⟩

/-- **What the pass tells of a settled stage has come true.** -/
theorem Sound.fate_holds (h : Sound p d) (htrip : d.tripped = none)
    (hans : ∀ i rebuilt r, (i, rebuilt) ∈ d.started → d.state.result? i = some r →
      r = p.plan.resultOf i (respond i rebuilt)) :
    ∀ i, (d.state.result? i).isSome → d.Came i (p.plan.fate respond i) := by
  have hp : p.plan.WellFormed := h.plan ▸ h.coherent.plan
  intro i
  -- along the order of the plan
  induction hk : positionOf p.plan i using Nat.strongRecOn generalizing i with
  | ind k ih =>
    intro hsome
    have hi : i < p.plan.names.length := h.plan ▸ h.coherent.lt_of_result? hsome
    have hpred : ∀ j ∈ predsOf p.plan.predecessors i, (d.state.result? j).isSome →
        d.Came j (p.plan.fate respond j) := fun j hj =>
      ih _ (hk ▸ hp.positionOf_lt_of_mem hj) j rfl
    obtain ⟨r, hr⟩ := Option.isSome_iff_exists.mp hsome
    by_cases hst : d.HasStarted i
    · -- it was started after all its predecessors had succeeded
      obtain ⟨⟨m, rebuilt⟩, hm, rfl⟩ := List.mem_map.mp hst
      obtain ⟨-, hall, hflag⟩ := h.started m rebuilt hm
      have hcame : ∀ j ∈ predsOf p.plan.predecessors m, (p.plan.fate respond j).isSuccess = true ∧
          (d.state.result? j).any StageResult.didWork = (p.plan.fate respond j).didWork := by
        intro j hj
        obtain ⟨s, hs, hsuccess⟩ := Execution.succeeded_iff.mp (hall j (h.plan ▸ hj))
        obtain ⟨t, ht, hsame, hwork⟩ := (hpred j hj (by rw [hs]; rfl)).result
        rw [hs] at ht
        cases ht
        exact ⟨hsame ▸ hsuccess, by rw [hs]; exact hwork⟩
      have hrebuilt : (predsOf p.plan.predecessors m).any (fun j => (p.plan.fate respond j).didWork) =
          rebuilt := by
        rw [← hflag, Execution.upstreamRebuilt, h.plan, Bool.eq_iff_iff, List.any_eq_true, List.any_eq_true]
        exact exists_congr fun j => and_congr_right fun hj => by rw [(hcame j hj).2]
      rw [hp.fate_of_all hi fun j hj => (hcame j hj).1, hrebuilt]
      exact ⟨hm, hans m rebuilt r hm hr ▸ hr⟩
    · -- it was given up, so one of its predecessors is settled and no success
      have hgiven : d.state.GivenUp i r := by
        rcases h.origin i r hr with hst' | hgiven | ⟨reason, htrip', -⟩
        · exact absurd hst' hst
        · exact hgiven
        · rw [htrip] at htrip'
          cases htrip'
      have hnot : ∃ q ∈ predsOf p.plan.predecessors i, (p.plan.fate respond q).isSuccess = false := by
        obtain ⟨q, hq, hfail, -⟩ := hgiven
        rw [h.plan] at hq
        obtain ⟨s, hs, hsame, -⟩ := (hpred q hq hfail.isSome).result
        obtain ⟨t, ht, hfail⟩ := hfail
        rw [hs] at ht
        cases ht
        exact ⟨q, hq, hsame ▸ hfail⟩
      rw [hp.fate_of_not hi hnot]
      exact ⟨hst, r, hr, hgiven⟩

/-- In a run without a trip the pass tells what became of every settled stage. -/
theorem Answers.came (h : Sound p d) (hd : Answers respond p events d) (hp : p.plan.WellFormed) :
    ∀ i, (d.state.result? i).isSome → d.Came i (p.plan.fate respond i) := by
  refine h.fate_holds (tripped_of_follow hd.follow hd.quiet) fun i rebuilt r hm hr => ?_
  have hst : d.HasStarted i := List.mem_map.mpr ⟨_, hm, rfl⟩
  rcases (Sound.start hp).result_of_follow hd.follow hst hr with hnone | ⟨ending, he, rfl⟩
  · rw [show (start p).state = Execution.start p.plan from rfl, Execution.result?_start] at hnone
    cases hnone
  · rw [hd.answers i ending rebuilt he hm]

/-- All stages are settled when there is an outcome. -/
theorem Sound.settled_of_outcome (h : Sound p d) {o : PipelineOutcome} (ho : d.outcome = some o) :
    ∀ i < p.plan.names.length, (d.state.result? i).isSome :=
  h.plan ▸ h.coherent.all_settled h.closed (h.ended o ho).1

/-! ## Two runs

  Two runs that both follow the pass have the same outcome up to one thing: a stage with several failed predecessors
  names the one that failed first. -/

/-- Both results say that the stage was blocked, for different failed predecessors. -/
def BlockedApart (specs : List StageSpec) (d : Dispatch) (i : Nat) (r₁ r₂ : StageResult) : Prop :=
  ∃ q₁ q₂, q₁ ≠ q₂ ∧ Precedes specs q₁ i ∧ Precedes specs q₂ i ∧ d.state.Failed q₁ ∧ d.state.Failed q₂ ∧
    r₁ = .blocked (d.state.plan.nameOf i) (blockReason (d.state.plan.nameOf q₁)) ∧
    r₂ = .blocked (d.state.plan.nameOf i) (blockReason (d.state.plan.nameOf q₂))

section TwoRuns

variable {specs : List StageSpec} {d₁ d₂ : Dispatch} {f : Fate} {r₁ r₂ : StageResult}

/-- What two results agree in that differ at most in why the stage was blocked. -/
theorem BlockedApart.agree (h : r₁ = r₂ ∨ BlockedApart specs d i r₁ r₂) :
    (r₁.stage, r₁.status, r₁.skipped) = (r₂.stage, r₂.status, r₂.skipped) := by
  rcases h with rfl | ⟨q₁, q₂, -, -, -, -, -, rfl, rfl⟩ <;> rfl

/-- A stage that one run starts the other one starts, with the same flag. -/
theorem Came.started (hc₁ : d₁.Came i f) (hc₂ : d₂.Came i f) (h₁ : Sound p d₁) {rebuilt : Bool}
    (hm : (i, rebuilt) ∈ d₁.started) : (i, rebuilt) ∈ d₂.started := by
  cases f with
  | ran rebuilt' r =>
    have hflag := (h₁.started i rebuilt' hc₁.1).2.2
    rw [(h₁.started i rebuilt hm).2.2] at hflag
    rw [hflag]
    exact hc₂.1
  | blocked => exact absurd (List.mem_map.mpr ⟨_, hm, rfl⟩) hc₁.1

/-- A stage that fails in one run fails in the other one. -/
theorem Came.failed (hc₁ : d₁.Came i f) (hc₂ : d₂.Came i f) (hf : d₁.state.Failed i) :
    d₂.state.Failed i := by
  obtain ⟨r, hr, hfail⟩ := hf
  obtain ⟨s, hs, hsame, -⟩ := hc₁.result
  obtain ⟨t, ht, hsame', -⟩ := hc₂.result
  rw [hr] at hs
  cases hs
  exact ⟨t, ht, by rw [hsame', ← hsame, hfail]⟩

/-- Two runs with the same fates agree in all but the reasons of blocked stages. -/
theorem Came.alike (hplan : d₂.state.plan = d₁.state.plan)
    (hedge : Edge d₁.state.plan.predecessors = Precedes specs)
    (hfailed : ∀ q, d₂.state.Failed q → d₁.state.Failed q) (h₁ : d₁.Came i f) (h₂ : d₂.Came i f) :
    ∃ r₁ r₂, d₁.state.result? i = some r₁ ∧ d₂.state.result? i = some r₂ ∧
      (r₁ = r₂ ∨ BlockedApart specs d₁ i r₁ r₂) := by
  -- a stage that ran is settled by the same answer in both runs
  cases f with
  | ran rebuilt r => exact ⟨r, r, h₁.2, h₂.2, Or.inl rfl⟩
  | blocked =>
    obtain ⟨-, s₁, hs₁, q₁, hq₁, hf₁, rfl⟩ := h₁
    obtain ⟨-, s₂, hs₂, q₂, hq₂, hf₂, rfl⟩ := h₂
    refine ⟨_, _, hs₁, hs₂, ?_⟩
    rw [hplan] at hq₂ ⊢
    -- each run blames the predecessor that it saw fail first
    by_cases hq : q₁ = q₂
    · subst hq
      exact Or.inl rfl
    · refine Or.inr ⟨q₁, q₂, hq, ?_, ?_, hf₁, hfailed q₂ hf₂, rfl, rfl⟩
      · rw [← hedge]
        exact hq₁
      · rw [← hedge]
        exact hq₂

end TwoRuns

/-- The stages that did their work can be read off the names, statuses and skips of the results. -/
theorem rebuilt_eq (o : PipelineOutcome) : o.rebuilt =
    ((o.results.map fun r => (r.stage, r.status, r.skipped)).filter fun t =>
      t.2.1.isSuccess && !t.2.2).map Prod.fst := by
  rw [PipelineOutcome.rebuilt, List.filter_map, List.map_map]
  rfl

/-- So can the status of the whole run. -/
theorem Sound.status_eq (h : Sound p d) {o : PipelineOutcome} (ho : d.outcome = some o) : o.status =
    .aggregate ((o.results.map fun r => (r.stage, r.status, r.skipped)).map fun t => t.2.1) := by
  rw [(h.ended o ho).2, List.map_map]
  rfl

/-! ## The main result

  The theorem for two runs with any workers and any order of endings, and the fork with one worker and with two. -/

/-- **The outcome does not depend on workers or on the order in which stages end.**  When every stage ends
    as the flag says that it is started with, and the token is not tripped, what becomes of each stage is
    what one pass along the order tells.  So two runs of the same stages start the same ones with the same
    flags, and agree in everything but the reasons of stages with more than one failed predecessor. -/
theorem outcomes_agree {name : String} {specs : List StageSpec} {config₁ config₂ : PipelineConfig}
    {p₁ p₂ : Pipeline} {events₁ events₂ : List Event} {d₁ d₂ : Dispatch} {o₁ o₂ : PipelineOutcome}
    (hp₁ : Pipeline.build name specs config₁ = .ok p₁) (hp₂ : Pipeline.build name specs config₂ = .ok p₂)
    (hd₁ : Answers respond p₁ events₁ d₁) (hd₂ : Answers respond p₂ events₂ d₂)
    (ho₁ : d₁.outcome = some o₁) (ho₂ : d₂.outcome = some o₂) :
    (∀ i < specs.length, d₁.Came i (p₁.plan.fate respond i)) ∧
    (∀ i rebuilt, (i, rebuilt) ∈ d₁.started ↔ (i, rebuilt) ∈ d₂.started) ∧
    (∀ i < specs.length, ∃ r₁ r₂, d₁.state.result? i = some r₁ ∧ d₂.state.result? i = some r₂ ∧
      (r₁ = r₂ ∨ BlockedApart specs d₁ i r₁ r₂)) ∧
    (o₁.results.map fun r => (r.stage, r.status, r.skipped)) =
      (o₂.results.map fun r => (r.stage, r.status, r.skipped)) ∧
    o₁.rebuilt = o₂.rebuilt ∧ o₁.status = o₂.status := by
  obtain ⟨h₁, hdesc⟩ := sound_of_build hp₁ hd₁.follow
  obtain ⟨h₂, -⟩ := sound_of_build hp₂ hd₂.follow
  have hplan : p₂.plan = p₁.plan :=
    Except.ok.inj ((plan_of_build hp₂).1.symm.trans (plan_of_build hp₁).1)
  have hn := hdesc.names_length
  -- the pass is the same for both, as both have the same plan
  have hcame₁ : ∀ i < specs.length, d₁.Came i (p₁.plan.fate respond i) := fun i hi =>
    hd₁.came h₁ hdesc.toWellFormed i (h₁.settled_of_outcome ho₁ i (hn.symm ▸ hi))
  have hcame₂ : ∀ i < specs.length, d₂.Came i (p₁.plan.fate respond i) := fun i hi =>
    hplan ▸ hd₂.came h₂ (hplan ▸ hdesc.toWellFormed) i
      (h₂.settled_of_outcome ho₂ i (by rw [hplan, hn]; exact hi))
  have hsame : d₂.state.plan = d₁.state.plan := by rw [h₂.plan, h₁.plan, hplan]
  have hlt₁ : ∀ i rebuilt, (i, rebuilt) ∈ d₁.started → i < specs.length := fun i rebuilt hm =>
    hn ▸ (h₁.started i rebuilt hm).1
  have hlt₂ : ∀ i rebuilt, (i, rebuilt) ∈ d₂.started → i < specs.length := fun i rebuilt hm =>
    hn ▸ hplan ▸ (h₂.started i rebuilt hm).1
  have hfailed : ∀ q, d₂.state.Failed q → d₁.state.Failed q := by
    intro q hq
    have hlt : q < specs.length := by
      rw [← hn, ← hplan, ← h₂.plan]
      exact h₂.coherent.lt_of_result? hq.isSome
    exact (hcame₂ q hlt).failed (hcame₁ q hlt) hq
  have halike : ∀ i < specs.length, ∃ r₁ r₂, d₁.state.result? i = some r₁ ∧
      d₂.state.result? i = some r₂ ∧ (r₁ = r₂ ∨ BlockedApart specs d₁ i r₁ r₂) := fun i hi =>
    (hcame₁ i hi).alike hsame (by rw [h₁.plan, hdesc.edge_eq]) hfailed (hcame₂ i hi)
  -- the results are listed in the order of the plan, and agree stage by stage
  have hresults : (o₁.results.map fun r => (r.stage, r.status, r.skipped)) =
      (o₂.results.map fun r => (r.stage, r.status, r.skipped)) := by
    rw [(h₁.ended o₁ ho₁).2, (h₂.ended o₂ ho₂).2]
    refine Execution.map_orderedResults_congr _ hsame.symm fun i hi => ?_
    rw [h₁.plan, hdesc.mem_order, hn] at hi
    obtain ⟨r₁, r₂, hr₁, hr₂, hr⟩ := halike i hi
    rw [hr₁, hr₂, Option.map_some, Option.map_some, BlockedApart.agree hr]
  refine ⟨hcame₁, fun i rebuilt => ⟨fun hm => ?_, fun hm => ?_⟩, halike, hresults, ?_, ?_⟩
  · have hi := hlt₁ i rebuilt hm
    exact (hcame₁ i hi).started (hcame₂ i hi) h₁ hm
  · have hi := hlt₂ i rebuilt hm
    exact (hcame₂ i hi).started (hcame₁ i hi) h₂ hm
  · rw [rebuilt_eq, rebuilt_eq, hresults]
  · rw [h₁.status_eq ho₁, h₂.status_eq ho₂, hresults]

/-- The first stage of the fork has nothing to do, the second one works, and so does the third one if
    one of them did. -/
def forkedResponse (i : Nat) (rebuilt : Bool) : Except String StageResult :=
  if i = 0 then .ok (.fresh "a" .zero)
  else if i = 1 then .ok (.succeeded "b" [] .zero)
  else if rebuilt then .ok (.succeeded "c" [] .zero)
  else .ok (.fresh "c" .zero)

/-- One worker and two workers come to the same outcome. -/
theorem outcomes_agree_forked : ∃ events₁ events₂ d₁ d₂ o₁ o₂,
    Answers forkedResponse { forked with config := {} } events₁ d₁ ∧ d₁.outcome = some o₁ ∧
    Answers forkedResponse forked events₂ d₂ ∧ d₂.outcome = some o₂ ∧
    o₁.rebuilt = ["b", "c"] ∧ o₁.rebuilt = o₂.rebuilt := by
  have hp₁ : Pipeline.build "forked" forked.specs {} = .ok { forked with config := {} } := rfl
  have hp₂ : Pipeline.build "forked" forked.specs forked.config = .ok forked := rfl
  -- the answers, as the events of both runs give them
  have hanswers : ∀ (i : Nat) (ending : Except String StageResult) (rebuilt : Bool),
      (i = 0 ∧ ending = .ok (.fresh "a" .zero) ∨ i = 1 ∧ ending = .ok (.succeeded "b" [] .zero) ∨
        i = 2 ∧ ending = .ok (.succeeded "c" [] .zero)) →
      (i, rebuilt) ∈ [(0, false), (1, false), (2, true)] → ending = forkedResponse i rebuilt := by
    rintro i ending rebuilt (⟨rfl, rfl⟩ | ⟨rfl, rfl⟩ | ⟨rfl, rfl⟩) hm <;> simp_all [forkedResponse]
  have hf₁ : (start { forked with config := {} }).follow
      [.take, .finish 0 (.ok (.fresh "a" .zero)), .take, .finish 1 (.ok (.succeeded "b" [] .zero)),
        .take, .finish 2 (.ok (.succeeded "c" [] .zero)), .close] = some _ := rfl
  have hf₂ : (start forked).follow
      [.take, .take, .finish 1 (.ok (.succeeded "b" [] .zero)), .finish 0 (.ok (.fresh "a" .zero)),
        .take, .finish 2 (.ok (.succeeded "c" [] .zero)), .close] = some _ := rfl
  have hd₁ : Answers forkedResponse { forked with config := {} } _ _ :=
    ⟨hf₁, by simp, fun i ending rebuilt he hm => hanswers i ending rebuilt (by simpa using he) hm⟩
  have hd₂ : Answers forkedResponse forked _ _ :=
    ⟨hf₂, by simp, fun i ending rebuilt he hm => hanswers i ending rebuilt (by simp at he; tauto) hm⟩
  obtain ⟨-, -, -, -, hrebuilt, -⟩ := outcomes_agree hp₁ hp₂ hd₁ hd₂ rfl rfl
  exact ⟨_, _, _, _, _, _, hd₁, rfl, hd₂, rfl, rfl, hrebuilt⟩

end Dispatch

end Wheelwright
