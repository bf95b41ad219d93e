/-
  Soundness — what is true of the loop after any steps.

  **Specification** — `Sound p d`: `d` is a state of the loop of the pipeline `p` whose run is coherent and
  closed; what runs is what was started and has no result; a started stage was told the truth about its
  predecessors; a stage without a start has a result only because a predecessor failed or the run was
  cancelled; listeners were told exactly the results that came, and then the outcome.

  **Program** — `Dispatch.step`, over any list of events (`follow`): stages end in any order and with any
  result, and the token is tripped at any time.

  **The crux** — every event is one of `Starts` and `Settles` or leaves the run alone, and both keep
  `Sound` (`Sound.of_starts`, `Sound.of_settles`).
-/
import Wheelwright.Dispatch
import Wheelwright.Proofs.Execution.Transitions

namespace Wheelwright

open Execution (Starts Settles Extends cancelReason)

/-- The flag that a stage is started with does not change once all its predecessors have succeeded. -/
theorem Execution.Extends.upstreamRebuilt {x y : Execution} {i : Nat} (h : Extends x y)
    (hi : x.AllSucceeded i) : y.upstreamRebuilt i = x.upstreamRebuilt i := by
  rw [Execution.upstreamRebuilt, Execution.upstreamRebuilt, h.plan, Bool.eq_iff_iff, List.any_eq_true,
    List.any_eq_true]
  refine exists_congr fun j => and_congr_right fun hj => ?_
  obtain ⟨r, hr, -⟩ := Execution.succeeded_iff.mp (hi j hj)
  rw [hr, h.result? j r hr]

namespace Dispatch

variable {p : Pipeline} {d d' : Dispatch} {e : Event} {events : List Event}

/-! ## Runs of the loop

  A run of the loop is a list of events, each of which has to be possible where it happens. -/

/-- The loop after some steps, if all of them can be made. -/
def follow : Dispatch → List Event → Option Dispatch
  | d, [] => some d
  | d, e :: rest => (d.step e).bind fun next => follow next rest

/-- A sequence is followed by its first event and then by the others. -/
theorem follow_cons {rest : List Event} : d.follow (e :: rest) = some d' ↔
    ∃ next, d.step e = some next ∧ next.follow rest = some d' := by
  rw [follow, Option.bind_eq_some_iff]

/-- The stage was started. -/
def HasStarted (d : Dispatch) (i : Nat) : Prop := i ∈ d.started.map Prod.fst

/-- The stages that were started and have no result. -/
def inFlight (d : Dispatch) : List Nat :=
  (d.started.map Prod.fst).filter fun i => (d.state.result? i).isNone

/-! ## Single steps

  The inversion of a step.  It says what each event needs and what it leaves, and then, for runs that are coherent and
  closed, which of the moves of an execution it makes. -/

/-- What each event needs, and what it does. -/
theorem step_cases (h : d.step e = some d') : d.outcome = none ∧
    match e with
    | .trip reason => d.tripped = none ∧ d' = { d with tripped := some reason }
    | .take => ∃ x new, d.next? = some (x, new) ∧ d' = { d.withState x with
        started := d.started ++ (new.map fun i => (i, d.state.upstreamRebuilt i)).toList }
    | .finish i ending => d.next? = none ∧ i ∈ d.state.running ∧
        d' = d.withState (d.state.settle i (d.state.plan.resultOf i ending))
    | .close => d.next? = none ∧ d.state.isDone = true ∧ d' =
        { d with
          outcome := some (.ofExecution d.name d.state d.tripped)
          told := d.told ++ [.pipeline (.ofExecution d.name d.state d.tripped)] } := by
  unfold step at h
  split at h
  · cases h
  · rename_i hout
    refine ⟨by simpa using hout, ?_⟩
    -- each event with its guard
    cases e with
    | trip reason =>
      dsimp only at h ⊢
      split at h
      · cases h
      · rename_i htrip
        exact ⟨by simpa using htrip, (Option.some.inj h).symm⟩
    | take =>
      obtain ⟨⟨x, new⟩, hnext, rfl⟩ := Option.map_eq_some_iff.mp h
      exact ⟨x, new, hnext, rfl⟩
    | finish i ending =>
      dsimp only at h ⊢
      split at h
      · rename_i hcond
        rw [Bool.and_eq_true, Option.isNone_iff_eq_none, List.contains_iff_mem] at hcond
        exact ⟨hcond.1, hcond.2, (Option.some.inj h).symm⟩
      · cases h
    | close =>
      dsimp only at h ⊢
      split at h
      · rename_i hcond
        rw [Bool.and_eq_true, Option.isNone_iff_eq_none] at hcond
        exact ⟨hcond.1, hcond.2, (Option.some.inj h).symm⟩
      · cases h

/-- What each step does to the run: a stage is started, a ready stage is given up since the run was
    cancelled, or a running stage ends; or the run stays as it is. -/
inductive Moves (d : Dispatch) : Event → Dispatch → Prop
  /-- The loop notices that its token was tripped. -/
  | trip {reason : String} (htrip : d.tripped = none) :
      Moves d (.trip reason) { d with tripped := some reason }
  /-- A ready stage starts, as long as a worker is free. -/
  | starts {y : Execution} {i : Nat} (hs : Starts d.state y i) (hy : y.Coherent) (hc : y.Closed)
      (hfree : d.state.running.length < d.workers) :
      Moves d .take { d.withState y with started := d.started ++ [(i, d.state.upstreamRebuilt i)] }
  /-- A ready stage is given up, as the token was tripped. -/
  | cancels {y : Execution} {i : Nat} {reason : String} (htrip : d.tripped = some reason)
      (hidle : i ∉ d.state.running)
      (hs : Settles d.state y i (.blocked (d.state.plan.nameOf i) (cancelReason reason)))
      (hy : y.Coherent) (hc : y.Closed) : Moves d .take (d.withState y)
  /-- A stage that runs ends. -/
  | ends {y : Execution} {i : Nat} {ending : Except String StageResult} (hrun : i ∈ d.state.running)
      (hs : Settles d.state y i (d.state.plan.resultOf i ending)) (hy : y.Coherent) (hc : y.Closed) :
      Moves d (.finish i ending) (d.withState y)
  /-- The loop comes to its outcome. -/
  | close (hdone : d.state.isDone = true) :
      Moves d .close { d with
        outcome := some (.ofExecution d.name d.state d.tripped)
        told := d.told ++ [.pipeline (.ofExecution d.name d.state d.tripped)] }

/-- Every step is such a move if the run is coherent and closed. -/
theorem moves_of_step (hx : d.state.Coherent) (hc : d.state.Closed) (h : d.step e = some d') :
    d.outcome = none ∧ Moves d e d' := by
  obtain ⟨hout, hcase⟩ := step_cases h
  refine ⟨hout, ?_⟩
  -- what the queue gives is a start or a stage given up
  cases e with
  | trip reason =>
    obtain ⟨htrip, rfl⟩ := hcase
    exact .trip htrip
  | take =>
    obtain ⟨y, new, hnext, rfl⟩ := hcase
    obtain ⟨hy, hyc, hfree, ⟨i, -, rfl, hs⟩ | ⟨i, reason, htrip, rfl, hidle, hs⟩⟩ :=
      Execution.takeNext_spec hx hc hnext
    · exact .starts hs hy hyc hfree
    · simp only [Option.map_none, Option.toList_none, List.append_nil]
      exact .cancels htrip hidle hs hy hyc
  | finish i ending =>
    obtain ⟨-, hrun, rfl⟩ := hcase
    obtain ⟨hy, hyc, hs⟩ := Execution.settle_spec hx hc hrun (d.state.plan.resultOf i ending)
    exact .ends hrun hs hy hyc
  | close =>
    obtain ⟨-, hdone, rfl⟩ := hcase
    exact .close hdone

/-! ## The invariant

  What is true of the loop between any two events.  There are two ways only in which the execution changes, a start
  and a settling, so there are two lemmas to prove and not one for each event. -/

/-- Why a stage has a result that was never started. -/
def GaveUp (d : Dispatch) (i : Nat) (r : StageResult) : Prop :=
  d.state.GivenUp i r ∨
    ∃ reason, d.tripped = some reason ∧ r = .blocked (d.state.plan.nameOf i) (cancelReason reason)

/-- The loop is in a state that follows from what was started and what came of it. -/
structure Sound (p : Pipeline) (d : Dispatch) : Prop where
  /-- Name, workers and plan are those of the pipeline. -/
  name : d.name = p.name
  workers : d.workers = p.config.workers
  plan : d.state.plan = p.plan
  /-- The execution is coherent, and what failed has settled all that depends on it. -/
  coherent : d.state.Coherent
  closed : d.state.Closed
  /-- No more stages run than there are workers. -/
  room : d.state.running.length ≤ d.workers
  /-- No stage is started twice. -/
  started_nodup : (d.started.map Prod.fst).Nodup
  /-- What runs is what was started and has no result yet. -/
  mem_running : ∀ i, i ∈ d.state.running ↔ d.HasStarted i ∧ d.state.result? i = none
  /-- A stage starts after its predecessors have succeeded, with the flag that their results give. -/
  started : ∀ i rebuilt, (i, rebuilt) ∈ d.started →
    i < p.plan.names.length ∧ d.state.AllSucceeded i ∧ d.state.upstreamRebuilt i = rebuilt
  /-- A result is that of a started stage, or it was given up. -/
  origin : ∀ i r, d.state.result? i = some r → d.HasStarted i ∨ d.GaveUp i r
  /-- Listeners were told of the results in their order, and of the outcome last. -/
  told : d.told = d.state.delivered.map .stage ++ (d.outcome.map .pipeline).toList
  /-- The outcome is made of the results, once all is done. -/
  ended : ∀ o, d.outcome = some o →
    d.state.isDone = true ∧ o = .ofExecution d.name d.state d.tripped

namespace Sound

/-- The loop is sound as it starts. -/
theorem start (hp : p.plan.WellFormed) : Sound p (start p) := by
  refine ⟨rfl, rfl, rfl, Execution.coherent_start hp, Execution.closed_start p.plan, Nat.zero_le _,
    List.nodup_nil, fun i => ?_, fun i rebuilt hi => ?_, fun i r hi => ?_, rfl, fun o ho => ?_⟩
  · exact iff_of_false List.not_mem_nil fun h => List.not_mem_nil h.1
  · exact absurd hi List.not_mem_nil
  · rw [show (Dispatch.start p).state = Execution.start p.plan from rfl,
      Execution.result?_start] at hi
    cases hi
  · cases ho

/-- Listeners are told what is new. -/
theorem told_withState (h : Sound p d) (hout : d.outcome = none) {y : Execution}
    (hext : Extends d.state y) : (d.withState y).told = y.delivered.map .stage := by
  obtain ⟨news, hnews⟩ := hext.delivered
  rw [withState, h.told, hout, ← hnews, List.drop_left, List.map_append]
  simp

/-- **A stage is started.** -/
theorem of_starts (h : Sound p d) (hout : d.outcome = none) {y : Execution} {i : Nat}
    (hs : Starts d.state y i) (hy : y.Coherent) (hc : y.Closed) (hfree : d.state.running.length < d.workers) :
    Sound p { d.withState y with started := d.started ++ [(i, d.state.upstreamRebuilt i)] } := by
  have hext := Extends.of_starts hs
  -- a started stage without a result would be running, and so could not start
  have hidle : ¬ d.HasStarted i := fun hi => hs.canStart.1 ((h.mem_running i).mpr ⟨hi, hs.canStart.2.1⟩)
  have hmem : ∀ j, j ∈ (d.started ++ [(i, d.state.upstreamRebuilt i)]).map Prod.fst ↔
      d.HasStarted j ∨ j = i := by
    intro j
    rw [List.map_append, List.mem_append, HasStarted]
    simp
  refine ⟨h.name, h.workers, hext.plan.trans h.plan, hy, hc, ?_, ?_, fun j => ?_,
    fun j rebuilt hj => ?_, fun j r hj => ?_, ?_, fun o ho => ?_⟩
  -- one more runs, and a worker was free
  · show y.running.length ≤ d.workers
    rw [hs.running, List.length_append, List.length_singleton]
    exact hfree
  -- it is new among the started ones
  · show ((d.started ++ [(i, d.state.upstreamRebuilt i)]).map Prod.fst).Nodup
    rw [List.map_append]
    exact List.nodup_append_comm.mpr (List.nodup_cons.mpr ⟨hidle, h.started_nodup⟩)
  -- it runs and has no result; for the others nothing changes
  · show j ∈ y.running ↔ j ∈ (d.started ++ [(i, d.state.upstreamRebuilt i)]).map Prod.fst ∧ y.result? j = none
    rw [hs.running, List.mem_append, List.mem_singleton, h.mem_running, hmem, hs.result?]
    constructor
    · rintro (⟨hj, hnone⟩ | rfl)
      · exact ⟨Or.inl hj, hnone⟩
      · exact ⟨Or.inr rfl, hs.canStart.2.1⟩
    · rintro ⟨hj | rfl, hnone⟩
      · exact Or.inl ⟨hj, hnone⟩
      · exact Or.inr rfl
  · show j < p.plan.names.length ∧ y.AllSucceeded j ∧ y.upstreamRebuilt j = rebuilt
    rcases List.mem_append.mp hj with hj | hj
    · -- the flag it was started with is final: all that it was read off has succeeded
      obtain ⟨hlt, hall, hflag⟩ := h.started j rebuilt hj
      exact ⟨hlt, hext.allSucceeded hall, (hext.upstreamRebuilt hall).trans hflag⟩
    · rw [List.mem_singleton, Prod.mk.injEq] at hj
      obtain ⟨rfl, rfl⟩ := hj
      exact ⟨h.plan ▸ hs.lt, hext.allSucceeded hs.canStart.2.2, hext.upstreamRebuilt hs.canStart.2.2⟩
  -- a start settles nothing
  · rw [show (d.withState y).state = y from rfl, hs.result?] at hj
    rcases h.origin j r hj with hst | hgiven | ⟨reason, htrip, hr⟩
    · exact Or.inl ((hmem j).mpr (Or.inl hst))
    · exact Or.inr (Or.inl (hext.givenUp hgiven))
    · exact Or.inr (Or.inr ⟨reason, htrip, hr.trans (by rw [← hext.plan]; rfl)⟩)
  · show (d.withState y).told = y.delivered.map .stage ++ (d.outcome.map .pipeline).toList
    rw [h.told_withState hout hext, hout]
    simp
  · rw [show (d.withState y).outcome = none from hout] at ho
    cases ho

/-- **A stage gets a result**, be it from its own run or because the run was cancelled. -/
theorem of_settles (h : Sound p d) (hout : d.outcome = none) {y : Execution} {i : Nat} {r : StageResult}
    (hs : Settles d.state y i r) (hy : y.Coherent) (hc : y.Closed)
    (hcause : d.HasStarted i ∨
      ∃ reason, d.tripped = some reason ∧ r = .blocked (d.state.plan.nameOf i) (cancelReason reason)) :
    Sound p (d.withState y) := by
  have hext := Extends.of_settles hs
  refine ⟨h.name, h.workers, hext.plan.trans h.plan, hy, hc, ?_, h.started_nodup, fun j => ?_,
    fun j rebuilt hj => ?_, fun j s hj => ?_, ?_, fun o ho => ?_⟩
  -- one less runs
  · show y.running.length ≤ d.workers
    rw [hs.running]
    exact Nat.le_trans List.length_erase_le h.room
  -- who runs has no result, before and after
  · show j ∈ y.running ↔ d.HasStarted j ∧ y.result? j = none
    constructor
    · intro hj
      refine ⟨?_, (hy.running j hj).2.1⟩
      rw [hs.running] at hj
      exact ((h.mem_running j).mp (List.mem_of_mem_erase hj)).1
    · rintro ⟨hj, hnone⟩
      have hold : d.state.result? j = none := hext.eq_none hnone
      have hne : j ≠ i := by
        rintro rfl
        rw [hs.result?_self h.coherent.results_length] at hnone
        cases hnone
      rw [hs.running, List.mem_erase_of_ne hne]
      exact (h.mem_running j).mpr ⟨hj, hold⟩
  -- what was started keeps its flag
  · obtain ⟨hlt, hall, hflag⟩ := h.started j rebuilt hj
    exact ⟨hlt, hext.allSucceeded hall, (hext.upstreamRebuilt hall).trans hflag⟩
  -- the new results are that of the stage and those of the stages it blocks
  · have hcancel : ∀ k t, (∃ reason, d.tripped = some reason ∧
        t = .blocked (d.state.plan.nameOf k) (cancelReason reason)) → (d.withState y).GaveUp k t := by
      rintro k t ⟨reason, htrip, ht⟩
      exact Or.inr ⟨reason, htrip, ht.trans (by rw [← hext.plan]; rfl)⟩
    rcases hs.origin hj with hold | ⟨-, ⟨rfl, rfl⟩ | hgiven⟩
    · rcases h.origin j s hold with hst | hgiven | htrip
      · exact Or.inl hst
      · exact Or.inr (Or.inl (hext.givenUp hgiven))
      · exact Or.inr (hcancel j s htrip)
    · exact hcause.imp_right (hcancel j s)
    · exact Or.inr (Or.inl hgiven)
  · show (d.withState y).told = y.delivered.map .stage ++ (d.outcome.map .pipeline).toList
    rw [h.told_withState hout hext, hout]
    simp
  · rw [show (d.withState y).outcome = none from hout] at ho
    cases ho

/-- **Every step keeps the loop sound.** -/
theorem step (h : Sound p d) (hstep : d.step e = some d') : Sound p d' := by
  obtain ⟨hout, hm⟩ := moves_of_step h.coherent h.closed hstep
  cases hm with
  | trip htrip =>
    -- no result so far can come from a trip
    refine ⟨h.name, h.workers, h.plan, h.coherent, h.closed, h.room, h.started_nodup, h.mem_running,
      h.started, fun i r hi => ?_, h.told, fun o ho => ?_⟩
    · rcases h.origin i r hi with hst | hgiven | ⟨reason', htrip', -⟩
      · exact Or.inl hst
      · exact Or.inr (Or.inl hgiven)
      · rw [htrip] at htrip'
        cases htrip'
    · rw [show d.outcome = some o from ho] at hout
      cases hout
  | starts hs hy hc hfree => exact h.of_starts hout hs hy hc hfree
  | cancels htrip hidle hs hy hc => exact h.of_settles hout hs hy hc (Or.inr ⟨_, htrip, rfl⟩)
  | ends hrun hs hy hc => exact h.of_settles hout hs hy hc (Or.inl ((h.mem_running _).mp hrun).1)
  | close hdone =>
    refine ⟨h.name, h.workers, h.plan, h.coherent, h.closed, h.room, h.started_nodup, h.mem_running,
      h.started, h.origin, ?_, fun o ho => ⟨hdone, (Option.some.inj ho).symm⟩⟩
    show d.told ++ [_] = _
    rw [h.told, hout]
    simp

/-- **The loop is sound after any steps.** -/
theorem follow (h : Sound p d) (hd : d.follow events = some d') : Sound p d' := by
  induction events generalizing d with
  | nil =>
    cases hd
    exact h
  | cons e rest ih =>
    obtain ⟨next, hstep, hrest⟩ := follow_cons.mp hd
    exact ih (h.step hstep) hrest

/-! ## What a step adds

  What is new after a step, read from its move: the result that a stage ended with, and what was started. -/

/-- The run goes on. -/
theorem extends_step (h : Sound p d) (hstep : d.step e = some d') : Extends d.state d'.state := by
  obtain ⟨-, hm⟩ := moves_of_step h.coherent h.closed hstep
  cases hm with
  | trip | close => exact .refl _
  | starts hs => exact .of_starts hs
  | cancels _ _ hs | ends _ hs => exact .of_settles hs

/-- What is started could be started. -/
theorem canStart_of_step (h : Sound p d) (hstep : d.step e = some d') {i : Nat} (hi : d'.HasStarted i)
    (hnew : ¬ d.HasStarted i) : d.state.CanStart i := by
  obtain ⟨-, hm⟩ := moves_of_step h.coherent h.closed hstep
  cases hm with
  | trip | cancels | ends | close => exact absurd hi hnew
  | starts hs =>
    rw [HasStarted, List.map_append, List.mem_append] at hi
    obtain rfl := List.mem_singleton.mp (hi.resolve_left hnew)
    exact hs.canStart

/-- A new result of a started stage is the one that it ended with. -/
theorem new_result (h : Sound p d) (hstep : d.step e = some d') {i : Nat} {r : StageResult}
    (hnone : d.state.result? i = none) (hr : d'.state.result? i = some r) (hi : d'.HasStarted i) :
    ∃ ending, e = .finish i ending ∧ r = p.plan.resultOf i ending := by
  -- a started stage is never given up
  have hnot : ¬ d'.state.GivenUp i r := by
    rintro ⟨q, hq, hf, -⟩
    obtain ⟨⟨j, rebuilt⟩, hj, rfl⟩ := List.mem_map.mp hi
    exact Execution.PredecessorFailed.not_allSucceeded ⟨q, hq, hf⟩ ((h.step hstep).started j rebuilt hj).2.1
  have hold : d.state.result? i ≠ some r := by
    rw [hnone]
    simp
  obtain ⟨-, hm⟩ := moves_of_step h.coherent h.closed hstep
  cases hm with
  -- settled by being given up or by its end; a started stage is not given up
  | trip | close => exact absurd hr hold
  | starts hs => exact absurd ((hs.result? i).symm.trans hr) hold
  | cancels _ hidle hs =>
    rcases hs.origin hr with hr | ⟨-, ⟨rfl, -⟩ | hgiven⟩
    · exact absurd hr hold
    · exact absurd ((h.mem_running i).mpr ⟨hi, hnone⟩) hidle
    · exact absurd hgiven hnot
  | ends _ hs =>
    rcases hs.origin hr with hr | ⟨-, ⟨rfl, rfl⟩ | hgiven⟩
    · exact absurd hr hold
    · exact ⟨_, rfl, by rw [h.plan]⟩
    · exact absurd hgiven hnot

/-- The stages in flight are those whose status says that they run. -/
theorem mem_inFlight (h : Sound p d) {i : Nat} : i ∈ d.inFlight ↔ i ∈ d.state.running := by
  rw [h.mem_running, inFlight, List.mem_filter, Option.isNone_iff_eq_none, HasStarted]

/-- Both lists are the same up to the order. -/
theorem inFlight_perm (h : Sound p d) : d.inFlight.Perm d.state.running :=
  (List.perm_ext_iff_of_nodup (h.started_nodup.filter _) h.coherent.running_nodup).mpr fun _ =>
    h.mem_inFlight

end Sound

/-! ## What a step leaves

  And what is not changed by it.  These are the frame lemmas that the other modules use, so they do not look at the
  step again. -/

/-- A step starts one stage at most, and only `take` starts any. -/
theorem started_of_step {d d' : Dispatch} {e : Event} (h : d.step e = some d') :
    ∃ new : Option (Nat × Bool), d'.started = d.started ++ new.toList ∧ (e ≠ .take → new = none) := by
  obtain ⟨-, hcase⟩ := step_cases h
  cases e with
  | take =>
    obtain ⟨x, new, -, rfl⟩ := hcase
    exact ⟨_, rfl, fun he => absurd rfl he⟩
  | trip reason =>
    obtain ⟨-, rfl⟩ := hcase
    exact ⟨none, (List.append_nil _).symm, fun _ => rfl⟩
  | finish i ending =>
    obtain ⟨-, -, rfl⟩ := hcase
    exact ⟨none, (List.append_nil _).symm, fun _ => rfl⟩
  | close =>
    obtain ⟨-, -, rfl⟩ := hcase
    exact ⟨none, (List.append_nil _).symm, fun _ => rfl⟩

/-- Only a start of a stage adds to the started ones. -/
theorem started_eq_of_step {d d' : Dispatch} {e : Event} (h : d.step e = some d') (he : e ≠ .take) :
    d'.started = d.started := by
  obtain ⟨new, hstarted, hnew⟩ := started_of_step h
  rw [hstarted, hnew he, Option.toList_none, List.append_nil]

/-- What was started stays among the started ones. -/
theorem mem_started_of_step {d d' : Dispatch} {e : Event} (h : d.step e = some d') {x : Nat × Bool}
    (hx : x ∈ d.started) : x ∈ d'.started := by
  obtain ⟨new, hstarted, -⟩ := started_of_step h
  rw [hstarted]
  exact List.mem_append_left _ hx

/-- A stage that has started has started after any step. -/
theorem HasStarted.step {d d' : Dispatch} {e : Event} {i : Nat} (hi : d.HasStarted i)
    (h : d.step e = some d') : d'.HasStarted i := by
  obtain ⟨x, hx, rfl⟩ := List.mem_map.mp hi
  exact List.mem_map.mpr ⟨x, mem_started_of_step h hx, rfl⟩

/-- A step that does not tell of a started stage leaves its result. -/
theorem Sound.result?_of_step {p : Pipeline} {d d' : Dispatch} {e : Event} {i : Nat} (hs : Sound p d)
    (h : d.step e = some d') (he : ∀ ending, e ≠ .finish i ending) (hi : d'.HasStarted i) :
    d'.state.result? i = d.state.result? i := by
  cases hr : d.state.result? i with
  | some r => exact (hs.extends_step h).result? i r hr
  | none =>
    by_contra hsome
    obtain ⟨r, hr'⟩ := Option.ne_none_iff_exists'.mp hsome
    obtain ⟨ending, rfl, -⟩ := hs.new_result h hr hr' hi
    exact he ending rfl

/-- Only `close` brings an outcome. -/
theorem outcome_eq_of_step {d d' : Dispatch} {e : Event} (h : d.step e = some d')
    (he : e ≠ .close) : d'.outcome = none := by
  obtain ⟨hout, hcase⟩ := step_cases h
  cases e with
  | close => exact absurd rfl he
  | trip reason =>
    rw [hcase.2]
    exact hout
  | finish i ending =>
    rw [hcase.2.2]
    exact hout
  | take =>
    obtain ⟨x, new, -, rfl⟩ := hcase
    exact hout

/-- Only a trip trips the loop. -/
theorem tripped_of_step {d d' : Dispatch} {e : Event} (h : d.step e = some d') (ht : d'.tripped ≠ none) :
    d.tripped ≠ none ∨ ∃ text, e = .trip text := by
  obtain ⟨-, hcase⟩ := step_cases h
  cases e with
  | trip text => exact Or.inr ⟨text, rfl⟩
  | take =>
    obtain ⟨x, new, -, rfl⟩ := hcase
    exact Or.inl ht
  | finish i ending =>
    rw [hcase.2.2] at ht
    exact Or.inl ht
  | close =>
    rw [hcase.2.2] at ht
    exact Or.inl ht

/-! ## Pipelines that were built

  A pipeline that was built from stages has the plan of those stages, so the hypotheses above hold of it.  The fork is
  the pipeline that the examples of this directory use. -/

/-- A pipeline is built from the plan of its stages. -/
theorem plan_of_build {name : String} {specs : List StageSpec} {config : PipelineConfig}
    (hp : Pipeline.build name specs config = .ok p) : plan specs = .ok p.plan ∧ p.config = config := by
  rw [Pipeline.build] at hp
  cases hplan : plan specs with
  | error e =>
    rw [hplan] at hp
    cases hp
  | ok q =>
    rw [hplan] at hp
    cases hp
    exact ⟨rfl, rfl⟩

/-- **A pipeline that was built is sound after any steps**, and its plan describes its stages. -/
theorem sound_of_build {name : String} {specs : List StageSpec} {config : PipelineConfig}
    (hp : Pipeline.build name specs config = .ok p) (hd : (start p).follow events = some d) :
    Sound p d ∧ p.plan.Describes specs := by
  have hdesc := (describes_of_plan (plan_of_build hp).1).1
  exact ⟨(Sound.start hdesc.toWellFormed).follow hd, hdesc⟩

/-- A pipeline of two stages and a third one that waits for both. -/
def forked : Pipeline :=
  { name := "forked"
    specs := [{ name := "a", targets := [⟨"out/a"⟩] }, { name := "b", targets := [⟨"out/b"⟩] },
      { name := "c", predecessors := ["a", "b"], targets := [⟨"out"⟩] }]
    plan := ⟨["a", "b", "c"], [[], [], [0, 1]], [0, 1, 2], [[], [], [0, 1]]⟩
    config := { maxWorkers := 2 } }

end Dispatch

end Wheelwright
