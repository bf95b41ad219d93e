/-
  Causes — why a stage did not succeed, followed back to where it began.

  **Specification** — a stage that was never started has a reason: it reports the tripped token, or it names a
  direct predecessor that did not succeed and whose result was told before its own.  Whoever follows
  the names comes to an end, at a stage that was started and did not succeed or at the tripped token.  So
  what the whole run came to can be read off the stages that were started, and the token.

  **Program** — `Dispatch.step` over any events; `block` gives up stages in a recursion while others run.

  **The crux** — the order in which results come is kept with the cause of each (`Attributed`).  A stage is
  given up for one whose result is there already, so its cause stands before it; that the names cannot
  go in a circle follows from the order of the plan, in which a stage stands after its predecessors.
-/
import Wheelwright.Proofs.Dispatch.Tripping

namespace Wheelwright

open Execution (Noted GivesUp Settles Starts Extends blockReason cancelReason positionOf)

/-! ## Orders

  The order in which results came is a list, and an earlier result is one with a smaller place in it. -/

/-- In the list `a` stands before `b`. -/
def Earlier (l : List Nat) (a b : Nat) : Prop := ∃ before after, l = before ++ b :: after ∧ a ∈ before

/-- What came earlier stays earlier as the list grows. -/
theorem Earlier.append {l : List Nat} {a b : Nat} (h : Earlier l a b) (more : List Nat) :
    Earlier (l ++ more) a b := by
  obtain ⟨before, after, rfl, ha⟩ := h
  exact ⟨before, after ++ more, by rw [List.append_assoc, List.cons_append], ha⟩

/-- The last one comes after all others. -/
theorem Earlier.last {l : List Nat} {a : Nat} (h : a ∈ l) (b : Nat) : Earlier (l ++ [b]) a b := ⟨l, [], rfl, h⟩

/-! ## Reasons as texts

  The reason of a stage that was given up is a text.  That a text names one predecessor, and that it does not report
  the token as well, has to be read off the text itself. -/

/-- The reason of a blocked stage names the one it was blocked by. -/
theorem Execution.blockReason_inj {a b : String} (h : blockReason a = blockReason b) : a = b := by
  rw [blockReason, blockReason, String.append_left_inj, String.append_right_inj] at h
  exact h

/-- The second letter of a text is that of any longer one. -/
theorem secondLetter_append {s : String} {a b : Char} {rest : List Char} (h : s.toList = a :: b :: rest) (t : String) :
    (s ++ t).toList[1]? = some b := by
  rw [String.toList_append, h]
  rfl

/-- The two kinds of reason part at the second letter. -/
theorem Execution.blockReason_ne_cancelReason (a b : String) : blockReason a ≠ cancelReason b := by
  intro h
  have hpredecessor : "predecessor '".toList = 'p' :: 'r' :: "edecessor '".toList := by decide +kernel
  have hpipeline : "pipeline cancelled: ".toList = 'p' :: 'i' :: "peline cancelled: ".toList := by decide +kernel
  have hblock : (blockReason a).toList[1]? = some 'r' := by
    rw [blockReason, String.append_assoc]
    exact secondLetter_append hpredecessor _
  have hcancel : (cancelReason b).toList[1]? = some 'i' := secondLetter_append hpipeline b
  rw [h, hcancel] at hblock
  exact absurd hblock (by decide)

/-- Stages of an accepted plan have different names. -/
theorem Plan.nameOf_inj {p : Plan} (hp : p.names.Nodup) {i j : Nat} (hi : i < p.names.length)
    (hj : j < p.names.length) (h : p.nameOf i = p.nameOf j) : i = j := by
  rw [nameOf, nameOf, List.getD_eq_getElem _ _ hi, List.getD_eq_getElem _ _ hj] at h
  exact (List.Nodup.getElem_inj_iff hp).mp h

namespace Execution

variable {x y z : Execution} {i : Nat} {r : StageResult} {root root' : Nat → Prop} {settled : List Nat}

/-! ## Results in the order in which they came

  `Attributed` keeps the list of settled stages together with the cause of each.  A stage that is given up is put at
  the end, and the one that it was given up for is in the list already. -/

/-- The results came in the order of `settled`, and each stage that is no root was given up for a direct
    predecessor that came before it and did not succeed. -/
structure Attributed (root : Nat → Prop) (x : Execution) (settled : List Nat) : Prop where
  /-- Every stage is settled once. -/
  nodup : settled.Nodup
  /-- The list holds the stages that have a result. -/
  mem : ∀ i, i ∈ settled ↔ (x.result? i).isSome
  /-- Listeners were told in its order. -/
  delivered : x.delivered = settled.filterMap x.result?
  /-- A stage has its own cause, or a predecessor that failed before it and that it names. -/
  cause : ∀ i r, x.result? i = some r → root i ∨ ∃ q ∈ predsOf x.plan.predecessors i, x.Failed q ∧
    Earlier settled q i ∧ r = .blocked (x.plan.nameOf i) (blockReason (x.plan.nameOf q))

namespace Attributed

/-- Roots may be widened. -/
theorem mono (h : Attributed root x settled) (hroot : ∀ i, (x.result? i).isSome → root i → root' i) :
    Attributed root' x settled := by
  refine ⟨h.nodup, h.mem, h.delivered, ?_⟩
  intro i r hr
  rcases h.cause i r hr with hi | hq
  · exact Or.inl (hroot i (by rw [hr]; rfl) hi)
  · exact Or.inr hq

/-- **A result is noted**, of a root or of a stage that is given up. -/
theorem noted (h : Attributed root x settled) (hy : Noted x y i r) (hi : i < x.results.length)
    (hnone : x.result? i = none) (hcause : root i ∨ ∃ q ∈ predsOf x.plan.predecessors i, x.Failed q ∧
      r = .blocked (x.plan.nameOf i) (blockReason (x.plan.nameOf q))) :
    Attributed root y (settled ++ [i]) := by
  have hext := Extends.of_noted hy hnone
  obtain ⟨hnd, hmem, hdel⟩ := hy.told_append hi hnone h.nodup h.mem h.delivered
  refine ⟨hnd, hmem, hdel, ?_⟩
  intro j s hj
  rw [hext.plan]
  -- either the stage that has just been noted, or one that had its result before
  rcases hy.result?_eq_some hj with ⟨rfl, rfl⟩ | hj
  · rcases hcause with hroot | ⟨q, hq, hfail, hr⟩
    · exact Or.inl hroot
    · -- the cause has a result, so it is in the list
      exact Or.inr ⟨q, hq, hext.failed hfail, .last ((h.mem q).mpr hfail.isSome) j, hr⟩
  · rcases h.cause j s hj with hroot | ⟨q, hq, hfail, hbefore, hr⟩
    · exact Or.inl hroot
    · exact Or.inr ⟨q, hq, hext.failed hfail, hbefore.append [i], hr⟩

/-- Stages are given up one after the other. -/
theorem givesUpAll (h : Attributed root x settled) (hp : x.plan.WellFormed)
    (hlen : x.results.length = x.plan.names.length) (hs : Relation.ReflTransGen GivesUp x y) :
    ∃ settled', Attributed root y settled' := by
  -- on the stages that give up, each because of one that is in the list already
  induction hs with
  | refl => exact ⟨settled, h⟩
  | @tail y z hxy hyz ih =>
    obtain ⟨settled', hy⟩ := ih
    have hext := Extends.of_givesUpAll hxy
    cases hyz with
    | @intro i q hnone hq hfail =>
      have hi : i < y.results.length := by
        rw [hext.results_length, hlen]
        rw [hext.plan] at hq
        exact hp.lt_of_mem_predsOf hq
      exact ⟨settled' ++ [i], hy.noted noted_note hi hnone (Or.inr ⟨q, hq, hfail, rfl⟩)⟩

/-- A root gets a result, and others are given up after it. -/
theorem settles (h : Attributed root x settled) (hx : x.Coherent) (hs : Settles x y i r) (hroot : root i) :
    ∃ settled', Attributed root y settled' := by
  obtain ⟨z, hz, hzy⟩ := hs.noted
  have hext := Extends.of_noted hz hs.fresh
  have hi : i < x.results.length := hx.results_length ▸ hs.lt
  refine (h.noted hz hi hs.fresh (Or.inl hroot)).givesUpAll ?_ ?_ hzy
  · rw [hext.plan]
    exact hx.plan
  · rw [hext.results_length, hext.plan, hx.results_length]

/-- A start settles nothing. -/
theorem starts (h : Attributed root x settled) (hs : Starts x y i) : Attributed root y settled := by
  have hresult : y.result? = x.result? := funext hs.result?
  refine ⟨h.nodup, ?_, ?_, ?_⟩
  · rw [hresult]
    exact h.mem
  · rw [hresult, hs.delivered]
    exact h.delivered
  · intro j s hj
    rw [hresult] at hj
    simp only [Failed, hresult, hs.plan]
    exact h.cause j s hj

end Attributed

end Execution

namespace Dispatch

variable {p : Pipeline} {d d' : Dispatch} {e : Event} {events : List Event} {i j q : Nat}

/-- The stage reports that the token was tripped. -/
def ReportsTrip (d : Dispatch) (i : Nat) : Prop := ∃ reason, d.tripped = some reason ∧
  d.state.result? i = some (.blocked (d.state.plan.nameOf i) (cancelReason reason))

/-- The stage was started, or it reports that the token was tripped. -/
def IsRoot (d : Dispatch) (i : Nat) : Prop := d.HasStarted i ∨ d.ReportsTrip i

/-! ## What each step keeps

  Each step of the loop settles nothing, or one root and then those that are given up after it. -/

/-- Without a trip, a root is a stage that was started. -/
theorem isRoot_of_tripped (h : d.tripped = none) (hi : d.IsRoot i) : d.HasStarted i := by
  rcases hi with hi | ⟨reason, htrip, -⟩
  · exact hi
  · rw [h] at htrip
    cases htrip

/-- What is reported stays so. -/
theorem ReportsTrip.withState {y : Execution} (hi : d.ReportsTrip i) (hext : Extends d.state y) :
    (d.withState y).ReportsTrip i := by
  obtain ⟨reason, htrip, hr⟩ := hi
  refine ⟨reason, htrip, ?_⟩
  show y.result? i = some (.blocked (y.plan.nameOf i) (cancelReason reason))
  rw [hext.plan]
  exact hext.result? i _ hr

namespace Sound

/-- **Causes are kept by every step.** -/
theorem attributed_step (h : Sound p d) (hs : d.step e = some d')
    (ha : ∃ settled, d.state.Attributed d.IsRoot settled) : ∃ settled, d'.state.Attributed d'.IsRoot settled := by
  obtain ⟨settled, ha⟩ := ha
  obtain ⟨-, hm⟩ := moves_of_step h.coherent h.closed hs
  cases hm with
  | trip htrip =>
    -- before the trip only started stages were roots
    exact ⟨settled, ha.mono fun i _ hi => Or.inl (isRoot_of_tripped (d := d) htrip hi)⟩
  | starts hst =>
    refine ⟨settled, (ha.starts hst).mono fun i _ hi => ?_⟩
    rcases hi with hi | hi
    · refine Or.inl ?_
      rw [HasStarted, List.map_append]
      exact List.mem_append_left _ hi
    · exact Or.inr (hi.withState (.of_starts hst))
  | @cancels y i reason htrip hidle hst =>
    have hext := Extends.of_settles hst
    refine (ha.mono ?_).settles h.coherent hst ?_
    · intro j _ hj
      exact hj.imp_right fun hj => hj.withState hext
    · refine Or.inr ⟨reason, htrip, ?_⟩
      -- a stage taken after the trip is given up with the reason of the token
      show y.result? i = some (.blocked (y.plan.nameOf i) (cancelReason reason))
      rw [hext.plan]
      exact hst.result?_self h.coherent.results_length
  | @ends y i ending hrun hst =>
    -- a stage that ends was started
    have hext := Extends.of_settles hst
    refine (ha.mono ?_).settles h.coherent hst (Or.inl ((h.mem_running i).mp hrun).1)
    intro j _ hj
    exact hj.imp_right fun hj => hj.withState hext
  | close => exact ⟨settled, ha⟩

/-- The causes of the settled stages hold in every state the loop reaches. -/
theorem attributed_follow (h : Sound p d) (hd : d.follow events = some d')
    (ha : ∃ settled, d.state.Attributed d.IsRoot settled) : ∃ settled, d'.state.Attributed d'.IsRoot settled := by
  induction events generalizing d with
  | nil =>
    cases hd
    exact ha
  | cons e rest ih =>
    obtain ⟨next, hs, hrest⟩ := follow_cons.mp hd
    exact ih (h.step hs) hrest (h.attributed_step hs ha)

end Sound

/-- Before anything is settled there is nothing to attribute. -/
theorem attributed_start (p : Pipeline) : (start p).state.Attributed (start p).IsRoot [] := by
  refine ⟨List.nodup_nil, ?_, rfl, ?_⟩
  · intro i
    rw [show (start p).state = Execution.start p.plan from rfl, Execution.result?_start]
    simp
  · intro i r hr
    rw [show (start p).state = Execution.start p.plan from rfl, Execution.result?_start] at hr
    cases hr

/-- Only a trip trips the token. -/
theorem trip_mem_of_follow {reason : String} (hd : d.follow events = some d') (hnone : d.tripped = none)
    (htrip : d'.tripped = some reason) : .trip reason ∈ events := by
  -- the step that set the trip is an event of the sequence; the others leave it unset
  induction events generalizing d with
  | nil =>
    cases hd
    rw [hnone] at htrip
    cases htrip
  | cons e rest ih =>
    obtain ⟨next, hs, hrest⟩ := follow_cons.mp hd
    obtain ⟨-, hcase⟩ := step_cases hs
    cases e with
    | trip first =>
      obtain ⟨-, rfl⟩ := hcase
      have hkept := (started_of_follow_tripped rfl hrest).2
      rw [htrip] at hkept
      rw [Option.some.inj hkept]
      exact List.mem_cons_self
    | take =>
      obtain ⟨x, new, -, rfl⟩ := hcase
      exact List.mem_cons_of_mem _ (ih hrest hnone)
    | finish j ending =>
      obtain ⟨-, -, rfl⟩ := hcase
      exact List.mem_cons_of_mem _ (ih hrest hnone)
    | close =>
      obtain ⟨-, -, rfl⟩ := hcase
      exact List.mem_cons_of_mem _ (ih hrest hnone)

/-! ## Following the names

  Names are followed from a stage to the one that it blames.  They cannot go on for ever, since each goes to an
  earlier place of the order; and where they stop is a root. -/

/-- The stage was never started, and its reason names the direct predecessor `q`. -/
def Blames (d : Dispatch) (i q : Nat) : Prop :=
  ¬ d.HasStarted i ∧ q ∈ predsOf d.state.plan.predecessors i ∧
    ∃ r, d.state.result? i = some r ∧ r.cancelReason = some (blockReason (d.state.plan.nameOf q))

/-- Names go back in the order of the plan. -/
theorem Sound.wellFounded_blames (h : Sound p d) : WellFounded fun q i => d.Blames i q := by
  refine Subrelation.wf ?_ (InvImage.wf (positionOf d.state.plan) Nat.lt_wfRel.wf)
  rintro q i ⟨-, hq, -⟩
  exact h.coherent.plan.positionOf_lt_of_mem hq

section Chains

variable {settled : List Nat} (ha : d.state.Attributed d.IsRoot settled)
include ha

/-- Why a stage has a result that was never started. -/
theorem cause_of_not_started {r : StageResult} (hr : d.state.result? i = some r) (hi : ¬ d.HasStarted i) :
    d.ReportsTrip i ∨ ∃ q ∈ predsOf d.state.plan.predecessors i, d.state.Failed q ∧ Earlier settled q i ∧
      r = .blocked (d.state.plan.nameOf i) (blockReason (d.state.plan.nameOf q)) := by
  rcases ha.cause i r hr with (hst | htrip) | hq
  · exact absurd hst hi
  · exact Or.inl htrip
  · exact Or.inr hq

omit ha in
/-- A root names nobody. -/
theorem IsRoot.not_blames (hi : d.IsRoot i) (q : Nat) : ¬ d.Blames i q := by
  rintro ⟨hns, -, r, hr, htext⟩
  rcases hi with hst | ⟨reason, -, hblocked⟩
  · exact hns hst
  · rw [hr] at hblocked
    rw [Option.some.inj hblocked] at htext
    exact Execution.blockReason_ne_cancelReason _ _ (Option.some.inj htext).symm

/-- What is named did not succeed. -/
theorem failed_of_blames (hp : d.state.plan.WellFormed) (hnames : d.state.plan.names.Nodup) (hb : d.Blames i q) :
    d.state.Failed q := by
  obtain ⟨hi, hq, r, hr, htext⟩ := id hb
  rcases cause_of_not_started ha hr hi with htrip | ⟨q', hq', hfail, -, rfl⟩
  · exact absurd hb (IsRoot.not_blames (Or.inr htrip) q)
  · -- the text names one stage only
    have hname := Execution.blockReason_inj (Option.some.inj htext)
    rwa [← Plan.nameOf_inj hnames (hp.lt i q' hq') (hp.lt i q hq) hname]

/-- Every stage on the way back did not succeed, and has a cause unless the way ends there. -/
theorem cause_of_chain (hp : d.state.plan.WellFormed) (hnames : d.state.plan.names.Nodup) (hi : d.state.Failed i)
    (hj : Relation.ReflTransGen d.Blames i j) : d.state.Failed j ∧ (d.IsRoot j ∨ ∃ q, d.Blames j q) := by
  have hfail : d.state.Failed j := by
    induction hj with
    | refl => exact hi
    | tail _ hb _ => exact failed_of_blames ha hp hnames hb
  refine ⟨hfail, ?_⟩
  obtain ⟨r, hr, -⟩ := hfail
  by_cases hst : d.HasStarted j
  · exact Or.inl (Or.inl hst)
  · rcases cause_of_not_started ha hr hst with htrip | ⟨q, hq, -, -, rfl⟩
    · exact Or.inl (Or.inr htrip)
    · exact Or.inr ⟨q, hst, hq, _, hr, rfl⟩

/-- **The way back ends at a root.** -/
theorem exists_root (h : Sound p d) (hnames : d.state.plan.names.Nodup) (hi : d.state.Failed i) :
    ∃ root, Relation.ReflTransGen d.Blames i root ∧ d.state.Failed root ∧ d.IsRoot root := by
  induction i using h.wellFounded_blames.induction with
  | _ i ih =>
    rcases (cause_of_chain ha h.coherent.plan hnames hi .refl).2 with hroot | ⟨q, hq⟩
    · exact ⟨i, .refl, hi, hroot⟩
    · obtain ⟨root, hpath, hfail, hroot⟩ := ih q hq (failed_of_blames ha h.coherent.plan hnames hq)
      exact ⟨root, .head hq hpath, hfail, hroot⟩

end Chains

end Dispatch

/-! ## What the run came to

  The status of the outcome is an aggregate over all results, and the results of stages that were never started
  contribute nothing to it but cancellations.  So each of the three statuses is told by the roots. -/

namespace PipelineStatus

variable {statuses : List StageStatus}

/-- A run fails exactly if a stage does. -/
theorem aggregate_eq_failed_iff : aggregate statuses = .failed ↔ .failed ∈ statuses := by
  rw [aggregate]
  split
  · rename_i h
    exact iff_of_true rfl (List.contains_iff_mem.mp h)
  · rename_i h
    rw [List.contains_iff_mem] at h
    refine iff_of_false ?_ h
    split
    · exact PipelineStatus.noConfusion
    · exact PipelineStatus.noConfusion

/-- A run succeeds exactly if every stage does. -/
theorem aggregate_eq_succeeded_iff : aggregate statuses = .succeeded ↔ ∀ s ∈ statuses, s = .succeeded := by
  rw [aggregate]
  split
  · rename_i h
    refine iff_of_false PipelineStatus.noConfusion ?_
    intro hall
    cases hall _ (List.contains_iff_mem.mp h)
  · split
    · rename_i h
      refine iff_of_true rfl ?_
      intro s hs
      exact of_decide_eq_true (List.all_eq_true.mp h s hs)
    · rename_i h
      refine iff_of_false PipelineStatus.noConfusion ?_
      intro hall
      exact h (List.all_eq_true.mpr fun s hs => decide_eq_true (hall s hs))

end PipelineStatus

namespace Dispatch

variable {p : Pipeline} {d : Dispatch} {events : List Event} {i : Nat} {o : PipelineOutcome}

/-- The results of the outcome are those of all stages. -/
theorem Sound.mem_statuses (h : Sound p d) (ho : d.outcome = some o) {s : StageStatus} :
    s ∈ o.results.map (·.status) ↔ ∃ i r, d.state.result? i = some r ∧ r.status = s := by
  have hresults : o.results = d.state.plan.order.filterMap d.state.result? := by
    rw [(h.ended o ho).2]
    rfl
  rw [List.mem_map, hresults]
  constructor
  · rintro ⟨r, hr, rfl⟩
    obtain ⟨i, -, hi⟩ := List.mem_filterMap.mp hr
    exact ⟨i, r, hi, rfl⟩
  · rintro ⟨i, r, hi, rfl⟩
    have hlt := h.coherent.lt_of_result? (by rw [hi]; rfl)
    exact ⟨r, List.mem_filterMap.mpr ⟨i, h.coherent.plan.mem_order.mpr hlt, hi⟩, rfl⟩

/-- The status of an outcome is the aggregate of its results. -/
theorem Sound.status_of_outcome (h : Sound p d) (ho : d.outcome = some o) :
    o.status = .aggregate (o.results.map (·.status)) := by
  rw [(h.ended o ho).2]
  rfl

/-- A started stage has the result that it returned. -/
theorem finish_of_started (hwf : p.plan.WellFormed) (hd : (start p).follow events = some d) (hi : d.HasStarted i)
    {r : StageResult} (hr : d.state.result? i = some r) :
    ∃ ending, .finish i ending ∈ events ∧ r = p.plan.resultOf i ending := by
  rcases (Sound.start hwf).result_of_follow hd hi hr with hnone | hmem
  · rw [show (start p).state = Execution.start p.plan from rfl, Execution.result?_start] at hnone
    cases hnone
  · exact hmem

/-- Only what was started can have failed: what was given up counts as cancelled. -/
theorem Sound.status_failed_iff (h : Sound p d) (hwf : p.plan.WellFormed) (hd : (Dispatch.start p).follow events = some d)
    (ho : d.outcome = some o) : o.status = .failed ↔
      ∃ i ending, .finish i ending ∈ events ∧ (p.plan.resultOf i ending).status = .failed := by
  rw [h.status_of_outcome ho, PipelineStatus.aggregate_eq_failed_iff, h.mem_statuses ho]
  constructor
  · rintro ⟨i, r, hr, hfailed⟩
    by_cases hi : d.HasStarted i
    · obtain ⟨ending, hm, rfl⟩ := finish_of_started hwf hd hi hr
      exact ⟨i, ending, hm, hfailed⟩
    · rw [(h.neverRan hi hr).status] at hfailed
      cases hfailed
  · rintro ⟨i, ending, hm, hfailed⟩
    exact ⟨i, _, (Sound.start hwf).result?_of_finish_mem hd hm, hfailed⟩

/-- An outcome is a success exactly if every stage of the plan has succeeded. -/
theorem Sound.status_succeeded_iff (h : Sound p d) (ho : d.outcome = some o) : o.status = .succeeded ↔
    ∀ i < p.plan.names.length, ∃ r, d.state.result? i = some r ∧ r.status = .succeeded := by
  -- every status is succeeded exactly when every stage has a result, which is so
  rw [h.status_of_outcome ho, PipelineStatus.aggregate_eq_succeeded_iff]
  constructor
  · intro hall i hi
    obtain ⟨r, hr⟩ := Option.isSome_iff_exists.mp (h.settled_of_outcome ho i hi)
    exact ⟨r, hr, hall _ ((h.mem_statuses ho).mpr ⟨i, r, hr, rfl⟩)⟩
  · intro hall s hs
    obtain ⟨i, r, hr, rfl⟩ := (h.mem_statuses ho).mp hs
    have hlt := h.coherent.lt_of_result? (by rw [hr]; rfl)
    rw [h.plan] at hlt
    obtain ⟨r', hr', hsucceeded⟩ := hall i hlt
    rw [hr] at hr'
    rw [Option.some.inj hr', hsucceeded]

/-- A stage that has ended succeeded, failed or was cancelled. -/
theorem status_eq_of_isTerminal {s : StageStatus} (h : s.isTerminal = true) :
    s = .succeeded ∨ s = .failed ∨ s = .cancelled := by
  cases s with
  | pending | running => cases h
  | succeeded => exact Or.inl rfl
  | failed => exact Or.inr (Or.inl rfl)
  | cancelled => exact Or.inr (Or.inr rfl)

/-- A cancelled run goes back to a stage that returned so, or to the token. -/
theorem Sound.cause_of_cancelled (h : Sound p d) (hwf : p.plan.WellFormed) (hd : (Dispatch.start p).follow events = some d)
    (hnames : p.plan.names.Nodup) (ho : d.outcome = some o)
    (hterminal : ∀ i ending, .finish i ending ∈ events → (p.plan.resultOf i ending).status.isTerminal = true)
    (hcancelled : o.status = .cancelled) : (∃ reason, .trip reason ∈ events) ∨
      ∃ i ending, .finish i ending ∈ events ∧ (p.plan.resultOf i ending).status = .cancelled := by
  -- some stage did not succeed
  -- some stage did not succeed
  obtain ⟨i, r, hr, hne⟩ : ∃ i r, d.state.result? i = some r ∧ r.status ≠ .succeeded := by
    have hnot : ¬ ∀ s ∈ o.results.map (·.status), s = .succeeded := by
      rw [← PipelineStatus.aggregate_eq_succeeded_iff, ← h.status_of_outcome ho, hcancelled]
      exact PipelineStatus.noConfusion
    push Not at hnot
    obtain ⟨s, hs, hne⟩ := hnot
    obtain ⟨i, r, hr, rfl⟩ := (h.mem_statuses ho).mp hs
    exact ⟨i, r, hr, hne⟩
  have hfail : d.state.Failed i := ⟨r, hr, decide_eq_false hne⟩
  -- its chain of causes ends in a stage that was started, or in the token
  obtain ⟨settled, ha⟩ := (Sound.start hwf).attributed_follow hd ⟨[], attributed_start p⟩
  obtain ⟨root, -, ⟨s, hs, hfailed⟩, hst | ⟨reason, htrip, -⟩⟩ := exists_root ha h (h.plan ▸ hnames) hfail
  · obtain ⟨ending, hm, rfl⟩ := finish_of_started hwf hd hst hs
    refine Or.inr ⟨root, ending, hm, ?_⟩
    rcases status_eq_of_isTerminal (hterminal root ending hm) with heq | heq | heq
    · exact absurd heq (of_decide_eq_false hfailed)
    · have hbad := (h.status_failed_iff hwf hd ho).mpr ⟨root, ending, hm, heq⟩
      rw [hcancelled] at hbad
      cases hbad
    · exact heq
  · exact Or.inl ⟨reason, trip_mem_of_follow hd rfl htrip⟩

/-! ## The main result

  What causes have to be, as a structure, the theorem for every run, and one run of the fork in which a stage breaks
  off before the token is tripped. -/

/-- What the causes of failure are at a state `d`, to which `events` led a run of the pipeline `p`. -/
structure Caused (specs : List StageSpec) (p : Pipeline) (events : List Event) (d : Dispatch) : Prop where
  /-- The reason of a stage that was never started is the tripped token, or a direct predecessor whose result was no
      success and was told before. -/
  earlier : ∃ settled : List Nat, settled.Nodup ∧ (∀ i, i ∈ settled ↔ (d.state.result? i).isSome) ∧
    d.told = (settled.filterMap d.state.result?).map .stage ++ (d.outcome.map .pipeline).toList ∧
    ∀ i r, d.state.result? i = some r → ¬ d.HasStarted i →
      (∃ reason, .trip reason ∈ events ∧ r.cancelReason = some (cancelReason reason)) ∨
      ∃ q, Precedes specs q i ∧ r.cancelReason = some (blockReason (p.plan.nameOf q)) ∧ d.state.Failed q ∧
        Earlier settled q i
  /-- The names lead back without a circle. -/
  wellFounded : WellFounded fun q i => d.Blames i q
  /-- They lead from every stage to one that blames no other. -/
  rooted : ∀ i, d.state.Failed i → ∃ root, Relation.ReflTransGen d.Blames i root ∧ ∀ q, ¬ d.Blames root q
  /-- Such a one was started and did not succeed, or names the tripped token. -/
  root : ∀ i root, d.state.Failed i → Relation.ReflTransGen d.Blames i root → (∀ q, ¬ d.Blames root q) →
    d.state.Failed root ∧ (d.HasStarted root ∨ ∃ reason r, .trip reason ∈ events ∧
      d.state.result? root = some r ∧ r.cancelReason = some (cancelReason reason))
  /-- So what the run came to is what its started stages and its token made of it. -/
  failed_iff : ∀ o, d.outcome = some o →
    (o.status = .failed ↔ ∃ i ending, .finish i ending ∈ events ∧ (p.plan.resultOf i ending).status = .failed)
  succeeded_iff : ∀ o, d.outcome = some o →
    (o.status = .succeeded ↔ ∀ i < specs.length, ∃ r, d.state.result? i = some r ∧ r.status = .succeeded)
  cancelled : ∀ o, d.outcome = some o → o.status = .cancelled → (∃ reason, .trip reason ∈ events) ∨
    ∃ i ending, .finish i ending ∈ events ∧ (p.plan.resultOf i ending).status = .cancelled

/-- **Why a stage did not succeed can be followed back to its beginning**, in every run, with any number of workers, in
    whatever order stages end, with whatever results, and whenever the token is tripped. -/
theorem causes_well_founded {name : String} {specs : List StageSpec} {config : PipelineConfig}
    (hp : Pipeline.build name specs config = .ok p) (hd : (start p).follow events = some d)
    (hterminal : ∀ i ending, .finish i ending ∈ events → (p.plan.resultOf i ending).status.isTerminal = true) :
    Caused specs p events d := by
  obtain ⟨h, hdesc⟩ := sound_of_build hp hd
  have hwf := hdesc.toWellFormed
  have hunique : p.plan.names.Nodup := hdesc.names_eq ▸ (describes_of_plan (plan_of_build hp).1).2.1
  have hnames : d.state.plan.names.Nodup := h.plan ▸ hunique
  -- the order in which the stages were settled, with the cause of each
  obtain ⟨settled, ha⟩ := (Sound.start hwf).attributed_follow hd ⟨[], attributed_start p⟩
  constructor
  case earlier =>
    refine ⟨settled, ha.nodup, ha.mem, by rw [h.told, ha.delivered], fun i r hr hi => ?_⟩
    rcases cause_of_not_started ha hr hi with ⟨reason, htrip, hblocked⟩ | ⟨q, hq, hfail, hearlier, rfl⟩
    -- the token was tripped while the loop was followed
    · rw [hr] at hblocked
      exact Or.inl ⟨reason, trip_mem_of_follow hd rfl htrip, by rw [Option.some.inj hblocked]; rfl⟩
    · refine Or.inr ⟨q, ?_, by rw [← h.plan]; rfl, hfail, hearlier⟩
      rw [← hdesc.edge_eq, ← h.plan]
      exact hq
  case wellFounded => exact h.wellFounded_blames
  case rooted =>
    intro i hi
    obtain ⟨root, hpath, -, hroot⟩ := exists_root ha h hnames hi
    exact ⟨root, hpath, hroot.not_blames⟩
  case root =>
    intro i root hi hpath hend
    obtain ⟨hfail, hcause⟩ := cause_of_chain ha h.coherent.plan hnames hi hpath
    refine ⟨hfail, ?_⟩
    rcases hcause with (hst | ⟨reason, htrip, hblocked⟩) | ⟨q, hq⟩
    · exact Or.inl hst
    · exact Or.inr ⟨reason, _, trip_mem_of_follow hd rfl htrip, hblocked, rfl⟩
    · exact absurd hq (hend q)
  case failed_iff => exact fun o ho => h.status_failed_iff hwf hd ho
  case succeeded_iff =>
    intro o ho
    rw [h.status_succeeded_iff ho, hdesc.names_length]
  case cancelled => exact fun o ho => h.cause_of_cancelled hwf hd hunique ho hterminal

/-- In the fork one stage breaks off and the token is tripped after that: the third stage names the first one, and
    the second one, which was never started, reports the token. -/
theorem causes_well_founded_forked :
    ∃ d o, (start { forked with config := { maxWorkers := 1 } }).follow
        [.take, .finish 0 (.error "broken"), .trip "stop", .take, .close] = some d ∧
      d.outcome = some o ∧ o.status = .failed ∧ d.Blames 2 0 ∧ ¬ d.HasStarted 1 ∧
      (d.state.result? 1).map (·.cancelReason) = some (some "pipeline cancelled: stop") ∧
      WellFounded fun q i => d.Blames i q := by
  have hp : Pipeline.build "forked" forked.specs { maxWorkers := 1 } =
      .ok { forked with config := { maxWorkers := 1 } } := rfl
  have hrun : ((start { forked with config := { maxWorkers := 1 } }).follow
      [.take, .finish 0 (.error "broken"), .trip "stop", .take, .close]).map (fun d =>
        (d.started, d.outcome.isSome, d.state.plan.predecessors, d.state.plan.names,
          [1, 2].map fun i => (d.state.result? i).map (·.cancelReason))) =
      some ([(0, false)], true, [[], [], [0, 1]], ["a", "b", "c"],
        [some (some "pipeline cancelled: stop"), some (some (blockReason "a"))]) := by
    rfl
  obtain ⟨d, hd, hrun⟩ := Option.map_eq_some_iff.mp hrun
  simp only [List.map_cons, List.map_nil, Prod.mk.injEq, List.cons.injEq, and_true] at hrun
  obtain ⟨hstarted, hended, hpreds, hnames, hone, htwo⟩ := hrun
  obtain ⟨o, ho⟩ := Option.isSome_iff_exists.mp hended
  obtain ⟨r, hr, hreason⟩ := Option.map_eq_some_iff.mp htwo
  have h := causes_well_founded hp hd (by
    intro i ending hm
    simp only [List.mem_cons, reduceCtorEq, Event.finish.injEq, List.not_mem_nil, or_false, false_or] at hm
    rw [hm.1, hm.2]
    rfl)
  refine ⟨d, o, hd, ho, (h.failed_iff o ho).mpr ⟨0, .error "broken", ?_, rfl⟩, ⟨?_, ?_, r, hr, ?_⟩, ?_, hone,
    h.wellFounded⟩
  · exact List.mem_cons_of_mem _ List.mem_cons_self
  · rw [HasStarted, hstarted]
    decide
  · rw [hpreds]
    decide
  · rw [hreason, Plan.nameOf, hnames]
    rfl
  · rw [HasStarted, hstarted]
    decide

end Dispatch

end Wheelwright
