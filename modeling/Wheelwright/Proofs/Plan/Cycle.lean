/-
  Cycles — what is said of stages that wait for each other.

  **Specification** — `IsCycle specs cycle`: the names go round.  Each is a declared predecessor of the next, the last is
  the first again, no other one comes twice, and there are two stages at least.

  **Program** — `findCycle` starts at the first stage that could not be placed and walks to the first predecessor that
  could not be placed either, until it meets a stage of its trail; what the trail holds in front of that stage is left out.

  **The crux** — `IsTrail`: a trail holds unplaced stages, each once, so it is never longer than the list of unplaced
  stages; and every unplaced stage waits for an unplaced one (`exists_waiting_predecessor`), so the walk never stops before
  it meets a stage again.  Stages that only wait for a cycle may be on the trail, and are in front of the cycle there.
-/
import Mathlib.Data.List.Chain
import Wheelwright.Proofs.Plan.Names

namespace Wheelwright

variable {preds : List (List Nat)} {waiting trail : List Nat}

/-! ## One step of the walk

  The walk as a function of its trail: it goes on, it closes, or it is stuck.  The program walks with a number of
  steps to bound it, and takes one of these each time. -/

/-- How a walk goes on from its trail. -/
inductive WalkStep where
  /-- The current stage waits for no waiting stage. -/
  | stuck
  /-- The next stage is on the trail already: a cycle, in the order it would run. -/
  | closed (cycle : List Nat)
  /-- The next stage is a new one. -/
  | onward (trail : List Nat)

/-- The step of a walk whose trail holds the current stage first. -/
def walkStep (preds : List (List Nat)) (waiting : List Nat) : List Nat → WalkStep
  | [] => .stuck
  | current :: older =>
    match (predsOf preds current).find? waiting.contains with
    | none => .stuck
    | some next =>
      if (current :: older).contains next then
        .closed (next :: ((current :: older).takeWhile (· ≠ next) ++ [next]))
      else .onward (next :: current :: older)

/-- Walking is taking one step after the other. -/
theorem walkCycle_succ (steps : Nat) (trail : List Nat) :
    walkCycle preds waiting (steps + 1) trail =
      match walkStep preds waiting trail with
      | .stuck => trail.reverse
      | .closed cycle => cycle
      | .onward longer => walkCycle preds waiting steps longer := by
  cases trail with
  | nil => rfl
  | cons current older =>
    rw [walkCycle, walkStep]
    cases (predsOf preds current).find? waiting.contains with
    | none => rfl
    | some next =>
      dsimp only
      split <;> rfl

/-! ## Trails and what they close to

  A trail has each stage once, so it cannot be longer than there are waiting stages.  If the next stage is on the
  trail already, what stands before it on the way is left out, and the rest is a loop. -/

/-- The stages of a trail are waiting stages, each once and a predecessor of the one visited before it. -/
structure IsTrail (preds : List (List Nat)) (waiting trail : List Nat) : Prop where
  /-- The stages gone through, each once, the latest first. -/
  nonempty : trail ≠ []
  nodup : trail.Nodup
  /-- They are all waiting. -/
  subset : trail ⊆ waiting
  /-- Each waits for the next. -/
  chain : trail.IsChain (Edge preds)

/-- The stages of a loop are each a predecessor of the next; the last is the first, and no other comes twice. -/
structure IsLoop (preds : List (List Nat)) (loop : List Nat) : Prop where
  /-- There and back again. -/
  length : 3 ≤ loop.length
  /-- It ends where it begins. -/
  closed : loop.head? = loop.getLast?
  /-- It is simple otherwise. -/
  distinct : loop.dropLast.Nodup
  chain : loop.IsChain (Edge preds)

/-- A trail is no longer than the list of waiting stages. -/
theorem IsTrail.length_le (h : IsTrail preds waiting trail) : trail.length ≤ waiting.length :=
  (List.subperm_of_subset h.nodup h.subset).length_le

/-- A trail that meets one of its stages again closes to a loop, without the stages visited before that one. -/
theorem IsTrail.isLoop (h : IsTrail preds waiting trail) (hself : ∀ i, ¬ Edge preds i i) {current next : Nat}
    (hhead : trail.head? = some current) (hedge : Edge preds next current) (hmem : next ∈ trail) :
    IsLoop preds (next :: (trail.takeWhile (· ≠ next) ++ [next])) := by
  obtain ⟨front, back, rfl, hfront⟩ := List.eq_append_cons_of_mem hmem
  have htake : (front ++ next :: back).takeWhile (· ≠ next) = front := by
    rw [List.takeWhile_append_of_pos fun i hi => decide_eq_true (ne_of_mem_of_not_mem hi hfront),
      List.takeWhile_cons_of_neg (by simp), List.append_nil]
  -- the current stage is not the one that is met, as no stage waits for itself
  obtain ⟨rest, rfl⟩ : ∃ rest, front = current :: rest := by
    cases front with
    | nil =>
      obtain rfl := Option.some.inj hhead
      exact absurd hedge (hself _)
    | cons first rest =>
      obtain rfl := Option.some.inj hhead
      exact ⟨rest, rfl⟩
  have hprefix : current :: rest ++ [next] <+: current :: rest ++ next :: back := ⟨back, by simp⟩
  -- the loop is the trail back to the stage that is met again
  rw [htake]
  refine ⟨by simp, ?_, ?_, ?_⟩
  · rw [← List.cons_append, List.getLast?_concat]
    rfl
  · rw [← List.cons_append, List.dropLast_concat]
    exact List.nodup_cons.mpr ⟨hfront, h.nodup.sublist (List.sublist_append_left _ _)⟩
  · exact List.isChain_cons_cons.mpr ⟨hedge, h.chain.prefix hprefix⟩

section Walk

variable (hself : ∀ i, ¬ Edge preds i i) (hwait : ∀ i ∈ waiting, ∃ j ∈ waiting, Edge preds j i)
include hself hwait

/-- **A walk goes on or closes**: the next stage makes the trail longer, or a loop of it. -/
theorem IsTrail.step (h : IsTrail preds waiting trail) :
    (∃ loop, walkStep preds waiting trail = .closed loop ∧ IsLoop preds loop ∧ loop ⊆ waiting) ∨
      ∃ next, walkStep preds waiting trail = .onward (next :: trail) ∧ IsTrail preds waiting (next :: trail) := by
  obtain ⟨current, older, rfl⟩ := List.exists_cons_of_ne_nil h.nonempty
  -- a waiting stage waits for a waiting one: either it is on the trail, or the trail grows
  cases hfind : (predsOf preds current).find? waiting.contains with
  | none =>
    obtain ⟨j, hj, hedge⟩ := hwait current (h.subset List.mem_cons_self)
    exact absurd (List.contains_iff_mem.mpr hj) (List.find?_eq_none.mp hfind j hedge)
  | some next =>
    have hedge : Edge preds next current := List.mem_of_find?_eq_some hfind
    have hnext : next ∈ waiting := List.contains_iff_mem.mp (List.find?_some hfind)
    by_cases hmem : next ∈ current :: older
    · refine Or.inl ⟨_, ?_, h.isLoop hself rfl hedge hmem, ?_⟩
      · rw [walkStep, hfind]
        exact if_pos (List.contains_iff_mem.mpr hmem)
      · refine List.cons_subset.mpr ⟨hnext, List.append_subset.mpr ⟨?_, by simpa using hnext⟩⟩
        exact List.Subset.trans (List.takeWhile_sublist _).subset h.subset
    · refine Or.inr ⟨next, ?_, List.cons_ne_nil _ _, List.nodup_cons.mpr ⟨hmem, h.nodup⟩,
        List.cons_subset.mpr ⟨hnext, h.subset⟩, List.isChain_cons_cons.mpr ⟨hedge, h.chain⟩⟩
      rw [walkStep, hfind]
      exact if_neg fun hc => hmem (List.contains_iff_mem.mp hc)

end Walk

/-! ## The whole walk

  By induction on the steps the walk stays a trail, and it closes before the steps that it is allowed have run out. -/

/-- `trail` is the trail of the walk from the first waiting stage after some steps. -/
inductive Visited (preds : List (List Nat)) (waiting : List Nat) : Nat → List Nat → Prop where
  /-- The walk starts at the first waiting stage. -/
  | start {first : Nat} (h : waiting.head? = some first) : Visited preds waiting 0 [first]
  /-- It goes on as long as it does not close. -/
  | onward {steps : Nat} {trail longer : List Nat} (h : Visited preds waiting steps trail)
      (hstep : walkStep preds waiting trail = .onward longer) : Visited preds waiting (steps + 1) longer

section Walk

variable (hself : ∀ i, ¬ Edge preds i i) (hwait : ∀ i ∈ waiting, ∃ j ∈ waiting, Edge preds j i)
include hself hwait

/-- Every step of a walk visits one stage more. -/
theorem Visited.isTrail {steps : Nat} (h : Visited preds waiting steps trail) :
    IsTrail preds waiting trail ∧ trail.length = steps + 1 := by
  -- on the walk, which is as long as the steps that were made
  induction h with
  | start hfirst =>
    have hmem := List.mem_of_mem_head? hfirst
    exact ⟨⟨List.cons_ne_nil _ _, List.nodup_singleton _, by simpa using hmem, List.isChain_singleton _⟩, rfl⟩
  | onward _ hstep ih =>
    obtain ⟨htrail, hlen⟩ := ih
    rcases htrail.step hself hwait with ⟨loop, hloop, -⟩ | ⟨next, hnext, hlonger⟩
    · rw [hstep] at hloop
      cases hloop
    · rw [hstep] at hnext
      cases hnext
      exact ⟨hlonger, by rw [List.length_cons, hlen]⟩

/-- A walk takes fewer steps than there are waiting stages until it closes, and it is never stuck. -/
theorem Visited.lt_length {steps : Nat} (h : Visited preds waiting steps trail) :
    steps < waiting.length ∧ walkStep preds waiting trail ≠ .stuck := by
  obtain ⟨htrail, hlen⟩ := h.isTrail hself hwait
  refine ⟨by have := htrail.length_le; omega, fun hstuck => ?_⟩
  rcases htrail.step hself hwait with ⟨loop, hloop, -⟩ | ⟨next, hnext, -⟩
  · rw [hstuck] at hloop; cases hloop
  · rw [hstuck] at hnext; cases hnext

/-- The steps that `walkCycle` may take are enough for the walk to close. -/
theorem Visited.closes : ∀ {fuel steps : Nat} {trail : List Nat}, Visited preds waiting steps trail →
    waiting.length ≤ steps + fuel → ∃ steps' trail', Visited preds waiting steps' trail' ∧
      walkStep preds waiting trail' = .closed (walkCycle preds waiting fuel trail) := by
  intro fuel
  -- a trail has no stage twice, so it cannot be longer than there are stages
  induction fuel with
  | zero =>
    intro steps trail h hle
    have := (h.lt_length hself hwait).1
    omega
  | succ fuel ih =>
    intro steps trail h hle
    rw [walkCycle_succ]
    cases hstep : walkStep preds waiting trail with
    | stuck => exact absurd hstep (h.lt_length hself hwait).2
    | closed cycle => exact ⟨steps, trail, h, hstep⟩
    | onward longer => exact ih (h.onward hstep) (by omega)

/-- **The walk closes at the cycle that is found.** -/
theorem findCycle_closes (hne : waiting ≠ []) : ∃ steps trail, Visited preds waiting steps trail ∧
    walkStep preds waiting trail = .closed (findCycle preds waiting) := by
  obtain ⟨first, rest, rfl⟩ := List.exists_cons_of_ne_nil hne
  exact (Visited.start rfl).closes hself hwait (Nat.le_add_left _ _)

/-- The walk finds a loop of stages that are left over. -/
theorem isLoop_findCycle (hne : waiting ≠ []) :
    IsLoop preds (findCycle preds waiting) ∧ findCycle preds waiting ⊆ waiting := by
  obtain ⟨steps, trail, h, hclosed⟩ := findCycle_closes hself hwait hne
  rcases (h.isTrail hself hwait).1.step hself hwait with ⟨loop, hloop, hspec⟩ | ⟨next, hnext, -⟩
  · rw [hclosed] at hloop
    cases hloop
    exact hspec
  · rw [hclosed] at hnext
    cases hnext

end Walk

/-! ## Stages that are left over

  Left over are the stages that still wait when the queue has run dry.  Each of them waits for another one, so the
  walk is never stuck. -/

/-- The stages that wait for something when no stage is ready any more. -/
def leftOver (preds : List (List Nat)) : List Nat :=
  (List.range preds.length).filter fun i =>
    0 < (arrange preds preds.length [] (.start preds id)).2.left.getD i 0

section LeftOver

variable (hnd : ∀ i, (predsOf preds i).Nodup)
include hnd

/-- They are the stages that have no place in the order. -/
theorem mem_leftOver {i : Nat} : i ∈ leftOver preds ↔
    i < preds.length ∧ i ∉ (arrange preds preds.length [] (.start preds id)).1 := by
  have hinv := (arranging_arrange hnd preds.length [] _ Arranging.start).1
  have hdry := arrange_dry hnd
  rw [leftOver, List.mem_filter, List.mem_range, decide_eq_true_iff]
  generalize arrange preds preds.length [] (.start preds id) = r at hinv hdry
  have hzero := hinv.tracks.left_eq_zero_iff i
  simp only [List.contains_iff_mem] at hzero
  refine and_congr_right fun hi => ⟨fun hpos hmem => ?_, fun hmem => ?_⟩
  · -- a placed stage waits for nothing
    have := hzero.mpr fun j hj => (hinv.greedy.before_mem hj hmem).1
    omega
  · refine Nat.pos_of_ne_zero fun h0 => ?_
    have hready := (hinv.mem_ready i).mpr ⟨hi, hmem, hzero.mp h0⟩
    rw [hdry] at hready
    exact List.not_mem_nil hready

/-- **Every stage that is left over waits for one that is left over.** -/
theorem exists_waiting_predecessor (hlt : ∀ i j, j ∈ predsOf preds i → j < preds.length) {i : Nat}
    (hi : i ∈ leftOver preds) : ∃ j ∈ leftOver preds, Edge preds j i := by
  have hinv := (arranging_arrange hnd preds.length [] _ Arranging.start).1
  obtain ⟨hin, hmem⟩ := (mem_leftOver hnd).mp hi
  by_contra hall
  -- otherwise the stage could be placed
  have hstart : Startable preds.length (Edge preds) (arrange preds preds.length [] (.start preds id)).1 i := by
    refine ⟨hin, hmem, fun j hj => ?_⟩
    by_contra hout
    exact hall ⟨j, (mem_leftOver hnd).mpr ⟨hlt i j hj, hout⟩, hj⟩
  have hready := (hinv.mem_ready i).mpr hstart
  rw [arrange_dry hnd] at hready
  exact List.not_mem_nil hready

/-- Without a complete order, stages are left over. -/
theorem leftOver_ne_nil (hlen : (arrange preds preds.length [] (.start preds id)).1.length ≠ preds.length) :
    leftOver preds ≠ [] := by
  intro hnil
  refine hlen ((arranging_arrange hnd preds.length [] _ Arranging.start).1.greedy.length_eq fun i hi => ?_)
  by_contra hmem
  have := (mem_leftOver hnd).mpr ⟨hi, hmem⟩
  rw [hnil] at this
  exact List.not_mem_nil this

end LeftOver

/-! ## Cycles by name

  The loop of numbers is a cycle of names, since every edge is a declared predecessor.  The stages of the example only
  partly belong to the cycle. -/

/-- The names go round: each is a declared predecessor of the next, the last is the first, and no other comes twice. -/
structure IsCycle (specs : List StageSpec) (cycle : List String) : Prop where
  length : 3 ≤ cycle.length
  closed : cycle.head? = cycle.getLast?
  distinct : cycle.dropLast.Nodup
  chain : cycle.IsChain (NamedBefore specs)

/-- The stages of a cycle are its names, each once. -/
theorem IsCycle.stages {specs : List StageSpec} {cycle : List String} (h : IsCycle specs cycle) :
    (PlanError.cyclicDependency cycle).stages.Nodup ∧
      ∀ name, name ∈ (PlanError.cyclicDependency cycle).stages ↔ name ∈ cycle := by
  -- the participants are listed without the repetition at the end
  have hlen := h.length
  have hstages : (PlanError.cyclicDependency cycle).stages = cycle.dropLast := by
    rw [PlanError.stages, PlanError.participants, h.closed, decide_eq_true rfl, Bool.and_true]
    exact if_pos (decide_eq_true (by omega))
  rw [hstages]
  refine ⟨h.distinct, fun name => ⟨List.mem_of_mem_dropLast, fun hmem => ?_⟩⟩
  have hne : cycle ≠ [] := fun hnil => by rw [hnil] at hlen; cases hlen
  obtain ⟨front, last, rfl⟩ := (List.eq_nil_or_concat' cycle).resolve_left hne
  rw [List.dropLast_concat]
  rcases List.mem_append.mp hmem with hfront | hlast
  · exact hfront
  · -- the last name is the first one as well
    rw [List.mem_singleton.mp hlast]
    have hclosed := h.closed
    rw [List.getLast?_concat] at hclosed
    cases front with
    | nil => cases hlen with | step h => cases h
    | cons first rest =>
      obtain rfl := Option.some.inj hclosed
      exact List.mem_cons_self

section Named

variable {specs : List StageSpec} {loop : List Nat}

/-- A loop of stages is a cycle of their names. -/
theorem IsLoop.isCycle (h : IsLoop preds loop) (hr : Resolves specs preds) (hu : NamesUnique specs)
    (hlt : ∀ i ∈ loop, i < specs.length) :
    IsCycle specs (loop.map fun i => (specs.map (·.name)).getD i "") := by
  have hname {i : Nat} {s : StageSpec} (hs : specs[i]? = some s) : (specs.map (·.name)).getD i "" = s.name := by
    rw [List.getD_eq_getElem?_getD, List.getElem?_map, hs]
    rfl
  -- the names stand for the stages, as no two are the same
  refine ⟨by simpa using h.length, ?_, ?_, ?_⟩
  · rw [List.head?_map, List.getLast?_map, h.closed]
  · rw [← List.map_dropLast]
    refine h.distinct.map_on fun i hi j hj heq => ?_
    have hs := List.getElem?_eq_getElem (hlt i (List.mem_of_mem_dropLast hi))
    have ht := List.getElem?_eq_getElem (hlt j (List.mem_of_mem_dropLast hj))
    rw [hname hs, hname ht] at heq
    exact hu.getElem?_inj hs ht heq
  · refine List.isChain_map_of_isChain _ (fun j i hji => ?_) h.chain
    have hprec := (hr.mem_iff i j).mp hji
    obtain ⟨s, t, hs, ht, -⟩ := id hprec
    rw [hname hs, hname ht]
    exact hprec.named hs ht

/-- No stage waits for itself. -/
theorem not_edge_self (hr : Resolves specs preds) (hd : PredecessorsDeclared specs) (i : Nat) : ¬ Edge preds i i := by
  intro hii
  obtain ⟨s, t, hs, ht, hmem⟩ := (hr.mem_iff i i).mp hii
  obtain rfl := Option.some.inj (hs.symm.trans ht)
  exact (hd s (List.mem_of_getElem? hs) s.name hmem).1 rfl

/-- Stages that wait for each other have no order, and a cycle among those left over is reported. -/
theorem planOrder_of_cyclic (hr : Resolves specs preds) (hc : ¬ Acyclic specs) (names : List String) :
    leftOver preds ≠ [] ∧
      planOrder names preds =
        .error (.cyclicDependency ((findCycle preds (leftOver preds)).map fun i => names.getD i "")) := by
  have hlen : (arrange preds preds.length [] (.start preds id)).1.length ≠ preds.length := by
    intro hlen
    have hac := (arrange_length_iff hr.nodup hr.lt).mp hlen
    rw [hr.edge_eq] at hac
    exact hc hac
  refine ⟨leftOver_ne_nil hr.nodup hlen, ?_⟩
  rw [planOrder]
  exact if_neg hlen

end Named

/-- **A cycle that is reported is one.**  Its names go round among the declared predecessors, and the stages of the
    report are these names.  It is found by a walk among the stages that could not be placed.  The walk is never stuck,
    and closes with at most as many steps as there are such stages, those that only wait for a cycle included. -/
theorem plan_reports_cycle {specs : List StageSpec} (hu : NamesUnique specs) (hd : PredecessorsDeclared specs)
    (hc : ¬ Acyclic specs) : ∃ preds cycle, resolveAll (specs.map (·.name)) specs = .ok preds ∧
      plan specs = .error (.cyclicDependency cycle) ∧ IsCycle specs cycle ∧
      (PlanError.cyclicDependency cycle).stages.Nodup ∧
      (∀ name, name ∈ (PlanError.cyclicDependency cycle).stages ↔ name ∈ cycle) ∧
      cycle = (findCycle preds (leftOver preds)).map (fun i => (specs.map (·.name)).getD i "") ∧
      (∃ steps trail, Visited preds (leftOver preds) steps trail ∧
        walkStep preds (leftOver preds) trail = .closed (findCycle preds (leftOver preds)) ∧
        steps + 1 ≤ (leftOver preds).length) ∧
      (∀ steps trail, Visited preds (leftOver preds) steps trail →
        steps < (leftOver preds).length ∧ walkStep preds (leftOver preds) trail ≠ .stuck) ∧
      ∀ i, i ∈ leftOver preds ↔ i < specs.length ∧ i ∉ (arrange preds preds.length [] (.start preds id)).1 := by
  -- without stages there is no cycle
  have hne : specs ≠ [] := by
    rintro rfl
    refine hc fun i hi => ?_
    obtain ⟨_, -, s, _, hs, -⟩ := Relation.TransGen.tail'_iff.mp hi
    cases hs
  obtain ⟨preds, hres⟩ := (resolveAll_isOk_iff specs).mpr hd
  have hr := resolves_of_resolveAll hu hres
  obtain ⟨hleft, horder⟩ := planOrder_of_cyclic hr hc (specs.map (·.name))
  -- every waiting stage waits for another waiting one
  have hself := not_edge_self hr hd
  have hwait : ∀ i ∈ leftOver preds, ∃ j ∈ leftOver preds, Edge preds j i :=
    fun i hi => exists_waiting_predecessor hr.nodup hr.lt hi
  have hout (i : Nat) := mem_leftOver hr.nodup (i := i)
  obtain ⟨hloop, hsub⟩ := isLoop_findCycle hself hwait hleft
  have hcycle := hloop.isCycle hr hu fun i hi => hr.length ▸ ((hout i).mp (hsub hi)).1
  obtain ⟨steps, trail, hvisited, hclosed⟩ := findCycle_closes hself hwait hleft
  refine ⟨preds, _, hres, ?_, hcycle, hcycle.stages.1, hcycle.stages.2, rfl, ⟨steps, trail, hvisited, hclosed, ?_⟩,
    fun _ _ h => h.lt_length hself hwait, fun i => hr.length ▸ hout i⟩
  · rw [plan_eq hne hu hres, horder]
  · exact (hvisited.lt_length hself hwait).1

/-- Three stages that wait for each other, one that only waits for them and is declared first, and one apart. -/
def turning : List StageSpec :=
  [{ name := "deploy", predecessors := ["pack"] }, { name := "build", predecessors := ["test"] },
    { name := "pack", predecessors := ["build"] }, { name := "test", predecessors := ["pack"] }, { name := "fetch" }]

/-- Stages that wait for each other in turn are reported as such a cycle. -/
theorem plan_reports_cycle_turning : NamesUnique turning ∧ PredecessorsDeclared turning ∧ ¬ Acyclic turning ∧
    plan turning = .error (.cyclicDependency ["pack", "test", "build", "pack"]) ∧
    IsCycle turning ["pack", "test", "build", "pack"] ∧ leftOver [[2], [3], [1], [2], []] = [0, 1, 2, 3] ∧
    walkStep [[2], [3], [1], [2], []] [0, 1, 2, 3] [3, 1, 2, 0] = .closed [2, 3, 1, 2] := by
  have hu : NamesUnique turning := by unfold NamesUnique; decide
  have hd : PredecessorsDeclared turning := by unfold PredecessorsDeclared; decide
  have hedge {j i : Nat} (s t : StageSpec) (hs : turning[i]? = some s) (ht : turning[j]? = some t)
      (hmem : t.name ∈ s.predecessors) : Precedes turning j i := ⟨s, t, hs, ht, hmem⟩
  have hc : ¬ Acyclic turning := fun hac =>
    hac 1 (((Relation.TransGen.single (hedge _ _ rfl rfl (by decide))).tail
      (hedge (j := 2) (i := 3) _ _ rfl rfl (by decide))).tail (hedge (j := 3) (i := 1) _ _ rfl rfl (by decide)))
  have hplan : plan turning = .error (.cyclicDependency ["pack", "test", "build", "pack"]) := rfl
  obtain ⟨preds, cycle, -, herror, hcycle, -⟩ := plan_reports_cycle hu hd hc
  rw [hplan] at herror
  cases herror
  exact ⟨hu, hd, hc, hplan, hcycle, rfl, rfl⟩

end Wheelwright
