/-
  Settling — what a result does to the state of a run.

  **Specification** — `Coherent x`: counters, ready positions and running stages of `x` follow from the
  results alone; a stage is ready exactly if it is idle, has no result, and all its predecessors have
  succeeded.  `Closed x`: whatever waits for a stage that did not succeed is settled as well.

  **Program** — `settle` and `block`.  Giving up a stage is broken down into single steps (`GivesUp`),
  each of which has a direct predecessor that did not succeed as its cause.

  **The crux** — `block` goes through the dependents of a stage while it changes the results that it looks
  at.  Two facts survive this: results that are there stay (`Extends`), and a stage that is given up on
  the way has all its dependents settled when its own call returns (`block_spec`).  The depth that `block`
  is given is enough because dependents stand later in the order.
-/
import Wheelwright.Execution
import Wheelwright.Proofs.Plan.Verdict

namespace Wheelwright

/-! ## Positions

  The program names stages by their position in the order.  The two numberings are inverse to each other, and
  predecessors have smaller positions. -/

namespace Plan.WellFormed

open Execution (positionOf stageAt)

variable {p : Plan} (h : p.WellFormed)
include h

/-- Every stage has a place in the order. -/
theorem positionOf_lt {i : Nat} (hi : i < p.names.length) : positionOf p i < p.names.length := by
  rw [← h.complete]
  exact List.idxOf_lt_length_of_mem (h.mem_order.mpr hi)

/-- The stage at a stage's place is that stage. -/
theorem stageAt_positionOf {i : Nat} (hi : i < p.names.length) : stageAt p (positionOf p i) = i := by
  have hlt := List.idxOf_lt_length_of_mem (h.mem_order.mpr hi)
  rw [stageAt, positionOf, List.getD_eq_getElem _ _ hlt, List.getElem_idxOf]

/-- A place in the order is one of a stage. -/
theorem stageAt_lt {k : Nat} (hk : k < p.names.length) : stageAt p k < p.names.length := by
  rw [← h.complete] at hk
  rw [stageAt, List.getD_eq_getElem _ _ hk]
  exact h.mem_order.mp (List.getElem_mem hk)

/-- The place of the stage at a place is that place. -/
theorem positionOf_stageAt {k : Nat} (hk : k < p.names.length) : positionOf p (stageAt p k) = k := by
  rw [← h.complete] at hk
  rw [stageAt, List.getD_eq_getElem _ _ hk, positionOf]
  exact List.Nodup.idxOf_getElem h.greedy.nodup k hk

/-- A predecessor stands before its stage. -/
theorem positionOf_lt_of_mem {j i : Nat} (hj : j ∈ predsOf p.predecessors i) :
    positionOf p j < positionOf p i :=
  (h.greedy.before_mem hj (h.mem_order.mpr (h.length ▸ lt_length_of_mem_predsOf hj))).2

/-- Another position is the position of another stage. -/
theorem ne_positionOf_iff {k i : Nat} (hk : k < p.names.length) (hi : i < p.names.length) :
    k ≠ positionOf p i ↔ stageAt p k ≠ i := by
  refine not_congr ⟨?_, ?_⟩
  · rintro rfl
    exact h.stageAt_positionOf hi
  · rintro rfl
    exact (h.positionOf_stageAt hk).symm

/-- Who has a predecessor is a stage of the plan. -/
theorem lt_of_mem_predsOf {j i : Nat} (hj : j ∈ predsOf p.predecessors i) : i < p.names.length :=
  h.length ▸ lt_length_of_mem_predsOf hj

end Plan.WellFormed

namespace Execution

variable {x y z : Execution} {i j : Nat} {r : StageResult}

/-! ## Results

  Results are all that counts for the questions below: whether a stage has succeeded, whether it has failed, and
  whether all that it waits for has succeeded.  The status that is published, the queue and the running stages are
  other fields, and each function says of each of them whether it touches it. -/

/-- The stage has succeeded. -/
def succeeded (x : Execution) (i : Nat) : Bool := (x.result? i).any StageResult.isSuccess

/-- The stage has a result, but not a success. -/
def Failed (x : Execution) (i : Nat) : Prop := ∃ r, x.result? i = some r ∧ r.isSuccess = false

/-- All direct predecessors of the stage have succeeded. -/
def AllSucceeded (x : Execution) (i : Nat) : Prop :=
  ∀ j ∈ predsOf x.plan.predecessors i, x.succeeded j = true

/-- Everything that waits for the stage directly has a result. -/
def DependentsSettled (x : Execution) (j : Nat) : Prop :=
  ∀ d, j ∈ predsOf x.plan.predecessors d → (x.result? d).isSome

/-- A stage has succeeded exactly with a result that is a success. -/
theorem succeeded_iff : x.succeeded i = true ↔ ∃ r, x.result? i = some r ∧ r.isSuccess = true := by
  rw [succeeded, Option.any_eq_true]

/-- Without a result it has not. -/
theorem succeeded_of_none (h : x.result? i = none) : x.succeeded i = false := by
  rw [succeeded, h]
  rfl

/-- Which predecessors have succeeded follows from which stages have. -/
theorem allSucceeded_congr (hplan : y.plan = x.plan) (hsucc : ∀ j, y.succeeded j = x.succeeded j) :
    y.AllSucceeded i ↔ x.AllSucceeded i := by
  rw [AllSucceeded, AllSucceeded, hplan]
  simp only [hsucc]

/-- A failed stage has not succeeded. -/
theorem Failed.not_succeeded (h : x.Failed i) : x.succeeded i = false := by
  obtain ⟨r, hr, hs⟩ := h
  rw [succeeded, hr]
  exact hs

/-- A failed stage has a result. -/
theorem Failed.isSome (h : x.Failed i) : (x.result? i).isSome := by
  obtain ⟨r, hr, -⟩ := h
  rw [hr]
  rfl

/-- A stage with a result has succeeded or failed. -/
theorem succeeded_or_failed (h : (x.result? i).isSome) : x.succeeded i = true ∨ x.Failed i := by
  obtain ⟨r, hr⟩ := Option.isSome_iff_exists.mp h
  cases hs : r.isSuccess with
  | true => exact Or.inl (succeeded_iff.mpr ⟨r, hr, hs⟩)
  | false => exact Or.inr ⟨r, hr, hs⟩

/-- A change of status leaves everything else as it is, and a noted result is added to what was delivered. -/
@[simp] theorem changeStatus_plan (s : StageStatus) : (x.changeStatus i s).plan = x.plan := by
  unfold changeStatus; split <;> rfl

@[simp] theorem changeStatus_results (s : StageStatus) : (x.changeStatus i s).results = x.results := by
  unfold changeStatus; split <;> rfl

@[simp] theorem changeStatus_queue (s : StageStatus) : (x.changeStatus i s).queue = x.queue := by
  unfold changeStatus; split <;> rfl

@[simp] theorem changeStatus_running (s : StageStatus) : (x.changeStatus i s).running = x.running := by
  unfold changeStatus; split <;> rfl

@[simp] theorem changeStatus_delivered (s : StageStatus) :
    (x.changeStatus i s).delivered = x.delivered := by
  unfold changeStatus; split <;> rfl

@[simp] theorem note_plan : (x.note i r).plan = x.plan := changeStatus_plan _

@[simp] theorem note_queue : (x.note i r).queue = x.queue := changeStatus_queue _

@[simp] theorem note_running : (x.note i r).running = x.running := changeStatus_running _

@[simp] theorem note_delivered : (x.note i r).delivered = x.delivered ++ [r] := by
  show (x.changeStatus i r.status).delivered ++ [r] = _
  rw [changeStatus_delivered]

@[simp] theorem note_results : (x.note i r).results = x.results.set i (some r) := by
  show (x.changeStatus i r.status).results.set i (some r) = _
  rw [changeStatus_results]

/-- `y` is `x` with the result of one stage noted and told. -/
structure Noted (x y : Execution) (i : Nat) (r : StageResult) : Prop where
  plan : y.plan = x.plan
  results : y.results = x.results.set i (some r)
  delivered : y.delivered = x.delivered ++ [r]

/-- Noting a result does both. -/
theorem noted_note : Noted x (x.note i r) i r := ⟨note_plan, note_results, note_delivered⟩

/-- The other stages keep theirs. -/
theorem Noted.result?_of_ne (h : Noted x y i r) (hj : j ≠ i) : y.result? j = x.result? j := by
  rw [result?, h.results, List.getElem?_set_ne (Ne.symm hj), result?]

/-- The noted stage has it. -/
theorem Noted.result?_self (h : Noted x y i r) (hi : i < x.results.length) : y.result? i = some r := by
  rw [result?, h.results, List.getElem?_set_self hi]
  rfl

/-! ## Later states of a run

  A later state has the results of an earlier one and maybe more.  It is a preorder, and everything that is said by
  results that are there stays true in later states. -/

/-- `y` is a later state than `x`: results that are there stay, and more may be told. -/
structure Extends (x y : Execution) : Prop where
  plan : y.plan = x.plan
  results_length : y.results.length = x.results.length
  result? : ∀ i r, x.result? i = some r → y.result? i = some r
  delivered : x.delivered <+: y.delivered

namespace Extends

/-- A moment extends itself. -/
theorem refl (x : Execution) : Extends x x := ⟨rfl, rfl, fun _ _ h => h, List.prefix_rfl⟩

/-- Moments extend one another in a row. -/
theorem trans (h : Extends x y) (h' : Extends y z) : Extends x z :=
  ⟨h'.plan.trans h.plan, h'.results_length.trans h.results_length,
    fun i r hr => h'.result? i r (h.result? i r hr), h.delivered.trans h'.delivered⟩

/-- A result is noted where there was none. -/
theorem of_noted (h : Noted x y i r) (hnone : x.result? i = none) : Extends x y := by
  refine ⟨h.plan, by rw [h.results, List.length_set], fun j s hs => ?_, ?_⟩
  · have hji : j ≠ i := by
      rintro rfl
      rw [hnone] at hs
      cases hs
    rw [h.result?_of_ne hji, hs]
  · rw [h.delivered]
    exact List.prefix_append ..

/-- What has no result later had none before. -/
theorem eq_none (h : Extends x y) (hi : y.result? i = none) : x.result? i = none := by
  cases hx : x.result? i with
  | none => rfl
  | some r =>
    rw [h.result? i r hx] at hi
    cases hi

/-- What is settled stays settled. -/
theorem isSome (h : Extends x y) (hi : (x.result? i).isSome) : (y.result? i).isSome := by
  obtain ⟨r, hr⟩ := Option.isSome_iff_exists.mp hi
  rw [h.result? i r hr]
  rfl

/-- What has succeeded stays a success. -/
theorem succeeded (h : Extends x y) (hi : x.succeeded i = true) : y.succeeded i = true := by
  obtain ⟨r, hr, hs⟩ := succeeded_iff.mp hi
  exact succeeded_iff.mpr ⟨r, h.result? i r hr, hs⟩

/-- What has failed stays failed. -/
theorem failed (h : Extends x y) (hi : x.Failed i) : y.Failed i := by
  obtain ⟨r, hr, hs⟩ := hi
  exact ⟨r, h.result? i r hr, hs⟩

/-- Stages that wait for successes only go on to do so. -/
theorem allSucceeded (h : Extends x y) (hi : x.AllSucceeded i) : y.AllSucceeded i := by
  intro j hj
  rw [h.plan] at hj
  exact h.succeeded (hi j hj)

/-- Dependents that are settled stay settled. -/
theorem dependentsSettled (h : Extends x y) (hj : x.DependentsSettled j) : y.DependentsSettled j := by
  intro d hd
  rw [h.plan] at hd
  exact h.isSome (hj d hd)

end Extends

/-! ## Giving up

  Giving up goes down the dependents in a recursion, and each call of it is a list of single steps.  The specification
  of a call says more than what its caller needs: that all dependents of what was given up on the way are settled when
  it returns.  The induction is on the depth, which is more than the positions that are left below. -/

/-- One stage is given up because of a direct predecessor that did not succeed. -/
inductive GivesUp : Execution → Execution → Prop
  | intro {x : Execution} {i q : Nat} (hnone : x.result? i = none)
      (hq : q ∈ predsOf x.plan.predecessors i) (hfail : x.Failed q) :
      GivesUp x (x.note i (.blocked (x.plan.nameOf i) (blockReason (x.plan.nameOf q))))

/-- Giving up a stage extends the run. -/
theorem Extends.of_givesUp (h : GivesUp x y) : Extends x y := by
  cases h with
  | intro hnone hq hfail => exact .of_noted noted_note hnone

/-- So does giving up any number of them. -/
theorem Extends.of_givesUpAll (h : Relation.ReflTransGen GivesUp x y) : Extends x y := by
  induction h with
  | refl => exact .refl x
  | tail _ hs ih => exact ih.trans (.of_givesUp hs)

/-- Gives up those of some stages that have no result. -/
def blockAll (depth : Nat) (reason : String) (x : Execution) (ds : List Nat) : Execution :=
  ds.foldl (fun x d => if (x.result? d).isSome then x else block depth reason x d) x

/-- To give up a stage is to note it and give up its dependents. -/
theorem block_succ (depth : Nat) (reason : String) (x : Execution) (i : Nat) :
    block (depth + 1) reason x i =
      blockAll depth (blockReason (x.plan.nameOf i)) (x.note i (.blocked (x.plan.nameOf i) reason))
        (x.plan.dependentsOf i) := rfl

/-- What a call of `block` does: it notes that the stage was given up, and more stages are given up one
    by one; of everything that got a result in the call, all dependents have one in the end. -/
def Blocks (depth : Nat) (p : Plan) : Prop :=
  ∀ (x : Execution) (reason : String) (i : Nat), x.plan = p → x.results.length = p.names.length →
    x.result? i = none → i < p.names.length → p.names.length ≤ depth + positionOf p i →
    Relation.ReflTransGen GivesUp (x.note i (.blocked (p.nameOf i) reason)) (block depth reason x i) ∧
    ∀ j, x.result? j = none → ((block depth reason x i).result? j).isSome →
      (block depth reason x i).DependentsSettled j

theorem blockAll_spec {depth : Nat} {p : Plan} {q : Nat} (hblocks : Blocks depth p) (hp : p.WellFormed) :
    ∀ (ds : List Nat) (x : Execution), x.plan = p → x.results.length = p.names.length → x.Failed q →
      (∀ d ∈ ds, q ∈ predsOf p.predecessors d ∧ p.names.length ≤ depth + positionOf p d) →
      Relation.ReflTransGen GivesUp x (blockAll depth (blockReason (p.nameOf q)) x ds) ∧
      (∀ d ∈ ds, ((blockAll depth (blockReason (p.nameOf q)) x ds).result? d).isSome) ∧
      ∀ j, x.result? j = none → ((blockAll depth (blockReason (p.nameOf q)) x ds).result? j).isSome →
        (blockAll depth (blockReason (p.nameOf q)) x ds).DependentsSettled j := by
  -- by the stages to give up: one that is settled by then is passed over
  intro ds
  induction ds with
  | nil =>
    intro x _ _ _ _
    refine ⟨.refl, by simp, fun j hj hs => ?_⟩
    rw [show blockAll depth (blockReason (p.nameOf q)) x [] = x from rfl, hj] at hs
    cases hs
  | cons d rest ih =>
    intro x hx hlen hfail hds
    obtain ⟨hqd, hdepth⟩ := hds d (List.mem_cons_self ..)
    have hrest : ∀ e ∈ rest, q ∈ predsOf p.predecessors e ∧ p.names.length ≤ depth + positionOf p e :=
      fun e he => hds e (List.mem_cons_of_mem _ he)
    cases hd : x.result? d with
    | some s =>
      -- it has a result already
      have hcons : blockAll depth (blockReason (p.nameOf q)) x (d :: rest) =
          blockAll depth (blockReason (p.nameOf q)) x rest := by
        rw [blockAll, List.foldl_cons, if_pos (by rw [hd]; rfl), blockAll]
      obtain ⟨hsteps, hall, hnew⟩ := ih x hx hlen hfail hrest
      rw [hcons]
      refine ⟨hsteps, fun e he => ?_, hnew⟩
      rcases List.mem_cons.mp he with rfl | he
      · exact (Extends.of_givesUpAll hsteps).isSome (by rw [hd]; rfl)
      · exact hall e he
    | none =>
      have hcons : blockAll depth (blockReason (p.nameOf q)) x (d :: rest) =
          blockAll depth (blockReason (p.nameOf q)) (block depth (blockReason (p.nameOf q)) x d) rest := by
        rw [blockAll, List.foldl_cons, if_neg (by rw [hd]; simp), blockAll]
      obtain ⟨hblock, hnewb⟩ := hblocks x (blockReason (p.nameOf q)) d hx hlen hd
        (hp.lt_of_mem_predsOf hqd) hdepth
      have hfirst : GivesUp x (x.note d (.blocked (p.nameOf d) (blockReason (p.nameOf q)))) := by
        subst hx
        exact .intro hd hqd hfail
      have hto := (Relation.ReflTransGen.single hfirst).trans hblock
      have hext := Extends.of_givesUpAll hto
      have hdsome : ((block depth (blockReason (p.nameOf q)) x d).result? d).isSome := by
        have hlt : d < x.results.length := hlen ▸ hp.lt_of_mem_predsOf hqd
        rw [(Extends.of_givesUpAll hblock).result? d _ (noted_note.result?_self hlt)]
        rfl
      generalize block depth (blockReason (p.nameOf q)) x d = y at hcons hnewb hto hext hdsome
      obtain ⟨hsteps, hall, hnew⟩ := ih y (hext.plan.trans hx) (hext.results_length.trans hlen)
        (hext.failed hfail) hrest
      rw [hcons]
      refine ⟨hto.trans hsteps, fun e he => ?_, fun j hj hs => ?_⟩
      · rcases List.mem_cons.mp he with rfl | he
        · exact (Extends.of_givesUpAll hsteps).isSome hdsome
        · exact hall e he
      · cases hjy : y.result? j with
        | none => exact hnew j hjy hs
        | some s =>
          exact (Extends.of_givesUpAll hsteps).dependentsSettled (hnewb j hj (by rw [hjy]; rfl))

/-- **`block` settles everything that depends on the stage**, whatever has a result before. -/
theorem block_spec {p : Plan} (hp : p.WellFormed) : ∀ depth, Blocks depth p := by
  intro depth
  induction depth with
  | zero =>
    intro x reason i hx hlen _ hi hdepth
    have := hp.positionOf_lt hi
    omega
  | succ depth ih =>
    intro x reason i hx hlen hnone hi hdepth
    subst hx
    have hext : Extends x (x.note i (.blocked (x.plan.nameOf i) reason)) :=
      .of_noted noted_note hnone
    have hself : (x.note i (.blocked (x.plan.nameOf i) reason)).result? i = some (.blocked _ reason) :=
      noted_note.result?_self (hlen ▸ hi)
    -- its dependents stand behind it, so one level less is deep enough for them
    have hds : ∀ d ∈ x.plan.dependentsOf i, i ∈ predsOf x.plan.predecessors d ∧
        x.plan.names.length ≤ depth + positionOf x.plan d := by
      intro d hd
      have hmem := mem_dependentsIn.mp hd
      have hlt := hp.positionOf_lt_of_mem hmem
      exact ⟨hmem, by omega⟩
    obtain ⟨hsteps, hall, hnew⟩ := blockAll_spec ih hp (x.plan.dependentsOf i) _ hext.plan
      (hext.results_length.trans hlen) ⟨_, hself, rfl⟩ hds
    rw [block_succ]
    refine ⟨hsteps, fun j hj hs => ?_⟩
    by_cases hji : j = i
    · subst hji
      intro d hd
      refine hall d (mem_dependentsIn.mpr ?_)
      rwa [(Extends.of_givesUpAll hsteps).plan, hext.plan] at hd
    · exact hnew j (by rw [noted_note.result?_of_ne hji, hj]) hs

end Execution

end Wheelwright
