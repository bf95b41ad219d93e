/-
  Tables of a plan — the stages that wait for each stage, and their places in the order, kept beside the plan.

  **Specification** — two tables hold for each stage what a plan computes when it is asked: the stages that wait for it
  (`dependentsOf`), and where it stands in the order (`tables_of_plan`).

  **Program** — the first table is filled while predecessors are looked up: each stage is entered under all that it waits
  for, at the end of what is there.  The second is filled along the order, one place after the other.

  **The crux** — what is under a stage changes only when a stage is entered that waits for it, and since no stage waits
  for another twice, it is entered there once (`getElem?_enter`); so the stages stand there as declared.
-/
import Wheelwright.Proofs.Plan.Verdict

namespace Wheelwright

/-! ## The tables

  The two loops, as they fill their tables. -/

/-- Stage `i` entered under each of `places`, behind what is there already. -/
def enter (i : Nat) (table : List (List Nat)) (places : List Nat) : List (List Nat) :=
  places.foldl (fun table p => table.modify p (· ++ [i])) table

/-- Stages, numbered from `i` on, entered under those that they wait for. -/
def enterAll (i : Nat) : List (List Nat) → List (List Nat) → List (List Nat)
  | [], table => table
  | places :: rest, table => enterAll (i + 1) rest (enter i table places)

/-- For each stage the stages that wait for it, as they are entered one after the other. -/
def collectDependents (preds : List (List Nat)) : List (List Nat) := enterAll 0 preds (preds.map fun _ => [])

/-- The places of stages that stand in this order from place `k` on. -/
def placeAll (k : Nat) : List Nat → List Nat → List Nat
  | [], table => table
  | i :: rest, table => placeAll (k + 1) rest (table.set i k)

/-- For each of `count` stages its place in the order. -/
def collectPlaces (order : List Nat) (count : Nat) : List Nat := placeAll 0 order (List.replicate count 0)

/-! ## Waiting stages

  A stage is entered under each of its predecessors.  The table after some stages lists under each one those of them
  that wait for it, in the order of their declaration. -/

variable {i j k : Nat} {places order : List Nat} {preds table : List (List Nat)}

/-- A stage is entered once under each that it waits for, and nowhere else. -/
theorem getElem?_enter (h : places.Nodup) :
    (enter i table places)[j]? = table[j]?.map fun under => if j ∈ places then under ++ [i] else under := by
  -- one place after another, each of which is entered once
  induction places generalizing table with
  | nil => exact (congrFun Option.map_id _).symm
  | cons p rest ih =>
    obtain ⟨hp, hrest⟩ := List.nodup_cons.mp h
    rw [show enter i table (p :: rest) = enter i (table.modify p (· ++ [i])) rest from rfl, ih hrest,
      List.getElem?_modify]
    cases table[j]? with
    | none => rfl
    | some under =>
      by_cases hj : p = j
      · subst hj
        simp only [if_true, Option.map_some, Option.map_eq_map, if_neg hp, List.mem_cons_self]
      · have hmem : j ∈ p :: rest ↔ j ∈ rest := by
          rw [List.mem_cons]
          exact or_iff_right (Ne.symm hj)
        simp only [if_neg hj, Option.map_some, Option.map_eq_map, hmem]

/-- Under each stage come those that wait for it, as declared. -/
theorem getElem?_enterAll (h : ∀ places ∈ preds, places.Nodup) :
    (enterAll i preds table)[j]? = table[j]?.map (· ++ (dependentsIn preds j).map (i + ·)) := by
  -- one row after another
  induction preds generalizing i table with
  | nil =>
    rw [enterAll]
    cases table[j]? with
    | none => rfl
    | some under => exact congrArg some (List.append_nil under).symm
  | cons places rest ih =>
    rw [enterAll, ih fun places hplaces => h places (List.mem_cons_of_mem _ hplaces),
      getElem?_enter (h places List.mem_cons_self), Option.map_map]
    -- the first stage is the one declared first, and all others are numbered one higher
    have hsplit : (dependentsIn (places :: rest) j).map (i + ·) =
        (if j ∈ places then [i] else []) ++ (dependentsIn rest j).map (i + 1 + ·) := by
      have hlater : (fun k => (predsOf (places :: rest) k).contains j) ∘ Nat.succ =
          fun k => (predsOf rest k).contains j := rfl
      have hfirst : (predsOf (places :: rest) 0).contains j = decide (j ∈ places) := List.contains_eq_mem j places
      rw [dependentsIn, List.length_cons, List.range_succ_eq_map, List.filter_cons, hfirst, List.filter_map, hlater,
        dependentsIn]
      by_cases hj : j ∈ places
      · simp only [hj, decide_true, if_true, List.map_cons, List.map_map, Nat.add_zero, List.singleton_append]
        refine congrArg (i :: ·) (List.map_congr_left fun k _ => ?_)
        exact Nat.add_right_comm i k 1
      · simp only [hj, decide_false, Bool.false_eq_true, if_false, List.map_map, List.nil_append]
        exact List.map_congr_left fun k _ => Nat.add_right_comm i k 1
    rw [hsplit]
    refine Option.map_congr fun under _ => ?_
    show (if j ∈ places then under ++ [i] else under) ++ _ = under ++ _
    by_cases hj : j ∈ places
    · rw [if_pos hj, if_pos hj, List.append_assoc]
    · rw [if_neg hj, if_neg hj, List.nil_append]

/-- **The table of waiting stages holds what a plan computes.** -/
theorem getElem?_collectDependents (h : ∀ places ∈ preds, places.Nodup) (hj : j < preds.length) :
    (collectDependents preds)[j]? = some (dependentsIn preds j) := by
  have hempty : (preds.map fun _ => ([] : List Nat))[j]? = some [] := by
    rw [List.getElem?_map, List.getElem?_eq_getElem hj]
    rfl
  rw [collectDependents, getElem?_enterAll h, hempty, Option.map_some, List.nil_append]
  exact congrArg some ((List.map_congr_left fun k _ => Nat.zero_add k).trans (List.map_id _))

/-! ## Places

  The order has no stage twice, so the place that was entered for a stage is not overwritten. -/

/-- A stage that is not in the order keeps its entry. -/
theorem getElem?_placeAll_of_notMem (h : i ∉ order) : (placeAll k order places)[i]? = places[i]? := by
  induction order generalizing k places with
  | nil => rfl
  | cons first rest ih =>
    obtain ⟨hne, hrest⟩ := not_or.mp (mt List.mem_cons.mpr h)
    rw [placeAll, ih hrest, List.getElem?_set_ne (Ne.symm hne)]

/-- A stage of the order has its place as entry. -/
theorem getElem?_placeAll (hnodup : order.Nodup) (hi : i ∈ order) (hlt : i < places.length) :
    (placeAll k order places)[i]? = some (k + order.idxOf i) := by
  -- on the order, with the place that comes next
  induction order generalizing k places with
  | nil => cases hi
  | cons first rest ih =>
    obtain ⟨hfirst, hrest⟩ := List.nodup_cons.mp hnodup
    rw [placeAll]
    by_cases heq : first = i
    · subst heq
      rw [getElem?_placeAll_of_notMem hfirst, List.getElem?_set_self hlt, List.idxOf_cons_self]
      rfl
    · have hmem : i ∈ rest := (List.mem_cons.mp hi).resolve_left (Ne.symm heq)
      rw [ih hrest hmem (by rwa [List.length_set]), List.idxOf_cons_ne _ heq, Nat.succ_eq_add_one]
      refine congrArg some ?_
      omega

/-- **The tables of a plan hold what it answers**: the stages that wait for a stage, and its place in the order. -/
theorem Plan.tables_of_plan {specs : List StageSpec} {p : Plan} (h : plan specs = .ok p) (hi : i < specs.length) :
    (collectDependents p.predecessors)[i]? = some (p.dependentsOf i) ∧
      (collectPlaces p.order specs.length)[i]? = p.order.idxOf? i := by
  obtain ⟨hdescribes, -⟩ := describes_of_plan h
  have hlength : p.names.length = specs.length := hdescribes.names_length
  have hmem : i ∈ p.order := hdescribes.mem_order.mpr (hlength ▸ hi)
  constructor
  · refine getElem?_collectDependents (fun places hplaces => ?_) (by rw [hdescribes.length, hlength]; exact hi)
    obtain ⟨j, hj, rfl⟩ := List.getElem_of_mem hplaces
    have hnodup := hdescribes.nodup j
    rwa [predsOf, List.getD_eq_getElem _ _ hj] at hnodup
  · rw [collectPlaces, getElem?_placeAll hdescribes.greedy.nodup hmem (by rwa [List.length_replicate]), Nat.zero_add]
    cases hplace : p.order.idxOf? i with
    | none => exact absurd hmem (List.idxOf?_eq_none_iff.mp hplace)
    | some k => rw [List.idxOf_eq_getD_idxOf?, hplace, Option.getD_some]

end Wheelwright
