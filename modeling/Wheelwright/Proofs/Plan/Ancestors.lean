/-
  Ancestors — one pass along the order finds everything that a stage waits for.

  **Specification** — the transitive closure of the edges between stages.

  **Program** — `collectAncestors` goes through the stages in order and sets down for each the ones it
  names and what was set down for those.

  **The crux** — a table that is filled along a greedy order, each entry from the entries of its
  predecessors, satisfies the equation of its entries when it is finished (`foldl_set_eq`): nothing an
  entry was computed from changes later.  The lemma is about any such table.
-/
import Wheelwright.Proofs.Plan.Order

namespace Wheelwright

/-! ## Tables filled along an order

  A table is filled by a fold along the order.  An entry is computed from the entries of the predecessors, which have
  all been filled before, so the equation holds of the finished table as it did when the entry was made. -/

section Table

variable {α : Type} {n : Nat} {before : Nat → Nat → Prop} (f : List α → Nat → α)

/-- Filling a table keeps its length. -/
theorem length_foldl_set (order : List Nat) (init : List α) :
    (order.foldl (fun known i => known.set i (f known i)) init).length = init.length := by
  induction order generalizing init with
  | nil => rfl
  | cons i rest ih => rw [List.foldl_cons, ih, List.length_set]

/-- The beginning of a greedy order is one. -/
theorem Greedy.of_append {order more : List Nat} (h : Greedy n before (order ++ more)) :
    Greedy n before order := by
  intro k i hk
  have hlt : k < order.length := (List.getElem?_eq_some_iff.mp hk).1
  have := h k i (by rw [List.getElem?_append_left hlt]; exact hk)
  rwa [List.take_append_of_le_length (by omega)] at this

/-- **The finished table satisfies the equation of its entries.** -/
theorem foldl_set_eq (hf : ∀ known known' i, (∀ j, before j i → known[j]? = known'[j]?) →
      f known i = f known' i) (init : List α) (hinit : init.length = n) :
    ∀ {order : List Nat}, Greedy n before order → ∀ i ∈ order,
      (order.foldl (fun known i => known.set i (f known i)) init)[i]? =
        some (f (order.foldl (fun known i => known.set i (f known i)) init) i) := by
  intro order
  -- the list grows at its end, as the table does
  induction order using List.reverseRecOn with
  | nil => intro _ i hi; exact absurd hi List.not_mem_nil
  | append_singleton order m ih =>
    intro hg i hi
    rw [List.foldl_concat]
    have hlen := length_foldl_set f order init
    generalize hT : order.foldl (fun known i => known.set i (f known i)) init = T at ih hlen
    have hm : m < T.length := by rw [hlen, hinit]; exact hg.lt (by simp)
    have hnot : m ∉ order := by
      have := hg.nodup
      rw [List.nodup_append] at this
      exact fun h => this.2.2 m h m (by simp) rfl
    -- an entry that an earlier entry is computed from is not the one that is set now
    have hkeep : ∀ i ∈ order ++ [m], f (T.set m (f T m)) i = f T i := by
      intro i hi
      refine hf _ _ i fun j hj => ?_
      have hjm : j ≠ m := by
        rintro rfl
        rcases List.mem_append.mp hi with h | h
        · exact hnot (hg.of_append.before_mem hj h).1
        · rw [List.mem_singleton] at h
          subst h
          exact absurd (hg.before_mem hj (by simp)).2 (Nat.lt_irrefl _)
      rw [List.getElem?_set_ne (Ne.symm hjm)]
    rw [hkeep i hi]
    rcases List.mem_append.mp hi with h | h
    · have him : m ≠ i := by rintro rfl; exact hnot h
      rw [List.getElem?_set_ne him]
      exact ih hg.of_append i h
    · rw [List.mem_singleton] at h
      subst h
      rw [List.getElem?_set_self hm]

end Table

/-! ## Ancestors

  The entry of a stage is the union of its predecessors and of their entries.  By induction along the order that is
  the transitive closure of the edges. -/

/-- An element is added once. -/
theorem mem_foldl_addNew {items : List Nat} : ∀ {found : List Nat} {j : Nat},
    j ∈ items.foldl addNew found ↔ j ∈ found ∨ j ∈ items := by
  induction items with
  | nil => intro found j; simp
  | cons a rest ih =>
    intro found j
    rw [List.foldl_cons, ih, mem_addNew, List.mem_cons, or_assoc]

/-- A stage's ancestors are its predecessors and theirs. -/
theorem mem_withAncestors {known : List (List Nat)} {ps : List Nat} {j : Nat} :
    j ∈ withAncestors known ps ↔ ∃ p ∈ ps, j = p ∨ j ∈ known.getD p [] := by
  have gen : ∀ (ps found : List Nat),
      j ∈ ps.foldl (fun found p => (known.getD p []).foldl addNew (addNew found p)) found ↔
        j ∈ found ∨ ∃ p ∈ ps, j = p ∨ j ∈ known.getD p [] := by
    intro ps
    induction ps with
    | nil => intro found; simp
    | cons p rest ih =>
      intro found
      rw [List.foldl_cons, ih, mem_foldl_addNew, mem_addNew]
      simp only [List.mem_cons, exists_eq_or_imp, or_assoc]
  rw [withAncestors, gen]
  simp

variable {preds : List (List Nat)} {order : List Nat}

/-- The ancestors of a stage are its predecessors and theirs. -/
theorem collectAncestors_eq (hg : Greedy preds.length (Edge preds) order) {i : Nat} (hi : i ∈ order) :
    (collectAncestors preds order).getD i [] =
      withAncestors (collectAncestors preds order) (predsOf preds i) := by
  have hf : ∀ (known known' : List (List Nat)) (i : Nat), (∀ j, Edge preds j i → known[j]? = known'[j]?) →
      withAncestors known (predsOf preds i) = withAncestors known' (predsOf preds i) := by
    intro known known' i h
    unfold withAncestors
    refine List.foldl_ext _ _ _ fun found p hp => ?_
    rw [List.getD_eq_getElem?_getD, List.getD_eq_getElem?_getD, h p hp]
  have := foldl_set_eq (fun known i => withAncestors known (predsOf preds i)) hf
    (preds.map fun _ => []) (by simp) hg i hi
  rw [List.getD_eq_getElem?_getD, collectAncestors, this]
  rfl

/-- **The ancestors of a stage are the stages that it waits for, directly or not.** -/
theorem mem_collectAncestors (hg : Greedy preds.length (Edge preds) order)
    (hlen : order.length = preds.length) (i j : Nat) :
    j ∈ (collectAncestors preds order).getD i [] ↔ Relation.TransGen (Edge preds) j i := by
  have hall : ∀ i < preds.length, i ∈ order := fun i hi =>
    (hg.perm_range hlen).mem_iff.mpr (List.mem_range.mpr hi)
  -- along the order; what a stage waits for stands in front of it
  induction hk : order.idxOf i using Nat.strongRecOn generalizing i with
  | ind k ih =>
    rcases Nat.lt_or_ge i preds.length with hi | hi
    · rw [collectAncestors_eq hg (hall i hi), mem_withAncestors, Relation.TransGen.tail'_iff]
      refine exists_congr fun p => ?_
      rw [Relation.reflTransGen_iff_eq_or_transGen, and_comm (b := Edge preds p i), eq_comm (a := p)]
      refine and_congr_right fun hp => or_congr_right ?_
      have hlt := (hg.before_mem hp (hall i hi)).2
      exact ih (order.idxOf p) (hk ▸ hlt) p rfl
    · have hout : (collectAncestors preds order).getD i [] = [] := by
        refine List.getD_eq_default _ _ ?_
        rw [collectAncestors, length_foldl_set, List.length_map]
        exact hi
      rw [hout]
      refine iff_of_false List.not_mem_nil fun h => ?_
      obtain ⟨m, -, hm⟩ := Relation.TransGen.tail'_iff.mp h
      exact absurd (lt_length_of_mem_predsOf hm) (Nat.not_lt.mpr hi)

end Wheelwright
