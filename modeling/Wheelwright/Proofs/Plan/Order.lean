/-
  Orders — the queue of ready stages places them greedily, and leaves out nothing but cycles.

  **Specification** — `Greedy n before order`: every stage of `order` is the least one of the stages
  below `n` that are not placed in front of it and whose predecessors all are.

  **Program** — `arrange` counts for every stage the predecessors that are not placed yet and always
  takes the first ready one (`Countdown`).

  **The crux** — `Arranging` is the invariant of the queue: its counters are exact and its ready stages
  are precisely the `Startable` ones.  When the queue runs dry, every stage left over waits for another
  one left over; without a cycle there is none (`arrange_complete`).
-/
import Mathlib.Data.Fintype.EquivFin
import Mathlib.Data.List.Basic
import Wheelwright.Proofs.Plan.Countdown
import Wheelwright.Proofs.Plan.Dependency

namespace Wheelwright

/-! ## Greedy orders

  A greedy order takes the least stage that can be placed, again and again.  All that the other modules want of an
  order follows: no stage twice, predecessors before their stages, and every stage if it is as long as there are
  stages. -/

/-- Stage `i` is not placed, but all its predecessors are. -/
def Startable (n : Nat) (before : Nat → Nat → Prop) (placed : List Nat) (i : Nat) : Prop :=
  i < n ∧ i ∉ placed ∧ ∀ j, before j i → j ∈ placed

/-- Stage `i` is the least one that is startable. -/
def IsNext (n : Nat) (before : Nat → Nat → Prop) (placed : List Nat) (i : Nat) : Prop :=
  Startable n before placed i ∧ ∀ m, Startable n before placed m → i ≤ m

/-- Every stage is the next one after those in front of it. -/
def Greedy (n : Nat) (before : Nat → Nat → Prop) (order : List Nat) : Prop :=
  ∀ k i, order[k]? = some i → IsNext n before (order.take k) i

namespace Greedy

variable {n : Nat} {before : Nat → Nat → Prop} {order : List Nat}

/-- The empty order is greedy. -/
theorem nil : Greedy n before [] := by
  intro k i h
  simp at h

/-- A greedy order goes on with the least stage that could be next. -/
theorem append {i : Nat} (h : Greedy n before order) (hi : IsNext n before order i) :
    Greedy n before (order ++ [i]) := by
  intro k m hm
  rcases Nat.lt_trichotomy k order.length with hk | rfl | hk
  · rw [List.getElem?_append_left hk] at hm
    rw [List.take_append_of_le_length (by omega)]
    exact h k m hm
  · rw [List.getElem?_concat_length] at hm
    cases hm
    rw [List.take_left]
    exact hi
  · rw [List.getElem?_eq_none (by simp; omega)] at hm
    cases hm

/-- It lists stages only. -/
theorem lt (h : Greedy n before order) {i : Nat} (hi : i ∈ order) : i < n := by
  obtain ⟨k, hk⟩ := List.getElem?_of_mem hi
  exact (h k i hk).1.1

/-- It lists none of them twice. -/
theorem nodup (h : Greedy n before order) : order.Nodup := by
  rw [List.nodup_iff_getElem?_ne_getElem?]
  intro k m hkm hm heq
  rw [List.getElem?_eq_getElem hm] at heq
  have hnot := (h m _ (List.getElem?_eq_getElem hm)).1.2.1
  exact hnot (List.mem_take_iff_getElem.mpr ⟨k, by omega, by
    rw [List.getElem?_eq_getElem (by omega), Option.some.injEq] at heq
    exact heq⟩)

/-- Predecessors are placed, and earlier. -/
theorem before_mem (h : Greedy n before order) {j i : Nat} (hji : before j i) (hi : i ∈ order) :
    j ∈ order ∧ order.idxOf j < order.idxOf i := by
  have hget : order[order.idxOf i]? = some i := by
    rw [List.getElem?_eq_getElem (List.idxOf_lt_length_of_mem hi), List.getElem_idxOf]
  have hj : j ∈ order.take (order.idxOf i) := (h _ i hget).1.2.2 j hji
  have hjo := List.mem_of_mem_take hj
  exact ⟨hjo, (List.mem_take_iff_idxOf_lt hjo).mp hj⟩

/-- What a placed stage waits for, directly or not, is placed earlier. -/
theorem transGen_mem (h : Greedy n before order) {j i : Nat} (hji : Relation.TransGen before j i) :
    i ∈ order → j ∈ order ∧ order.idxOf j < order.idxOf i := by
  induction hji with
  | single hb => exact fun hi => h.before_mem hb hi
  | tail _ hb ih =>
    intro hi
    obtain ⟨hm, hlt⟩ := h.before_mem hb hi
    obtain ⟨hj, hlt'⟩ := ih hm
    exact ⟨hj, by omega⟩

/-- A greedy order of full length lists all stages. -/
theorem perm_range (h : Greedy n before order) (hlen : order.length = n) :
    order.Perm (List.range n) := by
  refine (List.subperm_of_subset h.nodup fun i hi => ?_).perm_of_length_le (by simp [hlen])
  exact List.mem_range.mpr (h.lt hi)

/-- An order that leaves no stage out is as long as there are stages. -/
theorem length_eq (h : Greedy n before order) (hall : ∀ i < n, i ∈ order) : order.length = n := by
  have hsub : List.range n ⊆ order := fun i hi => hall i (List.mem_range.mp hi)
  have hle := (List.subperm_of_subset List.nodup_range hsub).length_le
  have hge := (List.subperm_of_subset h.nodup fun i hi => List.mem_range.mpr (h.lt hi)).length_le
  rw [List.length_range] at hle hge
  omega

end Greedy

/-! ## The invariant of the queue

  The queue has counters and a list of ready stages.  The invariant says what both mean after some stages have been
  placed, and placing one more keeps it. -/

variable {preds : List (List Nat)}

/-- Stage `j` is a predecessor of stage `i` by number. -/
def Edge (preds : List (List Nat)) (j i : Nat) : Prop := j ∈ predsOf preds i

/-- Who has a predecessor has a row in the table. -/
theorem lt_length_of_mem_predsOf {j i : Nat} (h : j ∈ predsOf preds i) : i < preds.length := by
  rcases Nat.lt_or_ge i preds.length with hi | hi
  · exact hi
  · rw [predsOf, List.getD_eq_default _ _ hi] at h
    exact absurd h List.not_mem_nil

/-- A stage without predecessors is ready from the start, and no other one. -/
theorem mem_ready_start {stageAt : Nat → Nat} {k : Nat} :
    k ∈ (Countdown.start preds stageAt).ready ↔
      k < preds.length ∧ predsOf preds (stageAt k) = [] := by
  have h := (Countdown.tracks_start preds stageAt).left_eq_zero_iff (stageAt k)
  have hready : k ∈ (Countdown.start preds stageAt).ready ↔
      k < preds.length ∧ (Countdown.start preds stageAt).left.getD (stageAt k) 0 = 0 := by
    simp [Countdown.start]
  rw [hready, h]
  simp [List.eq_nil_iff_forall_not_mem]

/-- At the start the ready stages are in order. -/
theorem sorted_start (stageAt : Nat → Nat) :
    (Countdown.start preds stageAt).ready.Pairwise (· < ·) :=
  List.Pairwise.filter _ List.pairwise_lt_range

/-- The queue after `placed`: counters are exact, and what is ready is what can be placed. -/
structure Arranging (preds : List (List Nat)) (placed : List Nat) (c : Countdown) : Prop where
  /-- The counters count what is not placed. -/
  tracks : c.Tracks preds fun j => placed.contains j
  /-- The ready stages are in order. -/
  sorted : c.ready.Pairwise (· < ·)
  /-- They are those that could be placed. -/
  mem_ready : ∀ i, i ∈ c.ready ↔ Startable preds.length (Edge preds) placed i
  /-- What is placed so far is greedy. -/
  greedy : Greedy preds.length (Edge preds) placed

namespace Arranging

/-- It holds at the start. -/
theorem start : Arranging preds [] (.start preds id) := by
  refine ⟨(Countdown.tracks_start preds id).congr rfl (by simp), sorted_start id, fun i => ?_, Greedy.nil⟩
  rw [mem_ready_start]
  simp [Startable, Edge, List.eq_nil_iff_forall_not_mem]

variable {placed rest : List Nat} {c : Countdown} {i : Nat}

/-- One stage more is placed. -/
theorem place (hnd : ∀ i, (predsOf preds i).Nodup) (h : Arranging preds placed c)
    (hready : c.ready = i :: rest) :
    Arranging preds (placed ++ [i])
      ((dependentsIn preds i).foldl (Countdown.release id) { c with ready := rest }) := by
  have hi : Startable preds.length (Edge preds) placed i :=
    (h.mem_ready i).mp (hready ▸ List.mem_cons_self ..)
  have hsorted := List.pairwise_cons.mp (hready ▸ h.sorted)
  have htracks : Countdown.Tracks { c with ready := rest } preds fun j => placed.contains j :=
    h.tracks.congr rfl fun _ => rfl
  have hnot : placed.contains i = false := by simpa using hi.2.1
  have hdone : ∀ j, (placed ++ [i]).contains j = (placed.contains j || j == i) := by
    intro j
    simp only [List.contains_eq_mem, List.mem_append, List.mem_singleton, Bool.decide_or]
    rfl
  refine ⟨htracks.release hnd hnot hdone, Countdown.sorted_foldl_release _ _ hsorted.2, fun m => ?_, ?_⟩
  -- ready now: those that were, and those that waited for this stage alone
  · rw [htracks.mem_ready_release hnd hnot hdone m]
    constructor
    · rintro (hm | ⟨d, hd, rfl, hall⟩)
      · -- it was ready before
        have hold := (h.mem_ready m).mp (hready ▸ List.mem_cons_of_mem _ hm)
        have hne : m ≠ i := by have := hsorted.1 m hm; omega
        refine ⟨hold.1, ?_, fun j hj => List.mem_append_left _ (hold.2.2 j hj)⟩
        simp [hold.2.1, hne]
      · -- it waited for `i`
        refine ⟨lt_length_of_mem_predsOf hd, fun hmem => ?_, fun j hj => ?_⟩
        · -- a stage that is placed already has all its predecessors among the placed ones
          rcases List.mem_append.mp hmem with hp | hp
          · exact hi.2.1 (h.greedy.before_mem hd hp).1
          · obtain rfl : d = i := List.mem_singleton.mp hp
            exact hi.2.1 (hi.2.2 d hd)
        · simpa using hall j hj
    · rintro ⟨hlt, hmem, hall⟩
      by_cases hw : Edge preds i m
      · exact Or.inr ⟨m, hw, rfl, fun j hj => by simpa using hall j hj⟩
      · refine Or.inl ?_
        have hold : Startable preds.length (Edge preds) placed m := by
          refine ⟨hlt, fun hp => hmem (List.mem_append_left _ hp), fun j hj => ?_⟩
          rcases List.mem_append.mp (hall j hj) with hp | hp
          · exact hp
          · rw [List.mem_singleton] at hp
            exact absurd (hp ▸ hj) hw
        rcases List.mem_cons.mp (hready ▸ (h.mem_ready m).mpr hold) with rfl | hr
        · exact absurd (by simp) hmem
        · exact hr
  -- the stage placed is the least of the ready ones
  · refine h.greedy.append ⟨hi, fun m hm => ?_⟩
    rcases List.mem_cons.mp (hready ▸ (h.mem_ready m).mpr hm) with rfl | hr
    · exact Nat.le_refl _
    · exact Nat.le_of_lt (hsorted.1 m hr)

end Arranging

/-! ## The whole run of the queue

  The queue runs until it is dry.  A stage that is left then waits for one that is left, and in a list that is finite
  and without cycles there is no such stage. -/

/-- The queue keeps its invariant, and stops only when it runs dry or out of steps. -/
theorem arranging_arrange (hnd : ∀ i, (predsOf preds i).Nodup) :
    ∀ (steps : Nat) (placed : List Nat) (c : Countdown), Arranging preds placed c →
      Arranging preds (arrange preds steps placed c).1 (arrange preds steps placed c).2 ∧
      ((arrange preds steps placed c).2.ready = [] ∨
        (arrange preds steps placed c).1.length = placed.length + steps) := by
  intro steps
  -- on the steps; the order grows by one in each, or nothing is ready
  induction steps with
  | zero => intro placed c h; exact ⟨h, Or.inr rfl⟩
  | succ steps ih =>
    intro placed c h
    rw [arrange]
    split
    · rename_i hdry
      exact ⟨h, Or.inl hdry⟩
    · rename_i i rest hready
      obtain ⟨hinv, hend⟩ := ih _ _ (h.place hnd hready)
      refine ⟨hinv, hend.imp_right fun hlen => ?_⟩
      rw [hlen, List.length_append, List.length_singleton]
      omega

/-- Started on all stages the queue runs dry. -/
theorem arrange_dry (hnd : ∀ i, (predsOf preds i).Nodup) :
    (arrange preds preds.length [] (.start preds id)).2.ready = [] := by
  obtain ⟨hinv, hend⟩ := arranging_arrange hnd preds.length [] _ Arranging.start
  rcases hend with hdry | hlen
  · exact hdry
  · -- all stages are placed, so nothing can be ready
    rw [List.length_nil, Nat.zero_add] at hlen
    have hperm := hinv.greedy.perm_range hlen
    rw [List.eq_nil_iff_forall_not_mem]
    intro i hi
    have hs := (hinv.mem_ready i).mp hi
    exact hs.2.1 (hperm.mem_iff.mpr (List.mem_range.mpr hs.1))

/-- **Nothing but a cycle stops the queue**: without one every stage is placed. -/
theorem arrange_complete (hnd : ∀ i, (predsOf preds i).Nodup)
    (hlt : ∀ i j, j ∈ predsOf preds i → j < preds.length)
    (hac : ∀ i, ¬ Relation.TransGen (Edge preds) i i) :
    (arrange preds preds.length [] (.start preds id)).1.length = preds.length := by
  obtain ⟨hinv, -⟩ := arranging_arrange hnd preds.length [] _ Arranging.start
  have hdry := arrange_dry hnd
  generalize arrange preds preds.length [] (.start preds id) = r at hinv hdry
  -- on the stages, which are finitely many, waiting is well-founded
  let waits : Fin preds.length → Fin preds.length → Prop :=
    fun j i => Relation.TransGen (Edge preds) j i
  have : IsTrans _ waits := ⟨fun _ _ _ h1 h2 => Relation.TransGen.trans h1 h2⟩
  have : Std.Irrefl waits := ⟨fun i => hac i⟩
  have hwf : WellFounded waits := Finite.wellFounded_of_trans_of_irrefl waits
  have hall : ∀ i : Fin preds.length, (i : Nat) ∈ r.1 := by
    intro i
    induction i using hwf.induction with
    | h i ih =>
      by_contra hi
      have hs : Startable preds.length (Edge preds) r.1 i :=
        ⟨i.2, hi, fun j hj => ih ⟨j, hlt i j hj⟩ (Relation.TransGen.single hj)⟩
      have := (hinv.mem_ready i).mpr hs
      rw [hdry] at this
      exact absurd this List.not_mem_nil
  exact hinv.greedy.length_eq fun i hi => hall ⟨i, hi⟩

/-- Stages can be laid out exactly if there is no cycle among them. -/
theorem arrange_length_iff (hnd : ∀ i, (predsOf preds i).Nodup)
    (hlt : ∀ i j, j ∈ predsOf preds i → j < preds.length) :
    (arrange preds preds.length [] (.start preds id)).1.length = preds.length ↔
      ∀ i, ¬ Relation.TransGen (Edge preds) i i := by
  constructor
  · intro hlen i hcyc
    have hg := (arranging_arrange hnd preds.length [] _ Arranging.start).1.greedy
    obtain ⟨m, -, hmi⟩ := Relation.TransGen.tail'_iff.mp hcyc
    have hi : i < preds.length := lt_length_of_mem_predsOf hmi
    have hmem := (hg.perm_range hlen).mem_iff.mpr (List.mem_range.mpr hi)
    exact absurd (hg.transGen_mem hcyc hmem).2 (Nat.lt_irrefl _)
  · exact arrange_complete hnd hlt

end Wheelwright
