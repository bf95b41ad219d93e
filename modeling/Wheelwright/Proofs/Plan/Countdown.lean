/-
  Countdowns — the counters behind planning and running say who is ready.

  **Specification** — `c.Tracks preds done`: every counter of `c` is the number of predecessors that are
  not done yet.  Planning counts the stages that are not placed, a run those that have not succeeded.

  **The crux** — the dependents of a stage are listed once each, and the stage counts once for each of
  them; so when the stage gets done, one `release` per dependent keeps the counters exact
  (`Tracks.release`), no counter is at zero before its `release` (`Tracks.pos_of_dependent`), and what
  becomes ready is exactly what waited for this stage last (`Tracks.mem_ready_release`).
-/
import Mathlib.Data.List.GetD
import Mathlib.Data.List.Nodup
import Wheelwright.Plan

namespace Wheelwright

/-! ## Places in order

  The ready positions are kept in order, so the first of them is the least.  A dependent is listed once, since no
  stage names a predecessor twice. -/

/-- A place is inserted among the others. -/
theorem mem_insertPlace {k j : Nat} {places : List Nat} :
    j ∈ insertPlace k places ↔ j = k ∨ j ∈ places := by
  induction places with
  | nil => simp [insertPlace]
  | cons m rest ih =>
    rw [insertPlace]
    split
    · rw [List.mem_cons]
    · split
      · rename_i h
        subst h
        simp
      · rw [List.mem_cons, ih, List.mem_cons]
        constructor
        · rintro (h | h | h)
          · exact Or.inr (Or.inl h)
          · exact Or.inl h
          · exact Or.inr (Or.inr h)
        · rintro (h | h | h)
          · exact Or.inr (Or.inl h)
          · exact Or.inl h
          · exact Or.inr (Or.inr h)

/-- The places stay in order, and none comes twice. -/
theorem sorted_insertPlace {k : Nat} {places : List Nat} (h : places.Pairwise (· < ·)) :
    (insertPlace k places).Pairwise (· < ·) := by
  induction places with
  | nil => exact List.pairwise_singleton ..
  | cons m rest ih =>
    obtain ⟨hm, hrest⟩ := List.pairwise_cons.mp h
    rw [insertPlace]
    split
    · rename_i hk
      -- the new place comes first, is there already, or comes somewhere behind the first
      refine List.pairwise_cons.mpr ⟨fun j hj => ?_, h⟩
      rcases List.mem_cons.mp hj with rfl | hj
      · exact hk
      · exact Nat.lt_trans hk (hm j hj)
    · split
      · exact h
      · refine List.pairwise_cons.mpr ⟨fun j hj => ?_, ih hrest⟩
        rcases mem_insertPlace.mp hj with rfl | hj
        · omega
        · exact hm j hj

/-- A dependent is a stage that has the other as predecessor. -/
theorem mem_dependentsIn {preds : List (List Nat)} {i d : Nat} :
    d ∈ dependentsIn preds i ↔ i ∈ predsOf preds d := by
  simp only [dependentsIn, List.mem_filter, List.mem_range, List.contains_iff_mem]
  constructor
  · exact fun h => h.2
  · intro h
    refine ⟨?_, h⟩
    rcases Nat.lt_or_ge d preds.length with hd | hd
    · exact hd
    · rw [predsOf, List.getD_eq_default _ _ hd] at h
      exact absurd h List.not_mem_nil

/-- It is listed once. -/
theorem nodup_dependentsIn (preds : List (List Nat)) (i : Nat) : (dependentsIn preds i).Nodup :=
  List.Nodup.filter _ List.nodup_range

/-! ## Counting what is not done

  When one more stage is done, the number of those that are not done goes down by one exactly for the stages that wait
  for it. -/

/-- One more stage done is one less to wait for, exactly for those that wait for it. -/
theorem countP_not_done {done done' : Nat → Bool} {i : Nat} (hi : done i = false)
    (hdone : ∀ j, done' j = (done j || j == i)) :
    ∀ {l : List Nat}, l.Nodup →
      l.countP (fun j => !done j) = l.countP (fun j => !done' j) + if i ∈ l then 1 else 0 := by
  intro l
  -- on the stages that are waited for, of which at most one is the one just done
  induction l with
  | nil => intro _; simp
  | cons a rest ih =>
    intro hnd
    obtain ⟨ha, hrest⟩ := List.nodup_cons.mp hnd
    rw [List.countP_cons, List.countP_cons, ih hrest, hdone a]
    by_cases hai : a = i
    · subst hai
      simp [hi, ha]
    · have hia : ¬ i = a := fun h => hai h.symm
      simp only [List.mem_cons, hia, false_or, beq_eq_false_iff_ne.mpr hai, Bool.or_false]
      omega

namespace Countdown

variable {placeOf : Nat → Nat} {preds : List (List Nat)} {done done' : Nat → Bool}

/-! ## Releasing a list of stages

  Releasing goes over a list of stages and takes the counter of each down by one.  What it does to all counters
  together is told by which stages are in the list, each being there once. -/

/-- Releasing keeps the number of counters. -/
@[simp] theorem length_release (c : Countdown) (d : Nat) :
    (c.release placeOf d).left.length = c.left.length := by
  simp [release]

/-- It is kept however many are released. -/
theorem length_foldl_release (ds : List Nat) (c : Countdown) :
    (ds.foldl (release placeOf) c).left.length = c.left.length := by
  induction ds generalizing c with
  | nil => rfl
  | cons d rest ih => rw [List.foldl_cons, ih, length_release]

/-- The ready places stay in order. -/
theorem sorted_foldl_release (ds : List Nat) (c : Countdown) (h : c.ready.Pairwise (· < ·)) :
    (ds.foldl (release placeOf) c).ready.Pairwise (· < ·) := by
  induction ds generalizing c with
  | nil => exact h
  | cons d rest ih =>
    rw [List.foldl_cons]
    refine ih _ ?_
    unfold release
    dsimp only
    split
    · exact sorted_insertPlace h
    · exact h

/-- Releasing takes one counter down. -/
theorem left_release (c : Countdown) {d : Nat} (hd : d < c.left.length) (j : Nat) :
    (c.release placeOf d).left.getD j 0 = if j = d then c.left.getD j 0 - 1 else c.left.getD j 0 := by
  simp only [release, List.getD_eq_getElem?_getD, List.getElem?_set]
  by_cases h : j = d
  · subst h; simp [hd]
  · simp [h, Ne.symm h]

/-- Releasing several takes each of theirs down. -/
theorem left_foldl_release : ∀ (ds : List Nat) (c : Countdown), ds.Nodup →
    (∀ d ∈ ds, d < c.left.length) → ∀ j, (ds.foldl (release placeOf) c).left.getD j 0 =
      if j ∈ ds then c.left.getD j 0 - 1 else c.left.getD j 0 := by
  intro ds
  -- on the stages that are counted down, each of them once
  induction ds with
  | nil => intro c _ _ j; simp
  | cons d rest ih =>
    intro c hnd hlt j
    obtain ⟨hd, hrest⟩ := List.nodup_cons.mp hnd
    have hlen : (c.release placeOf d).left.length = c.left.length := length_release c d
    rw [List.foldl_cons, ih _ hrest (fun e he => hlen ▸ hlt e (List.mem_cons_of_mem _ he)) j,
      left_release c (hlt d (List.mem_cons_self ..)) j]
    by_cases hj : j = d
    · subst hj; simp [hd]
    · simp [hj]

/-- Ready are those that were and those whose counter reached zero. -/
theorem mem_ready_foldl_release : ∀ (ds : List Nat) (c : Countdown), ds.Nodup →
    (∀ d ∈ ds, d < c.left.length) → ∀ k, k ∈ (ds.foldl (release placeOf) c).ready ↔
      k ∈ c.ready ∨ ∃ d ∈ ds, placeOf d = k ∧ c.left.getD d 0 - 1 = 0 := by
  intro ds
  -- one release after another; each counter is taken down once
  induction ds with
  | nil => intro c _ _ k; simp
  | cons d rest ih =>
    intro c hnd hlt k
    obtain ⟨hd, hrest⟩ := List.nodup_cons.mp hnd
    have hdlt := hlt d (List.mem_cons_self ..)
    have hlen : (c.release placeOf d).left.length = c.left.length := length_release c d
    have hready : k ∈ (c.release placeOf d).ready ↔
        k ∈ c.ready ∨ (placeOf d = k ∧ c.left.getD d 0 - 1 = 0) := by
      unfold release
      dsimp only
      split
      · rename_i h0
        rw [mem_insertPlace]
        constructor
        · rintro (rfl | h)
          · exact Or.inr ⟨rfl, h0⟩
          · exact Or.inl h
        · rintro (h | ⟨rfl, -⟩)
          · exact Or.inr h
          · exact Or.inl rfl
      · rename_i h0
        exact ⟨Or.inl, fun h => h.resolve_right fun h' => h0 h'.2⟩
    -- the counters of the others are as they were before `d` was released
    have hother : ∀ e ∈ rest, (c.release placeOf d).left.getD e 0 = c.left.getD e 0 := by
      intro e he
      rw [left_release c hdlt, if_neg (fun h : e = d => hd (h ▸ he))]
    rw [List.foldl_cons, ih _ hrest (fun e he => hlen ▸ hlt e (List.mem_cons_of_mem _ he)) k, hready]
    constructor
    · rintro ((h | h) | ⟨e, he, hk, h0⟩)
      · exact Or.inl h
      · exact Or.inr ⟨d, List.mem_cons_self .., h⟩
      · exact Or.inr ⟨e, List.mem_cons_of_mem _ he, hk, hother e he ▸ h0⟩
    · rintro (h | ⟨e, he, hk, h0⟩)
      · exact Or.inl (Or.inl h)
      · rcases List.mem_cons.mp he with rfl | he
        · exact Or.inl (Or.inr ⟨hk, h0⟩)
        · exact Or.inr ⟨e, he, hk, (hother e he).symm ▸ h0⟩

/-- `release`, unless the counter is at zero already. -/
def release? (placeOf : Nat → Nat) (c : Countdown) (d : Nat) : Option Countdown :=
  if 0 < c.left.getD d 0 then some (c.release placeOf d) else none

/-- Counters above zero are taken down without loss. -/
theorem foldlM_release? : ∀ (ds : List Nat) (c : Countdown), ds.Nodup →
    (∀ d ∈ ds, d < c.left.length ∧ 0 < c.left.getD d 0) →
      ds.foldlM (release? placeOf) c = some (ds.foldl (release placeOf) c) := by
  intro ds
  induction ds with
  | nil => intro c _ _; rfl
  | cons d rest ih =>
    intro c hnd hpos
    obtain ⟨hd, hrest⟩ := List.nodup_cons.mp hnd
    obtain ⟨hlt, hleft⟩ := hpos d (List.mem_cons_self ..)
    rw [List.foldlM_cons, release?, if_pos hleft, List.foldl_cons]
    refine ih _ hrest fun e he => ?_
    obtain ⟨helt, heleft⟩ := hpos e (List.mem_cons_of_mem _ he)
    refine ⟨by rwa [length_release], ?_⟩
    -- one release takes nothing from the others
    rw [left_release c hlt, if_neg (fun h : e = d => hd (h ▸ he))]
    exact heleft

/-! ## Counters that count what is not done

  The counters are exact at the start, and stay so when a stage gets done and its dependents are released.  That a
  counter is above zero when it is taken down follows from what it counts. -/

/-- Every counter is the number of predecessors that are not done. -/
structure Tracks (c : Countdown) (preds : List (List Nat)) (done : Nat → Bool) : Prop where
  /-- There is a counter for each stage. -/
  length : c.left.length = preds.length
  /-- It counts the predecessors that are not done. -/
  left_eq : ∀ i, c.left.getD i 0 = (predsOf preds i).countP fun j => !done j

/-- At the start nothing is done. -/
theorem tracks_start (preds : List (List Nat)) (stageAt : Nat → Nat) :
    (start preds stageAt).Tracks preds fun _ => false := by
  refine ⟨by simp [start], fun i => ?_⟩
  have h : (start preds stageAt).left.getD i 0 = (predsOf preds i).length := by
    show (preds.map List.length).getD i 0 = (preds.getD i []).length
    exact List.getD_map preds [] List.length
  rw [h, List.countP_eq_length.mpr (by simp)]

/-- A stage waits for nothing exactly if all its predecessors are done. -/
theorem Tracks.left_eq_zero_iff {c : Countdown} (h : c.Tracks preds done) (i : Nat) :
    c.left.getD i 0 = 0 ↔ ∀ j ∈ predsOf preds i, done j = true := by
  rw [h.left_eq, List.countP_eq_zero]
  simp

/-- Only the counters matter, and which stages are done. -/
theorem Tracks.congr {c c' : Countdown} (h : c.Tracks preds done) (hleft : c'.left = c.left)
    (hdone : ∀ j, done' j = done j) : c'.Tracks preds done' := by
  refine ⟨by rw [hleft, h.length], fun i => ?_⟩
  rw [hleft, h.left_eq i, funext hdone]

/-- A dependent has a counter. -/
theorem Tracks.lt_of_dependent {c : Countdown} (h : c.Tracks preds done) {i d : Nat}
    (hd : d ∈ dependentsIn preds i) : d < c.left.length := by
  rw [h.length]
  exact List.mem_range.mp (List.mem_of_mem_filter hd)

section Release

variable {c : Countdown} {i : Nat} (h : c.Tracks preds done) (hnd : ∀ i, (predsOf preds i).Nodup)
  (hi : done i = false) (hdone : ∀ j, done' j = (done j || j == i))
include h hnd hi hdone

/-- **No counter is taken below zero**: a stage that waits for `i` still counts `i`. -/
theorem Tracks.pos_of_dependent {d : Nat} (hd : i ∈ predsOf preds d) : 0 < c.left.getD d 0 := by
  rw [h.left_eq, countP_not_done hi hdone (hnd d), if_pos hd]
  omega

/-- None of the dependents of a stage that gets done has a counter at zero when its turn comes. -/
theorem Tracks.foldlM_release? :
    (dependentsIn preds i).foldlM (release? placeOf) c =
      some ((dependentsIn preds i).foldl (release placeOf) c) := by
  refine Countdown.foldlM_release? _ c (nodup_dependentsIn preds i) fun d hd => ⟨?_, ?_⟩
  · exact h.lt_of_dependent hd
  · exact h.pos_of_dependent hnd hi hdone (mem_dependentsIn.mp hd)

/-- **Counters stay exact** when the dependents of a stage that got done are released. -/
theorem Tracks.release :
    ((dependentsIn preds i).foldl (Countdown.release placeOf) c).Tracks preds done' := by
  have hlt : ∀ d ∈ dependentsIn preds i, d < c.left.length := fun d hd => h.lt_of_dependent hd
  refine ⟨by rw [length_foldl_release, h.length], fun j => ?_⟩
  rw [left_foldl_release _ c (nodup_dependentsIn preds i) hlt, h.left_eq,
    countP_not_done hi hdone (hnd j)]
  by_cases hj : i ∈ predsOf preds j
  · rw [if_pos (mem_dependentsIn.mpr hj), if_pos hj]; omega
  · rw [if_neg (fun hm => hj (mem_dependentsIn.mp hm)), if_neg hj]; omega

/-- What becomes ready by this is what has all its predecessors done now and waited for `i`. -/
theorem Tracks.mem_ready_release (k : Nat) :
    k ∈ ((dependentsIn preds i).foldl (Countdown.release placeOf) c).ready ↔
      k ∈ c.ready ∨ ∃ d, i ∈ predsOf preds d ∧ placeOf d = k ∧ ∀ j ∈ predsOf preds d, done' j = true := by
  have hlt : ∀ d ∈ dependentsIn preds i, d < c.left.length := fun d hd => h.lt_of_dependent hd
  -- a counter is zero when every predecessor is done
  have hzero : ∀ d, i ∈ predsOf preds d →
      (c.left.getD d 0 - 1 = 0 ↔ ∀ j ∈ predsOf preds d, done' j = true) := by
    intro d hd
    rw [h.left_eq, countP_not_done hi hdone (hnd d), if_pos hd, Nat.add_sub_cancel,
      List.countP_eq_zero]
    simp
  rw [mem_ready_foldl_release _ c (nodup_dependentsIn preds i) hlt]
  constructor
  · rintro (hk | ⟨d, hd, hk, h0⟩)
    · exact Or.inl hk
    · exact Or.inr ⟨d, mem_dependentsIn.mp hd, hk, (hzero d (mem_dependentsIn.mp hd)).mp h0⟩
  · rintro (hk | ⟨d, hd, hk, h0⟩)
    · exact Or.inl hk
    · exact Or.inr ⟨d, mem_dependentsIn.mpr hd, hk, (hzero d hd).mpr h0⟩

end Release

end Countdown

end Wheelwright
