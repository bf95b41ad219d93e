/-
  Transitions — taking a ready stage and settling a running one.

  **Specification** — `Starts x y i`: the ready stage `i` is running now, and nothing else has changed.
  `Settles x y i r`: the stage `i` has got the result `r`, and whatever else has got one was given up
  because of a direct predecessor that did not succeed.

  **Program** — `takeNext` starts or settles a ready stage (`takeNext_spec`), `settle` a running one
  (`settle_spec`).

  **The crux** — both leave the run coherent and closed.  Noting one result may open what was closed; the
  stages given up after it close it again.
-/
import Wheelwright.Proofs.Execution.Coherence

namespace Wheelwright.Execution

variable {x y z : Execution} {i j : Nat} {r s : StageResult} {rest busy : List Nat}

/-! ## Giving up

  A stage is given up with a result that says so and names a predecessor.  Giving up neither starts nor ends a run,
  and the results that appear are of this kind only. -/

/-- The result says that the stage was given up because of a direct predecessor. -/
def GivenUp (x : Execution) (i : Nat) (r : StageResult) : Prop :=
  ∃ q ∈ predsOf x.plan.predecessors i, x.Failed q ∧
    r = .blocked (x.plan.nameOf i) (blockReason (x.plan.nameOf q))

/-- Who was given up stays given up for the same predecessor. -/
theorem Extends.givenUp (h : Extends x y) (hi : x.GivenUp i r) : y.GivenUp i r := by
  obtain ⟨q, hqi, hq, rfl⟩ := hi
  exact ⟨q, h.plan ▸ hqi, h.failed hq, by rw [h.plan]⟩

/-- Giving up starts and ends nothing. -/
theorem GivesUp.running (h : GivesUp x y) : y.running = x.running := by
  cases h with
  | intro => exact note_running

/-- However often it is done. -/
theorem running_of_givesUpAll (h : Relation.ReflTransGen GivesUp x y) : y.running = x.running := by
  induction h with
  | refl => rfl
  | tail _ hs ih => rw [hs.running, ih]

/-- The result of a stage after one was noted. -/
theorem Noted.result?_eq_some (h : Noted x y i r) (hj : y.result? j = some s) :
    j = i ∧ s = r ∨ x.result? j = some s := by
  by_cases hji : j = i
  · subst hji
    rcases Nat.lt_or_ge j x.results.length with hlt | hge
    · rw [h.result?_self hlt] at hj
      exact Or.inl ⟨rfl, (Option.some.inj hj).symm⟩
    · refine Or.inr ?_
      rwa [result?, h.results, List.set_eq_of_length_le hge] at hj
  · rw [h.result?_of_ne hji] at hj
    exact Or.inr hj

/-- A result that was not there before is that of a stage given up. -/
theorem origin_of_givesUpAll (h : Relation.ReflTransGen GivesUp x y) :
    ∀ j s, y.result? j = some s → x.result? j = some s ∨ x.result? j = none ∧ y.GivenUp j s := by
  induction h with
  | refl => exact fun j s hs => Or.inl hs
  | @tail y z hxy hs ih =>
    intro j s hj
    have hext := Extends.of_givesUp hs
    cases hs with
    | @intro i q hnone hq hfail =>
      rcases noted_note.result?_eq_some hj with ⟨rfl, rfl⟩ | hj
      · refine Or.inr ⟨?_, hext.givenUp ⟨q, hq, hfail, rfl⟩⟩
        -- it had no result in between, so it had none before
        exact (Extends.of_givesUpAll hxy).eq_none hnone
      · rcases ih j s hj with h | ⟨h, hgiven⟩
        · exact Or.inl h
        · exact Or.inr ⟨h, hext.givenUp hgiven⟩

namespace Coherent

/-- Giving up a stage keeps the execution coherent. -/
theorem givesUp (h : x.Coherent) (hs : GivesUp x y) : y.Coherent := by
  cases hs with
  | @intro i q hnone hq hfail =>
    have hi := h.plan.lt_of_mem_predsOf hq
    have hcause : x.PredecessorFailed i := ⟨q, hq, hfail⟩
    have hidle : i ∉ x.running := fun hm => hcause.not_allSucceeded (h.running i hm).2.2
    refine h.noteFailure noted_note hi hnone ?_ rfl (Or.inr hcause) ?_ ?_ fun k => ?_
    · rw [note_running, List.erase_of_not_mem hidle]
    · rw [note_queue]
    · rw [note_queue]
      exact h.sorted
    · rw [note_queue]
      exact h.ready_without hi (fun hstart => hcause.not_allSucceeded hstart.2.2) k

/-- So does giving up any number of them. -/
theorem givesUpAll (h : x.Coherent) (hs : Relation.ReflTransGen GivesUp x y) : y.Coherent := by
  induction hs with
  | refl => exact h
  | tail _ hs ih => exact ih.givesUp hs

end Coherent

/-! ## Taking a ready stage

  What the loop takes is popped off the queue first and then started or given up.  In the second case the stage is
  noted in the popped state, and its dependents are given up after it. -/

/-- `y` is `x` with other ready positions and other running stages. -/
structure Popped (x y : Execution) (rest busy : List Nat) : Prop where
  plan : y.plan = x.plan
  results : y.results = x.results
  queue : y.queue = { x.queue with ready := rest }
  running : y.running = busy
  delivered : y.delivered = x.delivered

/-- Taking a stage settles nothing. -/
theorem Popped.result? (h : Popped x y rest busy) (i : Nat) : y.result? i = x.result? i := by
  rw [Execution.result?, h.results, Execution.result?]

/-- What is noted then might as well have been noted before. -/
theorem Popped.noted (h : Popped x y rest busy) (hz : Noted y z i r) : Noted x z i r :=
  ⟨hz.plan.trans h.plan, hz.results.trans (by rw [h.results]),
    hz.delivered.trans (by rw [h.delivered])⟩

/-- The first ready stage is given up if the run was cancelled, and started otherwise. -/
theorem takeNext_cases {workers : Nat} {cancelled : Option String} {new : Option Nat}
    (h : x.takeNext workers cancelled = some (y, new)) :
    x.running.length < workers ∧ ∃ k rest, x.queue.ready = k :: rest ∧
      ((∃ reason z, cancelled = some reason ∧ new = none ∧ Popped x z rest x.running ∧
          y = block z.plan.names.length (cancelReason reason) z (stageAt x.plan k)) ∨
        (cancelled = none ∧ new = some (stageAt x.plan k) ∧
          Popped x y rest (x.running ++ [stageAt x.plan k]))) := by
  rw [takeNext] at h
  split at h
  · rename_i hfree
    -- a worker is free, and there is a ready stage at the head
    refine ⟨hfree, ?_⟩
    cases hready : x.queue.ready with
    | nil => rw [hready] at h; cases h
    | cons k rest =>
      refine ⟨k, rest, rfl, ?_⟩
      rw [hready] at h
      cases cancelled with
      | some reason =>
        cases h
        exact Or.inl ⟨reason, { x with queue.ready := rest }, rfl, rfl, ⟨rfl, rfl, rfl, rfl, rfl⟩, rfl⟩
      | none =>
        cases h
        exact Or.inr ⟨rfl, rfl, changeStatus_plan _, changeStatus_results _, changeStatus_queue _,
          changeStatus_running _, changeStatus_delivered _⟩
  · cases h

/-- Nothing can be taken if no worker is free or nothing is ready. -/
theorem takeNext_eq_none_iff {workers : Nat} {cancelled : Option String} :
    x.takeNext workers cancelled = none ↔ workers ≤ x.running.length ∨ x.queue.ready = [] := by
  rw [takeNext]
  split
  · cases hready : x.queue.ready with
    | nil => simp
    | cons k rest =>
      cases cancelled <;> simp <;> omega
  · simp; omega

/-- The ready stage is running now. -/
structure Starts (x y : Execution) (i : Nat) : Prop where
  /-- A stage of the plan that could start. -/
  lt : i < x.plan.names.length
  canStart : x.CanStart i
  /-- Its start changes what runs and nothing else. -/
  plan : y.plan = x.plan
  results : y.results = x.results
  running : y.running = x.running ++ [i]
  delivered : y.delivered = x.delivered

/-- The stage has got a result, and others have been given up. -/
structure Settles (x y : Execution) (i : Nat) (r : StageResult) : Prop where
  /-- The stage ran, so all that it waits for has succeeded. -/
  lt : i < x.plan.names.length
  allSucceeded : x.AllSucceeded i
  /-- It had no result, and now it has this one. -/
  fresh : x.result? i = none
  /-- Others may have been given up for it. -/
  noted : ∃ z, Noted x z i r ∧ Relation.ReflTransGen GivesUp z y
  running : y.running = x.running.erase i

/-- A start settles nothing. -/
theorem Starts.result? (h : Starts x y i) (j : Nat) : y.result? j = x.result? j := by
  rw [Execution.result?, h.results, Execution.result?]

/-- A start extends the run. -/
theorem Extends.of_starts (h : Starts x y i) : Extends x y :=
  ⟨h.plan, by rw [h.results], fun j s hs => by rw [h.result?, hs], by rw [h.delivered]⟩

/-- So does the end of a stage. -/
theorem Extends.of_settles (h : Settles x y i r) : Extends x y := by
  obtain ⟨z, hz, hzy⟩ := h.noted
  exact (Extends.of_noted hz h.fresh).trans (.of_givesUpAll hzy)

/-- The stage has the result it ended with. -/
theorem Settles.result?_self (h : Settles x y i r) (hlen : x.results.length = x.plan.names.length) :
    y.result? i = some r := by
  obtain ⟨z, hz, hzy⟩ := h.noted
  exact (Extends.of_givesUpAll hzy).result? i r (hz.result?_self (hlen ▸ h.lt))

/-- Where a result comes from that is there after the step. -/
theorem Settles.origin (h : Settles x y i r) (hj : y.result? j = some s) :
    x.result? j = some s ∨ x.result? j = none ∧ (j = i ∧ s = r ∨ y.GivenUp j s) := by
  obtain ⟨z, hz, hzy⟩ := h.noted
  rcases origin_of_givesUpAll hzy j s hj with hold | ⟨hnone, hgiven⟩
  · rcases hz.result?_eq_some hold with ⟨rfl, rfl⟩ | hold
    · exact Or.inr ⟨h.fresh, Or.inl ⟨rfl, rfl⟩⟩
    · exact Or.inl hold
  · exact Or.inr ⟨(Extends.of_noted hz h.fresh).eq_none hnone, Or.inr hgiven⟩

namespace Coherent

/-- What is known of the first ready stage. -/
theorem next_spec (h : x.Coherent) {k : Nat} (hready : x.queue.ready = k :: rest) :
    k < x.plan.names.length ∧ x.CanStart (stageAt x.plan k) ∧ rest.Pairwise (· < ·) ∧
      ∀ m, m ∈ rest ↔ m ∈ x.queue.ready ∧ m ≠ k := by
  obtain ⟨hk, hstart⟩ := (h.mem_ready k).mp (hready ▸ List.mem_cons_self ..)
  obtain ⟨hfirst, hrest⟩ := List.pairwise_cons.mp (hready ▸ h.sorted)
  refine ⟨hk, hstart, hrest, fun m => ?_⟩
  rw [hready, List.mem_cons]
  constructor
  · intro hm
    have := hfirst m hm
    exact ⟨Or.inr hm, by omega⟩
  · rintro ⟨hm, hne⟩
    exact hm.resolve_left hne

/-- A stage is started: it is not ready any more, and everything else stays as it was. -/
theorem starts (h : x.Coherent) (hy : Starts x y i) (hleft : y.queue.left = x.queue.left)
    (hsorted : y.queue.ready.Pairwise (· < ·))
    (hready : ∀ k, k ∈ y.queue.ready ↔ k ∈ x.queue.ready ∧ k ≠ positionOf x.plan i) : y.Coherent := by
  have hext := Extends.of_starts hy
  -- nothing has succeeded by the start, so only what runs changes
  have hsucc : ∀ j, y.succeeded j = x.succeeded j := fun j => by rw [succeeded, hy.result?, succeeded]
  have hall : ∀ j, y.AllSucceeded j ↔ x.AllSucceeded j := fun j => allSucceeded_congr hy.plan hsucc
  refine ⟨hy.plan ▸ h.plan, ?_, ?_, hsorted, fun k => ?_, ?_, fun j hj => ?_, fun j hj => ?_, ?_⟩
  · rw [hext.results_length, hy.plan, h.results_length]
  · rw [hy.plan]
    exact h.tracks.congr hleft hsucc
  -- the stage that starts is no longer among those that can
  · rw [hy.plan, hready, h.mem_ready, and_assoc]
    refine and_congr_right fun hk => ?_
    rw [h.plan.ne_positionOf_iff hk hy.lt, CanStart, CanStart, hy.running, hy.result?, hall,
      List.mem_append, List.mem_singleton, not_or]
    constructor
    · rintro ⟨⟨hidle, hres, hpreds⟩, hne⟩
      exact ⟨⟨hidle, hne⟩, hres, hpreds⟩
    · rintro ⟨⟨hidle, hne⟩, hres, hpreds⟩
      exact ⟨⟨hidle, hres, hpreds⟩, hne⟩
  · rw [hy.running]
    exact List.nodup_append_comm.mpr (List.nodup_cons.mpr ⟨hy.canStart.1, h.running_nodup⟩)
  · rw [hy.plan, hy.result?, hall]
    rw [hy.running] at hj
    rcases List.mem_append.mp hj with hj | hj
    · exact h.running j hj
    · rw [List.mem_singleton] at hj
      subst hj
      exact ⟨hy.lt, hy.canStart.2⟩
  · rw [hy.result?] at hj
    rcases h.settled j hj with hold | ⟨hf, hq⟩
    · exact Or.inl ((hall j).mpr hold)
    · exact Or.inr ⟨hext.failed hf, hext.predecessorFailed hq⟩
  · obtain ⟨settled, hnd, hmem, hdel⟩ := h.told
    refine ⟨settled, hnd, fun j => by rw [hmem, hy.result?], ?_⟩
    rw [hy.delivered, hdel]
    exact List.filterMap_congr fun j _ => (hy.result? j).symm

end Coherent

/-- Only a result may open what was closed. -/
theorem Closed.starts (h : x.Closed) (hy : Starts x y i) : y.Closed := by
  intro j hj
  refine (Extends.of_starts hy).dependentsSettled (h j ?_)
  rwa [Failed, ← hy.result?]

/-- Everything is closed again if the dependents of all new results are settled. -/
theorem Closed.settles (h : x.Closed) (hy : Settles x y i r)
    (hnew : ∀ j, x.result? j = none → (y.result? j).isSome → y.Failed j → y.DependentsSettled j) :
    y.Closed := by
  intro j hj
  cases hx : x.result? j with
  | none => exact hnew j hx hj.isSome hj
  | some s =>
    have hext := Extends.of_settles hy
    refine hext.dependentsSettled (h j ?_)
    obtain ⟨t, ht, hfail⟩ := hj
    rw [hext.result? j s hx] at ht
    exact ⟨s, hx, Option.some.inj ht ▸ hfail⟩

/-- **What taking a ready stage does.**  It is started, or settled when the run was cancelled. -/
theorem takeNext_spec {workers : Nat} {cancelled : Option String} {new : Option Nat} (h : x.Coherent)
    (hc : x.Closed) (ht : x.takeNext workers cancelled = some (y, new)) :
    y.Coherent ∧ y.Closed ∧ x.running.length < workers ∧
      ((∃ i, cancelled = none ∧ new = some i ∧ Starts x y i) ∨
        ∃ i reason, cancelled = some reason ∧ new = none ∧ i ∉ x.running ∧
          Settles x y i (.blocked (x.plan.nameOf i) (cancelReason reason))) := by
  obtain ⟨hfree, k, rest, hready, htake⟩ := takeNext_cases ht
  obtain ⟨hk, hstart, hsorted, hmem⟩ := h.next_spec hready
  have hpos := h.plan.positionOf_stageAt hk
  have hlt := h.plan.stageAt_lt hk
  generalize stageAt x.plan k = i at htake hstart hpos hlt
  subst hpos
  rcases htake with ⟨reason, z, rfl, rfl, hz, rfl⟩ | ⟨rfl, rfl, hy⟩
  · -- the run was cancelled: the stage is given up, and all that depend on it
    obtain ⟨hidle, hnone, hall⟩ := hstart
    have hplan := hz.plan
    obtain ⟨hsteps, hnew⟩ := block_spec (hplan ▸ h.plan) z.plan.names.length z (cancelReason reason) i rfl
      (by rw [hz.results, hplan, h.results_length]) (by rw [hz.result?, hnone]) (hplan ▸ hlt)
      (Nat.le_add_right ..)
    have hnoted := hz.noted (noted_note (x := z) (i := i)
      (r := .blocked (z.plan.nameOf i) (cancelReason reason)))
    have hrunning : (z.note i (.blocked (z.plan.nameOf i) (cancelReason reason))).running = x.running := by
      rw [note_running, hz.running]
    have hsettles : Settles x (block z.plan.names.length (cancelReason reason) z i) i
        (.blocked (x.plan.nameOf i) (cancelReason reason)) := by
      refine ⟨hlt, hall, hnone, ⟨_, hplan ▸ hnoted, hsteps⟩, ?_⟩
      rw [running_of_givesUpAll hsteps, hrunning, List.erase_of_not_mem hidle]
    refine ⟨Coherent.givesUpAll ?_ hsteps, hc.settles hsettles ?_, hfree,
      Or.inr ⟨i, reason, rfl, rfl, hidle, hsettles⟩⟩
    · refine h.noteFailure hnoted hlt hnone ?_ rfl (Or.inl hall) ?_ ?_ ?_
      · rw [hrunning, List.erase_of_not_mem hidle]
      · rw [note_queue, hz.queue]
      · rw [note_queue, hz.queue]
        exact hsorted
      · rw [note_queue, hz.queue]
        exact hmem
    · intro j hj hs _
      exact hnew j (by rw [hz.result?, hj]) hs
  · -- otherwise it is running now
    have hstarts : Starts x y i := ⟨hlt, hstart, hy.plan, hy.results, hy.running, hy.delivered⟩
    refine ⟨h.starts hstarts ?_ ?_ ?_, hc.starts hstarts, hfree, Or.inl ⟨i, rfl, rfl, hstarts⟩⟩
    · rw [hy.queue]
    · rw [hy.queue]
      exact hsorted
    · rw [hy.queue]
      exact hmem

/-! ## Settling a running stage

  A running stage ends with a success or with anything else.  The one releases its dependents, the other gives them
  up, and either way the run is closed afterwards. -/

/-- Releasing the dependents changes the queue alone. -/
theorem foldl_release_eq (ds : List Nat) (x : Execution) : ds.foldl release x =
    { x with queue := ds.foldl (Countdown.release (positionOf x.plan)) x.queue } := by
  induction ds generalizing x with
  | nil => rfl
  | cons d rest ih => rw [List.foldl_cons, ih, List.foldl_cons]; rfl

/-- A success is noted, and the dependents are released. -/
theorem settle_of_success (hr : r.isSuccess = true) :
    Noted x (x.settle i r) i r ∧ (x.settle i r).running = x.running.erase i ∧
      (x.settle i r).queue = (dependentsIn x.plan.predecessors i).foldl
        (Countdown.release (positionOf x.plan)) x.queue := by
  have hnoted := noted_note (x := { x with running := x.running.erase i }) (i := i) (r := r)
  rw [settle, if_pos hr, foldl_release_eq]
  refine ⟨⟨hnoted.plan, hnoted.results, hnoted.delivered⟩, note_running, ?_⟩
  show List.foldl _ (note _ i r).queue _ = _
  rw [note_plan, note_queue]
  rfl

/-- Anything else is noted, and the dependents are given up. -/
theorem settle_of_failure (hr : r.isSuccess = false) :
    ∃ z, Noted x z i r ∧ z.running = x.running.erase i ∧ z.queue = x.queue ∧
      x.settle i r =
        blockAll z.plan.names.length (blockReason (z.plan.nameOf i)) z (z.plan.dependentsOf i) := by
  have hnoted := noted_note (x := { x with running := x.running.erase i }) (i := i) (r := r)
  refine ⟨_, ⟨hnoted.plan, hnoted.results, hnoted.delivered⟩, note_running, note_queue, ?_⟩
  rw [settle, if_neg (by rw [hr]; simp), note_plan]
  rfl

/-- **What settling a running stage does.** -/
theorem settle_spec (h : x.Coherent) (hc : x.Closed) (hi : i ∈ x.running) (r : StageResult) :
    (x.settle i r).Coherent ∧ (x.settle i r).Closed ∧ Settles x (x.settle i r) i r := by
  obtain ⟨hlt, hnone, hall⟩ := h.running i hi
  cases hr : r.isSuccess with
  | true =>
    obtain ⟨hnoted, hrunning, hqueue⟩ := settle_of_success (x := x) (i := i) hr
    have hsettles : Settles x (x.settle i r) i r := ⟨hlt, hall, hnone, ⟨_, hnoted, .refl⟩, hrunning⟩
    -- a success frees the dependents
    refine ⟨h.noteSuccess hnoted hlt hnone hrunning hi hr hqueue, hc.settles hsettles ?_, hsettles⟩
    intro j hj _ hf
    -- the only new result is a success
    obtain ⟨s, hs, hfail⟩ := hf
    rcases hnoted.result?_eq_some hs with ⟨-, rfl⟩ | hs
    · rw [hr] at hfail
      cases hfail
    · rw [hj] at hs
      cases hs
  | false =>
    obtain ⟨z, hnoted, hrunning, hqueue, heq⟩ := settle_of_failure (x := x) (i := i) hr
    have hext := Extends.of_noted hnoted hnone
    have hready : ∀ k, k ∈ z.queue.ready ↔ k ∈ x.queue.ready ∧ k ≠ positionOf x.plan i := by
      rw [hqueue]
      exact h.ready_without hlt fun hstart => hstart.1 hi
    have hz := h.noteFailure hnoted hlt hnone hrunning hr (Or.inl hall) (by rw [hqueue])
      (by rw [hqueue]; exact h.sorted) hready
    -- `z` is open at `i` alone, and giving up the dependents of `i` closes it
    have hfailed : z.Failed i := ⟨r, hnoted.result?_self (h.results_length ▸ hlt), hr⟩
    obtain ⟨hsteps, hds, hnew⟩ := blockAll_spec (block_spec hz.plan z.plan.names.length) hz.plan
      (z.plan.dependentsOf i) z rfl hz.results_length hfailed
      (fun d hd => ⟨mem_dependentsIn.mp hd, Nat.le_add_right ..⟩)
    rw [← heq] at hsteps hds hnew
    have hsettles : Settles x (x.settle i r) i r :=
      ⟨hlt, hall, hnone, ⟨z, hnoted, hsteps⟩, (running_of_givesUpAll hsteps).trans hrunning⟩
    refine ⟨hz.givesUpAll hsteps, hc.settles hsettles ?_, hsettles⟩
    intro j hj hs _
    by_cases hji : j = i
    · subst hji
      intro d hd
      rw [(Extends.of_givesUpAll hsteps).plan] at hd
      exact hds d (mem_dependentsIn.mpr hd)
    · exact hnew j (by rw [hnoted.result?_of_ne hji, hj]) hs

end Wheelwright.Execution
