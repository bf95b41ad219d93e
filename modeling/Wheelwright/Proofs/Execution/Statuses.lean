/-
  Statuses — what a run publishes of its stages, one change at a time.

  **Specification** — `Shows x`: the status of each stage is that of its result; without a result it is
  running if it runs, and pending if not.

  **Program** — `note` and `block`.  `changeStatus` leaves a stage alone that may not take a status, and
  nobody hears of it; `changeStatus?` fails there, and is the same in every other case.  `giveUp?` is one
  round of `block`: it looks at the first of the stages that are to be given up.

  **The crux** — the rounds in a row do what `block` does (`cascades_block`), and none of them fails.  A
  stage that is given up has a predecessor that did not succeed, so it never ran and is pending.
-/
import Wheelwright.Proofs.Execution.Transitions

namespace Wheelwright

/-- A running stage may come to any end, and to nothing else. -/
theorem StageStatus.running_canBecome_iff {s : StageStatus} :
    StageStatus.running.canBecome s = true ↔ s.isTerminal = true := by
  cases s <;> rfl

namespace Execution

variable {x y : Execution} {i j : Nat} {r : StageResult} {next : StageStatus} {reason : String}
  {pending rest : List (Nat × String)}

/-! ## Changes that must be allowed

  The variants that fail in place of leaving a stage alone.  Where they give a result it is that of the program, so a
  run in which they do not fail is one in which only allowed changes are asked for. -/

/-- The run with another status of a stage; there is none if the stage may not take it. -/
def changeStatus? (x : Execution) (i : Nat) (next : StageStatus) : Option Execution :=
  match (x.statuses.getD i .pending).advance next with
  | .ok s => some { x with statuses := x.statuses.set i s }
  | .error _ => none

/-- The run with the result of a stage noted; there is none if the stage may not take its status. -/
def note? (x : Execution) (i : Nat) (r : StageResult) : Option Execution :=
  (x.changeStatus? i r.status).map fun x =>
    { x with results := x.results.set i (some r), delivered := x.delivered ++ [r] }

/-- A change that is allowed is made. -/
theorem changeStatus?_of_canBecome (h : (x.statuses.getD i .pending).canBecome next = true) :
    x.changeStatus? i next = some (x.changeStatus i next) ∧
      (x.changeStatus i next).statuses = x.statuses.set i next := by
  rw [changeStatus?, changeStatus, StageStatus.advance, if_pos h]
  exact ⟨rfl, rfl⟩

/-- A change that is allowed is made. -/
theorem note?_of_canBecome (h : (x.statuses.getD i .pending).canBecome r.status = true) :
    x.note? i r = some (x.note i r) ∧ (x.note i r).statuses = x.statuses.set i r.status := by
  obtain ⟨hsome, hset⟩ := changeStatus?_of_canBecome h
  rw [note?, hsome]
  exact ⟨rfl, hset⟩

/-- A change that is made is allowed. -/
theorem canBecome_of_changeStatus? (h : x.changeStatus? i next = some y) :
    (x.statuses.getD i .pending).canBecome next = true ∧ y = x.changeStatus i next := by
  by_cases hallowed : (x.statuses.getD i .pending).canBecome next = true
  · rw [(changeStatus?_of_canBecome hallowed).1] at h
    exact ⟨hallowed, (Option.some.inj h).symm⟩
  · rw [changeStatus?, StageStatus.advance, if_neg hallowed] at h
    cases h

/-- A change that is made was allowed. -/
theorem canBecome_of_note? (h : x.note? i r = some y) :
    (x.statuses.getD i .pending).canBecome r.status = true ∧ y = x.note i r := by
  obtain ⟨z, hz, rfl⟩ := Option.map_eq_some_iff.mp h
  obtain ⟨hallowed, rfl⟩ := canBecome_of_changeStatus? hz
  exact ⟨hallowed, rfl⟩

/-! ## What statuses show

  The status of a stage is a function of its result and of whether it runs.  It is kept by starts and by noted
  results, given that these are ends and that what is started was free to start. -/

/-- The status that fits what became of a stage so far. -/
def shown (x : Execution) (i : Nat) : StageStatus :=
  match x.result? i with
  | some r => r.status
  | none => if i ∈ x.running then .running else .pending

/-- Every stage has the status that fits, results are ends, and what runs was free to start. -/
structure Shows (x : Execution) : Prop where
  /-- The lists have the length of the plan. -/
  plan : x.plan.WellFormed
  results_length : x.results.length = x.plan.names.length
  statuses_length : x.statuses.length = x.plan.names.length
  /-- The status of a stage is the one that its result, or its absence, asks for. -/
  status : ∀ i < x.plan.names.length, x.statuses.getD i .pending = x.shown i
  /-- Results are terminal. -/
  ended : ∀ i r, x.result? i = some r → r.status.isTerminal = true
  /-- What runs waits for nothing more. -/
  running : ∀ i ∈ x.running, x.AllSucceeded i

/-- With a result a stage shows its status. -/
theorem shown_of_some (h : x.result? i = some r) : x.shown i = r.status := by
  rw [shown, h]

/-- Without one it shows that it runs. -/
theorem shown_of_running (h : x.result? i = none) (hi : i ∈ x.running) : x.shown i = .running := by
  rw [shown, h]
  exact if_pos hi

/-- Or it shows that it is pending. -/
theorem shown_of_idle (h : x.result? i = none) (hi : i ∉ x.running) : x.shown i = .pending := by
  rw [shown, h]
  exact if_neg hi

/-- What is shown depends on the result and on running alone. -/
theorem shown_congr (hresult : y.result? i = x.result? i) (hrunning : i ∈ y.running ↔ i ∈ x.running) :
    y.shown i = x.shown i := by
  rw [shown, shown, hresult]
  simp only [hrunning]

/-- At the start the statuses show that nothing has begun. -/
theorem shows_start {p : Plan} (hp : p.WellFormed) : Shows (start p) := by
  refine ⟨hp, List.length_map _, List.length_map _, ?_, ?_, ?_⟩
  · intro i hi
    have hstatus : (start p).statuses.getD i .pending = .pending := by
      rw [start, List.getD_eq_getElem?_getD, List.getElem?_map]
      cases p.names[i]? <;> rfl
    rw [hstatus, shown_of_idle (result?_start p i) List.not_mem_nil]
  · intro i r hr
    rw [result?_start] at hr
    cases hr
  · intro i hi
    exact absurd hi List.not_mem_nil

namespace Shows

/-- What neither statuses nor results nor running stages tell does not show. -/
theorem congr (h : x.Shows) (hplan : y.plan = x.plan) (hresults : y.results = x.results)
    (hstatuses : y.statuses = x.statuses) (hrunning : y.running = x.running) : y.Shows := by
  have hresult (j : Nat) : y.result? j = x.result? j := by rw [result?, hresults, result?]
  have hsucc (j : Nat) : y.succeeded j = x.succeeded j := by rw [succeeded, hresult, succeeded]
  refine ⟨hplan ▸ h.plan, ?_, ?_, ?_, fun j r hr => h.ended j r (hresult j ▸ hr), ?_⟩
  · rw [hresults, hplan, h.results_length]
  · rw [hstatuses, hplan, h.statuses_length]
  · intro j hj
    rw [hplan] at hj
    rw [hstatuses, h.status j hj, shown_congr (hresult j) (by rw [hrunning])]
  · intro j hj
    rw [hrunning] at hj
    exact (allSucceeded_congr hplan hsucc).mpr (h.running j hj)

/-- Other stages keep their statuses when one of them takes another. -/
theorem getD_set (h : x.Shows) (hi : i < x.plan.names.length) (s : StageStatus) (j : Nat) :
    (x.statuses.set i s).getD j .pending = if j = i then s else x.statuses.getD j .pending := by
  have hlt : i < x.statuses.length := h.statuses_length ▸ hi
  rw [List.getD_eq_getElem?_getD, List.getD_eq_getElem?_getD]
  split
  · rename_i hji
    rw [hji, List.getElem?_set_self hlt]
    rfl
  · rename_i hji
    rw [List.getElem?_set_ne (Ne.symm hji)]

/-- A stage that is started shows. -/
theorem starts (h : x.Shows) (hy : Starts x y i) (hstatuses : y.statuses = x.statuses.set i .running) : y.Shows := by
  have hext := Extends.of_starts hy
  refine ⟨hy.plan ▸ h.plan, ?_, ?_, ?_, fun j r hr => h.ended j r (hy.result? j ▸ hr), ?_⟩
  · rw [hy.results, hy.plan, h.results_length]
  · rw [hstatuses, List.length_set, hy.plan, h.statuses_length]
  -- the stage shows that it runs, the others what they did
  · intro j hj
    rw [hy.plan] at hj
    rw [hstatuses, h.getD_set hy.lt]
    split
    · rename_i hji
      subst hji
      exact (shown_of_running ((hy.result? j).trans hy.canStart.2.1) (by simp [hy.running])).symm
    · rename_i hji
      rw [h.status j hj]
      exact (shown_congr (hy.result? j) (by simp [hy.running, hji])).symm
  · intro j hj
    rw [hy.running] at hj
    rcases List.mem_append.mp hj with hj | hj
    · exact hext.allSucceeded (h.running j hj)
    · rw [List.mem_singleton.mp hj]
      exact hext.allSucceeded hy.canStart.2.2

/-- A result shows when it is noted with its status. -/
theorem noted (h : x.Shows) (hy : Noted x y i r) (hi : i < x.plan.names.length) (hnone : x.result? i = none)
    (hended : r.status.isTerminal = true) (hstatuses : y.statuses = x.statuses.set i r.status)
    (hrunning : y.running = x.running.erase i) : y.Shows := by
  have hext := Extends.of_noted hy hnone
  refine ⟨hy.plan ▸ h.plan, ?_, ?_, ?_, ?_, ?_⟩
  · rw [hext.results_length, hy.plan, h.results_length]
  · rw [hstatuses, List.length_set, hy.plan, h.statuses_length]
  -- the stage shows its result, the others what they did
  · intro j hj
    rw [hy.plan] at hj
    rw [hstatuses, h.getD_set hi]
    split
    · rename_i hji
      subst hji
      exact (shown_of_some (hy.result?_self (h.results_length ▸ hi))).symm
    · rename_i hji
      rw [h.status j hj]
      exact (shown_congr (hy.result?_of_ne hji) (by rw [hrunning, List.mem_erase_of_ne hji])).symm
  · intro j s hs
    rcases hy.result?_eq_some hs with ⟨-, rfl⟩ | hold
    · exact hended
    · exact h.ended j s hold
  · intro j hj
    rw [hrunning] at hj
    exact hext.allSucceeded (h.running j (List.mem_of_mem_erase hj))

end Shows

/-! ## Giving up, round by round

  One round takes the first stage of a list and puts its dependents at the end of those that are still to be looked
  at.  A round does not fail: the stage has a failed predecessor, so it never ran, and pending may become cancelled. -/

/-- The first of the stages that are to be given up, each with the reason: it is given up unless it has a
    result, and what waits for it comes next. -/
def giveUp? (x : Execution) : List (Nat × String) → Option (Execution × List (Nat × String))
  | [] => none
  | (i, reason) :: rest =>
    if (x.result? i).isSome then some (x, rest)
    else
      (x.note? i (.blocked (x.plan.nameOf i) reason)).map fun y =>
        (y, (x.plan.dependentsOf i).map (fun d => (d, blockReason (x.plan.nameOf i))) ++ rest)

/-- Rounds in a row. -/
def Cascades : Execution × List (Nat × String) → Execution × List (Nat × String) → Prop :=
  Relation.ReflTransGen fun a b => a.1.giveUp? a.2 = some b

/-- What a round does. -/
theorem giveUp?_cases {b : Execution × List (Nat × String)} (h : x.giveUp? pending = some b) :
    b.1 = x ∨ ∃ i reason, (i, reason) ∈ pending ∧ x.result? i = none ∧
      b.1 = x.note i (.blocked (x.plan.nameOf i) reason) := by
  cases pending with
  | nil => cases h
  | cons e rest =>
    rw [giveUp?] at h
    split at h
    · cases h
      exact Or.inl rfl
    · rename_i hnone
      obtain ⟨y, hy, rfl⟩ := Option.map_eq_some_iff.mp h
      exact Or.inr ⟨e.1, e.2, List.mem_cons_self .., Option.not_isSome_iff_eq_none.mp hnone,
        (canBecome_of_note? hy).2⟩

/-- A cascade extends the run. -/
theorem Extends.of_cascades {a b : Execution × List (Nat × String)} (h : Cascades a b) : Extends a.1 b.1 := by
  induction h with
  | refl => exact .refl _
  | tail _ hround ih =>
    rcases giveUp?_cases hround with heq | ⟨i, reason, -, hnone, heq⟩
    · exact heq ▸ ih
    · exact ih.trans (heq ▸ .of_noted noted_note hnone)

/-- The stages are none that run. -/
def Idle (x : Execution) (pending : List (Nat × String)) : Prop :=
  ∀ e ∈ pending, e.1 < x.plan.names.length ∧ e.1 ∉ x.running

/-- None of two lists runs exactly when none of either does. -/
theorem idle_append : x.Idle (pending ++ rest) ↔ x.Idle pending ∧ x.Idle rest :=
  List.forall_mem_append

/-- What waits for a stage that did not succeed does not run. -/
theorem Shows.idle_dependents (h : x.Shows) (hi : x.succeeded i = false) (reason : String) :
    x.Idle ((x.plan.dependentsOf i).map fun d => (d, reason)) := by
  intro e he
  obtain ⟨d, hd, rfl⟩ := List.mem_map.mp he
  have hmem := mem_dependentsIn.mp hd
  refine ⟨h.plan.lt_of_mem_predsOf hmem, ?_⟩
  intro hrun
  have hsucceeded := h.running d hrun i hmem
  rw [hi] at hsucceeded
  cases hsucceeded

/-- **A round does not fail**, and what it leaves shows as well. -/
theorem Shows.giveUp (h : x.Shows) (hidle : x.Idle ((i, reason) :: rest)) (hnone : x.result? i = none) :
    x.giveUp? ((i, reason) :: rest) = some (x.note i (.blocked (x.plan.nameOf i) reason),
        (x.plan.dependentsOf i).map (fun d => (d, blockReason (x.plan.nameOf i))) ++ rest) ∧
      (x.note i (.blocked (x.plan.nameOf i) reason)).Shows ∧
      (x.note i (.blocked (x.plan.nameOf i) reason)).Idle
        ((x.plan.dependentsOf i).map (fun d => (d, blockReason (x.plan.nameOf i))) ++ rest) := by
  obtain ⟨⟨hi, hrun⟩, hrest⟩ := List.forall_mem_cons.mp hidle
  -- it is pending, so it may be given up
  have hallowed : (x.statuses.getD i .pending).canBecome
      (StageResult.blocked (x.plan.nameOf i) reason).status = true := by
    rw [h.status i hi, shown_of_idle hnone hrun]
    rfl
  obtain ⟨hsome, hstatuses⟩ := note?_of_canBecome hallowed
  have hy : (x.note i (.blocked (x.plan.nameOf i) reason)).Shows := by
    refine h.noted noted_note hi hnone rfl hstatuses ?_
    rw [note_running, List.erase_of_not_mem hrun]
  refine ⟨?_, hy, idle_append.mpr ⟨?_, ?_⟩⟩
  · rw [giveUp?, if_neg (by rw [hnone]; simp), hsome]
    rfl
  -- its dependents have not started, as it has not succeeded
  · have hfailed : (x.note i (.blocked (x.plan.nameOf i) reason)).Failed i :=
      ⟨_, noted_note.result?_self (h.results_length ▸ hi), rfl⟩
    have := hy.idle_dependents hfailed.not_succeeded (blockReason (x.plan.nameOf i))
    rwa [note_plan] at this
  · intro e he
    rw [note_plan, note_running]
    exact hrest e he

/-- A stage that is settled is passed over. -/
theorem giveUp?_of_isSome (h : (x.result? i).isSome) : x.giveUp? ((i, reason) :: rest) = some (x, rest) := by
  rw [giveUp?, if_pos h]

/-- What holds of a state in which stages are to be given up. -/
structure Yields (p : Plan) (busy : List Nat) (a : Execution × List (Nat × String)) : Prop where
  shows : a.1.Shows
  idle : a.1.Idle a.2
  plan : a.1.plan = p
  running : a.1.running = busy

variable {p : Plan} {busy : List Nat} {a b : Execution × List (Nat × String)}

/-- There is a round as long as there are stages to look at. -/
theorem Yields.exists_giveUp (h : Yields p busy a) (hne : a.2 ≠ []) : (a.1.giveUp? a.2).isSome := by
  obtain ⟨x, pending⟩ := a
  cases pending with
  | nil => exact absurd rfl hne
  | cons e rest =>
    obtain ⟨i, reason⟩ := e
    cases hres : x.result? i with
    | some r => rw [giveUp?_of_isSome (by rw [hres]; rfl)]; rfl
    | none => rw [(h.shows.giveUp h.idle hres).1]; rfl

/-- **A round keeps it.** -/
theorem Yields.giveUp (h : Yields p busy a) (hb : a.1.giveUp? a.2 = some b) : Yields p busy b := by
  obtain ⟨x, pending⟩ := a
  cases pending with
  | nil => cases hb
  | cons e rest =>
    obtain ⟨i, reason⟩ := e
    -- settled stages are passed over, the others are given up
    cases hres : x.result? i with
    | some r =>
      rw [giveUp?_of_isSome (by rw [hres]; rfl)] at hb
      cases hb
      exact ⟨h.shows, (List.forall_mem_cons.mp h.idle).2, h.plan, h.running⟩
    | none =>
      obtain ⟨hsome, hshows, hidle⟩ := h.shows.giveUp h.idle hres
      rw [hsome] at hb
      cases hb
      exact ⟨hshows, hidle, note_plan.trans h.plan, note_running.trans h.running⟩

/-- **Rounds in a row keep it.** -/
theorem Yields.cascades (h : Yields p busy a) (hb : Cascades a b) : Yields p busy b := by
  induction hb with
  | refl => exact h
  | tail _ hround ih => exact ih.giveUp hround

/-! ## The rounds do what giving up does

  The recursion of `block` and the rounds go through the same stages in the same order, with the list of the rounds
  for the calls that are still open. -/

/-- A call of `block` is a row of rounds. -/
def BlocksInRounds (depth : Nat) : Prop :=
  ∀ (x : Execution) (reason : String) (i : Nat) (rest : List (Nat × String)), x.Shows →
    x.Idle ((i, reason) :: rest) → x.result? i = none → x.plan.names.length ≤ depth + positionOf x.plan i →
    Cascades (x, (i, reason) :: rest) (block depth reason x i, rest)

/-- A list of stages is given up in rounds, one after another. -/
theorem cascades_blockAll {depth : Nat} (hblock : BlocksInRounds depth) (reason : String) :
    ∀ (ds : List Nat) (x : Execution) (rest : List (Nat × String)), x.Shows →
      x.Idle (ds.map (fun d => (d, reason)) ++ rest) →
      (∀ d ∈ ds, x.plan.names.length ≤ depth + positionOf x.plan d) →
      Cascades (x, ds.map (fun d => (d, reason)) ++ rest) (blockAll depth reason x ds, rest) := by
  intro ds
  -- by the list; a stage in it may be settled by one before it
  induction ds with
  | nil => exact fun x rest _ _ _ => .refl
  | cons d more ih =>
    intro x rest hx hidle hdepth
    obtain ⟨hd, hmore⟩ := List.forall_mem_cons.mp hdepth
    cases hres : x.result? d with
    | some r =>
      have hcons : blockAll depth reason x (d :: more) = blockAll depth reason x more := by
        rw [blockAll, List.foldl_cons, if_pos (by rw [hres]; rfl), blockAll]
      rw [hcons]
      exact .head (giveUp?_of_isSome (by rw [hres]; rfl)) (ih x rest hx (List.forall_mem_cons.mp hidle).2 hmore)
    | none =>
      have hcons : blockAll depth reason x (d :: more) = blockAll depth reason (block depth reason x d) more := by
        rw [blockAll, List.foldl_cons, if_neg (by rw [hres]; simp), blockAll]
      have hfirst := hblock x reason d (more.map (fun d => (d, reason)) ++ rest) hx hidle hres hd
      have hy := Yields.cascades ⟨hx, hidle, rfl, rfl⟩ hfirst
      rw [hcons]
      refine hfirst.trans (ih _ rest hy.shows hy.idle ?_)
      rw [hy.plan]
      exact hmore

/-- **`block` is a row of rounds**, each of which is allowed. -/
theorem cascades_block : ∀ depth, BlocksInRounds depth := by
  intro depth
  induction depth with
  | zero =>
    intro x reason i rest hx hidle _ hdepth
    have : positionOf x.plan i < x.plan.names.length := hx.plan.positionOf_lt (hidle _ (List.mem_cons_self ..)).1
    omega
  | succ depth ih =>
    intro x reason i rest hx hidle hnone hdepth
    obtain ⟨hround, hshows, hidle'⟩ := hx.giveUp hidle hnone
    rw [block_succ]
    refine .head hround (cascades_blockAll ih _ _ _ rest hshows hidle' ?_)
    intro d hd
    -- one level less is left for the dependents
    rw [note_plan]
    have := hx.plan.positionOf_lt_of_mem (mem_dependentsIn.mp hd)
    omega

end Execution

end Wheelwright
