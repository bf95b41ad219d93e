/-
  Closing a target — what its host and its runs see of it.

  **Specification** — when the call that closes a target has done its part, every run that has not ended has a tripped
  token, no run is armed any more, and the host has been asked once to forget each stage that it was told of.  This
  needs that no build stands between finding the target open and taking the state lock at that moment.

  **The crux** — a build asks whether the target is open before it takes the state lock, and not again under it.
  Closing may come in between: the build then arms a run that nobody cancels, and tells the host of new stages that
  nobody takes back (`armed_after_closing`).
-/
import Wheelwright.Proofs.Target.Invalidation

namespace Wheelwright

/-! ## The host

  How often the host was asked to forget a stage, and which numbers it gives. -/

namespace HostGraph

variable {h : HostGraph} {id : HostStageId}

/-- How often the host was asked to forget a stage. -/
def forgotten (h : HostGraph) (id : HostStageId) : Nat := h.calls.count (.unregister id)

/-- To forget one more stage counts for that stage. -/
theorem forgotten_unregister (h : HostGraph) (id other : HostStageId) :
    (h.unregister other).forgotten id = h.forgotten id + if other = id then 1 else 0 := by
  rw [forgotten, unregister, List.count_append, List.count_singleton]
  simp only [beq_iff_eq, HostCall.unregister.injEq]
  rfl

/-- To forget stages counts for each of them, and uses no numbers. -/
theorem unregisterAll_spec (h : HostGraph) (ids : List HostStageId) :
    (h.unregisterAll ids).next = h.next ∧ ∀ id, (h.unregisterAll ids).forgotten id = h.forgotten id + ids.count id := by
  induction ids generalizing h with
  | nil => exact ⟨rfl, fun _ => rfl⟩
  | cons other rest ih =>
    obtain ⟨hnext, hcount⟩ := ih (h.unregister other)
    refine ⟨hnext, fun id => ?_⟩
    have hhead := forgotten_unregister h id other
    have hrest := hcount id
    rw [List.count_cons]
    simp only [beq_iff_eq]
    show (unregisterAll (h.unregister other) rest).forgotten id = _
    omega

/-- To be told of a stage counts for none. -/
theorem forgotten_register (h : HostGraph) (stage : String) (predecessors : List String) (id : HostStageId) :
    (h.register stage predecessors).1.forgotten id = h.forgotten id := by
  rw [forgotten, register, List.count_append, List.count_singleton]
  exact Nat.add_zero _

/-- The host learns of stages under the numbers that come next. -/
theorem registerAll_spec (h : HostGraph) (p : Plan) :
    (h.registerAll p).1.next = h.next + p.orderedNames.length ∧
      (h.registerAll p).2 = List.range' h.next p.orderedNames.length ∧
      ∀ id, (h.registerAll p).1.forgotten id = h.forgotten id := by
  -- over the names that are left, with the numbers given so far
  have hall (names : List String) (g : HostGraph) (ids : List HostStageId) :
      let after := names.foldl (fun (x : HostGraph × List HostStageId) name =>
        let y := x.1.register name (p.predecessorNames name)
        (y.1, x.2 ++ [y.2])) (g, ids)
      after.1.next = g.next + names.length ∧ after.2 = ids ++ List.range' g.next names.length ∧
        ∀ id, after.1.forgotten id = g.forgotten id := by
    induction names generalizing g ids with
    | nil => exact ⟨rfl, (List.append_nil _).symm, fun _ => rfl⟩
    | cons name rest ih =>
      obtain ⟨hnext, hids, hcount⟩ := ih (g.register name (p.predecessorNames name)).1 (ids ++ [g.next])
      refine ⟨?_, ?_, ?_⟩
      · rw [List.length_cons, Nat.add_comm rest.length 1, ← Nat.add_assoc]
        exact hnext
      · refine hids.trans ?_
        rw [List.append_assoc]
        rfl
      · intro id
        exact (hcount id).trans (forgotten_register _ _ _ _)
  obtain ⟨hnext, hids, hcount⟩ := hall p.orderedNames h []
  exact ⟨hnext, hids.trans (List.nil_append _), hcount⟩

end HostGraph

namespace Clients

variable {s s' u : Clients} {e : Event} {i time first : Nat} {c : ClientCall} {v : Service}

/-! ## Stages that the host knows

  The balance of the stages: each one that the host was told of is either the target's or has been forgotten once.
  Planning anew moves all stages from the one side to the other. -/

/-- Of the stages from `first` on that the host was told of, each is still the target's or was forgotten, once. -/
def Ledger (first : HostStageId) (s : Clients) : Prop :=
  ∀ id, first ≤ id → s.host.forgotten id + s.target.hostStages.count id = if id < s.host.next then 1 else 0

/-- It depends on the stages and the host only. -/
theorem Ledger.congr (h : Ledger first s) (hstages : u.target.hostStages = s.target.hostStages)
    (hhost : u.host = s.host) : Ledger first u := by
  intro id hid
  rw [hstages, hhost]
  exact h id hid

/-- All stages of the target are taken from the host. -/
theorem Ledger.unregisterAll (h : Ledger first s) (hstages : u.target.hostStages = [])
    (hhost : u.host = s.host.unregisterAll s.target.hostStages) : Ledger first u := by
  obtain ⟨hnext, hcount⟩ := HostGraph.unregisterAll_spec s.host s.target.hostStages
  intro id hid
  rw [hstages, hhost, hcount, hnext]
  exact h id hid

/-- Each of the next numbers comes once. -/
theorem count_range' (a n id : Nat) : (List.range' a n).count id = if a ≤ id ∧ id < a + n then 1 else 0 := by
  induction n generalizing a with
  | zero =>
    rw [if_neg (by omega)]
    rfl
  | succ n ih =>
    rw [List.range'_succ, List.count_cons, ih]
    simp only [beq_iff_eq]
    split <;> split <;> split <;> omega

/-- Numbers below `a`, and those of `n` more. -/
theorem below_or_more (a n id : Nat) :
    ((if id < a then 1 else 0) + if a ≤ id ∧ id < a + n then 1 else 0) = if id < a + n then 1 else 0 := by
  split <;> split <;> split <;> omega

/-- Another pipeline takes the place of the target's. -/
theorem Ledger.replan {next : BuildTarget} (h : Ledger first s) (hfirst : first ≤ s.host.next)
    (hstages : u.target.hostStages = (s.target.replan next s.host).1.hostStages)
    (hhost : u.host = (s.target.replan next s.host).2) : Ledger first u ∧ first ≤ u.host.next := by
  obtain ⟨hnext, hcount⟩ := HostGraph.unregisterAll_spec s.host s.target.hostStages
  obtain ⟨hnext', hids, hcount'⟩ :=
    HostGraph.registerAll_spec (s.host.unregisterAll s.target.hostStages) next.pipeline.plan
  have hafter : u.host.next = s.host.next + next.pipeline.plan.orderedNames.length := by
    rw [hhost, ← hnext]
    exact hnext'
  -- a stage that was there is forgotten once more, and the new ones have never been
  refine ⟨?_, hafter ▸ Nat.le_trans hfirst (Nat.le_add_right _ _)⟩
  intro id hid
  have hforgotten : u.host.forgotten id = s.host.forgotten id + s.target.hostStages.count id := by
    rw [hhost, ← hcount]
    exact hcount' id
  have hnew : u.target.hostStages = List.range' s.host.next next.pipeline.plan.orderedNames.length := by
    rw [hstages, ← hnext]
    exact hids
  rw [hforgotten, hnew, count_range', hafter, h id hid]
  exact below_or_more _ _ _

/-- The ledger is kept from step to step. -/
theorem Ledger.step (h : Ledger first s) (hfirst : first ≤ s.host.next) (hstep : s.step e = some s') :
    Ledger first s' ∧ first ≤ s'.host.next := by
  refine holds_of_step (P := fun u => Ledger first u ∧ first ≤ u.host.next) hstep (fun _ => ⟨h, hfirst⟩) ?_ ?_
    fun _ _ _ => ⟨h, hfirst⟩
  -- of the calls, only one that closes takes stages from the host
  · intro i c u _ hp
    cases c with
    | unregisters =>
      rw [proceed] at hp
      split at hp <;> cases hp
      refine ⟨h.unregisterAll rfl rfl, ?_⟩
      show first ≤ (s.host.unregisterAll s.target.hostStages).next
      rw [(HostGraph.unregisterAll_spec _ _).1]
      exact hfirst
    | asks kind | closes =>
      rw [proceed] at hp
      split at hp <;> cases hp <;> exact ⟨h.congr rfl rfl, hfirst⟩
    | waits kind | cancels reason stored =>
      rw [proceed] at hp
      split at hp <;> cases hp
      exact ⟨h.congr rfl rfl, hfirst⟩
    | invalidates reason =>
      cases hp
      exact ⟨h.congr rfl rfl, hfirst⟩
    | served | returned _ | cancelled _ _ | closed _ => cases hp
  -- of the services, only one with a new plan does anything to them
  · intro i v _
    cases v with
    | planned token planning next => exact h.replan hfirst rfl rfl
    | admitted kind => cases kind <;> rw [serve] <;> split <;> exact ⟨h.congr rfl rfl, hfirst⟩
    | opened token | plans token began =>
      rw [serve]
      split <;> exact ⟨h.congr rfl rfl, hfirst⟩
    | loaded | locked | refused | ready | armed | runs | cleans => exact ⟨h.congr rfl rfl, hfirst⟩

/-! ## A closed target

  A target is shut once nothing can make it tell the host of a stage or arm a run.  The step that closes it leaves it
  so, unless a build has already looked at the flag and is not under the state lock yet. -/

/-- A build has found the target open and does not hold the state lock. -/
def IsExposed (s : Clients) : Prop :=
  ∃ i token, s.served = some (i, .opened token) ∨ ∃ project, s.served = some (i, .loaded token project)

/-- The target is closed for good: its host knows nothing of it, and the only run that may be left is cancelled. -/
structure Shut (time : Nat) (s : Clients) : Prop where
  /-- The flag is set. -/
  closed : s.target.closed = true
  /-- The host knows nothing of the target. -/
  hostStages : s.target.hostStages = []
  /-- Whoever is served has no run to arm, or has one that is cancelled. -/
  served : ∀ i v, s.served = some (i, v) → (∃ kind, v = .admitted kind) ∨ v = .cleans ∨
    ∃ token, (v = .armed token ∨ v = .runs token) ∧ s.forest.isCancelled token = true
  /-- All runs were armed before. -/
  runs : ∀ r ∈ s.runs, r.armed < time

/-- A call that goes on leaves the target shut. -/
theorem Shut.proceed (h : Shut time s) (hp : s.proceed i c = some u) : Shut time u.tick := by
  have hkeeps := keeps_proceed hp
  have hserved (j : Nat) (v : Service) (hv : s.served = some (j, v)) : (∃ kind, v = .admitted kind) ∨ v = .cleans ∨
      ∃ token, (v = .armed token ∨ v = .runs token) ∧ u.forest.isCancelled token = true :=
    (h.served j v hv).imp_right (Or.imp_right fun ⟨token, hv, htripped⟩ => ⟨token, hv, hkeeps.isCancelled _ htripped⟩)
  -- calls leave these alone; only letting a call in puts someone there, who has no token
  cases c with
  | asks kind =>
    rw [Clients.proceed] at hp
    split at hp <;> cases hp <;> exact ⟨h.closed, h.hostStages, hserved, h.runs⟩
  | waits kind =>
    rw [Clients.proceed] at hp
    split at hp <;> cases hp
    refine ⟨h.closed, h.hostStages, ?_, h.runs⟩
    intro j v hv
    cases hv
    exact Or.inl ⟨kind, rfl⟩
  | invalidates reason =>
    cases hp
    exact ⟨h.closed, h.hostStages, hserved, h.runs⟩
  | cancels reason stored | unregisters =>
    rw [Clients.proceed] at hp
    split at hp <;> cases hp
    first | exact ⟨h.closed, h.hostStages, hserved, h.runs⟩ | exact ⟨h.closed, rfl, hserved, h.runs⟩
  | closes =>
    rw [Clients.proceed, if_pos h.closed] at hp
    cases hp
    exact ⟨h.closed, h.hostStages, hserved, h.runs⟩
  | served | returned _ | cancelled _ _ | closed _ => cases hp

/-- What is served leaves the target shut. -/
theorem Shut.serve (h : Shut time s) (hs : s.served = some (i, v)) : Shut time (s.serve i v).tick := by
  -- an admitted build returns, an admitted clean begins, and an armed run goes on under its tripped token
  rcases h.served i v hs with ⟨kind, rfl⟩ | rfl | ⟨token, hv, htripped⟩
  · cases kind with
    | build =>
      rw [Clients.serve, if_pos h.closed]
      exact ⟨h.closed, h.hostStages, (fun _ _ hv => by cases hv), h.runs⟩
    | clean =>
      rw [Clients.serve]
      split
      · exact ⟨h.closed, h.hostStages, (fun _ _ hv => by cases hv), h.runs⟩
      · refine ⟨h.closed, h.hostStages, ?_, h.runs⟩
        intro j v hv
        cases hv
        exact Or.inr (Or.inl rfl)
  · exact ⟨h.closed, h.hostStages, (fun _ _ hv => by cases hv), h.runs⟩
  · rcases hv with rfl | rfl
    · refine ⟨h.closed, h.hostStages, ?_, h.runs⟩
      intro j v hv
      cases hv
      exact Or.inr (Or.inr ⟨token, Or.inr rfl, htripped⟩)
    · refine ⟨h.closed, h.hostStages, (fun _ _ hv => by cases hv), ?_⟩
      intro r hr
      obtain ⟨q, hq, rfl⟩ := List.mem_map.mp hr
      have harmed := h.runs q hq
      split <;> exact harmed

/-- So does every step. -/
theorem Shut.step (h : Shut time s) (hstep : s.step e = some s') : Shut time s' := by
  refine holds_of_step hstep ?_ (fun _ hp => h.proceed hp) h.serve ?_
  · intro d
    exact ⟨h.closed, h.hostStages, h.served, h.runs⟩
  · intro tree forest hkeeps
    refine ⟨h.closed, h.hostStages, ?_, h.runs⟩
    intro j v hv
    exact (h.served j v hv).imp_right (Or.imp_right fun ⟨token, hv, htripped⟩ =>
      ⟨token, hv, (keeps_of_keepsTokens hkeeps).isCancelled _ htripped⟩)

/-- **The call that closes leaves a target that is shut,** unless a build is exposed to it. -/
theorem Tracked.shut (h : Tracked s) (hruns : ∀ r ∈ s.runs, r.armed < s.clock) (hclosed : s.target.closed = true)
    (hcall : s.calls[i]? = some .unregisters) (hexposed : ¬ s.IsExposed) (hstep : s.step (.go i) = some s') :
    Shut s.clock s' := by
  rw [Clients.step, act, hcall, Option.bind_some, Clients.proceed] at hstep
  split at hstep
  · rename_i hfree
    cases hstep
    refine ⟨hclosed, rfl, ?_, hruns⟩
    intro j v hv
    rw [isFree] at hfree
    have hserved : s.served = some (j, v) := hv
    rw [hserved] at hfree
    -- the state lock is free, so whoever is served is in one of the places without it
    cases v with
    | admitted kind => exact Or.inl ⟨kind, rfl⟩
    | cleans => exact Or.inr (Or.inl rfl)
    | armed token =>
      exact Or.inr (Or.inr ⟨token, Or.inl rfl, h.cancels _ (running?_of_served hserved)⟩)
    | runs token =>
      exact Or.inr (Or.inr ⟨token, Or.inr rfl, h.cancels _ (running?_of_served hserved)⟩)
    | opened token => exact absurd ⟨j, token, Or.inl hserved⟩ hexposed
    | loaded token project => exact absurd ⟨j, token, Or.inr ⟨project, hserved⟩⟩ hexposed
    | locked | plans | refused | planned | ready => cases hfree
  · cases hstep

/-- A call leaves a closed target closed. -/
theorem closed_proceed (hp : s.proceed i c = some u) (h : s.target.closed = true) : u.target.closed = true := by
  cases c with
  | closes =>
    rw [proceed, if_pos h] at hp
    cases hp
    exact h
  | asks kind =>
    rw [proceed] at hp
    split at hp <;> cases hp <;> exact h
  | waits kind | cancels reason stored | unregisters =>
    rw [proceed] at hp
    split at hp <;> cases hp
    exact h
  | invalidates reason =>
    cases hp
    exact h
  | served | returned _ | cancelled _ _ | closed _ => cases hp

/-- What is served neither closes nor opens the target. -/
theorem closed_serve : (s.serve i v).target.closed = s.target.closed := by
  cases v with
  | admitted kind => cases kind <;> rw [serve] <;> split <;> rfl
  | opened token | plans token began =>
    rw [serve]
    split <;> rfl
  | _ => rfl

/-- Who is about to take the stages from the host has set the flag. -/
def Announced (s : Clients) : Prop := .unregisters ∈ s.calls → s.target.closed = true

/-- A step leaves it so. -/
theorem Announced.step (h : Announced s) (hstep : s.step e = some s') : Announced s' := by
  -- a call that is new, a call that goes on, or the service
  refine holds_of_step hstep ?_ ?_ ?_ fun _ _ _ => h
  · intro d hmem
    rcases List.mem_append.mp hmem with hold | hnew
    · exact h hold
    · have heq := List.mem_singleton.mp hnew
      cases d <;> cases heq
  · intro i c u hcall hp hmem
    by_cases hold : ClientCall.unregisters ∈ s.calls
    · show u.target.closed = true
      exact closed_proceed hp (h hold)
    · -- only a call that sets the flag gets there
      cases c with
      | closes =>
        rw [proceed] at hp
        split at hp <;> cases hp
        · exact absurd (mem_calls_withCall hmem) (by simp [hold])
        · rfl
      | asks kind =>
        rw [proceed] at hp
        split at hp <;> cases hp <;> exact absurd (mem_calls_withCall hmem) (by simp [hold])
      | waits kind | cancels reason stored =>
        rw [proceed] at hp
        split at hp <;> cases hp
        exact absurd (mem_calls_withCall hmem) (by simp [hold])
      | invalidates reason =>
        cases hp
        exact absurd (mem_calls_withCall hmem) (by simp [hold])
      | unregisters => exact absurd (List.mem_of_getElem? hcall) hold
      | served | returned _ | cancelled _ _ | closed _ => cases hp
  · intro i v _ hmem
    show (s.serve i v).target.closed = true
    rw [closed_serve]
    rcases mem_calls_serve hmem with hold | ⟨error, hnew⟩
    · exact h hold
    · cases hnew

/-! ## The main result

  What holds from the closing step on, for all events after it. -/

section Main

variable {config : TargetConfig} {file : Path} {services : TargetServices}

/-- At the start the host was told of the stages of the first plan. -/
theorem ledger_of_open {tree : FileTree} {host : HostGraph} {forest : Forest}
    (h : open? config file services tree host forest = .ok s) (hhost : ∀ id, host.next ≤ id → host.forgotten id = 0) :
    Ledger host.next s ∧ host.next ≤ s.host.next := by
  obtain ⟨next, -, rfl⟩ := exists_of_open h
  obtain ⟨hnext, hids, hcount⟩ := HostGraph.registerAll_spec host next.pipeline.plan
  refine ⟨?_, hnext ▸ Nat.le_add_right _ _⟩
  intro id hid
  show (host.registerAll next.pipeline.plan).1.forgotten id + (host.registerAll next.pipeline.plan).2.count id = _
  rw [hcount, hids, count_range', hhost id hid]
  show _ = if id < (host.registerAll next.pipeline.plan).1.next then 1 else 0
  rw [hnext, ← below_or_more, if_neg (Nat.not_lt.mpr hid)]

/-- **A closed target arms no run and leaves nothing at its host,** unless a build was exposed when it was closed. -/
theorem closed_for_good {tree : FileTree} {host : HostGraph} {forest : Forest} {s₀ : Clients}
    {before after : List Event} (hopen : open? config file services tree host forest = .ok s₀)
    (hhost : ∀ id, host.next ≤ id → host.forgotten id = 0) (hbefore : s₀.follow before = some u)
    (hcall : u.calls[i]? = some .unregisters) (hexposed : ¬ u.IsExposed) (hclose : u.step (.go i) = some s')
    (hafter : s'.follow after = some s) :
    (∀ r ∈ s.runs, r.ended = none → s.forest.isCancelled r.token = true) ∧
      (∀ r ∈ s.runs, r.armed < u.clock) ∧
      ∀ id, host.next ≤ id → id < s.host.next → s.host.forgotten id = 1 := by
  have hsound : Sound config file services u := holds_of_follow Sound.step (sound_of_open hopen) hbefore
  have hledger : Ledger host.next u ∧ host.next ≤ u.host.next :=
    holds_of_follow (P := fun u => Ledger host.next u ∧ host.next ≤ u.host.next) (fun h => h.1.step h.2)
      (ledger_of_open hopen hhost) hbefore
  have hannounced : Announced u := by
    refine holds_of_follow Announced.step ?_ hbefore
    intro hmem
    rw [(calls_of_open hopen).1] at hmem
    cases hmem
  have hshut : Shut u.clock s' := hsound.tracked.shut hsound.honoured.armed_lt
    (hannounced (List.mem_of_getElem? hcall)) hcall hexposed hclose
  have hfinal : Shut u.clock s ∧ Sound config file services s ∧ Ledger host.next s ∧ host.next ≤ s.host.next :=
    holds_of_follow (P := fun s => Shut u.clock s ∧ Sound config file services s ∧ Ledger host.next s ∧
      host.next ≤ s.host.next) (fun h hstep => ⟨h.1.step hstep, h.2.1.step hstep, h.2.2.1.step h.2.2.2 hstep⟩)
      ⟨hshut, hsound.step hclose, hledger.1.step hledger.2 hclose⟩ hafter
  obtain ⟨hshut, hsound, hledger, -⟩ := hfinal
  -- what was left of a run is the one whose token was tripped; what the host was told of was forgotten
  refine ⟨?_, hshut.runs, ?_⟩
  · intro r hr hended
    have hrunning := hsound.tracked.unfinished r hr hended
    obtain ⟨⟨j, v⟩, hserved, hv⟩ := Option.bind_eq_some_iff.mp hrunning
    rcases hshut.served j v hserved with ⟨kind, rfl⟩ | rfl | ⟨token, rfl | rfl, htripped⟩ <;> cases hv <;>
      exact htripped
  · intro id hid hlt
    have hcount := hledger id hid
    rw [hshut.hostStages, if_pos hlt] at hcount
    exact hcount

/-! ## Closing in the middle of a run, and in the middle of getting one ready

  Two histories, one for the theorem and one for its exception.  In the second a build comes between the flag and the
  lock. -/

/-- The times at which calls that close have returned, the runs by when they were armed and whether they are cancelled,
    and how often the host was asked to forget each stage. -/
def aftermath (s : Clients) : List Nat × List (Nat × Bool) × List Nat :=
  (s.calls.filterMap fun
      | .closed time => some time
      | _ => none,
    s.runs.map fun r => (r.armed, s.forest.isCancelled r.token), (List.range s.host.next).map s.host.forgotten)

/-- What is left after these events on a new target. -/
def leftAfter (events : List Event) : Option (List Nat × List (Nat × Bool) × List Nat) :=
  (reached events).map aftermath

/-- A build arms its run, and another client asks to close and sets the flag. -/
def stopping : List Event :=
  [.call (.serve .build), .go 0, .go 0, .serve, .serve, .serve, .serve, .serve, .call .close, .go 1]

/-- The call is about to take the stages from the host, and the run of a build is armed. -/
def isStopping (s : Clients) : Bool :=
  match s.calls[1]?, s.served with
  | some ClientCall.unregisters, some (_, .armed _) => true
  | _, _ => false

/-- After these events the call stops at that time. -/
theorem isStopping_stopping :
    ((reached stopping).map fun s => (s.isStopping, s.clock)) = some (true, 11) := by
  decide +kernel

/-- Here the armed run is cancelled, and the host has forgotten all stages. -/
theorem closed_for_good_stopping : ∃ s₀ u s' s, plainStart = .ok s₀ ∧ s₀.follow stopping = some u ∧
    u.step (.go 1) = some s' ∧ s'.follow [.serve] = some s ∧
    (∀ r ∈ s.runs, r.ended = none → s.forest.isCancelled r.token = true) ∧ (∀ r ∈ s.runs, r.armed < 11) ∧
      ∀ id, id < s.host.next → s.host.forgotten id = 1 := by
  obtain ⟨u, hreached, hseen⟩ := Option.map_eq_some_iff.mp isStopping_stopping
  obtain ⟨s₀, hopen, hbefore⟩ := exists_of_reached hreached
  obtain ⟨hstopping, hclock⟩ := Prod.mk.inj hseen
  rw [isStopping] at hstopping
  split at hstopping
  · rename_i i token hcall hserved
    have hfree : u.isFree = true := by
      rw [isFree, hserved]
      rfl
    have hexposed : ¬ u.IsExposed := by
      rintro ⟨j, t, h | ⟨project, h⟩⟩ <;> rw [hserved] at h <;> cases h
    obtain ⟨s', hclose, hserved'⟩ : ∃ s', u.step (.go 1) = some s' ∧ s'.served = some (i, .armed token) := by
      rw [step, act, hcall, Option.bind_some, proceed, if_pos hfree]
      exact ⟨_, rfl, hserved⟩
    have hserve : s'.follow [.serve] = some _ := follow_cons.mpr ⟨_, step_serve hserved', rfl⟩
    obtain ⟨htripped, harmed, hforgotten⟩ :=
      closed_for_good hopen (fun id _ => rfl) hbefore hcall hexposed hclose hserve
    rw [hclock] at harmed
    exact ⟨s₀, u, _, _, hopen, hbefore, hclose, hserve, htripped, harmed, fun id => hforgotten id (Nat.zero_le id)⟩
  · cases hstopping

/-- The project is edited while a build is exposed, and the target is closed before the build takes the state lock. -/
def slipping : List Event :=
  [.call (.serve .build), .go 0, .go 0, .serve,
    .elsewhere { entries := [(["pyproject.toml"],
      .file (Utf8.encode "[build-system]\nbuild-backend = \"flit_core.buildapi\"\n") .plain)] }
      { tokens := [{}], handles := [0] },
    .call .close, .go 1, .go 1, .serve, .serve, .serve, .serve, .serve, .serve]

/-- After these events a run was armed later than the target was closed, and three stages are left. -/
theorem leftAfter_slipping : leftAfter slipping = some ([8], [(14, false)], [1, 1, 1, 0, 0, 0]) := by
  decide +kernel

/-- **A run may be armed after the target was closed,** and stages be left at the host. -/
theorem armed_after_closing : ∃ s₀ s, plainStart = .ok s₀ ∧ s₀.follow slipping = some s ∧
    .closed 8 ∈ s.calls ∧ (∃ r ∈ s.runs, 8 < r.armed ∧ s.forest.isCancelled r.token = false) ∧
    ∃ id, id < s.host.next ∧ s.host.forgotten id = 0 := by
  obtain ⟨s, hreached, hseen⟩ := Option.map_eq_some_iff.mp leftAfter_slipping
  obtain ⟨s₀, hopen, hrun⟩ := exists_of_reached hreached
  obtain ⟨hcalls, hrest⟩ := Prod.mk.inj hseen
  obtain ⟨hruns, hhost⟩ := Prod.mk.inj hrest
  refine ⟨s₀, s, hopen, hrun, ?_, ?_, ?_⟩
  · have hmem : 8 ∈ s.aftermath.1 := by
      rw [show s.aftermath.1 = [8] from hcalls]
      exact List.mem_singleton.mpr rfl
    obtain ⟨c, hc, htime⟩ := List.mem_filterMap.mp hmem
    split at htime
    · cases htime
      exact hc
    · cases htime
  · have hmem : (14, false) ∈ s.aftermath.2.1 := by
      rw [show s.aftermath.2.1 = [(14, false)] from hruns]
      exact List.mem_singleton.mpr rfl
    obtain ⟨r, hr, hsame⟩ := List.mem_map.mp hmem
    obtain ⟨harmed, htripped⟩ := Prod.mk.inj hsame
    exact ⟨r, hr, by omega, htripped⟩
  · have hmem : 0 ∈ s.aftermath.2.2 := by
      rw [show s.aftermath.2.2 = [1, 1, 1, 0, 0, 0] from hhost]
      decide
    obtain ⟨id, hid, hzero⟩ := List.mem_map.mp hmem
    exact ⟨id, List.mem_range.mp hid, hzero⟩

end Main

end Clients

end Wheelwright
