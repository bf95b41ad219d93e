/-
  Runs of a target — what every state of its clients says about runs, their tokens and their pipelines.

  **Specification** — the pipeline in place is the one that planning gave on the files that it read (`Planned`), and so
  was the pipeline of every run.  There is one run at a time that has not ended; the target's pipeline knows its token,
  and nobody else's (`Tracked`).  A tripped token stays tripped.
-/
import Wheelwright.Proofs.Target.Clients

namespace Wheelwright

/-- The token of a build that is served. -/
def Service.token? : Service → Option TokenId
  | .opened token | .loaded token _ | .locked token _ | .plans token _ | .planned token _ _ | .ready token
  | .armed token | .runs token => some token
  | .admitted _ | .refused _ | .cleans => none

/-- A service with a run has its token. -/
theorem Service.token?_of_running? {v : Service} {token : TokenId} (h : v.running? = some token) :
    v.token? = some token := by
  cases v <;> first | exact h | cases h

namespace Clients

variable {s s' u : Clients} {e : Event} {i : Nat} {c : ClientCall} {v : Service} {id : TokenId}

/-! ## Tokens

  Tokens are only added and tripped, so a token that was tripped is tripped later.  Everything that the target does
  with tokens is checked for this. -/

/-- Tokens that were tripped stay so, and none gets lost. -/
structure Keeps (f g : Forest) : Prop where
  /-- Tokens are only made. -/
  length : f.tokens.length ≤ g.tokens.length
  /-- What was tripped stays tripped. -/
  isCancelled : ∀ id, f.isCancelled id = true → g.isCancelled id = true

/-- The same tokens are kept. -/
theorem Keeps.refl (f : Forest) : Keeps f f := ⟨Nat.le_refl _, fun _ h => h⟩

/-- To trip tokens is to keep them. -/
theorem Keeps.of_raises {f g : Forest} (h : Forest.Raises f g) : Keeps f g :=
  ⟨Nat.le_of_eq h.length.symm, h.isCancelled⟩

/-- To make a token is to keep those before. -/
theorem keeps_create (f : Forest) : Keeps f f.create.1 where
  length := by
    show _ ≤ (f.tokens ++ [({} : Token)]).length
    rw [List.length_append]
    exact Nat.le_add_right _ _
  isCancelled id hid := by
    show (((f.tokens ++ [({} : Token)]).getD id {}).reason).isSome = true
    rw [List.getD_eq_getElem?_getD, List.getElem?_append_left (Forest.lt_of_isCancelled hid),
      ← List.getD_eq_getElem?_getD]
    exact hid

/-- So is to cancel a target. -/
theorem keeps_cancel (t : BuildTarget) (reason : String) (f : Forest) : Keeps f (t.cancel reason f).1 := by
  rw [BuildTarget.cancel, Pipeline.cancel]
  split
  · exact Keeps.of_raises Forest.raises_trip
  · exact Keeps.refl f

/-- Whether tokens are kept can be tested. -/
theorem keeps_of_keepsTokens {f g : Forest} (h : keepsTokens f g = true) : Keeps f g := by
  rw [keepsTokens, Bool.and_eq_true, decide_eq_true_eq, List.all_eq_true] at h
  refine ⟨h.1, ?_⟩
  intro id hid
  have hkept := h.2 id (List.mem_range.mpr (Forest.lt_of_isCancelled hid))
  rw [hid] at hkept
  exact hkept

/-- A call that goes on keeps all tokens. -/
theorem keeps_proceed (hp : s.proceed i c = some u) : Keeps s.forest u.forest := by
  cases c with
  | asks kind | closes =>
    rw [proceed] at hp
    split at hp <;> cases hp <;> exact Keeps.refl _
  | waits kind =>
    rw [proceed] at hp
    split at hp <;> cases hp
    exact Keeps.refl _
  | invalidates reason =>
    cases hp
    exact Keeps.refl _
  | cancels reason stored | unregisters =>
    rw [proceed] at hp
    split at hp <;> cases hp
    exact keeps_cancel _ _ _
  | served | returned _ | cancelled _ _ | closed _ => cases hp

/-- What is served keeps all tokens. -/
theorem keeps_serve : Keeps s.forest (s.serve i v).forest := by
  cases v with
  | admitted kind =>
    cases kind with
    | build =>
      rw [serve]
      split
      · exact Keeps.refl _
      · exact keeps_create _
    | clean =>
      rw [serve]
      split <;> exact Keeps.refl _
  | opened token | plans token began =>
    rw [serve]
    split <;> exact Keeps.refl _
  | _ => exact Keeps.refl _

/-- Every step keeps all tokens. -/
theorem keeps_step (h : s.step e = some s') : Keeps s.forest s'.forest := by
  refine holds_of_step (P := fun u => Keeps s.forest u.forest) h ?_ ?_ ?_ ?_
  · intro d
    exact Keeps.refl _
  · intro i c u _ hp
    show Keeps s.forest u.forest
    exact keeps_proceed hp
  · intro i v _
    show Keeps s.forest (s.serve i v).forest
    exact keeps_serve
  · intro tree forest hkeeps
    exact keeps_of_keepsTokens hkeeps

/-! ## Plans

  A pipeline is kept with the files it was planned on.  Planning anew gives another pair of the two, and no step
  changes one without the other. -/

/-- What is in place is what planning gave, and so it was for each run. -/
structure Planned (c : TargetConfig) (file : Path) (v : TargetServices) (s : Clients) : Prop where
  /-- The target is the one of this file, as it was asked for. -/
  config : s.target.config = c
  projectFile : s.target.projectFile = file
  services : s.target.services = v
  /-- The pipeline in place is what comes of planning from the files that were read. -/
  inPlace : ∃ next, BuildTarget.configure c file v s.planning.tree = .ok next ∧
    s.target.pipeline.disarm = next.pipeline
  /-- So is the one that will take its place. -/
  coming : ∀ i token planning next, s.served = some (i, .planned token planning next) →
    BuildTarget.configure c file v planning.tree = .ok next
  /-- Each run has the pipeline that came of its planning. -/
  runs : ∀ r ∈ s.runs, ∃ next, BuildTarget.configure c file v r.planning.tree = .ok next ∧
    r.pipeline = next.pipeline.arm r.token

section Plans

variable {config : TargetConfig} {file : Path} {services : TargetServices}

/-- The same runs have the same pipelines. -/
theorem plans_same (s : Clients) :
    ∀ r ∈ s.runs, ∃ q ∈ s.runs, q.token = r.token ∧ q.pipeline = r.pipeline ∧ q.planning = r.planning :=
  fun r hr => ⟨r, hr, rfl, rfl, rfl⟩

/-- A step that does not plan anew. -/
theorem Planned.rests (h : Planned config file services s) (hconfig : u.target.config = s.target.config)
    (hfile : u.target.projectFile = s.target.projectFile) (hservices : u.target.services = s.target.services)
    (hplanning : u.planning = s.planning) (hpipeline : u.target.pipeline.disarm = s.target.pipeline.disarm)
    (hserved : ∀ i token planning next, u.served = some (i, .planned token planning next) →
      BuildTarget.configure config file services planning.tree = .ok next)
    (hruns : ∀ r ∈ u.runs, ∃ q ∈ s.runs, q.token = r.token ∧ q.pipeline = r.pipeline ∧ q.planning = r.planning) :
    Planned config file services u where
  config := hconfig.trans h.config
  projectFile := hfile.trans h.projectFile
  services := hservices.trans h.services
  inPlace := by
    rw [hplanning, hpipeline]
    exact h.inPlace
  coming := hserved
  runs r hr := by
    obtain ⟨q, hq, htoken, hpipeline, hplanning⟩ := hruns r hr
    rw [← htoken, ← hpipeline, ← hplanning]
    exact h.runs q hq

/-- A call that goes on leaves the plans. -/
theorem Planned.proceed (h : Planned config file services s) (hp : s.proceed i c = some u) :
    Planned config file services u.tick := by
  -- no call that is not served plans or arms anything
  cases c with
  | asks kind | closes =>
    rw [Clients.proceed] at hp
    split at hp <;> cases hp <;> exact h.rests rfl rfl rfl rfl rfl h.coming s.plans_same
  | waits kind =>
    rw [Clients.proceed] at hp
    split at hp <;> cases hp
    exact h.rests rfl rfl rfl rfl rfl (fun _ _ _ _ hserved => by cases hserved) s.plans_same
  | invalidates reason =>
    cases hp
    exact h.rests rfl rfl rfl rfl rfl h.coming s.plans_same
  | cancels reason stored | unregisters =>
    rw [Clients.proceed] at hp
    split at hp <;> cases hp
    exact h.rests rfl rfl rfl rfl rfl h.coming s.plans_same
  | served | returned _ | cancelled _ _ | closed _ => cases hp

/-- What is served keeps plans and runs true. -/
theorem Planned.serve (h : Planned config file services s) (hs : s.served = some (i, v)) :
    Planned config file services (s.serve i v).tick := by
  have hgoes {w : Service} (hw : ∀ token planning next, w ≠ .planned token planning next) :
      Planned config file services (s.withService i w).tick := by
    refine h.rests rfl rfl rfl rfl rfl ?_ s.plans_same
    intro j token planning next hserved
    cases hserved
    exact absurd rfl (hw token planning next)
  have hleaves {error : Option BuildError} : Planned config file services (s.leave i error).tick :=
    h.rests rfl rfl rfl rfl rfl (fun _ _ _ _ hserved => by cases hserved) s.plans_same
  -- on the service: it plans, puts the plan in place, arms, or leaves all as it is
  cases v with
  | admitted kind =>
    cases kind with
    | build =>
      rw [Clients.serve]
      split
      · exact hleaves
      · exact h.rests rfl rfl rfl rfl rfl (fun _ _ _ _ hserved => by cases hserved) s.plans_same
    | clean =>
      rw [Clients.serve]
      split
      · exact hleaves
      · exact hgoes fun _ _ _ heq => by cases heq
  | opened token =>
    rw [Clients.serve]
    split
    · exact hleaves
    · exact hgoes fun _ _ _ heq => by cases heq
  | loaded token project => exact hgoes fun _ _ _ heq => by cases heq
  | locked token project =>
    refine h.rests rfl rfl rfl rfl rfl ?_ s.plans_same
    intro j t planning next hserved
    rw [Clients.serve] at hserved
    rcases afterFlag_cases s token project with hnext | hnext <;> rw [hnext] at hserved <;> cases hserved
  | plans token began =>
    rw [Clients.serve, h.config, h.projectFile, h.services]
    split
    · exact hgoes fun _ _ _ heq => by cases heq
    · rename_i next hnext
      refine h.rests rfl rfl rfl rfl rfl ?_ s.plans_same
      intro j t planning next' hserved
      cases hserved
      exact hnext
  | refused e => exact h.rests rfl rfl rfl rfl rfl (fun _ _ _ _ hserved => by cases hserved) s.plans_same
  | planned token planning next =>
    have hnext := h.coming i token planning next hs
    have hmade := configured_of_configure hnext
    refine ⟨hmade.config, hmade.projectFile, hmade.services, ⟨next, hnext, ?_⟩, ?_, h.runs⟩
    · show { next.pipeline with current := none } = next.pipeline
      rw [← hmade.current]
    · intro j t p n hserved
      cases hserved
  | ready token =>
    refine ⟨h.config, h.projectFile, h.services, h.inPlace, (fun _ _ _ _ hserved => by cases hserved), ?_⟩
    intro r hr
    rcases List.mem_append.mp hr with hold | hnew
    · exact h.runs r hold
    · cases List.mem_singleton.mp hnew
      obtain ⟨next, hnext, hpipeline⟩ := h.inPlace
      refine ⟨next, hnext, ?_⟩
      rw [← hpipeline]
      rfl
  | armed token => exact h.rests rfl rfl rfl rfl rfl (fun _ _ _ _ hserved => by cases hserved) s.plans_same
  | runs token =>
    refine h.rests rfl rfl rfl rfl rfl (fun _ _ _ _ hserved => by cases hserved) ?_
    intro r hr
    obtain ⟨q, hmem, rfl⟩ := List.mem_map.mp hr
    refine ⟨q, hmem, ?_⟩
    split <;> exact ⟨rfl, rfl, rfl⟩
  | cleans => exact hleaves

/-- Every step keeps plans and runs true. -/
theorem Planned.step (h : Planned config file services s) (hstep : s.step e = some s') :
    Planned config file services s' := by
  refine holds_of_step hstep ?_ (fun _ hp => h.proceed hp) h.serve ?_
  · intro d
    exact h.rests rfl rfl rfl rfl rfl h.coming s.plans_same
  · intro tree forest _
    exact h.rests rfl rfl rfl rfl rfl h.coming s.plans_same

end Plans

/-! ## The run that has not ended

  A run is open from its arming to its end, and by the run lock there is one at a time.  The pipeline knows the token
  of that run. -/

/-- The token of the run that is armed or in progress. -/
def running? (s : Clients) : Option TokenId := s.served.bind fun x => x.2.running?

/-- Runs are over but for the one whose build is served, and the pipeline knows the token of that one. -/
structure Tracked (s : Clients) : Prop where
  /-- The pipeline has the token of the run in progress. -/
  current : s.target.pipeline.current = s.running?
  /-- Whatever run has not ended is that one. -/
  unfinished : ∀ r ∈ s.runs, r.ended = none → s.running? = some r.token
  /-- Runs have ended in the past. -/
  ended_lt : ∀ r ∈ s.runs, ∀ time, r.ended = some time → time < s.clock
  /-- The token of whoever is served was made. -/
  token_lt : ∀ i v token, s.served = some (i, v) → v.token? = some token → token < s.forest.tokens.length

/-- Which run is in progress depends on who is served. -/
theorem running?_of_served (h : s.served = some (i, v)) : s.running? = v.running? := by
  rw [running?, h]
  rfl

/-- The token of the run in progress was made. -/
theorem Tracked.running_lt (h : Tracked s) (hid : s.running? = some id) : id < s.forest.tokens.length := by
  obtain ⟨⟨i, v⟩, hserved, hv⟩ := Option.bind_eq_some_iff.mp hid
  exact h.token_lt i v id hserved (Service.token?_of_running? hv)

/-- Who cancels trips the token of the run that has not ended. -/
theorem Tracked.cancels (h : Tracked s) (reason : String) (hid : s.running? = some id) :
    (s.target.cancel reason s.forest).1.isCancelled id = true := by
  rw [BuildTarget.cancel, Pipeline.cancel, h.current, hid]
  exact Forest.isCancelled_trip (h.running_lt hid)

/-- A step that starts and ends no run. -/
theorem Tracked.rests (h : Tracked s) (hcurrent : u.target.pipeline.current = s.target.pipeline.current)
    (hrunning : u.running? = s.running?) (hruns : u.runs = s.runs) (hclock : s.clock ≤ u.clock)
    (htoken : ∀ i v token, u.served = some (i, v) → v.token? = some token → token < u.forest.tokens.length) :
    Tracked u where
  current := hcurrent.trans (h.current.trans hrunning.symm)
  unfinished r hr hended := hrunning.trans (h.unfinished r (hruns ▸ hr) hended)
  ended_lt r hr time htime := Nat.lt_of_lt_of_le (h.ended_lt r (hruns ▸ hr) time htime) hclock
  token_lt := htoken

/-- A call that goes on leaves the run. -/
theorem Tracked.proceed (h : Tracked s) (hp : s.proceed i c = some u) : Tracked u.tick := by
  have htoken {f : Forest} (hf : Keeps s.forest f) (j : Nat) (v : Service) (token : TokenId)
      (hserved : s.served = some (j, v)) (hv : v.token? = some token) : token < f.tokens.length :=
    Nat.lt_of_lt_of_le (h.token_lt j v token hserved hv) hf.length
  have hkeeps := keeps_proceed hp
  -- no call that is not served starts or ends a run
  cases c with
  | asks kind | closes =>
    rw [Clients.proceed] at hp
    split at hp <;> cases hp <;> exact h.rests rfl rfl rfl (Nat.le_succ _) (htoken hkeeps)
  | waits kind =>
    rw [Clients.proceed] at hp
    split at hp
    · cases hp
    · rename_i hidle
      cases hp
      rw [Bool.not_eq_true, Option.isSome_eq_false_iff, Option.isNone_iff_eq_none] at hidle
      refine h.rests rfl ?_ rfl (Nat.le_succ _) ?_
      · rw [running?, running?, hidle]
        rfl
      · intro j v token hserved hv
        cases hserved
        cases hv
  | invalidates reason =>
    cases hp
    exact h.rests rfl rfl rfl (Nat.le_succ _) (htoken hkeeps)
  | cancels reason stored | unregisters =>
    rw [Clients.proceed] at hp
    split at hp <;> cases hp
    exact h.rests rfl rfl rfl (Nat.le_succ _) (htoken hkeeps)
  | served | returned _ | cancelled _ _ | closed _ => cases hp

/-- A build arms its run; no other run is open. -/
theorem Tracked.arms {token : TokenId} (h : Tracked s) (hs : s.served = some (i, .ready token)) :
    Tracked (s.serve i (.ready token)).tick where
  current := rfl
  unfinished r hr hended := by
    rcases List.mem_append.mp hr with hold | hnew
    · have hnone := h.unfinished r hold hended
      rw [running?_of_served hs] at hnone
      cases hnone
    · rw [List.mem_singleton.mp hnew]
      rfl
  ended_lt r hr time htime := by
    rcases List.mem_append.mp hr with hold | hnew
    · exact Nat.lt_succ_of_lt (h.ended_lt r hold time htime)
    · rw [List.mem_singleton.mp hnew] at htime
      cases htime
  token_lt j v t hserved hv := by
    cases hserved
    exact h.token_lt i (.ready token) t hs hv

/-- The run of the served build is over. -/
theorem Tracked.ends {token : TokenId} (h : Tracked s) (hs : s.served = some (i, .runs token)) :
    Tracked (s.serve i (.runs token)).tick where
  current := rfl
  unfinished r hr hended := by
    obtain ⟨q, hmem, rfl⟩ := List.mem_map.mp hr
    split at hended
    · cases hended
    · -- a run that had not ended had this token
      rename_i hother
      have htoken := h.unfinished q hmem hended
      rw [running?_of_served hs] at htoken
      cases htoken
      rw [hended] at hother
      simp at hother
  ended_lt r hr time htime := by
    obtain ⟨q, hmem, rfl⟩ := List.mem_map.mp hr
    show time < s.clock + 1
    split at htime
    · cases htime
      exact Nat.lt_succ_self _
    · exact Nat.lt_succ_of_lt (h.ended_lt q hmem time htime)
  token_lt j v t hserved := by cases hserved

/-- What is served keeps track of the run. -/
theorem Tracked.serve {config : TargetConfig} {file : Path} {services : TargetServices} (h : Tracked s)
    (hplan : Planned config file services s) (hs : s.served = some (i, v)) : Tracked (s.serve i v).tick := by
  have hrunning := running?_of_served hs
  have hgoes {w : Service} (hrun : w.running? = v.running?)
      (htoken : ∀ token, w.token? = some token → v.token? = some token) : Tracked (s.withService i w).tick := by
    refine h.rests rfl (hrun.trans hrunning.symm) rfl (Nat.le_succ _) ?_
    intro j x token hserved hx
    cases hserved
    exact h.token_lt i v token hs (htoken token hx)
  have hleaves {error : Option BuildError} (hrun : none = v.running?) : Tracked (s.leave i error).tick :=
    h.rests rfl (hrun.trans hrunning.symm) rfl (Nat.le_succ _) fun _ _ _ hserved => by cases hserved
  -- on the service: it is the first place that makes a token, one that arms, one that ends, or none of these
  cases v with
  | admitted kind =>
    cases kind with
    | build =>
      rw [Clients.serve]
      split
      · exact hleaves rfl
      · refine h.rests rfl hrunning.symm rfl (Nat.le_succ _) ?_
        intro j x token hserved hx
        cases hserved
        cases hx
        show s.forest.tokens.length < (s.forest.tokens ++ [({} : Token)]).length
        rw [List.length_append]
        exact Nat.lt_succ_self _
    | clean =>
      rw [Clients.serve]
      split
      · exact hleaves rfl
      · exact hgoes rfl fun _ hx => by cases hx
  | opened token =>
    rw [Clients.serve]
    split
    · exact hleaves rfl
    · exact hgoes rfl fun _ hx => hx
  | loaded token project => exact hgoes rfl fun _ hx => hx
  | locked token project =>
    have hnext : (s.afterFlag token project).running? = none ∧ (s.afterFlag token project).token? = some token := by
      rcases afterFlag_cases s token project with hnext | hnext <;> rw [hnext] <;> exact ⟨rfl, rfl⟩
    obtain ⟨hrun, htoken⟩ := hnext
    refine h.rests rfl (hrun.trans hrunning.symm) rfl (Nat.le_succ _) ?_
    intro j x t hserved hx
    cases hserved
    exact h.token_lt i _ t hs (htoken.symm.trans hx)
  | plans token began =>
    rw [Clients.serve]
    split
    · exact hgoes rfl fun _ hx => by cases hx
    · exact hgoes rfl fun _ hx => hx
  | refused e =>
    exact h.rests rfl hrunning.symm rfl (Nat.le_succ _) fun _ _ _ hserved => by cases hserved
  | planned token planning next =>
    have hmade := configured_of_configure (hplan.coming i token planning next hs)
    refine h.rests (hmade.current.trans (h.current.trans hrunning).symm) hrunning.symm rfl (Nat.le_succ _) ?_
    intro j x t hserved hx
    cases hserved
    exact h.token_lt i (.planned token planning next) t hs hx
  | ready token => exact h.arms hs
  | armed token =>
    refine h.rests (h.current.trans hrunning).symm hrunning.symm rfl (Nat.le_succ _) ?_
    intro j x t hserved hx
    cases hserved
    exact h.token_lt i (.armed token) t hs hx
  | runs token => exact h.ends hs
  | cleans => exact hleaves rfl

/-- Every step keeps track of the run. -/
theorem Tracked.step {config : TargetConfig} {file : Path} {services : TargetServices} (h : Tracked s)
    (hplan : Planned config file services s) (hstep : s.step e = some s') : Tracked s' := by
  refine holds_of_step hstep ?_ (fun _ hp => h.proceed hp) (h.serve hplan) ?_
  · intro d
    exact h.rests rfl rfl rfl (Nat.le_succ _) h.token_lt
  · intro tree forest hkeeps
    refine h.rests rfl rfl rfl (Nat.le_succ _) ?_
    intro j v token hserved hv
    exact Nat.lt_of_lt_of_le (h.token_lt j v token hserved hv) (keeps_of_keepsTokens hkeeps).length

/-- Where a run after a step comes from: it was there before, or it was armed right now. -/
theorem mem_runs_of_step {r : TargetRun} (hstep : s.step e = some s') (hr : r ∈ s'.runs) :
    (∃ q ∈ s.runs, q.token = r.token ∧ q.armed = r.armed ∧ ∀ time, q.ended = some time → r.ended = some time) ∨
      r.armed = s.clock := by
  have hsame (hold : r ∈ s.runs) : (∃ q ∈ s.runs, q.token = r.token ∧ q.armed = r.armed ∧
      ∀ time, q.ended = some time → r.ended = some time) ∨ r.armed = s.clock :=
    Or.inl ⟨r, hold, rfl, rfl, fun _ h => h⟩
  revert hr
  refine holds_of_step (P := fun u => r ∈ u.runs → _) hstep (fun _ => hsame) ?_ ?_ fun _ _ _ => hsame
  · intro i c u _ hp hr
    have hruns : u.runs = s.runs := by
      cases c <;> rw [Clients.proceed] at hp <;> first | (split at hp <;> cases hp <;> rfl) | (cases hp <;> rfl)
    exact hsame (hruns ▸ hr)
  · intro i v _ hr
    -- a run is new when it is armed, and ends when it is no longer served
    cases v with
    | ready token =>
      rcases List.mem_append.mp hr with hold | hnew
      · exact hsame hold
      · rw [List.mem_singleton.mp hnew]
        exact Or.inr rfl
    | runs token =>
      obtain ⟨q, hmem, rfl⟩ := List.mem_map.mp hr
      refine Or.inl ⟨q, hmem, ?_⟩
      split
      · rename_i hends
        refine ⟨rfl, rfl, fun time htime => ?_⟩
        rw [htime, Bool.and_eq_true] at hends
        cases hends.2
      · exact ⟨rfl, rfl, fun _ h => h⟩
    | admitted kind =>
      cases kind <;> rw [Clients.serve] at hr <;> split at hr <;> exact hsame hr
    | opened token | plans token began =>
      rw [Clients.serve] at hr
      split at hr <;> exact hsame hr
    | loaded | locked | refused | planned | armed | cleans => exact hsame hr

/-! ## The start

  A target that was just made has a plan and no run. -/

/-- At the start the pipeline is planned, and there is no run. -/
theorem planned_of_open {config : TargetConfig} {file : Path} {services : TargetServices} {tree : FileTree}
    {host : HostGraph} {forest : Forest} (h : open? config file services tree host forest = .ok s) :
    Planned config file services s ∧ Tracked s := by
  obtain ⟨next, hnext, rfl⟩ := exists_of_open h
  have hmade := configured_of_configure hnext
  constructor
  · refine ⟨hmade.config, hmade.projectFile, hmade.services, ⟨next, hnext, ?_⟩,
      (fun _ _ _ _ hserved => by cases hserved), fun r hr => by cases hr⟩
    show { next.pipeline with current := none } = next.pipeline
    rw [← hmade.current]
  · exact ⟨hmade.current, (fun r hr => by cases hr), (fun r hr => by cases hr), fun _ _ _ hserved => by cases hserved⟩

end Clients

end Wheelwright
