/-
  Invalidations of a target — none of them is lost, whoever else calls.

  **Specification** — an invalidation sets the flag at one time and cancels at a later one.  A run that is armed or
  in progress when it cancels has a tripped token from then on; a run that is armed later has a pipeline whose planning
  began after the flag was set.  A build that cannot read or plan the project leaves the invalidation pending.

  **The crux** — a build takes the flag and arms its run while it holds the state lock, and nobody cancels meanwhile.
  So when it arms its run, every invalidation that has cancelled had set the flag before the build took it
  (`Honoured.taken`); one that set the flag after that has still to cancel, and finds the run armed.
-/
import Wheelwright.Proofs.Target.Runs

namespace Wheelwright

/-- When the call has set the flag, if it is an invalidation that has. -/
def ClientCall.stored? : ClientCall → Option Nat
  | .cancels _ stored | .cancelled stored _ => stored
  | _ => none

namespace Service

/-- The build has taken the flag, and holds the state lock. -/
def hasTaken : Service → Bool
  | .plans _ _ | .refused _ | .planned _ _ _ | .ready _ => true
  | _ => false

/-- When the planning began of the pipeline that a build gets ready, if it will get one; the pipeline in place was
    planned at `began`. -/
def since (began : Nat) : Service → Option Nat
  | .plans _ began => some began
  | .planned _ planning _ => some planning.began
  | .refused _ => none
  | _ => some began

end Service

/-- The run had ended before a time. -/
def TargetRun.IsOver (r : TargetRun) (time : Nat) : Prop := ∃ t, r.ended = some t ∧ t < time

namespace Clients

variable {s s' u : Clients} {a i time : Nat} {c : ClientCall} {v : Service}

/-! ## Invalidations

  An invalidation sets a flag and then cancels, and a build takes the flag and then plans.  For each invalidation that
  has set the flag it is kept where it stands: still in the flag, taken by a build that will plan anew, or in the
  plan. -/

/-- An invalidation has set the flag at the time `a`. -/
def Stored (s : Clients) (a : Nat) : Prop := ∃ c ∈ s.calls, c.stored? = some a

/-- An invalidation that had set the flag at the time `a` has cancelled at another. -/
def Interrupted (s : Clients) (a time : Nat) : Prop := .cancelled (some a) time ∈ s.calls

/-- A build has taken the flag and has not yet armed its run. -/
def hasTaken (s : Clients) : Bool := s.served.any fun x => x.2.hasTaken

/-- When the planning began of the pipeline that will be in place when the state lock is free. -/
def since (s : Clients) : Option Nat :=
  match s.served with
  | some (_, v) => v.since s.planning.began
  | none => some s.planning.began

/-- The pipeline that will be in place was planned after the time `a`. -/
def Renewed (s : Clients) (a : Nat) : Prop := ∀ n, s.since = some n → a < n

/-- Who has interrupted has set the flag. -/
theorem Interrupted.stored (h : s.Interrupted a time) : s.Stored a := ⟨_, h, rfl⟩

/-- Who has taken the flag holds the state lock. -/
theorem isFree_hasTaken (h : s.isFree = true) : s.hasTaken = false := by
  rw [isFree] at h
  rw [hasTaken]
  cases hserved : s.served with
  | none => rfl
  | some x =>
    rw [hserved] at h
    obtain ⟨i, v⟩ := x
    cases v <;> first | rfl | cases h

/-- When the state lock is free, the pipeline is in place. -/
theorem since_of_isFree (h : s.isFree = true) : s.since = some s.planning.began := by
  rw [isFree] at h
  rw [since]
  cases hserved : s.served with
  | none => rfl
  | some x =>
    rw [hserved] at h
    obtain ⟨i, v⟩ := x
    cases v <;> first | rfl | cases h

/-- What is kept of each invalidation. -/
structure Honoured (s : Clients) : Prop where
  /-- Flags were set in the past. -/
  stored_lt : ∀ a, s.Stored a → a < s.clock
  /-- So were the cancels. -/
  interrupted_lt : ∀ a time, s.Interrupted a time → time < s.clock
  /-- Runs were armed in the past. -/
  armed_lt : ∀ r ∈ s.runs, r.armed < s.clock
  /-- The flag is set, or the pipeline renewed. -/
  pending : ∀ a, s.Stored a → s.target.invalidated = true ∨ s.Renewed a
  /-- Who has taken the flag renews the pipeline for all that have cancelled, whether the flag was set again or not. -/
  taken : ∀ a time, s.Interrupted a time → s.hasTaken = true → s.Renewed a
  /-- Runs armed after the cancel were planned after the flag was set. -/
  later : ∀ a time, s.Interrupted a time → ∀ r ∈ s.runs, time < r.armed → a < r.planning.began

/-- A step that neither an invalidation nor a flag nor a plan has a part in. -/
structure Quiet (s s' : Clients) : Prop where
  /-- The step makes no call that has set the flag. -/
  calls : ∀ c ∈ s'.calls, c ∈ s.calls ∨ c.stored? = none
  /-- The flag stays as it is. -/
  invalidated : s'.target.invalidated = s.target.invalidated
  /-- So does the planning that will be in place. -/
  since : s'.since = s.since
  /-- Nobody takes the flag. -/
  hasTaken : s'.hasTaken = true → s.hasTaken = true
  /-- No run is armed. -/
  runs : ∀ r ∈ s'.runs, ∃ q ∈ s.runs, q.armed = r.armed ∧ q.planning = r.planning
  /-- Time goes on. -/
  clock : s.clock ≤ s'.clock

/-- Each invalidation is still pending or taken care of, and no run is new. -/
theorem Honoured.changes (h : Honoured s) (hcalls : ∀ c ∈ s'.calls, c ∈ s.calls ∨ c.stored? = none)
    (hruns : ∀ r ∈ s'.runs, ∃ q ∈ s.runs, q.armed = r.armed ∧ q.planning = r.planning) (hclock : s.clock ≤ s'.clock)
    (hpending : ∀ a, s.Stored a → s'.target.invalidated = true ∨ s'.Renewed a)
    (htaken : ∀ a time, s.Interrupted a time → s'.hasTaken = true → s'.Renewed a) : Honoured s' := by
  -- a call that has set the flag had set it before
  have hstored {a : Nat} (ha : s'.Stored a) : s.Stored a := by
    obtain ⟨c, hc, hstored⟩ := ha
    rcases hcalls c hc with hold | hnone
    · exact ⟨c, hold, hstored⟩
    · rw [hnone] at hstored
      cases hstored
  have hinterrupted {a time : Nat} (ha : s'.Interrupted a time) : s.Interrupted a time := by
    rcases hcalls _ ha with hold | hnone
    · exact hold
    · cases hnone
  refine ⟨?_, ?_, ?_, ?_, ?_, ?_⟩
  · intro a ha
    exact Nat.lt_of_lt_of_le (h.stored_lt a (hstored ha)) hclock
  · intro a time ha
    exact Nat.lt_of_lt_of_le (h.interrupted_lt a time (hinterrupted ha)) hclock
  · intro r hr
    obtain ⟨q, hmem, harmed, -⟩ := hruns r hr
    rw [← harmed]
    exact Nat.lt_of_lt_of_le (h.armed_lt q hmem) hclock
  · intro a ha
    exact hpending a (hstored ha)
  · intro a time ha
    exact htaken a time (hinterrupted ha)
  · intro a time ha r hr htime
    obtain ⟨q, hmem, harmed, hplanning⟩ := hruns r hr
    rw [← harmed] at htime
    rw [← hplanning]
    exact h.later a time (hinterrupted ha) q hmem htime

/-- A quiet step keeps what is kept of invalidations. -/
theorem Honoured.quiet (h : Honoured s) (hq : Quiet s s') : Honoured s' := by
  refine h.changes hq.calls hq.runs hq.clock ?_ ?_
  · intro a ha
    rw [hq.invalidated, Renewed, hq.since]
    exact h.pending a ha
  · intro a time ha htaken
    rw [Renewed, hq.since]
    exact h.taken a time ha (hq.hasTaken htaken)

/-! ## Steps that leave invalidations alone

  Most steps concern neither the flag nor the plan nor the runs.  That these leave everything as it was is said once,
  by `Rests`. -/

/-- The planning that will be in place depends on who is served. -/
theorem since_of_served (h : s.served = some (i, v)) : s.since = v.since s.planning.began := by
  rw [since, h]

/-- So does whether the flag was taken. -/
theorem hasTaken_of_served (h : s.served = some (i, v)) : s.hasTaken = v.hasTaken := by
  rw [hasTaken, h]
  rfl

/-- A call that has changed is the only new one. -/
theorem mem_calls_withCall {d : ClientCall} (h : d ∈ (s.withCall i c).calls) : d ∈ s.calls ∨ d = c :=
  List.mem_or_eq_of_mem_set h

/-- Most of a state is as it was. -/
structure Rests (s u : Clients) : Prop where
  /-- The calls are the same. -/
  calls : u.calls = s.calls
  /-- The flag stays as it is. -/
  invalidated : u.target.invalidated = s.target.invalidated
  /-- Each run is one that was there. -/
  runs : ∀ r ∈ u.runs, ∃ q ∈ s.runs, q.armed = r.armed ∧ q.planning = r.planning
  /-- No time has passed yet. -/
  clock : u.clock = s.clock

/-- The same calls, flag and runs. -/
theorem Rests.of_eq (hcalls : u.calls = s.calls) (hflag : u.target.invalidated = s.target.invalidated)
    (hruns : u.runs = s.runs) (hclock : u.clock = s.clock) : Rests s u where
  calls := hcalls
  invalidated := hflag
  runs r hr := ⟨r, hruns ▸ hr, rfl, rfl⟩
  clock := hclock

/-- Nothing at all. -/
theorem Rests.refl (s : Clients) : Rests s s := .of_eq rfl rfl rfl rfl

/-- A call that is not served goes on. -/
theorem Rests.quiet_withCall (h : Rests s u) (hserved : u.served = s.served) (hplanning : u.planning = s.planning)
    (hc : c.stored? = none) : Quiet s (u.withCall i c).tick where
  calls d hd := by
    rcases mem_calls_withCall hd with hold | rfl
    · exact Or.inl (h.calls ▸ hold)
    · exact Or.inr hc
  invalidated := h.invalidated
  since := by
    show u.since = s.since
    rw [Clients.since, Clients.since, hserved, hplanning]
  hasTaken htaken := by
    rw [Clients.hasTaken, ← hserved]
    exact htaken
  runs := h.runs
  clock := by
    show s.clock ≤ u.clock + 1
    rw [h.clock]
    exact Nat.le_succ _

/-- The served call goes on. -/
theorem Rests.quiet_withService {w : Service} (h : Rests s u) (hs : s.served = some (i, v))
    (hsince : w.since u.planning.began = v.since s.planning.began) (htaken : w.hasTaken = true → v.hasTaken = true) :
    Quiet s (u.withService i w).tick where
  calls d hd := Or.inl (h.calls ▸ hd)
  invalidated := h.invalidated
  since := (since_of_served rfl).trans (hsince.trans (since_of_served hs).symm)
  hasTaken hw := (hasTaken_of_served hs).trans (htaken hw)
  runs := h.runs
  clock := by
    show s.clock ≤ u.clock + 1
    rw [h.clock]
    exact Nat.le_succ _

/-- The served call returns. -/
theorem Rests.quiet_leave {error : Option BuildError} (h : Rests s u) (hs : s.served = some (i, v))
    (hsince : some u.planning.began = v.since s.planning.began) : Quiet s (u.leave i error).tick where
  calls d hd := by
    rcases mem_calls_withCall hd with hold | rfl
    · exact Or.inl (h.calls ▸ hold)
    · exact Or.inr rfl
  invalidated := h.invalidated
  since := hsince.trans (since_of_served hs).symm
  hasTaken hw := by cases hw
  runs := h.runs
  clock := by
    show s.clock ≤ u.clock + 1
    rw [h.clock]
    exact Nat.le_succ _

/-! ## Steps of invalidations and of builds

  The steps that do concern them, one lemma for each. -/

/-- An invalidation sets the flag. -/
theorem Honoured.stores {reason : String} (h : Honoured s) :
    Honoured ({ s with target := s.target.invalidate }.withCall i (.cancels reason (some s.clock))).tick where
  stored_lt a ha := by
    obtain ⟨c, hc, hstored⟩ := ha
    -- the invalidation itself has set the flag just now, and the others before
    show a < s.clock + 1
    rcases mem_calls_withCall hc with hold | rfl
    · have := h.stored_lt a ⟨c, hold, hstored⟩
      omega
    · cases hstored
      exact Nat.lt_succ_self _
  interrupted_lt a time ha := by
    rcases mem_calls_withCall ha with hold | hnew
    · exact Nat.lt_succ_of_lt (h.interrupted_lt a time hold)
    · cases hnew
  armed_lt r hr := Nat.lt_succ_of_lt (h.armed_lt r hr)
  pending _ _ := Or.inl rfl
  taken a time ha htaken := by
    rcases mem_calls_withCall ha with hold | hnew
    · exact h.taken a time hold htaken
    · cases hnew
  later a time ha := by
    rcases mem_calls_withCall ha with hold | hnew
    · exact h.later a time hold
    · cases hnew

/-- A call cancels. -/
theorem Honoured.cancels {reason : String} {stored : Option Nat} {f : Forest} (h : Honoured s)
    (hcall : s.calls[i]? = some (.cancels reason stored)) (hfree : s.isFree = true) :
    Honoured ({ s with forest := f }.withCall i (.cancelled stored s.clock)).tick := by
  have hold {a : Nat} (ha : (({ s with forest := f }.withCall i (.cancelled stored s.clock)).tick).Stored a) :
      s.Stored a := by
    obtain ⟨c, hc, hstored⟩ := ha
    rcases mem_calls_withCall hc with hmem | rfl
    · exact ⟨c, hmem, hstored⟩
    · exact ⟨_, List.mem_of_getElem? hcall, hstored⟩
  refine ⟨?_, ?_, fun r hr => Nat.lt_succ_of_lt (h.armed_lt r hr), ?_, ?_, ?_⟩
  · intro a ha
    exact Nat.lt_succ_of_lt (h.stored_lt a (hold ha))
  · intro a time ha
    show time < s.clock + 1
    rcases mem_calls_withCall ha with hmem | hnew
    · exact Nat.lt_succ_of_lt (h.interrupted_lt a time hmem)
    · cases hnew
      exact Nat.lt_succ_self _
  -- the flag is set still, or the pipeline was renewed; the cancel changes neither
  · intro a ha
    exact h.pending a (hold ha)
  · intro a time ha htaken
    have hsame : s.hasTaken = true := htaken
    rw [isFree_hasTaken hfree] at hsame
    cases hsame
  · intro a time ha r hr htime
    rcases mem_calls_withCall ha with hmem | hnew
    · exact h.later a time hmem r hr htime
    · -- all runs so far were armed before
      cases hnew
      have := h.armed_lt r hr
      omega

/-- **A build takes the flag.**  If it was set the build plans anew; if not, the pipeline is new enough. -/
theorem Honoured.takes {token : TokenId} {project : Project} (h : Honoured s)
    (hs : s.served = some (i, .locked token project)) : Honoured (s.serve i (.locked token project)).tick := by
  have hrenewed (a : Nat) (ha : s.Stored a) : (s.serve i (.locked token project)).tick.Renewed a := by
    intro n hn
    have hsince : (s.afterFlag token project).since s.planning.began = some n := hn
    rw [afterFlag] at hsince
    split at hsince
    · -- planning begins now
      cases hsince
      exact h.stored_lt a ha
    · rename_i hfresh
      rw [Bool.or_eq_true, not_or, Bool.not_eq_true] at hfresh
      -- the build goes on with the pipeline in place, so the flag was not set
      rcases h.pending a ha with hset | hnew
      · rw [hfresh.1] at hset
        cases hset
      · exact hnew n ((since_of_served hs).trans hsince)
  exact h.changes (fun c hc => Or.inl hc) (fun r hr => ⟨r, hr, rfl, rfl⟩) (Nat.le_succ _)
    (fun a ha => Or.inr (hrenewed a ha))
    fun a time ha _ => hrenewed a ha.stored

/-- A build cannot plan, and will set the flag again. -/
theorem Honoured.refuses {e : BuildError} (h : Honoured s) : Honoured (s.withService i (.refused e)).tick := by
  have hrenewed (a : Nat) : (s.withService i (.refused e)).tick.Renewed a := by
    intro n hn
    cases hn
  exact h.changes (fun c hc => Or.inl hc) (fun r hr => ⟨r, hr, rfl, rfl⟩) (Nat.le_succ _)
    (fun a _ => Or.inr (hrenewed a)) fun a _ _ _ => hrenewed a

/-- A build that could not plan returns. -/
theorem Honoured.restores {e : BuildError} (h : Honoured s) :
    Honoured ({ s with target := s.target.invalidate }.leave i (some e)).tick := by
  refine h.changes ?_ (fun r hr => ⟨r, hr, rfl, rfl⟩) (Nat.le_succ _) (fun _ _ => Or.inl rfl)
    fun a time _ htaken => by cases htaken
  intro c hc
  rcases mem_calls_withCall hc with hold | rfl
  · exact Or.inl hold
  · exact Or.inr rfl

/-- **A build arms its run.**  All who have cancelled had set the flag before it was taken. -/
theorem Honoured.arms {token : TokenId} (h : Honoured s) (hs : s.served = some (i, .ready token)) :
    Honoured (s.serve i (.ready token)).tick := by
  have hsince : (s.serve i (.ready token)).tick.since = s.since := (since_of_served hs).symm
  refine ⟨?_, ?_, ?_, ?_, ?_, ?_⟩
  · intro a ha
    exact Nat.lt_succ_of_lt (h.stored_lt a ha)
  · intro a time ha
    exact Nat.lt_succ_of_lt (h.interrupted_lt a time ha)
  · intro r hr
    show r.armed < s.clock + 1
    rcases List.mem_append.mp hr with hold | hnew
    · exact Nat.lt_succ_of_lt (h.armed_lt r hold)
    · cases List.mem_singleton.mp hnew
      exact Nat.lt_succ_self _
  · intro a ha
    rw [Renewed, hsince]
    exact h.pending a ha
  · intro a time _ htaken
    cases htaken
  -- a run that is armed now has the pipeline that was renewed
  · intro a time ha r hr htime
    rcases List.mem_append.mp hr with hold | hnew
    · exact h.later a time ha r hold htime
    · cases List.mem_singleton.mp hnew
      exact h.taken a time ha (hasTaken_of_served hs) _ (since_of_served hs)

/-! ## All steps

  The kinds of calls that go on, and of services, sorted into the steps above. -/

theorem Honoured.proceed (h : Honoured s) (hcall : s.calls[i]? = some c) (hp : s.proceed i c = some u) :
    Honoured u.tick := by
  -- on the call: only an invalidation sets the flag, and only a cancel interrupts
  cases c with
  | asks kind =>
    rw [Clients.proceed] at hp
    split at hp <;> cases hp <;> exact h.quiet ((Rests.refl s).quiet_withCall rfl rfl rfl)
  | waits kind =>
    rw [Clients.proceed] at hp
    split at hp
    · cases hp
    · rename_i hidle
      cases hp
      rw [Bool.not_eq_true, Option.isSome_eq_false_iff, Option.isNone_iff_eq_none] at hidle
      refine h.quiet ⟨?_, rfl, ?_, (fun hw => by cases hw), (fun r hr => ⟨r, hr, rfl, rfl⟩), Nat.le_succ _⟩
      · intro d hd
        rcases mem_calls_withCall hd with hold | rfl
        · exact Or.inl hold
        · exact Or.inr rfl
      · rw [Clients.since, Clients.since, hidle]
        rfl
  | invalidates reason =>
    cases hp
    exact h.stores
  | cancels reason stored =>
    rw [Clients.proceed] at hp
    split at hp
    · rename_i hfree
      cases hp
      exact h.cancels hcall hfree
    · cases hp
  | closes =>
    rw [Clients.proceed] at hp
    split at hp
    · cases hp
      exact h.quiet ((Rests.refl s).quiet_withCall rfl rfl rfl)
    · cases hp
      exact h.quiet (Rests.quiet_withCall (s := s) (.of_eq rfl rfl rfl rfl) rfl rfl rfl)
  | unregisters =>
    rw [Clients.proceed] at hp
    split at hp
    · cases hp
      exact h.quiet (Rests.quiet_withCall (s := s) (.of_eq rfl rfl rfl rfl) rfl rfl rfl)
    · cases hp
  | served | returned _ | cancelled _ _ | closed _ => cases hp

theorem Honoured.serve (h : Honoured s) (hs : s.served = some (i, v)) : Honoured (s.serve i v).tick := by
  have hsame {w : Service} (hsince : w.since s.planning.began = v.since s.planning.began)
      (htaken : w.hasTaken = true → v.hasTaken = true) : Honoured (s.withService i w).tick :=
    h.quiet ((Rests.refl s).quiet_withService hs hsince htaken)
  have hleaves {error : Option BuildError} (hsince : some s.planning.began = v.since s.planning.began) :
      Honoured (s.leave i error).tick := h.quiet ((Rests.refl s).quiet_leave hs hsince)
  -- on the service: it takes the flag, plans, arms, or is quiet
  cases v with
  | admitted kind =>
    cases kind with
    | build =>
      rw [Clients.serve]
      split
      · exact hleaves rfl
      · exact h.quiet (Rests.quiet_withService (s := s) (.of_eq rfl rfl rfl rfl) hs rfl fun hw => by cases hw)
    | clean =>
      rw [Clients.serve]
      split
      · exact hleaves rfl
      · exact hsame rfl fun hw => by cases hw
  | opened token =>
    rw [Clients.serve]
    split
    · exact hleaves rfl
    · exact hsame rfl fun hw => by cases hw
  | loaded token project => exact hsame rfl fun hw => by cases hw
  | locked token project => exact h.takes hs
  | plans token began =>
    rw [Clients.serve]
    split
    · exact h.refuses
    · exact hsame rfl fun _ => rfl
  | refused e => exact h.restores
  | planned token planning next =>
    exact h.quiet (Rests.quiet_withService (s := s) (.of_eq rfl rfl rfl rfl) hs rfl fun _ => rfl)
  | ready token => exact h.arms hs
  | armed token =>
    exact h.quiet (Rests.quiet_withService (s := s) (.of_eq rfl rfl rfl rfl) hs rfl fun hw => by cases hw)
  | runs token =>
    refine h.quiet (Rests.quiet_leave (s := s) ⟨rfl, rfl, ?_, rfl⟩ hs rfl)
    intro r hr
    obtain ⟨q, hmem, rfl⟩ := List.mem_map.mp hr
    refine ⟨q, hmem, ?_⟩
    split <;> exact ⟨rfl, rfl⟩
  | cleans => exact hleaves rfl

/-- Every step keeps what is kept of invalidations. -/
theorem Honoured.step {e : Event} (h : Honoured s) (hstep : s.step e = some s') : Honoured s' := by
  refine holds_of_step hstep ?_ h.proceed h.serve ?_
  · intro d
    refine h.quiet ⟨?_, rfl, rfl, id, (fun r hr => ⟨r, hr, rfl, rfl⟩), Nat.le_succ _⟩
    intro c hc
    rcases List.mem_append.mp hc with hold | hnew
    · exact Or.inl hold
    · rw [List.mem_singleton.mp hnew]
      exact Or.inr (by cases d <;> rfl)
  · intro tree forest _
    exact h.quiet ⟨fun c hc => Or.inl hc, rfl, rfl, id, (fun r hr => ⟨r, hr, rfl, rfl⟩), Nat.le_succ _⟩

/-! ## Runs that are cut short

  For the runs it has to be said that those in progress at the time of the cancel were tripped, and stay so. -/

/-- Runs that had not ended when an invalidation cancelled have tripped tokens. -/
def CutShort (s : Clients) : Prop :=
  ∀ a time, s.Interrupted a time → ∀ r ∈ s.runs, r.armed < time →
    r.IsOver time ∨ s.forest.isCancelled r.token = true

/-- A served call only ever returns. -/
theorem mem_calls_serve (h : c ∈ (s.serve i v).calls) : c ∈ s.calls ∨ ∃ error, c = .returned error := by
  -- a caller that is sent away returns, and nothing else happens to the calls
  have hleaves {u : Clients} {error : Option BuildError} (hu : u.calls = s.calls) (hc : c ∈ (u.leave i error).calls) :
      c ∈ s.calls ∨ ∃ error, c = .returned error := by
    rcases mem_calls_withCall hc with hold | hnew
    · exact Or.inl (hu ▸ hold)
    · exact Or.inr ⟨error, hnew⟩
  cases v with
  | admitted kind =>
    cases kind <;> rw [Clients.serve] at h <;> split at h <;> first | exact hleaves rfl h | exact Or.inl h
  | opened token | plans token began =>
    rw [Clients.serve] at h
    split at h <;> first | exact hleaves rfl h | exact Or.inl h
  | refused e => exact hleaves rfl h
  | runs token => exact hleaves rfl h
  | cleans => exact hleaves rfl h
  | loaded | locked | planned | ready | armed => exact Or.inl h

/-- An invalidation that has cancelled did so before, or does right now. -/
theorem interrupted_of_step {e : Event} (hstep : s.step e = some s') (ha : s'.Interrupted a time) :
    s.Interrupted a time ∨
      time = s.clock ∧ s'.runs = s.runs ∧ ∃ reason, s'.forest = (s.target.cancel reason s.forest).1 := by
  revert ha
  refine holds_of_step (P := fun u => u.Interrupted a time → s.Interrupted a time ∨ time = s.clock ∧
    u.runs = s.runs ∧ ∃ reason, u.forest = (s.target.cancel reason s.forest).1) hstep ?_ ?_ ?_ fun _ _ _ => Or.inl
  · intro d ha
    rcases List.mem_append.mp ha with hold | hnew
    · exact Or.inl hold
    · have heq := List.mem_singleton.mp hnew
      cases d <;> cases heq
  -- only the call that cancels has something to do with it
  · intro i c u hcall hp ha
    cases c with
    | cancels reason stored =>
      rw [Clients.proceed] at hp
      split at hp <;> cases hp
      rcases mem_calls_withCall ha with hold | hnew
      · exact Or.inl hold
      · cases hnew
        exact Or.inr ⟨rfl, rfl, reason, rfl⟩
    | asks kind | closes =>
      rw [Clients.proceed] at hp
      split at hp <;> cases hp <;> exact Or.inl ((mem_calls_withCall ha).resolve_right fun hnew => by cases hnew)
    | waits kind | unregisters =>
      rw [Clients.proceed] at hp
      split at hp <;> cases hp
      exact Or.inl ((mem_calls_withCall ha).resolve_right fun hnew => by cases hnew)
    | invalidates reason =>
      cases hp
      exact Or.inl ((mem_calls_withCall ha).resolve_right fun hnew => by cases hnew)
    | served | returned _ | cancelled _ _ | closed _ => cases hp
  · intro i v _ ha
    rcases mem_calls_serve ha with hold | ⟨error, hnew⟩
    · exact Or.inl hold
    · cases hnew

theorem CutShort.step {e : Event} (h : CutShort s) (hkept : Honoured s) (htracked : Tracked s)
    (hstep : s.step e = some s') : CutShort s' := by
  intro a time ha r hr harmed
  have hkeeps := keeps_step hstep
  -- an older interruption finds the runs that were there; one just now finds those that are
  rcases interrupted_of_step hstep ha with hbefore | ⟨rfl, hruns, reason, hforest⟩
  · have htime := hkept.interrupted_lt a time hbefore
    rcases mem_runs_of_step hstep hr with ⟨q, hq, htoken, hsame, hended⟩ | hnow
    · rw [← hsame] at harmed
      rcases h a time hbefore q hq harmed with ⟨t, ht, hlt⟩ | htripped
      · exact Or.inl ⟨t, hended t ht, hlt⟩
      · rw [← htoken]
        exact Or.inr (hkeeps.isCancelled _ htripped)
    · omega
  · -- the run that has not ended is the one that is cancelled
    rw [hruns] at hr
    cases hended : r.ended with
    | none =>
      rw [hforest]
      exact Or.inr (htracked.cancels reason (htracked.unfinished r hr hended))
    | some t => exact Or.inl ⟨t, hended, htracked.ended_lt r hr t hended⟩

/-! ## The main result

  Both invariants from the start on, and the theorem for any history. -/

section Main

variable {config : TargetConfig} {file : Path} {services : TargetServices}

/-- All that is kept from step to step. -/
structure Sound (config : TargetConfig) (file : Path) (services : TargetServices) (s : Clients) : Prop where
  /-- The pipelines in use were planned by the target. -/
  planned : Planned config file services s
  /-- The runs are those of the target. -/
  tracked : Tracked s
  /-- Invalidations are honoured. -/
  honoured : Honoured s
  /-- Runs that they find are cut short. -/
  cutShort : CutShort s

/-- Every step keeps it all. -/
theorem Sound.step {e : Event} (h : Sound config file services s) (hstep : s.step e = some s') :
    Sound config file services s' where
  planned := h.planned.step hstep
  tracked := h.tracked.step h.planned hstep
  honoured := h.honoured.step hstep
  cutShort := h.cutShort.step h.honoured h.tracked hstep

/-- At the start there are no calls and no runs. -/
theorem calls_of_open {tree : FileTree} {host : HostGraph} {forest : Forest}
    (h : open? config file services tree host forest = .ok s) : s.calls = [] ∧ s.runs = [] := by
  obtain ⟨next, -, rfl⟩ := exists_of_open h
  exact ⟨rfl, rfl⟩

/-- At the start all of this holds. -/
theorem sound_of_open {tree : FileTree} {host : HostGraph} {forest : Forest}
    (h : open? config file services tree host forest = .ok s) : Sound config file services s := by
  obtain ⟨hplanned, htracked⟩ := planned_of_open h
  obtain ⟨hcalls, hruns⟩ := calls_of_open h
  -- at the start no configuration has been stored, and no run made
  have hstored (a : Nat) : ¬ s.Stored a := by
    rintro ⟨c, hc, -⟩
    rw [hcalls] at hc
    cases hc
  have hinterrupted (a time : Nat) : ¬ s.Interrupted a time := fun ha => hstored a ha.stored
  refine ⟨hplanned, htracked, ⟨?_, ?_, ?_, ?_, ?_, ?_⟩, ?_⟩
  · exact fun a ha => absurd ha (hstored a)
  · exact fun a time ha => absurd ha (hinterrupted a time)
  · intro r hr
    rw [hruns] at hr
    cases hr
  · exact fun a ha => absurd ha (hstored a)
  · exact fun a time ha => absurd ha (hinterrupted a time)
  · exact fun a time ha => absurd ha (hinterrupted a time)
  · exact fun a time ha => absurd ha (hinterrupted a time)

/-- A build that returns does not take the flag away, and sets it when it could not plan. -/
theorem invalidated_of_return (hs : s.served = some (i, v)) (hstep : s.step .serve = some s')
    (hreturn : s'.served = none) (hflag : s.target.invalidated = true ∨ ∃ error, v = .refused error) :
    s'.target.invalidated = true := by
  rw [step_serve hs, Option.some.injEq] at hstep
  subst hstep
  have hset (hne : ∀ error, v ≠ .refused error) : s.target.invalidated = true := by
    rcases hflag with hset | ⟨error, rfl⟩
    · exact hset
    · exact absurd rfl (hne error)
  -- a refused build sets the flag, and whatever else returns leaves it
  cases v with
  | refused e => rfl
  | admitted kind =>
    have htarget : (s.serve i (.admitted kind)).target = s.target := by
      cases kind <;> rw [Clients.serve] <;> split <;> rfl
    show (s.serve i (.admitted kind)).target.invalidated = true
    rw [htarget]
    exact hset fun _ heq => by cases heq
  | opened token =>
    have htarget : (s.serve i (.opened token)).target = s.target := by
      rw [Clients.serve]
      split <;> rfl
    show (s.serve i (.opened token)).target.invalidated = true
    rw [htarget]
    exact hset fun _ heq => by cases heq
  | plans token began =>
    rw [Clients.serve] at hreturn
    split at hreturn <;> cases hreturn
  | runs token | cleans => exact hset fun _ heq => by cases heq
  | loaded | locked | planned | ready | armed => cases hreturn

/-- **No invalidation is lost.** -/
theorem no_invalidation_lost {tree : FileTree} {host : HostGraph} {forest : Forest} {s₀ : Clients}
    {events : List Event} (hopen : open? config file services tree host forest = .ok s₀)
    (hrun : s₀.follow events = some s) :
    -- runs that an invalidation finds have tripped tokens, and later runs have pipelines planned after its flag was set
    (∀ a time, s.Interrupted a time →
      (∀ r ∈ s.runs, r.armed < time → r.IsOver time ∨ s.forest.isCancelled r.token = true) ∧
      (∀ r ∈ s.runs, time < r.armed → a < r.planning.began)) ∧
    (∀ r ∈ s.runs, ∃ next, BuildTarget.configure config file services r.planning.tree = .ok next ∧
      r.pipeline = next.pipeline.arm r.token) ∧
    -- an invalidation is pending until a planning has succeeded that began later
    (∀ a, s.Stored a → s.isFree = true → s.target.invalidated = true ∨ a < s.planning.began) ∧
    (∀ a i token project, s.Stored a → s.served = some (i, .locked token project) → ¬ a < s.planning.began →
      a < s.clock ∧ ∃ s', s.step .serve = some s' ∧ s'.served = some (i, .plans token s.clock)) ∧
    (∀ i v s', s.served = some (i, v) → s.step .serve = some s' → s'.served = none →
      s.target.invalidated = true ∨ (∃ error, v = .refused error) → s'.target.invalidated = true) := by
  have hsound : Sound config file services s := holds_of_follow Sound.step (sound_of_open hopen) hrun
  refine ⟨?_, hsound.planned.runs, ?_, ?_, ?_⟩
  · intro a time ha
    exact ⟨hsound.cutShort a time ha, hsound.honoured.later a time ha⟩
  · intro a ha hfree
    exact (hsound.honoured.pending a ha).imp_right fun hnew => hnew _ (since_of_isFree hfree)
  · intro a i token project ha hs hold
    refine ⟨hsound.honoured.stored_lt a ha, _, step_serve hs, ?_⟩
    rcases hsound.honoured.pending a ha with hset | hnew
    · show some (i, s.afterFlag token project) = some (i, .plans token s.clock)
      rw [afterFlag, hset]
      rfl
    · exact absurd (hnew _ (since_of_served hs)) hold
  · intro i v s' hs hstep hreturn hflag
    exact invalidated_of_return hs hstep hreturn hflag

/-! ## An invalidation between taking the flag and arming

  A history in which an invalidation sets the flag just after a build has taken it. -/

/-- A project with nothing but its build backend. -/
def plainTree : FileTree where
  entries := [(["pyproject.toml"],
    .file (Utf8.encode "[build-system]\nbuild-backend = \"hatchling.build\"\n") .plain)]

/-- A new target of that project. -/
def plainStart : Except BuildError Clients :=
  open? { projectFile := ⟨"/pyproject.toml"⟩ } ⟨"/pyproject.toml"⟩ ⟨.standard, .standard, 0⟩ plainTree {} {}

/-- The state after these events on a new target. -/
def reached (events : List Event) : Option Clients := plainStart.toOption.bind fun s => s.follow events

/-- The state after events is reached from the start. -/
theorem exists_of_reached {events : List Event} (h : reached events = some s) :
    ∃ s₀, plainStart = .ok s₀ ∧ s₀.follow events = some s := by
  obtain ⟨s₀, hstart, hrun⟩ := Option.bind_eq_some_iff.mp h
  exact ⟨s₀, eq_ok_of_toOption hstart, hrun⟩

/-- Two builds; an invalidation sets the flag when the first has just taken it, and cancels after it has armed its run. -/
def crossing : List Event :=
  [.call (.serve .build), .go 0, .go 0, .serve, .serve, .serve, .serve, .call (.invalidate "edited"), .go 1,
    .serve, .go 1, .serve, .serve, .call (.serve .build), .go 2, .go 2, .serve, .serve, .serve, .serve, .serve, .serve,
    .serve]

/-- What can be seen of invalidations and of runs. -/
def times (s : Clients) : List (Nat × Nat) × List (TokenId × Nat × Option Nat × Nat) :=
  (s.calls.filterMap fun
      | .cancelled (some a) time => some (a, time)
      | _ => none,
    s.runs.map fun r => (r.token, r.armed, r.ended, r.planning.began))

/-- What can be seen after these events on a new target of the project. -/
def seen (events : List Event) : Option (List (Nat × Nat) × List (TokenId × Nat × Option Nat × Nat)) :=
  (reached events).map times

set_option synthInstance.maxSize 256 in
/-- In this history one invalidation has interrupted, and there were two runs. -/
theorem seen_crossing : seen crossing = some ([(9, 11)], [(0, 10, some 13, 0), (1, 23, none, 20)]) := by
  decide +kernel

/-- Here the first run is cut short by the invalidation, and the second was planned after it. -/
theorem no_invalidation_lost_crossing : ∃ s₀ s r q, plainStart = .ok s₀ ∧ s₀.follow crossing = some s ∧
    s.Interrupted 9 11 ∧
    (r ∈ s.runs ∧ r.armed = 10 ∧ r.ended = some 13 ∧ s.forest.isCancelled r.token = true) ∧
    (q ∈ s.runs ∧ q.armed = 23 ∧ 9 < q.planning.began) := by
  obtain ⟨s, hs, htimes⟩ := Option.map_eq_some_iff.mp seen_crossing
  obtain ⟨s₀, hopen, hrun⟩ := exists_of_reached hs
  have hcalls := congrArg Prod.fst htimes
  have hruns := congrArg Prod.snd htimes
  -- the configuration that was stored while the first run was on
  have hcut : s.Interrupted 9 11 := by
    have hmem : (9, 11) ∈ s.times.1 := by
      rw [hcalls]
      exact List.mem_singleton.mpr rfl
    obtain ⟨c, hc, hseen⟩ := List.mem_filterMap.mp hmem
    split at hseen
    · cases hseen
      exact hc
    · cases hseen
  have hfirst : ∃ r ∈ s.runs, (r.token, r.armed, r.ended, r.planning.began) = (0, 10, some 13, 0) := by
    have hmem : (0, 10, some 13, 0) ∈ s.times.2 := by
      rw [hruns]
      exact List.mem_cons_self
    exact List.mem_map.mp hmem
  have hsecond : ∃ q ∈ s.runs, (q.token, q.armed, q.ended, q.planning.began) = (1, 23, none, 20) := by
    have hmem : (1, 23, none, 20) ∈ s.times.2 := by
      rw [hruns]
      exact List.mem_cons_of_mem _ List.mem_cons_self
    exact List.mem_map.mp hmem
  obtain ⟨r, hr, hrtimes⟩ := hfirst
  obtain ⟨q, hq, hqtimes⟩ := hsecond
  simp only [Prod.mk.injEq] at hrtimes hqtimes
  obtain ⟨hcuts, -⟩ := no_invalidation_lost hopen hrun
  obtain ⟨hbefore, hafter⟩ := hcuts 9 11 hcut
  refine ⟨s₀, s, r, q, hopen, hrun, hcut, ⟨hr, hrtimes.2.1, hrtimes.2.2.1, ?_⟩, hq, hqtimes.2.1, hafter q hq (by omega)⟩
  rcases hbefore r hr (by omega) with ⟨t, ht, hlt⟩ | htripped
  · rw [hrtimes.2.2.1] at ht
    cases ht
    omega
  · exact htripped

end Main

end Clients

end Wheelwright
