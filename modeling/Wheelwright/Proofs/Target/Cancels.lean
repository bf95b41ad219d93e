/-
  Cancels of a target — a cancel reaches the run that goes on, and no other.

  **Specification** — a cancel answers that there was a run exactly if one was armed and has not ended.  Then it
  trips the token of that run and the token of no other build, and else it trips nothing.  Every run is armed with
  an untripped token that no other run has had, and that token is tripped by nothing but a cancel that makes its
  step while the run is armed or in progress.

  **Program** — the pipeline knows the token of the run.  A build sets it when it arms the run and once more when
  the run begins, and takes it out at the end; a newly planned pipeline knows none.

  **The crux** — a build makes its token itself and gives it to its run alone.  So no callback trips it
  (`Forest.Apart`), and as long as the pipeline is not armed with it no cancel can find it (`Private`).
-/
import Mathlib.Data.List.Induction
import Wheelwright.Proofs.Cancellation.Apart
import Wheelwright.Proofs.Target.Invalidation

namespace Wheelwright

/-- Why the call cancels in its next step, if it does. -/
def ClientCall.cancels? : ClientCall → Option String
  | .cancels reason _ => some reason
  | .unregisters => some BuildTarget.closeReason
  | _ => none

namespace Clients

variable {s s' s₀ u : Clients} {e : Event} {events more : List Event} {i : Nat} {id : TokenId}

/-! ## The tokens of builds -/

/-- The token of the build that is served. -/
def serving? (s : Clients) : Option TokenId := s.served.bind fun x => x.2.token?

/-- The tokens of all runs so far. -/
def runTokens (s : Clients) : List TokenId := s.runs.map TargetRun.token

/-- The tokens of builds: of the one that is served, and of the runs. -/
def owned (s : Clients) : List TokenId := s.serving?.toList ++ s.runTokens

/-- The call cancels in its next step. -/
def Cancels (s : Clients) (i : Nat) (reason : String) : Prop :=
  ∃ c, s.calls[i]? = some c ∧ c.cancels? = some reason

/-- A token of a build is that of the one that is served, or that of a run. -/
theorem mem_owned : id ∈ s.owned ↔ s.serving? = some id ∨ id ∈ s.runTokens := by
  rw [owned, List.mem_append, Option.mem_toList]

/-! ## Others

  The tokens of builds are made by the target, but others might have guessed them.  It is asked of these others that
  they neither trip such a token nor register callbacks that would. -/

/-- Others have no part in the tokens of builds: they leave their reasons, and no callback trips one of them, nor
    one that there will be. -/
structure Discreet (s : Clients) (forest : Forest) : Prop where
  /-- It has tripped none of these tokens. -/
  reason : ∀ id ∈ s.owned, forest.reason? id = s.forest.reason? id
  /-- It has linked none of them to others. -/
  apart : ∀ id ∈ s.owned, forest.Apart id
  /-- It knows no token that there is not. -/
  contained : forest.Contained

/-- Whether others are discreet can be decided. -/
instance (s : Clients) (forest : Forest) : Decidable (s.Discreet forest) :=
  decidable_of_iff ((∀ id ∈ s.owned, forest.reason? id = s.forest.reason? id) ∧
      (∀ id ∈ s.owned, forest.Apart id) ∧ forest.Contained)
    ⟨fun h => ⟨h.1, h.2.1, h.2.2⟩, fun h => ⟨h.reason, h.apart, h.contained⟩⟩

/-- If others do something, they are discreet. -/
def Spares (s : Clients) : Event → Prop
  | .elsewhere _ forest => s.Discreet forest
  | _ => True

/-- Whether an event leaves the tokens alone can be decided. -/
instance (s : Clients) (e : Event) : Decidable (s.Spares e) :=
  match e with
  | .elsewhere _ forest => inferInstanceAs (Decidable (s.Discreet forest))
  | .call _ | .go _ | .serve => inferInstanceAs (Decidable True)

/-- Others are discreet all the time. -/
def Undisturbed (s : Clients) : List Event → Prop
  | [] => True
  | e :: rest => s.Spares e ∧ ∀ u ∈ s.step e, u.Undisturbed rest

/-- Whether a history is undisturbed can be decided. -/
instance decidableUndisturbed (s : Clients) : (events : List Event) → Decidable (s.Undisturbed events)
  | [] => inferInstanceAs (Decidable True)
  | e :: rest =>
    have : DecidablePred fun u : Clients => u.Undisturbed rest := fun u => u.decidableUndisturbed rest
    inferInstanceAs (Decidable (s.Spares e ∧ ∀ u ∈ s.step e, u.Undisturbed rest))

/-! ## What a step does to tokens and runs

  A step changes the tokens, the runs and the call that is served, and most steps only one of these.  The relation has
  one case for each way in which they may change together. -/

/-- Every step is one of these. -/
inductive Turns (s : Clients) : Event → Clients → Prop
  /-- Tokens and runs stay as they are. -/
  | rests {e : Event} {u : Clients} (hforest : u.forest = s.forest) (hruns : u.runs = s.runs)
      (hrunning : u.running? = s.running?) (hserving : u.serving? = s.serving? ∨ u.serving? = none) : Turns s e u
  /-- A build gets a token, which is new. -/
  | creates {u : Clients} (hidle : s.running? = none) (hforest : u.forest = s.forest.create.1)
      (hruns : u.runs = s.runs) (hrunning : u.running? = none)
      (hserving : u.serving? = some s.forest.tokens.length) : Turns s .serve u
  /-- A run is armed with the token of its build. -/
  | arms {i : Nat} {r : TargetRun} {u : Clients} (hs : s.served = some (i, .ready r.token))
      (harmed : r.armed = s.clock) (hopen : r.ended = none) (hforest : u.forest = s.forest)
      (hruns : u.runs = s.runs ++ [r]) (hrunning : u.running? = some r.token)
      (hserving : u.serving? = some r.token) : Turns s .serve u
  /-- A run ends, and keeps its token. -/
  | ends {f : TargetRun → TargetRun} {u : Clients} (hforest : u.forest = s.forest)
      (hruns : u.runs = s.runs.map f) (hsame : ∀ r, (f r).token = r.token ∧ (f r).armed = r.armed)
      (hrunning : u.running? = none) (hserving : u.serving? = none) : Turns s .serve u
  /-- A cancel trips what the target says. -/
  | cancels {i : Nat} {reason : String} {u : Clients} (hc : s.Cancels i reason)
      (hforest : u.forest = (s.target.cancel reason s.forest).1) (hruns : u.runs = s.runs)
      (hserved : u.served = s.served) : Turns s (.go i) u
  /-- Others do something to tokens. -/
  | elsewhere {tree : FileTree} {forest : Forest} {u : Clients} (hforest : u.forest = forest)
      (hruns : u.runs = s.runs) (hserved : u.served = s.served)
      (hlength : s.forest.tokens.length ≤ forest.tokens.length) : Turns s (.elsewhere tree forest) u

/-- Which run is in progress depends on who is served. -/
theorem running?_congr (h : u.served = s.served) : u.running? = s.running? :=
  congrArg (fun served : Option (Nat × Service) => served.bind fun x => x.2.running?) h

/-- So does the token of the build. -/
theorem serving?_congr (h : u.served = s.served) : u.serving? = s.serving? :=
  congrArg (fun served : Option (Nat × Service) => served.bind fun x => x.2.token?) h

/-- A call that goes on turns them so. -/
theorem turns_proceed {c : ClientCall} (hc : s.calls[i]? = some c) (hp : s.proceed i c = some u) :
    Turns s (.go i) u.tick := by
  -- only cancels and closing calls reach for tokens
  cases c with
  | asks kind | closes =>
    rw [proceed] at hp
    split at hp <;> cases hp <;> exact .rests rfl rfl rfl (Or.inl rfl)
  | waits kind =>
    rw [proceed] at hp
    split at hp
    · cases hp
    · rename_i hidle
      cases hp
      rw [Bool.not_eq_true, Option.isSome_eq_false_iff, Option.isNone_iff_eq_none] at hidle
      refine .rests rfl rfl ?_ (Or.inr rfl)
      rw [running?, running?, hidle]
      rfl
  | invalidates reason =>
    cases hp
    exact .rests rfl rfl rfl (Or.inl rfl)
  | cancels reason stored | unregisters =>
    rw [proceed] at hp
    split at hp <;> cases hp
    exact .cancels ⟨_, hc, rfl⟩ rfl rfl rfl
  | served | returned _ | cancelled _ _ | closed _ => cases hp

/-- What is served turns them so. -/
theorem turns_serve {v : Service} (hs : s.served = some (i, v)) : Turns s .serve (s.serve i v).tick := by
  have hrunning : s.running? = v.running? := running?_of_served hs
  have hserving : s.serving? = v.token? := by
    rw [serving?, hs]
    rfl
  have hleaves {error : Option BuildError} (h : none = v.running?) : Turns s .serve (s.leave i error).tick :=
    .rests rfl rfl (h.trans hrunning.symm) (Or.inr rfl)
  have hgoes {w : Service} (hrun : w.running? = v.running?) (htoken : w.token? = v.token? ∨ w.token? = none) :
      Turns s .serve (s.withService i w).tick :=
    .rests rfl rfl (hrun.trans hrunning.symm) (htoken.imp_left fun h => h.trans hserving.symm)
  -- on the stage that the service is at; a token is made at the first, a run is armed at the last but one
  cases v with
  | admitted kind =>
    cases kind with
    | build =>
      rw [serve]
      split
      · exact hleaves rfl
      · exact .creates hrunning rfl rfl rfl rfl
    | clean =>
      rw [serve]
      split
      · exact hleaves rfl
      · exact hgoes rfl (Or.inl rfl)
  | opened token =>
    rw [serve]
    split
    · exact hleaves rfl
    · exact hgoes rfl (Or.inl rfl)
  | loaded token project => exact hgoes rfl (Or.inl rfl)
  | locked token project =>
    have hnext : (s.afterFlag token project).running? = none ∧ (s.afterFlag token project).token? = some token := by
      rcases afterFlag_cases s token project with hnext | hnext <;> rw [hnext] <;> exact ⟨rfl, rfl⟩
    exact .rests rfl rfl (hnext.1.trans hrunning.symm) (Or.inl (hnext.2.trans hserving.symm))
  | plans token began =>
    rw [serve]
    split
    · exact hgoes rfl (Or.inr rfl)
    · exact hgoes rfl (Or.inl rfl)
  | refused e => exact .rests rfl rfl hrunning.symm (Or.inr rfl)
  | planned token planning next => exact .rests rfl rfl hrunning.symm (Or.inl hserving.symm)
  | ready token =>
    exact .arms (r := ⟨token, s.target.pipeline.arm token, s.planning, s.clock, none⟩) hs rfl rfl rfl rfl rfl rfl
  | armed token => exact .rests rfl rfl hrunning.symm (Or.inl hserving.symm)
  | runs token =>
    refine .ends rfl rfl (fun r => ?_) rfl rfl
    split <;> exact ⟨rfl, rfl⟩
  | cleans => exact hleaves rfl

/-- Every step turns them so. -/
theorem turns_of_step (h : s.step e = some s') : Turns s e s' := by
  obtain ⟨u, hu, rfl⟩ := Option.map_eq_some_iff.mp h
  -- a demand, a step of a caller, one of the service, or one of the run
  cases e with
  | call d =>
    cases hu
    exact .rests rfl rfl rfl (Or.inl rfl)
  | go i =>
    obtain ⟨c, hc, hp⟩ := Option.bind_eq_some_iff.mp hu
    exact turns_proceed hc hp
  | serve =>
    obtain ⟨⟨i, v⟩, hserved, rfl⟩ := Option.map_eq_some_iff.mp hu
    exact turns_serve hserved
  | elsewhere tree forest =>
    rw [act] at hu
    split at hu
    · rename_i hkeeps
      cases hu
      exact .elsewhere rfl rfl rfl (keeps_of_keepsTokens hkeeps).length
    · cases hu

/-! ## Tokens that nobody else knows

  Nobody but the run knows its token, so no callback names it.  That is kept while tokens are made, tripped and given
  children. -/

/-- The token of a build is known to its run alone, and it is untripped until that is armed. -/
structure Private (s : Clients) : Prop where
  /-- The run in progress is one that has not ended. -/
  running : ∀ id, s.running? = some id → ∃ r ∈ s.runs, r.token = id ∧ r.ended = none
  /-- No two runs have the same token. -/
  nodup : s.runTokens.Nodup
  /-- All tokens are there. -/
  lt : ∀ id ∈ s.owned, id < s.forest.tokens.length
  /-- None is linked to another. -/
  apart : ∀ id ∈ s.owned, s.forest.Apart id
  contained : s.forest.Contained
  /-- The token of a build that has not armed its run is untripped and new. -/
  coming : ∀ id, s.serving? = some id → s.running? = none → s.forest.isCancelled id = false ∧ id ∉ s.runTokens

/-- A call that cancels does what the target does. -/
theorem forest_of_cancels {reason : String} (hc : s.Cancels i reason) (hstep : s.step (.go i) = some s') :
    s'.forest = (s.target.cancel reason s.forest).1 := by
  obtain ⟨c, hcall, hreason⟩ := hc
  rw [step, act, hcall, Option.bind_some] at hstep
  cases c with
  | cancels _ _ | unregisters =>
    cases hreason
    rw [proceed] at hstep
    split at hstep <;> cases hstep
    rfl
  | _ => cases hreason

/-- What a cancel does to the tokens. -/
theorem Tracked.forest_cancel (h : Tracked s) (reason : String) : s.target.cancel reason s.forest =
    match s.running? with
    | some id => (s.forest.cancel id reason, true)
    | none => (s.forest, false) := by
  have hcurrent := h.current
  cases hrunning : s.running? with
  | none =>
    rw [hrunning] at hcurrent
    rw [BuildTarget.cancel, Pipeline.cancel, hcurrent]
  | some id =>
    rw [hrunning] at hcurrent
    rw [BuildTarget.cancel, Pipeline.cancel, hcurrent]

namespace Private

/-- The runs stay, and the tokens of builds are as they were. -/
theorem congr (h : Private s) (hruns : u.runs = s.runs) (hrunning : u.running? = s.running?)
    (hserving : u.serving? = s.serving? ∨ u.serving? = none)
    (hlength : s.forest.tokens.length ≤ u.forest.tokens.length) (happart : ∀ id ∈ s.owned, u.forest.Apart id)
    (hcontained : u.forest.Contained)
    (hcoming : ∀ id, s.serving? = some id → s.running? = none → u.forest.isCancelled id = s.forest.isCancelled id) :
    Private u := by
  -- the same runs have the same tokens, and the build has its own or none
  have htokens : u.runTokens = s.runTokens := congrArg (List.map TargetRun.token) hruns
  have howned : ∀ id ∈ u.owned, id ∈ s.owned := by
    intro id hid
    rw [mem_owned, htokens] at hid
    refine mem_owned.mpr (hid.imp_left fun hu => ?_)
    rcases hserving with hserving | hserving
    · rw [← hserving, hu]
    · rw [hserving] at hu
      cases hu
  refine ⟨fun id hid => ?_, htokens ▸ h.nodup, fun id hid => ?_, fun id hid => happart id (howned id hid),
    hcontained, fun id hid hidle => ?_⟩
  · rw [hruns]
    exact h.running id (hrunning ▸ hid)
  · exact Nat.lt_of_lt_of_le (h.lt id (howned id hid)) hlength
  · rcases hserving with hserving | hserving
    · rw [hserving] at hid
      rw [hrunning] at hidle
      rw [hcoming id hid hidle, htokens]
      exact h.coming id hid hidle
    · rw [hserving] at hid
      cases hid

/-- A build makes its token. -/
theorem creates (h : Private s) (hforest : u.forest = s.forest.create.1) (hruns : u.runs = s.runs)
    (hrunning : u.running? = none) (hserving : u.serving? = some s.forest.tokens.length) : Private u := by
  have htokens : u.runTokens = s.runTokens := congrArg (List.map TargetRun.token) hruns
  have hold : ∀ id ∈ u.runTokens, id ∈ s.owned := fun id hid => mem_owned.mpr (Or.inr (htokens ▸ hid))
  -- the new token is the next one, which nobody knows
  have hnew : ∀ id ∈ u.owned, id = s.forest.tokens.length ∨ id ∈ s.owned := by
    intro id hid
    rw [mem_owned, hserving] at hid
    exact hid.imp (fun heq => (Option.some.inj heq).symm) (hold id)
  refine ⟨fun id hid => ?_, htokens ▸ h.nodup, fun id hid => ?_, fun id hid => ?_, ?_, fun id hid _ => ?_⟩
  · rw [hrunning] at hid
    cases hid
  · rw [hforest, Forest.length_create]
    rcases hnew id hid with rfl | hid
    · exact Nat.lt_succ_self _
    · exact Nat.lt_succ_of_lt (h.lt id hid)
  · rw [hforest]
    rcases hnew id hid with rfl | hid
    · exact (Forest.contained_iff.mp h.contained _ (Nat.le_refl _)).create
    · exact (h.apart id hid).create
  · rw [hforest]
    exact h.contained.create
  · rw [hserving] at hid
    cases hid
    constructor
    · rw [hforest, Forest.isCancelled, Forest.reason?, Forest.token_create,
        Forest.token_of_length_le (Nat.le_refl _)]
      rfl
    · exact fun hmem => Nat.lt_irrefl _ (h.lt _ (hold _ hmem))

/-- A run is armed with the token of its build. -/
theorem arms {r : TargetRun} (h : Private s) (hs : s.served = some (i, .ready r.token)) (hopen : r.ended = none)
    (hforest : u.forest = s.forest) (hruns : u.runs = s.runs ++ [r]) (hrunning : u.running? = some r.token)
    (hserving : u.serving? = some r.token) : Private u := by
  have htokens : u.runTokens = s.runTokens ++ [r.token] := by rw [runTokens, hruns, List.map_append]; rfl
  have hready : s.serving? = some r.token := by rw [serving?, hs]; rfl
  have hidle : s.running? = none := running?_of_served hs
  -- the run takes the token that its build has had
  have howned : ∀ id ∈ u.owned, id ∈ s.owned := by
    intro id hid
    rw [mem_owned, htokens, hserving, List.mem_append, List.mem_singleton] at hid
    rcases hid with heq | hold | rfl
    · exact mem_owned.mpr (Or.inl (hready.trans heq))
    · exact mem_owned.mpr (Or.inr hold)
    · exact mem_owned.mpr (Or.inl hready)
  refine ⟨fun id hid => ?_, ?_, fun id hid => ?_, fun id hid => ?_, hforest ▸ h.contained, fun id _ hnone => ?_⟩
  · rw [hrunning] at hid
    refine ⟨r, ?_, Option.some.inj hid, hopen⟩
    rw [hruns]
    exact List.mem_append_right _ (List.mem_singleton_self r)
  · rw [htokens]
    refine List.nodup_append.mpr ⟨h.nodup, List.pairwise_singleton .., fun id hid other hother heq => ?_⟩
    rw [List.mem_singleton.mp hother] at heq
    exact (h.coming _ hready hidle).2 (heq ▸ hid)
  · rw [hforest]
    exact h.lt id (howned id hid)
  · rw [hforest]
    exact h.apart id (howned id hid)
  · rw [hrunning] at hnone
    cases hnone

/-- A run ends. -/
theorem ends {f : TargetRun → TargetRun} (h : Private s) (hforest : u.forest = s.forest)
    (hruns : u.runs = s.runs.map f) (hsame : ∀ r, (f r).token = r.token ∧ (f r).armed = r.armed)
    (hrunning : u.running? = none) (hserving : u.serving? = none) : Private u := by
  -- ending changes neither the tokens nor their order
  have htokens : u.runTokens = s.runTokens := by
    rw [runTokens, hruns, List.map_map]
    exact List.map_congr_left fun r _ => (hsame r).1
  have howned : ∀ id ∈ u.owned, id ∈ s.owned := by
    intro id hid
    rw [mem_owned, hserving, htokens] at hid
    exact mem_owned.mpr (Or.inr (hid.resolve_left (by simp)))
  refine ⟨fun id hid => ?_, htokens ▸ h.nodup, fun id hid => ?_, fun id hid => ?_, hforest ▸ h.contained,
    fun id hid => ?_⟩
  · rw [hrunning] at hid
    cases hid
  · rw [hforest]
    exact h.lt id (howned id hid)
  · rw [hforest]
    exact h.apart id (howned id hid)
  · rw [hserving] at hid
    cases hid

/-- **Every step keeps the tokens of builds private.** -/
theorem step (h : Private s) (htracked : Tracked s) (hspares : s.Spares e) (hturn : Turns s e s') : Private s' := by
  -- each case has its lemma above, except that a cancel or others may trip tokens
  cases hturn with
  | rests hforest hruns hrunning hserving =>
    refine h.congr hruns hrunning hserving ?_ ?_ ?_ ?_
    · exact Nat.le_of_eq (by rw [hforest])
    · rw [hforest]
      exact h.apart
    · rw [hforest]
      exact h.contained
    · exact fun _ _ _ => by rw [hforest]
  | creates _ hforest hruns hrunning hserving => exact h.creates hforest hruns hrunning hserving
  | arms hs _ hopen hforest hruns hrunning hserving => exact h.arms hs hopen hforest hruns hrunning hserving
  | ends hforest hruns hsame hrunning hserving => exact h.ends hforest hruns hsame hrunning hserving
  | @cancels i reason u hc hforest hruns hserved =>
    rw [htracked.forest_cancel] at hforest
    refine h.congr hruns (running?_congr hserved) (Or.inl (serving?_congr hserved)) ?_ (fun id hid => ?_) ?_
      fun id _ hidle => ?_
    all_goals rw [hforest]
    · split
      · exact Nat.le_of_eq Forest.raises_trip.length.symm
      · exact Nat.le_refl _
    · split
      · exact (h.apart id hid).trip _ _
      · exact h.apart id hid
    · split
      · exact h.contained.trip _ _
      · exact h.contained
    · rw [hidle]
  | elsewhere hforest hruns hserved hlength =>
    have hdiscreet : s.Discreet s'.forest := hforest ▸ hspares
    refine h.congr hruns (running?_congr hserved) (Or.inl (serving?_congr hserved)) (hforest ▸ hlength)
      hdiscreet.apart hdiscreet.contained fun id hid _ => ?_
    rw [Forest.isCancelled, Forest.isCancelled, hdiscreet.reason id (mem_owned.mpr (Or.inl hid))]

/-- **Only a cancel trips the token of a build**, and only while its run goes on. -/
theorem reason?_of_step (h : Private s) (htracked : Tracked s) (hspares : s.Spares e) (hturn : Turns s e s')
    (hid : id ∈ s.owned) : s'.forest.reason? id = s.forest.reason? id ∨
      s.forest.isCancelled id = false ∧ s.running? = some id ∧ ∃ i reason, e = .go i ∧ s.Cancels i reason ∧
        s'.forest.reason? id = some (.requested reason) := by
  -- only a cancel touches a token of ours, and that is the one of the run in progress
  cases hturn with
  | rests hforest | arms _ _ _ hforest | ends hforest =>
    rw [hforest]
    exact Or.inl rfl
  | creates _ hforest =>
    rw [hforest, Forest.reason?, Forest.token_create]
    exact Or.inl rfl
  | elsewhere hforest =>
    have hdiscreet : s.Discreet s'.forest := hforest ▸ hspares
    exact Or.inl (hdiscreet.reason id hid)
  | @cancels i reason u hc hforest =>
    rw [htracked.forest_cancel] at hforest
    rw [hforest]
    cases hrunning : s.running? with
    | none => exact Or.inl rfl
    | some x =>
      dsimp only
      by_cases hx : id = x
      · subst hx
        cases hset : s.forest.isCancelled id with
        | true =>
          rw [Forest.cancel, Forest.trip_of_cancelled hset]
          exact Or.inl rfl
        | false =>
          exact Or.inr ⟨rfl, rfl, i, reason, rfl, hc, (h.apart id hid).reason?_trip_self (h.lt id hid) hset _⟩
      · exact Or.inl ((h.apart id hid).reason?_trip hx _)

end Private

/-! ## Histories

  When a run was armed and why its token was tripped are questions about the past.  They are answered by induction on
  the events from the end. -/

/-- A history with one more event. -/
theorem follow_concat : s.follow (events ++ [e]) = some s' ↔ ∃ u, s.follow events = some u ∧ u.step e = some s' := by
  -- on the events before the last
  induction events generalizing s with
  | nil =>
    rw [List.nil_append, follow_cons]
    constructor
    · rintro ⟨u, hu, hend⟩
      cases hend
      exact ⟨s, rfl, hu⟩
    · rintro ⟨u, hu, hstep⟩
      cases hu
      exact ⟨s', hstep, rfl⟩
  | cons first rest ih =>
    rw [List.cons_append, follow_cons]
    constructor
    · rintro ⟨v, hv, hrest⟩
      obtain ⟨u, hu, hstep⟩ := ih.mp hrest
      exact ⟨u, follow_cons.mpr ⟨v, hv, hu⟩, hstep⟩
    · rintro ⟨u, hu, hstep⟩
      obtain ⟨v, hv, hrest⟩ := follow_cons.mp hu
      exact ⟨v, hv, ih.mpr ⟨u, hrest, hstep⟩⟩

/-- A quiet history was quiet before its last event, and so was that event. -/
theorem Undisturbed.concat (h : s.Undisturbed (events ++ [e])) :
    s.Undisturbed events ∧ ∀ u, s.follow events = some u → u.Spares e := by
  induction events generalizing s with
  | nil =>
    refine ⟨trivial, fun u hu => ?_⟩
    cases hu
    exact h.1
  | cons first rest ih =>
    refine ⟨⟨h.1, fun v hv => (ih (h.2 v hv)).1⟩, fun u hu => ?_⟩
    obtain ⟨v, hv, hrest⟩ := follow_cons.mp hu
    exact (ih (h.2 v hv)).2 u hrest

section Histories

variable {config : TargetConfig} {file : Path} {services : TargetServices} (hsound : Sound config file services s₀)
  (hprivate : Private s₀)
include hsound hprivate

/-- After a quiet history tokens are private. -/
theorem private_of_follow (hquiet : s₀.Undisturbed events) (hrun : s₀.follow events = some s) :
    Sound config file services s ∧ Private s := by
  induction events generalizing s₀ with
  | nil =>
    cases hrun
    exact ⟨hsound, hprivate⟩
  | cons e rest ih =>
    obtain ⟨u, hu, hrest⟩ := follow_cons.mp hrun
    exact ih (hsound.step hu) (hprivate.step hsound.tracked hquiet.1 (turns_of_step hu)) (hquiet.2 u hu) hrest

variable (hnone : s₀.runs = [])
include hnone

/-- **Every run was armed with an untripped token of its own.** -/
theorem exists_arming (hquiet : s₀.Undisturbed events) (hrun : s₀.follow events = some s) {r : TargetRun}
    (hr : r ∈ s.runs) : ∃ pre post u i, events = pre ++ .serve :: post ∧ s₀.follow pre = some u ∧
      u.served = some (i, .ready r.token) ∧ r.armed = u.clock ∧ u.forest.isCancelled r.token = false ∧
      r.token ∉ u.runTokens := by
  -- the run was there before the last event, or that armed it
  induction events using List.reverseRecOn generalizing s r with
  | nil =>
    cases hrun
    rw [hnone] at hr
    exact absurd hr List.not_mem_nil
  | append_singleton events e ih =>
    obtain ⟨u, hu, hstep⟩ := follow_concat.mp hrun
    obtain ⟨hbefore, -⟩ := hquiet.concat
    have hold : ∀ q ∈ u.runs, q.token = r.token → q.armed = r.armed → ∃ pre post v i,
        events ++ [e] = pre ++ .serve :: post ∧ s₀.follow pre = some v ∧ v.served = some (i, .ready r.token) ∧
          r.armed = v.clock ∧ v.forest.isCancelled r.token = false ∧ r.token ∉ v.runTokens := by
      intro q hq htoken harmed
      obtain ⟨pre, post, v, i, rfl, hv⟩ := ih hbefore hu hq
      rw [htoken, harmed] at hv
      exact ⟨pre, post ++ [e], v, i, List.append_assoc .., hv⟩
    cases turns_of_step hstep with
    | rests _ hruns | creates _ _ hruns | cancels _ _ hruns | elsewhere _ hruns => exact hold r (hruns ▸ hr) rfl rfl
    | @arms i q _ hs harmed _ _ hruns =>
      rw [hruns, List.mem_append, List.mem_singleton] at hr
      rcases hr with hr | rfl
      · exact hold r hr rfl rfl
      · have hp := (private_of_follow hsound hprivate hbefore hu).2
        have hserving : u.serving? = some r.token := by rw [serving?, hs]; rfl
        have hfresh := hp.coming r.token hserving (running?_of_served hs)
        exact ⟨events, [], u, i, rfl, hu, hs, harmed, hfresh⟩
    | ends _ hruns hsame =>
      rw [hruns] at hr
      obtain ⟨q, hq, rfl⟩ := List.mem_map.mp hr
      exact hold q hq (hsame q).1.symm (hsame q).2.symm

/-- **The token of a run was tripped by a cancel that found the run.** -/
theorem exists_cancel (hquiet : s₀.Undisturbed events) (hrun : s₀.follow events = some s) (hid : id ∈ s.runTokens)
    (hset : s.forest.isCancelled id = true) : ∃ pre post i reason u q, events = pre ++ .go i :: post ∧
      s₀.follow pre = some u ∧ u.Cancels i reason ∧ q ∈ u.runs ∧ q.token = id ∧ q.ended = none ∧
      u.forest.isCancelled id = false ∧ s.forest.reason? id = some (.requested reason) := by
  -- as above: the token was tripped before the last event, or by it
  induction events using List.reverseRecOn generalizing s with
  | nil =>
    cases hrun
    rw [runTokens, hnone] at hid
    exact absurd hid List.not_mem_nil
  | append_singleton events e ih =>
    obtain ⟨u, hu, hstep⟩ := follow_concat.mp hrun
    obtain ⟨hbefore, hspares⟩ := hquiet.concat
    obtain ⟨hs, hp⟩ := private_of_follow hsound hprivate hbefore hu
    have hturn := turns_of_step hstep
    -- a token that was just armed is untripped
    have hmem : id ∈ u.runTokens := by
      obtain ⟨r, hr, rfl⟩ := List.mem_map.mp hid
      cases hturn with
      | rests _ hruns | creates _ _ hruns | cancels _ _ hruns | elsewhere _ hruns =>
        exact List.mem_map_of_mem (hruns ▸ hr)
      | @arms i q _ hready _ _ hforest hruns =>
        rw [hruns, List.mem_append, List.mem_singleton] at hr
        rcases hr with hr | rfl
        · exact List.mem_map_of_mem hr
        · have hserving : u.serving? = some r.token := by rw [serving?, hready]; rfl
          have hfresh := (hp.coming r.token hserving (running?_of_served hready)).1
          rw [hforest, hfresh] at hset
          cases hset
      | ends _ hruns hsame =>
        rw [hruns] at hr
        obtain ⟨q, hq, rfl⟩ := List.mem_map.mp hr
        rw [(hsame q).1]
        exact List.mem_map_of_mem hq
    rcases hp.reason?_of_step hs.tracked (hspares u hu) hturn (mem_owned.mpr (Or.inr hmem)) with
      hsame | ⟨huntripped, hrunning, i, reason, rfl, hcancels, hreason⟩
    · rw [Forest.isCancelled, hsame] at hset
      obtain ⟨pre, post, i, reason, v, q, rfl, hv, hcancels, hq, htoken, hopen, huntripped, hreason⟩ :=
        ih hbefore hu hmem hset
      exact ⟨pre, post ++ [e], i, reason, v, q, List.append_assoc .., hv, hcancels, hq, htoken, hopen, huntripped,
        hsame.trans hreason⟩
    · obtain ⟨q, hq, htoken, hopen⟩ := hp.running id hrunning
      exact ⟨events, [], i, reason, u, q, rfl, hu, hcancels, hq, htoken, hopen, huntripped, hreason⟩

end Histories

/-! ## The main result

  The parts of the law as a structure with named fields, the theorem, and one run that is stopped while another one is
  still to come. -/

/-- At the start nothing has run. -/
theorem private_of_open {config : TargetConfig} {file : Path} {services : TargetServices} {tree : FileTree}
    {host : HostGraph} {forest : Forest} (h : open? config file services tree host forest = .ok s)
    (hforest : forest.Contained) : Private s ∧ s.runs = [] := by
  obtain ⟨next, -, rfl⟩ := exists_of_open h
  refine ⟨⟨?_, List.nodup_nil, fun id hid => absurd hid List.not_mem_nil,
    fun id hid => absurd hid List.not_mem_nil, hforest, ?_⟩, rfl⟩
  · intro id hid
    cases hid
  · intro id hid
    cases hid

/-- The run that has not ended, if there is one. -/
theorem Private.running?_iff (h : Private s) (htracked : Tracked s) :
    s.running?.isSome = true ↔ ∃ r ∈ s.runs, r.ended = none := by
  constructor
  · intro hsome
    obtain ⟨id, hid⟩ := Option.isSome_iff_exists.mp hsome
    obtain ⟨r, hr, -, hopen⟩ := h.running id hid
    exact ⟨r, hr, hopen⟩
  · rintro ⟨r, hr, hopen⟩
    rw [htracked.unfinished r hr hopen]
    rfl

/-- What cancels and runs have to do with each other, after `events` that led from `s₀` to `s`. -/
structure CancelsReach (s₀ : Clients) (events : List Event) (s : Clients) : Prop where
  /-- A cancel answers whether a run is armed or in progress. -/
  answered : ∀ reason, (s.target.cancel reason s.forest).2 = true ↔ ∃ r ∈ s.runs, r.ended = none
  /-- It trips the token of that run and of no other, and trips nothing if there is none. -/
  trips : ∀ i reason s', s.Cancels i reason → s.step (.go i) = some s' →
    (∀ r ∈ s.runs, r.ended = none → s'.forest = s.forest.cancel r.token reason ∧
      s'.forest.isCancelled r.token = true ∧
      ∀ id ∈ s.owned, id ≠ r.token → s'.forest.reason? id = s.forest.reason? id) ∧
    ((∀ r ∈ s.runs, r.ended ≠ none) → s'.forest = s.forest)
  /-- Runs come one after the other. -/
  one_at_a_time : ∀ r ∈ s.runs, ∀ q ∈ s.runs, r.ended = none → q.ended = none → r.token = q.token
  own_tokens : s.runTokens.Nodup
  /-- Each is armed with a token of its own that was not tripped. -/
  armed : ∀ r ∈ s.runs, ∃ pre post u i, events = pre ++ .serve :: post ∧ s₀.follow pre = some u ∧
    u.served = some (i, .ready r.token) ∧ r.armed = u.clock ∧ u.forest.isCancelled r.token = false ∧
    r.token ∉ u.runTokens
  /-- Nothing but a cancel during the run trips that token. -/
  tripped : ∀ r ∈ s.runs, s.forest.isCancelled r.token = true → ∃ pre post i reason u q,
    events = pre ++ .go i :: post ∧ s₀.follow pre = some u ∧ u.Cancels i reason ∧ q ∈ u.runs ∧ q.token = r.token ∧
    q.ended = none ∧ u.forest.isCancelled r.token = false ∧ s.forest.reason? r.token = some (.requested reason)

/-- **A cancel reaches the run that goes on, and no other.** -/
theorem cancel_reaches_run {config : TargetConfig} {file : Path} {services : TargetServices} {tree : FileTree}
    {host : HostGraph} {forest : Forest} (hopen : open? config file services tree host forest = .ok s₀)
    (hforest : forest.Contained) (hquiet : s₀.Undisturbed events) (hrun : s₀.follow events = some s) :
    CancelsReach s₀ events s := by
  obtain ⟨hp₀, hnone⟩ := private_of_open hopen hforest
  obtain ⟨hs, hp⟩ := private_of_follow (sound_of_open hopen) hp₀ hquiet hrun
  have htracked := hs.tracked
  -- each part from the token of the run that the target keeps track of
  constructor
  case answered =>
    intro reason
    rw [← hp.running?_iff htracked, htracked.forest_cancel]
    cases s.running? <;> simp
  case trips =>
    intro i reason s' hcancels hstep
    refine ⟨fun r hr hopenr => ?_, fun hidle => ?_⟩
    · have hrunning := htracked.unfinished r hr hopenr
      have hmem : r.token ∈ s.owned := mem_owned.mpr (Or.inr (List.mem_map_of_mem hr))
      have hcancel : s'.forest = s.forest.cancel r.token reason := by
        rw [forest_of_cancels hcancels hstep, htracked.forest_cancel, hrunning]
      refine ⟨hcancel, ?_, fun id hid hne => ?_⟩
      · rw [hcancel]
        exact Forest.isCancelled_trip (hp.lt r.token hmem)
      · rw [hcancel]
        exact (hp.apart id hid).reason?_trip hne _
    · have hrunning : s.running? = none := by
        rw [← Option.not_isSome_iff_eq_none, hp.running?_iff htracked]
        rintro ⟨r, hr, hopenr⟩
        exact hidle r hr hopenr
      rw [forest_of_cancels hcancels hstep, htracked.forest_cancel, hrunning]
  case one_at_a_time =>
    intro r hr q hq hopenr hopenq
    have hfirst := htracked.unfinished r hr hopenr
    exact Option.some.inj (hfirst.symm.trans (htracked.unfinished q hq hopenq))
  case own_tokens => exact hp.nodup
  case armed => exact fun r hr => exists_arming (sound_of_open hopen) hp₀ hnone hquiet hrun hr
  case tripped =>
    exact fun r hr hset => exists_cancel (sound_of_open hopen) hp₀ hnone hquiet hrun (List.mem_map_of_mem hr) hset

/-- A build is cancelled in the middle of its run, while a stage has made a child of its token.  A cancel finds the
    target idle; then the project is edited, and a second build plans anew and arms its run. -/
def stopped : List Event :=
  [.call (.serve .build), .go 0, .go 0, .serve, .serve, .serve, .serve, .serve, .serve,
    .elsewhere plainTree { tokens := [{ callbacks := [.passOn 1] }, {}], handles := [1, 0] },
    .call (.cancel "stop"), .go 1, .serve, .call (.cancel "late"), .go 2,
    .elsewhere { entries := [(["pyproject.toml"],
      .file (Utf8.encode "[build-system]\nbuild-backend = \"flit_core.buildapi\"\n") .plain)] }
      { tokens := [{ reason := some (.requested "stop") }, { reason := some (.requested "stop") }],
        handles := [1, 0] },
    .call (.serve .build), .go 3, .go 3, .serve, .serve, .serve, .serve, .serve, .serve, .serve]

/-- Each run's token, whether it has ended, and why it was cancelled. -/
def fates (s : Clients) : List (TokenId × Bool × Option CancelReason) :=
  s.runs.map fun r => (r.token, r.ended.isSome, s.forest.reason? r.token)

/-- In the end the first run was stopped, and the second goes on. -/
theorem fates_stopped : (reached stopped).map fates =
    some [(0, true, some (.requested "stop")), (2, false, none)] := by
  decide +kernel

/-- The history is a quiet one. -/
theorem undisturbed_stopped : ∀ s₀ ∈ plainStart.toOption, s₀.Undisturbed stopped := by decide +kernel

/-- Here the first run was stopped by a cancel, and a cancel would now reach the second one. -/
theorem cancel_reaches_run_stopped : ∃ s₀ s, plainStart = .ok s₀ ∧ s₀.follow stopped = some s ∧
    (s.target.cancel "again" s.forest).2 = true ∧
    ∃ pre post i u, stopped = pre ++ .go i :: post ∧ s₀.follow pre = some u ∧ u.Cancels i "stop" := by
  obtain ⟨s, hreached, hfates⟩ := Option.map_eq_some_iff.mp fates_stopped
  obtain ⟨s₀, hopen, hrun⟩ := exists_of_reached hreached
  have hquiet : s₀.Undisturbed stopped := undisturbed_stopped s₀ (by rw [hopen]; rfl)
  have h := cancel_reaches_run hopen (by decide) hquiet hrun
  have hruns : ∀ x ∈ [(0, true, some (.requested "stop")), (2, false, none)],
      ∃ r ∈ s.runs, (r.token, r.ended.isSome, s.forest.reason? r.token) = x := by
    intro x hx
    rw [← hfates] at hx
    exact List.mem_map.mp hx
  obtain ⟨r, hr, hfirst⟩ := hruns _ List.mem_cons_self
  obtain ⟨q, hq, hsecond⟩ := hruns _ (List.mem_cons_of_mem _ List.mem_cons_self)
  simp only [Prod.mk.injEq] at hfirst hsecond
  obtain ⟨-, -, hreason⟩ := hfirst
  obtain ⟨-, hopenq, -⟩ := hsecond
  rw [Option.isSome_eq_false_iff, Option.isNone_iff_eq_none] at hopenq
  refine ⟨s₀, s, hopen, hrun, (h.answered "again").mpr ⟨q, hq, hopenq⟩, ?_⟩
  obtain ⟨pre, post, i, reason, u, -, heq, hu, hcancels, -, -, -, -, hstop⟩ :=
    h.tripped r hr (by rw [Forest.isCancelled, hreason]; rfl)
  rw [hreason] at hstop
  cases hstop
  exact ⟨pre, post, i, u, heq, hu, hcancels⟩

end Clients

end Wheelwright
