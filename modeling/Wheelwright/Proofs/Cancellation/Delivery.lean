/-
  Delivery — every callback of a tripped token is invoked once, whoever calls the token meanwhile.

  **Specification** — of each token: the flag never goes down, whoever sees it up finds the reason, and the
  reason is that of the first trip that took the lock.  Of each callback: it is invoked at most as often as
  it was registered, never before a trip, and exactly as often once all calls on a tripped token are over.
  And they come to an end: no thread waits for ever, and only callbacks can make more work.

  **The crux** — a registration looks at the flag and a trip takes the list out, and both happen under the
  lock of the callbacks.  So whatever is added is added before the list is taken out (`Sound.drained`), and
  a callback is always in one place only: in the list, in the hands of a call, or in the book of those
  invoked (`Sound.ledger`).
-/
import Wheelwright.Proofs.Cancellation.Threads

namespace Wheelwright.Threads

open TokenCall (holding raising draining adding afterTrip astray)

variable {s s' : Threads} {e : Event} {events : List Event} {id : TokenId} {c : Callback}

/-! ## The invariant

  The invariant is about one token and all calls that there are, for a call on another token may come back to this one
  through its callbacks. `ledger` is the balance of each callback: what was registered is what waits, what calls have
  in their hands, and what was invoked.  The other fields say in which order the reason, the flag and the list are
  dealt with. -/

/-- What is true of the token `id` after any steps. -/
structure Sound (s : Threads) (id : TokenId) : Prop where
  /-- Every registered callback is in one place. -/
  ledger : ∀ c, s.registered.count (id, c) =
    s.invoked.count (id, c) + (s.forest.token id).callbacks.count c + s.tally (holding id c)
  /-- The first trip that took the lock gave the reason. -/
  first : s.reason? id = s.taken.lookup id
  /-- Whoever sees the flag finds the reason. -/
  explained : s.isCancelled id = true → (s.reason? id).isSome = true
  /-- The flag follows the reason under the lock. -/
  rising : (s.reason? id).isSome = true → s.isCancelled id = true ∨ 0 < s.tally (raising id)
  /-- Nothing is invoked before a trip. -/
  quiet : s.reason? id = none → s.tally (afterTrip id) = 0 ∧ ∀ c, (id, c) ∉ s.invoked
  /-- What waits after a trip will be taken out. -/
  drained : (s.reason? id).isSome = true →
    0 < s.tally (draining id) ∨ (s.forest.token id).callbacks = [] ∧ s.tally (adding id) = 0

/-- All calls are on tokens that there are. -/
def Grounded (s : Threads) : Prop := s.tally (astray s.forest.tokens.length) = 0

/-- The token of a call that goes on is there. -/
theorem Grounded.lt {t : Nat} {call : TokenCall} {below : List TokenCall} (h : s.Grounded)
    (hstack : s.frames[t]? = some (call :: below)) : call.token < s.forest.tokens.length := by
  have hle := le_tally (astray s.forest.tokens.length) hstack
  rw [show s.tally (astray s.forest.tokens.length) = 0 from h, List.map_cons, List.sum_cons, astray] at hle
  split at hle
  · assumption
  · omega

/-- No step makes a token. -/
theorem Moves.length_tokens {old new : List TokenCall} (hm : Moves s e old new s') :
    s'.forest.tokens.length = s.forest.tokens.length := by
  cases hm with
  | setsReason | takesOut | adds => exact Forest.length_update
  | invokes => exact congrArg List.length Forest.tokens_note
  | _ => rfl

/-- Calls stay about tokens that there are: a call may only begin on one, and all others were there before. -/
theorem Grounded.step {old new : List TokenCall} (h : s.Grounded) (hm : Moves s e old new s') :
    s'.Grounded := by
  have hx := hm.exchange (astray s.forest.tokens.length)
  rw [show s.tally (astray s.forest.tokens.length) = 0 from h] at hx
  rw [Grounded, hm.length_tokens]
  cases hm with
  -- two calls begin: their token is there
  | trip hstack hcall hid | onCancel hstack hcall hid =>
    simp [astray, TokenCall.token, hid] at hx
    exact hx
  -- every other step goes on in a call that was there, and stays with its token
  | comesLate hstack | setsReason hstack | raisesFlag hstack | takesOut hstack | ends hstack | invokes hstack
  | findsUp hstack | findsDown hstack | adds hstack | leave hstack =>
    have hlt := h.lt hstack
    simp only [TokenCall.token] at hlt
    simp [astray, TokenCall.token, hlt] at hx
    exact hx

/-! ## What a step does to one token

  What a step does is asked here for one token and one callback, and the sums over all calls are brought along.
  Almost every move touches one call of one thread, so `Moves.exchange` gives the difference, and it is the token's
  own part that is left to compare. -/

variable {old new : List TokenCall}

/-- A step leaves the reason of a token as it is, unless it is the first trip that takes the lock. -/
theorem Moves.reason?_cases (hg : s.Grounded) (hm : Moves s e old new s') (id : TokenId) :
    s'.reason? id = s.reason? id ∨
      s.reason? id = none ∧ ∃ reason, s'.reason? id = some reason ∧ old = [.trips id reason] ∧
        new = [.raises id] ∧ s'.taken = s.taken ++ [(id, reason)] := by
  cases hm with
  -- only the step that sets the reason changes one, and that of its own token
  | @setsReason t below i reason hstack hunset =>
    by_cases hi : id = i
    · subst hi
      refine Or.inr ⟨hunset, reason, ?_, rfl, rfl, rfl⟩
      exact congrArg Token.reason (Forest.token_update_self (hg.lt hstack))
    · exact Or.inl (congrArg Token.reason (Forest.token_update_of_ne hi))
  -- callbacks are taken out or added: the reason of the token is left as it was
  | @takesOut t below i hstack | @adds t below i c hstack =>
    have hi : i < s.forest.tokens.length := hg.lt hstack
    left
    show ((s.forest.update i _).token id).reason = (s.forest.token id).reason
    rw [Forest.token_update hi]
    split
    · rename_i heq
      rw [heq]
    · rfl
  | invokes => exact Or.inl Forest.reason?_note
  | _ => exact Or.inl rfl

/-- A step leaves the flag of a token as it is, unless the first trip raises it. -/
theorem Moves.isCancelled_cases (hm : Moves s e old new s') (id : TokenId) :
    s'.isCancelled id = s.isCancelled id ∨ s'.isCancelled id = true ∧ old = [.raises id] ∧ new = [.drains id] := by
  cases hm with
  -- only the step that raises the flag changes one
  | @raisesFlag t below i hstack =>
    by_cases hi : id = i
    · subst hi
      exact Or.inr ⟨by simp [isCancelled, withStack], rfl, rfl⟩
    · left
      show (i :: s.raised).contains id = s.raised.contains id
      rw [List.contains_cons, beq_eq_false_iff_ne.mpr hi, Bool.false_or]
  | _ => exact Or.inl rfl

/-- **A callback is never lost or doubled**: what a step registers is what it puts in another place. -/
theorem Moves.account (hg : s.Grounded) (hm : Moves s e old new s') (id : TokenId) (c : Callback) :
    s'.registered.count (id, c) + (s.invoked.count (id, c) + (s.forest.token id).callbacks.count c +
        s.tally (holding id c)) =
      s.registered.count (id, c) + (s'.invoked.count (id, c) + (s'.forest.token id).callbacks.count c +
        s'.tally (holding id c)) := by
  -- what the thread holds before and after is told by the two lists of calls
  have hx := hm.exchange (holding id c)
  generalize s'.tally (holding id c) = after at hx ⊢
  cases hm with
  -- these steps concern no registration
  | trip | comesLate | raisesFlag | ends | leave =>
    simp [holding] at hx
    simp [hx]
  | findsDown =>
    simp [holding] at hx
    simp [hx]
  -- a registration begins: what is registered is held by its call
  | @onCancel t below i d =>
    simp [holding] at hx
    simp [List.count_singleton, hx]
    omega
  -- the token is tripped: the callback goes from the call that registers it to one that invokes it
  | @findsUp t below i d =>
    simp [holding, List.count_singleton] at hx
    simp
    grind
  -- an invocation: the callback goes from the call that holds it to what was invoked
  | @invokes t below i d rest =>
    simp [holding, List.count_cons] at hx
    simp [List.count_singleton]
    grind
  -- the reason changes, and with it no callback
  | @setsReason t below i reason hstack =>
    have hi : i < s.forest.tokens.length := hg.lt hstack
    simp [holding] at hx
    simp [Forest.token_update hi, hx]
    grind
  -- all callbacks of a token go from it to the call that drains it
  | @takesOut t below i hstack =>
    have hi : i < s.forest.tokens.length := hg.lt hstack
    simp [holding] at hx
    simp [Forest.token_update hi]
    grind
  -- the callback goes from the call to the token
  | @adds t below i d hstack =>
    have hi : i < s.forest.tokens.length := hg.lt hstack
    simp [holding] at hx
    simp [Forest.token_update hi]
    grind

/-- A trip is booked when it takes the lock, and the token has a reason after that. -/
theorem Moves.taken_cases (hg : s.Grounded) (hm : Moves s e old new s') :
    s'.taken = s.taken ∨ ∃ i reason, s'.taken = s.taken ++ [(i, reason)] ∧ (s'.reason? i).isSome = true := by
  cases hm with
  | comesLate hstack hset => exact Or.inr ⟨_, _, rfl, hset⟩
  | @setsReason t below i reason hstack =>
    refine Or.inr ⟨i, reason, rfl, ?_⟩
    show ((s.forest.update i _).token i).reason.isSome = true
    have hi : i < s.forest.tokens.length := hg.lt hstack
    rw [Forest.token_update_self hi]
    rfl
  | _ => exact Or.inl rfl

/-! ## Every step keeps the invariant

  One lemma for each field of the invariant.  The flag and the reason only go up, so a call that was possible because
  of them stays possible.  For the order of registration and trip both need the lock of the callbacks: a registration
  that holds it has seen the flag down, and the trip cannot take the list out before it is given back. -/

/-- A flag stays up. -/
theorem Moves.isCancelled_mono (hm : Moves s e old new s') (h : s.isCancelled id = true) :
    s'.isCancelled id = true := by
  rcases hm.isCancelled_cases id with hsame | ⟨hup, -⟩
  · rw [hsame, h]
  · exact hup

/-- The lock of the reason is given back when the flag is up. -/
theorem Moves.isCancelled_of_old (hm : Moves s e old new s') (hold : 0 < (old.map (raising id)).sum) :
    s'.isCancelled id = true := by
  cases hm with
  | @raisesFlag t below i hstack =>
    by_cases hi : i = id
    · simp [isCancelled, withStack, hi]
    · simp [raising, hi] at hold
  | _ => simp [raising] at hold

/-- The reason of a token stays. -/
theorem Moves.reason?_mono (hg : s.Grounded) (hm : Moves s e old new s')
    (h : (s.reason? id).isSome = true) : s'.reason? id = s.reason? id := by
  rcases hm.reason?_cases hg id with hsame | ⟨hnone, -⟩
  · exact hsame
  · rw [hnone] at h
    cases h

namespace Sound

variable (h : s.Sound id) (hm : Moves s e old new s')
include h hm

/-- A call that only a tripped token has shows that it was tripped. -/
theorem isSome_of_old (hold : 0 < (old.map (afterTrip id)).sum) : (s.reason? id).isSome = true := by
  have hle := hm.old_le (afterTrip id)
  cases hreason : s.reason? id with
  | some reason => rfl
  | none =>
    have hzero := (h.quiet hreason).1
    omega

variable (hg : s.Grounded)
include hg

/-- The reason of a token is that of the trip that came first. -/
theorem step_first : s'.reason? id = s'.taken.lookup id := by
  -- either no reason was set, and then a trip was late or none was tried, or this trip is the first
  rcases hm.reason?_cases hg id with hsame | ⟨hnone, reason, hnew, -, -, htaken⟩
  · rcases hm.taken_cases hg with htaken | ⟨i, reason, htaken, hsome⟩
    · rw [hsame, htaken, h.first]
    · rw [hsame, htaken, List.lookup_append, ← h.first]
      by_cases hi : id = i
      · -- a later trip changes nothing
        rw [← hi, hsame] at hsome
        obtain ⟨r, hr⟩ := Option.isSome_iff_exists.mp hsome
        rw [hr]
        rfl
      · rw [List.lookup_cons, beq_eq_false_iff_ne.mpr hi]
        simp
  · rw [hnew, htaken, List.lookup_append, ← h.first, hnone]
    simp

/-- A flag that is up has a reason. -/
theorem step_explained (hup : s'.isCancelled id = true) : (s'.reason? id).isSome = true := by
  have hset : (s.reason? id).isSome = true := by
    rcases hm.isCancelled_cases id with hsame | ⟨-, rfl, rfl⟩
    · exact h.explained (hsame ▸ hup)
    · exact h.isSome_of_old hm (by simp [afterTrip])
  rw [hm.reason?_mono hg hset]
  exact hset

/-- A reason without a flag is that of a trip that is about to raise it. -/
theorem step_rising (hset : (s'.reason? id).isSome = true) :
    s'.isCancelled id = true ∨ 0 < s'.tally (raising id) := by
  have hx := hm.exchange (raising id)
  -- the step is the one that raises the flag
  by_cases hold : 0 < (old.map (raising id)).sum
  · exact Or.inl (hm.isCancelled_of_old hold)
  · rcases hm.reason?_cases hg id with hsame | ⟨-, reason, -, -, rfl, -⟩
    · rw [hsame] at hset
      rcases h.rising hset with hup | hpos
      · exact Or.inl (hm.isCancelled_mono hup)
      · exact Or.inr (by omega)
    -- the step is the one that sets the reason: the next one raises the flag
    · right
      have hnew : (([.raises id] : List TokenCall).map (raising id)).sum = 1 := by simp [raising]
      omega

/-- Before its trip, a token has nobody that invokes its callbacks. -/
theorem step_quiet (hnone : s'.reason? id = none) :
    s'.tally (afterTrip id) = 0 ∧ ∀ c, (id, c) ∉ s'.invoked := by
  -- the token had no reason before the step
  have hunset : s.reason? id = none := by
    rcases hm.reason?_cases hg id with hsame | ⟨hunset, -⟩
    · rw [← hsame, hnone]
    · exact hunset
  obtain ⟨hzero, hinvoked⟩ := h.quiet hunset
  have hx := hm.exchange (afterTrip id)
  have hle := hm.old_le (afterTrip id)
  rw [hzero] at hx hle
  generalize s'.tally (afterTrip id) = after at hx ⊢
  -- each kind of step: it leaves the token alone, or it would have needed a reason
  cases hm with
  | trip | onCancel | comesLate | findsDown | adds | ends | leave =>
    simp [afterTrip] at hx
    exact ⟨by omega, hinvoked⟩
  | @setsReason t below i reason hstack =>
    have hi : i ≠ id := by
      rintro rfl
      have hlt : i < s.forest.tokens.length := hg.lt hstack
      rw [show Threads.reason? _ i = _ from congrArg Token.reason (Forest.token_update_self hlt)] at hnone
      cases hnone
    simp [afterTrip, hi] at hx
    exact ⟨hx, hinvoked⟩
  | @raisesFlag t below i | @takesOut t below i =>
    have hi : i ≠ id := by
      rintro rfl
      simp [afterTrip] at hle
    simp [afterTrip, hi] at hx
    exact ⟨hx, hinvoked⟩
  | @invokes t below i d =>
    have hi : i ≠ id := by
      rintro rfl
      simp [afterTrip] at hle
    simp [afterTrip, hi] at hx
    refine ⟨hx, fun c hc => ?_⟩
    rcases List.mem_append.mp hc with hbefore | hnow
    · exact hinvoked c hbefore
    · simp [hi.symm] at hnow
  -- a registration that finds the flag up has found a reason
  | @findsUp t below i d hstack hup =>
    have hi : i ≠ id := by
      rintro rfl
      have hsome := h.explained hup
      rw [hunset] at hsome
      cases hsome
    simp [afterTrip, hi] at hx
    exact ⟨hx, hinvoked⟩

/-- **What is added is added before the list is taken out.** -/
theorem step_drained (hset : (s'.reason? id).isSome = true) :
    0 < s'.tally (draining id) ∨ (s'.forest.token id).callbacks = [] ∧ s'.tally (adding id) = 0 := by
  have hd := hm.exchange (draining id)
  have ha := hm.exchange (adding id)
  have hle := hm.old_le (adding id)
  -- the token was tripped before this step, or just now
  rcases hm.reason?_cases hg id with hsame | ⟨-, reason, -, rfl, rfl, -⟩
  · rw [hsame] at hset
    have hbefore := h.drained hset
    generalize s'.tally (draining id) = drainsAfter at hd ⊢
    generalize s'.tally (adding id) = addsAfter at ha ⊢
    -- before: its callbacks are still to be taken out, or they are and nobody adds one
    cases hm with
    | trip | onCancel | comesLate | raisesFlag | ends | findsUp | leave =>
      simp [draining, adding] at hd ha
      rw [hd, ha]
      exact hbefore
    | invokes =>
      simp [draining, adding] at hd ha
      rw [hd, ha, forest_withStack, Forest.token_note]
      exact hbefore
    | @setsReason t below i reason hstack hunset =>
      have hi : id ≠ i := by
        rintro rfl
        rw [hunset] at hset
        cases hset
      simp [draining, adding, hi.symm] at hd ha
      rw [hd, ha, forest_withStack, Forest.token_update_of_ne hi]
      exact hbefore
    | @takesOut t below i hstack hfree =>
      by_cases hi : id = i
      · -- nobody holds the lock, so nobody adds after this
        subst hi
        have hlt : id < s.forest.tokens.length := hg.lt hstack
        simp [adding] at ha
        rw [forest_withStack, Forest.token_update_self hlt]
        exact Or.inr ⟨rfl, by omega⟩
      · simp [draining, adding, Ne.symm hi] at hd ha
        rw [hd, ha, forest_withStack, Forest.token_update_of_ne hi]
        exact hbefore
    | @findsDown t below i d hstack hdown =>
      by_cases hi : i = id
      · -- the flag is still down: the trip holds the lock of the reason, and has yet to take the list out
        subst hi
        have hrises : 0 < s.tally (raising i) := by
          rcases h.rising hset with hup | hpos
          · rw [hdown] at hup
            cases hup
          · exact hpos
        have hmono : s.tally (raising i) ≤ s.tally (draining i) := tally_le (TokenCall.raising_le_draining i)
        simp [draining] at hd
        exact Or.inl (by omega)
      · simp [draining, adding, hi] at hd ha
        rw [hd, ha]
        exact hbefore
    -- a callback is added late, while the trip that takes it out has still to come
    | @adds t below i d hstack =>
      by_cases hi : id = i
      · subst hi
        simp [adding] at hle
        simp [draining] at hd
        exact Or.inl (by omega)
      · simp [draining, adding, Ne.symm hi] at hd ha
        rw [hd, ha, forest_withStack, Forest.token_update_of_ne hi]
        exact hbefore
  -- just now: the trip has to raise the flag and to take the callbacks out
  · left
    simp [draining] at hd
    omega

/-- What is known of one token is kept by every step. -/
theorem step : s'.Sound id where
  ledger c := by
    have hbefore := h.ledger c
    have haccount := hm.account hg id c
    omega
  first := h.step_first hm hg
  explained := h.step_explained hm hg
  rising := h.step_rising hm hg
  quiet := h.step_quiet hm hg
  drained := h.step_drained hm hg

end Sound

/-! ## Runs

  The invariant holds when nobody is in a call, and so after any steps of any threads. -/

/-- Nobody is in a call. -/
theorem tally_start (tokens threads : Nat) (measure : TokenCall → Nat) :
    (start tokens threads).tally measure = 0 :=
  tally_of_idle measure fun _ hstack => List.eq_of_mem_replicate hstack

/-- No call, so none is about a token that there is not. -/
theorem grounded_start (tokens threads : Nat) : (start tokens threads).Grounded :=
  tally_start tokens threads _

/-- Every token is as it was made. -/
theorem token_start (tokens threads : Nat) (id : TokenId) : (start tokens threads).forest.token id = {} := by
  show (List.replicate tokens ({} : Token)).getD id {} = {}
  rw [List.getD_eq_getElem?_getD, List.getElem?_replicate]
  split <;> rfl

/-- At the start nothing is registered, nobody is tripped, and nobody is in a call. -/
theorem sound_start (tokens threads : Nat) (id : TokenId) : (start tokens threads).Sound id := by
  have htoken := token_start tokens threads id
  have hreason : (start tokens threads).reason? id = none := congrArg Token.reason htoken
  -- nothing is registered, tripped or invoked yet
  constructor
  · intro c
    rw [tally_start, htoken]
    rfl
  · exact hreason
  · intro hup
    cases hup
  · intro hset
    rw [hreason] at hset
    cases hset
  · intro _
    exact ⟨tally_start tokens threads _, fun c hc => by cases hc⟩
  · intro _
    exact Or.inr ⟨by rw [htoken], tally_start tokens threads _⟩

/-- The invariant holds after any steps of any threads. -/
theorem sound_of_follow (hg : s.Grounded) (h : ∀ id, s.Sound id) (hs : s.follow events = some s') :
    s'.Grounded ∧ ∀ id, s'.Sound id := by
  induction events generalizing s with
  | nil =>
    obtain rfl := Option.some.inj hs
    exact ⟨hg, h⟩
  | cons e rest ih =>
    obtain ⟨next, hstep, hrest⟩ := follow_cons.mp hs
    obtain ⟨old, new, hm⟩ := moves_of_step hstep
    exact ih (hg.step hm) (fun id => (h id).step hm hg) hrest

/-- A flag that is up and a reason that is set are the same after any more steps. -/
theorem kept_of_follow (hg : s.Grounded) (hs : s.follow events = some s') (id : TokenId) :
    (s.isCancelled id = true → s'.isCancelled id = true) ∧
      ∀ reason, s.reason? id = some reason → s'.reason? id = some reason := by
  -- induction on the steps; each keeps flags and reasons
  induction events generalizing s with
  | nil =>
    obtain rfl := Option.some.inj hs
    exact ⟨fun hup => hup, fun reason hreason => hreason⟩
  | cons e rest ih =>
    obtain ⟨next, hstep, hrest⟩ := follow_cons.mp hs
    obtain ⟨old, new, hm⟩ := moves_of_step hstep
    obtain ⟨hup, hreason⟩ := ih (hg.step hm) hrest
    refine ⟨fun h => hup (hm.isCancelled_mono h), fun reason h => hreason reason ?_⟩
    rw [hm.reason?_mono hg (by rw [h]; rfl), h]

/-! ## All calls come to their ends

  The calls that are made are over after a bounded number of steps, unless callbacks make more of them.  The bound
  counts what each call has still to do and the callbacks that wait, and it is only a new call that adds to it. -/

/-- The event is one of a call that is already made. -/
def Event.carriesOn : Event → Bool
  | .go _ | .leave _ _ => true
  | .trip _ _ _ | .onCancel _ _ _ => false

/-- How many callbacks wait. -/
def waiting (s : Threads) : Nat := (s.forest.tokens.map fun t => t.callbacks.length).sum

/-- More steps than these are not left to the calls that are made. -/
def effort (s : Threads) : Nat := s.tally TokenCall.effort + 2 * s.waiting

/-- A token that is changed waits with as many callbacks as it has then. -/
theorem waiting_update {t : Token} (hid : id < s.forest.tokens.length)
    (hs : s'.forest = s.forest.update id t) :
    s'.waiting + (s.forest.token id).callbacks.length = s.waiting + t.callbacks.length := by
  have hget : s.forest.tokens[id]? = some (s.forest.token id) := by
    rw [Forest.token, List.getD_eq_getElem?_getD, List.getElem?_eq_getElem hid]
    rfl
  rw [waiting, hs]
  exact sum_map_set (fun t => t.callbacks.length) t hget

/-- A step of a call that is made brings it nearer to its end. -/
theorem effort_lt (hg : s.Grounded) (hm : Moves s e old new s') (he : e.carriesOn = true) :
    s'.effort < s.effort := by
  have hx := hm.exchange TokenCall.effort
  obtain ⟨u, hu⟩ : ∃ u, u = s' := ⟨s', rfl⟩
  rw [← hu] at hx ⊢
  rw [effort, effort]
  -- each step that carries on takes something off: a call, a callback of a call, or one that waits
  cases hm with
  | trip | onCancel => cases he
  | comesLate | raisesFlag | ends | findsUp | findsDown | leave =>
    have hwait : u.waiting = s.waiting := by rw [hu]; rfl
    simp [TokenCall.effort] at hx
    omega
  -- the callback was noted, and waits no more
  | invokes =>
    have hwait : u.waiting = s.waiting := by rw [hu, waiting, forest_withStack, Forest.tokens_note]; rfl
    simp [TokenCall.effort] at hx
    omega
  | @setsReason t below i reason hstack =>
    have hwait := waiting_update (hg.lt hstack) (congrArg Threads.forest hu)
    simp only [TokenCall.token] at hwait
    simp [TokenCall.effort] at hx
    omega
  -- the callbacks wait with the call instead of the token, which is one step less far
  | @takesOut t below i hstack =>
    have hwait := waiting_update (hg.lt hstack) (congrArg Threads.forest hu)
    simp only [TokenCall.token, List.length_nil] at hwait
    simp [TokenCall.effort] at hx
    omega
  | @adds t below i d hstack =>
    have hwait := waiting_update (hg.lt hstack) (congrArg Threads.forest hu)
    simp only [TokenCall.token, List.length_append, List.length_singleton] at hwait
    simp [TokenCall.effort] at hx
    omega

/-- Calls that nobody adds to end after a bounded number of steps. -/
theorem length_le_effort (hg : s.Grounded) (he : ∀ e ∈ events, e.carriesOn = true)
    (hs : s.follow events = some s') : events.length ≤ s.effort := by
  -- induction on the steps: each takes at least one off
  induction events generalizing s with
  | nil => exact Nat.zero_le _
  | cons e rest ih =>
    obtain ⟨next, hstep, hrest⟩ := follow_cons.mp hs
    obtain ⟨old, new, hm⟩ := moves_of_step hstep
    have hlt := effort_lt hg hm (he e List.mem_cons_self)
    have hle := ih (hg.step hm) (fun e h => he e (List.mem_cons_of_mem _ h)) hrest
    rw [List.length_cons]
    omega

/-! ## No thread waits for ever

  A thread waits for a lock with its innermost call only, since the calls below it are in their callbacks and hold
  nothing.  Who holds a lock can always go on.  So if any thread is in a call, then some thread can take a step. -/

/-- Below the innermost call there are only callbacks that run, and what invoked them. -/
def Ordered (s : Threads) : Prop :=
  ∀ stack ∈ s.frames, ∀ call ∈ stack.tail, call.isOuter = true

/-- One thread has new calls; all others are as before. -/
theorem Ordered.withStack (h : s.Ordered) {t : Nat} {stack : List TokenCall} {u : Threads}
    (hu : u.frames = s.frames) (hstack : ∀ call ∈ stack.tail, call.isOuter = true) :
    (u.withStack t stack).Ordered := by
  intro other hother
  rw [Threads.withStack, hu] at hother
  rcases List.mem_or_eq_of_mem_set hother with hmem | rfl
  · exact h other hmem
  · exact hstack

/-- Who may begin a call is in no other call, or in a callback. -/
theorem isOuter_of_mayCall {stack : List TokenCall} (hcall : mayCall stack = true)
    (h : ∀ call ∈ stack.tail, call.isOuter = true) : ∀ call ∈ stack, call.isOuter = true := by
  cases stack with
  | nil => exact h
  | cons top below =>
    cases top with
    | within i c =>
      intro call hmem
      rcases List.mem_cons.mp hmem with rfl | hbelow
      · rfl
      · exact h call hbelow
    | _ => cases hcall

/-- A thread waits for a lock at most in its innermost call. -/
theorem Ordered.step (h : s.Ordered) (hm : Moves s e old new s') : s'.Ordered := by
  cases hm with
  -- a call begins inside a callback, or in no call at all
  | trip hstack hcall | onCancel hstack hcall =>
    have hbelow := h _ (List.mem_of_getElem? hstack)
    exact h.withStack rfl (isOuter_of_mayCall hcall hbelow)
  -- a call ends: what is left was below it
  | comesLate hstack | ends hstack | adds hstack | leave hstack =>
    have hbelow := h _ (List.mem_of_getElem? hstack)
    exact h.withStack rfl fun call hmem => hbelow call (List.mem_of_mem_tail hmem)
  | setsReason hstack | raisesFlag hstack | takesOut hstack | findsUp hstack | findsDown hstack =>
    have hbelow := h _ (List.mem_of_getElem? hstack)
    exact h.withStack rfl hbelow
  -- a callback runs inside the call that invokes it
  | invokes hstack =>
    have hbelow := h _ (List.mem_of_getElem? hstack)
    refine h.withStack rfl fun call hmem => ?_
    rcases List.mem_cons.mp hmem with rfl | hrest
    · rfl
    · exact hbelow call hrest

/-- So it is after any number of steps. -/
theorem Ordered.follow (h : s.Ordered) (hs : s.follow events = some s') : s'.Ordered := by
  induction events generalizing s with
  | nil =>
    obtain rfl := Option.some.inj hs
    exact h
  | cons e rest ih =>
    obtain ⟨next, hstep, hrest⟩ := follow_cons.mp hs
    obtain ⟨old, new, hm⟩ := moves_of_step hstep
    exact ih (h.step hm) hrest

/-- The innermost call of a thread. -/
def Innermost (s : Threads) (call : TokenCall) : Prop :=
  ∃ (t : Nat) (below : List TokenCall), s.frames[t]? = some (call :: below)

/-- Somebody can carry on. -/
def CanCarryOn (s : Threads) : Prop := ∃ e : Event, e.carriesOn = true ∧ (s.step e).isSome = true

/-- A call that is no outer one is the innermost. -/
theorem Ordered.innermost (h : s.Ordered) {measure : TokenCall → Nat} (hpos : 0 < s.tally measure)
    (hinner : ∀ call, 0 < measure call → call.isOuter = false) :
    ∃ call, s.Innermost call ∧ 0 < measure call := by
  -- somewhere there is such a call, and only the innermost one of a thread can be one
  obtain ⟨t, stack, hstack, call, hmem, hcall⟩ := exists_of_tally hpos
  cases stack with
  | nil => cases hmem
  | cons top below =>
    rcases List.mem_cons.mp hmem with rfl | hbelow
    · exact ⟨call, ⟨t, below, hstack⟩, hcall⟩
    · have houter := h _ (List.mem_of_getElem? hstack) call hbelow
      rw [hinner call hcall] at houter
      cases houter

/-- If the innermost call of a thread can proceed, somebody carries on. -/
theorem canCarryOn_of_proceed {t : Nat} {call : TokenCall} {below : List TokenCall}
    (hstack : s.frames[t]? = some (call :: below)) (h : (s.proceed t below call).isSome = true) :
    s.CanCarryOn := by
  refine ⟨.go t, rfl, ?_⟩
  rw [step, hstack]
  exact h

/-- Who holds the lock of a reason can raise the flag. -/
theorem Ordered.canCarryOn_of_raising (h : s.Ordered) (hpos : 0 < s.tally (raising id)) : s.CanCarryOn := by
  obtain ⟨call, ⟨t, below, hstack⟩, hcall⟩ := h.innermost hpos fun call hcall => by
    cases call with
    | raises i => rfl
    | _ => exact absurd hcall (Nat.lt_irrefl 0)
  cases call with
  | raises i => exact canCarryOn_of_proceed hstack rfl
  | _ => exact absurd hcall (Nat.lt_irrefl 0)

/-- Who holds the lock of the callbacks can add to them. -/
theorem Ordered.canCarryOn_of_adding (h : s.Ordered) (hpos : 0 < s.tally (adding id)) : s.CanCarryOn := by
  obtain ⟨call, ⟨t, below, hstack⟩, hcall⟩ := h.innermost hpos fun call hcall => by
    cases call with
    | adds i c => rfl
    | _ => exact absurd hcall (Nat.lt_irrefl 0)
  cases call with
  | adds i c => exact canCarryOn_of_proceed hstack rfl
  | _ => exact absurd hcall (Nat.lt_irrefl 0)

/-- **Somebody can carry on** as long as a thread is in a call: who holds a lock waits for nothing. -/
theorem Ordered.progress (h : s.Ordered) (hbusy : ¬ s.Idle) : s.CanCarryOn := by
  -- some thread is in a call; its innermost call decides
  have hexists : ∃ stack ∈ s.frames, stack ≠ [] := by
    simpa only [Idle, Classical.not_forall, exists_prop] using hbusy
  obtain ⟨stack, hmem, hne⟩ := hexists
  obtain ⟨t, hstack⟩ := List.mem_iff_getElem?.mp hmem
  obtain ⟨call, below, rfl⟩ := List.exists_cons_of_ne_nil hne
  cases call with
  -- a trip waits for another one that is about to raise the flag, and that can go on
  | trips id reason =>
    by_cases hlock : 0 < s.tally (raising id)
    · exact h.canCarryOn_of_raising hlock
    · refine canCarryOn_of_proceed hstack ?_
      rw [proceed, if_neg hlock]
      dsimp only
      split <;> rfl
  | raises id => exact canCarryOn_of_proceed hstack rfl
  -- a drain waits for a registration that is about to add its callback, and that can go on
  | drains id =>
    by_cases hlock : 0 < s.tally (adding id)
    · exact h.canCarryOn_of_adding hlock
    · refine canCarryOn_of_proceed hstack ?_
      rw [proceed, if_neg hlock]
      rfl
  | invokes id callbacks => cases callbacks <;> exact canCarryOn_of_proceed hstack rfl
  -- so does a registration
  | registers id c =>
    by_cases hlock : 0 < s.tally (adding id)
    · exact h.canCarryOn_of_adding hlock
    · refine canCarryOn_of_proceed hstack ?_
      rw [proceed, if_neg hlock]
      split <;> rfl
  | adds id c => exact canCarryOn_of_proceed hstack rfl
  -- a callback can always return
  | within id c =>
    refine ⟨.leave t false, rfl, ?_⟩
    rw [Threads.step, hstack]
    rfl

/-- Nobody is in a call. -/
theorem ordered_start (tokens threads : Nat) : (start tokens threads).Ordered := by
  intro stack hstack call hcall
  rw [List.eq_of_mem_replicate hstack] at hcall
  cases hcall

/-! ## The main result

  What a token promises is read off the invariant for the state that the threads have come to, and off the two
  sections before for the end. -/

/-- What the token `id` promises to all threads, at the state `s` that they have come to. -/
structure Promises (s : Threads) (id : TokenId) : Prop where
  /-- A flag stays up, and a reason stays what it is. -/
  stays : ∀ more s', s.follow more = some s' →
    (s.isCancelled id = true → s'.isCancelled id = true) ∧
    ∀ reason, s.reason? id = some reason → s'.reason? id = some reason
  /-- Whoever sees the flag up finds the reason: it is written under the lock before the flag is raised. -/
  explained : s.isCancelled id = true → ∃ reason, s.reason? id = some reason
  /-- The reason is that of the first trip that took the lock. -/
  first : s.reason? id = s.taken.lookup id
  /-- No callback is invoked more often than it was registered. -/
  at_most : ∀ c, s.invoked.count (id, c) ≤ s.registered.count (id, c)
  /-- None is invoked of a token that was not tripped. -/
  untripped : s.reason? id = none → ∀ c, (id, c) ∉ s.invoked
  /-- The calls that were made come to their ends, and nobody waits for ever. -/
  comes_to_rest : ∀ more s', (∀ e ∈ more, e.carriesOn = true) → s.follow more = some s' →
    more.length ≤ s.effort ∧ (s'.Idle ∨ ∃ e : Event, e.carriesOn = true ∧ (s'.step e).isSome = true)
  /-- Then every callback of a tripped token has been invoked as often as it was registered. -/
  at_rest : s.Idle → (s.reason? id).isSome = true → ∀ c, s.invoked.count (id, c) = s.registered.count (id, c)

/-- **Tokens keep their promises to all threads** — after any steps of any number of threads, with callbacks
    that make calls of their own or break off. -/
theorem callbacks_invoked_once {tokens threads : Nat} (hs : (start tokens threads).follow events = some s)
    (id : TokenId) : s.Promises id := by
  obtain ⟨hg, hsound⟩ := sound_of_follow (grounded_start tokens threads) (sound_start tokens threads) hs
  have hordered := (ordered_start tokens threads).follow hs
  have h := hsound id
  -- the parts of the invariant, one by one
  constructor
  case stays => exact fun more s' hmore => kept_of_follow hg hmore id
  case explained => exact fun hup => Option.isSome_iff_exists.mp (h.explained hup)
  case first => exact h.first
  case at_most =>
    -- what was registered is invoked, waits, or is held: so it is invoked at most as often
    intro c
    have hledger := h.ledger c
    omega
  case untripped => exact fun hnone => (h.quiet hnone).2
  case comes_to_rest =>
    -- no run goes on for ever without new calls, and as long as a thread is busy there is a next step
    intro more s' hcarry hmore
    refine ⟨length_le_effort hg hcarry hmore, ?_⟩
    by_cases hidle : s'.Idle
    · exact Or.inl hidle
    · exact Or.inr ((hordered.follow hmore).progress hidle)
  case at_rest =>
    intro hidle hset c
    have hledger := h.ledger c
    -- what is registered and not invoked is still owed, and an idle token owes nothing
    rcases h.drained hset with hpos | ⟨hempty, -⟩
    · rw [tally_of_idle _ hidle] at hpos
      omega
    · rw [hempty, tally_of_idle _ hidle, List.count_nil] at hledger
      omega

/-- A callback that registers another one. -/
def announcer : Callback := .notify "announcer" (.register 0 "echo")

/-- What it registers. -/
def echo : Callback := .notify "echo" .nothing

/-- A registration has found the flag down when a trip raises it; the callback that it adds after that
    registers another one, which breaks off. -/
def crossing : List Event :=
  [.onCancel 0 0 announcer, .go 0, .trip 1 0 (.requested "stop"), .go 1, .go 1, .go 0, .go 1, .go 1,
    .onCancel 1 0 echo, .go 1, .go 1, .leave 1 true, .go 1, .leave 1 false, .go 1]

/-- Both callbacks are invoked once. -/
theorem callbacks_invoked_crossing : ∃ s, (start 1 2).follow crossing = some s ∧ s.Idle ∧
    s.reason? 0 = some (.requested "stop") ∧ s.registered = [(0, announcer), (0, echo)] ∧
    s.invoked.count (0, announcer) = 1 ∧ s.invoked.count (0, echo) = 1 := by
  have hs : (start 1 2).follow crossing = some _ := rfl
  have hidle : Idle _ := of_decide_eq_true (rfl : decide (Idle (((start 1 2).follow crossing).get rfl)) = true)
  have hcount := (callbacks_invoked_once hs 0).at_rest hidle rfl
  exact ⟨_, hs, hidle, rfl, rfl, (hcount announcer).trans (by decide), (hcount echo).trans (by decide)⟩

end Wheelwright.Threads
