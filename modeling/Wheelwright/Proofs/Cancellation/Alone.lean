/-
  Alone — a forest's operations are what one thread does when no other comes between.

  **Specification** — `Forest.trip` and `Forest.onCancel` end in the forest that a single thread leaves
  behind: it makes the call, every callback does what it says, and no other thread takes a step meanwhile.
  So the laws of threads hold of forests.

  **The crux** — a forest keeps the callbacks that have to run in one list, a thread in the calls that it is
  in (`pending`).  The list gets shorter by `Callback.weight`, so that no step is missing at its end
  (`weight_runCallback`).
-/
import Wheelwright.Proofs.Cancellation.Delivery

namespace Wheelwright

/-! ## Forests that hold what there is

  Handles and timers name tokens by number, so a forest may be written down that speaks of tokens it does not have.
  `Rooted` excludes these, and it is all that the rest needs: the callbacks of a run change what tokens hold, and not
  who holds the tokens. -/

namespace Forest

variable {f : Forest} {id : TokenId} {reason : CancelReason} {c : Callback}

/-- Only tokens that there are can be held. -/
def Rooted (f : Forest) : Prop := ∀ id, f.isAlive id = true → id < f.tokens.length

/-- Who is alive depends on handles and timers only, not on what tokens hold. -/
theorem isAlive_congr {g : Forest} (hh : g.handles = f.handles) (ht : g.timers = f.timers) :
    g.isAlive id = f.isAlive id := by
  rw [isAlive, isAlive, hh, ht]

/-- What stays when callbacks run: who holds tokens, and how many there are. -/
structure Alike (f g : Forest) : Prop where
  /-- The handles that clients have. -/
  handles : g.handles = f.handles
  /-- The timers that have not elapsed. -/
  timers : g.timers = f.timers
  /-- Running callbacks makes no token. -/
  length : g.tokens.length = f.tokens.length

/-- What callbacks leave as it is is all that `Rooted` speaks of. -/
theorem Alike.rooted {g : Forest} (h : Alike f g) (hf : f.Rooted) : g.Rooted := by
  intro id hid
  rw [isAlive_congr h.handles h.timers] at hid
  rw [h.length]
  exact hf id hid

/-! ## Weight

  The forest runs a trip as a list of work, with a number of steps to bound it.  That number is the weight of all
  callbacks that wait and that have to run.  It is the sum over tokens and work, and a callback that runs takes at
  least its own unit away, so the bound is never what ends a trip. -/

/-- The weight of callbacks. -/
def weightOf (cs : List Callback) : Nat := (cs.map Callback.weight).sum

/-- The program adds weights up from the right; a sum is easier to split. -/
theorem foldr_weight (cs : List Callback) (n : Nat) :
    cs.foldr (fun c n => c.weight + n) n = weightOf cs + n := by
  -- induction along the callbacks, for any weight behind them
  induction cs with
  | nil => exact (Nat.zero_add n).symm
  | cons c rest ih =>
    rw [List.foldr_cons, ih, weightOf, weightOf, List.map_cons, List.sum_cons]
    omega

/-- The weight of a forest, token by token. -/
theorem weight_eq (f : Forest) : f.weight = (f.tokens.map fun t => weightOf t.callbacks).sum := by
  rw [weight]
  induction f.tokens with
  | nil => rfl
  | cons t rest ih => rw [List.foldr_cons, foldr_weight, ih, List.map_cons, List.sum_cons]

/-- No callback is free: this is what makes the list of work shorter with every step. -/
theorem one_le_weight (c : Callback) : 1 ≤ c.weight := by
  cases c with
  | passOn child => exact Nat.le_refl 1
  -- the reaction of a callback adds to its weight, whatever it is
  | notify label reaction => cases reaction <;> simp [Callback.weight]

/-- The weight of callbacks that have to run. -/
def workWeight (work : List (TokenId × Callback)) : Nat := weightOf (work.map Prod.snd)

/-- The number of steps that `trip` allows is the weight of the work. -/
theorem workWeight_eq (work : List (TokenId × Callback)) :
    work.foldr (fun w n => w.2.weight + n) 0 = workWeight work := by
  induction work with
  | nil => rfl
  | cons w rest ih =>
    rw [List.foldr_cons, ih, workWeight, workWeight, weightOf, weightOf, List.map_cons, List.map_cons,
      List.sum_cons]

/-- Work that is put in front adds its weight. -/
theorem workWeight_append (work more : List (TokenId × Callback)) :
    workWeight (more ++ work) = workWeight more + workWeight work := by
  rw [workWeight, weightOf, List.map_append, List.map_append, List.sum_append]
  rfl

/-- Changing a token changes the weight by that of the callbacks it had and has. -/
theorem weight_update {t : Token} (hid : id < f.tokens.length) :
    (f.update id t).weight + weightOf (f.token id).callbacks = f.weight + weightOf t.callbacks := by
  have hget : f.tokens[id]? = some (f.token id) := by
    rw [token, List.getD_eq_getElem?_getD, List.getElem?_eq_getElem hid]
    rfl
  rw [weight_eq, weight_eq]
  exact Threads.sum_map_set (fun t => weightOf t.callbacks) t hget

/-- Raising moves callbacks from the forest to the list of those that have to run. -/
theorem weight_raise (hid : id < f.tokens.length) (reason : CancelReason) :
    (f.raise id reason).1.weight + workWeight (f.raise id reason).2 = f.weight := by
  rw [raise]
  split
  -- an earlier trip has taken the callbacks out
  · rfl
  -- the callbacks are in the list now, with the token as their owner
  · have hsum := weight_update (t := { reason := some reason }) hid
    have hwork : workWeight ((f.token id).callbacks.map fun c => (id, c)) = weightOf (f.token id).callbacks := by
      rw [workWeight, List.map_map]
      exact congrArg weightOf (List.map_id _)
    simp only [hwork]
    simp only [weightOf, List.map_nil, List.sum_nil] at hsum
    exact hsum

/-- A trip changes tokens, and neither handles nor timers. -/
theorem alike_raise : Alike f (f.raise id reason).1 := by
  rw [raise]
  split
  · exact ⟨rfl, rfl, rfl⟩
  · exact ⟨rfl, rfl, List.length_set⟩

/-- A note of a callback is a line in the log. -/
theorem alike_note : Alike f (f.note c) := by cases c <;> exact ⟨rfl, rfl, rfl⟩

/-- What a callback does once it was noted. -/
inductive Does (g : Forest) (c : Callback) : Forest × List (TokenId × Callback) → Prop
  /-- It only tells somebody, or the token that it is about is gone. -/
  | nothing : Does g c (g, [])
  | trips {i : TokenId} {reason : CancelReason} (halive : g.isAlive i = true) : Does g c (g.raise i reason)
  /-- It registers a callback on a tripped token, which runs it next. -/
  | invokes {i : TokenId} {d : Callback} (halive : g.isAlive i = true) (hset : g.isCancelled i = true)
      (hweight : d.weight < c.weight) : Does g c (g, [(i, d)])
  /-- It registers a callback on a token that waits for its trip. -/
  | registers {i : TokenId} {d : Callback} (halive : g.isAlive i = true) (hunset : ¬ g.isCancelled i = true)
      (hweight : d.weight < c.weight) :
      Does g c (g.update i { g.token i with callbacks := (g.token i).callbacks ++ [d] }, [])

/-- One case for each thing a callback can say; a callback never does two. -/
theorem does_runCallback (f : Forest) (owner : TokenId) (c : Callback) :
    Does (f.note c) c (f.runCallback owner c) := by
  cases c with
  | passOn child =>
    rw [runCallback]
    split
    · rename_i halive
      exact .trips halive
    · exact .nothing
  | notify label reaction =>
    cases reaction with
    | nothing | panic => exact .nothing
    | cancel i message =>
      rw [runCallback]
      split
      · rename_i halive
        exact .trips halive
      · exact .nothing
    | register i other =>
      rw [runCallback]
      dsimp only
      -- a token that nobody holds any more cannot be registered on
      split
      · exact .nothing
      · rename_i hdead
        have halive : (f.note (.notify label (.register i other))).isAlive i = true := by
          rw [Bool.not_eq_true, Bool.not_eq_false'] at hdead
          exact hdead
        split
        · rename_i hset
          exact .invokes halive hset (Nat.lt_succ_self 1)
        · rename_i hunset
          exact .registers (d := .notify other .nothing) halive hunset (Nat.lt_succ_self 1)

/-- **A callback that runs makes less work than it was.** -/
theorem weight_runCallback (hf : f.Rooted) (owner : TokenId) (c : Callback) :
    (f.runCallback owner c).1.weight + workWeight (f.runCallback owner c).2 + 1 ≤ c.weight + f.weight := by
  -- the weights before and after, by what the callback does
  have hone := one_le_weight c
  have hnote : (f.note c).weight = f.weight := by rw [weight, weight, tokens_note]
  have hrooted : (f.note c).Rooted := alike_note.rooted hf
  have hempty : workWeight [] = 0 := rfl
  generalize f.runCallback owner c = after, does_runCallback f owner c = hdoes
  cases hdoes with
  | nothing =>
    dsimp only
    omega
  | @trips i reason halive =>
    -- what the trip takes out of the forest it puts into the work
    have hsum := weight_raise (hrooted i halive) reason
    omega
  | @invokes i d halive hset hweight =>
    have hwork : workWeight [(i, d)] = d.weight := Nat.add_zero _
    dsimp only
    omega
  | @registers i d halive hunset hweight =>
    -- the registered callback is lighter than the one that registers it
    have hsum := weight_update (t := { (f.note c).token i with
      callbacks := ((f.note c).token i).callbacks ++ [d] }) (hrooted i halive)
    simp only [weightOf, List.map_append, List.sum_append, List.map_cons, List.map_nil, List.sum_cons,
      List.sum_nil] at hsum
    dsimp only
    omega

/-! ## Raised flags

  Nothing in this module lowers a flag or changes a reason.  The lemmas say so for each function from the smallest to
  the trip as a whole, and the later modules use them for tokens that they do not look at otherwise. -/

/-- Tokens that are tripped in `f` are so in `g`, which has as many tokens. -/
structure Raises (f g : Forest) : Prop where
  /-- Tokens are not made here. -/
  length : g.tokens.length = f.tokens.length
  isCancelled : ∀ id, f.isCancelled id = true → g.isCancelled id = true

/-- Nothing has to be raised. -/
theorem Raises.refl (f : Forest) : Raises f f := ⟨rfl, fun _ h => h⟩

/-- Raised flags stay raised. -/
theorem Raises.trans {g k : Forest} (h : Raises f g) (h' : Raises g k) : Raises f k where
  length := h'.length.trans h.length
  isCancelled id hid := h'.isCancelled id (h.isCancelled id hid)

/-- A token may be replaced by one that is tripped if it was. -/
theorem raises_update {t : Token} (ht : f.isCancelled id = true → t.reason.isSome = true) :
    Raises f (f.update id t) where
  length := List.length_set
  isCancelled i hi := by
    -- a token that does not exist is not replaced at all
    by_cases hid : id < f.tokens.length
    · rw [Forest.isCancelled, reason?, token_update hid]
      split
      · rename_i heq
        rw [heq] at hi
        exact ht hi
      · exact hi
    · rw [update, List.set_eq_of_length_le (Nat.le_of_not_lt hid)]
      exact hi

/-- A trip raises a flag and lowers none. -/
theorem raises_raise : Raises f (f.raise id reason).1 := by
  rw [raise]
  split
  · exact Raises.refl f
  · exact raises_update fun _ => rfl

/-- A token that there is not has no flag. -/
theorem lt_of_isCancelled (h : f.isCancelled id = true) : id < f.tokens.length := by
  refine Nat.lt_of_not_le fun hle => ?_
  rw [isCancelled, reason?, token, List.getD_eq_getElem?_getD, List.getElem?_eq_none hle] at h
  cases h

/-- The flag of the token that is tripped is raised, now or before. -/
theorem isCancelled_raise (hid : id < f.tokens.length) : (f.raise id reason).1.isCancelled id = true := by
  rw [raise]
  split
  -- it was tripped before
  · assumption
  · show ((f.update id { reason := some reason }).token id).reason.isSome = true
    rw [token_update_self hid]
    rfl

/-- A reason stays. -/
theorem reason?_raise_of_some {y : TokenId} {r : CancelReason} (h : f.reason? y = some r) :
    (f.raise id reason).1.reason? y = some r := by
  rw [raise]
  split
  · exact h
  · rename_i hun
    -- the raised token is another one
    have hne : y ≠ id := by
      rintro rfl
      rw [isCancelled, h] at hun
      exact hun rfl
    show ((f.update id { reason := some reason }).token y).reason = some r
    rw [token_update_of_ne hne]
    exact h

/-- A note changes no flag. -/
theorem raises_note : Raises f (f.note c) where
  length := alike_note.length
  isCancelled id hid := by
    rw [Forest.isCancelled, reason?_note]
    exact hid

/-- A callback that runs raises flags at most. -/
theorem raises_runCallback (f : Forest) (owner : TokenId) (c : Callback) : Raises f (f.runCallback owner c).1 := by
  refine Raises.trans (raises_note (c := c)) ?_
  generalize f.runCallback owner c = after, does_runCallback f owner c = hdoes
  cases hdoes with
  | nothing | invokes => exact Raises.refl _
  | trips => exact raises_raise
  | registers => exact raises_update fun h => h

/-- And so do all that it sets off. -/
theorem raises_runCallbacks (steps : Nat) (work : List (TokenId × Callback)) (f : Forest) :
    Raises f (runCallbacks steps work f) := by
  -- induction on the number of steps that are allowed
  induction steps generalizing work f with
  | zero => exact Raises.refl f
  | succ steps ih =>
    cases work with
    | nil => exact Raises.refl f
    | cons w rest => exact (raises_runCallback f w.1 w.2).trans (ih _ _)

/-- The forest after a trip has all flags it had before. -/
theorem raises_trip : Raises f (f.trip id reason) := raises_raise.trans (raises_runCallbacks _ _ _)

/-- And the one that the trip is about. -/
theorem isCancelled_trip (hid : id < f.tokens.length) : (f.trip id reason).isCancelled id = true :=
  (raises_runCallbacks _ _ _).isCancelled id (isCancelled_raise hid)

end Forest

namespace Threads

open TokenCall (raising adding)

variable {s s' : Threads} {f g : Forest} {t : Nat} {stack below : List TokenCall} {id : TokenId}
  {reason : CancelReason} {c : Callback}

/-! ## Runs of one thread

  The machine of threads makes the same trip in small steps: a lock that is taken, a flag that is raised, a list that
  is taken out. `Alone` says that one thread is in these calls and all the others in none, so each step is the only
  one that is possible, and the forest of the state is what the program would have computed so far. -/

/-- The thread that takes the step. -/
def Event.thread : Event → Nat
  | .trip t _ _ | .onCancel t _ _ | .go t | .leave t _ => t

/-- Steps of the thread `t` lead from one state to another. -/
def Leads (t : Nat) (s s' : Threads) : Prop :=
  ∃ events : List Event, (∀ e ∈ events, e.thread = t) ∧ s.follow events = some s'

/-- No step is a run, too. -/
theorem Leads.refl (t : Nat) (s : Threads) : Leads t s s := ⟨[], (fun _ h => by cases h), rfl⟩

/-- Runs follow each other; both are by the same thread. -/
theorem Leads.trans {u : Threads} (h : Leads t s u) (hu : Leads t u s') : Leads t s s' := by
  obtain ⟨events, hthread, hs⟩ := h
  obtain ⟨more, hmore, hs'⟩ := hu
  refine ⟨events ++ more, ?_, ?_⟩
  · intro e he
    rcases List.mem_append.mp he with h | h
    · exact hthread e h
    · exact hmore e h
  · rw [follow_append, hs]
    exact hs'

/-- One step of the thread. -/
theorem Leads.of_step {e : Event} (he : e.thread = t) (h : s.step e = some s') : Leads t s s' := by
  refine ⟨[e], ?_, ?_⟩
  · intro e' he'
    rw [List.mem_singleton.mp he', he]
  · exact follow_cons.mpr ⟨s', h, rfl⟩

/-- A step on in the call that the thread is in. -/
theorem Leads.of_go (h : s.step (.go t) = some s') : Leads t s s' := Leads.of_step rfl h

/-- The program looks up the innermost call and lets it proceed. -/
theorem step_go {call : TokenCall} (h : s.frames[t]? = some (call :: below)) :
    s.step (.go t) = s.proceed t below call := by
  rw [step, h]

/-- A thread finds the calls that were set for it. -/
theorem getElem?_withStack {u : Threads} {new : List TokenCall} (h : u.frames[t]? = some stack) :
    (u.withStack t new).frames[t]? = some new := by
  obtain ⟨hlt, -⟩ := List.getElem?_eq_some_iff.mp h
  exact List.getElem?_set_self hlt

/-- The thread `t` is in these calls, the forest is that one, and nobody is about to change it. -/
structure Alone (s : Threads) (t : Nat) (f : Forest) (stack : List TokenCall) : Prop where
  forest : s.forest = f
  /-- The calls that the thread is in, the innermost first. -/
  calls : s.frames[t]? = some stack
  /-- None of them holds a lock. -/
  outer : ∀ call ∈ stack, call.isOuter = true
  /-- No thread is raising a flag or adding a callback, so no lock is held. -/
  free : ∀ id, s.tally (raising id) = 0 ∧ s.tally (adding id) = 0
  /-- The flags that threads look at say what the forest says. -/
  flags : ∀ id, s.isCancelled id = f.isCancelled id
  /-- All that can be held is there. -/
  rooted : f.Rooted

/-- Calls that hold no lock count for nothing. -/
theorem sum_raising_of_outer (h : ∀ call ∈ stack, call.isOuter = true) (id : TokenId) :
    (stack.map (raising id)).sum = 0 ∧ (stack.map (adding id)).sum = 0 := by
  induction stack with
  | nil => exact ⟨rfl, rfl⟩
  | cons call below ih =>
    obtain ⟨hraise, hadd⟩ := ih fun d hd => h d (List.mem_cons_of_mem _ hd)
    have hcall := h call List.mem_cons_self
    rw [List.map_cons, List.map_cons, List.sum_cons, List.sum_cons, hraise, hadd]
    cases call with
    | invokes i cs => exact ⟨rfl, rfl⟩
    | within i d => exact ⟨rfl, rfl⟩
    -- every other call would hold a lock
    | _ => cases hcall

/-- A call that holds no lock does not lock anything. -/
theorem Alone.tally_set {new : List TokenCall} {u : Threads} (h : Alone s t f stack)
    (hu : u.frames = s.frames.set t new) (id : TokenId) :
    u.tally (raising id) = (new.map (raising id)).sum ∧ u.tally (adding id) = (new.map (adding id)).sum := by
  -- the sum over all threads changes at one place
  have hsum (measure : TokenCall → Nat) : u.tally measure + (stack.map measure).sum =
      s.tally measure + (new.map measure).sum := by
    rw [tally, hu]
    exact sum_map_set (fun stack => (stack.map measure).sum) new h.calls
  have hraise := hsum (raising id)
  have hadd := hsum (adding id)
  obtain ⟨hr, ha⟩ := h.free id
  obtain ⟨hrs, has⟩ := sum_raising_of_outer h.outer id
  omega

/-- The thread has come to other calls, and the forest and its flags with it. -/
theorem Alone.becomes {new : List TokenCall} (h : Alone s t f stack)
    (hstacks : s'.frames = s.frames.set t new) (hforest : s'.forest = g)
    (hflags : ∀ id, s'.isCancelled id = g.isCancelled id) (hg : Forest.Alike f g)
    (houter : ∀ call ∈ new, call.isOuter = true) : Alone s' t g new where
  forest := hforest
  calls := by
    obtain ⟨hlt, -⟩ := List.getElem?_eq_some_iff.mp h.calls
    rw [hstacks, List.getElem?_set_self hlt]
  outer := houter
  free id := by
    obtain ⟨hraise, hadd⟩ := h.tally_set hstacks id
    obtain ⟨hr, ha⟩ := sum_raising_of_outer houter id
    omega
  flags := hflags
  rooted := hg.rooted h.rooted

/-- A call that holds no lock is put on top of such calls. -/
theorem outer_cons {call : TokenCall} (hcall : call.isOuter = true)
    (h : ∀ call ∈ stack, call.isOuter = true) : ∀ d ∈ call :: stack, d.isOuter = true := by
  intro d hd
  rcases List.mem_cons.mp hd with rfl | hmem
  · exact hcall
  · exact h d hmem

/-- The call of a trip begins. -/
theorem Alone.step_trip (h : Alone s t f stack) (hcall : mayCall stack = true) (hid : id < f.tokens.length)
    (reason : CancelReason) : s.step (.trip t id reason) = some (s.withStack t (.trips id reason :: stack)) := by
  have hforest := h.forest
  -- the call is allowed: nothing above it holds a lock, and the token is there
  subst hforest
  rw [step, enter, h.calls]
  simp only [hcall, hid, TokenCall.token, decide_true, Bool.and_self, if_true]

/-- Nobody else is about to raise the flag of the token, so a trip goes on at once. -/
theorem Alone.free_to_trip (h : Alone s t f stack) (id : TokenId) (reason : CancelReason) :
    ¬ 0 < (s.withStack t (.trips id reason :: stack)).tally (raising id) := by
  rw [(h.tally_set rfl id).1, List.map_cons, List.sum_cons, (sum_raising_of_outer h.outer id).1]
  exact Nat.lt_irrefl 0

/-- A trip of a token that an earlier one has tripped. -/
theorem Alone.leads_trip_of_cancelled (h : Alone s t f stack) (hcall : mayCall stack = true)
    (hid : id < f.tokens.length) (reason : CancelReason) (hset : f.isCancelled id = true) :
    ∃ s', Leads t s s' ∧ Alone s' t f stack := by
  have hforest := h.forest
  subst hforest
  -- the call begins, sees that nobody is raising the flag, and finds it raised: it returns at once
  let u₁ := s.withStack t (.trips id reason :: stack)
  have h₁ : s.step (.trip t id reason) = some u₁ := h.step_trip hcall hid reason
  have hstack₁ : u₁.frames[t]? = some (.trips id reason :: stack) := getElem?_withStack h.calls
  have hfree₁ : ¬ 0 < u₁.tally (raising id) := h.free_to_trip id reason
  let u₂ := { u₁ with taken := u₁.taken ++ [(id, reason)] }.withStack t stack
  have h₂ : u₁.step (.go t) = some u₂ := by
    rw [step_go hstack₁, proceed, if_neg hfree₁]
    exact if_pos hset
  -- the token stays as it is; only the attempt is written down
  refine ⟨u₂, (Leads.of_step rfl h₁).trans (Leads.of_go h₂), ?_⟩
  exact h.becomes (List.set_set _) rfl h.flags ⟨rfl, rfl, rfl⟩ h.outer

/-- The first trip of a token sets the reason, raises the flag, and takes the callbacks out. -/
theorem Alone.leads_trip_of_untripped (h : Alone s t f stack) (hcall : mayCall stack = true)
    (hid : id < f.tokens.length) (reason : CancelReason) (hun : ¬ f.isCancelled id = true) :
    ∃ s', Leads t s s' ∧ Alone s' t (f.raise id reason).1 (.invokes id (f.token id).callbacks :: stack) := by
  have hforest := h.forest
  subst hforest
  -- four steps: the call begins, sets the reason, raises the flag, and drains the callbacks
  let u₁ := s.withStack t (.trips id reason :: stack)
  have h₁ : s.step (.trip t id reason) = some u₁ := h.step_trip hcall hid reason
  have hstack₁ : u₁.frames[t]? = some (.trips id reason :: stack) := getElem?_withStack h.calls
  have hfree₁ : ¬ 0 < u₁.tally (raising id) := h.free_to_trip id reason
  let u₂ := { u₁ with
    taken := u₁.taken ++ [(id, reason)]
    forest := u₁.forest.update id { u₁.forest.token id with reason := some reason } }.withStack
      t (.raises id :: stack)
  let u₃ := { u₂ with raised := id :: u₂.raised }.withStack t (.drains id :: stack)
  let u₄ := { u₃ with
    forest := u₃.forest.update id { u₃.forest.token id with callbacks := [] } }.withStack
      t (.invokes id (u₃.forest.token id).callbacks :: stack)
  have h₂ : u₁.step (.go t) = some u₂ := by
    rw [step_go hstack₁, proceed, if_neg hfree₁]
    exact if_neg hun
  have hstack₂ : u₂.frames[t]? = some (.raises id :: stack) :=
    getElem?_withStack (u := { u₁ with taken := _, forest := _ }) hstack₁
  have h₃ : u₂.step (.go t) = some u₃ := by
    rw [step_go hstack₂]
    rfl
  have hstack₃ : u₃.frames[t]? = some (.drains id :: stack) :=
    getElem?_withStack (u := { u₂ with raised := _ }) hstack₂
  have hstacks₃ : u₃.frames = s.frames.set t (.drains id :: stack) :=
    (List.set_set _).trans (List.set_set _)
  have hfree₃ : ¬ 0 < u₃.tally (adding id) := by
    rw [(h.tally_set hstacks₃ id).2, List.map_cons, List.sum_cons, (sum_raising_of_outer h.outer id).2]
    exact Nat.lt_irrefl 0
  have h₄ : u₃.step (.go t) = some u₄ := by
    rw [step_go hstack₃, proceed, if_neg hfree₃]
  refine ⟨u₄, (Leads.of_step rfl h₁).trans ((Leads.of_go h₂).trans
    ((Leads.of_go h₃).trans (Leads.of_go h₄))), ?_⟩
  -- the token now has its reason and none of its callbacks
  have htoken : u₃.forest.token id = { s.forest.token id with reason := some reason } :=
    Forest.token_update_self hid
  have hraise : (s.forest.raise id reason).1 = s.forest.update id { reason := some reason } := by
    rw [Forest.raise, if_neg hun]
    rfl
  have hforest₄ : u₄.forest = s.forest.update id { reason := some reason } := by
    show (s.forest.update id _).update id { u₃.forest.token id with callbacks := [] } = _
    rw [htoken, Forest.update, Forest.update, Forest.update]
    simp only [List.set_set]
  rw [hraise]
  have hcallbacks : (s.forest.token id).callbacks = (u₃.forest.token id).callbacks := by rw [htoken]
  rw [hcallbacks]
  have hstacks₄ : u₄.frames = s.frames.set t (.invokes id (u₃.forest.token id).callbacks :: stack) := by
    show u₃.frames.set t _ = _
    rw [hstacks₃, List.set_set]
  refine h.becomes hstacks₄ hforest₄ ?_ ⟨rfl, rfl, List.length_set⟩ (outer_cons rfl h.outer)
  -- only the flag of this token has changed
  intro i
  show (id :: s.raised).contains i = ((s.forest.update id _).token i).reason.isSome
  rw [List.contains_cons, Forest.token_update hid]
  by_cases hi : i = id
  · simp [hi]
  · rw [beq_eq_false_iff_ne.mpr hi, Bool.false_or, if_neg hi]
    exact h.flags i

/-- What a trip does before callbacks run. -/
theorem Alone.leads_trip (h : Alone s t f stack) (hcall : mayCall stack = true)
    (hid : id < f.tokens.length) (reason : CancelReason) :
    ∃ s', Leads t s s' ∧ Alone s' t (f.raise id reason).1
      (if f.isCancelled id then stack else .invokes id (f.token id).callbacks :: stack) := by
  by_cases hset : f.isCancelled id = true
  · rw [if_pos hset, Forest.raise, if_pos hset]
    exact h.leads_trip_of_cancelled hcall hid reason hset
  · rw [if_neg hset]
    exact h.leads_trip_of_untripped hcall hid reason hset

/-- What a registration does before the callback runs, if it runs at once. -/
theorem Alone.leads_onCancel (h : Alone s t f stack) (hcall : mayCall stack = true)
    (hid : id < f.tokens.length) (c : Callback) :
    ∃ s', Leads t s s' ∧ if f.isCancelled id then Alone s' t f (.invokes id [c] :: stack)
      else Alone s' t (f.update id { f.token id with callbacks := (f.token id).callbacks ++ [c] }) stack := by
  have hforest := h.forest
  subst hforest
  -- the call begins, and is put down as a registration
  let u₁ := { s with registered := s.registered ++ [(id, c)] }.withStack t (.registers id c :: stack)
  have h₁ : s.step (.onCancel t id c) = some u₁ := by
    rw [step, enter, h.calls]
    simp only [hcall, hid, TokenCall.token, decide_true, Bool.and_self, if_true]
    rfl
  have hstack₁ : u₁.frames[t]? = some (.registers id c :: stack) :=
    getElem?_withStack (u := { s with registered := _ }) h.calls
  have hfree₁ : ¬ 0 < u₁.tally (adding id) := by
    rw [(h.tally_set (u := u₁) rfl id).2, List.map_cons, List.sum_cons, (sum_raising_of_outer h.outer id).2]
    exact Nat.lt_irrefl 0
  have hflag₁ : u₁.isCancelled id = s.forest.isCancelled id := h.flags id
  -- on a tripped token the callback is run by the thread itself
  by_cases hset : s.forest.isCancelled id = true
  · let u₂ := u₁.withStack t (.invokes id [c] :: stack)
    have h₂ : u₁.step (.go t) = some u₂ := by
      rw [step_go hstack₁, proceed, if_neg hfree₁, if_pos (hflag₁.trans hset)]
    refine ⟨u₂, (Leads.of_step rfl h₁).trans (Leads.of_go h₂), ?_⟩
    rw [if_pos hset]
    exact h.becomes (List.set_set _) rfl h.flags ⟨rfl, rfl, rfl⟩ (outer_cons rfl h.outer)
  -- else it is added to the token's list, under the lock
  · let u₂ := u₁.withStack t (.adds id c :: stack)
    let u₃ := { u₂ with forest := u₂.forest.update id { u₂.forest.token id with
      callbacks := (u₂.forest.token id).callbacks ++ [c] } }.withStack t stack
    have h₂ : u₁.step (.go t) = some u₂ := by
      rw [step_go hstack₁, proceed, if_neg hfree₁, if_neg (by rw [hflag₁]; exact hset)]
    have hstack₂ : u₂.frames[t]? = some (.adds id c :: stack) := getElem?_withStack hstack₁
    have h₃ : u₂.step (.go t) = some u₃ := by
      rw [step_go hstack₂]
      rfl
    refine ⟨u₃, (Leads.of_step rfl h₁).trans ((Leads.of_go h₂).trans (Leads.of_go h₃)), ?_⟩
    rw [if_neg hset]
    refine h.becomes ((List.set_set _).trans (List.set_set _)) rfl ?_ ⟨rfl, rfl, List.length_set⟩ h.outer
    intro i
    show s.isCancelled i = ((s.forest.update id _).token i).reason.isSome
    rw [h.flags, Forest.token_update hid]
    by_cases hi : i = id
    · rw [if_pos hi, hi]
      rfl
    · rw [if_neg hi]
      rfl

/-! ## Callbacks that have to run

  The forest keeps its work in a list, and the thread in a stack of calls. `pending` reads the one off the other: what
  the innermost call has to invoke comes first.  Callbacks that trip or register push a call, and it is on top of the
  stack that its own callbacks come before those that waited longer, which is the order of the list. -/

/-- What the calls of a thread have still to invoke. -/
def pending : List TokenCall → List (TokenId × Callback)
  | [] => []
  | .invokes id cs :: below => cs.map (fun c => (id, c)) ++ pending below
  | _ :: below => pending below

/-- A thread that has only to invoke callbacks, one from within another. -/
inductive Wound : List TokenCall → Prop
  | idle : Wound []
  | outermost {id : TokenId} {cs : List Callback} : Wound [.invokes id cs]
  | nested {id i : TokenId} {cs : List Callback} {c : Callback} {rest : List TokenCall} (h : Wound rest) :
      Wound (.invokes id cs :: .within i c :: rest)

/-- How many callbacks are left in a call does not matter to its shape. -/
theorem Wound.change {cs ds : List Callback} (h : Wound (.invokes id cs :: below)) :
    Wound (.invokes id ds :: below) := by
  cases h with
  | outermost => exact .outermost
  | nested h => exact .nested h

/-- A call that has nothing left to invoke returns. -/
theorem Alone.leads_end (h : Alone s t f (.invokes id [] :: below)) :
    ∃ s', Leads t s s' ∧ Alone s' t f below := by
  refine ⟨s.withStack t below, Leads.of_go ?_, ?_⟩
  · rw [step_go h.calls]
    rfl
  · exact h.becomes rfl h.forest h.flags ⟨rfl, rfl, rfl⟩ fun call hcall =>
      h.outer call (List.mem_cons_of_mem _ hcall)

/-- A callback that has done what it says returns to the call that invoked it. -/
theorem Alone.leads_leave (h : Alone s t f (.within id c :: below)) :
    ∃ s', Leads t s s' ∧ Alone s' t f below := by
  refine ⟨s.withStack t below, Leads.of_step (e := .leave t false) rfl ?_, ?_⟩
  · rw [step, h.calls]
  · exact h.becomes rfl h.forest h.flags ⟨rfl, rfl, rfl⟩ fun call hcall =>
      h.outer call (List.mem_cons_of_mem _ hcall)

/-- A thread gets to its next callback, or to the end of all its calls. -/
theorem Alone.unwinds (h : Alone s t f stack) (hw : Wound stack) :
    ∃ s' stack', Leads t s s' ∧ Alone s' t f stack' ∧ pending stack' = pending stack ∧
      (stack' = [] ∨ ∃ id c cs below, stack' = .invokes id (c :: cs) :: below ∧ Wound (.invokes id cs :: below)) := by
  -- induction on how deep the calls lie in each other
  induction hw generalizing s with
  | idle => exact ⟨s, [], Leads.refl t s, h, rfl, Or.inl rfl⟩
  | @outermost id cs =>
    cases cs with
    | nil =>
      obtain ⟨u, hu, halone⟩ := h.leads_end
      exact ⟨u, [], hu, halone, rfl, Or.inl rfl⟩
    | cons c rest => exact ⟨s, _, Leads.refl t s, h, rfl, Or.inr ⟨id, c, rest, [], rfl, .outermost⟩⟩
  -- the innermost call is over: the thread leaves the callback that made it, and looks at the next call
  | @nested id i cs c rest hrest ih =>
    cases cs with
    | nil =>
      obtain ⟨u, hu, halone⟩ := h.leads_end
      obtain ⟨v, hv, hleft⟩ := halone.leads_leave
      obtain ⟨s', stack', hs', hfinal, hpending, hshape⟩ := ih hleft
      exact ⟨s', stack', hu.trans (hv.trans hs'), hfinal, hpending, hshape⟩
    | cons d more => exact ⟨s, _, Leads.refl t s, h, rfl, Or.inr ⟨id, d, more, _, rfl, .nested hrest⟩⟩

/-- A state that a thread gets to, with callbacks to run before the rest. -/
def Reaches (t : Nat) (s : Threads) (f : Forest) (work : List (TokenId × Callback)) : Prop :=
  ∃ s' stack', Leads t s s' ∧ Alone s' t f stack' ∧ Wound stack' ∧ pending stack' = work

/-- The callback returns, and the calls below it go on. -/
theorem Alone.reaches_leave (h : Alone s t f (.within id c :: below)) (hw : Wound below) :
    Reaches t s f (pending below) := by
  obtain ⟨s', hs', halone⟩ := h.leads_leave
  exact ⟨s', below, hs', halone, hw, rfl⟩

/-- Steps before do not change what is reached. -/
theorem Reaches.of_leads {u : Threads} {work : List (TokenId × Callback)} (h : Leads t s u)
    (hu : Reaches t u f work) : Reaches t s f work := by
  obtain ⟨s', stack', hs', halone, hw, hpending⟩ := hu
  exact ⟨s', stack', h.trans hs', halone, hw, hpending⟩

/-- From within a callback a token is tripped. -/
theorem Alone.reaches_trip {i : TokenId} (h : Alone s t f (.within id c :: below)) (hw : Wound below)
    (hi : i < f.tokens.length) (reason : CancelReason) :
    Reaches t s (f.raise i reason).1 ((f.raise i reason).2 ++ pending below) := by
  -- the trip has its own callbacks run before the rest
  obtain ⟨u, hu, halone⟩ := h.leads_trip rfl hi reason
  by_cases hset : f.isCancelled i = true
  · rw [if_pos hset] at halone
    rw [Forest.raise, if_pos hset] at halone ⊢
    exact Reaches.of_leads hu (halone.reaches_leave hw)
  · rw [if_neg hset] at halone
    refine ⟨u, _, hu, halone, .nested hw, ?_⟩
    rw [Forest.raise, if_neg hset]
    rfl

/-- From within a callback another one is registered. -/
theorem Alone.reaches_onCancel {i : TokenId} {d : Callback} (h : Alone s t f (.within id c :: below))
    (hw : Wound below) (hi : i < f.tokens.length) :
    if f.isCancelled i then Reaches t s f ((i, d) :: pending below)
    else Reaches t s (f.update i { f.token i with callbacks := (f.token i).callbacks ++ [d] }) (pending below) := by
  obtain ⟨u, hu, halone⟩ := h.leads_onCancel rfl hi d
  by_cases hset : f.isCancelled i = true
  · rw [if_pos hset] at halone ⊢
    exact ⟨u, _, hu, halone, .nested hw, rfl⟩
  · rw [if_neg hset] at halone ⊢
    exact Reaches.of_leads hu (halone.reaches_leave hw)

/-- **A callback that a thread runs does what the forest does with it.** -/
theorem Alone.reaches_runCallback {cs : List Callback} (h : Alone s t f (.invokes id (c :: cs) :: below))
    (hw : Wound (.invokes id cs :: below)) :
    Reaches t s (f.runCallback id c).1 ((f.runCallback id c).2 ++ pending (.invokes id cs :: below)) := by
  -- the callback starts
  let u := { s with forest := s.forest.note c, invoked := s.invoked ++ [(id, c)] }.withStack
    t (.within id c :: .invokes id cs :: below)
  have hu : Leads t s u := Leads.of_go (by rw [step_go h.calls]; rfl)
  -- the note is in the log; nothing else has changed
  have hforest : u.forest = f.note c := congrArg (fun f => f.note c) h.forest
  have hbelow : ∀ call ∈ below, call.isOuter = true := fun call hcall =>
    h.outer call (List.mem_cons_of_mem _ hcall)
  have halone : Alone u t (f.note c) (.within id c :: .invokes id cs :: below) := by
    refine h.becomes rfl hforest ?_ Forest.alike_note (outer_cons rfl (outer_cons rfl hbelow))
    intro i
    rw [Forest.isCancelled, Forest.reason?_note]
    exact h.flags i
  -- then it does one of four things
  refine Reaches.of_leads hu ?_
  generalize f.runCallback id c = after, Forest.does_runCallback f id c = hdoes
  cases hdoes with
  -- it returns at once
  | nothing => exact halone.reaches_leave hw
  | trips halive => exact halone.reaches_trip hw (halone.rooted _ halive) _
  | @invokes i d halive hset =>
    have hreaches := halone.reaches_onCancel (d := d) hw (halone.rooted i halive)
    rwa [if_pos hset] at hreaches
  | @registers i d halive hunset =>
    have hreaches := halone.reaches_onCancel (d := d) hw (halone.rooted i halive)
    rwa [if_neg hunset] at hreaches

/-- A thread runs all callbacks that it has to, and what they set off. -/
theorem Alone.leads_runCallbacks {steps : Nat} (h : Alone s t f stack) (hw : Wound stack)
    (hsteps : Forest.workWeight (pending stack) + f.weight ≤ steps) :
    ∃ s', Leads t s s' ∧ Alone s' t (Forest.runCallbacks steps (pending stack) f) [] := by
  -- induction on the steps that the forest allows; the thread takes as many as it needs
  induction steps generalizing s f stack with
  | zero =>
    obtain ⟨s', stack', hs', halone, hpending, rfl | ⟨id, c, cs, below, rfl, -⟩⟩ := h.unwinds hw
    · exact ⟨s', hs', halone⟩
    · -- a callback has a weight
      have hone := Forest.one_le_weight c
      -- no step is left, so no work is
      rw [← hpending, pending, List.map_cons, Forest.workWeight, Forest.weightOf] at hsteps
      simp only [List.cons_append, List.map_cons, List.sum_cons] at hsteps
      omega
  | succ steps ih =>
    obtain ⟨u, stack', hu, halone, hpending, rfl | ⟨id, c, cs, below, rfl, hwound⟩⟩ := h.unwinds hw
    · rw [← hpending]
      exact ⟨u, hu, halone⟩
    · obtain ⟨v, stack'', hv, hafter, hw'', hwork⟩ := halone.reaches_runCallback hwound
      have hlist : pending stack = (id, c) :: pending (.invokes id cs :: below) := by
        -- the first callback of the work is the one that the thread runs next
        rw [← hpending]
        rfl
      have hweight := Forest.weight_runCallback halone.rooted id c
      have hless : Forest.workWeight (pending stack'') + (f.runCallback id c).1.weight ≤ steps := by
        -- what it sets off weighs less than it did
        rw [hwork, Forest.workWeight_append]
        rw [hlist, Forest.workWeight, Forest.weightOf, List.map_cons, List.map_cons, List.sum_cons] at hsteps
        rw [Forest.workWeight, Forest.weightOf] at hweight ⊢
        rw [Forest.workWeight, Forest.weightOf]
        dsimp only at hsteps
        omega
      obtain ⟨s', hs', hfinal⟩ := ih hafter hw'' hless
      refine ⟨s', hu.trans (hv.trans hs'), ?_⟩
      rw [hlist]
      rw [hwork] at hfinal
      exact hfinal

/-! ## The main results

  Both functions of the forest are runs of a thread that is alone.  So whatever is proved of all interleavings holds
  of the forest as well. -/

/-- **A forest's trip is that of a thread that nobody comes between.** -/
theorem Alone.leads_forest_trip (h : Alone s t f []) (hid : id < f.tokens.length) (reason : CancelReason) :
    ∃ s', Leads t s s' ∧ Alone s' t (f.trip id reason) [] := by
  -- raising the token leaves its callbacks to be run, and running them is the forest's own trip
  obtain ⟨u, hu, halone⟩ := h.leads_trip rfl hid reason
  have hw : Wound (if f.isCancelled id then [] else [.invokes id (f.token id).callbacks]) := by
    split
    · exact .idle
    · exact .outermost
  have hpending : pending (if f.isCancelled id then [] else [.invokes id (f.token id).callbacks]) =
      (f.raise id reason).2 := by
    rw [Forest.raise]
    split
    · rfl
    · exact List.append_nil _
  obtain ⟨s', hs', hfinal⟩ := halone.leads_runCallbacks hw (Nat.le_refl _)
  refine ⟨s', hu.trans hs', ?_⟩
  rw [hpending] at hfinal
  rw [Forest.trip]
  dsimp only
  rw [Forest.runAll, Forest.workWeight_eq]
  exact hfinal

/-- **A forest's registration is that of a thread that nobody comes between.** -/
theorem Alone.leads_forest_onCancel (h : Alone s t f []) (hid : id < f.tokens.length) (c : Callback) :
    ∃ s', Leads t s s' ∧ Alone s' t (f.onCancel id c) [] := by
  obtain ⟨u, hu, halone⟩ := h.leads_onCancel rfl hid c
  rw [Forest.onCancel]
  -- the callback is run at once if the token is tripped, and waits otherwise
  split
  · rename_i hset
    rw [if_pos hset] at halone
    obtain ⟨s', hs', hfinal⟩ := halone.leads_runCallbacks .outermost (Nat.le_refl _)
    refine ⟨s', hu.trans hs', ?_⟩
    rw [Forest.runAll, Forest.workWeight_eq]
    exact hfinal
  · rename_i hset
    rw [if_neg hset] at halone
    exact ⟨u, hu, halone⟩

end Threads

end Wheelwright
