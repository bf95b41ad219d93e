/-
  Spread — what a trip does to a tree of tokens, and what a new token adds to it.

  **Specification** — the lineage of a token is itself and its ancestors.  A trip that finds its token
  untripped raises all tokens that it is in the lineage of and that are untripped, for one reason, and it
  changes no other token.

  **Program** — `Forest.trip`, `Forest.create`, `Forest.child`, `Forest.withDeadline`, `Forest.onCancel`.  A
  forest knows neither parents nor lineages: a child is a callback that waits with its parent, and the
  callbacks of a tripped token are gone.

  **The crux** — between two calls every child waits with its untripped parent, or is tripped as that is
  (`Grown`).  While a trip is on its way, each callback of a token that it raised has run or has to run
  (`Spread`); when none is left, all that is below the token is tripped.
-/
import Wheelwright.Proofs.Cancellation.Alone

namespace Wheelwright

namespace Forest

variable {f g : Forest} {id p : TokenId} {reason : CancelReason} {line : TokenId → List TokenId}

/-! ## Callbacks that run to the end

  The callbacks of a trip run until none is left, and the number of steps that is allowed for them is enough.  So what
  every callback keeps holds at the end, and there is no case of steps that have run out to be looked at later. -/

/-- What two runs of callbacks leave as it is both of them together do. -/
theorem Alike.trans {k : Forest} (h : Alike f g) (h' : Alike g k) : Alike f k :=
  ⟨h'.handles.trans h.handles, h'.timers.trans h.timers, h'.length.trans h.length⟩

/-- A callback makes no token and drops no handle. -/
theorem alike_runCallback (f : Forest) (owner : TokenId) (c : Callback) : Alike f (f.runCallback owner c).1 := by
  refine Alike.trans (alike_note (c := c)) ?_
  generalize f.runCallback owner c = after, does_runCallback f owner c = hdoes
  cases hdoes with
  | nothing | invokes => exact ⟨rfl, rfl, rfl⟩
  | trips => exact alike_raise
  | registers => exact ⟨rfl, rfl, List.length_set⟩

/-- What every callback keeps of the forest and of those that have to run holds when none is left. -/
theorem runCallbacks_induction {P : Forest → List (TokenId × Callback) → Prop}
    (hstep : ∀ f owner c rest, P f ((owner, c) :: rest) →
      P (f.runCallback owner c).1 ((f.runCallback owner c).2 ++ rest))
    {steps : Nat} {work : List (TokenId × Callback)} (hf : f.Rooted) (h : P f work)
    (hsteps : workWeight work + f.weight ≤ steps) : P (runCallbacks steps work f) [] := by
  -- induction on the steps that are allowed; the weight of the work never exceeds them
  induction steps generalizing work f with
  | zero =>
    cases work with
    | nil => exact h
    | cons w rest =>
      -- a callback has a weight
      have hone := one_le_weight w.2
      rw [workWeight, weightOf, List.map_cons, List.map_cons, List.sum_cons] at hsteps
      omega
  | succ steps ih =>
    cases work with
    | nil => exact h
    | cons w rest =>
      have hweight := weight_runCallback hf w.1 w.2
      have hcons : workWeight (w :: rest) = w.2.weight + workWeight rest := by
        rw [workWeight, weightOf, List.map_cons, List.map_cons, List.sum_cons]
        rfl
      have hless : workWeight ((f.runCallback w.1 w.2).2 ++ rest) + (f.runCallback w.1 w.2).1.weight ≤ steps := by
        -- what the callback sets off and what it was before: the rest of the work has not changed
        rw [workWeight_append]
        omega
      exact ih ((alike_runCallback f w.1 w.2).rooted hf) (hstep f w.1 w.2 rest h) hless

/-- A trip with no work is over. -/
theorem runCallbacks_nil (steps : Nat) (f : Forest) : runCallbacks steps [] f = f := by cases steps <;> rfl

/-! ## Trees at rest

  A tree at rest is one with no trip on its way: the children of an untripped token wait with it, and those of a
  tripped token are tripped.  It says of each token who is in its lineage, with the token first, so that different
  tokens have different lineages. -/

/-- A forest whose tokens have these lineages, between two calls. -/
structure Grown (line : TokenId → List TokenId) (f : Forest) : Prop where
  /-- Every token that was made is held: nobody has dropped one. -/
  handles : ∀ id, id ∈ f.handles ↔ id < f.tokens.length
  /-- Timers are about tokens that there are. -/
  timers : ∀ t ∈ f.timers, t.token < f.tokens.length
  /-- Tokens that there are not have no lineage. -/
  beyond : ∀ id, f.tokens.length ≤ id → line id = []
  /-- A token is the first of its lineage, and its parent is older than it is. -/
  origin : ∀ id < f.tokens.length, line id = [id] ∨ ∃ p < id, line id = id :: line p
  /-- What waits with a token concerns nobody, or it is for one of its children. -/
  callbacks : ∀ id, ∀ c ∈ (f.token id).callbacks, (∃ label, c = .notify label .nothing ∨ c = .notify label .panic) ∨
    ∃ child < f.tokens.length, c = .passOn child ∧ line child = child :: line id
  /-- A child of an untripped token hears of its trip. -/
  waits : ∀ id < f.tokens.length, ∀ p < id, line id = id :: line p → f.isCancelled p = false →
    .passOn id ∈ (f.token p).callbacks
  /-- A child of a tripped token is tripped. -/
  passed : ∀ id < f.tokens.length, ∀ p < id, line id = id :: line p → f.isCancelled p = true →
    f.isCancelled id = true

/-- A token that was not made is untripped, and nothing waits with it. -/
theorem token_of_length_le (h : f.tokens.length ≤ id) : f.token id = {} := by
  rw [token, List.getD_eq_getElem?_getD, List.getElem?_eq_none h]
  rfl

namespace Grown

/-- Whatever was made is alive. -/
theorem isAlive (h : Grown line f) (hid : id < f.tokens.length) : f.isAlive id = true := by
  rw [Forest.isAlive, List.contains_iff_mem.mpr ((h.handles id).mpr hid), Bool.true_or]

/-- And only that. -/
theorem rooted (h : Grown line f) : f.Rooted := by
  intro id hid
  rw [Forest.isAlive, Bool.or_eq_true, List.contains_iff_mem, List.any_eq_true] at hid
  rcases hid with hid | ⟨t, ht, hid⟩
  · exact (h.handles id).mp hid
  · rw [← of_decide_eq_true hid]
    exact h.timers t ht

/-- A token is in its own lineage. -/
theorem mem_line_self (h : Grown line f) (hid : id < f.tokens.length) : id ∈ line id := by
  rcases h.origin id hid with heq | ⟨p, -, heq⟩
  · rw [heq]
    exact List.mem_singleton_self id
  · rw [heq]
    exact List.mem_cons_self

/-- Only tokens that there are have a lineage. -/
theorem lt_of_mem_line (h : Grown line f) {a : TokenId} (ha : a ∈ line id) : id < f.tokens.length := by
  rcases Nat.lt_or_ge id f.tokens.length with hid | hid
  · exact hid
  · rw [h.beyond id hid] at ha
    cases ha

/-- The lineage starts with the token itself. -/
theorem head?_line (h : Grown line f) (hid : id < f.tokens.length) : (line id).head? = some id := by
  rcases h.origin id hid with heq | ⟨p, -, heq⟩ <;> rw [heq] <;> rfl

/-- Tokens have different lineages. -/
theorem line_inj (h : Grown line f) {q : TokenId} (hid : id < f.tokens.length) (hq : q < f.tokens.length)
    (heq : line id = line q) : id = q := by
  have hhead := h.head?_line hid
  rw [heq, h.head?_line hq] at hhead
  exact (Option.some.inj hhead).symm

/-- Who is in the lineage of a token is that token, or is in the lineage of its parent. -/
theorem mem_line (h : Grown line f) {a : TokenId} (ha : a ∈ line id) :
    a = id ∨ ∃ p < id, line id = id :: line p ∧ a ∈ line p := by
  rcases h.origin id (h.lt_of_mem_line ha) with heq | ⟨p, hp, heq⟩
  · rw [heq] at ha
    exact Or.inl (List.mem_singleton.mp ha)
  · rw [heq] at ha
    rcases List.mem_cons.mp ha with ha | ha
    · exact Or.inl ha
    · exact Or.inr ⟨p, hp, heq, ha⟩

/-- Nobody is tripped alone: with a token all are tripped that it is in the lineage of. -/
theorem isCancelled_of_mem (h : Grown line f) {a : TokenId} (ha : a ∈ line id) (hset : f.isCancelled a = true) :
    f.isCancelled id = true := by
  -- induction on the token: its parent is older
  induction id using Nat.strongRecOn with
  | ind id ih =>
    rcases h.mem_line ha with rfl | ⟨p, hp, heq, hmem⟩
    · exact hset
    · exact h.passed id (h.lt_of_mem_line ha) p hp heq (ih p hp hmem)

end Grown

/-! ## What a trip raises

  On its way a trip has raised some tokens and has callbacks left to run.  The invariant says that a child below a
  raised token is raised as well, or its callback is among those that are left.  A callback either raises one more
  child, whose own callbacks come next, or raises nothing. -/

/-- A trip of `id` on its way from `f` to `g`: the tokens that it has raised, and the callbacks that have to run. -/
structure Spread (line : TokenId → List TokenId) (f : Forest) (id : TokenId) (reason : CancelReason) (g : Forest)
    (work : List (TokenId × Callback)) : Prop where
  /-- Handles, timers and the number of tokens. -/
  alike : Alike f g
  /-- A token is as before, or it has been raised: then it was untripped, is below the token, and its callbacks are
      gone. -/
  each : ∀ y, g.token y = f.token y ∨
    (g.token y = { reason := some reason } ∧ f.isCancelled y = false ∧ id ∈ line y)
  /-- What has to run belongs to tokens that were raised, and waited with them. -/
  owed : ∀ w ∈ work, g.reason? w.1 = some reason ∧ f.isCancelled w.1 = false ∧ id ∈ line w.1 ∧
    w.2 ∈ (f.token w.1).callbacks
  /-- A callback of a token that was raised has run, or has to run. -/
  going : ∀ y, f.isCancelled y = false → g.isCancelled y = true → ∀ child,
    .passOn child ∈ (f.token y).callbacks → g.isCancelled child = true ∨ (y, .passOn child) ∈ work

namespace Spread

variable {work rest : List (TokenId × Callback)} {c : Callback} {owner child : TokenId}

/-- Flags that were up are up. -/
theorem isCancelled (h : Spread line f id reason g work) {y : TokenId} (hset : f.isCancelled y = true) :
    g.isCancelled y = true := by
  rcases h.each y with heq | ⟨-, hun, -⟩
  · rw [Forest.isCancelled, Forest.reason?, heq]
    exact hset
  · rw [hun] at hset
    cases hset

/-- A callback that changes no token has run. -/
theorem ran (h : Spread line f id reason g ((owner, c) :: rest)) {g' : Forest} (halike : Alike g g')
    (htoken : ∀ y, g'.token y = g.token y) (hchild : ∀ child, c = .passOn child → g.isCancelled child = true) :
    Spread line f id reason g' rest := by
  have hreason : ∀ y, g'.reason? y = g.reason? y := by
    intro y
    rw [reason?, htoken y]
    rfl
  -- neither the tokens nor what they owe has changed; there is one callback less to run
  refine ⟨h.alike.trans halike, ?_, ?_, ?_⟩
  · intro y
    rw [htoken y]
    exact h.each y
  · intro w hw
    rw [hreason]
    exact h.owed w (List.mem_cons_of_mem _ hw)
  · intro y hun hset child hmem
    rw [Forest.isCancelled, hreason] at hset
    rw [Forest.isCancelled, hreason]
    rcases h.going y hun hset child hmem with hdone | hwork
    · exact Or.inl hdone
    -- the callback that has run: if it passed the trip on, its child is tripped
    · rcases List.mem_cons.mp hwork with heq | hwork
      · injection heq with _ hc
        exact Or.inl (hchild child hc.symm)
      · exact Or.inr hwork

/-- A child that is still untripped is raised, and its own callbacks run next. -/
theorem raised (h : Spread line f id reason g ((owner, .passOn child) :: rest))
    (hlt : child < f.tokens.length) (hline : line child = child :: line owner)
    (hun : ¬ g.isCancelled child = true) :
    Spread line f id reason (g.update child { reason := some reason })
      ((g.token child).callbacks.map (fun c => (child, c)) ++ rest) := by
  obtain ⟨hreason, -, hmem, -⟩ := h.owed _ List.mem_cons_self
  -- the child is a token that was untripped before the trip
  have hlt' : child < g.tokens.length := by rw [h.alike.length]; exact hlt
  have hfun : f.isCancelled child = false := by
    rw [← Bool.not_eq_true]
    exact fun hset => hun (h.isCancelled hset)
  -- so it is as it was, and what waited with it is what has to run next
  have hsame : g.token child = f.token child := by
    rcases h.each child with heq | ⟨heq, -, -⟩
    · exact heq
    · exact absurd (by rw [Forest.isCancelled, reason?, heq]; rfl) hun
  have hmem' : id ∈ line child := by
    rw [hline]
    exact List.mem_cons_of_mem _ hmem
  have htoken : ∀ y, (g.update child { reason := some reason }).token y =
      if y = child then { reason := some reason } else g.token y := fun y => token_update hlt'
  refine ⟨h.alike.trans ⟨rfl, rfl, List.length_set⟩, ?_, ?_, ?_⟩
  -- each: only the child has changed
  · intro y
    rw [htoken y]
    by_cases hy : y = child
    · rw [if_pos hy, hy]
      exact Or.inr ⟨rfl, hfun, hmem'⟩
    · rw [if_neg hy]
      exact h.each y
  -- owed: the callbacks of the child, and those that were there
  · intro w hw
    rw [reason?, htoken]
    rcases List.mem_append.mp hw with hw | hw
    · obtain ⟨c, hc, rfl⟩ := List.mem_map.mp hw
      rw [hsame] at hc
      exact ⟨by rw [if_pos rfl], hfun, hmem', hc⟩
    · obtain ⟨hr, hrest⟩ := h.owed w (List.mem_cons_of_mem _ hw)
      refine ⟨?_, hrest⟩
      split
      · rfl
      · exact hr
  -- going: a child is tripped now, or its callback is in the list
  · intro y hyun hyset d hd
    rw [Forest.isCancelled, reason?, htoken] at hyset ⊢
    by_cases hdc : d = child
    · rw [if_pos hdc]
      exact Or.inl rfl
    · rw [if_neg hdc]
      by_cases hy : y = child
      · -- the callbacks of the child itself are in the list now
        rw [hy, ← hsame] at hd
        rw [hy]
        exact Or.inr (List.mem_append_left _ (List.mem_map_of_mem hd))
      -- an older callback is still in the list, unless it is the one that has run
      · rw [if_neg hy] at hyset
        rcases h.going y hyun hyset d hd with hdone | hwork
        · exact Or.inl hdone
        · rcases List.mem_cons.mp hwork with heq | hwork
          · injection heq with _ heq
            injection heq with heq
            exact absurd heq hdc
          · exact Or.inr (List.mem_append_right _ hwork)

/-- A callback that passes nothing on was noted. -/
theorem noted (h : Spread line f id reason g ((owner, c) :: rest)) (hpass : ∀ child, c ≠ .passOn child) :
    Spread line f id reason (g.note c) rest :=
  h.ran alike_note (fun _ => token_note) fun child heq => absurd heq (hpass child)

/-- **One callback of a trip.** -/
theorem step (hf : Grown line f) (h : Spread line f id reason g ((owner, c) :: rest)) :
    Spread line f id reason (g.runCallback owner c).1 ((g.runCallback owner c).2 ++ rest) := by
  obtain ⟨hreason, -, -, hmem⟩ := h.owed _ List.mem_cons_self
  -- what waited with a token concerns nobody, or is for one of its children
  rcases hf.callbacks owner c hmem with ⟨label, rfl | rfl⟩ | ⟨child, hlt, rfl, hline⟩
  · exact h.noted (by intro _ heq; cases heq)
  · exact h.noted (by intro _ heq; cases heq)
  · -- the parent has a reason to pass on
    have halive : g.isAlive child = true := by
      rw [isAlive_congr h.alike.handles h.alike.timers]
      exact hf.isAlive hlt
    rw [runCallback, if_pos halive, hreason, Option.getD_some, raise]
    -- a child that an earlier callback has tripped stays as it is
    by_cases hset : g.isCancelled child = true
    · rw [if_pos hset]
      refine h.ran ⟨rfl, rfl, rfl⟩ (fun _ => rfl) ?_
      intro d hd
      injection hd with hd
      rw [← hd]
      exact hset
    · rw [if_neg hset]
      exact h.raised hlt hline hset

/-- When no callback is left, all below the token are tripped. -/
theorem complete (hf : Grown line f) (h : Spread line f id reason g []) (hid : g.isCancelled id = true) {y : TokenId}
    (hy : id ∈ line y) : g.isCancelled y = true := by
  -- induction on the token below: its parent is tripped already
  induction y using Nat.strongRecOn with
  | ind y ih =>
    rcases hf.mem_line hy with rfl | ⟨p, hp, hline, hmem⟩
    · exact hid
    · have hlt := hf.lt_of_mem_line hy
      -- if the parent was tripped before the trip, so was its child; else its callback has run
      cases hset : f.isCancelled p with
      | true => exact h.isCancelled (hf.passed y hlt p hp hline hset)
      | false =>
        rcases h.going p hset (ih p hp hmem) y (hf.waits y hlt p hp hline hset) with hdone | hwork
        · exact hdone
        · cases hwork

end Spread

/-- A trip of a tripped token changes nothing. -/
theorem trip_of_cancelled (h : f.isCancelled id = true) : f.trip id reason = f := by
  rw [trip, raise, if_pos h]
  exact runCallbacks_nil _ f

/-- A trip of an untripped token leaves nothing to do. -/
theorem Grown.spread_trip (h : Grown line f) (hid : id < f.tokens.length) (hun : ¬ f.isCancelled id = true) :
    Spread line f id reason (f.trip id reason) [] := by
  have hset : f.isCancelled id = false := Bool.not_eq_true _ ▸ hun
  -- the first token is raised before any callback runs; the invariant holds from there
  have hfirst : Spread line f id reason (f.raise id reason).1 (f.raise id reason).2 := by
    rw [raise, if_neg hun]
    have htoken : ∀ y, (f.update id { reason := some reason }).token y =
        if y = id then { reason := some reason } else f.token y := fun y => token_update hid
    refine ⟨⟨rfl, rfl, List.length_set⟩, ?_, ?_, ?_⟩
    -- each
    · intro y
      show (f.update id { reason := some reason }).token y = _ ∨
        (f.update id { reason := some reason }).token y = _ ∧ _
      rw [htoken y]
      by_cases hy : y = id
      · rw [if_pos hy, hy]
        exact Or.inr ⟨rfl, hset, h.mem_line_self hid⟩
      · rw [if_neg hy]
        exact Or.inl rfl
    -- owed: the callbacks of the token itself
    · intro w hw
      obtain ⟨c, hc, rfl⟩ := List.mem_map.mp hw
      refine ⟨?_, hset, h.mem_line_self hid, hc⟩
      show ((f.update id { reason := some reason }).token id).reason = some reason
      rw [htoken, if_pos rfl]
    -- going: of the tokens that were untripped, only this one is tripped
    · intro y hyun hyset child hchild
      change ((f.update id { reason := some reason }).token y).reason.isSome = true at hyset
      rw [htoken] at hyset
      by_cases hy : y = id
      · rw [hy] at hchild ⊢
        exact Or.inr (List.mem_map_of_mem hchild)
      · rw [if_neg hy] at hyset
        rw [Forest.isCancelled, reason?, hyset] at hyun
        cases hyun
  -- then every callback keeps it, until none is left
  rw [trip]
  dsimp only
  rw [runAll, workWeight_eq]
  exact runCallbacks_induction (P := Spread line f id reason) (fun _ _ _ _ hs => hs.step h)
    (alike_raise.rooted h.rooted) hfirst (Nat.le_refl _)

/-- **A trip raises what is untripped below its token, for its reason, and nothing else.** -/
theorem Grown.token_trip (h : Grown line f) (hid : id < f.tokens.length) (reason : CancelReason) (y : TokenId) :
    (f.trip id reason).token y =
      if id ∈ line y ∧ f.isCancelled y = false then { reason := some reason } else f.token y := by
  by_cases hset : f.isCancelled id = true
  -- tripped before: then all below the token are tripped as well
  · rw [trip_of_cancelled hset, if_neg]
    rintro ⟨hmem, hun⟩
    rw [h.isCancelled_of_mem hmem hset] at hun
    cases hun
  · have hspread : Spread line f id reason (f.trip id reason) [] := h.spread_trip hid hset
    split
    -- below the token and untripped: it has been raised, as its parent was
    · rename_i hy
      rcases hspread.each y with heq | ⟨heq, -, -⟩
      · have hup := hspread.complete h (isCancelled_trip hid) hy.1
        rw [Forest.isCancelled, reason?, heq] at hup
        rw [Forest.isCancelled, reason?, hup] at hy
        cases hy.2
      · exact heq
    · rename_i hy
      -- else it cannot have been raised
      rcases hspread.each y with heq | ⟨-, hun, hmem⟩
      · exact heq
      · exact absurd ⟨hmem, hun⟩ hy

/-- A trip makes no token and drops no handle. -/
theorem alike_trip : Alike f (f.trip id reason) := by
  have hrun : ∀ steps work (g : Forest), Alike g (runCallbacks steps work g) := by
    intro steps
    induction steps with
    | zero => exact fun _ _ => ⟨rfl, rfl, rfl⟩
    | succ steps ih =>
      intro work g
      cases work with
      | nil => exact ⟨rfl, rfl, rfl⟩
      | cons w rest => exact (alike_runCallback g w.1 w.2).trans (ih _ _)
  exact alike_raise.trans (hrun _ _ _)

/-- A trip leaves a tree at rest. -/
theorem Grown.trip (h : Grown line f) (hid : id < f.tokens.length) (reason : CancelReason) :
    Grown line (f.trip id reason) := by
  have halike : Alike f (f.trip id reason) := alike_trip
  have htoken := h.token_trip hid reason
  -- an untripped token is the one that it was
  have hrest : ∀ y, (f.trip id reason).isCancelled y = false →
      (f.trip id reason).token y = f.token y ∧ id ∉ line y ∧ f.isCancelled y = false := by
    intro y hy
    rw [Forest.isCancelled, reason?, htoken y] at hy
    split at hy
    · cases hy
    · rename_i hnot
      have hun : f.isCancelled y = false := hy
      exact ⟨by rw [htoken y, if_neg hnot], fun hmem => hnot ⟨hmem, hun⟩, hun⟩
  -- handles, timers and lineages are as before; callbacks may be gone
  refine ⟨?_, ?_, ?_, ?_, ?_, ?_, ?_⟩
  · rw [halike.handles, halike.length]
    exact h.handles
  · rw [halike.timers, halike.length]
    exact h.timers
  · rw [halike.length]
    exact h.beyond
  · rw [halike.length]
    exact h.origin
  · intro y c hc
    rw [halike.length]
    rw [htoken y] at hc
    split at hc
    · cases hc
    · exact h.callbacks y c hc
  -- a parent that is untripped is as it was, so its children wait with it
  · intro y hy p hp hline hun
    rw [halike.length] at hy
    obtain ⟨hsame, -, hpun⟩ := hrest p hun
    rw [hsame]
    exact h.waits y hy p hp hline hpun
  -- and a child of a tripped one has been tripped with it or before
  · intro y hy p hp hline hset
    rw [halike.length] at hy
    rw [← Bool.not_eq_false]
    intro hun
    obtain ⟨-, hout, hyun⟩ := hrest y hun
    rw [hline] at hout
    -- then the parent was neither tripped before nor by this trip
    have hpun : f.isCancelled p = false := by
      rw [← Bool.not_eq_true]
      intro hp'
      rw [h.passed y hy p hp hline hp'] at hyun
      cases hyun
    rw [Forest.isCancelled, reason?, htoken p,
      if_neg fun hand => hout (List.mem_cons_of_mem _ hand.1)] at hset
    rw [Forest.isCancelled, reason?, hset] at hpun
    cases hpun

/-! ## What a new token changes

  A new token is the last one in the forest.  With a parent that is untripped it waits there, and with one that is
  tripped the callback runs at once, which trips the new token for the reason of its parent.  Either way the tree is
  at rest again. -/

/-- `g` has one token more than `f`, below `parent` if it is below any. -/
structure Sprouts (parent : Option TokenId) (f g : Forest) : Prop where
  length : g.tokens.length = f.tokens.length + 1
  handles : g.handles = f.tokens.length :: f.handles
  timers : ∀ t ∈ g.timers, t ∈ f.timers ∨ t.token = f.tokens.length
  below : ∀ p ∈ parent, p < f.tokens.length
  new : g.token f.tokens.length = { reason := parent.bind f.reason? }
  reason : ∀ id < f.tokens.length, g.reason? id = f.reason? id
  callbacks : ∀ id < f.tokens.length, ∀ c, c ∈ (g.token id).callbacks ↔ c ∈ (f.token id).callbacks ∨
    (parent = some id ∧ f.isCancelled id = false ∧ c = .passOn f.tokens.length)

/-- The new token holds nothing, as any token that was not made. -/
theorem token_create (f : Forest) (id : TokenId) : f.create.1.token id = f.token id := by
  -- tokens before the new one, the new one, and those that are not made
  rcases Nat.lt_trichotomy id f.tokens.length with hid | hid | hid
  · rw [token, token, create]
    dsimp only
    rw [List.getD_eq_getElem?_getD, List.getElem?_append_left hid, List.getD_eq_getElem?_getD]
  · rw [token_of_length_le (Nat.le_of_eq hid.symm), token, create, hid]
    dsimp only
    rw [List.getD_eq_getElem?_getD, List.getElem?_append_right (Nat.le_refl _), Nat.sub_self]
    rfl
  · rw [token_of_length_le (Nat.le_of_lt hid), token_of_length_le]
    rw [create]
    dsimp only
    rw [List.length_append]
    exact hid

/-- One token more. -/
theorem length_create : f.create.1.tokens.length = f.tokens.length + 1 := List.length_append

/-- A token without a parent. -/
theorem sprouts_create (f : Forest) : Sprouts none f f.create.1 where
  length := length_create
  handles := rfl
  timers := fun _ ht => Or.inl ht
  below := fun _ hp => by cases hp
  new := by rw [token_create, token_of_length_le (Nat.le_refl _), Option.bind_none]
  reason := fun id _ => by rw [reason?, token_create]; rfl
  callbacks := fun id _ c => by
    rw [token_create]
    exact ⟨Or.inl, fun h => h.resolve_right fun h => by cases h.1⟩

/-- A child of a tripped token is tripped from the start, for its parent's reason. -/
theorem child_of_cancelled (h : f.isCancelled p = true) :
    (f.child p).1 = f.create.1.update f.tokens.length { reason := f.reason? p } := by
  have hreason : f.create.1.reason? p = f.reason? p := by rw [reason?, token_create]; rfl
  have hnew : f.create.1.token f.tokens.length = {} := by
    rw [token_create, token_of_length_le (Nat.le_refl _)]
  have halive : f.create.1.isAlive f.tokens.length = true := by
    rw [Forest.isAlive, create, List.contains_cons, beq_self_eq_true, Bool.true_or, Bool.true_or]
  have hun : ¬ f.create.1.isCancelled f.tokens.length = true := by
    -- the new token is alive and untripped, so the callback raises it at once
    rw [isCancelled, reason?, hnew]
    exact Bool.false_ne_true
  obtain ⟨r, hr⟩ := Option.isSome_iff_exists.mp h
  show f.create.1.onCancel p (.passOn f.tokens.length) = _
  rw [onCancel, if_pos (by rw [isCancelled, hreason]; exact h), runAll, workWeight_eq]
  -- the weight of what has to run is one, so a step is left for it
  show runCallbacks (1 + f.create.1.weight) _ _ = _
  rw [Nat.add_comm, runCallbacks]
  dsimp only
  rw [runCallback, if_pos halive, raise, if_neg hun, hreason, hr, Option.getD_some, hnew]
  exact runCallbacks_nil _ _

/-- A child of an untripped token waits with it. -/
theorem child_of_untripped (h : ¬ f.isCancelled p = true) :
    (f.child p).1 = f.create.1.update p { f.token p with
      callbacks := (f.token p).callbacks ++ [.passOn f.tokens.length] } := by
  have hreason : f.create.1.reason? p = f.reason? p := by rw [reason?, token_create]; rfl
  -- the parent is untripped, so the callback is put into its list
  show f.create.1.onCancel p (.passOn f.tokens.length) = _
  rw [onCancel, if_neg (by rw [isCancelled, hreason]; exact h), token_create]
  rfl

/-- The new token is the last one. -/
theorem lt_length_create : f.tokens.length < f.create.1.tokens.length := by
  rw [length_create]
  exact Nat.lt_succ_self _

/-- The child of a tripped token is tripped from the start. -/
theorem sprouts_child_of_cancelled (hp : p < f.tokens.length) (hset : f.isCancelled p = true) :
    Sprouts (some p) f (f.child p).1 := by
  -- no token but the new one has changed
  have htoken : ∀ y, (f.child p).1.token y = if y = f.tokens.length then { reason := f.reason? p } else f.token y := by
    intro y
    rw [child_of_cancelled hset, token_update lt_length_create, token_create]
  refine { length := ?length, handles := ?handles, timers := ?timers, below := ?below, new := ?new,
           reason := ?reason, callbacks := ?callbacks }
  case length =>
    rw [child_of_cancelled hset, length_update, length_create]
  case handles =>
    rw [child_of_cancelled hset]
    rfl
  case timers =>
    rw [child_of_cancelled hset]
    exact fun t ht => Or.inl ht
  case below =>
    intro q hq
    exact Option.some.inj hq ▸ hp
  case new =>
    rw [htoken, if_pos rfl]
    rfl
  case reason =>
    intro y hy
    rw [reason?, htoken, if_neg (Nat.ne_of_lt hy)]
    rfl
  case callbacks =>
    intro y hy c
    rw [htoken, if_neg (Nat.ne_of_lt hy)]
    refine ⟨Or.inl, fun h => h.resolve_right ?_⟩
    -- the parent is tripped, so nothing waits with it
    rintro ⟨heq, hun, -⟩
    rw [← Option.some.inj heq, hset] at hun
    cases hun

/-- The child of an untripped token waits with it. -/
theorem sprouts_child_of_untripped (hp : p < f.tokens.length) (hun : ¬ f.isCancelled p = true) :
    Sprouts (some p) f (f.child p).1 := by
  -- no token but the parent has changed: one callback more waits with it
  have htoken : ∀ y, (f.child p).1.token y = if y = p then { f.token p with
      callbacks := (f.token p).callbacks ++ [.passOn f.tokens.length] } else f.token y := by
    intro y
    rw [child_of_untripped hun, token_update (Nat.lt_trans hp lt_length_create), token_create]
  refine { length := ?length, handles := ?handles, timers := ?timers, below := ?below, new := ?new,
           reason := ?reason, callbacks := ?callbacks }
  case length =>
    rw [child_of_untripped hun, length_update, length_create]
  case handles =>
    rw [child_of_untripped hun]
    rfl
  case timers =>
    rw [child_of_untripped hun]
    exact fun t ht => Or.inl ht
  case below =>
    intro q hq
    exact Option.some.inj hq ▸ hp
  case new =>
    have hnone : f.reason? p = none := Option.not_isSome_iff_eq_none.mp hun
    rw [htoken, if_neg (Nat.ne_of_gt hp), token_of_length_le (Nat.le_refl _), Option.bind_some, hnone]
  case reason =>
    intro y _
    rw [reason?, htoken]
    split
    · rename_i heq
      rw [heq]
      rfl
    · rfl
  case callbacks =>
    intro y hy c
    rw [htoken]
    -- the parent, and every other token
    split
    · rename_i heq
      rw [heq]
      dsimp only
      rw [List.mem_append, List.mem_singleton]
      constructor
      · rintro (hc | hc)
        · exact Or.inl hc
        · exact Or.inr ⟨rfl, Bool.not_eq_true _ ▸ hun, hc⟩
      · rintro (hc | ⟨-, -, hc⟩)
        · exact Or.inl hc
        · exact Or.inr hc
    · rename_i hne
      refine ⟨Or.inl, fun h => h.resolve_right ?_⟩
      rintro ⟨heq, -, -⟩
      exact hne (Option.some.inj heq).symm

/-- A child is tripped with its parent, at once or later. -/
theorem sprouts_child (hp : p < f.tokens.length) : Sprouts (some p) f (f.child p).1 := by
  by_cases hset : f.isCancelled p = true
  · exact sprouts_child_of_cancelled hp hset
  · exact sprouts_child_of_untripped hp hset

/-- A deadline adds a timer for the child that it is about. -/
theorem sprouts_withDeadline (hp : p < f.tokens.length) (d : Span) (now : Nat) :
    Sprouts (some p) f (f.withDeadline p d now).1 := by
  have h := sprouts_child hp
  refine ⟨h.length, h.handles, ?_, h.below, h.new, h.reason, h.callbacks⟩
  intro t ht
  rcases List.mem_append.mp ht with ht | ht
  · exact h.timers t ht
  · rw [List.mem_singleton.mp ht]
    exact Or.inr rfl

/-- **A new token leaves a tree at rest**, with its parent's lineage below its own name. -/
theorem Grown.sprouts {parent : Option TokenId} {line' : TokenId → List TokenId} (h : Grown line f)
    (hs : Sprouts parent f g) (hold : ∀ y ≠ f.tokens.length, line' y = line y)
    (hnew : line' f.tokens.length = f.tokens.length :: parent.elim [] line) : Grown line' g := by
  -- the flags of all older tokens are as before
  have hset : ∀ y < f.tokens.length, g.isCancelled y = f.isCancelled y := by
    intro y hy
    rw [isCancelled, hs.reason y hy]
    rfl
  -- the parent of the new token is the only one with that lineage
  have hparent : ∀ q < f.tokens.length, line' f.tokens.length = f.tokens.length :: line' q → parent = some q := by
    intro q hq hline
    rw [hnew, hold q (Nat.ne_of_lt hq)] at hline
    have htail := (List.cons.inj hline).2
    cases parent with
    | none => exact absurd (htail ▸ h.mem_line_self hq) List.not_mem_nil
    | some p => rw [h.line_inj (hs.below p rfl) hq htail]
  -- a token of the new tree is old, or it is the new one
  have hcases : ∀ y < g.tokens.length, y < f.tokens.length ∨ y = f.tokens.length := by
    intro y hy
    rw [hs.length] at hy
    omega
  refine { handles := ?handles, timers := ?timers, beyond := ?beyond, origin := ?origin, callbacks := ?callbacks,
           waits := ?waits, passed := ?passed }
  case handles =>
    intro y
    rw [hs.handles, hs.length, List.mem_cons, h.handles]
    exact or_comm.trans Nat.lt_succ_iff_lt_or_eq.symm
  case timers =>
    intro t ht
    rw [hs.length]
    rcases hs.timers t ht with ht | ht
    · exact Nat.lt_succ_of_lt (h.timers t ht)
    · rw [ht]
      exact Nat.lt_succ_self _
  case beyond =>
    intro y hy
    rw [hs.length] at hy
    rw [hold y (by omega)]
    exact h.beyond y (by omega)
  case origin =>
    -- lineages: old ones are as before, and the new token is below its parent
    intro y hy
    rcases hcases y hy with hy | rfl
    · rw [hold y (Nat.ne_of_lt hy)]
      rcases h.origin y hy with heq | ⟨p, hp, heq⟩
      · exact Or.inl heq
      · exact Or.inr ⟨p, hp, by rw [hold p (by omega)]; exact heq⟩
    · rw [hnew]
      cases parent with
      | none => exact Or.inl rfl
      | some p =>
        have hp := hs.below p rfl
        exact Or.inr ⟨p, hp, by rw [hold p (Nat.ne_of_lt hp)]; rfl⟩
  case callbacks =>
    intro y c hc
    rw [hs.length]
    -- what waits with an old token waited before, or is the new child; nothing waits with the new one
    rcases Nat.lt_trichotomy y f.tokens.length with hy | rfl | hy
    · rcases (hs.callbacks y hy c).mp hc with hc | ⟨rfl, -, rfl⟩
      · rcases h.callbacks y c hc with hquiet | ⟨child, hlt, rfl, hline⟩
        · exact Or.inl hquiet
        · refine Or.inr ⟨child, by omega, rfl, ?_⟩
          rw [hold child (Nat.ne_of_lt hlt), hold y (Nat.ne_of_lt hy)]
          exact hline
      · refine Or.inr ⟨f.tokens.length, Nat.lt_succ_self _, rfl, ?_⟩
        rw [hnew, hold y (Nat.ne_of_lt hy)]
        rfl
    · rw [hs.new] at hc
      cases hc
    · rw [token_of_length_le (by rw [hs.length]; exact hy)] at hc
      cases hc
  case waits =>
    -- a child of an untripped parent: old ones wait as before, the new one since just now
    intro y hy p hp hline hun
    rcases hcases y hy with hy | rfl
    · rw [hold y (by omega), hold p (by omega)] at hline
      rw [hset p (by omega)] at hun
      exact (hs.callbacks p (by omega) _).mpr (Or.inl (h.waits y hy p hp hline hun))
    · rw [hset p hp] at hun
      exact (hs.callbacks p hp _).mpr (Or.inr ⟨hparent p hp hline, hun, rfl⟩)
  case passed =>
    -- a child of a tripped parent: the new one takes over its reason
    intro y hy p hp hline hup
    rcases hcases y hy with hy | rfl
    · rw [hold y (by omega), hold p (by omega)] at hline
      rw [hset p (by omega)] at hup
      rw [hset y hy]
      exact h.passed y hy p hp hline hup
    · rw [hset p hp] at hup
      rw [isCancelled, reason?, hs.new, hparent p hp hline]
      exact hup

/-! ## What only watches

  A callback that concerns no token of the tree, such as that of a listener, may be registered and changes nothing of
  all this. -/

/-- A forest with the same tokens, and with timers of tokens that there are. -/
theorem Grown.congr (h : Grown line f) (htokens : g.tokens = f.tokens) (hhandles : g.handles = f.handles)
    (htimers : ∀ t ∈ g.timers, t ∈ f.timers) : Grown line g := by
  -- tokens are equal one by one, and so are their flags
  have htoken : ∀ y, g.token y = f.token y := by
    intro y
    rw [token, token, htokens]
  have hset : ∀ y, g.isCancelled y = f.isCancelled y := by
    intro y
    rw [isCancelled, reason?, htoken]
    rfl
  refine ⟨?_, ?_, ?_, ?_, ?_, ?_, ?_⟩ <;> simp only [htokens, hhandles, htoken, hset]
  · exact h.handles
  · exact fun t ht => h.timers t (htimers t ht)
  · exact h.beyond
  · exact h.origin
  · exact h.callbacks
  · exact h.waits
  · exact h.passed

/-- A callback that concerns nobody waits with its token. -/
theorem Grown.update_callbacks (h : Grown line f) (hid : id < f.tokens.length) {c : Callback} {label : String}
    (hc : c = .notify label .nothing ∨ c = .notify label .panic) :
    Grown line (f.update id { f.token id with callbacks := (f.token id).callbacks ++ [c] }) := by
  -- one token has one callback more
  have htoken : ∀ y, (f.update id { f.token id with callbacks := (f.token id).callbacks ++ [c] }).token y =
      if y = id then { f.token id with callbacks := (f.token id).callbacks ++ [c] } else f.token y :=
    fun y => token_update hid
  have hset : ∀ y, (f.update id { f.token id with callbacks := (f.token id).callbacks ++ [c] }).isCancelled y =
      f.isCancelled y := by
    intro y
    rw [isCancelled, reason?, htoken]
    split
    · rename_i heq
      rw [heq]
      rfl
    · rfl
  refine ⟨?_, ?_, ?_, ?_, ?_, ?_, ?_⟩ <;> simp only [length_update, hset]
  · exact h.handles
  · exact h.timers
  · exact h.beyond
  · exact h.origin
  -- what waits with it concerns nobody
  · intro y d hd
    rw [htoken] at hd
    split at hd
    · rename_i heq
      rcases List.mem_append.mp hd with hd | hd
      · rw [heq]
        exact h.callbacks id d hd
      · rw [List.mem_singleton.mp hd]
        exact Or.inl ⟨label, hc⟩
    · exact h.callbacks y d hd
  -- what waited before still waits
  · intro y hy p hp hline hpun
    have hwaits := h.waits y hy p hp hline hpun
    rw [htoken]
    split
    · rename_i heq
      rw [heq] at hwaits
      exact List.mem_append_left _ hwaits
    · exact hwaits
  · exact h.passed

/-- A callback that concerns nobody is noted at once, or waits. -/
theorem Grown.onCancel (h : Grown line f) (hid : id < f.tokens.length) {c : Callback} {label : String}
    (hc : c = .notify label .nothing ∨ c = .notify label .panic) :
    Grown line (f.onCancel id c) ∧ (f.onCancel id c).tokens.length = f.tokens.length ∧
      ∀ y, (f.onCancel id c).reason? y = f.reason? y := by
  rw [Forest.onCancel]
  -- on a tripped token the callback runs at once, and it only tells somebody
  split
  · have hran : f.runAll [(id, c)] = f.note c := by
      have hone : c.weight = 1 := by rcases hc with rfl | rfl <;> rfl
      rw [runAll, workWeight_eq]
      show runCallbacks (c.weight + f.weight) _ _ = _
      rw [hone, Nat.add_comm, runCallbacks]
      rcases hc with rfl | rfl <;> exact runCallbacks_nil _ _
    rw [hran]
    refine ⟨h.congr tokens_note alike_note.handles ?_, alike_note.length, fun _ => reason?_note⟩
    rw [alike_note.timers]
    exact fun _ ht => ht
  -- on an untripped one it waits
  · refine ⟨h.update_callbacks hid hc, List.length_set, ?_⟩
    intro y
    show ((f.update id _).token y).reason = _
    rw [token_update hid]
    split
    · rename_i heq
      rw [heq]
      rfl
    · rfl

end Forest

end Wheelwright
