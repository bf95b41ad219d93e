/-
  Lineage — a token is tripped exactly when a trip fell on it or on one of its ancestors.

  **Specification** — tokens are made, each by itself or below another one, and they are tripped in any order,
  on request or by their deadlines; all of them are kept.  Then a token is tripped if and only if some trip
  was of a token of its lineage, its reason is that of the first such trip that found its own token
  untripped, and a trip leaves every token alone that it is not in the lineage of.

  **State** — a `Grove` is a forest with books beside it: the lineage of each token, and all trips.

  **The crux** — the books agree with the forest (`Sound`).  A new token is as tripped as its parent, since no
  trip so far was of the new token; a trip adds a reason where none was, and only below its token.
-/
import Mathlib.Data.List.Find
import Wheelwright.Proofs.Cancellation.Spread

namespace Wheelwright

/-! ## Tokens and what became of them

  The forest has no parents in it.  The books beside it have: for each token its lineage, as it was told when the
  token was made, and all trips with what they led to.  They are written by the events and read by no function of the
  program. -/

/-- A trip of a token. -/
structure Trip where
  /-- The token that somebody tries to trip. -/
  token : TokenId
  reason : CancelReason
  /-- It found its token untripped. -/
  effective : Bool
  deriving DecidableEq

/-- A forest, with the lineage of each token and all trips so far. -/
structure Grove where
  /-- What the program keeps. -/
  forest : Forest := {}
  /-- Each token and its ancestors, the nearest first. -/
  lineages : List (List TokenId) := []
  /-- All trips so far, the earliest first. -/
  trips : List Trip := []

namespace Grove

/-- What may happen to tokens that are all kept. -/
inductive Event where
  /-- A token without a parent. -/
  | create
  /-- A token that is tripped with its parent, if not before. -/
  | child (parent : TokenId)
  | withDeadline (parent : TokenId) (d : Span) (now : Nat)
  /-- A callback is registered that only looks on, or that breaks off. -/
  | watch (token : TokenId) (label : String) (panics : Bool)
  /-- Somebody trips a token, whether it is tripped already or not. -/
  | trip (token : TokenId) (reason : CancelReason)
  /-- The time of a deadline is over. -/
  | elapse (timer : TokenTimer)
  /-- Timers of tripped tokens end. -/
  | settle

/-- The token that is tripped. -/
def Event.tripped? : Event → Option TokenId
  | .trip id _ => some id
  | .elapse timer => some timer.token
  | _ => none

/-- The token itself and its ancestors. -/
def lineage (g : Grove) (id : TokenId) : List TokenId := g.lineages.getD id []

/-- A token was made, with these ancestors. -/
def grow (g : Grove) (made : Forest × TokenId) (above : List TokenId) : Grove :=
  { g with forest := made.1, lineages := g.lineages ++ [made.2 :: above] }

/-- A trip of `id` led to `after`. -/
def noteTrip (g : Grove) (id : TokenId) (reason : CancelReason) (after : Forest) : Grove :=
  { g with forest := after, trips := g.trips ++ [⟨id, reason, !g.forest.isCancelled id⟩] }

/-- An event happens, if the tokens are there that it is about. -/
def step (g : Grove) : Event → Option Grove
  | .create => some (g.grow g.forest.create [])
  | .child p => if p < g.forest.tokens.length then some (g.grow (g.forest.child p) (g.lineage p)) else none
  | .withDeadline p d now =>
    if p < g.forest.tokens.length then some (g.grow (g.forest.withDeadline p d now) (g.lineage p)) else none
  | .watch id label panics =>
    if id < g.forest.tokens.length then
      some { g with forest := g.forest.onCancel id (.notify label (if panics then .panic else .nothing)) }
    else none
  | .trip id reason =>
    if id < g.forest.tokens.length then some (g.noteTrip id reason (g.forest.trip id reason)) else none
  | .elapse t =>
    if t ∈ g.forest.timers then some (g.noteTrip t.token (.deadlineElapsed t.afterMs) (g.forest.fire t)) else none
  | .settle => some { g with forest := g.forest.settleTimers }

/-- Events happen one after the other. -/
def follow (g : Grove) : List Event → Option Grove
  | [] => some g
  | e :: rest => (g.step e).bind fun g => g.follow rest

/-- The reason of the first effective trip of a token or of its ancestors. -/
def firstReason? (g : Grove) (id : TokenId) : Option CancelReason :=
  (g.trips.find? fun t => t.effective && (g.lineage id).contains t.token).map Trip.reason

/-! ## What every step keeps

  The forest is at rest between two events, and what the books say of reasons is what the forest has.  A new token
  starts with no trip of its own, so its first reason is that of its parent; a trip gives its reason to those below it
  that had none. -/

variable {g g' : Grove} {e : Event} {id : TokenId}

/-- The books agree with the forest. -/
structure Sound (g : Grove) : Prop where
  /-- One lineage for each token. -/
  length : g.lineages.length = g.forest.tokens.length
  /-- The tokens are at rest, and these are their lineages. -/
  grown : Forest.Grown g.lineage g.forest
  /-- What was tripped stays so. -/
  tripped : ∀ t ∈ g.trips, t.token < g.forest.tokens.length ∧ g.forest.isCancelled t.token = true
  /-- The reason of a token is that of the first effective trip of one of its lineage. -/
  reasons : ∀ id, g.forest.reason? id = g.firstReason? id

/-- Before the first event there is no token. -/
theorem sound_empty : Sound {} where
  length := rfl
  grown := by
    -- everything that is asked is asked of a token
    refine ⟨?_, ?_, ?_, ?_, ?_, ?_, ?_⟩
    · exact fun id => ⟨fun h => (by cases h), fun h => absurd h (Nat.not_lt_zero id)⟩
    · exact fun _ h => by cases h
    · exact fun _ _ => rfl
    · exact fun id h => absurd h (Nat.not_lt_zero id)
    · exact fun _ _ h => by cases h
    · exact fun id h => absurd h (Nat.not_lt_zero id)
    · exact fun id h => absurd h (Nat.not_lt_zero id)
  tripped := fun _ h => by cases h
  reasons := fun _ => rfl

/-- The token that is made is the first of its own lineage. -/
theorem lineage_grow_self (made : Forest × TokenId) (above : List TokenId) :
    (g.grow made above).lineage g.lineages.length = made.2 :: above := by
  rw [lineage, grow]
  dsimp only
  rw [List.getD_eq_getElem?_getD, List.getElem?_append_right (Nat.le_refl _), Nat.sub_self]
  rfl

/-- No other lineage changes. -/
theorem lineage_grow_of_ne (made : Forest × TokenId) (above : List TokenId) (h : id ≠ g.lineages.length) :
    (g.grow made above).lineage id = g.lineage id := by
  rw [lineage, lineage, grow]
  dsimp only
  rw [List.getD_eq_getElem?_getD, List.getD_eq_getElem?_getD]
  rcases Nat.lt_or_gt_of_ne h with hlt | hgt
  · rw [List.getElem?_append_left hlt]
  · rw [List.getElem?_eq_none (Nat.le_of_lt hgt), List.getElem?_eq_none]
    rw [List.length_append]
    exact hgt

/-- One more trip gives its reason to those below its token that had none, if it was effective. -/
theorem firstReason?_noteTrip (g : Grove) (id : TokenId) (reason : CancelReason) (after : Forest) (y : TokenId) :
    (g.noteTrip id reason after).firstReason? y = (g.firstReason? y).or
      (if id ∈ g.lineage y ∧ g.forest.isCancelled id = false then some reason else none) := by
  -- the trip counts for the token if it was effective and is in its lineage
  have hfits : (!g.forest.isCancelled id && (g.lineage y).contains id) = true ↔
      id ∈ g.lineage y ∧ g.forest.isCancelled id = false := by
    rw [Bool.and_eq_true, Bool.not_eq_true', List.contains_iff_mem, and_comm]
  show (List.find? (fun t : Trip => t.effective && (g.lineage y).contains t.token)
    (g.trips ++ [⟨id, reason, !g.forest.isCancelled id⟩])).map Trip.reason = _
  rw [List.find?_append, Option.map_or, List.find?_singleton]
  dsimp only
  by_cases h : id ∈ g.lineage y ∧ g.forest.isCancelled id = false
  · rw [if_pos (hfits.mpr h), if_pos h]
    rfl
  · rw [if_neg (mt hfits.mp h), if_neg h]
    rfl

/-- No trip so far was of a token that is not there. -/
theorem Sound.find?_cons (h : Sound g) (above : List TokenId) :
    g.trips.find? (fun t => t.effective && (g.forest.tokens.length :: above).contains t.token) =
      g.trips.find? fun t => t.effective && above.contains t.token := by
  refine List.find?_congr ?_
  intro t ht
  have hne : (t.token == g.forest.tokens.length) = false := beq_eq_false_iff_ne.mpr (Nat.ne_of_lt (h.tripped t ht).1)
  rw [List.contains_cons, hne, Bool.false_or]

/-- A new token is as tripped as its parent: no trip was of that token itself. -/
theorem Sound.grow {made : Forest × TokenId} (h : Sound g) (parent : Option TokenId)
    (hs : Forest.Sprouts parent g.forest made.1) (hid : made.2 = g.forest.tokens.length) :
    Sound (g.grow made (parent.elim [] g.lineage)) := by
  have hself := lineage_grow_self (g := g) made (parent.elim [] g.lineage)
  -- no lineage of an older token has changed
  have hother : ∀ y ≠ g.forest.tokens.length, (g.grow made (parent.elim [] g.lineage)).lineage y = g.lineage y := by
    intro y hy
    exact lineage_grow_of_ne made _ (h.length ▸ hy)
  rw [h.length, hid] at hself
  refine ⟨?_, h.grown.sprouts hs hother hself, ?_, ?_⟩
  -- length: one lineage more and one token more
  · show (g.lineages ++ [_]).length = made.1.tokens.length
    rw [hs.length, List.length_append, h.length]
    rfl
  -- tripped: trips were of older tokens, which are as they were
  · intro t ht
    obtain ⟨hlt, hset⟩ := h.tripped t ht
    refine ⟨?_, ?_⟩
    · show t.token < made.1.tokens.length
      rw [hs.length]
      exact Nat.lt_succ_of_lt hlt
    · show (made.1.reason? t.token).isSome = true
      rw [hs.reason _ hlt]
      exact hset
  -- reasons: an older token, the new one, or none at all
  · intro y
    rw [firstReason?]
    show made.1.reason? y = (g.trips.find? _).map Trip.reason
    rcases Nat.lt_trichotomy y g.forest.tokens.length with hy | rfl | hy
    · rw [hother y (Nat.ne_of_lt hy), hs.reason y hy]
      exact h.reasons y
    · rw [hself, Forest.reason?, hs.new, h.find?_cons]
      -- a token without a parent is in no older token's lineage; a child has its parent's reason
      cases parent with
      | none =>
        have hnone : g.trips.find? (fun t => t.effective && ([] : List TokenId).contains t.token) = none :=
          List.find?_eq_none.mpr fun t _ => by simp
        rw [Option.elim_none, hnone]
        rfl
      | some p => exact h.reasons p
    · rw [hother y (Nat.ne_of_gt hy), ← firstReason?, ← h.reasons y, Forest.reason?, Forest.reason?,
        Forest.token_of_length_le (Nat.le_of_lt hy), Forest.token_of_length_le (by rw [hs.length]; exact hy)]

/-- A trip adds its reason where none was, and only below its token. -/
theorem Sound.noteTrip {reason : CancelReason} {after : Forest} (h : Sound g) (hid : id < g.forest.tokens.length)
    (htokens : after.tokens = (g.forest.trip id reason).tokens)
    (hhandles : after.handles = (g.forest.trip id reason).handles)
    (htimers : ∀ t ∈ after.timers, t ∈ (g.forest.trip id reason).timers) : Sound (g.noteTrip id reason after) := by
  -- a trip makes no token, and of each token it is known what it does
  have hlength : after.tokens.length = g.forest.tokens.length := by
    rw [htokens]
    exact Forest.alike_trip.length
  have htoken : ∀ y, after.token y = if id ∈ g.lineage y ∧ g.forest.isCancelled y = false then
      { reason := some reason } else g.forest.token y := by
    intro y
    rw [← h.grown.token_trip hid _, Forest.token, Forest.token, htokens]
  refine ⟨h.length.trans hlength.symm, (h.grown.trip hid reason).congr htokens hhandles htimers, ?_, ?_⟩
  -- tripped: those before stay so, and this one is
  · intro t ht
    show t.token < after.tokens.length ∧ (after.token t.token).reason.isSome = true
    rw [hlength, htoken]
    rcases List.mem_append.mp ht with ht | ht
    · obtain ⟨hlt, hset⟩ := h.tripped t ht
      refine ⟨hlt, ?_⟩
      rw [if_neg (by rw [hset]; exact fun hand => Bool.noConfusion hand.2)]
      exact hset
    · rw [List.mem_singleton.mp ht]
      refine ⟨hid, ?_⟩
      split
      · rfl
      · rename_i hnot
        rw [← Bool.not_eq_false]
        exact fun hun => hnot ⟨h.grown.mem_line_self hid, hun⟩
  -- reasons: a token keeps the one that it has, and else gets this one if it is below the token that is tripped
  · intro y
    rw [firstReason?_noteTrip, ← h.reasons y]
    show (after.token y).reason = _
    rw [htoken]
    by_cases hset : g.forest.isCancelled y = true
    · -- the token had a reason already
      obtain ⟨r, hr⟩ := Option.isSome_iff_exists.mp hset
      rw [if_neg (by rw [hset]; exact fun hand => Bool.noConfusion hand.2), hr, Option.some_or]
      exact hr
    · have hnone : g.forest.reason? y = none := Option.not_isSome_iff_eq_none.mp hset
      rw [Bool.not_eq_true] at hset
      rw [hnone, Option.none_or]
      -- the trip was effective, since otherwise the token would have been tripped before
      by_cases hmem : id ∈ g.lineage y
      · have hun : g.forest.isCancelled id = false := by
          rw [← Bool.not_eq_true]
          intro hid
          rw [h.grown.isCancelled_of_mem hmem hid] at hset
          cases hset
        rw [if_pos ⟨hmem, hset⟩, if_pos ⟨hmem, hun⟩]
      · rw [if_neg fun hand => hmem hand.1, if_neg fun hand => hmem hand.1]
        exact hnone

/-- The books say the same of a forest with the same reasons. -/
theorem Sound.congr {after : Forest} (h : Sound g) (hgrown : Forest.Grown g.lineage after)
    (hlength : after.tokens.length = g.forest.tokens.length)
    (hreason : ∀ y, after.reason? y = g.forest.reason? y) : Sound { g with forest := after } where
  length := h.length.trans hlength.symm
  grown := hgrown
  tripped := by
    intro t ht
    rw [Forest.isCancelled, hreason, hlength]
    exact h.tripped t ht
  reasons := fun y => (hreason y).trans (h.reasons y)

/-- **One event.** -/
theorem Sound.step (h : Sound g) (hg : g.step e = some g') : Sound g' := by
  -- three events make a token, two trip one, and the others leave tokens as they are
  cases e with
  | create =>
    cases hg
    exact h.grow none (Forest.sprouts_create _) rfl
  | child p =>
    rw [Grove.step, Option.ite_none_right_eq_some] at hg
    obtain ⟨hp, hg⟩ := hg
    cases hg
    exact h.grow (some p) (Forest.sprouts_child hp) rfl
  | withDeadline p d now =>
    rw [Grove.step, Option.ite_none_right_eq_some] at hg
    obtain ⟨hp, hg⟩ := hg
    cases hg
    exact h.grow (some p) (Forest.sprouts_withDeadline hp d now) rfl
  -- a callback that only looks on or breaks off concerns no token
  | watch id label panics =>
    rw [Grove.step, Option.ite_none_right_eq_some] at hg
    obtain ⟨hid, hg⟩ := hg
    cases hg
    have hquiet : Callback.notify label (if panics then .panic else .nothing) = .notify label .nothing ∨
        Callback.notify label (if panics then .panic else .nothing) = .notify label .panic := by
      cases panics
      · exact Or.inl rfl
      · exact Or.inr rfl
    obtain ⟨hgrown, hlength, hreason⟩ := h.grown.onCancel hid hquiet
    exact h.congr hgrown hlength hreason
  | trip id reason =>
    rw [Grove.step, Option.ite_none_right_eq_some] at hg
    obtain ⟨hid, hg⟩ := hg
    cases hg
    exact h.noteTrip hid rfl rfl fun _ ht => ht
  -- a timer is about a token that there is
  | elapse t =>
    rw [Grove.step, Option.ite_none_right_eq_some] at hg
    obtain ⟨ht, hg⟩ := hg
    cases hg
    exact h.noteTrip (h.grown.timers t ht) rfl rfl fun _ => List.mem_of_mem_erase
  | settle =>
    cases hg
    exact h.congr (h.grown.congr rfl rfl fun _ ht => (List.mem_filter.mp ht).1) rfl fun _ => rfl

/-- **Any events.** -/
theorem Sound.follow {events : List Event} (h : Sound g) (hg : g.follow events = some g') : Sound g' := by
  induction events generalizing g with
  | nil =>
    cases hg
    exact h
  | cons e rest ih =>
    obtain ⟨u, hu, hrest⟩ := Option.bind_eq_some_iff.mp hg
    exact ih (h.step hu) hrest

/-! ## The main result

  Both directions of the iff are fields of the invariant by now.  The run at the end has four generations and a
  deadline, and one token that is tripped before its root. -/

/-- A token is tripped exactly if one of its lineage was. -/
theorem Sound.isCancelled_iff (h : Sound g) :
    g.forest.isCancelled id = true ↔ ∃ t ∈ g.trips, t.token ∈ g.lineage id := by
  constructor
  -- a reason comes from a trip
  · intro hset
    rw [Forest.isCancelled, h.reasons, firstReason?, Option.isSome_map] at hset
    obtain ⟨t, hfound⟩ := Option.isSome_iff_exists.mp hset
    have htrue := List.find?_some hfound
    rw [Bool.and_eq_true, List.contains_iff_mem] at htrue
    exact ⟨t, List.mem_of_find?_eq_some hfound, htrue.2⟩
  -- a trip reaches all that is below its token
  · rintro ⟨t, ht, hmem⟩
    exact h.grown.isCancelled_of_mem hmem (h.tripped t ht).2

/-- Only tokens change that the tripped one is in the lineage of. -/
theorem Sound.token_of_not_mem (h : Sound g) (he : e.tripped? = some id) (hg : g.step e = some g')
    {other : TokenId} (hother : id ∉ g.lineage other) : g'.forest.token other = g.forest.token other := by
  -- only two events trip a token; of the others nothing is asked
  cases e with
  | trip i reason =>
    cases he
    rw [Grove.step, Option.ite_none_right_eq_some] at hg
    obtain ⟨hid, hg⟩ := hg
    cases hg
    exact (h.grown.token_trip hid _ other).trans (if_neg fun hand => hother hand.1)
  | elapse t =>
    cases he
    rw [Grove.step, Option.ite_none_right_eq_some] at hg
    obtain ⟨ht, hg⟩ := hg
    cases hg
    exact (h.grown.token_trip (h.grown.timers t ht) _ other).trans (if_neg fun hand => hother hand.1)
  | create | child | withDeadline | watch | settle => cases he

/-- **Trips go down the lineages and nowhere else**: whatever was made and tripped, in whatever order, a token
    is tripped if and only if a trip was of itself or of an ancestor, its reason is that of the first of
    these that was effective, and the next trip changes no token but those below the tripped one. -/
theorem trips_descend {events : List Event} (h : follow {} events = some g) :
    (∀ id, g.forest.isCancelled id = true ↔ ∃ t ∈ g.trips, t.token ∈ g.lineage id) ∧
    (∀ id, g.forest.reason? id = g.firstReason? id) ∧
    ∀ e id g', e.tripped? = some id → g.step e = some g' →
      ∀ other, id ∉ g.lineage other → g'.forest.token other = g.forest.token other := by
  have hs := sound_empty.follow h
  exact ⟨fun _ => hs.isCancelled_iff, hs.reasons, fun _ _ _ he hg _ hother => hs.token_of_not_mem he hg hother⟩

/-- A leaf that was tripped before its root passes its own reason on, also to a child that is made later; a
    deadline that is over after both trips changes nothing. -/
theorem trips_descend_four_generations :
    ∃ g, follow {} [.create, .child 0, .child 1, .withDeadline 1 ⟨5000000⟩ 10, .watch 1 "seen" true,
        .trip 2 (.requested "leaf"), .trip 0 (.requested "root"), .child 2, .elapse ⟨15, 3, 5⟩] = some g ∧
      g.lineage 4 = [4, 2, 1, 0] ∧ g.forest.reason? 4 = some (.requested "leaf") ∧
      g.forest.reason? 3 = some (.requested "root") ∧
      (∀ id, g.forest.isCancelled id = true ↔ ∃ t ∈ g.trips, t.token ∈ g.lineage id) ∧
      (∀ id, g.forest.reason? id = g.firstReason? id) ∧
      ∀ e id g', e.tripped? = some id → g.step e = some g' →
        ∀ other, id ∉ g.lineage other → g'.forest.token other = g.forest.token other := by
  have hrun : (follow {} [.create, .child 0, .child 1, .withDeadline 1 ⟨5000000⟩ 10, .watch 1 "seen" true,
      .trip 2 (.requested "leaf"), .trip 0 (.requested "root"), .child 2, .elapse ⟨15, 3, 5⟩]).map
        (fun g => (g.lineage 4, g.forest.reason? 4, g.forest.reason? 3)) =
      some ([4, 2, 1, 0], some (.requested "leaf"), some (.requested "root")) := by decide +kernel
  obtain ⟨g, hg, heq⟩ := Option.map_eq_some_iff.mp hrun
  injection heq with hline heq
  injection heq with hleaf hroot
  exact ⟨g, hg, hline, hleaf, hroot, trips_descend hg⟩

end Grove

end Wheelwright
