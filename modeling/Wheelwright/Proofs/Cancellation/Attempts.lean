/-
  Attempts — what one step of a trip does.

  **Specification** — raising a token sets its reason, unless it has one, and takes its callbacks out; all other
  tokens stay.  A callback that runs trips a token, which is then raised, or it trips nothing; then all tokens keep
  their reasons and the callbacks that wait, and what it adds trips nothing either (`Adds`).

  **Program** — `Forest.raise` and `Forest.runCallback`.
-/
import Wheelwright.Proofs.Cancellation.Apart

namespace Wheelwright

namespace Forest

variable {f : Forest} {id x y owner : TokenId} {reason : CancelReason} {c : Callback}

/-! ## Raising

  The effect of a raise on each token, told by cases: whether it is the one that is raised, and whether it was
  untripped.  The callbacks of the token are moved and not copied. -/

/-- A trip sets the reason of its token unless there is one, and of no other. -/
theorem reason?_raise (hid : id < f.tokens.length) : (f.raise id reason).1.reason? y =
    if y = id then some ((f.reason? id).getD reason) else f.reason? y := by
  split
  · rename_i heq
    subst heq
    -- tripped before: the reason stays
    cases hset : f.reason? y with
    | some first =>
      rw [raise, isCancelled, hset, if_pos (show (some first).isSome = true from rfl), hset]
      rfl
    -- not tripped before: this is its reason
    | none =>
      have hun : f.isCancelled y = false := by rw [isCancelled, hset]; rfl
      exact reason?_raise_self hid hun
  · rename_i hne
    exact reason?_raise_of_ne hne

/-- A trip adds no callback anywhere. -/
theorem mem_callbacks_raise (hc : c ∈ ((f.raise id reason).1.token x).callbacks) : c ∈ (f.token x).callbacks := by
  rw [raise] at hc
  split at hc
  · exact hc
  -- a token that there is loses its callbacks; one that there is not has none
  · rcases Nat.lt_or_ge id f.tokens.length with hid | hid
    · replace hc : c ∈ ((f.update id { reason := some reason }).token x).callbacks := hc
      rw [token_update hid] at hc
      split at hc
      · exact absurd hc List.not_mem_nil
      · exact hc
    · rwa [List.set_eq_of_length_le hid] at hc

/-- Callbacks that are taken out were those of the token, and that was untripped. -/
theorem mem_taken {w : TokenId × Callback} (hw : w ∈ (f.raise id reason).2) :
    f.isCancelled id = false ∧ w.1 = id ∧ w.2 ∈ (f.token id).callbacks := by
  rw [raise] at hw
  split at hw
  · exact absurd hw List.not_mem_nil
  · rename_i hun
    obtain ⟨c, hc, rfl⟩ := List.mem_map.mp hw
    exact ⟨Bool.not_eq_true _ ▸ hun, rfl, hc⟩

/-- A callback of an untripped token is taken out when that is raised, and stays when another one is. -/
theorem mem_raise (id : TokenId) (reason : CancelReason) (hx : f.isCancelled x = false)
    (hc : c ∈ (f.token x).callbacks) :
    (x, c) ∈ (f.raise id reason).2 ∨ x ≠ id ∧ c ∈ ((f.raise id reason).1.token x).callbacks := by
  -- the token itself loses its callbacks to the list; those of all others stay where they were
  rw [raise]
  by_cases heq : x = id
  · subst heq
    rw [hx, if_neg Bool.false_ne_true]
    exact Or.inl (List.mem_map_of_mem hc)
  · split
    · exact Or.inr ⟨heq, hc⟩
    · refine Or.inr ⟨heq, ?_⟩
      show c ∈ ((f.update id { reason := some reason }).token x).callbacks
      rwa [token_update_of_ne heq]

/-! ## Callbacks

  What a callback does when it runs is either to trip a token, which is what anybody does who trips it, or something
  that trips nothing.  The two cases are separate from here on: `attempt?` tells which of the two it is, and `Adds`
  what the second one may still do. -/

/-- The token that a callback trips when it runs now, and for which reason. -/
def attempt? (f : Forest) (owner : TokenId) : Callback → Option (TokenId × CancelReason)
  | .passOn child =>
    if f.isAlive child then some (child, (f.reason? owner).getD (.requested "parent cancelled")) else none
  | .notify _ (.cancel id message) => if f.isAlive id then some (id, .requested message) else none
  | .notify _ _ => none

/-- A callback that trips a token names it. -/
theorem trips?_of_attempt (h : f.attempt? owner c = some (id, reason)) : c.trips? = some id := by
  -- two kinds of callbacks trip a token, each only if it is alive
  cases c with
  | passOn child =>
    rw [attempt?] at h
    split at h
    · cases h
      rfl
    · cases h
  | notify label reaction =>
    cases reaction with
    | cancel i message =>
      rw [attempt?] at h
      split at h
      · cases h
        rfl
      · cases h
    | nothing | panic | register => cases h

/-- A callback that trips a token is noted, and then it does what anybody does who trips it. -/
theorem runCallback_of_attempt (h : f.attempt? owner c = some (id, reason)) :
    f.runCallback owner c = (f.note c).raise id reason := by
  -- the two kinds of callbacks, as before
  cases c with
  | passOn child =>
    rw [attempt?] at h
    split at h
    · rename_i halive
      cases h
      rw [runCallback, if_pos halive]
      rfl
    · cases h
  | notify label reaction =>
    cases reaction with
    | cancel i message =>
      rw [attempt?] at h
      split at h
      · rename_i halive
        cases h
        rw [runCallback]
        exact if_pos halive
      · cases h
    | nothing | panic | register => cases h

/-- What a callback does that trips nothing: it may register a callback that does nothing, or leave that to be run. -/
structure Adds (f g : Forest) (more : List (TokenId × Callback)) : Prop where
  /-- No token is made. -/
  length : g.tokens.length = f.tokens.length
  /-- And nobody drops one. -/
  handles : g.handles = f.handles
  /-- No token is tripped. -/
  reason : ∀ id, g.reason? id = f.reason? id
  /-- Nothing that waits is taken out. -/
  old : ∀ x, ∀ c ∈ (f.token x).callbacks, c ∈ (g.token x).callbacks
  /-- What waits since then trips nothing. -/
  new : ∀ x, ∀ c ∈ (g.token x).callbacks, c ∈ (f.token x).callbacks ∨ c.trips? = none
  /-- What has to run now belongs to a tripped token, and it trips nothing. -/
  more : ∀ w ∈ more, f.isCancelled w.1 = true ∧ w.2.trips? = none

/-- A note changes no token. -/
theorem Adds.noted (f : Forest) (c : Callback) : Adds f (f.note c) [] := by
  refine ⟨by rw [tokens_note], alike_note.handles, fun _ => reason?_note, fun x d hd => ?_, fun x d hd => ?_,
    fun w hw => absurd hw List.not_mem_nil⟩
  · rwa [token_note]
  · rw [token_note] at hd
    exact Or.inl hd

/-- Timers come and go. -/
theorem Adds.timed (f : Forest) (timers : List TokenTimer) : Adds f { f with timers } [] :=
  ⟨rfl, rfl, fun _ => rfl, fun _ _ h => h, fun _ _ h => Or.inl h, fun _ h => absurd h List.not_mem_nil⟩

/-- What adds quiet callbacks twice adds quiet callbacks. -/
theorem Adds.trans {g k : Forest} {more : List (TokenId × Callback)} (h : Adds f g []) (h' : Adds g k more) :
    Adds f k more where
  length := h'.length.trans h.length
  handles := h'.handles.trans h.handles
  reason id := (h'.reason id).trans (h.reason id)
  old x c hc := h'.old x c (h.old x c hc)
  new x c hc := (h'.new x c hc).elim (h.new x c) Or.inr
  more w hw := by
    obtain ⟨hset, hquiet⟩ := h'.more w hw
    rw [isCancelled, h.reason] at hset
    exact ⟨hset, hquiet⟩

/-- One more callback that trips nothing waits for a token, if there is that token. -/
theorem Adds.registered (f : Forest) (i : TokenId) {d : Callback} (hquiet : d.trips? = none) :
    Adds f (f.update i { f.token i with callbacks := (f.token i).callbacks ++ [d] }) [] := by
  -- a token that there is gets the callback; one that there is not gets nothing
  refine ⟨length_update, rfl, fun id => reason?_update rfl, fun x c hc => ?_, fun x c hc => ?_, fun _ h => by cases h⟩
  · rcases Nat.lt_or_ge i f.tokens.length with hi | hi
    · rw [token_update hi]
      split
      · rename_i heq
        subst heq
        exact List.mem_append_left _ hc
      · exact hc
    · rw [update, List.set_eq_of_length_le hi]
      exact hc
  -- a callback that waits is an older one, or the one that was registered
  · rcases Nat.lt_or_ge i f.tokens.length with hi | hi
    · rw [token_update hi] at hc
      split at hc
      · rename_i heq
        subst heq
        rcases List.mem_append.mp hc with hold | hnew
        · exact Or.inl hold
        · rw [List.mem_singleton.mp hnew]
          exact Or.inr hquiet
      · exact Or.inl hc
    · rw [update, List.set_eq_of_length_le hi] at hc
      exact Or.inl hc

/-- A callback that trips nothing only notes, registers, or has another one run that trips nothing. -/
theorem adds_runCallback (h : f.attempt? owner c = none) :
    Adds f (f.runCallback owner c).1 (f.runCallback owner c).2 := by
  cases c with
  -- it would have passed a trip on, but the child is gone
  | passOn child =>
    rw [attempt?] at h
    split at h
    · cases h
    · rename_i hdead
      rw [runCallback, if_neg hdead]
      exact .noted f (.passOn child)
  | notify label reaction =>
    have hnoted := Adds.noted f (.notify label reaction)
    cases reaction with
    | nothing | panic => exact hnoted
    | cancel i message =>
      -- it would have tripped a token, but that is gone
      rw [attempt?] at h
      split at h
      · cases h
      · rename_i hdead
        have hrun : f.runCallback owner (.notify label (.cancel i message)) =
            (f.note (.notify label (.cancel i message)), []) := if_neg hdead
        rw [hrun]
        exact hnoted
    | register i other =>
      rw [runCallback]
      dsimp only
      split
      · exact hnoted
      -- on a tripped token the registered callback runs next; on another one it waits
      · split
        · rename_i hset
          refine { hnoted with more := fun w hw => ?_ }
          rw [List.mem_singleton.mp hw]
          exact ⟨hset, rfl⟩
        · exact hnoted.trans (Adds.registered (f.note (.notify label (.register i other))) i rfl)

end Forest

end Wheelwright
