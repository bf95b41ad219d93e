/-
  Apart — tokens that no callback trips.

  **Specification** — a token is apart if no callback that waits trips it.  A trip of another token leaves its
  reason, and it stays apart whatever is tripped.

  **The crux** — a trip only moves callbacks, from the tokens where they wait to those that have to run
  (`apart_raise`); the one kind of callback that adds another adds one that trips nothing.
-/
import Wheelwright.Proofs.Cancellation.Spread

namespace Wheelwright

/-- The token that a callback trips. -/
def Callback.trips? : Callback → Option TokenId
  | .passOn child => some child
  | .notify _ (.cancel id _) => some id
  | .notify _ _ => none

namespace Forest

variable {f : Forest} {id x owner : TokenId} {reason : CancelReason} {c : Callback}

/-- No callback that waits trips the token. -/
def Apart (f : Forest) (id : TokenId) : Prop := ∀ t ∈ f.tokens, ∀ c ∈ t.callbacks, c.trips? ≠ some id

/-- Callbacks trip nothing but tokens that there are. -/
def Contained (f : Forest) : Prop :=
  ∀ t ∈ f.tokens, ∀ c ∈ t.callbacks, ∀ id ∈ c.trips?, id < f.tokens.length

/-- Whether a token is left alone by what waits can be looked up. -/
instance (f : Forest) (id : TokenId) : Decidable (f.Apart id) :=
  inferInstanceAs (Decidable (∀ t ∈ f.tokens, ∀ c ∈ t.callbacks, c.trips? ≠ some id))

/-- And so can whether all that waits is about tokens that there are. -/
instance (f : Forest) : Decidable f.Contained :=
  inferInstanceAs (Decidable (∀ t ∈ f.tokens, ∀ c ∈ t.callbacks, ∀ id ∈ c.trips?, id < f.tokens.length))

/-- No callback trips a token that there will be. -/
theorem contained_iff : f.Contained ↔ ∀ id, f.tokens.length ≤ id → f.Apart id := by
  constructor
  · intro h id hid t ht c hc hcid
    exact Nat.not_lt_of_le hid (h t ht c hc id hcid)
  · intro h t ht c hc id hcid
    exact Nat.lt_of_not_le fun hid => h id hid t ht c hc hcid

/-- No callback that waits trips a token that is apart. -/
theorem Apart.trips?_ne (h : f.Apart id) (hc : c ∈ (f.token x).callbacks) : c.trips? ≠ some id := by
  rcases Nat.lt_or_ge x f.tokens.length with hx | hx
  · rw [token, List.getD_eq_getElem?_getD, List.getElem?_eq_getElem hx, Option.getD_some] at hc
    exact h _ (List.getElem_mem hx) c hc
  · rw [token_of_length_le hx] at hc
    exact absurd hc List.not_mem_nil

/-- It stays apart as long as no callback is added that trips it. -/
theorem Apart.update {t : Token} (h : f.Apart id) (ht : ∀ c ∈ t.callbacks, c.trips? ≠ some id) :
    (f.update x t).Apart id := by
  intro u hu
  rcases List.mem_or_eq_of_mem_set hu with hold | rfl
  · exact h u hold
  · exact ht

/-- A token that is made waits for nothing, so it trips nobody. -/
theorem Apart.create (h : f.Apart id) : f.create.1.Apart id := by
  intro t ht
  rcases List.mem_append.mp ht with hold | hnew
  · exact h t hold
  · rw [List.mem_singleton.mp hnew]
    exact fun c hc => absurd hc List.not_mem_nil

/-- A new token may be named by nobody yet: what waited is about older ones. -/
theorem Contained.create (h : f.Contained) : f.create.1.Contained := by
  refine contained_iff.mpr fun id hid => (contained_iff.mp h id ?_).create
  rw [length_create] at hid
  exact Nat.le_of_succ_le hid

/-! ## Raising

  Raising takes a token's callbacks out and leaves every other token as it was.  So what is apart from the callbacks
  that wait is also apart from those that have to run now. -/

/-- A token that is raised gives its callbacks away. -/
theorem apart_raise (h : f.Apart id) (x : TokenId) (reason : CancelReason) :
    (f.raise x reason).1.Apart id ∧ ∀ w ∈ (f.raise x reason).2, w.2.trips? ≠ some id := by
  rw [raise]
  split
  · exact ⟨h, fun w hw => absurd hw List.not_mem_nil⟩
  · refine ⟨h.update fun c hc => absurd hc List.not_mem_nil, fun w hw => ?_⟩
    obtain ⟨c, hc, rfl⟩ := List.mem_map.mp hw
    exact h.trips?_ne hc

/-- A trip of another token sets no reason here. -/
theorem reason?_raise_of_ne (hne : id ≠ x) : (f.raise x reason).1.reason? id = f.reason? id := by
  rw [raise]
  split
  · rfl
  · exact congrArg Token.reason (token_update_of_ne hne)

/-- The first trip of a token sets its reason. -/
theorem reason?_raise_self (hid : id < f.tokens.length) (hun : f.isCancelled id = false) :
    (f.raise id reason).1.reason? id = some reason := by
  rw [raise, hun, if_neg Bool.false_ne_true]
  exact congrArg Token.reason (token_update_self hid)

/-! ## Callbacks

  What is kept here is more than the reason of the token: also that no callback which is registered on the way names
  it.  Otherwise the induction on the work would not go through, for a trip may register callbacks before it runs
  others. -/

/-- What callbacks that do not trip a token leave of it, and what they set off. -/
structure Leaves (id : TokenId) (f g : Forest) (more : List (TokenId × Callback)) : Prop where
  /-- The reason of the token is the same. -/
  reason : g.reason? id = f.reason? id
  /-- And still nobody names it. -/
  apart : g.Apart id
  /-- Nor does what has to run now. -/
  more : ∀ w ∈ more, w.2.trips? ≠ some id

/-- Nothing has happened. -/
theorem Leaves.nothing (h : f.Apart id) : Leaves id f f [] := ⟨rfl, h, fun _ hw => absurd hw List.not_mem_nil⟩

/-- What leaves a token alone twice leaves it alone. -/
theorem Leaves.trans {g k : Forest} {more more' : List (TokenId × Callback)} (h : Leaves id f g more)
    (h' : Leaves id g k more') : Leaves id f k more' := ⟨h'.reason.trans h.reason, h'.apart, h'.more⟩

/-- A callback is noted, and does no more. -/
theorem Leaves.noted (h : f.Apart id) (c : Callback) : Leaves id f (f.note c) [] := by
  refine ⟨reason?_note, ?_, fun _ hw => absurd hw List.not_mem_nil⟩
  rw [Apart, tokens_note]
  exact h

/-- A token gets other callbacks. -/
theorem reason?_update {t : Token} (ht : t.reason = f.reason? x) : (f.update x t).reason? id = f.reason? id := by
  rcases Nat.lt_or_ge x f.tokens.length with hx | hx
  · rw [reason?, token_update hx]
    split
    · rename_i heq
      rw [ht, heq]
    · rfl
  · rw [update, List.set_eq_of_length_le hx]

/-- Another token is tripped: what has to run waited there, and names others. -/
theorem leaves_raise (h : f.Apart id) (hne : id ≠ x) (reason : CancelReason) :
    Leaves id f (f.raise x reason).1 (f.raise x reason).2 :=
  ⟨reason?_raise_of_ne hne, (apart_raise h x reason).1, (apart_raise h x reason).2⟩

/-- A callback that does not name the token leaves it alone, whatever it does. -/
theorem leaves_runCallback (h : f.Apart id) (hc : c.trips? ≠ some id) (owner : TokenId) :
    Leaves id f (f.runCallback owner c).1 (f.runCallback owner c).2 := by
  cases c with
  | passOn child =>
    -- it passes a trip on to another token
    rw [runCallback]
    split
    · exact leaves_raise h (fun heq => hc (congrArg some heq.symm)) _
    · exact .nothing h
  | notify label reaction =>
    have hnoted := Leaves.noted h (.notify label reaction)
    -- what it says concerns another token, or nobody
    cases reaction with
    | nothing | panic => exact hnoted
    | cancel i message =>
      rw [runCallback]
      split
      · exact hnoted.trans (leaves_raise hnoted.apart (fun heq => hc (congrArg some heq.symm)) _)
      · exact hnoted
    | register i other =>
      -- a callback that is registered by another one only tells somebody
      have hother : (Callback.notify other .nothing).trips? ≠ some id := by simp [Callback.trips?]
      rw [runCallback]
      dsimp only
      split
      · exact hnoted
      · split
        · refine ⟨hnoted.reason, hnoted.apart, fun w hw => ?_⟩
          rw [List.mem_singleton.mp hw]
          exact hother
        · refine ⟨reason?_update (f := f.note (.notify label (.register i other))) rfl,
            hnoted.apart.update fun d hd => ?_, fun _ hw => absurd hw List.not_mem_nil⟩
          rcases List.mem_append.mp hd with hold | hnew
          · exact hnoted.apart.trips?_ne hold
          · rw [List.mem_singleton.mp hnew]
            exact hother

/-- **Callbacks that do not trip a token leave its reason**, with all that they set off. -/
theorem leaves_runCallbacks (steps : Nat) {work : List (TokenId × Callback)} (h : f.Apart id)
    (hwork : ∀ w ∈ work, w.2.trips? ≠ some id) : Leaves id f (runCallbacks steps work f) [] := by
  -- induction on the steps; what each callback sets off names others as well
  induction steps generalizing work f with
  | zero => exact .nothing h
  | succ steps ih =>
    cases work with
    | nil => exact .nothing h
    | cons w rest =>
      have hrun := leaves_runCallback h (hwork w List.mem_cons_self) w.1
      refine hrun.trans (ih hrun.apart fun v hv => ?_)
      rcases List.mem_append.mp hv with hnew | hold
      · exact hrun.more v hnew
      · exact hwork v (List.mem_cons_of_mem _ hold)

/-! ## Trips

  The token that is apart is reached by its own trip and by no other, which is what makes a token that a client has
  just made its own. -/

/-- A trip of whatever token leaves what is apart so. -/
theorem Apart.trip (h : f.Apart id) (x : TokenId) (reason : CancelReason) : (f.trip x reason).Apart id :=
  (leaves_runCallbacks _ (apart_raise h x reason).1 (apart_raise h x reason).2).apart

/-- No trip makes a callback that names a token that there is not. -/
theorem Contained.trip (h : f.Contained) (x : TokenId) (reason : CancelReason) : (f.trip x reason).Contained := by
  refine contained_iff.mpr fun id hid => (contained_iff.mp h id ?_).trip x reason
  rwa [raises_trip.length] at hid

/-- **A trip leaves the reason of a token that is apart.** -/
theorem Apart.reason?_trip (h : f.Apart id) (hne : id ≠ x) (reason : CancelReason) :
    (f.trip x reason).reason? id = f.reason? id :=
  (leaves_runCallbacks _ (apart_raise h x reason).1 (apart_raise h x reason).2).reason.trans
    (reason?_raise_of_ne hne)

/-- A token that is apart is tripped for the reason that it is given, if it was untripped. -/
theorem Apart.reason?_trip_self (h : f.Apart id) (hid : id < f.tokens.length) (hun : f.isCancelled id = false)
    (reason : CancelReason) : (f.trip id reason).reason? id = some reason :=
  (leaves_runCallbacks _ (apart_raise h id reason).1 (apart_raise h id reason).2).reason.trans
    (reason?_raise_self hid hun)

end Forest

end Wheelwright
