/-
  Deadlines — a token with children that have deadlines of their own.

  **Specification** — such a child is tripped for the reason that came first, be it the token's or that its deadline
  was over.  A deadline trips its child and nothing else: no callback of that passes anything on, and the reason of
  any other token is a request.

  **Program** — `Forest.raise`, `Forest.runCallback` and `Forest.withDeadline`.  Whoever trips a token raises its flag
  in one step and runs the callbacks that it took out in others, and between these steps anything may happen.

  **The crux** — nobody but the token knows such a child, so the only callback that trips it is the one that passes the
  token's reason on (`Tame`); it waits with the token, has been taken out by a trip, or has run (`Linked`).
-/
import Wheelwright.Proofs.Cancellation.Attempts

namespace Wheelwright

/-! ## The machine

  A trip is not one step here.  Its callbacks have to run, and between two of them somebody else may trip another
  token, a deadline may end, or a child be made.  Each attempt is recorded with the reason that was given, so that it
  can be said later which one came first. -/

/-- Tokens in the middle of trips. -/
structure Deadlines where
  forest : Forest
  /-- The token that the children with deadlines are below. -/
  run : TokenId
  /-- Callbacks that were taken out and have to run, each with its token. -/
  pending : List (TokenId × Callback) := []
  /-- The children with deadlines. -/
  own : List TokenId := []
  /-- What was tripped so far, whether it was tripped already or not. -/
  attempts : List (TokenId × CancelReason) := []

namespace Deadlines

/-- Somebody trips a token: its flag is raised, and its callbacks have to run. -/
def attempt (s : Deadlines) (id : TokenId) (reason : CancelReason) : Deadlines :=
  { s with
    forest := (s.forest.raise id reason).1
    pending := (s.forest.raise id reason).2 ++ s.pending
    attempts := s.attempts ++ [(id, reason)] }

/-- A token is tripped on request; nobody can ask that of a child with a deadline. -/
def request (s : Deadlines) (id : TokenId) (message : String) : Option Deadlines :=
  if id < s.forest.tokens.length ∧ id ∉ s.own then some (s.attempt id (.requested message)) else none

/-- A callback that has to run does. -/
def call (s : Deadlines) (k : Nat) : Option Deadlines :=
  s.pending[k]?.map fun w =>
    { s with
      forest := (s.forest.runCallback w.1 w.2).1
      pending := (s.forest.runCallback w.1 w.2).2 ++ s.pending.eraseIdx k
      attempts := s.attempts ++ (s.forest.attempt? w.1 w.2).toList }

/-- The deadline of a child is over. -/
def elapse (s : Deadlines) (id : TokenId) : Option Deadlines :=
  if id ∈ s.own then
    (s.forest.timers.find? fun t => t.token = id).map fun t =>
      { s with forest := { s.forest with timers := s.forest.timers.erase t } }.attempt id (.deadlineElapsed t.afterMs)
  else none

/-- The token gets a child with a deadline; it is tripped at once if the token is. -/
def spawn (s : Deadlines) (d : Span) (now : Nat) : Deadlines × TokenId :=
  let (forest, id) := s.forest.withDeadline s.run d now
  ({ s with
    forest
    own := s.own ++ [id]
    attempts := s.attempts ++ ((s.forest.reason? s.run).map fun reason => (id, reason)).toList }, id)

/-- Why a token was tripped first. -/
def first? (s : Deadlines) (id : TokenId) : Option CancelReason :=
  (s.attempts.find? fun a => a.1 = id).map Prod.snd

variable {s : Deadlines} {id : TokenId} {owner : TokenId} {c : Callback} {reason : CancelReason} {k : Nat}

/-! ## The invariant

  The invariant says for each reason where it came from.  The difficult part is a callback that has to run and will
  trip a token: it may have been taken out long ago, and by then the child may have been tripped by its own deadline.
  `Owed` says what is known of it all the same. -/

/-- A callback of `owner` trips a child with a deadline by passing on what the token got, if at all; and such a child
    has no callback that trips anything. -/
structure Tame (s : Deadlines) (owner : TokenId) (c : Callback) : Prop where
  /-- It is about a token that there is. -/
  lt : ∀ id ∈ c.trips?, id < s.forest.tokens.length
  /-- What waits with such a child only tells somebody. -/
  quiet : owner ∈ s.own → c.trips? = none
  /-- Such a child is tripped by the token alone. -/
  passes : ∀ id ∈ s.own, c.trips? = some id → owner = s.run ∧ c = .passOn id

/-- What a token is tripped for: a child with a deadline because that is over or for what the token was tripped for,
    any other token on request. -/
structure Apt (s : Deadlines) (id : TokenId) (reason : CancelReason) : Prop where
  own : id ∈ s.own → reason.isTimeout = true ∨ s.forest.reason? s.run = some reason
  other : id ∉ s.own → reason.isTimeout = false

/-- A callback that has to run: its token was tripped, and not because of a deadline if it trips another one. -/
structure Owed (s : Deadlines) (w : TokenId × Callback) : Prop where
  isCancelled : s.forest.isCancelled w.1 = true
  tame : s.Tame w.1 w.2
  requested : w.2.trips? ≠ none → ∀ r, s.forest.reason? w.1 = some r → r.isTimeout = false

/-- All that is known of the tokens, between any two steps. -/
structure Sound (s : Deadlines) : Prop where
  /-- The token is there, and it is not one of its children. -/
  run_lt : s.run < s.forest.tokens.length
  run_notMem : s.run ∉ s.own
  own_lt : ∀ id ∈ s.own, id < s.forest.tokens.length
  /-- The program holds on to such a child until its stage has ended. -/
  held : ∀ id ∈ s.own, id ∈ s.forest.handles
  /-- Whatever waits with a token, and whatever has to run, is tame. -/
  waiting : ∀ x, ∀ c ∈ (s.forest.token x).callbacks, s.Tame x c
  owed : ∀ w ∈ s.pending, s.Owed w
  /-- No deadline trips the token. -/
  requested : ∀ r, s.forest.reason? s.run = some r → r.isTimeout = false
  /-- All that was tried was tried on tokens that there are, and for apt reasons. -/
  attempted : ∀ a ∈ s.attempts, a.1 < s.forest.tokens.length ∧ s.Apt a.1 a.2
  /-- The reason of a child is the one that was tried first. -/
  first : ∀ id ∈ s.own, s.forest.reason? id = s.first? id

/-- A child with a deadline is tripped, or what trips it with the token has to run, or waits with the token. -/
def Linked (s : Deadlines) (id : TokenId) : Prop :=
  s.forest.isCancelled id = true ∨ (s.run, .passOn id) ∈ s.pending ∨
    s.forest.isCancelled s.run = false ∧ .passOn id ∈ (s.forest.token s.run).callbacks

/-- A callback that trips nothing is tame, whoever it waits with. -/
theorem tame_of_trips_none (h : c.trips? = none) : s.Tame owner c := by
  refine ⟨fun id hid => ?_, fun _ => h, fun id _ hid => ?_⟩
  · rw [h] at hid
    cases hid
  · rw [h] at hid
    cases hid

/-- What is tried later is not first. -/
theorem first?_append {more : List (TokenId × CancelReason)} : { s with attempts := s.attempts ++ more }.first? id =
    (s.first? id).or ((more.find? fun a => a.1 = id).map Prod.snd) := by
  rw [first?, first?, List.find?_append]
  cases s.attempts.find? fun a => a.1 = id <;> rfl

namespace Sound

/-- Tokens that were there are tripped for what they were tripped for. -/
theorem tame_congr {t : Deadlines} (hlen : t.forest.tokens.length = s.forest.tokens.length) (hown : t.own = s.own)
    (hrun : t.run = s.run) (h : s.Tame owner c) : t.Tame owner c := by
  refine ⟨?_, ?_, ?_⟩
  · rw [hlen]
    exact h.lt
  · rw [hown]
    exact h.quiet
  · rw [hown, hrun]
    exact h.passes

/-- Nothing is tripped: some callbacks have run, and others may be there that trip nothing. -/
theorem adds {g : Forest} {more : List (TokenId × Callback)} (h : s.Sound) (rest : List (TokenId × Callback))
    (ha : Forest.Adds s.forest g more) (hrest : ∀ w ∈ rest, w ∈ more ∨ w ∈ s.pending) :
    { s with forest := g, pending := rest }.Sound := by
  have htame : ∀ {x c}, s.Tame x c → { s with forest := g, pending := rest }.Tame x c :=
    fun h => tame_congr (t := { s with forest := g, pending := rest }) ha.length rfl rfl h
  refine { run_lt := ?_, run_notMem := h.run_notMem, own_lt := ?_, held := ?_, waiting := ?_, owed := ?_,
           requested := ?_, attempted := ?_, first := ?_ }
  -- run_lt, own_lt, held: neither tokens nor handles have changed
  · rw [ha.length]
    exact h.run_lt
  · rw [ha.length]
    exact h.own_lt
  · rw [ha.handles]
    exact h.held
  -- waiting: a callback waited before, or it trips nothing
  · intro x c hc
    rcases ha.new x c hc with hold | hnone
    · exact htame (h.waiting x c hold)
    · exact tame_of_trips_none hnone
  -- owed: what has to run is new, and then it trips nothing, or had to run before
  · intro w hw
    have hset : g.isCancelled w.1 = s.forest.isCancelled w.1 := by rw [Forest.isCancelled, ha.reason]; rfl
    rcases hrest w hw with hmore | hold
    · obtain ⟨hcan, hnone⟩ := ha.more w hmore
      exact ⟨hset.trans hcan, tame_of_trips_none hnone, fun hne => absurd hnone hne⟩
    · obtain ⟨hcan, hw, hreq⟩ := h.owed w hold
      refine ⟨hset.trans hcan, htame hw, fun hne r hr => hreq hne r ?_⟩
      rwa [← ha.reason]
  -- requested, attempted, first: reasons are as before
  · intro r hr
    dsimp only at hr
    rw [ha.reason] at hr
    exact h.requested r hr
  · intro a hmem
    dsimp only
    rw [ha.length]
    obtain ⟨hlt, hown, hother⟩ := h.attempted a hmem
    refine ⟨hlt, fun hmem => (hown hmem).imp_right fun heq => ?_, hother⟩
    dsimp only
    rw [ha.reason]
    exact heq
  · intro id hid
    dsimp only
    rw [ha.reason]
    exact h.first id hid

/-- What the callbacks may do that a trip took out, and those that had to run before. -/
theorem owed_attempt (h : s.Sound) (hid : id < s.forest.tokens.length) (hapt : s.Apt id reason) :
    ∀ w ∈ (s.attempt id reason).pending, (s.attempt id reason).Owed w := by
  have halike : Forest.Alike s.forest (s.attempt id reason).forest := Forest.alike_raise
  have hraises : Forest.Raises s.forest (s.attempt id reason).forest := Forest.raises_raise
  intro w hw
  -- taken out just now: its token was untripped, so it now has this reason
  rcases List.mem_append.mp hw with hnew | hold
  · obtain ⟨hun, heq, hc⟩ := Forest.mem_taken hnew
    rw [show w = (id, w.2) from Prod.ext heq rfl]
    have htame := h.waiting id w.2 hc
    refine ⟨Forest.isCancelled_raise hid, tame_congr halike.length rfl rfl htame, fun hne r hr => ?_⟩
    have hself : (s.attempt id reason).forest.reason? id = some reason := Forest.reason?_raise_self hid hun
    rw [hself] at hr
    cases hr
    exact hapt.other fun hown => hne (htame.quiet hown)
  -- it had to run before: its token keeps the reason that it had
  · obtain ⟨hset, htame, hreq⟩ := h.owed w hold
    refine ⟨hraises.isCancelled w.1 hset, tame_congr halike.length rfl rfl htame, fun hne r hr => ?_⟩
    obtain ⟨first, hfirst⟩ := Option.isSome_iff_exists.mp hset
    have hkept : (s.attempt id reason).forest.reason? w.1 = some first := Forest.reason?_raise_of_some hfirst
    rw [hkept] at hr
    exact hreq hne r (hfirst.trans hr)

/-- The token itself is tripped on request only. -/
theorem requested_attempt (h : s.Sound) (hid : id < s.forest.tokens.length) (hapt : s.Apt id reason) {r : CancelReason}
    (hr : (s.attempt id reason).forest.reason? s.run = some r) : r.isTimeout = false := by
  -- an earlier reason of the token stays
  cases hset : s.forest.reason? s.run with
  | some first =>
    have hkept : (s.attempt id reason).forest.reason? s.run = some first := Forest.reason?_raise_of_some hset
    rw [hkept] at hr
    exact h.requested r (hset.trans hr)
  -- else it is tripped now, and it is not one of its children
  | none =>
    rw [show (s.attempt id reason).forest.reason? s.run = _ from Forest.reason?_raise hid, hset] at hr
    split at hr
    · rename_i heq
      subst heq
      rw [hset] at hr
      cases hr
      exact hapt.other h.run_notMem
    · cases hr

/-- The first attempt on a child gives its reason. -/
theorem first_attempt (h : s.Sound) (hid : id < s.forest.tokens.length) {y : TokenId} (hy : y ∈ s.own) :
    (s.attempt id reason).forest.reason? y = (s.attempt id reason).first? y := by
  -- this attempt is the first one exactly if there was none
  have hfirst : (s.attempt id reason).first? y = (s.first? y).or (if id = y then some reason else none) := by
    refine (first?_append (s := s)).trans (congrArg _ ?_)
    by_cases heq : id = y <;> simp [heq]
  rw [show (s.attempt id reason).forest.reason? y = _ from Forest.reason?_raise hid, hfirst, ← h.first y hy]
  split
  · rename_i heq
    subst heq
    rw [if_pos rfl]
    cases s.forest.reason? y <;> rfl
  · rename_i hne
    rw [if_neg fun heq => hne heq.symm, Option.or_none]

/-- **A token is tripped**, for a reason that is apt. -/
theorem attempt (h : s.Sound) (hid : id < s.forest.tokens.length) (hapt : s.Apt id reason) :
    (s.attempt id reason).Sound := by
  have halike : Forest.Alike s.forest (s.attempt id reason).forest := Forest.alike_raise
  -- what was apt stays so, since reasons stay
  have hapts : ∀ {y r}, s.Apt y r → (s.attempt id reason).Apt y r :=
    fun hy => ⟨fun hmem => (hy.own hmem).imp_right Forest.reason?_raise_of_some, hy.other⟩
  refine { run_lt := ?_, run_notMem := h.run_notMem, own_lt := ?_, held := ?_, waiting := ?_,
           owed := h.owed_attempt hid hapt, requested := fun r hr => h.requested_attempt hid hapt hr, attempted := ?_,
           first := fun y hy => h.first_attempt hid hy }
  · rw [halike.length]
    exact h.run_lt
  · rw [halike.length]
    exact h.own_lt
  · rw [halike.handles]
    exact h.held
  -- what waits with a token waited before the trip
  · intro x c hc
    exact tame_congr halike.length rfl rfl (h.waiting x c (Forest.mem_callbacks_raise hc))
  -- attempts: the earlier ones, and this one
  · intro a ha
    rw [halike.length]
    rcases List.mem_append.mp ha with hold | hnew
    · exact ⟨(h.attempted a hold).1, hapts (h.attempted a hold).2⟩
    · rw [List.mem_singleton.mp hnew]
      exact ⟨hid, hapts hapt⟩

/-! ## A new child

  A new child gets a timer and a callback that waits with the token, and nothing that was there changes.  If the token
  is tripped already, the callback runs at once, and the child is tripped for the same reason. -/

/-- The child is one token more. -/
theorem length_spawn (h : s.Sound) (d : Span) (now : Nat) :
    (s.spawn d now).1.forest.tokens.length = s.forest.tokens.length + 1 :=
  (Forest.sprouts_withDeadline h.run_lt d now).length

/-- It is the last one. -/
theorem mem_own_spawn {d : Span} {now : Nat} :
    id ∈ (s.spawn d now).1.own ↔ id ∈ s.own ∨ id = s.forest.tokens.length :=
  List.mem_append.trans (or_congr_right List.mem_singleton)

/-- Older tokens keep their reasons. -/
theorem reason?_spawn (h : s.Sound) (d : Span) (now : Nat) (hid : id < s.forest.tokens.length) :
    (s.spawn d now).1.forest.reason? id = s.forest.reason? id :=
  (Forest.sprouts_withDeadline h.run_lt d now).reason id hid

/-- What trips a token trips one that was there. -/
theorem tame_spawn (h : s.Sound) (d : Span) (now : Nat) (howner : owner < s.forest.tokens.length)
    (hc : s.Tame owner c) : (s.spawn d now).1.Tame owner c := by
  -- the callback is about an old token, and a child of old is one still
  refine ⟨fun id hid => ?_, fun hown => ?_, fun id hid hcid => ?_⟩
  · rw [h.length_spawn]
    exact Nat.lt_succ_of_lt (hc.lt id hid)
  · rcases mem_own_spawn.mp hown with hold | heq
    · exact hc.quiet hold
    · exact absurd heq (Nat.ne_of_lt howner)
  · rcases mem_own_spawn.mp hid with hold | heq
    · exact hc.passes id hold hcid
    · exact absurd heq (Nat.ne_of_lt (hc.lt id hcid))

/-- The callback that passes a trip on to the new child. -/
theorem tame_passOn_spawn (h : s.Sound) (d : Span) (now : Nat) :
    (s.spawn d now).1.Tame s.run (.passOn s.forest.tokens.length) := by
  refine ⟨fun id hid => ?_, fun hrun => ?_, fun id _ hid => ?_⟩
  · cases hid
    rw [h.length_spawn]
    exact Nat.lt_succ_self _
  -- the token itself is none of its children, not even the new one
  · rcases mem_own_spawn.mp hrun with hold | heq
    · exact absurd hold h.run_notMem
    · exact absurd heq (Nat.ne_of_lt h.run_lt)
  · cases hid
    exact ⟨rfl, rfl⟩

/-- What waits with a token is what waited, or what passes a trip on to the new child. -/
theorem waiting_spawn (h : s.Sound) (d : Span) (now : Nat) {x : TokenId}
    (hc : c ∈ ((s.spawn d now).1.forest.token x).callbacks) : (s.spawn d now).1.Tame x c := by
  have hs := Forest.sprouts_withDeadline h.run_lt d now
  -- old tokens, the new one, and those that are not made
  rcases Nat.lt_trichotomy x s.forest.tokens.length with hx | rfl | hx
  · rcases (hs.callbacks x hx c).mp hc with hold | ⟨heq, -, rfl⟩
    · exact h.tame_spawn d now hx (h.waiting x c hold)
    · cases heq
      exact h.tame_passOn_spawn d now
  · rw [show (s.spawn d now).1.forest.token _ = _ from hs.new] at hc
    cases hc
  · rw [Forest.token_of_length_le (by rw [h.length_spawn]; exact hx)] at hc
    cases hc

/-- What was tried before, and the trip that the child has got from its token. -/
theorem attempted_spawn (h : s.Sound) (d : Span) (now : Nat) {a : TokenId × CancelReason}
    (ha : a ∈ (s.spawn d now).1.attempts) :
    a.1 < (s.spawn d now).1.forest.tokens.length ∧ (s.spawn d now).1.Apt a.1 a.2 := by
  have hrun : (s.spawn d now).1.forest.reason? s.run = s.forest.reason? s.run := h.reason?_spawn d now h.run_lt
  rw [h.length_spawn]
  rcases List.mem_append.mp ha with hold | hnew
  · obtain ⟨hlt, hown, hother⟩ := h.attempted a hold
    refine ⟨Nat.lt_succ_of_lt hlt, fun hid => ?_, fun hid => hother fun hold => hid (mem_own_spawn.mpr (Or.inl hold))⟩
    rcases mem_own_spawn.mp hid with hid | heq
    · exact (hown hid).imp_right hrun.trans
    · exact absurd heq (Nat.ne_of_lt hlt)
  -- the child got its reason from the token, so it is apt
  · obtain ⟨r, hr, rfl⟩ := Option.map_eq_some_iff.mp (Option.mem_toList.mp hnew)
    exact ⟨Nat.lt_succ_self _, fun _ => Or.inr (hrun.trans hr), fun hid => absurd (mem_own_spawn.mpr (Or.inr rfl)) hid⟩

/-- A child of a tripped token is tripped for the same reason, and nobody has tripped it before. -/
theorem first_spawn (h : s.Sound) (d : Span) (now : Nat) (hid : id ∈ (s.spawn d now).1.own) :
    (s.spawn d now).1.forest.reason? id = (s.spawn d now).1.first? id := by
  have hfirst : (s.spawn d now).1.first? id = (s.first? id).or
      ((((s.forest.reason? s.run).map fun r => (s.forest.tokens.length, r)).toList.find? fun a => a.1 = id).map
        Prod.snd) := first?_append (s := s)
  rw [hfirst]
  -- old children: nothing was tried on them; the new one has its token's reason, if that has one
  rcases mem_own_spawn.mp hid with hold | rfl
  · have hlt := h.own_lt id hold
    rw [h.reason?_spawn d now hlt, h.first id hold]
    cases s.forest.reason? s.run with
    | none => exact (Option.or_none).symm
    | some r => simp [Nat.ne_of_gt hlt]
  -- nobody can have tried to trip a token that was not there
  · have hnone : s.first? s.forest.tokens.length = none := by
      rw [first?, Option.map_eq_none_iff, List.find?_eq_none]
      intro a ha heq
      exact absurd (of_decide_eq_true heq) (Nat.ne_of_lt (h.attempted a ha).1)
    have hnew : (s.spawn d now).1.forest.reason? s.forest.tokens.length = s.forest.reason? s.run := by
      rw [Forest.reason?, show (s.spawn d now).1.forest.token _ = _ from
        (Forest.sprouts_withDeadline h.run_lt d now).new]
      rfl
    rw [hnew, hnone]
    cases s.forest.reason? s.run <;> simp

/-- The token gets one more child with a deadline. -/
theorem spawn (h : s.Sound) (d : Span) (now : Nat) : (s.spawn d now).1.Sound := by
  refine { run_lt := ?_, run_notMem := ?_, own_lt := ?_, held := ?_, waiting := fun x c hc => h.waiting_spawn d now hc,
           owed := ?_, requested := ?_, attempted := fun a ha => h.attempted_spawn d now ha,
           first := fun id hid => h.first_spawn d now hid }
  · rw [h.length_spawn]
    exact Nat.lt_succ_of_lt h.run_lt
  -- the token is none of its children
  · intro hrun
    rcases mem_own_spawn.mp hrun with hold | heq
    · exact h.run_notMem hold
    · exact absurd heq (Nat.ne_of_lt h.run_lt)
  · intro id hid
    rw [h.length_spawn]
    rcases mem_own_spawn.mp hid with hold | heq
    · exact Nat.lt_succ_of_lt (h.own_lt id hold)
    · exact Nat.lt_succ_of_le (Nat.le_of_eq heq)
  -- children are held from the start
  · intro id hid
    rw [show (s.spawn d now).1.forest.handles = _ from (Forest.sprouts_withDeadline h.run_lt d now).handles]
    rcases mem_own_spawn.mp hid with hold | rfl
    · exact List.mem_cons_of_mem _ (h.held id hold)
    · exact List.mem_cons_self
  -- what has to run is about old tokens
  · intro w hw
    obtain ⟨hset, htame, hreq⟩ := h.owed w hw
    have hlt : w.1 < s.forest.tokens.length := Forest.lt_of_isCancelled hset
    have hsame := h.reason?_spawn d now hlt
    refine ⟨?_, h.tame_spawn d now hlt htame, fun hne r hr => hreq hne r (hsame.symm.trans hr)⟩
    rw [Forest.isCancelled, hsame]
    exact hset
  · exact fun r hr => h.requested r ((h.reason?_spawn d now h.run_lt).symm.trans hr)

/-! ## Steps

  One lemma for each thing that can happen.  In all of them the work is to show that the reason which is given is apt:
  it is the request on the token itself, what the token was tripped for, or the deadline of the child. -/

/-- A token is tripped on request. -/
theorem request {t : Deadlines} {message : String} (h : s.Sound) (ht : s.request id message = some t) : t.Sound := by
  rw [Deadlines.request] at ht
  split at ht
  · rename_i hmay
    cases ht
    exact h.attempt hmay.1 ⟨fun hid => absurd hid hmay.2, fun _ => rfl⟩
  · cases ht

end Sound

/-- A callback that has to run trips a token, or it does not. -/
theorem call_cases {t : Deadlines} (ht : s.call k = some t) : ∃ w, s.pending[k]? = some w ∧
    ((s.forest.attempt? w.1 w.2 = none ∧ t = { s with
        forest := (s.forest.runCallback w.1 w.2).1
        pending := (s.forest.runCallback w.1 w.2).2 ++ s.pending.eraseIdx k }) ∨
      ∃ id reason, s.forest.attempt? w.1 w.2 = some (id, reason) ∧
        t = { s with forest := s.forest.note w.2, pending := s.pending.eraseIdx k }.attempt id reason) := by
  obtain ⟨w, hw, rfl⟩ := Option.map_eq_some_iff.mp ht
  refine ⟨w, hw, ?_⟩
  -- an attempt is a trip; what tries nothing only notes, registers or looks
  cases hattempt : s.forest.attempt? w.1 w.2 with
  | none =>
    refine Or.inl ⟨rfl, ?_⟩
    rw [Option.toList_none, List.append_nil]
  | some a =>
    refine Or.inr ⟨a.1, a.2, rfl, ?_⟩
    rw [Forest.runCallback_of_attempt hattempt, Option.toList_some]
    rfl

/-- The deadline of a child: its timer ends, and the child is tripped. -/
theorem elapse_cases {t : Deadlines} (ht : s.elapse id = some t) : id ∈ s.own ∧ ∃ timer : TokenTimer,
    t = { s with forest := { s.forest with timers := s.forest.timers.erase timer } }.attempt id
      (.deadlineElapsed timer.afterMs) := by
  rw [elapse] at ht
  split at ht
  · rename_i hid
    obtain ⟨timer, -, rfl⟩ := Option.map_eq_some_iff.mp ht
    exact ⟨hid, timer, rfl⟩
  · cases ht

namespace Sound

/-- **A callback trips a token for an apt reason.** -/
theorem apt_of_attempt {w : TokenId × Callback} (h : s.Sound) (hw : w ∈ s.pending)
    (ha : s.forest.attempt? w.1 w.2 = some (id, reason)) : id < s.forest.tokens.length ∧ s.Apt id reason := by
  obtain ⟨owner, c⟩ := w
  obtain ⟨hset, htame, hreq⟩ := h.owed _ hw
  have htrips : c.trips? = some id := Forest.trips?_of_attempt ha
  obtain ⟨first, hfirst⟩ := Option.isSome_iff_exists.mp hset
  -- the token is a child with a deadline, or any other
  refine ⟨htame.lt id htrips, fun hown => ?_, fun _ => ?_⟩
  · -- it passes on what the token was tripped for
    obtain ⟨rfl, rfl⟩ := htame.passes id hown htrips
    rw [Forest.attempt?] at ha
    split at ha
    · cases ha
      rw [show s.forest.reason? s.run = some first from hfirst]
      exact Or.inr rfl
    · cases ha
  -- any other: it is told the reason of its owner, which is a request, or one of its own, which is one too
  · cases c with
    | passOn child =>
      rw [Forest.attempt?] at ha
      split at ha
      · cases ha
        rw [show s.forest.reason? owner = some first from hfirst]
        exact hreq (by rw [htrips]; exact Option.some_ne_none _) first hfirst
      · cases ha
    | notify label reaction =>
      cases reaction with
      | cancel i message =>
        rw [Forest.attempt?] at ha
        split at ha
        · cases ha
          rfl
        · cases ha
      | nothing | panic | register => cases ha

/-- A callback runs that had to. -/
theorem call {t : Deadlines} (h : s.Sound) (ht : s.call k = some t) : t.Sound := by
  obtain ⟨w, hw, hcase⟩ := call_cases ht
  have hmem : w ∈ s.pending := List.mem_of_getElem? hw
  rcases hcase with ⟨hnone, rfl⟩ | ⟨id, reason, hattempt, rfl⟩
  -- it trips nothing
  · refine h.adds _ (Forest.adds_runCallback hnone) fun v hv => ?_
    exact (List.mem_append.mp hv).imp_right List.mem_of_mem_eraseIdx
  -- or it trips a token: it is noted, and then this is an attempt like any other
  · have hnoted := Forest.Adds.noted s.forest w.2
    have h₁ := h.adds (s.pending.eraseIdx k) hnoted fun v hv => Or.inr (List.mem_of_mem_eraseIdx hv)
    obtain ⟨hlt, hapt⟩ := h.apt_of_attempt hmem hattempt
    refine h₁.attempt ?_ ⟨fun hown => (hapt.own hown).imp_right fun hr => ?_, hapt.other⟩
    · dsimp only
      rw [hnoted.length]
      exact hlt
    · dsimp only
      rw [hnoted.reason]
      exact hr

/-- A deadline is over: the timer is gone, and the child is tripped for an apt reason. -/
theorem elapse {t : Deadlines} (h : s.Sound) (ht : s.elapse id = some t) : t.Sound := by
  obtain ⟨hid, timer, rfl⟩ := elapse_cases ht
  have h₁ := h.adds s.pending (Forest.Adds.timed s.forest (s.forest.timers.erase timer)) fun _ hw => Or.inr hw
  exact h₁.attempt (h.own_lt id hid) ⟨fun _ => Or.inl rfl, fun hnot => absurd hid hnot⟩

/-- Between trips of a forest whose callbacks name tokens that there are. -/
theorem start {f : Forest} {run : TokenId} (hrun : run < f.tokens.length) (hc : f.Contained)
    (hreq : ∀ r, f.reason? run = some r → r.isTimeout = false) : ({ forest := f, run } : Deadlines).Sound where
  run_lt := hrun
  run_notMem := List.not_mem_nil
  own_lt _ hid := absurd hid List.not_mem_nil
  held _ hid := absurd hid List.not_mem_nil
  -- what waits names tokens that there are, since nothing else is contained in the forest
  waiting x c hc' := by
    refine ⟨fun id hid => ?_, fun hx => absurd hx List.not_mem_nil, fun id hid _ => absurd hid List.not_mem_nil⟩
    refine Nat.lt_of_not_le fun hle => ?_
    exact (Forest.contained_iff.mp hc id hle).trips?_ne hc' hid
  owed _ hw := absurd hw List.not_mem_nil
  requested := hreq
  attempted _ ha := absurd ha List.not_mem_nil
  first _ hid := absurd hid List.not_mem_nil

end Sound

/-! ## Steps

  The steps together, as one relation, and what every step only adds to: reasons, children, and attempts.  What is
  first among the attempts stays first. -/

/-- What happens to the tokens, one thing at a time. -/
inductive Moves (s : Deadlines) : Deadlines → Prop
  | request {t : Deadlines} {id : TokenId} {message : String} (h : s.request id message = some t) : Moves s t
  | call {t : Deadlines} {k : Nat} (h : s.call k = some t) : Moves s t
  | elapse {t : Deadlines} {id : TokenId} (h : s.elapse id = some t) : Moves s t
  | spawn {d : Span} {now : Nat} : Moves s (s.spawn d now).1

variable {t : Deadlines}

/-- **The invariant is kept by every step.** -/
theorem Sound.moves (h : s.Sound) (hm : Moves s t) : t.Sound := by
  cases hm with
  | request ht => exact h.request ht
  | call ht => exact h.call ht
  | elapse ht => exact h.elapse ht
  | spawn => exact h.spawn _ _

/-- What is only added to: reasons, children, and what was tried. -/
structure Grows (s t : Deadlines) : Prop where
  /-- The token that all is about stays the same. -/
  run : t.run = s.run
  own : ∀ id ∈ s.own, id ∈ t.own
  reason : ∀ id r, s.forest.reason? id = some r → t.forest.reason? id = some r
  attempts : s.attempts <+: t.attempts

/-- Nothing was added. -/
theorem Grows.refl (s : Deadlines) : Grows s s := ⟨rfl, fun _ h => h, fun _ _ h => h, List.prefix_rfl⟩

/-- What was added to twice was added to. -/
theorem Grows.trans {u : Deadlines} (h : Grows s t) (h' : Grows t u) : Grows s u :=
  ⟨h'.run.trans h.run, fun id hid => h'.own id (h.own id hid), fun id r hr => h'.reason id r (h.reason id r hr),
    h.attempts.trans h'.attempts⟩

/-- A token with a reason has one later. -/
theorem Grows.isCancelled (h : Grows s t) (hid : s.forest.isCancelled id = true) : t.forest.isCancelled id = true := by
  obtain ⟨r, hr⟩ := Option.isSome_iff_exists.mp hid
  exact Option.isSome_iff_exists.mpr ⟨r, h.reason id r hr⟩

/-- What was tried first stays so. -/
theorem Grows.first? (h : Grows s t) (hs : s.first? id = some reason) : t.first? id = some reason := by
  obtain ⟨more, hmore⟩ := h.attempts
  obtain ⟨a, ha, rfl⟩ := Option.map_eq_some_iff.mp hs
  rw [Deadlines.first?, ← hmore, List.find?_append, ha]
  rfl

/-- A trip adds a reason and an attempt. -/
theorem grows_attempt (s : Deadlines) (id : TokenId) (reason : CancelReason) : Grows s (s.attempt id reason) :=
  ⟨rfl, fun _ h => h, fun _ _ h => Forest.reason?_raise_of_some h, List.prefix_append _ _⟩

/-- Callbacks that trip nothing change no reason. -/
theorem grows_of_adds {g : Forest} {more rest : List (TokenId × Callback)} (h : Forest.Adds s.forest g more) :
    Grows s { s with forest := g, pending := rest } :=
  ⟨rfl, fun _ h => h, fun id _ hr => (h.reason id).trans hr, List.prefix_rfl⟩

/-- No step takes anything away. -/
theorem Moves.grows (h : s.Sound) (hm : Moves s t) : Grows s t := by
  cases hm with
  | request ht =>
    rw [Deadlines.request] at ht
    split at ht
    · cases ht
      exact grows_attempt s _ _
    · cases ht
  | call ht =>
    -- a callback trips nothing, or it is noted and then trips a token
    obtain ⟨w, -, ⟨hnone, rfl⟩ | ⟨id, reason, -, rfl⟩⟩ := call_cases ht
    · exact grows_of_adds (Forest.adds_runCallback hnone)
    · exact (grows_of_adds (Forest.Adds.noted s.forest w.2)).trans (grows_attempt _ id reason)
  | elapse ht =>
    obtain ⟨-, timer, rfl⟩ := elapse_cases ht
    exact (grows_of_adds (Forest.Adds.timed s.forest (s.forest.timers.erase timer))).trans (grows_attempt _ _ _)
  | spawn =>
    -- a child that is made changes no reason of the others
    refine ⟨rfl, fun _ h => List.mem_append_left _ h, fun id r hr => ?_, List.prefix_append _ _⟩
    have hid : s.forest.isCancelled id = true := Option.isSome_iff_exists.mpr ⟨r, hr⟩
    exact ((Forest.sprouts_withDeadline h.run_lt _ _).reason id (Forest.lt_of_isCancelled hid)).trans hr

/-- **What tripped a child first was its deadline, or it was passed on.** -/
theorem Sound.reason?_run_of_own (h : s.Sound) (hid : id ∈ s.own) (hr : s.forest.reason? id = some reason)
    (hreason : reason.isTimeout = false) : s.forest.reason? s.run = some reason := by
  -- the first attempt on the child was apt: it was passed on, unless it was a deadline
  rw [h.first id hid] at hr
  obtain ⟨a, ha, rfl⟩ := Option.map_eq_some_iff.mp hr
  have heq : a.1 = id := by simpa using List.find?_some ha
  refine ((h.attempted a (List.mem_of_find?_eq_some ha)).2.own (heq ▸ hid)).resolve_left fun htimeout => ?_
  rw [hreason] at htimeout
  cases htimeout

/-! ## A child hears of its token

  That a child hears of its token is not an invariant of the reasons alone.  As long as it is untripped, the callback
  that will trip it waits with the token, or it has been taken out and has to run. `Linked` is the disjunction of the
  three, and each step moves a child to the next of them at most. -/

namespace Linked

/-- Callbacks that trip nothing leave a child linked. -/
theorem adds {g : Forest} {more : List (TokenId × Callback)} (h : s.Linked id) (rest : List (TokenId × Callback))
    (ha : Forest.Adds s.forest g more) (hrest : (s.run, .passOn id) ∈ s.pending → (s.run, .passOn id) ∈ rest) :
    { s with forest := g, pending := rest }.Linked id := by
  have hset : ∀ y, g.isCancelled y = s.forest.isCancelled y := by
    intro y
    rw [Forest.isCancelled, ha.reason]
    rfl
  -- tripped, on its way, or waiting: each stays so
  rcases h with h | h | ⟨hun, hmem⟩
  · exact Or.inl ((hset id).trans h)
  · exact Or.inr (Or.inl (hrest h))
  · exact Or.inr (Or.inr ⟨(hset s.run).trans hun, ha.old s.run _ hmem⟩)

/-- A trip leaves a child linked: what was to tell it is taken out, if it is not left where it was. -/
theorem attempt {y : TokenId} (h : s.Linked y) (id : TokenId) (reason : CancelReason) :
    (s.attempt id reason).Linked y := by
  rcases h with h | h | ⟨hun, hmem⟩
  · exact Or.inl (Forest.raises_raise.isCancelled y h)
  · exact Or.inr (Or.inl (List.mem_append_right _ h))
  -- if the token itself is tripped, the callback has to run now; else it waits on
  · rcases Forest.mem_raise id reason hun hmem with htaken | ⟨hne, hstays⟩
    · exact Or.inr (Or.inl (List.mem_append_left _ htaken))
    · refine Or.inr (Or.inr ⟨?_, hstays⟩)
      show ((s.forest.raise id reason).1.reason? s.run).isSome = false
      rw [Forest.reason?_raise_of_ne hne]
      exact hun

/-- A child that can be tripped is, once the callback has run. -/
theorem attempt_passOn (h : s.Sound) (hid : id ∈ s.own) :
    ∃ reason, s.forest.attempt? s.run (.passOn id) = some (id, reason) := by
  have halive : s.forest.isAlive id = true := by
    rw [Forest.isAlive, List.contains_iff_mem.mpr (h.held id hid), Bool.true_or]
  exact ⟨_, if_pos halive⟩

/-- A callback that runs leaves a child linked, and trips it if it is the one that was to tell it. -/
theorem call {y : TokenId} (h : s.Linked y) (hs : s.Sound) (hy : y ∈ s.own) (ht : s.call k = some t) :
    t.Linked y := by
  obtain ⟨w, hw, hcase⟩ := call_cases ht
  -- the callback that passes a trip on has run, or is left
  have hleft : (s.run, .passOn y) ∈ s.pending → w = (s.run, .passOn y) ∨ (s.run, .passOn y) ∈ s.pending.eraseIdx k := by
    intro hmem
    obtain ⟨i, hi⟩ := List.getElem?_of_mem hmem
    by_cases heq : i = k
    · rw [heq, hw] at hi
      exact Or.inl (Option.some.inj hi)
    · exact Or.inr (List.mem_eraseIdx_iff_getElem?.mpr ⟨i, heq, hi⟩)
  obtain ⟨first, hpass⟩ := attempt_passOn hs hy
  rcases hcase with ⟨hnone, rfl⟩ | ⟨id, reason, hattempt, rfl⟩
  -- it trips nothing, so it was another one
  · refine h.adds _ (Forest.adds_runCallback hnone) fun hmem => List.mem_append_right _ ?_
    rcases hleft hmem with rfl | hleft
    · rw [hpass] at hnone
      cases hnone
    · exact hleft
  -- it trips a token: the child, or another one
  · by_cases heq : w = (s.run, .passOn y)
    · subst heq
      rw [hpass] at hattempt
      cases hattempt
      have hlt : y < (s.forest.note (.passOn y)).tokens.length := by
        rw [Forest.tokens_note]
        exact hs.own_lt y hy
      exact Or.inl (Forest.isCancelled_raise hlt)
    · have hadds := h.adds (s.pending.eraseIdx k) (Forest.Adds.noted s.forest w.2)
        fun hmem => (hleft hmem).resolve_left heq
      exact hadds.attempt id reason

/-- **A child stays linked to its token.** -/
theorem moves (h : s.Linked id) (hs : s.Sound) (hid : id ∈ s.own) (hm : Moves s t) : t.Linked id := by
  -- requests and deadlines are trips; a new child changes nothing for the others
  cases hm with
  | request ht =>
    rw [Deadlines.request] at ht
    split at ht
    · cases ht
      exact h.attempt _ _
    · cases ht
  | call ht => exact h.call hs hid ht
  | elapse ht =>
    obtain ⟨-, timer, rfl⟩ := elapse_cases ht
    exact (h.adds _ (Forest.Adds.timed s.forest (s.forest.timers.erase timer)) fun hmem => hmem).attempt _ _
  | @spawn d now =>
    have hsprouts := Forest.sprouts_withDeadline hs.run_lt d now
    have hset : ∀ y < s.forest.tokens.length, (s.spawn d now).1.forest.isCancelled y = s.forest.isCancelled y :=
      fun y hy => congrArg Option.isSome (hsprouts.reason y hy)
    rcases h with h | h | ⟨hun, hmem⟩
    · exact Or.inl ((hset id (hs.own_lt id hid)).trans h)
    · exact Or.inr (Or.inl h)
    · exact Or.inr (Or.inr ⟨(hset s.run hs.run_lt).trans hun,
        (hsprouts.callbacks s.run hs.run_lt _).mpr (Or.inl hmem)⟩)

/-- A new child is linked to its token. -/
theorem spawn (h : s.Sound) (d : Span) (now : Nat) : (s.spawn d now).1.Linked s.forest.tokens.length := by
  have hs := Forest.sprouts_withDeadline h.run_lt d now
  -- tripped with its token from the start, or waiting with it
  cases hset : s.forest.isCancelled s.run with
  | true =>
    refine Or.inl ?_
    show ((s.forest.withDeadline s.run d now).1.token s.forest.tokens.length).reason.isSome = true
    rw [hs.new]
    exact hset
  | false =>
    refine Or.inr (Or.inr ⟨?_, (hs.callbacks s.run h.run_lt _).mpr (Or.inr ⟨rfl, hset, rfl⟩)⟩)
    show ((s.forest.withDeadline s.run d now).1.reason? s.run).isSome = false
    rw [hs.reason s.run h.run_lt]
    exact hset

/-- **A trip of the token reaches its child**, as soon as one callback has run. -/
theorem reaches (h : s.Linked id) (hs : s.Sound) (hid : id ∈ s.own) (hrun : s.forest.isCancelled s.run = true) :
    s.forest.isCancelled id = true ∨ ∃ k t, s.call k = some t ∧ t.forest.isCancelled id = true := by
  -- tripped already, or the callback is there and can be run next
  rcases h with h | h | ⟨hun, -⟩
  · exact Or.inl h
  · obtain ⟨k, hk⟩ := List.getElem?_of_mem h
    obtain ⟨reason, hpass⟩ := attempt_passOn hs hid
    refine Or.inr ⟨k, _, congrArg (Option.map _) hk, ?_⟩
    dsimp only
    rw [Forest.runCallback_of_attempt hpass]
    refine Forest.isCancelled_raise ?_
    rw [Forest.tokens_note]
    exact hs.own_lt id hid
  · rw [hrun] at hun
    cases hun

end Linked

/-! ## Deadlines trip nothing else

  The timer of a child trips that child.  That the token above it stays untripped is seen at the callbacks: those of
  the child may trip its own children, and none of them names the token. -/

/-- **A deadline that is over trips its child and nothing else**: no other token gets a reason, and of the callbacks that
    have to run because of it none trips a token. -/
theorem elapse_spares (h : s.Sound) (ht : s.elapse id = some t) :
    (∀ y ≠ id, t.forest.reason? y = s.forest.reason? y) ∧
      ∃ quiet : List (TokenId × Callback), t.pending = quiet ++ s.pending ∧ ∀ w ∈ quiet, w.2.trips? = none := by
  obtain ⟨hid, timer, rfl⟩ := elapse_cases ht
  -- the callbacks of the child have to run, and none of them trips anything
  refine ⟨fun y hy => Forest.reason?_raise_of_ne hy, _, rfl, fun w hw => ?_⟩
  obtain ⟨-, -, hc⟩ := Forest.mem_taken hw
  exact (h.waiting id w.2 hc).quiet hid

/-! ## A trip is its steps

  Running all callbacks in order is one of the runs of this machine, so what holds of all runs holds of the trip as
  the program makes it. -/

/-- Callbacks run one after the other, each before those that waited longer. -/
def callAll : Nat → Deadlines → Deadlines
  | 0, s => s
  | n + 1, s =>
    match s.call 0 with
    | none => s
    | some t => callAll n t

/-- Running callbacks in order is what the program does. -/
theorem forest_callAll (n : Nat) (s : Deadlines) :
    (s.callAll n).forest = Forest.runCallbacks n s.pending s.forest := by
  -- induction on the number of callbacks that are run
  induction n generalizing s with
  | zero => rfl
  | succ n ih =>
    cases hp : s.pending with
    | nil =>
      rw [callAll, call, hp]
      rfl
    | cons w rest =>
      rw [callAll, call, hp]
      exact ih _

/-- A trip with nobody else about is one that ends before anything else happens. -/
theorem forest_trip (h : s.pending = []) (id : TokenId) (reason : CancelReason) :
    ∃ n, ((s.attempt id reason).callAll n).forest = s.forest.trip id reason := by
  have hpending : (s.attempt id reason).pending = (s.forest.raise id reason).2 := by
    rw [attempt, h, List.append_nil]
  -- so many steps are enough for all callbacks, as the program counts them
  refine ⟨(s.forest.raise id reason).2.foldr (fun w n => w.2.weight + n) 0 +
    (s.forest.raise id reason).1.weight, ?_⟩
  rw [forest_callAll, hpending]
  rfl

end Deadlines

end Wheelwright
