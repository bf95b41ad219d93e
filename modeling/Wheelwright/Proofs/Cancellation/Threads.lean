/-
  Threads — calls on tokens that are made at the same time.

  **State.**  The tokens of a forest, the flags that are up, and for each thread the calls that it is in,
  the innermost first.  A token has a reason, a flag and a list of callbacks, and what belongs to one of
  them is done under its own lock or, for the flag, in one access; so a trip is seen in parts: the reason
  first, then the flag, then the list that it takes out.

  **Steps** — a thread makes a call, the innermost call of a thread goes on, or a callback that runs comes
  to its end.  A callback may make calls of its own before that, on any token, and it may break off.  Any
  thread may make the next step, unless it waits for a lock.

  **The books** — what was registered, what was invoked, and which trips took the lock of the reason, each in
  the order in which it happened.  The books are only written to.
-/
import Mathlib.Algebra.GroupWithZero.Nat
import Wheelwright.Cancellation

namespace Wheelwright

/-! ## Tokens in parts

  A token is changed in one of its parts at a time, and all other tokens are as they were.  These lemmas say so, and
  no later module unfolds the list of tokens. -/

namespace Forest

/-- The forest with another token at `id`. -/
def update (f : Forest) (id : TokenId) (t : Token) : Forest := { f with tokens := f.tokens.set id t }

/-- A callback is noted when it starts to run. -/
def note (f : Forest) : Callback → Forest
  | .notify label _ => { f with fired := f.fired ++ [label] }
  | .passOn _ => f

variable {f : Forest} {id i : TokenId} {t : Token} {c : Callback}

/-- The token that is replaced is the new one. -/
theorem token_update_self (h : id < f.tokens.length) : (f.update id t).token id = t := by
  rw [token, update, List.getD_eq_getElem?_getD, List.getElem?_set_self h]
  rfl

/-- All others are as they were. -/
theorem token_update_of_ne (h : i ≠ id) : (f.update id t).token i = f.token i := by
  rw [token, token, update, List.getD_eq_getElem?_getD, List.getElem?_set_ne h.symm, List.getD_eq_getElem?_getD]

/-- Both at once, for any token. -/
theorem token_update (h : id < f.tokens.length) :
    (f.update id t).token i = if i = id then t else f.token i := by
  split
  · rename_i heq
    rw [heq, token_update_self h]
  · rename_i hne
    exact token_update_of_ne hne

/-- No token is made by replacing one. -/
@[simp] theorem length_update : (f.update id t).tokens.length = f.tokens.length := List.length_set

/-- A note leaves tokens alone. -/
@[simp] theorem token_note : (f.note c).token i = f.token i := by cases c <;> rfl

/-- A note changes no reason. -/
@[simp] theorem reason?_note : (f.note c).reason? i = f.reason? i := by cases c <;> rfl

/-- A note makes no token. -/
@[simp] theorem tokens_note : (f.note c).tokens = f.tokens := by cases c <;> rfl

end Forest

/-! ## Calls

  A call is told by what it does next and not by where it is in the program, so that each of its steps is one access
  to a token.  The measures beside it count, for one call, what the invariants later sum over all calls: callbacks in
  hand, locks held, lists still to be taken out. -/

/-- A call that a thread is in, by what it does next. -/
inductive TokenCall where
  /-- A trip that has to take the lock of the reason. -/
  | trips (id : TokenId) (reason : CancelReason)
  /-- A trip that has set the reason and still holds its lock: the flag is raised next. -/
  | raises (id : TokenId)
  /-- A trip that has raised the flag: the callbacks are taken out next, under their lock. -/
  | drains (id : TokenId)
  /-- Callbacks that are to be invoked one after the other. -/
  | invokes (id : TokenId) (callbacks : List Callback)
  /-- A registration that has to take the lock of the callbacks and to look at the flag. -/
  | registers (id : TokenId) (callback : Callback)
  /-- A registration that found the flag down and holds the lock: the callback is added next. -/
  | adds (id : TokenId) (callback : Callback)
  /-- A callback that runs. -/
  | within (id : TokenId) (callback : Callback)
  deriving DecidableEq

namespace TokenCall

/-- The token that is called. -/
def token : TokenCall → TokenId
  | .trips id _ | .raises id | .drains id | .invokes id _ | .registers id _ | .adds id _ | .within id _ => id

/-- How often the call has a callback of a token in its hands. -/
def holding (id : TokenId) (c : Callback) : TokenCall → Nat
  | .invokes i cs => if i = id then cs.count c else 0
  | .registers i d | .adds i d => if i = id ∧ d = c then 1 else 0
  | _ => 0

/-- The call holds the lock of a token's reason. -/
def raising (id : TokenId) : TokenCall → Nat
  | .raises i => if i = id then 1 else 0
  | _ => 0

/-- The call has still to take a token's callbacks out. -/
def draining (id : TokenId) : TokenCall → Nat
  | .raises i | .drains i => if i = id then 1 else 0
  | _ => 0

/-- The call holds the lock of a token's callbacks. -/
def adding (id : TokenId) : TokenCall → Nat
  | .adds i _ => if i = id then 1 else 0
  | _ => 0

/-- The call is one that only a tripped token has. -/
def afterTrip (id : TokenId) : TokenCall → Nat
  | .raises i | .drains i | .invokes i _ | .within i _ => if i = id then 1 else 0
  | _ => 0

/-- The call is one on a token that there is not. -/
def astray (count : Nat) (call : TokenCall) : Nat := if call.token < count then 0 else 1

/-- Who is about to raise a flag is about to take callbacks out. -/
theorem raising_le_draining (id : TokenId) (call : TokenCall) : raising id call ≤ draining id call := by
  cases call with
  | raises i => exact Nat.le_refl _
  | _ => exact Nat.zero_le _

/-- The call may wait for calls that are made from within it. -/
def isOuter : TokenCall → Bool
  | .invokes _ _ | .within _ _ => true
  | _ => false

/-- How many steps are left to the call, if no callback makes another call. -/
def effort : TokenCall → Nat
  | .trips _ _ => 4
  | .raises _ => 3
  | .drains _ => 2
  | .invokes _ cs => 1 + 2 * cs.length
  | .registers _ _ => 4
  | .adds _ _ => 3
  | .within _ _ => 1

end TokenCall

/-- Tokens, the threads that call them, and the books. -/
structure Threads where
  /-- The tokens, their reasons and what waits with them. -/
  forest : Forest
  /-- The tokens whose flags are up. -/
  raised : List TokenId := []
  /-- The calls of each thread, the innermost first. -/
  frames : List (List TokenCall) := []
  /-- All callbacks that were registered, each with its token, the earliest first. -/
  registered : List (TokenId × Callback) := []
  /-- All callbacks that were invoked, the earliest first. -/
  invoked : List (TokenId × Callback) := []
  /-- The trips that took the lock of the reason. -/
  taken : List (TokenId × CancelReason) := []

namespace Threads

/-- What a thread does next. -/
inductive Event where
  /-- It trips a token. -/
  | trip (thread : Nat) (id : TokenId) (reason : CancelReason)
  /-- It registers a callback. -/
  | onCancel (thread : Nat) (id : TokenId) (callback : Callback)
  /-- Its innermost call goes on. -/
  | go (thread : Nat)
  /-- The callback that it runs returns, or breaks off. -/
  | leave (thread : Nat) (broken : Bool)
  deriving DecidableEq

/-- New tokens, and threads that are in no call. -/
def start (tokens threads : Nat) : Threads :=
  { forest := { tokens := List.replicate tokens {} }, frames := List.replicate threads [] }

/-- Whether a token's flag is up. -/
def isCancelled (s : Threads) (id : TokenId) : Bool := s.raised.contains id

/-- The reason that a token has. -/
def reason? (s : Threads) (id : TokenId) : Option CancelReason := s.forest.reason? id

/-- The sum of a measure over all calls that threads are in. -/
def tally (s : Threads) (measure : TokenCall → Nat) : Nat :=
  (s.frames.map fun stack => (stack.map measure).sum).sum

/-- No thread is in a call. -/
def Idle (s : Threads) : Prop := ∀ stack ∈ s.frames, stack = []

/-- Whether anybody is in a call can be looked up. -/
instance (s : Threads) : Decidable s.Idle := inferInstanceAs (Decidable (∀ stack ∈ s.frames, stack = []))

/-- A thread may make a call from outside, or from within a callback. -/
def mayCall : List TokenCall → Bool
  | [] => true
  | .within _ _ :: _ => true
  | _ => false

/-- The thread is in other calls. -/
def withStack (s : Threads) (thread : Nat) (stack : List TokenCall) : Threads :=
  { s with frames := s.frames.set thread stack }

/-- Calls are no part of the forest. -/
@[simp] theorem forest_withStack (s : Threads) (thread : Nat) (stack : List TokenCall) :
    (s.withStack thread stack).forest = s.forest := rfl

/-- Nor of what was registered. -/
@[simp] theorem registered_withStack (s : Threads) (thread : Nat) (stack : List TokenCall) :
    (s.withStack thread stack).registered = s.registered := rfl

/-- Nor of what was invoked. -/
@[simp] theorem invoked_withStack (s : Threads) (thread : Nat) (stack : List TokenCall) :
    (s.withStack thread stack).invoked = s.invoked := rfl

/-- Nor of what was tried. -/
@[simp] theorem taken_withStack (s : Threads) (thread : Nat) (stack : List TokenCall) :
    (s.withStack thread stack).taken = s.taken := rfl

/-- A thread makes a call. -/
def enter (s : Threads) (thread : Nat) (call : TokenCall) : Option Threads :=
  match s.frames[thread]? with
  | none => none
  | some stack =>
    if mayCall stack && call.token < s.forest.tokens.length then some (s.withStack thread (call :: stack))
    else none

/-- The innermost call of a thread goes on; the calls below it wait. -/
def proceed (s : Threads) (thread : Nat) (below : List TokenCall) : TokenCall → Option Threads
  | .trips id reason =>
    if 0 < s.tally (TokenCall.raising id) then none
    else
      -- the attempt is written down, whether it is the first or not
      let s := { s with taken := s.taken ++ [(id, reason)] }
      if (s.reason? id).isSome then some (s.withStack thread below)
      else
        some ({ s with forest := s.forest.update id { s.forest.token id with reason := some reason } }.withStack
          thread (.raises id :: below))
  | .raises id => some ({ s with raised := id :: s.raised }.withStack thread (.drains id :: below))
  | .drains id =>
    if 0 < s.tally (TokenCall.adding id) then none
    else
      some ({ s with forest := s.forest.update id { s.forest.token id with callbacks := [] } }.withStack
        thread (.invokes id (s.forest.token id).callbacks :: below))
  | .invokes _ [] => some (s.withStack thread below)
  | .invokes id (c :: rest) =>
    some ({ s with forest := s.forest.note c, invoked := s.invoked ++ [(id, c)] }.withStack
      thread (.within id c :: .invokes id rest :: below))
  | .registers id c =>
    if 0 < s.tally (TokenCall.adding id) then none
    else if s.isCancelled id then some (s.withStack thread (.invokes id [c] :: below))
    else some (s.withStack thread (.adds id c :: below))
  | .adds id c =>
    let t := s.forest.token id
    some ({ s with forest := s.forest.update id { t with callbacks := t.callbacks ++ [c] } }.withStack
      thread below)
  | .within _ _ => none

/-- The state after a step, if it can be made. -/
def step (s : Threads) : Event → Option Threads
  | .trip thread id reason => s.enter thread (.trips id reason)
  | .onCancel thread id c =>
    (s.enter thread (.registers id c)).map fun s => { s with registered := s.registered ++ [(id, c)] }
  | .go thread =>
    match s.frames[thread]? with
    | some (call :: below) => s.proceed thread below call
    | _ => none
  | .leave thread _ =>
    match s.frames[thread]? with
    | some (.within _ _ :: below) => some (s.withStack thread below)
    | _ => none

/-- The state after some steps, if all of them can be made. -/
def follow : Threads → List Event → Option Threads
  | s, [] => some s
  | s, e :: rest => (s.step e).bind fun next => follow next rest

variable {s s' : Threads} {e : Event} {thread : Nat} {stack : List TokenCall}

/-- A run is a step and a run. -/
theorem follow_cons {rest : List Event} : s.follow (e :: rest) = some s' ↔
    ∃ next, s.step e = some next ∧ next.follow rest = some s' := by
  rw [follow, Option.bind_eq_some_iff]

/-- Runs are put together. -/
theorem follow_append (events more : List Event) :
    s.follow (events ++ more) = (s.follow events).bind fun next => next.follow more := by
  induction events generalizing s with
  | nil => rfl
  | cons e rest ih =>
    rw [List.cons_append, follow, follow, Option.bind_assoc]
    exact congrArg _ (funext fun next => ih)

/-! ## Sums over calls

  Sums over all calls of all threads.  A step changes the calls of one thread, so the sums before and after differ by
  the measure of a few calls. -/

/-- Sums over a list with another entry in one place. -/
theorem sum_map_set {α : Type} (f : α → Nat) {l : List α} {n : Nat} {a : α} (b : α) (h : l[n]? = some a) :
    ((l.set n b).map f).sum + f a = (l.map f).sum + f b := by
  -- induction on the position that is changed
  induction l generalizing n with
  | nil => cases h
  | cons x rest ih =>
    cases n with
    | zero =>
      obtain rfl : x = a := Option.some.inj h
      rw [List.set_cons_zero, List.map_cons, List.map_cons, List.sum_cons, List.sum_cons]
      omega
    | succ n =>
      have hrest := ih (show rest[n]? = some a from h)
      rw [List.set_cons_succ, List.map_cons, List.map_cons, List.sum_cons, List.sum_cons]
      omega

/-- Some innermost calls of a thread are exchanged for others. -/
theorem sum_exchange (measure : TokenCall → Nat) (old new below : List TokenCall)
    {frames : List (List TokenCall)} (h : frames[thread]? = some (old ++ below)) :
    ((frames.set thread (new ++ below)).map fun stack => (stack.map measure).sum).sum + (old.map measure).sum =
      (frames.map fun stack => (stack.map measure).sum).sum + (new.map measure).sum := by
  have hsum := sum_map_set (fun stack => (stack.map measure).sum) (new ++ below) h
  simp only [List.map_append, List.sum_append] at hsum
  omega

/-- Nobody is in a call, so nothing can be counted. -/
theorem tally_of_idle (measure : TokenCall → Nat) (h : s.Idle) : s.tally measure = 0 := by
  rw [tally, List.sum_eq_zero_iff_forall_eq_nat]
  intro n hn
  obtain ⟨stack, hstack, rfl⟩ := List.mem_map.mp hn
  rw [h stack hstack]
  rfl

/-- A call counts in the sum. -/
theorem le_tally (measure : TokenCall → Nat) (h : s.frames[thread]? = some stack) :
    (stack.map measure).sum ≤ s.tally measure := by
  have hsum := sum_map_set (fun stack => (stack.map measure).sum) [] h
  rw [List.map_nil, List.sum_nil] at hsum
  rw [tally]
  omega

/-- What counts in the sum is a call of some thread. -/
theorem exists_of_tally {measure : TokenCall → Nat} (h : 0 < s.tally measure) :
    ∃ (t : Nat) (stack : List TokenCall), s.frames[t]? = some stack ∧ ∃ call ∈ stack, 0 < measure call := by
  rw [tally, List.sum_pos_iff_exists_pos_nat] at h
  obtain ⟨n, hn, hpos⟩ := h
  obtain ⟨stack, hstack, rfl⟩ := List.mem_map.mp hn
  obtain ⟨t, ht⟩ := List.mem_iff_getElem?.mp hstack
  obtain ⟨m, hm, hcall⟩ := List.sum_pos_iff_exists_pos_nat.mp hpos
  obtain ⟨call, hmem, rfl⟩ := List.mem_map.mp hm
  exact ⟨t, stack, ht, call, hmem, hcall⟩

/-- A measure that is never greater has no greater sum. -/
theorem tally_le {measure other : TokenCall → Nat} (h : ∀ call, measure call ≤ other call) :
    s.tally measure ≤ s.tally other := by
  -- calls of one thread first, then all threads
  have hstack (stack : List TokenCall) : (stack.map measure).sum ≤ (stack.map other).sum := by
    induction stack with
    | nil => exact Nat.le_refl 0
    | cons call below ih =>
      have hcall := h call
      rw [List.map_cons, List.map_cons, List.sum_cons, List.sum_cons]
      omega
  rw [tally, tally]
  induction s.frames with
  | nil => exact Nat.le_refl 0
  | cons stack rest ih =>
    have htop := hstack stack
    rw [List.map_cons, List.map_cons, List.sum_cons, List.sum_cons]
    omega

/-! ## Single steps

  The inversion of a step: one constructor for each thing that can happen, with what it needs and what it changes.
  All invariants are proved from these and do not unfold the step again. -/

/-- What each step needs and what it does; some innermost calls of one thread become others. -/
inductive Moves (s : Threads) : Event → List TokenCall → List TokenCall → Threads → Prop
  /-- A thread begins to trip a token. -/
  | trip {t : Nat} {below : List TokenCall} {id : TokenId} {reason : CancelReason}
      (hstack : s.frames[t]? = some below) (hcall : mayCall below = true)
      (hid : id < s.forest.tokens.length) :
      Moves s (.trip t id reason) [] [.trips id reason] (s.withStack t (.trips id reason :: below))
  /-- A thread begins to register a callback. -/
  | onCancel {t : Nat} {below : List TokenCall} {id : TokenId} {c : Callback}
      (hstack : s.frames[t]? = some below) (hcall : mayCall below = true)
      (hid : id < s.forest.tokens.length) :
      Moves s (.onCancel t id c) [] [.registers id c]
        ({ s with registered := s.registered ++ [(id, c)] }.withStack t (.registers id c :: below))
  /-- Another trip came before. -/
  | comesLate {t : Nat} {below : List TokenCall} {id : TokenId} {reason : CancelReason}
      (hstack : s.frames[t]? = some (.trips id reason :: below)) (hset : (s.reason? id).isSome = true) :
      Moves s (.go t) [.trips id reason] [] ({ s with taken := s.taken ++ [(id, reason)] }.withStack t below)
  /-- The first trip of a token sets its reason. -/
  | setsReason {t : Nat} {below : List TokenCall} {id : TokenId} {reason : CancelReason}
      (hstack : s.frames[t]? = some (.trips id reason :: below)) (hunset : s.reason? id = none) :
      Moves s (.go t) [.trips id reason] [.raises id] ({ s with
        taken := s.taken ++ [(id, reason)]
        forest := s.forest.update id { s.forest.token id with reason := some reason } }.withStack
          t (.raises id :: below))
  /-- Then it raises the flag. -/
  | raisesFlag {t : Nat} {below : List TokenCall} {id : TokenId}
      (hstack : s.frames[t]? = some (.raises id :: below)) :
      Moves s (.go t) [.raises id] [.drains id] ({ s with raised := id :: s.raised }.withStack t (.drains id :: below))
  /-- Then it takes the callbacks out, unless one is being added. -/
  | takesOut {t : Nat} {below : List TokenCall} {id : TokenId}
      (hstack : s.frames[t]? = some (.drains id :: below)) (hfree : s.tally (TokenCall.adding id) = 0) :
      Moves s (.go t) [.drains id] [.invokes id (s.forest.token id).callbacks] ({ s with
        forest := s.forest.update id { s.forest.token id with callbacks := [] } }.withStack
          t (.invokes id (s.forest.token id).callbacks :: below))
  /-- A call has invoked all its callbacks. -/
  | ends {t : Nat} {below : List TokenCall} {id : TokenId}
      (hstack : s.frames[t]? = some (.invokes id [] :: below)) :
      Moves s (.go t) [.invokes id []] [] (s.withStack t below)
  /-- A call invokes the next of its callbacks. -/
  | invokes {t : Nat} {below : List TokenCall} {id : TokenId} {c : Callback} {rest : List Callback}
      (hstack : s.frames[t]? = some (.invokes id (c :: rest) :: below)) :
      Moves s (.go t) [.invokes id (c :: rest)] [.within id c, .invokes id rest]
        ({ s with forest := s.forest.note c, invoked := s.invoked ++ [(id, c)] }.withStack
          t (.within id c :: .invokes id rest :: below))
  /-- The token was tripped before the callback was registered. -/
  | findsUp {t : Nat} {below : List TokenCall} {id : TokenId} {c : Callback}
      (hstack : s.frames[t]? = some (.registers id c :: below)) (hup : s.isCancelled id = true) :
      Moves s (.go t) [.registers id c] [.invokes id [c]] (s.withStack t (.invokes id [c] :: below))
  /-- The token was not tripped, so the callback is going to be added. -/
  | findsDown {t : Nat} {below : List TokenCall} {id : TokenId} {c : Callback}
      (hstack : s.frames[t]? = some (.registers id c :: below)) (hdown : s.isCancelled id = false) :
      Moves s (.go t) [.registers id c] [.adds id c] (s.withStack t (.adds id c :: below))
  /-- The callback is added to those that wait. -/
  | adds {t : Nat} {below : List TokenCall} {id : TokenId} {c : Callback}
      (hstack : s.frames[t]? = some (.adds id c :: below)) :
      Moves s (.go t) [.adds id c] [] ({ s with
        forest := s.forest.update id { s.forest.token id with
          callbacks := (s.forest.token id).callbacks ++ [c] } }.withStack t below)
  /-- A callback returns, or it panics, which is caught. -/
  | leave {t : Nat} {below : List TokenCall} {id : TokenId} {c : Callback} {broken : Bool}
      (hstack : s.frames[t]? = some (.within id c :: below)) :
      Moves s (.leave t broken) [.within id c] [] (s.withStack t below)

/-- **Sums change by the difference** of the calls that a step ends and those that it begins. -/
theorem Moves.exchange {old new : List TokenCall} (h : Moves s e old new s') (measure : TokenCall → Nat) :
    s'.tally measure + (old.map measure).sum = s.tally measure + (new.map measure).sum := by
  -- each kind of step has its two lists of calls, and the rest of the stack stays
  cases h with
  | @trip t below id reason hstack => exact sum_exchange measure [] [.trips id reason] below hstack
  | @onCancel t below id c hstack => exact sum_exchange measure [] [.registers id c] below hstack
  | @comesLate t below id reason hstack => exact sum_exchange measure [.trips id reason] [] below hstack
  | @setsReason t below id reason hstack =>
    exact sum_exchange measure [.trips id reason] [.raises id] below hstack
  | @raisesFlag t below id hstack => exact sum_exchange measure [.raises id] [.drains id] below hstack
  | @takesOut t below id hstack =>
    exact sum_exchange measure [.drains id] [.invokes id (s.forest.token id).callbacks] below hstack
  | @ends t below id hstack => exact sum_exchange measure [.invokes id []] [] below hstack
  | @invokes t below id c rest hstack =>
    exact sum_exchange measure [.invokes id (c :: rest)] [.within id c, .invokes id rest] below hstack
  | @findsUp t below id c hstack => exact sum_exchange measure [.registers id c] [.invokes id [c]] below hstack
  | @findsDown t below id c hstack => exact sum_exchange measure [.registers id c] [.adds id c] below hstack
  | @adds t below id c hstack => exact sum_exchange measure [.adds id c] [] below hstack
  | @leave t below id c broken hstack => exact sum_exchange measure [.within id c] [] below hstack

/-- The calls that a step ends are among those that threads are in. -/
theorem Moves.old_le {old new : List TokenCall} (h : Moves s e old new s') (measure : TokenCall → Nat) :
    (old.map measure).sum ≤ s.tally measure := by
  cases h with
  | trip | onCancel => exact Nat.zero_le _
  | comesLate hstack | setsReason hstack | raisesFlag hstack | takesOut hstack | ends hstack | invokes hstack
  | findsUp hstack | findsDown hstack | adds hstack | leave hstack =>
    have hle := le_tally measure hstack
    rw [List.map_cons, List.sum_cons] at hle ⊢
    rw [List.map_nil, List.sum_nil]
    omega

/-- A call begins on a token that there is, in no other call or in a callback. -/
theorem enter_eq_some {call : TokenCall} (h : s.enter thread call = some s') :
    ∃ stack, s.frames[thread]? = some stack ∧ mayCall stack = true ∧
      call.token < s.forest.tokens.length ∧ s' = s.withStack thread (call :: stack) := by
  unfold enter at h
  split at h
  · cases h
  · rename_i stack hstack
    split at h
    · rename_i hcond
      rw [Bool.and_eq_true, decide_eq_true_iff] at hcond
      exact ⟨stack, hstack, hcond.1, hcond.2, (Option.some.inj h).symm⟩
    · cases h

/-- The innermost call goes on by one of the moves. -/
theorem moves_of_proceed {call : TokenCall} (hstack : s.frames[thread]? = some (call :: stack))
    (h : s.proceed thread stack call = some s') : ∃ old new, Moves s (.go thread) old new s' := by
  -- the call that goes on decides, and then what it finds
  cases call with
  | trips id reason =>
    simp only [proceed] at h
    split at h
    · cases h
    -- somebody is raising the flag: the trip waits
    · split at h
      · rename_i hset
        obtain rfl := Option.some.inj h
        exact ⟨_, _, .comesLate hstack hset⟩
      · rename_i hunset
        obtain rfl := Option.some.inj h
        exact ⟨_, _, .setsReason hstack (Option.not_isSome_iff_eq_none.mp hunset)⟩
  | raises id =>
    obtain rfl := Option.some.inj h
    exact ⟨_, _, .raisesFlag hstack⟩
  | drains id =>
    simp only [proceed] at h
    split at h
    · cases h
    · rename_i hfree
      obtain rfl := Option.some.inj h
      exact ⟨_, _, .takesOut hstack (by omega)⟩
  | invokes id callbacks =>
    cases callbacks with
    | nil =>
      obtain rfl := Option.some.inj h
      exact ⟨_, _, .ends hstack⟩
    | cons c rest =>
      obtain rfl := Option.some.inj h
      exact ⟨_, _, .invokes hstack⟩
  | registers id c =>
    simp only [proceed] at h
    split at h
    -- a callback is being added: the registration waits
    · cases h
    · split at h
      · rename_i hup
        obtain rfl := Option.some.inj h
        exact ⟨_, _, .findsUp hstack hup⟩
      · rename_i hdown
        obtain rfl := Option.some.inj h
        exact ⟨_, _, .findsDown hstack (by simpa using hdown)⟩
  | adds id c =>
    obtain rfl := Option.some.inj h
    exact ⟨_, _, .adds hstack⟩
  -- a callback goes on by leaving it, not by itself
  | within id c => cases h

/-- **Every step is one of the moves.** -/
theorem moves_of_step (h : s.step e = some s') :
    ∃ old new, Moves s e old new s' := by
  -- four kinds of events
  cases e with
  | trip thread id reason =>
    obtain ⟨stack, hstack, hcall, hid, rfl⟩ := enter_eq_some h
    exact ⟨_, _, .trip hstack hcall hid⟩
  | onCancel thread id c =>
    obtain ⟨u, hu, rfl⟩ := Option.map_eq_some_iff.mp h
    obtain ⟨stack, hstack, hcall, hid, rfl⟩ := enter_eq_some hu
    exact ⟨_, _, .onCancel hstack hcall hid⟩
  | go thread =>
    simp only [step] at h
    split at h
    · rename_i call below hstack
      exact moves_of_proceed hstack h
    · cases h
  | leave thread broken =>
    simp only [step] at h
    split at h
    · rename_i hstack
      obtain rfl := Option.some.inj h
      exact ⟨_, _, .leave hstack⟩
    · cases h

end Threads

end Wheelwright
