/-
  Cancellation tokens — a forest of flags that pass down why they were raised.

  **State** — a token is untripped with callbacks waiting, or tripped for a reason.  The first trip
  fixes the reason and takes the callbacks out, and they run in the order they were registered.  A
  callback may raise other tokens, whose callbacks then run before the rest; a child is nothing but a
  callback of its parent that passes the parent's reason on.

  **Lifetime** — a token lives while a handle or a timer holds it; callbacks hold tokens weakly, so
  what they name may be gone.

  **The crux** — raising terminates because every callback runs once and adds less than it takes
  away: `Forest.weight` counts what may still run.
-/
import Wheelwright.Json.Record
import Wheelwright.Span
import Wheelwright.Text.Quoted

namespace Wheelwright

/-! ## Reasons -/

/-- Why a token was tripped. -/
inductive CancelReason where
  | requested (message : String)
  | deadlineElapsed (afterMs : Nat)
  deriving DecidableEq

namespace CancelReason

def isTimeout : CancelReason → Bool
  | .deadlineElapsed _ => true
  | .requested _ => false

def text : CancelReason → String
  | .requested message => message
  | .deadlineElapsed afterMs => "deadline of " ++ toString afterMs ++ "ms elapsed"

/-- The reason with the names of its parts. -/
def debugText : CancelReason → String
  | .requested message => "Requested \x7b message: " ++ quoteText message ++ " \x7d"
  | .deadlineElapsed afterMs => "DeadlineElapsed \x7b after_ms: " ++ toString afterMs ++ " \x7d"

def toJson : CancelReason → Json
  | .requested message => .object [("type", .string "requested"), ("message", .string message)]
  | .deadlineElapsed afterMs =>
    .object [("type", .string "deadline_elapsed"), ("after_ms", .nat afterMs)]

def ofJson? (j : Json) : Option CancelReason := do
  let t ← Json.tagged? "type" 127 j
  if t.tag = "requested" then
    let r ← Json.record? ["message"] t.body
    (r.required "message" Json.text?).map .requested
  else if t.tag = "deadline_elapsed" then
    let r ← Json.record? ["after_ms"] t.body
    (r.required "after_ms" (Json.natUpTo? (Nat.pow 2 64 - 1))).map .deadlineElapsed
  else none

end CancelReason

/-! ## Tokens

  Tokens go by numbers, and who holds one is kept beside it: handles, and timers that will trip it.  A callback knows
  the token that it is about by its number only, and passes over one that nobody holds any more. -/

/-- The number of a token, in the order of creation. -/
abbrev TokenId := Nat

/-- What a callback does after it was noted. -/
inductive Reaction where
  | nothing
  /-- It breaks off, which concerns nobody. -/
  | panic
  | cancel (token : TokenId) (message : String)
  /-- It registers one more callback, which does nothing after it was noted. -/
  | register (token : TokenId) (label : String)
  deriving DecidableEq

/-- What a trip sets off. -/
inductive Callback where
  | notify (label : String) (reaction : Reaction)
  /-- The child is tripped for the same reason. -/
  | passOn (child : TokenId)
  deriving DecidableEq

/-- How many callbacks may run because of this one, itself included. -/
def Callback.weight : Callback → Nat
  | .notify _ (.register _ _) => 2
  | _ => 1

/-- A token: why it was tripped, if it was, and the callbacks that wait for that. -/
structure Token where
  reason : Option CancelReason := none
  callbacks : List Callback := []
  deriving DecidableEq

/-- A timer that trips a token. -/
structure TokenTimer where
  due : Nat
  token : TokenId
  afterMs : Nat
  deriving DecidableEq

/-- All tokens, who holds them, and the labels of the callbacks that ran. -/
structure Forest where
  tokens : List Token := []
  handles : List TokenId := []
  timers : List TokenTimer := []
  fired : List String := []
  deriving DecidableEq

namespace Forest

def token (f : Forest) (id : TokenId) : Token := f.tokens.getD id {}

def reason? (f : Forest) (id : TokenId) : Option CancelReason := (f.token id).reason

def isCancelled (f : Forest) (id : TokenId) : Bool := (f.reason? id).isSome

/-- The token was tripped by a deadline. -/
def isTimeout (f : Forest) (id : TokenId) : Bool := (f.reason? id).any CancelReason.isTimeout

/-- A handle or a timer holds the token. -/
def isAlive (f : Forest) (id : TokenId) : Bool :=
  f.handles.contains id || f.timers.any fun t => t.token = id

/-- What may still run once every token is tripped. -/
def weight (f : Forest) : Nat :=
  f.tokens.foldr (fun t n => t.callbacks.foldr (fun c n => c.weight + n) n) 0

/-! ## Raising

  A trip sets the reason and takes the callbacks out in one go.  What these set off is done before the callbacks that
  waited longer, which is the order of calls within calls. -/

/-- Sets the reason of an untripped token and takes its callbacks out. -/
def raise (f : Forest) (id : TokenId) (reason : CancelReason) :
    Forest × List (TokenId × Callback) :=
  if f.isCancelled id then (f, [])
  else
    ({ f with tokens := f.tokens.set id { reason := some reason } },
      (f.token id).callbacks.map fun c => (id, c))

/-- Runs a callback of `owner`: the callbacks that have to run next. -/
def runCallback (f : Forest) (owner : TokenId) : Callback → Forest × List (TokenId × Callback)
  | .passOn child =>
    if f.isAlive child then
      f.raise child ((f.reason? owner).getD (.requested "parent cancelled"))
    else (f, [])
  | .notify label reaction =>
    let f := { f with fired := f.fired ++ [label] }
    match reaction with
    | .nothing | .panic => (f, [])
    | .cancel id message => if f.isAlive id then f.raise id (.requested message) else (f, [])
    | .register id label =>
      let callback := Callback.notify label .nothing
      if !f.isAlive id then (f, [])
      else if f.isCancelled id then (f, [(id, callback)])
      else
        let t := f.token id
        ({ f with tokens := f.tokens.set id { t with callbacks := t.callbacks ++ [callback] } }, [])

/-- Runs callbacks and what they set off, `steps` of them at most. -/
def runCallbacks : Nat → List (TokenId × Callback) → Forest → Forest
  | 0, _, f => f
  | _, [], f => f
  | steps + 1, (owner, callback) :: rest, f =>
    let (f, more) := f.runCallback owner callback
    runCallbacks steps (more ++ rest) f

/-- Runs callbacks and all that they set off. -/
def runAll (f : Forest) (work : List (TokenId × Callback)) : Forest :=
  runCallbacks (work.foldr (fun w n => w.2.weight + n) 0 + f.weight) work f

/-- Trips a token; only the first trip counts. -/
def trip (f : Forest) (id : TokenId) (reason : CancelReason) : Forest :=
  let (f, work) := f.raise id reason
  f.runAll work

/-- Trips a token on request. -/
def cancel (f : Forest) (id : TokenId) (message : String) : Forest := f.trip id (.requested message)

/-- Registers a callback; on a tripped token it runs at once. -/
def onCancel (f : Forest) (id : TokenId) (callback : Callback) : Forest :=
  if f.isCancelled id then f.runAll [(id, callback)]
  else
    let t := f.token id
    { f with tokens := f.tokens.set id { t with callbacks := t.callbacks ++ [callback] } }

/-! ## Making and dropping tokens

  A child is a callback with its parent.  On a tripped parent the callback runs at once, so the child is tripped from
  the start. -/

/-- A token of its own, with a handle. -/
def create (f : Forest) : Forest × TokenId :=
  let id := f.tokens.length
  ({ f with tokens := f.tokens ++ [{}], handles := id :: f.handles }, id)

/-- A token that is tripped with its parent, with a handle. -/
def child (f : Forest) (parent : TokenId) : Forest × TokenId :=
  let (f, id) := f.create
  (f.onCancel parent (.passOn id), id)

/-- A child that is tripped also when the time `d` is over. -/
def withDeadline (f : Forest) (parent : TokenId) (d : Span) (now : Nat) : Forest × TokenId :=
  let (f, id) := f.child parent
  let timer := { due := now + d.timerMillis, token := id, afterMs := min d.wholeMillis (Nat.pow 2 64 - 1) }
  ({ f with timers := f.timers ++ [timer] }, id)

/-- Releases the handle of a token. -/
def drop (f : Forest) (id : TokenId) : Forest := { f with handles := f.handles.filter (· ≠ id) }

/-! ## Time

  Time passes from timer to timer.  A timer whose token is tripped already has nothing more to do. -/

/-- Timers of tripped tokens end. -/
def settleTimers (f : Forest) : Forest :=
  { f with timers := f.timers.filter fun t => !f.isCancelled t.token }

/-- The timer that is due first. -/
def nextTimer? (f : Forest) : Option TokenTimer :=
  f.timers.foldl (fun best t =>
    match best with
    | none => some t
    | some b => if t.due < b.due then some t else some b) none

/-- A timer trips its token and ends. -/
def fire (f : Forest) (t : TokenTimer) : Forest :=
  let f := f.trip t.token (.deadlineElapsed t.afterMs)
  { f with timers := f.timers.erase t }

/-- All timers that are due before `time`, in order; `steps` of them at most. -/
def fireBefore (time : Nat) : Nat → Forest → Forest
  | 0, f => f
  | steps + 1, f =>
    let f := f.settleTimers
    match f.nextTimer? with
    | none => f
    | some t => if t.due < time then fireBefore time steps (f.fire t) else f

/-- Time passes up to `time`. -/
def sleepUntil (f : Forest) (time : Nat) : Forest := fireBefore time (f.timers.length + 1) f

/-- Waits from `now` for a token to be tripped, up to `time`: the time at the end of the wait and
    whether the token was tripped; `steps` timers at most. -/
def waitUntil (id : TokenId) (time : Nat) : Nat → Nat → Forest → Forest × Nat × Bool
  | 0, now, f => (f, now, f.isCancelled id)
  | steps + 1, now, f =>
    if f.isCancelled id then (f, now, true)
    else
      let f := f.settleTimers
      match f.nextTimer? with
      | none => (f, time, false)
      | some t =>
        if t.due < time then waitUntil id time steps (max now t.due) (f.fire t) else (f, time, false)

/-- Waits for a token to be tripped. -/
def waitFor (f : Forest) (id : TokenId) (now time : Nat) : Forest × Nat × Bool :=
  waitUntil id time (f.timers.length + 2) now f

/-- A token with the names of its parts. -/
def debugText (f : Forest) (id : TokenId) : String :=
  let reason :=
    match f.reason? id with
    | none => "None"
    | some r => "Some(" ++ r.debugText ++ ")"
  "CancellationToken \x7b cancelled: " ++ (if f.isCancelled id then "true" else "false") ++
    ", reason: " ++ reason ++ " \x7d"

end Forest

end Wheelwright
