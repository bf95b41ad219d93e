/-
  Sessions — a build target, rehearsed with its callers.

  **State.**  Calls to build or to clean wait in a line, and one of them is served at a time.  A call
  on a closed target is refused when it comes in, and a build once more when it is served.

  **Program** — a session follows its rehearsal: when the run or the clean stage that is being served
  has ended, its call is answered, and the next in line is served.
-/
import Wheelwright.Rehearsal.Run
import Wheelwright.Target.Basic

namespace Wheelwright

/-- What a caller asks of a target. -/
inductive TargetCall where
  | build
  | clean
  deriving DecidableEq

/-- What a caller gets. -/
inductive CallAnswer where
  | outcome (o : PipelineOutcome)
  | cleaned (r : StageResult)
  | failed (e : BuildError)

/-- A target, its host, and the calls that wait and that were answered. -/
structure TargetSession where
  target : Option BuildTarget := none
  host : HostGraph := {}
  world : Rehearsal
  /-- Calls by their numbers, in the order in which they came. -/
  line : List (Nat × TargetCall) := []
  served : Option (Nat × TargetCall) := none
  answers : List (Nat × CallAnswer) := []

namespace TargetSession

/-- The call of a number is answered. -/
def answer (s : TargetSession) (n : Nat) (a : CallAnswer) : TargetSession :=
  { s with answers := s.answers ++ [(n, a)], served := none }

/-- A token of its own. -/
def newToken (s : TargetSession) : TargetSession × TokenId :=
  let (tokens, id) := s.world.tokens.create
  ({ s with world := { s.world with tokens } }, id)

/-! ## Serving

  Calls are served one at a time.  A build whose run cannot be got ready is answered at once, and the next call is
  served. -/

/-- A build is served: a run starts, unless the target refuses. -/
def serveBuild (s : TargetSession) (t : BuildTarget) (n : Nat) : TargetSession :=
  if t.closed then s.answer n (.failed .closed)
  else
    let (s, token) := s.newToken
    match t.prepareRun token s.world.tree s.host with
    | (t, host, some e) => { s with target := some t, host }.answer n (.failed e)
    | (t, host, none) =>
      let world := { s.world with run := none }.startRun t.pipeline t.bodies token
      { s with target := some t, host, world, served := some (n, .build) }

/-- A clean is served: its stage starts. -/
def serveClean (s : TargetSession) (t : BuildTarget) (n : Nat) : TargetSession :=
  match t.cleanBody with
  | .error e => s.answer n (.failed e)
  | .ok body =>
    let (s, token) := s.newToken
    { s with world := s.world.startAlone body token, served := some (n, .clean) }

/-- Serves calls in line until one of them takes time. -/
def serveLine (s : TargetSession) : List (Nat × TargetCall) → TargetSession
  | [] => { s with line := [] }
  | (n, call) :: rest =>
    match s.served, s.target with
    | none, some t =>
      match call with
      | .build => serveLine (s.serveBuild t n) rest
      | .clean => serveLine (s.serveClean t n) rest
    | _, _ => { s with line := (n, call) :: rest }

/-- Serves the calls in line if none is being served. -/
def serve (s : TargetSession) : TargetSession := s.serveLine s.line

/-- A call comes in. -/
def call (s : TargetSession) (n : Nat) (c : TargetCall) : TargetSession :=
  match s.target with
  | none => s
  | some t =>
    if t.closed then { s with answers := s.answers ++ [(n, .failed .closed)] }
    else { s with line := s.line ++ [(n, c)] }.serve

/-! ## Following the rehearsal

  What is being served is looked at after each step, and answered when it has ended. -/

/-- The run that is being served has ended. -/
def endBuild (s : TargetSession) (t : BuildTarget) (n : Nat) (o : PipelineOutcome) : TargetSession :=
  ({ s with target := some t.finishRun }.answer n (.outcome o)).serve

/-- The clean stage that is being served has ended: listeners are told, and the target's records are
    forgotten. -/
def endClean (s : TargetSession) (t : BuildTarget) (n : Nat) (r : StageResult) : TargetSession :=
  let world := s.world.deliver (.stage r)
  let (store, tree, forgotten) := (world.store t.services.store).forget t.storeStart world.tree
  let world := { world with tree, stores := world.stores.set t.services.store store }
  let answer :=
    match forgotten with
    | .ok _ => CallAnswer.cleaned r
    | .error e => .failed e
  ({ s with world }.answer n answer).serve

/-- Answers the call that is being served if it has ended. -/
def follow (s : TargetSession) : TargetSession :=
  match s.served, s.target with
  | some (n, .build), some t =>
    match s.world.outcome? with
    | some o => s.endBuild t n o
    | none => s
  | some (n, .clean), some t =>
    match s.world.aloneResult with
    | some r => s.endClean t n r
    | none => s
  | _, _ => s

/-- One step, the clock staying before `limit`. -/
def step (limit : Option Nat) (s : TargetSession) : Option TargetSession :=
  (s.world.step limit).map fun world => { s with world }.follow

/-- More steps than it takes to serve the calls in line. -/
def stepBound (s : TargetSession) : Nat := (s.line.length + 2) * (s.world.stepBound + 64)

/-- Everything that happens before the time `limit` happens. -/
def advanceTo (s : TargetSession) (limit : Nat) : TargetSession :=
  let s := iterate (step (some limit)) s.stepBound s
  { s with world := { s.world with now := max s.world.now limit } }

/-- All calls come to their ends. -/
def finishCalls (s : TargetSession) : TargetSession :=
  iterate (fun s => if s.served.isNone then none else s.step none) s.stepBound s

/-! ## Other steps -/

/-- The store of a new target: the one of a number, or one of its own as configured. -/
def storeFor (s : TargetSession) (c : TargetConfig) (shared : Option Nat) :
    Except BuildError (TargetSession × Nat) :=
  match shared with
  | some n => .ok (s, n)
  | none => do
    let store ←
      match c.pipeline.stateFile with
      | some p => FingerprintStore.openFile p s.world.tree
      | none => .ok {}
    return ({ s with world := { s.world with stores := s.world.stores ++ [store] } }, s.world.stores.length)

/-- A new target takes the place of the old one. -/
def create (s : TargetSession) (c : TargetConfig) (backends : BackendRegistry)
    (classifiers : ClassifierRegistry) (shared : Option Nat) : Except BuildError TargetSession := do
  let file ← Project.discover c.projectFile s.world.tree
  let (s, store) ← s.storeFor c shared
  let (t, host) ← BuildTarget.create c file { backends, classifiers, store } s.world.tree s.host
  return { s with target := some t, host, world := { s.world with run := none } }

/-- Cancels the run of the target, and tells whether there was one. -/
def cancel (s : TargetSession) (t : BuildTarget) (reason : String) : TargetSession × Bool :=
  let (tokens, running) := t.cancel reason s.world.tokens
  ({ s with world := s.world.withTokens tokens }, running)

/-- Invalidates the target and cancels its run. -/
def invalidate (s : TargetSession) (t : BuildTarget) (reason : String) : TargetSession × Bool :=
  let t := t.invalidate
  { s with target := some t }.cancel t reason

/-- Closes the target. -/
def close (s : TargetSession) (t : BuildTarget) : TargetSession :=
  let (t, tokens, host) := t.close s.world.tokens s.host
  { s with target := some t, host, world := s.world.withTokens tokens }

/-- The statuses of stages in the latest run. -/
def status? (s : TargetSession) (t : BuildTarget) (stage : String) : Option StageStatus :=
  (s.world.statuses t.pipeline).lookup stage

end TargetSession

end Wheelwright
