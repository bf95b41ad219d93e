/-
  Supervision — the commands of a run, with deadlines, while the run may be cancelled.

  **Machine** — a supervisor waits for its process to end and for its token to be tripped, whichever it hears of
  first.  If that is the trip, it has the process end, and then looks at the token for the reason: that is `timedOut`
  if a deadline tripped it and `cancelled` otherwise.  When the output has been read it sends the outcome, and the
  stage comes to its result.  Meanwhile the loop of the run, the other commands, and all that trips tokens go on, one
  step at a time in any order.

  **Specification** — every command comes to one outcome.  It is `timedOut` only if the deadline was the first to
  trip the command's token, and `cancelled` only if the token of the run was tripped, which no deadline does.  And a
  stage that ran out of time takes down with it only what depends on it.

  **The crux** — a command with a deadline has a token of its own, below that of the run (`Deadlines`); what the
  supervisor reads off it after the process is gone was fixed by the first trip (`Earned`).
-/
import Wheelwright.Rehearsal.Tasks
import Wheelwright.Proofs.Cancellation.Deadlines
import Wheelwright.Proofs.Dispatch.Causes

namespace Wheelwright

/-- What a supervisor makes of the token that it was interrupted by. -/
def Forest.verdict (f : Forest) (token : TokenId) : ExitOutcome := if f.isTimeout token then .timedOut else .cancelled

/-! ## Commands

  A command with its supervisor, and what may happen to it.  The supervisor moves in one direction, and once it has an
  outcome it keeps it. -/

/-- Where the supervisor of a command is. -/
inductive Watch where
  /-- It waits for the end of the process, or for its token. -/
  | watching
  /-- The process was asked to end, and will be stopped when the grace period is over. -/
  | terminating
  /-- The output is read, or given up when the drain period is over. -/
  | draining (outcome : ExitOutcome)
  /-- The stage was given its outcome. -/
  | sent (outcome : ExitOutcome)

namespace Watch

/-- The outcome, once it is decided. -/
def outcome? : Watch → Option ExitOutcome
  | .watching | .terminating => none
  | .draining o | .sent o => some o

/-- How many steps the supervisor has to make, at most. -/
def left : Watch → Nat
  | .watching => 3
  | .terminating => 2
  | .draining _ => 1
  | .sent _ => 0

end Watch

/-- A command that was launched. -/
structure Guarded where
  /-- The stage, its command and the token that the command runs under. -/
  stage : Nat
  body : BackendStage
  token : TokenId
  /-- The end of the process, with a code unless a signal ended it. -/
  exited : Option (Option Int) := none
  /-- What its supervisor is doing. -/
  watch : Watch := .watching

/-- What happens to a command. -/
inductive Turn where
  /-- The process ends. -/
  | exit (code : Option Int)
  /-- The supervisor hears of the end of the process. -/
  | hear
  /-- The supervisor hears of the trip of its token. -/
  | interrupt
  /-- The process is gone, or nobody waits for it longer. -/
  | settle
  /-- The output was read, or nobody waits for it longer. -/
  | send

namespace Guarded

variable {f : Forest} {c c' : Guarded} {t : Turn} {o : ExitOutcome}

/-- A command after something happened to it, if that can be. -/
def turn (f : Forest) (c : Guarded) : Turn → Option Guarded
  | .exit code => if c.exited.isNone then some { c with exited := some code } else none
  | .hear =>
    match c.watch, c.exited with
    | .watching, some code => some { c with watch := .draining (.exited code) }
    | _, _ => none
  | .interrupt =>
    match c.watch with
    | .watching => if f.isCancelled c.token then some { c with watch := .terminating } else none
    | _ => none
  | .settle =>
    match c.watch with
    | .terminating => some { c with watch := .draining (f.verdict c.token) }
    | _ => none
  | .send =>
    match c.watch with
    | .draining o => some { c with watch := .sent o }
    | _ => none

/-- What each turn needs, and what it does. -/
inductive Turns (f : Forest) (c : Guarded) : Turn → Guarded → Prop
  /-- The process ends. -/
  | exit {code : Option Int} (hrun : c.exited = none) : Turns f c (.exit code) { c with exited := some code }
  /-- Its end is heard. -/
  | hear {code : Option Int} (hwatch : c.watch = .watching) (hexit : c.exited = some code) :
      Turns f c .hear { c with watch := .draining (.exited code) }
  /-- Or its token was tripped first. -/
  | interrupt (hwatch : c.watch = .watching) (hset : f.isCancelled c.token = true) :
      Turns f c .interrupt { c with watch := .terminating }
  /-- A process that was stopped has the outcome of its token. -/
  | settle (hwatch : c.watch = .terminating) : Turns f c .settle { c with watch := .draining (f.verdict c.token) }
  /-- The outcome is sent when the output was read. -/
  | send {o : ExitOutcome} (hwatch : c.watch = .draining o) : Turns f c .send { c with watch := .sent o }

/-- Every turn is one of these. -/
theorem turns_of_turn (h : c.turn f t = some c') : Turns f c t c' := by
  -- each turn with its guard
  cases t with
  | exit code =>
    rw [turn] at h
    split at h
    · rename_i hrun
      cases h
      exact .exit (Option.isNone_iff_eq_none.mp hrun)
    · cases h
  | hear =>
    rw [turn] at h
    split at h
    · rename_i hwatch hexit
      cases h
      exact .hear hwatch hexit
    · cases h
  | interrupt =>
    rw [turn] at h
    split at h
    · rename_i hwatch
      split at h
      · rename_i hset
        cases h
        exact .interrupt hwatch hset
      · cases h
    · cases h
  | settle =>
    rw [turn] at h
    split at h
    · rename_i hwatch
      cases h
      exact .settle hwatch
    · cases h
  | send =>
    rw [turn] at h
    split at h
    · rename_i hwatch
      cases h
      exact .send hwatch
    · cases h

/-- A later state of the same command: an outcome stays, and the supervisor does not go back. -/
structure Later (c c' : Guarded) : Prop where
  /-- It is the same command of the same stage. -/
  stage : c'.stage = c.stage
  body : c'.body = c.body
  token : c'.token = c.token
  /-- An outcome once decided stays. -/
  outcome : ∀ o, c.watch.outcome? = some o → c'.watch.outcome? = some o
  /-- It stays also when it was sent. -/
  sent : ∀ o, c.watch = .sent o → c'.watch = .sent o
  /-- There are no more turns left than before. -/
  left : c'.watch.left ≤ c.watch.left

/-- A command is later than itself. -/
theorem Later.refl (c : Guarded) : Later c c := ⟨rfl, rfl, rfl, fun _ h => h, fun _ h => h, Nat.le_refl _⟩

/-- Later and later is later. -/
theorem Later.trans {d : Guarded} (h : Later c c') (h' : Later c' d) : Later c d :=
  ⟨h'.stage.trans h.stage, h'.body.trans h.body, h'.token.trans h.token, fun o ho => h'.outcome o (h.outcome o ho),
    fun o ho => h'.sent o (h.sent o ho), Nat.le_trans h'.left h.left⟩

/-- **No turn takes back an outcome.** -/
theorem Turns.later (h : Turns f c t c') : Later c c' := by
  cases h with
  | exit => exact ⟨rfl, rfl, rfl, fun _ h => h, fun _ h => h, Nat.le_refl _⟩
  | hear hwatch | interrupt hwatch | settle hwatch =>
    refine ⟨rfl, rfl, rfl, fun o ho => ?_, fun o ho => ?_, ?_⟩ <;> rw [hwatch] at *
    · cases ho
    · cases ho
    · exact Nat.le_of_ble_eq_true rfl
  | send hwatch =>
    refine ⟨rfl, rfl, rfl, fun o ho => ?_, fun o ho => ?_, Nat.zero_le _⟩ <;> rw [hwatch] at ho
    · exact ho
    · cases ho

/-! ## Outcomes that are earned

  An outcome is earned if the process or the tokens bear it out.  The verdict is made some time after the
  interruption, but it reads the token's reason, and that is the first one that was given. -/

/-- What an outcome says of the process, the deadline and the tokens. -/
def Earned (t : Deadlines) (c : Guarded) : ExitOutcome → Prop
  | .exited code => c.exited = some code
  | .cancelled => (∃ message, t.forest.reason? c.token = some (.requested message)) ∧
      t.forest.isCancelled t.run = true
  | .timedOut => c.token ∈ t.own ∧ c.body.command.timeout.isSome = true ∧
      ∃ ms, t.forest.reason? c.token = some (.deadlineElapsed ms)

/-- What holds of a command at any time: its token is that of the run, or its own one below that; a process that was
    asked to end was so because of a trip; and an outcome that is decided is earned. -/
structure Guards (t : Deadlines) (c : Guarded) : Prop where
  /-- It runs under the run's token, or under one of its own if it has a deadline. -/
  token : c.token = t.run ∨ c.token ∈ t.own ∧ c.body.command.timeout.isSome = true ∧ t.Linked c.token
  /-- It is stopped only under a tripped token. -/
  terminating : c.watch = .terminating → t.forest.isCancelled c.token = true
  /-- Its outcome was earned. -/
  earned : ∀ o, c.watch.outcome? = some o → c.Earned t o

variable {tokens tokens' : Deadlines}

/-- An earned outcome stays earned. -/
theorem Earned.grows (h : c.Earned tokens o) (hg : Deadlines.Grows tokens tokens') : c.Earned tokens' o := by
  cases o with
  | exited code => exact h
  | cancelled =>
    obtain ⟨⟨message, hr⟩, hrun⟩ := h
    exact ⟨⟨message, hg.reason _ _ hr⟩, by rw [hg.run]; exact hg.isCancelled hrun⟩
  | timedOut =>
    obtain ⟨hown, htimeout, ms, hr⟩ := h
    exact ⟨hg.own _ hown, htimeout, ms, hg.reason _ _ hr⟩

/-- Events of the tokens keep what guards a command. -/
theorem Guards.moves (h : c.Guards tokens) (hs : tokens.Sound) (hm : Deadlines.Moves tokens tokens') :
    c.Guards tokens' := by
  have hg := hm.grows hs
  refine ⟨?_, fun hwatch => hg.isCancelled (h.terminating hwatch), fun o ho => (h.earned o ho).grows hg⟩
  rcases h.token with heq | ⟨hown, htimeout, hlinked⟩
  · exact Or.inl (heq.trans hg.run.symm)
  · exact Or.inr ⟨hg.own _ hown, htimeout, hlinked.moves hs hown hm⟩

/-- **The verdict on a tripped token is earned.** -/
-- the verdict names the deadline only if the token has one
theorem Guards.verdict (h : c.Guards tokens) (hs : tokens.Sound) (hset : tokens.forest.isCancelled c.token = true) :
    c.Earned tokens (tokens.forest.verdict c.token) := by
  obtain ⟨r, hr⟩ := Option.isSome_iff_exists.mp hset
  have hwhy : c.token = tokens.run ∨ c.token ∈ tokens.own ∧ c.body.command.timeout.isSome = true :=
    h.token.imp_right fun h => ⟨h.1, h.2.1⟩
  rw [Forest.verdict, Forest.isTimeout, hr, Option.any_some]
  cases r with
  | deadlineElapsed ms =>
    -- the run's token is tripped on request only
    rcases hwhy with heq | ⟨hown, htimeout⟩
    · rw [heq] at hr
      exact absurd (hs.requested _ hr) Bool.noConfusion
    · exact ⟨hown, htimeout, ms, hr⟩
  | requested message =>
    refine ⟨⟨message, hr⟩, ?_⟩
    rcases hwhy with heq | ⟨hown, -⟩
    · rw [← heq]
      exact hset
    · exact Option.isSome_iff_exists.mpr ⟨_, hs.reason?_run_of_own hown hr rfl⟩

/-- Its own turns do as well. -/
theorem Guards.turn (h : c.Guards tokens) (hs : tokens.Sound) (ht : c.turn tokens.forest t = some c') :
    c'.Guards tokens := by
  -- only a hearing and a settling decide an outcome, each from what it has seen
  cases turns_of_turn ht with
  | exit hrun =>
    refine ⟨h.token, h.terminating, fun o ho => ?_⟩
    have hearned := h.earned o ho
    cases o with
    | exited code =>
      rw [show c.exited = some code from hearned] at hrun
      cases hrun
    | cancelled => exact hearned
    | timedOut => exact hearned
  | hear hwatch hexit =>
    refine ⟨h.token, Watch.noConfusion, fun o ho => ?_⟩
    cases ho
    exact hexit
  | interrupt hwatch hset => exact ⟨h.token, fun _ => hset, fun o ho => by cases ho⟩
  | settle hwatch =>
    refine ⟨h.token, Watch.noConfusion, fun o ho => ?_⟩
    cases ho
    have hearned := h.verdict hs (h.terminating hwatch)
    revert hearned
    cases tokens.forest.verdict c.token <;> exact id
  | send hwatch =>
    refine ⟨h.token, Watch.noConfusion, fun o ho => ?_⟩
    have hearned := h.earned o (hwatch ▸ ho)
    revert hearned
    cases o <;> exact id

end Guarded

/-! ## Commands of a rehearsal

  A process of a rehearsal goes through the same turns. -/

namespace Rehearsal

variable {w : Rehearsal} {n : Nat} {p : LaunchedProcess} {c : Guarded}

/-- Leaving a process marks it and no other. -/
theorem processes_leave (w : Rehearsal) (n : Nat) (p : LaunchedProcess) (d : Departure) :
    (w.leave n p d).processes = w.processes.set n { p with gone := some d } := by
  rw [leave, after]
  split
  · rw [closeWindow.eq_def]
    cases p.window <;> rfl
  · rw [closeWindow.eq_def]
    cases p.window <;> rfl

/-- A command of a rehearsal gets the token that a launched one gets. -/
theorem commandToken_eq_spawn (s : Deadlines) (hw : w.tokens = s.forest) {k : Command} {d : Span}
    (hk : k.timeout = some d) :
    (w.commandToken k s.run).1.tokens = (s.spawn d w.now).1.forest ∧
      (w.commandToken k s.run).2 = (s.spawn d w.now).2 := by
  rw [commandToken, hk]
  dsimp only
  rw [hw]
  exact ⟨rfl, rfl⟩

/-- **A rehearsed process that is interrupted** departs with the outcome that its supervisor comes to when it hears of the
    trip and the process is gone. -/
theorem interrupt_turns (hp : w.processes[n]? = some p) (hgone : p.gone = none) (htoken : c.token = p.token)
    (hwatch : c.watch = .watching) (hset : w.tokens.isCancelled p.token = true) :
    ∃ d c₁ c₂, (w.interrupt n).processes[n]? = some { p with gone := some d } ∧
      c.turn w.tokens .interrupt = some c₁ ∧ c₁.turn w.tokens .settle = some c₂ ∧ c₂.watch = .draining d.outcome := by
  have hlt : n < w.processes.length := (List.getElem?_eq_some_iff.mp hp).1
  refine ⟨.interrupted p.patience p.conduct (w.tokens.verdict p.token) (w.now - p.launchedAt),
    { c with watch := .terminating }, { c with watch := .draining (w.tokens.verdict c.token) }, ?_, ?_, rfl, ?_⟩
  · have hleave : w.interrupt n = w.leave n p
        (.interrupted p.patience p.conduct (w.tokens.verdict p.token) (w.now - p.launchedAt)) := by
      rw [interrupt, hp]
      exact if_neg (by rw [hgone]; exact Bool.false_ne_true)
    rw [hleave, processes_leave]
    exact List.getElem?_set_self hlt
  · rw [Guarded.turn, hwatch]
    exact if_pos (htoken ▸ hset)
  · rw [htoken]
    rfl

/-- **A rehearsed process that ends by itself** departs with the outcome that its supervisor hears of. -/
theorem expire_turns {ending : Nat × Option Int} (hp : w.processes[n]? = some p) (hgone : p.gone = none)
    (hending : (p.conduct none).ending = some ending) (hrun : c.exited = none) (hwatch : c.watch = .watching) :
    ∃ d c₁ c₂, (w.expire n).processes[n]? = some { p with gone := some d } ∧
      c.turn w.tokens (.exit ending.2) = some c₁ ∧ c₁.turn w.tokens .hear = some c₂ ∧ c₂.watch = .draining d.outcome := by
  have hlt : n < w.processes.length := (List.getElem?_eq_some_iff.mp hp).1
  refine ⟨.byItself (p.conduct none) ending, { c with exited := some ending.2 },
    { c with exited := some ending.2, watch := .draining (.exited ending.2) }, ?_, if_pos ?_, ?_, rfl⟩
  · rw [expire, hp]
    dsimp only
    rw [hgone, hending]
    dsimp only
    rw [processes_leave]
    exact List.getElem?_set_self hlt
  · rw [hrun]
    rfl
  · rw [Guarded.turn, hwatch]

end Rehearsal
/-! ## The machine

  All commands of a run, its loop and its tokens.  A launch makes a token for the command, if it has a deadline. -/

/-- The loop of a run, the tokens, and the commands that were launched. -/
structure Supervision where
  /-- The loop, the tokens and the commands that were launched. -/
  loop : Dispatch
  tokens : Deadlines
  commands : List Guarded := []

namespace Supervision

/-- What happens, one thing at a time. -/
inductive Event where
  /-- The loop takes the first ready stage. -/
  | take
  /-- The loop sees that its token was tripped. -/
  | notice
  /-- A stage ends that has launched no command. -/
  | finish (i : Nat) (ending : Except String StageResult)
  /-- The loop ends. -/
  | close
  /-- A running stage launches its command. -/
  | launch (i : Nat) (body : BackendStage) (now : Nat)
  /-- The supervisor of a command takes a turn. -/
  | turn (n : Nat) (t : Turn)
  /-- A stage gets the outcome of its command, which printed these diagnostics, and ends. -/
  | conclude (n : Nat) (said : List Diagnostic)
  /-- A client, a callback and a deadline of a token. -/
  | request (id : TokenId) (message : String)
  | call (k : Nat)
  | elapse (id : TokenId)

/-- Nothing was launched. -/
def start (p : Pipeline) (f : Forest) (run : TokenId) : Supervision :=
  { loop := .start p, tokens := { forest := f, run } }

/-- What the stages of a cancelled run say. -/
def cancelMessage (s : Supervision) : String :=
  ((s.tokens.forest.reason? s.tokens.run).map CancelReason.text).getD "cancelled"

/-- The loop takes a step. -/
def advance (s : Supervision) (e : Dispatch.Event) : Option Supervision := (s.loop.step e).map fun loop => { s with loop }

/-- A stage has launched a command, which has a token of its own if it has a deadline. -/
def launched (s : Supervision) (i : Nat) (body : BackendStage) (now : Nat) : Supervision :=
  match body.command.timeout with
  | none => { s with commands := s.commands ++ [{ stage := i, body, token := s.tokens.run }] }
  | some d =>
    { s with
      tokens := (s.tokens.spawn d now).1
      commands := s.commands ++ [{ stage := i, body, token := (s.tokens.spawn d now).2 }] }

/-- The state after an event, if that can happen. -/
def step (s : Supervision) : Event → Option Supervision
  | .take => s.advance .take
  | .notice => (s.tokens.forest.reason? s.tokens.run).bind fun reason => s.advance (.trip reason.text)
  | .finish i ending => if i ∈ s.commands.map Guarded.stage then none else s.advance (.finish i ending)
  | .close => s.advance .close
  | .launch i body now =>
    if i ∈ s.loop.state.running ∧ i ∉ s.commands.map Guarded.stage then some (s.launched i body now) else none
  | .turn n t =>
    s.commands[n]?.bind fun c => (c.turn s.tokens.forest t).map fun c => { s with commands := s.commands.set n c }
  | .conclude n said =>
    s.commands[n]?.bind fun c =>
      match c.watch with
      | .sent outcome => s.advance (.finish c.stage (.ok (c.body.conclude outcome said s.cancelMessage)))
      | _ => none
  | .request id message => (s.tokens.request id message).map fun tokens => { s with tokens }
  | .call k => (s.tokens.call k).map fun tokens => { s with tokens }
  | .elapse id => (s.tokens.elapse id).map fun tokens => { s with tokens }

/-- The state after some events, if all of them can happen. -/
def follow : Supervision → List Event → Option Supervision
  | s, [] => some s
  | s, e :: rest => (s.step e).bind fun next => follow next rest

variable {p : Pipeline} {s s' : Supervision} {e : Event} {events : List Event} {n i : Nat} {c : Guarded}

/-- The first event, and then the others. -/
theorem follow_cons {rest : List Event} : s.follow (e :: rest) = some s' ↔
    ∃ next, s.step e = some next ∧ next.follow rest = some s' := by
  rw [follow, Option.bind_eq_some_iff]

/-- What each event needs, and what it does. -/
inductive Moves (s : Supervision) : Event → Supervision → Prop
  /-- Steps of the loop, which hears of a trip after the token was tripped, and ends only stages without a command. -/
  | loops {e : Event} {d : Dispatch.Event} {loop : Dispatch} (hstep : s.loop.step d = some loop)
      (htrip : ∀ text, d = .trip text → s.tokens.forest.isCancelled s.tokens.run = true)
      (hfinish : ∀ i ending, d = .finish i ending → i ∉ s.commands.map Guarded.stage) : Moves s e { s with loop }
  /-- A running stage launches one command. -/
  | launches {i : Nat} {body : BackendStage} {now : Nat} (hrun : i ∈ s.loop.state.running)
      (hnew : i ∉ s.commands.map Guarded.stage) : Moves s (.launch i body now) (s.launched i body now)
  /-- A supervisor takes its turn. -/
  | turns {n : Nat} {t : Turn} {c c' : Guarded} (hc : s.commands[n]? = some c)
      (ht : c.turn s.tokens.forest t = some c') : Moves s (.turn n t) { s with commands := s.commands.set n c' }
  /-- The stage ends with the outcome that it was sent. -/
  | concludes {n : Nat} {said : List Diagnostic} {c : Guarded} {o : ExitOutcome} {loop : Dispatch}
      (hc : s.commands[n]? = some c) (hsent : c.watch = .sent o)
      (hstep : s.loop.step (.finish c.stage (.ok (c.body.conclude o said s.cancelMessage))) = some loop) :
      Moves s (.conclude n said) { s with loop }
  /-- A token is tripped, or a callback runs. -/
  | trips {e : Event} {tokens : Deadlines} (hm : Deadlines.Moves s.tokens tokens) : Moves s e { s with tokens }

/-- Each event is one of these moves. -/
theorem moves_of_step (h : s.step e = some s') : Moves s e s' := by
  -- each event with its guard
  cases e with
  | take | close =>
    obtain ⟨loop, hstep, rfl⟩ := Option.map_eq_some_iff.mp h
    exact .loops hstep (fun _ heq => by cases heq) (fun _ _ heq => by cases heq)
  | notice =>
    obtain ⟨reason, hreason, h⟩ := Option.bind_eq_some_iff.mp h
    obtain ⟨loop, hstep, rfl⟩ := Option.map_eq_some_iff.mp h
    exact .loops hstep (fun _ _ => Option.isSome_iff_exists.mpr ⟨reason, hreason⟩) (fun _ _ heq => by cases heq)
  | finish i ending =>
    rw [step] at h
    split at h
    · cases h
    · rename_i hnew
      obtain ⟨loop, hstep, rfl⟩ := Option.map_eq_some_iff.mp h
      refine .loops hstep (fun _ heq => by cases heq) (fun j _ heq => ?_)
      cases heq
      exact hnew
  | launch i body now =>
    rw [step] at h
    split at h
    · rename_i hmay
      cases h
      exact .launches hmay.1 hmay.2
    · cases h
  | turn n t =>
    obtain ⟨c, hc, h⟩ := Option.bind_eq_some_iff.mp h
    obtain ⟨c', ht, rfl⟩ := Option.map_eq_some_iff.mp h
    exact .turns hc ht
  | conclude n said =>
    obtain ⟨c, hc, h⟩ := Option.bind_eq_some_iff.mp h
    split at h
    · rename_i o hsent
      obtain ⟨loop, hstep, rfl⟩ := Option.map_eq_some_iff.mp h
      exact .concludes hc hsent hstep
    · cases h
  | request id message =>
    obtain ⟨tokens, ht, rfl⟩ := Option.map_eq_some_iff.mp h
    exact .trips (.request ht)
  | call k =>
    obtain ⟨tokens, ht, rfl⟩ := Option.map_eq_some_iff.mp h
    exact .trips (.call ht)
  | elapse id =>
    obtain ⟨tokens, ht, rfl⟩ := Option.map_eq_some_iff.mp h
    exact .trips (.elapse ht)

/-! ## The invariant

  Every command is guarded at any time, and the result of its stage is what came of it.  The events of one part leave
  the others as they are, up to tokens that may have been tripped. -/

/-- The loop and the tokens are sound, every command is guarded, and the result of a stage with a command is what its
    outcome came to. -/
structure Sound (p : Pipeline) (s : Supervision) : Prop where
  /-- The loop is sound, and every stage has its cause. -/
  loop : Dispatch.Sound p s.loop
  caused : ∃ settled, s.loop.state.Attributed s.loop.IsRoot settled
  /-- So are the tokens, and the loop was told of the trip after it. -/
  tokens : s.tokens.Sound
  tripped : s.loop.tripped ≠ none → s.tokens.forest.isCancelled s.tokens.run = true
  /-- No stage has two commands, and each of them was started. -/
  distinct : (s.commands.map Guarded.stage).Nodup
  started : ∀ c ∈ s.commands, s.loop.HasStarted c.stage
  /-- Every command is guarded. -/
  guards : ∀ c ∈ s.commands, c.Guards s.tokens
  /-- A stage that has ended did so with the outcome that was sent. -/
  concluded : ∀ c ∈ s.commands, ∀ r, s.loop.state.result? c.stage = some r →
    ∃ o said message, c.watch = .sent o ∧ r = c.body.conclude o said message

namespace Sound

/-- The machine is sound as it starts. -/
theorem start (hp : p.plan.WellFormed) {f : Forest} {run : TokenId} (hrun : run < f.tokens.length) (hc : f.Contained)
    (hreq : ∀ r, f.reason? run = some r → r.isTimeout = false) : Sound p (start p f run) where
  loop := .start hp
  caused := ⟨[], Dispatch.attributed_start p⟩
  tokens := .start hrun hc hreq
  tripped h := absurd rfl h
  distinct := List.nodup_nil
  started _ hc := absurd hc List.not_mem_nil
  guards _ hc := absurd hc List.not_mem_nil
  concluded _ hc := absurd hc List.not_mem_nil

/-- The loop makes a step: a new result of a stage with a command comes from that. -/
theorem of_loop (h : Sound p s) {d : Dispatch.Event} {loop : Dispatch} (hstep : s.loop.step d = some loop)
    (htrip : ∀ text, d = .trip text → s.tokens.forest.isCancelled s.tokens.run = true)
    (hfinish : ∀ c ∈ s.commands, ∀ ending, d = .finish c.stage ending →
      ∃ o said message, c.watch = .sent o ∧ ending = .ok (c.body.conclude o said message)) :
    Sound p { s with loop } := by
  have hloop := h.loop.step hstep
  refine ⟨hloop, h.loop.attributed_step hstep h.caused, h.tokens, fun ht => ?_, h.distinct,
    fun c hc => (h.started c hc).step hstep, h.guards, fun c hc r hr => ?_⟩
  · rcases Dispatch.tripped_of_step hstep ht with hold | ⟨text, rfl⟩
    · exact h.tripped hold
    · exact htrip text rfl
  -- a result is old, or it is the one that this step delivers
  · replace hr : loop.state.result? c.stage = some r := hr
    cases hold : s.loop.state.result? c.stage with
    | some first =>
      have hkept := (h.loop.extends_step hstep).result? _ first hold
      rw [hr] at hkept
      exact h.concluded c hc r (hold.trans hkept.symm)
    | none =>
      obtain ⟨ending, rfl, rfl⟩ := h.loop.new_result hstep hold hr ((h.started c hc).step hstep)
      obtain ⟨o, said, message, hsent, rfl⟩ := hfinish c hc ending rfl
      exact ⟨o, said, message, hsent, rfl⟩

/-- A command is launched. -/
theorem of_launch (h : Sound p s) (hrun : i ∈ s.loop.state.running) (hnew : i ∉ s.commands.map Guarded.stage)
    (body : BackendStage) (now : Nat) : Sound p (s.launched i body now) := by
  obtain ⟨hstarted, hnone⟩ := (h.loop.mem_running i).mp hrun
  -- the new command is that of a stage without one
  have hdistinct : ∀ c : Guarded, c.stage = i → ((s.commands ++ [c]).map Guarded.stage).Nodup := by
    intro c hc
    rw [List.map_append, List.map_singleton, hc]
    exact List.nodup_append_comm.mpr (List.nodup_cons.mpr ⟨hnew, h.distinct⟩)
  rw [launched]
  cases hbody : body.command.timeout with
  | none =>
    -- under the run's token nothing about tokens changes
    refine ⟨h.loop, h.caused, h.tokens, h.tripped, hdistinct _ rfl, fun c hc => ?_, fun c hc => ?_, fun c hc r hr => ?_⟩
    all_goals rcases List.mem_append.mp hc with hold | hlast
    · exact h.started c hold
    · rw [List.mem_singleton.mp hlast]
      exact hstarted
    · exact h.guards c hold
    · rw [List.mem_singleton.mp hlast]
      exact ⟨Or.inl rfl, Watch.noConfusion, fun o ho => by cases ho⟩
    · exact h.concluded c hold r hr
    · rw [List.mem_singleton.mp hlast] at hr
      rw [show s.loop.state.result? i = some r from hr] at hnone
      cases hnone
  | some d =>
    -- with a deadline it gets a token of its own
    have hm : Deadlines.Moves s.tokens (s.tokens.spawn d now).1 := .spawn
    have hid : (s.tokens.spawn d now).2 = s.tokens.forest.tokens.length := rfl
    refine ⟨h.loop, h.caused, h.tokens.moves hm, fun ht => (hm.grows h.tokens).isCancelled (h.tripped ht),
      hdistinct _ rfl, fun c hc => ?_, fun c hc => ?_, fun c hc r hr => ?_⟩
    all_goals rcases List.mem_append.mp hc with hold | hlast
    · exact h.started c hold
    · rw [List.mem_singleton.mp hlast]
      exact hstarted
    · exact (h.guards c hold).moves h.tokens hm
    · rw [List.mem_singleton.mp hlast]
      refine ⟨Or.inr ⟨?_, ?_, ?_⟩, Watch.noConfusion, fun o ho => by cases ho⟩
      · exact List.mem_append_right _ (List.mem_singleton.mpr rfl)
      · exact Option.isSome_iff_exists.mpr ⟨d, hbody⟩
      · exact Deadlines.Linked.spawn h.tokens d now
    · exact h.concluded c hold r hr
    · rw [List.mem_singleton.mp hlast] at hr
      rw [show s.loop.state.result? i = some r from hr] at hnone
      cases hnone

/-- Something happens to a command. -/
theorem of_turn (h : Sound p s) (hc : s.commands[n]? = some c) {t : Turn} {c' : Guarded}
    (ht : c.turn s.tokens.forest t = some c') : Sound p { s with commands := s.commands.set n c' } := by
  -- the command is the same, only further on
  have hlater := (Guarded.turns_of_turn ht).later
  have hmem : c ∈ s.commands := List.mem_of_getElem? hc
  have hstages : (s.commands.set n c').map Guarded.stage = s.commands.map Guarded.stage := by
    rw [List.map_set, hlater.stage]
    obtain ⟨hn, rfl⟩ := List.getElem?_eq_some_iff.mp hc
    have hself := @List.set_getElem_self _ (s.commands.map Guarded.stage) n (by simpa using hn)
    rwa [List.getElem_map] at hself
  refine ⟨h.loop, h.caused, h.tokens, h.tripped, hstages ▸ h.distinct, fun d hd => ?_, fun d hd => ?_,
    fun d hd r hr => ?_⟩
  all_goals rcases List.mem_or_eq_of_mem_set hd with hold | rfl
  · exact h.started d hold
  · rw [hlater.stage]
    exact h.started c hmem
  · exact h.guards d hold
  · exact (h.guards c hmem).turn h.tokens ht
  · exact h.concluded d hold r hr
  · rw [hlater.stage] at hr
    obtain ⟨o, said, message, hsent, hr⟩ := h.concluded c hmem r hr
    exact ⟨o, said, message, hlater.sent o hsent, hlater.body ▸ hr⟩

/-- Tokens are tripped. -/
theorem of_tokens (h : Sound p s) {tokens : Deadlines} (hm : Deadlines.Moves s.tokens tokens) :
    Sound p { s with tokens } where
  loop := h.loop
  caused := h.caused
  tokens := h.tokens.moves hm
  tripped ht := by
    show tokens.forest.isCancelled tokens.run = true
    rw [(hm.grows h.tokens).run]
    exact (hm.grows h.tokens).isCancelled (h.tripped ht)
  distinct := h.distinct
  started := h.started
  guards c hc := (h.guards c hc).moves h.tokens hm
  concluded := h.concluded

/-- Stages have one command. -/
theorem eq_of_stage (h : Sound p s) {c c' : Guarded} (hc : c ∈ s.commands) (hc' : c' ∈ s.commands)
    (heq : c.stage = c'.stage) : c = c' := List.inj_on_of_nodup_map h.distinct hc hc' heq

/-- **Every step keeps the invariant.** -/
theorem step (h : Sound p s) (hs : s.step e = some s') : Sound p s' := by
  -- a step of the loop, a launch, a turn of a command, its conclusion, or a trip
  cases moves_of_step hs with
  | loops hstep htrip hfinish =>
    refine h.of_loop hstep htrip fun c hc ending heq => ?_
    exact absurd (List.mem_map_of_mem hc) (hfinish _ ending heq)
  | launches hrun hnew => exact h.of_launch hrun hnew _ _
  | turns hc ht => exact h.of_turn hc ht
  | @concludes n said c o loop hc hsent hstep =>
    refine h.of_loop hstep (fun _ heq => by cases heq) fun d hd ending heq => ?_
    injection heq with hstage hending
    rw [← h.eq_of_stage (List.mem_of_getElem? hc) hd hstage]
    exact ⟨o, said, s.cancelMessage, hsent, hending.symm⟩
  | trips hm => exact h.of_tokens hm

/-- It is sound after any sequence of events. -/
theorem follow (h : Sound p s) (hs : s.follow events = some s') : Sound p s' := by
  induction events generalizing s with
  | nil =>
    cases hs
    exact h
  | cons e rest ih =>
    obtain ⟨next, hstep, hrest⟩ := follow_cons.mp hs
    exact ih (h.step hstep) hrest

end Sound

/-- The run keeps its token. -/
theorem run_of_step (h : Sound p s) (hs : s.step e = some s') : s'.tokens.run = s.tokens.run := by
  cases moves_of_step hs with
  | loops | turns | concludes => rfl
  | launches =>
    rw [launched]
    split <;> rfl
  | trips hm => exact (hm.grows h.tokens).run

/-- The run's token stays the same. -/
theorem Sound.run_of_follow (h : Sound p s) (hs : s.follow events = some s') : s'.tokens.run = s.tokens.run := by
  induction events generalizing s with
  | nil =>
    cases hs
    rfl
  | cons e rest ih =>
    obtain ⟨next, hstep, hrest⟩ := follow_cons.mp hs
    exact (ih (h.step hstep) hrest).trans (run_of_step h hstep)

/-! ## One outcome

  The list of commands is only added to, so a command has its place and its outcome for good. -/

/-- A command that was launched goes on. -/
theorem later_of_step (hs : s.step e = some s') (hc : s.commands[n]? = some c) :
    ∃ c', s'.commands[n]? = some c' ∧ c.Later c' := by
  have hlt : n < s.commands.length := (List.getElem?_eq_some_iff.mp hc).1
  -- only a turn of the command itself changes it
  cases moves_of_step hs with
  | loops | concludes | trips => exact ⟨c, hc, .refl c⟩
  | launches =>
    rw [launched]
    split <;> exact ⟨c, (List.getElem?_append_left hlt).trans hc, .refl c⟩
  | @turns m t d d' hd ht =>
    by_cases heq : m = n
    · subst heq
      rw [hc] at hd
      cases hd
      exact ⟨d', List.getElem?_set_self hlt, (Guarded.turns_of_turn ht).later⟩
    · exact ⟨c, (List.getElem?_set_ne heq).trans hc, .refl c⟩

/-- A command goes on, and none is forgotten. -/
theorem later_of_follow (hs : s.follow events = some s') (hc : s.commands[n]? = some c) :
    ∃ c', s'.commands[n]? = some c' ∧ c.Later c' := by
  induction events generalizing s c with
  | nil =>
    cases hs
    exact ⟨c, hc, .refl c⟩
  | cons e rest ih =>
    obtain ⟨next, hstep, hrest⟩ := follow_cons.mp hs
    obtain ⟨d, hd, hlater⟩ := later_of_step hstep hc
    obtain ⟨c', hc', hrest⟩ := ih hrest hd
    exact ⟨c', hc', hlater.trans hrest⟩

/-! ## Coming to an outcome

  Whatever the supervisor waits for has come, so by its own steps, and callbacks of tokens that have been tripped, it
  gets to the outcome. -/

/-- The supervisor of a command makes a step, or a callback runs. -/
def Event.serves (n : Nat) : Event → Prop
  | .turn m t => m = n ∧ ∀ code, t ≠ .exit code
  | .call _ => True
  | _ => False

/-- By steps of its supervisor a command comes to an outcome. -/
def Ends (s : Supervision) (n : Nat) : Prop :=
  ∃ more s' c o, s.follow more = some s' ∧ (∀ e ∈ more, e.serves n) ∧ s'.commands[n]? = some c ∧ c.watch = .sent o

/-- What a step leads to comes to its end if the next state does. -/
theorem Ends.of_step (hs : s.step e = some s') (he : e.serves n) (h : s'.Ends n) : s.Ends n := by
  obtain ⟨more, last, c, o, hmore, hserves, hc, hsent⟩ := h
  refine ⟨e :: more, last, c, o, follow_cons.mpr ⟨s', hs, hmore⟩, ?_, hc, hsent⟩
  exact List.forall_mem_cons.mpr ⟨he, hserves⟩

/-- A turn leads to the end if the command then ends. -/
theorem Ends.of_turn (hc : s.commands[n]? = some c) {t : Turn} {c' : Guarded} (ht : c.turn s.tokens.forest t = some c')
    (hexit : ∀ code, t ≠ .exit code)
    (h : { s with commands := s.commands.set n c' }.commands[n]? = some c' →
      { s with commands := s.commands.set n c' }.Ends n) : s.Ends n := by
  have hlt : n < s.commands.length := (List.getElem?_eq_some_iff.mp hc).1
  refine Ends.of_step (e := .turn n t) ?_ ⟨rfl, hexit⟩ (h (List.getElem?_set_self hlt))
  rw [step, hc, Option.bind_some, ht]
  rfl

/-- A command whose outcome was sent has ended. -/
theorem ends_of_sent {o : ExitOutcome} (hc : s.commands[n]? = some c) (hw : c.watch = .sent o) : s.Ends n :=
  ⟨[], s, c, o, rfl, fun _ he => absurd he List.not_mem_nil, hc, hw⟩

/-- One that is being drained is sent its outcome. -/
theorem ends_of_draining {o : ExitOutcome} (hc : s.commands[n]? = some c) (hw : c.watch = .draining o) : s.Ends n := by
  have ht : c.turn s.tokens.forest .send = some { c with watch := .sent o } := by rw [Guarded.turn, hw]
  exact .of_turn hc ht (fun _ => Turn.noConfusion) fun hc' => ends_of_sent hc' rfl

/-- One that is stopped gets its verdict. -/
theorem ends_of_terminating (hc : s.commands[n]? = some c) (hw : c.watch = .terminating) : s.Ends n := by
  have ht : c.turn s.tokens.forest .settle = some { c with watch := .draining (s.tokens.forest.verdict c.token) } := by
    rw [Guarded.turn, hw]
  exact .of_turn hc ht (fun _ => Turn.noConfusion) fun hc' => ends_of_draining hc' rfl

/-- One whose process has ended is heard. -/
theorem ends_of_exited {code : Option Int} (hc : s.commands[n]? = some c) (hw : c.watch = .watching)
    (hexit : c.exited = some code) : s.Ends n := by
  have ht : c.turn s.tokens.forest .hear = some { c with watch := .draining (.exited code) } := by
    rw [Guarded.turn, hw, hexit]
  exact .of_turn hc ht (fun _ => Turn.noConfusion) fun hc' => ends_of_draining hc' rfl

/-- A command under a tripped token is stopped. -/
theorem ends_of_cancelled (hc : s.commands[n]? = some c) (hw : c.watch = .watching)
    (hset : s.tokens.forest.isCancelled c.token = true) : s.Ends n := by
  have ht : c.turn s.tokens.forest .interrupt = some { c with watch := .terminating } := by
    rw [Guarded.turn, hw]
    exact if_pos hset
  exact .of_turn hc ht (fun _ => Turn.noConfusion) fun hc' => ends_of_terminating hc' rfl

/-- **A command whose process has ended, or whose token or run was tripped, comes to its outcome** by steps of its
    supervisor, once what a trip has taken out has run. -/
theorem Sound.ends (h : Sound p s) (hc : s.commands[n]? = some c) (hcause : c.exited.isSome = true ∨
    s.tokens.forest.isCancelled c.token = true ∨ s.tokens.forest.isCancelled s.tokens.run = true) : s.Ends n := by
  have hguards := h.guards c (List.mem_of_getElem? hc)
  -- from the end backwards: what was sent, what is drained, what is stopped, and what is still watched
  cases hw : c.watch with
  | sent o => exact ends_of_sent hc hw
  | draining o => exact ends_of_draining hc hw
  | terminating => exact ends_of_terminating hc hw
  | watching =>
    rcases hcause with hexit | hset | hrun
    · obtain ⟨code, hcode⟩ := Option.isSome_iff_exists.mp hexit
      exact ends_of_exited hc hw hcode
    · exact ends_of_cancelled hc hw hset
    · rcases hguards.token with heq | ⟨hown, -, hlinked⟩
      · exact ends_of_cancelled hc hw (heq ▸ hrun)
      · -- the trip may still be on its way to the command's own token
        rcases hlinked.reaches h.tokens hown hrun with hset | ⟨k, tokens, hcall, hset⟩
        · exact ends_of_cancelled hc hw hset
        · have hs : s.step (.call k) = some { s with tokens } := by
            rw [Supervision.step, hcall]
            rfl
          exact .of_step hs trivial (ends_of_cancelled hc hw hset)

/-! ## What a stage takes down

  A stage that did not run was given up for one that did, or because of the token, by the law of causes. -/

/-- Names lead to what a stage depends on. -/
theorem dependsOn_of_blames {specs : List StageSpec} {d : Dispatch} (hp : Dispatch.Sound p d)
    (hdesc : p.plan.Describes specs) {root : Nat} (h : Relation.ReflTransGen d.Blames i root) :
    i = root ∨ DependsOn specs i root := by
  rcases Relation.reflTransGen_iff_eq_or_transGen.mp h with heq | hpath
  · exact Or.inl heq.symm
  · have hedge : ∀ a b, d.Blames a b → Function.swap (Precedes specs) a b := by
      rintro a b ⟨-, hb, -⟩
      rw [hp.plan] at hb
      show Precedes specs b a
      rw [← hdesc.edge_eq]
      exact hb
    exact Or.inr (Relation.transGen_swap.mp (Relation.TransGen.mono hedge _ _ hpath))

/-- **A stage that was given up depends on a stage that was started and did not succeed, or its run was cancelled.** -/
theorem Sound.given_up (h : Sound p s) {specs : List StageSpec} (hdesc : p.plan.Describes specs)
    (hnames : p.plan.names.Nodup) {r : StageResult} (hr : s.loop.state.result? i = some r) (hi : ¬ s.loop.HasStarted i) :
    s.tokens.forest.isCancelled s.tokens.run = true ∨
      ∃ q, DependsOn specs i q ∧ s.loop.HasStarted q ∧ s.loop.state.Failed q := by
  obtain ⟨settled, ha⟩ := h.caused
  have hfail : s.loop.state.Failed i := ⟨r, hr, by
    rw [StageResult.isSuccess, (h.loop.neverRan hi hr).status]
    rfl⟩
  obtain ⟨root, hpath, hroot, hst | ⟨reason, htrip, -⟩⟩ := Dispatch.exists_root ha h.loop (h.loop.plan ▸ hnames) hfail
  · rcases dependsOn_of_blames h.loop hdesc hpath with rfl | hdep
    · exact absurd hst hi
    · exact Or.inr ⟨root, hdep, hst, hroot⟩
  · exact Or.inl (h.tripped (by rw [htrip]; exact Option.some_ne_none _))

/-! ## The main result

  The parts of what is promised of one command and of all of them, with a run in which a deadline and a cancellation
  meet. -/

/-- What can be relied on about the command `c`, the `n`-th that was launched in the run with the token `run`. -/
structure Answers (s : Supervision) (specs : List StageSpec) (run : TokenId) (n : Nat) (c : Guarded) : Prop where
  /-- An outcome that was decided stays. -/
  stays : ∀ more later, s.follow more = some later → ∃ c', later.commands[n]? = some c' ∧
    c'.watch.left ≤ c.watch.left ∧ ∀ o, c.watch.outcome? = some o → c'.watch.outcome? = some o
  /-- A command whose process has ended, or whose token or run was tripped, comes to one by steps of its supervisor. -/
  ends : c.exited.isSome = true ∨ s.tokens.forest.isCancelled c.token = true ∨
    s.tokens.forest.isCancelled run = true → s.Ends n
  /-- It exited only if its process did, with that code. -/
  exited : ∀ code, c.watch.outcome? = some (.exited code) → c.exited = some code
  /-- It timed out only if it has a deadline, and this was the first to trip the command's token. -/
  timed_out : c.watch.outcome? = some .timedOut → c.body.command.timeout.isSome = true ∧ c.token ≠ run ∧
    ∃ ms, s.tokens.first? c.token = some (.deadlineElapsed ms)
  /-- It was cancelled only if the run was. -/
  cancelled : c.watch.outcome? = some .cancelled → s.tokens.forest.isCancelled run = true ∧
    ∃ message, s.tokens.forest.reason? c.token = some (.requested message)
  /-- The stage's result is made of the outcome; one that timed out or was cancelled leaves the stage cancelled. -/
  concluded : ∀ r, s.loop.state.result? c.stage = some r → ∃ o said message, c.watch = .sent o ∧
    r = c.body.conclude o said message ∧
    (o = .timedOut → r.failure.map (·.kind) = some .timeout ∧ r.status = .cancelled) ∧
    (o = .cancelled → r.failure.map (·.kind) = some .cancelled ∧ r.status = .cancelled)
  /-- A stage that was given up and does not depend on the one that timed out has another cause. -/
  blameless : c.watch.outcome? = some .timedOut → ∀ i r, s.loop.state.result? i = some r → ¬ s.loop.HasStarted i →
    ¬ DependsOn specs i c.stage → s.tokens.forest.isCancelled run = true ∨
      ∃ q, q ≠ c.stage ∧ DependsOn specs i q ∧ s.loop.HasStarted q ∧ s.loop.state.Failed q

/-- What can be relied on about all commands of the run with the token `run`, and about that token. -/
structure Earns (s : Supervision) (specs : List StageSpec) (run : TokenId) : Prop where
  /-- Every command answers for its outcome. -/
  answers : ∀ n c, s.commands[n]? = some c → s.Answers specs run n c
  /-- Nobody tries to trip the run's token because a deadline is over. -/
  attempted : ∀ a ∈ s.tokens.attempts, a.1 = run → a.2.isTimeout = false
  /-- So that is not why it is tripped. -/
  requested : ∀ reason, s.tokens.forest.reason? run = some reason → reason.isTimeout = false
  /-- A deadline trips the token of its command and no other, neither at once nor by callbacks. -/
  elapses : ∀ id s', s.step (.elapse id) = some s' → id ≠ run ∧
    (∀ y ≠ id, s'.tokens.forest.reason? y = s.tokens.forest.reason? y) ∧
    ∃ quiet : List (TokenId × Callback), s'.tokens.pending = quiet ++ s.tokens.pending ∧
      ∀ w ∈ quiet, w.2.trips? = none

/-- **Commands come to one outcome each, and to the right one**, in every run of a pipeline, with any commands, in
    whatever order processes end, deadlines pass and tokens are tripped. -/
theorem outcome_earned {name : String} {specs : List StageSpec} {config : PipelineConfig} {f : Forest} {run : TokenId}
    (hp : Pipeline.build name specs config = .ok p) (hrun : run < f.tokens.length) (hcontained : f.Contained)
    (hreq : ∀ reason, f.reason? run = some reason → reason.isTimeout = false)
    (hs : (start p f run).follow events = some s) : s.Earns specs run := by
  obtain ⟨hdesc, hunique, -⟩ := describes_of_plan (Dispatch.plan_of_build hp).1
  have hnames : p.plan.names.Nodup := hdesc.names_eq ▸ hunique
  have h₀ : Sound p (start p f run) := .start hdesc.toWellFormed hrun hcontained hreq
  have h : Sound p s := h₀.follow hs
  obtain rfl : s.tokens.run = run := h₀.run_of_follow hs
  have hown : ∀ id ∈ s.tokens.own, id ≠ s.tokens.run := fun id hid heq => h.tokens.run_notMem (heq ▸ hid)
  have hanswers : ∀ n c, s.commands[n]? = some c → s.Answers specs s.tokens.run n c := by
    -- each part from the invariant, with what its outcome was earned by
    intro n c hc
    have hguards := h.guards c (List.mem_of_getElem? hc)
    constructor
    case stays =>
      intro more later hmore
      obtain ⟨c', hc', hlater⟩ := later_of_follow hmore hc
      exact ⟨c', hc', hlater.left, hlater.outcome⟩
    case ends => exact h.ends hc
    case exited => exact fun code ho => hguards.earned _ ho
    case timed_out =>
      intro ho
      obtain ⟨hmem, htimeout, ms, hreason⟩ := hguards.earned _ ho
      exact ⟨htimeout, hown _ hmem, ms, (h.tokens.first _ hmem).symm.trans hreason⟩
    case cancelled => exact fun ho => (hguards.earned _ ho).symm
    case concluded =>
      intro r hr
      obtain ⟨o, said, message, hsent, rfl⟩ := h.concluded c (List.mem_of_getElem? hc) r hr
      refine ⟨o, said, message, hsent, rfl, ?_, ?_⟩ <;> rintro rfl <;> exact ⟨rfl, rfl⟩
    case blameless =>
      intro ho i r hr hi hdep
      rcases h.given_up hdesc hnames hr hi with hset | ⟨q, hq, hst, hfail⟩
      · exact Or.inl hset
      · exact Or.inr ⟨q, fun heq => hdep (heq ▸ hq), hq, hst, hfail⟩
  constructor
  case answers => exact hanswers
  case attempted => exact fun a ha heq => (h.tokens.attempted a ha).2.other (heq ▸ h.tokens.run_notMem)
  case requested => exact h.tokens.requested
  case elapses =>
    intro id s' helapse
    obtain ⟨tokens, ht, rfl⟩ := Option.map_eq_some_iff.mp helapse
    obtain ⟨hreason, hquiet⟩ := Deadlines.elapse_spares h.tokens ht
    exact ⟨hown id (Deadlines.elapse_cases ht).1, hreason, hquiet⟩

/-- A stage with a deadline of five milliseconds. -/
def hurried : BackendStage :=
  { name := "a", command := { program := "make", cwd := ⟨"/"⟩, timeout := some (.ofMillis 5) }, classifier := .plain }

/-- A stage without a deadline. -/
def patient : BackendStage := { name := "b", command := { program := "make", cwd := ⟨"/"⟩ }, classifier := .plain }

/-- Two commands of the fork; the deadline of the first one is over, and the run is cancelled before its supervisor
    looks at the reason. -/
def overrun : List Event :=
  [.take, .take, .launch 0 hurried 0, .launch 1 patient 0, .elapse 1, .turn 0 .interrupt, .request 0 "stop", .call 0,
    .turn 0 .settle, .turn 1 .interrupt, .turn 1 .settle, .turn 0 .send, .conclude 0 [], .turn 1 .send,
    .conclude 1 [], .close]

/-- The first command timed out, though its run was cancelled too. -/
theorem outcome_earned_overrun : ∃ s c r,
    (start Dispatch.forked { tokens := [{}], handles := [0] } 0).follow overrun = some s ∧
      s.commands[0]? = some c ∧ c.watch = .sent .timedOut ∧ s.tokens.forest.isCancelled 0 = true ∧
      s.tokens.first? c.token = some (.deadlineElapsed 5) ∧ c.token ≠ 0 ∧
      s.loop.state.result? 0 = some r ∧ r.failure.map (·.kind) = some .timeout ∧ r.status = .cancelled ∧
      s.commands[1]?.map Guarded.watch = some (.sent .cancelled) := by
  have hp : Pipeline.build "forked" Dispatch.forked.specs Dispatch.forked.config = .ok Dispatch.forked := rfl
  -- the run, and what is to be known of its commands, evaluated
  have hrun : ((start Dispatch.forked { tokens := [{}], handles := [0] } 0).follow overrun).map (fun s =>
      (s.commands.map fun c => (c.stage, c.token, c.watch), s.tokens.forest.isCancelled 0,
        s.tokens.first? 1, (s.loop.state.result? 0).isSome)) =
      some ([(0, 1, .sent .timedOut), (1, 0, .sent .cancelled)], true, some (.deadlineElapsed 5), true) := by
    rfl
  obtain ⟨s, hs, hrun⟩ := Option.map_eq_some_iff.mp hrun
  simp only [Prod.mk.injEq] at hrun
  obtain ⟨hcommands, hset, hfirst, hsome⟩ := hrun
  have hcommand : ∀ n : Nat, s.commands[n]?.map (fun c : Guarded => (c.stage, c.token, c.watch)) =
      [(0, 1, Watch.sent .timedOut), (1, 0, .sent .cancelled)][n]? := by
    intro n
    rw [← List.getElem?_map, hcommands]
  obtain ⟨c, hc, heq⟩ := Option.map_eq_some_iff.mp (hcommand 0)
  simp only [Prod.mk.injEq] at heq
  obtain ⟨hstage, htoken, hwatch⟩ := heq
  obtain ⟨r, hr⟩ := Option.isSome_iff_exists.mp hsome
  have hreq : ∀ reason, ({ tokens := [{}], handles := [0] } : Forest).reason? 0 = some reason →
      reason.isTimeout = false := by
    intro reason hreason
    cases hreason
  have hanswers := (outcome_earned hp (by decide) (by decide) hreq hs).answers 0 c hc
  obtain ⟨-, hne, -⟩ := hanswers.timed_out (by rw [hwatch]; rfl)
  obtain ⟨o, said, message, hsent, -, hkind, -⟩ := hanswers.concluded r (by rw [hstage]; exact hr)
  obtain ⟨hfailure, hstatus⟩ := hkind (by rw [hwatch] at hsent; cases hsent; rfl)
  refine ⟨s, c, r, hs, hc, hwatch, hset, by rw [htoken]; exact hfirst, hne, hr, hfailure, hstatus, ?_⟩
  obtain ⟨d, hd, heq⟩ := Option.map_eq_some_iff.mp (hcommand 1)
  simp only [Prod.mk.injEq] at heq
  rw [hd, Option.map_some, heq.2.2]

end Supervision

end Wheelwright
