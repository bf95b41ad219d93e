/-
  Results — all that the result of a backend stage says fits together.

  **Specification** — `StageResult.Coherent`: what the fields of a result have to do with each other.
  `BackendStage.WellFormed`: and what they have to do with the stage's surroundings, an oracle, a store, a runner and
  a token of which nothing is assumed.

  **Program** — `BackendStage.run` is a stage from its start to its result.  A rehearsal takes the same way in four
  parts, with other things going on between them, and ends it with the same results.

  **The crux** — a result comes from one of three makers: `failed`, `upToDate` and `conclude`.  What each of them makes
  is coherent, so the ways through a stage need not be told apart again.
-/
import Wheelwright.Proofs.History.Soundness

namespace Wheelwright

/-! ## Results whose fields fit together

  What the status, the exit code, the failure and the message of a result have to do with each other, said of a result
  by itself. -/

/-- The last error among diagnostics. -/
def LastError (said : List Diagnostic) (d : Diagnostic) : Prop :=
  ∃ before after, said = before ++ d :: after ∧ d.isError = true ∧ ∀ x ∈ after, x.isError = false

/-- The last error is the first from the end. -/
theorem LastError.find?_reverse {said : List Diagnostic} {d : Diagnostic} (h : LastError said d) :
    said.reverse.find? Diagnostic.isError = some d := by
  obtain ⟨before, after, rfl, hd, hafter⟩ := h
  rw [List.find?_eq_some_iff_append]
  refine ⟨hd, after.reverse, before.reverse, by simp, fun x hx => ?_⟩
  rw [hafter x (List.mem_reverse.mp hx)]
  rfl

/-- It is the message of the failure. -/
theorem BackendStage.failureMessage_of_lastError {outcome : ExitOutcome} {said : List Diagnostic} {d : Diagnostic}
    (h : LastError said d) : failureMessage outcome said = d.message := by
  rw [failureMessage, h.find?_reverse]

/-- No failure is a success. -/
theorem FailureKind.status_ne_succeeded (k : FailureKind) : k.status ≠ .succeeded := by cases k <;> exact nofun

namespace StageResult

/-- The fields of a stage's result fit together. -/
structure Coherent (name : String) (r : StageResult) : Prop where
  /-- It is the result of the stage. -/
  stage : r.stage = name
  /-- What was skipped succeeded without a run. -/
  skipped : r.skipped = true → r.status = .succeeded ∧ r.exit = none ∧ r.diagnostics = []
  /-- It succeeded with the exit of a success, and with no other. -/
  succeeded_iff : r.status = .succeeded ∧ r.skipped = false ↔ r.exit = some (.exited (some 0))
  /-- There is a failure exactly without success. -/
  failure_iff : r.failure.isSome = true ↔ r.status ≠ .succeeded
  /-- It has the status, the stage and the code of the result. -/
  failure : ∀ f, r.failure = some f →
    f.stage = name ∧ r.status = f.kind.status ∧ f.exitCode = r.exit.bind ExitOutcome.code?
  /-- There is a reason for a cancellation, and only for one. -/
  cancelReason_iff : r.cancelReason.isSome = true ↔ r.status = .cancelled
  /-- It is the message of the failure. -/
  cancelReason : ∀ reason, r.cancelReason = some reason → ∃ f, r.failure = some f ∧ f.message = reason
  /-- The last error that the command printed is the message. -/
  message : ∀ code, r.exit = some (.exited code) → code ≠ some 0 → ∀ d, LastError r.diagnostics d →
    ∃ f, r.failure = some f ∧ f.message = d.message

/-- A failure makes a coherent result if it has the code of the exit and the message of the last error. -/
theorem coherent_of_failure (f : StageFailure) (said : List Diagnostic) (took : Span) {exit : Option ExitOutcome}
    (hexit : exit ≠ some (.exited (some 0))) (hcode : f.exitCode = exit.bind ExitOutcome.code?)
    (hmessage : ∀ code, exit = some (.exited code) → ∀ d, LastError said d → f.message = d.message) :
    Coherent f.stage { ofFailure f said took with exit } := by
  -- a result made of a failure has its status, which is never a success
  have hstatus : f.kind.status ≠ .succeeded := f.kind.status_ne_succeeded
  exact {
    stage := rfl
    skipped := nofun
    succeeded_iff := iff_of_false (fun h => hstatus h.1) hexit
    failure_iff := iff_of_true rfl hstatus
    failure := fun g hg => by
      obtain rfl := Option.some.inj hg
      exact ⟨rfl, rfl, hcode⟩
    cancelReason_iff := by
      show (if f.kind.status = .cancelled then some f.message else none).isSome = true ↔ f.kind.status = .cancelled
      by_cases h : f.kind.status = .cancelled <;> simp [h]
    cancelReason := fun reason hreason => ⟨f, rfl, by
      change (if f.kind.status = .cancelled then some f.message else none) = some reason at hreason
      split at hreason
      · exact Option.some.inj hreason
      · cases hreason⟩
    message := fun code hcode _ d hd => ⟨f, rfl, hmessage code hcode d hd⟩ }

/-- Without an exit a failure is coherent. -/
theorem coherent_ofFailure (f : StageFailure) (said : List Diagnostic) (took : Span) (hcode : f.exitCode = none) :
    Coherent f.stage (ofFailure f said took) :=
  coherent_of_failure f said took nofun hcode nofun

/-- A command that exited with status zero has a coherent result. -/
theorem coherent_succeeded (stage : String) (said : List Diagnostic) (took : Span) :
    Coherent stage ((succeeded stage said took).withExit (.exited (some 0))) where
  stage := rfl
  skipped := nofun
  succeeded_iff := iff_of_true ⟨rfl, rfl⟩ rfl
  failure_iff := iff_of_false nofun (absurd rfl)
  failure := nofun
  cancelReason_iff := iff_of_false nofun nofun
  cancelReason := nofun
  message := fun code hexit hcode => by
    cases hexit
    exact absurd rfl hcode

/-- A stage that had nothing to do has a coherent result. -/
theorem coherent_fresh (stage : String) (took : Span) : Coherent stage (fresh stage took) where
  stage := rfl
  skipped := fun _ => ⟨rfl, rfl, rfl⟩
  succeeded_iff := iff_of_false (fun h => Bool.noConfusion h.2) nofun
  failure_iff := iff_of_false nofun (absurd rfl)
  failure := nofun
  cancelReason_iff := iff_of_false nofun nofun
  cancelReason := nofun
  message := nofun

end StageResult

open StageResult (Coherent)

namespace BackendStage

/-! ## The three makers

  All results of a backend stage are made in one of three ways, and it is enough to look at these. -/

/-- So are failures before the launch. -/
theorem coherent_failed (s : BackendStage) (kind : FailureKind) (message : String) :
    Coherent s.name (s.failed kind message) :=
  StageResult.coherent_ofFailure ⟨s.name, kind, message, none⟩ [] .zero rfl

/-- So are results that are up to date. -/
theorem coherent_upToDate (s : BackendStage) : Coherent s.name s.upToDate :=
  StageResult.coherent_fresh s.name .zero

/-- A process that was cut short leaves no exit code to tell of. -/
theorem coherent_cut (s : BackendStage) (kind : FailureKind) (message : String) (said : List Diagnostic)
    {outcome : ExitOutcome} (hcut : ∀ code, outcome ≠ .exited code) :
    Coherent s.name { StageResult.ofFailure ⟨s.name, kind, message, none⟩ said .zero with exit := some outcome } := by
  refine StageResult.coherent_of_failure ⟨s.name, kind, message, none⟩ said .zero ?_ ?_ ?_
  · exact fun h => hcut _ (Option.some.inj h)
  · cases outcome with
    | exited code => exact absurd rfl (hcut code)
    | cancelled => rfl
    | timedOut => rfl
  · exact fun code h => absurd (Option.some.inj h) (hcut code)

/-- So are those of a command that has ended. -/
theorem coherent_conclude (s : BackendStage) (outcome : ExitOutcome) (said : List Diagnostic) (message : String) :
    Coherent s.name (s.conclude outcome said message) := by
  rw [conclude]
  -- an exit is a failure by its code, the other two by what cut the command off
  cases outcome with
  | exited code =>
    by_cases hcode : code = some 0
    · rw [failure?, if_pos hcode, hcode]
      exact StageResult.coherent_succeeded s.name said .zero
    · rw [failure?, if_neg hcode]
      refine StageResult.coherent_of_failure ⟨s.name, .nonZeroExit, _, code⟩ said .zero ?_ rfl ?_
      · intro h
        cases h
        exact hcode rfl
      · intro _ _ d hd
        exact failureMessage_of_lastError hd
  | cancelled => exact s.coherent_cut .cancelled message said fun _ h => ExitOutcome.noConfusion h
  | timedOut => exact s.coherent_cut .timeout _ said fun _ h => ExitOutcome.noConfusion h

@[simp] theorem exit_conclude (s : BackendStage) (outcome : ExitOutcome) (said : List Diagnostic) (message : String) :
    (s.conclude outcome said message).exit = some outcome := rfl

end BackendStage

/-! ## Stages in any surroundings

  A stage in any surroundings, as a function of what it meets.  Each answer of the oracle, the store, the runner and
  the token is a parameter, so the law holds of all of them. -/

/-- What an oracle said of inputs. -/
inductive OracleAnswer where
  /-- Whether they are stale and what they come to, or why they cannot be read. -/
  | verdict (v : Except PlanError (Bool × String))
  /-- It broke off. -/
  | brokenOff (cause : String)

/-- All that a backend stage meets. -/
structure Surroundings where
  /-- Why the run was cancelled when the stage started. -/
  stopped : Option String
  /-- Whether a predecessor did its work. -/
  upstreamRebuilt : Bool
  /-- The oracle, given the fingerprint on record. -/
  isStale : Option String → StalenessInputs → OracleAnswer
  /-- The fingerprint that a store has under a key. -/
  load : Nat → String → Option String
  /-- Why a store could not record a fingerprint under a key. -/
  record : Nat → String → String → Option BuildError
  /-- The runner: what a command printed and how it ended, if it could be started. -/
  execute : Command → Except LaunchError (List OutputLine × ExitOutcome)
  /-- Why the run was cancelled when the command had ended. -/
  cancelMessage : String

namespace BackendStage

/-- How a stage ended. -/
structure Ending where
  /-- Its command was launched. -/
  launched : Bool
  /-- What it came to. -/
  result : StageResult

variable (s : BackendStage) (m : Surroundings)

/-- Whether the command has to run. -/
def freshness : Except StageResult Freshness :=
  match s.staleness with
  | none => .ok (.stale none)
  | some c =>
    match m.isStale (m.load c.store c.key) c.inputs with
    | .verdict v => s.judge m.upstreamRebuilt v
    | .brokenOff cause => .error (s.failed .io cause)

/-- What is said when the fingerprint could not be recorded. -/
def warnings (fingerprint : Option String) : List Diagnostic :=
  match s.staleness, fingerprint with
  | some c, some f => ((m.record c.store c.key f).map unsavedWarning).toList
  | _, _ => []

/-- A stage from its start to its result. -/
def run : Ending :=
  match m.stopped with
  | some reason => ⟨false, s.cancelled reason⟩
  | none =>
    match s.freshness m with
    | .error r => ⟨false, r⟩
    | .ok .fresh => ⟨false, s.upToDate⟩
    | .ok (.stale fingerprint) =>
      match m.execute s.command with
      | .error e => ⟨false, s.notLaunched e⟩
      | .ok (lines, outcome) =>
        let warned := if outcome.isSuccess then s.warnings m fingerprint else []
        ⟨true, s.conclude outcome (s.diagnose lines ++ warned) m.cancelMessage⟩

/-- Nothing has to be done: the inputs are fresh, and no predecessor did its work. -/
structure NothingToDo : Prop where
  /-- It was not stopped, nothing upstream was rebuilt. -/
  stopped : m.stopped = none
  idle : m.upstreamRebuilt = false
  /-- Its inputs are those of the record. -/
  fresh : ∃ c f, s.staleness = some c ∧ m.isStale (m.load c.store c.key) c.inputs = .verdict (.ok (false, f))

/-- The command is launched and ends so: the stage was not stopped before, it is stale, and the runner says so. -/
structure Runs (outcome : ExitOutcome) : Prop where
  /-- It was not stopped. -/
  stopped : m.stopped = none
  /-- It was stale. -/
  stale : ∃ fingerprint, s.freshness m = .ok (.stale fingerprint)
  /-- Its command ended in this way. -/
  ended : ∃ lines, m.execute s.command = .ok (lines, outcome)

/-- The ending of a stage fits together and fits what the stage met. -/
structure WellFormed (e : Ending) : Prop where
  /-- The fields fit together. -/
  coherent : Coherent s.name e.result
  /-- It was skipped exactly if there was nothing to do. -/
  skipped_iff : e.result.skipped = true ↔ e.launched = false ∧ s.NothingToDo m
  /-- It has an exit exactly if a command was launched. -/
  exit_iff : e.result.exit.isSome = true ↔ e.launched = true
  /-- An exit is what the runner answered, and whatever it answers to a stale stage is the exit. -/
  exit : ∀ outcome, e.result.exit = some outcome ↔ s.Runs m outcome

variable {s m} {r : StageResult}

/-- Why a stage could not find out whether it has something to do. -/
theorem failed_of_freshness (h : s.freshness m = .error r) : ∃ kind message, r = s.failed kind message := by
  rw [freshness] at h
  split at h
  · cases h
  · split at h
    · unfold judge at h
      split at h
      · cases h
        exact ⟨_, _, rfl⟩
      · split at h <;> cases h
    · cases h
      exact ⟨_, _, rfl⟩

theorem freshness_eq_fresh_iff (hm : m.stopped = none) : s.freshness m = .ok .fresh ↔ s.NothingToDo m := by
  rw [freshness]
  constructor
  -- the check may be missing, fail, or find it stale
  · intro h
    split at h
    · cases h
    · rename_i c hc
      split at h
      · rename_i v hv
        unfold judge at h
        split at h
        · cases h
        · rename_i isStale f
          split at h
          · cases h
          · rename_i hstale
            rw [Bool.or_eq_true, not_or, Bool.not_eq_true, Bool.not_eq_true] at hstale
            obtain ⟨rfl, hidle⟩ := hstale
            exact ⟨hm, hidle, c, f, hc, hv⟩
      · cases h
  · rintro ⟨-, hidle, c, f, hc, hv⟩
    rw [hc]
    dsimp only
    rw [hv]
    dsimp only
    rw [hidle]
    rfl

/-- A failure without an exit fits a stage that has something to do and whose command does not run. -/
theorem wellFormed_of_failed (kind : FailureKind) (message : String) (h : ¬ s.NothingToDo m)
    (hruns : ∀ outcome, ¬ s.Runs m outcome) : s.WellFormed m ⟨false, s.failed kind message⟩ where
  coherent := s.coherent_failed kind message
  skipped_iff := iff_of_false nofun fun hskip => h hskip.2
  exit_iff := iff_of_false nofun nofun
  exit outcome := iff_of_false nofun (hruns outcome)

/-- **Whatever a stage meets, its result fits together and fits that.**  It is skipped exactly if nothing had to be
    done, and has an exit exactly if its command was launched, which is what the runner answered; it has failed unless it
    has succeeded, under its own name, with the status of the failure's kind and with the code of its exit; a cancelled
    stage has the message of its failure as the reason, and a command that did not exit with status zero the message of
    its last error. -/
theorem run_wellFormed (s : BackendStage) (m : Surroundings) : s.WellFormed m (s.run m) := by
  rw [run]
  -- stopped, unreadable, up to date, not launched, or ended
  cases hm : m.stopped with
  | some reason =>
    refine wellFormed_of_failed .cancelled reason (fun h => ?_) fun outcome h => ?_
    · rw [h.stopped] at hm
      cases hm
    · rw [h.stopped] at hm
      cases hm
  | none =>
    have hfresh := freshness_eq_fresh_iff (s := s) hm
    dsimp only
    cases hf : s.freshness m with
    | error r =>
      obtain ⟨kind, message, rfl⟩ := failed_of_freshness hf
      refine wellFormed_of_failed kind message (fun h => ?_) fun outcome h => ?_
      · rw [hfresh.mpr h] at hf
        cases hf
      · obtain ⟨fingerprint, hstale⟩ := h.stale
        rw [hstale] at hf
        cases hf
    | ok freshness =>
      cases freshness with
      | fresh =>
        refine ⟨s.coherent_upToDate, iff_of_true rfl ⟨rfl, hfresh.mp hf⟩, iff_of_false nofun nofun,
          fun outcome => iff_of_false nofun fun h => ?_⟩
        obtain ⟨fingerprint, hstale⟩ := h.stale
        rw [hstale] at hf
        cases hf
      | stale fingerprint =>
        have hnot : ¬ s.NothingToDo m := by
          intro h
          rw [hfresh.mpr h] at hf
          cases hf
        dsimp only
        cases hexecute : m.execute s.command with
        | error e =>
          refine wellFormed_of_failed .launchFailed e.message hnot fun outcome h => ?_
          obtain ⟨lines, hended⟩ := h.ended
          rw [hended] at hexecute
          cases hexecute
        | ok ended =>
          obtain ⟨lines, outcome⟩ := ended
          refine ⟨s.coherent_conclude outcome _ _, iff_of_false ?_ fun h => hnot h.2, iff_of_true rfl rfl,
            fun found => ⟨fun hfound => ?_, fun h => ?_⟩⟩
          · rw [skipped_conclude]
            exact Bool.false_ne_true
          · obtain rfl := Option.some.inj hfound
            exact ⟨hm, ⟨fingerprint, hf⟩, lines, hexecute⟩
          · obtain ⟨lines', hended⟩ := h.ended
            obtain ⟨-, rfl⟩ := Prod.mk.inj (Except.ok.inj (hexecute.symm.trans hended))
            rfl

end BackendStage

/-! ## Stages of a rehearsal

  The rehearsal takes the same way in parts, between which other things may happen.  Each part is compared with the
  function on what it has met. -/

namespace Rehearsal

variable {w : Rehearsal} {n : Nat} {t : StageTask} {s : BackendStage} {m : Surroundings} {fingerprint : Option String}

/-- What a rehearsal launches is stopped, if its run was cancelled, before anything else is done. -/
theorem enter_of_stopped {reason : String} (hb : t.body = .backend s) (hstopped : w.cancelText? t.token = some reason)
    (hm : m.stopped = some reason) : w.enter n t = w.finish n t (s.run m).result := by
  unfold enter BackendStage.run
  rw [hb, hm]
  dsimp only
  rw [hstopped]

/-- A stage that checks its inputs takes along what is recorded when it is entered. -/
theorem enter_of_checks {c : StalenessCheck} (hb : t.body = .backend s) (hrunning : w.cancelText? t.token = none)
    (hc : s.staleness = some c) : w.enter n t = w.startLooking n (w.recorded c) := by
  unfold enter
  rw [hb]
  dsimp only
  rw [hrunning, hc]

/-- The oracle of a rehearsal is asked by `check`. -/
theorem check_eq_freshness {previous : Option String}
    (hload : ∀ c, s.staleness = some c → m.load c.store c.key = previous)
    (horacle : ∀ c, s.staleness = some c → m.isStale previous c.inputs = .verdict (c.inputs.isStale previous w.tree)) :
    s.check m.upstreamRebuilt previous w.tree = s.freshness m := by
  unfold BackendStage.check BackendStage.freshness
  cases hc : s.staleness with
  | none => rfl
  | some c =>
    dsimp only
    rw [hload c hc, horacle c hc]

/-- A look at files ends a stage as it should, or leaves its command to be launched.  What the stage has loaded
    was answered by the store when the stage was entered. -/
theorem compare_eq_run {previous : Option String} (hm : m.stopped = none)
    (hrebuilt : m.upstreamRebuilt = t.upstreamRebuilt)
    (hload : ∀ c, s.staleness = some c → m.load c.store c.key = previous)
    (horacle : ∀ c, s.staleness = some c →
      m.isStale previous c.inputs = .verdict (c.inputs.isStale previous w.tree)) :
    w.compare n t s previous = match s.freshness m with
      | .ok (.stale fingerprint) => (w.setPhase n (.launching fingerprint)).enqueue (.advance n)
      | _ => w.finish n t (s.run m).result := by
  have hcheck : s.check t.upstreamRebuilt previous w.tree = s.freshness m := by
    rw [← hrebuilt]
    exact check_eq_freshness hload horacle
  unfold compare BackendStage.run
  rw [hcheck, hm]
  dsimp only
  cases s.freshness m with
  | error r => rfl
  | ok freshness => cases freshness <;> rfl

/-- What is said about the record is what the store said. -/
theorem record_eq_warnings (hrecord : ∀ c f, s.staleness = some c → fingerprint = some f →
      m.record c.store c.key f = ((w.store c.store).record c.key f w.today w.tree).2.2) :
    (w.record s fingerprint).2 = s.warnings m fingerprint := by
  unfold record BackendStage.warnings
  cases hc : s.staleness with
  | none => rfl
  | some c =>
    cases fingerprint with
    | none => rfl
    | some f =>
      dsimp only
      rw [hrecord c f hc rfl]

section Stale

variable (hm : m.stopped = none) (hstale : s.freshness m = .ok (.stale fingerprint))
include hm hstale

/-- A command that cannot be launched ends its stage. -/
theorem launch_of_error {tree : FileTree} {e : LaunchError} (hconduct : w.conduct s.command = (tree, .error e))
    (hexecute : m.execute s.command = .error e) :
    w.launch n t s fingerprint =
      ({ w with launched := w.launched ++ [s.command], tree } : Rehearsal).finish n t (s.run m).result := by
  have hconduct' : ({ w with launched := w.launched ++ [s.command] } : Rehearsal).conduct s.command =
      (tree, .error e) := hconduct
  unfold launch BackendStage.run
  dsimp only
  rw [hconduct', hm]
  dsimp only
  rw [hstale]
  dsimp only
  rw [hexecute]

/-- A command that has ended ends its stage. -/
theorem conclude_eq_run {outcome : ExitOutcome} {lines : List OutputLine}
    (hexecute : m.execute s.command = .ok (lines, outcome))
    (hrecord : ∀ c f, s.staleness = some c → fingerprint = some f →
      m.record c.store c.key f = ((w.store c.store).record c.key f w.today w.tree).2.2)
    (hmessage : m.cancelMessage = (w.cancelText? t.token).getD "cancelled") :
    w.conclude n t s fingerprint outcome lines =
      (if outcome.isSuccess then (w.record s fingerprint).1 else w).finish n t (s.run m).result := by
  -- the record gives the same warnings in both
  have hwarnings := record_eq_warnings hrecord
  have htext : (w.record s fingerprint).1.cancelText? t.token = w.cancelText? t.token := by
    unfold record
    split <;> rfl
  unfold conclude BackendStage.run
  rw [hm]
  dsimp only
  rw [hstale]
  dsimp only
  rw [hexecute]
  dsimp only
  cases outcome.isSuccess with
  | true =>
    rw [if_pos rfl, if_pos rfl, if_pos rfl, ← hwarnings, hmessage, ← htext]
  | false =>
    rw [if_neg Bool.false_ne_true, if_neg Bool.false_ne_true, if_neg Bool.false_ne_true, hmessage]

end Stale

end Rehearsal

/-! ## Results in histories

  So every result in a history is coherent, and agrees with what was written of its stage. -/

namespace History

variable {S : Setting} {log : List Act} {acts : List Act} {w w₀ : Rehearsal} {run : PipelineRun} {i : Nat}
  {s : BackendStage} {r : StageResult}

/-- A stage's result goes with what the stage wrote. -/
theorem Came.coherent (h : Came i (.backend s) acts r) :
    Coherent s.name r ∧ (r.exit.isSome = true ↔ .launches i ∈ acts) := by
  cases h with
  | other hbody => exact absurd rfl (hbody s)
  | stopped s reason => exact ⟨s.coherent_failed .cancelled reason, iff_of_false nofun (by simp)⟩
  | unreadable s message => exact ⟨s.coherent_failed .configUnreadable message, iff_of_false nofun (by simp)⟩
  | skipped s f => exact ⟨s.coherent_upToDate, iff_of_false nofun (by simp)⟩
  | unlaunched s fingerprint e =>
    refine ⟨s.coherent_failed .launchFailed e.message, iff_of_false nofun ?_⟩
    cases fingerprint <;> simp [found]
  | ended s fingerprint outcome saved said message =>
    exact ⟨s.coherent_conclude outcome said message, iff_of_true rfl (by simp)⟩

/-- **All results of stages that ran in a history fit together**, and fit what was written of them. -/
theorem results_coherent {events : List Event} (hplan : plan S.pipeline.specs = .ok S.pipeline.plan)
    (hw₀ : S.Unused w₀) (hw : S.follow w₀ events = some (log, w)) (hrun : w.run = some run)
    (hs : S.bodies[i]? = some (.backend s)) (hi : run.HasStarted i) (hr : run.state.result? i = some r) :
    Coherent s.name r ∧ (r.exit.isSome = true ↔ .launches i ∈ thisRun log) ∧
      (r.skipped = true ↔ ∃ f, .skips i f ∈ thisRun log) := by
  have hp := (describes_of_plan hplan).1.toWellFormed
  have h : Faithful S log w := List.nil_append log ▸ (Faithful.start hw₀).follow hp hw
  have hcame := ((h.course run hrun).settled i r hi hr).came hs
  obtain ⟨hcoherent, hexit⟩ := hcame.coherent
  have hmem {a : Act} (ha : a.stage? = some i) : a ∈ diary i (thisRun log) ↔ a ∈ thisRun log :=
    mem_diary.trans (and_iff_left ha)
  exact ⟨hcoherent, hexit.trans (hmem rfl), hcame.skipped_iff.trans (exists_congr fun f => hmem rfl)⟩

end History

end Wheelwright
