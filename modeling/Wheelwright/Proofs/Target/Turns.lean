/-
  Turns — calls on one target, each of them completed before the next begins.

  **State** — a session with nobody waiting in line.

  **Program** — a call to build or to clean comes in when none is served, and its run or its stage goes on step by
  step until it is answered.  The target is invalidated, its run cancelled, and the target closed at any time; files
  are changed at any time and in any way.

  **The crux** — the session's functions ask who is served, whether the target is closed, what the project came to
  and whether planning succeeded.  `Takes` has one case for each way through them, so nothing is asked twice.
-/
import Wheelwright.Rehearsal.Session

namespace Wheelwright

/-! ## Getting a run ready

  Before a run is armed the project may be read and planned anew.  The cases are those of the program, with the error
  where there is one. -/

namespace BuildTarget

/-- How a run is got ready: the target and the host after that, and the error if there is no run. -/
inductive Prepares (t : BuildTarget) (token : TokenId) (tree : FileTree) (h : HostGraph) :
    BuildTarget → HostGraph → Option BuildError → Prop
  /-- The project cannot be read. -/
  | unread {e : BuildError} (hload : Project.load t.projectFile tree = .error e) : Prepares t token tree h t h (some e)
  /-- A new plan is needed, and there is none. -/
  | unplanned {project : Project} {e : BuildError} (hload : Project.load t.projectFile tree = .ok project)
      (hstale : t.invalidated = true ∨ project ≠ t.project)
      (hconfigure : configure t.config t.projectFile t.services tree = .error e) :
      Prepares t token tree h t.invalidate h (some e)
  /-- A new plan takes the place of the old one. -/
  | replanned {project : Project} {next : BuildTarget} (hload : Project.load t.projectFile tree = .ok project)
      (hstale : t.invalidated = true ∨ project ≠ t.project)
      (hconfigure : configure t.config t.projectFile t.services tree = .ok next) :
      Prepares t token tree h
        { (t.replan next h).1 with pipeline := (t.replan next h).1.pipeline.arm token } (t.replan next h).2 none
  /-- The plan is kept. -/
  | kept (hload : Project.load t.projectFile tree = .ok t.project) (hvalid : t.invalidated = false) :
      Prepares t token tree h { t with pipeline := t.pipeline.arm token } h none

/-- To get a run ready is one of these. -/
theorem prepares (t : BuildTarget) (token : TokenId) (tree : FileTree) (h : HostGraph) :
    Prepares t token tree h (t.prepareRun token tree h).1 (t.prepareRun token tree h).2.1
      (t.prepareRun token tree h).2.2 := by
  rw [prepareRun]
  -- a project that cannot be read, one that has changed, or one that has not
  cases hload : Project.load t.projectFile tree with
  | error e => exact .unread hload
  | ok project =>
    dsimp only
    split
    · rename_i hstale
      rw [Bool.or_eq_true, decide_eq_true_iff] at hstale
      cases hconfigure : configure t.config t.projectFile t.services tree with
      | error e => exact .unplanned hload hstale hconfigure
      | ok next => exact .replanned hload hstale hconfigure
    · rename_i hfresh
      rw [Bool.or_eq_true, decide_eq_true_iff, not_or, Bool.not_eq_true, Decidable.not_not] at hfresh
      exact .kept (hfresh.2 ▸ hload) hfresh.1

end BuildTarget

namespace TargetSession

/-! ## The machine

  One call at a time, so a session is a list of turns and not of steps of several calls. -/

/-- What happens next. -/
inductive Turn where
  /-- A call to build or to clean comes in; the one before it has been answered. -/
  | call (n : Nat) (c : TargetCall)
  /-- The target is invalidated. -/
  | invalidate (reason : String)
  /-- The run is cancelled. -/
  | cancel (reason : String)
  /-- The target is closed. -/
  | close
  /-- What is being served goes on, the clock staying before `limit`. -/
  | step (limit : Option Nat)
  /-- Somebody changes files. -/
  | edit (tree : FileTree)

/-- The session after a turn, if it can be taken. -/
def takeTurn (s : TargetSession) : Turn → Option TargetSession
  | .call n c => if s.served.isNone then some (s.call n c) else none
  | .invalidate reason => s.target.map fun t => (s.invalidate t reason).1
  | .cancel reason => s.target.map fun t => (s.cancel t reason).1
  | .close => s.target.map s.close
  | .step limit => s.step limit
  | .edit tree => some { s with world := { s.world with tree } }

/-- The session after some turns, if all of them can be taken. -/
def takeTurns (s : TargetSession) : List Turn → Option TargetSession
  | [] => some s
  | e :: rest => (s.takeTurn e).bind fun u => u.takeTurns rest

variable {s s' : TargetSession} {t : BuildTarget} {e : Turn} {turns : List Turn}

/-- Turns are a turn and those after it. -/
theorem takeTurns_cons : s.takeTurns (e :: turns) = some s' ↔ ∃ u, s.takeTurn e = some u ∧ u.takeTurns turns = some s' :=
  Option.bind_eq_some_iff

/-! ## What a turn does

  The inversion of a turn, with one case for each way through the program.  All laws about turns are proved from it. -/

/-- What a clean is answered with, once records were forgotten or not. -/
def cleanAnswer (r : StageResult) : Except BuildError Nat → CallAnswer
  | .ok _ => .cleaned r
  | .error e => .failed e

/-- What is left once a clean stage has ended and the target's records are to be forgotten, and what is answered. -/
def afterClean (w : Rehearsal) (t : BuildTarget) (r : StageResult) : Rehearsal × CallAnswer :=
  let world := w.deliver (.stage r)
  let (store, tree, forgotten) := (world.store t.services.store).forget t.storeStart world.tree
  ({ world with tree, stores := world.stores.set t.services.store store }, cleanAnswer r forgotten)

/-- What a turn does to a session of the target with nobody in line. -/
inductive Takes (s : TargetSession) (t : BuildTarget) : Turn → TargetSession → Prop
  /-- A call on a closed target is refused. -/
  | refused {n : Nat} {c : TargetCall} (hserved : s.served = none) (hclosed : t.closed = true) :
      Takes s t (.call n c) { s with answers := s.answers ++ [(n, .failed .closed)] }
  /-- A build fails before it starts anything. -/
  | fails {n : Nat} {t' : BuildTarget} {host : HostGraph} {e : BuildError} (hserved : s.served = none)
      (hopen : t.closed = false) (hprepares : t.Prepares s.newToken.2 s.world.tree s.host t' host (some e)) :
      Takes s t (.call n .build) { s.newToken.1 with
        target := some t', host, answers := s.answers ++ [(n, .failed e)] }
  /-- A build starts a run. -/
  | starts {n : Nat} {t' : BuildTarget} {host : HostGraph} (hserved : s.served = none) (hopen : t.closed = false)
      (hprepares : t.Prepares s.newToken.2 s.world.tree s.host t' host none) :
      Takes s t (.call n .build) { s.newToken.1 with
        target := some t', host, served := some (n, .build)
        world := { s.newToken.1.world with run := none }.startRun t'.pipeline t'.bodies s.newToken.2 }
  /-- There is nothing to clean with. -/
  | noClean {n : Nat} {e : BuildError} (hserved : s.served = none) (hopen : t.closed = false)
      (hbody : t.cleanBody = .error e) :
      Takes s t (.call n .clean) { s with answers := s.answers ++ [(n, .failed e)] }
  /-- A clean starts its stage. -/
  | cleans {n : Nat} {body : StageBody} (hserved : s.served = none) (hopen : t.closed = false)
      (hbody : t.cleanBody = .ok body) :
      Takes s t (.call n .clean) { s with
        served := some (n, .clean), world := s.newToken.1.world.startAlone body s.newToken.2 }
  /-- An invalidation sets the flag and cancels. -/
  | invalidates {reason : String} : Takes s t (.invalidate reason) { s with
      target := some t.invalidate, world := s.world.withTokens (t.cancel reason s.world.tokens).1 }
  /-- A cancel trips the token of the run. -/
  | cancels {reason : String} : Takes s t (.cancel reason) { s with
      world := s.world.withTokens (t.cancel reason s.world.tokens).1 }
  /-- Closing sets the flag, cancels, and takes the stages from the host. -/
  | closes : Takes s t .close { s with
      target := some (t.close s.world.tokens s.host).1, host := (t.close s.world.tokens s.host).2.2
      world := s.world.withTokens (t.close s.world.tokens s.host).2.1 }
  /-- The machine goes on. -/
  | steps {limit : Option Nat} {w : Rehearsal} (hstep : s.world.step limit = some w) :
      Takes s t (.step limit) { s with world := w }
  /-- With this step the run is over. -/
  | built {limit : Option Nat} {w : Rehearsal} {n : Nat} {o : PipelineOutcome} (hstep : s.world.step limit = some w)
      (hserved : s.served = some (n, .build)) (ho : w.outcome? = some o) :
      Takes s t (.step limit) { s with
        target := some t.finishRun, world := w, served := none, answers := s.answers ++ [(n, .outcome o)] }
  /-- With this step the clean is over. -/
  | cleaned {limit : Option Nat} {w : Rehearsal} {n : Nat} {r : StageResult} (hstep : s.world.step limit = some w)
      (hserved : s.served = some (n, .clean)) (hr : w.aloneResult = some r) :
      Takes s t (.step limit) { s with
        world := (afterClean w t r).1, served := none, answers := s.answers ++ [(n, (afterClean w t r).2)] }
  /-- Files are changed. -/
  | edits {tree : FileTree} : Takes s t (.edit tree) { s with world := { s.world with tree } }

/-- With nobody in line nobody is served. -/
theorem serveLine_nil (s : TargetSession) : s.serveLine [] = { s with line := [] } := by rw [serveLine]

/-- Then serving does nothing. -/
theorem serve_of_line (hline : s.line = []) : s.serve = { s with line := [] } := by
  rw [serve, hline, serveLine_nil]

/-- A call that comes in is served at once. -/
theorem takes_call {n : Nat} {c : TargetCall} (htarget : s.target = some t) (hline : s.line = [])
    (hserved : s.served = none) : Takes s t (.call n c) (s.call n c) := by
  obtain ⟨target, host, world, line, served, answers⟩ := s
  cases htarget
  cases hline
  cases hserved
  rw [call]
  dsimp only
  split
  · rename_i hclosed
    exact .refused rfl hclosed
  · rename_i hopen
    rw [serve]
    cases c with
    | build =>
      rw [List.nil_append, serveLine]
      dsimp only
      rw [serveBuild, if_neg hopen, serveLine_nil]
      dsimp only [newToken]
      have hprepares := t.prepares world.tokens.create.2 world.tree host
      split
      · rename_i t' host' e hprepare
        rw [hprepare] at hprepares
        exact .fails rfl (Bool.not_eq_true _ ▸ hopen) hprepares
      · rename_i t' host' hprepare
        rw [hprepare] at hprepares
        exact .starts rfl (Bool.not_eq_true _ ▸ hopen) hprepares
    | clean =>
      rw [List.nil_append, serveLine]
      dsimp only
      rw [serveClean, serveLine_nil]
      cases hbody : t.cleanBody with
      | error e => exact .noClean rfl (Bool.not_eq_true _ ▸ hopen) hbody
      | ok body => exact .cleans rfl (Bool.not_eq_true _ ▸ hopen) hbody

/-- What is served goes on, and is answered once it has ended. -/
theorem takes_step {limit : Option Nat} (htarget : s.target = some t) (hline : s.line = [])
    (h : s.step limit = some s') : Takes s t (.step limit) s' := by
  obtain ⟨target, host, world, line, served, answers⟩ := s
  cases htarget
  cases hline
  obtain ⟨w, hw, rfl⟩ := Option.map_eq_some_iff.mp h
  rw [follow]
  cases served with
  | none => exact .steps hw
  | some served =>
    obtain ⟨n, c⟩ := served
    cases c with
    | build =>
      dsimp only
      split
      · rename_i o ho
        rw [endBuild, serve_of_line rfl]
        exact .built hw rfl ho
      · exact .steps hw
    | clean =>
      dsimp only
      split
      · rename_i r hr
        rw [endClean]
        dsimp only
        rw [serve_of_line rfl]
        exact .cleaned hw rfl hr
      · exact .steps hw

/-- **Every turn is one of these.** -/
theorem takes_of_takeTurn (htarget : s.target = some t) (hline : s.line = []) (h : s.takeTurn e = some s') :
    Takes s t e s' := by
  -- on the turn: a call and a step have their own lemmas, the others are as they are
  cases e with
  | call n c =>
    rw [takeTurn] at h
    split at h
    · rename_i hserved
      cases h
      exact takes_call htarget hline (Option.isNone_iff_eq_none.mp hserved)
    · cases h
  | invalidate reason =>
    rw [takeTurn, htarget] at h
    cases h
    exact .invalidates
  | cancel reason =>
    rw [takeTurn, htarget] at h
    cases h
    exact .cancels
  | close =>
    rw [takeTurn, htarget] at h
    cases h
    exact .closes
  | step limit => exact takes_step htarget hline h
  | edit tree =>
    cases h
    exact .edits

/-- What holds of a session and its target and is kept by every turn holds at the end. -/
theorem exists_of_takeTurns {I : TargetSession → BuildTarget → Prop}
    (hwaits : ∀ {s : TargetSession} {t : BuildTarget}, I s t → s.target = some t ∧ s.line = [])
    (htakes : ∀ {s s' : TargetSession} {t : BuildTarget} {e : Turn}, I s t → Takes s t e s' → ∃ t', I s' t')
    (hs : I s t) (h : s.takeTurns turns = some s') : ∃ t', I s' t' := by
  induction turns generalizing s t with
  | nil =>
    cases h
    exact ⟨t, hs⟩
  | cons e rest ih =>
    obtain ⟨u, hu, hrest⟩ := takeTurns_cons.mp h
    obtain ⟨htarget, hline⟩ := hwaits hs
    obtain ⟨t', hkept⟩ := htakes hs (takes_of_takeTurn htarget hline hu)
    exact ih hkept hrest

end TargetSession

end Wheelwright
