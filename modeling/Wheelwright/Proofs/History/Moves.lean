/-
  Moves — what an event does to the run, the tasks and the stores.

  **Specification** — `Moves S w act w'`: nothing that matters changes; a run begins; the loop makes a
  step, and the stages that it started get tasks; it hears of a stage; a task proceeds to another phase or
  finishes; or records are forgotten.

  **The crux** — the machine has one function for each thing that wakes a task, and each of them looks at
  the phase and the body of the task.  Sorted by what becomes of the task there are two kinds only
  (`Proceeds`, `Finishes`), and the act that is logged says which of them it was.
-/
import Wheelwright.Proofs.Dispatch.Soundness
import Wheelwright.Proofs.History.Basic

namespace Wheelwright

open History (Act)

/-! ## Stores

  A store is looked up by its number and a key.  Replacing one store leaves the others. -/

namespace FingerprintStore

/-- The fingerprint under a key of the store of a number. -/
def storedIn (stores : List FingerprintStore) (n : Nat) (key : String) : Option String :=
  (stores.getD n {}).stored key

variable {stores : List FingerprintStore} {s : FingerprintStore} {n m : Nat} {key : String}

/-- A store that is replaced holds what the new one holds; all others are as they were. -/
theorem storedIn_set : storedIn (stores.set n s) m key =
    if m = n ∧ n < stores.length then s.stored key else storedIn stores m key := by
  rw [storedIn, List.getD_eq_getElem?_getD, List.getElem?_set]
  -- the store itself, if it is there, and any other one
  by_cases hm : n = m
  · subst hm
    by_cases hn : n < stores.length
    · rw [if_pos rfl, if_pos hn, if_pos ⟨rfl, hn⟩]
      rfl
    · rw [if_pos rfl, if_neg hn, if_neg fun h => hn h.2, storedIn, List.getD_eq_getElem?_getD,
        List.getElem?_eq_none (Nat.le_of_not_lt hn)]
  · rw [if_neg hm, if_neg fun h => hm h.1.symm]
    rfl

/-- There is nothing in a store that there is not. -/
theorem storedIn_of_le (hn : stores.length ≤ n) : storedIn stores n key = none := by
  rw [storedIn, List.getD_eq_getElem?_getD, List.getElem?_eq_none hn]
  rfl

/-- To put a store where it stands changes nothing. -/
theorem set_getD (stores : List FingerprintStore) (n : Nat) : stores.set n (stores.getD n {}) = stores := by
  rcases Nat.lt_or_ge n stores.length with hn | hn
  · rw [List.getD_eq_getElem?_getD, List.getElem?_eq_getElem hn, Option.getD_some, List.set_getElem_self]
  · exact List.set_eq_of_length_le hn

end FingerprintStore

open FingerprintStore (storedIn)

/-! ## Rehearsals that agree

  Most of what a machine does changes neither the run, nor the tasks, nor a store, and `Alike` is the relation for
  that.  Timers, tokens, windows and processes are outside of it. -/

namespace Rehearsal

variable (w : Rehearsal) (n : Nat) (t : StageTask) (ending : Except String StageResult)

/-- A task that has ended reports to the run. -/
theorem run_finishWith : (w.finishWith n t ending).run =
    match t.stage with
    | some i => w.run.map fun run => { run with arrived := run.arrived ++ [(i, ending)] }
    | none => w.run := by
  unfold finishWith
  dsimp only
  -- a stage and a run
  split
  · rename_i i run hi hrun
    rw [hi, show w.run = some run from hrun]
    rfl
  -- either is missing
  · rename_i hnot
    cases hi : t.stage with
    | none => rfl
    | some i =>
      cases hrun : w.run with
      | none => exact hrun
      | some run => exact (hnot i run hi hrun).elim

/-- The task has ended, and no other one has changed. -/
@[simp] theorem tasks_finishWith :
    (w.finishWith n t ending).tasks = w.tasks.modify n fun t => { t with phase := .ended } := by
  unfold finishWith
  dsimp only
  split <;> rfl

/-- No store knows of it. -/
@[simp] theorem stores_finishWith : (w.finishWith n t ending).stores = w.stores := by
  unfold finishWith
  dsimp only
  split <;> rfl

/-- A stage gets a task if it has a body. -/
theorem spawnAll_singleton {run : PipelineRun} {i : Nat} {flag : Bool} (w : Rehearsal) :
    (∀ body, run.bodies[i]? = some body →
      w.spawnAll run [(i, flag)] = w.spawn (taskOf run i flag body)) ∧
    (run.bodies[i]? = none → w.spawnAll run [(i, flag)] = w) := by
  unfold spawnAll
  rw [List.foldl_cons, List.foldl_nil]
  dsimp only
  refine ⟨fun body hbody => ?_, fun hbody => ?_⟩
  · rw [hbody]
  · rw [hbody]

/-- New tasks leave the run and the stores. -/
theorem spawnAll_frame (run : PipelineRun) (started : List (Nat × Bool)) (w : Rehearsal) :
    (w.spawnAll run started).run = w.run ∧ (w.spawnAll run started).stores = w.stores := by
  unfold spawnAll
  induction started generalizing w with
  | nil => exact ⟨rfl, rfl⟩
  | cons x rest ih =>
    rw [List.foldl_cons, (ih _).1, (ih _).2]
    dsimp only
    cases run.bodies[x.1]? <;> exact ⟨rfl, rfl⟩

end Rehearsal

/-- Two rehearsals have the same run, tasks and stores. -/
structure Alike (w w' : Rehearsal) : Prop where
  /-- The same run, with the same loop and the same arrivals. -/
  run : w'.run = w.run
  /-- The same tasks in the same phases. -/
  tasks : w'.tasks = w.tasks
  /-- The same stores with the same records. -/
  stores : w'.stores = w.stores

namespace Alike

variable {w w' w'' : Rehearsal}

/-- Nothing has changed. -/
theorem refl (w : Rehearsal) : Alike w w := ⟨rfl, rfl, rfl⟩

/-- What agrees with something that agrees agrees. -/
theorem trans (h : Alike w w') (h' : Alike w' w'') : Alike w w'' :=
  ⟨h'.run.trans h.run, h'.tasks.trans h.tasks, h'.stores.trans h.stores⟩

/-- A timer is no part of it. -/
theorem after (w : Rehearsal) (ms : Nat) (j : Job) : Alike w (w.after ms j) := by
  unfold Rehearsal.after
  split <;> exact ⟨rfl, rfl, rfl⟩

/-- Nor is the token of a command. -/
theorem commandToken (w : Rehearsal) (c : Command) (run : TokenId) : Alike w (w.commandToken c run).1 := by
  unfold Rehearsal.commandToken
  split <;> exact ⟨rfl, rfl, rfl⟩

/-- Nor is a window of time. -/
theorem openWindow (w : Rehearsal) (window : Option WriteWindow) : Alike w (w.openWindow window) := by
  cases window <;> exact ⟨rfl, rfl, rfl⟩

/-- The same task in the same phase. -/
theorem setPhase (h : Alike w w') (n : Nat) (phase : StagePhase) :
    Alike (w.setPhase n phase) (w'.setPhase n phase) :=
  ⟨h.run, congrArg (fun tasks => List.modify tasks n _) h.tasks, h.stores⟩

/-- The same task has ended in the same way. -/
theorem finishWith (h : Alike w w') (n : Nat) (t : StageTask) (ending : Except String StageResult) :
    Alike (w.finishWith n t ending) (w'.finishWith n t ending) := by
  refine ⟨?_, ?_, ?_⟩
  · rw [Rehearsal.run_finishWith, Rehearsal.run_finishWith, h.run]
  · rw [Rehearsal.tasks_finishWith, Rehearsal.tasks_finishWith, h.tasks]
  · rw [Rehearsal.stores_finishWith, Rehearsal.stores_finishWith, h.stores]

/-- A command that can be launched is waited for. -/
theorem launch_of_ok {s : BackendStage} {started : Conduct × Patience × Option WriteWindow}
    (h : (w.conduct s.command).2 = .ok started) (n : Nat) (t : StageTask) (fingerprint : Option String) :
    Alike (w.setPhase n (.playing fingerprint)) (w.launch n t s fingerprint) := by
  unfold Rehearsal.launch
  dsimp only
  rw [show ({ w with launched := w.launched ++ [s.command] } : Rehearsal).conduct s.command =
    w.conduct s.command from rfl]
  -- the command is launched, so the failing case cannot be
  split
  · rename_i hconduct
    rw [hconduct] at h
    cases h
  · rename_i tree conduct patience window hconduct
    -- what a launch adds is a token, a window and a process; of what agrees only the phase has changed
    have hopen := ((Alike.commandToken { w with launched := w.launched ++ [s.command], tree } s.command
      t.token).trans (Alike.openWindow _ window)).setPhase n (.playing fingerprint)
    exact ⟨hopen.run, hopen.tasks, hopen.stores⟩

/-- A command that cannot be launched fails its stage. -/
theorem launch_of_error {s : BackendStage} {e : LaunchError} (h : (w.conduct s.command).2 = .error e)
    (n : Nat) (t : StageTask) (fingerprint : Option String) :
    Alike (w.finish n t (s.notLaunched e)) (w.launch n t s fingerprint) := by
  unfold Rehearsal.launch
  dsimp only
  rw [show ({ w with launched := w.launched ++ [s.command] } : Rehearsal).conduct s.command =
    w.conduct s.command from rfl]
  -- and here it is the other way round
  split
  · rename_i tree failure hconduct
    rw [hconduct] at h
    cases h
    have hsame : Alike w { w with launched := w.launched ++ [s.command], tree } := ⟨rfl, rfl, rfl⟩
    exact hsame.finishWith n t _
  · rename_i hconduct
    rw [hconduct] at h
    cases h

end Alike

/-! ## Moves of a task

  What an event may come to for a task.  The relations carry the conditions under which the program does each of these
  things, so nothing below has to look at the program. -/

namespace History

variable {S : Setting} {w w' : Rehearsal} {n i : Nat} {t : StageTask} {act : Option Act}

/-- The task is about to launch its command: it found it stale, or it does not check. -/
def AboutToLaunch (t : StageTask) (s : BackendStage) (fingerprint : Option String) : Prop :=
  t.phase = .launching fingerprint ∨ t.phase = .starting ∧ s.staleness = none ∧ fingerprint = none

/-- A task goes on to another phase. -/
inductive Proceeds (w : Rehearsal) (i : Nat) (t : StageTask) : Option Act → StagePhase → Prop
  /-- A stage without a command goes to look at files. -/
  | looks (ht : t.phase = .starting) (hs : ∀ s, t.body ≠ .backend s) (previous : Option String) :
      Proceeds w i t none (.looking previous)
  /-- A stage that checks its inputs takes along what the store holds now. -/
  | loads {s : BackendStage} {c : StalenessCheck} (ht : t.phase = .starting) (hs : t.body = .backend s)
      (hc : s.staleness = some c) :
      Proceeds w i t (some (.loads i)) (.looking (storedIn w.stores c.store c.key))
  /-- A fixed stage waits for its time to be over. -/
  | waits (ht : t.phase = .starting) : Proceeds w i t none .waiting
  /-- The inputs differ from what was loaded, or a predecessor worked. -/
  | stale {s : BackendStage} {c : StalenessCheck} {f : String} {previous : Option String}
      (ht : t.phase = .looking previous) (hs : t.body = .backend s) (hc : s.staleness = some c)
      (hf : c.inputs.fingerprint w.tree = .ok f) (hwhy : previous ≠ some f ∨ t.upstreamRebuilt = true) :
      Proceeds w i t (some (.stale i f)) (.launching (some f))
  /-- The command of a stage is launched. -/
  | launches {s : BackendStage} {fingerprint : Option String} (hs : t.body = .backend s)
      (ht : AboutToLaunch t s fingerprint) : Proceeds w i t (some (.launches i)) (.playing fingerprint)

/-- What becomes of the stores after a command: the fingerprint is recorded, or nothing changes. -/
inductive Saves (stores : List FingerprintStore) (s : BackendStage) (fingerprint : Option String) :
    ExitOutcome → Bool → List FingerprintStore → Prop
  /-- The command failed, the stage does not check its inputs, or the record could not be written. -/
  | nothing {outcome : ExitOutcome} {saved : Bool} (hsaved : saved = true → outcome = .exited (some 0) ∧
      (s.staleness = none ∨ fingerprint = none)) : Saves stores s fingerprint outcome saved stores
  /-- The fingerprint is recorded under the key of the stage, if there is such a store. -/
  | record {c : StalenessCheck} {f : String} {stores' : List FingerprintStore}
      (hc : s.staleness = some c) (hf : fingerprint = some f) (hlen : stores'.length = stores.length)
      (hstored : ∀ m key, storedIn stores' m key =
        if m = c.store ∧ c.store < stores.length ∧ key = c.key then some f else storedIn stores m key) :
      Saves stores s fingerprint (.exited (some 0)) true stores'

/-- A task comes to its end. -/
inductive Finishes (w : Rehearsal) (i : Nat) (t : StageTask) :
    Option Act → Except String StageResult → List FingerprintStore → Prop
  /-- A stage without a command has done what it does. -/
  | other (ht : t.phase ≠ .ended) (hs : ∀ s, t.body ≠ .backend s) (ending : Except String StageResult) :
      Finishes w i t none ending w.stores
  /-- A stage sees that its token was tripped, and does nothing. -/
  | stops {s : BackendStage} (ht : t.phase = .starting) (hs : t.body = .backend s)
      (htrip : w.tokens.isCancelled t.token = true) (reason : String) :
      Finishes w i t (some (.stops i)) (.ok (s.cancelled reason)) w.stores
  /-- The configuration of a stage cannot be read, so its inputs have no fingerprint. -/
  | unreadable {s : BackendStage} {previous : Option String} (ht : t.phase = .looking previous)
      (hs : t.body = .backend s) (message : String) :
      Finishes w i t (some (.unreadable i)) (.ok (s.failed .configUnreadable message)) w.stores
  /-- The inputs come to what was loaded, and no predecessor worked. -/
  | skips {s : BackendStage} {c : StalenessCheck} {f : String} (ht : t.phase = .looking (some f))
      (hs : t.body = .backend s) (hc : s.staleness = some c) (hf : c.inputs.fingerprint w.tree = .ok f)
      (hflag : t.upstreamRebuilt = false) :
      Finishes w i t (some (.skips i f)) (.ok s.upToDate) w.stores
  /-- The command of a stage cannot be launched. -/
  | unlaunched {s : BackendStage} {fingerprint : Option String} (hs : t.body = .backend s)
      (ht : AboutToLaunch t s fingerprint) (e : LaunchError) :
      Finishes w i t (some (.unlaunched i)) (.ok (s.notLaunched e)) w.stores
  /-- The command of a stage has ended, well or badly. -/
  | ends {s : BackendStage} {fingerprint : Option String} {outcome : ExitOutcome} {saved : Bool}
      {stores : List FingerprintStore} (ht : t.phase = .playing fingerprint) (hs : t.body = .backend s)
      (hstores : Saves w.stores s fingerprint outcome saved stores) (said : List Diagnostic)
      (message : String) :
      Finishes w i t (some (.ends i outcome saved)) (.ok (s.conclude outcome said message)) stores

/-- What an event does. -/
inductive Moves (S : Setting) (w : Rehearsal) : Option Act → Rehearsal → Prop
  /-- Nothing happens that histories are about. -/
  | idle {w' : Rehearsal} (h : Alike w w') : Moves S w none w'
  /-- A run begins when no other one is under way. -/
  | begins {config : PipelineConfig} {token : TokenId} {w' : Rehearsal}
      (hidle : ∀ run, w.run = some run → run.outcome.isSome = true)
      (h : Alike { w with run := some (S.newRun config token) } w') : Moves S w (some .begins) w'
  /-- The loop goes on by itself, and tasks are made for the stages that it starts. -/
  | loops {run : PipelineRun} {e : Dispatch.Event} {loop : Dispatch} {w' : Rehearsal}
      (hrun : w.run = some run) (hstep : run.toDispatch.step e = some loop)
      (he : ∀ i ending, e ≠ .finish i ending)
      (h : Alike ((w.withLoop run loop).spawnAll run (loop.started.drop run.started.length)) w') :
      Moves S w (loop.outcome.map fun o => .closes o.status) w'
  /-- The loop hears of a stage that has ended. -/
  | hears {run : PipelineRun} {k i : Nat} {ending : Except String StageResult} {loop : Dispatch}
      {w' : Rehearsal} (hrun : w.run = some run) (hk : run.arrived[k]? = some (i, ending))
      (hstep : run.toDispatch.step (.finish i ending) = some loop)
      (h : Alike (w.withLoop { run with arrived := run.arrived.eraseIdx k } loop) w') : Moves S w none w'
  /-- A task goes on. -/
  | proceeds {n i : Nat} {t : StageTask} {act : Option Act} {phase : StagePhase} {w' : Rehearsal}
      (ht : w.tasks[n]? = some t) (hi : t.stage = some i) (hp : Proceeds w i t act phase)
      (h : Alike (w.setPhase n phase) w') : Moves S w act w'
  /-- A task ends. -/
  | finishes {n i : Nat} {t : StageTask} {act : Option Act} {ending : Except String StageResult}
      {stores : List FingerprintStore} {w' : Rehearsal} (ht : w.tasks[n]? = some t) (hi : t.stage = some i)
      (hf : Finishes w i t act ending stores)
      (h : Alike (({ w with stores } : Rehearsal).finishWith n t ending) w') : Moves S w act w'
  /-- Records whose keys have this start are forgotten. -/
  | forgets {m : Nat} {start : String} {stores : List FingerprintStore} {w' : Rehearsal}
      (hlen : stores.length = w.stores.length)
      (hstored : ∀ k key, storedIn stores k key =
        if k = m ∧ start.toList <+: key.toList then none else storedIn w.stores k key)
      (h : Alike { w with stores } w') : Moves S w (some (.forgets m start)) w'

/-! ## What wakes a task

  The functions of the machine that wake a task, each with the moves that it makes.  They are sorted by the phase of
  the task and the body of its stage. -/

/-- What a check comes to. -/
theorem check_eq {s : BackendStage} {c : StalenessCheck} (hc : s.staleness = some c) (flag : Bool)
    (previous : Option String) (tree : FileTree) : s.check flag previous tree =
      match c.inputs.fingerprint tree with
      | .error e => .error (s.failed .configUnreadable e.message)
      | .ok f => if previous = some f ∧ flag = false then .ok .fresh else .ok (.stale (some f)) := by
  unfold BackendStage.check
  rw [hc]
  dsimp only
  unfold StalenessInputs.isStale
  cases c.inputs.fingerprint tree with
  | error e => rfl
  | ok f =>
    show s.judge flag (.ok (previous != some f, f)) = _
    unfold BackendStage.judge
    dsimp only
    -- the inputs come to what was loaded, or to something else
    by_cases hp : previous = some f
    · cases flag <;> simp [hp]
    · simp [hp]

section Tasks

variable (hn : w.tasks[n]? = some t) (hi : t.stage = some i)
include hn hi

/-- A command is launched, or not. -/
theorem moves_launch {s : BackendStage} {fingerprint : Option String} (hs : t.body = .backend s)
    (ht : AboutToLaunch t s fingerprint) :
    Moves S w (some (w.launchAct i s)) (w.launch n t s fingerprint) := by
  rw [Rehearsal.launchAct]
  split
  · rename_i started hconduct
    exact .proceeds hn hi (.launches hs ht) (Alike.launch_of_ok hconduct n t fingerprint)
  · rename_i e hconduct
    exact .finishes hn hi (.unlaunched hs ht e) (Alike.launch_of_error hconduct n t fingerprint)

/-- A task starts. -/
theorem moves_enter (ht : t.phase = .starting) : Moves S w (w.advanceAct n) (w.enter n t) := by
  unfold Rehearsal.advanceAct Rehearsal.enter
  rw [hn, Option.bind_eq_bind, Option.bind_some, hi, Option.bind_eq_bind, Option.bind_some, ht]
  cases hb : t.body with
  | clean s => exact .proceeds hn hi (.looks ht (by simp [hb]) none) ⟨rfl, rfl, rfl⟩
  -- a fixed stage ends at once or waits
  | fixed s =>
    dsimp only
    split
    · exact .finishes hn hi (.other (by simp [ht]) (by simp [hb]) _) (.refl _)
    · exact .proceeds hn hi (.waits ht) (Alike.after _ _ _)
  -- a backend stage looks at its token first
  | backend s =>
    dsimp only
    rw [Forest.isCancelled, Rehearsal.cancelText?]
    cases hreason : w.tokens.reason? t.token with
    | some reason =>
      refine .finishes hn hi (.stops ht hb ?_ _) (.refl _)
      rw [Forest.isCancelled, hreason]
      rfl
    | none =>
      dsimp only [Option.map_none, Option.isSome_none]
      rw [if_neg Bool.false_ne_true]
      -- it goes to look if it checks its inputs, and launches its command if not
      cases hc : s.staleness with
      | some c => exact .proceeds hn hi (.loads ht hb hc) ⟨rfl, rfl, rfl⟩
      | none => exact moves_launch hn hi hb (Or.inr ⟨ht, hc, rfl⟩)

/-- A task compares its inputs with what it has loaded. -/
theorem moves_compare {s : BackendStage} {previous : Option String} (ht : t.phase = .looking previous)
    (hs : t.body = .backend s) (hchecks : s.staleness.isSome = true) :
    Moves S w (w.lookAct n) (w.compare n t s previous) := by
  obtain ⟨c, hc⟩ := Option.isSome_iff_exists.mp hchecks
  unfold Rehearsal.lookAct Rehearsal.compare
  rw [hn, Option.bind_eq_bind, Option.bind_some, hi, Option.bind_eq_bind, Option.bind_some, ht, hs]
  dsimp only
  rw [hc, Option.bind_eq_bind, Option.bind_some, check_eq hc]
  cases hf : c.inputs.fingerprint w.tree with
  | error e => exact .finishes hn hi (.unreadable ht hs e.message) (.refl _)
  | ok f =>
    dsimp only
    by_cases hfresh : previous = some f ∧ t.upstreamRebuilt = false
    · rw [if_pos hfresh]
      exact .finishes hn hi (.skips (hfresh.1 ▸ ht) hs hc hf hfresh.2) (.refl _)
    · rw [if_neg hfresh]
      refine .proceeds hn hi (.stale ht hs hc hf ?_) ⟨rfl, rfl, rfl⟩
      -- the stage is stale: the inputs differ, or a predecessor has worked
      by_contra hnot
      rw [not_or, not_not, Bool.not_eq_true] at hnot
      exact hfresh hnot

end Tasks

/-- The fingerprint from before the launch is recorded, or could not be, or there is none. -/
theorem saves_record (w : Rehearsal) (s : BackendStage) (fingerprint : Option String) :
    Saves w.stores s fingerprint (.exited (some 0)) (w.record s fingerprint).2.isEmpty
      (w.record s fingerprint).1.stores := by
  unfold Rehearsal.record
  -- the stage checks its inputs, and has looked at them
  split
  · rename_i c f hc
    dsimp only
    -- the store was written, or it was not
    cases he : ((w.store c.store).record c.key f w.today w.tree).2.2 with
    | none =>
      refine .record hc rfl List.length_set fun m key => ?_
      rw [FingerprintStore.storedIn_set, FingerprintStore.stored_record he]
      by_cases hm : m = c.store ∧ c.store < w.stores.length
      · rw [if_pos hm]
        by_cases hk : key = c.key
        · rw [if_pos hk, if_pos ⟨hm.1, hm.2, hk⟩]
        · rw [if_neg hk, if_neg fun h => hk h.2.2, hm.1]
          rfl
      · rw [if_neg hm, if_neg fun h => hm ⟨h.1, h.2.1⟩]
    -- what cannot be written leaves the store as it was
    | some e =>
      rw [FingerprintStore.record_of_error (by rw [he]; exact Option.some_ne_none e), Rehearsal.store,
        FingerprintStore.set_getD]
      exact .nothing fun hsaved => by cases hsaved
  · rename_i hnot
    refine .nothing fun _ => ⟨rfl, ?_⟩
    cases hc : s.staleness with
    | none => exact Or.inl rfl
    | some c =>
      refine Or.inr (Option.eq_none_iff_forall_ne_some.mpr fun f hf => ?_)
      exact hnot c f hc hf

/-- A record concerns stores only. -/
theorem run_record (w : Rehearsal) (s : BackendStage) (fingerprint : Option String) :
    (w.record s fingerprint).1.run = w.run ∧ (w.record s fingerprint).1.tasks = w.tasks := by
  unfold Rehearsal.record
  split <;> exact ⟨rfl, rfl⟩

/-- The command of a task has ended. -/
theorem moves_conclude {v : Rehearsal} {s : BackendStage} {fingerprint : Option String}
    (hn : w.tasks[n]? = some t) (hi : t.stage = some i) (ht : t.phase = .playing fingerprint)
    (hs : t.body = .backend s) (hv : Alike w v) (outcome : ExitOutcome) (lines : List OutputLine) :
    Moves S w (some (.ends i outcome (outcome.isSuccess && (v.record s fingerprint).2.isEmpty)))
      (v.conclude n t s fingerprint outcome lines) := by
  unfold Rehearsal.conclude
  -- a command that failed saves nothing; one that succeeded saves the fingerprint it was started with
  cases hsuccess : outcome.isSuccess with
  | false =>
    exact .finishes hn hi (.ends ht hs (.nothing fun hsaved => by cases hsaved) _ _)
      (Alike.finishWith hv n t _)
  | true =>
    obtain rfl : outcome = .exited (some 0) := of_decide_eq_true hsuccess
    have hstores := saves_record v s fingerprint
    rw [hv.stores] at hstores
    have hsame : Alike { w with stores := (v.record s fingerprint).1.stores } (v.record s fingerprint).1 :=
      ⟨(run_record v s fingerprint).1.trans hv.run, (run_record v s fingerprint).2.trans hv.tasks, rfl⟩
    exact .finishes hn hi (.ends ht hs hstores _ _) (hsame.finishWith n t _)

/-- The tasks of a pipeline are those of its stages, and look at files only to check them. -/
structure Regular (t : StageTask) : Prop where
  /-- A task that has not ended is that of a stage. -/
  stage : t.phase ≠ .ended → t.stage.isSome = true
  /-- Who looks in order to compare has something to compare. -/
  checks : ∀ s previous, t.phase = .looking previous → t.body = .backend s → s.staleness.isSome = true

/-- A task that goes on makes one of its moves, or none. -/
theorem moves_advance (hreg : ∀ t ∈ w.tasks, Regular t) (n : Nat) :
    Moves S w (w.advanceAct n) (w.advance n) := by
  unfold Rehearsal.advanceAct Rehearsal.advance
  cases hn : w.tasks[n]? with
  | none => exact .idle (.refl w)
  | some t =>
    rw [Option.bind_eq_bind, Option.bind_some]
    have ht := hreg t (List.mem_of_getElem? hn)
    cases hi : t.stage with
    | none =>
      -- nothing is left of it to go on
      have hended : t.phase = .ended := by
        by_contra hlive
        have := ht.stage hlive
        rw [hi] at this
        cases this
      dsimp only
      rw [hended]
      exact .idle (.refl w)
    | some i =>
      rw [Option.bind_eq_bind, Option.bind_some]
      dsimp only
      -- by the phase of the task
      cases hphase : t.phase with
      | starting =>
        have henter := moves_enter (S := S) hn hi hphase
        rw [Rehearsal.advanceAct, hn, Option.bind_eq_bind, Option.bind_some, hi, Option.bind_eq_bind,
          Option.bind_some, hphase] at henter
        exact henter
      | waiting =>
        cases hb : t.body with
        | fixed s => exact .finishes hn hi (.other (by simp [hphase]) (by simp [hb]) _) (.refl _)
        | clean s | backend s => exact .idle (.refl w)
      | launching fingerprint =>
        cases hb : t.body with
        | backend s => exact moves_launch hn hi hb (Or.inl hphase)
        | clean s | fixed s => exact .idle (.refl w)
      | looking previous | playing fingerprint | ended => exact .idle (.refl w)

/-- A look is a move of the task that looks. -/
theorem moves_look (hreg : ∀ t ∈ w.tasks, Regular t) {n : Nat} (hlook : w.isLooking n = true) :
    Moves S w (w.lookAct n) (w.look n) := by
  obtain ⟨t, previous, hn, hphase⟩ := Rehearsal.isLooking_iff.mp hlook
  have ht := hreg t (List.mem_of_getElem? hn)
  obtain ⟨i, hi⟩ := Option.isSome_iff_exists.mp (ht.stage (by rw [hphase]; simp))
  unfold Rehearsal.look
  rw [hn]
  dsimp only
  rw [hphase]
  cases hb : t.body with
  | backend s => exact moves_compare hn hi hphase hb (ht.checks s previous hphase hb)
  -- a clean stage has swept its directory: the tree is another one, and of that histories do not tell
  | clean s =>
    rw [Rehearsal.lookAct, hn, Option.bind_eq_bind, Option.bind_some, hi, Option.bind_eq_bind,
      Option.bind_some, hphase, hb]
    have hsame : Alike w { w with tree := (s.run (fun _ => w.cancelText? t.token) w.tree).2 } :=
      ⟨rfl, rfl, rfl⟩
    exact .finishes hn hi (.other (by simp [hphase]) (by simp [hb]) _) (hsame.finishWith n t _)
  | fixed s =>
    rw [Rehearsal.lookAct, hn, Option.bind_eq_bind, Option.bind_some, hi, Option.bind_eq_bind,
      Option.bind_some, hphase, hb]
    exact .idle (.refl w)

/-- A report is a move of the task of the process, or none. -/
theorem moves_report (hreg : ∀ t ∈ w.tasks, Regular t) (k : Nat) :
    Moves S w (w.reportAct k) (w.report k) := by
  unfold Rehearsal.reportAct Rehearsal.report
  cases hk : w.processes[k]? with
  | none => exact .idle (.refl w)
  | some p =>
    rw [Option.bind_eq_bind, Option.bind_some]
    dsimp only
    cases hgone : p.gone with
    | none => exact .idle (.refl w)
    | some d =>
      rw [Option.bind_eq_bind, Option.bind_some]
      cases hn : w.tasks[p.task]? with
      | none => exact .idle (.refl w)
      | some t =>
        rw [Option.bind_eq_bind, Option.bind_some]
        -- the process, its departure and its task: without one of them nothing happens
        dsimp only
        have ht := hreg t (List.mem_of_getElem? hn)
        cases hphase : t.phase with
        | playing fingerprint =>
          obtain ⟨i, hi⟩ := Option.isSome_iff_exists.mp (ht.stage (by rw [hphase]; simp))
          rw [hi, Option.bind_eq_bind, Option.bind_some]
          cases hb : t.body with
          | backend s =>
            have hsame : Alike w (w.afterProcess d) := ⟨rfl, rfl, rfl⟩
            exact moves_conclude hn hi hphase hb hsame d.outcome _
          | clean s | fixed s => exact .idle ⟨rfl, rfl, rfl⟩
        | starting | looking previous | launching fingerprint | waiting | ended =>
          cases t.stage <;> exact .idle ⟨rfl, rfl, rfl⟩

/-! ## Every event is a move

  One case for each kind of event. -/

/-- The loop takes a step. -/
theorem loopStep?_eq_some {e : Dispatch.Event} {found : PipelineRun × Dispatch}
    (h : w.loopStep? e = some found) :
    w.run = some found.1 ∧ found.1.toDispatch.step e = some found.2 := by
  obtain ⟨run, hrun, hloop⟩ := Option.bind_eq_some_iff.mp h
  obtain ⟨loop, hstep, hfound⟩ := Option.bind_eq_some_iff.mp hloop
  cases hfound
  exact ⟨hrun, hstep⟩

/-- Records are forgotten, or could not be. -/
theorem moves_forget (m : Nat) (start : String) (h : S.happen? w (.forget m start) = some (act, w')) :
    Moves S w act w' := by
  unfold Setting.happen? at h
  dsimp only at h
  cases hforgot : ((w.store m).forget start w.tree).2.2 with
  -- the records are gone: each store is asked for each key
  | ok count =>
    rw [hforgot] at h
    cases h
    refine .forgets List.length_set (fun k key => ?_) ⟨rfl, rfl, rfl⟩
    rw [FingerprintStore.storedIn_set, FingerprintStore.stored_forget hforgot]
    by_cases hk : k = m ∧ m < w.stores.length
    · rw [if_pos hk]
      by_cases hkey : start.toList <+: key.toList
      · rw [if_pos hkey, if_pos ⟨hk.1, hkey⟩]
      · rw [if_neg hkey, if_neg fun h => hkey h.2, hk.1]
        rfl
    · rw [if_neg hk]
      by_cases hkm : k = m ∧ start.toList <+: key.toList
      · -- there is no such store
        rw [if_pos hkm]
        exact FingerprintStore.storedIn_of_le (Nat.le_of_not_lt fun hlt => hk ⟨hkm.1, hkm.1 ▸ hlt⟩)
      · rw [if_neg hkm]
  -- the store could not be written, so nothing was forgotten
  | error e =>
    rw [hforgot] at h
    cases h
    refine .idle ⟨rfl, rfl, ?_⟩
    show w.stores.set m _ = w.stores
    rw [FingerprintStore.forget_of_error hforgot]
    exact FingerprintStore.set_getD w.stores m

/-- **Every event is a move.** -/
theorem moves_of_happen (hreg : ∀ t ∈ w.tasks, Regular t) {e : Event}
    (h : S.happen? w e = some (act, w')) : Moves S w act w' := by
  unfold Setting.happen? at h
  -- one event after the other
  cases e with
  | around other =>
    cases h
    exact .idle ⟨rfl, rfl, rfl⟩
  | begin config token =>
    dsimp only at h
    split at h
    · rename_i hidle
      cases h
      refine .begins (fun run hrun => ?_) (.refl _)
      rw [hrun] at hidle
      exact hidle
    · cases h
  -- a trip starts nobody and does not end the loop
  | trip reason =>
    obtain ⟨⟨run, loop⟩, hfound, heq⟩ := Option.map_eq_some_iff.mp h
    cases heq
    obtain ⟨hrun, hstep⟩ := loopStep?_eq_some hfound
    have hmove := Moves.loops (S := S) hrun hstep (by simp) (.refl _)
    rw [Dispatch.started_eq_of_step hstep (by simp), List.drop_length] at hmove
    rwa [Dispatch.outcome_eq_of_step hstep (by simp)] at hmove
  -- a stage that is taken does not end the loop
  | take =>
    obtain ⟨⟨run, loop⟩, hfound, heq⟩ := Option.map_eq_some_iff.mp h
    cases heq
    obtain ⟨hrun, hstep⟩ := loopStep?_eq_some hfound
    have hmove := Moves.loops (S := S) hrun hstep (by simp) (.refl _)
    rwa [Dispatch.outcome_eq_of_step hstep (by simp)] at hmove
  | hear k =>
    obtain ⟨run, hrun, h⟩ := Option.bind_eq_some_iff.mp h
    obtain ⟨⟨i, ending⟩, hk, h⟩ := Option.bind_eq_some_iff.mp h
    obtain ⟨loop, hstep, h⟩ := Option.bind_eq_some_iff.mp h
    cases h
    exact .hears hrun hk hstep (.refl _)
  -- an end starts nobody
  | close =>
    obtain ⟨⟨run, loop⟩, hfound, heq⟩ := Option.map_eq_some_iff.mp h
    cases heq
    obtain ⟨hrun, hstep⟩ := loopStep?_eq_some hfound
    have hmove := Moves.loops (S := S) hrun hstep (by simp) (.refl _)
    rwa [Dispatch.started_eq_of_step hstep (by simp), List.drop_length] at hmove
  | advance n =>
    cases h
    exact moves_advance hreg n
  | look n =>
    dsimp only at h
    split at h
    · rename_i hlook
      cases h
      exact moves_look hreg hlook
    · cases h
  | report k =>
    cases h
    exact moves_report hreg k
  | forget m start => exact moves_forget m start h

end History

end Wheelwright
