/-
  Laws — what a log of runs says before each of its acts.

  **Specification** — `Law S pre a`: the acts `pre` may be followed by `a`.  A stage acts only after its
  predecessors have succeeded in this run, and what it did in this run so far decides what it may do next;
  it is skipped only if the fingerprint is the one that it had loaded and no predecessor worked.

  **The record** — `LatestSaved log i c f`: the stage's command exited with status zero and was recorded;
  before that, in that run, the stage had loaded its record, found its inputs to come to `f` and launched
  the command, and nothing else; and since then nothing was recorded or forgotten under its key.

  **What a stage has loaded** — `Loaded log i c f`: when the stage loaded its record in this run, `f` was
  recorded.  Between that and the comparison records may be forgotten, and the stage does not notice; with
  nothing forgotten in between it has loaded what is recorded still (`Loaded.latestSaved`).

  **The crux** — a log grows at its end, so what it says of the record is said again after each act
  (`latestSaved_saves`, `latestSaved_keeps`, `latestSaved_forgets`), and so is what it says of what was
  loaded (`loaded_loads`, `loaded_keeps`).
-/
import Wheelwright.Proofs.History.Moves

namespace Wheelwright

open FingerprintStore (storedIn)

/-! ## Settings

  A stage has a record of its own if no other stage uses its key.  All that is said of records is said of such stages. -/

namespace Setting

/-- The stage has a record of its own: no other stage has its key, and there is none at the start. -/
structure Owns (S : Setting) (i : Nat) (s : BackendStage) (c : StalenessCheck) : Prop where
  /-- It runs a command. -/
  body : S.bodies[i]? = some (.backend s)
  /-- And it checks whether it has to. -/
  check : s.staleness = some c
  /-- There is such a store. -/
  store : c.store < S.stores.length
  /-- No other stage records in its place. -/
  alone : ∀ j s' c', S.bodies[j]? = some (.backend s') → s'.staleness = some c' →
    c'.store = c.store → c'.key = c.key → j = i
  /-- Nothing was recorded for it before the first run. -/
  unused : storedIn S.stores c.store c.key = none

/-- A stage has one body and one check. -/
theorem Owns.eq {S : Setting} {i : Nat} {s s' : BackendStage} {c c' : StalenessCheck} (h : S.Owns i s c)
    (hs : S.bodies[i]? = some (.backend s')) (hc : s'.staleness = some c') : s' = s ∧ c' = c := by
  obtain rfl : s = s' := StageBody.backend.inj (Option.some.inj (h.body.symm.trans hs))
  exact ⟨rfl, Option.some.inj (hc.symm.trans h.check)⟩

/-- Every stage is a command with a record of its own. -/
structure AllOwn (S : Setting) : Prop where
  /-- There is a body for each stage. -/
  length : S.bodies.length = S.pipeline.plan.names.length
  /-- And all are of stages with a record of their own. -/
  owns : ∀ i < S.bodies.length, ∃ s c, S.Owns i s c

/-- A body is that of a stage with a record of its own. -/
theorem AllOwn.of_body {S : Setting} {i : Nat} {body : StageBody} (h : S.AllOwn)
    (hbody : S.bodies[i]? = some body) : ∃ s c, S.Owns i s c :=
  h.owns i (List.getElem?_eq_some_iff.mp hbody).1

/-- The direct predecessors of a stage. -/
def preds (S : Setting) (i : Nat) : List Nat := predsOf S.pipeline.plan.predecessors i

end Setting

namespace History

variable {S : Setting} {log pre post : List Act} {a : Act} {i j : Nat} {c : StalenessCheck} {f : String}

/-! ## Records

  Which launch the record stands for, told by the log alone.  It is given by where in the log that launch stands and
  by what does not stand after it, and each kind of act either makes a new such launch or leaves the old one, unless
  it forgets the key. -/

/-- The fingerprint of the latest command of the stage that was launched, exited with status zero and was
    recorded, unless it was forgotten. -/
def LatestSaved (log : List Act) (i : Nat) (c : StalenessCheck) (f : String) : Prop :=
  ∃ pre post, log = pre ++ .succeeds i true :: post ∧
    diary i (thisRun pre) = [.loads i, .stale i f, .launches i] ∧ .succeeds i true ∉ post ∧
    ∀ start, .forgets c.store start ∈ post → ¬ start.toList <+: c.key.toList

/-- An entry of a list with one more entry is that one or one of those before it. -/
theorem append_eq_append_cons {α : Type} {log pre post : List α} {a x : α} : log ++ [a] = pre ++ x :: post ↔
    (post = [] ∧ log = pre ∧ a = x) ∨ ∃ more, post = more ++ [a] ∧ log = pre ++ x :: more := by
  -- from left to right: the last act is the one looked for, or it stands in the rest
  constructor
  · intro h
    rcases List.eq_nil_or_concat post with rfl | ⟨more, last, rfl⟩
    · exact Or.inl ⟨rfl, List.append_inj_left' h rfl, List.singleton_inj.mp (List.append_inj_right' h rfl)⟩
    · rw [List.concat_eq_append] at h ⊢
      rw [← List.cons_append, ← List.append_assoc] at h
      have hlast : a = last := List.singleton_inj.mp (List.append_inj_right' h rfl)
      exact Or.inr ⟨more, by rw [hlast], List.append_inj_left' h rfl⟩
  · rintro (⟨rfl, rfl, rfl⟩ | ⟨more, rfl, rfl⟩)
    · rfl
    · rw [List.append_assoc, List.cons_append]

/-- Before anything has happened nothing was saved. -/
theorem not_latestSaved_nil : ¬ LatestSaved [] i c f := by
  rintro ⟨pre, post, hlog, -⟩
  exact List.append_ne_nil_of_right_ne_nil _ (List.cons_ne_nil _ _) hlog.symm

/-- **A saved success is the latest one.** -/
theorem latestSaved_saves : LatestSaved (log ++ [.succeeds i true]) i c f ↔
    diary i (thisRun log) = [.loads i, .stale i f, .launches i] := by
  constructor
  · rintro ⟨pre, post, hlog, hdiary, hlast, -⟩
    obtain ⟨-, rfl, -⟩ | ⟨more, rfl, -⟩ := append_eq_append_cons.mp hlog
    · exact hdiary
    · exact absurd (List.mem_append_right more (List.mem_singleton_self _)) hlast
  · intro hdiary
    exact ⟨log, [], rfl, hdiary, List.not_mem_nil, fun start hstart => absurd hstart List.not_mem_nil⟩

/-- Any other act that does not forget the key leaves the record. -/
theorem latestSaved_keeps (ha : a ≠ .succeeds i true)
    (hforget : ∀ start, a = .forgets c.store start → ¬ start.toList <+: c.key.toList) :
    LatestSaved (log ++ [a]) i c f ↔ LatestSaved log i c f := by
  -- the success that was saved last is not the act that was added, so it stands before it
  constructor
  · rintro ⟨pre, post, hlog, hdiary, hlast, hkept⟩
    obtain ⟨-, -, heq⟩ | ⟨more, rfl, rfl⟩ := append_eq_append_cons.mp hlog
    · exact absurd heq ha
    · exact ⟨pre, more, rfl, hdiary, fun h => hlast (List.mem_append_left _ h),
        fun start hstart => hkept start (List.mem_append_left _ hstart)⟩
  -- and the act that was added neither saves nor forgets
  · rintro ⟨pre, post, rfl, hdiary, hlast, hkept⟩
    refine ⟨pre, post ++ [a], by rw [List.append_assoc, List.cons_append], hdiary, fun h => ?_,
      fun start hstart => ?_⟩
    · rcases List.mem_append.mp h with h | h
      · exact hlast h
      · exact ha (List.mem_singleton.mp h).symm
    · rcases List.mem_append.mp hstart with h | h
      · exact hkept start h
      · exact hforget start (List.mem_singleton.mp h).symm

/-- Nothing is left of a forgotten record. -/
theorem latestSaved_forgets {start : String} (hstart : start.toList <+: c.key.toList) :
    ¬ LatestSaved (log ++ [.forgets c.store start]) i c f := by
  rintro ⟨pre, post, hlog, -, -, hkept⟩
  obtain ⟨-, -, heq⟩ | ⟨more, rfl, -⟩ := append_eq_append_cons.mp hlog
  · cases heq
  · exact hkept start (List.mem_append_right more (List.mem_singleton_self _)) hstart

/-- Acts that neither record nor forget anything under the key leave the record. -/
theorem latestSaved_append {more : List Act} (hsaves : .succeeds i true ∉ more)
    (hforgets : ∀ start, .forgets c.store start ∈ more → ¬ start.toList <+: c.key.toList) :
    LatestSaved (log ++ more) i c f ↔ LatestSaved log i c f := by
  induction more using List.reverseRecOn with
  | nil => rw [List.append_nil]
  | append_singleton more a ih =>
    rw [List.mem_append, not_or, List.mem_singleton] at hsaves
    rw [← List.append_assoc, latestSaved_keeps (Ne.symm hsaves.2) fun start ha =>
      hforgets start (List.mem_append_right more (List.mem_singleton.mpr ha.symm))]
    exact ih hsaves.1 fun start hstart => hforgets start (List.mem_append_left _ hstart)

/-! ## What was loaded

  What a stage has loaded, told by the log as well.  It is the latest saved launch of the moment of the load, and that
  moment is an act of its own. -/

/-- When the stage loaded its record, the last time in this run, the fingerprint was the recorded one. -/
def Loaded (log : List Act) (i : Nat) (c : StalenessCheck) (f : String) : Prop :=
  ∃ early late, log = early ++ .loads i :: late ∧ .begins ∉ late ∧ .loads i ∉ late ∧ LatestSaved early i c f

/-- **What a stage loads is what is recorded.** -/
theorem loaded_loads : Loaded (log ++ [.loads i]) i c f ↔ LatestSaved log i c f := by
  constructor
  · rintro ⟨early, late, hlog, -, hlast, hsaved⟩
    obtain ⟨-, rfl, -⟩ | ⟨more, rfl, -⟩ := append_eq_append_cons.mp hlog
    · exact hsaved
    · exact absurd (List.mem_append_right more (List.mem_singleton_self _)) hlast
  · exact fun hsaved => ⟨log, [], rfl, List.not_mem_nil, List.not_mem_nil, hsaved⟩

/-- It keeps that until it loads again, whatever becomes of the record. -/
theorem loaded_keeps (hbegins : a ≠ .begins) (hloads : a ≠ .loads i) :
    Loaded (log ++ [a]) i c f ↔ Loaded log i c f := by
  -- the load is not the act that was added
  constructor
  · rintro ⟨early, late, hlog, hrun, hlast, hsaved⟩
    obtain ⟨-, -, heq⟩ | ⟨more, rfl, rfl⟩ := append_eq_append_cons.mp hlog
    · exact absurd heq hloads
    · exact ⟨early, more, rfl, fun h => hrun (List.mem_append_left _ h),
        fun h => hlast (List.mem_append_left _ h), hsaved⟩
  -- the act that was added is neither a load of the stage nor the beginning of a run
  · rintro ⟨early, late, rfl, hrun, hlast, hsaved⟩
    refine ⟨early, late ++ [a], by rw [List.append_assoc, List.cons_append], fun h => ?_, fun h => ?_, hsaved⟩
    · rcases List.mem_append.mp h with h | h
      · exact hrun h
      · exact hbegins (List.mem_singleton.mp h).symm
    · rcases List.mem_append.mp h with h | h
      · exact hlast h
      · exact hloads (List.mem_singleton.mp h).symm

/-- What a stage wrote since it loaded its record, if that is all that it wrote in this run: nothing. -/
theorem exists_of_diary_loads (h : diary i (thisRun log) = [.loads i]) :
    ∃ early late, log = early ++ .loads i :: late ∧ .begins ∉ late ∧ ∀ a ∈ late, a.stage? ≠ some i := by
  have hmem : .loads i ∈ thisRun log := mem_of_mem_diary (i := i) (by rw [h]; exact List.mem_singleton_self _)
  obtain ⟨early, late, hlog, hthis, hrun⟩ := exists_of_mem_thisRun hmem
  refine ⟨early, late, hlog, hrun, fun a ha hstage => ?_⟩
  rw [hthis, diary_append, show diary i (.loads i :: late) = .loads i :: diary i late from
    List.filter_cons_of_pos (decide_eq_true rfl)] at h
  -- there is only one entry, so none after it
  have hlen := congrArg List.length h
  rw [List.length_append, List.length_cons, List.length_singleton] at hlen
  have hnil : diary i late = [] := List.eq_nil_of_length_eq_zero (by omega)
  have hdiary : a ∈ diary i late := mem_diary.mpr ⟨ha, hstage⟩
  rw [hnil] at hdiary
  exact List.not_mem_nil hdiary

namespace Loaded

/-- What was recorded when the stage loaded it was recorded before. -/
theorem exists_latestSaved (h : Loaded log i c f) : ∃ early late, log = early ++ late ∧ LatestSaved early i c f := by
  obtain ⟨early, late, hlog, -, -, hsaved⟩ := h
  exact ⟨early, _, hlog, hsaved⟩

/-- **A record that was not forgotten since it was loaded is recorded still.** -/
theorem latestSaved (h : Loaded log i c f) (hdiary : diary i (thisRun log) = [.loads i])
    (hkept : ∀ early late, log = early ++ .loads i :: late → .begins ∉ late →
      ∀ start, .forgets c.store start ∈ late → ¬ start.toList <+: c.key.toList) : LatestSaved log i c f := by
  obtain ⟨early, late, rfl, hrun, hlast, hsaved⟩ := h
  -- between its load and now the stage has not succeeded, and nothing of its was forgotten
  refine (latestSaved_append ?_ ?_).mpr hsaved
  · intro hmem
    have hmem' : .succeeds i true ∈ diary i (thisRun (early ++ .loads i :: late)) := by
      rw [thisRun_append_of_notMem (by simpa using hrun)]
      exact mem_diary.mpr ⟨List.mem_append_right _ hmem, rfl⟩
    rw [hdiary] at hmem'
    simp at hmem'
  · intro start hstart
    -- a load forgets nothing
    exact hkept early late rfl hrun start ((List.mem_cons.mp hstart).resolve_left (by simp))

end Loaded

/-! ## The course of a stage

  The acts of a stage in one run follow its phases: it loads, it finds its inputs stale or is skipped, it launches,
  and its command ends. -/

/-- What the stage wrote down when it found its command stale. -/
def found (i : Nat) : Option String → List Act
  | none => []
  | some f => [.loads i, .stale i f]

/-- What a stage did in this run so far, by the phase of its task. -/
inductive Underway (i : Nat) : StageBody → StagePhase → List Act → Prop
  /-- Nothing was done yet. -/
  | starting (body : StageBody) : Underway i body .starting []
  /-- A fixed stage has no diary. -/
  | waiting (body : StageBody) : Underway i body .waiting []
  /-- Nor has a clean stage, which looks at its directory. -/
  | sweeping {body : StageBody} (hbody : ∀ s, body ≠ .backend s) (previous : Option String) :
      Underway i body (.looking previous) []
  /-- The stage has loaded its record. -/
  | looking {s : BackendStage} (hs : s.staleness.isSome = true) (previous : Option String) :
      Underway i (.backend s) (.looking previous) [.loads i]
  /-- It has found that its command has to run, or it does not check. -/
  | launching {s : BackendStage} {fingerprint : Option String}
      (hf : fingerprint.isSome = s.staleness.isSome) :
      Underway i (.backend s) (.launching fingerprint) (found i fingerprint)
  /-- And it has launched its command. -/
  | playing {s : BackendStage} {fingerprint : Option String}
      (hf : fingerprint.isSome = s.staleness.isSome) :
      Underway i (.backend s) (.playing fingerprint) (found i fingerprint ++ [.launches i])

/-- What a stage did in this run, by its result. -/
inductive Came (i : Nat) : StageBody → List Act → StageResult → Prop
  /-- Stages without a command write nothing, whatever they come to. -/
  | other {body : StageBody} (hbody : ∀ s, body ≠ .backend s) (r : StageResult) : Came i body [] r
  /-- It was told to stop before it began. -/
  | stopped (s : BackendStage) (reason : String) :
      Came i (.backend s) [.stops i] (s.cancelled reason)
  /-- Its configuration could not be read. -/
  | unreadable (s : BackendStage) (message : String) :
      Came i (.backend s) [.loads i, .unreadable i] (s.failed .configUnreadable message)
  /-- It is up to date. -/
  | skipped (s : BackendStage) (f : String) : Came i (.backend s) [.loads i, .skips i f] s.upToDate
  /-- Its command could not be launched. -/
  | unlaunched (s : BackendStage) (fingerprint : Option String) (e : LaunchError) :
      Came i (.backend s) (found i fingerprint ++ [.unlaunched i]) (s.notLaunched e)
  /-- Its command has ended, well or badly. -/
  | ended (s : BackendStage) (fingerprint : Option String) (outcome : ExitOutcome) (saved : Bool)
      (said : List Diagnostic) (message : String) :
      Came i (.backend s) (found i fingerprint ++ [.launches i, .ends i outcome saved])
        (s.conclude outcome said message)

/-! ## What stands before an act

  The law of an act, one constructor for each kind.  A log is lawful if each act is lawful after those before it, so
  to extend a log is to prove one law. -/

/-- It is written that the stage was skipped or its command exited with status zero. -/
def Done (acts : List Act) (i : Nat) : Prop := (∃ f, .skips i f ∈ acts) ∨ ∃ saved, .succeeds i saved ∈ acts

/-- What was done stays done. -/
theorem Done.mono {acts more : List Act} (h : Done acts i) (hsub : acts ⊆ more) : Done more i :=
  h.imp (fun ⟨f, hf⟩ => ⟨f, hsub hf⟩) fun ⟨saved, hsaved⟩ => ⟨saved, hsub hsaved⟩

/-- The stage came to a success in this run, as far as the log tells. -/
def Succeeded (S : Setting) (acts : List Act) (i : Nat) : Prop :=
  ∀ s, S.bodies[i]? = some (.backend s) → Done acts i

/-- The stage did its work in this run, as far as the log tells. -/
def Worked (S : Setting) (acts : List Act) (i : Nat) : Prop :=
  ∀ s, S.bodies[i]? = some (.backend s) → ∃ saved, .succeeds i saved ∈ acts

/-- All predecessors of the stage have succeeded in this run. -/
def Ready (S : Setting) (acts : List Act) (i : Nat) : Prop := ∀ j ∈ S.preds i, Succeeded S acts j

/-- What stands in a log before an act. -/
inductive Law (S : Setting) (pre : List Act) : Act → Prop
  /-- Runs begin at any time. -/
  | begins : Law S pre .begins
  /-- A run that succeeded has successes for all its stages. -/
  | closes {status : PipelineStatus} (h : status = .succeeded →
      ∀ i < S.pipeline.plan.names.length, Succeeded S (thisRun pre) i) : Law S pre (.closes status)
  /-- A stage is stopped before it has done anything, and after all that it waits for. -/
  | stops {i : Nat} (hready : Ready S (thisRun pre) i) (hnew : diary i (thisRun pre) = []) :
      Law S pre (.stops i)
  /-- A stage loads its record as the first thing that it does. -/
  | loads {i : Nat} (hready : Ready S (thisRun pre) i) (hnew : diary i (thisRun pre) = []) :
      Law S pre (.loads i)
  /-- Having loaded it, it cannot read its configuration. -/
  | unreadable {i : Nat} (hready : Ready S (thisRun pre) i) (hloads : diary i (thisRun pre) = [.loads i]) :
      Law S pre (.unreadable i)
  /-- It is skipped only with the record that it has loaded, and if no predecessor did work. -/
  | skips {i : Nat} {f : String} (hready : Ready S (thisRun pre) i)
      (hloads : diary i (thisRun pre) = [.loads i])
      (hidle : ∀ j ∈ S.preds i, ∀ saved, .succeeds j saved ∉ thisRun pre)
      (hsaved : ∀ s c, S.Owns i s c → Loaded pre i c f) : Law S pre (.skips i f)
  /-- It is stale because the record is another one, or because a predecessor did work. -/
  | stale {i : Nat} {f : String} (hready : Ready S (thisRun pre) i)
      (hloads : diary i (thisRun pre) = [.loads i])
      (hwhy : ∀ s c, S.Owns i s c → Loaded pre i c f → ∃ j ∈ S.preds i, Worked S (thisRun pre) j) :
      Law S pre (.stale i f)
  /-- A launch that fails is one for what the stage has found. -/
  | unlaunched {i : Nat} {s : BackendStage} {fingerprint : Option String} (hready : Ready S (thisRun pre) i)
      (hs : S.bodies[i]? = some (.backend s)) (hf : fingerprint.isSome = s.staleness.isSome)
      (hdiary : diary i (thisRun pre) = found i fingerprint) : Law S pre (.unlaunched i)
  /-- And so is one that succeeds. -/
  | launches {i : Nat} {s : BackendStage} {fingerprint : Option String} (hready : Ready S (thisRun pre) i)
      (hs : S.bodies[i]? = some (.backend s)) (hf : fingerprint.isSome = s.staleness.isSome)
      (hdiary : diary i (thisRun pre) = found i fingerprint) : Law S pre (.launches i)
  /-- A command ends that was launched, and only a success is saved. -/
  | ends {i : Nat} {s : BackendStage} {fingerprint : Option String} {outcome : ExitOutcome} {saved : Bool}
      (hready : Ready S (thisRun pre) i) (hs : S.bodies[i]? = some (.backend s))
      (hf : fingerprint.isSome = s.staleness.isSome)
      (hdiary : diary i (thisRun pre) = found i fingerprint ++ [.launches i])
      (hsaved : saved = true → outcome = .exited (some 0)) : Law S pre (.ends i outcome saved)
  /-- Records may be forgotten at any time. -/
  | forgets (m : Nat) (start : String) : Law S pre (.forgets m start)

/-- Finding out takes a load, and a fingerprint. -/
theorem mem_found {fingerprint : Option String} (h : a ∈ found i fingerprint) :
    a = .loads i ∨ ∃ f, fingerprint = some f ∧ a = .stale i f := by
  cases fingerprint with
  | none => exact absurd h List.not_mem_nil
  | some f => simpa [found] using h

namespace Law

variable (h : Law S pre a) (ha : a.stage? = some i)
include h ha

/-- A stage that does anything is ready. -/
theorem ready : Ready S (thisRun pre) i := by
  cases h <;> cases ha <;> assumption

/-- A stage that acts has loaded its record, found its command stale or launched it, at most. -/
theorem acts_before {b : Act} (hb : b ∈ diary i (thisRun pre)) :
    b = .loads i ∨ (∃ f, b = .stale i f) ∨ b = .launches i := by
  have hfound (fingerprint : Option String) (hb : b ∈ found i fingerprint) :
      b = .loads i ∨ (∃ f, b = .stale i f) ∨ b = .launches i :=
    (mem_found hb).imp_right fun ⟨f, _, hf⟩ => Or.inl ⟨f, hf⟩
  -- one kind of act after the other: each law names the whole diary
  cases h with
  | begins | closes | forgets => cases ha
  | stops _ hnew | loads _ hnew =>
    cases ha
    rw [hnew] at hb
    exact absurd hb List.not_mem_nil
  | unreadable _ hloads | skips _ hloads | stale _ hloads =>
    cases ha
    rw [hloads] at hb
    exact Or.inl (List.mem_singleton.mp hb)
  | unlaunched _ _ _ hdiary | launches _ _ _ hdiary =>
    cases ha
    rw [hdiary] at hb
    exact hfound _ hb
  | ends _ _ _ hdiary =>
    cases ha
    rw [hdiary] at hb
    rcases List.mem_append.mp hb with hb | hb
    · exact hfound _ hb
    · exact Or.inr (Or.inr (List.mem_singleton.mp hb))

/-- **A stage that is done does nothing more in this run.** -/
theorem not_done : ¬ Done (thisRun pre) i := by
  rintro (⟨f, hf⟩ | ⟨saved, hsaved⟩)
  · have := h.acts_before ha (mem_diary.mpr ⟨hf, rfl⟩)
    simp at this
  · have := h.acts_before ha (mem_diary.mpr ⟨hsaved, rfl⟩)
    simp at this

end Law

/-- Every act of the log is lawful after those before it. -/
def Lawful (S : Setting) (log : List Act) : Prop := ∀ pre a post, log = pre ++ a :: post → Law S pre a

/-- Before anything has happened all laws are kept. -/
theorem lawful_nil (S : Setting) : Lawful S [] := fun pre _ _ h =>
  absurd h.symm (List.append_ne_nil_of_right_ne_nil pre (List.cons_ne_nil _ _))

/-- A lawful log may go on with a lawful act. -/
theorem Lawful.append (h : Lawful S log) (ha : Law S log a) : Lawful S (log ++ [a]) := by
  intro pre x post hlog
  obtain ⟨-, rfl, rfl⟩ | ⟨more, -, rfl⟩ := append_eq_append_cons.mp hlog
  · exact ha
  · exact h pre x more rfl

/-- What went before was lawful as well. -/
theorem Lawful.of_append (h : Lawful S (log ++ post)) : Lawful S log := fun pre a more hlog =>
  h pre a (more ++ post) (by rw [hlog, List.append_assoc, List.cons_append])

/-- One more lawful act, or none. -/
theorem Lawful.append_toList (h : Lawful S log) {act : Option Act} (hact : ∀ a, act = some a → Law S log a) :
    Lawful S (log ++ act.toList) := by
  cases act with
  | none => exact (List.append_nil log).symm ▸ h
  | some a => exact h.append (hact a rfl)

/-- What is done in this run stays as it is. -/
theorem Lawful.stage_ne_of_done (h : Lawful S (log ++ post)) (hpost : .begins ∉ post)
    (hdone : Done (thisRun log) i) : ∀ a ∈ post, a.stage? ≠ some i := by
  intro a ha hi
  obtain ⟨pre, more, rfl⟩ := List.append_of_mem ha
  rw [List.mem_append, not_or] at hpost
  have hlaw := h (log ++ pre) a more (List.append_assoc ..).symm
  refine hlaw.not_done hi ?_
  rw [thisRun_append_of_notMem hpost.1]
  exact hdone.mono (List.subset_append_left ..)

/-! ## The chain

  The two stages of the chain have different keys. -/

/-- The stages of the chain have records of their own. -/
theorem owns_chained {i : Nat} {s : BackendStage} {c : StalenessCheck}
    (hs : chained.bodies[i]? = some (.backend s)) (hc : s.staleness = some c) : chained.Owns i s c := by
  -- the two stages have the same store and different keys
  have hkeys : ∀ (j : Nat) (s : BackendStage) (c : StalenessCheck), chained.bodies[j]? = some (.backend s) →
      s.staleness = some c → c.store = 0 ∧ (j = 0 ∧ c.key = "prepare" ∨ j = 1 ∧ c.key = "build") := by
    intro j s c hs hc
    match j with
    | 0 | 1 =>
      cases hs
      cases hc
      simp [checkUnder]
    | j + 2 => cases hs
  obtain ⟨hstore, hkey⟩ := hkeys i s c hs hc
  refine ⟨hs, hc, by simp [hstore, chained], fun j s' c' hs' hc' _ hsame => ?_, ?_⟩
  · obtain ⟨-, hkey'⟩ := hkeys j s' c' hs' hc'
    rw [hsame] at hkey'
    -- two stages with one place would have one key
    rcases hkey with ⟨rfl, hk⟩ | ⟨rfl, hk⟩ <;> rcases hkey' with ⟨rfl, hk'⟩ | ⟨rfl, hk'⟩
    · rfl
    · exact absurd (hk.symm.trans hk') (by decide)
    · exact absurd (hk.symm.trans hk') (by decide)
    · rfl
  · rw [hstore]
    rfl

/-- Both stages of the chain have records of their own. -/
theorem allOwn_chained : chained.AllOwn := by
  refine ⟨rfl, fun i hi => ?_⟩
  match i with
  | 0 | 1 => exact ⟨_, _, owns_chained rfl rfl⟩
  | i + 2 => exact absurd hi (by simp [chained])

end History

end Wheelwright
