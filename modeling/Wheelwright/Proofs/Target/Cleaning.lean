/-
  Cleaning — a cleaned target is built again.

  **Specification** — once a clean was answered with its result, whatever it has removed, every build runs the
  command of a stage and does not skip it, until one has run it; unless the run was cancelled, the stage before it has
  not succeeded, its inputs could not be read, or its command could not be started.

  **The crux** — the promise is kept by the store, not by the build directory: nothing stands under the stage's key.
  Only a command that has run writes there, and all keys of the target start as those do that a clean forgets.

  A clean whose records could not be forgotten keeps them, and returns an error.  What it has removed is removed, and
  the next build finds its stages fresh.
-/
import Wheelwright.Proofs.Project.Tables
import Wheelwright.Proofs.Target.CleanStages
import Wheelwright.Proofs.Target.Replanning
import Wheelwright.Proofs.Target.Runs

namespace Wheelwright

open FingerprintStore (storedIn storedIn_set)
open Clients (Keeps)
open History (InFirstRun Named)

/-! ## What a target's stages are checked by

  The stages of a target are declared with their names, and each keeps its record under a key that is made of its
  name.  The keys of one target have a common start. -/

namespace TargetStages

variable {c : TargetConfig} {p : Project} {b : Backend} {v : TargetServices}

/-- The names of a target's stages, in order. -/
def names : List String := [prepareName, buildName, installName]

/-- Those that a stage waits for. -/
def awaited (stage : String) : List String :=
  if stage = buildName then [prepareName] else if stage = installName then [buildName] else []

/-- Every stage waits for the one before it, and keeps its record under its name. -/
theorem declare_spec {stages : List (StageSpec × BackendStage)} (h : declare c p b v = .ok stages) :
    stages.map (·.1.name) = names ∧ ∀ x ∈ stages, x.1.predecessors = awaited x.1.name ∧ x.2.name = x.1.name ∧
      ∃ check, x.2.staleness = some check ∧ check.store = v.store ∧ check.key = storeKey p.path x.1.name := by
  obtain ⟨prepare, build, install, d, -, -, -, -, rfl⟩ := exists_of_declare h
  refine ⟨rfl, fun x hx => ?_⟩
  rcases List.mem_cons.mp hx with rfl | hx
  · exact ⟨rfl, rfl, _, rfl, rfl, rfl⟩
  rcases List.mem_cons.mp hx with rfl | hx
  · exact ⟨rfl, rfl, _, rfl, rfl, rfl⟩
  obtain rfl := List.mem_singleton.mp hx
  exact ⟨rfl, rfl, _, rfl, rfl, rfl⟩

/-- The stage that cleans checks nothing before. -/
theorem staleness_of_clean {body : StageBody} {s : BackendStage} (h : clean c p b v = .ok body)
    (hs : body = .backend s) : s.staleness = none := by
  subst hs
  rw [clean] at h
  split at h
  · cases h
  · obtain ⟨command, -, h⟩ := exists_of_bind_eq_ok h
    cases h
    rfl

end TargetStages

/-- Keys of different stages are different. -/
theorem storeKey_inj {file : Path} {a b : String} (h : storeKey file a = storeKey file b) : a = b := by
  simpa [storeKey, String.append_assoc] using h

/-- All keys of a target start alike. -/
theorem storeKey_prefix (file : Path) (stage : String) :
    (storeKey file "").toList <+: (storeKey file stage).toList := by
  simp [storeKey]

/-- The name that a project file gives. -/
def Project.nameIn (t : Toml.Entries) : Option String :=
  ((t.lookup "project").bind Toml.Value.table?).bind fun project => (project.lookup "name").bind Toml.Value.string?

/-- A project has the path of its file and the name that the file gives. -/
theorem Project.described_of_ofTable {file : Path} {t : Toml.Entries} {p : Project} (h : ofTable file t = .ok p) :
    p.path = file ∧ p.name = nameIn t := by
  rw [ofTable] at h
  split at h
  · split at h
    · obtain ⟨requires, -, h⟩ := exists_of_bind_eq_ok h
      obtain ⟨raw, -, h⟩ := exists_of_bind_eq_ok h
      obtain ⟨backendPath, -, h⟩ := exists_of_bind_eq_ok h
      cases h
      exact ⟨rfl, rfl⟩
    · cases h
  · cases h

/-- A project that was parsed has the name in its table. -/
theorem Project.described_of_parse {file : Path} {text : String} {p : Project} (h : parse file text = .ok p) :
    p.path = file ∧ ∃ t, Toml.parse? text = some t ∧ p.name = nameIn t := by
  rw [parse] at h
  split at h
  · cases h
  · obtain ⟨hpath, hname⟩ := described_of_ofTable h
    exact ⟨hpath, _, ‹_›, hname⟩

namespace BuildTarget

variable {c : TargetConfig} {file : Path} {v : TargetServices} {tree : FileTree} {t t' next : BuildTarget}
  {h h' : HostGraph} {e : Option BuildError} {stores : List FingerprintStore} {i : Nat}

/-- What histories are about while the target's run goes on. -/
def setting (t : BuildTarget) (stores : List FingerprintStore) : Setting := ⟨t.pipeline, t.bodies, stores⟩

/-- Each stage of the target has its record in the target's store, under the key of its name. -/
structure Guarded (file : Path) (v : TargetServices) (t : BuildTarget) : Prop where
  /-- The target is the one of this file. -/
  projectFile : t.projectFile = file
  services : t.services = v
  path : t.project.path = file
  /-- Its pipeline is as it was planned. -/
  planned : plan t.pipeline.specs = .ok t.pipeline.plan
  names : t.pipeline.plan.names = TargetStages.names
  length : t.bodies.length = TargetStages.names.length
  /-- Each stage looks at its own record. -/
  stage : ∀ i < TargetStages.names.length, ∃ s check, t.bodies[i]? = some (.backend s) ∧
    s.name = t.pipeline.plan.nameOf i ∧ s.staleness = some check ∧ check.store = v.store ∧
    check.key = storeKey file (t.pipeline.plan.nameOf i)
  /-- A stage waits for the stages that it names, and for no others. -/
  awaited : ∀ i, ∀ q ∈ (predsOf t.pipeline.plan.predecessors i).map t.pipeline.plan.nameOf,
    q ∈ TargetStages.awaited (t.pipeline.plan.nameOf i)

theorem guarded_of_configure (h : configure c file v tree = .ok next) : Guarded file v next := by
  -- the stages are the declared ones, each with its own key in the store of the target
  obtain ⟨project, backend, stages, p, hload, -, hstages, hplanned, rfl⟩ := exists_of_configure h
  have hpath := Project.path_of_load hload
  have hdescribes := (describes_of_plan hplanned).1
  obtain ⟨hnames, hchecks⟩ := TargetStages.declare_spec hstages
  have hlength : stages.length = TargetStages.names.length := by rw [← hnames, List.length_map]
  refine ⟨rfl, rfl, hpath, hplanned, ?_, by rw [List.length_map, hlength], fun i hi => ?_, fun i q hq => ?_⟩
  · rw [hdescribes.names_eq, List.map_map, ← hnames]
    rfl
  · have hx := List.getElem?_eq_getElem (hlength ▸ hi)
    obtain ⟨-, hname, check, hcheck, hstore, hkey⟩ := hchecks _ (List.mem_of_getElem? hx)
    have hplan := hdescribes.nameOf_eq (i := i) (by rw [List.getElem?_map, hx]; rfl)
    refine ⟨_, check, by rw [List.getElem?_map, hx]; rfl, hname.trans hplan.symm, hcheck, hstore, ?_⟩
    rw [hkey, hpath, ← hplan]
  · obtain ⟨j, hj, rfl⟩ := List.mem_map.mp hq
    have hedge : Edge p.predecessors j i := hj
    rw [hdescribes.edge_eq] at hedge
    obtain ⟨spec, other, hspec, hother, hmem⟩ := hedge
    obtain ⟨x, hx, rfl⟩ := List.mem_map.mp (List.mem_of_getElem? hspec)
    rw [hdescribes.nameOf_eq hspec, hdescribes.nameOf_eq hother, ← (hchecks x hx).1]
    exact hmem

namespace Guarded

/-- Nothing else of the target matters. -/
theorem congr (hg : Guarded file v t) (hfile : t'.projectFile = t.projectFile) (hservices : t'.services = t.services)
    (hproject : t'.project = t.project) (hbodies : t'.bodies = t.bodies)
    (hspecs : t'.pipeline.specs = t.pipeline.specs) (hplan : t'.pipeline.plan = t.pipeline.plan) :
    Guarded file v t' where
  projectFile := hfile.trans hg.projectFile
  services := hservices.trans hg.services
  path := hproject ▸ hg.path
  planned := by rw [hspecs, hplan]; exact hg.planned
  names := hplan ▸ hg.names
  length := hbodies ▸ hg.length
  stage := by rw [hbodies, hplan]; exact hg.stage
  awaited := hplan ▸ hg.awaited

variable (hg : Guarded file v t)
include hg

/-- Getting a run ready leaves it so, also with a new plan. -/
theorem prepares {token : TokenId} (hp : t.Prepares token tree h t' h' e) : Guarded file v t' := by
  cases hp with
  | unread => exact hg
  | unplanned | kept => exact hg.congr rfl rfl rfl rfl rfl rfl
  | replanned hload hstale hconfigure =>
    rw [hg.projectFile, hg.services] at hconfigure
    rw [replan_eq]
    exact (guarded_of_configure hconfigure).congr rfl rfl rfl rfl rfl rfl

/-- So does closing, which leaves the pipeline. -/
theorem close (f : Forest) (h : HostGraph) : Guarded file v (t.close f h).1 ∧
    (t.close f h).1.pipeline = t.pipeline ∧ (t.close f h).1.bodies = t.bodies := by
  rw [BuildTarget.close]
  split
  · exact ⟨hg, rfl, rfl⟩
  · exact ⟨hg.congr rfl rfl rfl rfl rfl rfl, rfl, rfl⟩

/-- The plan is a well-formed one. -/
theorem wellFormed : t.pipeline.plan.WellFormed := (describes_of_plan hg.planned).1.toWellFormed

/-- No two stages have the same name. -/
theorem nodup : t.pipeline.plan.names.Nodup := by
  rw [hg.names]
  decide

/-- The bodies have the names of the plan. -/
theorem named : Named (t.setting stores) where
  nodup := hg.nodup
  body i hi := by
    obtain ⟨s, -, hbody, hname, -⟩ := hg.stage i (hg.names ▸ hi)
    exact ⟨s, hbody, hname⟩

/-- A stage of which there is no record has one of its own. -/
theorem owns {stage : String} (hstage : stage ∈ TargetStages.names) (hstore : v.store < stores.length)
    (hnone : storedIn stores v.store (storeKey file stage) = none) :
    ∃ i s check, i < t.pipeline.plan.names.length ∧ t.pipeline.plan.nameOf i = stage ∧
      (t.setting stores).Owns i s check ∧ check.store = v.store ∧ check.key = storeKey file stage := by
  -- the stage of that name, and no other stage has its key
  obtain ⟨i, hi, rfl⟩ : ∃ i < t.pipeline.plan.names.length, t.pipeline.plan.nameOf i = stage := by
    obtain ⟨i, hi, hstage⟩ := List.mem_iff_getElem.mp (hg.names ▸ hstage)
    exact ⟨i, hi, (List.getD_eq_getElem _ _ hi).trans hstage⟩
  obtain ⟨s, check, hbody, hname, hcheck, hnumber, hkey⟩ := hg.stage i (hg.names ▸ hi)
  refine ⟨i, s, check, hi, rfl, ⟨hbody, hcheck, hnumber ▸ hstore, ?_, ?_⟩, hnumber, hkey⟩
  · intro j s' check' hj hcheck' hsame hkeys
    have hlt : j < TargetStages.names.length := hg.length ▸ (List.getElem?_eq_some_iff.mp hj).1
    obtain ⟨u, other, hu, -, hother, -, hkey'⟩ := hg.stage j hlt
    obtain rfl : u = s' := StageBody.backend.inj (Option.some.inj (hu.symm.trans hj))
    obtain rfl : other = check' := Option.some.inj (hother.symm.trans hcheck')
    rw [hkey, hkey'] at hkeys
    exact Plan.nameOf_inj hg.nodup (hg.names ▸ hlt) hi (storeKey_inj hkeys)
  · rw [hnumber, hkey]
    exact hnone

end Guarded

/-- A target is so from the start. -/
theorem guarded_of_create {c : TargetConfig} {tree : FileTree} {h h' : HostGraph}
    (hcreate : create c file v tree h = .ok (t, h')) : t.Guarded file v := by
  obtain ⟨next, hconfigure, hnext⟩ := exists_of_bind_eq_ok hcreate
  rw [registered_eq] at hnext
  obtain ⟨rfl, -⟩ := Prod.mk.inj (Except.ok.inj hnext)
  exact (guarded_of_configure hconfigure).congr rfl rfl rfl rfl rfl rfl

end BuildTarget

/-! ## What was cleared

  What was cleared is told by the answers of the session: a clean with a result, and no build since in which the
  command has run.  It is kept answer by answer. -/

/-- The stage's command has run. -/
def PipelineOutcome.HasRun (o : PipelineOutcome) (stage : String) : Prop :=
  ∃ r, o.result? stage = some r ∧ r.exit.isSome = true

/-- The stage was not skipped: its command has run, unless there is an excuse. -/
def PipelineOutcome.Reruns (o : PipelineOutcome) (stage : String) : Prop :=
  ∃ r, o.result? stage = some r ∧ r.skipped = false ∧
    (r.exit.isSome = true ∨ o.Excuses (TargetStages.awaited stage) r)

namespace TargetSession

variable {answers : List (Nat × CallAnswer)} {stage : String} {x : Nat × CallAnswer} {file : Path} {v : TargetServices}
  {stores : List FingerprintStore}

/-- A clean was answered with its result, and no build has run the stage's command since. -/
def Cleared (stage : String) (answers : List (Nat × CallAnswer)) : Prop :=
  ∃ before n r since, answers = before ++ (n, .cleaned r) :: since ∧
    ∀ m o, (m, .outcome o) ∈ since → ¬ PipelineOutcome.HasRun o stage

/-- At the start nothing was cleared. -/
theorem not_cleared_nil (stage : String) : ¬ Cleared stage [] := by
  rintro ⟨before, n, r, since, h, -⟩
  cases before <;> cases h

/-- A stage is cleared by a last clean, or it was cleared before and the last build has not run it. -/
theorem cleared_concat : Cleared stage (answers ++ [x]) ↔ (∃ n r, x = (n, .cleaned r)) ∨
    Cleared stage answers ∧ ∀ n o, x = (n, .outcome o) → ¬ PipelineOutcome.HasRun o stage := by
  -- the last answer is the clean, or it came before
  constructor
  · rintro ⟨before, n, r, since, h, hsince⟩
    obtain ⟨-, -, rfl⟩ | ⟨more, rfl, rfl⟩ := History.append_eq_append_cons.mp h
    · exact Or.inl ⟨n, r, rfl⟩
    · exact Or.inr ⟨⟨before, n, r, more, rfl, fun m o hmem => hsince m o (List.mem_append_left _ hmem)⟩,
        fun m o hx => hsince m o (List.mem_append_right more (List.mem_singleton.mpr hx.symm))⟩
  · rintro (⟨n, r, rfl⟩ | ⟨⟨before, n, r, since, rfl, hsince⟩, hx⟩)
    · exact ⟨answers, n, r, [], rfl, fun m o hmem => absurd hmem List.not_mem_nil⟩
    · refine ⟨before, n, r, since ++ [x], by rw [List.append_assoc, List.cons_append], fun m o hmem => ?_⟩
      rcases List.mem_append.mp hmem with hmem | hmem
      · exact hsince m o hmem
      · exact hx m o (List.mem_singleton.mp hmem).symm

/-- After a clean every build reruns a stage, up to the first that has run its command. -/
def Rebuilt (answers : List (Nat × CallAnswer)) : Prop :=
  ∀ stage ∈ TargetStages.names, ∀ before n o after, answers = before ++ (n, .outcome o) :: after →
    Cleared stage before → PipelineOutcome.Reruns o stage

/-- One more answer leaves it so, if that is true of the answer. -/
theorem Rebuilt.concat (h : Rebuilt answers)
    (hx : ∀ n o, x = (n, .outcome o) → ∀ stage ∈ TargetStages.names, Cleared stage answers → o.Reruns stage) :
    Rebuilt (answers ++ [x]) := by
  intro stage hstage before n o after hanswers hcleared
  obtain ⟨-, rfl, hlast⟩ | ⟨more, -, hmore⟩ := History.append_eq_append_cons.mp hanswers
  · exact hx n o hlast stage hstage hcleared
  · exact h stage hstage before n o more hmore hcleared

/-- Nothing stands under the keys of cleared stages. -/
def Forgotten (file : Path) (v : TargetServices) (answers : List (Nat × CallAnswer))
    (stores : List FingerprintStore) : Prop :=
  ∀ stage ∈ TargetStages.names, Cleared stage answers → storedIn stores v.store (storeKey file stage) = none

/-- An error clears nothing. -/
theorem Forgotten.failed (h : Forgotten file v answers stores) (n : Nat) (e : BuildError) :
    Forgotten file v (answers ++ [(n, .failed e)]) stores := by
  intro stage hstage hcleared
  rcases cleared_concat.mp hcleared with ⟨m, r, heq⟩ | ⟨hcleared, -⟩
  · cases heq
  · exact h stage hstage hcleared

/-! ## Runs and cleans of a target

  A run of the target is a run of a history, the stores of which are those that it found.  A clean is a stage that is
  run alone, and then the records are forgotten, or not. -/

variable {s s' u : TargetSession} {t t' : BuildTarget} {w w' : Rehearsal} {e : Turn} {limit : Option Nat} {n : Nat}

/-- A run goes on, the first of a setting that knows nothing of cleared stages. -/
structure Builds (file : Path) (v : TargetServices) (s : TargetSession) (t : BuildTarget) : Prop where
  /-- Whose build it is. -/
  served : ∃ n, s.served = some (n, .build)
  /-- The run began with stores that know nothing of cleared stages. -/
  begun : ∃ stores, v.store < stores.length ∧ InFirstRun (t.setting stores) s.world ∧
    Forgotten file v s.answers stores

/-- No run goes on, and the stores know nothing of cleared stages. -/
structure Rests (file : Path) (v : TargetServices) (s : TargetSession) : Prop where
  /-- No build is served. -/
  served : ∀ n, s.served ≠ some (n, .build)
  store : v.store < s.world.stores.length
  /-- The queues are in order. -/
  waits : s.world.Waits
  /-- Whatever goes on is a clean, which is no part of a run. -/
  aside : s.world.Aside
  /-- If no call is served, nothing goes on. -/
  ended : s.served = none → ∀ t ∈ s.world.tasks, t.phase = .ended
  /-- The stores know nothing of cleared stages. -/
  forgotten : Forgotten file v s.answers s.world.stores

/-- Files may change and tokens be tripped, and flags of the target may change. -/
theorem Builds.quiet (h : Builds file v s t) (hg : t.Guarded file v) (hserved : s'.served = s.served)
    (hanswers : s'.answers = s.answers) (hpipeline : t'.pipeline = t.pipeline) (hbodies : t'.bodies = t.bodies)
    (hw : s.world.Quiet s'.world) (htokens : Keeps s.world.tokens s'.world.tokens) : Builds file v s' t' := by
  obtain ⟨stores, hstore, hrun, hforgotten⟩ := h.begun
  refine ⟨hserved ▸ h.served, stores, hstore, ?_, hanswers ▸ hforgotten⟩
  rw [BuildTarget.setting, hpipeline, hbodies]
  exact hrun.quiet hg.wellFormed hw htokens.isCancelled

/-- Files may change and tokens be tripped in between. -/
theorem Rests.quiet (h : Rests file v s) (hserved : s'.served = s.served) (hanswers : s'.answers = s.answers)
    (hw : s.world.Quiet s'.world) (halone : s'.world.aloneResult = s.world.aloneResult) : Rests file v s' where
  served := hserved ▸ h.served
  store := hw.stores ▸ h.store
  waits := hw.waits h.waits
  aside := h.aside.congr hw.run hw.tasks halone
  ended := by rw [hserved, hw.tasks]; exact h.ended
  forgotten := by rw [hanswers, hw.stores]; exact h.forgotten

/-- A step of a run is a step of its history. -/
theorem Builds.step (h : Builds file v s t) (hg : t.Guarded file v) (hstep : s.world.step limit = some w) :
    Builds file v { s with world := w } t := by
  obtain ⟨stores, hstore, hrun, hforgotten⟩ := h.begun
  exact ⟨h.served, stores, hstore, hrun.step hg.wellFormed hstep, hforgotten⟩

/-- A step of a clean stays aside from stores. -/
theorem Rests.step (h : Rests file v s) (hstep : s.world.step limit = some w) :
    Rests file v { s with world := w } := by
  have hkeeps := h.aside.step h.waits hstep
  exact ⟨h.served, hkeeps.stores ▸ h.store, h.waits.step hstep, hkeeps.aside, fun hnone => hkeeps.ended (h.ended hnone),
    hkeeps.stores ▸ h.forgotten⟩

/-- A run starts. -/
theorem Rests.starts (h : Rests file v s) (hserved : s.served = none) (hg : t.Guarded file v) (n : Nat)
    (host : HostGraph) : Builds file v { s.newToken.1 with
      target := some t, host, served := some (n, .build)
      world := { s.newToken.1.world with run := none }.startRun t.pipeline t.bodies s.newToken.2 } t := by
  refine ⟨⟨n, rfl⟩, s.world.stores, h.store, ?_, h.forgotten⟩
  exact InFirstRun.begins (S := t.setting s.world.stores) (w := s.newToken.1.world) hg.wellFormed (h.ended hserved) rfl
    (h.waits.untouched (.of_eq rfl rfl)) t.pipeline.config t.pipeline.current s.newToken.2

/-- **A run is over**: what was cleared before has been run, or there is no record of it still. -/
theorem Builds.ends (h : Builds file v s t) (hg : t.Guarded file v) {o : PipelineOutcome}
    (ho : s.world.outcome? = some o) :
    (∀ stage ∈ TargetStages.names, Cleared stage s.answers → o.Reruns stage) ∧
      Rests file v { s with
        target := some t.finishRun, served := none, answers := s.answers ++ [(n, .outcome o)] } := by
  obtain ⟨stores, hstore, hrun, hforgotten⟩ := h.begun
  obtain ⟨run, hworld, hout⟩ := Option.bind_eq_some_iff.mp ho
  obtain ⟨log, -, hfaithful, -⟩ := hrun.log
  have hidle (r : PipelineRun) (hr : s.world.run = some r) : r.outcome.isSome = true := by
    obtain rfl := Option.some.inj (hworld.symm.trans hr)
    rw [hout]
    rfl
  have hended := hfaithful.ended hidle
  -- what the outcome says of a cleared stage
  have hresult (stage : String) (hstage : stage ∈ TargetStages.names) (hcleared : Cleared stage s.answers) :
      ∃ r, o.result? stage = some r ∧ r.skipped = false ∧
        (r.exit.isSome = true ∨ o.Excuses (TargetStages.awaited stage) r) ∧
        (r.exit = none → storedIn s.world.stores v.store (storeKey file stage) = none) := by
    obtain ⟨i, b, check, hi, rfl, howns, hnumber, hkey⟩ := hg.owns hstage hstore (hforgotten stage hstage hcleared)
    obtain ⟨r, hfound, hskipped, hruns, hnone⟩ := hrun.result_of_owns hg.named ho hi howns
    rw [← hnumber, ← hkey]
    exact ⟨r, hfound, hskipped, hruns.imp_right (·.mono (hg.awaited i)), hnone⟩
  refine ⟨fun stage hstage hcleared => ?_, ?_, ?_, hrun.waits, ⟨hidle, ?_⟩, fun _ => hended, ?_⟩
  · obtain ⟨r, hr, hskipped, hruns, -⟩ := hresult stage hstage hcleared
    exact ⟨r, hr, hskipped, hruns⟩
  · intro m hserved
    cases hserved
  · exact hfaithful.stores ▸ hstore
  · intro m task hm hlive
    exact absurd (hended task (List.mem_of_getElem? hm)) hlive
  · intro stage hstage hcleared
    rcases cleared_concat.mp hcleared with ⟨m, r, heq⟩ | ⟨hcleared, hnot⟩
    · cases heq
    obtain ⟨r, hr, -, -, hnone⟩ := hresult stage hstage hcleared
    exact hnone (Option.not_isSome_iff_eq_none.mp fun hexit => hnot n o rfl ⟨r, hr, hexit⟩)

/-- A stage is run alone. -/
theorem Rests.cleans {body : StageBody} (h : Rests file v s) (hserved : s.served = none)
    (hbody : t.cleanBody = .ok body) (n : Nat) : Rests file v { s with
      served := some (n, .clean), world := s.newToken.1.world.startAlone body s.newToken.2 } := by
  have haside : (s.newToken.1.world.startAlone body s.newToken.2).Aside :=
    Rehearsal.aside_startAlone (w := s.newToken.1.world) h.aside.idle (h.ended hserved)
      (fun _ => TargetStages.staleness_of_clean hbody) s.newToken.2
  have hwaits : s.newToken.1.world.Waits := h.waits.untouched (.of_eq rfl rfl)
  refine ⟨fun m hm => ?_, h.store, hwaits.startAlone body _, haside, fun hnone => ?_, h.forgotten⟩
  · cases hm
  · cases hnone

/-- A clean is answered with its result and nothing is left under the target's keys, or with an error and all
    records are left. -/
theorem stored_afterClean (hstore : t.services.store < w.stores.length) (r : StageResult) :
    (∃ r', (afterClean w t r).2 = .cleaned r' ∧ ∀ key, t.storeStart.toList <+: key.toList →
      storedIn (afterClean w t r).1.stores t.services.store key = none) ∨
    ∃ e, (afterClean w t r).2 = .failed e ∧ ∀ key,
      storedIn (afterClean w t r).1.stores t.services.store key = storedIn w.stores t.services.store key := by
  have hkept (key : String) : storedIn (afterClean w t r).1.stores t.services.store key =
      ((w.store t.services.store).forget t.storeStart w.tree).1.stored key := by
    exact storedIn_set.trans (if_pos ⟨rfl, hstore⟩)
  have hanswer : (afterClean w t r).2 =
      cleanAnswer r ((w.store t.services.store).forget t.storeStart w.tree).2.2 := rfl
  cases hforgotten : ((w.store t.services.store).forget t.storeStart w.tree).2.2 with
  | ok count =>
    rw [hforgotten] at hanswer
    refine Or.inl ⟨r, hanswer, fun key hkey => ?_⟩
    rw [hkept, FingerprintStore.stored_forget hforgotten, if_pos hkey]
  | error e =>
    rw [hforgotten] at hanswer
    refine Or.inr ⟨e, hanswer, fun key => ?_⟩
    rw [hkept, FingerprintStore.forget_of_error hforgotten]
    rfl

/-- **A clean is over.** -/
theorem Rests.ends (h : Rests file v s) (hg : t.Guarded file v) {r : StageResult}
    (hr : s.world.aloneResult = some r) : Rests file v { s with
      world := (afterClean s.world t r).1, served := none
      answers := s.answers ++ [(n, (afterClean s.world t r).2)] } := by
  have hended := h.aside.ended (by rw [hr]; rfl)
  have hstore : t.services.store < s.world.stores.length := hg.services ▸ h.store
  have hlength : (afterClean s.world t r).1.stores.length = s.world.stores.length := List.length_set
  refine ⟨fun m hm => ?_, hlength ▸ h.store, h.waits.untouched (.of_eq rfl rfl), h.aside.congr rfl rfl rfl,
    fun _ => hended, ?_⟩
  · cases hm
  -- the records are forgotten, or they are kept and the answer is an error
  · rcases stored_afterClean hstore r with ⟨r', hanswer, hnone⟩ | ⟨e, hanswer, hkept⟩
    · intro stage _ _
      rw [← hg.services]
      refine hnone _ ?_
      rw [BuildTarget.storeStart, hg.path]
      exact storeKey_prefix file stage
    · rw [hanswer]
      refine Forgotten.failed (fun stage hstage hcleared => ?_) n e
      rw [← hg.services, hkept, hg.services]
      exact h.forgotten stage hstage hcleared

/-! ## Every turn

  Between the turns either nothing goes on, or a run does, or a clean does.  Each turn leads from one of these to one
  of them, and what was cleared has no record in any. -/

/-- Who closes a target takes no trip back. -/
theorem keeps_close (t : BuildTarget) (f : Forest) (h : HostGraph) : Keeps f (t.close f h).2.1 := by
  rw [BuildTarget.close]
  split
  · exact .refl f
  · exact Clients.keeps_cancel _ _ f

/-- What holds between the turns of a target. -/
structure Minds (file : Path) (v : TargetServices) (s : TargetSession) (t : BuildTarget) : Prop where
  /-- It is this target that is asked. -/
  target : s.target = some t
  /-- Nobody waits. -/
  line : s.line = []
  guarded : t.Guarded file v
  /-- A run goes on, or none does. -/
  stands : Builds file v s t ∨ Rests file v s
  /-- Builds after a clean have run what it cleared. -/
  rebuilt : Rebuilt s.answers

namespace Minds

variable (hm : Minds file v s t)
include hm

/-- Without a build no run goes on. -/
theorem rests (hserved : s.served = none ∨ ∃ n, s.served = some (n, .clean)) : Rests file v s := by
  refine hm.stands.resolve_left fun h => ?_
  obtain ⟨n, hbuild⟩ := h.served
  rcases hserved with hnone | ⟨m, hclean⟩
  · rw [hbuild] at hnone
    cases hnone
  · rw [hbuild] at hclean
    cases hclean

/-- With one a run goes on. -/
theorem builds (hserved : s.served = some (n, .build)) : Builds file v s t :=
  hm.stands.resolve_right fun h => h.served n hserved

/-- Files may change and tokens be tripped, and flags of the target may change. -/
theorem quiet (htarget : s'.target = some t') (hline : s'.line = []) (hg : t'.Guarded file v)
    (hserved : s'.served = s.served) (hanswers : s'.answers = s.answers) (hpipeline : t'.pipeline = t.pipeline)
    (hbodies : t'.bodies = t.bodies) (hw : s.world.Quiet s'.world)
    (htokens : Keeps s.world.tokens s'.world.tokens) (halone : s'.world.aloneResult = s.world.aloneResult) :
    Minds file v s' t' :=
  ⟨htarget, hline, hg,
    hm.stands.imp (·.quiet hm.guarded hserved hanswers hpipeline hbodies hw htokens)
      (·.quiet hserved hanswers hw halone), hanswers ▸ hm.rebuilt⟩

/-- A call is answered with an error. -/
theorem fails (hserved : s.served = none) (htarget : s'.target = some t') (hline : s'.line = [])
    (hg : t'.Guarded file v) (hnone : s'.served = none) (hw : s.world.Quiet s'.world)
    (halone : s'.world.aloneResult = s.world.aloneResult) {error : BuildError}
    (hanswers : s'.answers = s.answers ++ [(n, .failed error)]) : Minds file v s' t' := by
  have hrests := hm.rests (Or.inl hserved)
  refine ⟨htarget, hline, hg, Or.inr ⟨fun m => by simp [hnone], hw.stores ▸ hrests.store, hw.waits hrests.waits,
    hrests.aside.congr hw.run hw.tasks halone, fun _ => hw.tasks ▸ hrests.ended hserved, ?_⟩, ?_⟩
  · rw [hanswers, hw.stores]
    exact hrests.forgotten.failed n error
  · rw [hanswers]
    exact hm.rebuilt.concat fun m o hx => by cases hx

/-- **Every turn.** -/
theorem takes (h : Takes s t e s') : ∃ t', Minds file v s' t' := by
  have hquiet (tokens : Forest) (tree : FileTree) : s.world.Quiet { s.world with tokens, tree } :=
    ⟨⟨rfl, rfl, rfl⟩, rfl⟩
  have hwakes (tokens : Forest) : s.world.Quiet (s.world.withTokens tokens) := ⟨⟨rfl, rfl, rfl⟩, rfl⟩
  -- a turn that fails or starts something, one that changes files, flags or tokens, or a step
  cases h with
  | refused hserved => exact ⟨t, hm.fails hserved hm.target hm.line hm.guarded hserved (.refl _) rfl rfl⟩
  | fails hserved hopen hprepares =>
    exact ⟨_, hm.fails hserved rfl hm.line (hm.guarded.prepares hprepares) hserved (hquiet _ _) rfl rfl⟩
  | starts hserved hopen hprepares =>
    have hg := hm.guarded.prepares hprepares
    exact ⟨_, rfl, hm.line, hg, Or.inl ((hm.rests (Or.inl hserved)).starts hserved hg _ _), hm.rebuilt⟩
  | noClean hserved => exact ⟨t, hm.fails hserved hm.target hm.line hm.guarded hserved (.refl _) rfl rfl⟩
  | cleans hserved hopen hbody =>
    exact ⟨t, hm.target, hm.line, hm.guarded, Or.inr ((hm.rests (Or.inl hserved)).cleans hserved hbody _), hm.rebuilt⟩
  | invalidates =>
    exact ⟨_, hm.quiet rfl hm.line (hm.guarded.congr rfl rfl rfl rfl rfl rfl) rfl rfl rfl rfl (hwakes _)
      (Clients.keeps_cancel _ _ _) rfl⟩
  | cancels =>
    exact ⟨t, hm.quiet hm.target hm.line hm.guarded rfl rfl rfl rfl (hwakes _) (Clients.keeps_cancel _ _ _) rfl⟩
  | closes =>
    obtain ⟨hg, hpipeline, hbodies⟩ := hm.guarded.close s.world.tokens s.host
    exact ⟨_, hm.quiet rfl hm.line hg rfl rfl hpipeline hbodies (hwakes _) (keeps_close _ _ _) rfl⟩
  | steps hstep =>
    exact ⟨t, hm.target, hm.line, hm.guarded, hm.stands.imp (·.step hm.guarded hstep) (·.step hstep), hm.rebuilt⟩
  | built hstep hserved ho =>
    obtain ⟨hreruns, hrests⟩ := ((hm.builds hserved).step hm.guarded hstep).ends hm.guarded ho
    refine ⟨_, rfl, hm.line, hm.guarded.congr rfl rfl rfl rfl rfl rfl, Or.inr hrests, hm.rebuilt.concat ?_⟩
    intro m o hx stage hstage hcleared
    cases hx
    exact hreruns stage hstage hcleared
  | cleaned hstep hserved hr =>
    have hrests := (hm.rests (Or.inr ⟨_, hserved⟩)).step hstep
    refine ⟨t, hm.target, hm.line, hm.guarded, Or.inr (hrests.ends hm.guarded hr), hm.rebuilt.concat fun m o hx => ?_⟩
    obtain ⟨r', hanswer, -⟩ | ⟨error, hanswer, -⟩ := stored_afterClean (hm.guarded.services ▸ hrests.store) _ <;>
      · rw [hanswer] at hx
        cases hx
  | edits => exact ⟨t, hm.quiet hm.target hm.line hm.guarded rfl rfl rfl rfl (hquiet _ _) (.refl _) rfl⟩

end Minds

/-- Nothing was asked of the target yet, and nothing goes on. -/
structure Unasked (s : TargetSession) (t : BuildTarget) : Prop where
  /-- The target is the first one. -/
  target : s.target = some t
  line : s.line = []
  served : s.served = none
  answers : s.answers = []
  /-- There was no run, and there are no tasks. -/
  run : s.world.run = none
  tasks : ∀ t ∈ s.world.tasks, t.phase = .ended
  looks : s.world.looks = []

/-- From there everything holds, as nothing was cleared. -/
theorem Unasked.minds (h : Unasked s t) (hg : t.Guarded file v) (hstore : v.store < s.world.stores.length) :
    Minds file v s t := by
  -- nothing was asked, so each part holds of the start
  refine ⟨h.target, h.line, hg, Or.inr ⟨?_, hstore, ⟨?_, ?_⟩, ⟨?_, ?_⟩, fun _ => h.tasks, ?_⟩, ?_⟩
  · simp [h.served]
  · rw [h.looks]
    exact List.nodup_nil
  · simp [h.looks]
  · simp [h.run]
  · intro n task hn hlive
    exact absurd (h.tasks task (List.mem_of_getElem? hn)) hlive
  · intro stage _ hcleared
    exact absurd (h.answers ▸ hcleared) (not_cleared_nil stage)
  · intro stage _ before n o after hanswers
    rw [h.answers] at hanswers
    simp at hanswers

/-- **A cleaned target is built again.**  Let there be any calls on a new target, each completed before the next, and
    any edits.  Every build after a clean that was answered with its result, up to the first that has run the stage's
    command, does not skip the stage: its command has run, unless the run was cancelled, the stage that it waits for has
    not succeeded, its inputs could not be read, or its command could not be started.  It does not matter what the clean
    has removed. -/
theorem rebuilds_after_clean {c : TargetConfig} {tree : FileTree} {h : HostGraph} {t₀ : BuildTarget} {turns : List Turn}
    (hcreate : BuildTarget.create c file v tree h = .ok (t₀, s.host)) (hnew : Unasked s t₀)
    (hstore : v.store < s.world.stores.length) (hturns : s.takeTurns turns = some u)
    (hstage : stage ∈ TargetStages.names) {before after : List (Nat × CallAnswer)} {o : PipelineOutcome}
    (hanswers : u.answers = before ++ (n, .outcome o) :: after) (hcleared : Cleared stage before) :
    o.Reruns stage := by
  have hg := BuildTarget.guarded_of_create hcreate
  obtain ⟨t, hm⟩ := exists_of_takeTurns (fun hm => ⟨hm.target, hm.line⟩) Minds.takes (hnew.minds hg hstore) hturns
  exact hm.rebuilt stage hstage before n o after hanswers hcleared

/-! ## A build directory that is emptied between builds

  The files in the build directory are gone and so are the records, so the next build runs the command. -/

/-- The project with other files beside it. -/
def beside (entries : List (Location × Entry)) : FileTree :=
  { builtBy "pdm.backend" with entries := (builtBy "pdm.backend").entries ++ entries }

/-- A distribution in the build directory. -/
def built : List (Location × Entry) := [(["dist"], .directory), (["dist", "demo.whl"], .file [] .plain)]

/-- So many steps. -/
def steps (n : Nat) : List Turn := List.replicate n (.step none)

/-- What becomes of the build stage, or of a clean. -/
inductive Fate where
  /-- The build stage was not skipped. -/
  | built
  /-- It was skipped. -/
  | skipped
  /-- A clean was answered with its result. -/
  | cleaned
  /-- The call was answered with an error. -/
  | failed
  deriving DecidableEq

/-- What an answer tells of that. -/
def fate : CallAnswer → Fate
  | .outcome o => if (o.result? TargetStages.buildName).any (·.skipped) then .skipped else .built
  | .cleaned _ => .cleaned
  | .failed _ => .failed

/-- From what an answer tells, something is known of it. -/
theorem exists_of_fate (a : CallAnswer) :
    match fate a with
    | .built => ∃ o, a = .outcome o
    | .skipped => ∃ o r, a = .outcome o ∧ o.result? TargetStages.buildName = some r ∧ r.skipped = true
    | .cleaned => ∃ r, a = .cleaned r
    | .failed => ∃ e, a = .failed e := by
  cases a with
  | outcome o =>
    by_cases hskipped : (o.result? TargetStages.buildName).any (·.skipped) = true
    · rw [fate, if_pos hskipped]
      obtain ⟨r, hr, hskipped⟩ := (Option.any_eq_true _ _).mp hskipped
      exact ⟨o, r, rfl, hr, hskipped⟩
    · rw [fate, if_neg hskipped]
      exact ⟨o, rfl⟩
  | cleaned r => exact ⟨r, rfl⟩
  | failed e => exact ⟨e, rfl⟩

/-- So an answer that tells of a clean is its result. -/
theorem exists_of_fate_cleaned {a : CallAnswer} (h : fate a = .cleaned) : ∃ r, a = .cleaned r := by
  have hcleaned := exists_of_fate a
  rwa [h] at hcleaned

/-- Three answers that tell this are three answers. -/
theorem exists_of_fates {answers : List (Nat × CallAnswer)} {i j k : Nat} {first second third : Fate}
    (h : (answers.map fun a => (a.1, fate a.2)) = [(i, first), (j, second), (k, third)]) :
    ∃ a b c, answers = [(i, a), (j, b), (k, c)] ∧ fate b = second ∧ fate c = third := by
  obtain ⟨⟨_, a⟩, rest, rfl, ha, hrest⟩ := List.map_eq_cons_iff.mp h
  obtain ⟨⟨_, b⟩, rest, rfl, hb, hrest⟩ := List.map_eq_cons_iff.mp hrest
  obtain ⟨⟨_, c⟩, rest, rfl, hc, hrest⟩ := List.map_eq_cons_iff.mp hrest
  obtain rfl := List.map_eq_nil_iff.mp hrest
  obtain ⟨rfl, -⟩ := Prod.mk.inj ha
  obtain ⟨rfl, hsecond⟩ := Prod.mk.inj hb
  obtain ⟨rfl, hthird⟩ := Prod.mk.inj hc
  exact ⟨a, b, c, rfl, hsecond, hthird⟩

/-- A build, a clean of what it has made, and another build. -/
def emptied : List Turn :=
  .call 0 .build :: steps 18 ++ .edit (beside built) :: .call 1 .clean :: steps 2 ++ .call 2 .build :: steps 18

/-- In this session the stage is built, cleaned, and built again. -/
theorem fates_emptied : (reached {} emptied).map (fun u => u.answers.map fun a => (a.1, fate a.2)) =
    some [(0, .built), (1, .cleaned), (2, .built)] := by
  decide +kernel

/-- Here the clean has cleared the stage, and the last build has rerun it. -/
theorem rebuilds_after_clean_emptied : ∃ t₀ u before o, newTarget = .ok t₀ ∧
    (opened {} t₀).takeTurns emptied = some u ∧ u.answers = before ++ [(2, .outcome o)] ∧
    Cleared TargetStages.buildName before ∧ o.Reruns TargetStages.buildName := by
  obtain ⟨u, hreached, hfates⟩ := Option.map_eq_some_iff.mp fates_emptied
  obtain ⟨t₀, hnew, hturns⟩ := exists_of_reached hreached
  obtain ⟨first, second, third, hu, hsecond, hthird⟩ := exists_of_fates hfates
  have hcleaned := exists_of_fate second
  have hbuilt := exists_of_fate third
  rw [hsecond] at hcleaned
  rw [hthird] at hbuilt
  obtain ⟨cleaned, rfl⟩ := hcleaned
  obtain ⟨o, rfl⟩ := hbuilt
  have hcleared : Cleared TargetStages.buildName [(0, first), (1, .cleaned cleaned)] :=
    ⟨[(0, first)], 1, cleaned, [], rfl, fun m o hmem => absurd hmem List.not_mem_nil⟩
  have hunasked : Unasked (opened {} t₀) t₀.1 :=
    ⟨rfl, rfl, rfl, rfl, rfl, fun _ ht => absurd ht List.not_mem_nil, rfl⟩
  exact ⟨t₀, u, _, o, hnew, hturns, hu, hcleared,
    rebuilds_after_clean (s := opened {} t₀) hnew hunasked Nat.zero_lt_one hturns (by decide) hu hcleared⟩

/-! ## A state file that cannot be written

  The other way round: the files are gone and the records are not, and the clean has said that it failed. -/

/-- What lies in the build directory. -/
def leftovers (s : TargetSession) : List String :=
  ((s.world.tree.readDirectory ⟨"/dist"⟩).toOption.getD []).map (·.1)

/-- A build, and then a file where the directory of the state file was. -/
def spoilt : List Turn :=
  .call 0 .build :: steps 18 ++ [.edit (beside ((([".state"], .file [] .plain) : Location × Entry) :: built))]

/-- In this session the clean fails after the directory was emptied, and the next build skips the stage. -/
theorem fates_spoilt : ((reached { stateFile := some ⟨"/.state/s.json"⟩ } spoilt).bind fun u =>
    (u.takeTurns (.call 1 .clean :: steps 2)).bind fun v =>
      (v.takeTurns (.call 2 .build :: steps 9)).map fun w =>
        (u.leftovers, v.leftovers, w.answers.map fun a => (a.1, fate a.2))) =
    some (["demo.whl"], [], [(0, .built), (1, .failed), (2, .skipped)]) := by
  decide +kernel

/-- **Records that could not be forgotten skip what was removed**: the clean returns an error, but the build directory
    is empty, and the next build skips the build stage. -/
theorem not_reruns_spoilt : ∃ u v w before e o, reached { stateFile := some ⟨"/.state/s.json"⟩ } spoilt = some u ∧
    u.takeTurns (.call 1 .clean :: steps 2) = some v ∧ u.leftovers = ["demo.whl"] ∧ v.leftovers = [] ∧
    v.takeTurns (.call 2 .build :: steps 9) = some w ∧ w.answers = before ++ [(1, .failed e), (2, .outcome o)] ∧
    ¬ o.Reruns TargetStages.buildName := by
  obtain ⟨u, hu, hseen⟩ := Option.bind_eq_some_iff.mp fates_spoilt
  obtain ⟨v, hv, hseen⟩ := Option.bind_eq_some_iff.mp hseen
  obtain ⟨w, hw, hseen⟩ := Option.map_eq_some_iff.mp hseen
  obtain ⟨hfull, hseen⟩ := Prod.mk.inj hseen
  obtain ⟨hempty, hfates⟩ := Prod.mk.inj hseen
  obtain ⟨first, second, third, hanswers, hsecond, hthird⟩ := exists_of_fates hfates
  have hfailed := exists_of_fate second
  have hskipped := exists_of_fate third
  rw [hsecond] at hfailed
  rw [hthird] at hskipped
  obtain ⟨e, rfl⟩ := hfailed
  obtain ⟨o, r, rfl, hr, hskipped⟩ := hskipped
  refine ⟨u, v, w, [(0, first)], e, o, hu, hv, hfull, hempty, hw, hanswers, ?_⟩
  rintro ⟨r', hr', hran, -⟩
  obtain rfl := Option.some.inj (hr.symm.trans hr')
  rw [hskipped] at hran
  cases hran

end TargetSession

end Wheelwright
