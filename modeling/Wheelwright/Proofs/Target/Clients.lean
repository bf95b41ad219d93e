/-
  Clients of a target — calls of any number of threads on one build target.

  **State** — a call to build or to clean waits for its turn, and the one that is served holds the run lock.
  While a build gets its run ready it holds the state lock as well, and no other call may look at the pipeline
  or cancel its run.  Both flags of a target are set and read at any time, by whoever wants to.

  **Steps** — an access to a flag is one step, and so is each section under the state lock that nothing in it can
  interrupt.  A build under the state lock takes a step for the flag, one for when planning begins, one for when it
  has read the project, and one for when the new pipeline is in place; between them other calls may set flags.

  **Times** — `clock` counts the steps.  A pipeline is kept with the time when its planning began and with the
  files that were read for it, an invalidation with the time when it set the flag.
-/
import Wheelwright.Rehearsal.Session
import Wheelwright.Proofs.Cancellation.Alone

namespace Wheelwright

/-- How a pipeline was planned: when that began, and the files that were read. -/
structure Planning where
  /-- When planning began. -/
  began : Nat
  /-- The files that were read. -/
  tree : FileTree

/-- A run of a target: its token, its pipeline and how that was planned, and the times of its start and end. -/
structure TargetRun where
  /-- The token that cancels it. -/
  token : TokenId
  pipeline : Pipeline
  planning : Planning
  /-- When it was armed. -/
  armed : Nat
  /-- When it ended, if it has. -/
  ended : Option Nat := none

/-! ## What planning gives

  What a planned target is made of, and that planning leaves no run and no flag behind.  The binds of the program are
  taken apart here and nowhere else. -/

/-- A newly planned target: made as asked, with no run, no flag set, and unknown to the host. -/
structure Configured (c : TargetConfig) (file : Path) (v : TargetServices) (next : BuildTarget) : Prop where
  /-- It is made as asked. -/
  config : next.config = c
  projectFile : next.projectFile = file
  services : next.services = v
  /-- It has no run. -/
  current : next.pipeline.current = none
  /-- The host does not know its stages. -/
  hostStages : next.hostStages = []
  /-- No flag is set. -/
  invalidated : next.invalidated = false
  closed : next.closed = false

/-- The value of a result that has one. -/
theorem eq_ok_of_toOption {α ε : Type} {x : Except ε α} {a : α} (h : x.toOption = some a) : x = .ok a := by
  cases x with
  | error e => cases h
  | ok b =>
    cases h
    rfl

/-- What the stages of a project are made of: three commands, and the time that each may take. -/
theorem TargetStages.exists_of_declare {c : TargetConfig} {p : Project} {b : Backend} {v : TargetServices}
    {stages : List (StageSpec × BackendStage)} (h : declare c p b v = .ok stages) :
    ∃ prepare build install d,
      render prepareTemplate (vars c p.root (b.builddir p.root)) p.root b prepareName = .ok prepare ∧
      buildCommand c b p.root = .ok build ∧
      render (installTemplate (packageOf p) ((environment c p.root).child programDir))
        (vars c p.root (b.builddir p.root)) p.root b installName = .ok install ∧
      timeout c = .ok d ∧ stages = [
        ({ name := prepareName, targets := [environment c p.root] },
          stage (inputs c p b) v d prepareName prepare (v.classifiers.get Classifier.pep517.id)),
        ({ name := buildName, predecessors := [prepareName], targets := [b.builddir p.root] },
          stage (inputs c p b) v d buildName build (v.classifiers.get b.classifier)),
        ({ name := installName, predecessors := [buildName], targets := [environment c p.root] },
          stage (inputs c p b) v d installName install (v.classifiers.get Classifier.pep517.id))] := by
  -- one command after the other, each of which may refuse its template
  rw [declare] at h
  obtain ⟨prepare, hprepare, h⟩ := exists_of_bind_eq_ok h
  obtain ⟨build, hbuild, h⟩ := exists_of_bind_eq_ok h
  obtain ⟨install, hinstall, h⟩ := exists_of_bind_eq_ok h
  obtain ⟨d, hd, h⟩ := exists_of_bind_eq_ok h
  cases h
  exact ⟨prepare, build, install, d, hprepare, hbuild, hinstall, hd, rfl⟩

/-- What a newly planned target is made of. -/
theorem exists_of_configure {c : TargetConfig} {file : Path} {v : TargetServices} {tree : FileTree}
    {next : BuildTarget} (h : BuildTarget.configure c file v tree = .ok next) :
    ∃ project backend stages p, Project.load file tree = .ok project ∧
      BuildTarget.backendFor c project v = .ok backend ∧ TargetStages.declare c project backend v = .ok stages ∧
      plan (stages.map (·.1)) = .ok p ∧
      next = { config := c, projectFile := file, services := v, project, backend
               pipeline := { name := BuildTarget.pipelineName, specs := stages.map (·.1), plan := p, config := c.pipeline }
               bodies := stages.map fun x => .backend x.2 } := by
  rw [BuildTarget.configure] at h
  obtain ⟨project, hload, h⟩ := exists_of_bind_eq_ok h
  obtain ⟨backend, hbackend, h⟩ := exists_of_bind_eq_ok h
  obtain ⟨stages, hstages, h⟩ := exists_of_bind_eq_ok h
  split at h
  · cases h
  · rename_i pipeline hbuild
    cases h
    rw [Pipeline.build] at hbuild
    obtain ⟨p, hplan, hpipeline⟩ := exists_of_bind_eq_ok hbuild
    cases hpipeline
    exact ⟨project, backend, stages, p, hload, hbackend, hstages, hplan, rfl⟩

/-- A target that was configured is new in all this. -/
theorem configured_of_configure {c : TargetConfig} {file : Path} {v : TargetServices} {tree : FileTree}
    {next : BuildTarget} (h : BuildTarget.configure c file v tree = .ok next) : Configured c file v next := by
  obtain ⟨project, backend, stages, p, -, -, -, -, rfl⟩ := exists_of_configure h
  exact ⟨rfl, rfl, rfl, rfl, rfl, rfl, rfl⟩

/-! ## Calls

  A call is told by how far it has come.  Some of its points are between two accesses that other calls may come
  between, and these are what the machine is for. -/

/-- What a client asks for. -/
inductive Demand where
  /-- A build or a clean. -/
  | serve (kind : TargetCall)
  /-- An invalidation. -/
  | invalidate (reason : String)
  /-- A cancel of the run. -/
  | cancel (reason : String)
  | close

/-- How far a call has come. -/
inductive ClientCall where
  /-- It has not looked at the target yet. -/
  | asks (kind : TargetCall)
  /-- The target was found open; the call waits for the run lock. -/
  | waits (kind : TargetCall)
  /-- It holds the run lock. -/
  | served
  /-- It has returned. -/
  | returned (error : Option BuildError)
  /-- It has to set the flag. -/
  | invalidates (reason : String)
  /-- It waits for the state lock to cancel; an invalidation has set the flag at the time `stored`. -/
  | cancels (reason : String) (stored : Option Nat)
  /-- It has cancelled. -/
  | cancelled (stored : Option Nat) (time : Nat)
  /-- It has not looked whether the target is closed. -/
  | closes
  /-- It has set the flag and waits for the state lock. -/
  | unregisters
  /-- It has closed the target. -/
  | closed (time : Nat)

/-- The call that a demand makes. -/
def Demand.call : Demand → ClientCall
  | .serve kind => .asks kind
  | .invalidate reason => .invalidates reason
  | .cancel reason => .cancels reason none
  | .close => .closes

/-- How far the call that holds the run lock has come. -/
inductive Service where
  /-- It has the run lock and has not looked at the target again. -/
  | admitted (kind : TargetCall)
  /-- The target was found open again; the build has a token. -/
  | opened (token : TokenId)
  /-- It has read the project and waits for the state lock. -/
  | loaded (token : TokenId) (project : Project)
  /-- It holds the state lock and has to look at the flag. -/
  | locked (token : TokenId) (project : Project)
  /-- It has taken the flag and plans. -/
  | plans (token : TokenId) (began : Nat)
  /-- There is no plan; it has to set the flag again. -/
  | refused (error : BuildError)
  /-- The new plan has to take the place of the old one. -/
  | planned (token : TokenId) (planning : Planning) (next : BuildTarget)
  /-- The pipeline is current; a run can be armed. -/
  | ready (token : TokenId)
  /-- A run is armed. -/
  | armed (token : TokenId)
  /-- The run is in progress. -/
  | runs (token : TokenId)
  /-- A clean is in progress. -/
  | cleans

namespace Service

/-- The call holds the state lock. -/
def holdsState : Service → Bool
  | .locked _ _ | .plans _ _ | .refused _ | .planned _ _ _ | .ready _ => true
  | _ => false

/-- The token of a run that is armed or in progress. -/
def running? : Service → Option TokenId
  | .armed token | .runs token => some token
  | _ => none

end Service

/-! ## The machine

  The machine with its clock.  What is under the run lock is one service, and at most one call is served. -/

/-- A target with its host and the calls on it, the tokens and files that they share, and all runs so far. -/
structure Clients where
  /-- The target. -/
  target : BuildTarget
  host : HostGraph
  forest : Forest
  /-- The files. -/
  tree : FileTree
  /-- The calls so far. -/
  calls : List ClientCall := []
  /-- Who holds the run lock. -/
  served : Option (Nat × Service) := none
  /-- The time of the next event. -/
  clock : Nat := 1
  /-- How the pipeline of the target was planned. -/
  planning : Planning
  /-- The runs so far. -/
  runs : List TargetRun := []

namespace Clients

/-- What can happen. -/
inductive Event where
  /-- A client makes a call. -/
  | call (d : Demand)
  /-- A call that is not served goes on. -/
  | go (i : Nat)
  /-- The call that is served goes on. -/
  | serve
  /-- Files are changed, and tokens are made and tripped, by others. -/
  | elsewhere (tree : FileTree) (forest : Forest)

/-- The state lock is free. -/
def isFree (s : Clients) : Bool := !s.served.any fun x => x.2.holdsState

/-- A call has come to another point. -/
def withCall (s : Clients) (i : Nat) (c : ClientCall) : Clients := { s with calls := s.calls.set i c }

/-- The served call has come to another point. -/
def withService (s : Clients) (i : Nat) (v : Service) : Clients := { s with served := some (i, v) }

/-- The served call returns. -/
def leave (s : Clients) (i : Nat) (error : Option BuildError) : Clients :=
  { s with served := none }.withCall i (.returned error)

/-- The next step of a call that is not served. -/
def proceed (s : Clients) (i : Nat) : ClientCall → Option Clients
  | .asks kind =>
    if s.target.closed then some (s.withCall i (.returned (some .closed))) else some (s.withCall i (.waits kind))
  | .waits kind =>
    if s.served.isSome then none else some ((s.withCall i .served).withService i (.admitted kind))
  | .invalidates reason =>
    some ({ s with target := s.target.invalidate }.withCall i (.cancels reason (some s.clock)))
  | .cancels reason stored =>
    if s.isFree then
      some ({ s with forest := (s.target.cancel reason s.forest).1 }.withCall i (.cancelled stored s.clock))
    else none
  | .closes =>
    if s.target.closed then some (s.withCall i (.closed s.clock))
    else some ({ s with target := { s.target with closed := true } }.withCall i .unregisters)
  | .unregisters =>
    if s.isFree then
      some ({ s with
        target := { s.target with hostStages := [] }
        forest := (s.target.cancel BuildTarget.closeReason s.forest).1
        host := s.host.unregisterAll s.target.hostStages }.withCall i (.closed s.clock))
    else none
  | .served | .returned _ | .cancelled _ _ | .closed _ => none

/-- What a build does next that has taken the flag: it plans anew if the project is not the one of the pipeline. -/
def afterFlag (s : Clients) (token : TokenId) (project : Project) : Service :=
  if s.target.invalidated || project ≠ s.target.project then .plans token s.clock else .ready token

/-- The next step of the call that is served. -/
def serve (s : Clients) (i : Nat) : Service → Clients
  | .admitted .build =>
    if s.target.closed then s.leave i (some .closed)
    else
      let (forest, token) := s.forest.create
      { s with forest }.withService i (.opened token)
  | .admitted .clean =>
    match s.target.cleanBody with
    | .error e => s.leave i (some e)
    | .ok _ => s.withService i .cleans
  | .opened token =>
    match Project.load s.target.projectFile s.tree with
    | .error e => s.leave i (some e)
    | .ok project => s.withService i (.loaded token project)
  | .loaded token project => s.withService i (.locked token project)
  | .locked token project =>
    { s with target := { s.target with invalidated := false } }.withService i (s.afterFlag token project)
  | .plans token began =>
    match BuildTarget.configure s.target.config s.target.projectFile s.target.services s.tree with
    | .error e => s.withService i (.refused e)
    | .ok next => s.withService i (.planned token ⟨began, s.tree⟩ next)
  | .refused e => { s with target := s.target.invalidate }.leave i (some e)
  | .planned token planning next =>
    let (target, host) := s.target.replan next s.host
    { s with target := { target with invalidated := s.target.invalidated }, host, planning }.withService
      i (.ready token)
  | .ready token =>
    let pipeline := s.target.pipeline.arm token
    let run := { token, pipeline, planning := s.planning, armed := s.clock }
    { s with target := { s.target with pipeline }, runs := s.runs ++ [run] }.withService i (.armed token)
  | .armed token =>
    { s with target := { s.target with pipeline := s.target.pipeline.arm token } }.withService i (.runs token)
  | .runs token =>
    let ended (r : TargetRun) := if r.token = token && r.ended.isNone then { r with ended := some s.clock } else r
    { s with target := s.target.finishRun, runs := s.runs.map ended }.leave i none
  | .cleans => s.leave i none

/-- Tokens that were tripped stay so, and none gets lost. -/
def keepsTokens (f g : Forest) : Bool :=
  f.tokens.length ≤ g.tokens.length &&
    (List.range f.tokens.length).all fun id => !f.isCancelled id || g.isCancelled id

/-- What an event changes, if it can happen. -/
def act (s : Clients) : Event → Option Clients
  | .call d => some { s with calls := s.calls ++ [d.call] }
  | .go i => s.calls[i]?.bind (s.proceed i)
  | .serve => s.served.map fun x => s.serve x.1 x.2
  | .elsewhere tree forest => if keepsTokens s.forest forest then some { s with tree, forest } else none

/-- The state a step later. -/
def tick (s : Clients) : Clients := { s with clock := s.clock + 1 }

/-- The state after an event, if it can happen. -/
def step (s : Clients) (e : Event) : Option Clients := (s.act e).map tick

/-- The state after events, if they can happen. -/
def follow (s : Clients) : List Event → Option Clients
  | [] => some s
  | e :: rest => (s.step e).bind fun u => u.follow rest

/-- A target that was just made, and nobody has called it. -/
def open? (c : TargetConfig) (file : Path) (v : TargetServices) (tree : FileTree) (host : HostGraph)
    (forest : Forest) : Except BuildError Clients := do
  let (target, host) ← BuildTarget.create c file v tree host
  return { target, host, forest, tree, planning := ⟨0, tree⟩ }

/-! ## Steps

  To show that something holds in all states it is enough to look at each kind of step. -/

variable {s s' u : Clients} {e : Event} {events more : List Event} {i : Nat} {token : TokenId}

/-- A target that was just made was planned on the files, and its stages are known to the host. -/
theorem exists_of_open {c : TargetConfig} {file : Path} {v : TargetServices} {tree : FileTree} {host : HostGraph}
    {forest : Forest} (h : open? c file v tree host forest = .ok s) :
    ∃ next, BuildTarget.configure c file v tree = .ok next ∧
      s = { target := (next.registered host).1, host := (next.registered host).2, forest, tree, planning := ⟨0, tree⟩ } := by
  obtain ⟨made, hcreate, hs⟩ := exists_of_bind_eq_ok h
  obtain ⟨next, hnext, htarget⟩ := exists_of_bind_eq_ok hcreate
  cases htarget
  cases hs
  exact ⟨next, hnext, rfl⟩

/-- A history is a step and a history after it. -/
theorem follow_cons : s.follow (e :: events) = some s' ↔ ∃ u, s.step e = some u ∧ u.follow events = some s' :=
  Option.bind_eq_some_iff

/-- Behind the flag there is planning, or the pipeline is current. -/
theorem afterFlag_cases (s : Clients) (token : TokenId) (project : Project) :
    s.afterFlag token project = .plans token s.clock ∨ s.afterFlag token project = .ready token := by
  rw [afterFlag]
  split
  · exact Or.inl rfl
  · exact Or.inr rfl

/-- A property that every kind of step keeps is kept by all steps. -/
theorem holds_of_step {P : Clients → Prop} (h : s.step e = some s')
    (hcall : ∀ d : Demand, P { s with calls := s.calls ++ [d.call] }.tick)
    (hproceed : ∀ {i c u}, s.calls[i]? = some c → s.proceed i c = some u → P u.tick)
    (hserve : ∀ {i v}, s.served = some (i, v) → P (s.serve i v).tick)
    (helsewhere : ∀ tree forest, keepsTokens s.forest forest = true → P { s with tree, forest }.tick) : P s' := by
  obtain ⟨u, hu, rfl⟩ := Option.map_eq_some_iff.mp h
  cases e with
  | call d =>
    cases hu
    exact hcall d
  | go i =>
    obtain ⟨c, hc, hp⟩ := Option.bind_eq_some_iff.mp hu
    exact hproceed hc hp
  | serve =>
    obtain ⟨⟨i, v⟩, hserved, hv⟩ := Option.map_eq_some_iff.mp hu
    cases hv
    exact hserve hserved
  | elsewhere tree forest =>
    rw [act] at hu
    split at hu
    · rename_i hkeeps
      cases hu
      exact helsewhere tree forest hkeeps
    · cases hu

/-- What holds at the start and is kept by every step holds at the end. -/
theorem holds_of_follow {P : Clients → Prop} (hstep : ∀ {s s' : Clients} {e : Event}, P s → s.step e = some s' → P s')
    (hs : P s) (h : s.follow events = some s') : P s' := by
  induction events generalizing s with
  | nil =>
    cases h
    exact hs
  | cons e rest ih =>
    obtain ⟨u, hu, hrest⟩ := follow_cons.mp h
    exact ih (hstep hs hu) hrest

/-! ## Calls that nobody comes between

  If no other call comes between, the steps of a build are together what the program does in one function.  So the
  machine is no other program but the same one in smaller steps. -/

/-- The served call goes on, and no other does anything. -/
inductive Serves : Clients → Clients → Prop
  /-- Nothing happens. -/
  | stays (s : Clients) : Serves s s
  /-- The call goes on once more. -/
  | goesOn {s s' : Clients} {i : Nat} {v : Service} (h : s.served = some (i, v))
      (hrest : Serves (s.serve i v).tick s') : Serves s s'

/-- A call that is served can go on. -/
theorem step_serve {v : Service} (h : s.served = some (i, v)) : s.step .serve = some (s.serve i v).tick := by
  rw [step, act, h]
  rfl

/-- These are steps of the machine. -/
theorem Serves.follow (h : Serves s s') : ∃ n, s.follow (List.replicate n .serve) = some s' := by
  induction h with
  | stays s => exact ⟨0, rfl⟩
  | @goesOn s s' i v hserved _ ih =>
    obtain ⟨n, hn⟩ := ih
    exact ⟨n + 1, follow_cons.mpr ⟨_, step_serve hserved, hn⟩⟩

/-- How a build has got its run ready: a run is armed, or the call has returned. -/
def Prepared (s : Clients) (i : Nat) (token : TokenId) : Option BuildError → Prop
  | none => s.served = some (i, .armed token)
  | some e => s.served = none ∧ s.calls[i]? = some (.returned (some e))

/-- A step whose end is known comes first. -/
theorem Serves.next {v : Service} (h : s.served = some (i, v)) (hu : (s.serve i v).tick = u) (hrest : Serves u s') :
    Serves s s' := .goesOn h (hu ▸ hrest)

/-- **Steps in a row get a run ready as one step does.** -/
theorem serves_prepareRun (h : s.served = some (i, .opened token)) (hi : i < s.calls.length) :
    ∃ s', Serves s s' ∧ s'.target = (s.target.prepareRun token s.tree s.host).1 ∧
      s'.host = (s.target.prepareRun token s.tree s.host).2.1 ∧
      s'.Prepared i token (s.target.prepareRun token s.tree s.host).2.2 := by
  have hreturn (e : BuildError) : (s.calls.set i (.returned (some e)))[i]? = some (.returned (some e)) :=
    List.getElem?_set_self hi
  rw [BuildTarget.prepareRun]
  cases hload : Project.load s.target.projectFile s.tree with
  | error e =>
    refine ⟨(s.leave i (some e)).tick, .next h ?_ (.stays _), rfl, rfl, rfl, hreturn e⟩
    rw [serve, hload]
  | ok project =>
    -- the project is read, then the state lock is taken
    let s₁ := (s.withService i (.loaded token project)).tick
    let s₂ := (s₁.withService i (.locked token project)).tick
    have h₁ : (s.serve i (.opened token)).tick = s₁ := by rw [serve, hload]
    have hlocked {s'} (hs' : Serves s₂ s') : Serves s s' := .next h h₁ (.next rfl rfl hs')
    let unset : BuildTarget := { s.target with invalidated := false }
    dsimp only
    split
    · rename_i hstale
      let s₃ := ({ s₂ with target := unset }.withService i (.plans token s₂.clock)).tick
      have h₃ : (s₂.serve i (.locked token project)).tick = s₃ :=
        congrArg (fun v => ({ s₂ with target := unset }.withService i v).tick) (if_pos hstale)
      have hplans : s₃.serve i (.plans token s₂.clock) =
          match BuildTarget.configure s.target.config s.target.projectFile s.target.services s.tree with
          | .error e => s₃.withService i (.refused e)
          | .ok next => s₃.withService i (.planned token ⟨s₂.clock, s₃.tree⟩ next) := rfl
      cases hconfigure : BuildTarget.configure s.target.config s.target.projectFile s.target.services s.tree with
      | error e =>
        let s₄ := (s₃.withService i (.refused e)).tick
        have h₄ : (s₃.serve i (.plans token s₂.clock)).tick = s₄ := by
          rw [hplans, hconfigure]
        refine ⟨_, hlocked (.next rfl h₃ (.next rfl h₄ (.next rfl rfl (.stays _)))), rfl, rfl, rfl, hreturn e⟩
      | ok next =>
        let s₄ := (s₃.withService i (.planned token ⟨s₂.clock, s₃.tree⟩ next)).tick
        have h₄ : (s₃.serve i (.plans token s₂.clock)).tick = s₄ := by
          rw [hplans, hconfigure]
        refine ⟨_, hlocked (.next rfl h₃ (.next rfl h₄ (.next rfl rfl (.next rfl rfl (.stays _))))), ?_, rfl, rfl⟩
        have hflag : (s.target.replan next s.host).1.invalidated = false :=
          (configured_of_configure hconfigure).invalidated
        dsimp only
        rw [hflag]
        rfl
    · rename_i hfresh
      have hflag : s.target.invalidated = false := by
        rw [Bool.or_eq_true, not_or, Bool.not_eq_true] at hfresh
        exact hfresh.1
      let s₃ := ({ s₂ with target := unset }.withService i (.ready token)).tick
      have h₃ : (s₂.serve i (.locked token project)).tick = s₃ :=
        congrArg (fun v => ({ s₂ with target := unset }.withService i v).tick) (if_neg hfresh)
      refine ⟨_, hlocked (.next rfl h₃ (.next rfl rfl (.stays _))), ?_, rfl, rfl⟩
      rw [hflag]
      rfl

/-- An invalidation in a row of two steps. -/
theorem follow_invalidate {reason : String} (h : s.calls[i]? = some (.invalidates reason)) (hfree : s.isFree = true) :
    ∃ s', s.follow [.go i, .go i] = some s' ∧ s'.target = s.target.invalidate ∧
      s'.forest = (s.target.invalidate.cancel reason s.forest).1 := by
  obtain ⟨hi, -⟩ := List.getElem?_eq_some_iff.mp h
  let u := ({ s with target := s.target.invalidate }.withCall i (.cancels reason (some s.clock))).tick
  have hu : s.step (.go i) = some u := by
    rw [step, act, h]
    rfl
  have hcall : u.calls[i]? = some (.cancels reason (some s.clock)) := List.getElem?_set_self hi
  have hs' : u.step (.go i) = some ({ u with forest := (u.target.cancel reason u.forest).1 }.withCall
      i (.cancelled (some s.clock) u.clock)).tick := by
    rw [step, act, hcall, Option.bind_some, proceed, if_pos (show u.isFree = true from hfree)]
    rfl
  exact ⟨_, follow_cons.mpr ⟨u, hu, follow_cons.mpr ⟨_, hs', rfl⟩⟩, rfl, rfl⟩

/-- Closing in a row of steps. -/
theorem follow_close (h : s.calls[i]? = some .closes) (hfree : s.isFree = true) :
    ∃ n s', s.follow (List.replicate n (.go i)) = some s' ∧
      (s'.target, s'.forest, s'.host) = s.target.close s.forest s.host := by
  obtain ⟨hi, -⟩ := List.getElem?_eq_some_iff.mp h
  rw [BuildTarget.close]
  -- either it was closed before, or the flag is set in one step and the stages are taken in the next
  by_cases hclosed : s.target.closed = true
  · have hs' : s.step (.go i) = some (s.withCall i (.closed s.clock)).tick := by
      rw [step, act, h, Option.bind_some, proceed, if_pos hclosed]
      rfl
    refine ⟨1, _, follow_cons.mpr ⟨_, hs', rfl⟩, ?_⟩
    rw [if_pos hclosed]
    rfl
  · let u := ({ s with target := { s.target with closed := true } }.withCall i .unregisters).tick
    have hu : s.step (.go i) = some u := by
      rw [step, act, h, Option.bind_some, proceed, if_neg hclosed]
      rfl
    have hcall : u.calls[i]? = some .unregisters := List.getElem?_set_self hi
    have hs' : u.step (.go i) = some ({ u with
        target := { u.target with hostStages := [] }
        forest := (u.target.cancel BuildTarget.closeReason u.forest).1
        host := u.host.unregisterAll u.target.hostStages }.withCall i (.closed u.clock)).tick := by
      rw [step, act, hcall, Option.bind_some, proceed, if_pos (show u.isFree = true from hfree)]
      rfl
    refine ⟨2, _, follow_cons.mpr ⟨u, hu, follow_cons.mpr ⟨_, hs', rfl⟩⟩, ?_⟩
    rw [if_neg hclosed]
    rfl

end Clients

end Wheelwright
