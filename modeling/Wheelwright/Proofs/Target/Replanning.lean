/-
  Replanning — what a build that gets no run leaves, and what a new plan does to the host's stages.

  **Specification** — a build that returns an error has started nothing and has changed nothing of the project, the
  pipeline and the host; at most it has asked for the next build to plan anew.  A build that plans anew takes every
  stage that the target holds from the host, each once, and then tells it of the stages of the new pipeline, of each
  after those that it names.  So the stages that the host was told of and not asked to forget are those that the
  target holds, whatever was called and edited.

  **The crux** — the host keeps all calls, and `standing?` reads them as books: nobody may be entered twice, and only
  who stands in them may be struck out.  One replan strikes out all, in the order of their entries, and enters the new
  ones under numbers that were never given; a plan names only what its order has before.
-/
import Wheelwright.Proofs.Plan.Verdict
import Wheelwright.Proofs.Target.Clients
import Wheelwright.Proofs.Target.Turns

namespace Wheelwright

/-! ## Plans in order

  A plan answers by numbers, and the host is told by names.  In the order of the plan every predecessor comes before
  its stage, so the host has heard of it. -/

namespace Plan

variable {p : Plan} {specs : List StageSpec} {spec : StageSpec} {name q : String}

/-- A name that is unique has the number of its stage. -/
theorem Describes.index?_eq (h : p.Describes specs) (hu : NamesUnique specs) {i : Nat} (hi : specs[i]? = some spec) :
    p.index? spec.name = some i := by
  rw [index?, h.names_eq, idxOf?_names hu]
  exact ⟨spec, hi, rfl⟩

/-- The plan names of a stage what its declaration names. -/
theorem Describes.mem_predecessorNames (h : p.Describes specs) (hu : NamesUnique specs)
    (hd : PredecessorsDeclared specs) (hspec : spec ∈ specs) :
    q ∈ p.predecessorNames spec.name ↔ q ∈ spec.predecessors := by
  obtain ⟨i, hi⟩ := List.mem_iff_getElem?.mp hspec
  -- the edges of the plan are those that the stages ask for
  have hedge (j : Nat) : j ∈ predsOf p.predecessors i ↔ Precedes specs j i := by
    rw [← h.edge_eq]
    rfl
  rw [predecessorNames, h.index?_eq hu hi, List.mem_map]
  constructor
  · rintro ⟨j, hj, rfl⟩
    obtain ⟨s, t, hs, ht, hname⟩ := (hedge j).mp hj
    obtain rfl := Option.some.inj (hi.symm.trans hs)
    rwa [h.nameOf_eq ht]
  · intro hq
    obtain ⟨t, ht, rfl⟩ := List.mem_map.mp (hd spec hspec q hq).2
    obtain ⟨j, hj⟩ := List.mem_iff_getElem?.mp ht
    exact ⟨j, (hedge j).mpr ⟨spec, t, hi, hj, hq⟩, h.nameOf_eq hj⟩

/-- What a stage names stands before it in the order. -/
theorem Describes.mem_before (h : p.Describes specs) (hu : NamesUnique specs) {before after : List String}
    (horder : p.orderedNames = before ++ name :: after) (hq : q ∈ p.predecessorNames name) : q ∈ before := by
  have hplace : p.orderedNames[before.length]? = some name := by rw [horder, List.getElem?_append_right (Nat.le_refl _),
    Nat.sub_self, List.getElem?_cons_zero]
  rw [orderedNames, List.getElem?_map, Option.map_eq_some_iff] at hplace
  obtain ⟨i, hi, rfl⟩ := hplace
  have hlt : i < specs.length := h.names_length ▸ h.mem_order.mp (List.mem_of_getElem? hi)
  have hspec := List.getElem?_eq_getElem hlt
  rw [h.nameOf_eq hspec, predecessorNames, h.index?_eq hu hspec] at hq
  obtain ⟨j, hj, rfl⟩ := List.mem_map.mp hq
  -- the order is greedy, so all predecessors are placed before
  have hearlier : j ∈ p.order.take before.length := (h.greedy _ i hi).1.2.2 j hj
  have hmem := List.mem_map_of_mem (f := p.nameOf) hearlier
  rwa [List.map_take, ← orderedNames, horder, List.take_left] at hmem

end Plan

/-! ## The books of a host

  The calls to a host as books that can be wrong: an entry may be made twice, or struck out when it is not there.  A
  replan never does either. -/

namespace HostGraph

variable {h : HostGraph} {p : Plan} {calls new : List HostCall} {ids held : List HostStageId}

/-- The calls that tell a host of the stages of a plan, under these numbers. -/
def registrations (p : Plan) (ids : List HostStageId) : List HostCall :=
  (p.orderedNames.zip ids).map fun x => .register x.1 (p.predecessorNames x.1) x.2

/-- To take stages from a host is to call for each. -/
theorem unregisterAll_eq (h : HostGraph) (ids : List HostStageId) :
    h.unregisterAll ids = { h with calls := h.calls ++ ids.map .unregister } := by
  induction ids generalizing h with
  | nil => rw [List.map_nil, List.append_nil]; rfl
  | cons id rest ih =>
    refine (ih (h.unregister id)).trans ?_
    rw [unregister, List.map_cons, List.append_assoc, List.singleton_append]

/-- The numbers that a host gives next. -/
def nextIds (h : HostGraph) (p : Plan) : List HostStageId := List.range' h.next p.orderedNames.length

/-- To give stages to a host is to call for each, with the numbers that come next. -/
theorem registerAll_eq (h : HostGraph) (p : Plan) :
    h.registerAll p = ({ next := h.next + p.orderedNames.length, calls := h.calls ++ registrations p (h.nextIds p) },
      h.nextIds p) := by
  -- over the names that are left, with the numbers given so far
  have hall (names : List String) (g : HostGraph) (ids : List HostStageId) :
      names.foldl (fun (x : HostGraph × List HostStageId) name =>
        let y := x.1.register name (p.predecessorNames name)
        (y.1, x.2 ++ [y.2])) (g, ids) =
      ({ next := g.next + names.length
         calls := g.calls ++ (names.zip (List.range' g.next names.length)).map fun x =>
          .register x.1 (p.predecessorNames x.1) x.2 }, ids ++ List.range' g.next names.length) := by
    induction names generalizing g ids with
    | nil => simp
    | cons name rest ih =>
      rw [List.foldl_cons, ih, List.length_cons, List.range'_succ, List.zip_cons_cons, List.map_cons]
      simp only [register, List.append_assoc, List.singleton_append, Nat.add_assoc, Nat.add_comm 1]
  exact hall p.orderedNames h []

/-- Who stands in the books after a call: nobody is entered twice, and only who stands there is struck out. -/
def book? (ids : List HostStageId) : HostCall → Option (List HostStageId)
  | .register _ _ id => if id ∈ ids then none else some (ids ++ [id])
  | .unregister id => if id ∈ ids then some (ids.erase id) else none

/-- Who stands in the books after some calls. -/
def standing? (calls : List HostCall) : Option (List HostStageId) := calls.foldlM book? []

/-- More calls are booked behind those before. -/
theorem standing?_append : standing? (calls ++ new) = (standing? calls).bind fun ids => new.foldlM book? ids :=
  List.foldlM_append

/-- Nobody stands in the books twice. -/
theorem nodup_of_standing? (h : standing? calls = some ids) : ids.Nodup := by
  -- from any stages on: whoever is entered was not there
  have hall (calls : List HostCall) : ∀ held ids : List HostStageId, held.Nodup → calls.foldlM book? held = some ids →
      ids.Nodup := by
    induction calls with
    | nil =>
      intro held ids hheld h
      exact Option.some.inj h ▸ hheld
    | cons call rest ih =>
      intro held ids hheld h
      rw [List.foldlM_cons] at h
      obtain ⟨next, hnext, hrest⟩ := Option.bind_eq_some_iff.mp h
      refine ih next ids ?_ hrest
      cases call with
      | register stage preds id =>
        rw [book?] at hnext
        split at hnext
        · cases hnext
        · rename_i hnew
          cases hnext
          exact List.nodup_append_comm.mpr (List.nodup_cons.mpr ⟨hnew, hheld⟩)
      | unregister id =>
        rw [book?] at hnext
        split at hnext
        · cases hnext
          exact hheld.erase id
        · cases hnext
  exact hall calls [] ids List.nodup_nil h

/-- Everybody who stands in the books can be struck out. -/
theorem book_unregister (ids : List HostStageId) : (ids.map HostCall.unregister).foldlM book? ids = some [] := by
  induction ids with
  | nil => rfl
  | cons id rest ih =>
    rw [List.map_cons, List.foldlM_cons, book?, if_pos List.mem_cons_self, List.erase_cons_head]
    exact ih

/-- Under numbers that nobody has, all stages of a plan can be entered. -/
theorem book_registrations (p : Plan) (first : HostStageId) :
    (registrations p (List.range' first p.orderedNames.length)).foldlM book? [] =
      some (List.range' first p.orderedNames.length) := by
  -- on the names, with the ids that are held already
  have hall (names : List String) (first : HostStageId) (held : List HostStageId) (hheld : ∀ id ∈ held, id < first) :
      ((names.zip (List.range' first names.length)).map fun x =>
        HostCall.register x.1 (p.predecessorNames x.1) x.2).foldlM book? held =
          some (held ++ List.range' first names.length) := by
    induction names generalizing first held with
    | nil => simp
    | cons name rest ih =>
      rw [List.length_cons, List.range'_succ, List.zip_cons_cons, List.map_cons, List.foldlM_cons, book?,
        if_neg fun hmem => Nat.lt_irrefl _ (hheld first hmem)]
      refine (ih (first + 1) (held ++ [first]) fun id hid => ?_).trans ?_
      · rcases List.mem_append.mp hid with hold | hnew
        · exact Nat.lt_succ_of_lt (hheld id hold)
        · exact List.mem_singleton.mp hnew ▸ Nat.lt_succ_self first
      · rw [List.append_assoc, List.singleton_append]
  exact hall p.orderedNames first [] fun id hid => absurd hid List.not_mem_nil

/-- **A replan turns the page**: who stood there is struck out, and the new stages are entered. -/
theorem standing?_replan (h : standing? calls = some held) (p : Plan) (g : HostGraph) :
    standing? (calls ++ (held.map .unregister ++ registrations p (g.nextIds p))) = some (g.nextIds p) := by
  rw [standing?_append, h, Option.bind_some, List.foldlM_append, book_unregister]
  exact book_registrations p g.next

/-- The calls tell a host of the stages of a pipeline under these numbers: of each once, with the predecessors that
    it names, and after all of them. -/
structure Introduces (calls : List HostCall) (p : Pipeline) (ids : List HostStageId) : Prop where
  /-- The calls are those for these stages under these numbers. -/
  calls_eq : calls = registrations p.plan ids
  /-- There are as many numbers as stages. -/
  length : ids.length = p.specs.length
  /-- Every stage is among them once. -/
  stages : p.plan.orderedNames.Perm (p.specs.map (·.name))
  /-- With each go the predecessors that it names. -/
  predecessors : ∀ spec ∈ p.specs, ∀ q, q ∈ p.plan.predecessorNames spec.name ↔ q ∈ spec.predecessors
  /-- These were entered before. -/
  ordered : ∀ before stage predecessors id after, calls = before ++ .register stage predecessors id :: after →
    ∀ q ∈ predecessors, ∃ more other, .register q more other ∈ before

/-- **A planned pipeline is introduced in order.** -/
theorem introduces_registrations {p : Pipeline} (hplan : plan p.specs = .ok p.plan) (h : HostGraph) :
    Introduces (registrations p.plan (h.nextIds p.plan)) p (h.nextIds p.plan) := by
  obtain ⟨hdescribes, hu, hd, -, -⟩ := describes_of_plan hplan
  have hperm := hdescribes.orderedNames_perm
  refine ⟨rfl, ?_, hperm, fun spec hspec q => hdescribes.mem_predecessorNames hu hd hspec, ?_⟩
  · rw [nextIds, List.length_range', hperm.length_eq, List.length_map]
  -- the ids are given in the order of the plan, in which predecessors stand before their stages
  · intro before stage predecessors id after hcalls q hq
    obtain ⟨front, back, hzip, rfl, hback⟩ := List.map_eq_append_iff.mp hcalls
    obtain ⟨x, rest, rfl, hx, -⟩ := List.map_eq_cons_iff.mp hback
    obtain ⟨rfl, rfl, -⟩ := HostCall.register.inj hx
    have hnames : p.plan.orderedNames = front.map Prod.fst ++ x.1 :: rest.map Prod.fst := by
      have hfst : (p.plan.orderedNames.zip (h.nextIds p.plan)).map Prod.fst = p.plan.orderedNames :=
        List.map_fst_zip (Nat.le_of_eq List.length_range'.symm)
      rw [hzip, List.map_append, List.map_cons] at hfst
      exact hfst.symm
    obtain ⟨y, hy, rfl⟩ := List.mem_map.mp (hdescribes.mem_before hu hnames hq)
    exact ⟨_, y.2, List.mem_map_of_mem (f := fun x => HostCall.register x.1 (p.plan.predecessorNames x.1) x.2) hy⟩

end HostGraph

/-! ## Plans of a target

  What a build that plans anew does to the host, read off its program. -/

namespace BuildTarget

variable {c : TargetConfig} {file : Path} {v : TargetServices} {tree : FileTree} {t next : BuildTarget}

/-- The pipeline of a configured target was planned. -/
theorem plan_of_configure (h : configure c file v tree = .ok next) :
    plan next.pipeline.specs = .ok next.pipeline.plan := by
  obtain ⟨_, _, _, _, -, -, -, hplan, rfl⟩ := exists_of_configure h
  exact hplan

/-- It is planned for the project in the files. -/
theorem load_of_configure (h : configure c file v tree = .ok next) : Project.load file tree = .ok next.project := by
  obtain ⟨_, _, _, _, hload, -, -, -, rfl⟩ := exists_of_configure h
  exact hload

/-- A target that was registered has the next numbers. -/
theorem registered_eq (t : BuildTarget) (h : HostGraph) : t.registered h =
    ({ t with hostStages := h.nextIds t.pipeline.plan },
      { next := h.next + t.pipeline.plan.orderedNames.length
        calls := h.calls ++ HostGraph.registrations t.pipeline.plan (h.nextIds t.pipeline.plan) }) := by
  rw [registered, HostGraph.registerAll_eq]

/-- A replan takes the old stages and gives the new ones. -/
theorem replan_eq (t next : BuildTarget) (h : HostGraph) : t.replan next h =
    ({ next with closed := t.closed, hostStages := h.nextIds next.pipeline.plan },
      { next := h.next + next.pipeline.plan.orderedNames.length
        calls := h.calls ++ (t.hostStages.map .unregister ++
          HostGraph.registrations next.pipeline.plan (h.nextIds next.pipeline.plan)) }) := by
  rw [replan, registered_eq, HostGraph.unregisterAll_eq]
  dsimp only
  rw [List.append_assoc]
  rfl

end BuildTarget

/-! ## Turns of a session

  A turn is a build, a clean or something that leaves the host alone.  Of builds there are two kinds: those that fail
  and leave all as it was, and those whose run starts. -/

namespace TargetSession

open HostGraph (standing? Introduces)

variable {h : HostGraph} {s s' u : TargetSession} {t : BuildTarget} {e : Turn} {turns : List Turn}

/-- The host was told of the stages that the target holds, and asked to forget all others. -/
structure Books (h : HostGraph) (s : TargetSession) (t : BuildTarget) : Prop where
  /-- The session has this target. -/
  target : s.target = some t
  /-- Nobody waits. -/
  line : s.line = []
  /-- All calls since are booked, and the stages of the target are left. -/
  balanced : ∃ since, s.host.calls = h.calls ++ since ∧ standing? since = some t.hostStages

/-- A step of a run or of a clean, and what leaves the host alone. -/
theorem Books.keeps {t' : BuildTarget} (hb : Books h s t) (htarget : s'.target = some t') (hline : s'.line = [])
    (hhost : s'.host = s.host) (hstages : t'.hostStages = t.hostStages) : Books h s' t' :=
  ⟨htarget, hline, hhost ▸ hstages ▸ hb.balanced⟩

/-- **Every turn keeps the books balanced.** -/
theorem Books.takes (hb : Books h s t) (htakes : Takes s t e s') : ∃ t', Books h s' t' := by
  obtain ⟨htarget, hline, since, hcalls, hstanding⟩ := id hb
  -- only a new plan and closing call the host
  cases htakes with
  | refused | noClean | cleans | cancels | steps | cleaned | edits => exact ⟨t, hb.keeps htarget hline rfl rfl⟩
  | invalidates | built => exact ⟨_, hb.keeps rfl hline rfl rfl⟩
  | fails hserved hopen hprepares => cases hprepares <;> exact ⟨_, hb.keeps rfl hline rfl rfl⟩
  | starts hserved hopen hprepares =>
    cases hprepares with
    | kept => exact ⟨_, hb.keeps rfl hline rfl rfl⟩
    | @replanned project next hload hstale hconfigure =>
      refine ⟨_, rfl, hline, since ++ (t.hostStages.map .unregister ++
        HostGraph.registrations next.pipeline.plan (s.host.nextIds next.pipeline.plan)), ?_, ?_⟩
      · rw [← List.append_assoc, ← hcalls, BuildTarget.replan_eq]
      · rw [HostGraph.standing?_replan hstanding, BuildTarget.replan_eq]
  | closes =>
    refine ⟨_, rfl, hline, ?_⟩
    rw [BuildTarget.close]
    split
    · exact ⟨since, hcalls, hstanding⟩
    · refine ⟨since ++ t.hostStages.map .unregister, ?_, ?_⟩
      · rw [← List.append_assoc, ← hcalls, HostGraph.unregisterAll_eq]
      · rw [HostGraph.standing?_append, hstanding]
        exact HostGraph.book_unregister t.hostStages

/-- The books are right after any turns. -/
theorem Books.takeTurns (hb : Books h s t) (hturns : s.takeTurns turns = some u) : ∃ t', Books h u t' :=
  exists_of_takeTurns (fun hb => ⟨hb.target, hb.line⟩) Books.takes hb hturns

/-- A new target's stages are entered. -/
theorem books_of_create {c : TargetConfig} {file : Path} {v : TargetServices} {tree : FileTree}
    (hcreate : BuildTarget.create c file v tree h = .ok (t, s.host)) (htarget : s.target = some t)
    (hline : s.line = []) : Books h s t := by
  obtain ⟨next, -, hnext⟩ := exists_of_bind_eq_ok hcreate
  rw [BuildTarget.registered_eq] at hnext
  obtain ⟨rfl, hhost⟩ := Prod.mk.inj (Except.ok.inj hnext)
  refine ⟨htarget, hline, HostGraph.registrations next.pipeline.plan (h.nextIds next.pipeline.plan), ?_, ?_⟩
  · rw [← hhost]
  · exact HostGraph.book_registrations next.pipeline.plan h.next

/-- A build that returns an error: another token, perhaps an invalidation, and the answer are all that is new. -/
def FailsIdly (u : TargetSession) (t : BuildTarget) (n : Nat) (u' : TargetSession) : Prop :=
  ∃ error flag tokens, (t.invalidated = true → flag = true) ∧
    u' = { u with
      target := some { t with invalidated := flag }, world := { u.world with tokens }
      answers := u.answers ++ [(n, .failed error)] }

/-- A build whose run is ready: the target is planned from the project as it stands in the files, and if it was planned
    anew, all stages that it held were taken from the host and those of its pipeline given to it. -/
structure Starts (u : TargetSession) (t : BuildTarget) (n : Nat) (u' : TargetSession) (t' : BuildTarget) : Prop where
  /-- The session has the target. -/
  target : u'.target = some t'
  /-- The build is served, and not answered yet. -/
  served : u'.served = some (n, .build)
  answers : u'.answers = u.answers
  /-- The project is the one in the files. -/
  project : Project.load t.projectFile u.world.tree = .ok t'.project
  valid : t'.invalidated = false
  /-- The plan is a new one if the flag was set or the project has changed, and is kept otherwise. -/
  planned : if t.invalidated = true ∨ t'.project ≠ t.project then
      ∃ new, u'.host.calls = u.host.calls ++ (t.hostStages.map .unregister ++ new) ∧
        Introduces new t'.pipeline t'.hostStages
    else u'.host = u.host ∧ t' = { t with pipeline := t'.pipeline } ∧
      t'.pipeline = { t.pipeline with current := t'.pipeline.current }

/-- A build fails idly, or its run starts. -/
theorem build_cases {n : Nat} (htarget : s.target = some t) (htakes : Takes s t (.call n .build) s') :
    FailsIdly s t n s' ∨ ∃ t', Starts s t n s' t' := by
  cases htakes with
  | refused hserved hclosed => exact Or.inl ⟨_, t.invalidated, s.world.tokens, id, by rw [← htarget]⟩
  | fails hserved hopen hprepares =>
    cases hprepares with
    | unread hload => exact Or.inl ⟨_, t.invalidated, s.newToken.1.world.tokens, id, rfl⟩
    | unplanned hload hstale hconfigure => exact Or.inl ⟨_, true, s.newToken.1.world.tokens, fun _ => rfl, rfl⟩
  | starts hserved hopen hprepares =>
    -- either the pipeline is kept, or the project is planned anew
    cases hprepares with
    | kept hload hvalid =>
      refine Or.inr ⟨_, rfl, rfl, rfl, hload, hvalid, ?_⟩
      rw [if_neg (by simp [hvalid])]
      exact ⟨rfl, rfl, rfl⟩
    | @replanned project next hload hstale hconfigure =>
      have hproject : next.project = project := Except.ok.inj ((BuildTarget.load_of_configure hconfigure).symm.trans hload)
      refine Or.inr ⟨_, rfl, rfl, rfl, hproject ▸ hload, (configured_of_configure hconfigure).invalidated, ?_⟩
      rw [if_pos (by rw [BuildTarget.replan_eq]; exact hproject ▸ hstale)]
      rw [BuildTarget.replan_eq]
      exact ⟨_, rfl, HostGraph.introduces_registrations (p := next.pipeline.arm s.newToken.2)
        (BuildTarget.plan_of_configure hconfigure) s.host⟩

/-- **Builds that fail leave everything as it was, and the books of the host are always balanced.**  After any calls,
    each completed before the next, and any edits: the host knows exactly the stages that the target holds, each once;
    a build either fails idly or starts a run, which takes the stages of an outdated pipeline from the host and
    gives it those of the new one in order; and a build whose run has started returns its outcome. -/
theorem builds_balance_books {c : TargetConfig} {file : Path} {v : TargetServices} {tree : FileTree} {t₀ : BuildTarget}
    (hcreate : BuildTarget.create c file v tree h = .ok (t₀, s.host)) (htarget : s.target = some t₀)
    (hline : s.line = []) (hturns : s.takeTurns turns = some u) :
    ∃ t since, u.target = some t ∧ u.host.calls = h.calls ++ since ∧ standing? since = some t.hostStages ∧
      t.hostStages.Nodup ∧
      (∀ n u', u.takeTurn (.call n .build) = some u' → FailsIdly u t n u' ∨ ∃ t', Starts u t n u' t') ∧
      ∀ n e u', u.served = some (n, .build) → u.takeTurn e = some u' →
        u'.answers = u.answers ∨ ∃ o, u'.answers = u.answers ++ [(n, .outcome o)] := by
  obtain ⟨t, hbooks⟩ := (books_of_create hcreate htarget hline).takeTurns hturns
  obtain ⟨since, hcalls, hstanding⟩ := hbooks.balanced
  refine ⟨t, since, hbooks.target, hcalls, hstanding, HostGraph.nodup_of_standing? hstanding, ?_, ?_⟩
  · intro n u' hturn
    exact build_cases hbooks.target (takes_of_takeTurn hbooks.target hbooks.line hturn)
  · intro n e u' hserved hturn
    cases takes_of_takeTurn hbooks.target hbooks.line hturn with
    -- while a build is served, no other call is let in
    | refused hnone | fails hnone | starts hnone | noClean hnone | cleans hnone =>
      rw [hserved] at hnone
      cases hnone
    | invalidates | cancels | closes | steps | edits => exact Or.inl rfl
    | built hstep hbuild ho =>
      rw [hserved] at hbuild
      cases hbuild
      exact Or.inr ⟨_, rfl⟩
    | cleaned hstep hclean hr =>
      rw [hserved] at hclean
      cases hclean

/-! ## A project edited between builds

  A session with a project file that is missing, then wrong, then right. -/

/-- A project that is built by this backend. -/
def builtBy (backend : String) : FileTree where
  entries := [(["pyproject.toml"],
    .file (Utf8.encode ("[build-system]\nbuild-backend = \"" ++ backend ++ "\"\n")) .plain)]

/-- A new target of a project, with the store of number zero. -/
def newTarget : Except BuildError (BuildTarget × HostGraph) :=
  BuildTarget.create { projectFile := ⟨"/pyproject.toml"⟩ } ⟨"/pyproject.toml"⟩ ⟨.standard, .standard, 0⟩
    (builtBy "pdm.backend") {}

/-- The session of the target, with that store. -/
def opened (store : FingerprintStore) (t : BuildTarget × HostGraph) : TargetSession where
  target := some t.1
  host := t.2
  world := { tree := builtBy "pdm.backend", today := ⟨0, 0, 0⟩, stores := [store] }

/-- The session after these turns on a new target. -/
def reached (store : FingerprintStore) (turns : List Turn) : Option TargetSession :=
  newTarget.toOption.bind fun t => (opened store t).takeTurns turns

/-- The session after turns is reached from a new target. -/
theorem exists_of_reached {store : FingerprintStore} (h : reached store turns = some u) :
    ∃ t, newTarget = .ok t ∧ (opened store t).takeTurns turns = some u := by
  obtain ⟨t, ht, hturns⟩ := Option.bind_eq_some_iff.mp h
  exact ⟨t, eq_ok_of_toOption ht, hturns⟩

/-- A build without a project file, one with an unknown backend, and one with another backend than at first. -/
def edited : List Turn :=
  [.edit {}, .call 0 .build, .edit (builtBy "maker"), .call 1 .build, .edit (builtBy "flit_core.buildapi"),
    .call 2 .build]

/-- In this session the host was called for the second plan as well. -/
theorem calls_edited : (reached {} edited).map (fun u => (u.answers.map (·.1), u.host.calls)) = some ([0, 1],
    [.register "prepare" [] 0, .register "build" ["prepare"] 1, .register "install" ["build"] 2,
      .unregister 0, .unregister 1, .unregister 2,
      .register "prepare" [] 3, .register "build" ["prepare"] 4, .register "install" ["build"] 5]) := by
  decide +kernel

/-- Here the books are right after two builds and an edit. -/
theorem builds_balance_books_edited : ∃ t₀ u t, newTarget = .ok t₀ ∧
    (opened {} t₀).takeTurns edited = some u ∧ u.answers.map (·.1) = [0, 1] ∧
    u.target = some t ∧ t.hostStages = [3, 4, 5] ∧ t.hostStages.Nodup := by
  obtain ⟨u, hreached, hseen⟩ := Option.map_eq_some_iff.mp calls_edited
  obtain ⟨hanswers, hcalls⟩ := Prod.mk.inj hseen
  obtain ⟨t₀, hnew, hturns⟩ := exists_of_reached hreached
  obtain ⟨t, since, ht, hsince, hstanding, hnodup, -⟩ :=
    builds_balance_books (s := opened {} t₀) hnew rfl rfl hturns
  refine ⟨t₀, u, t, hnew, hturns, hanswers, ht, ?_, hnodup⟩
  -- the host was new, so all its calls are the target's
  rw [List.nil_append] at hsince
  rw [← hsince, hcalls] at hstanding
  exact (Option.some.inj hstanding).symm

end TargetSession

end Wheelwright
