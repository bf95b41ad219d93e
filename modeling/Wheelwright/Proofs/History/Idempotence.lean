/-
  Idempotence — when inputs stay the same, a success is the last thing that a command does.

  **Specification** — inputs come to the same fingerprints throughout, every success is recorded, and nothing
  is forgotten (`Act.Steady`).  Then a command exits with status zero once at most; before that it may be
  launched in any number of runs, and after that it is skipped in every run that starts it.

  **The crux** — `Lawful.stale_first`: a stage that has succeeded once is never stale again.  Its record
  agrees, so a predecessor must have done its work in this run; but that predecessor had succeeded before the
  stage did, and was stale in this run before the stage was.  So it is the same of an earlier act.
-/
import Wheelwright.Proofs.History.Freshness

namespace Wheelwright.History

variable {S : Setting} {log pre post : List Act} {w w₀ w' : Rehearsal} {run : PipelineRun} {i j : Nat}
  {s : BackendStage} {c : StalenessCheck} {f : String} {a : Act} {F : Nat → String}

/-! ## Steady histories

  In a steady history the fingerprint of a stage never changes and no record is lost.  So whatever has been saved
  under its key is what the stage finds. -/

/-- The inputs of each stage come to what `F` says, a success is recorded, and nothing is forgotten. -/
def Act.Steady (F : Nat → String) : Act → Prop
  | .stale i f | .skips i f => f = F i
  | .unreadable _ | .forgets _ _ => False
  | .ends _ outcome saved => outcome = .exited (some 0) → saved = true
  | .begins | .closes _ | .stops _ | .loads _ | .unlaunched _ | .launches _ => True

/-- A stage with a record of its own writes down what it found. -/
theorem found_of_owns {s' : BackendStage} {fingerprint : Option String} (howns : S.Owns i s c)
    (hs : S.bodies[i]? = some (.backend s')) (hf : fingerprint.isSome = s'.staleness.isSome) :
    ∃ f, found i fingerprint = [.loads i, .stale i f] := by
  obtain rfl : s = s' := StageBody.backend.inj (Option.some.inj (howns.body.symm.trans hs))
  rw [howns.check] at hf
  obtain ⟨f, rfl⟩ := Option.isSome_iff_exists.mp hf
  exact ⟨f, rfl⟩

/-- A command was found stale before it is launched, or could not be. -/
theorem Law.before_launch (h : Law S pre a) (hall : S.AllOwn) (ha : a = .launches i ∨ a = .unlaunched i) :
    ∃ s c f, S.Owns i s c ∧ diary i (thisRun pre) = [.loads i, .stale i f] := by
  -- a launch and a stage that cannot be launched come after the same diary
  obtain ⟨s, fingerprint, hs, hf, hdiary⟩ : ∃ (s : BackendStage) (fingerprint : Option String),
      S.bodies[i]? = some (.backend s) ∧ fingerprint.isSome = s.staleness.isSome ∧
        diary i (thisRun pre) = found i fingerprint := by
    rcases ha with rfl | rfl
    · cases h with
      | launches _ hs hf hdiary => exact ⟨_, _, hs, hf, hdiary⟩
    · cases h with
      | unlaunched _ hs hf hdiary => exact ⟨_, _, hs, hf, hdiary⟩
  obtain ⟨s', c, howns⟩ := hall.of_body hs
  obtain ⟨f, hfound⟩ := found_of_owns howns hs hf
  exact ⟨s', c, f, howns, hdiary.trans hfound⟩

/-- A success that was recorded and not forgotten stands in the store. -/
theorem Lawful.latestSaved_of_mem (h : Lawful S log) (hsteady : ∀ a ∈ log, a.Steady F) (howns : S.Owns i s c)
    {saved : Bool} (hmem : .succeeds i saved ∈ log) : LatestSaved log i c (F i) := by
  -- on the log from its end: only a success that saved touches what is latest
  induction log using List.reverseRecOn with
  | nil => exact absurd hmem List.not_mem_nil
  | append_singleton log a ih =>
    have ha := hsteady a (List.mem_append_right _ (List.mem_singleton_self a))
    by_cases hsucc : a = .succeeds i true
    · subst hsucc
      rw [latestSaved_saves]
      cases h log _ [] rfl with
      -- the success ends a stage of this run, and the fingerprint it saved is the one it found stale
      | ends hready hs hf hdiary =>
        obtain ⟨f, hfound⟩ := found_of_owns howns hs hf
        rw [hdiary, hfound]
        have hmem : .stale i f ∈ diary i (thisRun log) := by
          rw [hdiary, hfound]
          simp
        rw [hsteady _ (List.mem_append_left _ (mem_of_mem_thisRun (mem_of_mem_diary hmem)))]
        rfl
    -- any other act is no forget, and the success lies before it
    · rw [latestSaved_keeps hsucc fun start heq => by subst heq; exact ha.elim]
      refine ih h.of_append (fun b hb => hsteady b (List.mem_append_left _ hb)) ?_
      refine (List.mem_append.mp hmem).resolve_right fun hlast => hsucc ?_
      obtain rfl := List.mem_singleton.mp hlast
      rw [ha rfl]

/-- Whatever is done in this run has exited with status zero at some time. -/
theorem Lawful.succeeds_of_done (h : Lawful S log) (howns : S.Owns i s c) (hdone : Done (thisRun log) i) :
    ∃ saved, .succeeds i saved ∈ log := by
  rcases hdone with ⟨f, hskip⟩ | ⟨saved, hsucc⟩
  · obtain ⟨pre, post, hlog, -, -⟩ := exists_of_mem_thisRun hskip
    cases h pre _ post hlog with
    | skips hready hloads hidle hsaved =>
      obtain ⟨early, late, hpre, before, after, hearly, -⟩ := (hsaved s c howns).exists_latestSaved
      exact ⟨true, by rw [hlog, hpre, hearly]; simp⟩
  · exact ⟨saved, mem_of_mem_thisRun hsucc⟩

/-- A command that ended was found stale in this run. -/
theorem Lawful.stale_of_ends {outcome : ExitOutcome} {saved : Bool} (h : Lawful S log) (howns : S.Owns i s c)
    (hlog : log = pre ++ .ends i outcome saved :: post) : ∃ f, .stale i f ∈ thisRun pre := by
  cases h pre _ post hlog with
  | ends _ hs hf hdiary =>
    obtain ⟨f, hfound⟩ := found_of_owns howns hs hf
    refine ⟨f, mem_of_mem_diary (i := i) ?_⟩
    rw [hdiary, hfound]
    simp

/-- What has succeeded before this run is what a stage has loaded in it. -/
theorem Lawful.loaded_of_mem (h : Lawful S log) (hsteady : ∀ a ∈ log, a.Steady F) (howns : S.Owns i s c)
    (hloads : diary i (thisRun log) = [.loads i]) {saved : Bool} (hmem : .succeeds i saved ∈ log) :
    Loaded log i c (F i) := by
  obtain ⟨early, late, rfl, hrun, hothers⟩ := exists_of_diary_loads hloads
  refine ⟨early, late, rfl, hrun, fun hlate => hothers _ hlate rfl, ?_⟩
  have hearly : .succeeds i saved ∈ early := by
    rcases List.mem_append.mp hmem with hearly | hlate
    · exact hearly
    · exact absurd rfl (hothers _ ((List.mem_cons.mp hlate).resolve_left (by simp)))
  exact h.of_append.latestSaved_of_mem (fun a ha => hsteady a (List.mem_append_left _ ha)) howns hearly

/-! ## A success is the last thing

  By induction on the log: suppose that a stage is found stale after its success.  It was so because of a predecessor
  that did its work in this run, which is an earlier act of the same kind. -/

/-- What is not written in this run, nor before an act of it, is not written at all. -/
theorem notMem_of_split {before after : List Act} {b x : Act} (hpre : pre = before ++ b :: after)
    (hthis : thisRun pre = thisRun before ++ b :: after) (hbefore : x ∉ before) (hrun : x ∉ thisRun pre) :
    x ∉ pre := by
  rw [hpre, List.mem_append, not_or]
  rw [hthis, List.mem_append, not_or] at hrun
  exact ⟨hbefore, hrun.2⟩

section Steady

variable (hp : S.pipeline.plan.WellFormed) (hall : S.AllOwn) (h : Lawful S log)
  (hsteady : ∀ a ∈ log, a.Steady F)
include hp hall h hsteady

/-- **A stage that has succeeded is never stale again.** -/
theorem Lawful.stale_first (hlog : log = pre ++ .stale i f :: post) (saved : Bool) :
    .succeeds i saved ∉ pre := by
  -- on the length of what stands before the act
  induction hlen : pre.length using Nat.strongRecOn generalizing pre i f post saved with
  | ind n ih =>
    intro hmem
    have hpre : Lawful S pre := (hlog ▸ h).of_append
    have hpresteady : ∀ a ∈ pre, a.Steady F := fun a ha => hsteady a (hlog ▸ List.mem_append_left _ ha)
    have hf : f = F i := hsteady (.stale i f) (hlog ▸ List.mem_append_right _ List.mem_cons_self)
    -- when it succeeded its predecessors had succeeded
    obtain ⟨x, y, hx⟩ := List.append_of_mem hmem
    cases hpre x _ y hx with
    | ends hready hs _ _ =>
      obtain ⟨s, c, howns⟩ := hall.of_body hs
      cases h pre _ post hlog with
      | stale _ hloads hwhy =>
        -- one of them did its work in this run, and was stale in it
        obtain ⟨j, hj, hworked⟩ := hwhy s c howns (hf ▸ hpre.loaded_of_mem hpresteady howns hloads hmem)
        obtain ⟨s', c', hownsj⟩ := hall.owns j (hall.length ▸ hp.lt i j hj)
        obtain ⟨saved', hsucc⟩ := hworked s' hownsj.body
        obtain ⟨u, v, hu, hpreu, hthisu⟩ := exists_earlier hlog hsucc
        obtain ⟨f', hstale⟩ := h.stale_of_ends hownsj hu
        obtain ⟨u₁, u₂, hu₁, hueq, hthis₁⟩ := exists_earlier hu hstale
        have hfirst := fun saved => ih u₁.length (by rw [← hlen, hpreu, hueq]; simp) hu₁ saved rfl
        -- but it had succeeded before this run
        have hnot : .succeeds i saved ∉ thisRun pre := fun hthis => by
          have := mem_diary.mpr ⟨hthis, rfl⟩
          rw [hloads] at this
          simp at this
        have hsub : x <+: u₁ := prefix_of_notMem_thisRun hx
          (hpreu.trans (by rw [hueq, List.append_assoc, List.cons_append]))
          (hthisu.trans (by rw [hthis₁, List.append_assoc, List.cons_append])) hnot
        obtain ⟨saved'', hold⟩ := (hx ▸ hpre).of_append.succeeds_of_done hownsj (done_of_ready hp hall hready hj)
        exact hfirst saved'' (hsub.subset hold)

/-- **Only what has not yet succeeded is launched.** -/
theorem Lawful.launch_first (hlog : log = pre ++ a :: post) (ha : a = .launches i ∨ a = .unlaunched i)
    (saved : Bool) : .succeeds i saved ∉ pre := by
  obtain ⟨s, c, f, howns, hdiary⟩ := (h pre a post hlog).before_launch hall ha
  have hstale : .stale i f ∈ thisRun pre := mem_of_mem_diary (i := i) (by rw [hdiary]; simp)
  obtain ⟨before, after, hbefore, hpre, hthis⟩ := exists_earlier hlog hstale
  refine notMem_of_split hpre hthis (h.stale_first hp hall hsteady hbefore saved) fun hmem => ?_
  have := mem_diary.mpr ⟨hmem, rfl⟩
  rw [hdiary] at this
  simp at this

/-- **A command exits with status zero once at most.** -/
theorem Lawful.succeeds_once {saved : Bool} (hlog : log = pre ++ .succeeds i saved :: post) (saved' : Bool) :
    .succeeds i saved' ∉ pre := by
  cases h pre _ post hlog with
  | ends _ hs hf hdiary =>
    have hlaunch : .launches i ∈ thisRun pre := mem_of_mem_diary (i := i) (by rw [hdiary]; simp)
    obtain ⟨before, after, hbefore, hpre, hthis⟩ := exists_earlier hlog hlaunch
    refine notMem_of_split hpre hthis (h.launch_first hp hall hsteady hbefore (Or.inl rfl) saved')
      fun hmem => ?_
    exact (h pre _ post hlog).not_done rfl (Or.inr ⟨saved', hmem⟩)

/-- After a success nothing is launched any more. -/
theorem Lawful.not_launched_after {saved : Bool} (hlog : log = pre ++ post) (hmem : .succeeds i saved ∈ pre)
    (ha : a = .launches i ∨ a = .unlaunched i) : a ∉ post := by
  intro hpost
  obtain ⟨before, after, rfl⟩ := List.append_of_mem hpost
  exact h.launch_first hp hall hsteady (hlog.trans (List.append_assoc ..).symm) ha saved
    (List.mem_append_left _ hmem)

/-- After a run that succeeded nothing is launched at all. -/
theorem Lawful.not_launched_after_success (hlog : log = pre ++ .closes .succeeded :: post)
    (ha : a = .launches i ∨ a = .unlaunched i) : a ∉ post := by
  intro hpost
  -- it is a stage of the plan, so it was done in that run
  obtain ⟨s, c, howns⟩ : ∃ s c, S.Owns i s c := by
    obtain ⟨before, after, rfl⟩ := List.append_of_mem hpost
    rw [← List.cons_append, ← List.append_assoc] at hlog
    obtain ⟨s, c, f, howns, -⟩ := (h _ _ after hlog).before_launch hall ha
    exact ⟨s, c, howns⟩
  -- the run that closed with a success had every stage done
  have hdone : Done (thisRun pre) i := by
    cases h pre _ post hlog with
    | closes hall' =>
      have hlt := hall.length ▸ (List.getElem?_eq_some_iff.mp howns.body).1
      exact hall' rfl i hlt s howns.body
  obtain ⟨saved, hsucc⟩ := (hlog ▸ h).of_append.succeeds_of_done howns hdone
  exact h.not_launched_after hp hall hsteady hlog hsucc ha (List.mem_cons_of_mem _ hpost)

end Steady

/-- **A stage that has succeeded is skipped in later runs that start it.** -/
theorem Faithful.upToDate_of_success {acts : List Act} {saved : Bool} (h : Faithful S log w)
    (hp : S.pipeline.plan.WellFormed) (hall : S.AllOwn) (hsteady : ∀ a ∈ log, a.Steady F)
    (howns : S.Owns i s c) (hrun : w.run = some run) (hlog : log = pre ++ .begins :: acts)
    (hacts : .begins ∉ acts) (hmem : .succeeds i saved ∈ pre) (hstarted : run.HasStarted i)
    (hstops : .stops i ∉ acts) {r : StageResult} (hr : run.state.result? i = some r) : r = s.upToDate := by
  have hthis : thisRun log = acts := by
    rw [hlog, List.append_cons, thisRun_append_of_notMem hacts, thisRun_begins, List.nil_append]
  -- nothing launched since the success, so of the ways to come to an end only the skip is left
  have hnone : ∀ a, a = .launches i ∨ a = .unlaunched i → a ∉ acts := fun a ha hact =>
    h.lawful.not_launched_after hp hall hsteady hlog hmem ha (List.mem_cons_of_mem _ hact)
  have hcame := ((h.course run hrun).settled i r hstarted hr).came howns.body
  rw [hthis] at hcame
  refine hcame.eq_upToDate (fun hact => hstops (mem_of_mem_diary hact)) (fun hact => ?_)
    (fun hact => hnone _ (Or.inr rfl) (mem_of_mem_diary hact))
    (fun hact => hnone _ (Or.inl rfl) (mem_of_mem_diary hact))
  exact hsteady (.unreadable i) (hlog ▸ by simp [mem_of_mem_diary hact])

/-- A stage stops before it does anything only under a tripped token. -/
theorem Faithful.tripped_of_stops (h : Faithful S log w) (hm : Moves S w (some (.stops i)) w') :
    ∃ run, w.run = some run ∧ w.tokens.isCancelled run.token = true := by
  obtain ⟨n, t, hn, hi, ⟨phase, hp⟩ | ⟨ending, stores, hf⟩⟩ := hm.task_of_act rfl
  · cases hp
  · obtain ⟨run, hrun, hcourse⟩ := h.run_of_live hn hf.live
    have htoken := (hcourse.live_of_stage hn hf.live hi).token
    cases hf with
    | stops ht hs htrip reason => exact ⟨run, hrun, htoken ▸ htrip⟩

/-! ## The main result

  What is final about a success, as a structure, the theorem, and a history in which a second run goes on where the first one
  failed. -/

/-- What holds of a history `log` that led the stages `S` to `w`, when a success settles the matter for good. -/
structure Final (S : Setting) (log : List Act) (w : Rehearsal) : Prop where
  /-- A command exits with status zero once at most. -/
  once : ∀ i pre post saved saved', log = pre ++ .succeeds i saved :: post → .succeeds i saved' ∉ pre
  /-- Only a stage that has not yet done so is launched. -/
  launched : ∀ i a pre post saved, a = .launches i ∨ a = .unlaunched i → log = pre ++ a :: post →
    .succeeds i saved ∉ pre
  /-- Later runs that start the stage under a token that is not tripped skip it, with no diagnostics. -/
  skipped : ∀ i s c run pre acts saved, S.Owns i s c → w.run = some run → log = pre ++ .begins :: acts →
    .begins ∉ acts → .succeeds i saved ∈ pre → run.HasStarted i → .stops i ∉ acts →
    .launches i ∉ acts ∧ .unlaunched i ∉ acts ∧
    (run.outcome.isSome → (run.state.result? i).isSome) ∧
    ∀ r, run.state.result? i = some r → r = s.upToDate ∧ r.skipped = true ∧ r.diagnostics = []
  /-- A stage stops before it does anything only under a tripped token. -/
  stopped : ∀ i e w', S.happen? w e = some (some (.stops i), w') →
    ∃ run, w.run = some run ∧ w.tokens.isCancelled run.token = true
  /-- A skip leaves the stores as they are. -/
  unwritten : ∀ i f e w', S.happen? w e = some (some (.skips i f), w') → w'.stores = w.stores
  /-- After a run that succeeded nothing is launched. -/
  idle : ∀ pre post, log = pre ++ .closes .succeeded :: post → ∀ i, .launches i ∉ post ∧ .unlaunched i ∉ post

/-- **With inputs that stay the same, success is final**: what a command has done it need not do again, and no later
    run does it. -/
theorem success_is_final {events : List Event} (hplan : plan S.pipeline.specs = .ok S.pipeline.plan)
    (hall : S.AllOwn) (hw₀ : S.Unused w₀) (hw : S.follow w₀ events = some (log, w))
    (hsteady : ∀ a ∈ log, a.Steady F) : Final S log w := by
  have hp := (describes_of_plan hplan).1.toWellFormed
  have h : Faithful S log w := List.nil_append log ▸ (Faithful.start hw₀).follow hp hw
  -- each field is one of the laws above, read off the log or off the next step
  have hlaw := h.lawful
  constructor
  case once => exact fun i pre post saved saved' hlog => hlaw.succeeds_once hp hall hsteady hlog saved'
  case launched => exact fun i a pre post saved ha hlog => hlaw.launch_first hp hall hsteady hlog ha saved
  case skipped =>
    intro i s c run pre acts saved howns hrun hlog hacts hmem hstarted hstops
    refine ⟨fun hact => ?_, fun hact => ?_, fun ho => ?_, fun r hr => ?_⟩
    · exact hlaw.not_launched_after hp hall hsteady hlog hmem (Or.inl rfl) (List.mem_cons_of_mem _ hact)
    · exact hlaw.not_launched_after hp hall hsteady hlog hmem (Or.inr rfl) (List.mem_cons_of_mem _ hact)
    · exact (h.course run hrun).result_of_outcome ho
        (hall.length ▸ (List.getElem?_eq_some_iff.mp howns.body).1)
    · obtain rfl := h.upToDate_of_success hp hall hsteady howns hrun hlog hacts hmem hstarted hstops hr
      exact ⟨rfl, rfl, rfl⟩
  case stopped => exact fun i e w' he => h.tripped_of_stops (moves_of_happen h.regular he)
  case unwritten => exact fun i f e w' he => (moves_of_happen h.regular he).stores_eq (by simp) (by simp)
  case idle =>
    intro pre post hlog i
    exact ⟨hlaw.not_launched_after_success hp hall hsteady hlog (Or.inl rfl),
      hlaw.not_launched_after_success hp hall hsteady hlog (Or.inr rfl)⟩

/-- The second command fails at first.  The next run goes on with it, and after that there is nothing to do. -/
def resumed : List Event :=
  [.begin {} 0] ++ carriedOut 0 (.exited (some 0)) "A" ++ carriedOut 1 (.exited (some 1)) "A" ++
    [.close, .begin {} 0] ++ passedOver 2 ++ carriedOut 3 (.exited (some 0)) "A" ++
    [.close, .begin {} 0] ++ passedOver 4 ++ passedOver 5 ++ [.close]

/-- What the stages write. -/
def resumedLog : List Act :=
  [.begins, .loads 0, .stale 0 (digestOf "A"), .launches 0, .succeeds 0 true, .loads 1,
    .stale 1 (digestOf "A"), .launches 1, .ends 1 (.exited (some 1)) false, .closes .failed, .begins, .loads 0,
    .skips 0 (digestOf "A"), .loads 1, .stale 1 (digestOf "A"), .launches 1, .succeeds 1 true,
    .closes .succeeded, .begins, .loads 0, .skips 0 (digestOf "A"), .loads 1, .skips 1 (digestOf "A"),
    .closes .succeeded]

/-- The chained build that is run again after its success reports its second stage as up to date. -/
theorem success_is_final_resumed : ∃ w run, chained.follow (unbuilt "A") resumed = some (resumedLog, w) ∧
    w.run = some run ∧ run.state.result? 1 = some (checked "build").upToDate := by
  have hlog : (chained.follow (unbuilt "A") resumed).map Prod.fst = some resumedLog := by decide +kernel
  have hdone : ∀ x ∈ chained.follow (unbuilt "A") resumed, (x.2.run.bind fun run =>
      some (run.outcome.isSome, run.started.map Prod.fst)) = some (true, [0, 1]) := by decide +kernel
  obtain ⟨⟨log, w⟩, hw, rfl⟩ := Option.map_eq_some_iff.mp hlog
  obtain ⟨run, hrun, heq⟩ := Option.bind_eq_some_iff.mp (hdone _ hw)
  obtain ⟨houtcome, hstarted⟩ := Prod.mk.inj (Option.some.inj heq)
  have hsteady : ∀ a ∈ resumedLog, a.Steady fun _ => digestOf "A" := by simp [resumedLog, Act.Steady]
  have hfinal := success_is_final plan_chained allOwn_chained (unused_unbuilt "A") hw hsteady
  obtain ⟨-, -, hresult, hfresh⟩ := hfinal.skipped 1 _ _ run (resumedLog.take 18) (resumedLog.drop 19) true
    (owns_chained rfl rfl) hrun rfl (by simp [resumedLog]) (by simp [resumedLog])
    (by rw [Dispatch.HasStarted, hstarted]; simp) (by simp [resumedLog])
  obtain ⟨r, hr⟩ := Option.isSome_iff_exists.mp (hresult houtcome)
  exact ⟨w, run, hw, hrun, by rw [hr, (hfresh r hr).1]⟩

end Wheelwright.History
