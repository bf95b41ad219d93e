/-
  Tripping — what a loop does once its token was tripped.

  **Specification** — a tripped loop starts nothing.  What was neither started nor settled ends as given up, with
  no trace of a process; what was running ends as it says itself; and the outcome has the reason of the trip.

  **Program** — `Dispatch.step`, over any list of events.

  **The crux** — a ready stage is started or given up by the same step (`takeNext`), which looks at the trip; so
  after `Event.trip` no step adds to what was started (`started_of_tripped`).  The rest follows from what is
  true of every loop.
-/
import Wheelwright.Proofs.Dispatch.Pass
import Wheelwright.Proofs.Dispatch.Rehearsed

namespace Wheelwright

/-! ## Loops that were tripped

  After its trip a loop has one answer for every ready stage, and it is not to start it.  The result that such a stage
  gets shows no trace of a process. -/

/-- The result shows no trace of a run: the stage was given up, no process ended, nothing failed or was said. -/
structure StageResult.NeverRan (r : StageResult) : Prop where
  status : r.status = .cancelled
  exit : r.exit = none
  failure : r.failure = none
  diagnostics : r.diagnostics = []

/-- A blocked stage never ran. -/
theorem StageResult.neverRan_blocked (stage reason : String) : (StageResult.blocked stage reason).NeverRan :=
  ⟨rfl, rfl, rfl, rfl⟩

namespace Dispatch

variable {p : Pipeline} {d d' d₀ : Dispatch} {e : Event} {events steps : List Event} {i : Nat} {r : StageResult}
  {text : String}

/-- A loop notices a trip once, and not after its end. -/
theorem stepOrStay_trip (d : Dispatch) (text : String) :
    (d.outcome = none ∧ d.tripped = none ∧ d.stepOrStay (.trip text) = { d with tripped := some text }) ∨
      ((d.outcome.isSome ∨ d.tripped.isSome) ∧ d.stepOrStay (.trip text) = d) := by
  rw [stepOrStay, step]
  cases hout : d.outcome with
  | some o => exact Or.inr ⟨Or.inl rfl, rfl⟩
  | none =>
    cases htrip : d.tripped with
    | some reason => exact Or.inr ⟨Or.inr rfl, rfl⟩
    | none => exact Or.inl ⟨rfl, rfl, rfl⟩

/-- **A tripped loop starts nothing**, and its reason stays. -/
theorem started_of_tripped (ht : d.tripped = some text) (hs : d.step e = some d') :
    d'.started = d.started ∧ d'.tripped = some text := by
  obtain ⟨-, hcase⟩ := step_cases hs
  -- a taken stage is given up at once, and no other event starts one
  cases e with
  | trip reason =>
    rw [ht] at hcase
    cases hcase.1
  | take =>
    obtain ⟨x, new, hnext, rfl⟩ := hcase
    obtain ⟨-, k, rest, -, ⟨reason, z, -, rfl, -⟩ | ⟨hnone, -⟩⟩ := Execution.takeNext_cases hnext
    · exact ⟨List.append_nil _, ht⟩
    · rw [ht] at hnone
      cases hnone
  | finish i ending =>
    obtain ⟨-, -, rfl⟩ := hcase
    exact ⟨rfl, ht⟩
  | close =>
    obtain ⟨-, -, rfl⟩ := hcase
    exact ⟨rfl, ht⟩

/-- After the trip nothing is started, and its text stays. -/
theorem started_of_follow_tripped (ht : d.tripped = some text) (hd : d.follow events = some d') :
    d'.started = d.started ∧ d'.tripped = some text := by
  induction events generalizing d with
  | nil =>
    cases hd
    exact ⟨rfl, ht⟩
  | cons e rest ih =>
    obtain ⟨next, hs, hrest⟩ := follow_cons.mp hd
    obtain ⟨hstarted, htripped⟩ := started_of_tripped ht hs
    obtain ⟨hlast, hreason⟩ := ih htripped hrest
    exact ⟨hlast.trans hstarted, hreason⟩

/-- A tripped loop is not tripped again. -/
theorem trip_notMem_of_tripped (ht : d.tripped = some text) (hd : d.follow events = some d') (reason : String) :
    .trip reason ∉ events := by
  induction events generalizing d with
  | nil => exact List.not_mem_nil
  | cons e rest ih =>
    obtain ⟨next, hs, hrest⟩ := follow_cons.mp hd
    rw [List.mem_cons, not_or]
    refine ⟨?_, ih (started_of_tripped ht hs).2 hrest⟩
    rintro rfl
    obtain ⟨-, hnone, -⟩ := step_cases hs
    rw [ht] at hnone
    cases hnone

/-- What was never started shows no trace of a run. -/
theorem Sound.neverRan (h : Sound p d) (hi : ¬ d.HasStarted i) (hr : d.state.result? i = some r) : r.NeverRan := by
  rcases h.origin i r hr with hst | ⟨q, -, -, rfl⟩ | ⟨reason, -, rfl⟩
  · exact absurd hst hi
  · exact StageResult.neverRan_blocked _ _
  · exact StageResult.neverRan_blocked _ _

/-! ## What became of a loop since it was tripped

  For whoever looks at the loop later: it is the loop of the moment of the trip, followed by steps that all come after
  it.  What was settled then stays, what was running ends by itself, and all others never ran. -/

/-- The loop is where it was, or where `steps` led it after it had noticed the trip. -/
def Since (d₀ : Dispatch) (text : String) (steps : List Event) (d : Dispatch) : Prop :=
  (steps = [] ∧ d = d₀) ∨ d₀.follow (.trip text :: steps) = some d

namespace Since

/-- A dispatch since a sound one is sound. -/
theorem sound (h : Since d₀ text steps d) (h₀ : Sound p d₀) : Sound p d := by
  rcases h with ⟨-, rfl⟩ | h
  · exact h₀
  · exact h₀.follow h

/-- Since the trip nothing was started. -/
theorem started (h : Since d₀ text steps d) : d.started = d₀.started := by
  rcases h with ⟨-, rfl⟩ | h
  · rfl
  · obtain ⟨next, hs, hrest⟩ := follow_cons.mp h
    obtain ⟨-, -, rfl⟩ := step_cases hs
    exact (started_of_follow_tripped rfl hrest).1

/-- What was there when the token was tripped stays. -/
theorem result? (h : Since d₀ text steps d) (h₀ : Sound p d₀) (hr : d₀.state.result? i = some r) :
    d.state.result? i = some r := by
  rcases h with ⟨-, rfl⟩ | h
  · exact hr
  · exact (h₀.extends_follow h).result? i r hr

/-- **What was running ends as it says itself.** -/
theorem result?_inFlight (h : Since d₀ text steps d) (h₀ : Sound p d₀) (hi : i ∈ d₀.inFlight) :
    d.state.result? i = some r ↔ ∃ ending, .finish i ending ∈ steps ∧ r = p.plan.resultOf i ending := by
  obtain ⟨hstarted, hnone⟩ := (h₀.mem_running i).mp (h₀.mem_inFlight.mp hi)
  -- either nothing has happened since, or the result came in the steps since
  rcases h with ⟨rfl, rfl⟩ | h
  · rw [hnone]
    constructor
    · intro hr
      cases hr
    · rintro ⟨ending, hm, -⟩
      cases hm
  · have hlast : d.HasStarted i := by
      rw [HasStarted, started (Or.inr h)]
      exact hstarted
    constructor
    · intro hr
      rcases h₀.result_of_follow h hlast hr with hold | ⟨ending, hm, heq⟩
      · rw [hnone] at hold
        cases hold
      · rcases List.mem_cons.mp hm with hm | hm
        · cases hm
        · exact ⟨ending, hm, heq⟩
    · rintro ⟨ending, hm, rfl⟩
      exact h₀.result?_of_finish_mem h (List.mem_cons_of_mem _ hm)

/-- What was neither running nor settled shows no trace of a run. -/
theorem neverRan (h : Since d₀ text steps d) (h₀ : Sound p d₀) (hi : ¬ d₀.HasStarted i)
    (hr : d.state.result? i = some r) : r.NeverRan := by
  refine (h.sound h₀).neverRan ?_ hr
  rw [HasStarted, h.started]
  exact hi

/-- The outcome has the reason of the trip. -/
theorem cancelReason (h : Since d₀ text steps d) (h₀ : Sound p d₀) (hopen : d₀.outcome = none) {o : PipelineOutcome}
    (ho : d.outcome = some o) : o.cancelReason = some text := by
  rcases h with ⟨-, rfl⟩ | h
  · rw [hopen] at ho
    cases ho
  · obtain ⟨next, hs, hrest⟩ := follow_cons.mp h
    obtain ⟨-, -, rfl⟩ := step_cases hs
    rw [((h₀.follow h).ended o ho).2]
    exact (started_of_follow_tripped rfl hrest).2

/-- A step of a loop that has noticed the trip. -/
theorem step (h : Since d₀ text steps d) (hopen : d₀.outcome = none) (hun : d₀.tripped = none)
    (hs : (d.stepOrStay (.trip text)).step e = some d') : Since d₀ text (steps ++ [e]) d' := by
  refine Or.inr ?_
  rcases h with ⟨rfl, rfl⟩ | h
  · -- it notices the trip now
    have htrip : d.step (.trip text) = some { d with tripped := some text } := by
      rw [Dispatch.step, hopen, hun]
      rfl
    rw [stepOrStay, htrip, Option.getD_some] at hs
    exact follow_cons.mpr ⟨_, htrip, follow_cons.mpr ⟨d', hs, rfl⟩⟩
  · -- it has noticed the trip before
    obtain ⟨next, hnext, hrest⟩ := follow_cons.mp h
    obtain ⟨-, -, rfl⟩ := step_cases hnext
    have htripped := (started_of_follow_tripped rfl hrest).2
    rcases stepOrStay_trip d text with ⟨-, hnone, -⟩ | ⟨-, hstay⟩
    · rw [htripped] at hnone
      cases hnone
    · rw [hstay] at hs
      rw [← List.cons_append, follow_append, h]
      exact follow_cons.mpr ⟨d', hs, rfl⟩

end Since

end Dispatch

end Wheelwright
