/-
  Armed — what a run does from the moment its token is tripped.

  **Specification** — a pipeline is armed with a token, its run is entered, and the loop takes, hears and
  closes; the token may be tripped at any time, also before the run is entered.  From then on nothing is
  started.  What was neither started nor settled ends as given up; what was running ends as it says itself; the
  outcome has the reason of the trip; and the run does come to its end.

  **Program** — `Workbench.cancel`, `Forest.trip`, `Rehearsal.noticed`, `Dispatch.step`.  The loop looks at its token in
  the step in which it takes a stage, hears of one or ends, so a trip is noticed by the next step.

  **The crux** — after the trip the loop is where it was, or where it gets from there by `Dispatch.Event.trip` and the
  steps that it has made since (`Draining`).
-/
import Wheelwright.Proofs.Cancellation.Alone
import Wheelwright.Proofs.Dispatch.Tripping
import Wheelwright.Rehearsal.Workbench

namespace Wheelwright

/-! ## Reasons stay

  Many tokens may be tripped while a pipeline runs, and the run's own token may be tripped before it is entered.  All
  that is used of the forest is that a reason which is set is the one that is found later. -/

namespace Forest

variable {f : Forest} {id y : TokenId} {reason r : CancelReason}

/-- A callback leaves the reason of a tripped token as it is. -/
theorem reason?_runCallback_of_some (owner : TokenId) (c : Callback) (h : f.reason? y = some r) :
    (f.runCallback owner c).1.reason? y = some r := by
  have hnote : (f.note c).reason? y = some r := by rw [reason?_note, h]
  generalize f.runCallback owner c = after, does_runCallback f owner c = hdoes
  cases hdoes with
  | nothing | invokes => exact hnote
  | trips => exact reason?_raise_of_some hnote
  -- a callback that is registered changes its own token, and that one is not tripped
  | @registers i d halive hunset =>
    have hne : y ≠ i := by
      rintro rfl
      rw [isCancelled, hnote] at hunset
      exact hunset rfl
    rw [reason?, token_update_of_ne hne]
    exact hnote

/-- So does any number of callbacks, with those they bring up. -/
theorem reason?_runCallbacks_of_some (steps : Nat) (work : List (TokenId × Callback)) (h : f.reason? y = some r) :
    (runCallbacks steps work f).reason? y = some r := by
  induction steps generalizing work f with
  | zero => exact h
  | succ steps ih =>
    cases work with
    | nil => exact h
    | cons w rest => exact ih _ (reason?_runCallback_of_some w.1 w.2 h)

/-- No token gets lost, and reasons are final. -/
structure Lasting (f g : Forest) : Prop where
  length : g.tokens.length = f.tokens.length
  reason? : ∀ id r, f.reason? id = some r → g.reason? id = some r

/-- Nothing happening, every reason lasts. -/
theorem Lasting.refl (f : Forest) : Lasting f f := ⟨rfl, fun _ _ h => h⟩

/-- A trip leaves the reasons of the tokens tripped before. -/
theorem lasting_trip : Lasting f (f.trip id reason) :=
  ⟨raises_trip.length, fun _ _ h => reason?_runCallbacks_of_some _ _ (reason?_raise_of_some h)⟩

/-- The first trip gives the reason. -/
theorem reason?_trip_self (hid : id < f.tokens.length) (h : f.reason? id = none) (reason : CancelReason) :
    (f.trip id reason).reason? id = some reason := by
  have hun : ¬ f.isCancelled id = true := by
    rw [isCancelled, h]
    exact Bool.false_ne_true
  have hraise : (f.raise id reason).1.reason? id = some reason := by
    rw [raise, if_neg hun]
    show ((f.update id { reason := some reason }).token id).reason = some reason
    rw [token_update_self hid]
  exact reason?_runCallbacks_of_some _ _ hraise

end Forest

/-! ## Armed pipelines

  The workbench as it is between arming and the end of the run, with everything that may happen to it.  What an event
  does is told by three moves, and everything below looks at moves only. -/

namespace Workbench

open Dispatch (start Sound Since)

/-- What may happen once a pipeline was armed. -/
inductive Event where
  /-- A token is tripped, be it the one of the run or another one. -/
  | trip (id : TokenId) (reason : CancelReason)
  /-- The pipeline is asked to cancel. -/
  | cancel (message : String)
  /-- The run is entered. -/
  | enter
  /-- The loop takes a ready stage. -/
  | take
  /-- The loop hears how a running stage ended. -/
  | finish (i : Nat) (ending : Except String StageResult)
  /-- The loop ends. -/
  | close

/-- The step that the loop makes. -/
def Event.loop? : Event → Option Dispatch.Event
  | .take => some .take
  | .finish i ending => some (.finish i ending)
  | .close => some .close
  | .trip _ _ | .cancel _ | .enter => none

/-- The loop looks at its token and makes a step. -/
def loopStep? (b : Workbench) (e : Dispatch.Event) : Option Workbench := do
  let run ← b.world.run
  let loop ← (b.world.noticed run).step e
  return b.follow (b.world.withLoop run loop)

/-- The workbench after an event, if that can happen; the run is the one under `token`. -/
def happen? (token : TokenId) (b : Workbench) : Event → Option Workbench
  | .trip id reason => some { b with world := b.world.withTokens (b.world.tokens.trip id reason) }
  | .cancel message => some (b.cancel message).1
  | .enter =>
    if b.world.run.isNone then
      some { b.arm token with
        world := { b.world with run := some { toDispatch := start b.pipeline, bodies := b.bodies, token } } }
    else none
  | .take => b.loopStep? .take
  | .finish i ending => b.loopStep? (.finish i ending)
  | .close => b.loopStep? .close

/-- The workbench after some events, if all of them can happen. -/
def happenAll? (token : TokenId) : Workbench → List Event → Option Workbench
  | b, [] => some b
  | b, e :: rest => (b.happen? token e).bind fun b => happenAll? token b rest

variable {p : Pipeline} {token : TokenId} {b b' : Workbench} {e : Event} {events : List Event} {d d₀ : Dispatch}
  {steps : List Dispatch.Event} {text : String}

/-- Events happen one after another. -/
theorem happenAll?_cons : happenAll? token b (e :: events) = some b' ↔
    ∃ next, b.happen? token e = some next ∧ happenAll? token next events = some b' := Option.bind_eq_some_iff

/-- The ends of stages that the loop hears of are those of the sequence. -/
theorem finish_mem_steps {i : Nat} {ending : Except String StageResult} :
    .finish i ending ∈ events.filterMap Event.loop? ↔ .finish i ending ∈ events := by
  rw [List.mem_filterMap]
  constructor
  · rintro ⟨e, he, heq⟩
    cases e with
    | finish j other =>
      cases heq
      exact he
    | take | close | trip | cancel | enter => cases heq
  · exact fun h => ⟨_, h, rfl⟩

/-- **What an event does**: it concerns tokens only, enters the run, or is a step of the loop. -/
inductive Moves (token : TokenId) (b : Workbench) : Event → Workbench → Prop
  | trip {id : TokenId} {reason : CancelReason} : Moves token b (.trip id reason)
      { b with world := b.world.withTokens (b.world.tokens.trip id reason) }
  | cancel {message : String} : Moves token b (.cancel message) (b.cancel message).1
  | enter (hrun : b.world.run = none) : Moves token b .enter { b.arm token with
      world := { b.world with run := some { toDispatch := start b.pipeline, bodies := b.bodies, token } } }
  | loop {e : Event} {le : Dispatch.Event} {run : PipelineRun} {loop : Dispatch} (he : e.loop? = some le)
      (hrun : b.world.run = some run) (hs : (b.world.noticed run).step le = some loop) :
      Moves token b e (b.follow (b.world.withLoop run loop))

/-- A step of the loop is a move of the bench. -/
theorem moves_loopStep {le : Dispatch.Event} (he : e.loop? = some le) (h : b.loopStep? le = some b') :
    Moves token b e b' := by
  obtain ⟨run, hrun, h⟩ := Option.bind_eq_some_iff.mp h
  obtain ⟨loop, hs, h⟩ := Option.bind_eq_some_iff.mp h
  cases h
  exact .loop he hrun hs

/-- Every event of the bench is one of the moves. -/
theorem moves_of_happen (h : b.happen? token e = some b') : Moves token b e b' := by
  -- the loop's own events are steps of it; the others change tokens or enter the run
  cases e with
  | trip id reason =>
    cases h
    exact .trip
  | cancel message =>
    cases h
    exact .cancel
  | enter =>
    rw [happen?, Option.ite_none_right_eq_some] at h
    obtain ⟨hrun, h⟩ := h
    cases h
    exact .enter (Option.isNone_iff_eq_none.mp hrun)
  | take => exact moves_loopStep rfl h
  | finish i ending => exact moves_loopStep rfl h
  | close => exact moves_loopStep rfl h

/-! ## What every event keeps

  `Armed` is what holds from the arming on.  A loop looks at its token only when it makes a step, so between two steps
  the loop may not know yet what the token says; `noticed` is the loop that knows. -/

/-- The pipeline is armed or runs under the token, or has run. -/
structure Armed (p : Pipeline) (token : TokenId) (b : Workbench) : Prop where
  lt : token < b.world.tokens.tokens.length
  starts : start b.pipeline = start p
  current : b.world.outcome? = none → b.pipeline.current = some token
  run : ∀ run, b.world.run = some run → run.token = token ∧ Sound p run.toDispatch ∧
    ∀ text, run.tripped = some text → b.world.cancelText? token = some text

/-- A loop that looks at its token stays sound and open, and knows nothing but the token's reason. -/
theorem Armed.noticed (h : Armed p token b) {run : PipelineRun} (hrun : b.world.run = some run) :
    Sound p (b.world.noticed run) ∧ (b.world.noticed run).outcome = run.outcome ∧
      ∀ text, (b.world.noticed run).tripped = some text → b.world.cancelText? token = some text := by
  obtain ⟨rfl, hsound, hknows⟩ := h.run run hrun
  rw [Rehearsal.noticed]
  -- the loop may still have to notice that its token is tripped
  cases htext : b.world.cancelText? run.token with
  | none =>
    rw [htext] at hknows
    exact ⟨hsound, rfl, hknows⟩
  | some reason =>
    dsimp only
    rcases Dispatch.stepOrStay_trip run.toDispatch reason with ⟨hout, hun, heq⟩ | ⟨-, heq⟩
    · rw [heq]
      refine ⟨hsound.step (e := .trip reason) ?_, rfl, fun _ h => h⟩
      rw [Dispatch.step, hout, hun]
      rfl
    · rw [heq]
      rw [htext] at hknows
      exact ⟨hsound, rfl, hknows⟩

/-- Tokens change. -/
theorem Armed.withTokens (h : Armed p token b) {f : Forest} (hf : Forest.Lasting b.world.tokens f) :
    Armed p token { b with world := b.world.withTokens f } := by
  refine ⟨?_, h.starts, h.current, ?_⟩
  · show token < f.tokens.length
    rw [hf.length]
    exact h.lt
  · intro run hrun
    obtain ⟨htoken, hsound, hknows⟩ := h.run run hrun
    refine ⟨htoken, hsound, ?_⟩
    intro text htext
    obtain ⟨r, hr, rfl⟩ := Option.map_eq_some_iff.mp (hknows text htext)
    exact Option.map_eq_some_iff.mpr ⟨r, hf.reason? token r hr, rfl⟩

/-- A cancelled build loses no reason. -/
theorem lasting_cancel (b : Workbench) (message : String) :
    Forest.Lasting b.world.tokens (b.pipeline.cancel message b.world.tokens).1 := by
  rw [Pipeline.cancel]
  split
  · exact Forest.lasting_trip
  · exact .refl _

/-- The workbench after a step of the loop. -/
theorem follow_world (b : Workbench) (w : Rehearsal) : (b.follow w).world = w := by
  rw [follow]
  split <;> rfl

/-- An event that the loop takes trips nothing by itself. -/
theorem quiet_of_loop {le : Dispatch.Event} (he : e.loop? = some le) (reason : String) : le ≠ .trip reason := by
  rintro rfl
  cases e <;> cases he

/-- The run goes on. -/
theorem Armed.loop (h : Armed p token b) {le : Dispatch.Event} {run : PipelineRun} {loop : Dispatch}
    (he : e.loop? = some le) (hrun : b.world.run = some run) (hs : (b.world.noticed run).step le = some loop) :
    Armed p token (b.follow (b.world.withLoop run loop)) := by
  obtain ⟨hsound, hout, hknows⟩ := h.noticed hrun
  have hopen : b.world.outcome? = none := by
    rw [Rehearsal.outcome?, hrun, Option.bind_some, ← hout]
    -- a loop that steps has no outcome yet
    exact (Dispatch.step_cases hs).1
  refine ⟨?_, ?_, ?_, ?_⟩
  · rw [follow_world]
    exact h.lt
  · rw [← h.starts, follow]
    split <;> rfl
  · intro hnew
    rw [follow_world] at hnew
    rw [follow, hnew, Option.isSome_none, Bool.and_false]
    exact h.current hopen
  · intro run' hrun'
    rw [follow_world] at hrun' ⊢
    cases hrun'
    refine ⟨(h.run run hrun).1, hsound.step hs, ?_⟩
    intro text htext
    have hsame : loop.tripped = (b.world.noticed run).tripped := by
      have hfollow : (b.world.noticed run).follow [le] = some loop := Dispatch.follow_cons.mpr ⟨loop, hs, rfl⟩
      refine Dispatch.tripped_of_follow hfollow ?_
      -- no event that the loop takes is a trip, so its reason is the one noticed
      intro reason hm
      exact quiet_of_loop he reason (List.mem_singleton.mp hm).symm
    exact hknows text (hsame ▸ htext)

/-- **Every event.** -/
theorem Armed.happen (h : Armed p token b) (hp : p.plan.WellFormed) (hb : b.happen? token e = some b') :
    Armed p token b' := by
  cases moves_of_happen hb with
  | trip => exact h.withTokens Forest.lasting_trip
  | cancel => exact h.withTokens (lasting_cancel b _)
  | enter hrun =>
    refine ⟨h.lt, h.starts, fun _ => rfl, ?_⟩
    intro run hrun'
    cases hrun'
    refine ⟨rfl, ?_, fun _ htext => by cases htext⟩
    rw [h.starts]
    exact Sound.start hp
  | loop he hrun hs => exact h.loop he hrun hs

/-- What holds of an armed bench is preserved by a whole sequence. -/
theorem Armed.happenAll (h : Armed p token b) (hp : p.plan.WellFormed)
    (hb : happenAll? token b events = some b') : Armed p token b' := by
  induction events generalizing b with
  | nil =>
    cases hb
    exact h
  | cons e rest ih =>
    obtain ⟨next, hnext, hrest⟩ := happenAll?_cons.mp hb
    exact ih (h.happen hp hnext) hrest

/-! ## After the trip

  From the trip on the loop is followed by a second one: the loop at the moment of the trip, to which `Event.trip`
  happens first and then the steps that the real one makes.  As soon as the real loop has made a step it is that
  second one. -/

/-- The run under a tripped token: it is to be entered, or its loop is where some steps since the trip led it. -/
def Draining (d₀ : Dispatch) (text : String) (steps : List Dispatch.Event) (b : Workbench) : Prop :=
  (b.world.run = none ∧ steps = [] ∧ d₀ = start b.pipeline) ∨
    ∃ run, b.world.run = some run ∧ Since d₀ text steps run.toDispatch

/-- The text a token was cancelled with stays in every step. -/
theorem cancelText?_happen (h : b.happen? token e = some b') (htext : b.world.cancelText? token = some text) :
    b'.world.cancelText? token = some text := by
  obtain ⟨r, hr, rfl⟩ := Option.map_eq_some_iff.mp htext
  cases moves_of_happen h with
  | trip => exact Option.map_eq_some_iff.mpr ⟨r, Forest.lasting_trip.reason? token r hr, rfl⟩
  | cancel => exact Option.map_eq_some_iff.mpr ⟨r, (lasting_cancel b _).reason? token r hr, rfl⟩
  | enter => exact htext
  | loop =>
    rw [follow_world]
    exact htext

/-- **One event after the trip.** -/
theorem Draining.happen (h : Draining d₀ text steps b) (ha : Armed p token b) (hopen : d₀.outcome = none)
    (hun : d₀.tripped = none) (htext : b.world.cancelText? token = some text) (hb : b.happen? token e = some b') :
    Draining d₀ text (steps ++ e.loop?.toList) b' := by
  -- before it is entered the run has no steps; after it every step is one since the trip
  cases moves_of_happen hb with
  | trip | cancel =>
    rw [Event.loop?, Option.toList_none, List.append_nil]
    exact h
  | enter hrun =>
    rw [Event.loop?, Option.toList_none, List.append_nil]
    rcases h with ⟨-, rfl, rfl⟩ | ⟨run, hsome, -⟩
    · exact Or.inr ⟨_, rfl, Or.inl ⟨rfl, rfl⟩⟩
    · rw [hrun] at hsome
      cases hsome
  | @loop _ le run loop he hrun hs =>
    rw [he, Option.toList_some]
    rcases h with ⟨hnone, -, -⟩ | ⟨run', hrun', hsince⟩
    · rw [hrun] at hnone
      cases hnone
    · rw [hrun] at hrun'
      cases hrun'
      refine Or.inr ⟨_, by rw [follow_world]; rfl, ?_⟩
      rw [Rehearsal.noticed, (ha.run run hrun).1, htext] at hs
      exact hsince.step hopen hun hs

/-- The text a token was cancelled with stays through a whole sequence. -/
theorem cancelText?_happenAll (h : happenAll? token b events = some b')
    (htext : b.world.cancelText? token = some text) : b'.world.cancelText? token = some text := by
  induction events generalizing b with
  | nil =>
    cases h
    exact htext
  | cons e rest ih =>
    obtain ⟨next, hnext, hrest⟩ := happenAll?_cons.mp h
    exact ih hrest (cancelText?_happen hnext htext)

/-- **All events after the trip.** -/
theorem Draining.happenAll (h : Draining d₀ text steps b) (ha : Armed p token b) (hp : p.plan.WellFormed)
    (hopen : d₀.outcome = none) (hun : d₀.tripped = none) (htext : b.world.cancelText? token = some text)
    (hb : happenAll? token b events = some b') : Draining d₀ text (steps ++ events.filterMap Event.loop?) b' := by
  -- on the events: those of the loop are its steps, and the others leave it as it is
  induction events generalizing b steps with
  | nil =>
    cases hb
    rw [List.filterMap_nil, List.append_nil]
    exact h
  | cons e rest ih =>
    obtain ⟨next, hnext, hrest⟩ := happenAll?_cons.mp hb
    have hsteps : steps ++ (e :: rest).filterMap Event.loop? =
        (steps ++ e.loop?.toList) ++ rest.filterMap Event.loop? := by
      rw [List.append_assoc, List.filterMap_cons]
      cases e.loop? <;> rfl
    rw [hsteps]
    exact ih (h.happen ha hopen hun htext hnext) (ha.happen hp hnext) (cancelText?_happen hnext htext) hrest

/-! ## The run comes to its end

  That the run comes to its end is shown on the loop that has noticed the trip, where it is known, and then brought to
  the workbench event by event. -/

/-- A run that has noticed its trip notices nothing more. -/
theorem noticed_of_tripped {w : Rehearsal} (run : PipelineRun) (h : run.tripped = some text) :
    w.noticed run = run.toDispatch := by
  rw [Rehearsal.noticed]
  split
  · rename_i reason _
    rcases Dispatch.stepOrStay_trip run.toDispatch reason with ⟨-, hnone, -⟩ | ⟨-, hstay⟩
    · rw [h] at hnone
      cases hnone
    · exact hstay
  · rfl

/-- An event of the loop happens on the bench as it does in the loop. -/
theorem happen_of_loop {le : Dispatch.Event} (he : e.loop? = some le) : b.happen? token e = b.loopStep? le := by
  cases e <;> cases he <;> rfl

/-- Every step but a trip is that of an event. -/
theorem exists_loop {le : Dispatch.Event} (h : ∀ reason, le ≠ .trip reason) : ∃ e : Event, e.loop? = some le := by
  cases le with
  | trip reason => exact absurd rfl (h reason)
  | take => exact ⟨.take, rfl⟩
  | finish i ending => exact ⟨.finish i ending, rfl⟩
  | close => exact ⟨.close, rfl⟩

/-- Noticing a trip is no outcome. -/
theorem outcome_noticed (w : Rehearsal) (run : PipelineRun) : (w.noticed run).outcome = run.outcome := by
  rw [Rehearsal.noticed]
  split
  · rename_i reason _
    rcases Dispatch.stepOrStay_trip run.toDispatch reason with ⟨-, -, heq⟩ | ⟨-, heq⟩ <;> rw [heq]
  · rfl

/-- A loop that has noticed the trip makes its steps on the workbench as it does by itself. -/
theorem happenAll_of_follow (token : TokenId) {last : Dispatch} {run : PipelineRun} (hrun : b.world.run = some run)
    (htripped : (b.world.noticed run).tripped = some text) (hlast : (b.world.noticed run).follow steps = some last) :
    ∃ events b' d, happenAll? token b events = some b' ∧ events.filterMap Event.loop? = steps ∧
      b'.world.loop? = some d ∧ d.outcome = last.outcome := by
  induction steps generalizing b run with
  | nil =>
    cases hlast
    refine ⟨[], b, run.toDispatch, rfl, rfl, ?_, (outcome_noticed b.world run).symm⟩
    rw [Rehearsal.loop?, hrun]
    rfl
  | cons le rest ih =>
    have hquiet := Dispatch.trip_notMem_of_tripped htripped hlast
    obtain ⟨next, hs, hrest⟩ := Dispatch.follow_cons.mp hlast
    -- a tripped loop hears of no other trip, so every step is an event of the bench
    obtain ⟨e, he⟩ : ∃ e : Event, e.loop? = some le :=
      exists_loop fun reason heq => hquiet reason (heq ▸ List.mem_cons_self)
    have hstep : b.happen? token e = some (b.follow (b.world.withLoop run next)) := by
      rw [happen_of_loop he, loopStep?, hrun]
      simp only [Option.bind_eq_bind, Option.bind_some, hs]
      rfl
    have hnext : (b.follow (b.world.withLoop run next)).world.run = some { run with toDispatch := next } := by
      rw [follow_world]
      rfl
    have hkept := (Dispatch.started_of_tripped htripped hs).2
    have hsame : (b.follow (b.world.withLoop run next)).world.noticed { run with toDispatch := next } = next :=
      noticed_of_tripped { run with toDispatch := next } hkept
    obtain ⟨events, b', d, hevents, hsteps, hloop, hout⟩ := ih hnext (by rw [hsame]; exact hkept) (by rw [hsame]; exact hrest)
    refine ⟨e :: events, b', d, happenAll?_cons.mpr ⟨_, hstep, hevents⟩, ?_, hloop, hout⟩
    rw [List.filterMap_cons, he, hsteps]

/-- A run under a tripped token comes to its end, whatever becomes of the stages that run. -/
theorem Armed.completes_run (h : Armed p token b) {run : PipelineRun} (hrun : b.world.run = some run)
    (htext : b.world.cancelText? token = some text) (answer : Nat → Except String StageResult) :
    ∃ events b' d, happenAll? token b events = some b' ∧ b'.world.loop? = some d ∧ d.outcome.isSome ∧
      ∀ i ending, .finish i ending ∈ events → ending = answer i := by
  -- with an outcome there is nothing to do; without one, the loop first notices the trip
  cases hout : run.outcome with
  | some o =>
    refine ⟨[], b, run.toDispatch, rfl, ?_, by rw [hout]; rfl, fun _ _ hm => by cases hm⟩
    rw [Rehearsal.loop?, hrun]
    rfl
  | none =>
    have htripped : ∃ reason, (b.world.noticed run).tripped = some reason := by
      rw [Rehearsal.noticed, (h.run run hrun).1, htext]
      dsimp only
      rcases Dispatch.stepOrStay_trip run.toDispatch text with ⟨-, -, heq⟩ | ⟨hended | hset, heq⟩
      · rw [heq]
        exact ⟨text, rfl⟩
      · rw [hout] at hended
        cases hended
      · rw [heq]
        exact Option.isSome_iff_exists.mp hset
    obtain ⟨reason, htripped⟩ := htripped
    obtain ⟨more, last, hmore, hlast, hanswer⟩ := (h.noticed hrun).1.completes answer
    obtain ⟨events, b', d, hevents, hsteps, hloop, heq⟩ := happenAll_of_follow token hrun htripped hmore
    refine ⟨events, b', d, hevents, hloop, by rw [heq]; exact hlast, ?_⟩
    intro i ending hm
    exact hanswer i ending (hsteps ▸ finish_mem_steps.mpr hm)

/-- An armed bench whose token is tripped reaches its outcome, whatever the stages answer. -/
theorem Armed.completes (h : Armed p token b) (hp : p.plan.WellFormed) (htext : b.world.cancelText? token = some text)
    (answer : Nat → Except String StageResult) :
    ∃ events b' d, happenAll? token b events = some b' ∧ b'.world.loop? = some d ∧ d.outcome.isSome ∧
      ∀ i ending, .finish i ending ∈ events → ending = answer i := by
  cases hrun : b.world.run with
  | some run => exact h.completes_run hrun htext answer
  | none =>
    -- it has to be entered first
    have henter : b.happen? token .enter = some { b.arm token with
        world := { b.world with run := some { toDispatch := start b.pipeline, bodies := b.bodies, token } } } := by
      rw [happen?, hrun]
      rfl
    obtain ⟨events, b', d, hevents, hloop, hout, hanswer⟩ :=
      (h.happen hp henter).completes_run rfl (cancelText?_happen henter htext) answer
    refine ⟨.enter :: events, b', d, happenAll?_cons.mpr ⟨_, henter, hevents⟩, hloop, hout, ?_⟩
    intro i ending hm
    rcases List.mem_cons.mp hm with hm | hm
    · cases hm
    · exact hanswer i ending hm

/-! ## The main result

  What a drained run has to show, as a structure, and the theorem for every plan, every bench and every moment of the
  trip. -/

/-- A bench at rest is armed by the arming of its pipeline. -/
theorem armed_of_idle (hb : b.pipeline = p.arm token) (hrun : b.world.run = none)
    (htoken : token < b.world.tokens.tokens.length) : Armed p token b := by
  refine ⟨htoken, by rw [hb]; rfl, fun _ => by rw [hb]; rfl, ?_⟩
  intro run hsome
  rw [hrun] at hsome
  cases hsome

/-- An event of the token only leaves the run as it is. -/
theorem run_of_trips (hb : b.happen? token e = some b') (hun : b.world.tokens.reason? token = none)
    (hset : (b'.world.tokens.reason? token).isSome) : b'.world.run = b.world.run ∧ b'.pipeline = b.pipeline := by
  cases moves_of_happen hb with
  | trip | cancel => exact ⟨rfl, rfl⟩
  | enter =>
    rw [show b.world.tokens.reason? token = none from hun] at hset
    cases hset
  | loop =>
    rw [follow_world, Rehearsal.withLoop, hun] at hset
    cases hset

/-- The loop when its token is about to be tripped. -/
theorem Armed.untripped (h : Armed p token b) (hp : p.plan.WellFormed) (hopen : b.world.outcome? = none)
    (hun : b.world.tokens.reason? token = none) (hd : d = b.world.loop?.getD (start p)) :
    Sound p d ∧ d.outcome = none ∧ d.tripped = none ∧
      ((b.world.run = none ∧ d = start b.pipeline) ∨ ∃ run, b.world.run = some run ∧ d = run.toDispatch) := by
  -- the loop knows of no trip of which the token does not know
  rw [Rehearsal.loop?] at hd
  cases hrun : b.world.run with
  | none =>
    rw [hrun, Option.map_none, Option.getD_none] at hd
    rw [hd]
    exact ⟨Sound.start hp, rfl, rfl, Or.inl ⟨rfl, h.starts.symm⟩⟩
  | some run =>
    rw [hrun, Option.map_some, Option.getD_some] at hd
    rw [Rehearsal.outcome?, hrun, Option.bind_some] at hopen
    obtain ⟨-, hsound, hknows⟩ := h.run run hrun
    rw [hd]
    refine ⟨hsound, hopen, ?_, Or.inr ⟨run, rfl, rfl⟩⟩
    cases htext : run.tripped with
    | none => rfl
    | some text =>
      have hsome := hknows text htext
      rw [Rehearsal.cancelText?, hun] at hsome
      cases hsome

/-- The reason of the trip is that of the event, if it is of the token itself. -/
theorem Armed.reason_eq (h : Armed p token b) (hopen : b.world.outcome? = none)
    (hun : b.world.tokens.reason? token = none) (hb : b.happen? token e = some b') {reason : CancelReason}
    (hset : b'.world.tokens.reason? token = some reason) :
    (∀ r, e = .trip token r → reason = r) ∧ ∀ message, e = .cancel message → reason = .requested message := by
  -- a first trip is the one that counts
  refine ⟨?_, ?_⟩
  · rintro r rfl
    cases hb
    have hfirst := Forest.reason?_trip_self h.lt hun r
    exact Option.some.inj (hset.symm.trans hfirst)
  · rintro message rfl
    cases hb
    have hfirst := Forest.reason?_trip_self h.lt hun (.requested message)
    have htokens : (b.cancel message).1.world.tokens = b.world.tokens.trip token (.requested message) := by
      show (b.pipeline.cancel message b.world.tokens).1 = _
      rw [Pipeline.cancel, h.current hopen]
      rfl
    rw [htokens] at hset
    exact Option.some.inj (hset.symm.trans hfirst)

/-- What has become of a run that was at `d₀` when its token was tripped, when it is at `d` after the events `after`. -/
structure Drained (p : Pipeline) (specs : List StageSpec) (entered : Bool) (reason : CancelReason) (d₀ : Dispatch)
    (after : List Event) (d : Dispatch) : Prop where
  /-- Nothing more is started. -/
  started : d.started = d₀.started
  settled : ∀ i r, d₀.state.result? i = some r → d.state.result? i = some r
  /-- What was running ends as it says itself. -/
  running : ∀ i ∈ d₀.inFlight, ∀ r, d.state.result? i = some r ↔
    ∃ ending, .finish i ending ∈ after ∧ r = p.plan.resultOf i ending
  /-- What was neither started nor settled ends as given up. -/
  given_up : ∀ i r, ¬ d₀.HasStarted i → d₀.state.result? i = none → d.state.result? i = some r → r.NeverRan
  /-- The outcome has the reason of that first trip; if the run had not been entered, nothing ever ran. -/
  outcome : ∀ o, d.outcome = some o → o.cancelReason = some reason.text ∧
    (∀ i < specs.length, (d.state.result? i).isSome) ∧ (entered = false → ∀ r ∈ o.results, r.NeverRan)

/-- **From the moment its token is tripped a run starts nothing more and comes to its end.**  For every plan, any
    number of workers, whatever stages answer and in whatever order they end, and whether the token is tripped
    before the run is entered or while it is on its way: the run drains, and it can be brought to its end with any
    answers of the stages that still run. -/
theorem run_drains_after_trip {name : String} {specs : List StageSpec} {config : PipelineConfig}
    (hp : Pipeline.build name specs config = .ok p) {b₀ b₁ b₂ : Workbench} {before after : List Event}
    {reason : CancelReason} (harm : b₀.pipeline = p.arm token) (hidle : b₀.world.run = none)
    (htoken : token < b₀.world.tokens.tokens.length) (h₁ : happenAll? token b₀ before = some b₁)
    (hopen : b₁.world.outcome? = none) (hun : b₁.world.tokens.reason? token = none)
    (h₂ : b₁.happen? token e = some b₂) (hset : b₂.world.tokens.reason? token = some reason)
    (h : happenAll? token b₂ after = some b) (hd₀ : d₀ = b₁.world.loop?.getD (start p)) :
    (∀ r, e = .trip token r → reason = r) ∧ (∀ message, e = .cancel message → reason = .requested message) ∧
    (∀ d, b.world.loop? = some d → Drained p specs b₁.world.run.isSome reason d₀ after d) ∧
    ∀ answer : Nat → Except String StageResult, ∃ more last d, happenAll? token b more = some last ∧
      last.world.loop? = some d ∧ d.outcome.isSome ∧ ∀ i ending, .finish i ending ∈ more → ending = answer i := by
  have hwf := (describes_of_plan (Dispatch.plan_of_build hp).1).1
  -- the bench is armed before the trip, at it and after it
  have ha₁ := (armed_of_idle harm hidle htoken).happenAll hwf.toWellFormed h₁
  have ha₂ := ha₁.happen hwf.toWellFormed h₂
  have ha := ha₂.happenAll hwf.toWellFormed h
  obtain ⟨hsound, hout, huntripped, hloop⟩ := ha₁.untripped hwf.toWellFormed hopen hun hd₀
  obtain ⟨hrun, hpipeline⟩ := run_of_trips h₂ hun (by rw [hset]; rfl)
  have htext : b₂.world.cancelText? token = some reason.text := by rw [Rehearsal.cancelText?, hset]; rfl
  -- at the moment of the trip nothing has happened since
  have hfirst : Draining d₀ reason.text [] b₂ := by
    rcases hloop with ⟨hnone, heq⟩ | ⟨run, hsome, heq⟩
    · exact Or.inl ⟨hrun.trans hnone, rfl, by rw [hpipeline]; exact heq⟩
    · exact Or.inr ⟨run, hrun.trans hsome, Or.inl ⟨rfl, heq.symm⟩⟩
  have hdrain := hfirst.happenAll ha₂ hwf.toWellFormed hout huntripped htext h
  obtain ⟨htrip, hcancel⟩ := ha₁.reason_eq hopen hun h₂ hset
  refine ⟨htrip, hcancel, ?_, ha.completes hwf.toWellFormed (cancelText?_happenAll h htext)⟩
  intro d hd
  -- the run was entered, or there is no loop to speak of
  have hsince : Since d₀ reason.text (after.filterMap Event.loop?) d := by
    rcases hdrain with ⟨hnone, -, -⟩ | ⟨run, hsome, hsince⟩
    · rw [Rehearsal.loop?, hnone] at hd
      cases hd
    · rw [Rehearsal.loop?, hsome] at hd
      cases hd
      exact hsince
  constructor
  case started => exact hsince.started
  case settled => exact fun i r hr => hsince.result? hsound hr
  case running =>
    intro i hi r
    rw [hsince.result?_inFlight hsound hi]
    simp only [finish_mem_steps]
  case given_up => exact fun i r hi _ hr => hsince.neverRan hsound hi hr
  case outcome =>
    intro o ho
    have hlast := hsince.sound hsound
    refine ⟨hsince.cancelReason hsound hout ho, ?_, ?_⟩
    · rw [← hwf.names_length]
      exact hlast.settled_of_outcome ho
    · intro hnone r hr
      -- not entered at the trip, it starts nothing, so none of its stages ever ran
      rw [(hlast.ended o ho).2] at hr
      obtain ⟨i, -, hi⟩ := List.mem_filterMap.mp hr
      refine hsince.neverRan hsound ?_ hi
      rcases hloop with ⟨-, rfl⟩ | ⟨run, hsome, -⟩
      · exact List.not_mem_nil
      · rw [hsome] at hnone
        cases hnone

/-- The fork, armed with a token of its own. -/
def armedFork : Workbench :=
  { pipeline := Dispatch.forked.arm 0
    bodies := []
    world := { tree := { entries := [] }, today := ⟨0, 0, 0⟩, tokens := (Forest.create {}).1 } }

/-- The token is tripped while the first stage of the fork runs: that one keeps its result, and the others are
    given up. -/
theorem run_drains_after_trip_forked :
    ∃ b₁ b₂ b d o, happenAll? 0 armedFork [.enter, .take] = some b₁ ∧ b₁.happen? 0 (.cancel "stop") = some b₂ ∧
      happenAll? 0 b₂ [.take, .finish 0 (.ok (.succeeded "a" [] .zero)), .close] = some b ∧
      b.world.loop? = some d ∧ d.outcome = some o ∧ d.started = [(0, false)] ∧
      d.state.result? 0 = some (.succeeded "a" [] .zero) ∧ o.cancelReason = some "stop" ∧
      ∀ i ∈ [1, 2], ∃ r, d.state.result? i = some r ∧ r.NeverRan := by
  -- the steps of this run, and what the theorem asks of them, evaluated at once
  have hp : Pipeline.build "forked" Dispatch.forked.specs Dispatch.forked.config = .ok Dispatch.forked := rfl
  have hrun : ((happenAll? 0 armedFork [.enter, .take]).bind fun b₁ => (b₁.happen? 0 (.cancel "stop")).bind fun b₂ =>
      (happenAll? 0 b₂ [.take, .finish 0 (.ok (.succeeded "a" [] .zero)), .close]).bind fun b =>
      b.world.loop?.bind fun d => d.outcome.map fun _ => decide (b₁.world.outcome?.isNone ∧
        b₁.world.tokens.reason? 0 = none ∧ b₂.world.tokens.reason? 0 = some (.requested "stop")) &&
        decide ((b₁.world.loop?.getD (start Dispatch.forked)).started = [(0, false)] ∧
        (b₁.world.loop?.getD (start Dispatch.forked)).inFlight = [0] ∧
        ∀ i ∈ ([1, 2] : List Nat), ((b₁.world.loop?.getD (start Dispatch.forked)).state.result? i).isNone)) = some true := by
    decide +kernel
  obtain ⟨b₁, h₁, hrun⟩ := Option.bind_eq_some_iff.mp hrun
  obtain ⟨b₂, h₂, hrun⟩ := Option.bind_eq_some_iff.mp hrun
  obtain ⟨b, h, hrun⟩ := Option.bind_eq_some_iff.mp hrun
  obtain ⟨d, hd, hrun⟩ := Option.bind_eq_some_iff.mp hrun
  obtain ⟨o, ho, hrun⟩ := Option.map_eq_some_iff.mp hrun
  obtain ⟨htokens, hloop⟩ := Bool.and_eq_true_iff.mp hrun
  obtain ⟨hopen, hun, hset⟩ := of_decide_eq_true htokens
  obtain ⟨hstarted, hflight, hnone⟩ := of_decide_eq_true hloop
  have harm : armedFork.pipeline = Dispatch.forked.arm 0 := rfl
  obtain ⟨-, -, hafter, -⟩ := run_drains_after_trip hp harm rfl (by decide) h₁
    (Option.isNone_iff_eq_none.mp hopen) hun h₂ hset h rfl
  have hdrained := hafter d hd
  obtain ⟨hreason, hall, -⟩ := hdrained.outcome o ho
  refine ⟨b₁, b₂, b, d, o, h₁, h₂, h, hd, ho, hdrained.started.trans hstarted, ?_, hreason, ?_⟩
  · exact (hdrained.running 0 (by rw [hflight]; decide) _).mpr ⟨_, List.mem_cons_of_mem _ List.mem_cons_self, rfl⟩
  -- neither of the two was started when the trip came
  · intro i hi
    have hlt : i < Dispatch.forked.specs.length := by
      rcases List.mem_pair.mp hi with rfl | rfl <;> decide
    have hidle : ¬ Dispatch.HasStarted (b₁.world.loop?.getD (start Dispatch.forked)) i := by
      rw [Dispatch.HasStarted, hstarted]
      rcases List.mem_pair.mp hi with rfl | rfl <;> decide
    obtain ⟨r, hr⟩ := Option.isSome_iff_exists.mp (hall i hlt)
    exact ⟨r, hr, hdrained.given_up i r hidle (Option.isNone_iff_eq_none.mp (hnone i hi)) hr⟩

end Workbench

end Wheelwright
