/-
  Received lines — what a process says, from its two pipes to the diagnostics of its stage.

  **Specification** — in any order of steps, what the stage has heard of a stream is the beginning of the lines of that
  stream; when the reader came to the end of the pipe, it is all of them by the time that the stage has the outcome.
  The diagnostics are made of the lines one by one, with at most one warning after them.

  **Program** — a pipe that is closed is not read to its end for that alone: a reader that waits for room in the queue
  when the drain period is over is stopped like one whose pipe is still held open.  So the promise is about the reader
  that saw the end of its pipe, or about runs whose drain period did not run out.
-/
import Wheelwright.Proofs.Process.Rehearsed
import Wheelwright.Rehearsal.Tasks

namespace Wheelwright

open LineReader (lineFeed linesOf decode)

/-! ## Diagnostics

  A stage makes one diagnostic of each line that it hears, in the order in which it hears them, and maybe a warning at
  the end. -/

namespace Rehearsal

variable {w : Rehearsal} {n : Nat} {t : StageTask} {body : BackendStage} {fingerprint : Option String}

/-- Why the fingerprint of a command that succeeded could not be recorded. -/
def unsaved? (w : Rehearsal) (s : BackendStage) (fingerprint : Option String) (o : ExitOutcome) : Option BuildError :=
  match o.isSuccess, s.staleness, fingerprint with
  | true, some c, some f => ((w.store c.store).record c.key f w.today w.tree).2.2
  | _, _, _ => none

/-- **A stage says what it heard, line by line, and a warning if its fingerprint was not recorded.** -/
theorem conclude_said (w : Rehearsal) (n : Nat) (t : StageTask) (body : BackendStage) (fingerprint : Option String)
    (o : ExitOutcome) (lines : List OutputLine) : ∃ (w' : Rehearsal) (r : StageResult),
    w.conclude n t body fingerprint o lines = w'.finish n t r ∧
      r.diagnostics = lines.map body.classifier.classify ++
        ((w.unsaved? body fingerprint o).map BackendStage.unsavedWarning).toList := by
  -- the result says what it was given to say
  have hsaid : ∀ said message, (body.conclude o said message).diagnostics = said := by
    intro said message
    rw [BackendStage.conclude]
    cases body.failure? o said message with
    | none => rfl
    | some f => rfl
  -- a warning is added if the record could not be saved
  by_cases hsuccess : o.isSuccess = true
  · refine ⟨(w.record body fingerprint).1, _, by rw [conclude, if_pos hsuccess], ?_⟩
    rw [hsaid, BackendStage.diagnose]
    cases hstale : body.staleness with
    | none => simp [record, unsaved?, hstale]
    | some c =>
      cases fingerprint with
      | none => simp [record, unsaved?, hstale]
      | some f => simp [record, unsaved?, hstale, hsuccess]
  · refine ⟨w, _, by rw [conclude, if_neg hsuccess], ?_⟩
    rw [hsaid, BackendStage.diagnose]
    simp [unsaved?, hsuccess]

/-- What is reported of a process that is gone. -/
theorem report_of_gone {p : LaunchedProcess} {d : Departure} (hp : w.processes[n]? = some p) (hgone : p.gone = some d)
    (ht : w.tasks[p.task]? = some t) (hphase : t.phase = .playing fingerprint) (hbody : t.body = .backend body) :
    w.report n = { w with tree := d.course.change (fun time => 0 < time && time ≤ d.time) w.tree }.conclude p.task t body
      fingerprint d.outcome (d.lines (w.now - p.launchedAt)) := by
  rw [report, hp]
  simp only [hgone, ht, hphase, hbody]

end Rehearsal

/-! ## The promise

  What is promised of each stream for itself and in any order of steps, as structures with a field for each part. -/

namespace Relay

/-- All lines of a stream. -/
def allLines (s : Relay) (st : OutputStream) : List OutputLine := (linesOf (s.pipes st).written).map (decode st)

/-- What two readers, the stage and the supervisor have made of the lines of a process when they are at `s`. -/
structure Heard (s : Relay) : Prop where
  /-- What was heard of a stream is the beginning of its lines. -/
  begins : ∀ st, s.received.filter (·.stream = st) <+: s.allLines st
  /-- What was read stays, also when the process is stopped or its output given up. -/
  stays : ∀ more later, s.follow more = some later → s.received ++ s.queue <+: later.received ++ later.queue
  /-- Once the supervisor sent the outcome because the readers ended, every line of a reader that came to the end of
      its pipe is heard or waits in the queue. -/
  sent : ∀ o, s.keeper = .sent o → s.readersOver = true ∧ ∀ st, (s.pipes st).phase = .ended →
    (s.received ++ s.queue).filter (·.stream = st) = s.allLines st
  /-- Once the stage has the outcome, nothing waits and nothing comes after it, and of every reader that came to the
      end of its pipe it has heard each line once. -/
  done : ∀ o, s.listener = .done o → s.keeper.sent? = some o ∧ s.queue = [] ∧ s.readersOver = true ∧
    (∀ st, (s.pipes st).phase = .ended → s.received.filter (·.stream = st) = s.allLines st) ∧
    ∀ more later, s.follow more = some later → later.listener = .done o ∧ later.received = s.received
  /-- When nobody writes any more and the process has ended, steps of the three come to an end, which is the outcome. -/
  comes_to_end : s.Ending → ∀ more later, (∀ e ∈ more, e.isOwn = true) → s.follow more = some later →
    more.length ≤ s.work ∧ (later.IsDone ∨ ∃ e, e.isOwn = true ∧ (later.step e).isSome = true)
  /-- The diagnostics are those of the lines in the order in which they were heard, and a warning after them if the
      fingerprint of a success was not recorded. -/
  diagnosed : ∀ (w : Rehearsal) n t (body : BackendStage) fingerprint o, ∃ (w' : Rehearsal) (r : StageResult),
    w.conclude n t body fingerprint o s.received = w'.finish n t r ∧
      r.diagnostics = s.asked.map body.classifier.classify ++ s.rest.map body.classifier.classify ++
        ((w.unsaved? body fingerprint o).map BackendStage.unsavedWarning).toList

/-- **What a process says is heard**, in every order of the steps of two readers, the stage and the supervisor, for any
    bytes, any end of the process and any moment at which the stage asks for all the rest. -/
structure ReceivesLines : Prop where
  /-- Every run of the machine hears what is written. -/
  hears : ∀ events s, ({} : Relay).follow events = some s → s.Heard
  /-- If no pipe was unreadable and the drain period did not run out, both readers come to the end of their pipes. -/
  calm : ∀ events s, ({} : Relay).follow events = some s → (∀ e ∈ events, e.isCalm = true) → s.readersOver = true →
    ∀ st, (s.pipes st).phase = .ended
  /-- The lines of a stream are its bytes, cut at each line feed; a last line without one is given one. -/
  cut : ∀ bytes, (linesOf bytes).flatMap (· ++ [lineFeed]) =
    bytes ++ (if bytes.getLast?.all (· = lineFeed) then [] else [lineFeed]) ∧ ∀ l ∈ linesOf bytes, lineFeed ∉ l
  /-- What a rehearsal reports of a process that is gone is what such a run brings the stage. -/
  reported : ∀ (w : Rehearsal) n p d t body fingerprint, w.processes[n]? = some p → p.gone = some d →
    w.tasks[p.task]? = some t → t.phase = .playing fingerprint → t.body = .backend body →
    ∃ events s, ({} : Relay).follow events = some s ∧ s.listener = .done d.outcome ∧
      (∀ st, (s.pipes st).written = bytesOf (d.course.written d.time (w.now - p.launchedAt)) st) ∧
      (d.course.closedAt d.time ≤ w.now - p.launchedAt → ∀ st, (s.pipes st).phase = .ended) ∧
      w.report n =
        { w with tree := d.course.change (fun time => 0 < time && time ≤ d.time) w.tree }.conclude p.task t body
          fingerprint d.outcome (d.course.lines ++ s.received)

/-- Every state that a relay comes to is one in which lines are heard as they should be. -/
theorem Sound.heard_lines {s : Relay} (h : s.Sound) : s.Heard := by
  -- each part is one of the invariants, read at the end
  constructor
  case begins => exact h.begins_received
  case stays => exact fun more later hmore => h.kept hmore
  case sent =>
    intro o ho
    refine ⟨h.joined o ho, fun st hst => ?_⟩
    rw [h.ledger st, (h.pipes st).passed_eq hst]
    rfl
  case done =>
    intro o ho
    obtain ⟨hqueue, hover⟩ := h.heard (Or.inr ⟨o, ho⟩)
    exact ⟨h.obtained o ho, hqueue, hover, fun st hst => h.received_eq hqueue hst,
      fun more later hmore => done_of_follow ho hmore⟩
  case comes_to_end => exact fun hending more later hown hmore => hending.ends h hown hmore
  case diagnosed =>
    intro w n t body fingerprint o
    obtain ⟨w', r, hfinish, hsaid⟩ := w.conclude_said n t body fingerprint o s.received
    refine ⟨w', r, hfinish, ?_⟩
    rw [hsaid, received, List.map_append]

/-- Every line is heard once, and one after the other of its stream. -/
theorem received_lines : ReceivesLines := by
  constructor
  case hears => exact fun events s hs => (Sound.start.follow hs : s.Sound).heard_lines
  case calm => exact fun events s hs hcalm hover st => (Calm.start.follow hcalm hs).ended hover st
  case cut =>
    intro bytes
    exact ⟨LineReader.flatMap_remaining [] bytes List.not_mem_nil,
      LineReader.lineFeed_notMem_remaining [] bytes List.not_mem_nil⟩
  case reported =>
    intro w n p d t body fingerprint hp hgone ht hphase hbody
    obtain ⟨s, ⟨events, hs⟩, hdone, hlines, hwritten, hended⟩ :=
      exists_linesRead d.course d.time (w.now - p.launchedAt) d.outcome
    refine ⟨events, s, hs, hdone, hwritten, hended, ?_⟩
    rw [Rehearsal.report_of_gone hp hgone ht hphase hbody, Departure.lines, hlines]

/-- A process writes to both pipes; the stage hears one line of `stderr`, and then asks for all the rest while `stdout`
    is still open.  The last line has no line feed. -/
def mixedRun : List Event :=
  [.write .stdout [97], .write .stderr [99, 10], .read .stdout, .read .stderr, .read .stderr, .pass .stderr, .receive,
    .decide (.exited (some 0)), .finish, .write .stdout [10, 98], .close .stderr, .read .stdout, .pass .stdout,
    .read .stderr, .receive, .close .stdout, .read .stdout, .read .stdout, .pass .stdout, .read .stdout, .join,
    .receive, .drained, .obtain]

/-- The stage has heard each line once. -/
theorem received_lines_mixedRun : ∃ s, ({} : Relay).follow mixedRun = some s ∧
    s.listener = .done (.exited (some 0)) ∧ s.asked = [decode .stderr [99]] ∧
    s.received.filter (·.stream = .stdout) = [decode .stdout [97], decode .stdout [98]] ∧
    s.received.filter (·.stream = .stderr) = [decode .stderr [99]] := by
  have hrun : (({} : Relay).follow mixedRun).map (fun s => (s.listener, s.asked, (s.pipes .stdout).written,
      (s.pipes .stderr).written)) = some (.done (.exited (some 0)), [decode .stderr [99]], [97, 10, 98], [99, 10]) := rfl
  obtain ⟨s, hs, hrun⟩ := Option.map_eq_some_iff.mp hrun
  simp only [Prod.mk.injEq] at hrun
  obtain ⟨hdone, hasked, hout, herr⟩ := hrun
  obtain ⟨-, -, hover, hall, -⟩ := (received_lines.hears mixedRun s hs).done _ hdone
  have hended := received_lines.calm mixedRun s hs (by decide) hover
  refine ⟨s, hs, hdone, hasked, ?_, ?_⟩
  · rw [hall _ (hended _), allLines, hout]
    rfl
  · rw [hall _ (hended _), allLines, herr]
    rfl

end Relay

end Wheelwright
