/-
  Rehearsed output — a stage of a rehearsal hears nothing that a relay could not bring it.

  **Specification** — for every course, however long it is read, some run of the machine of two readers and a queue ends
  with the same lines and the same outcome; and if the course is read until its output is closed, both readers of that
  run come to the end of their pipes.

  **The crux** — a schedule in which every line is heard as soon as it has ended: the queue is empty between two
  bytes (`leads_of_unread`), so the machine stands where the one reader of a course stands (`Hears`).
-/
import Wheelwright.Process.Course
import Wheelwright.Proofs.Process.Schedules
import Mathlib.Data.List.Induction

namespace Wheelwright

open LineReader (lineFeed decode feed closing)

namespace Relay

variable {s s' : Relay} {st : OutputStream} {o : ExitOutcome}

/-- Some events lead from a state to another one. -/
def Leads (s s' : Relay) : Prop := ∃ events, s.follow events = some s'

namespace Leads

variable {s'' : Relay} {e : Event}

/-- A machine leads to itself. -/
theorem refl (s : Relay) : s.Leads s := ⟨[], rfl⟩

/-- A step leads on. -/
theorem head (hs : s.step e = some s') (h : s'.Leads s'') : s.Leads s'' := by
  obtain ⟨events, hevents⟩ := h
  exact ⟨e :: events, follow_cons.mpr ⟨s', hs, hevents⟩⟩

/-- Machines lead to one another in a row. -/
theorem trans (h : s.Leads s') (h' : s'.Leads s'') : s.Leads s'' := by
  obtain ⟨events, hevents⟩ := h
  induction events generalizing s with
  | nil =>
    cases hevents
    exact h'
  | cons e rest ih =>
    obtain ⟨next, hstep, hrest⟩ := follow_cons.mp hevents
    exact head hstep (ih hrest)

end Leads

/-! ## A line at a time

  One way to run the machine: each line is heard as soon as it has ended.  Between two bytes nothing waits in the
  queue, so there is always room. -/

/-- A pipe changes, and the stage hears lines. -/
def heard (s : Relay) (st : OutputStream) (p : Pipe) (lines : List OutputLine) : Relay :=
  { s.withPipe st p with asked := s.asked ++ lines }

/-- Changing the pipe again keeps the lines. -/
theorem withPipe_heard (s : Relay) (st : OutputStream) (p q : Pipe) (lines : List OutputLine) :
    (s.heard st p lines).withPipe st q = s.heard st q lines := by
  have hpipes : (fun x => if x = st then q else if x = st then p else s.pipes x) =
      fun x => if x = st then q else s.pipes x := by
    funext x
    split
    · rfl
    · rfl
  simp only [heard, withPipe, hpipes]

/-- The pipe that was heard is the one that was put there. -/
@[simp] theorem pipes_heard (s : Relay) (st : OutputStream) (p : Pipe) (lines : List OutputLine) :
    (s.heard st p lines).pipes st = p := if_pos rfl

/-- The other pipe is as it was. -/
theorem pipes_heard_of_ne {x : OutputStream} (h : x ≠ st) {p : Pipe} {lines : List OutputLine} :
    (s.heard st p lines).pipes x = s.pipes x := if_neg h

/-- The stage listens, and nothing waits for it. -/
structure Attentive (s : Relay) : Prop where
  /-- Nothing is on the way. -/
  queue : s.queue = []
  /-- The stage asks for the next line. -/
  listener : s.listener = .asking

/-- It still does after it has heard a line. -/
theorem Attentive.heard (h : s.Attentive) (st : OutputStream) (p : Pipe) (lines : List OutputLine) :
    (s.heard st p lines).Attentive :=
  ⟨h.queue, h.listener⟩

section

variable {p q : Pipe} {lines : List OutputLine}

/-- A reader goes on by itself. -/
theorem step_read (hread : p.read = some q) : (s.heard st p lines).step (.read st) = some (s.heard st q lines) := by
  rw [step, pipes_heard, hread, Option.map_some, withPipe_heard]

/-- A line that a reader has is heard at once. -/
theorem leads_of_pass (h : s.Attentive) {line : Bytes} (hpass : p.pass = some (line, q)) :
    (s.heard st p lines).Leads (s.heard st q (lines ++ [decode st line])) := by
  have hqueue : (s.heard st p lines).queue = [] := h.queue
  have hpassed : (s.heard st p lines).step (.pass st) =
      some { s.heard st q lines with queue := [decode st line] } := by
    rw [step, hqueue, pipes_heard, hpass, ← s.withPipe_heard st p q]
    rfl
  have hheard : ({ s.heard st q lines with queue := [decode st line] } : Relay).step .receive =
      some (s.heard st q (lines ++ [decode st line])) := by
    simp [step, heard, withPipe, h.listener, h.queue]
  exact .head hpassed (.head hheard (.refl _))

/-- **A reader takes bytes, and each line is heard as soon as it has ended.** -/
theorem leads_of_unread (h : s.Attentive) (bytes : Bytes) (hphase : p.phase = .reading) (hunread : p.unread = bytes) :
    (s.heard st p lines).Leads (s.heard st
      { p with unread := [], begun := (feed p.begun bytes).1, passed := p.passed ++ (feed p.begun bytes).2 }
      (lines ++ (feed p.begun bytes).2.map (decode st))) := by
  -- byte by byte: a line feed brings a line to the stage, any other byte is added to the line
  induction bytes generalizing p lines with
  | nil =>
    rw [LineReader.feed_nil, List.map_nil, List.append_nil, List.append_nil, ← hunread]
    exact .refl _
  | cons b rest ih =>
    by_cases hb : b = lineFeed
    · have hread : p.read = some { p with unread := rest, begun := [], phase := .holding p.begun.reverse } := by
        simp [Pipe.read, hphase, hunread, hb]
      have hrest := @ih { p with
          unread := rest, begun := [], phase := .reading, passed := p.passed ++ [p.begun.reverse] }
        (lines ++ [decode st p.begun.reverse]) rfl rfl
      refine .head (step_read hread) (.trans (leads_of_pass h rfl) ?_)
      simpa [feed, hb, hphase] using hrest
    · have hread : p.read = some { p with unread := rest, begun := b :: p.begun } := by
        simp [Pipe.read, hphase, hunread, hb]
      have hrest := @ih { p with unread := rest, begun := b :: p.begun } lines hphase rfl
      refine .head (step_read hread) ?_
      simpa [feed, hb] using hrest

/-- Bytes are written, and heard. -/
theorem leads_of_write (h : s.Attentive) (bytes : Bytes) (hphase : (s.pipes st).phase = .reading)
    (hunread : (s.pipes st).unread = []) (hopen : (s.pipes st).closed = false) : s.Leads (s.heard st
      { (s.pipes st) with
        written := (s.pipes st).written ++ bytes, unread := [], begun := (feed (s.pipes st).begun bytes).1
        passed := (s.pipes st).passed ++ (feed (s.pipes st).begun bytes).2 }
      ((feed (s.pipes st).begun bytes).2.map (decode st))) := by
  have hwrite : s.step (.write st bytes) = some (s.heard st
      { (s.pipes st) with written := (s.pipes st).written ++ bytes, unread := bytes } []) := by
    simp [step, Pipe.write, hopen, hunread, heard]
    rfl
  exact .head hwrite (leads_of_unread h bytes hphase rfl)

/-- A line that was begun is a line when the pipe is closed, and then the reader comes to the end. -/
theorem leads_of_close (st : OutputStream) (h : s.Attentive) (hphase : (s.pipes st).phase = .reading)
    (hunread : (s.pipes st).unread = []) (hopen : (s.pipes st).closed = false) :
    ∃ p : Pipe, p.phase = .ended ∧ p.written = (s.pipes st).written ∧
      s.Leads (s.heard st p ((closing (s.pipes st).begun).map (decode st))) := by
  have hclose : s.step (.close st) = some (s.heard st { (s.pipes st) with closed := true } []) := by
    simp [step, Pipe.close, hopen, heard]
    rfl
  -- a pipe ends at once, or after the line that was begun
  by_cases hbegun : (s.pipes st).begun = []
  · have hend : ({ (s.pipes st) with closed := true } : Pipe).read =
        some { (s.pipes st) with closed := true, phase := .ended } := by
      simp [Pipe.read, hphase, hunread, hbegun]
    rw [hbegun]
    refine ⟨{ (s.pipes st) with closed := true, phase := .ended }, rfl, rfl, ?_⟩
    exact .head hclose (.head (step_read hend) (.refl _))
  · have hread : ({ (s.pipes st) with closed := true } : Pipe).read =
        some { (s.pipes st) with closed := true, begun := [], phase := .holding (s.pipes st).begun.reverse } := by
      simp [Pipe.read, hphase, hunread, hbegun]
    let p : Pipe := { (s.pipes st) with
      closed := true, begun := [], phase := .reading, passed := (s.pipes st).passed ++ [(s.pipes st).begun.reverse] }
    have hend : p.read = some { p with phase := .ended } := by simp [p, Pipe.read, hunread]
    rw [LineReader.closing_eq, if_neg hbegun]
    refine ⟨{ p with phase := .ended }, rfl, rfl, .head hclose (.head (step_read hread) ?_)⟩
    exact .trans (leads_of_pass h rfl) (.head (step_read hend) (.refl _))

end

/-- The stage asks for the rest, and the outcome is there. -/
theorem leads_of_readersOver (h : s.Attentive) (hover : s.readersOver = true) (hsent : s.keeper.sent? = some o) :
    s.Leads { s with listener := .done o } := by
  have hfinish : s.step .finish = some { s with listener := .finishing } := by simp [step, h.listener]
  have hdrained : ({ s with listener := .finishing } : Relay).step .drained = some { s with listener := .awaiting } := by
    rw [step, if_pos ⟨rfl, h.queue, hover⟩]
  have hobtain : ({ s with listener := .awaiting } : Relay).step .obtain = some { s with listener := .done o } := by
    simp [step, hsent]
  exact .head hfinish (.head hdrained (.head hobtain (.refl _)))

/-- An outcome can be decided once. -/
theorem step_decide (hkeeper : s.keeper = .running) : s.step (.decide o) = some { s with keeper := .joining o } :=
  if_pos hkeeper

/-- A reader can be stopped after the drain period. -/
theorem step_abort (st : OutputStream) (hkeeper : s.keeper = .gaveUp o) (hphase : (s.pipes st).phase = .reading) :
    ∃ p : Pipe, p.isOver = true ∧ p.written = (s.pipes st).written ∧ s.step (.abort st) = some (s.heard st p []) := by
  refine ⟨{ (s.pipes st) with phase := .stopped }, rfl, rfl, ?_⟩
  simp [step, hkeeper, Pipe.stop, Pipe.isOver, hphase, heard]
  rfl

end Relay

/-! ## A course

  A course is read in chunks, and the machine is taken along chunk by chunk.  At the end the pipes are closed, or the
  drain period is over and what was begun is lost. -/

namespace Course.Reading

/-- The line that was begun on a stream. -/
def begun (r : Reading) : OutputStream → Bytes
  | .stdout => r.out
  | .stderr => r.err

/-- The lines that have ended, the first one first. -/
def heard (r : Reading) : List OutputLine := r.lines.reverse.map (·.2)

/-- A chunk is read into the line begun on its stream. -/
theorem begun_take (r : Reading) (k : Chunk) (st : OutputStream) :
    (r.take k).begun st = if st = k.stream then (feed (r.begun k.stream) k.bytes).1 else r.begun st := by
  cases hk : k.stream with
  | stdout => cases st <;> simp [take, hk, begun]
  | stderr => cases st <;> simp [take, hk, begun]

/-- The lines of a chunk are heard behind the others. -/
theorem heard_take (r : Reading) (k : Chunk) :
    (r.take k).heard = r.heard ++ (feed (r.begun k.stream) k.bytes).2.map (decode k.stream) := by
  cases hk : k.stream with
  | stdout => simp [take, hk, heard, begun]
  | stderr => simp [take, hk, heard, begun]

end Course.Reading

namespace Relay

variable {s s' : Relay} {chunks : List Chunk}

/-- The bytes of a stream. -/
def bytesOf (chunks : List Chunk) (st : OutputStream) : Bytes := (chunks.filter (·.stream = st)).flatMap (·.bytes)

/-- The machine stands where the readers of a course stand after some chunks. -/
structure Hears (s : Relay) (chunks : List Chunk) : Prop where
  /-- It waits for the next line, the process runs. -/
  attentive : s.Attentive
  keeper : s.keeper = .running
  /-- No line is a rest. -/
  rest : s.rest = []
  /-- The stage was given the lines of the chunks. -/
  asked : s.asked = (Course.reading chunks).heard
  /-- The readers read on. -/
  phase : ∀ st, (s.pipes st).phase = .reading
  /-- They have read all there is. -/
  unread : ∀ st, (s.pipes st).unread = []
  /-- The pipes are open. -/
  opened : ∀ st, (s.pipes st).closed = false
  /-- The lines begun are those of the chunks. -/
  begun : ∀ st, (s.pipes st).begun = (Course.reading chunks).begun st
  /-- What was written are the bytes of the chunks. -/
  written : ∀ st, (s.pipes st).written = bytesOf chunks st

namespace Hears

/-- Nothing is heard of no chunks. -/
theorem start : Hears {} [] where
  attentive := ⟨rfl, rfl⟩
  keeper := rfl
  rest := rfl
  asked := rfl
  phase _ := rfl
  unread _ := rfl
  opened _ := rfl
  begun st := by cases st <;> rfl
  written _ := rfl

/-- **The machine takes a chunk.** -/
theorem take (h : s.Hears chunks) (k : Chunk) : ∃ s', s.Leads s' ∧ s'.Hears (chunks ++ [k]) := by
  have hreading : Course.reading (chunks ++ [k]) = (Course.reading chunks).take k := List.foldl_append
  refine ⟨_, leads_of_write h.attentive k.bytes (h.phase k.stream) (h.unread k.stream) (h.opened k.stream), ?_⟩
  refine ⟨h.attentive.heard _ _ _, h.keeper, h.rest, ?_, fun st => ?_, fun st => ?_, fun st => ?_, fun st => ?_,
    fun st => ?_⟩
  -- the chunk changes the pipe of its stream, and that alone
  · rw [hreading, Course.Reading.heard_take, ← h.asked, ← h.begun]
    rfl
  all_goals by_cases hst : st = k.stream
  · rw [hst, pipes_heard]
    exact h.phase _
  · rw [pipes_heard_of_ne hst]
    exact h.phase st
  · rw [hst, pipes_heard]
  · rw [pipes_heard_of_ne hst]
    exact h.unread st
  · rw [hst, pipes_heard]
    exact h.opened _
  · rw [pipes_heard_of_ne hst]
    exact h.opened st
  · rw [hreading, Course.Reading.begun_take, if_pos hst, hst, pipes_heard, h.begun]
  · rw [hreading, Course.Reading.begun_take, if_neg hst, pipes_heard_of_ne hst, h.begun]
  · rw [hst, pipes_heard, h.written]
    simp [bytesOf]
  · rw [pipes_heard_of_ne hst, h.written]
    simp [bytesOf, Ne.symm hst]

/-- Any chunks can be heard. -/
theorem exists_hears (chunks : List Chunk) : ∃ s, ({} : Relay).Leads s ∧ s.Hears chunks := by
  induction chunks using List.reverseRecOn with
  | nil => exact ⟨{}, .refl _, start⟩
  | append_singleton before k ih =>
    obtain ⟨s, hs, hears⟩ := ih
    obtain ⟨s', hs', hnext⟩ := hears.take k
    exact ⟨s', hs.trans hs', hnext⟩

/-- What is heard of the lines that were begun. -/
def lastWords (chunks : List Chunk) : List OutputLine :=
  (closing (Course.reading chunks).out).map (decode .stdout) ++ (closing (Course.reading chunks).err).map (decode .stderr)

/-- The pipes are closed, and the readers come to the end. -/
theorem shut (h : s.Hears chunks) : ∃ s', s.Leads s' ∧ s'.Attentive ∧ s'.keeper = .running ∧
    s'.received = (Course.reading chunks).heard ++ lastWords chunks ∧
    ∀ st, (s'.pipes st).phase = .ended ∧ (s'.pipes st).written = bytesOf chunks st := by
  have hne : OutputStream.stderr ≠ .stdout := OutputStream.noConfusion
  -- one pipe after the other is closed, and a last line without a line feed is heard
  obtain ⟨p, hp, hpbytes, hout⟩ :=
    leads_of_close .stdout h.attentive (h.phase .stdout) (h.unread .stdout) (h.opened .stdout)
  have hnext := h.attentive.heard .stdout p ((closing (s.pipes .stdout).begun).map (decode .stdout))
  obtain ⟨q, hq, hqbytes, herr⟩ := leads_of_close .stderr hnext
    (by rw [pipes_heard_of_ne hne]; exact h.phase _) (by rw [pipes_heard_of_ne hne]; exact h.unread _)
    (by rw [pipes_heard_of_ne hne]; exact h.opened _)
  rw [pipes_heard_of_ne hne] at hqbytes
  refine ⟨_, hout.trans herr, hnext.heard .stderr q _, h.keeper, ?_, fun x => ?_⟩
  · rw [pipes_heard_of_ne hne, h.begun .stderr, h.begun .stdout]
    show s.asked ++ _ ++ _ ++ s.rest = _
    rw [h.asked, h.rest, List.append_nil, List.append_assoc]
    rfl
  · cases x with
    | stdout =>
      rw [pipes_heard_of_ne hne.symm, pipes_heard]
      exact ⟨hp, hpbytes.trans (h.written _)⟩
    | stderr =>
      rw [pipes_heard]
      exact ⟨hq, hqbytes.trans (h.written _)⟩

/-- **The pipes are closed in time**: what was begun is heard, and the outcome after it. -/
theorem closes (h : s.Hears chunks) (o : ExitOutcome) : ∃ s', s.Leads s' ∧ s'.listener = .done o ∧
    s'.received = (Course.reading chunks).heard ++ lastWords chunks ∧
    ∀ st, (s'.pipes st).phase = .ended ∧ (s'.pipes st).written = bytesOf chunks st := by
  obtain ⟨next, hnext, hattentive, hkeeper, hreceived, hended⟩ := h.shut
  have hover : next.readersOver = true := readersOver_eq_true.mpr fun st => by
    rw [Pipe.isOver, (hended st).1]
    rfl
  have hjoin : ({ next with keeper := .joining o } : Relay).step .join = some { next with keeper := .sent o } :=
    if_pos hover
  have hfinish := leads_of_readersOver (s := { next with keeper := .sent o }) ⟨hattentive.queue, hattentive.listener⟩
    hover rfl
  exact ⟨_, hnext.trans (.head (step_decide hkeeper) (.head hjoin hfinish)), rfl, hreceived, hended⟩

/-- **The drain period is over**: what was begun is lost. -/
theorem expires (h : s.Hears chunks) (o : ExitOutcome) : ∃ s', s.Leads s' ∧ s'.listener = .done o ∧
    s'.received = (Course.reading chunks).heard ∧ ∀ st, (s'.pipes st).written = bytesOf chunks st := by
  have hne : OutputStream.stderr ≠ .stdout := OutputStream.noConfusion
  -- nobody waits for the readers any longer, and they are stopped
  let late : Relay := { s with keeper := .gaveUp o }
  have hexpire : ({ s with keeper := .joining o } : Relay).step .expire = some late := rfl
  have hattentive : late.Attentive := ⟨h.attentive.queue, h.attentive.listener⟩
  obtain ⟨p, hp, hpbytes, hout⟩ := step_abort (s := late) (o := o) .stdout rfl (h.phase .stdout)
  obtain ⟨q, hq, hqbytes, herr⟩ := step_abort (s := late.heard .stdout p []) (o := o) .stderr rfl
    (by rw [pipes_heard_of_ne hne]; exact h.phase _)
  rw [pipes_heard_of_ne hne] at hqbytes
  have hover : ((late.heard .stdout p []).heard .stderr q []).readersOver = true := by
    rw [readersOver, pipes_heard, pipes_heard_of_ne hne.symm, pipes_heard, hp, hq]
    rfl
  have hfinish := leads_of_readersOver ((hattentive.heard .stdout p []).heard .stderr q []) hover rfl
  refine ⟨_, .head (step_decide h.keeper) (.head hexpire (.head hout (.head herr hfinish))), rfl, ?_, fun x => ?_⟩
  · show s.asked ++ _ ++ _ ++ s.rest = _
    rw [h.asked, h.rest, List.append_nil, List.append_nil, List.append_nil]
  · show (((late.heard .stdout p []).heard .stderr q []).pipes x).written = _
    cases x with
    | stdout =>
      rw [pipes_heard_of_ne hne.symm, pipes_heard]
      exact hpbytes.trans (h.written _)
    | stderr =>
      rw [pipes_heard]
      exact hqbytes.trans (h.written _)

end Hears

/-- **Whatever a rehearsal reads of a course, the machine can bring it**: to the last line if the output is closed by
    then, else up to the lines that were begun. -/
theorem exists_linesRead (c : Course) (gone last : Nat) (o : ExitOutcome) : ∃ s, ({} : Relay).Leads s ∧
    s.listener = .done o ∧ c.linesRead gone last = c.lines ++ s.received ∧
    (∀ st, (s.pipes st).written = bytesOf (c.written gone last) st) ∧
    (c.closedAt gone ≤ last → ∀ st, (s.pipes st).phase = .ended) := by
  obtain ⟨s, hs, hears⟩ := Hears.exists_hears (c.written gone last)
  by_cases hclosed : c.closedAt gone ≤ last
  · obtain ⟨s', hs', hdone, hreceived, hended⟩ := hears.closes o
    refine ⟨s', hs.trans hs', hdone, ?_, fun st => (hended st).2, fun _ st => (hended st).1⟩
    rw [hreceived, Course.linesRead, if_pos hclosed, List.append_assoc]
    rfl
  · obtain ⟨s', hs', hdone, hreceived, hwritten⟩ := hears.expires o
    refine ⟨s', hs.trans hs', hdone, ?_, hwritten, fun h => absurd h hclosed⟩
    rw [hreceived, Course.linesRead, if_neg hclosed, List.append_nil]
    rfl

end Relay

end Wheelwright
