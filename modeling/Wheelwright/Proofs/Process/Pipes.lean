/-
  Pipes — the lines of a process on their way to the stage that it runs for.

  **Machine** — two readers share a queue of limited length.  A reader takes bytes from its pipe; when a line has ended,
  or the pipe, it waits for room and puts the line into the queue.  The stage asks for lines one at a time, and at some
  point for all the rest and the outcome.  The supervisor has the outcome at any time, but keeps it until both readers
  have ended, or the drain period is over and they are stopped.  All of them, and the process, take their steps in any
  order.

  **Specification** — what the stage hears of a stream is the beginning of the lines of that, in order; it has the outcome
  only when it has heard all that was read, and that is every line if the reader came to the end of its pipe.

  **The crux** — a line is in one place: heard, in the queue, in a reader's hand, or among bytes that have not been read.
  For each stream these places, one after the other, spell its lines (`Pipe.Sound.lines`, `Relay.Sound.ledger`).
-/
import Wheelwright.Rehearsal.Tasks
import Mathlib.Data.List.Basic

namespace Wheelwright

/-! ## Lines of bytes

  Lines of bytes, for a reader that has begun one already.  A line feed ends what was begun, and any other byte is
  added to it. -/

namespace LineReader

/-- The lines that are to come, of a line that was begun and the bytes after it. -/
def remaining (begun bytes : Bytes) : List Bytes := (feed begun bytes).2 ++ closing (feed begun bytes).1

/-- Nothing remains but the line that was begun. -/
theorem remaining_nil (begun : Bytes) : remaining begun [] = closing begun := rfl

/-- A line feed ends it. -/
theorem remaining_lineFeed (begun rest : Bytes) :
    remaining begun (lineFeed :: rest) = begun.reverse :: remaining [] rest := by
  rw [remaining, feed, if_pos rfl]
  rfl

/-- Any other byte is added to it. -/
theorem remaining_cons {b : UInt8} (h : b ≠ lineFeed) (begun rest : Bytes) :
    remaining begun (b :: rest) = remaining (b :: begun) rest := by
  rw [remaining, feed, if_neg h]
  rfl

/-- A line is closed unless it is empty. -/
theorem closing_eq (begun : Bytes) : closing begun = if begun = [] then [] else [begun.reverse] := by
  cases begun <;> rfl

/-- A line is closed by a line feed, and the last one at least by the end. -/
theorem flatMap_remaining (begun bytes : Bytes) (hbegun : lineFeed ∉ begun) :
    (remaining begun bytes).flatMap (· ++ [lineFeed]) = begun.reverse ++ bytes ++
      if (begun.reverse ++ bytes).getLast?.all (· = lineFeed) then [] else [lineFeed] := by
  induction bytes generalizing begun with
  | nil =>
    rw [remaining_nil, closing_eq, List.append_nil, List.getLast?_reverse]
    -- the end closes the line that was begun; only there a line feed is missing
    cases begun with
    | nil => rfl
    | cons b rest =>
      have hb : b ≠ lineFeed := fun heq => hbegun (heq ▸ List.mem_cons_self)
      simp [hb]
  | cons b rest ih =>
    by_cases hb : b = lineFeed
    · subst hb
      rw [remaining_lineFeed, List.flatMap_cons, ih [] List.not_mem_nil]
      cases rest with
      | nil => simp
      | cons c rest => simp [List.getLast?_append, List.getLast?_cons]
    · rw [remaining_cons hb, ih (b :: begun) ?_, List.reverse_cons, List.append_assoc begun.reverse]
      · rfl
      · rw [List.mem_cons, not_or]
        exact ⟨fun heq => hb heq.symm, hbegun⟩

/-- No line has a line feed in it. -/
theorem lineFeed_notMem_remaining (begun bytes : Bytes) (hbegun : lineFeed ∉ begun) :
    ∀ l ∈ remaining begun bytes, lineFeed ∉ l := by
  -- no byte of a line is a line feed, as that one would have ended it
  induction bytes generalizing begun with
  | nil =>
    intro l hl
    rw [remaining_nil, closing_eq] at hl
    split at hl
    · cases hl
    · rw [List.mem_singleton.mp hl, List.mem_reverse]
      exact hbegun
  | cons b rest ih =>
    intro l hl
    by_cases hb : b = lineFeed
    · subst hb
      rw [remaining_lineFeed] at hl
      rcases List.mem_cons.mp hl with rfl | hl
      · rw [List.mem_reverse]
        exact hbegun
      · exact ih [] List.not_mem_nil l hl
    · rw [remaining_cons hb] at hl
      refine ih (b :: begun) ?_ l hl
      rw [List.mem_cons, not_or]
      exact ⟨fun heq => hb heq.symm, hbegun⟩

/-- A line is one of the stream it was read from. -/
theorem stream_decode (st : OutputStream) (line : Bytes) : (decode st line).stream = st := rfl

end LineReader

open LineReader (lineFeed linesOf remaining)

/-! ## A pipe and its reader

  One pipe with one reader.  What has been passed on, what is in the reader's hand and what is to come make up the
  lines of all that was written, as long as the reader has not been stopped. -/

/-- Where a reader is. -/
inductive PipePhase where
  /-- It reads on. -/
  | reading
  /-- It has a line, and waits for room in the queue. -/
  | holding (line : Bytes)
  /-- It came to the end of the pipe. -/
  | ended
  /-- It was stopped, or could not read. -/
  | stopped
  deriving DecidableEq

/-- A pipe and its reader. -/
structure Pipe where
  /-- All that was written to it. -/
  written : Bytes := []
  /-- What it has not read of that. -/
  unread : Bytes := []
  /-- Nothing more will be written. -/
  closed : Bool := false
  /-- The line that was begun, its last byte first. -/
  begun : Bytes := []
  /-- What the reader is doing. -/
  phase : PipePhase := .reading
  /-- The lines that the reader put into the queue. -/
  passed : List Bytes := []
  deriving DecidableEq

namespace Pipe

variable {p p' : Pipe}

/-- Bytes are written behind what is unread, as long as the pipe is open. -/
def write (p : Pipe) (bytes : Bytes) : Option Pipe :=
  if p.closed then none else some { p with written := p.written ++ bytes, unread := p.unread ++ bytes }

/-- Nobody can write to it any more. -/
def close (p : Pipe) : Option Pipe := if p.closed then none else some { p with closed := true }

/-- The reader takes a byte, or sees the end. -/
def read (p : Pipe) : Option Pipe :=
  match p.phase, p.unread with
  | .reading, b :: rest =>
    if b = lineFeed then some { p with unread := rest, begun := [], phase := .holding p.begun.reverse }
    else some { p with unread := rest, begun := b :: p.begun }
  | .reading, [] =>
    if p.closed then
      if p.begun = [] then some { p with phase := .ended }
      else some { p with begun := [], phase := .holding p.begun.reverse }
    else none
  | _, _ => none

/-- What a reader does that takes a step by itself. -/
inductive Reads (p : Pipe) : Pipe → Prop
  /-- A byte that is no line feed is added to the line. -/
  | byte {b : UInt8} {rest : Bytes} (hphase : p.phase = .reading) (hunread : p.unread = b :: rest) (hb : b ≠ lineFeed) :
      Reads p { p with unread := rest, begun := b :: p.begun }
  /-- A line feed ends it. -/
  | line {rest : Bytes} (hphase : p.phase = .reading) (hunread : p.unread = lineFeed :: rest) :
      Reads p { p with unread := rest, begun := [], phase := .holding p.begun.reverse }
  /-- The last line has no line feed. -/
  | lastLine (hphase : p.phase = .reading) (hunread : p.unread = []) (hclosed : p.closed = true) (hbegun : p.begun ≠ []) :
      Reads p { p with begun := [], phase := .holding p.begun.reverse }
  /-- Nothing is left, and the pipe is closed. -/
  | eof (hphase : p.phase = .reading) (hunread : p.unread = []) (hclosed : p.closed = true) (hbegun : p.begun = []) :
      Reads p { p with phase := .ended }

/-- A read is one of these four. -/
theorem reads_of_read (h : p.read = some p') : Reads p p' := by
  rw [read] at h
  -- by what is unread and, at the end, by what was begun
  split at h
  · rename_i b rest hphase hunread
    split at h
    · rename_i hb
      subst hb
      cases h
      exact .line hphase hunread
    · rename_i hb
      cases h
      exact .byte hphase hunread hb
  · rename_i hphase hunread
    split at h
    · rename_i hclosed
      split at h
      · rename_i hbegun
        cases h
        exact .eof hphase hunread hclosed hbegun
      · rename_i hbegun
        cases h
        exact .lastLine hphase hunread hclosed hbegun
    · cases h
  · cases h

/-- The reader puts its line into the queue. -/
def pass (p : Pipe) : Option (Bytes × Pipe) :=
  match p.phase with
  | .holding line => some (line, { p with phase := .reading, passed := p.passed ++ [line] })
  | _ => none

/-- The reader is there no more. -/
def isOver (p : Pipe) : Bool := p.phase = .ended || p.phase = .stopped

/-- The reader stops; what it had is lost. -/
def stop (p : Pipe) : Option Pipe := if p.isOver then none else some { p with phase := .stopped }

/-- The line in the reader's hand. -/
def hand (p : Pipe) : List Bytes :=
  match p.phase with
  | .holding line => [line]
  | _ => []

/-- Nothing is lost as long as the reader goes on: its lines, with those to come, are the lines of the pipe, whatever may
    still be written. -/
structure Sound (p : Pipe) : Prop where
  /-- Lines in the queue or beyond, the line in hand and what remains are the lines of all that was written, whatever
      may still be written. -/
  lines : p.phase ≠ .stopped → ∀ more, (p.closed = true → more = []) →
    p.passed ++ p.hand ++ remaining p.begun (p.unread ++ more) = linesOf (p.written ++ more)
  /-- So what was passed on are the first of these lines. -/
  begins : ∀ more, (p.closed = true → more = []) → p.passed <+: linesOf (p.written ++ more)
  /-- At the end they are all of them. -/
  ended : p.phase = .ended → p.closed = true ∧ p.unread = [] ∧ p.begun = []

namespace Sound

/-- A pipe is sound as it starts. -/
theorem start : Sound {} where
  lines _ _ _ := rfl
  begins more _ := List.nil_prefix
  ended h := by cases h

/-- It is sound after more is written. -/
theorem write {bytes : Bytes} (h : p.Sound) (hw : p.write bytes = some p') : p'.Sound := by
  rw [Pipe.write] at hw
  split at hw
  · cases hw
  · rename_i hopen
    cases hw
    have hmay : ∀ more, p.closed = true → bytes ++ more = [] := fun _ hclosed => absurd hclosed hopen
    refine ⟨fun hp more _ => ?_, fun more _ => ?_, fun hp => ?_⟩
    · show _ ++ _ ++ remaining p.begun (p.unread ++ bytes ++ more) = linesOf (p.written ++ bytes ++ more)
      rw [List.append_assoc p.unread, List.append_assoc p.written]
      exact h.lines hp (bytes ++ more) (hmay more)
    · rw [List.append_assoc]
      exact h.begins (bytes ++ more) (hmay more)
    · exact absurd (h.ended hp).1 hopen

/-- It is sound after it is closed. -/
theorem close (h : p.Sound) (hc : p.close = some p') : p'.Sound := by
  rw [Pipe.close] at hc
  split at hc
  · cases hc
  · rename_i hopen
    cases hc
    refine ⟨fun hp more _ => h.lines hp more fun hclosed => absurd hclosed hopen,
      fun more _ => h.begins more fun hclosed => absurd hclosed hopen, fun hp => ?_⟩
    exact absurd (h.ended hp).1 hopen

/-- **The reader keeps the lines**: a line that has ended is in its hand. -/
theorem read (h : p.Sound) (hr : p.read = some p') : p'.Sound := by
  have hlines : p.phase = .reading → ∀ more, (p.closed = true → more = []) →
      p.passed ++ remaining p.begun (p.unread ++ more) = linesOf (p.written ++ more) := by
    intro hphase more hmore
    rw [← h.lines (by rw [hphase]; exact PipePhase.noConfusion) more hmore, hand, hphase, List.append_nil]
  -- what is read moves from the unread bytes to the line, and no byte is lost
  cases reads_of_read hr with
  | @byte b rest hphase hunread hb =>
    refine ⟨fun _ more hmore => ?_, h.begins, fun hp => ?_⟩
    · rw [← hlines hphase more hmore, hunread, List.cons_append, LineReader.remaining_cons hb, hand, hphase,
        List.append_nil]
    · rw [hphase] at hp
      cases hp
  | line hphase hunread =>
    refine ⟨fun _ more hmore => ?_, h.begins, fun hp => by cases hp⟩
    rw [← hlines hphase more hmore, hunread, List.cons_append, LineReader.remaining_lineFeed]
    exact List.append_assoc _ _ _
  | lastLine hphase hunread hclosed hbegun =>
    refine ⟨fun _ more hmore => ?_, h.begins, fun hp => by cases hp⟩
    obtain rfl := hmore hclosed
    have hlast : remaining p.begun [] = [p.begun.reverse] := by
      rw [LineReader.remaining_nil, LineReader.closing_eq, if_neg hbegun]
    rw [← hlines hphase [] fun _ => rfl, hunread, List.append_nil, hlast]
    exact List.append_nil _
  | eof hphase hunread hclosed hbegun =>
    refine ⟨fun _ more hmore => ?_, h.begins, fun _ => ⟨hclosed, hunread, hbegun⟩⟩
    rw [← hlines hphase more hmore]
    exact congrArg (· ++ _) (List.append_nil _)

/-- A line that is passed on was in hand. -/
theorem pass {line : Bytes} (h : p.Sound) (hp : p.pass = some (line, p')) : p'.Sound := by
  rw [Pipe.pass] at hp
  split at hp
  · rename_i held hphase
    cases hp
    have hlines : ∀ more, (p.closed = true → more = []) →
        p.passed ++ [line] ++ remaining p.begun (p.unread ++ more) = linesOf (p.written ++ more) := by
      intro more hmore
      rw [← h.lines (by rw [hphase]; exact PipePhase.noConfusion) more hmore, hand, hphase]
    refine ⟨fun _ more hmore => ?_, fun more hmore => ?_, fun hp => by cases hp⟩
    · rw [← hlines more hmore]
      exact congrArg (· ++ _) (List.append_nil _)
    · rw [← hlines more hmore]
      exact List.prefix_append _ _
  · cases hp

/-- A reader that is stopped has passed on its lines so far. -/
theorem stop (h : p.Sound) (hs : p.stop = some p') : p'.Sound := by
  rw [Pipe.stop] at hs
  split at hs
  · cases hs
  · cases hs
    exact ⟨fun hp => absurd rfl hp, h.begins, fun hp => by cases hp⟩

/-- **A reader that came to the end has passed every line.** -/
theorem passed_eq (h : p.Sound) (hp : p.phase = .ended) : p.passed = linesOf p.written := by
  obtain ⟨-, hunread, hbegun⟩ := h.ended hp
  have hlines := h.lines (by rw [hp]; exact PipePhase.noConfusion) [] fun _ => rfl
  rw [hunread, hbegun, hand, hp, List.append_nil, List.append_nil, List.append_nil] at hlines
  exact (List.append_nil _).symm.trans hlines

/-- What was passed on are the first lines of what was written. -/
theorem begins_passed (h : p.Sound) : p.passed <+: linesOf p.written := by
  have hbegins := h.begins [] fun _ => rfl
  rwa [List.append_nil] at hbegins

end Sound

/-! ## What the reader leaves

  What a reader does to its pipe is also told for the machine around it: it keeps being there, and the lines behind it
  are the same. -/

/-- The reader is still there if it was, with the same lines behind it. -/
structure Goes (p p' : Pipe) : Prop where
  /-- No line is passed on. -/
  passed : p'.passed = p.passed
  /-- A reader that is over stays so. -/
  staysOver : p.isOver = true → p'.isOver = true
  /-- A closed pipe stays closed. -/
  closed : p.closed = true → p'.closed = true
  /-- No reader is stopped. -/
  stopped : p'.phase = .stopped → p.phase = .stopped

/-- Writing changes nothing else. -/
theorem goes_of_write {bytes : Bytes} (h : p.write bytes = some p') : Goes p p' := by
  rw [write] at h
  split at h
  · cases h
  · cases h
    exact ⟨rfl, id, id, id⟩

/-- Closing changes nothing else either. -/
theorem goes_of_close (h : p.close = some p') : Goes p p' := by
  rw [close] at h
  split at h
  · cases h
  · cases h
    exact ⟨rfl, id, fun _ => rfl, id⟩

/-- Neither does reading. -/
theorem goes_of_read (h : p.read = some p') : Goes p p' := by
  have hthere : p.phase = .reading → p.isOver = true → p'.isOver = true := fun hphase hover => by
    rw [isOver, hphase] at hover
    cases hover
  cases reads_of_read h with
  | byte hphase => exact ⟨rfl, hthere hphase, id, id⟩
  | line hphase | lastLine hphase | eof hphase => exact ⟨rfl, hthere hphase, id, fun hp => by cases hp⟩

/-- Stopping a reader changes its phase alone. -/
theorem stop_eq_some (h : p.stop = some p') : p' = { p with phase := .stopped } := by
  rw [stop] at h
  split at h
  · cases h
  · cases h
    rfl

/-- A reader passes on the line in its hand. -/
theorem pass_eq_some {line : Bytes} (h : p.pass = some (line, p')) :
    p.phase = .holding line ∧ p' = { p with phase := .reading, passed := p.passed ++ [line] } := by
  rw [pass] at h
  split at h
  · rename_i held hphase
    cases h
    exact ⟨hphase, rfl⟩
  · cases h

end Pipe

/-! ## The machine

  Two pipes with a queue between them and the stage, and the supervisor beside them.  Each event is one step of one of
  the parts, and the order of events is free. -/

/-- How many lines the queue has room for. -/
def lineBuffer : Nat := 1024

/-- Where the stage is that hears the lines. -/
inductive Listener where
  /-- It asks for lines one at a time. -/
  | asking
  /-- It asks for all the rest. -/
  | finishing
  /-- There are no more lines; it waits for the outcome. -/
  | awaiting
  | done (outcome : ExitOutcome)
  deriving DecidableEq

/-- Where the supervisor is that has the outcome. -/
inductive Keeper where
  /-- The process has not ended. -/
  | running
  /-- It waits for the readers. -/
  | joining (outcome : ExitOutcome)
  | sent (outcome : ExitOutcome)
  /-- It sent the outcome when the drain period was over; readers that are left will be stopped. -/
  | gaveUp (outcome : ExitOutcome)
  deriving DecidableEq

/-- The outcome that the supervisor has sent. -/
def Keeper.sent? : Keeper → Option ExitOutcome
  | .running | .joining _ => none
  | .sent o | .gaveUp o => some o

/-- Two pipes, the queue, and what the stage has heard. -/
structure Relay where
  /-- The two pipes, each with its reader. -/
  pipes : OutputStream → Pipe := fun _ => {}
  /-- The lines on the way from the readers to the stage. -/
  queue : List OutputLine := []
  /-- The lines that the stage asked for one at a time. -/
  asked : List OutputLine := []
  /-- The lines that it got with the outcome. -/
  rest : List OutputLine := []
  /-- The stage, and who looks after the process. -/
  listener : Listener := .asking
  keeper : Keeper := .running

namespace Relay

/-- What happens, one thing at a time. -/
inductive Event where
  /-- Somebody writes to a pipe. -/
  | write (st : OutputStream) (bytes : Bytes)
  /-- The last one that could write to a pipe closes it. -/
  | close (st : OutputStream)
  /-- The process ends, or is made to. -/
  | decide (o : ExitOutcome)
  /-- A pipe cannot be read. -/
  | fail (st : OutputStream)
  /-- The drain period is over. -/
  | expire
  /-- A reader is stopped. -/
  | abort (st : OutputStream)
  /-- A reader takes a byte, or sees the end of its pipe. -/
  | read (st : OutputStream)
  /-- A reader puts its line into the queue. -/
  | pass (st : OutputStream)
  /-- The stage gets a line. -/
  | receive
  /-- The stage asks for all the rest. -/
  | finish
  /-- The stage hears that there are no more lines. -/
  | drained
  /-- The stage gets the outcome. -/
  | obtain
  /-- The supervisor sends the outcome: both readers have ended. -/
  | join

/-- All lines that the stage has heard. -/
def received (s : Relay) : List OutputLine := s.asked ++ s.rest

/-- The machine with one of its pipes changed. -/
def withPipe (s : Relay) (st : OutputStream) (p : Pipe) : Relay :=
  { s with pipes := fun x => if x = st then p else s.pipes x }

/-- No line can come any more. -/
def readersOver (s : Relay) : Bool := (s.pipes .stdout).isOver && (s.pipes .stderr).isOver

/-- The state after an event, if that can happen. -/
def step (s : Relay) : Event → Option Relay
  | .write st bytes => ((s.pipes st).write bytes).map (s.withPipe st)
  | .close st => (s.pipes st).close.map (s.withPipe st)
  | .decide o => if s.keeper = .running then some { s with keeper := .joining o } else none
  | .fail st => if (s.pipes st).phase = .reading then (s.pipes st).stop.map (s.withPipe st) else none
  | .expire =>
    match s.keeper with
    | .joining o => some { s with keeper := .gaveUp o }
    | _ => none
  | .abort st =>
    match s.keeper with
    | .gaveUp _ => (s.pipes st).stop.map (s.withPipe st)
    | _ => none
  | .read st => (s.pipes st).read.map (s.withPipe st)
  | .pass st =>
    if s.queue.length < lineBuffer then
      (s.pipes st).pass.map fun (line, p) =>
        { s.withPipe st p with queue := s.queue ++ [LineReader.decode st line] }
    else none
  | .receive =>
    match s.listener, s.queue with
    | .asking, l :: queue => some { s with queue, asked := s.asked ++ [l] }
    | .finishing, l :: queue => some { s with queue, rest := s.rest ++ [l] }
    | _, _ => none
  | .finish => if s.listener = .asking then some { s with listener := .finishing } else none
  | .drained =>
    if s.listener = .finishing ∧ s.queue = [] ∧ s.readersOver = true then some { s with listener := .awaiting } else none
  | .obtain =>
    match s.listener, s.keeper.sent? with
    | .awaiting, some o => some { s with listener := .done o }
    | _, _ => none
  | .join =>
    match s.keeper with
    | .joining o => if s.readersOver then some { s with keeper := .sent o } else none
    | _ => none

/-- The state after some events, if all of them can happen. -/
def follow : Relay → List Event → Option Relay
  | s, [] => some s
  | s, e :: rest => (s.step e).bind fun next => follow next rest

variable {s s' : Relay} {e : Event} {events : List Event} {st : OutputStream} {o : ExitOutcome}

/-- The first event, and then the others. -/
theorem follow_cons {rest : List Event} : s.follow (e :: rest) = some s' ↔
    ∃ next, s.step e = some next ∧ next.follow rest = some s' := by
  rw [follow, Option.bind_eq_some_iff]

/-- What each event does. -/
inductive Moves (s : Relay) : Event → Relay → Prop
  /-- Outside: bytes are written, a pipe is closed. -/
  | writes {st : OutputStream} {bytes : Bytes} {p : Pipe} (hwrite : (s.pipes st).write bytes = some p) :
      Moves s (.write st bytes) (s.withPipe st p)
  | closes {st : OutputStream} {p : Pipe} (hclose : (s.pipes st).close = some p) :
      Moves s (.close st) (s.withPipe st p)
  /-- Inside: a pipe is read from, and readers fail or are stopped. -/
  | reads {st : OutputStream} {p : Pipe} (hread : (s.pipes st).read = some p) : Moves s (.read st) (s.withPipe st p)
  | fails {st : OutputStream} {p : Pipe} (hstop : (s.pipes st).stop = some p) : Moves s (.fail st) (s.withPipe st p)
  | aborts {st : OutputStream} {p : Pipe} {o : ExitOutcome} (hkeeper : s.keeper = .gaveUp o)
      (hstop : (s.pipes st).stop = some p) : Moves s (.abort st) (s.withPipe st p)
  /-- A line gets into the queue if there is room. -/
  | passes {st : OutputStream} {line : Bytes} {p : Pipe} (hroom : s.queue.length < lineBuffer)
      (hpass : (s.pipes st).pass = some (line, p)) :
      Moves s (.pass st) { s.withPipe st p with queue := s.queue ++ [LineReader.decode st line] }
  | asked {l : OutputLine} {queue : List OutputLine} (hlistener : s.listener = .asking) (hqueue : s.queue = l :: queue) :
      Moves s .receive { s with queue, asked := s.asked ++ [l] }
  | rest {l : OutputLine} {queue : List OutputLine} (hlistener : s.listener = .finishing)
      (hqueue : s.queue = l :: queue) : Moves s .receive { s with queue, rest := s.rest ++ [l] }
  | finish (hlistener : s.listener = .asking) : Moves s .finish { s with listener := .finishing }
  | drained (hlistener : s.listener = .finishing) (hqueue : s.queue = []) (hover : s.readersOver = true) :
      Moves s .drained { s with listener := .awaiting }
  | obtains {o : ExitOutcome} (hlistener : s.listener = .awaiting) (hsent : s.keeper.sent? = some o) :
      Moves s .obtain { s with listener := .done o }
  /-- The outcome is decided. -/
  | decides {o : ExitOutcome} (hkeeper : s.keeper = .running) : Moves s (.decide o) { s with keeper := .joining o }
  /-- It is sent when both readers are over. -/
  | joins {o : ExitOutcome} (hkeeper : s.keeper = .joining o) (hover : s.readersOver = true) :
      Moves s .join { s with keeper := .sent o }
  /-- Or it is sent without waiting longer. -/
  | expires {o : ExitOutcome} (hkeeper : s.keeper = .joining o) : Moves s .expire { s with keeper := .gaveUp o }

theorem moves_of_step (h : s.step e = some s') : Moves s e s' := by
  -- each event with its guard
  cases e with
  | write st bytes =>
    obtain ⟨p, hp, rfl⟩ := Option.map_eq_some_iff.mp h
    exact .writes hp
  | close st =>
    obtain ⟨p, hp, rfl⟩ := Option.map_eq_some_iff.mp h
    exact .closes hp
  | decide o =>
    rw [step] at h
    split at h
    · rename_i hkeeper
      cases h
      exact .decides hkeeper
    · cases h
  | fail st =>
    rw [step] at h
    split at h
    · obtain ⟨p, hp, rfl⟩ := Option.map_eq_some_iff.mp h
      exact .fails hp
    · cases h
  | expire =>
    rw [step] at h
    split at h
    · rename_i hkeeper
      cases h
      exact .expires hkeeper
    · cases h
  | abort st =>
    rw [step] at h
    split at h
    · rename_i hkeeper
      obtain ⟨p, hp, rfl⟩ := Option.map_eq_some_iff.mp h
      exact .aborts hkeeper hp
    · cases h
  | read st =>
    obtain ⟨p, hp, rfl⟩ := Option.map_eq_some_iff.mp h
    exact .reads hp
  | pass st =>
    rw [step] at h
    split at h
    · rename_i hroom
      obtain ⟨⟨line, p⟩, hp, rfl⟩ := Option.map_eq_some_iff.mp h
      exact .passes hroom hp
    · cases h
  | receive =>
    rw [step] at h
    split at h
    · rename_i hlistener hqueue
      cases h
      exact .asked hlistener hqueue
    · rename_i hlistener hqueue
      cases h
      exact .rest hlistener hqueue
    · cases h
  | finish =>
    rw [step] at h
    split at h
    · rename_i hlistener
      cases h
      exact .finish hlistener
    · cases h
  | drained =>
    rw [step] at h
    split at h
    · rename_i hmay
      cases h
      exact .drained hmay.1 hmay.2.1 hmay.2.2
    · cases h
  | obtain =>
    rw [step] at h
    split at h
    · rename_i hlistener hsent
      cases h
      exact .obtains hlistener hsent
    · cases h
  | join =>
    rw [step] at h
    split at h
    · rename_i hkeeper
      split at h
      · rename_i hover
        cases h
        exact .joins hkeeper hover
      · cases h
    · cases h

/-! ## The invariant

  The parts together: what was passed on a stream has been heard or waits in the queue, in this order.  It is the
  pipe's own invariant that says which lines these are. -/

/-- Each pipe is sound; what was passed of a stream is what was heard of it and what waits in the queue; and the stage
    is never ahead of the readers. -/
structure Sound (s : Relay) : Prop where
  /-- Each pipe is sound. -/
  pipes : ∀ st, (s.pipes st).Sound
  /-- What each stream brought, received or queued, are the lines that its reader passed on. -/
  ledger : ∀ st, (s.received ++ s.queue).filter (·.stream = st) =
    (s.pipes st).passed.map (LineReader.decode st)
  /-- While the stage asks for single lines it has no rest. -/
  asking : s.listener = .asking → s.rest = []
  /-- When it waits for the outcome, there is nothing left for it. -/
  heard : (s.listener = .awaiting ∨ ∃ o, s.listener = .done o) → s.queue = [] ∧ s.readersOver = true
  /-- The outcome is sent when both readers are over. -/
  joined : ∀ o, s.keeper = .sent o → s.readersOver = true
  /-- What was sent is what the stage gets. -/
  obtained : ∀ o, s.listener = .done o → s.keeper.sent? = some o

/-- Readers are over when each is. -/
theorem readersOver_eq_true : s.readersOver = true ↔ ∀ st, (s.pipes st).isOver = true := by
  rw [readersOver, Bool.and_eq_true]
  refine ⟨fun h st => ?_, fun h => ⟨h _, h _⟩⟩
  cases st with
  | stdout => exact h.1
  | stderr => exact h.2

/-- Changing a pipe changes no other. -/
theorem pipes_withPipe (s : Relay) (st : OutputStream) (p : Pipe) (x : OutputStream) :
    (s.withPipe st p).pipes x = if x = st then p else s.pipes x := rfl

namespace Sound

/-- The machine is sound as it starts. -/
theorem start : Sound {} where
  pipes _ := .start
  ledger _ := rfl
  asking _ := rfl
  heard h := by
    rcases h with h | ⟨o, h⟩
    · cases h
    · cases h
  joined _ h := by cases h
  obtained _ h := by cases h

/-- A reader that is over stays so. -/
theorem readersOver_withPipe {p : Pipe} (hover : (s.pipes st).isOver = true → p.isOver = true)
    (h : s.readersOver = true) : (s.withPipe st p).readersOver = true := by
  rw [readersOver_eq_true] at h ⊢
  intro x
  rw [pipes_withPipe]
  split
  · exact hover (h st)
  · exact h x

/-- A pipe that is changed without passing anything on keeps the machine sound. -/
theorem of_pipes (h : s.Sound) {p : Pipe} (hsound : p.Sound) (hpassed : p.passed = (s.pipes st).passed)
    (hover : (s.pipes st).isOver = true → p.isOver = true) : (s.withPipe st p).Sound where
  pipes x := by
    rw [pipes_withPipe]
    split
    · exact hsound
    · exact h.pipes x
  ledger x := by
    rw [pipes_withPipe]
    refine (h.ledger x).trans ?_
    split
    · rename_i heq
      rw [hpassed, heq]
    · rfl
  asking := h.asking
  heard hl := ⟨(h.heard hl).1, readersOver_withPipe hover (h.heard hl).2⟩
  joined o ho := readersOver_withPipe hover (h.joined o ho)
  obtained := h.obtained

/-- So does any such change. -/
theorem of_goes (h : s.Sound) {p : Pipe} (hsound : p.Sound) (hgoes : (s.pipes st).Goes p) : (s.withPipe st p).Sound :=
  h.of_pipes hsound hgoes.passed hgoes.staysOver

/-- So does the stop of a reader. -/
theorem of_stop (h : s.Sound) {p : Pipe} (hstop : (s.pipes st).stop = some p) : (s.withPipe st p).Sound := by
  have hsound := (h.pipes st).stop hstop
  obtain rfl := Pipe.stop_eq_some hstop
  exact h.of_pipes hsound rfl fun _ => rfl

/-- **A line goes from a reader's hand into the queue.** -/
theorem of_pass (h : s.Sound) {line : Bytes} {p : Pipe} (hp : (s.pipes st).pass = some (line, p)) :
    { s.withPipe st p with queue := s.queue ++ [LineReader.decode st line] }.Sound := by
  obtain ⟨hphase, rfl⟩ := Pipe.pass_eq_some hp
  -- a reader with a line in its hand is not over
  have hbusy : ¬ s.readersOver = true := by
    intro hover
    have hthis := readersOver_eq_true.mp hover st
    rw [Pipe.isOver, hphase] at hthis
    cases hthis
  refine ⟨fun x => ?_, fun x => ?_, h.asking, fun hl => absurd (h.heard hl).2 hbusy,
    fun o ho => absurd (h.joined o ho) hbusy, h.obtained⟩
  -- the line moves from the reader's hand to the end of the queue
  · show ((s.withPipe st _).pipes x).Sound
    rw [pipes_withPipe]
    split
    · exact (h.pipes st).pass hp
    · exact h.pipes x
  · show (s.received ++ (s.queue ++ [LineReader.decode st line])).filter (·.stream = x) =
      ((s.withPipe st _).pipes x).passed.map (LineReader.decode x)
    rw [← List.append_assoc, List.filter_append, h.ledger x, pipes_withPipe]
    split
    · rename_i heq
      subst heq
      simp [LineReader.stream_decode]
    · rename_i hne
      simp [LineReader.stream_decode, Ne.symm hne]

/-- **Every step keeps the invariant.** -/
theorem step (h : s.Sound) (hs : s.step e = some s') : s'.Sound := by
  -- events outside and of the readers change a pipe; the others change the stage or the keeper
  cases moves_of_step hs with
  | writes hwrite => exact h.of_goes ((h.pipes _).write hwrite) (Pipe.goes_of_write hwrite)
  | closes hclose => exact h.of_goes ((h.pipes _).close hclose) (Pipe.goes_of_close hclose)
  | reads hread => exact h.of_goes ((h.pipes _).read hread) (Pipe.goes_of_read hread)
  | fails hstop | aborts _ hstop => exact h.of_stop hstop
  | passes hroom hpass => exact h.of_pass hpass
  -- a line moves from the queue to the stage
  | @asked l queue hlistener hqueue =>
    have hrest := h.asking hlistener
    refine ⟨h.pipes, fun x => ?_, h.asking, fun hl => ?_, h.joined, h.obtained⟩
    · rw [← h.ledger x, hqueue, received, received, hrest]
      simp
    · rw [hlistener] at hl
      simp at hl
  | @rest l queue hlistener hqueue =>
    refine ⟨h.pipes, fun x => ?_, fun hl => ?_, fun hl => ?_, h.joined, h.obtained⟩
    · rw [← h.ledger x, hqueue, received, received]
      simp
    · rw [hlistener] at hl
      cases hl
    · rw [hlistener] at hl
      simp at hl
  | finish hlistener =>
    refine ⟨h.pipes, h.ledger, fun hl => (by cases hl), fun hl => ?_, h.joined, fun o hl => (by cases hl)⟩
    simp at hl
  | drained hlistener hqueue hover =>
    exact ⟨h.pipes, h.ledger, fun hl => (by cases hl), fun _ => ⟨hqueue, hover⟩, h.joined, fun o hl => (by cases hl)⟩
  | obtains hlistener hsent =>
    refine ⟨h.pipes, h.ledger, fun hl => (by cases hl), fun _ => h.heard (Or.inl hlistener), h.joined, fun o hl => ?_⟩
    cases hl
    exact hsent
  -- the outcome is decided once, and the stage has none before
  | decides hkeeper =>
    refine ⟨h.pipes, h.ledger, h.asking, h.heard, fun o ho => (by cases ho), fun o ho => ?_⟩
    have hsent := h.obtained o ho
    rw [hkeeper] at hsent
    cases hsent
  | joins hkeeper hover =>
    refine ⟨h.pipes, h.ledger, h.asking, h.heard, fun _ _ => hover, fun o ho => ?_⟩
    have hsent := h.obtained o ho
    rw [hkeeper] at hsent
    cases hsent
  | expires hkeeper =>
    refine ⟨h.pipes, h.ledger, h.asking, h.heard, fun o ho => (by cases ho), fun o ho => ?_⟩
    have hsent := h.obtained o ho
    rw [hkeeper] at hsent
    cases hsent

/-- It is sound after any sequence of events. -/
theorem follow (h : s.Sound) (hs : s.follow events = some s') : s'.Sound := by
  induction events generalizing s with
  | nil =>
    cases hs
    exact h
  | cons e rest ih =>
    obtain ⟨next, hstep, hrest⟩ := follow_cons.mp hs
    exact ih (h.step hstep) hrest

/-- **What was heard of a stream is the beginning of its lines.** -/
theorem begins_received (h : s.Sound) (st : OutputStream) : s.received.filter (·.stream = st) <+:
    (linesOf (s.pipes st).written).map (LineReader.decode st) := by
  refine List.IsPrefix.trans ?_ ((h.pipes st).begins_passed.map (LineReader.decode st))
  rw [← h.ledger st, List.filter_append]
  exact List.prefix_append _ _

/-- **When the queue is empty and the reader came to the end, every line was heard.** -/
theorem received_eq (h : s.Sound) (hqueue : s.queue = []) (hended : (s.pipes st).phase = .ended) :
    s.received.filter (·.stream = st) = (linesOf (s.pipes st).written).map (LineReader.decode st) := by
  have hledger := h.ledger st
  rwa [hqueue, List.append_nil, (h.pipes st).passed_eq hended] at hledger

end Sound

end Relay

end Wheelwright
