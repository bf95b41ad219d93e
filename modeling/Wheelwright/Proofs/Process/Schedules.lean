/-
  Schedules — what every order of steps has in common, and one order for what a rehearsal hears.

  **Specification** — nothing that was read is lost by a later step; only a reader that cannot read, or a drain period that
  is over, stops a reader; and once the pipes are closed and the outcome is there, readers, stage and supervisor come to
  an end in whatever order they go.

  **The measure** — a byte is worth four steps: it is read, and its line may be passed and heard (`Pipe.work`).
-/
import Wheelwright.Proofs.Process.Pipes

namespace Wheelwright

open LineReader (lineFeed linesOf)

/-! ## Work of a reader

  The work that is left to a reader, counted so that each of its steps and each step of a line after it makes the sum
  smaller. -/

namespace Pipe

variable {p p' : Pipe}

/-- How many steps a reader can still take, and its lines after it, at most. -/
def work (p : Pipe) : Nat :=
  match p.phase with
  | .reading => 4 * p.unread.length + (if p.begun = [] then 0 else 3) + 1
  | .holding _ => 4 * p.unread.length + (if p.begun = [] then 0 else 3) + 3
  | .ended | .stopped => 0

/-- The work of a reader that reads on. -/
theorem work_of_reading (h : p.phase = .reading) :
    p.work = 4 * p.unread.length + (if p.begun = [] then 0 else 3) + 1 := by
  rw [work, h]

/-- A read leaves less to do. -/
theorem work_read (h : p.read = some p') : p'.work < p.work := by
  -- four for each byte, so that a line that comes of one still costs less
  cases reads_of_read h with
  | @byte b rest hphase hunread hb =>
    have hnext : ({ p with unread := rest, begun := b :: p.begun } : Pipe).work = 4 * rest.length + 3 + 1 :=
      work_of_reading hphase
    rw [hnext, work_of_reading hphase, hunread, List.length_cons]
    omega
  | @line rest hphase hunread =>
    show 4 * rest.length + 0 + 3 < p.work
    rw [work_of_reading hphase, hunread, List.length_cons]
    omega
  | lastLine hphase hunread hclosed hbegun =>
    show 4 * p.unread.length + 0 + 3 < p.work
    rw [work_of_reading hphase, if_neg hbegun]
    omega
  | eof hphase =>
    show 0 < p.work
    rw [work_of_reading hphase]
    exact Nat.succ_pos _

/-- So does passing on a line. -/
theorem work_pass {line : Bytes} (h : p.pass = some (line, p')) : p'.work + 2 = p.work := by
  obtain ⟨hphase, rfl⟩ := pass_eq_some h
  rw [work, work, hphase]

/-- A reader of a closed pipe that is not over has a step. -/
theorem exists_step (hclosed : p.closed = true) (hover : ¬ p.isOver = true) :
    p.read.isSome ∨ p.pass.isSome := by
  -- it reads or holds a line; the others are over
  cases hphase : p.phase with
  | reading =>
    left
    cases hunread : p.unread with
    | nil =>
      by_cases hbegun : p.begun = []
      · simp [read, hphase, hunread, hclosed, hbegun]
      · simp [read, hphase, hunread, hclosed, hbegun]
    | cons b rest =>
      by_cases hb : b = lineFeed
      · simp [read, hphase, hunread, hb]
      · simp [read, hphase, hunread, hb]
  | holding line =>
    right
    simp [pass, hphase]
  | ended => simp [isOver, hphase] at hover
  | stopped => simp [isOver, hphase] at hover

end Pipe

/-- What the stage has still to do. -/
def Listener.work : Listener → Nat
  | .asking => 3
  | .finishing => 2
  | .awaiting => 1
  | .done _ => 0

/-- What the keeper of the process has still to do. -/
def Keeper.work : Keeper → Nat
  | .running => 2
  | .joining _ => 1
  | .sent _ | .gaveUp _ => 0

namespace Relay

variable {s s' : Relay} {e : Event} {events : List Event} {st : OutputStream} {o : ExitOutcome}

/-! ## What is kept

  Lines move from a reader to the queue and on to the stage, and none of them is dropped on the way.  A stage that has
  its outcome hears no more. -/

/-- What was heard and what waits stay, in their order. -/
theorem Sound.kept_of_step (h : s.Sound) (hs : s.step e = some s') :
    s.received ++ s.queue <+: s'.received ++ s'.queue := by
  -- a line that is passed joins the queue, and one that is heard leaves it at the front
  cases moves_of_step hs with
  | passes hroom hpass =>
    show s.received ++ s.queue <+: s.received ++ (s.queue ++ _)
    rw [← List.append_assoc]
    exact List.prefix_append _ _
  | @asked l queue hlistener hqueue =>
    rw [received, received, h.asking hlistener, hqueue]
    simp
  | @rest l queue hlistener hqueue =>
    rw [received, received, hqueue]
    simp
  | writes | closes | reads | fails | aborts | finish | drained | obtains | decides | joins | expires =>
    exact List.prefix_rfl

/-- **Nothing that was read is lost.** -/
theorem Sound.kept (h : s.Sound) (hs : s.follow events = some s') :
    s.received ++ s.queue <+: s'.received ++ s'.queue := by
  induction events generalizing s with
  | nil =>
    cases hs
    exact List.prefix_rfl
  | cons e rest ih =>
    obtain ⟨next, hstep, hrest⟩ := follow_cons.mp hs
    exact (h.kept_of_step hstep).trans (ih (h.step hstep) hrest)

/-- A stage that has the outcome hears nothing more. -/
theorem done_of_step (hdone : s.listener = .done o) (hs : s.step e = some s') :
    s'.listener = .done o ∧ s'.received = s.received := by
  cases moves_of_step hs with
  | writes | closes | reads | fails | aborts | passes | decides | joins | expires => exact ⟨hdone, rfl⟩
  | asked hlistener | rest hlistener | finish hlistener | drained hlistener | obtains hlistener =>
    rw [hdone] at hlistener
    cases hlistener

/-- A stage that has its outcome keeps it, and its lines. -/
theorem done_of_follow (hdone : s.listener = .done o) (hs : s.follow events = some s') :
    s'.listener = .done o ∧ s'.received = s.received := by
  induction events generalizing s with
  | nil =>
    cases hs
    exact ⟨hdone, rfl⟩
  | cons e rest ih =>
    obtain ⟨next, hstep, hrest⟩ := follow_cons.mp hs
    obtain ⟨hnext, hsame⟩ := done_of_step hdone hstep
    obtain ⟨hlast, hrest⟩ := ih hnext hrest
    exact ⟨hlast, hrest.trans hsame⟩

/-! ## Readers that are left alone

  A reader is stopped by two events only.  In runs without these it goes on to the end of its pipe. -/

/-- No pipe is unreadable, and the drain period is not over. -/
def Event.isCalm : Event → Bool
  | .fail _ | .expire => false
  | _ => true

/-- No reader was stopped, nor will be. -/
structure Calm (s : Relay) : Prop where
  /-- No reader was stopped. -/
  reading : ∀ st, (s.pipes st).phase ≠ .stopped
  /-- No reader is about to be stopped. -/
  patient : ∀ o, s.keeper ≠ .gaveUp o

namespace Calm

/-- At the start none was. -/
theorem start : Calm {} := ⟨fun _ => PipePhase.noConfusion, fun _ => Keeper.noConfusion⟩

/-- A pipe whose reader was not stopped may be put there. -/
theorem withPipe {p : Pipe} (h : s.Calm) (hp : p.phase ≠ .stopped) : (s.withPipe st p).Calm where
  reading x := by
    rw [pipes_withPipe]
    split
    · exact hp
    · exact h.reading x
  patient := h.patient

/-- Pipes that go on keep their readers. -/
theorem of_goes {p : Pipe} (h : s.Calm) (hgoes : (s.pipes st).Goes p) : (s.withPipe st p).Calm :=
  h.withPipe fun hp => h.reading st (hgoes.stopped hp)

/-- Calm events stop no reader. -/
theorem step (h : s.Calm) (hcalm : e.isCalm = true) (hs : s.step e = some s') : s'.Calm := by
  cases moves_of_step hs with
  | writes hwrite => exact h.of_goes (Pipe.goes_of_write hwrite)
  | closes hclose => exact h.of_goes (Pipe.goes_of_close hclose)
  | reads hread => exact h.of_goes (Pipe.goes_of_read hread)
  | fails | expires => cases hcalm
  | @aborts _ _ o hkeeper => exact absurd hkeeper (h.patient o)
  | @passes st line p hroom hpass =>
    have hnext : (s.withPipe st p).Calm := h.withPipe (by rw [(Pipe.pass_eq_some hpass).2]; exact PipePhase.noConfusion)
    exact ⟨hnext.reading, hnext.patient⟩
  | asked | rest | finish | drained | obtains => exact ⟨h.reading, h.patient⟩
  | decides | joins => exact ⟨h.reading, fun _ => Keeper.noConfusion⟩

/-- They stop none however many there are. -/
theorem follow (h : s.Calm) (hcalm : ∀ e ∈ events, e.isCalm = true) (hs : s.follow events = some s') : s'.Calm := by
  induction events generalizing s with
  | nil =>
    cases hs
    exact h
  | cons e rest ih =>
    obtain ⟨next, hstep, hrest⟩ := follow_cons.mp hs
    exact ih (h.step (hcalm e List.mem_cons_self) hstep) (fun e he => hcalm e (List.mem_cons_of_mem _ he)) hrest

/-- **Readers that are left alone come to the end of their pipes.** -/
theorem ended (h : s.Calm) (hover : s.readersOver = true) (st : OutputStream) : (s.pipes st).phase = .ended := by
  have hone := readersOver_eq_true.mp hover st
  rw [Pipe.isOver, Bool.or_eq_true, decide_eq_true_iff, decide_eq_true_iff] at hone
  exact hone.resolve_right (h.reading st)

end Calm

/-! ## Steps that are still to come

  Own steps need nobody from outside.  They make the sum of the work smaller, so there are only so many of them. -/

/-- Steps of readers, stage and supervisor that nothing from outside, and no clock, has a part in. -/
def Event.isOwn : Event → Bool
  | .read _ | .pass _ | .receive | .finish | .drained | .obtain | .join => true
  | _ => false

/-- How many own steps can still come, at most. -/
def work (s : Relay) : Nat :=
  (s.pipes .stdout).work + (s.pipes .stderr).work + s.queue.length + s.listener.work + s.keeper.work

/-- A reader's step counts for both. -/
theorem work_withPipe (s : Relay) (st : OutputStream) (p : Pipe) :
    (s.withPipe st p).work + (s.pipes st).work = s.work + p.work := by
  cases st with
  | stdout =>
    show p.work + (s.pipes .stderr).work + s.queue.length + s.listener.work + s.keeper.work + _ = _
    rw [work]
    omega
  | stderr =>
    show (s.pipes .stdout).work + p.work + s.queue.length + s.listener.work + s.keeper.work + _ = _
    rw [work]
    omega

/-- **Every own step is one less to come.** -/
theorem work_step (hown : e.isOwn = true) (hs : s.step e = some s') : s'.work < s.work := by
  -- a reader's step costs its work; a line in the queue costs one until it is received
  cases moves_of_step hs with
  | @reads st p hread =>
    have hless := Pipe.work_read hread
    have hsum := s.work_withPipe st p
    omega
  | @passes st line p hroom hpass =>
    have hless := Pipe.work_pass hpass
    have hsum := s.work_withPipe st p
    have hqueue : ({ s.withPipe st p with queue := s.queue ++ [LineReader.decode st line] } : Relay).work =
        (s.withPipe st p).work + 1 := by
      simp only [work, List.length_append, List.length_singleton]
      show _ + (s.queue.length + 1) + _ + _ = _ + s.queue.length + _ + _ + 1
      omega
    rw [hqueue]
    omega
  | asked hlistener hqueue | rest hlistener hqueue =>
    simp only [work, hqueue, List.length_cons]
    omega
  | finish hlistener | drained hlistener | obtains hlistener =>
    simp only [work, hlistener, Listener.work]
    omega
  | joins hkeeper =>
    simp only [work, hkeeper, Keeper.work]
    omega
  | writes | closes | fails | aborts | decides | expires => cases hown

/-! ## The end

  When nobody writes any more and the outcome is there, the parts come to their end by their own steps, in whatever
  order they make them. -/

/-- What own steps need to come to an end: nobody writes any more, and the outcome is there. -/
structure Ending (s : Relay) : Prop where
  /-- Nothing more is written. -/
  closed : ∀ st, (s.pipes st).closed = true
  /-- The process has ended. -/
  decided : s.keeper ≠ .running

/-- The stage has the outcome. -/
def IsDone (s : Relay) : Prop := ∃ o, s.listener = .done o

namespace Ending

/-- This stays so whatever becomes of a pipe. -/
theorem withPipe {p : Pipe} (h : s.Ending) (hp : (s.pipes st).closed = true → p.closed = true) :
    (s.withPipe st p).Ending where
  closed x := by
    rw [pipes_withPipe]
    split
    · exact hp (h.closed st)
    · exact h.closed x
  decided := h.decided

/-- It stays so in every step. -/
theorem step (h : s.Ending) (hs : s.step e = some s') : s'.Ending := by
  cases moves_of_step hs with
  | writes hwrite => exact h.withPipe (Pipe.goes_of_write hwrite).closed
  | closes hclose => exact h.withPipe (Pipe.goes_of_close hclose).closed
  | reads hread => exact h.withPipe (Pipe.goes_of_read hread).closed
  | fails hstop | aborts _ hstop => exact h.withPipe (by rw [Pipe.stop_eq_some hstop]; exact id)
  | @passes st line p hroom hpass =>
    have hnext : (s.withPipe st p).Ending := h.withPipe (by rw [(Pipe.pass_eq_some hpass).2]; exact id)
    exact ⟨hnext.closed, hnext.decided⟩
  | asked | rest | finish | drained | obtains => exact ⟨h.closed, h.decided⟩
  | decides hkeeper => exact absurd hkeeper h.decided
  | joins | expires => exact ⟨h.closed, Keeper.noConfusion⟩

/-- A stage that waits for the outcome, or has it, has nothing in the queue. -/
theorem exists_receive (hsound : s.Sound) {l : OutputLine} {queue : List OutputLine} (hqueue : s.queue = l :: queue) :
    (s.step .receive).isSome = true := by
  have hheard : ¬ (s.listener = .awaiting ∨ ∃ o, s.listener = .done o) := fun hl => by
    have hempty := (hsound.heard hl).1
    rw [hqueue] at hempty
    cases hempty
  cases hlistener : s.listener with
  | asking => simp [Relay.step, hlistener, hqueue]
  | finishing => simp [Relay.step, hlistener, hqueue]
  | awaiting => exact absurd (Or.inl hlistener) hheard
  | done o => exact absurd (Or.inr ⟨o, hlistener⟩) hheard

/-- **Somebody has a step, as long as the stage does not have the outcome.** -/
theorem exists_step (h : s.Ending) (hsound : s.Sound) (hdone : ¬ s.IsDone) :
    ∃ e, e.isOwn = true ∧ (s.step e).isSome = true := by
  -- lines in the queue are received; with none left, it is the turn of the keeper or the stage
  cases hqueue : s.queue with
  | cons l queue => exact ⟨.receive, rfl, exists_receive hsound hqueue⟩
  | nil =>
    by_cases hover : s.readersOver = true
    · cases hkeeper : s.keeper with
      | running => exact absurd hkeeper h.decided
      | joining o => exact ⟨.join, rfl, by simp [Relay.step, hkeeper, hover]⟩
      | sent o | gaveUp o =>
        cases hlistener : s.listener with
        | asking => exact ⟨.finish, rfl, by simp [Relay.step, hlistener]⟩
        | finishing => exact ⟨.drained, rfl, by simp [Relay.step, hlistener, hqueue, hover]⟩
        | awaiting => exact ⟨.obtain, rfl, by simp [Relay.step, hlistener, hkeeper, Keeper.sent?]⟩
        | done o => exact absurd ⟨o, hlistener⟩ hdone
    · -- the queue has room, so whichever reader is not over has a step
      rw [readersOver_eq_true, not_forall] at hover
      obtain ⟨st, hst⟩ := hover
      rcases Pipe.exists_step (h.closed st) hst with hread | hpass
      · exact ⟨.read st, rfl, by simpa [Relay.step] using hread⟩
      · exact ⟨.pass st, rfl, by simpa [Relay.step, hqueue, lineBuffer] using hpass⟩

/-- **Own steps end, and only with the outcome.** -/
theorem ends (h : s.Ending) (hsound : s.Sound) (hown : ∀ e ∈ events, e.isOwn = true)
    (hs : s.follow events = some s') :
    events.length ≤ s.work ∧ (s'.IsDone ∨ ∃ e, e.isOwn = true ∧ (s'.step e).isSome = true) := by
  -- on the events, each of which uses up some of the work
  induction events generalizing s with
  | nil =>
    cases hs
    refine ⟨Nat.zero_le _, ?_⟩
    by_cases hdone : s'.IsDone
    · exact Or.inl hdone
    · exact Or.inr (h.exists_step hsound hdone)
  | cons e rest ih =>
    obtain ⟨next, hstep, hrest⟩ := follow_cons.mp hs
    obtain ⟨hlength, hend⟩ :=
      ih (h.step hstep) (hsound.step hstep) (fun e he => hown e (List.mem_cons_of_mem _ he)) hrest
    have hless := work_step (hown e List.mem_cons_self) hstep
    refine ⟨?_, hend⟩
    rw [List.length_cons]
    omega

end Ending

end Relay

end Wheelwright
