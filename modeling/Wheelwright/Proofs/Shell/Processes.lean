/-
  Processes — what a supervisor may rely on, whatever program it runs.

  **Specification** — the courses of a process that a shell starts are in order and in time (`ordered_of_conductOf`,
  `timely_of_conductOf`), whenever it is asked to end.  So what a supervisor has read stays as it is (`supervised_lines_prefix`),
  and of a process that it does not disturb it reads all that the process wrote (`mem_written_of_undisturbed`).

  **Program** — a command names a program, its arguments and its variables.  The process of the program is run by a shell
  that keeps a list of what was written and when; the course of the process is this list in order.

  **The crux** — the list tells the process's own output by the number zero, and the process starts with an empty list; so
  what the session of a script follows (`follows_run`) is all there is to know about it.
-/
import Wheelwright.Proofs.Process.Readings
import Wheelwright.Proofs.Shell.Statements

namespace Wheelwright.Shell

variable {s t : Session} {tree : FileTree} {c : Command} {conduct : Conduct}

/-- A process starts with nothing written. -/
theorem chunks_sessionOf (tree : FileTree) (c : Command) (directory : Location) (asked : Option Nat) :
    (sessionOf tree c directory asked).chunks = [] := by
  have hexports (s : Session) (name : String) : (s.exports name).chunks = s.chunks := by
    rw [Session.exports.eq_def]
    split
    · rfl
    · rfl
  have hfold (brought : List (String × String)) (s : Session) :
      (brought.foldl (fun s v => (s.assign (ofText v.1) (ofText v.2)).exports (ofText v.1)) s).chunks = s.chunks := by
    induction brought generalizing s with
    | nil => rfl
    | cons v rest ih => exact (ih _).trans (hexports _ _)
  exact hfold _ _

/-! ## Courses

  What a session has written is sorted by time, and that list is its course.  Nothing is known of the program but that
  its session follows an empty one. -/

/-- Sorted by time, entries stand in the order of time. -/
theorem pairwise_mergeSort_time {α : Type} (time : α → Nat) (l : List α) :
    (l.mergeSort fun a b => time a ≤ time b).Pairwise fun a b => time a ≤ time b := by
  have hsorted := @List.pairwise_mergeSort α (fun a b => decide (time a ≤ time b))
    (fun a b c hab hbc => by
      rw [decide_eq_true_eq] at hab hbc ⊢
      exact Nat.le_trans hab hbc)
    (fun a b => by
      rw [Bool.or_eq_true, decide_eq_true_eq, decide_eq_true_eq]
      exact Nat.le_total _ _) l
  exact hsorted.imp of_decide_eq_true

/-- The course of a session is in the order of its times. -/
theorem Session.ordered_course (s : Session) : s.course.Ordered :=
  ⟨pairwise_mergeSort_time Chunk.time _, pairwise_mergeSort_time Prod.fst _⟩

/-- A process does not end before its clock stands where it stands. -/
theorem Session.now_le_ending (s : Session) {e : Nat × Option Int} (he : s.course.ending = some e) : s.now ≤ e.1 := by
  rw [Session.course] at he
  dsimp only at he
  split at he
  · cases he
    exact Nat.le_refl _
  · split at he
    · cases he
    · obtain ⟨asked, -, rfl⟩ := Option.map_eq_some_iff.mp he
      exact Nat.le_max_right _ _
  · cases he
    exact Nat.le_refl _

/-- What a process writes itself is written before its end. -/
theorem Session.Follows.timely_course (h : s.Follows t) (hnone : s.chunks = []) : t.course.Timely := by
  intro k hk hown e he
  obtain ⟨x, hx, rfl⟩ : ∃ x ∈ t.chunks, x.2 = k := by
    obtain ⟨x, hx, hxk⟩ := List.mem_map.mp ((List.mergeSort_perm _ _).mem_iff.mp hk)
    exact ⟨x, List.mem_reverse.mp hx, hxk⟩
  rcases h.written x hx with hold | ⟨hdetached, htime⟩
  · rw [hnone] at hold
    cases hold
  · have hzero : x.1 = 0 := by
      rw [hown] at hdetached
      exact bne_eq_false_iff_eq.mp hdetached.symm
    exact Nat.le_trans (htime hzero).2 (t.now_le_ending he)

/-- Whenever a process is asked to end, its course is what a session that was empty has come to. -/
theorem exists_session_of_conductOf (h : conductOf tree c = .ok conduct) (asked : Option Nat) :
    ∃ s t : Session, s.Follows t ∧ s.chunks = [] ∧ conduct asked = t.course := by
  rw [conductOf] at h
  dsimp only at h
  rw [Except.mapError.eq_def] at h
  -- the command was found, and runs in a session of its own
  split at h
  · cases h
  · rename_i hstart
    cases h
    split at hstart
    · cases hstart
    · obtain ⟨directory, -, hstart⟩ := exists_of_bind_eq_ok hstart
      obtain ⟨found, -, hstart⟩ := exists_of_bind_eq_ok hstart
      cases hstart
      have hfollows := follows_run (sessionOf tree c directory asked) found (c.args.map ofText)
      refine ⟨_, _, hfollows, chunks_sessionOf _ _ _ _, ?_⟩
      cases asked with
      | none => rfl
      | some asked => rfl

/-- **A course is in order**, whatever program it is the course of. -/
theorem ordered_of_conductOf (h : conductOf tree c = .ok conduct) (asked : Option Nat) : (conduct asked).Ordered := by
  obtain ⟨s, t, -, -, hcourse⟩ := exists_session_of_conductOf h asked
  exact hcourse ▸ t.ordered_course

/-- **And in time.** -/
theorem timely_of_conductOf (h : conductOf tree c = .ok conduct) (asked : Option Nat) : (conduct asked).Timely := by
  obtain ⟨s, t, hfollows, hnone, hcourse⟩ := exists_session_of_conductOf h asked
  exact hcourse ▸ hfollows.timely_course hnone

/-! ## Supervision

  A supervisor looks at a course at its own times, and a process that is asked to end has another course from then on.
  So it is first said which course it looks at. -/

/-- A supervisor sees one of the courses of a process. -/
theorem exists_supervised_course (p : Patience) (conduct : Conduct) (deadline : Option Nat) (stop : Option String) :
    ∃ asked, (Departure.supervised p conduct deadline stop).course = conduct asked := by
  rw [Departure.supervised.eq_def]
  -- stopped early, at its deadline, or not at all
  extract_lets course interrupt
  have hinterrupt (outcome : ExitOutcome) (time : Nat) : ∃ asked, (interrupt outcome time).course = conduct asked := by
    dsimp only [interrupt]
    split
    · split
      · exact ⟨none, rfl⟩
      · exact ⟨some time, rfl⟩
    · exact ⟨some time, rfl⟩
  split
  · split
    · exact hinterrupt _ _
    · exact hinterrupt _ _
  · exact hinterrupt _ _
  · exact hinterrupt _ _
  · exact ⟨none, rfl⟩

/-- **What a supervisor has read of a process stays as it is**, whatever program the process runs. -/
theorem supervised_lines_prefix (h : conductOf tree c = .ok conduct) (p : Patience) (deadline : Option Nat)
    (stop : Option String) {last later : Nat} (hgone : (Departure.supervised p conduct deadline stop).time ≤ last)
    (hlast : last ≤ later) :
    (Departure.supervised p conduct deadline stop).course.linesEnded
        (Departure.supervised p conduct deadline stop).time last <+:
      (Departure.supervised p conduct deadline stop).lines later := by
  obtain ⟨asked, hcourse⟩ := exists_supervised_course p conduct deadline stop
  have hordered : (Departure.supervised p conduct deadline stop).course.Ordered :=
    hcourse ▸ ordered_of_conductOf h asked
  exact hordered.lines_prefix hgone hlast

/-- **A process that is not disturbed is heard to its end**: what it wrote itself is read, however soon the reader gives up
    its children. -/
theorem mem_written_of_undisturbed (h : conductOf tree c = .ok conduct) (p : Patience) {e : Nat × Option Int}
    (he : (conduct none).ending = some e) {k : Chunk} (hk : k ∈ (conduct none).chunks) (hown : k.detached = false)
    (last : Nat) :
    k ∈ (Departure.supervised p conduct none none).course.written (Departure.supervised p conduct none none).time last := by
  have hdeparture : Departure.supervised p conduct none none = .byItself (conduct none) e := by
    rw [Departure.supervised.eq_def]
    dsimp only [Option.bind_none]
    rw [he, Option.getD_some]
  rw [hdeparture]
  exact (timely_of_conductOf h none).mem_written he hk hown last

end Wheelwright.Shell
