/-
  Sessions — a shell goes on in time, and says what it says before it ends.

  **Specification** — `s.Follows t`: whatever has been done since `s`, the clock of `t` is no earlier, and all that was
  written since was written by a child, or by the process itself until now.

  **Program** — a session is a record with a clock; all that a script does goes through a handful of operations on it.
  A child is run to its end as soon as it starts, on a session whose clock goes ahead, and then the shell goes on where it
  was.  So the clock of the record that is handed on does go back, and what children wrote may be later than it.

  **The crux** — only a process with the number zero is the process itself, and no child ever has that number: while a
  child's session is ahead nothing of the process's own is written (`Follows.beside`).
-/
import Wheelwright.Shell.Session

namespace Wheelwright.Shell.Session

variable {s t u c start : Session}

/-- The session `t` comes after `s`. -/
structure Follows (s t : Session) : Prop where
  /-- It is the same process. -/
  owner : t.owner = s.owner
  /-- It is at the same time or later. -/
  now : s.now ≤ t.now
  /-- What was written since is a child's, or is the process's own and was written until now. -/
  written : ∀ x ∈ t.chunks, x ∈ s.chunks ∨
    x.2.detached = (x.1 != 0) ∧ (x.1 = 0 → s.owner = 0 ∧ x.2.time ≤ t.now)

namespace Follows

/-- A session follows itself. -/
theorem refl (s : Session) : s.Follows s := ⟨rfl, Nat.le_refl _, fun _ => Or.inl⟩

/-- Sessions follow one another in a row. -/
theorem trans (h : s.Follows t) (h' : t.Follows u) : s.Follows u where
  owner := h'.owner.trans h.owner
  now := Nat.le_trans h.now h'.now
  written x hx := by
    rcases h'.written x hx with hold | ⟨hdetached, hown⟩
    · refine (h.written x hold).imp_right fun ⟨hdetached, hown⟩ => ⟨hdetached, fun hzero => ?_⟩
      exact ⟨(hown hzero).1, Nat.le_trans (hown hzero).2 h'.now⟩
    · exact Or.inr ⟨hdetached, fun hzero => ⟨h.owner ▸ (hown hzero).1, (hown hzero).2⟩⟩

/-- Most of what a shell does concerns neither the clock nor what was written. -/
theorem of_eq (howner : t.owner = s.owner) (hnow : t.now = s.now) (hchunks : t.chunks = s.chunks) : s.Follows t :=
  ⟨howner, Nat.le_of_eq hnow.symm, fun _ hx => Or.inl (hchunks ▸ hx)⟩

/-- What follows a session follows any with the same output at the same time. -/
theorem of_start (h : t.Follows u) (howner : t.owner = s.owner) (hnow : t.now = s.now) (hchunks : t.chunks = s.chunks) :
    s.Follows u := (of_eq howner hnow hchunks).trans h

/-- A session that follows may be changed in anything else. -/
theorem of_end (h : s.Follows t) (howner : u.owner = t.owner) (hnow : u.now = t.now) (hchunks : u.chunks = t.chunks) :
    s.Follows u := h.trans (of_eq howner hnow hchunks)

/-- Both branches of a condition may follow. -/
theorem ite {p : Prop} [Decidable p] (h : s.Follows t) (h' : s.Follows u) : s.Follows (if p then t else u) := by
  split
  · exact h
  · exact h'

/-- What is done once for each follows at the end. -/
theorem foldl {α : Type} {f : Session → α → Session} (h : ∀ (s : Session) a, s.Follows (f s a)) (l : List α) (s : Session) :
    s.Follows (l.foldl f s) := by
  induction l generalizing s with
  | nil => exact refl s
  | cons a rest ih => exact (h s a).trans (ih _)

/-- Beside the session something else is gathered. -/
theorem foldl_fst {α β : Type} {f : Session × β → α → Session × β}
    (h : ∀ (p : Session × β) a, p.1.Follows (f p a).1) (l : List α) (p : Session × β) :
    p.1.Follows (l.foldl f p).1 := by
  induction l generalizing p with
  | nil => exact refl p.1
  | cons a rest ih => exact (h p a).trans (ih _)

/-- So it does when a result is carried along. -/
theorem foldl_snd {α β : Type} {f : β × Session → α → β × Session}
    (h : ∀ (p : β × Session) a, p.2.Follows (f p a).2) (l : List α) (p : β × Session) :
    p.2.Follows (l.foldl f p).2 := by
  induction l generalizing p with
  | nil => exact refl p.2
  | cons a rest ih => exact (h p a).trans (ih _)

end Follows

/-! ## Files and output

  Statuses, variables and files are no part of what follows, and what is written is written at the present time. -/

/-- A status, a variable and a change to files write nothing. -/
theorem follows_withStatus (s : Session) (status : Nat) : s.Follows (s.withStatus status) := .of_eq rfl rfl rfl

theorem follows_assign (s : Session) (name value : String) : s.Follows (s.assign name value) := .of_eq rfl rfl rfl

theorem follows_exports (s : Session) (name : String) : s.Follows (s.exports name) := by
  rw [exports]
  split
  · exact .refl s
  · exact .of_eq rfl rfl rfl

theorem follows_of_change {f : FileTree → Except OsError FileTree} (h : s.change f = .ok t) : s.Follows t := by
  rw [change] at h
  split at h
  · cases h
  · cases h
    exact .of_eq rfl rfl rfl

theorem follows_changePartly (s : Session) (f : FileTree → FileTree × Option OsError) :
    s.Follows (s.changePartly f).1 := .of_eq rfl rfl rfl

/-- What a session writes it writes now. -/
theorem follows_emit (s : Session) (descriptor : Nat) (text : String) : s.Follows (s.emit descriptor text) := by
  rw [emit]
  -- to nothing, to one of the streams, to a file, or to where there is none
  split
  · exact .refl s
  · split
    · rename_i stream _
      refine ⟨rfl, Nat.le_refl _, fun x hx => ?_⟩
      rcases List.mem_cons.mp hx with rfl | hx
      · exact Or.inr ⟨rfl, fun hzero => ⟨hzero, Nat.le_refl _⟩⟩
      · exact Or.inl hx
    · rename_i p _
      cases hchange : s.change (appended p (toBytes text)) with
      | error e => exact follows_withStatus s 1
      | ok t => exact follows_of_change hchange
    · exact .of_eq rfl rfl rfl
    · exact .refl s
    · exact follows_withStatus s 1

theorem follows_say (s : Session) (text : String) : s.Follows (s.say text) :=
  (follows_withStatus s 0).trans (follows_emit _ 1 text)

theorem follows_complain (s : Session) (status : Nat) (message : String) : s.Follows (s.complain status message) :=
  (follows_emit s 2 _).trans (follows_withStatus _ status)

theorem follows_complainHere (s : Session) (status : Nat) (message : String) :
    s.Follows (s.complainHere status message) := follows_complain s status _

/-- What a shell does when a script cannot go on. -/
theorem follows_giveUp (s : Session) (status : Nat) (message : String) (flow : Flow) :
    s.Follows { s.complainHere status message with flow } :=
  (follows_complainHere s status message).of_end rfl rfl rfl

/-! ## Signals and time

  Time passes by waiting only, and a signal may end a wait early. -/

/-- A signal is heard or ends the process. -/
theorem follows_receive (s : Session) (signal : String) : s.Follows (s.receive signal) := by
  rw [receive]
  split
  · exact .refl s
  · exact .of_eq rfl rfl rfl
  · split
    · exact .refl s
    · split
      · exact .of_eq rfl rfl rfl
      · exact .of_eq rfl rfl rfl

/-- The clock does not go back. -/
theorem follows_clock (s : Session) (time : Nat) : s.Follows (s.clock time) :=
  ⟨rfl, Nat.le_max_left _ _, fun _ => Or.inl⟩

/-- Waiting lets time pass. -/
theorem follows_waitUntil (s : Session) (time : Nat) (isBuiltin : Bool) : s.Follows (s.waitUntil time isBuiltin) := by
  have hclock (time : Nat) : s.Follows (s.clock time) := follows_clock s time
  rw [waitUntil]
  -- a wait that goes beyond the moment of the request ends there
  cases s.asked with
  | none => exact hclock time
  | some asked =>
    dsimp only
    by_cases hpast : (s.owner != 0 || decide (time ≤ max asked s.now)) = true
    · rw [if_pos hpast]
      exact hclock time
    · rw [if_neg hpast]
      split
      · exact (hclock _).of_end rfl rfl rfl
      · exact hclock time
      · exact (hclock _).of_end rfl rfl rfl

theorem follows_sleep (s : Session) (ms : Nat) : s.Follows (s.sleep ms) :=
  ((follows_waitUntil _ (s.now + ms) false).trans (follows_withStatus _ 0)).of_start rfl rfl rfl

theorem follows_sleepItself (s : Session) (ms : Nat) : s.Follows (s.sleepItself ms) :=
  ((follows_waitUntil _ (s.now + ms) false).trans (follows_withStatus _ 0)).of_start rfl rfl rfl

/-! ## Children

  A child runs ahead of its parent and is brought back by it.  What it has written carries its own number, so the
  parent has still written nothing since. -/

/-- A session that a child of `s` starts in: it is not the process itself, and nothing was written since. -/
structure Apart (s start : Session) : Prop where
  /-- It is another process. -/
  owner : start.owner ≠ 0
  /-- It has written nothing of its own. -/
  chunks : start.chunks = s.chunks

/-- A child is apart from its parent. -/
theorem apart_child (s : Session) : s.Apart s.child := ⟨Nat.succ_ne_zero _, rfl⟩

/-- It stays so if neither the owner nor the output is changed. -/
theorem Apart.of_eq (h : s.Apart start) (howner : t.owner = start.owner) (hchunks : t.chunks = start.chunks) :
    s.Apart t :=
  ⟨howner ▸ h.owner, hchunks.trans h.chunks⟩

/-- **A child's clock goes ahead, but nothing of the process's own is written there.** -/
theorem Follows.beside (hstart : s.Apart start) (h : start.Follows c) : s.Follows (s.beside c) := by
  refine ⟨rfl, Nat.le_max_left _ _, fun x hx => ?_⟩
  have hx : x ∈ c.chunks := hx
  rcases h.written x hx with hold | ⟨hdetached, hown⟩
  · exact Or.inl (hstart.chunks ▸ hold)
  · exact Or.inr ⟨hdetached, fun hzero => absurd (hown hzero).1 hstart.owner⟩

/-- That a child was killed is told on the parent's own output. -/
theorem follows_tellKilled (s : Session) (status : Nat) : s.Follows (s.tellKilled status) := by
  rw [tellKilled]
  split
  · split
    · exact follows_emit s 2 _
    · exact .refl s
  · exact .refl s

/-- What a child wrote is a child's, and the parent goes on when it has ended. -/
theorem Follows.after (hstart : s.Apart start) (h : start.Follows c) : s.Follows (s.after c) := by
  have hwaited : s.Follows ((s.beside c).waitUntil c.endOf false) :=
    (h.beside hstart).trans (follows_waitUntil _ _ _)
  rw [Session.after]
  split
  · exact hwaited
  · split
    · exact hwaited.of_end rfl rfl rfl
    · split
      · exact hwaited.trans ((follows_tellKilled _ _).trans (follows_withStatus _ _))
      · exact hwaited.trans (follows_withStatus _ _)

/-- What is captured is not written. -/
theorem follows_capture (s : Session) {run : Session → Session} (hrun : ∀ s : Session, s.Follows (run s)) :
    s.Follows (s.capture run).2 := by
  have hstart : s.Apart { s.child.setOutlet 1 .kept with kept := [] } := s.apart_child.of_eq rfl rfl
  exact Follows.after hstart (hrun _)

/-- A child that is stopped has not written what it would have written later. -/
theorem follows_stop (s : Session) (id : Nat) (signal : String) : s.Follows (s.stop id signal) :=
  ⟨rfl, Nat.le_refl _, fun _ hx => Or.inl ((List.mem_filter.mp hx).1)⟩

end Wheelwright.Shell.Session
