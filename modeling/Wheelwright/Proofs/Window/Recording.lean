/-
  Recordings — what a recorder tells of the windows that were opened and closed.

  **Specification** — a recording is a recorder with the guards that it has handed out.  Windows open and guards are
  dropped in any order; a guard is gone once it is dropped.  The guards alone tell which windows are open at a moment,
  and a moment is what some first part of the events leads to.

  **Program** — the recorder never sees the guards.  It keeps a number for each path and one for all of them, and
  decides whether windows meet only when one of them opens.

  **The crux (`Tracks`)** — any total over the recorder's numbers is the number of open windows with such a path.  The
  number of one path and the number of windows that meet a path are both such totals, so one step lemma does for both.
-/
import Mathlib.Data.List.Induction
import Mathlib.Data.List.ReduceOption
import Wheelwright.Proofs.Window.Counts

namespace Wheelwright.WindowRecorder

/-! ## Paths that meet

  Paths are compared by components, so spellings do not matter. -/

/-- The paths are equal, or one of them lies inside the other. -/
def Nested (p q : Path) : Prop := p.components <+: q.components ∨ q.components <+: p.components

/-- Whether paths are nested can be decided. -/
instance (p q : Path) : Decidable (Nested p q) :=
  inferInstanceAs (Decidable (p.components <+: q.components ∨ q.components <+: p.components))

/-- It does not matter which is within which. -/
theorem Nested.symm {p q : Path} (h : Nested p q) : Nested q p := Or.symm h

/-- A path is within itself. -/
theorem nested_of_same {p q : Path} (h : p.Same q) : Nested p q := by
  have hcomponents : p.components = q.components := h
  rw [Nested, hcomponents]
  exact Or.inl (List.prefix_refl _)

/-- The test tells whether paths are nested. -/
theorem meet_iff (p q : Path) : meet p q = true ↔ Nested p q := by
  rw [meet, Bool.or_eq_true, Path.startsWith, Path.startsWith, List.isPrefixOf_iff_prefix, List.isPrefixOf_iff_prefix]
  exact or_comm

/-- Spellings of one path are nested with the same paths. -/
theorem respects_meet (p : Path) : Respects fun q => meet q p := by
  intro q q' h
  have hcomponents : q.components = q'.components := h
  show (q.startsWith p || p.startsWith q) = (q'.startsWith p || p.startsWith q')
  rw [Path.startsWith, Path.startsWith, Path.startsWith, Path.startsWith, hcomponents]

/-! ## Recordings

  The recorder together with the guards that it has handed out.  Nothing of the program sees the two together. -/

/-- A window opens, or the guard of the window that opened as the `n`-th is dropped. -/
inductive Event where
  /-- A window is opened. -/
  | opens (w : WriteWindow)
  /-- The guard with this number is dropped. -/
  | drops (n : Nat)

/-- A recorder and its guards in the order in which they were handed out; a dropped guard is gone. -/
structure Recording where
  /-- What the recorder holds. -/
  recorder : WindowRecorder := {}
  /-- The guards, each with its window as long as that is open. -/
  guards : List (Option WriteWindow) := []

namespace Recording

/-- What an event does: a guard that is dropped closes its window. -/
def happen (r : Recording) : Event → Recording
  | .opens w => { recorder := r.recorder.opened w, guards := r.guards ++ [some w] }
  | .drops n =>
    match r.guards[n]? with
    | some (some w) => { recorder := r.recorder.close w, guards := r.guards.set n none }
    | _ => r

/-- The recording after some events, nothing being open before them. -/
def ofEvents (events : List Event) : Recording := events.foldl happen {}

/-- The windows that are open, in the order in which they were opened. -/
def openWindows (r : Recording) : List WriteWindow := r.guards.reduceOption

/-- The number of open windows on a path, inside it or around it. -/
def met (r : Recording) (p : Path) : Nat := r.openWindows.countP fun w => Nested w.path p

end Recording

open Recording

variable {r : Recording} {e : Event} {events past : List Event} {p q : Path} {v w : WriteWindow} {n : Nat}
  {P : Path → Bool}

/-! ## Events

  What an event can do, as one relation.  To drop a guard a second time is nothing at all. -/

/-- One more event happens after the others. -/
theorem ofEvents_concat (past : List Event) (e : Event) : ofEvents (past ++ [e]) = (ofEvents past).happen e :=
  List.foldl_concat _ _ _ _

/-- What an event can do: a window opens, one that is open closes, or there is nothing left to drop. -/
inductive Happens (r : Recording) : Event → Recording → Prop
  /-- A window is opened, and its guard is the last. -/
  | opens (w : WriteWindow) : Happens r (.opens w) ⟨r.recorder.opened w, r.guards ++ [some w]⟩
  /-- An open window is closed. -/
  | closes {before after : List (Option WriteWindow)} {w : WriteWindow} (h : r.guards = before ++ some w :: after) :
      Happens r (.drops before.length) ⟨r.recorder.close w, before ++ none :: after⟩
  /-- A guard without a window does nothing. -/
  | idle {n : Nat} (h : ∀ w, r.guards[n]? ≠ some (some w)) : Happens r (.drops n) r

/-- Every event does one of these. -/
theorem happens (r : Recording) (e : Event) : Happens r e (r.happen e) := by
  -- a guard that is dropped was never made, is gone already, or has its window
  cases e with
  | opens w => exact .opens w
  | drops n =>
    cases hguard : r.guards[n]? with
    | none =>
      rw [happen, hguard]
      exact .idle fun w hw => by rw [hguard] at hw; cases hw
    | some guard =>
      cases guard with
      | none =>
        rw [happen, hguard]
        exact .idle fun w hw => by rw [hguard] at hw; cases hw
      | some w =>
        obtain ⟨hn, hw⟩ := List.getElem?_eq_some_iff.mp hguard
        have hsplit : r.guards = r.guards.take n ++ some w :: r.guards.drop (n + 1) := by
          rw [← hw, List.getElem_cons_drop hn, List.take_append_drop]
        have hlength : (r.guards.take n).length = n := List.length_take_of_le (by omega)
        have hdone := Happens.closes hsplit
        rw [hlength] at hdone
        rw [happen, hguard]
        show Happens r (.drops n) ⟨r.recorder.close w, r.guards.set n none⟩
        rw [List.set_eq_take_append_cons_drop, if_pos hn]
        exact hdone

/-! ## What the numbers stand for

  Every total over the numbers is a number of open windows.  One step of the recorder changes one number, and one
  window. -/

/-- The recorder's numbers are those of the open windows. -/
structure Tracks (r : Recording) : Prop where
  /-- Each path has one entry. -/
  distinct : Distinct r.recorder.active
  distinctPeaks : Distinct r.recorder.peaks
  /-- Totals are numbers of open windows. -/
  totals : ∀ P, Respects P → total P r.recorder.active = r.openWindows.countP fun w => P w.path
  /-- So is the number that is kept by itself. -/
  running : r.recorder.running = r.openWindows.length

/-- The number of a path is that of the open windows on it. -/
theorem Tracks.count_eq (h : Tracks r) (p : Path) :
    count r.recorder.active p = r.openWindows.countP fun w => decide (w.path.Same p) := by
  rw [count_eq_total h.distinct p]
  exact h.totals _ (respects_same p)

/-- The windows that a new one finds on its way are those that meet its path. -/
theorem Tracks.meeting_eq (h : Tracks r) (p : Path) : r.recorder.meeting p = r.met p := by
  have htotal : r.recorder.meeting p = r.openWindows.countP fun w => meet w.path p := h.totals _ (respects_meet p)
  rw [htotal, met]
  apply List.countP_congr
  intro w _
  rw [meet_iff, decide_eq_true_iff]

/-- The open windows before a guard, with it, and after it. -/
theorem openWindows_split {before after : List (Option WriteWindow)} (h : r.guards = before ++ some w :: after) :
    r.openWindows = before.reduceOption ++ w :: after.reduceOption := by
  rw [openWindows, h, List.reduceOption_append, List.reduceOption_cons_of_some]

/-- An opened window is the last of the open ones. -/
theorem openWindows_opened (r : Recording) (w : WriteWindow) :
    openWindows ⟨r.recorder.opened w, r.guards ++ [some w]⟩ = r.openWindows ++ [w] := by
  rw [openWindows, List.reduceOption_append]
  rfl

/-- A closed window is none of the open ones. -/
theorem openWindows_closed (recorder : WindowRecorder) (before after : List (Option WriteWindow)) :
    openWindows ⟨recorder, before ++ none :: after⟩ = before.reduceOption ++ after.reduceOption := by
  rw [openWindows, List.reduceOption_append, List.reduceOption_cons_of_none]

/-- A window that is open is counted on its path and among all. -/
theorem Tracks.counted (h : Tracks r) (hw : w ∈ r.openWindows) :
    0 < count r.recorder.active w.path ∧ 0 < r.recorder.running := by
  constructor
  · rw [h.count_eq]
    exact List.countP_pos_iff.mpr ⟨w, hw, decide_eq_true rfl⟩
  · rw [h.running]
    exact List.length_pos_of_mem hw

/-- **Every event keeps the numbers right.** -/
theorem Tracks.happen (h : Tracks r) (e : Event) : Tracks (r.happen e) := by
  have hstep := happens r e
  generalize r.happen e = after at hstep
  cases hstep with
  | opens w =>
    have hopen := openWindows_opened r w
    refine ⟨?_, ?_, ?_, ?_⟩
    · exact h.distinct.setCount w.path (count r.recorder.active w.path + 1)
    · exact h.distinctPeaks.setCount w.path (max (count r.recorder.peaks w.path) (r.recorder.meeting w.path + 1))
    · intro P hP
      have hset := total_setCount h.distinct hP w.path (count r.recorder.active w.path + 1)
      have hbefore := h.totals P hP
      rw [hopen, List.countP_append, List.countP_singleton]
      show total P (setCount r.recorder.active w.path (count r.recorder.active w.path + 1)) = _
      -- the window adds to the totals of its own path and of no other
      by_cases hw : P w.path = true
      · rw [if_pos hw, if_pos hw] at hset
        rw [if_pos hw]
        omega
      · rw [if_neg hw, if_neg hw] at hset
        rw [if_neg hw]
        omega
    · rw [hopen, List.length_append, ← h.running]
      rfl
  | closes hguards =>
    rename_i before rest w
    have hopen := openWindows_split hguards
    have hleft := openWindows_closed (r.recorder.close w) before rest
    have hmem : w ∈ r.openWindows := by
      rw [hopen]
      exact List.mem_append_right _ List.mem_cons_self
    obtain ⟨hcount, hrunning⟩ := h.counted hmem
    refine ⟨?_, h.distinctPeaks, ?_, ?_⟩
    · exact h.distinct.setCount w.path (count r.recorder.active w.path - 1)
    · intro P hP
      have hset := total_setCount h.distinct hP w.path (count r.recorder.active w.path - 1)
      have hbefore := h.totals P hP
      rw [hopen, List.countP_append, List.countP_cons] at hbefore
      rw [hleft, List.countP_append]
      show total P (setCount r.recorder.active w.path (count r.recorder.active w.path - 1)) = _
      by_cases hw : P w.path = true
      · rw [if_pos hw, if_pos hw] at hset
        rw [if_pos hw] at hbefore
        omega
      · rw [if_neg hw, if_neg hw] at hset
        rw [if_neg hw] at hbefore
        omega
    · have hall := h.running
      rw [hopen, List.length_append, List.length_cons] at hall
      rw [hleft, List.length_append]
      show r.recorder.running - 1 = _
      omega
  | idle => exact h

/-- This holds after any events. -/
theorem tracks_ofEvents (events : List Event) : Tracks (ofEvents events) := by
  induction events using List.reverseRecOn with
  | nil => exact ⟨distinct_nil, distinct_nil, fun _ _ => rfl, rfl⟩
  | append_singleton past e ih =>
    rw [ofEvents_concat]
    exact ih.happen e

/-- The peak of each path after a window opened. -/
theorem Tracks.peakWriters_opened (h : Tracks r) (w : WriteWindow) (q : Path) :
    (r.recorder.opened w).peakWriters q =
      if w.path.Same q then max (r.recorder.peakWriters q) (r.met w.path + 1) else r.recorder.peakWriters q := by
  have hset := count_setCount h.distinctPeaks w.path q
    (max (count r.recorder.peaks w.path) (r.recorder.meeting w.path + 1))
  show count (setCount r.recorder.peaks w.path _) q = _
  rw [hset, h.meeting_eq]
  split
  · rename_i hsame
    rw [count_congr r.recorder.peaks hsame]
    rfl
  · rfl

/-! ## Guards

  Guards by their numbers.  A guard that is gone leaves its place empty, so the others keep theirs. -/

/-- A guard after one more was handed out. -/
theorem getElem?_opened {guards : List (Option WriteWindow)} {g : Option WriteWindow} :
    (guards ++ [some w])[n]? = some g ↔ guards[n]? = some g ∨ n = guards.length ∧ g = some w := by
  rw [List.getElem?_append]
  -- the guard is one of those before, or the new one
  split
  · rename_i hlt
    constructor
    · exact Or.inl
    · rintro (h | ⟨h, -⟩)
      · exact h
      · omega
  · rename_i hge
    rw [List.getElem?_singleton, List.getElem?_eq_none (show guards.length ≤ n by omega)]
    constructor
    · intro h
      split at h
      · cases h
        exact Or.inr ⟨by omega, rfl⟩
      · cases h
    · rintro (h | ⟨h, rfl⟩)
      · cases h
      · rw [if_pos (by omega)]

/-- The guard that stands between those before it and those after it. -/
theorem getElem?_of_split {before after : List (Option WriteWindow)} (h : r.guards = before ++ some w :: after) :
    r.guards[before.length]? = some (some w) := by
  rw [h, List.getElem?_append_right (Nat.le_refl _), Nat.sub_self, List.getElem?_cons_zero]

/-- A guard after one was dropped: that one is gone, and every other is as it was. -/
theorem getElem?_closed {before after : List (Option WriteWindow)} {g : Option WriteWindow} :
    (before ++ none :: after)[n]? = some g ↔
      n = before.length ∧ g = none ∨ n ≠ before.length ∧ (before ++ some w :: after)[n]? = some g := by
  -- the guard stands before the dropped one, is it, or stands behind it
  rcases Nat.lt_trichotomy n before.length with hlt | heq | hgt
  · rw [List.getElem?_append_left hlt, List.getElem?_append_left hlt]
    constructor
    · exact fun h => Or.inr ⟨by omega, h⟩
    · rintro (⟨h, -⟩ | ⟨-, h⟩)
      · omega
      · exact h
  · subst heq
    rw [List.getElem?_append_right (Nat.le_refl _), Nat.sub_self]
    constructor
    · intro h
      cases h
      exact Or.inl ⟨rfl, rfl⟩
    · rintro (⟨-, rfl⟩ | ⟨h, -⟩)
      · rfl
      · exact absurd rfl h
  · -- Behind the guard that was dropped, both lists go on in the same way.
    obtain ⟨k, hk⟩ : ∃ k, n - before.length = k + 1 := ⟨n - before.length - 1, by omega⟩
    rw [List.getElem?_append_right (by omega), List.getElem?_append_right (by omega), hk, List.getElem?_cons_succ,
      List.getElem?_cons_succ]
    constructor
    · exact fun h => Or.inr ⟨by omega, h⟩
    · rintro (⟨h, -⟩ | ⟨-, h⟩)
      · omega
      · exact h

/-- A window is open if some guard has it. -/
theorem mem_openWindows_iff : w ∈ r.openWindows ↔ ∃ i : Nat, r.guards[i]? = some (some w) := by
  rw [openWindows, List.reduceOption_mem_iff]
  exact List.mem_iff_getElem?

/-! ## Moments

  A moment is what a first part of the events leads to. -/

/-- A moment is the last one or one before the last event. -/
theorem exists_moment_concat {Q : Recording → Prop} :
    (∃ past, past <+: events ++ [e] ∧ Q (ofEvents past)) ↔
      (∃ past, past <+: events ∧ Q (ofEvents past)) ∨ Q ((ofEvents events).happen e) := by
  constructor
  · rintro ⟨past, hpast, hq⟩
    rcases List.prefix_concat_iff.mp hpast with rfl | hpast
    · rw [ofEvents_concat] at hq
      exact Or.inr hq
    · exact Or.inl ⟨past, hpast, hq⟩
  · rintro (⟨past, hpast, hq⟩ | hq)
    · exact ⟨past, hpast.trans (List.prefix_append _ _), hq⟩
    · rw [← ofEvents_concat] at hq
      exact ⟨_, List.prefix_refl _, hq⟩

/-- Before any event there is one moment. -/
theorem exists_moment_nil {Q : Recording → Prop} :
    (∃ past, past <+: [] ∧ Q (ofEvents past)) ↔ Q {} := by
  constructor
  · rintro ⟨past, hpast, hq⟩
    rw [List.prefix_nil.mp hpast] at hq
    exact hq
  · intro hq
    exact ⟨[], List.prefix_refl _, hq⟩

end Wheelwright.WindowRecorder
