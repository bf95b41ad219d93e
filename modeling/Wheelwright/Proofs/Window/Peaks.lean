/-
  Peaks — the most writers that met on one path.

  **Specification** — the number of a path at a moment is that of the open windows on it, inside it or around it.  The
  peak that a recorder tells for a path is the greatest number that the path had when a window on the path itself had
  just opened.

  **The crux** — a number grows only when a window opens that meets the path, but such a window may be on another path,
  inside or around this one, and then nobody looks at this path's peak.  So the peak is the greatest number of all
  moments exactly if one of the moments with that number is the opening of a window on the path (`peaks_at_openings`);
  a window around, and then one inside it, is a run with no such moment (`nested_peak_missed`).
-/
import Wheelwright.Proofs.Window.Recorded

namespace Wheelwright.WindowRecorder

open Recording

variable {r : Recording} {e : Event} {events past : List Event} {p : Path} {w : WriteWindow} {m n : Nat}

/-! ## Specification

  Two sets of numbers: those of all moments, and those of the moments at which somebody looks. -/

/-- The numbers that a path had at all moments. -/
def metEver (events : List Event) (p : Path) : Set Nat := {n | ∃ past, past <+: events ∧ n = (ofEvents past).met p}

/-- The numbers that a path had when a window on it had just opened. -/
def metAtOpenings (events : List Event) (p : Path) : Set Nat :=
  {n | ∃ past w, past ++ [.opens w] <+: events ∧ w.path.Same p ∧ n = (ofEvents (past ++ [.opens w])).met p}

/-- What was met at openings was met at some time. -/
theorem metAtOpenings_subset : metAtOpenings events p ⊆ metEver events p := by
  rintro n ⟨past, w, hpast, -, hn⟩
  exact ⟨past ++ [.opens w], hpast, hn⟩

/-! ## One event

  What one event does to the number of a path.  Only an opening makes it greater. -/

/-- An opened window is met by one more path. -/
theorem met_opened (r : Recording) (w : WriteWindow) (p : Path) :
    met ⟨r.recorder.opened w, r.guards ++ [some w]⟩ p =
      r.met p + (if Nested w.path p then 1 else 0) := by
  rw [met, openWindows_opened, List.countP_append, List.countP_singleton, ← met]
  by_cases h : Nested w.path p
  · rw [if_pos h, if_pos (decide_eq_true h)]
  · rw [if_neg h, if_neg (by rwa [decide_eq_true_iff])]

/-- The opened path itself meets one more. -/
theorem met_opened_of_same (h : w.path.Same p) :
    met ⟨r.recorder.opened w, r.guards ++ [some w]⟩ p = r.met p + 1 := by
  rw [met_opened, if_pos (nested_of_same h)]

/-- Spellings of one path meet the same windows. -/
theorem met_congr {q : Path} (h : p.Same q) : r.met p = r.met q := by
  have hcomponents : p.components = q.components := h
  apply List.countP_congr
  intro w _
  rw [decide_eq_true_iff, decide_eq_true_iff, Nested, Nested, hcomponents]

/-- No path gets a greater number when a window closes. -/
theorem met_closed_le {before after : List (Option WriteWindow)} (hguards : r.guards = before ++ some w :: after) :
    met ⟨r.recorder.close w, before ++ none :: after⟩ p ≤ r.met p := by
  rw [met, met, openWindows_closed, openWindows_split hguards, List.countP_append, List.countP_append, List.countP_cons]
  omega

/-! ## The peak of a path

  By induction on the events from the end.  The peak is looked at when a window on the path opens, and is left alone
  by all other events. -/

/-- An opening is the last event or one before it. -/
theorem mem_metAtOpenings_concat : n ∈ metAtOpenings (past ++ [e]) p ↔
    n ∈ metAtOpenings past p ∨ ∃ w, e = .opens w ∧ w.path.Same p ∧ n = (ofEvents (past ++ [e])).met p := by
  constructor
  · rintro ⟨before, w, hbefore, hsame, hn⟩
    rcases List.prefix_concat_iff.mp hbefore with heq | hbefore
    · obtain ⟨rfl, hlast⟩ := List.append_inj' heq rfl
      cases hlast
      exact Or.inr ⟨w, rfl, hsame, hn⟩
    · exact Or.inl ⟨before, w, hbefore, hsame, hn⟩
  · rintro (⟨before, w, hbefore, hsame, hn⟩ | ⟨w, rfl, hsame, hn⟩)
    · exact ⟨before, w, hbefore.trans (List.prefix_append _ _), hsame, hn⟩
    · exact ⟨past, w, List.prefix_refl _, hsame, hn⟩

/-- **The peak is the greatest number at an opening**, or zero for a path on which no window opened. -/
theorem peakWriters_spec (events : List Event) (p : Path) :
    (∀ n ∈ metAtOpenings events p, n ≤ (ofEvents events).recorder.peakWriters p) ∧
      ((ofEvents events).recorder.peakWriters p ∈ metAtOpenings events p ∨
        (ofEvents events).recorder.peakWriters p = 0) := by
  induction events using List.reverseRecOn with
  | nil =>
    -- at the start nothing was opened, and the peak is zero
    constructor
    · rintro n ⟨past, w, hpast, -, -⟩
      exact absurd (List.prefix_nil.mp hpast) (List.append_ne_nil_of_right_ne_nil _ (List.cons_ne_nil _ _))
    · exact Or.inr rfl
  | append_singleton past e ih =>
    obtain ⟨hbound, hreached⟩ := ih
    have hconcat := ofEvents_concat past e
    have htracks := tracks_ofEvents past
    have hstep := happens (ofEvents past) e
    simp only [mem_metAtOpenings_concat]
    rw [hconcat]
    generalize (ofEvents past).happen e = after at hstep
    cases hstep with
    | opens w =>
      rw [htracks.peakWriters_opened w p]
      by_cases hsame : w.path.Same p
      · -- The path itself: the number now is one more than those that the new window met.
        rw [if_pos hsame, met_opened_of_same hsame, met_congr hsame]
        constructor
        · rintro n (hn | ⟨v, -, -, rfl⟩)
          · exact Nat.le_trans (hbound n hn) (Nat.le_max_left _ _)
          · exact Nat.le_max_right _ _
        · left
          rcases Nat.le_total ((ofEvents past).recorder.peakWriters p) ((ofEvents past).met p + 1) with hle | hle
          · rw [Nat.max_eq_right hle]
            exact Or.inr ⟨w, rfl, hsame, rfl⟩
          · rw [Nat.max_eq_left hle]
            rcases hreached with hreached | hzero
            · exact Or.inl hreached
            · omega
      · rw [if_neg hsame]
        constructor
        · rintro n (hn | ⟨v, hv, hv', -⟩)
          · exact hbound n hn
          · cases hv
            exact absurd hv' hsame
        · exact hreached.imp_left Or.inl
    | closes hguards =>
      constructor
      · rintro n (hn | ⟨v, hv, -, -⟩)
        · exact hbound n hn
        · cases hv
      · exact hreached.imp_left Or.inl
    | idle =>
      constructor
      · rintro n (hn | ⟨v, hv, -, -⟩)
        · exact hbound n hn
        · cases hv
      · exact hreached.imp_left Or.inl

/-- Where a window on the path was opened, there is an opening. -/
theorem metAtOpenings_nonempty (h : ∃ w ∈ openedBy events, w.path.Same p) : ∃ n, n ∈ metAtOpenings events p ∧ 0 < n := by
  obtain ⟨w, hw, hsame⟩ := h
  obtain ⟨e, he, hopens⟩ := List.mem_filterMap.mp hw
  cases e with
  | drops n => cases hopens
  | opens v =>
    cases hopens
    obtain ⟨before, after, rfl⟩ := List.append_of_mem he
    refine ⟨_, ⟨before, w, ?_, hsame, rfl⟩, ?_⟩
    · exact ⟨after, (List.append_cons before (.opens w) after).symm⟩
    · rw [ofEvents_concat]
      show 0 < met ⟨(ofEvents before).recorder.opened w, (ofEvents before).guards ++ [some w]⟩ p
      rw [met_opened_of_same hsame]
      exact Nat.succ_pos _

/-- The peak of a path that was opened is the greatest number met at its openings. -/
theorem peakWriters_isGreatest (h : ∃ w ∈ openedBy events, w.path.Same p) :
    IsGreatest (metAtOpenings events p) ((ofEvents events).recorder.peakWriters p) := by
  obtain ⟨hbound, hreached⟩ := peakWriters_spec events p
  refine ⟨?_, hbound⟩
  rcases hreached with hreached | hzero
  · exact hreached
  · obtain ⟨n, hn, hpos⟩ := metAtOpenings_nonempty h
    have hle := hbound n hn
    omega

/-- Where all windows that meet the path are on the path itself, no number grows without an opening on it. -/
theorem met_le_peakWriters (honly : ∀ w ∈ openedBy events, Nested w.path p → w.path.Same p) (hpast : past <+: events) :
    (ofEvents past).met p ≤ (ofEvents events).recorder.peakWriters p := by
  -- on the past: only an opening raises the number, and then it is one of the path itself
  induction past using List.reverseRecOn with
  | nil => exact Nat.zero_le _
  | append_singleton before e ih =>
    have hbefore := ih ((List.prefix_append _ _).trans hpast)
    have hconcat := ofEvents_concat before e
    have hstep := happens (ofEvents before) e
    generalize (ofEvents before).happen e = after at hstep hconcat
    cases hstep with
    | opens w =>
      by_cases hnested : Nested w.path p
      · have hmem : w ∈ openedBy events := by
          obtain ⟨rest, rfl⟩ := hpast
          exact List.mem_filterMap.mpr ⟨.opens w, List.mem_append_left _ List.mem_concat_self, rfl⟩
        exact (peakWriters_spec events p).1 _ ⟨before, w, hpast, honly w hmem hnested, rfl⟩
      · rw [hconcat, met_opened, if_neg hnested]
        exact hbefore
    | closes hguards =>
      rw [hconcat]
      exact Nat.le_trans (met_closed_le hguards) hbefore
    | idle =>
      rw [hconcat]
      exact hbefore

/-- **What the peak of a path is.**  It is the greatest number that the path had when a window on it had just opened.  It
    is the greatest number of all moments exactly if an opening of a window on the path reaches that, and so it is
    wherever no window opens inside or around the path. -/
theorem peaks_at_openings (h : ∃ w ∈ openedBy events, w.path.Same p) :
    IsGreatest (metAtOpenings events p) ((ofEvents events).recorder.peakWriters p) ∧
      (IsGreatest (metEver events p) ((ofEvents events).recorder.peakWriters p) ↔
        ∃ n ∈ metAtOpenings events p, ∀ m ∈ metEver events p, m ≤ n) ∧
      ((∀ w ∈ openedBy events, Nested w.path p → w.path.Same p) →
        IsGreatest (metEver events p) ((ofEvents events).recorder.peakWriters p)) := by
  have hgreatest := peakWriters_isGreatest h
  refine ⟨hgreatest, ⟨?_, ?_⟩, ?_⟩
  · intro hever
    exact ⟨_, hgreatest.1, hever.2⟩
  · rintro ⟨n, hn, hbound⟩
    refine ⟨metAtOpenings_subset hgreatest.1, ?_⟩
    intro m hm
    exact Nat.le_trans (hbound m hm) (hgreatest.2 hn)
  · intro honly
    refine ⟨metAtOpenings_subset hgreatest.1, ?_⟩
    rintro m ⟨past, hpast, rfl⟩
    exact met_le_peakWriters honly hpast

/-! ## Two orders

  The same two windows in two orders. -/

/-- The build directory, and a directory inside it. -/
def distWindow : WriteWindow := ⟨⟨"/p/dist"⟩, "build"⟩
/-- A window inside the other one. -/
def wheelsWindow : WriteWindow := ⟨⟨"/p/dist/wheels"⟩, "wheel"⟩

/-- The inner window opens first: the outer one meets it, and the peak is that of all moments. -/
theorem peaks_at_openings_inner_first :
    (∃ w ∈ openedBy [.opens wheelsWindow, .opens distWindow, .drops 0], w.path.Same distWindow.path) ∧
      IsGreatest (metEver [.opens wheelsWindow, .opens distWindow, .drops 0] distWindow.path)
        ((ofEvents [.opens wheelsWindow, .opens distWindow, .drops 0]).recorder.peakWriters distWindow.path) := by
  have hopened : ∃ w ∈ openedBy [.opens wheelsWindow, .opens distWindow, .drops 0], w.path.Same distWindow.path :=
    ⟨distWindow, List.mem_cons_of_mem _ List.mem_cons_self, rfl⟩
  refine ⟨hopened, (peaks_at_openings hopened).2.1.mpr ⟨2, ⟨[.opens wheelsWindow], distWindow, ?_, rfl, ?_⟩, ?_⟩⟩
  · exact ⟨[.drops 0], rfl⟩
  · decide +kernel
  · -- There are never more than two windows.
    rintro m ⟨past, hpast, rfl⟩
    have hcount : (ofEvents past).met distWindow.path ≤ (ofEvents past).openWindows.length := List.countP_le_length
    have hpeak := (peakConcurrency_isGreatest [.opens wheelsWindow, .opens distWindow, .drops 0]).2 ⟨past, hpast, rfl⟩
    have htwo : (ofEvents [.opens wheelsWindow, .opens distWindow, .drops 0]).recorder.peakConcurrency = 2 := rfl
    omega

/-- The outer window opens first: two windows meet on its path, and its peak stays at one. -/
theorem nested_peak_missed :
    (∃ w ∈ openedBy [.opens distWindow, .opens wheelsWindow], w.path.Same distWindow.path) ∧
      2 ∈ metEver [.opens distWindow, .opens wheelsWindow] distWindow.path ∧
      (ofEvents [.opens distWindow, .opens wheelsWindow]).recorder.peakWriters distWindow.path = 1 ∧
      ¬ IsGreatest (metEver [.opens distWindow, .opens wheelsWindow] distWindow.path)
        ((ofEvents [.opens distWindow, .opens wheelsWindow]).recorder.peakWriters distWindow.path) := by
  have htwo : 2 ∈ metEver [.opens distWindow, .opens wheelsWindow] distWindow.path :=
    ⟨_, List.prefix_refl _, by decide +kernel⟩
  have hone : (ofEvents [.opens distWindow, .opens wheelsWindow]).recorder.peakWriters distWindow.path = 1 := by
    decide +kernel
  refine ⟨⟨distWindow, List.mem_cons_self, rfl⟩, htwo, hone, ?_⟩
  intro h
  have hle := h.2 htwo
  rw [hone] at hle
  omega

end Wheelwright.WindowRecorder
