/-
  What a recorder tells — overlaps, the most open windows, and the closed ones.

  **Specification** — for any events, in any nesting: an overlap is told of exactly if at some moment two open windows
  were on equal or nested paths; the peak is the greatest number of windows that were open at a moment; the windows that
  are listed are those whose guards were dropped, each once and in that order; and at every moment the numbers by path
  are those of the open windows, so that none that is lowered was zero.

  **The crux** — an overlap is only looked for when a window opens.  Nothing is missed by that: closing a window makes no
  overlap (`overlaps_of_closed`), and a window that opens makes one exactly if it meets one that is open
  (`overlaps_opened`).
-/
import Mathlib.Order.Bounds.Basic
import Wheelwright.Proofs.Window.Recording

namespace Wheelwright.WindowRecorder

open Recording

variable {r : Recording} {e : Event} {events past : List Event} {p q : Path} {v w : WriteWindow} {n : Nat}

/-! ## Specification

  What there is to be told, in terms of the guards alone. -/

/-- Two of the open windows are on equal or nested paths. -/
def Recording.Overlaps (r : Recording) : Prop :=
  ∃ (i j : Nat) (v w : WriteWindow), i ≠ j ∧ r.guards[i]? = some (some v) ∧ r.guards[j]? = some (some w) ∧
    Nested v.path w.path

/-- The windows that some events opened, in their order. -/
def openedBy (events : List Event) : List WriteWindow :=
  events.filterMap fun
    | .opens w => some w
    | .drops _ => none

/-- The numbers of the guards that were dropped, in the order in which they were. -/
structure ClosingOrder (events : List Event) (order : List Nat) : Prop where
  /-- No window is closed twice. -/
  once : order.Nodup
  /-- They are the windows whose guards are gone. -/
  complete : ∀ n, n ∈ order ↔ (ofEvents events).guards[n]? = some none
  /-- When a window was closed, those before it were closed and those after it were not. -/
  inTurn : order.Pairwise fun m n => ∃ past, past <+: events ∧
    (ofEvents past).guards[m]? = some none ∧ (ofEvents past).guards[n]? ≠ some none

/-! ## Overlaps

  The recorder asks at each opening whether something is met, and keeps the answer as a peak above one.  So there was
  an overlap if and only if one of the openings met something. -/

/-- A path meets something if a window on it or around it is open. -/
theorem met_pos_iff : 0 < r.met p ↔ ∃ v ∈ r.openWindows, Nested v.path p := by
  rw [met, List.countP_pos_iff]
  constructor
  · rintro ⟨v, hv, hmeet⟩
    exact ⟨v, hv, of_decide_eq_true hmeet⟩
  · rintro ⟨v, hv, hmeet⟩
    exact ⟨v, hv, decide_eq_true hmeet⟩

/-- Windows overlap after one more opened if they did before, or if it meets one that is open. -/
theorem overlaps_opened : Overlaps ⟨r.recorder.opened w, r.guards ++ [some w]⟩ ↔ r.Overlaps ∨ 0 < r.met w.path := by
  rw [met_pos_iff]
  constructor
  -- the two windows were open both, or one of them is new
  · rintro ⟨i, j, u, v, hne, hi, hj, hmeet⟩
    rcases getElem?_opened.mp hi with hi | ⟨rfl, hu⟩
    · rcases getElem?_opened.mp hj with hj | ⟨rfl, hv⟩
      · exact Or.inl ⟨i, j, u, v, hne, hi, hj, hmeet⟩
      · cases hv
        exact Or.inr ⟨u, mem_openWindows_iff.mpr ⟨i, hi⟩, hmeet⟩
    · cases hu
      rcases getElem?_opened.mp hj with hj | ⟨rfl, -⟩
      · exact Or.inr ⟨v, mem_openWindows_iff.mpr ⟨j, hj⟩, hmeet.symm⟩
      · exact absurd rfl hne
  · rintro (⟨i, j, u, v, hne, hi, hj, hmeet⟩ | ⟨v, hv, hmeet⟩)
    · exact ⟨i, j, u, v, hne, getElem?_opened.mpr (Or.inl hi), getElem?_opened.mpr (Or.inl hj), hmeet⟩
    · obtain ⟨i, hi⟩ := mem_openWindows_iff.mp hv
      obtain ⟨hlt, -⟩ := List.getElem?_eq_some_iff.mp hi
      exact ⟨i, r.guards.length, v, w, Nat.ne_of_lt hlt, getElem?_opened.mpr (Or.inl hi),
        getElem?_opened.mpr (Or.inr ⟨rfl, rfl⟩), hmeet⟩

/-- No overlap comes from closing a window. -/
theorem overlaps_of_closed {before after : List (Option WriteWindow)} (hguards : r.guards = before ++ some w :: after)
    (h : Overlaps ⟨r.recorder.close w, before ++ none :: after⟩) : r.Overlaps := by
  obtain ⟨i, j, u, v, hne, hi, hj, hmeet⟩ := h
  have hkept : ∀ {n : Nat} {x : WriteWindow}, (before ++ none :: after)[n]? = some (some x) →
      r.guards[n]? = some (some x) := by
    intro n x hx
    rcases getElem?_closed.mp hx with ⟨-, hnone⟩ | ⟨-, hx⟩
    · cases hnone
    · rw [hguards]
      exact hx
  exact ⟨i, j, u, v, hne, hkept hi, hkept hj, hmeet⟩

/-- There was an overlap exactly if some peak is above one. -/
theorem anyOverlap_iff_peak (h : Tracks r) :
    r.recorder.anyOverlap = true ↔ ∃ p, 1 < count r.recorder.peaks p := by
  rw [anyOverlap, List.any_eq_true, ← exists_mem_iff h.distinctPeaks]
  constructor
  · rintro ⟨e, he, hlt⟩
    exact ⟨e, he, of_decide_eq_true hlt⟩
  · rintro ⟨e, he, hlt⟩
    exact ⟨e, he, decide_eq_true hlt⟩

/-- **The recorder sees an overlap when a window opens that meets one that is open.** -/
theorem anyOverlap_opened (h : Tracks r) (w : WriteWindow) :
    (r.recorder.opened w).anyOverlap = true ↔ r.recorder.anyOverlap = true ∨ 0 < r.met w.path := by
  have hnext : Tracks ⟨r.recorder.opened w, r.guards ++ [some w]⟩ := h.happen (.opens w)
  have hafter := anyOverlap_iff_peak hnext
  have hpeak := h.peakWriters_opened w
  rw [anyOverlap_iff_peak h, hafter]
  constructor
  -- a peak above one was there before, or the opening window has met another
  · rintro ⟨q, hq⟩
    have hq : 1 < (r.recorder.opened w).peakWriters q := hq
    rw [hpeak q] at hq
    split at hq
    · rcases Nat.lt_or_ge 1 (r.recorder.peakWriters q) with hbefore | hbefore
      · exact Or.inl ⟨q, hbefore⟩
      · exact Or.inr (by omega)
    · exact Or.inl ⟨q, hq⟩
  · rintro (⟨q, hq⟩ | hmet)
    · refine ⟨q, ?_⟩
      show 1 < (r.recorder.opened w).peakWriters q
      have hq : 1 < r.recorder.peakWriters q := hq
      rw [hpeak q]
      split <;> omega
    · refine ⟨w.path, ?_⟩
      show 1 < (r.recorder.opened w).peakWriters w.path
      rw [hpeak w.path, if_pos (show w.path.Same w.path from rfl)]
      omega

/-- **No overlap is missed and none is invented.** -/
theorem anyOverlap_iff (events : List Event) :
    (ofEvents events).recorder.anyOverlap = true ↔ ∃ past, past <+: events ∧ (ofEvents past).Overlaps := by
  -- on the events: an overlap was there before, or it comes with the last opening
  induction events using List.reverseRecOn with
  | nil =>
    rw [exists_moment_nil]
    constructor
    · exact nofun
    · rintro ⟨i, _, v, _, _, hi, _⟩
      cases hi
  | append_singleton past e ih =>
    rw [exists_moment_concat, ← ih, ofEvents_concat]
    have htracks := tracks_ofEvents past
    have hlast : (ofEvents past).Overlaps → (ofEvents past).recorder.anyOverlap = true :=
      fun h => ih.mpr ⟨past, List.prefix_refl _, h⟩
    have hstep := happens (ofEvents past) e
    generalize (ofEvents past).happen e = after at hstep ⊢
    cases hstep with
    | opens w =>
      rw [anyOverlap_opened htracks, overlaps_opened]
      constructor
      · rintro (h | h)
        · exact Or.inl h
        · exact Or.inr (Or.inr h)
      · rintro (h | h | h)
        · exact Or.inl h
        · exact Or.inl (hlast h)
        · exact Or.inr h
    | closes hguards =>
      constructor
      · exact Or.inl
      · rintro (h | h)
        · exact h
        · exact hlast (overlaps_of_closed hguards h)
    | idle =>
      constructor
      · exact Or.inl
      · rintro (h | h)
        · exact h
        · exact hlast h

/-! ## The most open windows

  The number of open windows grows at openings only, and it is compared with the peak each time. -/

/-- **The peak is reached at some moment and passed at none.** -/
theorem peakConcurrency_isGreatest (events : List Event) :
    IsGreatest {n | ∃ past, past <+: events ∧ n = (ofEvents past).openWindows.length}
      (ofEvents events).recorder.peakConcurrency := by
  induction events using List.reverseRecOn with
  | nil =>
    refine ⟨⟨[], List.prefix_refl _, rfl⟩, ?_⟩
    rintro n ⟨past, hpast, rfl⟩
    rw [List.prefix_nil.mp hpast]
    exact Nat.le_refl 0
  | append_singleton past e ih =>
    obtain ⟨hreached, hbound⟩ := ih
    have hlast : (ofEvents past).openWindows.length ≤ (ofEvents past).recorder.peakConcurrency :=
      hbound ⟨past, List.prefix_refl _, rfl⟩
    have htracks := tracks_ofEvents past
    -- It is enough to look at the new moment: the peak is that of before, or the number of open windows now.
    suffices hstep : ((ofEvents past).happen e).openWindows.length ≤
          ((ofEvents past).happen e).recorder.peakConcurrency ∧
        (ofEvents past).recorder.peakConcurrency ≤ ((ofEvents past).happen e).recorder.peakConcurrency ∧
        (((ofEvents past).happen e).recorder.peakConcurrency = (ofEvents past).recorder.peakConcurrency ∨
          ((ofEvents past).happen e).recorder.peakConcurrency = ((ofEvents past).happen e).openWindows.length) by
      obtain ⟨hnow, hmono, hpeak⟩ := hstep
      rw [ofEvents_concat]
      constructor
      · refine (exists_moment_concat (Q := fun r => _ = r.openWindows.length)).mpr ?_
        rcases hpeak with hpeak | hpeak
        · rw [hpeak]
          exact Or.inl hreached
        · exact Or.inr hpeak
      · intro n hn
        rcases (exists_moment_concat (Q := fun r => n = r.openWindows.length)).mp hn with hn | rfl
        · exact Nat.le_trans (hbound hn) hmono
        · exact hnow
    have hevent := happens (ofEvents past) e
    generalize (ofEvents past).happen e = after at hevent ⊢
    cases hevent with
    | opens w =>
      have hrunning := htracks.running
      have hpeak : ((ofEvents past).recorder.opened w).peakConcurrency =
          max (ofEvents past).recorder.peakConcurrency ((ofEvents past).recorder.running + 1) := rfl
      rw [openWindows_opened, List.length_append, List.length_singleton, hpeak]
      omega
    | closes hguards =>
      rw [openWindows_split hguards, List.length_append, List.length_cons] at hlast
      rw [openWindows_closed, List.length_append]
      refine ⟨?_, Nat.le_refl _, Or.inl rfl⟩
      show _ ≤ (ofEvents past).recorder.peakConcurrency
      omega
    | idle => exact ⟨hlast, Nat.le_refl _, Or.inl rfl⟩

/-! ## Closed windows

  Windows are listed when they close.  The list is given by the numbers of their guards, each of which is dropped
  once. -/

/-- A window is one more that was opened. -/
theorem openedBy_concat (past : List Event) (w : WriteWindow) : openedBy (past ++ [.opens w]) = openedBy past ++ [w] := by
  rw [openedBy, List.filterMap_append]
  rfl

/-- A guard that is dropped opens nothing. -/
theorem openedBy_concat_drops (past : List Event) (n : Nat) : openedBy (past ++ [.drops n]) = openedBy past := by
  rw [openedBy, List.filterMap_append]
  exact List.append_nil _

/-- A guard that is left is that of the window that opened as the one of its number. -/
theorem opened_of_guard (events : List Event) :
    (ofEvents events).guards.length = (openedBy events).length ∧
      ∀ (n : Nat) (w : WriteWindow), (ofEvents events).guards[n]? = some (some w) → (openedBy events)[n]? = some w := by
  -- on the events: guards come with openings, in their order
  induction events using List.reverseRecOn with
  | nil => exact ⟨rfl, fun n w h => by cases h⟩
  | append_singleton past e ih =>
    obtain ⟨hlength, hopened⟩ := ih
    rw [ofEvents_concat]
    have hstep := happens (ofEvents past) e
    generalize (ofEvents past).happen e = after at hstep ⊢
    cases hstep with
    | opens w =>
      rw [openedBy_concat]
      constructor
      · rw [List.length_append, List.length_append, hlength]
        rfl
      · intro n v h
        rcases getElem?_opened.mp h with h | ⟨rfl, hv⟩
        · have hn := hopened n v h
          obtain ⟨hlt, -⟩ := List.getElem?_eq_some_iff.mp hn
          rw [List.getElem?_append_left hlt]
          exact hn
        · cases hv
          rw [hlength, List.getElem?_concat_length]
    | closes hguards =>
      rw [openedBy_concat_drops]
      constructor
      · rw [← hlength, hguards, List.length_append, List.length_append]
        rfl
      · intro n v h
        rcases getElem?_closed.mp h with ⟨-, hnone⟩ | ⟨-, h⟩
        · cases hnone
        · rw [← hguards] at h
          exact hopened n v h
    | idle =>
      rw [openedBy_concat_drops]
      exact ⟨hlength, hopened⟩

/-- As long as the same guards are gone, the order is the same. -/
theorem ClosingOrder.mono {order : List Nat} (h : ClosingOrder past order) (hguards : ∀ n : Nat,
    (ofEvents events).guards[n]? = some none ↔ (ofEvents past).guards[n]? = some none) (hpast : past <+: events) :
    ClosingOrder events order := by
  refine ⟨h.once, fun n => (h.complete n).trans (hguards n).symm, h.inTurn.imp ?_⟩
  rintro m n ⟨before, hbefore, hclosed⟩
  exact ⟨before, hbefore.trans hpast, hclosed⟩

/-- The numbers of closed windows stand for what they stood for when one more window has opened. -/
theorem ClosingOrder.map_openedBy_concat {order : List Nat} (h : ClosingOrder past order) (w : WriteWindow) :
    (order.map fun n => (openedBy past)[n]?) = order.map fun n => (openedBy (past ++ [.opens w]))[n]? := by
  rw [openedBy_concat]
  refine List.map_congr_left fun n hn => ?_
  obtain ⟨hlt, -⟩ := List.getElem?_eq_some_iff.mp ((h.complete n).mp hn)
  rw [(opened_of_guard past).1] at hlt
  exact (List.getElem?_append_left hlt).symm

/-- The number of the window that closes comes last. -/
theorem ClosingOrder.concat {order : List Nat} {before rest : List (Option WriteWindow)} (h : ClosingOrder past order)
    (hpast : (ofEvents past).guards = before ++ some w :: rest)
    (hafter : (ofEvents (past ++ [e])).guards = before ++ none :: rest) :
    ClosingOrder (past ++ [e]) (order ++ [before.length]) := by
  have hprefix : past <+: past ++ [e] := List.prefix_append _ _
  have hopen := getElem?_of_split hpast
  have hnew : before.length ∉ order := by
    intro hmem
    have hgone := (h.complete _).mp hmem
    rw [hopen] at hgone
    cases hgone
  refine ⟨?_, fun n => ?_, ?_⟩
  · refine List.nodup_append.mpr ⟨h.once, List.pairwise_singleton _ _, ?_⟩
    intro a ha b hb heq
    rw [heq, List.mem_singleton.mp hb] at ha
    exact hnew ha
  · rw [hafter, List.mem_append, List.mem_singleton, h.complete, getElem?_closed (w := w), ← hpast]
    constructor
    -- a guard is gone if it was before, or it is the one of this window
    · rintro (hgone | rfl)
      · refine Or.inr ⟨?_, hgone⟩
        rintro rfl
        exact hnew ((h.complete _).mpr hgone)
      · exact Or.inl ⟨rfl, rfl⟩
    · rintro (⟨hlast, -⟩ | ⟨-, hgone⟩)
      · exact Or.inr hlast
      · exact Or.inl hgone
  · refine List.pairwise_append.mpr ⟨h.inTurn.imp ?_, List.pairwise_singleton _ _, ?_⟩
    · rintro m n ⟨moment, hmoment, hturn⟩
      exact ⟨moment, hmoment.trans hprefix, hturn⟩
    · -- When the window closes, those that closed before it are gone already and it is not.
      intro m hm n hn
      rw [List.mem_singleton.mp hn]
      refine ⟨past, hprefix, (h.complete m).mp hm, ?_⟩
      rw [hopen]
      exact nofun

/-- **Each window that closed is listed once, in closing order.** -/
theorem exists_closingOrder (events : List Event) :
    ∃ order, ClosingOrder events order ∧
      (ofEvents events).recorder.closed.map some = order.map fun n => (openedBy events)[n]? := by
  -- on the events: only a guard that is dropped with its window open adds to the order
  induction events using List.reverseRecOn with
  | nil =>
    refine ⟨[], ⟨List.nodup_nil, fun n => ?_, List.Pairwise.nil⟩, rfl⟩
    exact iff_of_false List.not_mem_nil nofun
  | append_singleton past e ih =>
    obtain ⟨order, horder, hclosed⟩ := ih
    have hprefix : past <+: past ++ [e] := List.prefix_append _ _
    have hconcat := ofEvents_concat past e
    have hstep := happens (ofEvents past) e
    generalize (ofEvents past).happen e = after at hstep hconcat
    cases hstep with
    | opens w =>
      refine ⟨order, horder.mono (fun n => ?_) hprefix, ?_⟩
      · rw [hconcat]
        constructor
        · intro h
          rcases getElem?_opened.mp h with h | ⟨-, h⟩
          · exact h
          · cases h
        · exact fun h => getElem?_opened.mpr (Or.inl h)
      · rw [hconcat, ← horder.map_openedBy_concat w]
        exact hclosed
    | closes hguards =>
      rename_i before rest w
      have hopened : (openedBy past)[before.length]? = some w :=
        (opened_of_guard past).2 _ w (getElem?_of_split hguards)
      refine ⟨order ++ [before.length], horder.concat hguards (congrArg Recording.guards hconcat), ?_⟩
      rw [hconcat, openedBy_concat_drops, List.map_append, List.map_singleton, hopened, ← hclosed]
      exact List.map_append
    | idle =>
      refine ⟨order, horder.mono (fun n => by rw [hconcat]) hprefix, ?_⟩
      rw [hconcat, openedBy_concat_drops]
      exact hclosed

/-! ## All of it

  The four parts together. -/

/-- **A recorder tells what happened**, whatever windows were opened and guards dropped, and in whatever order: of an
    overlap exactly if there was one, the most windows that were open at once, the closed windows in closing order; and
    at every moment its numbers are those of the open windows, so that what a guard takes off is there. -/
theorem windows_recorded (events : List Event) :
    ((ofEvents events).recorder.anyOverlap = true ↔ ∃ past, past <+: events ∧ (ofEvents past).Overlaps) ∧
      IsGreatest {n | ∃ past, past <+: events ∧ n = (ofEvents past).openWindows.length}
        (ofEvents events).recorder.peakConcurrency ∧
      (∃ order, ClosingOrder events order ∧
        (ofEvents events).recorder.closed.map some = order.map fun n => (openedBy events)[n]?) ∧
      ∀ past, past <+: events →
        (∀ p, count (ofEvents past).recorder.active p = (ofEvents past).openWindows.countP fun w => w.path.Same p) ∧
          (ofEvents past).recorder.running = (ofEvents past).openWindows.length ∧
          ∀ w ∈ (ofEvents past).openWindows,
            0 < count (ofEvents past).recorder.active w.path ∧ 0 < (ofEvents past).recorder.running := by
  refine ⟨anyOverlap_iff events, peakConcurrency_isGreatest events, exists_closingOrder events, ?_⟩
  intro past _
  have htracks := tracks_ofEvents past
  exact ⟨htracks.count_eq, htracks.running, fun w hw => htracks.counted hw⟩

end Wheelwright.WindowRecorder
