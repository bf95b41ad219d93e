/-
  Counts by path — tables that keep one number for each path.

  **Specification** — `total P` adds up the numbers of all paths that `P` holds of.  A table keeps one number for each
  path, so setting one changes every total by what it changes itself (`total_setCount`), and the number of one path is a
  total, too (`count_eq_total`).

  **The crux** — paths are told apart by their components, and a table is looked through by the first entry that fits.
  Both amount to the same as long as no two entries are for one path (`Distinct`).
-/
import Wheelwright.Window

namespace Wheelwright.WindowRecorder

variable {entries others : List (Path × Nat)} {p q : Path} {n : Nat} {P : Path → Bool}

/-- No two entries are for one path. -/
def Distinct (entries : List (Path × Nat)) : Prop := entries.Pairwise fun a b => ¬ a.1.Same b.1

/-- What holds of a path holds of each of its spellings. -/
def Respects (P : Path → Bool) : Prop := ∀ p q : Path, p.Same q → P p = P q

/-- The numbers of all paths that `P` holds of, added up. -/
def total (P : Path → Bool) (entries : List (Path × Nat)) : Nat :=
  (entries.filter fun e => P e.1).foldr (fun e n => e.2 + n) 0

/-! ## Totals

  Sums over the entries that count. -/

/-- No entries have no total. -/
theorem total_nil (P : Path → Bool) : total P [] = 0 := rfl

/-- An entry adds its number if its path counts. -/
theorem total_cons (P : Path → Bool) (e : Path × Nat) (rest : List (Path × Nat)) :
    total P (e :: rest) = (if P e.1 then e.2 else 0) + total P rest := by
  rw [total, total, List.filter_cons]
  by_cases h : P e.1 = true
  · rw [if_pos h, if_pos h, List.foldr_cons]
  · rw [if_neg h, if_neg h, Nat.zero_add]

/-- The totals of two lists add up. -/
theorem total_append (P : Path → Bool) (a b : List (Path × Nat)) :
    total P (a ++ b) = total P a + total P b := by
  induction a with
  | nil => rw [List.nil_append, total_nil, Nat.zero_add]
  | cons e rest ih => rw [List.cons_append, total_cons, total_cons, ih, Nat.add_assoc]

/-- If no path counts, the total is zero. -/
theorem total_eq_zero (h : ∀ e ∈ entries, P e.1 = false) : total P entries = 0 := by
  induction entries with
  | nil => rfl
  | cons e rest ih =>
    have hfirst := h e List.mem_cons_self
    have hrest := ih fun f hf => h f (List.mem_cons_of_mem e hf)
    rw [total_cons, hfirst, hrest]
    rfl

/-! ## One number for each path

  As no two entries are for one path, the entry that is found first is the only one. -/

/-- The count of a path is that of the first entry for it. -/
theorem count_cons (e : Path × Nat) (rest : List (Path × Nat)) (p : Path) :
    count (e :: rest) p = if e.1.Same p then e.2 else count rest p := by
  rw [count, count, List.find?_cons]
  by_cases h : e.1.Same p
  · rw [if_pos h, decide_eq_true h]
  · rw [if_neg h, decide_eq_false h]

/-- A path has one number, however it is spelled. -/
theorem count_congr (entries : List (Path × Nat)) (h : p.Same q) : count entries p = count entries q := by
  induction entries with
  | nil => rfl
  | cons e rest ih =>
    rw [count_cons, count_cons, ih]
    by_cases hsame : e.1.Same p
    · rw [if_pos hsame, if_pos (show e.1.Same q from hsame.trans h)]
    · rw [if_neg hsame, if_neg fun hq : e.1.Same q => hsame (hq.trans h.symm)]

/-- To be the same as a path is the same for spellings of one path. -/
theorem respects_same (p : Path) : Respects fun q => decide (q.Same p) := by
  intro q q' h
  have hiff : q.Same p ↔ q'.Same p := by
    constructor
    · intro hq
      exact h.symm.trans hq
    · intro hq
      exact h.trans hq
  exact decide_eq_decide.mpr hiff

/-- **The number of a path is a total**: of the one entry that the table has for it. -/
theorem count_eq_total (h : Distinct entries) (p : Path) :
    count entries p = total (fun q => decide (q.Same p)) entries := by
  induction entries with
  | nil => rfl
  | cons e rest ih =>
    obtain ⟨hfirst, hrest⟩ := List.pairwise_cons.mp h
    rw [count_cons, total_cons]
    by_cases hsame : e.1.Same p
    · -- No further entry is for this path, so nothing is added to the first.
      have hothers : total (fun q => decide (q.Same p)) rest = 0 := by
        apply total_eq_zero
        intro f hf
        have hne : ¬ f.1.Same p := fun hfp => hfirst f hf (hsame.trans hfp.symm)
        exact decide_eq_false hne
      rw [if_pos hsame, if_pos (decide_eq_true hsame), hothers, Nat.add_zero]
    · rw [if_neg hsame, if_neg (by rwa [decide_eq_true_eq]), ih hrest, Nat.zero_add]

/-- The entries for other paths. -/
theorem mem_others {e : Path × Nat} (h : e ∈ entries.filter fun e => !decide (e.1.Same p)) :
    e ∈ entries ∧ ¬ e.1.Same p := by
  obtain ⟨hmem, hne⟩ := List.mem_filter.mp h
  rw [Bool.not_eq_true', decide_eq_false_iff_not] at hne
  exact ⟨hmem, hne⟩

/-- A total is that of the entries for other paths, and the path's own number if it is asked for. -/
theorem total_eq_others (h : Distinct entries) (hP : Respects P) (p : Path) :
    total P entries =
      total P (entries.filter fun e => !decide (e.1.Same p)) + (if P p then count entries p else 0) := by
  -- on the entries: at most one is for the path itself
  induction entries with
  | nil =>
    show 0 = 0 + if P p then 0 else 0
    split <;> rfl
  | cons e rest ih =>
    obtain ⟨hfirst, hrest⟩ := List.pairwise_cons.mp h
    rw [total_cons, count_cons, List.filter_cons]
    by_cases hsame : e.1.Same p
    · -- The entry for the path itself: all that follow are for other paths.
      have hothers : (rest.filter fun f => !decide (f.1.Same p)) = rest := by
        apply List.filter_eq_self.mpr
        intro f hf
        have hne : ¬ f.1.Same p := fun hfp => hfirst f hf (hsame.trans hfp.symm)
        rw [decide_eq_false hne]
        rfl
      rw [decide_eq_true hsame, if_pos hsame, hP _ _ hsame, hothers]
      exact Nat.add_comm _ _
    · have hrec := ih hrest
      rw [decide_eq_false hsame, if_neg hsame, hrec]
      show _ = total P (e :: rest.filter fun f => !decide (f.1.Same p)) + _
      rw [total_cons, Nat.add_assoc]

/-! ## Setting a number

  Setting a number replaces one entry or adds one, and no total changes by anything else. -/

/-- No entries are distinct. -/
theorem distinct_nil : Distinct [] := List.Pairwise.nil

/-- Setting a number keeps the entries distinct. -/
theorem Distinct.setCount (h : Distinct entries) (p : Path) (n : Nat) : Distinct (setCount entries p n) := by
  have hothers : Distinct (entries.filter fun e => !decide (e.1.Same p)) := List.Pairwise.filter _ h
  rw [WindowRecorder.setCount]
  split
  · exact hothers
  · apply List.pairwise_append.mpr
    refine ⟨hothers, List.pairwise_singleton _ _, ?_⟩
    intro a ha b hb
    rw [List.mem_singleton.mp hb]
    exact (mem_others ha).2

/-- **One number is set, and every total changes by it.** -/
theorem total_setCount (h : Distinct entries) (hP : Respects P) (p : Path) (n : Nat) :
    total P (setCount entries p n) + (if P p then count entries p else 0) =
      total P entries + (if P p then n else 0) := by
  have hset : total P (setCount entries p n) =
      total P (entries.filter fun e => !decide (e.1.Same p)) + (if P p then n else 0) := by
    rw [setCount]
    split
    · rename_i hzero
      rw [hzero, ite_self, Nat.add_zero]
    · rw [total_append, total_cons, total_nil, Nat.add_zero]
  have hall := total_eq_others h hP p
  omega

/-- The number that was set is the path's, and every other path keeps its own. -/
theorem count_setCount (h : Distinct entries) (p q : Path) (n : Nat) :
    count (setCount entries p n) q = if p.Same q then n else count entries q := by
  have hset := total_setCount h (respects_same q) p n
  have hentries := count_eq_total h q
  rw [count_eq_total (h.setCount p n) q]
  by_cases hsame : p.Same q
  · have hcount := count_congr entries hsame
    rw [if_pos (decide_eq_true hsame), if_pos (decide_eq_true hsame)] at hset
    rw [if_pos hsame]
    omega
  · have hne : ¬ decide (p.Same q) = true := by rwa [decide_eq_true_eq]
    rw [if_neg hne, if_neg hne] at hset
    rw [if_neg hsame]
    omega

/-- Some entry fits as soon as the number of some path does. -/
theorem exists_mem_iff (h : Distinct entries) {k : Nat} :
    (∃ e ∈ entries, k < e.2) ↔ ∃ p, k < count entries p := by
  constructor
  · rintro ⟨e, he, hk⟩
    refine ⟨e.1, ?_⟩
    -- on the entries: an entry that stands behind others is for another path than they are
    induction entries with
    | nil => cases he
    | cons f rest ih =>
      obtain ⟨hfirst, hrest⟩ := List.pairwise_cons.mp h
      rw [count_cons]
      rcases List.mem_cons.mp he with rfl | hmem
      · rw [if_pos (show e.1.Same e.1 from rfl)]
        exact hk
      · rw [if_neg (hfirst e hmem)]
        exact ih hrest hmem
  · rintro ⟨p, hk⟩
    rw [count] at hk
    split at hk
    · omega
    · rename_i e hfound
      exact ⟨e, List.mem_of_find?_eq_some hfound, hk⟩

end Wheelwright.WindowRecorder
