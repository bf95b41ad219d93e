/-
  Occurrences — how often a text stands in another one, and what replacing makes of it.

  **Specification** — `occurrences needle cs` counts the places of `cs` where `needle` starts.  Replacing a needle replaces
  it at every one of them (`replaceFrom_append`), and changes nothing where there is none (`replaceFrom_eq_self`).

  **The crux** — the needle opens with a character that it does not have again.  So no occurrence begins within another
  one, and what stands before a needle and what stands behind it are counted and replaced apart.
-/
import Mathlib.Data.List.Infix
import Wheelwright.Command

namespace Wheelwright

variable {x c : Char} {name needle value front rest cs : List Char}

/-- How often `needle` stands in `cs`. -/
def occurrences (needle cs : List Char) : Nat := cs.tails.countP fun rest => needle.isPrefixOf rest

/-! ## Counting

  Occurrences are counted at every place of the text, also where two of them would overlap.  With a needle that has
  its first character nowhere else they do not, and then counting is additive. -/

/-- A text that is not empty does not occur in the empty one. -/
theorem occurrences_nil : occurrences (x :: name) [] = 0 := rfl

/-- Each place of a text counts once if the needle begins there. -/
theorem occurrences_cons (needle : List Char) (c : Char) (cs : List Char) :
    occurrences needle (c :: cs) = occurrences needle cs + if needle <+: c :: cs then 1 else 0 := by
  rw [occurrences, List.tails_cons, List.countP_cons]
  simp only [List.isPrefixOf_iff_prefix]
  rfl

/-- No occurrence starts where its first character does not stand. -/
theorem occurrences_append_of_notMem (h : x ∉ front) (cs : List Char) :
    occurrences (x :: name) (front ++ cs) = occurrences (x :: name) cs := by
  induction front with
  | nil => rfl
  | cons c front ih =>
    obtain ⟨hc, hfront⟩ := not_or.mp (mt List.mem_cons.mpr h)
    rw [List.cons_append, occurrences_cons, if_neg fun hprefix => hc (List.cons_prefix_cons.mp hprefix).1, Nat.add_zero,
      ih hfront]

/-- Text in front loses no occurrence. -/
theorem occurrences_le_append (needle front rest : List Char) :
    occurrences needle rest ≤ occurrences needle (front ++ rest) := by
  induction front with
  | nil => exact Nat.le_refl _
  | cons c front ih =>
    rw [List.cons_append, occurrences_cons]
    exact Nat.le_add_right_of_le ih

/-- An occurrence that starts before another one ends before it starts. -/
theorem prefix_append_iff (hx : x ∉ name) (c : Char) (front rest : List Char) :
    x :: name <+: c :: (front ++ (x :: name ++ rest)) ↔ x :: name <+: c :: front := by
  -- a match that begins in front of a whole occurrence cannot run into it
  constructor
  · intro h
    rcases List.prefix_or_prefix_of_prefix h (List.prefix_append (c :: front) (x :: name ++ rest)) with hin | ⟨more, hover⟩
    · exact hin
    · cases more with
      | nil => rw [← hover, List.append_nil]
      | cons d more =>
        -- the first character of the other one would stand within this one
        have hwhole : c :: front ++ d :: more <+: x :: name := ⟨[], (List.append_nil _).trans hover⟩
        have hbehind : d :: more <+: x :: (name ++ rest) := (List.prefix_append_right_inj (c :: front)).mp (hwhole.trans h)
        obtain ⟨-, hname⟩ := List.cons.inj hover
        refine absurd ?_ hx
        rw [← hname, (List.cons_prefix_cons.mp hbehind).1]
        exact List.mem_append_right _ List.mem_cons_self
  · exact fun h => h.trans (List.prefix_append _ _)

/-- **What stands before a needle and behind it is counted apart.** -/
theorem occurrences_append (hx : x ∉ name) (front rest : List Char) :
    occurrences (x :: name) (front ++ (x :: name ++ rest)) =
      occurrences (x :: name) front + 1 + occurrences (x :: name) rest := by
  induction front with
  | nil =>
    have hself : x :: name <+: x :: (name ++ rest) := List.prefix_append (x :: name) rest
    rw [List.nil_append, List.cons_append, occurrences_cons, if_pos hself, occurrences_append_of_notMem hx,
      occurrences_nil]
    omega
  | cons c front ih =>
    rw [List.cons_append, occurrences_cons, ih, occurrences_cons]
    simp only [prefix_append_iff hx]
    omega

/-! ## Replacing

  The program replaces from the left and skips the characters of what it has replaced.  Where occurrences do not
  overlap that is the same as replacing each of them. -/

/-- At each place the needle is replaced, or the character is kept. -/
theorem replaceFrom_zero_cons (needle value : List Char) (c : Char) (rest : List Char) :
    replaceFrom needle value 0 (c :: rest) =
      if needle.isPrefixOf (c :: rest) then value ++ replaceFrom needle value (needle.length - 1) rest
      else c :: replaceFrom needle value 0 rest := rfl

/-- Characters of an occurrence that is replaced already are left out. -/
theorem replaceFrom_skip (front rest : List Char) :
    replaceFrom needle value front.length (front ++ rest) = replaceFrom needle value 0 rest := by
  induction front with
  | nil => rfl
  | cons c front ih =>
    rw [List.cons_append, List.length_cons, replaceFrom]
    exact ih

/-- **Every occurrence is replaced**, and what stands before it and behind it apart. -/
theorem replaceFrom_append (hx : x ∉ name) {skip : Nat} (hskip : skip ≤ front.length) (rest : List Char) :
    replaceFrom (x :: name) value skip (front ++ (x :: name ++ rest)) =
      replaceFrom (x :: name) value skip front ++ (value ++ replaceFrom (x :: name) value 0 rest) := by
  -- by the front, with the characters of a match that are still to be skipped
  induction front generalizing skip with
  | nil =>
    obtain rfl := Nat.le_zero.mp hskip
    have hself : (x :: name).isPrefixOf (x :: (name ++ rest)) = true :=
      List.isPrefixOf_iff_prefix.mpr (List.prefix_append (x :: name) rest)
    rw [List.nil_append, List.cons_append, replaceFrom_zero_cons, if_pos hself, List.length_cons, Nat.add_sub_cancel, replaceFrom_skip]
    rfl
  | cons c front ih =>
    cases skip with
    | succ k =>
      rw [List.cons_append, replaceFrom, replaceFrom]
      exact ih (Nat.le_of_succ_le_succ hskip)
    -- the needle begins here on both sides, or on neither
    | zero =>
      have hiff := prefix_append_iff hx c front rest
      rw [← List.isPrefixOf_iff_prefix, ← List.isPrefixOf_iff_prefix] at hiff
      rw [List.cons_append, replaceFrom_zero_cons, replaceFrom_zero_cons]
      by_cases hprefix : (x :: name).isPrefixOf (c :: front) = true
      · have hlength := (List.isPrefixOf_iff_prefix.mp hprefix).length_le
        rw [if_pos hprefix, if_pos (hiff.mpr hprefix), List.append_assoc]
        refine congrArg _ (ih ?_)
        simp only [List.length_cons] at hlength ⊢
        omega
      · rw [if_neg hprefix, if_neg (mt hiff.mp hprefix), List.cons_append]
        exact congrArg _ (ih (Nat.zero_le _))

/-- A text without the needle stays as it is. -/
theorem replaceFrom_eq_self (h : occurrences needle cs = 0) : replaceFrom needle value 0 cs = cs := by
  induction cs with
  | nil => rfl
  | cons c rest ih =>
    rw [occurrences_cons, Nat.add_eq_zero_iff] at h
    have hnot : ¬ needle <+: c :: rest := fun hprefix => by
      rw [if_pos hprefix] at h
      exact absurd h.2 Nat.one_ne_zero
    rw [replaceFrom_zero_cons, if_neg (mt List.isPrefixOf_iff_prefix.mp hnot), ih h.1]

end Wheelwright
