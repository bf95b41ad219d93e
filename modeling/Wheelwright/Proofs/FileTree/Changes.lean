/-
  Changes of trees — what lies where after an entry was put or moved.

  **Specification** — putting an entry changes one location (`get?_put_of_ne`).  Moving an entry takes all below it
  along to its goal; what was there is gone, and every other location keeps what it has (`get?_move_below`,
  `get?_move_source`, `get?_move_of_apart`).  A tree stays a tree: whatever is put or moved lies in a directory
  (`IsTree`).
-/
import Mathlib.Data.List.Induction
import Wheelwright.Proofs.FileTree.Ways

namespace Wheelwright.FileTree

variable {t : FileTree} {loc place source goal : Location} {e : Entry} {entries : List (Location × Entry)}

/-! ## Putting

  Putting replaces the entry at one location, and lists it if it was not there. -/

/-- Putting an entry changes no other place. -/
theorem get?_put_of_ne (h : place ≠ loc) : (t.put loc e).get? place = t.get? place := by
  have hentries (entries : List (Location × Entry)) :
      -- the entry that was there is taken out, which no other place can tell
      (entries.filter fun f => f.1 != loc).lookup place = entries.lookup place := by
    induction entries with
    | nil => rfl
    | cons f rest ih =>
      rw [List.filter_cons]
      by_cases hplace : place = f.1
      · have hkeep : (f.1 != loc) = true := bne_iff_ne.mpr (hplace ▸ h)
        rw [if_pos hkeep, List.lookup_cons, List.lookup_cons, beq_iff_eq.mpr hplace]
      · rw [List.lookup_cons, beq_eq_false_iff_ne.mpr hplace]
        split
        · rw [List.lookup_cons, beq_eq_false_iff_ne.mpr hplace]
          exact ih
        · exact ih
  rw [get?, get?, put]
  dsimp only
  rw [List.lookup_cons, beq_eq_false_iff_ne.mpr h]
  dsimp only
  rw [hentries]

/-! ## Moving

  A move takes an entry along with all below it.  For a location afterwards there are three cases: it lies below the
  goal, it lay below the source, or neither. -/

/-- Where an entry is after the move. -/
def movedTo (source goal : Location) (f : Location × Entry) : Location × Entry :=
  if source.isPrefixOf f.1 then (goal ++ f.1.drop source.length, f.2) else f

/-- A move keeps what does not lie below the goal and renames what lies below the source. -/
theorem entries_move : (t.move source goal).entries =
    (t.entries.filter fun f => !goal.isPrefixOf f.1).map (movedTo source goal) := rfl

/-- An entry below the source is moved along. -/
theorem movedTo_of_below {f : Location × Entry} (h : source <+: f.1) :
    movedTo source goal f = (goal ++ f.1.drop source.length, f.2) :=
  if_pos (List.isPrefixOf_iff_prefix.mpr h)

/-- Any other entry stays where it is. -/
theorem movedTo_of_not_below {f : Location × Entry} (h : ¬ source <+: f.1) : movedTo source goal f = f :=
  if_neg fun hbelow => h (List.isPrefixOf_iff_prefix.mp hbelow)

/-- The entries of a moved tree are searched one by one, those below the goal left out. -/
theorem lookup_moved {f : Location × Entry} :
    (((f :: entries).filter fun f => !goal.isPrefixOf f.1).map (movedTo source goal)).lookup place =
      if goal <+: f.1 then ((entries.filter fun f => !goal.isPrefixOf f.1).map (movedTo source goal)).lookup place
      else if place = (movedTo source goal f).1 then some f.2
      else ((entries.filter fun f => !goal.isPrefixOf f.1).map (movedTo source goal)).lookup place := by
  rw [List.filter_cons]
  -- what lies below the goal gives way to what is moved there
  by_cases hgoal : goal <+: f.1
  · rw [if_pos hgoal, List.isPrefixOf_iff_prefix.mpr hgoal]
    rfl
  · have hkeep : (!goal.isPrefixOf f.1) = true := by
      rw [Bool.not_eq_true', ← Bool.not_eq_true, List.isPrefixOf_iff_prefix]
      exact hgoal
    have hentry : (movedTo source goal f).2 = f.2 := by
      unfold movedTo
      split <;> rfl
    rw [if_neg hgoal, if_pos hkeep, List.map_cons, List.lookup_cons]
    by_cases hplace : place = (movedTo source goal f).1
    · rw [beq_iff_eq.mpr hplace, if_pos hplace, hentry]
    · rw [beq_eq_false_iff_ne.mpr hplace, if_neg hplace]

/-- An entry is found first at the head of the list. -/
theorem lookup_cons_if {f : Location × Entry} :
    List.lookup place (f :: entries) = if place = f.1 then some f.2 else entries.lookup place := by
  rw [List.lookup_cons]
  by_cases hplace : place = f.1
  · rw [beq_iff_eq.mpr hplace, if_pos hplace]
  · rw [beq_eq_false_iff_ne.mpr hplace, if_neg hplace]

/-- What lies elsewhere stays. -/
theorem get?_move_of_apart (hgoal : ¬ goal <+: place) (hsource : ¬ source <+: place) :
    (t.move source goal).get? place = t.get? place := by
  have hentries (entries : List (Location × Entry)) :
      ((entries.filter fun f => !goal.isPrefixOf f.1).map (movedTo source goal)).lookup place =
        entries.lookup place := by
    -- by the entries; one that was below the source lands below the goal
    induction entries with
    | nil => rfl
    | cons f rest ih =>
      rw [lookup_moved, lookup_cons_if, ih]
      by_cases hplace : place = f.1
      · rw [if_neg (hplace ▸ hgoal), movedTo_of_not_below (hplace ▸ hsource), if_pos hplace]
      · by_cases hbelow : source <+: f.1
        · have hne : place ≠ goal ++ f.1.drop source.length := fun heq => hgoal ⟨_, heq.symm⟩
          rw [movedTo_of_below hbelow, if_neg hne, if_neg hplace, ite_self]
        · rw [movedTo_of_not_below hbelow, if_neg hplace, ite_self]
  rw [get?, get?, entries_move, hentries]

/-- Nothing is left where it was. -/
theorem get?_move_source (hne : place ≠ []) (hgoal : ¬ goal <+: place) (hsource : source <+: place) :
    (t.move source goal).get? place = none := by
  -- nothing that stays lies at the source or below it
  have hentries (entries : List (Location × Entry)) :
      ((entries.filter fun f => !goal.isPrefixOf f.1).map (movedTo source goal)).lookup place = none := by
    induction entries with
    | nil => rfl
    | cons f rest ih =>
      rw [lookup_moved, ih]
      by_cases hbelow : source <+: f.1
      · have hplace : place ≠ goal ++ f.1.drop source.length := fun heq => hgoal ⟨_, heq.symm⟩
        rw [movedTo_of_below hbelow, if_neg hplace, ite_self]
      · have hplace : place ≠ f.1 := fun heq => hbelow (heq ▸ hsource)
        rw [movedTo_of_not_below hbelow, if_neg hplace, ite_self]
  rw [get?, if_neg hne, entries_move, hentries]

/-- What lay at and below the source lies at and below the goal. -/
theorem get?_move_below (hgoal : ¬ goal <+: source) (hsource : ¬ source <+: goal) (rest : Location) :
    (t.move source goal).get? (goal ++ rest) = t.get? (source ++ rest) := by
  have hnot (tail : Location) : ¬ goal <+: source ++ tail := fun hprefix =>
    (List.prefix_or_prefix_of_prefix hprefix (List.prefix_append source tail)).elim hgoal hsource
  have hentries (entries : List (Location × Entry)) :
      ((entries.filter fun f => !goal.isPrefixOf f.1).map (movedTo source goal)).lookup (goal ++ rest) =
        entries.lookup (source ++ rest) := by
    -- by the entries; those below the source are exactly those found below the goal
    induction entries with
    | nil => rfl
    | cons f more ih =>
      rw [lookup_moved, lookup_cons_if, ih]
      by_cases hbelow : source <+: f.1
      · have hkey : goal ++ f.1.drop source.length = goal ++ rest ↔ f.1 = source ++ rest := by
          obtain ⟨tail, htail⟩ := hbelow
          rw [← htail, List.drop_left, List.append_cancel_left_eq, List.append_cancel_left_eq]
        rw [movedTo_of_below hbelow]
        by_cases hplace : source ++ rest = f.1
        · rw [if_neg (hplace ▸ hnot rest), if_pos (hkey.mpr hplace.symm).symm, if_pos hplace]
        · have hne : goal ++ rest ≠ goal ++ f.1.drop source.length := fun heq => hplace (hkey.mp heq.symm).symm
          rw [if_neg hplace, if_neg hne, ite_self]
      · have hplace : source ++ rest ≠ f.1 := fun heq => hbelow ⟨rest, heq⟩
        rw [movedTo_of_not_below hbelow, if_neg hplace]
        by_cases hout : goal <+: f.1
        · rw [if_pos hout]
        · rw [if_neg hout, if_neg fun heq => hout ⟨rest, heq⟩]
  -- neither of the two places is the root
  have hroot : goal ++ rest ≠ [] := fun heq => hgoal (by rw [(List.append_eq_nil_iff.mp heq).1]; exact List.nil_prefix)
  have hroot' : source ++ rest ≠ [] := fun heq =>
    hsource (by rw [(List.append_eq_nil_iff.mp heq).1]; exact List.nil_prefix)
  rw [get?, get?, if_neg hroot, if_neg hroot', entries_move, hentries]

/-! ## Trees

  That every entry lies in a directory is kept by what is put, as long as it is put in a directory and in the place of
  none that holds something, and by a file that is renamed. -/

/-- Every entry lies in a directory. -/
def IsTree (t : FileTree) : Prop := ∀ loc name e, t.get? (loc ++ [name]) = some e → t.get? loc = some .directory

namespace IsTree

/-- Only directories have something below them. -/
theorem get?_below (h : t.IsTree) (hloc : t.get? loc ≠ some .directory) (rest : Location) (hrest : rest ≠ []) :
    t.get? (loc ++ rest) = none := by
  -- from the last name backwards: what lies above it is no directory either
  induction rest using List.reverseRecOn with
  | nil => exact absurd rfl hrest
  | append_singleton rest name ih =>
    rw [← List.append_assoc]
    cases hentry : t.get? (loc ++ rest ++ [name]) with
    | none => rfl
    | some e =>
      have hdir := h _ _ _ hentry
      by_cases hnil : rest = []
      · subst hnil
        rw [List.append_nil] at hdir
        exact absurd hdir hloc
      · rw [ih hnil] at hdir
        cases hdir

/-- What lies above an entry is a directory. -/
theorem directory_dropLast (h : t.IsTree) (hloc : t.get? loc = some e) : t.get? loc.dropLast = some .directory := by
  by_cases hnil : loc = []
  · rw [hnil]
    rfl
  · rw [← List.dropLast_concat_getLast hnil] at hloc
    exact h _ _ _ hloc

/-- What is put in a directory makes a tree, unless it takes the place of a directory. -/
theorem put {name : String} (h : t.IsTree) (hdir : t.get? loc = some .directory)
    (hplace : t.get? (loc ++ [name]) ≠ some .directory) : (t.put (loc ++ [name]) e).IsTree := by
  intro place last e' hentry
  have hroot : loc ++ [name] ≠ [] := List.append_ne_nil_of_right_ne_nil _ (List.cons_ne_nil _ _)
  -- the new entry has its directory; no other one lost its own, as none was put over a directory
  by_cases hlast : place ++ [last] = loc ++ [name]
  · have hne : place ≠ loc ++ [name] := by
      intro heq
      have hlength := congrArg List.length hlast
      rw [heq, List.length_append] at hlength
      simp at hlength
    rw [(List.append_inj' hlast rfl).1] at hne ⊢
    rw [get?_put_of_ne hne]
    exact hdir
  · rw [get?_put_of_ne hlast] at hentry
    have hbefore := h _ _ _ hentry
    have hne : place ≠ loc ++ [name] := fun heq => hplace (heq ▸ hbefore)
    rw [get?_put_of_ne hne]
    exact hbefore

end IsTree

section Renamed

variable {name name' : String} {content : Bytes} {mode : Mode}

/-- **A file that gets another name in its directory**: it is found under the new name, nothing is found under the old
    one, and all else is as before. -/
theorem get?_renamed (h : t.IsTree) (hsource : t.get? (loc ++ [name]) = some (.file content mode))
    (hgoal : t.get? (loc ++ [name']) ≠ some .directory) (hne : name ≠ name') :
    (t.move (loc ++ [name]) (loc ++ [name'])).get? place =
      if place = loc ++ [name'] then some (.file content mode)
      else if place = loc ++ [name] then none else t.get? place := by
  have hplaces : loc ++ [name'] ≠ loc ++ [name] := fun heq =>
    hne (List.singleton_inj.mp (List.append_cancel_left heq)).symm
  have hlength : (loc ++ [name']).length = (loc ++ [name]).length := by
    rw [List.length_append, List.length_append]
    rfl
  have hapart : ¬ loc ++ [name'] <+: loc ++ [name] := fun hstarts => hplaces (hstarts.eq_of_length hlength)
  have hapart' : ¬ loc ++ [name] <+: loc ++ [name'] := fun hstarts => hplaces (hstarts.eq_of_length hlength.symm).symm
  -- below the goal, below the source, or apart from both
  by_cases hbelow : loc ++ [name'] <+: place
  · obtain ⟨rest, rfl⟩ := hbelow
    rw [get?_move_below hapart hapart']
    by_cases hrest : rest = []
    · rw [hrest, List.append_nil, List.append_nil, if_pos rfl]
      exact hsource
    · have hlong : loc ++ [name'] ++ rest ≠ loc ++ [name'] := fun heq => hrest (List.append_right_eq_self.mp heq)
      have hother : loc ++ [name'] ++ rest ≠ loc ++ [name] := fun heq => hapart ⟨rest, heq⟩
      rw [if_neg hlong, if_neg hother, h.get?_below hgoal rest hrest,
        h.get?_below (by rw [hsource]; nofun) rest hrest]
  · have hplace : place ≠ loc ++ [name'] := fun heq => hbelow (heq ▸ List.prefix_refl _)
    rw [if_neg hplace]
    by_cases hold : loc ++ [name] <+: place
    · obtain ⟨rest, rfl⟩ := hold
      rw [get?_move_source (List.append_ne_nil_of_left_ne_nil (List.append_ne_nil_of_right_ne_nil _ (by simp)) _) hbelow
        (List.prefix_append _ _)]
      by_cases hrest : rest = []
      · rw [hrest, List.append_nil, if_pos rfl]
      · rw [if_neg fun heq => hrest (List.append_right_eq_self.mp heq),
          h.get?_below (by rw [hsource]; nofun) rest hrest]
    · have hplace : place ≠ loc ++ [name] := fun heq => hold (heq ▸ List.prefix_refl _)
      rw [get?_move_of_apart hbelow hold, if_neg hplace]

/-- A tree in which a file was renamed is a tree. -/
theorem IsTree.renamed (h : t.IsTree) (hsource : t.get? (loc ++ [name]) = some (.file content mode))
    (hgoal : t.get? (loc ++ [name']) ≠ some .directory) (hne : name ≠ name') :
    (t.move (loc ++ [name]) (loc ++ [name'])).IsTree := by
  have hshort (last : String) : loc ≠ loc ++ [last] := fun heq => by
    have hlength := congrArg List.length heq
    rw [List.length_append, List.length_singleton] at hlength
    omega
  intro place last e hentry
  -- the file lies in the directory it lay in, and no directory was moved
  rw [get?_renamed h hsource hgoal hne] at hentry ⊢
  split at hentry
  · rename_i heq
    rw [(List.append_inj' heq rfl).1, if_neg (hshort name'), if_neg (hshort name)]
    exact h _ _ _ hsource
  · split at hentry
    · cases hentry
    · have hdir := h _ _ _ hentry
      have hplace : place ≠ loc ++ [name'] := fun heq => hgoal (heq ▸ hdir)
      have hplace' : place ≠ loc ++ [name] := fun heq => by
        rw [heq, hsource] at hdir
        cases hdir
      rw [if_neg hplace, if_neg hplace']
      exact hdir

end Renamed

end Wheelwright.FileTree
