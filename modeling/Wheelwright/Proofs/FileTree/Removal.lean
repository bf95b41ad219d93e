/-
  Removal — entries that go away, and where paths lead after that.

  **Specification** — `Removes t loc e u failure`: an entry is gone with all below it, or its removal failed and it is
  still there, with all or some of what lay below it; nothing else has changed.  `Remover` is what a file system
  promises of its removals, whichever of them it lets fail: what is named is removed, and links are not followed.

  **The crux** — an entry that goes away leads no path to another place: a path that was followed over it leads nowhere
  (`Reaches.of_fewer`).  So a name in a directory stands for the same entry for as long as it stands for one.
-/
import Wheelwright.Proofs.FileTree.Below
import Wheelwright.Stage.Clean

namespace Wheelwright.FileTree

open Wheelwright.Path

variable {t u v : FileTree} {p : Path} {loc top here place : Location} {e : Entry} {name : String} {n m : Nat}
  {pieces : List String} {follow : Bool}

/-! ## What is erased

  Erasing filters the list of entries by the location, so what is found at a location afterwards is told by whether
  that lies below. -/

/-- Erasing what lies below a place leaves the rest. -/
theorem lookup_erased {entries : List (Location × Entry)} :
    (entries.filter fun f => !loc.isPrefixOf f.1).lookup place = if loc <+: place then none else entries.lookup place := by
  -- by the entries: one below the place is erased, any other is kept as it is
  induction entries with
  | nil => exact (ite_self none).symm
  | cons f rest ih =>
    rw [List.filter_cons, lookup_cons_if]
    by_cases hbelow : loc <+: f.1
    · have hne (hplace : ¬ loc <+: place) : place ≠ f.1 := fun heq => hplace (heq ▸ hbelow)
      rw [List.isPrefixOf_iff_prefix.mpr hbelow, Bool.not_true, if_neg Bool.false_ne_true, ih]
      by_cases hplace : loc <+: place
      · rw [if_pos hplace, if_pos hplace]
      · rw [if_neg hplace, if_neg hplace, if_neg (hne hplace)]
    · have hkeep : (!loc.isPrefixOf f.1) = true := by
        rw [Bool.not_eq_true', ← Bool.not_eq_true, List.isPrefixOf_iff_prefix]
        exact hbelow
      rw [if_pos hkeep, lookup_cons_if, ih]
      by_cases hplace : place = f.1
      · rw [if_pos hplace, if_pos hplace, if_neg (hplace ▸ hbelow)]
      · rw [if_neg hplace, if_neg hplace]

/-- **What is erased is gone with all below it**, and all else stays. -/
theorem get?_erase (hne : loc ≠ []) : (t.erase loc).get? place = if loc <+: place then none else t.get? place := by
  by_cases hroot : place = []
  · have hnot : ¬ loc <+: place := fun h => hne (List.prefix_nil.mp (hroot ▸ h))
    rw [if_neg hnot, hroot]
    rfl
  · rw [get?, get?, if_neg hroot, if_neg hroot, erase]
    exact lookup_erased

/-! ## Removals

  Whether a removal succeeds depends on permissions and on what else happens in the file system, and none of that is
  in the tree.  So removals are a parameter, with what holds of every one of them: what is named and nothing else may
  go, and if it fails the entry is still there. -/

/-- The second tree has no entry that the first has not. -/
structure Fewer (t u : FileTree) : Prop where
  home : u.home = t.home
  get : ∀ place, u.get? place = t.get? place ∨ u.get? place = none

/-- Fewer and fewer entries are fewer entries. -/
theorem Fewer.trans (h : Fewer t u) (h' : Fewer u v) : Fewer t v := by
  refine ⟨h'.home.trans h.home, fun place => ?_⟩
  rcases h'.get place with heq | hnone
  · rw [heq]
    exact h.get place
  · exact Or.inr hnone

/-- What the removal of the entry at `loc` comes to. -/
inductive Removes (t : FileTree) (loc : Location) (e : Entry) : FileTree → Option OsError → Prop
  /-- All that lies at and below the place is gone. -/
  | done {u : FileTree} (hagree : AgreeOutside loc t u) (hgone : ∀ place, loc <+: place → u.get? place = none) :
      Removes t loc e u none
  /-- Or the removal failed with the entry itself still there. -/
  | failed {u : FileTree} {error : OsError} (hagree : AgreeOutside loc t u) (hfewer : Fewer t u)
      (hkept : u.get? loc = some e) : Removes t loc e u (some error)

/-- Removals that do as they should.  A path that leads nowhere cannot be removed. -/
structure Remover (remove : FileTree → Path → FileTree × Option OsError) : Prop where
  /-- What is found is removed, or not, as above. -/
  found : ∀ t p loc e, t.find? p false = .ok (loc, e) → loc ≠ [] → Removes t loc e (remove t p).1 (remove t p).2
  /-- Where nothing is found nothing changes. -/
  missing : ∀ t p error, t.find? p false = .error error → ∃ error', remove t p = (t, some error')

/-- A removal that leaves everything as it is when it fails. -/
theorem remover_discard : Remover CleanStage.discard := by
  refine ⟨fun t p loc e hfind hne => ?_, fun t p error hfind => ⟨error, ?_⟩⟩
  · have hdiscard : CleanStage.discard t p = (t.erase loc, none) := by
      rw [CleanStage.discard, attempt, remove, hfind]
      rfl
    rw [hdiscard]
    refine .done ⟨rfl, rfl, fun place hplace => ?_⟩ fun place hplace => ?_
    · rw [get?_erase hne, if_neg hplace]
    · rw [get?_erase hne, if_pos hplace]
  · rw [CleanStage.discard, attempt, remove, hfind]
    rfl

/-! ## Paths in a tree with fewer entries

  Entries that go away may have been part of a way.  The way then ends before them with nothing found, and does not
  turn off to another place.  This is what makes it safe to use names from a listing while entries are removed. -/

/-- Nothing can be followed from where nothing is. -/
theorem walk_of_missing (h : t.get? here = none) (hne : pieces ≠ []) :
    ∃ error, walk t follow (n + 1) here pieces = .error error := by
  obtain ⟨piece, rest, rfl⟩ := List.exists_cons_of_ne_nil hne
  exact ⟨_, walk_missing h⟩

/-- **A way that passes what has gone away leads nowhere**, however it goes on, and every other way leads where it
    led. -/
theorem Reaches.of_fewer (hfewer : Fewer t u) (h : Reaches t n here pieces m loc) : Reaches u n here pieces m loc ∨
    ∀ follow more, more ≠ [] → ∃ error, walk u follow (n + 1) here (pieces ++ more) = .error error := by
  -- a directory on the way is still there, or the way ends before it
  have hstop {here : Location} {pieces : List String} {n : Nat} (hgone : u.get? here = none) (follow : Bool)
      (more : List String) (hmore : more ≠ []) : ∃ error, walk u follow (n + 1) here (pieces ++ more) = .error error :=
    walk_of_missing hgone (List.append_ne_nil_of_right_ne_nil _ hmore)
  -- by the way: each directory of it is still there or is gone, and a gone one ends the way
  induction h with
  | @done n here hdir =>
    rcases hfewer.get here with hsame | hgone
    · exact Or.inl (.done (hsame.trans hdir))
    · exact Or.inr fun follow more hmore => hstop hgone follow more hmore
  | @idle n m here loc piece rest hdir hidle _ ih =>
    rcases hfewer.get here with hsame | hgone
    · refine ih.imp (.idle (hsame.trans hdir) hidle) fun herror follow more hmore => ?_
      rw [List.cons_append, walk_idle (hsame.trans hdir) hidle]
      exact herror follow more hmore
    · exact Or.inr fun follow more hmore => hstop hgone follow more hmore
  | @up n m here loc rest hdir _ ih =>
    rcases hfewer.get here with hsame | hgone
    · refine ih.imp (.up (hsame.trans hdir)) fun herror follow more hmore => ?_
      rw [List.cons_append, walk_up (hsame.trans hdir)]
      exact herror follow more hmore
    · exact Or.inr fun follow more hmore => hstop hgone follow more hmore
  | @down n m here loc piece rest hdir hidle hup h ih =>
    rcases hfewer.get here with hsame | hgone
    · have hlink : ∀ target, u.get? (here ++ [piece]) ≠ some (.link target) := by
        intro target htarget
        rcases hfewer.get (here ++ [piece]) with hsame' | hgone'
        · rw [hsame', h.first] at htarget
          cases htarget
        · rw [hgone'] at htarget
          cases htarget
      refine ih.imp (.down (hsame.trans hdir) hidle hup) fun herror follow more hmore => ?_
      rw [List.cons_append, walk_down (hsame.trans hdir) hidle hup hlink]
      exact herror follow more hmore
    · exact Or.inr fun follow more hmore => hstop hgone follow more hmore
  | @link n m here loc piece target rest hdir hidle hup hlink _ ih =>
    rcases hfewer.get here with hsame | hgone
    · rcases hfewer.get (here ++ [piece]) with hsame' | hgone'
      · refine ih.imp (.link (hsame.trans hdir) hidle hup (hsame'.trans hlink)) fun herror follow more hmore => ?_
        rw [List.cons_append, walk_link (hsame.trans hdir) hidle hup (hsame'.trans hlink)
          (Or.inl (List.append_ne_nil_of_right_ne_nil _ hmore)), ← List.append_assoc]
        exact herror follow more hmore
      · refine Or.inr fun follow more hmore => ?_
        rw [List.cons_append, walk_down (hsame.trans hdir) hidle hup fun target htarget => by
          rw [hgone'] at htarget
          cases htarget]
        exact hstop hgone' follow more hmore
    · exact Or.inr fun follow more hmore => hstop hgone follow more hmore

/-- A name in a directory stands for its entry, or for nothing any more. -/
theorem find?_child_of_fewer (hname : EntryName name) (hloc : t.locate p true = .ok top)
    (hdir : t.get? top = some .directory) (hfewer : Fewer t u) :
    (∃ error, u.find? (p.child name) false = .error error) ∨
      ∃ e, u.get? (top ++ [name]) = some e ∧ u.find? (p.child name) false = .ok (top ++ [name], e) := by
  obtain ⟨hspell, front, k, hfront, hpieces, hreach⟩ := exists_reaches_child hname hloc hdir
  have hlocate : u.locate (p.child name) false =
      walk u false (linkLimit + 1) (t.startOf front) (front ++ [name]) := by
    rw [hspell.locate, hpieces, startOf_append (Or.inl hfront), startOf, startOf, hfewer.home]
  -- the way to the directory still stands, or every path over it fails
  rcases hreach.of_fewer hfewer with hreach | herror
  · have hplace : u.locate (p.child name) false = .ok (top ++ [name]) := by
      rw [hlocate, hreach.walk_eq (Or.inl (List.cons_ne_nil _ _)), walk_last hreach.last hname.idle hname.up]
    cases hentry : u.get? (top ++ [name]) with
    | none => exact Or.inl ⟨_, find?_of_missing hplace hentry⟩
    | some e => exact Or.inr ⟨e, rfl, find?_of_entry hplace hentry⟩
  · obtain ⟨error, herror⟩ := herror false [name] (List.cons_ne_nil _ _)
    refine Or.inl ⟨error, ?_⟩
    rw [find?, hlocate, herror]
    rfl

/-! ## Listings of directories

  A listing gives the names of the entries that lie in a directory, each once and in their order. -/

/-- A child of a directory is an entry one name below it. -/
theorem childOf?_eq_some_iff {f : Location × Entry} :
    childOf? loc f = some (name, e) ↔ f = (loc ++ [name], e) := by
  rw [childOf?]
  -- the name of a child is what is left of its location behind the directory
  constructor
  · intro h
    split at h
    · rename_i found hbelow hdrop
      cases h
      obtain ⟨rest, hrest⟩ := List.isPrefixOf_iff_prefix.mp hbelow
      rw [← hrest, List.drop_left] at hdrop
      exact Prod.ext (by rw [← hrest, hdrop]) rfl
    · cases h
  · rintro rfl
    have hbelow : loc.isPrefixOf (loc ++ [name]) = true := List.isPrefixOf_iff_prefix.mpr (List.prefix_append _ _)
    dsimp only
    rw [hbelow, List.drop_left]

/-- What is found at a path is where the path leads. -/
theorem entry_of_find? (h : t.find? p follow = .ok (loc, e)) : t.locate p follow = .ok loc ∧ t.get? loc = some e := by
  cases hloc : t.locate p follow with
  | error error =>
    rw [find?, hloc] at h
    cases h
  | ok place =>
    cases hentry : t.get? place with
    | none =>
      rw [find?_of_missing hloc hentry] at h
      cases h
    | some found =>
      rw [find?_of_entry hloc hentry] at h
      cases h
      exact ⟨rfl, hentry⟩

/-- What is listed lies where the path leads. -/
theorem exists_of_readDirectory {entries : List (String × Entry)} (h : t.readDirectory p = .ok entries) :
    ∃ top, t.find? p true = .ok (top, .directory) ∧ entries = t.children top := by
  rw [readDirectory] at h
  cases hfind : t.find? p true with
  | error error =>
    rw [hfind] at h
    cases h
  | ok found =>
    rw [hfind] at h
    obtain ⟨top, e⟩ := found
    cases e with
    | directory =>
      cases h
      exact ⟨top, rfl, rfl⟩
    | file content mode => cases h
    | link target => cases h

namespace Listed

variable (ht : t.Listed)
include ht

/-- A directory's listing holds what lies in it. -/
theorem mem_children {x : String × Entry} : x ∈ t.children loc ↔ t.get? (loc ++ [x.1]) = some x.2 := by
  rw [children, List.mem_mergeSort, List.mem_filterMap]
  have hne : loc ++ [x.1] ≠ [] := List.append_ne_nil_of_right_ne_nil _ (List.cons_ne_nil _ _)
  constructor
  · rintro ⟨f, hf, hchild⟩
    rw [childOf?_eq_some_iff.mp hchild] at hf
    exact ht.get?_of_mem hf
  · intro h
    exact ⟨_, mem_of_get? hne h, childOf?_eq_some_iff.mpr rfl⟩

/-- A directory's listing is in the order of the names, each of which stands there once. -/
theorem children_sorted : (t.children loc).Pairwise fun a b => a.1 < b.1 := by
  -- the entries stand at distinct places, so their names differ
  have hnames : (t.entries.filterMap (childOf? loc)).Pairwise fun a b => a.1 ≠ b.1 := by
    refine List.Pairwise.filterMap _ ?_ (List.pairwise_map.mp ht.once)
    intro f g hne a hf b hg hab
    rw [childOf?_eq_some_iff.mp hf, childOf?_eq_some_iff.mp hg, hab] at hne
    exact hne rfl
  -- the listing is sorted by name
  have hsorted : (t.children loc).Pairwise fun a b => decide (a.1 ≤ b.1) = true := by
    refine List.pairwise_mergeSort (fun a b c hab hbc => ?_) (fun a b => ?_) _
    · exact decide_eq_true (String.le_trans (of_decide_eq_true hab) (of_decide_eq_true hbc))
    · rw [Bool.or_eq_true, decide_eq_true_eq, decide_eq_true_eq]
      exact String.le_total a.1 b.1
  have hdistinct : (t.children loc).Pairwise fun a b => a.1 ≠ b.1 :=
    (List.mergeSort_perm _ _).pairwise_iff (fun h => h.symm) |>.mpr hnames
  refine (hsorted.and hdistinct).imp fun h => ?_
  by_contra hlt
  exact h.2 (String.le_antisymm (of_decide_eq_true h.1) (String.not_lt.mp hlt))

end Listed

end Wheelwright.FileTree
