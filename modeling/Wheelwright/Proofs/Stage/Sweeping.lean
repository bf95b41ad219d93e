/-
  Sweeping — what a stage that empties a directory leaves behind, wherever it ends.

  **Specification** — the entries of the directory, in the order of their paths, are split at one point (`Split`).
  Those before it are gone, those behind it are untouched, and the one at it has lost a part of what lay below it at
  most, and that only if its removal failed.  Nothing else in the tree has changed.

  **Program** — `sweep` looks whether to stop, says what it is going to remove, and removes it.  It ends when it is told
  to stop, when a removal fails, or behind the last entry (`Swept`).

  **The crux** — the removals before the split have made the tree smaller and nothing else (`Cleared`), so the path of
  the next entry still leads to that entry, if it leads anywhere (`find?_child_of_fewer`).
-/
import Wheelwright.Proofs.FileTree.Removal

namespace Wheelwright

open FileTree

namespace CleanStage

variable {s : CleanStage} {remove : FileTree → Path → FileTree × Option OsError} {stopped : Nat → Option String}
  {t u v : FileTree} {top : Location} {gone left rest entries : List (String × Entry)} {x : String × Entry}
  {r : StageResult}

/-! ## Trees with entries removed

  Removing entries one after the other leaves a tree in which these are gone and all else is as it was.  The entries
  have different names, so nothing of one lies below another. -/

/-- The entries of a directory are gone with all below them, and everything else is as it was. -/
structure Cleared (top : Location) (gone : List (String × Entry)) (t u : FileTree) : Prop where
  home : u.home = t.home
  /-- What was removed is gone with all below it. -/
  away : ∀ x ∈ gone, ∀ place, top ++ [x.1] <+: place → u.get? place = none
  /-- Nothing else has changed. -/
  other : ∀ place, (∀ x ∈ gone, ¬ top ++ [x.1] <+: place) → u.get? place = t.get? place

/-- What lies below an entry does not lie below another one of the directory. -/
theorem name_eq_of_below {a b : String} {place : Location} (ha : top ++ [a] <+: place) (hb : top ++ [b] <+: place) :
    a = b := by
  have hlength : (top ++ [a]).length = (top ++ [b]).length := by rw [List.length_append, List.length_append]; rfl
  have heq := (List.prefix_of_prefix_length_le ha hb (Nat.le_of_eq hlength)).eq_of_length hlength
  exact List.singleton_inj.mp (List.append_cancel_left heq)

/-- No place outside the directory and no directory itself lies below one of its entries. -/
theorem not_below {a : String} {place : Location} (h : ¬ top <+: place ∨ place = top) : ¬ top ++ [a] <+: place := by
  intro hbelow
  rcases h with hout | rfl
  · exact hout ((List.prefix_append top [a]).trans hbelow)
  · have hlength := hbelow.length_le
    rw [List.length_append, List.length_singleton] at hlength
    omega

namespace Cleared

/-- Nothing removed, nothing changed. -/
theorem refl (top : Location) (t : FileTree) : Cleared top [] t t := ⟨rfl, nofun, fun _ _ => rfl⟩

/-- A cleared tree has fewer entries. -/
theorem fewer (h : Cleared top gone t u) : Fewer t u := by
  refine ⟨h.home, fun place => ?_⟩
  by_cases hplace : ∃ x ∈ gone, top ++ [x.1] <+: place
  · obtain ⟨x, hx, hbelow⟩ := hplace
    exact Or.inr (h.away x hx place hbelow)
  · exact Or.inl (h.other place fun x hx hbelow => hplace ⟨x, hx, hbelow⟩)

/-- Entries of other names are untouched. -/
theorem get?_of_ne (h : Cleared top gone t u) {name : String} (hne : ∀ x ∈ gone, x.1 ≠ name) {place : Location}
    (hplace : top ++ [name] <+: place) : u.get? place = t.get? place :=
  h.other place fun x hx hbelow => hne x hx (name_eq_of_below hbelow hplace)

/-- One more entry is removed. -/
theorem concat (h : Cleared top gone t v) (hagree : AgreeOutside (top ++ [x.1]) v u)
    (hgone : ∀ place, top ++ [x.1] <+: place → u.get? place = none) : Cleared top (gone ++ [x]) t u := by
  refine ⟨hagree.home.trans h.home, fun y hy place hbelow => ?_, fun place hplace => ?_⟩
  · by_cases hx : top ++ [x.1] <+: place
    · exact hgone place hx
    · rcases List.mem_append.mp hy with hy | hy
      · rw [hagree.get place hx]
        exact h.away y hy place hbelow
      · rw [List.mem_singleton.mp hy] at hbelow
        exact absurd hbelow hx
  · rw [hagree.get place (hplace x (List.mem_append_right _ (List.mem_singleton_self x)))]
    exact h.other place fun y hy => hplace y (List.mem_append_left _ hy)

end Cleared

/-! ## Where a sweep ends

  The sweep may end in three ways, and in each of them the list of entries is cut in two. -/

/-- What is said about entries. -/
def notices (entries : List (String × Entry)) : List Diagnostic :=
  entries.map fun x => notice x.1 (x.2 = .directory)

/-- Each removal is noticed. -/
theorem notices_concat : notices (gone ++ [x]) = notices gone ++ [notice x.1 (x.2 = .directory)] := List.map_append

/-- The ways in which a sweep ends that has removed some entries and has others left. -/
inductive Swept (s : CleanStage) (remove : FileTree → Path → FileTree × Option OsError) (stopped : Nat → Option String)
    (top : Location) (t : FileTree) (gone : List (String × Entry)) :
    List (String × Entry) → StageResult → FileTree → Prop
  /-- To the end. -/
  | all {u : FileTree} (h : Cleared top gone t u) :
      Swept s remove stopped top t gone [] (.succeeded s.name (notices gone) .zero) u
  /-- Up to a stop. -/
  | stopped {x : String × Entry} {rest : List (String × Entry)} {u : FileTree} {reason : String}
      (h : Cleared top gone t u) (hstop : stopped gone.length = some reason) :
      Swept s remove stopped top t gone (x :: rest) (s.failed .cancelled reason (notices gone)) u
  /-- Up to an entry that could not be removed. -/
  | failed {x : String × Entry} {rest : List (String × Entry)} {v u : FileTree} {error : OsError}
      (h : Cleared top gone t v) (hgo : stopped gone.length = none)
      (hremove : remove v (s.buildDir.child x.1) = (u, some error)) (hagree : AgreeOutside (top ++ [x.1]) v u)
      (hfewer : Fewer v u) (hkept : u.get? (top ++ [x.1]) = some x.2) :
      Swept s remove stopped top t gone (x :: rest) (s.failed .io error.message (notices (gone ++ [x]))) u

/-- **A sweep goes on to a split of its entries**, by induction on those that it has not looked at yet; the tree has
    lost those before and nothing else. -/
theorem swept_sweep (hr : Remover remove) (hloc : t.locate s.buildDir true = .ok top)
    (hdir : t.get? top = some .directory)
    (hentries : ∀ x ∈ rest, EntryName x.1 ∧ t.get? (top ++ [x.1]) = some x.2)
    (hnames : (gone ++ rest).Pairwise fun a b => a.1 ≠ b.1) (hc : Cleared top gone t v)
    (hgo : ∀ k < gone.length, stopped k = none) :
    ∃ more left, rest = more ++ left ∧ (∀ k < (gone ++ more).length, stopped k = none) ∧
      Swept s remove stopped top t (gone ++ more) left (s.sweep remove stopped rest (notices gone) v).1
        (s.sweep remove stopped rest (notices gone) v).2 := by
  -- by the entries that are left; a stop, a failure, or one entry more that is gone
  induction rest generalizing gone v with
  | nil =>
    refine ⟨[], [], rfl, ?_, ?_⟩ <;> rw [List.append_nil]
    · exact hgo
    · exact .all hc
  | cons x rest ih =>
    obtain ⟨hname, hentry⟩ := hentries x List.mem_cons_self
    have hother : ∀ y ∈ gone, y.1 ≠ x.1 := fun y hy =>
      (List.pairwise_append.mp hnames).2.2 y hy x List.mem_cons_self
    have hsame : v.get? (top ++ [x.1]) = some x.2 := (hc.get?_of_ne hother (List.prefix_refl _)).trans hentry
    unfold sweep
    rw [notices, List.length_map]
    cases hstop : stopped gone.length with
    | some reason =>
      refine ⟨[], x :: rest, rfl, ?_, ?_⟩ <;> rw [List.append_nil]
      · exact hgo
      · exact .stopped hc hstop
    | none =>
      dsimp only
      rw [← notices, ← notices_concat]
      have hends {u : FileTree} {error : OsError} (hremove : remove v (s.buildDir.child x.1) = (u, some error))
          (hagree : AgreeOutside (top ++ [x.1]) v u) (hfewer : Fewer v u) (hkept : u.get? (top ++ [x.1]) = some x.2) :
          ∃ more left, x :: rest = more ++ left ∧ (∀ k < (gone ++ more).length, stopped k = none) ∧
            Swept s remove stopped top t (gone ++ more) left
              (s.failed .io error.message (notices (gone ++ [x]))) u := by
        refine ⟨[], x :: rest, rfl, ?_, ?_⟩ <;> rw [List.append_nil]
        · exact hgo
        · exact .failed hc hstop hremove hagree hfewer hkept
      -- the entry may have become unreachable, which is a failure as well
      rcases find?_child_of_fewer hname hloc hdir hc.fewer with ⟨error, hfind⟩ | ⟨e, he, hfind⟩
      · obtain ⟨error', hremove⟩ := hr.missing v _ error hfind
        rw [hremove]
        exact hends hremove ⟨rfl, rfl, fun _ _ => rfl⟩ ⟨rfl, fun _ => Or.inl rfl⟩ hsame
      · obtain rfl : e = x.2 := Option.some.inj (he.symm.trans hsame)
        have hremoves := hr.found v _ _ _ hfind (List.append_ne_nil_of_right_ne_nil _ (List.cons_ne_nil _ _))
        generalize hremove : remove v (s.buildDir.child x.1) = removed at hremoves ⊢
        obtain ⟨u, failure⟩ := removed
        cases hremoves with
        | done hagree hgone =>
          have hnext := hc.concat hagree hgone
          rw [List.append_cons] at hnames
          obtain ⟨more, left, rfl, hgo', hswept⟩ :=
            ih (fun y hy => hentries y (List.mem_cons_of_mem _ hy)) hnames hnext fun k hk => by
              rw [List.length_append, List.length_singleton] at hk
              rcases Nat.lt_succ_iff_lt_or_eq.mp hk with hk | rfl
              · exact hgo k hk
              · exact hstop
          rw [List.append_assoc] at hgo' hswept
          exact ⟨x :: more, left, rfl, hgo', hswept⟩
        | failed hagree hfewer hkept => exact hends hremove hagree hfewer hkept

/-! ## What is left

  What the cut means for the tree and for the result of the stage, with a field for each statement.  The status is one
  of three, and each of them is told by what is left. -/

/-- The entries of the directory at `top` of the tree `t`, split by a stage that came to `r` and left the tree `u`. -/
structure Split (s : CleanStage) (remove : FileTree → Path → FileTree × Option OsError) (stopped : Nat → Option String)
    (top : Location) (t : FileTree) (gone left : List (String × Entry)) (r : StageResult) (u : FileTree) : Prop where
  /-- What was removed is gone. -/
  away : ∀ x ∈ gone, ∀ place, top ++ [x.1] <+: place → u.get? place = none
  /-- What is left is there. -/
  kept : ∀ x ∈ left, u.get? (top ++ [x.1]) = some x.2
  /-- But for the first of it, what is left is as it was. -/
  untouched : ∀ x ∈ left.tail, ∀ place, top ++ [x.1] <+: place → u.get? place = t.get? place
  /-- What is missing of the entry at the split is missing because its removal failed. -/
  partly : ∀ x ∈ left.head?, ∀ place, top ++ [x.1] <+: place →
    u.get? place = t.get? place ∨ r.status = .failed ∧ u.get? place = none
  /-- Nothing outside has changed. -/
  home : u.home = t.home
  outside : ∀ place, ¬ top <+: place ∨ place = top → u.get? place = t.get? place
  /-- Each removal was told, the one that failed included. -/
  told : r.diagnostics = notices (gone ++ if r.status = .failed then left.head?.toList else [])
  /-- It was not stopped before. -/
  unstopped : ∀ k < gone.length, stopped k = none
  /-- There is no other way out, so the three conditions below are all that there are. -/
  ended : r.status = .succeeded ∨ r.status = .cancelled ∨ r.status = .failed
  /-- It succeeded if everything is gone. -/
  succeeded_iff : r.status = .succeeded ↔ ∀ x ∈ gone ++ left, u.get? (top ++ [x.1]) = none
  /-- It was cancelled if it was stopped with something left. -/
  cancelled_iff : r.status = .cancelled ↔ left ≠ [] ∧ (stopped gone.length).isSome = true
  /-- It failed if a removal did. -/
  failed_iff : r.status = .failed ↔ ∃ x ∈ left.head?, stopped gone.length = none ∧
    ∃ v error, Cleared top gone t v ∧ remove v (s.buildDir.child x.1) = (u, some error)

/-- The entry at the split is still there, so not all entries are gone. -/
theorem not_all_gone (h : u.get? (top ++ [x.1]) = some x.2) :
    ¬ ∀ y ∈ gone ++ x :: rest, u.get? (top ++ [y.1]) = none := by
  intro hall
  rw [hall x (List.mem_append_right _ List.mem_cons_self)] at h
  cases h

namespace Split

/-- A sweep that has removed every entry. -/
theorem of_all (h : Cleared top gone t u) (hgo : ∀ k < gone.length, stopped k = none) :
    Split s remove stopped top t gone [] (.succeeded s.name (notices gone) .zero) u where
  away := h.away
  kept := nofun
  untouched := nofun
  partly := nofun
  home := h.home
  outside place hplace := h.other place fun _ _ => not_below hplace
  told := congrArg notices (List.append_nil gone).symm
  unstopped := hgo
  ended := Or.inl rfl
  succeeded_iff := iff_of_true rfl fun x hx => by
    rw [List.append_nil] at hx
    exact h.away x hx _ (List.prefix_refl _)
  cancelled_iff := iff_of_false nofun fun hleft => hleft.1 rfl
  failed_iff := iff_of_false nofun nofun

/-- A sweep that was stopped at an entry. -/
theorem of_stopped {reason : String} (h : Cleared top gone t u) (hgo : ∀ k < gone.length, stopped k = none)
    (hstop : stopped gone.length = some reason) (hentries : ∀ y ∈ x :: rest, t.get? (top ++ [y.1]) = some y.2)
    (hother : ∀ y ∈ x :: rest, ∀ z ∈ gone, z.1 ≠ y.1) :
    Split s remove stopped top t gone (x :: rest) (s.failed .cancelled reason (notices gone)) u := by
  -- the entries that are left were not touched
  have hkept : ∀ y ∈ x :: rest, ∀ place, top ++ [y.1] <+: place → u.get? place = t.get? place :=
    fun y hy place hplace => h.get?_of_ne (hother y hy) hplace
  have hthere : ∀ y ∈ x :: rest, u.get? (top ++ [y.1]) = some y.2 := fun y hy =>
    (hkept y hy _ (List.prefix_refl _)).trans (hentries y hy)
  exact {
    away := h.away
    kept := hthere
    untouched := fun y hy => hkept y (List.mem_of_mem_tail hy)
    partly := fun y hy place hplace => Or.inl (hkept y (List.mem_of_mem_head? hy) place hplace)
    home := h.home
    outside := fun place hplace => h.other place fun x _ => not_below hplace
    told := congrArg notices (List.append_nil gone).symm
    unstopped := hgo
    ended := Or.inr (Or.inl rfl)
    succeeded_iff := iff_of_false nofun (not_all_gone (hthere x List.mem_cons_self))
    cancelled_iff := iff_of_true rfl ⟨List.cons_ne_nil _ _, by rw [hstop]; rfl⟩
    failed_iff := iff_of_false nofun fun ⟨y, _, hnone, _⟩ => by
      rw [hstop] at hnone
      cases hnone }

/-- A sweep that could not remove an entry; some of what stands behind that entry may be gone. -/
theorem of_failed {error : OsError} (h : Cleared top gone t v) (hgo : ∀ k < gone.length, stopped k = none)
    (hnone : stopped gone.length = none) (hremove : remove v (s.buildDir.child x.1) = (u, some error))
    (hagree : AgreeOutside (top ++ [x.1]) v u) (hfewer : Fewer v u) (hkept : u.get? (top ++ [x.1]) = some x.2)
    (hentries : ∀ y ∈ rest, t.get? (top ++ [y.1]) = some y.2) (hother : ∀ y ∈ x :: rest, ∀ z ∈ gone, z.1 ≠ y.1)
    (hnames : ∀ y ∈ rest, x.1 ≠ y.1) :
    Split s remove stopped top t gone (x :: rest) (s.failed .io error.message (notices (gone ++ [x]))) u := by
  have hx {place : Location} (hplace : top ++ [x.1] <+: place) : v.get? place = t.get? place :=
    h.get?_of_ne (hother x List.mem_cons_self) hplace
  -- the failed removal is told from the others by its name
  have hrest : ∀ y ∈ rest, ∀ place, top ++ [y.1] <+: place → u.get? place = t.get? place := by
    intro y hy place hplace
    rw [hagree.get place fun hbelow => hnames y hy (name_eq_of_below hbelow hplace)]
    exact h.get?_of_ne (hother y (List.mem_cons_of_mem _ hy)) hplace
  exact {
    away := fun y hy place hplace => by
      rcases hfewer.get place with hsame | hgone
      · rw [hsame]
        exact h.away y hy place hplace
      · exact hgone
    kept := fun y hy => by
      rcases List.mem_cons.mp hy with rfl | hy
      · exact hkept
      · exact (hrest y hy _ (List.prefix_refl _)).trans (hentries y hy)
    untouched := hrest
    partly := fun y hy place hplace => by
      obtain rfl := Option.some.inj hy
      rcases hfewer.get place with hsame | hgone
      · exact Or.inl (hsame.trans (hx hplace))
      · exact Or.inr ⟨rfl, hgone⟩
    home := hagree.home.trans h.home
    outside := fun place hplace => by
      rw [hagree.get place (not_below hplace)]
      exact h.other place fun x _ => not_below hplace
    told := rfl
    unstopped := hgo
    ended := Or.inr (Or.inr rfl)
    succeeded_iff := iff_of_false nofun (not_all_gone hkept)
    cancelled_iff := iff_of_false nofun fun hleft => by
      rw [hnone] at hleft
      cases hleft.2
    failed_iff := iff_of_true rfl ⟨x, rfl, hnone, v, error, h, hremove⟩ }

end Split

/-- **Every end of a sweep is a split.** -/
theorem Swept.split (h : Swept s remove stopped top t gone left r u) (hgo : ∀ k < gone.length, stopped k = none)
    (hentries : ∀ x ∈ left, t.get? (top ++ [x.1]) = some x.2)
    (hnames : (gone ++ left).Pairwise fun a b => a.1 ≠ b.1) : Split s remove stopped top t gone left r u := by
  obtain ⟨-, hleft, happart⟩ := List.pairwise_append.mp hnames
  have hother : ∀ x ∈ left, ∀ y ∈ gone, y.1 ≠ x.1 := fun x hx y hy => happart y hy x hx
  cases h with
  | all h => exact .of_all h hgo
  | stopped h hstop => exact .of_stopped h hgo hstop hentries hother
  | failed h hnone hremove hagree hfewer hkept =>
    exact .of_failed h hgo hnone hremove hagree hfewer hkept (fun y hy => hentries y (List.mem_cons_of_mem _ hy)) hother
      fun y hy => List.rel_of_pairwise_cons hleft hy

/-- **Whatever lies in the directory, wherever the stage is stopped and whichever removals fail, the entries are split at
    one point.**  The stage listed them all, in the order of their paths; it has said what it was going to remove, and
    its status tells whether it came to the end, was stopped, or could not go on.  A directory that is missing is left
    missing, and one that cannot be listed is left as it is. -/
theorem runWith_splits (hr : Remover remove) (ht : t.Listed) (s : CleanStage) (stopped : Nat → Option String) :
    (∀ entries, t.readDirectory s.buildDir = .ok entries → ∃ top gone left,
      t.find? s.buildDir true = .ok (top, .directory) ∧ (∀ x, x ∈ entries ↔ t.get? (top ++ [x.1]) = some x.2) ∧
      (entries.Pairwise fun a b => (s.buildDir.child a.1).lt (s.buildDir.child b.1) = true) ∧ entries = gone ++ left ∧
      Split s remove stopped top t gone left (s.runWith remove stopped t).1 (s.runWith remove stopped t).2) ∧
    (t.readDirectory s.buildDir = .error .notFound → (s.runWith remove stopped t).1.status = .succeeded ∧
      (s.runWith remove stopped t).1.diagnostics = [.info (s.buildDir.text ++ " does not exist; nothing to clean")] ∧
      (s.runWith remove stopped t).2 = t) ∧
    ∀ e, t.readDirectory s.buildDir = .error e → e ≠ .notFound → (s.runWith remove stopped t).1.status = .failed ∧
      (s.runWith remove stopped t).1.diagnostics = [] ∧ (s.runWith remove stopped t).2 = t := by
  refine ⟨fun entries hread => ?_, fun hread => ?_, fun e hread hne => ?_⟩
  · obtain ⟨top, hfind, rfl⟩ := exists_of_readDirectory hread
    obtain ⟨hloc, hdir⟩ := entry_of_find? hfind
    have hlisted {x : String × Entry} : x ∈ t.children top ↔ t.get? (top ++ [x.1]) = some x.2 := ht.mem_children
    have hname : ∀ x ∈ t.children top, EntryName x.1 := fun x hx =>
      ht.entryName (hlisted.mp hx) x.1 (List.mem_append_right _ (List.mem_singleton_self _))
    have hsorted : (t.children top).Pairwise fun a b => a.1 < b.1 := ht.children_sorted
    have hnames : (t.children top).Pairwise fun a b => a.1 ≠ b.1 := hsorted.imp fun hlt heq => by
      rw [heq] at hlt
      exact String.lt_irrefl _ hlt
    -- nothing is gone when the sweep begins
    obtain ⟨gone, left, hsplit, hgo, hswept⟩ : ∃ gone left, t.children top = gone ++ left ∧
        (∀ k < ([] ++ gone).length, stopped k = none) ∧ Swept s remove stopped top t ([] ++ gone) left
          (s.sweep remove stopped (t.children top) (notices []) t).1
          (s.sweep remove stopped (t.children top) (notices []) t).2 :=
      swept_sweep hr hloc hdir (fun x hx => ⟨hname x hx, hlisted.mp hx⟩) hnames (.refl top t) nofun
    rw [List.nil_append] at hgo hswept
    have hrun : s.runWith remove stopped t = s.sweep remove stopped (t.children top) (notices []) t := by
      rw [runWith, hread]
      rfl
    rw [hrun]
    refine ⟨top, gone, left, hfind, fun x => hlisted, hsorted.imp_of_mem fun ha hb => ?_, hsplit, ?_⟩
    · exact (Path.child_lt_child (hname _ ha) (hname _ hb)).mpr
    · rw [hsplit] at hnames hlisted
      exact hswept.split hgo (fun x hx => hlisted.mp (List.mem_append_right _ hx)) hnames
  · rw [runWith, hread]
    exact ⟨rfl, rfl, rfl⟩
  · have hrun : s.runWith remove stopped t = (s.failed .io e.message [], t) := by
      rw [runWith, hread]
      cases e <;> first | rfl | exact absurd rfl hne
    rw [hrun]
    exact ⟨rfl, rfl, rfl⟩

/-! ## A directory that cannot be removed

  One removal fails when a part of the directory is gone already, and a link in the directory does not take its target
  along. -/

/-- A build directory with a link, a directory and a file in it; the link leads to the sources. -/
def shelf : FileTree where
  entries := [(["src"], .directory), (["src", "f"], .file [] .plain), (["out"], .directory),
    (["out", "a"], .link "/src"), (["out", "b"], .directory), (["out", "b", "x"], .file [] .plain),
    (["out", "b", "y"], .file [] .plain), (["out", "c"], .file [] .plain)]

/-- Removals in a file system that does not let go of files with the name `x`: a directory that holds one loses what
    stands behind it and stays. -/
def removeButX (t : FileTree) (p : Path) : FileTree × Option OsError :=
  match t.find? p false with
  | .error error => (t, some error)
  | .ok (loc, _) =>
    if (t.get? (loc ++ ["x"])).isSome then (t.erase (loc ++ ["y"]), some .permissionDenied) else (t.erase loc, none)

theorem remover_removeButX : Remover removeButX := by
  refine ⟨fun t p loc e hfind hne => ?_, fun t p error hfind => ⟨error, by rw [removeButX, hfind]⟩⟩
  rw [removeButX, hfind]
  dsimp only
  have hne' : loc ++ ["y"] ≠ [] := List.append_ne_nil_of_right_ne_nil _ (List.cons_ne_nil _ _)
  -- what could be taken away stays away, also where the removal fails
  split
  · refine .failed ⟨rfl, rfl, fun place hplace => ?_⟩ ⟨rfl, fun place => ?_⟩ ?_
    · rw [get?_erase hne', if_neg fun hbelow => hplace ((List.prefix_append loc ["y"]).trans hbelow)]
    · rw [get?_erase hne']
      by_cases hbelow : loc ++ ["y"] <+: place
      · exact Or.inr (if_pos hbelow)
      · exact Or.inl (if_neg hbelow)
    · rw [get?_erase hne', if_neg (not_below (Or.inr rfl))]
      exact (entry_of_find? hfind).2
  · exact .done ⟨rfl, rfl, fun place hplace => by rw [get?_erase hne, if_neg hplace]⟩ fun place hplace => by
      rw [get?_erase hne, if_pos hplace]

/-- A stage that empties the build directory. -/
def emptier : CleanStage := { name := "clean", buildDir := ⟨"/out"⟩ }

/-- It was not stopped. -/
def emptied : StageResult × FileTree := emptier.runWith removeButX (fun _ => none) shelf

theorem readDirectory_shelf : shelf.readDirectory emptier.buildDir =
    .ok [("a", .link "/src"), ("b", .directory), ("c", .file [] .plain)] := by
  have hfind : shelf.find? emptier.buildDir true = .ok (["out"], .directory) := by with_unfolding_all rfl
  have hchildren : shelf.children ["out"] = [("a", .link "/src"), ("b", .directory), ("c", .file [] .plain)] :=
    List.mergeSort_of_pairwise (by decide)
  rw [readDirectory, hfind, ← hchildren]
  rfl

/-- The link is gone and the sources are there, a part of the directory is gone, and the file behind it is there. -/
theorem runWith_splits_shelf : Remover removeButX ∧ shelf.Listed ∧
    (∃ top gone left, shelf.find? emptier.buildDir true = .ok (top, .directory) ∧
      Split emptier removeButX (fun _ => none) top shelf gone left emptied.1 emptied.2) ∧
    emptied.1.status = .failed ∧ emptied.1.diagnostics.length = 2 ∧ emptied.2.get? ["out", "a"] = none ∧
    emptied.2.get? ["out", "b", "y"] = none ∧ emptied.2.get? ["out", "b", "x"] = some (.file [] .plain) ∧
    emptied.2.get? ["out", "c"] = some (.file [] .plain) ∧ emptied.2.get? ["src", "f"] = some (.file [] .plain) := by
  have hlisted : shelf.Listed :=
    listed_of_entries (by with_unfolding_all decide) (by with_unfolding_all decide) (by with_unfolding_all decide)
  obtain ⟨hsplit, -, -⟩ := runWith_splits remover_removeButX hlisted emptier fun _ => none
  obtain ⟨top, gone, left, hfind, -, -, -, hsplit⟩ := hsplit _ readDirectory_shelf
  refine ⟨remover_removeButX, hlisted, ⟨top, gone, left, hfind, hsplit⟩, ?_⟩
  rw [emptied, runWith, readDirectory_shelf]
  decide +kernel

end CleanStage

end Wheelwright
