/-
  Edits — files whose content changes.

  **Specification** — two trees are `Edited` at a place if a file lies there in both, with an old content in the first
  and a new one in the second, and all else is the same.

  **The crux** — an edit leads no path elsewhere (`Edited.locate`): directories and links are what they were, and what a
  path meets where it cannot go on is still a file.  So only the paths that lead to the file read anything else.
-/
import Wheelwright.Proofs.Store.Place

namespace Wheelwright.FileTree

variable {t u : FileTree} {place here loc : Location} {old new : Bytes} {p : Path} {pieces : List String} {n : Nat}
  {target : String}

/-- The file at `place` holds `new` in the second tree for `old` in the first, and nothing else has changed.  It can be
    read in both: of a file that cannot be read, no content is seen. -/
structure Edited (place : Location) (old new : Bytes) (t u : FileTree) : Prop where
  home : u.home = t.home
  user : u.user = t.user
  /-- A file that can be read stands at the place, before and after. -/
  before : ∃ mode, mode ≠ .unreadable ∧ t.get? place = some (.file old mode)
  after : ∃ mode, mode ≠ .unreadable ∧ u.get? place = some (.file new mode)
  /-- Nothing else has changed. -/
  get : ∀ loc, loc ≠ place → u.get? loc = t.get? loc

namespace Edited

variable (h : Edited place old new t u)

include h

/-- An edit taken back is an edit. -/
theorem symm : Edited place new old u t :=
  ⟨h.home.symm, h.user.symm, h.after, h.before, fun loc hloc => (h.get loc hloc).symm⟩

/-- What is no file at the first place is the same in both trees. -/
theorem get?_of_no_file {e : Entry} (he : ∀ content mode, e ≠ .file content mode) (hentry : t.get? loc = some e) :
    u.get? loc = some e := by
  obtain ⟨mode, -, hbefore⟩ := h.before
  rw [h.get loc, hentry]
  rintro rfl
  rw [hbefore] at hentry
  exact he old mode (Option.some.inj hentry).symm

/-- An edit makes and takes no directory. -/
theorem directory_iff : u.get? loc = some .directory ↔ t.get? loc = some .directory :=
  ⟨h.symm.get?_of_no_file nofun, h.get?_of_no_file nofun⟩

/-- It makes and takes no link. -/
theorem link_iff : u.get? loc = some (.link target) ↔ t.get? loc = some (.link target) :=
  ⟨h.symm.get?_of_no_file nofun, h.get?_of_no_file nofun⟩

/-- It makes and takes no entry. -/
theorem none_iff : u.get? loc = none ↔ t.get? loc = none := by
  by_cases hloc : loc = place
  · obtain ⟨mode, -, hbefore⟩ := h.before
    obtain ⟨mode', -, hafter⟩ := h.after
    rw [hloc, hbefore, hafter]
    exact ⟨nofun, nofun⟩
  · rw [h.get loc hloc]

/-- A file is still a file. -/
theorem exists_file {content : Bytes} {mode : Mode} (hfile : t.get? loc = some (.file content mode)) :
    ∃ content' mode', u.get? loc = some (.file content' mode') := by
  by_cases hloc : loc = place
  · obtain ⟨mode', -, hafter⟩ := h.after
    exact ⟨new, mode', hloc ▸ hafter⟩
  · exact ⟨content, mode, (h.get loc hloc).trans hfile⟩

/-- Pieces lead where they led. -/
theorem walk : FileTree.walk u true n here pieces = FileTree.walk t true n here pieces := by
  -- by the links that may be followed, and within them by the pieces; directories and links are the same in both
  induction n generalizing here pieces with
  | zero => rfl
  | succ n ih =>
    induction pieces generalizing here with
    | nil => rfl
    | cons piece rest ihp =>
      by_cases hdir : t.get? here = some .directory
      · have hdir' := h.directory_iff.mpr hdir
        by_cases hidle : isIdlePiece piece = true
        · rw [walk_idle hdir hidle, walk_idle hdir' hidle]
          exact ihp
        · rw [Bool.not_eq_true] at hidle
          by_cases hup : piece = ".."
          · subst hup
            rw [walk_up hdir, walk_up hdir']
            exact ihp
          · by_cases hlink : ∃ target, t.get? (here ++ [piece]) = some (.link target)
            · obtain ⟨target, htarget⟩ := hlink
              rw [walk_link hdir hidle hup htarget (Or.inr rfl),
                walk_link hdir' hidle hup (h.link_iff.mpr htarget) (Or.inr rfl)]
              exact ih
            · have hlink' : ∀ target, t.get? (here ++ [piece]) ≠ some (.link target) :=
                fun target htarget => hlink ⟨target, htarget⟩
              rw [walk_down hdir hidle hup hlink',
                walk_down hdir' hidle hup fun target htarget => hlink' target (h.link_iff.mp htarget)]
              exact ihp
      · have hblockage : blockage (u.get? here) = blockage (t.get? here) := by
          rw [blockage, blockage]
          exact ite_congr (propext h.none_iff) (fun _ => rfl) fun _ => rfl
        rw [walk_blocked hdir, walk_blocked fun hdir' => hdir (h.directory_iff.mp hdir'), hblockage]

/-- **An edit leads no path elsewhere.** -/
theorem locate : u.locate p true = t.locate p true := by
  rw [FileTree.locate, FileTree.locate, h.home, h.walk]

/-- What is a directory stays one. -/
theorem isDirectory : u.isDirectory p = t.isDirectory p := by
  rw [Bool.eq_iff_iff, isDirectory_iff, isDirectory_iff, h.locate]
  exact exists_congr fun loc => and_congr_right fun _ => h.directory_iff

/-- A path that leads elsewhere finds what it found. -/
theorem find?_of_ne (hp : t.locate p true ≠ .ok place) : u.find? p true = t.find? p true := by
  cases hloc : t.locate p true with
  | error e =>
    rw [FileTree.find?, FileTree.find?, h.locate, hloc]
    rfl
  | ok loc =>
    have hsame : u.get? loc = t.get? loc := h.get loc fun heq => hp (by rw [hloc, heq])
    have hloc' : u.locate p true = .ok loc := h.locate.trans hloc
    cases hentry : t.get? loc with
    | none => rw [find?_of_missing hloc hentry, find?_of_missing hloc' (hsame.trans hentry)]
    | some e => rw [find?_of_entry hloc hentry, find?_of_entry hloc' (hsame.trans hentry)]

/-- Only the paths that lead to the file read anything else. -/
theorem read_of_ne (hp : t.locate p true ≠ .ok place) : u.read p = t.read p := by
  rw [FileTree.read, FileTree.read, h.find?_of_ne hp]

/-- What the paths that lead to the file read. -/
theorem read_of_eq (hp : t.locate p true = .ok place) : t.read p = .ok old ∧ u.read p = .ok new := by
  obtain ⟨mode, hmode, hbefore⟩ := h.before
  obtain ⟨mode', hmode', hafter⟩ := h.after
  exact ⟨read_of_file hp hbefore hmode, read_of_file (h.locate.trans hp) hafter hmode'⟩

end Edited

end Wheelwright.FileTree
