/-
  Writing a state file, step by step.

  **Specification** — while a state file is being replaced, it is read as before until the last step, and that step
  makes it hold what was to be written: the trees that a write may stop short at (`Left`) have the old file
  (`Fits.left`), the tree behind the rename has the new one (`Fits.written`).

  **Program** — the directories above the file are made, the temporary file is written, and it is renamed.  `Fits` says
  what this needs of the place: the directory is there or is reached without leading up, and the temporary file's place
  is no link and is not seen through the state file's name.  Every step keeps it.

  **The crux** — only links can make the state file's way pass its own place or that of the temporary file.  If a link
  in the state file's place were on the way to its directory, it would lead to a directory, and the store would not have
  been opened (`Fits.rename`).
-/
import Wheelwright.Proofs.Store.Place
import Wheelwright.Proofs.Store.StateFile
import Wheelwright.Proofs.Text.Utf8

namespace Wheelwright.FingerprintStore

open FileTree Wheelwright.Path

variable {p : Path} {t u v : FileTree} {s : FingerprintStore} {loc here : Location} {name : String}
  {idles : List String} {content : Bytes} {mode : Mode} {executable : Bool}

/-! ## Opening

  What opening depends on: the content of the file, or that it is missing. -/

/-- A state file with the same content is opened as the same store. -/
theorem openFile_congr (h : u.read p = t.read p) : openFile p u = openFile p t := by
  rw [openFile, openFile, readText, readText, h]

/-- A state file that is missing is opened as an empty store. -/
theorem openFile_missing (h : t.read p = .error .notFound) : openFile p t = .ok { stateFile := some p } := by
  rw [openFile, readText, h]
  rfl

/-- A state file that holds a table is opened with its records. -/
theorem openFile_written {records : RecordTable} (hrecords : records.IsTable)
    (h : t.read p = .ok (Utf8.encode (encode records))) : openFile p t = .ok { stateFile := some p, records } := by
  have htext : t.readText p = .ok (encode records) := by
    rw [readText, h]
    dsimp only [bind, Except.bind]
    rw [Utf8.decode?_encode]
  rw [openFile, htext]
  dsimp only
  rw [decode_encode hrecords]

/-- A store is not opened on what can neither be read nor is missing. -/
theorem not_openFile {e : OsError} (h : t.read p = .error e) (hne : e ≠ .notFound) : openFile p t ≠ .ok s := by
  have htext : t.readText p = .error e := by
    rw [readText, h]
    rfl
  rw [openFile, htext]
  cases e with
  | notFound => exact absurd rfl hne
  | _ => nofun

/-- A state file that can be opened has a path that can be walked. -/
theorem spellable_of_openFile (h : openFile p t = .ok s) (htext : p.text ≠ "") : Spellable p := by
  refine ⟨htext, ?_⟩
  cases hnul : p.text.toList.contains (Char.ofNat 0) with
  | false => rfl
  | true =>
    have hread : t.read p = .error .nulInPath := read_of_error (by rw [locate, if_neg htext, if_pos hnul])
    exact absurd h (not_openFile hread fun heq => by cases heq)

/-! ## Places for state files

  What a place has to be like for all the steps below.  It is weak enough for every place at which no links play
  tricks. -/

/-- The place is fit for a state file: it lies in a tree; its directory is there, or the path never leads up; and the
    place of the temporary file is taken by a directory, or is no link and not on the way of the state file. -/
structure Fits (p : Path) (t : FileTree) : Prop where
  /-- Every entry lies in a directory. -/
  tree : t.IsTree
  /-- The directory of the file is there, or its path does not go up. -/
  directory : t.isDirectory (p.parent?.getD ⟨""⟩) = true ∨ Component.parent ∉ p.components
  /-- The temporary file is no link, and it is not in the way of the state file. -/
  temporary : ∀ loc, t.locate (temporaryFile p) false = .ok loc →
    t.get? loc = some .directory ∨ (∀ target, t.get? loc ≠ some (.link target)) ∧ loc ∉ t.way p

/-- The temporary file of a path without a file name has no place but a directory. -/
theorem directory_of_locate_temporary {follow : Bool} (htree : t.IsTree) (hname : p.fileName? = none)
    (hloc : t.locate (temporaryFile p) follow = .ok loc) : t.get? loc = some .directory := by
  rw [temporaryFile, withExtension, hname] at hloc
  exact directory_of_no_name htree hname hloc

/-- Neither the state file nor the temporary file is a link. -/
theorem fits_of_not_link (htree : t.IsTree)
    (hdirectory : t.isDirectory (p.parent?.getD ⟨""⟩) = true ∨ Component.parent ∉ p.components)
    (hlink : ∀ here name, t.LiesIn p here → p.fileName? = some name →
      (∀ target, t.get? (here ++ [name]) ≠ some (.link target)) ∧
        ∀ target, t.get? (here ++ [temporaryName name]) ≠ some (.link target)) : Fits p t := by
  refine ⟨htree, hdirectory, fun loc hloc => or_iff_not_imp_left.mpr fun hplace => ?_⟩
  cases hname : p.fileName? with
  | none => exact absurd (directory_of_locate_temporary htree hname hloc) hplace
  | some name =>
    obtain ⟨idles, hnames⟩ := names_of_fileName? hname
    obtain ⟨here, hdir, rfl⟩ := hnames.eq_of_locate_temporary hloc
    obtain ⟨hfile, htemporary⟩ := hlink here name hdir hname
    exact ⟨htemporary, hnames.notMem_way hdir hfile hplace htemporary⟩

/-- A file whose parent is a directory lies in it. -/
theorem exists_liesIn_of_isDirectory (h : t.isDirectory (p.parent?.getD ⟨""⟩) = true) : ∃ here, t.LiesIn p here := by
  obtain ⟨hspell, m, loc, hreach⟩ := reaches_of_isDirectory h
  obtain ⟨fewer, more, idles, houter, hne, hpieces, hmore, -⟩ := exists_of_parent hspell.text
  rw [hpieces] at hreach
  obtain ⟨k, here, hfewer, -⟩ := hreach.of_append
  refine ⟨here, k, ?_⟩
  rw [startOf_append (Or.inl hne)] at hfewer
  rw [houter, startOf_append (Or.inl hne)]
  exact hfewer.append_idles hmore

/-- The directory that a file lies in is a directory by its own path. -/
theorem isDirectory_of_liesIn (hspell : Spellable (p.parent?.getD ⟨""⟩)) (h : t.LiesIn p here) :
    t.isDirectory (p.parent?.getD ⟨""⟩) = true :=
  isDirectory_iff.mpr ⟨here, h.locate_parent hspell, h.directory⟩

/-- **Making a directory leaves the state file as it is**: there is none yet. -/
theorem Fits.makes (hfits : Fits p t) (hopen : openFile p t = .ok s) (h : Makes p t u) :
    Fits p u ∧ openFile p u = .ok s := by
  have hup : Component.parent ∉ p.components := hfits.directory.resolve_left fun hdir =>
    h.not_liesIn (exists_liesIn_of_isDirectory hdir).choose_spec
  have houter : ".." ∉ p.outerPieces := fun hmem => hup (parent_mem_components hmem)
  have hpiece : ∃ piece ∈ p.outerPieces, isIdlePiece piece = false := by
    obtain ⟨hpieces, -, hidle, -, -⟩ := h
    exact ⟨_, by rw [hpieces]; exact List.mem_append_right _ List.mem_cons_self, hidle⟩
  obtain ⟨name, hname⟩ := exists_fileName? hup hpiece
  obtain ⟨idles, hnames⟩ := names_of_fileName? hname
  have hspell := spellable_of_openFile hopen hnames.text
  have hread : u.read p = t.read p := by
    have hlast : ".." ∉ name :: idles := by
      rw [List.mem_cons, not_or]
      exact ⟨hnames.name_up.symm, fun hmem => by cases hnames.idles_idle _ hmem⟩
    obtain ⟨ht, hu⟩ := h.walk_missing hfits.tree houter hlast ⟨name, List.mem_cons_self, hnames.name_idle⟩ true
    rw [← hnames.locate hspell] at ht hu
    rw [read_of_error ht]
    rcases hu with hu | ⟨loc, hloc, hmissing⟩
    · exact read_of_error hu
    · exact read_of_missing hloc hmissing
  -- behind the new directory nothing has a name yet
  have hmissing {here : Location} {last : String} (hdir : u.LiesIn p here) (hidle : isIdlePiece last = false)
      (hne : last ≠ "..") : u.get? (here ++ [last]) = none := by
    obtain ⟨m, hreach⟩ := hdir
    have hwalk : walk u false (linkLimit + 1) (u.startOf p.outerPieces) (p.outerPieces ++ [last]) =
        .ok (here ++ [last]) := by
      rw [hreach.walk_eq (Or.inl (List.cons_ne_nil _ _)), walk_last hreach.last hidle hne]
    rcases (h.walk_missing hfits.tree houter (fun hmem => hne (List.mem_singleton.mp hmem).symm)
      ⟨last, List.mem_cons_self, hidle⟩ false).2 with hu | ⟨loc, hloc, hmissing⟩
    · rw [hwalk] at hu
      cases hu
    · rw [hwalk] at hloc
      cases hloc
      exact hmissing
  refine ⟨fits_of_not_link (h.isTree hfits.tree) (Or.inr hup) fun here name' hdir hname' => ?_,
    (openFile_congr hread).trans hopen⟩
  cases hname.symm.trans hname'
  refine ⟨fun target => ?_, fun target => ?_⟩
  · rw [hmissing hdir hnames.name_idle hnames.name_up]
    nofun
  · rw [hmissing hdir (isIdlePiece_temporaryName name) (temporaryName_ne_of_short (by decide))]
    nofun

/-- Making any number of directories keeps the place and the store. -/
theorem Fits.made (hfits : Fits p t) (hopen : openFile p t = .ok s) (h : Relation.ReflTransGen (Makes p) t u) :
    Fits p u ∧ openFile p u = .ok s := by
  induction h with
  | refl => exact ⟨hfits, hopen⟩
  | tail _ hmakes ih => exact ih.1.makes ih.2 hmakes

/-! ## The temporary file

  The temporary file lies beside the state file and is not seen on its way. -/

/-- A new file can be read. -/
theorem ofNew_readable (executable : Bool) : Mode.ofNew executable ≠ .unreadable := by
  cases executable <;> decide

/-- A file is written where its path leads, and not in the place of a directory.  What has been written can be read. -/
theorem exists_of_write {q : Path} (h : t.write q content executable = .ok u) : ∃ loc mode,
    t.locate q true = .ok loc ∧ t.get? loc ≠ some .directory ∧ mode ≠ .unreadable ∧
      u = t.put loc (.file content mode) := by
  rw [FileTree.write] at h
  cases hloc : t.locate q true with
  | error e =>
    rw [hloc] at h
    cases h
  | ok loc =>
    rw [hloc] at h
    dsimp only [bind, Except.bind] at h
    -- a file that was there keeps its mode, which is one that can be written to
    split at h
    · cases h
    · cases h
    · rename_i mode hmode hfile
      cases h
      refine ⟨loc, _, rfl, by rw [hfile]; nofun, ?_, rfl⟩
      split
      · decide
      · rintro rfl
        exact hmode rfl
    · rename_i hdir _ _
      cases h
      exact ⟨loc, _, rfl, hdir, ofNew_readable executable, rfl⟩

/-- What is written to is not a directory, so the path has a file name. -/
theorem exists_fileName?_of_write (htree : t.IsTree) (h : t.write (temporaryFile p) content executable = .ok u) :
    ∃ name, p.fileName? = some name := by
  obtain ⟨loc, -, hloc, hdir, -⟩ := exists_of_write h
  cases hname : p.fileName? with
  | some name => exact ⟨name, rfl⟩
  | none => exact absurd (directory_of_locate_temporary htree hname hloc) hdir

/-- **Writing the temporary file leaves the state file as it is.** -/
theorem Fits.write (hfits : Fits p t) (hopen : openFile p t = .ok s)
    (h : t.write (temporaryFile p) content executable = .ok u) :
    Fits p u ∧ openFile p u = .ok s ∧ ∃ name here mode, p.fileName? = some name ∧ u.LiesIn p here ∧
      mode ≠ .unreadable ∧ u.get? (here ++ [temporaryName name]) = some (.file content mode) := by
  obtain ⟨name, hname⟩ := exists_fileName?_of_write hfits.tree h
  obtain ⟨idles, hnames⟩ := names_of_fileName? hname
  obtain ⟨loc, mode', hloc, hplace, hmode, hu⟩ := exists_of_write h
  obtain ⟨here, m, hreach, hwalk⟩ := hnames.exists_liesIn_temporary hloc
  have hidle := isIdlePiece_temporaryName name
  have hup : temporaryName name ≠ ".." := temporaryName_ne_of_short (by decide)
  -- the path leads to the temporary file's own place, where there is no link
  have hunfollowed : t.locate (temporaryFile p) false = .ok (here ++ [temporaryName name]) := by
    have hlocate := hnames.locate_temporary (spellable_of_locate hloc) t false
    rw [hreach.walk_eq (Or.inl (List.cons_ne_nil _ _)), walk_last hreach.last hidle hup] at hlocate
    exact hlocate
  have hlink : ∀ target, t.get? (here ++ [temporaryName name]) ≠ some (.link target) := by
    rcases hfits.temporary _ hunfollowed with hdir | ⟨hlink, -⟩
    · intro target
      rw [hdir]
      nofun
    · exact hlink
  rw [walk_down hreach.last hidle hup hlink] at hwalk
  cases hwalk
  have hway : here ++ [temporaryName name] ∉ t.way p :=
    ((hfits.temporary _ hunfollowed).resolve_left hplace).2
  -- all that the write changes is the temporary file's place
  have hhome : u.home = t.home := by rw [hu]; rfl
  have hwritten : u.get? (here ++ [temporaryName name]) = some (.file content mode') := by
    rw [hu, get?_put _ _ _ (List.append_ne_nil_of_right_ne_nil _ (List.cons_ne_nil _ _))]
  have hothers {loc : Location} (hne : loc ≠ here ++ [temporaryName name]) : u.get? loc = t.get? loc := by
    rw [hu, get?_put_of_ne hne]
  have hdirs : ∀ loc, t.get? loc = some .directory → u.get? loc = some .directory := fun loc hentry =>
    (hothers fun heq => hplace (heq ▸ hentry)).trans hentry
  have hlinks : ∀ loc target, t.get? loc = some (.link target) → u.get? loc = some (.link target) :=
    fun loc target hentry => (hothers fun heq => hlink target (heq ▸ hentry)).trans hentry
  have hseen : ∀ loc ∈ t.way p, u.get? loc = t.get? loc := fun loc hloc => hothers fun heq => hway (heq ▸ hloc)
  have hlies : u.LiesIn p here := LiesIn.keeps ⟨m, hreach⟩ hhome hdirs hlinks
  refine ⟨⟨?_, hfits.directory.imp_left (isDirectory_of_keeps hhome hdirs hlinks), fun loc hloc => Or.inr ?_⟩,
    (openFile_congr (read_congr hhome hseen)).trans hopen, name, here, mode', hname, hlies, hmode, hwritten⟩
  · rw [hu]
    exact hfits.tree.put hreach.last hplace
  · obtain ⟨here', hlies', rfl⟩ := hnames.eq_of_locate_temporary hloc
    rw [hlies.unique hlies', way_congr hhome hseen, hwritten]
    exact ⟨nofun, hway⟩

/-! ## The rename

  The rename is the step after which the file has its new content.  The state file's way is the same before and after,
  since a link in its place would have kept the store from being opened. -/

/-- A file is renamed to a place that is not a directory; only directories are named with a slash at the end. -/
theorem exists_of_rename {q : Path} (h : t.rename q p = .ok u)
    (hfile : t.find? (withoutEndSlashes q) false = .ok (loc, .file content mode)) :
    ∃ goal, t.locate (withoutEndSlashes p) false = .ok goal ∧ endsInSlash p = false ∧
      (loc = goal ∨ t.get? goal ≠ some .directory ∧ u = t.move loc goal) := by
  rw [FileTree.rename, hfile] at h
  -- the place of the new name is a directory, or else the file is moved there
  cases hgoal : t.locate (withoutEndSlashes p) false with
  | error e =>
    rw [hgoal] at h
    cases h
  | ok goal =>
    rw [hgoal] at h
    dsimp only [bind, Except.bind, pure, Except.pure, throw, throwThe, MonadExceptOf.throw] at h
    split at h
    · cases h
    · rename_i hslashes
      have hslash : endsInSlash p = false := by
        cases hslash : endsInSlash p with
        | false => rfl
        | true => exact absurd (by rw [hslash, Bool.or_true]; rfl) hslashes
      refine ⟨goal, rfl, hslash, ?_⟩
      split at h
      · rename_i heq
        exact Or.inl heq
      · split at h
        · cases h
        · split at h
          · cases h
          · rename_i e hdir hentry
            cases h
            exact Or.inr ⟨fun heq => hdir (Option.some.inj (hentry.symm.trans heq)), rfl⟩
          · rename_i hentry
            cases h
            exact Or.inr ⟨by rw [hentry]; nofun, rfl⟩

/-- The name of a file that is not a directory ends its path. -/
theorem eq_of_locate (hnames : Names p name idles) (hdir : t.LiesIn p here) (hloc : t.locate p false = .ok loc)
    (hentry : t.get? loc ≠ some .directory) : idles = [] ∧ loc = here ++ [name] := by
  obtain ⟨m, hreach⟩ := hdir
  -- with an idle piece at its end the path could only lead to a directory
  rw [hnames.locate (spellable_of_locate hloc)] at hloc
  obtain hnil | ⟨before, last, hconcat⟩ := List.eq_nil_or_concat idles
  · subst hnil
    rw [hreach.walk_eq (Or.inl (List.cons_ne_nil _ _)), walk_last hreach.last hnames.name_idle hnames.name_up] at hloc
    cases hloc
    exact ⟨rfl, rfl⟩
  · rw [List.concat_eq_append] at hconcat
    subst hconcat
    rw [← List.cons_append, ← List.append_assoc] at hloc
    obtain ⟨k, m, middle, -, hmiddle, hwalk⟩ := exists_reaches (Or.inl (List.cons_ne_nil last [])) hloc
    rw [walk_idle hmiddle.last (hnames.idles_idle last (List.mem_append_right _ List.mem_cons_self))] at hwalk
    cases hwalk
    exact absurd hmiddle.last hentry

/-- A link in the place of an opened state file is not on the way to its directory: it would lead to a directory. -/
theorem reaches_of_openFile {m : Nat} (hopen : openFile p t = .ok s) (hnames : Names p name [])
    (hreach : t.Reaches linkLimit (t.startOf p.outerPieces) p.outerPieces m here)
    (hdirs : ∀ loc, t.get? loc = some .directory → u.get? loc = some .directory)
    (hlinks : ∀ loc target, loc ≠ here ++ [name] → t.get? loc = some (.link target) →
      u.get? loc = some (.link target)) :
    u.Reaches linkLimit (t.startOf p.outerPieces) p.outerPieces m here := by
  -- a link in place of the state file is about to be replaced, so no directory may lie behind it
  by_cases hlink : ∃ target, t.get? (here ++ [name]) = some (.link target)
  · obtain ⟨target, htarget⟩ := hlink
    refine (hreach.keeps_or_passes hdirs hlinks htarget).resolve_right fun ⟨k, rest, hle, hpasses⟩ => ?_
    obtain ⟨k', middle, hmiddle, -⟩ := hpasses.of_append
    have hspell := spellable_of_openFile hopen hnames.text
    have hlocate := hnames.locate hspell t true
    rw [hreach.walk_eq (Or.inr rfl),
      walk_link hreach.last hnames.name_idle hnames.name_up htarget (Or.inr rfl)] at hlocate
    have hwalk : walk t true (k + 1) (linkStart here target) (piecesOf '/' target ++ []) = .ok middle :=
      hmiddle.walk_eq (Or.inr rfl)
    rcases walk_fewer (Nat.le_succ_of_le hle) with hmany | hfewer
    · rw [hmany] at hlocate
      exact not_openFile (read_of_error hlocate) nofun hopen
    · rw [hfewer, hwalk] at hlocate
      exact not_openFile (read_of_directory hlocate hmiddle.last) nofun hopen
  · exact hreach.keeps hdirs fun loc target hentry => hlinks loc target (fun heq => hlink ⟨target, heq ▸ hentry⟩) hentry

/-- A rename that succeeds moves the temporary file to the place of the state file, where no directory was. -/
theorem moved_of_rename (hname : p.fileName? = some name) (hdir : t.LiesIn p here)
    (hfile : t.get? (here ++ [temporaryName name]) = some (.file content mode))
    (h : t.rename (temporaryFile p) p = .ok u) :
    Names p name [] ∧ Spellable p ∧ t.get? (here ++ [name]) ≠ some .directory ∧
      u = t.move (here ++ [temporaryName name]) (here ++ [name]) := by
  obtain ⟨idles, hnames⟩ := names_of_fileName? hname
  have hslash : endsInSlash (temporaryFile p) = false := by
    refine endsInSlash_of_last fun hlast => ?_
    rw [temporaryFile, hnames.temporary, List.getLast?_concat] at hlast
    exact temporaryName_ne_of_short (by decide) (Option.some.inj hlast)
  cases hloc : t.locate (temporaryFile p) false with
  -- the temporary file is where it was written, and the rename goes to the name beside it
  | error e =>
    rw [FileTree.rename, withoutEndSlashes_of_not hslash, find?, hloc] at h
    cases h
  | ok loc =>
    obtain ⟨here', hdir', rfl⟩ := hnames.eq_of_locate_temporary hloc
    cases hdir.unique hdir'
    obtain ⟨goal, hgoal, hslash', hcases⟩ := exists_of_rename h
      (by rw [withoutEndSlashes_of_not hslash]; exact find?_of_entry hloc hfile)
    rw [withoutEndSlashes_of_not hslash'] at hgoal
    have hentry : t.get? goal ≠ some .directory := by
      rcases hcases with rfl | ⟨hentry, -⟩
      · rw [hfile]
        exact fun heq => by cases heq
      · exact hentry
    obtain ⟨rfl, rfl⟩ := eq_of_locate hnames hdir hgoal hentry
    have hmoved := hcases.resolve_left fun heq =>
      temporaryName_ne name (List.singleton_inj.mp (List.append_cancel_left heq))
    exact ⟨hnames, spellable_of_locate hgoal, hentry, hmoved.2⟩

/-- **The rename makes the state file hold what the temporary file held.** -/
theorem Fits.rename (hfits : Fits p t) (hopen : openFile p t = .ok s) (hname : p.fileName? = some name)
    (hdir : t.LiesIn p here) (hmode : mode ≠ .unreadable)
    (hfile : t.get? (here ++ [temporaryName name]) = some (.file content mode))
    (h : t.rename (temporaryFile p) p = .ok u) : Fits p u ∧ u.read p = .ok content := by
  obtain ⟨hnames, hspell, hentry, hmoved⟩ := moved_of_rename hname hdir hfile h
  have hne := temporaryName_ne name
  -- the temporary file has the state file's name, and nothing else has changed
  have hget (place : Location) : u.get? place = if place = here ++ [name] then some (.file content mode)
      else if place = here ++ [temporaryName name] then none else t.get? place := by
    rw [hmoved, get?_renamed hfits.tree hfile hentry hne]
  have hwritten : u.get? (here ++ [name]) = some (.file content mode) := by rw [hget, if_pos rfl]
  have htemporary : u.get? (here ++ [temporaryName name]) = none := by
    rw [hget, if_neg fun heq => hne (List.singleton_inj.mp (List.append_cancel_left heq)), if_pos rfl]
  have hothers {place : Location} (hplace : place ≠ here ++ [name]) (hplace' : place ≠ here ++ [temporaryName name]) :
      u.get? place = t.get? place := by
    rw [hget, if_neg hplace, if_neg hplace']
  have hdirs : ∀ loc, t.get? loc = some .directory → u.get? loc = some .directory := fun loc hdir =>
    (hothers (fun heq => hentry (heq ▸ hdir)) fun heq => by rw [heq, hfile] at hdir; cases hdir).trans hdir
  have hlinks : ∀ loc target, loc ≠ here ++ [name] → t.get? loc = some (.link target) →
      u.get? loc = some (.link target) := fun loc target hplace hlink =>
    (hothers hplace fun heq => by rw [heq, hfile] at hlink; cases hlink).trans hlink
  obtain ⟨m, hreach⟩ := hdir
  have hreach' : u.Reaches linkLimit (u.startOf p.outerPieces) p.outerPieces m here := by
    rw [startOf, show u.home = t.home by rw [hmoved]; rfl]
    exact reaches_of_openFile hopen hnames hreach hdirs hlinks
  have hlies : u.LiesIn p here := ⟨m, hreach'⟩
  have hlocate : u.locate p true = .ok (here ++ [name]) := by
    rw [hnames.locate hspell, hreach'.walk_eq (Or.inr rfl),
      walk_down hreach'.last hnames.name_idle hnames.name_up fun target htarget => by rw [hwritten] at htarget; cases htarget]
    rfl
  have htree : u.IsTree := by
    rw [hmoved]
    exact hfits.tree.renamed hfile hentry hne
  have hparent : u.isDirectory (p.parent?.getD ⟨""⟩) = true ∨ Component.parent ∉ p.components :=
    hfits.directory.imp_left fun hparent => isDirectory_of_liesIn (reaches_of_isDirectory hparent).1 hlies
  refine ⟨fits_of_not_link htree hparent fun here' name' hlies' hname' => ?_, read_of_file hlocate hwritten hmode⟩
  cases hlies.unique hlies'
  cases hname.symm.trans hname'
  refine ⟨fun target htarget => ?_, fun target htarget => ?_⟩
  · rw [hwritten] at htarget
    cases htarget
  · rw [htemporary] at htarget
    cases htarget

/-! ## All steps

  The steps in a row.  Wherever they stop, the tree is one that was left by a write that has not come to its end, or
  by one that has. -/

/-- The directory of a state file, the directory that it lies in, and so on. -/
def outerDirectories (p : Path) : List Path :=
  ancestors ((p.parent?.getD ⟨""⟩).components.length + 1) (p.parent?.getD ⟨""⟩)

/-- A tree that writing a state file may leave when it does not come to its end: the directories have been made but for
    the inmost, be it that one of these could not be made, or all of them have been made and the temporary file holds
    whatever was written of it. -/
inductive Left (p : Path) (t : FileTree) : FileTree → Prop
  /-- Some directories were made, from the outermost on. -/
  | directories {u : FileTree} {e : Option OsError} (missing : Nat)
      (h : t.makeWithin ((outerDirectories p).drop missing) = (u, e)) : Left p t u
  /-- All of them were made, and the temporary file has some content. -/
  | temporary {u v : FileTree} (content : Bytes) (hdirs : t.makeWithin (outerDirectories p) = (v, none))
      (h : v.write (temporaryFile p) content false = .ok u) : Left p t u

/-- Making directories on the way keeps the place and the store. -/
theorem Fits.directories {qs : List Path} {e : Option OsError} (hfits : Fits p t) (hopen : openFile p t = .ok s)
    (hqs : qs ⊆ outerDirectories p) (h : t.makeWithin qs = (u, e)) : Fits p u ∧ openFile p u = .ok s :=
  hfits.made hopen (made_of_makeWithin hfits.tree (fun _ hq => along_of_mem_ancestors (hqs hq)) h)

/-- **A write that does not come to its end leaves the state file as it was.** -/
theorem Fits.left (hfits : Fits p t) (hopen : openFile p t = .ok s) (h : Left p t u) :
    Fits p u ∧ openFile p u = .ok s := by
  cases h with
  | directories missing h => exact hfits.directories hopen (List.drop_subset missing _) h
  | temporary content hdirs h =>
    obtain ⟨hfits', hopen'⟩ := hfits.directories hopen (List.Subset.refl _) hdirs
    obtain ⟨hfits'', hopen'', -⟩ := hfits'.write hopen' h
    exact ⟨hfits'', hopen''⟩

/-- How far the steps of a write come. -/
theorem takeSteps_cases (p : Path) (records : RecordTable) (t : FileTree) :
    (∃ u e, t.takeSteps (writeSteps p records) = (u, some e) ∧ Left p t u) ∨
      ∃ u v w, t.takeSteps (writeSteps p records) = (w, none) ∧ t.makeWithin (outerDirectories p) = (u, none) ∧
        u.write (temporaryFile p) (Utf8.encode (encode records)) false = .ok v ∧
        v.rename (temporaryFile p) p = .ok w := by
  have hdirs : t.makeAll (p.parent?.getD ⟨""⟩) = t.makeWithin (outerDirectories p) := rfl
  rw [writeSteps, takeSteps, hdirs]
  rcases hu : t.makeWithin (outerDirectories p) with ⟨u, _ | e⟩
  · dsimp only
    rw [takeSteps, attempt]
    cases hv : u.write (temporaryFile p) (Utf8.encode (encode records)) false with
    | error e => exact Or.inl ⟨u, e, rfl, .directories 0 hu⟩
    | ok v =>
      dsimp only
      rw [takeSteps, attempt]
      cases hw : v.rename (temporaryFile p) p with
      | error e => exact Or.inl ⟨v, e, rfl, .temporary _ hu hv⟩
      | ok w => exact Or.inr ⟨u, v, w, rfl, rfl, hv, hw⟩
  · exact Or.inl ⟨u, e, rfl, .directories 0 hu⟩

/-- **A write that comes to its end leaves the state file with its records.** -/
theorem Fits.written {records : RecordTable} (hfits : Fits p t) (hopen : openFile p t = .ok s)
    (hrecords : records.IsTable) (h : t.takeSteps (writeSteps p records) = (u, none)) :
    Fits p u ∧ openFile p u = .ok { stateFile := some p, records } := by
  obtain ⟨_, _, heq, -⟩ | ⟨u', v, w, heq, hdirs, hwrite, hrename⟩ := takeSteps_cases p records t
  · rw [h] at heq
    cases heq
  · rw [h] at heq
    cases heq
    obtain ⟨hfits', hopen'⟩ := hfits.directories hopen (List.Subset.refl _) hdirs
    obtain ⟨hfits'', hopen'', name, here, mode, hname, hdir, hmode, hfile⟩ := hfits'.write hopen' hwrite
    obtain ⟨hfinal, hread⟩ := hfits''.rename hopen'' hname hdir hmode hfile hrename
    exact ⟨hfinal, openFile_written hrecords hread⟩

end Wheelwright.FingerprintStore
