/-
  Edits of source files — a new content of a file that counts is seen.

  **Specification** — if the content of a visible source file changes, and nothing else, then the stream of the inputs
  changes (`exists_stream_ne_of_edited`).  The contents may be any bytes, the file may be the configuration itself, and
  other files may be links to it.  Only where the file is asked for ignore rules, the contents and names must be such
  that the stream can be read back.

  **The crux** — an edit leads no path elsewhere, so it leaves all ignore rules and all paths of source files what they
  were: the source files after it are those before it, one of them `edited` (`files_edited`).
-/
import Mathlib.Data.List.Nodup
import Wheelwright.Proofs.FileTree.Edits
import Wheelwright.Proofs.Staleness.Framing
import Wheelwright.Proofs.Staleness.Outside

namespace Wheelwright

open Wheelwright.FileTree DirectoryRules

variable {t u : FileTree} {top place : Location} {names : List String} {old new : Bytes} {files : List SourceFile}

/-! ## One file among others

  A list of files in which one has a new content.  The names and the order are those of before, so the streams can be
  compared file by file. -/

namespace SourceFile

variable {path : Path} {s : SourceFile} {config config' : Bytes}

/-- The source file after the content of the file at `path` has become `new`. -/
def edited (path : Path) (new : Bytes) (f : SourceFile) : SourceFile :=
  if f.path = path then { f with content := some new } else f

/-- An edited file stays where it is. -/
theorem path_edited (path : Path) (new : Bytes) (f : SourceFile) : (edited path new f).path = f.path := by
  rw [edited]
  split <;> rfl

/-- An edited file keeps its name. -/
theorem relative_edited (path : Path) (new : Bytes) (f : SourceFile) : (edited path new f).relative = f.relative := by
  rw [edited]
  split <;> rfl

/-- Files stand in the order in which they stood. -/
theorem le_edited (path : Path) (new : Bytes) (a b : SourceFile) :
    le (edited path new a) (edited path new b) = le a b := by
  rw [le, le, relative_edited, relative_edited, path_edited, path_edited]

/-- **An edit changes the stream of files**, and with the configuration too if that is edited as well. -/
theorem inputStream_edited_ne (hpaths : (files.map SourceFile.path).Nodup) (hs : s ∈ files)
    (hold : s.content = some old) (hne : new ≠ old) (hconfig : config' = config ∨ config = old ∧ config' = new) :
    inputStream config' (files.map (edited s.path new)) ≠ inputStream config files := by
  obtain ⟨before, after, rfl⟩ := List.append_of_mem hs
  rw [List.map_append, List.map_cons, List.nodup_middle, ← List.map_append, List.nodup_cons] at hpaths
  have hkept (f : SourceFile) (hf : f ∈ before ++ after) : edited s.path new f = f :=
    if_neg fun heq => hpaths.1 (List.mem_map.mpr ⟨f, hf, heq⟩)
  have hbefore : before.map (edited s.path new) = before :=
    (List.map_congr_left fun f hf => hkept f (List.mem_append_left _ hf)).trans (List.map_id _)
  have hafter : after.map (edited s.path new) = after :=
    (List.map_congr_left fun f hf => hkept f (List.mem_append_right _ hf)).trans (List.map_id _)
  have hedited : (edited s.path new s).stream =
      (0 :: Utf8.encode "file" ++ [0]) ++ Utf8.encode s.relative ++ 0 :: new := by
    rw [edited, if_pos rfl]
    rfl
  have hplain : s.stream = (0 :: Utf8.encode "file" ++ [0]) ++ Utf8.encode s.relative ++ 0 :: old := by
    rw [stream, hold]
    rfl
  rw [inputStream, inputStream, List.map_append, List.map_cons, hbefore, hafter, List.flatMap_append, List.flatMap_cons,
    List.flatMap_append, List.flatMap_cons, hedited, hplain]
  intro heq
  -- the configuration is the same, or it is the edited file itself
  rcases hconfig with rfl | ⟨rfl, rfl⟩
  · have hcontent := List.append_cancel_right (List.append_cancel_left (List.append_cancel_left heq))
    exact hne (List.cons.inj (List.append_cancel_left hcontent)).2
  · -- the new content stands twice for the old one, so they are as long
    have hlength := congrArg List.length heq
    simp only [List.length_append, List.length_cons] at hlength
    simp only [List.append_assoc, List.cons_append] at heq
    exact hne (List.append_inj (List.cons.inj (List.append_cancel_left heq)).2 (by omega)).1

end SourceFile

open SourceFile (edited)

namespace StalenessInputs

variable {i : StalenessInputs} {globs : IgnoreFile} {config : Bytes}

/-! ## The source files of an edited tree

  The edited file is not asked for rules, so the same entries count.  The one thing that changes is the content of
  those source files that lead to the edited one. -/

section Edit

variable (ht : t.Listed) (hedited : Edited (top ++ names) old new t u) (hglobs : i.overrides = .ok globs)
  (htop : t.locate i.sourceRoot true = .ok top) (hasked : ∀ p, i.Asks t p → t.locate p true ≠ .ok (top ++ names))

include hedited hglobs htop hasked

/-- The same is left out: the user's ignore file is another file. -/
theorem exclusions_edited : i.exclusions u globs = i.exclusions t globs := by
  rw [exclusions, exclusions, UserRules.ofTree_congr hedited.user hedited.home fun p hp =>
    hedited.find?_of_ne (hasked p (.user hglobs htop hp))]

include ht

/-- What counted still counts: no path that is asked leads to the file. -/
theorem admitsAll_edited {others : List String} {e : Entry} (he : t.get? (top ++ others) = some e) :
    (i.exclusions t globs).admitsAll u [] i.sourceRoot top others =
      (i.exclusions t globs).admitsAll t [] i.sourceRoot top others :=
  Exclusions.admitsAll_congr (ht.tree.directoriesTo he) (fun _ _ => hedited.directory_iff) fun _ _ hdir hbefore =>
    ofDirectory_congr fun p hp => hedited.find?_of_ne (hasked p (.rules hglobs htop hdir hbefore hp))

/-- **What an edit makes of the entry of a source file**: the file itself with the new content, any other as it was. -/
theorem sourceFile_edited {loc : Location} {e e' : Entry} (he : t.get? loc = some e) (he' : u.get? loc = some e') :
    (i.exclusions t globs).sourceFile? u i.sourceRoot top (loc, e') =
      ((i.exclusions t globs).sourceFile? t i.sourceRoot top (loc, e)).map
        (edited (names.foldl Path.child i.sourceRoot) new) := by
  -- links and directories are no source files, so what matters is a file
  cases e with
  | link target =>
    obtain rfl : .link target = e' := Option.some.inj ((hedited.link_iff.mpr he).symm.trans he')
    rfl
  | directory =>
    obtain rfl : .directory = e' := Option.some.inj ((hedited.directory_iff.mpr he).symm.trans he')
    rfl
  | file content mode =>
    obtain ⟨content', mode', hfile⟩ := hedited.exists_file he
    obtain rfl : .file content' mode' = e' := Option.some.inj (hfile.symm.trans he')
    rw [Exclusions.sourceFile?, Exclusions.sourceFile?]
    dsimp only
    by_cases hprefix : top <+: loc
    · obtain ⟨others, rfl⟩ := hprefix
      have hloc := ht.locate_file he htop
      rw [List.drop_left, admitsAll_edited ht hedited hglobs htop hasked he]
      split
      · refine congrArg some ?_
        rw [edited]
        dsimp only
        -- the edited file has its new content, any other the one that it had
        by_cases hsame : others = names
        · rw [hsame, if_pos rfl, (hedited.read_of_eq (hsame ▸ hloc)).2]
          rfl
        · have hpath : others.foldl Path.child i.sourceRoot ≠ names.foldl Path.child i.sourceRoot := fun heq => by
            obtain ⟨mode, -, hbefore⟩ := hedited.before
            exact hsame (Path.foldl_child_inj (fun name hname => ht.entryName he name (List.mem_append_right _ hname))
              (fun name hname => ht.entryName hbefore name (List.mem_append_right _ hname)) (by rw [heq]))
          have hother : t.locate (others.foldl Path.child i.sourceRoot) true ≠ .ok (top ++ names) := fun heq =>
            hsame (List.append_cancel_left (Except.ok.inj (hloc.symm.trans heq)))
          rw [if_neg hpath, hedited.read_of_ne hother]
      · rfl
    · have hapart : top.isPrefixOf loc = false := by
        rw [← Bool.not_eq_true, List.isPrefixOf_iff_prefix]
        exact hprefix
      rw [hapart, Bool.false_and, Bool.false_and, if_neg Bool.false_ne_true, if_neg Bool.false_ne_true]
      rfl

/-- The same entries are source files, in some order. -/
theorem sourceFiles_perm_edited (hu : u.Listed) :
    (u.entries.filterMap ((i.exclusions t globs).sourceFile? u i.sourceRoot top)).Perm
      ((t.entries.filterMap ((i.exclusions t globs).sourceFile? t i.sourceRoot top)).map
        (edited (names.foldl Path.child i.sourceRoot) new)) := by
  -- neither side lists a file twice, so that they have the same members will do
  have hnodup : ((t.entries.filterMap ((i.exclusions t globs).sourceFile? t i.sourceRoot top)).map
      (edited (names.foldl Path.child i.sourceRoot) new)).Nodup := by
    refine List.Nodup.map_on (fun a ha b hb heq => sourceFile_inj ht ha hb ?_) (sourceFiles_nodup ht _ _ _)
    rw [← SourceFile.path_edited _ _ a, heq, SourceFile.path_edited]
  refine (List.perm_ext_iff_of_nodup (sourceFiles_nodup hu _ _ _) hnodup).mpr fun s => ?_
  rw [List.mem_filterMap, List.mem_map]
  constructor
  · rintro ⟨⟨loc, e'⟩, hmem, hs⟩
    have he' := hu.get?_of_mem hmem
    obtain ⟨e, he⟩ := Option.ne_none_iff_exists'.mp fun hnone => by
      rw [hedited.none_iff.mpr hnone] at he'
      cases he'
    rw [sourceFile_edited ht hedited hglobs htop hasked he he'] at hs
    obtain ⟨r, hr, hrs⟩ := Option.map_eq_some_iff.mp hs
    exact ⟨r, List.mem_filterMap.mpr ⟨_, mem_of_get? (hu.names _ hmem).1 he, hr⟩, hrs⟩
  · rintro ⟨r, hr, rfl⟩
    obtain ⟨⟨loc, e⟩, hmem, hr⟩ := List.mem_filterMap.mp hr
    have he := ht.get?_of_mem hmem
    obtain ⟨e', he'⟩ := Option.ne_none_iff_exists'.mp fun hnone => by
      rw [hedited.none_iff.mp hnone] at he
      cases he
    refine ⟨(loc, e'), mem_of_get? (ht.names _ hmem).1 he', ?_⟩
    rw [sourceFile_edited ht hedited hglobs htop hasked he he', hr]
    rfl

/-- **The source files after an edit are those before it**, in the same order, and one of them is edited. -/
theorem files_edited (hu : u.Listed) (hdir : t.isDirectory i.sourceRoot = true) (hfiles : i.files t = .ok files) :
    i.files u = .ok (files.map (edited (names.foldl Path.child i.sourceRoot) new)) := by
  rw [files_of_root hdir hglobs htop] at hfiles
  cases hfiles
  rw [files_of_root (hedited.isDirectory.trans hdir) hglobs (hedited.locate.trans htop),
    exclusions_edited hedited hglobs htop hasked, List.map_mergeSort fun a _ b _ => (SourceFile.le_edited _ _ a b).symm]
  refine congrArg Except.ok (SourceFile.mergeSort_eq_of_perm
    (sourceFiles_perm_edited ht hedited hglobs htop hasked hu) fun s hs r hr hpaths => ?_)
  obtain ⟨a, ha, rfl⟩ := List.mem_map.mp hs
  obtain ⟨b, hb, rfl⟩ := List.mem_map.mp hr
  rw [SourceFile.path_edited, SourceFile.path_edited] at hpaths
  rw [sourceFile_inj ht ha hb hpaths]

end Edit

/-! ## Visible files

  When a location can be seen, and what a source tree needs for its stream to be read back. -/

/-- The location lies over names below the source root, and everything on the way there counts. -/
def Visible (i : StalenessInputs) (t : FileTree) (place : Location) : Prop :=
  ∃ globs top names, i.overrides = .ok globs ∧ t.locate i.sourceRoot true = .ok top ∧ place = top ++ names ∧
    (i.exclusions t globs).admitsAll t [] i.sourceRoot top names = true

/-- What all rules on its way admit can be seen. -/
theorem visible_of_admits (htop : t.locate i.sourceRoot true = .ok top)
    (hadmits : (i.overrides.toOption.map fun globs =>
      (i.exclusions t globs).admitsAll t [] i.sourceRoot top names) = some true) :
    i.Visible t (top ++ names) := by
  cases hglobs : i.overrides with
  | error e =>
    rw [hglobs] at hadmits
    cases hadmits
  | ok globs =>
    rw [hglobs] at hadmits
    exact ⟨globs, top, names, hglobs, htop, rfl, Option.some.inj hadmits⟩

/-- Whatever the configuration and the source files are, they can be read back off their stream. -/
def Legible (i : StalenessInputs) (t : FileTree) : Prop :=
  ∀ config files, i.config t = .ok config → i.files t = .ok files → Framed t config files

section Visible

variable {mode : Mode} (ht : t.Listed) (hdir : t.isDirectory i.sourceRoot = true) (hglobs : i.overrides = .ok globs)
  (htop : t.locate i.sourceRoot true = .ok top) (hfiles : i.files t = .ok files)

include ht hdir hglobs htop hfiles

/-- No two source files have the same path. -/
theorem paths_nodup : (files.map SourceFile.path).Nodup := by
  rw [files_of_root hdir hglobs htop] at hfiles
  cases hfiles
  refine ((List.mergeSort_perm _ _).map SourceFile.path).nodup_iff.mpr ?_
  exact List.Nodup.map_on (fun a ha b hb heq => sourceFile_inj ht ha hb (by rw [heq])) (sourceFiles_nodup ht _ _ _)

/-- A visible file that can be read is one of the source files. -/
theorem mem_files_of_visible (hfile : t.get? (top ++ names) = some (.file old mode)) (hmode : mode ≠ .unreadable)
    (hadmits : (i.exclusions t globs).admitsAll t [] i.sourceRoot top names = true) :
    ⟨relativeName names, names.foldl Path.child i.sourceRoot, some old⟩ ∈ files := by
  have hread : t.read (names.foldl Path.child i.sourceRoot) = .ok old :=
    read_of_file (ht.locate_file hfile htop) hfile hmode
  rw [files_of_root hdir hglobs htop] at hfiles
  cases hfiles
  refine List.mem_mergeSort.mpr (List.mem_filterMap.mpr ⟨_, mem_of_file hfile, ?_⟩)
  rw [Exclusions.sourceFile?]
  dsimp only
  rw [List.drop_left, hadmits, List.isPrefixOf_iff_prefix.mpr (List.prefix_append _ _), Bool.and_true, if_pos rfl, hread]
  rfl

end Visible

/-! ## The stream

  If the two streams were the same, they would be read back to the same contents.  The examples show what happens
  where the file is asked for rules. -/

/-- The configuration after an edit is what it was, or it is the file that was edited. -/
theorem exists_config_edited (hedited : Edited place old new t u) (hconfig : i.config t = .ok config) :
    ∃ config', i.config u = .ok config' ∧ (config' = config ∨ config = old ∧ config' = new) := by
  by_cases hp : t.locate i.configFile true = .ok place
  · obtain ⟨hread, hread'⟩ := hedited.read_of_eq hp
    rw [StalenessInputs.config, hread] at hconfig
    refine ⟨new, ?_, Or.inr ⟨(Except.ok.inj hconfig).symm, rfl⟩⟩
    rw [StalenessInputs.config, hread']
  · refine ⟨config, ?_, Or.inl rfl⟩
    rw [← hconfig, StalenessInputs.config, StalenessInputs.config, hedited.read_of_ne hp]

/-- What a source file holds is read over its path. -/
theorem content_of_mem_files (hfiles : i.files t = .ok files) {f : SourceFile} (hf : f ∈ files) :
    f.content = (t.read f.path).toOption := by
  obtain ⟨e, -, x, top, hsome⟩ := exists_sourceFile_of_mem hfiles hf
  rw [Exclusions.sourceFile?] at hsome
  split at hsome
  · dsimp only at hsome
    split at hsome
    · cases hsome
      rfl
    · cases hsome
  · cases hsome

/-- A stream that can be read back tells what a visible file holds. -/
theorem content_eq_of_legible {config' : Bytes} {files' : List SourceFile} (ht : t.Listed)
    (hedited : Edited (top ++ names) old new t u) (htop : t.locate i.sourceRoot true = .ok top)
    (hglobs : i.overrides = .ok globs) (hdir : t.isDirectory i.sourceRoot = true)
    (hfiles : i.files t = .ok files) (hfiles' : i.files u = .ok files') (hframed : Framed t config files)
    (hframed' : Framed u config' files')
    (hadmits : (i.exclusions t globs).admitsAll t [] i.sourceRoot top names = true)
    (heq : inputStream config' files' = inputStream config files) : new = old := by
  obtain ⟨mode, hmode, hbefore⟩ := hedited.before
  have hs := mem_files_of_visible ht hdir hglobs htop hfiles hbefore hmode hadmits
  obtain ⟨-, hsame⟩ := inputs_eq_of_inputStream_eq hframed.config hframed'.config
    (fun f hf => hframed.file hfiles hf) (fun f hf => hframed'.file hfiles' hf) heq.symm
  obtain ⟨n, hn, hget⟩ := List.getElem_of_mem hs
  have hn' : n < files'.length := hsame.length_eq ▸ hn
  obtain ⟨hrelative, hcontent⟩ := hsame.get hn hn'
  rw [List.get_eq_getElem, List.get_eq_getElem, hget] at hrelative hcontent
  -- the file of this name in the other tree is the same one
  obtain ⟨f, hf, depth, hrelative', hpath⟩ := exists_foundOver_of_mem hfiles' (List.getElem_mem hn')
  have hnames : names = f.1.drop depth := relativeName_inj
    (fun name hname => hframed.names _ (mem_of_file hbefore) name (List.mem_append_right _ hname))
    (fun name hname => hframed'.names f hf name (List.mem_of_mem_drop hname)) (hrelative.trans hrelative')
  have hloc := ht.locate_file hbefore htop
  rw [content_of_mem_files hfiles' (List.getElem_mem hn'), hpath, ← hnames, (hedited.read_of_eq hloc).2] at hcontent
  exact (Option.some.inj hcontent).symm

/-- **A new content of a visible file changes the stream of the inputs**, if the file is not asked for ignore rules, or
    if the inputs can be read back off their streams. -/
theorem exists_stream_ne_of_edited (ht : t.Listed) (hu : u.Listed) (hedited : Edited place old new t u) (hne : new ≠ old)
    (hconfig : i.config t = .ok config) (hdir : t.isDirectory i.sourceRoot = true) (hvisible : i.Visible t place)
    (hfree : (∀ p, i.Asks t p → t.locate p true ≠ .ok place) ∨ i.Legible t ∧ i.Legible u) :
    ∃ before after, i.stream t = .ok before ∧ i.stream u = .ok after ∧ after ≠ before := by
  obtain ⟨globs, top, names, hglobs, htop, rfl, hadmits⟩ := hvisible
  obtain ⟨config', hconfig', hsame⟩ := exists_config_edited hedited hconfig
  have hfiles := files_of_root hdir hglobs htop
  have hfiles' := files_of_root (hedited.isDirectory.trans hdir) hglobs (hedited.locate.trans htop)
  have hstream {v : FileTree} {config : Bytes} {files : List SourceFile} (hconfig : i.config v = .ok config)
      (hfiles : i.files v = .ok files) : i.stream v = .ok (inputStream config files) := by
    rw [stream, hconfig, hfiles]
    rfl
  refine ⟨_, _, hstream hconfig hfiles, hstream hconfig' hfiles', ?_⟩
  -- either the edit touches nothing that is asked, or both streams can be read back
  rcases hfree with hasked | ⟨hlegible, hlegible'⟩
  · obtain ⟨mode, hmode, hbefore⟩ := hedited.before
    have hmap := files_edited ht hedited hglobs htop hasked hu hdir hfiles
    rw [Except.ok.inj (hfiles'.symm.trans hmap)]
    exact SourceFile.inputStream_edited_ne (paths_nodup ht hdir hglobs htop hfiles)
      (mem_files_of_visible ht hdir hglobs htop hfiles hbefore hmode hadmits) rfl hne hsame
  · exact fun heq => hne (content_eq_of_legible ht hedited htop hglobs hdir hfiles hfiles'
      (hlegible _ _ hconfig hfiles) (hlegible' _ _ hconfig' hfiles') hadmits heq)

/-- A source directory whose ignore file is a link to a file that counts. -/
def ruled (rules : String) : FileTree where
  entries := [(["p"], .directory), (["p", "conf"], .file (Utf8.encode "A") .plain), (["p", "src"], .directory),
    (["p", "src", "rules"], .file (Utf8.encode rules) .plain), (["p", "src", "s"], .file (Utf8.encode "\ns\n") .plain),
    (["p", "src", ".gitignore"], .link "rules")]

/-- **Rules may take in the file that they leave out**: here the new content of a visible file spells out the other file
    and ignores it, and the stream stays the same. -/
theorem stream_eq_of_ruled : beside.Visible (ruled "") ["p", "src", "rules"] ∧
    beside.stream (ruled "\x00file\x00s\x00\ns\n") = beside.stream (ruled "") ∧
    ∃ bytes, beside.stream (ruled "") = .ok bytes := by
  have hvisible : beside.Visible (ruled "") (["p", "src"] ++ ["rules"]) :=
    visible_of_admits (by with_unfolding_all rfl) (by decide +kernel)
  -- the files with their contents, and the rules that have changed stand in one of them
  have hfiles : beside.files (ruled "") =
      .ok [⟨"rules", ⟨"/p/src/rules"⟩, some []⟩, ⟨"s", ⟨"/p/src/s"⟩, some (Utf8.encode "\ns\n")⟩] :=
    files_of_pairwise ⟨IgnoreFile.withoutDot "/p/src", []⟩ ["p", "src"] (by decide +kernel) rfl (by decide +kernel)
      (by decide +kernel) (by decide +kernel)
  have hfiles' : beside.files (ruled "\x00file\x00s\x00\ns\n") =
      .ok [⟨"rules", ⟨"/p/src/rules"⟩, some (Utf8.encode "\x00file\x00s\x00\ns\n")⟩] :=
    files_of_pairwise ⟨IgnoreFile.withoutDot "/p/src", []⟩ ["p", "src"] (by decide +kernel) rfl (by decide +kernel)
      (by decide +kernel) (by decide +kernel)
  have hconfig (rules : String) : beside.config (ruled rules) = .ok (Utf8.encode "A") :=
    config_of_read (by with_unfolding_all rfl)
  rw [stream, stream, hconfig, hconfig, hfiles, hfiles']
  exact ⟨hvisible, congrArg Except.ok (by decide +kernel), _, rfl⟩

/-- **In a tree without links and without files `.git` a file is not asked for ignore rules**, if none of the names from
    the source root to it is that of an ignore file, and the file is not the user's ignore file or one of settings. -/
theorem not_asked_of_plain (ht : t.Listed) {mode : Mode} (hfile : t.get? (top ++ names) = some (.file old mode))
    (htop : t.locate i.sourceRoot true = .ok top) (hdir : t.get? top = some .directory)
    (hlinks : ∀ loc target, t.get? loc ≠ some (.link target))
    (hgit : ∀ loc content mode, t.get? (loc ++ [".git"]) ≠ some (.file content mode))
    (hnames : ∀ name ∈ names, name ∉ ignoreNames)
    (huser : ∀ p ∈ UserRules.asked t, t.locate p true ≠ .ok (top ++ names)) {p : Path} (hp : i.Asks t p) :
    t.locate p true ≠ .ok (top ++ names) := by
  -- a path that is asked is the root, one of the user's files or one below a directory of the walk
  intro hloc
  cases hp with
  | root =>
    rw [htop] at hloc
    rw [← Except.ok.inj hloc, hdir] at hfile
    cases hfile
  | user _ _ hp => exact huser p hp hloc
  | @rules globs top' outer p hglobs htop' houter hadmits hp =>
    obtain rfl : top' = top := Except.ok.inj (htop'.symm.trans htop)
    have hentry : ∀ name ∈ outer, EntryName name := fun name hname =>
      ht.entryName houter name (List.mem_append_right _ hname)
    have hplace := locate_foldl_child hentry (ht.tree.directoriesTo houter) (by rw [houter]; nofun) htop
    obtain ⟨more, hmore, rfl⟩ := exists_of_mem_asked hplace houter (hgit _) (hlinks _) hp
    have hmoreEntry : ∀ more ∈ askedNames, ∀ name ∈ more, EntryName name := by decide
    have hfound := eq_of_locate_names (hmoreEntry more hmore) hlinks hplace houter hloc
    rw [List.append_assoc, List.append_cancel_left_eq] at hfound
    -- the first name below the directory is that of an ignore file
    have hfirst : ∀ more ∈ askedNames, ∃ name ∈ more, name ∈ ignoreNames := by decide
    obtain ⟨name, hname, hignore⟩ := hfirst more hmore
    exact hnames name (hfound ▸ List.mem_append_right _ hname) hignore

end StalenessInputs

end Wheelwright
