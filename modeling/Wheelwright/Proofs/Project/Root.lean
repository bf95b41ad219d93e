/-
  Root — the directory of a project, and the source files below it.

  **Specification** — the root of a project is the directory that holds its file, and a new content of a visible file
  below it is seen by the stages (`edits_seen_below_root`).  So it is for every spelling of the file's path but one: a
  name alone has a parent without text, and that is no directory (`root_isDirectory_iff`), so of such a project no
  source file is seen at all (`edit_unseen_of_lone_name`).

  **The crux** — a path that leads to a file ends in a name.  The pieces before the name lead to the directory that
  holds the file, and the parent of the path is made of the same ones (`LiesIn.locate_parent`).
-/
import Wheelwright.Proofs.Project.Tables
import Wheelwright.Proofs.Staleness.Edits

namespace Wheelwright

open Wheelwright.FileTree Wheelwright.Path

variable {t u : FileTree} {p file given : Path} {loc : Location} {name : String}

/-! ## The directory of a file

  A path that leads to a file has a name as its last piece that counts, and what is before that leads to a directory. -/

namespace FileTree

/-- The parent of a path that can be looked for can be looked for too, unless it has no text. -/
theorem Spellable.parent {more : List String} (h : Spellable p) (hpieces : piecesOf '/' p.text = p.outerPieces ++ more)
    (hne : (p.parent?.getD ⟨""⟩).text ≠ "") : Spellable (p.parent?.getD ⟨""⟩) := by
  -- the pieces of the parent are pieces of the path, or idle
  obtain ⟨fewer, rest, idles, houter, -, hparent, -, hidles⟩ := exists_of_parent hne
  refine ⟨hne, Bool.eq_false_iff.mpr fun hnul => ?_⟩
  rw [List.contains_iff_mem, ← toList_intercalate_piecesOf '/', hparent] at hnul
  rcases mem_intercalate hnul with hslash | ⟨cs, hcs, hzero⟩
  · exact absurd hslash (by decide)
  · obtain ⟨piece, hpiece, rfl⟩ := List.mem_map.mp hcs
    rcases List.mem_append.mp hpiece with hfewer | hidle
    · have hmem : piece ∈ piecesOf '/' p.text := by
        rw [hpieces, houter]
        exact List.mem_append_left _ (List.mem_append_left _ hfewer)
      have htext := List.contains_iff_mem.mpr (mem_of_mem_piecesOf hmem hzero)
      rw [h.nul] at htext
      cases htext
    · have hshort := hidles piece hidle
      rw [isIdlePiece, Bool.or_eq_true, decide_eq_true_eq, decide_eq_true_eq] at hshort
      rcases hshort with rfl | rfl
      · cases hzero
      · exact absurd hzero (by decide)

/-- **A path that leads to a file ends in a name**, and the directory of the path holds an entry of this name. -/
theorem exists_of_isFile (ht : t.IsTree) (h : t.isFile p = true) : ∃ name here e, p.fileName? = some name ∧
    Names p name [] ∧ t.LiesIn p here ∧ t.find? p false = .ok (here ++ [name], e) := by
  -- a file has a name, as what has none is a directory
  obtain ⟨loc, content, mode, hloc, hentry⟩ := isFile_iff.mp h
  have hspell := spellable_of_locate hloc
  obtain ⟨name, hname⟩ := Option.ne_none_iff_exists'.mp fun hnone => by
    rw [directory_of_no_name ht hnone hloc] at hentry
    cases hentry
  obtain ⟨idles, hnames⟩ := names_of_fileName? hname
  obtain rfl : idles = [] := by
    obtain hnil | ⟨before, last, hconcat⟩ := List.eq_nil_or_concat idles
    · exact hnil
    · -- an idle piece at the end would lead to a directory
      rw [List.concat_eq_append] at hconcat
      have hpieces := hnames.pieces
      rw [hconcat, ← List.cons_append, ← List.append_assoc] at hpieces
      rw [hspell.locate, hpieces] at hloc
      have hlast := hnames.idles_idle last (hconcat ▸ List.mem_append_right _ List.mem_cons_self)
      rw [directory_of_last ht (Or.inl hlast) hloc] at hentry
      cases hentry
  obtain ⟨here, m, hreach, hwalk⟩ := hnames.exists_liesIn hloc
  have hplace : t.locate p false = .ok (here ++ [name]) := by
    rw [hnames.locate hspell, hreach.walk_eq (Or.inl (List.cons_ne_nil _ _)),
      walk_last hreach.last hnames.name_idle hnames.name_up]
  -- the name leads to a link, or to the file itself
  obtain ⟨e, he⟩ : ∃ e, t.get? (here ++ [name]) = some e := by
    by_cases hlink : ∃ target, t.get? (here ++ [name]) = some (.link target)
    · obtain ⟨target, htarget⟩ := hlink
      exact ⟨_, htarget⟩
    · rw [walk_down hreach.last hnames.name_idle hnames.name_up fun target htarget => hlink ⟨target, htarget⟩] at hwalk
      cases hwalk
      exact ⟨_, hentry⟩
  exact ⟨name, here, e, hname, hnames, ⟨m, hreach⟩, find?_of_entry hplace he⟩

end FileTree

/-! ## The root of a project

  The parent of a path is made of the pieces before the last name.  With none before it the parent has no text, and a
  path without text leads nowhere. -/

namespace Project

variable {project : Project}

/-- **The root of a project is the directory that holds its file**, if the path of the file is more than a name. -/
theorem exists_find_root (ht : t.IsTree) (hfile : t.isFile project.path = true)
    (hslash : '/' ∈ project.path.text.toList) : ∃ top name e, t.find? project.root true = .ok (top, .directory) ∧
      t.find? project.path false = .ok (top ++ [name], e) := by
  obtain ⟨name, top, e, hname, hnames, hlies, hfind⟩ := exists_of_isFile ht hfile
  obtain ⟨loc, content, mode, hloc, -⟩ := isFile_iff.mp hfile
  -- with a slash in its text, the path has a piece in front of the name
  have houter : project.path.outerPieces ≠ [] := fun hnil => by
    have hpieces := hnames.pieces
    rw [hnil, List.nil_append] at hpieces
    have htext := toList_intercalate_piecesOf '/' project.path.text
    rw [hpieces, List.map_singleton, List.intercalate_singleton] at htext
    have hmem : name ∈ piecesOf '/' project.path.text := by
      rw [hpieces]
      exact List.mem_singleton_self _
    exact notMem_of_mem_piecesOf hmem (htext ▸ hslash)
  obtain ⟨q, hparent, hne⟩ := exists_parent hname houter
  have hroot : project.root = project.path.parent?.getD ⟨""⟩ := by
    rw [root, hparent]
    rfl
  have hspell : Spellable (project.path.parent?.getD ⟨""⟩) :=
    (spellable_of_locate hloc).parent hnames.pieces (by rw [hparent]; exact hne)
  refine ⟨top, name, e, ?_, hfind⟩
  rw [hroot, find?_of_entry (hlies.locate_parent hspell) hlies.directory]

/-- A project whose file is given by a name alone has no directory for its root. -/
theorem isDirectory_of_lone_name (ht : t.IsTree) (hfile : t.isFile project.path = true)
    (hslash : '/' ∉ project.path.text.toList) : project.root = ⟨""⟩ ∧ t.isDirectory project.root = false := by
  obtain ⟨name, top, e, -, hnames, -⟩ := exists_of_isFile ht hfile
  have hidle : isIdlePiece project.path.text = false := by
    have hmem : name ∈ piecesOf '/' project.path.text := by
      rw [hnames.pieces]
      exact List.mem_append_right _ List.mem_cons_self
    rw [piecesOf_name hslash] at hmem
    rw [← List.mem_singleton.mp hmem]
    exact hnames.name_idle
  have hroot : project.root = ⟨""⟩ := by
    rw [root, parent_of_name hidle hslash]
    rfl
  rw [hroot]
  exact ⟨rfl, rfl⟩

/-- **The root is a directory for every spelling of the file's path but a name alone.** -/
theorem root_isDirectory_iff (ht : t.IsTree) (hfile : t.isFile project.path = true) :
    t.isDirectory project.root = true ↔ '/' ∈ project.path.text.toList := by
  constructor
  · intro hdir
    refine Decidable.byContradiction fun hslash => ?_
    rw [(isDirectory_of_lone_name ht hfile hslash).2] at hdir
    cases hdir
  · intro hslash
    obtain ⟨top, -, -, hroot, -⟩ := exists_find_root ht hfile hslash
    rw [FileTree.isDirectory, hroot]

/-! ## What the stages see

  What is found below the root is hashed, and what is not found is not seen.  The two examples differ in the spelling
  of one path. -/

/-- What is discovered is a file. -/
theorem isFile_of_discover (h : discover given t = .ok file) : t.isFile file = true := by
  by_cases hfile : t.isFile (if t.isDirectory given then given.child fileName else given) = true
  · rw [discover, if_pos hfile] at h
    rw [← Except.ok.inj h]
    exact hfile
  · rw [discover, if_neg hfile] at h
    cases h

/-- What is loaded was read. -/
theorem exists_read_of_load (h : load file t = .ok project) : ∃ content, t.read file = .ok content := by
  rw [load, readText] at h
  cases hread : t.read file with
  | error e =>
    rw [hread] at h
    cases h
  | ok content => exact ⟨content, rfl⟩

/-- **The root of a project is the directory that holds its file, and edits below it are seen**, if the path of the file
    is more than a name: whatever else a visible file is given for its content, the stream that the stages hash is
    another one.  If the file is asked for ignore rules too, the inputs must be such that they can be read back. -/
theorem edits_seen_below_root (ht : t.Listed) (hdiscover : discover given t = .ok file)
    (hload : load file t = .ok project) (hslash : '/' ∈ file.text.toList) :
    (∃ top name e, t.find? project.root true = .ok (top, .directory) ∧ t.find? file false = .ok (top ++ [name], e)) ∧
    ∀ (c : TargetConfig) (b : Backend) (u : FileTree) (place : Location) (old new : Bytes), u.Listed →
      Edited place old new t u → new ≠ old → (TargetStages.inputs c project b).Visible t place →
      (∀ p, (TargetStages.inputs c project b).Asks t p → t.locate p true ≠ .ok place) ∨
        (TargetStages.inputs c project b).Legible t ∧ (TargetStages.inputs c project b).Legible u →
      ∃ before after, (TargetStages.inputs c project b).stream t = .ok before ∧
        (TargetStages.inputs c project b).stream u = .ok after ∧ after ≠ before := by
  obtain rfl := path_of_load hload
  obtain ⟨content, hread⟩ := exists_read_of_load hload
  have hfile := isFile_of_discover hdiscover
  refine ⟨exists_find_root ht.tree hfile hslash, fun c b u place old new hu hedited hne hvisible hfree => ?_⟩
  have hconfig : (TargetStages.inputs c project b).config t = .ok content := by
    rw [StalenessInputs.config, show (TargetStages.inputs c project b).configFile = project.path from rfl, hread]
  exact StalenessInputs.exists_stream_ne_of_edited ht hu hedited hne hconfig
    ((root_isDirectory_iff ht.tree hfile).mpr hslash) hvisible hfree

/-- A project with one source file, seen from the directory `home`. -/
def shelf (home : Location) (code : String) : FileTree where
  home
  entries := [(["srv"], .directory),
    (["srv", "pyproject.toml"], .file (Utf8.encode "[build-system]\nbuild-backend = \"flit_core.buildapi\"\n") .plain),
    (["srv", "demo.py"], .file (Utf8.encode code) .plain)]

/-- What the project file on the shelf says. -/
def shelfProject (file : Path) : Project where
  path := file
  buildBackend := "flit_core.buildapi"
  requires := []
  backendPath := []
  name := none
  version := none

/-- The inputs of the stages that build it. -/
def shelfInputs (file : Path) : StalenessInputs :=
  TargetStages.inputs { projectFile := file } (shelfProject file) .pypaBuild

section Shelf

variable (home : Location) (code code' : String)

/-- The shelf lists its entries once. -/
theorem listed_shelf : (shelf home code).Listed := by
  have hkeys : (shelf home code).entries.map Prod.fst = [["srv"], ["srv", "pyproject.toml"], ["srv", "demo.py"]] := rfl
  have hnames : ∀ loc ∈ [["srv"], ["srv", "pyproject.toml"], ["srv", "demo.py"]],
      loc ≠ [] ∧ ∀ name ∈ loc, EntryName name := by decide
  refine listed_of_entries (fun f hf => ?_) (by rw [hkeys]; decide) fun f hf => ?_
  · rw [shelf, List.mem_cons, List.mem_cons, List.mem_singleton] at hf
    rcases hf with rfl | rfl | rfl <;> rfl
  · exact hnames f.1 (hkeys ▸ List.mem_map_of_mem hf)

/-- On the shelf are no links, and nothing has the name of a repository. -/
theorem plain_shelf {loc : Location} {e : Entry} (h : (shelf home code).get? loc = some e) :
    (∀ target, e ≠ .link target) ∧ loc.getLast? ≠ some ".git" := by
  by_cases hnil : loc = []
  · rw [hnil] at h ⊢
    cases h
    exact ⟨nofun, nofun⟩
  · have hmem := mem_of_get? hnil h
    rw [shelf, List.mem_cons, List.mem_cons, List.mem_singleton] at hmem
    rcases hmem with heq | heq | heq <;> cases heq <;> exact ⟨nofun, by decide⟩

/-- Its code is edited. -/
theorem edited_shelf : Edited ["srv", "demo.py"] (Utf8.encode code) (Utf8.encode code') (shelf home code)
    (shelf home code') := by
  refine ⟨rfl, rfl, ⟨.plain, nofun, rfl⟩, ⟨.plain, nofun, rfl⟩, fun loc hloc => ?_⟩
  by_cases hnil : loc = []
  · rw [hnil]
    rfl
  · rw [get?, get?, if_neg hnil, if_neg hnil, shelf, shelf, lookup_cons_if, lookup_cons_if, lookup_cons_if,
      lookup_cons_if, lookup_cons_if, lookup_cons_if, if_neg hloc, if_neg hloc]

end Shelf

/-- On a shelf with one source file, an edit of that file changes what is hashed. -/
theorem edits_seen_below_root_shelf : (shelf [] "x = 1\n").Listed ∧
    discover ⟨"srv"⟩ (shelf [] "x = 1\n") = .ok ⟨"srv/pyproject.toml"⟩ ∧
    load ⟨"srv/pyproject.toml"⟩ (shelf [] "x = 1\n") = .ok (shelfProject ⟨"srv/pyproject.toml"⟩) ∧
    '/' ∈ "srv/pyproject.toml".toList ∧ (shelf [] "x = 2\n").Listed ∧
    Edited ["srv", "demo.py"] (Utf8.encode "x = 1\n") (Utf8.encode "x = 2\n") (shelf [] "x = 1\n")
      (shelf [] "x = 2\n") ∧
    Utf8.encode "x = 2\n" ≠ Utf8.encode "x = 1\n" ∧
    (shelfInputs ⟨"srv/pyproject.toml"⟩).Visible (shelf [] "x = 1\n") ["srv", "demo.py"] ∧
    (∀ p, (shelfInputs ⟨"srv/pyproject.toml"⟩).Asks (shelf [] "x = 1\n") p →
      (shelf [] "x = 1\n").locate p true ≠ .ok ["srv", "demo.py"]) ∧
    (∃ top name e, (shelf [] "x = 1\n").find? ⟨"srv"⟩ true = .ok (top, .directory) ∧
      (shelf [] "x = 1\n").find? ⟨"srv/pyproject.toml"⟩ false = .ok (top ++ [name], e)) ∧
    ∃ before after, (shelfInputs ⟨"srv/pyproject.toml"⟩).stream (shelf [] "x = 1\n") = .ok before ∧
      (shelfInputs ⟨"srv/pyproject.toml"⟩).stream (shelf [] "x = 2\n") = .ok after ∧ after ≠ before := by
  -- each hypothesis at this tree
  have hlisted := listed_shelf [] "x = 1\n"
  have hlisted' := listed_shelf [] "x = 2\n"
  have hdiscover : discover ⟨"srv"⟩ (shelf [] "x = 1\n") = .ok ⟨"srv/pyproject.toml"⟩ := by with_unfolding_all rfl
  have hload : load ⟨"srv/pyproject.toml"⟩ (shelf [] "x = 1\n") = .ok (shelfProject ⟨"srv/pyproject.toml"⟩) := by
    with_unfolding_all rfl
  have hedited := edited_shelf [] "x = 1\n" "x = 2\n"
  have hne : Utf8.encode "x = 2\n" ≠ Utf8.encode "x = 1\n" := fun heq => absurd (Utf8.encode_injective heq) (by decide)
  have hvisible : (shelfInputs ⟨"srv/pyproject.toml"⟩).Visible (shelf [] "x = 1\n") (["srv"] ++ ["demo.py"]) :=
    StalenessInputs.visible_of_admits (by with_unfolding_all rfl) (by decide +kernel)
  have hasked : ∀ p, (shelfInputs ⟨"srv/pyproject.toml"⟩).Asks (shelf [] "x = 1\n") p →
      (shelf [] "x = 1\n").locate p true ≠ .ok (["srv"] ++ ["demo.py"]) := fun p hp =>
    StalenessInputs.not_asked_of_plain hlisted (rfl : (shelf [] "x = 1\n").get? (["srv"] ++ ["demo.py"]) = _)
      (by with_unfolding_all rfl) rfl (fun _ target hlink => (plain_shelf _ _ hlink).1 target rfl)
      (fun _ _ _ hgit => (plain_shelf _ _ hgit).2 List.getLast?_concat) (by decide) nofun hp
  obtain ⟨hroot, hseen⟩ := edits_seen_below_root hlisted hdiscover hload (by decide)
  exact ⟨hlisted, hdiscover, hload, by decide, hlisted', hedited, hne, hvisible, hasked, hroot,
    hseen _ _ _ _ _ _ hlisted' hedited hne hvisible (Or.inl hasked)⟩

/-- **Of a project whose file is given by a name alone no source file is seen**: only the project file counts. -/
theorem stream_of_lone_name (ht : t.IsTree) (hfile : t.isFile project.path = true)
    (hslash : '/' ∉ project.path.text.toList) (hread : u.read project.path = t.read project.path)
    (c : TargetConfig) (b : Backend) : (TargetStages.inputs c project b).files t = .ok [] ∧
      (TargetStages.inputs c project b).stream u = (TargetStages.inputs c project b).stream t := by
  have hroot : (TargetStages.inputs c project b).sourceRoot = ⟨""⟩ := (isDirectory_of_lone_name ht hfile hslash).1
  have hfiles (v : FileTree) : (TargetStages.inputs c project b).files v = .ok [] := by
    rw [StalenessInputs.files, hroot]
    rfl
  refine ⟨hfiles t, ?_⟩
  rw [StalenessInputs.stream, StalenessInputs.stream, hfiles, hfiles, StalenessInputs.config, StalenessInputs.config,
    show (TargetStages.inputs c project b).configFile = project.path from rfl, hread]

/-- **An edit that is not seen**: the file counts if the path of the project file is spelled with a dot in front, and
    without one the source root is no directory and the stream stays the same. -/
theorem edit_unseen_of_lone_name : (shelf ["srv"] "x = 1\n").Listed ∧ (shelf ["srv"] "x = 2\n").Listed ∧
    Edited ["srv", "demo.py"] (Utf8.encode "x = 1\n") (Utf8.encode "x = 2\n") (shelf ["srv"] "x = 1\n")
      (shelf ["srv"] "x = 2\n") ∧ Utf8.encode "x = 2\n" ≠ Utf8.encode "x = 1\n" ∧
    (shelfInputs ⟨"./pyproject.toml"⟩).Visible (shelf ["srv"] "x = 1\n") ["srv", "demo.py"] ∧
    discover ⟨"pyproject.toml"⟩ (shelf ["srv"] "x = 1\n") = .ok ⟨"pyproject.toml"⟩ ∧
    load ⟨"pyproject.toml"⟩ (shelf ["srv"] "x = 1\n") = .ok (shelfProject ⟨"pyproject.toml"⟩) ∧
    (shelf ["srv"] "x = 1\n").isDirectory (shelfProject ⟨"pyproject.toml"⟩).root = false ∧
    (shelfInputs ⟨"pyproject.toml"⟩).stream (shelf ["srv"] "x = 2\n") =
      (shelfInputs ⟨"pyproject.toml"⟩).stream (shelf ["srv"] "x = 1\n") := by
  have hlisted := listed_shelf ["srv"] "x = 1\n"
  have hedited := edited_shelf ["srv"] "x = 1\n" "x = 2\n"
  have hne : Utf8.encode "x = 2\n" ≠ Utf8.encode "x = 1\n" := fun heq => absurd (Utf8.encode_injective heq) (by decide)
  have hvisible : (shelfInputs ⟨"./pyproject.toml"⟩).Visible (shelf ["srv"] "x = 1\n") (["srv"] ++ ["demo.py"]) :=
    StalenessInputs.visible_of_admits (by with_unfolding_all rfl) (by decide +kernel)
  have hfile : (shelf ["srv"] "x = 1\n").isFile (shelfProject ⟨"pyproject.toml"⟩).path = true := by with_unfolding_all rfl
  have hslash : '/' ∉ (shelfProject ⟨"pyproject.toml"⟩).path.text.toList := by decide
  have hplace : (shelf ["srv"] "x = 1\n").locate ⟨"pyproject.toml"⟩ true = .ok ["srv", "pyproject.toml"] := by
    with_unfolding_all rfl
  have hread : (shelf ["srv"] "x = 2\n").read ⟨"pyproject.toml"⟩ = (shelf ["srv"] "x = 1\n").read ⟨"pyproject.toml"⟩ :=
    hedited.read_of_ne fun heq => absurd (Except.ok.inj (hplace.symm.trans heq)) (by decide)
  exact ⟨hlisted, listed_shelf ["srv"] "x = 2\n", hedited, hne, hvisible, by with_unfolding_all rfl,
    by with_unfolding_all rfl, (isDirectory_of_lone_name hlisted.tree hfile hslash).2,
    (stream_of_lone_name hlisted.tree hfile hslash hread _ _).2⟩

end Project

end Wheelwright
