/-
  Outside — a fingerprint does not see what changes at an excluded path and below.

  **Specification** — two listings that agree outside an excluded location, and on the configuration, have the same
  fingerprint, in whatever order their entries stand (`fingerprint_eq_of_agreeOutside`).  The ignore files that are asked
  outside the location must not be reached over it: they are read by their paths, and links on these are followed.

  **Program** — `admitsAll` goes down from the source root and asks the ignore files of each directory that it enters.
  At the excluded path it stops, so nothing below is entered.  The files that are found are sorted by their names.

  **The crux** — what is asked is asked outside (`Asks`), and what is asked alike is answered alike
  (`ofDirectory_congr`, `ofTree_congr`); so the same files are found, in some order, and sorting makes this the same order: no two files
  have the same path (`sourceFiles_perm`).
-/
import Wheelwright.Proofs.FileTree.Below
import Wheelwright.Proofs.Staleness.Asked
import Wheelwright.Target.Stages

namespace Wheelwright

open Wheelwright.FileTree

variable {t u : FileTree} {top here place : Location} {names before : List String} {f : Location × Entry}

open DirectoryRules

/-! ## Admission

  Whether an entry counts is decided from the root downwards.  An excluded directory is not entered, so what the
  ignore files below it say is not asked. -/

namespace Exclusions

variable {x : Exclusions} {rules : List DirectoryRules} {dir e root : Path} {left : List String}

/-- An excluded path is not admitted by any rules. -/
theorem admits_of_excluded {p : Path} {name : String} {isDirectory : Bool} (he : e ∈ x.paths)
    (hp : p.components = e.components) : x.admits rules p name isDirectory = false := by
  have hstart : p.startsWith e = true := by
    rw [Path.startsWith, hp]
    exact List.isPrefixOf_iff_prefix.mpr (List.prefix_refl _)
  have hany : x.paths.any p.startsWith = true := List.any_eq_true.mpr ⟨e, he, hstart⟩
  rw [admits, hany]
  exact Bool.and_false _

/-- **Nothing counts at an excluded path and below.** -/
theorem admitsAll_of_below (he : e ∈ x.paths) (hnames : ∀ name ∈ names, EntryName name)
    (hcomponents : e.components = dir.components ++ left.map .normal) (hne : left ≠ []) (hbelow : left <+: names) :
    x.admitsAll t rules dir here names = false := by
  -- on the names that lead down, along what is left of the excluded path
  induction names generalizing dir here rules left with
  | nil => exact absurd (List.prefix_nil.mp hbelow) hne
  | cons name rest ih =>
    obtain ⟨first, more, rfl⟩ := List.exists_cons_of_ne_nil hne
    obtain ⟨rfl, hmore⟩ := List.cons_prefix_cons.mp hbelow
    have hchild : (dir.child first).components = dir.components ++ [.normal first] :=
      Path.components_child (hnames first List.mem_cons_self)
    have hcomponents' : e.components = (dir.child first).components ++ more.map .normal := by
      rw [hchild, hcomponents, List.append_assoc]
      rfl
    rw [admitsAll]
    by_cases hnil : more = []
    · rw [hnil, List.map_nil, List.append_nil] at hcomponents'
      rw [admits_of_excluded he hcomponents'.symm, Bool.false_and]
    · rw [ih (fun name hname => hnames name (List.mem_cons_of_mem _ hname)) hcomponents' hnil hmore, Bool.and_false]

/-- Entries are admitted alike where the same are directories and the rules on the way are the same. -/
theorem admitsAll_congr (hdirs : t.DirectoriesTo here names)
    (hget : ∀ before, before <+: names →
      (u.get? (here ++ before) = some .directory ↔ t.get? (here ++ before) = some .directory))
    (hrules : ∀ before, before <+: names → t.get? (here ++ before) = some .directory →
      x.admitsAll t rules dir here before = true →
        ofDirectory u (before.foldl Path.child dir) = ofDirectory t (before.foldl Path.child dir)) :
    x.admitsAll u rules dir here names = x.admitsAll t rules dir here names := by
  -- on the names: as long as all are admitted, the same directories are asked for rules
  induction names generalizing dir here rules with
  | nil => rfl
  | cons name rest ih =>
    have hdir : ofDirectory u dir = ofDirectory t dir :=
      hrules [] List.nil_prefix (by rw [List.append_nil]; exact hdirs.first) rfl
    have hthere : decide (u.get? (here ++ [name]) = some .directory) = decide (t.get? (here ++ [name]) = some .directory) :=
      decide_eq_decide.mpr (hget [name] (List.cons_prefix_cons.mpr ⟨rfl, List.nil_prefix⟩))
    rw [admitsAll, admitsAll, hdir, hthere]
    by_cases hadmits : x.admits (ofDirectory t dir :: rules) (dir.child name) name
        (t.get? (here ++ [name]) = some .directory) = true
    · rw [hadmits, Bool.true_and, Bool.true_and]
      refine ih hdirs.rest (fun before hbefore => ?_) fun before hbefore hentry hall => ?_
      · rw [List.append_assoc]
        exact hget (name :: before) (List.cons_prefix_cons.mpr ⟨rfl, hbefore⟩)
      · rw [List.append_assoc] at hentry
        refine hrules (name :: before) (List.cons_prefix_cons.mpr ⟨rfl, hbefore⟩) hentry ?_
        rw [admitsAll, hadmits, Bool.true_and]
        exact hall
    · rw [Bool.not_eq_true] at hadmits
      rw [hadmits, Bool.false_and, Bool.false_and]

end Exclusions

/-! ## In one order

  Sorting gives one list for all orders in which files may be found, since the order is total and no two files have
  the same path. -/

namespace SourceFile

/-- One file is before another by its name, or else by its path. -/
theorem le_iff {a b : SourceFile} : le a b = true ↔ a.relative < b.relative ∨
    a.relative = b.relative ∧ Path.componentsLt b.path.components a.path.components = false := by
  rw [le, Bool.or_eq_true, Bool.and_eq_true, decide_eq_true_eq, decide_eq_true_eq, Bool.not_eq_true']
  rfl

/-- The order of files is transitive. -/
theorem le_trans {a b c : SourceFile} (h : le a b = true) (h' : le b c = true) :
    le a c = true := by
  rw [le_iff] at h h' ⊢
  rcases h with hlt | ⟨heq, hpath⟩
  · rcases h' with hlt' | ⟨heq', -⟩
    · exact Or.inl (String.lt_trans hlt hlt')
    · exact Or.inl (heq' ▸ hlt)
  · rcases h' with hlt' | ⟨heq', hpath'⟩
    · exact Or.inl (heq ▸ hlt')
    · exact Or.inr ⟨heq.trans heq', Path.componentsLt_le_trans hpath hpath'⟩

/-- The order of files is total. -/
theorem le_total (a b : SourceFile) : (le a b || le b a) = true := by
  rw [Bool.or_eq_true, le_iff, le_iff]
  -- by the relative names, and by the paths where these are the same
  rcases Decidable.em (a.relative < b.relative) with hlt | hge
  · exact Or.inl (Or.inl hlt)
  · rcases Decidable.em (b.relative < a.relative) with hgt | hle
    · exact Or.inr (Or.inl hgt)
    · have heq : a.relative = b.relative := String.le_antisymm (String.not_lt.mp hle) (String.not_lt.mp hge)
      cases hpath : Path.componentsLt b.path.components a.path.components with
      | false => exact Or.inl (Or.inr ⟨heq, rfl⟩)
      | true =>
        refine Or.inr (Or.inr ⟨heq.symm, ?_⟩)
        rw [← Bool.not_eq_true]
        intro hback
        have hloop := Path.componentsLt_trans hpath hback
        rw [Path.componentsLt_irrefl] at hloop
        cases hloop

/-- Files of which neither comes before the other have the same path. -/
theorem components_eq_of_le {a b : SourceFile} (h : le a b = true) (h' : le b a = true) :
    a.path.components = b.path.components := by
  rw [le_iff] at h h'
  -- neither is before the other in its relative name, and then neither in its path
  rcases h with hlt | ⟨heq, hpath⟩
  · rcases h' with hlt' | ⟨heq', -⟩
    · exact absurd hlt' (String.lt_asymm hlt)
    · exact absurd hlt (heq' ▸ String.lt_irrefl _)
  · rcases h' with hlt' | ⟨-, hpath'⟩
    · exact absurd hlt' (heq ▸ String.lt_irrefl _)
    · rcases Path.componentsLt_connected a.path.components b.path.components with hlt | hsame | hgt
      · rw [hlt] at hpath'
        cases hpath'
      · exact hsame
      · rw [hgt] at hpath
        cases hpath

/-- **Sorting leaves one order**, if no two files have the same path. -/
theorem mergeSort_eq_of_perm {files files' : List SourceFile} (h : files.Perm files')
    (hpaths : ∀ a ∈ files', ∀ b ∈ files', a.path.components = b.path.components → a = b) :
    files.mergeSort SourceFile.le = files'.mergeSort SourceFile.le := by
  have hsorted (files : List SourceFile) : (files.mergeSort SourceFile.le).Pairwise (SourceFile.le · · = true) :=
    @List.pairwise_mergeSort _ SourceFile.le (fun _ _ _ => le_trans) le_total files
  refine List.Perm.eq_of_pairwise (fun a b ha hb hab hba => ?_) (hsorted files) (hsorted files')
    (((List.mergeSort_perm _ _).trans h).trans (List.mergeSort_perm _ _).symm)
  exact hpaths a (h.mem_iff.mp (List.mem_mergeSort.mp ha)) b (List.mem_mergeSort.mp hb) (components_eq_of_le hab hba)

end SourceFile

/-! ## What is asked

  What is read when source files are looked for: directories from the root down, and what they ask for rules.  All of
  it is found by paths, and links on these may lead anywhere. -/

namespace StalenessInputs

variable {i : StalenessInputs} {p : Path}

/-- The path is asked for when source files are looked for: it is the source root, an ignore file of a directory that
    is entered, or the ignore file of the user or settings that may name it. -/
inductive Asks (i : StalenessInputs) (t : FileTree) : Path → Prop
  /-- The root, which is walked. -/
  | root : Asks i t i.sourceRoot
  /-- The files with the user's own rules. -/
  | user {globs : IgnoreFile} {top : Location} {p : Path} (hglobs : i.overrides = .ok globs)
      (htop : t.locate i.sourceRoot true = .ok top) (hp : p ∈ UserRules.asked t) : Asks i t p
  /-- The files with the rules of a directory, if the walk comes there. -/
  | rules {globs : IgnoreFile} {top : Location} {names : List String} {p : Path} (hglobs : i.overrides = .ok globs)
      (htop : t.locate i.sourceRoot true = .ok top) (hdir : t.get? (top ++ names) = some .directory)
      (hnames : (i.exclusions t globs).admitsAll t [] i.sourceRoot top names = true)
      (hp : p ∈ asked t (names.foldl Path.child i.sourceRoot)) : Asks i t p

/-- The location is excluded: it lies over names below the source root, and the path of these names is excluded.  What
    is asked is not reached over it. -/
structure Excludes (i : StalenessInputs) (t : FileTree) (place : Location) : Prop where
  /-- An excluded path spells the place from the root on. -/
  path : ∃ e ∈ i.resolvedExclusions, ∃ names, names ≠ [] ∧
    e.components = i.sourceRoot.components ++ names.map .normal ∧
      ∀ top, t.locate i.sourceRoot true = .ok top → place = top ++ names
  /-- No path that is asked leads through it. -/
  apart : ∀ p, i.Asks t p → ∀ loc ∈ t.way p, ¬ place <+: loc

/-! ## The same source files

  By induction along the names of an entry, it counts in both trees or in none. -/

section Agree

variable {globs : IgnoreFile} {x : Exclusions}

/-- What counts does not lie at an excluded location or below. -/
theorem Excludes.not_below_of_admitsAll {v w : FileTree} (h : i.Excludes t place)
    (htop : t.locate i.sourceRoot true = .ok top) (hnames : ∀ name ∈ names, EntryName name)
    (hadmits : (i.exclusions w globs).admitsAll v [] i.sourceRoot top names = true) :
    ¬ place <+: top ++ names := by
  obtain ⟨e, he, left, hne, hcomponents, hplace⟩ := h.path
  rw [hplace top htop, List.prefix_append_right_inj]
  intro hbelow
  rw [Exclusions.admitsAll_of_below he hnames hcomponents hne hbelow] at hadmits
  cases hadmits

/-- What a source file comes from. -/
theorem exists_of_sourceFile? {root : Path} {s : SourceFile} (h : x.sourceFile? t root top f = some s) :
    ∃ names, f.1 = top ++ names ∧ x.admitsAll t [] root top names = true ∧ s.path = names.foldl Path.child root := by
  rw [Exclusions.sourceFile?] at h
  split at h
  · dsimp only at h
    split at h
    · rename_i hcounts
      rw [Bool.and_eq_true, List.isPrefixOf_iff_prefix] at hcounts
      obtain ⟨⟨names, hnames⟩, hadmits⟩ := hcounts
      rw [← hnames, List.drop_left] at hadmits
      cases h
      rw [← hnames, List.drop_left]
      exact ⟨names, rfl, hadmits, rfl⟩
    · cases h
  · cases h

/-- Source files of one listing with the same components come from the same entry. -/
theorem eq_of_components_eq (ht : t.Listed) {root : Path} {g : Location × Entry} {s r : SourceFile}
    (hf : f ∈ t.entries) (hg : g ∈ t.entries) (hs : x.sourceFile? t root top f = some s)
    (hr : x.sourceFile? t root top g = some r) (heq : s.path.components = r.path.components) : f = g := by
  obtain ⟨names, hnames, -, hpath⟩ := exists_of_sourceFile? hs
  obtain ⟨names', hnames', -, hpath'⟩ := exists_of_sourceFile? hr
  have hentry (f : Location × Entry) (hmem : f ∈ t.entries) (names : List String) (hloc : f.1 = top ++ names) :
      ∀ name ∈ names, EntryName name := fun name hname =>
    (ht.names f hmem).2 name (hloc ▸ List.mem_append_right _ hname)
  rw [hpath, hpath'] at heq
  have hsame := Path.foldl_child_inj (hentry f hf names hnames) (hentry g hg names' hnames') heq
  have hloc : f.1 = g.1 := by rw [hnames, hnames', hsame]
  have hsome : some f.2 = some g.2 := by
    rw [← ht.get?_of_mem hf, ← ht.get?_of_mem hg, hloc]
  exact Prod.ext hloc (Option.some.inj hsome)

/-- No two source files of one listing have the same path. -/
theorem sourceFile_inj (ht : t.Listed) {root : Path} {s r : SourceFile}
    (hs : s ∈ t.entries.filterMap (x.sourceFile? t root top)) (hr : r ∈ t.entries.filterMap (x.sourceFile? t root top))
    (heq : s.path.components = r.path.components) : s = r := by
  obtain ⟨f, hf, hfs⟩ := List.mem_filterMap.mp hs
  obtain ⟨g, hg, hgr⟩ := List.mem_filterMap.mp hr
  obtain rfl : f = g := eq_of_components_eq ht hf hg hfs hgr heq
  exact Option.some.inj (hfs.symm.trans hgr)

/-- No source file is listed twice. -/
theorem sourceFiles_nodup (ht : t.Listed) (x : Exclusions) (root : Path) (top : Location) :
    (t.entries.filterMap (x.sourceFile? t root top)).Nodup := by
  have hkeys : t.entries.Pairwise fun f g => f.1 ≠ g.1 := List.pairwise_map.mp ht.once
  refine List.pairwise_filterMap.mpr (hkeys.imp_of_mem fun {f g} hf hg hne s hs r hr heq => hne ?_)
  rw [eq_of_components_eq ht hf hg hs hr (by rw [heq])]

variable (ht : t.Listed) (hu : u.Listed) (hexcluded : i.Excludes t place) (hagree : AgreeOutside place t u)
  (hglobs : i.overrides = .ok globs) (htop : t.locate i.sourceRoot true = .ok top)

section

include hexcluded hagree hglobs htop

/-- The same is left out, since the user's ignore file is asked outside. -/
theorem exclusions_congr : i.exclusions u globs = i.exclusions t globs := by
  rw [exclusions, exclusions, UserRules.ofTree_congr hagree.user hagree.home fun p hp =>
    hagree.find? (hexcluded.apart p (.user hglobs htop hp))]

include ht

/-- **Outside an excluded location the same entries are source files.** -/
theorem sourceFile_congr (hf : t.get? f.1 = some f.2) (hbelow : ¬ place <+: f.1) :
    (i.exclusions t globs).sourceFile? u i.sourceRoot top f =
      (i.exclusions t globs).sourceFile? t i.sourceRoot top f := by
  -- what is no file is no source file in either tree
  obtain ⟨loc, entry⟩ := f
  rw [Exclusions.sourceFile?, Exclusions.sourceFile?]
  cases entry with
  | link target => rfl
  | directory => rfl
  | file content mode =>
    dsimp only at hf hbelow ⊢
    by_cases hprefix : top <+: loc
    · obtain ⟨names, rfl⟩ := hprefix
      have hnames : ∀ name ∈ names, EntryName name := fun name hname =>
        ht.entryName hf name (List.mem_append_right _ hname)
      have hdirs : t.DirectoriesTo top names := ht.tree.directoriesTo hf
      have hget (before : List String) (hbefore : before <+: names) : u.get? (top ++ before) = t.get? (top ++ before) :=
        hagree.get _ fun hplace => hbelow (hplace.trans ((List.prefix_append_right_inj top).mpr hbefore))
      have hadmits : (i.exclusions t globs).admitsAll u [] i.sourceRoot top names =
          (i.exclusions t globs).admitsAll t [] i.sourceRoot top names :=
        Exclusions.admitsAll_congr hdirs (fun before hbefore => by rw [hget before hbefore]) fun before _ hdir hbefore =>
          ofDirectory_congr fun p hp => hagree.find? (hexcluded.apart p (.rules hglobs htop hdir hbefore hp))
      have hu : u.get? (top ++ names) = some (.file content mode) := by rw [hagree.get _ hbelow, hf]
      have hdirs' : u.DirectoriesTo top names := fun before hbefore hne => by
        rw [hget before hbefore]
        exact hdirs before hbefore hne
      have htop' : u.locate i.sourceRoot true = .ok top := by rw [hagree.locate (hexcluded.apart _ .root), htop]
      have hplace := locate_foldl_child hnames hdirs (by rw [hf]; nofun) htop
      have hplace' := locate_foldl_child hnames hdirs' (by rw [hu]; nofun) htop'
      rw [List.drop_left, hadmits, FileTree.read, FileTree.read, find?_of_entry hplace hf, find?_of_entry hplace' hu]
    -- a file that is not below the root
    · have hapart : top.isPrefixOf loc = false := by
        rw [← Bool.not_eq_true, List.isPrefixOf_iff_prefix]
        exact hprefix
      rw [hapart, Bool.false_and, Bool.false_and, if_neg Bool.false_ne_true, if_neg Bool.false_ne_true]

end

include ht hu hexcluded hagree hglobs htop

/-- The same source files are found, in some order. -/
theorem sourceFiles_perm :
    (u.entries.filterMap ((i.exclusions t globs).sourceFile? u i.sourceRoot top)).Perm
      (t.entries.filterMap ((i.exclusions t globs).sourceFile? t i.sourceRoot top)) := by
  refine (List.perm_ext_iff_of_nodup (sourceFiles_nodup hu _ _ _) (sourceFiles_nodup ht _ _ _)).mpr fun s => ?_
  -- a source file lies outside, in either tree
  have houtside {v : FileTree} {f : Location × Entry} (hv : v.Listed) (hmem : f ∈ v.entries)
      (hs : (i.exclusions t globs).sourceFile? v i.sourceRoot top f = some s) : ¬ place <+: f.1 := by
    obtain ⟨names, hnames, hadmits, -⟩ := exists_of_sourceFile? hs
    rw [hnames]
    exact hexcluded.not_below_of_admitsAll htop
      (fun name hname => (hv.names f hmem).2 name (hnames ▸ List.mem_append_right _ hname)) hadmits
  rw [List.mem_filterMap, List.mem_filterMap]
  constructor
  · rintro ⟨f, hmem, hs⟩
    have hbelow := houtside hu hmem hs
    have hf : t.get? f.1 = some f.2 := by rw [← hagree.get _ hbelow, hu.get?_of_mem hmem]
    rw [sourceFile_congr ht hexcluded hagree hglobs htop hf hbelow] at hs
    exact ⟨f, mem_of_get? (hu.names f hmem).1 hf, hs⟩
  · rintro ⟨f, hmem, hs⟩
    have hbelow := houtside ht hmem hs
    have hf : t.get? f.1 = some f.2 := ht.get?_of_mem hmem
    rw [← sourceFile_congr ht hexcluded hagree hglobs htop hf hbelow] at hs
    exact ⟨f, mem_of_get? (ht.names f hmem).1 (by rw [hagree.get _ hbelow, hf]), hs⟩

end Agree

/-! ## The same fingerprint

  The configuration and the files are the same, and so is the stream. -/

section Main

variable (ht : t.Listed) (hu : u.Listed) (hexcluded : i.Excludes t place) (hagree : AgreeOutside place t u)

include ht hu hexcluded hagree

theorem files_congr : i.files u = i.files t := by
  -- each step of the walk gives the same in both trees: the root, the globs, the order
  have hroot := hexcluded.apart _ .root
  rw [StalenessInputs.files, StalenessInputs.files, hagree.isDirectory hroot]
  by_cases hdir : t.isDirectory i.sourceRoot = true
  · rw [if_pos hdir, if_pos hdir]
    cases hglobs : i.overrides with
    | error e => rfl
    | ok globs =>
      show Except.ok (Exclusions.sourceFiles _ u i.sourceRoot) = Except.ok (Exclusions.sourceFiles _ t i.sourceRoot)
      rw [Exclusions.sourceFiles, Exclusions.sourceFiles, hagree.locate hroot]
      cases htop : t.locate i.sourceRoot true with
      | error e => rfl
      | ok top =>
        rw [exclusions_congr hexcluded hagree hglobs htop]
        exact congrArg Except.ok (SourceFile.mergeSort_eq_of_perm (sourceFiles_perm ht hu hexcluded hagree hglobs htop)
          fun a ha b hb hpaths => sourceFile_inj ht ha hb hpaths)
  · rw [if_neg hdir, if_neg hdir]

omit ht hu hexcluded in
/-- The configuration is the same if it is not reached over the location. -/
theorem config_congr (hconfig : ∀ loc ∈ t.way i.configFile, ¬ place <+: loc) : i.config u = i.config t := by
  rw [StalenessInputs.config, StalenessInputs.config, hagree.read hconfig]

end Main

/-! ## Trees without links

  Without links a path leads to the names that it is made of.  So what is asked outside lies outside, and the
  hypothesis on the asked files can be left out. -/

section Plain

variable {e : Path} {more : List String}

/-- The names under which ignore files are looked for. -/
def ignoreNames : List String := [".ignore", ".gitignore", ".git"]

/-- Names that an ignore file lies over, below the names of its directory. -/
def askedNames : List (List String) := [[".ignore"], [".gitignore"], [".git"], [".git", "info", "exclude"]]

/-- Names that no ignore file has do not lead from a directory outside to one of its ignore files. -/
theorem not_prefix_append_asked (hnames : ∀ name ∈ names, name ∉ ignoreNames) (hmore : more ∈ askedNames)
    {outer : List String} (houter : ¬ names <+: outer) : ¬ names <+: outer ++ more := by
  intro hprefix
  rcases List.prefix_or_prefix_of_prefix hprefix (List.prefix_append outer more) with hshort | ⟨rest, rfl⟩
  · exact houter hshort
  · rw [List.prefix_append_right_inj] at hprefix
    cases rest with
    | nil =>
      rw [List.append_nil] at houter
      exact houter (List.prefix_refl _)
    | cons name rest =>
      -- the first name below the directory is that of an ignore file
      have hfirst : ∀ more ∈ askedNames, ∃ name ∈ ignoreNames, more.head? = some name := by decide
      obtain ⟨first, hignore, hhead⟩ := hfirst more hmore
      obtain ⟨last, rfl⟩ := hprefix
      obtain rfl : name = first := Option.some.inj hhead
      exact hnames name (List.mem_append_right _ List.mem_cons_self) hignore

/-- What is not a file has no first line. -/
theorem not_file {loc : Location} (hloc : t.locate p true = .ok loc)
    (hfile : ∀ content mode, t.get? loc ≠ some (.file content mode)) :
    t.isFile p = false ∧ firstLine? t p = none := by
  rw [FileTree.isFile, firstLine?, FileTree.read]
  cases hentry : t.get? loc with
  | none =>
    rw [find?_of_missing hloc hentry]
    exact ⟨rfl, rfl⟩
  | some entry =>
    rw [find?_of_entry hloc hentry]
    cases entry with
    | file content mode => exact absurd hentry (hfile content mode)
    | link target => exact ⟨rfl, rfl⟩
    | directory => exact ⟨rfl, rfl⟩

/-- The excludes of a repository lie two directories down. -/
theorem join_exclude {name : String} (h : EntryName name) :
    (p.child name).join ⟨"info/exclude"⟩ = ((p.child name).child "info").child "exclude" := by
  have hinfo : (p.child name).child "info" = ⟨(p.child name).text ++ "/" ++ "info"⟩ :=
    Path.join_of_child h (Path.isAbsolute_name (by decide))
  have hexclude : ((p.child name).child "info").child "exclude" =
      ⟨((p.child name).child "info").text ++ "/" ++ "exclude"⟩ :=
    Path.join_of_child (by decide) (Path.isAbsolute_name (by decide))
  rw [Path.join_of_child h (Path.isAbsolute_of_head (by decide)), hexclude, hinfo]
  refine congrArg Path.mk ?_
  show _ ++ "/" ++ "info/exclude" = _ ++ "/" ++ "info" ++ "/" ++ "exclude"
  rw [show "info/exclude" = "info" ++ ("/" ++ "exclude") from rfl]
  simp only [String.append_assoc]

/-- Where `.git` is neither a file nor a link, the ignore files of a directory lie over these names. -/
theorem exists_of_mem_asked {dir : Path} {loc : Location} (hloc : t.locate dir true = .ok loc)
    (hdir : t.get? loc = some .directory) (hfile : ∀ content mode, t.get? (loc ++ [".git"]) ≠ some (.file content mode))
    (hlink : ∀ target, t.get? (loc ++ [".git"]) ≠ some (.link target)) (hp : p ∈ asked t dir) :
    ∃ more ∈ askedNames, p = more.foldl Path.child dir := by
  have hname : EntryName ".git" := by decide
  obtain ⟨hnofile, hnoline⟩ := not_file (locate_child hname hloc hdir hlink) hfile
  have hpointed : pointed? t dir = none := by
    rw [pointed?, hnoline]
    rfl
  have hrepository : repository? t dir = some (dir.child ".git") := by
    rw [repository?, hnofile]
    rfl
  -- there are four such names when `.git` is a plain directory or nothing
  rw [asked, hpointed, hrepository] at hp
  have hp : p = dir.child ".ignore" ∨ p = dir.child ".gitignore" ∨ p = dir.child ".git" ∨
      p = (dir.child ".git").join ⟨"info/exclude"⟩ := by simpa using hp
  rcases hp with rfl | rfl | rfl | rfl
  · exact ⟨[".ignore"], by decide, rfl⟩
  · exact ⟨[".gitignore"], by decide, rfl⟩
  · exact ⟨[".git"], by decide, rfl⟩
  · exact ⟨[".git", "info", "exclude"], by decide, join_exclude hname⟩

/-- **In a tree without links a path is excluded by its names**: what is asked outside lies outside, if outside there are
    no links and no files `.git`, none of the names is that of an ignore file, and neither the source root nor what is
    asked for the user's rules is reached over the location. -/
theorem excludes_of_plain (ht : t.Listed) (he : e ∈ i.resolvedExclusions) (hne : names ≠ [])
    (hcomponents : e.components = i.sourceRoot.components ++ names.map .normal)
    (htop : t.locate i.sourceRoot true = .ok top) (hroot : ∀ loc ∈ t.way i.sourceRoot, ¬ top ++ names <+: loc)
    (hlinks : ∀ loc target, t.get? loc = some (.link target) → top ++ names <+: loc)
    (hgit : ∀ loc content mode, t.get? (loc ++ [".git"]) = some (.file content mode) → top ++ names <+: loc)
    (hnames : ∀ name ∈ names, name ∉ ignoreNames)
    (huser : ∀ p ∈ UserRules.asked t, ∀ loc ∈ t.way p, ¬ top ++ names <+: loc) : i.Excludes t (top ++ names) := by
  have hplace (top' : Location) (htop' : t.locate i.sourceRoot true = .ok top') : top' = top := by
    rw [htop] at htop'
    exact (Except.ok.inj htop').symm
  refine ⟨⟨e, he, names, hne, hcomponents, fun top' htop' => by rw [hplace top' htop']⟩, fun p hp => ?_⟩
  -- hypotheses speak of the root and of the user's files, which leaves what is below a directory of the walk
  cases hp with
  | root => exact hroot
  | user _ _ hp => exact huser p hp
  | @rules globs top' outer p hglobs htop' hdir houter hp =>
    obtain rfl := hplace top' htop'
    have hentry : ∀ name ∈ outer, EntryName name := fun name hname =>
      ht.entryName hdir name (List.mem_append_right _ hname)
    have hdirs : t.DirectoriesTo top' outer := ht.tree.directoriesTo hdir
    have hout : ¬ names <+: outer := fun hbelow => by
      rw [Exclusions.admitsAll_of_below he hentry hcomponents hne hbelow] at houter
      cases houter
    have hloc := locate_foldl_child hentry hdirs (by rw [hdir]; nofun) htop
    have hnot (before more : List String) (hmore : more ∈ askedNames) (hbefore : before <+: outer ++ more) :
        ¬ top' ++ names <+: top' ++ before := fun hbelow =>
      not_prefix_append_asked hnames hmore hout (((List.prefix_append_right_inj top').mp hbelow).trans hbefore)
    have hgitEntry : ¬ top' ++ names <+: top' ++ outer ++ [".git"] := by
      rw [List.append_assoc]
      exact hnot (outer ++ [".git"]) [".git"] (by decide) (List.prefix_refl _)
    obtain ⟨more, hmore, rfl⟩ := exists_of_mem_asked hloc hdir
      (fun content mode hfile => hgitEntry ((hgit _ content mode hfile).trans (List.prefix_append _ _)))
      (fun target hlink => hgitEntry (hlinks _ target hlink)) hp
    have hmoreEntry : ∀ more ∈ askedNames, ∀ name ∈ more, EntryName name := by decide
    have htopDir : t.get? top' = some .directory := by
      by_cases hnil : outer = []
      · rwa [hnil, List.append_nil] at hdir
      · have hfirst := hdirs [] List.nil_prefix (Ne.symm hnil)
        rwa [List.append_nil] at hfirst
    intro loc hway hbelow
    -- such a path leads through the way to the root or through the directories below it
    rw [← List.foldl_append] at hway
    rcases exists_of_mem_way_foldl_child
      (fun name hname => (List.mem_append.mp hname).elim (hentry name) (hmoreEntry more hmore name)) htop htopDir
      (fun before target hbefore hlink => hnot before more hmore hbefore (hlinks _ target hlink)) hway with
      hway | ⟨before, hbefore, rfl⟩
    · exact hroot loc hway hbelow
    · exact hnot before more hmore hbefore hbelow

end Plain

/-! ## Outputs of stages

  The directories that stages write to are excluded by the stages themselves. -/

/-- What is joined to an absolute path is absolute. -/
theorem isAbsolute_join {root other : Path} (h : root.isAbsolute = true) : (root.join other).isAbsolute = true := by
  rw [Path.isAbsolute, String.startsWith_string_iff] at h
  have hstart (rest : String) : "/".toList <+: (root.text ++ rest).toList := by
    rw [String.toList_append]
    exact h.trans (List.prefix_append _ _)
  rw [Path.join]
  split
  · assumption
  · rw [Path.isAbsolute, String.startsWith_string_iff]
    split
    · exact hstart _
    · dsimp only
      rw [String.append_assoc]
      exact hstart _

/-- **The environment and the build directory of a project are excluded from the inputs of its stages**, if the path of
    the project starts at the root. -/
theorem mem_resolvedExclusions_of_stage (c : TargetConfig) (project : Project) (b : Backend)
    (hroot : project.root.isAbsolute = true) {dir : Path}
    (hdir : dir ∈ [TargetStages.environment c project.root, b.builddir project.root]) :
    dir ∈ (TargetStages.inputs c project b).resolvedExclusions := by
  have habsolute : dir.isAbsolute = true := by
    rcases List.mem_cons.mp hdir with rfl | hdir
    · exact isAbsolute_join hroot
    · rw [List.mem_singleton.mp hdir]
      exact isAbsolute_join hroot
  exact List.mem_map.mpr ⟨dir, hdir, if_pos habsolute⟩

/-- A project with one source file. -/
def unbuilt : FileTree where
  entries := [(["p"], .directory), (["p", "pyproject.toml"], .file (Utf8.encode "A") .plain),
    (["p", "a.py"], .file (Utf8.encode "B") .plain)]

/-- The project with a build directory, listed in another order. -/
def built : FileTree where
  entries := [(["p", "dist", "a.whl"], .file (Utf8.encode "C") .plain), (["p", "a.py"], .file (Utf8.encode "B") .plain),
    (["p", "dist"], .directory), (["p", "pyproject.toml"], .file (Utf8.encode "A") .plain), (["p"], .directory)]

/-- The inputs of the stages of the project. -/
def stageInputs : StalenessInputs :=
  TargetStages.inputs { projectFile := ⟨"/p/pyproject.toml"⟩ }
    { path := ⟨"/p/pyproject.toml"⟩, buildBackend := "setuptools.build_meta", requires := [], backendPath := [],
      name := none, version := none } .pypaBuild

/-- A source directory that leaves out what its build directory says. -/
def linkedInputs : StalenessInputs := { configFile := ⟨"/p/conf"⟩, sourceRoot := ⟨"/p/src"⟩, excluded := [⟨"dist"⟩] }

/-- The ignore file of the source directory is a link to a file in the build directory, which holds `rules`. -/
def linked (rules : String) : FileTree where
  entries := [(["p"], .directory), (["p", "conf"], .file (Utf8.encode "A") .plain), (["p", "src"], .directory),
    (["p", "src", "a"], .file (Utf8.encode "B") .plain), (["p", "src", "dist"], .directory),
    (["p", "src", "dist", "rules"], .file (Utf8.encode rules) .plain),
    (["p", "src", ".gitignore"], .link "dist/rules")]

/-- Both trees are listed. -/
theorem linked_listed : (linked "a\n").Listed ∧ (linked "b\n").Listed :=
  ⟨listed_of_entries (by with_unfolding_all decide) (by with_unfolding_all decide) (by with_unfolding_all decide),
    listed_of_entries (by with_unfolding_all decide) (by with_unfolding_all decide) (by with_unfolding_all decide)⟩

/-- A user whose home is the source directory, so that their ignore file lies below `.config` in it. -/
def housed (rules : String) : FileTree where
  user := { home := some ⟨"/p/src"⟩ }
  entries := [(["p"], .directory), (["p", "conf"], .file (Utf8.encode "A") .plain), (["p", "src"], .directory),
    (["p", "src", "a"], .file (Utf8.encode "B") .plain), (["p", "src", ".config"], .directory),
    (["p", "src", ".config", "git"], .directory),
    (["p", "src", ".config", "git", "ignore"], .file (Utf8.encode rules) .plain)]

/-- The ignore file of the user is seen as well when it lies below an excluded path. -/
example : ["a\n", "b\n"].map (fun rules =>
      (({ linkedInputs with excluded := [⟨".config"⟩] } : StalenessInputs).files (housed rules)).toOption.map
        (·.map SourceFile.relative)) = [some [], some ["a"]] := by decide +kernel

end StalenessInputs

end Wheelwright
