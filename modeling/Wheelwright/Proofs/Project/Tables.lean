/-
  Tables — which tables describe a project, and what is wrong with the others.

  **Specification** — a table describes a project (`Describes`) if its build system is a table, names a backend and lists
  nothing but strings, and if the backend's paths stay inside the project.  Of any other table it is told which of these
  conditions is the first that fails (`Faulty`).

  **Program** — `ofTable` looks for one thing after the other and stops at the first that it does not find.

  **The crux** — a table describes a project or is faulty (`describes_or_faulty`), and each of the two fixes the answer
  (`ofTable_of_describes`, `ofTable_of_faulty`).  So there is no table that both could be said of.
-/
import Wheelwright.Proofs.Path.Inside

namespace Wheelwright

open Toml (Entries Value)

/-! ## What lies under a key

  A key may have nothing, a value of the kind that is asked for, or a value of another kind.  The three cases are told
  apart here and not below. -/

namespace Toml

variable {t entries : Entries} {key s : String} {strings : List String} {items : List Value}

/-- A table lies under the key. -/
def HasTable (t : Entries) (key : String) (entries : Entries) : Prop :=
  ∃ mark, t.lookup key = some (.table mark entries)

/-- A string lies under the key. -/
def HasString (t : Entries) (key s : String) : Prop := t.lookup key = some (.string s)

/-- Nothing lies under the key, or an array of strings only. -/
inductive HasStrings (t : Entries) (key : String) : List String → Prop
  /-- A missing key stands for no strings. -/
  | absent (h : t.lookup key = none) : HasStrings t key []
  /-- An array of strings stands for them. -/
  | array {v : Value} {strings : List String} (h : t.lookup key = some v)
      (hitems : v.array? = some (strings.map .string)) : HasStrings t key strings

/-- A table stands under a key exactly if it is found there. -/
theorem bind_table?_iff : (t.lookup key).bind Value.table? = some entries ↔ HasTable t key entries := by
  rw [Option.bind_eq_some_iff]
  constructor
  · rintro ⟨v, hv, htable⟩
    cases v with
    | table mark found =>
      cases htable
      exact ⟨mark, hv⟩
    | _ => cases htable
  · rintro ⟨mark, h⟩
    exact ⟨_, h, rfl⟩

/-- So does a string. -/
theorem bind_string?_iff : (t.lookup key).bind Value.string? = some s ↔ HasString t key s := by
  rw [Option.bind_eq_some_iff]
  constructor
  · rintro ⟨v, hv, hstring⟩
    cases v with
    | string found =>
      cases hstring
      exact hv
    | _ => cases hstring
  · intro h
    exact ⟨_, h, rfl⟩

/-- Strings alone are taken from the items. -/
theorem mapM_string?_iff : items.mapM Value.string? = some strings ↔ items = strings.map .string := by
  induction items generalizing strings with
  | nil =>
    cases strings with
    | nil => exact iff_of_true rfl rfl
    | cons s rest => exact iff_of_false nofun nofun
  | cons v rest ih =>
    rw [List.mapM_cons, Option.bind_eq_bind, Option.bind_eq_some_iff]
    constructor
    · rintro ⟨s, hs, h⟩
      obtain ⟨more, hmore, h⟩ := Option.bind_eq_some_iff.mp h
      cases h
      cases v with
      | string found =>
        cases hs
        rw [ih.mp hmore, List.map_cons]
      | _ => cases hs
    · intro h
      cases strings with
      | nil => cases h
      | cons s more =>
        obtain ⟨rfl, hmore⟩ := List.cons.inj h
        exact ⟨s, rfl, by rw [ih.mpr hmore]; rfl⟩

end Toml

open Toml (HasTable HasString HasStrings)

namespace Project

variable {t : Entries} {file : Path} {p : Project} {key raw : String} {strings raws : List String}
  {paths : List Path} {e : BuildError}

/-! ## Parts of a table

  Lists of strings, and paths that have to stay inside the project.  The first item that is at fault is the one that
  is told. -/

/-- A list of strings is read exactly if it is there, or nothing is. -/
theorem stringList_eq_ok_iff : stringList key t = .ok strings ↔ HasStrings t key strings := by
  rw [stringList]
  -- nothing under the key, or an array of which each item is a string
  constructor
  · intro h
    split at h
    · cases h
      exact .absent ‹_›
    · rename_i v hv
      split at h
      · rename_i found hfound
        cases h
        obtain ⟨items, hitems, hstrings⟩ := Option.bind_eq_some_iff.mp hfound
        exact .array hv (hitems.trans (congrArg some (Toml.mapM_string?_iff.mp hstrings)))
      · cases h
  · intro h
    cases h with
    | absent h => rw [h]
    | array h hitems =>
      rw [h]
      dsimp only
      rw [hitems, Option.bind_some, Toml.mapM_string?_iff.mpr rfl]

/-- Anything else is an error that names the key. -/
theorem stringList_eq_error (h : ∀ strings, ¬ HasStrings t key strings) :
    stringList key t = .error (.notPep517 (key ++ " must be a list of strings")) := by
  cases hlist : stringList key t with
  | ok strings => exact absurd (stringList_eq_ok_iff.mp hlist) (h strings)
  | error e =>
    rw [stringList] at hlist
    split at hlist
    · cases hlist
    · split at hlist
      · cases hlist
      · exact hlist.symm

/-- The text names something below the directory that it is seen from: it has no root and leads up nowhere. -/
def StaysInside (raw : String) : Prop := ∀ c ∈ Path.components ⟨raw⟩, Path.Keeps c

instance (raw : String) : Decidable (StaysInside raw) :=
  inferInstanceAs (Decidable (∀ c ∈ Path.components ⟨raw⟩, c ≠ .root ∧ c ≠ .parent))

/-- What is said of a path that leaves the project. -/
def leavingText (raw : String) : String := "backend-path '" ++ raw ++ "' must stay inside the project root"

/-- A path that stays inside is taken as it is. -/
theorem containedPath_of_staysInside (h : StaysInside raw) : containedPath raw = .ok ⟨raw⟩ := by
  rw [containedPath, leavesRoot_eq_false_iff.mpr h, if_neg Bool.false_ne_true]

/-- One that leaves is an error. -/
theorem containedPath_of_not (h : ¬ StaysInside raw) : containedPath raw = .error (.notPep517 (leavingText raw)) := by
  rw [containedPath, if_pos]
  · rfl
  · rw [← Bool.not_eq_false]
    exact mt leavesRoot_eq_false_iff.mp h

/-- So paths that all stay inside are all taken. -/
theorem mapM_containedPath (h : ∀ raw ∈ raws, StaysInside raw) : raws.mapM containedPath = .ok (raws.map Path.mk) := by
  induction raws with
  | nil => rfl
  | cons raw rest ih =>
    rw [List.mapM_cons, containedPath_of_staysInside (h raw List.mem_cons_self),
      ih fun raw hraw => h raw (List.mem_cons_of_mem _ hraw)]
    rfl

/-- The first path that leaves the project is told. -/
theorem mapM_containedPath_of_leaving {before after : List String} (hbefore : ∀ raw ∈ before, StaysInside raw)
    (h : ¬ StaysInside raw) : (before ++ raw :: after).mapM containedPath = .error (.notPep517 (leavingText raw)) := by
  rw [List.mapM_append, mapM_containedPath hbefore, List.mapM_cons, containedPath_of_not h]
  rfl

/-! ## What tables say

  The two sides of the verdict, both of them relations on tables and without any order of evaluation in them but that
  of the faults. -/

/-- The build system of a table: its backend, what that requires, and where it lies. -/
structure HasSystem (t : Entries) (backend : String) (requires raws : List String) : Prop where
  /-- The table, with its three keys. -/
  table : ∃ system, HasTable t "build-system" system ∧ HasString system "build-backend" backend ∧
    HasStrings system "requires" requires ∧ HasStrings system "backend-path" raws
  /-- Its paths do not leave the root. -/
  inside : ∀ raw ∈ raws, StaysInside raw

/-- A string of the project's own table. -/
def Tells (t : Entries) (key s : String) : Prop := ∃ entries, HasTable t "project" entries ∧ HasString entries key s

/-- The table describes the project. -/
structure Describes (t : Entries) (p : Project) : Prop where
  /-- What the build system says. -/
  system : ∃ raws, HasSystem t p.buildBackend p.requires raws ∧ p.backendPath = raws.map Path.mk
  /-- What the project says of itself. -/
  name : ∀ s, p.name = some s ↔ Tells t "name" s
  version : ∀ s, p.version = some s ↔ Tells t "version" s

/-- The first condition that fails, by what is said of it. -/
inductive Faulty (t : Entries) : String → Prop
  /-- The keys in the order in which they are looked at, each fault with those before it in order. -/
  | system (h : ∀ system, ¬ HasTable t "build-system" system) : Faulty t "missing [build-system] table"
  | backend {system : Entries} (hsystem : HasTable t "build-system" system)
      (h : ∀ backend, ¬ HasString system "build-backend" backend) : Faulty t "missing build-backend key"
  | requires {system : Entries} {backend : String} (hsystem : HasTable t "build-system" system)
      (hbackend : HasString system "build-backend" backend) (h : ∀ requires, ¬ HasStrings system "requires" requires) :
      Faulty t "requires must be a list of strings"
  | backendPath {system : Entries} {backend : String} {requires : List String}
      (hsystem : HasTable t "build-system" system) (hbackend : HasString system "build-backend" backend)
      (hrequires : HasStrings system "requires" requires) (h : ∀ raws, ¬ HasStrings system "backend-path" raws) :
      Faulty t "backend-path must be a list of strings"
  | leaving {system : Entries} {backend raw : String} {requires before after : List String}
      (hsystem : HasTable t "build-system" system) (hbackend : HasString system "build-backend" backend)
      (hrequires : HasStrings system "requires" requires)
      (hraws : HasStrings system "backend-path" (before ++ raw :: after)) (hbefore : ∀ raw ∈ before, StaysInside raw)
      (h : ¬ StaysInside raw) : Faulty t (leavingText raw)

/-- The string that the project's own table has under a key. -/
def told (t : Entries) (key : String) : Option String :=
  ((t.lookup "project").bind Value.table?).bind fun project => (project.lookup key).bind Value.string?

/-- A string is told exactly if the table tells it. -/
theorem told_iff {s : String} : told t key = some s ↔ Tells t key s := by
  rw [told, Option.bind_eq_some_iff]
  exact exists_congr fun entries => and_congr Toml.bind_table?_iff Toml.bind_string?_iff

/-! ## Every table has one answer

  Every table is of one of the two kinds, and for each kind the answer is known.  So both answers are told by an iff. -/

/-- A table with a build system and a backend is read on. -/
theorem ofTable_of_backend {system : Entries} {backend : String} (hsystem : HasTable t "build-system" system)
    (hbackend : HasString system "build-backend" backend) : ofTable file t = do
      let requires ← stringList "requires" system
      let backendPath ← (← stringList "backend-path" system).mapM containedPath
      return {
        path := file, buildBackend := backend, requires, backendPath
        name := told t "name"
        version := told t "version" } := by
  rw [ofTable, Toml.bind_table?_iff.mpr hsystem]
  dsimp only
  rw [Toml.bind_string?_iff.mpr hbackend]
  rfl

/-- A table that describes a project is read as that project. -/
theorem ofTable_of_describes (h : Describes t p) : ofTable p.path t = .ok p := by
  obtain ⟨raws, ⟨⟨system, hsystem, hbackend, hrequires, hraws⟩, hinside⟩, hpaths⟩ := h.system
  have hname : told t "name" = p.name := Option.ext fun s => told_iff.trans (h.name s).symm
  have hversion : told t "version" = p.version := Option.ext fun s => told_iff.trans (h.version s).symm
  rw [ofTable_of_backend hsystem hbackend, stringList_eq_ok_iff.mpr hrequires, stringList_eq_ok_iff.mpr hraws, hname,
    hversion]
  show (raws.mapM containedPath >>= fun paths => Except.ok { p with backendPath := paths }) = _
  rw [mapM_containedPath hinside, ← hpaths]
  rfl

/-- A table with a fault is refused with its message. -/
theorem ofTable_of_faulty {m : String} (h : Faulty t m) : ofTable file t = .error (.notPep517 m) := by
  -- what was read before the fault is as it should be, and then the reading ends
  cases h with
  | system h =>
    have hnone : (t.lookup "build-system").bind Value.table? = none :=
      Option.eq_none_iff_forall_ne_some.mpr fun system hsystem => h system (Toml.bind_table?_iff.mp hsystem)
    rw [ofTable, hnone]
    rfl
  | @backend system hsystem h =>
    have hnone : (system.lookup "build-backend").bind Value.string? = none :=
      Option.eq_none_iff_forall_ne_some.mpr fun backend hbackend => h backend (Toml.bind_string?_iff.mp hbackend)
    rw [ofTable, Toml.bind_table?_iff.mpr hsystem]
    dsimp only
    rw [hnone]
    rfl
  | requires hsystem hbackend h =>
    rw [ofTable_of_backend hsystem hbackend, stringList_eq_error h]
    rfl
  | backendPath hsystem hbackend hrequires h =>
    rw [ofTable_of_backend hsystem hbackend, stringList_eq_ok_iff.mpr hrequires, stringList_eq_error h]
    rfl
  | @leaving system backend raw requires before after hsystem hbackend hrequires hraws hbefore h =>
    rw [ofTable_of_backend hsystem hbackend, stringList_eq_ok_iff.mpr hrequires, stringList_eq_ok_iff.mpr hraws]
    show ((before ++ raw :: after).mapM containedPath >>= _) = _
    rw [mapM_containedPath_of_leaving hbefore h]
    rfl

/-- In a list there is a first path that leaves the project, or none. -/
theorem exists_leaving (raws : List String) : (∀ raw ∈ raws, StaysInside raw) ∨
    ∃ before raw after, raws = before ++ raw :: after ∧ (∀ raw ∈ before, StaysInside raw) ∧ ¬ StaysInside raw := by
  induction raws with
  | nil => exact Or.inl nofun
  | cons raw rest ih =>
    by_cases hraw : StaysInside raw
    · rcases ih with hrest | ⟨before, first, after, rfl, hbefore, hfirst⟩
      · exact Or.inl (List.forall_mem_cons.mpr ⟨hraw, hrest⟩)
      · exact Or.inr ⟨raw :: before, first, after, rfl, List.forall_mem_cons.mpr ⟨hraw, hbefore⟩, hfirst⟩
    · exact Or.inr ⟨[], raw, rest, rfl, nofun, hraw⟩

/-- A build system is one of a project. -/
theorem exists_describes {backend : String} {requires : List String} (file : Path)
    (h : HasSystem t backend requires raws) : ∃ p, p.path = file ∧ Describes t p := by
  let p : Project := {
    path := file, buildBackend := backend, requires, backendPath := raws.map Path.mk
    name := told t "name", version := told t "version" }
  exact ⟨p, rfl, ⟨raws, h, rfl⟩, fun _ => told_iff, fun _ => told_iff⟩

/-- **A table describes one project, or one condition is the first that it fails.** -/
theorem describes_or_faulty (file : Path) (t : Entries) :
    (∃ p, p.path = file ∧ Describes t p) ∨ ∃ m, Faulty t m := by
  -- the conditions in the order in which they are looked at, the first that fails being the fault
  by_cases hsystem : ∃ system, HasTable t "build-system" system
  · obtain ⟨system, hsystem⟩ := hsystem
    by_cases hbackend : ∃ backend, HasString system "build-backend" backend
    · obtain ⟨backend, hbackend⟩ := hbackend
      by_cases hrequires : ∃ requires, HasStrings system "requires" requires
      · obtain ⟨requires, hrequires⟩ := hrequires
        by_cases hraws : ∃ raws, HasStrings system "backend-path" raws
        · obtain ⟨raws, hraws⟩ := hraws
          rcases exists_leaving raws with hinside | ⟨before, raw, after, rfl, hbefore, hraw⟩
          · exact Or.inl (exists_describes file ⟨⟨system, hsystem, hbackend, hrequires, hraws⟩, hinside⟩)
          · exact Or.inr ⟨_, .leaving hsystem hbackend hrequires hraws hbefore hraw⟩
        · exact Or.inr ⟨_, .backendPath hsystem hbackend hrequires (not_exists.mp hraws)⟩
      · exact Or.inr ⟨_, .requires hsystem hbackend (not_exists.mp hrequires)⟩
    · exact Or.inr ⟨_, .backend hsystem (not_exists.mp hbackend)⟩
  · exact Or.inr ⟨_, .system (not_exists.mp hsystem)⟩

/-- The projects that are read are those described. -/
theorem ofTable_eq_ok_iff : ofTable file t = .ok p ↔ p.path = file ∧ Describes t p := by
  constructor
  · intro h
    rcases describes_or_faulty file t with ⟨q, rfl, hq⟩ | ⟨m, hm⟩
    · rw [ofTable_of_describes hq] at h
      cases h
      exact ⟨rfl, hq⟩
    · rw [ofTable_of_faulty hm] at h
      cases h
  · rintro ⟨rfl, h⟩
    exact ofTable_of_describes h

/-- A project has the path of the file that it is loaded from. -/
theorem path_of_load {tree : FileTree} (h : load file tree = .ok p) : p.path = file := by
  rw [load] at h
  split at h
  · rw [parse] at h
    split at h
    · cases h
    · exact (ofTable_eq_ok_iff.mp h).1
  · cases h

/-- The errors are the faults. -/
theorem ofTable_eq_error_iff : ofTable file t = .error e ↔ ∃ m, Faulty t m ∧ e = .notPep517 m := by
  constructor
  · intro h
    rcases describes_or_faulty file t with ⟨q, rfl, hq⟩ | ⟨m, hm⟩
    · rw [ofTable_of_describes hq] at h
      cases h
    · rw [ofTable_of_faulty hm] at h
      cases h
      exact ⟨m, hm, rfl⟩
  · rintro ⟨m, hm, rfl⟩
    exact ofTable_of_faulty hm

/-- A project file with a TOML table is read exactly if its build system is a table that names a backend and lists
    strings only, and whose paths stay inside; what is read is what the table describes, and otherwise the first
    condition that fails is told.  Joined to any root, a path of the backend starts with that root and never leaves it. -/
theorem parse_reads_table {text : String} (h : Toml.parse? text = some t) (file : Path) :
    ((∃ p, parse file text = .ok p) ↔ ∃ backend requires raws, HasSystem t backend requires raws) ∧
    (∀ p, parse file text = .ok p ↔ p.path = file ∧ Describes t p) ∧
    (∀ e, parse file text = .error e ↔ ∃ m, Faulty t m ∧ e = .notPep517 m) ∧
    ∀ p, parse file text = .ok p → ∀ q ∈ p.backendPath, ∀ root, Path.Inside root (root.join q) := by
  have hparse : parse file text = ofTable file t := by rw [parse, h]
  rw [hparse]
  refine ⟨⟨?_, ?_⟩, fun p => ofTable_eq_ok_iff, fun e => ofTable_eq_error_iff, ?_⟩
  · rintro ⟨p, hp⟩
    obtain ⟨raws, hsystem, -⟩ := (ofTable_eq_ok_iff.mp hp).2.system
    exact ⟨_, _, raws, hsystem⟩
  · rintro ⟨backend, requires, raws, hsystem⟩
    obtain ⟨p, hp⟩ := exists_describes file hsystem
    exact ⟨p, ofTable_eq_ok_iff.mpr hp⟩
  · intro p hp q hq root
    obtain ⟨raws, hsystem, hpaths⟩ := (ofTable_eq_ok_iff.mp hp).2.system
    rw [hpaths] at hq
    obtain ⟨raw, hraw, rfl⟩ := List.mem_map.mp hq
    exact Path.inside_join (hsystem.inside raw hraw) root

/-- A project with a backend of its own, whose paths are spelled as they may be. -/
def ownBackendText : String :=
  "[build-system]\nbuild-backend = \"backend\"\nbackend-path = [\"./lib\", \"a//b/\", \"\"]\n\n[project]\nname = 3\n"

/-- A table with its own backend is read as such. -/
theorem parse_reads_table_own_backend : ∃ t, Toml.parse? ownBackendText = some t ∧
    ∃ p, parse ⟨"pyproject.toml"⟩ ownBackendText = .ok p ∧ Describes t p ∧ p.name = none ∧ p.requires = [] ∧
      p.backendPath = [⟨"./lib"⟩, ⟨"a//b/"⟩, ⟨""⟩] ∧
      ∀ q ∈ p.backendPath, Path.Inside ⟨"../srv/."⟩ (Path.join ⟨"../srv/."⟩ q) := by
  obtain ⟨t, ht⟩ : ∃ t, Toml.parse? ownBackendText = some t := ⟨_, rfl⟩
  obtain ⟨-, hdescribes, -, hinside⟩ := parse_reads_table ht ⟨"pyproject.toml"⟩
  let p : Project := {
    path := ⟨"pyproject.toml"⟩, buildBackend := "backend", requires := []
    backendPath := [⟨"./lib"⟩, ⟨"a//b/"⟩, ⟨""⟩], name := none, version := none }
  have hp : parse ⟨"pyproject.toml"⟩ ownBackendText = .ok p := rfl
  exact ⟨t, ht, p, hp, ((hdescribes p).mp hp).2, rfl, rfl, rfl, fun q hq => hinside p hp q hq _⟩

-- of two paths that leave the project the first is told, and neither if the requirements are wrong
example : parse ⟨"p"⟩ "[build-system]\nbuild-backend = \"b\"\nbackend-path = [\"a/..\", \"/c\"]\n" =
    .error (.notPep517 (leavingText "a/..")) := rfl
example : parse ⟨"p"⟩ "[build-system]\nbuild-backend = \"b\"\nrequires = [\"x\", 1]\nbackend-path = [\"..\"]\n" =
    .error (.notPep517 "requires must be a list of strings") := rfl

end Project

end Wheelwright
