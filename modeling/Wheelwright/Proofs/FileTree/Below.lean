/-
  Below a directory — entries found over names, and changes that stay below one location.

  **Specification** — a path with names added leads to the location with these names, if directories lead there
  (`locate_foldl_child`), and on its way nothing is looked at but the way of the path and what lies over the names
  (`exists_of_mem_way_foldl_child`).  Two trees that agree outside a location (`AgreeOutside`) have the same entries there.

  **Program** — a tree is a list of entries, in any order.  It is a listing of a file system if every location stands in
  it once, lies in a directory, and is made of names (`Listed`).
-/
import Wheelwright.Proofs.Path.Children
import Wheelwright.Proofs.Store.Place

namespace Wheelwright.FileTree

open Wheelwright.Path

variable {t u : FileTree} {p : Path} {loc top place : Location} {e : Entry} {name : String} {names : List String}

/-! ## Listings

  A tree is given by a list of entries, and a listing is one as a file system would give it.  In such a list an entry
  is found at its place, and nothing else is. -/

/-- Every location is listed once and lies in a directory, and its names are names of entries. -/
structure Listed (t : FileTree) : Prop where
  /-- Whoever has an entry lies in a directory. -/
  tree : t.IsTree
  /-- No place is listed twice. -/
  once : (t.entries.map Prod.fst).Nodup
  /-- Every place is spelled by names that directories can hold. -/
  names : ∀ f ∈ t.entries, f.1 ≠ [] ∧ ∀ name ∈ f.1, EntryName name

/-- In distinct entries each is found by its place. -/
theorem lookup_of_mem {entries : List (Location × Entry)} (h : (entries.map Prod.fst).Nodup)
    (hmem : (loc, e) ∈ entries) : entries.lookup loc = some e := by
  induction entries with
  | nil => cases hmem
  | cons f rest ih =>
    rw [List.map_cons, List.nodup_cons] at h
    rw [lookup_cons_if]
    rcases List.mem_cons.mp hmem with rfl | hrest
    · exact if_pos rfl
    · have hne : loc ≠ f.1 := fun heq => h.1 (List.mem_map.mpr ⟨_, hrest, heq⟩)
      rw [if_neg hne]
      exact ih h.2 hrest

/-- What is found is among the entries. -/
theorem mem_of_lookup {entries : List (Location × Entry)} (h : entries.lookup loc = some e) : (loc, e) ∈ entries := by
  obtain ⟨start, rest, rfl, -⟩ := List.lookup_eq_some_iff.mp h
  exact List.mem_append_right _ List.mem_cons_self

/-- So is whatever stands at a place other than the root. -/
theorem mem_of_get? (hne : loc ≠ []) (h : t.get? loc = some e) : (loc, e) ∈ t.entries := by
  rw [get?, if_neg hne] at h
  exact mem_of_lookup h

/-- A file is listed, as the root is none. -/
theorem mem_of_file {content : Bytes} {mode : Mode} (h : t.get? loc = some (.file content mode)) :
    (loc, .file content mode) ∈ t.entries :=
  mem_of_get? (fun hnil => by
    rw [hnil] at h
    cases h) h

/-- Entries that lie in directories make a tree. -/
theorem listed_of_entries (hdirs : ∀ f ∈ t.entries, t.get? f.1.dropLast = some .directory)
    (honce : (t.entries.map Prod.fst).Nodup) (hnames : ∀ f ∈ t.entries, f.1 ≠ [] ∧ ∀ name ∈ f.1, EntryName name) :
    t.Listed := by
  refine ⟨fun loc name e hentry => ?_, honce, hnames⟩
  have hne : loc ++ [name] ≠ [] := List.append_ne_nil_of_right_ne_nil _ (List.cons_ne_nil _ _)
  have hdir := hdirs _ (mem_of_get? hne hentry)
  rwa [List.dropLast_concat] at hdir

namespace Listed

/-- A listed entry stands at its place. -/
theorem get?_of_mem (h : t.Listed) (hmem : (loc, e) ∈ t.entries) : t.get? loc = some e := by
  rw [get?, if_neg (h.names _ hmem).1]
  exact lookup_of_mem h.once hmem

/-- The place of an entry is spelled by entry names. -/
theorem entryName (h : t.Listed) (hentry : t.get? loc = some e) : ∀ name ∈ loc, EntryName name := by
  by_cases hne : loc = []
  · rw [hne]
    nofun
  · exact (h.names _ (mem_of_get? hne hentry)).2

end Listed

/-! ## Directories on the way to an entry

  To get to an entry over names, each name before the last has to be a directory.  In a tree that follows from the
  entry being there. -/

/-- There are directories on the way from a location over names, before the last of them. -/
def DirectoriesTo (t : FileTree) (loc : Location) (names : List String) : Prop :=
  ∀ before, before <+: names → before ≠ names → t.get? (loc ++ before) = some .directory

/-- All that lies above an entry is a directory. -/
theorem IsTree.directoriesTo (h : t.IsTree) (hentry : t.get? (loc ++ names) = some e) : t.DirectoriesTo loc names := by
  rintro before ⟨rest, rfl⟩ hne
  refine Decidable.byContradiction fun hdir => ?_
  rw [← List.append_assoc, h.get?_below hdir rest fun hnil => hne (by rw [hnil, List.append_nil])] at hentry
  cases hentry

namespace DirectoriesTo

/-- The first of the directories is where the names begin. -/
theorem first (h : t.DirectoriesTo loc (name :: names)) : t.get? loc = some .directory := by
  rw [← List.append_nil loc]
  exact h [] List.nil_prefix (List.cons_ne_nil _ _).symm

/-- The others lie on the way of the names that are left. -/
theorem rest (h : t.DirectoriesTo loc (name :: names)) : t.DirectoriesTo (loc ++ [name]) names := by
  intro before hbefore hne
  rw [List.append_assoc]
  exact h (name :: before) (List.cons_prefix_cons.mpr ⟨rfl, hbefore⟩) fun heq => hne (List.cons.inj heq).2

/-- The first entry on the way is not a link if the last one is not. -/
theorem not_link (h : t.DirectoriesTo loc (name :: names))
    (hlink : ∀ target, t.get? (loc ++ name :: names) ≠ some (.link target)) :
    ∀ target, t.get? (loc ++ [name]) ≠ some (.link target) := by
  intro target htarget
  cases names with
  | nil => exact hlink target htarget
  | cons next more =>
    rw [h.rest.first] at htarget
    cases htarget

end DirectoriesTo

/-! ## Where names lead

  A path with names added is walked in two parts, to the directory that the path is, and then over the names.  None of
  the names may be a link on the way, which is so as there are directories. -/

/-- The pieces of a directory's path, without an empty one at the end, reach it. -/
theorem reaches_of_front {front : List String} (hfront : front ≠ [])
    (hpieces : piecesOf '/' p.text = front ∨ piecesOf '/' p.text = front ++ [""]) (hloc : t.locate p true = .ok loc)
    (hdir : t.get? loc = some .directory) : ∃ k, t.Reaches linkLimit (t.startOf front) front k loc := by
  obtain ⟨hspell, m, middle, hreach⟩ := reaches_of_isDirectory (isDirectory_iff.mpr ⟨loc, hloc, hdir⟩)
  have hmiddle : walk t true (linkLimit + 1) (t.startOf (piecesOf '/' p.text)) (piecesOf '/' p.text ++ []) = .ok middle :=
    hreach.walk_eq (Or.inr rfl)
  rw [List.append_nil, ← hspell.locate, hloc] at hmiddle
  cases hmiddle
  -- a slash at the end adds an idle piece, which is walked without a move
  rcases hpieces with hpieces | hpieces
  · exact ⟨m, hpieces ▸ hreach⟩
  · rw [hpieces, startOf_append (Or.inl hfront)] at hreach
    obtain ⟨k, middle, hreach', hend⟩ := hreach.of_append
    rw [walk_idle hreach'.last rfl] at hend
    cases hend
    exact ⟨k, hreach'⟩

/-- The pieces of a child reach the directory that its name lies in. -/
theorem exists_reaches_child (hname : EntryName name) (hloc : t.locate p true = .ok loc)
    (hdir : t.get? loc = some .directory) : Spellable (p.child name) ∧ ∃ front k, front ≠ [] ∧
      piecesOf '/' (p.child name).text = front ++ [name] ∧ t.Reaches linkLimit (t.startOf front) front k loc := by
  have hspell := spellable_of_locate hloc
  obtain ⟨front, hfront, hpieces, hchild⟩ := exists_piecesOf_child hname hspell.text
  obtain ⟨k, hreach⟩ := reaches_of_front hfront hpieces hloc hdir
  have hnul : Char.ofNat 0 ∉ (p.child name).text.toList :=
    nul_notMem_child hname fun hmem => by
      have hnone := hspell.nul
      rw [List.contains_iff_mem.mpr hmem] at hnone
      cases hnone
  have hspell' : Spellable (p.child name) :=
    ⟨text_child_ne hname, Bool.eq_false_iff.mpr fun hmem => hnul (List.contains_iff_mem.mp hmem)⟩
  exact ⟨hspell', front, k, hfront, hchild, hreach⟩

/-- **A name that is added leads to the entry of this name.** -/
theorem locate_child (hname : EntryName name) (hloc : t.locate p true = .ok loc) (hdir : t.get? loc = some .directory)
    (hlink : ∀ target, t.get? (loc ++ [name]) ≠ some (.link target)) :
    t.locate (p.child name) true = .ok (loc ++ [name]) := by
  obtain ⟨hspell, front, k, hfront, hchild, hreach⟩ := exists_reaches_child hname hloc hdir
  rw [hspell.locate, hchild, startOf_append (Or.inl hfront), hreach.walk_eq (Or.inl (List.cons_ne_nil _ _)),
    walk_down hdir hname.idle hname.up hlink]
  rfl

/-- Names below a directory lead to the place they spell. -/
theorem locate_foldl_child (hnames : ∀ name ∈ names, EntryName name) (hdirs : t.DirectoriesTo loc names)
    (hlink : ∀ target, t.get? (loc ++ names) ≠ some (.link target)) (hloc : t.locate p true = .ok loc) :
    t.locate (names.foldl child p) true = .ok (loc ++ names) := by
  induction names generalizing p loc with
  | nil =>
    rw [List.append_nil]
    exact hloc
  | cons name rest ih =>
    have hchild := locate_child (hnames name List.mem_cons_self) hloc hdirs.first (hdirs.not_link hlink)
    rw [List.append_cons] at hlink ⊢
    exact ih (fun name hname => hnames name (List.mem_cons_of_mem _ hname)) hdirs.rest hlink hchild

/-- In a listing names lead to the file over them. -/
theorem Listed.locate_file (h : t.Listed) {content : Bytes} {mode : Mode}
    (hfile : t.get? (loc ++ names) = some (.file content mode)) (hloc : t.locate p true = .ok loc) :
    t.locate (names.foldl child p) true = .ok (loc ++ names) :=
  locate_foldl_child (fun name hname => h.entryName hfile name (List.mem_append_right _ hname))
    (h.tree.directoriesTo hfile) (by rw [hfile]; nofun) hloc

/-! ## Names without links

  Without any link the pieces of a path are the names of the entries that it passes, except for those that stay and
  those that go up. -/

/-- Without links, names lead nowhere but to what lies over them. -/
theorem eq_of_walk_names {n : Nat} (hnames : ∀ name ∈ names, EntryName name)
    (hlinks : ∀ loc target, t.get? loc ≠ some (.link target)) (h : walk t true (n + 1) loc names = .ok place) :
    place = loc ++ names := by
  -- by the names; each of them goes down, as it is no link and neither idle nor the way up
  induction names generalizing loc with
  | nil =>
    cases h
    exact (List.append_nil _).symm
  | cons name rest ih =>
    have hname := hnames name List.mem_cons_self
    cases passes_of_walk (Or.inr rfl) h with
    | idle hidle _ =>
      rw [hname.idle] at hidle
      cases hidle
    | up _ => exact absurd rfl hname.up
    | down _ _ _ hwalk =>
      rw [ih (fun name hmem => hnames name (List.mem_cons_of_mem _ hmem)) hwalk, List.append_assoc]
      rfl
    | link _ _ hlink _ => exact absurd hlink (hlinks _ _)

/-- A path by names alone leads to their place in a tree without links. -/
theorem eq_of_locate_names (hnames : ∀ name ∈ names, EntryName name)
    (hlinks : ∀ loc target, t.get? loc ≠ some (.link target)) (hloc : t.locate p true = .ok loc)
    (hdir : t.get? loc = some .directory) (h : t.locate (names.foldl child p) true = .ok place) :
    place = loc ++ names := by
  by_cases hne : names = []
  · rw [hne] at h ⊢
    rw [List.foldl_nil, hloc] at h
    cases h
    exact (List.append_nil _).symm
  · obtain ⟨front, hfront, hpieces, hfold⟩ := exists_piecesOf_foldl_child hnames hne (spellable_of_locate hloc).text
    obtain ⟨k, hreach⟩ := reaches_of_front hfront hpieces hloc hdir
    rw [(spellable_of_locate h).locate, hfold, startOf_append (Or.inl hfront), hreach.walk_eq (Or.inr rfl)] at h
    exact eq_of_walk_names hnames hlinks h

/-! ## What is looked at over names

  The way of such a path is the way of the directory and then the entries over the names.  So a change elsewhere is
  not looked at by it. -/

/-- Names lead from a directory to what lies over them, unless they meet a link. -/
theorem exists_of_mem_wayFrom_names {n : Nat} (hnames : ∀ name ∈ names, EntryName name)
    (hlinks : ∀ before target, before <+: names → t.get? (loc ++ before) ≠ some (.link target))
    (h : place ∈ wayFrom t (n + 1) loc names) : ∃ before, before <+: names ∧ place = loc ++ before := by
  -- each name is looked at where it stands, until one of them is blocked
  induction names generalizing loc with
  | nil => exact ⟨[], List.nil_prefix, by rw [List.append_nil]; exact List.mem_singleton.mp h⟩
  | cons name rest ih =>
    by_cases hdir : t.get? loc = some .directory
    · have hname := hnames name List.mem_cons_self
      rw [wayFrom_down hdir hname.idle hname.up fun target => hlinks [name] target ⟨rest, rfl⟩] at h
      rcases List.mem_cons.mp h with rfl | h
      · exact ⟨[], List.nil_prefix, (List.append_nil _).symm⟩
      · obtain ⟨before, hbefore, rfl⟩ := ih (fun name hmem => hnames name (List.mem_cons_of_mem _ hmem))
          (fun before target hbefore => by
            rw [List.append_assoc]
            exact hlinks (name :: before) target (List.cons_prefix_cons.mpr ⟨rfl, hbefore⟩)) h
        exact ⟨name :: before, List.cons_prefix_cons.mpr ⟨rfl, hbefore⟩, List.append_assoc _ _ _⟩
    · rw [wayFrom_blocked hdir] at h
      exact ⟨[], List.nil_prefix, by rw [List.append_nil]; exact List.mem_singleton.mp h⟩

/-- A path is followed from the root or from home, as its text begins. -/
theorem way_eq (h : p.text ≠ "") :
    t.way p = wayFrom t (linkLimit + 1) (t.startOf (piecesOf '/' p.text)) (piecesOf '/' p.text) := by
  rw [way, startOf_piecesOf h]

/-- **What is looked at below a directory**: the way to the directory, and what lies over the names. -/
theorem exists_of_mem_way_foldl_child (hnames : ∀ name ∈ names, EntryName name) (hloc : t.locate p true = .ok loc)
    (hdir : t.get? loc = some .directory)
    (hlinks : ∀ before target, before <+: names → t.get? (loc ++ before) ≠ some (.link target))
    (h : place ∈ t.way (names.foldl child p)) :
    place ∈ t.way p ∨ ∃ before, before <+: names ∧ place = loc ++ before := by
  by_cases hne : names = []
  · rw [hne] at h
    exact Or.inl h
  -- the names are pieces of their own behind those of the path
  have htext := (spellable_of_locate hloc).text
  obtain ⟨front, hfront, hpieces, hfold⟩ := exists_piecesOf_foldl_child hnames hne htext
  obtain ⟨k, hreach⟩ := reaches_of_front hfront hpieces hloc hdir
  have htext' : (names.foldl child p).text ≠ "" := fun hempty => by
    rw [hempty] at hfold
    have hlength := congrArg List.length hfold
    rw [List.length_append] at hlength
    have hshort : 0 < front.length := List.length_pos_iff.mpr hfront
    have hlong : 0 < names.length := List.length_pos_iff.mpr hne
    have hone : (piecesOf '/' "").length = 1 := rfl
    omega
  rw [way_eq htext', hfold, startOf_append (Or.inl hfront), hreach.mem_wayFrom_append] at h
  refine h.imp (fun hplace => ?_) (exists_of_mem_wayFrom_names hnames hlinks)
  rw [way_eq htext]
  rcases hpieces with hpieces | hpieces
  · rwa [hpieces]
  · rw [hpieces, startOf_append (Or.inl hfront)]
    exact hreach.mem_wayFrom_append.mpr (Or.inl hplace)

/-! ## Agreement

  Two trees that are the same outside a place cannot be told apart by paths that keep off it.  It is enough that the
  two listings have the same entries there, in whatever order. -/

/-- The trees are the same but for what lies at `place` and below. -/
structure AgreeOutside (place : Location) (t u : FileTree) : Prop where
  home : u.home = t.home
  user : u.user = t.user
  get : ∀ loc, ¬ place <+: loc → u.get? loc = t.get? loc

/-- Listings with the same entries outside agree there. -/
theorem agreeOutside_of_entries (ht : t.Listed) (hu : u.Listed) (hhome : u.home = t.home) (huser : u.user = t.user)
    (h : ∀ f ∈ t.entries, ¬ place <+: f.1 → f ∈ u.entries) (h' : ∀ f ∈ u.entries, ¬ place <+: f.1 → f ∈ t.entries) :
    AgreeOutside place t u := by
  refine ⟨hhome, huser, fun loc hloc => ?_⟩
  -- at the root both have a directory; elsewhere the entries decide
  by_cases hne : loc = []
  · rw [hne]
    rfl
  · cases hentry : t.get? loc with
    | some e => exact hu.get?_of_mem (h _ (mem_of_get? hne hentry) hloc)
    | none =>
      cases hentry' : u.get? loc with
      | none => rfl
      | some e =>
        rw [ht.get?_of_mem (h' _ (mem_of_get? hne hentry') hloc)] at hentry
        cases hentry

namespace AgreeOutside

variable (h : AgreeOutside place t u) (hp : ∀ loc ∈ t.way p, ¬ place <+: loc)

include h hp

/-- A path that stays outside leads to the same place. -/
theorem locate : u.locate p true = t.locate p true := locate_congr h.home fun loc hloc => h.get loc (hp loc hloc)

/-- It finds the same entry. -/
theorem find? : u.find? p true = t.find? p true := find?_congr h.home fun loc hloc => h.get loc (hp loc hloc)

/-- It is read the same. -/
theorem read : u.read p = t.read p := read_congr h.home fun loc hloc => h.get loc (hp loc hloc)

/-- It is a directory in both or in none. -/
theorem isDirectory : u.isDirectory p = t.isDirectory p := by
  rw [FileTree.isDirectory, FileTree.isDirectory, h.find? hp]

end AgreeOutside

end Wheelwright.FileTree
