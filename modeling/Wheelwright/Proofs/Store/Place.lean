/-
  The place of a state file — its directory, its own name and that of its temporary file.

  **Specification** — a state file and its temporary file lie in the same directory (`LiesIn`), under different names.
  The directories above it are made one by one (`Makes`), each in a directory that is there already; and in a directory
  that was just made there is no state file yet (`Makes.walk_missing`).

  **The crux** — a path is followed up to its directory first, then to its last name.  What is looked at on the way to
  the directory are directories and links, so a file that comes or goes beside the state file is not seen
  (`notMem_way`).
-/
import Mathlib.Logic.Relation
import Wheelwright.Proofs.FileTree.Changes
import Wheelwright.Proofs.Path.Pieces
import Wheelwright.Store

namespace Wheelwright.FileTree

open Wheelwright.Path

variable {t u : FileTree} {p q : Path} {follow : Bool} {loc here : Location} {name : String}
  {pieces more idles : List String}

/-! ## Locating

  A path is walked from the root or from home, by its first piece.  The lemmas say for each kind of path where its
  walk goes. -/

/-- Where pieces start. -/
def startOf (t : FileTree) (pieces : List String) : Location := if pieces.head? = some "" then [] else t.home

/-- Where a walk starts is decided by the first piece. -/
theorem startOf_append (h : pieces ≠ [] ∨ more.head? ≠ some "") : t.startOf (pieces ++ more) = t.startOf pieces := by
  cases pieces with
  | nil => exact if_neg (h.resolve_left fun hne => hne rfl)
  | cons piece rest => rfl

/-- A path that can be looked for. -/
structure Spellable (q : Path) : Prop where
  /-- There is a first piece. -/
  text : q.text ≠ ""
  /-- No system call refuses it. -/
  nul : q.text.toList.contains (Char.ofNat 0) = false

/-- A path that leads anywhere is such a path. -/
theorem spellable_of_locate (h : t.locate q follow = .ok loc) : Spellable q := by
  unfold locate at h
  split at h
  · cases h
  · rename_i htext
    split at h
    · cases h
    · rename_i hnul
      exact ⟨htext, Bool.eq_false_iff.mpr hnul⟩

/-- An absolute path starts at the root, any other at home. -/
theorem startOf_piecesOf (h : q.text ≠ "") :
    (if q.isAbsolute then [] else t.home) = t.startOf (piecesOf '/' q.text) := by
  unfold startOf
  by_cases habsolute : q.isAbsolute = true
  · rw [if_pos habsolute, if_pos ((isAbsolute_iff h).mp habsolute)]
  · rw [if_neg habsolute, if_neg fun hhead => habsolute ((isAbsolute_iff h).mpr hhead)]

/-- Such a path is walked piece by piece. -/
theorem Spellable.locate (h : Spellable q) (t : FileTree) (follow : Bool) :
    t.locate q follow = walk t follow (linkLimit + 1) (t.startOf (piecesOf '/' q.text)) (piecesOf '/' q.text) := by
  rw [FileTree.locate, if_neg h.text, h.nul, if_neg Bool.false_ne_true, startOf_piecesOf h.text]

/-- A path is a directory if it leads to one. -/
theorem isDirectory_iff : t.isDirectory q = true ↔ ∃ loc, t.locate q true = .ok loc ∧ t.get? loc = some .directory := by
  rw [isDirectory]
  constructor
  · intro h
    cases hloc : t.locate q true with
    | error e =>
      rw [find?, hloc] at h
      cases h
    | ok loc =>
      cases hentry : t.get? loc with
      | none =>
        rw [find?_of_missing hloc hentry] at h
        cases h
      | some e =>
        rw [find?_of_entry hloc hentry] at h
        cases e with
        | directory => exact ⟨loc, rfl, hentry⟩
        | file content mode => cases h
        | link target => cases h
  · rintro ⟨loc, hloc, hentry⟩
    rw [find?_of_entry hloc hentry]

/-- A path is a file if it leads to one. -/
theorem isFile_iff : t.isFile q = true ↔
    ∃ loc content mode, t.locate q true = .ok loc ∧ t.get? loc = some (.file content mode) := by
  rw [isFile]
  constructor
  · intro h
    cases hloc : t.locate q true with
    | error e =>
      rw [find?, hloc] at h
      cases h
    | ok loc =>
      cases hentry : t.get? loc with
      | none =>
        rw [find?_of_missing hloc hentry] at h
        cases h
      | some e =>
        rw [find?_of_entry hloc hentry] at h
        cases e with
        | file content mode => exact ⟨loc, content, mode, rfl, hentry⟩
        | directory => cases h
        | link target => cases h
  · rintro ⟨loc, content, mode, hloc, hentry⟩
    rw [find?_of_entry hloc hentry]

/-- The pieces of a directory's path reach it. -/
theorem reaches_of_isDirectory (h : t.isDirectory q = true) : Spellable q ∧ ∃ m loc,
    t.Reaches linkLimit (t.startOf (piecesOf '/' q.text)) (piecesOf '/' q.text) m loc := by
  obtain ⟨loc, hloc, hentry⟩ := isDirectory_iff.mp h
  have hspell := spellable_of_locate hloc
  rw [hspell.locate, ← List.append_nil (piecesOf '/' q.text)] at hloc
  obtain ⟨k, m, middle, hk, hreach, -⟩ := exists_reaches (Or.inr ⟨rfl, hentry⟩) hloc
  cases hk
  rw [List.append_nil] at hreach
  exact ⟨hspell, m, middle, hreach⟩

/-- Pieces that reach a directory lead to it. -/
theorem isDirectory_of_reaches {m : Nat} (hspell : Spellable q)
    (h : t.Reaches linkLimit (t.startOf (piecesOf '/' q.text)) (piecesOf '/' q.text) m loc) :
    t.isDirectory q = true := by
  have hwalk : walk t true (linkLimit + 1) (t.startOf (piecesOf '/' q.text)) (piecesOf '/' q.text ++ []) = .ok loc :=
    h.walk_eq (Or.inr rfl)
  rw [List.append_nil, ← hspell.locate] at hwalk
  exact isDirectory_iff.mpr ⟨loc, hwalk, h.last⟩

/-- A last piece that is no name leads to a directory. -/
theorem directory_of_last {n : Nat} {last : String} (htree : t.IsTree) (hlast : isIdlePiece last = true ∨ last = "..")
    (h : walk t follow n here (pieces ++ [last]) = .ok loc) : t.get? loc = some .directory := by
  obtain ⟨k, m, middle, rfl, hreach, hwalk⟩ := exists_reaches (Or.inl (List.cons_ne_nil last [])) h
  rcases hlast with hidle | rfl
  · rw [walk_idle hreach.last hidle] at hwalk
    cases hwalk
    exact hreach.last
  · rw [walk_up hreach.last] at hwalk
    cases hwalk
    exact htree.directory_dropLast hreach.last

/-- A path without a file name leads to a directory, if it leads anywhere. -/
theorem directory_of_no_name (htree : t.IsTree) (hname : q.fileName? = none) (hloc : t.locate q follow = .ok loc) :
    t.get? loc = some .directory := by
  have hspell := spellable_of_locate hloc
  obtain ⟨before, last, hpieces, hlast⟩ := exists_last_of_fileName? hname hspell.text
  rw [hspell.locate, hpieces] at hloc
  exact directory_of_last htree hlast hloc

/-- A directory is one in every tree with the same directories and links. -/
theorem isDirectory_of_keeps (hhome : u.home = t.home)
    (hdirs : ∀ loc, t.get? loc = some .directory → u.get? loc = some .directory)
    (hlinks : ∀ loc target, t.get? loc = some (.link target) → u.get? loc = some (.link target))
    (h : t.isDirectory q = true) : u.isDirectory q = true := by
  obtain ⟨hspell, m, loc, hreach⟩ := reaches_of_isDirectory h
  have hreach' : u.Reaches linkLimit (u.startOf (piecesOf '/' q.text)) (piecesOf '/' q.text) m loc := by
    rw [startOf, hhome]
    exact hreach.keeps hdirs hlinks
  exact isDirectory_of_reaches hspell hreach'

/-! ## The directory of a file

  The pieces before the last name lead to the directory that a file lies in, and the last name leads to the file.  The
  temporary file has the same directory. -/

/-- The pieces before the last name of the path lead to this directory. -/
def LiesIn (t : FileTree) (p : Path) (loc : Location) : Prop :=
  ∃ m, t.Reaches linkLimit (t.startOf p.outerPieces) p.outerPieces m loc

namespace LiesIn

/-- What the file lies in is a directory. -/
theorem directory (h : t.LiesIn p loc) : t.get? loc = some .directory := by
  obtain ⟨m, hreach⟩ := h
  exact hreach.last

/-- There is one such directory. -/
theorem unique {loc' : Location} (h : t.LiesIn p loc) (h' : t.LiesIn p loc') : loc' = loc := by
  obtain ⟨m, hreach⟩ := h
  obtain ⟨m', hreach'⟩ := h'
  exact hreach.unique hreach'

/-- It stays as long as there are the same directories and links. -/
theorem keeps (h : t.LiesIn p loc) (hhome : u.home = t.home)
    (hdirs : ∀ loc, t.get? loc = some .directory → u.get? loc = some .directory)
    (hlinks : ∀ loc target, t.get? loc = some (.link target) → u.get? loc = some (.link target)) :
    u.LiesIn p loc := by
  obtain ⟨m, hreach⟩ := h
  refine ⟨m, ?_⟩
  rw [startOf, hhome]
  exact hreach.keeps hdirs hlinks

end LiesIn

/-- **The parent of a path leads to the directory that the path lies in.** -/
theorem LiesIn.locate_parent (h : t.LiesIn p loc) (hspell : Spellable (p.parent?.getD ⟨""⟩)) :
    t.locate (p.parent?.getD ⟨""⟩) true = .ok loc := by
  obtain ⟨m, hreach⟩ := h
  obtain ⟨fewer, more, idles, houter, hne, hpieces, hmore, hidles⟩ := exists_of_parent hspell.text
  rw [houter, startOf_append (Or.inl hne)] at hreach
  obtain ⟨k, middle, hfewer, -⟩ := hreach.of_append
  obtain rfl := (hfewer.append_idles hmore).unique hreach
  have hparent : walk t true (linkLimit + 1) (t.startOf fewer) (fewer ++ idles ++ []) = .ok loc :=
    (hfewer.append_idles hidles).walk_eq (Or.inr rfl)
  rw [hspell.locate, hpieces, startOf_append (Or.inl hne), ← List.append_nil (fewer ++ idles), hparent]

/-- The path names a file: after its directory come the name and idle pieces; its temporary file has another name. -/
structure Names (p : Path) (name : String) (idles : List String) : Prop where
  /-- The path is not empty. -/
  text : p.text ≠ ""
  /-- The name comes after the directories, and only idle pieces come after it. -/
  pieces : piecesOf '/' p.text = p.outerPieces ++ name :: idles
  idles_idle : ∀ piece ∈ idles, isIdlePiece piece = true
  name_idle : isIdlePiece name = false
  /-- The name leads down. -/
  name_up : name ≠ ".."
  /-- The temporary file stands in the same place. -/
  temporary : piecesOf '/' (p.withExtension "json.tmp").text = p.outerPieces ++ [temporaryName name]

/-- A path with a file name has these pieces. -/
theorem names_of_fileName? (h : p.fileName? = some name) : ∃ idles, Names p name idles := by
  obtain ⟨idles, hpieces, hidles, hidle, hup⟩ := piecesOf_of_fileName? h
  exact ⟨idles, text_ne_empty_of_fileName? h, hpieces, hidles, hidle, hup, piecesOf_withExtension h⟩

namespace Names

/-- The path starts where its directories do. -/
theorem startOf_eq (h : Names p name idles) (t : FileTree) :
    t.startOf (p.outerPieces ++ name :: idles) = t.startOf p.outerPieces :=
  startOf_append (Or.inr fun hhead => by
    cases hhead
    cases h.name_idle)

/-- So does that of the temporary file. -/
theorem startOf_temporary (t : FileTree) (p : Path) (name : String) :
    t.startOf (p.outerPieces ++ [temporaryName name]) = t.startOf p.outerPieces :=
  startOf_append (Or.inr fun hhead => temporaryName_ne_of_short (by decide) (Option.some.inj hhead))

/-- The path is walked to the name. -/
theorem locate (h : Names p name idles) (hp : Spellable p) (t : FileTree) (follow : Bool) :
    t.locate p follow =
      walk t follow (linkLimit + 1) (t.startOf p.outerPieces) (p.outerPieces ++ name :: idles) := by
  rw [hp.locate, h.pieces, h.startOf_eq]

/-- The path of the temporary file is walked to that name. -/
theorem locate_temporary (h : Names p name idles) (hp : Spellable (p.withExtension "json.tmp")) (t : FileTree)
    (follow : Bool) : t.locate (p.withExtension "json.tmp") follow =
      walk t follow (linkLimit + 1) (t.startOf p.outerPieces) (p.outerPieces ++ [temporaryName name]) := by
  rw [hp.locate, h.temporary, startOf_temporary]

/-- A path that leads somewhere leads through its directory. -/
theorem exists_liesIn (h : Names p name idles) (hloc : t.locate p follow = .ok loc) :
    ∃ here m, t.Reaches linkLimit (t.startOf p.outerPieces) p.outerPieces m here ∧
      walk t follow (m + 1) here (name :: idles) = .ok loc := by
  rw [h.locate (spellable_of_locate hloc)] at hloc
  obtain ⟨k, m, here, hk, hreach, hwalk⟩ := exists_reaches (Or.inl (List.cons_ne_nil _ _)) hloc
  cases hk
  exact ⟨here, m, hreach, hwalk⟩

/-- Where the temporary file can be located, the directory is there. -/
theorem exists_liesIn_temporary (h : Names p name idles)
    (hloc : t.locate (p.withExtension "json.tmp") follow = .ok loc) :
    ∃ here m, t.Reaches linkLimit (t.startOf p.outerPieces) p.outerPieces m here ∧
      walk t follow (m + 1) here [temporaryName name] = .ok loc := by
  rw [h.locate_temporary (spellable_of_locate hloc)] at hloc
  obtain ⟨k, m, here, hk, hreach, hwalk⟩ := exists_reaches (Or.inl (List.cons_ne_nil _ _)) hloc
  cases hk
  exact ⟨here, m, hreach, hwalk⟩

/-- The temporary file lies in the directory of the file. -/
theorem eq_of_locate_temporary (h : Names p name idles)
    (hloc : t.locate (p.withExtension "json.tmp") false = .ok loc) :
    ∃ here, t.LiesIn p here ∧ loc = here ++ [temporaryName name] := by
  obtain ⟨here, m, hreach, hwalk⟩ := h.exists_liesIn_temporary hloc
  rw [walk_last hreach.last (isIdlePiece_temporaryName name) (temporaryName_ne_of_short (by decide))] at hwalk
  cases hwalk
  exact ⟨here, ⟨m, hreach⟩, rfl⟩

/-- **A file beside another is not seen on the other's way**, unless a link leads there. -/
theorem notMem_way (h : Names p name idles) (hdir : t.LiesIn p here)
    (hlink : ∀ target, t.get? (here ++ [name]) ≠ some (.link target))
    (hplace : t.get? (here ++ [temporaryName name]) ≠ some .directory)
    (hplace' : ∀ target, t.get? (here ++ [temporaryName name]) ≠ some (.link target)) :
    here ++ [temporaryName name] ∉ t.way p := by
  intro hmem
  obtain ⟨m, hreach⟩ := hdir
  rw [FileTree.way, startOf_piecesOf h.text, h.pieces, h.startOf_eq] at hmem
  rcases hreach.mem_wayFrom hmem with hdir | ⟨target, htarget⟩ | hmem
  · exact hplace hdir
  · exact hplace' target htarget
  · rw [wayFrom_down hreach.last h.name_idle h.name_up hlink] at hmem
    rcases List.mem_cons.mp hmem with heq | hmem
    · exact absurd (List.append_right_eq_self.mp heq) (List.cons_ne_nil _ _)
    · have heq := eq_of_mem_wayFrom_idles h.idles_idle hmem
      exact temporaryName_ne name (List.singleton_inj.mp (List.append_cancel_left heq))

end Names

/-! ## Making directories

  Directories are made from the outside to the inside, each where the pieces before its name lead.  What was there
  stays there. -/

/-- One of the directories above a path is made, in a directory that is there. -/
inductive Makes (p : Path) (t : FileTree) : FileTree → Prop
  | intro {m : Nat} {here : Location} {before after : List String} {piece : String}
      (hpieces : p.outerPieces = before ++ piece :: after)
      (hreach : t.Reaches linkLimit (t.startOf p.outerPieces) before m here)
      (hidle : isIdlePiece piece = false) (hup : piece ≠ "..") (hmissing : t.get? (here ++ [piece]) = none) :
      Makes p t (t.put (here ++ [piece]) .directory)

/-- A directory that is made leaves a tree. -/
theorem Makes.isTree (h : Makes p t u) (htree : t.IsTree) : u.IsTree := by
  obtain ⟨-, hreach, -, -, hmissing⟩ := h
  exact htree.put hreach.last (by rw [hmissing]; nofun)

/-- However many are made, a tree is left. -/
theorem isTree_of_made (h : Relation.ReflTransGen (Makes p) t u) (htree : t.IsTree) : u.IsTree := by
  induction h with
  | refl => exact htree
  | tail _ hmakes ih => exact hmakes.isTree ih

/-- A directory along the pieces of a path is made where the pieces before it lead. -/
theorem makes_of_makeDirectory (htree : t.IsTree) (hq : Along p.outerPieces q) (h : t.makeDirectory q = .ok u) :
    Makes p t u := by
  obtain ⟨-, ⟨fewer, more, idles, hpieces, hne, hq, hidles⟩, hslashes⟩ := hq
  rw [makeDirectory, hslashes] at h
  cases hloc : t.locate q false with
  | error e =>
    rw [hloc] at h
    cases h
  -- it was made where there was nothing
  | ok loc =>
    have hmissing : t.get? loc = none ∧ u = t.put loc .directory := by
      rw [hloc] at h
      cases hentry : t.get? loc with
      | none =>
        dsimp only [bind, Except.bind] at h
        rw [hentry] at h
        cases h
        exact ⟨rfl, rfl⟩
      | some e =>
        dsimp only [bind, Except.bind] at h
        rw [hentry] at h
        cases h
    obtain ⟨hmissing, rfl⟩ := hmissing
    have hstart : t.startOf (fewer ++ idles) = t.startOf p.outerPieces := by
      rw [hpieces, startOf_append (Or.inl hne), startOf_append (Or.inl hne)]
    rw [(spellable_of_locate hloc).locate, hq, hstart] at hloc
    obtain hnil | ⟨before, piece, hconcat⟩ := List.eq_nil_or_concat (fewer ++ idles)
    · exact absurd (List.append_eq_nil_iff.mp hnil).1 hne
    · rw [List.concat_eq_append] at hconcat
      rw [hconcat] at hloc
      -- the last piece is the name of what is missing: anything else would lead to a directory
      obtain ⟨hidle, hup⟩ := not_or.mp fun hlast => by
        rw [directory_of_last htree hlast hloc] at hmissing
        cases hmissing
      rw [Bool.not_eq_true] at hidle
      obtain ⟨k, m, here, hk, hreach, hwalk⟩ := exists_reaches (Or.inl (List.cons_ne_nil piece [])) hloc
      cases hk
      rw [walk_last hreach.last hidle hup] at hwalk
      cases hwalk
      rw [idles_eq_nil hidles hidle hconcat, List.append_nil] at hconcat
      have hpieces' : p.outerPieces = before ++ piece :: more := by
        rw [hpieces, hconcat, List.append_assoc, List.singleton_append]
      exact .intro hpieces' hreach hidle hup hmissing

/-- **Directories are made one by one**, also when one of them cannot be made: those before it stay. -/
theorem made_of_makeWithin {qs : List Path} {e : Option OsError} (htree : t.IsTree)
    (hqs : ∀ q ∈ qs, Along p.outerPieces q) (h : t.makeWithin qs = (u, e)) :
    Relation.ReflTransGen (Makes p) t u := by
  -- from the inside: when a directory fails, the outer ones are made first and it is tried again
  induction qs generalizing u e with
  | nil =>
    cases h
    exact .refl
  | cons q outer ih =>
    have hq := hqs q List.mem_cons_self
    rw [makeWithin] at h
    split at h
    · rename_i v hv
      cases h
      exact .single (makes_of_makeDirectory htree hq hv)
    · split at h
      · rename_i v failure hv
        cases h
        exact ih (fun q hq => hqs q (List.mem_cons_of_mem _ hq)) hv
      · rename_i v hv
        have hmade := ih (fun q hq => hqs q (List.mem_cons_of_mem _ hq)) hv
        rw [attempt, ensureDirectory] at h
        cases hw : v.makeDirectory q with
        | ok w =>
          rw [hw] at h
          cases h
          exact hmade.tail (makes_of_makeDirectory (isTree_of_made hmade htree) hq hw)
        | error failure =>
          rw [hw] at h
          dsimp only at h
          by_cases hthere : v.isDirectory q = true
          · rw [if_pos hthere] at h
            cases h
            exact hmade
          · rw [if_neg hthere] at h
            cases h
            exact hmade
    · split at h <;> cases h <;> exact .refl

namespace Makes

/-- Making directories leaves home where it is. -/
theorem home (h : Makes p t u) : u.home = t.home := by
  cases h
  rfl

/-- What was there is still there. -/
theorem get?_of_some {e : Entry} (h : Makes p t u) (hentry : t.get? loc = some e) : u.get? loc = some e := by
  obtain ⟨-, -, -, -, hmissing⟩ := h
  rw [get?_put_of_ne]
  · exact hentry
  · rintro rfl
    rw [hmissing] at hentry
    cases hentry

/-- There is nothing to make if the directory of the path is there. -/
theorem not_liesIn (h : Makes p t u) : ¬ t.LiesIn p loc := by
  rintro ⟨m, hall⟩
  cases h with
  -- what was made was missing before, so no walk went through it
  | @intro k here before after piece hpieces hreach hidle hup hmissing =>
    have hlink : ∀ target, t.get? (here ++ [piece]) ≠ some (.link target) := fun target htarget => by
      rw [hmissing] at htarget
      cases htarget
    rw [hpieces] at hall hreach
    obtain ⟨k', here', hreach', hwalk⟩ := hall.of_append
    cases hreach.unique hreach'
    rw [walk_down hreach.last hidle hup hlink] at hwalk
    cases after with
    | nil =>
      cases hwalk
      rw [hall.last] at hmissing
      cases hmissing
    | cons next rest =>
      rw [FileTree.walk_missing hmissing] at hwalk
      cases hwalk

/-- Pieces that go on behind the directory are followed in vain, before it is made and after. -/
theorem walk_missing (h : Makes p t u) (htree : t.IsTree) (hup : ".." ∉ p.outerPieces) (hlast : ".." ∉ more)
    (hmore : ∃ piece ∈ more, isIdlePiece piece = false) (follow : Bool) :
    walk t follow (linkLimit + 1) (t.startOf p.outerPieces) (p.outerPieces ++ more) = .error .notFound ∧
      (walk u follow (linkLimit + 1) (u.startOf p.outerPieces) (p.outerPieces ++ more) = .error .notFound ∨
        ∃ loc, walk u follow (linkLimit + 1) (u.startOf p.outerPieces) (p.outerPieces ++ more) = .ok loc ∧
          u.get? loc = none) := by
  have hkeeps {loc : Location} {e : Entry} : t.get? loc = some e → u.get? loc = some e := h.get?_of_some
  -- before, the walk stops at the missing piece; after, it goes into an empty directory
  obtain ⟨name, hname, hname'⟩ := hmore
  cases h with
  | @intro k here before after piece hpieces hreach hidle hne hmissing =>
    have hmore : after ++ more ≠ [] := List.append_ne_nil_of_right_ne_nil _ (List.ne_nil_of_mem hname)
    have happend : p.outerPieces ++ more = before ++ (piece :: (after ++ more)) := by
      rw [hpieces, List.append_assoc, List.cons_append]
    rw [happend]
    constructor
    · have hlink : ∀ target, t.get? (here ++ [piece]) ≠ some (.link target) := fun target htarget => by
        rw [hmissing] at htarget
        cases htarget
      obtain ⟨next, rest, hnext⟩ := List.exists_cons_of_ne_nil hmore
      rw [hreach.walk_eq (Or.inl (List.cons_ne_nil _ _)), walk_down hreach.last hidle hne hlink, hnext,
        FileTree.walk_missing hmissing]
    · have hreach' : Reaches (t.put (here ++ [piece]) .directory) linkLimit (t.startOf p.outerPieces) before k here :=
        hreach.keeps (fun _ => hkeeps) fun _ _ => hkeeps
      have hdir : (t.put (here ++ [piece]) .directory).get? (here ++ [piece]) = some .directory :=
        get?_put _ _ _ (List.append_ne_nil_of_right_ne_nil _ (List.cons_ne_nil _ _))
      have hlink : ∀ target, (t.put (here ++ [piece]) .directory).get? (here ++ [piece]) ≠ some (.link target) :=
        fun target htarget => by
          rw [hdir] at htarget
          cases htarget
      have hempty : ∀ name, (t.put (here ++ [piece]) .directory).get? (here ++ [piece] ++ [name]) = none := by
        intro name
        rw [get?_put_of_ne fun heq => absurd (List.append_right_eq_self.mp heq) (List.cons_ne_nil _ _)]
        exact htree.get?_below (by rw [hmissing]; nofun) [name] (List.cons_ne_nil _ _)
      have hafter : ".." ∉ after ++ more := by
        rw [List.mem_append, not_or]
        refine ⟨fun hmem => hup ?_, hlast⟩
        rw [hpieces]
        exact List.mem_append_right _ (List.mem_cons_of_mem _ hmem)
      rw [show (t.put (here ++ [piece]) .directory).startOf p.outerPieces = t.startOf p.outerPieces from rfl,
        hreach'.walk_eq (Or.inl (List.cons_ne_nil _ _)), walk_down hreach'.last hidle hne hlink]
      exact walk_empty hdir hempty hafter ⟨name, List.mem_append_right _ hname, hname'⟩

end Makes

end Wheelwright.FileTree
