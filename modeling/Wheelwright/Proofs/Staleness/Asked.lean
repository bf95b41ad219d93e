/-
  Asked — which files the rules of ignore files come from, and that they come from nothing else.

  **Specification** — two listings in which the paths that are asked lead to the same entries have the same rules: those
  of a directory (`ofDirectory_congr`) and those of the user (`ofTree_congr`).

  **Program** — which files are asked depends on what is found in files asked before: the file `.git` may point to
  another directory, and its `commondir` to a third; settings name the user's ignore file, and later settings are read
  only if earlier ones name none.

  **The crux** — so what is asked is a list that is computed along with the rules (`DirectoryRules.asked`,
  `UserRules.asked`), and each file in it is the same in both trees before the next one is looked for.
-/
import Wheelwright.Staleness

namespace Wheelwright

variable {t u : FileTree}

/-! ## Ignore files of a directory

  The rules of a directory come from two files in it and from a repository, if there is one.  Where that lies may
  itself be written in files, which are asked first. -/

namespace DirectoryRules

variable {dir : Path}

/-- Where the file `.git` of a directory points to. -/
def pointed? (t : FileTree) (dir : Path) : Option Path := do
  let line ← firstLine? t (dir.child ".git")
  if line.startsWith "gitdir: " then some ⟨String.ofList (line.toList.drop 8)⟩ else none

/-- The paths that are asked for the ignore rules of a directory. -/
def asked (t : FileTree) (dir : Path) : List Path :=
  [dir.child ".ignore", dir.child ".gitignore", dir.child ".git"] ++
    ((pointed? t dir).map fun linked => linked.child "commondir").toList ++
    ((repository? t dir).map fun git => git.join ⟨"info/exclude"⟩).toList

/-- Where a repository points to is asked for what it shares. -/
theorem mem_asked_of_pointed {linked : Path} (h : pointed? t dir = some linked) :
    linked.child "commondir" ∈ asked t dir := by
  refine List.mem_append_left _ (List.mem_append_right _ ?_)
  rw [h]
  exact List.mem_singleton_self _

/-- A repository is asked for its excludes. -/
theorem mem_asked_of_repository {git : Path} (h : repository? t dir = some git) :
    git.join ⟨"info/exclude"⟩ ∈ asked t dir := by
  refine List.mem_append_right _ ?_
  rw [h]
  exact List.mem_singleton_self _

/-- Every directory is asked for a repository. -/
theorem mem_asked_git : dir.child ".git" ∈ asked t dir :=
  List.mem_append_left _ (List.mem_append_left _ (List.mem_cons_of_mem _ (List.mem_cons_of_mem _ List.mem_cons_self)))

section Congr

variable (hasked : ∀ p ∈ asked t dir, u.find? p true = t.find? p true)

include hasked

/-- What is asked has the same rules in both trees. -/
theorem rulesOf_congr {file : Path} (hfile : file ∈ asked t dir) : rulesOf u dir file = rulesOf t dir file := by
  rw [rulesOf, rulesOf, FileTree.read, FileTree.read, hasked file hfile]

/-- What is asked has the same first line in both trees. -/
theorem firstLine_congr {file : Path} (hfile : file ∈ asked t dir) : firstLine? u file = firstLine? t file := by
  rw [firstLine?, firstLine?, FileTree.read, FileTree.read, hasked file hfile]

/-- So the repository of a directory lies in the same place. -/
theorem repository_congr : repository? u dir = repository? t dir := by
  have hgit : u.isFile (dir.child ".git") = t.isFile (dir.child ".git") := by
    rw [FileTree.isFile, FileTree.isFile, hasked _ mem_asked_git]
  -- a directory is a repository itself, a file names one in its first line
  rw [repository?, repository?, hgit, firstLine_congr hasked mem_asked_git]
  dsimp only
  by_cases hfile : t.isFile (dir.child ".git") = true
  · rw [hfile, Bool.not_true, if_neg Bool.false_ne_true, if_neg Bool.false_ne_true]
    cases hline : firstLine? t (dir.child ".git") with
    | none => rfl
    | some line =>
      show (if !line.startsWith "gitdir: " then none else _) = (if !line.startsWith "gitdir: " then none else _)
      by_cases hstart : line.startsWith "gitdir: " = true
      · have hpointed : pointed? t dir = some ⟨String.ofList (line.toList.drop 8)⟩ := by
          rw [pointed?, hline]
          exact if_pos hstart
        rw [firstLine_congr hasked (mem_asked_of_pointed hpointed)]
      · rw [Bool.not_eq_true] at hstart
        rw [hstart]
        rfl
  · rw [Bool.not_eq_true] at hfile
    rw [hfile]
    rfl

/-- **The rules of a directory depend only on what is asked for them.** -/
theorem ofDirectory_congr : ofDirectory u dir = ofDirectory t dir := by
  have hignore : rulesOf u dir (dir.child ".ignore") = rulesOf t dir (dir.child ".ignore") :=
    rulesOf_congr hasked (List.mem_append_left _ (List.mem_append_left _ List.mem_cons_self))
  have hgitIgnore : rulesOf u dir (dir.child ".gitignore") = rulesOf t dir (dir.child ".gitignore") :=
    rulesOf_congr hasked
      (List.mem_append_left _ (List.mem_append_left _ (List.mem_cons_of_mem _ List.mem_cons_self)))
  rw [ofDirectory, ofDirectory, hignore, hgitIgnore, repository_congr hasked, hasked _ mem_asked_git]
  congr 1
  split
  · rename_i git hgit
    exact rulesOf_congr hasked (mem_asked_of_repository hgit)
  · rfl

end Congr

end DirectoryRules

/-! ## The ignore file of the user

  The settings of the user are looked for in several places.  None is read behind the first that names an ignore file,
  so the files after that are not asked. -/

namespace UserRules

/-- The files of settings that are read, of those that may be: none is read behind the first that names an ignore
    file. -/
def consulted (t : FileTree) : List Path → List Path
  | [] => []
  | file :: rest => file :: if (namedBy? t file).isSome then [] else consulted t rest

/-- The paths that are asked for the rules of the user. -/
def asked (t : FileTree) : List Path := consulted t t.user.settingFiles ++ (file? t).toList

section Congr

variable {file : Path} {files : List Path} (huser : u.user = t.user)

include huser

/-- A file of settings that is asked names the same file in both trees. -/
theorem namedBy_congr (hfile : u.find? file true = t.find? file true) : namedBy? u file = namedBy? t file := by
  rw [namedBy?, namedBy?, FileTree.read, FileTree.read, hfile, huser]

/-- The same file of settings decides: each one before it is read in both trees, and names nothing in either. -/
theorem findSome_namedBy_congr (hfiles : ∀ p ∈ consulted t files, u.find? p true = t.find? p true) :
    files.findSome? (namedBy? u) = files.findSome? (namedBy? t) := by
  induction files with
  | nil => rfl
  | cons file rest ih =>
    rw [List.findSome?_cons, List.findSome?_cons, namedBy_congr huser (hfiles file List.mem_cons_self)]
    cases hnamed : namedBy? t file with
    | some path => rfl
    | none =>
      refine ih fun p hp => hfiles p (List.mem_cons_of_mem _ ?_)
      rw [hnamed]
      exact hp

/-- **The rules of the user depend only on what is asked for them.** -/
theorem ofTree_congr (hhome : u.home = t.home) (hasked : ∀ p ∈ asked t, u.find? p true = t.find? p true) :
    ofTree u = ofTree t := by
  have hfile : file? u = file? t := by
    rw [file?, file?, huser,
      findSome_namedBy_congr huser fun p hp => hasked p (List.mem_append_left _ hp)]
  have hread : (file? t).bind (fun file => (u.read file).toOption) =
      (file? t).bind (fun file => (t.read file).toOption) := by
    cases hthere : file? t with
    | none => rfl
    | some file =>
      have hsame := hasked file (List.mem_append_right _ (by rw [hthere]; exact List.mem_singleton_self _))
      rw [Option.bind_some, Option.bind_some, FileTree.read, FileTree.read, hsame]
  rw [ofTree, ofTree, hfile, hread, hhome]

end Congr

end UserRules

end Wheelwright
