/-
  Statements — a script goes on in time, whatever it says, and a process that has ended says no more.

  **Specification** — `runStatement` takes a session to one that follows it (`follows_runStatement`), for every statement,
  however deep it lies; and so does `run`, for every program that the shell can start (`follows_run`).

  **Program** — statements, words and programs run each other: the statements in a word are run by a child, a program may
  be a shell, and a trap is a script that is run between two statements.

  **The crux** — the induction is on how deep statements may lie, and everything that runs statements is shown to go on in
  time for any runner that does; the recursions in words, in lists and in the rounds of a loop are closed on the way.
-/
import Wheelwright.Shell.Launch
import Wheelwright.Proofs.Shell.Programs

namespace Wheelwright.Shell

open Session (follows_withStatus follows_assign follows_exports follows_of_change follows_changePartly follows_emit
  follows_say follows_complain follows_complainHere follows_clock follows_sleep follows_sleepItself follows_capture
  follows_stop follows_giveUp)
open Utility (follows_of_contentOf)

variable {s t : Session}

/-! ## Words

  A word may run statements while it is expanded.  The runner for these is a variable of the section, of which it is
  assumed that it goes on in time. -/

section Words

variable {run : Runner}

/-- A sum may assign variables. -/
theorem follows_sumOf (s : Session) (text : String) : s.Follows (sumOf s text).2 := by
  rw [sumOf]
  split
  · exact .foldl (fun s v => follows_assign s _ _) _ s
  · exact follows_giveUp s 2 _ _

mutual

/-- A piece of a word is expanded in the session it stands in. -/
theorem follows_expandPiece (hrun : ∀ body (s : Session), s.Follows (run body s)) (s : Session) :
    (p : Piece) → s.Follows (expandPiece run s p).2
  -- by the pieces; those that hold words expand them first
  | .text _ _ => by
    rw [expandPiece]
    exact .refl s
  | .output body _ => by
    rw [expandPiece]
    exact follows_capture s (hrun body)
  | .sum expression _ => by
    rw [expandPiece]
    exact (follows_expandPieces hrun s expression).trans (follows_sumOf _ _)
  | .parameter name use word quoted => by
    have hword := follows_expandPieces hrun s word
    cases use with
    | value | length =>
      rw [expandPiece]
      exact .refl s
    | default emptyToo =>
      rw [expandPiece]
      split
      · exact hword
      · exact .refl s
    | assign emptyToo =>
      rw [expandPiece]
      split
      · exact hword.trans (follows_assign _ _ _)
      · exact .refl s
    | alternative emptyToo =>
      rw [expandPiece]
      split
      · exact .refl s
      · exact hword
    | required emptyToo =>
      rw [expandPiece]
      split
      · exact hword.trans (follows_giveUp _ 2 _ _)
      · exact .refl s
    | without atEnd longest =>
      rw [expandPiece]
      exact hword

/-- Pieces are expanded one after another. -/
theorem follows_expandPieces (hrun : ∀ body (s : Session), s.Follows (run body s)) (s : Session) :
    (ps : List Piece) → s.Follows (expandPieces run s ps).2
  | [] => by
    rw [expandPieces]
    exact .refl s
  | p :: rest => by
    rw [expandPieces]
    exact (follows_expandPiece hrun s p).trans (follows_expandPieces hrun _ rest)

end

variable (hrun : ∀ body (s : Session), s.Follows (run body s))
include hrun

/-- So are words, as fields or as text. -/
theorem follows_expandWord (s : Session) (w : Word) : s.Follows (expandWord run s w).2 := by
  rw [expandWord.eq_def]
  split
  · rename_i rest
    have hrest := follows_expandPieces hrun s rest
    dsimp only
    split
    · exact hrest
    · exact hrest
  · exact follows_expandPieces hrun s w

theorem follows_expandText (s : Session) (w : Word) : s.Follows (expandText run s w).2 := follows_expandWord hrun s w

theorem follows_expandWords (s : Session) (words : List Word) : s.Follows (expandWords run s words).2 := by
  induction words generalizing s with
  | nil => exact .refl s
  | cons w rest ih => exact (follows_expandWord hrun s w).trans (ih _)

/-- Assignments are made one after another. -/
theorem follows_assignAll (s : Session) (all : List (String × Word)) : s.Follows (assignAll run s all) := by
  induction all generalizing s with
  | nil => exact .refl s
  | cons a rest ih =>
    obtain ⟨name, value⟩ := a
    exact (follows_expandText hrun s value).trans ((follows_assign _ _ _).trans (ih _))

/-! ## Redirections

  A redirection opens a file, and closes it again by putting the old outlets back. -/

omit hrun in
/-- To open a file for output changes files alone. -/
theorem follows_of_outletFor {appends : Bool} {target : String} {o : Outlet}
    (h : outletFor s appends target = .ok (t, o)) : s.Follows t := by
  rw [outletFor.eq_def] at h
  split at h
  · cases h
    exact .refl s
  · cases h
    exact .refl s
  · cases h
    exact .refl s
  · dsimp only at h
    split at h
    · rename_i hchange
      cases h
      exact follows_of_change hchange
    · cases h
    · cases h

/-- A redirection expands its target and opens it. -/
theorem follows_redirect (s : Session) (r : Redirection) : s.Follows (redirect run s r).1 := by
  -- by its kind; what can fail leaves the session as it was after the target
  obtain ⟨descriptor, kind, target⟩ := r
  have htext := follows_expandText hrun s target
  cases kind with
  | duplicate =>
    rw [redirect]
    dsimp only
    split
    · exact htext.of_end rfl rfl rfl
    · split
      · split
        · exact htext
        · exact htext.of_end rfl rfl rfl
      · exact htext.of_end rfl rfl rfl
  | here =>
    rw [redirect]
    exact htext.of_end rfl rfl rfl
  | input =>
    rw [redirect]
    dsimp only
    split
    · rename_i hcontent
      exact (htext.trans (follows_of_contentOf hcontent)).of_end rfl rfl rfl
    · exact htext
    · exact htext
  | output =>
    rw [redirect]
    dsimp only
    split
    · rename_i houtlet
      exact (htext.trans (follows_of_outletFor houtlet)).of_end rfl rfl rfl
    · exact htext
  | append =>
    rw [redirect]
    dsimp only
    split
    · rename_i houtlet
      exact (htext.trans (follows_of_outletFor houtlet)).of_end rfl rfl rfl
    · exact htext

/-- Redirections are made one after another. -/
theorem follows_redirectAll (s : Session) (all : List Redirection) : s.Follows (redirectAll run s all).1 := by
  -- on the redirections, up to the first that fails
  induction all generalizing s with
  | nil => exact .refl s
  | cons r rest ih =>
    have hone := follows_redirect hrun s r
    rw [redirectAll]
    split
    · rename_i heq
      rw [heq] at hone
      exact hone.trans (ih _)
    · rename_i heq
      rw [heq] at hone
      exact hone

/-- What is done under redirections goes on behind them. -/
theorem follows_redirected (all : List Redirection) (keeps : Bool) {refuse body : Session → Session}
    (hrefuse : ∀ s : Session, s.Follows (refuse s)) (hbody : ∀ s : Session, s.Follows (body s)) (s : Session) :
    s.Follows (redirected run all keeps refuse body s) := by
  have hall := follows_redirectAll hrun s all
  rw [redirected]
  split
  · rename_i heq
    rw [heq] at hall
    exact .ite (hall.trans (hbody _)) ((hall.trans (hbody _)).of_end rfl rfl rfl)
  · rename_i heq
    rw [heq] at hall
    refine Session.Follows.trans (Session.Follows.trans (hall.trans ?_) (follows_complainHere _ 2 _)) (hrefuse _)
    exact .of_eq rfl rfl rfl

end Words

/-! ## Lists and scripts

  A list goes on until something ends it: the flow of control is looked at after each statement, and traps are
  answered then. -/

section Running

variable {run : StatementRunner} (hrun : ∀ isAsked statement (s : Session), s.Follows (run isAsked statement s))
include hrun

/-- A list of statements goes on from one to the next. -/
theorem follows_runList (isAsked : Bool) (body : List Statement) (s : Session) :
    s.Follows (runList run isAsked body s) :=
  .foldl (fun s statement => .ite (hrun isAsked statement s) (.refl s)) body s

theorem follows_runText (isAsked : Bool) (text : String) (s : Session) : s.Follows (runText run isAsked text s) := by
  rw [runText]
  split
  · exact (follows_runList hrun isAsked _ _).of_start rfl rfl rfl
  · exact follows_giveUp s 2 _ _

/-- Traps are answered when a statement has ended. -/
theorem follows_answerTraps (s : Session) : s.Follows (answerTraps run s) := by
  rw [answerTraps]
  refine (Session.Follows.foldl (fun s action => ?_) _ _).of_start rfl rfl rfl
  have hdone : s.Follows (runText run false action { s with flow := .onward }) :=
    (follows_runText hrun false action _).of_start rfl rfl rfl
  exact .ite (.refl s) (.ite (hdone.of_end rfl rfl rfl) hdone)

/-- A shell that leaves answers the trap for its end. -/
theorem follows_leave (s : Session) : s.Follows (leave run s) := by
  rw [leave.eq_def]
  split
  · exact .refl s
  · exact .refl s
  · have hdone (action : String) (traps : List (String × String)) :
        s.Follows (runText run false action { s with flow := .onward, traps }) :=
      (follows_runText hrun false action _).of_start rfl rfl rfl
    exact .ite ((hdone _ _).of_end rfl rfl rfl) (hdone _ _)
  · exact .of_eq rfl rfl rfl

theorem follows_lists (body : List Statement) (s : Session) : s.Follows (leave run (runList run false body s)) :=
  (follows_runList hrun false body s).trans (follows_leave hrun _)

omit hrun in
/-- What runs in a child is apart. -/
theorem follows_inChild {body : Session → Session} (hbody : ∀ s : Session, s.Follows (body s)) (s : Session) :
    s.Follows (inChild body s) :=
  .after s.apart_child (hbody _)

/-! ## Programs

  A program is found by its name, in a table or as a file, and a shell may be found there, too. -/

/-- A shell is called with a script or a file. -/
theorem follows_shellProgram (arguments : List String) (s : Session) : s.Follows (shellProgram run arguments s) := by
  have hscript (name text : String) (more : List String) (isStrict : Bool) (input : List Char) : s.Follows
      (runText run false text { asShell name more { s with input } with isStrict }) :=
    (follows_runText hrun false text _).of_start rfl rfl rfl
  rw [shellProgram]
  refine Session.Follows.trans ?_ (follows_leave hrun _)
  dsimp only
  split
  · split
    · exact follows_complain s 2 _
    · exact hscript _ _ _ _ _
  · split
    · exact hscript _ _ _ _ _
    · split
      · exact hscript _ _ _ _ _
      · exact follows_complain s 2 _

/-- A program is one that is known, or a utility, or a shell. -/
theorem follows_usualProgram (itself : Bool) (name : String) (arguments : List String) (s : Session) :
    s.Follows (usualProgram run itself name arguments s) := by
  rw [usualProgram.eq_def]
  split
  · split
    · exact .ite (follows_sleepItself s _) (follows_sleep s _)
    · exact follows_complain s 1 _
  · exact follows_say s _
  · exact Builtin.advances_printf arguments s
  · exact Condition.follows_run s arguments
  · exact Builtin.advances_bracket arguments s
  · exact Builtin.advances_pwd arguments s
  · exact Builtin.advances_kill arguments s
  · exact follows_say s _
  · split
    · exact follows_say s _
    · split
      · exact .ite (follows_say s _) (follows_withStatus s 1)
      · exact follows_withStatus s 1
  · split
    · rename_i utility hutility
      exact advances_of_lookup Utility.advances_of_mem_table hutility arguments s
    · exact .ite (follows_shellProgram hrun arguments s) (follows_inChild (follows_shellProgram hrun arguments) s)

/-- A file is run by the shell that its first line names. -/
theorem follows_fileProgram (itself : Bool) (path : String) (arguments : List String) (s : Session) :
    s.Follows (fileProgram run itself path arguments s) := by
  rw [fileProgram]
  split
  · exact follows_complainHere s 127 _
  · split
    · exact follows_complainHere s 127 _
    · exact .ite (follows_shellProgram hrun _ s) (follows_inChild (follows_shellProgram hrun _) s)

theorem follows_runProgram (itself : Bool) (name : String) (arguments : List String) (s : Session) :
    s.Follows (runProgram run itself name arguments s) := by
  have hended (t : Session) (ht : s.Follows t) :
      s.Follows (if itself && t.flow = .onward then { t with flow := .exiting } else t) :=
    .ite (ht.of_end rfl rfl rfl) ht
  rw [runProgram.eq_def]
  refine hended _ ?_
  split
  · exact follows_usualProgram hrun itself _ arguments s
  · exact follows_fileProgram hrun itself _ arguments s
  · exact follows_complainHere s 127 _
  · exact follows_complainHere s 126 _

/-! ## Simple statements

  A name may stand for a function, a builtin or a program.  The assignments in front of it are undone afterwards,
  which concerns neither clock nor output. -/

/-- A function is called with its own arguments. -/
theorem follows_call (isAsked : Bool) (body : Statement) (arguments : List String) (s : Session) :
    s.Follows (call run isAsked body arguments s) := by
  rw [call]
  have hbody : s.Follows (run isAsked body { s with arguments }) := (hrun isAsked body _).of_start rfl rfl rfl
  exact hbody.of_end rfl rfl rfl

/-- What is run within the shell is a builtin, or another that it names. -/
theorem follows_of_runBuiltin? {isAsked : Bool} {name : String} {arguments : List String} {builtin : Session → Session}
    (h : runBuiltin? run isAsked name arguments = some builtin) (s : Session) : s.Follows (builtin s) := by
  rw [runBuiltin?.eq_def] at h
  -- those that take statements or programs first, then the tables
  split at h
  · cases h
    exact (follows_runText hrun isAsked _ _).of_start rfl rfl rfl
  · cases h
    dsimp only
    split
    · exact (follows_runText hrun isAsked _ s).of_end rfl rfl rfl
    · exact follows_giveUp s 2 _ _
  · cases h
    dsimp only
    split
    · exact follows_withStatus s 0
    · split
      · exact follows_giveUp s 127 _ _
      · exact follows_giveUp s 126 _ _
      · exact follows_runProgram hrun true _ _ s
  · split at h
    · cases h
      exact .ite (follows_say s _) (follows_withStatus s 127)
    · split at h
      · rename_i hbuiltin
        cases h
        refine advances_of_lookup (fun e he => ?_) hbuiltin _ s
        exact (List.mem_append.mp he).elim (Builtin.advances_of_mem_special e) (Builtin.advances_of_mem_regular e)
      · cases h
        exact follows_runProgram hrun false _ _ s
    · cases h
      exact follows_withStatus s 0
  · obtain ⟨builtin, hbuiltin, rfl⟩ := Option.map_eq_some_iff.mp h
    exact advances_of_lookup Builtin.advances_of_mem_special hbuiltin arguments s

/-- A name is that of a function, a builtin or a program. -/
theorem follows_dispatch (isAsked : Bool) (name : String) (arguments : List String) (s : Session) :
    s.Follows (dispatch run isAsked name arguments s) := by
  rw [dispatch.eq_def]
  split
  · rename_i hbuiltin
    exact follows_of_runBuiltin? hrun hbuiltin s
  · exact follows_call hrun isAsked _ arguments s
  · rename_i hbuiltin
    exact advances_of_lookup Builtin.advances_of_mem_regular hbuiltin arguments s
  · split
    · refine .ite ?_ (follows_runProgram hrun false _ _ s)
      exact (Builtin.advances_exporting _ s).trans (follows_runProgram hrun false _ _ _)
    · exact follows_runProgram hrun false name arguments s

/-- A simple statement expands its words, makes its redirections and assignments, and runs. -/
theorem follows_runSimple (isAsked : Bool) (line : Nat) (assignments : List (String × Word)) (words : List Word)
    (redirections : List Redirection) (s : Session) :
    s.Follows (runSimple run isAsked line assignments words redirections s) := by
  have hlists := follows_lists hrun
  have hassigned (s : Session) : s.Follows (assignAll (fun body s => leave run (runList run false body s)) s assignments) :=
    follows_assignAll hlists s assignments
  have hwords : s.Follows (expandWords (fun body s => leave run (runList run false body s)) { s with line } words).2 :=
    (follows_expandWords hlists { s with line } words).of_start rfl rfl rfl
  rw [runSimple]
  dsimp only
  -- a word may fail to expand; without words only assignments are left
  split
  · exact hwords
  · refine hwords.trans ?_
    split
    · exact Session.Follows.trans (.ite (follows_withStatus _ 0) (.refl _))
        (follows_redirected hlists _ _ Session.Follows.refl hassigned _)
    · rename_i name arguments _
      refine (follows_withStatus _ s.status).trans (follows_redirected hlists _ _ (fun u => ?_) (fun u => ?_) _)
      · exact .ite (.of_eq rfl rfl rfl) (.refl u)
      · refine (hassigned u).trans (.ite (follows_dispatch hrun isAsked _ _ _) ?_)
        have hexported (v : Session) : v.Follows
            (dispatch run isAsked name arguments (assignments.foldl (fun s a => s.exports a.1) v)) :=
          (Session.Follows.foldl (fun s a => follows_exports s a.1) assignments v).trans
            (follows_dispatch hrun isAsked _ _ _)
        exact .ite (hexported _) ((hexported _).of_end rfl rfl rfl)

/-! ## Loops

  A loop has a number of rounds to bound it.  Leaving it is a flow of control that is taken back when the loop is
  over. -/

omit hrun in
/-- Rounds go on from one to the next. -/
theorem follows_rounds {round : Session → Session × Bool} (h : ∀ s : Session, s.Follows (round s).1) (n : Nat)
    (s : Session) : s.Follows (rounds round n s) := by
  -- on the rounds that are left
  induction n generalizing s with
  | zero => exact .of_eq rfl rfl rfl
  | succ n ih =>
    have hone := h s
    rw [rounds]
    split
    · rename_i heq
      rw [heq] at hone
      exact hone.trans (ih _)
    · rename_i heq
      rw [heq] at hone
      exact hone

omit hrun in
/-- A round may be ended early. -/
theorem follows_afterBody (s : Session) : s.Follows (afterBody s).1 := by
  rw [afterBody]
  split
  · exact .refl s
  · exact .of_eq rfl rfl rfl
  · exact .of_eq rfl rfl rfl
  · exact .refl s

/-- A loop goes on as long as its condition says. -/
theorem follows_runLoop (endsWhenTrue : Bool) (condition body : List Statement) (s : Session) :
    s.Follows (runLoop run endsWhenTrue condition body s) := by
  rw [runLoop]
  refine (follows_withStatus s 0).trans (follows_rounds (fun s => ?_) _ _)
  have hcondition := follows_runList hrun true condition s
  dsimp only
  split
  · exact hcondition.trans (follows_afterBody _)
  · split
    · exact hcondition.trans (follows_withStatus _ _)
    · exact (hcondition.trans (follows_runList hrun false body _)).trans (follows_afterBody _)

/-- A loop over words has a round for each. -/
theorem follows_runEach (name : String) (body : List Statement) (values : List String) (s : Session) :
    s.Follows (runEach run name body values s) := by
  -- on the values, up to the one at which the loop is left
  induction values generalizing s with
  | nil => exact .refl s
  | cons value rest ih =>
    have hone : s.Follows (afterBody (runList run false body (s.assign name value))).1 :=
      ((follows_assign s name value).trans (follows_runList hrun false body _)).trans (follows_afterBody _)
    rw [runEach]
    split
    · rename_i heq
      rw [heq] at hone
      exact hone.trans (ih _)
    · rename_i heq
      rw [heq] at hone
      exact hone

omit hrun in
/-- The first case that fits is chosen. -/
theorem follows_chooseCase {lists : Runner} (hlists : ∀ body (s : Session), s.Follows (lists body s)) (s : Session)
    (text : String) (cases : List (List Word × List Statement)) : s.Follows (chooseCase lists s text cases).1 := by
  induction cases generalizing s with
  | nil => exact .refl s
  | cons c rest ih =>
    obtain ⟨patterns, body⟩ := c
    have hchosen (p : Session × Bool) (hp : s.Follows p.1) :
        s.Follows (if p.2 then (p.1, body) else chooseCase lists p.1 text rest).1 := by
      split
      · exact hp
      · exact hp.trans (ih _)
    rw [chooseCase]
    -- patterns are looked at until one fits
    refine hchosen _ (.foldl_fst (fun p pattern => ?_) patterns (s, false))
    dsimp only
    split
    · exact .refl p.1
    · exact follows_expandWord hlists p.1 pattern

/-! ## Statements

  The statements of each kind, put together from the sections above, for a runner that is good for one level less. -/

/-- Both sides of a pipe are children, and the second one's clock starts when the first one has ended. -/
theorem follows_runPipe (first second : Statement) (s : Session) : s.Follows (runPipe run first second s) := by
  have hchild (isAsked : Bool) (statement : Statement) (start : Session) :
      start.Follows (leave run (run isAsked statement start)) :=
    (hrun isAsked statement start).trans (follows_leave hrun _)
  rw [runPipe]
  -- the two sides have sessions of their own, and what both did is put together
  dsimp only
  have hstart : s.Apart { s.child.setOutlet 1 .kept with kept := [] } := s.apart_child.of_eq rfl rfl
  have hbeside := Session.Follows.beside hstart (hchild false first _)
  have hdone (u : Session) (ready : Nat) (text : List Char) (kept : List String) : u.Follows
      (u.after { leave run (run false second ({ u.child with input := text }.clock ready)) with kept }) := by
    have hstart : u.Apart ({ u.child with input := text }.clock ready) := u.apart_child.of_eq rfl rfl
    exact .after hstart ((hchild false second _).of_end rfl rfl rfl)
  have hboth := fun ready text kept => hbeside.trans (hdone _ ready text kept)
  exact .ite ((hboth _ _ _).trans (follows_stop _ _ _)) (hboth _ _ _)

omit hrun in
/-- A statement that fails ends a strict shell. -/
theorem follows_strictly (isAsked : Bool) (s : Session) : s.Follows (strictly isAsked s) :=
  .ite (.of_eq rfl rfl rfl) (.refl s)

end Running

/-- **Whatever a statement says, what it does it does in time.** -/
theorem follows_runStatement (depth : Nat) (isAsked : Bool) (statement : Statement) (s : Session) :
    s.Follows (runStatement depth isAsked statement s) := by
  induction depth generalizing isAsked statement s with
  | zero => exact .of_eq rfl rfl rfl
  | succ depth hrun =>
    have hlists := follows_lists hrun
    have hlist (body : List Statement) (s : Session) : s.Follows (runList (runStatement depth) isAsked body s) :=
      follows_runList hrun isAsked body s
    have hdone (t : Session) (ht : s.Follows t) :
        s.Follows (if t.sprung.isEmpty then t else answerTraps (runStatement depth) t) :=
      .ite ht (ht.trans (follows_answerTraps hrun t))
    rw [runStatement.eq_def]
    refine hdone _ ?_
    -- each statement with the sessions of its parts in a row
    cases statement with
    | simple line assignments words redirections =>
      exact (follows_runSimple hrun isAsked _ _ _ _ s).trans (follows_strictly isAsked _)
    | pipe first second => exact (follows_runPipe hrun first second s).trans (follows_strictly isAsked _)
    | both first second | either first second =>
      have hfirst := hrun true first s
      exact .ite (hfirst.trans (hrun isAsked second _)) hfirst
    | negated body =>
      have hbody := hrun true body s
      exact .ite (hbody.trans (follows_withStatus _ _)) hbody
    | background body =>
      -- the shell does not wait: its own clock stays where it is
      have hstart : s.Apart { s.child with input := [] } := s.apart_child.of_eq rfl rfl
      have hchild := (hrun false body { s.child with input := [] }).trans (follows_leave hrun _)
      exact (Session.Follows.beside hstart hchild).of_end rfl rfl rfl
    | group apart body redirections =>
      cases apart with
      | false => exact follows_redirected hlists _ _ Session.Follows.refl (hlist body) s
      | true =>
        have hinside (c : Session) :
            c.Follows (leave (runStatement depth) (runList (runStatement depth) isAsked body c)) :=
          (hlist body c).trans (follows_leave hrun _)
        exact (follows_redirected hlists _ _ Session.Follows.refl (follows_inChild hinside) s).trans
          (follows_strictly isAsked _)
    | branch condition yes no =>
      have hcondition := follows_runList hrun true condition s
      refine .ite hcondition (.ite (hcondition.trans (hlist yes _)) ?_)
      exact (hcondition.trans (follows_withStatus _ 0)).trans (hlist no _)
    | loop endsWhenTrue condition body => exact follows_runLoop hrun endsWhenTrue condition body s
    | each name words body =>
      cases words with
      | none => exact (follows_withStatus s 0).trans (follows_runEach hrun name body _ _)
      | some words =>
        exact ((follows_expandWords hlists s words).trans (follows_withStatus _ 0)).trans
          (follows_runEach hrun name body _ _)
    | choice word choices =>
      have hword := follows_expandText hlists s word
      exact ((hword.trans (follows_chooseCase hlists _ _ choices)).trans (follows_withStatus _ 0)).trans (hlist _ _)
    | define name body => exact .of_eq rfl rfl rfl

/-! ## Processes

  By induction on the level, the runner of a process goes on in time. -/

theorem follows_run (s : Session) (found : Found) (arguments : List String) : s.Follows (run s found arguments) := by
  have hrun := follows_runStatement depthLimit
  rw [run.eq_def]
  cases found with
  | usual name => exact follows_usualProgram hrun true name arguments s
  | file path => exact follows_fileProgram hrun true path arguments s
  | missing | forbidden => exact .refl s

end Wheelwright.Shell
