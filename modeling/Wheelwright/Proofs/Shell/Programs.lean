/-
  Programs of a shell — every utility and every builtin goes on in time.

  **Specification** — `Advances u`: whatever the arguments, the session after the program `u` follows the one before it.
  It holds of everything in the two tables of builtins and in that of the utilities, so nothing needs to be known of a
  program that is looked up by its name but that it is in a table (`advances_of_lookup`).

  **Program** — most programs do something for each argument and say why it could not be done.  Their texts and what they
  do to files are nothing to this: only the operations of the session count that they are made of.
-/
import Wheelwright.Shell.Builtin
import Wheelwright.Proofs.Shell.Sessions

namespace Wheelwright.Shell

open Session (follows_withStatus follows_assign follows_exports follows_of_change follows_changePartly follows_emit
  follows_say follows_complain follows_complainHere follows_giveUp follows_receive follows_waitUntil follows_tellKilled
  follows_stop)

variable {s t : Session}

/-- A program goes on in time, whatever its arguments. -/
def Advances (u : Utility) : Prop := ∀ (arguments : List String) (s : Session), s.Follows (u arguments s)

/-- A program that stands in a table. -/
theorem advances_of_lookup {name : String} {u : Utility} {table : List (String × Utility)}
    (hall : ∀ e ∈ table, Advances e.2) (h : table.lookup name = some u) : Advances u := by
  induction table with
  | nil => cases h
  | cons e rest ih =>
    rw [List.lookup_cons] at h
    split at h
    · cases h
      exact hall e List.mem_cons_self
    · exact ih (fun x hx => hall x (List.mem_cons_of_mem _ hx)) h

/-! ## Conditions

  A condition looks at files and texts, and leaves a status behind. -/

/-- A condition changes the status alone. -/
theorem Condition.follows_run (s : Session) (words : List String) : s.Follows (Condition.run s words) := by
  rw [Condition.run]
  split
  · exact follows_withStatus s 0
  · exact follows_withStatus s 1
  · exact follows_complainHere s 2 _

/-! ## Utilities

  One lemma for each utility, made of the operations it consists of.  Those without a remark do what their names say,
  and no text that they write matters here. -/

namespace Utility

/-- What is done for each argument goes on from the one before. -/
theorem follows_forEach {f : Session → String → Session} (h : ∀ (s : Session) a, s.Follows (f s a))
    (arguments : List String) (s : Session) : s.Follows (forEach f arguments s) := by
  refine (follows_withStatus s 0).trans (.foldl (fun s a => ?_) arguments _)
  have hone : s.Follows (f (s.withStatus 0) a) := (follows_withStatus s 0).trans (h _ a)
  dsimp only
  split
  · exact hone.trans (follows_withStatus _ _)
  · exact hone

/-- What is attempted changes files, or the status. -/
theorem follows_attempt (s : Session) (failure : String) (f : FileTree → Except OsError FileTree) :
    s.Follows (attempt s failure f) := by
  rw [attempt]
  split
  · rename_i t ht
    exact (follows_of_change ht).trans (follows_withStatus t 0)
  · exact follows_complain s 1 _

/-- Reading a file or the input writes nothing. -/
theorem follows_of_contentOf {name : String} {text : List Char} (h : contentOf s name = .ok (text, t)) : s.Follows t := by
  rw [contentOf] at h
  split at h
  · cases h
    exact .of_eq rfl rfl rfl
  · split at h
    · cases h
      exact .refl s
    · split at h
      · cases h
        exact .refl s
      · cases hread : s.tree.read (s.path name) with
        | error e =>
          rw [hread] at h
          cases h
        | ok bytes =>
          rw [hread] at h
          cases h
          exact .refl s

/-- What is done with each file goes on from the one before. -/
theorem follows_reading {f : Session → String → List Char → Session} (name : String) (files : List String)
    (h : ∀ (s : Session) file text, s.Follows (f s file text)) (s : Session) : s.Follows (reading name files f s) := by
  refine follows_forEach (fun s file => ?_) _ s
  split
  · rename_i text t hcontent
    exact (follows_of_contentOf hcontent).trans (h t file text)
  · exact follows_complain s 1 _
  · exact follows_complain s 1 _

/-- Each utility goes on from the session it is called in: it says something, changes files, or lets time pass. -/
theorem advances_basename : Advances basename := fun _ s => follows_say s _

theorem advances_dirname : Advances dirname := fun arguments s => follows_forEach (fun s _ => follows_say s _) arguments s

theorem advances_cat : Advances cat := fun _ s => follows_reading _ _ (fun s _ _ => follows_say s _) s

theorem advances_head : Advances headUtility := by
  intro arguments s
  refine follows_reading _ _ (fun s _ text => ?_) s
  split
  · exact follows_say s _
  · exact follows_say s _

theorem advances_tail : Advances tailUtility := fun _ s => follows_reading _ _ (fun s _ _ => follows_say s _) s

theorem advances_wc : Advances wc := fun _ s => follows_reading _ _ (fun s _ _ => follows_say s _) s

theorem advances_tr : Advances tr := fun _ s => (follows_say { s with input := [] } _).of_start rfl rfl rfl

theorem advances_sort : Advances sortUtility := by
  intro arguments s
  have hstart (files : List String) : s.Follows
      (if files.isEmpty then (s.input, { s with input := [] }) else ([], s) : List Char × Session).2 := by
    split
    · exact .of_eq rfl rfl rfl
    · exact .refl s
  refine ((hstart _).trans (.foldl_snd (fun p file => ?_) _ _)).trans (follows_say _ _)
  dsimp only
  split
  · rename_i hcontent
    exact follows_of_contentOf hcontent
  · exact .refl p.2

theorem advances_tee : Advances tee := by
  intro arguments s
  rw [tee]
  have hsaid (text : String) : s.Follows ({ s with input := [] }.say text) := (follows_say _ text).of_start rfl rfl rfl
  exact (hsaid _).trans (follows_forEach (fun s _ => follows_attempt s _ _) _ _)

theorem advances_seq : Advances seq := by
  intro arguments s
  exact follows_say s _

theorem advances_yes : Advances yes := by
  intro arguments s
  have hsaid (text : String) : s.Follows { s.say text with flow := .stuck } :=
    (follows_say s text).of_end rfl rfl rfl
  exact hsaid _

theorem advances_mkdir : Advances mkdir := by
  intro arguments s
  rw [mkdir]
  split
  refine follows_forEach (fun s a => ?_) _ s
  dsimp only
  split
  · have hpartly := follows_changePartly s (·.makeAll (s.path a))
    split
    · rename_i t heq
      rw [heq] at hpartly
      exact hpartly.trans (follows_withStatus t 0)
    · rename_i t e heq
      rw [heq] at hpartly
      exact hpartly.trans (follows_complain t 1 _)
  · exact follows_attempt s _ _

theorem advances_rmdir : Advances rmdir := fun _ s => follows_forEach (fun s _ => follows_attempt s _ _) _ s

theorem advances_rm : Advances rm := by
  intro arguments s
  rw [rm]
  split
  refine follows_forEach (fun s a => ?_) _ s
  dsimp only
  split
  · split
    · exact .refl s
    · exact follows_complain s 1 _
  · split
    · exact follows_attempt s _ _
    · exact follows_complain s 1 _
  · exact follows_attempt s _ _

theorem advances_touch : Advances touch := by
  intro arguments s
  refine follows_forEach (fun s a => ?_) _ s
  dsimp only
  split
  · exact .refl s
  · exact follows_attempt s _ _

theorem advances_chmod : Advances chmod := by
  intro arguments s
  cases arguments with
  | nil => exact follows_complain s 1 _
  | cons mode names =>
    rw [chmod]
    refine follows_forEach (fun s a => ?_) _ s
    dsimp only
    split
    · exact follows_complain s 1 _
    · exact follows_attempt s _ _
    · exact .refl s

theorem advances_cp : Advances cp := by
  intro arguments s
  rw [cp]
  dsimp only
  split
  · exact follows_complain s 1 _
  · refine follows_forEach (fun s a => ?_) _ s
    split
    · exact follows_complain s 1 _
    · split
      · exact follows_attempt s _ _
      · exact follows_complain s 1 _
    · exact follows_attempt s _ _

theorem advances_mv : Advances mv := by
  intro arguments s
  rw [mv]
  dsimp only
  split
  · exact follows_complain s 1 _
  · refine follows_forEach (fun s a => ?_) _ s
    split
    · exact follows_complain s 1 _
    · exact follows_attempt s _ _

theorem advances_ln : Advances ln := by
  intro arguments s
  rw [ln]
  dsimp only
  split
  · split
    · exact follows_attempt s _ _
    · exact follows_attempt s _ _
  · exact follows_complain s 1 _

theorem advances_ls : Advances ls := by
  intro arguments s
  delta ls
  split
  extract_lets _ _ each isDirectory t
  have hfiles : s.Follows t := by
    refine follows_forEach (fun s a => ?_) each s
    split
    · exact follows_complain s 2 _
    · exact .ite (.refl s) (follows_say s _)
  -- the directories follow, with what lies in them
  refine (hfiles.trans (.foldl_fst (fun p a => ?_) _ (_, _))).trans (follows_withStatus _ _)
  exact follows_say p.1 _

/-- **Every utility goes on in time.** -/
theorem advances_of_mem_table : ∀ e ∈ table, Advances e.2 := by
  simp only [table, List.forall_mem_cons, List.not_mem_nil, false_imp_iff, implies_true, and_true]
  exact ⟨fun _ s => follows_withStatus s 0, fun _ s => follows_withStatus s 1, advances_basename, advances_dirname,
    advances_cat, advances_head, advances_tail, advances_wc, advances_tr, advances_sort, advances_tee, advances_seq,
    advances_yes, advances_mkdir, advances_rmdir, advances_rm, advances_touch, advances_chmod, advances_cp, advances_mv,
    advances_ln, advances_ls⟩

end Utility

/-! ## Builtins

  The builtins change the session itself, its variables, its directory or its jobs.  None of these is part of what
  follows. -/

namespace Builtin

/-- The same holds for the builtins. -/
theorem advances_ending (name : String) (flow : Flow) : Advances (ending name flow) := by
  intro arguments s
  rw [ending]
  split
  · exact .of_eq rfl rfl rfl
  · split
    · exact .of_eq rfl rfl rfl
    · exact follows_giveUp s 2 _ _

theorem advances_looping (flow : Nat → Flow) : Advances (looping flow) := fun _ _ => .of_eq rfl rfl rfl

theorem advances_cd : Advances cd := by
  intro arguments s
  have hmoved (p : Path) : s.Follows
      { (s.assign "OLDPWD" (ofText s.directory.text)).assign "PWD" (ofText p.text) with directory := p } :=
    .of_eq rfl rfl rfl
  exact .ite (.ite ((hmoved _).trans (follows_say _ _)) ((hmoved _).trans (follows_withStatus _ 0)))
    (follows_complainHere s 2 _)

theorem advances_pwd : Advances pwd := fun _ s => follows_say s _

theorem advances_declare : Advances declare := by
  intro arguments s
  refine Session.Follows.trans (.foldl (fun s a => ?_) arguments s) (follows_withStatus _ 0)
  split
  · exact follows_assign s _ _
  · exact .refl s

theorem advances_exporting : Advances exporting := fun arguments s =>
  (advances_declare arguments s).trans (.foldl (fun s _ => follows_exports s _) _ _)

theorem advances_unset : Advances unset := by
  intro arguments s
  refine Session.Follows.trans (.foldl (fun s a => ?_) _ s) (follows_withStatus _ 0)
  exact .of_eq rfl rfl rfl

theorem advances_shift : Advances shift := by
  intro arguments s
  rw [shift]
  dsimp only
  split
  · exact .of_eq rfl rfl rfl
  · exact follows_giveUp s 2 _ _

theorem advances_set : Advances set := by
  intro arguments s
  have hset (settings : List String) : s.Follows (settings.foldl (fun s a =>
      if a.toList.contains 'e' then { s with isStrict := a.startsWith "-" } else s) (s.withStatus 0)) := by
    refine (follows_withStatus s 0).trans (.foldl (fun s a => ?_) _ _)
    exact .ite (.of_eq rfl rfl rfl) (.refl s)
  rw [set]
  split
  · exact hset _
  · exact (hset _).of_end rfl rfl rfl
  · exact (hset _).of_end rfl rfl rfl

theorem follows_assignFields (s : Session) (names : List String) (line : List Char) :
    s.Follows (assignFields s names line) := by
  induction s, names, line using assignFields.induct with
  | case1 s line => exact .refl s
  | case2 s line name => exact follows_assign s _ _
  | case3 s line name rest hne line' field ih =>
    rw [assignFields]
    · exact (follows_assign s _ _).trans ih
    · exact hne

theorem advances_read : Advances read := by
  intro arguments s
  rw [read]
  split
  exact ((follows_assignFields _ _ _).trans (follows_withStatus _ _)).of_start rfl rfl rfl

theorem follows_send (signal : String) (s : Session) (target : String) : s.Follows (send signal s target) := by
  rw [send]
  split
  · exact follows_complainHere s 1 _
  · dsimp only
    split
    · exact follows_complainHere s 1 _
    · split
      · exact follows_withStatus s 0
      · split
        · exact (follows_withStatus s 0).trans (follows_receive _ _)
        · exact (follows_stop s _ _).trans (follows_withStatus _ 0)

theorem advances_kill : Advances kill := by
  intro arguments s
  delta kill
  split
  extract_lets
  split
  · exact follows_complainHere s 2 _
  · exact (follows_withStatus s 0).trans (.foldl (follows_send _) _ _)

theorem advances_wait : Advances wait := by
  intro arguments s
  have hwaited (time : Nat) : s.Follows (s.waitUntil time true) := follows_waitUntil s time true
  refine .ite (hwaited _) (.ite ((hwaited _).trans (follows_withStatus _ _))
    (.ite ((hwaited _).of_end rfl rfl rfl) ?_))
  split
  · exact (hwaited _).trans (follows_withStatus _ _)
  · split
    · exact (hwaited _).trans (follows_withStatus _ _)
    · refine Session.Follows.trans (.ite ?_ (hwaited _)) (follows_withStatus _ _)
      exact (hwaited _).trans (follows_tellKilled _ _)

theorem advances_trap : Advances trap := by
  intro arguments s
  rw [trap]
  split
  · exact follows_withStatus s 0
  · refine Session.Follows.trans (.foldl (fun s name => ?_) _ s) (follows_withStatus _ 0)
    exact .ite (.of_eq rfl rfl rfl) (.of_eq rfl rfl rfl)

theorem advances_echo : Advances echo := fun _ s => follows_say s _

theorem advances_printf : Advances printf := by
  intro arguments s
  rw [printf]
  split
  · exact follows_complainHere s 2 _
  · exact (follows_say s _).trans (.foldl (fun s _ => follows_complainHere s 1 _) _ _)

theorem advances_bracket : Advances bracket := by
  intro arguments s
  rw [bracket]
  split
  · exact Condition.follows_run s _
  · exact follows_complainHere s 2 _

/-- **Every builtin goes on in time.** -/
theorem advances_of_mem_special : ∀ e ∈ special, Advances e.2 := by
  simp only [special, List.forall_mem_cons, List.not_mem_nil, false_imp_iff, implies_true, and_true]
  exact ⟨fun _ s => follows_withStatus s 0, advances_ending _ _, advances_ending _ _, advances_looping _,
    advances_looping _, advances_exporting, advances_declare, advances_unset, advances_shift, advances_set, advances_trap⟩

theorem advances_of_mem_regular : ∀ e ∈ regular, Advances e.2 := by
  simp only [regular, List.forall_mem_cons, List.not_mem_nil, false_imp_iff, implies_true, and_true]
  exact ⟨advances_cd, advances_pwd, advances_declare, advances_read, advances_kill, advances_wait, advances_echo,
    advances_printf, fun words s => Condition.follows_run s words, advances_bracket, fun _ s => follows_withStatus s 0⟩

end Builtin

end Wheelwright.Shell
