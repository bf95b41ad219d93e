/-
  Ways — where paths lead in a tree, and what they look at.

  **Specification** — following pieces looks at some locations of the tree, and what is found depends on these alone
  (`read_congr`).  A path may be followed in two parts: as far as it leads over directories and links (`Reaches`), and
  on from there (`Reaches.walk_eq`).

  **Program** — `walk` follows pieces one by one and starts anew behind a link, with one link less to follow.  So the
  proofs are by induction on the links that are left, and for each number of them on the pieces.

  **The crux** — a way over directories and links stays what it is in every tree that has these directories and links
  (`Reaches.keeps`).  Files may come and go.
-/
import Wheelwright.FileTree.Operations

namespace Wheelwright.FileTree

variable {t u : FileTree} {follow : Bool} {n m k : Nat} {here loc : Location} {piece target : String}
  {pieces rest more : List String}

/-! ## One piece

  What a walk does with the first piece, one lemma for each of the four kinds: nothing, up, down, or over a link.  The
  walk through a link starts again with its target in front of the pieces that are left. -/

/-- Where the pieces of a link start. -/
def linkStart (here : Location) (target : String) : Location := if target.startsWith "/" then [] else here

/-- An idle piece stays where it is. -/
theorem walk_idle (hdir : t.get? here = some .directory) (hidle : isIdlePiece piece = true) :
    walk t follow (n + 1) here (piece :: rest) = walk t follow (n + 1) here rest := by
  rw [walk, walkPieces, hdir]
  exact if_pos hidle

/-- Two dots lead to the directory above. -/
theorem walk_up (hdir : t.get? here = some .directory) :
    walk t follow (n + 1) here (".." :: rest) = walk t follow (n + 1) here.dropLast rest := by
  rw [walk, walkPieces, hdir]
  rfl

/-- A name leads to the entry below. -/
theorem walk_down (hdir : t.get? here = some .directory) (hidle : isIdlePiece piece = false) (hup : piece ≠ "..")
    (hlink : ∀ target, t.get? (here ++ [piece]) ≠ some (.link target)) :
    walk t follow (n + 1) here (piece :: rest) = walk t follow (n + 1) (here ++ [piece]) rest := by
  rw [walk, walkPieces, hdir]
  dsimp only
  rw [hidle, if_neg Bool.false_ne_true, if_neg hup]
  split
  · rename_i target htarget
    exact absurd htarget (hlink target)
  · rfl

/-- A link leads to where it points, with what is left of the path behind it. -/
theorem walk_link (hdir : t.get? here = some .directory) (hidle : isIdlePiece piece = false) (hup : piece ≠ "..")
    (hlink : t.get? (here ++ [piece]) = some (.link target)) (hon : rest ≠ [] ∨ follow = true) :
    walk t follow (n + 1) here (piece :: rest) =
      walk t follow n (linkStart here target) (piecesOf '/' target ++ rest) := by
  have hstop : (rest.isEmpty && !follow) = false := by
    rcases hon with hrest | hfollow
    · rw [List.isEmpty_eq_false_iff.mpr hrest, Bool.false_and]
    · rw [hfollow, Bool.not_true, Bool.and_false]
  rw [walk, walkPieces, hdir]
  dsimp only
  rw [hidle, if_neg Bool.false_ne_true, if_neg hup, hlink]
  dsimp only
  rw [hstop, if_neg Bool.false_ne_true]
  rfl

/-- A link in the last place stands for itself if it is not followed. -/
theorem walk_last (hdir : t.get? here = some .directory) (hidle : isIdlePiece piece = false) (hup : piece ≠ "..") :
    walk t false (n + 1) here [piece] = .ok (here ++ [piece]) := by
  by_cases hlink : ∃ target, t.get? (here ++ [piece]) = some (.link target)
  · obtain ⟨target, htarget⟩ := hlink
    rw [walk, walkPieces, hdir]
    dsimp only
    rw [hidle, if_neg Bool.false_ne_true, if_neg hup, htarget]
    rfl
  · rw [walk_down hdir hidle hup fun target htarget => hlink ⟨target, htarget⟩]
    rfl

/-- The error where a path goes on and there is no directory. -/
def blockage (e : Option Entry) : OsError := if e = none then .notFound else .notDirectory

/-- Nothing leads on from what is no directory. -/
theorem walk_blocked (h : t.get? here ≠ some .directory) :
    walk t follow (n + 1) here (piece :: rest) = .error (blockage (t.get? here)) := by
  rw [walk, walkPieces]
  split
  · rename_i hnone
    rw [hnone]
    rfl
  · rename_i hdir
    exact absurd hdir h
  · rename_i e _ hsome
    rw [hsome]
    rfl

/-- Where pieces are followed, there is a directory. -/
theorem directory_of_walk (h : walk t follow n here (piece :: rest) = .ok loc) : t.get? here = some .directory := by
  cases n with
  | zero => cases h
  | succ n =>
    refine Decidable.byContradiction fun hdir => ?_
    rw [walk_blocked hdir] at h
    cases h

/-- What becomes of the first piece of a path that leads somewhere. -/
inductive Passes (t : FileTree) (follow : Bool) (n : Nat) (here : Location) (rest : List String)
    (loc : Location) : String → Prop
  /-- An idle piece. -/
  | idle {piece : String} (hidle : isIdlePiece piece = true) (h : walk t follow (n + 1) here rest = .ok loc) :
      Passes t follow n here rest loc piece
  /-- The way up. -/
  | up (h : walk t follow (n + 1) here.dropLast rest = .ok loc) : Passes t follow n here rest loc ".."
  /-- A name. -/
  | down {piece : String} (hidle : isIdlePiece piece = false) (hup : piece ≠ "..")
      (hlink : ∀ target, t.get? (here ++ [piece]) ≠ some (.link target))
      (h : walk t follow (n + 1) (here ++ [piece]) rest = .ok loc) : Passes t follow n here rest loc piece
  /-- A link, which costs one of those that may be followed. -/
  | link {piece target : String} (hidle : isIdlePiece piece = false) (hup : piece ≠ "..")
      (hlink : t.get? (here ++ [piece]) = some (.link target))
      (h : walk t follow n (linkStart here target) (piecesOf '/' target ++ rest) = .ok loc) :
      Passes t follow n here rest loc piece

/-- Whatever piece is passed, it is passed in one of these four ways. -/
theorem passes_of_walk (hon : rest ≠ [] ∨ follow = true) (h : walk t follow (n + 1) here (piece :: rest) = .ok loc) :
    Passes t follow n here rest loc piece := by
  have hdir := directory_of_walk h
  -- one case for each kind of piece: an idle one, the parent, a link, a name
  by_cases hidle : isIdlePiece piece = true
  · rw [walk_idle hdir hidle] at h
    exact .idle hidle h
  · rw [Bool.not_eq_true] at hidle
    by_cases hup : piece = ".."
    · subst hup
      rw [walk_up hdir] at h
      exact .up h
    · by_cases hlink : ∃ target, t.get? (here ++ [piece]) = some (.link target)
      · obtain ⟨target, htarget⟩ := hlink
        rw [walk_link hdir hidle hup htarget hon] at h
        exact .link hidle hup htarget h
      · have hlink : ∀ target, t.get? (here ++ [piece]) ≠ some (.link target) :=
          fun target htarget => hlink ⟨target, htarget⟩
        rw [walk_down hdir hidle hup hlink] at h
        exact .down hidle hup hlink h

/-! ## Ways over directories and links

  `Reaches` is the part of a walk that goes on, so what it stands on at each piece is a directory.  A walk over some
  pieces and then others is a way over the first, followed by the walk over the second. -/

/-- The pieces lead from `here` to `loc` over directories and links; `n` links may be followed before, `m` after. -/
inductive Reaches (t : FileTree) : Nat → Location → List String → Nat → Location → Prop
  /-- The way ends at a directory. -/
  | done {n : Nat} {here : Location} (hdir : t.get? here = some .directory) : Reaches t n here [] n here
  /-- An idle piece goes nowhere. -/
  | idle {n m : Nat} {here loc : Location} {piece : String} {rest : List String}
      (hdir : t.get? here = some .directory) (hidle : isIdlePiece piece = true) (h : Reaches t n here rest m loc) :
      Reaches t n here (piece :: rest) m loc
  /-- Two dots go up. -/
  | up {n m : Nat} {here loc : Location} {rest : List String} (hdir : t.get? here = some .directory)
      (h : Reaches t n here.dropLast rest m loc) : Reaches t n here (".." :: rest) m loc
  /-- A name goes down into a directory. -/
  | down {n m : Nat} {here loc : Location} {piece : String} {rest : List String}
      (hdir : t.get? here = some .directory) (hidle : isIdlePiece piece = false) (hup : piece ≠ "..")
      (h : Reaches t n (here ++ [piece]) rest m loc) : Reaches t n here (piece :: rest) m loc
  /-- A link goes on at its target. -/
  | link {n m : Nat} {here loc : Location} {piece target : String} {rest : List String}
      (hdir : t.get? here = some .directory) (hidle : isIdlePiece piece = false) (hup : piece ≠ "..")
      (hlink : t.get? (here ++ [piece]) = some (.link target))
      (h : Reaches t n (linkStart here target) (piecesOf '/' target ++ rest) m loc) :
      Reaches t (n + 1) here (piece :: rest) m loc

namespace Reaches

/-- A way begins at a directory. -/
theorem first (h : Reaches t n here pieces m loc) : t.get? here = some .directory := by
  cases h <;> assumption

/-- It ends at one. -/
theorem last (h : Reaches t n here pieces m loc) : t.get? loc = some .directory := by
  induction h with
  | done hdir => exact hdir
  | idle _ _ _ ih | up _ _ ih | down _ _ _ _ ih | link _ _ _ _ _ ih => exact ih

/-- The links that are left are no more than there were. -/
theorem links_le (h : Reaches t n here pieces m loc) : m ≤ n := by
  induction h with
  | done _ => exact Nat.le_refl _
  | idle _ _ _ ih | up _ _ ih | down _ _ _ _ ih => exact ih
  | link _ _ _ _ _ ih => exact Nat.le_succ_of_le ih

/-- **A path is followed as far as it leads over directories and links, and on from there.** -/
theorem walk_eq (h : Reaches t n here pieces m loc) (hon : more ≠ [] ∨ follow = true) :
    walk t follow (n + 1) here (pieces ++ more) = walk t follow (m + 1) loc more := by
  -- on the pieces that are reached; what follows them keeps a link from being the last one
  induction h with
  | done _ => rfl
  | idle hdir hidle _ ih => rw [List.cons_append, walk_idle hdir hidle, ih]
  | up hdir _ ih => rw [List.cons_append, walk_up hdir, ih]
  | down hdir hidle hup h ih =>
    have hlink : ∀ target, t.get? _ ≠ some (.link target) := fun target htarget => by
      rw [h.first] at htarget
      cases htarget
    rw [List.cons_append, walk_down hdir hidle hup hlink, ih]
  | link hdir hidle hup hlink _ ih =>
    rw [List.cons_append, walk_link hdir hidle hup hlink (hon.imp_left (List.append_ne_nil_of_right_ne_nil _)),
      ← List.append_assoc, ih]

/-- What a way looks at is there in every tree with the same directories and links. -/
theorem keeps (h : Reaches t n here pieces m loc)
    (hdirs : ∀ loc, t.get? loc = some .directory → u.get? loc = some .directory)
    (hlinks : ∀ loc target, t.get? loc = some (.link target) → u.get? loc = some (.link target)) :
    Reaches u n here pieces m loc := by
  induction h with
  | done hdir => exact .done (hdirs _ hdir)
  | idle hdir hidle _ ih => exact .idle (hdirs _ hdir) hidle ih
  | up hdir _ ih => exact .up (hdirs _ hdir) ih
  | down hdir hidle hup _ ih => exact .down (hdirs _ hdir) hidle hup ih
  | link hdir hidle hup hlink _ ih => exact .link (hdirs _ hdir) hidle hup (hlinks _ _ hlink) ih

end Reaches

/-- A path that leads somewhere reaches a directory before its last pieces. -/
theorem exists_reaches (hon : more ≠ [] ∨ follow = true ∧ t.get? loc = some .directory)
    (h : walk t follow n here (pieces ++ more) = .ok loc) :
    ∃ k m middle, n = k + 1 ∧ Reaches t k here pieces m middle ∧ walk t follow (m + 1) middle more = .ok loc := by
  -- by the links, and within them by the pieces, each of which is passed as in the walk
  induction n generalizing here pieces with
  | zero => cases h
  | succ n ih =>
    induction pieces generalizing here with
    | nil =>
      have hdir : t.get? here = some .directory := by
        cases more with
        | nil =>
          cases h
          exact (hon.resolve_left fun hne => hne rfl).2
        | cons piece rest => exact directory_of_walk h
      exact ⟨n, n, here, rfl, .done hdir, h⟩
    | cons piece rest ihp =>
      have hdir : t.get? here = some .directory := directory_of_walk h
      rw [List.cons_append] at h
      cases passes_of_walk (hon.imp (List.append_ne_nil_of_right_ne_nil _) (·.1)) h with
      | idle hidle hwalk =>
        obtain ⟨k, m, middle, hk, hreach, hmore⟩ := ihp hwalk
        exact ⟨k, m, middle, hk, .idle hdir hidle hreach, hmore⟩
      | up hwalk =>
        obtain ⟨k, m, middle, hk, hreach, hmore⟩ := ihp hwalk
        exact ⟨k, m, middle, hk, .up hdir hreach, hmore⟩
      | down hidle hup _ hwalk =>
        obtain ⟨k, m, middle, hk, hreach, hmore⟩ := ihp hwalk
        exact ⟨k, m, middle, hk, .down hdir hidle hup hreach, hmore⟩
      | link hidle hup hlink hwalk =>
        rw [← List.append_assoc] at hwalk
        obtain ⟨k, m, middle, hk, hreach, hmore⟩ := ih hwalk
        exact ⟨k + 1, m, middle, by omega, .link hdir hidle hup hlink hreach, hmore⟩

/-- The first pieces of a way are a way. -/
theorem Reaches.of_append (h : Reaches t n here (pieces ++ more) m loc) :
    ∃ k middle, Reaches t n here pieces k middle ∧ walk t true (k + 1) middle more = .ok loc := by
  have hwalk : walk t true (n + 1) here (pieces ++ more) = .ok loc := by
    have hall : walk t true (n + 1) here ((pieces ++ more) ++ []) = walk t true (m + 1) loc [] := h.walk_eq (Or.inr rfl)
    rwa [List.append_nil] at hall
  obtain ⟨k, j, middle, hk, hreach, hmore⟩ := exists_reaches (Or.inr ⟨rfl, h.last⟩) hwalk
  cases hk
  exact ⟨j, middle, hreach, hmore⟩

/-! ## What is looked at

  The locations that a walk looks at, in their order.  The list is computed by the same recursion as the walk, and the
  theorem is that trees with the same entries there give the same result. -/

/-- The locations that are looked at when pieces are followed; `viaLink` goes on behind a link. -/
def wayPieces (t : FileTree) (viaLink : Location → List String → List Location) :
    Location → List String → List Location
  | here, [] => [here]
  | here, piece :: rest =>
    here ::
      match t.get? here with
      | some .directory =>
        if isIdlePiece piece then wayPieces t viaLink here rest
        else if piece = ".." then wayPieces t viaLink here.dropLast rest
        else
          match t.get? (here ++ [piece]) with
          | some (.link target) =>
            (here ++ [piece]) :: viaLink (linkStart here target) (piecesOf '/' target ++ rest)
          | _ => wayPieces t viaLink (here ++ [piece]) rest
      | _ => []

/-- The locations that are looked at when pieces are followed over at most `n` links, and all links are followed. -/
def wayFrom (t : FileTree) : Nat → Location → List String → List Location
  | 0 => fun _ _ => []
  | n + 1 => wayPieces t (wayFrom t n)

/-- The locations that are looked at to find what a path leads to. -/
def way (t : FileTree) (p : Path) : List Location :=
  wayFrom t (linkLimit + 1) (if p.isAbsolute then [] else t.home) (piecesOf '/' p.text)

/-- The way over an idle piece looks at where it stands. -/
theorem wayFrom_idle (hdir : t.get? here = some .directory) (hidle : isIdlePiece piece = true) :
    wayFrom t (n + 1) here (piece :: rest) = here :: wayFrom t (n + 1) here rest := by
  rw [wayFrom, wayPieces, hdir]
  dsimp only
  rw [if_pos hidle]

/-- So does the way up. -/
theorem wayFrom_up (hdir : t.get? here = some .directory) :
    wayFrom t (n + 1) here (".." :: rest) = here :: wayFrom t (n + 1) here.dropLast rest := by
  rw [wayFrom, wayPieces, hdir]
  rfl

/-- A name is looked at where it stands, and so is what lies behind it. -/
theorem wayFrom_down (hdir : t.get? here = some .directory) (hidle : isIdlePiece piece = false) (hup : piece ≠ "..")
    (hlink : ∀ target, t.get? (here ++ [piece]) ≠ some (.link target)) :
    wayFrom t (n + 1) here (piece :: rest) = here :: wayFrom t (n + 1) (here ++ [piece]) rest := by
  rw [wayFrom, wayPieces, hdir]
  dsimp only
  rw [hidle, if_neg Bool.false_ne_true, if_neg hup]
  split
  · rename_i target htarget
    exact absurd htarget (hlink target)
  · rfl

/-- A link is looked at itself, and then its target. -/
theorem wayFrom_link (hdir : t.get? here = some .directory) (hidle : isIdlePiece piece = false) (hup : piece ≠ "..")
    (hlink : t.get? (here ++ [piece]) = some (.link target)) :
    wayFrom t (n + 1) here (piece :: rest) =
      here :: (here ++ [piece]) :: wayFrom t n (linkStart here target) (piecesOf '/' target ++ rest) := by
  rw [wayFrom, wayPieces, hdir]
  dsimp only
  rw [hidle, if_neg Bool.false_ne_true, if_neg hup, hlink]

/-- Where no directory is the way ends. -/
theorem wayFrom_blocked (h : t.get? here ≠ some .directory) : wayFrom t (n + 1) here (piece :: rest) = [here] := by
  rw [wayFrom, wayPieces]
  split
  · rename_i hdir
    exact absurd hdir h
  · rfl

/-- A way looks at where it starts. -/
theorem mem_wayFrom_here : here ∈ wayFrom t (n + 1) here pieces := by
  cases pieces <;> exact List.mem_cons_self

/-- **Where pieces lead, and over what, depends only on what is looked at.** -/
theorem walk_congr (h : ∀ loc ∈ wayFrom t n here pieces, u.get? loc = t.get? loc) :
    walk u true n here pieces = walk t true n here pieces ∧ wayFrom u n here pieces = wayFrom t n here pieces := by
  -- as the walk goes: at each step the trees agree on all that is looked at
  induction n generalizing here pieces with
  | zero => exact ⟨rfl, rfl⟩
  | succ n ih =>
    induction pieces generalizing here with
    | nil => exact ⟨rfl, rfl⟩
    | cons piece rest ihp =>
      have hhere : u.get? here = t.get? here := h here mem_wayFrom_here
      by_cases hdir : t.get? here = some .directory
      · have hdir' : u.get? here = some .directory := hhere.trans hdir
        by_cases hidle : isIdlePiece piece = true
        · rw [wayFrom_idle hdir hidle] at h
          obtain ⟨hwalk, hway⟩ := ihp fun loc hloc => h loc (List.mem_cons_of_mem _ hloc)
          rw [walk_idle hdir hidle, walk_idle hdir' hidle, wayFrom_idle hdir hidle, wayFrom_idle hdir' hidle, hway]
          exact ⟨hwalk, rfl⟩
        · rw [Bool.not_eq_true] at hidle
          by_cases hup : piece = ".."
          · subst hup
            rw [wayFrom_up hdir] at h
            obtain ⟨hwalk, hway⟩ := ihp fun loc hloc => h loc (List.mem_cons_of_mem _ hloc)
            rw [walk_up hdir, walk_up hdir', wayFrom_up hdir, wayFrom_up hdir', hway]
            exact ⟨hwalk, rfl⟩
          · by_cases hlink : ∃ target, t.get? (here ++ [piece]) = some (.link target)
            · obtain ⟨target, htarget⟩ := hlink
              rw [wayFrom_link hdir hidle hup htarget] at h
              have htarget' : u.get? (here ++ [piece]) = some (.link target) :=
                (h _ (List.mem_cons_of_mem _ List.mem_cons_self)).trans htarget
              obtain ⟨hwalk, hway⟩ := ih fun loc hloc => h loc (List.mem_cons_of_mem _ (List.mem_cons_of_mem _ hloc))
              rw [walk_link hdir hidle hup htarget (Or.inr rfl), walk_link hdir' hidle hup htarget' (Or.inr rfl),
                wayFrom_link hdir hidle hup htarget, wayFrom_link hdir' hidle hup htarget', hway]
              exact ⟨hwalk, rfl⟩
            · have hlink : ∀ target, t.get? (here ++ [piece]) ≠ some (.link target) :=
                fun target htarget => hlink ⟨target, htarget⟩
              rw [wayFrom_down hdir hidle hup hlink] at h
              have hlink' : ∀ target, u.get? (here ++ [piece]) ≠ some (.link target) := by
                rwa [h _ (List.mem_cons_of_mem _ mem_wayFrom_here)]
              obtain ⟨hwalk, hway⟩ := ihp fun loc hloc => h loc (List.mem_cons_of_mem _ hloc)
              rw [walk_down hdir hidle hup hlink, walk_down hdir' hidle hup hlink', wayFrom_down hdir hidle hup hlink,
                wayFrom_down hdir' hidle hup hlink', hway]
              exact ⟨hwalk, rfl⟩
      · -- there is nothing to follow
        have hdir' : u.get? here ≠ some .directory := by rwa [hhere]
        rw [walk_blocked hdir, walk_blocked hdir', wayFrom_blocked hdir, wayFrom_blocked hdir', hhere]
        exact ⟨rfl, rfl⟩

/-- The end of a way is looked at. -/
theorem mem_wayFrom_of_walk (h : walk t true n here pieces = .ok loc) : loc ∈ wayFrom t n here pieces := by
  -- as the walk goes, the place it comes to is the last that is looked at
  induction n generalizing here pieces with
  | zero => cases h
  | succ n ih =>
    induction pieces generalizing here with
    | nil =>
      cases h
      exact List.mem_cons_self
    | cons piece rest ihp =>
      have hdir := directory_of_walk h
      cases passes_of_walk (Or.inr rfl) h with
      | idle hidle hwalk =>
        rw [wayFrom_idle hdir hidle]
        exact List.mem_cons_of_mem _ (ihp hwalk)
      | up hwalk =>
        rw [wayFrom_up hdir]
        exact List.mem_cons_of_mem _ (ihp hwalk)
      | down hidle hup hlink hwalk =>
        rw [wayFrom_down hdir hidle hup hlink]
        exact List.mem_cons_of_mem _ (ihp hwalk)
      | link hidle hup hlink hwalk =>
        rw [wayFrom_link hdir hidle hup hlink]
        exact List.mem_cons_of_mem _ (List.mem_cons_of_mem _ (ih hwalk))

/-- An entry at the place a path leads to is found. -/
theorem find?_of_entry {p : Path} {e : Entry} (h : t.locate p follow = .ok loc) (he : t.get? loc = some e) :
    t.find? p follow = .ok (loc, e) := by
  rw [find?, h]
  simp only [bind, Except.bind, he]

/-- Where there is none, the path finds nothing. -/
theorem find?_of_missing {p : Path} (h : t.locate p follow = .ok loc) (he : t.get? loc = none) :
    t.find? p follow = .error .notFound := by
  rw [find?, h]
  simp only [bind, Except.bind, he]

/-- Trees that agree along a way have the same way. -/
theorem way_congr {p : Path} (hhome : u.home = t.home) (h : ∀ loc ∈ t.way p, u.get? loc = t.get? loc) :
    u.way p = t.way p := by
  rw [way, way, hhome]
  exact (walk_congr h).2

/-- They lead to the same place. -/
theorem locate_congr {p : Path} (hhome : u.home = t.home) (h : ∀ loc ∈ t.way p, u.get? loc = t.get? loc) :
    u.locate p true = t.locate p true := by
  rw [locate, locate, hhome, (walk_congr h).1]

/-- Where a path leads is looked at. -/
theorem mem_way_of_locate {p : Path} (h : t.locate p true = .ok loc) : loc ∈ t.way p := by
  rw [locate] at h
  split at h
  · cases h
  · split at h
    · cases h
    · exact mem_wayFrom_of_walk h

/-- They find the same there. -/
theorem find?_congr {p : Path} (hhome : u.home = t.home) (h : ∀ loc ∈ t.way p, u.get? loc = t.get? loc) :
    u.find? p true = t.find? p true := by
  have hlocate : u.locate p true = t.locate p true := locate_congr hhome h
  cases hloc : t.locate p true with
  | error e =>
    rw [find?, find?, hlocate, hloc]
    rfl
  | ok loc =>
    rw [hloc] at hlocate
    have hsame := h loc (mem_way_of_locate hloc)
    cases hentry : t.get? loc with
    | none => rw [find?_of_missing hloc hentry, find?_of_missing hlocate (hsame.trans hentry)]
    | some e => rw [find?_of_entry hloc hentry, find?_of_entry hlocate (hsame.trans hentry)]

/-- **What a file holds depends only on the locations on its way.** -/
theorem read_congr {p : Path} (hhome : u.home = t.home) (h : ∀ loc ∈ t.way p, u.get? loc = t.get? loc) :
    u.read p = t.read p := by
  rw [read, read, find?_congr hhome h]

/-! ## Reading

  What is read at the end of a path, by the entry that stands there. -/

/-- A path that leads nowhere is not read. -/
theorem read_of_error {p : Path} {e : OsError} (h : t.locate p true = .error e) : t.read p = .error e := by
  rw [read, find?, h]
  rfl

/-- Neither is one to a place without an entry. -/
theorem read_of_missing {p : Path} (h : t.locate p true = .ok loc) (hentry : t.get? loc = none) :
    t.read p = .error .notFound := by
  rw [read, find?_of_missing h hentry]
  rfl

/-- Neither is one to a directory. -/
theorem read_of_directory {p : Path} (h : t.locate p true = .ok loc) (hentry : t.get? loc = some .directory) :
    t.read p = .error .isDirectory := by
  rw [read, find?_of_entry h hentry]
  rfl

/-- A file is read as long as it can be. -/
theorem read_of_file {p : Path} {content : Bytes} {mode : Mode} (h : t.locate p true = .ok loc)
    (hentry : t.get? loc = some (.file content mode)) (hmode : mode ≠ .unreadable) : t.read p = .ok content := by
  rw [read, find?_of_entry h hentry]
  cases mode with
  | unreadable => exact absurd rfl hmode
  | plain => rfl
  | executable => rfl

/-- It is not read otherwise. -/
theorem read_of_unreadable {p : Path} {content : Bytes} (h : t.locate p true = .ok loc)
    (hentry : t.get? loc = some (.file content .unreadable)) : t.read p = .error .permissionDenied := by
  rw [read, find?_of_entry h hentry]
  rfl

/-! ## Parts of ways

  Ways can be cut, prolonged by idle pieces, and compared.  A way in a tree from which one link has been taken away is
  the way that it was, or it passed that link. -/

/-- What is looked at on a way: directories, links, and what comes after it. -/
theorem Reaches.mem_wayFrom {place : Location} (h : Reaches t n here pieces m loc)
    (hplace : place ∈ wayFrom t (n + 1) here (pieces ++ more)) :
    t.get? place = some .directory ∨ (∃ target, t.get? place = some (.link target)) ∨
      place ∈ wayFrom t (m + 1) loc more := by
  -- along the way: what it looks at before the rest are directories and links
  induction h with
  | done _ => exact Or.inr (Or.inr hplace)
  | idle hdir hidle _ ih =>
    rw [List.cons_append, wayFrom_idle hdir hidle] at hplace
    rcases List.mem_cons.mp hplace with rfl | hplace
    · exact Or.inl hdir
    · exact ih hplace
  | up hdir _ ih =>
    rw [List.cons_append, wayFrom_up hdir] at hplace
    rcases List.mem_cons.mp hplace with rfl | hplace
    · exact Or.inl hdir
    · exact ih hplace
  | down hdir hidle hup hrest ih =>
    have hlink : ∀ target, t.get? _ ≠ some (.link target) := fun target htarget => by
      rw [hrest.first] at htarget
      cases htarget
    rw [List.cons_append, wayFrom_down hdir hidle hup hlink] at hplace
    rcases List.mem_cons.mp hplace with rfl | hplace
    · exact Or.inl hdir
    · exact ih hplace
  | link hdir hidle hup hlink _ ih =>
    rw [List.cons_append, wayFrom_link hdir hidle hup hlink, ← List.append_assoc] at hplace
    rcases List.mem_cons.mp hplace with rfl | hplace
    · exact Or.inl hdir
    · rcases List.mem_cons.mp hplace with rfl | hplace
      · exact Or.inr (Or.inl ⟨_, hlink⟩)
      · exact ih hplace

/-- What is looked at on a way is looked at on its parts. -/
theorem Reaches.mem_wayFrom_append {place : Location} (h : Reaches t n here pieces m loc) :
    place ∈ wayFrom t (n + 1) here (pieces ++ more) ↔
      place ∈ wayFrom t (n + 1) here pieces ∨ place ∈ wayFrom t (m + 1) loc more := by
  -- along the way, piece by piece
  induction h with
  | @done n here _ =>
    refine ⟨Or.inr, fun hplace => hplace.elim (fun hhere => ?_) id⟩
    rw [List.mem_singleton.mp hhere]
    exact mem_wayFrom_here
  | idle hdir hidle _ ih =>
    rw [List.cons_append, wayFrom_idle hdir hidle, wayFrom_idle hdir hidle, List.mem_cons, List.mem_cons, ih, or_assoc]
  | up hdir _ ih => rw [List.cons_append, wayFrom_up hdir, wayFrom_up hdir, List.mem_cons, List.mem_cons, ih, or_assoc]
  | down hdir hidle hup hrest ih =>
    have hlink : ∀ target, t.get? _ ≠ some (.link target) := fun target htarget => by
      rw [hrest.first] at htarget
      cases htarget
    rw [List.cons_append, wayFrom_down hdir hidle hup hlink, wayFrom_down hdir hidle hup hlink, List.mem_cons,
      List.mem_cons, ih, or_assoc]
  | link hdir hidle hup hlink _ ih =>
    rw [List.cons_append, wayFrom_link hdir hidle hup hlink, wayFrom_link hdir hidle hup hlink, ← List.append_assoc,
      List.mem_cons, List.mem_cons, List.mem_cons, List.mem_cons, ih, or_assoc, or_assoc]

/-- If one link is taken away, a way stays what it is unless it passes the link. -/
theorem Reaches.keeps_or_passes {dir : Location} {name : String} (h : Reaches t n here pieces m loc)
    (hdirs : ∀ loc, t.get? loc = some .directory → u.get? loc = some .directory)
    (hlinks : ∀ loc target, loc ≠ dir ++ [name] → t.get? loc = some (.link target) → u.get? loc = some (.link target))
    (htarget : t.get? (dir ++ [name]) = some (.link target)) :
    Reaches u n here pieces m loc ∨
      ∃ k rest, m ≤ k ∧ Reaches t k (linkStart dir target) (piecesOf '/' target ++ rest) m loc := by
  -- a way that goes through the link in question passes on to what the link names
  induction h with
  | done hdir => exact Or.inl (.done (hdirs _ hdir))
  | idle hdir hidle _ ih => exact ih.imp_left (.idle (hdirs _ hdir) hidle)
  | up hdir _ ih => exact ih.imp_left (.up (hdirs _ hdir))
  | down hdir hidle hup _ ih => exact ih.imp_left (.down (hdirs _ hdir) hidle hup)
  | @link _ _ here _ piece _ _ hdir hidle hup hlink hrest ih =>
    by_cases hplace : here ++ [piece] = dir ++ [name]
    · rw [hplace, htarget] at hlink
      cases hlink
      obtain ⟨rfl, -⟩ := List.append_inj' hplace rfl
      exact Or.inr ⟨_, _, hrest.links_le, hrest⟩
    · exact ih.imp_left (.link (hdirs _ hdir) hidle hup (hlinks _ _ hplace hlink))

/-- Idle pieces at the end of a way lead nowhere else. -/
theorem Reaches.append_idles (h : Reaches t n here pieces m loc) (hmore : ∀ piece ∈ more, isIdlePiece piece = true) :
    Reaches t n here (pieces ++ more) m loc := by
  -- on the pieces before the idle ones
  induction h with
  | done hdir =>
    rw [List.nil_append]
    induction more with
    | nil => exact .done hdir
    | cons piece rest ih =>
      exact .idle hdir (hmore piece List.mem_cons_self) (ih fun piece hpiece => hmore piece (List.mem_cons_of_mem _ hpiece))
  | idle hdir hidle _ ih => exact .idle hdir hidle ih
  | up hdir _ ih => exact .up hdir ih
  | down hdir hidle hup _ ih => exact .down hdir hidle hup ih
  | link hdir hidle hup hlink _ ih =>
    rw [List.append_assoc] at ih
    exact .link hdir hidle hup hlink ih

/-- Pieces lead to one directory. -/
theorem Reaches.unique {loc' : Location} {m' : Nat} (h : Reaches t n here pieces m loc)
    (h' : Reaches t n here pieces m' loc') : loc' = loc := by
  have hwalk : walk t true (n + 1) here (pieces ++ []) = .ok loc := h.walk_eq (Or.inr rfl)
  have hwalk' : walk t true (n + 1) here (pieces ++ []) = .ok loc' := h'.walk_eq (Or.inr rfl)
  rw [hwalk] at hwalk'
  cases hwalk'
  rfl

/-- There is no way on from where nothing is. -/
theorem walk_missing (h : t.get? here = none) : walk t follow (n + 1) here (piece :: rest) = .error .notFound := by
  rw [walk_blocked (by rw [h]; nofun), h]
  rfl

/-- With fewer links to follow, a path leads to the same, or there are too many of them. -/
theorem walk_fewer (h : m ≤ n) :
    walk t follow m here pieces = .error .tooManyLinks ∨ walk t follow m here pieces = walk t follow n here pieces := by
  -- a walk with fewer links to follow gives up or takes the same steps
  induction m generalizing n here pieces with
  | zero => exact Or.inl rfl
  | succ m ih =>
    obtain ⟨n, rfl⟩ : ∃ k, n = k + 1 := ⟨n - 1, by omega⟩
    induction pieces generalizing here with
    | nil => exact Or.inr rfl
    | cons piece rest ihp =>
      by_cases hdir : t.get? here = some .directory
      · by_cases hidle : isIdlePiece piece = true
        · rw [walk_idle hdir hidle, walk_idle hdir hidle]
          exact ihp
        · rw [Bool.not_eq_true] at hidle
          by_cases hup : piece = ".."
          · subst hup
            rw [walk_up hdir, walk_up hdir]
            exact ihp
          · by_cases hlink : ∃ target, t.get? (here ++ [piece]) = some (.link target)
            · obtain ⟨target, htarget⟩ := hlink
              by_cases hon : rest ≠ [] ∨ follow = true
              · rw [walk_link hdir hidle hup htarget hon, walk_link hdir hidle hup htarget hon]
                exact ih (Nat.le_of_succ_le_succ h)
              · obtain ⟨hrest, hfollow⟩ := not_or.mp hon
                rw [Decidable.not_not.mp hrest, Bool.not_eq_true _ |>.mp hfollow, walk_last hdir hidle hup,
                  walk_last hdir hidle hup]
                exact Or.inr rfl
            · have hlink : ∀ target, t.get? (here ++ [piece]) ≠ some (.link target) :=
                fun target htarget => hlink ⟨target, htarget⟩
              rw [walk_down hdir hidle hup hlink, walk_down hdir hidle hup hlink]
              exact ihp
      · exact Or.inr (by rw [walk_blocked hdir, walk_blocked hdir])

/-- Idle pieces lead nowhere else. -/
theorem eq_of_mem_wayFrom_idles {place : Location} (h : ∀ piece ∈ pieces, isIdlePiece piece = true)
    (hplace : place ∈ wayFrom t (n + 1) here pieces) : place = here := by
  induction pieces with
  | nil => exact List.mem_singleton.mp hplace
  | cons piece rest ih =>
    by_cases hdir : t.get? here = some .directory
    · rw [wayFrom_idle hdir (h piece List.mem_cons_self)] at hplace
      rcases List.mem_cons.mp hplace with rfl | hplace
      · rfl
      · exact ih (fun piece hpiece => h piece (List.mem_cons_of_mem _ hpiece)) hplace
    · rw [wayFrom_blocked hdir] at hplace
      exact List.mem_singleton.mp hplace

/-- In an empty directory there is nothing to be found. -/
theorem walk_empty (hdir : t.get? here = some .directory) (hempty : ∀ name, t.get? (here ++ [name]) = none)
    (hup : ".." ∉ pieces) (hname : ∃ piece ∈ pieces, isIdlePiece piece = false) :
    walk t follow (n + 1) here pieces = .error .notFound ∨
      ∃ loc, walk t follow (n + 1) here pieces = .ok loc ∧ t.get? loc = none := by
  -- idle pieces stay; the first name leads to nothing
  induction pieces with
  | nil =>
    obtain ⟨piece, hpiece, -⟩ := hname
    cases hpiece
  | cons piece rest ih =>
    by_cases hidle : isIdlePiece piece = true
    · rw [walk_idle hdir hidle]
      refine ih (fun hmem => hup (List.mem_cons_of_mem _ hmem)) ?_
      obtain ⟨name, hmem, hname⟩ := hname
      rcases List.mem_cons.mp hmem with rfl | hmem
      · rw [hidle] at hname
        cases hname
      · exact ⟨name, hmem, hname⟩
    · rw [Bool.not_eq_true] at hidle
      have hne : piece ≠ ".." := fun heq => hup (heq ▸ List.mem_cons_self)
      rw [walk_down hdir hidle hne fun target htarget => by rw [hempty] at htarget; cases htarget]
      cases rest with
      | nil => exact Or.inr ⟨_, rfl, hempty piece⟩
      | cons next rest => exact Or.inl (walk_missing (hempty piece))

end Wheelwright.FileTree
