/-
  Patterns — expressions whose matches keep parts of a text.

  **Specification** — `Pattern.run p kept cs k` matches `p` at the start of the text `cs` and goes on with `k` from what is
  left.  Where a pattern can match in several ways they are tried in a fixed order, the longer one first for what is
  greedy and the shorter one first for what is lazy, and the first way that `k` can go on from counts.

  **The crux** — a run of characters of a class is taken back and tried shorter only while the rest of the pattern fails.
  If nothing that can follow starts with a character of the class, the run is the longest one whatever the order
  (`runMany_of_blocked`); if the rest succeeds after the longest run, a greedy one stays there (`runMany_of_isSome`).
-/

namespace Wheelwright

/-- A pattern over characters. -/
inductive Pattern where
  /-- The empty text. -/
  | empty
  /-- One character of a class. -/
  | one (p : Char → Bool)
  /-- Any number of characters of a class. -/
  | many (greedy : Bool) (p : Char → Bool)
  /-- One pattern and then another. -/
  | andThen (first second : Pattern)
  /-- The pattern, or nothing if that leads nowhere. -/
  | optional (p : Pattern)
  /-- The pattern, whose text is kept under a name. -/
  | keep (name : String) (p : Pattern)
  /-- The end of the text. -/
  | finish

namespace Pattern

/-- What has been kept, by name. -/
abbrev Kept := List (String × List Char)

section Run

variable {β : Type}

/-- Goes on after a run of characters of a class. -/
def runMany (greedy : Bool) (p : Char → Bool) (k : List Char → Option β) : List Char → Option β
  | [] => k []
  | c :: rest =>
    if p c then
      if greedy then (runMany greedy p k rest).or (k (c :: rest)) else (k (c :: rest)).or (runMany greedy p k rest)
    else k (c :: rest)

/-- Goes on after the pattern. -/
def run : Pattern → Kept → List Char → (Kept → List Char → Option β) → Option β
  | .empty, kept, cs, k => k kept cs
  | .one p, kept, cs, k =>
    match cs with
    | [] => none
    | c :: rest => if p c then k kept rest else none
  | .many greedy p, kept, cs, k => runMany greedy p (k kept) cs
  | .andThen first second, kept, cs, k => first.run kept cs fun kept rest => second.run kept rest k
  | .optional p, kept, cs, k => (p.run kept cs k).or (k kept cs)
  | .keep name p, kept, cs, k =>
    p.run kept cs fun kept rest => k (kept ++ [(name, cs.take (cs.length - rest.length))]) rest
  | .finish, kept, cs, k => if cs.isEmpty then k kept cs else none

/-- What the pattern keeps of a text at whose start it matches. -/
def matches? (p : Pattern) (cs : List Char) : Option Kept := p.run [] cs fun kept _ => some kept

/-- The patterns one after the other. -/
def sequence : List Pattern → Pattern
  | [] => .empty
  | p :: rest => .andThen p (sequence rest)

/-- One character or more of a class, as many as can be. -/
def oneOrMore (p : Char → Bool) : Pattern := .andThen (.one p) (.many true p)

/-- One character after the other. -/
def literal (text : String) : Pattern := sequence (text.toList.map fun c => .one (· = c))

/-! ## Runs of a class

  A run of a class may end anywhere, and where it ends is decided by what comes next.  These are the cases in which it
  ends where the class does. -/

variable {greedy : Bool} {p : Char → Bool} {k : List Char → Option β} {kept : Kept} {cs rest : List Char}

/-- A run ends where its class ends, if one that ends earlier leads nowhere. -/
theorem runMany_of_blocked (hk : ∀ c rest, p c = true → k (c :: rest) = none) (cs : List Char) :
    runMany greedy p k cs = k (cs.dropWhile p) := by
  induction cs with
  | nil => rfl
  | cons c rest ih =>
    rw [runMany, List.dropWhile_cons]
    by_cases hc : p c = true
    · rw [if_pos hc, if_pos hc, hk c rest hc, ih]
      cases greedy
      · exact Option.none_or
      · exact Option.or_none
    · rw [if_neg hc, if_neg hc]

/-- A greedy run ends where its class ends, if the pattern can go on there. -/
theorem runMany_of_isSome (h : (k (cs.dropWhile p)).isSome = true) : runMany true p k cs = k (cs.dropWhile p) := by
  induction cs with
  | nil => rfl
  | cons c rest ih =>
    rw [List.dropWhile_cons] at h ⊢
    rw [runMany]
    by_cases hc : p c = true
    · rw [if_pos hc] at h
      rw [if_pos hc, if_pos hc, if_pos rfl, ih h]
      exact Option.or_of_isSome h
    · rw [if_neg hc, if_neg hc]

/-- A run leads nowhere if no part of the text leads anywhere that holds what stands behind the class. -/
theorem runMany_eq_none (h : ∀ rest, cs.dropWhile p <:+ rest → k rest = none) : runMany greedy p k cs = none := by
  induction cs with
  | nil => exact h [] (List.suffix_refl _)
  | cons c rest ih =>
    rw [runMany]
    by_cases hc : p c = true
    · rw [List.dropWhile_cons, if_pos hc] at h
      rw [if_pos hc, ih h, h (c :: rest) ((List.dropWhile_suffix p).trans (List.suffix_cons c rest))]
      cases greedy <;> rfl
    · rw [if_neg hc]
      exact h _ (List.dropWhile_suffix p)

/-! ## Parts of patterns

  The equations of a pattern, part by part. -/

variable {name : String} {k : Kept → List Char → Option β}

/-- What is kept of a character and the run of a class behind it. -/
theorem take_run (p : Char → Bool) (c : Char) (rest : List Char) :
    (c :: rest).take ((c :: rest).length - (rest.dropWhile p).length) = c :: rest.takeWhile p := by
  have htake (front : List Char) : (front ++ rest.dropWhile p).take
      ((front ++ rest.dropWhile p).length - (rest.dropWhile p).length) = front := by
    rw [List.length_append, Nat.add_sub_cancel, List.take_left]
  have hall := htake (c :: rest.takeWhile p)
  rw [List.cons_append, List.takeWhile_append_dropWhile] at hall
  exact hall

/-- No pattern goes on with the same text. -/
theorem run_sequence_nil : (sequence []).run kept cs k = k kept cs := rfl

/-- A sequence is its first pattern and then the others. -/
theorem run_sequence_cons (p : Pattern) (more : List Pattern) :
    (sequence (p :: more)).run kept cs k = p.run kept cs fun kept rest => (sequence more).run kept rest k := rfl

/-- A pattern goes on where the one before it ends. -/
theorem run_andThen (first second : Pattern) :
    (Pattern.andThen first second).run kept cs k = first.run kept cs fun kept rest => second.run kept rest k := rfl

/-- A pattern that may be missing is tried first. -/
theorem run_optional (p : Pattern) : (Pattern.optional p).run kept cs k = (p.run kept cs k).or (k kept cs) := rfl

/-- A literal text has to stand there. -/
theorem run_literal (text : String) : (literal text).run kept cs k =
    if text.toList.isPrefixOf cs then k kept (cs.drop text.toList.length) else none := by
  unfold literal
  induction text.toList generalizing cs with
  | nil => rfl
  | cons c more ih =>
    cases cs with
    | nil => rfl
    | cons d rest =>
      show (if decide (d = c) then (sequence (more.map fun c => .one (· = c))).run kept rest k else none) = _
      rw [ih, List.isPrefixOf_cons_cons]
      by_cases hdc : d = c
      · simp [hdc]
      · simp [hdc, Ne.symm hdc]

/-- One character and then a run of a class, kept: the run is as long as it can be if nothing goes on inside the class. -/
theorem run_keep_of_blocked {q : Char → Bool} {greedy : Bool} (c : Char)
    (hk : ∀ kept c rest, p c = true → k kept (c :: rest) = none) :
    ((Pattern.andThen (.one q) (.many greedy p)).keep name).run kept (c :: rest) k =
      if q c then k (kept ++ [(name, c :: rest.takeWhile p)]) (rest.dropWhile p) else none := by
  let go (more : List Char) : Option β := k (kept ++ [(name, (c :: rest).take ((c :: rest).length - more.length))]) more
  have hrun : runMany greedy p go rest = go (rest.dropWhile p) :=
    runMany_of_blocked (k := go) (fun d more hd => hk _ d more hd) rest
  have hgo : go (rest.dropWhile p) = k (kept ++ [(name, c :: rest.takeWhile p)]) (rest.dropWhile p) :=
    congrArg (fun text => k (kept ++ [(name, text)]) (rest.dropWhile p)) (take_run p c rest)
  rw [hgo] at hrun
  exact congrArg (fun found => if q c then found else none) hrun

/-- A run of a class at the end of a pattern is as long as it can be. -/
theorem run_keep_last : ((oneOrMore p).keep name).run kept cs (fun kept _ => some kept) =
    if (cs.takeWhile p).isEmpty then none else some (kept ++ [(name, cs.takeWhile p)]) := by
  cases cs with
  | nil => rfl
  | cons c rest =>
    let go (more : List Char) : Option Kept :=
      some (kept ++ [(name, (c :: rest).take ((c :: rest).length - more.length))])
    have hgo : go (rest.dropWhile p) = some (kept ++ [(name, c :: rest.takeWhile p)]) :=
      congrArg (fun text => some (kept ++ [(name, text)])) (take_run p c rest)
    show (if p c then runMany true p go rest else none) = _
    rw [runMany_of_isSome (k := go) rfl, hgo, List.takeWhile_cons]
    cases p c <;> rfl

end Run

end Pattern

end Wheelwright
