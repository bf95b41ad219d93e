/-
  Patterns of places — what is read of a line is what two patterns match of it.

  **Specification** — `placePattern` and `framePattern` are written down as patterns: a file up to a colon, digits, maybe
  digits again, white space and a message up to the end; and the file and line of a frame of a traceback.

  **Program** — `placeParts?` and `frameParts?` go over a line once and never back.

  **The crux** — no part of the patterns can take over characters of the next one: a colon ends the file and each run of
  digits.  Only the white space in front of the message could be left to the message, and is not, as it is taken first; and
  where a column can be read the pattern cannot do without it, as a line end in the message stands in its way both times.
-/
import Mathlib.Data.List.TakeWhile
import Wheelwright.Classifier
import Wheelwright.Proofs.Text.Pattern

namespace Wheelwright

open Pattern

/-! ## The patterns

  The two patterns as the specification has them, with the names under which their parts are kept. -/

/-- `file:line:message` or `file:line:column:message`. -/
def placePattern : Pattern := sequence [
  .keep "file" (.andThen (.one fun c => !(isBlank c || c = ':')) (.many false (· ≠ ':'))), .one (· = ':'),
  .keep "line" (oneOrMore isDecimalDigit), .one (· = ':'),
  .optional (.andThen (.keep "column" (oneOrMore isDecimalDigit)) (.one (· = ':'))),
  .many true isBlank, .keep "message" (.many true (· ≠ '\n')), .finish]

/-- `File "file", line line` behind white space. -/
def framePattern : Pattern := sequence [
  .many true isBlank, literal "File \"", .keep "file" (oneOrMore (· ≠ '"')), literal "\", line ",
  .keep "line" (oneOrMore isDecimalDigit)]

/-- The parts of a place by name, in the order in which they are kept. -/
def PlaceParts.kept (parts : PlaceParts) : Kept :=
  [("file", parts.file), ("line", parts.line)] ++ (parts.column.map fun column => ("column", column)).toList ++
    [("message", parts.message)]

/-! ## What is read

  The program cuts texts where a test first fails.  Each of these functions is given by an iff: the text is a front on
  which the test holds, and a rest that does not begin with such a character. -/

/-- A run of decimal digits of any script, one at least. -/
def IsDigits (cs : List Char) : Prop := cs ≠ [] ∧ ∀ c ∈ cs, isDecimalDigit c = true

variable {cs rest digits file : List Char}

/-- What is taken while a test holds is the whole front before the first character that fails it. -/
theorem takeWhile_of_all {p : Char → Bool} {c : Char} (hall : ∀ d ∈ cs, p d = true) (hc : p c = false) :
    (cs ++ c :: rest).takeWhile p = cs := by
  rw [List.takeWhile_append_of_pos hall, List.takeWhile_cons_of_neg (by simp [hc]), List.append_nil]

/-- What is left after it begins with that character. -/
theorem dropWhile_of_all {p : Char → Bool} {c : Char} (hall : ∀ d ∈ cs, p d = true) (hc : p c = false) :
    (cs ++ c :: rest).dropWhile p = c :: rest := by
  rw [List.dropWhile_append_of_pos hall, List.dropWhile_cons_of_neg (by simp [hc])]

/-- The colon is no digit, so it ends a run of digits. -/
theorem isDecimalDigit_colon : isDecimalDigit ':' = false := rfl

/-- Digits that a colon ends are cut off in one way. -/
theorem digitsThenColon?_eq_some_iff :
    digitsThenColon? cs = some (digits, rest) ↔ IsDigits digits ∧ cs = digits ++ ':' :: rest := by
  constructor
  -- the run of digits is all that is taken, and a colon is what it stops at
  · intro h
    unfold digitsThenColon? at h
    dsimp only at h
    split at h
    · rename_i c more after htake hdrop
      cases h
      refine ⟨⟨by rw [htake]; exact List.cons_ne_nil _ _, fun d hd => List.mem_takeWhile_imp hd⟩, ?_⟩
      rw [← hdrop, List.takeWhile_append_dropWhile]
    · cases h
  · rintro ⟨⟨hne, hall⟩, rfl⟩
    obtain ⟨c, more, rfl⟩ := List.exists_cons_of_ne_nil hne
    unfold digitsThenColon?
    rw [takeWhile_of_all hall isDecimalDigit_colon, dropWhile_of_all hall isDecimalDigit_colon]
    rfl

/-- A text is cut at the first character of a class. -/
theorem splitAtFirst_eq_some_iff {x : Char} : splitAtFirst (· = x) cs = some (file, rest) ↔
    x ∉ file ∧ cs = file ++ x :: rest := by
  constructor
  -- the text breaks at the first occurrence, so none lies before it
  · intro h
    unfold splitAtFirst at h
    split at h
    · cases h
    · rename_i c more hdrop
      cases h
      have hx : c = x := by
        have := List.head?_dropWhile_not (fun c => !decide (c = x)) cs
        rw [hdrop] at this
        simpa using this
      subst hx
      refine ⟨fun hmem => ?_, ?_⟩
      · simpa using List.mem_takeWhile_imp hmem
      · rw [← hdrop, List.takeWhile_append_dropWhile]
  · rintro ⟨hx, rfl⟩
    have hall : ∀ d ∈ file, (!decide (d = x)) = true := fun d hd => by simpa using ne_of_mem_of_not_mem hd hx
    unfold splitAtFirst
    rw [takeWhile_of_all hall (by simp), dropWhile_of_all hall (by simp)]

/-- Nothing is split off exactly when the character does not occur. -/
theorem splitAtFirst_eq_none_iff {x : Char} : splitAtFirst (· = x) cs = none ↔ x ∉ cs := by
  unfold splitAtFirst
  split
  · rename_i hdrop
    refine iff_of_true rfl fun hmem => ?_
    simpa using List.dropWhile_eq_nil_iff.mp hdrop x hmem
  · rename_i c more hdrop
    refine iff_of_false (fun hnone => by cases hnone) fun hmem => ?_
    rw [List.dropWhile_eq_nil_iff.mpr fun d hd => by simpa using ne_of_mem_of_not_mem hd hmem] at hdrop
    cases hdrop

/-! ## Parts of the patterns

  A pattern may match in several ways, and the search goes back for the next one when the rest fails.  For each part
  there is one way at most from which the rest can go on: a shorter run would be followed by one of its own
  characters, which the next part does not match. -/

section Parts

variable {β : Type} {kept : Kept} {name : String} {k : Kept → List Char → Option β}

/-- A pattern for the colon does not begin at any other character. -/
theorem run_colon_eq_none {c : Char} (hc : c ≠ ':') : (Pattern.one (· = ':')).run kept (c :: rest) k = none :=
  if_neg (by simpa using hc)

/-- A kept run up to the first character of a kind, from which the pattern goes on. -/
theorem run_upTo {x : Char} {p q : Char → Bool} {greedy : Bool} (hq : ∀ c, q c = (p c && c ≠ x))
    (hnil : ∀ kept, k kept [] = none) (hk : ∀ kept c rest, c ≠ x → k kept (c :: rest) = none) :
    ((Pattern.andThen (.one q) (.many greedy (· ≠ x))).keep name).run kept cs k =
      (splitAtFirst (· = x) cs).bind fun found => found.1.head?.bind fun first =>
        if p first then k (kept ++ [(name, found.1)]) (x :: found.2) else none := by
  cases cs with
  | nil => rfl
  | cons c more =>
    rw [run_keep_of_blocked c fun kept d rest hd => hk kept d rest (of_decide_eq_true hd), hq]
    cases hsplit : splitAtFirst (· = x) (c :: more) with
    | none =>
      -- nothing ends the run
      have hmore : x ∉ more := fun hmem => splitAtFirst_eq_none_iff.mp hsplit (List.mem_cons_of_mem _ hmem)
      rw [List.dropWhile_eq_nil_iff.mpr fun d hd => decide_eq_true (ne_of_mem_of_not_mem hd hmore), hnil]
      exact ite_self _
    -- the run ends at the first occurrence, and its first character is tested apart
    | some found =>
      obtain ⟨front, rest⟩ := found
      obtain ⟨hx, heq⟩ := splitAtFirst_eq_some_iff.mp hsplit
      cases front with
      | nil =>
        obtain ⟨rfl, -⟩ := List.cons.inj heq
        exact if_neg (by simp)
      | cons d front =>
        rw [List.cons_append] at heq
        obtain ⟨rfl, rfl⟩ := List.cons.inj heq
        obtain ⟨hne, hfront⟩ := not_or.mp (mt List.mem_cons.mpr hx)
        have hall : ∀ d ∈ front, decide (d ≠ x) = true := fun d hd => decide_eq_true (ne_of_mem_of_not_mem hd hfront)
        rw [takeWhile_of_all hall (by simp), dropWhile_of_all hall (by simp), decide_eq_true (Ne.symm hne),
          Bool.and_true]
        rfl

/-- Digits that a colon ends. -/
theorem run_digitsThenColon : ((Pattern.keep name (oneOrMore isDecimalDigit)).run kept cs fun kept rest =>
    (Pattern.one (· = ':')).run kept rest k) =
      (digitsThenColon? cs).bind fun found => k (kept ++ [(name, found.1)]) found.2 := by
  cases cs with
  | nil => rfl
  | cons c more =>
    -- no digit is a colon, so the greedy run can only end where the digits do
    have hblocked : ∀ kept c (rest : List Char), isDecimalDigit c = true →
        (Pattern.one (· = ':')).run kept (c :: rest) k = none := by
      intro kept c rest hc
      refine run_colon_eq_none ?_
      rintro rfl
      rw [isDecimalDigit_colon] at hc
      cases hc
    rw [oneOrMore, run_keep_of_blocked c hblocked]
    cases hfound : digitsThenColon? (c :: more) with
    | some found =>
      obtain ⟨digits, rest⟩ := found
      obtain ⟨⟨hne, hall⟩, heq⟩ := digitsThenColon?_eq_some_iff.mp hfound
      obtain ⟨d, digits, rfl⟩ := List.exists_cons_of_ne_nil hne
      rw [List.cons_append] at heq
      obtain ⟨rfl, rfl⟩ := List.cons.inj heq
      have hall' : ∀ d ∈ digits, isDecimalDigit d = true := fun d hd => hall d (List.mem_cons_of_mem _ hd)
      rw [if_pos (hall c List.mem_cons_self), takeWhile_of_all hall' isDecimalDigit_colon,
        dropWhile_of_all hall' isDecimalDigit_colon]
      rfl
    | none =>
      split
      · rename_i hc
        cases hrest : more.dropWhile isDecimalDigit with
        -- a colon behind the digits would have been found
        | nil => rfl
        | cons d rest =>
          refine run_colon_eq_none ?_
          rintro rfl
          have hsome : digitsThenColon? (c :: more) = some (c :: more.takeWhile isDecimalDigit, rest) := by
            refine digitsThenColon?_eq_some_iff.mpr ⟨⟨List.cons_ne_nil _ _, fun d hd => ?_⟩, ?_⟩
            · rcases List.mem_cons.mp hd with rfl | hd
              · exact hc
              · exact List.mem_takeWhile_imp hd
            · rw [List.cons_append, ← hrest, List.takeWhile_append_dropWhile]
          rw [hfound] at hsome
          cases hsome
      · rfl

/-- A message is kept up to the end, if there is no line end in it. -/
theorem run_toEnd : ((Pattern.keep "message" (.many true (· ≠ '\n'))).run kept cs fun kept rest =>
    Pattern.finish.run kept rest fun kept _ => some kept) =
      if cs.contains '\n' then none else some (kept ++ [("message", cs)]) := by
  let go (rest : List Char) : Option Kept :=
    if rest.isEmpty then some (kept ++ [("message", cs.take (cs.length - rest.length))]) else none
  show runMany true (· ≠ '\n') go cs = _
  by_cases hcs : '\n' ∈ cs
  · rw [if_pos (List.contains_iff_mem.mpr hcs)]
    refine runMany_eq_none fun rest hrest => ?_
    -- the line end is never behind the message
    have hdrop : cs.dropWhile (· ≠ '\n') ≠ [] := fun hnil => by
      simpa using List.dropWhile_eq_nil_iff.mp hnil '\n' hcs
    have hne : rest ≠ [] := by
      rintro rfl
      exact hdrop (List.suffix_nil.mp hrest)
    exact if_neg (by simpa using hne)
  · rw [if_neg fun hc => hcs (List.contains_iff_mem.mp hc)]
    have hdrop : cs.dropWhile (· ≠ '\n') = [] :=
      List.dropWhile_eq_nil_iff.mpr fun c hc => decide_eq_true (ne_of_mem_of_not_mem hc hcs)
    have hgo : go (cs.dropWhile (· ≠ '\n')) = some (kept ++ [("message", cs)]) := by
      rw [hdrop]
      show some (kept ++ [("message", cs.take (cs.length - 0))]) = _
      rw [Nat.sub_zero, List.take_length]
    rw [runMany_of_isSome (by rw [hgo]; rfl), hgo]

/-- White space and a message up to the end. -/
theorem run_message : ((Pattern.many true isBlank).run kept cs fun kept rest =>
    (Pattern.keep "message" (.many true (· ≠ '\n'))).run kept rest fun kept rest => Pattern.finish.run kept rest
      fun kept _ => some kept) = (placeMessage? cs).map fun message => kept ++ [("message", message)] := by
  show runMany true isBlank (fun rest => (Pattern.keep "message" (.many true (· ≠ '\n'))).run kept rest fun kept rest =>
    Pattern.finish.run kept rest fun kept _ => some kept) cs = _
  simp only [run_toEnd]
  unfold placeMessage?
  dsimp only
  by_cases hmem : '\n' ∈ cs.dropWhile isBlank
  · rw [if_pos (List.contains_iff_mem.mpr hmem)]
    exact runMany_eq_none fun rest hrest => if_pos (List.contains_iff_mem.mpr (hrest.subset hmem))
  · have hcontains : ¬ (cs.dropWhile isBlank).contains '\n' = true := fun hc => hmem (List.contains_iff_mem.mp hc)
    rw [runMany_of_isSome (by rw [if_neg hcontains]; rfl), if_neg hcontains, if_neg hcontains]
    rfl

/-- A message holds no line end. -/
theorem placeMessage?_eq_none_iff : placeMessage? cs = none ↔ '\n' ∈ cs.dropWhile isBlank := by
  unfold placeMessage?
  dsimp only
  split
  · rename_i h
    exact iff_of_true rfl (List.contains_iff_mem.mp h)
  · rename_i h
    exact iff_of_false (fun hsome => by cases hsome) fun hmem => h (List.contains_iff_mem.mpr hmem)

/-- A suffix that begins with a character that fails the test survives the dropping. -/
theorem suffix_dropWhile {p : Char → Bool} {c : Char} (hc : p c = false) (front rest : List Char) :
    c :: rest <:+ (front ++ c :: rest).dropWhile p := by
  -- by the front: what is dropped of it never reaches into the suffix
  induction front with
  | nil =>
    have hdrop : (c :: rest).dropWhile p = c :: rest := List.dropWhile_cons_of_neg (by simp [hc])
    exact ⟨[], hdrop.symm⟩
  | cons d front ih =>
    rw [List.cons_append, List.dropWhile_cons]
    split
    · exact ih
    · exact (List.suffix_append front _).trans (List.suffix_cons d _)

/-- A column, if there is one, and the message. -/
theorem run_columnAndMessage :
    ((Pattern.optional (.andThen (.keep "column" (oneOrMore isDecimalDigit)) (.one (· = ':')))).run kept cs
      fun kept rest => (Pattern.many true isBlank).run kept rest fun kept rest =>
        (Pattern.keep "message" (.many true (· ≠ '\n'))).run kept rest fun kept rest => Pattern.finish.run kept rest
          fun kept _ => some kept) =
      match digitsThenColon? cs with
      | some (column, after) =>
        (placeMessage? after).map fun message => kept ++ [("column", column)] ++ [("message", message)]
      | none => (placeMessage? cs).map fun message => kept ++ [("message", message)] := by
  rw [run_optional, run_andThen, run_digitsThenColon, run_message]
  cases hfound : digitsThenColon? cs with
  | none => exact Option.none_or
  | some found =>
    obtain ⟨column, after⟩ := found
    rw [Option.bind_some, run_message]
    dsimp only
    cases hmessage : placeMessage? after with
    | some message => rfl
    | none =>
      -- a line end that bars the message behind the column bars the one without a column as well
      obtain ⟨-, rfl⟩ := digitsThenColon?_eq_some_iff.mp hfound
      have hafter := (List.dropWhile_suffix isBlank).subset (placeMessage?_eq_none_iff.mp hmessage)
      have hsuffix := suffix_dropWhile (show isBlank ':' = false from rfl) column after
      rw [placeMessage?_eq_none_iff.mpr (hsuffix.subset (List.mem_cons_of_mem _ hafter))]
      rfl

end Parts

/-! ## The patterns as wholes

  Put together, each pattern keeps what the program cuts off, for every text. -/

/-- The digits of a line, a column if there is one, and the message. -/
theorem run_afterFile {kept : Kept} : (Pattern.one (· = ':')).run kept (':' :: rest) (fun kept rest =>
      (Pattern.keep "line" (oneOrMore isDecimalDigit)).run kept rest fun kept rest =>
      (Pattern.one (· = ':')).run kept rest fun kept rest =>
      (Pattern.optional (.andThen (.keep "column" (oneOrMore isDecimalDigit)) (.one (· = ':')))).run kept rest
      fun kept rest => (Pattern.many true isBlank).run kept rest fun kept rest =>
        (Pattern.keep "message" (.many true (· ≠ '\n'))).run kept rest fun kept rest => Pattern.finish.run kept rest
          fun kept _ => some kept) =
      (digitsThenColon? rest).bind fun line =>
        match digitsThenColon? line.2 with
        | some (column, after) => (placeMessage? after).map fun message =>
            kept ++ [("line", line.1)] ++ [("column", column)] ++ [("message", message)]
        | none => (placeMessage? line.2).map fun message => kept ++ [("line", line.1)] ++ [("message", message)] := by
  show (Pattern.keep "line" (oneOrMore isDecimalDigit)).run kept rest (fun kept rest =>
      (Pattern.one (· = ':')).run kept rest _) = _
  rw [run_digitsThenColon]
  simp only [run_columnAndMessage]

/-- **The parts of a place are what its pattern keeps.** -/
theorem matches?_placePattern (cs : List Char) : placePattern.matches? cs = (placeParts? cs).map PlaceParts.kept := by
  -- the file ends at the first blank or colon, and a pattern that goes on after anything but a colon fails
  have hq (c : Char) : (!(isBlank c || decide (c = ':'))) = (!isBlank c && decide (c ≠ ':')) := by
    rw [Bool.not_or, decide_not]
  simp only [Pattern.matches?, placePattern, run_sequence_cons, run_sequence_nil]
  rw [run_upTo hq (fun _ => rfl) fun kept d rest hd => run_colon_eq_none hd, placeParts?]
  simp only [run_afterFile, Option.bind_eq_bind, Option.map_bind]
  refine Option.bind_congr fun found _ => ?_
  rw [Function.comp_apply, Option.map_bind]
  refine Option.bind_congr fun first _ => ?_
  rw [Function.comp_apply]
  cases isBlank first with
  | true => rfl
  | false =>
    simp only [Bool.not_false, if_true, Bool.false_eq_true, if_false, Option.map_bind]
    refine Option.bind_congr fun line _ => ?_
    rw [Function.comp_apply]
    cases digitsThenColon? line.2 with
    | none => cases placeMessage? line.2 <;> rfl
    | some column => cases hmessage : placeMessage? column.2 <;> simp only [hmessage] <;> rfl

/-- A literal does not match where another character stands. -/
theorem run_literal_eq_none {β : Type} {kept : Kept} {k : Kept → List Char → Option β} {text : String} {c d : Char}
    {more : List Char} (htext : text.toList = d :: more) (hc : c ≠ d) : (literal text).run kept (c :: rest) k = none := by
  rw [run_literal, htext, List.isPrefixOf_cons_cons]
  exact if_neg (by simp [Ne.symm hc])

/-- The file of a frame up to its quotation mark, and its line. -/
theorem run_afterOpening {kept : Kept} {middle quoted : String} (hquoted : quoted.toList = '"' :: middle.toList) :
    ((Pattern.keep "file" (oneOrMore (· ≠ '"'))).run kept cs fun kept rest => (literal quoted).run kept rest
      fun kept rest => (Pattern.keep "line" (oneOrMore isDecimalDigit)).run kept rest fun kept _ => some kept) =
      (splitAtFirst (· = '"') cs).bind fun found =>
        if middle.toList.isPrefixOf found.2 && !found.1.isEmpty then
          let digits := (found.2.drop middle.toList.length).takeWhile isDecimalDigit
          if digits.isEmpty then none else some (kept ++ [("file", found.1)] ++ [("line", digits)])
        else none := by
  simp only [run_keep_last]
  -- what comes after the file begins with a quote, so the file ends at the first one
  rw [oneOrMore, run_upTo (fun _ => (Bool.true_and _).symm) (fun kept => ?_) fun kept d rest hd =>
    run_literal_eq_none hquoted hd]
  · refine Option.bind_congr fun found _ => ?_
    obtain ⟨file, rest⟩ := found
    cases file with
    | nil =>
      rw [List.isEmpty_nil, Bool.not_true, Bool.and_false]
      rfl
    | cons first more =>
      rw [List.head?_cons, Option.bind_some, if_pos rfl, run_literal, hquoted, List.isPrefixOf_cons_cons,
        beq_self_eq_true, Bool.true_and, List.length_cons, List.drop_succ_cons, List.isEmpty_cons, Bool.not_false,
        Bool.and_true]
  · rw [run_literal, hquoted]
    rfl

/-- **The parts of a frame are what its pattern keeps.** -/
theorem matches?_framePattern (cs : List Char) :
    framePattern.matches? cs = (frameParts? cs).map fun frame => [("file", frame.1), ("line", frame.2)] := by
  simp only [Pattern.matches?, framePattern, run_sequence_cons, run_sequence_nil]
  let go (rest : List Char) : Option Kept := (literal "File \"").run [] rest fun kept rest =>
    (Pattern.keep "file" (oneOrMore (· ≠ '"'))).run kept rest fun kept rest => (literal "\", line ").run kept rest
      fun kept rest => (Pattern.keep "line" (oneOrMore isDecimalDigit)).run kept rest fun kept _ => some kept
  -- white space in front is not the start of the literal
  have hblocked : ∀ c rest, isBlank c = true → go (c :: rest) = none := by
    intro c rest hc
    refine run_literal_eq_none (show "File \"".toList = 'F' :: "ile \"".toList from rfl) ?_
    rintro rfl
    cases hc
  show runMany true isBlank go cs = _
  rw [runMany_of_blocked hblocked]
  show (literal "File \"").run [] (cs.dropWhile isBlank) _ = _
  rw [run_literal, run_afterOpening (show "\", line ".toList = '"' :: ", line ".toList from rfl), frameParts?]
  dsimp only
  split
  · cases hsplit : splitAtFirst (· = '"') ((cs.dropWhile isBlank).drop "File \"".toList.length) with
    | none => rfl
    | some found =>
      obtain ⟨file, rest⟩ := found
      simp only [Option.bind_eq_bind, Option.bind_some]
      split
      · split <;> rfl
      · rfl
  · rfl

end Wheelwright
