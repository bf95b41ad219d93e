/-
  Places — the lines of output that the full classifier reads a place from.

  **Specification** — a line names a place if it is a file, a colon, digits, a colon and anything (`Reads`), and the digits
  are a number of 32 bits in ASCII.  Digits with a colon at the start of the rest are a column, and what is left without
  white space in front is the message (`Spells`, `Tells`).

  **Program** — the classifier asks `located?`, which looks for a frame of a traceback first.

  **The crux** — the parts are told apart by their characters alone: a file has no colon and digits have none, so a text is
  read in one way (`placeParts?_eq_some_iff`).  A printed place is such a text, and the blank in front of its message keeps
  digits at the message's start from being a column.
-/
import Wheelwright.Proofs.Classifier.Patterns

namespace Wheelwright

open Pattern

/-! ## The grammar of places

  The grammar is given on characters, without the patterns.  A file is any text without a colon that is not empty and
  does not begin with a blank; what tells a place is further that its numbers fit in 32 bits and have ASCII digits. -/

/-- The name of a file in front of a colon. -/
def IsFile (cs : List Char) : Prop := cs ≠ [] ∧ ':' ∉ cs ∧ ∀ c ∈ cs.head?, isBlank c = false

/-- `file:line:rest`. -/
structure Reads (text file line rest : List Char) : Prop where
  parts : text = file ++ ':' :: (line ++ ':' :: rest)
  file : IsFile file
  line : IsDigits line

/-- The parts of `file:line:message` or `file:line:column:message`. -/
inductive Spells (text : List Char) : PlaceParts → Prop
  | column {file line column after : List Char} (h : Reads text file line (column ++ ':' :: after))
      (hcolumn : IsDigits column) : Spells text ⟨file, line, some column, after.dropWhile isBlank⟩
  | noColumn {file line rest : List Char} (h : Reads text file line rest)
      (hnone : ∀ column after, IsDigits column → rest ≠ column ++ ':' :: after) :
      Spells text ⟨file, line, none, rest.dropWhile isBlank⟩

/-- ASCII digits of a number of 32 bits. -/
structure IsWordNumber (cs : List Char) (n : Nat) : Prop where
  ne_nil : cs ≠ []
  digits : ∀ c ∈ cs, c.isDigit = true
  value : Nat.ofDigitChars 10 cs 0 = n
  le : n ≤ SourceLocation.maxNumber

/-- The place and the message that a text tells; a column that is no number is left out. -/
def Tells (text : String) (location : SourceLocation) (message : String) : Prop :=
  ∃ parts, Spells text.toList parts ∧ location.file = ⟨String.ofList parts.file⟩ ∧
    IsWordNumber parts.line location.line ∧
    (∀ n, location.column = some n ↔ ∃ digits, parts.column = some digits ∧ IsWordNumber digits n) ∧
    message = String.ofList parts.message

variable {text file line rest message digits cs : List Char} {parts : PlaceParts} {n : Nat}

/-! ## Numbers

  The pattern takes digits of every script for a number, and the conversion afterwards takes plain ones only.  So
  there are lines with the shape of a place whose number is none. -/

/-- The value of a non-empty run of plain digits, and of nothing else. -/
theorem decimalValue_eq_some_iff : decimalValue cs = some n ↔
    cs ≠ [] ∧ (∀ c ∈ cs, c.isDigit = true) ∧ Nat.ofDigitChars 10 cs 0 = n := by
  cases cs with
  | nil => exact iff_of_false (fun h => by cases h) fun h => h.1 rfl
  | cons c more =>
    rw [decimalValue.eq_2 _ (List.cons_ne_nil c more), Option.ite_none_right_eq_some, List.all_eq_true,
      Option.some.injEq]
    exact ⟨fun ⟨hall, hvalue⟩ => ⟨List.cons_ne_nil _ _, hall, hvalue⟩, fun h => h.2⟩

/-- A number is read exactly from the digits of one that fits in a word. -/
theorem wordNumber?_eq_some_iff : wordNumber? cs = some n ↔ IsWordNumber cs n := by
  rw [wordNumber?, Option.filter_eq_some_iff, decimalValue_eq_some_iff, decide_eq_true_iff]
  exact ⟨fun ⟨⟨hne, hall, hvalue⟩, hle⟩ => ⟨hne, hall, hvalue, hle⟩,
    fun ⟨hne, hall, hvalue, hle⟩ => ⟨⟨hne, hall, hvalue⟩, hle⟩⟩

/-- A plain digit is a digit of the pattern as well. -/
theorem isDecimalDigit_of_isDigit {c : Char} (h : c.isDigit = true) : isDecimalDigit c = true := by
  have hlt : c.toNat < 128 := by
    rw [Char.isDigit, Bool.and_eq_true, decide_eq_true_eq, decide_eq_true_eq] at h
    exact Nat.lt_of_le_of_lt h.2 (by decide)
  rw [isDecimalDigit, if_pos hlt, h]

/-- The digits of a number are digits of the pattern. -/
theorem IsWordNumber.isDigits (h : IsWordNumber cs n) : IsDigits cs :=
  ⟨h.ne_nil, fun c hc => isDecimalDigit_of_isDigit (h.digits c hc)⟩

/-- A number of 32 bits as it is printed. -/
theorem isWordNumber_toString (hn : n ≤ SourceLocation.maxNumber) : IsWordNumber (toString n).toList n := by
  rw [Nat.toString_eq_repr, Nat.toList_repr]
  exact ⟨Nat.toDigits_ne_nil, fun c hc => Nat.isDigit_of_mem_toDigits (by decide) (by decide) hc,
    Nat.ofDigitChars_toDigits (by decide) (by decide), hn⟩

/-! ## One way to read a text

  Two readings of a text agree in the file, since it has no colon, then in the digits, then in the column.  So what
  the program finds first is the only thing there is to find. -/

/-- A text is cut at its first two colons. -/
theorem reads_iff : Reads text file line rest ↔ ∃ after, splitAtFirst (· = ':') text = some (file, after) ∧
    file ≠ [] ∧ (∀ c ∈ file.head?, isBlank c = false) ∧ digitsThenColon? after = some (line, rest) := by
  constructor
  · rintro ⟨heq, ⟨hne, hcolon, hblank⟩, hline⟩
    exact ⟨_, splitAtFirst_eq_some_iff.mpr ⟨hcolon, heq⟩, hne, hblank, digitsThenColon?_eq_some_iff.mpr ⟨hline, rfl⟩⟩
  · rintro ⟨after, hsplit, hne, hblank, hdigits⟩
    obtain ⟨hcolon, heq⟩ := splitAtFirst_eq_some_iff.mp hsplit
    obtain ⟨hline, rfl⟩ := digitsThenColon?_eq_some_iff.mp hdigits
    exact ⟨heq, ⟨hne, hcolon, hblank⟩, hline⟩

/-- Nothing is read exactly when no run of digits stands before a colon. -/
theorem digitsThenColon?_eq_none_iff :
    digitsThenColon? cs = none ↔ ∀ column after, IsDigits column → cs ≠ column ++ ':' :: after := by
  constructor
  · intro h column after hcolumn heq
    rw [digitsThenColon?_eq_some_iff.mpr ⟨hcolumn, heq⟩] at h
    cases h
  · intro h
    cases hfound : digitsThenColon? cs with
    | none => rfl
    | some found =>
      obtain ⟨hcolumn, heq⟩ := digitsThenColon?_eq_some_iff.mp hfound
      exact absurd heq (h _ _ hcolumn)

/-- A text without a line end is a message, once its blanks in front are dropped. -/
theorem placeMessage?_of_line (hline : '\n' ∉ cs) : placeMessage? cs = some (cs.dropWhile isBlank) :=
  if_neg fun hc => hline ((List.dropWhile_suffix isBlank).subset (List.contains_iff_mem.mp hc))

/-- Behind the line of a place stands a column or none. -/
theorem placeParts?_of_reads (h : Reads text file line rest) : placeParts? text =
    match digitsThenColon? rest with
    | some (column, after) => (placeMessage? after).map fun message => ⟨file, line, some column, message⟩
    | none => (placeMessage? rest).map fun message => ⟨file, line, none, message⟩ := by
  obtain ⟨after, hsplit, hne, hblank, hdigits⟩ := reads_iff.mp h
  obtain ⟨c, more, rfl⟩ := List.exists_cons_of_ne_nil hne
  have hc : ¬ isBlank c = true := by rw [hblank c rfl]; exact Bool.false_ne_true
  rw [placeParts?, hsplit]
  simp only [Option.bind_eq_bind, Option.bind_some, List.head?_cons, if_neg hc, hdigits]
  cases digitsThenColon? rest with
  | none => cases placeMessage? rest <;> rfl
  | some found => cases hmessage : placeMessage? found.2 <;> simp only [hmessage] <;> rfl

/-- A text of which a place is read is a file, a colon, digits and a colon. -/
theorem reads_of_placeParts? (h : placeParts? text = some parts) : ∃ file line rest, Reads text file line rest := by
  unfold placeParts? at h
  -- the file up to the first colon, a first character that is no blank, then the digits of the line
  simp only [Option.bind_eq_bind, Option.bind_eq_some_iff] at h
  obtain ⟨⟨file, after⟩, hsplit, first, hfirst, h⟩ := h
  split at h
  · cases h
  · rename_i hblank
    obtain ⟨⟨line, rest⟩, hdigits, -⟩ := Option.bind_eq_some_iff.mp h
    have hne : file ≠ [] := by
      rintro rfl
      cases hfirst
    refine ⟨file, line, rest, reads_iff.mpr ⟨after, hsplit, hne, fun c hc => ?_, hdigits⟩⟩
    obtain rfl := Option.some.inj (hfirst.symm.trans hc)
    exact Bool.eq_false_iff.mpr hblank

/-- What stands behind the line is part of the text. -/
theorem Reads.rest_subset (h : Reads text file line rest) : rest ⊆ text := by
  rw [h.parts]
  exact fun c hc => List.mem_append_right _ (List.mem_cons_of_mem _ (List.mem_append_right _ (List.mem_cons_of_mem _ hc)))

/-- **The parts that are read of a line are those of the grammar.** -/
theorem placeParts?_eq_some_iff (hline : '\n' ∉ text) : placeParts? text = some parts ↔ Spells text parts := by
  constructor
  · intro hparts
    obtain ⟨file, line, rest, h⟩ := reads_of_placeParts? hparts
    have hrest : '\n' ∉ rest := fun hmem => hline (h.rest_subset hmem)
    rw [placeParts?_of_reads h] at hparts
    -- with or without a column, as the text behind the line has one
    cases hfound : digitsThenColon? rest with
    | none =>
      rw [hfound] at hparts
      simp only [placeMessage?_of_line hrest, Option.map_some, Option.some.injEq] at hparts
      subst hparts
      exact .noColumn h (digitsThenColon?_eq_none_iff.mp hfound)
    | some found =>
      obtain ⟨column, after⟩ := found
      obtain ⟨hcolumn, rfl⟩ := digitsThenColon?_eq_some_iff.mp hfound
      have hafter : '\n' ∉ after := fun hmem => hrest (List.mem_append_right _ (List.mem_cons_of_mem _ hmem))
      rw [hfound] at hparts
      simp only [placeMessage?_of_line hafter, Option.map_some, Option.some.injEq] at hparts
      subst hparts
      exact .column h hcolumn
  · intro hspells
    cases hspells with
    | @column file line column after h hcolumn =>
      have hafter : '\n' ∉ after := fun hmem =>
        hline (h.rest_subset (List.mem_append_right _ (List.mem_cons_of_mem _ hmem)))
      rw [placeParts?_of_reads h, digitsThenColon?_eq_some_iff.mpr ⟨hcolumn, rfl⟩]
      simp only [placeMessage?_of_line hafter, Option.map_some]
    | @noColumn file line rest h hnone =>
      have hrest : '\n' ∉ rest := fun hmem => hline (h.rest_subset hmem)
      rw [placeParts?_of_reads h, digitsThenColon?_eq_none_iff.mpr hnone]
      simp only [placeMessage?_of_line hrest, Option.map_some]

/-! ## What the classifier tells

  The classifier's answer to a line that is no frame: the place that the grammar tells, or the text of the line. -/

theorem located?_eq_some_iff {l : Located} {text : String} (hline : '\n' ∉ text.toList)
    (hframe : frameParts? text.toList = none) : located? text = some l ↔ Tells text l.location l.message := by
  rw [located?, hframe]
  simp only [Option.bind_eq_bind, Option.bind_eq_some_iff, placeParts?_eq_some_iff hline, wordNumber?_eq_some_iff]
  -- what is told are the parts, and the numbers are the values of their digits
  constructor
  · rintro ⟨parts, hspells, n, hn, hl⟩
    cases hl
    refine ⟨parts, hspells, rfl, hn, fun m => ?_, rfl⟩
    simp only [Option.bind_eq_some_iff, wordNumber?_eq_some_iff]
  · rintro ⟨parts, hspells, hfile, hn, hcolumn, hmessage⟩
    have hbind : parts.column.bind wordNumber? = l.location.column := by
      refine Option.ext fun m => ?_
      rw [hcolumn m]
      simp only [Option.bind_eq_some_iff, wordNumber?_eq_some_iff]
    refine ⟨parts, hspells, l.location.line, hn, ?_⟩
    rw [hbind, ← hfile, ← hmessage]

/-- A text that starts like a place tells one place. -/
theorem Reads.exists_tells {text : String} (h : Reads text.toList file line rest) (hn : IsWordNumber line n) :
    ∃ location message, Tells text location message := by
  have htells (parts : PlaceParts) (hspells : Spells text.toList parts) (hn : IsWordNumber parts.line n) :
      ∃ location message, Tells text location message :=
    ⟨⟨⟨String.ofList parts.file⟩, n, parts.column.bind wordNumber?⟩, _, parts, hspells, rfl, hn,
      fun m => by simp only [Option.bind_eq_some_iff, wordNumber?_eq_some_iff], rfl⟩
  cases hfound : digitsThenColon? rest with
  | none => exact htells _ (.noColumn h (digitsThenColon?_eq_none_iff.mp hfound)) hn
  | some found =>
    obtain ⟨hcolumn, rfl⟩ := digitsThenColon?_eq_some_iff.mp hfound
    exact htells _ (.column h hcolumn) hn

/-- Parts that spell a text read it. -/
theorem Spells.exists_reads (h : Spells text parts) : ∃ rest, Reads text parts.file parts.line rest := by
  cases h with
  | column h => exact ⟨_, h⟩
  | noColumn h => exact ⟨_, h⟩

/-- The full classifier gives a line the place that it tells, and the message. -/
theorem classify_iff {l : OutputLine} (hline : '\n' ∉ l.text.toList) (hframe : frameParts? l.text.toList = none)
    {location : SourceLocation} {message : String} :
    (Classifier.pep517.classify l).location = some location ∧ (Classifier.pep517.classify l).message = message ↔
      Tells l.text location message := by
  rw [← located?_eq_some_iff (l := ⟨location, message⟩) hline hframe]
  show (Classifier.classifyMarked l.text).location = _ ∧ (Classifier.classifyMarked l.text).message = _ ↔ _
  rw [Classifier.classifyMarked]
  -- a text without a place is classified without one; with one, the severity is split over and place and message stay
  cases hlocated : located? l.text with
  | none =>
    dsimp only
    refine iff_of_false (fun h => ?_) (fun h => by cases h)
    obtain ⟨h, -⟩ := h
    split at h
    · cases h
    · split at h <;> cases h
  | some found =>
    obtain ⟨location', message'⟩ := found
    dsimp only
    split
    · simp [Diagnostic.error]
    · simp [Diagnostic.warning]

/-! ## Printed places

  A place is printed as a line that tells it.  The message comes behind a blank, so digits at its beginning are not
  taken for a column. -/

/-- A printed place tells itself and the message behind it. -/
theorem tells_text {location : SourceLocation} {message : String} (hfile : IsFile location.file.text.toList)
    (hline : location.line ≤ SourceLocation.maxNumber)
    (hcolumn : ∀ n, location.column = some n → n ≤ SourceLocation.maxNumber)
    (hmessage : ∀ c ∈ message.toList.head?, isBlank c = false) :
    Tells (location.text ++ ": " ++ message) location message := by
  obtain ⟨⟨file⟩, line, column⟩ := location
  have hword := isWordNumber_toString hline
  -- the blank behind the colon is all that is dropped, as the message begins with none
  have hdrop : (' ' :: message.toList).dropWhile isBlank = message.toList := by
    rw [List.dropWhile_cons_of_pos (by decide)]
    cases hcs : message.toList with
    | nil => rfl
    | cons c cs =>
      rw [hcs] at hmessage
      exact List.dropWhile_cons_of_neg (by rw [hmessage c rfl]; exact Bool.false_ne_true)
  cases column with
  | none =>
    have hreads : Reads (SourceLocation.text ⟨⟨file⟩, line, none⟩ ++ ": " ++ message).toList file.toList
        (toString line).toList (' ' :: message.toList) :=
      ⟨by simp [SourceLocation.text], hfile, hword.isDigits⟩
    -- digits at the start of the message stand behind a blank
    have hnone : ∀ column after, IsDigits column → ' ' :: message.toList ≠ column ++ ':' :: after := by
      rintro column after ⟨hne, hall⟩ heq
      obtain ⟨c, more, rfl⟩ := List.exists_cons_of_ne_nil hne
      obtain ⟨rfl, -⟩ := List.cons.inj heq
      exact absurd (hall ' ' List.mem_cons_self) (by decide)
    have hspells := Spells.noColumn hreads hnone
    rw [hdrop] at hspells
    exact ⟨_, hspells, by rw [String.ofList_toList], hword, fun n => by simp, by rw [String.ofList_toList]⟩
  | some column =>
    have hwordColumn := isWordNumber_toString (hcolumn column rfl)
    have hreads : Reads (SourceLocation.text ⟨⟨file⟩, line, some column⟩ ++ ": " ++ message).toList file.toList
        (toString line).toList ((toString column).toList ++ ':' :: (' ' :: message.toList)) :=
      ⟨by simp [SourceLocation.text], hfile, hword.isDigits⟩
    have hspells := Spells.column hreads hwordColumn.isDigits
    rw [hdrop] at hspells
    refine ⟨_, hspells, by rw [String.ofList_toList], hword, fun n => ?_, by rw [String.ofList_toList]⟩
    -- the digits printed are those that are read back
    constructor
    · intro h
      cases h
      exact ⟨_, rfl, hwordColumn⟩
    · rintro ⟨digits, hdigits, hn⟩
      cases hdigits
      exact congrArg some (hwordColumn.value.symm.trans hn.value)

/-- A text that no line end closes is the text of its line. -/
theorem text_ofText (stream : OutputStream) {text : String} (hline : '\n' ∉ text.toList)
    (hend : text.toList.getLast? ≠ some '\r') : (OutputLine.ofText stream text).text = text := by
  show String.ofList (text.toList.reverse.dropWhile OutputLine.isLineEnd).reverse = text
  -- neither end of a line closes the text, so nothing is stripped
  have hkept : text.toList.reverse.dropWhile OutputLine.isLineEnd = text.toList.reverse := by
    cases hcs : text.toList.reverse with
    | nil => rfl
    | cons c more =>
      refine List.dropWhile_cons_of_neg fun hc => ?_
      have hlast : text.toList.getLast? = some c := by rw [← List.head?_reverse, hcs]; rfl
      rw [OutputLine.isLineEnd, Bool.or_eq_true, decide_eq_true_eq, decide_eq_true_eq] at hc
      rcases hc with rfl | rfl
      · exact hline (List.mem_of_getLast? hlast)
      · exact hend hlast
  rw [hkept, List.reverse_reverse, String.ofList_toList]

/-- **What the full classifier reads of a line is what its grammar tells.**  A line that is no frame of a traceback gets a
    place exactly if it is `file:line:rest` with a line number of 32 bits.  Place and message are those that its text
    tells, whose parts are what the pattern of places keeps.  A place that is printed with a message behind it is read
    back, and so is the message. -/
theorem classify_places :
    (∀ l : OutputLine, '\n' ∉ l.text.toList → framePattern.matches? l.text.toList = none →
      ((Classifier.pep517.classify l).location.isSome = true ↔
        ∃ file line rest n, Reads l.text.toList file line rest ∧ IsWordNumber line n) ∧
      (∀ location message, (Classifier.pep517.classify l).location = some location ∧
        (Classifier.pep517.classify l).message = message ↔ Tells l.text location message) ∧
      ∀ kept, placePattern.matches? l.text.toList = some kept ↔
        ∃ parts, Spells l.text.toList parts ∧ parts.kept = kept) ∧
    ∀ (stream : OutputStream) (location : SourceLocation) (message : String),
      IsFile location.file.text.toList → location.line ≤ SourceLocation.maxNumber →
      (∀ n, location.column = some n → n ≤ SourceLocation.maxNumber) →
      (∀ c ∈ message.toList.head?, isBlank c = false) →
      '\n' ∉ (location.text ++ ": " ++ message).toList →
      (location.text ++ ": " ++ message).toList.getLast? ≠ some '\r' →
      framePattern.matches? (location.text ++ ": " ++ message).toList = none →
      (Classifier.pep517.classify (.ofText stream (location.text ++ ": " ++ message))).location = some location ∧
        (Classifier.pep517.classify (.ofText stream (location.text ++ ": " ++ message))).message = message := by
  -- the pattern for frames and its parts fail together
  have hframe {text : List Char} (h : framePattern.matches? text = none) : frameParts? text = none := by
    rwa [matches?_framePattern, Option.map_eq_none_iff] at h
  constructor
  · intro l hline hmatch
    refine ⟨?_, fun location message => classify_iff hline (hframe hmatch), fun kept => ?_⟩
    · rw [Option.isSome_iff_exists]
      constructor
      · rintro ⟨location, hlocation⟩
        obtain ⟨parts, hspells, -, hn, -⟩ := (classify_iff hline (hframe hmatch)).mp ⟨hlocation, rfl⟩
        obtain ⟨rest, hreads⟩ := hspells.exists_reads
        exact ⟨_, _, rest, _, hreads, hn⟩
      · rintro ⟨file, line, rest, n, hreads, hn⟩
        obtain ⟨location, message, htells⟩ := hreads.exists_tells hn
        exact ⟨location, ((classify_iff hline (hframe hmatch)).mpr htells).1⟩
    · rw [matches?_placePattern, Option.map_eq_some_iff]
      simp only [placeParts?_eq_some_iff hline]
  · intro stream location message hfile hline hcolumn hmessage hnewline hend hmatch
    have htext := text_ofText stream hnewline hend
    have htells := tells_text hfile hline hcolumn hmessage
    -- the line is the printed text itself, so the first half applies to it
    rw [← htext] at hnewline hmatch
    refine (classify_iff hnewline (hframe hmatch)).mpr ?_
    rw [htext]
    exact htells

/-- The place in `src/a.py:3:9: unused`. -/
def unusedImport : SourceLocation := ⟨⟨"src/a.py"⟩, 3, some 9⟩

/-- A line and a column in front of a message are read, and read back when they are printed. -/
theorem classify_places_unusedImport :
    ('\n' ∉ "src/a.py:3:9: unused".toList ∧ framePattern.matches? "src/a.py:3:9: unused".toList = none ∧
      (Classifier.pep517.classify ⟨.stderr, "src/a.py:3:9: unused"⟩).location.isSome = true) ∧
    IsFile unusedImport.file.text.toList ∧ unusedImport.text ++ ": " ++ "unused" = "src/a.py:3:9: unused" ∧
      (Classifier.pep517.classify (.ofText .stdout (unusedImport.text ++ ": " ++ "unused"))).location =
        some unusedImport ∧
      (Classifier.pep517.classify (.ofText .stdout (unusedImport.text ++ ": " ++ "unused"))).message = "unused" := by
  have hline : '\n' ∉ "src/a.py:3:9: unused".toList := by decide
  have hframe : framePattern.matches? "src/a.py:3:9: unused".toList = none := by decide
  -- the hypotheses at this line, evaluated
  have hfile : IsFile unusedImport.file.text.toList := by
    refine ⟨by decide, by decide, fun c hc => ?_⟩
    obtain rfl : 's' = c := Option.some.inj hc
    rfl
  have htext : unusedImport.text ++ ": " ++ "unused" = "src/a.py:3:9: unused" := by decide
  have hword : IsWordNumber "3".toList 3 :=
    ⟨by decide, List.all_eq_true.mp (by decide), by decide, by decide⟩
  have hreads : Reads "src/a.py:3:9: unused".toList "src/a.py".toList "3".toList "9: unused".toList :=
    ⟨by decide, hfile, hword.isDigits⟩
  have hmessage : ∀ c ∈ "unused".toList.head?, isBlank c = false := by
    intro c hc
    obtain rfl : 'u' = c := Option.some.inj hc
    rfl
  refine ⟨⟨hline, hframe, ?_⟩, hfile, htext, ?_⟩
  · exact ((classify_places.1 ⟨.stderr, "src/a.py:3:9: unused"⟩ hline hframe).1).mpr ⟨_, _, _, _, hreads, hword⟩
  · refine classify_places.2 .stdout unusedImport "unused" hfile (by decide) (fun n hn => ?_) hmessage ?_ ?_ ?_
    · cases hn
      decide
    · rwa [htext]
    · rw [htext]
      decide
    · rwa [htext]

-- a line number that no 32 bits hold gives no place
example : (Classifier.pep517.classify ⟨.stderr, "src/a.py:4294967296: unused"⟩).location = none := by decide

end Wheelwright
