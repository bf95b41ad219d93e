/-
  Agreement — what a diagnostic owes its line, and where the two classifiers tell the same.

  **Specification** — a diagnostic comes from the stream of its line; it is an info exactly if it is no problem; what has a
  place is a warning at least, and what has none has the whole text of the line for its message (`Accounts`).  Of a line
  that is no frame of a traceback the two classifiers tell the same but for the column, the severity and the kind.

  **Program** — each classifier has a path of its own through a line that matches, one whose number is none, and one that
  does not match.

  **The crux** — without a frame both read a place off the same parts (`placed?`).  A number that is none fails the place as
  a whole, in both, and both then fall back on the text; a column that is none is left out, and the plain classifier leaves
  out every column.
-/
import Wheelwright.Proofs.Classifier.Patterns

namespace Wheelwright

/-! ## What a diagnostic owes its line

  Both classifiers are held to the same duties.  A diagnostic is made of a text in one of three ways, and it is shown
  of each way, and not of each classifier, that the duties are done. -/

/-- Severities in order. -/
def Severity.rank : Severity → Nat
  | .info => 0
  | .warning => 1
  | .error => 2

/-- The place without its column. -/
def SourceLocation.withoutColumn (l : SourceLocation) : SourceLocation := { l with column := none }

/-- The diagnostic keeps what its line says. -/
structure Diagnostic.Accounts (d : Diagnostic) (l : OutputLine) : Prop where
  stream : d.stream = some l.stream
  info_iff : d.severity = .info ↔ d.kind ≠ .problem
  placed : d.location.isSome = true → Severity.warning.rank ≤ d.severity.rank
  whole : d.location = none → d.message = l.text

/-- The diagnostics that are made of a text: a problem at a place, or the text as a whole. -/
inductive Diagnostic.MadeOf (text : String) : Diagnostic → Prop
  | place {severity : Severity} (location : SourceLocation) (message : String) (h : severity ≠ .info) :
      MadeOf text { severity, kind := .problem, message, location := some location }
  | problem {severity : Severity} (h : severity ≠ .info) : MadeOf text { severity, kind := .problem, message := text }
  | remark {kind : EventKind} (h : kind ≠ .problem) : MadeOf text { severity := .info, kind, message := text }

/-- A severity above `info` is at least a warning. -/
theorem Severity.warning_le_of_ne {s : Severity} (h : s ≠ .info) : Severity.warning.rank ≤ s.rank := by
  cases s with
  | info => exact absurd rfl h
  | warning | error => decide

/-- Each of the three ways accounts for the line it is made of. -/
theorem Diagnostic.MadeOf.accounts {d : Diagnostic} {l : OutputLine} (h : d.MadeOf l.text) :
    { d with stream := some l.stream }.Accounts l := by
  cases h with
  | place location message h => exact ⟨rfl, iff_of_false h (not_not_intro rfl), fun _ => Severity.warning_le_of_ne h, nofun⟩
  | problem h => exact ⟨rfl, iff_of_false h (not_not_intro rfl), nofun, fun _ => rfl⟩
  | remark h => exact ⟨rfl, iff_of_true rfl h, nofun, fun _ => rfl⟩

namespace Classifier

variable {text : String}

/-! ## The full classifier

  The classifier that knows frames and marks.  It falls back on the text of the line as soon as a number in a place is
  none. -/

/-- The full classifier makes its diagnostics in one of the three ways. -/
theorem madeOf_classifyMarked (text : String) : (classifyMarked text).MadeOf text := by
  rw [classifyMarked]
  -- a place in the line, a mark at its beginning, or a plain line
  cases located? text with
  | some l =>
    dsimp only
    split
    · exact .place l.location l.message Severity.noConfusion
    · exact .place l.location l.message Severity.noConfusion
  | none =>
    dsimp only
    split
    · exact .remark EventKind.noConfusion
    · split
      · exact .problem Severity.noConfusion
      · exact .problem Severity.noConfusion
      · exact .remark EventKind.noConfusion

/-- The full classifier tells the place that the line names, and the message behind it. -/
theorem told_classifyMarked (text : String) :
    (classifyMarked text).location = (located? text).map Located.location ∧
      (classifyMarked text).message = ((located? text).map Located.message).getD text := by
  -- split as the classifier does; message and place are the same in every branch
  rw [classifyMarked]
  cases located? text with
  | some l =>
    dsimp only
    split
    · exact ⟨rfl, rfl⟩
    · exact ⟨rfl, rfl⟩
  | none =>
    dsimp only
    split
    · exact ⟨rfl, rfl⟩
    · split
      · exact ⟨rfl, rfl⟩
      · exact ⟨rfl, rfl⟩
      · exact ⟨rfl, rfl⟩

/-! ## Places without frames

  Where there is no frame the full classifier reads the line as the plain one does. `placed?` is what both ask, so the
  two can be compared by the place that it gives. -/

/-- The place that a line names as `file:line:message` or `file:line:column:message`. -/
def placed? (text : String) : Option Located := do
  let parts ← placeParts? text.toList
  let n ← wordNumber? parts.line
  let column := parts.column.bind wordNumber?
  some ⟨{ file := ⟨String.ofList parts.file⟩, line := n, column }, String.ofList parts.message⟩

/-- A line that is no frame names a place in no other way. -/
theorem located?_of_not_frame (h : framePattern.matches? text.toList = none) : located? text = placed? text := by
  rw [matches?_framePattern, Option.map_eq_none_iff] at h
  rw [located?, h]
  rfl

/-- The plain classifier does so as well. -/
theorem madeOf_classifyPlaced (text : String) : (classifyPlaced text).MadeOf text := by
  rw [classifyPlaced]
  split
  · exact .remark EventKind.noConfusion
  · split
    · exact .remark EventKind.noConfusion
    · exact .place _ _ Severity.noConfusion

/-- The plain classifier tells the same place, without the column. -/
theorem told_classifyPlaced (text : String) :
    (classifyPlaced text).location = (placed? text).map (·.location.withoutColumn) ∧
      (classifyPlaced text).message = ((placed? text).map Located.message).getD text := by
  rw [classifyPlaced, placed?]
  cases placeParts? text.toList with
  | none => exact ⟨rfl, rfl⟩
  | some parts =>
    dsimp only [Option.bind_eq_bind, Option.bind_some]
    cases wordNumber? parts.line with
    | none => exact ⟨rfl, rfl⟩
    | some n => exact ⟨rfl, rfl⟩

/-! ## The two side by side

  The two paths meet here: the same place or none, and the same message up to what each of them makes of it. -/

/-- **Nothing of a line is lost, and the classifiers agree on places.**  Every diagnostic accounts for its line, whichever
    classifier made it.  Of a line that is no frame of a traceback, the plain classifier tells what the full one tells: the
    same message, and a place exactly if that one does, of the same file and line; only the column is missing, and severity
    and kind are its own. -/
theorem classifiers_agree :
    (∀ (c : Classifier) (l : OutputLine), (c.classify l).Accounts l) ∧
    ∀ l : OutputLine, framePattern.matches? l.text.toList = none →
      Classifier.plain.classify l =
        { Classifier.pep517.classify l with
          location := (Classifier.pep517.classify l).location.map SourceLocation.withoutColumn
          severity := (Classifier.plain.classify l).severity
          kind := (Classifier.plain.classify l).kind } := by
  constructor
  · intro c l
    cases c with
    | pep517 => exact (madeOf_classifyMarked l.text).accounts
    | plain => exact (madeOf_classifyPlaced l.text).accounts
  -- off the frames both read the same place and message, and differ in the column only
  · intro l hframe
    obtain ⟨hplace, hmessage⟩ := told_classifyMarked l.text
    obtain ⟨hplacePlain, hmessagePlain⟩ := told_classifyPlaced l.text
    rw [located?_of_not_frame hframe] at hplace hmessage
    have hlocation : (classifyPlaced l.text).location =
        (classifyMarked l.text).location.map SourceLocation.withoutColumn := by
      rw [hplacePlain, hplace, Option.map_map]
      rfl
    simp only [classify, ← hlocation, hmessage, ← hmessagePlain]

/-- A line that both read a place of: the full classifier sees an error and a column. -/
theorem classifiers_agree_unterminated :
    framePattern.matches? "src/a.py:3:9: error: unterminated".toList = none ∧
    (Classifier.pep517.classify ⟨.stderr, "src/a.py:3:9: error: unterminated"⟩).severity = .error ∧
    (Classifier.plain.classify ⟨.stderr, "src/a.py:3:9: error: unterminated"⟩).location = some ⟨⟨"src/a.py"⟩, 3, none⟩ ∧
    (Classifier.plain.classify ⟨.stderr, "src/a.py:3:9: error: unterminated"⟩).message = "error: unterminated" := by
  have hframe : framePattern.matches? "src/a.py:3:9: error: unterminated".toList = none := by decide
  have hagree := classifiers_agree.2 ⟨.stderr, "src/a.py:3:9: error: unterminated"⟩ hframe
  refine ⟨hframe, by decide, ?_, ?_⟩
  · rw [hagree]
    decide
  · rw [hagree]
    decide

-- a frame has a place for the full classifier alone
example : (Classifier.pep517.classify ⟨.stderr, "  File \"a.py\", line 7"⟩).location = some ⟨⟨"a.py"⟩, 7, none⟩ ∧
    (Classifier.plain.classify ⟨.stderr, "  File \"a.py\", line 7"⟩).location = none := by decide

end Classifier

end Wheelwright
