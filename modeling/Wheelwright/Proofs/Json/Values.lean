/-
  Values come back from their encodings.

  **Specification** — lines of output, diagnostics, exits, failures, commands, templates, reasons, facts about errors and
  artifacts go to texts and come back, whatever their texts, numbers and spans are and whichever of their fields are
  there.  Three of them hold a path of the system, which may be no text: then the writer refuses the value, and for no
  other reason (`Format.ReadBack`).

  **Program** — each type has a writer and a reader of its own.  The writer leaves some fields out when there is nothing to
  write and writes `null` for others; a variant is a name, or a tag in front of its fields.  The reader has a value for a
  field that is missing, or refuses its absence.

  **The crux** — a field that is left out is one that the reader reads as nothing when it is missing, and nothing else is
  left out (`slots`); and the reader lets no number pass that its field cannot hold (`fits_of_ofJson?`).
-/
import Wheelwright.Cancellation
import Wheelwright.ErrorInfo
import Wheelwright.OsPath
import Wheelwright.Proofs.Json.Formats
import Wheelwright.Proofs.Json.Records
import Wheelwright.Proofs.Text.Strict
import Wheelwright.Result

namespace Wheelwright

open Json (Named present written)

/-! ## Lines of output

  The smallest of the types, and the pattern of all others: the slots of a value, the JSON they make, that reading
  gives the value back, and the format that is made of the two. -/

theorem OutputStream.ofJson?_toJson (s : OutputStream) : ofJson? s.toJson = some s := by cases s <;> rfl

namespace OutputLine

/-- The fields of a line as slots, from which its JSON is made. Every type below has its slots, that its JSON is made of
    them, that it is read back from them and is plain, and that what is read fits. -/
def slots (l : OutputLine) : List (String × Option Json) :=
  [("stream", some l.stream.toJson), ("text", some (.string l.text))]

theorem toJson_eq (l : OutputLine) : l.toJson = .object (present l.slots) := rfl

theorem ofJson?_toJson (l : OutputLine) : ofJson? l.toJson = some l := by
  have hnamed : Named ["stream", "text"] l.slots := ⟨rfl, by decide⟩
  have hstream : (written l.slots).required "stream" OutputStream.ofJson? = some l.stream :=
    hnamed.required rfl l.stream.ofJson?_toJson
  have htext : (written l.slots).required "text" Json.text? = some l.text := hnamed.required rfl rfl
  rw [ofJson?, toJson_eq, hnamed.record?]
  simp only [Option.bind_eq_bind, Option.bind_some, hstream, htext]

/-- Lines of output, with any text. -/
def format : Format OutputLine := .ofWriter toJson ofJson? fun _ => True

/-- Lines are read back as they are. -/
theorem lawful_format : format.Lawful :=
  Format.lawful_ofWriter (fun _ => rfl) (fun _ => ofJson?_toJson _) fun _ => trivial

end OutputLine

/-! ## Diagnostics

  A diagnostic may have a place, and the place numbers of 32 bits.  What fits is said of the place first. -/

theorem Severity.ofJson?_toJson (s : Severity) : ofJson? s.toJson = some s := by cases s <;> rfl

theorem EventKind.ofJson?_toJson (k : EventKind) : ofJson? k.toJson = some k := by cases k <;> rfl

namespace SourceLocation

variable {l : SourceLocation} {j : Json}

/-- Line and column have 32 bits. -/
structure Fits (l : SourceLocation) : Prop where
  /-- The line and the column are words. -/
  line : l.line ≤ maxNumber
  column : ∀ c ∈ l.column, c ≤ maxNumber

/-- The fields of a place. -/
def slots (l : SourceLocation) : List (String × Option Json) :=
  [("file", some (.string l.file.text)), ("line", some (.nat l.line)), ("column", l.column.map Json.nat)]

theorem toJson_eq (l : SourceLocation) : l.toJson = .object (present l.slots) := by
  obtain ⟨file, line, column⟩ := l
  cases column <;> rfl

theorem ofJson?_toJson (h : l.Fits) : ofJson? l.toJson = some l := by
  have hnamed : Named ["file", "line", "column"] l.slots := ⟨rfl, by decide⟩
  have hfile : (written l.slots).required "file" Json.text? = some l.file.text := hnamed.required rfl rfl
  have hline : (written l.slots).required "line" (Json.natUpTo? maxNumber) = some l.line :=
    hnamed.required rfl (Json.natUpTo?_nat h.line)
  have hcolumn : (written l.slots).optional "column" (Json.natUpTo? maxNumber) = some l.column :=
    hnamed.optional rfl rfl fun c hc => Json.natUpTo?_nat (h.column c hc)
  rw [ofJson?, toJson_eq, hnamed.record?]
  simp only [Option.bind_eq_bind, Option.bind_some, hfile, hline, hcolumn]

theorem isPlain_toJson (h : l.Fits) : l.toJson.isPlain = true := by
  have hword : maxNumber ≤ NumeralText.maxWord := by decide
  rw [toJson_eq]
  refine Json.isPlain_present ?_
  simp only [slots, List.forall_mem_cons]
  exact ⟨Json.plain_some rfl, Json.plain_some (Json.isPlain_nat (Nat.le_trans h.line hword)),
    Json.plain_map fun c hc => Json.isPlain_nat (Nat.le_trans (h.column c hc) hword), nofun⟩

theorem fits_of_ofJson? (h : ofJson? j = some l) : l.Fits := by
  simp only [ofJson?, Option.bind_eq_bind, Option.bind_eq_some_iff] at h
  obtain ⟨r, -, file, -, line, hline, column, hcolumn, h⟩ := h
  cases h
  obtain ⟨_, hline⟩ := Json.exists_of_required hline
  refine ⟨Json.le_of_natUpTo? hline, fun c hc => ?_⟩
  obtain ⟨_, hc⟩ := Json.exists_of_optional hcolumn c hc
  exact Json.le_of_natUpTo? hc

end SourceLocation

namespace Diagnostic

variable {d : Diagnostic} {j : Json}

/-- Its place fits. -/
def Fits (d : Diagnostic) : Prop := ∀ l ∈ d.location, l.Fits

/-- The fields of a diagnostic. -/
def slots (d : Diagnostic) : List (String × Option Json) :=
  [("severity", some d.severity.toJson), ("kind", some d.kind.toJson), ("message", some (.string d.message)),
    ("location", d.location.map SourceLocation.toJson), ("stream", d.stream.map OutputStream.toJson)]

theorem toJson_eq (d : Diagnostic) : d.toJson = .object (present d.slots) := by
  obtain ⟨severity, kind, message, location, stream⟩ := d
  cases location <;> cases stream <;> rfl

theorem ofJson?_toJson (h : d.Fits) : ofJson? d.toJson = some d := by
  have hnamed : Named ["severity", "kind", "message", "location", "stream"] d.slots := ⟨rfl, by decide⟩
  have hseverity : (written d.slots).required "severity" Severity.ofJson? = some d.severity :=
    hnamed.required rfl d.severity.ofJson?_toJson
  have hkind : (written d.slots).defaulted "kind" .log EventKind.ofJson? = some d.kind :=
    hnamed.defaulted rfl d.kind.ofJson?_toJson .log
  have hmessage : (written d.slots).required "message" Json.text? = some d.message := hnamed.required rfl rfl
  have hlocation : (written d.slots).optional "location" SourceLocation.ofJson? = some d.location :=
    hnamed.optional rfl rfl fun l hl => SourceLocation.ofJson?_toJson (h l hl)
  have hstream : (written d.slots).optional "stream" OutputStream.ofJson? = some d.stream :=
    hnamed.optional rfl rfl fun s _ => s.ofJson?_toJson
  rw [ofJson?, toJson_eq, hnamed.record?]
  simp only [Option.bind_eq_bind, Option.bind_some, hseverity, hkind, hmessage, hlocation, hstream]

theorem isPlain_toJson (h : d.Fits) : d.toJson.isPlain = true := by
  rw [toJson_eq]
  refine Json.isPlain_present ?_
  simp only [slots, List.forall_mem_cons]
  exact ⟨Json.plain_some rfl, Json.plain_some rfl, Json.plain_some rfl,
    Json.plain_map fun l hl => SourceLocation.isPlain_toJson (h l hl), Json.plain_map fun _ _ => rfl, nofun⟩

theorem fits_of_ofJson? (h : ofJson? j = some d) : d.Fits := by
  simp only [ofJson?, Option.bind_eq_bind, Option.bind_eq_some_iff] at h
  obtain ⟨r, -, severity, -, kind, -, message, -, location, hlocation, stream, -, h⟩ := h
  cases h
  intro l hl
  obtain ⟨_, hl⟩ := Json.exists_of_optional hlocation l hl
  exact SourceLocation.fits_of_ofJson? hl

/-- The format of diagnostics whose places are texts. -/
def format : Format Diagnostic := .ofWriter toJson ofJson? Fits

theorem lawful_format : format.Lawful := Format.lawful_ofWriter isPlain_toJson ofJson?_toJson fits_of_ofJson?

end Diagnostic

/-! ## Exits

  An exit has a tag, and beside it a code if it is one of the kind that has one.  A code that is missing is written as
  null. -/

namespace ExitOutcome

variable {e : ExitOutcome} {j : Json} {levels : Nat}

/-- Its code has 32 bits. -/
def Fits (e : ExitOutcome) : Prop := ∀ c ∈ e.code?, Json.IsInt32 c

/-- The tag that tells the exits apart. -/
def tag : ExitOutcome → String
  | .exited _ => "exited"
  | .cancelled => "cancelled"
  | .timedOut => "timed_out"

/-- The fields of an exit beside its tag. -/
def slots : ExitOutcome → List (String × Option Json)
  | .exited code => [("code", some (Json.ofOption Json.int code))]
  | .cancelled | .timedOut => []

theorem toJson_eq (e : ExitOutcome) : e.toJson = .object (present (("type", some (.string e.tag)) :: e.slots)) := by
  cases e <;> rfl

/-- The tag is found, whatever other fields there are. -/
theorem tagged?_toJson (hlevels : levels ≠ 0) (e : ExitOutcome) :
    Json.tagged? "type" levels e.toJson = some ⟨e.tag, .object (present e.slots)⟩ := by
  rw [toJson_eq]
  cases e with
  | exited code =>
    have hnamed : Named ["type", "code"] (("type", some (.string "exited")) :: slots (.exited code)) :=
      ⟨rfl, by decide⟩
    have hread : readableFields (levels - 1) (present (slots (.exited code))) = true := by
      cases code with
      | none => rfl
      | some c =>
        show (Json.readableWithin (levels - 1) (Json.int c) && true) = true
        rw [Json.int]
        split <;> rfl
    exact hnamed.tagged? hlevels hread
  | cancelled | timedOut =>
    have hone : ["type"].Nodup := by decide
    exact Named.tagged? ⟨rfl, hone⟩ hlevels rfl

theorem ofJson?_toJson (hlevels : levels ≠ 0) (h : e.Fits) : ofJson? levels e.toJson = some e := by
  rw [ofJson?, tagged?_toJson hlevels]
  cases e with
  | exited code =>
    have hnamed : Named ["code"] (slots (.exited code)) := ⟨rfl, by decide⟩
    have hcode : (written (slots (.exited code))).nullable "code" Json.int32? = some code :=
      hnamed.nullable rfl rfl fun c hc => Json.int32?_int (h c hc)
    simp only [Option.bind_eq_bind, Option.bind_some, tag, if_true, hnamed.record?, hcode, Option.map_some]
  | cancelled | timedOut => rfl

theorem isPlain_toJson (h : e.Fits) : e.toJson.isPlain = true := by
  rw [toJson_eq]
  refine Json.isPlain_present ?_
  cases e with
  | exited code =>
    simp only [slots, List.forall_mem_cons]
    exact ⟨Json.plain_some rfl, Json.plain_some (Json.isPlain_ofOption fun c hc => Json.isPlain_int (h c hc)), nofun⟩
  | cancelled | timedOut => exact List.forall_mem_singleton.mpr (Json.plain_some rfl)

theorem fits_of_ofJson? (h : ofJson? levels j = some e) : e.Fits := by
  obtain ⟨t, -, h⟩ := Option.bind_eq_some_iff.mp h
  split at h
  · obtain ⟨r, -, h⟩ := Option.bind_eq_some_iff.mp h
    obtain ⟨code, hcode, rfl⟩ := Option.map_eq_some_iff.mp h
    intro c hc
    obtain ⟨_, hc⟩ := Json.exists_of_nullable hcode c hc
    exact Json.isInt32_of_int32? hc
  · split at h
    · cases h
    · split at h
      · cases h
        nofun
      · split at h
        · cases h
          nofun
        · cases h

/-- Exits, in a text of their own. -/
def format : Format ExitOutcome := .ofWriter toJson (ofJson? 127) Fits

/-- Exits are read back, as long as the code is a signed word. -/
theorem lawful_format : format.Lawful :=
  Format.lawful_ofWriter isPlain_toJson (ofJson?_toJson (by decide)) fits_of_ofJson?

end ExitOutcome

/-! ## Failures

  A failure has an exit code that may be missing, and a kind. -/

theorem FailureKind.ofJson?_toJson (k : FailureKind) : ofJson? k.toJson = some k := by cases k <;> rfl

namespace StageFailure

variable {f : StageFailure} {j : Json}

/-- Its exit code has 32 bits. -/
def Fits (f : StageFailure) : Prop := ∀ c ∈ f.exitCode, Json.IsInt32 c

/-- The fields of a failure. -/
def slots (f : StageFailure) : List (String × Option Json) :=
  [("stage", some (.string f.stage)), ("kind", some f.kind.toJson), ("message", some (.string f.message)),
    ("exit_code", f.exitCode.map Json.int)]

theorem toJson_eq (f : StageFailure) : f.toJson = .object (present f.slots) := by
  obtain ⟨stage, kind, message, exitCode⟩ := f
  cases exitCode <;> rfl

theorem ofJson?_toJson (h : f.Fits) : ofJson? f.toJson = some f := by
  have hnamed : Named ["stage", "kind", "message", "exit_code"] f.slots := ⟨rfl, by decide⟩
  have hstage : (written f.slots).required "stage" Json.text? = some f.stage := hnamed.required rfl rfl
  have hkind : (written f.slots).required "kind" FailureKind.ofJson? = some f.kind :=
    hnamed.required rfl f.kind.ofJson?_toJson
  have hmessage : (written f.slots).required "message" Json.text? = some f.message := hnamed.required rfl rfl
  have hcode : (written f.slots).optional "exit_code" Json.int32? = some f.exitCode :=
    hnamed.optional rfl rfl fun c hc => Json.int32?_int (h c hc)
  rw [ofJson?, toJson_eq, hnamed.record?]
  simp only [Option.bind_eq_bind, Option.bind_some, hstage, hkind, hmessage, hcode]

theorem isPlain_toJson (h : f.Fits) : f.toJson.isPlain = true := by
  rw [toJson_eq]
  refine Json.isPlain_present ?_
  simp only [slots, List.forall_mem_cons]
  exact ⟨Json.plain_some rfl, Json.plain_some rfl, Json.plain_some rfl,
    Json.plain_map fun c hc => Json.isPlain_int (h c hc), nofun⟩

theorem fits_of_ofJson? (h : ofJson? j = some f) : f.Fits := by
  simp only [ofJson?, Option.bind_eq_bind, Option.bind_eq_some_iff] at h
  obtain ⟨r, -, stage, -, kind, -, message, -, exitCode, hcode, h⟩ := h
  cases h
  intro c hc
  obtain ⟨_, hc⟩ := Json.exists_of_optional hcode c hc
  exact Json.isInt32_of_int32? hc

/-- The format of failures. -/
def format : Format StageFailure := .ofWriter toJson ofJson? Fits

theorem lawful_format : format.Lawful := Format.lawful_ofWriter isPlain_toJson ofJson?_toJson fits_of_ofJson?

end StageFailure

/-! ## Commands and templates

  A deadline is written as whole seconds and nanoseconds beside them.  It is read as the span that the two come to,
  the whole seconds of which have to fit 64 bits. -/

namespace Command

variable {c : Command} {d : Span} {j : Json}

/-- The fields of a span. -/
def spanSlots (d : Span) : List (String × Option Json) :=
  [("secs", some (.nat d.wholeSeconds)), ("nanos", some (.nat d.subsecNanos))]

/-- Nanoseconds beside whole seconds are less than a second. -/
theorem subsecNanos_lt (d : Span) : d.subsecNanos < Span.perSecond := Nat.mod_lt _ (by decide)

theorem perSecond_le : Span.perSecond ≤ Nat.pow 2 32 - 1 := by decide

/-- A span is put together again from its parts. -/
theorem spanOfParts?_eq (h : d.wholeSeconds < Nat.pow 2 64) :
    spanOfParts? d.wholeSeconds d.subsecNanos = some d := by
  have htotal : d.wholeSeconds * Span.perSecond + d.subsecNanos = d.nanoseconds := Nat.div_add_mod' _ _
  rw [spanOfParts?, htotal]
  exact if_pos h

/-- Its seconds are those that were read. -/
theorem wholeSeconds_of_spanOfParts? {secs nanos : Nat} (h : spanOfParts? secs nanos = some d) :
    d.wholeSeconds < Nat.pow 2 64 := by
  obtain ⟨hlt, h⟩ := Option.ite_none_right_eq_some.mp h
  cases h
  exact hlt

theorem spanOfJson?_spanJson (h : d.wholeSeconds < Nat.pow 2 64) : spanOfJson? (spanJson d) = some d := by
  have hspan : spanJson d = .object (present (spanSlots d)) := rfl
  have hnamed : Named ["secs", "nanos"] (spanSlots d) := ⟨rfl, by decide⟩
  have hstrict : (present (spanSlots d)).all (fun f => f.1 = "secs" || f.1 = "nanos") = true := rfl
  have hsecs : (written (spanSlots d)).required "secs" (Json.natUpTo? (Nat.pow 2 64 - 1)) = some d.wholeSeconds :=
    hnamed.required rfl (Json.natUpTo?_nat (Nat.le_sub_one_of_lt h))
  have hnanos : (written (spanSlots d)).required "nanos" (Json.natUpTo? (Nat.pow 2 32 - 1)) = some d.subsecNanos :=
    hnamed.required rfl (Json.natUpTo?_nat (Nat.le_trans (Nat.le_of_lt (subsecNanos_lt d)) perSecond_le))
  rw [hspan, spanOfJson?]
  simp only [hstrict, hnamed.record?, Option.bind_eq_bind, Option.bind_some, Bool.not_true, Bool.false_eq_true, if_false]
  rw [hsecs, Option.bind_some, hnanos, Option.bind_some, spanOfParts?_eq h]

theorem isPlain_spanJson (h : d.wholeSeconds < Nat.pow 2 64) : (spanJson d).isPlain = true := by
  have hword : Nat.pow 2 32 - 1 ≤ NumeralText.maxWord := by decide
  have hspan : spanJson d = .object (present (spanSlots d)) := rfl
  rw [hspan]
  refine Json.isPlain_present ?_
  simp only [spanSlots, List.forall_mem_cons]
  exact ⟨Json.plain_some (Json.isPlain_nat (Nat.le_sub_one_of_lt h)),
    Json.plain_some (Json.isPlain_nat (Nat.le_trans (Nat.le_of_lt (subsecNanos_lt d)) (Nat.le_trans perSecond_le hword))),
    nofun⟩

theorem wholeSeconds_of_spanOfJson? (h : spanOfJson? j = some d) : d.wholeSeconds < Nat.pow 2 64 := by
  obtain ⟨-, h⟩ := Option.ite_none_left_eq_some.mp h
  obtain ⟨r, -, h⟩ := Option.bind_eq_some_iff.mp h
  obtain ⟨secs, -, h⟩ := Option.bind_eq_some_iff.mp h
  obtain ⟨nanos, -, h⟩ := Option.bind_eq_some_iff.mp h
  exact wholeSeconds_of_spanOfParts? h

/-- The seconds of its deadline have 64 bits. -/
def Fits (c : Command) : Prop := ∀ d ∈ c.timeout, d.wholeSeconds < Nat.pow 2 64

/-- A variable of the environment, as a pair. -/
def pairJson (e : String × String) : Json := .strings [e.1, e.2]

/-- The environment is read back pair by pair. -/
theorem list?_pairs (env : List (String × String)) :
    Json.list? pairOfJson? (.array (env.map pairJson)) = some env := Json.list?_map fun _ _ => rfl

/-- The fields of a command. -/
def slots (c : Command) : List (String × Option Json) :=
  [("program", some (.string c.program)), ("args", some (.strings c.args)), ("cwd", some (.string c.cwd.text)),
    ("env", some (.array (c.env.map pairJson))), ("timeout", c.timeout.map spanJson)]

theorem toJson_eq (c : Command) : c.toJson = .object (present c.slots) := by
  obtain ⟨program, args, cwd, env, timeout⟩ := c
  cases timeout <;> rfl

theorem ofJson?_toJson (h : c.Fits) : ofJson? c.toJson = some c := by
  have hnamed : Named ["program", "args", "cwd", "env", "timeout"] c.slots := ⟨rfl, by decide⟩
  have hprogram : (written c.slots).required "program" Json.text? = some c.program := hnamed.required rfl rfl
  have hargs : (written c.slots).defaulted "args" [] (Json.list? Json.text?) = some c.args :=
    hnamed.defaulted rfl (Json.list?_strings c.args) []
  have hcwd : (written c.slots).required "cwd" Json.text? = some c.cwd.text := hnamed.required rfl rfl
  have henv : (written c.slots).defaulted "env" [] (Json.list? pairOfJson?) = some c.env :=
    hnamed.defaulted rfl (list?_pairs c.env) []
  have htimeout : (written c.slots).optional "timeout" spanOfJson? = some c.timeout :=
    hnamed.optional rfl rfl fun d hd => spanOfJson?_spanJson (h d hd)
  rw [ofJson?, toJson_eq, hnamed.record?]
  simp only [Option.bind_eq_bind, Option.bind_some, hprogram, hargs, hcwd, henv, htimeout]

theorem isPlain_toJson (h : c.Fits) : c.toJson.isPlain = true := by
  rw [toJson_eq]
  refine Json.isPlain_present ?_
  simp only [slots, List.forall_mem_cons]
  exact ⟨Json.plain_some rfl, Json.plain_some (Json.isPlain_strings c.args), Json.plain_some rfl,
    Json.plain_some (Json.isPlain_array fun _ _ => rfl), Json.plain_map fun d hd => isPlain_spanJson (h d hd), nofun⟩

theorem fits_of_ofJson? (h : ofJson? j = some c) : c.Fits := by
  simp only [ofJson?, Option.bind_eq_bind, Option.bind_eq_some_iff] at h
  obtain ⟨r, -, program, -, args, -, cwd, -, env, -, timeout, htimeout, h⟩ := h
  cases h
  intro d hd
  obtain ⟨_, hd⟩ := Json.exists_of_optional htimeout d hd
  exact wholeSeconds_of_spanOfJson? hd

/-- The format of commands whose directory is a text. -/
def format : Format Command := .ofWriter toJson ofJson? Fits

theorem lawful_format : format.Lawful := Format.lawful_ofWriter isPlain_toJson ofJson?_toJson fits_of_ofJson?

end Command

namespace CommandTemplate

variable {t : CommandTemplate}

theorem ofJson?_toJson (t : CommandTemplate) : ofJson? t.toJson = some t := by
  have hnamed : Named ["argv"] [("argv", some (.strings t.parts))] := ⟨rfl, by decide⟩
  have hjson : t.toJson = .object (present [("argv", some (.strings t.parts))]) := rfl
  have hparts : (written [("argv", some (.strings t.parts))]).required "argv" (Json.list? Json.text?) = some t.parts :=
    hnamed.required rfl (Json.list?_strings t.parts)
  rw [ofJson?, hjson, hnamed.record?]
  simp only [Option.bind_eq_bind, Option.bind_some, hparts, Option.map_some]

theorem isPlain_toJson (t : CommandTemplate) : t.toJson.isPlain = true :=
  Json.havePlain_iff.mpr (List.forall_mem_singleton.mpr (Json.isPlain_strings t.parts))

/-- Templates, with any parts. -/
def format : Format CommandTemplate := .ofWriter toJson ofJson? fun _ => True

/-- Templates are read back as they are. -/
theorem lawful_format : format.Lawful :=
  Format.lawful_ofWriter (fun _ => isPlain_toJson _) (fun _ => ofJson?_toJson _) fun _ => trivial

end CommandTemplate

/-! ## Reasons

  A reason has a tag, and a message or a number of milliseconds. -/

namespace CancelReason

variable {r : CancelReason} {j : Json}

/-- The milliseconds of its deadline have 64 bits. -/
def Fits : CancelReason → Prop
  | .requested _ => True
  | .deadlineElapsed afterMs => afterMs ≤ Nat.pow 2 64 - 1

/-- The tag that tells the reasons apart. -/
def tag : CancelReason → String
  | .requested _ => "requested"
  | .deadlineElapsed _ => "deadline_elapsed"

/-- The fields of a reason beside its tag. -/
def slots : CancelReason → List (String × Option Json)
  | .requested message => [("message", some (.string message))]
  | .deadlineElapsed afterMs => [("after_ms", some (.nat afterMs))]

theorem toJson_eq (r : CancelReason) : r.toJson = .object (present (("type", some (.string r.tag)) :: r.slots)) := by
  cases r <;> rfl

theorem tagged?_toJson (r : CancelReason) :
    Json.tagged? "type" 127 r.toJson = some ⟨r.tag, .object (present r.slots)⟩ := by
  have hlevels : 127 ≠ 0 := by decide
  rw [toJson_eq]
  cases r with
  | requested message =>
    have hnamed : Named ["type", "message"] (("type", some (.string "requested")) :: slots (.requested message)) :=
      ⟨rfl, by decide⟩
    exact hnamed.tagged? hlevels rfl
  | deadlineElapsed afterMs =>
    have hnamed : Named ["type", "after_ms"]
        (("type", some (.string "deadline_elapsed")) :: slots (.deadlineElapsed afterMs)) := ⟨rfl, by decide⟩
    exact hnamed.tagged? hlevels rfl

theorem ofJson?_toJson (h : r.Fits) : ofJson? r.toJson = some r := by
  rw [ofJson?, tagged?_toJson]
  cases r with
  | requested message =>
    have hnamed : Named ["message"] (slots (.requested message)) := ⟨rfl, by decide⟩
    have hmessage : (written (slots (.requested message))).required "message" Json.text? = some message :=
      hnamed.required rfl rfl
    simp only [Option.bind_eq_bind, Option.bind_some, tag, if_true, hnamed.record?, hmessage, Option.map_some]
  | deadlineElapsed afterMs =>
    have hnamed : Named ["after_ms"] (slots (.deadlineElapsed afterMs)) := ⟨rfl, by decide⟩
    have hafter : (written (slots (.deadlineElapsed afterMs))).required "after_ms"
        (Json.natUpTo? (Nat.pow 2 64 - 1)) = some afterMs := hnamed.required rfl (Json.natUpTo?_nat h)
    have hother : ¬ "deadline_elapsed" = "requested" := by decide
    simp only [Option.bind_eq_bind, Option.bind_some, tag, if_neg hother, if_true, hnamed.record?, hafter,
      Option.map_some]

theorem isPlain_toJson (h : r.Fits) : r.toJson.isPlain = true := by
  rw [toJson_eq]
  refine Json.isPlain_present ?_
  cases r with
  | requested message =>
    simp only [slots, List.forall_mem_cons]
    exact ⟨Json.plain_some rfl, Json.plain_some rfl, nofun⟩
  | deadlineElapsed afterMs =>
    simp only [slots, List.forall_mem_cons]
    exact ⟨Json.plain_some rfl, Json.plain_some (Json.isPlain_nat h), nofun⟩

theorem fits_of_ofJson? (h : ofJson? j = some r) : r.Fits := by
  obtain ⟨t, -, h⟩ := Option.bind_eq_some_iff.mp h
  split at h
  · obtain ⟨fields, -, h⟩ := Option.bind_eq_some_iff.mp h
    obtain ⟨message, -, rfl⟩ := Option.map_eq_some_iff.mp h
    trivial
  · split at h
    · obtain ⟨fields, -, h⟩ := Option.bind_eq_some_iff.mp h
      obtain ⟨afterMs, hafter, rfl⟩ := Option.map_eq_some_iff.mp h
      obtain ⟨_, hafter⟩ := Json.exists_of_required hafter
      exact Json.le_of_natUpTo? hafter
    · cases h

/-- The format of reasons. -/
def format : Format CancelReason := .ofWriter toJson ofJson? Fits

theorem lawful_format : format.Lawful := Format.lawful_ofWriter isPlain_toJson ofJson?_toJson fits_of_ofJson?

end CancelReason

/-! ## Facts about errors

  The facts about an error are a map, so two values of this type may be equal without being the same list.  The reader
  keeps the order in which it finds them. -/

namespace ErrorInfo

variable {e : ErrorInfo} {j : Json} {context entries : List (String × String)} {name value : String}

/-- No fact is named twice. -/
def Fits (e : ErrorInfo) : Prop := (e.context.map Prod.fst).Nodup

/-- The facts have no order. -/
structure Same (a b : ErrorInfo) : Prop where
  /-- Everything is equal but the order of the context. -/
  code : a.code = b.code
  summary : a.summary = b.summary
  fixHint : a.fixHint = b.fixHint
  context : a.context.Perm b.context

/-- So it is an equivalence, as reordering is. -/
theorem equivalence_same : Equivalence Same where
  refl _ := ⟨rfl, rfl, rfl, .refl _⟩
  symm h := ⟨h.code.symm, h.summary.symm, h.fixHint.symm, h.context.symm⟩
  trans h k := ⟨h.code.trans k.code, h.summary.trans k.summary, h.fixHint.trans k.fixHint, h.context.trans k.context⟩

/-- A fact of a new name comes behind the others. -/
theorem put_of_not_mem (h : name ∉ context.map Prod.fst) : put context name value = context ++ [(name, value)] := by
  rw [put, List.filter_eq_self.mpr]
  intro fact hfact
  refine decide_eq_true ?_
  rintro rfl
  exact h (List.mem_map.mpr ⟨fact, hfact, rfl⟩)

/-- Entries of new names are put one after another. -/
theorem foldl_put (h : ((context ++ entries).map Prod.fst).Nodup) :
    entries.foldl (fun context f => put context f.1 f.2) context = context ++ entries := by
  induction entries generalizing context with
  | nil => exact (List.append_nil context).symm
  | cons f rest ih =>
    have hnew : f.1 ∉ context.map Prod.fst := by
      rw [List.map_append, List.nodup_append] at h
      exact fun hmem => h.2.2 _ hmem _ List.mem_cons_self rfl
    rw [List.foldl_cons, put_of_not_mem hnew, ih (by rwa [List.append_assoc]), List.append_assoc]
    rfl

/-- Putting an entry keeps the names distinct. -/
theorem nodup_put (h : (context.map Prod.fst).Nodup) : ((put context name value).map Prod.fst).Nodup := by
  rw [put, List.map_append, List.nodup_append]
  refine ⟨(List.filter_sublist.map Prod.fst).nodup h, List.pairwise_singleton _ _, ?_⟩
  rintro k hk _ hname rfl
  obtain ⟨fact, hfact, rfl⟩ := List.mem_map.mp hk
  exact of_decide_eq_true (List.mem_filter.mp hfact).2 (List.mem_singleton.mp hname)

/-- They stay distinct however often it is done. -/
theorem nodup_foldl_put (h : (context.map Prod.fst).Nodup) :
    ((entries.foldl (fun context f => put context f.1 f.2) context).map Prod.fst).Nodup := by
  induction entries generalizing context with
  | nil => exact h
  | cons f rest ih => exact ih (nodup_put h)

/-- A context is read back in its order. -/
theorem texts?_contextJson (h : e.Fits) : texts? e.contextJson = some e.context := by
  have hread : Json.readAll (fun f => (Json.text? f.2).map fun s => (f.1, s))
      (e.context.map fun f => (f.1, Json.string f.2)) = some e.context := Json.readAll_map fun _ _ => rfl
  have hfold : e.context.foldl (fun context f => put context f.1 f.2) [] = e.context := foldl_put h
  have hjson : e.contextJson = .object (e.context.map fun f => (f.1, Json.string f.2)) := rfl
  rw [hjson, texts?, hread, Option.map_some, hfold]

/-- What is read as a context has distinct names. -/
theorem nodup_of_texts? (h : texts? j = some context) : (context.map Prod.fst).Nodup := by
  unfold texts? at h
  split at h
  · obtain ⟨entries, -, rfl⟩ := Option.map_eq_some_iff.mp h
    exact nodup_foldl_put List.nodup_nil
  · cases h

/-- The fields of the facts about an error. -/
def slots (e : ErrorInfo) : List (String × Option Json) :=
  [("code", some (.string e.code)), ("summary", some (.string e.summary)),
    ("fix_hint", some (Json.ofOption Json.string e.fixHint)), ("context", some e.contextJson)]

theorem toJson_eq (e : ErrorInfo) : e.toJson = .object (present e.slots) := rfl

theorem ofJson?_toJson (h : e.Fits) : ofJson? e.toJson = some e := by
  have hnamed : Named ["code", "summary", "fix_hint", "context"] e.slots := ⟨rfl, by decide⟩
  have hcode : (written e.slots).required "code" Json.text? = some e.code := hnamed.required rfl rfl
  have hsummary : (written e.slots).required "summary" Json.text? = some e.summary := hnamed.required rfl rfl
  have hhint : (written e.slots).nullable "fix_hint" Json.text? = some e.fixHint :=
    hnamed.nullable rfl rfl fun _ _ => rfl
  have hcontext : (written e.slots).defaulted "context" [] texts? = some e.context :=
    hnamed.defaulted rfl (texts?_contextJson h) []
  rw [ofJson?, toJson_eq, hnamed.record?]
  simp only [Option.bind_eq_bind, Option.bind_some, hcode, hsummary, hhint, hcontext]

theorem isPlain_toJson (e : ErrorInfo) : e.toJson.isPlain = true := by
  have hcontext : e.contextJson.isPlain = true := by
    refine Json.havePlain_iff.mpr fun field hfield => ?_
    obtain ⟨f, -, rfl⟩ := List.mem_map.mp hfield
    rfl
  rw [toJson_eq]
  refine Json.isPlain_present ?_
  simp only [slots, List.forall_mem_cons]
  exact ⟨Json.plain_some rfl, Json.plain_some rfl, Json.plain_some (Json.isPlain_ofOption fun _ _ => rfl),
    Json.plain_some hcontext, nofun⟩

theorem fits_of_ofJson? (h : ofJson? j = some e) : e.Fits := by
  simp only [ofJson?, Option.bind_eq_bind, Option.bind_eq_some_iff] at h
  obtain ⟨r, -, code, -, summary, -, fixHint, -, context, hcontext, h⟩ := h
  cases h
  unfold Json.Record.defaulted at hcontext
  split at hcontext
  · cases hcontext
    exact List.nodup_nil
  · exact nodup_of_texts? hcontext

/-- Their format, in which the order of the context does not count. -/
def format : Format ErrorInfo := { Format.ofWriter toJson ofJson? Fits with Same }

/-- They are read back up to that order. -/
theorem lawful_format : format.Lawful where
  equivalence := equivalence_same
  fits_of_same h hfits := (h.context.map Prod.fst).nodup_iff.mp hfits
  spelled_of_same _ _ := trivial
  spelled_iff := ⟨fun _ => ⟨_, rfl⟩, fun _ => trivial⟩
  isPlain_of_toJson? _ hj := Option.some.inj hj ▸ isPlain_toJson _
  ofJson?_of_toJson? h hj := Option.some.inj hj ▸ ofJson?_toJson h
  fits_of_ofJson? := fits_of_ofJson?
  spelled_of_ofJson? _ := trivial

end ErrorInfo

/-! ## Artifacts

  An artifact has a path and a kind, and no limits at all. -/

theorem ArtifactKind.ofJson?_toJson (k : ArtifactKind) : ofJson? k.toJson = some k := by cases k <;> rfl

namespace Artifact

/-- The fields of an artifact. -/
def slots (a : Artifact) : List (String × Option Json) :=
  [("path", some (.string a.path.text)), ("kind", some a.kind.toJson)]

theorem toJson_eq (a : Artifact) : a.toJson = .object (present a.slots) := rfl

theorem ofJson?_toJson (a : Artifact) : ofJson? a.toJson = some a := by
  have hnamed : Named ["path", "kind"] a.slots := ⟨rfl, by decide⟩
  have hpath : (written a.slots).required "path" Json.text? = some a.path.text := hnamed.required rfl rfl
  have hkind : (written a.slots).required "kind" ArtifactKind.ofJson? = some a.kind :=
    hnamed.required rfl a.kind.ofJson?_toJson
  rw [ofJson?, toJson_eq, hnamed.record?]
  simp only [Option.bind_eq_bind, Option.bind_some, hpath, hkind]

/-- Artifacts, at any path that is text and of any kind. -/
def format : Format Artifact := .ofWriter toJson ofJson? fun _ => True

/-- Artifacts are read back as they are. -/
theorem lawful_format : format.Lawful :=
  Format.lawful_ofWriter (fun _ => rfl) (fun _ => ofJson?_toJson _) fun _ => trivial

end Artifact

/-! ## Paths of the system

  Three of the types hold a path of the system, which is a sequence of bytes.  It is written if the bytes are those of
  a text, and the value is refused otherwise.  So each of these types has two formats: one with texts, proved above,
  and one with bytes that goes by way of it. -/

/-- A text is the text of its bytes. -/
theorem OsPath.text?_ofText (p : Path) : (OsPath.ofText p).text? = some p := by
  rw [OsPath.text?, OsPath.ofText, Utf8.decode?_encode]
  rfl

/-- A path of the system is spelled by one text at most. -/
theorem OsPath.ofText_of_text? {p : Path} {q : OsPath} (h : q.text? = some p) : OsPath.ofText p = q := by
  obtain ⟨octets⟩ := q
  obtain ⟨text, htext, rfl⟩ := Option.map_eq_some_iff.mp h
  exact congrArg OsPath.mk (Utf8.decode?_eq_some_iff.mp htext).symm

/-- A path has a text exactly if its bytes are those of one. -/
theorem OsPath.exists_text?_iff {q : OsPath} : (∃ p, q.text? = some p) ↔ q.IsText := by
  constructor
  · rintro ⟨p, hp⟩
    exact ⟨p.text, congrArg OsPath.octets (OsPath.ofText_of_text? hp).symm⟩
  · rintro ⟨text, htext⟩
    exact ⟨⟨text⟩, Option.map_eq_some_iff.mpr ⟨text, Utf8.decode?_eq_some_iff.mpr htext, rfl⟩⟩

/-- Places whose file is a path of the system, by way of those whose file is a text. -/
def OsLocation.spelling : Spelling SourceLocation OsLocation where
  ofText := ofText
  text? := text?
  text?_ofText l := by
    rw [text?, ofText, OsPath.text?_ofText]
    rfl
  ofText_of_text? {q l} h := by
    obtain ⟨file, hfile, rfl⟩ := Option.map_eq_some_iff.mp h
    rw [ofText, OsPath.ofText_of_text? hfile]

namespace OsDiagnostic

/-- Diagnostics, likewise by their place. -/
def spelling : Spelling Diagnostic OsDiagnostic where
  ofText := ofText
  text? := text?
  text?_ofText d := by
    obtain ⟨severity, kind, message, _ | l, stream⟩ := d
    · rfl
    · have hplace : (OsLocation.ofText l).text? = some l := OsLocation.spelling.text?_ofText l
      rw [ofText, text?]
      dsimp only [Option.map_some]
      rw [hplace]
      rfl
  ofText_of_text? {q d} h := by
    obtain ⟨severity, kind, message, _ | l, stream⟩ := q
    · cases h
      rfl
    · obtain ⟨place, hplace, rfl⟩ := Option.map_eq_some_iff.mp h
      have hfile : OsLocation.ofText place = l := OsLocation.spelling.ofText_of_text? hplace
      rw [ofText]
      dsimp only [Option.map_some]
      rw [hfile]

/-- Diagnostics about a line of a file at any path. -/
def format : Format OsDiagnostic := Diagnostic.format.spelledBy spelling

/-- A diagnostic is written exactly if its file is a text. -/
theorem spelled_iff {d : OsDiagnostic} : format.Spelled d ↔ ∀ l ∈ d.location, l.file.IsText := by
  obtain ⟨severity, kind, message, _ | l, stream⟩ := d
  · exact ⟨fun _ => nofun, fun _ => ⟨_, rfl, trivial⟩⟩
  · constructor
    · rintro ⟨a, ha, -⟩ _ ⟨⟩
      obtain ⟨place, hplace, -⟩ := Option.map_eq_some_iff.mp ha
      obtain ⟨file, hfile, -⟩ := Option.map_eq_some_iff.mp hplace
      exact OsPath.exists_text?_iff.mp ⟨file, hfile⟩
    · intro h
      obtain ⟨file, hfile⟩ := OsPath.exists_text?_iff.mpr (h l rfl)
      exact ⟨_, Option.map_eq_some_iff.mpr ⟨_, Option.map_eq_some_iff.mpr ⟨file, hfile, rfl⟩, rfl⟩, trivial⟩

end OsDiagnostic

namespace OsCommand

/-- Commands, by the directory they run in. -/
def spelling : Spelling Command OsCommand where
  ofText := ofText
  text? := text?
  text?_ofText c := by
    rw [text?, ofText, OsPath.text?_ofText]
    rfl
  ofText_of_text? {q c} h := by
    obtain ⟨cwd, hcwd, rfl⟩ := Option.map_eq_some_iff.mp h
    rw [ofText, OsPath.ofText_of_text? hcwd]

/-- Commands in any directory. -/
def format : Format OsCommand := Command.format.spelledBy spelling

/-- A command is written exactly if its directory is a text. -/
theorem spelled_iff {c : OsCommand} : format.Spelled c ↔ c.cwd.IsText := by
  rw [← OsPath.exists_text?_iff]
  constructor
  · rintro ⟨a, ha, -⟩
    obtain ⟨cwd, hcwd, -⟩ := Option.map_eq_some_iff.mp ha
    exact ⟨cwd, hcwd⟩
  · rintro ⟨cwd, hcwd⟩
    exact ⟨_, Option.map_eq_some_iff.mpr ⟨cwd, hcwd, rfl⟩, trivial⟩

end OsCommand

namespace OsArtifact

/-- Artifacts, by their path. -/
def spelling : Spelling Artifact OsArtifact where
  ofText := ofText
  text? := text?
  text?_ofText a := by
    rw [text?, ofText, OsPath.text?_ofText]
    rfl
  ofText_of_text? {q a} h := by
    obtain ⟨path, hpath, rfl⟩ := Option.map_eq_some_iff.mp h
    rw [ofText, OsPath.ofText_of_text? hpath]

/-- Artifacts at any path. -/
def format : Format OsArtifact := Artifact.format.spelledBy spelling

/-- An artifact is written exactly if its path is a text. -/
theorem spelled_iff {a : OsArtifact} : format.Spelled a ↔ a.path.IsText := by
  rw [← OsPath.exists_text?_iff]
  constructor
  · rintro ⟨_, ha, -⟩
    obtain ⟨path, hpath, -⟩ := Option.map_eq_some_iff.mp ha
    exact ⟨path, hpath⟩
  · rintro ⟨path, hpath⟩
    exact ⟨_, Option.map_eq_some_iff.mpr ⟨path, hpath, rfl⟩, trivial⟩

end OsArtifact

/-! ## All of them

  All nine formats together, and values of each kind that are written and read back. -/

namespace Format

/-- Values and texts go back and forth in every format.  Of the values with a path in them, just those have encodings
    whose path is text. -/
structure ReadBack : Prop where
  /-- Each type is written and read back. -/
  diagnostic : OsDiagnostic.format.ReadsBack
  line : OutputLine.format.ReadsBack
  exit : ExitOutcome.format.ReadsBack
  failure : StageFailure.format.ReadsBack
  command : OsCommand.format.ReadsBack
  template : CommandTemplate.format.ReadsBack
  reason : CancelReason.format.ReadsBack
  info : ErrorInfo.format.ReadsBack
  artifact : OsArtifact.format.ReadsBack
  /-- A value is written unless a path in it is no text. -/
  spelledDiagnostic : ∀ d, OsDiagnostic.format.Spelled d ↔ ∀ l ∈ d.location, l.file.IsText
  spelledCommand : ∀ c, OsCommand.format.Spelled c ↔ c.cwd.IsText
  spelledArtifact : ∀ a, OsArtifact.format.Spelled a ↔ a.path.IsText

/-- **Values come back from their encodings, and texts that are decoded are stable**, in every format. -/
theorem values_read_back : ReadBack where
  diagnostic := (Diagnostic.lawful_format.spelledBy OsDiagnostic.spelling).readsBack
  line := OutputLine.lawful_format.readsBack
  exit := ExitOutcome.lawful_format.readsBack
  failure := StageFailure.lawful_format.readsBack
  command := (Command.lawful_format.spelledBy OsCommand.spelling).readsBack
  template := CommandTemplate.lawful_format.readsBack
  reason := CancelReason.lawful_format.readsBack
  info := ErrorInfo.lawful_format.readsBack
  artifact := (Artifact.lawful_format.spelledBy OsArtifact.spelling).readsBack
  spelledDiagnostic _ := OsDiagnostic.spelled_iff
  spelledCommand _ := OsCommand.spelled_iff
  spelledArtifact _ := OsArtifact.spelled_iff

/-- A command with unusual texts and the longest deadline, the same one in a directory whose name is no text, and facts
    about an error in another order. -/
theorem values_read_back_unusual :
    (∃ c : OsCommand, c.args = ["\"\\\n\x00", "", "€𝄞"] ∧ c.env = [("LANG", "")] ∧
      c.timeout = some ⟨Nat.pow 2 64 * Span.perSecond - 1⟩ ∧
      (∃ j, OsCommand.format.toJson? c = some j ∧ OsCommand.format.decode? j.line = some c ∧
        OsCommand.format.decode? j.compact = some c) ∧
      ∀ text, ¬ OsCommand.format.Encodes text { c with cwd := ⟨[0xFF]⟩ }) ∧
    ∃ e k d : ErrorInfo, e.context = [("step", "1"), ("stage", "")] ∧ k.context = [("stage", ""), ("step", "1")] ∧
      ErrorInfo.format.decode? k.toJson.pretty = some d ∧ e.Same d := by
  -- the longest deadline, characters that are escaped, and a directory that is no text
  have hall := values_read_back
  let c : OsCommand :=
    { program := "python3"
      args := ["\"\\\n\x00", "", "€𝄞"]
      cwd := .ofText ⟨"/w"⟩
      env := [("LANG", "")]
      timeout := some ⟨Nat.pow 2 64 * Span.perSecond - 1⟩ }
  have hseconds : (⟨Nat.pow 2 64 * Span.perSecond - 1⟩ : Span).wholeSeconds < Nat.pow 2 64 := by decide
  have hc : OsCommand.format.Fits c := by
    intro a ha d hd
    obtain ⟨cwd, -, rfl⟩ := Option.map_eq_some_iff.mp ha
    cases hd
    exact hseconds
  obtain ⟨j, hj, hline, hcompact, -⟩ := hall.command.encoded c hc ((hall.spelledCommand c).mpr ⟨_, rfl⟩) c rfl
  have hread : ∀ text, OsCommand.format.Encodes text c → OsCommand.format.decode? text = some c := by
    intro text hencodes
    obtain ⟨d, hd, hsame⟩ := hall.command.decoded c hc text hencodes
    exact hd.trans (congrArg some (Eq.symm hsame))
  have hstray : ¬ OsCommand.format.Spelled { c with cwd := ⟨[0xFF]⟩ } := by
    rw [hall.spelledCommand]
    rintro ⟨text, htext⟩
    have hnone : Utf8.decode? [0xFF] = none := by decide
    rw [Utf8.decode?_eq_some_iff.mpr htext] at hnone
    cases hnone
  -- the same facts in another order of their context
  let e : ErrorInfo := { code := "E", summary := "", context := [("step", "1"), ("stage", "")] }
  let k : ErrorInfo := { e with context := [("stage", ""), ("step", "1")] }
  have he : e.Fits := show ["step", "stage"].Nodup by decide
  have hswap : e.Same k := ⟨rfl, rfl, rfl, .swap _ _ _⟩
  obtain ⟨i, hi, -, -, hpretty⟩ := hall.info.encoded e he trivial k hswap
  obtain rfl : k.toJson = i := Option.some.inj hi
  obtain ⟨d, hd, hsame⟩ := hall.info.decoded e he _ hpretty
  exact ⟨⟨c, rfl, rfl, rfl, ⟨j, hj, hread _ hline, hread _ hcompact⟩, hall.command.refused _ hstray⟩,
    e, k, d, rfl, rfl, hd, hsame⟩

end Format

end Wheelwright
