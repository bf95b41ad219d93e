/-
  Formats — how the values of a type go to texts and come back.

  **Specification** — a text encodes a value if it writes the value's JSON, in any layout, the entries of a map in any
  order.  Every value has encodings, unless a path in it is no text, and whatever encodes a value is decoded to it; so a
  value that was decoded from any text is decoded again from each of its encodings, and it has the same encodings then
  (`Format.ReadsBack`).

  **Program** — a writer takes values to JSON, or refuses them, and a reader takes JSON to values; texts are left to the
  layouts and to the parser.

  **The crux (`Format.Lawful`)** — a few facts about a writer and its reader carry the rest: what is written is plain, it
  is read as the value, and what is read is a value that the type can hold and that is written.  They carry over from
  values whose paths are texts to those with any paths (`Lawful.spelledBy`), so a reader and a writer are looked at once.
-/
import Wheelwright.Proofs.Json.RoundTrip

namespace Wheelwright

/-- How the values of a type are written and read. -/
structure Format (α : Type) where
  /-- The JSON of a value; none if a path in it is no text. -/
  toJson? : α → Option Json
  ofJson? : Json → Option α
  /-- The type can hold the value: a number is as wide as its field at most, and a map has no name twice. -/
  Fits : α → Prop
  /-- The paths in the value are texts. -/
  Spelled : α → Prop := fun _ => True
  /-- The values are equal: the entries of a map have no order. -/
  Same : α → α → Prop := Eq

/-- The values of `β` have paths of the system where those of `α` have texts.  Each value of `α` is one of `β`, and a
    value of `β` whose paths are texts is one of `α`, and only that one. -/
structure Spelling (α β : Type) where
  /-- What a text is among the values. -/
  ofText : α → β
  /-- The text of a value; none if it is none. -/
  text? : β → Option α
  /-- Texts come back as they are. -/
  text?_ofText : ∀ a, text? (ofText a) = some a
  /-- So do the values that are texts. -/
  ofText_of_text? : ∀ {b a}, text? b = some a → ofText a = b

namespace Format

variable {α β : Type} {f : Format α} {a b : α} {text : String}

/-- The format of values without paths, or with paths that are texts: the writer refuses none. -/
def ofWriter (toJson : α → Json) (ofJson? : Json → Option α) (Fits : α → Prop) : Format α :=
  { toJson? := fun a => some (toJson a), ofJson?, Fits }

/-- The format of values with paths of the system: those whose paths are texts are written like these, all others are
    refused; and what is read has texts for paths. -/
def spelledBy (f : Format α) (s : Spelling α β) : Format β where
  toJson? b := (s.text? b).bind f.toJson?
  ofJson? j := (f.ofJson? j).map s.ofText
  Fits b := ∀ a ∈ s.text? b, f.Fits a
  Spelled b := ∃ a ∈ s.text? b, f.Spelled a

/-- The value of a text. -/
def decode? (f : Format α) (text : String) : Option α := (Json.parse? text).bind f.ofJson?

/-- The text writes the value, the entries of a map in any order. -/
def Encodes (f : Format α) (text : String) (a : α) : Prop :=
  ∃ b j, f.Same a b ∧ f.toJson? b = some j ∧ j.WrittenBy text

/-- Values and texts go back and forth. -/
structure ReadsBack (f : Format α) : Prop where
  /-- A value is encoded in every layout, if its paths are texts. -/
  encoded : ∀ a, f.Fits a → f.Spelled a → ∀ b, f.Same a b →
    ∃ j, f.toJson? b = some j ∧ f.Encodes j.line a ∧ f.Encodes j.compact a ∧ f.Encodes j.pretty a
  /-- Otherwise it has no encoding. -/
  refused : ∀ a, ¬ f.Spelled a → ∀ text, ¬ f.Encodes text a
  /-- What encodes a value is decoded to it. -/
  decoded : ∀ a, f.Fits a → ∀ text, f.Encodes text a → ∃ b, f.decode? text = some b ∧ f.Same a b
  /-- What is decoded can be encoded. -/
  fits : ∀ text a, f.decode? text = some a → f.Fits a ∧ f.Spelled a
  /-- What is decoded and encoded again is decoded to the same value, with the same encodings. -/
  stable : ∀ text a, f.decode? text = some a → ∀ again, f.Encodes again a →
    ∃ b, f.decode? again = some b ∧ f.Same a b ∧ ∀ more, f.Encodes more b ↔ f.Encodes more a

/-- What is asked of a writer and its reader. -/
structure Lawful (f : Format α) : Prop where
  /-- What counts as equal is an equivalence that respects what fits and what is spelled. -/
  equivalence : Equivalence f.Same
  fits_of_same : ∀ {a b}, f.Same a b → f.Fits a → f.Fits b
  spelled_of_same : ∀ {a b}, f.Same a b → f.Spelled a → f.Spelled b
  /-- The writer refuses just those values of which a path is no text. -/
  spelled_iff : ∀ {a}, f.Spelled a ↔ ∃ j, f.toJson? a = some j
  /-- What is written can be put on one line. -/
  isPlain_of_toJson? : ∀ {a j}, f.Fits a → f.toJson? a = some j → j.isPlain = true
  /-- What is written is read back. -/
  ofJson?_of_toJson? : ∀ {a j}, f.Fits a → f.toJson? a = some j → f.ofJson? j = some a
  /-- What is read fits and is spelled. -/
  fits_of_ofJson? : ∀ {j a}, f.ofJson? j = some a → f.Fits a
  spelled_of_ofJson? : ∀ {j a}, f.ofJson? j = some a → f.Spelled a

/-- A format that refuses no value, of values that are equal only if they are the same. -/
theorem lawful_ofWriter {toJson : α → Json} {ofJson? : Json → Option α} {Fits : α → Prop}
    (hplain : ∀ {a}, Fits a → (toJson a).isPlain = true) (hread : ∀ {a}, Fits a → ofJson? (toJson a) = some a)
    (hfits : ∀ {j a}, ofJson? j = some a → Fits a) : (ofWriter toJson ofJson? Fits).Lawful where
  equivalence := ⟨Eq.refl, Eq.symm, Eq.trans⟩
  fits_of_same h ha := (h : _ = _) ▸ ha
  spelled_of_same _ _ := trivial
  spelled_iff := ⟨fun _ => ⟨_, rfl⟩, fun _ => trivial⟩
  isPlain_of_toJson? ha hj := Option.some.inj hj ▸ hplain ha
  ofJson?_of_toJson? ha hj := Option.some.inj hj ▸ hread ha
  fits_of_ofJson? := hfits
  spelled_of_ofJson? _ := trivial

namespace Lawful

/-- **Values with paths of the system are written and read as lawfully as those with texts.** -/
theorem spelledBy (h : f.Lawful) (s : Spelling α β) : (f.spelledBy s).Lawful where
  equivalence := ⟨Eq.refl, Eq.symm, Eq.trans⟩
  fits_of_same hsame hfits := (hsame : _ = _) ▸ hfits
  spelled_of_same hsame hspelled := (hsame : _ = _) ▸ hspelled
  spelled_iff {b} := by
    constructor
    · rintro ⟨a, ha, hspelled⟩
      obtain ⟨j, hj⟩ := h.spelled_iff.mp hspelled
      exact ⟨j, Option.bind_eq_some_iff.mpr ⟨a, ha, hj⟩⟩
    · rintro ⟨j, hj⟩
      obtain ⟨a, ha, hj⟩ := Option.bind_eq_some_iff.mp hj
      exact ⟨a, ha, h.spelled_iff.mpr ⟨j, hj⟩⟩
  isPlain_of_toJson? hfits hj := by
    obtain ⟨a, ha, hj⟩ := Option.bind_eq_some_iff.mp hj
    exact h.isPlain_of_toJson? (hfits a ha) hj
  ofJson?_of_toJson? hfits hj := by
    obtain ⟨a, ha, hj⟩ := Option.bind_eq_some_iff.mp hj
    exact Option.map_eq_some_iff.mpr ⟨a, h.ofJson?_of_toJson? (hfits a ha) hj, s.ofText_of_text? ha⟩
  fits_of_ofJson? hread := by
    obtain ⟨a, ha, rfl⟩ := Option.map_eq_some_iff.mp hread
    intro a' ha'
    obtain rfl : a = a' := Option.some.inj ((s.text?_ofText a).symm.trans ha')
    exact h.fits_of_ofJson? ha
  spelled_of_ofJson? hread := by
    obtain ⟨a, ha, rfl⟩ := Option.map_eq_some_iff.mp hread
    exact ⟨a, s.text?_ofText a, h.spelled_of_ofJson? ha⟩

/-- What was encoded is decoded, and to an equal value. -/
theorem exists_decode? (h : f.Lawful) (hfits : f.Fits a) (hencodes : f.Encodes text a) :
    ∃ b, f.decode? text = some b ∧ f.Same a b := by
  obtain ⟨b, j, hsame, hj, hwritten⟩ := hencodes
  refine ⟨b, ?_, hsame⟩
  rw [decode?, Json.parse?_iff.mpr hwritten, Option.bind_some]
  exact h.ofJson?_of_toJson? (h.fits_of_same hsame hfits) hj

/-- What is decoded fits and is spelled. -/
theorem fits_of_decode? (h : f.Lawful) (hdecode : f.decode? text = some a) : f.Fits a ∧ f.Spelled a := by
  obtain ⟨j, -, hj⟩ := Option.bind_eq_some_iff.mp hdecode
  exact ⟨h.fits_of_ofJson? hj, h.spelled_of_ofJson? hj⟩

/-- Equal values have the same encodings. -/
theorem encodes_iff_of_same (h : f.Lawful) (hsame : f.Same a b) : f.Encodes text b ↔ f.Encodes text a := by
  constructor
  · rintro ⟨c, j, hc, hwritten⟩
    exact ⟨c, j, h.equivalence.trans hsame hc, hwritten⟩
  · rintro ⟨c, j, hc, hwritten⟩
    exact ⟨c, j, h.equivalence.trans (h.equivalence.symm hsame) hc, hwritten⟩

/-- **Values and texts of a lawful format go back and forth.** -/
theorem readsBack (h : f.Lawful) : f.ReadsBack where
  encoded a hfits hspelled b hsame := by
    -- a layout is found for the encoding of the value itself
    obtain ⟨j, hj⟩ := h.spelled_iff.mp (h.spelled_of_same hsame hspelled)
    have hplain := h.isPlain_of_toJson? (h.fits_of_same hsame hfits) hj
    exact ⟨j, hj, ⟨b, j, hsame, hj, Json.writtenBy_compactOnto false hplain⟩,
      ⟨b, j, hsame, hj, Json.writtenBy_compactOnto true hplain⟩, ⟨b, j, hsame, hj, Json.writtenBy_pretty hplain⟩⟩
  refused a hunspelled text := by
    rintro ⟨b, j, hsame, hj, -⟩
    exact hunspelled (h.spelled_of_same (h.equivalence.symm hsame) (h.spelled_iff.mpr ⟨j, hj⟩))
  decoded _ hfits _ hencodes := h.exists_decode? hfits hencodes
  fits _ _ hdecode := h.fits_of_decode? hdecode
  stable text a hdecode again hagain := by
    obtain ⟨b, hb, hsame⟩ := h.exists_decode? (h.fits_of_decode? hdecode).1 hagain
    exact ⟨b, hb, hsame, fun more => h.encodes_iff_of_same hsame⟩

end Lawful

end Format

end Wheelwright
