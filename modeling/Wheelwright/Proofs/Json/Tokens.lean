/-
  JSON tokens — what the lexer reads is what a text spells.

  **Specification** — a text is spelled by spaces and tokens, one after the other (`SpellsTokens`): marks, the three
  words, numerals, and texts in quotation marks made of characters, escapes by a letter and escapes by four digits.

  **Program** — the lexer goes on with a word as long as it can.

  **The crux** — soundness is kept by each character: what has been read is the spelling of the tokens so far, and then
  the beginning of one more (`Lexed`).  The other way round, `truefalse` spells two tokens and the lexer reads none, so
  the tokens must have no two words in a row (`Apart`); no value needs that.
-/
import Wheelwright.Proofs.Json.Numerals

namespace Wheelwright.Json

variable {a b cs rest word hs : List Char} {c : Char} {t : Token} {ts us done : List Token} {u : TextUnit}
  {units read : List TextUnit} {v : Nat} {mode next : Mode}

/-! ## The grammar

  The lexical grammar: what a text of tokens may look like, with blanks between them.  It says nothing of where one
  token ends if the next one could go on with it. -/

/-- The number that hexadecimal digits write. -/
inductive SpellsHex : List Char → Nat → Prop
  /-- Nothing stands for zero, and each digit is one more place. -/
  | nil : SpellsHex [] 0
  | concat {hs : List Char} {c : Char} {v d : Nat} (h : SpellsHex hs v) (hd : hexDigit? c = some d) :
      SpellsHex (hs ++ [c]) (v * 16 + d)

/-- A part of a text: a character that needs no escape, or an escape. -/
inductive SpellsUnit : List Char → TextUnit → Prop
  /-- A character by itself, if it is no control, quote or backslash. -/
  | char {c : Char} (hquote : c ≠ '"') (hescape : c ≠ '\\') (hcontrol : 32 ≤ c.toNat) : SpellsUnit [c] (.char c)
  /-- An escape by a letter. -/
  | letter {c e : Char} (h : escapeLetter? c = some e) : SpellsUnit ['\\', c] (.char e)
  /-- An escape by the four digits of a code. -/
  | code {hs : List Char} {v : Nat} (h : SpellsHex hs v) (hfour : hs.length = 4) :
      SpellsUnit ('\\' :: 'u' :: hs) (.code v)

/-- Units one after another. -/
inductive SpellsUnits : List Char → List TextUnit → Prop
  | nil : SpellsUnits [] []
  | cons {a cs : List Char} {u : TextUnit} {units : List TextUnit} (h : SpellsUnit a u) (hrest : SpellsUnits cs units) :
      SpellsUnits (a ++ cs) (u :: units)

/-- A token. -/
inductive SpellsToken : List Char → Token → Prop
  | openBrace : SpellsToken ['{'] .openBrace
  | closeBrace : SpellsToken ['}'] .closeBrace
  | openBracket : SpellsToken ['['] .openBracket
  | closeBracket : SpellsToken [']'] .closeBracket
  | colon : SpellsToken [':'] .colon
  | comma : SpellsToken [','] .comma
  | null : SpellsToken "null".toList .null
  | true : SpellsToken "true".toList (.bool true)
  | false : SpellsToken "false".toList (.bool false)
  | number {cs : List Char} {t : NumeralText} (h : NumeralText.Spells cs t) : SpellsToken cs (.number t.value?)
  | text {cs : List Char} {units : List TextUnit} (h : SpellsUnits cs units) :
      SpellsToken ('"' :: (cs ++ ['"'])) (.text ((assemble units).map String.ofList))

/-- A space, a line feed, a tab or a carriage return. -/
def IsSpace (c : Char) : Prop := c = ' ' ∨ c = '\n' ∨ c = '\t' ∨ c = '\r'

/-- Tokens with spaces before, between and after them. -/
inductive SpellsTokens : List Char → List Token → Prop
  | nil : SpellsTokens [] []
  /-- Space may stand anywhere between tokens. -/
  | space {c : Char} {cs : List Char} {ts : List Token} (hc : IsSpace c) (h : SpellsTokens cs ts) :
      SpellsTokens (c :: cs) ts
  /-- A token, and what is behind it. -/
  | token {a cs : List Char} {t : Token} {ts : List Token} (h : SpellsToken a t) (hrest : SpellsTokens cs ts) :
      SpellsTokens (a ++ cs) (t :: ts)

/-- Texts behind each other spell their tokens behind each other. -/
theorem SpellsTokens.append (ha : SpellsTokens a ts) (hb : SpellsTokens b us) : SpellsTokens (a ++ b) (ts ++ us) := by
  induction ha with
  | nil => exact hb
  | space hc _ ih => exact .space hc ih
  | token h _ ih =>
    rw [List.append_assoc]
    exact .token h ih

/-- A text that spells a token spells it alone. -/
theorem spellsTokens_one (h : SpellsToken a t) : SpellsTokens a [t] := by
  have hone : SpellsTokens (a ++ []) [t] := .token h .nil
  rwa [List.append_nil] at hone

/-- A token may be put at the end. -/
theorem SpellsTokens.concat (ha : SpellsTokens a ts) (hb : SpellsToken b t) : SpellsTokens (a ++ b) (ts ++ [t]) :=
  ha.append (spellsTokens_one hb)

/-- Units behind each other are spelled behind each other. -/
theorem SpellsUnits.append {us : List TextUnit} (ha : SpellsUnits a units) (hb : SpellsUnits b us) :
    SpellsUnits (a ++ b) (units ++ us) := by
  induction ha with
  | nil => exact hb
  | cons h _ ih =>
    rw [List.append_assoc]
    exact .cons h ih

/-- A unit is spelled alone. -/
theorem spellsUnits_one (h : SpellsUnit a u) : SpellsUnits a [u] := by
  have hone : SpellsUnits (a ++ []) [u] := .cons h .nil
  rwa [List.append_nil] at hone

/-- A unit may be put at the end. -/
theorem SpellsUnits.concat (ha : SpellsUnits a units) (hb : SpellsUnit b u) : SpellsUnits (a ++ b) (units ++ [u]) :=
  ha.append (spellsUnits_one hb)

/-! ## Words

  Words are the tokens without a mark of their own at the end: the three literals and the numerals. -/

/-- A literal or a numeral. -/
def Token.isWord : Token → Bool
  | .null | .bool _ | .number _ => true
  | _ => false

/-- A word is one of the three or a number. -/
theorem wordToken?_iff : wordToken? cs = some t ↔ SpellsToken cs t ∧ t.isWord = true := by
  constructor
  · intro h
    rw [wordToken?] at h
    -- one of the three words, or a number
    by_cases htrue : cs = "true".toList
    · rw [if_pos htrue] at h
      cases h
      exact ⟨htrue ▸ .true, rfl⟩
    rw [if_neg htrue] at h
    by_cases hfalse : cs = "false".toList
    · rw [if_pos hfalse] at h
      cases h
      exact ⟨hfalse ▸ .false, rfl⟩
    rw [if_neg hfalse] at h
    by_cases hnull : cs = "null".toList
    · rw [if_pos hnull] at h
      cases h
      exact ⟨hnull ▸ .null, rfl⟩
    rw [if_neg hnull] at h
    obtain ⟨x, hx, rfl⟩ := Option.map_eq_some_iff.mp h
    exact ⟨.number (NumeralText.parse?_iff.mp hx), rfl⟩
  · rintro ⟨h, hword⟩
    cases h with
    | null | true | false => rfl
    | number h =>
      have hparse := NumeralText.parse?_iff.mpr h
      rw [wordToken?, if_neg, if_neg, if_neg, hparse]
      · rfl
      all_goals
        rintro rfl
        cases hparse
    | _ => cases hword

/-! ## What is read is spelled

  After each character the lexer has some whole tokens and is in the middle of one more.  What it has read so far is a
  spelling of the one and the beginning of the other. -/

/-- The characters since the last whole token. -/
inductive Midway : Mode → List Char → Prop
  /-- Nothing is begun. -/
  | between : Midway .between []
  /-- A word is begun. -/
  | word (read : List Char) : Midway (.word read) read.reverse
  /-- A text is begun. -/
  | text {cs : List Char} {read : List TextUnit} (h : SpellsUnits cs read.reverse) : Midway (.text read) ('"' :: cs)
  /-- An escape in a text is begun. -/
  | escape {cs : List Char} {read : List TextUnit} (h : SpellsUnits cs read.reverse) :
      Midway (.escape read) ('"' :: (cs ++ ['\\']))
  /-- A code is begun, of which digits are still to come. -/
  | hex {cs hs : List Char} {read : List TextUnit} {v : Nat} (h : SpellsUnits cs read.reverse) (hhex : SpellsHex hs v)
      (hfew : hs.length < 4) : Midway (.hex read hs.length v) ('"' :: (cs ++ '\\' :: 'u' :: hs))

/-- The characters spell the tokens that are done, and then what has begun. -/
def Lexed (cs : List Char) (done : List Token) (mode : Mode) : Prop :=
  ∃ a b, cs = a ++ b ∧ SpellsTokens a done.reverse ∧ Midway mode b

/-- Between tokens all that was read is spelled. -/
theorem lexed_between (h : SpellsTokens a done.reverse) : Lexed a done .between :=
  ⟨a, [], (List.append_nil a).symm, h, .between⟩

/-- What a character between tokens is. -/
inductive Begins : Char → List Token → Mode → Prop
  /-- Space, a mark, a quote or the start of a word. -/
  | space {c : Char} (h : IsSpace c) : Begins c [] .between
  | mark {c : Char} {t : Token} (h : SpellsToken [c] t) : Begins c [t] .between
  | text : Begins '"' [] (.text [])
  | word {c : Char} (h : isWordPart c = true) : Begins c [] (.word [c])

theorem begins (h : begin c = some (ts, next)) : Begins c ts next := by
  -- in the order in which the lexer asks
  unfold begin at h
  split at h
  · rename_i hc
    cases h
    refine .space ?_
    rw [IsSpace]
    simpa only [Bool.or_eq_true, decide_eq_true_eq, or_assoc] using hc
  split at h
  · rename_i hc
    cases h
    exact hc ▸ .mark .openBrace
  split at h
  · rename_i hc
    cases h
    exact hc ▸ .mark .closeBrace
  split at h
  · rename_i hc
    cases h
    exact hc ▸ .mark .openBracket
  split at h
  · rename_i hc
    cases h
    exact hc ▸ .mark .closeBracket
  split at h
  · rename_i hc
    cases h
    exact hc ▸ .mark .colon
  split at h
  · rename_i hc
    cases h
    exact hc ▸ .mark .comma
  split at h
  · rename_i hc
    cases h
    exact hc ▸ .text
  split at h
  · rename_i hc
    cases h
    exact .word hc
  · cases h

/-- A character that begins something leaves the lexer in the middle of it. -/
theorem lexed_begin (h : begin c = some (ts, next)) (ha : SpellsTokens a done.reverse) :
    Lexed (a ++ [c]) (ts.reverse ++ done) next := by
  -- one case for each character that a token may begin with
  cases begins h with
  | space hc =>
    have hone : SpellsTokens [c] [] := .space hc .nil
    have happend := ha.append hone
    rw [List.append_nil] at happend
    exact lexed_between happend
  | mark hc =>
    refine lexed_between ?_
    rw [List.reverse_append, List.reverse_reverse]
    exact ha.concat hc
  | text => exact ⟨a, ['"'], rfl, ha, .text .nil⟩
  | word hc => exact ⟨a, [c], rfl, ha, .word [c]⟩

/-- A character behind a word: more of the word, or the word ends before it. -/
theorem lexed_word (h : lexStep (.word word) c = some (ts, next)) (ha : SpellsTokens a done.reverse) :
    Lexed (a ++ (word.reverse ++ [c])) (ts.reverse ++ done) next := by
  rw [lexStep] at h
  -- the word goes on, or it ends here and the character begins what follows
  split at h
  · cases h
    exact ⟨a, _, congrArg (a ++ ·) List.reverse_cons.symm, ha, .word (c :: word)⟩
  · obtain ⟨token, htoken, h⟩ := Option.bind_eq_some_iff.mp h
    obtain ⟨⟨more, after⟩, hbegin, h⟩ := Option.bind_eq_some_iff.mp h
    cases h
    have hword : SpellsTokens (a ++ word.reverse) (token :: done).reverse := by
      rw [List.reverse_cons]
      exact ha.concat (wordToken?_iff.mp htoken).1
    rw [← List.append_assoc, List.reverse_cons, List.append_assoc more.reverse]
    exact lexed_begin hbegin hword

/-- A character in a text: the end of the text, the start of an escape, or itself. -/
theorem lexed_text (h : lexStep (.text read) c = some (ts, next)) (ha : SpellsTokens a done.reverse)
    (hunits : SpellsUnits cs read.reverse) : Lexed (a ++ ('"' :: cs ++ [c])) (ts.reverse ++ done) next := by
  -- the quote ends the text, the backslash begins an escape, any other character is one more
  rw [lexStep] at h
  split at h
  · rename_i hc
    cases h
    subst hc
    refine lexed_between ?_
    rw [List.reverse_append, List.reverse_reverse]
    exact ha.concat (.text hunits)
  split at h
  · rename_i hc
    cases h
    subst hc
    exact ⟨a, _, rfl, ha, .escape hunits⟩
  split at h
  · cases h
  · rename_i hquote hescape hcontrol
    cases h
    refine ⟨a, _, rfl, ha, .text ?_⟩
    rw [List.reverse_cons]
    exact hunits.concat (.char hquote hescape (Nat.not_lt.mp hcontrol))

/-- A character behind a backslash. -/
theorem lexed_escape (h : lexStep (.escape read) c = some (ts, next)) (ha : SpellsTokens a done.reverse)
    (hunits : SpellsUnits cs read.reverse) : Lexed (a ++ ('"' :: (cs ++ ['\\']) ++ [c])) (ts.reverse ++ done) next := by
  rw [lexStep] at h
  rw [List.cons_append, List.append_assoc]
  -- a code in hexadecimal digits is opened, or a letter stands for its character
  split at h
  · rename_i hc
    cases h
    subst hc
    have hhex : Midway (.hex read ([] : List Char).length 0) _ := .hex hunits .nil (by decide)
    exact ⟨a, _, rfl, ha, hhex⟩
  · obtain ⟨e, he, h⟩ := Option.map_eq_some_iff.mp h
    cases h
    refine ⟨a, _, rfl, ha, .text ?_⟩
    rw [List.reverse_cons]
    exact hunits.concat (.letter he)

/-- A digit of an escape by number, the last of four or not. -/
theorem lexed_hex (h : lexStep (.hex read hs.length v) c = some (ts, next)) (ha : SpellsTokens a done.reverse)
    (hunits : SpellsUnits cs read.reverse) (hhex : SpellsHex hs v) (hfew : hs.length < 4) :
    Lexed (a ++ ('"' :: (cs ++ '\\' :: 'u' :: hs) ++ [c])) (ts.reverse ++ done) next := by
  rw [lexStep] at h
  -- the fourth digit ends the code
  obtain ⟨d, hd, h⟩ := Option.map_eq_some_iff.mp h
  have hmore := hhex.concat hd
  have hlength : (hs ++ [c]).length = hs.length + 1 := List.length_append
  rw [List.cons_append, List.append_assoc]
  split at h
  · rename_i hthree
    cases h
    have hfour : (hs ++ [c]).length = 4 := by omega
    refine ⟨a, _, rfl, ha, .text ?_⟩
    rw [List.reverse_cons]
    exact hunits.concat (.code hmore hfour)
  · rename_i hthree
    cases h
    refine ⟨a, _, rfl, ha, ?_⟩
    rw [← hlength]
    exact .hex hunits hmore (by omega)

/-- **What one more character keeps.** -/
theorem lexed_step (h : lexStep mode c = some (ts, next)) (hcs : Lexed cs done mode) :
    Lexed (cs ++ [c]) (ts.reverse ++ done) next := by
  obtain ⟨a, b, rfl, ha, hb⟩ := hcs
  rw [List.append_assoc]
  cases hb with
  | between => exact lexed_begin h ha
  | word read => exact lexed_word h ha
  | text hunits => exact lexed_text h ha hunits
  | escape hunits => exact lexed_escape h ha hunits
  | hex hunits hhex hfew => exact lexed_hex h ha hunits hhex hfew

/-- **What the lexer reads is spelled.** -/
theorem spells_of_lexFrom (hcs : Lexed cs done mode) (h : lexFrom done mode rest = some ts) :
    SpellsTokens (cs ++ rest) ts := by
  -- by what is left: each step keeps that what was read is spelled
  induction rest generalizing cs done mode with
  | nil =>
    obtain ⟨a, b, rfl, ha, hb⟩ := hcs
    rw [List.append_nil]
    cases hb with
    | between =>
      cases h
      rw [List.append_nil]
      exact ha
    | word read =>
      obtain ⟨t, ht, rfl⟩ := Option.map_eq_some_iff.mp h
      rw [List.reverse_cons]
      exact ha.concat (wordToken?_iff.mp ht).1
    | text | escape | hex => cases h
  | cons c rest ih =>
    rw [lexFrom] at h
    split at h
    · cases h
    · rename_i tokens next hstep
      have hrest := ih (lexed_step hstep hcs) h
      rwa [List.append_assoc] at hrest

/-! ## Lexing piece by piece

  Pieces of a text are lexed one after another.  A mark or a text ends by itself, and a word ends where something
  follows that is no part of a word. -/

/-- A step is taken before the rest. -/
theorem lexFrom_step (h : lexStep mode c = some (ts, next)) :
    lexFrom done mode (c :: rest) = lexFrom (ts.reverse ++ done) next rest := by
  rw [lexFrom, h]

/-- What follows does not go on with a word. -/
def Ends (rest : List Char) : Prop := ∀ c ∈ rest.head?, isWordPart c = false

/-- The end of the text ends a word. -/
theorem ends_nil : Ends [] := fun _ h => by cases h

/-- So does a character that is no part of one. -/
theorem ends_cons (h : isWordPart c = false) : Ends (c :: rest) := by
  intro d hd
  cases hd
  exact h

/-- The characters are lexed to these tokens, whatever stands around them. -/
def Lexes (text : List Char) (ts : List Token) : Prop :=
  ∀ done rest, lexFrom done .between (text ++ rest) = lexFrom (ts.reverse ++ done) .between rest

/-- The characters are lexed to these tokens, if what follows does not go on with a word. -/
def Yields (text : List Char) (ts : List Token) : Prop :=
  ∀ done rest, Ends rest → lexFrom done .between (text ++ rest) = lexFrom (ts.reverse ++ done) .between rest

/-- A mark is a token by itself. -/
theorem lexes_mark {t : Token} (h : begin c = some ([t], .between)) : Lexes [c] [t] :=
  fun _ _ => lexFrom_step h

/-- A word that has been read is a token when it ends. -/
theorem lexFrom_word {cs : List Char} {t : Token} (h : wordToken? cs.reverse = some t) (hrest : Ends rest) :
    lexFrom done (.word cs) rest = lexFrom (t :: done) .between rest := by
  -- the word ends with the text, or before a character that no word goes on with
  cases rest with
  | nil =>
    show (wordToken? cs.reverse).map (fun t => (t :: done).reverse) = some (t :: done).reverse
    rw [h]
    rfl
  | cons c more =>
    have hc : isWordPart c = false := hrest c rfl
    rw [lexFrom, lexFrom, lexStep, lexStep, hc, h]
    cases hbegin : begin c with
    | none => rfl
    | some x =>
      obtain ⟨marks, next⟩ := x
      show lexFrom ((t :: marks).reverse ++ done) next more = lexFrom (marks.reverse ++ t :: done) next more
      rw [List.reverse_cons, List.append_assoc]
      rfl

/-! ## What is spelled is read

  Every spelled token is lexed to itself, given what may follow it.  The only condition on a list of tokens is that no
  word stands directly before another one. -/

/-- Space begins nothing. -/
theorem begin_of_space (h : IsSpace c) : begin c = some ([], .between) := by
  rcases h with rfl | rfl | rfl | rfl <;> rfl

/-- A word part begins a word. -/
theorem begin_of_word (h : isWordPart c = true) : begin c = some ([], .word [c]) := by
  have hne : ∀ d : Char, isWordPart d = false → c ≠ d := by
    rintro d hd rfl
    rw [h] at hd
    cases hd
  have hblank : ¬ (c = ' ' || c = '\n' || c = '\t' || c = '\r') = true := by
    simp only [Bool.or_eq_true, decide_eq_true_eq, hne ' ' rfl, hne '\n' rfl, hne '\t' rfl, hne '\r' rfl, or_self,
      not_false_eq_true]
  rw [begin, if_neg hblank, if_neg (hne '{' rfl), if_neg (hne '}' rfl), if_neg (hne '[' rfl), if_neg (hne ']' rfl),
    if_neg (hne ':' rfl), if_neg (hne ',' rfl), if_neg (hne '"' rfl), if_pos h]

/-- The parts of a word are taken one after another. -/
theorem lexFrom_wordParts (hcs : ∀ c ∈ cs, isWordPart c = true) (read : List Char) :
    lexFrom done (.word read) (cs ++ rest) = lexFrom done (.word (cs.reverse ++ read)) rest := by
  induction cs generalizing read with
  | nil => rfl
  | cons c more ih =>
    have hstep : lexStep (.word read) c = some ([], .word (c :: read)) := by
      rw [lexStep, if_pos (hcs c List.mem_cons_self)]
    rw [List.cons_append, lexFrom_step hstep, List.reverse_nil, List.nil_append,
      ih fun d hd => hcs d (List.mem_cons_of_mem _ hd), List.reverse_cons, List.append_assoc]
    rfl

/-- A word is a token where it ends. -/
theorem yields_word (h : wordToken? cs = some t) (hne : cs ≠ []) (hparts : ∀ c ∈ cs, isWordPart c = true) :
    Yields cs [t] := by
  intro done rest hrest
  obtain ⟨c, more, rfl⟩ := List.exists_cons_of_ne_nil hne
  have hstep : lexStep .between c = some ([], .word [c]) := begin_of_word (hparts c List.mem_cons_self)
  rw [List.cons_append, lexFrom_step hstep, List.reverse_nil, List.nil_append,
    lexFrom_wordParts fun d hd => hparts d (List.mem_cons_of_mem _ hd)]
  refine lexFrom_word ?_ hrest
  rw [List.reverse_append, List.reverse_reverse]
  exact h

/-- The digits of a code are taken one after another. -/
theorem lexFrom_hex (h : SpellsHex hs v) (hfew : hs.length ≤ 3) :
    lexFrom done (.hex read 0 0) (hs ++ rest) = lexFrom done (.hex read hs.length v) rest := by
  induction h generalizing rest with
  | nil => rfl
  | @concat hs c v d _ hd ih =>
    rw [List.length_append] at hfew
    have hstep : lexStep (.hex read hs.length v) c = some ([], .hex read (hs.length + 1) (v * 16 + d)) := by
      rw [lexStep, hd, Option.map_some, if_neg]
      have := hfew
      simp only [List.length_singleton] at this
      omega
    rw [List.append_assoc, ih (by omega), List.singleton_append, lexFrom_step hstep, List.length_append]
    rfl

/-- A unit of a text is taken whole. -/
theorem lexFrom_unit (h : SpellsUnit a u) :
    lexFrom done (.text read) (a ++ rest) = lexFrom done (.text (u :: read)) rest := by
  -- each unit as it is spelled; the last digit of a code is the fourth
  cases h with
  | @char c hquote hescape hcontrol =>
    have hstep : lexStep (.text read) c = some ([], .text (.char c :: read)) := by
      rw [lexStep, if_neg hquote, if_neg hescape, if_neg (Nat.not_lt.mpr hcontrol)]
    exact lexFrom_step hstep
  | @letter c e he =>
    have hstep : lexStep (.escape read) c = some ([], .text (.char e :: read)) := by
      rw [lexStep, if_neg, he, Option.map_some]
      rintro rfl
      cases he
    show lexFrom done (.escape read) (c :: rest) = _
    exact lexFrom_step hstep
  | @code hs v hhex hfour =>
    show lexFrom done (.hex read 0 0) (hs ++ rest) = _
    cases hhex with
    | nil => cases hfour
    | @concat hs c v d hhex hd =>
      rw [List.length_append, List.length_singleton, Nat.add_right_cancel_iff] at hfour
      have hstep : lexStep (.hex read hs.length v) c = some ([], .text (.code (v * 16 + d) :: read)) := by
        rw [lexStep, hd, Option.map_some, if_pos hfour]
      rw [List.append_assoc, lexFrom_hex hhex (by omega)]
      exact lexFrom_step hstep

/-- So are any number of them. -/
theorem lexFrom_units (h : SpellsUnits cs units) (read : List TextUnit) :
    lexFrom done (.text read) (cs ++ rest) = lexFrom done (.text (units.reverse ++ read)) rest := by
  induction h generalizing read with
  | nil => rfl
  | cons hu _ ih =>
    rw [List.append_assoc, lexFrom_unit hu, ih, List.reverse_cons, List.append_assoc]
    rfl

/-- A mark or a text is read whatever follows it. -/
theorem lexes_of_spells (h : SpellsToken cs t) (hword : t.isWord = false) : Lexes cs [t] := by
  cases h with
  | openBrace | closeBrace | openBracket | closeBracket | colon | comma => exact lexes_mark rfl
  | @text cs units hunits =>
    intro done rest
    have hstep : lexStep (.text (units.reverse ++ [])) '"' =
        some ([.text ((assemble units).map String.ofList)], .between) := by
      rw [lexStep, if_pos rfl, List.append_nil, List.reverse_reverse]
    show lexFrom done (.text []) ((cs ++ ['"']) ++ rest) = _
    rw [List.append_assoc, lexFrom_units hunits, List.singleton_append, lexFrom_step hstep]
  | _ => cases hword

/-- A word is read if what follows ends it. -/
theorem yields_of_spells (h : SpellsToken cs t) (hword : t.isWord = true) : Yields cs [t] := by
  refine yields_word (wordToken?_iff.mpr ⟨h, hword⟩) ?_ ?_
  · cases h with
    | number h => exact h.ne_nil
    | _ => nofun
  · cases h with
    | number h => exact h.isWordPart
    | null | true | false => exact List.all_eq_true.mp rfl
    | _ => cases hword

/-- No two words stand side by side. -/
def Apart : List Token → Prop
  | [] => True
  | t :: rest => (t.isWord = true → ∀ u ∈ rest.head?, u.isWord = false) ∧ Apart rest

/-- A text of tokens begins with an end of the word before it, unless it begins with a word. -/
theorem ends_of_spells (h : SpellsTokens cs ts) (hfirst : ∀ t ∈ ts.head?, t.isWord = false) : Ends cs := by
  cases h with
  | nil => exact ends_nil
  | space hc =>
    refine ends_cons ?_
    rcases hc with rfl | rfl | rfl | rfl <;> rfl
  | token h =>
    have hword := hfirst _ rfl
    cases h with
    | null | true | false | number => cases hword
    | _ => exact ends_cons rfl

/-- **What is spelled is read**, if no two words stand side by side. -/
theorem lexFrom_of_spells (h : SpellsTokens cs ts) (hapart : Apart ts) :
    lexFrom done .between cs = some (done.reverse ++ ts) := by
  -- on what spells the tokens: blanks are skipped, and each token ends where the next may begin
  induction h generalizing done with
  | nil => rw [lexFrom, List.append_nil]
  | space hc _ ih =>
    have hstep : lexStep .between _ = _ := begin_of_space hc
    rw [lexFrom_step hstep]
    exact ih hapart
  | @token a cs t ts ht hrest ih =>
    have hyields : lexFrom done .between (a ++ cs) = lexFrom (t :: done) .between cs := by
      by_cases hword : t.isWord = true
      · exact yields_of_spells ht hword done cs (ends_of_spells hrest (hapart.1 hword))
      · rw [Bool.not_eq_true] at hword
        exact lexes_of_spells ht hword done cs
    rw [hyields, ih hapart.2, List.reverse_cons, List.append_assoc]
    rfl

end Wheelwright.Json
