/-
  Written JSON is read back.

  **Specification** — a value that is made of nulls, truth values, integers of 64 bits, texts, arrays and objects is
  parsed from each of its layouts, on one line, on one line in ASCII, and indented; whatever the texts hold.

  **Program** — writing and reading meet at the tokens of a value (`tokens`): every layout spells them
  (`spells_compactOnto`, `spells_prettyAt`), and they write the value as the grammar has it (`writes_tokens`).

  **The crux (`exists_units`)** — a character of a text is written as itself, with a letter, by its number, or by the
  numbers of two halves if it has more than 16 bits; and each of these spells units that stand for the character, whatever
  units follow.
-/
import Wheelwright.Json.Printer
import Wheelwright.Proofs.Json.Grammar

namespace Wheelwright.Json

variable {j : Json} {a b cs hs : List Char} {c : Char} {ts us : List Token} {t : Token} {u : TextUnit} {n d : Nat}
  {out : String}

/-! ## Escapes by number

  Hexadecimal digits are padded with zeros to four of them.  The code of a character above 16 bits is cut into two
  halves, each of which has four digits, and the reader puts them together. -/

/-- The digit's character stands for the digit. -/
theorem hexDigit?_digitChar (h : d < 16) : hexDigit? (Nat.digitChar d) = some d := by
  have hall : ∀ m : Fin 16, hexDigit? (Nat.digitChar m) = some (m : Nat) := by decide
  exact hall ⟨d, h⟩

/-- Zeros in front stand for nothing. -/
theorem spellsHex_zeros (k : Nat) : SpellsHex (List.replicate k '0') 0 := by
  induction k with
  | zero => exact .nil
  | succ k ih =>
    have hzero : hexDigit? '0' = some 0 := rfl
    rw [List.replicate_succ']
    exact ih.concat hzero

/-- A number in base sixteen, behind zeros. -/
theorem spellsHex_toDigits (h : SpellsHex hs 0) (n : Nat) : SpellsHex (hs ++ Nat.toDigits 16 n) n := by
  induction n using Nat.strongRecOn with
  | _ n ih =>
    by_cases hlt : n < 16
    · have hone := h.concat (hexDigit?_digitChar hlt)
      rw [Nat.zero_mul, Nat.zero_add] at hone
      rwa [Nat.toDigits_of_lt_base hlt]
    · have hlast : hexDigit? (Nat.digitChar (n % 16)) = some (n % 16) := hexDigit?_digitChar (Nat.mod_lt n (by decide))
      have hmore := (ih (n / 16) (by omega)).concat hlast
      rw [Nat.div_add_mod'] at hmore
      rwa [Nat.toDigits_of_base_le (by decide) (Nat.not_lt.mp hlt), ← List.append_assoc]

/-- The escape of a unit spells its code. -/
theorem spells_unitEscape (h : n < 65536) : SpellsUnit (unitEscape n).toList (.code n) := by
  have hlength : (Nat.toDigits 16 n).length ≤ 4 := (Nat.length_toDigits_le_iff (by decide) (by decide)).mpr h
  have hfour : (List.replicate (4 - (Nat.toDigits 16 n).length) '0' ++ Nat.toDigits 16 n).length = 4 := by
    rw [List.length_append, List.length_replicate]
    omega
  rw [unitEscape, String.toList_append, String.toList_ofList (l := List.replicate _ '0' ++ _)]
  exact .code (spellsHex_toDigits (spellsHex_zeros _) n) hfour

/-- The code of a character below the halves assembles to the character. -/
theorem assemble_code (c : Char) (rest : List TextUnit) :
    assemble (.code c.toNat :: rest) = (assemble rest).map (c :: ·) := by
  have hplain : (c.toNat < 0xD800 || 0xDFFF < c.toNat) = true := by
    rw [Bool.or_eq_true, decide_eq_true_eq, decide_eq_true_eq]
    exact c.valid.imp_right And.left
  rw [assemble.eq_def]
  dsimp only
  rw [if_pos hplain, Char.ofNat_toNat]

/-- Characters have numbers below the limit. -/
theorem toNat_lt (c : Char) : c.toNat < 0x110000 := by
  rcases c.valid with h | ⟨-, h⟩
  · exact Nat.lt_trans h (by decide)
  · exact h

/-- The two halves of a character of more than 16 bits. -/
theorem assemble_halves (hlarge : 0x10000 ≤ c.toNat) (rest : List TextUnit) :
    assemble (.code (0xD800 + (c.toNat - 0x10000) / 0x400) :: .code (0xDC00 + (c.toNat - 0x10000) % 0x400) :: rest) =
      (assemble rest).map (c :: ·) := by
  have hvalid := toNat_lt c
  -- the two halves of a surrogate pair, named for the arithmetic below
  generalize hhigh : 0xD800 + (c.toNat - 0x10000) / 0x400 = high
  generalize hlow : 0xDC00 + (c.toNat - 0x10000) % 0x400 = low
  have hhalf : ¬ (high < 0xD800 || 0xDFFF < high) = true := by
    rw [Bool.or_eq_true, decide_eq_true_eq, decide_eq_true_eq]
    omega
  have hleads : ¬ 0xDC00 ≤ high := by omega
  have htrails : (0xDC00 ≤ low && low ≤ 0xDFFF) = true := by
    rw [Bool.and_eq_true, decide_eq_true_eq, decide_eq_true_eq]
    omega
  have hsum : 0x10000 + (high - 0xD800) * 0x400 + (low - 0xDC00) = c.toNat := by omega
  rw [assemble.eq_def]
  dsimp only
  rw [if_neg hhalf, if_neg hleads, if_pos htrails, hsum, Char.ofNat_toNat]

/-! ## Texts

  A character is shown by what is written for it if the lexer gets units of it that assemble to the character,
  whatever units follow.  That last part is needed since a half waits for the next one. -/

/-- The characters spell units of a text that stand for `c`. -/
def Shows (cs : List Char) (c : Char) : Prop :=
  ∃ units, SpellsUnits cs units ∧ ∀ rest, assemble (units ++ rest) = (assemble rest).map (c :: ·)

/-- A unit that is a character shows it. -/
theorem shows_char (h : SpellsUnit cs (.char c)) : Shows cs c := ⟨_, spellsUnits_one h, fun _ => rfl⟩

/-- An escape by letter shows the character it stands for. -/
theorem shows_letter {e : Char} (h : escapeLetter? e = some c) : Shows ['\\', e] c := shows_char (.letter h)

/-- An escape by number shows the character of that number. -/
theorem shows_code (h : c.toNat < 65536) : Shows (unitEscape c.toNat).toList c :=
  ⟨_, spellsUnits_one (spells_unitEscape h), assemble_code c⟩

/-- A character by the numbers of its halves. -/
theorem shows_halves (h : 0x10000 ≤ c.toNat) :
    Shows (unitEscape (0xD800 + (c.toNat - 0x10000) / 0x400) ++
      unitEscape (0xDC00 + (c.toNat - 0x10000) % 0x400)).toList c := by
  have hvalid := toNat_lt c
  have hhigh := spells_unitEscape (n := 0xD800 + (c.toNat - 0x10000) / 0x400) (by omega)
  have hlow := spells_unitEscape (n := 0xDC00 + (c.toNat - 0x10000) % 0x400) (by omega)
  rw [String.toList_append]
  exact ⟨_, .cons hhigh (spellsUnits_one hlow), assemble_halves h⟩

/-- **A written character shows itself**, with or without escapes beyond ASCII. -/
theorem shows_escapeChar (ascii : Bool) (c : Char) : Shows (escapeChar ascii c).toList c := by
  -- the characters with a short escape
  by_cases hshort : c = '"' ∨ c = '\\' ∨ c = '\n' ∨ c = '\r' ∨ c = '\t'
  · rcases hshort with rfl | rfl | rfl | rfl | rfl
    · cases ascii <;> exact shows_letter (e := '"') rfl
    · cases ascii <;> exact shows_letter (e := '\\') rfl
    · cases ascii <;> exact shows_letter (e := 'n') rfl
    · cases ascii <;> exact shows_letter (e := 'r') rfl
    · cases ascii <;> exact shows_letter (e := 't') rfl
  obtain ⟨hquote, hback, hn, hr, ht⟩ : c ≠ '"' ∧ c ≠ '\\' ∧ c ≠ '\n' ∧ c ≠ '\r' ∧ c ≠ '\t' := by
    simpa only [not_or] using hshort
  -- and the two that have one, but no literal
  by_cases hletter : c.toNat = 8 ∨ c.toNat = 12
  · have hc : c = Char.ofNat 8 ∨ c = Char.ofNat 12 := by
      rw [← Char.ofNat_toNat c]
      exact hletter.imp (congrArg Char.ofNat) (congrArg Char.ofNat)
    rcases hc with rfl | rfl
    · cases ascii <;> exact shows_letter (e := 'b') rfl
    · cases ascii <;> exact shows_letter (e := 'f') rfl
  obtain ⟨hb, hf⟩ := not_or.mp hletter
  rw [escapeChar, if_neg hquote, if_neg hback, if_neg hn, if_neg hr, if_neg ht, if_neg hb, if_neg hf]
  -- controls are escaped by number, others only if everything is to be ASCII
  by_cases hlow : c.toNat < 32
  · rw [if_pos hlow]
    exact shows_code (by omega)
  rw [if_neg hlow]
  split
  · split
    · rename_i hword
      exact shows_code hword
    · rename_i hlarge
      exact shows_halves (Nat.not_lt.mp hlarge)
  · rw [Char.toString_eq_singleton, String.toList_singleton]
    exact shows_char (.char hquote hback (Nat.not_lt.mp hlow))

/-- The characters of a text are spelled by their escapes, one after another. -/
theorem exists_units (ascii : Bool) (cs : List Char) :
    ∃ units, SpellsUnits (cs.flatMap fun c => (escapeChar ascii c).toList) units ∧ assemble units = some cs := by
  induction cs with
  | nil => exact ⟨[], .nil, rfl⟩
  | cons c rest ih =>
    obtain ⟨first, hfirst, hshows⟩ := shows_escapeChar ascii c
    obtain ⟨units, hunits, hrest⟩ := ih
    refine ⟨first ++ units, hfirst.append hunits, ?_⟩
    rw [hshows, hrest]
    rfl

/-- A text is written between quotes, each character escaped. -/
theorem toList_writeText (ascii : Bool) (s : String) : (writeText ascii s).toList =
    '"' :: (s.toList.flatMap (fun c => (escapeChar ascii c).toList) ++ ['"']) := by
  have hfold (cs : List Char) (out : String) : (cs.foldl (fun out c => out ++ escapeChar ascii c) out).toList =
      out.toList ++ cs.flatMap fun c => (escapeChar ascii c).toList := by
    induction cs generalizing out with
    | nil => exact (List.append_nil _).symm
    | cons c more ih =>
      rw [List.foldl_cons, ih, String.toList_append, List.flatMap_cons, List.append_assoc]
  rw [writeText, String.foldl_eq_foldl_toList, String.toList_append, String.toList_append, hfold]
  rfl

/-- **A written text spells its token.** -/
theorem spells_writeText (ascii : Bool) (s : String) : SpellsToken (writeText ascii s).toList (.text (some s)) := by
  obtain ⟨units, hunits, hassemble⟩ := exists_units ascii s.toList
  have hspells := SpellsToken.text hunits
  rwa [hassemble, Option.map_some, String.ofList_toList, ← toList_writeText] at hspells

/-! ## Values and their tokens

  The tokens of a value are a function of the value, which both directions meet at.  By this module the layouts spell
  them, and by the grammar they are the tokens of the value. -/

/-- The numeral is an integer of 64 bits, with or without sign. -/
def isWhole : Numeral → Bool
  | .natural n => n ≤ NumeralText.maxWord
  | .negative n => n != 0 && n ≤ Nat.pow 2 63
  | .real _ => false

mutual

/-- The value is made of nulls, truth values, integers, texts, arrays and objects. -/
def isPlain : Json → Bool
  | .null | .bool _ | .string _ => true
  | .number n => isWhole n
  | .array items => arePlain items
  | .object fields => havePlain fields
  | .unreadable => false

/-- `isPlain` of every item. -/
def arePlain : List Json → Bool
  | [] => true
  | j :: rest => j.isPlain && arePlain rest

/-- `isPlain` of every field's value. -/
def havePlain : List (String × Json) → Bool
  | [] => true
  | (_, j) :: rest => j.isPlain && havePlain rest

end

mutual

/-- The tokens of a plain value. -/
def tokens : Json → List Token
  | .null => [.null]
  | .bool b => [.bool b]
  | .number n => [.number (some n)]
  | .string s => [.text (some s)]
  | .array items => .openBracket :: (itemTokens true items ++ [.closeBracket])
  | .object fields => .openBrace :: (fieldTokens true fields ++ [.closeBrace])
  | .unreadable => []

/-- The tokens of items, with commas between them. -/
def itemTokens (first : Bool) : List Json → List Token
  | [] => []
  | j :: rest => (if first then [] else [.comma]) ++ (tokens j ++ itemTokens false rest)

/-- The tokens of fields, with commas between them. -/
def fieldTokens (first : Bool) : List (String × Json) → List Token
  | [] => []
  | (name, j) :: rest =>
    (if first then [] else [.comma]) ++ (.text (some name) :: .colon :: (tokens j ++ fieldTokens false rest))

end

/-- The items that are not the first have a comma in front. -/
theorem itemTokens_false (items : List Json) : itemTokens false items = (items.map tokens).flatMap (.comma :: ·) := by
  induction items with
  | nil => rfl
  | cons j rest ih =>
    rw [itemTokens, ih]
    rfl

/-- The items of an array are set apart by commas. -/
theorem itemTokens_true (items : List Json) : itemTokens true items = [Token.comma].intercalate (items.map tokens) := by
  cases items with
  | nil => rfl
  | cons j rest =>
    rw [itemTokens, itemTokens_false, List.map_cons, intercalate_cons]
    rfl

/-- A field as a member of an object. -/
def memberOf (f : String × Json) : Member := ⟨some f.1, tokens f.2, f.2⟩

/-- Fields that are not the first have a comma in front. -/
theorem fieldTokens_false (fields : List (String × Json)) :
    fieldTokens false fields = ((fields.map memberOf).map Member.tokens).flatMap (.comma :: ·) := by
  induction fields with
  | nil => rfl
  | cons f rest ih =>
    rw [fieldTokens, ih]
    rfl

/-- The fields of an object are set apart by commas. -/
theorem fieldTokens_true (fields : List (String × Json)) :
    fieldTokens true fields = [Token.comma].intercalate ((fields.map memberOf).map Member.tokens) := by
  cases fields with
  | nil => rfl
  | cons f rest =>
    rw [fieldTokens, fieldTokens_false, List.map_cons, List.map_cons, intercalate_cons]
    rfl

/-- The members made of fields make the object. -/
theorem objectOf_memberOf (fields : List (String × Json)) : objectOf (fields.map memberOf) = .object fields := by
  have hnames : (fields.map memberOf).all (·.name.isSome) = true := by
    rw [List.all_map]
    exact List.all_eq_true.mpr fun _ _ => rfl
  have hfields : Member.field ∘ memberOf = id := rfl
  rw [objectOf, if_pos hnames, List.map_map, hfields, List.map_id]

mutual

/-- **The tokens of a plain value write it.** -/
theorem writes_tokens : ∀ j : Json, j.isPlain = true → Writes (tokens j) j
  | .null, _ => .null
  | .bool b, _ => .bool b
  | .number n, _ => .number n
  | .string s, _ => .text s
  | .array items, h => by
    have hall : ∀ i ∈ items.map fun j => (tokens j, j), Writes i.1 i.2 := by
      intro i hi
      obtain ⟨j, hj, rfl⟩ := List.mem_map.mp hi
      exact writes_of_mem items h j hj
    have hwrites := Writes.array hall
    rw [List.map_map, List.map_map] at hwrites
    have hvalues : (Prod.snd ∘ fun j => (tokens j, j)) = id := rfl
    rw [hvalues, List.map_id] at hwrites
    rw [tokens, itemTokens_true]
    exact hwrites
  | .object fields, h => by
    have hall : ∀ m ∈ fields.map memberOf, Writes m.text m.value := by
      intro m hm
      obtain ⟨f, hf, rfl⟩ := List.mem_map.mp hm
      exact writes_of_mem_fields fields h f hf
    have hwrites := Writes.object hall
    rw [objectOf_memberOf] at hwrites
    rw [tokens, fieldTokens_true]
    exact hwrites

/-- The items of an array are written one by one. -/
theorem writes_of_mem : ∀ items : List Json, arePlain items = true → ∀ j ∈ items, Writes (tokens j) j
  | [], _ => List.forall_mem_nil _
  | j :: rest, h => by
    rw [arePlain, Bool.and_eq_true] at h
    exact List.forall_mem_cons.mpr ⟨writes_tokens j h.1, writes_of_mem rest h.2⟩

/-- So are the fields of an object. -/
theorem writes_of_mem_fields : ∀ fields : List (String × Json), havePlain fields = true →
    ∀ f ∈ fields, Writes (tokens f.2) f.2
  | [], _ => List.forall_mem_nil _
  | (_, j) :: rest, h => by
    rw [havePlain, Bool.and_eq_true] at h
    exact List.forall_mem_cons.mpr ⟨writes_tokens j h.1, writes_of_mem_fields rest h.2⟩

end

/-! ## One line

  A value in one line is written behind a text that is there already.  So it is shown that this text is prolonged by
  the spelling of the value. -/

/-- A written integer spells its token. -/
theorem spells_writeNumeral : ∀ {n : Numeral}, isWhole n = true → SpellsToken (writeNumeral n).toList (.number (some n))
  | .natural n, h => by
    have hspells := SpellsToken.number (NumeralText.spells_integer false n)
    rwa [NumeralText.value?_integer_of_le (of_decide_eq_true h), ← Nat.toList_repr] at hspells
  | .negative n, h => by
    rw [isWhole, Bool.and_eq_true, bne_iff_ne, decide_eq_true_eq] at h
    have hspells := SpellsToken.number (NumeralText.spells_integer true n)
    rw [NumeralText.value?_integer_of_pos h.1 h.2, ← Nat.toList_repr] at hspells
    rwa [writeNumeral, String.toList_append]
  | .real _, h => by cases h

/-- One more token behind a text. -/
theorem spells_behind {text : String} (h : SpellsTokens out.toList ts) (ht : SpellsToken text.toList t) :
    SpellsTokens (out ++ text).toList (ts ++ [t]) := by
  rw [String.toList_append]
  exact h.concat ht

/-- A comma between two parts is a token of its own. -/
theorem spells_comma (first : Bool) (h : SpellsTokens out.toList ts) :
    SpellsTokens (if first then out else out ++ ",").toList (ts ++ if first then [] else [.comma]) := by
  cases first with
  | true =>
    rw [if_pos rfl, if_pos rfl, List.append_nil]
    exact h
  | false => exact spells_behind h .comma

mutual

/-- **A value on one line spells its tokens**, behind those of what stands before it. -/
theorem spells_compactOnto (ascii : Bool) : ∀ (j : Json) (out : String) (ts : List Token), j.isPlain = true →
    SpellsTokens out.toList ts → SpellsTokens (compactOnto ascii out j).toList (ts ++ tokens j)
  | .null, _, _, _, h => spells_behind h .null
  | .bool true, _, _, _, h => spells_behind h .true
  | .bool false, _, _, _, h => spells_behind h .false
  | .number _, _, _, hplain, h => spells_behind h (spells_writeNumeral hplain)
  | .string s, _, _, _, h => spells_behind h (spells_writeText ascii s)
  | .array items, out, ts, hplain, h => by
    have hopen : SpellsTokens (out ++ "[").toList (ts ++ [.openBracket]) := spells_behind h .openBracket
    have hitems := spells_itemsOnto ascii items _ true _ hplain hopen
    have hclose : SpellsTokens (compactOnto ascii out (.array items)).toList _ := spells_behind hitems .closeBracket
    rwa [List.append_assoc, List.append_assoc] at hclose
  | .object fields, out, ts, hplain, h => by
    have hopen : SpellsTokens (out ++ "\x7b").toList (ts ++ [.openBrace]) := spells_behind h .openBrace
    have hfields := spells_fieldsOnto ascii fields _ true _ hplain hopen
    have hclose : SpellsTokens (compactOnto ascii out (.object fields)).toList _ := spells_behind hfields .closeBrace
    rwa [List.append_assoc, List.append_assoc] at hclose

/-- The items are spelled behind what has been written. -/
theorem spells_itemsOnto (ascii : Bool) : ∀ (items : List Json) (out : String) (first : Bool) (ts : List Token),
    arePlain items = true → SpellsTokens out.toList ts →
      SpellsTokens (itemsOnto ascii out first items).toList (ts ++ itemTokens first items)
  | [], _, _, ts, _, h => by
    rw [itemTokens, List.append_nil]
    exact h
  | j :: rest, out, first, ts, hplain, h => by
    rw [arePlain, Bool.and_eq_true] at hplain
    have hitem := spells_compactOnto ascii j _ _ hplain.1 (spells_comma first h)
    have hrest := spells_itemsOnto ascii rest _ false _ hplain.2 hitem
    rwa [List.append_assoc, List.append_assoc] at hrest

/-- So are the fields. -/
theorem spells_fieldsOnto (ascii : Bool) : ∀ (fields : List (String × Json)) (out : String) (first : Bool)
    (ts : List Token), havePlain fields = true → SpellsTokens out.toList ts →
      SpellsTokens (fieldsOnto ascii out first fields).toList (ts ++ fieldTokens first fields)
  | [], _, _, ts, _, h => by
    rw [fieldTokens, List.append_nil]
    exact h
  | (name, j) :: rest, out, first, ts, hplain, h => by
    rw [havePlain, Bool.and_eq_true] at hplain
    have hcolon : SpellsToken ":".toList .colon := .colon
    have hname := spells_behind (spells_behind (spells_comma first h) (spells_writeText ascii name)) hcolon
    have hvalue := spells_compactOnto ascii j _ _ hplain.1 hname
    have hrest := spells_fieldsOnto ascii rest _ false _ hplain.2 hvalue
    simp only [List.append_assoc, List.singleton_append] at hrest
    exact hrest

end

/-! ## Indented

  The indented layout writes items on lines of their own.  The blanks and line ends that it puts in spell no tokens,
  so the tokens are those of the line. -/

/-- Blanks spell no token. -/
theorem spells_spaces (n : Nat) : SpellsTokens (List.replicate n ' ') [] := by
  induction n with
  | zero => exact .nil
  | succ n ih => exact .space (Or.inl rfl) ih

/-- Nor does a new line. -/
theorem spells_newLine (depth : Nat) : SpellsTokens (newLine depth).toList [] := by
  rw [newLine, String.toList_append, String.toList_ofList (l := List.replicate (2 * depth) ' ')]
  exact .space (Or.inr (Or.inl rfl)) (spells_spaces _)

/-- What stands before an item. -/
theorem spells_lineStart (first : Bool) (depth : Nat) :
    SpellsTokens ((if first then "" else ",") ++ newLine depth).toList (if first then [] else [.comma]) := by
  rw [String.toList_append]
  cases first with
  | true => exact spells_newLine depth
  | false => exact .token .comma (spells_newLine depth)

/-- What is enclosed by two marks, the second on a line of its own. -/
theorem spells_enclosed {text : String} {u : Token} (l r : String) (hl : SpellsToken l.toList t)
    (h : SpellsTokens text.toList ts) (depth : Nat) (hr : SpellsToken r.toList u) :
    SpellsTokens (l ++ text ++ newLine depth ++ r).toList (t :: (ts ++ [u])) := by
  have hclose := (spells_newLine depth).concat hr
  simp only [String.toList_append, List.append_assoc]
  exact .token hl (h.append hclose)

mutual

/-- **The indented text of a value spells its tokens.** -/
theorem spells_prettyAt (depth : Nat) : ∀ j : Json, j.isPlain = true → SpellsTokens (prettyAt depth j).toList (tokens j)
  | .null, _ => spellsTokens_one .null
  | .bool true, _ => spellsTokens_one .true
  | .bool false, _ => spellsTokens_one .false
  | .number _, h => spellsTokens_one (spells_writeNumeral h)
  | .string s, _ => spellsTokens_one (spells_writeText false s)
  | .array [], _ => by
    rw [prettyAt]
    exact .token (a := ['[']) .openBracket (spellsTokens_one .closeBracket)
  -- the items stand one level further in than the brackets
  | .array (j :: rest), h => by
    have hitems := spells_prettyItems (depth + 1) true (j :: rest) h
    rw [prettyAt]
    · exact spells_enclosed "[" "]" .openBracket hitems depth .closeBracket
    · exact List.cons_ne_nil j rest
  | .object [], _ => by
    rw [prettyAt]
    exact .token (a := ['{']) .openBrace (spellsTokens_one .closeBrace)
  | .object (f :: rest), h => by
    have hfields := spells_prettyFields (depth + 1) true (f :: rest) h
    rw [prettyAt]
    · exact spells_enclosed "\x7b" "\x7d" .openBrace hfields depth .closeBrace
    · exact List.cons_ne_nil f rest

/-- Indented items are spelled as the others are. -/
theorem spells_prettyItems (depth : Nat) (first : Bool) : ∀ items : List Json, arePlain items = true →
    SpellsTokens (prettyItems depth first items).toList (itemTokens first items)
  | [], _ => .nil
  | j :: rest, h => by
    rw [arePlain, Bool.and_eq_true] at h
    have hitem := spells_prettyAt depth j h.1
    have hrest := spells_prettyItems depth false rest h.2
    rw [prettyItems, String.toList_append, String.toList_append, List.append_assoc]
    exact (spells_lineStart first depth).append (hitem.append hrest)

/-- So are indented fields. -/
theorem spells_prettyFields (depth : Nat) (first : Bool) : ∀ fields : List (String × Json), havePlain fields = true →
    SpellsTokens (prettyFields depth first fields).toList (fieldTokens first fields)
  | [], _ => .nil
  | (name, j) :: rest, h => by
    rw [havePlain, Bool.and_eq_true] at h
    have hcolon : SpellsTokens ": ".toList [.colon] := .token (a := [':']) .colon (spells_spaces 1)
    have hname : SpellsTokens ((writeText false name).toList ++ ": ".toList) [.text (some name), .colon] :=
      .token (spells_writeText false name) hcolon
    have hvalue := spells_prettyAt depth j h.1
    have hrest := spells_prettyFields depth false rest h.2
    rw [prettyFields]
    simp only [String.toList_append, List.append_assoc]
    rw [← List.append_assoc, ← List.append_assoc (writeText false name).toList, ← String.toList_append]
    exact (spells_lineStart first depth).append (hname.append (hvalue.append hrest))

end

/-! ## Reading back

  Both layouts of a plain value are encodings of it, and are parsed as it. -/

/-- **A plain value is written by its text on one line**, in ASCII or not. -/
theorem writtenBy_compactOnto (ascii : Bool) (h : j.isPlain = true) : j.WrittenBy (compactOnto ascii "" j) :=
  ⟨tokens j, spells_compactOnto ascii j "" [] h .nil, writes_tokens j h⟩

/-- **A plain value is written by its indented text.** -/
theorem writtenBy_pretty (h : j.isPlain = true) : j.WrittenBy j.pretty :=
  ⟨tokens j, spells_prettyAt 0 j h, writes_tokens j h⟩

/-- A value that was written is read back. -/
theorem parse?_pretty (h : j.isPlain = true) : parse? j.pretty = some j := parse?_iff.mpr (writtenBy_pretty h)

end Wheelwright.Json
