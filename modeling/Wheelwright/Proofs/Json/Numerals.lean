/-
  JSON numerals — what is read as a numeral is what the grammar spells.

  **Specification** — an optional minus; digits, of which the first is no zero unless it is the only one; an optional
  fraction, which is a point and digits; and an optional exponent, which is a letter, an optional sign and digits.  An
  integer in base ten is such a numeral (`spells_integer`), and it has its value if that fits a word.

  **Program** — `parse?` takes as many digits as there are, and looks at what stands behind them.

  **The crux** — what may stand behind digits is never a digit itself (`SpellsFraction.noDigit`), so that taking as many
  as there are takes those of the part (`takeDigits_append`).
-/
import Wheelwright.Json.Lexer

namespace Wheelwright

namespace NumeralText

variable {cs rest f e : List Char} {ds : List Nat} {t : NumeralText}

/-! ## The grammar

  One inductive for each part of a numeral, as the grammar has them.  The digits come as numbers along with their
  characters. -/

/-- One or more digits. -/
structure SpellsDigits (cs : List Char) (ds : List Nat) : Prop where
  /-- There is at least one. -/
  nonempty : cs ≠ []
  /-- Each is a plain digit. -/
  digits : ∀ c ∈ cs, c.isDigit = true
  /-- Each stands for its value. -/
  values : ds = cs.map digitOf

/-- The sign of an exponent. -/
inductive SpellsSign : List Char → Bool → Prop
  /-- Nothing, or one of the two signs. -/
  | none : SpellsSign [] false
  | plus : SpellsSign ['+'] false
  | minus : SpellsSign ['-'] true

/-- An exponent: the letter, a sign and digits, or nothing. -/
inductive SpellsExponent : List Char → Option (Bool × List Nat) → Prop
  | none : SpellsExponent [] none
  | some {e : Char} {sign cs : List Char} {negative : Bool} {ds : List Nat} (he : e = 'e' ∨ e = 'E')
      (hsign : SpellsSign sign negative) (h : SpellsDigits cs ds) :
      SpellsExponent (e :: (sign ++ cs)) (some (negative, ds))

/-- A fraction: the point and digits, or nothing. -/
inductive SpellsFraction : List Char → Option (List Nat) → Prop
  | none : SpellsFraction [] none
  | some {cs : List Char} {ds : List Nat} (h : SpellsDigits cs ds) : SpellsFraction ('.' :: cs) (some ds)

/-- A numeral: no digit stands behind a zero that leads. -/
inductive Spells : List Char → NumeralText → Prop
  /-- The whole digits have no zero in front, unless they are a single one. -/
  | mk (negative : Bool) {w f e : List Char} {whole : List Nat} {fraction : Option (List Nat)}
      {exponent : Option (Bool × List Nat)} (hwhole : SpellsDigits w whole)
      (hzero : whole.head? = some 0 → whole.length = 1) (hfraction : SpellsFraction f fraction)
      (hexponent : SpellsExponent e exponent) :
      Spells ((if negative then ['-'] else []) ++ (w ++ (f ++ e))) ⟨negative, whole, fraction, exponent⟩

/-! ## Digits

  The program takes digits as long as there are any.  That these are the digits of the part is seen at the character
  behind them. -/

/-- No digit stands in front. -/
def NoDigit (cs : List Char) : Prop := ∀ c ∈ cs.head?, c.isDigit = false

/-- All the digits in front are taken. -/
theorem takeDigits_append (h : SpellsDigits cs ds) (hrest : NoDigit rest) : takeDigits (cs ++ rest) = (ds, rest) := by
  have htake : rest.takeWhile Char.isDigit = [] := by
    cases rest with
    | nil => rfl
    | cons c more => exact List.takeWhile_cons_of_neg (by rw [hrest c rfl]; exact Bool.false_ne_true)
  have hdrop : rest.dropWhile Char.isDigit = rest := by
    cases rest with
    | nil => rfl
    | cons c more => exact List.dropWhile_cons_of_neg (by rw [hrest c rfl]; exact Bool.false_ne_true)
  rw [takeDigits, List.takeWhile_append_of_pos h.digits, List.dropWhile_append_of_pos h.digits, htake, hdrop,
    List.append_nil, h.values]

/-- Digits in front, if there are any. -/
theorem exists_of_takeDigits (h : takeDigits cs = (ds, rest)) (hne : ds.isEmpty = false) :
    ∃ w, cs = w ++ rest ∧ SpellsDigits w ds := by
  cases h
  refine ⟨cs.takeWhile Char.isDigit, List.takeWhile_append_dropWhile.symm, ?_, fun c hc => ?_, rfl⟩
  · rintro hnil
    rw [hnil] at hne
    cases hne
  · exact List.all_eq_true.mp List.all_takeWhile c hc

/-- A spelled run of digits is taken whole. -/
theorem takeDigits_of_spells (h : SpellsDigits cs ds) : takeDigits cs = (ds, []) := by
  have hnil : NoDigit [] := nofun
  have htake := takeDigits_append h hnil
  rwa [List.append_nil] at htake

/-- There are some. -/
theorem SpellsDigits.isEmpty (h : SpellsDigits cs ds) : ds.isEmpty = false := by
  rw [h.values, List.isEmpty_eq_false_iff]
  exact fun hnil => h.nonempty (List.map_eq_nil_iff.mp hnil)

/-- No sign stands in front. -/
def Signless (cs : List Char) : Prop := ∀ c ∈ cs.head?, c ≠ '-' ∧ c ≠ '+'

/-- A digit is no sign. -/
theorem SpellsDigits.signless (h : SpellsDigits cs ds) : Signless cs := by
  intro c hc
  have hdigit := h.digits c (List.mem_of_mem_head? hc)
  constructor
  · rintro rfl
    cases hdigit
  · rintro rfl
    cases hdigit

/-! ## Exponents

  An exponent goes to the end of its text.  Its sign may be missing, and then the first digit stands in its place. -/

/-- The digits of an exponent, to the end. -/
def exponentDigits? (negative : Bool) (cs : List Char) : Option (Option (Bool × List Nat)) :=
  if (takeDigits cs).1.isEmpty || !(takeDigits cs).2.isEmpty then none else some (some (negative, (takeDigits cs).1))

/-- Digits are read as an exponent exactly if there are some. -/
theorem exponentDigits?_iff {negative : Bool} {x : Option (Bool × List Nat)} :
    exponentDigits? negative cs = some x ↔ ∃ ds, SpellsDigits cs ds ∧ x = some (negative, ds) := by
  rw [exponentDigits?]
  constructor
  · intro h
    split at h
    · cases h
    · rename_i hdigits
      cases h
      rw [Bool.or_eq_true, not_or, Bool.not_eq_true, Bool.not_eq_true, Bool.not_eq_false', List.isEmpty_iff] at hdigits
      obtain ⟨w, hw, hspells⟩ := exists_of_takeDigits (Prod.eta _).symm hdigits.1
      rw [hdigits.2, List.append_nil] at hw
      subst hw
      exact ⟨_, hspells, rfl⟩
  · rintro ⟨ds, hspells, rfl⟩
    rw [takeDigits_of_spells hspells, hspells.isEmpty]
    rfl

/-- Every text stands behind a sign or is without one. -/
theorem exists_sign (cs : List Char) :
    ∃ sign negative rest, cs = sign ++ rest ∧ SpellsSign sign negative ∧ (sign = [] → Signless rest) := by
  -- a sign is a minus, a plus or nothing, and then no sign follows
  cases cs with
  | nil => exact ⟨[], false, [], rfl, .none, fun _ => nofun⟩
  | cons c rest =>
    by_cases hminus : c = '-'
    · subst hminus
      exact ⟨_, true, rest, rfl, .minus, nofun⟩
    · by_cases hplus : c = '+'
      · subst hplus
        exact ⟨_, false, rest, rfl, .plus, nofun⟩
      · refine ⟨[], false, c :: rest, rfl, .none, fun _ => ?_⟩
        rintro d ⟨⟩
        exact ⟨hminus, hplus⟩

/-- A sign in front decides whether the exponent is negative. -/
theorem parseExponent?_sign {e : Char} {sign : List Char} {negative : Bool} (hsign : SpellsSign sign negative)
    (hnone : sign = [] → Signless cs) :
    parseExponent? (e :: (sign ++ cs)) = if e = 'e' || e = 'E' then exponentDigits? negative cs else none := by
  cases hsign with
  | minus => rfl
  | plus => rfl
  | none =>
    have hsignless := hnone rfl
    rw [List.nil_append, parseExponent?]
    · rfl
    · rintro more rfl
      exact (hsignless _ rfl).1 rfl
    · rintro more rfl
      exact (hsignless _ rfl).2 rfl

/-- An exponent is read exactly when one is spelled. -/
theorem parseExponent?_iff {x : Option (Bool × List Nat)} : parseExponent? cs = some x ↔ SpellsExponent cs x := by
  constructor
  · intro h
    -- the letter, and behind it the sign, if there is one
    cases cs with
    | nil =>
      cases h
      exact .none
    | cons e rest =>
      obtain ⟨sign, negative, more, rfl, hsign, hnone⟩ := exists_sign rest
      rw [parseExponent?_sign hsign hnone] at h
      split at h
      · rename_i he
        obtain ⟨ds, hspells, rfl⟩ := exponentDigits?_iff.mp h
        exact .some (by simpa using he) hsign hspells
      · cases h
  · intro h
    cases h with
    | none => rfl
    | some he hsign hspells =>
      rw [parseExponent?_sign hsign fun _ => hspells.signless, if_pos (by simpa using he)]
      exact exponentDigits?_iff.mpr ⟨_, hspells, rfl⟩

/-! ## Whole numerals

  The parts from the last to the first: what may follow the whole digits is known when they are taken. -/

/-- An exponent does not begin with a digit. -/
theorem SpellsExponent.noDigit {x : Option (Bool × List Nat)} (h : SpellsExponent e x) : NoDigit e := by
  cases h with
  | none => nofun
  | some he =>
    rintro c ⟨⟩
    rcases he with rfl | rfl <;> rfl

/-- Nor does a fraction with what comes behind it. -/
theorem SpellsFraction.noDigit {x : Option (List Nat)} {y : Option (Bool × List Nat)} (hf : SpellsFraction f x)
    (he : SpellsExponent e y) : NoDigit (f ++ e) := by
  cases hf with
  | none => exact he.noDigit
  | some h =>
    rintro c ⟨⟩
    rfl

/-- Fraction and exponent behind the whole digits. -/
def parseRest? (negative : Bool) (whole : List Nat) (rest : List Char) : Option NumeralText :=
  match rest with
  | '.' :: more =>
    if (takeDigits more).1.isEmpty then none
    else (parseExponent? (takeDigits more).2).map fun e => ⟨negative, whole, some (takeDigits more).1, e⟩
  | _ => (parseExponent? rest).map fun e => ⟨negative, whole, none, e⟩

/-- What is read behind the whole digits is a fraction and an exponent. -/
theorem parseRest?_iff {negative : Bool} {whole : List Nat} :
    parseRest? negative whole rest = some t ↔ ∃ f e fraction exponent, rest = f ++ e ∧ SpellsFraction f fraction ∧
      SpellsExponent e exponent ∧ t = ⟨negative, whole, fraction, exponent⟩ := by
  constructor
  · intro h
    -- with the point there are digits, without it the exponent follows at once
    rw [parseRest?.eq_def] at h
    split at h
    · rename_i more
      split at h
      · cases h
      · rename_i hdigits
        rw [Bool.not_eq_true] at hdigits
        obtain ⟨x, hx, rfl⟩ := Option.map_eq_some_iff.mp h
        obtain ⟨w, hw, hspells⟩ := exists_of_takeDigits (Prod.eta _).symm hdigits
        exact ⟨'.' :: w, _, _, _, congrArg ('.' :: ·) hw, .some hspells, parseExponent?_iff.mp hx, rfl⟩
    · obtain ⟨x, hx, rfl⟩ := Option.map_eq_some_iff.mp h
      exact ⟨[], _, _, _, rfl, .none, parseExponent?_iff.mp hx, rfl⟩
  · rintro ⟨f, e, fraction, exponent, rfl, hf, he, rfl⟩
    cases hf with
    | some hspells =>
      rw [List.cons_append, parseRest?, takeDigits_append hspells he.noDigit, hspells.isEmpty,
        parseExponent?_iff.mpr he]
      rfl
    | none =>
      rw [List.nil_append, parseRest?, parseExponent?_iff.mpr he]
      · rfl
      · rintro more rfl
        cases he with
        | some hletter => rcases hletter with h | h <;> cases h

/-- A minus in front decides whether the number is negative. -/
theorem parse?_sign (negative : Bool) (hsign : negative = false → ∀ c ∈ cs.head?, c ≠ '-') :
    parse? ((if negative then ['-'] else []) ++ cs) =
      if (takeDigits cs).1.isEmpty || ((takeDigits cs).1.head? = some 0 && (takeDigits cs).1.length != 1) then none
      else parseRest? negative (takeDigits cs).1 (takeDigits cs).2 := by
  cases negative with
  | true => rfl
  | false =>
    show parse? cs = _
    rw [parse?]
    · rfl
    · rintro rest rfl
      exact hsign rfl _ rfl rfl

/-- Every text stands behind a minus or is without one. -/
theorem exists_minus (cs : List Char) : ∃ (negative : Bool) (rest : List Char),
    cs = (if negative then ['-'] else []) ++ rest ∧ (negative = false → ∀ c ∈ rest.head?, c ≠ '-') := by
  cases cs with
  | nil => exact ⟨false, [], rfl, fun _ => nofun⟩
  | cons c rest =>
    by_cases hminus : c = '-'
    · subst hminus
      exact ⟨true, rest, rfl, nofun⟩
    · refine ⟨false, c :: rest, rfl, fun _ => ?_⟩
      rintro d ⟨⟩
      exact hminus

/-- **A numeral is what the grammar spells.** -/
theorem parse?_iff : parse? cs = some t ↔ Spells cs t := by
  constructor
  -- sign, whole digits, fraction and exponent, each as far as it goes
  · intro h
    obtain ⟨negative, rest, rfl, hsign⟩ := exists_minus cs
    rw [parse?_sign negative hsign] at h
    split at h
    · cases h
    · rename_i hwhole
      rw [Bool.or_eq_true, not_or, Bool.not_eq_true] at hwhole
      obtain ⟨w, hw, hspells⟩ := exists_of_takeDigits (Prod.eta _).symm hwhole.1
      obtain ⟨f, e, fraction, exponent, hrest, hf, he, rfl⟩ := parseRest?_iff.mp h
      rw [hrest] at hw
      have hzero : (takeDigits rest).1.head? = some 0 → (takeDigits rest).1.length = 1 := by
        intro hhead
        refine Decidable.byContradiction fun hlength => hwhole.2 ?_
        rw [Bool.and_eq_true, decide_eq_true_eq, bne_iff_ne]
        exact ⟨hhead, hlength⟩
      generalize (takeDigits rest).1 = whole at hspells hzero
      rw [hw]
      exact .mk negative hspells hzero hf he
  · intro h
    cases h with
    | @mk negative w f e whole fraction exponent hwhole hzero hf he =>
      have hsign : ∀ c ∈ (w ++ (f ++ e)).head?, c ≠ '-' := by
        obtain ⟨d, more, rfl⟩ := List.exists_cons_of_ne_nil hwhole.nonempty
        rintro c ⟨⟩
        exact (hwhole.signless d rfl).1
      have hone : ¬ (whole.isEmpty || (whole.head? = some 0 && whole.length != 1)) = true := by
        rw [hwhole.isEmpty, Bool.false_or, Bool.and_eq_true, decide_eq_true_eq, bne_iff_ne]
        exact fun h => h.2 (hzero h.1)
      rw [parse?_sign negative fun _ => hsign, takeDigits_append hwhole (hf.noDigit he)]
      dsimp only
      rw [if_neg hone]
      exact parseRest?_iff.mpr ⟨_, _, _, _, rfl, hf, he, rfl⟩

/-- The characters of a numeral are those of a word. -/
theorem Spells.isWordPart (h : Spells cs t) : ∀ c ∈ cs, Json.isWordPart c = true := by
  -- digits are word parts, and so are signs, the point and the letter
  have hdigits : ∀ {w : List Char} {ds : List Nat}, SpellsDigits w ds → ∀ c ∈ w, Json.isWordPart c = true := by
    intro w ds hw c hc
    rw [Json.isWordPart, Char.isAlphanum, hw.digits c hc, Bool.or_true, Bool.true_or, Bool.true_or, Bool.true_or]
  cases h with
  | mk negative hwhole hzero hf he =>
    intro c hc
    rcases List.mem_append.mp hc with hc | hc
    · cases negative with
      | true =>
        cases List.mem_singleton.mp hc
        rfl
      | false => cases hc
    rcases List.mem_append.mp hc with hc | hc
    · exact hdigits hwhole c hc
    rcases List.mem_append.mp hc with hc | hc
    · cases hf with
      | none => cases hc
      | some hw =>
        rcases List.mem_cons.mp hc with rfl | hc
        · rfl
        · exact hdigits hw c hc
    · cases he with
      | none => cases hc
      | some hletter hsign hw =>
        rcases List.mem_cons.mp hc with rfl | hc
        · rcases hletter with rfl | rfl <;> rfl
        rcases List.mem_append.mp hc with hc | hc
        · cases hsign with
          | none => cases hc
          | plus | minus =>
            cases List.mem_singleton.mp hc
            rfl
        · exact hdigits hw c hc

/-- A numeral has at least one character. -/
theorem Spells.ne_nil (h : Spells cs t) : cs ≠ [] := by
  cases h with
  | mk negative hwhole =>
    exact List.append_ne_nil_of_right_ne_nil _ (List.append_ne_nil_of_left_ne_nil hwhole.nonempty _)

/-! ## Integers

  An integer in base ten, with its value as a word.  Digits are absorbed as long as the value fits, and those of a
  number that fits are absorbed to the last. -/

/-- The numeral of an integer, in base ten. -/
def integer (negative : Bool) (n : Nat) : NumeralText := ⟨negative, (Nat.toDigits 10 n).map digitOf, none, none⟩

variable {n : Nat}

/-- The digit of a digit's character is the digit. -/
theorem digitOf_digitChar (h : n < 10) : digitOf (Nat.digitChar n) = n := by
  have hall : ∀ m : Fin 10, digitOf (Nat.digitChar m) = m := by decide
  exact hall ⟨n, h⟩

/-- No zero leads but that of the number zero. -/
theorem head?_toDigits (hn : n ≠ 0) : ∀ c ∈ (Nat.toDigits 10 n).head?, digitOf c ≠ 0 := by
  induction n using Nat.strongRecOn with
  | _ n ih =>
    by_cases hlt : n < 10
    · rw [Nat.toDigits_of_lt_base hlt]
      rintro c ⟨⟩
      rwa [digitOf_digitChar hlt]
    · have hleading := ih (n / 10) (by omega) (by omega)
      rw [Nat.toDigits_of_base_le (by decide) (Nat.not_lt.mp hlt)]
      obtain ⟨d, more, hdigits⟩ := List.exists_cons_of_ne_nil (Nat.toDigits_ne_nil (n := n / 10) (b := 10))
      rw [hdigits] at hleading ⊢
      exact hleading

/-- The digits of a number spell it. -/
theorem spells_integer (negative : Bool) (n : Nat) :
    Spells ((if negative then ['-'] else []) ++ Nat.toDigits 10 n) (integer negative n) := by
  have hwhole : SpellsDigits (Nat.toDigits 10 n) ((Nat.toDigits 10 n).map digitOf) :=
    ⟨Nat.toDigits_ne_nil, fun _ hc => Nat.isDigit_of_mem_toDigits (by decide) (by decide) hc, rfl⟩
  -- a numeral does not begin with a zero unless it is zero
  have hzero : ((Nat.toDigits 10 n).map digitOf).head? = some 0 → ((Nat.toDigits 10 n).map digitOf).length = 1 := by
    intro hhead
    rw [List.head?_map, Option.map_eq_some_iff] at hhead
    obtain ⟨c, hc, hzero⟩ := hhead
    by_cases hn : n = 0
    · subst hn
      rfl
    · exact absurd hzero (head?_toDigits hn c hc)
  have hspells := Spells.mk negative hwhole hzero .none .none
  rwa [List.append_nil, List.append_nil] at hspells

/-- Digits are taken to the last as long as their value fits a word. -/
theorem absorb_of_foldl_le {significand : Nat} (h : ds.foldl (fun v d => v * 10 + d) significand ≤ maxWord) :
    absorb significand ds = (ds.foldl (fun v d => v * 10 + d) significand, []) := by
  -- the value only grows with its digits, so no part of it is beyond the bound
  have hgrows : ∀ (ds : List Nat) (v : Nat), v ≤ ds.foldl (fun v d => v * 10 + d) v := by
    intro ds
    induction ds with
    | nil => exact Nat.le_refl
    | cons d rest ih =>
      intro v
      have hrest := ih (v * 10 + d)
      rw [List.foldl_cons]
      omega
  induction ds generalizing significand with
  | nil => rfl
  | cons d rest ih =>
    rw [List.foldl_cons] at h
    rw [absorb, if_pos (Nat.le_trans (hgrows rest _) h), ih h, List.foldl_cons]

/-- A number that fits in a word is absorbed whole. -/
theorem absorb_toDigits (h : n ≤ maxWord) : absorb 0 ((Nat.toDigits 10 n).map digitOf) = (n, []) := by
  have hvalue : ((Nat.toDigits 10 n).map digitOf).foldl (fun v d => v * 10 + d) 0 = n := by
    have hstep : (fun (v : Nat) c => v * 10 + digitOf c) = fun v c => 10 * v + (c.toNat - '0'.toNat) := by
      funext v c
      rw [Nat.mul_comm]
      rfl
    rw [List.foldl_map, hstep]
    exact Nat.ofDigitChars_toDigits (by decide) (by decide)
  rw [absorb_of_foldl_le (by rwa [hvalue]), hvalue]

/-- Its numeral has it as value. -/
theorem value?_integer_of_le (h : n ≤ maxWord) : (integer false n).value? = some (.natural n) := by
  rw [value?, integer, absorb_toDigits h]
  rfl

/-- So has the one with a minus, down to the least. -/
theorem value?_integer_of_pos (hpos : n ≠ 0) (h : n ≤ Nat.pow 2 63) : (integer true n).value? = some (.negative n) := by
  have hword : n ≤ maxWord := Nat.le_trans h (by decide)
  have hfits : (n != 0 && decide (n ≤ Nat.pow 2 63)) = true := by
    rw [Bool.and_eq_true, bne_iff_ne, decide_eq_true_eq]
    exact ⟨hpos, h⟩
  rw [value?, integer, absorb_toDigits hword]
  dsimp only
  rw [if_neg (by decide), if_neg (by decide), if_pos hfits]

end NumeralText

end Wheelwright
