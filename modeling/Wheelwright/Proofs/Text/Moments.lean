/-
  Moments are read back as they were written.

  **Specification** — `parse? t.text = some t` for every moment of a year in range, leap seconds included, and every
  moment that is read is such a moment.

  **Program** — the calendar first (`civil_spec`): the day number of the date that stands for a day is that day.  Then
  the text field by field: digits are read up to the mark that follows them.

  **The crux** — the year of a day is found by one division, of which 400 years are checked at their first and their
  last day; all days between them follow because the quotient never falls (`yearOfDay_mono`).
-/
import Mathlib.Algebra.GroupWithZero.Nat
import Mathlib.Order.Monotone.Basic
import Mathlib.Tactic.SplitIfs
import Wheelwright.Timestamp

namespace Wheelwright.Timestamp

/-! ## The calendar

  Four hundred years are the same number of days each time, so a day is first put into one of these.  Within them
  years, months and days are found by divisions, and each division is checked at the ends of what it tells apart. -/

/-- The year, from March to February, of a day of 400 years. -/
def yearOfDay (n : Nat) : Nat := (n - n / 1460 + n / 36524 - n / 146096) / 365

/-- The first day of a year of 400. -/
def yearStart (y : Nat) : Nat := 365 * y + y / 4 - y / 100

/-- Later days are in later years, or in the same. -/
theorem yearOfDay_mono : Monotone yearOfDay := by
  apply monotone_nat_of_le_succ
  intro n
  unfold yearOfDay
  omega

/-- The first and the last day of a year are in it. -/
theorem yearOfDay_ends : ∀ y : Fin 400, yearOfDay (yearStart y) = y ∧ yearOfDay (yearStart (y + 1) - 1) = y := by
  decide +kernel

/-- A year has 365 days, or 366 when it ends in a leap year. -/
theorem yearStart_succ (y : Nat) : yearStart (y + 1) ≤ yearStart y + 365 ∨
    yearStart (y + 1) = yearStart y + 366 ∧ (y + 1) % 4 = 0 ∧ (y + 1) % 100 ≠ 0 := by
  have hfour : (y + 1) / 4 = y / 4 ∨ (y + 1) / 4 = y / 4 + 1 ∧ (y + 1) % 4 = 0 := by omega
  have hhundred : (y + 1) / 100 = y / 100 ∧ (y + 1) % 100 ≠ 0 ∨ (y + 1) / 100 = y / 100 + 1 := by omega
  have hle : y / 100 ≤ y := Nat.div_le_self y 100
  unfold yearStart
  omega

/-- The days of a year lie between its first day and the next year's. -/
theorem yearOfDay_bounds {n : Nat} (h : n < 146096) :
    yearOfDay n < 400 ∧ yearStart (yearOfDay n) ≤ n ∧ n < yearStart (yearOfDay n + 1) := by
  have hlt : yearOfDay n < 400 := by
    have hle : yearOfDay n ≤ yearOfDay 146095 := yearOfDay_mono (Nat.le_of_lt_succ h)
    have hlast : yearOfDay 146095 = 399 := rfl
    omega
  refine ⟨hlt, Nat.le_of_not_lt fun hlow => ?_, Nat.lt_of_not_le fun hhigh => ?_⟩
  · -- a day before the first of its year would be one of the year before
    obtain ⟨y, hy⟩ : ∃ y, yearOfDay n = y + 1 := by
      refine Nat.exists_eq_succ_of_ne_zero fun hzero => ?_
      rw [hzero] at hlow
      exact Nat.not_lt_zero n hlow
    have hbefore := (yearOfDay_ends ⟨y, by omega⟩).2
    have hle : yearOfDay n ≤ yearOfDay (yearStart (y + 1) - 1) := yearOfDay_mono (by rw [hy] at hlow; omega)
    dsimp only at hbefore
    omega
  · by_cases hlast : yearOfDay n = 399
    · rw [hlast, show yearStart (399 + 1) = 146096 from rfl] at hhigh
      omega
    · have hnext := (yearOfDay_ends ⟨yearOfDay n + 1, by omega⟩).1
      have hle : yearOfDay (yearStart (yearOfDay n + 1)) ≤ yearOfDay n := yearOfDay_mono hhigh
      dsimp only at hnext
      omega

/-- The place of a day in its year: the last of 366 days is the 29th of a leap year's February. -/
theorem dayOfYear_bounds {n : Nat} (h : n < 146097) :
    yearOfDay n < 400 ∧ yearStart (yearOfDay n) ≤ n ∧ (n - yearStart (yearOfDay n) < 365 ∨
      n - yearStart (yearOfDay n) = 365 ∧ (yearOfDay n + 1) % 4 = 0 ∧
        ((yearOfDay n + 1) % 100 ≠ 0 ∨ (yearOfDay n + 1) % 400 = 0)) := by
  by_cases hlast : n = 146096
  · subst hlast
    exact ⟨by decide, by decide, Or.inr ⟨by decide, by decide, Or.inr (by decide)⟩⟩
  · obtain ⟨hlt, hlow, hhigh⟩ := yearOfDay_bounds (show n < 146096 by omega)
    obtain hshort | ⟨hlong, hfour, hhundred⟩ := yearStart_succ (yearOfDay n)
    · exact ⟨hlt, hlow, Or.inl (by omega)⟩
    · exact ⟨hlt, hlow, by omega⟩

/-- The month, counted from March, of a day of a year. -/
def monthOfDay (k : Nat) : Nat := (5 * k + 2) / 153

/-- The first day of a month, counted from March. -/
def monthStart (mp : Nat) : Nat := (153 * mp + 2) / 5

/-- The number of days of a month, counted from March, in a year that has no leap day. -/
def monthLength (mp : Nat) : Nat :=
  if mp = 11 then 28 else if mp = 1 ∨ mp = 3 ∨ mp = 6 ∨ mp = 8 then 30 else 31

/-- A day of a year lies in its month. -/
theorem monthOfDay_bounds : ∀ k : Fin 366, monthOfDay k < 12 ∧ monthStart (monthOfDay k) ≤ k.val ∧
    (k.val < 365 → k.val - monthStart (monthOfDay k) < monthLength (monthOfDay k)) := by
  intro k
  have hk := k.isLt
  unfold monthStart monthLength monthOfDay
  refine ⟨by omega, by omega, fun h => ?_⟩
  split_ifs <;> omega

/-- The months from March on are not longer than those of the calendar. -/
theorem monthLength_le {mp m : Nat} (y : Int) (hmp : mp < 12) (hm : m = if mp < 10 then mp + 3 else mp - 9) :
    monthLength mp ≤ daysInMonth y m := by
  unfold monthLength daysInMonth
  simp only [Bool.or_eq_true, decide_eq_true_eq]
  split_ifs at * <;> omega

/-- The day number of a date, by the years and days of its 400 years. -/
theorem dayNumber_eq {y era : Int} {yoe m mp k : Nat} (hyoe : yoe < 400)
    (hy : (if m ≤ 2 then y - 1 else y) = (yoe : Int) + era * 400) (hm : (m + 9) % 12 = mp) :
    dayNumber y m (k + 1) = era * 146097 + ((yearStart yoe + monthStart mp + k : Nat) : Int) := by
  have hfour : ((yoe : Int) + era * 400) / 4 = (yoe / 4 : Nat) + era * 100 := by omega
  have hhundred : ((yoe : Int) + era * 400) / 100 = (yoe / 100 : Nat) + era * 4 := by omega
  have hwhole : ((yoe : Int) + era * 400) / 400 = era := by omega
  have hyear : (yearStart yoe : Int) = 365 * yoe + (yoe / 4 : Nat) - (yoe / 100 : Nat) := by
    unfold yearStart
    omega
  have hmonth : (monthStart mp : Int) = (153 * mp + 2) / 5 := by
    unfold monthStart
    omega
  rw [dayNumber]
  simp only [hm, hy, hfour, hhundred, hwhole, ← hmonth]
  omega

/-- **The date of a day is a date of the calendar, and its day number is the day.** -/
theorem civil_spec (n : Int) {y : Int} {m d : Nat} (h : civil n = (y, m, d)) :
    (1 ≤ m ∧ m ≤ 12) ∧ (1 ≤ d ∧ d ≤ daysInMonth y m) ∧ dayNumber y m d = n := by
  -- the 400 years, the day in them, the year in them, the day in it, and the month
  obtain ⟨era, hera⟩ : ∃ era, n / 146097 = era := ⟨_, rfl⟩
  obtain ⟨doe, hdoe⟩ : ∃ doe, (n % 146097).toNat = doe := ⟨_, rfl⟩
  obtain ⟨hlt, hlow, hday⟩ := dayOfYear_bounds (show doe < 146097 by omega)
  obtain ⟨yoe, hyoe⟩ : ∃ yoe, yearOfDay doe = yoe := ⟨_, rfl⟩
  obtain ⟨doy, hdoy⟩ : ∃ doy, doe - yearStart yoe = doy := ⟨_, rfl⟩
  obtain ⟨mp, hmp⟩ : ∃ mp, monthOfDay doy = mp := ⟨_, rfl⟩
  rw [hyoe] at hlt hlow hday
  rw [hdoy] at hday
  obtain ⟨hlt12, hstart, hlen⟩ := monthOfDay_bounds ⟨doy, by omega⟩
  dsimp only at hlt12 hstart hlen
  rw [hmp] at hlt12 hstart hlen
  have hparts : m = (if mp < 10 then mp + 3 else mp - 9) ∧ d = doy - monthStart mp + 1 ∧
      y = if m ≤ 2 then (yoe : Int) + era * 400 + 1 else (yoe : Int) + era * 400 := by
    have hcivil : civil n = (if (if mp < 10 then mp + 3 else mp - 9) ≤ 2 then (yoe : Int) + era * 400 + 1
        else (yoe : Int) + era * 400, if mp < 10 then mp + 3 else mp - 9, doy - monthStart mp + 1) := by
      subst hera hdoe hyoe hdoy hmp
      rfl
    rw [hcivil] at h
    cases h
    exact ⟨rfl, rfl, rfl⟩
  obtain ⟨hm, hd, hy⟩ := hparts
  have hrange : 1 ≤ m ∧ m ≤ 12 := by
    rw [hm]
    split <;> omega
  refine ⟨hrange, ⟨by omega, ?_⟩, ?_⟩
  -- the day is in its month, where only the leap day is beyond the usual length
  · rcases hday with hshort | ⟨hlast, hfour, hhundred⟩
    · have hfits := monthLength_le y hlt12 hm
      have hlen := hlen hshort
      omega
    · -- the leap day
      subst hlast
      have h11 : mp = 11 := by rw [← hmp]; rfl
      subst h11
      have hm2 : m = 2 := hm
      rw [hm2, if_pos (Nat.le_refl 2)] at hy
      have hleap : isLeapYear y = true := by
        rw [isLeapYear]
        simp only [Bool.and_eq_true, Bool.or_eq_true, decide_eq_true_eq, bne_iff_ne]
        omega
      rw [hm2, daysInMonth, hleap, hd]
      decide
  -- the parts give the day back
  · have hmonth : (m + 9) % 12 = mp := by
      rw [hm]
      split <;> omega
    have hyear : (if m ≤ 2 then y - 1 else y) = (yoe : Int) + era * 400 := by
      rw [hy]
      split <;> omega
    rw [hd, dayNumber_eq hlt hyear hmonth]
    omega

/-! ## Digits

  A number is written with zeros in front up to its width, and read up to the first character that is no digit. -/

variable {cs rest more : List Char} {n k width : Nat}

/-- The digits of a padded number. -/
theorem toList_padDecimal (width n : Nat) : (padDecimal width n).toList =
    List.replicate (width - (Nat.toDigits 10 n).length) '0' ++ Nat.toDigits 10 n := by
  rw [padDecimal, Nat.toString_eq_repr, String.toList_append, Nat.toList_repr, String.toList_ofList,
    ← String.length_toList, Nat.toList_repr]

/-- A padded number has nothing but digits. -/
theorem isDigit_of_mem_padDecimal {c : Char} (h : c ∈ (padDecimal width n).toList) : c.isDigit = true := by
  rw [toList_padDecimal, List.mem_append] at h
  rcases h with h | h
  · rw [List.eq_of_mem_replicate h]
    rfl
  · exact Nat.isDigit_of_mem_toDigits (by decide) (by decide) h

/-- It is as long as its width if the number fits. -/
theorem length_padDecimal (hwidth : 0 < width) (h : n < 10 ^ width) : (padDecimal width n).toList.length = width := by
  have hle : (Nat.toDigits 10 n).length ≤ width := (Nat.length_toDigits_le_iff (by decide) hwidth).mpr h
  rw [toList_padDecimal, List.length_append, List.length_replicate]
  omega

/-- Its value is the number. -/
theorem decimalValue_padDecimal (width n : Nat) : decimalValue (padDecimal width n).toList = some n := by
  -- the digits stand behind zeros, which add nothing
  have hall : (padDecimal width n).toList.all Char.isDigit = true :=
    List.all_eq_true.mpr fun c hc => isDigit_of_mem_padDecimal hc
  have hne : (padDecimal width n).toList ≠ [] := by
    rw [toList_padDecimal]
    exact List.append_ne_nil_of_right_ne_nil _ Nat.toDigits_ne_nil
  have hzeros (k : Nat) : (List.replicate k '0').foldl (fun n c => 10 * n + (c.toNat - 48)) 0 = 0 := by
    induction k with
    | zero => rfl
    | succ k ih => exact ih
  have hvalue : (padDecimal width n).toList.foldl (fun n c => 10 * n + (c.toNat - 48)) 0 = n := by
    rw [toList_padDecimal, List.foldl_append, hzeros]
    exact Nat.ofDigitChars_toDigits (by decide) (by decide)
  rw [decimalValue, if_pos hall, hvalue]
  exact hne

/-- Nothing more is read of what follows a number. -/
def Stops (rest : List Char) : Prop := ∀ c ∈ rest.head?, c.isDigit = false

/-- No digit is taken from such a rest. -/
theorem takeWhile_eq_nil_of_stops (h : Stops rest) : rest.takeWhile Char.isDigit = [] := by
  cases rest with
  | nil => rfl
  | cons c more => rw [List.takeWhile_cons, h c rfl, if_neg Bool.false_ne_true]

/-- A part of it is as good. -/
theorem Stops.take (h : Stops rest) (k : Nat) : Stops (rest.take k) := by
  intro c hc
  rw [List.head?_take] at hc
  split at hc
  · cases hc
  · exact h c hc

/-- All of it is dropped. -/
theorem dropWhile_of_stops (h : Stops rest) : rest.dropWhile Char.isDigit = rest := by
  cases rest with
  | nil => rfl
  | cons c more => rw [List.dropWhile_cons, h c rfl, if_neg Bool.false_ne_true]

/-- A number that fills its width, or that something else follows, is taken whole. -/
theorem takeWhile_padDecimal (hk : (padDecimal width n).toList.length ≤ k)
    (hrest : (padDecimal width n).toList.length = k ∨ Stops rest) :
    (((padDecimal width n).toList ++ rest).take k).takeWhile Char.isDigit = (padDecimal width n).toList := by
  have hstops : Stops (rest.take (k - (padDecimal width n).toList.length)) := by
    rcases hrest with hfull | hrest
    · rw [hfull, Nat.sub_self, List.take_zero]
      exact fun c hc => by cases hc
    · exact hrest.take _
  rw [List.take_append, List.take_of_length_le hk,
    List.takeWhile_append_of_pos fun c hc => isDigit_of_mem_padDecimal hc, takeWhile_eq_nil_of_stops hstops,
    List.append_nil]

/-- A padded number is read, and the rest is left. -/
theorem number?_padDecimal (hk : (padDecimal width n).toList.length ≤ k)
    (hrest : (padDecimal width n).toList.length = k ∨ Stops rest) :
    number? k ((padDecimal width n).toList ++ rest) = some (n, rest) := by
  rw [number?, takeWhile_padDecimal hk hrest, decimalValue_padDecimal]
  simp only [Option.map_some, List.drop_left']

/-! ## Fields

  The fields of a moment one by one, each with the text that may follow it. -/

/-- A digit is no blank. -/
theorem isBlank_of_isDigit {c : Char} (h : c.isDigit = true) : isBlank c = false := by
  have hrange : 48 ≤ c.toNat ∧ c.toNat ≤ 57 := by
    rw [Char.isDigit, Bool.and_eq_true, decide_eq_true_eq, decide_eq_true_eq] at h
    exact h
  have hdigits : ∀ k : Fin 10, isBlank (Char.ofNat (48 + k)) = false := by decide
  have hc := hdigits ⟨c.toNat - 48, by omega⟩
  rwa [Nat.add_sub_cancel' hrange.1, Char.ofNat_toNat] at hc

/-- Where there is no blank, none is skipped. -/
theorem skipBlanks_cons {c : Char} (h : isBlank c = false) : skipBlanks (c :: rest) = c :: rest := by
  rw [skipBlanks, List.dropWhile_cons, h, if_neg Bool.false_ne_true]

/-- A padded number begins with a digit. -/
theorem exists_cons_padDecimal (width n : Nat) :
    ∃ d ds, (padDecimal width n).toList = d :: ds ∧ d.isDigit = true := by
  cases hcs : (padDecimal width n).toList with
  | nil =>
    have hvalue := decimalValue_padDecimal width n
    rw [hcs] at hvalue
    cases hvalue
  | cons d ds => exact ⟨d, ds, rfl, isDigit_of_mem_padDecimal (by rw [hcs]; exact List.mem_cons_self)⟩

/-- A field of two digits is read. -/
theorem field?_padDecimal (h : n < 100) : field? 2 ((padDecimal 2 n).toList ++ rest) = some (n, rest) := by
  have hlength : (padDecimal 2 n).toList.length = 2 := length_padDecimal (by decide) h
  have hnumber : number? 2 ((padDecimal 2 n).toList ++ rest) = some (n, rest) :=
    number?_padDecimal (Nat.le_of_eq hlength) (Or.inl hlength)
  obtain ⟨d, ds, hcs, hd⟩ := exists_cons_padDecimal 2 n
  rw [hcs, List.cons_append] at hnumber ⊢
  rw [field?, skipBlanks_cons (isBlank_of_isDigit hd), hnumber]

/-- A mark that stands there is passed. -/
theorem mark?_cons {c : Char} (h : isBlank c = false) : mark? c (c :: rest) = some rest := by
  rw [mark?, skipBlanks_cons h]
  exact if_pos rfl

/-- After a minus there is a number of any length. -/
theorem year?_minus : year? ('-' :: cs) = (number? cs.length cs).map fun x => (-(x.1 : Int), x.2) := by
  rw [year?, skipBlanks_cons rfl]
  rfl

/-- So there is after a plus. -/
theorem year?_plus : year? ('+' :: cs) = (number? cs.length cs).map fun x => ((x.1 : Int), x.2) := by
  rw [year?, skipBlanks_cons rfl]
  rfl

theorem year?_yearText (y : Int) (hrest : Stops rest) : year? ((yearText y).toList ++ rest) = some (y, rest) := by
  -- a year of four digits has no sign, and any other has one
  have hsigned : number? ((padDecimal 4 y.natAbs).toList ++ rest).length ((padDecimal 4 y.natAbs).toList ++ rest) =
      some (y.natAbs, rest) :=
    number?_padDecimal (by rw [List.length_append]; omega) (Or.inr hrest)
  rw [yearText]
  split
  · rename_i hplain
    have hrange : 0 ≤ y ∧ y ≤ 9999 := by
      rwa [Bool.and_eq_true, decide_eq_true_eq, decide_eq_true_eq] at hplain
    have hlength : (padDecimal 4 y.toNat).toList.length = 4 := length_padDecimal (by decide) (by omega)
    have hnumber : number? 4 ((padDecimal 4 y.toNat).toList ++ rest) = some (y.toNat, rest) :=
      number?_padDecimal (Nat.le_of_eq hlength) (Or.inl hlength)
    obtain ⟨d, ds, hcs, hd⟩ := exists_cons_padDecimal 4 y.toNat
    have hminus : d ≠ '-' := by rintro rfl; cases hd
    have hplus : d ≠ '+' := by rintro rfl; cases hd
    rw [hcs, List.cons_append] at hnumber ⊢
    rw [year?, skipBlanks_cons (isBlank_of_isDigit hd)]
    split
    · rename_i heq
      exact absurd (List.cons.inj heq).1 hminus
    · rename_i heq
      exact absurd (List.cons.inj heq).1 hplus
    · rw [hnumber]
      simp only [Option.map_some, Int.toNat_of_nonneg hrange.1]
  · rename_i hsign
    have hrange : ¬ (0 ≤ y ∧ y ≤ 9999) := by
      rwa [Bool.and_eq_true, decide_eq_true_eq, decide_eq_true_eq] at hsign
    rw [String.toList_append, List.append_assoc]
    split
    · rw [show "-".toList = ['-'] from rfl, List.singleton_append, year?_minus, hsigned, Option.map_some]
      rw [show -(y.natAbs : Int) = y by omega]
    · rw [show "+".toList = ['+'] from rfl, List.singleton_append, year?_plus, hsigned, Option.map_some]
      rw [show (y.natAbs : Int) = y by omega]

/-- A fraction of `width` digits is read as so many nanoseconds. -/
theorem fraction?_padDecimal (hwidth : 0 < width) (hle : width ≤ 9) (h : n < 10 ^ width) (hrest : Stops rest) :
    fraction? (("." ++ padDecimal width n).toList ++ rest) = some (n * 10 ^ (9 - width), rest) := by
  have hlength := length_padDecimal hwidth h
  have hnumber : number? 9 ((padDecimal width n).toList ++ rest) = some (n, rest) :=
    number?_padDecimal (by omega) (Or.inr hrest)
  have hread : ((((padDecimal width n).toList ++ rest).take 9).takeWhile Char.isDigit).length = width := by
    rw [takeWhile_padDecimal (by omega) (Or.inr hrest), hlength]
  have hafter : ((padDecimal width n).toList ++ rest).dropWhile Char.isDigit = rest := by
    rw [List.dropWhile_append_of_pos fun c hc => isDigit_of_mem_padDecimal hc, dropWhile_of_stops hrest]
  rw [String.toList_append, show ".".toList = ['.'] from rfl, List.append_assoc, List.singleton_append, fraction?]
  simp only [hnumber, hread, hafter, Option.bind_eq_bind, Option.bind_some]
  rfl

/-- The fraction of a second is read back. -/
theorem fraction?_fractionText (h : n < 1000000000) :
    fraction? ((fractionText n).toList ++ ['Z']) = some (n, ['Z']) := by
  -- the fraction has no digits, or three, six or nine
  have hrest : Stops ['Z'] := by
    intro c hc
    cases hc
    rfl
  rw [fractionText]
  split
  · rename_i hzero
    rw [hzero]
    rfl
  · split
    · rw [fraction?_padDecimal (by decide) (by decide) (by omega) hrest]
      rw [show n / 1000000 * 10 ^ (9 - 3) = n by omega]
    · split
      · rw [fraction?_padDecimal (by decide) (by decide) (by omega) hrest]
        rw [show n / 1000 * 10 ^ (9 - 6) = n by omega]
      · rw [fraction?_padDecimal (by decide) (by decide) h hrest]
        rw [show n * 10 ^ (9 - 9) = n by omega]

/-! ## Moments

  All fields together.  The last second of a minute may be a leap second, which is written as the sixtieth. -/

/-- A second of a day of a year in range; only the last second of a minute can be a leap second. -/
structure IsMoment (t : Timestamp) : Prop where
  /-- Its year can be written. -/
  year : inRange (civil t.day).1 = true
  /-- Its time is one of a day. -/
  second : t.second < 86400
  /-- A second is as long as it should be, or there is a leap second at the end of a minute. -/
  nanos : t.nanos < 1000000000 ∨ t.nanos < 2000000000 ∧ t.second % 60 = 59

/-- The first part of a reading that is known. -/
theorem bind_of_eq_some {α β : Type} {x : Option α} {a : α} {f : α → Option β} (h : x = some a) : (x >>= f) = f a := by
  rw [h]
  rfl

/-- The parts of a moment's text, read in their order. -/
theorem parse?_parts {y : Int} {mo d h mi s nanos : Nat} (hmo : mo < 100) (hd : d < 100) (hh : h < 100)
    (hmi : mi < 100) (hs : s < 100) (hnanos : nanos < 1000000000) :
    parse? (yearText y ++ "-" ++ padDecimal 2 mo ++ "-" ++ padDecimal 2 d ++ "T" ++ padDecimal 2 h ++ ":" ++
      padDecimal 2 mi ++ ":" ++ padDecimal 2 s ++ fractionText nanos ++ "Z") = ofParts? y mo d h mi s nanos 0 := by
  -- each part is read up to the mark behind it
  have hdash (rest : List Char) : Stops ('-' :: rest) := by
    intro c hc
    cases hc
    rfl
  have hminus : "-".toList = ['-'] := rfl
  have hcolon : ":".toList = [':'] := rfl
  have htee : "T".toList = ['T'] := rfl
  have hzulu : "Z".toList = ['Z'] := rfl
  have hoffset : offset? ['Z'] = some (0, []) := rfl
  rw [parse?]
  simp only [String.toList_append, List.append_assoc, hminus, hcolon, htee, hzulu, List.cons_append, List.nil_append]
  refine (bind_of_eq_some (year?_yearText y (hdash _))).trans ?_
  refine (bind_of_eq_some (mark?_cons rfl)).trans ?_
  refine (bind_of_eq_some (field?_padDecimal hmo)).trans ?_
  refine (bind_of_eq_some (mark?_cons rfl)).trans ?_
  refine (bind_of_eq_some (field?_padDecimal hd)).trans ?_
  refine (bind_of_eq_some rfl).trans ?_
  refine (bind_of_eq_some (field?_padDecimal hh)).trans ?_
  refine (bind_of_eq_some (mark?_cons rfl)).trans ?_
  refine (bind_of_eq_some (field?_padDecimal hmi)).trans ?_
  refine (bind_of_eq_some (mark?_cons rfl)).trans ?_
  refine (bind_of_eq_some (field?_padDecimal hs)).trans ?_
  refine (bind_of_eq_some (fraction?_fractionText hnanos)).trans ?_
  exact bind_of_eq_some hoffset

/-- The moment of a date and a time of day in universal time. -/
theorem ofParts?_zulu {n y : Int} {mo d h mi s nanos : Nat} (hcivil : civil n = (y, mo, d)) (hyear : inRange y = true)
    (hh : h < 24) (hmi : mi < 60) (hs : s ≤ 60) :
    ofParts? y mo d h mi s nanos 0 = some ⟨n, h * 3600 + mi * 60 + (if s = 60 then 59 else s),
      nanos + if s = 60 then 1000000000 else 0⟩ := by
  obtain ⟨hmo, hd, hday⟩ := civil_spec n hcivil
  obtain ⟨seconds, hseconds⟩ : ∃ seconds, h * 3600 + mi * 60 + (if s = 60 then 59 else s) = seconds := ⟨_, rfl⟩
  have hlt : seconds < 86400 := by
    rw [← hseconds]
    split <;> omega
  -- the day is not changed by an offset of zero
  have htotal : (n * 86400 + (seconds : Int) - 0) / 86400 = n := by omega
  have hrest : ((n * 86400 + (seconds : Int) - 0) % 86400).toNat = seconds := by omega
  have hdate : (inRange y && 1 ≤ mo && mo ≤ 12 && 1 ≤ d && d ≤ daysInMonth y mo) = true := by
    simp only [hyear, hmo, hd, decide_true, Bool.and_self]
  have htime : (h < 24 && mi < 60 && s ≤ 60 : Bool) = true := by
    simp only [hh, hmi, hs, decide_true, Bool.and_self]
  rw [ofParts?, hdate, htime, hday]
  simp only [hseconds, htotal, hrest, hcivil, hyear]
  rfl

/-- **A moment is read back as it was written.** -/
theorem parse?_text {t : Timestamp} (h : t.IsMoment) : parse? t.text = some t := by
  obtain ⟨day, second, nanos⟩ := t
  obtain ⟨hyear, hsecond, hnanos⟩ := h
  dsimp only at hyear hsecond hnanos
  obtain ⟨y, mo, d, hcivil⟩ : ∃ y mo d, civil day = (y, mo, d) := ⟨_, _, _, rfl⟩
  obtain ⟨hmo, hd, -⟩ := civil_spec day hcivil
  have hd31 : daysInMonth y mo ≤ 31 := by
    unfold daysInMonth
    split_ifs <;> omega
  rw [hcivil] at hyear
  rw [text, hcivil]
  dsimp only
  rw [parse?_parts (by omega) (by omega) (by omega) (by omega) (by split <;> omega) (by split <;> omega),
    ofParts?_zulu hcivil hyear (by omega) (by omega) (by split <;> omega)]
  -- a leap second is written as the sixtieth, and read as one that is too long
  by_cases hleap : 1000000000 ≤ nanos
  · have h60 : second % 60 + 1 = 60 := by omega
    simp only [if_pos hleap, h60, if_true, Option.some.injEq, Timestamp.mk.injEq, true_and]
    omega
  · have h60 : second % 60 + 0 ≠ 60 := by omega
    simp only [if_neg hleap, if_neg h60, Option.some.injEq, Timestamp.mk.injEq, true_and]
    omega

/-! ## What is read

  In the other direction: whatever is read is a moment of the calendar, with less than a second of fraction. -/

/-- The value of digits is below the power of ten for their number. -/
theorem foldl_digits_lt (cs : List Char) (k : Nat) (hcs : ∀ c ∈ cs, c.isDigit = true) :
    cs.foldl (fun n c => 10 * n + (c.toNat - 48)) k < (k + 1) * 10 ^ cs.length := by
  -- on the digits, each of which makes the bound ten times as large
  induction cs generalizing k with
  | nil =>
    show k < (k + 1) * 10 ^ 0
    omega
  | cons c rest ih =>
    have hc : c.toNat - 48 ≤ 9 := by
      have hdigit := hcs c List.mem_cons_self
      rw [Char.isDigit, Bool.and_eq_true, decide_eq_true_eq, decide_eq_true_eq] at hdigit
      have hle : c.toNat ≤ 57 := hdigit.2
      omega
    calc rest.foldl (fun n c => 10 * n + (c.toNat - 48)) (10 * k + (c.toNat - 48))
        < (10 * k + (c.toNat - 48) + 1) * 10 ^ rest.length := ih _ fun d hd => hcs d (List.mem_cons_of_mem c hd)
      _ ≤ ((k + 1) * 10) * 10 ^ rest.length := Nat.mul_le_mul_right _ (by omega)
      _ = (k + 1) * 10 ^ (c :: rest).length := by rw [List.length_cons, Nat.pow_succ', Nat.mul_assoc]

/-- The value of digits has no more digits than they are. -/
theorem lt_of_decimalValue (h : decimalValue cs = some n) : n < 10 ^ cs.length := by
  unfold decimalValue at h
  split at h
  · cases h
  · split at h
    · rename_i hall
      cases h
      have hlt := foldl_digits_lt cs 0 (List.all_eq_true.mp hall)
      rwa [Nat.zero_add, Nat.one_mul] at hlt
    · cases h

/-- A fraction is less than a second. -/
theorem fraction?_lt (h : fraction? cs = some (n, rest)) : n < 1000000000 := by
  unfold fraction? at h
  split at h
  · rename_i digits
    obtain ⟨⟨m, after⟩, hm, h⟩ := Option.bind_eq_some_iff.mp h
    obtain ⟨value, hvalue, heq⟩ := Option.map_eq_some_iff.mp hm
    have hlt := lt_of_decimalValue hvalue
    have hread : ((digits.take 9).takeWhile Char.isDigit).length ≤ 9 :=
      Nat.le_trans (List.takeWhile_sublist _).length_le (List.length_take_le 9 digits)
    cases heq
    cases h
    calc m * Nat.pow 10 (9 - ((digits.take 9).takeWhile Char.isDigit).length)
        < 10 ^ ((digits.take 9).takeWhile Char.isDigit).length *
            10 ^ (9 - ((digits.take 9).takeWhile Char.isDigit).length) :=
          Nat.mul_lt_mul_of_pos_right hlt (Nat.pow_pos (by decide))
      _ = 10 ^ 9 := by rw [← Nat.pow_add, Nat.add_sub_cancel' hread]
  · cases h
    decide

/-- An offset is made of whole minutes. -/
theorem hoursMinutes?_minutes (h : hoursMinutes? cs = some (n, rest)) : n % 60 = 0 := by
  obtain ⟨⟨hours, more⟩, -, h⟩ := Option.bind_eq_some_iff.mp h
  obtain ⟨⟨minutes, after⟩, -, h⟩ := Option.bind_eq_some_iff.mp h
  cases h
  omega

/-- An offset is a number of minutes. -/
theorem offset?_minutes {n : Int} (h : offset? cs = some (n, rest)) : n % 60 = 0 := by
  have hplus {cs : List Char} (h : (hoursMinutes? cs).map (fun x => ((x.1 : Int), x.2)) = some (n, rest)) :
      n % 60 = 0 := by
    obtain ⟨⟨m, more⟩, hm, heq⟩ := Option.map_eq_some_iff.mp h
    have hwhole := hoursMinutes?_minutes hm
    cases heq
    omega
  have hminus {cs : List Char} (h : (hoursMinutes? cs).map (fun x => (-(x.1 : Int), x.2)) = some (n, rest)) :
      n % 60 = 0 := by
    obtain ⟨⟨m, more⟩, hm, heq⟩ := Option.map_eq_some_iff.mp h
    have hwhole := hoursMinutes?_minutes hm
    cases heq
    omega
  unfold offset? at h
  split at h
  · cases h
    rfl
  · cases h
    rfl
  · exact hplus h
  · exact hminus h
  · split at h
    · cases h
      rfl
    · split at h
      · split at h
        · exact hminus h
        · cases h
      · cases h

theorem isMoment_of_ofParts? {y offset : Int} {mo d h mi s nanos : Nat} {t : Timestamp}
    (hparts : ofParts? y mo d h mi s nanos offset = some t) (hnanos : nanos < 1000000000) (hoffset : offset % 60 = 0) :
    t.IsMoment := by
  -- after each test that a date has to pass, the parts are in range
  unfold ofParts? at hparts
  split at hparts
  · cases hparts
  · split at hparts
    · cases hparts
    · split at hparts
      · cases hparts
      · dsimp only at hparts
        split at hparts
        · split at hparts
          · rename_i hyear
            cases hparts
            refine ⟨hyear, by dsimp only; omega, Or.inr ⟨by dsimp only; omega, by dsimp only; omega⟩⟩
          · cases hparts
        · split at hparts
          · rename_i hyear
            cases hparts
            refine ⟨hyear, by dsimp only; omega, Or.inl hnanos⟩
          · cases hparts

/-- **What is read is a moment.** -/
theorem isMoment_of_parse? {s : String} {t : Timestamp} (h : parse? s = some t) : t.IsMoment := by
  rw [parse?] at h
  obtain ⟨⟨y, cs⟩, -, h⟩ := Option.bind_eq_some_iff.mp h
  obtain ⟨cs, -, h⟩ := Option.bind_eq_some_iff.mp h
  obtain ⟨⟨mo, cs⟩, -, h⟩ := Option.bind_eq_some_iff.mp h
  obtain ⟨cs, -, h⟩ := Option.bind_eq_some_iff.mp h
  obtain ⟨⟨d, cs⟩, -, h⟩ := Option.bind_eq_some_iff.mp h
  dsimp only at h
  split at h
  · split at h
    · obtain ⟨cs, -, h⟩ := Option.bind_eq_some_iff.mp h
      obtain ⟨⟨hours, cs⟩, -, h⟩ := Option.bind_eq_some_iff.mp h
      obtain ⟨cs, -, h⟩ := Option.bind_eq_some_iff.mp h
      obtain ⟨⟨minutes, cs⟩, -, h⟩ := Option.bind_eq_some_iff.mp h
      obtain ⟨cs, -, h⟩ := Option.bind_eq_some_iff.mp h
      obtain ⟨⟨seconds, cs⟩, -, h⟩ := Option.bind_eq_some_iff.mp h
      obtain ⟨⟨nanos, cs⟩, hnanos, h⟩ := Option.bind_eq_some_iff.mp h
      obtain ⟨⟨offset, cs⟩, hoffset, h⟩ := Option.bind_eq_some_iff.mp h
      dsimp only at h
      split at h
      · exact isMoment_of_ofParts? h (fraction?_lt hnanos) (offset?_minutes hoffset)
      · cases h
    · cases h
  · cases h

end Wheelwright.Timestamp
