/-
  Values of doubles.

  **Specification** — a finite double stands for a fraction, `value?`.  A double has a mantissa of at most 53 bits and an
  exponent between two bounds (`IsDouble`).  A fraction rounds to the nearest whole number, and to the even one of two
  that are equally near (`RoundsTo`); there is exactly one such number.

  **Program** — everything is computed on quotients of natural numbers: `ratio` takes a double to one, `scaled` shifts
  one by a power of two, and `roundHalfEven` rounds one.

  **The crux (`lt_exponentFor`)** — the exponent that is chosen for a quotient by counting bits leaves less than 2^53 for
  the mantissa.  The guess is off by one at most, and it is corrected by looking at the quotient.
-/
import Mathlib.Algebra.Order.Field.Power
import Mathlib.Algebra.Order.Ring.Rat
import Mathlib.Tactic.FieldSimp
import Mathlib.Tactic.Linarith
import Mathlib.Tactic.Positivity
import Mathlib.Tactic.Ring
import Wheelwright.Binary64

namespace Wheelwright

/-! ## Rounding to whole numbers

  Rounding as a relation, apart from any program.  To compare a program with it there are three cases: less than a
  half to spare, more, and just a half. -/

/-- `n` is the whole number nearest to `q`, and the even one if two are equally near. -/
structure RoundsTo (q : ℚ) (n : Nat) : Prop where
  /-- The number is no further off than a half. -/
  near : |q - n| ≤ 1 / 2
  /-- At a half it is even. -/
  even : |q - n| = 1 / 2 → n % 2 = 0

/-- Of two numbers that a fraction may round to, none is below the other. -/
theorem RoundsTo.le {q : ℚ} {m n : Nat} (hm : RoundsTo q m) (hn : RoundsTo q n) : m ≤ n := by
  by_contra hlt
  have hcast : (n : ℚ) + 1 ≤ m := by exact_mod_cast (show n + 1 ≤ m by omega)
  obtain ⟨hm₁, hm₂⟩ := abs_le.mp hm.near
  obtain ⟨hn₁, hn₂⟩ := abs_le.mp hn.near
  -- The two are neighbours and `q` is half way between them: one of them is odd.
  have hnext : (m : ℚ) = n + 1 := by linarith
  have hhalf : q = n + 1 / 2 := by linarith
  have hm_even : m % 2 = 0 := by
    apply hm.even
    rw [hhalf, hnext, show (n : ℚ) + 1 / 2 - (n + 1) = -(1 / 2) by ring, abs_neg, abs_of_pos (by norm_num)]
  have hn_even : n % 2 = 0 := by
    apply hn.even
    rw [hhalf, show (n : ℚ) + 1 / 2 - n = 1 / 2 by ring, abs_of_pos (by norm_num)]
  have hsucc : m = n + 1 := by exact_mod_cast hnext
  omega

/-- **A fraction rounds to one number only.** -/
theorem RoundsTo.unique {q : ℚ} {m n : Nat} (hm : RoundsTo q m) (hn : RoundsTo q n) : m = n :=
  Nat.le_antisymm (hm.le hn) (hn.le hm)

/-- A fraction below a whole number does not round to one above it. -/
theorem RoundsTo.le_of_lt {q : ℚ} {n k : Nat} (h : RoundsTo q n) (hlt : q < k) : n ≤ k := by
  by_contra hk
  have hcast : (k : ℚ) + 1 ≤ n := by exact_mod_cast (show k + 1 ≤ n by omega)
  obtain ⟨hlow, -⟩ := abs_le.mp h.near
  linarith

/-- A whole number rounds to itself. -/
theorem roundsTo_natCast (n : Nat) : RoundsTo n n := by
  constructor
  · rw [sub_self, abs_zero]
    norm_num
  · intro h
    rw [sub_self, abs_zero] at h
    norm_num at h

/-- With less than a half to spare, down. -/
theorem RoundsTo.down (n : Nat) {x : ℚ} (hnonneg : 0 ≤ x) (hhalf : x < 1 / 2) : RoundsTo (n + x) n := by
  constructor
  · rw [add_sub_cancel_left, abs_of_nonneg hnonneg]
    exact hhalf.le
  · intro h
    rw [add_sub_cancel_left, abs_of_nonneg hnonneg] at h
    exact absurd h hhalf.ne

/-- With more than a half to spare, up. -/
theorem RoundsTo.up (n : Nat) {x : ℚ} (hhalf : 1 / 2 < x) (hone : x < 1) : RoundsTo (n + x) (n + 1) := by
  have hdist : |(n : ℚ) + x - ((n + 1 : Nat) : ℚ)| = 1 - x := by
    have hdiff : (n : ℚ) + x - ((n + 1 : Nat) : ℚ) = -(1 - x) := by
      push_cast
      ring
    rw [hdiff, abs_neg, abs_of_pos (by linarith)]
  constructor
  · rw [hdist]
    linarith
  · intro h
    rw [hdist] at h
    linarith

/-- With just a half to spare, to the even one of the two. -/
theorem RoundsTo.tie (n : Nat) : RoundsTo ((n : ℚ) + 1 / 2) (if n % 2 = 0 then n else n + 1) := by
  -- the even one of the two neighbours
  split
  · rename_i heven
    constructor
    · rw [add_sub_cancel_left, abs_of_pos (by norm_num)]
    · intro _
      exact heven
  · rename_i hodd
    have hdiff : (n : ℚ) + 1 / 2 - ((n + 1 : Nat) : ℚ) = -(1 / 2) := by
      push_cast
      ring
    constructor
    · rw [hdiff, abs_neg, abs_of_pos (by norm_num)]
    · intro _
      omega

/-- A quotient is its whole part and a rest. -/
theorem div_eq_whole_add_rest (num : Nat) {den : Nat} (hden : 0 < den) :
    (num : ℚ) / den = (num / den : Nat) + ((num % den : Nat) : ℚ) / den := by
  have hpos : (0 : ℚ) < den := by exact_mod_cast hden
  have hdiv : (num : ℚ) = den * (num / den : Nat) + (num % den : Nat) := by
    exact_mod_cast (Nat.div_add_mod num den).symm
  field_simp
  linarith

/-- **The rounding of a quotient.**  The rest is told from a half by comparing its double with the denominator. -/
theorem roundsTo_roundHalfEven (num : Nat) {den : Nat} (hden : 0 < den) :
    RoundsTo ((num : ℚ) / den) (roundHalfEven num den) := by
  have hpos : (0 : ℚ) < den := by exact_mod_cast hden
  have hrest : ((num % den : Nat) : ℚ) < den := by exact_mod_cast Nat.mod_lt _ hden
  rw [div_eq_whole_add_rest num hden, roundHalfEven]
  generalize num % den = rest at hrest ⊢
  -- below the half, above it, or at it
  split
  · rename_i hlow
    have hlow : ((2 * rest : Nat) : ℚ) < den := by exact_mod_cast hlow
    refine .down _ (by positivity) ?_
    rw [div_lt_iff₀ hpos]
    push_cast at hlow
    linarith
  · split
    · rename_i hhigh
      have hhigh : (den : ℚ) < ((2 * rest : Nat) : ℚ) := by exact_mod_cast hhigh
      refine .up _ ?_ ((div_lt_one hpos).mpr hrest)
      rw [lt_div_iff₀ hpos]
      push_cast at hhigh
      linarith
    · rename_i hlow hhigh
      have htie : (2 : ℚ) * rest = den := by exact_mod_cast (show 2 * rest = den by omega)
      have hhalf : (rest : ℚ) / den = 1 / 2 := by
        rw [div_eq_iff hpos.ne']
        linarith
      rw [hhalf]
      exact .tie _

namespace Binary64

/-! ## Doubles and their values

  A finite double stands for a fraction, and is a double if its mantissa and its exponent are within the bounds. -/

/-- The fraction that a finite number stands for. -/
def value? : Binary64 → Option ℚ
  | .nan => none
  | .infinite _ => none
  | .finite s m e => some ((if s then -1 else 1) * (m * 2 ^ e))

/-- The mantissa has at most 53 bits, and the exponent lies within the bounds. -/
def IsDouble : Binary64 → Prop
  | .nan => True
  | .infinite _ => True
  | .finite _ m e => m < 2 ^ 53 ∧ minExponent ≤ e ∧ e ≤ maxExponent

/-- The zeros are doubles. -/
theorem isDouble_zero (s : Bool) : IsDouble (.finite s 0 minExponent) :=
  ⟨by norm_num, le_refl _, by decide⟩

/-- The negative of a double is one. -/
theorem IsDouble.negate {x : Binary64} (h : x.IsDouble) : x.negate.IsDouble := by
  cases x with
  | nan => trivial
  | infinite s => trivial
  | finite s m e => exact h

/-! ## Quotients

  Powers of two with negative exponents are not among the natural numbers, so the program keeps a numerator and a
  denominator.  These lemmas say which fraction the two are. -/

variable {num den n d : Nat} {m : Nat} {e : Int}

/-- A power with a whole exponent is whole. -/
theorem two_zpow_toNat (h : 0 ≤ e) : (2 : ℚ) ^ e = ((2 ^ e.toNat : Nat) : ℚ) := by
  push_cast
  rw [← zpow_natCast, Int.toNat_of_nonneg h]

/-- The quotient of a double is its value. -/
theorem ratio_eq (m : Nat) (e : Int) :
    0 < (ratio m e).2 ∧ ((ratio m e).1 : ℚ) / (ratio m e).2 = m * 2 ^ e := by
  rw [ratio]
  -- an exponent below zero goes to the denominator
  by_cases h : 0 ≤ e
  · rw [if_pos h, two_zpow_toNat h]
    refine ⟨Nat.one_pos, ?_⟩
    show ((m * 2 ^ e.toNat : Nat) : ℚ) / ((1 : Nat) : ℚ) = _
    push_cast
    rw [div_one]
  · have hneg : 0 ≤ -e := by omega
    rw [if_neg h]
    refine ⟨Nat.two_pow_pos _, ?_⟩
    show (m : ℚ) / ((2 ^ (-e).toNat : Nat) : ℚ) = _
    rw [← two_zpow_toNat hneg, zpow_neg, div_inv_eq_mul]

/-- A quotient is shifted by a power of two. -/
theorem scaled_eq (num : Nat) (hden : 0 < den) (e : Int) :
    0 < (scaled num den e).2 ∧ ((scaled num den e).1 : ℚ) / (scaled num den e).2 = num / den / 2 ^ e := by
  rw [scaled]
  -- a shift to the right makes the denominator larger, one to the left the numerator
  by_cases h : e ≤ 0
  · have hneg : 0 ≤ -e := by omega
    rw [if_pos h]
    refine ⟨hden, ?_⟩
    show ((num * 2 ^ (-e).toNat : Nat) : ℚ) / den = _
    rw [Nat.cast_mul, ← two_zpow_toNat hneg, zpow_neg, div_eq_mul_inv _ ((2 : ℚ) ^ e)]
    ring
  · have hpos : 0 ≤ e := by omega
    rw [if_neg h]
    refine ⟨Nat.mul_pos hden (Nat.two_pow_pos _), ?_⟩
    show (num : ℚ) / ((den * 2 ^ e.toNat : Nat) : ℚ) = _
    rw [Nat.cast_mul, ← two_zpow_toNat hpos, div_div]

/-! ## The exponent

  The bits of numerator and denominator are counted to guess the exponent.  The guess is right or one too large, and a
  look at the quotient tells which. -/

/-- A number is below the next power of two. -/
theorem lt_two_zpow_log2 (n : Nat) : (n : ℚ) < 2 ^ ((n.log2 : Int) + 1) := by
  have h : n < 2 ^ (n.log2 + 1) := Nat.lt_log2_self
  exact_mod_cast h

/-- It is not below its own power of two. -/
theorem two_zpow_log2_le (h : n ≠ 0) : (2 : ℚ) ^ (n.log2 : Int) ≤ n := by
  have hle := Nat.log2_self_le h
  exact_mod_cast hle

/-- The first guess leaves less than 2^53 for the mantissa. -/
theorem lt_guess (num : Nat) (hden : 0 < den) :
    (num : ℚ) / den < 2 ^ 53 * 2 ^ ((num.log2 : Int) - den.log2 - 52) := by
  have hpos : (0 : ℚ) < den := by exact_mod_cast hden
  have hpow : (2 : ℚ) ^ 53 * 2 ^ ((num.log2 : Int) - den.log2 - 52) * 2 ^ (den.log2 : Int) = 2 ^ ((num.log2 : Int) + 1) := by
    rw [← zpow_natCast, ← zpow_add₀ two_ne_zero, ← zpow_add₀ two_ne_zero]
    congr 1
    push_cast
    ring
  rw [div_lt_iff₀ hpos]
  calc (num : ℚ) < 2 ^ ((num.log2 : Int) + 1) := lt_two_zpow_log2 num
    _ = 2 ^ 53 * 2 ^ ((num.log2 : Int) - den.log2 - 52) * 2 ^ (den.log2 : Int) := hpow.symm
    _ ≤ 2 ^ 53 * 2 ^ ((num.log2 : Int) - den.log2 - 52) * den := by
        apply mul_le_mul_of_nonneg_left (two_zpow_log2_le hden.ne')
        positivity

/-- **The exponent that is chosen leaves less than 2^53 for the mantissa.** -/
theorem lt_exponentFor (num : Nat) (hden : 0 < den) : (num : ℚ) / den < 2 ^ 53 * 2 ^ exponentFor num den := by
  have hguess := lt_guess num hden
  obtain ⟨hpos, hscaled⟩ := scaled_eq num hden ((num.log2 : Int) - den.log2 - 52)
  rw [exponentFor]
  generalize (num.log2 : Int) - den.log2 - 52 = guess at hguess hpos hscaled ⊢
  dsimp only
  -- The guess, or one less where the quotient has a bit less than was guessed.
  have hexact : (num : ℚ) / den <
      2 ^ 53 * 2 ^ (if (scaled num den guess).1 / (scaled num den guess).2 < Nat.pow 2 52 then guess - 1 else guess) := by
    split
    · rename_i hlow
      have hlow : (scaled num den guess).1 < 2 ^ 52 * (scaled num den guess).2 := (Nat.div_lt_iff_lt_mul hpos).mp hlow
      have hcast : ((scaled num den guess).1 : ℚ) < 2 ^ 52 * (scaled num den guess).2 := by exact_mod_cast hlow
      have hdpos : (0 : ℚ) < (scaled num den guess).2 := by exact_mod_cast hpos
      rw [← div_lt_iff₀ hdpos, hscaled, div_lt_iff₀ (by positivity)] at hcast
      rw [zpow_sub_one₀ two_ne_zero]
      calc (num : ℚ) / den < 2 ^ 52 * 2 ^ guess := hcast
        _ = 2 ^ 53 * (2 ^ guess * 2⁻¹) := by ring
    · exact hguess
  generalize (if (scaled num den guess).1 / (scaled num den guess).2 < Nat.pow 2 52 then guess - 1 else guess) = exact
    at hexact ⊢
  split
  · rename_i hsmall
    apply hexact.trans
    apply mul_lt_mul_of_pos_left _ (by positivity)
    exact zpow_lt_zpow_right₀ one_lt_two hsmall
  · exact hexact

/-- The exponent is never below the least. -/
theorem minExponent_le_exponentFor (num den : Nat) : minExponent ≤ exponentFor num den := by
  rw [exponentFor]
  dsimp only
  split <;> split <;> omega

/-! ## Rounded quotients are doubles

  Whatever is converted by the program is within the bounds of a double. -/

/-- **What is rounded to a double is one.** -/
theorem isDouble_ofRatio (s : Bool) (num : Nat) (hden : 0 < den) : (ofRatio s num den).IsDouble := by
  rw [ofRatio]
  split
  · exact isDouble_zero s
  · have hlow := minExponent_le_exponentFor num den
    have hlt := lt_exponentFor num hden
    obtain ⟨hpos, hscaled⟩ := scaled_eq num hden (exponentFor num den)
    generalize exponentFor num den = e at hlow hlt hpos hscaled ⊢
    rw [← div_lt_iff₀ (by positivity), ← hscaled] at hlt
    have hround : roundHalfEven (scaled num den e).1 (scaled num den e).2 ≤ 2 ^ 53 := by
      apply (roundsTo_roundHalfEven _ hpos).le_of_lt
      exact_mod_cast hlt
    dsimp only
    generalize roundHalfEven (scaled num den e).1 (scaled num den e).2 = m at hround ⊢
    by_cases hcarry : m = 2 ^ 53
    · -- Rounding up has made one bit more: the mantissa is halved, and the exponent is one more.
      rw [if_pos (show m = Nat.pow 2 53 from hcarry)]
      dsimp only
      split
      · trivial
      · exact ⟨by norm_num, by omega, by omega⟩
    · rw [if_neg (show ¬ m = Nat.pow 2 53 from hcarry)]
      dsimp only
      split
      · trivial
      · exact ⟨by omega, hlow, by omega⟩

/-- A whole number rounds to a double. -/
theorem isDouble_ofNat (n : Nat) : (ofNat n).IsDouble := isDouble_ofRatio false n Nat.one_pos

/-- So does a decimal. -/
theorem isDouble_ofDecimal (s : Bool) (digits : Nat) (power : Int) : (ofDecimal s digits power).IsDouble := by
  rw [ofDecimal]
  split
  · exact isDouble_zero s
  · split
    · trivial
    · split
      · exact isDouble_zero s
      · split
        · exact isDouble_ofRatio s _ Nat.one_pos
        · exact isDouble_ofRatio s _ (Nat.pow_pos (by norm_num))

end Binary64

end Wheelwright
