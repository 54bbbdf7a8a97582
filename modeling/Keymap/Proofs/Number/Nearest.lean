import Keymap.Proofs.Number.Binary
import Keymap.Proofs.Number.Rounding

/-!
The double nearest to a quotient of which nothing is left: the natural rounded to 53 binary digits,
or an infinity if that is too large (`nearest_whole`).
-/

set_option autoImplicit false

namespace Keymap.Number

namespace Binary

/-- A power of two on the side where it is no fraction. -/
theorem two_pow_sub (top low : Nat) :
    2 ^ low * twoTo ((top : Int) - low).toNat = 2 ^ top * twoTo (-((top : Int) - low)).toNat := by
  rw [twoTo_eq, twoTo_eq, ← Nat.pow_add, ← Nat.pow_add]
  congr 1
  omega

theorem first_digit (top : Nat) :
    2 ^ 52 * twoTo ((top : Int) - 52).toNat = 2 ^ top * twoTo (-((top : Int) - 52)).toNat :=
  two_pow_sub top 52

theorem log2_mul (left right : Nat) (leftPos : 0 < left) (rightPos : 0 < right) :
    left.log2 + right.log2 ≤ (left * right).log2 ∧
      (left * right).log2 ≤ left.log2 + right.log2 + 1 := by
  have nonzero : left * right ≠ 0 := (Nat.mul_pos leftPos rightPos).ne'
  constructor
  · rw [Nat.le_log2 nonzero, Nat.pow_add]
    exact Nat.mul_le_mul (Nat.log2_self_le leftPos.ne') (Nat.log2_self_le rightPos.ne')
  · rw [← Nat.lt_succ_iff, Nat.log2_lt nonzero]
    calc left * right < 2 ^ (left.log2 + 1) * 2 ^ (right.log2 + 1) :=
          Nat.mul_lt_mul'' Nat.lt_log2_self Nat.lt_log2_self
      _ = 2 ^ (left.log2 + right.log2 + 1).succ := by
          rw [← Nat.pow_add]
          congr 1
          omega

theorem roundedQuotient_scaled (size divisor : Nat) (positive : 0 < divisor) (exponent : Int) :
    roundedQuotient (size * divisor) divisor exponent = roundedQuotient size 1 exponent := by
  have turned : size * divisor * twoTo (-exponent).toNat =
      divisor * (size * twoTo (-exponent).toNat) := by ring
  have less (x y : Nat) : 2 * (divisor * x) < divisor * y ↔ 2 * x < y := by
    rw [Nat.mul_left_comm, Nat.mul_lt_mul_left positive]
  have equal (x y : Nat) : 2 * (divisor * x) = divisor * y ↔ 2 * x = y := by
    rw [Nat.mul_left_comm, Nat.mul_right_inj positive.ne']
  simp only [roundedQuotient, turned, Nat.mul_div_mul_left _ _ positive, Nat.mul_mod_mul_left,
    less, equal, Nat.one_mul]

/-- The significand of a whole quotient has its first digit at that of the quotient. -/
theorem exponent_eq (size divisor : Nat) (sizePos : 0 < size) (positive : 0 < divisor) :
    let rough := roughExponent (size * divisor) divisor
    let whole := size * divisor * twoTo (-rough).toNat / (divisor * twoTo rough.toNat)
    (if whole < twoTo 53 then rough else rough + 1) = (size.log2 : Int) - 52 := by
  intro rough whole
  obtain ⟨atLeast, atMost⟩ := log2_mul size divisor sizePos positive
  have cancelled : whole = size * twoTo (-rough).toNat / twoTo rough.toNat := by
    simp only [whole]
    rw [Nat.mul_assoc, Nat.mul_left_comm, Nat.mul_div_mul_left _ _ positive]
  have unitPos := twoTo_pos rough.toNat
  have low := Nat.log2_self_le sizePos.ne'
  have high : size < 2 ^ (size.log2 + 1) := Nat.lt_log2_self
  -- The two logarithms tell that of the quotient but for one.
  have either : rough = (size.log2 : Int) - (52 : Nat) ∨ rough = (size.log2 : Int) - (53 : Nat) := by
    simp only [rough, roughExponent]
    omega
  rcases either with fits | tooMany
  · have few : whole < twoTo 53 := by
      rw [cancelled, Nat.div_lt_iff_lt_mul unitPos]
      have scale := two_pow_sub size.log2 52
      rw [← fits] at scale
      have grown := Nat.mul_lt_mul_of_pos_right high (twoTo_pos (-rough).toNat)
      rw [Nat.pow_succ] at grown
      rw [twoTo_eq 53]
      linarith
    rw [if_pos few, fits]
    rfl
  · have many : ¬ whole < twoTo 53 := by
      rw [cancelled, not_lt, Nat.le_div_iff_mul_le unitPos]
      have scale := two_pow_sub size.log2 53
      rw [← tooMany] at scale
      rw [twoTo_eq 53, scale]
      exact Nat.mul_le_mul_right _ low
    rw [if_neg many, tooMany]
    omega

/-- Rounding to the last of 53 digits, whether that is a digit of the natural or a binary place
after it. -/
theorem roundedQuotient_log2 (size : Nat) (positive : 0 < size) :
    let exponent : Int := (size.log2 : Int) - 52
    let significand := roundedQuotient size 1 exponent
    (2 ^ 52 ≤ significand ∧ significand ≤ 2 ^ 53) ∧
      significand * twoTo exponent.toNat = rounded size * twoTo (-exponent).toNat := by
  intro exponent significand
  rcases Nat.lt_or_ge size (2 ^ 52) with narrow | wide
  · have few : size.log2 < 52 := (Nat.log2_lt positive.ne').mpr narrow
    have unscaled : exponent.toNat = 0 := by omega
    have places : (-exponent).toNat = 52 - size.log2 := by omega
    have shifted : significand = size * 2 ^ (52 - size.log2) := by
      simp only [significand, roundedQuotient, unscaled, places, twoTo_zero, Nat.mul_one,
        Nat.div_one, Nat.mod_one]
      rfl
    have low := Nat.mul_le_mul_right (2 ^ (52 - size.log2)) (Nat.log2_self_le positive.ne')
    have high := Nat.mul_lt_mul_of_pos_right (Nat.lt_log2_self (n := size))
      (Nat.two_pow_pos (52 - size.log2))
    rw [← Nat.pow_add] at low high
    rw [show size.log2 + (52 - size.log2) = 52 by omega] at low
    rw [show size.log2 + 1 + (52 - size.log2) = 53 by omega] at high
    rw [unscaled, places, shifted, twoTo_zero, Nat.mul_one, rounded_narrow size (by omega)]
    exact ⟨⟨low, high.le⟩, rfl⟩
  · have many : 52 ≤ size.log2 := (Nat.le_log2 positive.ne').mpr wide
    have cast : exponent = (lastPlace size : Nat) := by
      unfold lastPlace
      omega
    obtain ⟨low, high⟩ := lastPlace_spec size wide
    have neighbour := (halfEven_roundedQuotient size (lastPlace size)).neighbour
    have same : significand = roundedQuotient size 1 (lastPlace size) :=
      congrArg (roundedQuotient size 1) cast
    rw [← same] at neighbour
    refine ⟨by omega, ?_⟩
    rw [show (-exponent).toNat = 0 by omega, twoTo_zero, Nat.mul_one, rounded, ← same, cast]
    rfl

/-- The code of a rounded natural, also where rounding carries into a new digit. -/
theorem coded (size : Nat) (positive : 0 < size) :
    ∃ top significand, 2 ^ 52 ≤ significand ∧ significand < 2 ^ 53 ∧
      (size.log2 + 1022) * 2 ^ 52 + roundedQuotient size 1 ((size.log2 : Int) - 52) =
        (top + 1022) * 2 ^ 52 + significand ∧
      significand * twoTo ((top : Int) - 52).toNat =
        rounded size * twoTo (-((top : Int) - 52)).toNat := by
  obtain ⟨⟨low, high⟩, value⟩ := roundedQuotient_log2 size positive
  generalize roundedQuotient size 1 ((size.log2 : Int) - 52) = significand at low high value ⊢
  rcases Nat.lt_or_eq_of_le high with less | full
  · exact ⟨size.log2, significand, low, less, rfl, value⟩
  · refine ⟨size.log2 + 1, 2 ^ 52, le_rfl, by norm_num, by omega, ?_⟩
    have power : rounded size = 2 ^ (size.log2 + 1) := by
      have scale := first_digit size.log2
      apply Nat.mul_right_cancel (twoTo_pos (-((size.log2 : Int) - 52)).toNat)
      rw [← value, full, Nat.pow_succ 2 size.log2]
      linarith
    rw [power]
    exact_mod_cast first_digit (size.log2 + 1)

end Binary

open Binary

/-- Every finite double is less. -/
def doubleBound : Nat := twoTo 1024

theorem doubleBound_pos : 0 < doubleBound := twoTo_pos 1024

/-- A rounded natural has as many binary digits as the place of its significand says. -/
theorem rounded_lt_iff (size top significand limit : Nat) (low : 2 ^ 52 ≤ significand)
    (high : significand < 2 ^ 53) (value : significand * twoTo ((top : Int) - 52).toNat =
      rounded size * twoTo (-((top : Int) - 52)).toNat) :
    rounded size < twoTo limit ↔ top < limit := by
  have scale := first_digit top
  have unitPos := twoTo_pos ((top : Int) - 52).toNat
  have divisorPos := twoTo_pos (-((top : Int) - 52)).toNat
  have atLeast : 2 ^ top ≤ rounded size := by
    apply Nat.le_of_mul_le_mul_right _ divisorPos
    rw [← value]
    exact scale ▸ Nat.mul_le_mul_right _ low
  have less : rounded size < 2 ^ (top + 1) := by
    apply Nat.lt_of_mul_lt_mul_right (a := twoTo (-((top : Int) - 52)).toNat)
    rw [← value, Nat.pow_succ]
    have grown := Nat.mul_lt_mul_of_pos_right high unitPos
    linarith
  rw [twoTo_eq limit]
  constructor
  · intro bounded
    exact (Nat.pow_lt_pow_iff_right (by norm_num)).mp (atLeast.trans_lt bounded)
  · intro below
    exact less.trans_le (Nat.pow_le_pow_right (by norm_num) below)

/-- The double nearest to a quotient without rest is the rounded natural, or it is infinite. -/
theorem nearest_whole (negative : Bool) (size divisor : Nat) (positive : 0 < divisor) :
    (rounded size < doubleBound →
      IsWhole (nearest negative (size * divisor) divisor) negative (rounded size)) ∧
    (¬ rounded size < doubleBound →
      ofFloat (nearest negative (size * divisor) divisor) = .infinite negative) := by
  rcases Nat.eq_zero_or_pos size with rfl | sizePos
  · have nought : rounded 0 = 0 := rounded_narrow 0 (by norm_num)
    rw [nought, Nat.zero_mul]
    refine ⟨fun _ => ⟨0, -1074, ofFloat_zero negative, ?_⟩, absurd doubleBound_pos⟩
    rw [Nat.zero_mul, Nat.zero_mul]
  · obtain ⟨top, significand, low, high, code, value⟩ := coded size sizePos
    have limit := rounded_lt_iff size top significand 1024 low high value
    have exponent := exponent_eq size divisor sizePos positive
    have shown : nearest negative (size * divisor) divisor =
        if 2047 * 2 ^ 52 ≤ (top + 1022) * 2 ^ 52 + significand then infinity negative
        else Float.ofBits (UInt64.ofNat
          (signBit negative + ((top + 1022) * 2 ^ 52 + significand))) := by
      unfold nearest
      rw [if_neg (Nat.mul_pos sizePos positive).ne']
      simp only [exponent, roundedQuotient_scaled size divisor positive]
      rw [show ((size.log2 : Int) - 52 + 1074).toNat = size.log2 + 1022 by omega, twoTo_eq, code]
    rw [shown]
    constructor
    · intro bounded
      have below := limit.mp bounded
      rw [if_neg (by omega)]
      refine ⟨significand, (top : Int) - 52, ?_, value⟩
      have place : ((top + 1022 : Nat) : Int) - 1074 = (top : Int) - 52 := by omega
      rw [ofFloat_code negative (top + 1022) significand low high (by omega), place]
    · intro tooLarge
      have above := mt limit.mpr tooLarge
      rw [if_pos (by omega)]
      exact ofFloat_infinity negative

end Keymap.Number
