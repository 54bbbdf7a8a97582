import Keymap.Proofs.Number.Nearest
import Keymap.Proofs.Number.Order

/-!
Division of integers, which goes through doubles. A quotient without rest is the rounded natural, so
it is exact where that changes nothing (`div_exact_iff`); a remainder is the exact remainder of the
two rounded sizes (`mod_int`), and so right where rounding does not change it (`mod_exact_iff`).
-/

set_option autoImplicit false

namespace Keymap.Number

open Binary

theorem isZero_int (value : Int) : (Number.int value).isZero = true ↔ value = 0 := by
  simp [isZero, equals, order, extent, Extent.order, compareFinite, twoTo_zero]

theorem signed_eq (value : Int) (size : Nat) (nought : value = 0 → size = 0) :
    signed (decide (value < 0)) size = value.sign * size := by
  unfold signed
  rcases lt_trichotomy value 0 with below | zero | above
  · simp [below, Int.sign_eq_neg_one_of_neg below]
  · simp [zero, nought zero]
  · simp [not_lt.mpr above.le, Int.sign_eq_one_of_pos above]

theorem toFloat_int (value : Int) :
    (rounded value.natAbs < doubleBound → ∃ x, toFloat (.int value) = .ok x ∧
      IsWhole x (decide (value < 0)) (rounded value.natAbs)) ∧
    (¬ rounded value.natAbs < doubleBound →
      toFloat (.int value) = .error .tooLargeForFloat) := by
  have nearest := nearest_whole (decide (value < 0)) value.natAbs 1 Nat.one_pos
  rw [Nat.mul_one] at nearest
  constructor
  · intro bounded
    obtain ⟨_, _, shape, _⟩ := nearest.1 bounded
    refine ⟨_, ?_, nearest.1 bounded⟩
    simp only [toFloat, shape]
  · intro tooLarge
    simp only [toFloat, nearest.2 tooLarge]

theorem quotient_sign (divisor quotient : Int) (nonzero : divisor ≠ 0) (other : quotient ≠ 0) :
    (decide (divisor * quotient < 0) != decide (divisor < 0)) = decide (quotient < 0) := by
  rw [Bool.eq_iff_iff]
  simp only [bne_iff_ne, ne_eq, decide_eq_decide, decide_eq_true_eq, mul_neg_iff]
  omega

/-- The quotient of a division without rest is rounded. -/
theorem div_dvd (a b : Int) (nonzero : b ≠ 0) (divides : b ∣ a) :
    div (.int a) (.int b) =
      if rounded (a / b).natAbs < doubleBound then
        .ok (.int ((a / b).sign * rounded (a / b).natAbs))
      else .error .quotientTooLarge := by
  obtain ⟨quotient, rfl⟩ := divides
  have same : b * quotient / b = quotient := Int.mul_ediv_cancel_left quotient nonzero
  have sizes : (b * quotient).natAbs = quotient.natAbs * b.natAbs := by
    rw [Int.natAbs_mul, Nat.mul_comm]
  have nearest := nearest_whole (decide (b * quotient < 0) != decide (b < 0)) quotient.natAbs
    b.natAbs (Int.natAbs_pos.mpr nonzero)
  have notZero : (Number.int b).isZero = false := by
    rw [Bool.eq_false_iff, ne_eq, isZero_int]
    exact nonzero
  have sign : signed (decide (b * quotient < 0) != decide (b < 0)) (rounded quotient.natAbs) =
      quotient.sign * rounded quotient.natAbs := by
    rcases eq_or_ne quotient 0 with rfl | other
    · simp [signed, rounded_narrow 0 (by norm_num)]
    · rw [quotient_sign b quotient nonzero other, signed_eq quotient _ (absurd · other)]
  rw [same]
  simp only [div, notZero, Bool.false_eq_true, if_false, sizes]
  split_ifs with bounded
  · obtain ⟨_, _, shape, _⟩ := nearest.1 bounded
    simp only [shape, settle_whole _ _ _ (nearest.1 bounded), sign]
  · simp only [nearest.2 bounded]

/-- A whole double, counted in a smaller unit than that of its significand. -/
theorem rescaled (significand size : Nat) (exponent low : Int) (below : low ≤ exponent)
    (value : significand * twoTo exponent.toNat = size * twoTo (-exponent).toNat) :
    significand * twoTo (exponent - low).toNat * twoTo low.toNat = size * twoTo (-low).toNat := by
  have powers : twoTo (exponent - low).toNat * twoTo low.toNat * twoTo (-exponent).toNat =
      twoTo exponent.toNat * twoTo (-low).toNat := by
    simp only [twoTo_eq, ← Nat.pow_add]
    congr 1
    omega
  apply Nat.mul_right_cancel (twoTo_pos (-exponent).toNat)
  calc significand * twoTo (exponent - low).toNat * twoTo low.toNat * twoTo (-exponent).toNat
      = significand * (twoTo (exponent - low).toNat * twoTo low.toNat *
          twoTo (-exponent).toNat) := by ring
    _ = significand * twoTo exponent.toNat * twoTo (-low).toNat := by rw [powers]; ring
    _ = size * twoTo (-low).toNat * twoTo (-exponent).toNat := by rw [value]; ring

/-- What is left of a division of whole doubles is the remainder of the naturals, exactly. -/
theorem floatRemainder_whole (x y : Float) (negative otherNegative : Bool) (left right : Nat)
    (wholeLeft : IsWhole x negative left) (wholeRight : IsWhole y otherNegative right)
    (positive : 0 < right) (leftShort : Short left) (rightShort : Short right)
    (bounded : left < doubleBound) :
    ∃ z, floatRemainder x y = .ok z ∧ IsWhole z negative (left % right) := by
  obtain ⟨a, p, shape, value⟩ := wholeLeft
  obtain ⟨b, q, otherShape, otherValue⟩ := wholeRight
  let low := min p q
  have dividend := rescaled a left p low (min_le_left p q) value
  have divisor := rescaled b right q low (min_le_right p q) otherValue
  have scalePos := twoTo_pos (-low).toNat
  have nonzero : b * twoTo (q - low).toNat ≠ 0 := by
    intro zero
    rw [zero, Nat.zero_mul] at divisor
    exact (Nat.mul_pos positive scalePos).ne divisor
  have rest : a * twoTo (p - low).toNat % (b * twoTo (q - low).toNat) * twoTo low.toNat =
      left % right * twoTo (-low).toNat := by
    rw [← Nat.mul_mod_mul_right, dividend, divisor, Nat.mul_mod_mul_right]
  have exact : rounded (left % right) = left % right :=
    (rounded_eq_self_iff _).mpr (Short.mod left right leftShort rightShort)
  have nearest := (nearest_whole negative (left % right) (twoTo (-low).toNat) scalePos).1
  rw [exact] at nearest
  refine ⟨_, ?_, nearest ((Nat.mod_le left right).trans_lt bounded)⟩
  simp only [floatRemainder, shape, otherShape]
  rw [if_neg nonzero, rest]

/-- The remainder is that of the two rounded sizes, with the sign of the dividend. -/
theorem mod_int (a b : Int) (nonzero : b ≠ 0) :
    mod (.int a) (.int b) =
      if rounded a.natAbs < doubleBound ∧ rounded b.natAbs < doubleBound then
        .ok (.int (a.sign * (rounded a.natAbs % rounded b.natAbs : Nat)))
      else .error .tooLargeForFloat := by
  have notZero : ¬ (Number.int b).isZero = true := mt (isZero_int b).mp nonzero
  unfold mod
  rw [if_neg notZero]
  by_cases leftBounded : rounded a.natAbs < doubleBound
  · obtain ⟨x, left, wholeLeft⟩ := (toFloat_int a).1 leftBounded
    by_cases rightBounded : rounded b.natAbs < doubleBound
    · obtain ⟨y, right, wholeRight⟩ := (toFloat_int b).1 rightBounded
      obtain ⟨z, remainder, whole⟩ := floatRemainder_whole x y _ _ _ _ wholeLeft wholeRight
        (rounded_pos _ (Int.natAbs_pos.mpr nonzero)) (roundsTo_rounded _).short
        (roundsTo_rounded _).short leftBounded
      have nought : a = 0 → rounded a.natAbs % rounded b.natAbs = 0 := by
        rintro rfl
        rw [Int.natAbs_zero, rounded_narrow 0 (by norm_num), Nat.zero_mod]
      rw [if_pos ⟨leftBounded, rightBounded⟩, ← signed_eq a _ nought,
        ← settle_whole z _ _ whole]
      simp [left, right, remainder, bind, Except.bind, pure, Except.pure]
    · rw [if_neg (fun both => rightBounded both.2)]
      simp [left, (toFloat_int b).2 rightBounded, bind, Except.bind]
  · rw [if_neg (fun both => leftBounded both.1)]
    simp [(toFloat_int a).2 leftBounded, bind, Except.bind]

/-- A quotient of which nothing is left is exact where it is a double. -/
theorem div_exact_iff (a b : Int) (nonzero : b ≠ 0) (divides : b ∣ a) :
    div (.int a) (.int b) = .ok (.int (a / b)) ↔
      Short (a / b).natAbs ∧ (a / b).natAbs < doubleBound := by
  rw [div_dvd a b nonzero divides, ← rounded_eq_self_iff]
  have sizes : (a / b).sign * (rounded (a / b).natAbs : Int) = a / b ↔
      rounded (a / b).natAbs = (a / b).natAbs := by
    constructor
    · intro same
      have sized := congrArg Int.natAbs same
      rw [Int.natAbs_mul, Int.natAbs_natCast] at sized
      rcases eq_or_ne (a / b) 0 with zero | other
      · rw [zero]
        exact rounded_narrow 0 (by norm_num)
      · rwa [Int.natAbs_sign_of_ne_zero other, Nat.one_mul] at sized
    · intro same
      rw [same, Int.sign_mul_natAbs]
  split_ifs with bounded
  · simp only [Except.ok.injEq, Number.int.injEq, sizes]
    exact ⟨fun same => ⟨same, same ▸ bounded⟩, And.left⟩
  · refine iff_of_false nofun ?_
    rintro ⟨same, below⟩
    exact bounded (same.symm ▸ below)

/-- What is left of `a` after a multiple of `b`; it has the sign of `a`. -/
structure Remainder (a b rest : Int) : Prop where
  multiple : ∃ quotient, a = quotient * b + rest
  less : |rest| < |b|
  sign : rest = 0 ∨ rest.sign = a.sign

theorem remainder_iff (a b rest : Int) (nonzero : b ≠ 0) :
    Remainder a b rest ↔ rest = a.tmod b := by
  constructor
  · rintro ⟨⟨quotient, parts⟩, less, sign⟩
    have parts' : rest + b * quotient = a := by rw [parts]; ring
    rw [Int.abs_eq_natAbs, Int.abs_eq_natAbs] at less
    rcases le_total 0 a with above | below
    · have signed : 0 ≤ rest := by
        rcases sign with zero | same
        · exact zero.ge
        · rw [← Int.sign_nonneg_iff, same, Int.sign_nonneg_iff]
          exact above
      exact ((Int.tdiv_tmod_unique above nonzero).mpr ⟨parts', signed, by omega⟩).2.symm
    · have signed : rest ≤ 0 := by
        rcases sign with zero | same
        · exact zero.le
        · rw [← Int.sign_nonpos_iff, same, Int.sign_nonpos_iff]
          exact below
      exact ((Int.tdiv_tmod_unique' below nonzero).mpr ⟨parts', by omega, signed⟩).2.symm
  · rintro rfl
    refine ⟨⟨a.tdiv b, (Int.tdiv_mul_add_tmod a b).symm⟩, ?_, ?_⟩
    · rw [Int.abs_eq_natAbs, Int.abs_eq_natAbs, Int.natAbs_tmod]
      exact_mod_cast Nat.mod_lt _ (Int.natAbs_pos.mpr nonzero)
    · have sign := Int.sign_tmod a b
      split at sign
      · exact .inl (Int.sign_eq_zero_iff_zero.mp sign)
      · exact .inr sign

theorem tmod_eq (a b : Int) : a.tmod b = a.sign * (a.natAbs % b.natAbs : Nat) := by
  rw [← Int.natAbs_tmod]
  have sign := Int.sign_tmod a b
  split at sign
  · rw [Int.sign_eq_zero_iff_zero.mp sign, Int.natAbs_zero, Nat.cast_zero, Int.mul_zero]
  · rw [← sign, Int.sign_mul_natAbs]

/-- A remainder is right where rounding the two sizes does not change theirs. -/
theorem mod_exact_iff (a b : Int) (nonzero : b ≠ 0) :
    (∃ rest, mod (.int a) (.int b) = .ok (.int rest) ∧ Remainder a b rest) ↔
      rounded a.natAbs < doubleBound ∧ rounded b.natAbs < doubleBound ∧
        rounded a.natAbs % rounded b.natAbs = a.natAbs % b.natAbs := by
  rw [mod_int a b nonzero]
  have sizes : a.sign * (rounded a.natAbs % rounded b.natAbs : Nat) = a.tmod b ↔
      rounded a.natAbs % rounded b.natAbs = a.natAbs % b.natAbs := by
    rw [tmod_eq]
    rcases eq_or_ne a 0 with rfl | other
    · rw [Int.natAbs_zero, rounded_narrow 0 (by norm_num), Nat.zero_mod, Nat.zero_mod]
      exact iff_of_true rfl rfl
    · rw [mul_right_inj' (mt Int.sign_eq_zero_iff_zero.mp other), Nat.cast_inj]
  split_ifs with bounded
  · constructor
    · rintro ⟨rest, ended, remainder⟩
      rw [Except.ok.injEq, Number.int.injEq] at ended
      rw [remainder_iff a b rest nonzero, ← ended, sizes] at remainder
      exact ⟨bounded.1, bounded.2, remainder⟩
    · rintro ⟨_, _, same⟩
      exact ⟨_, rfl, (remainder_iff a b _ nonzero).mpr (sizes.mpr same)⟩
  · refine iff_of_false (fun ⟨_, ended, _⟩ => nomatch ended) ?_
    exact fun ⟨left, right, _⟩ => bounded ⟨left, right⟩

theorem div_zero_iff (a b : Int) :
    div (.int a) (.int b) = .error .divisionByZero ↔ b = 0 := by
  rw [← isZero_int b]
  unfold div
  split_ifs with zero
  · exact iff_of_true rfl zero
  · refine iff_of_false ?_ zero
    simp only
    split <;> exact nofun

theorem mod_zero_iff (a b : Int) :
    mod (.int a) (.int b) = .error .divisionByZero ↔ b = 0 := by
  constructor
  · intro fails
    by_contra nonzero
    rw [mod_int a b nonzero] at fails
    split_ifs at fails
    cases fails
  · intro zero
    unfold mod
    rw [if_pos ((isZero_int b).mpr zero)]
    rfl

end Keymap.Number
