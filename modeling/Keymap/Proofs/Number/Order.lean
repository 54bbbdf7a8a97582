import Keymap.Number.Basic
import Mathlib.Algebra.Order.Field.Rat
import Mathlib.Algebra.Order.Ring.Cast
import Mathlib.Algebra.Order.Field.Power
import Mathlib.Data.Rat.Cast.Order
import Mathlib.Order.Compare
import Mathlib.Order.WithBot

/-!
The order of numbers is that of the extended rationals: every number but the one that is none has
a rank there, and two numbers compare as their ranks do (`order_eq`). So integers and doubles of any
size together are in one linear order.
-/

set_option autoImplicit false

namespace Keymap

namespace Number

/-- The exact value of a number on the extended line. -/
def Extent.rank : Extent → WithBot (WithTop ℚ)
  | .undefined => ⊥
  | .infinite true => ⊥
  | .infinite false => ((⊤ : WithTop ℚ) : WithBot (WithTop ℚ))
  | .finite significand exponent => (((significand * 2 ^ exponent : ℚ) : WithTop ℚ) : WithBot (WithTop ℚ))

def rank (number : Number) : WithBot (WithTop ℚ) := number.extent.rank

theorem compareFinite_eq (a p b q : Int) :
    compareFinite a p b q = compare (a * 2 ^ p : ℚ) (b * 2 ^ q : ℚ) := by
  let low := min p q
  have scaled : ∀ (value exponent : Int), low ≤ exponent →
      (value * 2 ^ exponent : ℚ) =
        2 ^ low * ((value * twoTo (exponent - low).toNat : Int) : ℚ) := by
    intro value exponent least
    have power : ((twoTo (exponent - low).toNat : Nat) : ℚ) = 2 ^ (exponent - low) := by
      rw [twoTo, Nat.pow_eq, Nat.cast_pow, ← zpow_natCast, Int.toNat_of_nonneg (by omega)]
      rfl
    push_cast
    rw [power, mul_left_comm, ← zpow_add₀ (by norm_num)]
    congr 2
    omega
  rw [scaled a p (min_le_left p q), scaled b q (min_le_right p q)]
  have positive : (0 : ℚ) < 2 ^ low := zpow_pos (by norm_num) low
  rw [← cmp_eq_compare, cmp_mul_pos_left positive, Int.cast_strictMono.cmp_map_eq,
    cmp_eq_compare]
  rfl

theorem isNaN_iff (number : Number) : number.isNaN = true ↔ number.extent = .undefined := by
  cases number with
  | int value => simp [isNaN, extent]
  | float x =>
    simp only [isNaN, extent]
    cases Binary.ofFloat x <;> simp

theorem bot_lt_finite (significand exponent : Int) :
    Extent.rank (.infinite true) < Extent.rank (.finite significand exponent) :=
  WithBot.bot_lt_coe _

theorem finite_lt_top (significand exponent : Int) :
    Extent.rank (.finite significand exponent) < Extent.rank (.infinite false) :=
  WithBot.coe_lt_coe.mpr (WithTop.coe_lt_top _)

theorem bot_lt_top : Extent.rank (.infinite true) < Extent.rank (.infinite false) :=
  WithBot.bot_lt_coe _

theorem compareFinite_rank (a p b q : Int) :
    compareFinite a p b q = compare (Extent.rank (.finite a p)) (Extent.rank (.finite b q)) := by
  have placed : StrictMono fun value : ℚ => ((value : WithTop ℚ) : WithBot (WithTop ℚ)) :=
    fun _ _ less => WithBot.coe_lt_coe.mpr (WithTop.coe_lt_coe.mpr less)
  rw [compareFinite_eq, ← cmp_eq_compare, ← placed.cmp_map_eq, cmp_eq_compare]
  rfl

theorem extent_of_number (number : Number) (isNumber : number.isNaN = false) :
    number.extent ≠ .undefined := by
  intro undefined
  rw [(isNaN_iff number).mpr undefined] at isNumber
  cases isNumber

/-- Numbers compare as their ranks do. -/
theorem order_eq (left right : Number) (leftNumber : left.isNaN = false)
    (rightNumber : right.isNaN = false) :
    left.order right = some (compare left.rank right.rank) := by
  have leftThere := extent_of_number left leftNumber
  have rightThere := extent_of_number right rightNumber
  unfold order rank
  generalize left.extent = first at leftThere ⊢
  generalize right.extent = second at rightThere ⊢
  cases first with
  | undefined => exact absurd rfl leftThere
  | infinite negative =>
    cases second with
    | undefined => exact absurd rfl rightThere
    | infinite other =>
      apply congrArg some
      symm
      cases negative <;> cases other
      case false.false => exact compare_eq_iff_eq.mpr rfl
      case false.true => exact compare_gt_iff_gt.mpr bot_lt_top
      case true.false => exact compare_lt_iff_lt.mpr bot_lt_top
      case true.true => exact compare_eq_iff_eq.mpr rfl
    | finite b q =>
      apply congrArg some
      symm
      cases negative with
      | false => exact compare_gt_iff_gt.mpr (finite_lt_top b q)
      | true => exact compare_lt_iff_lt.mpr (bot_lt_finite b q)
  | finite a p =>
    cases second with
    | undefined => exact absurd rfl rightThere
    | infinite negative =>
      apply congrArg some
      symm
      cases negative with
      | false => exact compare_lt_iff_lt.mpr (finite_lt_top a p)
      | true => exact compare_gt_iff_gt.mpr (bot_lt_finite a p)
    | finite b q => exact congrArg some (compareFinite_rank a p b q)

theorem less_iff (left right : Number) (leftNumber : left.isNaN = false)
    (rightNumber : right.isNaN = false) :
    left.less right = true ↔ left.rank < right.rank := by
  rw [less, order_eq left right leftNumber rightNumber, beq_iff_eq, Option.some.injEq,
    compare_lt_iff_lt]

theorem equals_iff (left right : Number) (leftNumber : left.isNaN = false)
    (rightNumber : right.isNaN = false) :
    left.equals right = true ↔ left.rank = right.rank := by
  rw [equals, order_eq left right leftNumber rightNumber, beq_iff_eq, Option.some.injEq,
    compare_eq_iff_eq]

theorem order_of_nan (left right : Number) (oneNaN : left.isNaN = true ∨ right.isNaN = true) :
    left.order right = .none := by
  unfold order
  rcases oneNaN with isNone | isNone
  · rw [(isNaN_iff left).mp isNone]
    rfl
  · rw [(isNaN_iff right).mp isNone]
    cases left.extent <;> rfl

/-- What is no number equals nothing, not even itself; numbers are equal if their ranks are. -/
theorem equals_iff_rank (left right : Number) : left.equals right = true ↔
    left.isNaN = false ∧ right.isNaN = false ∧ left.rank = right.rank := by
  by_cases oneNaN : left.isNaN = true ∨ right.isNaN = true
  · refine iff_of_false ?_ ?_
    · rw [equals, order_of_nan left right oneNaN]
      exact nofun
    · rintro ⟨first, second, _⟩
      rw [first, second] at oneNaN
      exact oneNaN.elim nofun nofun
  · obtain ⟨first, second⟩ := not_or.mp oneNaN
    rw [Bool.not_eq_true] at first second
    simp only [equals_iff left right first second, first, second, true_and]

theorem equals_self (number : Number) (isNumber : number.isNaN = false) :
    number.equals number = true :=
  (equals_iff_rank number number).mpr ⟨isNumber, isNumber, rfl⟩

theorem equals_comm (left right : Number) : left.equals right = right.equals left := by
  rw [Bool.eq_iff_iff, equals_iff_rank, equals_iff_rank, and_left_comm, eq_comm (a := left.rank)]

theorem equals_trans (first second third : Number) (left : first.equals second = true)
    (right : second.equals third = true) : first.equals third = true := by
  obtain ⟨isNumber, _, same⟩ := (equals_iff_rank first second).mp left
  obtain ⟨_, alsoNumber, sameToo⟩ := (equals_iff_rank second third).mp right
  exact (equals_iff_rank first third).mpr ⟨isNumber, alsoNumber, same.trans sameToo⟩

end Number

end Keymap
