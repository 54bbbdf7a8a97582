import Keymap.Expr.Template
import Keymap.Proofs.Number.Division

/-!
Arithmetic on two integers of any size. Sums, differences and products are exact. Division fails
for the divisor nought only with the words for that; otherwise the two operands, or the quotient,
are rounded to doubles, and `integers_exact_iff` says for which integers that does not show.
-/

set_option autoImplicit false

namespace Keymap.Expr

open Number

def operands (a b : Int) : Fields := [("x", .ofInt a), ("y", .ofInt b)]

/-- What the value of an expression is, if it has one, after arithmetic on numbers. -/
def outcome (result : Except Number.Fault Number) : Except Failure Value :=
  (result.map Value.number).mapError fun fault => .failed (.number fault)

theorem outcome_ok_iff (result : Except Number.Fault Number) (value : Int) :
    outcome result = .ok (.ofInt value) ↔ result = .ok (.int value) := by
  cases result with
  | error fault => exact iff_of_false nofun nofun
  | ok number => simp [outcome, Except.map, Except.mapError, Value.ofInt]

/-- Whether an expression fails with the given words. -/
def FailsAs (source : String) (scope : Fields) (message : String) : Prop :=
  ∃ failure, valueOf source scope = .ok (.error failure) ∧ failure.message = message

theorem message_eq_iff (fault : Number.Fault) :
    fault.message = "division by zero" ↔ fault = .divisionByZero := by
  cases fault <;> decide +kernel

theorem failsAs_iff (source : String) (scope : Fields) (result : Except Number.Fault Number)
    (value : valueOf source scope = .ok (outcome result)) :
    FailsAs source scope "division by zero" ↔ result = .error .divisionByZero := by
  unfold FailsAs
  rw [value]
  cases result with
  | error fault =>
    rw [Except.error.injEq, ← message_eq_iff]
    exact ⟨fun ⟨_, fails, words⟩ => by cases fails; exact words, fun words => ⟨_, rfl, words⟩⟩
  | ok number => exact iff_of_false (fun ⟨_, fails, _⟩ => nomatch fails) nofun

section

variable (a b : Int)

theorem valueOf_sum : valueOf "x + y" (operands a b) = .ok (.ok (.ofInt (a + b))) := rfl

theorem valueOf_difference : valueOf "x - y" (operands a b) = .ok (.ok (.ofInt (a - b))) := rfl

theorem valueOf_product : valueOf "x * y" (operands a b) = .ok (.ok (.ofInt (a * b))) := rfl

theorem arithmetic_ofInt (operation : Number → Number → Except Number.Fault Number) :
    (arithmetic operation (.ofInt a) (.ofInt b)).mapError Failure.failed =
      outcome (operation (.int a) (.int b)) := by
  have applied : arithmetic operation (.ofInt a) (.ofInt b) =
      ((operation (.int a) (.int b)).mapError EvalError.number >>= fun number =>
        .ok (.number number)) := rfl
  rw [applied]
  cases operation (.int a) (.int b) <;> rfl

theorem valueOf_quotient :
    valueOf "x / y" (operands a b) = .ok (outcome (Number.div (.int a) (.int b))) := by
  rw [← arithmetic_ofInt]
  rfl

theorem valueOf_remainder :
    valueOf "x % y" (operands a b) = .ok (outcome (Number.mod (.int a) (.int b))) := by
  rw [← arithmetic_ofInt]
  rfl

theorem quotient_exact_iff (nonzero : b ≠ 0) (divides : b ∣ a) :
    valueOf "x / y" (operands a b) = .ok (.ok (.ofInt (a / b))) ↔
      Short (a / b).natAbs ∧ (a / b).natAbs < doubleBound := by
  rw [valueOf_quotient, Except.ok.injEq, outcome_ok_iff, div_exact_iff a b nonzero divides]

theorem remainder_exact_iff (nonzero : b ≠ 0) :
    (∃ rest, valueOf "x % y" (operands a b) = .ok (.ok (.ofInt rest)) ∧ Remainder a b rest) ↔
      ∃ left right, RoundsTo a.natAbs left ∧ RoundsTo b.natAbs right ∧
        left < doubleBound ∧ right < doubleBound ∧ left % right = a.natAbs % b.natAbs := by
  simp only [valueOf_remainder, Except.ok.injEq, outcome_ok_iff, mod_exact_iff a b nonzero,
    roundsTo_iff]
  constructor
  · exact fun exact => ⟨_, _, rfl, rfl, exact⟩
  · rintro ⟨_, _, rfl, rfl, exact⟩
    exact exact

end

/-- Sums, differences and products of integers are exact. A division fails with these words for the
divisor nought only; a quotient without rest is exact where it is a double, and a remainder where
rounding the operands to doubles does not change it. -/
theorem integers_exact_iff (a b : Int) :
    (valueOf "x + y" (operands a b) = .ok (.ok (.ofInt (a + b))) ∧
      valueOf "x - y" (operands a b) = .ok (.ok (.ofInt (a - b))) ∧
      valueOf "x * y" (operands a b) = .ok (.ok (.ofInt (a * b)))) ∧
    ((FailsAs "x / y" (operands a b) "division by zero" ↔ b = 0) ∧
      (FailsAs "x % y" (operands a b) "division by zero" ↔ b = 0)) ∧
    (b ≠ 0 → b ∣ a →
      (valueOf "x / y" (operands a b) = .ok (.ok (.ofInt (a / b))) ↔
        Short (a / b).natAbs ∧ (a / b).natAbs < doubleBound)) ∧
    (b ≠ 0 →
      ((∃ rest, valueOf "x % y" (operands a b) = .ok (.ok (.ofInt rest)) ∧ Remainder a b rest) ↔
        ∃ left right, RoundsTo a.natAbs left ∧ RoundsTo b.natAbs right ∧
          left < doubleBound ∧ right < doubleBound ∧ left % right = a.natAbs % b.natAbs)) := by
  refine ⟨⟨valueOf_sum a b, valueOf_difference a b, valueOf_product a b⟩, ⟨?_, ?_⟩, ?_, ?_⟩
  · rw [failsAs_iff _ _ _ (valueOf_quotient a b), div_zero_iff]
  · rw [failsAs_iff _ _ _ (valueOf_remainder a b), mod_zero_iff]
  · exact quotient_exact_iff a b
  · exact remainder_exact_iff a b

/-- Large operands that are doubles: `-3 * 2 ^ 70` by 8, and the remainder of `-(2 ^ 70 + 2 ^ 20)`
by 1000. -/
theorem large_doubles_exact :
    ((8 : Int) ≠ 0 ∧ (8 : Int) ∣ -3541774862152233910272 ∧
      valueOf "x / y" (operands (-3541774862152233910272) 8) =
        .ok (.ok (.ofInt (-442721857769029238784)))) ∧
    ((1000 : Int) ≠ 0 ∧
      ∃ rest, valueOf "x % y" (operands (-1180591620717412352000) 1000) = .ok (.ok (.ofInt rest)) ∧
        Remainder (-1180591620717412352000) 1000 rest) := by
  have whole : (8 : Int) ∣ -3541774862152233910272 := by decide +kernel
  have few : Short 442721857769029238784 ∧ 442721857769029238784 < doubleBound :=
    ⟨⟨3, 67, by decide, by decide +kernel⟩, by decide +kernel⟩
  have short : Short 1180591620717412352000 := ⟨2 ^ 50 + 1, 20, by decide, by decide +kernel⟩
  have shortToo : Short 1000 := ⟨1000, 0, by decide, rfl⟩
  obtain ⟨_, _, quotient, _⟩ := integers_exact_iff (-3541774862152233910272) 8
  obtain ⟨_, _, _, remainder⟩ := integers_exact_iff (-1180591620717412352000) 1000
  refine ⟨⟨by decide, whole, (quotient (by decide) whole).mpr few⟩, by decide, ?_⟩
  refine (remainder (by decide)).mpr ⟨1180591620717412352000, 1000, ?_, ?_, ?_, ?_, rfl⟩
  · exact (roundsTo_iff _ _).mpr ((rounded_eq_self_iff _).mpr short).symm
  · exact (roundsTo_iff _ _).mpr ((rounded_eq_self_iff _).mpr shortToo).symm
  · decide +kernel
  · decide +kernel

/-- Beyond 53 binary digits an odd dividend loses its last one: the remainder by 2 is nought, and a
division by 1 changes it. -/
theorem integers_rounded :
    (valueOf "x % y" (operands 9007199254740993 2) = .ok (.ok (.ofInt 0)) ∧
      ¬ ∃ rest, valueOf "x % y" (operands 9007199254740993 2) = .ok (.ok (.ofInt rest)) ∧
        Remainder 9007199254740993 2 rest) ∧
    valueOf "x / y" (operands 9007199254740993 1) = .ok (.ok (.ofInt 9007199254740992)) := by
  have rest : Number.mod (.int 9007199254740993) (.int 2) = .ok (.int 0) := by decide +kernel
  have quotient : Number.div (.int 9007199254740993) (.int 1) = .ok (.int 9007199254740992) := by
    decide +kernel
  refine ⟨⟨?_, ?_⟩, ?_⟩
  · rw [valueOf_remainder, rest]
    rfl
  · rw [valueOf_remainder, rest]
    rintro ⟨value, same, remainder⟩
    have zero : (0 : Int) = value := by
      simpa only [Except.ok.injEq, outcome_ok_iff, Number.int.injEq] using same
    rw [remainder_iff _ _ _ (by decide), ← zero] at remainder
    exact absurd remainder (by decide)
  · rw [valueOf_quotient, quotient]
    rfl

end Keymap.Expr
