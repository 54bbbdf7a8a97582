import Keymap.Number.Basic
import Mathlib

/-!
What the bits of a double stand for. A significand that is put into them at a place is read back
with its exponent (`ofFloat_code`), and a double is a whole number where its significand, scaled by
its exponent, is one (`IsWhole`).
-/

set_option autoImplicit false

namespace Keymap.Number

open Float.Model UnpackedFloat

theorem twoTo_eq (exponent : Nat) : twoTo exponent = 2 ^ exponent := rfl

namespace Binary

/-- A double keeps the bits that it is made of, unless they stand for no number. -/
theorem toBits_ofBits (bits : UInt64)
    (number : bits.toNat / 2 ^ 52 % 2 ^ 11 = 2047 → bits.toNat % 2 ^ 52 = 0) :
    (Float.ofBits bits).toBits = bits := by
  have valid : Format.binary64.Valid bits.toBitVec := by
    constructor
    intro exponent mantissa
    have ones : bits.toNat / 2 ^ 52 % 2 ^ 11 = 2047 := by
      have shown := congrArg BitVec.toNat exponent
      simpa [unpackExponent, BitVec.extractLsb_toNat, Nat.shiftRight_eq_div_pow] using shown
    refine absurd ?_ mantissa
    apply BitVec.eq_of_toNat_eq
    simpa [unpackMantissa, BitVec.extractLsb_toNat] using number ones
  exact congrArg Float.toBits (Float.ofBits_toBits ⟨⟨bits, valid⟩⟩)

theorem signBit_eq (negative : Bool) : signBit negative = negative.toNat * 2 ^ 63 := by
  cases negative <;> rfl

theorem toNat_toBits (negative : Bool) (rest : Nat) (finite : rest < 2047 * 2 ^ 52) :
    (Float.ofBits (UInt64.ofNat (signBit negative + rest))).toBits.toNat =
      signBit negative + rest := by
  have sign := Bool.toNat_le negative
  have kept : (UInt64.ofNat (signBit negative + rest)).toNat = signBit negative + rest := by
    rw [signBit_eq, UInt64.toNat_ofNat', Nat.mod_eq_of_lt (by omega)]
  rw [toBits_ofBits, kept]
  rw [kept, signBit_eq]
  omega

/-- A significand of 53 binary digits is read back at the place where it was put. -/
theorem ofFloat_code (negative : Bool) (place significand : Nat) (normal : 2 ^ 52 ≤ significand)
    (short : significand < 2 ^ 53) (finite : place * 2 ^ 52 + significand < 2047 * 2 ^ 52) :
    ofFloat (Float.ofBits (UInt64.ofNat (signBit negative + (place * 2 ^ 52 + significand)))) =
      .finite negative significand (place - 1074) := by
  let bits := signBit negative + (place * 2 ^ 52 + significand)
  have above := Bool.toNat_le negative
  have sign : bits / twoTo 63 = negative.toNat := by
    simp only [bits, signBit_eq, twoTo_eq]
    omega
  have biased : bits / twoTo 52 % twoTo 11 = place + 1 := by
    simp only [bits, signBit_eq, twoTo_eq]
    omega
  have fraction : twoTo 52 + bits % twoTo 52 = significand := by
    simp only [bits, signBit_eq, twoTo_eq]
    omega
  have finitePlace : place + 1 ≠ 2047 := by omega
  unfold ofFloat
  rw [toNat_toBits negative _ finite]
  simp only [bits] at sign biased fraction
  simp only [sign, biased, fraction, if_neg finitePlace, if_neg (Nat.succ_ne_zero place)]
  congr 1
  · cases negative <;> rfl
  · omega

theorem ofFloat_zero (negative : Bool) :
    ofFloat (Float.ofBits (UInt64.ofNat (signBit negative))) = .finite negative 0 (-1074) := by
  cases negative <;> decide +kernel

theorem ofFloat_infinity (negative : Bool) : ofFloat (infinity negative) = .infinite negative := by
  cases negative <;> decide +kernel

end Binary

def signed (negative : Bool) (size : Nat) : Int := if negative then -size else size

/-- A double that is a whole number; nought has a sign too. -/
def IsWhole (x : Float) (negative : Bool) (size : Nat) : Prop :=
  ∃ (significand : Nat) (exponent : Int),
    Binary.ofFloat x = .finite negative significand exponent ∧
      significand * twoTo exponent.toNat = size * twoTo (-exponent).toNat

theorem wholeValue?_of_isWhole (x : Float) (negative : Bool) (size : Nat)
    (whole : IsWhole x negative size) :
    wholeValue? x = some (signed negative size) := by
  obtain ⟨significand, exponent, shape, value⟩ := whole
  have divisorPos := twoTo_pos (-exponent).toNat
  -- One of the two powers is 1, for an exponent and its negation are not both positive.
  have divides : significand % twoTo (-exponent).toNat = 0 ∧
      significand / twoTo (-exponent).toNat * twoTo exponent.toNat = size := by
    rcases le_total 0 exponent with up | down
    · have one : (-exponent).toNat = 0 := by omega
      rw [one, twoTo_zero, Nat.mul_one] at value
      rw [one, twoTo_zero, Nat.div_one]
      exact ⟨Nat.mod_one _, value⟩
    · have one : exponent.toNat = 0 := by omega
      rw [one, twoTo_zero, Nat.mul_one] at value
      rw [one, twoTo_zero, Nat.mul_one, value, Nat.mul_mod_left, Nat.mul_div_cancel _ divisorPos]
      exact ⟨rfl, rfl⟩
  unfold wholeValue?
  simp only [shape, if_pos divides.1]
  rw [← divides.2, signed]
  push_cast
  rfl

theorem settle_whole (x : Float) (negative : Bool) (size : Nat)
    (whole : IsWhole x negative size) :
    settle (.float x) = .int (signed negative size) := by
  rw [settle, wholeValue?_of_isWhole x negative size whole]

end Keymap.Number
