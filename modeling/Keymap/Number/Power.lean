/-!
The powers of two and of ten that numbers are scaled by.
-/

set_option autoImplicit false

namespace Keymap.Number

def twoTo (exponent : Nat) : Nat := Nat.pow 2 exponent

def tenTo (exponent : Nat) : Nat := Nat.pow 10 exponent

theorem twoTo_zero : twoTo 0 = 1 := rfl

theorem twoTo_succ (exponent : Nat) : twoTo (exponent + 1) = twoTo exponent * 2 := rfl

theorem twoTo_pos (exponent : Nat) : 0 < twoTo exponent := by
  induction exponent with
  | zero => exact Nat.one_pos
  | succ exponent ih =>
      rw [twoTo_succ]
      exact Nat.mul_pos ih Nat.two_pos

theorem tenTo_succ (exponent : Nat) : tenTo (exponent + 1) = tenTo exponent * 10 := rfl

theorem tenTo_pos (exponent : Nat) : 0 < tenTo exponent := by
  induction exponent with
  | zero => exact Nat.one_pos
  | succ exponent ih =>
      rw [tenTo_succ]
      exact Nat.mul_pos ih (by omega)

end Keymap.Number
