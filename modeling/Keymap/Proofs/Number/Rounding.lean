import Keymap.Number.Binary
import Mathlib.Data.Nat.Dist
import Mathlib.Tactic.Ring

/-!
Rounding of naturals to 53 binary digits. `RoundsTo` says what the rounded natural is: the nearest
of the short ones, half-way the more even one. It has one solution, and the rounded quotient by a
power of two is it (`roundsTo_rounded`). Remainders of short naturals are short (`Short.mod`).
-/

set_option autoImplicit false

namespace Keymap.Number

/-- A natural of at most 53 binary digits, apart from the zeros that it ends in. -/
def Short (size : Nat) : Prop :=
  ∃ significand place, significand < 2 ^ 53 ∧ size = significand * 2 ^ place

structure RoundsTo (size result : Nat) : Prop where
  short : Short result
  closest : ∀ other, Short other → Nat.dist size result ≤ Nat.dist size other
  /-- Of two that are equally close the one is taken that a higher power of two divides. -/
  even : ∀ other, Short other → other ≠ result → Nat.dist size result = Nat.dist size other →
    ∃ place, 2 ^ place ∣ result ∧ ¬ 2 ^ place ∣ other

theorem RoundsTo.unique (size first second : Nat) (left : RoundsTo size first)
    (right : RoundsTo size second) : first = second := by
  by_contra different
  have close := Nat.le_antisymm (left.closest second right.short) (right.closest first left.short)
  obtain ⟨low, divides, doesNot⟩ := left.even second right.short (Ne.symm different) close
  obtain ⟨high, dividesToo, neither⟩ := right.even first left.short different close.symm
  rcases Nat.le_total low high with below | below
  · exact doesNot ((Nat.pow_dvd_pow 2 below).trans dividesToo)
  · exact neither ((Nat.pow_dvd_pow 2 below).trans divides)

/-- The place of the last of 53 binary digits. -/
def lastPlace (size : Nat) : Nat := size.log2 - 52

/-- A natural rounded to 53 binary digits. -/
def rounded (size : Nat) : Nat :=
  Binary.roundedQuotient size 1 (lastPlace size) * 2 ^ lastPlace size

/-- What a count of units and a rest is rounded to: the nearest count, half-way the even one. -/
def HalfEven (unit quotient rest result : Nat) : Prop :=
  (2 * rest < unit ∧ result = quotient) ∨ (unit < 2 * rest ∧ result = quotient + 1) ∨
    (2 * rest = unit ∧ result % 2 = 0 ∧ (result = quotient ∨ result = quotient + 1))

theorem halfEven_roundedQuotient (size place : Nat) :
    HalfEven (2 ^ place) (size / 2 ^ place) (size % 2 ^ place)
      (Binary.roundedQuotient size 1 place) := by
  have scaled : size * twoTo (-(place : Int)).toNat = size := by
    rw [show (-(place : Int)).toNat = 0 by omega, twoTo_zero, Nat.mul_one]
  have divisor : 1 * twoTo (place : Int).toNat = 2 ^ place := Nat.one_mul _
  simp only [HalfEven, Binary.roundedQuotient, scaled, divisor, Bool.or_eq_true, Bool.and_eq_true,
    decide_eq_true_eq]
  split <;> omega

namespace HalfEven

variable {unit quotient rest result : Nat}

theorem neighbour (rounds : HalfEven unit quotient rest result) :
    result = quotient ∨ result = quotient + 1 := by
  unfold HalfEven at rounds
  omega

/-- The error is at most half a unit, and at most what lies above the lower neighbour. -/
theorem error (rounds : HalfEven unit quotient rest result) (less : rest < unit) :
    2 * Nat.dist (quotient * unit + rest) (result * unit) ≤ unit ∧
      Nat.dist (quotient * unit + rest) (result * unit) ≤ rest := by
  have next : (quotient + 1) * unit = quotient * unit + unit := Nat.succ_mul _ _
  have neighbour := rounds.neighbour
  unfold HalfEven at rounds
  unfold Nat.dist
  rcases neighbour with rfl | rfl <;> omega

/-- A multiple of the unit other than the two neighbours is at least a unit away. -/
theorem unit_le_dist (less : rest < unit) (count : Nat) (notBelow : count ≠ quotient)
    (notAbove : count ≠ quotient + 1) :
    unit ≤ Nat.dist (quotient * unit + rest) (count * unit) := by
  unfold Nat.dist
  rcases Nat.lt_or_gt_of_ne notBelow with low | high
  · have apart := Nat.mul_le_mul_right unit (Nat.succ_le_of_lt low)
    rw [Nat.succ_mul] at apart
    omega
  · have apart : (quotient + 2) * unit ≤ count * unit := Nat.mul_le_mul_right unit (by omega)
    rw [Nat.add_mul] at apart
    omega

theorem closest (rounds : HalfEven unit quotient rest result) (less : rest < unit) (count : Nat) :
    Nat.dist (quotient * unit + rest) (result * unit) ≤
      Nat.dist (quotient * unit + rest) (count * unit) := by
  have next : (quotient + 1) * unit = quotient * unit + unit := Nat.succ_mul _ _
  have atMost := rounds.error less
  by_cases isNeighbour : count = quotient ∨ count = quotient + 1
  · unfold Nat.dist at atMost ⊢
    rcases isNeighbour with rfl | rfl <;> rcases rounds.neighbour with rfl | rfl <;> omega
  · obtain ⟨notBelow, notAbove⟩ := not_or.mp isNeighbour
    have far := unit_le_dist less count notBelow notAbove
    omega

/-- Only the two neighbours can be equally far, and half-way the even one was taken. -/
theorem tie (rounds : HalfEven unit quotient rest result) (less : rest < unit) (count : Nat)
    (other : count ≠ result) (close : Nat.dist (quotient * unit + rest) (result * unit) =
      Nat.dist (quotient * unit + rest) (count * unit)) : result % 2 = 0 ∧ count % 2 = 1 := by
  have next : (quotient + 1) * unit = quotient * unit + unit := Nat.succ_mul _ _
  have atMost := rounds.error less
  have isNeighbour : count = quotient ∨ count = quotient + 1 := by
    by_contra neither
    obtain ⟨notBelow, notAbove⟩ := not_or.mp neither
    have far := unit_le_dist less count notBelow notAbove
    omega
  have neighbour := rounds.neighbour
  unfold Nat.dist at close
  unfold HalfEven at rounds
  rcases isNeighbour with rfl | rfl <;> rcases neighbour with rfl | rfl <;> omega

end HalfEven

theorem lastPlace_spec (size : Nat) (wide : 2 ^ 52 ≤ size) :
    2 ^ 52 ≤ size / 2 ^ lastPlace size ∧ size / 2 ^ lastPlace size < 2 ^ 53 := by
  have nonzero : size ≠ 0 := by omega
  have high : 52 ≤ size.log2 := (Nat.le_log2 nonzero).mpr wide
  have power : 2 ^ 52 * 2 ^ lastPlace size = 2 ^ size.log2 := by
    rw [← Nat.pow_add, lastPlace, Nat.add_sub_cancel' high]
  have below := Nat.log2_self_le nonzero
  have above : size < 2 ^ (size.log2 + 1) := Nat.lt_log2_self
  constructor
  · rw [Nat.le_div_iff_mul_le (Nat.two_pow_pos _), power]
    exact below
  · rw [Nat.div_lt_iff_lt_mul (Nat.two_pow_pos _)]
    calc size < 2 ^ (size.log2 + 1) := above
      _ = 2 ^ 53 * 2 ^ lastPlace size := by rw [Nat.pow_succ, ← power]; ring

theorem rounded_narrow (size : Nat) (narrow : size < 2 ^ 53) : rounded size = size := by
  have place : lastPlace size = 0 := by
    unfold lastPlace
    by_cases zero : size = 0
    · rw [zero]
      rfl
    · have := (Nat.log2_lt zero).mpr narrow
      omega
  have rounds := halfEven_roundedQuotient size 0
  simp only [HalfEven, pow_zero, Nat.div_one, Nat.mod_one] at rounds
  rw [rounded, place, pow_zero, Nat.mul_one]
  omega

theorem short_of_le (significand place : Nat) (atMost : significand ≤ 2 ^ 53) :
    Short (significand * 2 ^ place) := by
  rcases Nat.lt_or_eq_of_le atMost with less | full
  · exact ⟨significand, place, less, rfl⟩
  · refine ⟨1, place + 53, by omega, ?_⟩
    rw [full, Nat.pow_add]
    ring

/-- A short natural is a multiple of a unit or less than 52 binary digits of it. -/
theorem Short.multiple_or_less (size place : Nat) (short : Short size) :
    (∃ count, size = count * 2 ^ place) ∨ size < 2 ^ 52 * 2 ^ place := by
  obtain ⟨significand, low, few, rfl⟩ := short
  rcases Nat.lt_or_ge low place with below | above
  · right
    have half : 2 ^ low * 2 ≤ 2 ^ place := by
      rw [← Nat.pow_succ]
      exact Nat.pow_le_pow_right (by omega) below
    have less := Nat.mul_lt_mul_of_pos_right few (Nat.two_pow_pos low)
    omega
  · refine .inl ⟨significand * 2 ^ (low - place), ?_⟩
    rw [Nat.mul_assoc, ← Nat.pow_add, Nat.sub_add_cancel above]

theorem two_pow_not_dvd (place odd : Nat) (isOdd : odd % 2 = 1) :
    ¬ 2 ^ (place + 1) ∣ odd * 2 ^ place := by
  rw [Nat.pow_succ, Nat.mul_comm, Nat.mul_dvd_mul_iff_right (Nat.two_pow_pos place)]
  omega

theorem two_pow_dvd (place even : Nat) (isEven : even % 2 = 0) :
    2 ^ (place + 1) ∣ even * 2 ^ place := by
  rw [Nat.pow_succ, Nat.mul_comm]
  exact Nat.mul_dvd_mul_right (Nat.dvd_of_mod_eq_zero isEven) _

theorem roundsTo_rounded (size : Nat) : RoundsTo size (rounded size) := by
  by_cases narrow : size < 2 ^ 53
  · -- Nothing is rounded off, and no other natural is as close.
    rw [rounded_narrow size narrow]
    refine ⟨⟨size, 0, narrow, (Nat.mul_one _).symm⟩, ?_, ?_⟩
    · intro other _
      rw [Nat.dist_self]
      exact Nat.zero_le _
    · intro other _ different close
      rw [Nat.dist_self] at close
      exact absurd (Nat.eq_of_dist_eq_zero close.symm).symm different
  · obtain ⟨low, high⟩ := lastPlace_spec size (by omega)
    have rounds := halfEven_roundedQuotient size (lastPlace size)
    have parts := Nat.div_add_mod' size (2 ^ lastPlace size)
    have less := Nat.mod_lt size (Nat.two_pow_pos (lastPlace size))
    unfold rounded
    generalize lastPlace size = place at low high rounds parts less ⊢
    generalize Binary.roundedQuotient size 1 place = result at rounds ⊢
    generalize size / 2 ^ place = quotient at low high rounds parts
    generalize size % 2 ^ place = rest at rounds parts less
    subst parts
    have atMost := rounds.error less
    have neighbour := rounds.neighbour
    -- What is short and no multiple of the unit lies below both neighbours.
    have bottom : 2 ^ 52 * 2 ^ place ≤ quotient * 2 ^ place := Nat.mul_le_mul_right _ low
    have below : ∀ other, other < 2 ^ 52 * 2 ^ place →
        rest < Nat.dist (quotient * 2 ^ place + rest) other := by
      intro other small
      unfold Nat.dist
      omega
    refine ⟨short_of_le result place (by omega), ?_, ?_⟩
    · intro other short
      rcases Short.multiple_or_less other place short with ⟨count, rfl⟩ | small
      · exact rounds.closest less count
      · exact atMost.2.trans (below other small).le
    · intro other short different close
      rcases Short.multiple_or_less other place short with ⟨count, rfl⟩ | small
      · have isOther : count ≠ result := fun same => different (same ▸ rfl)
        obtain ⟨even, odd⟩ := rounds.tie less count isOther close
        exact ⟨place + 1, two_pow_dvd place result even, two_pow_not_dvd place count odd⟩
      · have far := below other small
        omega

theorem roundsTo_iff (size result : Nat) : RoundsTo size result ↔ result = rounded size :=
  ⟨fun rounds => rounds.unique size result _ (roundsTo_rounded size),
    fun same => same ▸ roundsTo_rounded size⟩

theorem rounded_eq_self_iff (size : Nat) : rounded size = size ↔ Short size := by
  constructor
  · intro same
    exact same ▸ (roundsTo_rounded size).short
  · intro short
    have close := (roundsTo_rounded size).closest size short
    rw [Nat.dist_self] at close
    exact (Nat.eq_of_dist_eq_zero (Nat.le_zero.mp close)).symm

theorem rounded_pos (size : Nat) (positive : 0 < size) : 0 < rounded size := by
  rcases Nat.lt_or_ge size (2 ^ 53) with narrow | wide
  · rw [rounded_narrow size narrow]
    exact positive
  · obtain ⟨low, _⟩ := lastPlace_spec size (by omega)
    have neighbour := (halfEven_roundedQuotient size (lastPlace size)).neighbour
    exact Nat.mul_pos (by omega) (Nat.two_pow_pos _)

/-- The remainder of a division needs no more digits than one of the two. -/
theorem Short.mod (left right : Nat) (leftShort : Short left) (rightShort : Short right) :
    Short (left % right) := by
  obtain ⟨a, p, aFew, rfl⟩ := leftShort
  obtain ⟨b, q, bFew, rfl⟩ := rightShort
  rcases Nat.eq_zero_or_pos b with rfl | positive
  · rw [Nat.zero_mul, Nat.mod_zero]
    exact ⟨a, p, aFew, rfl⟩
  · -- Both are counted in the smaller of the two units.
    rcases Nat.le_total q p with below | below
    · have same : a * 2 ^ p = a * 2 ^ (p - q) * 2 ^ q := by
        rw [Nat.mul_assoc, ← Nat.pow_add, Nat.sub_add_cancel below]
      rw [same, Nat.mul_mod_mul_right]
      exact ⟨_, q, (Nat.mod_lt _ positive).trans bFew, rfl⟩
    · have same : b * 2 ^ q = b * 2 ^ (q - p) * 2 ^ p := by
        rw [Nat.mul_assoc, ← Nat.pow_add, Nat.sub_add_cancel below]
      rw [same, Nat.mul_mod_mul_right]
      exact ⟨_, p, (Nat.mod_le _ _).trans_lt aFew, rfl⟩

end Keymap.Number
