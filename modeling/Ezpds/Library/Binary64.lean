import Mathlib.Algebra.Group.Int.Defs
import Mathlib.Algebra.Group.Nat.Defs
import Mathlib.Data.Nat.Log
import Mathlib.Data.Rat.Defs
import Mathlib.Tactic.Common

/-!
# Doubles by their exact values

The finite values of the IEEE 754 binary64 format are rationals, and an integer is converted
to the nearest of them, with ties to the even significand. Nothing here is rounded except by
that conversion.

* `two_pow_le_round`: the conversion does not cross a power of two downwards.
-/

namespace Ezpds.Library.Binary64

def exponent (bits : UInt64) : Nat :=
  bits.toNat / 2 ^ 52 % 2 ^ 11

def fraction (bits : UInt64) : Nat :=
  bits.toNat % 2 ^ 52

/-- The significand with its sign, in units of `2 ^ (scale - 1075)`. -/
def significand (bits : UInt64) : Int :=
  let magnitude := if exponent bits = 0 then fraction bits else 2 ^ 52 + fraction bits
  if 2 ^ 63 ≤ bits.toNat then -magnitude else magnitude

def scale (bits : UInt64) : Nat :=
  max (exponent bits) 1

/-- The exact value of a double; infinities and NaN have none. -/
def value (bits : UInt64) : Option ℚ :=
  if exponent bits = 2 ^ 11 - 1 then none
  else if 1075 ≤ scale bits then some (mkRat (significand bits * 2 ^ (scale bits - 1075)) 1)
  else some (mkRat (significand bits) (2 ^ (1075 - scale bits)))

/-- The integer that a value is, if it has no fractional part. -/
def integral (q : ℚ) : Option Int :=
  if q.den = 1 then some q.num else none

/-- An unsigned integer as a double: 53 significant bits, ties to even. -/
def round (n : Nat) : Nat :=
  let shift := Nat.log2 n - 52
  let quotient := n / 2 ^ shift
  let rest := n % 2 ^ shift
  if 2 ^ shift < 2 * rest ∨ 2 ^ shift = 2 * rest ∧ quotient % 2 = 1 then
    (quotient + 1) * 2 ^ shift
  else quotient * 2 ^ shift

theorem integral_mkRat_one (i : Int) : integral (mkRat i 1) = some i := by
  have hCast : mkRat i 1 = (i : ℚ) := Rat.mkRat_one i
  rw [integral, hCast, Rat.den_intCast, Rat.num_intCast, if_pos rfl]

theorem quotient_le_round (n : Nat) :
    n / 2 ^ (Nat.log2 n - 52) * 2 ^ (Nat.log2 n - 52) ≤ round n := by
  unfold round
  dsimp only
  split
  · exact Nat.mul_le_mul_right _ (Nat.le_succ _)
  · exact Nat.le_refl _

theorem two_pow_le_round {n m : Nat} (h : 2 ^ m ≤ n) : 2 ^ m ≤ round n := by
  have hNe : n ≠ 0 := by
    have := Nat.two_pow_pos m
    omega
  have hLog : m ≤ Nat.log2 n := (Nat.le_log2 hNe).mpr h
  refine le_trans ?_ (quotient_le_round n)
  by_cases hShift : m ≤ Nat.log2 n - 52
  · have hOne : 1 ≤ n / 2 ^ (Nat.log2 n - 52) := by
      rw [Nat.le_div_iff_mul_le (Nat.two_pow_pos _), Nat.one_mul]
      exact le_trans (Nat.pow_le_pow_right (by omega) (Nat.sub_le _ _)) (Nat.log2_self_le hNe)
    calc 2 ^ m ≤ 2 ^ (Nat.log2 n - 52) := Nat.pow_le_pow_right (by omega) hShift
      _ ≤ n / 2 ^ (Nat.log2 n - 52) * 2 ^ (Nat.log2 n - 52) :=
        Nat.le_mul_of_pos_left _ hOne
  · have hSplit : 2 ^ m = 2 ^ (m - (Nat.log2 n - 52)) * 2 ^ (Nat.log2 n - 52) := by
      rw [← Nat.pow_add]
      congr 1
      omega
    rw [hSplit]
    apply Nat.mul_le_mul_right
    rw [Nat.le_div_iff_mul_le (Nat.two_pow_pos _), ← hSplit]
    exact h

end Ezpds.Library.Binary64
