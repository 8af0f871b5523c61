import Mathlib.Data.Rat.Floor

/-!
# Rounded arithmetic

An operation in floating point computes the exact result and rounds it. Which numbers it can
round to, and how, is the machine's: a `Rounding` names the two roundings that a program with
single and double precision meets. A program that rounds after each operation is then written
over exact rationals, and what holds of it for every `Rounding` holds on every such machine.

`exact` never rounds. `ieee` rounds to the nearest number with 24 or 53 binary digits, a tie
to the one with the even last digit; its exponents are unbounded, so it has no overflow and no
subnormal numbers.
-/

/-- How the result of an operation is rounded, in single and in double precision. -/
class Rounding where
  float : ℚ → ℚ
  double : ℚ → ℚ

namespace Rounding

@[reducible] def exact : Rounding := ⟨id, id⟩

/-- `2 ^ e` for an exponent of either sign. -/
def pow2 (e : Int) : ℚ := if 0 ≤ e then (2 ^ e.toNat : Nat) else 1 / (2 ^ (-e).toNat : Nat)

/-- The nearest integer, of two equally near ones the even one. -/
def nearestInt (x : ℚ) : Int :=
  let below := x.floor
  if x - below < 1 / 2 then below
  else if 1 / 2 < x - below then below + 1
  else if below % 2 = 0 then below
  else below + 1

/-- The exponent `e` with `2 ^ e ≤ |x| < 2 ^ (e + 1)`, for `x ≠ 0`. -/
def exponent (x : ℚ) : Int :=
  let e : Int := Nat.log2 x.num.natAbs - Nat.log2 x.den
  if (x.num.natAbs : ℚ) / x.den < pow2 e then e - 1 else e

/-- The nearest number with `digits` binary digits. -/
def nearest (digits : Nat) (x : ℚ) : ℚ :=
  let ulp := pow2 (exponent x + 1 - digits)
  nearestInt (x / ulp) * ulp

@[reducible] def ieee : Rounding := ⟨nearest 24, nearest 53⟩

example : ieee.float (1 / 10) = 13421773 / 2 ^ 27 := by decide +kernel

end Rounding
