import LuaMumble.Lib.Precision

/-!
Fractions in a binary floating point format of `p` significant bits that are not negative,
without a bound on the exponent: the quotient of two whole numbers, and products with a whole
number, each rounded to the nearest fraction of the format, and to the even one of two equally
near.
-/

namespace LuaMumble.Lib

/-- The fraction `mantissa / 2 ^ shift`. -/
structure BinaryFraction where
  mantissa : Nat
  shift : Nat

namespace BinaryFraction

open Precision

/-- The whole number nearest to `n / d`. -/
def divNearestEven (n d : Nat) : Nat :=
  if 2 * (n % d) < d ∨ (2 * (n % d) = d ∧ n / d % 2 = 0) then n / d else n / d + 1

/-- By how many places `n / d` is shifted to have `p` bits before the point. -/
def quotientShift (p n d : Nat) : Nat := Nat.log2 ((d * 2 ^ p - 1) / n)

/-- `n / d`. A quotient of more than `p` bits before the point is rounded there. -/
def ofQuotient (p n d : Nat) : BinaryFraction :=
  if n < d * 2 ^ p then
    { mantissa := divNearestEven (n * 2 ^ quotientShift p n d) d
      shift := quotientShift p n d }
  else
    { mantissa := divNearestEven n (d * unit p (n / d)) * unit p (n / d)
      shift := 0 }

def times (p : Nat) (x : BinaryFraction) (n : Nat) : BinaryFraction :=
  { mantissa := roundNearestEven p (x.mantissa * n)
    shift := x.shift }

/-- The whole part. -/
def trunc (x : BinaryFraction) : Nat := x.mantissa / 2 ^ x.shift

variable {p n d : Nat}

/-- The shifted quotient has `p` bits before the point: it is below `2 ^ p` and, with one place
more, it is not. -/
theorem quotientShift_bounds (hn : 0 < n) (hlt : n < d * 2 ^ p) :
    n * 2 ^ quotientShift p n d < d * 2 ^ p ∧ d * 2 ^ p ≤ 2 * (n * 2 ^ quotientShift p n d) := by
  have hpos : (d * 2 ^ p - 1) / n ≠ 0 := by
    apply Nat.ne_of_gt
    exact Nat.div_pos (by omega) hn
  constructor
  · have hle := (Nat.le_div_iff_mul_le hn).mp (Nat.log2_self_le hpos)
    rw [Nat.mul_comm] at hle
    unfold quotientShift
    omega
  · have hless := (Nat.div_lt_iff_lt_mul hn).mp (Nat.lt_log2_self (n := (d * 2 ^ p - 1) / n))
    rw [Nat.pow_succ] at hless
    unfold quotientShift
    have hswap : 2 ^ ((d * 2 ^ p - 1) / n).log2 * 2 * n =
        2 * (n * 2 ^ ((d * 2 ^ p - 1) / n).log2) := by ring
    omega

/-- Rounding up. -/
theorem divNearestEven_of_lt (hd : d < 2 * (n % d)) : divNearestEven n d = n / d + 1 := by
  rw [divNearestEven, if_neg]
  omega

/-- Rounding down. -/
theorem divNearestEven_of_gt (hd : 2 * (n % d) < d) : divNearestEven n d = n / d := by
  rw [divNearestEven, if_pos (Or.inl hd)]

end BinaryFraction

end LuaMumble.Lib
