import Mathlib.Algebra.Polynomial.Div
import Mathlib.Algebra.Polynomial.Monic
import Mathlib.Algebra.Field.ZMod
import Mathlib.Tactic

/-!
Bit strings as polynomials over the field of two elements. Bit `i` is the
coefficient of `X ^ i`, addition is exclusive or, and multiplication by `X`
modulo a polynomial of degree `w` is a shift by one bit followed by the
exclusive or with the low part of that polynomial when a bit fell out.
-/

namespace LuaMumble.Lib.BinaryPolynomial

open Polynomial

/-- A bit as an element of the field. -/
def bit (b : Bool) : ZMod 2 :=
  if b then 1 else 0

@[simp] theorem bit_false : bit false = 0 := rfl

@[simp] theorem bit_true : bit true = 1 := rfl

theorem bit_xor (a b : Bool) : bit (a ^^ b) = bit a + bit b := by
  cases a <;> cases b <;> decide

theorem bit_and_cancel (a b : Bool) : bit (a && b) + bit b * bit a = 0 := by
  cases a <;> cases b <;> decide

/-- The polynomial whose coefficients are the first `w` bits. -/
noncomputable def poly (w : Nat) (bits : Nat → Bool) : (ZMod 2)[X] :=
  ∑ i ∈ Finset.range w, C (bit (bits i)) * X ^ i

theorem coeff_poly (w : Nat) (bits : Nat → Bool) (i : Nat) :
    (poly w bits).coeff i = if i < w then bit (bits i) else 0 := by
  simp [poly, Polynomial.coeff_X_pow]

theorem poly_congr {w : Nat} {a b : Nat → Bool} (h : ∀ i < w, a i = b i) :
    poly w a = poly w b := by
  apply Finset.sum_congr rfl
  intro i hi
  rw [h i (Finset.mem_range.mp hi)]

theorem poly_xor (w : Nat) (a b : Nat → Bool) :
    poly w (fun i => a i ^^ b i) = poly w a + poly w b := by
  ext i
  rw [coeff_add, coeff_poly, coeff_poly, coeff_poly]
  split
  · exact bit_xor _ _
  · simp

theorem degree_poly_lt (w : Nat) (bits : Nat → Bool) : (poly w bits).degree < w := by
  rw [degree_lt_iff_coeff_zero]
  intro i hi
  rw [coeff_poly, if_neg (by omega)]

/-- `X ^ w` and the low part of the modulus. -/
noncomputable def modulus (w : Nat) (low : Nat → Bool) : (ZMod 2)[X] :=
  X ^ w + poly w low

theorem modulus_monic (w : Nat) (low : Nat → Bool) : (modulus w low).Monic :=
  monic_X_pow_add (degree_poly_lt w low)

theorem degree_modulus (w : Nat) (low : Nat → Bool) : (modulus w low).degree = w := by
  rw [modulus, degree_add_eq_left_of_degree_lt]
  · exact degree_X_pow w
  · rw [degree_X_pow]
    exact degree_poly_lt w low

/-- A shift by one bit; the bit that falls out brings in the low part. -/
def double (w : Nat) (low bits : Nat → Bool) (i : Nat) : Bool :=
  (decide (0 < i) && bits (i - 1)) ^^ (bits (w - 1) && low i)

theorem X_mul_poly (w : Nat) (low bits : Nat → Bool) (hw : 0 < w) :
    poly w (double w low bits) + modulus w low * C (bit (bits (w - 1))) = X * poly w bits := by
  ext i
  rw [coeff_add, coeff_mul_C, modulus, coeff_add, coeff_X_pow, coeff_poly, coeff_poly]
  cases i with
  | zero =>
      rw [coeff_X_mul_zero, if_pos hw, if_pos hw, if_neg (by omega), double, bit_xor]
      simpa using bit_and_cancel (bits (w - 1)) (low 0)
  | succ i =>
      rw [coeff_X_mul, coeff_poly]
      rcases Nat.lt_trichotomy (i + 1) w with hlt | heq | hgt
      · rw [if_pos hlt, if_pos hlt, if_neg (by omega), if_pos (by omega), double, bit_xor,
          zero_add, add_assoc, bit_and_cancel]
        simp
      · subst heq
        simp
      · rw [if_neg (by omega), if_neg (by omega), if_neg (by omega), if_neg (by omega)]
        simp

/-- Doubling is multiplication by `X` modulo the modulus. -/
theorem poly_double (w : Nat) (low bits : Nat → Bool) (hw : 0 < w) :
    poly w (double w low bits) = X * poly w bits %ₘ modulus w low := by
  have hdegree : (poly w (double w low bits)).degree < (modulus w low).degree := by
    rw [degree_modulus]
    exact degree_poly_lt _ _
  exact ((div_modByMonic_unique _ _ (modulus_monic w low)
    ⟨X_mul_poly w low bits hw, hdegree⟩).2).symm

/-- Doubling and adding the original is multiplication by `X + 1`. -/
theorem poly_double_xor (w : Nat) (low bits : Nat → Bool) (hw : 0 < w) :
    poly w (fun i => bits i ^^ double w low bits i) =
      (X + 1) * poly w bits %ₘ modulus w low := by
  have hself : poly w bits %ₘ modulus w low = poly w bits := by
    rw [modByMonic_eq_self_iff (modulus_monic w low), degree_modulus]
    exact degree_poly_lt _ _
  rw [poly_xor, poly_double w low bits hw, add_mul, one_mul, add_modByMonic, hself, add_comm]

end LuaMumble.Lib.BinaryPolynomial
