import Mathlib.Data.Rat.Floor

/-!
What C does with numbers in floating point besides its operators: conversions between `float` and
`double`, and from a `float` to an integer. The numbers and the operators are Lean's own.
-/

namespace LuaMumble.Lib.FloatConversion

open Float.Model (Format UnpackedFloat)

/-- A number, rounded to the nearest one of a format. -/
def convert (format : Format) : UnpackedFloat → UnpackedFloat
  | .finite sign mantissa exponent _ => .round format sign mantissa exponent
  | x => x

def toSingle (x : Float) : Float32 := .ofModel (.pack (convert .binary32 x.toModel.unpack))

def toDouble (x : Float32) : Float := .ofModel (.pack (convert .binary64 x.toModel.unpack))

/-- The whole part as an `int64_t`. For other numbers the conversion is undefined. -/
def truncate (x : Float32) : Option Int :=
  let whole := x.toModel.unpack.toInt 0 0
  if x.isFinite = true ∧ -2 ^ 63 ≤ whole ∧ whole < 2 ^ 63 then some whole else none

/-- The number that a finite float stands for. -/
def value (x : Float) : ℚ :=
  match x.toModel.unpack with
  | .finite sign mantissa exponent _ => sign.apply mantissa * 2 ^ exponent
  | _ => 0

/-- Zero, with any sign. -/
def IsZero (x : Float32) : Prop := ∃ sign, x.toModel.unpack = .zero sign

theorem unpack_pack_zero (sign : UnpackedFloat.Sign) :
    (Float.Model.pack (.zero sign)).unpack = .zero sign := by
  cases sign with
  | positive => rfl
  | negative => rfl

theorem unpack_pack_nan : (Float.Model.pack .notANumber).unpack = .notANumber := rfl

theorem unpack_toSingle_zero (sign : UnpackedFloat.Sign) {x : Float}
    (hx : x.toModel.unpack = .zero sign) : (toSingle x).toModel.unpack = .zero sign := by
  rw [toSingle, hx]
  cases sign with
  | positive => rfl
  | negative => rfl

theorem unpack_toSingle_nan {x : Float} (hx : x.toModel.unpack = .notANumber) :
    (toSingle x).toModel.unpack = .notANumber := by
  rw [toSingle, hx]
  rfl

/-- A product with 0 is 0 for a finite number. -/
theorem mul_zero_of_finite {x : UnpackedFloat} (hx : x.isFinite = true) :
    ∃ sign, UnpackedFloat.mul .binary64 x (.zero .positive) = .zero sign := by
  cases x with
  | notANumber => cases hx
  | infinity sign => cases hx
  | zero sign => exact ⟨_, rfl⟩
  | finite sign mantissa exponent hpos => exact ⟨_, rfl⟩

/-- For the others it is no number. -/
theorem mul_zero_of_not_finite {x : UnpackedFloat} (hx : x.isFinite = false) :
    UnpackedFloat.mul .binary64 x (.zero .positive) = .notANumber := by
  cases x with
  | notANumber => rfl
  | infinity sign => rfl
  | zero sign => cases hx
  | finite sign mantissa exponent hpos => cases hx

theorem isZero_mul_zero_iff (x : Float) :
    IsZero (toSingle (x * toDouble 0)) ↔ x.isFinite = true := by
  have hmul : (x * toDouble 0).toModel.unpack =
      (Float.Model.pack (.mul .binary64 x.toModel.unpack (.zero .positive))).unpack := rfl
  have hfinite : x.isFinite = x.toModel.unpack.isFinite := rfl
  constructor
  · rintro ⟨sign, hzero⟩
    by_contra hnot
    rw [hfinite, Bool.not_eq_true] at hnot
    rw [mul_zero_of_not_finite hnot, unpack_pack_nan] at hmul
    rw [unpack_toSingle_nan hmul] at hzero
    cases hzero
  · intro hx
    rw [hfinite] at hx
    obtain ⟨sign, hzero⟩ := mul_zero_of_finite hx
    rw [hzero, unpack_pack_zero] at hmul
    exact ⟨sign, unpack_toSingle_zero sign hmul⟩

end LuaMumble.Lib.FloatConversion
