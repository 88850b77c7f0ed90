import Mathlib.Algebra.Ring.Nat
import Mathlib.Data.Nat.Size
import Mathlib.Tactic.Ring

/-!
Whole numbers in a binary floating point format of `p` significant bits, without
a bound on the exponent. A number that is not representable is rounded to the
nearest one that is, and to the even one of two equally near.
-/

namespace LuaMumble.Lib.Precision

/-- The distance of representable numbers around `n`. -/
def unit (p n : Nat) : Nat := 2 ^ (n.size - p)

def roundNearestEven (p n : Nat) : Nat :=
  let u := unit p n
  let q := n / u
  let r := n % u
  if 2 * r < u ∨ (2 * r = u ∧ q % 2 = 0) then q * u else (q + 1) * u

/-- A whole number with its sign. -/
def roundInt (p : Nat) (n : Int) : Int := n.sign * roundNearestEven p n.natAbs

/-- A number of at most `p` bits, followed by zeros. -/
def Representable (p n : Nat) : Prop :=
  ∃ m e, m < 2 ^ p ∧ n = m * 2 ^ e

variable {p n : Nat}

theorem unit_pos : 0 < unit p n := Nat.two_pow_pos _

theorem unit_le (hp : 0 < p) (hn : 0 < n) : unit p n ≤ n := by
  have hsize : 0 < n.size := Nat.size_pos.mpr hn
  exact (Nat.pow_le_pow_right (by omega) (by omega)).trans
    (Nat.lt_size.mp (Nat.sub_lt hsize hp))

theorem representable_of_lt (hn : n < 2 ^ p) : Representable p n :=
  ⟨n, 0, hn, by simp⟩

theorem representable_iff_unit_dvd : Representable p n ↔ unit p n ∣ n := by
  constructor
  · rintro ⟨m, e, hm, rfl⟩
    have hsize : (m * 2 ^ e).size ≤ p + e := by
      rw [Nat.size_le, Nat.pow_add]
      exact Nat.mul_lt_mul_of_pos_right hm (Nat.two_pow_pos e)
    exact Nat.dvd_mul_left_of_dvd (Nat.pow_dvd_pow 2 (by omega)) m
  · intro hdvd
    refine ⟨n / unit p n, n.size - p, ?_, (Nat.div_mul_cancel hdvd).symm⟩
    apply Nat.div_lt_of_lt_mul
    calc
      n < 2 ^ n.size := Nat.lt_size_self n
      _ ≤ 2 ^ ((n.size - p) + p) := Nat.pow_le_pow_right (by omega) (by omega)
      _ = unit p n * 2 ^ p := Nat.pow_add 2 _ _

theorem unit_dvd_roundNearestEven : unit p n ∣ roundNearestEven p n := by
  simp only [roundNearestEven]
  split
  · exact Nat.dvd_mul_left _ _
  · exact Nat.dvd_mul_left _ _

/-- The representable numbers, and no others, are left as they are. -/
theorem roundNearestEven_eq_iff : roundNearestEven p n = n ↔ Representable p n := by
  rw [representable_iff_unit_dvd]
  constructor
  · intro h
    have hdvd := unit_dvd_roundNearestEven (p := p) (n := n)
    rwa [h] at hdvd
  · intro hdvd
    have hrest : n % unit p n = 0 := Nat.mod_eq_zero_of_dvd hdvd
    simp only [roundNearestEven]
    rw [hrest, if_pos (Or.inl unit_pos), Nat.div_mul_cancel hdvd]

/-- A rounded number has at most `p` bits, or is the next power of two. -/
theorem representable_roundNearestEven (hp : 0 < p) : Representable p (roundNearestEven p n) := by
  have hquotient : n / unit p n < 2 ^ p := by
    apply Nat.div_lt_of_lt_mul
    calc
      n < 2 ^ n.size := Nat.lt_size_self n
      _ ≤ 2 ^ ((n.size - p) + p) := Nat.pow_le_pow_right (by omega) (by omega)
      _ = unit p n * 2 ^ p := Nat.pow_add 2 _ _
  simp only [roundNearestEven]
  split
  · exact ⟨n / unit p n, n.size - p, hquotient, rfl⟩
  · rcases Nat.lt_or_ge (n / unit p n + 1) (2 ^ p) with hlt | hge
    · exact ⟨n / unit p n + 1, n.size - p, hlt, rfl⟩
    · have hpower : n / unit p n + 1 = 2 ^ p := by omega
      refine ⟨1, p + (n.size - p), Nat.one_lt_two_pow (by omega), ?_⟩
      rw [hpower, Nat.one_mul, Nat.pow_add]
      rfl

theorem Representable.mul_two (h : Representable p n) : Representable p (n * 2) := by
  obtain ⟨m, e, hm, rfl⟩ := h
  exact ⟨m, e + 1, hm, by rw [Nat.pow_succ, Nat.mul_assoc]⟩

/-- A number is rounded by half a unit at most. -/
theorem roundNearestEven_le : 2 * roundNearestEven p n ≤ 2 * n + unit p n := by
  have hsplit := Nat.div_add_mod' n (unit p n)
  have hrest : n % unit p n < unit p n := Nat.mod_lt n unit_pos
  simp only [roundNearestEven]
  split
  · omega
  · rw [Nat.add_mul, Nat.one_mul]
    omega

/-- Rounding does not go below a multiple of the unit. -/
theorem le_roundNearestEven {bound : Nat} (hdvd : unit p n ∣ bound) (hle : bound ≤ n) :
    bound ≤ roundNearestEven p n := by
  have hfloor : bound ≤ n / unit p n * unit p n := by
    rw [← Nat.div_mul_cancel hdvd]
    exact Nat.mul_le_mul_right _ (Nat.div_le_div_right hle)
  simp only [roundNearestEven]
  split
  · exact hfloor
  · rw [Nat.add_mul]
    omega

/-- Rounding reaches an even multiple of the unit from below just when it is not more than half
a unit away. -/
theorem le_roundNearestEven_iff {bound : Nat} (hdvd : 2 * unit p n ∣ bound) (hle : n ≤ bound) :
    bound ≤ roundNearestEven p n ↔ 2 * (bound - n) ≤ unit p n := by
  constructor
  · intro hreached
    have hup := roundNearestEven_le (p := p) (n := n)
    omega
  · intro hnear
    rcases Nat.eq_or_lt_of_le hle with rfl | hlt
    · exact le_roundNearestEven (dvd_of_mul_left_dvd hdvd) (Nat.le_refl _)
    -- the last multiple before the bound is an odd one
    obtain ⟨c, rfl⟩ := hdvd
    have hpos := unit_pos (p := p) (n := n)
    have hc : 0 < c := by
      apply Nat.pos_of_ne_zero
      rintro rfl
      omega
    obtain ⟨m, rfl⟩ : ∃ m, c = m + 1 := ⟨c - 1, by omega⟩
    have hbound : 2 * unit p n * (m + 1) = (2 * m + 1) * unit p n + unit p n := by ring
    have hquotient : n / unit p n = 2 * m + 1 := by
      apply Nat.div_eq_of_lt_le
      · omega
      · rw [Nat.add_mul, Nat.one_mul]
        omega
    have hrest : n % unit p n = n - (2 * m + 1) * unit p n := by
      have hsplit := Nat.div_add_mod' n (unit p n)
      rw [hquotient] at hsplit
      omega
    simp only [roundNearestEven]
    rw [hquotient, if_neg]
    · rw [Nat.add_mul (2 * m + 1)]
      omega
    · rintro (hless | ⟨-, heven⟩)
      · omega
      · omega

end LuaMumble.Lib.Precision
