import Mathlib.Algebra.BigOperators.Group.List.Basic
import Mathlib.Data.Rat.Lemmas
import Mathlib.Tactic

/-!
Mean and variance of a list of rational numbers, as they change when a number is
added at its end. The squared deviation of the last number from the mean is not
the variance: both agree on every initial part of a list only where the list has
at most two numbers or all of them are equal.
-/

namespace LuaMumble.Lib.RunningMean

/-- The arithmetic mean, 0 for no numbers. -/
def mean (values : List ℚ) : ℚ :=
  values.sum / values.length

/-- The mean of the squared deviations from the mean. -/
def variance (values : List ℚ) : ℚ :=
  mean (values.map fun x => (x - mean values) ^ 2)

/-- All numbers are the same. -/
def Constant (values : List ℚ) : Prop :=
  ∀ x ∈ values, ∀ y ∈ values, x = y

/-- The squared deviation of the last number is the variance. -/
def LastDeviates (values : List ℚ) : Prop :=
  ∀ x ∈ values.getLast?, (x - mean values) ^ 2 = variance values

theorem mean_append (values : List ℚ) (x : ℚ) :
    mean (values ++ [x]) = mean values * ((values.length + 1 : ℚ) - 1) / (values.length + 1) +
      x / (values.length + 1) := by
  have hsum : (values ++ [x]).sum = values.sum + x := by simp
  have hlength : ((values ++ [x]).length : ℚ) = values.length + 1 := by simp
  rw [mean, mean, hsum, hlength, add_sub_cancel_right]
  cases values with
  | nil => simp
  | cons first rest =>
      have hpos : (((first :: rest).length : Nat) : ℚ) ≠ 0 := by
        exact_mod_cast Nat.succ_ne_zero rest.length
      rw [div_mul_cancel₀ _ hpos, add_div]

theorem mean_replicate (n : Nat) (a : ℚ) (hn : 0 < n) : mean (List.replicate n a) = a := by
  have hne : (n : ℚ) ≠ 0 := by exact_mod_cast hn.ne'
  rw [mean, List.sum_replicate, List.length_replicate, nsmul_eq_mul, mul_div_cancel_left₀ _ hne]

theorem Constant.exists_replicate {values : List ℚ} (h : Constant values) :
    ∃ n a, values = List.replicate n a := by
  refine ⟨values.length, values.headD 0, ?_⟩
  rw [List.eq_replicate_iff]
  refine ⟨rfl, ?_⟩
  intro x hx
  cases values with
  | nil => cases hx
  | cons first rest => exact h x hx first List.mem_cons_self

theorem constant_replicate (n : Nat) (a : ℚ) : Constant (List.replicate n a) := by
  intro x hx y hy
  rw [List.eq_of_mem_replicate hx, List.eq_of_mem_replicate hy]

theorem variance_replicate (n : Nat) (a : ℚ) (hn : 0 < n) :
    variance (List.replicate n a) = 0 := by
  rw [variance, mean_replicate n a hn, List.map_replicate, mean_replicate _ _ hn]
  ring

/-- Equal numbers do not deviate. -/
theorem Constant.lastDeviates {values : List ℚ} (h : Constant values) : LastDeviates values := by
  obtain ⟨n, a, rfl⟩ := h.exists_replicate
  intro x hx
  have hmem := List.mem_of_getLast? hx
  have hpos : 0 < n := by
    have hlength := List.length_pos_of_mem hmem
    rwa [List.length_replicate] at hlength
  rw [List.eq_of_mem_replicate hmem, mean_replicate n a hpos, variance_replicate n a hpos]
  ring

/-- Two numbers deviate alike. -/
theorem lastDeviates_of_length_le {values : List ℚ} (h : values.length ≤ 2) :
    LastDeviates values := by
  rcases values with _ | ⟨a, _ | ⟨b, _ | ⟨c, rest⟩⟩⟩
  · intro x hx
    cases hx
  · intro x hx
    obtain rfl : a = x := Option.some.inj hx
    norm_num [variance, mean]
  · intro x hx
    obtain rfl : b = x := Option.some.inj hx
    simp only [variance, mean, List.map_cons, List.map_nil, List.sum_cons, List.sum_nil,
      List.length_cons, List.length_nil]
    push_cast
    ring
  · simp only [List.length_cons] at h
    omega

/-- The squared deviation of the third of three numbers is their variance only
where they are equal, since 3 is not the square of a rational number. -/
theorem eq_of_lastDeviates_three {a b c : ℚ} (h : LastDeviates [a, b, c]) : a = c ∧ b = c := by
  have hlast := h c rfl
  simp only [variance, mean, List.map_cons, List.map_nil, List.sum_cons, List.sum_nil,
    List.length_cons, List.length_nil] at hlast
  push_cast at hlast
  have hsquare : (a - c - 2 * (b - c)) ^ 2 = 3 * (b - c) ^ 2 := by linarith
  have hb : b - c = 0 := by
    by_contra hne
    have hthree : IsSquare (3 : ℚ) := by
      refine ⟨(a - c - 2 * (b - c)) / (b - c), ?_⟩
      field_simp
      linarith
    rw [show (3 : ℚ) = ((3 : Nat) : ℚ) by norm_num, Rat.isSquare_natCast_iff] at hthree
    obtain ⟨r, hr⟩ := hthree
    rcases Nat.lt_or_ge r 2 with hsmall | hlarge
    · interval_cases r <;> omega
    · have hfour := Nat.mul_le_mul hlarge hlarge
      omega
  rw [hb] at hsquare
  have ha : a - c = 0 := by
    have hzero : (a - c) ^ 2 = 0 := by linarith
    exact pow_eq_zero_iff two_ne_zero |>.mp hzero
  exact ⟨by linarith, by linarith⟩

/-- Behind at least two equal numbers the next one has to be equal. -/
theorem eq_of_lastDeviates_append {n : Nat} {a x : ℚ} (hn : 2 ≤ n)
    (h : LastDeviates (List.replicate n a ++ [x])) : x = a := by
  have hlast := h x (by simp)
  have hcount : (n : ℚ) + 1 ≠ 0 := by positivity
  have hmean : mean (List.replicate n a ++ [x]) = (n * a + x) / (n + 1) := by
    rw [mean]
    simp
  have hfirst : a - (n * a + x) / (n + 1) = -(x - a) / (n + 1) := by
    field_simp
    ring
  have hnext : x - (n * a + x) / (n + 1) = n * (x - a) / (n + 1) := by
    field_simp
    ring
  have hvariance : variance (List.replicate n a ++ [x]) =
      (n * (-(x - a) / (n + 1)) ^ 2 + (n * (x - a) / (n + 1)) ^ 2) / (n + 1) := by
    rw [variance, hmean, mean]
    simp [hfirst, hnext]
  rw [hvariance, hmean, hnext] at hlast
  have hproduct : (n : ℚ) * (n ^ 2 - 1) * (x - a) ^ 2 = 0 := by
    field_simp at hlast
    linear_combination (n : ℚ) * hlast
  have hpos : (n : ℚ) * (n ^ 2 - 1) ≠ 0 := by
    have htwo : (2 : ℚ) ≤ n := by exact_mod_cast hn
    have hone : (0 : ℚ) < n ^ 2 - 1 := by nlinarith
    positivity
  have hsquare := (mul_eq_zero.mp hproduct).resolve_left hpos
  linarith [pow_eq_zero_iff two_ne_zero |>.mp hsquare]

/-- The squared deviation of the last number is the variance all along the list just
where there are at most two numbers, or all are equal. -/
theorem lastDeviates_prefixes_iff (values : List ℚ) :
    (∀ n ≤ values.length, LastDeviates (values.take n)) ↔
      values.length ≤ 2 ∨ Constant values := by
  constructor
  · intro h
    by_contra hnot
    rw [not_or, not_le] at hnot
    obtain ⟨hlong, hvaried⟩ := hnot
    apply hvaried
    -- by induction on the initial parts from three numbers on
    have hconstant : ∀ n, 3 ≤ n → n ≤ values.length → ∃ a, values.take n = List.replicate n a := by
      intro n hn
      induction n, hn using Nat.le_induction with
      | base =>
          intro hlength
          rcases values with _ | ⟨a, _ | ⟨b, _ | ⟨c, rest⟩⟩⟩
          · cases hlong
          · simp at hlong
          · simp at hlong
          · obtain ⟨rfl, rfl⟩ := eq_of_lastDeviates_three (h 3 hlength)
            exact ⟨_, rfl⟩
      | succ n hn ih =>
          intro hlength
          obtain ⟨a, ha⟩ := ih (by omega)
          have hnext : values.take (n + 1) = values.take n ++ [values[n]] := by
            rw [List.take_add_one, List.getElem?_eq_getElem (by omega)]
            rfl
          have hdeviates := h (n + 1) hlength
          rw [hnext, ha] at hdeviates
          refine ⟨a, ?_⟩
          rw [hnext, ha, eq_of_lastDeviates_append (by omega) hdeviates, List.replicate_succ']
    obtain ⟨a, ha⟩ := hconstant values.length hlong (le_refl _)
    rw [List.take_length] at ha
    rw [ha]
    exact constant_replicate _ a
  · rintro (hshort | hconstant) n hn
    · exact lastDeviates_of_length_le (by rw [List.length_take]; omega)
    · apply Constant.lastDeviates
      intro x hx y hy
      exact hconstant x (List.mem_of_mem_take hx) y (List.mem_of_mem_take hy)

end LuaMumble.Lib.RunningMean
