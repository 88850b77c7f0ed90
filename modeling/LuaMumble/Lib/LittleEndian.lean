import Mathlib.Data.Nat.Digits.Lemmas
import Mathlib.Data.Int.ModEq

/-!
Counters kept as little-endian bytes. `increment` and `decrement` are the
carry and borrow loops that stop at the first byte which does not wrap; both
are counting by one modulo the size of the counter.
-/

namespace LuaMumble.Lib.LittleEndian

/-- The number whose little-endian bytes are given. -/
def value (bytes : List UInt8) : Nat :=
  Nat.ofDigits 256 (bytes.map UInt8.toNat)

/-- Adds one to the first byte and carries on while a byte wraps to zero. -/
def increment : List UInt8 → List UInt8
  | [] => []
  | b :: rest => if b + 1 ≠ 0 then (b + 1) :: rest else (b + 1) :: increment rest

/-- Takes one from the first byte and borrows on while a byte was zero. -/
def decrement : List UInt8 → List UInt8
  | [] => []
  | b :: rest => if b ≠ 0 then (b - 1) :: rest else (b - 1) :: decrement rest

@[simp] theorem value_nil : value [] = 0 := rfl

@[simp] theorem value_cons (b : UInt8) (rest : List UInt8) :
    value (b :: rest) = b.toNat + 256 * value rest := by
  simp [value, Nat.ofDigits_cons]

theorem value_append (xs ys : List UInt8) :
    value (xs ++ ys) = value xs + 256 ^ xs.length * value ys := by
  simp [value, Nat.ofDigits_append]

theorem increment_length (bytes : List UInt8) :
    (increment bytes).length = bytes.length := by
  induction bytes with
  | nil => rfl
  | cons b rest ih =>
      unfold increment
      split
      · rfl
      · simp [ih]

theorem decrement_length (bytes : List UInt8) :
    (decrement bytes).length = bytes.length := by
  induction bytes with
  | nil => rfl
  | cons b rest ih =>
      unfold decrement
      split
      · rfl
      · simp [ih]

theorem value_lt (bytes : List UInt8) : value bytes < 256 ^ bytes.length := by
  have h := Nat.ofDigits_lt_base_pow_length (b := 256) (l := bytes.map UInt8.toNat)
    (by decide) (by
      intro d hd
      obtain ⟨b, _, rfl⟩ := List.mem_map.mp hd
      exact b.toNat_lt)
  simpa [value] using h

/-- Equally many bytes with the same value are the same bytes. -/
theorem value_injective {xs ys : List UInt8} (hlength : xs.length = ys.length)
    (hvalue : value xs = value ys) : xs = ys := by
  induction xs generalizing ys with
  | nil => exact (List.length_eq_zero_iff.mp hlength.symm).symm
  | cons x xs ih =>
      cases ys with
      | nil => simp at hlength
      | cons y ys =>
          have hx := x.toNat_lt
          have hy := y.toNat_lt
          simp only [value_cons] at hvalue
          have hhead : x = y := UInt8.toNat_inj.mp (by omega)
          have htail : xs = ys := ih (by simpa using hlength) (by omega)
          rw [hhead, htail]

/-- The low `k` bytes of a number. -/
def digits : Nat → Nat → List UInt8
  | 0, _ => []
  | k + 1, n => UInt8.ofNat n :: digits k (n / 256)

theorem digits_length (k n : Nat) : (digits k n).length = k := by
  induction k generalizing n with
  | zero => rfl
  | succ k ih => exact congrArg Nat.succ (ih _)

theorem value_digits (k n : Nat) : value (digits k n) = n % 256 ^ k := by
  induction k generalizing n with
  | zero => simp [digits, Nat.mod_one]
  | succ k ih =>
      rw [digits, value_cons, ih, pow_succ', Nat.mod_mul]
      simp

private theorem toNat_succ {b : UInt8} (h : b + 1 ≠ 0) : (b + 1).toNat = b.toNat + 1 := by
  have hlt := b.toNat_lt
  have hne : (b + 1).toNat ≠ 0 := fun h0 => h (UInt8.toNat_inj.mp (by simpa using h0))
  rw [UInt8.toNat_add] at hne ⊢
  simp at hne ⊢
  omega

private theorem toNat_of_wrap {b : UInt8} (h : b + 1 = 0) : b.toNat = 255 := by
  have hlt := b.toNat_lt
  have h0 : (b + 1).toNat = 0 := by rw [h]; rfl
  rw [UInt8.toNat_add] at h0
  simp at h0
  omega

private theorem toNat_pred {b : UInt8} (h : b ≠ 0) : (b - 1).toNat + 1 = b.toNat := by
  have hlt := b.toNat_lt
  have hne : b.toNat ≠ 0 := fun h0 => h (UInt8.toNat_inj.mp (by simpa using h0))
  rw [UInt8.toNat_sub]
  simp
  omega

theorem value_increment (bytes : List UInt8) :
    (value (increment bytes) : ℤ) ≡ value bytes + 1 [ZMOD 256 ^ bytes.length] := by
  induction bytes with
  | nil => simpa [increment] using Int.modEq_one
  | cons b rest ih =>
      unfold increment
      split
      · rename_i hwrap
        rw [value_cons, value_cons, toNat_succ hwrap]
        push_cast
        exact Int.ModEq.refl _ |>.trans (by ring_nf; rfl)
      · rename_i hwrap
        have hb : b + 1 = 0 := not_not.mp hwrap
        rw [value_cons, value_cons, toNat_of_wrap hb, hb]
        have hscaled := Int.ModEq.mul_left' (c := 256) ih
        rw [List.length_cons, pow_succ']
        push_cast
        calc
          (0 + 256 * (value (increment rest) : ℤ)) = 256 * (value (increment rest) : ℤ) := by ring
          _ ≡ 256 * ((value rest : ℤ) + 1) [ZMOD 256 * 256 ^ rest.length] := hscaled
          _ = 255 + 256 * (value rest : ℤ) + 1 := by ring

theorem value_decrement (bytes : List UInt8) :
    (value (decrement bytes) : ℤ) ≡ value bytes - 1 [ZMOD 256 ^ bytes.length] := by
  induction bytes with
  | nil => simpa [decrement] using Int.modEq_one
  | cons b rest ih =>
      unfold decrement
      split
      · rename_i hzero
        rw [value_cons, value_cons, ← toNat_pred hzero]
        push_cast
        exact Int.ModEq.refl _ |>.trans (by ring_nf; rfl)
      · rename_i hzero
        have hb : b = 0 := not_not.mp hzero
        subst hb
        rw [value_cons, value_cons]
        have hscaled := Int.ModEq.mul_left' (c := 256) ih
        rw [List.length_cons, pow_succ']
        have hlow : ((0 : UInt8) - 1).toNat = 255 := by decide
        rw [hlow]
        push_cast
        calc
          (255 + 256 * (value (decrement rest) : ℤ))
              = 255 + 256 * (value (decrement rest) : ℤ) := rfl
          _ ≡ 255 + 256 * ((value rest : ℤ) - 1) [ZMOD 256 * 256 ^ rest.length] :=
              Int.ModEq.add_left 255 hscaled
          _ = 0 + 256 * (value rest : ℤ) - 1 := by ring

end LuaMumble.Lib.LittleEndian
