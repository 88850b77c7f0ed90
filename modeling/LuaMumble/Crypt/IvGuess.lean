import LuaMumble.Crypt.State

/-!
Rebuilding the 128-bit IV of a packet from its low byte. The branches of
`crypt_decrypt` amount to a signed distance between the low byte of the current
IV and the byte received; the IV that is tried is the current one moved by that
distance, through every carry and borrow.
-/

namespace LuaMumble.Crypt

open Ocb Lib.LittleEndian

/-- An IV as the 128-bit counter that sender and receiver move. -/
def counter (iv : Block) : ZMod (2 ^ 128) :=
  (value iv.bytes : ℕ)

/-- How far the receiver moves its IV for a received low byte: 1 to 127 ahead
(128 where the byte does not wrap), or up to 29 behind. -/
def ivDistance (iv0 ivbyte : UInt8) : Option Int :=
  let r : Int := ((ivbyte.toNat : Int) - iv0.toNat) % 256
  if 1 ≤ r ∧ r ≤ 127 ∨ r = 128 ∧ iv0.toNat < ivbyte.toNat then some r
  else if 227 ≤ r then some (r - 256)
  else none

def moveIv (iv : Block) (ivbyte : UInt8) (d : Int) : Block :=
  if 256 ≤ (iv.get 0).toNat + d then incrementFrom 1 (setFirst iv ivbyte)
  else if (iv.get 0).toNat + d < 0 then decrementFrom 1 (setFirst iv ivbyte)
  else setFirst iv ivbyte

/-- The guess that a distance stands for. -/
def guessAt (iv : Block) (ivbyte : UInt8) (d : Int) : IvGuess where
  iv := moveIv iv ivbyte d
  lost := if d < 0 then -1 else d - 1
  late := if d < 0 then 1 else 0
  restore := decide (d < 0)
  outOfOrder := decide (d ≠ 1)

theorem counter_val (iv : Block) : (counter iv).val = value iv.bytes := by
  have hlt := value_lt iv.bytes
  rw [iv.length_bytes] at hlt
  exact ZMod.val_cast_of_lt (lt_of_lt_of_eq hlt (by norm_num))

theorem counter_injective {a b : Block} (h : counter a = counter b) : a = b := by
  have hvalue : value a.bytes = value b.bytes := by
    rw [← counter_val, ← counter_val, h]
  exact Block.ext (value_injective (a.length_bytes.trans b.length_bytes.symm) hvalue)

/-- The low byte and the second byte of an IV, which are the slot of a packet
and the byte remembered there. -/
theorem get_zero_eq (iv : Block) : (iv.get 0).toNat = (counter iv).val % 256 := by
  obtain ⟨bytes, hlength⟩ := iv
  rw [counter_val]
  match bytes, hlength with
  | b :: rest, _ =>
      have hb := b.toNat_lt
      simp only [Block.get, List.getD_cons_zero, value_cons]
      omega

theorem get_one_eq (iv : Block) : (iv.get 1).toNat = (counter iv).val / 256 % 256 := by
  obtain ⟨bytes, hlength⟩ := iv
  rw [counter_val]
  match bytes, hlength with
  | b :: b' :: rest, _ =>
      have hb := b.toNat_lt
      have hb' := b'.toNat_lt
      simp only [Block.get, List.getD_cons_succ, List.getD_cons_zero, value_cons]
      omega

/-- A counter moved by an integer, as a number modulo `2 ^ 128`. -/
theorem val_add_int (c : ZMod (2 ^ 128)) (d : ℤ) :
    ((c + (d : ZMod (2 ^ 128))).val : ℤ) = (c.val + d) % 2 ^ 128 := by
  have hcast : c + (d : ZMod (2 ^ 128)) = ((c.val + d : ℤ) : ZMod (2 ^ 128)) := by
    push_cast
    rw [ZMod.natCast_zmod_val]
  rw [hcast, ZMod.val_intCast]
  norm_num

/-- The bytes from `start` on, replaced by as many bytes that count `change`
more, move the counter by `change` in units of `256 ^ start`. -/
theorem counter_splice (iv : Block) (start : Nat) (hstart : start ≤ 16) (tail : List UInt8)
    (change : ℤ) (hlength : tail.length = 16 - start)
    (hvalue : (value tail : ℤ) ≡ value (iv.bytes.drop start) + change [ZMOD 256 ^ (16 - start)]) :
    counter (Block.ofBytes (iv.bytes.take start ++ tail)) =
      counter iv + (256 ^ start : ℕ) * (change : ZMod (2 ^ 128)) := by
  have htake : (iv.bytes.take start).length = start := by
    rw [List.length_take, iv.length_bytes]
    omega
  have hbytes : (Block.ofBytes (iv.bytes.take start ++ tail)).bytes =
      iv.bytes.take start ++ tail := by
    apply Block.ofBytes_bytes
    rw [List.length_append, htake, hlength]
    omega
  have hsplit : (value iv.bytes : ℤ) = value (iv.bytes.take start) +
      256 ^ start * value (iv.bytes.drop start) := by
    conv_lhs => rw [← List.take_append_drop start iv.bytes]
    rw [value_append, htake]
    push_cast
    rfl
  have hwidth : (256 : ℤ) ^ start * 256 ^ (16 - start) = ((2 ^ 128 : ℕ) : ℤ) := by
    rw [← pow_add, Nat.add_sub_cancel' hstart]
    norm_num
  have hmod : (value (iv.bytes.take start ++ tail) : ℤ) ≡
      value iv.bytes + 256 ^ start * change [ZMOD ((2 ^ 128 : ℕ) : ℤ)] := by
    rw [value_append, htake, hsplit, ← hwidth]
    push_cast
    have hscaled := Int.ModEq.mul_left' (c := 256 ^ start) hvalue
    calc
      (value (iv.bytes.take start) : ℤ) + 256 ^ start * value tail
          ≡ value (iv.bytes.take start) +
            256 ^ start * (value (iv.bytes.drop start) + change)
              [ZMOD 256 ^ start * 256 ^ (16 - start)] := Int.ModEq.add_left _ hscaled
      _ = value (iv.bytes.take start) + 256 ^ start * value (iv.bytes.drop start) +
            256 ^ start * change := by ring
  have hcast := (ZMod.intCast_eq_intCast_iff _ _ _).mpr hmod
  unfold counter
  rw [hbytes]
  push_cast at hcast ⊢
  exact hcast

theorem counter_incrementFrom (start : Nat) (hstart : start ≤ 16) (iv : Block) :
    counter (incrementFrom start iv) = counter iv + (256 ^ start : ℕ) := by
  have hdrop : (iv.bytes.drop start).length = 16 - start := by
    rw [List.length_drop, iv.length_bytes]
  have hvalue := value_increment (iv.bytes.drop start)
  rw [hdrop] at hvalue
  have h := counter_splice iv start hstart (increment (iv.bytes.drop start)) 1
    ((increment_length _).trans hdrop) hvalue
  rw [incrementFrom, h, Int.cast_one, mul_one]

theorem counter_decrementFrom (start : Nat) (hstart : start ≤ 16) (iv : Block) :
    counter (decrementFrom start iv) = counter iv - (256 ^ start : ℕ) := by
  have hdrop : (iv.bytes.drop start).length = 16 - start := by
    rw [List.length_drop, iv.length_bytes]
  have hvalue := value_decrement (iv.bytes.drop start)
  rw [hdrop, sub_eq_add_neg] at hvalue
  have h := counter_splice iv start hstart (decrement (iv.bytes.drop start)) (-1)
    ((decrement_length _).trans hdrop) hvalue
  rw [decrementFrom, h, Int.cast_neg, Int.cast_one, mul_neg_one, ← sub_eq_add_neg]

theorem bytes_eq_cons (iv : Block) : iv.bytes = iv.get 0 :: iv.bytes.drop 1 := by
  obtain ⟨bytes, hlength⟩ := iv
  cases bytes with
  | nil => simp at hlength
  | cons b rest => rfl

theorem setFirst_bytes (iv : Block) (ivbyte : UInt8) :
    (setFirst iv ivbyte).bytes = ivbyte :: iv.bytes.drop 1 := by
  apply Block.ofBytes_bytes
  simp [iv.length_bytes]

theorem counter_setFirst (iv : Block) (ivbyte : UInt8) :
    counter (setFirst iv ivbyte) =
      counter iv + ((ivbyte.toNat - (iv.get 0).toNat : ℤ) : ZMod (2 ^ 128)) := by
  unfold counter
  have hvalue : value iv.bytes = (iv.get 0).toNat + 256 * value (iv.bytes.drop 1) := by
    conv_lhs => rw [bytes_eq_cons iv, value_cons]
  rw [setFirst_bytes, hvalue, value_cons]
  push_cast
  ring

/-- The distances a receiver can guess: those of the window that lead from its
low byte to the byte received. -/
theorem ivDistance_eq_some_iff (iv0 ivbyte : UInt8) (d : Int) :
    ivDistance iv0 ivbyte = some d ↔
      (-29 ≤ d ∧ d ≤ -1 ∨ 1 ≤ d ∧ d ≤ 127 ∨ d = 128 ∧ iv0.toNat < ivbyte.toNat) ∧
        ((ivbyte.toNat : Int) - iv0.toNat - d) % 256 = 0 := by
  have hx := iv0.toNat_lt
  have hy := ivbyte.toNat_lt
  unfold ivDistance
  generalize iv0.toNat = x at *
  generalize ivbyte.toNat = y at *
  dsimp only
  split_ifs
  · rw [Option.some.injEq]
    omega
  · rw [Option.some.injEq]
    omega
  · simp only [false_iff]
    omega

theorem moveIv_up {iv : Block} {ivbyte : UInt8} {d : Int} (h : 256 ≤ (iv.get 0).toNat + d) :
    moveIv iv ivbyte d = incrementFrom 1 (setFirst iv ivbyte) := if_pos h

theorem moveIv_down {iv : Block} {ivbyte : UInt8} {d : Int} (h : (iv.get 0).toNat + d < 0) :
    moveIv iv ivbyte d = decrementFrom 1 (setFirst iv ivbyte) := by
  rw [moveIv, if_neg (by omega), if_pos h]

theorem moveIv_stay {iv : Block} {ivbyte : UInt8} {d : Int} (hlow : 0 ≤ (iv.get 0).toNat + d)
    (hhigh : (iv.get 0).toNat + d < 256) : moveIv iv ivbyte d = setFirst iv ivbyte := by
  rw [moveIv, if_neg (by omega), if_neg (by omega)]

theorem guessAt_next (iv : Block) (ivbyte : UInt8) :
    guessAt iv ivbyte 1 = ⟨moveIv iv ivbyte 1, 0, 0, false, false⟩ := rfl

theorem guessAt_late (iv : Block) (ivbyte : UInt8) {d : Int} (h : d < 0) :
    guessAt iv ivbyte d = ⟨moveIv iv ivbyte d, -1, 1, true, true⟩ := by
  have hne : d ≠ 1 := by omega
  simp [guessAt, h, hne]

theorem guessAt_ahead (iv : Block) (ivbyte : UInt8) {d : Int} (h : 1 < d) :
    guessAt iv ivbyte d = ⟨moveIv iv ivbyte d, d - 1, 0, false, true⟩ := by
  have hne : d ≠ 1 := by omega
  have hnot : ¬ d < 0 := by omega
  simp [guessAt, hnot, hne]

/-- `diff` after its two corrections. -/
private theorem wrapped_difference (e : Int) (hlow : -256 < e) (hhigh : e < 256) :
    let diff := if e > 128 then e - 256 else if e < -128 then e + 256 else e
    diff = e - 256 ∧ 128 < e ∨ diff = e + 256 ∧ e < -128 ∨ diff = e ∧ -128 ≤ e ∧ e ≤ 128 := by
  intro diff
  simp only [diff]
  split_ifs <;> omega

/-- The branches on the first byte of a packet are the distances a receiver can
guess, one after another. -/
theorem guessIv_eq (iv : Block) (ivbyte : UInt8) :
    guessIv iv ivbyte = (ivDistance (iv.get 0) ivbyte).map (guessAt iv ivbyte) := by
  have hx := (iv.get 0).toNat_lt
  have hy := ivbyte.toNat_lt
  have hdistance := ivDistance_eq_some_iff (iv.get 0) ivbyte
  have haccept {d : Int} {guess : IvGuess} (hd : ivDistance (iv.get 0) ivbyte = some d)
      (hguess : guessAt iv ivbyte d = guess) :
      some guess = (ivDistance (iv.get 0) ivbyte).map (guessAt iv ivbyte) := by
    rw [hd, ← hguess, Option.map_some]
  have hreject (hnone : ∀ d, ivDistance (iv.get 0) ivbyte ≠ some d) :
      none = (ivDistance (iv.get 0) ivbyte).map (guessAt iv ivbyte) := by
    rw [Option.eq_none_iff_forall_ne_some.mpr hnone, Option.map_none]
  have hwrapped := wrapped_difference (ivbyte.toNat - (iv.get 0).toNat) (by omega) (by omega)
  unfold guessIv
  simp only [gt_iff_lt, UInt8.lt_iff_toNat_lt] at hwrapped ⊢
  generalize (if 128 < (ivbyte.toNat : Int) - (iv.get 0).toNat then _ else _ : Int) = diff
    at hwrapped ⊢
  split_ifs with hnext hgt hlt hlate hwraplate hahead hwrapahead
  · apply haccept ((hdistance 1).mpr (by omega))
    rw [guessAt_next, moveIv_stay (by omega) (by omega)]
  · apply haccept ((hdistance 1).mpr (by omega))
    rw [guessAt_next, moveIv_up (by omega)]
  · omega
  · apply haccept ((hdistance diff).mpr (by omega))
    rw [guessAt_late iv ivbyte hlate.2.2, moveIv_stay (by omega) (by omega)]
  · apply haccept ((hdistance diff).mpr (by omega))
    rw [guessAt_late iv ivbyte hwraplate.2.2, moveIv_down (by omega)]
  · have hd : (ivbyte.toNat : Int) - (iv.get 0).toNat - 1 = diff - 1 := by omega
    apply haccept ((hdistance diff).mpr (by omega))
    rw [guessAt_ahead iv ivbyte (by omega), moveIv_stay (by omega) (by omega), hd]
  · have hd : 256 - ((iv.get 0).toNat : Int) + ivbyte.toNat - 1 = diff - 1 := by omega
    apply haccept ((hdistance diff).mpr (by omega))
    rw [guessAt_ahead iv ivbyte (by omega), moveIv_up (by omega), hd]
  · apply hreject
    intro d hd
    have hwindow := (hdistance d).mp hd
    omega

theorem ivDistance_bounds {iv0 ivbyte : UInt8} {d : Int} (h : ivDistance iv0 ivbyte = some d) :
    d ≠ 0 ∧ -29 ≤ d ∧ d ≤ 128 := by
  have := ((ivDistance_eq_some_iff iv0 ivbyte d).mp h).1
  omega

/-- The IV that is tried is the current one moved by the distance, as a 128-bit
counter. -/
theorem counter_moveIv {iv : Block} {ivbyte : UInt8} {d : Int}
    (h : ivDistance (iv.get 0) ivbyte = some d) :
    counter (moveIv iv ivbyte d) = counter iv + (d : ZMod (2 ^ 128)) := by
  have hx := (iv.get 0).toNat_lt
  have hy := ivbyte.toNat_lt
  obtain ⟨_, hlow, hhigh⟩ := ivDistance_bounds h
  obtain ⟨k, hk⟩ : ∃ k : Int, (ivbyte.toNat : Int) = (iv.get 0).toNat + d + 256 * k := by
    have hbyte := ((ivDistance_eq_some_iff _ _ _).mp h).2
    exact ⟨((ivbyte.toNat : Int) - (iv.get 0).toNat - d) / 256, by omega⟩
  unfold moveIv
  split_ifs with hcarry hborrow
  · have hk1 : k = -1 := by omega
    rw [counter_incrementFrom 1 (by omega), counter_setFirst, hk, hk1]
    push_cast
    ring
  · have hk1 : k = 1 := by omega
    rw [counter_decrementFrom 1 (by omega), counter_setFirst, hk, hk1]
    push_cast
    ring
  · have hk0 : k = 0 := by omega
    rw [counter_setFirst, hk, hk0]
    push_cast
    ring

/-- Every IV of the documented window is recovered from its low byte. -/
theorem ivDistance_of_counter {c v : Block} {d : Int}
    (hwindow : -29 ≤ d ∧ d ≤ -1 ∨ 1 ≤ d ∧ d ≤ 127)
    (hcounter : counter v = counter c + (d : ZMod (2 ^ 128))) :
    ivDistance (c.get 0) (v.get 0) = some d ∧ moveIv c (v.get 0) d = v := by
  have hval := val_add_int (counter c) d
  rw [← hcounter] at hval
  have hdistance : ivDistance (c.get 0) (v.get 0) = some d := by
    rw [ivDistance_eq_some_iff, get_zero_eq, get_zero_eq]
    push_cast
    omega
  refine ⟨hdistance, counter_injective ?_⟩
  rw [counter_moveIv hdistance, hcounter]

end LuaMumble.Crypt
