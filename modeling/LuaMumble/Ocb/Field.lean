import LuaMumble.Lib.BinaryPolynomial
import LuaMumble.Ocb.Doubling

/-!
`S2` and `S3` as arithmetic. A block is read as a big-endian polynomial over
the field of two elements: bit 7 of its first byte is the coefficient of
`X ^ 127`. The loops of `S2` and `S3` write the block in place; both word sizes
compute the same bits, and these are multiplication by `X` and by `X + 1`.
-/

namespace LuaMumble.Ocb

open Polynomial
open Lib.LittleEndian Lib.BinaryPolynomial

/-- The subblock that the loop of `S2` and `S3` computes for `block[i]`. -/
def shiftedAt (k : Nat) (block : List (BitVec (8 * k))) (i : Nat) : BitVec (8 * k) :=
  swapped k ((swapped k (block.getD i 0) <<< 1) |||
    (swapped k (block.getD (i + 1) 0) >>> (8 * k - 1)))

/-- The statement after the loop, for `block[BLOCKSIZE - 1]`. -/
def shiftedLast (k : Nat) (carry : BitVec (8 * k)) (block : List (BitVec (8 * k))) :
    BitVec (8 * k) :=
  swapped k ((swapped k (block.getD (16 / k - 1) 0) <<< 1) ^^^ (carry * 0x87))

/-- `S2` on the subblocks, one assignment after the other. -/
def S2InPlace (k : Nat) (block : List (BitVec (8 * k))) : List (BitVec (8 * k)) :=
  let carry := swapped k (block.getD 0 0) >>> (8 * k - 1)
  let block := (List.range (16 / k - 1)).foldl
    (fun block i => block.set i (shiftedAt k block i)) block
  block.set (16 / k - 1) (shiftedLast k carry block)

/-- `S3` on the subblocks. `block[i]` is read again by its own update, and
`block[i + 1]` before it is updated. -/
def S3InPlace (k : Nat) (block : List (BitVec (8 * k))) : List (BitVec (8 * k)) :=
  let carry := swapped k (block.getD 0 0) >>> (8 * k - 1)
  let block := (List.range (16 / k - 1)).foldl
    (fun block i => block.set i (block.getD i 0 ^^^ shiftedAt k block i)) block
  block.set (16 / k - 1) (block.getD (16 / k - 1) 0 ^^^ shiftedLast k carry block)

/-- `S2` of the build with `k`-byte subblocks, on the bytes in memory. -/
def S2Build (k : Nat) (block : Block) : Block :=
  ofSubblocks k (S2InPlace k (subblocks k block))

/-- `S3` of the build with `k`-byte subblocks. -/
def S3Build (k : Nat) (block : Block) : Block :=
  ofSubblocks k (S3InPlace k (subblocks k block))

/-- The two word sizes the program is built with. -/
def WordSize (k : Nat) : Prop :=
  k = 8 ∨ k = 4

theorem S2Build_eq {k : Nat} (hk : WordSize k) (block : Block) :
    S2Build k block = S2With k block := by
  rcases hk with rfl | rfl <;> rfl

theorem S3Build_eq {k : Nat} (hk : WordSize k) (block : Block) :
    S3Build k block = S3With k block := by
  rcases hk with rfl | rfl <;> rfl

/-- The coefficient of `X ^ p` in a block. -/
def coefficient (block : Block) (p : Nat) : Bool :=
  (block.get (15 - p / 8)).toNat.testBit (p % 8)

/-- A block as a polynomial. -/
noncomputable def polynomial (block : Block) : (ZMod 2)[X] :=
  poly 128 (coefficient block)

theorem testBit_byte {b : UInt8} {j : Nat} (hj : 8 ≤ j) : b.toNat.testBit j = false := by
  apply Nat.testBit_lt_two_pow
  exact b.toNat_lt.trans_le (Nat.pow_le_pow_right (by decide) hj)

theorem coefficient_injective {a b : Block}
    (h : ∀ p < 128, coefficient a p = coefficient b p) : a = b := by
  apply Block.ext_get
  intro i hi
  apply UInt8.toNat_inj.mp
  apply Nat.eq_of_testBit_eq
  intro j
  rcases Nat.lt_or_ge j 8 with hj | hj
  · have hp := h (8 * (15 - i) + j) (by omega)
    have hbyte : 15 - (8 * (15 - i) + j) / 8 = i := by omega
    have hbit : (8 * (15 - i) + j) % 8 = j := by omega
    simpa [coefficient, hbyte, hbit] using hp
  · rw [testBit_byte hj, testBit_byte hj]

theorem testBit_value (bytes : List UInt8) (j : Nat) :
    (value bytes).testBit j = (bytes.getD (j / 8) 0).toNat.testBit (j % 8) := by
  induction bytes generalizing j with
  | nil => simp
  | cons b rest ih =>
      have hb : b.toNat < 2 ^ 8 := b.toNat_lt
      rw [value_cons, show b.toNat + 256 * value rest = 2 ^ 8 * value rest + b.toNat by ring,
        Nat.testBit_two_pow_mul_add _ hb]
      split
      · have hzero : j / 8 = 0 := by omega
        have hmod : j % 8 = j := by omega
        rw [hzero, hmod, List.getD_cons_zero]
      · have hdiv : j / 8 = (j - 8) / 8 + 1 := by omega
        have hmod : j % 8 = (j - 8) % 8 := by omega
        rw [hdiv, hmod, List.getD_cons_succ, ih]

theorem getLsbD_loadSubblock {k j : Nat} (bytes : List UInt8) (hj : j < 8 * k) :
    (loadSubblock k bytes).getLsbD j = (bytes.getD (j / 8) 0).toNat.testBit (j % 8) := by
  rw [loadSubblock, BitVec.getLsbD_ofNat, testBit_value]
  simp [hj]

theorem swapped_loadSubblock {k : Nat} {bytes : List UInt8} (h : bytes.length = k) :
    swapped k (loadSubblock k bytes) = loadSubblock k bytes.reverse := by
  rw [swapped, storeSubblock_loadSubblock h]

/-- Subblock `i` of a block as the number the shifts work on. -/
def wordAt (k : Nat) (block : Block) (i : Nat) : BitVec (8 * k) :=
  swapped k ((subblocks k block).getD i 0)

theorem getLsbD_wordAt {k i j : Nat} (hk : WordSize k) (block : Block) (hi : i < 16 / k)
    (hj : j < 8 * k) :
    (wordAt k block i).getLsbD j = coefficient block (8 * k * (16 / k - 1 - i) + j) := by
  have hroom : k * i + k ≤ 16 := by rcases hk with rfl | rfl <;> omega
  have hlength : ((block.bytes.drop (k * i)).take k).length = k := by
    rw [List.length_take, List.length_drop, block.length_bytes]
    omega
  have hbyte : j / 8 < k := by omega
  have hword : (subblocks k block).getD i 0 =
      loadSubblock k ((block.bytes.drop (k * i)).take k) := by
    simp [subblocks, List.getD_eq_getElem?_getD, hi]
  rw [wordAt, hword, swapped_loadSubblock hlength, getLsbD_loadSubblock _ hj, coefficient,
    Block.get]
  have hindex : 15 - (8 * k * (16 / k - 1 - i) + j) / 8 = k * i + (k - 1 - j / 8) := by
    rcases hk with rfl | rfl <;> omega
  have hmod : (8 * k * (16 / k - 1 - i) + j) % 8 = j % 8 := by
    rcases hk with rfl | rfl <;> omega
  rw [hindex, hmod, List.getD_eq_getElem?_getD, List.getD_eq_getElem?_getD,
    List.getElem?_reverse (by omega), hlength, List.getElem?_take_of_lt (by omega),
    List.getElem?_drop]

theorem coefficient_eq_wordAt {k p : Nat} (hk : WordSize k) (block : Block) (hp : p < 128) :
    coefficient block p =
      (wordAt k block (16 / k - 1 - p / (8 * k))).getLsbD (p % (8 * k)) := by
  have hpos : 0 < 8 * k := by rcases hk with rfl | rfl <;> omega
  rw [getLsbD_wordAt hk block (by rcases hk with rfl | rfl <;> omega) (Nat.mod_lt _ hpos)]
  congr 1
  rcases hk with rfl | rfl <;> omega

theorem take_drop_flatMap {α β : Type} {f : α → List β} {k : Nat}
    (hf : ∀ a, (f a).length = k) (words : List α) {i : Nat} (hi : i < words.length) :
    ((words.flatMap f).drop (k * i)).take k = f words[i] := by
  induction words generalizing i with
  | nil => simp at hi
  | cons word rest ih =>
      cases i with
      | zero =>
          rw [List.flatMap_cons, Nat.mul_zero, List.drop_zero, List.take_append_of_le_length
            (hf word).ge, List.take_of_length_le (hf word).le]
          rfl
      | succ i =>
          have hsplit : k * (i + 1) = (f word).length + k * i := by rw [hf word]; ring
          rw [List.flatMap_cons, hsplit, List.drop_length_add_append]
          exact ih (by simpa using hi)

theorem subblocks_ofSubblocks {k : Nat} (hk : WordSize k) {words : List (BitVec (8 * k))}
    (hwords : words.length = 16 / k) : subblocks k (ofSubblocks k words) = words := by
  have hbytes : (words.flatMap (storeSubblock k)).length = 16 := by
    rw [List.length_flatMap]
    simp only [storeSubblock_length, List.map_const', List.sum_replicate, hwords]
    rcases hk with rfl | rfl <;> rfl
  apply List.ext_getElem
  · simp [subblocks, hwords]
  · intro i _ hi
    simp only [subblocks, ofSubblocks, Block.ofBytes_bytes hbytes, List.getElem_map,
      List.getElem_range]
    rw [take_drop_flatMap (storeSubblock_length k) words hi, loadSubblock_storeSubblock]

theorem shiftSubblocks_length (k : Nat) (carry : BitVec (8 * k)) (words : List (BitVec (8 * k))) :
    (shiftSubblocks k carry words).length = words.length := by
  fun_induction shiftSubblocks k carry words with
  | case1 => rfl
  | case2 => rfl
  | case3 x y rest ih => simp [ih]

/-- Every subblock takes in the top bit of the next one, the last takes in the
carry. -/
theorem swapped_shiftSubblocks (k : Nat) (carry : BitVec (8 * k))
    (words : List (BitVec (8 * k))) {i : Nat} (hi : i < words.length) :
    swapped k ((shiftSubblocks k carry words).getD i 0) =
      if i + 1 < words.length then
        (swapped k (words.getD i 0) <<< 1) ||| (swapped k (words.getD (i + 1) 0) >>> (8 * k - 1))
      else (swapped k (words.getD i 0) <<< 1) ^^^ (carry * 0x87) := by
  fun_induction shiftSubblocks k carry words generalizing i with
  | case1 => simp at hi
  | case2 last =>
      obtain rfl : i = 0 := by simpa using hi
      simp [swapped_swapped]
  | case3 x y rest ih =>
      cases i with
      | zero => simp [swapped_swapped]
      | succ i =>
          have hrest := @ih i (by simpa using hi)
          simpa using hrest

/-- The coefficients of 0x87: `X ^ 7 + X ^ 2 + X + 1`. -/
def low (i : Nat) : Bool :=
  (0x87 : Nat).testBit i

theorem low_of_le {i : Nat} (hi : 8 ≤ i) : low i = false := by
  apply Nat.testBit_lt_two_pow
  exact (show (0x87 : Nat) < 2 ^ 8 by norm_num).trans_le (Nat.pow_le_pow_right (by decide) hi)

theorem poly_low : poly 128 low = X ^ 7 + X ^ 2 + X + 1 := by
  ext i
  rw [coeff_poly]
  simp only [coeff_add, coeff_X_pow, coeff_X, coeff_one]
  rcases Nat.lt_or_ge i 8 with hi | hi
  · interval_cases i <;> simp [low, Nat.testBit]
  · rw [low_of_le hi, if_neg (by omega : ¬i = 7), if_neg (by omega : ¬i = 2),
      if_neg (by omega : ¬1 = i), if_neg (by omega : ¬i = 0)]
    simp

/-- The carry is a single bit, so its product with 0x87 is 0x87 or nothing. -/
theorem getLsbD_carry {k r : Nat} (word : BitVec (8 * k)) (hk : 0 < k) (hr : r < 8 * k) :
    ((word >>> (8 * k - 1)) * 0x87).getLsbD r = (word.getLsbD (8 * k - 1) && low r) := by
  have hvalue : word >>> (8 * k - 1) = bif word.getLsbD (8 * k - 1) then 1#_ else 0#_ := by
    apply BitVec.eq_of_getLsbD_eq
    intro i hi
    rw [BitVec.getLsbD_ushiftRight]
    rcases Nat.eq_zero_or_pos i with rfl | hpos
    · rw [Nat.add_zero]
      cases word.getLsbD (8 * k - 1) <;> simp [hk]
    · rw [BitVec.getLsbD_of_ge word _ (by omega)]
      cases word.getLsbD (8 * k - 1) <;> simp [BitVec.getLsbD_one, hpos.ne']
  rw [hvalue]
  cases word.getLsbD (8 * k - 1) with
  | false => simp
  | true =>
      rw [cond_true, BitVec.one_mul, Bool.true_and, low]
      exact (BitVec.getLsbD_ofNat _ _ _).trans (by simp [hr])

/-- The bits that the two word sizes compute. -/
theorem coefficient_shift {k p : Nat} (hk : WordSize k) (block : Block) (hp : p < 128) :
    (swapped k ((shiftSubblocks k (topBit k (subblocks k block))
      (subblocks k block)).getD (16 / k - 1 - p / (8 * k)) 0)).getLsbD (p % (8 * k)) =
        double 128 low (coefficient block) p := by
  have hpos : 0 < k := by rcases hk with rfl | rfl <;> decide
  have hlength : (subblocks k block).length = 16 / k := by simp [subblocks]
  have hindex : 16 / k - 1 - p / (8 * k) < 16 / k := by rcases hk with rfl | rfl <;> omega
  have hr : p % (8 * k) < 8 * k := Nat.mod_lt _ (by omega)
  have hword : ∀ i, swapped k ((subblocks k block).getD i 0) = wordAt k block i := fun _ => rfl
  have htop : coefficient block 127 = (wordAt k block 0).getLsbD (8 * k - 1) := by
    rw [coefficient_eq_wordAt hk block (by omega)]
    rcases hk with rfl | rfl <;> rfl
  have hcarry : topBit k (subblocks k block) = wordAt k block 0 >>> (8 * k - 1) := by
    rcases hk with rfl | rfl <;> rfl
  -- the bit below stands in the same subblock, or at the top of the next one
  have hsame (hr0 : p % (8 * k) ≠ 0) :
      (wordAt k block (16 / k - 1 - p / (8 * k))).getLsbD (p % (8 * k) - 1) =
        coefficient block (p - 1) := by
    rw [coefficient_eq_wordAt hk block (by omega)]
    have hdiv : (p - 1) / (8 * k) = p / (8 * k) := by rcases hk with rfl | rfl <;> omega
    have hmod : (p - 1) % (8 * k) = p % (8 * k) - 1 := by rcases hk with rfl | rfl <;> omega
    rw [hdiv, hmod]
  have hnext (hr0 : p % (8 * k) = 0) (hq : 0 < p / (8 * k)) :
      (wordAt k block (16 / k - 1 - p / (8 * k) + 1)).getLsbD (8 * k - 1) =
        coefficient block (p - 1) := by
    rw [coefficient_eq_wordAt hk block (by omega)]
    have hdiv : 16 / k - 1 - (p - 1) / (8 * k) = 16 / k - 1 - p / (8 * k) + 1 := by
      rcases hk with rfl | rfl <;> omega
    have hmod : (p - 1) % (8 * k) = 8 * k - 1 := by rcases hk with rfl | rfl <;> omega
    rw [hdiv, hmod]
  rw [swapped_shiftSubblocks k _ _ (by rw [hlength]; exact hindex), hlength, hword, hword, double,
    htop]
  rcases Nat.eq_zero_or_pos (p / (8 * k)) with hq | hq
  · have hp0 : p % (8 * k) = p := by rcases hk with rfl | rfl <;> omega
    rw [if_neg (by rw [hq]; omega), BitVec.getLsbD_xor, hcarry, getLsbD_carry _ hpos hr, hp0,
      BitVec.getLsbD_shiftLeft]
    rcases Nat.eq_zero_or_pos p with rfl | hp1
    · simp
    · rw [hp0] at hsame hr
      rw [hsame hp1.ne']
      simp [hr, hp1, hp1.ne']
  · have hp8 : 8 ≤ p := by rcases hk with rfl | rfl <;> omega
    rw [if_pos (by rcases hk with rfl | rfl <;> omega), BitVec.getLsbD_or,
      BitVec.getLsbD_shiftLeft, BitVec.getLsbD_ushiftRight, low_of_le hp8, Bool.and_false,
      Bool.xor_false]
    rcases Nat.eq_zero_or_pos (p % (8 * k)) with hr0 | hr1
    · rw [hr0, Nat.add_zero (8 * k - 1), hnext hr0 hq]
      simp [show 0 < p by omega]
    · rw [hsame hr1.ne', BitVec.getLsbD_of_ge (wordAt k block _) (8 * k - 1 + p % (8 * k))
        (by omega)]
      simp [hr, hr1.ne', show 0 < p by omega]

theorem shiftSubblocks_subblocks_length (k : Nat) (carry : BitVec (8 * k)) (block : Block) :
    (shiftSubblocks k carry (subblocks k block)).length = 16 / k := by
  rw [shiftSubblocks_length]
  simp [subblocks]

theorem coefficient_S2With {k p : Nat} (hk : WordSize k) (block : Block) (hp : p < 128) :
    coefficient (S2With k block) p = double 128 low (coefficient block) p := by
  rw [coefficient_eq_wordAt hk _ hp, ← coefficient_shift hk block hp, wordAt, S2With,
    subblocks_ofSubblocks hk (shiftSubblocks_subblocks_length k _ block)]

theorem storeSubblock_xor (k : Nat) (x y : BitVec (8 * k)) :
    storeSubblock k (x ^^^ y) =
      List.zipWith (· ^^^ ·) (storeSubblock k x) (storeSubblock k y) := by
  simp only [storeSubblock, List.zipWith_map, List.zipWith_self, BitVec.toNat_xor,
    Nat.shiftRight_xor_distrib, UInt8.ofNat_xor]

theorem storeSubblock_swapped (k : Nat) (x : BitVec (8 * k)) :
    storeSubblock k (swapped k x) = (storeSubblock k x).reverse :=
  storeSubblock_loadSubblock (by rw [List.length_reverse, storeSubblock_length])

theorem swapped_xor (k : Nat) (x y : BitVec (8 * k)) :
    swapped k (x ^^^ y) = swapped k x ^^^ swapped k y := by
  have hstore : storeSubblock k (swapped k (x ^^^ y)) =
      storeSubblock k (swapped k x ^^^ swapped k y) := by
    rw [storeSubblock_swapped, storeSubblock_xor, storeSubblock_xor, storeSubblock_swapped,
      storeSubblock_swapped, List.reverse_zipWith (by simp [storeSubblock_length])]
  rw [← loadSubblock_storeSubblock k (swapped k (x ^^^ y)), hstore, loadSubblock_storeSubblock]

theorem coefficient_S3With {k p : Nat} (hk : WordSize k) (block : Block) (hp : p < 128) :
    coefficient (S3With k block) p =
      (coefficient block p ^^ double 128 low (coefficient block) p) := by
  have hshift := shiftSubblocks_subblocks_length k (topBit k (subblocks k block)) block
  have hwords : (subblocks k block).length = 16 / k := by simp [subblocks]
  have hindex : 16 / k - 1 - p / (8 * k) < 16 / k := by rcases hk with rfl | rfl <;> omega
  rw [coefficient_eq_wordAt hk _ hp, wordAt, S3With,
    subblocks_ofSubblocks hk (by rw [List.length_zipWith, hshift, hwords, Nat.min_self]),
    ← coefficient_shift hk block hp, coefficient_eq_wordAt hk block hp, wordAt,
    ← BitVec.getLsbD_xor, ← swapped_xor]
  congr 2
  simp [List.getD_eq_getElem?_getD, hindex, hwords, hshift]

theorem polynomial_S2With {k : Nat} (hk : WordSize k) (block : Block) :
    polynomial (S2With k block) = X * polynomial block %ₘ modulus 128 low := by
  rw [polynomial, poly_congr fun _ hp => coefficient_S2With hk block hp,
    poly_double 128 low _ (by decide), polynomial]

theorem polynomial_S3With {k : Nat} (hk : WordSize k) (block : Block) :
    polynomial (S3With k block) = (X + 1) * polynomial block %ₘ modulus 128 low := by
  rw [polynomial, poly_congr fun _ hp => coefficient_S3With hk block hp,
    poly_double_xor 128 low _ (by decide), polynomial]

theorem S2With_eq {k l : Nat} (hk : WordSize k) (hl : WordSize l) (block : Block) :
    S2With k block = S2With l block := by
  apply coefficient_injective
  intro p hp
  rw [coefficient_S2With hk block hp, coefficient_S2With hl block hp]

theorem S3With_eq {k l : Nat} (hk : WordSize k) (hl : WordSize l) (block : Block) :
    S3With k block = S3With l block := by
  apply coefficient_injective
  intro p hp
  rw [coefficient_S3With hk block hp, coefficient_S3With hl block hp]

/-- `S2` and `S3` multiply by `X` and by `X + 1`, and the 32-bit build writes
the same bytes as the 64-bit build. -/
theorem doubling_in_both_builds (block : Block) :
    polynomial (S2Build 8 block) =
        X * polynomial block %ₘ (X ^ 128 + X ^ 7 + X ^ 2 + X + 1) ∧
      polynomial (S3Build 8 block) =
        (X + 1) * polynomial block %ₘ (X ^ 128 + X ^ 7 + X ^ 2 + X + 1) ∧
      S2Build 4 block = S2Build 8 block ∧ S3Build 4 block = S3Build 8 block := by
  have hmodulus : modulus 128 low = X ^ 128 + X ^ 7 + X ^ 2 + X + 1 := by
    rw [modulus, poly_low]
    ring
  have h8 : WordSize 8 := Or.inl rfl
  have h4 : WordSize 4 := Or.inr rfl
  rw [← hmodulus, S2Build_eq h8, S3Build_eq h8, S2Build_eq h4, S3Build_eq h4]
  exact ⟨polynomial_S2With h8 block, polynomial_S3With h8 block, S2With_eq h4 h8 block,
    S3With_eq h4 h8 block⟩

end LuaMumble.Ocb
