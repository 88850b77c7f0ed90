import LuaMumble.Ocb.Block

/-!
Doubling is injective: no two blocks have the same image under `S2`, so the
offsets `delta` of two nonces stay different from block to block. The bit that
the shift pushes out of the block can be read off the result, since 0x87 is odd.
-/

namespace LuaMumble.Ocb

open Lib.LittleEndian

theorem storeSubblock_length (k : Nat) (x : BitVec (8 * k)) :
    (storeSubblock k x).length = k := by
  simp [storeSubblock]

private theorem value_range_map (k n : Nat) :
    value ((List.range k).map fun i => UInt8.ofNat (n >>> (8 * i))) = n % 256 ^ k := by
  induction k generalizing n with
  | zero => simp [Nat.mod_one]
  | succ k ih =>
      have hshift (i : Nat) : n >>> (8 * (i + 1)) = (n / 256) >>> (8 * i) := by
        have hbyte : n >>> 8 = n / 256 := Nat.shiftRight_eq_div_pow n 8
        rw [show 8 * (i + 1) = 8 + 8 * i by ring, Nat.shiftRight_add, hbyte]
      rw [List.range_succ_eq_map, List.map_cons, List.map_map, value_cons]
      have htail : List.map ((fun i => UInt8.ofNat (n >>> (8 * i))) ∘ Nat.succ) (List.range k) =
          (List.range k).map fun i => UInt8.ofNat ((n / 256) >>> (8 * i)) := by
        apply List.map_congr_left
        intro i _
        exact congrArg UInt8.ofNat (hshift i)
      rw [htail, ih, pow_succ', Nat.mod_mul]
      simp

theorem loadSubblock_storeSubblock (k : Nat) (x : BitVec (8 * k)) :
    loadSubblock k (storeSubblock k x) = x := by
  apply BitVec.eq_of_toNat_eq
  have hx := x.isLt
  rw [loadSubblock, BitVec.toNat_ofNat, storeSubblock, value_range_map,
    show (256 : Nat) = 2 ^ 8 by norm_num, ← pow_mul, Nat.mod_mod, Nat.mod_eq_of_lt hx]

theorem storeSubblock_loadSubblock {k : Nat} {bytes : List UInt8} (h : bytes.length = k) :
    storeSubblock k (loadSubblock k bytes) = bytes := by
  apply value_injective
  · rw [storeSubblock_length, h]
  · have hlt := value_lt bytes
    rw [h] at hlt
    rw [storeSubblock, value_range_map, loadSubblock, BitVec.toNat_ofNat,
      show 2 ^ (8 * k) = 256 ^ k by rw [pow_mul]; norm_num, Nat.mod_mod, Nat.mod_eq_of_lt hlt]

theorem swapped_swapped (k : Nat) (x : BitVec (8 * k)) : swapped k (swapped k x) = x := by
  have hlength : (storeSubblock k x).reverse.length = k := by
    rw [List.length_reverse, storeSubblock_length]
  rw [swapped, swapped, storeSubblock_loadSubblock hlength, List.reverse_reverse,
    loadSubblock_storeSubblock]

theorem swapped_injective (k : Nat) : Function.Injective (swapped k) :=
  Function.LeftInverse.injective (swapped_swapped k)

/-- The two words of the 64-bit build hold the whole block. -/
theorem ofSubblocks_subblocks (block : Block) : ofSubblocks 8 (subblocks 8 block) = block := by
  apply Block.ext
  have hfirst : (block.bytes.take 8).length = 8 := by
    simp [block.length_bytes]
  have hlast : (block.bytes.drop 8).length = 8 := by
    simp [block.length_bytes]
  have hwords : (subblocks 8 block).flatMap (storeSubblock 8) = block.bytes := by
    change storeSubblock 8 (loadSubblock 8 ((block.bytes.drop 0).take 8)) ++
      (storeSubblock 8 (loadSubblock 8 ((block.bytes.drop 8).take 8)) ++ []) = block.bytes
    rw [List.drop_zero, storeSubblock_loadSubblock hfirst,
      List.take_of_length_le (le_of_eq hlast), storeSubblock_loadSubblock hlast, List.append_nil,
      List.take_append_drop]
  rw [ofSubblocks, hwords]
  exact Block.ofBytes_bytes block.length_bytes

theorem ofSubblocks_injective {a b c d : BitVec (8 * 8)}
    (h : ofSubblocks 8 [a, b] = ofSubblocks 8 [c, d]) : a = c ∧ b = d := by
  have hbytes (x y : BitVec (8 * 8)) :
      (ofSubblocks 8 [x, y]).bytes = storeSubblock 8 x ++ storeSubblock 8 y := by
    unfold ofSubblocks
    rw [Block.ofBytes_bytes]
    · simp
    · simp [storeSubblock_length]
  have happend := congrArg Block.bytes h
  rw [hbytes, hbytes] at happend
  obtain ⟨hfirst, hlast⟩ := List.append_inj happend (by
    rw [storeSubblock_length, storeSubblock_length])
  have hload {x y : BitVec (8 * 8)} (hxy : storeSubblock 8 x = storeSubblock 8 y) : x = y := by
    rw [← loadSubblock_storeSubblock 8 x, hxy, loadSubblock_storeSubblock]
  exact ⟨hload hfirst, hload hlast⟩

private theorem top_bit (x : BitVec 64) : x >>> 63 = 0#64 ∨ x >>> 63 = 1#64 := by
  have hx := x.isLt
  have hval : (x >>> 63).toNat = x.toNat / 2 ^ 63 := by
    rw [BitVec.toNat_ushiftRight, Nat.shiftRight_eq_div_pow]
  rcases Nat.lt_or_ge x.toNat (2 ^ 63) with hlow | hhigh
  · left
    apply BitVec.eq_of_toNat_eq
    rw [hval, Nat.div_eq_of_lt hlow]
    rfl
  · right
    apply BitVec.eq_of_toNat_eq
    rw [hval]
    change x.toNat / 2 ^ 63 = 1
    omega

/-- A 128-bit word in two halves can be recovered from its shift by one bit
when the bit pushed out is known. -/
private theorem shift_injective {a b c d : BitVec 64} (hcarry : a >>> 63 = c >>> 63)
    (hhigh : a <<< 1 ||| b >>> 63 = c <<< 1 ||| d >>> 63) (hlow : b <<< 1 = d <<< 1) :
    a = c ∧ b = d := by
  have hbit (x y : BitVec 64) (i : Nat) (h : x = y) : x.getLsbD i = y.getLsbD i := by rw [h]
  have hb : b = d := by
    apply BitVec.eq_of_getLsbD_eq
    intro i hi
    rcases Nat.lt_or_ge (i + 1) 64 with hlt | hge
    · have h1 := hbit _ _ (i + 1) hlow
      simpa [BitVec.getLsbD_shiftLeft, hlt, BitVec.getLsbD_eq_getElem hi] using h1
    · obtain rfl : i = 63 := by omega
      have h0 := hbit _ _ 0 hhigh
      simpa [BitVec.getLsbD_shiftLeft, BitVec.getLsbD_ushiftRight] using h0
  refine ⟨?_, hb⟩
  apply BitVec.eq_of_getLsbD_eq
  intro i hi
  rcases Nat.lt_or_ge (i + 1) 64 with hlt | hge
  · have h1 := hbit _ _ (i + 1) hhigh
    have hpast : d.getLsbD (63 + (i + 1)) = false := BitVec.getLsbD_of_ge d _ (by omega)
    rw [hb] at h1
    simpa [BitVec.getLsbD_shiftLeft, hlt, hpast, BitVec.getLsbD_eq_getElem hi] using h1
  · obtain rfl : i = 63 := by omega
    have h0 := hbit _ _ 0 hcarry
    simpa [BitVec.getLsbD_ushiftRight] using h0

private theorem carry_injective {b d x y : BitVec 64} (hx : x = 0#64 ∨ x = 1#64)
    (hy : y = 0#64 ∨ y = 1#64)
    (h : (b <<< 1) ^^^ (x * 0x87#64) = (d <<< 1) ^^^ (y * 0x87#64)) :
    x = y ∧ b <<< 1 = d <<< 1 := by
  have h0 : ((b <<< 1) ^^^ (x * 0x87#64)).getLsbD 0 =
      ((d <<< 1) ^^^ (y * 0x87#64)).getLsbD 0 := by rw [h]
  rcases hx with rfl | rfl <;> rcases hy with rfl | rfl
  · exact ⟨rfl, by simpa using h⟩
  · simp at h0
  · simp at h0
  · exact ⟨rfl, by simpa using h⟩

theorem S2_injective : Function.Injective S2 := by
  intro p q h
  have hwords (block : Block) : ∃ a b, subblocks 8 block = [a, b] := ⟨_, _, rfl⟩
  obtain ⟨a, b, hp⟩ := hwords p
  obtain ⟨c, d, hq⟩ := hwords q
  simp only [S2, S2With, hp, hq, topBit, shiftSubblocks, List.headD_cons] at h
  obtain ⟨hhigh, hlow⟩ := ofSubblocks_injective h
  have hhigh' := swapped_injective 8 hhigh
  have hlow' := swapped_injective 8 hlow
  obtain ⟨hcarry, hshift⟩ := carry_injective (top_bit _) (top_bit _) hlow'
  obtain ⟨ha, hb⟩ := shift_injective hcarry hhigh' hshift
  rw [← ofSubblocks_subblocks p, ← ofSubblocks_subblocks q, hp, hq, swapped_injective 8 ha,
    swapped_injective 8 hb]

end LuaMumble.Ocb
