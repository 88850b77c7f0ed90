import Mathlib.Tactic
import LuaMumble.Lib.LittleEndian

/-!
The 16-byte blocks of OCB-AES128 and the operations on them. A block is its
bytes in memory order. `S2` and `S3` work on subblocks of `k` bytes: the build
for LP64 uses two 64-bit subblocks (`k = 8`), the other one four 32-bit ones
(`k = 4`). Loads and stores of a subblock are little-endian, as on the hosts
the program is built for, so `swapped` turns a load into a big-endian one.
-/

namespace LuaMumble.Ocb

/-- `AES_BLOCK_SIZE` bytes. -/
@[ext] structure Block where
  bytes : List UInt8
  length_bytes : bytes.length = 16
  deriving DecidableEq

namespace Block

/-- The first 16 bytes of a buffer. -/
def ofBytes (bytes : List UInt8) : Block :=
  ⟨bytes.takeD 16 0, List.takeD_length 16 bytes 0⟩

def get (block : Block) (i : Nat) : UInt8 :=
  block.bytes.getD i 0

theorem ofBytes_bytes {bytes : List UInt8} (h : bytes.length = 16) :
    (ofBytes bytes).bytes = bytes := by
  change bytes.takeD 16 0 = bytes
  rw [List.takeD_eq_take _ (by omega), List.take_of_length_le (by omega)]

@[simp] theorem ofBytes_self (block : Block) : ofBytes block.bytes = block :=
  Block.ext (ofBytes_bytes block.length_bytes)

/-- Blocks are equal when their sixteen bytes are. -/
theorem ext_get {a b : Block} (h : ∀ i < 16, a.get i = b.get i) : a = b := by
  apply Block.ext
  apply List.ext_getElem
  · rw [a.length_bytes, b.length_bytes]
  · intro i ha hb
    have hi : i < 16 := a.length_bytes ▸ ha
    simpa [get, List.getD_eq_getElem?_getD, ha, hb] using h i hi

/-- `ZERO`: `memset(block, 0, BLOCKSIZE * sizeof(block))`. The factor is the
size of a pointer, which is 8 bytes where `BLOCKSIZE` is 2. -/
def zero : Block := ⟨List.replicate 16 0, by simp⟩

/-- `XOR`, subblock by subblock, hence byte by byte. -/
def xor (a b : Block) : Block :=
  ⟨List.zipWith (· ^^^ ·) a.bytes b.bytes, by simp [a.length_bytes, b.length_bytes]⟩

/-- `*(subblock*)block ^= 1`: the low bit of a little-endian subblock is bit 0
of its first byte. -/
def flipABit (block : Block) : Block :=
  ⟨block.bytes.modify 0 (· ^^^ 1), by simp [block.length_bytes]⟩

/-- `memcpy(block, src, len)` with at most 16 source bytes. -/
def memcpy (block : Block) (src : List UInt8) : Block :=
  ofBytes (src ++ block.bytes.drop src.length)

@[simp] theorem get_xor (a b : Block) (i : Nat) (hi : i < 16) :
    (xor a b).get i = a.get i ^^^ b.get i := by
  have ha : i < a.bytes.length := by rw [a.length_bytes]; exact hi
  have hb : i < b.bytes.length := by rw [b.length_bytes]; exact hi
  simp [get, xor, List.getD_eq_getElem?_getD, ha, hb]

@[simp] theorem get_flipABit (a : Block) (i : Nat) (hi : i < 16) :
    a.flipABit.get i = if i = 0 then a.get i ^^^ 1 else a.get i := by
  have ha : i < a.bytes.length := by rw [a.length_bytes]; exact hi
  by_cases h0 : i = 0
  · subst h0
    simp [get, flipABit, List.getD_eq_getElem?_getD, ha]
  · simp [get, flipABit, List.getD_eq_getElem?_getD, ha, h0, Ne.symm h0]

theorem get_zero (i : Nat) : zero.get i = 0 := by
  unfold get zero
  rw [List.getD_eq_getElem?_getD, List.getElem?_replicate]
  split <;> rfl

theorem get_memcpy (block : Block) (src : List UInt8) (i : Nat) (hsrc : src.length ≤ 16) :
    (block.memcpy src).get i = if i < src.length then src.getD i 0 else block.get i := by
  have hlength : (src ++ block.bytes.drop src.length).length = 16 := by
    simp [block.length_bytes]
    omega
  unfold memcpy get
  rw [ofBytes_bytes hlength]
  by_cases hin : i < src.length
  · simp [List.getD_eq_getElem?_getD, hin, List.getElem?_append_left hin]
  · have hsum : src.length + (i - src.length) = i := by omega
    simp [List.getD_eq_getElem?_getD, hin, List.getElem?_append_right (Nat.le_of_not_lt hin),
      hsum]

theorem zero_xor (a : Block) : xor zero a = a := by
  apply ext_get
  intro i hi
  rw [get_xor _ _ _ hi, get_zero, UInt8.zero_xor]

theorem xor_xor_cancel (a b : Block) : xor a (xor a b) = b := by
  apply ext_get
  intro i hi
  rw [get_xor _ _ _ hi, get_xor _ _ _ hi, ← UInt8.xor_assoc, UInt8.xor_self, UInt8.zero_xor]

theorem flipABit_xor (a b : Block) : (xor a b).flipABit = xor a b.flipABit := by
  apply ext_get
  intro i hi
  by_cases h0 : i = 0
  · simp [h0, UInt8.xor_assoc]
  · simp [hi, h0]

end Block

/-- A little-endian load of a `k`-byte subblock. -/
def loadSubblock (k : Nat) (bytes : List UInt8) : BitVec (8 * k) :=
  BitVec.ofNat (8 * k) (Lib.LittleEndian.value bytes)

/-- A little-endian store of a `k`-byte subblock. -/
def storeSubblock (k : Nat) (x : BitVec (8 * k)) : List UInt8 :=
  (List.range k).map fun i => UInt8.ofNat (x.toNat >>> (8 * i))

/-- `SWAPPED`: the bytes of a subblock in the opposite order. -/
def swapped (k : Nat) (x : BitVec (8 * k)) : BitVec (8 * k) :=
  loadSubblock k (storeSubblock k x).reverse

/-- The subblocks of a block, `BLOCKSIZE` of them. -/
def subblocks (k : Nat) (block : Block) : List (BitVec (8 * k)) :=
  (List.range (16 / k)).map fun i => loadSubblock k ((block.bytes.drop (k * i)).take k)

def ofSubblocks (k : Nat) (words : List (BitVec (8 * k))) : Block :=
  Block.ofBytes (words.flatMap (storeSubblock k))

/-- The shift by one bit that `S2` and `S3` share, from the first subblock to
the last; `SHIFTBITS` is `8 * k - 1`. -/
def shiftSubblocks (k : Nat) (carry : BitVec (8 * k)) :
    List (BitVec (8 * k)) → List (BitVec (8 * k))
  | [] => []
  | [last] => [swapped k ((swapped k last <<< 1) ^^^ (carry * 0x87))]
  | x :: y :: rest =>
      swapped k ((swapped k x <<< 1) ||| (swapped k y >>> (8 * k - 1))) ::
        shiftSubblocks k carry (y :: rest)

/-- `carry` of `S2` and `S3`: the top bit of the block. -/
def topBit (k : Nat) (words : List (BitVec (8 * k))) : BitVec (8 * k) :=
  swapped k (words.headD 0) >>> (8 * k - 1)

def S2With (k : Nat) (block : Block) : Block :=
  let words := subblocks k block
  ofSubblocks k (shiftSubblocks k (topBit k words) words)

def S3With (k : Nat) (block : Block) : Block :=
  let words := subblocks k block
  ofSubblocks k (List.zipWith (· ^^^ ·) words (shiftSubblocks k (topBit k words) words))

/-- `S2` of the 64-bit build. -/
def S2 : Block → Block := S2With 8

/-- `S3` of the 64-bit build. -/
def S3 : Block → Block := S3With 8

/-- `ZERO(&tmp); tmp[BLOCKSIZE - 1] = SWAPPED(len * 8);` -/
def lengthBlock (len : Nat) : Block :=
  ofSubblocks 8 [0, swapped 8 (BitVec.ofNat 64 (len * 8))]

end LuaMumble.Ocb
