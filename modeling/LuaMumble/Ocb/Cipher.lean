import LuaMumble.Ocb.Block

/-!
`crypt_ocb_encrypt` and `crypt_ocb_decrypt`. AES under the key in use is a
permutation `E` of blocks; `EVP_DecryptUpdate` is its inverse. Buffers are
byte lists: a pointer that the C loops advance is the list still to be read,
and `len` is its length.
-/

namespace LuaMumble.Ocb

/-- What a call leaves behind: the bytes written to its output buffer, the tag
and the returned flag. -/
structure OcbResult where
  text : List UInt8
  tag : Block
  success : Bool
  deriving DecidableEq

def OcbResult.prepend (block : Block) (r : OcbResult) : OcbResult :=
  { r with text := block.bytes ++ r.text }

/-- `sum` of the counter-cryptanalysis: the first 15 bytes of a block, or-ed. -/
def sumBytes (plain : List UInt8) : UInt8 :=
  (plain.take 15).foldl (· ||| ·) 0

/-- One full block of `crypt_ocb_encrypt`, under a `delta` already doubled. -/
def encryptBlock (E : Equiv.Perm Block) (delta : Block) (flipABit : Bool) (plain : Block) :
    Block :=
  let tmp := Block.xor delta plain
  let tmp := if flipABit then tmp.flipABit else tmp
  Block.xor delta (E tmp)

def encryptChecksum (checksum : Block) (flipABit : Bool) (plain : Block) : Block :=
  let checksum := Block.xor checksum plain
  if flipABit then checksum.flipABit else checksum

/-- The lines of `crypt_ocb_encrypt` after its loop. -/
def ocbEncryptLast (E : Equiv.Perm Block) (delta checksum : Block) (plain : List UInt8)
    (success : Bool) : OcbResult :=
  let len := plain.length
  let delta := S2 delta
  let pad := E (Block.xor (lengthBlock len) delta)
  let tmp := pad.memcpy plain
  let checksum := Block.xor checksum tmp
  let encrypted := (Block.xor pad tmp).bytes.take len
  let delta := S3 delta
  ⟨encrypted, E (Block.xor delta checksum), success⟩

/-- The loop of `crypt_ocb_encrypt`. Each round takes 16 bytes off `plain`, so
its length is always enough fuel. -/
def ocbEncryptLoop (E : Equiv.Perm Block) (modifyPlainOnXEXStarAttack : Bool) :
    Nat → Block → Block → List UInt8 → Bool → OcbResult
  | 0, delta, checksum, plain, success => ocbEncryptLast E delta checksum plain success
  | fuel + 1, delta, checksum, plain, success =>
      if plain.length > 16 then
        -- The last round of the loop with an all-zero block: flip a bit, or
        -- give up, as the caller chose.
        let critical := decide (plain.length - 16 ≤ 16) && sumBytes plain == 0
        let flipABit := critical && modifyPlainOnXEXStarAttack
        let success := success && !(critical && !modifyPlainOnXEXStarAttack)
        let delta := S2 delta
        let block := Block.ofBytes plain
        (ocbEncryptLoop E modifyPlainOnXEXStarAttack fuel delta
          (encryptChecksum checksum flipABit block) (plain.drop 16) success).prepend
            (encryptBlock E delta flipABit block)
      else ocbEncryptLast E delta checksum plain success

def cryptOcbEncrypt (E : Equiv.Perm Block) (plain : List UInt8) (nonce : Block)
    (modifyPlainOnXEXStarAttack : Bool) : OcbResult :=
  ocbEncryptLoop E modifyPlainOnXEXStarAttack plain.length (E nonce) Block.zero plain true

def decryptBlock (E : Equiv.Perm Block) (delta encrypted : Block) : Block :=
  Block.xor delta (E.symm (Block.xor delta encrypted))

/-- The lines of `crypt_ocb_decrypt` after its loop. -/
def ocbDecryptLast (E : Equiv.Perm Block) (delta checksum : Block) (encrypted : List UInt8) :
    OcbResult :=
  let len := encrypted.length
  let delta := S2 delta
  let pad := E (Block.xor (lengthBlock len) delta)
  let tmp := Block.xor (Block.zero.memcpy encrypted) pad
  let checksum := Block.xor checksum tmp
  let plain := tmp.bytes.take len
  let success := !(tmp.bytes.take 15 == delta.bytes.take 15)
  let delta := S3 delta
  ⟨plain, E (Block.xor delta checksum), success⟩

/-- The loop of `crypt_ocb_decrypt`, with fuel as in `ocbEncryptLoop`. -/
def ocbDecryptLoop (E : Equiv.Perm Block) :
    Nat → Block → Block → List UInt8 → OcbResult
  | 0, delta, checksum, encrypted => ocbDecryptLast E delta checksum encrypted
  | fuel + 1, delta, checksum, encrypted =>
      if encrypted.length > 16 then
        let delta := S2 delta
        let plain := decryptBlock E delta (Block.ofBytes encrypted)
        (ocbDecryptLoop E fuel delta (Block.xor checksum plain) (encrypted.drop 16)).prepend plain
      else ocbDecryptLast E delta checksum encrypted

def cryptOcbDecrypt (E : Equiv.Perm Block) (encrypted : List UInt8) (nonce : Block) :
    OcbResult :=
  ocbDecryptLoop E encrypted.length (E nonce) Block.zero encrypted

section Loops

variable (E : Equiv.Perm Block)

theorem ocbEncryptLoop_long {fuel : Nat} {delta checksum : Block} {plain : List UInt8}
    {success : Bool} (h : 16 < plain.length) :
    ocbEncryptLoop E true (fuel + 1) delta checksum plain success =
      let flipABit := decide (plain.length - 16 ≤ 16) && sumBytes plain == 0
      (ocbEncryptLoop E true fuel (S2 delta)
        (encryptChecksum checksum flipABit (Block.ofBytes plain)) (plain.drop 16) success).prepend
          (encryptBlock E (S2 delta) flipABit (Block.ofBytes plain)) := by
  simp [ocbEncryptLoop, h]

theorem ocbEncryptLoop_short {fuel : Nat} {delta checksum : Block} {plain : List UInt8}
    {modify success : Bool} (h : plain.length ≤ 16) :
    ocbEncryptLoop E modify fuel delta checksum plain success =
      ocbEncryptLast E delta checksum plain success := by
  cases fuel with
  | zero => rfl
  | succ fuel => simp [ocbEncryptLoop, Nat.not_lt.mpr h]

theorem ocbDecryptLoop_long {fuel : Nat} {delta checksum : Block} {encrypted : List UInt8}
    (h : 16 < encrypted.length) :
    ocbDecryptLoop E (fuel + 1) delta checksum encrypted =
      let plain := decryptBlock E (S2 delta) (Block.ofBytes encrypted)
      (ocbDecryptLoop E fuel (S2 delta) (Block.xor checksum plain)
        (encrypted.drop 16)).prepend plain := by
  simp [ocbDecryptLoop, h]

theorem ocbDecryptLoop_short {fuel : Nat} {delta checksum : Block} {encrypted : List UInt8}
    (h : encrypted.length ≤ 16) :
    ocbDecryptLoop E fuel delta checksum encrypted =
      ocbDecryptLast E delta checksum encrypted := by
  cases fuel with
  | zero => rfl
  | succ fuel => simp [ocbDecryptLoop, Nat.not_lt.mpr h]

end Loops

end LuaMumble.Ocb
