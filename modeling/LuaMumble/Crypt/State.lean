import LuaMumble.Lib.LittleEndian
import LuaMumble.Ocb.Cipher

/-!
The cipher state of a connection, `mumble_crypt`, and the calls that change it.
AES is a parameter: a permutation of blocks for each key. The four
`EVP_CIPHER_CTX` fields are left out, since every use initialises its context
first. `size_t` has 64 bits.
-/

namespace LuaMumble.Crypt

open Ocb Lib.LittleEndian

structure MumbleCrypt where
  rawKey : Block
  encryptIv : Block
  decryptIv : Block
  decryptHistory : UInt8 → UInt8
  uiGood : UInt64
  uiLate : UInt64
  uiLost : UInt64
  uiResync : UInt64
  bInit : Bool

def cryptInit : MumbleCrypt where
  rawKey := Block.zero
  encryptIv := Block.zero
  decryptIv := Block.zero
  decryptHistory := fun _ => 0
  uiGood := 0
  uiLate := 0
  uiLost := 0
  uiResync := 0
  bInit := false

def cryptSetKey (crypt : MumbleCrypt) (rkey eiv div : List UInt8) : Bool × MumbleCrypt :=
  if rkey.length = 16 ∧ eiv.length = 16 ∧ div.length = 16 then
    (true, { crypt with
      rawKey := Block.ofBytes rkey
      encryptIv := Block.ofBytes eiv
      decryptIv := Block.ofBytes div
      bInit := true })
  else (false, crypt)

/-- `for (int i = start; i < AES_BLOCK_SIZE; i++) if (++iv[i]) break;` -/
def incrementFrom (start : Nat) (iv : Block) : Block :=
  Block.ofBytes (iv.bytes.take start ++ increment (iv.bytes.drop start))

/-- `for (int i = start; i < AES_BLOCK_SIZE; i++) if (iv[i]--) break;` -/
def decrementFrom (start : Nat) (iv : Block) : Block :=
  Block.ofBytes (iv.bytes.take start ++ decrement (iv.bytes.drop start))

def setFirst (iv : Block) (ivbyte : UInt8) : Block :=
  Block.ofBytes (ivbyte :: iv.bytes.drop 1)

/-- `crypt_encrypt`: the packet written to `dst`, or nothing when it returns
false. -/
def cryptEncrypt (aes : Block → Equiv.Perm Block) (crypt : MumbleCrypt) (source : List UInt8) :
    Option (List UInt8) × MumbleCrypt :=
  let crypt := { crypt with encryptIv := incrementFrom 0 crypt.encryptIv }
  let r := cryptOcbEncrypt (aes crypt.rawKey) source crypt.encryptIv true
  if r.success then
    (some ([crypt.encryptIv.get 0, r.tag.get 0, r.tag.get 1, r.tag.get 2] ++ r.text), crypt)
  else (none, crypt)

/-- What `crypt_decrypt` works out from the first byte of a packet before it
decrypts: the IV to try, the changes to the counters, whether the IV is put
back afterwards and whether the history is consulted first. -/
structure IvGuess where
  iv : Block
  lost : Int
  late : Int
  restore : Bool
  outOfOrder : Bool

/-- The branches of `crypt_decrypt` on `ivbyte`; `none` is `return false`. -/
def guessIv (iv : Block) (ivbyte : UInt8) : Option IvGuess :=
  let iv0 := iv.get 0
  if (iv0.toNat + 1) % 256 = ivbyte.toNat then
    if ivbyte > iv0 then
      some ⟨setFirst iv ivbyte, 0, 0, false, false⟩
    else if ivbyte < iv0 then
      some ⟨incrementFrom 1 (setFirst iv ivbyte), 0, 0, false, false⟩
    else none
  else
    let diff : Int := ivbyte.toNat - iv0.toNat
    let diff := if diff > 128 then diff - 256 else if diff < -128 then diff + 256 else diff
    if ivbyte < iv0 ∧ diff > -30 ∧ diff < 0 then
      some ⟨setFirst iv ivbyte, -1, 1, true, true⟩
    else if ivbyte > iv0 ∧ diff > -30 ∧ diff < 0 then
      some ⟨decrementFrom 1 (setFirst iv ivbyte), -1, 1, true, true⟩
    else if ivbyte > iv0 ∧ diff > 0 then
      some ⟨setFirst iv ivbyte, ivbyte.toNat - iv0.toNat - 1, 0, false, true⟩
    else if ivbyte < iv0 ∧ diff > 0 then
      some ⟨incrementFrom 1 (setFirst iv ivbyte), 256 - iv0.toNat + ivbyte.toNat - 1, 0,
        false, true⟩
    else none

/-- The update of `uiLate` by `late` and of `uiLost` by `lost`. -/
def addCounter (counter : UInt64) (change : Int) : UInt64 :=
  if change > 0 then counter + UInt64.ofNat change.toNat
  else if counter.toNat > change.natAbs then counter - UInt64.ofNat change.natAbs
  else counter

/-- The slot of the IV in `decrypt_history` holds the IV's second byte. -/
def replayed (crypt : MumbleCrypt) (iv : Block) : Bool :=
  crypt.decryptHistory (iv.get 0) == iv.get 1

/-- `source` decrypts under `iv` and carries the first three bytes of its tag. -/
def opens (E : Equiv.Perm Block) (source : List UInt8) (iv : Block) : Bool :=
  let r := cryptOcbDecrypt E (source.drop 4) iv
  r.success && r.tag.bytes.take 3 == (source.drop 1).take 3

/-- `crypt_decrypt`: the plaintext written to `dst`, or nothing when it returns
false. -/
def cryptDecrypt (aes : Block → Equiv.Perm Block) (crypt : MumbleCrypt) (source : List UInt8) :
    Option (List UInt8) × MumbleCrypt :=
  if source.length < 4 then (none, crypt)
  else
    match guessIv crypt.decryptIv (source.getD 0 0) with
    | none => (none, crypt)
    | some guess =>
        if guess.outOfOrder && replayed crypt guess.iv then (none, crypt)
        else if !opens (aes crypt.rawKey) source guess.iv then (none, crypt)
        else
          (some (cryptOcbDecrypt (aes crypt.rawKey) (source.drop 4) guess.iv).text,
            { crypt with
              decryptHistory :=
                Function.update crypt.decryptHistory (guess.iv.get 0) (guess.iv.get 1)
              decryptIv := if guess.restore then crypt.decryptIv else guess.iv
              uiGood := crypt.uiGood + 1
              uiLate := addCounter crypt.uiLate guess.late
              uiLost := addCounter crypt.uiLost guess.lost })

end LuaMumble.Crypt
