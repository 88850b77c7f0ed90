import LuaMumble.Ocb.Cipher

/-!
Decrypting what was encrypted under the same nonce. The two functions treat
the last block differently: encryption pads it with bytes of `pad`, decryption
with zeros that it then masks with `pad`. The flipped bit of the counter-measure
against the XEX* attack is in the ciphertext and in the checksum alike, so the
receiver sees the modified plaintext under the sender's tag.
-/

namespace LuaMumble.Ocb

/-- Where the block after the loops starts, which holds 1 to 16 bytes (or none
when there is nothing to encrypt). -/
def lastBlockStart (len : Nat) : Nat :=
  16 * ((len - 1) / 16)

/-- The block before the last one is one that the XEX* attack could use: it
exists and its first 15 bytes are zero. -/
def Critical (plain : List UInt8) : Prop :=
  16 < plain.length ∧ ∀ b ∈ (plain.drop (lastBlockStart plain.length - 16)).take 15, b = 0

instance (plain : List UInt8) : Decidable (Critical plain) :=
  inferInstanceAs (Decidable (_ ∧ _))

/-- The plaintext with the documented bit change: in a critical plaintext, bit 0
of the first byte of the block before the last one is set. -/
def counterCryptanalysis (plain : List UInt8) : List UInt8 :=
  if Critical plain then plain.modify (lastBlockStart plain.length - 16) (· ||| 1) else plain

/-- `delta` as it stands when the last block is processed. -/
def lastDelta (E : Equiv.Perm Block) (nonce : Block) (len : Nat) : Block :=
  S2^[(len - 1) / 16 + 1] (E nonce)

/-- The last block of a ciphertext, padded with zeros and then masked. -/
def maskedLastBlock (E : Equiv.Perm Block) (nonce : Block) (encrypted : List UInt8) : Block :=
  let last := encrypted.drop (lastBlockStart encrypted.length)
  Block.xor (Block.zero.memcpy last)
    (E (Block.xor (lengthBlock last.length) (lastDelta E nonce encrypted.length)))

/-- The check of `crypt_ocb_decrypt` against the XEX* attack fires: the first 15
bytes of the masked last block are those of `delta`. -/
def AttackCheckFires (E : Equiv.Perm Block) (nonce : Block) (encrypted : List UInt8) : Prop :=
  (maskedLastBlock E nonce encrypted).bytes.take 15 =
    (lastDelta E nonce encrypted.length).bytes.take 15

instance (E : Equiv.Perm Block) (nonce : Block) (encrypted : List UInt8) :
    Decidable (AttackCheckFires E nonce encrypted) :=
  inferInstanceAs (Decidable (_ = _))

private theorem foldl_or_eq_zero (bytes : List UInt8) (start : UInt8) :
    bytes.foldl (· ||| ·) start = 0 ↔ start = 0 ∧ ∀ b ∈ bytes, b = 0 := by
  induction bytes generalizing start with
  | nil => simp
  | cons b rest ih =>
      simp only [List.foldl_cons, ih, UInt8.or_eq_zero_iff, List.forall_mem_cons, and_assoc]

theorem sumBytes_eq_zero_iff (plain : List UInt8) :
    sumBytes plain = 0 ↔ ∀ b ∈ plain.take 15, b = 0 := by
  simp [sumBytes, foldl_or_eq_zero]

theorem counterCryptanalysis_short {plain : List UInt8} (h : plain.length ≤ 16) :
    counterCryptanalysis plain = plain := by
  simp [counterCryptanalysis, Critical, Nat.not_lt.mpr h]

/-- Two blocks: the first one is the block before the last. -/
theorem counterCryptanalysis_two {plain : List UInt8} (hlow : 16 < plain.length)
    (hhigh : plain.length ≤ 32) :
    counterCryptanalysis plain =
      if sumBytes plain = 0 then plain.modify 0 (· ||| 1) else plain := by
  have hstart : lastBlockStart plain.length - 16 = 0 := by
    unfold lastBlockStart
    omega
  simp only [counterCryptanalysis, Critical, hstart, List.drop_zero, hlow, true_and,
    sumBytes_eq_zero_iff]

/-- More blocks: the first one is left alone. -/
theorem counterCryptanalysis_more {plain : List UInt8} (h : 32 < plain.length) :
    counterCryptanalysis plain = plain.take 16 ++ counterCryptanalysis (plain.drop 16) := by
  have hstart : lastBlockStart plain.length - 16 =
      16 + (lastBlockStart (plain.drop 16).length - 16) := by
    simp only [lastBlockStart, List.length_drop]
    omega
  have hcritical : Critical plain ↔ Critical (plain.drop 16) := by
    unfold Critical
    rw [hstart, List.drop_drop, List.length_drop]
    exact and_congr ⟨fun _ => by omega, fun _ => by omega⟩ Iff.rfl
  unfold counterCryptanalysis
  by_cases hc : Critical plain
  · rw [if_pos hc, if_pos (hcritical.mp hc), hstart]
    apply List.ext_getElem?
    intro i
    by_cases hi : i < 16
    · have hne : 16 + (lastBlockStart (plain.drop 16).length - 16) ≠ i := by omega
      rw [List.getElem?_modify, List.getElem?_append_left (by rw [List.length_take]; omega)]
      simp only [hne, if_false, List.getElem?_take, hi, if_true]
      cases plain[i]? <;> rfl
    · obtain ⟨j, rfl⟩ : ∃ j, i = 16 + j := ⟨i - 16, by omega⟩
      simp [List.getElem?_append, List.getElem?_modify, show 16 ≤ plain.length by omega]
  · rw [if_neg hc, if_neg (fun hrest => hc (hcritical.mpr hrest)), List.take_append_drop]

section Loops

variable (E : Equiv.Perm Block)

theorem ofBytes_of_long {bytes : List UInt8} (h : 16 ≤ bytes.length) :
    (Block.ofBytes bytes).bytes = bytes.take 16 :=
  List.takeD_eq_take _ h

theorem decryptBlock_encryptBlock (delta plain : Block) (flipABit : Bool) :
    decryptBlock E delta (encryptBlock E delta flipABit plain) =
      if flipABit then plain.flipABit else plain := by
  cases flipABit with
  | false => simp [decryptBlock, encryptBlock, Block.xor_xor_cancel]
  | true =>
      simp [decryptBlock, encryptBlock, Block.flipABit_xor, Block.xor_xor_cancel]

theorem encryptChecksum_eq (checksum plain : Block) (flipABit : Bool) :
    encryptChecksum checksum flipABit plain =
      Block.xor checksum (if flipABit then plain.flipABit else plain) := by
  cases flipABit with
  | false => rfl
  | true => exact Block.flipABit_xor checksum plain

/-- The last block: padding with bytes of `pad` and masking zeros with `pad`
leave the same block, hence the same checksum. -/
theorem masked_memcpy (pad : Block) {plain : List UInt8} (h : plain.length ≤ 16) :
    Block.xor (Block.zero.memcpy ((Block.xor pad (pad.memcpy plain)).bytes.take plain.length))
      pad = pad.memcpy plain := by
  have hbytes : ((Block.xor pad (pad.memcpy plain)).bytes.take plain.length).length =
      plain.length := by
    rw [List.length_take, Block.length_bytes]
    omega
  apply Block.ext_get
  intro i hi
  rw [Block.get_xor _ _ _ hi, Block.get_memcpy _ _ _ (by omega), hbytes, Block.get_memcpy _ _ _ h]
  by_cases hin : i < plain.length
  · have hmask := Block.get_xor pad (pad.memcpy plain) i hi
    rw [Block.get_memcpy _ _ _ h, if_pos hin] at hmask
    have htake : ((Block.xor pad (pad.memcpy plain)).bytes.take plain.length).getD i 0 =
        (Block.xor pad (pad.memcpy plain)).get i := by
      simp [Block.get, List.getD_eq_getElem?_getD, hin]
    rw [if_pos hin, if_pos hin, htake, hmask, UInt8.xor_comm, ← UInt8.xor_assoc, UInt8.xor_self,
      UInt8.zero_xor]
  · rw [if_neg hin, if_neg hin, Block.get_zero, UInt8.zero_xor]

theorem ocbDecryptLast_ocbEncryptLast (delta checksum : Block) {plain : List UInt8}
    (success : Bool) (h : plain.length ≤ 16) :
    let r := ocbEncryptLast E delta checksum plain success
    r.text.length = plain.length ∧
      (ocbDecryptLast E delta checksum r.text).text = plain ∧
      (ocbDecryptLast E delta checksum r.text).tag = r.tag := by
  intro r
  let pad := E (Block.xor (lengthBlock plain.length) (S2 delta))
  have htext : r.text = (Block.xor pad (pad.memcpy plain)).bytes.take plain.length := rfl
  have hlength : r.text.length = plain.length := by
    rw [htext, List.length_take, Block.length_bytes]
    omega
  have hmasked := masked_memcpy pad h
  rw [← htext] at hmasked
  have hplain : (pad.memcpy plain).bytes.take plain.length = plain := by
    unfold Block.memcpy
    rw [Block.ofBytes_bytes]
    · exact List.take_left
    · rw [List.length_append, List.length_drop, Block.length_bytes]
      omega
  refine ⟨hlength, ?_, ?_⟩
  · simp only [ocbDecryptLast, hlength]
    change (Block.xor (Block.zero.memcpy r.text) pad).bytes.take plain.length = plain
    rw [hmasked, hplain]
  · simp only [ocbDecryptLast, hlength]
    change E (Block.xor (S3 (S2 delta)) (Block.xor checksum
      (Block.xor (Block.zero.memcpy r.text) pad))) = r.tag
    rw [hmasked]
    rfl

/-- The first block and the rest of a plaintext, as the receiver sees them. -/
theorem counterCryptanalysis_cons {plain : List UInt8} (h : 16 < plain.length) :
    (if (decide (plain.length - 16 ≤ 16) && sumBytes plain == 0) = true
        then (Block.ofBytes plain).flipABit else Block.ofBytes plain).bytes ++
      counterCryptanalysis (plain.drop 16) = counterCryptanalysis plain := by
  have hfirst := ofBytes_of_long (Nat.le_of_lt h)
  by_cases hmore : 32 < plain.length
  · rw [counterCryptanalysis_more hmore]
    simp [show ¬ plain.length ≤ 16 + 16 by omega, hfirst]
  · have hrest : (plain.drop 16).length ≤ 16 := by
      rw [List.length_drop]
      omega
    rw [counterCryptanalysis_short hrest, counterCryptanalysis_two h (by omega)]
    by_cases hsum : sumBytes plain = 0
    · have hzero := (sumBytes_eq_zero_iff plain).mp hsum
      cases plain with
      | nil => simp at h
      | cons b rest =>
          have hb : b = 0 := hzero b (by simp)
          subst hb
          have hlast : rest.length ≤ 31 := by
            rw [List.length_cons] at hmore
            omega
          simp [hsum, hlast, Block.flipABit, hfirst]
    · simp [hsum, hfirst]

/-- Loop invariant: from the same `delta` and `checksum`, the decryption loop
undoes the encryption loop up to the bit change, and ends with its tag. -/
theorem ocbDecryptLoop_ocbEncryptLoop (fuel : Nat) (delta checksum : Block)
    (plain : List UInt8) (success : Bool) (hfuel : plain.length ≤ fuel) :
    let r := ocbEncryptLoop E true fuel delta checksum plain success
    r.text.length = plain.length ∧ r.success = success ∧
      (ocbDecryptLoop E fuel delta checksum r.text).text = counterCryptanalysis plain ∧
      (ocbDecryptLoop E fuel delta checksum r.text).tag = r.tag := by
  induction fuel generalizing delta checksum plain success with
  | zero =>
      have hshort : plain.length ≤ 16 := by omega
      obtain ⟨hlength, htext, htag⟩ :=
        ocbDecryptLast_ocbEncryptLast E delta checksum success hshort
      rw [counterCryptanalysis_short hshort]
      exact ⟨hlength, rfl, htext, htag⟩
  | succ fuel ih =>
      by_cases hlong : 16 < plain.length
      · rw [ocbEncryptLoop_long E hlong]
        let flipABit := decide (plain.length - 16 ≤ 16) && sumBytes plain == 0
        let block := if flipABit = true then (Block.ofBytes plain).flipABit else Block.ofBytes plain
        let sealed := encryptBlock E (S2 delta) flipABit (Block.ofBytes plain)
        obtain ⟨hlength, hsuccess, htext, htag⟩ := ih (S2 delta)
          (encryptChecksum checksum flipABit (Block.ofBytes plain)) (plain.drop 16) success
          (by rw [List.length_drop]; omega)
        rw [encryptChecksum_eq] at hlength hsuccess htext htag
        simp only [encryptChecksum_eq]
        change let r := (ocbEncryptLoop E true fuel (S2 delta) (Block.xor checksum block)
            (plain.drop 16) success).prepend sealed
          r.text.length = plain.length ∧ r.success = success ∧
            (ocbDecryptLoop E (fuel + 1) delta checksum r.text).text =
              counterCryptanalysis plain ∧
            (ocbDecryptLoop E (fuel + 1) delta checksum r.text).tag = r.tag
        intro r
        have hr : r.text = sealed.bytes ++ (ocbEncryptLoop E true fuel (S2 delta)
          (Block.xor checksum block) (plain.drop 16) success).text := rfl
        have hrlength : r.text.length = plain.length := by
          rw [hr, List.length_append, sealed.length_bytes, hlength, List.length_drop]
          omega
        have hfirst : Block.ofBytes r.text = sealed := by
          apply Block.ext
          rw [ofBytes_of_long (by omega), hr]
          exact List.take_left' sealed.length_bytes
        have hdrop : r.text.drop 16 = (ocbEncryptLoop E true fuel (S2 delta)
            (Block.xor checksum block) (plain.drop 16) success).text := by
          rw [hr]
          exact List.drop_left' sealed.length_bytes
        have hblock : decryptBlock E (S2 delta) sealed = block :=
          decryptBlock_encryptBlock E (S2 delta) (Block.ofBytes plain) flipABit
        rw [ocbDecryptLoop_long E (by omega)]
        simp only [hfirst, hblock, hdrop]
        refine ⟨hrlength, hsuccess, ?_, htag⟩
        change block.bytes ++ _ = _
        rw [htext]
        exact counterCryptanalysis_cons hlong
      · have hshort : plain.length ≤ 16 := by omega
        obtain ⟨hlength, htext, htag⟩ :=
          ocbDecryptLast_ocbEncryptLast E delta checksum success hshort
        rw [ocbEncryptLoop_short E hshort, counterCryptanalysis_short hshort]
        intro r
        rw [ocbDecryptLoop_short E (hlength.trans_le hshort)]
        exact ⟨hlength, rfl, htext, htag⟩

/-- The flag of `ocbDecryptLast` on a last block, under a `delta` already
doubled. -/
def lastBlockPasses (delta : Block) (last : List UInt8) : Bool :=
  !((Block.xor (Block.zero.memcpy last) (E (Block.xor (lengthBlock last.length) delta))).bytes.take
    15 == delta.bytes.take 15)

/-- The flag that the decryption loop returns is decided by its last block. -/
theorem ocbDecryptLoop_success (fuel : Nat) (delta checksum : Block) (encrypted : List UInt8)
    (hfuel : encrypted.length ≤ fuel) :
    (ocbDecryptLoop E fuel delta checksum encrypted).success =
      lastBlockPasses E (S2^[(encrypted.length - 1) / 16 + 1] delta)
        (encrypted.drop (lastBlockStart encrypted.length)) := by
  induction fuel generalizing delta checksum encrypted with
  | zero =>
      have hcount : (encrypted.length - 1) / 16 = 0 := by omega
      rw [lastBlockStart, hcount, ocbDecryptLoop_short E (by omega)]
      rfl
  | succ fuel ih =>
      by_cases hlong : 16 < encrypted.length
      · rw [ocbDecryptLoop_long E hlong]
        have hrest := ih (S2 delta) (Block.xor checksum
          (decryptBlock E (S2 delta) (Block.ofBytes encrypted))) (encrypted.drop 16)
          (by rw [List.length_drop]; omega)
        have hcount : (encrypted.length - 1) / 16 = (encrypted.length - 16 - 1) / 16 + 1 := by
          omega
        have hstart : lastBlockStart encrypted.length =
            16 + lastBlockStart (encrypted.length - 16) := by
          unfold lastBlockStart
          omega
        rw [List.length_drop, List.drop_drop, ← hstart, ← Function.iterate_succ_apply,
          ← hcount] at hrest
        exact hrest
      · have hcount : (encrypted.length - 1) / 16 = 0 := by omega
        rw [lastBlockStart, hcount, ocbDecryptLoop_short E (by omega)]
        rfl

end Loops

theorem counterCryptanalysis_length (plain : List UInt8) :
    (counterCryptanalysis plain).length = plain.length := by
  unfold counterCryptanalysis
  split
  · rw [List.length_modify]
  · rfl

theorem counterCryptanalysis_not_critical (plain : List UInt8) :
    ¬ Critical (counterCryptanalysis plain) := by
  intro hcritical
  by_cases hc : Critical plain
  · have hall := hcritical.2
    rw [counterCryptanalysis_length] at hall
    unfold counterCryptanalysis at hall
    rw [if_pos hc] at hall
    let start := lastBlockStart plain.length - 16
    have hstart : start < plain.length := by
      have := hc.1
      change lastBlockStart plain.length - 16 < _
      unfold lastBlockStart
      omega
    have hmem : plain[start] ||| 1 ∈ ((plain.modify start (· ||| 1)).drop start).take 15 := by
      apply List.mem_iff_getElem?.mpr
      refine ⟨0, ?_⟩
      simp [hstart]
    have hzero := hall _ hmem
    rw [UInt8.or_eq_zero_iff] at hzero
    exact absurd hzero.2 (by decide)
  · unfold counterCryptanalysis at hcritical
    rw [if_neg hc] at hcritical
    exact hc hcritical

theorem cryptOcbDecrypt_success_iff (E : Equiv.Perm Block) (encrypted : List UInt8)
    (nonce : Block) :
    (cryptOcbDecrypt E encrypted nonce).success = true ↔
      ¬ AttackCheckFires E nonce encrypted := by
  unfold cryptOcbDecrypt AttackCheckFires maskedLastBlock lastDelta
  rw [ocbDecryptLoop_success E _ _ _ _ (le_refl _)]
  simp only [lastBlockPasses, Bool.not_eq_true', beq_eq_false_iff_ne, ne_eq]

theorem cryptOcbEncrypt_success (E : Equiv.Perm Block) (plain : List UInt8) (nonce : Block) :
    (cryptOcbEncrypt E plain nonce true).success = true :=
  (ocbDecryptLoop_ocbEncryptLoop E plain.length (E nonce) Block.zero plain true (le_refl _)).2.1

theorem cryptOcbDecrypt_cryptOcbEncrypt (E : Equiv.Perm Block) (plain : List UInt8)
    (nonce : Block) :
    let sealed := cryptOcbEncrypt E plain nonce true
    let opened := cryptOcbDecrypt E sealed.text nonce
    opened.text = counterCryptanalysis plain ∧ opened.tag = sealed.tag := by
  intro sealed opened
  obtain ⟨hlength, _, htext, htag⟩ :=
    ocbDecryptLoop_ocbEncryptLoop E plain.length (E nonce) Block.zero plain true (le_refl _)
  have hopened : opened = ocbDecryptLoop E plain.length (E nonce) Block.zero sealed.text := by
    change ocbDecryptLoop E sealed.text.length _ _ _ = _
    rw [show sealed.text.length = plain.length from hlength]
  rw [← show sealed = ocbEncryptLoop E true plain.length (E nonce) Block.zero plain true from rfl,
    ← hopened] at htext htag
  exact ⟨htext, htag⟩

/-- For a plaintext of at most one block the check compares `delta` with the
padded plaintext itself. -/
theorem attackCheckFires_short (E : Equiv.Perm Block) (nonce : Block) {plain : List UInt8}
    (h : plain.length ≤ 16) :
    AttackCheckFires E nonce (cryptOcbEncrypt E plain nonce true).text ↔
      ((E (Block.xor (lengthBlock plain.length) (S2 (E nonce)))).memcpy plain).bytes.take 15 =
        (S2 (E nonce)).bytes.take 15 := by
  let pad := E (Block.xor (lengthBlock plain.length) (S2 (E nonce)))
  have htext : (cryptOcbEncrypt E plain nonce true).text =
      (Block.xor pad (pad.memcpy plain)).bytes.take plain.length := by
    rw [cryptOcbEncrypt, ocbEncryptLoop_short E h]
    rfl
  have hlength : (cryptOcbEncrypt E plain nonce true).text.length = plain.length := by
    rw [htext, List.length_take, Block.length_bytes]
    omega
  have hcount : (plain.length - 1) / 16 = 0 := by omega
  have hdelta : lastDelta E nonce plain.length = S2 (E nonce) := by
    rw [lastDelta, hcount]
    rfl
  unfold AttackCheckFires maskedLastBlock
  rw [hlength, hdelta, lastBlockStart, hcount, Nat.mul_zero, List.drop_zero]
  dsimp only
  rw [hlength, htext, masked_memcpy pad h]

/-- The round trip: under the nonce of the sender the receiver gets the
plaintext with the documented bit change and the tag of the sender, and accepts
unless the check on the last block fires. No plaintext that an emitted
ciphertext stands for is critical. -/
theorem crypt_ocb_round_trip (E : Equiv.Perm Block) (plain : List UInt8) (nonce : Block) :
    let sealed := cryptOcbEncrypt E plain nonce true
    let opened := cryptOcbDecrypt E sealed.text nonce
    opened.text = counterCryptanalysis plain ∧ opened.tag = sealed.tag ∧
      sealed.success = true ∧
      (opened.success = true ↔ ¬ AttackCheckFires E nonce sealed.text) ∧
      ¬ Critical opened.text := by
  intro sealed opened
  obtain ⟨htext, htag⟩ := cryptOcbDecrypt_cryptOcbEncrypt E plain nonce
  refine ⟨htext, htag, cryptOcbEncrypt_success E plain nonce,
    cryptOcbDecrypt_success_iff E sealed.text nonce, ?_⟩
  rw [show opened.text = counterCryptanalysis plain from htext]
  exact counterCryptanalysis_not_critical plain

end LuaMumble.Ocb
