import LuaMumble.Crypt.Acceptance

/-!
What survives a new key. `crypt_setKey` replaces the key and both IVs and
leaves `decrypt_history` as it is, so whether a late packet of the new session
is accepted can depend on the traffic of the old one. Two receivers behave
alike under every new key exactly when their histories are equal.
-/

namespace LuaMumble.Crypt

open Ocb Lib

/-- After the same successful `crypt_setKey`, no sequence of datagrams tells the
two states apart. -/
def RekeyForgets (aes : Block → Equiv.Perm Block) (A B : MumbleCrypt) : Prop :=
  ∀ rkey eiv div, (cryptSetKey A rkey eiv div).1 = true →
    ∀ datagrams,
      Machine.outputs (cryptDecrypt aes) (cryptSetKey A rkey eiv div).2 datagrams =
        Machine.outputs (cryptDecrypt aes) (cryptSetKey B rkey eiv div).2 datagrams

/-- The fields that `crypt_decrypt` reads when it decides about a packet. -/
structure SameReception (s t : MumbleCrypt) : Prop where
  rawKey : s.rawKey = t.rawKey
  decryptIv : s.decryptIv = t.decryptIv
  decryptHistory : s.decryptHistory = t.decryptHistory

/-- The step: states that agree in these fields answer alike and agree again. -/
theorem sameReception_step (aes : Block → Equiv.Perm Block) {s t : MumbleCrypt}
    (h : SameReception s t) (source : List UInt8) :
    (cryptDecrypt aes s source).1 = (cryptDecrypt aes t source).1 ∧
      SameReception (cryptDecrypt aes s source).2 (cryptDecrypt aes t source).2 := by
  obtain ⟨hkey, hiv, hhistory⟩ := h
  have hreplayed (iv : Block) : replayed s iv = replayed t iv := by
    rw [replayed, hhistory, replayed]
  unfold cryptDecrypt
  rw [← hkey, ← hiv]
  split
  · exact ⟨rfl, hkey, hiv, hhistory⟩
  · cases guessIv s.decryptIv (source.getD 0 0) with
    | none => exact ⟨rfl, hkey, hiv, hhistory⟩
    | some guess =>
        dsimp only
        rw [hreplayed]
        split_ifs
        · exact ⟨rfl, hkey, hiv, hhistory⟩
        · exact ⟨rfl, hkey, hiv, hhistory⟩
        · exact ⟨rfl, rfl, rfl, by rw [hhistory]⟩
        · exact ⟨rfl, rfl, rfl, by rw [hhistory]⟩

theorem sameReception_setKey {A B : MumbleCrypt} {rkey eiv div : List UInt8}
    (hset : (cryptSetKey A rkey eiv div).1 = true)
    (hhistory : A.decryptHistory = B.decryptHistory) :
    SameReception (cryptSetKey A rkey eiv div).2 (cryptSetKey B rkey eiv div).2 := by
  unfold cryptSetKey at hset ⊢
  split at hset
  · rename_i hlengths
    rw [if_pos hlengths, if_pos hlengths]
    exact ⟨rfl, rfl, hhistory⟩
  · cases hset

/-- Under every key and nonce there is a packet on which the check on the last
block does not fire: its only block differs from `delta` in one bit. -/
theorem exists_opening_packet (E : Equiv.Perm Block) (iv : Block) :
    ∃ plain, opens E (packetUnder E iv plain) iv = true := by
  let delta := S2 (E iv)
  have hlength : delta.flipABit.bytes.length = 16 := delta.flipABit.length_bytes
  refine ⟨delta.flipABit.bytes, (packetUnder_opens E iv _).1.mpr ?_⟩
  change ¬ AttackCheckFires E iv (cryptOcbEncrypt E delta.flipABit.bytes iv true).text
  rw [attackCheckFires_short E iv (le_of_eq hlength)]
  intro hfires
  have hblock (pad : Block) : (pad.memcpy delta.flipABit.bytes).get 0 = delta.flipABit.get 0 := by
    rw [Block.get_memcpy _ _ _ (le_of_eq hlength), hlength, if_pos (by norm_num)]
    rfl
  have hfirst (block : Block) : (block.bytes.take 15).getD 0 0 = block.get 0 := by
    simp [Block.get, List.getD_eq_getElem?_getD]
  have hbyte := congrArg (fun bytes => List.getD bytes 0 0) hfires
  rw [hfirst, hfirst, hblock, Block.get_flipABit _ _ (by norm_num), if_pos rfl] at hbyte
  have hone := congrArg (delta.get 0 ^^^ ·) hbyte
  rw [← UInt8.xor_assoc, UInt8.xor_self, UInt8.zero_xor] at hone
  cases hone

/-- An IV with this slot and this byte for it. -/
def probeIv (slot byte : UInt8) : Block :=
  Block.ofBytes [slot, byte]

theorem probe_distance {crypt : MumbleCrypt} {slot byte : UInt8}
    (hiv : crypt.decryptIv = incrementFrom 0 (probeIv slot byte)) (source : List UInt8)
    (hbyte : ivByte source = (probeIv slot byte).get 0) :
    ivDistance (crypt.decryptIv.get 0) (ivByte source) = some (-1) ∧
      triedIv crypt source (-1) = probeIv slot byte := by
  have hcounter : counter (probeIv slot byte) =
      counter crypt.decryptIv + ((-1 : ℤ) : ZMod (2 ^ 128)) := by
    rw [hiv, counter_incrementFrom 0 (by norm_num)]
    push_cast
    ring
  rw [triedIv, hbyte]
  exact ivDistance_of_counter (Or.inl ⟨by norm_num, by norm_num⟩) hcounter

/-- A late packet is accepted unless the history holds its byte in its slot. -/
theorem probe_isSome (aes : Block → Equiv.Perm Block) {crypt : MumbleCrypt} {slot byte : UInt8}
    (hiv : crypt.decryptIv = incrementFrom 0 (probeIv slot byte)) {source : List UInt8}
    (hlength : 4 ≤ source.length) (hbyte : ivByte source = (probeIv slot byte).get 0)
    (hopens : opens (aes crypt.rawKey) source (probeIv slot byte) = true) :
    (cryptDecrypt aes crypt source).1.isSome = true ↔ crypt.decryptHistory slot ≠ byte := by
  obtain ⟨hdistance, htried⟩ := probe_distance hiv source hbyte
  have hreplayed : replayed crypt (probeIv slot byte) = true ↔
      crypt.decryptHistory slot = byte := beq_iff_eq
  rw [cryptDecrypt_of_distance aes _ hlength hdistance, htried, hopens]
  rcases eq_or_ne (crypt.decryptHistory slot) byte with hheld | hfresh
  · simp [hreplayed, hheld]
  · simp [hreplayed, hfresh]

/-- Rekeying forgets the old session exactly as far as the histories agree. -/
theorem rekey_forgets_iff (aes : Block → Equiv.Perm Block) (A B : MumbleCrypt) :
    RekeyForgets aes A B ↔ A.decryptHistory = B.decryptHistory := by
  constructor
  · intro hforgets
    funext slot
    by_contra hne
    -- The new session starts one packet past an IV with this slot and A's byte.
    let byte := A.decryptHistory slot
    let key : List UInt8 := List.replicate 16 0
    let div := (incrementFrom 0 (probeIv slot byte)).bytes
    have hdiv : div.length = 16 := Block.length_bytes _
    have hset (C : MumbleCrypt) : cryptSetKey C key div div =
        (true, { C with
          rawKey := Block.ofBytes key
          encryptIv := incrementFrom 0 (probeIv slot byte)
          decryptIv := incrementFrom 0 (probeIv slot byte)
          bInit := true }) := by
      rw [cryptSetKey, if_pos ⟨List.length_replicate, hdiv, hdiv⟩, Block.ofBytes_self]
    obtain ⟨plain, hopens⟩ := exists_opening_packet (aes (Block.ofBytes key)) (probeIv slot byte)
    let packet := packetUnder (aes (Block.ofBytes key)) (probeIv slot byte) plain
    have houtputs := hforgets key div div (by rw [hset]) [packet]
    have hlength : 4 ≤ packet.length := by
      simp [packet, packetUnder]
    have hanswer (C : MumbleCrypt) :
        (cryptDecrypt aes (cryptSetKey C key div div).2 packet).1.isSome = true ↔
          C.decryptHistory slot ≠ byte := by
      rw [hset]
      exact probe_isSome aes rfl hlength rfl hopens
    have hsame : (cryptDecrypt aes (cryptSetKey A key div div).2 packet).1 =
        (cryptDecrypt aes (cryptSetKey B key div div).2 packet).1 := by
      simpa [Machine.outputs] using houtputs
    have hA := hanswer A
    rw [hsame, hanswer B] at hA
    exact absurd rfl (hA.mp (Ne.symm hne))
  · intro hhistory rkey eiv div hset datagrams
    refine Machine.outputs_eq_of_related SameReception ?_ ?_ _ _ datagrams
      (sameReception_setKey hset hhistory)
    · intro s t source hsame
      exact (sameReception_step aes hsame source).1
    · intro s t source hsame
      exact (sameReception_step aes hsame source).2

/-- A receiver that accepted a packet in its old session, and one that did not:
the first late packet of the new session is rejected by one and accepted by the
other. -/
theorem old_session_remembered :
    ¬ ∀ (aes : Block → Equiv.Perm Block) (A B : MumbleCrypt), RekeyForgets aes A B := by
  intro h
  let state := keyedState (255 :: List.replicate 15 1)
  let fresh := keyedState (List.replicate 16 0)
  let packet (iv : Block) := packetUnder (maskCipher fresh.rawKey) iv []
  let used := (cryptDecrypt maskCipher state (sentPacket maskCipher state [[]] ⟨0, by decide⟩)).2
  have hsame := h maskCipher used cryptInit (List.replicate 16 0x5a)
    ([1, 2] ++ List.replicate 14 0) ([1, 2] ++ List.replicate 14 0) (by decide +kernel)
    [packet (probeIv 0 2)]
  revert hsame
  decide +kernel

end LuaMumble.Crypt
