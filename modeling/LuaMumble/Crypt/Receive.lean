import LuaMumble.Crypt.IvGuess
import LuaMumble.Ocb.RoundTrip

/-!
What one call of `crypt_encrypt` and one call of `crypt_decrypt` do, stated
once. A received packet either leaves the state as it was, or it is accepted at
a distance `d` from the current IV, and then the state is `accepted`.
-/

namespace LuaMumble.Crypt

open Ocb Lib.LittleEndian

variable (aes : Block → Equiv.Perm Block)

/-- The state after a packet was accepted under the IV at distance `d`. -/
def accepted (crypt : MumbleCrypt) (iv : Block) (d : Int) : MumbleCrypt :=
  { crypt with
    decryptHistory := Function.update crypt.decryptHistory (iv.get 0) (iv.get 1)
    decryptIv := if d < 0 then crypt.decryptIv else iv
    uiGood := crypt.uiGood + 1
    uiLate := addCounter crypt.uiLate (if d < 0 then 1 else 0)
    uiLost := addCounter crypt.uiLost (if d < 0 then -1 else d - 1) }

/-- The low byte of a packet, `source[0]`. -/
def ivByte (source : List UInt8) : UInt8 :=
  source.getD 0 0

/-- The IV under which a packet at distance `d` is tried. -/
def triedIv (crypt : MumbleCrypt) (source : List UInt8) (d : Int) : Block :=
  moveIv crypt.decryptIv (ivByte source) d

theorem cryptDecrypt_of_distance (crypt : MumbleCrypt) {source : List UInt8} {d : Int}
    (hlength : 4 ≤ source.length)
    (hd : ivDistance (crypt.decryptIv.get 0) (ivByte source) = some d) :
    cryptDecrypt aes crypt source =
      if (d ≠ 1 ∧ replayed crypt (triedIv crypt source d) = true) ∨
          opens (aes crypt.rawKey) source (triedIv crypt source d) = false then (none, crypt)
      else
        (some (cryptOcbDecrypt (aes crypt.rawKey) (source.drop 4) (triedIv crypt source d)).text,
          accepted crypt (triedIv crypt source d) d) := by
  have hguess : guessIv crypt.decryptIv (source.getD 0 0) =
      some ⟨triedIv crypt source d, if d < 0 then -1 else d - 1, if d < 0 then 1 else 0,
        decide (d < 0), decide (d ≠ 1)⟩ := by
    rw [guessIv_eq]
    change Option.map _ (ivDistance (crypt.decryptIv.get 0) (ivByte source)) = _
    rw [hd]
    rfl
  simp only [cryptDecrypt, Nat.not_lt.mpr hlength, if_false, hguess, accepted, decide_eq_true_eq,
    Bool.and_eq_true, Bool.not_eq_true']
  by_cases hreplay : d ≠ 1 ∧ replayed crypt (triedIv crypt source d) = true
  · rw [if_pos hreplay, if_pos (Or.inl hreplay)]
  · rw [if_neg hreplay]
    by_cases hopens : opens (aes crypt.rawKey) source (triedIv crypt source d) = false
    · rw [if_pos hopens, if_pos (Or.inr hopens)]
    · rw [if_neg hopens, if_neg (not_or.mpr ⟨hreplay, hopens⟩)]

theorem cryptDecrypt_of_no_distance {crypt : MumbleCrypt} {source : List UInt8}
    (h : source.length < 4 ∨ ivDistance (crypt.decryptIv.get 0) (ivByte source) = none) :
    cryptDecrypt aes crypt source = (none, crypt) := by
  by_cases hlength : source.length < 4
  · simp [cryptDecrypt, hlength]
  · have hd := h.resolve_left hlength
    unfold ivByte at hd
    have hguess : guessIv crypt.decryptIv (source.getD 0 0) = none := by
      rw [guessIv_eq, hd]
      rfl
    simp only [cryptDecrypt, hlength, if_false, hguess]

/-- The two outcomes of `crypt_decrypt`. -/
theorem cryptDecrypt_cases (crypt : MumbleCrypt) (source : List UInt8) :
    cryptDecrypt aes crypt source = (none, crypt) ∨
    ∃ d, ivDistance (crypt.decryptIv.get 0) (ivByte source) = some d ∧
      (d ≠ 1 → replayed crypt (triedIv crypt source d) = false) ∧
      opens (aes crypt.rawKey) source (triedIv crypt source d) = true ∧
      cryptDecrypt aes crypt source =
        (some (cryptOcbDecrypt (aes crypt.rawKey) (source.drop 4) (triedIv crypt source d)).text,
          accepted crypt (triedIv crypt source d) d) := by
  by_cases hlength : source.length < 4
  · exact Or.inl (cryptDecrypt_of_no_distance aes (Or.inl hlength))
  · cases hd : ivDistance (crypt.decryptIv.get 0) (ivByte source) with
    | none => exact Or.inl (cryptDecrypt_of_no_distance aes (Or.inr hd))
    | some d =>
        rw [cryptDecrypt_of_distance aes crypt (Nat.not_lt.mp hlength) hd]
        split_ifs with hreject
        · exact Or.inl rfl
        · obtain ⟨hreplay, hopens⟩ := not_or.mp hreject
          refine Or.inr ⟨d, rfl, ?_, by simpa using hopens, rfl⟩
          intro hd1
          simpa using fun h => hreplay ⟨hd1, h⟩

theorem cryptDecrypt_rawKey (crypt : MumbleCrypt) (source : List UInt8) :
    (cryptDecrypt aes crypt source).2.rawKey = crypt.rawKey := by
  rcases cryptDecrypt_cases aes crypt source with h | ⟨d, _, _, _, h⟩
  · rw [h]
  · rw [h]
    rfl

/-- The packet that `crypt_encrypt` writes under an IV. -/
def packetUnder (E : Equiv.Perm Block) (iv : Block) (plain : List UInt8) : List UInt8 :=
  let r := cryptOcbEncrypt E plain iv true
  [iv.get 0, r.tag.get 0, r.tag.get 1, r.tag.get 2] ++ r.text

theorem cryptEncrypt_eq (crypt : MumbleCrypt) (source : List UInt8) :
    cryptEncrypt aes crypt source =
      (some (packetUnder (aes crypt.rawKey) (incrementFrom 0 crypt.encryptIv) source),
        { crypt with encryptIv := incrementFrom 0 crypt.encryptIv }) := by
  simp only [cryptEncrypt, cryptOcbEncrypt_success, if_true]
  rfl

theorem take_three_bytes (block : Block) :
    block.bytes.take 3 = [block.get 0, block.get 1, block.get 2] := by
  obtain ⟨bytes, hlength⟩ := block
  match bytes, hlength with
  | _ :: _ :: _ :: _, _ => rfl

/-- A packet opens under its own IV unless the check on the last block fires,
and it then gives back its plaintext with the documented bit change. -/
theorem packetUnder_opens (E : Equiv.Perm Block) (iv : Block) (plain : List UInt8) :
    (opens E (packetUnder E iv plain) iv = true ↔
      ¬ AttackCheckFires E iv ((packetUnder E iv plain).drop 4)) ∧
    (cryptOcbDecrypt E ((packetUnder E iv plain).drop 4) iv).text =
      counterCryptanalysis plain := by
  obtain ⟨htext, htag⟩ := cryptOcbDecrypt_cryptOcbEncrypt E plain iv
  have hdrop : (packetUnder E iv plain).drop 4 = (cryptOcbEncrypt E plain iv true).text := rfl
  have hbytes : ((packetUnder E iv plain).drop 1).take 3 =
      (cryptOcbEncrypt E plain iv true).tag.bytes.take 3 := by
    rw [take_three_bytes]
    rfl
  refine ⟨?_, by rw [hdrop, htext]⟩
  unfold opens
  dsimp only
  rw [hbytes, hdrop, htag, ← cryptOcbDecrypt_success_iff]
  simp

end LuaMumble.Crypt
