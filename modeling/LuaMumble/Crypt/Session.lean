import LuaMumble.Lib.Machine
import LuaMumble.Crypt.Receive

/-!
A session without loss: every plaintext is encrypted and its packet delivered
before the next one. The sender counts its IV through sixteen bytes, the
receiver rebuilds it from one; they stay equal through every carry, and the
plaintexts arrive with no more than the documented bit change.
-/

namespace LuaMumble.Crypt

open Ocb Lib

variable (aes : Block → Equiv.Perm Block)

/-- The sender after encrypting some plaintexts. -/
def senderAfter (sender : MumbleCrypt) (plains : List (List UInt8)) : MumbleCrypt :=
  Machine.final (cryptEncrypt aes) sender plains

theorem senderAfter_rawKey (sender : MumbleCrypt) (plains : List (List UInt8)) :
    (senderAfter aes sender plains).rawKey = sender.rawKey := by
  induction plains generalizing sender with
  | nil => rfl
  | cons plain rest ih =>
      unfold senderAfter at ih ⊢
      rw [Machine.final, ih, cryptEncrypt_eq]

/-- The sender's IV counts the packets it has sent. -/
theorem senderAfter_counter (sender : MumbleCrypt) (plains : List (List UInt8)) :
    counter (senderAfter aes sender plains).encryptIv =
      counter sender.encryptIv + (plains.length : ZMod (2 ^ 128)) := by
  induction plains generalizing sender with
  | nil => simp [senderAfter, Machine.final]
  | cons plain rest ih =>
      unfold senderAfter at ih ⊢
      rw [Machine.final, ih, cryptEncrypt_eq, counter_incrementFrom 0 (by omega)]
      push_cast [List.length_cons]
      ring

/-- One packet of the session: the nonce it was encrypted under and what the
receiver made of it. -/
structure Exchange where
  nonce : Block
  result : Option (List UInt8)

/-- Encrypts a plaintext at the sender and delivers the packet to the receiver. -/
def exchange (s : MumbleCrypt × MumbleCrypt) (plain : List UInt8) :
    Exchange × (MumbleCrypt × MumbleCrypt) :=
  let (packet, sender) := cryptEncrypt aes s.1 plain
  let (result, receiver) := cryptDecrypt aes s.2 (packet.getD [])
  (⟨sender.encryptIv, result⟩, (sender, receiver))

/-- The check on the last block does not fire on the packet of this plaintext. -/
def CheckQuiet (s : MumbleCrypt × MumbleCrypt) (plain : List UInt8) : Prop :=
  let iv := incrementFrom 0 s.1.encryptIv
  ¬ AttackCheckFires (aes s.1.rawKey) iv (cryptOcbEncrypt (aes s.1.rawKey) plain iv true).text

instance (s : MumbleCrypt × MumbleCrypt) (plain : List UInt8) :
    Decidable (CheckQuiet aes s plain) :=
  inferInstanceAs (Decidable (¬ _))

/-- Sender and receiver hold the same key and the same IV. -/
def InStep (s : MumbleCrypt × MumbleCrypt) : Prop :=
  s.1.rawKey = s.2.rawKey ∧ s.2.decryptIv = s.1.encryptIv

/-- The step of an in-order session. The history plays no part in it. -/
theorem exchange_inStep {s : MumbleCrypt × MumbleCrypt} {plain : List UInt8} (h : InStep s)
    (hquiet : CheckQuiet aes s plain) :
    let iv := incrementFrom 0 s.1.encryptIv
    exchange aes s plain =
      (⟨iv, some (counterCryptanalysis plain)⟩,
        ({ s.1 with encryptIv := iv }, accepted s.2 iv 1)) := by
  intro iv
  obtain ⟨hkey, hiv⟩ := h
  let packet := packetUnder (aes s.1.rawKey) iv plain
  obtain ⟨hopens, htext⟩ := packetUnder_opens (aes s.1.rawKey) iv plain
  have hcounter : counter iv = counter s.2.decryptIv + ((1 : ℤ) : ZMod (2 ^ 128)) := by
    rw [hiv, counter_incrementFrom 0 (by omega)]
    simp
  obtain ⟨hdistance, htried⟩ := ivDistance_of_counter (Or.inr ⟨le_refl 1, by norm_num⟩) hcounter
  have hlength : 4 ≤ packet.length := by
    simp [packet, packetUnder]
  have hreceive : cryptDecrypt aes s.2 packet =
      (some (counterCryptanalysis plain), accepted s.2 iv 1) := by
    have hstep := cryptDecrypt_of_distance aes s.2 hlength hdistance
    have htriediv : triedIv s.2 packet 1 = iv := htried
    rw [htriediv, ← hkey, hopens.mpr hquiet, htext] at hstep
    rw [hstep, if_neg (by simp)]
  simp only [exchange, cryptEncrypt_eq]
  change (_, _, (cryptDecrypt aes s.2 packet).2) = _
  rw [hreceive]
  exact congrArg (fun r => ((⟨iv, r⟩ : Exchange), _)) (congrArg Prod.fst hreceive)

theorem accepted_one_inStep {s : MumbleCrypt × MumbleCrypt} (iv : Block) (h : InStep s) :
    InStep ({ s.1 with encryptIv := iv }, accepted s.2 iv 1) :=
  ⟨h.1, rfl⟩

theorem addCounter_zero (n : UInt64) : addCounter n 0 = n := by
  simp [addCounter]

/-- What `n` exchanges leave behind, by induction on the session. -/
theorem session_run (s : MumbleCrypt × MumbleCrypt) (plains : List (List UInt8))
    (h : InStep s) (hquiet : Machine.Along (exchange aes) (CheckQuiet aes) s plains) :
    let s' := Machine.final (exchange aes) s plains
    (Machine.outputs (exchange aes) s plains).map Exchange.result =
        plains.map (fun plain => some (counterCryptanalysis plain)) ∧
      InStep s' ∧
      s'.2.uiGood.toNat = (s.2.uiGood.toNat + plains.length) % 2 ^ 64 ∧
      s'.2.uiLate = s.2.uiLate ∧ s'.2.uiLost = s.2.uiLost := by
  induction plains generalizing s with
  | nil =>
      have hlt := s.2.uiGood.toNat_lt
      refine ⟨rfl, h, ?_, rfl, rfl⟩
      exact (Nat.mod_eq_of_lt hlt).symm
  | cons plain rest ih =>
      have hstep := exchange_inStep aes h hquiet.1
      have hnext := accepted_one_inStep (incrementFrom 0 s.1.encryptIv) h
      have hquiet' := hquiet.2
      rw [hstep] at hquiet'
      obtain ⟨houtputs, hsync, hgood, hlate, hlost⟩ := ih _ hnext hquiet'
      simp only [Machine.outputs, Machine.final, List.map_cons, hstep]
      refine ⟨by rw [houtputs], hsync, ?_, ?_, ?_⟩
      · rw [hgood]
        simp only [accepted, UInt64.toNat_add, UInt64.toNat_one, List.length_cons]
        omega
      · rw [hlate]
        exact addCounter_zero _
      · rw [hlost]
        exact addCounter_zero _

/-- The nonces of a session are the sender's IV plus one, plus two and so on. -/
theorem session_nonces (s : MumbleCrypt × MumbleCrypt) (plains : List (List UInt8)) :
    ((Machine.outputs (exchange aes) s plains).map fun e => counter e.nonce) =
      (List.range plains.length).map fun i : ℕ =>
        counter s.1.encryptIv + ((i + 1 : ℕ) : ZMod (2 ^ 128)) := by
  induction plains generalizing s with
  | nil => rfl
  | cons plain rest ih =>
      have hiv : counter (incrementFrom 0 s.1.encryptIv) = counter s.1.encryptIv + 1 := by
        rw [counter_incrementFrom 0 (by omega)]
        simp
      rw [List.length_cons, List.range_succ_eq_map, List.map_cons, List.map_map, Machine.outputs,
        List.map_cons, ih]
      simp only [exchange, cryptEncrypt_eq, hiv]
      refine congrArg₂ List.cons (by simp) (List.map_congr_left ?_)
      intro i _
      simp only [Function.comp]
      push_cast
      ring

theorem nonces_nodup (s : MumbleCrypt × MumbleCrypt) (plains : List (List UInt8))
    (hcount : plains.length < 2 ^ 128) :
    ((Machine.outputs (exchange aes) s plains).map Exchange.nonce).Nodup := by
  have hcounters :
      (((Machine.outputs (exchange aes) s plains).map Exchange.nonce).map counter).Nodup := by
    rw [List.map_map]
    change (List.map (fun e : Exchange => counter e.nonce) _).Nodup
    rw [session_nonces]
    refine List.Nodup.map_on ?_ List.nodup_range
    intro i hi j hj heq
    rw [List.mem_range] at hi hj
    have hmod := (ZMod.natCast_eq_natCast_iff' _ _ _).mp (add_left_cancel heq)
    rw [Nat.mod_eq_of_lt (by omega), Nat.mod_eq_of_lt (by omega)] at hmod
    omega
  exact List.Nodup.of_map _ hcounters

/-- In-order sessions, whatever the history and the counters were: each packet
is accepted and gives back its plaintext with the documented bit change, the
two IVs are equal after each delivery, `uiGood` counts the packets in its 64
bits and the other counters stay, and no nonce is used twice. -/
theorem in_order_session (sender receiver : MumbleCrypt) (plains : List (List UInt8))
    (hkey : sender.rawKey = receiver.rawKey) (hiv : receiver.decryptIv = sender.encryptIv)
    (hcount : plains.length < 2 ^ 128)
    (hquiet : Machine.Along (exchange aes) (CheckQuiet aes) (sender, receiver) plains) :
    let exchanges := Machine.outputs (exchange aes) (sender, receiver) plains
    exchanges.map Exchange.result = plains.map (fun plain => some (counterCryptanalysis plain)) ∧
      (∀ n ≤ plains.length,
        let s := Machine.final (exchange aes) (sender, receiver) (plains.take n)
        s.2.decryptIv = s.1.encryptIv ∧
          s.2.uiGood.toNat = (receiver.uiGood.toNat + n) % 2 ^ 64 ∧
          s.2.uiLate = receiver.uiLate ∧ s.2.uiLost = receiver.uiLost) ∧
      (exchanges.map Exchange.nonce).Nodup := by
  have hsync : InStep (sender, receiver) := ⟨hkey, hiv⟩
  refine ⟨(session_run aes _ plains hsync hquiet).1, ?_, nonces_nodup aes _ plains hcount⟩
  intro n hn
  obtain ⟨_, hend, hgood, hlate, hlost⟩ :=
    session_run aes _ (plains.take n) hsync (Machine.along_take _ _ n hquiet)
  rw [List.length_take_of_le hn] at hgood
  exact ⟨hend.2, hgood, hlate, hlost⟩

/-- A permutation to evaluate runs with: the key is added to each block. -/
def maskCipher (key : Block) : Equiv.Perm Block where
  toFun := Block.xor key
  invFun := Block.xor key
  left_inv := Block.xor_xor_cancel key
  right_inv := Block.xor_xor_cancel key

/-- A state with a key, two IVs that differ in the direction of a carry, and
counters as given. -/
def sessionState (uiGood : UInt64) : MumbleCrypt :=
  { cryptInit with
    rawKey := ⟨List.replicate 16 0x5a, by decide⟩
    encryptIv := ⟨255 :: List.replicate 15 0, by decide⟩
    decryptIv := ⟨255 :: List.replicate 15 0, by decide⟩
    uiGood := uiGood
    bInit := true }

theorem in_order_session_two :
    let plains : List (List UInt8) := [[], List.replicate 20 0]
    let exchanges := Machine.outputs (exchange maskCipher) (sessionState 0, sessionState 7) plains
    exchanges.map Exchange.result = plains.map (fun plain => some (counterCryptanalysis plain)) ∧
      (∀ n ≤ plains.length,
        let s := Machine.final (exchange maskCipher) (sessionState 0, sessionState 7)
          (plains.take n)
        s.2.decryptIv = s.1.encryptIv ∧ s.2.uiGood.toNat = (7 + n) % 2 ^ 64 ∧
          s.2.uiLate = 0 ∧ s.2.uiLost = 0) ∧
      (exchanges.map Exchange.nonce).Nodup :=
  in_order_session maskCipher (sessionState 0) (sessionState 7) [[], List.replicate 20 0]
    rfl rfl (by decide) ⟨by decide +kernel, by decide +kernel, trivial⟩

/-- `uiGood` is a `size_t`: the count does not grow past `2 ^ 64 - 1`. -/
theorem good_counter_wraps :
    ¬ ∀ (aes : Block → Equiv.Perm Block) (sender receiver : MumbleCrypt)
        (plains : List (List UInt8)),
      sender.rawKey = receiver.rawKey → receiver.decryptIv = sender.encryptIv →
      plains.length < 2 ^ 128 →
      Machine.Along (exchange aes) (CheckQuiet aes) (sender, receiver) plains →
      (Machine.final (exchange aes) (sender, receiver) plains).2.uiGood.toNat =
        receiver.uiGood.toNat + plains.length := by
  intro h
  have hgrows := h maskCipher (sessionState 0) (sessionState (2 ^ 64 - 1)) [[]] rfl rfl
    (by decide) ⟨by decide +kernel, trivial⟩
  revert hgrows
  decide +kernel

end LuaMumble.Crypt
