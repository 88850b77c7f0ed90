import LuaMumble.Crypt.Delivery

/-!
When a packet within reach of the receiver is accepted. The history keeps one
byte for each value of the low byte of an IV, and it starts out all zero, so it
cannot tell a packet that was received before from one whose IV shares its two
low bytes with such a packet, or whose second byte is zero in a slot not yet
written. Only the next packet in order does not depend on the history.
-/

namespace LuaMumble.Crypt

open Ocb Lib

section

variable (aes : Block → Equiv.Perm Block) (sender : MumbleCrypt) (plains : List (List UInt8))

/-- The IV of packet `i` is 1 to 127 ahead of the receiver's IV, or 1 to 29
behind it. -/
def WithinReach (receiver : MumbleCrypt) (i : Fin plains.length) : Prop :=
  ∃ d : ℤ, (-29 ≤ d ∧ d ≤ -1 ∨ 1 ≤ d ∧ d ≤ 127) ∧
    counter (sentIv aes sender plains i) =
      counter receiver.decryptIv + (d : ZMod (2 ^ 128))

/-- Packet `i` is the next in order, or the slot of its IV does not already hold
the IV's second byte. -/
def Fresh (receiver : MumbleCrypt) (i : Fin plains.length) : Prop :=
  let iv := sentIv aes sender plains i
  counter iv = counter receiver.decryptIv + 1 ∨ receiver.decryptHistory (iv.get 0) ≠ iv.get 1

instance (receiver : MumbleCrypt) (i : Fin plains.length) :
    Decidable (Fresh aes sender plains receiver i) :=
  inferInstanceAs (Decidable (_ ∨ _))

/-- The check on the last block does not fire on packet `i`. -/
def PacketQuiet (i : Fin plains.length) : Prop :=
  ¬ AttackCheckFires (aes sender.rawKey) (sentIv aes sender plains i)
    ((sentPacket aes sender plains i).drop 4)

instance (i : Fin plains.length) : Decidable (PacketQuiet aes sender plains i) :=
  inferInstanceAs (Decidable (¬ _))

variable {aes sender plains}

/-- Distances of the window are equal when they lead to the same IV. -/
theorem distance_one_iff {c : ZMod (2 ^ 128)} {d : ℤ} (hlow : -29 ≤ d) (hhigh : d ≤ 127) :
    c + (d : ZMod (2 ^ 128)) = c + 1 ↔ d = 1 := by
  constructor
  · intro h
    have hcast : (d : ZMod (2 ^ 128)) = ((1 : ℤ) : ZMod (2 ^ 128)) := by
      rw [add_left_cancel h, Int.cast_one]
    have hdvd := Int.ModEq.dvd ((ZMod.intCast_eq_intCast_iff _ _ _).mp hcast)
    push_cast at hdvd
    omega
  · rintro rfl
    rw [Int.cast_one]

/-- The step: within reach, a packet is accepted exactly when it is fresh. -/
theorem deliver_isSome_iff {receiver : MumbleCrypt} {i : Fin plains.length}
    (hkey : receiver.rawKey = sender.rawKey) (hreach : WithinReach aes sender plains receiver i)
    (hquiet : PacketQuiet aes sender plains i) :
    (deliver aes sender plains receiver i).1.isSome = true ↔
      Fresh aes sender plains receiver i := by
  obtain ⟨d, hwindow, hcounter⟩ := hreach
  let iv := sentIv aes sender plains i
  let packet := sentPacket aes sender plains i
  obtain ⟨hdistance, hmove⟩ := ivDistance_of_counter hwindow hcounter
  have hbyte : ivByte packet = iv.get 0 := sentPacket_ivByte aes sender plains i
  have htried : triedIv receiver packet d = iv := by
    rw [triedIv, hbyte]
    exact hmove
  have hopens : opens (aes receiver.rawKey) packet iv = true := by
    have hunder := (packetUnder_opens (aes sender.rawKey) iv (plains.get i)).1
    rw [← sentPacket_eq aes sender plains i] at hunder
    rw [hkey]
    exact hunder.mpr hquiet
  have hstep := cryptDecrypt_of_distance aes receiver
    (sentPacket_length aes sender plains i) (hbyte.symm ▸ hdistance)
  rw [htried] at hstep
  have hone : counter iv = counter receiver.decryptIv + 1 ↔ d = 1 := by
    rw [hcounter]
    exact distance_one_iff (by omega) (by omega)
  have hfresh : Fresh aes sender plains receiver i ↔ d = 1 ∨ replayed receiver iv = false := by
    unfold Fresh replayed
    exact or_congr hone (by simp [iv])
  rw [hfresh, deliver, hstep]
  split_ifs with hreject
  · rcases hreject with ⟨hne, hreplay⟩ | hclosed
    · simp [hne, hreplay]
    · rw [hopens] at hclosed
      cases hclosed
  · obtain ⟨hreplay, _⟩ := not_or.mp hreject
    have hopen : d = 1 ∨ replayed receiver iv = false := by
      by_contra hnot
      obtain ⟨hne, hheld⟩ := not_or.mp hnot
      exact hreplay ⟨hne, by simpa using hheld⟩
    simp [hopen]

theorem deliver_rawKey (receiver : MumbleCrypt) (i : Fin plains.length) :
    (deliver aes sender plains receiver i).2.rawKey = receiver.rawKey :=
  cryptDecrypt_rawKey aes receiver _

end

/-- Packets of a sender, delivered in any order to a receiver with the same key
while each is within its reach, are all accepted exactly when each of them is
fresh at its delivery. -/
theorem all_accepted_iff (aes : Block → Equiv.Perm Block) (sender receiver : MumbleCrypt)
    (plains : List (List UInt8)) (schedule : List (Fin plains.length))
    (hkey : receiver.rawKey = sender.rawKey)
    (hquiet : ∀ i, PacketQuiet aes sender plains i)
    (hreach : Machine.Along (deliver aes sender plains) (WithinReach aes sender plains)
      receiver schedule) :
    (∀ result ∈ Machine.outputs (deliver aes sender plains) receiver schedule,
        result.isSome = true) ↔
      Machine.Along (deliver aes sender plains) (Fresh aes sender plains) receiver schedule := by
  have hpre := Machine.along_and_invariant (fun crypt => crypt.rawKey = sender.rawKey)
    (fun crypt i hsame _ => (deliver_rawKey crypt i).trans hsame) receiver schedule hkey hreach
  refine Machine.outputs_good_iff Option.isSome ?_ receiver schedule hpre
  rintro crypt i ⟨hsame, hin⟩
  exact deliver_isSome_iff hsame hin (hquiet i)

/-- `crypt_init` and then `crypt_setKey`, with one IV for both directions. -/
def keyedState (iv : List UInt8) : MumbleCrypt :=
  (cryptSetKey cryptInit (List.replicate 16 0x5a) iv iv).2

/-- From an IV whose second byte is not zero, a gap and then the late packet
that fills it. -/
theorem late_packet_accepted :
    let state := keyedState (255 :: List.replicate 15 1)
    ∀ result ∈ Machine.outputs (deliver maskCipher state [[], []]) state [1, 0],
      result.isSome = true := by
  intro state
  refine (all_accepted_iff maskCipher state state [[], []] [1, 0] rfl ?_ ?_).mpr ?_
  · decide +kernel
  · refine ⟨⟨2, Or.inr ⟨by norm_num, by norm_num⟩, by decide +kernel⟩,
      ⟨-1, Or.inl ⟨by norm_num, by norm_num⟩, by decide +kernel⟩, trivial⟩
  · exact ⟨by decide +kernel, by decide +kernel, trivial⟩

/-- The slots start out zero: from the IV zero, a receiver that misses the first
packet rejects the second. -/
theorem unseen_packet_rejected :
    ¬ ∀ (aes : Block → Equiv.Perm Block) (key eiv div eiv' div' : List UInt8)
        (plains : List (List UInt8)) (schedule : List (Fin plains.length)),
      let sender := (cryptSetKey cryptInit key eiv div).2
      let receiver := (cryptSetKey cryptInit key eiv' div').2
      (cryptSetKey cryptInit key eiv div).1 = true →
      (cryptSetKey cryptInit key eiv' div').1 = true →
      receiver.decryptIv = sender.encryptIv → schedule.Nodup →
      (∀ i, PacketQuiet aes sender plains i) →
      Machine.Along (deliver aes sender plains) (WithinReach aes sender plains)
        receiver schedule →
      ∀ result ∈ Machine.outputs (deliver aes sender plains) receiver schedule,
        result.isSome = true := by
  intro h
  have hall := h maskCipher (List.replicate 16 0x5a) (List.replicate 16 0)
    (List.replicate 16 0) (List.replicate 16 0) (List.replicate 16 0) [[], []] [1]
    (by decide) (by decide) rfl (by decide) (by decide +kernel)
    ⟨⟨2, Or.inr ⟨by norm_num, by norm_num⟩, by decide +kernel⟩, trivial⟩
  revert hall
  decide +kernel

end LuaMumble.Crypt
