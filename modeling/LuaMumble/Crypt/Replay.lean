import LuaMumble.Crypt.Delivery
import LuaMumble.Ocb.Doubling

/-!
Replay protection. While tags do not collide, the receiver tracks a guard whose
accepted numbers are exactly those of the packets it accepted, so no packet is
accepted a second time: not later in order, where the history is not consulted,
and not late, where it still holds the packet's byte.
-/

namespace LuaMumble.Crypt

open Ocb Lib Lib.ReplayWindow

section

variable {aes : Block → Equiv.Perm Block} {sender : MumbleCrypt} {plains : List (List UInt8)}

/-- The number of packet `i` for the guard: its distance from the first IV. -/
def packetNumber (i : Fin plains.length) : ℤ :=
  (i : ℕ) + 1

/-- The packets of `done` are those that the receiver has accepted so far. -/
structure Received (sender : MumbleCrypt) (plains : List (List UInt8)) (crypt : MumbleCrypt)
    (done : List (Fin plains.length)) : Prop where
  rawKey : crypt.rawKey = sender.rawKey
  nodup : done.Nodup
  guard : ∃ g : Guard, Tracks (counter sender.encryptIv) crypt g ∧
    g.seen = (done.map packetNumber).toFinset ∧ g.head ≤ plains.length

theorem packetNumber_injective : Function.Injective (packetNumber : Fin plains.length → ℤ) := by
  intro i j h
  unfold packetNumber at h
  exact Fin.ext (by omega)

/-- A packet that is accepted at distance `d` is the one the guard expects
there. Offsets stay below `2 ^ 127`, so equal counters are equal offsets. -/
theorem authentic_distance (hauth : Authentic aes sender plains)
    (hcount : plains.length < 2 ^ 127) {crypt : MumbleCrypt} {g : Guard}
    {i : Fin plains.length} {d : ℤ} (hkey : crypt.rawKey = sender.rawKey)
    (htracks : Tracks (counter sender.encryptIv) crypt g) (hhead : g.head ≤ plains.length)
    (hd : ivDistance (crypt.decryptIv.get 0) (ivByte (sentPacket aes sender plains i)) = some d)
    (hopens : opens (aes crypt.rawKey) (sentPacket aes sender plains i)
      (triedIv crypt (sentPacket aes sender plains i) d) = true) :
    g.head + d = packetNumber i := by
  rw [hkey] at hopens
  have htried := (hauth i _).mp hopens
  have hcounter : counter sender.encryptIv + ((g.head + d : ℤ) : ZMod (2 ^ 128)) =
      counter sender.encryptIv + ((packetNumber i : ℤ) : ZMod (2 ^ 128)) := by
    have hsent := sentIv_counter aes sender plains i
    rw [← htried, triedIv, counter_moveIv hd, htracks.head] at hsent
    unfold packetNumber
    push_cast at hsent ⊢
    rw [← add_assoc]
    exact hsent
  have hmod := (ZMod.intCast_eq_intCast_iff _ _ _).mp (add_left_cancel hcounter)
  have hdvd := Int.ModEq.dvd hmod
  obtain ⟨_, hlow, hhigh⟩ := ivDistance_bounds hd
  have hbase := htracks.valid.base_le
  have hi := i.isLt
  unfold packetNumber at hdvd ⊢
  push_cast at hdvd
  omega

/-- The step of the replay invariant. -/
theorem received_step (hauth : Authentic aes sender plains) (hcount : plains.length < 2 ^ 127)
    (crypt : MumbleCrypt) (done : List (Fin plains.length)) (i : Fin plains.length)
    (h : Received sender plains crypt done) :
    Received sender plains (deliver aes sender plains crypt i).2
      (if (deliver aes sender plains crypt i).1.isSome then done ++ [i] else done) := by
  obtain ⟨hkey, hnodup, g, htracks, hseen, hhead⟩ := h
  rcases cryptDecrypt_cases aes crypt (sentPacket aes sender plains i) with
    hreject | ⟨d, hd, hfresh, hopens, haccept⟩
  · rw [deliver, hreject]
    exact ⟨hkey, hnodup, g, htracks, hseen, hhead⟩
  · have hnumber := authentic_distance hauth hcount hkey htracks hhead hd hopens
    have hpositive : 0 < g.head + d := by
      rw [hnumber]
      unfold packetNumber
      omega
    obtain ⟨hnew, htracks'⟩ := tracks_accepted htracks hd hfresh hpositive
    rw [hnumber] at hnew htracks'
    have hnotin : i ∉ done := by
      intro hmem
      apply hnew
      rw [hseen, List.mem_toFinset]
      exact List.mem_map_of_mem hmem
    rw [deliver, haccept]
    refine ⟨hkey, ?_, g.accept (packetNumber i), htracks', ?_, ?_⟩
    · simpa [List.nodup_append] using ⟨hnodup, fun a ha => ne_of_mem_of_not_mem ha hnotin⟩
    · simp only [Guard.accept, hseen, Option.isSome_some, if_true, List.map_append,
        List.toFinset_append]
      ext n
      simp
    · have hi := i.isLt
      simp only [Guard.accept, packetNumber]
      omega

theorem received_run (hauth : Authentic aes sender plains) (hcount : plains.length < 2 ^ 127)
    (receiver : MumbleCrypt) (hkey : receiver.rawKey = sender.rawKey)
    (hiv : receiver.decryptIv = sender.encryptIv) (schedule : List (Fin plains.length)) :
    Received sender plains (Machine.final (deliver aes sender plains) receiver schedule)
      (Machine.served Option.isSome (deliver aes sender plains) receiver schedule) := by
  have hinit : Received sender plains receiver [] := by
    refine ⟨hkey, List.nodup_nil, ⟨0, ∅⟩, ?_, rfl, ?_⟩
    · rw [← hiv]
      exact tracks_initial receiver
    · simp
  have halong : Machine.Along (deliver aes sender plains) (fun _ _ => True) receiver schedule :=
    Machine.along_of_forall (fun _ _ => trivial) receiver schedule
  have hrun := Machine.served_invariant Option.isSome (Received sender plains)
    (fun s done i h _ => received_step hauth hcount s done i h) receiver [] schedule hinit halong
  simpa using hrun

end

/-- Replay protection: from a shared IV, whatever the order, the drops and the
duplicates of a delivery, each packet is accepted at most once. -/
theorem accepted_at_most_once (aes : Block → Equiv.Perm Block) (sender receiver : MumbleCrypt)
    (plains : List (List UInt8)) (hkey : receiver.rawKey = sender.rawKey)
    (hiv : receiver.decryptIv = sender.encryptIv) (hcount : plains.length < 2 ^ 127)
    (hauth : Authentic aes sender plains) (schedule : List (Fin plains.length)) :
    (Machine.served Option.isSome (deliver aes sender plains) receiver schedule).Nodup :=
  (received_run hauth hcount receiver hkey hiv schedule).nodup

/-- A block that is zero but for its first byte. -/
def leadBlock (b : UInt8) : Block :=
  ⟨b :: List.replicate 15 0, by simp⟩

/-- A permutation that exchanges a block and its double. The packets of the
empty plaintext open under one IV only: where `delta` is neither of the two, the
check on the last block fires. -/
def swapCipher (_ : Block) : Equiv.Perm Block :=
  Equiv.swap (leadBlock 2) (leadBlock 4)

theorem attackCheckFires_of_fixed (E : Equiv.Perm Block) (m : Block)
    (hfixed : E (S2 (E m)) = S2 (E m)) : AttackCheckFires E m [] := by
  have hlength : lengthBlock 0 = Block.zero := by decide +kernel
  have hzero : Block.zero.memcpy [] = Block.zero := by decide +kernel
  have hdelta : lastDelta E m 0 = S2 (E m) := rfl
  unfold AttackCheckFires maskedLastBlock
  simp only [List.drop_nil, List.length_nil]
  rw [hlength, hzero, hdelta, Block.zero_xor, Block.zero_xor, hfixed]

theorem opens_swapCipher (key m : Block) :
    opens (swapCipher key) [4, 14, 0, 0] m = true ↔ m = leadBlock 4 := by
  constructor
  · intro hopens
    have hquiet : ¬ AttackCheckFires (swapCipher key) m [] := by
      obtain ⟨hsuccess, _⟩ := Bool.and_eq_true_iff.mp hopens
      exact (cryptOcbDecrypt_success_iff _ _ _).mp hsuccess
    have hdelta : S2 (swapCipher key m) = leadBlock 2 ∨ S2 (swapCipher key m) = leadBlock 4 := by
      by_contra hne
      obtain ⟨hne2, hne4⟩ := not_or.mp hne
      exact hquiet (attackCheckFires_of_fixed _ m (Equiv.swap_apply_of_ne_of_ne hne2 hne4))
    have hof {x : Block} (h : swapCipher key m = x) : m = swapCipher key x := by
      rw [← h]
      exact (DFunLike.congr_fun (Equiv.swap_swap _ _) m).symm
    rcases hdelta with h2 | h4
    · have hone : S2 (leadBlock 1) = leadBlock 2 := by decide +kernel
      have hm := hof (S2_injective (h2.trans hone.symm))
      have hbad : opens (swapCipher key) [4, 14, 0, 0] (swapCipher key (leadBlock 1)) = false := by
        change opens (Equiv.swap _ _) _ (Equiv.swap _ _ _) = false
        decide +kernel
      rw [hm, hbad] at hopens
      exact absurd hopens (by decide)
    · have htwo : S2 (leadBlock 2) = leadBlock 4 := by decide +kernel
      rw [hof (S2_injective (h4.trans htwo.symm))]
      exact Equiv.swap_apply_left _ _
  · rintro rfl
    change opens (Equiv.swap _ _) _ _ = true
    decide +kernel

/-- A state one packet before the IV that opens under `swapCipher`. -/
def swapState : MumbleCrypt :=
  { cryptInit with encryptIv := leadBlock 3, decryptIv := leadBlock 3, bInit := true }

theorem swapState_authentic : Authentic swapCipher swapState [[]] := by
  rintro ⟨i, hi⟩ m
  obtain rfl : i = 0 := by simpa using hi
  have hpacket : sentPacket swapCipher swapState [[]] ⟨0, hi⟩ = [4, 14, 0, 0] := by
    decide +kernel +revert
  have hiv : sentIv swapCipher swapState [[]] ⟨0, hi⟩ = leadBlock 4 := by
    decide +kernel +revert
  rw [hpacket, hiv]
  exact opens_swapCipher swapState.rawKey m

theorem duplicate_accepted_at_most_once :
    (Machine.served Option.isSome (deliver swapCipher swapState [[]]) swapState [0, 0]).Nodup :=
  accepted_at_most_once swapCipher swapState swapState [[]] rfl rfl (by decide)
    swapState_authentic [0, 0]

end LuaMumble.Crypt
