import LuaMumble.Crypt.Replay
import LuaMumble.Crypt.Acceptance

/-!
The counters that the client reports in its ping. A packet accepted `d` ahead
counts one good packet and `d - 1` lost ones, so `uiGood + uiLost` follows the
receiver's IV. A late packet counts one more good packet and should take one
off `uiLost`; the guard against underflow does so only while `uiLost` is
greater than 1, so a gap of one packet that is filled later stays counted.
-/

namespace LuaMumble.Crypt

open Ocb Lib Lib.ReplayWindow

/-- `uiGood + uiLost` is the distance of the receiver's IV from `v0`. -/
def Balanced (v0 : ZMod (2 ^ 128)) (crypt : MumbleCrypt) : Prop :=
  crypt.uiGood.toNat + crypt.uiLost.toNat = (counter crypt.decryptIv - v0).val

instance (v0 : ZMod (2 ^ 128)) (crypt : MumbleCrypt) : Decidable (Balanced v0 crypt) :=
  inferInstanceAs (Decidable (_ = _))

/-- The counters can take a packet at distance `d`: a late one needs `uiLost`
to be at least 2, and no counter may pass `2 ^ 64 - 1`. -/
def HasRoom (crypt : MumbleCrypt) (d : ℤ) : Prop :=
  crypt.uiGood.toNat + 1 < 2 ^ 64 ∧ (d < 0 → 2 ≤ crypt.uiLost.toNat) ∧
    crypt.uiLost.toNat + d ≤ 2 ^ 64

instance (crypt : MumbleCrypt) (d : ℤ) : Decidable (HasRoom crypt d) :=
  inferInstanceAs (Decidable (_ ∧ _ ∧ _))

/-- If packet `i` is one that passes the history, the decryption and the tag,
then the counters can take it. -/
def Countable (aes : Block → Equiv.Perm Block) (sender : MumbleCrypt)
    (plains : List (List UInt8)) (crypt : MumbleCrypt) (i : Fin plains.length) : Prop :=
  let packet := sentPacket aes sender plains i
  ∀ d ∈ ivDistance (crypt.decryptIv.get 0) (ivByte packet),
    (d ≠ 1 → replayed crypt (triedIv crypt packet d) = false) →
    opens (aes crypt.rawKey) packet (triedIv crypt packet d) = true → HasRoom crypt d

instance (aes : Block → Equiv.Perm Block) (sender : MumbleCrypt) (plains : List (List UInt8))
    (crypt : MumbleCrypt) (i : Fin plains.length) :
    Decidable (Countable aes sender plains crypt i) :=
  inferInstanceAs (Decidable (∀ d ∈ _, _ → _ → _))

theorem addCounter_toNat (n : UInt64) (change : ℤ) (hbound : |change| < 2 ^ 64) :
    ((addCounter n change).toNat : ℤ) =
      if 0 < change then ((n.toNat : ℤ) + change) % 2 ^ 64
      else if change.natAbs < n.toNat then (n.toNat : ℤ) + change
      else n.toNat := by
  have hn := n.toNat_lt
  obtain ⟨hlow, hhigh⟩ := abs_lt.mp hbound
  have hnat : (UInt64.ofNat change.natAbs).toNat = change.natAbs := by
    rw [UInt64.toNat_ofNat']
    omega
  unfold addCounter
  split_ifs with hup hdown
  · rw [UInt64.toNat_add, UInt64.toNat_ofNat']
    omega
  · have hle : UInt64.ofNat change.natAbs ≤ n := by
      rw [UInt64.le_iff_toNat_le, hnat]
      omega
    rw [UInt64.toNat_sub_of_le n _ hle, hnat]
    omega
  · rfl

theorem accepted_good (crypt : MumbleCrypt) (iv : Block) (d : ℤ) :
    (accepted crypt iv d).uiGood.toNat = (crypt.uiGood.toNat + 1) % 2 ^ 64 := by
  simp [accepted, UInt64.toNat_add]

theorem accepted_lost (crypt : MumbleCrypt) (iv : Block) {d : ℤ} (hne : d ≠ 0)
    (hlow : -29 ≤ d) (hhigh : d ≤ 128) :
    ((accepted crypt iv d).uiLost.toNat : ℤ) =
      if 1 ≤ d then ((crypt.uiLost.toNat : ℤ) + (d - 1)) % 2 ^ 64
      else if 2 ≤ crypt.uiLost.toNat then (crypt.uiLost.toNat : ℤ) - 1
      else crypt.uiLost.toNat := by
  have hn := crypt.uiLost.toNat_lt
  simp only [accepted]
  rcases lt_or_gt_of_ne hne with hlate | hahead
  · rw [if_pos hlate, addCounter_toNat _ _ (by norm_num)]
    split_ifs <;> omega
  · have hbound : |d - 1| < (2 : ℤ) ^ 64 := by
      rw [abs_lt]
      constructor <;> omega
    rw [if_neg (by omega), addCounter_toNat _ _ hbound]
    split_ifs <;> omega

/-- The receiver's IV moves with a packet that is ahead and stays for a late one. -/
theorem accepted_offset {v0 : ZMod (2 ^ 128)} {crypt : MumbleCrypt} {source : List UInt8} {d : ℤ}
    (hd : ivDistance (crypt.decryptIv.get 0) (ivByte source) = some d)
    (hbalanced : Balanced v0 crypt) :
    ((counter (accepted crypt (triedIv crypt source d) d).decryptIv - v0).val : ℤ) =
      (counter crypt.decryptIv - v0).val + if 1 ≤ d then d else 0 := by
  have hgood := crypt.uiGood.toNat_lt
  have hlost := crypt.uiLost.toNat_lt
  obtain ⟨hne, hlow, hhigh⟩ := ivDistance_bounds hd
  have hmove := val_add_int (counter crypt.decryptIv - v0) d
  have htried : counter (triedIv crypt source d) - v0 =
      counter crypt.decryptIv - v0 + (d : ZMod (2 ^ 128)) := by
    rw [triedIv, counter_moveIv hd]
    ring
  unfold Balanced at hbalanced
  simp only [accepted]
  split_ifs with hlate hone hone
  · omega
  · simp
  · rw [htried, hmove]
    omega
  · omega

/-- The step: a balanced receiver stays balanced exactly when its counters can
take the packet. -/
theorem balanced_step {aes : Block → Equiv.Perm Block} {sender : MumbleCrypt}
    {plains : List (List UInt8)} {v0 : ZMod (2 ^ 128)} (crypt : MumbleCrypt)
    (i : Fin plains.length) (h : Balanced v0 crypt) :
    Balanced v0 (deliver aes sender plains crypt i).2 ↔
      Countable aes sender plains crypt i := by
  have haccept (d : ℤ)
      (hd : ivDistance (crypt.decryptIv.get 0) (ivByte (sentPacket aes sender plains i)) =
        some d) :
      Balanced v0 (accepted crypt (triedIv crypt (sentPacket aes sender plains i) d) d) ↔
        HasRoom crypt d := by
    have hgood := crypt.uiGood.toNat_lt
    have hlost := crypt.uiLost.toNat_lt
    obtain ⟨hne, hlow, hhigh⟩ := ivDistance_bounds hd
    have hgood' := accepted_good crypt (triedIv crypt (sentPacket aes sender plains i) d) d
    have hlost' := accepted_lost crypt (triedIv crypt (sentPacket aes sender plains i) d) hne
      hlow hhigh
    have hoffset := accepted_offset hd h
    unfold Balanced at h ⊢
    unfold HasRoom
    generalize accepted crypt _ d = next at *
    split_ifs at hlost' hoffset <;> omega
  have hlength := sentPacket_length aes sender plains i
  cases hd : ivDistance (crypt.decryptIv.get 0) (ivByte (sentPacket aes sender plains i)) with
  | none =>
      rw [deliver, cryptDecrypt_of_no_distance aes (Or.inr hd)]
      apply iff_of_true h
      intro d hmem
      rw [hd] at hmem
      cases hmem
  | some d =>
      have hroom : Countable aes sender plains crypt i ↔
          ((d ≠ 1 → replayed crypt (triedIv crypt (sentPacket aes sender plains i) d) = false) →
            opens (aes crypt.rawKey) (sentPacket aes sender plains i)
              (triedIv crypt (sentPacket aes sender plains i) d) = true → HasRoom crypt d) := by
        simp [Countable, hd]
      rw [deliver, cryptDecrypt_of_distance aes _ hlength hd, hroom]
      split_ifs with hreject
      · apply iff_of_true h
        intro hfresh hopens
        rcases hreject with ⟨hne, hreplay⟩ | hclosed
        · rw [hfresh hne] at hreplay
          cases hreplay
        · rw [hopens] at hclosed
          cases hclosed
      · obtain ⟨hreplay, hclosed⟩ := not_or.mp hreject
        refine (haccept d hd).trans ⟨fun hfits _ _ => hfits, ?_⟩
        intro hcountable
        refine hcountable ?_ (by simpa using hclosed)
        intro hne
        simpa using fun hheld => hreplay ⟨hne, hheld⟩

section

variable {aes : Block → Equiv.Perm Block} {sender : MumbleCrypt} {plains : List (List UInt8)}

/-- While the counters have room, `uiGood` counts the packets accepted. -/
theorem good_counts (receiver : MumbleCrypt) (schedule : List (Fin plains.length))
    (hgood : receiver.uiGood = 0)
    (hroom : Machine.Along (deliver aes sender plains) (Countable aes sender plains)
      receiver schedule) :
    (Machine.final (deliver aes sender plains) receiver schedule).uiGood.toNat =
      (Machine.served Option.isSome (deliver aes sender plains) receiver schedule).length := by
  refine Machine.served_invariant Option.isSome
    (fun crypt done => crypt.uiGood.toNat = done.length) ?_ receiver [] schedule
    (by simp [hgood]) hroom
  intro crypt done i hcounts hcountable
  rcases cryptDecrypt_cases aes crypt (sentPacket aes sender plains i) with
    hreject | ⟨d, hd, hfresh, hopens, hstep⟩
  · rw [deliver, hreject]
    exact hcounts
  · obtain ⟨hlimit, _⟩ := hcountable d hd hfresh hopens
    rw [deliver, hstep]
    simp only [Option.isSome_some, if_true, List.length_append, List.length_singleton]
    rw [accepted_good, Nat.mod_eq_of_lt hlimit, hcounts]

variable (sender plains) in
/-- The packets up to the receiver's IV that it has not accepted. -/
def outstanding (aes : Block → Equiv.Perm Block) (crypt : MumbleCrypt)
    (done : List (Fin plains.length)) : Finset (Fin plains.length) :=
  let v0 := counter sender.encryptIv
  Finset.univ.filter fun i =>
    (counter (sentIv aes sender plains i) - v0).val ≤ (counter crypt.decryptIv - v0).val ∧
      i ∉ done

theorem sentIv_offset (hcount : plains.length < 2 ^ 127) (i : Fin plains.length) :
    (counter (sentIv aes sender plains i) - counter sender.encryptIv).val = i + 1 := by
  have hi := i.isLt
  rw [sentIv_counter, add_sub_cancel_left]
  exact ZMod.val_natCast_of_lt (by omega)

/-- The outstanding packets are those the guard is missing. -/
theorem outstanding_eq_missing (aes : Block → Equiv.Perm Block)
    (hcount : plains.length < 2 ^ 127) {crypt : MumbleCrypt}
    {done : List (Fin plains.length)} {g : Guard}
    (hseen : g.seen = (done.map packetNumber).toFinset)
    (hhead : ((counter crypt.decryptIv - counter sender.encryptIv).val : ℤ) = g.head)
    (hbound : g.head ≤ plains.length) :
    (outstanding sender plains aes crypt done).image packetNumber = g.missing 0 := by
  ext n
  simp only [outstanding, Guard.mem_missing, Finset.mem_image, Finset.mem_filter,
    Finset.mem_univ, true_and, hseen, List.mem_toFinset, List.mem_map]
  constructor
  · rintro ⟨i, ⟨hle, hnotin⟩, rfl⟩
    rw [sentIv_offset hcount] at hle
    refine ⟨⟨by unfold packetNumber; omega, by unfold packetNumber; omega⟩, ?_⟩
    rintro ⟨j, hj, heq⟩
    exact hnotin (packetNumber_injective heq ▸ hj)
  · rintro ⟨⟨hlow, hhigh⟩, hnotin⟩
    have hindex : (n - 1).toNat < plains.length := by omega
    have hnumber : packetNumber ⟨(n - 1).toNat, hindex⟩ = n := by
      unfold packetNumber
      dsimp only
      omega
    refine ⟨⟨(n - 1).toNat, hindex⟩, ⟨?_, ?_⟩, hnumber⟩
    · rw [sentIv_offset hcount]
      dsimp only
      omega
    · intro hin
      exact hnotin ⟨_, hin, hnumber⟩

/-- Where the receiver is balanced and `uiGood` counts the accepted packets,
`uiLost` counts the outstanding ones. -/
theorem lost_counts (hcount : plains.length < 2 ^ 127) {crypt : MumbleCrypt}
    {done : List (Fin plains.length)} (h : Received sender plains crypt done)
    (hbalanced : Balanced (counter sender.encryptIv) crypt)
    (hgood : crypt.uiGood.toNat = done.length) :
    crypt.uiLost.toNat = (outstanding sender plains aes crypt done).card := by
  obtain ⟨_, hnodup, g, htracks, hseen, hbound⟩ := h
  have hbase := htracks.valid.base_le
  have hhead : ((counter crypt.decryptIv - counter sender.encryptIv).val : ℤ) = g.head := by
    rw [htracks.head, add_sub_cancel_left, ZMod.val_intCast]
    omega
  have hmissing := outstanding_eq_missing aes hcount hseen hhead hbound
  have hcards := Guard.seen_add_missing htracks.valid
  have hseencard : g.seen.card = done.length := by
    rw [hseen, List.toFinset_card_of_nodup (hnodup.map packetNumber_injective), List.length_map]
  rw [← hmissing, Finset.card_image_of_injective _ packetNumber_injective] at hcards
  unfold Balanced at hbalanced
  omega

end

/-- Loss accounting: `uiGood + uiLost` follows the receiver's IV through a whole
run exactly when the counters can take each accepted packet of the run, and
then `uiLost` is the number of packets up to the receiver's IV that were not
accepted, as long as tags do not collide. -/
theorem loss_accounting (aes : Block → Equiv.Perm Block) (sender receiver : MumbleCrypt)
    (plains : List (List UInt8)) (schedule : List (Fin plains.length))
    (hkey : receiver.rawKey = sender.rawKey) (hiv : receiver.decryptIv = sender.encryptIv)
    (hgood : receiver.uiGood = 0) (hlost : receiver.uiLost = 0) :
    let step := deliver aes sender plains
    let v0 := counter sender.encryptIv
    ((∀ n ≤ schedule.length, Balanced v0 (Machine.final step receiver (schedule.take n))) ↔
        Machine.Along step (Countable aes sender plains) receiver schedule) ∧
      (Machine.Along step (Countable aes sender plains) receiver schedule →
        Authentic aes sender plains → plains.length < 2 ^ 127 →
        ∀ n ≤ schedule.length,
          let crypt := Machine.final step receiver (schedule.take n)
          let done := Machine.served Option.isSome step receiver (schedule.take n)
          crypt.uiLost.toNat = (outstanding sender plains aes crypt done).card) := by
  intro step v0
  have hinit : Balanced v0 receiver := by
    simp [Balanced, v0, hgood, hlost, hiv]
  have hiff := Machine.holds_along_iff step (p := Countable aes sender plains) (Balanced v0)
    (fun crypt i => balanced_step crypt i) receiver schedule hinit
  refine ⟨hiff, ?_⟩
  intro hroom hauth hcount n hn
  exact lost_counts hcount (received_run hauth hcount receiver hkey hiv (schedule.take n))
    (hiff.mpr hroom n hn)
    (good_counts receiver _ hgood (Machine.along_take receiver schedule n hroom))

/-- A gap of three packets, one of them late, and a duplicate. -/
theorem three_lost_one_late :
    let state := keyedState (255 :: List.replicate 15 1)
    let plains : List (List UInt8) := [[], [], [], []]
    ∀ n ≤ [(3 : Fin 4), 0, 3].length, Balanced (counter state.encryptIv)
      (Machine.final (deliver maskCipher state plains) state ([(3 : Fin 4), 0, 3].take n)) := by
  intro state plains
  refine (loss_accounting maskCipher state state plains [(3 : Fin 4), 0, 3] rfl rfl rfl
    rfl).1.mpr ?_
  exact ⟨by decide +kernel, by decide +kernel, by decide +kernel, trivial⟩

/-- A gap of one packet that is filled by the next delivery stays counted. -/
theorem filled_gap_stays_lost :
    ¬ ∀ (aes : Block → Equiv.Perm Block) (sender receiver : MumbleCrypt)
        (plains : List (List UInt8)) (schedule : List (Fin plains.length)),
      receiver.rawKey = sender.rawKey → receiver.decryptIv = sender.encryptIv →
      receiver.uiGood = 0 → receiver.uiLate = 0 → receiver.uiLost = 0 →
      ∀ n ≤ schedule.length, Balanced (counter sender.encryptIv)
        (Machine.final (deliver aes sender plains) receiver (schedule.take n)) := by
  intro h
  have hend := h maskCipher (keyedState (255 :: List.replicate 15 1))
    (keyedState (255 :: List.replicate 15 1)) [[], []] [1, 0] rfl rfl rfl rfl rfl 2 (le_refl 2)
  revert hend
  decide +kernel

end LuaMumble.Crypt
