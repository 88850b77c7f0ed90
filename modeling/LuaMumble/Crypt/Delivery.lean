import LuaMumble.Lib.ReplayWindow
import LuaMumble.Crypt.Session

/-!
A sender's packets delivered in any order, any number of times. Packet `i` is
the one that `crypt_encrypt` writes for plaintext `i`; a run of the receiver is
a list of such numbers. `Tracks` connects the receiver to an abstract replay
guard whose numbers are offsets from the sender's first IV: the 256 one-byte
slots of `decrypt_history` are as good as the guard's set of accepted numbers,
because two offsets that share a slot are 256 apart and the window behind the
current IV has 29.
-/

namespace LuaMumble.Crypt

open Ocb Lib Lib.ReplayWindow

section Sender

variable (aes : Block → Equiv.Perm Block) (sender : MumbleCrypt) (plains : List (List UInt8))

/-- The call of `crypt_encrypt` on plaintext `i`. -/
def sending (i : Fin plains.length) : Option (List UInt8) × MumbleCrypt :=
  cryptEncrypt aes (senderAfter aes sender (plains.take i)) (plains.get i)

def sentPacket (i : Fin plains.length) : List UInt8 :=
  (sending aes sender plains i).1.getD []

/-- The IV of packet `i`: the sender's `encrypt_iv` when it is written. -/
def sentIv (i : Fin plains.length) : Block :=
  (sending aes sender plains i).2.encryptIv

/-- Delivers packet `i` to the receiver. -/
def deliver (receiver : MumbleCrypt) (i : Fin plains.length) :
    Option (List UInt8) × MumbleCrypt :=
  cryptDecrypt aes receiver (sentPacket aes sender plains i)

/-- Tags do not collide: a packet passes decryption and the comparison of three
tag bytes under its own IV and under no other. -/
def Authentic : Prop :=
  ∀ (i : Fin plains.length) (m : Block),
    opens (aes sender.rawKey) (sentPacket aes sender plains i) m = true ↔
      m = sentIv aes sender plains i

theorem sentPacket_eq (i : Fin plains.length) :
    sentPacket aes sender plains i =
      packetUnder (aes sender.rawKey) (sentIv aes sender plains i) (plains.get i) := by
  unfold sentPacket sentIv sending
  rw [cryptEncrypt_eq, senderAfter_rawKey]
  rfl

theorem sentIv_counter (i : Fin plains.length) :
    counter (sentIv aes sender plains i) =
      counter sender.encryptIv + ((i + 1 : ℕ) : ZMod (2 ^ 128)) := by
  have htake : (plains.take i).length = i := List.length_take_of_le (Nat.le_of_lt i.isLt)
  unfold sentIv sending
  rw [cryptEncrypt_eq, counter_incrementFrom 0 (by omega), senderAfter_counter, htake]
  push_cast
  ring

theorem sentPacket_ivByte (i : Fin plains.length) :
    ivByte (sentPacket aes sender plains i) = (sentIv aes sender plains i).get 0 := by
  rw [sentPacket_eq]
  rfl

theorem sentPacket_length (i : Fin plains.length) :
    4 ≤ (sentPacket aes sender plains i).length := by
  rw [sentPacket_eq]
  simp [packetUnder]

end Sender

/-- The slot of offset `n` from the IV `v0`, and the byte remembered there. -/
def slotOf (v0 : ZMod (2 ^ 128)) (n : ℤ) : UInt8 :=
  UInt8.ofNat (v0 + (n : ZMod (2 ^ 128))).val

def tagOf (v0 : ZMod (2 ^ 128)) (n : ℤ) : UInt8 :=
  UInt8.ofNat ((v0 + (n : ZMod (2 ^ 128))).val / 256)

theorem get_zero_slotOf {v0 : ZMod (2 ^ 128)} {n : ℤ} {iv : Block}
    (h : counter iv = v0 + (n : ZMod (2 ^ 128))) : iv.get 0 = slotOf v0 n := by
  apply UInt8.toNat_inj.mp
  rw [get_zero_eq, h, slotOf, UInt8.toNat_ofNat']

theorem get_one_tagOf {v0 : ZMod (2 ^ 128)} {n : ℤ} {iv : Block}
    (h : counter iv = v0 + (n : ZMod (2 ^ 128))) : iv.get 1 = tagOf v0 n := by
  apply UInt8.toNat_inj.mp
  rw [get_one_eq, h, tagOf, UInt8.toNat_ofNat']

theorem slotOf_separated (v0 : ZMod (2 ^ 128)) (m n : ℤ) (hslot : slotOf v0 m = slotOf v0 n)
    (hclose : |m - n| < 256) : m = n := by
  have hmod := congrArg UInt8.toNat hslot
  have hm := val_add_int v0 m
  have hn := val_add_int v0 n
  rw [slotOf, slotOf, UInt8.toNat_ofNat', UInt8.toNat_ofNat'] at hmod
  rw [abs_lt] at hclose
  omega

/-- The receiver is where the guard is: its IV is `v0` plus the guard's head,
and its history remembers what the guard accepted within the window. -/
structure Tracks (v0 : ZMod (2 ^ 128)) (crypt : MumbleCrypt) (g : Guard) : Prop where
  head : counter crypt.decryptIv = v0 + (g.head : ZMod (2 ^ 128))
  valid : g.Valid 0
  remembers : Remembers 29 (slotOf v0) (tagOf v0) crypt.decryptHistory g

theorem tracks_initial (crypt : MumbleCrypt) :
    Tracks (counter crypt.decryptIv) crypt ⟨0, ∅⟩ :=
  ⟨by simp, Guard.initial_valid 0, remembers_initial⟩

/-- The step of the refinement: what the receiver accepts at distance `d`, the
guard had not accepted before, and the two stay together. -/
theorem tracks_accepted {v0 : ZMod (2 ^ 128)} {crypt : MumbleCrypt} {g : Guard}
    {source : List UInt8} {d : ℤ} (h : Tracks v0 crypt g)
    (hd : ivDistance (crypt.decryptIv.get 0) (ivByte source) = some d)
    (hfresh : d ≠ 1 → replayed crypt (triedIv crypt source d) = false)
    (hpositive : 0 < g.head + d) :
    g.head + d ∉ g.seen ∧
      Tracks v0 (accepted crypt (triedIv crypt source d) d) (g.accept (g.head + d)) := by
  obtain ⟨hne, hlow, hhigh⟩ := ivDistance_bounds hd
  have hwindow : InWindow 29 128 g.head (g.head + d) := ⟨by omega, by omega, by omega⟩
  have hcounter : counter (triedIv crypt source d) =
      v0 + ((g.head + d : ℤ) : ZMod (2 ^ 128)) := by
    rw [triedIv, counter_moveIv hd, h.head]
    push_cast
    ring
  have hslot := get_zero_slotOf hcounter
  have htag := get_one_tagOf hcounter
  refine ⟨not_seen_of_fresh h.valid hwindow h.remembers ?_, ?_, ?_, ?_⟩
  · intro hlt
    have hreplay := hfresh (by omega)
    rw [replayed, hslot, htag] at hreplay
    simpa using hreplay
  · simp only [accepted, Guard.accept]
    split_ifs with hlate hahead hahead
    · omega
    · rw [h.head]
    · rw [hcounter]
    · omega
  · exact Guard.accept_valid h.valid hpositive
  · simp only [accepted, hslot, htag]
    exact remembers_accept (slotOf_separated v0) (by norm_num) h.valid hwindow h.remembers

end LuaMumble.Crypt
