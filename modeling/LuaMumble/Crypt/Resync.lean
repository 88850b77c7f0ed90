import LuaMumble.Crypt.Replay
import LuaMumble.Userdata.State

/-!
How a receiver that has missed too much gets back to its sender. The program asks for nothing when
packets do not decrypt, and they leave its state as it was, so it stays where it is until the
server sends a CryptSetup of its own accord. One with nothing but the server's nonce is enough.
-/

namespace LuaMumble.Crypt

open Ocb Lib
open LuaMumble.Userdata (LuaValue field binToStrhex)

/-- `MumbleProto__CryptSetup` -/
structure CryptSetup where
  key : Option (List UInt8)
  clientNonce : Option (List UInt8)
  serverNonce : Option (List UInt8)

/-- The fields of a client that the function changes. -/
structure ClientCrypt where
  crypt : MumbleCrypt
  resync : UInt32

/-- What `packet_crypt_setup` does besides: the packet it sends, whether it calls `mumble_ping`,
and the fields of the table for `OnCryptSetup`. -/
structure Setup where
  reply : Option CryptSetup
  ping : Bool
  fields : List (String × LuaValue)

/-- `crypt_setDecryptIV` -/
def cryptSetDecryptIv (crypt : MumbleCrypt) (iv : List UInt8) : Bool × MumbleCrypt :=
  if iv.length = 16 then (true, { crypt with decryptIv := Block.ofBytes iv }) else (false, crypt)

/-- `crypt_isValid` -/
def cryptIsValid (crypt : MumbleCrypt) : Bool := crypt.bInit

/-- The part of `packet_crypt_setup` that changes the state, with the packet it sends. -/
def renew (client : ClientCrypt) (setup : CryptSetup) : Option CryptSetup × ClientCrypt :=
  match setup.key, setup.clientNonce, setup.serverNonce with
  | some key, some clientNonce, some serverNonce =>
      (none, { client with crypt := (cryptSetKey client.crypt key clientNonce serverNonce).2 })
  | _, _, some serverNonce =>
      (none, { crypt := (cryptSetDecryptIv client.crypt serverNonce).2,
               resync := client.resync + 1 })
  | _, _, none => (some ⟨none, some client.crypt.encryptIv.bytes, none⟩, client)

/-- `packet_crypt_setup`. The memory behind the message is that of `bin_to_strhex`. -/
def packetCryptSetup (client : ClientCrypt) (setup : CryptSetup) (behind : Nat → UInt8) :
    Setup × ClientCrypt :=
  let (reply, client) := renew client setup
  let validCrypt := cryptIsValid client.crypt
  let hex (bytes : List UInt8) : LuaValue :=
    match binToStrhex (some bytes) behind bytes.length with
    | some result => .string result
    | none => .nil
  (⟨reply, validCrypt, [("valid", .boolean validCrypt)] ++ field "key" setup.key hex ++
      field "client_nonce" setup.clientNonce hex ++
      field "server_nonce" setup.serverNonce hex⟩, client)

section Lost

variable {aes : Block → Equiv.Perm Block} {sender receiver : MumbleCrypt}
  {plains : List (List UInt8)}

/-- How far packet `i` is ahead of a receiver that has come to packet number `r`. -/
def ahead (plains : List (List UInt8)) (r : ℕ) (i : Fin plains.length) : ℤ :=
  packetNumber i - r

/-- No distance that a receiver guesses leads to the packet. -/
def OutOfReach (plains : List (List UInt8)) (r : ℕ) (i : Fin plains.length) : Prop :=
  ahead plains r i < -29 ∨ ahead plains r i = 0 ∨ 128 < ahead plains r i

instance (r : ℕ) (i : Fin plains.length) : Decidable (OutOfReach plains r i) :=
  inferInstanceAs (Decidable (_ ∨ _ ∨ _))

/-- The IV that the receiver tries for packet `i` does not open it, unless it is its own. -/
def OpensAsSent (aes : Block → Equiv.Perm Block) (sender receiver : MumbleCrypt)
    (plains : List (List UInt8)) (i : Fin plains.length) : Prop :=
  let packet := sentPacket aes sender plains i
  ∀ d ∈ ivDistance (receiver.decryptIv.get 0) (ivByte packet),
    opens (aes receiver.rawKey) packet (triedIv receiver packet d) = true →
      triedIv receiver packet d = sentIv aes sender plains i

/-- A packet that opens is where the receiver takes it to be. -/
theorem opens_ahead (hcount : plains.length < 2 ^ 127) {r : ℕ} (hr : r ≤ plains.length)
    (hiv : counter receiver.decryptIv = counter sender.encryptIv + (r : ZMod (2 ^ 128)))
    {i : Fin plains.length} (hsent : OpensAsSent aes sender receiver plains i) {d : ℤ}
    (hd : ivDistance (receiver.decryptIv.get 0) (ivByte (sentPacket aes sender plains i)) = some d)
    (hopens : opens (aes receiver.rawKey) (sentPacket aes sender plains i)
      (triedIv receiver (sentPacket aes sender plains i) d) = true) :
    d = ahead plains r i := by
  have htried := hsent d hd hopens
  have hnumber := sentIv_counter aes sender plains i
  rw [← htried, triedIv, counter_moveIv hd, hiv] at hnumber
  have hcounter : ((r + d : ℤ) : ZMod (2 ^ 128)) = ((packetNumber i : ℤ) : ZMod (2 ^ 128)) := by
    unfold packetNumber
    push_cast at hnumber ⊢
    rw [add_assoc] at hnumber
    exact add_left_cancel hnumber
  have hdvd := Int.ModEq.dvd ((ZMod.intCast_eq_intCast_iff _ _ _).mp hcounter)
  obtain ⟨_, hlow, hhigh⟩ := ivDistance_bounds hd
  have hi := i.isLt
  unfold ahead
  unfold packetNumber at hdvd ⊢
  push_cast at hdvd
  omega

/-- What is out of reach is dropped, and nothing changes. -/
theorem deliver_outOfReach (hcount : plains.length < 2 ^ 127) {r : ℕ} (hr : r ≤ plains.length)
    (hiv : counter receiver.decryptIv = counter sender.encryptIv + (r : ZMod (2 ^ 128)))
    {i : Fin plains.length} (hsent : OpensAsSent aes sender receiver plains i)
    (hout : OutOfReach plains r i) :
    deliver aes sender plains receiver i = (none, receiver) := by
  rcases cryptDecrypt_cases aes receiver (sentPacket aes sender plains i) with
    hreject | ⟨d, hd, -, hopens, -⟩
  · exact hreject
  · have hahead := opens_ahead hcount hr hiv hsent hd hopens
    obtain ⟨hne, hlow, hhigh⟩ := ivDistance_bounds hd
    unfold OutOfReach at hout
    omega

/-- A receiver out of reach of all that comes stays where it is. By induction on the deliveries. -/
theorem lost_run (hcount : plains.length < 2 ^ 127) {r : ℕ} (hr : r ≤ plains.length)
    (hiv : counter receiver.decryptIv = counter sender.encryptIv + (r : ZMod (2 ^ 128)))
    (schedule : List (Fin plains.length))
    (hsent : ∀ i ∈ schedule, OpensAsSent aes sender receiver plains i)
    (hout : ∀ i ∈ schedule, OutOfReach plains r i) :
    (∀ result ∈ Machine.outputs (deliver aes sender plains) receiver schedule, result = none) ∧
      Machine.final (deliver aes sender plains) receiver schedule = receiver := by
  induction schedule with
  | nil => exact ⟨by simp [Machine.outputs], rfl⟩
  | cons i schedule ih =>
      have hstep := deliver_outOfReach hcount hr hiv (hsent i List.mem_cons_self)
        (hout i List.mem_cons_self)
      obtain ⟨houtputs, hfinal⟩ := ih (fun j hj => hsent j (List.mem_cons_of_mem _ hj))
        fun j hj => hout j (List.mem_cons_of_mem _ hj)
      simp only [Machine.outputs, Machine.final, hstep, List.mem_cons, forall_eq_or_imp]
      exact ⟨⟨trivial, houtputs⟩, hfinal⟩

end Lost

/-- A CryptSetup with nothing but the nonce of the sender brings the two in step. -/
theorem renew_inStep (client : ClientCrypt) {sender : MumbleCrypt}
    (hkey : client.crypt.rawKey = sender.rawKey) :
    let renewed := (renew client ⟨none, none, some sender.encryptIv.bytes⟩).2
    InStep (sender, renewed.crypt) ∧ renewed.resync = client.resync + 1 ∧
      renewed.crypt.bInit = client.crypt.bInit := by
  intro renewed
  have hlength : sender.encryptIv.bytes.length = 16 := sender.encryptIv.length_bytes
  have hrenewed : renewed =
      { crypt := { client.crypt with decryptIv := Block.ofBytes sender.encryptIv.bytes },
        resync := client.resync + 1 } := by
    simp only [renewed, renew, cryptSetDecryptIv, hlength, if_true]
  rw [hrenewed]
  exact ⟨⟨hkey.symm, Block.ofBytes_self _⟩, rfl, rfl⟩

/-- Losing a sender and finding it again. A client that has come to packet number `r` drops every
packet more than 128 ahead of it, as after the loss of that many in a row, and every packet more
than 29 behind, and its state stays as it is, for any number of such packets in any order, unless
one opens under the wrong IV that is tried for it. After a CryptSetup with the nonce that the
sender has then, all that it sends in order is accepted again, whatever was lost, with the bit that
the sender changes, as long as the check on the last block is quiet. -/
theorem lost_until_resync (aes : Block → Equiv.Perm Block) (sender : MumbleCrypt)
    (client : ClientCrypt) (plains : List (List UInt8)) (r : ℕ)
    (hcount : plains.length < 2 ^ 127) (hkey : client.crypt.rawKey = sender.rawKey)
    (hr : r ≤ plains.length)
    (hiv : counter client.crypt.decryptIv = counter sender.encryptIv + (r : ZMod (2 ^ 128)))
    (schedule : List (Fin plains.length))
    (hsent : ∀ i ∈ schedule, OpensAsSent aes sender client.crypt plains i)
    (hout : ∀ i ∈ schedule, OutOfReach plains r i) :
    (∀ result ∈ Machine.outputs (deliver aes sender plains) client.crypt schedule,
        result = none) ∧
      Machine.final (deliver aes sender plains) client.crypt schedule = client.crypt ∧
      ∀ (n : ℕ) (behind : Nat → UInt8) (later : List (List UInt8)),
        let sender' := senderAfter aes sender (plains.take n)
        let renewed := packetCryptSetup client ⟨none, none, some sender'.encryptIv.bytes⟩ behind
        renewed.2.resync = client.resync + 1 ∧ renewed.1.ping = client.crypt.bInit ∧
          (Machine.Along (exchange aes) (CheckQuiet aes) (sender', renewed.2.crypt) later →
            (Machine.outputs (exchange aes) (sender', renewed.2.crypt) later).map Exchange.result =
              later.map fun plain => some (counterCryptanalysis plain)) := by
  obtain ⟨houtputs, hfinal⟩ := lost_run hcount hr hiv schedule hsent hout
  refine ⟨houtputs, hfinal, ?_⟩
  intro n behind later sender' renewed
  have hkey' : client.crypt.rawKey = sender'.rawKey := by
    rw [hkey, senderAfter_rawKey]
  obtain ⟨hsync, hresync, hinit⟩ := renew_inStep client hkey'
  exact ⟨hresync, hinit, fun hquiet => (session_run aes _ later hsync hquiet).1⟩

/-- A session of 300 packets, before its first one. -/
def farState : MumbleCrypt := { cryptInit with bInit := true }

def farPlains : List (List UInt8) := List.replicate 300 [1, 2, 3]

theorem farPlains_length : farPlains.length = 300 := List.length_replicate

/-- The last packet: an IV 256 below its own is tried. -/
def farPacket : Fin farPlains.length := ⟨299, by rw [farPlains_length]; omega⟩

/-- A cipher that leaves the blocks as they are. -/
def plainCipher (_ : Block) : Equiv.Perm Block := Equiv.refl Block

theorem far_sentIv (n : ℕ) (iv : Block) (hiv : counter iv = (n : ZMod (2 ^ 128)))
    {i : Fin farPlains.length} (hi : (i : ℕ) + 1 = n) :
    sentIv plainCipher farState farPlains i = iv := by
  apply counter_injective
  rw [sentIv_counter, hiv, ← hi]
  have hzero : counter farState.encryptIv = 0 := by decide +kernel
  rw [hzero]
  push_cast
  ring

theorem far_opensAsSent : OpensAsSent plainCipher farState farState farPlains farPacket := by
  have hplain : farPlains.get farPacket = [1, 2, 3] := List.eq_of_mem_replicate (List.get_mem ..)
  have hiv := far_sentIv 300 ⟨[44, 1] ++ List.replicate 14 0, by decide⟩ (by decide +kernel)
    (i := farPacket) rfl
  unfold OpensAsSent
  rw [sentPacket_eq, hiv, hplain]
  decide +kernel

/-- The packet before which the sender's nonce is sent again. -/
def farSender : MumbleCrypt := senderAfter plainCipher farState (farPlains.take 299)

/-- Encryption moves the IV and nothing else. -/
theorem senderAfter_eq (aes : Block → Equiv.Perm Block) (sender : MumbleCrypt)
    (plains : List (List UInt8)) :
    senderAfter aes sender plains =
      { sender with encryptIv := (senderAfter aes sender plains).encryptIv } := by
  unfold senderAfter
  induction plains generalizing sender with
  | nil => rfl
  | cons plain rest ih =>
      rw [Machine.final, ih, cryptEncrypt_eq]

theorem farSender_eq : farSender =
    { farState with encryptIv := ⟨[43, 1] ++ List.replicate 14 0, by decide⟩ } := by
  have hiv : farSender.encryptIv = ⟨[43, 1] ++ List.replicate 14 0, by decide⟩ := by
    apply counter_injective
    rw [farSender, senderAfter_counter, List.length_take, farPlains_length]
    decide +kernel
  rw [← hiv]
  exact senderAfter_eq plainCipher farState (farPlains.take 299)

theorem far_packet_lost_until_resync :
    (∀ result ∈ Machine.outputs (deliver plainCipher farState farPlains) farState
        [farPacket, farPacket], result = none) ∧
      let setup : CryptSetup := ⟨none, none, some farSender.encryptIv.bytes⟩
      (Machine.outputs (exchange plainCipher)
        (farSender, (packetCryptSetup ⟨farState, 0⟩ setup (fun _ => 0)).2.crypt)
          [[1, 2, 3], [4, 5]]).map Exchange.result =
        [some (counterCryptanalysis [1, 2, 3]), some (counterCryptanalysis [4, 5])] := by
  have hpacket : ∀ i ∈ [farPacket, farPacket], i = farPacket := by
    intro i hi
    simpa using hi
  obtain ⟨hlost, -, hresync⟩ := lost_until_resync plainCipher farState ⟨farState, 0⟩ farPlains 0
    (by rw [farPlains_length]; norm_num) rfl (Nat.zero_le _) (by rw [Nat.cast_zero, add_zero]; rfl)
    [farPacket, farPacket]
    (fun i hi => by rw [hpacket i hi]; exact far_opensAsSent)
    (fun i hi => by rw [hpacket i hi]; decide)
  refine ⟨hlost, (hresync 299 (fun _ => 0) [[1, 2, 3], [4, 5]]).2.2 ?_⟩
  change Machine.Along (exchange plainCipher) (CheckQuiet plainCipher)
    (farSender, (packetCryptSetup ⟨farState, 0⟩ ⟨none, none, some farSender.encryptIv.bytes⟩
      (fun _ => 0)).2.crypt) _
  rw [farSender_eq]
  decide +kernel

end LuaMumble.Crypt
