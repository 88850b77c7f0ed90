import Mathlib.Data.Nat.Bitwise
import LuaMumble.Lib.Precision
import LuaMumble.Voice.Bounds

/-!
What a legacy client tells its callbacks of an Opus packet. The numbers of the
event pass through `lua_pushnumber`, whose argument is a double, so a sequence
number arrives only when a double can hold it; and the target arrives only when
it is zero, because the packet handler shifts the whole header away.
-/

namespace LuaMumble.Voice

open Lib.TracedRead Lib.Precision

/-- The frame header that `send_legacy_audio` gives to `voicepacket_setframe`: the
length of the payload, and bit 13 at the end of the stream. -/
def frameHeader (encodedLen : Nat) (endFrame : Bool) : UInt16 :=
  if endFrame then UInt16.ofNat encodedLen ||| 0x2000 else UInt16.ofNat encodedLen

/-- An Opus packet as the server sends it on: that of `voicepacket_setheader` and
`voicepacket_setframe`, with the session of the speaker behind the first byte. -/
def opusVoicePacket (target : UInt8) (session : UInt32) (sequence : UInt64)
    (payload : List UInt8) (endFrame : Bool) : List UInt8 :=
  ((legacyUdpOpus &&& 0x7) <<< 5 ||| target &&& 0x1F) ::
    (utilSetVarint session.toUInt64 ++ (utilSetVarint sequence ++
      (utilSetVarint (frameHeader payload.length endFrame).toUInt64 ++ payload)))

/-- The number that Lua gets of a `lua_pushnumber`: a double has 53 significant
bits. -/
def luaPushNumber (n : Nat) : Nat := roundNearestEven 53 n

/-- What a callback of `OnUserSpeak` finds in the fields of its argument. -/
structure SpokenFrame where
  codec : Nat
  target : Nat
  session : Nat
  sequence : Nat
  data : List UInt8
  speaking : Bool

def UserSpeak.spokenFrame (event : UserSpeak) : SpokenFrame :=
  { codec := luaPushNumber event.codec.toNat
    target := luaPushNumber event.target.toNat
    session := event.user.toNat
    sequence := luaPushNumber event.sequence.toNat
    data := event.data
    speaking := event.speaking }

/-- The event of a call of `OnUserSpeak`. -/
def spokenEvent : Entry Action → Option UserSpeak
  | .emit (.hookCall (.onUserSpeak event)) => some event
  | _ => none

def spoken (log : List (Entry Action)) : List UserSpeak := log.filterMap spokenEvent

section Log

variable {A B : Type} {mem : Memory}

@[simp] theorem spoken_pure (a : A) : spoken ((pure a : Traced Action A).log mem) = [] := rfl

@[simp] theorem spoken_bind (x : Traced Action A) (f : A → Traced Action B) :
    spoken ((x >>= f).log mem) = spoken (x.log mem) ++ spoken ((f (x.value mem)).log mem) := by
  rw [log_bind]
  exact List.filterMap_append

@[simp] theorem spoken_load (index : Nat) :
    spoken ((load index : Traced Action UInt8).log mem) = [] := rfl

@[simp] theorem spoken_slice (start length : Nat) :
    spoken ((slice start length : Traced Action (List UInt8)).log mem) = [] := rfl

@[simp] theorem spoken_pointer (start : Nat) :
    spoken ((pointer start : Traced Action Memory).log mem) = [] := rfl

@[simp] theorem spoken_emit (action : Action) :
    spoken ((emit action).log mem) = (spokenEvent (.emit action)).toList := by
  cases h : spokenEvent (.emit action) <;> simp [spoken, Traced.log, emit, h]

@[simp] theorem spoken_utilGetVarint (buffer len : Nat) :
    spoken ((utilGetVarint buffer len : Traced Action (UInt64 × Nat)).log mem) = [] := by
  have hreads : Always (fun entry => spokenEvent entry = none) (utilGetVarint buffer len) mem := by
    rw [always_utilGetVarint]
    intro i _
    rfl
  exact List.filterMap_eq_nil_iff.mpr hreads

@[simp] theorem spoken_readFrameHeader (buffer : Nat) (codec : UInt8) (read : Nat) :
    spoken ((readFrameHeader buffer codec read).log mem) = [] := by
  unfold readFrameHeader
  split
  · rfl
  · split
    · rw [spoken_bind, spoken_utilGetVarint]
      rfl
    · rfl

/-- The hooks of a packet tell of one event, made of the payload. -/
theorem spoken_speakingHooks (host : Host) (client : MumbleClient) (session : UInt32) (user : User)
    (speaking : Bool) (data : Traced Action (List UInt8)) (opus : Traced Action OpusPacket)
    (event : List UInt8 → OpusPacket → UserSpeak) (hdata : spoken (data.log mem) = [])
    (hopus : spoken (opus.log mem) = []) :
    spoken ((speakingHooks host client session user speaking data opus event).log mem) =
      [event (data.value mem) (opus.value mem)] := by
  simp only [speakingHooks, mumbleHookCall]
  split_ifs <;> simp [spokenEvent, hdata, hopus]

end Log

section Fields

variable {mem : Memory} {buffer : Nat} {rest : List UInt8}

theorem utilGetVarint_written (n : UInt64) (hmem : Holds mem buffer (utilSetVarint n ++ rest))
    (len : Nat) :
    (utilGetVarint buffer len : Traced Action (UInt64 × Nat)).value mem =
        (n, len + (utilSetVarint n).length) ∧
      Holds mem (buffer + (utilSetVarint n).length) rest :=
  utilGetVarint_of_written n hmem len

theorem frameHeader_toNat {n : Nat} (hn : n < 2 ^ 13) (endFrame : Bool) :
    (frameHeader n endFrame).toNat = 2 ^ 13 * endFrame.toNat + n := by
  have hlow : (UInt16.ofNat n).toNat = n := UInt16.toNat_ofNat_of_lt' (show n < 65536 by omega)
  cases endFrame with
  | false => simpa [frameHeader] using hlow
  | true =>
      rw [frameHeader, if_pos rfl, UInt16.toNat_or, hlow, Nat.or_comm]
      exact (Nat.two_pow_add_eq_or_of_lt hn 1).symm

/-- The branch of the legacy function for Opus takes the length of the payload and
the end of the stream apart again. -/
theorem readFrameHeader_written {n read : Nat} (hn : n < 2 ^ 13) (endFrame : Bool)
    (hmem : Holds mem (buffer + read)
      (utilSetVarint (frameHeader n endFrame).toUInt64 ++ rest)) :
    (readFrameHeader buffer legacyUdpOpus read).value mem =
      ⟨n, !endFrame, read + (utilSetVarint (frameHeader n endFrame).toUInt64).length⟩ := by
  have hrun : readFrameHeader buffer legacyUdpOpus read =
      utilGetVarint (buffer + read) read >>= fun r =>
        pure ⟨(r.1.toUInt16 &&& 0x1FFF).toNat, r.1.toUInt16 &&& 0x2000 == 0, r.2⟩ := rfl
  have hvalue := (utilGetVarint_written _ hmem read).1
  have htoNat := frameHeader_toNat hn endFrame
  have hlength : (frameHeader n endFrame &&& 0x1FFF).toNat = n := by
    rw [UInt16.toNat_and, htoNat, show (0x1FFF : UInt16).toNat = 2 ^ 13 - 1 from rfl,
      Nat.and_two_pow_sub_one_eq_mod]
    omega
  have hbit : (frameHeader n endFrame &&& 0x2000).toNat = endFrame.toNat * 2 ^ 13 := by
    rw [UInt16.toNat_and, htoNat, show (0x2000 : UInt16).toNat = 2 ^ 13 from rfl,
      Nat.and_two_pow, Nat.testBit_two_pow_mul_add _ hn]
    cases endFrame <;> rfl
  have hflag : (frameHeader n endFrame &&& 0x2000 == 0) = !endFrame := by
    rw [Bool.eq_iff_iff, beq_iff_eq, ← UInt16.toNat_inj, hbit]
    cases endFrame <;> decide
  rw [hrun, value_bind, hvalue, value_pure]
  simp only [UInt16.toUInt16_toUInt64, hlength, hflag]

end Fields

theorem luaPushNumber_of_lt {n : Nat} (hn : n < 2 ^ 53) : luaPushNumber n = n :=
  roundNearestEven_eq_iff.mpr (representable_of_lt hn)

section Packet

variable {host : Host} {client : MumbleClient} {mem : Memory} {target : UInt8} {session : UInt32}
  {payload : List UInt8}

/-- The legacy function tells of one event, with what the frame header says is the payload. -/
theorem spoken_speakingHooksLegacy {buffer : Nat} {codec : UInt8} {rest : List UInt8}
    (sequence : UInt64) (hmem : Holds mem buffer (utilSetVarint sequence ++ rest)) :
    let header :=
      (readFrameHeader buffer codec (utilSetVarint sequence).length).value mem
    (spoken ((mumbleHandleSpeakingHooksLegacy host client buffer codec target session).log
        mem)).map UserSpeak.spokenFrame =
      [{ codec := codec.toNat
         target := target.toNat
         session := session.toNat
         sequence := luaPushNumber sequence.toNat
         data := bytesAt mem (buffer + header.read) header.payloadLen
         speaking := header.speaking }] := by
  obtain ⟨hsequence, -⟩ := utilGetVarint_written _ hmem 0
  rw [Nat.zero_add] at hsequence
  simp only [mumbleHandleSpeakingHooksLegacy, spoken_bind, hsequence, spoken_utilGetVarint,
    spoken_readFrameHeader, List.nil_append]
  rw [spoken_speakingHooks _ _ _ _ _ _ _ _ (spoken_slice _ _) rfl, value_slice]
  simp only [List.map_cons, List.map_nil, UserSpeak.spokenFrame, UInt8.toNat_toUInt32]
  rw [luaPushNumber_of_lt (codec.toNat_lt.trans (by decide)),
    luaPushNumber_of_lt (target.toNat_lt.trans (by decide))]

theorem voiceHeader_toNat (target : UInt8) :
    ((legacyUdpOpus &&& 0x7) <<< 5 ||| target &&& 0x1F).toNat = 128 + target.toNat % 32 := by
  have hlow : (target &&& 0x1F).toNat = target.toNat % 2 ^ 5 := toNat_and_low target 5 (by decide)
  rw [UInt8.or_comm, toNat_or_mark _ (i := 5) (a := 4) rfl (by omega), hlow]
  rfl

/-- What the callbacks are told of an Opus packet, whatever its target is. -/
theorem spoken_opusVoicePacket (hlegacy : client.legacy = true)
    (hpayload : payload.length < 2 ^ 13) (sequence : UInt64) (endFrame : Bool) (size : Int)
    (udp : Bool) (hmem : Holds mem 0 (opusVoicePacket target session sequence payload endFrame)) :
    (spoken ((mumbleHandleUdpPacket host client size udp).log mem)).map UserSpeak.spokenFrame =
      [{ codec := 4
         target := 0
         session := session.toNat
         sequence := luaPushNumber sequence.toNat
         data := payload
         speaking := !endFrame }] := by
  obtain ⟨hheader, hrest⟩ := (holds_cons _ _ _).mp hmem
  obtain ⟨hsession, hrest⟩ := utilGetVarint_written _ hrest 1
  rw [Nat.zero_add] at hsession hrest
  have htoNat := voiceHeader_toNat target
  generalize (legacyUdpOpus &&& 0x7) <<< 5 ||| target &&& 0x1F = header at hheader htoNat
  have hid : header >>> 5 &&& 0x7 = legacyUdpOpus := by
    rw [← UInt8.toNat_inj, legacyId_toNat, htoNat]
    change _ = 4
    omega
  have hshift : UInt8.ofNat (header.toNat >>> 0x1F) = 0 := by
    rw [Nat.shiftRight_eq_div_pow, Nat.div_eq_of_lt (header.toNat_lt.trans (by decide))]
    rfl
  have hping : legacyUdpOpus ≠ legacyProtoUdpPing := by decide
  simp only [mumbleHandleUdpPacket, spoken_bind, spoken_load, value_load, hheader, hlegacy, hid,
    if_true, true_or, if_neg hping, hshift, hsession, spoken_utilGetVarint, List.nil_append,
    UInt32.toUInt32_toUInt64]
  rw [spoken_speakingHooksLegacy sequence hrest]
  obtain ⟨-, hrest⟩ := (holds_append _ _ _).mp hrest
  rw [readFrameHeader_written hpayload endFrame hrest, ← Nat.add_assoc]
  obtain ⟨-, hdata⟩ := (holds_append _ _ _).mp hrest
  rw [hdata]
  rfl

end Packet

/-- The packet in memory makes the handler call `OnUserSpeak` once, with exactly what
the packet was built of. -/
def DecodedFaithfully (host : Host) (client : MumbleClient) (mem : Memory) (udp : Bool)
    (target : UInt8) (session : UInt32) (sequence : UInt64) (payload : List UInt8)
    (endFrame : Bool) : Prop :=
  let size := (opusVoicePacket target session sequence payload endFrame).length
  (spoken ((mumbleHandleUdpPacket host client size udp).log mem)).map UserSpeak.spokenFrame =
    [{ codec := legacyUdpOpus.toNat
       target := target.toNat
       session := session.toNat
       sequence := sequence.toNat
       data := payload
       speaking := !endFrame }]

/-- For every host, legacy client and Opus packet: the event is faithful exactly when
the target is zero and a double can hold the sequence number. -/
theorem decoded_faithfully_iff (host : Host) (client : MumbleClient)
    (hlegacy : client.legacy = true) (mem : Memory) (udp : Bool) (target : UInt8)
    (session : UInt32) (sequence : UInt64) (payload : List UInt8)
    (hpayload : payload.length < 0x2000) (endFrame : Bool)
    (hmem : Holds mem 0 (opusVoicePacket target session sequence payload endFrame)) :
    DecodedFaithfully host client mem udp target session sequence payload endFrame ↔
      target = 0 ∧ Representable 53 sequence.toNat := by
  rw [DecodedFaithfully, spoken_opusVoicePacket hlegacy hpayload sequence endFrame _ udp hmem,
    ← roundNearestEven_eq_iff, ← UInt8.toNat_inj]
  constructor
  · intro h
    have hframe := List.singleton_inj.mp h
    exact ⟨(congrArg SpokenFrame.target hframe).symm, congrArg SpokenFrame.sequence hframe⟩
  · rintro ⟨htarget, hsequence⟩
    rw [htarget, luaPushNumber, hsequence]
    rfl

/-- A packet to the zero target with a sequence number above 2^53. -/
theorem decoded_faithfully_even :
    ∃ mem, Holds mem 0 (opusVoicePacket 0 5 9007199254740994 [9, 9] true) ∧
      DecodedFaithfully quietHost legacyClient mem true 0 5 9007199254740994 [9, 9] true := by
  obtain ⟨mem, hmem⟩ := exists_holds (opusVoicePacket 0 5 9007199254740994 [9, 9] true)
  have hsequence : Representable 53 (9007199254740994 : UInt64).toNat :=
    ⟨4503599627370497, 1, by decide, by decide⟩
  exact ⟨mem, hmem, (decoded_faithfully_iff quietHost legacyClient rfl mem true 0 5
    9007199254740994 [9, 9] (by decide) true hmem).mpr ⟨rfl, hsequence⟩⟩

/-- A packet to target 1: the event says target 0. -/
theorem target_shifted_away :
    ¬ ∀ (host : Host) (client : MumbleClient) (mem : Memory) (udp : Bool) (target : UInt8)
      (session : UInt32) (sequence : UInt64) (payload : List UInt8) (endFrame : Bool),
      client.legacy = true → target.toNat < 32 → session.toNat < 2 ^ 31 →
      1 ≤ payload.length ∧ payload.length < 0x2000 →
      Holds mem 0 (opusVoicePacket target session sequence payload endFrame) →
      DecodedFaithfully host client mem udp target session sequence payload endFrame := by
  intro h
  obtain ⟨mem, hmem⟩ := exists_holds (opusVoicePacket 1 5 7 [9] false)
  have hdecoded := h quietHost legacyClient mem true 1 5 7 [9] false rfl (by decide) (by decide)
    (by decide) hmem
  rw [DecodedFaithfully, spoken_opusVoicePacket rfl (by decide) 7 false _ true hmem] at hdecoded
  have htarget : 0 = 1 := congrArg SpokenFrame.target (List.singleton_inj.mp hdecoded)
  exact absurd htarget (by decide)

end LuaMumble.Voice
