import LuaMumble.Lib.LocalArray
import LuaMumble.Voice.Decoding

/-!
The builder of the legacy voice packets, `voicepacket_init` to `voicepacket_getlength`. A packet
is laid out from the front to the back: its header and the sequence number, the header of the
frame, and the payload. The array that it is built in is as long as the stores need it to be.
-/

namespace LuaMumble.Transmit

open Lib Lib.TracedRead Voice

structure VoicePacket where
  buffer : LocalArray
  length : Nat
  headerLength : Nat

def voicepacketInit (buffer : LocalArray) : VoicePacket := ⟨buffer, 0, 0⟩

/-- The first byte of a packet. -/
def packetHeader (type target : UInt8) : UInt8 := (type &&& 0x7) <<< 5 ||| target &&& 0x1F

def voicepacketSetheader (packet : VoicePacket) (type target : UInt8) (sequence : UInt32) :
    Int × VoicePacket :=
  if packet.length > 0 then (-2, packet)
  else
    let buffer := packet.buffer.store 0 [packetHeader type target]
    let varint := utilSetVarint sequence.toUInt64
    (1, ⟨buffer.store 1 varint, 1 + varint.length, 1 + varint.length⟩)

/-- The bytes of a frame header; none for an unknown type. -/
def frameHeaderBytes (type : UInt8) (frameHeader : UInt16) : List UInt8 :=
  if type = legacyUdpOpus then utilSetVarint frameHeader.toUInt64
  else if type = legacyUdpSpeex ∨ type = legacyUdpCeltAlpha ∨ type = legacyUdpCeltBeta then
    [frameHeader.toUInt8]
  else []

def voicepacketSetframe (packet : VoicePacket) (type : UInt8) (frameHeader : UInt16)
    (buffer : List UInt8) : Int × VoicePacket :=
  if buffer.length = 0 ∨ buffer.length ≥ 0x2000 then (-1, packet)
  else if packet.headerLength = 0 then (-2, packet)
  else
    let header := frameHeaderBytes type frameHeader
    let offset := header.length
    if offset = 0 then (-3, packet)
    else
      let stored := packet.buffer.store packet.headerLength header
      (1, { packet with
        buffer := stored.store (packet.headerLength + offset) buffer
        length := packet.headerLength + buffer.length + offset })

def voicepacketGetlength (packet : VoicePacket) : Nat := packet.length

/-- The calls that make a packet, in an array that holds anything before. What they return is
not looked at. -/
def makePacket (memory : Memory) (type target : UInt8) (sequence : UInt32) (frameHeader : UInt16)
    (payload : List UInt8) : VoicePacket :=
  let packet := voicepacketInit (.fresh memory)
  let (_, packet) := voicepacketSetheader packet type target sequence
  let (_, packet) := voicepacketSetframe packet type frameHeader payload
  packet

/-- The bytes in front of a frame. -/
def headerBytes (type target : UInt8) (sequence : UInt32) : List UInt8 :=
  packetHeader type target :: utilSetVarint sequence.toUInt64

section Build

variable {memory : Memory} {type target : UInt8} {sequence : UInt32} {frameHeader : UInt16}
  {payload : List UInt8}

theorem frameHeaderBytes_opus (frameHeader : UInt16) :
    frameHeaderBytes legacyUdpOpus frameHeader = utilSetVarint frameHeader.toUInt64 :=
  if_pos rfl

theorem frameHeaderBytes_opus_ne_nil (frameHeader : UInt16) :
    frameHeaderBytes legacyUdpOpus frameHeader ≠ [] := by
  obtain ⟨v, rest, hbytes, -⟩ := utilSetVarint_spec frameHeader.toUInt64
  rw [frameHeaderBytes_opus, hbytes]
  exact List.cons_ne_nil v rest

/-- Once its header is set, a packet consists of it. -/
theorem voicepacketSetheader_init (memory : Memory) (type target : UInt8) (sequence : UInt32) :
    ∃ packet,
      voicepacketSetheader (voicepacketInit (.fresh memory)) type target sequence = (1, packet) ∧
      packet.length = (headerBytes type target sequence).length ∧
      packet.headerLength = (headerBytes type target sequence).length ∧
      packet.buffer.extent = (headerBytes type target sequence).length ∧
      Holds packet.buffer.memory 0 (headerBytes type target sequence) := by
  have hlength : (headerBytes type target sequence).length =
      1 + (utilSetVarint sequence.toUInt64).length := by
    rw [headerBytes, List.length_cons, Nat.add_comm]
  refine ⟨_, if_neg (Nat.not_lt_zero 0), hlength.symm, hlength.symm, ?_, ?_⟩
  · rw [hlength]
    apply LocalArray.extent_store
    exact Nat.le_refl 1
  · change Holds _ 0 ([packetHeader type target] ++ utilSetVarint sequence.toUInt64)
    exact LocalArray.holds_store_append LocalArray.holds_store rfl

/-- A payload that is refused leaves the packet at its header. -/
theorem makePacket_refused (hpayload : payload.length = 0 ∨ 0x2000 ≤ payload.length) :
    (makePacket memory type target sequence frameHeader payload).length =
        (headerBytes type target sequence).length ∧
      (makePacket memory type target sequence frameHeader payload).buffer.extent =
        (headerBytes type target sequence).length ∧
      Holds (makePacket memory type target sequence frameHeader payload).buffer.memory 0
        (headerBytes type target sequence) := by
  obtain ⟨packet, hheader, hlength, -, hextent, hholds⟩ :=
    voicepacketSetheader_init memory type target sequence
  have hframe : voicepacketSetframe packet type frameHeader payload = (-1, packet) :=
    if_pos hpayload
  simp only [makePacket, hheader, hframe]
  exact ⟨hlength, hextent, hholds⟩

/-- The bytes of a packet. -/
def voicePacketBytes (type target : UInt8) (sequence : UInt32) (frameHeader : UInt16)
    (payload : List UInt8) : List UInt8 :=
  headerBytes type target sequence ++ (frameHeaderBytes type frameHeader ++ payload)

/-- Otherwise the packet is laid out as a whole. -/
theorem makePacket_spec (hpayload : 0 < payload.length ∧ payload.length < 0x2000)
    (hframe : frameHeaderBytes type frameHeader ≠ []) :
    let packet := makePacket memory type target sequence frameHeader payload
    let bytes := voicePacketBytes type target sequence frameHeader payload
    packet.length = bytes.length ∧ packet.buffer.extent = bytes.length ∧
      Holds packet.buffer.memory 0 bytes := by
  obtain ⟨packet, hheader, -, hlength, hextent, hholds⟩ :=
    voicepacketSetheader_init memory type target sequence
  have hpositive : (headerBytes type target sequence).length ≠ 0 := by
    rw [headerBytes, List.length_cons]
    exact Nat.succ_ne_zero _
  have hset : voicepacketSetframe packet type frameHeader payload =
      (1, { packet with
        buffer := (packet.buffer.store packet.headerLength
          (frameHeaderBytes type frameHeader)).store
            (packet.headerLength + (frameHeaderBytes type frameHeader).length) payload
        length := packet.headerLength + payload.length +
          (frameHeaderBytes type frameHeader).length }) := by
    rw [voicepacketSetframe, if_neg (by omega), hlength, if_neg hpositive]
    exact if_neg fun hempty => hframe (List.length_eq_zero_iff.mp hempty)
  simp only [makePacket, hheader, hset, voicePacketBytes, List.length_append, hlength]
  refine ⟨by omega, ?_, ?_⟩
  · rw [LocalArray.extent_store, Nat.add_assoc]
    rw [LocalArray.extent_store (Nat.le_of_eq hextent)]
  · rw [← List.append_assoc]
    apply LocalArray.holds_store_append
    · apply LocalArray.holds_store_append hholds
      exact Nat.zero_add _
    · rw [List.length_append, Nat.zero_add]

end Build

section Opus

variable {host : Host} {client : MumbleClient} {mem : Memory} {target : UInt8} {session : UInt32}
  {sequence : UInt32}

theorem luaPushNumber_sequence (sequence : UInt32) :
    luaPushNumber sequence.toUInt64.toNat = sequence.toNat := by
  rw [UInt32.toNat_toUInt64]
  exact luaPushNumber_of_lt (sequence.toNat_lt.trans (by decide))

/-- The parts of a packet in memory. -/
theorem holds_packet {type : UInt8} {frameHeader : UInt16} {payload : List UInt8}
    (hmem : Holds mem 0 (voicePacketBytes type target sequence frameHeader payload)) :
    mem 0 = packetHeader type target ∧
      Holds mem 1 (utilSetVarint sequence.toUInt64 ++
        (frameHeaderBytes type frameHeader ++ payload)) := by
  rw [voicePacketBytes, headerBytes, List.cons_append, holds_cons] at hmem
  exact hmem

/-- A packet in memory that is read as one of `type`, whatever stands behind it. -/
theorem spoken_voicePacketBytes {type : UInt8} {frameHeader : UInt16} {payload : List UInt8}
    (hmem : Holds mem 0 (voicePacketBytes type target sequence frameHeader payload))
    (told : UInt8) :
    let header :=
      (readFrameHeader 1 type (utilSetVarint sequence.toUInt64).length).value mem
    (spoken ((mumbleHandleSpeakingHooksLegacy host client 1 type told session).log
        mem)).map UserSpeak.spokenFrame =
      [{ codec := type.toNat
         target := told.toNat
         session := session.toNat
         sequence := sequence.toNat
         data := bytesAt mem (1 + header.read) header.payloadLen
         speaking := header.speaking }] := by
  intro header
  rw [spoken_speakingHooksLegacy _ (holds_packet hmem).2, luaPushNumber_sequence]

/-- Behind the sequence number stand the frame header and the payload. -/
theorem holds_frame {type : UInt8} {frameHeader : UInt16} {payload : List UInt8}
    (hmem : Holds mem 0 (voicePacketBytes type target sequence frameHeader payload)) :
    Holds mem (1 + (utilSetVarint sequence.toUInt64).length)
        (frameHeaderBytes type frameHeader ++ payload) ∧
      Holds mem (1 + (utilSetVarint sequence.toUInt64).length +
        (frameHeaderBytes type frameHeader).length) payload := by
  obtain ⟨-, hframe⟩ := (holds_append _ _ _).mp (holds_packet hmem).2
  exact ⟨hframe, ((holds_append _ _ _).mp hframe).2⟩

/-- An Opus packet is read as what it was made of. -/
theorem spoken_opusPacketBytes {payload : List UInt8} (hpayload : payload.length < 0x2000)
    (endFrame : Bool)
    (hmem : Holds mem 0 (voicePacketBytes legacyUdpOpus target sequence
      (frameHeader payload.length endFrame) payload)) (told : UInt8) :
    (spoken ((mumbleHandleSpeakingHooksLegacy host client 1 legacyUdpOpus told session).log
        mem)).map UserSpeak.spokenFrame =
      [{ codec := legacyUdpOpus.toNat
         target := told.toNat
         session := session.toNat
         sequence := sequence.toNat
         data := payload
         speaking := !endFrame }] := by
  obtain ⟨hframe, hdata⟩ := holds_frame hmem
  rw [frameHeaderBytes_opus] at hframe hdata
  rw [spoken_voicePacketBytes hmem, readFrameHeader_written hpayload endFrame hframe]
  rw [← Nat.add_assoc, hdata]

end Opus

/-- For all targets, sequence numbers and payloads of 1 to 8191 bytes, at the end of the stream
or not: the packet of `send_legacy_audio` has the length of its parts, and reading it from the
second byte on tells of the sequence number, the payload and the end of the stream. -/
theorem opus_packet_round_trip (host : Host) (client : MumbleClient) (memory : Memory)
    (target : UInt8) (session sequence : UInt32) (payload : List UInt8)
    (hpayload : 1 ≤ payload.length ∧ payload.length ≤ 8191) (endFrame : Bool) :
    let header := frameHeader payload.length endFrame
    let packet := makePacket memory legacyUdpOpus target sequence header payload
    voicepacketGetlength packet =
        1 + (utilSetVarint sequence.toUInt64).length + (utilSetVarint header.toUInt64).length +
          payload.length ∧
      (spoken ((mumbleHandleSpeakingHooksLegacy host client 1 legacyUdpOpus target session).log
          packet.buffer.memory)).map UserSpeak.spokenFrame =
        [{ codec := legacyUdpOpus.toNat
           target := target.toNat
           session := session.toNat
           sequence := sequence.toNat
           data := payload
           speaking := !endFrame }] := by
  intro header packet
  have hne : frameHeaderBytes legacyUdpOpus header ≠ [] := frameHeaderBytes_opus_ne_nil header
  obtain ⟨hlength, -, hholds⟩ : packet.length = _ ∧ _ ∧ _ :=
    makePacket_spec ⟨hpayload.1, by omega⟩ hne
  constructor
  · rw [voicepacketGetlength, hlength, voicePacketBytes, headerBytes]
    simp only [List.length_append, List.length_cons, frameHeaderBytes_opus]
    omega
  · exact spoken_opusPacketBytes (by omega) endFrame hholds target

theorem opus_packet_round_trip_end :
    let packet := makePacket (fun _ => 9) legacyUdpOpus 31 300 (frameHeader 3 true) [1, 2, 3]
    voicepacketGetlength packet = 8 ∧
      (spoken ((mumbleHandleSpeakingHooksLegacy quietHost legacyClient 1 legacyUdpOpus 31 5).log
          packet.buffer.memory)).map UserSpeak.spokenFrame = [⟨4, 31, 5, 300, [1, 2, 3], false⟩] :=
  opus_packet_round_trip quietHost legacyClient (fun _ => 9) 31 5 300 [1, 2, 3] (by decide) true

end LuaMumble.Transmit
