import LuaMumble.Transmit.LegacyRoundTrip

/-!
Which Opus payloads `client:transmit` sends whole and inside of its array. What the packet
builder returns is not looked at: a payload that it refuses leaves a packet without a frame,
which is sent. Neither mode compares the size of the packet with that of the array.
-/

namespace LuaMumble.Transmit

open Lib Lib.TracedRead Voice

/-- What a receiver outside of legacy mode is told of a packet. -/
def heardProtobuf (host : Host) (client : MumbleClient) (mem : Memory) (size : Int) (udp : Bool) :
    List VoiceFrame :=
  ((spoken ((mumbleHandleUdpPacket host client size udp).log mem)).map
    UserSpeak.spokenFrame).map voiceFrame

/-- A packet tells every receiver that unpacks what was packed of this frame, once. -/
def DecodesProtobuf (packer : AudioPacker) (message : List UInt8) (frame : VoiceFrame) : Prop :=
  ∀ host client mem udp, Unpacks host packer → client.legacy = false → Holds mem 0 message →
    heardProtobuf host client mem message.length udp = [frame]

/-- What is asked of a call: that it raises an error, or stores inside of its array and sends
nothing, or one packet that tells of the frame. -/
def BoundedAndFaithful (packer : AudioPacker) (legacy : Bool)
    (result : Except String Transmission) (frame : VoiceFrame) : Prop :=
  match result with
  | .error _ => True
  | .ok transmission =>
      transmission.packetBuffer.extent ≤ payloadSizeMax ∧
        (transmission.sent = [] ∨ ∃ sending, transmission.sent = [sending] ∧
          if legacy then DecodesLegacy sending.message frame
          else DecodesProtobuf packer sending.message frame)

/-- The payload is one that the builder takes, and the packet is no longer than the array. -/
def OpusFits (client : TransmittingClient) (output : List UInt8) (speaking : Bool) : Prop :=
  if client.legacy then
    1 ≤ output.length ∧ output.length < 0x2000 ∧
      1 + (utilSetVarint client.audioSequence.toUInt64).length +
        (utilSetVarint (transmitFrameHeader legacyUdpOpus output.length speaking).toUInt64).length +
        output.length ≤ payloadSizeMax
  else 1 + packedSize (transmittedAudio client output speaking) ≤ payloadSizeMax

section Legacy

variable {client : TransmittingClient} {output : List UInt8} {speaking : Bool} {mem : Memory}
  {target : UInt8} {sequence : UInt32}

/-- Both senders set bit 13 at the end of a stream. -/
theorem transmitFrameHeader_opus (outputlen : Nat) (speaking : Bool) :
    transmitFrameHeader legacyUdpOpus outputlen speaking = frameHeader outputlen !speaking := by
  cases speaking with
  | false =>
      rw [transmitFrameHeader, if_pos ⟨rfl, Bool.false_ne_true⟩, Nat.or_comm]
      exact UInt16.ofNat_or _ _
  | true => rfl

theorem heardLegacy_opus (host : Host) (receiver : MumbleClient) (told : UInt8)
    (session : UInt32) {payload : List UInt8} (hpayload : payload.length < 0x2000)
    (endFrame : Bool) (hmem : Holds mem 0 (voicePacketBytes legacyUdpOpus target sequence
      (frameHeader payload.length endFrame) payload)) :
    heardLegacy host receiver mem told session =
      [⟨sequence.toNat, payload, !endFrame⟩] := by
  rw [heardLegacy, (holds_packet hmem).1, packetHeader_id (by decide),
    spoken_opusPacketBytes hpayload endFrame hmem]
  rfl

/-- A packet without a frame tells of no frame: what follows it may be any. -/
theorem not_decodesLegacy_header {frame : VoiceFrame} (hframe : frame.data.length ≠ 1) :
    ¬ DecodesLegacy (headerBytes legacyUdpOpus target sequence) frame := by
  intro hdecodes
  let payload : List UInt8 := [9]
  obtain ⟨mem, hmem⟩ := exists_holds (voicePacketBytes legacyUdpOpus target sequence
    (frameHeader payload.length false) payload)
  have hheader : Holds mem 0 (headerBytes legacyUdpOpus target sequence) :=
    ((holds_append _ _ _).mp hmem).1
  have hheard := hdecodes quietHost legacyClient mem 0 0 hheader
  rw [heardLegacy_opus quietHost legacyClient 0 0 (by decide) false hmem] at hheard
  have hdata := congrArg (fun frame => frame.data.length) (List.singleton_inj.mp hheard)
  exact hframe hdata.symm

end Legacy

section Protobuf

variable {packer : AudioPacker} {client : TransmittingClient} {output : List UInt8}
  {speaking : Bool}

theorem bytesAt_pointer (mem : Memory) (buffer start length : Nat) :
    bytesAt (fun i => mem (buffer + i)) start length = bytesAt mem (buffer + start) length := by
  induction length generalizing start with
  | zero => rfl
  | succ length ih => exact congrArg (mem (buffer + start) :: ·) (ih (start + 1))

/-- What was packed tells of the frame. -/
theorem decodesProtobuf_pack :
    DecodesProtobuf packer (protoUdpAudio :: packer.pack (transmittedAudio client output speaking))
      ⟨client.audioSequence.toNat, output, speaking⟩ := by
  intro host receiver mem udp hunpacks hlegacy hmem
  obtain ⟨hfirst, hpacked⟩ := (holds_cons _ _ _).mp hmem
  obtain ⟨received, hunpack, hnumber, hdata, hterminator⟩ :=
    packer.unpack_pack (transmittedAudio client output speaking)
  generalize packer.pack (transmittedAudio client output speaking) = packed at *
  have hreceived : host.audioUnpack (((protoUdpAudio :: packed).length : Int) - 1)
      (fun i => mem (1 + i)) = some received := by
    have hlength : (((protoUdpAudio :: packed).length : Int) - 1).toNat = packed.length := by
      simp
    rw [hunpacks, hlength, bytesAt_pointer]
    exact (congrArg packer.unpack hpacked).trans hunpack
  have hspoken : spoken ((mumbleHandleUdpPacket host receiver (protoUdpAudio :: packed).length
      udp).log mem) =
      spoken ((mumbleHandleSpeakingHooksProtobuf host receiver received
        received.senderSession).log mem) := by
    simp only [mumbleHandleUdpPacket, spoken_bind, spoken_load, value_load, hfirst, hlegacy,
      Bool.false_eq_true, if_false, spoken_pointer, value_pointer, if_true, spoken_emit,
      hreceived, List.nil_append]
    rfl
  rw [heardProtobuf, hspoken, mumbleHandleSpeakingHooksProtobuf,
    spoken_speakingHooks _ _ _ _ _ _ _ _ (spoken_pure _) (spoken_pure _)]
  simp only [List.map_cons, List.map_nil, UserSpeak.spokenFrame, voiceFrame, value_pure, hnumber,
    hdata, hterminator, transmittedAudio, luaPushNumber_sequence, Bool.not_not]

/-- Outside of legacy mode what was packed is sent behind the first byte. -/
theorem clientTransmit_protobuf (host : Host) (memory : Memory) (ar : LuaDebug) (codec : UInt8)
    (hconnected : client.connected = true) (hlegacy : client.legacy = false) :
    ∃ transmission sending,
      clientTransmit host packer memory ar client codec output speaking = .ok transmission ∧
      transmission.packetBuffer.extent =
        1 + packedSize (transmittedAudio client output speaking) ∧
      transmission.sent = [sending] ∧
      sending.message = protoUdpAudio :: packer.pack (transmittedAudio client output speaking) := by
  let audio := transmittedAudio client output speaking
  let first := (LocalArray.fresh memory).store 0 [protoUdpAudio]
  let buffer := first.store 1 (packer.pack audio)
  have hcheck : mumbleClientConnected ar client = .ok () := if_pos hconnected
  have hcall : clientTransmit host packer memory ar client codec output speaking =
      .ok (client.send buffer (mumbleHandleSpeakingHooksProtobuf host client.toMumbleClient audio
        client.session) (1 + (packer.pack audio).length)) := by
    rw [clientTransmit, hcheck]
    exact if_neg (ne_true_of_eq_false hlegacy)
  refine ⟨_, _, hcall, ?_, rfl, ?_⟩
  · rw [← packer.length_pack]
    exact LocalArray.extent_store (Nat.le_refl 1)
  · have hholds : Holds buffer.memory 0 ([protoUdpAudio] ++ packer.pack audio) :=
      LocalArray.holds_store_append LocalArray.holds_store rfl
    rw [Holds, List.length_append] at hholds
    split <;> exact hholds

end Protobuf

section Cases

variable {packer : AudioPacker} {client : TransmittingClient} {output : List UInt8}
  {speaking : Bool} {frame : VoiceFrame}

/-- What a call that sends is asked for. -/
theorem boundedAndFaithful_iff {legacy : Bool} {result : Except String Transmission}
    {transmission : Transmission} {sending : Sending} (hresult : result = .ok transmission)
    (hsent : transmission.sent = [sending]) :
    BoundedAndFaithful packer legacy result frame ↔
      transmission.packetBuffer.extent ≤ payloadSizeMax ∧
        if legacy then DecodesLegacy sending.message frame
        else DecodesProtobuf packer sending.message frame := by
  rw [hresult, BoundedAndFaithful, hsent]
  apply and_congr_right
  intro _
  constructor
  · rintro (hnil | ⟨other, hother, hdecodes⟩)
    · cases hnil
    · rw [List.singleton_inj.mp hother]
      exact hdecodes
  · intro hdecodes
    exact Or.inr ⟨sending, rfl, hdecodes⟩

theorem boundedAndFaithful_legacy_iff (host : Host) (memory : Memory) (ar : LuaDebug)
    (hconnected : client.connected = true) (hlegacy : client.legacy = true) :
    BoundedAndFaithful packer true
        (clientTransmit host packer memory ar client legacyUdpOpus output speaking)
        ⟨client.audioSequence.toNat, output, speaking⟩ ↔
      1 ≤ output.length ∧ output.length < 0x2000 ∧
        1 + (utilSetVarint client.audioSequence.toUInt64).length +
          (utilSetVarint
            (transmitFrameHeader legacyUdpOpus output.length speaking).toUInt64).length +
          output.length ≤ payloadSizeMax := by
  obtain ⟨transmission, sending, hcall, hbuffer, hsent, hmessage⟩ :=
    clientTransmit_legacy host packer memory ar legacyUdpOpus output speaking hconnected hlegacy
  rw [boundedAndFaithful_iff hcall hsent, hbuffer, hmessage, if_pos rfl]
  by_cases haccepted : 1 ≤ output.length ∧ output.length < 0x2000
  · obtain ⟨hlength, hextent, hholds⟩ := makePacket_spec haccepted
      (frameHeaderBytes_opus_ne_nil
        (transmitFrameHeader legacyUdpOpus output.length speaking))
    rw [hlength, hholds, hextent]
    have hdecodes : DecodesLegacy
        (voicePacketBytes legacyUdpOpus client.audioTarget client.audioSequence
          (transmitFrameHeader legacyUdpOpus output.length speaking) output)
        ⟨client.audioSequence.toNat, output, speaking⟩ := by
      intro decoder receiver mem target session hmem
      rw [transmitFrameHeader_opus] at hmem
      rw [heardLegacy_opus decoder receiver target session haccepted.2 _ hmem, Bool.not_not]
    have hparts : (voicePacketBytes legacyUdpOpus client.audioTarget client.audioSequence
        (transmitFrameHeader legacyUdpOpus output.length speaking) output).length =
        1 + (utilSetVarint client.audioSequence.toUInt64).length +
          (utilSetVarint
            (transmitFrameHeader legacyUdpOpus output.length speaking).toUInt64).length +
          output.length := by
      rw [voicePacketBytes, headerBytes, frameHeaderBytes_opus]
      simp only [List.length_append, List.length_cons]
      omega
    rw [hparts]
    exact ⟨fun h => ⟨haccepted.1, haccepted.2, h.1⟩, fun h => ⟨h.2.2, hdecodes⟩⟩
  · have hrefused : output.length = 0 ∨ 0x2000 ≤ output.length := by omega
    obtain ⟨hlength, -, hholds⟩ := makePacket_refused hrefused
    rw [hlength, hholds]
    apply iff_of_false
    · rintro ⟨-, hdecodes⟩
      refine not_decodesLegacy_header ?_ hdecodes
      dsimp only
      omega
    · intro h
      exact haccepted ⟨h.1, h.2.1⟩

theorem boundedAndFaithful_protobuf_iff (host : Host) (memory : Memory) (ar : LuaDebug)
    (codec : UInt8) (hconnected : client.connected = true) (hlegacy : client.legacy = false) :
    BoundedAndFaithful packer false
        (clientTransmit host packer memory ar client codec output speaking)
        ⟨client.audioSequence.toNat, output, speaking⟩ ↔
      1 + packedSize (transmittedAudio client output speaking) ≤ payloadSizeMax := by
  obtain ⟨transmission, sending, hcall, hextent, hsent, hmessage⟩ :=
    clientTransmit_protobuf host memory ar codec hconnected hlegacy
  rw [boundedAndFaithful_iff hcall hsent, hextent, hmessage, if_neg Bool.false_ne_true]
  exact and_iff_left decodesProtobuf_pack

end Cases

end LuaMumble.Transmit
