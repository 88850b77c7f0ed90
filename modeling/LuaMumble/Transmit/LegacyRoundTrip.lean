import LuaMumble.Transmit.ClientTransmit

/-!
What the receiver of a packet of `client:transmit` is told in legacy mode, and the frame headers
of Speex and CELT, which are a single byte.
-/

namespace LuaMumble.Transmit

open Lib Lib.TracedRead Voice

/-- The call sends one packet, which tells of the frame. -/
def RoundTrips (result : Except String Transmission) (frame : VoiceFrame) : Prop :=
  ∃ transmission sending, result = .ok transmission ∧ transmission.sent = [sending] ∧
    DecodesLegacy sending.message frame

section Packet

variable {mem : Memory} {type target : UInt8} {sequence : UInt32} {frameHeader : UInt16}
  {payload : List UInt8}

/-- The first byte tells the type. -/
theorem packetHeader_id (htype : type.toNat < 8) (target : UInt8) :
    (packetHeader type target >>> 5) &&& 0x7 = type := by
  have hlow : (target &&& 0x1F).toNat = target.toNat % 2 ^ 5 := toNat_and_low target 5 (by decide)
  have hmark : ((type &&& 0x7) <<< 5).toNat = 2 ^ 5 * type.toNat := by
    have hmask : (type &&& 0x7).toNat = type.toNat % 2 ^ 3 := toNat_and_low type 3 (by decide)
    rw [UInt8.toNat_shiftLeft, hmask, Nat.shiftLeft_eq]
    change type.toNat % 2 ^ 3 * 2 ^ 5 % 2 ^ 8 = _
    omega
  rw [← UInt8.toNat_inj, legacyId_toNat, packetHeader, UInt8.or_comm,
    toNat_or_mark _ hmark (by omega), hlow]
  omega

/-- The receiver is told what the frame header says is the payload. -/
theorem heardLegacy_of_holds (host : Host) (client : MumbleClient) (told : UInt8)
    (session : UInt32) (htype : type.toNat < 8)
    (hmem : Holds mem 0 (voicePacketBytes type target sequence frameHeader payload)) :
    let header := (readFrameHeader 1 type (utilSetVarint sequence.toUInt64).length).value mem
    heardLegacy host client mem told session =
      [⟨sequence.toNat, bytesAt mem (1 + header.read) header.payloadLen, header.speaking⟩] := by
  intro header
  rw [heardLegacy, (holds_packet hmem).1, packetHeader_id htype, spoken_voicePacketBytes hmem]
  rfl

end Packet

section Call

variable {client : TransmittingClient}

/-- In legacy mode the packet that the builder made is sent. -/
theorem clientTransmit_legacy (host : Host) (packer : AudioPacker) (memory : Memory)
    (ar : LuaDebug) (codec : UInt8) (output : List UInt8) (speaking : Bool)
    (hconnected : client.connected = true) (hlegacy : client.legacy = true) :
    let packet := makePacket memory codec client.audioTarget client.audioSequence
      (transmitFrameHeader codec output.length speaking) output
    ∃ transmission sending,
      clientTransmit host packer memory ar client codec output speaking = .ok transmission ∧
      transmission.packetBuffer = packet.buffer ∧ transmission.sent = [sending] ∧
      sending.message = bytesAt packet.buffer.memory 0 packet.length := by
  intro packet
  have hcheck : mumbleClientConnected ar client = .ok () := if_pos hconnected
  have hcall : clientTransmit host packer memory ar client codec output speaking =
      .ok (client.send packet.buffer (mumbleHandleSpeakingHooksLegacy host client.toMumbleClient 1
        codec client.audioTarget client.session) packet.length) := by
    rw [clientTransmit, hcheck]
    exact if_pos hlegacy
  refine ⟨_, _, hcall, rfl, rfl, ?_⟩
  split <;> rfl

theorem roundTrips_iff {result : Except String Transmission} {transmission : Transmission}
    {sending : Sending} {frame : VoiceFrame} (hresult : result = .ok transmission)
    (hsent : transmission.sent = [sending]) :
    RoundTrips result frame ↔ DecodesLegacy sending.message frame := by
  constructor
  · rintro ⟨transmission', sending', hresult', hsent', hdecodes⟩
    obtain rfl := Except.ok.inj (hresult.symm.trans hresult')
    obtain rfl := List.singleton_inj.mp (hsent.symm.trans hsent')
    exact hdecodes
  · intro hdecodes
    exact ⟨transmission, sending, hresult, hsent, hdecodes⟩

/-- A payload that the builder takes is sent behind its headers. -/
theorem roundTrips_legacy_iff (host : Host) (packer : AudioPacker) (memory : Memory)
    (ar : LuaDebug) {codec : UInt8} {output : List UInt8} {speaking : Bool} {frame : VoiceFrame}
    (hconnected : client.connected = true) (hlegacy : client.legacy = true)
    (houtput : 0 < output.length ∧ output.length < 0x2000)
    (hframe : frameHeaderBytes codec (transmitFrameHeader codec output.length speaking) ≠ []) :
    RoundTrips (clientTransmit host packer memory ar client codec output speaking) frame ↔
      DecodesLegacy (voicePacketBytes codec client.audioTarget client.audioSequence
        (transmitFrameHeader codec output.length speaking) output) frame := by
  obtain ⟨transmission, sending, hcall, -, hsent, hmessage⟩ :=
    clientTransmit_legacy host packer memory ar codec output speaking hconnected hlegacy
  obtain ⟨hlength, -, hholds⟩ := makePacket_spec houtput hframe
  rw [roundTrips_iff hcall hsent, hmessage, hlength, hholds]

end Call

section FrameByte

variable {mem : Memory} {codec : UInt8} {buffer read n : Nat} {b : UInt8} {rest : List UInt8}

theorem ne_opus_of_byte
    (hcodec : codec = legacyUdpSpeex ∨ codec = legacyUdpCeltAlpha ∨ codec = legacyUdpCeltBeta) :
    codec ≠ legacyUdpOpus := by
  rcases hcodec with rfl | rfl | rfl <;> decide

theorem readFrameHeader_byte
    (hcodec : codec = legacyUdpSpeex ∨ codec = legacyUdpCeltAlpha ∨ codec = legacyUdpCeltBeta)
    (hmem : Holds mem (buffer + read) (b :: rest)) :
    (readFrameHeader buffer codec read).value mem =
      ⟨(b &&& 0x7F).toNat, b &&& 0x80 == 0, read + 1⟩ := by
  have hb : mem (buffer + read) = b := ((holds_cons _ _ _).mp hmem).1
  rw [readFrameHeader, if_pos hcodec, value_bind, value_load, hb, value_pure]

/-- The bits of the byte: none of those below 128 is the highest. -/
private theorem frameByte_bits : ∀ n : Fin 128,
    ((UInt16.ofNat n).toUInt8 &&& 0x7F).toNat = n ∧
      ((UInt16.ofNat n).toUInt8 &&& 0x80 == 0) = true ∧ 1 ||| n.val < 128 ∧
      (1 ||| n.val = n.val ↔ n.val % 2 = 1) := by
  decide +kernel

/-- The length that the byte announces is that of the payload, with the lowest bit set while
the stream goes on; and it always says that the stream goes on. -/
theorem transmitFrameHeader_byte
    (hcodec : codec = legacyUdpSpeex ∨ codec = legacyUdpCeltAlpha ∨ codec = legacyUdpCeltBeta)
    (hn : n < 128) (speaking : Bool) :
    ((transmitFrameHeader codec n speaking).toUInt8 &&& 0x7F).toNat =
        (if speaking then 1 ||| n else n) ∧
      ((transmitFrameHeader codec n speaking).toUInt8 &&& 0x80 == 0) = true := by
  rw [transmitFrameHeader, if_neg fun h => ne_opus_of_byte hcodec h.1]
  cases speaking with
  | false =>
      rw [if_neg fun h => Bool.false_ne_true h.2]
      obtain ⟨hlow, hhigh, -⟩ := frameByte_bits ⟨n, hn⟩
      exact ⟨hlow, hhigh⟩
  | true =>
      rw [if_pos ⟨hcodec, rfl⟩]
      obtain ⟨-, -, hlt, -⟩ := frameByte_bits ⟨n, hn⟩
      obtain ⟨hlow, hhigh, -⟩ := frameByte_bits ⟨1 ||| n, hlt⟩
      exact ⟨hlow, hhigh⟩

theorem one_or_eq_iff (hn : n < 128) : 1 ||| n = n ↔ n % 2 = 1 :=
  (frameByte_bits ⟨n, hn⟩).2.2.2

end FrameByte

section Byte

variable {host : Host} {packer : AudioPacker} {memory : Memory} {ar : LuaDebug}
  {client : TransmittingClient} {codec : UInt8} {output : List UInt8} {speaking : Bool}

theorem frameHeaderBytes_byte
    (hcodec : codec = legacyUdpSpeex ∨ codec = legacyUdpCeltAlpha ∨ codec = legacyUdpCeltBeta)
    (frameHeader : UInt16) : frameHeaderBytes codec frameHeader = [frameHeader.toUInt8] := by
  rw [frameHeaderBytes, if_neg (ne_opus_of_byte hcodec), if_pos hcodec]

/-- What a receiver is told of a packet with a byte for its frame header. -/
theorem heardLegacy_byte {mem : Memory} {target : UInt8} {sequence : UInt32} (decoder : Host)
    (receiver : MumbleClient) (told : UInt8) (session : UInt32)
    (hcodec : codec = legacyUdpSpeex ∨ codec = legacyUdpCeltAlpha ∨ codec = legacyUdpCeltBeta)
    (houtput : output.length < 128)
    (hmem : Holds mem 0 (voicePacketBytes codec target sequence
      (transmitFrameHeader codec output.length speaking) output)) :
    let size := if speaking then 1 ||| output.length else output.length
    let start := 1 + (utilSetVarint sequence.toUInt64).length + 1
    heardLegacy decoder receiver mem told session =
        [⟨sequence.toNat, bytesAt mem start size, true⟩] ∧ Holds mem start output := by
  have htype : codec.toNat < 8 := by
    rcases hcodec with rfl | rfl | rfl <;> decide
  obtain ⟨hframe, hdata⟩ := holds_frame hmem
  rw [frameHeaderBytes_byte hcodec] at hframe hdata
  obtain ⟨hsize, hflag⟩ := transmitFrameHeader_byte hcodec houtput speaking
  refine ⟨?_, hdata⟩
  rw [heardLegacy_of_holds decoder receiver told session htype hmem,
    readFrameHeader_byte hcodec hframe, hsize, hflag, Nat.add_assoc]

theorem frameHeaderBytes_byte_ne_nil
    (hcodec : codec = legacyUdpSpeex ∨ codec = legacyUdpCeltAlpha ∨ codec = legacyUdpCeltBeta)
    (frameHeader : UInt16) : frameHeaderBytes codec frameHeader ≠ [] := by
  rw [frameHeaderBytes_byte hcodec]
  exact List.cons_ne_nil _ _

/-- A packet that tells of its frame goes on, and the bit that is set was set before. -/
theorem odd_of_roundTrips
    (hcodec : codec = legacyUdpSpeex ∨ codec = legacyUdpCeltAlpha ∨ codec = legacyUdpCeltBeta)
    (hconnected : client.connected = true) (hlegacy : client.legacy = true)
    (houtput : 1 ≤ output.length ∧ output.length ≤ 127)
    (htrips : RoundTrips (clientTransmit host packer memory ar client codec output speaking)
      ⟨client.audioSequence.toNat, output, speaking⟩) :
    speaking = true ∧ output.length % 2 = 1 := by
  rw [roundTrips_legacy_iff host packer memory ar hconnected hlegacy ⟨houtput.1, by omega⟩
    (frameHeaderBytes_byte_ne_nil hcodec _)] at htrips
  obtain ⟨mem, hmem⟩ := exists_holds (voicePacketBytes codec client.audioTarget
    client.audioSequence (transmitFrameHeader codec output.length speaking) output)
  have hlt : output.length < 128 := by omega
  have hheard := htrips quietHost legacyClient mem 0 0 hmem
  rw [(heardLegacy_byte quietHost legacyClient 0 0 hcodec hlt hmem).1] at hheard
  have hframe := List.singleton_inj.mp hheard
  have hspeaking : true = speaking := congrArg VoiceFrame.speaking hframe
  subst hspeaking
  have hsize := congrArg (fun frame => frame.data.length) hframe
  simp only [bytesAt_length, if_true] at hsize
  exact ⟨rfl, (one_or_eq_iff hlt).mp hsize⟩

end Byte

/-- For every connected client in legacy mode, sequence number and payload of 1 to 127 bytes: the
Speex or CELT packet tells of its frame exactly if the stream goes on and the length is odd. -/
theorem byte_packet_round_trip_iff (host : Host) (packer : AudioPacker) (memory : Memory)
    (ar : LuaDebug) (client : TransmittingClient) (hconnected : client.connected = true)
    (hlegacy : client.legacy = true) (codec : UInt8)
    (hcodec : codec = legacyUdpSpeex ∨ codec = legacyUdpCeltAlpha ∨ codec = legacyUdpCeltBeta)
    (output : List UInt8) (houtput : 1 ≤ output.length ∧ output.length ≤ 127) (speaking : Bool) :
    RoundTrips (clientTransmit host packer memory ar client codec output speaking)
        ⟨client.audioSequence.toNat, output, speaking⟩ ↔
      speaking = true ∧ output.length % 2 = 1 := by
  constructor
  · exact odd_of_roundTrips hcodec hconnected hlegacy houtput
  · rintro ⟨rfl, hodd⟩
    have hlt : output.length < 128 := by omega
    rw [roundTrips_legacy_iff host packer memory ar hconnected hlegacy ⟨houtput.1, by omega⟩
      (frameHeaderBytes_byte_ne_nil hcodec _)]
    intro decoder receiver mem target session hmem
    obtain ⟨hheard, hdata⟩ := heardLegacy_byte decoder receiver target session hcodec hlt hmem
    rw [hheard, if_pos rfl, (one_or_eq_iff hlt).mpr hodd, hdata]

/-- A connected client in legacy mode. -/
def connectedLegacyClient : TransmittingClient :=
  { legacyClient with
    connected := true
    connecting := false
    audioTarget := 0
    audioSequence := 200
    session := 5 }

theorem byte_packet_round_trip_three :
    RoundTrips (clientTransmit quietHost wirePacker (fun _ => 0) ⟨"method", "transmit"⟩
      connectedLegacyClient legacyUdpSpeex [7, 8, 9] true) ⟨200, [7, 8, 9], true⟩ :=
  (byte_packet_round_trip_iff quietHost wirePacker (fun _ => 0) ⟨"method", "transmit"⟩
    connectedLegacyClient rfl rfl legacyUdpSpeex (Or.inl rfl) [7, 8, 9] (by decide) true).mpr
    (by decide)

/-- A payload of two bytes is read as one of three, and the end of a stream is not told. -/
theorem even_length_grows :
    ¬ RoundTrips (clientTransmit quietHost wirePacker (fun _ => 0) ⟨"method", "transmit"⟩
        connectedLegacyClient legacyUdpSpeex [7, 8] true) ⟨200, [7, 8], true⟩ ∧
      ¬ RoundTrips (clientTransmit quietHost wirePacker (fun _ => 0) ⟨"method", "transmit"⟩
        connectedLegacyClient legacyUdpSpeex [7, 8, 9] false) ⟨200, [7, 8, 9], false⟩ := by
  constructor
  · intro htrips
    have hodd := odd_of_roundTrips (Or.inl rfl) rfl rfl (by decide) htrips
    exact absurd hodd.2 (by decide)
  · intro htrips
    have hspeaking := odd_of_roundTrips (Or.inl rfl) rfl rfl (by decide) htrips
    exact Bool.false_ne_true hspeaking.1

end LuaMumble.Transmit
