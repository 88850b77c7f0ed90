import LuaMumble.Voice.Speaking

/-!
Which packets `mumble_handle_udp_packet` parses inside their bounds. The legacy
parser is never told the size of the packet: it finds every field from the
fields before it. It stays inside the packet exactly when the packet is complete
in the legacy format, `LegacyPacket`.
-/

namespace LuaMumble.Voice

open Lib.TracedRead

/-- A frame header, with the number of payload bytes it announces: a varint for
Opus and one byte for the other codecs, whose highest bit is a flag. -/
inductive AnnouncesPayload (codec : Nat) : List UInt8 → Nat → Prop
  | opus {header : List UInt8} (hcodec : codec = 4) (hheader : IsVarint header) :
      AnnouncesPayload codec header (varintValue header % 2 ^ 13)
  | byte {b : UInt8} (hcodec : codec = 0 ∨ codec = 2 ∨ codec = 3) :
      AnnouncesPayload codec [b] (b.toNat % 2 ^ 7)

/-- The bytes that are a packet of the legacy format, with anything behind it.
The three high bits of the first byte tell a ping from the codecs. A frame header
is not the end of a packet, even if it announces no payload. -/
inductive LegacyPacket : List UInt8 → Prop
  | ping {header : UInt8} {timestamp rest : List UInt8} (hid : header.toNat / 32 = 1)
      (htimestamp : IsVarint timestamp) :
      LegacyPacket (header :: (timestamp ++ rest))
  | audio {header : UInt8} {session sequence frameHeader payload rest : List UInt8}
      (hsession : IsVarint session) (hsequence : IsVarint sequence)
      (hframe : AnnouncesPayload (header.toNat / 32) frameHeader payload.length)
      (hbehind : payload ++ rest ≠ []) :
      LegacyPacket (header :: (session ++ (sequence ++ (frameHeader ++ (payload ++ rest)))))
  | unhandled {header : UInt8} {rest : List UInt8} (hid : 4 < header.toNat / 32) :
      LegacyPacket (header :: rest)

/-- An entry of the log that keeps to the bytes of the packet. -/
def InPacket (size : Nat) : Entry Action → Prop
  | .read index => index < size
  | .slice start length => start + length ≤ size
  | .emit _ => True

/-- An entry of the log that gives a decoder no negative length. -/
def LengthNonnegative : Entry Action → Prop
  | .emit (.audioUnpack len) => 0 ≤ len
  | .emit (.pingUnpack len) => 0 ≤ len
  | _ => True

/-- What is asked of the packet handler: in legacy mode to read and hand on
bytes of the packet only, else to pass no negative length. -/
def ParsedInBounds (client : MumbleClient) (size : Nat) (x : Traced Action MumbleClient)
    (mem : Memory) : Prop :=
  if client.legacy then Always (InPacket size) x mem else Always LengthNonnegative x mem

section Fields

variable {mem : Memory} {buffer size : Nat} {bytes : List UInt8}

theorem varintWidth_pos (v : UInt8) : 0 < varintWidth v := by
  simp only [varintWidth]
  split_ifs <;> decide

theorem varint_inside_iff (hsize : buffer + bytes.length = size) (len : Nat) :
    Always (InPacket size) (utilGetVarint buffer len) mem ↔
      varintWidth (mem buffer) ≤ bytes.length := by
  rw [always_utilGetVarint]
  simp only [InPacket]
  constructor
  · intro h
    have hlast := h (varintWidth (mem buffer) - 1) (Nat.sub_lt (varintWidth_pos _) Nat.one_pos)
    have hpos := varintWidth_pos (mem buffer)
    omega
  · intro h i hi
    omega

/-- Reading a varint keeps to the packet, and what follows has a property, when
the bytes begin with a complete varint and the rest has it. -/
theorem varint_field_iff (hbytes : Holds mem buffer bytes) (hsize : buffer + bytes.length = size)
    (len : Nat) {k : List UInt8 → List UInt8 → Prop} :
    (Always (InPacket size) (utilGetVarint buffer len) mem ∧
        k (bytesAt mem buffer (varintWidth (mem buffer)))
          (bytes.drop (varintWidth (mem buffer)))) ↔
      ∃ enc rest, bytes = enc ++ rest ∧ IsVarint enc ∧ k enc rest := by
  rw [varint_inside_iff hsize len]
  constructor
  · rintro ⟨hwidth, hk⟩
    obtain ⟨hsplit, _⟩ := holds_split buffer _ bytes hbytes hwidth
    refine ⟨_, _, hsplit, ?_, hk⟩
    obtain ⟨n, hn⟩ := Nat.exists_eq_succ_of_ne_zero (varintWidth_pos (mem buffer)).ne'
    exact ⟨mem buffer, bytesAt mem (buffer + 1) n, by rw [hn, bytesAt_succ], bytesAt_length _ _⟩
  · rintro ⟨enc, rest, rfl, ⟨v, tail, rfl, hlength⟩, hk⟩
    have henc := (holds_append _ _ _).mp hbytes |>.1
    have hv : mem buffer = v := ((holds_cons _ _ _).mp henc).1
    rw [Holds, hlength] at henc
    rw [hv, henc, ← hlength, List.drop_left]
    exact ⟨by simp, hk⟩

/-- A payload and the byte that the Opus functions look at are in the packet when
the bytes are long enough. -/
theorem payload_field_iff {size start : Nat} {bytes : List UInt8}
    (hsize : start + bytes.length = size) (n : Nat) :
    (start + n ≤ size ∧ start < size) ↔
      ∃ payload rest, bytes = payload ++ rest ∧ payload.length = n ∧ payload ++ rest ≠ [] := by
  constructor
  · rintro ⟨hpayload, hfirst⟩
    refine ⟨bytes.take n, bytes.drop n, (List.take_append_drop n bytes).symm,
      List.length_take_of_le (by omega), ?_⟩
    rw [List.take_append_drop, ← List.length_pos_iff]
    omega
  · rintro ⟨payload, rest, rfl, rfl, hbehind⟩
    have hpos := List.length_pos_iff.mpr hbehind
    rw [List.length_append] at hsize hpos
    omega

end Fields

section Legacy

variable {host : Host} {client : MumbleClient} {mem : Memory} {buffer size : Nat}
  {bytes : List UInt8}

/-- The hooks and the recorder read nothing; the payload is handed on, and the Opus
functions look at it. -/
theorem always_speakingHooks {session : UInt32} {user : User} {speaking : Bool}
    {data : Traced Action (List UInt8)} {opus : Traced Action OpusPacket}
    {event : List UInt8 → OpusPacket → UserSpeak} :
    Always (InPacket size) (speakingHooks host client session user speaking data opus event) mem ↔
      Always (InPacket size) data mem ∧ Always (InPacket size) opus mem := by
  simp [speakingHooks, mumbleHookCall, always_ite, InPacket]

theorem always_opusPacketGet {data : Nat} :
    Always (InPacket size) (opusPacketGet host data) mem ↔ data < size := by
  simp [opusPacketGet, InPacket]

theorem always_updatePing {timestamp : UInt64} {udp : Bool} :
    Always (InPacket size) (mumbleUpdatePingUdp host client timestamp udp) mem := by
  simp [mumbleUpdatePingUdp, mumbleHookCall, InPacket]

theorem opus_payloadLen (value : UInt64) :
    (value.toUInt16 &&& 0x1FFF).toNat = value.toNat % 2 ^ 13 := by
  rw [UInt16.toNat_and, UInt64.toNat_toUInt16,
    show (0x1FFF : UInt16).toNat = 2 ^ 13 - 1 from rfl, Nat.and_two_pow_sub_one_eq_mod]
  omega

theorem announces_codec {codec n : Nat} {header : List UInt8}
    (h : AnnouncesPayload codec header n) : codec = 4 ∨ codec = 0 ∨ codec = 2 ∨ codec = 3 := by
  cases h with
  | opus hcodec _ => exact Or.inl hcodec
  | byte hcodec => exact Or.inr hcodec

theorem announces_opus_iff {header : List UInt8} {n : Nat} :
    AnnouncesPayload 4 header n ↔ IsVarint header ∧ n = varintValue header % 2 ^ 13 := by
  constructor
  · intro h
    cases h with
    | opus _ hheader => exact ⟨hheader, rfl⟩
    | byte hcodec => simp at hcodec
  · rintro ⟨hheader, rfl⟩
    exact .opus rfl hheader

theorem announces_byte_iff {codec n : Nat} (hcodec : codec = 0 ∨ codec = 2 ∨ codec = 3)
    {header : List UInt8} :
    AnnouncesPayload codec header n ↔ ∃ b : UInt8, header = [b] ∧ n = b.toNat % 2 ^ 7 := by
  constructor
  · intro h
    cases h with
    | opus hopus _ => omega
    | byte _ => exact ⟨_, rfl, rfl⟩
  · rintro ⟨b, rfl, rfl⟩
    exact .byte hcodec

theorem opus_field_iff {read : Nat} (hbytes : Holds mem (buffer + read) bytes)
    (hsize : buffer + read + bytes.length = size) :
    (Always (InPacket size) (readFrameHeader buffer legacyUdpOpus read) mem ∧
        buffer + ((readFrameHeader buffer legacyUdpOpus read).value mem).read +
          ((readFrameHeader buffer legacyUdpOpus read).value mem).payloadLen ≤ size ∧
        buffer + ((readFrameHeader buffer legacyUdpOpus read).value mem).read < size) ↔
      ∃ frameHeader payload rest, bytes = frameHeader ++ (payload ++ rest) ∧
        AnnouncesPayload 4 frameHeader payload.length ∧ payload ++ rest ≠ [] := by
  obtain ⟨hvalue, hread⟩ :=
    value_utilGetVarint (E := Action) mem (buffer + read) read
  have hrun : readFrameHeader buffer legacyUdpOpus read =
      utilGetVarint (buffer + read) read >>= fun r =>
        pure ⟨(r.1.toUInt16 &&& 0x1FFF).toNat, r.1.toUInt16 &&& 0x2000 == 0, r.2⟩ := rfl
  simp only [hrun, always_bind, always_pure, and_true, value_bind, value_pure, opus_payloadLen,
    hvalue, hread, announces_opus_iff]
  have hpayload (hwidth : varintWidth (mem (buffer + read)) ≤ bytes.length) (n : Nat) :
      (buffer + (read + varintWidth (mem (buffer + read))) + n ≤ size ∧
          buffer + (read + varintWidth (mem (buffer + read))) < size) ↔
        ∃ payload rest, bytes.drop (varintWidth (mem (buffer + read))) = payload ++ rest ∧
          payload.length = n ∧ payload ++ rest ≠ [] := by
    apply payload_field_iff
    rw [List.length_drop]
    omega
  have hvarint := varint_field_iff hbytes hsize read (k := fun enc rest =>
    ∃ payload tail, rest = payload ++ tail ∧ payload.length = varintValue enc % 2 ^ 13 ∧
      payload ++ tail ≠ [])
  rw [and_congr_right fun hinside => hpayload ((varint_inside_iff hsize _).mp hinside) _, hvarint]
  constructor
  · rintro ⟨enc, _, rfl, henc, payload, rest, rfl, hlength, hbehind⟩
    exact ⟨enc, payload, rest, rfl, ⟨henc, hlength⟩, hbehind⟩
  · rintro ⟨enc, payload, rest, rfl, ⟨henc, hlength⟩, hbehind⟩
    exact ⟨enc, _, rfl, henc, payload, rest, rfl, hlength, hbehind⟩

theorem byte_field_iff {codec : UInt8} {read : Nat}
    (hcodec : codec = legacyUdpSpeex ∨ codec = legacyUdpCeltAlpha ∨ codec = legacyUdpCeltBeta)
    (hbytes : Holds mem (buffer + read) bytes) (hsize : buffer + read + bytes.length = size) :
    (Always (InPacket size) (readFrameHeader buffer codec read) mem ∧
        buffer + ((readFrameHeader buffer codec read).value mem).read +
          ((readFrameHeader buffer codec read).value mem).payloadLen ≤ size ∧
        buffer + ((readFrameHeader buffer codec read).value mem).read < size) ↔
      ∃ frameHeader payload rest, bytes = frameHeader ++ (payload ++ rest) ∧
        AnnouncesPayload codec.toNat frameHeader payload.length ∧ payload ++ rest ≠ [] := by
  have hid : codec.toNat = 0 ∨ codec.toNat = 2 ∨ codec.toNat = 3 := by
    rcases hcodec with rfl | rfl | rfl <;> decide
  have hlow (b : UInt8) : (b &&& 0x7F).toNat = b.toNat % 2 ^ 7 := toNat_and_low b 7 (by decide)
  simp only [readFrameHeader, if_pos hcodec, always_bind, always_load, always_pure, and_true,
    value_bind, value_load, value_pure, InPacket, announces_byte_iff hid, hlow]
  cases bytes with
  | nil =>
      simp at hsize ⊢
      omega
  | cons b rest =>
      obtain ⟨hb, _⟩ := (holds_cons _ _ _).mp hbytes
      have hbehind : buffer + read + 1 + rest.length = size := by
        simpa [Nat.add_assoc, Nat.add_comm 1] using hsize
      have hpayload := payload_field_iff hbehind (b.toNat % 2 ^ 7)
      rw [hb, ← Nat.add_assoc, hpayload]
      constructor
      · rintro ⟨_, payload, tail, rfl, hlength, hmore⟩
        exact ⟨[b], payload, tail, rfl, ⟨b, rfl, hlength⟩, hmore⟩
      · rintro ⟨_, payload, tail, hsplit, ⟨b', rfl, hlength⟩, hmore⟩
        obtain ⟨rfl, rfl⟩ := List.cons.inj hsplit
        refine ⟨?_, payload, tail, rfl, hlength, hmore⟩
        simp at hsize
        omega

/-- The frame header, the payload and the first byte behind the header are in the packet when the
bytes begin with a frame header and the payload it announces, and do not end with the header. -/
theorem frameHeader_field_iff {codec : UInt8} {read : Nat}
    (hcodec : codec = legacyUdpOpus ∨ codec = legacyUdpSpeex ∨ codec = legacyUdpCeltAlpha ∨
      codec = legacyUdpCeltBeta)
    (hbytes : Holds mem (buffer + read) bytes) (hsize : buffer + read + bytes.length = size) :
    (Always (InPacket size) (readFrameHeader buffer codec read) mem ∧
        buffer + ((readFrameHeader buffer codec read).value mem).read +
          ((readFrameHeader buffer codec read).value mem).payloadLen ≤ size ∧
        buffer + ((readFrameHeader buffer codec read).value mem).read < size) ↔
      ∃ frameHeader payload rest, bytes = frameHeader ++ (payload ++ rest) ∧
        AnnouncesPayload codec.toNat frameHeader payload.length ∧ payload ++ rest ≠ [] := by
  rcases hcodec with rfl | hcodec
  · exact opus_field_iff hbytes hsize
  · exact byte_field_iff hcodec hbytes hsize

/-- The legacy function keeps to the packet when a sequence number, a frame header
and the payload it announces begin at `buffer`. -/
theorem speakingHooksLegacy_field_iff (host : Host) (client : MumbleClient) {codec : UInt8}
    (target : UInt8) (session : UInt32)
    (hcodec : codec = legacyUdpOpus ∨ codec = legacyUdpSpeex ∨ codec = legacyUdpCeltAlpha ∨
      codec = legacyUdpCeltBeta)
    (hbytes : Holds mem buffer bytes) (hsize : buffer + bytes.length = size) :
    Always (InPacket size)
        (mumbleHandleSpeakingHooksLegacy host client buffer codec target session) mem ↔
      ∃ sequence rest, bytes = sequence ++ rest ∧ IsVarint sequence ∧
        ∃ frameHeader payload tail, rest = frameHeader ++ (payload ++ tail) ∧
          AnnouncesPayload codec.toNat frameHeader payload.length ∧ payload ++ tail ≠ [] := by
  have hread := (value_utilGetVarint (E := Action) mem buffer 0).2
  rw [Nat.zero_add] at hread
  have hframe (hwidth : varintWidth (mem buffer) ≤ bytes.length) :=
    frameHeader_field_iff hcodec (holds_split buffer _ bytes hbytes hwidth).2
      (show buffer + varintWidth (mem buffer) + (bytes.drop _).length = size by
        rw [List.length_drop]; omega)
  rw [← varint_field_iff hbytes hsize 0 (k := fun _ rest =>
    ∃ frameHeader payload tail, rest = frameHeader ++ (payload ++ tail) ∧
      AnnouncesPayload codec.toNat frameHeader payload.length ∧ payload ++ tail ≠ [])]
  simp only [mumbleHandleSpeakingHooksLegacy, always_bind, hread, always_speakingHooks,
    always_slice, always_opusPacketGet]
  exact and_congr_right fun hinside => hframe ((varint_inside_iff hsize _).mp hinside)

theorem legacyId_toNat (header : UInt8) : ((header >>> 5) &&& 0x7).toNat = header.toNat / 32 := by
  have hlow : ((header >>> 5) &&& 0x7).toNat = (header >>> 5).toNat % 2 ^ 3 :=
    toNat_and_low _ 3 (by decide)
  have hshift : (header >>> 5).toNat = header.toNat / 2 ^ 5 := by
    rw [UInt8.toNat_shiftRight, Nat.shiftRight_eq_div_pow]
    rfl
  have hlt := header.toNat_lt
  omega

theorem legacyPacket_ping_iff {header : UInt8} {rest : List UInt8} (hid : header.toNat / 32 = 1) :
    LegacyPacket (header :: rest) ↔
      ∃ timestamp tail, rest = timestamp ++ tail ∧ IsVarint timestamp ∧ True := by
  constructor
  · intro h
    cases h with
    | ping _ htimestamp => exact ⟨_, _, rfl, htimestamp, trivial⟩
    | audio _ _ hframe _ =>
        have hcodec := announces_codec hframe
        omega
    | unhandled hid' => omega
  · rintro ⟨timestamp, tail, rfl, htimestamp, _⟩
    exact .ping hid htimestamp

theorem legacyPacket_audio_iff {header : UInt8} {rest : List UInt8} (hping : header.toNat / 32 ≠ 1)
    (hid : header.toNat / 32 ≤ 4) :
    LegacyPacket (header :: rest) ↔
      ∃ session rest', rest = session ++ rest' ∧ IsVarint session ∧
        ∃ sequence rest'', rest' = sequence ++ rest'' ∧ IsVarint sequence ∧
          ∃ frameHeader payload tail, rest'' = frameHeader ++ (payload ++ tail) ∧
            AnnouncesPayload (header.toNat / 32) frameHeader payload.length ∧
              payload ++ tail ≠ [] := by
  constructor
  · intro h
    cases h with
    | ping hid' _ => omega
    | audio hsession hsequence hframe hbehind =>
        exact ⟨_, _, rfl, hsession, _, _, rfl, hsequence, _, _, _, rfl, hframe, hbehind⟩
    | unhandled hid' => omega
  · rintro ⟨session, _, rfl, hsession, sequence, _, rfl, hsequence, frameHeader, payload, tail, rfl,
      hframe, hbehind⟩
    exact .audio hsession hsequence hframe hbehind

/-- The packet handler keeps to the packet when the packet is complete. -/
theorem handleUdpPacket_inPacket_iff {udp : Bool} (hlegacy : client.legacy = true)
    (hbytes : Holds mem 0 bytes) :
    Always (InPacket bytes.length) (mumbleHandleUdpPacket host client bytes.length udp) mem ↔
      LegacyPacket bytes := by
  cases bytes with
  | nil =>
      refine iff_of_false ?_ (by rintro ⟨⟩)
      simp [mumbleHandleUdpPacket, InPacket]
  | cons header rest =>
      obtain ⟨hheader, hrest⟩ : mem 0 = header ∧ Holds mem 1 rest := (holds_cons _ _ _).mp hbytes
      have hsize : 1 + rest.length = (header :: rest).length := Nat.add_comm _ _
      have hread := (value_utilGetVarint (E := Action) mem 1 1).2
      have hid (codec : UInt8) :
          (header >>> 5) &&& 0x7 = codec ↔ header.toNat / 32 = codec.toNat := by
        rw [← UInt8.toNat_inj, legacyId_toNat]
      have hlt := header.toNat_lt
      simp only [mumbleHandleUdpPacket, always_bind, always_load, value_load, hheader, hlegacy,
        if_true, always_ite, always_pure]
      rw [and_iff_right (show InPacket (header :: rest).length (.read 0) from by simp [InPacket])]
      split_ifs with hping haudio
      · rw [legacyPacket_ping_iff ((hid _).mp hping),
          ← varint_field_iff hrest hsize 1 (k := fun _ _ => True)]
        simp only [always_updatePing]
      · have hcodec : header.toNat / 32 ≠ 1 ∧ header.toNat / 32 ≤ 4 := by
          simp only [hid] at haudio
          rcases haudio with h | h | h | h <;> rw [h] <;> decide
        have hvoice (target : UInt8) (session : UInt32)
            (hwidth : varintWidth (mem 1) ≤ rest.length) :=
          speakingHooksLegacy_field_iff host client target session haudio
            (holds_split 1 _ rest hrest hwidth).2
            (show 1 + varintWidth (mem 1) + (rest.drop _).length = (header :: rest).length by
              rw [List.length_drop]; omega)
        rw [legacyPacket_audio_iff hcodec.1 hcodec.2, ← legacyId_toNat,
          ← varint_field_iff hrest hsize 1 (k := fun _ rest =>
            ∃ sequence rest', rest = sequence ++ rest' ∧ IsVarint sequence ∧
              ∃ frameHeader payload tail, rest' = frameHeader ++ (payload ++ tail) ∧
                AnnouncesPayload ((header >>> 5) &&& 0x7).toNat frameHeader payload.length ∧
                  payload ++ tail ≠ []),
          hread]
        exact and_congr_right fun hinside => hvoice _ _ ((varint_inside_iff hsize _).mp hinside)
      · refine iff_of_true trivial (.unhandled ?_)
        simp only [hid, not_or] at hping haudio
        have hcodecs := And.intro hping haudio
        simp only [legacyProtoUdpPing, legacyUdpOpus, legacyUdpSpeex, legacyUdpCeltAlpha,
          legacyUdpCeltBeta, UInt8.reduceToNat] at hcodecs
        omega

theorem handleSpeakingHooksProtobuf_lengths {audio : Audio} {session : UInt32} :
    Always LengthNonnegative (mumbleHandleSpeakingHooksProtobuf host client audio session) mem := by
  simp [mumbleHandleSpeakingHooksProtobuf, speakingHooks, mumbleHookCall, always_ite,
    LengthNonnegative]

/-- Outside legacy mode the decoders are given the size of the packet less one. -/
theorem handleUdpPacket_lengths_iff {udp : Bool} (hlegacy : client.legacy = false) :
    Always LengthNonnegative (mumbleHandleUdpPacket host client bytes.length udp) mem ↔
      (mem 0 = protoUdpAudio ∨ mem 0 = protoUdpPing → bytes ≠ []) := by
  have hlength : (0 : Int) ≤ bytes.length - 1 ↔ bytes ≠ [] := by
    rw [← List.length_pos_iff]
    omega
  obtain ⟨header, hheader⟩ : ∃ header, mem 0 = header := ⟨_, rfl⟩
  simp only [mumbleHandleUdpPacket, always_bind, always_load, value_load, hheader, hlegacy,
    Bool.false_eq_true, if_false, always_ite, always_pure, always_pointer, always_emit,
    LengthNonnegative, hlength, true_and]
  split_ifs with haudio hping
  · cases host.audioUnpack (bytes.length - 1) ((pointer 1 : Traced Action Memory).value mem) with
    | none => simp [haudio]
    | some audio => simp [haudio, handleSpeakingHooksProtobuf_lengths]
  · cases host.pingUnpack (bytes.length - 1) ((pointer 1 : Traced Action Memory).value mem) with
    | none => simp [hping]
    | some timestamp => simp [hping, mumbleUpdatePingUdp, mumbleHookCall, LengthNonnegative]
  · simp [haudio, hping]

end Legacy

/-- For every host, client and packet: the packet handler parses the packet inside
its bounds, whatever stands behind it in memory, exactly when the packet is
complete in the legacy format or, outside legacy mode, not empty. -/
theorem parsed_in_bounds_iff (host : Host) (client : MumbleClient) (bytes : List UInt8)
    (udp : Bool) :
    (∀ mem, Holds mem 0 bytes →
        ParsedInBounds client bytes.length
          (mumbleHandleUdpPacket host client bytes.length udp) mem) ↔
      if client.legacy then LegacyPacket bytes else bytes ≠ [] := by
  cases hlegacy : client.legacy with
  | true =>
      simp only [ParsedInBounds, hlegacy, if_true]
      constructor
      · intro h
        obtain ⟨mem, hmem⟩ := exists_holds bytes
        exact (handleUdpPacket_inPacket_iff hlegacy hmem).mp (h mem hmem)
      · intro hpacket mem hmem
        exact (handleUdpPacket_inPacket_iff hlegacy hmem).mpr hpacket
  | false =>
      simp only [ParsedInBounds, hlegacy, Bool.false_eq_true, if_false,
        handleUdpPacket_lengths_iff hlegacy]
      constructor
      · rintro h rfl
        exact h (fun _ => 0) rfl (Or.inl rfl) rfl
      · intro hne mem _ _
        exact hne

/-- A host whose callbacks leave the client alone and whose decoders accept
nothing, and a legacy client with no users. -/
def quietHost : Host :=
  { hrtime := 0
    callbacks := fun client _ => client
    opusPacket := fun _ => ⟨1, 0, 480⟩
    audioUnpack := fun _ _ => none
    pingUnpack := fun _ _ => none }

def legacyClient : MumbleClient :=
  { legacy := true
    users := fun _ => none
    udpPackets := 0
    udpPingAvg := 0
    udpPingVar := 0
    udpPingAcc := 0
    tcpUdpTunnel := true }

/-- An Opus packet that ends behind its frame header: ten bytes from behind the
packet are handed to the recorder and to the callbacks as voice data. -/
theorem truncated_packet_overread :
    ¬ ∀ (host : Host) (client : MumbleClient) (bytes : List UInt8) (udp : Bool) (mem : Memory),
      Holds mem 0 bytes →
      ParsedInBounds client bytes.length
        (mumbleHandleUdpPacket host client bytes.length udp) mem := by
  intro h
  have hparsed := h quietHost legacyClient [0x80, 5, 7, 10] true
    (fun i => [0x80, 5, 7, 10].getD i 0) rfl
  have hslice : Entry.slice 4 10 ∈ (mumbleHandleUdpPacket quietHost legacyClient 4 true).log
      (fun i => [0x80, 5, 7, 10].getD i 0) :=
    List.mem_of_getElem? (i := 6) rfl
  have hbound : 4 + 10 ≤ 4 := hparsed (.slice 4 10) hslice
  omega

end LuaMumble.Voice
