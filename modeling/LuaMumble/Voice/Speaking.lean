import Mathlib.Data.Rat.Defs
import LuaMumble.Voice.Varint

/-!
What the client does with a voice packet: `mumble_handle_speaking_hooks_legacy`
and `mumble_handle_speaking_hooks_protobuf`, which find out who speaks and fire
the hooks, and `mumble_update_ping_udp`. A pointer into the packet is an index
into memory. The hooks, the calls of the recorder and the protobuf decoder
appear in the log; what lies outside the repository is a parameter. Floating
point numbers are rational.
-/

namespace LuaMumble.Voice

open Lib.TracedRead

def legacyUdpCeltAlpha : UInt8 := 0
def legacyProtoUdpPing : UInt8 := 1
def legacyUdpSpeex : UInt8 := 2
def legacyUdpCeltBeta : UInt8 := 3
def legacyUdpOpus : UInt8 := 4

def protoUdpAudio : UInt8 := 0
def protoUdpPing : UInt8 := 1

/-- What voice packets use of a `MumbleUser`. -/
structure User where
  session : UInt32
  speaking : Bool
  deriving DecidableEq

/-- What voice packets and UDP pings use of a `MumbleClient`. -/
structure MumbleClient where
  legacy : Bool
  users : UInt32 → Option User
  udpPackets : UInt32
  udpPingAvg : Rat
  udpPingVar : Rat
  udpPingAcc : UInt8
  tcpUdpTunnel : Bool

/-- The numbers that the Opus library tells about an encoded packet. -/
structure OpusPacket where
  channels : Int
  bandwidth : Int
  samplesPerFrame : Int

/-- The table that `OnUserSpeak` is called with. The numbers are those given to
`lua_pushnumber`; only the protobuf path sets `context`. -/
structure UserSpeak where
  codec : UInt8
  target : UInt32
  sequence : UInt64
  user : UInt32
  speaking : Bool
  data : List UInt8
  context : Option UInt32
  opus : OpusPacket

/-- A hook with its argument; a user is named by its session. -/
inductive Hook where
  | onPongUdp (timestamp : UInt64) (ping average deviation : Rat)
  | onUserStartSpeaking (user : UInt32)
  | onUserSpeak (event : UserSpeak)
  | onUserStopSpeaking (user : UInt32)

/-- What the log shows besides the bytes read and handed on. -/
inductive Action where
  | hookCall (hook : Hook)
  | handleRecordSilence (user : UInt32)
  | handleRecord (user : UInt32) (encoded : List UInt8)
  | audioUnpack (len : Int)
  | pingUnpack (len : Int)

/-- `MumbleUDP__Audio` -/
structure Audio where
  frameNumber : UInt64
  isTerminator : Bool
  target : UInt32
  context : UInt32
  opusData : List UInt8
  senderSession : UInt32

/-- What the packet handlers use of the rest of the program: the clock, the
callbacks of a hook and what they make of the client, the Opus library, whose
functions look at the first byte of a packet, and the generated decoders, which
are given a length and a pointer. -/
structure Host where
  hrtime : UInt64
  callbacks : MumbleClient → Hook → MumbleClient
  opusPacket : UInt8 → OpusPacket
  audioUnpack : Int → Memory → Option Audio
  pingUnpack : Int → Memory → Option UInt64

/-- `mumble_hook_call` -/
def mumbleHookCall (host : Host) (client : MumbleClient) (hook : Hook) :
    Traced Action MumbleClient := do
  emit (.hookCall hook)
  pure (host.callbacks client hook)

def MumbleClient.setUser (client : MumbleClient) (session : UInt32) (user : User) :
    MumbleClient :=
  { client with users := fun s => if s = session then some user else client.users s }

/-- `mumble_user_get`, which adds a user it does not find. -/
def mumbleUserGet (client : MumbleClient) (session : UInt32) : User × MumbleClient :=
  match client.users session with
  | some user => (user, client)
  | none =>
      let user : User := ⟨session, false⟩
      (user, client.setUser session user)

/-- `mumble_update_ping_udp` -/
def mumbleUpdatePingUdp (host : Host) (client : MumbleClient) (timestamp : UInt64) (udp : Bool) :
    Traced Action MumbleClient := do
  let delay : Rat := (host.hrtime - timestamp).toNat / 1000000
  let n : Rat := (client.udpPackets + 1).toNat
  let average := client.udpPingAvg * (n - 1) / n + delay / n
  let deviation := (delay - average) * (delay - average)
  let client := { client with
    udpPackets := client.udpPackets + 1
    udpPingAvg := average
    udpPingVar := deviation
    tcpUdpTunnel := client.tcpUdpTunnel && !udp
    udpPingAcc := 0 }
  mumbleHookCall host client (.onPongUdp timestamp delay average deviation)

/-- The common end of the two `mumble_handle_speaking_hooks` functions: from the
test of `user->speaking` on. `data` hands on the payload, and `opus` asks the Opus
functions about it. -/
def speakingHooks (host : Host) (client : MumbleClient) (session : UInt32) (user : User)
    (speaking : Bool) (data : Traced Action (List UInt8)) (opus : Traced Action OpusPacket)
    (event : List UInt8 → OpusPacket → UserSpeak) : Traced Action MumbleClient := do
  let oneFrame := !user.speaking && !speaking
  let stateChange := user.speaking != speaking
  let client :=
    if stateChange then client.setUser session { user with speaking := speaking } else client
  let client ←
    if oneFrame || (stateChange && speaking) then do
      let client ← mumbleHookCall host client (.onUserStartSpeaking session)
      emit (.handleRecordSilence session)
      pure client
    else pure client
  let encoded ← data
  emit (.handleRecord session encoded)
  let encoded ← data
  let opus ← opus
  let client ← mumbleHookCall host client (.onUserSpeak (event encoded opus))
  if oneFrame || (stateChange && !speaking) then
    mumbleHookCall host client (.onUserStopSpeaking session)
  else pure client

/-- `payload_len`, `speaking` and `read` of the legacy function. -/
structure FrameHeader where
  payloadLen : Nat
  speaking : Bool
  read : Nat

/-- The branches of the legacy function on the codec. -/
def readFrameHeader (buffer : Nat) (codec : UInt8) (read : Nat) : Traced Action FrameHeader :=
  if codec = legacyUdpSpeex ∨ codec = legacyUdpCeltAlpha ∨ codec = legacyUdpCeltBeta then do
    let frameHeader ← load (buffer + read)
    pure ⟨(frameHeader &&& 0x7F).toNat, frameHeader &&& 0x80 == 0, read + 1⟩
  else if codec = legacyUdpOpus then do
    let (frameHeader, read) ← utilGetVarint (buffer + read) read
    let frameHeader := frameHeader.toUInt16
    pure ⟨(frameHeader &&& 0x1FFF).toNat, frameHeader &&& 0x2000 == 0, read⟩
  else
    pure ⟨0, false, read⟩

/-- `opus_packet_get_nb_channels`, `opus_packet_get_bandwidth` and
`opus_packet_get_samples_per_frame`, which are not told how long the packet is. -/
def opusPacketGet (host : Host) (data : Nat) : Traced Action OpusPacket := do
  let toc ← load data
  pure (host.opusPacket toc)

/-- `mumble_handle_speaking_hooks_legacy`, which is not told how many bytes there
are from `buffer` on. -/
def mumbleHandleSpeakingHooksLegacy (host : Host) (client : MumbleClient) (buffer : Nat)
    (codec target : UInt8) (session : UInt32) : Traced Action MumbleClient := do
  let (sequence, read) ← utilGetVarint buffer 0
  let (user, client) := mumbleUserGet client session
  let header ← readFrameHeader buffer codec read
  speakingHooks host client session user header.speaking
    (slice (buffer + header.read) header.payloadLen)
    (opusPacketGet host (buffer + header.read))
    (fun data opus =>
      { codec := codec
        target := target.toUInt32
        sequence := sequence
        user := session
        speaking := header.speaking
        data := data
        context := none
        opus := opus })

/-- `mumble_handle_speaking_hooks_protobuf`, whose payload is in the message. That
`opus_data.data` is NULL in a message without a payload is left out here. -/
def mumbleHandleSpeakingHooksProtobuf (host : Host) (client : MumbleClient) (audio : Audio)
    (session : UInt32) : Traced Action MumbleClient := do
  let speaking := !audio.isTerminator
  let (user, client) := mumbleUserGet client session
  speakingHooks host client session user speaking (pure audio.opusData)
    (pure (host.opusPacket (audio.opusData.headD 0)))
    (fun data opus =>
      { codec := legacyUdpOpus
        target := audio.target
        sequence := audio.frameNumber
        user := session
        speaking := speaking
        data := data
        context := some audio.context
        opus := opus })

/-- `mumble_handle_udp_packet(client, unencrypted, size, udp)` -/
def mumbleHandleUdpPacket (host : Host) (client : MumbleClient) (size : Int) (udp : Bool) :
    Traced Action MumbleClient := do
  let header ← load 0
  if client.legacy then
    let id := (header >>> 5) &&& 0x7
    if id = legacyProtoUdpPing then do
      let (timestamp, _) ← utilGetVarint 1 1
      mumbleUpdatePingUdp host client timestamp udp
    else if id = legacyUdpOpus ∨ id = legacyUdpSpeex ∨ id = legacyUdpCeltAlpha ∨
        id = legacyUdpCeltBeta then do
      let target := UInt8.ofNat (header.toNat >>> 0x1F)
      let (session, read) ← utilGetVarint 1 1
      mumbleHandleSpeakingHooksLegacy host client read id target session.toUInt32
    else
      pure client
  else
    let message ← pointer 1
    if header = protoUdpAudio then do
      emit (.audioUnpack (size - 1))
      match host.audioUnpack (size - 1) message with
      | some audio => mumbleHandleSpeakingHooksProtobuf host client audio audio.senderSession
      | none => pure client
    else if header = protoUdpPing then do
      emit (.pingUnpack (size - 1))
      match host.pingUnpack (size - 1) message with
      | some timestamp => mumbleUpdatePingUdp host client timestamp udp
      | none => pure client
    else
      pure client

end LuaMumble.Voice
