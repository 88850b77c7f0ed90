import LuaMumble.Transmit.AudioMessage
import LuaMumble.Transmit.PacketBuilder

/-!
`client:transmit`, which sends a packet that a script has encoded. The hooks are those of the
client's own packet and run before it is sent; a callback that transmits makes a packet of its
own and is left out.

The frame header of a Speex or CELT packet is one byte. The sender sets its lowest bit while
the stream goes on, which belongs to the length; the receiver takes the highest bit for the end
of the stream.
-/

namespace LuaMumble.Transmit

open Lib Lib.TracedRead Voice

def payloadSizeMax : Nat := 1024 * 8 - 1

/-- What `client:transmit` uses of a `MumbleClient`. -/
structure TransmittingClient extends MumbleClient where
  connected : Bool
  connecting : Bool
  audioTarget : UInt8
  audioSequence : UInt32
  session : UInt32

/-- How Lua names the function that runs. -/
structure LuaDebug where
  namewhat : String
  name : String

/-- A call of `packet_sendex` with PACKET_UDPTUNNEL, or of `packet_sendudp`. -/
inductive Sending where
  | tunnel (message : List UInt8)
  | udp (message : List UInt8)

def Sending.message : Sending → List UInt8
  | .tunnel message => message
  | .udp message => message

/-- What a call has done: its array, its hooks and reads, what it has sent, and the client. -/
structure Transmission where
  packetBuffer : LocalArray
  log : List (Entry Action)
  sent : List Sending
  client : TransmittingClient

/-- `mumble_client_connected` -/
def mumbleClientConnected (ar : LuaDebug) (client : TransmittingClient) : Except String Unit :=
  let status := if client.connecting then "connecting" else "disconnected"
  if client.connected then .ok ()
  else .error ("attempt to call " ++ ar.namewhat ++ " '" ++ ar.name ++ "' on " ++ status ++
    " mumble.client")

/-- `frame_header` in legacy mode. -/
def transmitFrameHeader (codec : UInt8) (outputlen : Nat) (speaking : Bool) : UInt16 :=
  if codec = legacyUdpOpus ∧ ¬ speaking then UInt16.ofNat (1 <<< 13 ||| outputlen)
  else if (codec = legacyUdpSpeex ∨ codec = legacyUdpCeltAlpha ∨ codec = legacyUdpCeltBeta) ∧
      speaking then UInt16.ofNat (1 <<< 0 ||| outputlen)
  else UInt16.ofNat outputlen

/-- `audio` outside of legacy mode. `target` and `context` are the two names of one field. -/
def transmittedAudio (client : TransmittingClient) (output : List UInt8) (speaking : Bool) :
    Audio :=
  { frameNumber := client.audioSequence.toUInt64
    isTerminator := !speaking
    target := client.audioTarget.toUInt32
    context := client.audioTarget.toUInt32
    opusData := output
    senderSession := 0 }

/-- The end of both modes: the hooks, the sending of the first `len` bytes of the array, and
the sequence number. -/
def TransmittingClient.send (client : TransmittingClient) (packetBuffer : LocalArray)
    (hooks : Traced Action MumbleClient) (len : Nat) : Transmission :=
  let message := bytesAt packetBuffer.memory 0 len
  let after := hooks.value packetBuffer.memory
  { packetBuffer := packetBuffer
    log := hooks.log packetBuffer.memory
    sent := [if after.tcpUdpTunnel then .tunnel message else .udp message]
    client := { client with
      toMumbleClient := after
      audioSequence := client.audioSequence + 1 } }

/-- `client_transmit`; `memory` is what the array holds before. -/
def clientTransmit (host : Host) (packer : AudioPacker) (memory : Memory) (ar : LuaDebug)
    (client : TransmittingClient) (codec : UInt8) (output : List UInt8) (speaking : Bool) :
    Except String Transmission := do
  mumbleClientConnected ar client
  if client.legacy then
    let packet := makePacket memory codec client.audioTarget client.audioSequence
      (transmitFrameHeader codec output.length speaking) output
    let hooks := mumbleHandleSpeakingHooksLegacy host client.toMumbleClient 1 codec
      client.audioTarget client.session
    pure (client.send packet.buffer hooks (voicepacketGetlength packet))
  else
    let audio := transmittedAudio client output speaking
    let packetBuffer := ((LocalArray.fresh memory).store 0 [protoUdpAudio]).store 1
      (packer.pack audio)
    let hooks := mumbleHandleSpeakingHooksProtobuf host client.toMumbleClient audio client.session
    pure (client.send packetBuffer hooks (1 + (packer.pack audio).length))

/-- What a packet carries: the numbers and the bytes of one event. -/
structure VoiceFrame where
  sequence : Nat
  data : List UInt8
  speaking : Bool
  deriving DecidableEq

/-- The part of an event that the packet tells; the rest is told by the receiver. -/
def voiceFrame (frame : SpokenFrame) : VoiceFrame :=
  ⟨frame.sequence, frame.data, frame.speaking⟩

/-- What a receiver in legacy mode is told of a packet, without the session that the server
writes behind the first byte. -/
def heardLegacy (host : Host) (client : MumbleClient) (mem : Memory) (target : UInt8)
    (session : UInt32) : List VoiceFrame :=
  let codec := (mem 0 >>> 5) &&& 0x7
  ((spoken ((mumbleHandleSpeakingHooksLegacy host client 1 codec target session).log mem)).map
    UserSpeak.spokenFrame).map voiceFrame

/-- Whatever stands behind a packet, it tells every receiver of this frame, once. -/
def DecodesLegacy (message : List UInt8) (frame : VoiceFrame) : Prop :=
  ∀ host client mem target session, Holds mem 0 message →
    heardLegacy host client mem target session = [frame]

end LuaMumble.Transmit
