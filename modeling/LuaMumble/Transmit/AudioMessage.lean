import LuaMumble.Lib.Protobuf
import LuaMumble.Voice.Bounds

/-!
The generated code for the message `Audio` of `MumbleUDP.proto`, as `client_transmit` and a
receiver use it. The client does not say which field of the union of `target` and `context` it
has set, so neither is packed.
-/

namespace LuaMumble.Transmit

open Lib Lib.TracedRead Lib.Protobuf Voice

/-- The keys of the fields: the number of a field, and how its value is written. -/
def senderSessionKey : Nat := 3 <<< 3
def frameNumberKey : Nat := 4 <<< 3
def opusDataKey : Nat := 5 <<< 3 ||| 2
def isTerminatorKey : Nat := 16 <<< 3

/-- The bytes that a field takes. -/
def fieldSize (key : Nat) (present : Bool) (size : Nat) : Nat :=
  if present then (encodeVarint key).length + size else 0

/-- `mumble_udp__audio__get_packed_size` -/
def packedSize (audio : Audio) : Nat :=
  fieldSize senderSessionKey (audio.senderSession.toNat != 0)
      (encodeVarint audio.senderSession.toNat).length +
    fieldSize frameNumberKey (audio.frameNumber.toNat != 0)
      (encodeVarint audio.frameNumber.toNat).length +
    fieldSize opusDataKey (!audio.opusData.isEmpty)
      ((encodeVarint audio.opusData.length).length + audio.opusData.length) +
    fieldSize isTerminatorKey audio.isTerminator 1

/-- `mumble_udp__audio__pack` and `mumble_udp__audio__unpack`: a message is packed in as many
bytes as it is said to need, and what was packed is unpacked. -/
structure AudioPacker where
  pack : Audio → List UInt8
  unpack : List UInt8 → Option Audio
  length_pack : ∀ audio, (pack audio).length = packedSize audio
  unpack_pack : ∀ audio, ∃ received, unpack (pack audio) = some received ∧
    received.frameNumber = audio.frameNumber ∧ received.opusData = audio.opusData ∧
    received.isTerminator = audio.isTerminator

/-- The receiver unpacks the bytes that it is given, and no others. -/
def Unpacks (host : Host) (packer : AudioPacker) : Prop :=
  ∀ len mem, host.audioUnpack len mem = packer.unpack (bytesAt mem 0 len.toNat)

section Wire

/-- A message in the order of its keys. -/
def packAudio (audio : Audio) : List UInt8 :=
  packField senderSessionKey (audio.senderSession.toNat != 0)
      (encodeVarint audio.senderSession.toNat) ++
    (packField frameNumberKey (audio.frameNumber.toNat != 0)
        (encodeVarint audio.frameNumber.toNat) ++
      (packField opusDataKey (!audio.opusData.isEmpty) (encodeBytes audio.opusData) ++
        (packField isTerminatorKey audio.isTerminator (encodeVarint 1) ++ [])))

def unpackAudio (input : List UInt8) : Option Audio := do
  let (senderSession, input) ← unpackField senderSessionKey decodeVarint 0 input
  let (frameNumber, input) ← unpackField frameNumberKey decodeVarint 0 input
  let (opusData, input) ← unpackField opusDataKey decodeBytes [] input
  let (isTerminator, input) ← unpackField isTerminatorKey decodeVarint 0 input
  if input.isEmpty then
    pure
      { frameNumber := UInt64.ofNat frameNumber
        isTerminator := isTerminator != 0
        target := 0
        context := 0
        opusData := opusData
        senderSession := UInt32.ofNat senderSession }
  else none

theorem length_packField (key : Nat) (present : Bool) (content : List UInt8) :
    (packField key present content).length = fieldSize key present content.length := by
  unfold packField fieldSize
  split
  · exact List.length_append
  · rfl

theorem length_packAudio (audio : Audio) : (packAudio audio).length = packedSize audio := by
  simp only [packAudio, packedSize, List.length_append, length_packField, encodeBytes,
    List.length_nil, encodeVarint_of_lt (show 1 < 128 by decide), List.length_singleton]
  omega

theorem unpackAudio_pack (audio : Audio) :
    unpackAudio (packAudio audio) = some { audio with target := 0, context := 0 } := by
  -- what stands behind a field are fields of higher keys
  have hopusData : FieldsAbove opusDataKey
      (packField isTerminatorKey audio.isTerminator (encodeVarint 1) ++ []) :=
    fieldsAbove_pack (by decide) fieldsAbove_nil
  have hframeNumber : FieldsAbove frameNumberKey
      (packField opusDataKey (!audio.opusData.isEmpty) (encodeBytes audio.opusData) ++
        (packField isTerminatorKey audio.isTerminator (encodeVarint 1) ++ [])) :=
    fieldsAbove_pack (by decide) (fieldsAbove_pack (by decide) fieldsAbove_nil)
  have hsession : FieldsAbove senderSessionKey
      (packField frameNumberKey (audio.frameNumber.toNat != 0)
          (encodeVarint audio.frameNumber.toNat) ++
        (packField opusDataKey (!audio.opusData.isEmpty) (encodeBytes audio.opusData) ++
          (packField isTerminatorKey audio.isTerminator (encodeVarint 1) ++ []))) := by
    apply fieldsAbove_pack (by decide)
    exact fieldsAbove_pack (by decide) (fieldsAbove_pack (by decide) fieldsAbove_nil)
  have hflag : (audio.isTerminator.toNat != 0) = audio.isTerminator := by
    cases audio.isTerminator <;> rfl
  simp only [packAudio, unpackAudio, unpackField_varint _ hsession,
    unpackField_varint _ hframeNumber, unpackField_bytes _ hopusData,
    unpackField_flag _ fieldsAbove_nil, Option.bind_eq_bind, Option.bind_some,
    List.isEmpty_nil, if_true, hflag, UInt64.ofNat_toNat, UInt32.ofNat_toNat]
  rfl

/-- The wire format as a packer. -/
def wirePacker : AudioPacker where
  pack := packAudio
  unpack := unpackAudio
  length_pack := length_packAudio
  unpack_pack audio := ⟨_, unpackAudio_pack audio, rfl, rfl, rfl⟩

end Wire

end LuaMumble.Transmit
