import LuaMumble.Audio.Encode
import LuaMumble.Audio.ProcessAudio
import LuaMumble.Buffer.Refinement
import LuaMumble.Lib.CheckedLoop
import LuaMumble.Lib.Precision

/-!
The loop of `audio_encode_event` over the audio buffers of scripts, with their data.
A script chooses the sample rate and the number of channels of a buffer, and nothing
looks at either. Integers have the widths of the source, and the frames of a packet are
a product of floats; divisions in floating point are exact. Where the source divides
by 0, overflows an `int` or stores outside an array, the loop has a fault and ends.
-/

namespace LuaMumble.Audio.MixBuffer

open Lib Buffer
open Conversion (Memory Resampler sizeT truncate toStereo resampleAudio audioSampleRate)
open CheckedLoop (loop bind_eq_ok)
open Encode (PacketSize)

/-- What the loop uses of an `AudioContext`, as `opus_int32` and `int`. -/
structure AudioContext where
  samplerate : Int32
  channels : Int32

/-- A buffer of `audio_pipes`. All that was written to it is in its block. -/
structure AudioPipe where
  context : Option AudioContext
  buffer : ByteBuffer
  written_le : buffer.writeHead ≤ buffer.capacity

/-- The calls of `malloc` and of the resampler in the turn of a buffer, with the value
of a float in four bytes. -/
structure Library where
  inputMemory : Memory
  /-- What is in `input_buffer` at first. -/
  inputBuffer : Nat → ℚ
  stereoMemory : Memory
  outputMemory : Memory
  resampler : Resampler
  floatValue : List UInt8 → ℚ

/-- What the loop uses of a `MumbleClient`. -/
structure MumbleClient where
  packetSize : PacketSize
  volume : ℚ

inductive Fault where
  | divisionByZero
  | intOverflow
  | inputBuffer (index : Nat)
  | audioOutput (index : Nat)
  | byteBuffer

/-- `audio_output`, `biggest_read` and `streamed_audio`. -/
structure Mix where
  audioOutput : Nat → ℚ × ℚ
  biggestRead : Int
  streamedAudio : Bool

/-- What the turn of a buffer leaves. -/
structure Turn where
  buffer : ByteBuffer
  mix : Mix
  /-- `input_buffer` behind the loop that reads it, unless a `continue` ends the turn. -/
  inputBuffer : Option (List ℚ)

/-- `client_createAudioBuffer` with its optional arguments; nothing where it raises
an error. -/
def clientCreateAudioBuffer (heap : Heap) (context : Bool) (srcState : Bool)
    (samplerate channels : Option Int64) : Option AudioPipe :=
  match hinit : bufferInit heap (pcmBuffer * sizeofFloat) with
  | none => none
  | some buffer =>
      if context && srcState then
        some
          { context := some
              { samplerate := (samplerate.getD 48000).toInt32
                channels := (channels.getD 2).toInt32 }
            buffer := buffer
            written_le := by
              obtain ⟨block, -, rfl⟩ := Option.map_eq_some_iff.mp hinit
              exact Nat.zero_le _ }
      else none

/-- A whole number as a `float`. -/
def asFloat (n : Int) : Int := Precision.roundInt 24 n

/-- `client->audio_frames * (float)context->samplerate` -/
def frameProduct (audioFrames : Nat) (samplerate : Int) : Int :=
  asFloat (audioFrames * asFloat samplerate)

section Turn

variable (client : MumbleClient) (context : AudioContext)

/-- The size of `input_buffer` in bytes. The source computes it with `size_t`. -/
def inputSize : Nat :=
  let perChannel :=
    sizeT (sizeofFloat * client.packetSize.audioFrames * context.samplerate.toInt) / 1000
  sizeT (perChannel * context.channels.toInt)

/-- `input_frames`; the comparison is one of `size_t`. -/
def inputFrames (length : Nat) : Int :=
  let inputFrameSize :=
    truncate (frameProduct client.packetSize.audioFrames context.samplerate.toInt / 1000 : ℚ)
  let inputFramesActual := length / sizeofFloat / sizeT context.channels.toInt
  if inputFramesActual < sizeT inputFrameSize then inputFramesActual else inputFrameSize

/-- Reads a sample and stores it at `index`, which is an `int`. -/
def readSample (library : Library) (index : Nat) (s : ByteBuffer × (Nat → ℚ)) :
    Except Fault (ByteBuffer × (Nat → ℚ)) :=
  match bufferReadAs .float s.1 with
  | none => .error .byteBuffer
  | some (_, sample, buffer) =>
      if 2 ^ 31 ≤ index then .error .intOverflow
      else if inputSize client context < (index + 1) * sizeofFloat then .error (.inputBuffer index)
      else
        .ok (buffer, Function.update s.2 index (library.floatValue sample * client.volume))

/-- The two loops that fill `input_buffer`; `i` is an `int`, too. -/
def readSamples (library : Library) (frames : Nat) (s : ByteBuffer × (Nat → ℚ)) :
    Except Fault (ByteBuffer × (Nat → ℚ)) :=
  let channels := context.channels.toInt.toNat
  loop (fun i s =>
    (loop (fun j => readSample client context library (i * channels + j)) channels s).bind fun s =>
      if 2 ^ 31 ≤ i + 1 then .error .intOverflow else .ok s) frames s

/-- Adds a frame of `resampled_audio` to `audio_output`. -/
def mixFrame (resampledAudio : List ℚ) (i : Nat) (audioOutput : Nat → ℚ × ℚ) :
    Except Fault (Nat → ℚ × ℚ) :=
  if i < maxPcmFrames then
    .ok (Function.update audioOutput i
      ((audioOutput i).1 + resampledAudio.getD (i * 2) 0,
        (audioOutput i).2 + resampledAudio.getD (i * 2 + 1) 0))
  else .error (.audioOutput i)

/-- The turn behind the loops that read the samples. -/
def mixSamples (library : Library) (frames : Nat) (resampleRatio : ℚ) (samples : List ℚ)
    (buffer : ByteBuffer) (mix : Mix) : Except Fault Turn :=
  match toStereo library.stereoMemory context.channels.toInt.toNat samples frames with
  | none => .ok ⟨buffer, mix, none⟩
  | some stereo =>
      -- `convert_mono_to_multi` counts the samples with an `int`.
      if context.channels.toInt = 1 ∧ 2 ^ 31 < frames * audioPlaybackChannels then
        .error .intOverflow
      else
        let actualOutputFrames := ⌈(frames : ℚ) * resampleRatio⌉
        let (resampledFrames, resampledAudio) := resampleAudio library.outputMemory
          library.resampler stereo frames actualOutputFrames resampleRatio false
        (loop (mixFrame (resampledAudio.getD [])) resampledFrames.toNat mix.audioOutput).bind
          fun audioOutput =>
            match bufferPack buffer with
            | none => .error .byteBuffer
            | some buffer => .ok
                { buffer := buffer
                  mix :=
                    { audioOutput := audioOutput
                      biggestRead :=
                        if resampledFrames > mix.biggestRead then resampledFrames
                        else mix.biggestRead
                      streamedAudio := mix.streamedAudio || decide (resampledFrames > 0) }
                  inputBuffer := some samples }

/-- The turn of a buffer with a context. -/
def mixBuffer (library : Library) (buffer : ByteBuffer) (mix : Mix) : Except Fault Turn :=
  let buffer := bufferFlip buffer
  let length := bufferLength buffer
  if length = 0 then .ok ⟨buffer, mix, none⟩
  else if library.inputMemory (inputSize client context) = false then .ok ⟨buffer, mix, none⟩
  else if context.channels = 0 then .error .divisionByZero
  else if context.samplerate = 0 then .error .divisionByZero
  else
    let frames := (inputFrames client context length).toNat
    let resampleRatio := audioSampleRate / context.samplerate.toInt
    (readSamples client context library frames (buffer, library.inputBuffer)).bind
      fun (buffer, inputBuffer) =>
        let samples := (List.range (frames * context.channels.toInt.toNat)).map inputBuffer
        mixSamples context library frames resampleRatio samples buffer mix

end Turn

/-- The turn of a buffer. -/
def mixPipe (client : MumbleClient) (pipe : AudioPipe) (library : Library) (mix : Mix) :
    Except Fault Turn :=
  match pipe.context with
  | none => .ok ⟨pipe.buffer, mix, none⟩
  | some context => mixBuffer client context library pipe.buffer mix

/-- The loop over the buffers, with the turn of each. -/
def mixPipes (client : MumbleClient) :
    List (AudioPipe × Library) → Mix → Except Fault (List Turn × Mix)
  | [], mix => .ok ([], mix)
  | (pipe, library) :: rest, mix =>
      (mixPipe client pipe library mix).bind fun turn =>
        (mixPipes client rest turn.mix).map fun (turns, mix) => (turn :: turns, mix)

/-- What was written to a buffer. -/
def AudioPipe.bytes (pipe : AudioPipe) : List UInt8 :=
  pipe.buffer.data.bytes.take pipe.buffer.writeHead

/-- The frames that a turn takes of `length` bytes: all whole ones, and no more than a
packet holds of a rate above 0. Nothing limits them for a negative rate, if a packet
would hold a frame of the opposite rate. -/
def wholeFrames (audioFrames : Nat) (samplerate channels : Int) (length : Nat) : Nat :=
  if channels ≤ 0 then 0
  else if 0 < samplerate then
    min (length / 4 / channels.toNat) (frameProduct audioFrames samplerate / 1000).toNat
  else if -1000 < frameProduct audioFrames samplerate then 0
  else length / 4 / channels.toNat

/-- The bytes that are asked for as `input_buffer`, modulo 2^64. -/
def requested (audioFrames : Nat) (samplerate channels : Int) : Nat :=
  (4 * audioFrames * samplerate % 2 ^ 64 / 1000 * channels % 2 ^ 64).toNat

theorem AudioPipe.stores_flip (pipe : AudioPipe) :
    Stores ⟨[], pipe.bytes⟩ (bufferFlip pipe.buffer) := by
  have hlength : pipe.bytes.length = pipe.buffer.writeHead :=
    List.length_take_of_le pipe.written_le
  refine ⟨rfl, ?_, List.take_prefix _ _⟩
  rw [hlength]
  exact (Nat.zero_add _).symm

theorem AudioPipe.bytes_length_lt (pipe : AudioPipe) : pipe.bytes.length < 2 ^ 63 := by
  have hcapacity := pipe.buffer.capacity_lt
  have hlength : pipe.bytes.length = pipe.buffer.writeHead :=
    List.length_take_of_le pipe.written_le
  have hwritten := pipe.written_le
  omega

theorem sizeT_of_nonneg {n : Int} (hnonneg : 0 ≤ n) (hlt : n < 2 ^ 64) : sizeT n = n.toNat := by
  rw [sizeT, Int.emod_eq_of_lt hnonneg hlt]

section Arithmetic

theorem truncate_div_thousand (n : Int) : truncate ((n : ℚ) / 1000) = n.tdiv 1000 := by
  rw [truncate]
  split
  · rename_i h
    have hnonneg : 0 ≤ n := by
      have hmul : (0 : ℚ) ≤ n := by
        rwa [le_div_iff₀ (by norm_num), zero_mul] at h
      exact_mod_cast hmul
    have hfloor := Rat.floor_intCast_div_natCast n 1000
    rw [Int.tdiv_eq_ediv_of_nonneg hnonneg]
    exact_mod_cast hfloor
  · rename_i h
    have hneg : n < 0 := by
      have hmul : (n : ℚ) < 0 := by
        rwa [not_le, div_lt_iff₀ (by norm_num), zero_mul] at h
      exact_mod_cast hmul
    have hceil := Rat.ceil_intCast_div_natCast n 1000
    have hdiv : n.tdiv 1000 = -((-n) / 1000) := by
      rw [← Int.tdiv_eq_ediv_of_nonneg (by omega : 0 ≤ -n), Int.neg_tdiv, neg_neg]
    rw [hdiv]
    exact_mod_cast hceil

variable (client : MumbleClient) (context : AudioContext)

theorem inputSize_eq : inputSize client context =
    requested client.packetSize.audioFrames context.samplerate.toInt context.channels.toInt := by
  have hnonneg :
      0 ≤ sizeofFloat * client.packetSize.audioFrames * context.samplerate.toInt % (2 ^ 64 : Int) :=
    Int.emod_nonneg _ (by norm_num)
  rw [inputSize, requested, sizeT, sizeT, Int.natCast_ediv, Int.toNat_of_nonneg hnonneg]
  rfl

theorem audioFrames_le : client.packetSize.audioFrames ≤ 60 := by
  cases client.packetSize <;> decide

theorem asFloat_nonneg {n : Int} (hn : 0 ≤ n) : 0 ≤ asFloat n :=
  mul_nonneg (Int.sign_nonneg_iff.mpr hn) (Int.natCast_nonneg _)

theorem asFloat_nonpos {n : Int} (hn : n ≤ 0) : asFloat n ≤ 0 := by
  apply mul_nonpos_of_nonpos_of_nonneg
  · exact Int.sign_nonpos_iff.mpr hn
  · exact Int.natCast_nonneg _

theorem abs_asFloat_le (n : Int) : |asFloat n| ≤ 2 * |n| := by
  rcases eq_or_ne n 0 with rfl | hn
  · simp [asFloat, Precision.roundInt]
  · have hround := Precision.roundNearestEven_le (p := 24) (n := n.natAbs)
    have hunit : Precision.unit 24 n.natAbs ≤ n.natAbs :=
      Precision.unit_le (by omega) (by omega)
    have habs : |asFloat n| = Precision.roundNearestEven 24 n.natAbs := by
      rw [asFloat, Precision.roundInt, abs_mul, Nat.abs_cast, Int.abs_sign_of_ne_zero hn, one_mul]
    rw [habs, ← Int.natCast_natAbs n]
    omega

theorem frameProduct_nonneg (audioFrames : Nat) {samplerate : Int} (hrate : 0 ≤ samplerate) :
    0 ≤ frameProduct audioFrames samplerate :=
  asFloat_nonneg (mul_nonneg (Int.natCast_nonneg _) (asFloat_nonneg hrate))

theorem frameProduct_nonpos (audioFrames : Nat) {samplerate : Int} (hrate : samplerate ≤ 0) :
    frameProduct audioFrames samplerate ≤ 0 :=
  asFloat_nonpos (mul_nonpos_of_nonneg_of_nonpos (Int.natCast_nonneg _) (asFloat_nonpos hrate))

theorem abs_frameProduct_le :
    |frameProduct client.packetSize.audioFrames context.samplerate.toInt| ≤ 240 * 2 ^ 31 := by
  have hlow := Int32.le_toInt context.samplerate
  have hhigh := Int32.toInt_lt context.samplerate
  have hrate : |context.samplerate.toInt| ≤ 2 ^ 31 := abs_le.mpr ⟨by omega, by omega⟩
  have hle := audioFrames_le client
  calc
    |frameProduct client.packetSize.audioFrames context.samplerate.toInt|
    _ ≤ 2 * |client.packetSize.audioFrames * asFloat context.samplerate.toInt| :=
        abs_asFloat_le _
    _ = 2 * (client.packetSize.audioFrames * |asFloat context.samplerate.toInt|) := by
        rw [abs_mul, Nat.abs_cast]
    _ ≤ 2 * (60 * (2 * 2 ^ 31)) := by
        have hfloat := abs_asFloat_le context.samplerate.toInt
        apply mul_le_mul_of_nonneg_left _ (by norm_num)
        exact mul_le_mul (by omega) (by omega) (abs_nonneg _) (by norm_num)
    _ = 240 * 2 ^ 31 := by norm_num

theorem frameSize_bounds :
    |(client.packetSize.audioFrames : Int) * context.samplerate.toInt| ≤ 60 * 2 ^ 31 := by
  have hle := audioFrames_le client
  have hlow := Int32.le_toInt context.samplerate
  have hhigh := Int32.toInt_lt context.samplerate
  have hrate : |context.samplerate.toInt| ≤ 2 ^ 31 := abs_le.mpr ⟨by omega, by omega⟩
  rw [abs_mul, Nat.abs_cast]
  exact mul_le_mul (by omega) hrate (abs_nonneg _) (by norm_num)

/-- The frames of the source are the whole frames. -/
theorem inputFrames_eq {length : Nat} (hlength : length < 2 ^ 63)
    (hchannels : context.channels.toInt ≠ 0) :
    inputFrames client context length = wholeFrames client.packetSize.audioFrames
      context.samplerate.toInt context.channels.toInt length := by
  have hlow := Int32.le_toInt context.channels
  have hhigh := Int32.toInt_lt context.channels
  have hbounds := abs_le.mp (abs_frameProduct_le client context)
  have hactual : length / sizeofFloat / sizeT context.channels.toInt =
      if context.channels.toInt ≤ 0 then 0 else length / 4 / context.channels.toInt.toNat := by
    split
    · have hbig : 2 ^ 63 ≤ sizeT context.channels.toInt := by
        rw [sizeT]
        omega
      exact Nat.div_eq_of_lt (lt_of_le_of_lt (Nat.div_le_self _ _) (by omega))
    · rw [sizeT_of_nonneg (by omega) (by omega)]
      rfl
  have hless : length / 4 / context.channels.toInt.toNat < 2 ^ 63 :=
    lt_of_le_of_lt ((Nat.div_le_self _ _).trans (Nat.div_le_self _ _)) hlength
  rw [inputFrames, truncate_div_thousand, hactual, wholeFrames]
  generalize length / 4 / context.channels.toInt.toNat = actual at hless
  rcases le_or_gt context.samplerate.toInt 0 with hrate | hrate
  · have hnonpos := frameProduct_nonpos client.packetSize.audioFrames hrate
    generalize frameProduct client.packetSize.audioFrames context.samplerate.toInt = size at *
    have hdiv : size.tdiv 1000 = -(-size / 1000) := by
      rw [← Int.tdiv_eq_ediv_of_nonneg (by omega : 0 ≤ -size), Int.neg_tdiv, neg_neg]
    rw [hdiv, sizeT, if_neg (not_lt.mpr hrate)]
    split_ifs <;> omega
  · have hnonneg := frameProduct_nonneg client.packetSize.audioFrames hrate.le
    generalize frameProduct client.packetSize.audioFrames context.samplerate.toInt = size at *
    rw [if_pos hrate, Int.tdiv_eq_ediv_of_nonneg hnonneg, sizeT_of_nonneg (by omega) (by omega)]
    split_ifs <;> omega

theorem wholeFrames_of_not_pos {audioFrames length : Nat} {samplerate channels : Int}
    (h : channels ≤ 0) : wholeFrames audioFrames samplerate channels length = 0 :=
  if_pos h

/-- No more bytes than there are. -/
theorem four_mul_wholeFrames_le (audioFrames length : Nat) (samplerate channels : Int) :
    4 * (wholeFrames audioFrames samplerate channels length * channels.toNat) ≤ length := by
  have hall : 4 * (length / 4 / channels.toNat * channels.toNat) ≤ length :=
    (Nat.mul_le_mul_left 4 (Nat.div_mul_le_self _ _)).trans (Nat.mul_div_le _ _)
  rw [wholeFrames]
  split_ifs
  · omega
  · exact (Nat.mul_le_mul_left 4 (Nat.mul_le_mul_right _ (min_le_left _ _))).trans hall
  · omega
  · exact hall

/-- For a rate above 0, frames that fit into what is asked for as `input_buffer` are no more
than a packet of exact length has. -/
theorem frames_le_of_fit {frames : Nat} (hrate : 0 < context.samplerate.toInt)
    (hchannels : 0 < context.channels.toInt)
    (hfit : 4 * (frames * context.channels.toInt.toNat) ≤
      requested client.packetSize.audioFrames context.samplerate.toInt
        context.channels.toInt) :
    1000 * (frames : Int) ≤ client.packetSize.audioFrames * context.samplerate.toInt := by
  have hbounds := abs_le.mp (frameSize_bounds client context)
  have hhigh := Int32.toInt_lt context.channels
  have hassoc : 4 * (client.packetSize.audioFrames : Int) * context.samplerate.toInt =
      4 * (client.packetSize.audioFrames * context.samplerate.toInt) := mul_assoc _ _ _
  have hsize : 0 ≤ (client.packetSize.audioFrames : Int) * context.samplerate.toInt :=
    mul_nonneg (Int.natCast_nonneg _) hrate.le
  rw [requested, hassoc] at hfit
  generalize (client.packetSize.audioFrames : Int) * context.samplerate.toInt = size at *
  generalize context.channels.toInt = channels at *
  have hmod : 4 * size % 2 ^ 64 = 4 * size := Int.emod_eq_of_lt (by omega) (by omega)
  have hproduct : 4 * size / 1000 * channels ≤ 515396076 * 2 ^ 31 :=
    mul_le_mul (by omega) hhigh.le hchannels.le (by norm_num)
  have hnonneg : 0 ≤ 4 * size / 1000 * channels :=
    mul_nonneg (by omega) hchannels.le
  rw [hmod, Int.emod_eq_of_lt hnonneg (by omega)] at hfit
  have hcast : ((4 * (frames * channels.toNat) : Nat) : Int) = 4 * frames * channels := by
    push_cast
    rw [Int.toNat_of_nonneg hchannels.le, mul_assoc]
  have hbytes : 4 * frames * channels ≤ 4 * size / 1000 * channels := by omega
  have hfour := le_of_mul_le_mul_right hbytes hchannels
  omega

/-- A rate whose product is rounded up: its frames do not fit. -/
example : ¬ 4 * (frameProduct 60 8948133 / 1000).toNat ≤ requested 60 8948133 1 := by decide

/-- The frames of a rate above 0 that fit are counted by an `int`, also as stereo. -/
theorem wholeFrames_lt {length : Nat} (hrate : 0 < context.samplerate.toInt)
    (hfit : 4 * (wholeFrames client.packetSize.audioFrames context.samplerate.toInt
        context.channels.toInt length * context.channels.toInt.toNat) ≤
      requested client.packetSize.audioFrames context.samplerate.toInt
        context.channels.toInt) :
    wholeFrames client.packetSize.audioFrames context.samplerate.toInt
      context.channels.toInt length < 2 ^ 30 := by
  rcases le_or_gt context.channels.toInt 0 with hchannels | hchannels
  · rw [wholeFrames_of_not_pos hchannels]
    norm_num
  · have hframes := frames_le_of_fit client context hrate hchannels hfit
    have hbounds := abs_le.mp (frameSize_bounds client context)
    omega

/-- The output of frames that fit is at most a packet, whatever the rate. -/
theorem outputFrames_le {length : Nat} (hrate : context.samplerate.toInt ≠ 0)
    (hfit : 4 * (wholeFrames client.packetSize.audioFrames context.samplerate.toInt
        context.channels.toInt length * context.channels.toInt.toNat) ≤
      requested client.packetSize.audioFrames context.samplerate.toInt
        context.channels.toInt) :
    ⌈(wholeFrames client.packetSize.audioFrames context.samplerate.toInt
        context.channels.toInt length : ℚ) *
      (audioSampleRate / context.samplerate.toInt)⌉.toNat ≤ maxPcmFrames := by
  have hle := audioFrames_le client
  rw [Int.toNat_le, Int.ceil_le, audioSampleRate]
  rcases le_or_gt context.channels.toInt 0 with hchannels | hchannels
  · rw [wholeFrames_of_not_pos hchannels, Nat.cast_zero, zero_mul]
    exact Nat.cast_nonneg maxPcmFrames
  rcases lt_or_gt_of_ne hrate with hneg | hpos
  · have hnonpos : (48000 / context.samplerate.toInt : ℚ) ≤ 0 :=
      div_nonpos_of_nonneg_of_nonpos (by norm_num) (by exact_mod_cast hneg.le)
    exact (mul_nonpos_of_nonneg_of_nonpos (Nat.cast_nonneg _) hnonpos).trans (by positivity)
  · have hframes := frames_le_of_fit client context hpos hchannels hfit
    generalize wholeFrames client.packetSize.audioFrames context.samplerate.toInt
      context.channels.toInt length = frames at hframes
    have hthousand : 1000 * (frames : Int) ≤ 60 * context.samplerate.toInt := by
      have hsize : (client.packetSize.audioFrames : Int) * context.samplerate.toInt ≤
          60 * context.samplerate.toInt :=
        mul_le_mul_of_nonneg_right (by omega) hpos.le
      omega
    have hrational : (1000 * frames : ℚ) ≤ 60 * context.samplerate.toInt := by
      exact_mod_cast hthousand
    have hdivisor : (0 : ℚ) < context.samplerate.toInt := by exact_mod_cast hpos
    rw [← mul_div_assoc, div_le_iff₀ hdivisor]
    have hmost : ((maxPcmFrames : Int) : ℚ) = 2880 := by
      norm_num [maxPcmFrames]
    rw [hmost]
    linarith

end Arithmetic

section Turns

variable (client : MumbleClient) (context : AudioContext) (library : Library) (pipe : AudioPipe)
  (mix : Mix)

/-- The whole frames of the bytes of a buffer. -/
def framesOf (bytes : List UInt8) : Nat :=
  wholeFrames client.packetSize.audioFrames context.samplerate.toInt context.channels.toInt
    bytes.length

theorem toInt_eq_zero_iff (n : Int32) : n = 0 ↔ n.toInt = 0 :=
  Int32.toInt_inj.symm

/-- The turn of a buffer, in terms of the bytes that were written to it. -/
theorem mixBuffer_eq : mixBuffer client context library pipe.buffer mix =
    if pipe.bytes.length = 0 then .ok ⟨bufferFlip pipe.buffer, mix, none⟩
    else if library.inputMemory (requested client.packetSize.audioFrames
        context.samplerate.toInt context.channels.toInt) = false then
      .ok ⟨bufferFlip pipe.buffer, mix, none⟩
    else if context.channels.toInt = 0 then .error .divisionByZero
    else if context.samplerate.toInt = 0 then .error .divisionByZero
    else
      let frames := framesOf client context pipe.bytes
      (readSamples client context library frames
        (bufferFlip pipe.buffer, library.inputBuffer)).bind fun s =>
          mixSamples context library frames (audioSampleRate / context.samplerate.toInt)
            ((List.range (frames * context.channels.toInt.toNat)).map s.2) s.1 mix := by
  have hlength : bufferLength (bufferFlip pipe.buffer) = pipe.bytes.length :=
    bufferLength_spec pipe.stores_flip
  rw [mixBuffer, hlength]
  simp only [inputSize_eq, toInt_eq_zero_iff]
  by_cases hchannels : context.channels.toInt = 0
  · rw [if_pos hchannels, if_pos hchannels]
  · rw [if_neg hchannels, if_neg hchannels,
      inputFrames_eq client context pipe.bytes_length_lt hchannels, Int.toNat_natCast]
    rfl

end Turns

section Written

variable (heap : Heap)

theorem bufferAdjust_writeHead (buffer : ByteBuffer) (size : Nat) :
    (bufferAdjust heap buffer size).2.writeHead = buffer.writeHead := by
  rw [bufferAdjust]
  split
  · rw [bufferResize]
    split <;> rfl
  · rfl

/-- What a write stores is in the block. -/
theorem written_le_of_write {pipe : AudioPipe} {data : List UInt8} {size : Nat}
    {buffer : ByteBuffer} (h : bufferWrite heap pipe.buffer data = some (size, buffer)) :
    buffer.writeHead ≤ buffer.capacity := by
  obtain ⟨after, hput, heq⟩ := Option.map_eq_some_iff.mp h
  cases heq
  obtain ⟨block, hstore, rfl⟩ := Option.map_eq_some_iff.mp hput
  have hroom : (bufferAdjust heap pipe.buffer data.length).2.writeHead + data.length ≤
      (bufferAdjust heap pipe.buffer data.length).2.data.bytes.length := by
    cases data with
    | nil =>
        have hcapacity := pipe.buffer.capacity_lt
        have hwritten := pipe.written_le
        have hsame : bufferAdjust heap pipe.buffer 0 = (0, pipe.buffer) := by
          rw [bufferAdjust, Nat.add_zero, wrap_of_lt (by omega)]
          exact if_neg (not_lt.mpr hwritten)
        rw [List.length_nil, hsame]
        exact hwritten
    | cons byte rest => exact le_of_store (List.cons_ne_nil byte rest) hstore
  obtain ⟨block', hstore', hlength, -⟩ := store_of_le hroom
  obtain rfl : block' = block := Option.some.inj (hstore'.symm.trans hstore)
  have hcapacity : block'.bytes.length < 2 ^ 63 := block'.length_lt
  change wrap _ ≤ block'.bytes.length
  rw [wrap_of_lt (by omega), hlength]
  exact hroom

/-- `buffer:write` on an audio buffer; nothing where `buffer_write` stores outside the
block. -/
def AudioPipe.write (pipe : AudioPipe) (data : List UInt8) : Option AudioPipe :=
  match hwrite : bufferWrite heap pipe.buffer data with
  | none => none
  | some (_, buffer) =>
      some { pipe with buffer := buffer, written_le := written_le_of_write heap hwrite }

end Written

section Refinement

variable {client : MumbleClient} {library : Library} {mix : Mix} {turn : Turn}

theorem mixPipes_cons_ok {p : AudioPipe × Library} {rest : List (AudioPipe × Library)}
    {after : Mix} {turns : List Turn}
    (h : mixPipes client (p :: rest) mix = .ok (turns, after)) :
    ∃ turn turns', mixPipe client p.1 p.2 mix = .ok turn ∧
      mixPipes client rest turn.mix = .ok (turns', after) := by
  obtain ⟨turn, hturn, hrest⟩ := bind_eq_ok h
  refine ⟨turn, turns.tail, hturn, ?_⟩
  cases hresult : mixPipes client rest turn.mix with
  | error fault =>
      rw [hresult] at hrest
      cases hrest
  | ok result =>
      rw [hresult] at hrest
      cases hrest
      rfl

/-- `biggest_read` and `streamed_audio` behind a buffer that gives so many frames. -/
def Counts (mix : Mix) (resampledFrames : Int) (after : Mix) : Prop :=
  after.biggestRead =
      (if resampledFrames > mix.biggestRead then resampledFrames else mix.biggestRead) ∧
    after.streamedAudio = (mix.streamedAudio || decide (resampledFrames > 0))

theorem counts_zero (hmix : 0 ≤ mix.biggestRead) : Counts mix 0 mix :=
  ⟨(if_neg (not_lt.mpr hmix)).symm, (Bool.or_false _).symm⟩

theorem mixSamples_counts {context : AudioContext} {frames : Nat} {resampleRatio : ℚ}
    {samples : List ℚ} {buffer : ByteBuffer} (hmix : 0 ≤ mix.biggestRead)
    (h : mixSamples context library frames resampleRatio samples buffer mix = .ok turn) :
    ∃ resampledFrames, Counts mix resampledFrames turn.mix := by
  rw [mixSamples] at h
  split at h
  · cases h
    exact ⟨0, counts_zero hmix⟩
  · split at h
    · cases h
    · rename_i stereo _ _
      dsimp only at h
      generalize resampleAudio library.outputMemory library.resampler stereo frames
        ⌈(frames : ℚ) * resampleRatio⌉ resampleRatio false = resampled at h
      obtain ⟨audioOutput, -, hturn⟩ := bind_eq_ok h
      cases hpack : bufferPack buffer with
      | none =>
          rw [hpack] at hturn
          cases hturn
      | some packed =>
          rw [hpack] at hturn
          cases hturn
          exact ⟨resampled.1, rfl, rfl⟩

theorem mixBuffer_counts {context : AudioContext} {pipe : AudioPipe}
    (hmix : 0 ≤ mix.biggestRead)
    (h : mixBuffer client context library pipe.buffer mix = .ok turn) :
    ∃ resampledFrames, Counts mix resampledFrames turn.mix ∧
      (pipe.bytes.length = 0 → resampledFrames = 0) := by
  rw [mixBuffer_eq] at h
  split at h
  · cases h
    exact ⟨0, counts_zero hmix, fun _ => rfl⟩
  · rename_i hsome
    have hcounts : ∃ resampledFrames, Counts mix resampledFrames turn.mix := by
      split at h
      · cases h
        exact ⟨0, counts_zero hmix⟩
      · split at h
        · cases h
        · split at h
          · cases h
          · obtain ⟨s, -, hturn⟩ := bind_eq_ok h
            exact mixSamples_counts hmix hturn
    obtain ⟨resampledFrames, hcounts⟩ := hcounts
    exact ⟨resampledFrames, hcounts, fun hempty => absurd hempty hsome⟩

/-- What the mixer of the ticks is told of a buffer. -/
def abstractPipe (pipe : AudioPipe) (resampledFrames : Int) : Encode.AudioPipe :=
  ⟨pipe.context.isSome, pipe.bytes.length, resampledFrames⟩

/-- `biggest_read` and `streamed_audio`, as the mixer of the ticks has them. -/
def Mix.abstract (mix : Mix) : Nat × Bool := (mix.biggestRead.toNat, mix.streamedAudio)

theorem Counts.biggestRead_nonneg {resampledFrames : Int} {after : Mix}
    (h : Counts mix resampledFrames after) (hmix : 0 ≤ mix.biggestRead) :
    0 ≤ after.biggestRead := by
  rw [h.1]
  split <;> omega

theorem Counts.abstract_eq {resampledFrames : Int} {after : Mix} {pipe : AudioPipe}
    (h : Counts mix resampledFrames after) (hmix : 0 ≤ mix.biggestRead)
    (hcontext : pipe.context.isSome = true)
    (hempty : pipe.bytes.length = 0 → resampledFrames = 0) :
    Encode.mixPipe mix.abstract (abstractPipe pipe resampledFrames) = after.abstract := by
  obtain ⟨hbiggest, hstreamed⟩ := h
  rw [Encode.mixPipe, abstractPipe, hcontext, Mix.abstract, Mix.abstract, hbiggest, hstreamed]
  by_cases hsome : pipe.bytes.length = 0
  · rw [hempty hsome, if_neg (not_lt.mpr hmix)]
    simp [hsome]
  · simp only [Bool.not_true, Bool.false_eq_true, if_false, if_neg hsome]
    rw [Int.toNat_of_nonneg hmix]
    congr 1
    split <;> rfl

/-- The turn of a buffer does what the mixer of the ticks makes of it. -/
theorem mixPipe_refines {pipe : AudioPipe} (hmix : 0 ≤ mix.biggestRead)
    (h : mixPipe client pipe library mix = .ok turn) :
    0 ≤ turn.mix.biggestRead ∧ ∃ resampledFrames,
      Encode.mixPipe mix.abstract (abstractPipe pipe resampledFrames) = turn.mix.abstract := by
  rw [mixPipe] at h
  cases hcontext : pipe.context with
  | none =>
      rw [hcontext] at h
      cases h
      refine ⟨hmix, 0, ?_⟩
      rw [Encode.mixPipe, abstractPipe, hcontext]
      rfl
  | some context =>
      rw [hcontext] at h
      obtain ⟨resampledFrames, hcounts, hempty⟩ := mixBuffer_counts hmix h
      exact ⟨hcounts.biggestRead_nonneg hmix, resampledFrames,
        hcounts.abstract_eq hmix (by rw [hcontext]; rfl) hempty⟩

/-- The loop over the buffers does to `biggest_read` and `streamed_audio` what the mixer of
the ticks does, for some numbers of frames from the resampler. -/
theorem mixPipes_refine {pipes : List (AudioPipe × Library)} {turns : List Turn} {after : Mix}
    (hmix : 0 ≤ mix.biggestRead) (h : mixPipes client pipes mix = .ok (turns, after)) :
    ∃ resampled : List Int, resampled.length = pipes.length ∧
      (List.zipWith (fun p frames => abstractPipe p.1 frames) pipes resampled).foldl
        Encode.mixPipe mix.abstract = after.abstract := by
  induction pipes generalizing mix turns with
  | nil =>
      cases h
      exact ⟨[], rfl, rfl⟩
  | cons p rest ih =>
      obtain ⟨turn, turns', hturn, hrest⟩ := mixPipes_cons_ok h
      obtain ⟨hnonneg, frames, hframes⟩ := mixPipe_refines hmix hturn
      obtain ⟨resampled, hlength, hfold⟩ := ih hnonneg hrest
      refine ⟨frames :: resampled, congrArg Nat.succ hlength, ?_⟩
      rw [List.zipWith_cons_cons, List.foldl_cons, hframes]
      exact hfold

end Refinement

end LuaMumble.Audio.MixBuffer
