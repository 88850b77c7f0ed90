import LuaMumble.Audio.Ring
import LuaMumble.Lib.Machine
import Mathlib.Algebra.Ring.Nat

/-!
The playback of an audio file by two threads. The buffer thread reads the file
into the ring of the stream; the mixer, on the main thread, takes frames from the
ring on every tick and handles the end of the stream. The model is that of a
stereo file of 48 kHz without a fade, so that neither the channels nor the rate
are converted. Each input lets the buffer thread take its next step, or the main
thread make a tick or a call of `play`.
-/

namespace LuaMumble.Audio

abbrev Frame (α : Type) := α × α

def audioPlaybackChannels : Nat := 2

def sizeofFloat : Nat := 4

/-- `MAX_PCM_FRAMES`, for packets of `AUDIO_FRAME_SIZE_LARGE` milliseconds. -/
def maxPcmFrames : Nat := 60 * 48000 / 1000

def pcmBuffer : Nat := maxPcmFrames * audioPlaybackChannels

/-- What the playback of one stream uses of an `AudioStream`. `position` is that of
`file`; `atEnd` is the member `end`; `referenced` says that `refrence` is set, and
with it that the stream is in the `stream_list` of its client. -/
structure AudioStream (α : Type) where
  file : List (Frame α)
  position : Nat
  playing : Bool
  looping : Bool
  loopCount : Int
  atEnd : Bool
  ring : Ring α
  referenced : Bool
  reclaimed : Bool

variable {α : Type}

section Samples

/-- Frames as they lie in memory. -/
def samples : List (Frame α) → List α
  | [] => []
  | frame :: rest => frame.1 :: frame.2 :: samples rest

def framesOf : List α → List (Frame α)
  | l :: r :: rest => (l, r) :: framesOf rest
  | _ => []

@[simp] theorem samples_length (frames : List (Frame α)) :
    (samples frames).length = frames.length * audioPlaybackChannels := by
  induction frames with
  | nil => rfl
  | cons frame rest ih =>
      simp only [samples, List.length_cons, ih, audioPlaybackChannels]
      omega

theorem samples_append (xs ys : List (Frame α)) :
    samples (xs ++ ys) = samples xs ++ samples ys := by
  induction xs with
  | nil => rfl
  | cons frame rest ih => simp [samples, ih]

@[simp] theorem framesOf_samples (frames : List (Frame α)) :
    framesOf (samples frames) = frames := by
  induction frames with
  | nil => rfl
  | cons frame rest ih => simp [samples, framesOf, ih]

theorem samples_take (frames : List (Frame α)) (n : Nat) :
    (samples frames).take (n * audioPlaybackChannels) = samples (frames.take n) := by
  induction frames generalizing n with
  | nil => simp [samples]
  | cons frame rest ih =>
      cases n with
      | zero => rfl
      | succ n =>
          rw [audioPlaybackChannels, Nat.succ_mul]
          simpa [samples, audioPlaybackChannels] using ih n

theorem samples_drop (frames : List (Frame α)) (n : Nat) :
    (samples frames).drop (n * audioPlaybackChannels) = samples (frames.drop n) := by
  induction frames generalizing n with
  | nil => simp [samples]
  | cons frame rest ih =>
      cases n with
      | zero => rfl
      | succ n =>
          rw [audioPlaybackChannels, Nat.succ_mul]
          simpa [samples, audioPlaybackChannels] using ih n

end Samples

/-- `client_openAudio`: a ring of 500 ms. -/
def openAudio (file : List (Frame α)) (buffer : Nat → α) : AudioStream α :=
  { file := file
    position := 0
    playing := false
    looping := false
    loopCount := 0
    atEnd := false
    ring :=
      { buffer := buffer
        bufferSize := 48000
        used := 0
        head := 0
        tail := 0
        used_le := by decide
        tail_lt := by decide
        head_eq := by decide }
    referenced := false
    reclaimed := false }

/-- The second argument of `setLooping`; a number is a `lua_Integer`. -/
inductive LoopArgument where
  | number (n : Int64)
  | boolean (b : Bool)

/-- `audiostream_setLooping`; the loop count is an `int`. -/
def setLooping (sound : AudioStream α) : LoopArgument → AudioStream α
  | .number n => { sound with looping := false, loopCount := n.toInt32.toInt }
  | .boolean b => { sound with looping := b, loopCount := 0 }

/-- `audiostream_reset_playback_state` -/
def resetPlaybackState (sound : AudioStream α) : AudioStream α :=
  { sound with playing := false, atEnd := false, ring := ringReset sound.ring, position := 0 }

/-- `audiostream_play`, with `audio_transmission_reference`. -/
def play (sound : AudioStream α) : AudioStream α :=
  let sound := resetPlaybackState sound
  let sound := { sound with playing := true }
  if sound.referenced then sound else { sound with reclaimed := false, referenced := true }

/-- `audio_transmission_unreference_locked` -/
def unreferenceLocked (sound : AudioStream α) : AudioStream α :=
  resetPlaybackState { sound with referenced := false, reclaimed := true }

/-- `sf_readf_float`: fewer frames than asked for only at the end of the file. -/
def sfReadfFloat (sound : AudioStream α) (frames : Nat) : List (Frame α) × AudioStream α :=
  let read := (sound.file.drop sound.position).take frames
  (read, { sound with position := sound.position + read.length })

/-- `process_audio`: `output_data`, `eof_out`, and the stream. -/
def processAudio (sound : AudioStream α) (availableSpace : Nat) :
    List α × Bool × AudioStream α :=
  let availableOutputFrames := availableSpace / (audioPlaybackChannels * sizeofFloat)
  let inputFrames := availableOutputFrames
  let (input, sound) := sfReadfFloat sound inputFrames
  if input.length = 0 then ([], true, sound)
  else (samples input, decide (input.length < inputFrames), sound)

/-- Where the buffer thread is with the stream: not at it; behind `sound_try_pin`;
behind the test of `playing` and `end`; with what `process_audio` gave it; behind
`ring_write`. -/
inductive BufferThread (α : Type) where
  | away
  | pinned
  | checked
  | processed (outputAudio : List α) (eof : Bool)
  | written (eof : Bool)

structure System (α : Type) where
  sound : AudioStream α
  thread : BufferThread α

/-- What a step shows: the result of `process_audio`, the frames that the mixer took
and whether it called `OnAudioStreamEnd`, or the loop setting at a call of `play`. -/
inductive Output (α : Type) where
  | silent
  | decoded (eof : Bool)
  | mixed (frames : List (Frame α)) (streamEnd : Bool)
  | played (looping : Bool) (loopCount : Int)

inductive Input where
  | buffer
  | tick (outputFrames : Nat) (fits : outputFrames ≤ maxPcmFrames)
  | play

/-- The next step of `mumble_audio_buffer_thread`. -/
def bufferStep (s : System α) : Output α × System α :=
  match s.thread with
  | .away =>
      if s.sound.referenced && !s.sound.reclaimed then (.silent, { s with thread := .pinned })
      else (.silent, s)
  | .pinned =>
      if s.sound.playing && !s.sound.atEnd then (.silent, { s with thread := .checked })
      else (.silent, { s with thread := .away })
  | .checked =>
      let usedSamples := ringCount s.sound.ring
      let spaceSamples := ringSpace s.sound.ring
      if usedSamples < s.sound.ring.bufferSize / 2 then
        let (outputAudio, eof, sound) := processAudio s.sound (spaceSamples * sizeofFloat)
        (.decoded eof, { sound := sound, thread := .processed outputAudio eof })
      else (.silent, { s with thread := .away })
  | .processed outputAudio eof =>
      (.silent, { sound := { s.sound with ring := ringWrite s.sound.ring outputAudio }
                  thread := .written eof })
  | .written eof =>
      if eof then (.silent, { sound := { s.sound with atEnd := true }, thread := .away })
      else (.silent, { s with thread := .away })

/-- `handle_audio_stream_end`: whether it calls `OnAudioStreamEnd`, and the stream. -/
def handleAudioStreamEnd (sound : AudioStream α) : Bool × AudioStream α :=
  let sound := { sound with position := 0, atEnd := false }
  if sound.looping then (false, sound)
  else if 0 < sound.loopCount then (false, { sound with loopCount := sound.loopCount - 1 })
  else (true, unreferenceLocked sound)

/-- `process_audio_file` -/
def processAudioFile (sound : AudioStream α) (sampleSize : Nat) : Output α × AudioStream α :=
  if sound.reclaimed then (.silent, sound)
  else if pcmBuffer < sampleSize then (.silent, sound)
  else
    let framesAvailable := ringCount sound.ring / audioPlaybackChannels
    let framesToRead := min framesAvailable sampleSize
    let samplesToRead := min (framesToRead * audioPlaybackChannels) pcmBuffer
    let (inputBuffer, ring) := ringRead sound.ring samplesToRead
    let read := inputBuffer.length / audioPlaybackChannels
    let sound := { sound with ring := ring }
    if sound.atEnd && read < sampleSize then
      let (streamEnd, sound) := handleAudioStreamEnd sound
      (.mixed (framesOf inputBuffer) streamEnd, sound)
    else (.mixed (framesOf inputBuffer) false, sound)

/-- What `audio_encode_event` does with the stream. -/
def mixerTick (s : System α) (outputFrames : Nat) : Output α × System α :=
  if s.sound.referenced && !s.sound.reclaimed && s.sound.playing then
    let (output, sound) := processAudioFile s.sound outputFrames
    (output, { s with sound := sound })
  else (.silent, s)

def step (s : System α) : Input → Output α × System α
  | .buffer => bufferStep s
  | .tick outputFrames _ => mixerTick s outputFrames
  | .play => (.played s.sound.looping s.sound.loopCount, { s with sound := play s.sound })

/-- The frames of a step that the mixer took. -/
def Output.frames : Output α → List (Frame α)
  | .mixed frames _ => frames
  | _ => []

def Output.streamEnds : Output α → Nat
  | .mixed _ true => 1
  | _ => 0

/-- The frames that the mixer took, in order. -/
def taken (log : List (Output α)) : List (Frame α) := log.flatMap Output.frames

/-- How often `OnAudioStreamEnd` was called. -/
def streamEnds (log : List (Output α)) : Nat := (log.map Output.streamEnds).sum

/-- The file played `n` times over. -/
def repeated (file : List (Frame α)) (n : Nat) : List (Frame α) := (List.replicate n file).flatten

end LuaMumble.Audio
