import LuaMumble.Audio.Control
import LuaMumble.Lib.FloatConversion

/-!
The fades of a stream. `fadeTo` and `fadeOut` start a fade of so many frames, which the mixer
goes along with every frame that it takes; a fade of `fadeOut` raises the end flag behind its
last frame. The stream, the buffer thread and the mixer are those of the playback; a file may
have any format, so that what `process_audio` makes of it is given with the step.

The volume of a stream and those of its fade are a `float`, and the volume of the client is a
`double`, as every number of a script.
-/

namespace LuaMumble.Audio.Fading

open Lib.FloatConversion

/-- The members of an `AudioStream` for its fade. -/
structure Fade where
  frames : Int
  framesLeft : Int
  stop : Bool
  volume : Float32
  fromVolume : Float32
  toVolume : Float32

/-- A stream with its volume and its fade, and the buffer thread. -/
structure Stream (α : Type) extends System α where
  volume : Float32
  fade : Fade

/-- What `process_audio` gives: the frames, whether the file is at its end, and the position of
the file. -/
structure Decoded (α : Type) where
  frames : List (Frame α)
  eof : Bool
  position : Nat

/-- The calls of a script. For a fade whose number of frames is none, `beyond` is what is stored
in its place. -/
inductive Call where
  | play
  | pause
  | stop
  | setLooping (loops : LoopArgument)
  | setVolume (volume : Float)
  | fadeTo (volume time : Float) (beyond : Int)
  | fadeOut (time : Float) (beyond : Int)

/-- What happens next: a step of the buffer thread, a tick of the mixer, or a call. -/
inductive Input (α : Type) where
  | buffer (decoded : Decoded α)
  | tick (outputFrames : Nat) (fits : outputFrames ≤ maxPcmFrames) (clientVolume : Float)
  | call (c : Call)

/-- What a step shows: the frames that the mixer took, with the volumes it mixed them at, and
whether it called `OnAudioStreamEnd`. -/
inductive Output (α : Type) where
  | silent
  | mixed (frames : List (Frame α × Float32)) (streamEnd : Bool)

variable {α : Type}

def Output.frames : Output α → List (Frame α × Float32)
  | .mixed frames _ => frames
  | .silent => []

/-- The frames that the mixer took, in order. -/
def mixed (log : List (Output α)) : List (Frame α × Float32) := log.flatMap Output.frames

/-- `client_openAudio` -/
def opened (file : List (Frame α)) (buffer : Nat → α) : Stream α :=
  { sound := openAudio file buffer
    thread := .away
    volume := 1
    fade :=
      { frames := 0
        framesLeft := 0
        stop := false
        volume := 1
        fromVolume := 0
        toVolume := 0 } }

/-- The fade as `audiostream_reset_playback_state` leaves it. -/
def Fade.reset (fade : Fade) : Fade :=
  { fade with volume := 1, frames := 0, framesLeft := 0, stop := false }

/-- `AUDIO_SAMPLE_RATE * time` as an `sf_count_t`. The time is a `float`, and so is the product. -/
def fadeFrames (time : Float) : Option Int := truncate (48000 * toSingle time)

/-- `audiostream_fadeTo` -/
def Fade.fadeTo (volume time : Float) (beyond : Int) (fade : Fade) : Fade :=
  { fade with
    frames := (fadeFrames time).getD beyond
    framesLeft := (fadeFrames time).getD beyond
    fromVolume := fade.volume
    toVolume := toSingle volume }

/-- `audiostream_fadeOut` -/
def Fade.fadeOut (time : Float) (beyond : Int) (fade : Fade) : Fade :=
  { fade with
    frames := (fadeFrames time).getD beyond
    framesLeft := (fadeFrames time).getD beyond
    fromVolume := fade.volume
    toVolume := 0
    stop := true }

def Call.run (s : Stream α) : Call → Stream α
  | .play => { s with sound := Audio.play s.sound, fade := s.fade.reset }
  | .pause => { s with sound := Audio.pause s.sound }
  | .stop =>
      { s with
        sound := Audio.stop s.sound
        fade := if s.sound.playing then s.fade.reset else s.fade }
  | .setLooping loops => { s with sound := Audio.setLooping s.sound loops }
  | .setVolume volume => { s with volume := toSingle volume }
  | .fadeTo volume time beyond => { s with fade := s.fade.fadeTo volume time beyond }
  | .fadeOut time beyond => { s with fade := s.fade.fadeOut time beyond }

/-- The next step of `mumble_audio_buffer_thread`. -/
def bufferStep (decoded : Decoded α) (s : Stream α) : Stream α :=
  match s.thread with
  | .checked =>
      if ringCount s.sound.ring < s.sound.ring.bufferSize / 2 then
        { s with
          sound := { s.sound with position := decoded.position }
          thread := .processed (samples decoded.frames) decoded.eof }
      else { s with thread := .away }
  | _ => { s with toSystem := (Audio.bufferStep s.toSystem).2 }

/-- The fade at a frame, and the end flag behind it. -/
def Fade.next (fade : Fade) (atEnd : Bool) : Fade × Bool :=
  if 0 < fade.framesLeft then
    let framesLeft := fade.framesLeft - 1
    ({ fade with
        framesLeft := framesLeft
        volume := fade.toVolume + (fade.fromVolume - fade.toVolume) *
          (Float32.ofInt framesLeft / Float32.ofInt fade.frames) },
      atEnd)
  else if fade.stop then ({ fade with volume := 0 }, true)
  else (fade, atEnd)

/-- The loop of `process_audio_file` along the frames of a stream that has a fade; `volume` is
that of the stream and of the client. -/
def mixFaded (volume : Float) :
    Fade → Bool → List (Frame α) → List (Frame α × Float32) × Fade × Bool
  | fade, atEnd, [] => ([], fade, atEnd)
  | fade, atEnd, frame :: rest =>
      let (fade, atEnd) := fade.next atEnd
      let (mixed, last) := mixFaded volume fade atEnd rest
      ((frame, toSingle (volume * toDouble fade.volume)) :: mixed, last)

/-- Both loops. -/
def mix (volume : Float) (fade : Fade) (atEnd : Bool) (frames : List (Frame α)) :
    List (Frame α × Float32) × Fade × Bool :=
  if 0 < fade.frames then mixFaded volume fade atEnd frames
  else (frames.map fun frame => (frame, toSingle volume), fade, atEnd)

/-- `handle_audio_stream_end` -/
def handleAudioStreamEnd (s : Stream α) : Bool × Stream α :=
  let (streamEnd, sound) := Audio.handleAudioStreamEnd s.sound
  (streamEnd, { s with sound := sound, fade := if streamEnd then s.fade.reset else s.fade })

/-- `process_audio_file` -/
def processAudioFile (clientVolume : Float) (sampleSize : Nat) (s : Stream α) :
    Output α × Stream α :=
  if s.sound.reclaimed then (.silent, s)
  else if pcmBuffer < sampleSize then (.silent, s)
  else
    let framesAvailable := ringCount s.sound.ring / audioPlaybackChannels
    let framesToRead := min framesAvailable sampleSize
    let samplesToRead := min (framesToRead * audioPlaybackChannels) pcmBuffer
    let (inputBuffer, ring) := ringRead s.sound.ring samplesToRead
    let read := inputBuffer.length / audioPlaybackChannels
    let (frames, fade, atEnd) :=
      mix (toDouble s.volume * clientVolume) s.fade s.sound.atEnd (framesOf inputBuffer)
    let s := { s with sound := { s.sound with ring := ring, atEnd := atEnd }, fade := fade }
    if s.sound.atEnd && read < sampleSize then
      let (streamEnd, s) := handleAudioStreamEnd s
      (.mixed frames streamEnd, s)
    else (.mixed frames false, s)

/-- What `audio_encode_event` does with the stream. -/
def mixerTick (clientVolume : Float) (outputFrames : Nat) (s : Stream α) : Output α × Stream α :=
  if s.sound.referenced && !s.sound.reclaimed && s.sound.playing then
    processAudioFile clientVolume outputFrames s
  else (.silent, s)

def step (s : Stream α) : Input α → Output α × Stream α
  | .buffer decoded => (.silent, bufferStep decoded s)
  | .tick outputFrames _ clientVolume => mixerTick clientVolume outputFrames s
  | .call c => (.silent, c.run s)

section Mixing

theorem framesOf_length (l : List α) : (framesOf l).length = l.length / audioPlaybackChannels := by
  induction l using framesOf.induct with
  | case1 l r rest ih =>
      simp only [framesOf, List.length_cons, ih, audioPlaybackChannels]
      omega
  | case2 l hshort =>
      rw [framesOf]
      · cases l with
        | nil => simp
        | cons l rest =>
            cases rest with
            | nil => simp [audioPlaybackChannels]
            | cons r rest => exact absurd rfl (hshort l r rest)
      · exact hshort

theorem mix_frames (volume : Float) (fade : Fade) (atEnd : Bool) (frames : List (Frame α)) :
    (mix volume fade atEnd frames).1.map Prod.fst = frames := by
  have hfaded : ∀ fade atEnd, (mixFaded volume fade atEnd frames).1.map Prod.fst = frames := by
    induction frames with
    | nil => exact fun _ _ => rfl
    | cons frame rest ih =>
        intro fade atEnd
        rw [mixFaded, List.map_cons, ih]
  unfold mix
  split
  · exact hfaded fade atEnd
  · simp [Function.comp_def]

theorem mix_length (volume : Float) (fade : Fade) (atEnd : Bool) (frames : List (Frame α)) :
    (mix volume fade atEnd frames).1.length = frames.length := by
  rw [← List.length_map Prod.fst, mix_frames]

/-- The loop along a fade of `fadeOut`: what it takes behind the last frame of the fade raises the
flag, and is silent if the volume of the stream and of the client is a finite number. -/
theorem mixFaded_stop {volume : Float} {fade : Fade} {left : Nat} (hleft : fade.framesLeft = left)
    (hstop : fade.stop = true) (atEnd : Bool) (frames : List (Frame α))
    (hvolume : left < frames.length → volume.isFinite = true) :
    let result := mixFaded volume fade atEnd frames
    (∀ x ∈ result.1.drop left, IsZero x.2) ∧
      result.2.1.framesLeft = ((left - frames.length : Nat) : Int) ∧
      result.2.1.frames = fade.frames ∧ result.2.1.stop = true ∧
      result.2.2 = (atEnd || decide (left < frames.length)) := by
  induction frames generalizing fade left atEnd with
  | nil => simp [mixFaded, hleft, hstop]
  | cons frame rest ih =>
      cases left with
      | zero =>
          have hnext : fade.next atEnd = ({ fade with volume := 0 }, true) := by
            simp [Fade.next, hleft, hstop]
          obtain ⟨hsilent, hrest, hframes, hagain, hend⟩ :=
            @ih { fade with volume := 0 } 0 hleft hstop true fun _ => hvolume (Nat.succ_pos _)
          simp only [mixFaded, hnext]
          refine ⟨?_, ?_, hframes, hagain, ?_⟩
          · intro x hx
            rcases List.mem_cons.mp hx with rfl | hx
            · exact (isZero_mul_zero_iff volume).mpr (hvolume (Nat.succ_pos _))
            · exact hsilent x hx
          · rw [hrest]
            simp
          · rw [hend]
            simp
      | succ left =>
          have hpos : 0 < fade.framesLeft := by omega
          obtain ⟨hsilent, hrest, hframes, hagain, hend⟩ :=
            @ih (fade.next atEnd).1 left
              (by simp only [Fade.next, if_pos hpos]; omega)
              (by simp only [Fade.next, if_pos hpos, hstop]) atEnd
              fun hless => hvolume (Nat.succ_lt_succ hless)
          have hflag : (fade.next atEnd).2 = atEnd := by simp only [Fade.next, if_pos hpos]
          have hsame : (fade.next atEnd).1.frames = fade.frames := by
            simp only [Fade.next, if_pos hpos]
          simp only [mixFaded, hflag]
          refine ⟨hsilent, ?_, hframes.trans hsame, hagain, ?_⟩
          · rw [hrest]
            simp
          · rw [hend]
            simp

/-- A turn of the mixer takes what is queued, as far as there is room for it in the packet. -/
theorem processAudioFile_eq (clientVolume : Float) {s : Stream α}
    (hreclaimed : s.sound.reclaimed = false) {sampleSize : Nat}
    (hfits : sampleSize ≤ maxPcmFrames) :
    ∃ ring frames, frames.length = min (s.sound.ring.used / audioPlaybackChannels) sampleSize ∧
      ring.used + frames.length * audioPlaybackChannels = s.sound.ring.used ∧
      ring.bufferSize = s.sound.ring.bufferSize ∧
      processAudioFile clientVolume sampleSize s =
        let result := mix (toDouble s.volume * clientVolume) s.fade s.sound.atEnd frames
        let s' : Stream α :=
          { s with
            sound := { s.sound with ring := ring, atEnd := result.2.2 }
            fade := result.2.1 }
        if result.2.2 && frames.length < sampleSize then
          (.mixed result.1 (handleAudioStreamEnd s').1, (handleAudioStreamEnd s').2)
        else (.mixed result.1 false, s') := by
  obtain ⟨count, hcount⟩ : ∃ count, count =
      min (min (s.sound.ring.used / audioPlaybackChannels) sampleSize * audioPlaybackChannels)
        pcmBuffer := ⟨_, rfl⟩
  have hchannels : audioPlaybackChannels = 2 := rfl
  have hpcm : pcmBuffer = maxPcmFrames * 2 := rfl
  obtain ⟨hread, hrest⟩ := ringRead_eq s.sound.ring count
  have hlength : (ringRead s.sound.ring count).1.length = count := by
    rw [hread, List.length_take, Ring.contents_length, hcount, hchannels]
    omega
  have hframes := framesOf_length (ringRead s.sound.ring count).1
  rw [hlength] at hframes
  refine ⟨(ringRead s.sound.ring count).2, framesOf (ringRead s.sound.ring count).1, ?_, ?_,
    ringRead_bufferSize _ _, ?_⟩
  · rw [hframes]
    simp only [hchannels] at hcount ⊢
    omega
  · rw [← Ring.contents_length, hrest, List.length_drop, Ring.contents_length, hframes]
    simp only [hchannels] at hcount ⊢
    omega
  · have hroom : ¬ pcmBuffer < sampleSize := by omega
    simp only [processAudioFile, hreclaimed, Bool.false_eq_true, if_false, if_neg hroom, ringCount,
      ← hcount, hframes, hlength]

end Mixing

section Unfaded

/-- What `process_audio` gives for a stereo file of 48 kHz. -/
def decodedStereo (sound : AudioStream α) : Decoded α :=
  let (output, eof, after) := processAudio sound (ringSpace sound.ring * sizeofFloat)
  { frames := framesOf output, eof := eof, position := after.position }

/-- With such a file the buffer thread is that of the playback. -/
theorem bufferStep_stereo (s : Stream α) :
    bufferStep (decodedStereo s.sound) s =
      { s with toSystem := (Audio.bufferStep s.toSystem).2 } := by
  obtain ⟨⟨sound, thread⟩, volume, fade⟩ := s
  cases thread with
  | checked =>
      obtain ⟨input, hinput⟩ : ∃ input, input = (sound.file.drop sound.position).take
          (ringSpace sound.ring * sizeofFloat / (audioPlaybackChannels * sizeofFloat)) := ⟨_, rfl⟩
      by_cases hempty : input.length = 0
      · simp only [bufferStep, Audio.bufferStep, decodedStereo, processAudio, sfReadfFloat,
          ← hinput, if_pos hempty]
        split <;> rfl
      · simp only [bufferStep, Audio.bufferStep, decodedStereo, processAudio, sfReadfFloat,
          ← hinput, if_neg hempty, framesOf_samples]
        split <;> rfl
  | _ => rfl

/-- Without a fade the mixer is that of the playback. -/
theorem mixerTick_of_no_fade (clientVolume : Float) (outputFrames : Nat) {s : Stream α}
    (hfade : s.fade.frames ≤ 0) :
    (mixerTick clientVolume outputFrames s).2.toSystem =
        (Audio.mixerTick s.toSystem outputFrames).2 ∧
      (mixerTick clientVolume outputFrames s).1.frames.map Prod.fst =
        (Audio.mixerTick s.toSystem outputFrames).1.frames := by
  have hnot : ¬ 0 < s.fade.frames := by omega
  simp only [mixerTick, Audio.mixerTick, processAudioFile, Audio.processAudioFile, mix, if_neg hnot,
    handleAudioStreamEnd]
  split_ifs <;> simp [Output.frames, Audio.Output.frames, Function.comp_def]

end Unfaded

end LuaMumble.Audio.Fading
