import LuaMumble.Audio.Playback

/-!
The ticks of the mixer. `audio_encode_event` mixes what the playing files and the audio buffers
give and queues a packet, which may be marked as the last. A tick is given the streams as they
stand at their turn and the buffers after the callbacks of `OnAudioStream`: other threads and
scripts may change both in between. What the resampler returns for a buffer is given with it.
Samples are left out, and memory is there.
-/

namespace LuaMumble.Audio.Encode

open Lib

/-- The values of `audio_frames`, the milliseconds of a packet. -/
inductive PacketSize where
  | tiny
  | small
  | medium
  | large

def PacketSize.audioFrames : PacketSize → Nat
  | .tiny => 10
  | .small => 20
  | .medium => 40
  | .large => 60

def audioSampleRate : Nat := 48000

/-- `output_frames` -/
def PacketSize.outputFrames (size : PacketSize) : Nat := size.audioFrames * audioSampleRate / 1000

/-- An `AudioStream` at its turn. `framesAvailable` is what the ring holds. -/
structure AudioStream where
  reclaimed : Bool
  playing : Bool
  framesAvailable : Nat
  atEnd : Bool
  looping : Bool
  loopCount : Nat
  fadeFrames : Nat
  fadeFramesLeft : Nat
  fadeStop : Bool

/-- A buffer of `audio_pipes`: if it has a context, the bytes that are unread, and what
`resample_audio` returns. -/
structure AudioPipe where
  context : Bool
  length : Nat
  resampledFrames : Int

/-- What a tick is given. -/
structure Tick where
  packetSize : PacketSize
  streamList : List AudioStream
  audioPipes : List AudioPipe

/-- `audio_work_t` -/
structure AudioWork where
  frameSize : Nat
  endFrame : Bool
  audioSequence : UInt32
  deriving DecidableEq

/-- What ticks use of a `MumbleClient`. -/
structure MumbleClient where
  audioStreamActive : Bool
  audioSequence : UInt32

/-- `biggest_read` and `didLoop`. -/
structure Mix where
  biggestRead : Nat
  didLoop : Bool

/-- `handle_audio_stream_end`: if the stream goes on. Otherwise `OnAudioStreamEnd` is called
and the stream is taken out of the list. -/
def handleAudioStreamEnd (sound : AudioStream) : Bool :=
  sound.looping || decide (0 < sound.loopCount)

/-- The frames that `process_audio_file` reads from the ring. -/
def framesRead (sampleSize : Nat) (sound : AudioStream) : Nat :=
  let framesToRead :=
    if sound.framesAvailable < sampleSize then sound.framesAvailable else sampleSize
  if framesToRead > 0 then
    min (framesToRead * audioPlaybackChannels) pcmBuffer / audioPlaybackChannels
  else 0

/-- The member `end` behind the loop over the frames: a fade that stops the stream does so at
the first frame behind it. -/
def endAfter (sound : AudioStream) (read : Nat) : Bool :=
  if sound.fadeFrames > 0 then
    sound.atEnd || (sound.fadeStop && decide (sound.fadeFramesLeft < read))
  else sound.atEnd

/-- `process_audio_file` -/
def processAudioFile (sampleSize : Nat) (mix : Mix) (sound : AudioStream) : Mix :=
  if sound.reclaimed then mix
  else if sampleSize > pcmBuffer then mix
  else
    let read := framesRead sampleSize sound
    { biggestRead := if read > mix.biggestRead then read else mix.biggestRead
      didLoop :=
        if endAfter sound read && decide (read < sampleSize) then
          mix.didLoop || handleAudioStreamEnd sound
        else mix.didLoop }

/-- The turn of a stream: `sound_try_pin` and the test of `playing`. -/
def mixStream (sampleSize : Nat) (mix : Mix) (sound : AudioStream) : Mix :=
  if !sound.reclaimed && sound.playing then processAudioFile sampleSize mix sound else mix

/-- The turn of a buffer: `biggest_read` and `streamed_audio`. -/
def mixPipe (mix : Nat × Bool) (pipe : AudioPipe) : Nat × Bool :=
  if !pipe.context then mix
  else if pipe.length = 0 then mix
  else
    (if pipe.resampledFrames > mix.1 then pipe.resampledFrames.toNat else mix.1,
      mix.2 || decide (pipe.resampledFrames > 0))

/-- `encode_audio` -/
def encodeAudio (client : MumbleClient) (frameSize : Nat) (endFrame : Bool) :
    Option AudioWork × MumbleClient :=
  if frameSize > maxPcmFrames then (none, client)
  else
    (some ⟨frameSize, endFrame, client.audioSequence⟩,
      { client with audioSequence := client.audioSequence + 1 })

/-- The loop over the streams. -/
def Tick.files (tick : Tick) : Mix :=
  tick.streamList.foldl (mixStream tick.packetSize.outputFrames) ⟨0, false⟩

/-- The loop over the buffers behind it. -/
def Tick.mixed (tick : Tick) : Nat × Bool :=
  tick.audioPipes.foldl mixPipe (tick.files.biggestRead, false)

/-- `audio_encode_event`, with the packet that it queues. -/
def audioEncodeEvent (client : MumbleClient) (tick : Tick) : Option AudioWork × MumbleClient :=
  let outputFrames := tick.packetSize.outputFrames
  let biggestRead := tick.mixed.1
  let streamedAudio := tick.mixed.2
  let streamEnded := client.audioStreamActive && !streamedAudio
  let endFrame := !tick.files.didLoop && (decide (biggestRead < outputFrames) && streamEnded)
  let queued :=
    if decide (biggestRead > 0) || endFrame then encodeAudio client outputFrames endFrame
    else (none, client)
  (queued.1, { queued.2 with audioStreamActive := streamedAudio })

/-- Each run of packets ends with one that is marked. -/
def Terminated (works : List (Option AudioWork)) : Prop :=
  ∀ n work, works[n]? = some (some work) → works[n + 1]? = some none → work.endFrame = true

namespace AudioStream

variable (sound : AudioStream)

/-- The stream plays frames in the tick. -/
def Heard : Prop := sound.reclaimed = false ∧ sound.playing = true ∧ 0 < sound.framesAvailable

/-- The stream comes to its end, or to the end of a fade that stops it, in less than a packet,
and starts anew. -/
def Loops (sampleSize : Nat) : Prop :=
  sound.reclaimed = false ∧ sound.playing = true ∧ sound.framesAvailable < sampleSize ∧
    (sound.atEnd = true ∨
      0 < sound.fadeFrames ∧ sound.fadeStop = true ∧ sound.fadeFramesLeft < sound.framesAvailable) ∧
    (sound.looping = true ∨ 0 < sound.loopCount)

end AudioStream

/-- The buffer plays frames in the tick. -/
def AudioPipe.Heard (pipe : AudioPipe) : Prop :=
  pipe.context = true ∧ 0 < pipe.length ∧ 0 < pipe.resampledFrames

namespace Tick

variable (tick : Tick)

def FilesHeard : Prop := ∃ sound ∈ tick.streamList, sound.Heard

def PipesHeard : Prop := ∃ pipe ∈ tick.audioPipes, pipe.Heard

def Loops : Prop := ∃ sound ∈ tick.streamList, sound.Loops tick.packetSize.outputFrames

/-- No file has a whole packet. -/
def Short : Prop :=
  ∀ sound ∈ tick.streamList, sound.Heard → sound.framesAvailable < tick.packetSize.outputFrames

end Tick

/-- Where a tick has something to play and the next has not: a buffer plays in the first and no
file starts anew in the next; or only files play in the first, with less than a packet each and
without starting anew, and a buffer played in the tick before. -/
def StopsMarked (active : Bool) (tick next : Tick) : Prop :=
  tick.FilesHeard ∨ tick.PipesHeard → ¬ next.FilesHeard → ¬ next.PipesHeard →
    (tick.PipesHeard ∧ ¬ next.Loops) ∨
      (¬ tick.PipesHeard ∧ active = true ∧ tick.Short ∧ ¬ tick.Loops)

theorem outputFrames_pos (size : PacketSize) : 0 < size.outputFrames := by
  cases size <;> decide

theorem outputFrames_le (size : PacketSize) : size.outputFrames ≤ maxPcmFrames := by
  cases size <;> decide

section Mixing

variable {sampleSize : Nat}

theorem framesRead_eq (hsize : sampleSize ≤ maxPcmFrames) (sound : AudioStream) :
    framesRead sampleSize sound = min sound.framesAvailable sampleSize := by
  simp only [framesRead, pcmBuffer, audioPlaybackChannels]
  split <;> split <;> omega

theorem mixStream_played (hsize : sampleSize ≤ maxPcmFrames) (mix : Mix) {sound : AudioStream}
    (hreclaimed : sound.reclaimed = false) (hplaying : sound.playing = true) :
    mixStream sampleSize mix sound =
      { biggestRead := max mix.biggestRead (min sound.framesAvailable sampleSize)
        didLoop := mix.didLoop ||
          (endAfter sound (min sound.framesAvailable sampleSize) &&
            decide (sound.framesAvailable < sampleSize) && handleAudioStreamEnd sound) } := by
  have hfits : ¬ sampleSize > pcmBuffer := by
    simp only [pcmBuffer, audioPlaybackChannels]
    omega
  have hshort : min sound.framesAvailable sampleSize < sampleSize ↔
      sound.framesAvailable < sampleSize := by omega
  simp only [mixStream, processAudioFile, hreclaimed, hplaying, Bool.not_false, Bool.and_self,
    if_true, Bool.false_eq_true, if_false, hfits, framesRead_eq hsize, hshort]
  congr 1
  · split <;> omega
  · cases endAfter sound (min sound.framesAvailable sampleSize) <;>
      cases decide (sound.framesAvailable < sampleSize) <;> simp

/-- What a file adds to `biggest_read`. -/
theorem lt_mixStream_iff (hsize : sampleSize ≤ maxPcmFrames) (mix : Mix) (sound : AudioStream)
    (k : Nat) : k < (mixStream sampleSize mix sound).biggestRead ↔
      k < mix.biggestRead ∨
        sound.reclaimed = false ∧ sound.playing = true ∧ k < sound.framesAvailable ∧
          k < sampleSize := by
  cases hreclaimed : sound.reclaimed with
  | true => simp [mixStream, hreclaimed]
  | false =>
      cases hplaying : sound.playing with
      | false => simp [mixStream, hplaying]
      | true =>
          rw [mixStream_played hsize mix hreclaimed hplaying]
          simp only [true_and]
          omega

theorem didLoop_mixStream_iff (hsize : sampleSize ≤ maxPcmFrames) (mix : Mix)
    (sound : AudioStream) : (mixStream sampleSize mix sound).didLoop = true ↔
      mix.didLoop = true ∨ sound.Loops sampleSize := by
  unfold AudioStream.Loops
  cases hreclaimed : sound.reclaimed with
  | true => simp [mixStream, hreclaimed]
  | false =>
      cases hplaying : sound.playing with
      | false => simp [mixStream, hplaying]
      | true =>
          rw [mixStream_played hsize mix hreclaimed hplaying]
          by_cases hshort : sound.framesAvailable < sampleSize
          · have hmin : min sound.framesAvailable sampleSize = sound.framesAvailable := by omega
            simp only [hmin, endAfter, handleAudioStreamEnd, hshort]
            split
            · rename_i hfade
              simp [hfade]
            · rename_i hfade
              simp [Nat.eq_zero_of_not_pos hfade]
          · simp [hshort]

theorem lt_mixPipe_iff (mix : Nat × Bool) (pipe : AudioPipe) (k : Nat) :
    k < (mixPipe mix pipe).1 ↔
      k < mix.1 ∨ pipe.context = true ∧ 0 < pipe.length ∧ (k : Int) < pipe.resampledFrames := by
  unfold mixPipe
  cases hcontext : pipe.context with
  | false => simp
  | true =>
      by_cases hlength : pipe.length = 0
      · simp [hlength]
      · simp only [Bool.not_true, Bool.false_eq_true, if_false, hlength, true_and,
          Nat.pos_of_ne_zero hlength]
        split <;> omega

theorem streamed_mixPipe_iff (mix : Nat × Bool) (pipe : AudioPipe) :
    (mixPipe mix pipe).2 = true ↔ mix.2 = true ∨ pipe.Heard := by
  unfold mixPipe AudioPipe.Heard
  cases hcontext : pipe.context with
  | false => simp
  | true =>
      by_cases hlength : pipe.length = 0
      · simp [hlength]
      · simp [hlength, Nat.pos_of_ne_zero hlength]

/-- What each entry of a list may add, the loop over the list adds if one of them does. -/
theorem foldl_iff {A B : Type} {f : B → A → B} (P : B → Prop) {Q : A → Prop}
    (h : ∀ b a, P (f b a) ↔ P b ∨ Q a) (entries : List A) (b : B) :
    P (entries.foldl f b) ↔ P b ∨ ∃ a ∈ entries, Q a := by
  induction entries generalizing b with
  | nil => simp
  | cons a rest ih => rw [List.foldl_cons, ih, h, List.exists_mem_cons_iff, or_assoc]

theorem lt_mixStreams_iff (hsize : sampleSize ≤ maxPcmFrames) (sounds : List AudioStream)
    (k : Nat) (mix : Mix) : k < (sounds.foldl (mixStream sampleSize) mix).biggestRead ↔
      k < mix.biggestRead ∨ ∃ sound ∈ sounds, sound.reclaimed = false ∧ sound.playing = true ∧
        k < sound.framesAvailable ∧ k < sampleSize := by
  apply foldl_iff fun mix : Mix => k < mix.biggestRead
  intro mix sound
  exact lt_mixStream_iff hsize mix sound k

theorem didLoop_mixStreams_iff (hsize : sampleSize ≤ maxPcmFrames) (sounds : List AudioStream)
    (mix : Mix) : (sounds.foldl (mixStream sampleSize) mix).didLoop = true ↔
      mix.didLoop = true ∨ ∃ sound ∈ sounds, sound.Loops sampleSize := by
  apply foldl_iff fun mix : Mix => mix.didLoop = true
  exact didLoop_mixStream_iff hsize

theorem lt_mixPipes_iff (pipes : List AudioPipe) (k : Nat) (mix : Nat × Bool) :
    k < (pipes.foldl mixPipe mix).1 ↔
      k < mix.1 ∨ ∃ pipe ∈ pipes,
        pipe.context = true ∧ 0 < pipe.length ∧ (k : Int) < pipe.resampledFrames := by
  apply foldl_iff fun mix : Nat × Bool => k < mix.1
  intro mix pipe
  exact lt_mixPipe_iff mix pipe k

theorem streamed_mixPipes_iff (pipes : List AudioPipe) (mix : Nat × Bool) :
    (pipes.foldl mixPipe mix).2 = true ↔ mix.2 = true ∨ ∃ pipe ∈ pipes, pipe.Heard := by
  apply foldl_iff fun mix : Nat × Bool => mix.2 = true
  exact streamed_mixPipe_iff

end Mixing

namespace Tick

variable (tick : Tick)

theorem didLoop_iff : tick.files.didLoop = true ↔ tick.Loops := by
  rw [files, didLoop_mixStreams_iff (outputFrames_le _)]
  exact or_iff_right (by simp)

theorem streamed_iff : tick.mixed.2 = true ↔ tick.PipesHeard := by
  rw [mixed, streamed_mixPipes_iff]
  exact or_iff_right (by simp)

theorem heard_iff : 0 < tick.mixed.1 ↔ tick.FilesHeard ∨ tick.PipesHeard := by
  rw [mixed, lt_mixPipes_iff, files, lt_mixStreams_iff (outputFrames_le _)]
  simp only [Nat.lt_irrefl, false_or, outputFrames_pos, and_true]
  exact Iff.rfl

/-- Where no buffer is heard, `biggest_read` is less than a packet if all files are short. -/
theorem short_iff (hpipes : ¬ tick.PipesHeard) :
    tick.mixed.1 < tick.packetSize.outputFrames ↔ tick.Short := by
  have hpos := outputFrames_pos tick.packetSize
  obtain ⟨last, hlast⟩ : ∃ last, tick.packetSize.outputFrames = last + 1 :=
    Nat.exists_eq_succ_of_ne_zero (Nat.ne_of_gt hpos)
  have hmixed : last < tick.mixed.1 ↔ ∃ sound ∈ tick.streamList, sound.reclaimed = false ∧
      sound.playing = true ∧ last < sound.framesAvailable := by
    rw [mixed, lt_mixPipes_iff, files, lt_mixStreams_iff (outputFrames_le _)]
    have hnone : ¬ ∃ pipe ∈ tick.audioPipes,
        pipe.context = true ∧ 0 < pipe.length ∧ (last : Int) < pipe.resampledFrames := by
      rintro ⟨pipe, hmem, hcontext, hlength, hlast⟩
      exact hpipes ⟨pipe, hmem, hcontext, hlength, by omega⟩
    simp [hnone, hlast]
  rw [hlast, Nat.lt_succ_iff, ← Nat.not_lt, hmixed, Short, hlast]
  constructor
  · intro hnone sound hmem hheard
    by_contra hlong
    exact hnone ⟨sound, hmem, hheard.1, hheard.2.1, by omega⟩
  · rintro hshort ⟨sound, hmem, hreclaimed, hplaying, hlong⟩
    have hlt := hshort sound hmem ⟨hreclaimed, hplaying, by omega⟩
    omega

end Tick

section Ticks

variable {client : MumbleClient} {tick : Tick}

/-- When the packet of a tick is marked. -/
def Ends (client : MumbleClient) (tick : Tick) : Prop :=
  ¬ tick.Loops ∧ tick.mixed.1 < tick.packetSize.outputFrames ∧ client.audioStreamActive = true ∧
    ¬ tick.PipesHeard

theorem endFrame_iff :
    (!tick.files.didLoop && (decide (tick.mixed.1 < tick.packetSize.outputFrames) &&
      (client.audioStreamActive && !tick.mixed.2))) = true ↔ Ends client tick := by
  simp only [Ends, Bool.and_eq_true, Bool.not_eq_true', ← Bool.not_eq_true, decide_eq_true_eq,
    tick.didLoop_iff, tick.streamed_iff]

/-- A tick that has something to play, or ends a transmission, queues a packet. -/
theorem audioEncodeEvent_of_queued (h : 0 < tick.mixed.1 ∨ Ends client tick) :
    ∃ work, (audioEncodeEvent client tick).1 = some work ∧
      (work.endFrame = true ↔ Ends client tick) := by
  have hqueued : (decide (tick.mixed.1 > 0) || (!tick.files.didLoop &&
      (decide (tick.mixed.1 < tick.packetSize.outputFrames) &&
        (client.audioStreamActive && !tick.mixed.2)))) = true := by
    rw [Bool.or_eq_true, decide_eq_true_eq, endFrame_iff]
    exact h
  have hfits := Nat.not_lt.mpr (outputFrames_le tick.packetSize)
  simp only [audioEncodeEvent, hqueued, if_true, encodeAudio, gt_iff_lt, hfits, if_false]
  exact ⟨_, rfl, endFrame_iff⟩

theorem audioEncodeEvent_of_silent (h : ¬ (0 < tick.mixed.1 ∨ Ends client tick)) :
    (audioEncodeEvent client tick).1 = none := by
  have hqueued : (decide (tick.mixed.1 > 0) || (!tick.files.didLoop &&
      (decide (tick.mixed.1 < tick.packetSize.outputFrames) &&
        (client.audioStreamActive && !tick.mixed.2)))) = false := by
    rw [← Bool.not_eq_true, Bool.or_eq_true, decide_eq_true_eq, endFrame_iff]
    exact h
  simp only [audioEncodeEvent, hqueued, Bool.false_eq_true, if_false]

theorem active_audioEncodeEvent :
    (audioEncodeEvent client tick).2.audioStreamActive = true ↔ tick.PipesHeard :=
  tick.streamed_iff

/-- A tick with nothing to play ends a transmission if a buffer was heard in the one before
and no file starts anew. -/
theorem ends_of_silent_iff {next : Tick} (hfiles : ¬ next.FilesHeard) (hpipes : ¬ next.PipesHeard) :
    Ends (audioEncodeEvent client tick).2 next ↔ tick.PipesHeard ∧ ¬ next.Loops := by
  have hsilent : ¬ 0 < next.mixed.1 := by
    rw [next.heard_iff]
    rintro (hheard | hheard)
    · exact hfiles hheard
    · exact hpipes hheard
  have hshort : next.mixed.1 < next.packetSize.outputFrames := by
    have hpos := outputFrames_pos next.packetSize
    omega
  simp only [Ends, active_audioEncodeEvent, hshort, hpipes, true_and, not_false_eq_true, and_true]
  exact And.comm

/-- The packet of the first of two ticks is marked if the second queues none. -/
def Marked (client : MumbleClient) (tick next : Tick) : Prop :=
  ∀ work, (audioEncodeEvent client tick).1 = some work →
    (audioEncodeEvent (audioEncodeEvent client tick).2 next).1 = none → work.endFrame = true

theorem stopsMarked_of_marked {next : Tick} (hmarked : Marked client tick next) :
    StopsMarked client.audioStreamActive tick next := by
  intro hheard hfiles hpipes
  obtain ⟨work, hwork, hend⟩ : ∃ work, (audioEncodeEvent client tick).1 = some work ∧
      (work.endFrame = true ↔ Ends client tick) :=
    audioEncodeEvent_of_queued (.inl (tick.heard_iff.mpr hheard))
  have hends (hnot : ¬ (tick.PipesHeard ∧ ¬ next.Loops)) : Ends client tick := by
    apply hend.mp
    apply hmarked work hwork
    apply audioEncodeEvent_of_silent
    rw [next.heard_iff, ends_of_silent_iff hfiles hpipes]
    rintro ((hheard | hheard) | hboth)
    · exact hfiles hheard
    · exact hpipes hheard
    · exact hnot hboth
  by_cases hstreamed : tick.PipesHeard
  · left
    refine ⟨hstreamed, ?_⟩
    intro hloops
    exact (hends fun hboth => hboth.2 hloops).2.2.2 hstreamed
  · right
    obtain ⟨hloops, hmixed, hactive, -⟩ := hends fun hboth => hstreamed hboth.1
    exact ⟨hstreamed, hactive, (tick.short_iff hstreamed).mp hmixed, hloops⟩

theorem marked_of_stopsMarked {next : Tick}
    (hstops : StopsMarked client.audioStreamActive tick next) : Marked client tick next := by
  intro work hwork hnone
  have hqueued : 0 < tick.mixed.1 ∨ Ends client tick := by
    by_contra hsilent
    rw [audioEncodeEvent_of_silent hsilent] at hwork
    cases hwork
  obtain ⟨work', hwork', hend⟩ := audioEncodeEvent_of_queued hqueued
  rw [hwork] at hwork'
  cases hwork'
  have hsilent : ¬ (0 < next.mixed.1 ∨ Ends (audioEncodeEvent client tick).2 next) := by
    intro hnext
    obtain ⟨other, hother, -⟩ := audioEncodeEvent_of_queued hnext
    rw [hnone] at hother
    cases hother
  rw [next.heard_iff, not_or, not_or] at hsilent
  obtain ⟨⟨hfiles, hpipes⟩, hends⟩ := hsilent
  rw [ends_of_silent_iff hfiles hpipes] at hends
  apply hend.mpr
  rcases hqueued with hheard | hends
  · rcases hstops (tick.heard_iff.mp hheard) hfiles hpipes with hboth | hstop
    · exact absurd hboth hends
    · obtain ⟨hstreamed, hactive, hshort, hloops⟩ := hstop
      exact ⟨hloops, (tick.short_iff hstreamed).mpr hshort, hactive, hstreamed⟩
  · exact hends

/-- Two ticks: the packet of the first is marked if the second queues none, just when the
streams stop in one of the two ways. -/
theorem marked_iff (next : Tick) :
    Marked client tick next ↔ StopsMarked client.audioStreamActive tick next :=
  ⟨stopsMarked_of_marked, marked_of_stopsMarked⟩

end Ticks

/-- For every run of ticks: each run of packets ends with one that is marked, just when the
streams of any two ticks in a row stop in one of the two ways. -/
theorem terminated_iff (client : MumbleClient) (ticks : List Tick) :
    Terminated (Machine.outputs audioEncodeEvent client ticks) ↔
      ∀ n tick next, ticks[n]? = some tick → ticks[n + 1]? = some next →
        StopsMarked (Machine.final audioEncodeEvent client (ticks.take n)).audioStreamActive
          tick next := by
  have hanswer (n : Nat) : (Machine.outputs audioEncodeEvent client ticks)[n]? =
      ticks[n]?.map fun tick =>
        (audioEncodeEvent (Machine.final audioEncodeEvent client (ticks.take n)) tick).1 :=
    Machine.outputs_getElem? client ticks n
  constructor
  · intro hterminated n tick next htick hnext
    rw [← marked_iff]
    intro work hwork hnone
    apply hterminated n work
    · rw [hanswer, htick, Option.map_some, hwork]
    · rw [hanswer, hnext, Option.map_some, Machine.final_take_succ client htick, hnone]
  · intro hstops n work hwork hnone
    rw [hanswer, Option.map_eq_some_iff] at hwork hnone
    obtain ⟨tick, htick, hwork⟩ := hwork
    obtain ⟨next, hnext, hnone⟩ := hnone
    rw [Machine.final_take_succ client htick] at hnone
    exact (marked_iff next).mpr (hstops n tick next htick hnext) work hwork hnone

/-- The last packet of a file that comes to its end is not marked. -/
theorem file_end_unmarked :
    ¬ ∀ (client : MumbleClient) (ticks : List Tick),
      Terminated (Machine.outputs audioEncodeEvent client ticks) := by
  intro h
  have hmarked := h ⟨false, 0⟩
    [⟨.small, [⟨false, true, 5, true, false, 0, 0, 0, false⟩], []⟩, ⟨.small, [], []⟩]
    0 ⟨960, false, 0⟩ (by decide) (by decide)
  cases hmarked

end LuaMumble.Audio.Encode
