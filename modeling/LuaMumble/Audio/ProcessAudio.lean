import LuaMumble.Audio.Conversion
import LuaMumble.Audio.RingWrite

/-!
`process_audio` for files of any sample rate and number of channels. It asks the
file for as many frames as give no more output than there is space for in the
ring; the buffer thread then writes the output to the ring while the mixer may
be reading. Divisions and products of sample rates are exact.
-/

namespace LuaMumble.Audio.Conversion

open Lib

/-- A cast of a `double` to an integer. -/
def truncate (x : ℚ) : Int :=
  if 0 ≤ x then ⌊x⌋ else ⌈x⌉

/-- What `process_audio` uses of an open file. -/
structure SoundFile where
  samplerate : Int
  channels : Nat
  /-- `sf_readf_float`: the number of frames it returns and what it stores. -/
  sfReadfFloat : Int → Int × List ℚ

/-- What `process_audio` returns and stores. -/
structure Processed where
  rc : Int
  outputData : Option (List ℚ)
  framesOut : Nat
  eofOut : Bool

/-- The conversion to stereo: nothing where there is no memory for it. -/
def toStereo (memory : Memory) (channels : Nat) (inputBuffer : List ℚ) (framesRead : Nat) :
    Option (List ℚ) :=
  if channels = 1 then
    convertMonoToMulti memory inputBuffer framesRead audioPlaybackChannels
  else if 2 < channels then
    downmixToStereo memory inputBuffer framesRead channels
  else some inputBuffer

/-- The end of `process_audio`, behind `resample_audio`. -/
def processed (endOfFile : Bool) : Int × Option (List ℚ) → Processed
  | (_, none) => ⟨-1, none, 0, false⟩
  | (resampledFrames, some outputData) =>
      if resampledFrames < 0 then ⟨-1, some outputData, 0, false⟩
      else ⟨0, some outputData, resampledFrames.toNat, endOfFile⟩

/-- `process_audio` behind `sf_readf_float`, with what that returned. -/
def processRead (memory : Memory) (resampler : Resampler) (channels : Nat) (resampleRatio : ℚ)
    (inputFrames : Int) : Int × List ℚ → Processed
  | (framesRead, inputBuffer) =>
      if framesRead ≤ 0 then ⟨0, none, 0, true⟩
      else
        match toStereo memory channels inputBuffer framesRead.toNat with
        | none => ⟨-1, none, 0, false⟩
        | some inputBuffer =>
            let actualOutputFrames := ⌈(framesRead : ℚ) * resampleRatio⌉
            let flush := decide (0 < framesRead) && decide (framesRead < inputFrames)
            processed (decide (framesRead < inputFrames))
              (resampleAudio memory resampler inputBuffer framesRead.toNat
                actualOutputFrames resampleRatio flush)

/-- `process_audio` -/
def processAudio (memory : Memory) (resampler : Resampler) (sound : SoundFile)
    (availableSpace : Nat) : Processed :=
  let resampleRatio : ℚ := audioSampleRate / sound.samplerate
  let availableOutputFrames := availableSpace / (audioPlaybackChannels * sizeofFloat)
  let inputFrames := truncate (availableOutputFrames / resampleRatio)
  if memory (sizeT (inputFrames * sound.channels * sizeofFloat)) = false then ⟨-1, none, 0, false⟩
  else
    processRead memory resampler sound.channels resampleRatio inputFrames
      (sound.sfReadfFloat inputFrames)

/-- A file gives at most the frames that it is asked for. -/
def SoundFile.Bounded (sound : SoundFile) : Prop :=
  ∀ frames, 0 ≤ frames → (sound.sfReadfFloat frames).1 ≤ frames

/-- Down to whole input frames and back up to whole output frames stays within the
output frames that were there. -/
theorem ceil_mul_le {ratio : ℚ} (hratio : 0 < ratio) {available : Nat} {framesRead : Int}
    (hread : framesRead ≤ truncate (available / ratio)) :
    ⌈(framesRead : ℚ) * ratio⌉ ≤ available := by
  have hquotient : (0 : ℚ) ≤ available / ratio := by positivity
  rw [truncate, if_pos hquotient] at hread
  have hfloor : (framesRead : ℚ) ≤ available / ratio := Int.le_floor.mp hread
  rw [Int.ceil_le]
  calc (framesRead : ℚ) * ratio ≤ available / ratio * ratio :=
        mul_le_mul_of_nonneg_right hfloor hratio.le
    _ = ((available : Int) : ℚ) := by
        rw [div_mul_cancel₀ _ hratio.ne']
        norm_cast

theorem truncate_nonneg {x : ℚ} (hx : 0 ≤ x) : 0 ≤ truncate x := by
  rw [truncate, if_pos hx]
  exact Int.floor_nonneg.mpr hx

theorem processed_le {endOfFile : Bool} {answer : Int × Option (List ℚ)} {room : Nat}
    (h : answer.1 ≤ room) : (processed endOfFile answer).framesOut ≤ room := by
  obtain ⟨resampledFrames, outputData⟩ := answer
  cases outputData with
  | none => exact Nat.zero_le _
  | some outputData =>
      rw [processed]
      split
      · exact Nat.zero_le _
      · exact Int.toNat_le.mpr h

theorem processRead_le {memory : Memory} {resampler : Resampler} (hresampler : resampler.Bounded)
    {channels available : Nat} {ratio : ℚ} (hratio : 0 < ratio) {answer : Int × List ℚ}
    (hread : answer.1 ≤ truncate (available / ratio)) :
    (processRead memory resampler channels ratio (truncate (available / ratio))
      answer).framesOut ≤ available := by
  obtain ⟨framesRead, inputBuffer⟩ := answer
  rw [processRead]
  split
  · exact Nat.zero_le _
  · rename_i hframes
    cases toStereo memory channels inputBuffer framesRead.toNat with
    | none => exact Nat.zero_le _
    | some stereo =>
        have hceil := ceil_mul_le hratio hread
        have hroom : ratio = 1 → framesRead.toNat ≤ ⌈(framesRead : ℚ) * ratio⌉.toNat := by
          rintro rfl
          rw [mul_one, Int.ceil_intCast]
        have hresampled := resampleAudio_le memory hresampler stereo
          (decide (0 < framesRead) && decide (framesRead < truncate (available / ratio))) hroom
        have hnonneg : 0 ≤ ⌈(framesRead : ℚ) * ratio⌉ := by
          have hpos : (0 : ℚ) ≤ framesRead := by exact_mod_cast (not_le.mp hframes).le
          exact Int.ceil_nonneg (mul_nonneg hpos hratio.le)
        rw [Int.toNat_of_nonneg hnonneg] at hresampled
        exact processed_le (hresampled.trans hceil)

/-- The frames that come out fit into the space. -/
theorem framesOut_le (memory : Memory) {resampler : Resampler} {sound : SoundFile}
    (hresampler : resampler.Bounded) (hsound : sound.Bounded) (hrate : 1 ≤ sound.samplerate)
    (availableSpace : Nat) :
    (processAudio memory resampler sound availableSpace).framesOut ≤
      availableSpace / (audioPlaybackChannels * sizeofFloat) := by
  have hratio : (0 : ℚ) < audioSampleRate / sound.samplerate := by
    have hpos : (0 : ℚ) < sound.samplerate := by exact_mod_cast hrate
    rw [audioSampleRate]
    positivity
  rw [processAudio]
  split
  · exact Nat.zero_le _
  · exact processRead_le hresampler hratio (hsound _ (truncate_nonneg (by positivity)))

/-- What the buffer thread hands to `ring_write`, where it calls it. -/
def writtenSamples (result : Processed) : Option (List ℚ) :=
  match result.outputData with
  | none => none
  | some outputAudio =>
      if result.rc = 0 ∧ 0 < result.framesOut then
        some (floats outputAudio (result.framesOut * audioPlaybackChannels))
      else none

section Ring

theorem two_mul_framesOut_le (memory : Memory) {resampler : Resampler} {sound : SoundFile}
    (hresampler : resampler.Bounded) (hsound : sound.Bounded) (hrate : 1 ≤ sound.samplerate)
    (space : Nat) :
    2 * (processAudio memory resampler sound (space * sizeofFloat)).framesOut ≤ space := by
  have hframes := framesOut_le memory hresampler hsound hrate (space * sizeofFloat)
  have hhalf : space * sizeofFloat / (audioPlaybackChannels * sizeofFloat) = space / 2 := by
    rw [Nat.mul_div_mul_right _ _ (by decide : 0 < sizeofFloat)]
    rfl
  omega

theorem writtenSamples_length {result : Processed} {src : List ℚ}
    (h : writtenSamples result = some src) : src.length = 2 * result.framesOut := by
  unfold writtenSamples at h
  split at h
  · cases h
  · split at h
    · cases h
      rw [floats_length, audioPlaybackChannels, Nat.mul_comm]
    · cases h

/-- `process_audio` gives no more samples than there was space for, for any file and any
space; and the call of `ring_write` that follows accepts all of them, whatever the mixer
has read since the space was computed and reads during the call. It returns if the
buffer thread takes the steps for that. -/
theorem nothing_dropped (memory : Memory) (resampler : Resampler) (hresampler : resampler.Bounded)
    (sound : SoundFile) (hsound : sound.Bounded) (hrate : 1 ≤ sound.samplerate) :
    (∀ space, 2 * (processAudio memory resampler sound (space * sizeofFloat)).framesOut ≤ space) ∧
    ∀ (bufferSize : Nat) (cells : Nat → ℚ) (before during after : List (RingSteps.Input ℚ))
      (src : List ℚ),
      0 < bufferSize → (∀ i ∈ during, RingSteps.ofConsumer i = true) →
      let s := Machine.final RingSteps.step (RingSteps.opened bufferSize cells) before
      let s' := Machine.final RingSteps.step s during
      let call : RingSteps.WriteCall ℚ := ⟨src, RingSteps.ringSpace s'⟩
      s.producer = .idle →
      writtenSamples (processAudio memory resampler sound
        (RingSteps.ringSpace s * sizeofFloat)) = some src →
        (RingSteps.step s' (.write src)).2.producer = .loadingHead call ∧
          (∀ count, .wrote call count ∈ Machine.outputs RingSteps.step s' (.write src :: after) →
            count = src.length) ∧
          (src.length + 4 ≤ after.countP RingSteps.ofProducer →
            .wrote call src.length ∈ Machine.outputs RingSteps.step s' (.write src :: after)) := by
  refine ⟨two_mul_framesOut_le memory hresampler hsound hrate, ?_⟩
  intro bufferSize cells before during after src hsize hduring s s' call hidle hwritten
  obtain ⟨hproducer, hfreed⟩ := RingSteps.consumers_free (s := s) during hduring
  have hroom : src.length ≤ RingSteps.ringSpace s' := by
    rw [writtenSamples_length hwritten]
    exact (two_mul_framesOut_le memory hresampler hsound hrate _).trans hfreed
  have hidle' : s'.producer = .idle := hproducer.trans hidle
  have hcall : (RingSteps.step s' (.write src)).2.producer = .loadingHead call := by
    simp only [RingSteps.step, hidle']
    rfl
  have hall : ∀ count, .wrote call count ∈ Machine.outputs RingSteps.step s' (.write src :: after) →
      count = src.length := by
    intro count hwrote
    have hlog : RingSteps.Output.wrote call count ∈ Machine.outputs RingSteps.step
        (RingSteps.opened bufferSize cells) (before ++ during ++ .write src :: after) := by
      rw [Machine.outputs_append, Machine.final_append]
      exact List.mem_append_right _ hwrote
    exact RingSteps.wrote_all hsize cells _ hroom hlog
  refine ⟨hcall, hall, ?_⟩
  intro hsteps
  have hunder : RingSteps.callUnderWay (RingSteps.step s' (.write src)).2.producer =
      some (call, src.length + 4) := by
    rw [hcall]
    rfl
  obtain ⟨count, hcount⟩ := RingSteps.write_returns hunder hsteps
  have hwrote : .wrote call count ∈ Machine.outputs RingSteps.step s' (.write src :: after) :=
    List.mem_cons_of_mem _ hcount
  rw [← hall count hwrote]
  exact hwrote

/-- A file at 24 kHz with three frames of silence left. -/
def silentFile : SoundFile :=
  { samplerate := 24000
    channels := 2
    sfReadfFloat := fun frames => (min frames 3, List.replicate 6 0) }

/-- What the resampler makes of silence at 24 kHz. -/
def silentResampler : Resampler :=
  { srcProcess := fun _ inputFrames outputFrames _ _ =>
      some (min (2 * inputFrames) outputFrames.toNat, List.replicate (2 * outputFrames.toNat) 0)
    srcReset := true }

theorem silentResampler_bounded : silentResampler.Bounded := by
  intro dataIn inputFrames outputFrames endOfInput srcRatio outputFramesGen dataOut h
  cases h
  exact Nat.min_le_right _ _

theorem nothing_dropped_silence :
    RingSteps.Output.wrote ⟨List.replicate 8 (0 : ℚ), 8⟩ 8 ∈ Machine.outputs RingSteps.step
      (RingSteps.opened 8 fun _ => 0)
      (.write (List.replicate 8 0) :: List.replicate 12 .producer) := by
  have hsound : silentFile.Bounded := fun frames _ => min_le_left frames 3
  have hall := (nothing_dropped (fun _ => true) silentResampler silentResampler_bounded silentFile
    hsound (by decide)).2 8 (fun _ => 0) [] [] (List.replicate 12 .producer) (List.replicate 8 0)
    (by decide) (by simp) rfl (by decide +kernel)
  exact hall.2.2 (by decide)

end Ring

end LuaMumble.Audio.Conversion
