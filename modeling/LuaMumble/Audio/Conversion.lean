import Mathlib.Tactic

/-!
The conversions of decoded audio to two channels and to 48 kHz, in exact
arithmetic. A buffer holds its frames one after another, each with a sample for
every channel. `downmix_to_stereo` adds up the channels of even number on the
left and those of odd number on the right, and divides both by half the number
of channels.
-/

namespace LuaMumble.Audio.Conversion

/-- A `malloc`: whether it gives a block of that many bytes. -/
abbrev Memory := Nat → Bool

def sizeofFloat : Nat := 4

/-- The value of a `size_t`. -/
def sizeT (n : Int) : Nat := (n % 2 ^ 64).toNat

/-- `convert_mono_to_multi`; nothing where it returns NULL. -/
def convertMonoToMulti (memory : Memory) (inputBuffer : List ℚ) (framesRead channels : Nat) :
    Option (List ℚ) :=
  if memory (sizeT (framesRead * channels * sizeofFloat)) then
    some ((List.range framesRead).flatMap fun i =>
      (List.range channels).map fun _ => inputBuffer.getD i 0)
  else none

/-- The loop over the channels of one frame: `left` and `right` after it. -/
def addChannels (sample : Nat → ℚ) (channels : Nat) : ℚ × ℚ :=
  (List.range channels).foldl
    (fun (left, right) ch =>
      if ch % 2 = 0 then (left + sample ch, right) else (left, right + sample ch))
    (0, 0)

/-- `downmix_to_stereo`; nothing where it returns NULL. -/
def downmixToStereo (memory : Memory) (inputBuffer : List ℚ) (framesRead inputChannels : Nat) :
    Option (List ℚ) :=
  if memory (sizeT (framesRead * 2 * sizeofFloat)) then
    some ((List.range framesRead).flatMap fun i =>
      let (left, right) :=
        addChannels (fun ch => inputBuffer.getD (i * inputChannels + ch) 0) inputChannels
      [left / (inputChannels / 2), right / (inputChannels / 2)])
  else none

/-- `AUDIO_PLAYBACK_CHANNELS` -/
def audioPlaybackChannels : Nat := 2

/-- `AUDIO_SAMPLE_RATE` -/
def audioSampleRate : ℚ := 48000

/-- The first `n` samples behind a pointer. -/
def floats (buffer : List ℚ) (n : Nat) : List ℚ :=
  (List.range n).map fun i => buffer.getD i 0

/-- The value of an integer that is returned as an `int`. -/
def toInt (n : Int) : Int := Int.bmod n (2 ^ 32)

/-- The functions of the resampler library. `src_process` gives the number of frames
it generated and the samples, or fails. -/
structure Resampler where
  srcProcess : (dataIn : List ℚ) → (inputFrames : Nat) → (outputFrames : Int) →
    (endOfInput : Bool) → (srcRatio : ℚ) → Option (Nat × List ℚ)
  srcReset : Bool

/-- `resample_audio`: what it returns, and `*output_buffer`. -/
def resampleAudio (memory : Memory) (resampler : Resampler) (inputBuffer : List ℚ)
    (inputFrames : Nat) (outputFrames : Int) (resampleRatio : ℚ) (endOfInput : Bool) :
    Int × Option (List ℚ) :=
  if memory (sizeT (outputFrames * audioPlaybackChannels * sizeofFloat)) = false then (-1, none)
  else if resampleRatio = 1 then
    (toInt inputFrames, some (floats inputBuffer (inputFrames * audioPlaybackChannels)))
  else
    match resampler.srcProcess inputBuffer inputFrames outputFrames endOfInput resampleRatio with
    | none => (-1, none)
    | some (outputFramesGen, outputBuffer) =>
        if endOfInput && !resampler.srcReset then (-1, none)
        else (toInt outputFramesGen, some outputBuffer)

theorem floats_length (buffer : List ℚ) (n : Nat) : (floats buffer n).length = n := by
  simp [floats]

/-- Returning a count as an `int` does not make it larger. -/
theorem toInt_le (n : Nat) : toInt n ≤ n := by
  rw [toInt, Int.bmod_def]
  split <;> omega

/-- A resampler generates no more frames than it has room for. -/
def Resampler.Bounded (resampler : Resampler) : Prop :=
  ∀ dataIn inputFrames outputFrames endOfInput srcRatio outputFramesGen dataOut,
    resampler.srcProcess dataIn inputFrames outputFrames endOfInput srcRatio =
      some (outputFramesGen, dataOut) → outputFramesGen ≤ outputFrames.toNat

/-- What `resample_audio` returns is at most the room, if that is enough for the input
where nothing is to be resampled. -/
theorem resampleAudio_le (memory : Memory) {resampler : Resampler} (h : resampler.Bounded)
    (inputBuffer : List ℚ) {inputFrames : Nat} {outputFrames : Int} {resampleRatio : ℚ}
    (endOfInput : Bool) (hroom : resampleRatio = 1 → inputFrames ≤ outputFrames.toNat) :
    (resampleAudio memory resampler inputBuffer inputFrames outputFrames resampleRatio
      endOfInput).1 ≤ outputFrames.toNat := by
  unfold resampleAudio
  split
  · omega
  · split
    · rename_i hone
      have hle : (inputFrames : Int) ≤ outputFrames.toNat := by exact_mod_cast hroom hone
      dsimp only
      exact le_trans (toInt_le inputFrames) hle
    · split
      · omega
      · rename_i outputFramesGen outputBuffer hprocess
        have hle : (outputFramesGen : Int) ≤ outputFrames.toNat := by
          exact_mod_cast h _ _ _ _ _ _ _ hprocess
        split
        · omega
        · dsimp only
          exact le_trans (toInt_le outputFramesGen) hle

theorem addChannels_succ (sample : Nat → ℚ) (n : Nat) :
    addChannels sample (n + 1) =
      if n % 2 = 0 then ((addChannels sample n).1 + sample n, (addChannels sample n).2)
      else ((addChannels sample n).1, (addChannels sample n).2 + sample n) := by
  rw [addChannels, List.range_succ, List.foldl_append]
  rfl

/-- The left side gets the channels 0, 2, ..., which are one more where the number of
channels is odd. -/
theorem addChannels_bound {sample : Nat → ℚ} (n : Nat) (h : ∀ ch < n, |sample ch| ≤ 1) :
    |(addChannels sample n).1| ≤ ((n + 1) / 2 : Nat) ∧
      |(addChannels sample n).2| ≤ (n / 2 : Nat) := by
  induction n with
  | zero => simp [addChannels]
  | succ n ih =>
      obtain ⟨hleft, hright⟩ := ih fun ch hch => h ch (Nat.lt_succ_of_lt hch)
      have hlast := h n (Nat.lt_succ_self n)
      rw [addChannels_succ]
      rcases Nat.mod_two_eq_zero_or_one n with heven | hodd
      · have hmore : (n + 1 + 1) / 2 = (n + 1) / 2 + 1 := by omega
        have hsame : (n + 1) / 2 = n / 2 := by omega
        rw [if_pos heven, hmore, hsame]
        rw [hsame] at hleft
        refine ⟨?_, hright⟩
        push_cast
        exact (abs_add_le _ _).trans (add_le_add hleft hlast)
      · have hmore : (n + 1) / 2 = n / 2 + 1 := by omega
        have hsame : (n + 1 + 1) / 2 = (n + 1) / 2 := by omega
        rw [if_neg (by omega), hsame, hmore]
        rw [hmore] at hleft
        refine ⟨hleft, ?_⟩
        push_cast
        exact (abs_add_le _ _).trans (add_le_add hright hlast)

theorem addChannels_uniform {sample : Nat → ℚ} {x : ℚ} (n : Nat) (h : ∀ ch < n, sample ch = x) :
    addChannels sample n = (((n + 1) / 2 : Nat) * x, ((n / 2 : Nat) : ℚ) * x) := by
  induction n with
  | zero => simp [addChannels]
  | succ n ih =>
      rw [addChannels_succ, ih fun ch hch => h ch (Nat.lt_succ_of_lt hch),
        h n (Nat.lt_succ_self n)]
      rcases Nat.mod_two_eq_zero_or_one n with heven | hodd
      · have hmore : (n + 1 + 1) / 2 = (n + 1) / 2 + 1 := by omega
        have hsame : (n + 1) / 2 = n / 2 := by omega
        rw [if_pos heven, hmore, hsame]
        push_cast
        refine Prod.ext ?_ rfl
        ring
      · have hmore : (n + 1) / 2 = n / 2 + 1 := by omega
        have hsame : (n + 1 + 1) / 2 = (n + 1) / 2 := by omega
        rw [if_neg (by omega), hsame, hmore]
        push_cast
        refine Prod.ext rfl ?_
        ring

/-- No sample leaves the range from -1 to 1. -/
def NeverAmplifies (channels : Nat) : Prop :=
  ∀ (memory : Memory) (inputBuffer : List ℚ) (frames : Nat) (output : List ℚ),
    (∀ k < frames * channels, |inputBuffer.getD k 0| ≤ 1) →
      downmixToStereo memory inputBuffer frames channels = some output →
        ∀ x ∈ output, |x| ≤ 1

/-- A signal that is on all channels is on both sides. -/
def Reproduces (channels : Nat) : Prop :=
  ∀ (memory : Memory) (inputBuffer : List ℚ) (frames : Nat) (signal : Nat → ℚ)
    (output : List ℚ),
    (∀ i < frames, ∀ ch < channels, inputBuffer.getD (i * channels + ch) 0 = signal i) →
      downmixToStereo memory inputBuffer frames channels = some output →
        output = (List.range frames).flatMap fun i => [signal i, signal i]

section

variable {channels : Nat}

theorem half_eq (heven : channels % 2 = 0) :
    ((channels + 1) / 2 : Nat) = channels / 2 ∧ ((channels / 2 : Nat) : ℚ) = channels / 2 := by
  refine ⟨by omega, ?_⟩
  rw [Nat.cast_div (Nat.dvd_of_mod_eq_zero heven) (by norm_num)]
  norm_num

theorem index_lt {frames i ch : Nat} (hi : i < frames) (hch : ch < channels) :
    i * channels + ch < frames * channels := by
  calc i * channels + ch < i * channels + channels := Nat.add_lt_add_left hch _
    _ = (i + 1) * channels := by ring
    _ ≤ frames * channels := Nat.mul_le_mul_right _ hi

theorem neverAmplifies_of_even (hpos : 0 < channels) (heven : channels % 2 = 0) :
    NeverAmplifies channels := by
  intro memory inputBuffer frames output hinput houtput x hx
  obtain ⟨hmore, hhalf⟩ := half_eq heven
  have hdivisor : (0 : ℚ) < channels / 2 := by positivity
  unfold downmixToStereo at houtput
  split at houtput
  · cases houtput
    obtain ⟨i, hi, hmem⟩ := List.mem_flatMap.mp hx
    have hsamples : ∀ ch < channels, |inputBuffer.getD (i * channels + ch) 0| ≤ 1 := fun ch hch =>
      hinput _ (index_lt (List.mem_range.mp hi) hch)
    obtain ⟨hleft, hright⟩ := addChannels_bound channels hsamples
    rw [hmore, hhalf] at hleft
    rw [hhalf] at hright
    have hquotient (y : ℚ) (hy : |y| ≤ channels / 2) : |y / (channels / 2)| ≤ 1 := by
      rw [abs_div, abs_of_pos hdivisor]
      exact (div_le_one hdivisor).mpr hy
    simp only [List.mem_cons, List.not_mem_nil, or_false] at hmem
    rcases hmem with rfl | rfl
    · exact hquotient _ hleft
    · exact hquotient _ hright
  · cases houtput

theorem reproduces_of_even (hpos : 0 < channels) (heven : channels % 2 = 0) :
    Reproduces channels := by
  intro memory inputBuffer frames signal output hinput houtput
  obtain ⟨hmore, hhalf⟩ := half_eq heven
  have hdivisor : ((channels : ℚ) / 2) ≠ 0 := by positivity
  unfold downmixToStereo at houtput
  split at houtput
  · cases houtput
    apply List.flatMap_congr
    intro i hi
    rw [addChannels_uniform channels (hinput i (List.mem_range.mp hi)), hmore, hhalf]
    simp only [mul_div_cancel_left₀ _ hdivisor]
  · cases houtput

/-- One frame with a 1 on every channel. -/
theorem downmix_ones (channels : Nat) :
    downmixToStereo (fun _ => true) (List.replicate channels 1) 1 channels =
      some [((channels + 1) / 2 : Nat) / (channels / 2 : ℚ),
        ((channels / 2 : Nat) : ℚ) / (channels / 2 : ℚ)] := by
  have hones : ∀ ch < channels,
      (List.replicate channels (1 : ℚ)).getD (0 * channels + ch) 0 = 1 := by
    intro ch hch
    rw [Nat.zero_mul, Nat.zero_add, List.getD_eq_getElem?_getD,
      List.getElem?_replicate_of_lt hch]
    rfl
  rw [downmixToStereo, if_pos rfl]
  simp only [List.range_one, List.flatMap_cons, List.flatMap_nil, List.append_nil]
  rw [addChannels_uniform channels hones]
  simp

/-- With an odd number of channels the left side is too loud and the right one too
quiet. -/
theorem even_of_reproduces (h : Reproduces channels) (hpos : 0 < channels) :
    channels % 2 = 0 := by
  by_contra hodd
  have houtput := h (fun _ => true) (List.replicate channels 1) 1 (fun _ => 1) _ ?_
    (downmix_ones channels)
  · have hright := (List.cons.inj (List.cons.inj houtput).2).1
    have hne : ((channels : ℚ) / 2) ≠ 0 := by positivity
    rw [div_eq_one_iff_eq hne, eq_div_iff two_ne_zero] at hright
    have hnat : channels / 2 * 2 = channels := by exact_mod_cast hright
    omega
  · intro i hi ch hch
    obtain rfl : i = 0 := by omega
    rw [Nat.zero_mul, Nat.zero_add, List.getD_eq_getElem?_getD,
      List.getElem?_replicate_of_lt hch]
    rfl

theorem even_of_neverAmplifies (h : NeverAmplifies channels) (hpos : 0 < channels) :
    channels % 2 = 0 := by
  by_contra hodd
  have hleft := h (fun _ => true) (List.replicate channels 1) 1 _ ?_ (downmix_ones channels) _
    List.mem_cons_self
  · have hdivisor : (0 : ℚ) < channels / 2 := by positivity
    rw [abs_div, abs_of_pos hdivisor, div_le_one hdivisor, abs_of_nonneg (by positivity),
      le_div_iff₀ two_pos] at hleft
    have hnat : (channels + 1) / 2 * 2 ≤ channels := by exact_mod_cast hleft
    omega
  · intro k hk
    rw [Nat.one_mul] at hk
    rw [List.getD_eq_getElem?_getD, List.getElem?_replicate_of_lt hk]
    simp

end

/-- The downmix neither amplifies nor changes a common signal just where the number of
channels is even. -/
theorem downmix_iff_even (channels : Nat) (hchannels : 3 ≤ channels) :
    NeverAmplifies channels ∧ Reproduces channels ↔ channels % 2 = 0 := by
  have hpos : 0 < channels := by omega
  constructor
  · rintro ⟨hbounded, -⟩
    exact even_of_neverAmplifies hbounded hpos
  · intro heven
    exact ⟨neverAmplifies_of_even hpos heven, reproduces_of_even hpos heven⟩

theorem downmix_iff_even_six : NeverAmplifies 6 ∧ Reproduces 6 ↔ 6 % 2 = 0 :=
  downmix_iff_even 6 (by decide)

/-- Three channels at 1 give 4/3 on the left and 2/3 on the right. -/
theorem three_channels_amplified :
    ¬ ∀ channels, 3 ≤ channels → NeverAmplifies channels ∧ Reproduces channels := by
  intro h
  have heven := even_of_neverAmplifies (h 3 (le_refl 3)).1 (by decide)
  cases heven

end LuaMumble.Audio.Conversion
