import LuaMumble.Audio.MixBuffer

/-!
When the loop over the audio buffers has no fault. The buffers of scripts have any rate
and any number of channels; the condition says which of them are mixed, and what a turn
then takes from its buffer.
-/

namespace LuaMumble.Audio.MixBuffer

open Lib Buffer
open Conversion (Memory toStereo resampleAudio sizeT audioSampleRate)
open CheckedLoop (loop)

/-- The sample number `k` of a buffer. -/
def sampleOf (client : MumbleClient) (library : Library) (bytes : List UInt8) (k : Nat) : ℚ :=
  library.floatValue ((bytes.drop (4 * k)).take 4) * client.volume

section Condition

variable (client : MumbleClient) (context : AudioContext) (library : Library)

/-- `frames` frames of a negative rate are counted by an `int`, also as stereo. -/
def BackwardsCounted (frames : Nat) : Prop :=
  frames < 2 ^ 31 ∧
    (context.channels.toInt = 1 → library.stereoMemory (8 * frames) = true →
      2 * frames ≤ 2 ^ 31)

/-- What a buffer with `length` bytes needs: there is nothing to do, or neither the rate
nor the number of channels is 0, and the samples can be counted and have room in
`input_buffer`, whose size is not computed from the number of frames. -/
def Mixable (length : Nat) : Prop :=
  let samplerate := context.samplerate.toInt
  let channels := context.channels.toInt
  let frames := wholeFrames client.packetSize.audioFrames samplerate channels length
  length = 0 ∨
    library.inputMemory (requested client.packetSize.audioFrames samplerate channels) = false ∨
    (channels ≠ 0 ∧ samplerate ≠ 0 ∧ frames * channels.toNat ≤ 2 ^ 31 ∧
      4 * (frames * channels.toNat) ≤
        requested client.packetSize.audioFrames samplerate channels ∧
      (samplerate < 0 → BackwardsCounted context library frames))

/-- The turn ends early: there is nothing to do, or no memory for it. -/
def EndsEarly (frames length : Nat) : Prop :=
  let samplerate := context.samplerate.toInt
  let channels := context.channels.toInt
  length = 0 ∨
    library.inputMemory (requested client.packetSize.audioFrames samplerate channels) = false ∨
    ((channels = 1 ∨ 2 < channels) ∧ library.stereoMemory (8 * frames) = false)

/-- The turn takes the whole frames in order and keeps the rest, or ends early and keeps
everything for the next one. -/
def TakesFrames (bytes : List UInt8) (turn : Turn) : Prop :=
  let channels := context.channels.toInt
  let frames := wholeFrames client.packetSize.audioFrames context.samplerate.toInt channels
    bytes.length
  let samples := frames * channels.toNat
  match turn.inputBuffer with
  | none => EndsEarly client context library frames bytes.length ∧
      Stores ⟨[], bytes⟩ (bufferFlip turn.buffer)
  | some inputBuffer =>
      inputBuffer = (List.range samples).map (sampleOf client library bytes) ∧
        Stores ⟨[], bytes.drop (4 * samples)⟩ turn.buffer

end Condition

section Reading

variable (client : MumbleClient) (context : AudioContext) (library : Library)
  (bytes : List UInt8)

/-- The first `k` samples are read and stored. -/
structure Behind (k : Nat) (s : ByteBuffer × (Nat → ℚ)) : Prop where
  stores : Stores ⟨bytes.take (4 * k), bytes.drop (4 * k)⟩ s.1
  samples : ∀ m < k, s.2 m = sampleOf client library bytes m

/-- The sample number `k` has an index and a place. -/
def Storable (k : Nat) : Prop :=
  k < 2 ^ 31 ∧ (k + 1) * sizeofFloat ≤ inputSize client context

variable {client context library bytes}

theorem readSample_eq (context : AudioContext) {k : Nat} {s : ByteBuffer × (Nat → ℚ)}
    (hk : 4 * (k + 1) ≤ bytes.length) (h : Behind client library bytes k s) :
    ∃ buffer, Stores ⟨bytes.take (4 * (k + 1)), bytes.drop (4 * (k + 1))⟩ buffer ∧
      readSample client context library k s =
        if 2 ^ 31 ≤ k then .error .intOverflow
        else if inputSize client context < (k + 1) * sizeofFloat then .error (.inputBuffer k)
        else .ok (buffer, Function.update s.2 k (sampleOf client library bytes k)) := by
  have hhead := h.stores.le
  have hcapacity := s.1.capacity_lt
  obtain ⟨buffer, hread, hstores, -⟩ := bufferRead_spec (n := 4) h.stores (by omega)
  have hpending : 4 ≤ (bytes.drop (4 * k)).length := by
    rw [List.length_drop]
    omega
  have hfour : 4 * (k + 1) = 4 * k + 4 := by omega
  rw [RewindQueue.read, if_pos hpending, ← List.take_add, List.drop_drop, ← hfour] at hstores
  refine ⟨buffer, hstores, ?_⟩
  rw [RewindQueue.read, if_pos hpending, Option.getD_some] at hread
  have hfloat : bufferReadAs .float s.1 = bufferRead s.1 4 := rfl
  rw [readSample, hfloat, hread]
  rfl

theorem readSample_of_storable {k : Nat} {s : ByteBuffer × (Nat → ℚ)}
    (hk : 4 * (k + 1) ≤ bytes.length) (h : Behind client library bytes k s)
    (hstorable : Storable client context k) :
    ∃ s', readSample client context library k s = .ok s' ∧
      Behind client library bytes (k + 1) s' := by
  obtain ⟨buffer, hstores, heq⟩ := readSample_eq context hk h
  obtain ⟨hindex, hroom⟩ := hstorable
  rw [if_neg (not_le.mpr hindex), if_neg (not_lt.mpr hroom)] at heq
  refine ⟨_, heq, hstores, ?_⟩
  intro m hm
  rcases Nat.lt_succ_iff_lt_or_eq.mp hm with hlt | rfl
  · exact (Function.update_of_ne hlt.ne _ _).trans (h.samples m hlt)
  · exact Function.update_self _ _ _

theorem readSample_of_not_storable {k : Nat} {s : ByteBuffer × (Nat → ℚ)}
    (hk : 4 * (k + 1) ≤ bytes.length) (h : Behind client library bytes k s)
    (hstorable : ¬Storable client context k) :
    ∃ fault, readSample client context library k s = .error fault := by
  obtain ⟨buffer, -, heq⟩ := readSample_eq context hk h
  rw [heq]
  by_cases hindex : 2 ^ 31 ≤ k
  · exact ⟨_, if_pos hindex⟩
  · have hroom : inputSize client context < (k + 1) * sizeofFloat := by
      by_contra hroom
      exact hstorable ⟨not_le.mp hindex, not_lt.mp hroom⟩
    rw [if_neg hindex, if_pos hroom]
    exact ⟨_, rfl⟩

theorem four_mul_le {length n k : Nat} (hn : 4 * n ≤ length) (hk : k < n) :
    4 * (k + 1) ≤ length := by
  omega

/-- The samples of one frame. -/
theorem rowRule {i channels : Nat} (hrow : 4 * ((i + 1) * channels) ≤ bytes.length) :
    CheckedLoop.Rule (fun j => readSample client context library (i * channels + j)) channels
      (fun j => Storable client context (i * channels + j))
      (fun j => Behind client library bytes (i * channels + j)) := by
  have hindex {j : Nat} (hj : j < channels) : i * channels + j < (i + 1) * channels :=
    Conversion.index_lt (Nat.lt_succ_self i) hj
  constructor
  · intro j s hj hbehind hstorable
    exact readSample_of_storable (four_mul_le hrow (hindex hj)) hbehind hstorable
  · intro j s hj hbehind hstorable
    exact readSample_of_not_storable (four_mul_le hrow (hindex hj)) hbehind hstorable

/-- The frames. -/
theorem frameRule {frames : Nat}
    (hall : 4 * (frames * context.channels.toInt.toNat) ≤ bytes.length) :
    let channels := context.channels.toInt.toNat
    CheckedLoop.Rule
      (fun i s =>
        (loop (fun j => readSample client context library (i * channels + j)) channels s).bind
          fun s => if 2 ^ 31 ≤ i + 1 then .error .intOverflow else .ok s)
      frames
      (fun i => (∀ j < channels, Storable client context (i * channels + j)) ∧ i + 1 < 2 ^ 31)
      (fun i => Behind client library bytes (i * channels)) := by
  intro channels
  have hrow {i : Nat} (hi : i < frames) : 4 * ((i + 1) * channels) ≤ bytes.length :=
    (Nat.mul_le_mul_left 4 (Nat.mul_le_mul_right _ hi)).trans hall
  constructor
  · rintro i s hi hbehind ⟨hgood, hnext⟩
    obtain ⟨s', hloop, hbehind'⟩ := (rowRule (hrow hi)).loop_succeeds hbehind hgood
    refine ⟨s', ?_, ?_⟩
    · rw [hloop]
      exact if_neg (not_le.mpr hnext)
    · rw [Nat.succ_mul]
      exact hbehind'
  · intro i s hi hbehind hbad
    by_cases hgood : ∀ j < channels, Storable client context (i * channels + j)
    · obtain ⟨s', hloop, -⟩ := (rowRule (hrow hi)).loop_succeeds hbehind hgood
      have hlast : 2 ^ 31 ≤ i + 1 := not_lt.mp fun hnext => hbad ⟨hgood, hnext⟩
      refine ⟨.intOverflow, ?_⟩
      rw [hloop]
      exact if_pos hlast
    · obtain ⟨fault, hloop⟩ := (rowRule (hrow hi)).loop_fails hbehind hgood
      refine ⟨fault, ?_⟩
      rw [hloop]
      rfl

theorem frames_good_iff {frames : Nat} :
    let channels := context.channels.toInt.toNat
    (∀ i < frames, (∀ j < channels, Storable client context (i * channels + j)) ∧
      i + 1 < 2 ^ 31) ↔
      frames * channels ≤ 2 ^ 31 ∧ 4 * (frames * channels) ≤ inputSize client context ∧
        frames < 2 ^ 31 := by
  intro channels
  constructor
  · intro h
    rcases Nat.eq_zero_or_pos frames with rfl | hpos
    · simp
    · obtain ⟨hrow, hlast⟩ := h (frames - 1) (by omega)
      have hframes : frames < 2 ^ 31 := by omega
      rcases Nat.eq_zero_or_pos channels with hzero | hchannels
      · rw [hzero]
        exact ⟨by omega, by omega, hframes⟩
      · obtain ⟨hindex, hroom⟩ := hrow (channels - 1) (by omega)
        have hend : (frames - 1) * channels + (channels - 1) + 1 = frames * channels := by
          have hsplit : frames * channels = (frames - 1) * channels + channels := by
            rw [← Nat.succ_mul, Nat.succ_eq_add_one, Nat.sub_add_cancel hpos]
          omega
        rw [hend, sizeofFloat] at hroom
        exact ⟨by omega, by omega, hframes⟩
  · rintro ⟨hindex, hroom, hframes⟩ i hi
    refine ⟨?_, by omega⟩
    intro j hj
    have hlt := Conversion.index_lt hi hj
    refine ⟨by omega, ?_⟩
    rw [sizeofFloat]
    omega

theorem behind_zero {buffer : ByteBuffer} (h : Stores ⟨[], bytes⟩ buffer) (fresh : Nat → ℚ) :
    Behind client library bytes 0 (buffer, fresh) :=
  ⟨h, fun m hm => absurd hm (Nat.not_lt_zero m)⟩

section Frames

variable {frames : Nat} {s : ByteBuffer × (Nat → ℚ)}
  (hall : 4 * (frames * context.channels.toInt.toNat) ≤ bytes.length)
  (hbehind : Behind client library bytes 0 s)

include hall hbehind

theorem readSamples_succeeds
    (hindex : frames * context.channels.toInt.toNat ≤ 2 ^ 31)
    (hroom : 4 * (frames * context.channels.toInt.toNat) ≤ inputSize client context)
    (hframes : frames < 2 ^ 31) :
    ∃ s', readSamples client context library frames s = .ok s' ∧
      Behind client library bytes (frames * context.channels.toInt.toNat) s' :=
  (frameRule hall).loop_succeeds (by rwa [Nat.zero_mul])
    (frames_good_iff.mpr ⟨hindex, hroom, hframes⟩)

theorem readSamples_fails
    (h : ¬(frames * context.channels.toInt.toNat ≤ 2 ^ 31 ∧
      4 * (frames * context.channels.toInt.toNat) ≤ inputSize client context ∧
      frames < 2 ^ 31)) :
    ∃ fault, readSamples client context library frames s = .error fault :=
  (frameRule hall).loop_fails (by rwa [Nat.zero_mul]) (mt frames_good_iff.mp h)

end Frames

end Reading

section Mixing

variable {client : MumbleClient} {context : AudioContext} {library : Library}

theorem mixFrame_rule (resampledAudio : List ℚ) (n : Nat) :
    CheckedLoop.Rule (mixFrame resampledAudio) n (fun i => i < maxPcmFrames) fun _ _ => True := by
  constructor
  · intro i audioOutput hi _ hgood
    exact ⟨_, if_pos hgood, trivial⟩
  · intro i audioOutput hi _ hbad
    exact ⟨_, if_neg hbad⟩

/-- Mono and more than two channels need memory for stereo. -/
theorem toStereo_eq_none_iff (memory : Memory) {channels : Int} (samples : List ℚ)
    {frames : Nat} (hframes : frames < 2 ^ 31) :
    toStereo memory channels.toNat samples frames = none ↔
      (channels = 1 ∨ 2 < channels) ∧ memory (8 * frames) = false := by
  have hsize : sizeT ((frames : Int) * 2 * 4) = 8 * frames := by
    rw [sizeT_of_nonneg (by omega) (by omega)]
    omega
  have hone : channels.toNat = 1 ↔ channels = 1 := by omega
  have hmore : 2 < channels.toNat ↔ 2 < channels := by omega
  simp only [toStereo, Conversion.convertMonoToMulti, Conversion.downmixToStereo,
    Conversion.audioPlaybackChannels, Conversion.sizeofFloat, Nat.cast_ofNat, hsize, hone, hmore]
  split_ifs <;> simp_all

variable {frames : Nat} {resampleRatio : ℚ} {samples stereo : List ℚ} {buffer : ByteBuffer}
  {mix : Mix}

theorem mixSamples_ends
    (hstereo : toStereo library.stereoMemory context.channels.toInt.toNat samples frames = none) :
    mixSamples context library frames resampleRatio samples buffer mix =
      .ok ⟨buffer, mix, none⟩ := by
  rw [mixSamples, hstereo]

theorem mixSamples_overflows
    (hstereo : toStereo library.stereoMemory context.channels.toInt.toNat samples frames =
      some stereo)
    (h : context.channels.toInt = 1 ∧ 2 ^ 31 < frames * audioPlaybackChannels) :
    mixSamples context library frames resampleRatio samples buffer mix = .error .intOverflow := by
  rw [mixSamples, hstereo]
  exact if_pos h

/-- The samples are mixed within `audio_output`, and the buffer is packed. -/
theorem mixSamples_mixes (mix : Mix) (hresampler : library.resampler.Bounded)
    {q : RewindQueue UInt8}
    (hstereo : toStereo library.stereoMemory context.channels.toInt.toNat samples frames =
      some stereo)
    (hcount : ¬(context.channels.toInt = 1 ∧ 2 ^ 31 < frames * audioPlaybackChannels))
    (houtput : ⌈(frames : ℚ) * resampleRatio⌉.toNat ≤ maxPcmFrames)
    (hstores : Stores q buffer) :
    ∃ turn, mixSamples context library frames resampleRatio samples buffer mix = .ok turn ∧
      turn.inputBuffer = some samples ∧ Stores q.pack turn.buffer := by
  have hsame : resampleRatio = 1 → frames ≤ ⌈(frames : ℚ) * resampleRatio⌉.toNat := by
    rintro rfl
    rw [mul_one, Int.ceil_natCast]
    exact le_refl _
  have hmost := Conversion.resampleAudio_le library.outputMemory hresampler stereo false hsame
  obtain ⟨packed, hpack, hpacked, -⟩ := bufferPack_spec hstores
  rw [mixSamples, hstereo]
  dsimp only
  rw [if_neg hcount, hpack]
  generalize resampleAudio library.outputMemory library.resampler stereo frames
    ⌈(frames : ℚ) * resampleRatio⌉ resampleRatio false = resampled at hmost
  obtain ⟨audioOutput, hloop, -⟩ :=
    (mixFrame_rule (resampled.2.getD []) resampled.1.toNat).loop_succeeds
      (s := mix.audioOutput) trivial fun i hi => by omega
  rw [hloop]
  exact ⟨_, rfl, rfl, hpacked⟩

theorem stereo_granted {memory : Memory} {channels : Int} (hframes : frames < 2 ^ 31)
    (hstereo : toStereo memory channels.toNat samples frames = some stereo)
    (h : channels = 1 ∨ 2 < channels) : memory (8 * frames) = true := by
  by_contra hrefused
  have hnone := (toStereo_eq_none_iff memory samples hframes).mpr
    ⟨h, Bool.eq_false_iff.mpr hrefused⟩
  rw [hnone] at hstereo
  cases hstereo

end Mixing

section Turns

variable (client : MumbleClient) (context : AudioContext) (library : Library) (pipe : AudioPipe)
  (mix : Mix)

/-- A turn that leaves the buffer flipped keeps everything. -/
theorem takesFrames_of_early (h : EndsEarly client context library
      (framesOf client context pipe.bytes) pipe.bytes.length) :
    TakesFrames client context library pipe.bytes ⟨bufferFlip pipe.buffer, mix, none⟩ :=
  ⟨h, pipe.stores_flip⟩

variable {client context library}

/-- What is asked of a mixable buffer for a negative rate holds for any other. -/
theorem counted_of_fits {frames : Nat} (hframes : frames = framesOf client context pipe.bytes)
    (hrate : context.samplerate.toInt ≠ 0)
    (hfit : 4 * (frames * context.channels.toInt.toNat) ≤
      requested client.packetSize.audioFrames context.samplerate.toInt context.channels.toInt)
    (h : context.samplerate.toInt < 0 → BackwardsCounted context library frames) :
    BackwardsCounted context library frames := by
  rcases lt_or_gt_of_ne hrate with hneg | hpos
  · exact h hneg
  · subst hframes
    have hlt : framesOf client context pipe.bytes < 2 ^ 30 :=
      wholeFrames_lt client context hpos hfit
    exact ⟨by omega, fun _ _ => by omega⟩

/-- Behind the loops that read, the turn is right. -/
theorem mixSamples_takes (hresampler : library.resampler.Bounded) {frames : Nat}
    (hframes : frames = framesOf client context pipe.bytes) {s : ByteBuffer × (Nat → ℚ)}
    (hrate : context.samplerate.toInt ≠ 0)
    (hfit : 4 * (frames * context.channels.toInt.toNat) ≤
      requested client.packetSize.audioFrames context.samplerate.toInt context.channels.toInt)
    (hcounted : BackwardsCounted context library frames)
    (hbehind : Behind client library pipe.bytes (frames * context.channels.toInt.toNat) s) :
    ∃ turn, mixSamples context library frames (audioSampleRate / context.samplerate.toInt)
        ((List.range (frames * context.channels.toInt.toNat)).map s.2) s.1 mix = .ok turn ∧
      TakesFrames client context library pipe.bytes turn := by
  obtain ⟨hcount, hmono⟩ := hcounted
  have hsamples : (List.range (frames * context.channels.toInt.toNat)).map s.2 =
      (List.range (frames * context.channels.toInt.toNat)).map
        (sampleOf client library pipe.bytes) :=
    List.map_congr_left fun k hk => hbehind.samples k (List.mem_range.mp hk)
  rw [hsamples]
  subst hframes
  have houtput := outputFrames_le client context hrate hfit
  cases hstereo : toStereo library.stereoMemory context.channels.toInt.toNat
      ((List.range (framesOf client context pipe.bytes * context.channels.toInt.toNat)).map
        (sampleOf client library pipe.bytes)) (framesOf client context pipe.bytes) with
  | none =>
      have hnone := (toStereo_eq_none_iff library.stereoMemory _ hcount).mp hstereo
      have hkept := bufferFlip_spec hbehind.stores
      rw [RewindQueue.flip, List.take_append_drop] at hkept
      exact ⟨_, mixSamples_ends hstereo, Or.inr (Or.inr hnone), hkept⟩
  | some stereo =>
      have hno : ¬(context.channels.toInt = 1 ∧
          2 ^ 31 < framesOf client context pipe.bytes * audioPlaybackChannels) := by
        rintro ⟨hone, hmore⟩
        have hle := hmono hone (stereo_granted hcount hstereo (Or.inl hone))
        rw [audioPlaybackChannels] at hmore
        omega
      obtain ⟨turn, hturn, hinput, hstores⟩ := mixSamples_mixes mix hresampler hstereo hno
        houtput hbehind.stores
      refine ⟨turn, hturn, ?_⟩
      rw [TakesFrames, hinput]
      exact ⟨rfl, hstores⟩

theorem mixBuffer_of_mixable (hresampler : library.resampler.Bounded)
    (h : Mixable client context library pipe.bytes.length) :
    ∃ turn, mixBuffer client context library pipe.buffer mix = .ok turn ∧
      TakesFrames client context library pipe.bytes turn := by
  rw [mixBuffer_eq]
  by_cases hempty : pipe.bytes.length = 0
  · rw [if_pos hempty]
    exact ⟨_, rfl, takesFrames_of_early client context library pipe mix (Or.inl hempty)⟩
  by_cases hrefused : library.inputMemory (requested client.packetSize.audioFrames
      context.samplerate.toInt context.channels.toInt) = false
  · rw [if_neg hempty, if_pos hrefused]
    exact ⟨_, rfl, takesFrames_of_early client context library pipe mix (Or.inr (Or.inl hrefused))⟩
  obtain ⟨hchannels, hrate, hindex, hfit, hback⟩ :=
    (h.resolve_left hempty).resolve_left hrefused
  have hcounted := counted_of_fits pipe rfl hrate hfit hback
  have hall : 4 * (framesOf client context pipe.bytes * context.channels.toInt.toNat) ≤
      pipe.bytes.length :=
    four_mul_wholeFrames_le _ _ _ _
  have hroom := hfit
  rw [← inputSize_eq] at hroom
  obtain ⟨s, hread, hbehind⟩ := readSamples_succeeds hall
    (behind_zero pipe.stores_flip library.inputBuffer) hindex hroom hcounted.1
  rw [if_neg hempty, if_neg hrefused, if_neg hchannels, if_neg hrate]
  dsimp only
  rw [hread]
  exact mixSamples_takes pipe mix hresampler rfl hrate hfit hcounted hbehind

/-- What is left to go wrong where the samples can be read. -/
theorem stereo_too_long {bytes : List UInt8} (h : ¬Mixable client context library bytes.length)
    (hchannels : context.channels.toInt ≠ 0) (hrate : context.samplerate.toInt ≠ 0)
    (hindex : framesOf client context bytes * context.channels.toInt.toNat ≤ 2 ^ 31)
    (hroom : 4 * (framesOf client context bytes * context.channels.toInt.toNat) ≤
      inputSize client context)
    (hcount : framesOf client context bytes < 2 ^ 31) :
    context.channels.toInt = 1 ∧ library.stereoMemory (8 * framesOf client context bytes) = true ∧
      2 ^ 31 < 2 * framesOf client context bytes := by
  rw [inputSize_eq] at hroom
  by_contra hstereo
  apply h
  refine Or.inr (Or.inr ⟨hchannels, hrate, hindex, hroom, fun _ => ⟨hcount, ?_⟩⟩)
  intro hone hgranted
  exact not_lt.mp fun hmore => hstereo ⟨hone, hgranted, hmore⟩

theorem mixBuffer_of_not_mixable (h : ¬Mixable client context library pipe.bytes.length) :
    ∃ fault, mixBuffer client context library pipe.buffer mix = .error fault := by
  have hempty : ¬pipe.bytes.length = 0 := fun hempty => h (Or.inl hempty)
  have hrefused : ¬library.inputMemory (requested client.packetSize.audioFrames
      context.samplerate.toInt context.channels.toInt) = false :=
    fun hrefused => h (Or.inr (Or.inl hrefused))
  rw [mixBuffer_eq, if_neg hempty, if_neg hrefused]
  by_cases hchannels : context.channels.toInt = 0
  · exact ⟨_, if_pos hchannels⟩
  by_cases hrate : context.samplerate.toInt = 0
  · rw [if_neg hchannels]
    exact ⟨_, if_pos hrate⟩
  rw [if_neg hchannels, if_neg hrate]
  dsimp only
  have hall : 4 * (framesOf client context pipe.bytes * context.channels.toInt.toNat) ≤
      pipe.bytes.length :=
    four_mul_wholeFrames_le _ _ _ _
  have hzero : Behind client library pipe.bytes 0 (bufferFlip pipe.buffer, library.inputBuffer) :=
    behind_zero pipe.stores_flip library.inputBuffer
  by_cases hgood : framesOf client context pipe.bytes * context.channels.toInt.toNat ≤ 2 ^ 31 ∧
      4 * (framesOf client context pipe.bytes * context.channels.toInt.toNat) ≤
        inputSize client context ∧ framesOf client context pipe.bytes < 2 ^ 31
  · obtain ⟨hindex, hroom, hcount⟩ := hgood
    obtain ⟨s, hread, -⟩ := readSamples_succeeds hall hzero hindex hroom hcount
    obtain ⟨hone, hgranted, hmore⟩ := stereo_too_long h hchannels hrate hindex hroom
      hcount
    refine ⟨.intOverflow, ?_⟩
    rw [hread]
    cases hstereo : toStereo library.stereoMemory context.channels.toInt.toNat
        ((List.range (framesOf client context pipe.bytes * context.channels.toInt.toNat)).map s.2)
        (framesOf client context pipe.bytes) with
    | none =>
        have hnone := (toStereo_eq_none_iff library.stereoMemory _ hcount).mp hstereo
        rw [hgranted] at hnone
        cases hnone.2
    | some stereo =>
        refine mixSamples_overflows hstereo ⟨hone, ?_⟩
        rw [audioPlaybackChannels]
        omega
  · obtain ⟨fault, hread⟩ := readSamples_fails hall hzero hgood
    refine ⟨fault, ?_⟩
    rw [hread]
    rfl

end Turns

section Loop

variable (client : MumbleClient)

/-- A buffer of the list can be mixed, if it has a context. -/
def PipeMixable (p : AudioPipe × Library) : Prop :=
  ∀ context, p.1.context = some context → Mixable client context p.2 p.1.bytes.length

/-- The turn of a buffer of the list is right, if it has a context. -/
def PipeTakes (p : AudioPipe × Library) (turn : Turn) : Prop :=
  ∀ context, p.1.context = some context → TakesFrames client context p.2 p.1.bytes turn

variable {client}

/-- The buffer of a turn that is right can be written to and mixed again. -/
theorem TakesFrames.written_le {context : AudioContext} {library : Library}
    {bytes : List UInt8} {turn : Turn} (h : TakesFrames client context library bytes turn) :
    turn.buffer.writeHead ≤ turn.buffer.capacity := by
  rw [TakesFrames] at h
  split at h
  · exact h.2.le.2
  · exact h.2.le.2

theorem mixPipe_of_mixable {p : AudioPipe × Library} (hresampler : p.2.resampler.Bounded)
    (mix : Mix) (h : PipeMixable client p) :
    ∃ turn, mixPipe client p.1 p.2 mix = .ok turn ∧ PipeTakes client p turn := by
  rw [mixPipe]
  cases hcontext : p.1.context with
  | none =>
      refine ⟨_, rfl, ?_⟩
      intro context hsome
      rw [hcontext] at hsome
      cases hsome
  | some context =>
      obtain ⟨turn, hturn, htakes⟩ := mixBuffer_of_mixable p.1 mix hresampler (h context hcontext)
      refine ⟨turn, hturn, ?_⟩
      intro context' hsome
      obtain rfl := Option.some.inj (hcontext.symm.trans hsome)
      exact htakes

theorem mixPipe_of_not_mixable {p : AudioPipe × Library} (mix : Mix)
    (h : ¬PipeMixable client p) : ∃ fault, mixPipe client p.1 p.2 mix = .error fault := by
  obtain ⟨context, hnot⟩ := not_forall.mp h
  obtain ⟨hcontext, hnot⟩ := Classical.not_imp.mp hnot
  rw [mixPipe, hcontext]
  exact mixBuffer_of_not_mixable p.1 mix hnot

theorem mixPipes_of_mixable {pipes : List (AudioPipe × Library)}
    (hresampler : ∀ p ∈ pipes, p.2.resampler.Bounded) (mix : Mix)
    (h : ∀ p ∈ pipes, PipeMixable client p) :
    ∃ turns after, mixPipes client pipes mix = .ok (turns, after) ∧
      List.Forall₂ (PipeTakes client) pipes turns := by
  induction pipes generalizing mix with
  | nil => exact ⟨[], mix, rfl, .nil⟩
  | cons p rest ih =>
      obtain ⟨turn, hturn, htakes⟩ := mixPipe_of_mixable (hresampler p List.mem_cons_self) mix
        (h p List.mem_cons_self)
      obtain ⟨turns, after, hturns, hall⟩ := ih
        (fun q hq => hresampler q (List.mem_cons_of_mem _ hq)) turn.mix
        fun q hq => h q (List.mem_cons_of_mem _ hq)
      refine ⟨turn :: turns, after, ?_, .cons htakes hall⟩
      rw [mixPipes, hturn]
      change (mixPipes client rest turn.mix).map _ = _
      rw [hturns]
      rfl

/-- A buffer that cannot be mixed ends the loop, if none before it has. -/
theorem mixable_of_mixPipes {pipes : List (AudioPipe × Library)} {mix after : Mix}
    {turns : List Turn} (h : mixPipes client pipes mix = .ok (turns, after)) :
    ∀ p ∈ pipes, PipeMixable client p := by
  induction pipes generalizing mix turns with
  | nil =>
      intro p hp
      cases hp
  | cons p rest ih =>
      obtain ⟨turn, turns', hturn, hrest⟩ := mixPipes_cons_ok h
      have hfirst : PipeMixable client p := by
        by_contra hnot
        obtain ⟨fault, hfault⟩ := mixPipe_of_not_mixable mix hnot
        rw [hturn] at hfault
        cases hfault
      intro q hq
      rcases List.mem_cons.mp hq with rfl | hmem
      · exact hfirst
      · exact ih hrest q hmem

/-- The loop over the buffers has no fault and takes the whole frames of each buffer, just
where each buffer can be mixed. -/
theorem mixing_iff (client : MumbleClient) (pipes : List (AudioPipe × Library))
    (hresampler : ∀ p ∈ pipes, p.2.resampler.Bounded) (mix : Mix) :
    (∃ turns after, mixPipes client pipes mix = .ok (turns, after) ∧
      List.Forall₂ (PipeTakes client) pipes turns) ↔ ∀ p ∈ pipes, PipeMixable client p := by
  constructor
  · rintro ⟨turns, after, hturns, -⟩
    exact mixable_of_mixPipes hturns
  · exact mixPipes_of_mixable hresampler mix

/-- The block of a new audio buffer, with zeros in it. -/
def newBlock : Block :=
  { bytes := List.replicate (pcmBuffer * sizeofFloat) 0
    length_lt := by
      rw [List.length_replicate]
      decide }

theorem newBlock_length : newBlock.bytes.length = pcmBuffer * sizeofFloat :=
  List.length_replicate

/-- A new buffer to which a float was written, 0. -/
def oneFloat (samplerate channels : Int32) : AudioPipe :=
  { context := some ⟨samplerate, channels⟩
    buffer := ⟨newBlock, 0, 4⟩
    written_le := by
      change 4 ≤ newBlock.bytes.length
      rw [newBlock_length]
      decide }

/-- There is memory for everything, and all floats are 0. -/
def silence : Library :=
  { inputMemory := fun _ => true
    inputBuffer := fun _ => 0
    stereoMemory := fun _ => true
    outputMemory := fun _ => true
    resampler := Conversion.silentResampler
    floatValue := fun _ => 0 }

theorem oneFloat_length (samplerate channels : Int32) :
    (oneFloat samplerate channels).bytes.length = 4 :=
  List.length_take_of_le (oneFloat samplerate channels).written_le

theorem mixing_iff_two :
    (∃ turns after, mixPipes ⟨.small, 1⟩ [(oneFloat 24000 1, silence), (oneFloat 48000 2, silence)]
        ⟨fun _ => 0, 0, false⟩ = .ok (turns, after) ∧
      List.Forall₂ (PipeTakes ⟨.small, 1⟩)
        [(oneFloat 24000 1, silence), (oneFloat 48000 2, silence)] turns) ↔
      ∀ p ∈ [(oneFloat 24000 1, silence), (oneFloat 48000 2, silence)],
        PipeMixable ⟨.small, 1⟩ p := by
  apply mixing_iff
  intro p hp
  simp only [List.mem_cons, List.not_mem_nil, or_false] at hp
  rcases hp with rfl | rfl <;> exact Conversion.silentResampler_bounded

/-- A buffer without channels: the number of its frames is a division by 0. -/
theorem no_channels_divide_by_zero :
    mixPipes ⟨.small, 1⟩ [(oneFloat 48000 0, silence)] ⟨fun _ => 0, 0, false⟩ =
      .error .divisionByZero := by
  have hsome : (oneFloat 48000 0).bytes.length ≠ 0 := by
    rw [oneFloat_length]
    decide
  rw [mixPipes, mixPipe]
  change (mixBuffer ⟨.small, 1⟩ ⟨48000, 0⟩ silence (oneFloat 48000 0).buffer _).bind _ = _
  rw [mixBuffer_eq, if_neg hsome]
  rfl

end Loop

end LuaMumble.Audio.MixBuffer
