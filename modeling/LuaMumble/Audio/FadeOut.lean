import LuaMumble.Audio.Fade

/-!
How a fade of `fadeOut` ends. The end flag that it raises keeps the buffer thread from the
file, so that the mixer takes what is in the ring and what the buffer thread has in its hands,
and is silent meanwhile, unless the volume is infinite or no number: a product of 0 with it is no
number. Then the end is handled: a stream that still loops goes back to its beginning, the fade
behind it, and a fade of no frames is none.
-/

namespace LuaMumble.Audio.Fading

open Lib Lib.FloatConversion

variable {α : Type}

/-- No call of a script. -/
def Input.Uncalled : Input α → Prop
  | .call _ => False
  | _ => True

/-- `audiostream_isLooping` -/
def isLooping (sound : AudioStream α) : Bool :=
  sound.looping || decide (0 < sound.loopCount)

/-- The tick empties the ring of a stream that the end flag is up for, or that the fade raises
it for, and with it the fade is over. -/
structure EndsFaded (s : Stream α) (outputFrames : Nat) : Prop where
  referenced : s.sound.referenced = true
  reclaimed : s.sound.reclaimed = false
  playing : s.sound.playing = true
  drained : ringCount s.sound.ring / audioPlaybackChannels < outputFrames
  faded : s.fade.framesLeft ≤ (ringCount s.sound.ring / audioPlaybackChannels : Nat)
  ended : s.sound.atEnd = true ∨
    s.fade.framesLeft < (ringCount s.sound.ring / audioPlaybackChannels : Nat)

/-- The stream does not loop when it comes to its end behind the fade. -/
def EndsUnlooped (s : Stream α) : Input α → Prop
  | .tick outputFrames _ _ => EndsFaded s outputFrames → isLooping s.sound = false
  | _ => True

/-- The tick takes a frame behind the fade. -/
structure TakesBehind (s : Stream α) (outputFrames : Nat) : Prop where
  referenced : s.sound.referenced = true
  reclaimed : s.sound.reclaimed = false
  playing : s.sound.playing = true
  behind : s.fade.framesLeft <
    (min (ringCount s.sound.ring / audioPlaybackChannels) outputFrames : Nat)

/-- The volume of the stream and of the client is a finite number behind the fade. -/
def MixesFinite (s : Stream α) : Input α → Prop
  | .tick outputFrames _ clientVolume =>
      TakesBehind s outputFrames → (toDouble s.volume * clientVolume).isFinite = true
  | _ => True

/-- What is asked of a fade of `frames` frames: the mixer takes no more than that and the size
of the ring, and what it takes behind the fade is silent. -/
structure StopsWithin (frames bufferSize : Nat) (taken : List (Frame α × Float32)) : Prop where
  bounded : taken.length ≤ frames + bufferSize
  silent : ∀ x ∈ taken.drop frames, IsZero x.2

/-- What the buffer thread may still write to the ring once the end flag is up. -/
def mayWrite (bufferSize : Nat) : BufferThread α → Nat
  | .checked => bufferSize
  | .processed _ _ => bufferSize
  | _ => 0

/-- The fade goes on or is over, and the stream is in the list. Behind the fade the end flag is
up, and the samples that were taken, that are queued and that may still be written are bounded
together. -/
structure FadingOut (frames bufferSize : Nat) (taken : List (Frame α × Float32)) (s : Stream α) :
    Prop where
  bufferSize_eq : s.sound.ring.bufferSize = bufferSize
  frames_pos : 0 < s.fade.frames
  framesLeft : s.fade.framesLeft = ((frames - taken.length : Nat) : Int)
  stop : s.fade.stop = true
  silent : ∀ x ∈ taken.drop frames, IsZero x.2
  bounded : taken.length ≤ frames ∨
    s.sound.atEnd = true ∧
      taken.length * audioPlaybackChannels + s.sound.ring.used + mayWrite bufferSize s.thread ≤
        (frames + bufferSize) * audioPlaybackChannels

/-- The stream is out of the list. -/
structure FadedOut (frames bufferSize : Nat) (taken : List (Frame α × Float32)) (s : Stream α) :
    Prop where
  referenced : s.sound.referenced = false
  stopped : StopsWithin frames bufferSize taken

def SinceFadeOut (frames bufferSize : Nat) (taken : List (Frame α × Float32)) (s : Stream α) :
    Prop :=
  FadingOut frames bufferSize taken s ∨ FadedOut frames bufferSize taken s

section Steps

variable {frames bufferSize : Nat} {taken : List (Frame α × Float32)} {s : Stream α}

/-- A fade of fewer frames stops within more of them. -/
theorem StopsWithin.mono {more : Nat} (h : StopsWithin frames bufferSize taken)
    (hmore : frames ≤ more) : StopsWithin more bufferSize taken := by
  refine ⟨Nat.le_trans h.bounded (Nat.add_le_add_right hmore _), ?_⟩
  intro x hx
  obtain ⟨rest, rfl⟩ := Nat.exists_eq_add_of_le hmore
  rw [← List.drop_drop] at hx
  exact h.silent x (List.mem_of_mem_drop hx)

theorem FadingOut.stopsWithin (h : FadingOut frames bufferSize taken s) :
    StopsWithin frames bufferSize taken := by
  refine ⟨?_, h.silent⟩
  rcases h.bounded with hfading | ⟨-, hbound⟩
  · omega
  · exact Nat.le_of_mul_le_mul_right (by omega) (show 0 < audioPlaybackChannels by decide)

theorem SinceFadeOut.stopsWithin (h : SinceFadeOut frames bufferSize taken s) :
    StopsWithin frames bufferSize taken := by
  rcases h with h | h
  · exact h.stopsWithin
  · exact h.stopped

theorem mixed_concat (log : List (Output α)) (o : Output α) :
    mixed (log ++ [o]) = mixed log ++ o.frames := by
  simp [mixed]

/-- What a step of the buffer thread does with the stream. Once the flag is up, what it brings
to the ring it could bring before. -/
theorem bufferStep_spec (decoded : Decoded α) (s : Stream α) :
    (bufferStep decoded s).fade = s.fade ∧
      (bufferStep decoded s).sound.referenced = s.sound.referenced ∧
      (bufferStep decoded s).sound.ring.bufferSize = s.sound.ring.bufferSize ∧
      (s.sound.atEnd = true → (bufferStep decoded s).sound.atEnd = true ∧
        (bufferStep decoded s).sound.ring.used +
            mayWrite s.sound.ring.bufferSize (bufferStep decoded s).thread ≤
          s.sound.ring.used + mayWrite s.sound.ring.bufferSize s.thread) := by
  obtain ⟨⟨sound, thread⟩, volume, fade⟩ := s
  cases thread with
  | away =>
      unfold bufferStep Audio.bufferStep
      cases sound.referenced && !sound.reclaimed with
      | true => exact ⟨rfl, rfl, rfl, fun hend => ⟨hend, Nat.le_refl _⟩⟩
      | false => exact ⟨rfl, rfl, rfl, fun hend => ⟨hend, Nat.le_refl _⟩⟩
  | pinned =>
      unfold bufferStep Audio.bufferStep
      cases hgoes : sound.playing && !sound.atEnd with
      | true =>
          refine ⟨rfl, rfl, rfl, fun hend => ?_⟩
          simp [show sound.atEnd = true from hend] at hgoes
      | false => exact ⟨rfl, rfl, rfl, fun hend => ⟨hend, Nat.le_refl _⟩⟩
  | checked =>
      by_cases hroom : ringCount sound.ring < sound.ring.bufferSize / 2
      · rw [bufferStep, if_pos hroom]
        exact ⟨rfl, rfl, rfl, fun hend => ⟨hend, Nat.le_refl _⟩⟩
      · rw [bufferStep, if_neg hroom]
        exact ⟨rfl, rfl, rfl, fun hend => ⟨hend, Nat.add_le_add_left (Nat.zero_le _) _⟩⟩
  | processed outputAudio eof =>
      refine ⟨rfl, rfl, ringWrite_bufferSize _ _, fun hend => ⟨hend, ?_⟩⟩
      have hfull := (ringWrite sound.ring outputAudio).used_le
      rw [ringWrite_bufferSize] at hfull
      simp only [bufferStep, Audio.bufferStep, mayWrite]
      omega
  | written eof =>
      cases eof with
      | true => exact ⟨rfl, rfl, rfl, fun _ => ⟨rfl, Nat.le_refl _⟩⟩
      | false => exact ⟨rfl, rfl, rfl, fun hend => ⟨hend, Nat.le_refl _⟩⟩

theorem FadingOut.buffer (h : FadingOut frames bufferSize taken s) (decoded : Decoded α) :
    FadingOut frames bufferSize taken (bufferStep decoded s) := by
  obtain ⟨hfade, -, hsize, hended⟩ := bufferStep_spec decoded s
  refine ⟨hsize.trans h.bufferSize_eq, hfade ▸ h.frames_pos, hfade ▸ h.framesLeft,
    hfade ▸ h.stop, h.silent, ?_⟩
  rcases h.bounded with hfading | ⟨hend, hbound⟩
  · exact Or.inl hfading
  · obtain ⟨hstill, hless⟩ := hended hend
    rw [h.bufferSize_eq] at hless
    exact Or.inr ⟨hstill, by omega⟩

theorem mayWrite_le (bufferSize : Nat) (thread : BufferThread α) :
    mayWrite bufferSize thread ≤ bufferSize := by
  cases thread with
  | checked => exact Nat.le_refl _
  | processed outputAudio eof => exact Nat.le_refl _
  | _ => exact Nat.zero_le _

/-- What follows the loop of the mixer, where the stream does not come to its end. -/
theorem FadingOut.mixing (h : FadingOut frames bufferSize taken s) (volume : Float)
    {queue : List (Frame α)} {ring : Ring α} (hsize : ring.bufferSize = s.sound.ring.bufferSize)
    (hused : ring.used + queue.length * audioPlaybackChannels = s.sound.ring.used)
    (hvolume : frames - taken.length < queue.length → volume.isFinite = true) :
    let result := mix volume s.fade s.sound.atEnd queue
    FadingOut frames bufferSize (taken ++ result.1)
        { s with
          sound := { s.sound with ring := ring, atEnd := result.2.2 }
          fade := result.2.1 } ∧
      result.1.length = queue.length ∧
      result.2.2 = (s.sound.atEnd || decide (frames - taken.length < queue.length)) := by
  intro result
  obtain ⟨hsilent, hleft, hframes, hstop, hend⟩ :=
    mixFaded_stop h.framesLeft h.stop s.sound.atEnd queue hvolume
  have hresult : result = mixFaded volume s.fade s.sound.atEnd queue := if_pos h.frames_pos
  have hlength : result.1.length = queue.length := mix_length _ _ _ _
  rw [← hresult] at hsilent hleft hframes hstop hend
  refine ⟨⟨hsize.trans h.bufferSize_eq, hframes ▸ h.frames_pos, ?_, hstop, ?_, ?_⟩, hlength, hend⟩
  · rw [hleft, List.length_append, hlength, Nat.sub_sub]
  · intro x hx
    rw [List.drop_append] at hx
    rcases List.mem_append.mp hx with hold | hnew
    · exact h.silent x hold
    · exact hsilent x hnew
  · rw [List.length_append, hlength]
    by_cases hfading : taken.length + queue.length ≤ frames
    · exact Or.inl hfading
    · right
      have hfull := s.sound.ring.used_le
      have hpending := mayWrite_le bufferSize s.thread
      rw [h.bufferSize_eq] at hfull
      simp only [audioPlaybackChannels] at hused ⊢
      rcases h.bounded with hbefore | ⟨hended, hbound⟩
      · refine ⟨?_, by omega⟩
        rw [hend]
        simp only [Bool.or_eq_true, decide_eq_true_eq]
        omega
      · simp only [audioPlaybackChannels] at hbound
        exact ⟨by rw [hend, hended, Bool.true_or], by omega⟩

/-- At its end a stream goes on with its fade if it loops, and else leaves the list. -/
theorem handleAudioStreamEnd_spec (s : Stream α) :
    (isLooping s.sound = false → (handleAudioStreamEnd s).2.sound.referenced = false) ∧
      (isLooping s.sound = true → (handleAudioStreamEnd s).2.fade = s.fade ∧
        (handleAudioStreamEnd s).2.sound.ring = s.sound.ring) := by
  simp only [isLooping, handleAudioStreamEnd, Audio.handleAudioStreamEnd]
  by_cases hlooping : s.sound.looping = true
  · simp [hlooping]
  · by_cases hcount : 0 < s.sound.loopCount
    · simp [hlooping, hcount]
    · simp [hlooping, hcount, unreferenceLocked, resetPlaybackState]

/-- A stream that comes to its end during the fade, and loops. -/
theorem FadingOut.looped (h : FadingOut frames bufferSize taken s)
    (hlooping : isLooping s.sound = true) (hfading : taken.length ≤ frames) :
    FadingOut frames bufferSize taken (handleAudioStreamEnd s).2 := by
  obtain ⟨hfade, hring⟩ := (handleAudioStreamEnd_spec s).2 hlooping
  refine ⟨?_, ?_, ?_, ?_, h.silent, Or.inl hfading⟩
  · rw [hring]
    exact h.bufferSize_eq
  · rw [hfade]
    exact h.frames_pos
  · rw [hfade]
    exact h.framesLeft
  · rw [hfade]
    exact h.stop

/-- A tick of the mixer. -/
theorem FadingOut.tick (h : FadingOut frames bufferSize taken s) {clientVolume : Float}
    {outputFrames : Nat} (hfits : outputFrames ≤ maxPcmFrames)
    (hends : EndsFaded s outputFrames → isLooping s.sound = false)
    (hfinite : TakesBehind s outputFrames →
      (toDouble s.volume * clientVolume).isFinite = true) :
    SinceFadeOut frames bufferSize (taken ++ (mixerTick clientVolume outputFrames s).1.frames)
      (mixerTick clientVolume outputFrames s).2 := by
  unfold mixerTick
  split
  · rename_i hmixed
    simp only [Bool.and_eq_true, Bool.not_eq_true'] at hmixed
    obtain ⟨⟨hreferenced, hreclaimed⟩, hplaying⟩ := hmixed
    obtain ⟨ring, queue, hqueue, hused, hsize, hrun⟩ :=
      processAudioFile_eq clientVolume hreclaimed hfits
    obtain ⟨hnext, hlength, hend⟩ := h.mixing (toDouble s.volume * clientVolume) hsize
      hused fun hbehind => hfinite ⟨hreferenced, hreclaimed, hplaying, by
        rw [h.framesLeft, ringCount, ← hqueue]
        exact Int.ofNat_lt.mpr hbehind⟩
    rw [hrun]
    dsimp only
    split
    · rename_i hcomes
      simp only [Bool.and_eq_true, decide_eq_true_eq] at hcomes
      obtain ⟨hended, hdrained⟩ := hcomes
      have havailable : queue.length = ringCount s.sound.ring / audioPlaybackChannels := by
        rw [hqueue] at hdrained ⊢
        exact Nat.min_eq_left (by omega)
      rw [hend, Bool.or_eq_true, decide_eq_true_eq] at hended
      cases hlooping : isLooping s.sound with
      | false => exact Or.inr ⟨(handleAudioStreamEnd_spec _).1 hlooping, hnext.stopsWithin⟩
      | true =>
          -- behind the fade the stream would not loop
          have hfading : taken.length + queue.length ≤ frames := by
            by_contra hfaded
            refine absurd (hends ⟨hreferenced, hreclaimed, hplaying, havailable ▸ hdrained, ?_, ?_⟩)
              (by simp [hlooping])
            · rw [h.framesLeft, ← havailable]
              omega
            · rw [h.framesLeft, ← havailable]
              exact hended.imp id fun hless => by omega
          refine Or.inl (hnext.looped hlooping ?_)
          rw [List.length_append, hlength]
          exact hfading
    · exact Or.inl hnext
  · left
    rw [Output.frames, List.append_nil]
    exact h

theorem FadedOut.step (h : FadedOut frames bufferSize taken s) {i : Input α} (hi : i.Uncalled) :
    (step s i).1.frames = [] ∧ FadedOut frames bufferSize taken (step s i).2 := by
  cases i with
  | buffer decoded =>
      obtain ⟨-, hreferenced, -, -⟩ := bufferStep_spec decoded s
      exact ⟨rfl, hreferenced.trans h.referenced, h.stopped⟩
  | tick outputFrames fits clientVolume =>
      have htick : mixerTick clientVolume outputFrames s = (.silent, s) := by
        simp [mixerTick, h.referenced]
      rw [Fading.step, htick]
      exact ⟨rfl, h⟩
  | call c => exact hi.elim

theorem SinceFadeOut.step (h : SinceFadeOut frames bufferSize taken s) {i : Input α}
    (hi : i.Uncalled) (hends : EndsUnlooped s i) (hfinite : MixesFinite s i) :
    SinceFadeOut frames bufferSize (taken ++ (step s i).1.frames) (step s i).2 := by
  rcases h with h | h
  · cases i with
    | buffer decoded =>
        rw [Fading.step, Output.frames, List.append_nil]
        exact Or.inl (h.buffer decoded)
    | tick outputFrames fits clientVolume => exact h.tick fits hends hfinite
    | call c => exact hi.elim
  · obtain ⟨hframes, hnext⟩ := h.step hi
    rw [hframes, List.append_nil]
    exact Or.inr hnext

theorem fadeOut_fadingOut (s : Stream α) {time : Float} (beyond : Int) {frames : Nat}
    (hframes : fadeFrames time = some (frames : Int)) (hpos : 0 < frames) :
    FadingOut frames s.sound.ring.bufferSize [] (Call.run s (.fadeOut time beyond)) := by
  have hfade : (fadeFrames time).getD beyond = frames := by rw [hframes, Option.getD_some]
  refine ⟨rfl, ?_, hfade, rfl, by simp, Or.inl (Nat.zero_le _)⟩
  change 0 < (fadeFrames time).getD beyond
  rw [hfade]
  exact Int.natCast_pos.mpr hpos

end Steps

/-- For every state of the stream and of the buffer thread, every time of one frame or more and
every order of steps, a fade out ends within the frames of the fade and the size of the ring, and
is silent behind the fade, as long as the stream does not loop once the fade is over and the
volume is a finite number there. The frames of the fade are those that the product of floats has;
where it is not rounded up to a whole number, they are no more than the time has. -/
theorem fade_out_stops (s : Stream α) (time : Float) (beyond : Int) {frames : Nat}
    (hframes : fadeFrames time = some (frames : Int)) (hpos : 0 < frames)
    (later : List (Input α)) (hlater : ∀ i ∈ later, i.Uncalled)
    (hends : Machine.Along step (fun s i => EndsUnlooped s i ∧ MixesFinite s i)
      (Call.run s (.fadeOut time beyond)) later) :
    let taken := mixed (Machine.outputs step (Call.run s (.fadeOut time beyond)) later)
    StopsWithin frames s.sound.ring.bufferSize taken ∧
      ((frames : Int) ≤ ⌊48000 * value time⌋ →
        StopsWithin ⌊48000 * value time⌋.toNat s.sound.ring.bufferSize taken) := by
  intro taken
  have hrun : SinceFadeOut frames s.sound.ring.bufferSize (mixed ([] ++
      Machine.outputs step (Call.run s (.fadeOut time beyond)) later))
      (Machine.final step (Call.run s (.fadeOut time beyond)) later) := by
    refine Machine.outputs_invariant
      (fun s log => SinceFadeOut frames _ (mixed log) s) ?_ _ _ _
      (Or.inl (fadeOut_fadingOut s beyond hframes hpos)) (Machine.along_and_of_mem _ _ hlater hends)
    intro s log i hs hi
    rw [mixed_concat]
    exact hs.step hi.1 hi.2.1 hi.2.2
  refine ⟨hrun.stopsWithin, ?_⟩
  intro hexact
  exact hrun.stopsWithin.mono (by omega)

section Looping

/-- A stream that loops is at its beginning, and nothing is queued. -/
structure Rewound (s : Stream α) : Prop where
  thread : s.thread = .away
  empty : s.sound.ring.used = 0
  room : 2 ≤ s.sound.ring.bufferSize
  referenced : s.sound.referenced = true
  reclaimed : s.sound.reclaimed = false
  playing : s.sound.playing = true
  atEnd : s.sound.atEnd = false
  looping : s.sound.looping = true

/-- The buffer thread reads a file of one frame, and the mixer takes it. -/
def shortRound (frame : Frame α) : List (Input α) :=
  List.replicate 5 (.buffer { frames := [frame], eof := true, position := 1 }) ++
    [.tick 480 (Nat.le_of_ble_eq_true rfl) 1]

theorem shortRound_uncalled (frame : Frame α) : ∀ i ∈ shortRound frame, i.Uncalled := by
  simp [shortRound, Input.Uncalled]

variable {s : Stream α}

/-- The buffer thread's part of the round. -/
theorem Rewound.buffered (h : Rewound s) (frame : Frame α) :
    Machine.final step s
        (List.replicate 5 (.buffer { frames := [frame], eof := true, position := 1 })) =
      { s with
        sound :=
          { s.sound with
            position := 1
            atEnd := true
            ring := ringWrite s.sound.ring (samples [frame]) } } := by
  obtain ⟨⟨sound, thread⟩, volume, fade⟩ := s
  obtain ⟨rfl, hempty, hroom, hreferenced, hreclaimed, hplaying, hend, -⟩ := h
  have hless : sound.ring.used < sound.ring.bufferSize / 2 := by
    change sound.ring.used = 0 at hempty
    change 2 ≤ sound.ring.bufferSize at hroom
    omega
  change sound.referenced = true at hreferenced
  change sound.reclaimed = false at hreclaimed
  change sound.playing = true at hplaying
  change sound.atEnd = false at hend
  simp [Machine.final, step, bufferStep, Audio.bufferStep, ringCount, hreferenced, hreclaimed,
    hplaying, hend, hless]

theorem mixed_buffers (s : Stream α) (decoded : Decoded α) (n : Nat) :
    mixed (Machine.outputs step s (List.replicate n (.buffer decoded))) = [] := by
  induction n generalizing s with
  | zero => rfl
  | succ n ih => exact ih (step s (.buffer decoded)).2

/-- The mixer leaves a flag up that was up. -/
theorem mix_atEnd (volume : Float) (fade : Fade) (frames : List (Frame α)) :
    (mix volume fade true frames).2.2 = true := by
  have hfaded : ∀ fade, (mixFaded volume fade true frames).2.2 = true := by
    induction frames with
    | nil => exact fun _ => rfl
    | cons frame rest ih =>
        intro fade
        have hflag : (fade.next true).2 = true := by
          unfold Fade.next
          split_ifs <;> rfl
        simp only [mixFaded, hflag]
        exact ih _
  unfold mix
  split
  · exact hfaded fade
  · rfl

theorem handleAudioStreamEnd_looping (hlooping : s.sound.looping = true) :
    handleAudioStreamEnd s =
      (false, { s with sound := { s.sound with position := 0, atEnd := false } }) := by
  simp [handleAudioStreamEnd, Audio.handleAudioStreamEnd, hlooping]

/-- A tick that empties the ring of a stream that is at its end and loops. -/
theorem mixerTick_looping (clientVolume : Float) {outputFrames : Nat}
    (hlisted : (s.sound.referenced && !s.sound.reclaimed && s.sound.playing) = true)
    (hend : s.sound.atEnd = true) (hlooping : s.sound.looping = true)
    (hfits : outputFrames ≤ maxPcmFrames)
    (hdrained : s.sound.ring.used / audioPlaybackChannels < outputFrames) :
    ∃ frames ring fade, frames.length = s.sound.ring.used / audioPlaybackChannels ∧
      ring.used + frames.length * audioPlaybackChannels = s.sound.ring.used ∧
      ring.bufferSize = s.sound.ring.bufferSize ∧
      mixerTick clientVolume outputFrames s =
        (.mixed frames false,
          { s with
            sound := { s.sound with position := 0, atEnd := false, ring := ring }
            fade := fade }) := by
  have hreclaimed : s.sound.reclaimed = false := by
    simp only [Bool.and_eq_true, Bool.not_eq_true'] at hlisted
    exact hlisted.1.2
  obtain ⟨ring, queue, hqueue, hrest, hring, hrun⟩ :=
    processAudioFile_eq clientVolume hreclaimed hfits
  rw [Nat.min_eq_left (Nat.le_of_lt hdrained)] at hqueue
  have hlength := mix_length (toDouble s.volume * clientVolume) s.fade s.sound.atEnd queue
  have hcomes : ((mix (toDouble s.volume * clientVolume) s.fade s.sound.atEnd queue).2.2 &&
      decide (queue.length < outputFrames)) = true := by
    rw [hend, mix_atEnd, hqueue]
    exact decide_eq_true hdrained
  refine ⟨(mix (toDouble s.volume * clientVolume) s.fade s.sound.atEnd queue).1, ring,
    (mix (toDouble s.volume * clientVolume) s.fade s.sound.atEnd queue).2.1, hlength.trans hqueue,
    by rw [hlength]; exact hrest, hring, ?_⟩
  rw [mixerTick, if_pos hlisted, hrun]
  dsimp only
  rw [if_pos hcomes, handleAudioStreamEnd_looping]
  exact hlooping

/-- The round takes a frame, and the stream is at its beginning again. -/
theorem Rewound.round (h : Rewound s) (frame : Frame α) :
    (mixed (Machine.outputs step s (shortRound frame))).length = 1 ∧
      Rewound (Machine.final step s (shortRound frame)) := by
  rw [shortRound, Machine.outputs_append, Machine.final_append, h.buffered, mixed,
    List.flatMap_append, ← mixed, mixed_buffers, List.nil_append]
  have hroom : s.sound.ring.used + (samples [frame]).length ≤ s.sound.ring.bufferSize := by
    rw [h.empty, samples_length]
    exact h.room
  have hused : (ringWrite s.sound.ring (samples [frame])).used = 2 := by
    have hcontents := congrArg List.length (ringWrite_contents s.sound.ring hroom)
    rw [List.length_append, Ring.contents_length, Ring.contents_length, h.empty,
      samples_length] at hcontents
    exact hcontents
  obtain ⟨frames, ring, fade, hframes, hrest, hring, hrun⟩ := mixerTick_looping 1
    (s := { s with
      sound :=
        { s.sound with
          position := 1
          atEnd := true
          ring := ringWrite s.sound.ring (samples [frame]) } })
    (by simp [h.referenced, h.reclaimed, h.playing]) rfl h.looping
    (show 480 ≤ maxPcmFrames by decide) (by rw [hused]; decide)
  simp only [hused, audioPlaybackChannels] at hframes hrest
  simp only [Machine.outputs, Machine.final, step, hrun]
  refine ⟨?_, h.thread, ?_, ?_, h.referenced, h.reclaimed, h.playing, rfl, h.looping⟩
  · simpa [Output.frames] using hframes
  · dsimp only
    omega
  · dsimp only
    rw [hring, ringWrite_bufferSize]
    exact h.room

/-- A stream that loops plays on however many frames were taken. -/
theorem Rewound.plays_on (h : Rewound s) (frame : Frame α) (n : Nat) :
    ∃ later : List (Input α), (∀ i ∈ later, i.Uncalled) ∧
      (mixed (Machine.outputs step s later)).length = n := by
  induction n generalizing s with
  | zero => exact ⟨[], by simp, rfl⟩
  | succ n ih =>
      obtain ⟨hone, hagain⟩ := h.round frame
      obtain ⟨later, hlater, hlength⟩ := ih hagain
      refine ⟨shortRound frame ++ later, ?_, ?_⟩
      · intro i hi
        rcases List.mem_append.mp hi with hi | hi
        · exact shortRound_uncalled frame i hi
        · exact hlater i hi
      · rw [Machine.outputs_append, mixed, List.flatMap_append, ← mixed, ← mixed,
          List.length_append, hone, hlength, Nat.add_comm]

end Looping

section ShortFiles

/-- A file that is played. -/
def played (file : List (Frame Nat)) (looping : Bool) : Stream Nat :=
  Call.run (Call.run (opened file fun _ => 0) (.setLooping (.boolean looping))) .play

theorem value_one : value 1 = 1 := by
  have hunpack : (1 : Float).toModel.unpack =
      .finite .positive (2 ^ 52) (-52) (Nat.two_pow_pos 52) := rfl
  rw [value, hunpack]
  norm_num [Float.Model.UnpackedFloat.Sign.apply]

theorem floor_second : ⌊48000 * value 1⌋.toNat = 48000 := by
  rw [value_one]
  norm_num
  rfl

/-- The buffer thread reads a file of two frames, and the mixer takes both. -/
def twoFrames : List (Input Nat) :=
  List.replicate 5 (.buffer { frames := [(1, 2), (3, 4)], eof := true, position := 2 }) ++
    [.tick 480 (Nat.le_of_ble_eq_true rfl) 1]

/-- A fade of one frame: the second frame is behind it. -/
theorem fade_out_stops_short :
    let taken := mixed (Machine.outputs step
      (Call.run (played [(1, 2), (3, 4)] false) (.fadeOut 0.0000209 0)) twoFrames)
    StopsWithin 1 48000 taken ∧
      ((1 : Int) ≤ ⌊48000 * value 0.0000209⌋ →
        StopsWithin ⌊48000 * value 0.0000209⌋.toNat 48000 taken) :=
  fade_out_stops (played [(1, 2), (3, 4)] false) 0.0000209 0
    (show fadeFrames 0.0000209 = some 1 by decide) (by decide) twoFrames
    (by simp [twoFrames, Input.Uncalled])
    ⟨⟨trivial, trivial⟩, ⟨trivial, trivial⟩, ⟨trivial, trivial⟩, ⟨trivial, trivial⟩,
      ⟨trivial, trivial⟩, ⟨fun _ => rfl, fun _ => rfl⟩, trivial⟩

/-- A stream that loops goes on behind its fade. -/
theorem looped_fade_plays_on :
    ¬ ∀ (s : Stream Nat) (time : Float) (beyond : Int), s.sound.playing = true →
      time.isFinite = true → 0 ≤ value time →
      ∀ later : List (Input Nat), (∀ i ∈ later, i.Uncalled) →
        StopsWithin ⌊48000 * value time⌋.toNat s.sound.ring.bufferSize
          (mixed (Machine.outputs step (Call.run s (.fadeOut time beyond)) later)) := by
  intro h
  have hrewound : Rewound (Call.run (played [(1, 2)] true) (.fadeOut 1 0)) :=
    ⟨rfl, rfl, by decide, rfl, rfl, rfl, rfl, rfl⟩
  obtain ⟨later, hlater, hlength⟩ := hrewound.plays_on (1, 2) 96001
  have hbounded :=
    (h (played [(1, 2)] true) 1 0 rfl rfl (by norm_num [value_one]) later hlater).bounded
  rw [hlength, floor_second] at hbounded
  exact absurd hbounded (by decide)

end ShortFiles

end LuaMumble.Audio.Fading
