import LuaMumble.Audio.Progress

/-!
Calls of `play` on a stream that plays already. They reset the ring, the end flag and
the position of the file, but not what the buffer thread has in its hands: the result
of a `process_audio` from before the call is still written to the ring, and the end it
found still raises the flag. A call that comes while the buffer thread has nothing in
its hands begins anew.
-/

namespace LuaMumble.Audio

open Lib

variable {α : Type}

/-- What came after the last call of `play`, and the loop setting at that call. -/
def sincePlay (log : List (Output α)) : Option (Bool × Int × List (Output α)) :=
  log.foldl
    (fun since o =>
      match o with
      | .played looping loopCount => some (looping, loopCount, [])
      | o => since.map fun (looping, loopCount, past) => (looping, loopCount, past ++ [o]))
    none

/-- Whether the last `process_audio` found the end of the file. -/
def lastDecoded (log : List (Output α)) : Option Bool :=
  log.foldl
    (fun last o =>
      match o with
      | .decoded eof => some eof
      | _ => last)
    none

/-- Since the last call of `play` the mixer took a part of the rounds of the file that
the loop setting asks for; and when the end flag is up, the last `process_audio` came
after that call and found the end. -/
def Fresh (file : List (Frame α)) (log : List (Output α)) (s : System α) : Prop :=
  ∀ looping loopCount past, sincePlay log = some (looping, loopCount, past) →
    (∃ rounds, (looping = false → rounds = loopCount.toNat + 1) ∧
      taken past <+: repeated file rounds) ∧
    (s.sound.atEnd = true → lastDecoded past = some true)

/-- A stream that was opened and given a loop setting. -/
def openedStream (file : List (Frame α)) (buffer : Nat → α) (loops : LoopArgument) : System α :=
  { sound := setLooping (openAudio file buffer) loops
    thread := .away }

/-- The end of the file that the buffer thread or the flag knows of was found since the
call of `play`. -/
structure EndFound (past : List (Output α)) (s : System α) : Prop where
  carried : s.thread.eof = true → lastDecoded past = some true
  flag : s.sound.atEnd = true → lastDecoded past = some true

section Steps

variable {file : List (Frame α)} {looping : Bool} {loopCount : Int} {past log : List (Output α)}
  {s : System α}

theorem lastDecoded_concat (log : List (Output α)) (o : Output α) :
    lastDecoded (log ++ [o]) =
      match o with
      | .decoded eof => some eof
      | _ => lastDecoded log := by
  rw [lastDecoded, List.foldl_append]
  rfl

theorem sincePlay_concat (log : List (Output α)) (o : Output α) :
    sincePlay (log ++ [o]) =
      match o with
      | .played looping loopCount => some (looping, loopCount, [])
      | o => (sincePlay log).map fun (looping, loopCount, past) =>
          (looping, loopCount, past ++ [o]) := by
  rw [sincePlay, List.foldl_append]
  rfl

theorem SincePlay.atEnd_of_busy (h : SincePlay file looping loopCount past s)
    (hbusy : s.thread.busy = true) : s.sound.atEnd = false := by
  rcases h with ⟨k, queue, pending, h⟩ | h
  · cases hend : s.sound.atEnd with
    | false => rfl
    | true => simpa [hbusy] using (h.at_end hend).2
  · exact h.atEnd

theorem processAudio_atEnd (sound : AudioStream α) (space : Nat) :
    (processAudio sound space).2.2.atEnd = sound.atEnd := by
  unfold processAudio sfReadfFloat
  dsimp only
  split
  · rfl
  · rfl

theorem handleAudioStreamEnd_atEnd (sound : AudioStream α) :
    (handleAudioStreamEnd sound).2.atEnd = false := by
  simp only [handleAudioStreamEnd]
  split_ifs <;> rfl

/-- A tick reads nothing from the file, leaves the buffer thread where it is, and never
raises the flag. -/
theorem mixerTick_quiet (s : System α) (outputFrames : Nat) :
    (∀ past, lastDecoded (past ++ [(mixerTick s outputFrames).1]) = lastDecoded past) ∧
      (mixerTick s outputFrames).2.thread = s.thread ∧
      ((mixerTick s outputFrames).2.sound.atEnd = true → s.sound.atEnd = true) := by
  simp only [mixerTick, processAudioFile, lastDecoded_concat]
  split_ifs <;> simp [handleAudioStreamEnd_atEnd]

theorem EndFound.step (h : EndFound past s) (hs : SincePlay file looping loopCount past s)
    {i : Input} (hi : i ≠ .play) : EndFound (past ++ [(step s i).1]) (step s i).2 := by
  cases i with
  | tick outputFrames fits =>
      obtain ⟨hlast, hthread, hend⟩ := mixerTick_quiet s outputFrames
      refine ⟨?_, ?_⟩
      · intro heof
        rw [Audio.step, hthread] at heof
        rw [Audio.step, hlast]
        exact h.carried heof
      · intro hflag
        rw [Audio.step, hlast]
        exact h.flag (hend hflag)
  | play => exact absurd rfl hi
  | buffer =>
      obtain ⟨sound, thread⟩ := s
      have hquiet {thread' : BufferThread α} (heof : thread'.eof = true → thread.eof = true) :
          EndFound (past ++ [.silent]) ⟨sound, thread'⟩ := by
        refine ⟨fun h' => ?_, fun h' => ?_⟩
        · rw [lastDecoded_concat]
          exact h.carried (heof h')
        · rw [lastDecoded_concat]
          exact h.flag h'
      cases thread with
      | away =>
          simp only [Audio.step, Audio.bufferStep]
          split
          · exact hquiet (by simp [BufferThread.eof])
          · exact hquiet id
      | pinned =>
          simp only [Audio.step, Audio.bufferStep]
          split
          · exact hquiet (by simp [BufferThread.eof])
          · exact hquiet (by simp [BufferThread.eof])
      | checked =>
          have hend : sound.atEnd = false := hs.atEnd_of_busy rfl
          simp only [Audio.step, Audio.bufferStep]
          split
          · refine ⟨fun heof => ?_, fun hflag => ?_⟩
            · rw [lastDecoded_concat]
              exact congrArg some heof
            · simp [processAudio_atEnd, hend] at hflag
          · exact hquiet (by simp [BufferThread.eof])
      | processed outputAudio eof =>
          refine ⟨fun heof => ?_, fun hflag => ?_⟩
          · simp only [Audio.step, Audio.bufferStep, lastDecoded_concat]
            exact h.carried heof
          · simp only [Audio.step, Audio.bufferStep, lastDecoded_concat]
            exact h.flag hflag
      | written eof =>
          cases eof with
          | true =>
              refine ⟨by simp [Audio.step, Audio.bufferStep, BufferThread.eof], fun _ => ?_⟩
              simp only [Audio.step, Audio.bufferStep, if_true, lastDecoded_concat]
              exact h.carried rfl
          | false => exact hquiet (by simp [BufferThread.eof])

/-- Before the first call of `play` nothing happens. -/
theorem step_before {sound : AudioStream α} (hreferenced : sound.referenced = false) {i : Input}
    (hi : i ≠ .play) : step ⟨sound, .away⟩ i = (.silent, ⟨sound, .away⟩) := by
  cases i with
  | buffer => simp [step, Audio.bufferStep, hreferenced]
  | tick outputFrames fits => simp [step, mixerTick, hreferenced]
  | play => exact absurd rfl hi

end Steps

/-- The state against what happened since the last call of `play`, if there was one. -/
def RunState (file : List (Frame α)) (s : System α) (log : List (Output α)) : Prop :=
  match sincePlay log with
  | none => s.sound.referenced = false ∧ s.sound.file = file ∧ s.thread = .away
  | some (looping, loopCount, past) =>
      SincePlay file looping loopCount past s ∧ EndFound past s

section Runs

variable {file : List (Frame α)} {log : List (Output α)} {s : System α}

theorem RunState.playable (h : RunState file s log) : Playable file s.sound := by
  unfold RunState at h
  split at h
  · exact ⟨h.2.1, by simp [h.1]⟩
  · exact h.1.playable

theorem sincePlay_step (log : List (Output α)) (s : System α) {i : Input} (hi : i ≠ .play) :
    sincePlay (log ++ [(step s i).1]) =
      (sincePlay log).map fun (looping, loopCount, past) =>
        (looping, loopCount, past ++ [(step s i).1]) := by
  rw [sincePlay_concat]
  split
  · rename_i looping loopCount hplayed
    cases i with
    | play => exact absurd rfl hi
    | tick outputFrames fits =>
        simp only [Audio.step, mixerTick, processAudioFile] at hplayed
        split_ifs at hplayed
    | buffer =>
        obtain ⟨sound, thread⟩ := s
        cases thread with
        | processed _ _ => cases hplayed
        | _ =>
            simp only [Audio.step, bufferStep] at hplayed
            split_ifs at hplayed
  · rfl

theorem RunState.step (h : RunState file s log) {i : Input}
    (hi : i = .play → s.thread.Unburdened) :
    RunState file (step s i).2 (log ++ [(step s i).1]) := by
  by_cases hplay : i = .play
  · subst hplay
    have hthread := hi rfl
    have hend : EndFound [] (Audio.step s .play).2 := by
      refine ⟨fun heof => ?_, fun hflag => ?_⟩
      · simp [Audio.step, hthread.spec.2.1] at heof
      · simp [Audio.step, play_eq s.sound h.playable] at hflag
    rw [RunState, Audio.step, sincePlay_concat]
    exact ⟨sincePlay_play h.playable hthread, hend⟩
  · unfold RunState at h ⊢
    rw [sincePlay_step log s hplay]
    split at h
    · rename_i hnone
      obtain ⟨hreferenced, hfile, haway⟩ := h
      obtain ⟨sound, thread⟩ := s
      change sound.referenced = false at hreferenced
      change thread = .away at haway
      subst haway
      rw [hnone, step_before hreferenced hplay]
      exact ⟨hreferenced, hfile, rfl⟩
    · rename_i looping loopCount past hsome
      rw [hsome]
      exact ⟨h.1.step hplay, h.2.step h.1 hplay⟩

theorem RunState.fresh (h : RunState file s log) : Fresh file log s := by
  intro looping loopCount past hpast
  rw [RunState, hpast] at h
  obtain ⟨hsince, hend⟩ := h
  refine ⟨?_, hend.flag⟩
  rcases hsince with ⟨k, queue, pending, hplaying⟩ | hfinished
  · exact hplaying.partOfRounds
  · exact hfinished.partOfRounds

end Runs

/-- `play` is only called when the buffer thread is unburdened. -/
def PlaysUnburdened (s : System α) (inputs : List Input) : Prop :=
  Machine.Along step (fun s i => i = .play → s.thread.Unburdened) s inputs

/-- For every file, loop setting and order of steps in which `play` is only called when
the buffer thread is unburdened: what is taken after a call of `play` is fresh. -/
theorem fresh_of_unburdened (file : List (Frame α)) (buffer : Nat → α) (loops : LoopArgument)
    (inputs : List Input) (hinputs : PlaysUnburdened (openedStream file buffer loops) inputs) :
    Fresh file (Machine.outputs step (openedStream file buffer loops) inputs)
      (Machine.final step (openedStream file buffer loops) inputs) := by
  have hinit : RunState file (openedStream file buffer loops) [] := by
    cases loops <;> exact ⟨rfl, rfl, rfl⟩
  suffices hrun : RunState file (Machine.final step (openedStream file buffer loops) inputs)
      ([] ++ Machine.outputs step (openedStream file buffer loops) inputs) from hrun.fresh
  refine Machine.outputs_invariant (RunState file) ?_ _ _ _ hinit hinputs
  intro s log i hs hi
  exact hs.step hi

/-- A second call of `play` between the test of the flags and `process_audio`. -/
theorem fresh_of_unburdened_twice :
    Fresh [(1, 2), (3, 4)]
      (Machine.outputs step (openedStream [(1, 2), (3, 4)] (fun _ => 0) (.boolean true))
        [.play, .buffer, .buffer, .play, .buffer, .buffer, .buffer, .tick 480 (by decide)])
      (Machine.final step (openedStream [(1, 2), (3, 4)] (fun _ => 0) (.boolean true))
        [.play, .buffer, .buffer, .play, .buffer, .buffer, .buffer, .tick 480 (by decide)]) :=
  fresh_of_unburdened [(1, 2), (3, 4)] (fun _ => 0) (.boolean true) _
    ⟨fun _ => trivial, nofun, nofun, fun _ => trivial, nofun, nofun, nofun, nofun, trivial⟩

/-- A second call of `play` behind `process_audio`: the end found before it raises the
flag after it. -/
theorem stale_end_raised :
    ¬ ∀ (file : List (Frame Nat)) (buffer : Nat → Nat) (loops : LoopArgument)
      (inputs : List Input),
      Fresh file (Machine.outputs step (openedStream file buffer loops) inputs)
        (Machine.final step (openedStream file buffer loops) inputs) := by
  intro h
  have hfresh := h [(1, 2), (3, 4)] (fun _ => 0) (.boolean true)
    [.play, .buffer, .buffer, .buffer, .play, .buffer, .buffer]
  have hlast := (hfresh true 0 [.silent, .silent] rfl).2 rfl
  simp [lastDecoded] at hlast

end LuaMumble.Audio
