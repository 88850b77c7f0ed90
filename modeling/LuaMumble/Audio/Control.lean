import LuaMumble.Audio.Restart

/-!
Calls of `pause` and `stop` beside those of `play`, at any point of the playback. By the manual
`play` resumes what was paused, and `stop` takes the stream out of the list and back to its
beginning. The code of `play` always goes back to the beginning, and that of `stop` does nothing
unless the stream plays.
-/

namespace LuaMumble.Audio

open Lib

variable {α : Type}

inductive Control where
  | input (i : Input)
  | pause
  | stop

/-- `audiostream_pause` -/
def pause (sound : AudioStream α) : AudioStream α :=
  { sound with playing := false }

/-- `audiostream_stop` -/
def stop (sound : AudioStream α) : AudioStream α :=
  if sound.playing then unreferenceLocked sound else sound

/-- In the `stream_list`, but not playing. -/
def AudioStream.paused (sound : AudioStream α) : Bool :=
  sound.referenced && !sound.playing

/-- The buffer thread is not filling the ring. -/
def BufferThread.quiet : BufferThread α → Bool
  | .checked | .processed _ _ => false
  | _ => true

/-- What a step shows. A call of `play` starts the stream or, if it is paused, resumes it; a call
of `stop` tells if the stream was in the list, and if the buffer thread was quiet. -/
inductive Event (α : Type) where
  | stepped (output : Output α)
  | started (looping : Bool) (loopCount : Int)
  | resumed
  | paused
  | stopped (listed quiet : Bool)

def controlStep (s : System α) : Control → Event α × System α
  | .input .play =>
      (if s.sound.paused then .resumed else .started s.sound.looping s.sound.loopCount,
        (step s .play).2)
  | .input i => (.stepped (step s i).1, (step s i).2)
  | .pause => (.paused, { s with sound := pause s.sound })
  | .stop => (.stopped s.sound.referenced s.thread.quiet, { s with sound := stop s.sound })

def Event.output : Event α → Output α
  | .stepped output => output
  | _ => .silent

/-- What came after the last start, pauses included, and the loop setting at that start. -/
def sinceStart (log : List (Event α)) : Option (Bool × Int × List (Output α)) :=
  log.foldl
    (fun since e =>
      match e with
      | .started looping loopCount => some (looping, loopCount, [])
      | e => since.map fun (looping, loopCount, past) => (looping, loopCount, past ++ [e.output]))
    none

/-- The last stop of a listed stream found the buffer thread quiet, and nobody has called `play`
since. -/
def atRest (log : List (Event α)) : Bool :=
  log.foldl
    (fun rest e =>
      match e with
      | .stopped true quiet => quiet
      | .started _ _ | .resumed => false
      | _ => rest)
    false

structure Stopped (sound : AudioStream α) : Prop where
  referenced : sound.referenced = false
  playing : sound.playing = false
  empty : sound.ring.used = 0
  first : sound.position = 0

/-- What the manual says of the controls: across pauses the mixer goes on where it was, and a
stream of the list that was just stopped is out of it, and at its beginning. There it remains, if
the buffer thread was not about to write to its ring. -/
structure AsDocumented (file : List (Frame α)) (s : System α) (log : List (Event α)) : Prop where
  continues : ∀ looping loopCount past, sinceStart log = some (looping, loopCount, past) →
    PartOfRounds file looping loopCount past
  stops : ∀ quiet, log.getLast? = some (.stopped true quiet) → Stopped s.sound
  remains : atRest log = true → Stopped s.sound

/-- The next frame to mix is the first of the file: all that was read of this round is still
queued, or the stream loops and the round is over. -/
def NextIsFirst (sound : AudioStream α) : Prop :=
  sound.position * audioPlaybackChannels = sound.ring.used ∨
    (sound.looping = true ∧ sound.position = sound.file.length ∧ sound.ring.used = 0)

/-- The steps on which the code does what the manual says. -/
def MeetsManual (s : System α) : Control → Prop
  | .input .play => s.thread.Unburdened ∧ (s.sound.paused = true → NextIsFirst s.sound)
  | .stop => s.sound.referenced = true → s.sound.playing = true
  | _ => True

section Stream

theorem stopped_stop_iff {sound : AudioStream α} (hlisted : sound.referenced = true) :
    Stopped (stop sound) ↔ sound.playing = true := by
  constructor
  · intro hstopped
    by_contra hplaying
    have hreferenced := hstopped.referenced
    rw [stop, if_neg hplaying, hlisted] at hreferenced
    cases hreferenced
  · intro hplaying
    rw [stop, if_pos hplaying]
    exact ⟨rfl, rfl, rfl, rfl⟩

/-- The stream as it would be if it played. -/
def unpause (s : System α) : System α :=
  { s with sound := { s.sound with playing := true } }

/-- `process_audio` moves the position of the file, and does not look at `playing`. -/
theorem processAudio_playing (sound : AudioStream α) (space : Nat) :
    ∃ output eof position, ∀ playing,
      processAudio { sound with playing := playing } space =
        (output, eof, { sound with playing := playing, position := position }) := by
  obtain ⟨input, hinput⟩ : ∃ input, input = (sound.file.drop sound.position).take
      (space / (audioPlaybackChannels * sizeofFloat)) := ⟨_, rfl⟩
  by_cases hempty : input.length = 0
  · refine ⟨[], true, sound.position + input.length, fun playing => ?_⟩
    simp only [processAudio, sfReadfFloat, ← hinput, if_pos hempty]
  · refine ⟨samples input,
      decide (input.length < space / (audioPlaybackChannels * sizeofFloat)),
      sound.position + input.length, fun playing => ?_⟩
    simp only [processAudio, sfReadfFloat, ← hinput, if_neg hempty]

/-- The steps of the buffer thread leave the list and the flag alone. -/
theorem bufferStep_keeps (s : System α) :
    (bufferStep s).1.frames = [] ∧ (bufferStep s).2.sound.file = s.sound.file ∧
      (bufferStep s).2.sound.referenced = s.sound.referenced ∧
      (bufferStep s).2.sound.playing = s.sound.playing := by
  obtain ⟨sound, thread⟩ := s
  cases thread with
  | processed outputAudio eof => exact ⟨rfl, rfl, rfl, rfl⟩
  | checked =>
      obtain ⟨output, eof, position, hrun⟩ :=
        processAudio_playing sound (ringSpace sound.ring * sizeofFloat)
      have hsame : processAudio sound (ringSpace sound.ring * sizeofFloat) = _ :=
        hrun sound.playing
      simp only [bufferStep, hsame]
      split <;> exact ⟨rfl, rfl, rfl, rfl⟩
  | _ =>
      simp only [bufferStep]
      split_ifs <;> exact ⟨rfl, rfl, rfl, rfl⟩

/-- Only behind `sound_try_pin` does the buffer thread look at `playing`. -/
theorem bufferStep_unpause {s : System α} (hthread : s.thread ≠ .pinned) :
    bufferStep (unpause s) = ((bufferStep s).1, unpause (bufferStep s).2) := by
  obtain ⟨sound, thread⟩ := s
  cases thread with
  | pinned => exact absurd rfl hthread
  | processed outputAudio eof => rfl
  | checked =>
      obtain ⟨output, eof, position, hrun⟩ :=
        processAudio_playing sound (ringSpace sound.ring * sizeofFloat)
      have hsame : processAudio sound (ringSpace sound.ring * sizeofFloat) = _ :=
        hrun sound.playing
      simp only [bufferStep, unpause, hrun true, hsame]
      split <;> rfl
  | away =>
      cases hlisted : sound.referenced && !sound.reclaimed with
      | true => simp only [bufferStep, unpause, hlisted, if_true]
      | false => simp only [bufferStep, unpause, hlisted, Bool.false_eq_true, if_false]
  | written eof => cases eof <;> rfl

end Stream

/-- Out of the list. -/
structure Unlisted (file : List (Frame α)) (s : System α) : Prop where
  file_eq : s.sound.file = file
  referenced : s.sound.referenced = false
  playing : s.sound.playing = false

/-- The stream would play on if it were not paused. -/
structure Paused (file : List (Frame α)) (looping : Bool) (loopCount : Int)
    (past : List (Output α)) (s : System α) : Prop where
  resumable : ∃ k queue pending, Playing file looping loopCount past k queue pending (unpause s)
  playing : s.sound.playing = false

/-- What is true after a start, `past` being what has happened since. -/
def SinceStart (file : List (Frame α)) (looping : Bool) (loopCount : Int)
    (past : List (Output α)) (s : System α) : Prop :=
  (∃ k queue pending, Playing file looping loopCount past k queue pending s) ∨
    Paused file looping loopCount past s ∨
    (Unlisted file s ∧ PartOfRounds file looping loopCount past)

section Steps

variable {file : List (Frame α)} {looping : Bool} {loopCount : Int} {past : List (Output α)}
  {s : System α}

theorem PartOfRounds.concat (h : PartOfRounds file looping loopCount past) {o : Output α}
    (ho : o.frames = []) : PartOfRounds file looping loopCount (past ++ [o]) := by
  obtain ⟨rounds, hrounds, htaken⟩ := h
  refine ⟨rounds, hrounds, ?_⟩
  rw [taken_concat, ho, List.append_nil]
  exact htaken

theorem SinceStart.partOfRounds (h : SinceStart file looping loopCount past s) :
    PartOfRounds file looping loopCount past := by
  rcases h with ⟨k, queue, pending, h⟩ | ⟨⟨k, queue, pending, h⟩, -⟩ | ⟨-, h⟩
  · exact h.partOfRounds
  · exact h.partOfRounds
  · exact h

/-- At the end of its rounds the stream leaves the list. -/
theorem SincePlay.sinceStart (h : SincePlay file looping loopCount past s) :
    SinceStart file looping loopCount past s := by
  rcases h with h | h
  · exact Or.inl h
  · exact Or.inr (Or.inr ⟨⟨h.file_eq, h.referenced, h.playing⟩, h.partOfRounds⟩)

theorem SinceStart.playable (h : SinceStart file looping loopCount past s) :
    Playable file s.sound := by
  rcases h with ⟨k, queue, pending, h⟩ | ⟨⟨k, queue, pending, h⟩, -⟩ | ⟨h, -⟩
  · exact ⟨h.file_eq, fun _ => h.reclaimed⟩
  · exact ⟨h.file_eq, fun _ => h.reclaimed⟩
  · refine ⟨h.file_eq, fun hreferenced => ?_⟩
    rw [h.referenced] at hreferenced
    cases hreferenced

/-- A step that shows nothing and does nothing. -/
theorem Playing.wait {k : Nat} {queue pending : List (Frame α)}
    (h : Playing file looping loopCount past k queue pending s) :
    Playing file looping loopCount (past ++ [.silent]) k queue pending s := by
  have hbusy : s.thread.busy = true → s.sound.atEnd = false :=
    SincePlay.atEnd_of_busy (Or.inl ⟨k, queue, pending, h⟩)
  exact h.idle rfl id hbusy h.filled

theorem Unlisted.step (h : Unlisted file s) {i : Input} (hi : i ≠ .play) :
    (step s i).1.frames = [] ∧ Unlisted file (step s i).2 := by
  cases i with
  | buffer =>
      obtain ⟨hframes, hfile, hreferenced, hplaying⟩ := bufferStep_keeps s
      exact ⟨hframes, hfile.trans h.file_eq, hreferenced.trans h.referenced,
        hplaying.trans h.playing⟩
  | tick outputFrames fits =>
      have htick : mixerTick s outputFrames = (.silent, s) := by
        simp [mixerTick, h.referenced]
      rw [Audio.step, htick]
      exact ⟨rfl, h⟩
  | play => exact absurd rfl hi

/-- While the stream is paused the mixer takes nothing, and the buffer thread ends its turn. -/
theorem Paused.step (h : Paused file looping loopCount past s) {i : Input} (hi : i ≠ .play) :
    Paused file looping loopCount (past ++ [(step s i).1]) (step s i).2 := by
  obtain ⟨⟨k, queue, pending, hplaying⟩, hpaused⟩ := h
  cases i with
  | buffer =>
      refine ⟨?_, (bufferStep_keeps s).2.2.2.trans hpaused⟩
      by_cases hthread : s.thread = .pinned
      · have hrun : bufferStep s = (.silent, { s with thread := .away }) := by
          simp only [bufferStep, hthread, hpaused, Bool.false_and, Bool.false_eq_true, if_false]
        have hchunk : BufferThread.chunk .away = (unpause s).thread.chunk := by
          rw [show (unpause s).thread = .pinned from hthread]
          rfl
        rw [Audio.step, hrun]
        refine ⟨k, queue, pending, hplaying.idle hchunk ?_ ?_ trivial⟩
        · intro heof
          cases heof
        · intro hbusy
          cases hbusy
      · obtain ⟨queue', pending', hnext⟩ := hplaying.bufferStep
        rw [bufferStep_unpause hthread] at hnext
        exact ⟨k, queue', pending', hnext⟩
  | tick outputFrames fits =>
      have htick : mixerTick s outputFrames = (.silent, s) := by
        simp [mixerTick, hpaused]
      rw [Audio.step, htick]
      exact ⟨⟨k, queue, pending, hplaying.wait⟩, hpaused⟩
  | play => exact absurd rfl hi

theorem SinceStart.step (h : SinceStart file looping loopCount past s) {i : Input}
    (hi : i ≠ .play) : SinceStart file looping loopCount (past ++ [(step s i).1]) (step s i).2 := by
  rcases h with h | h | ⟨h, hpart⟩
  · exact (SincePlay.step (Or.inl h) hi).sinceStart
  · exact Or.inr (Or.inl (h.step hi))
  · obtain ⟨hframes, hnext⟩ := h.step hi
    exact Or.inr (Or.inr ⟨hnext, hpart.concat hframes⟩)

theorem SinceStart.pause (h : SinceStart file looping loopCount past s) :
    SinceStart file looping loopCount (past ++ [.silent])
      { s with sound := pause s.sound } := by
  rcases h with ⟨k, queue, pending, h⟩ | ⟨⟨k, queue, pending, h⟩, hpaused⟩ | ⟨h, hpart⟩
  · have hsame : unpause { s with sound := Audio.pause s.sound } = s := by
      have hplaying := h.playing
      obtain ⟨sound, thread⟩ := s
      simp only [unpause, Audio.pause, ← hplaying]
    refine Or.inr (Or.inl ⟨⟨k, queue, pending, ?_⟩, rfl⟩)
    rw [hsame]
    exact h.wait
  · exact Or.inr (Or.inl ⟨⟨k, queue, pending, h.wait⟩, rfl⟩)
  · exact Or.inr (Or.inr ⟨⟨h.file_eq, h.referenced, rfl⟩, hpart.concat rfl⟩)

/-- A call of `stop` that does not find the stream paused. -/
theorem SinceStart.stop (h : SinceStart file looping loopCount past s)
    (hstop : s.sound.referenced = true → s.sound.playing = true) :
    SinceStart file looping loopCount (past ++ [.silent]) { s with sound := stop s.sound } := by
  rcases h with ⟨k, queue, pending, h⟩ | ⟨⟨k, queue, pending, h⟩, hpaused⟩ | ⟨h, hpart⟩
  · have hpart := h.partOfRounds.concat (o := .silent) rfl
    rw [Audio.stop, if_pos h.playing]
    exact Or.inr (Or.inr ⟨⟨h.file_eq, rfl, rfl⟩, hpart⟩)
  · rw [hstop h.referenced] at hpaused
    cases hpaused
  · rw [Audio.stop, if_neg (ne_true_of_eq_false h.playing)]
    exact Or.inr (Or.inr ⟨h, hpart.concat rfl⟩)

/-- A paused stream is resumed where the next frame is the first of the file. -/
theorem Paused.resume (h : Paused file looping loopCount past s) (hthread : s.thread.Unburdened)
    (hnext : NextIsFirst s.sound) :
    SinceStart file looping loopCount (past ++ [.silent]) { s with sound := play s.sound } := by
  obtain ⟨⟨k, queue, pending, hplaying⟩, -⟩ := h
  have hplayable : Playable file s.sound := ⟨hplaying.file_eq, fun _ => hplaying.reclaimed⟩
  have hpending : pending = [] := by
    apply samples_eq_nil
    rw [← hplaying.carried]
    exact hthread.spec.1.symm
  have hused : s.sound.ring.used = queue.length * audioPlaybackChannels := by
    rw [← s.sound.ring.contents_length, ← samples_length]
    exact congrArg List.length hplaying.queued
  have hprogress : taken past ++ queue = repeated file k ++ file.take s.sound.position := by
    have hall := hplaying.progress
    rwa [hpending, List.append_nil] at hall
  have hposition : s.sound.position ≤ file.length := hplaying.position_le
  rcases hnext with hqueued | ⟨hloops, hround, hempty⟩
  · -- what was read of the round is queued, so what was taken are the rounds before
    have hlength : queue.length = (file.take s.sound.position).length := by
      rw [List.length_take, Nat.min_eq_left hposition]
      rw [hused] at hqueued
      exact (Nat.mul_right_cancel (by decide) hqueued).symm
    have htaken := (List.append_inj_left' hprogress hlength)
    exact Or.inl ⟨k, [], [], (playing_play hplayable hthread htaken hplaying.looping_eq
      hplaying.loops hplaying.ends).wait⟩
  · have hqueue : queue = [] := by
      rw [hempty] at hused
      apply List.length_eq_zero_iff.mp
      simp only [audioPlaybackChannels] at hused
      omega
    have hfile : s.sound.file = file := hplaying.file_eq
    have htaken : taken past = repeated file (k + 1) := by
      rw [hqueue, List.append_nil, hround, hfile, List.take_length] at hprogress
      rw [hprogress, repeated_succ]
    have hlooping : s.sound.looping = looping := hplaying.looping_eq
    refine Or.inl ⟨k + 1, [], [], (playing_play hplayable hthread htaken hlooping ?_
      hplaying.ends).wait⟩
    intro hfalse
    rw [← hlooping, hloops] at hfalse
    cases hfalse

end Steps

/-- The state against what happened since the last start, if there was one. -/
def ControlState (file : List (Frame α)) (s : System α) (log : List (Event α)) : Prop :=
  match sinceStart log with
  | none => Unlisted file s
  | some (looping, loopCount, past) => SinceStart file looping loopCount past s

section Runs

variable {file : List (Frame α)} {log : List (Event α)} {s : System α}

theorem sinceStart_concat (log : List (Event α)) (e : Event α) :
    sinceStart (log ++ [e]) =
      match e with
      | .started looping loopCount => some (looping, loopCount, [])
      | e => (sinceStart log).map fun (looping, loopCount, past) =>
          (looping, loopCount, past ++ [e.output]) := by
  rw [sinceStart, List.foldl_append]
  rfl

theorem ControlState.playable (h : ControlState file s log) : Playable file s.sound := by
  unfold ControlState at h
  split at h
  · refine ⟨h.file_eq, fun hreferenced => ?_⟩
    rw [h.referenced] at hreferenced
    cases hreferenced
  · exact h.playable

/-- A paused stream was started. -/
theorem ControlState.paused (h : ControlState file s log) (hpaused : s.sound.paused = true) :
    ∃ looping loopCount past, sinceStart log = some (looping, loopCount, past) ∧
      Paused file looping loopCount past s := by
  obtain ⟨hreferenced, hplaying⟩ := Bool.and_eq_true_iff.mp hpaused
  rw [Bool.not_eq_true'] at hplaying
  have hlisted (hunlisted : Unlisted file s) : False := by
    rw [hunlisted.referenced] at hreferenced
    cases hreferenced
  unfold ControlState at h
  split at h
  · exact (hlisted h).elim
  · rename_i looping loopCount past hsome
    rcases h with ⟨k, queue, pending, h⟩ | h | ⟨h, -⟩
    · rw [h.playing] at hplaying
      cases hplaying
    · exact ⟨looping, loopCount, past, hsome, h⟩
    · exact (hlisted h).elim

theorem ControlState.play (h : ControlState file s log) (hthread : s.thread.Unburdened)
    (hnext : s.sound.paused = true → NextIsFirst s.sound) :
    ControlState file (controlStep s (.input .play)).2
      (log ++ [(controlStep s (.input .play)).1]) := by
  cases hpaused : s.sound.paused with
  | true =>
      obtain ⟨looping, loopCount, past, hsome, hstate⟩ := h.paused hpaused
      have hrun : controlStep s (.input .play) =
          (.resumed, { s with sound := Audio.play s.sound }) := by
        rw [controlStep, hpaused]
        rfl
      rw [hrun, ControlState, sinceStart_concat, hsome]
      exact hstate.resume hthread (hnext hpaused)
  | false =>
      have hrun : controlStep s (.input .play) =
          (.started s.sound.looping s.sound.loopCount,
            { s with sound := Audio.play s.sound }) := by
        rw [controlStep, hpaused]
        rfl
      rw [hrun, ControlState, sinceStart_concat]
      exact (sincePlay_play h.playable hthread).sinceStart

/-- A step that is no start goes on with what there was. -/
theorem ControlState.goOn (h : ControlState file s log) {e : Event α} {s' : System α}
    (he : ∀ looping loopCount, e ≠ .started looping loopCount)
    (hunlisted : Unlisted file s → Unlisted file s')
    (hstarted : ∀ {looping loopCount past}, SinceStart file looping loopCount past s →
      SinceStart file looping loopCount (past ++ [e.output]) s') :
    ControlState file s' (log ++ [e]) := by
  have hconcat : sinceStart (log ++ [e]) =
      (sinceStart log).map fun (looping, loopCount, past) =>
        (looping, loopCount, past ++ [e.output]) := by
    rw [sinceStart_concat]
    cases e with
    | started looping loopCount => exact absurd rfl (he looping loopCount)
    | _ => rfl
  unfold ControlState at h ⊢
  rw [hconcat]
  split at h
  · rename_i hnone
    rw [hnone]
    exact hunlisted h
  · rename_i looping loopCount past hsome
    rw [hsome]
    exact hstarted h

theorem ControlState.step (h : ControlState file s log) {c : Control} (hc : MeetsManual s c) :
    ControlState file (controlStep s c).2 (log ++ [(controlStep s c).1]) := by
  cases c with
  | input i =>
      cases i with
      | play => exact h.play hc.1 hc.2
      | buffer =>
          have hi : Input.buffer ≠ .play := nofun
          apply h.goOn fun _ _ hstart => by cases hstart
          · exact fun hunlisted => (hunlisted.step hi).2
          · exact fun hstarted => hstarted.step hi
      | tick outputFrames fits =>
          have hi : Input.tick outputFrames fits ≠ .play := nofun
          apply h.goOn fun _ _ hstart => by cases hstart
          · exact fun hunlisted => (hunlisted.step hi).2
          · exact fun hstarted => hstarted.step hi
  | pause =>
      apply h.goOn fun _ _ hstart => by cases hstart
      · exact fun hunlisted => ⟨hunlisted.file_eq, hunlisted.referenced, rfl⟩
      · exact fun hstarted => hstarted.pause
  | stop =>
      apply h.goOn fun _ _ hstart => by cases hstart
      · intro hunlisted
        have hidle : stop s.sound = s.sound := if_neg (ne_true_of_eq_false hunlisted.playing)
        rw [controlStep, hidle]
        exact hunlisted
      · exact fun hstarted => hstarted.stop hc

/-- A call of `stop` that the manual tells of leaves the stream stopped. -/
theorem stopped_of_meetsManual {c : Control} (hc : MeetsManual s c) {quiet : Bool}
    (hstop : (controlStep s c).1 = .stopped true quiet) : Stopped (controlStep s c).2.sound := by
  cases c with
  | input i =>
      cases i with
      | play =>
          rw [controlStep] at hstop
          dsimp only at hstop
          split at hstop <;> cases hstop
      | _ => cases hstop
  | pause => cases hstop
  | stop =>
      have hlisted : s.sound.referenced = true := by
        injection hstop
      exact (stopped_stop_iff hlisted).mpr (hc hlisted)

/-- A stopped stream, and a buffer thread that writes nothing to its ring. -/
structure AtRest (s : System α) : Prop where
  stopped : Stopped s.sound
  quiet : s.thread.quiet = true

/-- The buffer thread ends its turn, and does not begin another one with the stream. -/
theorem AtRest.bufferStep (h : AtRest s) : AtRest (Audio.bufferStep s).2 := by
  obtain ⟨hstopped, hquiet⟩ := h
  unfold Audio.bufferStep
  split
  · have hunlisted : (s.sound.referenced && !s.sound.reclaimed) = false := by
      rw [hstopped.referenced, Bool.false_and]
    rw [hunlisted]
    exact ⟨hstopped, hquiet⟩
  · have hidle : (s.sound.playing && !s.sound.atEnd) = false := by
      rw [hstopped.playing, Bool.false_and]
    rw [hidle]
    exact ⟨hstopped, rfl⟩
  · rename_i hthread
    rw [hthread] at hquiet
    cases hquiet
  · rename_i hthread
    rw [hthread] at hquiet
    cases hquiet
  · split
    · exact ⟨⟨hstopped.referenced, hstopped.playing, hstopped.empty, hstopped.first⟩, rfl⟩
    · exact ⟨hstopped, rfl⟩

theorem atRest_concat (log : List (Event α)) (e : Event α) :
    atRest (log ++ [e]) =
      match e with
      | .stopped true quiet => quiet
      | .started _ _ | .resumed => false
      | _ => atRest log := by
  rw [atRest, List.foldl_append]
  rfl

theorem AtRest.step (h : atRest log = true → AtRest s) {c : Control} (hc : MeetsManual s c)
    (hrest : atRest (log ++ [(controlStep s c).1]) = true) : AtRest (controlStep s c).2 := by
  rw [atRest_concat] at hrest
  cases c with
  | input i =>
      cases i with
      | play =>
          rw [controlStep] at hrest
          cases hpaused : s.sound.paused with
          | true =>
              rw [hpaused] at hrest
              cases hrest
          | false =>
              rw [hpaused] at hrest
              cases hrest
      | buffer => exact (h hrest).bufferStep
      | tick outputFrames fits =>
          have hstate := h hrest
          have htick : mixerTick s outputFrames = (.silent, s) := by
            simp [mixerTick, hstate.stopped.referenced]
          change AtRest (mixerTick s outputFrames).2
          rw [htick]
          exact hstate
  | pause =>
      obtain ⟨hstopped, hquiet⟩ := h hrest
      exact ⟨⟨hstopped.referenced, rfl, hstopped.empty, hstopped.first⟩, hquiet⟩
  | stop =>
      cases hlisted : s.sound.referenced with
      | true =>
          rw [controlStep, hlisted] at hrest
          exact ⟨(stopped_stop_iff hlisted).mpr (hc hlisted), hrest⟩
      | false =>
          rw [controlStep, hlisted] at hrest
          have hstate := h hrest
          have hidle : stop s.sound = s.sound :=
            if_neg (ne_true_of_eq_false hstate.stopped.playing)
          rw [controlStep, hidle]
          exact hstate

end Runs

/-- For every file, loop setting and order of steps that all meet the condition: at every point
the controls have done what the manual says. -/
theorem controls_as_documented (file : List (Frame α)) (buffer : Nat → α) (loops : LoopArgument)
    (controls : List Control)
    (hcontrols : Machine.Along controlStep MeetsManual (openedStream file buffer loops)
      controls) :
    AsDocumented file (Machine.final controlStep (openedStream file buffer loops) controls)
      (Machine.outputs controlStep (openedStream file buffer loops) controls) := by
  have hinit : ControlState file (openedStream file buffer loops) [] := by
    cases loops <;> exact ⟨rfl, rfl, rfl⟩
  have hrun := Machine.outputs_invariant
    (fun s log => ControlState file s log ∧
      (∀ quiet, log.getLast? = some (.stopped true quiet) → Stopped s.sound) ∧
      (atRest log = true → AtRest s))
    (fun s log c hs hc => ⟨hs.1.step hc, fun quiet hlast => stopped_of_meetsManual hc (by
      simpa using hlast), AtRest.step hs.2.2 hc⟩)
    (openedStream file buffer loops) [] controls ⟨hinit, nofun, nofun⟩ hcontrols
  rw [List.nil_append] at hrun
  refine ⟨?_, hrun.2.1, fun hrest => (hrun.2.2 hrest).stopped⟩
  intro looping loopCount past hpast
  have hstate := hrun.1
  rw [ControlState, hpast] at hstate
  exact hstate.partOfRounds

/-- A pause before the first tick, and a stop while the stream plays. -/
theorem controls_as_documented_early :
    AsDocumented [(1, 2), (3, 4)]
      (Machine.final controlStep (openedStream [(1, 2), (3, 4)] (fun _ => 0) (.boolean false))
        [.input .play, .pause, .input .play, .input .buffer, .input .buffer, .input .buffer,
          .input .buffer, .input (.tick 480 (by decide)), .stop])
      (Machine.outputs controlStep (openedStream [(1, 2), (3, 4)] (fun _ => 0) (.boolean false))
        [.input .play, .pause, .input .play, .input .buffer, .input .buffer, .input .buffer,
          .input .buffer, .input (.tick 480 (by decide)), .stop]) :=
  controls_as_documented [(1, 2), (3, 4)] (fun _ => 0) (.boolean false) _
    ⟨⟨trivial, nofun⟩, trivial, ⟨trivial, fun _ => Or.inl rfl⟩, trivial, trivial, trivial,
      trivial, trivial, fun _ => rfl, trivial⟩

/-- One frame is taken, and taken again after a pause; and a paused stream stays in the list. -/
theorem resumed_from_start :
    (¬ ∀ (file : List (Frame Nat)) (buffer : Nat → Nat) (loops : LoopArgument)
      (controls : List Control),
      AsDocumented file (Machine.final controlStep (openedStream file buffer loops) controls)
        (Machine.outputs controlStep (openedStream file buffer loops) controls)) ∧
    ¬ AsDocumented [(1, 2), (3, 4)]
      (Machine.final controlStep (openedStream [(1, 2), (3, 4)] (fun _ => 0) (.boolean false))
        [.input .play, .pause, .stop])
      (Machine.outputs controlStep (openedStream [(1, 2), (3, 4)] (fun _ => 0) (.boolean false))
        [.input .play, .pause, .stop]) := by
  constructor
  · intro h
    have hresumed := h [(1, 2), (3, 4)] (fun _ => 0) (.boolean false)
      ([.input .play] ++ List.replicate 5 (.input .buffer) ++ [.input (.tick 1 (by decide))] ++
        [.pause, .input .play] ++ List.replicate 4 (.input .buffer) ++
        [.input (.tick 1 (by decide))])
    obtain ⟨rounds, hrounds, htaken⟩ := hresumed.continues false 0 _ rfl
    obtain rfl := hrounds rfl
    have htwice : [((1 : Nat), (2 : Nat)), (1, 2)] <+: [(1, 2), (3, 4)] := htaken
    exact absurd htwice (by decide)
  · intro h
    have hstopped := h.stops true rfl
    exact absurd hstopped.referenced (by decide)

end LuaMumble.Audio
