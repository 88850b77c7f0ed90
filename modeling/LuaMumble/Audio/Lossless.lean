import Mathlib.Algebra.Ring.Int.Defs
import Mathlib.Data.Prod.Lex
import LuaMumble.Audio.Progress

/-!
Playback from one call of `play` to the end of the stream. Whatever the order in which
the two threads take their steps, the mixer is given the file, as often as the loop
count of the stream says, and nothing else; from every state the threads can go on to
the end. The loop count is an `int`: a number of loops that does not fit comes out
as another number.
-/

namespace LuaMumble.Audio

open Lib

variable {α : Type}

/-- A stream that was opened, told to loop `n` times, and played. -/
def playedStream (file : List (Frame α)) (buffer : Nat → α) (n : Int64) : System α :=
  { sound := play (setLooping (openAudio file buffer) (.number n))
    thread := .away }

/-- What the mixer took is part of the rounds of the file, and all of them when the
stream is unreferenced, which is when `OnAudioStreamEnd` was called, once. -/
structure Lossless (file : List (Frame α)) (rounds : Nat) (log : List (Output α))
    (s : System α) : Prop where
  isPrefix : taken log <+: repeated file rounds
  whole : s.sound.referenced = false → taken log = repeated file rounds
  ends : streamEnds log = if s.sound.referenced then 0 else 1

section Safety

variable {file : List (Frame α)} {loopCount : Int} {log : List (Output α)} {s : System α}

theorem SincePlay.lossless (h : SincePlay file false loopCount log s) :
    Lossless file (loopCount.toNat + 1) log s := by
  rcases h with ⟨k, queue, pending, h⟩ | h
  · have hloops := h.loops rfl
    exact
      { isPrefix := h.isPrefix.trans (repeated_mono (by omega))
        whole := by simp [h.referenced]
        ends := by simpa [h.referenced] using h.ends }
  · exact
      { isPrefix := by simp [h.whole]
        whole := fun _ => h.whole
        ends := by simpa [h.referenced] using h.ends }

theorem playedStream_sincePlay (file : List (Frame α)) (buffer : Nat → α) (n : Int64) :
    SincePlay file false n.toInt32.toInt [] (playedStream file buffer n) := by
  have hplayable : Playable file (setLooping (openAudio file buffer) (.number n)) :=
    ⟨rfl, by simp [setLooping, openAudio]⟩
  exact sincePlay_play (s := ⟨setLooping (openAudio file buffer) (.number n), .away⟩)
    hplayable trivial

end Safety

section Liveness

variable {file : List (Frame α)} {loopCount : Int} {log : List (Output α)} {s : System α}
  {k : Nat} {queue pending : List (Frame α)}

theorem processAudio_ring (sound : AudioStream α) (space : Nat) :
    (processAudio sound space).2.2.ring = sound.ring := by
  unfold processAudio sfReadfFloat
  dsimp only
  split
  · rfl
  · rfl

theorem handleAudioStreamEnd_bufferSize (sound : AudioStream α) :
    (handleAudioStreamEnd sound).2.ring.bufferSize = sound.ring.bufferSize := by
  simp only [handleAudioStreamEnd]
  split_ifs <;> rfl

theorem step_bufferSize (s : System α) (i : Input) :
    (step s i).2.sound.ring.bufferSize = s.sound.ring.bufferSize := by
  cases i with
  | buffer =>
      obtain ⟨sound, thread⟩ := s
      cases thread with
      | away => simp only [step, Audio.bufferStep]; split <;> rfl
      | pinned => simp only [step, Audio.bufferStep]; split <;> rfl
      | checked =>
          simp only [step, Audio.bufferStep]
          split
          · exact congrArg Ring.bufferSize (processAudio_ring sound _)
          · rfl
      | processed outputAudio eof => exact ringWrite_bufferSize _ _
      | written eof => cases eof <;> rfl
  | tick outputFrames fits =>
      simp only [step, mixerTick, processAudioFile]
      split_ifs <;> simp [handleAudioStreamEnd_bufferSize]
  | play =>
      cases hreferenced : s.sound.referenced <;>
        simp [step, play, resetPlaybackState, hreferenced, ringReset]

/-- The turns left in the buffer thread's round, counted so that every turn of a round
that reads something costs less than what it read brings. -/
def rank (s : System α) : Nat :=
  match s.thread with
  | .away => if s.sound.atEnd then 0 else 5
  | .pinned => 4
  | .checked => 3
  | .processed _ _ => 2
  | .written eof => if eof then 1 else 6

/-- The distance from the end of the round: samples of the file weigh six, samples that
the buffer thread carries two, and queued samples one. -/
def distance (s : System α) : Nat :=
  10 * (6 * (s.sound.file.length - s.sound.position) + 2 * s.thread.chunk.length +
    s.sound.ring.used) + rank s

def variant (s : System α) : Nat ×ₗ Nat := toLex (s.sound.loopCount.toNat, distance s)

theorem variant_lt_of_distance {t : System α} (hcount : t.sound.loopCount = s.sound.loopCount)
    (hdistance : distance t < distance s) : variant t < variant s := by
  rw [variant, variant, hcount]
  exact Prod.Lex.toLex_lt_toLex.mpr (Or.inr ⟨rfl, hdistance⟩)

/-- A full tick brings the end nearer, when something is queued or the flag is up. -/
theorem Playing.tick_nearer (h : Playing file false loopCount log k queue pending s)
    (hcond : s.sound.atEnd = true ∨ 0 < s.sound.ring.used) :
    (mixerTick s maxPcmFrames).2.sound.referenced = false ∨
      variant (mixerTick s maxPcmFrames).2 < variant s := by
  obtain ⟨ring, hring, _, hrun⟩ :=
    processAudioFile_spec s.sound h.reclaimed (Nat.le_refl maxPcmFrames) h.queued
  rw [h.mixerTick_eq, hrun]
  have hlooping : s.sound.looping = false := h.looping_eq
  split
  · simp only [handleAudioStreamEnd, hlooping, Bool.false_eq_true, if_false]
    split
    · refine Or.inr (Prod.Lex.toLex_lt_toLex.mpr (Or.inl ?_))
      dsimp only
      omega
    · exact Or.inl rfl
  · rename_i hgoes
    refine Or.inr (variant_lt_of_distance rfl ?_)
    have hused : s.sound.ring.used = queue.length * audioPlaybackChannels := by
      rw [← s.sound.ring.contents_length, h.queued, samples_length]
    have hless : ring.used < s.sound.ring.used := by
      rw [hused, ← ring.contents_length, hring, samples_length, List.length_drop]
      have hqueue : 0 < queue.length := by
        rcases hcond with hend | hcond
        · simp only [hend, Bool.true_and, decide_eq_true_eq, Nat.not_lt] at hgoes
          exact Nat.lt_of_lt_of_le (by decide) hgoes
        · rw [hused] at hcond
          exact Nat.pos_of_mul_pos_right hcond
      have hticks : 0 < maxPcmFrames := by decide
      exact Nat.mul_lt_mul_of_pos_right (by omega) (by decide)
    simp only [distance, rank]
    omega

/-- A turn of the buffer thread brings the end nearer, unless it would find too much
queued or the flag up. -/
theorem Playing.buffer_nearer (h : Playing file false loopCount log k queue pending s)
    (hhalf : s.thread = .checked → s.sound.ring.used < s.sound.ring.bufferSize / 2)
    (haway : s.thread = .away → s.sound.atEnd = false) :
    variant (Audio.bufferStep s).2 < variant s := by
  obtain ⟨sound, thread⟩ := s
  cases thread with
  | away =>
      have hend : sound.atEnd = false := haway rfl
      have hrun : (Audio.bufferStep ⟨sound, .away⟩).2 = ⟨sound, .pinned⟩ := by
        simp [Audio.bufferStep, show sound.referenced = true from h.referenced,
          show sound.reclaimed = false from h.reclaimed]
      rw [hrun]
      refine variant_lt_of_distance rfl ?_
      simp [distance, rank, hend, BufferThread.chunk]
  | pinned =>
      have hplaying : sound.playing = true := h.playing
      cases hend : sound.atEnd with
      | false =>
          have hrun : (Audio.bufferStep ⟨sound, .pinned⟩).2 = ⟨sound, .checked⟩ := by
            simp [Audio.bufferStep, hplaying, hend]
          rw [hrun]
          refine variant_lt_of_distance rfl ?_
          simp [distance, rank, BufferThread.chunk]
      | true =>
          have hrun : (Audio.bufferStep ⟨sound, .pinned⟩).2 = ⟨sound, .away⟩ := by
            simp [Audio.bufferStep, hend]
          rw [hrun]
          refine variant_lt_of_distance rfl ?_
          simp [distance, rank, hend, BufferThread.chunk]
  | checked =>
      have hless : sound.ring.used < sound.ring.bufferSize / 2 := hhalf rfl
      have hposition : sound.position ≤ sound.file.length := by
        rw [show sound.file = file from h.file_eq]
        exact h.position_le
      have hspace : 2 ≤ ringSpace sound.ring := by
        rw [ringSpace_eq]
        omega
      obtain ⟨input, eof, hread, _, hle, _⟩ := processAudio_spec sound hspace hposition
      have hrun : (Audio.bufferStep ⟨sound, .checked⟩).2 =
          ⟨{ sound with position := sound.position + input.length },
            .processed (samples input) eof⟩ := by
        simp only [Audio.bufferStep, ringCount, if_pos hless, hread]
      rw [hrun]
      refine variant_lt_of_distance rfl ?_
      simp only [distance, rank, BufferThread.chunk, samples_length, audioPlaybackChannels,
        List.length_nil]
      omega
  | processed outputAudio eof =>
      have hroom : sound.ring.used + outputAudio.length ≤ sound.ring.bufferSize := h.room
      have hused : (ringWrite sound.ring outputAudio).used =
          sound.ring.used + outputAudio.length := by
        rw [← Ring.contents_length, ringWrite_contents _ hroom, List.length_append,
          Ring.contents_length]
      have hfilled : eof = false → 0 < outputAudio.length := h.filled
      refine variant_lt_of_distance rfl ?_
      simp only [Audio.bufferStep, distance, rank, BufferThread.chunk, hused, List.length_nil]
      cases eof with
      | true =>
          simp only [if_true]
          omega
      | false =>
          have hmore := hfilled rfl
          simp only [Bool.false_eq_true, if_false]
          omega
  | written eof =>
      cases eof with
      | true =>
          refine variant_lt_of_distance rfl ?_
          simp [Audio.bufferStep, distance, rank, BufferThread.chunk]
      | false =>
          refine variant_lt_of_distance rfl ?_
          simp only [Audio.bufferStep, distance, rank, BufferThread.chunk, Bool.false_eq_true,
            if_false]
          split <;> omega

/-- From every state since `play` the threads can go on to the end of the stream. -/
theorem SincePlay.finishes (h : SincePlay file false loopCount log s)
    (hsize : s.sound.ring.bufferSize = 48000) :
    ∃ inputs, (∀ i ∈ inputs, i ≠ Input.play) ∧
      (Machine.final Audio.step s inputs).sound.referenced = false := by
  refine Machine.exists_final_of_variant wellFounded_lt variant
    (fun s => s.sound.ring.bufferSize = 48000 ∧ ∃ log, SincePlay file false loopCount log s)
    (fun s => s.sound.referenced = false) (fun i => i ≠ Input.play) ?_ s ⟨hsize, log, h⟩
  rintro s ⟨hsize, log, hs⟩ hgoal
  have hnext {i : Input} (hi : i ≠ .play)
      (hnear : (Audio.step s i).2.sound.referenced = false ∨
        variant (Audio.step s i).2 < variant s) :
      ∃ i, i ≠ Input.play ∧
        ((Audio.step s i).2.sound.ring.bufferSize = 48000 ∧
          ∃ log, SincePlay file false loopCount log (Audio.step s i).2) ∧
        ((Audio.step s i).2.sound.referenced = false ∨ variant (Audio.step s i).2 < variant s) :=
    ⟨i, hi, ⟨by rw [step_bufferSize, hsize], _, hs.step hi⟩, hnear⟩
  rcases hs with ⟨k, queue, pending, h⟩ | h
  · by_cases htick : (s.thread = .checked ∧ 24000 ≤ s.sound.ring.used) ∨
        (s.thread = .away ∧ s.sound.atEnd = true)
    · refine hnext (i := .tick maxPcmFrames (Nat.le_refl _)) (by simp) (h.tick_nearer ?_)
      rcases htick with ⟨_, hused⟩ | ⟨_, hend⟩
      · exact Or.inr (by omega)
      · exact Or.inl hend
    · refine hnext (i := .buffer) (by simp) (Or.inr (h.buffer_nearer ?_ ?_))
      · intro hthread
        rw [hsize]
        by_contra hused
        exact htick (Or.inl ⟨hthread, by omega⟩)
      · intro hthread
        rw [← Bool.not_eq_true]
        exact fun hend => htick (Or.inr ⟨hthread, hend⟩)
  · exact absurd h.referenced hgoal

end Liveness

/-- For every file, every loop count that fits an `int` and every order of steps of the
two threads: playback is lossless. A count that does not fit does no harm only to the
empty file. -/
theorem lossless_iff (file : List (Frame α)) (buffer : Nat → α) (n : Int64) (hn : 0 ≤ n) :
    (∀ inputs : List Input, (∀ i ∈ inputs, i ≠ .play) →
        Lossless file (n.toInt.toNat + 1)
          (Machine.outputs step (playedStream file buffer n) inputs)
          (Machine.final step (playedStream file buffer n) inputs)) ↔
      n.toInt < 2 ^ 31 ∨ file = [] := by
  have hnonneg : 0 ≤ n.toInt := by simpa using Int64.le_iff_toInt_le.mp hn
  have hcount : n.toInt32.toInt = n.toInt.bmod (2 ^ 32) := Int64.toInt_toInt32 n
  have hstart := playedStream_sincePlay file buffer n
  have hlossless (inputs : List Input) (hinputs : ∀ i ∈ inputs, i ≠ .play) :=
    (hstart.run hinputs).lossless
  constructor
  · intro h
    by_contra hcond
    obtain ⟨hlarge, hfile⟩ := not_or.mp hcond
    obtain ⟨inputs, hinputs, hfinished⟩ := hstart.finishes (by
      simp [playedStream, play, resetPlaybackState, setLooping, openAudio, ringReset])
    have hwhole := (h inputs hinputs).whole hfinished
    have hplayed := (hlossless inputs hinputs).whole hfinished
    rw [List.nil_append, hwhole] at hplayed
    have hlength := congrArg List.length hplayed
    rw [repeated_length, repeated_length] at hlength
    have hrounds := Nat.eq_of_mul_eq_mul_right (List.length_pos_iff.mpr hfile) hlength
    have hfits : n.toInt32.toInt < 2 ^ 31 := n.toInt32.toInt_lt
    omega
  · intro h inputs hinputs
    have hrounds : repeated file (n.toInt32.toInt.toNat + 1) =
        repeated file (n.toInt.toNat + 1) := by
      rcases h with hsmall | rfl
      · rw [hcount, Int.bmod_eq_of_le (by omega) (by omega)]
      · simp [repeated]
    obtain ⟨htaken, hwhole, hends⟩ := hlossless inputs hinputs
    rw [hrounds] at htaken hwhole
    exact ⟨htaken, hwhole, hends⟩

/-- The buffer thread reads a short file to its end, and the mixer takes it. -/
def shortRun : List Input :=
  [.buffer, .buffer, .buffer, .buffer, .buffer, .tick 480 (by decide)]

theorem shortRun_forall : ∀ i ∈ shortRun, i ≠ .play := by
  simp [shortRun]

/-- A file of two frames that is looped once, after its first round. -/
theorem lossless_looped :
    Lossless [(1, 2), (3, 4)] 2
      (Machine.outputs step (playedStream [(1, 2), (3, 4)] (fun _ => 0) 1) shortRun)
      (Machine.final step (playedStream [(1, 2), (3, 4)] (fun _ => 0) 1) shortRun) :=
  (lossless_iff [(1, 2), (3, 4)] (fun _ => 0) 1 (by decide)).mpr (Or.inl (by decide)) shortRun
    shortRun_forall

/-- With 2^32 loops the file is played once. -/
theorem loop_count_truncated :
    ¬ ∀ (file : List (Frame Nat)) (buffer : Nat → Nat) (n : Int64), 0 ≤ n →
      ∀ inputs : List Input, (∀ i ∈ inputs, i ≠ .play) →
        Lossless file (n.toInt.toNat + 1)
          (Machine.outputs step (playedStream file buffer n) inputs)
          (Machine.final step (playedStream file buffer n) inputs) := by
  intro h
  have hfinished : (Machine.final step (playedStream [(1, 2)] (fun _ => 0) 4294967296)
      shortRun).sound.referenced = false := by
    decide
  have htaken : taken (Machine.outputs step (playedStream [(1, 2)] (fun _ => 0) 4294967296)
      shortRun) = [(1, 2)] := by
    decide
  have hwhole := (h [(1, 2)] (fun _ => 0) 4294967296 (by decide) shortRun shortRun_forall).whole
    hfinished
  have hlength := congrArg List.length hwhole
  rw [htaken, repeated_length] at hlength
  simp at hlength

end LuaMumble.Audio
