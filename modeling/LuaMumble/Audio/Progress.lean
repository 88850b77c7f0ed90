import LuaMumble.Audio.Playback

/-!
What the two threads have done since a call of `play`. While the stream plays, what
the mixer took, what is queued and what the buffer thread still has to write are the
file up to its position, after as many whole rounds as loops were made. The end flag
is up only between the last write of a round and the tick that handles it.
-/

namespace LuaMumble.Audio

open Lib

variable {α : Type}

section Operations

theorem repeated_succ (file : List (Frame α)) (n : Nat) :
    repeated file (n + 1) = repeated file n ++ file := by
  simp [repeated, List.replicate_succ']

@[simp] theorem repeated_length (file : List (Frame α)) (n : Nat) :
    (repeated file n).length = n * file.length := by
  simp [repeated]

theorem repeated_mono {n m : Nat} (hle : n ≤ m) : repeated file n <+: repeated file m := by
  refine ⟨repeated file (m - n), ?_⟩
  rw [repeated, repeated, repeated, ← List.flatten_append, List.replicate_append_replicate,
    Nat.add_sub_cancel' hle]

theorem taken_concat (log : List (Output α)) (o : Output α) :
    taken (log ++ [o]) = taken log ++ o.frames := by
  simp [taken]

theorem streamEnds_concat (log : List (Output α)) (o : Output α) :
    streamEnds (log ++ [o]) = streamEnds log + o.streamEnds := by
  simp [streamEnds]

/-- `process_audio` reads on in the file; it finds the end when it reaches it, and
else has filled the space. -/
theorem processAudio_spec (sound : AudioStream α) {space : Nat} (hspace : 2 ≤ space)
    (hposition : sound.position ≤ sound.file.length) :
    ∃ input eof, processAudio sound (space * sizeofFloat) =
        (samples input, eof, { sound with position := sound.position + input.length }) ∧
      sound.file.take (sound.position + input.length) =
        sound.file.take sound.position ++ input ∧
      sound.position + input.length ≤ sound.file.length ∧
      input.length * audioPlaybackChannels ≤ space ∧
      (eof = true → sound.position + input.length = sound.file.length) ∧
      (eof = false → 0 < input.length) := by
  have hasked : space * sizeofFloat / (audioPlaybackChannels * sizeofFloat) = space / 2 := by
    simp only [sizeofFloat, audioPlaybackChannels]
    omega
  obtain ⟨input, hinput⟩ : ∃ input, input = (sound.file.drop sound.position).take (space / 2) :=
    ⟨_, rfl⟩
  have hlength : input.length = min (space / 2) (sound.file.length - sound.position) := by
    rw [hinput, List.length_take, List.length_drop]
  have htake : (sound.file.drop sound.position).take input.length = input := by
    rw [hlength, ← List.length_drop, ← List.take_eq_take_min, hinput]
  have hread : sound.file.take (sound.position + input.length) =
      sound.file.take sound.position ++ input := by
    rw [List.take_add, htake]
  have hfits : input.length * audioPlaybackChannels ≤ space := by
    simp only [audioPlaybackChannels]
    omega
  simp only [processAudio, sfReadfFloat, hasked, ← hinput]
  split
  · rename_i hempty
    refine ⟨input, true, ?_, hread, by omega, hfits, fun _ => by omega, by simp⟩
    rw [List.length_eq_zero_iff.mp hempty]
    rfl
  · refine ⟨input, _, rfl, hread, by omega, hfits, ?_, fun _ => by omega⟩
    intro heof
    have hshort := of_decide_eq_true heof
    omega

/-- What a tick takes of the frames queued. -/
theorem processAudioFile_spec (sound : AudioStream α) {queue : List (Frame α)} {sampleSize : Nat}
    (hreclaimed : sound.reclaimed = false) (hfits : sampleSize ≤ maxPcmFrames)
    (hqueue : sound.ring.contents = samples queue) :
    ∃ ring, ring.contents = samples (queue.drop sampleSize) ∧
      ring.bufferSize = sound.ring.bufferSize ∧
      processAudioFile sound sampleSize =
        if sound.atEnd && decide (queue.length < sampleSize) then
          (.mixed queue (handleAudioStreamEnd { sound with ring := ring }).1,
            (handleAudioStreamEnd { sound with ring := ring }).2)
        else (.mixed (queue.take sampleSize) false, { sound with ring := ring }) := by
  have hused : sound.ring.used = queue.length * audioPlaybackChannels := by
    rw [← sound.ring.contents_length, hqueue, samples_length]
  have hread : min (min (ringCount sound.ring / audioPlaybackChannels) sampleSize *
      audioPlaybackChannels) pcmBuffer = min queue.length sampleSize * audioPlaybackChannels := by
    rw [ringCount, hused, pcmBuffer]
    simp only [audioPlaybackChannels] at *
    omega
  obtain ⟨htaken, hrest⟩ := ringRead_eq sound.ring
    (min queue.length sampleSize * audioPlaybackChannels)
  have hmin : queue.take (min queue.length sampleSize) = queue.take sampleSize := by
    rw [Nat.min_comm, ← List.take_eq_take_min]
  have hdrop : queue.drop (min queue.length sampleSize) = queue.drop sampleSize := by
    rw [Nat.min_comm, ← List.drop_eq_drop_min]
  rw [hqueue, samples_take, hmin] at htaken
  rw [hqueue, samples_drop, hdrop] at hrest
  refine ⟨_, hrest, ringRead_bufferSize _ _, ?_⟩
  have hcount : (queue.take sampleSize).length * audioPlaybackChannels / audioPlaybackChannels =
      min sampleSize queue.length := by
    rw [List.length_take, audioPlaybackChannels]
    omega
  have hbuffer : ¬ pcmBuffer < sampleSize := by
    simp only [pcmBuffer, audioPlaybackChannels]
    omega
  simp only [processAudioFile, hreclaimed, Bool.false_eq_true, if_false, if_neg hbuffer, hread,
    htaken, framesOf_samples, samples_length, hcount]
  by_cases hshort : queue.length < sampleSize
  · have hall : queue.take sampleSize = queue := List.take_of_length_le (by omega)
    have hless : min sampleSize queue.length < sampleSize := by omega
    simp only [hshort, hall, hless]
  · have hless : ¬ min sampleSize queue.length < sampleSize := by omega
    simp only [hshort, hless, decide_false, Bool.and_false, Bool.false_eq_true, if_false]

end Operations

/-- The samples that the buffer thread has from `process_audio` and not yet written. -/
def BufferThread.chunk : BufferThread α → List α
  | .processed outputAudio _ => outputAudio
  | _ => []

/-- The buffer thread has seen the end of the file and not yet set the flag. -/
def BufferThread.eof : BufferThread α → Bool
  | .processed _ eof => eof
  | .written eof => eof
  | _ => false

/-- The buffer thread is behind the test of `playing` and `end`. -/
def BufferThread.busy : BufferThread α → Bool
  | .away => false
  | .pinned => false
  | _ => true

/-- What `process_audio` gave the buffer thread is empty only at the end of the file. -/
def BufferThread.filled : BufferThread α → Prop
  | .processed outputAudio eof => eof = false → 0 < outputAudio.length
  | _ => True

/-- The stream plays, `k` rounds after a call of `play` with the given loop setting;
`log` is what has happened since. -/
structure Playing (file : List (Frame α)) (looping : Bool) (loopCount : Int)
    (log : List (Output α)) (k : Nat) (queue pending : List (Frame α)) (s : System α) : Prop where
  file_eq : s.sound.file = file
  playing : s.sound.playing = true
  referenced : s.sound.referenced = true
  reclaimed : s.sound.reclaimed = false
  queued : s.sound.ring.contents = samples queue
  carried : s.thread.chunk = samples pending
  filled : s.thread.filled
  room : s.sound.ring.used + s.thread.chunk.length ≤ s.sound.ring.bufferSize
  position_le : s.sound.position ≤ file.length
  progress : taken log ++ (queue ++ pending) = repeated file k ++ file.take s.sound.position
  at_eof : s.thread.eof = true → s.sound.position = file.length
  at_end : s.sound.atEnd = true → s.sound.position = file.length ∧ s.thread.busy = false
  looping_eq : s.sound.looping = looping
  loops : looping = false → s.sound.loopCount.toNat + k = loopCount.toNat
  ends : streamEnds log = 0

/-- The stream has played to the end of its last round and was unreferenced. -/
structure Finished (file : List (Frame α)) (looping : Bool) (loopCount : Int)
    (log : List (Output α)) (s : System α) : Prop where
  file_eq : s.sound.file = file
  playing : s.sound.playing = false
  referenced : s.sound.referenced = false
  atEnd : s.sound.atEnd = false
  idle : s.thread.busy = false
  looping_eq : looping = false
  whole : taken log = repeated file (loopCount.toNat + 1)
  ends : streamEnds log = 1

/-- What is true after a call of `play`. -/
def SincePlay (file : List (Frame α)) (looping : Bool) (loopCount : Int) (log : List (Output α))
    (s : System α) : Prop :=
  (∃ k queue pending, Playing file looping loopCount log k queue pending s) ∨
    Finished file looping loopCount log s

/-- The mixer took a part of the rounds of the file that the loop setting asks for: nothing
twice, and nothing left out. -/
def PartOfRounds (file : List (Frame α)) (looping : Bool) (loopCount : Int)
    (past : List (Output α)) : Prop :=
  ∃ rounds, (looping = false → rounds = loopCount.toNat + 1) ∧
    taken past <+: repeated file rounds

/-- The buffer thread has nothing in its hands that `play` does not know of: it is not
between `process_audio` and the end of its turn. -/
def BufferThread.Unburdened : BufferThread α → Prop
  | .processed _ _ => False
  | .written eof => eof = false
  | _ => True

theorem BufferThread.Unburdened.spec {thread : BufferThread α} (h : thread.Unburdened) :
    thread.chunk = [] ∧ thread.eof = false ∧ thread.filled := by
  cases thread with
  | processed _ _ => exact h.elim
  | written eof => exact ⟨rfl, h, trivial⟩
  | _ => exact ⟨rfl, rfl, trivial⟩

section Steps

variable {file : List (Frame α)} {looping : Bool} {loopCount : Int} {log : List (Output α)}
  {s : System α}

/-- A step that shows nothing and changes neither the stream nor what the buffer thread
carries. -/
theorem Playing.idle {k : Nat} {queue pending : List (Frame α)}
    (h : Playing file looping loopCount log k queue pending s) {thread : BufferThread α}
    (hchunk : thread.chunk = s.thread.chunk) (heof : thread.eof = true → s.thread.eof = true)
    (hbusy : thread.busy = true → s.sound.atEnd = false) (hfilled : thread.filled) :
    Playing file looping loopCount (log ++ [.silent]) k queue pending
      { s with thread := thread } where
  file_eq := h.file_eq
  playing := h.playing
  referenced := h.referenced
  reclaimed := h.reclaimed
  queued := h.queued
  carried := by rw [hchunk, h.carried]
  filled := hfilled
  room := by rw [hchunk]; exact h.room
  position_le := h.position_le
  progress := by simpa [taken_concat, Output.frames] using h.progress
  at_eof := fun h' => h.at_eof (heof h')
  at_end := fun hend => by
    refine ⟨(h.at_end hend).1, ?_⟩
    cases hthread : thread.busy with
    | false => rfl
    | true => simp [hbusy hthread] at hend
  looping_eq := h.looping_eq
  loops := h.loops
  ends := by simpa [streamEnds_concat, Output.streamEnds] using h.ends

/-- What the mixer took lies in the round that is being played. -/
theorem Playing.isPrefix {k : Nat} {queue pending : List (Frame α)}
    (h : Playing file looping loopCount log k queue pending s) :
    taken log <+: repeated file (k + 1) := by
  have hqueue : taken log <+: taken log ++ (queue ++ pending) := List.prefix_append _ _
  rw [h.progress] at hqueue
  rw [repeated_succ]
  exact hqueue.trans ((List.prefix_append_right_inj _).mpr (List.take_prefix _ _))

theorem Playing.partOfRounds {k : Nat} {queue pending : List (Frame α)}
    (h : Playing file looping loopCount log k queue pending s) :
    PartOfRounds file looping loopCount log := by
  cases looping with
  | true => exact ⟨k + 1, by simp, h.isPrefix⟩
  | false =>
      have hloops := h.loops rfl
      exact ⟨loopCount.toNat + 1, fun _ => rfl, h.isPrefix.trans (repeated_mono (by omega))⟩

theorem Finished.partOfRounds (h : Finished file looping loopCount log s) :
    PartOfRounds file looping loopCount log := by
  have hwhole : taken log ++ [] = repeated file (loopCount.toNat + 1) := by
    rw [List.append_nil, h.whole]
  exact ⟨loopCount.toNat + 1, fun _ => rfl, ⟨[], hwhole⟩⟩

theorem samples_eq_nil {frames : List (Frame α)} (h : [] = samples frames) : frames = [] := by
  cases frames with
  | nil => rfl
  | cons frame rest => simp [samples] at h

/-- The file is read on. -/
theorem Playing.processed {k : Nat} {queue pending : List (Frame α)} {sound : AudioStream α}
    (h : Playing file looping loopCount log k queue pending ⟨sound, .checked⟩)
    (hspace : 2 ≤ ringSpace sound.ring) :
    ∃ input eof sound',
      processAudio sound (ringSpace sound.ring * sizeofFloat) = (samples input, eof, sound') ∧
      Playing file looping loopCount (log ++ [.decoded eof]) k queue input
        ⟨sound', .processed (samples input) eof⟩ := by
  have hfile : sound.file = file := h.file_eq
  have hposition : sound.position ≤ sound.file.length := by
    rw [hfile]
    exact h.position_le
  obtain ⟨input, eof, hrun, hread, hle, hfits, heof, hfilled⟩ :=
    processAudio_spec sound hspace hposition
  refine ⟨input, eof, _, hrun, ?_⟩
  have hpending : pending = [] := samples_eq_nil h.carried
  have hroom := h.room
  rw [hfile] at hread hle heof
  rw [ringSpace_eq] at hfits
  exact
    { file_eq := hfile
      playing := h.playing
      referenced := h.referenced
      reclaimed := h.reclaimed
      queued := h.queued
      carried := rfl
      filled := by
        intro hmore
        rw [samples_length]
        exact Nat.mul_pos (hfilled hmore) (by decide)
      room := by
        simp only [BufferThread.chunk, samples_length]
        simp only [BufferThread.chunk, List.length_nil] at hroom
        omega
      position_le := hle
      progress := by
        have hprogress := h.progress
        rw [hpending, List.append_nil] at hprogress
        simp only [taken_concat, Output.frames, List.append_nil]
        rw [← List.append_assoc, hprogress, List.append_assoc, ← hread]
      at_eof := heof
      at_end := fun hend => absurd (h.at_end hend).2 (by simp [BufferThread.busy])
      looping_eq := h.looping_eq
      loops := h.loops
      ends := by simpa [streamEnds_concat, Output.streamEnds] using h.ends }

/-- What was read is queued. -/
theorem Playing.written {k : Nat} {queue pending : List (Frame α)} {sound : AudioStream α}
    {outputAudio : List α} {eof : Bool}
    (h : Playing file looping loopCount log k queue pending ⟨sound, .processed outputAudio eof⟩) :
    Playing file looping loopCount (log ++ [.silent]) k (queue ++ pending) []
      ⟨{ sound with ring := ringWrite sound.ring outputAudio }, .written eof⟩ := by
  have hroom : sound.ring.used + outputAudio.length ≤ sound.ring.bufferSize := h.room
  have hcontents := ringWrite_contents sound.ring hroom
  have hqueued : sound.ring.contents = samples queue := h.queued
  have hcarried : outputAudio = samples pending := h.carried
  have hused : (ringWrite sound.ring outputAudio).used ≤
      (ringWrite sound.ring outputAudio).bufferSize :=
    (ringWrite sound.ring outputAudio).used_le
  exact
    { file_eq := h.file_eq
      playing := h.playing
      referenced := h.referenced
      reclaimed := h.reclaimed
      queued := by rw [hcontents, hqueued, hcarried, samples_append]
      carried := rfl
      filled := trivial
      room := hused
      position_le := h.position_le
      progress := by simpa [taken_concat, Output.frames] using h.progress
      at_eof := h.at_eof
      at_end := fun hend => absurd (h.at_end hend).2 (by simp [BufferThread.busy])
      looping_eq := h.looping_eq
      loops := h.loops
      ends := by simpa [streamEnds_concat, Output.streamEnds] using h.ends }

/-- The flag is set. -/
theorem Playing.ended {k : Nat} {queue pending : List (Frame α)} {sound : AudioStream α}
    (h : Playing file looping loopCount log k queue pending ⟨sound, .written true⟩) :
    Playing file looping loopCount (log ++ [.silent]) k queue pending
      ⟨{ sound with atEnd := true }, .away⟩ where
  file_eq := h.file_eq
  playing := h.playing
  referenced := h.referenced
  reclaimed := h.reclaimed
  queued := h.queued
  carried := h.carried
  filled := trivial
  room := h.room
  position_le := h.position_le
  progress := by simpa [taken_concat, Output.frames] using h.progress
  at_eof := by simp [BufferThread.eof]
  at_end := fun _ => ⟨h.at_eof rfl, rfl⟩
  looping_eq := h.looping_eq
  loops := h.loops
  ends := by simpa [streamEnds_concat, Output.streamEnds] using h.ends

theorem Playing.bufferStep {k : Nat} {queue pending : List (Frame α)}
    (h : Playing file looping loopCount log k queue pending s) :
    ∃ queue' pending', Playing file looping loopCount (log ++ [(bufferStep s).1]) k queue' pending'
      (bufferStep s).2 := by
  obtain ⟨sound, thread⟩ := s
  have hbusy : thread.busy = true → sound.atEnd = false := by
    intro hthread
    cases hend : sound.atEnd with
    | false => rfl
    | true => simpa [hthread] using (h.at_end hend).2
  cases thread with
  | away =>
      have hreferenced : sound.referenced = true := h.referenced
      have hreclaimed : sound.reclaimed = false := h.reclaimed
      simp only [Audio.bufferStep, hreferenced, hreclaimed, Bool.not_false, Bool.and_self, if_true]
      exact ⟨queue, pending, h.idle rfl (fun heof => heof) (by simp [BufferThread.busy]) trivial⟩
  | pinned =>
      have hplaying : sound.playing = true := h.playing
      cases hend : sound.atEnd with
      | false =>
          simp only [Audio.bufferStep, hplaying, hend, Bool.not_false, Bool.and_self, if_true]
          exact ⟨queue, pending, h.idle rfl (fun heof => heof) (fun _ => hend) trivial⟩
      | true =>
          simp only [Audio.bufferStep, hplaying, hend, Bool.not_true, Bool.and_false,
            Bool.false_eq_true, if_false]
          exact ⟨queue, pending, h.idle rfl (fun heof => heof) (by simp [BufferThread.busy])
            trivial⟩
  | checked =>
      simp only [Audio.bufferStep]
      split
      · rename_i hhalf
        have hspace : 2 ≤ ringSpace sound.ring := by
          rw [ringSpace_eq]
          rw [ringCount] at hhalf
          omega
        obtain ⟨input, eof, sound', hrun, hnext⟩ := h.processed hspace
        rw [hrun]
        exact ⟨queue, input, hnext⟩
      · exact ⟨queue, pending, h.idle rfl (fun heof => heof) (by simp [BufferThread.busy]) trivial⟩
  | processed outputAudio eof => exact ⟨queue ++ pending, [], h.written⟩
  | written eof =>
      cases eof with
      | true => exact ⟨queue, pending, h.ended⟩
      | false =>
          exact ⟨queue, pending, h.idle rfl (fun heof => heof) (by simp [BufferThread.busy])
            trivial⟩

/-- The mixer takes the first frames queued. -/
theorem Playing.mixed {k : Nat} {queue pending : List (Frame α)} {ring : Ring α}
    (h : Playing file looping loopCount log k queue pending s) (n : Nat)
    (hring : ring.contents = samples (queue.drop n))
    (hsize : ring.bufferSize = s.sound.ring.bufferSize) :
    Playing file looping loopCount (log ++ [.mixed (queue.take n) false]) k (queue.drop n) pending
      { s with sound := { s.sound with ring := ring } } where
  file_eq := h.file_eq
  playing := h.playing
  referenced := h.referenced
  reclaimed := h.reclaimed
  queued := hring
  carried := h.carried
  filled := h.filled
  room := by
    have hroom := h.room
    have hused : ring.used ≤ s.sound.ring.used := by
      rw [← ring.contents_length, ← s.sound.ring.contents_length, hring, h.queued, samples_length,
        samples_length, List.length_drop]
      exact Nat.mul_le_mul_right _ (Nat.sub_le _ _)
    simp only [hsize]
    omega
  position_le := h.position_le
  progress := by
    rw [taken_concat, ← h.progress]
    simp only [Output.frames, List.append_assoc]
    rw [← List.append_assoc (queue.take n), List.take_append_drop]
  at_eof := h.at_eof
  at_end := h.at_end
  looping_eq := h.looping_eq
  loops := h.loops
  ends := by simpa [streamEnds_concat, Output.streamEnds] using h.ends

/-- When the ring is empty behind the end of the file, the mixer has the whole round. -/
theorem Playing.round_over {k : Nat} {queue pending : List (Frame α)}
    (h : Playing file looping loopCount log k queue pending s) (hend : s.sound.atEnd = true) :
    s.thread.chunk = [] ∧ taken log ++ queue = repeated file (k + 1) := by
  obtain ⟨hposition, hidle⟩ := h.at_end hend
  have hchunk : s.thread.chunk = [] := by
    cases hthread : s.thread with
    | processed _ _ => simp [hthread, BufferThread.busy] at hidle
    | _ => rfl
  have hpending : pending = [] := by
    apply samples_eq_nil
    rw [← h.carried, hchunk]
  have hprogress := h.progress
  rw [hpending, List.append_nil, hposition, List.take_length, ← repeated_succ] at hprogress
  exact ⟨hchunk, hprogress⟩

/-- The file begins anew. -/
theorem Playing.anew {k : Nat} {queue pending : List (Frame α)} {ring : Ring α}
    (h : Playing file looping loopCount log k queue pending s) (hend : s.sound.atEnd = true)
    (hring : ring.contents = []) {count : Int}
    (hloops : looping = false → count.toNat + (k + 1) = loopCount.toNat) :
    Playing file looping loopCount (log ++ [.mixed queue false]) (k + 1) [] []
      { s with sound :=
          { s.sound with ring := ring, position := 0, atEnd := false, loopCount := count } } := by
  obtain ⟨-, hidle⟩ := h.at_end hend
  obtain ⟨hchunk, hround⟩ := h.round_over hend
  have hused : ring.used = 0 := by rw [← ring.contents_length, hring, List.length_nil]
  have heof : s.thread.eof = true → (0 : Nat) = file.length := by
    intro heof
    cases hthread : s.thread with
    | away => simp [hthread, BufferThread.eof] at heof
    | pinned => simp [hthread, BufferThread.eof] at heof
    | _ => simp [hthread, BufferThread.busy] at hidle
  exact
    { file_eq := h.file_eq
      playing := h.playing
      referenced := h.referenced
      reclaimed := h.reclaimed
      queued := hring
      carried := hchunk
      filled := h.filled
      room := by simp [hused, hchunk]
      position_le := Nat.zero_le _
      progress := by
        rw [taken_concat, Output.frames, hround]
        simp
      at_eof := heof
      at_end := by simp
      looping_eq := h.looping_eq
      loops := hloops
      ends := by simpa [streamEnds_concat, Output.streamEnds] using h.ends }

/-- The mixer finds the end of the stream: a round is complete, and either another one
begins or the stream is unreferenced. -/
theorem Playing.streamEnd {k : Nat} {queue pending : List (Frame α)} {ring : Ring α}
    (h : Playing file looping loopCount log k queue pending s) (hend : s.sound.atEnd = true)
    (hring : ring.contents = []) :
    SincePlay file looping loopCount
      (log ++ [.mixed queue (handleAudioStreamEnd { s.sound with ring := ring }).1])
      { s with sound := (handleAudioStreamEnd { s.sound with ring := ring }).2 } := by
  obtain ⟨-, hidle⟩ := h.at_end hend
  obtain ⟨-, hround⟩ := h.round_over hend
  have hlooping : s.sound.looping = looping := h.looping_eq
  obtain ⟨sound, hsound⟩ : ∃ sound : AudioStream α, sound = { s.sound with ring := ring } :=
    ⟨_, rfl⟩
  have hlooping' : sound.looping = looping := by rw [hsound]; exact hlooping
  rw [← hsound]
  cases looping with
  | true =>
      have hrun : handleAudioStreamEnd sound =
          (false, { sound with position := 0, atEnd := false }) :=
        if_pos hlooping'
      rw [hrun, hsound]
      exact Or.inl ⟨k + 1, [], [], h.anew hend hring (by simp)⟩
  | false =>
      have hloops := h.loops rfl
      have hcount : sound.loopCount = s.sound.loopCount := by rw [hsound]
      by_cases hmore : 0 < sound.loopCount
      · have hrun : handleAudioStreamEnd sound = (false, { sound with
            position := 0, atEnd := false, loopCount := sound.loopCount - 1 }) := by
          simp [handleAudioStreamEnd, hlooping', hmore]
        have hless : (s.sound.loopCount - 1).toNat + (k + 1) = loopCount.toNat := by omega
        rw [hrun, hsound]
        exact Or.inl ⟨k + 1, [], [], h.anew hend hring fun _ => hless⟩
      · have hrun : handleAudioStreamEnd sound =
            (true, unreferenceLocked { sound with position := 0, atEnd := false }) := by
          simp [handleAudioStreamEnd, hlooping', hmore]
        have hk : k = loopCount.toNat := by omega
        rw [hrun, hsound]
        exact Or.inr
          { file_eq := h.file_eq
            playing := rfl
            referenced := rfl
            atEnd := rfl
            idle := hidle
            looping_eq := rfl
            whole := by rw [taken_concat, Output.frames, hround, hk]
            ends := by simpa [streamEnds_concat, Output.streamEnds] using h.ends }

theorem Playing.mixerTick_eq {k : Nat} {queue pending : List (Frame α)}
    (h : Playing file looping loopCount log k queue pending s) (outputFrames : Nat) :
    mixerTick s outputFrames = ((processAudioFile s.sound outputFrames).1,
      { s with sound := (processAudioFile s.sound outputFrames).2 }) := by
  simp [mixerTick, h.referenced, h.reclaimed, h.playing]

theorem Playing.tick {k : Nat} {queue pending : List (Frame α)}
    (h : Playing file looping loopCount log k queue pending s) {outputFrames : Nat}
    (hfits : outputFrames ≤ maxPcmFrames) :
    SincePlay file looping loopCount (log ++ [(mixerTick s outputFrames).1])
      (mixerTick s outputFrames).2 := by
  obtain ⟨ring, hring, hsize, hrun⟩ := processAudioFile_spec s.sound h.reclaimed hfits h.queued
  rw [h.mixerTick_eq, hrun]
  split
  · rename_i hcond
    obtain ⟨hend, hshort⟩ := Bool.and_eq_true_iff.mp hcond
    have hempty : queue.drop outputFrames = [] :=
      List.drop_of_length_le (Nat.le_of_lt (of_decide_eq_true hshort))
    rw [hempty] at hring
    exact h.streamEnd hend hring
  · exact Or.inl ⟨k, _, pending, h.mixed outputFrames hring hsize⟩

theorem Finished.silent (h : Finished file looping loopCount log s) {thread : BufferThread α}
    (hidle : thread.busy = false) :
    Finished file looping loopCount (log ++ [.silent]) { s with thread := thread } where
  file_eq := h.file_eq
  playing := h.playing
  referenced := h.referenced
  atEnd := h.atEnd
  idle := hidle
  looping_eq := h.looping_eq
  whole := by simpa [taken_concat, Output.frames] using h.whole
  ends := by simpa [streamEnds_concat, Output.streamEnds] using h.ends

theorem Finished.bufferStep (h : Finished file looping loopCount log s) :
    Finished file looping loopCount (log ++ [(bufferStep s).1]) (bufferStep s).2 := by
  obtain ⟨sound, thread⟩ := s
  have hreferenced : sound.referenced = false := h.referenced
  have hplaying : sound.playing = false := h.playing
  have hidle : thread.busy = false := h.idle
  cases thread with
  | away =>
      simp only [Audio.bufferStep, hreferenced, Bool.false_and, Bool.false_eq_true, if_false]
      exact h.silent rfl
  | pinned =>
      simp only [Audio.bufferStep, hplaying, Bool.false_and, Bool.false_eq_true, if_false]
      exact h.silent rfl
  | _ => simp [BufferThread.busy] at hidle

theorem Finished.tick (h : Finished file looping loopCount log s) (outputFrames : Nat) :
    Finished file looping loopCount (log ++ [(mixerTick s outputFrames).1])
      (mixerTick s outputFrames).2 := by
  have htick : mixerTick s outputFrames = (.silent, s) := by
    simp [mixerTick, h.referenced]
  rw [htick]
  exact h.silent h.idle

/-- Every step but a call of `play` keeps to the file. -/
theorem SincePlay.step (h : SincePlay file looping loopCount log s) {i : Input} (hi : i ≠ .play) :
    SincePlay file looping loopCount (log ++ [(step s i).1]) (step s i).2 := by
  rcases h with ⟨k, queue, pending, h⟩ | h
  · cases i with
    | buffer =>
        obtain ⟨queue', pending', hnext⟩ := h.bufferStep
        exact Or.inl ⟨k, queue', pending', hnext⟩
    | tick outputFrames fits => exact h.tick fits
    | play => exact absurd rfl hi
  · cases i with
    | buffer => exact Or.inr h.bufferStep
    | tick outputFrames fits => exact Or.inr (h.tick outputFrames)
    | play => exact absurd rfl hi

/-- What a call of `play` finds: a stream that is reclaimed is not referenced. -/
def Playable (file : List (Frame α)) (sound : AudioStream α) : Prop :=
  sound.file = file ∧ (sound.referenced = true → sound.reclaimed = false)

theorem SincePlay.playable (h : SincePlay file looping loopCount log s) :
    Playable file s.sound := by
  rcases h with ⟨k, queue, pending, h⟩ | h
  · exact ⟨h.file_eq, fun _ => h.reclaimed⟩
  · exact ⟨h.file_eq, by simp [h.referenced]⟩

theorem play_eq (sound : AudioStream α) (h : Playable file sound) :
    play sound =
      { sound with
        playing := true, atEnd := false, ring := ringReset sound.ring, position := 0
        referenced := true, reclaimed := false } := by
  cases hreferenced : sound.referenced with
  | true => simp [play, resetPlaybackState, hreferenced, h.2 hreferenced]
  | false => simp [play, resetPlaybackState, hreferenced]

/-- A call of `play` that does not find the buffer thread burdened, where whole rounds have been
taken. -/
theorem playing_play {k : Nat} (hplayable : Playable file s.sound) (hthread : s.thread.Unburdened)
    (htaken : taken log = repeated file k) (hlooping : s.sound.looping = looping)
    (hloops : looping = false → s.sound.loopCount.toNat + k = loopCount.toNat)
    (hends : streamEnds log = 0) :
    Playing file looping loopCount log k [] [] { s with sound := play s.sound } := by
  obtain ⟨hchunk, heof, hfilled⟩ := hthread.spec
  rw [play_eq s.sound hplayable]
  exact
    { file_eq := hplayable.1
      playing := rfl
      referenced := rfl
      reclaimed := rfl
      queued := rfl
      carried := hchunk
      filled := hfilled
      room := by simp [hchunk, ringReset]
      position_le := Nat.zero_le _
      progress := by rw [htaken]; rfl
      at_eof := by simp [heof]
      at_end := by simp
      looping_eq := hlooping
      loops := hloops
      ends := hends }

/-- A call of `play` begins anew. -/
theorem sincePlay_play (hplayable : Playable file s.sound) (hthread : s.thread.Unburdened) :
    SincePlay file s.sound.looping s.sound.loopCount [] { s with sound := play s.sound } :=
  Or.inl ⟨0, [], [], playing_play hplayable hthread rfl rfl (fun _ => rfl) rfl⟩

theorem SincePlay.run (h : SincePlay file looping loopCount log s) {inputs : List Input}
    (hinputs : ∀ i ∈ inputs, i ≠ .play) :
    SincePlay file looping loopCount (log ++ Machine.outputs Audio.step s inputs)
      (Machine.final Audio.step s inputs) := by
  refine Machine.outputs_invariant (p := fun _ i => i ≠ .play)
    (fun s log => SincePlay file looping loopCount log s) ?_ s log inputs h ?_
  · intro s log i hs hi
    exact hs.step hi
  · exact Machine.along_of_mem s inputs fun i hi _ => hinputs i hi

end Steps

end LuaMumble.Audio
