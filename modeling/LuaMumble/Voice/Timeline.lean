import LuaMumble.Audio.Encode
import LuaMumble.Lib.BinaryFraction
import LuaMumble.Lib.Machine
import LuaMumble.Voice.Utterances
import Mathlib.Tactic.Ring

/-!
The recording of one user in time. `mumble_handle_record_silence` writes silence for the time
since `last_spoke`: when the user begins to speak, and at the end of the recording. `last_spoke`
is set when the recording is started and when the user stops to speak. A packet is handled in
the steps between its hooks, in which a script may start and stop the recording and have other
packets of the user handled; no time passes within it. Times are in milliseconds.
-/

namespace LuaMumble.Voice.Timeline

open Lib Precision
open LuaMumble.Audio (audioPlaybackChannels)
open LuaMumble.Audio.Encode (audioSampleRate)

/-- `silence_samples`, computed with doubles. The conversion of a number that is too large for an
`int` is `overflow`, on which C says nothing. -/
def silenceSamples (overflow : Nat → Int32) (silenceDuration : Nat) : Int :=
  let seconds := BinaryFraction.ofQuotient 53 (roundNearestEven 53 silenceDuration) 1000
  let samples := (seconds.times 53 audioSampleRate).times 53 audioPlaybackChannels
  if samples.trunc < 2 ^ 31 then samples.trunc else (overflow samples.trunc).toInt

/-- The silence is short enough for an `int`, and no sample gets lost in the division. With the
duration shifted so that the seconds have 53 bits before the point, a sample is lost where the
thousandths behind the point are rounded off, are more than 341, and the product with 48000 is
below 2^68, so that its last bit is no coarser than that. -/
def Measured (silenceDuration : Nat) : Prop :=
  let shifted := silenceDuration * 2 ^ BinaryFraction.quotientShift 53 silenceDuration 1000
  silenceDuration < 22369622 ∧
    ¬ (3 * shifted < 2 ^ 64 ∧ 341 < shifted % 1000 ∧ shifted % 1000 < 500)

instance (silenceDuration : Nat) : Decidable (Measured silenceDuration) :=
  inferInstanceAs (Decidable (_ ∧ _))

/-- A recording, with the samples of silence that were written to it, and how long the user has
not spoken since it was started. -/
structure Recording where
  written : Nat
  quiet : Nat
  deriving DecidableEq

structure MumbleUser where
  speaking : Bool
  lastSpoke : Nat
  recordingFile : Option Recording

/-- A packet that is being handled. `stops` tells if `OnUserStopSpeaking` is called for it. -/
structure Handler where
  stops : Bool
  stage : Stage

/-- The user object, and the packets that are being handled, the innermost first. `speech` tells
if `OnUserStartSpeaking` was called and `OnUserStopSpeaking` not yet after it, and `covered` if
the silence before this speech was written. -/
structure State where
  now : Nat
  user : MumbleUser
  handlers : List Handler
  speech : Bool
  covered : Bool
  removed : Bool
  collected : Bool
  finished : List Recording

/-- `mumble_user_get` for a new user, which leaves `last_spoke` as it finds it. -/
def created (now lastSpoke : Nat) : State where
  now := now
  user := { speaking := false, lastSpoke := lastSpoke, recordingFile := none }
  handlers := []
  speech := false
  covered := false
  removed := false
  collected := false
  finished := []

/-- What happens to a user: time passes, a packet comes, the hook that is being called returns,
the script starts or stops the recording, the user is removed or collected. -/
inductive Event where
  | pass (milliseconds : Nat)
  | packet (isTerminator : Bool)
  | hookReturned
  | startRecord (opened : Bool)
  | stopRecord
  | remove
  | collect

namespace State

variable (overflow : Nat → Int32) (s : State)

/-- `mumble_handle_record_silence` -/
def mumbleHandleRecordSilence : State :=
  match s.user.recordingFile with
  | none => s
  | some recording =>
      let silenceSamples := silenceSamples overflow (s.now - s.user.lastSpoke)
      if 0 < silenceSamples then
        { s with user := { s.user with
          recordingFile :=
            some { recording with written := recording.written + silenceSamples.toNat } } }
      else s

/-- `user_startRecord`, where the file is opened or not. -/
def userStartRecord (opened : Bool) : State :=
  if s.user.recordingFile.isSome then s
  else if opened then
    { s with user := { s.user with lastSpoke := s.now, recordingFile := some ⟨0, 0⟩ } }
  else s

/-- `user_handle_stop_recording` -/
def userHandleStopRecording : State :=
  let s := s.mumbleHandleRecordSilence overflow
  { s with
    user := { s.user with recordingFile := none }
    finished := s.finished ++ s.user.recordingFile.toList }

/-- `user_stopRecord` -/
def userStopRecord : State :=
  if s.user.recordingFile.isSome then s.userHandleStopRecording overflow else s

/-- `user_gc` -/
def userGc : State :=
  let s := if s.user.recordingFile.isSome then s.userHandleStopRecording overflow else s
  { s with collected := true }

/-- Both `mumble_handle_speaking_hooks` functions, up to their first hook. -/
def mumbleHandleSpeakingHooks (isTerminator : Bool) : State :=
  let speaking := !isTerminator
  let oneFrame := s.user.speaking == false && speaking == false
  let stateChange := s.user.speaking != speaking
  let s := if stateChange then { s with user := { s.user with speaking := speaking } } else s
  let stops := oneFrame || (stateChange && !speaking)
  if oneFrame || (stateChange && speaking) then
    { s with handlers := ⟨stops, .starting⟩ :: s.handlers, speech := true }
  else { s with handlers := ⟨stops, .speaking⟩ :: s.handlers }

/-- Behind `OnUserStartSpeaking`. The decoded packet that is recorded is left out. -/
def startReturned (handler : Handler) : State :=
  let s := s.mumbleHandleRecordSilence overflow
  { s with handlers := { handler with stage := .speaking } :: s.handlers, covered := s.speech }

/-- Behind `OnUserSpeak`. -/
def speakReturned (handler : Handler) : State :=
  if handler.stops then
    { s with handlers := { handler with stage := .stopping } :: s.handlers, speech := false }
  else s

/-- Behind `OnUserStopSpeaking`. -/
def stopReturned : State :=
  { s with user := { s.user with lastSpoke := s.now }, covered := s.speech }

/-- The innermost packet goes on behind its hook. -/
def hookReturned : State :=
  match s.handlers with
  | [] => s
  | handler :: rest =>
      let s := { s with handlers := rest }
      match handler.stage with
      | .starting => s.startReturned overflow handler
      | .speaking => s.speakReturned handler
      | .stopping => s.stopReturned

/-- Time passes between the packets. -/
def pass (milliseconds : Nat) : State :=
  if s.handlers.isEmpty then
    let recordingFile := s.user.recordingFile.map fun recording =>
      if s.speech then recording
      else { recording with quiet := recording.quiet + milliseconds }
    { s with
      now := s.now + milliseconds
      user := { s.user with recordingFile := recordingFile } }
  else s

end State

/-- One event. The packets of a removed user are of another object, the collector takes removed
users between packets, and nothing comes behind the collection. -/
def step (overflow : Nat → Int32) (s : State) (e : Event) : Unit × State :=
  ((), if s.collected then s
    else
      match e with
      | .pass milliseconds => s.pass milliseconds
      | .packet isTerminator =>
          if s.removed then s else s.mumbleHandleSpeakingHooks isTerminator
      | .hookReturned => s.hookReturned overflow
      | .startRecord opened => s.userStartRecord opened
      | .stopRecord => s.userStopRecord overflow
      | .remove => { s with removed := true }
      | .collect => if s.handlers.isEmpty && s.removed then s.userGc overflow else s)

/-- Silence that is written to a recording here was not written before, and no sample of it gets
lost; or no time has passed since `last_spoke`. -/
def WritesOnce (s : State) : Prop :=
  s.user.recordingFile.isSome = true →
    if s.covered then s.now = s.user.lastSpoke else Measured (s.now - s.user.lastSpoke)

/-- Where `last_spoke` is set behind `OnUserStopSpeaking`, no silence of a recording is still to
be written. -/
def LosesNone (s : State) : Prop :=
  s.user.recordingFile.isSome = true → s.covered = true ∨ s.now = s.user.lastSpoke

/-- Silence is written once and in full. -/
def KeepsTime (s : State) : Event → Prop
  | .hookReturned => ∀ handler ∈ s.handlers.head?,
      (handler.stage = .starting → WritesOnce s) ∧ (handler.stage = .stopping → LosesNone s)
  | .stopRecord => WritesOnce s
  | .collect => s.removed = true → WritesOnce s
  | _ => True

instance (s : State) : Decidable (WritesOnce s) :=
  inferInstanceAs (Decidable (_ → _))

instance (s : State) : Decidable (LosesNone s) :=
  inferInstanceAs (Decidable (_ → _))

instance (s : State) : ∀ e, Decidable (KeepsTime s e)
  | .pass _ | .packet _ | .startRecord _ | .remove => .isTrue trivial
  | .hookReturned => inferInstanceAs (Decidable (∀ handler ∈ s.handlers.head?, _))
  | .stopRecord => inferInstanceAs (Decidable (WritesOnce s))
  | .collect => inferInstanceAs (Decidable (_ → _))

section Packets

/-! Packets go through their hooks as in the handlers of whole packets. -/

variable {overflow : Nat → Int32} {session : UInt32} {s : State} {nesting : Nesting}

/-- What is kept of a handler. -/
def Handler.of (handler : Voice.Handler) : Handler :=
  ⟨handler.oneFrame || (handler.stateChange && !handler.packet.speaking), handler.stage⟩

/-- The same user in the same hooks. -/
structure SameHooks (session : UInt32) (s : State) (nesting : Nesting) : Prop where
  received : ∀ handler ∈ nesting.handlers, handler.packet.dataNull = false
  speaking : s.user.speaking = isSpeaking nesting.client session
  handlers : s.handlers = nesting.handlers.map Handler.of

/-- Whether the user is in a speech behind the hooks called. -/
def speechBehind (speech : Bool) (called : Called) : Bool :=
  called.foldl (fun speech hook =>
    match hook.2 with
    | .start => true
    | .speak => speech
    | .stop => false) speech

theorem recordSilence_handlers (s : State) (handlers : List Handler) :
    State.mumbleHandleRecordSilence overflow { s with handlers := handlers } =
      { s.mumbleHandleRecordSilence overflow with handlers := handlers } := by
  simp only [State.mumbleHandleRecordSilence]
  cases s.user.recordingFile with
  | none => rfl
  | some recording =>
      dsimp only
      split
      · rfl
      · rfl

theorem recordSilence_kept (overflow : Nat → Int32) (s : State) :
    (s.mumbleHandleRecordSilence overflow).user.speaking = s.user.speaking ∧
      (s.mumbleHandleRecordSilence overflow).speech = s.speech := by
  unfold State.mumbleHandleRecordSilence
  split
  · exact ⟨rfl, rfl⟩
  · dsimp only
    split
    · exact ⟨rfl, rfl⟩
    · exact ⟨rfl, rfl⟩

/-- A packet begins with the same hook. -/
theorem SameHooks.packet (h : SameHooks session s nesting) {packet : VoicePacket}
    (hnull : packet.dataNull = false) :
    let handled := s.mumbleHandleSpeakingHooks !packet.speaking
    let next := nesting.mumbleHandleSpeakingHooks session packet
    SameHooks session handled next.2 ∧ handled.speech = speechBehind s.speech next.1 := by
  intro handled next
  obtain ⟨client, handler, hclient, -, rfl, hstage, hstops, hspec⟩ :=
    mumbleHandleSpeakingHooks_spec session nesting packet
  have hspeaking := h.speaking
  have hnext : next = _ := hspec
  rw [← hspeaking] at hnext
  simp only [handled, State.mumbleHandleSpeakingHooks, hnext, Nesting.onUserSpeak, hnull]
  cases hwas : s.user.speaking <;> cases hpacket : handler.packet.speaking
  all_goals
    rw [hpacket] at hclient hstops
    refine ⟨⟨?_, ?_, ?_⟩, ?_⟩
    · simpa [hnull] using h.received
    · simp [hwas, hclient]
    · simpa [Handler.of, h.handlers, hpacket, hstage] using hstops
    · rfl

/-- It goes on with the same hook. -/
theorem SameHooks.hookReturned (h : SameHooks session s nesting) :
    let handled := s.hookReturned overflow
    let next := nesting.hookReturned
    SameHooks session handled next.2 ∧ handled.speech = speechBehind s.speech next.1 := by
  intro handled next
  have hreceived := h.received
  have hsame := h.handlers
  cases hhandlers : nesting.handlers with
  | nil =>
      rw [hhandlers, List.map_nil] at hsame
      simp only [handled, next, State.hookReturned, Nesting.hookReturned, hsame, hhandlers]
      exact ⟨h, rfl⟩
  | cons handler rest =>
      rw [hhandlers, List.map_cons] at hsame
      rw [hhandlers] at hreceived
      have hhandler := hreceived handler List.mem_cons_self
      have hrest : ∀ handler ∈ rest, handler.packet.dataNull = false := fun other hother =>
        hreceived other (List.mem_cons_of_mem _ hother)
      cases hstage : handler.stage with
      | starting =>
          obtain ⟨hspeaking, hspeech⟩ := recordSilence_kept overflow s
          simp only [handled, next, State.hookReturned, Nesting.hookReturned, hsame, hhandlers,
            Handler.of, hstage, State.startReturned, recordSilence_handlers, Nesting.onUserSpeak,
            hhandler]
          exact ⟨⟨by simpa [hhandler] using hrest, by simpa [hspeaking] using h.speaking,
            by simp [Handler.of]⟩, by simp [speechBehind, hspeech]⟩
      | speaking =>
          simp only [handled, next, State.hookReturned, Nesting.hookReturned, hsame, hhandlers,
            Handler.of, hstage, State.speakReturned, Nesting.onUserStopSpeaking]
          split
          · exact ⟨⟨by simpa [hhandler] using hrest, h.speaking, by simp [Handler.of]⟩, rfl⟩
          · exact ⟨⟨hrest, h.speaking, rfl⟩, rfl⟩
      | stopping =>
          simp only [handled, next, State.hookReturned, Nesting.hookReturned, hsame, hhandlers,
            Handler.of, hstage, State.stopReturned]
          exact ⟨⟨hrest, h.speaking, rfl⟩, rfl⟩

end Packets

section Samples

variable {d : Nat}

/-- The shifted duration: 53 bits before the point when it is divided by 1000, and at least 37
zeros at the end. -/
theorem shifted_eq (hpos : 0 < d) (hsmall : d < 22369622) :
    ∃ m, d * 2 ^ BinaryFraction.quotientShift 53 d 1000 = 2 ^ 37 * m ∧
      2 ^ 37 ≤ 2 ^ BinaryFraction.quotientShift 53 d 1000 ∧
      2 ^ 37 * m < 1000 * 2 ^ 53 ∧ 1000 * 2 ^ 53 ≤ 2 * (2 ^ 37 * m) := by
  obtain ⟨hbelow, habove⟩ :=
    BinaryFraction.quotientShift_bounds (p := 53) (d := 1000) hpos (by omega)
  generalize hk : BinaryFraction.quotientShift 53 d 1000 = k at *
  have hshift : 37 ≤ k := by
    by_contra hless
    have hpow : 2 ^ k ≤ 2 ^ 36 := Nat.pow_le_pow_right (by omega) (by omega)
    have hproduct := Nat.mul_le_mul (Nat.le_of_lt hsmall) hpow
    omega
  obtain ⟨j, rfl⟩ := Nat.exists_eq_add_of_le hshift
  have heq : d * 2 ^ (37 + j) = 2 ^ 37 * (d * 2 ^ j) := by ring
  refine ⟨d * 2 ^ j, heq, Nat.pow_le_pow_right (by omega) (by omega), ?_, ?_⟩
  · omega
  · omega

/-- The unit of a product near 48 samples a millisecond: below and above 2^68, which is no
multiple of three. -/
theorem unit_of_near {m n : Nat} (hbelow : 2 ^ 37 * m < 1000 * 2 ^ 53)
    (habove : 1000 * 2 ^ 53 ≤ 2 * (2 ^ 37 * m)) (hlow : 48 * (2 ^ 37 * m) ≤ n + 24000)
    (hhigh : n ≤ 48 * (2 ^ 37 * m) + 24000) :
    unit 53 n = if 3 * (2 ^ 37 * m) < 2 ^ 64 then 2 ^ 15 else 2 ^ 16 := by
  split
  · have hsize : n.size = 68 := by
      apply Nat.le_antisymm
      · apply Nat.size_le.mpr
        omega
      · apply Nat.lt_size.mpr
        omega
    rw [unit, hsize]
  · have hsize : n.size = 69 := by
      apply Nat.le_antisymm
      · apply Nat.size_le.mpr
        omega
      · apply Nat.lt_size.mpr
        omega
    rw [unit, hsize]

/-- The seconds, times 48000 and rounded, reach 48 samples a millisecond just when the duration
is measured, and are at most a little more. -/
theorem product_reaches_iff {m : Nat} (hbelow : 2 ^ 37 * m < 1000 * 2 ^ 53)
    (habove : 1000 * 2 ^ 53 ≤ 2 * (2 ^ 37 * m)) :
    (48 * (2 ^ 37 * m) ≤
        roundNearestEven 53 (BinaryFraction.divNearestEven (2 ^ 37 * m) 1000 * 48000) ↔
      ¬ (3 * (2 ^ 37 * m) < 2 ^ 64 ∧ 341 < 2 ^ 37 * m % 1000 ∧ 2 ^ 37 * m % 1000 < 500)) ∧
      roundNearestEven 53 (BinaryFraction.divNearestEven (2 ^ 37 * m) 1000 * 48000) ≤
        48 * (2 ^ 37 * m) + 2 ^ 17 := by
  have hsplit := Nat.div_add_mod (2 ^ 37 * m) 1000
  have hrest : 2 ^ 37 * m % 1000 < 1000 := Nat.mod_lt _ (by omega)
  -- the remainder is a multiple of 8, so it is not half of 1000
  have heven : 2 ^ 37 * m % 1000 ≠ 500 := by omega
  have hdvd : 2 ^ 17 ∣ 48 * (2 ^ 37 * m) := ⟨48 * 2 ^ 20 * m, by ring⟩
  rcases Nat.lt_or_ge (2 ^ 37 * m % 1000) 500 with hdown | hup
  · rw [BinaryFraction.divNearestEven_of_gt (by omega)]
    generalize hn : 2 ^ 37 * m / 1000 * 48000 = n
    have hunit := unit_of_near hbelow habove (n := n) (by omega) (by omega)
    have hround := roundNearestEven_le (p := 53) (n := n)
    have hreach : 2 * unit 53 n ∣ 48 * (2 ^ 37 * m) → n ≤ 48 * (2 ^ 37 * m) →
        (48 * (2 ^ 37 * m) ≤ roundNearestEven 53 n ↔ 2 * (48 * (2 ^ 37 * m) - n) ≤ unit 53 n) :=
      le_roundNearestEven_iff
    rw [hunit] at hround hreach
    split at hround
    · rename_i hsmall
      rw [if_pos hsmall] at hreach
      rw [hreach (dvd_trans ⟨2, by norm_num⟩ hdvd) (by omega)]
      omega
    · rename_i hlarge
      rw [if_neg hlarge] at hreach
      rw [hreach hdvd (by omega)]
      omega
  · rw [BinaryFraction.divNearestEven_of_lt (by omega)]
    generalize hn : (2 ^ 37 * m / 1000 + 1) * 48000 = n
    have hunit := unit_of_near hbelow habove (n := n) (by omega) (by omega)
    have hround := roundNearestEven_le (p := 53) (n := n)
    have hreach : 48 * (2 ^ 37 * m) ≤ roundNearestEven 53 n := by
      apply le_roundNearestEven
      · rw [hunit]
        split
        · exact dvd_trans ⟨4, by norm_num⟩ hdvd
        · exact dvd_trans ⟨2, by norm_num⟩ hdvd
      · omega
    rw [hunit] at hround
    refine ⟨iff_of_true hreach (by omega), ?_⟩
    split at hround
    · omega
    · omega

theorem silenceSamples_zero (overflow : Nat → Int32) : silenceSamples overflow 0 = 0 := by
  have hround : roundNearestEven 53 0 = 0 :=
    roundNearestEven_eq_iff.mpr (representable_of_lt (by norm_num))
  simp [silenceSamples, hround, BinaryFraction.ofQuotient, BinaryFraction.divNearestEven,
    BinaryFraction.times, BinaryFraction.trunc]

/-- A millisecond of silence is 96 samples just when the duration is measured. -/
theorem silenceSamples_eq_iff (overflow : Nat → Int32) :
    silenceSamples overflow d = 96 * d ↔ Measured d := by
  rcases Nat.lt_or_ge d 22369622 with hsmall | hlarge
  · rcases Nat.eq_zero_or_pos d with rfl | hpos
    · rw [silenceSamples_zero]
      exact iff_of_true rfl ⟨by omega, by simp⟩
    · obtain ⟨m, hshifted, hshift, hbelow, habove⟩ := shifted_eq hpos hsmall
      obtain ⟨hreaches, hmost⟩ := product_reaches_iff hbelow habove
      have hexact : roundNearestEven 53 d = d :=
        roundNearestEven_eq_iff.mpr (representable_of_lt (by omega))
      have hquotient : BinaryFraction.ofQuotient 53 d 1000 =
          ⟨BinaryFraction.divNearestEven (2 ^ 37 * m) 1000,
            BinaryFraction.quotientShift 53 d 1000⟩ := by
        rw [BinaryFraction.ofQuotient, if_pos (by omega), hshifted]
      -- the second product is exact
      have hdouble (n : Nat) : roundNearestEven 53 (roundNearestEven 53 n * 2) =
          roundNearestEven 53 n * 2 :=
        roundNearestEven_eq_iff.mpr (representable_roundNearestEven (by norm_num)).mul_two
      unfold Measured
      simp only [hshifted, hsmall, true_and]
      rw [← hreaches]
      simp only [silenceSamples, hexact, hquotient, BinaryFraction.times, BinaryFraction.trunc,
        audioSampleRate, audioPlaybackChannels, hdouble]
      generalize roundNearestEven 53
        (BinaryFraction.divNearestEven (2 ^ 37 * m) 1000 * 48000) = product at *
      generalize 2 ^ BinaryFraction.quotientShift 53 d 1000 = unit at *
      have hscaled : unit * (96 * d) = 96 * (2 ^ 37 * m) := by
        rw [← hshifted]
        ring
      have hmore : product * 2 / unit < 96 * d + 1 := by
        apply Nat.div_lt_of_lt_mul
        rw [Nat.mul_add, hscaled]
        omega
      rw [if_pos (by omega)]
      constructor
      · intro heq
        have hall := Nat.mul_div_le (product * 2) unit
        have heq : product * 2 / unit = 96 * d := by omega
        rw [heq, hscaled] at hall
        omega
      · intro hall
        have hless : 96 * d ≤ product * 2 / unit := by
          apply (Nat.le_div_iff_mul_le (by omega)).mpr
          rw [Nat.mul_comm, hscaled]
          omega
        omega
  · refine iff_of_false ?_ ?_
    · intro heq
      have hless : silenceSamples overflow d < 2 ^ 31 := by
        simp only [silenceSamples]
        split
        · omega
        · exact Int32.toInt_lt _
      omega
    · rintro ⟨hshort, -⟩
      omega

end Samples

section Runs

variable {overflow : Nat → Int32} {s : State}

/-- The silence before a speech is written or not as `covered` says except in the hooks at its
ends. -/
def State.Between (s : State) : Prop :=
  s.covered = s.speech ∨ ∃ handler ∈ s.handlers, handler.stage ≠ .speaking

/-- In `OnUserStartSpeaking` the user speaks, or has stopped at this time. -/
def State.Current (s : State) : Prop :=
  s.user.lastSpoke = s.now ∨
    ∀ handler ∈ s.handlers.find? (fun handler => handler.stage ≠ .speaking),
      handler.stage = .starting → s.speech = true

/-- What was written, and what is due since `last_spoke` where it is not covered, is the silence
so far. -/
structure Kept (s : State) : Prop where
  between : s.Between
  current : s.Current
  spoke : s.user.recordingFile.isSome = true → s.user.lastSpoke ≤ s.now
  balance : ∀ recording, s.user.recordingFile = some recording →
    recording.written + (if s.covered then 0 else 96 * (s.now - s.user.lastSpoke)) =
      96 * recording.quiet
  finished : ∀ recording ∈ s.finished, recording.written = 96 * recording.quiet

theorem kept_created (now lastSpoke : Nat) : Kept (created now lastSpoke) :=
  ⟨Or.inl rfl, Or.inr nofun, nofun, nofun, nofun⟩

theorem recordSilence_of_none (hnone : s.user.recordingFile = none) :
    s.mumbleHandleRecordSilence overflow = s := by
  simp only [State.mumbleHandleRecordSilence, hnone]

/-- Measured silence is written in full. -/
theorem recordSilence_of_measured {recording : Recording}
    (hfile : s.user.recordingFile = some recording)
    (hmeasured : Measured (s.now - s.user.lastSpoke)) :
    s.mumbleHandleRecordSilence overflow =
      { s with user := { s.user with
        recordingFile :=
          some { recording with
            written := recording.written + 96 * (s.now - s.user.lastSpoke) } } } := by
  have hsamples := (silenceSamples_eq_iff overflow).mpr hmeasured
  have htoNat : (96 * ((s.now - s.user.lastSpoke : Nat) : Int)).toNat =
      96 * (s.now - s.user.lastSpoke) := by omega
  simp only [State.mumbleHandleRecordSilence, hfile, hsamples]
  split
  · rw [htoNat]
  · rename_i hnone
    have hzero : s.now - s.user.lastSpoke = 0 := by omega
    rw [hzero, Nat.mul_zero, Nat.add_zero, ← hfile]

theorem WritesOnce.measured (hwrites : WritesOnce s)
    (hopen : s.user.recordingFile.isSome = true) : Measured (s.now - s.user.lastSpoke) := by
  have hhere := hwrites hopen
  split at hhere
  · rw [hhere, Nat.sub_self]
    decide
  · exact hhere

/-- Silence that is written once makes the samples of the recording those of all the silence. -/
theorem Kept.recordSilence (overflow : Nat → Int32) (h : Kept s) (hwrites : WritesOnce s)
    {recording : Recording} (hfile : s.user.recordingFile = some recording) :
    ∃ written, written = 96 * recording.quiet ∧ s.mumbleHandleRecordSilence overflow =
      { s with user := { s.user with recordingFile := some ⟨written, recording.quiet⟩ } } := by
  have hopen : s.user.recordingFile.isSome = true := by
    rw [hfile]
    rfl
  have hbalance := h.balance recording hfile
  refine ⟨_, ?_, recordSilence_of_measured hfile (hwrites.measured hopen)⟩
  have hhere := hwrites hopen
  cases hcovered : s.covered with
  | true =>
      rw [hcovered, if_pos rfl] at hbalance hhere
      omega
  | false =>
      rw [hcovered, if_neg Bool.false_ne_true] at hbalance
      exact hbalance

/-- The end of a recording. -/
theorem Kept.userHandleStopRecording (h : Kept s) (hwrites : WritesOnce s) :
    Kept (s.userHandleStopRecording overflow) := by
  unfold State.userHandleStopRecording
  cases hfile : s.user.recordingFile with
  | none =>
      rw [recordSilence_of_none hfile]
      dsimp only
      rw [hfile, Option.toList_none, List.append_nil]
      exact ⟨h.between, h.current, nofun, nofun, h.finished⟩
  | some recording =>
      obtain ⟨written, hwritten, hsilence⟩ := h.recordSilence overflow hwrites hfile
      rw [hsilence]
      refine ⟨h.between, h.current, nofun, nofun, ?_⟩
      intro last hlast
      rcases List.mem_append.mp hlast with hbefore | hnew
      · exact h.finished last hbefore
      · rw [Option.toList_some, List.mem_singleton] at hnew
        subst hnew
        exact hwritten

theorem Kept.userStopRecord (h : Kept s) (hwrites : WritesOnce s) :
    Kept (s.userStopRecord overflow) := by
  unfold State.userStopRecord
  split
  · exact h.userHandleStopRecording hwrites
  · exact h

theorem Kept.userGc (h : Kept s) (hwrites : WritesOnce s) : Kept (s.userGc overflow) := by
  unfold State.userGc
  dsimp only
  split
  · have hstopped : Kept (s.userHandleStopRecording overflow) :=
      h.userHandleStopRecording hwrites
    exact ⟨hstopped.between, hstopped.current, hstopped.spoke, hstopped.balance,
      hstopped.finished⟩
  · exact ⟨h.between, h.current, h.spoke, h.balance, h.finished⟩

/-- A recording may be started at any time: what is due is counted from now on. -/
theorem Kept.userStartRecord (h : Kept s) (opened : Bool) : Kept (s.userStartRecord opened) := by
  unfold State.userStartRecord
  split
  · exact h
  · split
    · refine ⟨h.between, Or.inl rfl, fun _ => Nat.le_refl _, ?_, h.finished⟩
      rintro recording ⟨⟩
      simp
    · exact h

/-- A packet begins, which writes nothing. -/
theorem Kept.packet (h : Kept s) (isTerminator : Bool) :
    Kept (s.mumbleHandleSpeakingHooks isTerminator) := by
  have hstart (user : MumbleUser) (stops : Bool) (hspoke : user.lastSpoke = s.user.lastSpoke)
      (hfile : user.recordingFile = s.user.recordingFile) :
      Kept { s with
        user := user, handlers := ⟨stops, .starting⟩ :: s.handlers, speech := true } := by
    refine ⟨Or.inr ⟨_, List.mem_cons_self, ?_⟩, Or.inr fun _ _ _ => rfl, ?_, ?_, h.finished⟩
    · intro hstage
      cases hstage
    · dsimp only
      rw [hspoke, hfile]
      exact h.spoke
    · dsimp only
      rw [hspoke, hfile]
      exact h.balance
  have hspeak (user : MumbleUser) (stops : Bool) (hspoke : user.lastSpoke = s.user.lastSpoke)
      (hfile : user.recordingFile = s.user.recordingFile) :
      Kept { s with user := user, handlers := ⟨stops, .speaking⟩ :: s.handlers } := by
    refine ⟨h.between.imp id ?_, ?_, ?_, ?_, h.finished⟩
    · rintro ⟨handler, hin, hstage⟩
      exact ⟨handler, List.mem_cons_of_mem _ hin, hstage⟩
    · have hcurrent := h.current
      unfold State.Current at hcurrent ⊢
      dsimp only
      rw [hspoke]
      exact hcurrent
    · dsimp only
      rw [hspoke, hfile]
      exact h.spoke
    · dsimp only
      rw [hspoke, hfile]
      exact h.balance
  unfold State.mumbleHandleSpeakingHooks
  cases s.user.speaking with
  | true =>
      cases isTerminator with
      | true => exact hspeak _ _ rfl rfl
      | false => exact hspeak _ _ rfl rfl
  | false =>
      cases isTerminator with
      | true => exact hstart _ _ rfl rfl
      | false => exact hstart _ _ rfl rfl

section Returns

variable {handler : Handler} {rest : List Handler}

theorem State.Current.starting (h : s.Current) (hhandlers : s.handlers = handler :: rest)
    (hstage : handler.stage = .starting) : s.user.lastSpoke = s.now ∨ s.speech = true := by
  refine h.imp id ?_
  intro hspeech
  apply hspeech handler
  · rw [hhandlers, List.find?_cons_of_pos (by simp [hstage])]
    rfl
  · exact hstage

/-- The silence before a speech is written behind `OnUserStartSpeaking`. -/
theorem Kept.startReturned (h : Kept s) (hhandlers : s.handlers = handler :: rest)
    (hstage : handler.stage = .starting) (hwrites : WritesOnce s) :
    Kept (State.startReturned overflow { s with handlers := rest } handler) := by
  have hstarting := h.current.starting hhandlers hstage
  have hcurrent (now lastSpoke : Nat) (hkept : lastSpoke = now ∨ s.speech = true) :
      lastSpoke = now ∨ ∀ other ∈ ({ handler with stage := .speaking } :: rest).find?
        (fun handler => handler.stage ≠ .speaking), other.stage = .starting → s.speech = true :=
    hkept.imp id fun hspeech _ _ _ => hspeech
  unfold State.startReturned
  rw [recordSilence_handlers]
  cases hfile : s.user.recordingFile with
  | none =>
      rw [recordSilence_of_none hfile]
      refine ⟨Or.inl rfl, hcurrent _ _ hstarting, h.spoke, ?_, h.finished⟩
      intro recording hsome
      rw [hfile] at hsome
      cases hsome
  | some recording =>
      obtain ⟨written, hwritten, hsilence⟩ := h.recordSilence overflow hwrites hfile
      rw [hsilence]
      refine ⟨Or.inl rfl, hcurrent _ _ hstarting, ?_, ?_, h.finished⟩
      · intro _
        apply h.spoke
        rw [hfile]
        rfl
      · rintro _ ⟨⟩
        dsimp only
        -- speech that has ended already has set `last_spoke`
        rcases hstarting with hnow | hspeech
        · rw [hnow, Nat.sub_self, Nat.mul_zero, ite_self]
          exact hwritten
        · rw [hspeech, if_pos rfl]
          exact hwritten

theorem Kept.speakReturned (h : Kept s) (hhandlers : s.handlers = handler :: rest)
    (hstage : handler.stage = .speaking) :
    Kept (State.speakReturned { s with handlers := rest } handler) := by
  unfold State.speakReturned
  split
  · refine ⟨Or.inr ⟨_, List.mem_cons_self, ?_⟩, Or.inr ?_, h.spoke, h.balance, h.finished⟩
    · intro hspeaking
      cases hspeaking
    · intro other hother hstarting
      rw [List.find?_cons_of_pos (by simp)] at hother
      cases hother
      cases hstarting
  · refine ⟨h.between.imp id ?_, h.current.imp id ?_, h.spoke, h.balance, h.finished⟩
    · rintro ⟨other, hin, hother⟩
      rw [hhandlers] at hin
      rcases List.mem_cons.mp hin with rfl | hrest
      · exact (hother hstage).elim
      · exact ⟨other, hrest, hother⟩
    · intro hspeech
      rwa [hhandlers, List.find?_cons_of_neg (by simp [hstage])] at hspeech

/-- The time is taken behind `OnUserStopSpeaking`. -/
theorem Kept.stopReturned (h : Kept s) (hloses : LosesNone s) :
    Kept (State.stopReturned { s with handlers := rest }) := by
  refine ⟨Or.inl rfl, Or.inl rfl, fun _ => Nat.le_refl _, ?_, h.finished⟩
  intro recording hfile
  have hbalance := h.balance recording hfile
  change recording.written + (if s.speech then 0 else 96 * (s.now - s.now)) = _
  rw [Nat.sub_self, Nat.mul_zero, ite_self]
  have hopen : s.user.recordingFile.isSome = true := Option.isSome_of_mem hfile
  rcases hloses hopen with hcovered | hnow
  · rwa [hcovered, if_pos rfl] at hbalance
  · rwa [hnow, Nat.sub_self, Nat.mul_zero, ite_self] at hbalance

end Returns

/-- A hook returns. -/
theorem Kept.hookReturned (h : Kept s) (htime : KeepsTime s .hookReturned) :
    Kept (s.hookReturned overflow) := by
  unfold State.hookReturned
  cases hhandlers : s.handlers with
  | nil => exact h
  | cons handler rest =>
      obtain ⟨hwrites, hloses⟩ := htime handler (by rw [hhandlers]; rfl)
      cases hstage : handler.stage with
      | starting =>
          simp only [hstage]
          exact h.startReturned hhandlers hstage (hwrites hstage)
      | speaking =>
          simp only [hstage]
          exact h.speakReturned hhandlers hstage
      | stopping =>
          simp only [hstage]
          exact h.stopReturned (hloses hstage)

/-- Time passes: the recording is due silence where the user does not speak. -/
theorem Kept.pass (h : Kept s) (milliseconds : Nat) : Kept (s.pass milliseconds) := by
  unfold State.pass
  split
  · rename_i houtside
    rw [List.isEmpty_iff] at houtside
    have hbetween : s.covered = s.speech := by
      apply h.between.resolve_right
      rw [houtside]
      rintro ⟨handler, hin, -⟩
      cases hin
    refine ⟨Or.inl hbetween, Or.inr ?_, ?_, ?_, h.finished⟩
    · dsimp only
      rw [houtside]
      intro handler hnone
      cases hnone
    · intro hsome
      rw [Option.isSome_map] at hsome
      exact Nat.le_add_right_of_le (h.spoke hsome)
    · intro recording hsome
      obtain ⟨before, hbefore, rfl⟩ := Option.map_eq_some_iff.mp hsome
      have hdue := h.balance before hbefore
      have hspoke := h.spoke (by rw [hbefore]; rfl)
      dsimp only
      rw [hbetween] at hdue ⊢
      cases hspeech : s.speech with
      | true =>
          rw [hspeech, if_pos rfl] at hdue
          exact hdue
      | false =>
          rw [hspeech, if_neg Bool.false_ne_true] at hdue
          rw [if_neg Bool.false_ne_true, if_neg Bool.false_ne_true]
          dsimp only
          omega
  · exact h

theorem Kept.step (h : Kept s) {e : Event} (htime : KeepsTime s e) :
    Kept (step overflow s e).2 := by
  unfold Timeline.step
  dsimp only
  split
  · exact h
  · cases e with
    | pass milliseconds => exact h.pass milliseconds
    | packet isTerminator =>
        dsimp only
        split
        · exact h
        · exact h.packet isTerminator
    | hookReturned => exact h.hookReturned htime
    | startRecord opened => exact h.userStartRecord opened
    | stopRecord => exact h.userStopRecord htime
    | remove => exact ⟨h.between, h.current, h.spoke, h.balance, h.finished⟩
    | collect =>
        dsimp only
        split
        · rename_i hboth
          rw [Bool.and_eq_true] at hboth
          exact h.userGc (htime hboth.2)
        · exact h

end Runs

/-- For every sequence of events of a user in which silence is written once and in full: the
samples of silence in a recording are 96 for each millisecond in which the user did not speak. -/
theorem silence_matches (overflow : Nat → Int32) (now lastSpoke : Nat) (events : List Event)
    (htime : Machine.Along (step overflow) KeepsTime (created now lastSpoke) events) :
    ∀ recording ∈ (Machine.final (step overflow) (created now lastSpoke) events).finished,
      recording.written = 96 * recording.quiet := by
  have hkept : Kept (Machine.final (step overflow) (created now lastSpoke) events) :=
    Machine.invariant_final_of_along Kept (fun _ _ h htime => h.step htime) _ events
      (kept_created now lastSpoke) htime
  exact hkept.finished

/-- A recording over three silences, with an utterance of three packets, of which the second is
handled inside the first, and one of a single packet. -/
def threeSilences : List Event :=
  [.startRecord true, .pass 10, .packet false, .hookReturned, .packet false, .hookReturned,
    .hookReturned, .pass 20, .packet true, .hookReturned, .hookReturned, .pass 40, .packet true,
    .hookReturned, .hookReturned, .hookReturned, .pass 5, .stopRecord]

theorem silence_matches_utterances :
    ⟨5280, 55⟩ ∈ (Machine.final (step fun _ => 0) (created 0 0) threeSilences).finished ∧
      (⟨5280, 55⟩ : Recording).written = 96 * (⟨5280, 55⟩ : Recording).quiet := by
  have hten : silenceSamples (fun _ => 0) 10 = 960 :=
    (silenceSamples_eq_iff _).mpr (by decide)
  have hforty : silenceSamples (fun _ => 0) 40 = 3840 :=
    (silenceSamples_eq_iff _).mpr (by decide)
  have hfive : silenceSamples (fun _ => 0) 5 = 480 :=
    (silenceSamples_eq_iff _).mpr (by decide)
  have hmeasured : Measured 10 ∧ Measured 40 ∧ Measured 5 := by decide
  have htime : Machine.Along (step fun _ => 0) KeepsTime (created 0 0) threeSilences := by
    simp [threeSilences, Machine.Along, KeepsTime, step, created, State.userStartRecord,
      State.pass, State.mumbleHandleSpeakingHooks, State.hookReturned, State.startReturned,
      State.speakReturned, State.stopReturned, State.mumbleHandleRecordSilence, WritesOnce,
      LosesNone, hten, hforty, hmeasured]
  have hmem :
      ⟨5280, 55⟩ ∈ (Machine.final (step fun _ => 0) (created 0 0) threeSilences).finished := by
    simp [threeSilences, Machine.final, step, created, State.userStartRecord, State.pass,
      State.mumbleHandleSpeakingHooks, State.hookReturned, State.startReturned,
      State.speakReturned, State.stopReturned, State.userStopRecord,
      State.userHandleStopRecording, State.mumbleHandleRecordSilence, hten, hforty, hfive]
  exact ⟨hmem, silence_matches (fun _ => 0) 0 0 threeSilences htime _ hmem⟩

/-- A recording that is stopped while the user speaks has the silence before the speech twice. -/
theorem silence_written_twice :
    ¬ ∀ (overflow : Nat → Int32) (now lastSpoke : Nat) (events : List Event),
      ∀ recording ∈ (Machine.final (step overflow) (created now lastSpoke) events).finished,
        recording.written = 96 * recording.quiet := by
  intro h
  have hten : silenceSamples (fun _ => 0) 10 = 960 :=
    (silenceSamples_eq_iff _).mpr (by decide)
  have hwrong := h (fun _ => 0) 0 0
    [.startRecord true, .pass 10, .packet false, .hookReturned, .hookReturned, .stopRecord]
    ⟨1920, 10⟩
  simp [Machine.final, step, created, State.userStartRecord, State.pass,
    State.mumbleHandleSpeakingHooks, State.hookReturned, State.startReturned,
    State.speakReturned, State.userStopRecord, State.userHandleStopRecording,
    State.mumbleHandleRecordSilence, hten] at hwrong

end LuaMumble.Voice.Timeline
