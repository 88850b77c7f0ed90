import LuaMumble.Audio.Registry

/-!
The end of a stream and the callbacks of `OnAudioStreamEnd`. `handle_audio_stream_end` rewinds
the stream, calls the hook, and then takes the stream out of the list, whatever the callbacks
did with it: a callback that plays the stream again finds it in the list still, so that `play`
sets a flag and no more, and what follows the hook takes it back.

The hook runs on the main thread, which has pinned the stream and locked its mutex. The buffer
thread goes on meanwhile.
-/

namespace LuaMumble.Audio.EndHook

open Lib

variable {ι : Type} [DecidableEq ι]

/-- The members of an `AudioStream` beside those of its references: the samples in its ring,
the position of its file, its member `end`, its loop setting and its fade. -/
structure Playback where
  used : Nat
  position : Nat
  atEnd : Bool
  looping : Bool
  loopCount : Int
  fadeFrames : Int
  fadeFramesLeft : Int
  fadeStop : Bool

structure State (ι : Type) where
  streams : Registry.State ι
  playback : ι → Playback

def State.modify (s : State ι) (sound : ι) (f : Playback → Playback) : State ι :=
  { s with playback := Function.update s.playback sound (f (s.playback sound)) }

/-- The methods of a stream; the frames of a fade are those of its time. -/
inductive Method where
  | play
  | pause
  | stop
  | seek (position : Nat)
  | setLooping (looping : Bool) (loopCount : Int)
  | fadeTo (frames : Int)
  | fadeOut (frames : Int)
deriving DecidableEq

/-- What the buffer thread does with a stream: it pins it, reads of its file into its ring, or
unpins it. -/
inductive BufferStep (ι : Type) where
  | pin (target : ι)
  | fill (target : ι) (frames : Nat)
  | unpin (target : ι)

/-- What happens while the hook runs. -/
inductive Event (ι : Type) where
  | call (method : Method) (target : ι)
  | buffer (step : BufferStep ι)

/-- `audiostream_reset_playback_state`, without the flag `playing`. -/
def Playback.reset (p : Playback) : Playback :=
  { p with
    used := 0
    position := 0
    atEnd := false
    fadeFrames := 0
    fadeFramesLeft := 0
    fadeStop := false }

/-- `audio_transmission_unreference_locked` -/
def audioTransmissionUnreferenceLocked (sound : ι) (s : State ι) : State ι :=
  { s.modify sound Playback.reset with
    streams := Registry.audioTransmissionUnreferenceLocked sound s.streams }

/-- What a method of a stream does. -/
def Method.effect (registryRef : Mixer.RegistryRef) (target : ι) (s : State ι) :
    Method → State ι
  | .play =>
      { s.modify target Playback.reset with
        streams := Registry.audiostreamPlay registryRef target s.streams }
  | .pause => { s with streams := Registry.audiostreamPause target s.streams }
  | .stop =>
      if (s.streams.sounds target).playing then audioTransmissionUnreferenceLocked target s else s
  | .seek position => s.modify target fun p => { p with position := position }
  | .setLooping looping loopCount =>
      s.modify target fun p => { p with looping := looping, loopCount := loopCount }
  | .fadeTo frames =>
      s.modify target fun p => { p with fadeFrames := frames, fadeFramesLeft := frames }
  | .fadeOut frames =>
      s.modify target fun p =>
        { p with fadeFrames := frames, fadeFramesLeft := frames, fadeStop := true }

def BufferStep.effect (s : State ι) : BufferStep ι → State ι
  | .pin target => { s with streams := Registry.bufferPin target s.streams }
  | .fill target frames =>
      s.modify target fun p =>
        { p with used := p.used + 2 * frames, position := p.position + frames }
  | .unpin target => { s with streams := Registry.bufferUnpin target s.streams }

def Event.effect (registryRef : Mixer.RegistryRef) (s : State ι) : Event ι → State ι
  | .call method target => method.effect registryRef target s
  | .buffer step => step.effect s

/-- The stop of a stream locks its mutex. -/
def Event.stops (s : State ι) (target : ι) : Event ι → Bool
  | .call .stop other => decide (other = target) && (s.streams.sounds target).playing
  | _ => false

/-- What happens at the end of `sound`: there is no way on from a stop of this stream, whose
mutex the main thread has locked. -/
def Event.run (registryRef : Mixer.RegistryRef) (sound : ι) (s : State ι) (e : Event ι) :
    Option (State ι) :=
  if e.stops s sound then none else some (e.effect registryRef s)

/-- `mumble_hook_call` of `OnAudioStreamEnd` -/
def callHook (registryRef : Mixer.RegistryRef) (sound : ι) (events : List (Event ι))
    (s : State ι) : Option (State ι) :=
  events.foldlM (Event.run registryRef sound) s

/-- `handle_audio_stream_end`, with its `didLoop`. -/
def handleAudioStreamEnd (registryRef : Mixer.RegistryRef) (sound : ι) (events : List (Event ι))
    (s : State ι) : Option (State ι × Bool) :=
  let s := s.modify sound fun p => { p with position := 0, atEnd := false }
  if (s.playback sound).looping then some (s, true)
  else if 0 < (s.playback sound).loopCount then
    some (s.modify sound fun p => { p with loopCount := p.loopCount - 1 }, true)
  else
    (callHook registryRef sound events s).map fun s =>
      (audioTransmissionUnreferenceLocked sound s, false)

/-- The stream plays from its first frame, with one node in `stream_list` for a reference that
is in use. -/
structure Restarted (s : State ι) (sound : ι) : Prop where
  playing : (s.streams.sounds sound).playing = true
  listed : ∃ ref ∈ s.streams.registry, (s.streams.sounds sound).refrence = some ref ∧
    LinkList.indices s.streams.streamList sound = [some ref]
  first : (s.playback sound).position = 0
  empty : (s.playback sound).used = 0
  unended : (s.playback sound).atEnd = false

/-- The stream is out of `stream_list`, and at its beginning. -/
structure Removed (s : State ι) (sound : ι) : Prop where
  playing : (s.streams.sounds sound).playing = false
  unlisted : LinkList.indices s.streams.streamList sound = []
  refrence : (s.streams.sounds sound).refrence = none
  first : (s.playback sound).position = 0
  empty : (s.playback sound).used = 0

/-- The calls that start, pause or stop the stream. -/
def Event.Controls (sound : ι) : Event ι → Prop
  | .call .play target => target = sound
  | .call .pause target => target = sound
  | .call .stop target => target = sound
  | _ => False

/-- What is asked of the end of a stream that does not loop. -/
structure Works (registryRef : Mixer.RegistryRef) (sound : ι) (events : List (Event ι))
    (s : State ι) : Prop where
  restarts : .call .play sound ∈ events → ∃ s' didLoop,
    handleAudioStreamEnd registryRef sound events s = some (s', didLoop) ∧ Restarted s' sound
  removes : (∀ e ∈ events, ¬ e.Controls sound) → ∃ s' didLoop,
    handleAudioStreamEnd registryRef sound events s = some (s', didLoop) ∧ Removed s' sound

section Steps

variable {sound : ι} {s : State ι}

/-- What the hook finds, and what it leaves as long as nobody starts, pauses or stops the
stream. -/
structure Ongoing (s : State ι) (sound : ι) : Prop where
  inv : Registry.Inv s.streams
  playing : (s.streams.sounds sound).playing = true

theorem bufferPin_playing (target sound : ι) (s : Registry.State ι) :
    ((Registry.bufferPin target s).sounds sound).playing = (s.sounds sound).playing := by
  unfold Registry.bufferPin Registry.soundTryPin
  split
  · cases hreclaimed : (s.sounds target).reclaimed with
    | true => rfl
    | false =>
        simp only [Bool.false_eq_true, if_false, Registry.State.modify]
        by_cases hsame : sound = target
        · subst hsame
          rw [Function.update_self]
        · rw [Function.update_of_ne hsame]
  · rfl

theorem bufferUnpin_playing (target sound : ι) (s : Registry.State ι) :
    ((Registry.bufferUnpin target s).sounds sound).playing = (s.sounds sound).playing := by
  unfold Registry.bufferUnpin
  split
  · rfl
  · rw [Registry.unpin_eq]
    by_cases hsame : sound = target
    · subst hsame
      dsimp only
      rw [Function.update_self]
    · dsimp only
      rw [Function.update_of_ne hsame]

/-- A call on another stream leaves the references and the flag of this one. -/
theorem Ongoing.other (registryRef : Mixer.RegistryRef) (h : Ongoing s sound) {target : ι}
    (htarget : target ≠ sound) (method : Mixer.Method)
    (playback : ι → Playback) :
    Ongoing ⟨Registry.run registryRef method target s.streams, playback⟩ sound := by
  refine ⟨h.inv.run registryRef method, ?_⟩
  rw [(Registry.frame_run registryRef method target s.streams).sounds sound htarget.symm]
  exact h.playing

theorem Event.run_of_not_controls (registryRef : Mixer.RegistryRef) {e : Event ι}
    (he : ¬ e.Controls sound) : e.run registryRef sound s = some (e.effect registryRef s) := by
  have hstops : e.stops s sound = false := by
    cases e with
    | buffer step => rfl
    | call method target =>
        cases method with
        | stop =>
            have hother : target ≠ sound := he
            simp [Event.stops, hother]
        | _ => rfl
  rw [Event.run, hstops]
  rfl

theorem Ongoing.buffer (h : Ongoing s sound) (step : BufferStep ι) :
    Ongoing (step.effect s) sound := by
  cases step with
  | pin target =>
      refine ⟨h.inv.bufferPin, ?_⟩
      rw [BufferStep.effect, bufferPin_playing]
      exact h.playing
  | unpin target =>
      refine ⟨h.inv.bufferUnpin, ?_⟩
      rw [BufferStep.effect, bufferUnpin_playing]
      exact h.playing
  | fill target frames => exact ⟨h.inv, h.playing⟩

/-- A step lemma for the hook: the stream plays on. -/
theorem Ongoing.step (registryRef : Mixer.RegistryRef) (h : Ongoing s sound) {e : Event ι}
    (he : ¬ e.Controls sound) : Ongoing (e.effect registryRef s) sound := by
  cases e with
  | buffer step => exact h.buffer step
  | call method target =>
      cases method with
      | play => exact h.other registryRef he .play _
      | pause => exact h.other registryRef he .pause _
      | stop =>
          have hother : target ≠ sound := he
          by_cases hplaying : (s.streams.sounds target).playing = true
          · have hstop := h.other registryRef hother .stop
              (audioTransmissionUnreferenceLocked target s).playback
            simp only [Registry.run, Registry.audiostreamStop, if_pos hplaying] at hstop
            rw [Event.effect, Method.effect, if_pos hplaying]
            exact hstop
          · rw [Event.effect, Method.effect, if_neg hplaying]
            exact h
      | seek position => exact ⟨h.inv, h.playing⟩
      | setLooping looping loopCount => exact ⟨h.inv, h.playing⟩
      | fadeTo frames => exact ⟨h.inv, h.playing⟩
      | fadeOut frames => exact ⟨h.inv, h.playing⟩

theorem Ongoing.callHook (registryRef : Mixer.RegistryRef) (h : Ongoing s sound)
    {events : List (Event ι)}
    (hevents : ∀ e ∈ events, ¬ e.Controls sound) :
    ∃ s', callHook registryRef sound events s = some s' ∧ Ongoing s' sound := by
  induction events generalizing s with
  | nil => exact ⟨s, rfl, h⟩
  | cons e rest ih =>
      have he := hevents e List.mem_cons_self
      obtain ⟨last, hrest, hlast⟩ := ih (h.step registryRef he) fun later hmem =>
        hevents later (List.mem_cons_of_mem e hmem)
      refine ⟨last, ?_, hlast⟩
      rw [EndHook.callHook, List.foldlM_cons, Event.run_of_not_controls registryRef he]
      exact hrest

/-- What follows the hook. -/
theorem Ongoing.removed (h : Ongoing s sound) :
    Removed (audioTransmissionUnreferenceLocked sound s) sound := by
  have hactive := (h.inv.kept sound).playing h.playing
  obtain ⟨ref, href⟩ := Option.ne_none_iff_exists'.mp hactive
  have hkept := (h.inv.unreference hactive).kept sound
  have hnone : ((Registry.audioTransmissionUnreferenceLocked sound s.streams).sounds
      sound).refrence = none := by
    simp [Registry.unreference_eq href]
  refine ⟨?_, ?_, hnone, ?_, ?_⟩
  · simp [audioTransmissionUnreferenceLocked, Registry.unreference_eq href]
  · rw [audioTransmissionUnreferenceLocked, hkept.listed, hnone]
    rfl
  · simp [audioTransmissionUnreferenceLocked, State.modify, Playback.reset]
  · simp [audioTransmissionUnreferenceLocked, State.modify, Playback.reset]

/-- What follows the hook ends the playback, also where nothing was listed. -/
theorem unreference_playing (sound : ι) (s : State ι) :
    ((audioTransmissionUnreferenceLocked sound s).streams.sounds sound).playing = false := by
  have hreset (s : Registry.State ι) :
      ((Registry.audiostreamResetPlaybackState sound s).sounds sound).playing = false := by
    rw [Registry.audiostreamResetPlaybackState, Registry.State.modify]
    dsimp only
    rw [Function.update_self]
  simp only [audioTransmissionUnreferenceLocked]
  unfold Registry.audioTransmissionUnreferenceLocked
  extract_lets s₁ s₂ s₃ s₄
  split
  · exact hreset s₃
  · exact hreset s₃

/-- A stream that does not loop comes to the hook. -/
theorem handleAudioStreamEnd_eq (registryRef : Mixer.RegistryRef) (events : List (Event ι))
    (hlooping : (s.playback sound).looping = false)
    (hloopCount : (s.playback sound).loopCount ≤ 0) :
    handleAudioStreamEnd registryRef sound events s =
      (callHook registryRef sound events
        (s.modify sound fun p => { p with position := 0, atEnd := false })).map fun s =>
          (audioTransmissionUnreferenceLocked sound s, false) := by
  have hnot : ¬ 0 < (s.playback sound).loopCount := by omega
  simp [handleAudioStreamEnd, State.modify, hlooping, hnot]

end Steps

/-- The end of a stream works as the hook would have it if and only if no callback plays the
stream that ends, for every run before and whatever else the callbacks and the buffer thread
do. -/
theorem end_hook_works_iff (registryRef : Mixer.RegistryRef) (steps : List (Registry.Step ι))
    (sound : ι) (pinned : Registry.State ι)
    (hpin : Registry.mainPin sound
      (Machine.final (Registry.step registryRef) Registry.opened steps) = some pinned)
    (hplaying : (pinned.sounds sound).playing = true) (playback : ι → Playback)
    (hlooping : (playback sound).looping = false) (hloopCount : (playback sound).loopCount ≤ 0)
    (events : List (Event ι)) :
    Works registryRef sound events ⟨pinned, playback⟩ ↔ .call .play sound ∉ events := by
  have hrun : Registry.Inv (Machine.final (Registry.step registryRef) Registry.opened steps) :=
    Machine.invariant_final Registry.Inv (fun _ e hinv => hinv.step registryRef e) _ steps
      Registry.inv_opened
  have hend := handleAudioStreamEnd_eq (s := ⟨pinned, playback⟩) registryRef events hlooping
    hloopCount
  constructor
  · intro hworks hplay
    obtain ⟨s', didLoop, hresult, hrestarted⟩ := hworks.restarts hplay
    rw [hend] at hresult
    obtain ⟨last, hlast, hsame⟩ := Option.map_eq_some_iff.mp hresult
    have hstopped := unreference_playing sound last
    rw [show audioTransmissionUnreferenceLocked sound last = s' from congrArg Prod.fst hsame,
      hrestarted.playing] at hstopped
    cases hstopped
  · intro hplay
    refine ⟨fun hmem => absurd hmem hplay, fun hevents => ?_⟩
    have hstart : Ongoing (State.modify ⟨pinned, playback⟩ sound
        fun p => { p with position := 0, atEnd := false }) sound :=
      ⟨(hrun.mainPin hpin).1, hplaying⟩
    obtain ⟨last, hlast, hongoing⟩ := hstart.callHook registryRef hevents
    refine ⟨_, false, ?_, hongoing.removed⟩
    rw [hend, hlast]
    rfl

section Tracks

/-- The loop setting and the ring of a stream that was opened and played to its end. -/
def drained : Playback :=
  { used := 0
    position := 480
    atEnd := true
    looping := false
    loopCount := 0
    fadeFrames := 0
    fadeFramesLeft := 0
    fadeStop := false }

/-- One stream of a client plays, and the mixer has pinned it. -/
def playingPinned (sound : ι) : Registry.State ι :=
  (Registry.mainPin sound (Registry.audiostreamPlay Mixer.countOn sound Registry.opened)).getD
    Registry.opened

/-- A playlist of two tracks: the callback plays the other one, which the buffer thread pins and
fills at once. -/
theorem end_hook_works_next :
    Works Mixer.countOn false
      [.call .play true, .buffer (.pin true), .buffer (.fill true 480), .buffer (.unpin true)]
      ⟨playingPinned false, fun _ => drained⟩ :=
  (end_hook_works_iff Mixer.countOn [.call .play false] false (playingPinned false) rfl rfl
    (fun _ => drained) rfl (Int.le_refl 0) _).mpr (by simp)

/-- A playlist of one track: the track is stopped where it was to be played again. -/
theorem playlist_of_one_stops :
    ¬ ∀ (steps : List (Registry.Step Unit)) (pinned : Registry.State Unit),
      Registry.mainPin () (Machine.final (Registry.step Mixer.countOn) Registry.opened steps) =
        some pinned →
      (pinned.sounds ()).playing = true → ∀ playback : Unit → Playback,
      (playback ()).looping = false → (playback ()).loopCount ≤ 0 →
      ∀ events, Works Mixer.countOn () events ⟨pinned, playback⟩ := by
  intro h
  obtain ⟨s', didLoop, hresult, hrestarted⟩ :=
    (h [.call .play ()] (playingPinned ()) rfl rfl (fun _ => drained) rfl
      (Int.le_refl 0) [.call .play ()]).restarts List.mem_cons_self
  have hplaying : ∀ result, handleAudioStreamEnd Mixer.countOn () [.call .play ()]
      ⟨playingPinned (), fun _ => drained⟩ = some result →
      (result.1.streams.sounds ()).playing = false := by
    intro result hrun
    cases hrun
    rfl
  have hstopped := hplaying (s', didLoop) hresult
  rw [hrestarted.playing] at hstopped
  cases hstopped

end Tracks

end LuaMumble.Audio.EndHook
