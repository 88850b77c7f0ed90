import LuaMumble.Audio.EndHook
import LuaMumble.Lib.Locking

/-!
The mutexes that the main thread locks for the audio: `inner_mutex`, which guards the lists of
the client, and the mutex of each stream. The programs are those of the mixer, of the bitrate
warning, of `sound_clean_reclaimed`, of the methods of a stream and of the finalizer of a buffer,
with every lock and unlock; each goes through to where it comes without mutexes, unless it is
the stop of a stream whose mutex is held.

The nodes that the loop of the mixer comes to are given with a tick, and so is whether a stream
comes to its end there; and with each call of Lua the buffers that the collector finalizes in it.
The finalizer of a stream locks nothing, and that of a client only locks while it is connected,
when its own reference keeps it.
-/

namespace LuaMumble.Audio.Locks

open Lib
open EndHook (BufferStep Method)
open Locking (Goes Blocks read write critical outside when)
open Reclaim (listAdd listRemove)

variable {ι β : Type} [DecidableEq ι] [DecidableEq β]

/-- `inner_mutex` of the client, and the mutex of a stream. -/
inductive Mutex (ι : Type) where
  | inner
  | stream (sound : ι)
deriving DecidableEq

/-- The streams and the buffers of a client. `contexts` says which buffers have their
`AudioContext`. -/
structure State (ι β : Type) extends EndHook.State ι where
  contexts : β → Bool
  audioPipes : List β

abbrev Program (ι β : Type) : Type → Type := Locking.Program (Mutex ι) (State ι β)

omit [DecidableEq ι] [DecidableEq β] in
def writeStreams (f : Registry.State ι → Registry.State ι) : Program ι β Unit :=
  write fun s => { s with streams := f s.streams }

omit [DecidableEq β] in
def writePlayback (sound : ι) (f : EndHook.Playback → EndHook.Playback) : Program ι β Unit :=
  write fun s => { s with toState := s.toState.modify sound f }

/-- `buffer_free` -/
def bufferFree (buffer : β) : Program ι β Unit := do
  let s ← read
  when (s.contexts buffer = true) do
    critical .inner (write fun s => { s with audioPipes := s.audioPipes.erase buffer })
    write fun s => { s with contexts := Function.update s.contexts buffer false }

/-- The collector runs in a call of Lua. -/
def collect (buffers : List β) : Program ι β Unit := buffers.forM bufferFree

/-- `sound_unpin_schedule_unref_if_needed` -/
def soundUnpinScheduleUnrefIfNeeded (sound : ι) : Program ι β Unit := do
  let s ← read
  let prev := (s.streams.sounds sound).usecount
  writeStreams fun s => s.modify sound fun a => { a with usecount := a.usecount - 1 }
  let s ← read
  when (prev = 1 ∧ (s.streams.sounds sound).reclaimed = true) do
    let s ← read
    when ((s.streams.sounds sound).reclaimRef.isSome = true)
      (critical .inner (writeStreams fun s =>
        { s with reclaimList := listAdd s.reclaimList (s.sounds sound).reclaimRef sound }))

/-- The main thread drops a pin. -/
def mainUnpin (sound : ι) : Program ι β Unit := do
  writeStreams fun s =>
    { s with mainPins := Function.update s.mainPins sound (s.mainPins sound - 1) }
  soundUnpinScheduleUnrefIfNeeded sound

/-- `sound_clean_reclaimed`; `collected` are the buffers that are finalized when the reference of
a stream is given back. -/
def soundCleanReclaimed (collected : ι → List β) : Nat → Program ι β Unit
  | 0 => pure ()
  | fuel + 1 => do
      let s ← read
      match s.streams.reclaimList with
      | [] => critical .inner (pure ())
      | (idx, sound) :: _ =>
          critical .inner (writeStreams fun s =>
            { s with reclaimList := listRemove s.reclaimList idx })
          let s ← read
          match (s.streams.sounds sound).reclaimRef with
          | some ref =>
              collect (collected sound)
              writeStreams fun s => Registry.mumbleRegistryUnref ref
                (s.modify sound fun a => { a with reclaimRef := none })
              soundCleanReclaimed collected fuel
          | none => soundCleanReclaimed collected fuel

/-- The beginning of `audio_transmission_reference`. -/
def cancelReclamation (sound : ι) : Program ι β Unit := do
  let s ← read
  when ((s.streams.sounds sound).reclaimed = true) do
    writeStreams fun s => s.modify sound fun a => { a with reclaimed := false }
    let s ← read
    when ((s.streams.sounds sound).reclaimRef.isSome = true) do
      writeStreams fun s =>
        s.modify sound fun a => { a with refrence := a.reclaimRef, reclaimRef := none }
      critical .inner (writeStreams fun s =>
        { s with reclaimList := listRemove s.reclaimList (s.sounds sound).refrence })

/-- `audio_transmission_reference`; `collected` are the buffers that are finalized in
`mumble_registry_ref`. -/
def audioTransmissionReference (registryRef : Mixer.RegistryRef) (sound : ι)
    (collected : List β) : Program ι β Unit := do
  cancelReclamation sound
  collect collected
  writeStreams (Registry.ensureReference registryRef sound)
  critical .inner (writeStreams fun s =>
    { s with streamList := listAdd s.streamList (s.sounds sound).refrence sound })

/-- `audiostream_reset_playback_state` -/
def audiostreamResetPlaybackState (sound : ι) : Program ι β Unit := do
  writePlayback sound EndHook.Playback.reset
  writeStreams (Registry.audiostreamResetPlaybackState sound)

/-- `audio_transmission_unreference_locked` -/
def audioTransmissionUnreferenceLocked (sound : ι) : Program ι β Unit := do
  critical .inner (do
    let s ← read
    when ((s.streams.sounds sound).refrence.isSome = true) (writeStreams fun s =>
      { s with streamList := listRemove s.streamList (s.sounds sound).refrence }))
  writeStreams fun s => s.modify sound fun a => { a with reclaimed := true }
  let s ← read
  when ((s.streams.sounds sound).refrence.isSome = true) (writeStreams fun s =>
    s.modify sound fun a => { a with reclaimRef := a.refrence, refrence := none })
  audiostreamResetPlaybackState sound
  let s ← read
  when ((s.streams.sounds sound).usecount = 0 ∧
      (s.streams.sounds sound).reclaimRef.isSome = true)
    (critical .inner (writeStreams fun s =>
      { s with reclaimList := listAdd s.reclaimList (s.sounds sound).reclaimRef sound }))

/-- `audio_transmission_unreference` -/
def audioTransmissionUnreference (sound : ι) : Program ι β Unit :=
  critical (.stream sound) (audioTransmissionUnreferenceLocked sound)

/-- The methods of a stream; `collected` are the buffers that are finalized when `play` asks for
a reference. -/
def callMethod (registryRef : Mixer.RegistryRef) (target : ι) (collected : List β) :
    Method → Program ι β Unit
  | .play => do
      audiostreamResetPlaybackState target
      writeStreams fun s => s.modify target fun a => { a with playing := true }
      let s ← read
      when ((s.streams.sounds target).refrence.isNone = true)
        (audioTransmissionReference registryRef target collected)
  | .pause => writeStreams (Registry.audiostreamPause target)
  | .stop => do
      let s ← read
      when ((s.streams.sounds target).playing = true) (audioTransmissionUnreference target)
  | .seek position => writePlayback target fun p => { p with position := position }
  | .setLooping looping loopCount =>
      writePlayback target fun p => { p with looping := looping, loopCount := loopCount }
  | .fadeTo frames =>
      writePlayback target fun p => { p with fadeFrames := frames, fadeFramesLeft := frames }
  | .fadeOut frames =>
      writePlayback target fun p =>
        { p with fadeFrames := frames, fadeFramesLeft := frames, fadeStop := true }

/-- What happens while a script runs: it calls a method of a stream, the collector runs, or the
buffer thread takes a step. The methods of a buffer lock nothing. -/
inductive Event (ι β : Type) where
  | call (method : Method) (target : ι) (collected : List β)
  | collect (buffers : List β)
  | buffer (step : BufferStep ι)

def Event.program (registryRef : Mixer.RegistryRef) : Event ι β → Program ι β Unit
  | .call method target collected => callMethod registryRef target collected method
  | .collect buffers => Locks.collect buffers
  | .buffer step => write fun s => { s with toState := step.effect s.toState }

/-- A callback, or another part of a script. -/
def runScript (registryRef : Mixer.RegistryRef) (events : List (Event ι β)) : Program ι β Unit :=
  events.forM (Event.program registryRef)

/-- What the loop of the mixer comes to: the node of a stream, whose end flag may be up with
nothing left to mix, and the callbacks of `OnAudioStreamEnd`; or a step of the buffer thread in
between. -/
inductive Turn (ι β : Type) where
  | node (sound : ι) (ended : Bool) (callbacks : List (Event ι β))
  | buffer (step : BufferStep ι)

/-- `handle_audio_stream_end` -/
def handleAudioStreamEnd (registryRef : Mixer.RegistryRef) (sound : ι)
    (callbacks : List (Event ι β)) : Program ι β Unit := do
  writePlayback sound fun p => { p with position := 0, atEnd := false }
  let s ← read
  if (s.playback sound).looping then pure ()
  else if 0 < (s.playback sound).loopCount then
    writePlayback sound fun p => { p with loopCount := p.loopCount - 1 }
  else do
    runScript registryRef callbacks
    audioTransmissionUnreferenceLocked sound

/-- `process_audio_file`, where it locks or calls Lua. -/
def processAudioFile (registryRef : Mixer.RegistryRef) (sound : ι) (ended : Bool)
    (callbacks : List (Event ι β)) : Program ι β Unit := do
  let s ← read
  when ((s.streams.sounds sound).reclaimed = false ∧ ended = true)
    (handleAudioStreamEnd registryRef sound callbacks)

/-- A turn of the loop of `audio_encode_event` at a stream that is pinned. -/
def mixPinned (registryRef : Mixer.RegistryRef) (sound : ι) (ended : Bool)
    (callbacks : List (Event ι β)) : Program ι β Unit := do
  let s ← read
  when ((s.streams.sounds sound).playing = true)
    (critical (.stream sound) (processAudioFile registryRef sound ended callbacks))
  mainUnpin sound

/-- A turn of the loop of `audio_encode_event`. -/
def Turn.program (registryRef : Mixer.RegistryRef) : Turn ι β → Program ι β Unit
  | .node sound ended callbacks => do
      let s ← read
      match Registry.mainPin sound s.streams with
      | none => pure ()
      | some pinned =>
          writeStreams fun _ => pinned
          outside .inner (mixPinned registryRef sound ended callbacks)
  | .buffer step => write fun s => { s with toState := step.effect s.toState }

/-- The turns of a tick, and the callbacks of `OnAudioStream`. -/
structure Tick (ι β : Type) where
  turns : List (Turn ι β)
  onAudioStream : List (Event ι β)

/-- `audio_encode_event`, where it locks or calls Lua. -/
def audioEncodeEvent (registryRef : Mixer.RegistryRef) (tick : Tick ι β) : Program ι β Unit := do
  critical .inner (tick.turns.forM (Turn.program registryRef))
  runScript registryRef tick.onAudioStream
  -- the list of the pipes is read
  critical .inner (pure ())

/-- A turn of the loop of `audio_transmission_bitrate_warning`. -/
def stopPinned (sound : ι) : Program ι β Unit := do
  let s ← read
  match Registry.mainPin sound s.streams with
  | none => critical .inner (pure ())
  | some pinned =>
      critical .inner (writeStreams fun _ => pinned)
      audioTransmissionUnreference sound
      mainUnpin sound

/-- `audio_transmission_bitrate_warning` -/
def audioTransmissionBitrateWarning : Program ι β Unit := do
  critical .inner (pure ())
  let s ← read
  (s.streams.streamList.map Prod.snd).forM stopPinned

/-- What the main thread does: a part of a script, or `mumble_audio_playback_async` with the
tick, if one is pending, and whether the packet that it sends then is too long. -/
inductive Activity (ι β : Type) where
  | script (events : List (Event ι β))
  | playbackAsync (collected : ι → List β) (tick : Option (Tick ι β)) (tooLong : Bool)

/-- `audio_send_event`, where it locks. -/
def audioSendEvent (tooLong : Bool) : Program ι β Unit :=
  when (tooLong = true) audioTransmissionBitrateWarning

def Activity.program (registryRef : Mixer.RegistryRef) : Activity ι β → Program ι β Unit
  | .script events => runScript registryRef events
  | .playbackAsync collected tick tooLong => do
      let s ← read
      soundCleanReclaimed collected (s.streams.reclaimList.length + 1)
      match tick with
      | none => pure ()
      | some tick => do
          audioEncodeEvent registryRef tick
          audioSendEvent tooLong

/-- A run of the main thread; it is `none` from where it waits for a mutex that it holds. -/
def step (registryRef : Mixer.RegistryRef) (h : Option (Locking.Held (Mutex ι) (State ι β)))
    (activity : Activity ι β) : Unit × Option (Locking.Held (Mutex ι) (State ι β)) :=
  ((), h.bind fun h => (activity.program registryRef h).map Prod.snd)

section Specs

variable {held : List (Mutex ι)} {s : State ι β} {sound : ι}

theorem bufferFree_goes (hfree : .inner ∉ held) (buffer : β) (s : State ι β) :
    Goes (bufferFree buffer) held s fun s' => s'.toState = s.toState := by
  refine Goes.read (Goes.when (fun _ => ?_) fun _ => rfl)
  exact Goes.seq (Goes.critical hfree (Goes.write (Goes.write rfl)))

theorem collect_goes (hfree : .inner ∉ held) (buffers : List β) (s : State ι β) :
    Goes (collect buffers) held s fun s' => s'.toState = s.toState :=
  Goes.forM_of_inv (fun s' : State ι β => s'.toState = s.toState)
    (fun s' buffer h => (bufferFree_goes hfree buffer s').imp fun _ hs' => hs'.trans h) buffers rfl

omit [DecidableEq β] in
theorem soundUnpin_goes (hfree : .inner ∉ held) (sound : ι) (s : State ι β) :
    Goes (soundUnpinScheduleUnrefIfNeeded sound) held s fun s' =>
      s'.toState =
        { s.toState with
          streams := Registry.soundUnpinScheduleUnrefIfNeeded sound s.streams } := by
  unfold Registry.soundUnpinScheduleUnrefIfNeeded
  refine Goes.read (Goes.seq (Goes.write (Goes.read (Goes.when (fun hlast => ?_) fun hlast => ?_))))
  · refine Goes.read (Goes.when (fun href => ?_) fun href => ?_)
    · refine Goes.critical hfree (Goes.write ?_)
      dsimp only at hlast href ⊢
      rw [if_pos hlast, if_pos href]
    · dsimp only at hlast href ⊢
      rw [if_pos hlast, if_neg href]
  · dsimp only at hlast ⊢
    rw [if_neg hlast]

omit [DecidableEq β] in
theorem mainUnpin_goes (hfree : .inner ∉ held) (sound : ι) (s : State ι β) :
    Goes (mainUnpin sound) held s fun s' =>
      s'.toState = { s.toState with streams := Registry.mainUnpin sound s.streams } :=
  Goes.seq (Goes.write (soundUnpin_goes hfree sound _))

omit [DecidableEq β] in
theorem cancelReclamation_goes (hfree : .inner ∉ held) (sound : ι) (s : State ι β) :
    Goes (cancelReclamation sound) held s fun s' =>
      s'.toState =
        { s.toState with streams := Registry.cancelReclamation sound s.streams } := by
  unfold Registry.cancelReclamation
  refine Goes.read (Goes.when (fun hreclaimed => ?_) fun hreclaimed => ?_)
  · refine Goes.seq (Goes.write (Goes.read (Goes.when (fun href => ?_) fun href => ?_)))
    · refine Goes.seq (Goes.write (Goes.critical hfree (Goes.write ?_)))
      dsimp only at href ⊢
      rw [if_pos hreclaimed, if_pos href]
    · dsimp only at href ⊢
      rw [if_pos hreclaimed, if_neg href]
  · rw [if_neg hreclaimed]

theorem reference_goes (registryRef : Mixer.RegistryRef) (hfree : .inner ∉ held) (sound : ι)
    (collected : List β) (s : State ι β) :
    Goes (audioTransmissionReference registryRef sound collected) held s fun s' =>
      s'.toState =
        { s.toState with
          streams := Registry.audioTransmissionReference registryRef sound s.streams } := by
  refine Goes.seq ((cancelReclamation_goes hfree sound s).imp fun s₁ h₁ => ?_)
  refine Goes.seq ((collect_goes hfree collected s₁).imp fun s₂ h₂ => ?_)
  refine Goes.seq (Goes.write (Goes.critical hfree (Goes.write ?_)))
  rw [h₁] at h₂
  dsimp only
  rw [h₂]
  rfl

omit [DecidableEq β] in
theorem reset_goes {Q : State ι β → Prop}
    (h : Q { s with
      toState :=
        { s.toState.modify sound EndHook.Playback.reset with
          streams := Registry.audiostreamResetPlaybackState sound s.streams } }) :
    Goes (audiostreamResetPlaybackState sound) held s Q :=
  Goes.seq (Goes.write (Goes.write h))

omit [DecidableEq ι] [DecidableEq β] in
theorem when_writeStreams_goes {c : Prop} [Decidable c] {f : Registry.State ι → Registry.State ι}
    {Q : State ι β → Prop} (h : Q { s with streams := if c then f s.streams else s.streams }) :
    Goes (when c (writeStreams f)) held s Q := by
  refine Goes.when (fun hc => Goes.write ?_) fun hc => ?_
  · rwa [if_pos hc] at h
  · rwa [if_neg hc] at h

omit [DecidableEq β] in
theorem unreferenceLocked_goes (hfree : .inner ∉ held) (sound : ι) (s : State ι β) :
    Goes (audioTransmissionUnreferenceLocked sound) held s fun s' =>
      s'.toState = EndHook.audioTransmissionUnreferenceLocked sound s.toState := by
  unfold EndHook.audioTransmissionUnreferenceLocked Registry.audioTransmissionUnreferenceLocked
  refine Goes.seq (Goes.critical hfree (Goes.read (when_writeStreams_goes ?_)))
  refine Goes.seq (Goes.write (Goes.read (Goes.seq (when_writeStreams_goes (Goes.seq
    (reset_goes (Goes.read (Goes.when (fun hlast => ?_) fun hlast => ?_))))))))
  · refine Goes.critical hfree (Goes.write ?_)
    dsimp only at hlast ⊢
    rw [if_pos hlast]
    rfl
  · dsimp only at hlast ⊢
    rw [if_neg hlast]
    rfl

omit [DecidableEq β] in
theorem unreference_goes (hfree : .inner ∉ held) (hstream : .stream sound ∉ held)
    (s : State ι β) :
    Goes (audioTransmissionUnreference sound) held s fun s' =>
      s'.toState = EndHook.audioTransmissionUnreferenceLocked sound s.toState :=
  Goes.critical hstream (unreferenceLocked_goes (by simp [hfree]) sound s)

/-- The call stops a stream, and locks its mutex for it. -/
def Event.stops (s : EndHook.State ι) (target : ι) : Event ι β → Bool
  | .call .stop other _ => decide (other = target) && (s.streams.sounds target).playing
  | _ => false

/-- What happens, without mutexes and buffers. -/
def Event.effect (registryRef : Mixer.RegistryRef) (s : EndHook.State ι) :
    Event ι β → EndHook.State ι
  | .call method target _ => method.effect registryRef target s
  | .collect _ => s
  | .buffer step => step.effect s

theorem callMethod_goes (registryRef : Mixer.RegistryRef) (hfree : .inner ∉ held) (target : ι)
    (collected : List β) (method : Method) (s : State ι β)
    (hstop : method = .stop → (s.streams.sounds target).playing = true → .stream target ∉ held) :
    Goes (callMethod registryRef target collected method) held s fun s' =>
      s'.toState = method.effect registryRef target s.toState := by
  cases method with
  | play =>
      refine Goes.seq (reset_goes (Goes.seq (Goes.write (Goes.read (Goes.when (fun hnone => ?_)
        fun hnone => ?_)))))
      · refine (reference_goes registryRef hfree target collected _).imp fun s' hs' => ?_
        rw [hs']
        unfold Method.effect Registry.audiostreamPlay
        dsimp only at hnone ⊢
        rw [if_pos hnone]
      · unfold Method.effect Registry.audiostreamPlay
        dsimp only at hnone ⊢
        rw [if_neg hnone]
  | pause => exact ⟨_, rfl, rfl⟩
  | stop =>
      refine Goes.read (Goes.when (fun hplaying => ?_) fun hplaying => ?_)
      · rw [Method.effect, if_pos hplaying]
        exact unreference_goes hfree (hstop rfl hplaying) s
      · rw [Method.effect, if_neg hplaying]
  | seek position => exact ⟨_, rfl, rfl⟩
  | setLooping looping loopCount => exact ⟨_, rfl, rfl⟩
  | fadeTo frames => exact ⟨_, rfl, rfl⟩
  | fadeOut frames => exact ⟨_, rfl, rfl⟩

theorem Event.goes (registryRef : Mixer.RegistryRef) (hfree : .inner ∉ held) (e : Event ι β)
    (s : State ι β) (hstops : ∀ target, .stream target ∈ held → e.stops s.toState target = false) :
    Goes (e.program registryRef) held s fun s' =>
      s'.toState = e.effect registryRef s.toState := by
  cases e with
  | call method target collected =>
      refine callMethod_goes registryRef hfree target collected method s ?_
      rintro rfl hplaying hheld
      have hnot := hstops target hheld
      simp [Event.stops, hplaying] at hnot
  | collect buffers => exact collect_goes hfree buffers s
  | buffer step => exact ⟨_, rfl, rfl⟩

/-- The stop of a stream whose mutex the main thread holds. -/
theorem Event.blocks (registryRef : Mixer.RegistryRef) (e : Event ι β) {s : State ι β}
    (hheld : .stream sound ∈ held) (hstops : e.stops s.toState sound = true) :
    Blocks (e.program registryRef) held s := by
  cases e with
  | call method target collected =>
      cases method with
      | stop =>
          simp only [Event.stops, Bool.and_eq_true, decide_eq_true_eq] at hstops
          obtain ⟨rfl, hplaying⟩ := hstops
          exact Blocks.read (Blocks.when hplaying (Blocks.critical_held hheld))
      | _ => cases hstops
  | collect buffers => cases hstops
  | buffer step => cases hstops

end Specs

end LuaMumble.Audio.Locks
