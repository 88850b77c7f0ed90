import LuaMumble.Audio.Locks

/-!
Whether the main thread ever waits for a mutex that it holds. `inner_mutex` is never held where
Lua runs, and the mutex of a stream only while the callbacks of `OnAudioStreamEnd` run at its
end: there a callback that stops this stream, if it plays by then, waits for what the mixer
holds.
-/

namespace LuaMumble.Audio.Locks

open Lib
open Locking (Goes Blocks read write critical outside when)

variable {ι β : Type} [DecidableEq ι]

section Scripts

/-- The calls of play, pause and stop. -/
def Event.control : Event ι β → Option (Mixer.Method × ι)
  | .call .play target _ => some (.play, target)
  | .call .pause target _ => some (.pause, target)
  | .call .stop target _ => some (.stop, target)
  | _ => none

def scriptStep (registryRef : Mixer.RegistryRef) (t : EndHook.State ι) (e : Event ι β) :
    Unit × EndHook.State ι :=
  ((), e.effect registryRef t)

variable (registryRef : Mixer.RegistryRef)

theorem cancelReclamation_playing (sound : ι) (s : Registry.State ι) :
    ((Registry.cancelReclamation sound s).sounds sound).playing = (s.sounds sound).playing := by
  unfold Registry.cancelReclamation
  dsimp only
  split
  · split <;> simp [Registry.State.modify]
  · rfl

theorem ensureReference_playing (sound : ι) (s : Registry.State ι) :
    ((Registry.ensureReference registryRef sound s).sounds sound).playing =
      (s.sounds sound).playing := by
  simp only [Registry.ensureReference, Registry.State.modify]
  split_ifs <;> simp

theorem play_playing (sound : ι) (s : Registry.State ι) :
    ((Registry.audiostreamPlay registryRef sound s).sounds sound).playing = true := by
  unfold Registry.audiostreamPlay
  dsimp only
  split
  · rw [Registry.audioTransmissionReference]
    dsimp only
    rw [ensureReference_playing, cancelReclamation_playing]
    simp [Registry.State.modify]
  · simp [Registry.State.modify]

/-- The flag behind a call of the stream. -/
def playsAfter : Mixer.Method → Bool
  | .play => true
  | _ => false

theorem run_playing (method : Mixer.Method) (sound : ι) (s : Registry.State ι) :
    ((Registry.run registryRef method sound s).sounds sound).playing = playsAfter method := by
  cases method with
  | play => exact play_playing registryRef sound s
  | pause => simp [Registry.run, Registry.audiostreamPause, Registry.State.modify, playsAfter]
  | stop =>
      simp only [Registry.run, Registry.audiostreamStop, playsAfter]
      split
      · exact EndHook.unreference_playing sound ⟨s, fun _ => EndHook.drained⟩
      · rename_i hnot
        exact Bool.eq_false_iff.mpr hnot

/-- What an event does to the flag of a stream. -/
theorem Event.effect_playing (e : Event ι β) (t : EndHook.State ι) (sound : ι) :
    ((e.effect registryRef t).streams.sounds sound).playing =
      match e.control with
      | some (method, target) =>
          if target = sound then playsAfter method else (t.streams.sounds sound).playing
      | none => (t.streams.sounds sound).playing := by
  have hrun (method : Mixer.Method) (target : ι) :
      ((Registry.run registryRef method target t.streams).sounds sound).playing =
        if target = sound then playsAfter method else (t.streams.sounds sound).playing := by
    split
    · rename_i hsame
      subst hsame
      exact run_playing registryRef method target t.streams
    · rename_i hother
      rw [(Registry.frame_run registryRef method target t.streams).sounds sound (Ne.symm hother)]
  cases e with
  | collect buffers => rfl
  | buffer step =>
      cases step with
      | pin target => exact EndHook.bufferPin_playing target sound t.streams
      | fill target frames => rfl
      | unpin target => exact EndHook.bufferUnpin_playing target sound t.streams
  | call method target collected =>
      cases method with
      | play => exact hrun .play target
      | pause => exact hrun .pause target
      | stop =>
          refine Eq.trans ?_ (hrun .stop target)
          simp only [Event.effect, EndHook.Method.effect, Registry.run, Registry.audiostreamStop]
          split <;> rfl
      | _ => rfl

theorem Event.stops_eq (e : Event ι β) (t : EndHook.State ι) (sound : ι) :
    e.stops t sound =
      match e.control with
      | some (.stop, target) => decide (target = sound) && (t.streams.sounds sound).playing
      | _ => false := by
  cases e with
  | call method target collected => cases method <;> rfl
  | collect buffers => rfl
  | buffer step => rfl

/-- A script stops a stream that plays by then. -/
theorem along_stops_iff (sound : ι) (t : EndHook.State ι) (events : List (Event ι β)) :
    Machine.Along (scriptStep registryRef) (fun t e => e.stops t sound = false) t events ↔
      Mixer.stopsPlaying sound (t.streams.sounds sound).playing
        (events.filterMap Event.control) = false := by
  induction events generalizing t with
  | nil => simp [Machine.Along, Mixer.stopsPlaying]
  | cons e rest ih =>
      rw [Machine.Along, ih, scriptStep, Event.effect_playing, Event.stops_eq]
      cases hcontrol : e.control with
      | none => simp [hcontrol]
      | some control =>
          obtain ⟨method, target⟩ := control
          rw [List.filterMap_cons_some hcontrol]
          by_cases hsame : target = sound
          · cases method <;> simp [Mixer.stopsPlaying, hsame, playsAfter]
          · cases method <;> simp [Mixer.stopsPlaying, hsame]

variable [DecidableEq β]

/-- Elsewhere than in a hook a script goes through. -/
theorem runScript_goes (events : List (Event ι β)) (s : State ι β) :
    Goes (runScript registryRef events) [] s fun s' =>
      s'.toState = Machine.final (scriptStep registryRef) s.toState events := by
  refine Goes.forM (scriptStep registryRef) (fun _ _ => True) (fun s : State ι β => (s.toState = ·))
    ?_ events rfl (Machine.along_of_forall (fun _ _ => trivial) _ _)
  rintro s t e rfl -
  exact e.goes registryRef List.not_mem_nil s fun target hmem => absurd hmem List.not_mem_nil

theorem callback_goes {sound : ι} (e : Event ι β) (s : State ι β)
    (hstops : e.stops s.toState sound = false) :
    Goes (e.program registryRef) [.stream sound] s fun s' =>
      s'.toState = e.effect registryRef s.toState := by
  refine e.goes registryRef (by simp) s fun target hmem => ?_
  rw [Mutex.stream.inj (List.mem_singleton.mp hmem)]
  exact hstops

/-- What happens in the hook at the end of a stream, without the collector. -/
def ofEndHook : EndHook.Event ι → Event ι β
  | .call method target => .call method target []
  | .buffer step => .buffer step

omit [DecidableEq β] in
theorem stops_ofEndHook (e : EndHook.Event ι) (t : EndHook.State ι) (sound : ι) :
    (ofEndHook e : Event ι β).stops t sound = e.stops t sound := by
  cases e with
  | call method target => cases method <;> rfl
  | buffer step => rfl

/-- The hook has a result exactly where its callbacks do not wait for the mutex of the stream,
and then it is theirs. -/
theorem callHook_locks {sound : ι} (events : List (EndHook.Event ι)) (s : State ι β) :
    match EndHook.callHook registryRef sound events s.toState with
    | none => Blocks (runScript registryRef (events.map ofEndHook)) [.stream sound] s
    | some t => Goes (runScript registryRef (events.map ofEndHook)) [.stream sound] s fun s' =>
        s'.toState = t := by
  induction events generalizing s with
  | nil => exact Goes.pure rfl
  | cons e rest ih =>
      rw [EndHook.callHook, List.foldlM_cons, EndHook.Event.run]
      cases hstops : e.stops s.toState sound with
      | true =>
          have hblocks : Blocks ((ofEndHook e : Event ι β).program registryRef) [.stream sound] s :=
            Event.blocks registryRef _ List.mem_cons_self ((stops_ofEndHook e _ sound).trans hstops)
          exact Blocks.first hblocks
      | false =>
          have hgoes := callback_goes registryRef (ofEndHook e) s
            ((stops_ofEndHook e s.toState sound).trans hstops)
          obtain ⟨s', hrun, hs'⟩ := hgoes
          have heffect : s'.toState = e.effect registryRef s.toState := by
            rw [hs']
            cases e <;> rfl
          have hrest := ih s'
          change match EndHook.callHook registryRef sound rest (e.effect registryRef s.toState) with
            | none => _
            | some t => _
          rw [← heffect]
          cases hcall : EndHook.callHook registryRef sound rest s'.toState with
          | none =>
              rw [hcall] at hrest
              exact Blocks.second ⟨s', hrun, hrest⟩
          | some t =>
              rw [hcall] at hrest
              exact Goes.seq ⟨s', hrun, hrest⟩

/-- The callbacks at the end of a stream that they do not stop. -/
theorem callbacks_go {sound : ι} (callbacks : List (Event ι β)) (s : State ι β)
    (hstops : Mixer.stopsPlaying sound (s.streams.sounds sound).playing
      (callbacks.filterMap Event.control) = false) :
    Goes (runScript registryRef callbacks) [.stream sound] s fun s' =>
      s'.toState = Machine.final (scriptStep registryRef) s.toState callbacks := by
  refine Goes.forM (scriptStep registryRef) (fun t e => e.stops t sound = false)
    (fun s : State ι β => (s.toState = ·)) ?_ callbacks rfl
    ((along_stops_iff registryRef sound s.toState callbacks).mpr hstops)
  rintro s t e rfl hok
  exact callback_goes registryRef e s hok

theorem callbacks_block {sound : ι} (callbacks : List (Event ι β)) (s : State ι β)
    (hstops : Mixer.stopsPlaying sound (s.streams.sounds sound).playing
      (callbacks.filterMap Event.control) = true) :
    Blocks (runScript registryRef callbacks) [.stream sound] s := by
  refine Blocks.forM (scriptStep registryRef) (fun t e => e.stops t sound = false)
    (fun s : State ι β => (s.toState = ·)) ?_ ?_ callbacks rfl ?_
  · rintro s t e rfl hok
    exact callback_goes registryRef e s hok
  · rintro s t e rfl hnot
    exact e.blocks registryRef List.mem_cons_self (by simpa using hnot)
  · rw [along_stops_iff, hstops]
    exact Bool.noConfusion

end Scripts

section Turns

/-- The stream is mixed at its turn, and comes to its end without starting anew. -/
structure Ends (t : EndHook.State ι) (sound : ι) (ended : Bool) : Prop where
  reclaimed : (t.streams.sounds sound).reclaimed = false
  playing : (t.streams.sounds sound).playing = true
  ended : ended = true
  looping : (t.playback sound).looping = false
  loopCount : (t.playback sound).loopCount ≤ 0

/-- Where a stream ends, its callbacks do not stop it while it plays. -/
def Turn.Spared (t : EndHook.State ι) : Turn ι β → Prop
  | .node sound ended callbacks => Ends t sound ended →
      Mixer.stopsPlaying sound true (callbacks.filterMap Event.control) = false
  | .buffer _ => True

variable (registryRef : Mixer.RegistryRef)

/-- `handle_audio_stream_end`, without mutexes. -/
def endEffect (sound : ι) (callbacks : List (Event ι β)) (t : EndHook.State ι) :
    EndHook.State ι :=
  let t := t.modify sound fun p => { p with position := 0, atEnd := false }
  if (t.playback sound).looping then t
  else if 0 < (t.playback sound).loopCount then
    t.modify sound fun p => { p with loopCount := p.loopCount - 1 }
  else
    EndHook.audioTransmissionUnreferenceLocked sound
      (Machine.final (scriptStep registryRef) t callbacks)

/-- A turn of the mixer at a stream that is pinned, without mutexes. -/
def pinnedEffect (sound : ι) (ended : Bool) (callbacks : List (Event ι β))
    (t : EndHook.State ι) : EndHook.State ι :=
  let t :=
    if (t.streams.sounds sound).playing = true ∧ (t.streams.sounds sound).reclaimed = false ∧
        ended = true then
      endEffect registryRef sound callbacks t
    else t
  { t with streams := Registry.mainUnpin sound t.streams }

/-- A turn of the mixer, without mutexes. -/
def Turn.effect (t : EndHook.State ι) : Turn ι β → EndHook.State ι
  | .node sound ended callbacks =>
      match Registry.mainPin sound t.streams with
      | none => t
      | some pinned => pinnedEffect registryRef sound ended callbacks { t with streams := pinned }
  | .buffer step => step.effect t

def turnStep (t : EndHook.State ι) (turn : Turn ι β) : Unit × EndHook.State ι :=
  ((), turn.effect registryRef t)

variable [DecidableEq β] {sound : ι} {s : State ι β}

theorem handleAudioStreamEnd_goes (callbacks : List (Event ι β))
    (hstops : (s.playback sound).looping = false → (s.playback sound).loopCount ≤ 0 →
      Mixer.stopsPlaying sound (s.streams.sounds sound).playing
        (callbacks.filterMap Event.control) = false) :
    Goes (handleAudioStreamEnd registryRef sound callbacks) [.stream sound] s fun s' =>
      s'.toState = endEffect registryRef sound callbacks s.toState := by
  refine Goes.seq (Goes.write (Goes.read ?_))
  unfold endEffect
  dsimp only
  split
  · exact ⟨_, rfl, rfl⟩
  · rename_i hlooping
    split
    · exact ⟨_, rfl, rfl⟩
    · rename_i hcount
      refine Goes.seq ((callbacks_go registryRef callbacks _ ?_).imp fun s' hs' => ?_)
      · simp only [EndHook.State.modify, Function.update_self] at hlooping hcount
        exact hstops (by simpa using hlooping) (by omega)
      · rw [← hs']
        exact unreferenceLocked_goes (by simp) sound s'

theorem handleAudioStreamEnd_blocks (callbacks : List (Event ι β))
    (hlooping : (s.playback sound).looping = false) (hcount : (s.playback sound).loopCount ≤ 0)
    (hstops : Mixer.stopsPlaying sound (s.streams.sounds sound).playing
      (callbacks.filterMap Event.control) = true) :
    Blocks (handleAudioStreamEnd registryRef sound callbacks) [.stream sound] s := by
  refine Blocks.second (Goes.write (Blocks.read ?_))
  have hnot : ¬ 0 < (s.playback sound).loopCount := by omega
  simp only [EndHook.State.modify, Function.update_self, hlooping, hnot, Bool.false_eq_true,
    if_false]
  exact Blocks.first (callbacks_block registryRef callbacks _ hstops)

theorem mixPinned_goes (ended : Bool) (callbacks : List (Event ι β))
    (hstops : Ends s.toState sound ended →
      Mixer.stopsPlaying sound true (callbacks.filterMap Event.control) = false) :
    Goes (mixPinned registryRef sound ended callbacks) [] s fun s' =>
      s'.toState = pinnedEffect registryRef sound ended callbacks s.toState := by
  have hunpin (s' : State ι β)
      (hs' : s'.toState =
        if (s.streams.sounds sound).playing = true ∧
            (s.streams.sounds sound).reclaimed = false ∧ ended = true then
          endEffect registryRef sound callbacks s.toState
        else s.toState) :
      Goes (mainUnpin sound) [] s' fun s'' =>
        s''.toState = pinnedEffect registryRef sound ended callbacks s.toState := by
    refine (mainUnpin_goes List.not_mem_nil sound s').imp fun s'' hs'' => ?_
    rw [hs'', pinnedEffect, ← hs']
  refine Goes.read (Goes.seq (Goes.when (fun hplaying => ?_) fun hplaying => ?_))
  · refine Goes.critical List.not_mem_nil (Goes.read (Goes.when (fun hends => ?_) fun hends => ?_))
    · refine (handleAudioStreamEnd_goes registryRef callbacks fun hlooping hcount => ?_).imp
        fun s' hs' => hunpin s' ?_
      · rw [hplaying]
        exact hstops ⟨hends.1, hplaying, hends.2, hlooping, hcount⟩
      · rw [if_pos ⟨hplaying, hends⟩]
        exact hs'
    · apply hunpin
      rw [if_neg fun h => hends h.2]
  · apply hunpin
    rw [if_neg fun h => hplaying h.1]

theorem mixPinned_blocks {ended : Bool} (callbacks : List (Event ι β))
    (hends : Ends s.toState sound ended)
    (hstops : Mixer.stopsPlaying sound true (callbacks.filterMap Event.control) = true) :
    Blocks (mixPinned registryRef sound ended callbacks) [] s := by
  refine Blocks.read (Blocks.first (Blocks.when hends.playing ?_))
  refine Blocks.critical List.not_mem_nil
    (Blocks.read (Blocks.when ⟨hends.reclaimed, hends.ended⟩ ?_))
  refine handleAudioStreamEnd_blocks registryRef callbacks hends.looping hends.loopCount ?_
  rw [hends.playing]
  exact hstops

/-- The pin of a stream changes nothing that its end depends on. -/
theorem ends_pinned_iff {pinned : Registry.State ι} {t : EndHook.State ι} {ended : Bool}
    (hpin : Registry.mainPin sound t.streams = some pinned) :
    Ends { t with streams := pinned } sound ended ↔ Ends t sound ended := by
  unfold Registry.mainPin Registry.soundTryPin at hpin
  cases hreclaimed : (t.streams.sounds sound).reclaimed with
  | true => simp [hreclaimed] at hpin
  | false =>
      simp only [hreclaimed, Bool.false_eq_true, if_false, Option.map_some,
        Option.some.injEq] at hpin
      subst hpin
      constructor
      · rintro ⟨-, hplaying, hended, hlooping, hcount⟩
        simp only [Registry.State.modify, Function.update_self] at hplaying
        exact ⟨hreclaimed, hplaying, hended, hlooping, hcount⟩
      · rintro ⟨-, hplaying, hended, hlooping, hcount⟩
        refine ⟨?_, ?_, hended, hlooping, hcount⟩
        · simpa [Registry.State.modify] using hreclaimed
        · simpa [Registry.State.modify] using hplaying

theorem Turn.goes (turn : Turn ι β) (hspared : turn.Spared s.toState) :
    Goes (turn.program registryRef) [.inner] s fun s' =>
      s'.toState = turn.effect registryRef s.toState := by
  cases turn with
  | buffer step => exact ⟨_, rfl, rfl⟩
  | node sound ended callbacks =>
      refine Goes.read ?_
      simp only [Turn.effect]
      cases hpin : Registry.mainPin sound s.streams with
      | none => exact Goes.pure rfl
      | some pinned =>
          refine Goes.seq (Goes.write (Goes.outside List.not_mem_nil ?_))
          exact mixPinned_goes registryRef ended callbacks fun hends =>
            hspared ((ends_pinned_iff hpin).mp hends)

theorem Turn.blocks (turn : Turn ι β) (hspared : ¬ turn.Spared s.toState) :
    Blocks (turn.program registryRef) [.inner] s := by
  cases turn with
  | buffer step => exact absurd trivial hspared
  | node sound ended callbacks =>
      obtain ⟨hends, hstops⟩ := Classical.not_imp.mp hspared
      refine Blocks.read ?_
      cases hpin : Registry.mainPin sound s.streams with
      | none =>
          simp [Registry.mainPin, Registry.soundTryPin, hends.reclaimed] at hpin
      | some pinned =>
          refine Blocks.second (Goes.write (Blocks.outside ?_))
          exact mixPinned_blocks registryRef callbacks ((ends_pinned_iff hpin).mpr hends)
            (by simpa using hstops)

end Turns

section Activities

/-- Where a stream ends in the tick, its callbacks do not stop it while it plays. -/
def Activity.Spared (registryRef : Mixer.RegistryRef) (t : EndHook.State ι) :
    Activity ι β → Prop
  | .playbackAsync _ (some tick) _ =>
      Machine.Along (turnStep registryRef) Turn.Spared
        { t with
          streams :=
            Registry.soundCleanReclaimed (t.streams.reclaimList.length + 1) t.streams }
        tick.turns
  | _ => True

variable (registryRef : Mixer.RegistryRef) [DecidableEq β] {s : State ι β}

theorem soundCleanReclaimed_goes (collected : ι → List β) (fuel : Nat) (s : State ι β) :
    Goes (soundCleanReclaimed collected fuel) [] s fun s' =>
      s'.toState =
        { s.toState with streams := Registry.soundCleanReclaimed fuel s.streams } := by
  induction fuel generalizing s with
  | zero => exact ⟨s, rfl, rfl⟩
  | succ fuel ih =>
      unfold soundCleanReclaimed Registry.soundCleanReclaimed
      refine Goes.read ?_
      cases hlist : s.streams.reclaimList with
      | nil => exact Goes.critical List.not_mem_nil (Goes.pure rfl)
      | cons node rest =>
          obtain ⟨idx, sound⟩ := node
          refine Goes.seq (Goes.critical List.not_mem_nil (Goes.write (Goes.read ?_)))
          dsimp only
          cases href : (s.streams.sounds sound).reclaimRef with
          | none =>
              refine (ih _).imp fun s' hs' => ?_
              rw [hs']
              simp only [hlist]
          | some ref =>
              refine Goes.seq ((collect_goes List.not_mem_nil _ _).imp fun s' hs' => ?_)
              refine Goes.seq (Goes.write ((ih _).imp fun s'' hs'' => ?_))
              rw [hs'']
              dsimp only
              rw [hs']
              simp only [hlist]

omit [DecidableEq β] in
theorem stopPinned_goes (sound : ι) (s : State ι β) :
    Goes (stopPinned sound) [] s fun _ => True := by
  refine Goes.read ?_
  cases hpin : Registry.mainPin sound s.streams with
  | none => exact Goes.critical List.not_mem_nil (Goes.pure trivial)
  | some pinned =>
      refine Goes.seq (Goes.critical List.not_mem_nil (Goes.write ?_))
      refine Goes.seq ((unreference_goes List.not_mem_nil List.not_mem_nil _).imp fun s' _ => ?_)
      exact (mainUnpin_goes List.not_mem_nil sound s').imp fun _ _ => trivial

omit [DecidableEq β] in
theorem audioSendEvent_goes (tooLong : Bool) (s : State ι β) :
    Goes (audioSendEvent tooLong) [] s fun _ => True := by
  refine Goes.when (fun _ => ?_) fun _ => trivial
  refine Goes.seq (Goes.critical List.not_mem_nil (Goes.pure (Goes.read ?_)))
  exact Goes.forM_of_inv (fun _ => True) (fun s sound _ => stopPinned_goes sound s) _ trivial

theorem audioEncodeEvent_goes (tick : Tick ι β)
    (hspared : Machine.Along (turnStep registryRef) Turn.Spared s.toState tick.turns) :
    Goes (audioEncodeEvent registryRef tick) [] s fun _ => True := by
  refine Goes.seq (Goes.critical List.not_mem_nil ?_)
  refine (Goes.forM (turnStep registryRef) Turn.Spared (fun s : State ι β => (s.toState = ·))
    ?_ tick.turns rfl hspared).imp fun s' _ => ?_
  · rintro s t turn rfl hok
    exact turn.goes registryRef hok
  · refine Goes.seq ((runScript_goes registryRef tick.onAudioStream s').imp fun _ _ => ?_)
    exact Goes.critical List.not_mem_nil (Goes.pure trivial)

theorem audioEncodeEvent_blocks (tick : Tick ι β)
    (hspared : ¬ Machine.Along (turnStep registryRef) Turn.Spared s.toState tick.turns) :
    Blocks (audioEncodeEvent registryRef tick) [] s := by
  refine Blocks.first (Blocks.critical List.not_mem_nil ?_)
  refine Blocks.forM (turnStep registryRef) Turn.Spared (fun s : State ι β => (s.toState = ·))
    ?_ ?_ tick.turns rfl hspared
  · rintro s t turn rfl hok
    exact turn.goes registryRef hok
  · rintro s t turn rfl hnot
    exact turn.blocks registryRef hnot

theorem Activity.goes (activity : Activity ι β) (hspared : activity.Spared registryRef s.toState) :
    Goes (activity.program registryRef) [] s fun _ => True := by
  cases activity with
  | script events => exact (runScript_goes registryRef events s).imp fun _ _ => trivial
  | playbackAsync collected tick tooLong =>
      refine Goes.read (Goes.seq ((soundCleanReclaimed_goes collected _ s).imp fun s' hs' => ?_))
      cases tick with
      | none => exact Goes.pure trivial
      | some tick =>
          refine Goes.seq ((audioEncodeEvent_goes registryRef tick ?_).imp fun s'' _ =>
            audioSendEvent_goes tooLong s'')
          rw [hs']
          exact hspared

theorem Activity.blocks (activity : Activity ι β)
    (hspared : ¬ activity.Spared registryRef s.toState) :
    Blocks (activity.program registryRef) [] s := by
  cases activity with
  | script events => exact absurd trivial hspared
  | playbackAsync collected tick tooLong =>
      cases tick with
      | none => exact absurd trivial hspared
      | some tick =>
          refine Blocks.read (Blocks.second
            ((soundCleanReclaimed_goes collected _ s).imp fun s' hs' => Blocks.first ?_))
          apply audioEncodeEvent_blocks registryRef tick
          rw [hs']
          exact hspared

theorem step_of_spared {activity : Activity ι β}
    (hspared : activity.Spared registryRef s.toState) :
    ∃ s', (step registryRef (some ⟨[], s⟩) activity).2 = some ⟨[], s'⟩ := by
  obtain ⟨s', hrun, -⟩ := activity.goes registryRef hspared
  refine ⟨s', ?_⟩
  rw [step, Option.bind_some, hrun]
  rfl

theorem step_of_not_spared {activity : Activity ι β}
    (hspared : ¬ activity.Spared registryRef s.toState) :
    (step registryRef (some ⟨[], s⟩) activity).2 = none := by
  have hrun : activity.program registryRef ⟨[], s⟩ = none := activity.blocks registryRef hspared
  rw [step, Option.bind_some, hrun]
  rfl

end Activities

/-- For every run of scripts, ticks and cleanings from any state, whatever the callbacks call and
the collector finalizes: the main thread never locks a mutex that it holds if and only if no
callback of `OnAudioStreamEnd` stops the stream that ends while that plays. -/
theorem never_blocks_iff [DecidableEq β] (registryRef : Mixer.RegistryRef) (s : State ι β)
    (activities : List (Activity ι β)) :
    (∀ n ≤ activities.length,
        Machine.final (step registryRef) (some ⟨[], s⟩) (activities.take n) ≠ none) ↔
      Machine.Along (step registryRef)
        (fun h activity => ∀ held, h = some held →
          activity.Spared registryRef held.state.toState) (some ⟨[], s⟩) activities := by
  refine Machine.holds_along_iff_of_invariant (step registryRef)
    (fun h => ∀ held, h = some held → held.held = []) (· ≠ none) ?_ ?_ (some ⟨[], s⟩) activities
    ?_ (Option.some_ne_none _)
  · rintro h activity hinv hgood held hheld
    obtain ⟨⟨before, s⟩, rfl⟩ := Option.ne_none_iff_exists'.mp hgood
    obtain rfl : before = [] := hinv _ rfl
    by_cases hspared : activity.Spared registryRef s.toState
    · obtain ⟨s', hnext⟩ := step_of_spared registryRef hspared
      rw [hnext] at hheld
      rw [← Option.some.inj hheld]
    · rw [step_of_not_spared registryRef hspared] at hheld
      cases hheld
  · rintro h activity hinv hgood
    obtain ⟨⟨before, s⟩, rfl⟩ := Option.ne_none_iff_exists'.mp hgood
    obtain rfl : before = [] := hinv _ rfl
    constructor
    · rintro hnext held hheld
      cases hheld
      by_contra hspared
      exact hnext (step_of_not_spared registryRef hspared)
    · intro hspared
      obtain ⟨s', hnext⟩ := step_of_spared registryRef (hspared _ rfl)
      rw [hnext]
      exact Option.some_ne_none _
  · rintro held hheld
    cases hheld
    rfl

section StopAtEnd

/-- A script plays the only stream, which comes to its end in the next tick, where a callback
stops it. -/
def stoppedAtEnd : List (Activity Unit Empty) :=
  [.script [.call .play () []],
    .playbackAsync (fun _ => []) (some ⟨[.node () true [.call .stop () []]], []⟩) false]

/-- A client that was just made. -/
def made : State Unit Empty where
  streams := Registry.opened
  playback := fun _ => EndHook.drained
  contexts := fun buffer => nomatch buffer
  audioPipes := []

/-- The callback waits for the mutex that the mixer holds. -/
theorem stop_at_end_blocks :
    ¬ ∀ activities : List (Activity Unit Empty), ∀ n ≤ activities.length,
      Machine.final (step Mixer.countOn) (some ⟨[], made⟩) (activities.take n) ≠ none := by
  intro h
  exact h stoppedAtEnd 2 (Nat.le_refl 2) rfl

end StopAtEnd

end LuaMumble.Audio.Locks
