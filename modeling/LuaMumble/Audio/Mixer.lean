import LuaMumble.Audio.Encode
import LuaMumble.Lib.NodeList
import Mathlib.Logic.Function.Basic

/-!
The loop of the mixer along the streams. `audio_encode_event` goes along `stream_list`, and a
stream that comes to its end calls `OnAudioStreamEnd`, whose callbacks may play, pause and stop
other streams: this changes the list that the loop is going along.

A tick is given what the buffer thread and the fades leave to each stream at its turn, and the
calls of the callbacks. The queue of the streams that are given back, and the pins that keep
them from it, are left out: they do not touch `stream_list`.
-/

namespace LuaMumble.Audio.Mixer

open Lib

variable {ι : Type} [DecidableEq ι]

/-- What the loop and the calls use of an `AudioStream`; a reference is `none` for
`LUA_NOREF`. -/
structure AudioStream where
  refrence : Option Nat
  reclaimRef : Option Nat
  reclaimed : Bool
  playing : Bool
  looping : Bool
  loopCount : Int

/-- The frames in the ring of a stream, its member `end` and its fade, at its turn. -/
structure Playback where
  framesAvailable : Nat
  atEnd : Bool
  fadeFrames : Nat
  fadeFramesLeft : Nat
  fadeStop : Bool

/-- The streams of a client. The registry has the references that are in use; `mix` and
`processed`, the streams that were mixed, are those of the tick. -/
structure State (ι : Type) where
  sounds : ι → AudioStream
  registry : List Nat
  streamList : NodeList Nat ι
  mix : Encode.Mix
  processed : List ι

/-- `mumble_registry_ref`: a reference that is not in use. -/
structure RegistryRef where
  ref : List Nat → Nat
  fresh : ∀ registry, ref registry ∉ registry

/-- The methods of a stream that a callback may call. -/
inductive Method where
  | play
  | pause
  | stop

/-- A call in a callback that was called at the end of `sound`. -/
structure Call (sound : ι) where
  method : Method
  target : ι
  other : target ≠ sound

/-- What a tick is given. Each stream ends at most once in it. -/
structure Tick (ι : Type) where
  packetSize : Encode.PacketSize
  playback : ι → Playback
  onAudioStreamEnd : (sound : ι) → List (Call sound)

/-- `client_openAudio` -/
def openAudio : AudioStream :=
  { refrence := none
    reclaimRef := none
    reclaimed := false
    playing := false
    looping := false
    loopCount := 0 }

def opened : State ι :=
  { sounds := fun _ => openAudio
    registry := []
    streamList := .empty
    mix := ⟨0, false⟩
    processed := [] }

def State.modify (s : State ι) (sound : ι) (f : AudioStream → AudioStream) : State ι :=
  { s with sounds := Function.update s.sounds sound (f (s.sounds sound)) }

/-- `audiostream_reset_playback_state`, without the ring and the file. -/
def audiostreamResetPlaybackState (sound : ι) (s : State ι) : State ι :=
  s.modify sound fun a => { a with playing := false }

/-- The beginning of `audio_transmission_reference`: the reference that was kept for the
reclamation is taken back. -/
def cancelReclamation (sound : ι) (s : State ι) : State ι :=
  if (s.sounds sound).reclaimed then
    let s := s.modify sound fun a => { a with reclaimed := false }
    if (s.sounds sound).reclaimRef.isSome then
      s.modify sound fun a => { a with refrence := a.reclaimRef, reclaimRef := none }
    else s
  else s

/-- `audio_transmission_reference` -/
def audioTransmissionReference (registryRef : RegistryRef) (sound : ι) (s : State ι) : State ι :=
  let s := cancelReclamation sound s
  match (s.sounds sound).refrence with
  | some ref => { s with streamList := s.streamList.add ref sound }
  | none =>
      let ref := registryRef.ref s.registry
      { s.modify sound fun a => { a with refrence := some ref } with
        registry := ref :: s.registry
        streamList := s.streamList.add ref sound }

/-- `audio_transmission_unreference_locked` -/
def audioTransmissionUnreferenceLocked (sound : ι) (s : State ι) : State ι :=
  let s :=
    match (s.sounds sound).refrence with
    | some ref => { s with streamList := s.streamList.remove ref }
    | none => s
  let s := s.modify sound fun a => { a with reclaimed := true }
  let s :=
    if (s.sounds sound).refrence.isSome then
      s.modify sound fun a => { a with reclaimRef := a.refrence, refrence := none }
    else s
  audiostreamResetPlaybackState sound s

/-- `audiostream_play` -/
def audiostreamPlay (registryRef : RegistryRef) (sound : ι) (s : State ι) : State ι :=
  let s := audiostreamResetPlaybackState sound s
  let s := s.modify sound fun a => { a with playing := true }
  if (s.sounds sound).refrence.isNone then audioTransmissionReference registryRef sound s else s

/-- `audiostream_pause` -/
def audiostreamPause (sound : ι) (s : State ι) : State ι :=
  s.modify sound fun a => { a with playing := false }

/-- `audiostream_stop` -/
def audiostreamStop (sound : ι) (s : State ι) : State ι :=
  if (s.sounds sound).playing then audioTransmissionUnreferenceLocked sound s else s

def Method.run (registryRef : RegistryRef) (method : Method) (sound : ι) (s : State ι) : State ι :=
  match method with
  | .play => audiostreamPlay registryRef sound s
  | .pause => audiostreamPause sound s
  | .stop => audiostreamStop sound s

/-- The calls that the callbacks of `OnAudioStreamEnd` make, in order. -/
def Tick.calls (tick : Tick ι) (sound : ι) : List (Method × ι) :=
  (tick.onAudioStreamEnd sound).map fun call => (call.method, call.target)

def runCalls (registryRef : RegistryRef) (calls : List (Method × ι)) (s : State ι) : State ι :=
  calls.foldl (fun s call => call.1.run registryRef call.2 s) s

/-- The stream as the mixer finds it at its turn. -/
def atTurn (tick : Tick ι) (sound : ι) (s : State ι) : Encode.AudioStream :=
  { reclaimed := (s.sounds sound).reclaimed
    playing := (s.sounds sound).playing
    framesAvailable := (tick.playback sound).framesAvailable
    atEnd := (tick.playback sound).atEnd
    looping := (s.sounds sound).looping
    loopCount := (s.sounds sound).loopCount.toNat
    fadeFrames := (tick.playback sound).fadeFrames
    fadeFramesLeft := (tick.playback sound).fadeFramesLeft
    fadeStop := (tick.playback sound).fadeStop }

/-- `handle_audio_stream_end` -/
def handleAudioStreamEnd (registryRef : RegistryRef) (tick : Tick ι) (sound : ι) (s : State ι) :
    State ι :=
  if (s.sounds sound).looping then { s with mix := { s.mix with didLoop := true } }
  else if (s.sounds sound).loopCount > 0 then
    { s.modify sound fun a => { a with loopCount := a.loopCount - 1 } with
      mix := { s.mix with didLoop := true } }
  else audioTransmissionUnreferenceLocked sound (runCalls registryRef (tick.calls sound) s)

/-- `process_audio_file` -/
def processAudioFile (registryRef : RegistryRef) (tick : Tick ι) (sound : ι) (s : State ι) :
    State ι :=
  let sampleSize := tick.packetSize.outputFrames
  let stream := atTurn tick sound s
  if stream.reclaimed then s
  else if sampleSize > pcmBuffer then s
  else
    let read := Encode.framesRead sampleSize stream
    let s := { s with processed := s.processed ++ [sound] }
    let s :=
      if Encode.endAfter stream read && decide (read < sampleSize) then
        handleAudioStreamEnd registryRef tick sound s
      else s
    { s with mix :=
      { s.mix with biggestRead := if read > s.mix.biggestRead then read else s.mix.biggestRead } }

/-- A turn of the loop, behind the step to the next node: `sound_try_pin` and the test of
`playing`. -/
def visit (registryRef : RegistryRef) (tick : Tick ι) (node : Node Nat ι) (s : State ι) : State ι :=
  if !(s.sounds node.data).reclaimed && (s.sounds node.data).playing then
    processAudioFile registryRef tick node.data s
  else s

/-- The state in which the loop begins. -/
def begin (s : State ι) : State ι := { s with mix := ⟨0, false⟩, processed := [] }

/-- The loop of `audio_encode_event` along `stream_list`. -/
def audioEncodeEvent (registryRef : RegistryRef) (tick : Tick ι) (fuel : Nat) (s : State ι) :
    List (Node Nat ι) × NodeList.Outcome (State ι) :=
  NodeList.walk State.streamList (visit registryRef tick) fuel
    (NodeList.first s.streamList.nodes) (begin s)

/-- If the stream is stopped while it plays, in the course of the calls. -/
def stopsPlaying (target : ι) : Bool → List (Method × ι) → Bool
  | _, [] => false
  | playing, (method, sound) :: calls =>
      if sound = target then
        match method with
        | .play => stopsPlaying target true calls
        | .pause => stopsPlaying target false calls
        | .stop => playing || stopsPlaying target false calls
      else stopsPlaying target playing calls

/-- The stream is mixed at its turn. -/
def Plays (sound : ι) (s : State ι) : Prop :=
  (s.sounds sound).reclaimed = false ∧ (s.sounds sound).playing = true

/-- The stream is mixed at its turn, and comes to its end without starting anew. -/
def Ends (tick : Tick ι) (sound : ι) (s : State ι) : Prop :=
  let stream := atTurn tick sound s
  let read := Encode.framesRead tick.packetSize.outputFrames stream
  Plays sound s ∧ Encode.endAfter stream read = true ∧ read < tick.packetSize.outputFrames ∧
    (s.sounds sound).looping = false ∧ (s.sounds sound).loopCount ≤ 0

/-- Where a stream ends, its callbacks do not stop the stream of the next node while that
plays. -/
def Spares (tick : Tick ι) (node next : Node Nat ι) (s : State ι) : Prop :=
  Ends tick node.data s →
    stopsPlaying next.data (s.sounds next.data).playing (tick.calls node.data) = false

/-- The state behind the turns of those nodes. -/
def afterTurns (registryRef : RegistryRef) (tick : Tick ι) (nodes : List (Node Nat ι))
    (s : State ι) : State ι :=
  (NodeList.sweep State.streamList (visit registryRef tick) nodes (begin s)).2

/-- The loop comes to its end, and mixed each stream once whose node was in the list at the
beginning and still is at its turn, if it plays then. -/
def Survives (registryRef : RegistryRef) (tick : Tick ι) (s : State ι) : Prop :=
  ∃ final,
    (∀ fuel, s.streamList.nodes.length ≤ fuel →
      (audioEncodeEvent registryRef tick fuel s).2 = .finished final) ∧
    ∀ front node rest, s.streamList.nodes = front ++ node :: rest →
      let turn := afterTurns registryRef tick front s
      turn.streamList.linked node.address = true → (turn.sounds node.data).playing = true →
        final.processed.count node.data = 1

/-- The stream owns the reference. -/
def AudioStream.Owns (a : AudioStream) (ref : Nat) : Prop :=
  a.refrence = some ref ∨ a.reclaimRef = some ref

/-- The references of the streams are in use, and each is owned once. -/
structure Owned (sounds : ι → AudioStream) (registry : List Nat) : Prop where
  registered : ∀ sound ref, (sounds sound).Owns ref → ref ∈ registry
  apart : ∀ sound sound' ref, (sounds sound).Owns ref → (sounds sound').Owns ref → sound = sound'
  once : ∀ sound ref, (sounds sound).refrence = some ref → (sounds sound).reclaimRef ≠ some ref

/-- The nodes are those of streams with their references as indices, one for each. -/
structure State.WellFormed (s : State ι) : Prop where
  listed : ∀ node ∈ s.streamList.nodes,
    (s.sounds node.data).refrence = some node.index ∧ (s.sounds node.data).reclaimed = false
  distinct : (s.streamList.nodes.map Node.data).Nodup
  owned : Owned s.sounds s.registry

omit [DecidableEq ι] in
/-- The indices of the nodes are distinct. -/
theorem State.WellFormed.index_nodup {s : State ι} (hs : s.WellFormed) :
    (s.streamList.nodes.map Node.index).Nodup := by
  apply List.Nodup.map_on _ hs.distinct.of_map
  intro node hnode other hother hindex
  apply List.inj_on_of_nodup_map hs.distinct hnode hother
  apply hs.owned.apart _ _ node.index
  · exact .inl (hs.listed node hnode).1
  · exact .inl (hindex ▸ (hs.listed other hother).1)

/-- References stay with their owners if a stream gets fresh ones only. -/
theorem Owned.update {sounds : ι → AudioStream} {registry registry' : List Nat}
    (h : Owned sounds registry) (sound : ι) (a : AudioStream)
    (hsub : ∀ ref ∈ registry, ref ∈ registry')
    (howns : ∀ ref, a.Owns ref →
      (sounds sound).Owns ref ∨ (ref ∈ registry' ∧ ref ∉ registry))
    (honce : ∀ ref, a.refrence = some ref → a.reclaimRef ≠ some ref) :
    Owned (Function.update sounds sound a) registry' := by
  have hapart (other : ι) (ref : Nat) (hne : other ≠ sound) (ha : a.Owns ref)
      (hother : (sounds other).Owns ref) : False := by
    rcases howns ref ha with hold | ⟨-, hfresh⟩
    · exact hne (h.apart other sound ref hother hold)
    · exact hfresh (h.registered other ref hother)
  constructor
  · intro x ref hx
    by_cases hsound : x = sound
    · rw [hsound, Function.update_self] at hx
      rcases howns ref hx with hold | ⟨hmem, -⟩
      · exact hsub ref (h.registered sound ref hold)
      · exact hmem
    · rw [Function.update_of_ne hsound] at hx
      exact hsub ref (h.registered x ref hx)
  · intro x y ref hx hy
    by_cases hxs : x = sound <;> by_cases hys : y = sound
    · rw [hxs, hys]
    · rw [hxs, Function.update_self] at hx
      rw [Function.update_of_ne hys] at hy
      exact absurd (hapart y ref hys hx hy) not_false
    · rw [Function.update_of_ne hxs] at hx
      rw [hys, Function.update_self] at hy
      exact absurd (hapart x ref hxs hy hx) not_false
    · rw [Function.update_of_ne hxs] at hx
      rw [Function.update_of_ne hys] at hy
      exact h.apart x y ref hx hy
  · intro x
    by_cases hsound : x = sound
    · rw [hsound, Function.update_self]
      exact honce
    · rw [Function.update_of_ne hsound]
      exact h.once x

/-- A reference that is given back is free. -/
theorem Owned.release {sounds : ι → AudioStream} {registry : List Nat} (h : Owned sounds registry)
    {sound : ι} {ref : Nat} (href : (sounds sound).reclaimRef = some ref) :
    Owned (Function.update sounds sound { sounds sound with reclaimRef := none })
      (registry.filter fun other => other ≠ ref) := by
  have hrest := h.update sound { sounds sound with reclaimRef := none } (fun ref hmem => hmem)
    (fun ref howns => .inl (.inl (howns.resolve_right (by simp)))) (fun _ _ => by simp)
  refine ⟨?_, hrest.apart, hrest.once⟩
  intro x other hx
  apply List.mem_filter.mpr
  refine ⟨hrest.registered x other hx, ?_⟩
  rw [decide_eq_true_eq]
  rintro rfl
  by_cases hsound : x = sound
  · rw [hsound, Function.update_self] at hx
    exact h.once sound other (hx.resolve_right (by simp)) href
  · rw [Function.update_of_ne hsound] at hx
    exact hsound (h.apart x sound other hx (.inr href))

section Modify

variable (s : State ι) (sound : ι) (f g : AudioStream → AudioStream)

@[simp] theorem modify_sounds_self : (s.modify sound f).sounds sound = f (s.sounds sound) :=
  Function.update_self ..

@[simp] theorem modify_streamList : (s.modify sound f).streamList = s.streamList := rfl

@[simp] theorem modify_modify :
    (s.modify sound f).modify sound g = s.modify sound fun a => g (f a) := by
  simp [State.modify]

/-- A change may be stated by its result. -/
theorem modify_const : s.modify sound f = s.modify sound fun _ => f (s.sounds sound) := rfl

theorem modify_same : (s.modify sound fun _ => s.sounds sound) = s := by
  simp [State.modify]

end Modify

/-- What calls and the loop do to a stream: change it, put it in the list with a reference that
it owned or with a fresh one, or take it out. -/
inductive Effect (sound : ι) (s : State ι) : State ι → Prop
  | changed (a : AudioStream) (hrefrence : a.refrence = (s.sounds sound).refrence)
      (hreclaimRef : a.reclaimRef = (s.sounds sound).reclaimRef)
      (hreclaimed : a.refrence ≠ none → a.reclaimed = (s.sounds sound).reclaimed) :
      Effect sound s (s.modify sound fun _ => a)
  | enlisted (a : AudioStream) (ref : Nat) (registry : List Nat)
      (hnone : (s.sounds sound).refrence = none) (hrefrence : a.refrence = some ref)
      (hreclaimed : a.reclaimed = false)
      (hregistry : registry = s.registry ∧ (s.sounds sound).reclaimRef = some ref ∧
          a.reclaimRef = none ∨
        registry = ref :: s.registry ∧ ref ∉ s.registry ∧
          a.reclaimRef = (s.sounds sound).reclaimRef) :
      Effect sound s { s.modify sound fun _ => a with
        registry := registry, streamList := s.streamList.add ref sound }
  | delisted (a : AudioStream) (ref : Nat) (hrefrence : (s.sounds sound).refrence = some ref)
      (hnone : a.refrence = none) (hreclaimRef : a.reclaimRef = some ref) :
      Effect sound s { s.modify sound fun _ => a with streamList := s.streamList.remove ref }

section Effects

variable {sound : ι} {s : State ι} (registryRef : RegistryRef)

theorem audiostreamPlay_of_listed (href : (s.sounds sound).refrence ≠ none) :
    audiostreamPlay registryRef sound s =
      s.modify sound fun a => { a with playing := true } := by
  obtain ⟨ref, href⟩ := Option.ne_none_iff_exists'.mp href
  simp [audiostreamPlay, audiostreamResetPlaybackState, href]

theorem audiostreamStop_of_listed (hplaying : (s.sounds sound).playing = true) {ref : Nat}
    (href : (s.sounds sound).refrence = some ref) :
    (audiostreamStop sound s).streamList = s.streamList.remove ref := by
  simp [audiostreamStop, hplaying, audioTransmissionUnreferenceLocked, href,
    audiostreamResetPlaybackState]

theorem Effect.same : Effect sound s s := by
  have hsame : Effect sound s (s.modify sound fun _ => s.sounds sound) :=
    .changed _ rfl rfl fun _ => rfl
  rwa [modify_same] at hsame

/-- A stream that was not in the list is put there with the reference it kept, or with a fresh
one. -/
theorem audiostreamPlay_of_not_listed (hnone : (s.sounds sound).refrence = none) :
    ∃ a ref registry, audiostreamPlay registryRef sound s =
        { s.modify sound fun _ => a with
          registry := registry, streamList := s.streamList.add ref sound } ∧
      a.refrence = some ref ∧ a.reclaimed = false ∧
      (registry = s.registry ∧ (s.sounds sound).reclaimRef = some ref ∧ a.reclaimRef = none ∨
        registry = ref :: s.registry ∧ ref ∉ s.registry ∧
          a.reclaimRef = (s.sounds sound).reclaimRef) := by
  have hfresh := registryRef.fresh s.registry
  cases hreclaimed : (s.sounds sound).reclaimed with
  | false =>
      refine ⟨{ s.sounds sound with
        playing := true, refrence := some (registryRef.ref s.registry) }, _, _, ?_, rfl,
          hreclaimed, .inr ⟨rfl, hfresh, rfl⟩⟩
      simp [audiostreamPlay, audiostreamResetPlaybackState, audioTransmissionReference,
        cancelReclamation, hnone, hreclaimed, State.modify]
  | true =>
      cases hreclaimRef : (s.sounds sound).reclaimRef with
      | some ref =>
          refine ⟨{ s.sounds sound with
            playing := true, reclaimed := false, refrence := some ref, reclaimRef := none }, _, _,
              ?_, rfl, rfl, .inl ⟨rfl, rfl, rfl⟩⟩
          simp [audiostreamPlay, audiostreamResetPlaybackState, audioTransmissionReference,
            cancelReclamation, hnone, hreclaimed, hreclaimRef, State.modify]
      | none =>
          refine ⟨{ s.sounds sound with
            playing := true, reclaimed := false, refrence := some (registryRef.ref s.registry) },
              _, _, ?_, rfl, rfl, .inr ⟨rfl, hfresh, hreclaimRef⟩⟩
          simp [audiostreamPlay, audiostreamResetPlaybackState, audioTransmissionReference,
            cancelReclamation, hnone, hreclaimed, hreclaimRef, State.modify]

theorem Effect.play : Effect sound s (audiostreamPlay registryRef sound s) := by
  cases href : (s.sounds sound).refrence with
  | some ref =>
      rw [audiostreamPlay_of_listed registryRef (by simp [href]), modify_const]
      exact .changed _ rfl rfl fun _ => rfl
  | none =>
      obtain ⟨a, ref, registry, heq, hrefrence, hreclaimed, hregistry⟩ :=
        audiostreamPlay_of_not_listed registryRef href
      rw [heq]
      exact .enlisted a ref registry href hrefrence hreclaimed hregistry

theorem Effect.unreference : Effect sound s (audioTransmissionUnreferenceLocked sound s) := by
  cases href : (s.sounds sound).refrence with
  | some ref =>
      have heq : audioTransmissionUnreferenceLocked sound s =
          { s.modify sound fun a => { a with
              reclaimed := true, reclaimRef := a.refrence, refrence := none, playing := false } with
            streamList := s.streamList.remove ref } := by
        simp [audioTransmissionUnreferenceLocked, audiostreamResetPlaybackState, href,
          State.modify]
      rw [heq, modify_const]
      exact .delisted _ ref href rfl href
  | none =>
      have heq : audioTransmissionUnreferenceLocked sound s =
          s.modify sound fun a => { a with reclaimed := true, playing := false } := by
        simp [audioTransmissionUnreferenceLocked, audiostreamResetPlaybackState, href]
      rw [heq, modify_const]
      exact .changed _ rfl rfl fun hsome => absurd href hsome

/-- The effect of a call on a stream. -/
theorem Effect.run (method : Method) : Effect sound s (method.run registryRef sound s) := by
  cases method with
  | play => exact .play registryRef
  | pause => exact .changed _ rfl rfl fun _ => rfl
  | stop =>
      simp only [Method.run, audiostreamStop]
      split
      · exact .unreference
      · exact .same

variable {s' : State ι}

theorem Effect.processed (h : Effect sound s s') : s'.processed = s.processed := by
  cases h <;> rfl

theorem Effect.mix (h : Effect sound s s') : s'.mix = s.mix := by
  cases h <;> rfl

theorem Effect.evolves (h : Effect sound s s') : s.streamList.Evolves s'.streamList := by
  cases h with
  | changed => exact NodeList.Evolves.refl _
  | enlisted => exact NodeList.Evolves.add ..
  | delisted => exact NodeList.Evolves.remove ..

theorem Effect.sounds_of_ne (h : Effect sound s s') {other : ι} (hne : other ≠ sound) :
    s'.sounds other = s.sounds other := by
  cases h <;> exact Function.update_of_ne hne ..

/-- The nodes of other streams stay. -/
theorem Effect.mem_of_ne (hs : s.WellFormed) (h : Effect sound s s') {node : Node Nat ι}
    (hnode : node ∈ s.streamList.nodes) (hne : node.data ≠ sound) :
    node ∈ s'.streamList.nodes := by
  cases h with
  | changed => exact hnode
  | enlisted => exact List.mem_cons_of_mem _ hnode
  | delisted a ref hrefrence =>
      apply (NodeList.mem_remove_iff hs.index_nodup).mpr
      refine ⟨hnode, ?_⟩
      intro hindex
      apply hne
      apply hs.owned.apart _ _ ref
      · exact .inl (hindex ▸ (hs.listed node hnode).1)
      · exact .inl hrefrence

theorem Effect.owned (hs : Owned s.sounds s.registry) (h : Effect sound s s') :
    Owned s'.sounds s'.registry := by
  cases h with
  | changed a hrefrence hreclaimRef hreclaimed =>
      apply hs.update sound a (fun ref hmem => hmem)
      · intro ref howns
        left
        rwa [AudioStream.Owns, ← hrefrence, ← hreclaimRef]
      · intro ref
        rw [hrefrence, hreclaimRef]
        exact hs.once sound ref
  | enlisted a ref registry hnone hrefrence hreclaimed hregistry =>
      rcases hregistry with ⟨rfl, hkept, hreclaimRef⟩ | ⟨rfl, hfresh, hreclaimRef⟩
      · apply hs.update sound a (fun ref hmem => hmem)
        · rintro other (howns | howns)
          · exact .inl (.inr (hkept.trans (hrefrence.symm.trans howns)))
          · exact absurd (hreclaimRef.symm.trans howns) (by simp)
        · intro other howns
          rw [hreclaimRef]
          simp
      · apply hs.update sound a (fun ref hmem => List.mem_cons_of_mem _ hmem)
        · rintro other (howns | howns)
          · obtain rfl : ref = other := Option.some.inj (hrefrence.symm.trans howns)
            exact .inr ⟨List.mem_cons_self .., hfresh⟩
          · exact .inl (.inr (hreclaimRef.symm.trans howns))
        · intro other howns hold
          obtain rfl : ref = other := Option.some.inj (hrefrence.symm.trans howns)
          exact hfresh (hs.registered sound ref (.inr (hreclaimRef.symm.trans hold)))
  | delisted a ref hrefrence hnone hreclaimRef =>
      apply hs.update sound a (fun ref hmem => hmem)
      · rintro other (howns | howns)
        · exact absurd (hnone.symm.trans howns) (by simp)
        · exact .inl (.inl (hrefrence.trans (hreclaimRef.symm.trans howns)))
      · intro other howns
        exact absurd (hnone.symm.trans howns) (by simp)

/-- A node whose stream was not changed is as it was. -/
theorem State.WellFormed.listed_of_ne (hs : s.WellFormed) (a : AudioStream) {node : Node Nat ι}
    (hnode : node ∈ s.streamList.nodes) (hne : node.data ≠ sound) :
    (Function.update s.sounds sound a node.data).refrence = some node.index ∧
      (Function.update s.sounds sound a node.data).reclaimed = false := by
  rw [Function.update_of_ne hne]
  exact hs.listed node hnode

/-- Calls and the loop keep the streams well formed. -/
theorem Effect.wellFormed (hs : s.WellFormed) (h : Effect sound s s') : s'.WellFormed := by
  have howned := h.owned hs.owned
  cases h with
  | changed a hrefrence hreclaimRef hreclaimed =>
      refine ⟨?_, hs.distinct, howned⟩
      intro node hnode
      by_cases hne : node.data = sound
      · have hlisted := hs.listed node hnode
        rw [hne, ← hrefrence] at hlisted
        rw [hne, modify_sounds_self, hreclaimed (by simp [hlisted.1])]
        exact hlisted
      · exact hs.listed_of_ne a hnode hne
  | enlisted a ref registry hnone hrefrence hreclaimed hregistry =>
      have hout (node : Node Nat ι) (hnode : node ∈ s.streamList.nodes) : node.data ≠ sound := by
        intro hdata
        have hlisted := (hs.listed node hnode).1
        rw [hdata, hnone] at hlisted
        cases hlisted
      refine ⟨?_, ?_, howned⟩
      · intro node hnode
        rcases List.mem_cons.mp hnode with rfl | hnode
        · rw [modify_sounds_self]
          exact ⟨hrefrence, hreclaimed⟩
        · exact hs.listed_of_ne a hnode (hout node hnode)
      · apply List.nodup_cons.mpr
        refine ⟨?_, hs.distinct⟩
        intro hmem
        obtain ⟨node, hnode, hdata⟩ := List.mem_map.mp hmem
        exact hout node hnode hdata
  | delisted a ref hrefrence hnone hreclaimRef =>
      refine ⟨?_, hs.distinct.sublist (List.eraseP_sublist.map _), howned⟩
      intro node hnode
      obtain ⟨hnode, hindex⟩ := (NodeList.mem_remove_iff hs.index_nodup).mp hnode
      apply hs.listed_of_ne a hnode
      intro hdata
      have hlisted := (hs.listed node hnode).1
      rw [hdata, hrefrence, Option.some.injEq] at hlisted
      exact hindex hlisted.symm

end Effects

section Calls

variable {s : State ι} (registryRef : RegistryRef)

/-- What each call keeps, the calls keep. -/
theorem runCalls_invariant {P : State ι → Prop}
    (hstep : ∀ sound s s', P s → Effect sound s s' → P s') (calls : List (Method × ι))
    (hs : P s) : P (runCalls registryRef calls s) :=
  List.foldlRecOn (motive := P) calls _ hs fun s hs call _ =>
    hstep call.2 s _ hs (.run registryRef call.1)

theorem wellFormed_runCalls (hs : s.WellFormed) (calls : List (Method × ι)) :
    (runCalls registryRef calls s).WellFormed :=
  runCalls_invariant registryRef (fun _ _ _ hs heffect => heffect.wellFormed hs) calls hs

theorem evolves_runCalls (calls : List (Method × ι)) (s : State ι) :
    s.streamList.Evolves (runCalls registryRef calls s).streamList :=
  runCalls_invariant (P := fun s' => s.streamList.Evolves s'.streamList) registryRef
    (fun _ _ _ h heffect => h.trans heffect.evolves) calls (NodeList.Evolves.refl _)

theorem processed_runCalls (calls : List (Method × ι)) (s : State ι) :
    (runCalls registryRef calls s).processed = s.processed :=
  runCalls_invariant (P := fun s' => s'.processed = s.processed) registryRef
    (fun _ _ _ h heffect => heffect.processed.trans h) calls rfl

theorem mix_runCalls (calls : List (Method × ι)) (s : State ι) :
    (runCalls registryRef calls s).mix = s.mix :=
  runCalls_invariant (P := fun s' => s'.mix = s.mix) registryRef
    (fun _ _ _ h heffect => heffect.mix.trans h) calls rfl

/-- A node is left by calls just when they do not stop its stream while it plays. -/
theorem mem_runCalls_iff (hs : s.WellFormed) {node : Node Nat ι}
    (hnode : node ∈ s.streamList.nodes) (calls : List (Method × ι)) :
    node ∈ (runCalls registryRef calls s).streamList.nodes ↔
      stopsPlaying node.data (s.sounds node.data).playing calls = false := by
  induction calls generalizing s with
  | nil => exact iff_of_true hnode rfl
  | cons call calls ih =>
      obtain ⟨method, sound⟩ := call
      have heffect : Effect sound s (method.run registryRef sound s) := .run registryRef method
      have hs' := heffect.wellFormed hs
      have hlisted := (hs.listed node hnode).1
      change node ∈
        (runCalls registryRef calls (method.run registryRef sound s)).streamList.nodes ↔ _
      by_cases hsound : sound = node.data
      · subst hsound
        simp only [stopsPlaying, if_true]
        cases method with
        | play =>
            have hplay : audiostreamPlay registryRef node.data s =
                s.modify node.data fun a => { a with playing := true } :=
              audiostreamPlay_of_listed registryRef (by simp [hlisted])
            have hrest := ih hs' (by rw [Method.run, hplay]; exact hnode)
            rw [hrest, Method.run, hplay, modify_sounds_self]
        | pause =>
            have hrest := ih hs' hnode
            rw [hrest, Method.run, audiostreamPause, modify_sounds_self]
        | stop =>
            cases hplaying : (s.sounds node.data).playing with
            | false =>
                have hsame : Method.stop.run registryRef node.data s = s := by
                  simp [Method.run, audiostreamStop, hplaying]
                rw [hsame, ih hs hnode, hplaying, Bool.false_or]
            | true =>
                rw [Bool.true_or]
                apply iff_of_false _ (by simp)
                intro hmem
                have hevolves := evolves_runCalls registryRef calls
                  (Method.stop.run registryRef node.data s)
                have hlinked := hevolves.linked_before
                  (Nat.lt_of_lt_of_le (s.streamList.below node hnode) heffect.evolves.1)
                  (NodeList.linked_of_mem hmem)
                rw [heffect.evolves.linked_iff_mem hnode, Method.run,
                  audiostreamStop_of_listed hplaying hlisted,
                  NodeList.mem_remove_iff hs.index_nodup] at hlinked
                exact hlinked.2 rfl
      · have hne : node.data ≠ sound := Ne.symm hsound
        rw [ih hs' (heffect.mem_of_ne hs hnode hne), heffect.sounds_of_ne hne]
        simp only [stopsPlaying, if_neg hsound]

end Calls

section Turns

variable (registryRef : RegistryRef) (tick : Tick ι)

omit [DecidableEq ι] in
theorem ends_iff {sound : ι} {s : State ι} :
    Ends tick sound s ↔ Plays sound s ∧
      (Encode.endAfter (atTurn tick sound s)
          (Encode.framesRead tick.packetSize.outputFrames (atTurn tick sound s)) &&
        decide (Encode.framesRead tick.packetSize.outputFrames (atTurn tick sound s) <
          tick.packetSize.outputFrames)) = true ∧
      (s.sounds sound).looping = false ∧ (s.sounds sound).loopCount ≤ 0 := by
  simp only [Ends, Bool.and_eq_true, decide_eq_true_eq, and_assoc]

/-- A stream that comes to its end begins anew, or the callbacks run and it is taken out of the
list. -/
theorem handleAudioStreamEnd_cases (sound : ι) (s : State ι) :
    (¬ ((s.sounds sound).looping = false ∧ (s.sounds sound).loopCount ≤ 0) ∧
        ∃ s' mix, Effect sound s s' ∧ s'.streamList = s.streamList ∧
          handleAudioStreamEnd registryRef tick sound s = { s' with mix := mix }) ∨
      (((s.sounds sound).looping = false ∧ (s.sounds sound).loopCount ≤ 0) ∧
        handleAudioStreamEnd registryRef tick sound s =
          audioTransmissionUnreferenceLocked sound
            (runCalls registryRef (tick.calls sound) s)) := by
  by_cases hlooping : (s.sounds sound).looping = true
  · left
    refine ⟨by simp [hlooping], s, { s.mix with didLoop := true }, .same, rfl, ?_⟩
    rw [handleAudioStreamEnd, if_pos hlooping]
  · by_cases hcount : (s.sounds sound).loopCount > 0
    · left
      rw [handleAudioStreamEnd, if_neg hlooping, if_pos hcount]
      refine ⟨by simp [hcount], s.modify sound fun a => { a with loopCount := a.loopCount - 1 }, _,
        ?_, rfl, rfl⟩
      exact .changed _ rfl rfl fun _ => rfl
    · right
      refine ⟨⟨by simpa using hlooping, Int.not_lt.mp hcount⟩, ?_⟩
      rw [handleAudioStreamEnd, if_neg hlooping, if_neg hcount]

/-- What the turn of a node does: nothing, if its stream does not play; mix the stream, which
may begin anew; or mix it, let the callbacks run and take it out of the list. -/
theorem visit_cases (node : Node Nat ι) (s : State ι) :
    (¬ Plays node.data s ∧ visit registryRef tick node s = s) ∨
      (Plays node.data s ∧ ¬ Ends tick node.data s ∧ ∃ s' mix,
        Effect node.data { s with processed := s.processed ++ [node.data] } s' ∧
        s'.streamList = s.streamList ∧ visit registryRef tick node s = { s' with mix := mix }) ∨
      (Plays node.data s ∧ Ends tick node.data s ∧ ∃ mix,
        visit registryRef tick node s =
          { audioTransmissionUnreferenceLocked node.data
              (runCalls registryRef (tick.calls node.data)
                { s with processed := s.processed ++ [node.data] }) with mix := mix }) := by
  by_cases hplays : Plays node.data s
  · right
    have hfits : ¬ tick.packetSize.outputFrames > pcmBuffer := by
      have hle := Encode.outputFrames_le tick.packetSize
      simp only [pcmBuffer, audioPlaybackChannels]
      omega
    have hreclaimed : (atTurn tick node.data s).reclaimed = false := hplays.1
    simp only [visit, hplays.1, hplays.2, Bool.not_false, Bool.and_self, if_true, processAudioFile,
      hreclaimed, Bool.false_eq_true, if_false, hfits, ends_iff, hplays, true_and]
    by_cases hended : (Encode.endAfter (atTurn tick node.data s)
        (Encode.framesRead tick.packetSize.outputFrames (atTurn tick node.data s)) &&
      decide (Encode.framesRead tick.packetSize.outputFrames (atTurn tick node.data s) <
        tick.packetSize.outputFrames)) = true
    · simp only [hended, if_true, true_and]
      rcases handleAudioStreamEnd_cases registryRef tick node.data
          { s with processed := s.processed ++ [node.data] } with
        ⟨hanew, s', mix, heffect, hlist, heq⟩ | ⟨hends, heq⟩
      · left
        rw [heq]
        exact ⟨hanew, s', _, heffect, hlist, rfl⟩
      · right
        rw [heq]
        exact ⟨hends, _, rfl⟩
    · left
      simp only [hended]
      exact ⟨fun hends => absurd hends.1 Bool.false_ne_true, _, _, .same, rfl, rfl⟩
  · left
    refine ⟨hplays, ?_⟩
    rw [visit, if_neg]
    simpa [Plays] using hplays

variable {s : State ι}

/-- Turns keep what calls keep and what does not depend on the mix and on the log. -/
theorem visit_invariant {P : State ι → Prop}
    (hstep : ∀ sound s s', P s → Effect sound s s' → P s')
    (hmix : ∀ (s : State ι) mix processed, P s → P { s with mix := mix, processed := processed })
    (node : Node Nat ι) (hs : P s) : P (visit registryRef tick node s) := by
  have hnoted := hmix s s.mix (s.processed ++ [node.data]) hs
  rcases visit_cases registryRef tick node s with
    ⟨-, heq⟩ | ⟨-, -, s', mix, heffect, -, heq⟩ | ⟨-, -, mix, heq⟩
  · rw [heq]
    exact hs
  · rw [heq]
    exact hmix s' mix s'.processed (hstep _ _ _ hnoted heffect)
  · rw [heq]
    have hcalls := runCalls_invariant registryRef hstep (tick.calls node.data) hnoted
    exact hmix _ mix _ (hstep _ _ _ hcalls .unreference)

theorem wellFormed_visit (node : Node Nat ι) (hs : s.WellFormed) :
    (visit registryRef tick node s).WellFormed :=
  visit_invariant registryRef tick (fun _ _ _ hs heffect => heffect.wellFormed hs)
    (fun _ _ _ hs => ⟨hs.listed, hs.distinct, hs.owned⟩) node hs

theorem evolves_visit (node : Node Nat ι) (s : State ι) :
    s.streamList.Evolves (visit registryRef tick node s).streamList :=
  visit_invariant (P := fun s' => s.streamList.Evolves s'.streamList) registryRef tick
    (fun _ _ _ h heffect => h.trans heffect.evolves) (fun _ _ _ h => h) node
    (NodeList.Evolves.refl _)

/-- The log of a turn. -/
theorem processed_visit_of_plays {node : Node Nat ι} (hplays : Plays node.data s) :
    (visit registryRef tick node s).processed = s.processed ++ [node.data] := by
  rcases visit_cases registryRef tick node s with
    ⟨hnot, -⟩ | ⟨-, -, s', mix, heffect, -, heq⟩ | ⟨-, -, mix, heq⟩
  · exact absurd hplays hnot
  · rw [heq]
    exact heffect.processed
  · rw [heq]
    exact Effect.unreference.processed.trans (processed_runCalls registryRef _ _)

theorem processed_visit_of_not_plays {node : Node Nat ι} (hplays : ¬ Plays node.data s) :
    (visit registryRef tick node s).processed = s.processed := by
  rcases visit_cases registryRef tick node s with ⟨-, heq⟩ | ⟨h, -⟩ | ⟨h, -⟩
  · rw [heq]
  · exact absurd h hplays
  · exact absurd h hplays

/-- The turn of a node leaves another one in the list just when the callbacks spare it. -/
theorem spares_iff (hs : s.WellFormed) {node next : Node Nat ι}
    (hnode : node ∈ s.streamList.nodes) (hnext : next ∈ s.streamList.nodes)
    (hne : next.address ≠ node.address) :
    Spares tick node next s ↔
      (visit registryRef tick node s).streamList.linked next.address = true := by
  have hdata : next.data ≠ node.data := by
    intro heq
    exact hne (congrArg _ (List.inj_on_of_nodup_map hs.distinct hnext hnode heq))
  rw [(evolves_visit registryRef tick node s).linked_iff_mem hnext]
  have hkept (hnot : ¬ Ends tick node.data s) : Spares tick node next s :=
    fun hends => absurd hends hnot
  rcases visit_cases registryRef tick node s with
    ⟨hnot, heq⟩ | ⟨-, hnot, s', mix, -, hlist, heq⟩ | ⟨-, hends, mix, heq⟩
  · rw [heq]
    exact iff_of_true (hkept fun hends => hnot hends.1) hnext
  · rw [heq]
    apply iff_of_true (hkept hnot)
    change next ∈ s'.streamList.nodes
    rw [hlist]
    exact hnext
  · rw [heq, Spares, forall_prop_of_true hends]
    have hnoted : State.WellFormed { s with processed := s.processed ++ [node.data] } :=
      ⟨hs.listed, hs.distinct, hs.owned⟩
    have hmem := mem_runCalls_iff registryRef hnoted hnext (tick.calls node.data)
    have hcalls := wellFormed_runCalls registryRef hnoted (tick.calls node.data)
    rw [← hmem]
    constructor
    · intro hleft
      exact Effect.unreference.mem_of_ne hcalls hleft hdata
    · intro hleft
      have hevolves := evolves_runCalls registryRef (tick.calls node.data)
        { s with processed := s.processed ++ [node.data] }
      rw [← hevolves.linked_iff_mem hnext]
      have hlt := Nat.lt_of_lt_of_le (s.streamList.below next hnext) hevolves.1
      exact Effect.unreference.evolves.linked_before hlt (NodeList.linked_of_mem hleft)

theorem mix_handleAudioStreamEnd (sound : ι) (s : State ι) :
    (handleAudioStreamEnd registryRef tick sound s).mix =
      { s.mix with
        didLoop := s.mix.didLoop || Encode.handleAudioStreamEnd (atTurn tick sound s) } := by
  rw [handleAudioStreamEnd, Encode.handleAudioStreamEnd, atTurn]
  split
  · rename_i hlooping
    simp [hlooping]
  · rename_i hlooping
    split
    · rename_i hcount
      simp [Int.lt_toNat, hcount]
    · rename_i hcount
      rw [Effect.unreference.mix, mix_runCalls]
      simp [hlooping, Int.lt_toNat, hcount]

/-- A turn mixes the stream as it stands then. -/
theorem mix_visit (node : Node Nat ι) (s : State ι) :
    (visit registryRef tick node s).mix =
      Encode.mixStream tick.packetSize.outputFrames s.mix (atTurn tick node.data s) := by
  simp only [visit, Encode.mixStream, processAudioFile, Encode.processAudioFile]
  split
  · rename_i hplays
    have hplays' : (!(atTurn tick node.data s).reclaimed &&
        (atTurn tick node.data s).playing) = true := hplays
    rw [if_pos hplays']
    split
    · rfl
    · split
      · rfl
      · split
        · rw [mix_handleAudioStreamEnd]
          rfl
        · rfl
  · rename_i hnot
    have hnot' : ¬ (!(atTurn tick node.data s).reclaimed &&
        (atTurn tick node.data s).playing) = true := hnot
    rw [if_neg hnot']

/-- The streams of the nodes as they stand at their turns. -/
def streamsAtTurns : List (Node Nat ι) → State ι → List Encode.AudioStream
  | [], _ => []
  | node :: nodes, s =>
      if s.streamList.linked node.address then
        atTurn tick node.data s :: streamsAtTurns nodes (visit registryRef tick node s)
      else streamsAtTurns nodes s

/-- What the turns mix is the loop of `LuaMumble.Audio.Encode` over the streams as they stand at
their turns. -/
theorem mix_sweep (nodes : List (Node Nat ι)) (s : State ι) :
    (NodeList.sweep State.streamList (visit registryRef tick) nodes s).2.mix =
      (streamsAtTurns registryRef tick nodes s).foldl
        (Encode.mixStream tick.packetSize.outputFrames) s.mix := by
  induction nodes generalizing s with
  | nil => rfl
  | cons node nodes ih =>
      simp only [NodeList.sweep, streamsAtTurns]
      split
      · rw [List.foldl_cons, ← mix_visit registryRef tick]
        exact ih _
      · exact ih s

/-- The log of the turns of other nodes. -/
theorem count_sweep_of_not_mem {sound : ι} (nodes : List (Node Nat ι))
    (hout : sound ∉ nodes.map Node.data) (s : State ι) :
    (NodeList.sweep State.streamList (visit registryRef tick) nodes s).2.processed.count sound =
      s.processed.count sound := by
  induction nodes generalizing s with
  | nil => rfl
  | cons node nodes ih =>
      rw [List.map_cons, List.mem_cons, not_or] at hout
      simp only [NodeList.sweep]
      split
      · rw [ih hout.2]
        by_cases hplays : Plays node.data s
        · rw [processed_visit_of_plays registryRef tick hplays, List.count_append,
            List.count_singleton, if_neg (by simpa using Ne.symm hout.1), Nat.add_zero]
        · rw [processed_visit_of_not_plays registryRef tick hplays]
      · exact ih hout.2 s

omit [DecidableEq ι] in
theorem State.WellFormed.begin (hs : s.WellFormed) : (begin s).WellFormed :=
  ⟨hs.listed, hs.distinct, hs.owned⟩

/-- A stream that is in the list at its turn and plays is mixed once. -/
theorem count_processed (hs : s.WellFormed) {front rest : List (Node Nat ι)} {node : Node Nat ι}
    (hsplit : s.streamList.nodes = front ++ node :: rest)
    (hlinked : (afterTurns registryRef tick front s).streamList.linked node.address = true)
    (hplaying : ((afterTurns registryRef tick front s).sounds node.data).playing = true) :
    (afterTurns registryRef tick s.streamList.nodes s).processed.count node.data = 1 := by
  have hdistinct := hs.distinct
  rw [hsplit, List.map_append, List.map_cons, List.nodup_append, List.nodup_cons] at hdistinct
  obtain ⟨-, ⟨hrest, -⟩, hfront⟩ := hdistinct
  have hnotFront : node.data ∉ front.map Node.data := by
    intro hmem
    exact hfront _ hmem _ (List.mem_cons_self ..) rfl
  have hturn : (afterTurns registryRef tick front s).WellFormed :=
    NodeList.sweep_invariant (fun node s hs => wellFormed_visit registryRef tick node hs) front
      hs.begin
  have hmem : node ∈ (afterTurns registryRef tick front s).streamList.nodes := by
    have hevolves : s.streamList.Evolves (afterTurns registryRef tick front s).streamList :=
      NodeList.sweep_evolves (evolves_visit registryRef tick) front (begin s)
    apply (hevolves.linked_iff_mem _).mp hlinked
    rw [hsplit]
    exact List.mem_append_right _ (List.mem_cons_self ..)
  have hplays : Plays node.data (afterTurns registryRef tick front s) :=
    ⟨(hturn.listed node hmem).2, hplaying⟩
  have hbefore : (afterTurns registryRef tick front s).processed.count node.data = 0 :=
    count_sweep_of_not_mem registryRef tick front hnotFront (begin s)
  rw [hsplit, afterTurns, NodeList.sweep_append]
  change (NodeList.sweep State.streamList (visit registryRef tick) (node :: rest)
    (afterTurns registryRef tick front s)).2.processed.count node.data = 1
  simp only [NodeList.sweep, if_pos hlinked]
  rw [count_sweep_of_not_mem registryRef tick rest hrest,
    processed_visit_of_plays registryRef tick hplays, List.count_append, hbefore,
    List.count_singleton_self]

/-- A loop that comes to its end has made the turns of the nodes that the list had at its
beginning. -/
theorem final_eq_afterTurns {fuel : Nat} (hfuel : s.streamList.nodes.length ≤ fuel)
    {final : State ι} (hfinal : (audioEncodeEvent registryRef tick fuel s).2 = .finished final) :
    final = afterTurns registryRef tick s.streamList.nodes s := by
  have hwalk := NodeList.walk_eq_sweep (evolves_visit registryRef tick) (begin s) hfuel
  by_cases hstays : NodeList.NextStays State.streamList (visit registryRef tick)
      s.streamList.nodes (begin s)
  · have hend := congrArg Prod.snd (hwalk.1 hstays)
    exact NodeList.Outcome.finished.inj (hfinal.symm.trans hend)
  · have hdangling := hwalk.2 hstays
    cases hfinal.symm.trans hdangling

/-- The tick of `LuaMumble.Audio.Encode` with the streams as they stand at their turns has the
mix of the loop. -/
theorem mix_audioEncodeEvent {fuel : Nat} (hfuel : s.streamList.nodes.length ≤ fuel)
    {final : State ι} (hfinal : (audioEncodeEvent registryRef tick fuel s).2 = .finished final)
    (pipes : List Encode.AudioPipe) :
    final.mix = Encode.Tick.files
      { packetSize := tick.packetSize
        streamList := streamsAtTurns registryRef tick s.streamList.nodes (begin s)
        audioPipes := pipes } := by
  rw [final_eq_afterTurns registryRef tick hfuel hfinal]
  exact mix_sweep registryRef tick s.streamList.nodes (begin s)

end Turns

section Runs

/-- `audiostream_setLooping` -/
def audiostreamSetLooping (sound : ι) (argument : LoopArgument) (s : State ι) : State ι :=
  s.modify sound fun a =>
    match argument with
    | .number n => { a with looping := false, loopCount := n.toInt32.toInt }
    | .boolean b => { a with looping := b, loopCount := 0 }

/-- What `sound_clean_reclaimed` does to a stream of its queue. -/
def releaseReclaimed (sound : ι) (s : State ι) : State ι :=
  match (s.sounds sound).reclaimRef with
  | some ref =>
      { s.modify sound fun a => { a with reclaimRef := none } with
        registry := s.registry.filter fun other => other ≠ ref }
  | none => s

/-- The states that a client gets to by calls of a script and ticks of the mixer. -/
inductive Reachable (registryRef : RegistryRef) : State ι → Prop
  | opened : Reachable registryRef opened
  | call {s : State ι} (method : Method) (sound : ι) (hs : Reachable registryRef s) :
      Reachable registryRef (method.run registryRef sound s)
  | setLooping {s : State ι} (sound : ι) (argument : LoopArgument) (hs : Reachable registryRef s) :
      Reachable registryRef (audiostreamSetLooping sound argument s)
  | release {s : State ι} (sound : ι) (hs : Reachable registryRef s) :
      Reachable registryRef (releaseReclaimed sound s)
  | tick {s final : State ι} (tick : Tick ι) (fuel : Nat) (hs : Reachable registryRef s)
      (hfinal : (audioEncodeEvent registryRef tick fuel s).2 = .finished final) :
      Reachable registryRef final

omit [DecidableEq ι] in
theorem opened_wellFormed : (opened : State ι).WellFormed := by
  refine ⟨List.forall_mem_nil _, List.nodup_nil, ?_, ?_, ?_⟩
  · rintro sound ref (howns | howns) <;> cases howns
  · rintro sound sound' ref (howns | howns) <;> cases howns
  · intro sound ref howns
    cases howns

/-- The streams are well formed when a tick begins. -/
theorem Reachable.wellFormed {registryRef : RegistryRef} {s : State ι}
    (h : Reachable registryRef s) : s.WellFormed := by
  induction h with
  | opened => exact opened_wellFormed
  | call method sound _ ih => exact (Effect.run registryRef method).wellFormed ih
  | @setLooping s sound argument _ ih =>
      have heffect : Effect sound s (audiostreamSetLooping sound argument s) := by
        cases argument <;> exact .changed _ rfl rfl fun _ => rfl
      exact heffect.wellFormed ih
  | @release s sound _ ih =>
      rw [releaseReclaimed]
      split
      · rename_i ref href
        refine ⟨?_, ih.distinct, ih.owned.release href⟩
        intro node hnode
        by_cases hne : node.data = sound
        · rw [hne, modify_sounds_self, ← hne]
          exact ih.listed node hnode
        · exact ih.listed_of_ne _ hnode hne
      · exact ih
  | tick tick fuel _ hfinal ih =>
      exact NodeList.walk_invariant
        (fun node s hs => wellFormed_visit registryRef tick node hs) ih.begin hfinal

end Runs

/-- For every list of streams and every behaviour of the callbacks: the loop survives the tick
just when no callback that was called at the end of a stream stops the stream of the next node
while that plays. -/
theorem survives_iff (registryRef : RegistryRef) (tick : Tick ι) {s : State ι}
    (hs : s.WellFormed) :
    Survives registryRef tick s ↔
      NodeList.AtTurns State.streamList (visit registryRef tick) (Spares tick)
        s.streamList.nodes (begin s) := by
  have hpending : (begin s).streamList.present s.streamList.nodes <:+ s.streamList.nodes :=
    ⟨[], NodeList.present_nodes s.streamList⟩
  have hstays := NodeList.nextStays_iff_atTurns (evolves_visit registryRef tick)
    (fun node s hs => wellFormed_visit registryRef tick node hs)
    (fun node next s hs => spares_iff registryRef tick hs) s.streamList.nodes (begin s) hs.begin
    hpending s.streamList.below
  have hwalk (fuel : Nat) (hfuel : s.streamList.nodes.length ≤ fuel) :=
    NodeList.walk_eq_sweep (evolves_visit registryRef tick) (begin s) hfuel
  rw [← hstays]
  constructor
  · rintro ⟨final, hfinished, -⟩
    by_contra hnot
    have hdangling := (hwalk _ (Nat.le_refl _)).2 hnot
    have hfinal := hfinished _ (Nat.le_refl _)
    rw [audioEncodeEvent] at hfinal
    cases hfinal.symm.trans hdangling
  · intro h
    refine ⟨afterTurns registryRef tick s.streamList.nodes s, ?_, ?_⟩
    · intro fuel hfuel
      have hfinal := (hwalk fuel hfuel).1 h
      exact congrArg Prod.snd hfinal
    · intro front node rest hsplit
      exact count_processed registryRef tick hs hsplit

section TwoStreams

/-- A registry that counts on. -/
def countOn : RegistryRef :=
  { ref := fun registry => registry.max?.getD 0 + 1
    fresh := by
      intro registry hmem
      have hle : registry.max?.getD 0 + 1 ≤ registry.max?.getD 0 := List.le_max?_getD_of_mem hmem
      omega }

/-- Two streams play, and `true` is the first in the list. -/
def twoStreams : State Bool := runCalls countOn [(.play, false), (.play, true)] opened

theorem twoStreams_wellFormed : twoStreams.WellFormed :=
  wellFormed_runCalls countOn opened_wellFormed _

/-- A tick in which the first of the two streams comes to its end. -/
def endingTick (calls : List (Call true)) : Tick Bool :=
  { packetSize := .small
    playback := fun sound => ⟨if sound then 5 else 960, sound, 0, 0, false⟩
    onAudioStreamEnd := fun
      | true => calls
      | false => [] }

/-- The callback may pause the other stream, and stop it then. -/
theorem survives_paused :
    Survives countOn (endingTick [⟨.pause, false, by decide⟩, ⟨.stop, false, by decide⟩])
      twoStreams := by
  apply (survives_iff countOn _ twoStreams_wellFormed).mpr
  apply NodeList.atTurns_of_forall
  intro node next s _
  generalize node.data = sound, next.data = target, (s.sounds next.data).playing = playing
  revert sound target playing
  decide

/-- If it stops the other stream while that plays, the loop goes on at a node that is not there
any more. -/
theorem stopped_next_dangles :
    ¬ ∀ (registryRef : RegistryRef) (tick : Tick Bool) (s : State Bool), s.WellFormed →
      Survives registryRef tick s := by
  intro h
  obtain ⟨final, hfinished, -⟩ := h countOn (endingTick [⟨.stop, false, by decide⟩]) twoStreams
    twoStreams_wellFormed
  have hfinal := hfinished 2 (by decide)
  have hdangling : (audioEncodeEvent countOn (endingTick [⟨.stop, false, by decide⟩]) 2
      twoStreams).2 = .dangling := rfl
  cases hfinal.symm.trans hdangling

end TwoStreams

end LuaMumble.Audio.Mixer
