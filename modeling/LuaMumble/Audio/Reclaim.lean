import LuaMumble.Lib.LinkList
import LuaMumble.Lib.Machine
import Mathlib.Logic.Function.Basic

/-!
How audio streams are kept from the garbage collector while they are in use. A stream
that plays has a reference in the registry of its client and a node in `stream_list`,
where the buffer thread finds and pins it. A stop keeps the reference as `reclaim_ref`;
whoever is the last to use the stream queues it in `reclaim_list`, and the main thread
gives the references of the queued streams back.

The model has the streams of one client, the buffer thread, the main thread with the
call that it is in, and the collector. Every step is one access to an atomic member or
one block under a mutex, with the accesses to plain members around it, and shows the
stream that it reads or writes.
-/

namespace LuaMumble.Audio.Reclaim

open Lib

variable {ι : Type} [DecidableEq ι]

/-- What reclamation uses of an `AudioStream`; a reference is `none` for `LUA_NOREF`. -/
structure AudioStream where
  refrence : Option Nat
  reclaimRef : Option Nat
  usecount : Int
  reclaimed : Bool
  playing : Bool

/-- A node of a list of streams. Its index is the reference that `list_add` was given:
the conversion of an `int` to `uint32_t` keeps the references, and `LUA_NOREF`, apart. -/
abbrev LinkNode (ι : Type) := Option Nat × ι

/-- What is next in `sound_try_pin` behind its first test, all under the mutex of the
lists: count the pin, test again, drop the pin. -/
inductive Pinning where
  | adding
  | rechecking
  | dropping
deriving DecidableEq

/-- What is next on a pinned stream: read its state, use it or unpin it, and in
`sound_unpin_schedule_unref_if_needed` behind the decrement: test `reclaimed`, test
`reclaim_ref`, queue. -/
inductive Pinned where
  | reading
  | inUse
  | unpinned
  | checking
  | queueing
deriving DecidableEq

/-- Where `mumble_audio_buffer_thread` is: asleep, about to visit the nodes from `current`
on, in the attempt to pin a stream, at a pinned stream, or about to look for the next
node behind a stream it let go. -/
inductive BufferThread (ι : Type) where
  | away
  | walking (current : List (LinkNode ι))
  | pinning (stage : Pinning) (sound : ι) (next : List (LinkNode ι))
  | pinned (stage : Pinned) (sound : ι)
  | relocking (sound : ι)

/-- What is next in `audio_transmission_unreference`. -/
inductive Stop where
  | unlisting
  | marking
  | transferring
  | checkingUse
  | queueing
deriving DecidableEq

/-- What is next in `audio_transmission_reference`. -/
inductive Play where
  | loading
  | clearing
  | cancelling
  | removing
  | referencing
  | listing
deriving DecidableEq

/-- The call that the main thread is in. `sound_clean_reclaimed` is about to pop a node, or
to give back the reference of the stream it popped. -/
inductive MainThread (ι : Type) where
  | idle
  | popping
  | releasing (sound : ι)
  | stopping (stage : Stop) (sound : ι)
  | playing (stage : Play) (sound : ι)

/-- `script` says which streams a script can reach, `collected` which ones the collector
has freed. -/
structure State (ι : Type) where
  sounds : ι → AudioStream
  script : ι → Bool
  collected : ι → Bool
  registry : List (Nat × ι)
  streamList : List (LinkNode ι)
  reclaimList : List (LinkNode ι)
  thread : BufferThread ι
  main : MainThread ι

/-- What happens next: a step of the buffer thread, an access to the stream it has pinned, in
its mutex or outside, a step of the call the main thread is in, the beginning of a
call, a script that loses its last reference or takes one from the registry, or the
collection of a stream. `key` is what `luaL_ref` gives when the step asks for a reference. -/
inductive Input (ι : Type) where
  | buffer
  | use (locked : Bool)
  | main (key : Nat)
  | stop (sound : ι)
  | play (sound : ι)
  | clean
  | forget (sound : ι)
  | acquire (sound : ι)
  | collect (sound : ι)

/-- `client_openAudio` -/
def openAudio : AudioStream :=
  { refrence := none, reclaimRef := none, usecount := 0, reclaimed := false, playing := false }

/-- All streams are open, and only the script has them. -/
def opened : State ι :=
  { sounds := fun _ => openAudio
    script := fun _ => true
    collected := fun _ => false
    registry := []
    streamList := []
    reclaimList := []
    thread := .away
    main := .idle }

/-- `list_add` -/
def listAdd (nodes : List (LinkNode ι)) (index : Option Nat) (data : ι) : List (LinkNode ι) :=
  (index, data) :: nodes

/-- `list_remove` -/
def listRemove (nodes : List (LinkNode ι)) (index : Option Nat) : List (LinkNode ι) :=
  LinkList.remove index nodes

/-- The buffer thread holds `inner_mutex`. -/
def BufferThread.holdsInner : BufferThread ι → Bool
  | .walking _ | .pinning .. => true
  | _ => false

/-- The main thread holds the mutex of the stream. -/
def MainThread.holdsMutex (main : MainThread ι) (x : ι) : Bool :=
  match main with
  | .stopping _ sound => sound = x
  | _ => false

/-- The stream is the argument of the call that the main thread is in. -/
def MainThread.argument (main : MainThread ι) (x : ι) : Bool :=
  match main with
  | .stopping _ sound => sound = x
  | .playing _ sound => sound = x
  | _ => false

def State.modify (s : State ι) (sound : ι) (f : AudioStream → AudioStream) : State ι :=
  { s with sounds := Function.update s.sounds sound (f (s.sounds sound)) }

/-- The next step of `mumble_audio_buffer_thread`. -/
def bufferStep (s : State ι) : Option ι × State ι :=
  match s.thread with
  | .away => (none, { s with thread := .walking s.streamList })
  | .walking [] => (none, { s with thread := .away })
  | .walking ((_, sound) :: next) =>
      if (s.sounds sound).reclaimed then (some sound, { s with thread := .walking next })
      else (some sound, { s with thread := .pinning .adding sound next })
  | .pinning .adding sound next =>
      (some sound, { s.modify sound fun a => { a with usecount := a.usecount + 1 } with
        thread := .pinning .rechecking sound next })
  | .pinning .rechecking sound next =>
      if (s.sounds sound).reclaimed then
        (some sound, { s with thread := .pinning .dropping sound next })
      else (some sound, { s with thread := .pinned .reading sound })
  | .pinning .dropping sound next =>
      (some sound, { s.modify sound fun a => { a with usecount := a.usecount - 1 } with
        thread := .walking next })
  | .pinned .reading sound =>
      if s.main.holdsMutex sound then (none, s)
      else (some sound, { s with thread := .pinned .inUse sound })
  | .pinned .inUse sound =>
      let prev := (s.sounds sound).usecount
      (some sound, { s.modify sound fun a => { a with usecount := a.usecount - 1 } with
        thread := if prev = 1 then .pinned .unpinned sound else .relocking sound })
  | .pinned .unpinned sound =>
      if (s.sounds sound).reclaimed then
        (some sound, { s with thread := .pinned .checking sound })
      else (some sound, { s with thread := .relocking sound })
  | .pinned .checking sound =>
      if (s.sounds sound).reclaimRef.isSome then
        (some sound, { s with thread := .pinned .queueing sound })
      else (some sound, { s with thread := .relocking sound })
  | .pinned .queueing sound =>
      (some sound, { s with
        reclaimList := listAdd s.reclaimList (s.sounds sound).reclaimRef sound
        thread := .relocking sound })
  | .relocking sound =>
      match s.streamList.dropWhile (fun node => node.2 ≠ sound) with
      | _ :: next => (none, { s with thread := .walking next })
      | [] => (none, { s with thread := .walking s.streamList })

/-- The next step of `audio_transmission_unreference`. The reset of the playback state is
where the references move. -/
def stopStep (s : State ι) (sound : ι) : Stop → Option ι × State ι
  | .unlisting =>
      if s.thread.holdsInner then (none, s)
      else
        (some sound, { s with
          streamList :=
            if (s.sounds sound).refrence.isSome then
              listRemove s.streamList (s.sounds sound).refrence
            else s.streamList
          main := .stopping .marking sound })
  | .marking =>
      (some sound, { s.modify sound fun a => { a with reclaimed := true } with
        main := .stopping .transferring sound })
  | .transferring =>
      let move (a : AudioStream) : AudioStream :=
        if a.refrence.isSome then { a with reclaimRef := a.refrence, refrence := none } else a
      (some sound, { s.modify sound fun a => { move a with playing := false } with
        main := .stopping .checkingUse sound })
  | .checkingUse =>
      let a := s.sounds sound
      if a.usecount = 0 ∧ a.reclaimRef.isSome then
        (some sound, { s with main := .stopping .queueing sound })
      else (some sound, { s with main := .idle })
  | .queueing =>
      if s.thread.holdsInner then (none, s)
      else
        (some sound, { s with
          reclaimList := listAdd s.reclaimList (s.sounds sound).reclaimRef sound
          main := .idle })

/-- The next step of `audio_transmission_reference`. A key is only given if it is free. -/
def playStep (s : State ι) (sound : ι) (key : Nat) : Play → Option ι × State ι
  | .loading =>
      if (s.sounds sound).reclaimed then
        (some sound, { s with main := .playing .clearing sound })
      else (some sound, { s with main := .playing .referencing sound })
  | .clearing =>
      (some sound, { s.modify sound fun a => { a with reclaimed := false } with
        main := .playing .cancelling sound })
  | .cancelling =>
      if (s.sounds sound).reclaimRef.isSome then
        (some sound,
          { s.modify sound fun a => { a with refrence := a.reclaimRef, reclaimRef := none } with
            main := .playing .removing sound })
      else (some sound, { s with main := .playing .referencing sound })
  | .removing =>
      if s.thread.holdsInner then (none, s)
      else
        (some sound, { s with
          reclaimList := listRemove s.reclaimList (s.sounds sound).refrence
          main := .playing .referencing sound })
  | .referencing =>
      if (s.sounds sound).refrence.isSome then
        (some sound, { s with main := .playing .listing sound })
      else if s.registry.any (fun node => node.1 = key) then (none, s)
      else
        (some sound, { s.modify sound fun a => { a with refrence := some key } with
          registry := (key, sound) :: s.registry
          main := .playing .listing sound })
  | .listing =>
      if s.thread.holdsInner then (none, s)
      else
        (some sound, { s with
          streamList := listAdd s.streamList (s.sounds sound).refrence sound
          main := .idle })

/-- The next step of the call that the main thread is in; the steps of
`sound_clean_reclaimed` are here. -/
def mainStep (s : State ι) (key : Nat) : Option ι × State ι :=
  match s.main with
  | .idle => (none, s)
  | .popping =>
      if s.thread.holdsInner then (none, s)
      else
        match s.reclaimList with
        | [] => (none, { s with main := .idle })
        | (index, sound) :: _ =>
            (none, { s with
              reclaimList := listRemove s.reclaimList index
              main := .releasing sound })
  | .releasing sound =>
      match (s.sounds sound).reclaimRef with
      | some ref =>
          (some sound, { s.modify sound fun a => { a with reclaimRef := none } with
            registry := LinkList.remove ref s.registry
            main := .popping })
      | none => (some sound, { s with main := .popping })
  | .stopping stage sound => stopStep s sound stage
  | .playing stage sound => playStep s sound key stage

/-- `audiostream_stop`, up to `audio_transmission_unreference`. -/
def beginStop (s : State ι) (sound : ι) : Option ι × State ι :=
  match s.main with
  | .idle =>
      if s.script sound then
        if (s.sounds sound).playing then
          (some sound, { s with main := .stopping .unlisting sound })
        else (some sound, s)
      else (none, s)
  | _ => (none, s)

/-- `audiostream_play`, up to `audio_transmission_reference`. -/
def beginPlay (s : State ι) (sound : ι) : Option ι × State ι :=
  match s.main with
  | .idle =>
      if s.script sound then
        (some sound, { s.modify sound fun a => { a with playing := true } with
          main :=
            if (s.sounds sound).refrence.isSome then .idle else .playing .loading sound })
      else (none, s)
  | _ => (none, s)

/-- An access to the stream that the buffer thread uses. -/
def useStep (s : State ι) (locked : Bool) : Option ι × State ι :=
  match s.thread with
  | .pinned .inUse sound =>
      if locked && s.main.holdsMutex sound then (none, s) else (some sound, s)
  | _ => (none, s)

/-- A reference to the stream is left in the registry. -/
def State.registered (s : State ι) (sound : ι) : Bool :=
  s.registry.any fun node => node.2 = sound

/-- A stream may be collected when neither the registry nor a script refers to it; the
argument of a call is on the stack of the script. -/
def State.collectable (s : State ι) (sound : ι) : Bool :=
  !s.script sound && !s.registered sound && !s.main.argument sound

/-- The next step of the client. -/
def step (s : State ι) : Input ι → Option ι × State ι
  | .buffer => bufferStep s
  | .use locked => useStep s locked
  | .main key => mainStep s key
  | .stop sound => beginStop s sound
  | .play sound => beginPlay s sound
  | .clean =>
      match s.main with
      | .idle => (none, { s with main := .popping })
      | _ => (none, s)
  | .forget sound => (none, { s with script := Function.update s.script sound false })
  | .acquire sound =>
      if s.registered sound then
        (none, { s with script := Function.update s.script sound true })
      else (none, s)
  | .collect sound =>
      if s.collectable sound then
        (none, { s with collected := Function.update s.collected sound true })
      else (none, s)

/-- No step that may come next touches a collected stream, and a stream that is stopped
and not played again is queued once at most. -/
structure Safe (s : State ι) : Prop where
  untouched : ∀ i x, (step s i).1 = some x → s.collected x = false
  queued_once : ∀ x, (s.sounds x).reclaimed = true →
    (LinkList.indices s.reclaimList x).length ≤ 1

end LuaMumble.Audio.Reclaim
