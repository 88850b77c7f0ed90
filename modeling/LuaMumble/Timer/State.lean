import LuaMumble.Audio.Mixer
import LuaMumble.Lib.LoopTimer
import LuaMumble.Lib.Machine

/-!
The timers of the Lua state: each userdata with the libuv handle inside, the references to it,
and what the loop still has to do with it. A script calls methods and drops what it holds; the
loop calls an active timer and, later than `uv_close`, the close callback; the collector first
finalizes and then frees a userdata that nobody refers to.
-/

namespace LuaMumble.Timer

open Lib

/-- References that were not taken (`LUA_NOREF`) are `none`. The times come as milliseconds. -/
structure MumbleTimer (H : Type) where
  timer : H
  closed : Bool
  paused : Bool
  count : UInt32
  self : Option Nat
  callback : Option Nat
  after : UInt64

/-- The userdata: `script` tells if the script holds it, `pending` if `mumble_timer_on_close`
is still to come. -/
structure Userdata (H : Type) extends MumbleTimer H where
  script : Bool
  pending : Bool
  finalized : Bool
  freed : Bool

/-- What `MUMBLE_TIMER_REG` refers to, with the timer that took the reference. -/
inductive Held (ι C : Type) where
  | self (timer : ι)
  | callback (timer : ι) (f : C)

def Held.owner {ι C : Type} : Held ι C → ι
  | .self timer => timer
  | .callback timer _ => timer

abbrev Registry (ι C : Type) := List (Nat × Held ι C)

/-- `running` is the timer whose callback is being called. -/
structure State (ι C H : Type) where
  timers : ι → Option (Userdata H)
  registry : Registry ι C
  running : Option ι

/-- The methods of a timer that change it, with arguments of the right types. -/
inductive Call (C : Type) where
  | start (f : C) (after rep : UInt64)
  | stop
  | pause
  | again
  | resume
  | set (after rep : UInt64)
  | setDuration (after : UInt64)
  | setRepeat (rep : UInt64)

inductive Collection (ι : Type) where
  | finalize (t : ι)
  | free (t : ι)

inductive Event (ι C : Type) where
  | new (t : ι)
  | call (t : ι) (method : Call C)
  | letGo (t : ι)
  | expire (t : ι)
  | callbackReturns
  | closeCallback (t : ι)
  | collect (collection : Collection ι)

variable {ι C H : Type}

namespace Userdata

variable (loop : LoopTimer H)

/-- `mumble_timer_new` -/
def mumbleTimerNew : Userdata H :=
  { timer := loop.init
    closed := false
    paused := false
    count := 0
    self := none
    callback := none
    after := 0
    script := true
    pending := false
    finalized := false
    freed := false }

/-- `mumble_timer_close`, on which the loop is going to call `mumble_timer_on_close`. -/
def mumbleTimerClose (u : Userdata H) : Userdata H :=
  if u.closed then u
  else
    let u := { u with closed := true, timer := loop.stop u.timer }
    if loop.isClosing u.timer then u
    else { u with timer := loop.close u.timer, pending := true }

/-- `timer_stop` -/
def timerStop (u : Userdata H) : Userdata H := u.mumbleTimerClose loop

/-- `timer_gc` -/
def timerGc (u : Userdata H) : Userdata H :=
  { u.mumbleTimerClose loop with finalized := true }

/-- The calls of `uv_timer_get_repeat` and `uv_timer_again` in `pause`, `again` and `resume`. -/
def uvTimerAgain (name : String) (u : Userdata H) : Except String Unit × Userdata H :=
  if loop.getRepeat u.timer = 0 then
    (.error ("attempt to call '" ++ name ++ "' on non-repeating mumble.timer"), u)
  else
    let (valid, timer) := loop.again u.timer
    if valid then (.ok (), { u with timer := timer })
    else
      (.error ("attempt to call '" ++ name ++ "' on unstarted mumble.timer"),
        { u with timer := timer })

/-- `timer_pause` -/
def timerPause (u : Userdata H) : Except String Unit × Userdata H :=
  match u.uvTimerAgain loop "pause" with
  | (.ok _, u) => (.ok (), { u with timer := loop.stop u.timer, paused := true })
  | (.error message, u) => (.error message, u)

/-- `mumble_active_timer` before `method` -/
def mumbleActiveTimer (name : String) (method : Userdata H → Except String Unit × Userdata H)
    (u : Userdata H) : Except String Unit × Userdata H :=
  if u.closed then
    (.error ("attempt to call method '" ++ name ++ "' on stopped mumble.timer"), u)
  else method u

/-- `timer_again` -/
def timerAgain (u : Userdata H) : Except String Unit × Userdata H :=
  u.mumbleActiveTimer "again" fun u =>
    match u.uvTimerAgain loop "again" with
    | (.ok _, u) => (.ok (), { u with count := 0, paused := false })
    | (.error message, u) => (.error message, u)

/-- `timer_resume` -/
def timerResume (u : Userdata H) : Except String Unit × Userdata H :=
  u.mumbleActiveTimer "resume" fun u =>
    match u.uvTimerAgain loop "resume" with
    | (.ok _, u) => (.ok (), { u with paused := false })
    | (.error message, u) => (.error message, u)

/-- `timer_set` -/
def timerSet (after rep : UInt64) (u : Userdata H) : Userdata H :=
  { u with after := after, timer := loop.setRepeat u.timer rep }

/-- `timer_setDuration` -/
def timerSetDuration (after : UInt64) (u : Userdata H) : Userdata H :=
  { u with after := after }

/-- `timer_setRepeat` -/
def timerSetRepeat (rep : UInt64) (u : Userdata H) : Userdata H :=
  { u with timer := loop.setRepeat u.timer rep }

/-- The beginning of `mumble_lua_timer`, which hands the userdata to the callback. -/
def mumbleLuaTimer (u : Userdata H) : Userdata H :=
  if loop.isClosing u.timer then u else { u with count := u.count + 1, script := true }

/-- The end of it, after the callback. -/
def afterCallback (u : Userdata H) : Userdata H :=
  if loop.isActive u.timer = false ∧ u.paused = false then u.mumbleTimerClose loop else u

end Userdata

/-- `mumble_registry_unref` on `MUMBLE_TIMER_REG` -/
def mumbleRegistryUnref (ref : Option Nat) (registry : Registry ι C) : Registry ι C :=
  match ref with
  | none => registry
  | some ref => registry.filter fun entry => entry.1 ≠ ref

namespace State

variable [DecidableEq ι] (loop : LoopTimer H) (registryRef : Audio.Mixer.RegistryRef)

/-- No timer was made. -/
def empty : State ι C H where
  timers := fun _ => none
  registry := []
  running := none

/-- The timer where its memory was not given back. -/
def live (s : State ι C H) (t : ι) : Option (Userdata H) :=
  (s.timers t).filter fun u => !u.freed

def put (s : State ι C H) (t : ι) (u : Userdata H) : State ι C H :=
  { s with timers := Function.update s.timers t (some u) }

/-- `MUMBLE_TIMER_REG` refers to the timer. -/
def Registered (s : State ι C H) (t : ι) : Prop := ∃ ref, (ref, .self t) ∈ s.registry

def registered (s : State ι C H) (t : ι) : Bool :=
  s.registry.any fun entry =>
    match entry.2 with
    | .self other => other = t
    | .callback _ _ => false

/-- `mumble_registry_ref` on `MUMBLE_TIMER_REG` -/
def mumbleRegistryRef (held : Held ι C) (s : State ι C H) : Nat × State ι C H :=
  let ref := registryRef.ref (s.registry.map Prod.fst)
  (ref, { s with registry := (ref, held) :: s.registry })

/-- The part of `timer_start` in which the timer refers to itself. -/
def referenceSelf (t : ι) (u : Userdata H) (s : State ι C H) : Userdata H × State ι C H :=
  match u.self with
  | some _ => (u, s)
  | none =>
      let (ref, s) := s.mumbleRegistryRef registryRef (.self t)
      ({ u with self := some ref }, s)

/-- The part in which the reference to the callback is exchanged. -/
def referenceCallback (t : ι) (f : C) (u : Userdata H) (s : State ι C H) :
    Userdata H × State ι C H :=
  let s := { s with registry := mumbleRegistryUnref u.callback s.registry }
  let (ref, s) := s.mumbleRegistryRef registryRef (.callback t f)
  ({ u with callback := some ref }, s)

/-- `timer_start` -/
def timerStart (t : ι) (f : C) (after rep : UInt64) (u : Userdata H) (s : State ι C H) :
    Except String Unit × State ι C H :=
  if u.closed then (.error "attempt to call method 'start' on stopped mumble.timer", s)
  else
    let u := { u with after := after }
    let u := if loop.isActive u.timer then { u with timer := loop.stop u.timer } else u
    let (u, s) := referenceSelf registryRef t u s
    let (u, s) := referenceCallback registryRef t f u s
    let u := { u with timer := loop.start u.timer after rep, count := 0, paused := false }
    (.ok (), s.put t u)

/-- A method that leaves the registry as it is. -/
def apply (t : ι) (result : Except String Unit × Userdata H) (s : State ι C H) :
    Except String Unit × State ι C H :=
  (result.1, s.put t result.2)

def call (t : ι) (method : Call C) (u : Userdata H) (s : State ι C H) :
    Except String Unit × State ι C H :=
  match method with
  | .start f after rep => s.timerStart loop registryRef t f after rep u
  | .stop => s.apply t (.ok (), u.timerStop loop)
  | .pause => s.apply t (u.timerPause loop)
  | .again => s.apply t (u.timerAgain loop)
  | .resume => s.apply t (u.timerResume loop)
  | .set after rep => s.apply t (.ok (), u.timerSet loop after rep)
  | .setDuration after => s.apply t (.ok (), u.timerSetDuration after)
  | .setRepeat rep => s.apply t (.ok (), u.timerSetRepeat loop rep)

/-- `mumble_timer_on_close`, when the loop is done with the handle. -/
def mumbleTimerOnClose (t : ι) (u : Userdata H) (s : State ι C H) : State ι C H :=
  let registry := mumbleRegistryUnref u.self (mumbleRegistryUnref u.callback s.registry)
  { s with registry := registry }.put t
    { u with timer := loop.finish u.timer, pending := false, callback := none, self := none }

/-- The loop calls a timer that is due. -/
def expire (t : ι) (u : Userdata H) (s : State ι C H) : State ι C H :=
  { s.put t ({ u with timer := loop.expire u.timer }.mumbleLuaTimer loop) with running := some t }

/-- Neither the script nor the registry refers to the timer. -/
def unreferenced (t : ι) (u : Userdata H) (s : State ι C H) : Bool :=
  !u.script && !s.registered t

def collect (collection : Collection ι) (s : State ι C H) : State ι C H :=
  match collection with
  | .finalize t =>
      match s.live t with
      | some u =>
          if s.unreferenced t u && !u.finalized then s.put t (u.timerGc loop) else s
      | none => s
  | .free t =>
      match s.live t with
      | some u =>
          if s.unreferenced t u && u.finalized then s.put t { u with freed := true } else s
      | none => s

/-- One event. Nothing happens where it cannot come: the script calls timers that it holds, and
the loop calls one callback at a time. -/
def step (s : State ι C H) (e : Event ι C) : Except String Unit × State ι C H :=
  match e with
  | .new t =>
      match s.timers t with
      | some _ => (.ok (), s)
      | none => (.ok (), s.put t (Userdata.mumbleTimerNew loop))
  | .call t method =>
      match s.live t with
      | some u => if u.script then s.call loop registryRef t method u else (.ok (), s)
      | none => (.ok (), s)
  | .letGo t =>
      match s.live t with
      | some u => (.ok (), s.put t { u with script := false })
      | none => (.ok (), s)
  | .expire t =>
      match s.live t with
      | some u =>
          if s.running.isNone && loop.isActive u.timer then (.ok (), s.expire loop t u)
          else (.ok (), s)
      | none => (.ok (), s)
  | .callbackReturns =>
      match s.running with
      | some t =>
          match s.live t with
          | some u => (.ok (), { s.put t (u.afterCallback loop) with running := none })
          | none => (.ok (), { s with running := none })
      | none => (.ok (), s)
  | .closeCallback t =>
      match s.live t with
      | some u =>
          if s.running.isNone && u.pending then (.ok (), s.mumbleTimerOnClose loop t u)
          else (.ok (), s)
      | none => (.ok (), s)
  | .collect collection => (.ok (), s.collect loop collection)

end State

end LuaMumble.Timer
