import LuaMumble.Userdata.State

/-!
Does it show what lay in the memory of a userdata before? It shows as soon as a member is read
that was never written, and only then. Buffers have no member written if their constructor
raised the error about its argument; a channel is made without three of its members, which
messages of the server set; and a worker has no callback until it is given one, for which it
looks at the one it had.
-/

namespace LuaMumble.Userdata

open Lib
open LuaMumble.Lib.Machine (outputs Along outputs_same_iff)

/-- The step reads a member that was not written, and acts on it. -/
def ReadsUnset (s : State) : Event → Prop
  | .bufferGc n => s.buffers n = some none
  | .channelGet n .getDescriptionHash _ =>
      ∃ channel, s.channels n = some channel ∧ channel.descriptionHashLen = none
  | .channelGet n .canEnter _ =>
      ∃ channel, s.channels n = some channel ∧ channel.canEnter = none
  | .channelGet n .getListeningVolumeAdjustment _ =>
      ∃ channel, s.channels n = some channel ∧ channel.listeningVolumeAdjustment = none
  | .workerMessage n =>
      ∃ worker, s.workers n = some worker ∧ worker.message = none ∧ worker.messageQueue ≠ []
  | .workerOnMessage n _ => ∃ worker, s.workers n = some worker ∧ worker.message = none
  | _ => False

section Same

variable {s : State} (contents contents' : Contents)

theorem luabufferGc_same {n : Nat} (h : s.buffers n ≠ some none) :
    luabufferGc contents n s = luabufferGc contents' n s := by
  unfold luabufferGc
  rcases hbuffer : s.buffers n with _ | _ | buffer
  · rfl
  · exact absurd hbuffer h
  · rfl

theorem channelGet_same {n : Nat} {channel : MumbleChannel} (getter : ChannelGetter)
    (behind : Nat → UInt8) (hchannel : s.channels n = some channel)
    (h : ¬ ReadsUnset s (.channelGet n getter behind)) :
    channelGet contents s n channel behind getter =
      channelGet contents' s n channel behind getter := by
  cases getter with
  | getDescriptionHash =>
      have hset : channel.descriptionHashLen ≠ none := fun hnone => h ⟨channel, hchannel, hnone⟩
      obtain ⟨len, hlen⟩ := Option.ne_none_iff_exists'.mp hset
      simp only [channelGet, channelGetDescriptionHash, hlen, Option.getD_some]
  | canEnter =>
      have hset : channel.canEnter ≠ none := fun hnone => h ⟨channel, hchannel, hnone⟩
      obtain ⟨b, hb⟩ := Option.ne_none_iff_exists'.mp hset
      simp only [channelGet, hb, Option.getD_some]
  | getListeningVolumeAdjustment =>
      have hset : channel.listeningVolumeAdjustment ≠ none :=
        fun hnone => h ⟨channel, hchannel, hnone⟩
      obtain ⟨volume, hvolume⟩ := Option.ne_none_iff_exists'.mp hset
      simp only [channelGet, hvolume, Option.getD_some]
  | _ => rfl

theorem mumbleThreadWorkerMessage_same {worker : MumbleThreadWorker} (initial initial' : Int)
    (h : worker.message = none → worker.messageQueue = []) :
    mumbleThreadWorkerMessage initial worker = mumbleThreadWorkerMessage initial' worker := by
  unfold mumbleThreadWorkerMessage
  cases hmessage : worker.message with
  | none => simp only [h hmessage]
  | some message => rfl

theorem threadWorkerOnMessage_same {worker : MumbleThreadWorker} (initial initial' : Int)
    (argument : CallbackArgument) (h : worker.message ≠ none) :
    threadWorkerOnMessage initial argument worker =
      threadWorkerOnMessage initial' argument worker := by
  obtain ⟨message, hmessage⟩ := Option.ne_none_iff_exists'.mp h
  simp only [threadWorkerOnMessage, hmessage, Option.getD_some]

/-- A step that reads no unset member is the same with any contents. -/
theorem step_same (e : Event) (h : ¬ ReadsUnset s e) :
    step contents s e = step contents' s e := by
  cases e with
  | bufferGc n => exact luabufferGc_same contents contents' h
  | channelGet n getter behind =>
      simp only [step]
      cases hchannel : s.channels n with
      | none => rfl
      | some channel =>
          simp only [channelGet_same contents contents' getter behind hchannel h]
  | workerMessage n =>
      simp only [step, withWorker]
      cases hworker : s.workers n with
      | none => rfl
      | some worker =>
          have hset : worker.message = none → worker.messageQueue = [] := by
            intro hnone
            by_contra hqueue
            exact h ⟨worker, hworker, hnone, hqueue⟩
          simp only [mumbleThreadWorkerMessage_same _ (contents'.message n) hset]
  | workerOnMessage n argument =>
      simp only [step, withWorker]
      cases hworker : s.workers n with
      | none => rfl
      | some worker =>
          have hset : worker.message ≠ none := fun hnone => h ⟨worker, hworker, hnone⟩
          simp only [threadWorkerOnMessage_same _ (contents'.message n) argument hset]
  | _ => rfl

end Same

/-- Memory that held no pointer, no length, and no reference. -/
def quiet : Contents :=
  { buffer := fun _ => ⟨0, 0, 0, 0, none, none⟩
    descriptionHashLen := fun _ => 0
    canEnter := fun _ => false
    listeningVolumeAdjustment := fun _ => 0
    message := fun _ => noRef }

/-- Memory that did. -/
def loud : Contents :=
  { buffer := fun _ => ⟨0, 0, 0, 0, some 1, none⟩
    descriptionHashLen := fun _ => 1
    canEnter := fun _ => true
    listeningVolumeAdjustment := fun _ => 0x3f800000
    message := fun _ => 1 }

section Differs

variable {s : State} {n : Nat}

theorem luabufferGc_differs (h : s.buffers n = some none) :
    (luabufferGc quiet n s).1 ≠ (luabufferGc loud n s).1 := by
  simp [luabufferGc, h, quiet, loud, bufferFree, freeContext]

theorem getDescriptionHash_differs {channel : MumbleChannel} (behind : Nat → UInt8)
    (h : channel.descriptionHashLen = none) :
    channelGetDescriptionHash quiet n channel behind ≠
      channelGetDescriptionHash loud n channel behind := by
  cases hhash : channel.descriptionHash with
  | none => simp [channelGetDescriptionHash, binToStrhex, h, hhash, quiet, loud]
  | some hash => simp [channelGetDescriptionHash, binToStrhex, h, hhash, quiet, loud]

/-- A step that reads an unset member can be told apart. -/
theorem step_differs (e : Event) (h : ReadsUnset s e) :
    (step quiet s e).1 ≠ (step loud s e).1 := by
  cases e with
  | bufferGc n => exact luabufferGc_differs h
  | channelGet n getter behind =>
      cases getter with
      | getDescriptionHash =>
          obtain ⟨channel, hchannel, hnone⟩ := h
          simp only [step, hchannel]
          exact getDescriptionHash_differs behind hnone
      | canEnter =>
          obtain ⟨channel, hchannel, hnone⟩ := h
          simp [step, hchannel, channelGet, hnone, quiet, loud]
      | getListeningVolumeAdjustment =>
          obtain ⟨channel, hchannel, hnone⟩ := h
          simp [step, hchannel, channelGet, hnone, quiet, loud]
      | _ => exact absurd h id
  | workerMessage n =>
      obtain ⟨worker, hworker, hnone, hqueue⟩ := h
      obtain ⟨data, rest, hcons⟩ := List.exists_cons_of_ne_nil hqueue
      simp [step, withWorker, hworker, mumbleThreadWorkerMessage, hnone, hcons, quiet, loud,
        noRef, refNil]
  | workerOnMessage n argument =>
      obtain ⟨worker, hworker, hnone⟩ := h
      cases argument with
      | function f =>
          simp [step, withWorker, hworker, threadWorkerOnMessage, hnone, quiet, loud, noRef,
            refNil]
      | other typename =>
          simp [step, withWorker, hworker, threadWorkerOnMessage, hnone, quiet, loud, noRef,
            refNil]
  | _ => exact absurd h id

end Differs

/-- Two runs over the same events show the same, whatever lay in the memory of the userdata, if
and only if no step acts on a member that was not written. -/
theorem contents_unseen_iff (events : List Event) :
    (∀ contents contents',
      outputs (step contents) start events = outputs (step contents') start events) ↔
      ∀ contents, Along (step contents) (fun s e => ¬ ReadsUnset s e) start events :=
  outputs_same_iff step ReadsUnset
    (fun _ e h contents contents' => step_same contents contents' e h)
    (fun _ e h => ⟨quiet, loud, step_differs e h⟩) start events

/-- What is collected after `mumble.buffer` of a table frees what the memory pointed to before. A
channel of which only the number is known may be entered or not, and a worker without a
callback takes a message out of its queue or does not. -/
theorem contents_shown :
    ∃ contents contents',
      (outputs (step contents) start [.bufferNew (.other "table") none, .bufferGc 0] =
        [.raised ⟨some 1, "number or string expected, got table"⟩, .finalized []] ∧
      outputs (step contents') start [.bufferNew (.other "table") none, .bufferGc 0] =
        [.raised ⟨some 1, "number or string expected, got table"⟩, .finalized [.free 1]]) ∧
      (outputs (step contents) start
        [.channelState 0 { channelId := some 7 } (fun _ => 0), .channelGet 0 .canEnter fun _ => 0] =
        [.hook [("channel", .userdata 0), ("channel_id", .integer 7)], .pushed (.boolean false)] ∧
      outputs (step contents') start
        [.channelState 0 { channelId := some 7 } (fun _ => 0), .channelGet 0 .canEnter fun _ => 0] =
        [.hook [("channel", .userdata 0), ("channel_id", .integer 7)], .pushed (.boolean true)]) ∧
      (outputs (step contents) start [.workerStart, .workerSend 0 [0x68], .workerMessage 0] =
        [.nothing, .nothing, .nothing] ∧
      outputs (step contents') start [.workerStart, .workerSend 0 [0x68], .workerMessage 0] =
        [.nothing, .nothing, .called .worker .worker [0x68]]) :=
  ⟨quiet, loud, ⟨rfl, rfl⟩, ⟨rfl, rfl⟩, rfl, rfl⟩

end LuaMumble.Userdata
