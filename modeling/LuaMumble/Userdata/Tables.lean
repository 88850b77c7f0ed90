import LuaMumble.Userdata.State

/-!
The list of the channels of a client. It has one node for each key of the table, with the userdata
that is stored under the key.
-/

namespace LuaMumble.Userdata

open Lib
open LuaMumble.Lib.Machine (final)

/-- The lists of all clients mirror their tables. -/
def Listed (s : State) : Prop := ∀ client, (s.clients client).channels.Mirrored

section Listed

variable {s s' : State}

/-- A write to one client. -/
theorem Listed.update (h : Listed s) (client : Nat) {other : MumbleClient}
    (hother : other.channels.Mirrored)
    (hclients : s'.clients = Function.update s.clients client other) : Listed s' := by
  intro client'
  rw [hclients]
  by_cases hclient : client' = client
  · rw [hclient, Function.update_self]
    exact hother
  · rw [Function.update_of_ne hclient]
    exact h client'

theorem Listed.mumbleChannelGet (h : Listed s) (client : Nat) (channelId : UInt32) :
    Listed (mumbleChannelGet s client channelId).2 := by
  unfold Userdata.mumbleChannelGet
  split
  · exact h
  · rename_i hnone
    exact h.update client ((h client).put hnone s.created) rfl

theorem Listed.mumbleUserGet (h : Listed s) (client : Nat) (session : UInt32) :
    Listed (mumbleUserGet s client session).2 := by
  unfold Userdata.mumbleUserGet
  split
  · exact h
  · refine h.update client ?_ rfl
    exact h client

theorem Listed.adjustVolumes (h : Listed s) (client : Nat)
    (adjustments : List (UInt32 × UInt32)) : Listed (adjustVolumes client adjustments s) := by
  induction adjustments generalizing s with
  | nil => exact h
  | cons adjustment rest ih => exact ih (h.mumbleChannelGet client adjustment.1)

theorem Listed.withWorker (h : Listed s) (n : Nat)
    (act : MumbleThreadWorker → Output × MumbleThreadWorker) : Listed (withWorker n act s).2 := by
  unfold Userdata.withWorker
  split <;> exact h

/-- One event. -/
theorem Listed.step (h : Listed s) (contents : Contents) (e : Event) :
    Listed (step contents s e).2 := by
  cases e with
  | bufferNew argument block =>
      simp only [Userdata.step, mumbleBufferNew]
      split
      · exact h
      · split_ifs <;> exact h
  | createAudioBuffer client samplerate channels block context srcState =>
      simp only [Userdata.step, clientCreateAudioBuffer]
      split
      · exact h
      · exact h
      · exact h
      · refine h.update client ?_ rfl
        exact h client
  | bufferGet n getter =>
      simp only [Userdata.step, bufferGet]
      split <;> exact h
  | bufferGc n =>
      simp only [Userdata.step, luabufferGc]
      split
      · exact h
      · rename_i memory hmemory
        cases hpiped : pipedClient s.contexts (memory.getD (contents.buffer n)) with
        | none => exact h
        | some client =>
            refine h.update client ?_ rfl
            exact h client
  | channelState client state behind =>
      simp only [Userdata.step, packetChannelState]
      split
      · exact h
      · exact h.mumbleChannelGet client _
  | userState client state =>
      simp only [Userdata.step, packetUserState]
      split
      · exact h
      · apply Listed.adjustVolumes
        exact h.mumbleUserGet client _
  | channelRemove client channelId => exact h.update client ((h client).remove channelId) rfl
  | cleanup client => exact h.update client Client.Objects.mirrored_empty rfl
  | serverSync client permissions =>
      cases permissions with
      | none => exact h
      | some permissions => exact h.mumbleChannelGet client 0
  | permissionQuery client channelId permissions flush =>
      simp only [Userdata.step, packetPermissionQuery]
      split
      · exact h.mumbleChannelGet client _
      · split_ifs <;> exact h
  | channelGet n getter behind =>
      simp only [Userdata.step]
      split <;> exact h
  | channelGc n =>
      simp only [Userdata.step, channelGc]
      split
      · exact h
      · split_ifs <;> exact h
  | workerStart => exact h
  | workerSend n data => exact h.withWorker n _
  | workerMessage n => exact h.withWorker n _
  | workerOnMessage n argument => exact h.withWorker n _
  | workerGc n => exact h

/-- A run. -/
theorem listed_run (contents : Contents) (events : List Event) :
    Listed (final (Userdata.step contents) start events) :=
  Machine.invariant_final Listed (fun _ e h => h.step contents e) start events
    fun _ => Client.Objects.mirrored_empty

end Listed

end LuaMumble.Userdata
