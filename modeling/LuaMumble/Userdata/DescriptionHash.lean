import LuaMumble.Userdata.Copies
import LuaMumble.Userdata.Said

/-!
The hash of the description of a channel. The event of `OnChannelState` has its hex, and so has
`getDescriptionHash` as long as no message has another one and the channel is not collected.
-/

namespace LuaMumble.Userdata

open Lib
open LuaMumble.Lib.TracedRead hiding Entry
open LuaMumble.Lib.Machine (final Along)

/-- The event of the hook has the hex of the bytes, made from what was copied alone. -/
def HashEventTells (bytes : List UInt8) (behind : Nat → UInt8) (output : Output) : Prop :=
  (∃ event, output = .hook event ∧ ∀ value,
    ("description_hash", value) ∈ event ↔ value = .string (hexOf bytes)) ∧
  Always (InCopy (blockOf bytes)) (binToStrhexFrom 0 bytes.length)
    (memoryOf (blockOf bytes) behind)

/-- What `channel_getDescriptionHash` reads. -/
def hashRead (contents : Contents) (n : Nat) (channel : MumbleChannel) :
    Traced Empty (List UInt8) :=
  binToStrhexFrom 0 (channel.descriptionHashLen.getD (contents.descriptionHashLen n))

/-- `getDescriptionHash` of the channel in the userdata `n` gives the hex of the bytes, made from
what was copied alone. -/
def HashGetterTells (contents : Contents) (bytes : List UInt8) (n : Nat) (s : State) : Prop :=
  ∃ channel, s.channels n = some channel ∧ ∀ behind,
    (step contents s (.channelGet n .getDescriptionHash behind)).1 =
      .pushed (.string (hexOf bytes)) ∧
    Always (InCopy (channel.descriptionHash.getD [])) (hashRead contents n channel)
      (memoryOf (channel.descriptionHash.getD []) behind)

/-- A message that has a hash again, for the channel in the userdata, or its collection. -/
def RewritesHash (n : Nat) (s : State) : Event → Prop
  | .channelState client state _ => ∃ channelId, state.channelId = some channelId ∧
      (mumbleChannelGet s client channelId).1 = n ∧ state.descriptionHash.isSome = true
  | .channelGc m => m = n
  | _ => False

/-- The event of the message has the hex of the bytes, and so has the getter at any later time,
as long as no message has a hash again and the channel is not collected. -/
def HashKept (contents : Contents) (s : State) (client : Nat) (state : ChannelState)
    (channelId : UInt32) (bytes : List UInt8) : Prop :=
  ∀ behind,
    let n := (mumbleChannelGet s client channelId).1
    let s' := (packetChannelState client state behind s).2
    HashEventTells bytes behind (packetChannelState client state behind s).1 ∧
    ∀ later, Along (step contents) (fun s e => ¬ RewritesHash n s e) s' later →
      HashGetterTells contents bytes n (final (step contents) s' later)

/-- The channel in the userdata has the copy and the length. -/
def HasHash (n : Nat) (copy : Option (List UInt8)) (len : Nat) (s : State) : Prop :=
  n < s.created ∧ ∃ channel, s.channels n = some channel ∧ channel.descriptionHash = copy ∧
    channel.descriptionHashLen = some len

section Steps

variable {s s' : State} {client n : Nat} {copy : Option (List UInt8)} {len : Nat}

theorem HasHash.of_same (h : HasHash n copy len s) (hcreated : s.created ≤ s'.created)
    (hchannels : s'.channels = s.channels) : HasHash n copy len s' := by
  obtain ⟨hn, hchannel⟩ := h
  refine ⟨lt_of_lt_of_le hn hcreated, ?_⟩
  rw [hchannels]
  exact hchannel

theorem HasHash.get (h : HasHash n copy len s) (client : Nat) (channelId : UInt32) :
    HasHash n copy len (mumbleChannelGet s client channelId).2 := by
  unfold mumbleChannelGet
  split
  · exact h
  · obtain ⟨hn, channel, hchannel, hcopy⟩ := h
    refine ⟨Nat.lt_succ_of_lt hn, channel, ?_, hcopy⟩
    simp only [Function.update_of_ne hn.ne]
    exact hchannel

/-- Writes to a channel that leave its hash alone, or are to another channel. -/
theorem HasHash.set (h : HasHash n copy len s) (m : Nat) (write : MumbleChannel → MumbleChannel)
    (hkept : m = n → ∀ channel, (write channel).descriptionHash = channel.descriptionHash ∧
      (write channel).descriptionHashLen = channel.descriptionHashLen) :
    HasHash n copy len (setChannel m write s) := by
  obtain ⟨hn, channel, hchannel, hcopy, hlen⟩ := h
  by_cases hm : m = n
  · obtain ⟨hhash, hhashLen⟩ := hkept hm channel
    refine ⟨hn, write channel, ?_, hhash.trans hcopy, hhashLen.trans hlen⟩
    rw [setChannel, hm]
    simp only [Function.update_self, hchannel, Option.map_some]
  · refine ⟨hn, channel, ?_, hcopy, hlen⟩
    rw [setChannel]
    simp only [Function.update_of_ne (Ne.symm hm)]
    exact hchannel

theorem HasHash.adjust (h : HasHash n copy len s) (client : Nat)
    (adjustments : List (UInt32 × UInt32)) :
    HasHash n copy len (adjustVolumes client adjustments s) := by
  induction adjustments generalizing s with
  | nil => exact h
  | cons adjustment rest ih =>
      exact ih ((h.get client adjustment.1).set _ _ fun _ _ => ⟨rfl, rfl⟩)

theorem HasHash.setPermissions (h : HasHash n copy len s) (client : Nat)
    (channelId permissions : UInt32) :
    HasHash n copy len (setPermissions client channelId permissions s) :=
  (h.get client channelId).set _ _ fun _ _ => ⟨rfl, rfl⟩

theorem HasHash.flush (h : HasHash n copy len s) (client : Nat) :
    HasHash n copy len (flushPermissions client s) := by
  obtain ⟨hn, channel, hchannel, hcopy, hlen⟩ := h
  have hflushed : (flushPermissions client s).channels n = some
      (if s.channelAt client channel.channelId = some n then { channel with permissions := 0 }
        else channel) := by
    simp only [flushPermissions, hchannel, Option.map_some]
  refine ⟨hn, _, hflushed, ?_⟩
  split_ifs <;> exact ⟨hcopy, hlen⟩

theorem HasHash.channelState (h : HasHash n copy len s) (client : Nat) (state : ChannelState)
    (behind : Nat → UInt8)
    (hkept : ¬ RewritesHash n s (.channelState client state behind)) :
    HasHash n copy len (packetChannelState client state behind s).2 := by
  unfold packetChannelState
  split
  · exact h
  · rename_i channelId hid
    apply (h.get client channelId).set
    intro hm channel
    have hnone : state.descriptionHash = none := by
      rw [← Option.not_isSome_iff_eq_none]
      intro hsome
      exact hkept ⟨channelId, hid, hm, hsome⟩
    simp only [ChannelState.assign, hnone, Option.map_none, Option.none_or, and_self]

theorem HasHash.gc (h : HasHash n copy len s) {m : Nat} (hm : m ≠ n) :
    HasHash n copy len (channelGc m s).2 := by
  obtain ⟨hn, channel, hchannel, hcopy⟩ := h
  unfold channelGc
  split
  · exact ⟨hn, channel, hchannel, hcopy⟩
  · split_ifs
    · exact ⟨hn, channel, hchannel, hcopy⟩
    · refine ⟨hn, channel, ?_, hcopy⟩
      simp only [Function.update_of_ne (Ne.symm hm)]
      exact hchannel

/-- One step. -/
theorem HasHash.step (h : HasHash n copy len s) (contents : Contents) (e : Event)
    (hkept : ¬ RewritesHash n s e) : HasHash n copy len (step contents s e).2 := by
  cases e with
  | bufferNew argument block =>
      simp only [Userdata.step, mumbleBufferNew]
      split
      · exact h.of_same (Nat.le_succ _) rfl
      · split_ifs <;> exact h.of_same (Nat.le_succ _) rfl
  | createAudioBuffer client samplerate channels block context srcState =>
      simp only [Userdata.step, clientCreateAudioBuffer]
      split <;> exact h.of_same (Nat.le_succ _) rfl
  | bufferGet m getter =>
      simp only [Userdata.step, bufferGet]
      split <;> exact h
  | bufferGc m =>
      simp only [Userdata.step, luabufferGc]
      split
      · exact h
      · exact h.of_same (le_refl _) rfl
  | channelState client state behind => exact h.channelState client state behind hkept
  | userState client state =>
      simp only [Userdata.step, packetUserState]
      split
      · exact h
      · apply HasHash.adjust
        unfold mumbleUserGet
        split
        · exact h.of_same (le_refl _) rfl
        · exact h.of_same (Nat.le_succ _) rfl
  | channelRemove client channelId => exact h.of_same (le_refl _) rfl
  | cleanup client => exact h.of_same (le_refl _) rfl
  | serverSync client permissions =>
      cases permissions with
      | none => exact h
      | some permissions => exact h.setPermissions client 0 permissions.toUInt32
  | permissionQuery client channelId permissions flush =>
      simp only [Userdata.step, packetPermissionQuery]
      split
      · exact h.setPermissions client _ _
      · split_ifs
        · exact h.flush client
        · exact h
  | channelGet m getter behind =>
      simp only [Userdata.step]
      split <;> exact h
  | channelGc m => exact h.gc hkept
  | workerStart => exact h.of_same (Nat.le_succ _) rfl
  | workerSend m data =>
      simp only [Userdata.step, withWorker]
      split <;> exact h
  | workerMessage m =>
      simp only [Userdata.step, withWorker]
      split <;> exact h
  | workerOnMessage m argument =>
      simp only [Userdata.step, withWorker]
      split <;> exact h
  | workerGc m => exact h.of_same (le_refl _) rfl

end Steps

section Messages

variable {contents : Contents} {s : State} {record : Record} {client n : Nat}
  {channelId : UInt32} {state : ChannelState} {bytes : List UInt8}

theorem mem_field {A : Type} {name : String} {member : Option A} {value : A → LuaValue}
    {entry : String × LuaValue} :
    entry ∈ field name member value ↔ ∃ a, member = some a ∧ entry = (name, value a) := by
  cases member with
  | none => simp [field]
  | some a => simp [field]

theorem notMem_linksField {name other : String} (hne : other ≠ name) (value : LuaValue)
    (links : List UInt32) : (other, value) ∉ linksField s client name links := by
  intro h
  unfold linksField at h
  split_ifs at h
  · cases h
  · exact hne (congrArg Prod.fst (List.mem_singleton.mp h))

theorem mem_hash_event (hhash : state.descriptionHash = some bytes) (behind : Nat → UInt8)
    (value : LuaValue) :
    ("description_hash", value) ∈ state.event s client channelId behind ↔
      value = .pushstring (binToStrhex (safeStrndup bytes) behind bytes.length) := by
  have hadd : ("description_hash", value) ∉ linksField s client "links_add" state.linksAdd :=
    notMem_linksField (by simp) value _
  have hremove : ("description_hash", value) ∉
      linksField s client "links_remove" state.linksRemove :=
    notMem_linksField (by simp) value _
  have hlinks : ("description_hash", value) ∉ linksField s client "links" state.links :=
    notMem_linksField (by simp) value _
  unfold ChannelState.event
  simp only [List.mem_append, hadd, hremove, hlinks, or_false, mem_field]
  simp [hhash]

theorem hashEventTells_iff (hid : state.channelId = some channelId)
    (hhash : state.descriptionHash = some bytes) (behind : Nat → UInt8) :
    HashEventTells bytes behind (packetChannelState client state behind s).1 ↔
      0 ∉ bytes.dropLast := by
  have houtput : (packetChannelState client state behind s).1 =
      .hook (state.event (mumbleChannelGet s client channelId).2 client channelId behind) := by
    unfold packetChannelState
    rw [hid]
  rw [HashEventTells, houtput, ← hexIntact_iff bytes behind, HexIntact]
  apply and_congr_left'
  simp only [Output.hook.injEq, exists_eq_left', mem_hash_event hhash]
  rw [← pushstring_eq_string_iff]
  constructor
  · intro htold
    exact ((htold _).mpr rfl).symm
  · intro hpushed value
    rw [hpushed]

theorem hasHash_packetChannelState (h : Keeps s record) (hid : state.channelId = some channelId)
    (hhash : state.descriptionHash = some bytes) (behind : Nat → UInt8) :
    HasHash (mumbleChannelGet s client channelId).1 (safeStrndup bytes) bytes.length
      (packetChannelState client state behind s).2 := by
  have hget := h.mumbleChannelGet client channelId
  have hn := channelAt_mumbleChannelGet s client channelId
  obtain ⟨channel, hchannel, -⟩ := hget.known client channelId _ hn
  unfold packetChannelState
  rw [hid]
  refine ⟨hget.lt_created hn, state.assign channel, ?_, ?_⟩
  · simp only [setChannel, Function.update_self, hchannel, Option.map_some]
  · simp [ChannelState.assign, hhash]

theorem hashGetterTells_iff (h : HasHash n (safeStrndup bytes) bytes.length s) :
    HashGetterTells contents bytes n s ↔ 0 ∉ bytes.dropLast := by
  obtain ⟨-, channel, hchannel, hcopy, hlen⟩ := h
  have hget (behind : Nat → UInt8) :
      (step contents s (.channelGet n .getDescriptionHash behind)).1 =
        .pushed (.string (hexOf bytes)) ↔
      binToStrhex (safeStrndup bytes) behind bytes.length = some (hexOf bytes) := by
    simp only [step, hchannel, channelGet, channelGetDescriptionHash, hcopy, hlen,
      Option.getD_some]
    cases binToStrhex (safeStrndup bytes) behind bytes.length with
    | none => simp
    | some result => simp
  simp only [HashGetterTells, hchannel, Option.some.injEq, exists_eq_left', hget, hashRead, hcopy,
    hlen, Option.getD_some]
  exact forall_hexIntact_iff bytes

/-- One message. -/
theorem hashKept_iff (h : Keeps s record) (hid : state.channelId = some channelId)
    (hhash : state.descriptionHash = some bytes) :
    HashKept contents s client state channelId bytes ↔ 0 ∉ bytes.dropLast := by
  constructor
  · intro hkept
    exact (hashEventTells_iff hid hhash fun _ => 0).mp (hkept _).1
  · intro hcopied behind
    refine ⟨(hashEventTells_iff hid hhash behind).mpr hcopied, ?_⟩
    intro later hlater
    have hlast := Machine.invariant_final_of_along
      (HasHash (mumbleChannelGet s client channelId).1 (safeStrndup bytes) bytes.length)
      (fun _ e hs he => hs.step contents e he) _ later
      (hasHash_packetChannelState h hid hhash behind) hlater
    exact (hashGetterTells_iff hlast).mpr hcopied

end Messages

end LuaMumble.Userdata
