import LuaMumble.Userdata.Contents

/-!
What the messages of a server said of its channels. A server says something of a channel by its
number; the client keeps it in the object that it has under that number. The getters of such an
object tell what was said last since the channel was last removed, and where nothing was said,
what the memory held.
-/

namespace LuaMumble.Userdata

open Lib
open LuaMumble.Lib.Machine (final)

/-- What was said of a channel. -/
structure Said where
  descriptionHash : Option (List UInt8)
  canEnter : Option Bool
  listeningVolumeAdjustment : Option UInt32

/-- What was said to each client of each channel. -/
abbrev Record := Nat → UInt32 → Said

def Said.nothing : Said := ⟨none, none, none⟩

def Record.empty : Record := fun _ _ => .nothing

/-- Something is said of a channel. -/
def Record.put (record : Record) (client : Nat) (channelId : UInt32) (said : Said) : Record :=
  Function.update record client (Function.update (record client) channelId said)

/-- A `ChannelState` adds what it has. -/
def ChannelState.add (state : ChannelState) (said : Said) : Said :=
  { said with
    descriptionHash := state.descriptionHash.or said.descriptionHash
    canEnter := state.canEnter.or said.canEnter }

/-- Volume adjustments, one after the other. -/
def Record.adjust (client : Nat) : List (UInt32 × UInt32) → Record → Record
  | [], record => record
  | (channelId, volumeAdjustment) :: rest, record =>
      Record.adjust client rest (record.put client channelId
        { record client channelId with listeningVolumeAdjustment := some volumeAdjustment })

/-- What an event says. -/
def Record.next (record : Record) : Event → Record
  | .channelState client state _ =>
      match state.channelId with
      | none => record
      | some channelId => record.put client channelId (state.add (record client channelId))
  | .userState client state =>
      if state.session.isSome then Record.adjust client state.listeningVolumeAdjustment record
      else record
  | .channelRemove client channelId => record.put client channelId .nothing
  | .cleanup client => Function.update record client fun _ => .nothing
  | _ => record

/-- The object has what was said. -/
structure MumbleChannel.Has (channel : MumbleChannel) (said : Said) : Prop where
  descriptionHash : channel.descriptionHash = said.descriptionHash.bind safeStrndup
  descriptionHashLen : channel.descriptionHashLen = said.descriptionHash.map List.length
  canEnter : channel.canEnter = said.canEnter
  listeningVolumeAdjustment :
    channel.listeningVolumeAdjustment = said.listeningVolumeAdjustment

/-- The objects under the numbers of the channels have what was said. -/
structure Keeps (s : State) (record : Record) : Prop where
  fresh : ∀ n, s.created ≤ n → s.channels n = none
  known : ∀ client channelId n, s.channelAt client channelId = some n →
    ∃ channel, s.channels n = some channel ∧ channel.client = client ∧
      channel.channelId = channelId ∧ channel.Has (record client channelId)
  unknown : ∀ client channelId, s.channelAt client channelId = none →
    record client channelId = .nothing

section Record

variable {record : Record} {client : Nat} {channelId : UInt32} {said : Said}

theorem Record.put_apply (client' : Nat) (channelId' : UInt32) :
    record.put client channelId said client' channelId' =
      if client' = client ∧ channelId' = channelId then said else record client' channelId' := by
  by_cases hclient : client' = client
  · subst hclient
    simp [Record.put, Function.update_apply]
  · simp [Record.put, hclient]

@[simp] theorem Record.put_self : record.put client channelId said client channelId = said := by
  simp [Record.put_apply]

theorem Record.put_own (record : Record) (client : Nat) (channelId : UInt32) :
    record.put client channelId (record client channelId) = record := by
  funext client' channelId'
  rw [Record.put_apply]
  split_ifs with hboth
  · rw [hboth.1, hboth.2]
  · rfl

end Record

section Tables

variable (s : State) (client client' : Nat) (channelId channelId' : UInt32)

/-- The tables after a client was written to, but not to its channels. -/
theorem channelAt_same {other : MumbleClient}
    (h : other.channels = (s.clients client).channels) :
    ((Function.update s.clients client other) client').channels.table channelId' =
      s.channelAt client' channelId' := by
  by_cases hclient : client' = client
  · subst hclient
    rw [Function.update_self, h]
    rfl
  · rw [Function.update_of_ne hclient]
    rfl

/-- The tables after a new object was put into one. -/
theorem channelAt_put (n : Nat) :
    ((Function.update s.clients client
      { s.clients client with channels := (s.clients client).channels.put channelId n })
        client').channels.table channelId' =
      if client' = client ∧ channelId' = channelId then some n
      else s.channelAt client' channelId' := by
  by_cases hclient : client' = client
  · subst hclient
    simp [Client.Objects.put, State.channelAt, Function.update_apply]
  · simp [State.channelAt, hclient]

theorem channelAt_packetChannelRemove :
    (packetChannelRemove client channelId s).2.channelAt client' channelId' =
      if client' = client ∧ channelId' = channelId then none
      else s.channelAt client' channelId' := by
  by_cases hclient : client' = client
  · subst hclient
    simp [packetChannelRemove, Client.Objects.remove, State.channelAt, Function.update_apply]
  · simp [packetChannelRemove, State.channelAt, hclient]

theorem channelAt_mumbleClientCleanup :
    (mumbleClientCleanup client s).channelAt client' channelId' =
      if client' = client then none else s.channelAt client' channelId' := by
  by_cases hclient : client' = client
  · subst hclient
    simp [mumbleClientCleanup, Client.Objects.empty, State.channelAt]
  · simp [mumbleClientCleanup, State.channelAt, hclient]

theorem channelAt_mumbleChannelGet :
    (mumbleChannelGet s client channelId).2.channelAt client channelId =
      some (mumbleChannelGet s client channelId).1 := by
  unfold mumbleChannelGet
  split
  · assumption
  · exact (channelAt_put s client client channelId channelId s.created).trans (by simp)

end Tables

section Keeps

variable {s s' : State} {record : Record} {client : Nat} {channelId : UInt32} {n : Nat}

theorem keeps_start : Keeps start .empty where
  fresh := fun _ _ => rfl
  known := by
    intro client channelId n h
    cases h
  unknown := fun _ _ _ => rfl

/-- Steps that leave the channels alone. -/
theorem Keeps.of_same (h : Keeps s record) (hcreated : s.created ≤ s'.created)
    (hchannels : s'.channels = s.channels)
    (htables : ∀ client channelId, s'.channelAt client channelId = s.channelAt client channelId) :
    Keeps s' record where
  fresh := by
    intro n hn
    rw [hchannels]
    exact h.fresh n (le_trans hcreated hn)
  known := by
    intro client channelId n hn
    rw [hchannels]
    apply h.known
    rw [← htables, hn]
  unknown := by
    intro client channelId hn
    apply h.unknown
    rw [← htables, hn]

/-- Writes to objects that leave alone what the messages said. -/
theorem Keeps.of_writes (h : Keeps s record) (write : Nat → MumbleChannel → MumbleChannel)
    (hkept : ∀ n channel, (write n channel).client = channel.client ∧
      (write n channel).channelId = channel.channelId ∧
      ∀ said, channel.Has said → (write n channel).Has said) :
    Keeps { s with channels := fun n => (s.channels n).map (write n) } record where
  fresh := by
    intro n hn
    simp only [h.fresh n hn, Option.map_none]
  known := by
    intro client channelId n hn
    obtain ⟨channel, hchannel, rfl, rfl, hhas⟩ := h.known client channelId n hn
    obtain ⟨hclient, hid, hsaid⟩ := hkept n channel
    exact ⟨write n channel, by simp only [hchannel, Option.map_some], hclient, hid, hsaid _ hhas⟩
  unknown := h.unknown

/-- An object is under one number only. -/
theorem Keeps.unique (h : Keeps s record) {client' : Nat} {channelId' : UInt32}
    (hn : s.channelAt client channelId = some n)
    (hn' : s.channelAt client' channelId' = some n) :
    client' = client ∧ channelId' = channelId := by
  obtain ⟨channel, hchannel, rfl, rfl, -⟩ := h.known client channelId n hn
  obtain ⟨channel', hchannel', rfl, rfl, -⟩ := h.known client' channelId' n hn'
  rw [hchannel] at hchannel'
  cases hchannel'
  exact ⟨rfl, rfl⟩

/-- An object that there is was made before. -/
theorem Keeps.lt_created (h : Keeps s record) (hn : s.channelAt client channelId = some n) :
    n < s.created := by
  obtain ⟨channel, hchannel, -⟩ := h.known client channelId n hn
  by_contra hle
  rw [h.fresh n (not_lt.mp hle)] at hchannel
  cases hchannel

/-- The message about a channel is written to the object under its number. -/
theorem Keeps.setChannel (h : Keeps s record) (hn : s.channelAt client channelId = some n)
    {write : MumbleChannel → MumbleChannel} {said : Said}
    (hkept : ∀ channel, (write channel).client = channel.client ∧
      (write channel).channelId = channel.channelId)
    (hsaid : ∀ channel, channel.Has (record client channelId) → (write channel).Has said) :
    Keeps (setChannel n write s) (record.put client channelId said) where
  fresh := by
    intro m hm
    have hne : m ≠ n := (lt_of_lt_of_le (h.lt_created hn) hm).ne'
    simp only [Userdata.setChannel, Function.update_of_ne hne]
    exact h.fresh m hm
  known := by
    intro client' channelId' m hm
    rw [Record.put_apply]
    by_cases hboth : client' = client ∧ channelId' = channelId
    · obtain ⟨rfl, rfl⟩ := hboth
      obtain rfl : m = n := Option.some.inj (hm.symm.trans hn)
      obtain ⟨channel, hchannel, hclient, hid, hhas⟩ := h.known client' channelId' m hn
      refine ⟨write channel, ?_, (hkept channel).1.trans hclient, (hkept channel).2.trans hid, ?_⟩
      · simp only [Userdata.setChannel, Function.update_self, hchannel, Option.map_some]
      · simp only [and_self, if_true]
        exact hsaid channel hhas
    · have hne : m ≠ n := by
        rintro rfl
        exact hboth (h.unique hn hm)
      rw [if_neg hboth]
      simp only [Userdata.setChannel, Function.update_of_ne hne]
      exact h.known client' channelId' m hm
  unknown := by
    intro client' channelId' hnone
    have hboth : ¬ (client' = client ∧ channelId' = channelId) := by
      rintro ⟨rfl, rfl⟩
      cases hnone.symm.trans hn
    rw [Record.put_apply, if_neg hboth]
    exact h.unknown client' channelId' hnone

/-- Nothing was said of a new object, and it has nothing. -/
theorem Keeps.mumbleChannelGet (h : Keeps s record) (client : Nat) (channelId : UInt32) :
    Keeps (mumbleChannelGet s client channelId).2 record := by
  unfold Userdata.mumbleChannelGet
  split
  · exact h
  · rename_i hnone
    constructor
    · intro n hn
      have hne : n ≠ s.created := (Nat.lt_of_succ_le hn).ne'
      simp only [Function.update_of_ne hne]
      exact h.fresh n (Nat.le_of_succ_le hn)
    · intro client' channelId' n hn
      simp only [State.channelAt] at hn
      rw [channelAt_put] at hn
      split_ifs at hn with hboth
      · obtain ⟨rfl, rfl⟩ := hboth
        obtain rfl := Option.some.inj hn
        refine ⟨newChannel client' channelId', Function.update_self .., rfl, rfl, ?_⟩
        rw [h.unknown _ _ hnone]
        exact ⟨rfl, rfl, rfl, rfl⟩
      · have hne : n ≠ s.created := (h.lt_created hn).ne
        simp only [Function.update_of_ne hne]
        exact h.known client' channelId' n hn
    · intro client' channelId' hn
      simp only [State.channelAt] at hn
      rw [channelAt_put] at hn
      split_ifs at hn with hboth
      exact h.unknown client' channelId' hn

theorem Keeps.packetChannelState (h : Keeps s record) (client : Nat) (state : ChannelState)
    (behind : Nat → UInt8) :
    Keeps (packetChannelState client state behind s).2
      (record.next (.channelState client state behind)) := by
  unfold Userdata.packetChannelState
  simp only [Record.next]
  cases state.channelId with
  | none => exact h
  | some channelId =>
      have hget := h.mumbleChannelGet client channelId
      apply hget.setChannel (channelAt_mumbleChannelGet s client channelId)
      · intro channel
        exact ⟨rfl, rfl⟩
      · intro channel hhas
        obtain ⟨hhash, hlen, henter, hvolume⟩ := hhas
        constructor
        · cases hstate : state.descriptionHash with
          | none => simp [ChannelState.assign, ChannelState.add, hstate, hhash]
          | some hash => simp [ChannelState.assign, ChannelState.add, hstate]
        · cases hstate : state.descriptionHash with
          | none => simp [ChannelState.assign, ChannelState.add, hstate, hlen]
          | some hash => simp [ChannelState.assign, ChannelState.add, hstate]
        · simp [ChannelState.assign, ChannelState.add, henter]
        · exact hvolume

/-- The loop over the volume adjustments. -/
theorem Keeps.adjustVolumes (h : Keeps s record) (client : Nat)
    (adjustments : List (UInt32 × UInt32)) :
    Keeps (adjustVolumes client adjustments s) (Record.adjust client adjustments record) := by
  induction adjustments generalizing s record with
  | nil => exact h
  | cons adjustment rest ih =>
      have hget := h.mumbleChannelGet client adjustment.1
      apply ih
      apply hget.setChannel (channelAt_mumbleChannelGet s client adjustment.1)
      · intro channel
        exact ⟨rfl, rfl⟩
      · intro channel hhas
        exact ⟨hhas.descriptionHash, hhas.descriptionHashLen, hhas.canEnter, rfl⟩

theorem Keeps.packetUserState (h : Keeps s record) (client : Nat) (state : UserState) :
    Keeps (packetUserState client state s).2 (record.next (.userState client state)) := by
  unfold Userdata.packetUserState
  simp only [Record.next]
  cases state.session with
  | none => exact h
  | some session =>
      apply Keeps.adjustVolumes
      unfold mumbleUserGet
      split
      · exact h.of_same (le_refl _) rfl fun _ _ => rfl
      · apply h.of_same
        · exact Nat.le_succ _
        · rfl
        · intro client' channelId
          exact channelAt_same s client client' channelId rfl

theorem Keeps.packetChannelRemove (h : Keeps s record) (client : Nat) (channelId : UInt32) :
    Keeps (packetChannelRemove client channelId s).2
      (record.put client channelId .nothing) where
  fresh := h.fresh
  known := by
    intro client' channelId' n hn
    rw [channelAt_packetChannelRemove] at hn
    split_ifs at hn with hboth
    rw [Record.put_apply, if_neg hboth]
    exact h.known client' channelId' n hn
  unknown := by
    intro client' channelId' hn
    rw [channelAt_packetChannelRemove] at hn
    rw [Record.put_apply]
    split_ifs at hn ⊢ with hboth
    · rfl
    · exact h.unknown client' channelId' hn

theorem Keeps.mumbleClientCleanup (h : Keeps s record) (client : Nat) :
    Keeps (mumbleClientCleanup client s) (Function.update record client fun _ => .nothing) where
  fresh := h.fresh
  known := by
    intro client' channelId n hn
    rw [channelAt_mumbleClientCleanup] at hn
    split_ifs at hn with hclient
    rw [Function.update_of_ne hclient]
    exact h.known client' channelId n hn
  unknown := by
    intro client' channelId hn
    rw [channelAt_mumbleClientCleanup] at hn
    split_ifs at hn with hclient
    · subst hclient
      rw [Function.update_self]
    · rw [Function.update_of_ne hclient]
      exact h.unknown client' channelId hn

theorem Keeps.setPermissions (h : Keeps s record) (client : Nat)
    (channelId permissions : UInt32) :
    Keeps (setPermissions client channelId permissions s) record := by
  have hget := h.mumbleChannelGet client channelId
  rw [← Record.put_own record client channelId]
  apply hget.setChannel (channelAt_mumbleChannelGet s client channelId)
  · intro channel
    exact ⟨rfl, rfl⟩
  · intro channel hhas
    exact ⟨hhas.descriptionHash, hhas.descriptionHashLen, hhas.canEnter,
      hhas.listeningVolumeAdjustment⟩

theorem Keeps.flushPermissions (h : Keeps s record) (client : Nat) :
    Keeps (flushPermissions client s) record := by
  apply h.of_writes
  intro n channel
  split_ifs
  · refine ⟨rfl, rfl, ?_⟩
    intro said hhas
    exact ⟨hhas.descriptionHash, hhas.descriptionHashLen, hhas.canEnter,
      hhas.listeningVolumeAdjustment⟩
  · exact ⟨rfl, rfl, fun _ hhas => hhas⟩

theorem Keeps.packetPermissionQuery (h : Keeps s record) (client : Nat)
    (channelId permissions : Option UInt32) (flush : Option Bool) :
    Keeps (packetPermissionQuery client channelId permissions flush s).2 record := by
  unfold Userdata.packetPermissionQuery
  split
  · exact h.setPermissions client _ _
  · split_ifs
    · exact h.flushPermissions client
    · exact h

/-- No object that is under a number is collected. -/
theorem Keeps.channelGc (h : Keeps s record) (n : Nat) : Keeps (channelGc n s).2 record := by
  unfold Userdata.channelGc
  split
  · exact h
  · rename_i channel hchannel
    split_ifs with htable
    · exact h
    · have hne : ∀ {client channelId m}, s.channelAt client channelId = some m → m ≠ n := by
        rintro client channelId m hm rfl
        obtain ⟨other, hother, rfl, rfl, -⟩ := h.known client channelId m hm
        rw [hchannel] at hother
        cases hother
        exact htable hm
      constructor
      · intro m hm
        simp only [Function.update_apply]
        split_ifs
        · rfl
        · exact h.fresh m hm
      · intro client channelId m hm
        simp only [Function.update_of_ne (hne hm)]
        exact h.known client channelId m hm
      · exact h.unknown

theorem Keeps.mumbleBufferNew (h : Keeps s record) (argument : BufferArgument)
    (block : Option Nat) : Keeps (mumbleBufferNew argument block s).2 record := by
  unfold Userdata.mumbleBufferNew
  simp only
  split
  · exact h.of_same (Nat.le_succ _) rfl fun _ _ => rfl
  · split_ifs
    · exact h.of_same (Nat.le_succ _) rfl fun _ _ => rfl
    · exact h.of_same (Nat.le_succ _) rfl fun _ _ => rfl

theorem Keeps.clientCreateAudioBuffer (h : Keeps s record) (client : Nat)
    (samplerate channels : Int32) (block context srcState : Option Nat) :
    Keeps (clientCreateAudioBuffer client samplerate channels block context srcState s).2
      record := by
  unfold Userdata.clientCreateAudioBuffer
  simp only
  split
  · exact h.of_same (Nat.le_succ _) rfl fun _ _ => rfl
  · exact h.of_same (Nat.le_succ _) rfl fun _ _ => rfl
  · exact h.of_same (Nat.le_succ _) rfl fun _ _ => rfl
  · apply h.of_same
    · exact Nat.le_succ _
    · rfl
    · intro client' channelId
      exact channelAt_same s client client' channelId rfl

theorem Keeps.luabufferGc (h : Keeps s record) (contents : Contents) (n : Nat) :
    Keeps (luabufferGc contents n s).2 record := by
  unfold Userdata.luabufferGc
  split
  · exact h
  · apply h.of_same
    · exact le_refl _
    · rfl
    · intro client' channelId
      rename_i memory _
      simp only [State.channelAt]
      cases pipedClient s.contexts (memory.getD (contents.buffer n)) with
      | none => rfl
      | some client => exact channelAt_same s client client' channelId rfl

theorem Keeps.withWorker (h : Keeps s record) (n : Nat)
    (act : MumbleThreadWorker → Output × MumbleThreadWorker) :
    Keeps (withWorker n act s).2 record := by
  unfold Userdata.withWorker
  split
  · exact h
  · exact h.of_same (le_refl _) rfl fun _ _ => rfl

/-- One event. -/
theorem Keeps.next (h : Keeps s record) (contents : Contents) (e : Event) :
    Keeps (step contents s e).2 (record.next e) := by
  cases e with
  | bufferNew argument block => exact h.mumbleBufferNew argument block
  | createAudioBuffer client samplerate channels block context srcState =>
      exact h.clientCreateAudioBuffer client samplerate channels block context srcState
  | bufferGet n getter =>
      simp only [Userdata.step, bufferGet]
      split <;> exact h
  | bufferGc n => exact h.luabufferGc contents n
  | channelState client state behind => exact h.packetChannelState client state behind
  | userState client state => exact h.packetUserState client state
  | channelRemove client channelId => exact h.packetChannelRemove client channelId
  | cleanup client => exact h.mumbleClientCleanup client
  | serverSync client permissions =>
      cases permissions with
      | none => exact h
      | some permissions => exact h.setPermissions client 0 permissions.toUInt32
  | permissionQuery client channelId permissions flush =>
      exact h.packetPermissionQuery client channelId permissions flush
  | channelGet n getter behind =>
      simp only [step]
      split <;> exact h
  | channelGc n => exact h.channelGc n
  | workerStart => exact h.of_same (Nat.le_succ _) rfl fun _ _ => rfl
  | workerSend n data => exact h.withWorker n _
  | workerMessage n => exact h.withWorker n _
  | workerOnMessage n argument => exact h.withWorker n _
  | workerGc n => exact h.of_same (le_refl _) rfl fun _ _ => rfl

/-- A run. -/
theorem Keeps.run (h : Keeps s record) (contents : Contents) (events : List Event) :
    Keeps (final (step contents) s events) (events.foldl Record.next record) := by
  induction events generalizing s record with
  | nil => exact h
  | cons e rest ih => exact ih (h.next contents e)

end Keeps

/-- The string that `getDescriptionHash` gives for a hash that was said. -/
def hashResult (hash : List UInt8) (behind : Nat → UInt8) : Output :=
  match binToStrhex (safeStrndup hash) behind hash.length with
  | some result => .pushed (.string result)
  | none => .null

/-- After any run, the getters of the object that a client has for a channel tell what was said
of it last. Where nothing was said they tell what the memory of the object held. -/
theorem getters_tell_said (contents : Contents) (events : List Event) (client : Nat)
    (channelId : UInt32) (n : Nat) (behind : Nat → UInt8)
    (h : (final (step contents) start events).channelAt client channelId = some n) :
    let said := events.foldl Record.next .empty client channelId
    let get := fun getter =>
      (step contents (final (step contents) start events) (.channelGet n getter behind)).1
    (∀ hash, said.descriptionHash = some hash →
      get .getDescriptionHash = hashResult hash behind) ∧
    get .canEnter = .pushed (.boolean (said.canEnter.getD (contents.canEnter n))) ∧
    get .getListeningVolumeAdjustment =
      .pushed (.number (said.listeningVolumeAdjustment.getD
        (contents.listeningVolumeAdjustment n))) := by
  obtain ⟨channel, hchannel, -, -, hhas⟩ :=
    (keeps_start.run contents events).known client channelId n h
  intro said get
  refine ⟨?_, ?_, ?_⟩
  · intro hash hsaid
    simp only [get, step, hchannel, channelGet, channelGetDescriptionHash, hhas.descriptionHash,
      hhas.descriptionHashLen]
    simp only [said] at hsaid
    simp only [hsaid, Option.bind_some, Option.map_some, Option.getD_some]
    rfl
  · simp only [get, step, hchannel, channelGet, hhas.canEnter, said]
  · simp only [get, step, hchannel, channelGet, hhas.listeningVolumeAdjustment, said]

end LuaMumble.Userdata
