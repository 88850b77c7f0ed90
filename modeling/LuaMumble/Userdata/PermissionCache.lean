import LuaMumble.Userdata.Said

/-!
The permissions that a client keeps of its channels. A `PermissionQuery` may give those of one
channel, and it may ask the client to drop those of all channels. The code does the second only
where a message does not do the first.
-/

namespace LuaMumble.Userdata

open Lib
open LuaMumble.Lib.Machine (final)

/-- The permissions that a client keeps of a channel, if it knows the channel. -/
def State.permissionsOf (s : State) (client : Nat) (channelId : UInt32) : Option UInt32 :=
  ((s.channelAt client channelId).bind s.channels).map MumbleChannel.permissions

/-- `MumbleProto__PermissionQuery` -/
structure PermissionQuery where
  channelId : Option UInt32
  permissions : Option UInt32
  flush : Option Bool

/-- The message names the channel together with permissions. -/
def PermissionQuery.Names (query : PermissionQuery) (channelId : UInt32) : Prop :=
  query.channelId = some channelId ∧ query.permissions ≠ none

/-- What the message asks for was done, and nothing else. -/
structure PermissionQuery.Obeyed (query : PermissionQuery) (client : Nat) (s s' : State) :
    Prop where
  flushed : query.flush = some true → ∀ channelId, ¬ query.Names channelId →
    s'.permissionsOf client channelId = (s.permissionsOf client channelId).map fun _ => 0
  named : ∀ channelId permissions, query.channelId = some channelId →
    query.permissions = some permissions → s'.permissionsOf client channelId = some permissions
  others : ∀ client' channelId,
    (client' = client → query.flush ≠ some true ∧ ¬ query.Names channelId) →
      s'.permissionsOf client' channelId = s.permissionsOf client' channelId

/-- A message that asks for a flush and names a channel finds no permissions of another. -/
def PermissionQuery.FlushesAlone (query : PermissionQuery) (client : Nat) (s : State) : Prop :=
  query.flush = some true → ∀ channelId, query.Names channelId →
    ∀ other permissions, other ≠ channelId → s.permissionsOf client other = some permissions →
      permissions = 0

section Permissions

variable {s : State} {record : Record} {client client' n : Nat} {channelId channelId' : UInt32}

/-- A write to the object of one channel. -/
theorem permissionsOf_setChannel (h : Keeps s record)
    (hn : s.channelAt client channelId = some n) (write : MumbleChannel → MumbleChannel) :
    (setChannel n write s).permissionsOf client' channelId' =
      if client' = client ∧ channelId' = channelId then
        (s.channels n).map fun channel => (write channel).permissions
      else s.permissionsOf client' channelId' := by
  have htable : (setChannel n write s).channelAt client' channelId' =
      s.channelAt client' channelId' := rfl
  rw [State.permissionsOf, htable]
  split_ifs with hboth
  · obtain ⟨rfl, rfl⟩ := hboth
    simp only [hn, Option.bind_some, setChannel, Function.update_self, Option.map_map]
    rfl
  · rw [State.permissionsOf]
    cases hm : s.channelAt client' channelId' with
    | none => rfl
    | some m =>
        have hne : m ≠ n := by
          rintro rfl
          exact hboth (h.unique hn hm)
        simp only [Option.bind_some, setChannel, Function.update_of_ne hne]

/-- A channel that had to be made has no permissions yet. -/
theorem permissionsOf_mumbleChannelGet (h : Keeps s record)
    (hother : ¬ (client' = client ∧ channelId' = channelId)) :
    (mumbleChannelGet s client channelId).2.permissionsOf client' channelId' =
      s.permissionsOf client' channelId' := by
  unfold mumbleChannelGet
  split
  · rfl
  · have htable := channelAt_put s client client' channelId channelId' s.created
    rw [if_neg hother] at htable
    rw [State.permissionsOf, State.channelAt]
    dsimp only
    rw [htable, State.permissionsOf]
    cases hm : s.channelAt client' channelId' with
    | none => rfl
    | some m =>
        rw [Option.bind_some, Option.bind_some, Function.update_of_ne (h.lt_created hm).ne]

theorem permissionsOf_setPermissions (h : Keeps s record) (permissions : UInt32) :
    (setPermissions client channelId permissions s).permissionsOf client' channelId' =
      if client' = client ∧ channelId' = channelId then some permissions
      else s.permissionsOf client' channelId' := by
  have hget := h.mumbleChannelGet client channelId
  have hn := channelAt_mumbleChannelGet s client channelId
  rw [setPermissions]
  dsimp only
  rw [permissionsOf_setChannel hget hn]
  split_ifs with hboth
  · obtain ⟨channel, hchannel, -⟩ := hget.known client channelId _ hn
    rw [hchannel]
    rfl
  · exact permissionsOf_mumbleChannelGet h hboth

theorem permissionsOf_flushPermissions (h : Keeps s record) :
    (flushPermissions client s).permissionsOf client' channelId' =
      if client' = client then (s.permissionsOf client' channelId').map fun _ => 0
      else s.permissionsOf client' channelId' := by
  have htable : (flushPermissions client s).channelAt client' channelId' =
      s.channelAt client' channelId' := rfl
  rw [State.permissionsOf, htable, State.permissionsOf]
  cases hm : s.channelAt client' channelId' with
  | none => split_ifs <;> rfl
  | some m =>
      obtain ⟨channel, hchannel, rfl, rfl, -⟩ := h.known client' channelId' m hm
      simp only [Option.bind_some, flushPermissions, hchannel, Option.map_some]
      by_cases hclient : channel.client = client
      · subst hclient
        rw [if_pos hm, if_pos rfl]
      · have hother : s.channelAt client channel.channelId ≠ some m := by
          intro hm'
          exact hclient (h.unique hm' hm).1
        rw [if_neg hother, if_neg hclient]

end Permissions

section Query

variable {s : State} {record : Record} {client : Nat} {query : PermissionQuery}

variable (client) in
/-- A message that names a channel with permissions sets those, and no others. -/
theorem permissionsOf_named (h : Keeps s record) {channelId permissions : UInt32}
    (hid : query.channelId = some channelId) (hpermissions : query.permissions = some permissions)
    (client' : Nat) (channelId' : UInt32) :
    (packetPermissionQuery client query.channelId query.permissions query.flush
        s).2.permissionsOf client' channelId' =
      if client' = client ∧ channelId' = channelId then some permissions
      else s.permissionsOf client' channelId' := by
  rw [hid, hpermissions]
  exact permissionsOf_setPermissions h permissions

/-- Any other message is a flush, or changes nothing. -/
theorem permissionsOf_unnamed (h : Keeps s record) (hnamed : ∀ id, ¬ query.Names id)
    (client' : Nat) (channelId' : UInt32) :
    (packetPermissionQuery client query.channelId query.permissions query.flush
        s).2.permissionsOf client' channelId' =
      if query.flush = some true ∧ client' = client then
        (s.permissionsOf client' channelId').map fun _ => 0
      else s.permissionsOf client' channelId' := by
  have hstate : (packetPermissionQuery client query.channelId query.permissions query.flush s).2 =
      if query.flush = some true then flushPermissions client s else s := by
    unfold PermissionQuery.Names at hnamed
    cases hid : query.channelId with
    | none => rfl
    | some id =>
        cases hpermissions : query.permissions with
        | none => rfl
        | some permissions => exact absurd ⟨hid, by simp [hpermissions]⟩ (hnamed id)
  rw [hstate]
  by_cases hflush : query.flush = some true
  · simp only [hflush, if_true, true_and]
    exact permissionsOf_flushPermissions h
  · simp only [hflush, if_false, false_and]

theorem obeyed_unnamed (h : Keeps s record) (hnamed : ∀ id, ¬ query.Names id) :
    query.Obeyed client s
      (packetPermissionQuery client query.channelId query.permissions query.flush s).2 where
  flushed := by
    intro hflush channelId _
    rw [permissionsOf_unnamed h hnamed, if_pos ⟨hflush, rfl⟩]
  named := by
    intro channelId permissions hid hpermissions
    exact absurd ⟨hid, by simp [hpermissions]⟩ (hnamed channelId)
  others := by
    intro client' channelId hother
    rw [permissionsOf_unnamed h hnamed, if_neg]
    rintro ⟨hflush, hclient⟩
    exact (hother hclient).1 hflush

/-- Where a channel is named, the flush is left out. -/
theorem obeyed_named_iff (h : Keeps s record) {channelId permissions : UInt32}
    (hid : query.channelId = some channelId)
    (hpermissions : query.permissions = some permissions) :
    query.Obeyed client s
        (packetPermissionQuery client query.channelId query.permissions query.flush s).2 ↔
      query.FlushesAlone client s := by
  have hafter := permissionsOf_named client h hid hpermissions
  have hnames (other : UInt32) : query.Names other ↔ other = channelId := by
    simp [PermissionQuery.Names, hid, hpermissions, eq_comm]
  constructor
  · intro hobeyed hflush id hid' other old hne hold
    have hid'' : id = channelId := (hnames id).mp hid'
    have hzero := hobeyed.flushed hflush other (by rwa [hnames, ← hid''])
    rw [hafter, if_neg (fun hboth => hne (hboth.2.trans hid''.symm)), hold] at hzero
    exact Option.some.inj hzero
  · intro halone
    refine ⟨?_, ?_, ?_⟩
    · intro hflush other hother
      rw [hnames] at hother
      rw [hafter, if_neg fun hboth => hother hboth.2]
      cases hold : s.permissionsOf client other with
      | none => rfl
      | some old =>
          rw [halone hflush channelId ((hnames channelId).mpr rfl) other old hother hold]
          rfl
    · intro id given hid' hgiven
      rw [hid] at hid'
      rw [hpermissions] at hgiven
      rw [hafter, if_pos ⟨rfl, (Option.some.inj hid').symm⟩, hgiven]
    · intro client' other hother
      rw [hafter, if_neg]
      rintro ⟨hclient, hsame⟩
      exact (hother hclient).2 ((hnames other).mpr hsame)

end Query

/-- After any run, a `PermissionQuery` does what it asks for and nothing else, if and only if it
does not ask for a flush beside the permissions of a channel, or there was nothing else to drop. -/
theorem permission_query_obeyed_iff (contents : Contents) (events : List Event) (client : Nat)
    (query : PermissionQuery) :
    let s := final (step contents) start events
    query.Obeyed client s
        (packetPermissionQuery client query.channelId query.permissions query.flush s).2 ↔
      query.FlushesAlone client s := by
  intro s
  have hkeeps := keeps_start.run contents events
  by_cases hnamed : ∃ id, query.Names id
  · obtain ⟨id, hid, hsome⟩ := hnamed
    obtain ⟨permissions, hpermissions⟩ := Option.ne_none_iff_exists'.mp hsome
    exact obeyed_named_iff hkeeps hid hpermissions
  · have hnone : ∀ id, ¬ query.Names id := fun id hid => hnamed ⟨id, hid⟩
    refine iff_of_true (obeyed_unnamed hkeeps hnone) ?_
    intro _ id hid
    exact absurd hid (hnone id)

/-- The permissions of channel 1 survive a flush that comes with those of channel 0. -/
theorem flush_left_out :
    let s := final (step quiet) start [.permissionQuery 0 (some 1) (some 5) none]
    ¬ PermissionQuery.Obeyed ⟨some 0, some 4, some true⟩ 0 s
      (packetPermissionQuery 0 (some 0) (some 4) (some true) s).2 := by
  intro s hobeyed
  have hzero := hobeyed.flushed rfl 1 (by simp [PermissionQuery.Names])
  have hkept : (packetPermissionQuery 0 (some 0) (some 4) (some true) s).2.permissionsOf 0 1 =
      some 5 := rfl
  rw [hkept] at hzero
  exact absurd (hzero : some (5 : UInt32) = some 0) (by decide)

end LuaMumble.Userdata
