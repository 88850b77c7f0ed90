import LuaMumble.Lib.Machine
import LuaMumble.Lib.NodeList

/-!
The users and channels of a client. The objects of each kind are kept twice: in a Lua table
of the registry, under their session or channel id, and as the data of the nodes of a linked
list with the same ids as indices.
-/

namespace LuaMumble.Client

open Lib

/-- A `MumbleUser`, as one userdata among others. Its session is what it was created with;
the members that messages change are left out. -/
structure MumbleUser where
  userdata : Nat
  session : UInt32
  deriving DecidableEq

/-- A `MumbleChannel`. -/
structure MumbleChannel where
  userdata : Nat
  channelId : UInt32
  deriving DecidableEq

/-- The objects of one kind: `users` and `user_list`, or `channels` and `channel_list`. -/
structure Objects (D : Type) where
  table : UInt32 → Option D
  list : NodeList UInt32 D

/-- What users and channels use of a `MumbleClient`. `created` counts the userdata. -/
structure MumbleClient where
  users : Objects MumbleUser
  channels : Objects MumbleChannel
  created : Nat
  connecting : Bool
  session : UInt32

section Objects

variable {D : Type}

def Objects.empty : Objects D := ⟨fun _ => none, .empty⟩

/-- A new object, in the list and in the table. -/
def Objects.put (objects : Objects D) (id : UInt32) (object : D) : Objects D :=
  { table := Function.update objects.table id (some object)
    list := objects.list.add id object }

/-- The common part of `mumble_user_remove` and `mumble_channel_remove`. -/
def Objects.remove (objects : Objects D) (id : UInt32) : Objects D :=
  { table := Function.update objects.table id none
    list := objects.list.remove id }

end Objects

/-- `mumble_client_new` -/
def mumbleClientNew : MumbleClient :=
  { users := .empty
    channels := .empty
    created := 0
    connecting := false
    session := 0 }

/-- `mumble_user_get`: the user, who is created if there is none. -/
def mumbleUserGet (client : MumbleClient) (session : UInt32) : MumbleUser × MumbleClient :=
  match client.users.table session with
  | some user => (user, client)
  | none =>
      let user : MumbleUser := ⟨client.created, session⟩
      (user, { client with
        users := client.users.put session user
        created := client.created + 1 })

/-- `mumble_user_remove` -/
def mumbleUserRemove (client : MumbleClient) (session : UInt32) : MumbleClient :=
  { client with users := client.users.remove session }

/-- `mumble_channel_get` -/
def mumbleChannelGet (client : MumbleClient) (channelId : UInt32) :
    MumbleChannel × MumbleClient :=
  match client.channels.table channelId with
  | some channel => (channel, client)
  | none =>
      let channel : MumbleChannel := ⟨client.created, channelId⟩
      (channel, { client with
        channels := client.channels.put channelId channel
        created := client.created + 1 })

/-- `mumble_channel_remove` -/
def mumbleChannelRemove (client : MumbleClient) (channelId : UInt32) : MumbleClient :=
  { client with channels := client.channels.remove channelId }

/-- The loop of `mumble_client_cleanup` along `user_list`. -/
def cleanupUsers (client : MumbleClient) : NodeList.Outcome MumbleClient :=
  (NodeList.walk (fun client : MumbleClient => client.users.list)
    (fun node client => mumbleUserRemove client node.index)
    client.users.list.nodes.length (NodeList.first client.users.list.nodes) client).2

/-- The loop of `mumble_client_cleanup` along `channel_list`. -/
def cleanupChannels (client : MumbleClient) : NodeList.Outcome MumbleClient :=
  (NodeList.walk (fun client : MumbleClient => client.channels.list)
    (fun node client => mumbleChannelRemove client node.index)
    client.channels.list.nodes.length (NodeList.first client.channels.list.nodes) client).2

/-- `mumble_client_cleanup`, as far as it is about users and channels. -/
def mumbleClientCleanup (client : MumbleClient) : NodeList.Outcome MumbleClient :=
  match cleanupUsers client with
  | .finished client => cleanupChannels client
  | outcome => outcome

/-- The calls that change the users and channels. -/
inductive Call where
  | userGet (session : UInt32)
  | userRemove (session : UInt32)
  | channelGet (channelId : UInt32)
  | channelRemove (channelId : UInt32)
  | cleanup

def call (client : MumbleClient) : Call → NodeList.Outcome MumbleClient
  | .userGet session => .finished (mumbleUserGet client session).2
  | .userRemove session => .finished (mumbleUserRemove client session)
  | .channelGet channelId => .finished (mumbleChannelGet client channelId).2
  | .channelRemove channelId => .finished (mumbleChannelRemove client channelId)
  | .cleanup => mumbleClientCleanup client

/-- Calls one after the other. Behind one that reads a freed node nothing is said. -/
def calls : MumbleClient → List Call → NodeList.Outcome MumbleClient
  | client, [] => .finished client
  | client, c :: rest =>
      match call client c with
      | .finished client => calls client rest
      | outcome => outcome

/-- The list has one node for each key of the table, with the object that is stored under
the key, and no other node. -/
structure Objects.Mirrored {D : Type} (objects : Objects D) : Prop where
  one_node : (objects.list.nodes.map Node.index).Nodup
  same : ∀ id object, objects.table id = some object ↔
    ∃ node ∈ objects.list.nodes, node.index = id ∧ node.data = object

/-- Nothing is in the table or the list. -/
def Objects.IsEmpty {D : Type} (objects : Objects D) : Prop :=
  (∀ id, objects.table id = none) ∧ objects.list.nodes = []

section Mirrored

variable {D : Type} {objects : Objects D}

theorem Objects.mirrored_empty : (Objects.empty : Objects D).Mirrored :=
  ⟨List.nodup_nil, by simp [Objects.empty]⟩

theorem Objects.Mirrored.no_node (h : objects.Mirrored) {id : UInt32}
    (hnone : objects.table id = none) : ∀ node ∈ objects.list.nodes, node.index ≠ id := by
  intro node hnode hindex
  have hsome := (h.same id node.data).mpr ⟨node, hnode, hindex, rfl⟩
  rw [hnone] at hsome
  cases hsome

theorem Objects.Mirrored.put (h : objects.Mirrored) {id : UInt32}
    (hnone : objects.table id = none) (object : D) : (objects.put id object).Mirrored := by
  have hnew := h.no_node hnone
  refine ⟨?_, ?_⟩
  · change (List.map Node.index (objects.list.add id object).nodes).Nodup
    rw [NodeList.add_nodes, List.map_cons, List.nodup_cons]
    refine ⟨?_, h.one_node⟩
    intro hmem
    obtain ⟨node, hnode, hindex⟩ := List.mem_map.mp hmem
    exact hnew node hnode hindex
  · intro key data
    by_cases hkey : key = id
    · subst hkey
      simp only [Objects.put, Function.update_self, Option.some.injEq, NodeList.add_nodes]
      constructor
      · rintro rfl
        exact ⟨_, List.mem_cons_self .., rfl, rfl⟩
      · rintro ⟨node, hnode, hindex, hdata⟩
        rcases List.mem_cons.mp hnode with rfl | hnode
        · exact hdata
        · exact absurd hindex (hnew node hnode)
    · simp only [Objects.put, Function.update_of_ne hkey, h.same, NodeList.add_nodes]
      constructor
      · rintro ⟨node, hnode, hindex, hdata⟩
        exact ⟨node, List.mem_cons_of_mem _ hnode, hindex, hdata⟩
      · rintro ⟨node, hnode, hindex, hdata⟩
        rcases List.mem_cons.mp hnode with rfl | hnode
        · exact absurd hindex.symm hkey
        · exact ⟨node, hnode, hindex, hdata⟩

theorem Objects.Mirrored.remove (h : objects.Mirrored) (id : UInt32) :
    (objects.remove id).Mirrored := by
  have hleft : ∀ node, node ∈ (objects.list.remove id).nodes ↔
      node ∈ objects.list.nodes ∧ node.index ≠ id :=
    fun node => NodeList.mem_remove_iff h.one_node
  refine ⟨h.one_node.sublist (List.eraseP_sublist.map _), ?_⟩
  intro key data
  simp only [Objects.remove, hleft]
  by_cases hkey : key = id
  · subst hkey
    simp only [Function.update_self]
    constructor
    · rintro ⟨⟩
    · rintro ⟨node, ⟨-, hne⟩, hindex, -⟩
      exact absurd hindex hne
  · rw [Function.update_of_ne hkey, h.same]
    constructor
    · rintro ⟨node, hnode, hindex, hdata⟩
      exact ⟨node, ⟨hnode, fun heq => hkey (hindex ▸ heq)⟩, hindex, hdata⟩
    · rintro ⟨node, ⟨hnode, -⟩, hindex, hdata⟩
      exact ⟨node, hnode, hindex, hdata⟩

/-- Where the list is empty, so is the table. -/
theorem Objects.Mirrored.isEmpty (h : objects.Mirrored) (hnodes : objects.list.nodes = []) :
    objects.IsEmpty := by
  refine ⟨?_, hnodes⟩
  intro id
  cases htable : objects.table id with
  | none => rfl
  | some object =>
      obtain ⟨node, hnode, -⟩ := (h.same id object).mp htable
      rw [hnodes] at hnode
      cases hnode

end Mirrored

/-- Both lists mirror their tables. -/
structure MumbleClient.Mirrored (client : MumbleClient) : Prop where
  users : client.users.Mirrored
  channels : client.channels.Mirrored

section Calls

variable {client : MumbleClient}

theorem MumbleClient.mirrored_new : mumbleClientNew.Mirrored :=
  ⟨Objects.mirrored_empty, Objects.mirrored_empty⟩

theorem MumbleClient.Mirrored.userGet (h : client.Mirrored) (session : UInt32) :
    (mumbleUserGet client session).2.Mirrored := by
  unfold mumbleUserGet
  split
  · exact h
  · rename_i hnone
    exact ⟨h.users.put hnone _, h.channels⟩

theorem MumbleClient.Mirrored.userRemove (h : client.Mirrored) (session : UInt32) :
    (mumbleUserRemove client session).Mirrored :=
  ⟨h.users.remove session, h.channels⟩

theorem MumbleClient.Mirrored.channelGet (h : client.Mirrored) (channelId : UInt32) :
    (mumbleChannelGet client channelId).2.Mirrored := by
  unfold mumbleChannelGet
  split
  · exact h
  · rename_i hnone
    exact ⟨h.users, h.channels.put hnone _⟩

theorem MumbleClient.Mirrored.channelRemove (h : client.Mirrored) (channelId : UInt32) :
    (mumbleChannelRemove client channelId).Mirrored :=
  ⟨h.users, h.channels.remove channelId⟩

/-- The first loop of the cleanup comes to its end, and takes out all users. -/
theorem MumbleClient.Mirrored.cleanupUsers (h : client.Mirrored) :
    ∃ cleaned, cleanupUsers client = .finished cleaned ∧ cleaned.Mirrored ∧
      cleaned.users.IsEmpty ∧ cleaned.connecting = client.connecting := by
  obtain ⟨hwalk, hempty⟩ := NodeList.walk_removing
    (fun client : MumbleClient => client.users.list)
    (fun node client => mumbleUserRemove client node.index) (fun _ _ => rfl) client
    (Nat.le_refl _)
  obtain ⟨hcleaned, hconnecting⟩ := List.foldlRecOn
    (motive := fun cleaned : MumbleClient =>
      cleaned.Mirrored ∧ cleaned.connecting = client.connecting)
    client.users.list.nodes (fun client node => mumbleUserRemove client node.index) ⟨h, rfl⟩
    (fun _ hkept node _ => ⟨hkept.1.userRemove node.index, hkept.2⟩)
  exact ⟨_, by rw [Client.cleanupUsers, hwalk], hcleaned, hcleaned.users.isEmpty hempty,
    hconnecting⟩

/-- The second loop takes out all channels, and leaves the users alone. -/
theorem MumbleClient.Mirrored.cleanupChannels (h : client.Mirrored) :
    ∃ cleaned, cleanupChannels client = .finished cleaned ∧ cleaned.Mirrored ∧
      cleaned.channels.IsEmpty ∧ cleaned.users = client.users ∧
      cleaned.connecting = client.connecting := by
  obtain ⟨hwalk, hempty⟩ := NodeList.walk_removing
    (fun client : MumbleClient => client.channels.list)
    (fun node client => mumbleChannelRemove client node.index) (fun _ _ => rfl) client
    (Nat.le_refl _)
  obtain ⟨hcleaned, husers, hconnecting⟩ := List.foldlRecOn
    (motive := fun cleaned : MumbleClient => cleaned.Mirrored ∧ cleaned.users = client.users ∧
      cleaned.connecting = client.connecting)
    client.channels.list.nodes (fun client node => mumbleChannelRemove client node.index)
    ⟨h, rfl, rfl⟩ (fun _ hkept node _ => ⟨hkept.1.channelRemove node.index, hkept.2⟩)
  exact ⟨_, by rw [Client.cleanupChannels, hwalk], hcleaned, hcleaned.channels.isEmpty hempty,
    husers, hconnecting⟩

theorem MumbleClient.Mirrored.cleanup (h : client.Mirrored) :
    ∃ cleaned, mumbleClientCleanup client = .finished cleaned ∧ cleaned.Mirrored ∧
      cleaned.users.IsEmpty ∧ cleaned.channels.IsEmpty ∧
      cleaned.connecting = client.connecting := by
  obtain ⟨middle, hmiddle, hmirrored, husers, hconnecting⟩ := h.cleanupUsers
  obtain ⟨cleaned, hcleaned, hlast, hchannels, hkept, hsame⟩ := hmirrored.cleanupChannels
  refine ⟨cleaned, ?_, hlast, hkept ▸ husers, hchannels, hsame.trans hconnecting⟩
  rw [mumbleClientCleanup, hmiddle]
  exact hcleaned

/-- One call. -/
theorem MumbleClient.Mirrored.call (h : client.Mirrored) (c : Call) :
    ∃ client', call client c = .finished client' ∧ client'.Mirrored := by
  cases c with
  | userGet session => exact ⟨_, rfl, h.userGet session⟩
  | userRemove session => exact ⟨_, rfl, h.userRemove session⟩
  | channelGet channelId => exact ⟨_, rfl, h.channelGet channelId⟩
  | channelRemove channelId => exact ⟨_, rfl, h.channelRemove channelId⟩
  | cleanup =>
      obtain ⟨cleaned, hcleaned, hmirrored, -⟩ := h.cleanup
      exact ⟨cleaned, hcleaned, hmirrored⟩

/-- The run lemma. -/
theorem MumbleClient.Mirrored.calls (h : client.Mirrored) (cs : List Call) :
    ∃ client', calls client cs = .finished client' ∧ client'.Mirrored := by
  induction cs generalizing client with
  | nil => exact ⟨client, rfl, h⟩
  | cons c rest ih =>
      obtain ⟨next, hnext, hmirrored⟩ := h.call c
      obtain ⟨last, hlast, hkept⟩ := ih hmirrored
      exact ⟨last, by rw [Client.calls, hnext]; exact hlast, hkept⟩

end Calls

/-- After any calls the lists mirror the tables, and a cleanup that comes next empties both. -/
theorem lists_mirror_tables (cs : List Call) :
    ∃ client, calls mumbleClientNew cs = .finished client ∧ client.Mirrored ∧
      ∃ cleaned, mumbleClientCleanup client = .finished cleaned ∧
        cleaned.users.IsEmpty ∧ cleaned.channels.IsEmpty := by
  obtain ⟨client, hclient, hmirrored⟩ := MumbleClient.mirrored_new.calls cs
  obtain ⟨cleaned, hcleaned, -, husers, hchannels, -⟩ := hmirrored.cleanup
  exact ⟨client, hclient, hmirrored, cleaned, hcleaned, husers, hchannels⟩

end LuaMumble.Client
