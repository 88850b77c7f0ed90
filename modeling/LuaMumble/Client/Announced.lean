import LuaMumble.Client.Objects
import Mathlib.Algebra.Ring.Nat

/-!
The users of a client against the users that the server announces. The handlers of TCP
messages and of voice packets look users and channels up; `mumble_user_get` also creates the
user that it does not find. Members that are not ids are left out, and so are the hooks.
-/

namespace LuaMumble.Client

open Lib

/-- The ids of a `MumbleProto__UserState`. -/
structure UserState where
  session : Option UInt32
  listeningVolumeAdjustment : List UInt32

/-- What `packet_user_remove` uses of a `MumbleProto__UserRemove`. -/
structure UserRemove where
  session : UInt32
  actor : Option UInt32
  ban : Option Bool

/-- What `packet_server_sync` uses of a `MumbleProto__ServerSync`. -/
structure ServerSync where
  session : Option UInt32
  permissions : Option UInt64

/-- What `packet_permission_query` uses of a `MumbleProto__PermissionQuery`. -/
structure PermissionQuery where
  channelId : Option UInt32
  permissions : Option UInt32

/-- A packet of `mumble_handle_udp_packet`: the audio of a session, or anything else. -/
inductive UdpPacket where
  | audio (session : UInt32)
  | other

/-- What the client handles. A message is nothing if it cannot be unpacked. `lookup` is a
message whose handler only looks users and channels up: text messages, access lists, user
statistics and others. `sendAudio` is `audio_send_event` with a packet of the client itself. -/
inductive Event where
  | userState (message : Option UserState)
  | userRemove (message : Option UserRemove)
  | serverSync (message : Option ServerSync)
  | channelState (channelId : Option UInt32)
  | channelRemove (channelId : UInt32)
  | permissionQuery (message : Option PermissionQuery)
  | lookup
  | udp (packet : UdpPacket)
  | tunnel (packet : UdpPacket)
  | sendAudio
  | disconnect

abbrev Handled := NodeList.Outcome MumbleClient

/-- `mumble_disconnect` -/
def mumbleDisconnect (client : MumbleClient) : Handled :=
  if client.connecting then mumbleClientCleanup { client with connecting := false }
  else .finished client

/-- `mumble_user_raw_get`, which converts the session to the `int` of `lua_rawgeti`. -/
def mumbleUserRawGet (client : MumbleClient) (session : UInt32) : Option MumbleUser :=
  if session.toNat < 2 ^ 31 then client.users.table session else none

/-- `client_getUsers`, as the sessions of the users in the table that it returns. It pushes the
users on `client->l`, and scripts call it on that state, not in a coroutine. -/
def getUsers (client : MumbleClient) : List UInt32 :=
  client.users.list.nodes.filterMap fun node =>
    (mumbleUserRawGet client node.index).map MumbleUser.session

/-- `packet_user_state` -/
def packetUserState (client : MumbleClient) : Option UserState → MumbleClient
  | none => client
  | some state =>
      match state.session with
      | none => client
      | some session =>
          state.listeningVolumeAdjustment.foldl
            (fun client channelId => (mumbleChannelGet client channelId).2)
            (mumbleUserGet client session).2

/-- `packet_user_remove` -/
def packetUserRemove (client : MumbleClient) : Option UserRemove → Handled
  | none => .finished client
  | some user =>
      if client.session = user.session then
        match user.actor, user.ban with
        | some actor, some _ => mumbleDisconnect (mumbleUserGet client actor).2
        | _, _ => mumbleDisconnect client
      else .finished (mumbleUserRemove client user.session)

/-- `packet_server_sync`; it creates the root channel if there is none. -/
def packetServerSync (client : MumbleClient) : Option ServerSync → MumbleClient
  | none => client
  | some sync =>
      let client := { client with session := sync.session.getD client.session }
      match sync.permissions with
      | some _ => (mumbleChannelGet client 0).2
      | none => client

/-- `packet_permission_query` -/
def packetPermissionQuery (client : MumbleClient) : Option PermissionQuery → MumbleClient
  | some ⟨some channelId, some _⟩ => (mumbleChannelGet client channelId).2
  | _ => client

/-- `mumble_handle_udp_packet`: the speaking hooks, legacy or not, get the user who speaks. -/
def mumbleHandleUdpPacket (client : MumbleClient) : UdpPacket → MumbleClient
  | .audio session => (mumbleUserGet client session).2
  | .other => client

def handle (client : MumbleClient) : Event → Handled
  | .userState message => .finished (packetUserState client message)
  | .userRemove message => packetUserRemove client message
  | .serverSync message => .finished (packetServerSync client message)
  | .channelState (some channelId) => .finished (mumbleChannelGet client channelId).2
  | .channelState none => .finished client
  | .channelRemove channelId => .finished (mumbleChannelRemove client channelId)
  | .permissionQuery message => .finished (packetPermissionQuery client message)
  | .lookup => .finished client
  | .udp packet => .finished (mumbleHandleUdpPacket client packet)
  | .tunnel packet => .finished (mumbleHandleUdpPacket client packet)
  | .sendAudio => .finished (mumbleUserGet client client.session).2
  | .disconnect => mumbleDisconnect client

/-- The sessions that the server has announced by a `UserState` and not removed. -/
def announce (announced : UInt32 → Bool) : Event → UInt32 → Bool
  | .userState (some ⟨some session, _⟩) => Function.update announced session true
  | .userRemove (some user) => Function.update announced user.session false
  | _ => announced

/-- The client, and what the server has announced so far. -/
structure Connection where
  client : Handled
  announced : UInt32 → Bool

/-- The client while it connects: nobody is announced. -/
def connected : Connection :=
  { client := .finished { mumbleClientNew with connecting := true }
    announced := fun _ => false }

def step (s : Connection) (e : Event) : Unit × Connection :=
  ((), { client := s.client.andThen fun client => handle client e
         announced := announce s.announced e })

/-- The users of the client, in its table and as `getUsers` returns them, are the announced
ones. -/
structure Agrees (client : MumbleClient) (announced : UInt32 → Bool) : Prop where
  table : ∀ session, (client.users.table session).isSome = announced session
  returned : ∀ session, session ∈ getUsers client ↔ announced session = true

/-- While the connection lasts, the users are the announced ones. -/
def UsersAnnounced (s : Connection) : Prop :=
  ∃ client, s.client = .finished client ∧ (client.connecting = true → Agrees client s.announced)

/-- Who is announced has a session below 2^31, and who speaks is announced. -/
def known (client : MumbleClient) (announced : UInt32 → Bool) : Event → Bool
  | .userState (some ⟨some session, _⟩) => session.toNat < 2 ^ 31
  | .udp (.audio session) => announced session
  | .tunnel (.audio session) => announced session
  | .sendAudio => announced client.session
  | _ => true

/-- The event is of known users, as long as the connection lasts. -/
def OfKnown (s : Connection) (e : Event) : Prop :=
  ∀ client, s.client = .finished client → client.connecting = true →
    known client s.announced e = true

/-- The two representations agree, and a user is stored under the own session. -/
structure MumbleClient.WellKept (client : MumbleClient) : Prop extends client.Mirrored where
  own_session : ∀ session user, client.users.table session = some user → user.session = session

section Users

variable {client : MumbleClient} {announced : UInt32 → Bool}

/-- Where the lists mirror the tables, `getUsers` leaves out the sessions that do not fit the
`int` of `lua_rawgeti`. -/
theorem MumbleClient.WellKept.mem_getUsers (h : client.WellKept) (session : UInt32) :
    session ∈ getUsers client ↔
      session.toNat < 2 ^ 31 ∧ (client.users.table session).isSome = true := by
  simp only [getUsers, mumbleUserRawGet, List.mem_filterMap, Option.map_eq_some_iff]
  constructor
  · rintro ⟨node, hnode, user, huser, rfl⟩
    split at huser
    · rename_i hlt
      have hown := h.own_session _ _ huser
      rw [hown]
      exact ⟨hlt, by simp [huser]⟩
    · cases huser
  · rintro ⟨hlt, hsome⟩
    obtain ⟨user, huser⟩ := Option.isSome_iff_exists.mp hsome
    obtain ⟨node, hnode, hindex, -⟩ := (h.users.same session user).mp huser
    refine ⟨node, hnode, user, ?_, h.own_session _ _ huser⟩
    rw [hindex, if_pos hlt, huser]

theorem MumbleClient.WellKept.agrees_iff (h : client.WellKept) :
    Agrees client announced ↔
      (∀ session, (client.users.table session).isSome = announced session) ∧
        ∀ session, announced session = true → session.toNat < 2 ^ 31 := by
  constructor
  · intro hagrees
    refine ⟨hagrees.table, ?_⟩
    intro session hannounced
    have hmem := (hagrees.returned session).mpr hannounced
    exact ((h.mem_getUsers session).mp hmem).1
  · rintro ⟨htable, hsmall⟩
    refine ⟨htable, ?_⟩
    intro session
    rw [h.mem_getUsers, htable]
    exact and_iff_right_of_imp (hsmall session)

@[simp] theorem userGet_isSome (session other : UInt32) :
    ((mumbleUserGet client session).2.users.table other).isSome =
      (decide (other = session) || (client.users.table other).isSome) := by
  unfold mumbleUserGet
  split
  · rename_i user huser
    by_cases heq : other = session
    · simp [heq, huser]
    · simp [heq]
  · by_cases heq : other = session
    · simp [Objects.put, heq]
    · simp [Objects.put, heq]

@[simp] theorem userGet_connecting (session : UInt32) :
    (mumbleUserGet client session).2.connecting = client.connecting := by
  unfold mumbleUserGet
  split <;> rfl

@[simp] theorem channelGet_users (channelId : UInt32) :
    (mumbleChannelGet client channelId).2.users = client.users := by
  unfold mumbleChannelGet
  split <;> rfl

@[simp] theorem channelGet_connecting (channelId : UInt32) :
    (mumbleChannelGet client channelId).2.connecting = client.connecting := by
  unfold mumbleChannelGet
  split <;> rfl

theorem channelGets_users (channelIds : List UInt32) :
    (channelIds.foldl (fun client channelId => (mumbleChannelGet client channelId).2)
        client).users = client.users ∧
      (channelIds.foldl (fun client channelId => (mumbleChannelGet client channelId).2)
        client).connecting = client.connecting := by
  induction channelIds generalizing client with
  | nil => exact ⟨rfl, rfl⟩
  | cons channelId rest ih =>
      obtain ⟨husers, hconnecting⟩ := @ih (mumbleChannelGet client channelId).2
      exact ⟨husers.trans (channelGet_users channelId),
        hconnecting.trans (channelGet_connecting channelId)⟩

theorem MumbleClient.WellKept.of_users (h : client.WellKept) {client' : MumbleClient}
    (husers : client'.users = client.users) (hchannels : client'.channels.Mirrored) :
    client'.WellKept :=
  ⟨⟨husers ▸ h.users, hchannels⟩, husers ▸ h.own_session⟩

theorem MumbleClient.WellKept.userGet (h : client.WellKept) (session : UInt32) :
    (mumbleUserGet client session).2.WellKept := by
  refine ⟨h.toMirrored.userGet session, ?_⟩
  intro other user
  unfold mumbleUserGet
  split
  · exact h.own_session other user
  · simp only [Objects.put]
    by_cases heq : other = session
    · subst heq
      rw [Function.update_self]
      rintro ⟨⟩
      rfl
    · rw [Function.update_of_ne heq]
      exact h.own_session other user

theorem MumbleClient.WellKept.userRemove (h : client.WellKept) (session : UInt32) :
    (mumbleUserRemove client session).WellKept := by
  refine ⟨h.toMirrored.userRemove session, ?_⟩
  intro other user
  simp only [mumbleUserRemove, Objects.remove]
  by_cases heq : other = session
  · subst heq
    rw [Function.update_self]
    rintro ⟨⟩
  · rw [Function.update_of_ne heq]
    exact h.own_session other user

theorem MumbleClient.WellKept.channelGet (h : client.WellKept) (channelId : UInt32) :
    (mumbleChannelGet client channelId).2.WellKept :=
  h.of_users (channelGet_users channelId) (h.toMirrored.channelGet channelId).channels

theorem MumbleClient.WellKept.channelGets (h : client.WellKept) (channelIds : List UInt32) :
    (channelIds.foldl (fun client channelId => (mumbleChannelGet client channelId).2)
      client).WellKept := by
  induction channelIds generalizing client with
  | nil => exact h
  | cons channelId rest ih => exact ih (h.channelGet channelId)

theorem MumbleClient.WellKept.disconnect (h : client.WellKept) :
    ∃ client', mumbleDisconnect client = .finished client' ∧ client'.WellKept ∧
      client'.connecting = false := by
  unfold mumbleDisconnect
  split
  · have hmirrored : ({ client with connecting := false } : MumbleClient).Mirrored :=
      ⟨h.users, h.channels⟩
    obtain ⟨cleaned, hcleaned, hkept, husers, -, hconnecting⟩ := hmirrored.cleanup
    refine ⟨cleaned, hcleaned, ⟨hkept, ?_⟩, hconnecting⟩
    intro session user huser
    rw [husers.1 session] at huser
    cases huser
  · rename_i hnot
    exact ⟨client, rfl, h, by simpa using hnot⟩

/-- Getting the user of a session adds nobody else: the users stay the announced ones if the
session is announced. -/
theorem MumbleClient.WellKept.agrees_userGet_iff (h : client.WellKept)
    (hagrees : Agrees client announced) (session : UInt32) :
    Agrees (mumbleUserGet client session).2 announced ↔ announced session = true := by
  rw [(h.userGet session).agrees_iff]
  rw [h.agrees_iff] at hagrees
  obtain ⟨htable, hsmall⟩ := hagrees
  simp only [userGet_isSome, htable]
  constructor
  · rintro ⟨hsome, -⟩
    simpa using (hsome session).symm
  · intro hannounced
    refine ⟨?_, hsmall⟩
    intro other
    by_cases heq : other = session
    · simp [heq, hannounced]
    · simp [heq]

/-- A `UserState` of a session that fits an `int` adds the user that it announces. -/
theorem MumbleClient.WellKept.agrees_announce_iff (h : client.WellKept)
    (hagrees : Agrees client announced) (session : UInt32) :
    Agrees (mumbleUserGet client session).2 (Function.update announced session true) ↔
      session.toNat < 2 ^ 31 := by
  rw [(h.userGet session).agrees_iff]
  rw [h.agrees_iff] at hagrees
  obtain ⟨htable, hsmall⟩ := hagrees
  simp only [userGet_isSome, htable]
  constructor
  · rintro ⟨-, hlt⟩
    exact hlt session (Function.update_self ..)
  · intro hlt
    constructor
    · intro other
      by_cases heq : other = session
      · simp [heq]
      · simp [heq]
    · intro other
      by_cases heq : other = session
      · rw [heq]
        exact fun _ => hlt
      · rw [Function.update_of_ne heq]
        exact hsmall other

/-- A `UserRemove` takes out the user that is not announced any more. -/
theorem MumbleClient.WellKept.agrees_userRemove (h : client.WellKept)
    (hagrees : Agrees client announced) (session : UInt32) :
    Agrees (mumbleUserRemove client session) (Function.update announced session false) := by
  rw [(h.userRemove session).agrees_iff]
  rw [h.agrees_iff] at hagrees
  obtain ⟨htable, hsmall⟩ := hagrees
  constructor
  · intro other
    by_cases heq : other = session
    · simp [mumbleUserRemove, Objects.remove, heq]
    · simp [mumbleUserRemove, Objects.remove, heq, htable]
  · intro other
    by_cases heq : other = session
    · simp [heq]
    · rw [Function.update_of_ne heq]
      exact hsmall other

theorem agrees_of_users {client' : MumbleClient} (husers : client'.users = client.users) :
    Agrees client' announced ↔ Agrees client announced := by
  have hget : getUsers client' = getUsers client := by
    simp only [getUsers, mumbleUserRawGet, husers]
  constructor
  · rintro ⟨htable, hreturned⟩
    exact ⟨husers ▸ htable, hget ▸ hreturned⟩
  · rintro ⟨htable, hreturned⟩
    exact ⟨husers ▸ htable, hget ▸ hreturned⟩

end Users

/-- What the handler of an event leaves: a well-kept client, on which the connection lasts
only if it did before, and with the announced users if the event is of known ones. -/
structure Handles (client : MumbleClient) (announced : UInt32 → Bool) (e : Event)
    (client' : MumbleClient) : Prop where
  wellKept : client'.WellKept
  connecting : client'.connecting = true → client.connecting = true
  agrees_iff : client.connecting = true → Agrees client announced →
    ((client'.connecting = true → Agrees client' (announce announced e)) ↔
      known client announced e = true)

section Events

variable {client : MumbleClient} {announced : UInt32 → Bool}

/-- An event that leaves the users alone and announces nobody. -/
theorem handles_of_users {e : Event} {client' : MumbleClient} (hkept : client'.WellKept)
    (husers : client'.users = client.users) (hconnecting : client'.connecting = client.connecting)
    (hannounce : announce announced e = announced) (hknown : known client announced e = true) :
    Handles client announced e client' := by
  refine ⟨hkept, fun hc => hconnecting ▸ hc, ?_⟩
  intro _ hagrees
  rw [hannounce]
  exact iff_of_true (fun _ => (agrees_of_users husers).mpr hagrees) hknown

/-- An event of one who speaks. -/
theorem MumbleClient.WellKept.handles_speaking (h : client.WellKept) {e : Event}
    {session : UInt32} (hannounce : announce announced e = announced)
    (hknown : known client announced e = announced session) :
    Handles client announced e (mumbleUserGet client session).2 := by
  refine ⟨h.userGet session, by simp, ?_⟩
  intro hconnecting hagrees
  rw [hannounce, hknown, userGet_connecting, h.agrees_userGet_iff hagrees session]
  exact ⟨fun hsome => hsome hconnecting, fun hsome _ => hsome⟩

/-- An event that ends the connection. -/
theorem MumbleClient.WellKept.handles_disconnect {other : MumbleClient} (h : other.WellKept)
    {e : Event} (hknown : known client announced e = true) :
    ∃ client', mumbleDisconnect other = .finished client' ∧ Handles client announced e client' := by
  obtain ⟨client', hclient', hkept, hconnecting⟩ := h.disconnect
  refine ⟨client', hclient', hkept, by simp [hconnecting], ?_⟩
  intro _ _
  exact iff_of_true (by simp [hconnecting]) hknown

theorem MumbleClient.WellKept.handles_userState (h : client.WellKept)
    (message : Option UserState) :
    Handles client announced (.userState message) (packetUserState client message) := by
  cases message with
  | none => exact handles_of_users h rfl rfl rfl rfl
  | some state =>
      obtain ⟨session, channelIds⟩ := state
      cases session with
      | none => exact handles_of_users h rfl rfl rfl rfl
      | some session =>
          obtain ⟨husers, hsame⟩ :=
            @channelGets_users (mumbleUserGet client session).2 channelIds
          refine ⟨(h.userGet session).channelGets channelIds, ?_, ?_⟩
          · intro hconnecting
            exact @userGet_connecting client session ▸ hsame ▸ hconnecting
          · intro hconnecting hagrees
            have hiff := h.agrees_announce_iff hagrees session
            simp only [packetUserState, announce, known, decide_eq_true_eq, hsame,
              userGet_connecting, hconnecting, forall_const, agrees_of_users husers, hiff]

theorem MumbleClient.WellKept.handles_userRemove (h : client.WellKept)
    (message : Option UserRemove) :
    ∃ client', packetUserRemove client message = .finished client' ∧
      Handles client announced (.userRemove message) client' := by
  cases message with
  | none => exact ⟨client, rfl, handles_of_users h rfl rfl rfl rfl⟩
  | some user =>
      simp only [packetUserRemove]
      split
      · split
        · rename_i actor ban hactor hban
          exact (h.userGet actor).handles_disconnect rfl
        · exact h.handles_disconnect rfl
      · refine ⟨_, rfl, h.userRemove user.session, id, ?_⟩
        intro _ hagrees
        exact iff_of_true (fun _ => h.agrees_userRemove hagrees user.session) rfl

/-- One event. -/
theorem MumbleClient.WellKept.handle (h : client.WellKept) (e : Event) :
    ∃ client', handle client e = .finished client' ∧ Handles client announced e client' := by
  cases e with
  | userState message => exact ⟨_, rfl, h.handles_userState message⟩
  | userRemove message => exact h.handles_userRemove message
  | serverSync message =>
      refine ⟨_, rfl, ?_⟩
      cases message with
      | none => exact handles_of_users h rfl rfl rfl rfl
      | some sync =>
          have hsync : ({ client with session := sync.session.getD client.session } :
              MumbleClient).WellKept := h.of_users rfl h.channels
          simp only [packetServerSync]
          split
          · exact handles_of_users (hsync.channelGet 0) (channelGet_users 0)
              (channelGet_connecting 0) rfl rfl
          · exact handles_of_users hsync rfl rfl rfl rfl
  | channelState channelId =>
      cases channelId with
      | none => exact ⟨_, rfl, handles_of_users h rfl rfl rfl rfl⟩
      | some channelId =>
          exact ⟨_, rfl, handles_of_users (h.channelGet channelId) (channelGet_users channelId)
            (channelGet_connecting channelId) rfl rfl⟩
  | channelRemove channelId =>
      have hkept : (mumbleChannelRemove client channelId).WellKept :=
        h.of_users rfl (h.toMirrored.channelRemove channelId).channels
      exact ⟨_, rfl, handles_of_users hkept rfl rfl rfl rfl⟩
  | permissionQuery message =>
      refine ⟨_, rfl, ?_⟩
      unfold packetPermissionQuery
      split
      · rename_i channelId permissions
        exact handles_of_users (h.channelGet channelId) (channelGet_users channelId)
          (channelGet_connecting channelId) rfl rfl
      · exact handles_of_users h rfl rfl rfl rfl
  | lookup => exact ⟨_, rfl, handles_of_users h rfl rfl rfl rfl⟩
  | udp packet =>
      cases packet with
      | audio session => exact ⟨_, rfl, h.handles_speaking rfl rfl⟩
      | other => exact ⟨_, rfl, handles_of_users h rfl rfl rfl rfl⟩
  | tunnel packet =>
      cases packet with
      | audio session => exact ⟨_, rfl, h.handles_speaking rfl rfl⟩
      | other => exact ⟨_, rfl, handles_of_users h rfl rfl rfl rfl⟩
  | sendAudio => exact ⟨_, rfl, h.handles_speaking rfl rfl⟩
  | disconnect => exact h.handles_disconnect rfl

end Events

theorem wellKept_connected :
    ({ mumbleClientNew with connecting := true } : MumbleClient).WellKept :=
  ⟨⟨Objects.mirrored_empty, Objects.mirrored_empty⟩, nofun⟩

/-- The step lemma: the users stay the announced ones just when the event is of known ones. -/
theorem usersAnnounced_step_iff {s : Connection} {client : MumbleClient}
    (hclient : s.client = .finished client) (h : client.WellKept) (hgood : UsersAnnounced s)
    (e : Event) : UsersAnnounced (step s e).2 ↔ OfKnown s e := by
  obtain ⟨client', hclient', hhandles⟩ :
      ∃ client', handle client e = .finished client' ∧ Handles client s.announced e client' :=
    h.handle e
  have hnext : (step s e).2.client = .finished client' := by
    simp only [step, hclient, NodeList.Outcome.andThen, hclient']
  obtain ⟨before, hbefore, hagrees⟩ := hgood
  rw [hclient] at hbefore
  cases hbefore
  simp only [UsersAnnounced, hnext, OfKnown, hclient, NodeList.Outcome.finished.injEq,
    exists_eq_left', forall_eq']
  cases hconnecting : client.connecting with
  | true =>
      have hiff := hhandles.agrees_iff hconnecting (hagrees hconnecting)
      exact hiff.trans ⟨fun hknown _ => hknown, fun hknown => hknown rfl⟩
  | false =>
      refine iff_of_true ?_ (by simp)
      intro hc
      have hcontra := hhandles.connecting hc
      rw [hconnecting] at hcontra
      cases hcontra

/-- For every interleaving of messages and voice packets: after each event the users of the
client are the announced ones, just when every event is of known users. -/
theorem users_announced_iff (events : List Event) :
    (∀ n ≤ events.length, UsersAnnounced (Machine.final step connected (events.take n))) ↔
      Machine.Along step OfKnown connected events := by
  refine Machine.holds_along_iff_of_invariant step
    (fun s => ∃ client, s.client = .finished client ∧ client.WellKept) UsersAnnounced ?_ ?_
    connected events ⟨_, rfl, wellKept_connected⟩ ?_
  · rintro s e ⟨client, hclient, h⟩ _
    obtain ⟨client', hclient', hhandles⟩ :
        ∃ client', handle client e = .finished client' ∧ Handles client s.announced e client' :=
      h.handle e
    refine ⟨client', ?_, hhandles.wellKept⟩
    simp only [step, hclient, NodeList.Outcome.andThen, hclient']
  · rintro s e ⟨client, hclient, h⟩ hgood
    exact usersAnnounced_step_iff hclient h hgood e
  · refine ⟨_, rfl, fun _ => ⟨fun _ => rfl, ?_⟩⟩
    intro session
    simp [connected, getUsers, mumbleClientNew, Objects.empty]

/-- A voice packet that comes behind the removal of its sender brings the user back. -/
theorem voice_resurrects_user :
    ¬ ∀ (events : List Event), ∀ n ≤ events.length,
      UsersAnnounced (Machine.final step connected (events.take n)) := by
  intro h
  obtain ⟨client, hclient, hagrees⟩ := h
    [.userState (some ⟨some 5, []⟩), .userRemove (some ⟨5, none, none⟩), .udp (.audio 5)] 3
    (by decide)
  cases hclient
  have htable := (hagrees rfl).table 5
  exact absurd htable (by decide)

end LuaMumble.Client
