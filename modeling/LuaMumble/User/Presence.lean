import LuaMumble.User.Listens
import LuaMumble.User.BinaryFields

/-!
Who is there, as a script hears of it. At `OnServerSync` the script notes the channel of every user
that the client has; from then on it follows `OnUserConnect`, `OnUserChannel`, `OnUserRemove` and
`OnDisconnect`. Its callbacks only read, and run on `client->l`. The hooks of the voice packets and
of the channels are left out, and so is what `packet_server_sync` does to the bandwidth.
-/

namespace LuaMumble.User.Presence

open Lib
open LuaMumble.Userdata (LuaValue field strdup)

/-- A `MumbleClient`, as far as users come and go. -/
structure Client extends State where
  connecting : Bool
  session : UInt32

/-- `MumbleProto__UserRemove` -/
structure UserRemove where
  session : UInt32
  actor : Option UInt32
  reason : Option (List UInt8)
  ban : Option Bool

/-- `MumbleProto__ServerSync` -/
structure ServerSync where
  session : Option UInt32
  maxBandwidth : Option UInt32
  welcomeText : Option (List UInt8)
  permissions : Option UInt64

/-- What happens to a client. `channelState` is any message that makes a channel, and `voice` is a
packet of a speaker, by UDP or through the tunnel. -/
inductive Event where
  | connect
  | serverSync (sync : ServerSync)
  | userState (state : UserState) (behind : Behind)
  | userRemove (user : UserRemove)
  | channelState (channelId : UInt32)
  | channelRemove (channelId : UInt32)
  | voice (session : UInt32)
  | disconnect

/-- `mumble_client_new` -/
def mumbleClientNew : Client :=
  { start with connecting := false, session := 0 }

/-- `mumble_disconnect`; the reason that it tells is left out. -/
def mumbleDisconnect (client : Client) : List HookCall × Client :=
  if client.connecting then
    ([⟨"OnDisconnect", []⟩],
      { client with connecting := false, users := .empty, channels := .empty })
  else ([], client)

/-- `packet_server_sync` -/
def packetServerSync (sync : ServerSync) (client : Client) : List HookCall × Client :=
  let client := { client with synced := true, session := sync.session.getD client.session }
  ([⟨"OnServerSync",
      field "user" sync.session (fun session =>
        .optional (mumbleUserRawGet client.toState session)) ++
      field "max_bandwidth" sync.maxBandwidth (fun bandwidth => .integer bandwidth.toNat) ++
      field "welcome_text" sync.welcomeText (fun text => .string (strdup text)) ++
      field "permissions" sync.permissions (fun permissions =>
        .integer permissions.toInt64.toInt)⟩],
    match sync.permissions with
    | some _ => { client with toState := (mumbleChannelGet client.toState 0).2 }
    | none => client)

/-- The event of `OnUserRemove`. -/
def UserRemove.event (user : UserRemove) (s : State) : List (String × LuaValue) :=
  [("user", .optional (mumbleUserRawGet s user.session))] ++
  field "actor" user.actor (fun actor => .optional (mumbleUserRawGet s actor)) ++
  field "reason" user.reason (fun reason => .string (strdup reason)) ++
  field "ban" user.ban .boolean

/-- `packet_user_remove` -/
def packetUserRemove (user : UserRemove) (client : Client) : List HookCall × Client :=
  let removed : HookCall := ⟨"OnUserRemove", user.event client.toState⟩
  if client.session = user.session then
    let client := match user.actor, user.ban with
      | some actor, some _ => { client with toState := (mumbleUserGet client.toState actor).2 }
      | _, _ => client
    let (calls, client) := mumbleDisconnect client
    (removed :: calls, client)
  else ([removed], { client with users := client.users.remove user.session })

/-- What a message does to the client. Nothing is read without a connection. -/
def handle (client : Client) : Event → List HookCall × Client
  | .connect => ([], { client with connecting := true })
  | .disconnect => mumbleDisconnect client
  | e =>
      if client.connecting then
        match e with
        | .serverSync sync => packetServerSync sync client
        | .userState state behind =>
            let (calls, s) := packetUserState state behind client.toState
            (calls, { client with toState := s })
        | .userRemove user => packetUserRemove user client
        | .channelState channelId =>
            ([], { client with toState := (mumbleChannelGet client.toState channelId).2 })
        | .channelRemove channelId =>
            ([], { client with channels := client.channels.remove channelId })
        | .voice session =>
            ([], { client with toState := (mumbleUserGet client.toState session).2 })
        | _ => ([], client)
      else ([], client)

section Script

/-- `user_getSession` -/
def userGetSession (s : State) : LuaValue → Option UInt32
  | .userdata n => (s.objects n).map MumbleUser.session
  | _ => none

/-- `user_getChannel` -/
def userGetChannel (s : State) : LuaValue → LuaValue
  | .userdata n =>
      .optional ((s.objects n).bind fun user => mumbleChannelRawGet s user.channelId)
  | _ => .nil

/-- `channel_getId` of a channel of the client. -/
def channelGetId (s : State) : LuaValue → Option UInt32
  | .userdata n => (s.channels.list.nodes.find? fun node => node.data = n).map Node.index
  | _ => none

/-- `client_getUsers`, as the values of the table that it returns. -/
def clientGetUsers (s : State) : List LuaValue :=
  s.users.list.nodes.map fun node => .optional (mumbleUserRawGet s node.index)

/-- What the script has noted: the users, by their sessions, with the numbers of their channels. A
channel is `none` if the script was told of none. -/
abbrev Notes := UInt32 → Option (Option UInt32)

def Notes.put (notes : Notes) (session : Option UInt32) (note : Option (Option UInt32)) : Notes :=
  match session with
  | some session => Function.update notes session note
  | none => notes

/-- A user is noted with the channel where the client has it. -/
def Notes.add (s : State) (notes : Notes) (user : LuaValue) : Notes :=
  notes.put (userGetSession s user) (some (channelGetId s (userGetChannel s user)))

/-- A field of an event. -/
def get (call : HookCall) (name : String) : LuaValue :=
  (call.event.lookup name).getD .nil

/-- The callbacks of the script. -/
def Notes.hear (s : State) (notes : Notes) (call : HookCall) : Notes :=
  match call.name with
  | "OnServerSync" => (clientGetUsers s).foldl (Notes.add s) fun _ => none
  | "OnUserConnect" => notes.add s (get call "user")
  | "OnUserChannel" =>
      notes.put (userGetSession s (get call "user")) (some (channelGetId s (get call "to")))
  | "OnUserRemove" => notes.put (userGetSession s (get call "user")) none
  | "OnDisconnect" => fun _ => none
  | _ => notes

/-- The client and the script. -/
structure Connection where
  client : Client
  notes : Notes

def Connection.new : Connection :=
  ⟨mumbleClientNew, fun _ => none⟩

/-- One event. What the callbacks read of the objects does not change before its end. -/
def step (c : Connection) (e : Event) : Unit × Connection :=
  let (calls, client) := handle c.client e
  ((), ⟨client, calls.foldl (Notes.hear client.toState) c.notes⟩)

end Script

instance (s : State) (channelId : UInt32) : Decidable (s.Knows channelId) :=
  inferInstanceAs (Decidable ((mumbleChannelRawGet s channelId).isSome = true))

/-- The channel of a user who was announced by a `UserState`. -/
def presence (s : State) (session : UInt32) : Option UInt32 :=
  if (s.userOf session).connected then some (s.userOf session).channelId else none

/-- Nobody has only been heard, and not announced, when the `ServerSync` comes. -/
def Announced (c : Connection) : Event → Prop
  | .serverSync _ => ∀ session, (c.client.users.table session).isSome →
      (c.client.userOf session).connected = true
  | _ => True

/-- The client has the channels that are spoken of. -/
def ChannelsKnown (c : Connection) : Event → Prop
  | .userState state _ => ∀ session, state.session = some session →
      (state.channelId.isSome ∨ (c.client.userOf session).connected = false) →
      c.client.Knows (state.channelId.getD (c.client.userOf session).channelId)
  | .serverSync _ => ∀ session channelId, presence c.client.toState session = some channelId →
      c.client.Knows channelId
  | _ => True

section Objects

variable {s : State} {session channelId : UInt32}

/-- The objects are kept in order: the lists mirror the tables, a user is stored under its session,
and each channel has a userdata of its own. -/
structure Kept (s : State) : Prop where
  users : s.users.Mirrored
  channels : s.channels.Mirrored
  own_session : ∀ session n, s.users.table session = some n →
    n < s.created ∧ ∃ user, s.objects n = some user ∧ user.session = session
  own_channel : ∀ channelId n, s.channels.table channelId = some n →
    n < s.created ∧ ∀ other, s.channels.table other = some n → other = channelId

theorem kept_start : Kept start where
  users := Client.Objects.mirrored_empty
  channels := Client.Objects.mirrored_empty
  own_session := fun _ _ h => by cases h
  own_channel := fun _ _ h => by cases h

theorem Kept.userGet (h : Kept s) (session : UInt32) : Kept (mumbleUserGet s session).2 := by
  unfold mumbleUserGet
  split
  · exact h
  · rename_i hnone
    refine ⟨h.users.put hnone _, h.channels, ?_, ?_⟩
    · intro other n hn
      by_cases hother : other = session
      · subst hother
        simp only [Client.Objects.put, Function.update_self, Option.some.injEq] at hn
        subst hn
        exact ⟨Nat.lt_succ_self _, newUser other, Function.update_self .., rfl⟩
      · simp only [Client.Objects.put, Function.update_of_ne hother] at hn
        obtain ⟨hmade, user, huser, hown⟩ := h.own_session other n hn
        refine ⟨Nat.lt_succ_of_lt hmade, user, ?_, hown⟩
        simpa only [Function.update_of_ne hmade.ne] using huser
    · intro channelId n hn
      obtain ⟨hmade, hown⟩ := h.own_channel channelId n hn
      exact ⟨Nat.lt_succ_of_lt hmade, hown⟩

theorem Kept.channelGet (h : Kept s) (channelId : UInt32) :
    Kept (mumbleChannelGet s channelId).2 := by
  unfold mumbleChannelGet
  split
  · exact h
  · rename_i hnone
    refine ⟨h.users, h.channels.put hnone _, ?_, ?_⟩
    · intro session n hn
      obtain ⟨hmade, hown⟩ := h.own_session session n hn
      exact ⟨Nat.lt_succ_of_lt hmade, hown⟩
    · intro other n hn
      simp only [Client.Objects.put] at hn ⊢
      by_cases hother : other = channelId
      · subst hother
        rw [Function.update_self, Option.some.injEq] at hn
        subst hn
        refine ⟨Nat.lt_succ_self _, ?_⟩
        intro other' hn'
        by_contra hne
        rw [Function.update_of_ne hne] at hn'
        exact Nat.lt_irrefl _ (h.own_channel other' _ hn').1
      · rw [Function.update_of_ne hother] at hn
        obtain ⟨hmade, hown⟩ := h.own_channel other n hn
        refine ⟨Nat.lt_succ_of_lt hmade, ?_⟩
        intro other' hn'
        by_cases hother' : other' = channelId
        · subst hother'
          rw [Function.update_self, Option.some.injEq] at hn'
          exact absurd hn'.symm hmade.ne
        · rw [Function.update_of_ne hother'] at hn'
          exact hown other' hn'

theorem Kept.userRemove (h : Kept s) (session : UInt32) :
    Kept { s with users := s.users.remove session } := by
  refine ⟨h.users.remove session, h.channels, ?_, h.own_channel⟩
  intro other n hn
  simp only [Client.Objects.remove, Function.update_apply] at hn
  split_ifs at hn
  exact h.own_session other n hn

theorem Kept.channelRemove (h : Kept s) (channelId : UInt32) :
    Kept { s with channels := s.channels.remove channelId } := by
  refine ⟨h.users, h.channels.remove channelId, h.own_session, ?_⟩
  intro other n hn
  simp only [Client.Objects.remove, Function.update_apply] at hn ⊢
  split_ifs at hn
  obtain ⟨hmade, hown⟩ := h.own_channel other n hn
  refine ⟨hmade, ?_⟩
  intro other' hn'
  split_ifs at hn'
  exact hown other' hn'

theorem Kept.userState (h : Kept s) (state : UserState) (behind : Behind) :
    Kept (packetUserState state behind s).2 := by
  unfold packetUserState
  split
  · exact h
  · rename_i session _
    refine adjustVolumes_keeps Kept (fun s channelId hs => hs.channelGet channelId) _ ?_
    obtain ⟨husers, hchannels, hown, hownChannel⟩ := h.userGet session
    refine ⟨husers, hchannels, ?_, hownChannel⟩
    intro other n hn
    obtain ⟨hmade, user, huser, hsession⟩ := hown other n hn
    refine ⟨hmade, ?_⟩
    by_cases hsame : n = (mumbleUserGet s session).1
    · subst hsame
      have hother : other = session := by
        obtain ⟨-, user', huser', hsession'⟩ := hown session _ table_mumbleUserGet
        rw [huser, Option.some.injEq] at huser'
        rw [← hsession, ← hsession', huser']
      rw [hother]
      exact ⟨_, Function.update_self .., rfl⟩
    · exact ⟨user, by simpa only [Function.update_of_ne hsame] using huser, hsession⟩

theorem Kept.userOf_userGet (h : Kept s) (other : UInt32) :
    (mumbleUserGet s session).2.userOf other = s.userOf other := by
  by_cases hother : other = session
  · rw [hother, userOf_mumbleUserGet]
  · unfold mumbleUserGet
    split
    · rfl
    · simp only [State.userOf, Client.Objects.put, Function.update_of_ne hother]
      cases hn : s.users.table other with
      | none => rfl
      | some n =>
          obtain ⟨hmade, -⟩ := h.own_session other n hn
          simp only [Option.bind_some, Function.update_of_ne hmade.ne]

theorem userOf_channelGet (other : UInt32) :
    (mumbleChannelGet s channelId).2.userOf other = s.userOf other := by
  unfold mumbleChannelGet
  split <;> rfl

theorem table_channelGet : (mumbleChannelGet s channelId).2.users = s.users := by
  unfold mumbleChannelGet
  split <;> rfl

/-- A message about one user leaves the others alone. -/
theorem Kept.userOf_userState (h : Kept s) (state : UserState) (behind : Behind) {other : UInt32}
    (hother : state.session ≠ some other) :
    (packetUserState state behind s).2.userOf other = s.userOf other := by
  unfold packetUserState
  split
  · rfl
  · rename_i session hsession
    have hget : (mumbleUserGet s session).2.userOf other = s.userOf other :=
      h.userOf_userGet other
    rw [userOf_adjustVolumes, ← hget]
    simp only [State.userOf]
    cases hn : (mumbleUserGet s session).2.users.table other with
    | none => rfl
    | some n =>
        have hne : n ≠ (mumbleUserGet s session).1 := by
          rintro rfl
          obtain ⟨-, user, huser, rfl⟩ := (h.userGet session).own_session other _ hn
          obtain ⟨-, user', huser', hsession'⟩ :=
            (h.userGet session).own_session session _ table_mumbleUserGet
          rw [huser, Option.some.injEq] at huser'
          exact hother (hsession.trans (by rw [huser', hsession']))
        simp only [Option.bind_some, Function.update_of_ne hne]

theorem userOf_userRemove (other : UInt32) :
    State.userOf { s with users := s.users.remove session } other =
      if other = session then newUser other else s.userOf other := by
  simp only [State.userOf, Client.Objects.remove, Function.update_apply]
  split_ifs <;> rfl

/-- `getId` of a channel that the client looked up. -/
theorem Kept.getId_rawGet (h : Kept s) (channelId : UInt32) :
    (s.Knows channelId ∧
        channelGetId s (.optional (mumbleChannelRawGet s channelId)) = some channelId) ∨
      (¬ s.Knows channelId ∧
        channelGetId s (.optional (mumbleChannelRawGet s channelId)) = none) := by
  unfold State.Knows
  cases hn : mumbleChannelRawGet s channelId with
  | none => exact Or.inr ⟨by simp, rfl⟩
  | some n =>
      refine Or.inl ⟨rfl, ?_⟩
      have htable : s.channels.table channelId = some n := by
        unfold mumbleChannelRawGet at hn
        split at hn
        · exact hn
        · cases hn
      obtain ⟨node, hnode, -, hdata⟩ := (h.channels.same channelId n).mp htable
      have hfound : (s.channels.list.nodes.find? fun node => node.data = n).isSome = true :=
        List.find?_isSome.mpr ⟨node, hnode, by simpa using hdata⟩
      obtain ⟨found, hfind⟩ := Option.isSome_iff_exists.mp hfound
      have hfoundData : found.data = n := by simpa using List.find?_some hfind
      have hfoundTable : s.channels.table found.index = some n :=
        (h.channels.same found.index n).mpr ⟨found, List.mem_of_find?_eq_some hfind, rfl,
          hfoundData⟩
      change Option.map Node.index (s.channels.list.nodes.find? fun node => node.data = n) = _
      rw [hfind, Option.map_some, (h.own_channel channelId n htable).2 _ hfoundTable]

/-- `getSession` and `getChannel` of a user that the client looked up. -/
theorem Kept.get_rawGet (h : Kept s) (hsmall : session.toNat < 2 ^ 31) {n : Nat}
    (hn : s.users.table session = some n) :
    userGetSession s (.optional (mumbleUserRawGet s session)) = some session ∧
      userGetChannel s (.optional (mumbleUserRawGet s session)) =
        .optional (mumbleChannelRawGet s (s.userOf session).channelId) := by
  obtain ⟨-, user, huser, hsession⟩ := h.own_session session n hn
  have hget : mumbleUserRawGet s session = some n := by
    rw [mumbleUserRawGet, if_pos hsmall, hn]
  have huserOf : s.userOf session = user := by
    rw [State.userOf, hn, Option.bind_some, huser]
    rfl
  rw [hget, huserOf]
  exact ⟨by simp [LuaValue.optional, userGetSession, huser, hsession],
    by simp [LuaValue.optional, userGetChannel, huser]⟩

/-- A session that does not fit the `int` of `lua_rawgeti`, or that nobody has, gives nil. -/
theorem rawGet_nil (hnone : ¬ (session.toNat < 2 ^ 31 ∧ (s.users.table session).isSome)) :
    LuaValue.optional (mumbleUserRawGet s session) = .nil := by
  unfold mumbleUserRawGet
  split
  · next hsmall =>
      have htable : s.users.table session = none :=
        Option.not_isSome_iff_eq_none.mp fun hsome => hnone ⟨hsmall, hsome⟩
      rw [htable]
      rfl
  · rfl

end Objects

section Hearing

variable {s : State} {notes : Notes} {event : List (String × LuaValue)}

theorem hear_serverSync : notes.hear s ⟨"OnServerSync", event⟩ =
    (clientGetUsers s).foldl (Notes.add s) fun _ => none := rfl

theorem hear_userConnect : notes.hear s ⟨"OnUserConnect", event⟩ =
    notes.add s (get ⟨"OnUserConnect", event⟩ "user") := rfl

theorem hear_userChannel : notes.hear s ⟨"OnUserChannel", event⟩ =
    notes.put (userGetSession s (get ⟨"OnUserChannel", event⟩ "user"))
      (some (channelGetId s (get ⟨"OnUserChannel", event⟩ "to"))) := rfl

theorem hear_userRemove : notes.hear s ⟨"OnUserRemove", event⟩ =
    notes.put (userGetSession s (get ⟨"OnUserRemove", event⟩ "user")) none := rfl

theorem hear_userState : notes.hear s ⟨"OnUserState", event⟩ = notes := rfl

end Hearing

section Events

variable {s : State} {session : UInt32}

theorem lookup_field {A : Type} {name other : String} (hne : other ≠ name) (member : Option A)
    (value : A → LuaValue) : (field other member value).lookup name = none := by
  cases member with
  | none => rfl
  | some a => simp [field, List.lookup_cons, beq_eq_false_iff_ne.mpr hne.symm]

theorem lookup_channelsField {name other : String} (hne : other ≠ name)
    (channels : List UInt32) : (channelsField s other channels).lookup name = none := by
  unfold channelsField
  split
  · rfl
  · simp [List.lookup_cons, beq_eq_false_iff_ne.mpr hne.symm]

theorem lookup_single {name other : String} (hne : other ≠ name) (value : LuaValue) :
    [(other, value)].lookup name = none := by
  simp [List.lookup_cons, beq_eq_false_iff_ne.mpr hne.symm]

theorem get_event_user (state : UserState) (behind : Behind) (name : String) :
    get ⟨name, state.event s session behind⟩ "user" = .optional (mumbleUserRawGet s session) := by
  have hvolumes : (if state.listeningVolumeAdjustment.isEmpty then []
      else [("listening_volume_adjustment", .numbers state.listeningVolumeAdjustment)] :
        List (String × LuaValue)).lookup "user" = none := by
    split
    · exact List.lookup_nil
    · exact lookup_single (by decide) _
  have huser : [("user", LuaValue.optional (mumbleUserRawGet s session))].lookup "user" =
      some (.optional (mumbleUserRawGet s session)) := rfl
  unfold get UserState.event
  simp (disch := decide) only [List.lookup_append, huser, hvolumes, lookup_field, lookup_single,
    lookup_channelsField, Option.none_or, Option.getD_some]

theorem get_moved (actor : List (String × LuaValue)) (hactor : ∀ name, name ≠ "actor" →
    actor.lookup name = none) (name : String) (before after : LuaValue) (user : LuaValue) :
    get ⟨name, actor ++ [("from", before), ("to", after), ("user", user)]⟩ "user" = user ∧
      get ⟨name, actor ++ [("from", before), ("to", after), ("user", user)]⟩ "to" = after := by
  simp [get, List.lookup_append, hactor, List.lookup_cons]

theorem get_remove_user (user : UserRemove) :
    get ⟨"OnUserRemove", user.event s⟩ "user" = .optional (mumbleUserRawGet s user.session) := by
  simp [get, UserRemove.event]

end Events

/-- What the script has noted of a user, and where the user is. Where it was told of every channel,
it has to know the channel. -/
def Told (informed : Prop) (note : Option (Option UInt32)) (channelId : Option UInt32) : Prop :=
  note = channelId.map some ∨ ¬ informed ∧ note = some none ∧ channelId.isSome = true

/-- The notes of the script follow the client as soon as it is synced. -/
structure Follows (informed : Prop) (c : Connection) : Prop where
  kept : Kept c.client.toState
  idle : c.client.connecting = false → c.client.users = .empty
  told : c.client.synced = true → ∀ session, session.toNat < 2 ^ 31 →
    Told informed (c.notes session) (presence c.client.toState session)

section Steps

variable {informed : Prop} {s : State} {client : Client} {notes : Notes} {session : UInt32}

theorem told_known (h : Kept s) {channelId : UInt32} (hinformed : informed → s.Knows channelId) :
    Told informed (some (channelGetId s (.optional (mumbleChannelRawGet s channelId))))
      (some channelId) := by
  rcases h.getId_rawGet channelId with ⟨-, hid⟩ | ⟨hunknown, hid⟩
  · exact Or.inl (by rw [hid]; rfl)
  · exact Or.inr ⟨fun h => hunknown (hinformed h), by rw [hid], rfl⟩

theorem put_self (note : Option (Option UInt32)) : notes.put (some session) note session = note :=
  Function.update_self ..

theorem put_of_ne {put : Option UInt32} (hne : put ≠ some session)
    (note : Option (Option UInt32)) : notes.put put note session = notes session := by
  cases put with
  | none => rfl
  | some other => exact Function.update_of_ne (fun heq => hne (by rw [heq])) _ _

/-- What is noted of a user that the client looked up is about nobody else. -/
theorem getSession_ne (h : Kept s) {other : UInt32} (hne : other ≠ session) :
    userGetSession s (.optional (mumbleUserRawGet s other)) ≠ some session := by
  by_cases hthere : other.toNat < 2 ^ 31 ∧ (s.users.table other).isSome
  · obtain ⟨n, hn⟩ := Option.isSome_iff_exists.mp hthere.2
    rw [(h.get_rawGet hthere.1 hn).1]
    exact fun heq => hne (Option.some.inj heq)
  · rw [rawGet_nil hthere]
    rintro ⟨⟩

/-- What the script notes at `OnServerSync`. -/
theorem snapshot (h : Kept s) (hsmall : session.toNat < 2 ^ 31)
    (nodes : List (Node UInt32 Nat)) (hnodes : ∀ node ∈ nodes, (s.users.table node.index).isSome)
    (notes : Notes) :
    ((nodes.map fun node => LuaValue.optional (mumbleUserRawGet s node.index)).foldl
        (Notes.add s) notes) session =
      if session ∈ nodes.map Node.index then
        some (channelGetId s (.optional (mumbleChannelRawGet s (s.userOf session).channelId)))
      else notes session := by
  induction nodes generalizing notes with
  | nil => rfl
  | cons node rest ih =>
      rw [List.map_cons, List.foldl_cons, ih fun node hnode => hnodes node
        (List.mem_cons_of_mem _ hnode)]
      split_ifs with hrest hall hall
      · rfl
      · exact absurd (List.mem_cons_of_mem _ hrest) hall
      · rcases List.mem_cons.mp hall with heq | hmem
        · obtain ⟨n, hn⟩ := Option.isSome_iff_exists.mp (hnodes node List.mem_cons_self)
          rw [← heq] at hn ⊢
          obtain ⟨hsession, hchannel⟩ := h.get_rawGet hsmall hn
          rw [Notes.add, hsession, hchannel, put_self]
        · exact absurd hmem hrest
      · have hne : node.index ≠ session := fun heq => hall (heq ▸ List.mem_cons_self)
        exact put_of_ne (getSession_ne h hne) _

theorem synced_userGet : (mumbleUserGet s session).2.synced = s.synced := by
  unfold mumbleUserGet
  split <;> rfl

theorem rawGet_userGet (channelId : UInt32) :
    mumbleChannelRawGet (mumbleUserGet s session).2 channelId =
      mumbleChannelRawGet s channelId := by
  unfold mumbleUserGet
  split <;> rfl

/-- The hooks of a `UserState`. -/
theorem calls_userState {state : UserState} (behind : Behind)
    (hsession : state.session = some session) :
    (packetUserState state behind s).1 =
      state.moved (mumbleUserGet s session).2 session (s.userOf session) ++
        (if !(s.userOf session).connected && s.synced then
          [⟨"OnUserConnect", state.event (mumbleUserGet s session).2 session behind⟩] else []) ++
        [⟨"OnUserState", state.event (mumbleUserGet s session).2 session behind⟩] := by
  have huser := userOf_mumbleUserGet s session
  rw [State.userOf, table_mumbleUserGet, Option.bind_some] at huser
  unfold packetUserState
  rw [hsession]
  simp only [huser, synced_userGet]

theorem users_userState {state : UserState} (behind : Behind)
    (hsession : state.session = some session) :
    (packetUserState state behind s).2.users = (mumbleUserGet s session).2.users := by
  unfold packetUserState
  rw [hsession]
  refine adjustVolumes_keeps (fun s' => s'.users = (mumbleUserGet s session).2.users) ?_ _ rfl
  intro s' channelId hs'
  rw [table_channelGet, hs']

theorem synced_userState (state : UserState) (behind : Behind) :
    (packetUserState state behind s).2.synced = s.synced := by
  unfold packetUserState
  split
  · rfl
  · refine adjustVolumes_keeps (fun s' => s'.synced = s.synced) ?_ _ synced_userGet
    intro s' channelId hs'
    unfold mumbleChannelGet
    split <;> exact hs'

/-- A channel that was known is found in the same userdata behind the message. -/
theorem rawGet_userState (state : UserState) (behind : Behind) {channelId : UInt32}
    (hknown : s.Knows channelId) :
    mumbleChannelRawGet (packetUserState state behind s).2 channelId =
      mumbleChannelRawGet s channelId := by
  unfold packetUserState
  split
  · rfl
  · refine adjustVolumes_keeps
      (fun s' => mumbleChannelRawGet s' channelId = mumbleChannelRawGet s channelId) ?_ _
      (rawGet_userGet channelId)
    intro s' other hs'
    rw [← hs']
    unfold mumbleChannelGet
    split
    · rfl
    · rename_i hnone
      simp only [mumbleChannelRawGet, Client.Objects.put]
      split
      · rw [Function.update_of_ne]
        rintro rfl
        rw [State.Knows, ← hs', mumbleChannelRawGet, hnone] at hknown
        split at hknown <;> cases hknown
      · rfl

/-- The channel that `OnUserChannel` tells. -/
theorem told_moved (h : Kept s) (state : UserState) (behind : Behind) {channelId : UInt32}
    (hinformed : informed → s.Knows channelId) :
    Told informed (some (channelGetId (packetUserState state behind s).2
      (.optional (mumbleChannelRawGet s channelId)))) (some channelId) := by
  by_cases hknown : s.Knows channelId
  · rw [← rawGet_userState state behind hknown]
    apply told_known (h.userState state behind)
    intro _
    rw [State.Knows, rawGet_userState state behind hknown]
    exact hknown
  · refine Or.inr ⟨fun hex => hknown (hinformed hex), ?_, rfl⟩
    have hnil : mumbleChannelRawGet s channelId = none := by
      simpa [State.Knows] using hknown
    rw [hnil]
    rfl

/-- What the script hears of a `UserState` about the user. -/
theorem heard_userState (h : Kept s) {state : UserState} (behind : Behind)
    (hsession : state.session = some session) (hsmall : session.toNat < 2 ^ 31)
    (hsynced : s.synced = true) (htold : Told informed (notes session) (presence s session))
    (hinformed : informed → (state.channelId.isSome ∨ (s.userOf session).connected = false) →
      s.Knows (state.channelId.getD (s.userOf session).channelId)) :
    Told informed
      ((packetUserState state behind s).1.foldl
        (Notes.hear (packetUserState state behind s).2) notes session)
      (presence (packetUserState state behind s).2 session) := by
  obtain ⟨n, hn⟩ := Option.isSome_iff_exists.mp
    (show ((packetUserState state behind s).2.users.table session).isSome = true by
      rw [users_userState behind hsession, table_mumbleUserGet]
      rfl)
  have hraw : mumbleUserRawGet (mumbleUserGet s session).2 session =
      mumbleUserRawGet (packetUserState state behind s).2 session := by
    rw [mumbleUserRawGet, mumbleUserRawGet, users_userState behind hsession]
  obtain ⟨hgetSession, hgetChannel⟩ := (h.userState state behind).get_rawGet hsmall hn
  have huserOf := userOf_packetUserState (s := s) state behind hsession
  have hpresence : presence (packetUserState state behind s).2 session =
      some (state.channelId.getD (s.userOf session).channelId) := by
    rw [presence, huserOf]
    rfl
  rw [hpresence, calls_userState behind hsession, List.foldl_append, List.foldl_append,
    List.foldl_cons, List.foldl_nil, hear_userState]
  cases hconnected : (s.userOf session).connected with
  | false =>
      have hmoved : state.moved (mumbleUserGet s session).2 session (s.userOf session) = [] := by
        unfold UserState.moved
        split
        · rfl
        · rw [hconnected]
          rfl
      have hknown := fun hex => hinformed hex (Or.inr hconnected)
      rw [hmoved, hsynced]
      simp only [Bool.not_false, Bool.and_self, if_true, List.foldl_nil, List.foldl_cons]
      rw [hear_userConnect, Notes.add, get_event_user, hraw, hgetSession, hgetChannel, put_self,
        huserOf]
      apply told_known (h.userState state behind)
      intro hex
      rw [State.Knows, UserState.assign, rawGet_userState state behind (hknown hex)]
      exact hknown hex
  | true =>
      simp only [Bool.not_true, Bool.false_and, Bool.false_eq_true, if_false, List.foldl_nil]
      have hwas : presence s session = some (s.userOf session).channelId := by
        rw [presence, hconnected]
        rfl
      rw [hwas] at htold
      cases hchannel : state.channelId with
      | none =>
          rw [UserState.moved, hchannel]
          exact htold
      | some channelId =>
          simp only [UserState.moved, hchannel, hconnected, synced_userGet, hsynced]
          split_ifs with hne
          · simp only [List.foldl_cons, List.foldl_nil]
            have hactor : ∀ name, name ≠ "actor" →
                (field "actor" state.actor fun actor =>
                  LuaValue.optional (mumbleUserRawGet (mumbleUserGet s session).2 actor)).lookup
                    name = none := fun name hname => lookup_field hname.symm _ _
            rw [hear_userChannel, (get_moved _ hactor _ _ _ _).1, (get_moved _ hactor _ _ _ _).2,
              hraw, hgetSession, put_self, rawGet_userGet]
            apply told_moved h
            intro hex
            have hknown := hinformed hex (Or.inl (by rw [hchannel]; rfl))
            rwa [hchannel] at hknown
          · have heq : (s.userOf session).channelId = channelId := by simpa using hne
            rw [heq] at htold
            exact htold

/-- What it hears of the others. -/
theorem heard_userState_other (h : Kept s) {state : UserState} (behind : Behind)
    (hsession : state.session ≠ some session) :
    (packetUserState state behind s).1.foldl
      (Notes.hear (packetUserState state behind s).2) notes session = notes session := by
  cases hother : state.session with
  | none =>
      rw [packetUserState, hother]
      rfl
  | some other =>
      rw [hother] at hsession
      have hne : other ≠ session := fun heq => hsession (by rw [heq])
      have hput : ∀ (notes : Notes) note, notes.put (userGetSession
          (packetUserState state behind s).2 (.optional (mumbleUserRawGet
            (mumbleUserGet s other).2 other))) note session = notes session := by
        intro notes note
        have hraw : mumbleUserRawGet (mumbleUserGet s other).2 other =
            mumbleUserRawGet (packetUserState state behind s).2 other := by
          rw [mumbleUserRawGet, mumbleUserRawGet, users_userState behind hother]
        rw [hraw]
        exact put_of_ne (getSession_ne (h.userState state behind) hne) _
      have hactor : ∀ name, name ≠ "actor" →
          (field "actor" state.actor fun actor =>
            LuaValue.optional (mumbleUserRawGet (mumbleUserGet s other).2 actor)).lookup
              name = none := fun name hname => lookup_field hname.symm _ _
      rw [calls_userState behind hother, List.foldl_append, List.foldl_append, List.foldl_cons,
        List.foldl_nil, hear_userState]
      have hmoved : (state.moved (mumbleUserGet s other).2 other (s.userOf other)).foldl
          (Notes.hear (packetUserState state behind s).2) notes session = notes session := by
        unfold UserState.moved
        split
        · rfl
        · split
          · simp only [List.foldl_cons, List.foldl_nil]
            rw [hear_userChannel, (get_moved _ hactor _ _ _ _).1]
            exact hput _ _
          · rfl
      split
      · simp only [List.foldl_cons, List.foldl_nil]
        rw [hear_userConnect, Notes.add, get_event_user, hput]
        exact hmoved
      · exact hmoved

variable {c : Connection}

theorem presence_congr {s' : State} (huserOf : s'.userOf session = s.userOf session) :
    presence s' session = presence s session := by
  rw [presence, huserOf, presence]

/-- What the script does not hear of, and what changes no user. -/
theorem Follows.quiet (h : Follows informed c) {client : Client} (hkept : Kept client.toState)
    (hidle : client.connecting = false → client.users = .empty)
    (hsynced : client.synced = c.client.synced)
    (huserOf : ∀ session, client.userOf session = c.client.userOf session) :
    Follows informed ⟨client, c.notes⟩ where
  kept := hkept
  idle := hidle
  told := by
    intro hsynced' session hsmall
    rw [presence_congr (huserOf session)]
    exact h.told (hsynced ▸ hsynced') session hsmall

/-- Without users, and without notes. -/
theorem presence_empty (hempty : s.users = .empty) : presence s session = none := by
  rw [presence, State.userOf, hempty]
  rfl

theorem Follows.disconnect (h : Follows informed c) :
    Follows informed ⟨(mumbleDisconnect c.client).2,
      (mumbleDisconnect c.client).1.foldl (Notes.hear (mumbleDisconnect c.client).2.toState)
        c.notes⟩ := by
  unfold mumbleDisconnect
  split
  · refine ⟨⟨Client.Objects.mirrored_empty, Client.Objects.mirrored_empty, ?_, ?_⟩,
      fun _ => rfl, ?_⟩
    · intro session n hn
      cases hn
    · intro channelId n hn
      cases hn
    · intro _ session _
      rw [presence_empty rfl]
      exact Or.inl rfl
  · exact h

/-- A ServerSync leaves the users as they are and takes away no channel. -/
theorem serverSync_spec (hkept : Kept client.toState) (sync : ServerSync) :
    Kept (packetServerSync sync client).2.toState ∧
      (packetServerSync sync client).2.users = client.users ∧
      (packetServerSync sync client).2.connecting = client.connecting ∧
      (∀ session, (packetServerSync sync client).2.userOf session = client.userOf session) ∧
      ∀ channelId, client.Knows channelId → (packetServerSync sync client).2.Knows channelId := by
  have hsynced : Kept { client.toState with synced := true } :=
    ⟨hkept.users, hkept.channels, hkept.own_session, hkept.own_channel⟩
  unfold packetServerSync
  split
  · refine ⟨hsynced.channelGet 0, table_channelGet, rfl, userOf_channelGet, ?_⟩
    intro channelId hknows
    exact (knows_mumbleChannelGet channelId).mpr (Or.inl hknows)
  · exact ⟨hsynced, rfl, rfl, fun _ => rfl, fun _ => id⟩

theorem Follows.serverSync (h : Follows informed c) (sync : ServerSync)
    (hconnecting : c.client.connecting = true)
    (hannounced : ∀ session, (c.client.users.table session).isSome →
      (c.client.userOf session).connected = true)
    (hknown : informed → ∀ session channelId, presence c.client.toState session = some channelId →
      c.client.Knows channelId) :
    Follows informed ⟨(packetServerSync sync c.client).2,
      (packetServerSync sync c.client).1.foldl
        (Notes.hear (packetServerSync sync c.client).2.toState) c.notes⟩ := by
  obtain ⟨hkept', husers, hconn, huserOf, hknows⟩ := serverSync_spec h.kept sync
  generalize (packetServerSync sync c.client).2 = client' at *
  refine ⟨hkept', ?_, ?_⟩
  · intro hidle
    rw [hconn, hconnecting] at hidle
    cases hidle
  · intro _ session hsmall
    have hcall : ∃ event, (packetServerSync sync c.client).1 = [⟨"OnServerSync", event⟩] := ⟨_, rfl⟩
    obtain ⟨event, hevent⟩ := hcall
    have hnodes : ∀ node ∈ client'.users.list.nodes,
        (client'.users.table node.index).isSome := by
      intro node hnode
      rw [(hkept'.users.same node.index node.data).mpr ⟨node, hnode, rfl, rfl⟩]
      rfl
    simp only [hevent, List.foldl_cons, List.foldl_nil]
    rw [hear_serverSync, clientGetUsers, snapshot hkept' hsmall _ hnodes, presence, huserOf]
    split_ifs with hmem hconnected hconnected
    · apply told_known hkept'
      intro hex
      apply hknows
      apply hknown hex session
      rw [presence, if_pos hconnected]
    · obtain ⟨node, hnode, hindex⟩ := List.mem_map.mp hmem
      have hthere := hnodes node hnode
      rw [hindex, husers] at hthere
      exact absurd (hannounced session hthere) hconnected
    · have hnone : c.client.users.table session = none := by
        rw [← Option.not_isSome_iff_eq_none, ← husers]
        intro hthere
        obtain ⟨n, hn⟩ := Option.isSome_iff_exists.mp hthere
        obtain ⟨node, hnode, hindex, -⟩ := (hkept'.users.same session n).mp hn
        exact hmem (List.mem_map.mpr ⟨node, hnode, hindex⟩)
      rw [State.userOf, hnone] at hconnected
      cases hconnected
    · exact Or.inl rfl

/-- Whatever was noted, nothing is once the client has disconnected. -/
theorem Follows.leave (hkept : Kept client.toState)
    (hconnecting : client.connecting = true) (notes : Notes) :
    Follows informed ⟨(mumbleDisconnect client).2,
      (mumbleDisconnect client).1.foldl (Notes.hear (mumbleDisconnect client).2.toState)
        notes⟩ := by
  have hnotes : Follows informed ⟨{ client with synced := false }, notes⟩ := by
    refine ⟨⟨hkept.users, hkept.channels, hkept.own_session, hkept.own_channel⟩, ?_, ?_⟩
    · intro hidle
      rw [hconnecting] at hidle
      cases hidle
    · rintro ⟨⟩
  have hleft := hnotes.disconnect
  unfold mumbleDisconnect at hleft ⊢
  rw [if_pos hconnecting] at hleft ⊢
  refine ⟨⟨Client.Objects.mirrored_empty, Client.Objects.mirrored_empty, hleft.kept.own_session,
    hleft.kept.own_channel⟩, fun _ => rfl, ?_⟩
  intro _ session _
  rw [presence_empty rfl]
  exact Or.inl rfl

/-- The object of a user that has gone still tells the session to the callbacks. -/
theorem getSession_removed (hkept : Kept s) {n : Nat} (hsmall : session.toNat < 2 ^ 31)
    (hn : s.users.table session = some n) :
    userGetSession { s with users := s.users.remove session }
      (.optional (mumbleUserRawGet s session)) = some session := by
  have hobjects := (hkept.get_rawGet hsmall hn).1
  rw [← hobjects]
  cases mumbleUserRawGet s session <;> rfl

theorem getSession_removed_ne (hkept : Kept s) {removed : UInt32} (hne : removed ≠ session) :
    userGetSession { s with users := s.users.remove removed }
      (.optional (mumbleUserRawGet s removed)) ≠ some session := by
  have hother : userGetSession s (.optional (mumbleUserRawGet s removed)) ≠ some session :=
    getSession_ne hkept hne
  cases hraw : mumbleUserRawGet s removed with
  | none => rintro ⟨⟩
  | some n =>
      rw [hraw] at hother
      exact hother

theorem Follows.userRemove (h : Follows informed c) (user : UserRemove)
    (hconnecting : c.client.connecting = true) :
    Follows informed ⟨(packetUserRemove user c.client).2,
      (packetUserRemove user c.client).1.foldl
        (Notes.hear (packetUserRemove user c.client).2.toState) c.notes⟩ := by
  unfold packetUserRemove
  split
  · -- It is the user of the client.
    split
    · exact @Follows.leave informed
        { c.client with toState := (mumbleUserGet c.client.toState _).2 }
        (h.kept.userGet _) hconnecting _
    · exact Follows.leave h.kept hconnecting _
  · refine ⟨h.kept.userRemove user.session, ?_, ?_⟩
    · intro hidle
      rw [hconnecting] at hidle
      cases hidle
    · intro hsynced session hsmall
      simp only [List.foldl_cons, List.foldl_nil]
      rw [hear_userRemove, get_remove_user]
      have htold := h.told hsynced session hsmall
      by_cases hsame : session = user.session
      · subst hsame
        have hgone : presence { c.client.toState with
            users := c.client.users.remove user.session } user.session = none := by
          rw [presence, userOf_userRemove, if_pos rfl]
          rfl
        rw [hgone]
        cases hn : c.client.users.table user.session with
        | none =>
            have hwas : presence c.client.toState user.session = none := by
              rw [presence, State.userOf, hn]
              rfl
            rw [rawGet_nil (by rw [hn]; simp)]
            rwa [hwas] at htold
        | some n =>
            rw [getSession_removed h.kept hsmall hn, put_self]
            exact Or.inl rfl
      · rw [put_of_ne (getSession_removed_ne h.kept (Ne.symm hsame)),
          presence_congr (s := c.client.toState)]
        · exact htold
        · rw [userOf_userRemove, if_neg hsame]

/-- One event. -/
theorem Follows.step (h : Follows informed c) {e : Event} (hannounced : Announced c e)
    (hknown : informed → ChannelsKnown c e) : Follows informed (step c e).2 := by
  cases hconnecting : c.client.connecting with
  | false =>
      cases e with
      | connect =>
          exact h.quiet h.kept (fun hidle => by cases hidle) rfl fun _ => rfl
      | disconnect => exact h.disconnect
      | serverSync | userState | userRemove | channelState | channelRemove | voice =>
          simp only [Presence.step, handle, hconnecting]
          exact h
  | true =>
      have hnever : ∀ client : Client, client.connecting = true →
          client.connecting = false → client.users = .empty := by
        intro client hconn hidle
        rw [hconn] at hidle
        cases hidle
      cases e with
      | connect => exact h.quiet h.kept (fun hidle => by cases hidle) rfl fun _ => rfl
      | disconnect => exact h.disconnect
      | serverSync sync =>
          simp only [Presence.step, handle, hconnecting, if_true]
          exact h.serverSync sync hconnecting hannounced hknown
      | userState state behind =>
          simp only [Presence.step, handle, hconnecting, if_true]
          refine ⟨h.kept.userState state behind, hnever _ rfl, ?_⟩
          intro hsynced session hsmall
          have hsynced' : c.client.synced = true := by
            rw [← hsynced]
            exact (synced_userState state behind).symm
          have htold := h.told hsynced' session hsmall
          by_cases hsession : state.session = some session
          · exact heard_userState h.kept behind hsession hsmall hsynced' htold
              fun hex => hknown hex session hsession
          · simp only
            rw [heard_userState_other h.kept behind hsession,
              presence_congr (h.kept.userOf_userState state behind hsession)]
            exact htold
      | userRemove user =>
          simp only [Presence.step, handle, hconnecting, if_true]
          exact h.userRemove user hconnecting
      | channelState channelId =>
          simp only [Presence.step, handle, hconnecting, if_true]
          refine h.quiet (h.kept.channelGet channelId) (hnever _ rfl) ?_ userOf_channelGet
          simp only [mumbleChannelGet]
          split <;> rfl
      | channelRemove channelId =>
          simp only [Presence.step, handle, hconnecting, if_true]
          exact h.quiet (h.kept.channelRemove channelId) (hnever _ rfl) rfl fun _ => rfl
      | voice session =>
          simp only [Presence.step, handle, hconnecting, if_true]
          exact h.quiet (h.kept.userGet session) (hnever _ rfl) synced_userGet
            h.kept.userOf_userGet

theorem follows_new : Follows informed .new where
  kept := kept_start
  idle := fun _ => rfl
  told := by rintro ⟨⟩

end Steps

/-- **The hooks tell who is there.** As soon as the client is synced, a script that noted the users
at `OnServerSync` and follows the hooks has noted exactly the users that were announced, over any
number of connections; what it knows of their channels is right, and it knows all of them if the
client had the channels that the messages spoke of. -/
theorem notes_follow (events : List Event)
    (hannounced : Machine.Along step Announced .new events) :
    let c := Machine.final step .new events
    c.client.synced = true → ∀ session, session.toNat < 2 ^ 31 →
      (c.notes session).isSome = (presence c.client.toState session).isSome ∧
      (∀ channelId, c.notes session = some (some channelId) →
        presence c.client.toState session = some channelId) ∧
      (Machine.Along step ChannelsKnown .new events →
        c.notes session = (presence c.client.toState session).map some) := by
  intro c hsynced session hsmall
  have hfollows : Follows False c := Machine.invariant_final_of_along (p := Announced)
    (Follows False) (fun c e h ha => h.step ha False.elim) .new events follows_new hannounced
  refine ⟨?_, ?_, ?_⟩
  · rcases hfollows.told hsynced session hsmall with hnote | ⟨-, hnote, hthere⟩
    · rw [hnote, Option.isSome_map]
    · rw [hnote, hthere]
      rfl
  · intro channelId hchannel
    rcases hfollows.told hsynced session hsmall with hnote | ⟨-, hnote, -⟩
    · rw [hnote] at hchannel
      simpa using hchannel
    · rw [hnote] at hchannel
      cases hchannel
  · intro hknown
    have hinformed : Follows True c := by
      exact Machine.invariant_final_of_along (p := fun c e => Announced c e ∧ ChannelsKnown c e)
        (Follows True) (fun c e h hp => h.step hp.1 fun _ => hp.2) .new events follows_new
        (Machine.along_and hannounced hknown)
    rcases hinformed.told hsynced session hsmall with hnote | ⟨hfalse, -⟩
    · exact hnote
    · exact absurd trivial hfalse

/-- A user is there at the `ServerSync`, another one comes and goes, and the first one moves. -/
def comings : List Event :=
  [.connect, .channelState 0, .userState { session := some 5 } ⟨fun _ => 0, fun _ => 0, fun _ => 0⟩,
    .serverSync ⟨some 5, none, none, some 2⟩, .channelState 3,
    .userState { session := some 6, channelId := some 3 } ⟨fun _ => 0, fun _ => 0, fun _ => 0⟩,
    .voice 6,
    .userState { session := some 5, channelId := some 3 } ⟨fun _ => 0, fun _ => 0, fun _ => 0⟩,
    .userRemove ⟨6, none, none, none⟩]

/-- The only user at the `ServerSync`. -/
theorem comings_users (session : UInt32) (hne : session ≠ 5) :
    (Machine.final step .new (comings.take 3)).client.users.table session = none := by
  simp [comings, Machine.final, step, handle, Connection.new, mumbleClientNew, start,
    packetUserState, mumbleUserGet, mumbleChannelGet, adjustVolumes, Client.Objects.empty,
    Client.Objects.put, hne]

theorem comings_noted :
    (Machine.final step .new comings).notes 5 = some (some 3) ∧
      (Machine.final step .new comings).notes 6 = none := by
  have hannounced : Machine.Along step Announced .new comings := by
    refine ⟨trivial, trivial, trivial, ?_, trivial, trivial, trivial, trivial, trivial, trivial⟩
    intro session hthere
    by_cases hne : session = 5
    · subst hne
      decide
    · change ((Machine.final step .new (comings.take 3)).client.users.table session).isSome
        at hthere
      rw [comings_users session hne] at hthere
      cases hthere
  have hsynced : (Machine.final step .new comings).client.synced = true := by decide
  have hknown : Machine.Along step ChannelsKnown .new comings := by
    refine ⟨trivial, trivial, ?_, ?_, trivial, ?_, trivial, ?_, trivial, trivial⟩
    · rintro _ ⟨⟩ _
      decide
    · intro session channelId hpresence
      change presence (Machine.final step .new (comings.take 3)).client.toState session = _
        at hpresence
      by_cases hne : session = 5
      · have hroot : presence (Machine.final step .new (comings.take 3)).client.toState 5 =
            some 0 := by decide
        rw [hne, hroot] at hpresence
        cases hpresence
        decide
      · rw [presence, State.userOf, comings_users session hne] at hpresence
        cases hpresence
    · rintro _ ⟨⟩ _
      decide
    · rintro _ ⟨⟩ _
      decide
  obtain ⟨-, -, hfive⟩ := notes_follow comings hannounced hsynced 5 (by decide)
  obtain ⟨-, -, hsix⟩ := notes_follow comings hannounced hsynced 6 (by decide)
  exact ⟨(hfive hknown).trans (by decide), (hsix hknown).trans (by decide)⟩

end LuaMumble.User.Presence
