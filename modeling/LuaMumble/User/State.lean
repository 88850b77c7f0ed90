import LuaMumble.Userdata.Copies

/-!
The users of a client, with what a `UserState` says of them. The objects are the userdata of the
users; a table has them by their sessions, and another one the channels by their numbers. The
callbacks of hooks are left out.
-/

namespace LuaMumble.User

open Lib
open LuaMumble.Lib.TracedRead hiding Entry
open LuaMumble.Client (Objects)
open LuaMumble.Userdata (LuaValue field strdup safeStrndup binToStrhex memoryOf pushlstring)

/-- What `packet_user_state` writes of a `MumbleUser`. A string is `none` where the pointer is
NULL; `texture` and the hashes are the blocks of their copies. -/
structure MumbleUser where
  connected : Bool
  session : UInt32
  userId : UInt32
  name : Option (List UInt8)
  channelId : UInt32
  mute : Bool
  deaf : Bool
  selfMute : Bool
  selfDeaf : Bool
  suppress : Bool
  comment : Option (List UInt8)
  commentHash : Option (List UInt8)
  commentHashLen : Nat
  recording : Bool
  prioritySpeaker : Bool
  texture : Option (List UInt8)
  textureHash : Option (List UInt8)
  textureHashLen : Nat
  hash : Option (List UInt8)
  listens : List UInt32

/-- The user as `mumble_user_get` makes it. -/
def newUser (session : UInt32) : MumbleUser :=
  { connected := false
    session := session
    userId := 0
    name := none
    channelId := 0
    mute := false
    deaf := false
    selfMute := false
    selfDeaf := false
    suppress := false
    comment := none
    commentHash := none
    commentHashLen := 0
    recording := false
    prioritySpeaker := false
    texture := none
    textureHash := none
    textureHashLen := 0
    hash := none
    listens := [] }

/-- `created` counts the userdata. -/
structure State where
  created : Nat
  objects : Nat → Option MumbleUser
  users : Objects Nat
  channels : Objects Nat
  synced : Bool

/-- The members of a `MumbleProto__UserState` that the handler looks at. -/
structure UserState where
  session : Option UInt32 := none
  actor : Option UInt32 := none
  name : Option (List UInt8) := none
  userId : Option UInt32 := none
  channelId : Option UInt32 := none
  mute : Option Bool := none
  deaf : Option Bool := none
  suppress : Option Bool := none
  selfMute : Option Bool := none
  selfDeaf : Option Bool := none
  texture : Option (List UInt8) := none
  comment : Option (List UInt8) := none
  hash : Option (List UInt8) := none
  commentHash : Option (List UInt8) := none
  textureHash : Option (List UInt8) := none
  prioritySpeaker : Option Bool := none
  recording : Option Bool := none
  listeningChannelAdd : List UInt32 := []
  listeningChannelRemove : List UInt32 := []
  listeningVolumeAdjustment : List (UInt32 × UInt32) := []

/-- What lies behind the copies that a step reads. -/
structure Behind where
  texture : Nat → UInt8
  commentHash : Nat → UInt8
  textureHash : Nat → UInt8

/-- A hook that is called with an event. -/
structure HookCall where
  name : String
  event : List (String × LuaValue)

/-- `mumble_user_raw_get`, which converts the session to the `int` of `lua_rawgeti`. -/
def mumbleUserRawGet (s : State) (session : UInt32) : Option Nat :=
  if session.toNat < 2 ^ 31 then s.users.table session else none

/-- `mumble_channel_raw_get` -/
def mumbleChannelRawGet (s : State) (channelId : UInt32) : Option Nat :=
  if channelId.toNat < 2 ^ 31 then s.channels.table channelId else none

/-- `mumble_user_get` -/
def mumbleUserGet (s : State) (session : UInt32) : Nat × State :=
  match s.users.table session with
  | some n => (n, s)
  | none =>
      (s.created, { s with
        created := s.created + 1
        objects := Function.update s.objects s.created (some (newUser session))
        users := s.users.put session s.created })

/-- `mumble_channel_get`; what is in the channel is left out. -/
def mumbleChannelGet (s : State) (channelId : UInt32) : Nat × State :=
  match s.channels.table channelId with
  | some n => (n, s)
  | none =>
      (s.created, { s with
        created := s.created + 1
        channels := s.channels.put channelId s.created })

/-- The writes of `packet_user_state` to the user, but for `connected`. -/
def UserState.assign (state : UserState) (session : UInt32) (user : MumbleUser) : MumbleUser :=
  { user with
    session := session
    name := (state.name.map strdup).or user.name
    channelId := state.channelId.getD user.channelId
    userId := state.userId.getD user.userId
    mute := state.mute.getD user.mute
    deaf := state.deaf.getD user.deaf
    selfMute := state.selfMute.getD user.selfMute
    selfDeaf := state.selfDeaf.getD user.selfDeaf
    suppress := state.suppress.getD user.suppress
    comment := (state.comment.map strdup).or user.comment
    recording := state.recording.getD user.recording
    prioritySpeaker := state.prioritySpeaker.getD user.prioritySpeaker
    texture := match state.texture with
      | some texture => safeStrndup texture
      | none => user.texture
    hash := (state.hash.map strdup).or user.hash
    commentHash := match state.commentHash with
      | some hash => safeStrndup hash
      | none => user.commentHash
    commentHashLen := (state.commentHash.map List.length).getD user.commentHashLen
    textureHash := match state.textureHash with
      | some hash => safeStrndup hash
      | none => user.textureHash
    textureHashLen := (state.textureHash.map List.length).getD user.textureHashLen
    listens := state.listeningChannelRemove.foldl List.erase
      (state.listeningChannelAdd.foldl (fun listens id => id :: listens) user.listens) }

/-- `lua_pushlstring` of a copy with the length that the bytes had. -/
def pushCopy (copy : Option (List UInt8)) (behind : Nat → UInt8) (len : Nat) : LuaValue :=
  .string ((pushlstring len).value (memoryOf (copy.getD []) behind))

/-- The field for a list of channels that is not empty. -/
def channelsField (s : State) (name : String) (channels : List UInt32) :
    List (String × LuaValue) :=
  if channels.isEmpty then []
  else [(name, .array (channels.map (mumbleChannelRawGet s)))]

/-- The event of `OnUserState`. -/
def UserState.event (state : UserState) (s : State) (session : UInt32) (behind : Behind) :
    List (String × LuaValue) :=
  field "actor" state.actor (fun actor => .optional (mumbleUserRawGet s actor)) ++
  [("session", .integer session.toNat)] ++
  field "name" state.name (fun name => .string (strdup name)) ++
  field "channel" state.channelId (fun id => .optional (mumbleChannelRawGet s id)) ++
  field "user_id" state.userId (fun id => .integer id.toNat) ++
  field "mute" state.mute .boolean ++
  field "deaf" state.deaf .boolean ++
  field "self_mute" state.selfMute .boolean ++
  field "self_deaf" state.selfDeaf .boolean ++
  field "suppress" state.suppress .boolean ++
  field "comment" state.comment (fun comment => .string (strdup comment)) ++
  field "recording" state.recording .boolean ++
  field "priority_speaker" state.prioritySpeaker .boolean ++
  field "texture" state.texture (fun texture =>
    pushCopy (safeStrndup texture) behind.texture texture.length) ++
  field "hash" state.hash (fun hash => .string (strdup hash)) ++
  field "comment_hash" state.commentHash (fun hash =>
    .pushstring (binToStrhex (safeStrndup hash) behind.commentHash hash.length)) ++
  field "texture_hash" state.textureHash (fun hash =>
    .pushstring (binToStrhex (safeStrndup hash) behind.textureHash hash.length)) ++
  channelsField s "listening_channel_add" state.listeningChannelAdd ++
  channelsField s "listening_channel_remove" state.listeningChannelRemove ++
  (if state.listeningVolumeAdjustment.isEmpty then []
    else [("listening_volume_adjustment", .numbers state.listeningVolumeAdjustment)]) ++
  [("user", .optional (mumbleUserRawGet s session))]

/-- The call of `OnUserChannel`, if the user is known to have moved. -/
def UserState.moved (state : UserState) (s : State) (session : UInt32) (user : MumbleUser) :
    List HookCall :=
  match state.channelId with
  | none => []
  | some channelId =>
      if user.connected && s.synced && user.channelId ≠ channelId then
        [⟨"OnUserChannel",
          field "actor" state.actor (fun actor => .optional (mumbleUserRawGet s actor)) ++
          [("from", .optional (mumbleChannelRawGet s user.channelId)),
            ("to", .optional (mumbleChannelRawGet s channelId)),
            ("user", .optional (mumbleUserRawGet s session))]⟩]
      else []

/-- The loop over the volume adjustments makes the channels that are not known. -/
def adjustVolumes (adjustments : List (UInt32 × UInt32)) (s : State) : State :=
  adjustments.foldl (fun s adjustment => (mumbleChannelGet s adjustment.1).2) s

/-- `packet_user_state` -/
def packetUserState (state : UserState) (behind : Behind) (s : State) : List HookCall × State :=
  match state.session with
  | none => ([], s)
  | some session =>
      let (n, s) := mumbleUserGet s session
      let user := (s.objects n).getD (newUser session)
      let event := state.event s session behind
      (state.moved s session user ++
          (if !user.connected && s.synced then [⟨"OnUserConnect", event⟩] else []) ++
          [⟨"OnUserState", event⟩],
        adjustVolumes state.listeningVolumeAdjustment { s with
          objects := Function.update s.objects n
            (some { state.assign session user with connected := true }) })

/-- The getters of a user that are about binary members and channels. -/
inductive Getter where
  | getTexture
  | getCommentHash
  | getTextureHash
  | isListening (channelId : UInt32)
  | getListens

/-- `user_isListening`, with the number of the channel. -/
def userIsListening (user : MumbleUser) (channelId : UInt32) : Bool :=
  user.listens.any fun index => index = channelId

/-- `user_getListens`, called on `client->l`, where it pushes the channels. -/
def userGetListens (s : State) (user : MumbleUser) : LuaValue :=
  .table (user.listens.map fun id => (id.toNat, mumbleChannelRawGet s id))

/-- A getter of a user; `none` is the read of a NULL pointer. -/
def userGet (s : State) (user : MumbleUser) (behind : Nat → UInt8) : Getter → Option LuaValue
  | .getTexture => some (.pushstring (user.texture.map strdup))
  | .getCommentHash =>
      (binToStrhex user.commentHash behind user.commentHashLen).map .string
  | .getTextureHash =>
      (binToStrhex user.textureHash behind user.textureHashLen).map .string
  | .isListening channelId => some (.boolean (userIsListening user channelId))
  | .getListens => some (userGetListens s user)

/-- What can happen: messages of the server, and the end of the connection. Of a `ChannelState`
only the number of the channel matters here. -/
inductive Event where
  | userState (state : UserState) (behind : Behind)
  | userRemove (session : UInt32)
  | channelState (channelId : UInt32)
  | channelRemove (channelId : UInt32)
  | serverSync
  | cleanup

def start : State :=
  { created := 0
    objects := fun _ => none
    users := .empty
    channels := .empty
    synced := false }

def step (s : State) : Event → List HookCall × State
  | .userState state behind => packetUserState state behind s
  | .userRemove session => ([], { s with users := s.users.remove session })
  | .channelState channelId => ([], (mumbleChannelGet s channelId).2)
  | .channelRemove channelId => ([], { s with channels := s.channels.remove channelId })
  | .serverSync => ([], { s with synced := true })
  | .cleanup => ([], { s with users := .empty, channels := .empty })

/-- The loop over the volume adjustments keeps what the making of a channel keeps. -/
theorem adjustVolumes_keeps (P : State → Prop)
    (hget : ∀ s channelId, P s → P (mumbleChannelGet s channelId).2)
    (adjustments : List (UInt32 × UInt32)) {s : State} (h : P s) :
    P (adjustVolumes adjustments s) := by
  apply List.foldlRecOn adjustments _ h
  intro s hs adjustment _
  exact hget s adjustment.1 hs

end LuaMumble.User
